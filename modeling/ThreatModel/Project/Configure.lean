import ThreatModel.Project.Error
import ThreatModel.Setting.Source
import ThreatModel.Yaml.Printer
import ThreatModel.Yaml.Reader

/-!
# `Project.Configure` — configurations in files

The configuration of a project is a YAML file. When it is loaded, variables of the environment are laid over it;
what comes out has to describe a project that can be used.

## Contents

* `Project.ofSetting?` — the configuration that settings describe.
* `Project.load` — the configuration of a file and an environment.
* `Project.toYaml`, `Project.save` — writing a configuration.
* `Project.create` — writing the first configuration.
-/

namespace ThreatModel

/-! ## Settings -/

namespace Setting

/-- The texts in a list. -/
def texts? : Setting → Option (List String)
  | .list items => items.mapM text?
  | _ => none

/-- A text that is not taken from a number or a truth value. -/
def strictText? : Setting → Option String
  | .text value => some value
  | _ => none

/-- The part of a table under a name, read in the given way; a default where there is none. -/
def part? {α : Type} (name : String) (default : α) (read : Setting → Option α) (settings : Setting) : Option α :=
  match settings.entry? name with
  | some value => read value
  | none => some default

end Setting

/-- The scan root that a setting describes: a path, or a table of a path and patterns. -/
def ScanRoot.ofSetting? : Setting → Option ScanRoot
  | .text path => some (.plain path)
  | .table entries => do
    let path ← (← entries.lookup "path").strictText?
    let ignore ← (Setting.table entries).part? "ignore" [] fun
      | .list items => items.mapM Setting.strictText?
      | _ => none
    some (.filtered path ignore)
  | _ => none

/-- The name and the description of a project that a setting describes: a table of both, or a list of both. The
description can be left out. -/
def Project.identity? : Setting → Option (String × String)
  | .table entries => do
    let name ← (← entries.lookup "name").text?
    some (name, ← (Setting.table entries).part? "description" "" Setting.text?)
  | .list (name :: description :: _) => do some (← name.text?, ← description.text?)
  | .list [name] => do some (← name.text?, "")
  | _ => none

/-- The configuration that settings describe. -/
def Project.ofSetting? (settings : Setting) : Option Project := do
  let (name, description) ← Project.identity? (← settings.entry? "project")
  let repositoryUrl ← settings.part? "repository_url" none fun
    | .nothing => some none
    | value => value.text?.map some
  let imports ← settings.part? "imports" [] Setting.texts?
  let scanRoots ← settings.part? "paths" defaultScanRoots fun
    | .list items => items.mapM ScanRoot.ofSetting?
    | _ => none
  let extensions ← settings.part? "extensions" defaultExtensions Setting.texts?
  some { name, description, repositoryUrl, imports, scanRoots, extensions }

/-! ## Loading -/

/-- The configuration in the text of a file, with an environment laid over it. A file holds a mapping. -/
def Project.ofText? (text : String) (environment : List (String × String)) : Option Project := do
  match ← Setting.ofYaml? (← Yaml.read text.toList) with
  | .table entries => Project.ofSetting? (Setting.layer (.table entries) environment)
  | _ => none

/-- The configuration of a project, from the file at a path and an environment. -/
def Project.load (path : String) (environment : List (String × String)) (tree : FileTree) :
    Except ProjectError Project :=
  if !tree.isFile path then .error (.notFound path)
  else
    match (tree.read path).toOption.bind fun text => Project.ofText? text environment with
    | some project => project.validate
    | none => .error .undecodable

/-! ## Saving -/

/-- A list of texts as a value. -/
def Yaml.ofTexts (texts : List String) : Yaml := .sequence (texts.map .text)

/-- A mapping with the given entries. -/
def Yaml.ofEntries (entries : List (String × Yaml)) : Yaml :=
  .mapping (entries.map fun (name, value) => (.text name, value))

/-- A scan root as a value. -/
def ScanRoot.toYaml : ScanRoot → Yaml
  | .plain path => .text path
  | .filtered path ignore => Yaml.ofEntries [("path", .text path), ("ignore", Yaml.ofTexts ignore)]

/-- A configuration as a value; an address that is not known is left out. -/
def Project.toYaml (p : Project) : Yaml :=
  let identity := Yaml.ofEntries [("name", .text p.name), ("description", .text p.description)]
  let address := p.repositoryUrl.toList.map fun url => ("repository_url", Yaml.text url)
  Yaml.ofEntries
    (("project", identity) :: address
      ++ [("imports", Yaml.ofTexts p.imports), ("paths", .sequence (p.scanRoots.map ScanRoot.toYaml)),
        ("extensions", Yaml.ofTexts p.extensions)])

/-- Writes a configuration to the file at a path, in a directory that is created if it is missing. -/
def Project.save (path : String) (p : Project) (system : System := .willing) : FileAction ProjectError Unit := do
  match Path.parent? path with
  | some directory => FileAction.createDirectories .file directory system
  | none => pure ()
  FileAction.write .file path p.toYaml.render.toUTF8 system

/-- Writes the configuration that a new project starts with, over one that is there already only if `force` says
so. -/
def Project.create (path : String) (force : Bool) (system : System := .willing) : FileAction ProjectError Unit := do
  if (← FileAction.look fun tree => tree.contains path) && !force then throw (.alreadyExists path)
  Project.save path Project.default system

end ThreatModel
