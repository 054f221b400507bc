import ThreatModel.Json.Shape
import ThreatModel.Project

/-!
# `Project.Shape` — configurations as values

The value of a configuration has one member for the name and description of the project and one for each of its
other settings. A setting that is left out has its default; only the name of the project has none.

## Contents

* `ScanRoot.encode`, `ScanRoot.codec` — scan roots.
* `Project.encode`, `Project.shape` — configurations.
-/

namespace ThreatModel

open Json (Codec Mismatch Origin Shape)

/-! ## Scan roots -/

/-- A scan root: its path, or its path and patterns as an object. -/
def ScanRoot.encode : ScanRoot → Json
  | .plain path => .string path
  | .filtered path ignore =>
    .object [("path", .string path), ("ignore", .array (ignore.map .string))]

/-- The fields of a scan root with patterns. -/
def ScanRoot.filteredShape : Shape (String × List String) where
  title := "PathEntry"
  blank := ("", [])
  fields :=
    [Codec.text.field "path" true Prod.fst fun v r => (v, r.2),
      (Codec.list Codec.text).field "ignore" false Prod.snd fun v r => (r.1, v)]

/-- A scan root read from a value in either of its two forms. -/
def ScanRoot.decode (origin : Origin) : Json → Except Mismatch ScanRoot
  | .string path => .ok (.plain path)
  | .object members =>
    match filteredShape.decode origin (.object members) with
    | .ok (path, ignore) => .ok (.filtered path ignore)
    | .error _ => .error (.noForm filteredShape.title)
  | _ => .error (.noForm filteredShape.title)

/-- Scan roots as values. -/
def ScanRoot.codec : Codec ScanRoot where
  guide := .any
  encode := ScanRoot.encode
  decode := ScanRoot.decode

/-! ## Configurations -/

/-- A text that may be absent, written as null. -/
def optionalText : Codec (Option String) where
  guide := .any
  encode
    | some s => .string s
    | none => .null
  decode origin
    | .null => .ok none
    | value => (Codec.text.decode origin value).map some

/-- The name and the description of a project. -/
def Project.identityShape : Shape (String × String) where
  title := "ProjectInfo"
  blank := ("", "")
  fields :=
    [Codec.text.field "name" true Prod.fst fun v r => (v, r.2),
      Codec.text.field "description" false Prod.snd fun v r => (r.1, v)]

/-- The fields of a configuration. -/
def Project.shape : Shape Project where
  title := "ProjectConfig"
  blank := { Project.default with name := "", description := "" }
  fields :=
    [identityShape.codec.field "project" true (fun p => (p.name, p.description)) fun v p =>
        { p with name := v.1, description := v.2 },
      optionalText.field "repository_url" false Project.repositoryUrl fun v p =>
        { p with repositoryUrl := v },
      (Codec.list Codec.text).field "imports" false Project.imports fun v p => { p with imports := v },
      (Codec.list ScanRoot.codec).field "paths" false Project.scanRoots fun v p =>
        { p with scanRoots := v },
      (Codec.list Codec.text).field "extensions" false Project.extensions fun v p =>
        { p with extensions := v }]

/-- A configuration as a value; an address that is not known is left out. -/
def Project.encode (p : Project) : Json :=
  .object ((Project.shape.fields.map fun field => (field.name, field.encode p)).filter fun member =>
    !(member.1 = "repository_url" && p.repositoryUrl.isNone))

end ThreatModel
