import ThreatModel.Document
import ThreatModel.FileTree

/-!
# `Store` — models in files

A store is a directory that holds the documents of one model. Loading it takes all documents or none; saving
writes one document after the other, each to a temporary file that then takes the place of the document, so that
no document is ever half written.

## Contents

* `StoreError` — why a model cannot be loaded or saved.
* `Store` — a directory; `Store.holdsAny`, `Store.holdsAll`.
* `Store.load`, `Store.loadLibrary`, `Store.loadInto` — reading.
* `Store.save` — writing.
-/

namespace ThreatModel

/-- Why a model cannot be loaded or saved. -/
inductive StoreError where
  /-- A document is not there. -/
  | missing (document : Document) (path : String)
  /-- A document does not hold what it should. -/
  | corrupt (document : Document) (fault : Json.LocatedFault)
  /-- A file cannot be read or written. -/
  | file (error : FileError)
deriving DecidableEq, Repr

namespace StoreError

/-- The wording of an error. -/
def message : StoreError → String
  | .missing document path =>
    "Missing graph document " ++ document.fileName ++ ": " ++ path ++ " does not exist"
  | .corrupt document fault => "Corrupt graph document " ++ document.fileName ++ ": " ++ fault.message
  | .file error => "IO error: " ++ error.message

/-- Whether the error says that there is no stored model. -/
def isMissing : StoreError → Bool
  | .missing _ _ => true
  | _ => false

end StoreError

/-- A directory that holds the documents of a model. -/
structure Store where
  directory : String
deriving DecidableEq, Repr

namespace Store

/-- The name of the directory of a store, in the directory of its project. -/
def directoryName : String := "threatmodel"

/-- The path of a document. -/
def path (s : Store) (document : Document) : String := Path.join s.directory document.fileName

/-- Whether any document is there. -/
def holdsAny (s : Store) (tree : FileTree) : Bool := Document.all.any fun d => tree.isFile (s.path d)

/-- Whether all documents are there. -/
def holdsAll (s : Store) (tree : FileTree) : Bool := Document.all.all fun d => tree.isFile (s.path d)

/-! ## Reading -/

/-- The first of the documents that is not there. -/
def requirePresent (s : Store) (tree : FileTree) (documents : List Document) : Except StoreError Unit :=
  match documents.find? fun d => !tree.isFile (s.path d) with
  | some d => .error (.missing d (s.path d))
  | none => .ok ()

/-- A document, read in the given way. -/
def readDocument {α : Type} (s : Store) (tree : FileTree) (document : Document)
    (read : List Char → Except Json.Fault α) : Except StoreError α :=
  match tree.read (s.path document) with
  | .error .notFound => .error (.missing document (s.path document))
  | .error error => .error (.file error)
  | .ok text =>
    match read text.toList with
    | .ok value => .ok value
    | .error fault => .error (.corrupt document (fault.locate text.toList))

/-- The entities in the documents. They belong to no run. -/
def readRegistry (s : Store) (tree : FileTree) : Except StoreError Registry := do
  let controls ← s.readDocument tree .controls (Document.readMap (Entity.shape "Control"))
  let threats ← s.readDocument tree .threats (Document.readMap (Entity.shape "Threat"))
  let components ← s.readDocument tree .components (Document.readMap Component.shape)
  .ok { components, controls, threats, runId := "" }

/-- The stored model. -/
def load (s : Store) (tree : FileTree) : Except StoreError Graph := do
  s.requirePresent tree Document.all
  let registry ← s.readRegistry tree
  let (runId, relations) ← s.readDocument tree .model Document.readModel
  .ok (Graph.ofParts runId registry relations)

/-- The entities of the stored model alone. -/
def loadLibrary (s : Store) (tree : FileTree) : Except StoreError Registry := do
  s.requirePresent tree Document.library
  s.readRegistry tree

/-- Replaces a model by the stored one. A model stays as it is if there is none that can be loaded. -/
def loadInto (s : Store) : ExceptT StoreError (StateM (Graph × FileTree)) Unit := do
  let (_, tree) ← get
  match s.load tree with
  | .ok g => set (g, tree)
  | .error e => throw e

/-! ## Writing -/

/-- The temporary file that a document is first written to. -/
def temporaryPath (s : Store) (document : Document) : String := s.path document ++ ".tmp"

/-- Writes a document: to its temporary file, which then takes its place. -/
def writeDocument (s : Store) (document : Document) (text : String) (system : System := .willing) :
    FileAction StoreError Unit := do
  FileAction.write .file (s.temporaryPath document) text.toUTF8 system
  FileAction.rename .file (s.temporaryPath document) (s.path document) system

/-- Writes all documents of a model. -/
def save (s : Store) (g : Graph) (system : System := .willing) : FileAction StoreError Unit := do
  FileAction.createDirectories .file s.directory system
  Document.all.forM fun document => s.writeDocument document (document.render g) system

end Store
end ThreatModel
