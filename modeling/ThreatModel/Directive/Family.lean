import ThreatModel.Directive.Phrase
import ThreatModel.Relation

/-!
# `Directive.Family` — the ten families of directives

A family is known by its keyword. Three families declare entities; the other seven state relations, and their
keyword may carry a plural `s`.

## Contents

* `Family` — the families, in the order in which they are listed.
* `Family.keywords`, `Family.form` — how a directive of the family is written.
* `Statement`, `Statement.ofFields?` — what a directive says, built from its fields.
-/

namespace ThreatModel
namespace Directive

/-- The families of directives. -/
inductive Family where
  | component
  | control
  | threat
  | mitigate
  | accept
  | transfer
  | expose
  | connect
  | review
  | test
deriving DecidableEq, Repr, Inhabited

namespace Family

/-- The families that declare entities. -/
def declarations : List Family := [.component, .control, .threat]

/-- The families that state relations. -/
def relations : List Family := [.mitigate, .accept, .transfer, .expose, .connect, .review, .test]

/-- All families, declarations first. -/
def all : List Family := declarations ++ relations

/-- Whether a family declares entities. -/
def isDeclaration : Family → Bool
  | .component | .control | .threat => true
  | _ => false

/-- The keyword of a family, in the singular. -/
def stem : Family → List Char
  | .component => "component".toList
  | .control => "control".toList
  | .threat => "threat".toList
  | .mitigate => "mitigate".toList
  | .accept => "accept".toList
  | .transfer => "transfer".toList
  | .expose => "expose".toList
  | .connect => "connect".toList
  | .review => "review".toList
  | .test => "test".toList

/-- The keywords of a family. -/
def keywords (family : Family) : List (List Char) :=
  if family.isDeclaration then [family.stem] else [family.stem, family.stem ++ ['s']]

/-- The family of a keyword. -/
def ofKeyword? (keyword : List Char) : Option Family :=
  all.find? fun family => family.keywords.contains keyword

/-- How the text after the keyword is cut. -/
def form : Family → Form
  | .component | .control | .threat => .described
  | .mitigate => .clauses [["against".toList], ["with".toList]]
  | .accept => .clauses [["to".toList], ["with".toList]]
  | .transfer => .clauses [["from".toList], ["to".toList], ["with".toList]]
  | .expose => .clauses [["to".toList], ["with".toList]]
  | .connect => .clauses [["with".toList, "to".toList], ["with".toList]]
  | .review => .wordThenText
  | .test => .clauses [["for".toList]]

end Family

/-- What a directive says. -/
inductive Statement where
  | declaration (kind : EntityKind) (name : String) (description : Option String)
  | relation (relation : Relation)

namespace Statement

/-- The declaration of an entity, from its fields: a name and maybe a description, which counts as absent when
it is empty. -/
def declared? (kind : EntityKind) : List String → Option Statement
  | [name] => if name = "" then none else some (.declaration kind name none)
  | [name, description] =>
    if name = "" then none
    else some (.declaration kind name (if description = "" then none else some description))
  | _ => none

/-- The relation that a family makes of its fields, none of which may be empty. -/
def related? (family : Family) (words : List (List Char)) (fields : List String) : Option Relation :=
  if fields.contains "" then none
  else
    match family, fields with
    | .mitigate, [component, threat, control] => some (.mitigation { component, threat, control })
    | .accept, [threat, component, details] => some (.acceptance { threat, component, details })
    | .transfer, [threat, sourceComponent, destinationComponent, details] =>
      some (.transfer { threat, sourceComponent, destinationComponent, details })
    | .expose, [component, threat, details] => some (.exposure { component, threat, details })
    | .connect, [sourceComponent, destinationComponent, details] =>
      (words.head?.bind fun word => Direction.ofWord? (String.ofList word)).map fun direction =>
        .connection { sourceComponent, destinationComponent, direction, details }
    | .review, [component, details] => some (.review { component, details })
    | .test, [control, component] => some (.test { control, component })
    | _, _ => none

/-- What the fields of a directive say, once they are trimmed. -/
def ofFields? (family : Family) (words fields : List (List Char)) : Option Statement :=
  let fields := fields.map fun field => String.ofList (Text.trim field)
  match family with
  | .component => declared? .component fields
  | .control => declared? .control fields
  | .threat => declared? .threat fields
  | _ => (related? family words fields).map .relation

end Statement

end Directive
end ThreatModel
