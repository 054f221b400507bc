import ThreatModel.Directive

/-!
# `Block` — pieces of text with their provenance

A block is the unit in which texts are searched for directives: usually one comment of a file, with the place
where it starts and the code it stands at.

## Contents

* `Location`, `Location.lineBelow` — where a block starts, and the lines below.
* `Block`, `ScannedBlock`.
* `Block.scan` — a block together with its occurrences.
-/

namespace ThreatModel

/-- Where a block starts: the file as it is shown, the line counted from one, and the code at the block. -/
structure Location where
  filename : String
  line : Nat
  code : String
deriving DecidableEq, Repr, Inhabited

/-- The line that comes a number of lines below the start of a block. Lines are counted by machine words, whose sums
start again from zero behind the last one. -/
def Location.lineBelow (l : Location) (lines : Nat) : Nat := (l.line + lines) % UInt64.size

/-- A piece of text, with its provenance where that is known. -/
structure Block where
  text : String
  location : Option Location
deriving DecidableEq, Repr, Inhabited

/-- A block and the directives found in it. -/
structure ScannedBlock where
  block : Block
  occurrences : List Directive.Occurrence

/-- The block with its occurrences. -/
def Block.scan (block : Block) : ScannedBlock := ⟨block, Directive.parse block.text.toList⟩

end ThreatModel
