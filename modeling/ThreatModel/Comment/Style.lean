/-!
# `Comment.Style` — how comments are written

The extension of a file decides how its comments are marked: which markers start a comment that runs to the end
of the line, and which pair of delimiters, if any, encloses a comment of several lines.

## Contents

* `Style` — the markers of one group of file types.
* `Style.ofExtension` — the style of a file type.
-/

namespace ThreatModel
namespace Comment

/-- The markers that start a line comment, and the delimiters of a block comment. -/
structure Style where
  line : List (List Char)
  block : Option (List Char × List Char)
deriving DecidableEq, Repr

namespace Style

/-- Two slashes, or a slash and a star. -/
def slashes : Style := ⟨["//".toList], some ("/*".toList, "*/".toList)⟩

/-- A hash. -/
def hash : Style := ⟨["#".toList], none⟩

/-- Two dashes, or a slash and a star. -/
def dashes : Style := ⟨["--".toList], some ("/*".toList, "*/".toList)⟩

/-- Two dashes, or two dashes and double brackets. -/
def brackets : Style := ⟨["--".toList], some ("--[[".toList, "]]".toList)⟩

/-- Two slashes or a hash, or a slash and a star. -/
def mixed : Style := ⟨["//".toList, "#".toList], some ("/*".toList, "*/".toList)⟩

/-- The extensions of files with slashes. -/
def slashExtensions : List String :=
  ["rs", "go", "c", "h", "cc", "cpp", "hpp", "cs", "java", "kt", "scala", "swift", "js", "jsx", "ts", "tsx"]

/-- The extensions of files with hashes. -/
def hashExtensions : List String := ["py", "rb", "sh", "yaml", "yml", "toml"]

/-- The style of the files with an extension, which is given without its dot. -/
def ofExtension (extension : String) : Style :=
  if slashExtensions.contains extension then slashes
  else if hashExtensions.contains extension then hash
  else if extension = "sql" then dashes
  else if extension = "lua" then brackets
  else mixed

end Style
end Comment
end ThreatModel
