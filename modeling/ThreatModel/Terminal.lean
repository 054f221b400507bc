/-!
# `Terminal` — messages for a terminal

Messages start with a sign that says what they are. On a terminal the sign, or the title of a section, is
styled by escape sequences; elsewhere the text stands alone.

## Contents

* `styled` — a text in a style.
* `success`, `failure`, `warning`, `tip`, `heading`, `keyValue` — the messages.
-/

namespace ThreatModel
namespace Terminal

/-- The sequence that ends every style. -/
def reset : List Char := "\x1b[0m".toList

/-- The text with the sequence `style` put in again after every reset. -/
def restyled (style : List Char) (text : List Char) : List Char :=
  match text with
  | [] => []
  | c :: rest =>
    match reset.isPrefixOf (c :: rest) with
    | true => reset ++ style ++ restyled style (rest.drop (reset.length - 1))
    | false => c :: restyled style rest
termination_by text.length
decreasing_by all_goals simp_wf; try omega

/-- The text in the style with the given codes, if styles are wanted. -/
def styled (colors : Bool) (codes : String) (text : String) : String :=
  if colors then
    let style := "\x1b[" ++ codes ++ "m"
    style ++ String.ofList (restyled style.toList text.toList) ++ String.ofList reset
  else text

/-- The message that something was done. -/
def success (colors : Bool) (message : String) : String := styled colors "1;32" "✓" ++ " " ++ message

/-- The message that something failed. -/
def failure (colors : Bool) (message : String) : String := styled colors "1;31" "✗" ++ " " ++ message

/-- The message that something deserves attention. -/
def warning (colors : Bool) (message : String) : String := styled colors "33" "⚠" ++ " " ++ message

/-- A hint. -/
def tip (colors : Bool) (message : String) : String := styled colors "33" "💡" ++ " " ++ message

/-- The title of a section, after an empty line and underlined over its whole length. -/
def heading (colors : Bool) (title : String) : String :=
  "\n" ++ styled colors "1;4" title ++ "\n" ++ String.ofList (List.replicate title.length '─')

/-- A line with the value of something. -/
def keyValue (colors : Bool) (key value : String) : String :=
  "  " ++ styled colors "1" key ++ ": " ++ value

end Terminal
end ThreatModel
