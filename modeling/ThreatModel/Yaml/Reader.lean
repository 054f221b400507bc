import ThreatModel.Text
import ThreatModel.Yaml.Flow

/-!
# `Yaml.Reader` — configuration files as values

Sequences and mappings are made of lines: their entries start in one column, and what belongs to an entry stands
right of it. The items of a sequence that is the value of a key may start in the column of the key. A file holds
one document; a file without any is a mapping without entries.

## Contents

* `keyAhead?` — keys in front of a colon.
* `blockNode`, `blockValue`, `blockSequence`, `blockMapping` — values made of lines.
* `documentLines?`, `ofLines?` — the one document of a file.
* `read` — a whole file.
-/

namespace ThreatModel
namespace Yaml

/-! ## Keys -/

/-- Whether a dash in front of an item comes next. -/
def isDashNext (rest : List Char) : Bool :=
  match rest with
  | '-' :: after => isApartNext after
  | _ => false

/-- Whether a colon between a key on lines of its own and its value comes next. -/
def isColonMarkNext (rest : List Char) : Bool :=
  match rest with
  | ':' :: after => isApartNext after
  | _ => false

/-- The scalar that stands in the line, with the cursor after it. -/
def inlineScalar? (tag : Option Tag) (c : Cursor) : Option (Yaml × Cursor) :=
  match c.rest with
  | '*' :: _ => alias? c
  | '\'' :: _ => (single 0 { c with below := [] }).map fun (chars, after) =>
      (.text (String.ofList chars), { after with below := c.below })
  | '"' :: _ => (double 0 { c with below := [] }).map fun (chars, after) =>
      (.text (String.ofList chars), { after with below := c.below })
  | _ =>
    if startsPlain false c.rest then
      let text := plainLine false c.rest
      some (scalarValue tag text, c.skip text.length)
    else none

/-- The key that stands in the line in front of a colon, with the cursor at the colon. -/
def keyAhead? (c : Cursor) : Option (Key × Cursor) := do
  let (found, start) ← properties? false 2 .none c
  let (value, after) ← inlineScalar? found.tag start
  let key ← value.key?
  let colon := after.skipBlanks
  if isColonMarkNext colon.rest then some (key, colon.define found.anchor value) else none

/-! ## Values made of lines -/

/-- Entries with another one after those under other keys. -/
def addKeyed (entries : List (Key × Yaml)) (key : Key) (value : Yaml) : Option (List (Key × Yaml)) :=
  if (entries.map Prod.fst).contains key then none else some (entries ++ [(key, value)])

mutual

/-- A value at its first character, with the cursor at what comes after it. Its content stands at or right of the
limit, the dashes of a sequence at or right of `dash`; `fresh` holds where entries may start. -/
def blockNode (fuel limit dash : Nat) (fresh : Bool) (c : Cursor) : Option (Yaml × Cursor) :=
  match fuel with
  | 0 => none
  | fuel + 1 =>
    if fresh && (isDashNext c.rest || isKeyMarkNext c.rest || (keyAhead? c).isSome) then
      blockContent fuel limit fresh none c
    else do
      let (found, after) ← properties? false 2 .none c
      let after := after.define found.anchor .null
      let (value, next) ←
        if found = .none then blockContent fuel limit fresh none c
        else if after.endsLine then do
          let below ← after.descend limit
          if below.isEnd || below.column < (if isDashNext below.rest then dash else limit) then
            some (scalarValue found.tag [], below)
          else blockContent fuel limit true found.tag below
        else blockContent fuel limit false found.tag after
      some (value, next.define found.anchor value)

/-- A value after its properties. -/
def blockContent (fuel limit : Nat) (fresh : Bool) (tag : Option Tag) (c : Cursor) : Option (Yaml × Cursor) :=
  match fuel with
  | 0 => none
  | fuel + 1 =>
    let quotedText (read : Option (List Char × Cursor)) : Option (Yaml × Cursor) := do
      let (chars, after) ← read
      some (.text (String.ofList chars), ← after.finish limit)
    if isDashNext c.rest then
      if fresh then (blockSequence fuel c.column [] c).map fun (items, c) => (.sequence items, c) else none
    else if isKeyMarkNext c.rest || (fresh && (keyAhead? c).isSome) then
      if fresh then (blockMapping fuel c.column [] c).map fun (entries, c) => (.mapping entries, c) else none
    else
      match c.rest with
      | '|' :: _ | '>' :: _ => do
        let (chars, after) ← blockText limit c
        some (.text (String.ofList chars), ← after.descend limit)
      | '[' :: _ | '\x7b' :: _ => do
        let (value, after) ← flowContent fuel limit tag c
        some (value, ← after.finish limit)
      | '*' :: _ => do
        let (value, after) ← alias? c
        some (value, ← after.finish limit)
      | '\'' :: _ => quotedText (single limit c)
      | '"' :: _ => quotedText (double limit c)
      | _ =>
        if startsPlain false c.rest then do
          let (chars, after) ← plain false limit c
          some (scalarValue tag chars, ← after.finish limit)
        else none

/-- The value after a dash, a colon or a question mark: in the rest of the line or below it; null if there is
none. -/
def blockValue (fuel limit dash : Nat) (fresh : Bool) (c : Cursor) : Option (Yaml × Cursor) :=
  match fuel with
  | 0 => none
  | fuel + 1 =>
    if c.endsLine then do
      let below ← c.descend limit
      if below.isEnd || below.column < (if isDashNext below.rest then dash else limit) then some (.null, below)
      else blockNode fuel limit dash true below
    else blockNode fuel limit dash fresh c.skipBlanks

/-- The items of a sequence whose dashes stand in a column, after those read already. No tab stands between two
dashes of one line. -/
def blockSequence (fuel column : Nat) (items : List Yaml) (c : Cursor) : Option (List Yaml × Cursor) :=
  match fuel with
  | 0 => none
  | fuel + 1 => do
    let after := c.skip 1
    let gap := after.rest.takeWhile isBlank
    if gap.contains '\t' && isDashNext (after.rest.drop gap.length) then none
    let (item, next) ← blockValue fuel (column + 1) (column + 1) true after
    let items := items ++ [item]
    if next.isEnd || next.column < column then some (items, next)
    else if column < next.column then none
    else if isDashNext next.rest then blockSequence fuel column items next
    else some (items, next)

/-- The entries of a mapping whose keys stand in a column, after those read already. -/
def blockMapping (fuel column : Nat) (entries : List (Key × Yaml)) (c : Cursor) :
    Option (List (Key × Yaml) × Cursor) :=
  match fuel with
  | 0 => none
  | fuel + 1 => do
    let (key, value, next) ←
      if isKeyMarkNext c.rest then do
        let (value, next) ← blockValue fuel (column + 1) (column + 1) true (c.skip 1)
        let key ← value.key?
        if !next.isEnd && next.column = column && isColonMarkNext next.rest then do
          let (content, next) ← blockValue fuel (column + 1) column true (← next.afterColon)
          some (key, content, next)
        else some (key, Yaml.null, next)
      else do
        let (key, colon) ← keyAhead? c
        let (content, next) ← blockValue fuel (column + 1) column false (← colon.afterColon)
        some (key, content, next)
    let entries ← addKeyed entries key value
    if next.isEnd || next.column < column then some (entries, next)
    else if column < next.column || isDashNext next.rest then none
    else blockMapping fuel column entries next

end

/-! ## Documents -/

/-- The lines of a file. A line ends with a line feed, a carriage return, or both; a file ends before the first
zero character. -/
def fileLines (text : List Char) : List (List Char) :=
  let lines := (Text.segments (text.takeWhile (· ≠ '\x00'))).flatten
  if lines.getLast? = some [] then lines.dropLast else lines

/-- Whether a line starts with the given three characters, set apart from what follows. -/
def isMarker (mark line : List Char) : Bool := line.take 3 = mark && isApartNext (line.drop 3)

/-- The mark at the start of a document. -/
def startMark : List Char := ['-', '-', '-']

/-- The mark at the end of a document. -/
def stopMark : List Char := ['.', '.', '.']

/-- Whether a line says nothing, or that a document ends. -/
def isBetween (line : List Char) : Bool :=
  isIgnorable line || (isMarker stopMark line && isIgnorable (line.drop 3))

/-- Whether a line is a directive. The one about the version gives it as two numbers. -/
def isDirective (line : List Char) : Bool :=
  let name := line.tail.takeWhile fun c => !isBlank c
  let rest := (line.drop (name.length + 1)).dropWhile isBlank
  line.head? = some '%' && !name.isEmpty
    && (name ≠ ['Y', 'A', 'M', 'L']
      || (let version := rest.takeWhile fun c => !isBlank c
          let major := version.takeWhile Decimal.isDigit
          let minor := version.drop (major.length + 1)
          !major.isEmpty && (version.drop major.length).head? = some '.' && !minor.isEmpty
            && minor.all Decimal.isDigit))

/-- The lines of the one document of a file, and whether a mark stood in front of them; none if there are more
documents, or if something stands where nothing can. -/
def documentLines? (lines : List (List Char)) : Option (Bool × List (List Char)) :=
  let (head, lines) := (lines.dropWhile isBetween).span fun line => line.head? = some '%' || isIgnorable line
  let directives := head.filter fun line => !isIgnorable line
  let marked := lines.head?.any (isMarker startMark)
  let content :=
    match lines with
    | first :: below => if marked then below else first :: below
    | [] => []
  let body := content.takeWhile fun line => !(isMarker startMark line || isMarker stopMark line)
  if directives.all isDirective && (marked || directives.isEmpty) && (content.drop body.length).all isBetween then
    some (marked, if marked then (lines.headD []).drop 3 :: body else body)
  else none

/-- The value of the lines of a document. Entries do not start in the line of the mark in front of it. -/
def ofLines? (marked : Bool) (lines : List (List Char)) : Option Yaml := do
  let fuel := 8 * lines.foldl (fun size line => size + line.length + 1) 0 + 16
  let start : Cursor :=
    match marked, lines with
    | true, line :: below => ⟨line, 3, below, []⟩
    | _, lines => ⟨[], 0, lines, []⟩
  let (value, c) ← blockValue fuel 0 0 false start
  if c.isEnd then some value else none

/-- The value of a file. -/
def read (text : List Char) : Option Yaml := do
  let (marked, lines) ← documentLines? (fileLines text)
  if !marked && lines.all isIgnorable then some (.mapping []) else ofLines? marked lines

end Yaml
end ThreatModel
