import ThreatModel.Json.Reader

/-!
# `Json.Skip` — passing over values

A member that a record does not know is passed over. Its value has to be well formed, but may nest as deeply as
it likes, its numbers may be of any size, and the halves of a pair of escapes need not match.

## Contents

* `skipText`, `skipNumber`, `skipValue` — passing over a string, a number and any value.
-/

namespace ThreatModel
namespace Json
namespace Reader

/-- Passes over a string, from after its opening quote. -/
def skipText : Nat → Cursor → Except Fault Cursor
  | 0, c => .error (c.fault .endInText)
  | fuel + 1, c =>
    match c.rest with
    | [] => .error (c.fault .endInText)
    | '"' :: _ => .ok c.next
    | ['\\'] => .error (c.next.fault .endInText)
    | '\\' :: 'u' :: digits =>
      match fourDigits (c.offset + 2) digits with
      | .error fault => .error fault
      | .ok _ => skipText fuel (c.skip 6)
    | '\\' :: escape :: _ =>
      if (simpleEscape? escape).isSome then skipText fuel (c.skip 2)
      else .error ⟨.badEscape, c.offset + 2⟩
    | char :: rest =>
      if char.toNat < 32 then .error (c.fault .controlCharacter)
      else skipText fuel ⟨rest, c.offset + char.utf8Size⟩

/-- Passes over the exponent of a number, from its `e` on, if there is one. -/
def skipExponent (c : Cursor) : Except Fault Cursor :=
  if c.rest.head?.any fun e => e = 'e' || e = 'E' then
    let c := c.next
    let c := if c.rest.head?.any fun s => s = '+' || s = '-' then c.next else c
    if c.rest.head?.any isDigit then .ok (c.skip (c.rest.takeWhile isDigit).length)
    else .error (c.faultAhead .badNumber)
  else .ok c

/-- Passes over a number after its sign. -/
def skipNumber (c : Cursor) : Except Fault Cursor :=
  match c.rest with
  | '0' :: rest =>
    if rest.head?.any isDigit then .error (c.next.faultAhead .badNumber) else fraction c.next
  | d :: _ =>
    if isDigit d then fraction (c.skip (c.rest.takeWhile isDigit).length)
    else .error (c.faultAhead .badNumber)
  | [] => .error (c.faultAhead .badNumber)
where
  /-- Passes over what follows the digits before the point. -/
  fraction (c : Cursor) : Except Fault Cursor :=
    match c.rest with
    | '.' :: rest =>
      let digits := rest.takeWhile isDigit
      if digits.isEmpty then .error (c.next.faultAhead .badNumber)
      else skipExponent (c.next.skip digits.length)
    | _ => skipExponent c

/-- Passes over the items of an array, from after its opening bracket to after its closing bracket. -/
def skipItems (item : Cursor → Except Fault Cursor) : Nat → Bool → Cursor → Except Fault Cursor
  | 0, _, c => .error (c.fault .endInArray)
  | fuel + 1, first, c =>
    let c := c.skipSpace
    match c.rest with
    | [] => .error (c.faultAhead .endInArray)
    | ']' :: _ => .ok c.next
    | char :: _ =>
      if first then item c >>= skipItems item fuel false
      else if char = ',' then item c.next >>= skipItems item fuel false
      else .error (c.faultAhead .noArrayComma)

/-- Passes over the name and the colon of a member. -/
def skipName (c : Cursor) : Except Fault Cursor :=
  let c := c.skipSpace
  match c.rest with
  | [] => .error (c.faultAhead .endInObject)
  | '"' :: rest => skipText (rest.length + 1) c.next >>= colon
  | _ => .error (c.faultAhead .nameNotText)

/-- Passes over the members of an object, from after its opening bracket to after its closing bracket. -/
def skipMembers (item : Cursor → Except Fault Cursor) : Nat → Bool → Cursor → Except Fault Cursor
  | 0, _, c => .error (c.fault .endInObject)
  | fuel + 1, first, c =>
    let c := c.skipSpace
    match c.rest with
    | [] => .error (c.faultAhead .endInObject)
    | '\x7d' :: _ => .ok c.next
    | char :: _ =>
      if first then skipName c >>= item >>= skipMembers item fuel false
      else if char = ',' then skipName c.next >>= item >>= skipMembers item fuel false
      else .error (c.faultAhead .noObjectComma)

/-- Passes over a value that nests at most `fuel` levels deep. -/
def skipNested : Nat → Cursor → Except Fault Cursor
  | 0, c => .error (c.fault .endInValue)
  | fuel + 1, c =>
    let c := c.skipSpace
    match c.rest with
    | [] => .error (c.faultAhead .endInValue)
    | 'n' :: _ => literal ['u', 'l', 'l'] c.next
    | 't' :: _ => literal ['r', 'u', 'e'] c.next
    | 'f' :: _ => literal ['a', 'l', 's', 'e'] c.next
    | '"' :: rest => skipText (rest.length + 1) c.next
    | '[' :: rest => skipItems (skipNested fuel) (rest.length + 1) true c.next
    | '\x7b' :: rest => skipMembers (skipNested fuel) (rest.length + 1) true c.next
    | '-' :: _ => skipNumber c.next
    | char :: _ => if isDigit char then skipNumber c else .error (c.faultAhead .noValue)

/-- Passes over a value. The text that is left bounds how deeply it can nest. -/
def skipValue (c : Cursor) : Except Fault Cursor := skipNested (c.rest.length + 1) c

end Reader
end Json
end ThreatModel
