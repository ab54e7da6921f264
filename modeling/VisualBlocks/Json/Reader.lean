import VisualBlocks.Json.Number
import VisualBlocks.Table

/-!
# Reading JSON

`Json.parse` reads one value, strictly: no comments, no commas before a closing bracket, nothing
but blanks around it.  Of several members with one name the last one counts.  Arrays and objects
may be nested 127 deep.
-/

set_option autoImplicit false

namespace VisualBlocks
namespace Json

/-- The blanks between tokens. -/
def isGap (c : Char) : Bool := c = ' ' || c = '\n' || c = '\t' || c = '\r'

/-- Drops the blanks in front. -/
def skipGap (cs : List Char) : List Char := cs.dropWhile isGap

/-- The value of a hexadecimal digit. -/
def hexDigit? (c : Char) : Option Nat :=
  if c.isDigit then some (c.toNat - '0'.toNat)
  else if 'a' ≤ c && c ≤ 'f' then some (c.toNat - 'a'.toNat + 10)
  else if 'A' ≤ c && c ≤ 'F' then some (c.toNat - 'A'.toNat + 10)
  else none

/-- The value of four hexadecimal digits. -/
def hexUnit? (a b c d : Char) : Option Nat := do
  return (((← hexDigit? a) * 16 + (← hexDigit? b)) * 16 + (← hexDigit? c)) * 16 + (← hexDigit? d)

/-- The character that a letter after a backslash stands for. -/
def escape? : Char → Option Char
  | '"' => some '"'
  | '\\' => some '\\'
  | '/' => some '/'
  | 'b' => some '\x08'
  | 'f' => some '\x0c'
  | 'n' => some '\n'
  | 'r' => some '\r'
  | 't' => some '\t'
  | _ => none

/-- Reads the rest of a string after its opening quote.  A code unit of a pair must come with its
partner, and control characters must be escaped. -/
def readString : List Char → Option (List Char × List Char)
  | '"' :: cs => some ([], cs)
  | '\\' :: 'u' :: a :: b :: c :: d :: cs =>
    match hexUnit? a b c d with
    | none => none
    | some u =>
      if 0xDC00 ≤ u && u ≤ 0xDFFF then none
      else if 0xD800 ≤ u && u ≤ 0xDBFF then
        match cs with
        | '\\' :: 'u' :: a' :: b' :: c' :: d' :: cs' =>
          match hexUnit? a' b' c' d' with
          | none => none
          | some u' =>
            if 0xDC00 ≤ u' && u' ≤ 0xDFFF then
              let c := Char.ofNat (0x10000 + (u - 0xD800) * 0x400 + (u' - 0xDC00))
              (readString cs').map fun r => (c :: r.1, r.2)
            else none
        | _ => none
      else (readString cs).map fun r => (Char.ofNat u :: r.1, r.2)
  | '\\' :: e :: cs =>
    match escape? e with
    | none => none
    | some c => (readString cs).map fun r => (c :: r.1, r.2)
  | c :: cs => if c.toNat < 0x20 then none else (readString cs).map fun r => (c :: r.1, r.2)
  | [] => none

/-- Reads the exponent of a number after its mark. -/
def readExponent (cs : List Char) : Option (Int × List Char) :=
  let (negative, cs) : Bool × List Char := match cs with
    | '+' :: cs => (false, cs)
    | '-' :: cs => (true, cs)
    | cs => (false, cs)
  let ds := cs.takeWhile Char.isDigit
  if ds.isEmpty then none
  else
    let e : Nat := ds.foldl (fun n d => 10 * n + (d.toNat - '0'.toNat)) 0
    some (if negative then -(e : Int) else e, cs.dropWhile Char.isDigit)

/-- Reads a number after its sign. -/
def readNumber (negative : Bool) (cs : List Char) : Option (Json × List Char) := do
  let whole := cs.takeWhile Char.isDigit
  let cs := cs.dropWhile Char.isDigit
  guard (!whole.isEmpty && !(whole.head? = some '0' && 1 < whole.length))
  let (places, cs) ← match cs with
    | '.' :: cs =>
      let ds := cs.takeWhile Char.isDigit
      if ds.isEmpty then none else some (some ds, cs.dropWhile Char.isDigit)
    | cs => some (none, cs)
  let (exponent, cs) ← match cs with
    | c :: rest =>
      if c = 'e' || c = 'E' then (readExponent rest).map fun r => (some r.1, r.2)
      else some (none, cs)
    | [] => some (none, [])
  return (← ofParts negative whole places exponent, cs)

/-- Strips a word from the front. -/
def stripWord (word cs : List Char) : Option (List Char) :=
  if word.isPrefixOf cs then some (cs.drop word.length) else none

mutual

/-- Reads a value that starts here, with `depth` levels of nesting left. -/
def readValue : Nat → Nat → List Char → Option (Json × List Char)
  | 0, _, _ => none
  | fuel + 1, depth, cs =>
    match cs with
    | '"' :: cs => (readString cs).map fun r => (.string (String.ofList r.1), r.2)
    | '-' :: cs => readNumber true cs
    | '[' :: cs =>
      match depth, skipGap cs with
      | 0, _ => none
      | _ + 1, ']' :: cs => some (.array [], cs)
      | depth + 1, cs => (readItems fuel depth cs).map fun r => (.array r.1, r.2)
    | '\x7b' :: cs =>
      match depth, skipGap cs with
      | 0, _ => none
      | _ + 1, '\x7d' :: cs => some (.object [], cs)
      | depth + 1, cs =>
        (readMembers fuel depth cs).map fun r => (.object (Table.ofList r.1).entries, r.2)
    | c :: _ =>
      if c.isDigit then readNumber false cs
      else if c = 't' then (stripWord "true".toList cs).map fun r => (.bool true, r)
      else if c = 'f' then (stripWord "false".toList cs).map fun r => (.bool false, r)
      else (stripWord "null".toList cs).map fun r => (.null, r)
    | [] => none

/-- Reads the items of an array, of which there is at least one, and its closing bracket. -/
def readItems : Nat → Nat → List Char → Option (List Json × List Char)
  | 0, _, _ => none
  | fuel + 1, depth, cs => do
    let (item, cs) ← readValue fuel depth cs
    match skipGap cs with
    | ',' :: cs =>
      let (items, cs) ← readItems fuel depth (skipGap cs)
      return (item :: items, cs)
    | ']' :: cs => return ([item], cs)
    | _ => none

/-- Reads the members of an object, of which there is at least one, and its closing brace. -/
def readMembers : Nat → Nat → List Char → Option (List (String × Json) × List Char)
  | 0, _, _ => none
  | fuel + 1, depth, cs => do
    let '"' :: cs := cs | none
    let (name, cs) ← readString cs
    let ':' :: cs := skipGap cs | none
    let (value, cs) ← readValue fuel depth (skipGap cs)
    let member := (String.ofList name, value)
    match skipGap cs with
    | ',' :: cs =>
      let (members, cs) ← readMembers fuel depth (skipGap cs)
      return (member :: members, cs)
    | '\x7d' :: cs => return ([member], cs)
    | _ => none

end

/-- The number of levels to which arrays and objects may be nested. -/
def maxDepth : Nat := 127

/-- Reads a text that is one JSON value. -/
def parse (text : String) : Option Json := do
  let cs := text.toList
  let (value, rest) ← readValue (2 * cs.length + 2) maxDepth (skipGap cs)
  guard (skipGap rest).isEmpty
  return value

end Json
end VisualBlocks
