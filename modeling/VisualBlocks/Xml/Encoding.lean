/-!
# Encodings

A document may declare the encoding of its bytes.  The text at hand has been decoded as UTF-8;
`Encoding.decode?` says what it reads as in the declared encoding.

A name of an encoding counts when it agrees with a known label as far as the shorter of the two
goes, in any case of the letters.  So `utf` and `utf-8-sig` are UTF-8, and so is the empty name.
-/

set_option autoImplicit false

namespace VisualBlocks
namespace Xml

/-- The encodings a document may declare. -/
inductive Encoding where
  | utf8
  | latin1
  | utf16
  | ascii
deriving Repr, DecidableEq, Inhabited

namespace Encoding

/-- The labels of the encodings, in the order in which they are tried. -/
def labels : List (String × Encoding) :=
  [("utf-8", utf8), ("utf8", utf8), ("iso-8859-1", latin1), ("latin1", latin1), ("utf-16", utf16),
   ("utf16", utf16), ("ascii", ascii), ("us-ascii", ascii)]

/-- Does the name agree with the label, as far as the shorter of the two goes? -/
def agrees (name label : List Char) : Bool :=
  (name.zip label).all fun p => p.1.toLower = p.2

/-- The encoding of a name. -/
def ofName? (name : List Char) : Option Encoding :=
  (labels.find? fun l => agrees name l.1.toList).map (·.2)

/-- Does the character belong to ASCII? -/
def isAscii (c : Char) : Bool := c.toNat < 0x80

/-- A text in UTF-8, decoded anew.  In Latin-1 every byte is a character; text in UTF-8 is never
text in UTF-16. -/
def decode? : Encoding → List Char → Option (List Char)
  | utf8, cs => some cs
  | latin1, cs =>
    some (cs.flatMap fun c => (String.utf8EncodeChar c).map fun b => Char.ofNat b.toNat)
  | utf16, _ => none
  | ascii, cs => if cs.all isAscii then some cs else none

/-- A text of ASCII characters reads the same in every encoding but UTF-16. -/
theorem decode?_of_isAscii (e : Encoding) (cs : List Char) (he : e ≠ utf16)
    (h : ∀ c ∈ cs, isAscii c = true) : e.decode? cs = some cs := by
  have single : ∀ c : Char, isAscii c = true →
      (String.utf8EncodeChar c).map (fun b => Char.ofNat b.toNat) = [c] := by
    intro c hc
    have hc : c.toNat < 0x80 := by simpa [isAscii] using hc
    have hle : c.val.toNat ≤ 127 := Nat.le_of_lt_succ hc
    rw [String.utf8EncodeChar, if_pos hle]
    have hmod : c.val.toNat % 256 = c.val.toNat := Nat.mod_eq_of_lt (by omega)
    simp only [List.map_cons, List.map_nil, List.cons.injEq, and_true, UInt8.toNat_ofNat']
    rw [show c.val.toNat % 2 ^ 8 = c.toNat from hmod, Char.ofNat_toNat]
  cases e with
  | utf8 => rfl
  | utf16 => exact absurd rfl he
  | ascii => simp only [decode?]; rw [if_pos (List.all_eq_true.2 h)]
  | latin1 =>
    simp only [decode?, Option.some.injEq]
    induction cs with
    | nil => rfl
    | cons c cs ih =>
      rw [List.flatMap_cons, single c (h c (by simp)), ih fun d hd => h d (by simp [hd])]
      rfl

end Encoding

end Xml
end VisualBlocks
