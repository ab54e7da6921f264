import VisualBlocks.Text.Blank

/-!
# Characters of XML

The character classes of XML: what a document may hold at all, what a name may begin with and
consist of, and the four blanks.  Version 1.1 admits more characters than version 1.0, and some of
these only as references or where they are not part of the content.
-/

set_option autoImplicit false

namespace VisualBlocks
namespace Xml

open Text (inRanges)

/-- May the character occur in a document? -/
def isCharacter (c : Char) : Bool :=
  inRanges [(0x09, 0x0A), (0x0D, 0x0D), (0x20, 0xD7FF), (0xE000, 0xFFFD), (0x10000, 0x10FFFF)] c

/-- Is the character one of the four blanks? -/
def isSpace (c : Char) : Bool := c = ' ' || c = '\t' || c = '\n' || c = '\r'

/-- May a name begin with the character? -/
def isNameStart (c : Char) : Bool :=
  inRanges
    [(0x3A, 0x3A), (0x41, 0x5A), (0x5F, 0x5F), (0x61, 0x7A), (0xC0, 0xD6), (0xD8, 0xF6),
     (0xF8, 0x2FF), (0x370, 0x37D), (0x37F, 0x1FFF), (0x200C, 0x200D), (0x2070, 0x218F),
     (0x2C00, 0x2FEF), (0x3001, 0xD7FF), (0xF900, 0xFDCF), (0xFDF0, 0xFFFD), (0x10000, 0xEFFFF)] c

/-- May the character stand in a name? -/
def isNameCharacter (c : Char) : Bool :=
  isNameStart c ||
    inRanges [(0x2D, 0x2E), (0x30, 0x39), (0xB7, 0xB7), (0x300, 0x36F), (0x203F, 0x2040)] c

/-- The versions of XML. -/
inductive Version where
  | oneZero
  | oneOne
deriving Repr, DecidableEq, Inhabited

/-- May the character occur in a document of the version? -/
def Version.admits : Version → Char → Bool
  | .oneZero, c => isCharacter c
  | .oneOne, c => inRanges [(0x01, 0xD7FF), (0xE000, 0xFFFD), (0x10000, 0x10FFFF)] c

/-- Is the character a control that version 1.1 bars from content? -/
def isRestricted (c : Char) : Bool :=
  inRanges [(0x01, 0x08), (0x0B, 0x0C), (0x0E, 0x1F), (0x7F, 0x84), (0x86, 0x9F)] c

/-- May the character stand, as it is, in the text and the attribute values of a document of the
version? -/
def Version.admitsInContent : Version → Char → Bool
  | .oneZero, c => isCharacter c
  | .oneOne, c => Version.admits .oneOne c && !isRestricted c

end Xml
end VisualBlocks
