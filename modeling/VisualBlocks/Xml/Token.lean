import VisualBlocks.Xml.Character
import VisualBlocks.Xml.Encoding

/-!
# Tokens of XML

A document is cut into tokens: the marks of markup, and single characters for all else.  Which
marks there are depends on where the text stands, so the scanner has a mode.  It changes the mode
by the tokens alone and does not know what a reader makes of them.  In particular a mark inside an
attribute value changes the mode too: there a comment has to be closed, and the quote that would
end the value is part of the comment.

* `scan` recognises the token at the front of a text.
* `Source` is what remains of a document: its characters, the mode, and how much of it is
  replacement text of entities.  `Source.next?` takes a token, `Source.expand?` puts replacement
  text in front, `Source.recode?` applies a declared encoding.
* Each of them makes the source smaller in the order that `Source.measure` names, which is why a
  reader ends although entities can hold references to entities.
-/

set_option autoImplicit false

namespace VisualBlocks
namespace Xml

/-! ## Tokens -/

/-- The two quotation marks. -/
inductive Quote where
  | single
  | double
deriving Repr, DecidableEq, Inhabited

/-- The character of a quotation mark. -/
def Quote.char : Quote → Char
  | single => '\''
  | double => '"'

/-- A mark of markup, or a character. -/
inductive Token where
  | instructionStart
  | instructionEnd
  | doctypeStart
  | declarationStart
  | tagStart
  | closingStart
  | tagEnd
  | emptyTagEnd
  | commentStart
  | commentEnd
  | literalStart
  | literalEnd
  | referenceStart
  | referenceEnd
  | equals
  | quote (mark : Quote)
  | character (c : Char)
deriving Repr, DecidableEq, Inhabited

/-- The characters that a token is written with. -/
def Token.chars : Token → List Char
  | instructionStart => ['<', '?']
  | instructionEnd => ['?', '>']
  | doctypeStart => "<!DOCTYPE".toList
  | declarationStart => ['<', '!']
  | tagStart => ['<']
  | closingStart => ['<', '/']
  | tagEnd => ['>']
  | emptyTagEnd => ['/', '>']
  | commentStart => "<!--".toList
  | commentEnd => "-->".toList
  | literalStart => "<![CDATA[".toList
  | literalEnd => "]]>".toList
  | referenceStart => ['&']
  | referenceEnd => [';']
  | equals => ['=']
  | quote mark => [mark.char]
  | character c => [c]

/-! ## Scanning -/

/-- Where the text stands. -/
inductive Mode where
  /-- among elements and in tags -/
  | plain
  /-- in a processing instruction -/
  | instruction
  /-- in a comment -/
  | comment
  /-- in a literal section -/
  | literal
  /-- in a document type, outside its declarations -/
  | doctype
  /-- in a declaration of a document type -/
  | declaration
  /-- in a quoted text of such a declaration -/
  | quoted (mark : Quote)
deriving Repr, DecidableEq, Inhabited

/-- A token, the number of characters it takes, and the mode behind it. -/
structure Scanned where
  token : Token
  length : Nat
  mode : Mode
deriving Repr, DecidableEq, Inhabited

/-- Recognises the mark that an angle bracket opens; the characters are those behind it.  `base` is
the mode to which markup returns: the plain one, or that of a document type.  Only there may a
declaration begin, of an entity, an element, an attribute list or a notation. -/
def scanMark (base : Mode) : List Char → Option Scanned
  | [] => none
  | '?' :: _ => some ⟨.instructionStart, 2, .instruction⟩
  | '/' :: _ => some ⟨.closingStart, 2, base⟩
  | '!' :: cs =>
    if "--".toList.isPrefixOf cs then some ⟨.commentStart, 4, .comment⟩
    else if "[CDATA[".toList.isPrefixOf cs then some ⟨.literalStart, 9, .literal⟩
    else if "DOCTYPE".toList.isPrefixOf cs then some ⟨.doctypeStart, 9, .doctype⟩
    else if base = .doctype && cs.head?.any (['E', 'A', 'N'].contains ·) then
      some ⟨.declarationStart, 2, .declaration⟩
    else none
  | c :: _ => if isSpace c || isNameCharacter c then some ⟨.tagStart, 1, base⟩ else none

/-- Recognises the token at the front of a text. -/
def scan (mode base : Mode) : List Char → Option Scanned
  | [] => none
  | c :: cs =>
    let single (t : Token) : Option Scanned := some ⟨t, 1, mode⟩
    match mode with
    | .plain =>
      match c with
      | '<' => scanMark base cs
      | '>' => single .tagEnd
      | '/' => if cs.head? = some '>' then some ⟨.emptyTagEnd, 2, mode⟩ else single (.character c)
      | ']' =>
        if "]>".toList.isPrefixOf cs then some ⟨.literalEnd, 3, mode⟩ else single (.character c)
      | '=' => single .equals
      | '"' => single (.quote .double)
      | '\'' => single (.quote .single)
      | '&' => single .referenceStart
      | ';' => single .referenceEnd
      | _ => single (.character c)
    | .instruction =>
      match c with
      | '?' =>
        if cs.head? = some '>' then some ⟨.instructionEnd, 2, base⟩ else single (.character c)
      | '<' => single .tagStart
      | '>' => single .tagEnd
      | '/' => single .closingStart
      | '=' => single .equals
      | '"' => single (.quote .double)
      | '\'' => single (.quote .single)
      | '&' => single .referenceStart
      | ';' => single .referenceEnd
      | _ => single (.character c)
    | .comment =>
      if c = '-' && cs.head? = some '-' then
        if "->".toList.isPrefixOf cs then some ⟨.commentEnd, 3, base⟩ else none
      else single (.character c)
    | .literal =>
      if c = ']' && "]>".toList.isPrefixOf cs then some ⟨.literalEnd, 3, base⟩
      else single (.character c)
    | .doctype =>
      match c with
      | '<' => scanMark base cs
      | '>' => some ⟨.tagEnd, 1, .plain⟩
      | '"' => single (.quote .double)
      | '\'' => single (.quote .single)
      | '&' => single .referenceStart
      | ';' => single .referenceEnd
      | _ => single (.character c)
    | .declaration =>
      match c with
      | '<' => scanMark base cs
      | '>' => some ⟨.tagEnd, 1, base⟩
      | '"' => some ⟨.quote .double, 1, .quoted .double⟩
      | '\'' => some ⟨.quote .single, 1, .quoted .single⟩
      | '&' => single .referenceStart
      | ';' => single .referenceEnd
      | _ => single (.character c)
    | .quoted mark =>
      if c = mark.char then some ⟨.quote mark, 1, .declaration⟩ else single (.character c)

/-- The mode to which markup returns behind a token: a document type lasts from its opening mark
to the bracket that closes it. -/
def Token.baseAfter (t : Token) (mode base : Mode) : Mode :=
  match t with
  | doctypeStart => .doctype
  | tagEnd => if mode = .doctype then .plain else base
  | _ => base

/-- What opens with an angle bracket takes at least one character. -/
theorem length_pos_of_scanMark {base : Mode} {cs : List Char} {r : Scanned}
    (h : scanMark base cs = some r) : 0 < r.length := by
  unfold scanMark at h
  split at h
  · simp at h
  · cases h; simp
  · cases h; simp
  · repeat' split at h
    all_goals first
      | (cases h; simp)
      | simp at h
  · split at h
    · cases h; simp
    · simp at h

/-- A token takes at least one character. -/
theorem length_pos_of_scan {mode base : Mode} {cs : List Char} {r : Scanned}
    (h : scan mode base cs = some r) : 0 < r.length := by
  unfold scan at h
  split at h
  · simp at h
  · dsimp only at h
    repeat' split at h
    all_goals first
      | exact length_pos_of_scanMark h
      | (cases h; simp)
      | simp at h

/-- There is no token in an empty text. -/
theorem ne_nil_of_scan {mode base : Mode} {cs : List Char} {r : Scanned}
    (h : scan mode base cs = some r) : cs ≠ [] := by
  rintro rfl
  simp [scan] at h

/-! ## What remains of a document -/

/-- What remains of a document. -/
structure Source where
  /-- The characters still to be read. -/
  chars : List Char
  /-- How many of them, at the front, stand there in place of references. -/
  queued : Nat
  /-- How many replacement texts have been put in front since the last character of the document
  itself. -/
  depth : Nat
  mode : Mode
  base : Mode
  /-- The encoding, once it is known from a byte order mark or a declaration. -/
  encoding : Option Encoding
deriving Repr, DecidableEq, Inhabited

namespace Source

/-- The most replacement texts that may follow from one reference of the document. -/
def maxDepth : Nat := 10

/-- The most characters that may wait behind a replacement text. -/
def maxQueued : Nat := 1000000

/-- The source of a text.  A byte order mark in front says that the encoding is UTF-8. -/
def ofChars : List Char → Source
  | '\uFEFF' :: cs => ⟨cs, 0, 0, .plain, .plain, some .utf8⟩
  | cs => ⟨cs, 0, 0, .plain, .plain, none⟩

/-- Takes the token at the front. -/
def next? (s : Source) : Option (Token × Source) :=
  (scan s.mode s.base s.chars).map fun r =>
    (r.token, { s with
      chars := s.chars.drop r.length
      queued := s.queued - r.length
      depth := if s.queued = 0 then 0 else s.depth
      mode := r.mode
      base := r.token.baseAfter s.mode s.base })

/-- Has the document been read to its end, with no markup left open? -/
def isFinished (s : Source) : Bool := s.chars.isEmpty && s.mode = .plain

/-- Puts a replacement text in front, within the limits. -/
def expand? (s : Source) (text : List Char) : Option Source :=
  if text.isEmpty then some s
  else if s.depth < maxDepth && s.queued ≤ maxQueued then
    some { s with
      chars := text ++ s.chars
      queued := text.length + s.queued
      depth := s.depth + 1 }
  else none

/-- Reads the rest in the declared encoding, which may not contradict what is known. -/
def recode? (s : Source) (encoding : Encoding) : Option Source :=
  match s.encoding with
  | some known => if encoding = known then some s else none
  | none => (encoding.decode? s.chars).map fun cs =>
      { s with chars := cs, encoding := some encoding }

/-! ## Why reading ends

The unread part of the document itself never grows, except once, when its encoding becomes known.
While it stays as it is, replacement texts can be put in front only so many times; and between two
of these the replacement text gets used up. -/

/-- The size of a source, to be compared from the first component to the last. -/
def measure (s : Source) : Nat × Nat × Nat × Nat :=
  (if s.encoding.isNone then 1 else 0, s.chars.length - s.queued, maxDepth - s.depth,
    s.chars.length)

/-- The order of sizes. -/
abbrev Smaller : Nat × Nat × Nat × Nat → Nat × Nat × Nat × Nat → Prop :=
  Prod.Lex (· < ·) (Prod.Lex (· < ·) (Prod.Lex (· < ·) (· < ·)))

/-- What is behind a token is smaller. -/
theorem measure_of_next? {s s' : Source} {t : Token} (h : s.next? = some (t, s')) :
    Smaller s'.measure s.measure := by
  unfold next? at h
  cases hs : scan s.mode s.base s.chars with
  | none => simp [hs] at h
  | some r =>
    simp only [hs, Option.map_some, Option.some.injEq, Prod.mk.injEq] at h
    obtain ⟨-, rfl⟩ := h
    have h1 := length_pos_of_scan hs
    have h2 := List.length_pos_iff.2 (ne_nil_of_scan hs)
    simp only [Smaller, measure, Prod.lex_def, List.length_drop, Nat.lt_irrefl, false_or, true_and]
    split <;> omega

/-- A replacement text behind a token leaves less than there was before the token. -/
theorem measure_of_expand? {s s' s'' : Source} {t : Token} {text : List Char}
    (h : s.next? = some (t, s')) (he : s'.expand? text = some s'') :
    Smaller s''.measure s.measure := by
  unfold expand? at he
  split at he
  · cases he; exact measure_of_next? h
  split at he
  · cases he
    rename_i hd
    unfold next? at h
    cases hs : scan s.mode s.base s.chars with
    | none => simp [hs] at h
    | some r =>
      simp only [hs, Option.map_some, Option.some.injEq, Prod.mk.injEq] at h
      obtain ⟨-, rfl⟩ := h
      have h1 := length_pos_of_scan hs
      have h2 := List.length_pos_iff.2 (ne_nil_of_scan hs)
      simp only [Bool.and_eq_true, decide_eq_true_eq] at hd
      simp only [Smaller, measure, Prod.lex_def, List.length_append, List.length_drop,
        Nat.lt_irrefl, false_or, true_and]
      by_cases hq : s.queued = 0
      · simp only [hq, if_true]
        omega
      · simp only [hq, if_false] at hd ⊢
        omega
  · simp at he

/-- A declared encoding leaves less than there was before. -/
theorem measure_of_recode? {s s' s'' : Source} {t : Token} {encoding : Encoding}
    (h : s.next? = some (t, s')) (he : s'.recode? encoding = some s'') :
    Smaller s''.measure s.measure := by
  unfold recode? at he
  split at he
  · split at he
    · cases he; exact measure_of_next? h
    · simp at he
  · rename_i hn
    have hs : s.encoding = none := by
      unfold next? at h
      cases hs : scan s.mode s.base s.chars with
      | none => simp [hs] at h
      | some r =>
        simp only [hs, Option.map_some, Option.some.injEq, Prod.mk.injEq] at h
        rw [← hn, ← h.2]
    cases hd : encoding.decode? s'.chars with
    | none => simp [hd] at he
    | some cs =>
      simp only [hd, Option.map_some, Option.some.injEq] at he
      subst he
      simp [Smaller, measure, Prod.lex_def, hs]

end Source

end Xml
end VisualBlocks
