import VisualBlocks.Script.Token
import VisualBlocks.Text.Blank
import VisualBlocks.Text.Hidden

/-!
# Cutting a text into tokens

`step` looks at the front of a text and says what stands there: nothing, something to skip (white
space, a byte order mark, a comment), a token, or a fault.  It hands back the characters it took
and those that remain, so positions are no concern of it; `tokensFrom` counts them while it repeats
the step, and `tokenize` starts it at the beginning.

* `step_append`: what a step took and what it left make up the text.
* `length_of_step`: a step takes at least one character, so the repetition ends.
-/

set_option autoImplicit false

namespace VisualBlocks
namespace Script

/-- What can be wrong with the characters at a place. -/
inductive LexFault where
  | unexpectedCharacter (c : Char)
  | bitwiseOperator (c : Char)
  | unterminatedString
  | unterminatedComment
deriving Repr, DecidableEq

/-- The wording of a fault. -/
def LexFault.message : LexFault → String
  | .unexpectedCharacter c => "Unexpected character " ++ Text.quoteChar c
  | .bitwiseOperator c => "Bitwise operator '" ++ String.singleton c ++ "' is not supported"
  | .unterminatedString => "Unterminated string literal"
  | .unterminatedComment => "Unterminated block comment"

/-- A fault at the place where the faulty piece begins. -/
structure LexError where
  fault : LexFault
  pos : Position
deriving Repr, DecidableEq

/-! ## Runs of characters

Each of these cuts a text in two: the characters that belong to the run, and the rest. -/

/-- Puts a character in front of the first of two parts. -/
def keep (c : Char) (parts : List Char × List Char) : List Char × List Char :=
  (c :: parts.1, parts.2)

/-- May the character begin a name? -/
def isNameStart (c : Char) : Bool := c.isAlpha || c = '_' || c = '$'

/-- May the character stand in a name? -/
def isNamePart (c : Char) : Bool := c.isAlphanum || c = '_' || c = '$'

/-- The rest of a name.  A point belongs to it when a letter or an underscore follows, so that a
path such as `window.alert` is one name. -/
def nameRun : List Char → List Char × List Char
  | [] => ([], [])
  | c :: cs =>
    if isNamePart c then keep c (nameRun cs)
    else if c = '.' ∧ cs.head?.any (fun d => d.isAlpha || d = '_') then keep c (nameRun cs)
    else ([], c :: cs)

/-- How far a number has been read. -/
inductive NumberPart where
  /-- Before the point. -/
  | whole
  /-- After the point. -/
  | places
  /-- Right after the exponent mark. -/
  | mark
  /-- In the exponent. -/
  | exponent
deriving Repr, DecidableEq

/-- The part a number is in after one more character, if the character belongs to it.  There is at
most one point, only before the exponent, and a sign only right after its mark. -/
def NumberPart.next? (part : NumberPart) (c : Char) : Option NumberPart :=
  if c.isDigit then some (if part = .mark then .exponent else part)
  else if c = '.' then if part = .whole then some .places else none
  else if c = 'e' ∨ c = 'E' then if part = .whole ∨ part = .places then some .mark else none
  else if c = '+' ∨ c = '-' then if part = .mark then some .exponent else none
  else none

/-- The rest of a number. -/
def numberRun : NumberPart → List Char → List Char × List Char
  | _, [] => ([], [])
  | part, c :: cs =>
    match part.next? c with
    | some part => keep c (numberRun part cs)
    | none => ([], c :: cs)

/-- The characters up to the end of the line. -/
def lineRun (cs : List Char) : List Char × List Char :=
  (cs.takeWhile (· ≠ '\n'), cs.dropWhile (· ≠ '\n'))

/-- The characters up to and with the mark that closes a comment, if there is one. -/
def commentRun? : List Char → Option (List Char × List Char)
  | '*' :: '/' :: cs => some (['*', '/'], cs)
  | c :: cs => (commentRun? cs).map (keep c)
  | [] => none

/-- The character that a letter after a backslash stands for; most stand for themselves. -/
def unescape : Char → Char
  | 'n' => '\n'
  | 'r' => '\r'
  | 't' => '\t'
  | '0' => '\x00'
  | c => c

/-- A string without its quotes: what it is, how it was written, and what follows it. -/
structure StringRun where
  value : List Char
  taken : List Char
  rest : List Char
deriving Repr, DecidableEq

/-- The rest of a string up to and with its closing quote, if there is one on the same line. -/
def stringRun? (quote : Char) : List Char → Option StringRun
  | [] => none
  | c :: cs =>
    if c = quote then some ⟨[], [c], cs⟩
    else if c = '\\' then
      match cs with
      | e :: ds =>
        (stringRun? quote ds).map fun r => ⟨unescape e :: r.value, c :: e :: r.taken, r.rest⟩
      | [] => none
    else if c = '\n' then none
    else (stringRun? quote cs).map fun r => ⟨c :: r.value, c :: r.taken, r.rest⟩

/-! ## One step -/

/-- What stands at the front of a text. -/
inductive Step where
  | finished
  | skip (taken rest : List Char)
  | token (kind : TokenKind) (text : String) (taken rest : List Char)
  | fault (fault : LexFault)
deriving Repr, DecidableEq

/-- The tokens that are one character and never more. -/
def punctuation? : Char → Option TokenKind
  | '(' => some .leftParen
  | ')' => some .rightParen
  | '\x7b' => some .leftBrace
  | '\x7d' => some .rightBrace
  | ',' => some .comma
  | ';' => some .semicolon
  | '?' => some .question
  | ':' => some .colon
  | _ => none

/-- The characters that begin an operator. -/
def isOperatorStart (c : Char) : Bool :=
  ['+', '-', '*', '/', '%', '=', '!', '<', '>', '&', '|'].contains c

/-- An operator that begins with `c` before `cs`.  A third equals sign belongs to the comparison it
follows and changes nothing. -/
def operatorStep (c : Char) (cs : List Char) : Step :=
  let one : Step := .token .operator (String.singleton c) [c] cs
  match cs with
  | d :: rest =>
    let two : Step := .token .operator (String.ofList [c, d]) [c, d] rest
    if c = d ∧ ['+', '-', '&', '|'].contains c then two
    else if d = '=' ∧ ['+', '-', '*', '/', '%', '<', '>'].contains c then two
    else if d = '=' ∧ ['=', '!'].contains c then
      match rest with
      | '=' :: rest => .token .operator (String.ofList [c, d]) [c, d, '='] rest
      | _ => two
    else if c = '&' ∨ c = '|' then .fault (.bitwiseOperator c)
    else one
  | [] => if c = '&' ∨ c = '|' then .fault (.bitwiseOperator c) else one

/-- Is the character skipped wherever a token may begin? -/
def isSkipped (c : Char) : Bool := c = '\uFEFF' || Text.isBlank c

/-- The token of a word. -/
def wordStep (word rest : List Char) : Step :=
  let text := String.ofList word
  .token (if keywords.contains text then .keyword else .name) text word rest

/-- What stands at the front of a text. -/
def step : List Char → Step
  | [] => .finished
  | c :: cs =>
    if isSkipped c then .skip [c] cs
    else if c = '/' ∧ cs.head? = some '/' then
      let (line, rest) := lineRun cs
      .skip (c :: line) rest
    else if c = '/' ∧ cs.head? = some '*' then
      match commentRun? cs.tail with
      | some (comment, rest) => .skip (c :: '*' :: comment) rest
      | none => .fault .unterminatedComment
    else if c = '"' ∨ c = '\'' then
      match stringRun? c cs with
      | some r => .token .string (String.ofList r.value) (c :: r.taken) r.rest
      | none => .fault .unterminatedString
    else if c.isDigit ∨ (c = '.' ∧ cs.head?.any Char.isDigit) then
      let (number, rest) := numberRun .whole (c :: cs)
      .token .number (String.ofList number) number rest
    else if isNameStart c then
      let (word, rest) := nameRun cs
      wordStep (c :: word) rest
    else
      match punctuation? c with
      | some kind => .token kind (String.singleton c) [c] cs
      | none => if isOperatorStart c then operatorStep c cs else .fault (.unexpectedCharacter c)

/-! ## What a step takes -/

/-- The characters a step takes, and those it leaves. -/
def Step.parts? : Step → Option (List Char × List Char)
  | .skip taken rest => some (taken, rest)
  | .token _ _ taken rest => some (taken, rest)
  | _ => none

/-- A run of name characters loses nothing. -/
theorem nameRun_append (cs : List Char) : (nameRun cs).1 ++ (nameRun cs).2 = cs := by
  induction cs with
  | nil => rfl
  | cons c cs ih =>
    unfold nameRun
    split
    · simp [keep, ih]
    · split
      · simp [keep, ih]
      · simp

/-- A run of number characters loses nothing. -/
theorem numberRun_append (part : NumberPart) (cs : List Char) :
    (numberRun part cs).1 ++ (numberRun part cs).2 = cs := by
  fun_induction numberRun part cs <;> simp_all [keep]

/-- The rest of a line loses nothing. -/
theorem lineRun_append (cs : List Char) : (lineRun cs).1 ++ (lineRun cs).2 = cs :=
  List.takeWhile_append_dropWhile

/-- The rest of a comment loses nothing. -/
theorem commentRun?_append {cs taken rest : List Char} (h : commentRun? cs = some (taken, rest)) :
    taken ++ rest = cs := by
  induction cs using commentRun?.induct generalizing taken with
  | case1 cs => simp only [commentRun?, Option.some.injEq, Prod.mk.injEq] at h; simp [← h.1, h.2]
  | case2 c cs hne ih =>
    rw [commentRun?] at h
    · obtain ⟨⟨t, r⟩, hr, hk⟩ := Option.map_eq_some_iff.1 h
      simp only [keep, Prod.mk.injEq] at hk
      obtain ⟨rfl, rfl⟩ := hk
      simp [ih hr]
    · exact hne
  | case3 => simp [commentRun?] at h

/-- The rest of a string literal loses nothing. -/
theorem stringRun?_append {quote : Char} {cs : List Char} {r : StringRun}
    (h : stringRun? quote cs = some r) : r.taken ++ r.rest = cs := by
  fun_induction stringRun? quote cs generalizing r with
  | case1 => simp at h
  | case2 => simp only [Option.some.injEq] at h; simp [← h]
  | case3 e ds _ ih =>
    obtain ⟨s, hs, rfl⟩ := Option.map_eq_some_iff.1 h
    simp [ih hs]
  | case4 => simp at h
  | case5 => simp at h
  | case6 c cs _ _ _ ih =>
    obtain ⟨s, hs, rfl⟩ := Option.map_eq_some_iff.1 h
    simp [ih hs]

/-- An operator loses nothing, and is not empty. -/
theorem operatorStep_append {c : Char} {cs taken rest : List Char}
    (h : (operatorStep c cs).parts? = some (taken, rest)) :
    taken ++ rest = c :: cs ∧ taken ≠ [] := by
  unfold operatorStep at h
  repeat' split at h
  all_goals simp only [Step.parts?, Option.some.injEq, Prod.mk.injEq, reduceCtorEq] at h
  all_goals obtain ⟨rfl, rfl⟩ := h; simp_all

/-- **A step loses nothing, and takes something**: what it takes and what it leaves make up the
text, and it takes at least one character. -/
theorem step_append {cs taken rest : List Char} (h : (step cs).parts? = some (taken, rest)) :
    taken ++ rest = cs ∧ taken ≠ [] := by
  unfold step at h
  split at h
  · simp [Step.parts?] at h
  · next c cs =>
    split at h
    · simp only [Step.parts?, Option.some.injEq, Prod.mk.injEq] at h
      simp [← h.1, ← h.2]
    split at h
    · simp only [Step.parts?, Option.some.injEq, Prod.mk.injEq] at h
      simp [← h.1, ← h.2, lineRun_append]
    split at h
    · next hc =>
      split at h
      · next comment rest' hr =>
        simp only [Step.parts?, Option.some.injEq, Prod.mk.injEq] at h
        have hcs : cs = '*' :: cs.tail := by
          cases cs with
          | nil => simp at hc
          | cons d ds => simpa using hc.2
        rw [← h.1, ← h.2, hcs]
        simp [commentRun?_append hr]
      · simp [Step.parts?] at h
    split at h
    · split at h
      · next r hr =>
        simp only [Step.parts?, Option.some.injEq, Prod.mk.injEq] at h
        simp [← h.1, ← h.2, stringRun?_append hr]
      · simp [Step.parts?] at h
    split at h
    · next hc =>
      simp only [Step.parts?, Option.some.injEq, Prod.mk.injEq] at h
      rw [← h.1, ← h.2]
      refine ⟨numberRun_append _ _, ?_⟩
      rcases hc with hd | ⟨rfl, -⟩
      · simp [numberRun, NumberPart.next?, hd, keep]
      · simp [numberRun, NumberPart.next?, keep]
    split at h
    · simp only [wordStep, Step.parts?, Option.some.injEq, Prod.mk.injEq] at h
      simp [← h.1, ← h.2, nameRun_append]
    split at h
    · simp only [Step.parts?, Option.some.injEq, Prod.mk.injEq] at h
      simp [← h.1, ← h.2]
    · split at h
      · exact operatorStep_append h
      · simp [Step.parts?] at h

/-- What a step leaves is shorter than the text. -/
theorem length_of_step {cs taken rest : List Char} (h : (step cs).parts? = some (taken, rest)) :
    rest.length < cs.length := by
  obtain ⟨hsplit, hne⟩ := step_append h
  have := List.length_pos_iff.2 hne
  rw [← hsplit, List.length_append]; omega

/-! ## The whole text -/

/-- The tokens of a text that begins at `pos`. -/
def tokensFrom (pos : Position) (cs : List Char) : Except LexError (List Token) :=
  match h : step cs with
  | .finished => .ok [Token.closing pos]
  | .skip taken rest =>
    have : rest.length < cs.length := length_of_step (by rw [h]; rfl)
    tokensFrom (pos.after taken) rest
  | .token kind text taken rest =>
    have : rest.length < cs.length := length_of_step (by rw [h]; rfl)
    (tokensFrom (pos.after taken) rest).map (⟨kind, text, pos⟩ :: ·)
  | .fault fault => .error ⟨fault, pos⟩
termination_by cs.length

/-- The tokens of a script, closed by the end of the input. -/
def tokenize (source : String) : Except LexError (List Token) :=
  tokensFrom Position.start source.toList

end Script
end VisualBlocks
