import Mathlib.Data.List.TakeWhile
import VisualBlocks.Xml.Reader
import VisualBlocks.Xml.Writer

/-!
# Reading what is written: characters

The pieces of a written document, each read where it stands and with whatever comes behind it: a
name, a reference, a character of an attribute value (`readAll_value`) and a character of a text
(`readAll_text`).

A character is written as it is or as a reference.  No bracket that closes is written as it is, so
the two longer marks that a slash or a square bracket could begin do not arise (`Calm`).
-/

set_option autoImplicit false

namespace VisualBlocks
namespace Xml

/-- The rest of a document that stands among elements or in a tag, without replacement texts. -/
def remaining (cs : List Char) : Source := ⟨cs, 0, 0, .plain, .plain, none⟩

/-! ## One token -/

theorem Reader.readAll_of_advance {r r' : Reader} {s s' : Source}
    (h : r.advance? s = some (r', s')) : r.readAll s = r'.readAll s' := by
  rw [readAll]
  split
  · next hsome =>
    rw [h] at hsome
    cases hsome
    rfl
  · next hnone =>
    rw [h] at hnone
    cases hnone

/-- A token is read. -/
theorem Reader.readAll_token {r r' : Reader} {t : Token} (read rest : List Char)
    (hscan : scan .plain .plain (read ++ rest) = some ⟨t, read.length, .plain⟩)
    (hdoctype : t ≠ .doctypeStart) (hstep : r.step t = some (r', .nothing)) :
    r.readAll (remaining (read ++ rest)) = r'.readAll (remaining rest) := by
  have hbase : t.baseAfter .plain .plain = .plain := by
    cases t with
    | doctypeStart => exact absurd rfl hdoctype
    | tagEnd => rfl
    | _ => rfl
  have hnext : (remaining (read ++ rest)).next? = some (t, remaining rest) := by
    rw [Source.next?, remaining, hscan, Option.map_some]
    dsimp only
    rw [hbase, List.drop_left, Nat.zero_sub]
    rfl
  refine readAll_of_advance ?_
  rw [Reader.advance?, hnext]
  simp only [Option.bind_eq_bind, Option.bind_some, hstep]
  rfl

/-- A token of one character is read. -/
theorem Reader.readAll_single {r r' : Reader} {t : Token} (c : Char) (rest : List Char)
    (hstep : r.step t = some (r', .nothing))
    (hscan : scan .plain .plain (c :: rest) = some ⟨t, 1, .plain⟩) (hdoctype : t ≠ .doctypeStart) :
    r.readAll (remaining (c :: rest)) = r'.readAll (remaining rest) :=
  readAll_token [c] rest hscan hdoctype hstep

/-- The characters that marks begin with. -/
def marks : List Char := ['<', '>', '/', ']', '=', '"', '\'', '&', ';']

theorem scan_character {c : Char} (h : c ∉ marks) (rest : List Char) :
    scan .plain .plain (c :: rest) = some ⟨.character c, 1, .plain⟩ := by
  simp only [marks, List.mem_cons, List.not_mem_nil, or_false, not_or] at h
  unfold scan
  split <;> simp_all

/-! ## Names -/

/-- Can the characters be gathered one by one, each of them if it may follow what was gathered? -/
def gathers (continues : List Char → Char → Bool) : List Char → List Char → Bool
  | _, [] => true
  | read, c :: cs => c ∉ marks && continues read c && gathers continues (c :: read) cs

/-- Characters are gathered. -/
theorem Reader.readAll_gathers {r : Reader} (place : List Char → Place)
    {continues : List Char → Char → Bool}
    (hstep : ∀ read c, continues read c = true →
      (r.moveTo (place read)).step (.character c) = some (r.moveTo (place (c :: read)), .nothing))
    {cs read : List Char} (h : gathers continues read cs = true) (rest : List Char) :
    (r.moveTo (place read)).readAll (remaining (cs ++ rest)) =
      (r.moveTo (place (cs.reverse ++ read))).readAll (remaining rest) := by
  induction cs generalizing read with
  | nil => rfl
  | cons c cs ih =>
    rw [gathers, Bool.and_eq_true, Bool.and_eq_true, decide_eq_true_iff] at h
    obtain ⟨⟨hmark, hc⟩, hcs⟩ := h
    have hread := readAll_single c (cs ++ rest) (hstep read c hc) (scan_character hmark _) nofun
    rw [List.reverse_cons, List.append_assoc]
    exact hread.trans (ih hcs)

/-- Is the text the name of an element or of an attribute, without a prefix? -/
def isName : List Char → Bool
  | [] => false
  | c :: cs => isNameStart c && (c :: cs).all fun d => isNameCharacter d && d ≠ ':'

theorem not_mem_marks {c : Char} (h : isNameCharacter c = true) : c ∉ marks := by
  have hmarks : marks.all (fun c => !isNameCharacter c) = true := by decide
  intro hc
  have hnot := List.all_eq_true.1 hmarks c hc
  rw [h] at hnot
  cases hnot

theorem isSpace_of_nameCharacter {c : Char} (h : isNameCharacter c = true) :
    isSpace c = false := by
  have hspaces : [' ', '\t', '\n', '\r'].all (fun c => !isNameCharacter c) = true := by decide
  rw [Bool.eq_false_iff]
  intro hspace
  have hmem : c ∈ [' ', '\t', '\n', '\r'] := by
    simpa [isSpace, or_assoc] using hspace
  have hnot := List.all_eq_true.1 hspaces c hmem
  rw [h] at hnot
  cases hnot

theorem gathers_nameCharacters {cs read : List Char}
    (h : (cs.all fun d => isNameCharacter d && d ≠ ':') = true) (hread : read ≠ []) :
    gathers QualifiedName.continues read cs = true := by
  induction cs generalizing read with
  | nil => rfl
  | cons c cs ih =>
    rw [List.all_cons, Bool.and_eq_true, Bool.and_eq_true, decide_eq_true_iff] at h
    obtain ⟨⟨hc, hcolon⟩, hcs⟩ := h
    have hcontinues : QualifiedName.continues read c = true := by
      rw [QualifiedName.continues, if_neg hcolon, continuesName,
        Bool.eq_false_iff.2 fun hempty => hread (List.isEmpty_iff.1 hempty)]
      exact hc
    rw [gathers, hcontinues, ih hcs (List.cons_ne_nil c read), decide_eq_true (not_mem_marks hc)]
    rfl

/-- The characters of a name can be gathered. -/
theorem gathers_name {name : List Char} (h : isName name = true) :
    gathers QualifiedName.continues [] name = true := by
  cases name with
  | nil => cases h
  | cons c cs =>
    rw [isName, List.all_cons, Bool.and_eq_true, Bool.and_eq_true, Bool.and_eq_true,
      decide_eq_true_iff] at h
    obtain ⟨hstart, ⟨hc, hcolon⟩, hcs⟩ := h
    have hcontinues : QualifiedName.continues [] c = true := by
      rw [QualifiedName.continues, if_neg hcolon]
      exact hstart
    rw [gathers, hcontinues, gathers_nameCharacters hcs (List.cons_ne_nil c []),
      decide_eq_true (not_mem_marks hc)]
    rfl

/-- What has been gathered of a name is the name. -/
theorem ofGathered?_name {name : List Char} (h : isName name = true) :
    QualifiedName.ofGathered? name.reverse = some ⟨"", String.ofList name⟩ := by
  cases name with
  | nil => cases h
  | cons c cs =>
    rw [isName, Bool.and_eq_true] at h
    have hcolon : ∀ d ∈ c :: cs, (d ≠ ':' : Bool) = true := fun d hd =>
      (Bool.and_eq_true _ _ ▸ List.all_eq_true.1 h.2 d hd).2
    rw [QualifiedName.ofGathered?, List.reverse_reverse, List.takeWhile_eq_self_iff.2 hcolon,
      List.dropWhile_eq_nil_iff.2 hcolon]
    rfl

/-! ## Written characters -/

/-- Is the text the name of a reference to the character? -/
def RefersTo (name : List Char) (c : Char) : Prop :=
  gathers continuesReference [] name = true ∧
    Replacement.ofName? .oneZero [] name = some (.character c)

/-- The ways to write a character: as it is, or as a reference to it. -/
inductive Spells (bare : List Char) (c : Char) : List Char → Prop
  | plain (h : c ∉ bare) : Spells bare c [c]
  | reference (name : List Char) (h : RefersTo name c) : Spells bare c ('&' :: (name ++ [';']))

/-- The characters that are not written as they are in a text. -/
def bareInText : List Char := ['<', '>', '&']

/-- The characters that are not written as they are in an attribute value. -/
def bareInValue : List Char := ['"', '\'', '\n', '\r'] ++ bareInText

theorem spells_escapeInText (c : Char) : Spells bareInText c (escapeInText c).toList := by
  unfold escapeInText
  split
  · exact .reference ['l', 't'] ⟨by decide, by decide⟩
  · exact .reference ['g', 't'] ⟨by decide, by decide⟩
  · exact .reference ['a', 'm', 'p'] ⟨by decide, by decide⟩
  · rw [String.toList_singleton]
    exact .plain (by simp_all [bareInText])

theorem spells_escapeInValue (c : Char) : Spells bareInValue c (escapeInValue c).toList := by
  unfold escapeInValue
  split
  · exact .reference ['q', 'u', 'o', 't'] ⟨by decide, by decide⟩
  · exact .reference ['a', 'p', 'o', 's'] ⟨by decide, by decide⟩
  · exact .reference ['#', 'x', 'A'] ⟨by decide, by decide⟩
  · exact .reference ['#', 'x', 'D'] ⟨by decide, by decide⟩
  · have htext := spells_escapeInText c
    generalize (escapeInText c).toList = written at htext
    cases htext with
    | plain h => exact .plain (by simp_all [bareInValue])
    | reference name h => exact .reference name h

/-- Behind a slash or a square bracket that is followed by the text, is there no longer mark? -/
def Calm (rest : List Char) : Prop := rest.head? ≠ some '>' ∧ "]>".toList.isPrefixOf rest = false

theorem calm_of_head {c : Char} (rest : List Char) (hclose : c ≠ '>') (hsquare : c ≠ ']') :
    Calm (c :: rest) := by
  refine ⟨fun h => hclose (Option.some.inj h), ?_⟩
  show ((']' == c) && ['>'].isPrefixOf rest) = false
  rw [beq_eq_false_iff_ne.2 hsquare.symm]
  rfl

/-- In front of a calm text a written character is calm. -/
theorem Spells.calm {bare : List Char} {c : Char} {written rest : List Char}
    (h : Spells bare c written) (hbare : '>' ∈ bare) (hrest : Calm rest) :
    Calm (written ++ rest) := by
  cases h with
  | plain hc =>
    refine ⟨fun h => hc (Option.some.inj h ▸ hbare), ?_⟩
    show ((']' == c) && ['>'].isPrefixOf rest) = false
    cases rest with
    | nil => exact Bool.and_false _
    | cons d rest =>
      have hd : ('>' == d) = false := beq_eq_false_iff_ne.2 fun h => hrest.1 (h ▸ rfl)
      rw [List.isPrefixOf, hd, Bool.false_and, Bool.and_false]
  | reference _ _ => exact calm_of_head _ (by decide) (by decide)

/-- The token that a character is, unless it is the beginning of a longer mark. -/
def tokenOf (c : Char) : Token :=
  match c with
  | '>' => .tagEnd
  | '=' => .equals
  | '"' => .quote .double
  | '\'' => .quote .single
  | '&' => .referenceStart
  | ';' => .referenceEnd
  | c => .character c

theorem scan_tokenOf {c : Char} {rest : List Char} (h : c ≠ '<') (hrest : Calm rest) :
    scan .plain .plain (c :: rest) = some ⟨tokenOf c, 1, .plain⟩ := by
  obtain ⟨hclose, hsquare⟩ := hrest
  by_cases hmark : c ∈ marks
  · simp only [marks, List.mem_cons, List.not_mem_nil, or_false] at hmark
    rcases hmark with rfl | rfl | rfl | rfl | rfl | rfl | rfl | rfl | rfl
    · exact absurd rfl h
    · rfl
    · unfold scan
      simp only [if_neg hclose]
      rfl
    · unfold scan
      simp only [hsquare]
      rfl
    all_goals rfl
  · rw [scan_character hmark]
    simp only [marks, List.mem_cons, List.not_mem_nil, or_false, not_or] at hmark
    unfold tokenOf
    split <;> simp_all

/-- Apart from brackets and references only four characters are marks. -/
theorem tokenOf_cases {c : Char} (hclose : c ≠ '>') (hamp : c ≠ '&') :
    tokenOf c = .character c ∨ c ∈ ['=', ';', '"', '\''] := by
  by_cases h : c ∈ ['=', ';', '"', '\'']
  · exact .inr h
  · simp only [List.mem_cons, List.not_mem_nil, or_false, not_or] at h
    refine .inl ?_
    rw [tokenOf]
    · exact hclose
    · exact h.1
    · exact h.2.2.1
    · exact h.2.2.2
    · exact hamp
    · exact h.2.1

theorem tokenOf_ne_doctypeStart (c : Char) : tokenOf c ≠ .doctypeStart := by
  unfold tokenOf
  split <;> nofun

namespace Reader

/-- A reference is read, wherever its characters are gathered. -/
theorem readAll_reference {r r' : Reader} (place : List Char → Place) {name : List Char} {c : Char}
    (h : RefersTo name c) (hstart : r.step .referenceStart = some (r.moveTo (place []), .nothing))
    (hstep : ∀ read c, continuesReference read c = true →
      (r.moveTo (place read)).step (.character c) = some (r.moveTo (place (c :: read)), .nothing))
    (hend : (r.moveTo (place name.reverse)).step .referenceEnd = some (r', .nothing))
    (rest : List Char) :
    r.readAll (remaining ('&' :: (name ++ [';']) ++ rest)) = r'.readAll (remaining rest) := by
  have hamp := readAll_single '&' (name ++ (';' :: rest)) hstart rfl nofun
  have hname := readAll_gathers place hstep h.1 (';' :: rest)
  have hsemicolon := readAll_single ';' rest ((List.append_nil name.reverse).symm ▸ hend) rfl nofun
  rw [List.cons_append, List.append_assoc]
  exact hamp.trans (hname.trans hsemicolon)

/-! ## Values and texts -/

section Step

variable {r r' : Reader} {t : Token}

/-- A token of content is taken. -/
theorem step_content (hplace : r.place = .content) (h : r.stepContent t = some r') :
    r.step t = some (r', .nothing) := by
  simp only [step, hplace, h]
  rfl

/-- A token of an attribute is taken, and the attribute goes on. -/
theorem step_assignment {a a' : Assignment} (tag : OpeningTag)
    (h : a.step r.version r.entities t = some (.inl a')) :
    (r.moveTo (.attribute tag a)).step t = some (r.moveTo (.attribute tag a'), .nothing) := by
  show ((a.step r.version r.entities t).map _).map _ = _
  rw [h]
  rfl

end Step

section Value

variable {r : Reader} {tag : OpeningTag} {name : QualifiedName}

/-- A character of an attribute value is read. -/
theorem readAll_valueCharacter (hversion : r.version = .oneZero) (hentities : r.entities = [])
    {c : Char} {written rest : List Char} (hc : isCharacter c = true)
    (hwritten : Spells bareInValue c written) (hrest : Calm rest) (value : List Char) :
    (r.moveTo (.attribute tag (.quoted name .double value))).readAll
        (remaining (written ++ rest)) =
      (r.moveTo (.attribute tag (.quoted name .double (c :: value)))).readAll
        (remaining rest) := by
  cases hwritten with
  | plain hbare =>
    simp only [bareInValue, bareInText, List.mem_append, List.mem_cons, List.not_mem_nil, or_false,
      not_or] at hbare
    refine readAll_single c rest ?_ (scan_tokenOf hbare.2.1 hrest) (tokenOf_ne_doctypeStart c)
    have hadmits : r.version.admitsInContent c = true := hversion ▸ hc
    rcases tokenOf_cases hbare.2.2.1 hbare.2.2.2 with htoken | hmark
    · rw [htoken]
      exact step_assignment tag (if_pos hadmits)
    · simp only [List.mem_cons, List.not_mem_nil, or_false] at hmark
      rcases hmark with rfl | rfl | rfl | rfl
      · rfl
      · rfl
      · exact absurd rfl hbare.1.1
      · exact absurd rfl hbare.1.2.1
  | reference nm h =>
    have hcharacter : Replacement.ofName? r.version r.entities nm.reverse.reverse =
        some (.character c) := by
      rw [hversion, hentities, List.reverse_reverse]
      exact h.2
    refine readAll_reference (fun read => .attribute tag (.reference name .double value read)) h
      rfl ?_ ?_ rest
    · exact fun read d hd => step_assignment tag (if_pos hd)
    · refine step_assignment tag ?_
      show (Replacement.ofName? r.version r.entities nm.reverse.reverse).map _ = _
      rw [hcharacter]
      rfl

end Value

section Text

variable {r : Reader}

/-- The reader in an element, with a run of text of which a part has been read. -/
def inText (r : Reader) (run : List Char) : Reader :=
  { r with place := .content, run := run, droppable := run.all isSpace }

/-- A character of a text is read. -/
theorem readAll_textCharacter (hversion : r.version = .oneZero) (hentities : r.entities = [])
    (hinside : r.opened.isEmpty = false) {c : Char} {written rest : List Char}
    (hc : isCharacter c = true) (hwritten : Spells bareInText c written) (hrest : Calm rest)
    (run : List Char) :
    (r.inText run).readAll (remaining (written ++ rest)) =
      (r.inText (c :: run)).readAll (remaining rest) := by
  cases hwritten with
  | plain hbare =>
    simp only [bareInText, List.mem_cons, List.not_mem_nil, or_false, not_or] at hbare
    refine readAll_single c rest ?_ (scan_tokenOf hbare.1 hrest) (tokenOf_ne_doctypeStart c)
    have hadmits : r.version.admitsInContent c = true := hversion ▸ hc
    rcases tokenOf_cases hbare.2.1 hbare.2.2 with htoken | hmark
    · rw [htoken]
      refine step_content rfl ?_
      cases hspace : isSpace c with
      | true =>
        refine (if_pos hspace).trans ?_
        simp only [inText, isOutside, hinside, List.all_cons, hspace]
        rfl
      | false =>
        refine (if_neg (Bool.eq_false_iff.1 hspace)).trans ((if_neg ?_).trans ?_)
        · rw [inText, isOutside, hinside, hadmits]
          nofun
        · simp only [inText, extend, List.all_cons, hspace]
          rfl
    · simp only [List.mem_cons, List.not_mem_nil, or_false] at hmark
      have hnot : ¬ (r.inText run).isOutside := Bool.eq_false_iff.1 hinside
      rcases hmark with rfl | rfl | rfl | rfl
      all_goals exact step_content rfl (if_neg hnot)
  | reference nm h =>
    have hcharacter : Replacement.ofName? r.version r.entities nm.reverse.reverse =
        some (.character c) := by
      rw [hversion, hentities, List.reverse_reverse]
      exact h.2
    refine readAll_reference .reference h ?_ ?_ ?_ rest
    · exact step_content rfl (if_neg (Bool.eq_false_iff.1 hinside))
    · exact fun _ _ hd => if_pos hd
    · have hblank : (run.all isSpace && (isSpace c && run.all isSpace)) =
          (isSpace c && run.all isSpace) := by
        rw [Bool.and_left_comm, Bool.and_self]
      show (Replacement.ofName? r.version r.entities nm.reverse.reverse).map _ = _
      rw [hcharacter]
      simp only [Option.map_some, inText, moveTo, List.all_cons, hblank]

end Text

theorem toList_escapeWith (escape : Char → String) (s : String) :
    (escapeWith escape s).toList = s.toList.flatMap fun c => (escape c).toList := by
  rw [escapeWith, String.toList_join, List.flatMap_map]

/-- Characters are read one after the other. -/
theorem readAll_written {bare : List Char} {escape : Char → String} (reader : List Char → Reader)
    (hspells : ∀ c, Spells bare c (escape c).toList) (hbare : '>' ∈ bare)
    (hread : ∀ {c : Char} {written rest : List Char}, isCharacter c = true →
      Spells bare c written → Calm rest → ∀ read : List Char,
      (reader read).readAll (remaining (written ++ rest)) =
        (reader (c :: read)).readAll (remaining rest))
    {cs rest : List Char} (hcs : ∀ c ∈ cs, isCharacter c = true) (hrest : Calm rest)
    (read : List Char) :
    (reader read).readAll (remaining ((cs.flatMap fun c => (escape c).toList) ++ rest)) =
      (reader (cs.reverse ++ read)).readAll (remaining rest) := by
  have hcalm (cs : List Char) :
      Calm ((cs.flatMap fun c => (escape c).toList) ++ rest) := by
    induction cs with
    | nil => exact hrest
    | cons c cs ih =>
      rw [List.flatMap_cons, List.append_assoc]
      exact (hspells c).calm hbare ih
  induction cs generalizing read with
  | nil => rfl
  | cons c cs ih =>
    rw [List.forall_mem_cons] at hcs
    rw [List.flatMap_cons, List.append_assoc, hread hcs.1 (hspells c) (hcalm cs), ih hcs.2,
      List.reverse_cons, List.append_assoc, List.singleton_append]

/-- **An attribute value is read as it was written.** -/
theorem readAll_value {r : Reader} (tag : OpeningTag) (name : QualifiedName)
    (hversion : r.version = .oneZero) (hentities : r.entities = []) {value : String}
    (hvalue : ∀ c ∈ value.toList, isCharacter c = true) (rest : List Char) :
    (r.moveTo (.attribute tag (.quoted name .double []))).readAll
        (remaining ((escapeWith escapeInValue value).toList ++ '"' :: rest)) =
      (r.moveTo (.attribute tag (.quoted name .double value.toList.reverse))).readAll
        (remaining ('"' :: rest)) := by
  rw [toList_escapeWith]
  have h := readAll_written (fun read => r.moveTo (.attribute tag (.quoted name .double read)))
    spells_escapeInValue (by decide) (readAll_valueCharacter hversion hentities) hvalue
    (calm_of_head (c := '"') rest (by decide) (by decide)) []
  rwa [List.append_nil] at h

/-- **A text is read as it was written.** -/
theorem readAll_text {r : Reader} (hversion : r.version = .oneZero) (hentities : r.entities = [])
    (hinside : r.opened.isEmpty = false) {content : String}
    (hcontent : ∀ c ∈ content.toList, isCharacter c = true) (rest : List Char) :
    (r.inText []).readAll
        (remaining ((escapeWith escapeInText content).toList ++ '<' :: rest)) =
      (r.inText content.toList.reverse).readAll (remaining ('<' :: rest)) := by
  rw [toList_escapeWith]
  have h := readAll_written r.inText spells_escapeInText (by decide)
    (readAll_textCharacter hversion hentities hinside) hcontent
    (calm_of_head (c := '<') rest (by decide) (by decide)) []
  rwa [List.append_nil] at h

end Reader

end Xml
end VisualBlocks
