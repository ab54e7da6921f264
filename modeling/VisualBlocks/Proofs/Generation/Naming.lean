import VisualBlocks.Generation.Pass
import VisualBlocks.Generation.Script
import VisualBlocks.Proofs.Script.Layout
import VisualBlocks.Proofs.Text.Candidate
import VisualBlocks.Sandbox.Capabilities

/-!
# Names of a program

Every name that a pass hands out is a word of its own: it is read as one name, it is no word of the
language, and it is not the name of anything outside the program (`ScriptName`).  A numbered name
cannot become a reserved word, because reserved words end in a letter and neither a digit nor an
underscore is one.

A pass only ever grows (`Pass.Grows`): a variable that has a name keeps it.
-/

set_option autoImplicit false

namespace VisualBlocks
namespace Generation

open Script (IsWord isNamePart isNameStart keywords)

/-! ## Words that are free to be names -/

/-- A word that is read as a name and that means nothing outside the program. -/
structure ScriptName (name : String) : Prop where
  word : IsWord name.toList
  free : name ∉ scriptWords

namespace ScriptName

variable {name : String}

theorem not_keyword (h : ScriptName name) : name ∉ keywords := by
  have hsub : ∀ word ∈ keywords, word ∈ scriptWords := by decide
  exact fun hmem => h.free (hsub name hmem)

theorem not_capability (h : ScriptName name) : name ∉ Sandbox.capabilityNames := by
  have hcases : ∀ word ∈ Sandbox.capabilityNames, word ∈ scriptWords ∨ '.' ∈ word.toList := by
    decide
  intro hmem
  rcases hcases name hmem with hword | hpoint
  · exact h.free hword
  · exact absurd (h.word.parts '.' hpoint) (by decide)

/-- A name is read as a name. -/
theorem inline (h : ScriptName name) : Script.Inline name [.name name] := by
  refine ⟨?_, fun hmem => absurd (h.word.parts '\n' hmem) (by decide)⟩
  have hphrase := h.word.phrase
  rw [String.ofList_toList, Script.wordLexeme, if_neg ?_] at hphrase
  · exact hphrase
  · rw [List.contains_iff_mem]
    exact h.not_keyword

end ScriptName

/-! ## Identifiers -/

theorem isNamePart_of_isNameChar {c : Char} (h : isNameChar c = true) : isNamePart c = true := by
  rw [isNameChar, Bool.or_eq_true, beq_iff_eq] at h
  rcases h with h | rfl
  · rw [isNamePart, h]
    rfl
  · decide

theorem isNameStart_of_isNameChar {c : Char} (h : isNameChar c = true) (hd : ¬ c.isDigit = true) :
    isNameStart c = true := by
  rw [isNameChar, Char.isAlphanum, Bool.or_eq_true, Bool.or_eq_true, beq_iff_eq] at h
  rcases h with (h | h) | rfl
  · rw [isNameStart, h]
    rfl
  · exact absurd h hd
  · decide

theorem isWord_append {cs ds : List Char} (h : IsWord cs) (hds : ∀ c ∈ ds, isNamePart c = true) :
    IsWord (cs ++ ds) := by
  obtain ⟨c, es, rfl, hc⟩ := h.starts
  refine ⟨⟨c, es ++ ds, rfl, hc⟩, fun d hd => ?_⟩
  exact (List.mem_append.1 hd).elim (h.parts d) (hds d)

/-- Whatever the raw name is, its identifier is a word. -/
theorem isWord_safeIdentifier (reserved : List String) (raw : String) :
    IsWord (safeIdentifier reserved raw).toList := by
  rw [safeIdentifier]
  generalize hmapped : (raw.toList.map fun c => if isNameChar c then c else '_') = mapped
  generalize hnamed : (if mapped.isEmpty then "unnamed".toList else mapped) = named
  have hchars : ∀ c ∈ mapped, isNameChar c = true := by
    intro c hc
    rw [← hmapped] at hc
    obtain ⟨d, -, rfl⟩ := List.mem_map.1 hc
    split
    · assumption
    · decide
  have hnamedChars : ∀ c ∈ named, isNameChar c = true := by
    rw [← hnamed]
    split
    · exact List.all_eq_true.1 (by decide)
    · exact hchars
  have hne : named ≠ [] := by
    rw [← hnamed]
    split
    · decide
    · next h => exact fun hnil => h (List.isEmpty_iff.2 hnil)
  have hword : IsWord (if named.head?.any Char.isDigit then '_' :: named else named) := by
    obtain ⟨c, cs, rfl⟩ := List.exists_cons_of_ne_nil hne
    have hparts : ∀ d ∈ c :: cs, isNamePart d = true :=
      fun d hd => isNamePart_of_isNameChar (hnamedChars d hd)
    split
    · refine ⟨⟨'_', c :: cs, rfl, by decide⟩, fun d hd => ?_⟩
      rcases List.mem_cons.1 hd with rfl | hd
      · decide
      · exact hparts d hd
    · next hdigit =>
      refine ⟨⟨c, cs, rfl, ?_⟩, hparts⟩
      exact isNameStart_of_isNameChar (hnamedChars c List.mem_cons_self) hdigit
  generalize (if named.head?.any Char.isDigit then '_' :: named else named) = word at hword ⊢
  split
  · rw [String.toList_append, String.toList_ofList]
    exact isWord_append hword (List.all_eq_true.1 (by decide))
  · rw [String.toList_ofList]
    exact hword

/-- Reserved words end in a letter. -/
theorem not_mem_scriptWords {name : String} {c : Char} (hlast : name.toList.getLast? = some c)
    (hc : c.isAlpha = false) : name ∉ scriptWords := by
  have hwords : ∀ word ∈ scriptWords, word.toList.getLast?.any Char.isAlpha = true := by decide
  intro hmem
  have h := hwords name hmem
  rw [hlast, Option.any_some, hc] at h
  cases h

theorem setOff_not_reserved (name : String) :
    (if scriptWords.contains name then name ++ "_" else name) ∉ scriptWords := by
  split
  · refine not_mem_scriptWords (c := '_') ?_ (by decide)
    rw [String.toList_append, List.getLast?_append]
    rfl
  · next h => rwa [List.contains_iff_mem] at h

theorem safeIdentifier_not_reserved (raw : String) :
    safeIdentifier scriptWords raw ∉ scriptWords := setOff_not_reserved _

/-- **A numbered identifier is a free word.** -/
theorem scriptName_numbered (raw : String) (n : Nat) :
    ScriptName (Text.numbered (safeIdentifier scriptWords raw) n) := by
  have hword := isWord_safeIdentifier scriptWords raw
  rw [Text.numbered]
  split
  · exact ⟨hword, safeIdentifier_not_reserved raw⟩
  · have hdigits : ∀ c ∈ (toString n).toList, c.isDigit = true :=
      fun c => Text.isDigit_toString
    have hne : (toString n).toList ≠ [] := by
      rw [Text.toList_toString]
      exact Nat.toDigits_ne_nil
    refine ⟨?_, not_mem_scriptWords (c := (toString n).toList.getLast hne) ?_ ?_⟩
    · rw [String.toList_append]
      exact isWord_append hword fun c hc => Script.isNamePart_of_isDigit (hdigits c hc)
    · rw [String.toList_append, List.getLast?_append, List.getLast?_eq_some_getLast hne]
      rfl
    · have hrange := Script.toNat_of_isDigit (hdigits _ (List.getLast_mem hne))
      rw [Bool.eq_false_iff]
      intro halpha
      have := Script.toNat_of_isAlpha halpha
      omega

theorem free_eq (taken : List String) (candidate : Nat → String) (start : Nat) :
    ∃ n, Text.free taken candidate start = candidate n := by
  rw [Text.free]
  generalize taken.length = fuel
  induction fuel generalizing start with
  | zero => exact ⟨start, rfl⟩
  | succ fuel ih =>
    rw [Text.firstFree]
    split
    · exact ih (start + 1)
    · exact ⟨start, rfl⟩

theorem scriptName_free (taken : List String) (raw : String) :
    ScriptName (Text.free taken (Text.numbered (safeIdentifier scriptWords raw)) 1) := by
  obtain ⟨n, hn⟩ := free_eq taken (Text.numbered (safeIdentifier scriptWords raw)) 1
  rw [hn]
  exact scriptName_numbered raw n

/-! ## Passes -/

namespace Pass

/-- The name that a variable has in the program. -/
def nameOf (p : Pass) (raw : String) : String := (p.known.lookup raw).getD ""

/-- The names of the variables are free words, and no two variables have the same. -/
structure Sound (p : Pass) : Prop where
  words : ∀ entry ∈ p.known, ScriptName entry.2
  distinct : p.names.Nodup

/-- A later state of a pass: what has a name keeps it. -/
structure Grows (p q : Pass) : Prop where
  keeps : ∀ raw name, p.known.lookup raw = some name → q.known.lookup raw = some name
  sound : p.Sound → q.Sound

theorem sound_start : start.Sound := ⟨nofun, .nil⟩

theorem Grows.refl (p : Pass) : p.Grows p := ⟨fun _ _ h => h, fun h => h⟩

theorem Grows.trans {p q r : Pass} (hpq : p.Grows q) (hqr : q.Grows r) : p.Grows r :=
  ⟨fun raw name h => hqr.keeps raw name (hpq.keeps raw name h), fun h => hqr.sound (hpq.sound h)⟩

theorem Grows.nameOf {p q : Pass} (h : p.Grows q) {raw name : String}
    (hname : p.known.lookup raw = some name) : q.nameOf raw = name := by
  rw [Pass.nameOf, h.keeps raw name hname]
  rfl

/-- Only the names matter for growth. -/
theorem Grows.of_known {p q : Pass} (h : q.known = p.known) : p.Grows q := by
  have hnames : q.names = p.names := by rw [names, names, h]
  exact ⟨fun raw name hname => h ▸ hname, fun hsound => ⟨h ▸ hsound.words, hnames ▸ hsound.distinct⟩⟩

/-- The name that a variable has from now on. -/
theorem variableName_known (p : Pass) (l : Language) (raw : String) :
    (p.variableName l raw).2.known.lookup raw = some (p.variableName l raw).1 := by
  rw [variableName]
  split
  · assumption
  · next h =>
    dsimp only
    rw [List.lookup_append, h, List.lookup_cons_self]
    rfl

theorem variableName_visited (p : Pass) (l : Language) (raw : String) :
    (p.variableName l raw).2.visited = p.visited := by
  rw [variableName]
  split <;> rfl

theorem variableName_counters (p : Pass) (l : Language) (raw : String) :
    (p.variableName l raw).2.counters = p.counters := by
  rw [variableName]
  split <;> rfl

/-- A variable that has a name keeps it. -/
theorem variableName_keeps (l : Language) (raw : String) {p : Pass} {other name : String}
    (h : p.known.lookup other = some name) :
    (p.variableName l raw).2.known.lookup other = some name := by
  rw [variableName]
  split
  · exact h
  · dsimp only
    rw [List.lookup_append, h]
    rfl

/-- No two variables get the same name. -/
theorem nodup_names_variableName (l : Language) (raw : String) {p : Pass} (h : p.names.Nodup) :
    (p.variableName l raw).2.names.Nodup := by
  rw [variableName]
  split
  · exact h
  · rw [names, List.map_append, List.nodup_append]
    refine ⟨h, List.pairwise_singleton _ _, fun name hname new hnew heq => ?_⟩
    obtain rfl := List.mem_singleton.1 hnew
    exact Text.free_numbered_not_mem p.names _ (heq ▸ hname)

theorem variableName_grows (p : Pass) (raw : String) :
    p.Grows (p.variableName scriptLanguage raw).2 := by
  refine ⟨fun _ _ => variableName_keeps scriptLanguage raw, fun hsound => ?_⟩
  refine ⟨fun entry hentry => ?_, nodup_names_variableName scriptLanguage raw hsound.distinct⟩
  rw [variableName] at hentry
  split at hentry
  · exact hsound.words entry hentry
  · rcases List.mem_append.1 hentry with hentry | hentry
    · exact hsound.words entry hentry
    · rw [List.mem_singleton.1 hentry]
      exact scriptName_free p.names raw

/-- **The name of a variable is a free word.** -/
theorem scriptName_variableName {p : Pass} (h : p.Sound) (raw : String) :
    ScriptName (p.variableName scriptLanguage raw).1 := by
  have hmem := Table.mem_of_lookup (p.variableName_known scriptLanguage raw)
  exact ((p.variableName_grows raw).sound h).words _ hmem

/-- **The name of a counter is a free word.** -/
theorem scriptName_freshName (p : Pass) (base : String) :
    ScriptName (p.freshName scriptLanguage base).1 := by
  rw [freshName]
  exact scriptName_free (p.counters ++ p.names) base

theorem freshName_grows (p : Pass) (base : String) :
    p.Grows (p.freshName scriptLanguage base).2 := .of_known rfl

end Pass
end Generation
end VisualBlocks
