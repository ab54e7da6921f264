import Mathlib.Data.List.Nodup
import VisualBlocks.Proofs.Generation.Calls

/-!
# Names of variables

A pass is asked for variables by their raw names, which are any texts at all, and for counters in
between.  A new variable gets the first numbered form of its identifier that no other variable has.
Two raw names may have the same identifier, and one raw name may be spelt like the numbered form of
another one, so it takes the whole history to see that no name is given twice.

**Every call ends, the same raw name gets the same name, different ones get different names, and
what a pass records are the names in the order of their first calls** (`variable_names`).  In the
language of the scripts each of these names is one token, a name, and it is not reserved.
-/

set_option autoImplicit false

namespace VisualBlocks
namespace Generation

open Script (Position Token)

/-! ## One token -/

namespace ScriptName

/-- **A name that stands alone is one token.** -/
theorem tokenize {name : String} (h : ScriptName name) :
    Script.tokenize name =
      .ok [⟨.name, name, .start⟩, Token.closing (Position.start.after name.toList)] := by
  obtain ⟨c, cs, hcs, hc⟩ := h.word.starts
  have hparts : ∀ d ∈ cs, Script.isNamePart d = true :=
    fun d hd => h.word.parts d (hcs ▸ List.mem_cons_of_mem _ hd)
  have hrun : Script.nameRun (cs ++ []) = (cs, []) :=
    Script.nameRun_of_apart hparts fun _ h => nomatch h
  have hstep := Script.step_word hc hrun
  have hkeyword : Script.keywords.contains name = false := by
    rw [Bool.eq_false_iff]
    exact fun hmem => h.not_keyword (List.contains_iff_mem.1 hmem)
  rw [List.append_nil, ← hcs, Script.wordStep, String.ofList_toList, hkeyword] at hstep
  rw [Script.tokenize, Script.tokensFrom_token hstep, Script.tokensFrom]
  rfl

end ScriptName

namespace Pass

variable {l : Language} {p : Pass} {c : Call} {cs ds : List Call} {raw name : String}

/-! ## One call -/

/-- The loop by which a variable gets its name ends with this name: a known variable keeps its name,
and for a new one the numbered forms of its identifier are tried one after the other, for as long as
it takes. -/
def EndsWith (l : Language) (p : Pass) (raw name : String) : Prop :=
  p.known.lookup raw = some name ∨ p.known.lookup raw = none ∧
    Text.EndsAt p.names (Text.numbered (safeIdentifier l.reserved raw)) 1 name

/-- **Each call for a variable returns.** -/
theorem endsWith_variableName (l : Language) (p : Pass) (raw : String) :
    p.EndsWith l raw (p.variableName l raw).1 := by
  rw [variableName]
  cases hknown : p.known.lookup raw with
  | some name => exact .inl hknown
  | none => exact .inr ⟨hknown, Text.endsAt_free_numbered _ _⟩

/-- The answer to a call stands where the call stands. -/
theorem getElem?_answers (l : Language) (p : Pass) (before : List Call) (c : Call)
    (later : List Call) : (p.answers l (before ++ c :: later))[before.length]? =
      some (c, ((p.after l before).call l c).1) := by
  induction before generalizing p with
  | nil => rfl
  | cons d before ih => exact ih (p.call l d).2

/-! ## What is recorded -/

/-- The names that variables get. -/
def variableNames : List (Call × String) → List String
  | [] => []
  | (.variableName _, name) :: rest => name :: variableNames rest
  | (.freshName _, _) :: rest => variableNames rest

theorem nodup_names_after (l : Language) (cs : List Call) (h : p.names.Nodup) :
    (p.after l cs).names.Nodup := by
  induction cs generalizing p with
  | nil => exact h
  | cons c cs ih =>
    refine ih ?_
    cases c with
    | variableName raw => exact nodup_names_variableName l raw h
    | freshName base => exact h

/-- What comes again adds nothing. -/
theorem eraseDups_again {α : Type} [BEq α] [LawfulBEq α] {a : α} {as : List α} (h : a ∈ as)
    (bs : List α) : (as ++ a :: bs).eraseDups = (as ++ bs).eraseDups := by
  rw [List.eraseDups_append, List.eraseDups_append, List.removeAll, List.removeAll,
    List.filter_cons_of_neg (by simpa using h)]

/-- What is new comes last. -/
theorem eraseDups_new {α : Type} [BEq α] [LawfulBEq α] {a : α} {as : List α} (h : a ∉ as) :
    (as ++ [a]).eraseDups = as.eraseDups ++ [a] := by
  rw [List.eraseDups_append, List.removeAll, List.filter_cons_of_pos (by simpa using h)]
  rfl

/-- **A pass records the names of variables in the order of their first calls.** -/
theorem names_after (l : Language) (cs : List Call) (h : p.names.eraseDups = p.names) :
    (p.after l cs).names = (p.names ++ variableNames (p.answers l cs)).eraseDups := by
  induction cs generalizing p with
  | nil => rw [answers, variableNames, List.append_nil, h, after]
  | cons c cs ih =>
    rw [after, answers]
    cases c with
    | freshName base => exact ih h
    | variableName raw =>
      rw [call, variableNames, variableName]
      cases hknown : p.known.lookup raw with
      | some name =>
        have hmem : name ∈ p.names :=
          List.mem_map.2 ⟨(raw, name), Table.mem_of_lookup hknown, rfl⟩
        dsimp only
        rw [eraseDups_again hmem]
        exact ih h
      | none =>
        generalize hname : Text.free p.names _ 1 = name
        have hnew : name ∉ p.names := hname ▸ Text.free_numbered_not_mem p.names _
        have hnames : ({ p with known := p.known ++ [(raw, name)] } : Pass).names =
            p.names ++ [name] := List.map_append
        dsimp only
        rw [List.append_cons p.names name, ← hnames]
        refine ih ?_
        rw [hnames, eraseDups_new hnew, h]

/-! ## Different variables -/

/-- **Two calls get the same name exactly if they are for the same variable.** -/
theorem eq_iff_of_mem_answers (hnodup : p.names.Nodup) {raw' name' : String}
    (h : (.variableName raw, name) ∈ p.answers l cs)
    (h' : (.variableName raw', name') ∈ p.answers l cs) : name = name' ↔ raw = raw' := by
  have hlookup := lookup_of_mem_answers h
  have hlookup' := lookup_of_mem_answers h'
  constructor
  · rintro rfl
    exact congrArg Prod.fst (List.inj_on_of_nodup_map (nodup_names_after l cs hnodup)
      (Table.mem_of_lookup hlookup) (Table.mem_of_lookup hlookup') rfl)
  · rintro rfl
    exact Option.some.inj (hlookup.symm.trans hlookup')

theorem call_grows (p : Pass) (c : Call) : p.Grows (p.call scriptLanguage c).2 := by
  cases c with
  | variableName raw => exact p.variableName_grows raw
  | freshName base => exact p.freshName_grows base

theorem after_grows (p : Pass) (cs : List Call) : p.Grows (p.after scriptLanguage cs) := by
  induction cs generalizing p with
  | nil => exact .refl p
  | cons c cs ih => exact (p.call_grows c).trans (ih _)

/-- **Every name of a variable is a free word.** -/
theorem scriptName_of_mem_answers (h : (.variableName raw, name) ∈ start.answers scriptLanguage cs) :
    ScriptName name :=
  ((start.after_grows cs).sound sound_start).words (raw, name)
    (Table.mem_of_lookup (lookup_of_mem_answers h))

/-- **Names of variables are different and can be used**, whatever the raw names are and in whatever
order a pass is asked for them, with calls for counters in between.

* Each call returns: the loop that looks for a name ends, with the answer that the call gets.
* Two calls get the same name exactly if their raw names are the same.
* The recorded names are those that have been handed out, each once, in the order of their first
  calls.
* In a script each name is one token, which is a name, and it is not reserved. -/
theorem variable_names (l : Language) (calls : List Call) :
    (∀ before raw later, calls = before ++ .variableName raw :: later →
      ∃ name, (start.after l before).EndsWith l raw name ∧
        (start.answers l calls)[before.length]? = some (.variableName raw, name)) ∧
    (∀ raw name raw' name', (.variableName raw, name) ∈ start.answers l calls →
      (.variableName raw', name') ∈ start.answers l calls → (name = name' ↔ raw = raw')) ∧
    ((start.after l calls).names.Nodup ∧
      (start.after l calls).names = (variableNames (start.answers l calls)).eraseDups) ∧
    ∀ raw name, (.variableName raw, name) ∈ start.answers scriptLanguage calls →
      Script.tokenize name =
          .ok [⟨.name, name, .start⟩, Token.closing (Position.start.after name.toList)] ∧
        name ∉ scriptLanguage.reserved := by
  have hstart : start.names.Nodup := .nil
  refine ⟨?_, fun raw name raw' name' h h' => eq_iff_of_mem_answers hstart h h',
    ⟨nodup_names_after l calls hstart, names_after l calls rfl⟩, fun raw name h => ?_⟩
  · rintro before raw later rfl
    exact ⟨_, endsWith_variableName l _ raw, getElem?_answers l start before _ later⟩
  · have hname := scriptName_of_mem_answers h
    exact ⟨hname.tokenize, hname.free⟩

/-- Raw names that are spelt alike, one that is the numbered form of another one, a reserved word,
a digit in front, and nothing at all; a counter is named in between. -/
def awkwardCalls : List Call :=
  [.variableName "my var", .variableName "my_var", .variableName "my var", .freshName "count",
   .variableName "my_var2", .variableName "var", .variableName "1st", .variableName ""]

theorem awkwardCalls_named :
    variableNames (start.answers scriptLanguage awkwardCalls) =
      ["my_var", "my_var2", "my_var", "my_var22", "var_", "_1st", "unnamed"] ∧
    (start.after scriptLanguage awkwardCalls).names =
      ["my_var", "my_var2", "my_var22", "var_", "_1st", "unnamed"] ∧
    Script.tokenize "var_" = .ok [⟨.name, "var_", ⟨1, 1⟩⟩, Token.closing ⟨1, 5⟩] := by
  obtain ⟨-, -, ⟨-, hrecorded⟩, htokens⟩ := variable_names scriptLanguage awkwardCalls
  have hnames : variableNames (start.answers scriptLanguage awkwardCalls) =
      ["my_var", "my_var2", "my_var", "my_var22", "var_", "_1st", "unnamed"] := by decide +kernel
  rw [hnames] at hrecorded
  exact ⟨hnames, hrecorded.trans (by decide), (htokens "var" "var_" (by decide +kernel)).1⟩

end Pass
end Generation
end VisualBlocks
