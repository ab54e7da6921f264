import VisualBlocks.Proofs.Generation.Asking
import VisualBlocks.Proofs.Programs
import VisualBlocks.Sandbox.Run

/-!
# Counters of loops and variables of the user

The loops of a generated program count in variables that the pass has named.  No two of them count
in the same one, and none counts in a variable of the user that has been asked for before it.  But a
variable that comes up only after the loop gets its name without a look at the counters, and so a
loop can count in a variable of the user (`late_variable_captured`).

That happens to a few variables only: the counters are called `count`, `count2`, and so on, so a
variable that is caught is spelt like one of them (`spelt_like_counter`).  All in all, **where a loop
counts in a variable of the user, the variable is spelt like a counter and comes up only after the
loop** (`loop_counters`).
-/

set_option autoImplicit false

namespace VisualBlocks

open Script (parseProgram bodyCounters)
open Generation

/-! ## Spelling -/

/-- Is the text spelt like a counter: the base of all counters, and then digits? -/
def likeCounter (text : String) : Bool :=
  "count".toList.isPrefixOf text.toList && (text.toList.drop "count".toList.length).all Char.isDigit

theorem likeCounter_iff {text : String} : likeCounter text = true ↔
    ∃ digits, (∀ c ∈ digits, c.isDigit = true) ∧ text.toList = "count".toList ++ digits := by
  rw [likeCounter, Bool.and_eq_true, List.isPrefixOf_iff_prefix, List.all_eq_true]
  constructor
  · rintro ⟨⟨digits, htext⟩, hdigits⟩
    rw [← htext, List.drop_left] at hdigits
    exact ⟨digits, hdigits, htext.symm⟩
  · rintro ⟨digits, hdigits, htext⟩
    rw [htext, List.drop_left]
    exact ⟨List.prefix_append _ _, hdigits⟩

theorem likeCounter_numbered (n : Nat) : likeCounter (Text.numbered "count" n) = true := by
  rw [likeCounter_iff, Text.numbered]
  split
  · exact ⟨[], List.forall_mem_nil _, rfl⟩
  · exact ⟨(toString n).toList, fun c => Text.isDigit_toString, String.toList_append⟩

/-- Only what is spelt like a counter has a numbered name that is. -/
theorem likeCounter_of_numbered {base : String} {n : Nat}
    (h : likeCounter (Text.numbered base n) = true) : likeCounter base = true := by
  rw [Text.numbered] at h
  split at h
  · exact h
  · obtain ⟨digits, hdigits, htext⟩ := likeCounter_iff.1 h
    rw [String.toList_append, List.append_eq_append_iff] at htext
    rw [likeCounter_iff]
    rcases htext with ⟨more, hbase, hnumber⟩ | ⟨more, hbase, hrest⟩
    · -- the number would have to begin within the letters
      have hnone : more = [] := by
        rw [List.eq_nil_iff_forall_not_mem]
        intro c hc
        have hletters : "count".toList.all (fun c => !c.isDigit) = true := by decide
        have hletter := List.all_eq_true.1 hletters c (hbase ▸ List.mem_append_right _ hc)
        rw [Text.isDigit_toString (hnumber ▸ List.mem_append_left _ hc)] at hletter
        cases hletter
      rw [hnone, List.append_nil] at hbase
      exact ⟨[], List.forall_mem_nil _, by rw [hbase, List.append_nil]⟩
    · exact ⟨more, fun c hc => hdigits c (hrest ▸ List.mem_append_left _ hc), hbase⟩

/-- Only an underscore sets an identifier off from its raw name. -/
theorem safeIdentifier_plain {reserved : List String} {raw : String}
    (h : '_' ∉ (safeIdentifier reserved raw).toList) :
    safeIdentifier reserved raw = "unnamed" ∨ safeIdentifier reserved raw = raw := by
  rw [safeIdentifier] at h ⊢
  generalize hmapped : (raw.toList.map fun c => if isNameChar c then c else '_') = mapped at h ⊢
  generalize hnamed : (if mapped.isEmpty then "unnamed".toList else mapped) = named at h ⊢
  generalize hword : (if named.head?.any Char.isDigit then '_' :: named else named) = word at h ⊢
  split at h
  · rw [String.toList_append] at h
    exact absurd (List.mem_append_right _ (by decide)) h
  · next hfree =>
    rw [if_neg hfree]
    rw [String.toList_ofList] at h
    split at hword
    · exact absurd (hword ▸ List.mem_cons_self) h
    · subst hword
      split at hnamed
      · exact .inl (hnamed ▸ String.ofList_toList)
      · subst hnamed hmapped
        have hkept : ∀ c ∈ raw.toList, (if isNameChar c then c else '_') = c := by
          intro c hc
          split
          · rfl
          · next hother =>
            have hmem := List.mem_map_of_mem (f := fun c => if isNameChar c then c else '_') hc
            rw [if_neg hother] at hmem
            exact absurd hmem h
        rw [List.map_congr_left hkept, List.map_id', String.ofList_toList]
        exact .inr rfl

/-- Only what is spelt like a counter has an identifier that is. -/
theorem likeCounter_of_safeIdentifier {reserved : List String} {raw : String}
    (h : likeCounter (safeIdentifier reserved raw) = true) : likeCounter raw = true := by
  obtain ⟨digits, hdigits, htext⟩ := likeCounter_iff.1 h
  have hplain : '_' ∉ (safeIdentifier reserved raw).toList := by
    rw [htext, List.mem_append]
    rintro (hmem | hmem)
    · exact absurd hmem (by decide)
    · exact absurd (hdigits _ hmem) (by decide)
  rcases safeIdentifier_plain hplain with hname | hname
  · rw [hname] at h
    exact absurd h (by decide)
  · rwa [hname] at h

/-- **A variable with the name of a counter is spelt like one.** -/
theorem spelt_like_counter {raw : String} {m n : Nat}
    (h : Text.numbered (safeIdentifier scriptWords raw) m =
      Text.numbered (safeIdentifier scriptWords "count") n) : likeCounter raw = true := by
  have hcount : safeIdentifier scriptWords "count" = "count" := by decide
  rw [hcount] at h
  exact likeCounter_of_safeIdentifier (likeCounter_of_numbered (h ▸ likeCounter_numbered n))

/-! ## Programs -/

/-- A counter that has the name of a variable tells how the variable is spelt. -/
theorem likeCounter_of_shared {calls : List Call} {raw name : String}
    (hbase : ∀ base, .freshName base ∈ calls → base = "count")
    (hcounter : name ∈ Pass.counterNames (Pass.start.answers scriptLanguage calls))
    (hvariable : ∃ m, name = Text.numbered (safeIdentifier scriptWords raw) m) :
    likeCounter raw = true := by
  obtain ⟨before, base, later, rfl, hname⟩ := Pass.exists_call hcounter
  obtain rfl : base = "count" := hbase base (List.mem_append_right _ List.mem_cons_self)
  obtain ⟨m, hm⟩ := hvariable
  obtain ⟨n, hn⟩ := free_eq ((Pass.start.after scriptLanguage before).counters ++
    (Pass.start.after scriptLanguage before).names)
    (Text.numbered (safeIdentifier scriptWords "count")) 1
  exact spelt_like_counter (hm.symm.trans (hname.trans hn))

/-- **A loop counts in a variable of the user only where the variable is spelt like a counter and
comes up after the loop.**  Whatever a pass is asked for, its counters have different names, and a
variable with the name of a counter is late.  The counters of the loops in a generated program are
those that the pass has named, and its variables are the ones that blocks hold.  So the loops count
in different variables, and where one of them counts in a variable of the user, this variable is late
and some block holds a name for it that is spelt like a counter. -/
theorem loop_counters (v : Vocabulary) (w : Workspace) (hreachable : w.Reachable)
    (hruled : ∀ b ∈ w.blocks, v.preset.generator.knows b.type = true) :
    (∀ (l : Language) (calls : List Call),
        (Pass.counterNames (Pass.start.answers l calls)).Nodup ∧
          ∀ raw name, name ∈ Pass.counterNames (Pass.start.answers l calls) →
            (.variableName raw, name) ∈ Pass.start.answers l calls →
            Pass.Late l .start calls raw name) ∧
      ∃ chunks pass program calls,
        w.top.mapM (v.preset.generator.root w.graph) .start = some (chunks, pass) ∧
          parseProgram (v.preset.generator.code w) = .ok program ∧
          pass.SameNames (Pass.start.after scriptLanguage calls) ∧
          bodyCounters program.body =
            Pass.counterNames (Pass.start.answers scriptLanguage calls) ∧
          (bodyCounters program.body).Nodup ∧
          ∀ name ∈ bodyCounters program.body, name ∈ pass.names →
            ∃ raw, Pass.Late scriptLanguage .start calls raw name ∧ likeCounter raw = true ∧
              ∃ b ∈ w.blocks, b.fields.get? "VAR" = some raw := by
  refine ⟨fun l calls => ⟨(Pass.nodup_counterNames l .start calls).1, fun raw name => ?_⟩, ?_⟩
  · exact Pass.late_of_counter
  have honeLine := Workspace.unknownOnOneLine_of_knows hruled
  have hlinked := hreachable.linked
  obtain ⟨forest, hforest⟩ := hlinked.exists_forest
  obtain ⟨chunks, pass, program, -, hrun, hparsed, -, -, -, -, hbody⟩ :=
    hlinked.generated honeLine hforest
  obtain ⟨calls, hcalls, hsame⟩ := calls_of_roots v ⟨v.types⟩ w.graph hrun
  rw [generator_language] at hsame
  have hcounters : bodyCounters program.body =
      Pass.counterNames (Pass.start.answers scriptLanguage calls) := by
    rw [hbody, hsame.counters, Pass.counters_after, Pass.start, List.append_nil,
      List.reverse_reverse]
  refine ⟨chunks, pass, program, calls, hrun, hparsed, hsame, hcounters,
    hcounters ▸ (Pass.nodup_counterNames scriptLanguage .start calls).1, fun name hname hused => ?_⟩
  rw [hcounters] at hname
  rw [Pass.names, hsame.known] at hused
  obtain ⟨⟨raw, _⟩, hknown, rfl⟩ := List.mem_map.1 hused
  rcases Pass.known_after scriptLanguage .start calls hknown with hnone | ⟨hanswer, hvariable⟩
  · cases hnone
  have hspelt := likeCounter_of_shared (fun base hbase => hcalls _ hbase) hname hvariable
  refine ⟨raw, Pass.late_of_counter hname hanswer, hspelt, ?_⟩
  rcases hcalls _ (Pass.call_of_mem_answers hanswer) with rfl | ⟨id, node, hnode, hfield⟩
  · exact absurd hspelt (by decide)
  · rw [Workspace.node?_graph] at hnode
    obtain ⟨b, hb, rfl⟩ := Option.map_eq_some_iff.1 hnode
    exact ⟨b, List.mem_of_find?_eq_some hb, hfield⟩

/-- A loop of three rounds, and then a block that prints a variable. -/
def loopThenPrint (name : String) : Workspace :=
  ⟨[{ Block.fresh "loop" "controls_repeat" with
      fields := ⟨[("TIMES", "3")]⟩
      next := some "print" },
    { Block.fresh "print" "text_print" with
      inputs := ⟨[("TEXT", "read")]⟩
      parent := some ⟨"loop", .next⟩ },
    { Block.fresh "read" "variables_get" with
      fields := ⟨[("VAR", name)]⟩
      parent := some ⟨"print", .input⟩ }]⟩

theorem loopThenPrint_reachable (name : String) : (loopThenPrint name).Reachable :=
  ((((((Workspace.Reachable.empty.step (.add "loop" "controls_repeat" rfl)).step
    (.add "print" "text_print" rfl)).step (.add "read" "variables_get" rfl)).step
    (.setField "loop" "TIMES" "3" rfl)).step (.setField "read" "VAR" name rfl)).step
    (.connectNext "loop" "print" rfl)).step (.connectInput "print" "TEXT" "read" rfl)

theorem total_after_loop :
    (∀ (l : Language) (calls : List Call),
        (Pass.counterNames (Pass.start.answers l calls)).Nodup ∧
          ∀ raw name, name ∈ Pass.counterNames (Pass.start.answers l calls) →
            (.variableName raw, name) ∈ Pass.start.answers l calls →
            Pass.Late l .start calls raw name) ∧
      ∃ chunks pass program calls,
        (loopThenPrint "total").top.mapM
            (Vocabulary.standard.preset.generator.root (loopThenPrint "total").graph) .start =
          some (chunks, pass) ∧
          parseProgram (Vocabulary.standard.preset.generator.code (loopThenPrint "total")) =
            .ok program ∧
          pass.SameNames (Pass.start.after scriptLanguage calls) ∧
          bodyCounters program.body =
            Pass.counterNames (Pass.start.answers scriptLanguage calls) ∧
          (bodyCounters program.body).Nodup ∧
          ∀ name ∈ bodyCounters program.body, name ∈ pass.names →
            ∃ raw, Pass.Late scriptLanguage .start calls raw name ∧ likeCounter raw = true ∧
              ∃ b ∈ (loopThenPrint "total").blocks, b.fields.get? "VAR" = some raw :=
  loop_counters .standard (loopThenPrint "total") (loopThenPrint_reachable "total") (by decide)

/-- **A variable that comes up after a loop can be the one in which the loop counts.**  No block
gives it a value, and still it has the number of rounds. -/
theorem late_variable_captured :
    Pass.start.answers scriptLanguage [.freshName "count", .variableName "count"] =
        [(.freshName "count", "count"), (.variableName "count", "count")] ∧
      (loopThenPrint "count").Reachable ∧
      (∀ b ∈ (loopThenPrint "count").blocks,
        Vocabulary.standard.preset.generator.knows b.type = true) ∧
      Vocabulary.standard.preset.generator.code (loopThenPrint "count") =
        "var count;\n\nfor (var count = 0; count < 3; count++) \x7b\n\x7d\nwindow.alert(count);\n" ∧
      ((Sandbox.new .standard).execute 0
        (Vocabulary.standard.preset.generator.code (loopThenPrint "count"))).1.effects.output =
          #["3"] ∧
      ((Sandbox.new .standard).execute 0
        (Vocabulary.standard.preset.generator.code (loopThenPrint "total"))).1.effects.output =
          #["undefined"] :=
  ⟨by decide, loopThenPrint_reachable "count", by decide, by decide +kernel, by decide +kernel,
    by decide +kernel⟩

end VisualBlocks
