import VisualBlocks.Proofs.Generation.Branching
import VisualBlocks.Proofs.Generation.Stubs
import VisualBlocks.Proofs.Table
import VisualBlocks.Vocabulary

/-!
# The rules of the vocabularies

**Every rule of every vocabulary is right** (`rule_right`): a rule for values gives the expression
of its block, a rule for statements gives lines of the form of its block.  A rule that is added to
a generator has to be added here, and nowhere else.
-/

set_option autoImplicit false

namespace VisualBlocks
namespace Generation

open Script BlockTree

/-! ## Which rules there are -/

/-- The rules that a vocabulary adds to the standard ones. -/
def addedRules : Vocabulary → List (String × Rule)
  | .standard => []
  | .automation => Automation.rules
  | .canvas => Canvas.rules

/-- A rule of a vocabulary is one of the standard rules or of those that it adds. -/
theorem rule_mem_or (v : Vocabulary) (registry : Registry) {type : String} {rule : Rule}
    (h : (v.generator registry).rules.get? type = some rule) :
    (type, rule) ∈ Standard.rules ∨ (type, rule) ∈ addedRules v := by
  have hstandard (h : Standard.generator.rules.get? type = some rule) :
      (type, rule) ∈ Standard.rules := by
    rcases Table.get?_foldl_set_eq_some Standard.rules .empty h with hmem | hempty
    · exact hmem
    · cases hempty
  cases v with
  | standard => exact .inl (hstandard h)
  | automation =>
    exact (Table.get?_foldl_set_eq_some Automation.rules Standard.generator.rules h).symm.imp_left
      hstandard
  | canvas =>
    exact (Table.get?_foldl_set_eq_some Canvas.rules Standard.generator.rules h).symm.imp_left
      hstandard

theorem addedRules_subset (v : Vocabulary) : addedRules v ⊆ Automation.rules ++ Canvas.rules := by
  cases v with
  | standard => exact List.nil_subset _
  | automation => exact List.subset_append_left _ _
  | canvas => exact List.subset_append_right _ _

/-- Wherever a rule comes from, it is one of these. -/
theorem rule_mem (v : Vocabulary) (registry : Registry) {type : String} {rule : Rule}
    (h : (v.generator registry).rules.get? type = some rule) :
    (type, rule) ∈ Standard.rules ++ (Automation.rules ++ Canvas.rules) :=
  List.mem_append.2 ((rule_mem_or v registry h).imp_right fun h => addedRules_subset v h)

/-! ## That they are right -/

/-- Is the rule right for blocks of the type? -/
def Rule.Right (known : String → Bool) (type : String) : Rule → Prop
  | .statement emit => type ∉ valueTypes ∧
    ∀ {answer : Request → Walk String} {t : BlockTree} {s : Site} {p : Pass},
      s.Shows t → t.type = type → Served known answer t → p.Sound → t.ids.Nodup →
        (∀ socket, ∀ id ∈ t.inputIds socket, id ∉ p.visited) →
          ((emit s).run answer).Ensures p (Stated known t p)
  | .value emit => type ∈ valueTypes ++ stubTypes ∧
    ∀ {answer : Request → Walk String} {t : BlockTree} {s : Site} {p : Pass},
      s.Shows t → t.type = type → Served known answer t → p.Sound →
        ((emit s).run answer).Ensures p (Valued t p)

variable {known : String → Bool}

theorem right_standard : ∀ entry ∈ Standard.rules, entry.2.Right known entry.1 := by
  intro entry hentry
  simp only [Standard.rules, List.mem_cons, List.not_mem_nil, or_false] at hentry
  rcases hentry with rfl | rfl | rfl | rfl | rfl | rfl | rfl | rfl | rfl | rfl | rfl | rfl | rfl |
    rfl | rfl | rfl | rfl | rfl
  · exact ⟨by decide, Standard.stated_controlsIf⟩
  · exact ⟨by decide, fun hs ht h hp _ => Standard.stated_controlsRepeatExt hs ht h hp⟩
  · exact ⟨by decide, fun hs ht h hp _ => Standard.stated_controlsRepeat hs ht h hp⟩
  · exact ⟨by decide, fun hs ht h hp _ => Standard.stated_controlsWhileUntil hs ht h hp⟩
  · exact ⟨by decide, Standard.valued_logicCompare⟩
  · exact ⟨by decide, Standard.valued_logicOperation⟩
  · exact ⟨by decide, fun _ => Standard.valued_logicNegate⟩
  · exact ⟨by decide, fun hs ht _ _ => Standard.valued_logicBoolean hs ht⟩
  · exact ⟨by decide, fun _ ht _ _ => Standard.valued_logicNull ht⟩
  · exact ⟨by decide, fun _ => Standard.valued_logicTernary⟩
  · exact ⟨by decide, fun hs ht _ _ => Standard.valued_mathNumber hs ht⟩
  · exact ⟨by decide, Standard.valued_mathArithmetic⟩
  · exact ⟨by decide, fun hs ht h hp _ _ => Standard.stated_mathChange hs ht h hp⟩
  · exact ⟨by decide, fun hs ht _ _ => Standard.valued_text hs ht⟩
  · exact ⟨by decide, Standard.valued_textJoin⟩
  · exact ⟨by decide, fun _ ht h hp _ _ => Standard.stated_textPrint ht h hp⟩
  · exact ⟨by decide, Standard.valued_variablesGet⟩
  · exact ⟨by decide, fun hs ht h hp _ _ => Standard.stated_variablesSet hs ht h hp⟩

/-- A stub is right for a type of blocks that are nothing. -/
theorem right_stub {type method : String} (sockets : List String) (hmethod : '\n' ∉ method.toList)
    (htype : type ∉ valueTypes) (hshape : ∀ mutation bodies, shape type mutation bodies = []) :
    (Automation.stub method sockets).Right known type := by
  refine ⟨htype, fun {_ t _ _} hs ht h hp _ _ => ?_⟩
  exact Automation.stated_stub hmethod sockets hs h hp (by rw [ht]; exact hshape _ _)

theorem right_automation : ∀ entry ∈ Automation.rules, entry.2.Right known entry.1 := by
  intro entry hentry
  simp only [Automation.rules, List.mem_cons, List.not_mem_nil, or_false] at hentry
  rcases hentry with rfl | rfl | rfl | rfl | rfl | rfl | rfl | rfl | rfl
  · exact right_stub _ (by decide) (by decide) fun _ _ => rfl
  · exact right_stub _ (by decide) (by decide) fun _ _ => rfl
  · exact right_stub _ (by decide) (by decide) fun _ _ => rfl
  · exact right_stub _ (by decide) (by decide) fun _ _ => rfl
  · exact ⟨by decide, fun hs ht h hp => Automation.valued_stub (by decide) _ hs h hp
      (by rw [ht]; decide)⟩
  · exact ⟨by decide, fun hs ht _ _ _ _ => Automation.stated_pressKey hs ht⟩
  · exact ⟨by decide, fun hs ht h hp _ => Automation.stated_inTable hs ht h hp⟩
  · exact right_stub _ (by decide) (by decide) fun _ _ => rfl
  · exact ⟨by decide, fun hs ht h hp => Automation.valued_stub (by decide) _ hs h hp
      (by rw [ht]; decide)⟩

theorem right_canvas : ∀ entry ∈ Canvas.rules, entry.2.Right known entry.1 := by
  intro entry hentry
  rw [List.mem_singleton.1 hentry]
  exact ⟨by decide, fun hs ht h hp _ _ => Standard.stated_circle hs ht h hp⟩

/-- **Every rule of every vocabulary is right.** -/
theorem rule_right (known : String → Bool) (v : Vocabulary) (registry : Registry) {type : String}
    {rule : Rule} (h : (v.generator registry).rules.get? type = some rule) : rule.Right known type := by
  rcases List.mem_append.1 (rule_mem v registry h) with hmem | hmem
  · exact right_standard _ hmem
  · rcases List.mem_append.1 hmem with hmem | hmem
    · exact right_automation _ hmem
    · exact right_canvas _ hmem

/-- A type that has a rule is spelt on one line. -/
theorem oneLine_of_rule (v : Vocabulary) (registry : Registry) {type : String} {rule : Rule}
    (h : (v.generator registry).rules.get? type = some rule) : '\n' ∉ type.toList := by
  have hall : ∀ name ∈ (Standard.rules ++ (Automation.rules ++ Canvas.rules)).map (·.1),
      '\n' ∉ name.toList := by decide
  exact hall type (List.mem_map.2 ⟨_, rule_mem v registry h, rfl⟩)

/-- Every vocabulary has the rules for the standard value blocks. -/
theorem valueTypes_known (v : Vocabulary) (registry : Registry) {type : String}
    (h : type ∈ valueTypes) : ((v.generator registry).rules.get? type).isSome = true := by
  have hsub : ∀ type ∈ valueTypes, type ∈ Standard.rules.map (·.1) := by decide
  have hstandard : (Standard.generator.rules.get? type).isSome = true :=
    Table.get?_foldl_set_isSome Standard.rules .empty (.inl (hsub type h))
  cases v with
  | standard => exact hstandard
  | automation => exact Table.get?_foldl_set_isSome Automation.rules _ (.inr hstandard)
  | canvas => exact Table.get?_foldl_set_isSome Canvas.rules _ (.inr hstandard)

/-- Every vocabulary has rules for values for the standard value blocks. -/
theorem rule_of_valueTypes (v : Vocabulary) (registry : Registry) {type : String}
    (h : type ∈ valueTypes) :
    ∃ emit, (v.generator registry).rules.get? type = some (.value emit) := by
  obtain ⟨rule, hrule⟩ := Option.isSome_iff_exists.1 (valueTypes_known v registry h)
  have hright := rule_right (fun _ => true) v registry hrule
  cases rule with
  | value emit => exact ⟨emit, hrule⟩
  | statement emit => exact absurd h hright.1

/-- A block that has a value is one statement in a chain. -/
theorem shape_of_value {type : String} (h : type ∈ valueTypes ++ stubTypes)
    (mutation : Table String) (bodies : List (String × List Outline)) :
    shape type mutation bodies = [.expr] := by
  have hall : ∀ type ∈ valueTypes ++ stubTypes, shape type mutation bodies = [.expr] := by
    intro type htype
    simp only [valueTypes, stubTypes, List.cons_append, List.nil_append, List.mem_cons,
      List.not_mem_nil, or_false] at htype
    rcases htype with rfl | rfl | rfl | rfl | rfl | rfl | rfl | rfl | rfl | rfl | rfl | rfl | rfl
    all_goals rfl
  exact hall type h

end Generation
end VisualBlocks
