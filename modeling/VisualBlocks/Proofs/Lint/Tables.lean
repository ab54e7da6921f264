import VisualBlocks.Lint
import VisualBlocks.Proofs.Workspace.Assembly
import VisualBlocks.Vocabulary

/-!
# Blocks outside a table

A block that is about a cell or a row needs a table around it.  The way up from a block goes through
slots: from a block to the one that it follows, or to the one whose input it stands in.  A block is
*enclosed* by a table if that way arrives at the table through an input of the table, and it
*trails* the table if the way arrives there through the chain, so that the block comes after the
table or is part of something that does.

The check of a workspace goes up from parent to parent and does not ask how it arrives.  **It
complains about a block that is neither enclosed by a table nor trails one**
(`reported_outside_table`), so it overlooks the blocks that come after a table
(`trailing_cell_overlooked`).
-/

set_option autoImplicit false

namespace VisualBlocks
namespace Workspace

variable {w : Workspace} {a id : String}

/-! ## The way up -/

/-- The way up from the block arrives at a table through an input of the table. -/
def Enclosed (w : Workspace) (id : String) : Prop :=
  ∃ table ∈ w.blocks, table.type = "sap_in_table" ∧
    ∃ name child, table.slot? (.input name) = some child ∧ w.Below child id

/-- The way up from the block arrives at a table through the chain of the table. -/
def Trailing (w : Workspace) (id : String) : Prop :=
  ∃ table ∈ w.blocks, table.type = "sap_in_table" ∧
    ∃ child, table.slot? .next = some child ∧ w.Below child id

/-- A way up arrives at a block from one that hangs on it. -/
theorem Above.exists_arrival {p : Parent} (h : w.Above a p.id) (hp : w.parentOf id = some p) :
    ∃ child link, w.parentOf child = some ⟨a, link⟩ ∧ w.Above child id := by
  generalize hq : p.id = q at h
  induction h generalizing id p with
  | refl => exact ⟨id, p.link, hq ▸ hp, .refl⟩
  | up hparent _ ih =>
    obtain ⟨child, link, hchild, habove⟩ := ih hparent rfl
    exact ⟨child, link, hchild, .up hp (hq ▸ habove)⟩

/-- What hangs on a block that is above has that block above it. -/
theorem Above.exists_parent {child : String} {link : Link} (h : w.Above child id)
    (hchild : w.parentOf child = some ⟨a, link⟩) :
    ∃ p, w.parentOf id = some p ∧ w.Above a p.id := by
  rcases h.eq_or_up with rfl | ⟨p, hp, habove⟩
  · exact ⟨_, hchild, .refl⟩
  · exact ⟨p, hp, .trans (.up hchild .refl) habove⟩

/-- **The way up from a block arrives at a table through an input or through the chain.** -/
theorem Linked.enclosed_or_trailing_iff (h : Linked w) (hfiled : Filed w) :
    w.Enclosed id ∨ w.Trailing id ↔ ∃ table ∈ w.blocks, table.type = "sap_in_table" ∧
      ∃ p, w.parentOf id = some p ∧ w.Above table.id p.id := by
  have hslot {table : Block} (htable : table ∈ w.blocks) (s : Slot) :
      w.slot? table.id s = table.slot? s := slot?_of_get? (get?_of_mem h.nodup htable) s
  have harrives {table : Block} (htable : table ∈ w.blocks) {s : Slot} {child : String}
      (hs : table.slot? s = some child) (hbelow : w.Below child id) :
      ∃ p, w.parentOf id = some p ∧ w.Above table.id p.id := by
    rw [← hslot htable] at hs
    exact ((h.below_iff_above hfiled).1 hbelow).exists_parent
      ((h.exists_slot_iff hfiled (p := ⟨table.id, s.link⟩)).2 ⟨s, rfl, hs⟩)
  constructor
  · rintro (⟨table, htable, htype, name, child, hs, hbelow⟩ |
      ⟨table, htable, htype, child, hs, hbelow⟩)
    · exact ⟨table, htable, htype, harrives htable hs hbelow⟩
    · exact ⟨table, htable, htype, harrives htable hs hbelow⟩
  · rintro ⟨table, htable, htype, p, hp, habove⟩
    obtain ⟨child, link, hchild, habove⟩ := habove.exists_arrival hp
    have hbelow := (h.below_iff_above hfiled).2 habove
    obtain ⟨s, -, hs⟩ := (h.exists_slot_iff hfiled).1 hchild
    rw [hslot htable] at hs
    cases s with
    | input name => exact .inl ⟨table, htable, htype, name, child, hs, hbelow⟩
    | next => exact .inr ⟨table, htable, htype, child, hs, hbelow⟩

end Workspace

open Workspace

/-! ## The check -/

namespace Lint

variable {w : Workspace} {r : Registry} {b : Block}

/-- The check looks for a table among the blocks above. -/
theorem isBelowTable_iff (h : Linked w) (hb : b ∈ w.blocks) : isBelowTable w b = true ↔
    ∃ table ∈ w.blocks, table.type = "sap_in_table" ∧
      ∃ p, w.parentOf b.id = some p ∧ w.Above table.id p.id := by
  rw [isBelowTable, parentOf_of_get? (get?_of_mem h.nodup hb)]
  cases hp : b.parent with
  | none => simp
  | some p =>
    simp only [List.any_eq_true, Option.any_eq_true, containerTypes, Option.some_inj,
      exists_eq_left']
    constructor
    · rintro ⟨id, hid, table, htable, htype⟩
      obtain rfl := get?_id htable
      exact ⟨table, List.mem_of_find?_eq_some htable, by simpa using htype, above_of_mem_climb hid⟩
    · rintro ⟨table, htable, htype, habove⟩
      have hget := get?_of_mem h.nodup htable
      exact ⟨table.id, h.mem_ascent habove (mem_ids_of_get? hget), table, hget, by simp [htype]⟩

/-- A warning about a block is one of the findings about it. -/
theorem warning_mem_findings (h : Linked w) (hb : b ∈ w.blocks) {checkTables : Bool} {f : Finding} :
    ⟨b.id, f⟩ ∈ findings w r checkTables ↔ f ∈ blockFindings w r checkTables b := by
  rw [findings, List.mem_flatMap]
  constructor
  · rintro ⟨c, hc, hmem⟩
    obtain ⟨g, hg, heq⟩ := List.mem_map.1 hmem
    obtain ⟨hid, rfl⟩ := Warning.mk.inj heq
    have hsame := get?_of_mem h.nodup hc
    rw [hid, get?_of_mem h.nodup hb] at hsame
    obtain rfl := Option.some.inj hsame
    exact hg
  · exact fun hf => ⟨b, hb, List.mem_map.2 ⟨f, hf, rfl⟩⟩

/-- Only the check for tables finds a block outside a table. -/
theorem outsideTable_mem_blockFindings (hknown : (r.get? b.type).isSome) {type : String} :
    .outsideTable type ∈ blockFindings w r true b ↔
      type = b.type ∧ b.type ∈ tableTypes ∧ isBelowTable w b = false := by
  obtain ⟨t, ht⟩ := Option.isSome_iff_exists.1 hknown
  have hfields : .outsideTable type ∉ b.fields.names.flatMap (fieldFindings t) := by
    rw [List.mem_flatMap]
    rintro ⟨name, -, hmem⟩
    rw [fieldFindings] at hmem
    split at hmem
    · cases hmem
    · cases List.mem_singleton.1 hmem
  have hinputs :
      .outsideTable type ∉ b.inputs.entries.flatMap fun e => inputFindings w r t b e.1 e.2 := by
    rw [List.mem_flatMap]
    rintro ⟨e, -, hmem⟩
    rw [inputFindings] at hmem
    split at hmem
    · split at hmem
      · cases List.mem_singleton.1 hmem
      · cases hmem
    · split at hmem
      · cases hmem
      · split at hmem
        · cases hmem
        · cases List.mem_singleton.1 hmem
  rw [blockFindings, ht, List.mem_append, List.mem_append,
    or_iff_right (not_or.2 ⟨hfields, hinputs⟩)]
  split
  · next hcheck =>
    simp only [Bool.true_and, Bool.and_eq_true, List.contains_iff_mem, Bool.not_eq_true'] at hcheck
    simp [hcheck.1, hcheck.2]
  · next hcheck =>
    simp only [Bool.true_and, Bool.and_eq_true, List.contains_iff_mem, Bool.not_eq_true'] at hcheck
    simp [hcheck]

/-- Is there a warning that the block is outside a table? -/
def Reported (w : Workspace) (r : Registry) (id : String) : Prop :=
  ∃ type, ⟨id, .outsideTable type⟩ ∈ findings w r true

/-- **The check complains about the blocks that no table is above.** -/
theorem reported_iff (h : Linked w) (hb : b ∈ w.blocks) (hknown : (r.get? b.type).isSome)
    (htype : b.type ∈ tableTypes) : Reported w r b.id ↔ isBelowTable w b = false := by
  simp only [Reported, warning_mem_findings h hb, outsideTable_mem_blockFindings hknown]
  exact ⟨fun ⟨_, _, _, hbelow⟩ => hbelow, fun hbelow => ⟨_, rfl, htype, hbelow⟩⟩

end Lint

open Lint

/-- **A block is reported if it is neither enclosed by a table nor trails one**, in every workspace
that can be reached and with the types of the automation blocks.  So the report about a block is right
exactly if the block, where it trails a table, is enclosed by one too. -/
theorem reported_outside_table {w : Workspace} (h : w.Reachable) {b : Block} (hb : b ∈ w.blocks)
    (htype : b.type = "sap_table_set_cell" ∨ b.type = "sap_table_row_count") :
    (Reported w Vocabulary.automation.preset.registry b.id ↔
        ¬ w.Enclosed b.id ∧ ¬ w.Trailing b.id) ∧
      ((Reported w Vocabulary.automation.preset.registry b.id ↔ ¬ w.Enclosed b.id) ↔
        (w.Trailing b.id → w.Enclosed b.id)) := by
  have hknown : (Vocabulary.automation.preset.registry.get? b.type).isSome = true := by
    rcases htype with htype | htype
    · rw [htype]; rfl
    · rw [htype]; rfl
  have htable : b.type ∈ tableTypes := by
    rw [tableTypes, List.mem_pair]
    exact htype
  have hreported : Reported w Vocabulary.automation.preset.registry b.id ↔
      ¬ w.Enclosed b.id ∧ ¬ w.Trailing b.id := by
    rw [reported_iff h.linked hb hknown htable, ← not_or,
      h.linked.enclosed_or_trailing_iff h.filed, ← isBelowTable_iff h.linked hb,
      Bool.not_eq_true]
  refine ⟨hreported, ?_⟩
  rw [hreported]
  tauto

/-- A table with a chain in it, at whose end a cell is set to the number of rows, and the number of
rows once more, outside. -/
def filledTable : Workspace :=
  ⟨[{ Block.fresh "table" "sap_in_table" with inputs := ⟨[("DO", "key")]⟩ },
    { Block.fresh "key" "sap_press_key" with
      next := some "cell"
      parent := some ⟨"table", .input⟩ },
    { Block.fresh "cell" "sap_table_set_cell" with
      inputs := ⟨[("VALUE", "rows")]⟩
      parent := some ⟨"key", .next⟩ },
    { Block.fresh "rows" "sap_table_row_count" with parent := some ⟨"cell", .input⟩ },
    Block.fresh "stray" "sap_table_row_count"]⟩

theorem filledTable_reachable : filledTable.Reachable :=
  (((((((Workspace.Reachable.empty.step (.add "table" "sap_in_table" rfl)).step
    (.add "key" "sap_press_key" rfl)).step (.add "cell" "sap_table_set_cell" rfl)).step
    (.add "rows" "sap_table_row_count" rfl)).step (.add "stray" "sap_table_row_count" rfl)).step
    (.connectInput "table" "DO" "key" rfl)).step (.connectNext "key" "cell" rfl)).step
    (.connectInput "cell" "VALUE" "rows" rfl)

theorem filledTable_reported :
    (filledTable.Enclosed "rows" ∧
      ¬ Reported filledTable Vocabulary.automation.preset.registry "rows") ∧
    (¬ filledTable.Enclosed "stray" ∧ ¬ filledTable.Trailing "stray" ∧
      Reported filledTable Vocabulary.automation.preset.registry "stray") := by
  have hnext : filledTable.slot? "key" .next = some "cell" := rfl
  have hinput : filledTable.slot? "cell" (.input "VALUE") = some "rows" := rfl
  have henclosed : filledTable.Enclosed "rows" :=
    ⟨_, List.mem_cons_self, rfl, "DO", "key", rfl, .slot hinput (.slot hnext .refl)⟩
  have hfree : ¬ (filledTable.Enclosed "stray" ∨ filledTable.Trailing "stray") := by
    rw [filledTable_reachable.linked.enclosed_or_trailing_iff filledTable_reachable.filed]
    rintro ⟨_, _, _, p, hp, _⟩
    cases hp
  have hrows : (⟨.bare "sap_table_row_count", "rows", 0, 0, false, some ⟨"cell", .input⟩⟩ : Block) ∈
      filledTable.blocks := by decide
  have hstray : Block.fresh "stray" "sap_table_row_count" ∈ filledTable.blocks := by decide
  refine ⟨⟨henclosed, fun hreported => ?_⟩, fun h => hfree (.inl h), fun h => hfree (.inr h), ?_⟩
  · have hiff := (reported_outside_table filledTable_reachable hrows (.inr rfl)).1
    exact (hiff.1 hreported).1 henclosed
  · exact (reported_outside_table filledTable_reachable hstray (.inr rfl)).1.2 (not_or.1 hfree)

/-- A table, and a cell that is set after it. -/
def trailingCell : Workspace :=
  ⟨[{ Block.fresh "table" "sap_in_table" with next := some "cell" },
    { Block.fresh "cell" "sap_table_set_cell" with parent := some ⟨"table", .next⟩ }]⟩

theorem trailingCell_built : trailingCell.Built :=
  ((Workspace.Built.empty.step (.add "table" "sap_in_table" rfl)).step
    (.add "cell" "sap_table_set_cell" rfl)).step (.connectNext "table" "cell" rfl)

/-- **A cell that is set after a table is overlooked**: no table encloses it, and yet the check has
nothing to say. -/
theorem trailing_cell_overlooked :
    trailingCell.Built ∧ ¬ trailingCell.Enclosed "cell" ∧
      findings trailingCell Vocabulary.automation.preset.registry true = [] := by
  refine ⟨trailingCell_built, ?_, by decide +kernel⟩
  rintro ⟨table, htable, htype, name, child, hs, -⟩
  have hempty : ∀ b ∈ trailingCell.blocks, b.inputs = .empty := by decide
  rw [Block.slot?, hempty table htable] at hs
  cases hs

end VisualBlocks
