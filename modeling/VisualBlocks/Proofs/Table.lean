import Mathlib.Data.List.Nodup
import Mathlib.Data.String.Basic
import Mathlib.Tactic.SplitIfs
import VisualBlocks.Table

/-!
# The entries of a table

`Table.Ordered` says that a table has its names in ascending order, each of them once.  The
operations on tables keep it, it makes a look-up see every entry, and **an ordered table is the table
of its entries** (`Ordered.ofList_entries`).  The table of a list has the entries of the list, if no
name stands twice in it (`entries_ofList_perm`).
-/

set_option autoImplicit false

namespace VisualBlocks
namespace Table

variable {α : Type}

/-! ## What is in the table of a list -/

theorem get?_foldl_set_eq_some (entries : List (String × α)) (t : Table α) {name : String}
    {value : α} (h : (entries.foldl (fun t e => t.set e.1 e.2) t).get? name = some value) :
    (name, value) ∈ entries ∨ t.get? name = some value := by
  induction entries generalizing t with
  | nil => exact .inr h
  | cons e es ih =>
    rcases ih (t.set e.1 e.2) h with hmem | hset
    · exact .inl (List.mem_cons_of_mem _ hmem)
    · rw [get?_set] at hset
      by_cases hname : name = e.1
      · rw [if_pos hname] at hset
        obtain rfl := Option.some.inj hset
        rw [hname]
        exact .inl List.mem_cons_self
      · rw [if_neg hname] at hset
        exact .inr hset

/-- What has been set can be looked up. -/
theorem get?_foldl_set_isSome (entries : List (String × α)) (t : Table α) {name : String}
    (h : name ∈ entries.map (·.1) ∨ (t.get? name).isSome = true) :
    ((entries.foldl (fun t e => t.set e.1 e.2) t).get? name).isSome = true := by
  induction entries generalizing t with
  | nil => exact h.resolve_left nofun
  | cons e es ih =>
    refine ih (t.set e.1 e.2) ?_
    rw [get?_set]
    by_cases hname : name = e.1
    · rw [if_pos hname]
      exact .inr rfl
    · rw [if_neg hname]
      refine h.imp_left fun hmem => ?_
      exact (List.mem_cons.1 hmem).resolve_left hname

/-- What is listed can be looked up. -/
theorem contains_ofList {entries : List (String × α)} {name : String}
    (h : name ∈ entries.map (·.1)) : (ofList entries).contains name = true :=
  get?_foldl_set_isSome entries .empty (.inl h)

/-! ## Placed entries -/

theorem place_perm {name : String} (value : α) {es : List (String × α)}
    (h : es.lookup name = none) : (place name value es).Perm ((name, value) :: es) := by
  induction es with
  | nil => exact .refl _
  | cons e es ih =>
    obtain ⟨n, v⟩ := e
    rw [List.lookup_cons] at h
    have hne : ¬ name = n := by
      rintro rfl
      rw [beq_self_eq_true] at h
      cases h
    rw [beq_false_of_ne hne] at h
    rw [place, if_neg hne]
    split
    · exact .refl _
    · exact ((ih h).cons _).trans (.swap _ _ _)

/-- The values of a table with a new entry. -/
theorem values_set_perm (t : Table α) {name : String} (value : α)
    (h : t.get? name = none) : (t.set name value).values.Perm (value :: t.values) :=
  (place_perm value h).map Prod.snd

/-! ## Ordered tables -/

/-- The names stand in ascending order, so no name stands twice. -/
def Ordered (t : Table α) : Prop := t.entries.Pairwise fun e e' => e.1 < e'.1

theorem ordered_empty : (empty : Table α).Ordered := .nil

theorem mem_place {name : String} {value : α} {e : String × α} {es : List (String × α)}
    (h : e ∈ place name value es) : e = (name, value) ∨ e ∈ es := by
  induction es with
  | nil => simpa [place] using h
  | cons e' es ih =>
    obtain ⟨n, v⟩ := e'
    rw [place] at h
    split_ifs at h <;> grind

theorem Ordered.set {t : Table α} (h : t.Ordered) (name : String) (value : α) :
    (t.set name value).Ordered := by
  obtain ⟨es⟩ := t
  rw [Ordered] at h
  rw [Table.set, Ordered]
  dsimp only at h ⊢
  induction es with
  | nil => exact List.pairwise_singleton _ _
  | cons e es ih =>
    obtain ⟨n, v⟩ := e
    obtain ⟨hlower, hrest⟩ := List.pairwise_cons.1 h
    rw [place]
    split_ifs with heq hlt
    · subst heq
      exact List.pairwise_cons.2 ⟨hlower, hrest⟩
    · refine List.pairwise_cons.2 ⟨fun e he => ?_, h⟩
      rcases List.mem_cons.1 he with rfl | he
      · exact hlt
      · exact lt_trans hlt (hlower e he)
    · refine List.pairwise_cons.2 ⟨fun e he => ?_, ih hrest⟩
      rcases mem_place he with rfl | he
      · exact lt_of_le_of_ne (not_lt.1 hlt) (Ne.symm heq)
      · exact hlower e he

theorem Ordered.filterValues {t : Table α} (h : t.Ordered) (p : α → Bool) :
    (t.filterValues p).Ordered := h.filter _

/-- **In an ordered table a look-up sees every entry.** -/
theorem Ordered.get?_eq_some_iff {t : Table α} (h : t.Ordered) {name : String} {value : α} :
    t.get? name = some value ↔ (name, value) ∈ t.entries := by
  obtain ⟨es⟩ := t
  rw [Ordered] at h
  rw [get?]
  dsimp only at h ⊢
  induction es with
  | nil => simp
  | cons e es ih =>
    obtain ⟨n, v⟩ := e
    obtain ⟨hlower, hrest⟩ := List.pairwise_cons.1 h
    rw [List.lookup_cons]
    by_cases heq : name = n
    · subst heq
      have hfresh : (name, value) ∉ es := fun hmem => lt_irrefl name (hlower _ hmem)
      simp [hfresh, eq_comm]
    · simpa [heq, beq_false_of_ne heq] using ih hrest

theorem Ordered.mem_values_iff {t : Table α} (h : t.Ordered) {value : α} :
    value ∈ t.values ↔ ∃ name, t.get? name = some value := by
  simp [values, h.get?_eq_some_iff]

/-- If no value stands twice, then each value has one name. -/
theorem Ordered.name_unique {t : Table α} (h : t.Ordered) (hdistinct : t.values.Nodup)
    {name other : String} {value : α} (hname : t.get? name = some value)
    (hother : t.get? other = some value) : name = other := by
  rw [h.get?_eq_some_iff] at hname hother
  exact congrArg Prod.fst (List.inj_on_of_nodup_map hdistinct hname hother rfl)

theorem place_last {name : String} {value : α} {es : List (String × α)}
    (h : ∀ e ∈ es, e.1 < name) : place name value es = es ++ [(name, value)] := by
  induction es with
  | nil => rfl
  | cons e es ih =>
    rw [List.forall_mem_cons] at h
    obtain ⟨n, v⟩ := e
    rw [place, if_neg h.1.ne', if_neg h.1.le.not_gt, ih h.2, List.cons_append]

/-- An ordered table is the table of its entries. -/
theorem Ordered.ofList_entries {t : Table α} (h : t.Ordered) : ofList t.entries = t := by
  have hfold (es fs : List (String × α)) (h : (fs ++ es).Pairwise fun e e' => e.1 < e'.1) :
      es.foldl (fun t e => t.set e.1 e.2) ⟨fs⟩ = (⟨fs ++ es⟩ : Table α) := by
    induction es generalizing fs with
    | nil => rw [List.append_nil]; rfl
    | cons e es ih =>
      have hlower : ∀ e' ∈ fs, e'.1 < e.1 := fun e' he' =>
        (List.pairwise_append.1 h).2.2 e' he' e List.mem_cons_self
      rw [List.append_cons] at h ⊢
      rw [List.foldl_cons, Table.set, place_last hlower]
      exact ih _ h
  exact hfold t.entries [] h

theorem mem_ofList {es : List (String × α)} {e : String × α} (h : e ∈ (ofList es).entries) :
    e ∈ es := by
  have hfold (es : List (String × α)) (t : Table α)
      (h : e ∈ (es.foldl (fun t e => t.set e.1 e.2) t).entries) : e ∈ es ∨ e ∈ t.entries := by
    induction es generalizing t with
    | nil => exact .inr h
    | cons e' es ih =>
      rcases ih _ h with hmem | hset
      · exact .inl (List.mem_cons_of_mem _ hmem)
      · rcases mem_place hset with rfl | hold
        · exact .inl List.mem_cons_self
        · exact .inr hold
  exact (hfold es empty h).resolve_right List.not_mem_nil

theorem ordered_ofList (es : List (String × α)) : (ofList es).Ordered := by
  have hfold (t : Table α) (h : t.Ordered) :
      (es.foldl (fun t e => t.set e.1 e.2) t).Ordered := by
    induction es generalizing t with
    | nil => exact h
    | cons e es ih => exact ih _ (h.set e.1 e.2)
  exact hfold empty ordered_empty

/-- Ordered tables in which every look-up finds the same are equal. -/
theorem Ordered.ext {t t' : Table α} (h : t.Ordered) (h' : t'.Ordered)
    (heq : ∀ name, t.get? name = t'.get? name) : t = t' := by
  have hnodup {t : Table α} (h : t.Ordered) : t.entries.Nodup :=
    .of_map Prod.fst (List.pairwise_map.2 (h.imp fun hlt => hlt.ne))
  have hperm : t.entries.Perm t'.entries := by
    rw [List.perm_ext_iff_of_nodup (hnodup h) (hnodup h')]
    rintro ⟨name, value⟩
    rw [← h.get?_eq_some_iff, ← h'.get?_eq_some_iff, heq]
  obtain ⟨es⟩ := t
  obtain ⟨es'⟩ := t'
  exact congrArg Table.mk (hperm.eq_of_pairwise (fun e e' _ _ hlt hgt => absurd hlt hgt.not_gt) h h')

/-! ## Dropped entries -/

/-- The table without a name. -/
def without (t : Table α) (name : String) : Table α :=
  ⟨t.entries.filter fun e => e.1 != name⟩

theorem get?_without (t : Table α) (name other : String) :
    (t.without name).get? other = if other = name then none else t.get? other := by
  obtain ⟨es⟩ := t
  rw [without, get?, get?]
  dsimp only
  induction es with
  | nil => exact (ite_self none).symm
  | cons e es ih =>
    by_cases he : e.1 = name
    · rw [List.filter_cons_of_neg (by simp [he]), ih, List.lookup_cons]
      by_cases ho : other = name
      · rw [if_pos ho, if_pos ho]
      · rw [if_neg ho, if_neg ho, beq_false_of_ne (he ▸ ho)]
    · rw [List.filter_cons_of_pos (by simp [he]), List.lookup_cons, List.lookup_cons, ih]
      by_cases ho : other = e.1
      · rw [ho, beq_self_eq_true, if_neg he, if_neg he]
      · rw [beq_false_of_ne ho]

/-- To drop a value is to drop its name, if no value stands twice. -/
theorem Ordered.filterValues_eq_without {t : Table String} (h : t.Ordered)
    (hdistinct : t.values.Nodup) {name value : String} (hget : t.get? name = some value) :
    t.filterValues (· != value) = t.without name := by
  refine congrArg Table.mk (List.filter_congr fun e he => ?_)
  have hentry := h.get?_eq_some_iff.1 hget
  have hiff : e.2 = value ↔ e.1 = name := by
    constructor
    · rintro rfl
      exact congrArg Prod.fst (List.inj_on_of_nodup_map hdistinct he hentry rfl)
    · rintro rfl
      exact Option.some.inj ((h.get?_eq_some_iff.2 he).symm.trans hget)
  exact congrArg not (beq_eq_beq.2 hiff)

theorem Ordered.without {t : Table α} (h : t.Ordered) (name : String) :
    (t.without name).Ordered := h.filter _

/-- An entry that has been set in a free place can be dropped by its value. -/
theorem Ordered.filterValues_set {t : Table String} (h : t.Ordered) (hdistinct : t.values.Nodup)
    {name value : String} (hname : t.get? name = none) (hvalue : value ∉ t.values) :
    (t.set name value).filterValues (· != value) = t := by
  have hset : (t.set name value).get? name = some value := by rw [get?_set, if_pos rfl]
  have hnodup : (t.set name value).values.Nodup :=
    (values_set_perm t value hname).nodup_iff.2 (List.nodup_cons.2 ⟨hvalue, hdistinct⟩)
  rw [(h.set name value).filterValues_eq_without hnodup hset]
  refine ((h.set name value).without name).ext h fun other => ?_
  rw [get?_without, get?_set]
  split
  · next heq => rw [heq, hname]
  · rfl

/-- An entry that has been dropped by its value can be set again. -/
theorem Ordered.set_filterValues {t : Table String} (h : t.Ordered)
    (hdistinct : t.values.Nodup) {name value : String} (hget : t.get? name = some value) :
    (t.filterValues (· != value)).get? name = none ∧
      (t.filterValues (· != value)).set name value = t := by
  rw [h.filterValues_eq_without hdistinct hget]
  constructor
  · rw [get?_without, if_pos rfl]
  · refine ((h.without name).set name value).ext h fun other => ?_
    rw [get?_set, get?_without]
    split
    · next heq => rw [heq, hget]
    · rfl

/-! ## Other values -/

/-- The table with other values. -/
def mapValues {β : Type} (f : α → β) (t : Table α) : Table β :=
  ⟨t.entries.map fun e => (e.1, f e.2)⟩

theorem get?_mapValues {β : Type} (f : α → β) (t : Table α) (name : String) :
    (t.mapValues f).get? name = (t.get? name).map f := by
  obtain ⟨es⟩ := t
  rw [mapValues, get?, get?]
  dsimp only
  induction es with
  | nil => rfl
  | cons e es ih =>
    rw [List.map_cons, List.lookup_cons, List.lookup_cons]
    cases name == e.1
    · exact ih
    · rfl

theorem values_mapValues {β : Type} (f : α → β) (t : Table α) :
    (t.mapValues f).values = t.values.map f := by
  rw [values, values, mapValues, List.map_map, List.map_map]
  rfl

theorem Ordered.mapValues {β : Type} {t : Table α} (h : t.Ordered) (f : α → β) :
    (t.mapValues f).Ordered := List.pairwise_map.2 h

/-! ## Lists in another order -/

/-- If no name stands twice, the order does not matter to a look-up. -/
theorem lookup_perm {es es' : List (String × α)} (h : es.Perm es') (hnodup : (es.map (·.1)).Nodup)
    (name : String) : es.lookup name = es'.lookup name := by
  induction h with
  | nil => rfl
  | cons e _ ih =>
    rw [List.map_cons, List.nodup_cons] at hnodup
    rw [List.lookup_cons, List.lookup_cons, ih hnodup.2]
  | swap e e' es =>
    rw [List.map_cons, List.map_cons, List.nodup_cons, List.mem_cons, not_or] at hnodup
    rw [List.lookup_cons, List.lookup_cons, List.lookup_cons, List.lookup_cons]
    by_cases he : name = e.1
    · have hother : (name == e'.1) = false :=
        beq_false_of_ne fun he' => hnodup.1.1 (he'.symm.trans he)
      rw [hother]
    · rw [beq_false_of_ne he]
  | trans h _ ih ih' => exact (ih hnodup).trans (ih' ((h.map _).nodup_iff.1 hnodup))

/-- **The entries of a table are those of the list that it is made of**, in another order. -/
theorem entries_ofList_perm {es : List (String × α)} (h : (es.map (·.1)).Nodup) :
    (ofList es).entries.Perm es := by
  have hfold (es : List (String × α)) (t : Table α) (hes : (es.map (·.1)).Nodup)
      (hnew : ∀ name ∈ es.map (·.1), t.get? name = none) :
      (es.foldl (fun t e => t.set e.1 e.2) t).entries.Perm (t.entries ++ es) := by
    induction es generalizing t with
    | nil =>
      rw [List.append_nil]
      exact .refl _
    | cons e es ih =>
      rw [List.map_cons, List.nodup_cons] at hes
      rw [List.map_cons, List.forall_mem_cons] at hnew
      have hother : ∀ name ∈ es.map (·.1), (t.set e.1 e.2).get? name = none := by
        intro name hname
        have hne : name ≠ e.1 := fun heq => hes.1 (heq ▸ hname)
        rw [get?_set, if_neg hne, hnew.2 name hname]
      refine (ih (t.set e.1 e.2) hes.2 hother).trans (((place_perm e.2 hnew.1).append_right es).trans ?_)
      exact List.perm_middle.symm
  exact hfold es empty h fun _ _ => rfl

theorem nodup_names_ofList (es : List (String × α)) :
    ((ofList es).entries.map (·.1)).Nodup :=
  List.pairwise_map.2 ((ordered_ofList es).imp fun hlt => hlt.ne)

/-- The table of a list is the table of its own entries. -/
theorem ofList_entries_ofList (es : List (String × α)) : ofList (ofList es).entries = ofList es :=
  (ordered_ofList es).ofList_entries

/-- The values can be changed before the list becomes a table, or after it. -/
theorem map_entries_ofList {β : Type} (f : α → β) (es : List (String × α)) :
    (ofList es).entries.map (Prod.map id f) = (ofList (es.map (Prod.map id f))).entries := by
  have hplace (name : String) (value : α) (es : List (String × α)) :
      (place name value es).map (Prod.map id f) =
        place name (f value) (es.map (Prod.map id f)) := by
    induction es with
    | nil => rfl
    | cons e es ih =>
      rw [place, List.map_cons, place, Prod.map_fst, id_eq]
      split
      · rfl
      · split
        · rfl
        · rw [List.map_cons, ih]
          rfl
  have hfold (es : List (String × α)) (t : Table α) (t' : Table β)
      (ht : t.entries.map (Prod.map id f) = t'.entries) :
      (es.foldl (fun t e => t.set e.1 e.2) t).entries.map (Prod.map id f) =
        ((es.map (Prod.map id f)).foldl (fun t e => t.set e.1 e.2) t').entries := by
    induction es generalizing t t' with
    | nil => exact ht
    | cons e es ih =>
      have hset : (t.set e.1 e.2).entries.map (Prod.map id f) =
          (t'.set e.1 (f e.2)).entries := (hplace e.1 e.2 t.entries).trans (ht ▸ rfl)
      exact ih _ _ hset
  exact hfold es empty empty rfl

end Table
end VisualBlocks
