/-!
# Tables

A finite map from names to values, kept as its entries in ascending order of the names, one entry
a name.  Whatever walks a table meets the names in that order, whichever way it was filled.

* `Table.get?` looks a name up.
* `Table.set` is the only way to add an entry; the entry it replaces is gone.
* `Table.filterValues` drops entries by their value.
-/

set_option autoImplicit false

namespace VisualBlocks

/-- Entries in ascending order of their names. -/
structure Table (α : Type) where
  entries : List (String × α)
deriving Repr, DecidableEq, Inhabited

namespace Table

variable {α : Type}

/-- The table without entries. -/
def empty : Table α := ⟨[]⟩

/-- The value under a name. -/
def get? (t : Table α) (name : String) : Option α := t.entries.lookup name

/-- Is there an entry under the name? -/
def contains (t : Table α) (name : String) : Bool := (t.get? name).isSome

/-- Places an entry before the first larger name, over an entry of the same name. -/
def place (name : String) (value : α) : List (String × α) → List (String × α)
  | [] => [(name, value)]
  | (n, v) :: rest =>
    if name = n then (name, value) :: rest
    else if name < n then (name, value) :: (n, v) :: rest
    else (n, v) :: place name value rest

/-- The table with `value` under `name`. -/
def set (t : Table α) (name : String) (value : α) : Table α := ⟨place name value t.entries⟩

/-- The table of the given entries; of two entries with one name the later one counts. -/
def ofList (entries : List (String × α)) : Table α :=
  entries.foldl (fun t e => t.set e.1 e.2) empty

/-- The entries whose value passes the test. -/
def filterValues (t : Table α) (p : α → Bool) : Table α := ⟨t.entries.filter fun e => p e.2⟩

/-- The names, in ascending order. -/
def names (t : Table α) : List String := t.entries.map (·.1)

/-- The values, in the order of their names. -/
def values (t : Table α) : List α := t.entries.map (·.2)

/-- Does the table have no entry? -/
def isEmpty (t : Table α) : Bool := t.entries.isEmpty

/-- A placed entry is the only one that a look-up sees differently. -/
theorem lookup_place (name other : String) (value : α) (es : List (String × α)) :
    (place name value es).lookup other = if other = name then some value else es.lookup other := by
  by_cases ho : other = name
  · subst ho
    induction es with
    | nil => simp [place]
    | cons e es ih =>
      obtain ⟨n, v⟩ := e
      unfold place
      split
      · simp
      · next h =>
        have hn : (other == n) = false := by simpa using h
        split
        · simp
        · simpa [List.lookup_cons, hn] using ih
  · have hb : (other == name) = false := by simpa using ho
    induction es with
    | nil => simp [place, List.lookup_cons, hb, ho]
    | cons e es ih =>
      obtain ⟨n, v⟩ := e
      unfold place
      split
      · next h => subst h; simp [List.lookup_cons, hb]
      · split
        · simp [List.lookup_cons, hb]
        · simp only [List.lookup_cons, ih, ho, if_false]

/-- What a look-up finds stands in the list. -/
theorem mem_of_lookup {es : List (String × α)} {name : String} {value : α}
    (h : es.lookup name = some value) : (name, value) ∈ es := by
  obtain ⟨before, after, rfl, -⟩ := List.lookup_eq_some_iff.1 h
  exact List.mem_append_right _ List.mem_cons_self

/-- A look-up sees the last value set under the name. -/
@[simp] theorem get?_set (t : Table α) (name other : String) (value : α) :
    (t.set name value).get? other = if other = name then some value else t.get? other :=
  lookup_place name other value t.entries

@[simp] theorem get?_empty (name : String) : (empty : Table α).get? name = none := rfl

theorem get?_foldl_set (entries : List (String × α)) (t : Table α) {name : String}
    (h : name ∉ entries.map (·.1)) :
    (entries.foldl (fun t e => t.set e.1 e.2) t).get? name = t.get? name := by
  induction entries generalizing t with
  | nil => rfl
  | cons e es ih =>
    rw [List.map_cons, List.mem_cons, not_or] at h
    rw [List.foldl_cons, ih _ h.2, get?_set, if_neg h.1]

/-- Of entries with different names each one counts. -/
theorem get?_ofList {entries : List (String × α)} (hnodup : (entries.map (·.1)).Nodup)
    {name : String} {value : α} (h : (name, value) ∈ entries) :
    (ofList entries).get? name = some value := by
  rw [ofList]
  generalize (empty : Table α) = t
  induction entries generalizing t with
  | nil => cases h
  | cons e es ih =>
    rw [List.map_cons, List.nodup_cons] at hnodup
    rw [List.foldl_cons]
    rcases List.mem_cons.1 h with rfl | h
    · rw [get?_foldl_set es _ hnodup.1, get?_set, if_pos rfl]
    · exact ih hnodup.2 h _

end Table
end VisualBlocks
