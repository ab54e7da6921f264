import VisualBlocks.Json.Reader
import VisualBlocks.Proofs.Table

/-!
# The members of objects

The members of an object have different names, in whatever depth it stands (`Json.Proper`).  What the
reader reads is so: of several members with one name it keeps the last (`proper_of_parse`).
-/

set_option autoImplicit false

namespace VisualBlocks
namespace Json

/-- In every object there is one member a name. -/
inductive Proper : Json → Prop
  | null : Proper .null
  | bool (b : Bool) : Proper (.bool b)
  | integer (n : Int) : Proper (.integer n)
  | float (x : Float) : Proper (.float x)
  | string (s : String) : Proper (.string s)
  | array {items : List Json} (hitems : ∀ j ∈ items, Proper j) : Proper (.array items)
  | object {members : List (String × Json)} (hnames : (members.map (·.1)).Nodup)
      (hmembers : ∀ m ∈ members, Proper m.2) : Proper (.object members)

@[simp]
theorem proper_string (s : String) : (Json.string s).Proper := .string s

@[simp]
theorem proper_array_iff {items : List Json} :
    (Json.array items).Proper ↔ ∀ j ∈ items, j.Proper :=
  ⟨fun h => by cases h; assumption, .array⟩

@[simp]
theorem proper_object_iff {members : List (String × Json)} :
    (Json.object members).Proper ↔ (members.map (·.1)).Nodup ∧ ∀ m ∈ members, m.2.Proper :=
  ⟨fun h => by cases h; constructor <;> assumption, fun h => .object h.1 h.2⟩

theorem Proper.of_object? {j : Json} {members : List (String × Json)} (h : j.Proper)
    (hm : j.object? = some members) :
    (members.map (·.1)).Nodup ∧ ∀ m ∈ members, m.2.Proper := by
  cases j <;> cases hm
  exact proper_object_iff.1 h

theorem Proper.of_get? {j k : Json} {name : String} (h : j.Proper) (hk : j.get? name = some k) :
    k.Proper := by
  cases j with
  | object members => exact (proper_object_iff.1 h).2 (name, k) (Table.mem_of_lookup hk)
  | _ => cases hk

theorem proper_of_ofParts {negative : Bool} {whole : List Char} {places : Option (List Char)}
    {exponent : Option Int} {j : Json} (h : ofParts negative whole places exponent = some j) :
    j.Proper := by
  rw [ofParts] at h
  split at h
  · cases h
    exact .integer _
  · obtain ⟨x, -, rfl⟩ := Option.map_eq_some_iff.1 h
    exact .float _

theorem proper_of_readNumber {negative : Bool} {cs rest : List Char} {j : Json}
    (h : readNumber negative cs = some (j, rest)) : j.Proper := by
  have hend {places : Option (List Char)} {exponent : Option Int} {cs' : List Char}
      (h : (ofParts negative (cs.takeWhile Char.isDigit) places exponent).bind
        (fun j => some (j, cs')) = some (j, rest)) : j.Proper := by
    obtain ⟨_, hparts, heq⟩ := Option.bind_eq_some_iff.1 h
    cases heq
    exact proper_of_ofParts hparts
  have hexponent {places : Option (List Char)} {read : Option (Option Int × List Char)}
      (h : read.bind (fun r => (ofParts negative (cs.takeWhile Char.isDigit) places r.1).bind
        fun j => some (j, r.2)) = some (j, rest)) : j.Proper := by
    obtain ⟨_, -, h⟩ := Option.bind_eq_some_iff.1 h
    exact hend h
  rw [readNumber] at h
  obtain ⟨_, -, h⟩ := Option.bind_eq_some_iff.1 h
  split at h
  · dsimp only at h
    split at h
    · cases h
    · obtain ⟨_, -, h⟩ := Option.bind_eq_some_iff.1 h
      split at h
      · split at h <;> exact hexponent h
      · exact hexponent h
  · obtain ⟨_, -, h⟩ := Option.bind_eq_some_iff.1 h
    dsimp only at h
    split at h
    · split at h <;> exact hexponent h
    · exact hexponent h

/-- What is read with some fuel is proper: values, items and members. -/
theorem proper_of_read (fuel : Nat) :
    (∀ depth cs j rest, readValue fuel depth cs = some (j, rest) → j.Proper) ∧
    (∀ depth cs items rest, readItems fuel depth cs = some (items, rest) → ∀ j ∈ items, j.Proper) ∧
    ∀ depth cs members rest, readMembers fuel depth cs = some (members, rest) →
      ∀ m ∈ members, m.2.Proper := by
  induction fuel with
  | zero =>
    refine ⟨fun _ _ _ _ h => ?_, fun _ _ _ _ h => ?_, fun _ _ _ _ h => ?_⟩
    · rw [readValue] at h; cases h
    · rw [readItems] at h; cases h
    · rw [readMembers] at h; cases h
  | succ fuel ih =>
    obtain ⟨hvalue, hitems, hmembers⟩ := ih
    refine ⟨fun depth cs j rest h => ?_, fun depth cs items rest h => ?_,
      fun depth cs members rest h => ?_⟩
    · rw [readValue.eq_def] at h
      dsimp only at h
      split at h
      · obtain ⟨r, -, hr⟩ := Option.map_eq_some_iff.1 h
        cases hr
        exact .string _
      · exact proper_of_readNumber h
      · split at h
        · cases h
        · cases h
          exact .array nofun
        · obtain ⟨r, hr, heq⟩ := Option.map_eq_some_iff.1 h
          cases heq
          exact .array (hitems _ _ _ _ hr)
      · split at h
        · cases h
        · cases h
          exact .object List.nodup_nil nofun
        · obtain ⟨r, hr, heq⟩ := Option.map_eq_some_iff.1 h
          cases heq
          exact .object (Table.nodup_names_ofList _) fun m hm =>
            hmembers _ _ _ _ hr m (Table.mem_ofList hm)
      · split at h
        · exact proper_of_readNumber h
        · split at h
          · obtain ⟨r, -, hr⟩ := Option.map_eq_some_iff.1 h
            cases hr
            exact .bool true
          · split at h
            · obtain ⟨r, -, hr⟩ := Option.map_eq_some_iff.1 h
              cases hr
              exact .bool false
            · obtain ⟨r, -, hr⟩ := Option.map_eq_some_iff.1 h
              cases hr
              exact .null
      · cases h
    · rw [readItems] at h
      obtain ⟨⟨item, cs'⟩, hitem, h⟩ := Option.bind_eq_some_iff.1 h
      dsimp only at h
      split at h
      · obtain ⟨⟨more, _⟩, hmore, h⟩ := Option.bind_eq_some_iff.1 h
        cases h
        exact List.forall_mem_cons.2 ⟨hvalue _ _ _ _ hitem, hitems _ _ _ _ hmore⟩
      · cases h
        exact List.forall_mem_singleton.2 (hvalue _ _ _ _ hitem)
      · cases h
    · rw [readMembers.eq_def] at h
      dsimp only at h
      split at h
      · obtain ⟨⟨name, cs'⟩, -, h⟩ := Option.bind_eq_some_iff.1 h
        dsimp only at h
        split at h
        · obtain ⟨⟨value, cs'⟩, hread, h⟩ := Option.bind_eq_some_iff.1 h
          dsimp only at h
          split at h
          · obtain ⟨⟨more, _⟩, hmore, h⟩ := Option.bind_eq_some_iff.1 h
            cases h
            exact List.forall_mem_cons.2 ⟨hvalue _ _ _ _ hread, hmembers _ _ _ _ hmore⟩
          · cases h
            exact List.forall_mem_singleton.2 (hvalue _ _ _ _ hread)
          · cases h
        · cases h
      · cases h

/-- **What is read has its members under different names.** -/
theorem proper_of_parse {text : String} {j : Json} (h : parse text = some j) : j.Proper := by
  obtain ⟨⟨value, rest⟩, hread, h⟩ := Option.bind_eq_some_iff.1 h
  obtain ⟨_, -, h⟩ := Option.bind_eq_some_iff.1 h
  cases h
  exact (proper_of_read _).1 _ _ _ _ hread

end Json
end VisualBlocks
