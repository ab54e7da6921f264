import VisualBlocks.Text.Candidate

/-!
# Free names are free

The search for a free name only gives up on candidates that are taken.  If all candidates that it
may try are different, then there are more of them than names that are taken, and **what it finds is
not taken** (`free_not_mem`).  The numbered candidates of a base are different
(`numbered_injective`).
-/

set_option autoImplicit false

namespace VisualBlocks
namespace Text

variable {taken : List String} {candidate : Nat → String} {start : Nat}

/-- Trying the candidates one after the other, from a number on and without a bound, ends at a
name. -/
inductive EndsAt (taken : List String) (candidate : Nat → String) : Nat → String → Prop
  | free {n : Nat} (h : candidate n ∉ taken) : EndsAt taken candidate n (candidate n)
  | next {n : Nat} {name : String} (h : candidate n ∈ taken)
      (rest : EndsAt taken candidate (n + 1) name) : EndsAt taken candidate n name

/-- It ends at one name only. -/
theorem EndsAt.unique {name name' : String} (h : EndsAt taken candidate start name)
    (h' : EndsAt taken candidate start name') : name = name' := by
  induction h with
  | free hfree =>
    cases h' with
    | free _ => rfl
    | next htaken _ => exact absurd htaken hfree
  | next htaken _ ih =>
    cases h' with
    | free hfree => exact absurd htaken hfree
    | next _ rest => exact ih rest

/-- A search that ends at a name that is not taken has not met its bound. -/
theorem endsAt_firstFree {fuel : Nat} (h : firstFree taken candidate start fuel ∉ taken) :
    EndsAt taken candidate start (firstFree taken candidate start fuel) := by
  induction fuel generalizing start with
  | zero => exact .free h
  | succ fuel ih =>
    rw [firstFree] at h ⊢
    by_cases hstart : taken.contains (candidate start) = true
    · rw [if_pos hstart] at h ⊢
      exact .next (List.contains_iff_mem.1 hstart) (ih h)
    · rw [if_neg hstart] at h ⊢
      exact .free h

/-- A search that ends at a name that is taken has met no other one. -/
theorem forall_mem_of_firstFree {fuel : Nat} (h : firstFree taken candidate start fuel ∈ taken) :
    ∀ i ≤ fuel, candidate (start + i) ∈ taken := by
  induction fuel generalizing start with
  | zero =>
    intro i hi
    obtain rfl := Nat.le_zero.1 hi
    exact h
  | succ fuel ih =>
    rw [firstFree] at h
    split at h
    · next hstart =>
      intro i hi
      cases i with
      | zero => exact List.contains_iff_mem.1 hstart
      | succ i =>
        have hnext := ih h i (Nat.le_of_succ_le_succ hi)
        rwa [Nat.add_assoc, Nat.add_comm 1 i] at hnext
    · next hstart => exact absurd (List.contains_iff_mem.2 h) hstart

/-- **A free name is not taken**, if no candidate comes twice. -/
theorem free_not_mem (taken : List String)
    (hdifferent : ∀ i j, start ≤ i → start ≤ j → candidate i = candidate j → i = j) :
    free taken candidate start ∉ taken := by
  intro hmem
  have hall := forall_mem_of_firstFree hmem
  have hnodup : ((List.range (taken.length + 1)).map fun i => candidate (start + i)).Nodup := by
    refine List.Pairwise.map _ (fun i j (hij : i ≠ j) heq => hij ?_) List.nodup_range
    exact Nat.add_left_cancel
      (hdifferent _ _ (Nat.le_add_right start i) (Nat.le_add_right start j) heq)
  have hsub : ((List.range (taken.length + 1)).map fun i => candidate (start + i)) ⊆ taken := by
    intro name hname
    obtain ⟨i, hi, rfl⟩ := List.mem_map.1 hname
    exact hall i (Nat.le_of_lt_succ (List.mem_range.1 hi))
  have hle := hnodup.length_le_of_subset hsub
  rw [List.length_map, List.length_range] at hle
  exact absurd hle (Nat.not_succ_le_self _)

theorem toList_toString (n : Nat) : (toString n).toList = Nat.toDigits 10 n := by
  rw [Nat.toString_eq_ofList_toDigits, String.toList_ofList]

theorem isDigit_toString {n : Nat} {c : Char} (h : c ∈ (toString n).toList) : c.isDigit = true := by
  rw [toList_toString] at h
  exact Nat.isDigit_of_mem_toDigits (by decide) (by decide) h

/-- Texts that end in different numbers are different. -/
theorem append_toString_injective {stem : String} {i j : Nat}
    (h : stem ++ toString i = stem ++ toString j) : i = j := by
  have hlist := congrArg String.toList h
  rw [String.toList_append, String.toList_append, toList_toString, toList_toString] at hlist
  have hnumber := congrArg (fun ds => Nat.ofDigitChars 10 ds 0) (List.append_cancel_left hlist)
  rwa [Nat.ofDigitChars_ten_toDigits, Nat.ofDigitChars_ten_toDigits] at hnumber

/-- **No numbered candidate comes twice.** -/
theorem numbered_injective (base : String) :
    ∀ i j, 1 ≤ i → 1 ≤ j → numbered base i = numbered base j → i = j := by
  have hlonger (n : Nat) : base ≠ base ++ toString n := by
    intro h
    have hlist := congrArg String.toList h
    rw [String.toList_append, toList_toString, List.self_eq_append_right] at hlist
    exact Nat.toDigits_ne_nil hlist
  intro i j hi hj heq
  rw [numbered, numbered] at heq
  split at heq
  · split at heq
    · omega
    · exact absurd heq (hlonger j)
  · split at heq
    · exact absurd heq.symm (hlonger i)
    · exact append_toString_injective heq

/-- **A numbered name that is free is not taken.** -/
theorem free_numbered_not_mem (taken : List String) (base : String) :
    free taken (numbered base) 1 ∉ taken :=
  free_not_mem taken (numbered_injective base)

/-- **Trying numbered names ends**, at the name that the bounded search finds. -/
theorem endsAt_free_numbered (taken : List String) (base : String) :
    EndsAt taken (numbered base) 1 (free taken (numbered base) 1) :=
  endsAt_firstFree (free_numbered_not_mem taken base)

end Text
end VisualBlocks
