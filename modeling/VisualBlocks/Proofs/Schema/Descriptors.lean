import Mathlib.Data.List.TakeWhile
import Mathlib.Data.List.Perm.Subperm
import VisualBlocks.Proofs.Registration
import VisualBlocks.Proofs.Text.Candidate

/-!
# What an accepted descriptor looks like

The lines of a descriptor are its messages from `message0` on, up to the first that is missing.  A
descriptor is only accepted if on every one of its lines the message and the arguments match
(`accepted_lines`): each placeholder has the number of an argument, each argument has a placeholder,
and the sockets are those of the arguments that are not there for the layout only, in order.

The check on a line only counts: the numbers of the placeholders have to be in range, and there have
to be as many different ones as there are arguments.  Numbers that are in range and are that many
are all of them (`length_eraseDups_eq_iff`).  The numbers are found by a scan of the message that
jumps over the digits of what it has found, and that is no loss, since no placeholder begins among
digits (`mem_placeholders`).

What stands behind a gap in the numbering of the messages is not part of the declaration, and
nothing is asked of it (`behind_gap`).
-/

set_option autoImplicit false

namespace VisualBlocks
namespace Descriptor

open Text (isDecimalDigit)

/-! ## Placeholders -/

/-- A placeholder in a message: a percent sign and all the decimal digits that follow it. -/
def Placeholder (message digits : List Char) : Prop :=
  ∃ before after, message = before ++ '%' :: (digits ++ after) ∧ digits ≠ [] ∧
    (∀ c ∈ digits, isDecimalDigit c = true) ∧ ∀ c ∈ after.head?, isDecimalDigit c = false

/-- The digits are those of ASCII, and they write down a number of at most 64 bits. -/
def Writes (digits : List Char) (n : Nat) : Prop :=
  (∀ c ∈ digits, c.isDigit = true) ∧ Number.ofDigits digits = n ∧ n < Nat.pow 2 64

theorem Placeholder.ne_nil {message digits : List Char} (h : Placeholder message digits) :
    digits ≠ [] := by
  obtain ⟨_, _, _, hne, _⟩ := h
  exact hne

theorem Placeholder.decimal {message digits : List Char} (h : Placeholder message digits) :
    ∀ c ∈ digits, isDecimalDigit c = true := by
  obtain ⟨_, _, _, _, hdigits, _⟩ := h
  exact hdigits

theorem not_placeholder_nil {digits : List Char} : ¬ Placeholder [] digits := by
  rintro ⟨before, after, heq, -⟩
  exact List.append_ne_nil_of_right_ne_nil before (List.cons_ne_nil _ _) heq.symm

theorem takeWhile_append_digits {digits after : List Char}
    (hdigits : ∀ c ∈ digits, isDecimalDigit c = true)
    (hafter : ∀ c ∈ after.head?, isDecimalDigit c = false) :
    (digits ++ after).takeWhile isDecimalDigit = digits := by
  rw [List.takeWhile_append_of_pos hdigits]
  cases after with
  | nil => exact List.append_nil digits
  | cons c cs =>
    have hc : ¬ isDecimalDigit c = true := by
      rw [hafter c rfl]
      exact Bool.false_ne_true
    rw [List.takeWhile_cons_of_neg hc, List.append_nil]

theorem drop_length_takeWhile (cs : List Char) :
    cs.drop (cs.takeWhile isDecimalDigit).length = cs.dropWhile isDecimalDigit := by
  have hdrop : (cs.takeWhile isDecimalDigit ++ cs.dropWhile isDecimalDigit).drop
      (cs.takeWhile isDecimalDigit).length = cs.dropWhile isDecimalDigit := List.drop_left
  rwa [List.takeWhile_append_dropWhile] at hdrop

/-- A placeholder stands at the beginning of a message or further on. -/
theorem placeholder_cons {c : Char} {cs digits : List Char} : Placeholder (c :: cs) digits ↔
    (c = '%' ∧ digits ≠ [] ∧ digits = cs.takeWhile isDecimalDigit) ∨ Placeholder cs digits := by
  constructor
  · rintro ⟨before, after, heq, hne, hdigits, hafter⟩
    cases before with
    | nil =>
      obtain ⟨rfl, rfl⟩ := List.cons.inj heq
      exact .inl ⟨rfl, hne, (takeWhile_append_digits hdigits hafter).symm⟩
    | cons d before =>
      obtain ⟨rfl, rfl⟩ := List.cons.inj heq
      exact .inr ⟨before, after, rfl, hne, hdigits, hafter⟩
  · rintro (⟨rfl, hne, rfl⟩ | ⟨before, after, rfl, h⟩)
    · refine ⟨[], cs.dropWhile isDecimalDigit, ?_, hne, fun c hc => List.mem_takeWhile_imp hc, ?_⟩
      · rw [List.takeWhile_append_dropWhile, List.nil_append]
      · intro c hc
        have hnot := List.head?_dropWhile_not isDecimalDigit cs
        rwa [Option.mem_def.1 hc] at hnot
    · exact ⟨c :: before, after, rfl, h⟩

/-- There is no placeholder among digits. -/
theorem placeholder_append {ds cs digits : List Char} (h : ∀ c ∈ ds, isDecimalDigit c = true) :
    Placeholder (ds ++ cs) digits ↔ Placeholder cs digits := by
  induction ds with
  | nil => rfl
  | cons d ds ih =>
    rw [List.forall_mem_cons] at h
    rw [List.cons_append, placeholder_cons, ih h.2, or_iff_right]
    rintro ⟨rfl, -⟩
    exact absurd h.1 (by decide)

theorem placeholder_dropWhile {cs digits : List Char} :
    Placeholder (cs.dropWhile isDecimalDigit) digits ↔ Placeholder cs digits := by
  conv_rhs => rw [← List.takeWhile_append_dropWhile (p := isDecimalDigit) (l := cs)]
  exact (placeholder_append fun c hc => List.mem_takeWhile_imp hc).symm

/-- **The numbers that are found are those of the placeholders.**  What follows a placeholder is
looked through from behind its digits, and there is no other one among them. -/
theorem mem_placeholders {message : List Char} {n : Nat} : n ∈ placeholders message ↔
    ∃ digits, Placeholder message digits ∧ (Number.natural? (String.ofList digits)).getD 0 = n := by
  fun_induction placeholders message with
  | case1 => exact ⟨nofun, fun ⟨_, h, _⟩ => (not_placeholder_nil h).elim⟩
  | case2 c cs digits h ih =>
    rw [List.mem_cons, ih, drop_length_takeWhile]
    simp only [placeholder_dropWhile, placeholder_cons]
    constructor
    · rintro (rfl | ⟨ds, hds, rfl⟩)
      · exact ⟨digits, .inl ⟨h.1, h.2, rfl⟩, rfl⟩
      · exact ⟨ds, .inr hds, rfl⟩
    · rintro ⟨ds, ⟨-, -, rfl⟩ | hds, rfl⟩
      · exact .inl rfl
      · exact .inr ⟨ds, hds, rfl⟩
  | case3 c cs digits h ih =>
    rw [ih]
    simp only [placeholder_cons]
    constructor
    · rintro ⟨ds, hds, rfl⟩
      exact ⟨ds, .inr hds, rfl⟩
    · rintro ⟨ds, ⟨hc, hne, rfl⟩ | hds, rfl⟩
      · exact (h ⟨hc, hne⟩).elim
      · exact ⟨ds, hds, rfl⟩

/-- Digits of other scripts make no number, and there is no sign in front of digits. -/
theorem natural?_eq_some_iff {digits : List Char} {n : Nat} (hne : digits ≠ [])
    (hdigits : ∀ c ∈ digits, isDecimalDigit c = true) :
    Number.natural? (String.ofList digits) = some n ↔ Writes digits n := by
  have hempty : digits.isEmpty = false := by simpa using hne
  rw [Number.natural?, Number.naturalBelow?, String.toList_ofList, Writes, ← List.all_eq_true]
  split
  · exact absurd (hdigits '+' List.mem_cons_self) (by decide)
  · cases digits.all Char.isDigit with
    | false => simp
    | true =>
      simp only [hempty, Bool.not_true, Bool.or_self, Bool.false_eq_true, if_false, true_and]
      split
      · next hlt => exact ⟨fun h => by cases h; exact ⟨rfl, hlt⟩, fun h => congrArg some h.1⟩
      · next hle => exact ⟨nofun, fun h => absurd (h.1 ▸ h.2) hle⟩

/-- **A number of an argument is found where a placeholder writes it down.** -/
theorem mem_placeholders_of_pos {message : List Char} {n : Nat} (hn : 1 ≤ n) :
    n ∈ placeholders message ↔ ∃ digits, Placeholder message digits ∧ Writes digits n := by
  rw [mem_placeholders]
  refine exists_congr fun digits => and_congr_right fun h => ?_
  rw [← natural?_eq_some_iff h.ne_nil h.decimal]
  cases Number.natural? (String.ofList digits) with
  | none => exact ⟨fun h => absurd h.symm (Nat.pos_iff_ne_zero.1 hn), nofun⟩
  | some m => exact ⟨congrArg some, Option.some.inj⟩

/-! ## The check -/

/-- The message of a line and its arguments match. -/
structure Matched (message : List Char) (args : List Json) : Prop where
  /-- Every placeholder has the number of an argument. -/
  inRange : ∀ digits, Placeholder message digits → ∃ n, Writes digits n ∧ 1 ≤ n ∧ n ≤ args.length
  /-- The number of every argument is that of a placeholder. -/
  referenced : ∀ n, 1 ≤ n → n ≤ args.length → ∃ digits, Placeholder message digits ∧ Writes digits n

theorem nodup_eraseDups (ns : List Nat) : ns.eraseDups.Nodup := by
  cases ns with
  | nil => exact List.nodup_nil
  | cons n ns =>
    rw [List.eraseDups_cons, List.nodup_cons]
    refine ⟨fun hmem => ?_, nodup_eraseDups (ns.filter fun m => !m == n)⟩
    have hne := (List.mem_filter.1 (List.mem_eraseDups.1 hmem)).2
    simp at hne
termination_by ns.length
decreasing_by exact Nat.lt_succ_of_le (List.length_filter_le _ _)

/-- As many different numbers up to a bound as there are, are all of them. -/
theorem length_eraseDups_eq_iff {ns : List Nat} {bound : Nat}
    (h : ∀ n ∈ ns, 1 ≤ n ∧ n ≤ bound) :
    ns.eraseDups.length = bound ↔ ∀ n, 1 ≤ n → n ≤ bound → n ∈ ns := by
  have hsub : ns.eraseDups ⊆ List.range' 1 bound := fun n hn => by
    have := h n (List.mem_eraseDups.1 hn)
    rw [List.mem_range'_1]
    omega
  have hsubperm := (nodup_eraseDups ns).subperm hsub
  constructor
  · intro hlength n hpos hle
    have hperm := hsubperm.perm_of_length_le (by rw [hlength, List.length_range'])
    have hmem : n ∈ List.range' 1 bound := by
      rw [List.mem_range'_1]
      omega
    exact List.mem_eraseDups.1 (hperm.mem_iff.2 hmem)
  · intro hall
    have hle := hsubperm.length_le
    have hge : (List.range' 1 bound).length ≤ ns.eraseDups.length :=
      (List.nodup_range' ..).length_le_of_subset fun n hn => by
        rw [List.mem_range'_1] at hn
        exact List.mem_eraseDups.2 (hall n hn.1 (by omega))
    rw [List.length_range'] at hle hge
    exact Nat.le_antisymm hle hge

theorem matched_iff {message : List Char} {args : List Json} : Matched message args ↔
    (∀ n ∈ placeholders message, 1 ≤ n ∧ n ≤ args.length) ∧
      ∀ n, 1 ≤ n → n ≤ args.length → n ∈ placeholders message := by
  constructor
  · rintro ⟨hrange, hreferenced⟩
    refine ⟨fun n hn => ?_, fun n hn hle => (mem_placeholders_of_pos hn).2 (hreferenced n hn hle)⟩
    obtain ⟨digits, hdigits, rfl⟩ := mem_placeholders.1 hn
    obtain ⟨n, hwrites, hn⟩ := hrange digits hdigits
    rwa [(natural?_eq_some_iff hdigits.ne_nil hdigits.decimal).2 hwrites]
  · rintro ⟨hrange, hreferenced⟩
    refine ⟨fun digits hdigits => ?_, fun n hn hle =>
      (mem_placeholders_of_pos hn).1 (hreferenced n hn hle)⟩
    have hn := hrange _ (mem_placeholders.2 ⟨digits, hdigits, rfl⟩)
    cases hnat : Number.natural? (String.ofList digits) with
    | none =>
      rw [hnat] at hn
      exact absurd hn.1 (Nat.not_succ_le_zero 0)
    | some n =>
      rw [hnat] at hn
      exact ⟨n, (natural?_eq_some_iff hdigits.ne_nil hdigits.decimal).1 hnat, hn⟩

/-- **A line passes the check exactly if its message and its arguments match.** -/
theorem checkLine_eq_ok_iff (line : Nat) {message : String} {args : List Json} :
    checkLine line message args = .ok () ↔ Matched message.toList args := by
  rw [matched_iff, checkLine]
  split
  · next index hfind =>
    have hmem := List.mem_of_find?_eq_some hfind
    have houtside := List.find?_some hfind
    rw [Bool.or_eq_true, decide_eq_true_eq, decide_eq_true_eq] at houtside
    refine ⟨nofun, fun ⟨hrange, _⟩ => ?_⟩
    have := hrange index hmem
    omega
  · next hfind =>
    have hrange : ∀ n ∈ placeholders message.toList, 1 ≤ n ∧ n ≤ args.length := fun n hn => by
      have hinside := List.find?_eq_none.1 hfind n hn
      rw [Bool.or_eq_true, decide_eq_true_eq, decide_eq_true_eq] at hinside
      omega
    rw [and_iff_right hrange, ← length_eraseDups_eq_iff hrange]
    simp only [ne_eq, ite_not]
    split
    · next hlength => exact iff_of_true rfl hlength
    · next hlength => exact iff_of_false nofun hlength

/-! ## Arguments -/

/-- The argument is there for the layout: a dummy, the end of a row, or a label without a name. -/
def isLayout (arg : Json) : Bool :=
  ["input_dummy", "input_end_row"].contains (textAt arg "type" "") ||
    ["field_label", "field_label_serializable"].contains (textAt arg "type" "") &&
      (arg.stringAt? "name").isNone

/-- The argument brings the socket: it gives its name, which is not empty, and its kind. -/
structure Brings (arg : Json) (s : Socket) : Prop where
  named : arg.stringAt? "name" = some s.name
  ne_empty : s.name ≠ ""
  kind : socketKind? arg (textAt arg "type" "") (some s.name) = .ok (some s.kind)

theorem socketKind?_eq_none_iff {arg : Json} :
    socketKind? arg (textAt arg "type" "") (arg.stringAt? "name") = .ok none ↔
      isLayout arg = true := by
  rw [isLayout]
  generalize textAt arg "type" "" = kind
  generalize arg.stringAt? "name" = name
  fun_cases socketKind? arg kind name <;> simp_all

/-- What is not there for the layout has to have a name. -/
theorem socket?_of_kind {arg : Json} {k : SocketKind} {s : Option Socket}
    (hkind : socketKind? arg (textAt arg "type" "") (arg.stringAt? "name") = .ok (some k)) :
    socket? arg = .ok s ↔
      ∃ name, arg.stringAt? "name" = some name ∧ name ≠ "" ∧ s = some ⟨name, k⟩ := by
  rw [socket?, hkind]
  dsimp only [bind, Except.bind]
  split
  · next hname =>
    refine iff_of_false (fun h => by cases h) ?_
    rintro ⟨_, h, -, -⟩
    rw [hname] at h
    cases h
  · next hname =>
    refine iff_of_false (fun h => by cases h) ?_
    rintro ⟨_, h, hne, -⟩
    rw [hname] at h
    exact hne (Option.some.inj h).symm
  · next name hne hname =>
    constructor
    · intro h
      exact ⟨name, hname, hne, (Except.ok.inj h).symm⟩
    · rintro ⟨_, h, -, rfl⟩
      rw [hname] at h
      rw [Option.some.inj h]
      rfl

/-- **An argument is passed over if it is there for the layout, and else brings its socket.** -/
theorem socket?_eq_ok_iff {arg : Json} {s : Option Socket} : socket? arg = .ok s ↔
    (isLayout arg = true ∧ s = none) ∨ ∃ t, isLayout arg = false ∧ Brings arg t ∧ s = some t := by
  have hlayout := @socketKind?_eq_none_iff arg
  cases hkind : socketKind? arg (textAt arg "type" "") (arg.stringAt? "name") with
  | error fault =>
    rw [socket?, hkind]
    refine iff_of_false nofun ?_
    rintro (⟨h, -⟩ | ⟨t, -, h, -⟩)
    · rw [hlayout.2 h] at hkind
      cases hkind
    · rw [h.named, h.kind] at hkind
      cases hkind
  | ok k? =>
    cases k? with
    | none =>
      rw [socket?, hkind]
      simp only [hlayout.1 hkind, true_and, Bool.true_eq_false, false_and, exists_false, or_false]
      exact ⟨fun h => (Except.ok.inj h).symm, congrArg Except.ok ∘ Eq.symm⟩
    | some k =>
      have h : isLayout arg = false := by
        rw [← Bool.not_eq_true, ← hlayout, hkind]
        nofun
      rw [socket?_of_kind hkind]
      simp only [h, Bool.false_eq_true, false_and, true_and, false_or]
      constructor
      · rintro ⟨name, hname, hne, rfl⟩
        rw [hname] at hkind
        exact ⟨⟨name, k⟩, ⟨hname, hne, hkind⟩, rfl⟩
      · rintro ⟨⟨name, k'⟩, ht, rfl⟩
        rw [ht.named, ht.kind] at hkind
        obtain rfl := Option.some.inj (Except.ok.inj hkind)
        exact ⟨name, ht.named, ht.ne_empty, rfl⟩

/-- The sockets of a row of arguments are those of the arguments that have one. -/
theorem mapM_socket?_iff {args : List Json} {sockets : List Socket} :
    (∃ found, args.mapM socket? = .ok found ∧ found.filterMap id = sockets) ↔
      List.Forall₂ Brings (args.filter fun arg => !isLayout arg) sockets := by
  simp only [mapM_eq_ok_iff, socket?_eq_ok_iff]
  induction args generalizing sockets with
  | nil =>
    rw [List.filter_nil, List.forall₂_nil_left_iff]
    simp only [List.forall₂_nil_left_iff, exists_eq_left, List.filterMap_nil]
    exact eq_comm
  | cons arg args ih =>
    simp only [List.forall₂_cons_left_iff]
    by_cases hlayout : isLayout arg = true
    · rw [List.filter_cons_of_neg (by simp [hlayout]), ← ih]
      constructor
      · rintro ⟨_, ⟨_, found, ⟨-, rfl⟩ | ⟨_, h, _⟩, hfound, rfl⟩, rfl⟩
        · exact ⟨found, hfound, rfl⟩
        · rw [hlayout] at h
          cases h
      · rintro ⟨found, hfound, rfl⟩
        exact ⟨none :: found, ⟨none, found, .inl ⟨hlayout, rfl⟩, hfound, rfl⟩, rfl⟩
    · rw [List.filter_cons_of_pos (by simpa using hlayout), List.forall₂_cons_left_iff]
      rw [Bool.not_eq_true] at hlayout
      simp only [← ih]
      constructor
      · rintro ⟨_, ⟨_, found, ⟨h, _⟩ | ⟨t, -, ht, rfl⟩, hfound, rfl⟩, rfl⟩
        · rw [hlayout] at h
          cases h
        · exact ⟨t, _, ht, ⟨found, hfound, rfl⟩, rfl⟩
      · rintro ⟨t, _, ht, ⟨found, hfound, rfl⟩, rfl⟩
        exact ⟨some t :: found, ⟨some t, found, .inr ⟨t, hlayout, ht, rfl⟩, hfound, rfl⟩, rfl⟩

/-! ## Lines -/

/-- The message of a line. -/
def messageAt? (desc : Json) (line : Nat) : Option String :=
  desc.stringAt? ("message" ++ toString line)

/-- The arguments of a line, none if they are missing. -/
def argsAt (desc : Json) (line : Nat) : List Json :=
  ((desc.get? ("args" ++ toString line)).bind Json.array?).getD []

/-- The lines from one on have these messages and bring these sockets. -/
inductive Lines (desc : Json) : Nat → List String → List Socket → Prop
  | done {line : Nat} (hmessage : messageAt? desc line = none) : Lines desc line [] []
  | line {line : Nat} {message : String} {messages : List String} {sockets more : List Socket}
      (hmessage : messageAt? desc line = some message)
      (hmatched : Matched message.toList (argsAt desc line))
      (hsockets : List.Forall₂ Brings ((argsAt desc line).filter fun arg => !isLayout arg) sockets)
      (hmore : Lines desc (line + 1) messages more) :
      Lines desc line (message :: messages) (sockets ++ more)

/-- There are no more lines than members. -/
theorem le_length_of_messages {members : List (String × Json)} {n : Nat}
    (h : ∀ k < n, messageAt? (.object members) k ≠ none) : n ≤ members.length := by
  have hnodup : ((List.range n).map fun k => "message" ++ toString k).Nodup :=
    List.nodup_range.map fun _ _ => Text.append_toString_injective
  have hsub : ((List.range n).map fun k => "message" ++ toString k) ⊆ members.map (·.1) := by
    intro name hname
    obtain ⟨k, hk, rfl⟩ := List.mem_map.1 hname
    by_contra habsent
    refine h k (List.mem_range.1 hk) ?_
    rw [messageAt?, Json.stringAt?, Json.get?, List.lookup_eq_none_iff.2, Option.bind_none]
    exact fun m hm => bne_iff_ne.2 fun heq => habsent (List.mem_map.2 ⟨m, hm, heq.symm⟩)
  have hle := hnodup.length_le_of_subset hsub
  rwa [List.length_map, List.length_map, List.length_range] at hle

theorem readLines_succ_eq_ok_iff {desc : Json} {fuel line : Nat} {message : String}
    {messages : List String} {sockets : List Socket}
    (hmessage : messageAt? desc line = some message) :
    readLines desc (fuel + 1) line = .ok (messages, sockets) ↔
      Matched message.toList (argsAt desc line) ∧
      ∃ found rest, List.Forall₂ Brings ((argsAt desc line).filter fun arg => !isLayout arg) found ∧
        readLines desc fuel (line + 1) = .ok rest ∧
        messages = message :: rest.1 ∧ sockets = found ++ rest.2 := by
  rw [messageAt?] at hmessage
  rw [readLines, hmessage, ← argsAt, ← checkLine_eq_ok_iff line]
  simp only
  have hread (sockets : List Socket) := @mapM_socket?_iff (argsAt desc line) sockets
  cases checkLine line message (argsAt desc line) with
  | error fault => exact iff_of_false nofun fun h => nomatch h.1
  | ok _ =>
    simp only [← hread, true_and]
    cases (argsAt desc line).mapM socket? with
    | error fault => exact iff_of_false nofun fun ⟨_, _, ⟨_, h, _⟩, _⟩ => nomatch h
    | ok found =>
      cases readLines desc fuel (line + 1) with
      | error fault => exact iff_of_false nofun fun ⟨_, _, _, h, _⟩ => nomatch h
      | ok rest =>
        constructor
        · intro h
          cases h
          exact ⟨_, rest, ⟨found, rfl, rfl⟩, rfl, rfl, rfl⟩
        · rintro ⟨_, _, ⟨_, hfound, rfl⟩, hrest, rfl, rfl⟩
          cases hfound
          cases hrest
          rfl

/-- **The lines are read up to the first that is missing.** -/
theorem readLines_eq_ok_iff {members : List (String × Json)} {fuel line : Nat}
    {messages : List String} {sockets : List Socket}
    (hbefore : ∀ k < line, messageAt? (.object members) k ≠ none)
    (hfuel : members.length ≤ line + fuel) :
    readLines (.object members) fuel line = .ok (messages, sockets) ↔
      Lines (.object members) line messages sockets := by
  induction fuel generalizing line messages sockets with
  | zero =>
    have hmissing : messageAt? (.object members) line = none := by
      by_contra hmessage
      have hle : line + 1 ≤ members.length := le_length_of_messages fun k hk => by
        rcases Nat.lt_succ_iff_lt_or_eq.1 hk with hk | rfl
        · exact hbefore k hk
        · exact hmessage
      omega
    rw [readLines]
    constructor
    · intro h
      cases h
      exact .done hmissing
    · intro h
      cases h with
      | done => rfl
      | line h => rw [hmissing] at h; cases h
  | succ fuel ih =>
    cases hmessage : messageAt? (.object members) line with
    | none =>
      rw [readLines, ← messageAt?, hmessage]
      constructor
      · intro h
        cases h
        exact .done hmessage
      · intro h
        cases h with
        | done => rfl
        | line h => rw [hmessage] at h; cases h
    | some message =>
      rw [readLines_succ_eq_ok_iff hmessage]
      have hnext : ∀ k < line + 1, messageAt? (.object members) k ≠ none := fun k hk => by
        rcases Nat.lt_succ_iff_lt_or_eq.1 hk with hk | rfl
        · exact hbefore k hk
        · rw [hmessage]; nofun
      constructor
      · rintro ⟨hmatched, found, rest, hfound, hrest, rfl, rfl⟩
        exact .line hmessage hmatched hfound ((ih hnext (by omega)).1 hrest)
      · intro h
        cases h with
        | done h => rw [hmessage] at h; cases h
        | line h hmatched hsockets hmore =>
          obtain rfl := Option.some.inj (hmessage.symm.trans h)
          exact ⟨hmatched, _, _, hsockets, (ih hnext (by omega)).2 hmore, rfl, rfl⟩

/-- The lines that are read are those up to the first that is missing. -/
theorem Lines.matched {desc : Json} {line : Nat} {messages : List String} {sockets : List Socket}
    (h : Lines desc line messages sockets) :
    messageAt? desc (line + messages.length) = none ∧
      (∀ k < messages.length, ∃ message, messageAt? desc (line + k) = some message ∧
        Matched message.toList (argsAt desc (line + k))) ∧
      List.Forall₂ Brings (((List.range' line messages.length).flatMap (argsAt desc)).filter
        fun arg => !isLayout arg) sockets := by
  induction h with
  | done hmessage => exact ⟨hmessage, nofun, .nil⟩
  | line hmessage hmatched hsockets _ ih =>
    obtain ⟨hstop, hlines, hall⟩ := ih
    rw [Nat.add_right_comm] at hstop
    refine ⟨hstop, fun k hk => ?_, ?_⟩
    · cases k with
      | zero => exact ⟨_, hmessage, hmatched⟩
      | succ k =>
        have := hlines k (Nat.lt_of_succ_lt_succ hk)
        rwa [Nat.add_right_comm] at this
    · rw [List.length_cons, List.range'_succ, List.flatMap_cons, List.filter_append]
      exact List.rel_append hsockets hall


end Descriptor

open Descriptor

/-- **What is accepted**: objects with a type that is not blank, the lines of which can be read. -/
theorem exists_ofJson_iff {members : List (String × Json)} {messages : List String}
    {sockets : List Socket} :
    (∃ t, BlockType.ofJson (.object members) = .ok t ∧ t.messages = messages ∧
      t.sockets = sockets) ↔
    (∃ name, (Json.object members).stringAt? "type" = some name ∧ Text.isBlankText name = false) ∧
      Lines (.object members) 0 messages sockets := by
  have hlines := @readLines_eq_ok_iff members members.length 0 messages sockets
    (fun k hk => absurd hk (Nat.not_lt_zero k)) (Nat.le_add_left _ _)
  rw [← hlines, BlockType.ofJson]
  simp only [Json.object?]
  constructor
  · rintro ⟨t, ht, rfl, rfl⟩
    split at ht
    · cases ht
    · next name hname =>
      obtain ⟨hname, hblank⟩ := Option.filter_eq_some_iff.1 hname
      split at ht
      · cases ht
      · next hread =>
        cases ht
        exact ⟨⟨name, hname, by simpa using hblank⟩, hread⟩
  · rintro ⟨⟨name, hname, hblank⟩, hread⟩
    have hfilter : (((Json.object members).stringAt? "type").filter
        fun name => !Text.isBlankText name) = some name :=
      Option.filter_eq_some_iff.2 ⟨hname, by simpa using hblank⟩
    rw [hfilter, hread]
    exact ⟨_, rfl, rfl, rfl⟩

/-- **The messages of an accepted descriptor match their arguments.**  There is a first line whose
message is missing.  On the lines before it every placeholder has an argument and every argument a
placeholder, and the sockets of the type are those of their arguments in order, less those that are
there for the layout. -/
theorem accepted_lines {desc : Json} {t : BlockType} (h : BlockType.ofJson desc = .ok t) :
    ∃ n, messageAt? desc n = none ∧
      (∀ k < n, ∃ message, messageAt? desc k = some message ∧
        Matched message.toList (argsAt desc k)) ∧
      List.Forall₂ Brings
        (((List.range n).flatMap (argsAt desc)).filter fun arg => !isLayout arg) t.sockets := by
  cases desc with
  | object members =>
    obtain ⟨-, hlines⟩ := exists_ofJson_iff.1 ⟨t, h, rfl, rfl⟩
    obtain ⟨hstop, hmatched, hsockets⟩ := hlines.matched
    simp only [Nat.zero_add] at hstop hmatched
    rw [← List.range_eq_range'] at hsockets
    exact ⟨t.messages.length, hstop, hmatched, hsockets⟩
  | _ => cases h

/-- A block that waves a number of times, and does something in between. -/
def wavingDescriptor : Json :=
  .object [
    ("args0", .array [
      .object [("name", .string "TIMES"), ("type", .string "input_value")],
      .object [("text", .string "times"), ("type", .string "field_label")]]),
    ("args1", .array [.object [("name", .string "DO"), ("type", .string "input_statement")]]),
    ("message0", .string "wave %2 %1"),
    ("message1", .string "do %01"),
    ("type", .string "wave")]

theorem wavingDescriptor_lines :
    ∃ t, BlockType.ofJson wavingDescriptor = .ok t ∧ t.sockets.map (·.name) = ["TIMES", "DO"] ∧
    ∃ n, messageAt? wavingDescriptor n = none ∧
      (∀ k < n, ∃ message, messageAt? wavingDescriptor k = some message ∧
        Matched message.toList (argsAt wavingDescriptor k)) ∧
      List.Forall₂ Brings
        (((List.range n).flatMap (argsAt wavingDescriptor)).filter fun arg => !isLayout arg)
        t.sockets := by
  have hspace : Text.isDecimalDigit ' ' = false := by decide
  have hzero : Text.isDecimalDigit '0' = true := by decide
  have hone : Text.isDecimalDigit '1' = true := by decide
  have htwo : Text.isDecimalDigit '2' = true := by decide
  have hplaceholders : placeholders "wave %2 %1".toList = [2, 1] := by
    simp [placeholders, List.takeWhile, hspace, hone, htwo,
      show Number.natural? "1" = some 1 by decide, show Number.natural? "2" = some 2 by decide]
  have hplaceholders' : placeholders "do %01".toList = [1] := by
    simp [placeholders, List.takeWhile, hzero, hone, show Number.natural? "01" = some 1 by decide]
  have hfirst : Matched "wave %2 %1".toList (argsAt wavingDescriptor 0) :=
    (checkLine_eq_ok_iff 0).1 (by rw [checkLine, hplaceholders]; rfl)
  have hsecond : Matched "do %01".toList (argsAt wavingDescriptor 1) :=
    (checkLine_eq_ok_iff 1).1 (by rw [checkLine, hplaceholders']; rfl)
  have hlines : Lines wavingDescriptor 0 ["wave %2 %1", "do %01"]
      ([⟨"TIMES", .value [] "''"⟩] ++ ([⟨"DO", .statement⟩] ++ [])) :=
    .line rfl hfirst (mapM_socket?_iff.1 ⟨_, rfl, rfl⟩)
      (.line rfl hsecond (mapM_socket?_iff.1 ⟨_, rfl, rfl⟩) (.done rfl))
  obtain ⟨t, ht, -, hsockets⟩ := exists_ofJson_iff.2 ⟨⟨"wave", rfl, by decide⟩, hlines⟩
  exact ⟨t, ht, by rw [hsockets]; rfl, accepted_lines ht⟩

/-- There is no `message1`, and the placeholder of `message2` has no argument. -/
def gappedDescriptor : Json :=
  .object [
    ("args2", .array [.object [("name", .string "TIMES"), ("type", .string "input_value")]]),
    ("message0", .string "wave"),
    ("message2", .string "%5"),
    ("type", .string "wave")]

/-- **Nothing is asked of what stands behind a gap**, and it brings no socket. -/
theorem behind_gap :
    (∃ t, BlockType.ofJson gappedDescriptor = .ok t ∧ t.sockets = []) ∧
      messageAt? gappedDescriptor 2 = some "%5" ∧
      ¬ Matched "%5".toList (argsAt gappedDescriptor 2) ∧
      ∃ s, List.Forall₂ Brings
        ((argsAt gappedDescriptor 2).filter fun arg => !isLayout arg) [s] := by
  refine ⟨?_, rfl, fun h => ?_, ⟨"TIMES", .value [] "''"⟩, mapM_socket?_iff.1 ⟨_, rfl, rfl⟩⟩
  · have hplaceholders : placeholders "wave".toList = [] := by simp [placeholders]
    have hfirst : Matched "wave".toList (argsAt gappedDescriptor 0) :=
      (checkLine_eq_ok_iff 0).1 (by rw [checkLine, hplaceholders]; rfl)
    have hlines : Lines gappedDescriptor 0 ["wave"] ([] ++ []) :=
      .line rfl hfirst (mapM_socket?_iff.1 ⟨_, rfl, rfl⟩) (.done rfl)
    obtain ⟨t, ht, -, hsockets⟩ := exists_ofJson_iff.2 ⟨⟨"wave", rfl, by decide⟩, hlines⟩
    exact ⟨t, ht, hsockets⟩
  · have hdigits : ∀ c ∈ ['5'], Text.isDecimalDigit c = true :=
      List.forall_mem_singleton.2 (by decide)
    have hend : ∀ c ∈ ([] : List Char).head?, Text.isDecimalDigit c = false := by
      intro c hc
      cases hc
    obtain ⟨n, hwrites, -, hle⟩ := h.inRange ['5'] ⟨[], [], rfl, List.cons_ne_nil _ _, hdigits, hend⟩
    have hfive : 5 = n := hwrites.2.1
    have hone : n ≤ 1 := hle
    omega

end VisualBlocks
