import VisualBlocks.Proofs.Text.Candidate
import VisualBlocks.Proofs.Workspace.JsonForm

/-!
# Handing out identifiers

A file is loaded block by block, each before those that hang on it (`loadedBlocks`), and every block
asks for the identifier that the file gives it, or for any one that is free.  What one block gets is
taken for all later ones (`handOut`).

**Loading depends on nothing else**: a file the blocks of which have types, identifiers that are not
empty and inputs of different names is loaded if all identifiers can be handed out, and else it is
refused because of the first one that is taken (`handsOut_roots`).  Whether a run does that is said
once for all of its parts (`HandsOut`), with a rule for runs one after the other (`HandsOut.bind`).
No connection can fail, since a block that is being filled has no parent.
-/

set_option autoImplicit false

namespace VisualBlocks
namespace Workspace

/-! ## Default identifiers -/

/-- The identifier of a block that comes without one, when these are taken. -/
def defaultId (taken : List String) : String :=
  Text.free taken (fun n => "b" ++ toString n) (taken.length + 1)

theorem freshId_eq (w : Workspace) : w.freshId = defaultId w.ids := by
  rw [freshId, defaultId, ids, List.length_map]

theorem defaultId_not_mem (taken : List String) : defaultId taken ∉ taken :=
  Text.free_not_mem taken fun _ _ _ _ => Text.append_toString_injective

theorem exists_firstFree (taken : List String) (candidate : Nat → String) (start fuel : Nat) :
    ∃ n, Text.firstFree taken candidate start fuel = candidate n := by
  induction fuel generalizing start with
  | zero => exact ⟨start, rfl⟩
  | succ fuel ih =>
    rw [Text.firstFree]
    split
    · exact ih (start + 1)
    · exact ⟨start, rfl⟩

theorem exists_defaultId (taken : List String) : ∃ n : Nat, defaultId taken = "b" ++ toString n :=
  exists_firstFree taken _ _ _

theorem defaultId_ne_empty (taken : List String) : defaultId taken ≠ "" := by
  obtain ⟨n, hn⟩ := exists_defaultId taken
  rw [hn]
  intro hempty
  have hlist := congrArg String.toList hempty
  rw [String.toList_append] at hlist
  exact List.cons_ne_nil _ _ hlist

/-- The identifiers of blocks that are made one after the other and ask for an identifier or for
none.  The first one that is taken already ends it. -/
def handOut (taken : List String) : List (Option String) → Except String (List String)
  | [] => .ok []
  | asked :: rest =>
    let id := asked.getD (defaultId taken)
    if id ∈ taken then .error id
    else (handOut (taken ++ [id]) rest).map (id :: ·)

variable {taken ids : List String} {asked more : List (Option String)}

theorem handOut_append : handOut taken (asked ++ more) =
    match handOut taken asked with
    | .error id => .error id
    | .ok ids => (handOut (taken ++ ids) more).map (ids ++ ·) := by
  induction asked generalizing taken with
  | nil =>
    rw [List.nil_append, handOut]
    simp only [List.append_nil, List.nil_append]
    cases handOut taken more <;> rfl
  | cons a asked ih =>
    rw [List.cons_append, handOut, handOut]
    split
    · rfl
    · rw [ih]
      cases handOut (taken ++ [a.getD (defaultId taken)]) asked with
      | error id => rfl
      | ok ids =>
        simp only [Except.map, List.append_assoc, List.singleton_append]
        cases handOut _ more <;> rfl

theorem handOut_nodup (htaken : taken.Nodup) (h : handOut taken asked = .ok ids) :
    (taken ++ ids).Nodup := by
  induction asked generalizing taken ids with
  | nil =>
    obtain rfl := Except.ok.inj h
    rwa [List.append_nil]
  | cons a asked ih =>
    rw [handOut] at h
    split at h
    · cases h
    · next hfree =>
      cases hrest : handOut (taken ++ [a.getD (defaultId taken)]) asked with
      | error id => rw [hrest] at h; cases h
      | ok rest =>
        rw [hrest] at h
        obtain rfl := Except.ok.inj h
        rw [List.append_cons]
        refine ih ?_ hrest
        rw [List.nodup_append]
        refine ⟨htaken, List.nodup_singleton _, fun id hid b hb => ?_⟩
        rintro rfl
        rw [List.mem_singleton] at hb
        exact hfree (hb ▸ hid)

/-! ## Runs that hand out identifiers -/

/-- The run makes blocks that ask for these identifiers.  If all are handed out it ends well, and
else it is refused because of the one that is taken. -/
def HandsOut {α : Type} (run : Except LoadError α) (taken : List String)
    (asked : List (Option String)) (post : α → List String → Prop) : Prop :=
  match handOut taken asked with
  | .ok ids => ∃ a, run = .ok a ∧ post a ids
  | .error id => run = .error (.edit (.duplicateId id))

section Run

variable {α β : Type} {run : Except LoadError α} {f : α → Except LoadError β}
  {P : α → List String → Prop} {Q : β → List String → Prop}

theorem HandsOut.mono {P' : α → List String → Prop} (h : HandsOut run taken asked P)
    (hP : ∀ a ids, P a ids → P' a ids) : HandsOut run taken asked P' := by
  rw [HandsOut] at h ⊢
  split at h
  · next ids _ =>
    obtain ⟨a, ha, hp⟩ := h
    exact ⟨a, ha, hP a ids hp⟩
  · exact h

/-- What a run makes counts as taken for the next one. -/
theorem HandsOut.bind (h : HandsOut run taken asked P) (htaken : taken.Nodup)
    (hf : ∀ a ids, P a ids → (taken ++ ids).Nodup →
      HandsOut (f a) (taken ++ ids) more fun b rest => Q b (ids ++ rest)) :
    HandsOut (run >>= f) taken (asked ++ more) Q := by
  rw [HandsOut] at h
  rw [HandsOut, handOut_append]
  cases hids : handOut taken asked with
  | error id =>
    rw [hids] at h
    rw [h]
    rfl
  | ok ids =>
    rw [hids] at h
    obtain ⟨a, rfl, hp⟩ := h
    have hrest := hf a ids hp (handOut_nodup htaken hids)
    rw [HandsOut] at hrest
    dsimp only
    cases hmore : handOut (taken ++ ids) more with
    | error id =>
      rw [hmore] at hrest
      exact hrest
    | ok rest =>
      rw [hmore] at hrest
      exact hrest

end Run

/-- A block asks for its identifier. -/
theorem handsOut_add {w : Workspace} {id : Option String} (hne : id ≠ some "") (type : String) :
    HandsOut (edited (w.add (id.getD w.freshId) type)) w.ids [id] fun w' ids =>
      ids = [id.getD w.freshId] ∧ w' = ⟨w.blocks ++ [Block.fresh (id.getD w.freshId) type]⟩ := by
  have hname : id.getD w.freshId ≠ "" := by
    cases id with
    | none =>
      rw [Option.getD_none, freshId_eq]
      exact defaultId_ne_empty _
    | some id => exact fun h => hne (congrArg some h)
  rw [HandsOut, handOut, ← freshId_eq]
  by_cases htaken : id.getD w.freshId ∈ w.ids
  · have hcontains : w.contains (id.getD w.freshId) = true := get?_isSome_iff.2 htaken
    rw [if_pos htaken, add, if_neg hname, if_pos hcontains]
    rfl
  · rw [if_neg htaken]
    exact ⟨_, by rw [add_of_free hname htaken]; rfl, rfl, rfl⟩

/-! ## Loading -/

/-- The block stands behind those that were there, without a parent, and behind it stands what hangs
on it. -/
def Appended (w : Workspace) (loaded : String × Workspace) (ids : List String) : Prop :=
  ∃ b more, loaded = (b.id, ⟨w.blocks ++ b :: more⟩) ∧ b.parent = none ∧
    (b :: more).map (·.id) = ids

/-- Loading the block hands out identifiers to it and to what hangs on it. -/
def Saved.Asks (s : Saved) (asked : List (Option String)) : Prop :=
  ∀ w : Workspace, w.ids.Nodup → HandsOut (s.load w) w.ids asked (Appended w)

section Load

variable {first last : List Block} {b : Block}

/-- A block is loaded and connected to another one, which is changed. -/
theorem handsOut_connected {s : Saved} (hs : s.Asks asked)
    (hnodup : ((first ++ b :: last).map (·.id)).Nodup) {link : Link} (change : String → Block)
    (connect : Workspace → String → Except EditError Workspace)
    (hconnect : ∀ c more, ((first ++ b :: last ++ c :: more).map (·.id)).Nodup → c.parent = none →
      connect ⟨first ++ b :: last ++ c :: more⟩ c.id =
        .ok ⟨first ++ change c.id :: last ++ { c with parent := some ⟨b.id, link⟩ } :: more⟩) :
    HandsOut (s.load ⟨first ++ b :: last⟩ >>= fun loaded => edited (connect loaded.2 loaded.1))
      ((first ++ b :: last).map (·.id)) asked fun w ids => ∃ child more,
        w = ⟨first ++ change child :: (last ++ more)⟩ ∧ more.map (·.id) = ids := by
  have hrun := hs ⟨first ++ b :: last⟩ hnodup
  rw [← List.append_nil asked]
  refine hrun.bind hnodup fun loaded ids h hids => ?_
  obtain ⟨c, more, rfl, hc, rfl⟩ := h
  have hplaced : ((first ++ b :: last ++ c :: more).map (·.id)).Nodup := by
    rw [List.map_append]
    exact hids
  dsimp only
  rw [hconnect c more hplaced hc]
  exact ⟨_, rfl, c.id, { c with parent := some ⟨b.id, link⟩ } :: more,
    by rw [List.append_assoc, List.cons_append], by rw [List.append_nil]; rfl⟩

/-- An input of a block is filled. -/
theorem handsOut_input {s : Saved} (hs : s.Asks asked)
    (hnodup : ((first ++ b :: last).map (·.id)).Nodup) (hroot : b.parent = none) {name : String}
    (hfree : b.inputs.contains name = false) :
    HandsOut ((Part.input name s).load ⟨first ++ b :: last⟩ b.id)
      ((first ++ b :: last).map (·.id)) asked fun w ids => ∃ child more,
        w = ⟨first ++ { b with inputs := b.inputs.set name child } :: (last ++ more)⟩ ∧
          more.map (·.id) = ids := by
  rw [Part.load]
  exact handsOut_connected hs hnodup (fun child => { b with inputs := b.inputs.set name child })
    (fun w child => w.connectInput b.id name child) fun _ _ hids hc =>
      connectInput_mid hids hroot hc hfree

/-- A block is hung below. -/
theorem handsOut_next {s : Saved} (hs : s.Asks asked)
    (hnodup : ((first ++ b :: last).map (·.id)).Nodup) (hroot : b.parent = none)
    (hend : b.next = none) :
    HandsOut ((Part.next s).load ⟨first ++ b :: last⟩ b.id)
      ((first ++ b :: last).map (·.id)) asked fun w ids => ∃ child more,
        w = ⟨first ++ { b with next := some child } :: (last ++ more)⟩ ∧
          more.map (·.id) = ids := by
  rw [Part.load]
  exact handsOut_connected hs hnodup (fun child => { b with next := some child })
    (fun w child => w.connectNext b.id child) fun _ _ hids hc =>
      connectNext_mid hids hroot hc hend

theorem loadParts_singleton (w : Workspace) (id : String) (p : Part) :
    loadParts w id [p] = p.load w id := by
  rw [loadParts]
  cases p.load w id <;> rfl

/-- The inputs of a block are filled one after the other. -/
theorem handsOut_inputs {names : Table String} {asked : Json → List (Option String)}
    (members : List (String × Json))
    (hnone : ∀ slot, savedIn? names slot = none → asked slot = [])
    (hsome : ∀ m ∈ members, ∀ s, savedIn? names m.2 = some s → s.Asks (asked m.2))
    (hnames : (members.map (·.1)).Nodup)
    (hnodup : ((first ++ b :: last).map (·.id)).Nodup) (hroot : b.parent = none)
    (hfree : ∀ m ∈ members, b.inputs.contains m.1 = false) :
    HandsOut (loadParts ⟨first ++ b :: last⟩ b.id
        (members.filterMap fun m => (savedIn? names m.2).map (Part.input m.1)))
      ((first ++ b :: last).map (·.id)) (members.flatMap fun m => asked m.2)
      fun w ids => ∃ inputs more, w = ⟨first ++ { b with inputs } :: (last ++ more)⟩ ∧
        more.map (·.id) = ids := by
  induction members generalizing b last with
  | nil => exact ⟨_, rfl, b.inputs, [], by rw [List.append_nil], rfl⟩
  | cons m members ih =>
    rw [List.forall_mem_cons] at hsome hfree
    rw [List.map_cons, List.nodup_cons] at hnames
    rw [List.flatMap_cons]
    cases hsaved : savedIn? names m.2 with
    | none =>
      rw [List.filterMap_cons_none (by rw [hsaved]; rfl), hnone _ hsaved]
      exact ih hsome.2 hnames.2 hnodup hroot hfree.2
    | some s =>
      rw [List.filterMap_cons_some (by rw [hsaved]; rfl), loadParts]
      have hinput := handsOut_input (hsome.1 s hsaved) hnodup hroot hfree.1
      refine hinput.bind hnodup fun w ids h hids => ?_
      obtain ⟨child, more, rfl, rfl⟩ := h
      have hblocks : (first ++ { b with inputs := b.inputs.set m.1 child } ::
          (last ++ more)).map (·.id) =
            (first ++ b :: last).map (·.id) ++ more.map (·.id) := by
        simp only [List.map_append, List.map_cons, List.append_assoc, List.cons_append]
      rw [← hblocks] at hids ⊢
      refine (ih (b := { b with inputs := b.inputs.set m.1 child }) hsome.2 hnames.2 hids hroot
        fun n hn => ?_).mono fun w ids h => ?_
      · have hne : n.1 ≠ m.1 := fun heq => hnames.1 (heq ▸ List.mem_map_of_mem hn)
        rw [Table.contains, Table.get?_set, if_neg hne]
        exact hfree.2 n hn
      · obtain ⟨inputs, rest, rfl, rfl⟩ := h
        exact ⟨inputs, more ++ rest, by rw [List.append_assoc], List.map_append⟩

end Load

/-! ## What is loaded -/

/-- The object of the block in a connection. -/
def heldIn? (slot : Json) : Option Json := (connected? slot).map fun c => c.2.1

/-- The objects of a block and of all that hangs on it, in the order in which they are loaded. -/
def loadedBlocks (j : Json) : List Json :=
  j :: ((membersAt j "inputs").attach.flatMap fun ⟨m, _⟩ =>
      (connected? m.2).toList.flatMap fun ⟨_, b, _⟩ => loadedBlocks b) ++
    (match _follow : j.get? "next" with
      | none => []
      | some slot => (connected? slot).toList.flatMap fun ⟨_, b, _⟩ => loadedBlocks b)
termination_by sizeOf j
decreasing_by
  · have := sizeOf_lt_of_mem_membersAt (by assumption)
    omega
  · have := Json.sizeOf_get?_lt ‹j.get? "next" = some _›
    omega

/-- The objects in a connection. -/
def loadedIn (slot : Json) : List Json := (heldIn? slot).toList.flatMap loadedBlocks

theorem loadedBlocks_eq (j : Json) : loadedBlocks j =
    j :: ((membersAt j "inputs").flatMap fun m => loadedIn m.2) ++
      (j.get? "next").toList.flatMap loadedIn := by
  rw [loadedBlocks]
  refine congrArg₂ HAppend.hAppend (congrArg (j :: ·) ?_) ?_
  · conv => rhs; rw [← List.attach_map_subtype_val (membersAt j "inputs"), List.flatMap_map]
    refine List.flatMap_congr fun m _ => ?_
    rw [loadedIn, heldIn?, Option.toList_map, List.flatMap_map]
  · cases j.get? "next" with
    | none => rfl
    | some slot =>
      dsimp only
      rw [Option.toList_some, List.flatMap_singleton, loadedIn, heldIn?, Option.toList_map,
        List.flatMap_map]

theorem sizeOf_heldIn?_lt {slot b : Json} (h : heldIn? slot = some b) : sizeOf b < sizeOf slot := by
  obtain ⟨c, -, rfl⟩ := Option.map_eq_some_iff.1 h
  exact c.2.2

/-- The identifier that a block asks for. -/
def askedId (b : Json) : Option String := b.stringAt? "id"

/-- A block can be loaded if it has a type, its identifier is not empty, and each input has a name
of its own. -/
structure Loadable (b : Json) : Prop where
  typed : (b.stringAt? "type").isSome
  ne_empty : askedId b ≠ some ""
  names : ((membersAt b "inputs").map (·.1)).Nodup

section Json

variable {first last : List Block} {b : Block}

theorem foldl_fill (ps : List Part) (b : Block) :
    ∃ fields mutation, ps.foldl Part.fill b = { b with fields, mutation } := by
  induction ps generalizing b with
  | nil => exact ⟨b.fields, b.mutation, rfl⟩
  | cons p ps ih =>
    obtain ⟨fields, mutation, h⟩ := ih (p.fill b)
    rw [List.foldl_cons, h]
    cases p <;> exact ⟨fields, mutation, rfl⟩

theorem savedIn?_eq_none {names : Table String} {slot : Json} (h : savedIn? names slot = none) :
    (loadedIn slot).map askedId = [] := by
  rw [savedIn?, Option.map_eq_none_iff] at h
  rw [loadedIn, heldIn?, h]
  rfl

/-- The inputs are filled, and then the rest of the chain is hung below. -/
theorem handsOut_connections {names : Table String} {members : List (String × Json)}
    {next : Option Json}
    (hinputs : ∀ m ∈ members, ∀ s, savedIn? names m.2 = some s →
      s.Asks ((loadedIn m.2).map askedId))
    (hnext : ∀ slot ∈ next, ∀ s, savedIn? names slot = some s →
      s.Asks ((loadedIn slot).map askedId))
    (hnames : (members.map (·.1)).Nodup)
    (hnodup : ((first ++ b :: last).map (·.id)).Nodup) (hroot : b.parent = none)
    (hempty : b.inputs = .empty) (hend : b.next = none) :
    HandsOut (loadParts ⟨first ++ b :: last⟩ b.id
        (members.filterMap (fun m => (savedIn? names m.2).map (Part.input m.1)) ++
          (next.bind (savedIn? names)).toList.map .next))
      ((first ++ b :: last).map (·.id))
      ((members.flatMap fun m => (loadedIn m.2).map askedId) ++
        next.toList.flatMap fun slot => (loadedIn slot).map askedId)
      fun w ids => ∃ b' more, w = ⟨first ++ b' :: (last ++ more)⟩ ∧ b'.id = b.id ∧
        b'.parent = none ∧ more.map (·.id) = ids := by
  have hplug := @handsOut_inputs first last b names (fun slot => (loadedIn slot).map askedId)
    members (fun slot h => savedIn?_eq_none h) hinputs hnames hnodup hroot fun m _ => by
      rw [hempty]
      rfl
  rw [loadParts_append]
  refine hplug.bind hnodup fun w ids h hids => ?_
  obtain ⟨inputs, more, rfl, rfl⟩ := h
  have hblocks : (first ++ { b with inputs } :: (last ++ more)).map (·.id) =
      (first ++ b :: last).map (·.id) ++ more.map (·.id) := by
    simp only [List.map_append, List.map_cons, List.append_assoc, List.cons_append]
  rw [← hblocks] at hids ⊢
  have hdone : ∃ b' rest, (⟨first ++ { b with inputs } :: (last ++ more)⟩ : Workspace) =
      ⟨first ++ b' :: (last ++ rest)⟩ ∧ b'.id = b.id ∧ b'.parent = none ∧
        rest.map (·.id) = more.map (·.id) ++ [] :=
    ⟨_, more, rfl, rfl, hroot, (List.append_nil _).symm⟩
  cases hslot : next with
  | none => exact ⟨_, rfl, hdone⟩
  | some slot =>
    rw [Option.bind_some, Option.toList_some, List.flatMap_singleton]
    cases hsaved : savedIn? names slot with
    | none =>
      rw [savedIn?_eq_none hsaved]
      exact ⟨_, rfl, hdone⟩
    | some s =>
      have hhang := handsOut_next (b := { b with inputs }) (hnext slot hslot s hsaved) hids hroot
        hend
      rw [Option.toList_some, List.map_singleton, loadParts_singleton]
      refine hhang.mono fun w ids h => ?_
      obtain ⟨child, rest, rfl, rfl⟩ := h
      exact ⟨{ b with inputs, next := some child }, more ++ rest, by rw [List.append_assoc], rfl,
        hroot, List.map_append⟩

/-- A block is made, its texts are filled in, and then what hangs on it is loaded. -/
theorem handsOut_block {type : String} {id : Option String} {shadow : Bool}
    {texts parts : List Part} (hne : id ≠ some "") (htexts : ∀ p ∈ texts, p.isText = true)
    (hparts : ∀ (first : List Block) (b : Block), ((first ++ [b]).map (·.id)).Nodup →
      b.parent = none → b.inputs = .empty → b.next = none →
      HandsOut (loadParts ⟨first ++ [b]⟩ b.id parts) ((first ++ [b]).map (·.id)) asked
        fun w ids => ∃ b' more, w = ⟨first ++ b' :: more⟩ ∧ b'.id = b.id ∧ b'.parent = none ∧
          more.map (·.id) = ids) :
    (Saved.block type id shadow (texts ++ parts)).Asks ([id] ++ asked) := by
  intro w hnodup
  rw [Saved.load]
  refine (handsOut_add hne type).bind hnodup fun w' ids h hids => ?_
  obtain ⟨rfl, rfl⟩ := h
  generalize id.getD w.freshId = name at hids ⊢
  have hnew (b : Block) (hb : b.id = name) : ((w.blocks ++ [b]).map (·.id)).Nodup := by
    rw [List.map_append, List.map_singleton, hb]
    exact hids
  have hshadow : (⟨w.blocks ++ [Block.fresh name type]⟩ : Workspace).modify name
      (fun b => { b with shadow }) =
        ⟨w.blocks ++ [loading name type shadow .empty .empty .empty none]⟩ :=
    modify_mid (hnew (Block.fresh name type) rfl) _
  obtain ⟨fields, mutation, hfill⟩ :=
    foldl_fill texts (loading name type shadow .empty .empty .empty none)
  have htext : loadParts ⟨w.blocks ++ [loading name type shadow .empty .empty .empty none]⟩ name
      texts = .ok ⟨w.blocks ++ [loading name type shadow fields mutation .empty none]⟩ :=
    (loadParts_texts (hnew _ rfl) htexts).trans (hfill ▸ rfl)
  have hrun := hparts w.blocks (loading name type shadow fields mutation .empty none)
    (hnew _ rfl) rfl rfl rfl
  have hnames : (w.blocks ++ [loading name type shadow fields mutation .empty none]).map (·.id) =
      w.ids ++ [name] := List.map_append
  have hload : loadParts ⟨w.blocks ++ [loading name type shadow .empty .empty .empty none]⟩ name
      (texts ++ parts) = loadParts
        ⟨w.blocks ++ [loading name type shadow fields mutation .empty none]⟩ name parts := by
    rw [loadParts_append, htext]
    rfl
  rw [← List.append_nil asked]
  dsimp only
  rw [hshadow, hload, ← hnames]
  refine hrun.bind (hnew _ rfl) fun w' ids h _ => ?_
  obtain ⟨b', more, rfl, hid, hroot, rfl⟩ := h
  refine ⟨_, rfl, b', more, ?_, hroot, ?_⟩
  · rw [hid]
    rfl
  · rw [List.map_cons, hid, List.append_nil]
    rfl

/-- **A block that can be loaded asks for its identifier, and then what hangs on it for theirs.** -/
theorem asks_ofJson (names : Table String) (shadow : Bool) (j : Json)
    (h : ∀ b ∈ loadedBlocks j, Loadable b) :
    (Saved.ofJson names shadow j).Asks ((loadedBlocks j).map askedId) := by
  rw [loadedBlocks_eq, List.cons_append, List.forall_mem_cons, List.forall_mem_append] at h
  obtain ⟨hself, hinputs, hnext⟩ := h
  obtain ⟨type, htype⟩ := Option.isSome_iff_exists.1 hself.typed
  have hslot {slot : Json} (hlt : sizeOf slot < sizeOf j) (h : ∀ b ∈ loadedIn slot, Loadable b)
      (s : Saved) (hs : savedIn? names slot = some s) : s.Asks ((loadedIn slot).map askedId) := by
    obtain ⟨c, hc, rfl⟩ := Option.map_eq_some_iff.1 hs
    have hheld : heldIn? slot = some c.2.1 := by rw [heldIn?, hc]; rfl
    have hsmaller := sizeOf_heldIn?_lt hheld
    rw [loadedIn, hheld, Option.toList_some, List.flatMap_singleton] at h ⊢
    exact asks_ofJson names c.1 c.2.1 h
  rw [Saved.ofJson_eq, htype, loadedBlocks_eq, List.cons_append, List.map_cons]
  dsimp only
  rw [List.append_assoc]
  refine handsOut_block hself.ne_empty ?_ fun first b hnodup hroot hempty hend => ?_
  · exact List.forall_mem_append.2
      ⟨List.forall_mem_map.2 fun _ _ => rfl, List.forall_mem_map.2 fun _ _ => rfl⟩
  · have hrun := @handsOut_connections first [] b names (membersAt j "inputs") (j.get? "next")
      (fun m hm => hslot (sizeOf_lt_of_mem_membersAt hm) fun b hb =>
        hinputs b (List.mem_flatMap.2 ⟨m, hm, hb⟩))
      (fun slot hs => hslot (Json.sizeOf_get?_lt hs) fun b hb =>
        hnext b (List.mem_flatMap.2 ⟨slot, Option.mem_toList.2 hs, hb⟩))
      hself.names hnodup hroot hempty hend
    rw [← List.map_flatMap, ← List.map_flatMap, ← List.map_append] at hrun
    exact hrun
termination_by sizeOf j

/-- A block on the canvas is loaded and moved to its place. -/
theorem handsOut_root {names : Table String} {w : Workspace} {j : Json}
    (h : ∀ b ∈ loadedBlocks j, Loadable b) (hnodup : w.ids.Nodup) :
    HandsOut ((Root.ofJson names j).load w) w.ids ((loadedBlocks j).map askedId)
      fun w' ids => w'.ids = w.ids ++ ids := by
  have hload := asks_ofJson names false j h w hnodup
  rw [Root.load, ← List.append_nil ((loadedBlocks j).map askedId)]
  refine hload.bind hnodup fun loaded ids h hids => ?_
  obtain ⟨b, more, rfl, -, rfl⟩ := h
  have hplaced : ((w.blocks ++ b :: more).map (·.id)).Nodup := by
    rw [List.map_append]
    exact hids
  have hmove := change_mid hplaced fun b =>
    { b with x := (Root.ofJson names j).x, y := (Root.ofJson names j).y }
  refine ⟨_, by dsimp only; rw [setPosition, hmove]; rfl, ?_⟩
  simp only [Workspace.ids, List.append_nil, List.map_append, List.map_cons]

theorem handsOut_roots {names : Table String} {top : List Json} {w : Workspace}
    (h : ∀ b ∈ top.flatMap loadedBlocks, Loadable b) (hnodup : w.ids.Nodup) :
    HandsOut ((top.map (Root.ofJson names)).foldlM Root.load w) w.ids
      ((top.flatMap loadedBlocks).map askedId) fun w' ids => w'.ids = w.ids ++ ids := by
  induction top generalizing w with
  | nil => exact ⟨w, rfl, (List.append_nil _).symm⟩
  | cons j top ih =>
    rw [List.flatMap_cons, List.forall_mem_append] at h
    rw [List.map_cons, List.foldlM_cons, List.flatMap_cons, List.map_append]
    refine (handsOut_root h.1 hnodup).bind hnodup fun w' ids hw' hids => ?_
    rw [← hw'] at hids ⊢
    refine (ih h.2 hids).mono fun w'' rest hw'' => ?_
    rw [hw'', hw', List.append_assoc]

end Json

end Workspace
end VisualBlocks
