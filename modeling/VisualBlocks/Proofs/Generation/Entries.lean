import VisualBlocks.Proofs.Generation.Bodies
import VisualBlocks.Proofs.Generation.Journal

/-!
# The journal of a tree

`BlockTree.entries g t` is the order in which the blocks of a chain come to the place of a statement:
the first block, then the chains in the inputs that hold its statements, one input after the other,
then what follows it.  It is said without any walk, and so without a set of blocks that have been
reached.  **In a tree without repetition no block comes up twice** (`nodup_entries`).
-/

set_option autoImplicit false

namespace VisualBlocks

open Generation

namespace Generation.Generator

/-- What becomes of blocks of a type in the place of a statement, by the rules. -/
def handling (g : Generator) (type : String) : Handling :=
  match g.rules.get? type with
  | some (.statement _) => .statement
  | some (.value _) => .expression
  | none => .placeholder

theorem handling_ne_cycle (g : Generator) (type : String) : g.handling type ≠ .cycle := by
  rw [handling]
  split <;> exact nofun

/-- Only a block without a rule needs a comment in its place. -/
theorem handling_ne_placeholder {g : Generator} {type : String} (h : g.knows type = true) :
    g.handling type ≠ .placeholder := by
  obtain ⟨rule, hrule⟩ := Option.isSome_iff_exists.1 h
  rw [handling, hrule]
  cases rule <;> exact nofun

/-- The inputs whose statements come with a block.  A block without a rule stays closed. -/
def sockets (g : Generator) (type : String) (mutation : Table String) : List String :=
  if g.knows type then bodySockets type mutation else []

theorem nodup_sockets (g : Generator) (type : String) (mutation : Table String) :
    (g.sockets type mutation).Nodup := by
  rw [sockets]
  split
  · exact nodup_bodySockets type mutation
  · exact .nil

end Generation.Generator

namespace BlockTree

mutual

/-- The blocks of a chain in the order in which they come to the place of a statement. -/
def entries (g : Generator) : BlockTree → List Entry
  | mk id type _ mutation inputs next =>
    ⟨id, g.handling type⟩ ::
      (((g.sockets type mutation).flatMap fun socket =>
          ((inputEntries g inputs).lookup socket).getD []) ++
        chainEntries g next)

/-- The entries of the chains in the inputs. -/
def inputEntries (g : Generator) : List (String × BlockTree) → List (String × List Entry)
  | [] => []
  | (socket, t) :: rest => (socket, t.entries g) :: inputEntries g rest

/-- The entries of a chain, if there is one. -/
def chainEntries (g : Generator) : Option BlockTree → List Entry
  | none => []
  | some t => t.entries g

end

variable {g : Generator} {t : BlockTree} {e : Entry}

/-- The entries of the bodies of a block. -/
def bodyEntries (g : Generator) (t : BlockTree) (socket : String) : List Entry :=
  chainEntries g (t.input? socket)

theorem lookup_inputEntries (inputs : List (String × BlockTree)) (socket : String) :
    ((inputEntries g inputs).lookup socket).getD [] = chainEntries g (inputs.lookup socket) := by
  induction inputs with
  | nil => rfl
  | cons e es ih =>
    obtain ⟨name, c⟩ := e
    rw [inputEntries, List.lookup_cons, List.lookup_cons]
    cases socket == name
    · exact ih
    · rfl

/-- **A chain is its first block, the bodies of the block, and what follows it.** -/
theorem entries_eq (t : BlockTree) :
    t.entries g = ⟨t.id, g.handling t.type⟩ ::
      ((g.sockets t.type t.mutation).flatMap (t.bodyEntries g) ++ chainEntries g t.next) := by
  obtain ⟨id, type, fields, mutation, inputs, next⟩ := t
  rw [entries, funext (lookup_inputEntries inputs)]
  rfl

theorem mem_chainEntries {chain : Option BlockTree} :
    e ∈ chainEntries g chain ↔ ∃ c, chain = some c ∧ e ∈ c.entries g := by
  cases chain with
  | none => exact ⟨nofun, nofun⟩
  | some c => exact ⟨fun he => ⟨c, rfl, he⟩, fun ⟨_, hc, he⟩ => Option.some.inj hc ▸ he⟩

/-! ## No block twice -/

/-- What holds of a tree if it holds of its parts holds of all trees. -/
theorem induction_parts {motive : BlockTree → Prop}
    (step : ∀ t : BlockTree, (∀ c : BlockTree, c.IsPart t → motive c) → motive t) (t : BlockTree) :
    motive t := by
  generalize hn : t.blocks.length = n
  induction n using Nat.strongRecOn generalizing t with
  | _ n ih =>
    subst hn
    exact step t fun c hc => ih _ hc.length_lt c rfl

/-- Each entry tells what becomes of a block of the tree. -/
theorem exists_block_of_mem_entries (he : e ∈ t.entries g) :
    ∃ b ∈ t.blocks, e = ⟨b.1, g.handling b.2.type⟩ := by
  induction t using induction_parts with
  | step t ih =>
    have hpart {c : BlockTree} (hc : c.IsPart t) (he : e ∈ c.entries g) :
        ∃ b ∈ t.blocks, e = ⟨b.1, g.handling b.2.type⟩ := by
      obtain ⟨b, hb, heq⟩ := ih c hc he
      exact ⟨b, hc.subset b hb, heq⟩
    rw [entries_eq, List.mem_cons, List.mem_append, List.mem_flatMap] at he
    rcases he with rfl | ⟨socket, -, he⟩ | he
    · exact ⟨_, t.self_mem_blocks, rfl⟩
    · obtain ⟨c, hc, he⟩ := mem_chainEntries.1 he
      exact hpart (isPart_input hc) he
    · obtain ⟨c, hc, he⟩ := mem_chainEntries.1 he
      exact hpart (isPart_next hc) he

theorem id_mem_of_mem_entries (he : e ∈ t.entries g) : e.id ∈ t.ids := by
  obtain ⟨b, hb, rfl⟩ := exists_block_of_mem_entries he
  exact List.mem_map_of_mem hb

theorem id_mem_of_mem_bodyEntries {socket : String} (he : e ∈ t.bodyEntries g socket) :
    e.id ∈ t.inputIds socket := by
  obtain ⟨c, hc, he⟩ := mem_chainEntries.1 he
  rw [inputIds, hc]
  exact id_mem_of_mem_entries he

theorem id_mem_of_mem_next (he : e ∈ chainEntries g t.next) : e.id ∈ t.nextIds := by
  obtain ⟨c, hc, he⟩ := mem_chainEntries.1 he
  rw [nextIds, hc]
  exact id_mem_of_mem_entries he

theorem handling_ne_cycle (he : e ∈ t.entries g) : e.handling ≠ .cycle := by
  obtain ⟨b, -, rfl⟩ := exists_block_of_mem_entries he
  exact g.handling_ne_cycle b.2.type

/-- **In a tree without repetition no block comes up twice.** -/
theorem nodup_entries (h : t.ids.Nodup) : ((t.entries g).map Entry.id).Nodup := by
  induction t using induction_parts with
  | step t ih =>
    have hchain {chain : Option BlockTree} (hpart : ∀ c, chain = some c → c.IsPart t) :
        ((chainEntries g chain).map Entry.id).Nodup := by
      cases chain with
      | none => exact .nil
      | some c => exact ih c (hpart c rfl) ((hpart c rfl).nodup h)
    have hbody {socket id : String} (hid : id ∈ (t.bodyEntries g socket).map Entry.id) :
        id ∈ t.inputIds socket := by
      obtain ⟨e, he, rfl⟩ := List.mem_map.1 hid
      exact id_mem_of_mem_bodyEntries he
    have hnext {id : String} (hid : id ∈ (chainEntries g t.next).map Entry.id) :
        id ∈ t.nextIds := by
      obtain ⟨e, he, rfl⟩ := List.mem_map.1 hid
      exact id_mem_of_mem_next he
    rw [entries_eq, List.map_cons, List.map_append, List.map_flatMap, List.nodup_cons,
      List.nodup_append, List.mem_append, List.mem_flatMap, List.nodup_flatMap]
    refine ⟨?_, ⟨fun socket _ => hchain fun c => isPart_input, ?_⟩, hchain fun c => isPart_next,
      ?_⟩
    · rintro (⟨socket, -, hid⟩ | hid)
      · exact id_not_mem_inputIds h socket (hbody hid)
      · exact id_not_mem_nextIds h (hnext hid)
    · refine (g.nodup_sockets t.type t.mutation).imp fun hne id hid hid' => ?_
      exact disjoint_inputIds h hne id (hbody hid) (hbody hid')
    · intro id hid other hother
      obtain ⟨socket, -, hid⟩ := List.mem_flatMap.1 hid
      rintro rfl
      exact disjoint_nextIds h socket id (hbody hid) (hnext hother)

end BlockTree
end VisualBlocks
