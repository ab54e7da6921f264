import VisualBlocks.Workspace.Basic

/-!
# Editing a workspace

The operations by which a workspace grows and changes.  Each of them either gives the changed
workspace or says why it cannot be done, and then nothing has changed.

* `add`, `setField`, `setMutation` and `setPosition` make blocks and fill them.
* `connectInput` and `connectNext` hang a block on another one.  They refuse a second parent, a
  circle and an occupied place, in that order.
* `disconnect` takes a block off its parent, with all that hangs on it.
* `remove` deletes a block with all that hangs on it.
-/

set_option autoImplicit false

namespace VisualBlocks
namespace Workspace

/-- Why an operation is refused. -/
inductive EditError where
  | emptyId
  | duplicateId (id : String)
  | unknownBlock (id : String)
  | alreadyConnected (id : String)
  | cycle (child parent : String)
  | inputTaken (input block : String)
  | nextTaken (block : String)
deriving Repr, DecidableEq, Inhabited

/-- The wording of a refusal. -/
def EditError.message : EditError → String
  | .emptyId => "Block id must not be empty."
  | .duplicateId id => "Duplicate block id '" ++ id ++ "'."
  | .unknownBlock id => "Unknown block '" ++ id ++ "'."
  | .alreadyConnected id => "Block '" ++ id ++ "' is already connected."
  | .cycle child parent =>
    "Connecting '" ++ child ++ "' under '" ++ parent ++ "' would create a cycle."
  | .inputTaken input block =>
    "Input '" ++ input ++ "' of block '" ++ block ++ "' is already connected."
  | .nextTaken block => "Block '" ++ block ++ "' already has a next block."

/-- The block with an identifier, or the refusal that there is none. -/
def find (w : Workspace) (id : String) : Except EditError Block :=
  match w.get? id with
  | some b => .ok b
  | none => .error (.unknownBlock id)

/-- Changes the block with an identifier, if there is one. -/
def modify (w : Workspace) (id : String) (f : Block → Block) : Workspace :=
  ⟨w.blocks.map fun b => if b.id == id then f b else b⟩

/-- A change that keeps the identifier keeps the list of identifiers. -/
theorem ids_modify (w : Workspace) (id : String) {f : Block → Block}
    (hf : ∀ b, (f b).id = b.id) : (w.modify id f).ids = w.ids := by
  simp only [ids, modify, List.map_map]
  refine List.map_congr_left fun b _ => ?_
  simp only [Function.comp_apply]
  split <;> simp [hf]

/-- A change that keeps the identifier is seen under that identifier only. -/
theorem get?_modify (w : Workspace) (id other : String) {f : Block → Block}
    (hf : ∀ b, (f b).id = b.id) :
    (w.modify id f).get? other = (w.get? other).map fun b => if other == id then f b else b := by
  simp only [get?, modify]
  induction w.blocks with
  | nil => rfl
  | cons b bs ih =>
    rw [List.map_cons]
    by_cases hb : b.id = other
    · subst hb
      by_cases hi : b.id = id <;> simp [hi, hf]
    · have hb' : (if b.id == id then f b else b).id ≠ other := by split <;> simp [hf, hb]
      rw [List.find?_cons_of_neg (by simpa using hb'), List.find?_cons_of_neg (by simpa using hb)]
      exact ih

/-- Changes the block with an identifier. -/
def change (w : Workspace) (id : String) (f : Block → Block) : Except EditError Workspace := do
  let _ ← w.find id
  return w.modify id f

/-! ## Making and filling blocks -/

/-- Adds a block without content. -/
def add (w : Workspace) (id type : String) : Except EditError Workspace :=
  if id = "" then .error .emptyId
  else if w.contains id then .error (.duplicateId id)
  else .ok ⟨w.blocks ++ [Block.fresh id type]⟩

/-- Sets the text of a field. -/
def setField (w : Workspace) (id name value : String) : Except EditError Workspace :=
  w.change id fun b => { b with fields := b.fields.set name value }

/-- Sets a text that describes the shape of a block. -/
def setMutation (w : Workspace) (id key value : String) : Except EditError Workspace :=
  w.change id fun b => { b with mutation := b.mutation.set key value }

/-- Moves a block. -/
def setPosition (w : Workspace) (id : String) (x y : Int) : Except EditError Workspace :=
  w.change id fun b => { b with x, y }

/-! ## Connections -/

/-- Makes sure that a block can hang on `parent` at all, and gives `parent`. -/
def checkAttach (w : Workspace) (parent child : String) : Except EditError Block := do
  let p ← w.find parent
  let c ← w.find child
  if c.parent.isSome then throw (.alreadyConnected child)
  if (w.ascent parent).contains child then throw (.cycle child parent)
  return p

/-- Plugs `child` into the named input of `parent`. -/
def connectInput (w : Workspace) (parent name child : String) : Except EditError Workspace := do
  let p ← w.checkAttach parent child
  if p.inputs.contains name then throw (.inputTaken name parent)
  return (w.modify parent fun b => { b with inputs := b.inputs.set name child }).modify child
    fun b => { b with parent := some ⟨parent, .input⟩ }

/-- Hangs `child` below `block` in its chain. -/
def connectNext (w : Workspace) (block child : String) : Except EditError Workspace := do
  let p ← w.checkAttach block child
  if p.next.isSome then throw (.nextTaken block)
  return (w.modify block fun b => { b with next := some child }).modify child
    fun b => { b with parent := some ⟨block, .next⟩ }

/-- Takes a block off the block it hangs on.  A block without a parent stays as it is. -/
def disconnect (w : Workspace) (id : String) : Except EditError Workspace := do
  let b ← w.find id
  match b.parent with
  | none => return w
  | some p =>
    (w.modify id fun b => { b with parent := none }).change p.id fun b =>
      match p.link with
      | .next => { b with next := none }
      | .input => { b with inputs := b.inputs.filterValues (· != id) }

/-! ## Deletion -/

/-- The workspace without the block of an identifier. -/
def erase (w : Workspace) (id : String) : Workspace := ⟨w.blocks.filter fun b => b.id != id⟩

/-- Only the erased block is gone. -/
theorem get?_erase (w : Workspace) (id other : String) :
    (w.erase id).get? other = if other = id then none else w.get? other := by
  simp only [get?, erase, List.find?_filter]
  split
  · next h => subst h; rw [List.find?_eq_none]; simp
  · next h =>
    congr 1
    funext b
    by_cases hb : b.id = other <;> simp [hb, h]

/-- Erasing a block that is there makes the workspace smaller. -/
theorem length_erase_lt {w : Workspace} {id : String} {b : Block} (h : w.get? id = some b) :
    (w.erase id).blocks.length < w.blocks.length := by
  have hm := List.mem_of_find?_eq_some h
  have hid := List.find?_some h
  refine Nat.lt_of_le_of_ne (List.length_filter_le _ _) fun heq => ?_
  have := List.length_filter_eq_length_iff.1 heq b hm
  simp_all

/-- Deletes blocks with all that hangs on them. -/
def eraseBelow (w : Workspace) : List String → Workspace
  | [] => w
  | id :: pending =>
    match _found : w.get? id with
    | none => w.eraseBelow pending
    | some b => (w.erase id).eraseBelow (b.below ++ pending)
termination_by pending => (w.blocks.length, pending.length)
decreasing_by
  · exact Prod.Lex.right _ (Nat.lt_succ_self _)
  · exact Prod.Lex.left _ _ (length_erase_lt (by assumption))

/-- Deletes a block with all that hangs on it. -/
def remove (w : Workspace) (id : String) : Except EditError Workspace := do
  return (← w.disconnect id).eraseBelow [id]

end Workspace
end VisualBlocks
