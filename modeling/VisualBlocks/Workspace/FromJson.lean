import VisualBlocks.Json.Number
import VisualBlocks.Json.Reader
import VisualBlocks.Number.Binary
import VisualBlocks.Workspace.Saved

/-!
# Workspaces in JSON

A saved workspace is an object.  Its member `blocks` holds the top-level blocks, either directly or
in a member `blocks` of its own, and its member `variables` names the variables that fields refer
to.  A workspace without `blocks` is empty.

A block is an object with a `type`, and optionally an `id`, `fields`, `extraState` (the shape of
the block), `inputs` and `next`.  What hangs in an input or below a block is given as a `block`, as
a `shadow`, or as both; then the `block` counts.
-/

set_option autoImplicit false

namespace VisualBlocks
namespace Workspace

/-- The names of the variables, under their identifiers.  Of two names the later one counts. -/
def variableNames (j : Json) : Table String :=
  Table.ofList (((j.get? "variables").bind Json.array?).getD [] |>.filterMap fun v => do
    return (← v.stringAt? "id", ← v.stringAt? "name"))

/-- The text of a field.  An object stands for a variable: it carries the name, or an identifier
that has a name in the workspace, or just the identifier. -/
def fieldText (names : Table String) : Json → String
  | .string s => s
  | .bool b => if b then "TRUE" else "FALSE"
  | .object members =>
    match (Json.object members).stringAt? "name", (Json.object members).stringAt? "id" with
    | some name, _ => name
    | none, some id => (names.get? id).getD id
    | none, none => ""
  | j => (Json.numberText? j).getD ""

/-- What a member of the extra state describes about the shape of a block. -/
def mutationKey : String → String
  | "elseIfCount" => "elseif"
  | "hasElse" => "else"
  | "itemCount" => "items"
  | key => key

/-- The members of an object member; none if it is absent or no object. -/
def membersAt (j : Json) (name : String) : List (String × Json) :=
  ((j.get? name).bind Json.object?).getD []

/-- The block in a connection and whether it is a shadow. -/
def connected? (slot : Json) : Option (Bool × { b : Json // sizeOf b < sizeOf slot }) :=
  match block : slot.get? "block", shadow : slot.get? "shadow" with
  | some b, _ => some (false, ⟨b, Json.sizeOf_get?_lt block⟩)
  | none, some b => some (true, ⟨b, Json.sizeOf_get?_lt shadow⟩)
  | none, none => none

/-- What stands in a member is smaller than the value. -/
theorem sizeOf_lt_of_mem_membersAt {j : Json} {name : String} {m : String × Json}
    (h : m ∈ membersAt j name) : sizeOf m.2 < sizeOf j := by
  unfold membersAt at h
  cases hg : j.get? name with
  | none => simp [hg] at h
  | some v =>
    have hv := Json.sizeOf_get?_lt hg
    rw [hg] at h
    cases v <;> simp [Json.object?] at h
    next members =>
      have hm := List.sizeOf_lt_of_mem h
      obtain ⟨n, k⟩ := m
      simp only [Json.object.sizeOf_spec, Prod.mk.sizeOf_spec] at *
      omega

/-- The content of a block. -/
def Saved.ofJson (names : Table String) (shadow : Bool) (j : Json) : Saved :=
  match j.stringAt? "type" with
  | none => .fault .typeMissing
  | some type =>
    let fields := (membersAt j "fields").map fun m => Part.field m.1 (fieldText names m.2)
    let shape := (membersAt j "extraState").map fun m =>
      Part.mutation (mutationKey m.1) (fieldText names m.2)
    let inputs := (membersAt j "inputs").attach.filterMap fun ⟨m, _⟩ =>
      (connected? m.2).map fun ⟨shadow, b, _⟩ => Part.input m.1 (Saved.ofJson names shadow b)
    let next := match _follow : j.get? "next" with
      | none => []
      | some slot => (connected? slot).toList.map fun ⟨shadow, b, _⟩ =>
        Part.next (Saved.ofJson names shadow b)
    .block type (j.stringAt? "id") shadow (fields ++ shape ++ inputs ++ next)
termination_by sizeOf j
decreasing_by
  · have := sizeOf_lt_of_mem_membersAt (by assumption)
    omega
  · have := Json.sizeOf_get?_lt ‹j.get? "next" = some _›
    omega

/-- A coordinate: the whole part of a number, zero without a number. -/
def coordinate (j : Json) (name : String) : Int :=
  (((j.get? name).bind Json.float?).map Number.truncate).getD 0

/-- A top-level block. -/
def Root.ofJson (names : Table String) (j : Json) : Root :=
  ⟨Saved.ofJson names false j, coordinate j "x", coordinate j "y"⟩

/-- The top-level blocks of a workspace. -/
def rootsOfJson (j : Json) : Except LoadError (List Root) :=
  if j.object?.isNone then .error .notAnObject
  else
    match j.get? "blocks" with
    | none => .ok []
    | some blocks =>
      match ((blocks.get? "blocks").getD blocks).array? with
      | none => .error .noBlockArray
      | some top => .ok (top.map (Root.ofJson (variableNames j)))

/-- The workspace that a JSON value describes. -/
def ofJson (j : Json) : Except LoadError Workspace := do ofRoots (← rootsOfJson j)

/-- The workspace that a JSON text describes. -/
def ofJsonText (text : String) : Except LoadError Workspace :=
  match Json.parse text with
  | none => .error .notJson
  | some j => ofJson j

end Workspace
end VisualBlocks
