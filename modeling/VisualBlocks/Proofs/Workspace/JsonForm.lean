import VisualBlocks.Proofs.Workspace.Sorted
import VisualBlocks.Workspace.FromJson

/-!
# Canvases in JSON

The editor saves a block as an object.  What there is none of is left out, the members stand in
ascending order of their names, those for fields and inputs in the order of the sketch, and a block on
the canvas has its place besides.  How the shape of a block is written is left open: it is an object
with members of its own (`state`).

**The loader sees in that object what the sketch says** (`Sketch.ofJson_members`), in every input and
along the chain.  In a file all members stand in ascending order, so it holds the sorted sketches
(`jsonForm`).
-/

set_option autoImplicit false

namespace VisualBlocks
namespace Workspace

variable {σ : Type}

/-! ## The form -/

/-- A member that holds an object; without members of its own it is left out. -/
def group (name : String) (members : List (String × Json)) : List (String × Json) :=
  if members.isEmpty then [] else [(name, .object members)]

section Form

variable (state : σ → List (String × Json))

mutual

/-- The members of the object of a block. -/
def Sketch.members : Sketch σ → List (String × Json)
  | .block id type fields shape inputs next =>
    group "extraState" (state shape) ++
      (group "fields" (fields.map fun f => (f.1, .string f.2)) ++
        ([("id", .string id)] ++ (group "inputs" (inputMembers inputs) ++
          (nextMember next ++ [("type", .string type)]))))

/-- The object of what stands in an input or below a block. -/
def Held.json : Held σ → Json
  | .real b => .object [("block", .object b.members)]
  | .shadow s => .object [("shadow", .object s.members)]
  | .both b s => .object [("block", .object b.members), ("shadow", .object s.members)]

/-- The members for the inputs of a block. -/
def inputMembers : List (String × Held σ) → List (String × Json)
  | [] => []
  | (name, held) :: rest => (name, held.json) :: inputMembers rest

/-- The member for the chain below a block. -/
def nextMember : Option (Held σ) → List (String × Json)
  | none => []
  | some held => [("next", held.json)]

end

/-- The object of a block on the canvas. -/
def Rooted.json (r : Rooted σ) : Json :=
  .object (r.sketch.members state ++ [("x", .integer r.x), ("y", .integer r.y)])

/-- The object of a workspace. -/
def canvasJson (canvas : List (Rooted σ)) : Json :=
  .object [("blocks", .object
    [("blocks", .array (canvas.map (Rooted.json state))), ("languageVersion", .integer 0)])]

/-- What a canvas is in JSON, where an object has its members in ascending order. -/
def jsonForm (canvas : List (Rooted σ)) : Json := canvasJson state (canvas.map Rooted.sorted)

/-- What the form says of a block itself. -/
def jsonTexts (fields : List (String × String)) (shape : σ) : List Part :=
  fields.map (fun f => .field f.1 f.2) ++
    (state shape).map fun m => .mutation (mutationKey m.1) (fieldText .empty m.2)

end Form

/-! ## Reading the form -/

/-- The block in a connection. -/
def savedIn? (names : Table String) (slot : Json) : Option Saved :=
  (connected? slot).map fun c => .ofJson names c.1 c.2

/-- What the loader sees in an object. -/
theorem Saved.ofJson_eq (names : Table String) (shadow : Bool) (j : Json) :
    Saved.ofJson names shadow j =
      match j.stringAt? "type" with
      | none => .fault .typeMissing
      | some type => .block type (j.stringAt? "id") shadow
        ((membersAt j "fields").map (fun m => .field m.1 (fieldText names m.2)) ++
          (membersAt j "extraState").map
            (fun m => .mutation (mutationKey m.1) (fieldText names m.2)) ++
          (membersAt j "inputs").filterMap
            (fun m => (savedIn? names m.2).map (Part.input m.1)) ++
          ((j.get? "next").bind (savedIn? names)).toList.map .next) := by
  rw [Saved.ofJson]
  cases j.stringAt? "type" with
  | none => rfl
  | some type =>
    dsimp only
    refine congrArg (Saved.block type (j.stringAt? "id") shadow)
      (congrArg₂ HAppend.hAppend (congrArg (HAppend.hAppend _) ?inputs) ?next)
    case inputs =>
      conv => rhs; rw [← List.attach_map_subtype_val (membersAt j "inputs"), List.filterMap_map]
      refine List.filterMap_congr fun m _ => ?_
      rw [Function.comp_apply, savedIn?, Option.map_map]
      rfl
    case next =>
      cases j.get? "next" with
      | none => rfl
      | some slot =>
        rw [Option.bind_some, savedIn?, Option.toList_map, List.map_map]
        rfl

theorem lookup_group_self (name : String) (members : List (String × Json)) :
    (((group name members).lookup name).bind Json.object?).getD [] = members := by
  rw [group]
  split
  · next h => exact (List.isEmpty_iff.1 h).symm
  · rw [List.lookup_cons_self]
    rfl

theorem lookup_group_of_ne {name other : String} (h : other ≠ name)
    (members : List (String × Json)) : (group name members).lookup other = none := by
  rw [group]
  split
  · rfl
  · rw [List.lookup_cons, beq_eq_false_iff_ne.2 h]
    rfl

theorem lookup_singleton {name other : String} (j : Json) :
    [(name, j)].lookup other = if other = name then some j else none := by
  rw [List.lookup_cons]
  by_cases h : other = name
  · rw [if_pos h, beq_iff_eq.2 h]
  · rw [if_neg h, beq_eq_false_iff_ne.2 h]
    rfl

section Read

variable {state : σ → List (String × Json)} {more : List (String × Json)}

theorem lookup_nextMember (next : Option (Held σ)) (name : String) :
    (nextMember state next).lookup name =
      if name = "next" then next.map (Held.json state) else none := by
  cases next with
  | none => exact (ite_self none).symm
  | some held => exact lookup_singleton _

/-- What the loader looks for in the object of a block. -/
def wanted : List String := ["extraState", "fields", "id", "inputs", "next", "type"]

/-- The members of a block, one after the other. -/
theorem lookup_members (s : Sketch σ) (name : String) :
    (s.members state ++ more).lookup name =
      ((group "extraState" (state s.shape)).lookup name).or
        (((group "fields" (s.fields.map fun f => (f.1, .string f.2))).lookup name).or
          ((if name = "id" then some (.string s.id) else none).or
            (((group "inputs" (inputMembers state s.inputs)).lookup name).or
              ((if name = "next" then s.next.map (Held.json state) else none).or
                ((if name = "type" then some (.string s.type) else none).or
                  (more.lookup name)))))) := by
  obtain ⟨id, type, fields, shape, inputs, next⟩ := s
  simp only [Sketch.members, List.append_assoc, List.lookup_append, lookup_singleton,
    lookup_nextMember, Sketch.shape, Sketch.fields, Sketch.id, Sketch.inputs, Sketch.next, Sketch.type]

/-- The members of a block are found in its object, whatever else stands there. -/
theorem Sketch.ofJson_object (names : Table String) (shadow : Bool) (s : Sketch σ)
    {more : List (String × Json)} (hmore : ∀ name ∈ wanted, more.lookup name = none) :
    Saved.ofJson names shadow (.object (s.members state ++ more)) =
      .block s.type (some s.id) shadow
        (s.fields.map (fun f => .field f.1 f.2) ++
          (state s.shape).map (fun m => .mutation (mutationKey m.1) (fieldText names m.2)) ++
          (inputMembers state s.inputs).filterMap
            (fun m => (savedIn? names m.2).map (Part.input m.1)) ++
          (s.next.bind fun held => savedIn? names (held.json state)).toList.map .next) := by
  have hfind (name : String) : (Json.object (s.members state ++ more)).get? name =
      (s.members state ++ more).lookup name := rfl
  simp only [wanted, List.forall_mem_cons] at hmore
  rw [Saved.ofJson_eq]
  simp only [Json.stringAt?, membersAt, hfind, lookup_members, hmore, lookup_group_of_ne, ne_eq,
    String.reduceEq, not_false_eq_true, if_false, if_true, Option.none_or, Option.or_none,
    lookup_group_self, Option.bind_some, Json.string?, List.map_map,
    Option.bind_map]
  rfl

mutual

/-- **The loader sees in an object what the sketch says.** -/
theorem Sketch.ofJson_members (shadow : Bool) : (s : Sketch σ) → (more : List (String × Json)) →
    (hmore : ∀ name ∈ wanted, more.lookup name = none) →
    Saved.ofJson .empty shadow (.object (s.members state ++ more)) =
      s.saved (jsonTexts state) shadow
  | .block id type fields shape inputs next, _, hmore => by
    rw [Sketch.ofJson_object _ _ _ hmore, Sketch.saved, jsonTexts]
    have hinputs := filterMap_inputMembers inputs
    have hnext := bind_nextMember next
    simp only [Sketch.type, Sketch.id, Sketch.fields, Sketch.shape, Sketch.inputs, Sketch.next,
      hinputs, hnext, List.append_assoc]

theorem Held.savedIn?_json : (held : Held σ) →
    savedIn? .empty (held.json state) = some (held.saved (jsonTexts state))
  | .real b => by
    have h := b.ofJson_members false [] fun _ _ => rfl
    rw [List.append_nil] at h
    exact congrArg some h
  | .shadow s => by
    have h := s.ofJson_members true [] fun _ _ => rfl
    rw [List.append_nil] at h
    exact congrArg some h
  | .both b _ => by
    have h := b.ofJson_members false [] fun _ _ => rfl
    rw [List.append_nil] at h
    exact congrArg some h

theorem filterMap_inputMembers : (inputs : List (String × Held σ)) →
    (inputMembers state inputs).filterMap (fun m => (savedIn? .empty m.2).map (Part.input m.1)) =
      inputParts (jsonTexts state) inputs
  | [] => rfl
  | (name, held) :: rest => by
    rw [inputMembers, inputParts, List.filterMap_cons, held.savedIn?_json,
      ← filterMap_inputMembers rest]
    rfl

theorem bind_nextMember : (next : Option (Held σ)) →
    (next.bind fun held => savedIn? .empty (held.json state)).toList.map Part.next =
      nextParts (jsonTexts state) next
  | none => rfl
  | some held => by
    rw [Option.bind_some, held.savedIn?_json]
    rfl

end

/-- The members of a block leave the names of a place free. -/
theorem coordinate_json (r : Rooted σ) :
    coordinate (r.json state) "x" = Number.truncate (Float.ofInt r.x) ∧
      coordinate (r.json state) "y" = Number.truncate (Float.ofInt r.y) := by
  have hfind (name : String) : (r.json state).get? name = (r.sketch.members state ++
      [("x", Json.integer r.x), ("y", Json.integer r.y)]).lookup name := rfl
  constructor
  all_goals
    rw [coordinate, hfind, lookup_members, lookup_group_of_ne (by decide),
      lookup_group_of_ne (by decide), lookup_group_of_ne (by decide)]
    rfl

theorem rootOfJson_json (r : Rooted σ) :
    Root.ofJson .empty (r.json state) = r.asRead.root (jsonTexts state) := by
  have hplace : ∀ name ∈ wanted,
      [("x", Json.integer r.x), ("y", .integer r.y)].lookup name = none := by
    intro name hname
    have hne : name ≠ "x" ∧ name ≠ "y" := by
      revert name
      decide
    rw [List.lookup_cons, beq_eq_false_iff_ne.2 hne.1, List.lookup_cons,
      beq_eq_false_iff_ne.2 hne.2]
    rfl
  rw [Root.ofJson, (coordinate_json r).1, (coordinate_json r).2, Rooted.json,
    r.sketch.ofJson_members false _ hplace]
  rfl

/-- **The loader sees in the object of a canvas its sketches, at the places as they are read.** -/
theorem rootsOfJson_canvasJson (canvas : List (Rooted σ)) :
    rootsOfJson (canvasJson state canvas) =
      .ok ((canvas.map Rooted.asRead).map (Rooted.root (jsonTexts state))) := by
  have hroots : (canvas.map (Rooted.json state)).map (Root.ofJson .empty) =
      (canvas.map Rooted.asRead).map (Rooted.root (jsonTexts state)) := by
    rw [List.map_map, List.map_map]
    exact List.map_congr_left fun r _ => rootOfJson_json r
  rw [← hroots]
  rfl

/-- **Loading a canvas in JSON makes the blocks of the sorted canvas.** -/
theorem ofJson_jsonForm {mutation : σ → Table String} (htexts : Texts (jsonTexts state) mutation)
    {canvas : List (Rooted σ)} (hlegal : Legal canvas) :
    ofJson (jsonForm state canvas) =
      .ok ⟨(placedOn ((canvas.map Rooted.asRead).map Rooted.sorted)).map
        (Placed.block mutation)⟩ := by
  rw [jsonForm, ofJson, rootsOfJson_canvasJson, map_asRead_sorted,
    ← ofRoots_canvas htexts hlegal.asRead.sorted]
  rfl

end Read

end Workspace
end VisualBlocks
