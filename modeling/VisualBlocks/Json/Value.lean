/-!
# JSON values

The values of the data format in which workspaces and block descriptors are saved.  Numbers without
a fraction or an exponent are kept apart from all others, since they are written back as they were.
The members of an object stand in ascending order of their names, one a name.
-/

set_option autoImplicit false

namespace VisualBlocks

/-- A JSON value. -/
inductive Json where
  | null
  | bool (b : Bool)
  | integer (n : Int)
  | float (x : Float)
  | string (s : String)
  | array (items : List Json)
  | object (members : List (String × Json))
deriving Repr, Inhabited

namespace Json

/-- The member of an object; nothing for any other value. -/
def get? : Json → String → Option Json
  | .object members, name => members.lookup name
  | _, _ => none

/-- The text of a string. -/
def string? : Json → Option String
  | .string s => some s
  | _ => none

/-- The truth value. -/
def bool? : Json → Option Bool
  | .bool b => some b
  | _ => none

/-- The items of an array. -/
def array? : Json → Option (List Json)
  | .array items => some items
  | _ => none

/-- The members of an object. -/
def object? : Json → Option (List (String × Json))
  | .object members => some members
  | _ => none

/-- A number of either kind as a float. -/
def float? : Json → Option Float
  | .integer n => some (Float.ofInt n)
  | .float x => some x
  | _ => none

/-- The text of a string member. -/
def stringAt? (j : Json) (name : String) : Option String := (j.get? name).bind string?

/-- What a list of members holds is smaller than the list. -/
theorem sizeOf_lookup_lt (members : List (String × Json)) (name : String) (j : Json)
    (h : members.lookup name = some j) : sizeOf j < sizeOf members := by
  induction members with
  | nil => simp at h
  | cons m rest ih =>
    obtain ⟨n, v⟩ := m
    rw [List.lookup_cons] at h
    split at h
    · cases h
      simp only [List.cons.sizeOf_spec, Prod.mk.sizeOf_spec]; omega
    · have := ih h
      simp only [List.cons.sizeOf_spec]; omega

/-- A member is smaller than its object. -/
theorem sizeOf_get?_lt {j k : Json} {name : String} (h : j.get? name = some k) :
    sizeOf k < sizeOf j := by
  unfold get? at h
  split at h
  · have := sizeOf_lookup_lt _ _ _ h
    simp only [object.sizeOf_spec]; omega
  · simp at h

end Json
end VisualBlocks
