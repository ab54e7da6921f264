import Mathlib.Data.List.Nodup
import VisualBlocks.Schema.Registry

/-!
# Registration

A registry is filled by calls, each with a batch of types or with a text that declares one.  Whatever
calls there have been (`registration_history`):

* the types have different names, no type has two sockets of one name, and every look-up tells what
  the list of the types tells;
* **a batch is taken as a whole or not at all**: exactly if all of it can be read and nothing in it is
  there already or twice, and then it stands behind the types that were there, which stay as they are.

A registry is kept in two pieces, the row of its types and the place of each name in the row
(`Shelf`).  The pieces are changed one after the other, type by type, and what has been changed
before a fault would stay changed.  They say the same after all calls, because all of a batch is
looked through before the first of its types is put down (`Shelf.Shows.register`).
-/

set_option autoImplicit false

namespace VisualBlocks

/-- All of a list can be read if each part can. -/
theorem mapM_eq_ok_iff {α β ε : Type} {f : α → Except ε β} {as : List α} {bs : List β} :
    as.mapM f = .ok bs ↔ List.Forall₂ (fun a b => f a = .ok b) as bs := by
  induction as generalizing bs with
  | nil =>
    rw [List.mapM_nil, List.forall₂_nil_left_iff]
    exact ⟨fun h => (Except.ok.inj h).symm, fun h => congrArg _ h.symm⟩
  | cons a as ih =>
    rw [List.mapM_cons, List.forall₂_cons_left_iff]
    cases ha : f a with
    | error e => exact ⟨nofun, fun ⟨_, _, h, _⟩ => nomatch h⟩
    | ok b =>
      cases has : as.mapM f with
      | error e =>
        refine ⟨nofun, fun ⟨_, cs, _, hcs, _⟩ => ?_⟩
        rw [ih.2 hcs] at has
        cases has
      | ok cs =>
        refine ⟨fun h => ⟨b, cs, rfl, ih.1 has, (Except.ok.inj h).symm⟩, ?_⟩
        rintro ⟨b', cs', hb, hcs, rfl⟩
        obtain rfl := Except.ok.inj hb
        obtain rfl := Except.ok.inj (has.symm.trans (ih.2 hcs))
        rfl

namespace Registry

variable {r r' : Registry} {batch : List BlockType}

/-! ## Batches -/

/-- The names of the types are different, and so are those of the sockets of each type. -/
structure Consistent (r : Registry) : Prop where
  names : (r.types.map (·.name)).Nodup
  sockets : ∀ t ∈ r.types, (t.sockets.map (·.name)).Nodup

/-- Can a batch stand behind the types of a registry?  None of its types may be there already, or
twice in the batch, and none may have two sockets of one name. -/
structure Fits (r : Registry) (batch : List BlockType) : Prop where
  fresh : ∀ t ∈ batch, r.contains t.name = false
  names : (batch.map (·.name)).Nodup
  sockets : ∀ t ∈ batch, (t.sockets.map (·.name)).Nodup

theorem contains_iff {name : String} :
    r.contains name = true ↔ ∃ t ∈ r.types, t.name = name := by
  rw [contains, get?, List.find?_isSome]
  simp only [beq_iff_eq]

theorem contains_eq_false_iff {name : String} :
    r.contains name = false ↔ name ∉ r.types.map (·.name) := by
  rw [← Bool.not_eq_true, contains_iff, List.mem_map]

theorem firstRepeated?_eq_none_iff {seen names : List String} :
    firstRepeated? seen names = none ↔ names.Nodup ∧ ∀ n ∈ names, n ∉ seen := by
  induction names generalizing seen with
  | nil => simp [firstRepeated?]
  | cons n ns ih =>
    rw [firstRepeated?, List.nodup_cons, List.forall_mem_cons]
    split
    · next hseen => exact ⟨nofun, fun h => absurd (List.contains_iff_mem.1 hseen) h.2.1⟩
    · next hseen =>
      have hn : n ∉ seen := fun hmem => hseen (List.contains_iff_mem.2 hmem)
      rw [ih]
      constructor
      · rintro ⟨hnodup, hapart⟩
        refine ⟨⟨fun hmem => hapart n hmem List.mem_cons_self, hnodup⟩, hn, fun m hm hold => ?_⟩
        exact hapart m hm (List.mem_cons_of_mem _ hold)
      · rintro ⟨⟨hnew, hnodup⟩, -, hapart⟩
        refine ⟨hnodup, fun m hm hold => ?_⟩
        rcases List.mem_cons.1 hold with rfl | hold
        · exact hnew hm
        · exact hapart m hm hold

/-- The check goes through if no name is taken, or comes up twice. -/
theorem checkBatch_eq_ok_iff {taken : List String} :
    checkBatch taken batch = .ok () ↔ (batch.map (·.name)).Nodup ∧
      (∀ t ∈ batch, t.name ∉ taken) ∧ ∀ t ∈ batch, (t.sockets.map (·.name)).Nodup := by
  induction batch generalizing taken with
  | nil => simp [checkBatch]
  | cons t ts ih =>
    rw [checkBatch, List.map_cons, List.nodup_cons, List.forall_mem_cons, List.forall_mem_cons]
    split
    · next htaken =>
      exact ⟨nofun, fun h => absurd (List.contains_iff_mem.1 htaken) h.2.1.1⟩
    · next htaken =>
      have ht : t.name ∉ taken := fun hmem => htaken (List.contains_iff_mem.2 hmem)
      cases hrepeated : firstRepeated? [] (t.sockets.map (·.name)) with
      | some socket =>
        refine ⟨nofun, fun h => ?_⟩
        rw [firstRepeated?_eq_none_iff.2 ⟨h.2.2.1, fun _ _ => List.not_mem_nil⟩] at hrepeated
        cases hrepeated
      | none =>
        have hsockets := (firstRepeated?_eq_none_iff.1 hrepeated).1
        simp only [ih, List.mem_cons, not_or, List.mem_map, not_exists, not_and]
        constructor
        · rintro ⟨hnodup, hapart, hrest⟩
          exact ⟨⟨fun s hs => (hapart s hs).1, hnodup⟩, ⟨ht, fun s hs => (hapart s hs).2⟩,
            hsockets, hrest⟩
        · rintro ⟨⟨hnew, hnodup⟩, ⟨-, hapart⟩, -, hrest⟩
          exact ⟨hnodup, fun s hs => ⟨hnew s hs, hapart s hs⟩, hrest⟩

/-- **A batch is registered exactly if it fits**, and then it stands behind the other types. -/
theorem register_eq_ok_iff : r.register batch = .ok r' ↔ r.Fits batch ∧ r' = ⟨r.types ++ batch⟩ := by
  have hfits : r.Fits batch ↔ checkBatch (r.types.map (·.name)) batch = .ok () := by
    rw [checkBatch_eq_ok_iff]
    refine ⟨fun h => ⟨h.names, fun t ht => ?_, h.sockets⟩, fun h => ⟨fun t ht => ?_, h.1, h.2.2⟩⟩
    · exact contains_eq_false_iff.1 (h.fresh t ht)
    · exact contains_eq_false_iff.2 (h.2.1 t ht)
  rw [register, hfits]
  cases checkBatch (r.types.map (·.name)) batch with
  | error e => exact ⟨nofun, fun h => nomatch h.1⟩
  | ok u => exact ⟨fun h => ⟨rfl, (Except.ok.inj h).symm⟩, fun h => congrArg _ h.2.symm⟩

/-- **With a batch that fits a registry stays consistent.** -/
theorem Consistent.append (h : r.Consistent) (hfits : r.Fits batch) :
    (⟨r.types ++ batch⟩ : Registry).Consistent where
  names := by
    rw [List.map_append, List.nodup_append]
    refine ⟨h.names, hfits.names, fun n hn m hm hnm => ?_⟩
    obtain ⟨t, ht, rfl⟩ := List.mem_map.1 hm
    exact contains_eq_false_iff.1 (hfits.fresh t ht) (hnm ▸ hn)
  sockets := List.forall_mem_append.2 ⟨h.sockets, hfits.sockets⟩

/-! ## Look-ups -/

/-- Every look-up tells what the list of the types tells. -/
structure Answers (r : Registry) : Prop where
  get? (name : String) (t : BlockType) : r.get? name = some t ↔ t ∈ r.types ∧ t.name = name
  contains (name : String) : r.contains name = true ↔ ∃ t ∈ r.types, t.name = name
  socketNames? (name : String) (names : List String) :
    r.socketNames? name = some names ↔
      ∃ t ∈ r.types, t.name = name ∧ t.sockets.map (·.name) = names

theorem Consistent.get?_eq_some_iff (h : r.Consistent) {name : String} {t : BlockType} :
    r.get? name = some t ↔ t ∈ r.types ∧ t.name = name := by
  rw [get?]
  constructor
  · intro hget
    have hfound := List.find?_some hget
    exact ⟨List.mem_of_find?_eq_some hget, beq_iff_eq.1 hfound⟩
  · rintro ⟨ht, rfl⟩
    obtain ⟨u, hu⟩ := Option.isSome_iff_exists.1 (contains_iff.2 ⟨t, ht, rfl⟩)
    rw [get?] at hu
    have hfound := List.find?_some hu
    rw [hu, List.inj_on_of_nodup_map h.names (List.mem_of_find?_eq_some hu) ht
      (beq_iff_eq.1 hfound)]

theorem Consistent.answers (h : r.Consistent) : r.Answers where
  get? _ _ := h.get?_eq_some_iff
  contains _ := contains_iff
  socketNames? name names := by
    rw [socketNames?, Option.map_eq_some_iff]
    simp only [h.get?_eq_some_iff, and_assoc]

/-! ## Calls -/

/-- A call that registers types. -/
inductive Call where
  | types (batch : List BlockType)
  | text (source : String)

namespace Call

/-- What comes of the call. -/
def apply (r : Registry) : Call → Except DeclarationError Registry
  | .types batch => r.register batch
  | .text source => r.registerJson source

/-- The batch of a call, if all of it can be read: a text is an array of descriptors of types, or
one such descriptor. -/
inductive Brings : Call → List BlockType → Prop
  | types (batch : List BlockType) : Brings (.types batch) batch
  | array {source : String} {items : List Json} {batch : List BlockType}
      (hsource : Json.parse source = some (.array items))
      (hitems : List.Forall₂ (fun item t => BlockType.ofJson item = .ok t) items batch) :
      Brings (.text source) batch
  | single {source : String} {members : List (String × Json)} {t : BlockType}
      (hsource : Json.parse source = some (.object members))
      (ht : BlockType.ofJson (.object members) = .ok t) : Brings (.text source) [t]

end Call

/-- A text declares types exactly if all of it can be read. -/
theorem readDescriptors_eq_ok_iff {source : String} :
    readDescriptors source = .ok batch ↔ (Call.text source).Brings batch := by
  constructor
  · intro h
    rw [readDescriptors] at h
    split at h
    · cases h
    · next items hsource => exact .array hsource (mapM_eq_ok_iff.1 h)
    · next members hsource =>
      obtain ⟨t, ts, ht, hts, rfl⟩ := List.forall₂_cons_left_iff.1 (mapM_eq_ok_iff.1 h)
      obtain rfl := List.forall₂_nil_left_iff.1 hts
      exact .single hsource ht
    · cases h
  · rintro (_ | ⟨hsource, hitems⟩ | ⟨hsource, ht⟩)
    · rw [readDescriptors, hsource]
      exact mapM_eq_ok_iff.2 hitems
    · rw [readDescriptors, hsource]
      exact mapM_eq_ok_iff.2 (.cons ht .nil)

/-- **A call succeeds exactly if its batch can be read and fits.** -/
theorem Call.apply_eq_ok_iff {c : Call} :
    c.apply r = .ok r' ↔ ∃ batch, c.Brings batch ∧ r.Fits batch ∧ r' = ⟨r.types ++ batch⟩ := by
  cases c with
  | types batch =>
    rw [Call.apply, register_eq_ok_iff]
    exact ⟨fun h => ⟨batch, .types batch, h⟩, fun ⟨_, .types _, h⟩ => h⟩
  | text source =>
    rw [Call.apply, registerJson]
    cases hread : readDescriptors source with
    | error e =>
      refine ⟨nofun, fun ⟨_, hbrings, _⟩ => ?_⟩
      rw [readDescriptors_eq_ok_iff.2 hbrings] at hread
      cases hread
    | ok batch =>
      refine register_eq_ok_iff.trans ⟨fun h => ⟨batch, readDescriptors_eq_ok_iff.1 hread, h⟩, ?_⟩
      rintro ⟨other, hbrings, h⟩
      obtain rfl := Except.ok.inj (hread.symm.trans (readDescriptors_eq_ok_iff.2 hbrings))
      exact h

/-- The registry after a call, which is the one before it if the call is refused. -/
def perform (r : Registry) (c : Call) : Registry :=
  match c.apply r with
  | .ok r' => r'
  | .error _ => r

/-- The registry after some calls on a new one. -/
def ofCalls (calls : List Call) : Registry := calls.foldl perform empty

theorem ofCalls_append (calls more : List Call) :
    ofCalls (calls ++ more) = more.foldl perform (ofCalls calls) := List.foldl_append

/-- A call leaves a registry as it is, or puts a batch that fits behind its types. -/
theorem perform_cases (r : Registry) (c : Call) :
    r.perform c = r ∨ ∃ batch, r.Fits batch ∧ r.perform c = ⟨r.types ++ batch⟩ := by
  rw [perform]
  split
  · next h =>
    obtain ⟨batch, -, hfits, rfl⟩ := Call.apply_eq_ok_iff.1 h
    exact .inr ⟨batch, hfits, rfl⟩
  · exact .inl rfl

theorem Consistent.perform (h : r.Consistent) (c : Call) : (r.perform c).Consistent := by
  rcases r.perform_cases c with heq | ⟨batch, hfits, heq⟩
  · rw [heq]
    exact h
  · rw [heq]
    exact h.append hfits

theorem prefix_perform (r : Registry) (c : Call) : r.types <+: (r.perform c).types := by
  rcases r.perform_cases c with heq | ⟨batch, -, heq⟩
  · exact heq.symm ▸ List.prefix_rfl
  · rw [heq]
    exact List.prefix_append _ _

theorem Consistent.foldl (h : r.Consistent) (calls : List Call) :
    (calls.foldl Registry.perform r).Consistent := by
  induction calls generalizing r with
  | nil => exact h
  | cons c cs ih => exact ih (h.perform c)

/-- **The types that are there stay there**, each in its place. -/
theorem prefix_foldl (r : Registry) (calls : List Call) :
    r.types <+: (calls.foldl perform r).types := by
  induction calls generalizing r with
  | nil => exact List.prefix_rfl
  | cons c cs ih => exact (r.prefix_perform c).trans (ih (r.perform c))

theorem consistent_empty : empty.Consistent := ⟨List.nodup_nil, nofun⟩

theorem consistent_ofCalls (calls : List Call) : (ofCalls calls).Consistent :=
  consistent_empty.foldl calls

end Registry

/-! ## The row and the places -/

/-- A registry as it is kept: its types in a row, and the place in the row under each name. -/
structure Shelf where
  row : List BlockType
  places : Table Nat

namespace Shelf

open Registry (Call)

variable {s : Shelf} {r : Registry} {batch : List BlockType}

/-- The shelf without types. -/
def empty : Shelf := ⟨[], .empty⟩

/-- The type at the place that stands under a name. -/
def get? (s : Shelf) (name : String) : Option BlockType := (s.places.get? name).bind (s.row[·]?)

/-- Is there a place under the name? -/
def contains (s : Shelf) (name : String) : Bool := s.places.contains name

/-- The names of the sockets of a type. -/
def socketNames? (s : Shelf) (name : String) : Option (List String) :=
  (s.get? name).map fun t => t.sockets.map (·.name)

/-- Looks through a batch, given the names that have come up in it. -/
def check (s : Shelf) (seen : List String) : List BlockType → Except DeclarationError Unit
  | [] => .ok ()
  | t :: ts =>
    if s.contains t.name || seen.contains t.name then .error ⟨some t.name, .alreadyRegistered⟩
    else
      match Registry.firstRepeated? [] (t.sockets.map (·.name)) with
      | some socket => .error ⟨some t.name, .repeatedSocket socket⟩
      | none => s.check (t.name :: seen) ts

/-- Puts a type down: its place is noted, and then it stands there. -/
def put (s : Shelf) (t : BlockType) : Shelf :=
  { row := s.row ++ [t], places := s.places.set t.name s.row.length }

/-- Registers a batch.  What has been put down before a fault stays. -/
def register (batch : List BlockType) : ExceptT DeclarationError (StateM Shelf) Unit := do
  MonadExcept.ofExcept ((← get).check [] batch)
  batch.forM fun t => modify (·.put t)

/-- Does a call. -/
def call : Call → ExceptT DeclarationError (StateM Shelf) Unit
  | .types batch => register batch
  | .text source => do register (← MonadExcept.ofExcept (Registry.readDescriptors source))

/-- The shelf after some calls on a new one. -/
def ofCalls (calls : List Call) : Shelf := calls.foldl (fun s c => ((call c).run s).2) empty

/-- The row holds the types of the registry, and under each name stands the place where it is. -/
structure Shows (s : Shelf) (r : Registry) : Prop where
  row : s.row = r.types
  places (name : String) : s.places.get? name = r.types.findIdx? fun t => t.name == name

namespace Shows

theorem get? (h : s.Shows r) (name : String) : s.get? name = r.get? name := by
  rw [Shelf.get?, h.places, h.row, Registry.get?, List.find?_eq_bind_findIdx?_getElem?]

theorem contains (h : s.Shows r) (name : String) : s.contains name = r.contains name := by
  rw [Shelf.contains, Table.contains, h.places, List.findIdx?_isSome, Registry.contains,
    Registry.get?, List.isSome_find?]

theorem socketNames? (h : s.Shows r) (name : String) :
    s.socketNames? name = r.socketNames? name := by
  rw [Shelf.socketNames?, h.get?, Registry.socketNames?]

/-- The names in the index and those of the batch so far are the names taken. -/
theorem check (h : s.Shows r) (seen : List String) (batch : List BlockType) :
    s.check seen batch = Registry.checkBatch (seen ++ r.types.map (·.name)) batch := by
  induction batch generalizing seen with
  | nil => rfl
  | cons t ts ih =>
    have htaken : (s.contains t.name || seen.contains t.name) =
        (seen ++ r.types.map (·.name)).contains t.name := by
      rw [h.contains, Bool.eq_iff_iff, Bool.or_eq_true, List.contains_iff_mem,
        List.contains_iff_mem, List.mem_append, Registry.contains_iff, List.mem_map, or_comm]
    rw [Shelf.check, Registry.checkBatch, htaken]
    split
    · rfl
    · cases Registry.firstRepeated? [] (t.sockets.map (·.name)) with
      | some socket => rfl
      | none => exact ih (t.name :: seen)

/-- A new type is put down at the end, and its place is that end. -/
theorem put (h : s.Shows r) {t : BlockType} (hnew : r.contains t.name = false) :
    (s.put t).Shows ⟨r.types ++ [t]⟩ where
  row := by rw [Shelf.put, h.row]
  places name := by
    rw [Shelf.put, Table.get?_set, h.places, h.row, List.findIdx?_append, List.findIdx?_singleton]
    by_cases hname : name = t.name
    · subst hname
      have hnone : (r.types.findIdx? fun u => u.name == t.name) = none := by
        rw [List.findIdx?_eq_none_iff]
        intro u hu
        exact beq_false_of_ne fun heq =>
          Registry.contains_eq_false_iff.1 hnew (List.mem_map.2 ⟨u, hu, heq⟩)
      rw [if_pos rfl, hnone, beq_self_eq_true, if_pos rfl]
      simp
    · rw [if_neg hname, beq_false_of_ne (Ne.symm hname)]
      simp

/-- The types of a batch that fits are put down one after the other. -/
theorem foldl_put (h : s.Shows r) (hfits : r.Fits batch) :
    (batch.foldl Shelf.put s).Shows ⟨r.types ++ batch⟩ := by
  induction batch generalizing s r with
  | nil => rwa [List.append_nil]
  | cons t ts ih =>
    obtain ⟨hfresh, hnames, hsockets⟩ := hfits
    rw [List.forall_mem_cons] at hfresh hsockets
    rw [List.map_cons, List.nodup_cons] at hnames
    rw [List.append_cons]
    refine ih (h.put hfresh.1) ⟨fun u hu => ?_, hnames.2, hsockets.2⟩
    rw [Registry.contains_eq_false_iff, List.map_append, List.mem_append, not_or]
    refine ⟨Registry.contains_eq_false_iff.1 (hfresh.2 u hu), fun hmem => hnames.1 ?_⟩
    exact List.mem_map.2 ⟨u, hu, List.mem_singleton.1 hmem⟩

theorem run_forM (batch : List BlockType) (s : Shelf) :
    (batch.forM fun t => modify (·.put t) : ExceptT DeclarationError (StateM Shelf) Unit).run s =
      (.ok (), batch.foldl Shelf.put s) := by
  induction batch generalizing s with
  | nil => rfl
  | cons t ts ih => exact ih (s.put t)

/-- The batch is looked through, and if nothing is wrong with it its types are put down. -/
theorem run_register (batch : List BlockType) (s : Shelf) :
    (Shelf.register batch).run s =
      match s.check [] batch with
      | .ok _ => (.ok (), batch.foldl Shelf.put s)
      | .error e => (.error e, s) := by
  rw [← run_forM]
  show (do MonadExcept.ofExcept (s.check [] batch); batch.forM fun t => modify (·.put t) :
    ExceptT DeclarationError (StateM Shelf) Unit).run s = _
  cases s.check [] batch with
  | ok u => rfl
  | error e => rfl

/-- **Registering on the shelf does what it does in the registry**, and a batch that is refused has
touched nothing. -/
theorem register (h : s.Shows r) (batch : List BlockType) :
    match r.register batch with
    | .ok r' => ∃ s', (Shelf.register batch).run s = (.ok (), s') ∧ s'.Shows r'
    | .error e => (Shelf.register batch).run s = (.error e, s) := by
  have hcheck := h.check [] batch
  rw [List.nil_append] at hcheck
  rw [run_register, hcheck, Registry.register]
  cases hchecked : Registry.checkBatch (r.types.map (·.name)) batch with
  | ok u =>
    have hfits : r.Fits batch :=
      (Registry.register_eq_ok_iff.1 (by rw [Registry.register, hchecked]; rfl)).1
    exact ⟨_, rfl, h.foldl_put hfits⟩
  | error e => rfl

theorem call (h : s.Shows r) (c : Call) :
    match c.apply r with
    | .ok r' => ∃ s', (Shelf.call c).run s = (.ok (), s') ∧ s'.Shows r'
    | .error e => (Shelf.call c).run s = (.error e, s) := by
  cases c with
  | types batch => exact h.register batch
  | text source =>
    have hrun : (Shelf.call (.text source)).run s =
        match Registry.readDescriptors source with
        | .ok batch => (Shelf.register batch).run s
        | .error e => (.error e, s) := by
      show (do Shelf.register (← MonadExcept.ofExcept (Registry.readDescriptors source)) :
        ExceptT DeclarationError (StateM Shelf) Unit).run s = _
      cases Registry.readDescriptors source with
      | ok batch => rfl
      | error e => rfl
    rw [hrun, Call.apply, Registry.registerJson]
    cases Registry.readDescriptors source with
    | ok batch => exact h.register batch
    | error e => rfl

/-- A call takes both to what still is the same. -/
theorem perform (h : s.Shows r) (c : Call) : ((Shelf.call c).run s).2.Shows (r.perform c) := by
  have hcall := h.call c
  rw [Registry.perform]
  cases happly : c.apply r with
  | ok r' =>
    rw [happly] at hcall
    obtain ⟨s', hrun, hshows⟩ := hcall
    rwa [hrun]
  | error e =>
    rw [happly] at hcall
    have hrun : (Shelf.call c).run s = (.error e, s) := hcall
    rwa [hrun]

theorem foldl (h : s.Shows r) (calls : List Call) :
    (calls.foldl (fun s c => ((Shelf.call c).run s).2) s).Shows (calls.foldl Registry.perform r) := by
  induction calls generalizing s r with
  | nil => exact h
  | cons c cs ih => exact ih (h.perform c)

end Shows

theorem shows_ofCalls (calls : List Call) : (ofCalls calls).Shows (Registry.ofCalls calls) :=
  Shows.foldl ⟨rfl, fun _ => rfl⟩ calls

end Shelf

namespace Registry

/-- **The history of a registry.**  After any calls on a new registry:

1. the types have different names, and those of the sockets of each are different,
2. every look-up tells what the list of the types tells,
3. the row and the places it is kept in show just this registry, and so answer every look-up alike,
4. more calls leave each type as it is and where it is,
5. a call succeeds exactly if its whole batch can be read and fits,
6. with success the batch stands behind the other types, in its order, and
7. without it the registry stays as it was, in the row and in the places too. -/
theorem registration_history (calls : List Call) :
    -- 1.
    (ofCalls calls).Consistent ∧
    -- 2.
    (ofCalls calls).Answers ∧
    -- 3.
    ((Shelf.ofCalls calls).row = (ofCalls calls).types ∧ ∀ name,
      (Shelf.ofCalls calls).get? name = (ofCalls calls).get? name ∧
      (Shelf.ofCalls calls).contains name = (ofCalls calls).contains name ∧
      (Shelf.ofCalls calls).socketNames? name = (ofCalls calls).socketNames? name) ∧
    -- 4.
    (∀ more, (ofCalls calls).types <+: (ofCalls (calls ++ more)).types) ∧
    ∀ c : Call,
      -- 5.
      ((∃ r, c.apply (ofCalls calls) = .ok r) ↔
        ∃ batch, c.Brings batch ∧ (ofCalls calls).Fits batch) ∧
      -- 6.
      (∀ r, c.apply (ofCalls calls) = .ok r → ofCalls (calls ++ [c]) = r ∧
        (((Shelf.call c).run (Shelf.ofCalls calls)).1 = .ok () ∧
          (Shelf.ofCalls (calls ++ [c])).row = r.types) ∧
        ∃ batch, c.Brings batch ∧ r.types = (ofCalls calls).types ++ batch) ∧
      -- 7.
      ∀ e, c.apply (ofCalls calls) = .error e → ofCalls (calls ++ [c]) = ofCalls calls ∧
        (Shelf.call c).run (Shelf.ofCalls calls) = (.error e, Shelf.ofCalls calls) := by
  have hshows := Shelf.shows_ofCalls calls
  refine ⟨consistent_ofCalls calls, (consistent_ofCalls calls).answers, ⟨hshows.row, fun name => ?_⟩,
    fun more => ?_, fun c => ⟨?_, fun r h => ?_, fun e h => ?_⟩⟩
  · exact ⟨hshows.get? name, hshows.contains name, hshows.socketNames? name⟩
  · rw [ofCalls_append]
    exact prefix_foldl _ more
  · simp only [Call.apply_eq_ok_iff]
    exact ⟨fun ⟨_, batch, hbrings, hfits, _⟩ => ⟨batch, hbrings, hfits⟩,
      fun ⟨batch, hbrings, hfits⟩ => ⟨_, batch, hbrings, hfits, rfl⟩⟩
  · have hafter : ofCalls (calls ++ [c]) = r := by
      rw [ofCalls_append, List.foldl_cons, List.foldl_nil, perform, h]
    have hcall := hshows.call c
    rw [h] at hcall
    obtain ⟨s', hrun, -⟩ := hcall
    obtain ⟨batch, hbrings, -, rfl⟩ := Call.apply_eq_ok_iff.1 h
    refine ⟨hafter, ⟨congrArg Prod.fst hrun, ?_⟩, batch, hbrings, rfl⟩
    rw [(Shelf.shows_ofCalls (calls ++ [c])).row, hafter]
  · have hcall := hshows.call c
    rw [h] at hcall
    refine ⟨?_, hcall⟩
    rw [ofCalls_append, List.foldl_cons, List.foldl_nil, perform, h]

end Registry
end VisualBlocks
