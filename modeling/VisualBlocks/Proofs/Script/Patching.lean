import VisualBlocks.Script.Code

/-!
# Code with gaps

A compiler that goes through a program once, from left to right, does not know yet where a jump
forward leads when it puts it out.  It leaves a gap, and fills it in when it gets there.
`Draft.ofProgram` is that compiler; it keeps the instructions and their positions in two lists.

**It puts out the code of the program** (`Draft.ofProgram_eq`), instruction by instruction and
position by position, whatever is nested in what.  What makes this work is that a gap is filled in
with the place the compiler has got to, and that no gap is left when a part is done: a part does to
a draft what adding its code would do (`Expr.draft_eq`, `Statement.draft_eq`).

The one place where several gaps are open at once is a conditional statement: its branches all jump
behind it, so they are filled in together, and it does not matter in which order
(`Draft.patch_comm`).
-/

set_option autoImplicit false

namespace VisualBlocks
namespace Script

/-- The instruction with another target, if it jumps. -/
def Op.retarget (target : Nat) : Op → Op
  | .jump _ => .jump target
  | .jumpIfFalse _ => .jumpIfFalse target
  | .andJump _ => .andJump target
  | .orJump _ => .orJump target
  | op => op

/-- Instructions that have been put out, and their positions. -/
structure Draft where
  ops : List Op
  positions : List Position

namespace Draft

/-- Nothing. -/
def empty : Draft := ⟨[], []⟩

/-- Where the next instruction will stand. -/
def place (d : Draft) : Nat := d.ops.length

/-- Puts out an instruction. -/
def emit (op : Op) (pos : Position) (d : Draft) : Draft := ⟨d.ops ++ [op], d.positions ++ [pos]⟩

/-- Lets the instruction at `k` jump to where the next instruction will stand. -/
def patch (d : Draft) (k : Nat) : Draft := ⟨d.ops.modify k (Op.retarget d.place), d.positions⟩

/-- Adds finished code. -/
def append (d : Draft) (c : Code) : Draft :=
  ⟨d.ops ++ c.map Instr.op, d.positions ++ c.map Instr.pos⟩

end Draft

/-! ## The compiler -/

mutual

/-- Puts out an expression. -/
def Expr.draft (d : Draft) : Expr → Draft
  | .number pos x => d.emit (.push (.number x)) pos
  | .string pos s => d.emit (.push (.string s)) pos
  | .bool pos b => d.emit (.push (.bool b)) pos
  | .null pos => d.emit (.push .null) pos
  | .var pos name => d.emit (.load name) pos
  | .unary pos op operand => (operand.draft d).emit (.unary op) pos
  | .binary pos op left right =>
    let d := left.draft d
    match op with
    | .and => (right.draft (d.emit (.andJump 0) pos)).patch d.place
    | .or => (right.draft (d.emit (.orJump 0) pos)).patch d.place
    | op => (right.draft d).emit (.binary op) pos
  | .conditional pos test yes no =>
    let skip := test.draft d
    let exit := yes.draft (skip.emit (.jumpIfFalse 0) pos)
    (no.draft ((exit.emit (.jump 0) pos).patch skip.place)).patch exit.place
  | .call pos callee args => (argsDraft d args).emit (.call callee args.length) pos

/-- Puts out the arguments of a call. -/
def argsDraft (d : Draft) : List Expr → Draft
  | [] => d
  | e :: es => argsDraft (e.draft d) es

end

/-- Puts out a declaration. -/
def declareDraft (pos : Position) (d : Draft) : List (String × Option Expr) → Draft
  | [] => d
  | (name, some e) :: rest => declareDraft pos ((e.draft d).emit (.store name) pos) rest
  | (name, none) :: rest => declareDraft pos (d.emit (.declare name) pos) rest

/-- Puts out an assignment. -/
def assignDraft (pos : Position) (d : Draft) (name : String) (value : Expr) : AssignOp → Draft
  | .set => (value.draft d).emit (.store name) pos
  | .add =>
    ((value.draft (d.emit (.load name) pos)).emit (.binary .add) pos).emit (.store name) pos
  | .sub =>
    ((value.draft (d.emit (.load name) pos)).emit (.binary .sub) pos).emit (.store name) pos

mutual

/-- Puts out a statement. -/
def Statement.draft (d : Draft) : Statement → Draft
  | .declare pos names => declareDraft pos d names
  | .assign pos name op value => assignDraft pos d name value op
  | .expr pos value => (value.draft d).emit .pop pos
  | .ifElse pos branches otherwise =>
    let (d, exits) := branchesDraft pos d [] branches
    exits.foldl Draft.patch (bodyDraft d otherwise)
  | .whileLoop pos condition body =>
    let exit := condition.draft d
    ((bodyDraft (exit.emit (.jumpIfFalse 0) pos) body).emit (.jump d.place) pos).patch exit.place
  | .forLoop pos init condition update body =>
    let start := optionDraft d init
    match condition with
    | none => (optionDraft (bodyDraft start body) update).emit (.jump start.place) pos
    | some condition =>
      let exit := condition.draft start
      let round := bodyDraft (exit.emit (.jumpIfFalse 0) pos) body
      ((optionDraft round update).emit (.jump start.place) pos).patch exit.place

/-- Puts out statements one after the other. -/
def bodyDraft (d : Draft) : List Statement → Draft
  | [] => d
  | s :: ss => bodyDraft (s.draft d) ss

/-- Puts out a statement, if there is one. -/
def optionDraft (d : Draft) : Option Statement → Draft
  | none => d
  | some s => s.draft d

/-- Puts out branches, and notes which instructions are to jump behind the whole. -/
def branchesDraft (pos : Position) (d : Draft) (exits : List Nat) :
    List (Expr × List Statement) → Draft × List Nat
  | [] => (d, exits)
  | (condition, body) :: rest =>
    let skip := condition.draft d
    let exit := bodyDraft (skip.emit (.jumpIfFalse 0) pos) body
    branchesDraft pos ((exit.emit (.jump 0) pos).patch skip.place) (exits ++ [exit.place]) rest

end

/-- Puts out a program. -/
def Draft.ofProgram (p : Program) : Draft := bodyDraft .empty p.body

/-! ## Filling in gaps -/

namespace Draft

variable (d : Draft)

theorem append_nil : d.append [] = d := by
  simp [append]

theorem append_append (c c' : Code) : (d.append c).append c' = d.append (c ++ c') := by
  simp [append]

theorem emit_eq_append (op : Op) (pos : Position) : d.emit op pos = d.append [⟨op, pos⟩] := rfl

@[simp] theorem place_append (c : Code) : (d.append c).place = d.place + c.length := by
  simp [place, append]

@[simp] theorem place_emit (op : Op) (pos : Position) : (d.emit op pos).place = d.place + 1 := by
  simp [emit_eq_append]

/-- **A gap is filled in** with the place behind what has been put out after it. -/
theorem patch_append (op : Op) (pos : Position) (c : Code) :
    ((d.emit op pos).append c).patch d.place =
      d.append (⟨op.retarget (d.place + 1 + c.length), pos⟩ :: c) := by
  have hmodify (ops : List Op) (f : Op → Op) (rest : List Op) :
      (ops ++ op :: rest).modify ops.length f = ops ++ f op :: rest := by
    induction ops with
    | nil => rfl
    | cons o ops ih => simp [ih]
  rw [patch, place_append, place_emit]
  simp [append, emit, place, hmodify]

/-- The gap in the first jump of a choice is filled in behind the second jump. -/
theorem patch_choice (pos : Position) (c : Code) :
    (((d.emit (.jumpIfFalse 0) pos).append c).emit (.jump 0) pos).patch d.place =
      (d.append (⟨.jumpIfFalse (d.place + 1 + c.length + 1), pos⟩ :: c)).emit (.jump 0) pos := by
  rw [emit_eq_append _ (.jump 0), append_append, patch_append, emit_eq_append, append_append]
  simp [Op.retarget, Nat.add_assoc]

theorem place_choice (op op' : Op) (pos : Position) (c : Code) :
    ((d.append (⟨op, pos⟩ :: c)).emit op' pos).place = d.place + 1 + c.length + 1 := by
  rw [place_emit, place_append, List.length_cons]
  omega

/-- The gap in the second jump of a choice is filled in behind what is chosen otherwise. -/
theorem patch_exit (pos : Position) (c c' : Code) (target : Nat) :
    (((d.append (⟨.jumpIfFalse target, pos⟩ :: c)).emit (.jump 0) pos).append c').patch
        ((d.emit (.jumpIfFalse 0) pos).append c).place =
      d.append (⟨.jumpIfFalse target, pos⟩ ::
        (c ++ ⟨.jump (d.place + 1 + c.length + 1 + c'.length), pos⟩ :: c')) := by
  have hplace : ((d.emit (.jumpIfFalse 0) pos).append c).place =
      (d.append (⟨.jumpIfFalse target, pos⟩ :: c)).place := by
    simp
    omega
  rw [hplace, patch_append, append_append, ← hplace, place_append, place_emit]
  rfl

@[simp] theorem place_patch (k : Nat) : (d.patch k).place = d.place := by
  simp [place, patch]

theorem patch_comm (j k : Nat) : (d.patch j).patch k = (d.patch k).patch j := by
  have hops : (d.ops.modify j (Op.retarget d.place)).modify k (Op.retarget d.place) =
      (d.ops.modify k (Op.retarget d.place)).modify j (Op.retarget d.place) := by
    by_cases h : j = k
    · rw [h]
    · exact List.modify_modify_ne _ _ _ h
  rw [patch.eq_def (d.patch j), patch.eq_def (d.patch k), place_patch, place_patch]
  exact congrArg (Draft.mk · d.positions) hops

theorem foldl_patch (exits : List Nat) (k : Nat) :
    exits.foldl patch (d.patch k) = (exits.foldl patch d).patch k := by
  induction exits generalizing d with
  | nil => rfl
  | cons j exits ih => rw [List.foldl_cons, List.foldl_cons, patch_comm, ih]

end Draft

/-! ## What is put out is the code -/

mutual

/-- **An expression is put out as its code.** -/
theorem Expr.draft_eq (e : Expr) (d : Draft) : e.draft d = d.append (e.code d.place) := by
  match e with
  | .number _ _ | .string _ _ | .bool _ _ | .null _ | .var _ _ => rfl
  | .unary pos op operand =>
    simp [Expr.draft, Expr.code, operand.draft_eq, Draft.emit_eq_append, Draft.append_append]
  | .binary pos op left right =>
    have hleft := left.draft_eq d
    have hright := right.draft_eq
    cases op with
    | and =>
      rw [Expr.draft, hleft, hright, Draft.patch_append]
      simp [Expr.code, Draft.append_append, Op.retarget]
    | or =>
      rw [Expr.draft, hleft, hright, Draft.patch_append]
      simp [Expr.code, Draft.append_append, Op.retarget]
    | _ =>
      simp [Expr.draft, Expr.code, hleft, hright, Draft.emit_eq_append, Draft.append_append]
  | .conditional pos test yes no =>
    rw [Expr.draft, test.draft_eq, yes.draft_eq, no.draft_eq, Draft.patch_choice,
      Draft.place_choice, Draft.patch_exit]
    simp [Expr.code, Draft.append_append]
  | .call pos callee args =>
    simp [Expr.draft, Expr.code, argsDraft_eq args, Draft.emit_eq_append, Draft.append_append]

theorem argsDraft_eq (es : List Expr) (d : Draft) :
    argsDraft d es = d.append (argsCode d.place es) := by
  match es with
  | [] => exact d.append_nil.symm
  | e :: es =>
    simp [argsDraft, argsCode, e.draft_eq, argsDraft_eq es, Draft.append_append]

end

theorem declareDraft_eq (pos : Position) (names : List (String × Option Expr)) (d : Draft) :
    declareDraft pos d names = d.append (declareCode pos d.place names) := by
  induction names generalizing d with
  | nil => exact d.append_nil.symm
  | cons name names ih =>
    obtain ⟨name, value | value⟩ := name
    · rw [declareDraft, ih, Draft.emit_eq_append, Draft.append_append]
      simp [declareCode]
    · rw [declareDraft, ih, value.draft_eq, Draft.emit_eq_append, Draft.append_append,
        Draft.append_append]
      simp [declareCode, Nat.add_assoc]

theorem assignDraft_eq (pos : Position) (name : String) (value : Expr) (op : AssignOp)
    (d : Draft) :
    assignDraft pos d name value op = d.append (assignCode pos d.place name value op) := by
  cases op <;>
    simp [assignDraft, assignCode, value.draft_eq, Draft.emit_eq_append, Draft.append_append]

mutual

/-- **A statement is put out as its code.** -/
theorem Statement.draft_eq (s : Statement) (d : Draft) : s.draft d = d.append (s.code d.place) := by
  match s with
  | .declare pos names => exact declareDraft_eq pos names d
  | .assign pos name op value => exact assignDraft_eq pos name value op d
  | .expr pos value =>
    simp [Statement.draft, Statement.code, value.draft_eq, Draft.emit_eq_append,
      Draft.append_append]
  | .ifElse pos branches otherwise =>
    exact branchesDraft_eq pos branches (bodyDraft_eq otherwise) d []
  | .whileLoop pos condition body =>
    rw [Statement.draft, condition.draft_eq, bodyDraft_eq body,
      Draft.emit_eq_append _ (.jump _), Draft.append_append, Draft.patch_append]
    simp [Statement.code, Draft.append_append, Op.retarget, Nat.add_assoc]
  | .forLoop pos init none update body =>
    rw [Statement.draft, optionDraft_eq init]
    simp [Statement.code, bodyDraft_eq body, optionDraft_eq update, Draft.emit_eq_append,
      Draft.append_append, Nat.add_assoc]
  | .forLoop pos init (some condition) update body =>
    rw [Statement.draft, optionDraft_eq init, condition.draft_eq, bodyDraft_eq body,
      optionDraft_eq update, Draft.emit_eq_append _ (.jump _), Draft.append_append,
      Draft.append_append, Draft.patch_append]
    simp [Statement.code, Draft.append_append, Op.retarget, Nat.add_assoc]

theorem bodyDraft_eq (ss : List Statement) (d : Draft) :
    bodyDraft d ss = d.append (bodyCode d.place ss) := by
  match ss with
  | [] => exact d.append_nil.symm
  | s :: ss => simp [bodyDraft, bodyCode, s.draft_eq, bodyDraft_eq ss, Draft.append_append]

theorem optionDraft_eq (s : Option Statement) (d : Draft) :
    optionDraft d s = d.append (optionCode d.place s) := by
  match s with
  | none => exact d.append_nil.symm
  | some s => exact s.draft_eq d

/-- Branches and what is done otherwise are put out as their code, and the gaps that were there
before can be filled in afterwards. -/
theorem branchesDraft_eq (pos : Position) (branches : List (Expr × List Statement))
    {otherwise : List Statement}
    (hotherwise : ∀ d, bodyDraft d otherwise = d.append (bodyCode d.place otherwise))
    (d : Draft) (exits : List Nat) :
    (branchesDraft pos d exits branches).2.foldl Draft.patch
        (bodyDraft (branchesDraft pos d exits branches).1 otherwise) =
      exits.foldl Draft.patch
        (d.append (branchesCode pos (fun place => bodyCode place otherwise) d.place branches)) := by
  match branches with
  | [] => rw [branchesDraft, hotherwise, branchesCode]
  | (condition, body) :: rest =>
    have hrest := branchesDraft_eq pos rest hotherwise
    rw [branchesDraft, hrest, condition.draft_eq, bodyDraft_eq body, List.foldl_append,
      Draft.patch_choice, Draft.place_choice, List.foldl_cons, List.foldl_nil, ← Draft.foldl_patch,
      Draft.patch_exit]
    simp [branchesCode, Draft.append_append]

end

/-- **The compiler puts out the code of the program**, and the positions that belong to it. -/
theorem Draft.ofProgram_eq (p : Program) :
    Draft.ofProgram p = ⟨p.code.map Instr.op, p.code.map Instr.pos⟩ := by
  rw [Draft.ofProgram, bodyDraft_eq]
  rfl

end Script
end VisualBlocks
