import VisualBlocks.Proofs.Script.Compilation
import VisualBlocks.Proofs.Script.Patching

/-!
# How deep the stack is

How many values are on the stack when an instruction is about to be executed depends on the program
alone: `Program.depthAt` says how many, and it is read off the syntax, part by part, with no run and
no code in sight (`Expr.depths`, `Statement.depths`).

* `Op.Fits` says what an instruction asks of the depths before and behind it and at the place it
  jumps to.  **The code of every program fits its depths** (`Program.fits`): the depths agree
  wherever two ways through the code meet, which is what a jump asks for.
* An instruction that fits finds the values it takes and leaves as many as are said
  (`Op.Fits.keeps`), so a run from the start of the program keeps to the depths
  (`Machine.OnDepth.of_reaches`), however long it is.
-/

set_option autoImplicit false

namespace VisualBlocks
namespace Script

/-! ## Depths of a program -/

mutual

/-- The depths before the instructions of an expression, over a stack of depth `d`. -/
def Expr.depths (d : Nat) : Expr → List Nat
  | .number _ _ | .string _ _ | .bool _ _ | .null _ | .var _ _ => [d]
  | .unary _ _ operand => operand.depths d ++ [d + 1]
  | .binary _ .and left right | .binary _ .or left right =>
    left.depths d ++ (d + 1) :: right.depths d
  | .binary _ _ left right => left.depths d ++ right.depths (d + 1) ++ [d + 2]
  | .conditional _ test yes no =>
    test.depths d ++ (d + 1) :: yes.depths d ++ (d + 1) :: no.depths d
  | .call _ _ args => argsDepths d args ++ [d + args.length]

/-- The depths before the instructions of arguments, each of which stays on the stack. -/
def argsDepths (d : Nat) : List Expr → List Nat
  | [] => []
  | e :: es => e.depths d ++ argsDepths (d + 1) es

end

/-- The depths before the instructions of a declaration. -/
def declareDepths : List (String × Option Expr) → List Nat
  | [] => []
  | (_, some e) :: rest => e.depths 0 ++ [1] ++ declareDepths rest
  | (_, none) :: rest => 0 :: declareDepths rest

/-- The depths before the instructions of an assignment. -/
def assignDepths (value : Expr) : AssignOp → List Nat
  | .set => value.depths 0 ++ [1]
  | .add | .sub => 0 :: value.depths 1 ++ [2, 1]

mutual

/-- The depths before the instructions of a statement. -/
def Statement.depths : Statement → List Nat
  | .declare _ names => declareDepths names
  | .assign _ _ op value => assignDepths value op
  | .expr _ value => value.depths 0 ++ [1]
  | .ifElse _ branches otherwise => branchesDepths (bodyDepths otherwise) branches
  | .whileLoop _ condition body => condition.depths 0 ++ 1 :: bodyDepths body ++ [0]
  | .forLoop _ init none update body =>
    optionDepths init ++ bodyDepths body ++ optionDepths update ++ [0]
  | .forLoop _ init (some condition) update body =>
    optionDepths init ++ condition.depths 0 ++ 1 :: bodyDepths body ++ optionDepths update ++ [0]

/-- The depths before the instructions of statements. -/
def bodyDepths : List Statement → List Nat
  | [] => []
  | s :: ss => s.depths ++ bodyDepths ss

/-- The depths before the instructions of a statement, if there is one. -/
def optionDepths : Option Statement → List Nat
  | none => []
  | some s => s.depths

/-- The depths before the instructions of branches and of what is done when no condition holds. -/
def branchesDepths (otherwise : List Nat) : List (Expr × List Statement) → List Nat
  | [] => otherwise
  | (condition, body) :: rest =>
    condition.depths 0 ++ 1 :: bodyDepths body ++ 0 :: branchesDepths otherwise rest

end

/-- The depth of the stack when the instruction at a place is about to be executed. -/
def Program.depthAt (p : Program) (place : Nat) : Nat := ((bodyDepths p.body)[place]?).getD 0

/-! ## What instructions ask of the depths

`D` are the depths, and the code ends at `n`. -/

section Fitting

variable (D : Nat → Nat) (n : Nat)

/-- Does the instruction at a place keep to the depths and jump no further than the end? -/
def Op.Fits (place : Nat) : Op → Prop
  | .push _ | .load _ => D (place + 1) = D place + 1
  | .store _ | .pop => D place = D (place + 1) + 1
  | .declare _ => D (place + 1) = D place
  | .unary _ => 1 ≤ D place ∧ D (place + 1) = D place
  | .binary _ => D place = D (place + 1) + 1 ∧ 1 ≤ D (place + 1)
  | .jump target => target ≤ n ∧ D target = D place
  | .jumpIfFalse target => target ≤ n ∧ D place = D (place + 1) + 1 ∧ D target = D (place + 1)
  | .andJump target | .orJump target =>
    target ≤ n ∧ D place = D (place + 1) + 1 ∧ D target = D place
  | .call _ argc => D place + 1 = D (place + 1) + argc ∧ 1 ≤ D (place + 1)

/-- Do all instructions of the code at a place keep to the depths? -/
def Fits : Nat → Code → Prop
  | _, [] => True
  | place, i :: c => i.op.Fits D n place ∧ Fits (place + 1) c

/-- Are these the depths from a place on? -/
def Agrees : Nat → List Nat → Prop
  | _, [] => True
  | place, d :: ds => D place = d ∧ Agrees (place + 1) ds

variable {D n}

@[simp] theorem fits_nil (place : Nat) : Fits D n place [] := trivial

@[simp] theorem fits_cons {place : Nat} {i : Instr} {c : Code} :
    Fits D n place (i :: c) ↔ i.op.Fits D n place ∧ Fits D n (place + 1) c := Iff.rfl

@[simp] theorem fits_append {place : Nat} {c d : Code} :
    Fits D n place (c ++ d) ↔ Fits D n place c ∧ Fits D n (place + c.length) d := by
  induction c generalizing place with
  | nil => simp
  | cons i c ih => simp [ih, and_assoc, Nat.add_assoc, Nat.add_comm 1]

theorem Fits.at {place : Nat} {code : Code} (h : Fits D n place code) {k : Nat} {i : Instr}
    (hi : code[k]? = some i) : i.op.Fits D n (place + k) := by
  induction code generalizing place k with
  | nil => cases hi
  | cons j rest ih =>
    cases k with
    | zero =>
      cases hi
      exact h.1
    | succ k =>
      have := ih h.2 hi
      rwa [Nat.add_right_comm] at this

@[simp] theorem agrees_nil (place : Nat) : Agrees D place [] := trivial

@[simp] theorem agrees_cons {place d : Nat} {ds : List Nat} :
    Agrees D place (d :: ds) ↔ D place = d ∧ Agrees D (place + 1) ds := Iff.rfl

@[simp] theorem agrees_append {place : Nat} {ds es : List Nat} :
    Agrees D place (ds ++ es) ↔ Agrees D place ds ∧ Agrees D (place + ds.length) es := by
  induction ds generalizing place with
  | nil => simp
  | cons d ds ih => simp [ih, and_assoc, Nat.add_assoc, Nat.add_comm 1]

theorem agrees_of_getElem? {place : Nat} {ds : List Nat}
    (h : ∀ k d, ds[k]? = some d → D (place + k) = d) : Agrees D place ds := by
  induction ds generalizing place with
  | nil => trivial
  | cons d ds ih =>
    refine ⟨h 0 d rfl, ih fun k e hk => ?_⟩
    rw [Nat.add_right_comm]
    exact h (k + 1) e hk

end Fitting

/-! ## Pieces of code

A piece is balanced if it fits every assignment of depths that agrees with its own. -/

/-- The piece at a place has these depths: `d` where it begins and `out` behind it. -/
structure Balanced (place : Nat) (c : Code) (ds : List Nat) (d out : Nat) : Prop where
  length : ds.length = c.length
  fits : ∀ {D : Nat → Nat} {n : Nat}, Agrees D place ds → D (place + c.length) = out →
    place + c.length ≤ n → D place = d ∧ Fits D n place c

namespace Balanced

variable {place : Nat} {c c' : Code} {ds ds' : List Nat} {d mid out : Nat}

theorem nil (place d : Nat) : Balanced place [] [] d d :=
  ⟨rfl, fun _ hout _ => ⟨hout, trivial⟩⟩

theorem append (h : Balanced place c ds d mid)
    (h' : Balanced (place + c.length) c' ds' mid out) :
    Balanced place (c ++ c') (ds ++ ds') d out := by
  refine ⟨by rw [List.length_append, List.length_append, h.length, h'.length], ?_⟩
  intro D n hagrees hout hn
  rw [List.length_append, ← Nat.add_assoc] at hout hn
  rw [agrees_append, h.length] at hagrees
  obtain ⟨hmid, hfits'⟩ := h'.fits hagrees.2 hout hn
  obtain ⟨hin, hfits⟩ := h.fits (n := n) hagrees.1 hmid (by omega)
  exact ⟨hin, fits_append.2 ⟨hfits, hfits'⟩⟩

/-- One instruction that does not jump. -/
theorem single {op : Op} (pos : Position)
    (h : ∀ {D : Nat → Nat} {n : Nat}, D place = d → D (place + 1) = out → op.Fits D n place) :
    Balanced place [⟨op, pos⟩] [d] d out := by
  refine ⟨rfl, fun hagrees hout _ => ?_⟩
  exact ⟨hagrees.1, h hagrees.1 hout, trivial⟩

/-- A jump over a piece that keeps its value if it is taken. -/
theorem shortCircuit {op : Op} (pos : Position)
    (hop : op = .andJump (place + 1 + c.length) ∨ op = .orJump (place + 1 + c.length))
    (h : Balanced (place + 1) c ds d (d + 1)) :
    Balanced place (⟨op, pos⟩ :: c) ((d + 1) :: ds) (d + 1) (d + 1) := by
  refine ⟨by rw [List.length_cons, List.length_cons, h.length], ?_⟩
  intro D n hagrees hout hn
  rw [List.length_cons, Nat.add_comm c.length 1, ← Nat.add_assoc] at hout hn
  obtain ⟨hin, hfits⟩ := h.fits hagrees.2 hout hn
  have hplace := hagrees.1
  refine ⟨hplace, ?_, hfits⟩
  rcases hop with rfl | rfl
  · exact ⟨hn, by omega, by omega⟩
  · exact ⟨hn, by omega, by omega⟩

/-- A jump over a piece to another one, and a jump over the other one. -/
theorem choice (pos : Position) (h : Balanced (place + 1) c ds d out)
    (h' : Balanced (place + 1 + c.length + 1) c' ds' d out) :
    Balanced place
      (⟨.jumpIfFalse (place + 1 + c.length + 1), pos⟩ ::
        (c ++ ⟨.jump (place + 1 + c.length + 1 + c'.length), pos⟩ :: c'))
      ((d + 1) :: (ds ++ out :: ds')) (d + 1) out := by
  refine ⟨by simp [h.length, h'.length], ?_⟩
  intro D n hagrees hout hn
  have hend : place + (c.length + (c'.length + 1) + 1) = place + 1 + c.length + 1 + c'.length := by
    omega
  rw [List.length_cons, List.length_append, List.length_cons, hend] at hout hn
  rw [agrees_cons, agrees_append, h.length, agrees_cons] at hagrees
  obtain ⟨hplace, hds, hjump, hds'⟩ := hagrees
  obtain ⟨hin, hfits⟩ := h.fits (n := n) hds hjump (by omega)
  obtain ⟨hin', hfits'⟩ := h'.fits hds' hout hn
  refine ⟨hplace, ⟨by omega, by omega, by omega⟩, ?_⟩
  exact fits_append.2 ⟨hfits, ⟨hn, by omega⟩, hfits'⟩

/-- A condition, a jump out of the loop, a piece, and a jump back. -/
theorem loop (pos : Position) (h : Balanced place c ds d (d + 1))
    (h' : Balanced (place + c.length + 1) c' ds' d d) :
    Balanced place
      (c ++ ⟨.jumpIfFalse (place + c.length + 1 + c'.length + 1), pos⟩ ::
        (c' ++ [⟨.jump place, pos⟩]))
      (ds ++ (d + 1) :: (ds' ++ [d])) d d := by
  refine ⟨by simp [h.length, h'.length], ?_⟩
  intro D n hagrees hout hn
  have hend : place + (c.length + (c'.length + 1 + 1)) = place + c.length + 1 + c'.length + 1 := by
    omega
  rw [List.length_append, List.length_cons, List.length_append, List.length_singleton, hend]
    at hout hn
  rw [agrees_append, h.length, agrees_cons, agrees_append, h'.length, agrees_cons] at hagrees
  obtain ⟨hds, hexit, hds', hjump, -⟩ := hagrees
  obtain ⟨hin, hfits⟩ := h.fits (n := n) hds hexit (by omega)
  obtain ⟨hin', hfits'⟩ := h'.fits (n := n) hds' hjump (by omega)
  refine ⟨hin, fits_append.2 ⟨hfits, ⟨hn, by omega, by omega⟩, ?_⟩⟩
  exact fits_append.2 ⟨hfits', ⟨by omega, by omega⟩, trivial⟩

/-- A piece and a jump back. -/
theorem endlessLoop (pos : Position) (h : Balanced place c ds d d) :
    Balanced place (c ++ [⟨.jump place, pos⟩]) (ds ++ [d]) d d := by
  refine ⟨by simp [h.length], ?_⟩
  intro D n hagrees hout hn
  rw [List.length_append, List.length_singleton] at hout hn
  rw [agrees_append, h.length, agrees_cons] at hagrees
  obtain ⟨hds, hjump, -⟩ := hagrees
  obtain ⟨hin, hfits⟩ := h.fits (n := n) hds hjump (by omega)
  exact ⟨hin, fits_append.2 ⟨hfits, ⟨by omega, by omega⟩, trivial⟩⟩

end Balanced

/-! ## The code of a program is balanced -/

mutual

/-- **The code of an expression leaves one value more.** -/
theorem Expr.balanced (e : Expr) (place d : Nat) :
    Balanced place (e.code place) (e.depths d) d (d + 1) := by
  match e with
  | .number pos _ | .string pos _ | .bool pos _ | .null pos | .var pos _ =>
    exact .single pos fun hin hout => by simp [Op.Fits, hin, hout]
  | .unary pos op operand =>
    exact (operand.balanced place d).append
      (.single pos fun hin hout => ⟨by omega, by omega⟩)
  | .binary pos op left right =>
    have hleft := left.balanced place d
    have hright (place d : Nat) := right.balanced place d
    cases op with
    | and => exact hleft.append (.shortCircuit pos (.inl rfl) (hright _ d))
    | or => exact hleft.append (.shortCircuit pos (.inr rfl) (hright _ d))
    | _ =>
      exact (hleft.append (hright _ (d + 1))).append
        (.single pos fun hin hout => ⟨by omega, by omega⟩)
  | .conditional pos test yes no =>
    have hchoice := (test.balanced place d).append
      (.choice pos (yes.balanced _ d) (no.balanced _ d))
    simpa [Expr.code, Expr.depths] using hchoice
  | .call pos callee args =>
    exact (argsCode_balanced args place d).append
      (.single pos fun hin hout => ⟨by omega, by omega⟩)

/-- The code of arguments leaves one value more for each of them. -/
theorem argsCode_balanced (es : List Expr) (place d : Nat) :
    Balanced place (argsCode place es) (argsDepths d es) d (d + es.length) := by
  match es with
  | [] => exact .nil place d
  | e :: es =>
    have hes := argsCode_balanced es (place + (e.code place).length) (d + 1)
    rw [Nat.add_assoc, Nat.add_comm 1] at hes
    exact (e.balanced place d).append hes

end

theorem declareCode_balanced (pos : Position) (names : List (String × Option Expr)) (place : Nat) :
    Balanced place (declareCode pos place names) (declareDepths names) 0 0 := by
  induction names generalizing place with
  | nil => exact .nil place 0
  | cons name names ih =>
    obtain ⟨name, value | value⟩ := name
    · have hname : Balanced place [⟨.declare name, pos⟩] [0] 0 0 :=
        .single pos fun hin hout => hout.trans hin.symm
      exact hname.append (ih _)
    · exact ((value.balanced place 0).append
        (.single pos fun hin hout => by simp [Op.Fits, hin, hout])).append (ih _)

theorem assignCode_balanced (pos : Position) (name : String) (value : Expr) (op : AssignOp)
    (place : Nat) :
    Balanced place (assignCode pos place name value op) (assignDepths value op) 0 0 := by
  have hstore (place : Nat) : Balanced place [⟨.store name, pos⟩] [1] 1 0 :=
    .single pos fun hin hout => by simp [Op.Fits, hin, hout]
  have hload (place : Nat) : Balanced place [⟨.load name, pos⟩] [0] 0 1 :=
    .single pos fun hin hout => by simp [Op.Fits, hin, hout]
  have hbinary (op : BinaryOp) (place : Nat) : Balanced place [⟨.binary op, pos⟩] [2] 2 1 :=
    .single pos fun hin hout => ⟨by omega, by omega⟩
  cases op with
  | set => exact (value.balanced place 0).append (hstore _)
  | add =>
    exact (hload place).append ((value.balanced _ 1).append ((hbinary .add _).append (hstore _)))
  | sub =>
    exact (hload place).append ((value.balanced _ 1).append ((hbinary .sub _).append (hstore _)))

mutual

/-- **The code of a statement leaves the stack as it was.** -/
theorem Statement.balanced (s : Statement) (place : Nat) :
    Balanced place (s.code place) s.depths 0 0 := by
  match s with
  | .declare pos names => exact declareCode_balanced pos names place
  | .assign pos name op value => exact assignCode_balanced pos name value op place
  | .expr pos value =>
    exact (value.balanced place 0).append (.single pos fun hin hout => by simp [Op.Fits, hin, hout])
  | .ifElse pos branches otherwise =>
    exact branchesCode_balanced pos branches (bodyCode_balanced otherwise) place
  | .whileLoop pos condition body =>
    have hloop := Balanced.loop pos (condition.balanced place 0) (bodyCode_balanced body _)
    simpa [Statement.code, Statement.depths] using hloop
  | .forLoop pos init none update body =>
    have hround (place : Nat) := (bodyCode_balanced body place).append (optionCode_balanced update _)
    have hloop := (optionCode_balanced init place).append (.endlessLoop pos (hround _))
    simpa [Statement.code, Statement.depths] using hloop
  | .forLoop pos init (some condition) update body =>
    have hround (place : Nat) := (bodyCode_balanced body place).append (optionCode_balanced update _)
    have hloop := (optionCode_balanced init place).append
      (.loop pos (condition.balanced _ 0) (hround _))
    simpa [Statement.code, Statement.depths, ← Nat.add_assoc] using hloop

theorem bodyCode_balanced (ss : List Statement) (place : Nat) :
    Balanced place (bodyCode place ss) (bodyDepths ss) 0 0 := by
  match ss with
  | [] => exact .nil place 0
  | s :: ss => exact (s.balanced place).append (bodyCode_balanced ss _)

theorem optionCode_balanced (s : Option Statement) (place : Nat) :
    Balanced place (optionCode place s) (optionDepths s) 0 0 := by
  match s with
  | none => exact .nil place 0
  | some s => exact s.balanced place

/-- The last part of branches is given by its place, so it is balanced wherever it stands. -/
theorem branchesCode_balanced (pos : Position) (branches : List (Expr × List Statement))
    {otherwise : Nat → Code} {depths : List Nat}
    (hotherwise : ∀ place, Balanced place (otherwise place) depths 0 0) (place : Nat) :
    Balanced place (branchesCode pos otherwise place branches) (branchesDepths depths branches)
      0 0 := by
  match branches with
  | [] => exact hotherwise place
  | (condition, body) :: rest =>
    have hchoice := (condition.balanced place 0).append
      (.choice pos (bodyCode_balanced body _) (branchesCode_balanced pos rest hotherwise _))
    simpa [branchesCode, branchesDepths] using hchoice

end

theorem Program.agrees (p : Program) : Agrees p.depthAt 0 (bodyDepths p.body) := by
  refine agrees_of_getElem? fun k d hk => ?_
  rw [Nat.zero_add, Program.depthAt, hk, Option.getD_some]

/-- There is nothing on the stack behind the code. -/
theorem Program.depthAt_of_length_le {p : Program} {place : Nat} (h : p.code.length ≤ place) :
    p.depthAt place = 0 := by
  have hlength : (bodyDepths p.body).length ≤ place := by
    rw [(bodyCode_balanced p.body 0).length]
    exact h
  rw [Program.depthAt, List.getElem?_eq_none hlength, Option.getD_none]

/-- **The code of every program fits its depths.** -/
theorem Program.fits (p : Program) :
    p.depthAt 0 = 0 ∧ Fits p.depthAt p.code.length 0 p.code :=
  (bodyCode_balanced p.body 0).fits p.agrees
    (p.depthAt_of_length_le (Nat.le_of_eq (Nat.zero_add _).symm)) (Nat.le_of_eq (Nat.zero_add _))

/-- Where the place of an instruction leads to, if it jumps. -/
def Op.target? : Op → Option Nat
  | .jump target | .jumpIfFalse target | .andJump target | .orJump target => some target
  | _ => none

theorem Op.Fits.target_le {D : Nat → Nat} {n place target : Nat} {op : Op}
    (h : op.Fits D n place) (htarget : op.target? = some target) : target ≤ n := by
  cases op <;> cases htarget <;> exact h.1

/-! ## Runs keep to the depths -/

section Runs

variable {σ : Type} {host : Host σ}

theorem callFunction_ne_stackUnderflow (host : Host σ) (s : σ) (name : String) (args : List Value) :
    (callFunction host s name args).1 ≠ .error .stackUnderflow := by
  rw [callFunction]
  split
  · nofun
  · split <;> nofun

/-- What is left by an instruction: no missing value, and without a fault a stack as deep as is
said for the place that comes next. -/
def KeepsDepth (D : Nat → Nat) (n : Nat) (code : Array Instr) :
    Machine × σ × Option RuntimeFault → Prop
  | (m, _, none) => m.code = code ∧ m.ip ≤ n ∧ m.stack.length = D m.ip
  | (_, _, some fault) => fault ≠ .stackUnderflow

theorem KeepsDepth.shortCircuit {D : Nat → Nat} {n place target : Nat} {code : Array Instr}
    {globals : Table Value} {steps : Nat} {v : Value} {rest : List Value} (s : σ) (jumps : Prop)
    [Decidable jumps] (hplace : place < n) (hdepth : (v :: rest).length = D place)
    (htarget : target ≤ n) (hnext : D place = D (place + 1) + 1) (hjump : D target = D place) :
    KeepsDepth D n code
      (if jumps then (⟨code, target, v :: rest, globals, steps⟩, s, none)
        else (⟨code, place + 1, rest, globals, steps⟩, s, none)) := by
  split
  · exact ⟨rfl, htarget, hdepth.trans hjump.symm⟩
  · exact ⟨rfl, hplace, Nat.succ.inj (hdepth.trans hnext)⟩

/-- **An instruction that fits finds the values it takes**, and leaves as many as are said. -/
theorem Op.Fits.keeps {D : Nat → Nat} {n place : Nat} {op : Op} (h : op.Fits D n place)
    (hplace : place < n) {stack : List Value} (hdepth : stack.length = D place)
    (code : Array Instr) (globals : Table Value) (steps : Nat) (s : σ) :
    KeepsDepth D n code (execute host ⟨code, place + 1, stack, globals, steps⟩ s op) := by
  -- An instruction that takes a value has one: the stack is as deep as `D` says, not empty.
  have htop (hne : 0 < D place) : ∃ v rest, stack = v :: rest :=
    List.exists_cons_of_length_pos (hdepth ▸ hne)
  cases op with
  | push v => exact ⟨rfl, hplace, (congrArg (· + 1) hdepth).trans h.symm⟩
  | load name =>
    rw [execute]
    split
    · exact ⟨rfl, hplace, (congrArg (· + 1) hdepth).trans h.symm⟩
    · exact RuntimeFault.noConfusion
  | store name | pop =>
    have hnext : D place = D (place + 1) + 1 := h
    obtain ⟨v, rest, rfl⟩ := htop (by omega)
    exact ⟨rfl, hplace, Nat.succ.inj (hdepth.trans hnext)⟩
  | declare name =>
    rw [execute]
    split <;> exact ⟨rfl, hplace, hdepth.trans h.symm⟩
  | unary op =>
    obtain ⟨v, rest, rfl⟩ := htop h.1
    exact ⟨rfl, hplace, hdepth.trans h.2.symm⟩
  | binary op =>
    obtain ⟨hnext, hone⟩ := h
    obtain ⟨b, rest, rfl⟩ := htop (by omega)
    have hrest := Nat.succ.inj (hdepth.trans hnext)
    obtain ⟨a, rest, rfl⟩ := List.exists_cons_of_length_pos (hrest ▸ hone)
    exact ⟨rfl, hplace, hrest⟩
  | jump target => exact ⟨rfl, h.1, hdepth.trans h.2.symm⟩
  | jumpIfFalse target =>
    obtain ⟨htarget, hnext, hjump⟩ := h
    obtain ⟨v, rest, rfl⟩ := htop (by omega)
    have hrest := Nat.succ.inj (hdepth.trans hnext)
    cases htruthy : v.truthy with
    | true => simpa [execute, htruthy, KeepsDepth] using ⟨hplace, hrest⟩
    | false => simpa [execute, htruthy, KeepsDepth] using ⟨htarget, hrest.trans hjump.symm⟩
  | andJump target =>
    obtain ⟨htarget, hnext, hjump⟩ := h
    obtain ⟨v, rest, rfl⟩ := htop (by omega)
    rw [execute]
    dsimp only
    rw [← ite_not]
    exact .shortCircuit s (¬ v.truthy = true) hplace hdepth htarget hnext hjump
  | orJump target =>
    obtain ⟨htarget, hnext, hjump⟩ := h
    obtain ⟨v, rest, rfl⟩ := htop (by omega)
    exact .shortCircuit s (v.truthy = true) hplace hdepth htarget hnext hjump
  | call name argc =>
    obtain ⟨hcount, hone⟩ := h
    have hargs : ¬ stack.length < argc := by omega
    have hfault := callFunction_ne_stackUnderflow host s name (stack.take argc).reverse
    rw [execute, if_neg hargs]
    dsimp only
    split
    · refine ⟨rfl, hplace, ?_⟩
      simp only [Machine.push, List.length_cons, List.length_drop]
      omega
    · next hcall =>
      rw [hcall] at hfault
      exact fun h => hfault (congrArg _ h)

/-- One instruction leads from one state of a machine and its host to another one. -/
def Succeeds (host : Host σ) (x y : Machine × σ) : Prop :=
  ∃ status, x.1.step host x.2 = (y.1, y.2, .ok status)

/-- Some instructions, none of which fails, lead from one state to another one. -/
abbrev Reaches (host : Host σ) : Machine × σ → Machine × σ → Prop :=
  Relation.ReflTransGen (Succeeds host)

/-- A machine in a run of a program, with a stack as deep as is said. -/
structure Machine.OnDepth (p : Program) (m : Machine) : Prop where
  code : m.code = p.code.toArray
  ip : m.ip ≤ p.code.length
  depth : m.stack.length = p.depthAt m.ip

namespace Machine.OnDepth

variable {p : Program} {m m' : Machine} {s s' : σ}

/-- A machine starts with an empty stack. -/
theorem ofProgram (p : Program) : (Machine.ofProgram p).OnDepth p :=
  ⟨rfl, Nat.zero_le _, p.fits.1.symm⟩

/-- **No instruction of a program misses a value**, and one that does not fail keeps to the
depths. -/
theorem step (h : m.OnDepth p) {r : Except RuntimeError Status}
    (hstep : m.step host s = (m', s', r)) :
    (∀ status, r = .ok status → m'.OnDepth p) ∧ ∀ e, r = .error e → e.fault ≠ .stackUnderflow := by
  obtain ⟨code, ip, stack, globals, steps⟩ := m
  obtain ⟨rfl, hip, hdepth⟩ := h
  have hcode : p.code.toArray[ip]? = p.code[ip]? := List.getElem?_toArray
  rw [Machine.step, hcode] at hstep
  cases hi : p.code[ip]? with
  | none =>
    rw [hi] at hstep
    cases hstep
    exact ⟨fun _ _ => ⟨rfl, hip, hdepth⟩, fun _ he => by cases he⟩
  | some i =>
    rw [hi] at hstep
    have hfits := p.fits.2.at hi
    rw [Nat.zero_add] at hfits
    have hkeeps : KeepsDepth p.depthAt p.code.length p.code.toArray
        (execute host ⟨p.code.toArray, ip + 1, stack, globals, steps + 1⟩ s i.op) :=
      hfits.keeps (List.getElem?_eq_some_iff.1 hi).1 hdepth p.code.toArray globals (steps + 1) s
    dsimp only at hstep
    split at hstep
    · next hrun =>
      rw [hrun] at hkeeps
      cases hstep
      exact ⟨fun _ _ => ⟨hkeeps.1, hkeeps.2.1, hkeeps.2.2⟩, fun _ he => by cases he⟩
    · next hrun =>
      rw [hrun] at hkeeps
      cases hstep
      constructor
      · intro status hstatus
        cases hstatus
      · intro e he
        cases he
        exact hkeeps

/-- **A run keeps to the depths**, whether or not it comes to an end. -/
theorem of_reaches {s₀ : σ} (h : Reaches host (.ofProgram p, s₀) (m, s)) : m.OnDepth p := by
  generalize hy : (m, s) = y at h
  induction h generalizing m s with
  | refl =>
    cases hy
    exact ofProgram p
  | @tail x y _ hxy ih =>
    obtain ⟨status, hstep⟩ := hxy
    cases hy
    exact ((ih rfl).step hstep).1 status rfl

/-- A run of a program ends with an empty stack. -/
theorem stack_eq_nil (h : m.OnDepth p) (hdone : m.isDone = true) : m.stack = [] := by
  have hend : p.code.length ≤ m.ip := by
    simpa [Machine.isDone, h.code] using hdone
  exact List.eq_nil_of_length_eq_zero (h.depth.trans (Program.depthAt_of_length_le hend))

end Machine.OnDepth

end Runs

/-! ## Where a statement begins -/

theorem bodyDepths_append (ss ts : List Statement) :
    bodyDepths (ss ++ ts) = bodyDepths ss ++ bodyDepths ts := by
  induction ss with
  | nil => rfl
  | cons s ss ih => rw [List.cons_append, bodyDepths, bodyDepths, ih, List.append_assoc]

/-- **No value is on the stack between two statements of a program.** -/
theorem Program.depthAt_statement {p : Program} {before after : List Statement}
    (h : p.body = before ++ after) : p.depthAt (bodyCode 0 before).length = 0 := by
  have hagrees := p.agrees
  rw [h, bodyDepths_append, agrees_append, (bodyCode_balanced before 0).length] at hagrees
  have hcode : p.code.length = (bodyCode 0 before).length +
      (bodyCode (0 + (bodyCode 0 before).length) after).length := by
    rw [Program.code, h, bodyCode_append, List.length_append]
  have hend := p.depthAt_of_length_le (Nat.le_of_eq hcode)
  rw [Nat.zero_add] at hagrees hend hcode
  exact ((bodyCode_balanced after _).fits hagrees.2 hend (Nat.le_of_eq hcode.symm)).1

/-- **Compiled code is safe.**  The compiler puts out as many positions as instructions, namely
those of the code, and no jump leads behind the end; and in every run of the machine, which need not
come to an end, the stack is as deep as the program says for the place, so nothing is ever missing
from it.  It is empty where a statement of the program begins and when the run is over. -/
theorem Program.stack_safe (p : Program) :
    Draft.ofProgram p = ⟨p.code.map Instr.op, p.code.map Instr.pos⟩ ∧
    (Draft.ofProgram p).ops.length = (Draft.ofProgram p).positions.length ∧
    (∀ i ∈ p.code, ∀ target ∈ i.op.target?, target ≤ p.code.length) ∧
    (∀ before s after, p.body = before ++ s :: after →
      Installed p.code (bodyCode 0 before).length (s.code (bodyCode 0 before).length) ∧
        p.depthAt (bodyCode 0 before).length = 0) ∧
    ∀ {σ : Type} (host : Host σ) (s₀ s : σ) (m : Machine),
      Reaches host (.ofProgram p, s₀) (m, s) →
        m.code = p.code.toArray ∧ m.stack.length = p.depthAt m.ip ∧
        (m.isDone = true → m.stack = []) ∧
        ∀ m' s' e, m.step host s = (m', s', .error e) → e.fault ≠ .stackUnderflow := by
  refine ⟨?_, ?_, ?_, ?_, ?_⟩
  · exact Draft.ofProgram_eq p
  · rw [Draft.ofProgram_eq, List.length_map, List.length_map]
  · intro i hi target htarget
    obtain ⟨k, hk⟩ := List.mem_iff_getElem?.1 hi
    exact (p.fits.2.at hk).target_le htarget
  · intro before s after hbody
    refine ⟨?_, p.depthAt_statement hbody⟩
    have hcode : Installed p.code 0 p.code := Installed.whole p.code
    rw [Program.code, hbody, bodyCode_append, bodyCode, Nat.zero_add] at hcode
    simpa [Program.code, hbody, bodyCode_append, bodyCode] using hcode.right.left
  · intro σ host s₀ s m hreaches
    have hdepth := Machine.OnDepth.of_reaches hreaches
    refine ⟨hdepth.code, hdepth.depth, hdepth.stack_eq_nil, fun m' s' e hstep => ?_⟩
    exact (hdepth.step hstep).2 e rfl

/-- A loop with a call and both kinds of choice between values in it. -/
def countingLoop : Statement :=
  .whileLoop .start (.binary .start .and (.var .start "n") (.bool .start true))
    [.expr .start (.call .start "f" [.string .start "n",
        .conditional .start (.var .start "n") (.unary .start .negate (.var .start "n"))
          (.null .start)]),
      .assign .start "n" .sub (.number .start 1)]

/-- A program that counts down. -/
def countdown : Program := ⟨[.declare .start [("n", some (.number .start 2))], countingLoop]⟩

/-- A host without functions. -/
def bareHost : Host Unit := ⟨fun s _ _ => (none, s)⟩

/-- The machine of `countdown` after one instruction. -/
def countdownBegun : Machine := ⟨countdown.code.toArray, 1, [.number 2], Table.empty, 1⟩

theorem countdown_stack_safe :
    bodyDepths countdown.body = [0, 1, 0, 1, 0, 1, 0, 1, 2, 1, 2, 2, 1, 2, 1, 0, 1, 2, 1, 0] ∧
    (∀ i ∈ countdown.code, ∀ target ∈ i.op.target?, target ≤ countdown.code.length) ∧
    (Installed countdown.code 2 (countingLoop.code 2) ∧ countdown.depthAt 2 = 0) ∧
    Reaches bareHost (.ofProgram countdown, ()) (countdownBegun, ()) ∧
    countdownBegun.stack.length = countdown.depthAt 1 ∧
    ∀ m s e, countdownBegun.step bareHost () = (m, s, .error e) → e.fault ≠ .stackUnderflow := by
  obtain ⟨-, -, htargets, hplaces, hruns⟩ := Program.stack_safe countdown
  have hplace := hplaces [.declare .start [("n", some (.number .start 2))]] countingLoop [] rfl
  have hreaches : Reaches bareHost (.ofProgram countdown, ()) (countdownBegun, ()) :=
    .single ⟨.running, rfl⟩
  obtain ⟨-, hdepth, -, hfault⟩ := hruns bareHost () () countdownBegun hreaches
  exact ⟨by decide, htargets, hplace, hreaches, hdepth, hfault⟩

end Script
end VisualBlocks
