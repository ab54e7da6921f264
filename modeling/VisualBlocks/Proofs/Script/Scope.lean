import VisualBlocks.Proofs.Script.Callees
import VisualBlocks.Proofs.Script.Evaluation

/-!
# What a program names

An expression names variables and functions (`Expr.vars`, `Expr.callees`).  A `Scope` says
which of them may be named, and `Scoped S ss` that the statements `ss` name nothing else: a variable
that they read or change is in the scope, or it has been declared before, by a declaration or in the
head of a loop.

* `Scoped.of_strip`: positions do not matter for what is named.
* **Statements in a scope only fault over names of the scope that have no value** (`Runs.scoped`).
  Variables never lose their value, so what has been declared once stays defined.
* `bodyCounters` are the variables that are declared in the heads of loops.
-/

set_option autoImplicit false

namespace VisualBlocks
namespace Script

/-! ## Expressions -/

mutual

/-- The variables that an expression reads, from left to right. -/
def Expr.vars : Expr → List String
  | .number _ _ | .string _ _ | .bool _ _ | .null _ => []
  | .var _ name => [name]
  | .unary _ _ operand => operand.vars
  | .binary _ _ left right => left.vars ++ right.vars
  | .conditional _ test yes no => test.vars ++ (yes.vars ++ no.vars)
  | .call _ _ args => argVars args

/-- The variables that the arguments of a call read. -/
def argVars : List Expr → List String
  | [] => []
  | e :: es => e.vars ++ argVars es

end

mutual

theorem Expr.vars_strip : ∀ e : Expr, e.strip.vars = e.vars
  | .number _ _ => rfl
  | .string _ _ => rfl
  | .bool _ _ => rfl
  | .null _ => rfl
  | .var _ _ => rfl
  | .unary _ _ operand => by simp [Expr.strip, Expr.vars, Expr.vars_strip operand]
  | .binary _ _ left right => by
    simp [Expr.strip, Expr.vars, Expr.vars_strip left, Expr.vars_strip right]
  | .conditional _ test yes no => by
    simp [Expr.strip, Expr.vars, Expr.vars_strip test, Expr.vars_strip yes,
      Expr.vars_strip no]
  | .call _ _ args => by simp [Expr.strip, Expr.vars, argVars_strip args]

theorem argVars_strip : ∀ es : List Expr, argVars (stripAll es) = argVars es
  | [] => rfl
  | e :: es => by
    simp [stripAll, argVars, Expr.vars_strip e, argVars_strip es]

end

theorem argVars_eq (es : List Expr) : argVars es = es.flatMap Expr.vars := by
  induction es with
  | nil => rfl
  | cons e es ih => rw [argVars, ih, List.flatMap_cons]

theorem argCallees_eq (es : List Expr) : argCallees es = es.flatMap Expr.callees := by
  induction es with
  | nil => rfl
  | cons e es ih => rw [argCallees, ih, List.flatMap_cons]

/-- The variables and the functions that may be named. -/
structure Scope where
  vars : String → Prop
  functions : String → Prop

namespace Scope

/-- The scope with further variables. -/
def extend (S : Scope) (names : List String) : Scope :=
  { S with vars := fun x => S.vars x ∨ x ∈ names }

/-- The scope behind the first statement of a loop, which may declare variables. -/
def after (S : Scope) : Option Statement → Scope
  | some (.declare _ ds) => S.extend (ds.map (·.1))
  | _ => S

/-- Is all that may be named in one scope in the other one too? -/
structure Within (S T : Scope) : Prop where
  vars : ∀ x, S.vars x → T.vars x
  functions : ∀ f, S.functions f → T.functions f

variable {S T : Scope}

theorem Within.refl (S : Scope) : S.Within S := ⟨fun _ h => h, fun _ h => h⟩

theorem Within.trans {U : Scope} (h : S.Within T) (h' : T.Within U) : S.Within U :=
  ⟨fun x hx => h'.vars x (h.vars x hx), fun f hf => h'.functions f (h.functions f hf)⟩

theorem within_extend (S : Scope) (names : List String) : S.Within (S.extend names) :=
  ⟨fun _ h => .inl h, fun _ h => h⟩

theorem Within.extend (h : S.Within T) (names : List String) :
    (S.extend names).Within (T.extend names) :=
  ⟨fun x hx => hx.imp_left (h.vars x), h.functions⟩

theorem within_after (S : Scope) (init : Option Statement) : S.Within (S.after init) := by
  rw [after.eq_def]
  split
  · exact S.within_extend _
  · exact .refl S

theorem Within.after (h : S.Within T) (init : Option Statement) :
    (S.after init).Within (T.after init) := by
  rw [Scope.after.eq_def, Scope.after.eq_def]
  split
  · exact h.extend _
  · exact h

end Scope

/-- Does the expression name nothing outside the scope? -/
structure Expr.InScope (e : Expr) (S : Scope) : Prop where
  vars : ∀ x ∈ e.vars, S.vars x
  callees : ∀ f ∈ e.callees, S.functions f

namespace Expr.InScope

variable {S T : Scope} {a b c e : Expr} {pos : Position}

theorem mono (h : e.InScope S) (hST : S.Within T) : e.InScope T :=
  ⟨fun x hx => hST.vars x (h.vars x hx), fun f hf => hST.functions f (h.callees f hf)⟩

theorem var {name : String} (h : S.vars name) : (Expr.var pos name).InScope S := by
  refine ⟨fun x hx => ?_, nofun⟩
  rwa [List.mem_singleton.1 hx]

theorem unary (op : UnaryOp) (h : a.InScope S) : (Expr.unary pos op a).InScope S :=
  ⟨h.vars, h.callees⟩

theorem binary_iff {op : BinaryOp} :
    (Expr.binary pos op a b).InScope S ↔ a.InScope S ∧ b.InScope S := by
  refine ⟨fun h => ⟨⟨fun x hx => ?_, fun f hf => ?_⟩, fun x hx => ?_, fun f hf => ?_⟩,
    fun ⟨ha, hb⟩ => ⟨fun x hx => ?_, fun f hf => ?_⟩⟩
  · exact h.vars x (List.mem_append_left _ hx)
  · exact h.callees f (List.mem_append_left _ hf)
  · exact h.vars x (List.mem_append_right _ hx)
  · exact h.callees f (List.mem_append_right _ hf)
  · exact (List.mem_append.1 hx).elim (ha.vars x) (hb.vars x)
  · exact (List.mem_append.1 hf).elim (ha.callees f) (hb.callees f)

theorem conditional_iff :
    (Expr.conditional pos a b c).InScope S ↔ a.InScope S ∧ b.InScope S ∧ c.InScope S := by
  have hall : (Expr.conditional pos a b c).InScope S ↔
      (Expr.binary pos .and a (.binary pos .and b c)).InScope S :=
    ⟨fun h => ⟨h.vars, h.callees⟩, fun h => ⟨h.vars, h.callees⟩⟩
  rw [hall, binary_iff, binary_iff]

theorem call_iff {callee : String} {args : List Expr} :
    (Expr.call pos callee args).InScope S ↔ S.functions callee ∧ ∀ e ∈ args, e.InScope S := by
  have hvariables : (Expr.call pos callee args).vars = args.flatMap Expr.vars :=
    argVars_eq args
  have hcallees : (Expr.call pos callee args).callees = args.flatMap Expr.callees ++ [callee] :=
    congrArg (· ++ [callee]) (argCallees_eq args)
  constructor
  · rintro ⟨hv, hc⟩
    rw [hvariables] at hv
    rw [hcallees] at hc
    refine ⟨hc callee (List.mem_append_right _ List.mem_cons_self), fun e he => ⟨fun x hx => ?_,
      fun f hf => ?_⟩⟩
    · exact hv x (List.mem_flatMap.2 ⟨e, he, hx⟩)
    · exact hc f (List.mem_append_left _ (List.mem_flatMap.2 ⟨e, he, hf⟩))
  · rintro ⟨hcallee, hargs⟩
    refine ⟨fun x hx => ?_, fun f hf => ?_⟩
    · rw [hvariables] at hx
      obtain ⟨e, he, hx⟩ := List.mem_flatMap.1 hx
      exact (hargs e he).vars x hx
    · rw [hcallees] at hf
      rcases List.mem_append.1 hf with hf | hf
      · obtain ⟨e, he, hf⟩ := List.mem_flatMap.1 hf
        exact (hargs e he).callees f hf
      · rwa [List.mem_singleton.1 hf]

end Expr.InScope

/-- The expression reads these variables and calls no function. -/
structure Expr.Names (e : Expr) (names : List String) : Prop where
  vars : e.vars = names
  callees : e.callees = []

theorem Expr.Names.inScope {e : Expr} {names : List String} (h : e.Names names) {S : Scope}
    (hnames : ∀ x ∈ names, S.vars x) : e.InScope S := by
  refine ⟨h.vars ▸ hnames, ?_⟩
  rw [h.callees]
  exact nofun

/-- Positions do not matter for what an expression names. -/
theorem Expr.inScope_strip {e : Expr} {S : Scope} : e.strip.InScope S ↔ e.InScope S := by
  refine ⟨fun h => ⟨?_, ?_⟩, fun h => ⟨?_, ?_⟩⟩
  · exact e.vars_strip ▸ h.vars
  · exact e.callees_strip ▸ h.callees
  · exact e.vars_strip.symm ▸ h.vars
  · exact e.callees_strip.symm ▸ h.callees

/-- How an expression is grouped does not matter for what it names. -/
theorem Regrouped.inScope_iff {a b : Expr} {S : Scope} (h : Regrouped a b) :
    a.InScope S ↔ b.InScope S := by
  induction h with
  | refl e => rfl
  | symm _ ih => exact ih.symm
  | trans _ _ ihab ihbc => exact ihab.trans ihbc
  | group hop a b c => simp only [Expr.InScope.binary_iff, and_assoc]
  | unary op _ ih => exact ⟨fun h => (ih.1 ⟨h.vars, h.callees⟩).unary op,
      fun h => (ih.2 ⟨h.vars, h.callees⟩).unary op⟩
  | binary op _ _ ihab ihcd => rw [Expr.InScope.binary_iff, Expr.InScope.binary_iff, ihab, ihcd]
  | conditional _ _ _ ihab ihcd ihef =>
    rw [Expr.InScope.conditional_iff, Expr.InScope.conditional_iff, ihab, ihcd, ihef]
  | call callee before after _ ih =>
    simp only [Expr.InScope.call_iff, List.forall_mem_append, List.forall_mem_cons, ih]

/-! ## Statements -/

/-- The statements name nothing outside the scope but what they have declared before. -/
inductive Scoped : Scope → List Statement → Prop
  | nil (S : Scope) : Scoped S []
  | declare {S : Scope} {pos : Position} {ds : List (String × Option Expr)} {rest : List Statement}
      (hds : ∀ d ∈ ds, ∀ e ∈ d.2, e.InScope S) (hrest : Scoped (S.extend (ds.map (·.1))) rest) :
      Scoped S (.declare pos ds :: rest)
  | assign {S : Scope} {pos : Position} {name : String} {op : AssignOp} {value : Expr}
      {rest : List Statement} (hname : S.vars name) (hvalue : value.InScope S)
      (hrest : Scoped S rest) : Scoped S (.assign pos name op value :: rest)
  | expr {S : Scope} {pos : Position} {value : Expr} {rest : List Statement}
      (hvalue : value.InScope S) (hrest : Scoped S rest) : Scoped S (.expr pos value :: rest)
  | ifElse {S : Scope} {pos : Position} {branches : List (Expr × List Statement)}
      {otherwise rest : List Statement} (hconditions : ∀ b ∈ branches, b.1.InScope S)
      (hbodies : ∀ b ∈ branches, Scoped S b.2) (hotherwise : Scoped S otherwise)
      (hrest : Scoped S rest) : Scoped S (.ifElse pos branches otherwise :: rest)
  | whileLoop {S : Scope} {pos : Position} {condition : Expr} {body rest : List Statement}
      (hcondition : condition.InScope S) (hbody : Scoped S body) (hrest : Scoped S rest) :
      Scoped S (.whileLoop pos condition body :: rest)
  | forLoop {S : Scope} {pos : Position} {init : Option Statement} {condition : Option Expr}
      {update : Option Statement} {body rest : List Statement} (hinit : Scoped S init.toList)
      (hcondition : ∀ e ∈ condition, e.InScope (S.after init)) (hbody : Scoped (S.after init) body)
      (hupdate : Scoped (S.after init) update.toList) (hrest : Scoped (S.after init) rest) :
      Scoped S (.forLoop pos init condition update body :: rest)

namespace Scoped

variable {S T : Scope} {ss ts : List Statement}

theorem mono (h : Scoped S ss) (hST : S.Within T) : Scoped T ss := by
  induction h generalizing T with
  | nil S => exact .nil T
  | declare hds _ ih =>
    exact .declare (fun d hd e he => (hds d hd e he).mono hST) (ih (hST.extend _))
  | assign hname hvalue _ ih => exact .assign (hST.vars _ hname) (hvalue.mono hST) (ih hST)
  | expr hvalue _ ih => exact .expr (hvalue.mono hST) (ih hST)
  | ifElse hconditions _ _ _ ihbodies ihotherwise ih =>
    exact .ifElse (fun b hb => (hconditions b hb).mono hST) (fun b hb => ihbodies b hb hST)
      (ihotherwise hST) (ih hST)
  | whileLoop hcondition _ _ ihbody ih =>
    exact .whileLoop (hcondition.mono hST) (ihbody hST) (ih hST)
  | forLoop _ hcondition _ _ _ ihinit ihbody ihupdate ih =>
    exact .forLoop (ihinit hST) (fun e he => (hcondition e he).mono (hST.after _))
      (ihbody (hST.after _)) (ihupdate (hST.after _)) (ih (hST.after _))

/-- What is in a scope on its own is in it behind other statements. -/
theorem append (hs : Scoped S ss) (ht : Scoped S ts) : Scoped S (ss ++ ts) := by
  induction hs with
  | nil S => exact ht
  | declare hds _ ih => exact .declare hds (ih (ht.mono (Scope.within_extend _ _)))
  | assign hname hvalue _ ih => exact .assign hname hvalue (ih ht)
  | expr hvalue _ ih => exact .expr hvalue (ih ht)
  | ifElse hconditions hbodies hotherwise _ _ _ ih =>
    exact .ifElse hconditions hbodies hotherwise (ih ht)
  | whileLoop hcondition hbody _ _ ih => exact .whileLoop hcondition hbody (ih ht)
  | forLoop hinit hcondition hbody hupdate _ _ _ _ ih =>
    exact .forLoop hinit hcondition hbody hupdate (ih (ht.mono (Scope.within_after _ _)))

end Scoped

theorem Scope.after_strip (S : Scope) (init : Option Statement) :
    S.after (stripOption init) = S.after init := by
  cases init with
  | none => rfl
  | some s =>
    cases s with
    | declare pos ds => simp [stripOption, Statement.strip, Scope.after, Function.comp_def]
    | _ => rfl

theorem stripStatements_toList (s : Option Statement) :
    stripStatements s.toList = (stripOption s).toList := by
  cases s <;> rfl

theorem exists_of_mem_stripBranches {branches : List (Expr × List Statement)}
    {b : Expr × List Statement} (h : b ∈ branches) :
    (b.1.strip, stripStatements b.2) ∈ stripBranches branches := by
  induction branches with
  | nil => cases h
  | cons c cs ih =>
    obtain ⟨condition, body⟩ := c
    rw [stripBranches]
    rcases List.mem_cons.1 h with rfl | h
    · exact List.mem_cons_self
    · exact List.mem_cons_of_mem _ (ih h)

/-- **Positions do not matter for what statements name.** -/
theorem Scoped.of_strip {S : Scope} {ts : List Statement} (h : Scoped S ts) :
    ∀ {ss : List Statement}, stripStatements ss = ts → Scoped S ss := by
  induction h with
  | nil S =>
    rintro (_ | ⟨s, ss⟩) heq
    · exact .nil S
    · cases heq
  | declare hds _ ih =>
    rintro (_ | ⟨_ | _ | _ | _ | _ | _, ss⟩) heq <;> simp [stripStatements, Statement.strip] at heq
    obtain ⟨⟨rfl, rfl⟩, heq⟩ := heq
    refine .declare (fun d hd e he => ?_) ?_
    · have hstrip := hds (d.1, d.2.map Expr.strip) (List.mem_map.2 ⟨d, hd, rfl⟩) e.strip
        (Option.mem_map_of_mem _ he)
      exact Expr.inScope_strip.1 hstrip
    · simpa [Function.comp_def] using ih heq
  | assign hname hvalue _ ih =>
    rintro (_ | ⟨_ | _ | _ | _ | _ | _, ss⟩) heq <;> simp [stripStatements, Statement.strip] at heq
    obtain ⟨⟨rfl, rfl, rfl, rfl⟩, heq⟩ := heq
    exact .assign hname (Expr.inScope_strip.1 hvalue) (ih heq)
  | expr hvalue _ ih =>
    rintro (_ | ⟨_ | _ | _ | _ | _ | _, ss⟩) heq <;> simp [stripStatements, Statement.strip] at heq
    obtain ⟨⟨rfl, rfl⟩, heq⟩ := heq
    exact .expr (Expr.inScope_strip.1 hvalue) (ih heq)
  | ifElse hconditions _ _ _ ihbodies ihotherwise ih =>
    rintro (_ | ⟨_ | _ | _ | _ | _ | _, ss⟩) heq <;> simp [stripStatements, Statement.strip] at heq
    obtain ⟨⟨rfl, rfl, hotherwise⟩, heq⟩ := heq
    refine .ifElse (fun b hb => ?_) (fun b hb => ?_) (ihotherwise hotherwise) (ih heq)
    · exact Expr.inScope_strip.1 (hconditions _ (exists_of_mem_stripBranches hb))
    · exact ihbodies _ (exists_of_mem_stripBranches hb) rfl
  | whileLoop hcondition _ _ ihbody ih =>
    rintro (_ | ⟨_ | _ | _ | _ | _ | _, ss⟩) heq <;> simp [stripStatements, Statement.strip] at heq
    obtain ⟨⟨rfl, rfl, hbody⟩, heq⟩ := heq
    exact .whileLoop (Expr.inScope_strip.1 hcondition) (ihbody hbody) (ih heq)
  | forLoop _ hcondition _ _ _ ihinit ihbody ihupdate ih =>
    rintro (_ | ⟨_ | _ | _ | _ | _ | _, ss⟩) heq <;> simp [stripStatements, Statement.strip] at heq
    obtain ⟨⟨rfl, rfl, rfl, rfl, hbody⟩, heq⟩ := heq
    rw [Scope.after_strip] at *
    refine .forLoop (ihinit (stripStatements_toList _)) (fun e he => ?_) (ihbody hbody)
      (ihupdate (stripStatements_toList _)) (ih heq)
    exact Expr.inScope_strip.1 (hcondition e.strip (Option.mem_map_of_mem _ he))

/-! ## Counters -/

/-- The variables that a statement declares, if it is a declaration. -/
def declaredBy : Option Statement → List String
  | some (.declare _ ds) => ds.map (·.1)
  | _ => []

mutual

/-- The variables that a statement declares in the heads of loops, those of inner loops first. -/
def Statement.counters : Statement → List String
  | .declare _ _ | .assign _ _ _ _ | .expr _ _ => []
  | .ifElse _ branches otherwise => branchCounters branches ++ bodyCounters otherwise
  | .whileLoop _ _ body => bodyCounters body
  | .forLoop _ init _ _ body => bodyCounters body ++ declaredBy init

/-- The variables that statements declare in the heads of loops. -/
def bodyCounters : List Statement → List String
  | [] => []
  | s :: ss => s.counters ++ bodyCounters ss

/-- The variables that are declared in the heads of loops under conditions. -/
def branchCounters : List (Expr × List Statement) → List String
  | [] => []
  | (_, body) :: rest => bodyCounters body ++ branchCounters rest

end

theorem bodyCounters_append (ss ts : List Statement) :
    bodyCounters (ss ++ ts) = bodyCounters ss ++ bodyCounters ts := by
  induction ss with
  | nil => rfl
  | cons s ss ih => simp [bodyCounters, ih]

theorem declaredBy_strip (s : Option Statement) : declaredBy (stripOption s) = declaredBy s := by
  cases s with
  | none => rfl
  | some s => cases s <;> simp [stripOption, Statement.strip, declaredBy, Function.comp_def]

mutual

theorem counters_strip : ∀ s : Statement, s.strip.counters = s.counters
  | .declare _ _ => rfl
  | .assign _ _ _ _ => rfl
  | .expr _ _ => rfl
  | .ifElse _ branches otherwise => by
    simp [Statement.strip, Statement.counters, branchCounters_strip branches,
      bodyCounters_strip otherwise]
  | .whileLoop _ _ body => by simp [Statement.strip, Statement.counters, bodyCounters_strip body]
  | .forLoop _ init _ _ body => by
    simp [Statement.strip, Statement.counters, bodyCounters_strip body, declaredBy_strip init]

/-- Positions do not matter for the counters of loops. -/
theorem bodyCounters_strip : ∀ ss : List Statement,
    bodyCounters (stripStatements ss) = bodyCounters ss
  | [] => rfl
  | s :: ss => by simp [stripStatements, bodyCounters, counters_strip s, bodyCounters_strip ss]

theorem branchCounters_strip : ∀ bs : List (Expr × List Statement),
    branchCounters (stripBranches bs) = branchCounters bs
  | [] => rfl
  | (condition, body) :: rest => by
    simp [stripBranches, branchCounters, bodyCounters_strip body, branchCounters_strip rest]

end

/-! ## Runs -/

section Runs

variable {σ : Type} {host : Host σ} {S : Scope}

/-- Does every variable of the scope have a value, but for those of which `odd` holds? -/
def Covers (globals : Table Value) (odd : String → Prop) (S : Scope) : Prop :=
  ∀ x, S.vars x → (globals.get? x).isSome = true ∨ odd x

/-- Do all variables keep a value? -/
def Keeps (globals globals' : Table Value) : Prop :=
  ∀ x, (globals.get? x).isSome = true → (globals'.get? x).isSome = true

theorem Keeps.refl (globals : Table Value) : Keeps globals globals := fun _ h => h

theorem Keeps.trans {a b c : Table Value} (h : Keeps a b) (h' : Keeps b c) : Keeps a c :=
  fun x hx => h' x (h x hx)

theorem keeps_set (globals : Table Value) (name : String) (v : Value) :
    Keeps globals (globals.set name v) := by
  intro x hx
  rw [Table.get?_set]
  split
  · rfl
  · exact hx

theorem Covers.keeps {globals globals' : Table Value} {odd : String → Prop}
    (h : Covers globals odd S) (hkeeps : Keeps globals globals') : Covers globals' odd S :=
  fun x hx => (h x hx).imp_left (hkeeps x)

/-- Variables that have a value can be added to the scope. -/
theorem Covers.extend {globals : Table Value} {odd : String → Prop} {names : List String}
    (h : Covers globals odd S) (hnames : ∀ x ∈ names, (globals.get? x).isSome = true) :
    Covers globals odd (S.extend names) := by
  rintro x (hx | hx)
  · exact h x hx
  · exact .inl (hnames x hx)

/-- The functions of the scope return a value, whatever they are given. -/
def Serves (host : Host σ) (S : Scope) : Prop :=
  ∀ f, S.functions f → ∀ s args, ∃ v t, callFunction host s f args = (.ok v, t)

theorem Serves.after {init : Option Statement} (h : Serves host S) : Serves host (S.after init) := by
  rw [Scope.after.eq_def]
  split <;> exact h

/-- The fault is over one of the names that `odd` holds of. -/
def Odd (odd : String → Prop) (e : RuntimeError) : Prop :=
  ∃ x, odd x ∧ e.fault = .notDefined x

/-- The computation has a result, or its fault is over one of the odd names. -/
def Sure {α : Type} (odd : String → Prop) (x : Evaluation σ α) : Prop :=
  ∀ s e t, x s = (.error e, t) → Odd odd e

variable {odd : String → Prop}

theorem Sure.pure {α : Type} (a : α) : Sure odd (Pure.pure a : Evaluation σ α) :=
  fun _ _ _ h => absurd (congrArg Prod.fst h) nofun

theorem Sure.bind {α β : Type} {x : Evaluation σ α} {f : α → Evaluation σ β} (hx : Sure odd x)
    (hf : ∀ a, Sure odd (f a)) : Sure odd (x >>= f) := by
  intro s e t h
  rw [Evaluation.bind_apply] at h
  cases hxs : x s with
  | mk r u =>
    rw [hxs] at h
    cases r with
    | ok a => exact hf a u e t h
    | error e' =>
      obtain ⟨he, rfl⟩ := Prod.mk.inj h
      obtain rfl := Except.error.inj he
      exact hx s e' u hxs

theorem sure_lookUp {globals : Table Value} {pos : Position} {name : String}
    (h : (globals.get? name).isSome = true ∨ odd name) :
    Sure odd (lookUp globals pos name : Evaluation σ Value) := by
  rw [lookUp]
  cases hget : globals.get? name with
  | some v => exact .pure v
  | none =>
    intro s e t heq
    obtain rfl := Except.error.inj (congrArg Prod.fst heq)
    rw [hget] at h
    exact ⟨name, h.resolve_left Bool.false_ne_true, rfl⟩

theorem sure_applyFunction {pos : Position} {callee : String} {args : List Value}
    (hserves : Serves host S) (h : S.functions callee) :
    Sure odd (applyFunction host pos callee args) := by
  intro s e t heq
  obtain ⟨v, u, hcall⟩ := hserves callee h s args
  rw [applyFunction, hcall] at heq
  cases heq

variable {globals : Table Value}

mutual

/-- **An expression in the scope only faults over odd names.** -/
theorem Expr.InScope.sure (hcovers : Covers globals odd S) (hserves : Serves host S) :
    ∀ e : Expr, e.InScope S → Sure odd (e.eval host globals)
  | .number _ _, _ => .pure _
  | .string _ _, _ => .pure _
  | .bool _ _, _ => .pure _
  | .null _, _ => .pure _
  | .var _ name, h => sure_lookUp (hcovers name (h.vars name List.mem_cons_self))
  | .unary _ op operand, h =>
    (Expr.InScope.sure hcovers hserves operand ⟨h.vars, h.callees⟩).bind fun _ => .pure _
  | .binary pos op left right, h => by
    obtain ⟨hleft, hright⟩ := Expr.InScope.binary_iff.1 h
    rw [Expr.eval]
    refine (Expr.InScope.sure hcovers hserves left hleft).bind fun a => ?_
    have hr := Expr.InScope.sure hcovers hserves right hright
    have hcombine : Sure odd (do return Value.binary op a (← right.eval host globals)) :=
      hr.bind fun _ => .pure _
    cases op
    case and =>
      dsimp only
      split
      · exact hr
      · exact .pure _
    case or =>
      dsimp only
      split
      · exact .pure _
      · exact hr
    all_goals exact hcombine
  | .conditional pos test yes no, h => by
    obtain ⟨htest, hyes, hno⟩ := Expr.InScope.conditional_iff.1 h
    rw [Expr.eval]
    refine (Expr.InScope.sure hcovers hserves test htest).bind fun v => ?_
    split
    · exact Expr.InScope.sure hcovers hserves yes hyes
    · exact Expr.InScope.sure hcovers hserves no hno
  | .call pos callee args, h => by
    obtain ⟨hcallee, hargs⟩ := Expr.InScope.call_iff.1 h
    rw [Expr.eval]
    exact (sure_evalArgs hcovers hserves args hargs).bind fun vs => sure_applyFunction hserves hcallee

theorem sure_evalArgs (hcovers : Covers globals odd S) (hserves : Serves host S) :
    ∀ es : List Expr, (∀ e ∈ es, e.InScope S) → Sure odd (evalArgs host globals es)
  | [], _ => .pure _
  | e :: es, h => by
    rw [List.forall_mem_cons] at h
    rw [evalArgs]
    exact (Expr.InScope.sure hcovers hserves e h.1).bind fun v =>
      (sure_evalArgs hcovers hserves es h.2).bind fun vs => .pure _

end

/-! ### Statements -/

/-- What a computation changes, if it does not fail. -/
theorem Sure.after {α : Type} {x : Evaluation σ α} (hx : Sure odd x) (w : World σ)
    (change : α → Table Value) (hchange : ∀ a, Keeps w.globals (change a)) :
    Keeps w.globals (w.after x change).1.globals ∧ ∀ e ∈ (w.after x change).2, Odd odd e := by
  rw [World.after]
  cases hxw : x w.host with
  | mk r t =>
    cases r with
    | ok a => exact ⟨hchange a, nofun⟩
    | error e =>
      refine ⟨.refl _, fun e' he' => ?_⟩
      obtain rfl := Option.some.inj he'
      exact hx w.host e t hxw

theorem keeps_declareIn (globals : Table Value) (name : String) :
    Keeps globals (declareIn globals name) := by
  rw [declareIn]
  split
  · exact .refl _
  · exact keeps_set _ _ _

theorem isSome_declareIn (globals : Table Value) (name : String) :
    ((declareIn globals name).get? name).isSome = true := by
  rw [declareIn]
  split
  · next h => rw [h]; rfl
  · rw [Table.get?_set, if_pos rfl]; rfl

/-- **A declaration gives a value to every variable**, unless it fails over an odd name. -/
theorem declareAll_scoped (hserves : Serves host S) :
    ∀ (ds : List (String × Option Expr)) (w : World σ), (∀ d ∈ ds, ∀ e ∈ d.2, e.InScope S) →
      Covers w.globals odd S →
      Keeps w.globals (declareAll host ds w).1.globals ∧
        (∀ e ∈ (declareAll host ds w).2, Odd odd e) ∧
        ((declareAll host ds w).2 = none →
          ∀ x ∈ ds.map (·.1), ((declareAll host ds w).1.globals.get? x).isSome = true)
  | [], w, _, _ => ⟨.refl _, nofun, nofun⟩
  | (name, none) :: rest, w, hds, hcovers => by
    rw [List.forall_mem_cons] at hds
    have hname := keeps_declareIn w.globals name
    obtain ⟨hkeeps, hodd, hall⟩ :=
      declareAll_scoped hserves rest ⟨declareIn w.globals name, w.host⟩ hds.2 (hcovers.keeps hname)
    refine ⟨hname.trans hkeeps, hodd, fun h x hx => ?_⟩
    rcases List.mem_cons.1 hx with rfl | hx
    · exact hkeeps _ (isSome_declareIn _ _)
    · exact hall h x hx
  | (name, some e) :: rest, w, hds, hcovers => by
    rw [List.forall_mem_cons] at hds
    have hsure : Sure odd (e.eval host w.globals) :=
      Expr.InScope.sure hcovers hserves e (hds.1 e rfl)
    have hafter := hsure.after w (fun v => w.globals.set name v) fun v => keeps_set _ _ _
    have hset : (w.after (e.eval host w.globals) fun v => w.globals.set name v).2 = none →
        ((w.after (e.eval host w.globals) fun v => w.globals.set name v).1.globals.get?
          name).isSome = true := by
      rw [World.after]
      split
      · intro _
        rw [Table.get?_set, if_pos rfl]
        rfl
      · exact nofun
    rw [declareAll]
    split
    · next w' heq =>
      rw [heq] at hafter hset
      obtain ⟨hkeeps, hodd, hall⟩ := declareAll_scoped hserves rest w' hds.2 (hcovers.keeps hafter.1)
      refine ⟨hafter.1.trans hkeeps, hodd, fun h x hx => ?_⟩
      rcases List.mem_cons.1 hx with rfl | hx
      · exact hkeeps _ (hset rfl)
      · exact hall h x hx
    · next w' fault heq =>
      rw [heq] at hafter
      exact ⟨hafter.1, hafter.2, nofun⟩

theorem sure_assigned {w : World σ} {pos : Position} {name : String} {value : Expr} (op : AssignOp)
    (hcovers : Covers w.globals odd S) (hserves : Serves host S) (hname : S.vars name)
    (hvalue : value.InScope S) : Sure odd (assigned host w.globals pos name value op) := by
  have hv := Expr.InScope.sure hcovers hserves value hvalue
  cases op with
  | set => exact hv
  | add | sub => exact (sure_lookUp (hcovers name hname)).bind fun _ => hv.bind fun _ => .pure _

/-- The chosen branch is in the scope if all branches are. -/
theorem chosen_scoped {otherwise : List Statement} (hcovers : Covers globals odd S)
    (hserves : Serves host S) (hotherwise : Scoped S otherwise) :
    ∀ branches : List (Expr × List Statement), (∀ b ∈ branches, b.1.InScope S) →
      (∀ b ∈ branches, Scoped S b.2) →
      Sure odd (chosen host globals otherwise branches) ∧
        ∀ s body t, chosen host globals otherwise branches s = (.ok body, t) → Scoped S body
  | [], _, _ => by
    refine ⟨.pure _, fun s body t h => ?_⟩
    obtain rfl := Except.ok.inj (congrArg Prod.fst h)
    exact hotherwise
  | (condition, body) :: rest, hconditions, hbodies => by
    rw [List.forall_mem_cons] at hconditions hbodies
    have hcondition := Expr.InScope.sure hcovers hserves condition hconditions.1
    obtain ⟨hsure, hscoped⟩ :=
      chosen_scoped hcovers hserves hotherwise rest hconditions.2 hbodies.2
    rw [chosen]
    refine ⟨hcondition.bind fun v => ?_, fun s body' t h => ?_⟩
    · split
      · exact .pure _
      · exact hsure
    · rw [Evaluation.bind_apply] at h
      split at h
      · split at h
        · obtain rfl := Except.ok.inj (congrArg Prod.fst h)
          exact hbodies.1
        · exact hscoped _ _ _ h
      · cases h

theorem sure_goesOn {condition : Option Expr} (hcovers : Covers globals odd S)
    (hserves : Serves host S) (h : ∀ e ∈ condition, e.InScope S) :
    Sure odd (goesOn host globals condition) := by
  cases condition with
  | none => exact .pure _
  | some e => exact (Expr.InScope.sure hcovers hserves e (h e rfl)).bind fun _ => .pure _

/-- A statement without parts keeps the values of variables, and what follows it is in a scope of
which all variables have one. -/
theorem effect_scoped {s : Statement} {rest : List Statement} {w : World σ}
    {r : World σ × Option RuntimeError} (heffect : s.effect? host w = some r)
    (h : Scoped S (s :: rest)) (hcovers : Covers w.globals odd S) (hserves : Serves host S) :
    Keeps w.globals r.1.globals ∧ (∀ e ∈ r.2, Odd odd e) ∧
      (r.2 = none → Scoped (S.after (some s)) rest ∧ Covers r.1.globals odd (S.after (some s))) := by
  cases h with
  | declare hds hrest =>
    obtain rfl := Option.some.inj heffect
    obtain ⟨hkeeps, hodd, hall⟩ := declareAll_scoped hserves _ w hds hcovers
    exact ⟨hkeeps, hodd, fun hnone => ⟨hrest, (hcovers.keeps hkeeps).extend (hall hnone)⟩⟩
  | @assign _ pos name op value _ hname hvalue hrest =>
    obtain rfl := Option.some.inj heffect
    have hsure : Sure odd (assigned host w.globals pos name value op) :=
      sure_assigned op hcovers hserves hname hvalue
    obtain ⟨hkeeps, hodd⟩ :=
      hsure.after w (fun v => w.globals.set name v) fun v => keeps_set _ _ _
    exact ⟨hkeeps, hodd, fun _ => ⟨hrest, hcovers.keeps hkeeps⟩⟩
  | @expr _ pos value _ hvalue hrest =>
    obtain rfl := Option.some.inj heffect
    have hsure : Sure odd (value.eval host w.globals) :=
      Expr.InScope.sure hcovers hserves value hvalue
    obtain ⟨hkeeps, hodd⟩ := hsure.after w (fun _ => w.globals) fun _ => .refl _
    exact ⟨hkeeps, hodd, fun _ => ⟨hrest, hcovers.keeps hkeeps⟩⟩
  | ifElse | whileLoop | forLoop => cases heffect

/-- The scope behind the first statement of a loop is the scope behind that statement alone. -/
theorem covers_after {first : Statement} {w w' : World σ} (hruns : Runs host [first] w (w', none))
    (h : Scoped S [first]) (hcovers : Covers w.globals odd S) (hserves : Serves host S)
    (hkeeps : Keeps w.globals w'.globals) : Covers w'.globals odd (S.after (some first)) := by
  cases first with
  | declare pos ds =>
    cases hruns with
    | effect he hrest =>
      cases hrest
      exact ((effect_scoped he h hcovers hserves).2.2 rfl).2
    | leaves hs | again hs => cases hs
  | _ => exact hcovers.keeps hkeeps

/-- A loop that is under way is in its own scope. -/
theorem Scoped.loop {s : Statement} {rest round : List Statement} {condition : Option Expr}
    (h : Scoped S (s :: rest)) (hs : s.loop? = some (condition, round)) :
    (∀ e ∈ condition, e.InScope S) ∧ Scoped S round ∧ Scoped S rest := by
  cases h with
  | whileLoop hcondition hbody hrest =>
    cases hs
    exact ⟨fun e he => Option.some.inj he ▸ hcondition, hbody, hrest⟩
  | @forLoop _ _ init _ _ _ _ hinit hcondition hbody hupdate hrest =>
    cases init with
    | none =>
      cases hs
      exact ⟨hcondition, hbody.append hupdate, hrest⟩
    | some first => cases hs
  | _ => cases hs

/-- **Statements in a scope only fault over odd names**, and variables keep having values. -/
theorem Runs.scoped {ss : List Statement} {w : World σ} {r : World σ × Option RuntimeError}
    (h : Runs host ss w r) (hscoped : Scoped S ss) (hcovers : Covers w.globals odd S)
    (hserves : Serves host S) : Keeps w.globals r.1.globals ∧ ∀ e ∈ r.2, Odd odd e := by
  induction h generalizing S with
  | nil w => exact ⟨.refl _, nofun⟩
  | effect he _ ih =>
    obtain ⟨hkeeps, -, hrest⟩ := effect_scoped he hscoped hcovers hserves
    obtain ⟨hrest, hcovers'⟩ := hrest rfl
    obtain ⟨hkeeps', hodd⟩ := ih hrest hcovers' hserves.after
    exact ⟨hkeeps.trans hkeeps', hodd⟩
  | effectFault he =>
    obtain ⟨hkeeps, hodd, -⟩ := effect_scoped he hscoped hcovers hserves
    exact ⟨hkeeps, hodd⟩
  | branch hc _ _ ihbody ihrest =>
    cases hscoped with
    | ifElse hconditions hbodies hotherwise hrest =>
      have hbody := (chosen_scoped hcovers hserves hotherwise _ hconditions hbodies).2 _ _ _ hc
      obtain ⟨hkeeps, -⟩ := ihbody hbody hcovers hserves
      obtain ⟨hkeeps', hodd⟩ := ihrest hrest (hcovers.keeps hkeeps) hserves
      exact ⟨hkeeps.trans hkeeps', hodd⟩
  | branchFault hc _ ihbody =>
    cases hscoped with
    | ifElse hconditions hbodies hotherwise hrest =>
      exact ihbody ((chosen_scoped hcovers hserves hotherwise _ hconditions hbodies).2 _ _ _ hc)
        hcovers hserves
  | choiceFault hc =>
    cases hscoped with
    | ifElse hconditions hbodies hotherwise hrest =>
      refine ⟨.refl _, fun e he => ?_⟩
      obtain rfl := Option.some.inj he
      exact (chosen_scoped hcovers hserves hotherwise _ hconditions hbodies).1 _ _ _ hc
  | init hinitRuns _ ihinit ihloop =>
    cases hscoped with
    | forLoop hinit hcondition hbody hupdate hrest =>
      obtain ⟨hkeeps, -⟩ := ihinit hinit hcovers hserves
      have hcovers' := covers_after hinitRuns hinit hcovers hserves hkeeps
      obtain ⟨hkeeps', hodd⟩ :=
        ihloop (.forLoop (.nil _) hcondition hbody hupdate hrest) hcovers' hserves.after
      exact ⟨hkeeps.trans hkeeps', hodd⟩
  | initFault _ ihinit =>
    cases hscoped with
    | forLoop hinit => exact ihinit hinit hcovers hserves
  | leaves hs _ _ ihrest =>
    obtain ⟨-, -, hrest⟩ := hscoped.loop hs
    exact ihrest hrest hcovers hserves
  | again hs _ _ _ ihround ihagain =>
    obtain ⟨-, hround, -⟩ := hscoped.loop hs
    obtain ⟨hkeeps, -⟩ := ihround hround hcovers hserves
    obtain ⟨hkeeps', hodd⟩ := ihagain hscoped (hcovers.keeps hkeeps) hserves
    exact ⟨hkeeps.trans hkeeps', hodd⟩
  | roundFault hs _ _ ihround =>
    obtain ⟨-, hround, -⟩ := hscoped.loop hs
    exact ihround hround hcovers hserves
  | conditionFault hs hc =>
    obtain ⟨hcondition, -, -⟩ := hscoped.loop hs
    refine ⟨.refl _, fun e he => ?_⟩
    obtain rfl := Option.some.inj he
    exact sure_goesOn hcovers hserves hcondition _ _ _ hc

end Runs

end Script
end VisualBlocks
