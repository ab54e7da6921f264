import VisualBlocks.Proofs.Script.Moves

/-!
# The code of a program does what the program means

`Machine.run` on the code of a program and the evaluation of the program (`Runs`) agree: they end
alike, with the same variables, the same calls on the host and the same fault, and one of them ends
if the other does.

* `Expr.delivers`: the code of an expression leaves its value on the stack, or ends with its fault.
* `Runs.ends`: the code of statements ends as they do.  The induction is on the evaluation, since a
  loop is evaluated again and not a smaller statement.
* `runs_of_halts`: where the code comes to an end the evaluation does.  The induction is on the
  number of instructions that are left.
-/

set_option autoImplicit false

namespace VisualBlocks
namespace Script

variable {σ : Type} {host : Host σ} {C : Code}

/-! ## Expressions -/

variable (host C) in
/-- The code from `x` on ends as a computation did that leaves the variables alone: at the point
`fin` if the computation had a value, and with its fault otherwise. -/
def Delivers {α : Type} (x : Point σ) (globals : Table Value) (fin : α → σ → Point σ) :
    Except RuntimeError α × σ → Prop
  | (.ok a, t) => Leads host C x (fin a t)
  | (.error e, t) => Faults host C x ⟨globals, t⟩ e

namespace Delivers

variable {α β : Type} {x y : Point σ} {globals : Table Value} {mid : α → σ → Point σ}
  {fin : β → σ → Point σ}

theorem of_leads {r : Except RuntimeError β × σ} (h : Leads host C x y)
    (hr : Delivers host C y globals fin r) : Delivers host C x globals fin r := by
  rcases r with ⟨e | b, t⟩
  · exact Faults.of_leads h hr
  · exact Relation.ReflTransGen.trans h hr

theorem of_moves {r : Except RuntimeError β × σ} (h : Moves host C x y)
    (hr : Delivers host C y globals fin r) : Delivers host C x globals fin r :=
  of_leads (.single h) hr

theorem bind {c : Evaluation σ α} {f : α → Evaluation σ β} {s : σ}
    (h : Delivers host C x globals mid (c s))
    (hf : ∀ a t, Delivers host C (mid a t) globals fin (f a t)) :
    Delivers host C x globals fin ((c >>= f) s) := by
  rw [Evaluation.bind_apply]
  rcases hc : c s with ⟨e | a, t⟩ <;> rw [hc] at h
  · exact h
  · exact of_leads h (hf a t)

theorem followed {fin' : β → σ → Point σ} {r : Except RuntimeError β × σ}
    (h : Delivers host C x globals fin r) (hfin : ∀ b t, Leads host C (fin b t) (fin' b t)) :
    Delivers host C x globals fin' r := by
  rcases r with ⟨e | b, t⟩
  · exact h
  · exact Relation.ReflTransGen.trans h (hfin b t)

theorem pure {b : β} {s : σ} (h : Leads host C x (fin b s)) :
    Delivers host C x globals fin ((Pure.pure b : Evaluation σ β) s) := h

end Delivers

theorem lookUp_delivers {place : Nat} {pos : Position} {name : String} (stack : List Value)
    (globals : Table Value) (s : σ) (h : C[place]? = some ⟨.load name, pos⟩) :
    Delivers host C ⟨place, stack, globals, s⟩ globals
      (fun v t => ⟨place + 1, v :: stack, globals, t⟩) (lookUp globals pos name s) := by
  rw [lookUp]
  cases hv : globals.get? name with
  | some v => exact .pure (.single (moves_load h hv))
  | none => exact (fails_load h hv).faults

theorem applyFunction_delivers {place : Nat} {pos : Position} {callee : String} (args : List Value)
    (stack : List Value) (globals : Table Value) (s : σ)
    (h : C[place]? = some ⟨.call callee args.length, pos⟩) :
    Delivers host C ⟨place, args.reverse ++ stack, globals, s⟩ globals
      (fun v t => ⟨place + 1, v :: stack, globals, t⟩) (applyFunction host pos callee args s) := by
  have hcall (n : Nat) : execute host _ s (.call callee args.length) = _ :=
    execute_call ⟨C.toArray, place + 1, stack, globals, n⟩ callee args s
  rw [applyFunction]
  rcases hf : callFunction host s callee args with ⟨fault | v, t⟩ <;> rw [hf] at hcall
  · exact Fails.faults (.of_execute (i := ⟨.call callee args.length, pos⟩) (place + 1) stack h hcall)
  · exact .pure (.single (.of_execute h hcall))

theorem evalArgs_length (globals : Table Value) (es : List Expr) {s t : σ} {vs : List Value}
    (h : evalArgs host globals es s = (.ok vs, t)) : vs.length = es.length := by
  induction es generalizing s t vs with
  | nil => cases h; rfl
  | cons e es ih =>
    rw [evalArgs, Evaluation.bind_apply] at h
    rcases he : e.eval host globals s with ⟨_ | v, s'⟩ <;> rw [he] at h
    · cases h
    · dsimp only at h
      rw [Evaluation.bind_apply] at h
      rcases hes : evalArgs host globals es s' with ⟨_ | us, _⟩ <;> rw [hes] at h <;> cases h
      rw [List.length_cons, List.length_cons, ih hes]

/-- Where a piece ends that consists of a part, an instruction and another part. -/
theorem place_add_length (place : Nat) (c d : Code) (i : Instr) :
    place + (c ++ i :: d).length = place + c.length + 1 + d.length := by
  rw [List.length_append, List.length_cons]
  omega

theorem place_add_length_cons (place : Nat) (c : Code) (i : Instr) :
    place + (i :: c).length = place + 1 + c.length := by
  rw [List.length_cons]
  omega

theorem Expr.code_binary {pos : Position} {op : BinaryOp} {left right : Expr} (place : Nat)
    (hand : op ≠ .and) (hor : op ≠ .or) :
    Expr.code place (.binary pos op left right) =
      left.code place ++ right.code (place + (left.code place).length) ++ [⟨.binary op, pos⟩] := by
  cases op <;> first | contradiction | rfl

theorem Expr.eval_binary {pos : Position} {op : BinaryOp} {left right : Expr}
    (globals : Table Value) (hand : op ≠ .and) (hor : op ≠ .or) :
    Expr.eval host globals (.binary pos op left right) = do
      let a ← left.eval host globals
      return Value.binary op a (← right.eval host globals) := by
  cases op <;> first | contradiction | rfl

mutual

/-- **The code of an expression leaves its value on the stack**, or ends with its fault. -/
theorem Expr.delivers (globals : Table Value) (e : Expr) (place : Nat) (stack : List Value) (s : σ)
    (h : Installed C place (e.code place)) :
    Delivers host C ⟨place, stack, globals, s⟩ globals
      (fun v t => ⟨place + (e.code place).length, v :: stack, globals, t⟩)
      (e.eval host globals s) := by
  cases e with
  | number pos x => exact .pure (.single (moves_push h.head))
  | string pos x => exact .pure (.single (moves_push h.head))
  | bool pos b => exact .pure (.single (moves_push h.head))
  | null pos => exact .pure (.single (moves_push h.head))
  | var pos name => exact lookUp_delivers stack globals s h.head
  | unary pos op operand =>
    rw [Expr.code] at h ⊢
    rw [Expr.eval, List.length_append, ← Nat.add_assoc]
    refine (Expr.delivers globals operand place stack s h.left).bind fun v t => ?_
    exact .pure (.single (moves_unary h.right.head))
  | binary pos op left right =>
    by_cases hand : op = .and
    · subst hand
      rw [Expr.code] at h ⊢
      rw [Expr.eval, place_add_length]
      refine (Expr.delivers globals left place stack s h.left).bind fun a t => ?_
      have hjump : Moves host C ⟨_, a :: stack, globals, t⟩ _ := moves_andJump h.right.head
      cases ha : a.truthy <;> rw [ha] at hjump
      · exact .pure (.single hjump)
      · exact .of_moves hjump (Expr.delivers globals right _ stack t h.right.tail)
    by_cases hor : op = .or
    · subst hor
      rw [Expr.code] at h ⊢
      rw [Expr.eval, place_add_length]
      refine (Expr.delivers globals left place stack s h.left).bind fun a t => ?_
      have hjump : Moves host C ⟨_, a :: stack, globals, t⟩ _ := moves_orJump h.right.head
      cases ha : a.truthy <;> rw [ha] at hjump
      · exact .of_moves hjump (Expr.delivers globals right _ stack t h.right.tail)
      · exact .pure (.single hjump)
    rw [Expr.code_binary place hand hor] at h ⊢
    rw [Expr.eval_binary globals hand hor]
    refine (Expr.delivers globals left place stack s h.left.left).bind fun a t => ?_
    refine (Expr.delivers globals right _ (a :: stack) t h.left.right).bind fun b u => ?_
    have hop := h.right.head
    rw [List.length_append, ← Nat.add_assoc] at hop
    rw [place_add_length, List.length_append, ← Nat.add_assoc]
    exact .pure (.single (moves_binary hop))
  | conditional pos test yes no =>
    rw [Expr.code] at h ⊢
    have hyes := h.left.right.tail
    have hend := h.right.head
    have hno := h.right.tail
    rw [place_add_length] at hend hno
    rw [Expr.eval, place_add_length, place_add_length]
    refine (Expr.delivers globals test place stack s h.left.left).bind fun v t => ?_
    have hjump : Moves host C ⟨_, v :: stack, globals, t⟩ _ := moves_jumpIfFalse h.left.right.head
    cases hv : v.truthy <;> rw [hv] at hjump
    · exact .of_moves hjump (Expr.delivers globals no _ stack t hno)
    · refine .of_moves hjump ((Expr.delivers globals yes _ stack t hyes).followed fun u t => ?_)
      exact .single (moves_jump hend)
  | call pos callee args =>
    rw [Expr.code] at h ⊢
    rw [Expr.eval, List.length_append, ← Nat.add_assoc]
    have hargs := argsDeliver globals args place stack s h.left
    rw [Evaluation.bind_apply]
    rcases hvs : evalArgs host globals args s with ⟨_ | vs, t⟩ <;> rw [hvs] at hargs
    · exact hargs
    · have hcall := h.right.head
      rw [← evalArgs_length globals args hvs] at hcall
      exact .of_leads hargs (applyFunction_delivers vs stack globals t hcall)

/-- The code of arguments leaves their values on the stack, the last one on top. -/
theorem argsDeliver (globals : Table Value) (es : List Expr) (place : Nat) (stack : List Value)
    (s : σ) (h : Installed C place (argsCode place es)) :
    Delivers host C ⟨place, stack, globals, s⟩ globals
      (fun vs t => ⟨place + (argsCode place es).length, vs.reverse ++ stack, globals, t⟩)
      (evalArgs host globals es s) := by
  cases es with
  | nil => exact .pure .refl
  | cons e es =>
    rw [argsCode] at h ⊢
    rw [evalArgs, List.length_append, ← Nat.add_assoc]
    refine (Expr.delivers globals e place stack s h.left).bind fun v t => ?_
    refine (argsDeliver globals es _ (v :: stack) t h.right).bind fun vs u => ?_
    refine .pure ?_
    rw [List.reverse_cons, List.append_assoc]
    exact .refl

end

/-! ## Statements -/

variable (host C) in
/-- The code from `x` on ends as statements did: at the place `stop`, with the stack that is given,
or with their fault. -/
def Arrives (x : Point σ) (stop : Nat) (stack : List Value) :
    World σ × Option RuntimeError → Prop
  | (w, none) => Leads host C x (w.point stop stack)
  | (w, some e) => Faults host C x w e

theorem Arrives.of_leads {x y : Point σ} {stop : Nat} {stack : List Value}
    {r : World σ × Option RuntimeError} (h : Leads host C x y)
    (hr : Arrives host C y stop stack r) : Arrives host C x stop stack r := by
  rcases r with ⟨w, _ | e⟩
  · exact Relation.ReflTransGen.trans h hr
  · exact Faults.of_leads h hr

/-- A value is computed and one instruction uses it up. -/
theorem Delivers.arrives {α : Type} {x : Point σ} {w : World σ} {fin : α → σ → Point σ}
    {c : Evaluation σ α} {change : α → Table Value} {stop : Nat} {stack : List Value}
    (h : Delivers host C x w.globals fin (c w.host))
    (hfin : ∀ a t, Moves host C (fin a t) ⟨stop, stack, change a, t⟩) :
    Arrives host C x stop stack (w.after c change) := by
  rw [World.after]
  rcases hc : c w.host with ⟨e | a, t⟩ <;> rw [hc] at h
  · exact h
  · exact h.tail (hfin a t)

theorem declareAll_arrives (pos : Position) (names : List (String × Option Expr)) (place : Nat)
    (stack : List Value) (w : World σ) (h : Installed C place (declareCode pos place names)) :
    Arrives host C (w.point place stack) (place + (declareCode pos place names).length) stack
      (declareAll host names w) := by
  induction names generalizing place w with
  | nil => exact .refl
  | cons first rest ih =>
    obtain ⟨name, _ | e⟩ := first
    · rw [declareCode] at h ⊢
      rw [declareAll, place_add_length_cons]
      exact .of_leads (.single (moves_declare h.head)) (ih (place + 1) _ h.tail)
    · rw [declareCode] at h ⊢
      have hstore : Arrives host C (w.point place stack)
          (place + (e.code place).length + 1) stack
          (w.after (e.eval host w.globals) fun v => w.globals.set name v) := by
        exact (Expr.delivers w.globals e place stack w.host h.left.left).arrives
          fun v t => moves_store h.left.right.head
      have hrest := h.right
      rw [place_add_length] at hrest
      rw [declareAll, List.length_append, ← Nat.add_assoc, place_add_length]
      rcases hr : w.after (e.eval host w.globals) fun v => w.globals.set name v with ⟨w', _ | f⟩ <;>
        rw [hr] at hstore
      · exact .of_leads hstore (ih _ w' hrest)
      · exact hstore

/-- An assignment that combines the old value of the variable with another one. -/
theorem combine_arrives {pos : Position} {name : String} {op : BinaryOp} {value : Expr}
    {place : Nat} {w : World σ} (stack : List Value)
    (h : Installed C place (⟨.load name, pos⟩ :: value.code (place + 1) ++
      [⟨.binary op, pos⟩, ⟨.store name, pos⟩])) :
    Arrives host C (w.point place stack) (place + 1 + (value.code (place + 1)).length + 1 + 1) stack
      (w.after (do
        let old ← lookUp w.globals pos name
        return Value.binary op old (← value.eval host w.globals))
        fun v => w.globals.set name v) := by
  have hop := h.right.head
  have hstore := h.right.tail.head
  rw [place_add_length_cons] at hop hstore
  refine Delivers.arrives ?_ fun v t => moves_store hstore
  refine (lookUp_delivers stack w.globals w.host h.left.head).bind fun old t => ?_
  refine (Expr.delivers w.globals value _ (old :: stack) t h.left.tail).bind fun v u => ?_
  exact .pure (.single (moves_binary hop))

/-- The code of a statement without parts. -/
theorem effect_arrives {st : Statement} {place : Nat} {w : World σ}
    {r : World σ × Option RuntimeError} (stack : List Value) (h : Installed C place (st.code place))
    (hr : st.effect? host w = some r) :
    Arrives host C (w.point place stack) (place + (st.code place).length) stack r := by
  cases st with
  | declare pos names =>
    cases hr
    exact declareAll_arrives pos names place stack w h
  | assign pos name op value =>
    cases hr
    cases op with
    | set =>
      rw [Statement.code, assignCode] at h ⊢
      rw [place_add_length]
      exact (Expr.delivers w.globals value place stack w.host h.left).arrives
        fun v t => moves_store h.right.head
    | add =>
      rw [Statement.code, assignCode, place_add_length, place_add_length_cons,
        place_add_length_cons]
      exact combine_arrives stack h
    | sub =>
      rw [Statement.code, assignCode, place_add_length, place_add_length_cons,
        place_add_length_cons]
      exact combine_arrives stack h
  | expr pos value =>
    cases hr
    rw [Statement.code] at h ⊢
    rw [place_add_length]
    exact (Expr.delivers w.globals value place stack w.host h.left).arrives
      fun v t => moves_pop h.right.head
  | ifElse pos branches otherwise => cases hr
  | whileLoop pos condition body => cases hr
  | forLoop pos init condition update body => cases hr

/-! ## Branches and loops -/

variable (host) in
/-- The code of branches comes to the body that is chosen, and from the end of the body to the end
of the whole; or it ends with the fault of a condition. -/
theorem chosen_delivers (pos : Position) (globals : Table Value) (otherwise : List Statement)
    (branches : List (Expr × List Statement)) (place : Nat) (stack : List Value) (s : σ)
    (h : Installed C place
      (branchesCode pos (fun place => bodyCode place otherwise) place branches)) :
    match chosen host globals otherwise branches s with
    | (.error e, t) => Faults host C ⟨place, stack, globals, s⟩ ⟨globals, t⟩ e
    | (.ok body, t) => ∃ start, Leads host C ⟨place, stack, globals, s⟩ ⟨start, stack, globals, t⟩ ∧
        Installed C start (bodyCode start body) ∧
        ∀ w : World σ, Leads host C (w.point (start + (bodyCode start body).length) stack)
          (w.point (place + (branchesCode pos (fun place => bodyCode place otherwise) place
            branches).length) stack) := by
  induction branches generalizing place s with
  | nil => exact ⟨place, .refl, h, fun w => .refl⟩
  | cons branch rest ih =>
    obtain ⟨condition, body⟩ := branch
    rw [branchesCode] at h ⊢
    have hend := h.right.head
    have hrest := h.right.tail
    rw [place_add_length] at hend hrest
    rw [place_add_length, place_add_length, chosen, Evaluation.bind_apply]
    have hcond : Delivers host C _ _ _ _ :=
      Expr.delivers globals condition place stack s h.left.left
    rcases hc : condition.eval host globals s with ⟨e | v, t⟩ <;> rw [hc] at hcond
    · exact hcond
    · have hjump : Moves host C ⟨_, v :: stack, globals, t⟩ _ :=
        moves_jumpIfFalse h.left.right.head
      dsimp only
      cases hv : v.truthy <;> rw [hv] at hjump
      · have hleads : Leads host C _ _ := Relation.ReflTransGen.tail hcond hjump
        have hih := ih _ t hrest
        rw [if_neg Bool.false_ne_true]
        rcases hr : chosen host globals otherwise rest t with ⟨e | b, u⟩ <;> rw [hr] at hih
        · exact .of_leads hleads hih
        · obtain ⟨start, hstart, hbody, hexit⟩ := hih
          exact ⟨start, hleads.trans hstart, hbody, hexit⟩
      · exact ⟨_, Relation.ReflTransGen.tail hcond hjump, h.left.right.tail,
          fun w => .single (moves_jump hend)⟩

section Branches

variable {pos : Position} {branches : List (Expr × List Statement)} {otherwise : List Statement}
  {place : Nat} {w : World σ} {t : σ}

theorem branch_leads {body : List Statement} (stack : List Value)
    (h : Installed C place ((Statement.ifElse pos branches otherwise).code place))
    (hc : chosen host w.globals otherwise branches w.host = (.ok body, t)) :
    ∃ start, Leads host C (w.point place stack) ⟨start, stack, w.globals, t⟩ ∧
      Installed C start (bodyCode start body) ∧
      ∀ w' : World σ, Leads host C (w'.point (start + (bodyCode start body).length) stack)
        (w'.point (place + ((Statement.ifElse pos branches otherwise).code place).length)
          stack) := by
  rw [Statement.code] at h ⊢
  have := chosen_delivers host pos w.globals otherwise branches place stack w.host h
  rwa [hc] at this

theorem branch_faults {e : RuntimeError} (stack : List Value)
    (h : Installed C place ((Statement.ifElse pos branches otherwise).code place))
    (hc : chosen host w.globals otherwise branches w.host = (.error e, t)) :
    Faults host C (w.point place stack) ⟨w.globals, t⟩ e := by
  rw [Statement.code] at h
  have := chosen_delivers host pos w.globals otherwise branches place stack w.host h
  rwa [hc] at this

end Branches

theorem bodyCode_append (place : Nat) (ss ts : List Statement) :
    bodyCode place (ss ++ ts) =
      bodyCode place ss ++ bodyCode (place + (bodyCode place ss).length) ts := by
  induction ss generalizing place with
  | nil => rfl
  | cons s ss ih =>
    rw [List.cons_append, bodyCode, bodyCode, ih, List.append_assoc, List.length_append,
      Nat.add_assoc]

/-- The code of a loop that has been initialised and starts at `start`. -/
def loopCode (pos : Position) (start : Nat) (condition : Option Expr) (round : List Statement) :
    Code :=
  match condition with
  | none => bodyCode start round ++ [⟨.jump start, pos⟩]
  | some condition =>
    let c := condition.code start
    let b := bodyCode (start + c.length + 1) round
    c ++ ⟨.jumpIfFalse (start + c.length + 1 + b.length + 1), pos⟩ :: b ++ [⟨.jump start, pos⟩]

theorem bodyCode_toList (place : Nat) (st : Option Statement) :
    bodyCode place st.toList = optionCode place st := by
  cases st with
  | none => rfl
  | some st => exact List.append_nil _

theorem code_of_loop? {st : Statement} {condition : Option Expr} {round : List Statement}
    (h : st.loop? = some (condition, round)) :
    ∃ pos, ∀ place, st.code place = loopCode pos place condition round := by
  cases st with
  | whileLoop pos condition body =>
    cases h
    exact ⟨pos, fun place => rfl⟩
  | forLoop pos init condition update body =>
    cases init with
    | some first => cases h
    | none =>
      cases h
      refine ⟨pos, fun place => ?_⟩
      cases condition with
      | none =>
        rw [Statement.code, loopCode, bodyCode_append, bodyCode_toList]
        rfl
      | some condition =>
        simp only [Statement.code, loopCode, bodyCode_append, bodyCode_toList, optionCode,
          List.nil_append, List.length_nil, List.length_append, List.append_assoc,
          List.cons_append, Nat.add_zero, Nat.add_assoc]
  | declare pos names => cases h
  | assign pos name op value => cases h
  | expr pos value => cases h
  | ifElse pos branches otherwise => cases h

/-- A loop that is initialised is its initialisation and then the loop without it. -/
theorem bodyCode_init {pos : Position} {first : Statement} {condition : Option Expr}
    {update : Option Statement} {body rest : List Statement} (place : Nat) :
    bodyCode place (.forLoop pos (some first) condition update body :: rest) =
      bodyCode place [first] ++ bodyCode (place + (bodyCode place [first]).length)
        (.forLoop pos none condition update body :: rest) := by
  cases condition <;>
    simp only [bodyCode, Statement.code, optionCode, List.nil_append, List.append_nil,
      List.length_nil, Nat.add_zero, List.append_assoc, List.cons_append, List.length_append,
      Nat.add_assoc]

/-- Whether a loop goes on: its code comes to one round, which is followed by a jump back to the
loop, or to its end. -/
theorem goesOn_delivers {st : Statement} {condition : Option Expr} {round : List Statement}
    {place : Nat} {w : World σ} (stack : List Value)
    (hs : st.loop? = some (condition, round)) (h : Installed C place (st.code place)) :
    ∃ first pos, Installed C first (bodyCode first round) ∧
      C[first + (bodyCode first round).length]? = some ⟨.jump place, pos⟩ ∧
      Delivers host C (w.point place stack) w.globals
        (fun b t => ⟨if b then first else place + (st.code place).length, stack, w.globals, t⟩)
        (goesOn host w.globals condition w.host) := by
  obtain ⟨pos, hcode⟩ := code_of_loop? hs
  rw [hcode] at h ⊢
  cases condition with
  | none => exact ⟨place, pos, h.left, h.right.head, .pure .refl⟩
  | some condition =>
    rw [loopCode] at h ⊢
    have hback := h.right.head
    rw [place_add_length] at hback
    refine ⟨_, pos, h.left.right.tail, hback, ?_⟩
    rw [goesOn, place_add_length, place_add_length]
    refine (Expr.delivers w.globals condition place stack w.host h.left.left).bind fun v t => ?_
    exact .pure (.single (moves_jumpIfFalse h.left.right.head))

/-! ## How statements end -/

/-- **The code of statements ends as the statements do.** -/
theorem Runs.ends {ss : List Statement} {w : World σ} {r : World σ × Option RuntimeError}
    (h : Runs host ss w r) (place : Nat) (stack : List Value)
    (hc : Installed C place (bodyCode place ss)) :
    Arrives host C (w.point place stack) (place + (bodyCode place ss).length) stack r := by
  induction h generalizing place with
  | nil w => exact .refl
  | effect he hrest ih =>
    rw [bodyCode] at hc ⊢
    rw [List.length_append, ← Nat.add_assoc]
    exact .of_leads (effect_arrives stack hc.left he) (ih _ hc.right)
  | effectFault he =>
    rw [bodyCode] at hc
    exact effect_arrives stack hc.left he
  | branch hchosen hbody hrest ihbody ihrest =>
    rw [bodyCode] at hc ⊢
    obtain ⟨start, hstart, hinstalled, hexit⟩ := branch_leads stack hc.left hchosen
    have hdone : Leads host C _ _ := Relation.ReflTransGen.trans (ihbody start hinstalled) (hexit _)
    rw [List.length_append, ← Nat.add_assoc]
    exact .of_leads (hstart.trans hdone) (ihrest _ hc.right)
  | branchFault hchosen hbody ih =>
    rw [bodyCode] at hc
    obtain ⟨start, hstart, hinstalled, -⟩ := branch_leads stack hc.left hchosen
    exact Faults.of_leads hstart (ih start hinstalled)
  | choiceFault hchosen =>
    rw [bodyCode] at hc
    exact branch_faults stack hc.left hchosen
  | init hinit hloop ihinit ihloop =>
    rw [bodyCode_init] at hc ⊢
    rw [List.length_append, ← Nat.add_assoc]
    exact .of_leads (ihinit place hc.left) (ihloop _ hc.right)
  | initFault hinit ih =>
    rw [bodyCode_init] at hc
    exact ih place hc.left
  | leaves hs hcond hrest ih =>
    rw [bodyCode] at hc ⊢
    obtain ⟨first, pos, -, -, hdelivers⟩ := goesOn_delivers stack hs hc.left
    rw [hcond] at hdelivers
    rw [List.length_append, ← Nat.add_assoc]
    exact .of_leads hdelivers (ih _ hc.right)
  | again hs hcond hround hagain ihround ihagain =>
    have hloop := hc
    rw [bodyCode] at hloop
    obtain ⟨first, pos, hinstalled, hback, hdelivers⟩ := goesOn_delivers stack hs hloop.left
    rw [hcond] at hdelivers
    have hround : Leads host C _ _ :=
      Relation.ReflTransGen.tail (ihround first hinstalled) (moves_jump hback)
    exact .of_leads (Relation.ReflTransGen.trans hdelivers hround) (ihagain place hc)
  | roundFault hs hcond hround ih =>
    rw [bodyCode] at hc
    obtain ⟨first, pos, hinstalled, -, hdelivers⟩ := goesOn_delivers stack hs hc.left
    rw [hcond] at hdelivers
    exact Faults.of_leads hdelivers (ih first hinstalled)
  | conditionFault hs hcond =>
    rw [bodyCode] at hc
    obtain ⟨first, pos, -, -, hdelivers⟩ := goesOn_delivers stack hs hc.left
    rw [hcond] at hdelivers
    exact hdelivers

end Script
end VisualBlocks
