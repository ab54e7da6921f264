import VisualBlocks.Generation.Language

/-!
# Emissions

A rule turns a block into text.  What it needs from elsewhere, the text of the blocks in its inputs
and names that fit into the whole program, it asks for, and it goes on with the answer.  An
`Emission` is such a conversation as a tree: it ends with a result, or it holds a request and, for
every answer, the rest.  Rules are thereby separate from the walk over the graph, which gives the
answers (`Emission.run`).
-/

set_option autoImplicit false

namespace VisualBlocks
namespace Generation

/-- What a rule can ask for. -/
inductive Request where
  /-- The expression in an input, fit for a place of the given order.  The default stands in when
  the input is empty, and behind the mark of a block that no rule can turn into an expression. -/
  | value (socket : String) (outer : Order) (default : String)
  /-- The statements in an input. -/
  | body (socket : String)
  /-- The name of a variable of the program. -/
  | variableName (raw : String)
  /-- A name that has not been used so far. -/
  | freshName (base : String)
deriving Repr, DecidableEq

/-- A conversation that ends with a result. -/
inductive Emission (α : Type) where
  | done (a : α)
  | ask (request : Request) (resume : String → Emission α)

namespace Emission

/-- Goes on with the result of a conversation. -/
def andThen {α β : Type} (f : α → Emission β) : Emission α → Emission β
  | .done a => f a
  | .ask request resume => .ask request fun answer => (resume answer).andThen f

/-- Conversations one after the other. -/
instance : Monad Emission where
  pure := .done
  bind e f := e.andThen f

/-- The result of a conversation whose requests `answer` answers. -/
def run {m : Type → Type} [Monad m] {α : Type} (answer : Request → m String) : Emission α → m α
  | .done a => pure a
  | .ask request resume => do (resume (← answer request)).run answer

/-- What comes after a conversation is answered after it. -/
theorem run_andThen {m : Type → Type} [Monad m] [LawfulMonad m] {α β : Type}
    (answer : Request → m String) (f : α → Emission β) (e : Emission α) :
    (e.andThen f).run answer = e.run answer >>= fun a => (f a).run answer := by
  induction e with
  | done a => simp [andThen, run]
  | ask request resume ih => simp [andThen, run, ih]

/-- Asks for the expression in an input. -/
def value (socket : String) (outer : Order) (default : String) : Emission String :=
  .ask (.value socket outer default) .done

/-- Asks for the statements in an input. -/
def body (socket : String) : Emission String := .ask (.body socket) .done

/-- Asks for the name of a variable. -/
def variableName (raw : String) : Emission String := .ask (.variableName raw) .done

/-- Asks for an unused name. -/
def freshName (base : String) : Emission String := .ask (.freshName base) .done

end Emission
end Generation
end VisualBlocks
