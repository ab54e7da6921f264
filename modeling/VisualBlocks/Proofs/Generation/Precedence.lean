import VisualBlocks.Proofs.Generation.Trees
import VisualBlocks.Proofs.Script.Reading
import VisualBlocks.Vocabulary

/-!
# Parentheses and precedence

The generator puts parentheses by its orders, the parser takes expressions apart by its
precedences.  **On every tree of standard value blocks the two agree**
(`expression_reads_back`): the text of the tree is parsed to its end as the expression that the
tree stands for, up to how sums, products, conjunctions and disjunctions are grouped.
-/

set_option autoImplicit false

namespace VisualBlocks

open Script
open Generation (Generator IsLiteral LiteralDefaults Pass)

/-! ## The literals of the built-in types -/

/-- The literals that the built-in types declare. -/
def builtinLiterals : List String := ["''", "0", "10", "true", "false", "null"]

theorem isLiteral_builtin : ∀ default ∈ builtinLiterals, IsLiteral default := by
  have hten : IsLiteral "10" := ⟨(Generation.says_number 10 (by decide) rfl).1, rfl, rfl⟩
  rw [builtinLiterals, List.forall_mem_cons, List.forall_mem_cons, List.forall_mem_cons,
    List.forall_mem_cons, List.forall_mem_cons, List.forall_mem_singleton]
  exact ⟨Generation.isLiteral_empty, Generation.isLiteral_zero, hten, Generation.isLiteral_true,
    Generation.isLiteral_false, Generation.isLiteral_null⟩

theorem default_mem_builtinLiterals (v : Vocabulary) :
    ∀ type ∈ v.types, ∀ socket ∈ type.sockets, ∀ default ∈ socket.default?,
      default ∈ builtinLiterals := by
  cases v <;> decide

/-- **The literals of the built-in types are right in every place.** -/
theorem literalDefaults_types (v : Vocabulary) : LiteralDefaults ⟨v.types⟩ := by
  intro type socket default hdefault
  rw [Registry.socketDefault?] at hdefault
  obtain ⟨found, hfound, hliteral⟩ := Option.bind_eq_some_iff.1 hdefault
  obtain ⟨declared, hdeclared, hsocket⟩ := Option.bind_eq_some_iff.1 hfound
  refine isLiteral_builtin _ (default_mem_builtinLiterals v declared
    (List.mem_of_find?_eq_some hdeclared) found ?_ default hliteral)
  exact List.mem_of_find?_eq_some hsocket

/-! ## Trees of value blocks -/

namespace Generation

variable {graph : Graph} {t : BlockTree}

/-- No comment stands for a standard value block. -/
theorem oneLine_of_standard (known : String → Bool) (hstandard : t.Standard)
    (hknown : ∀ type ∈ valueTypes, known type = true) : OneLine known t := by
  intro b hb hunknown
  rw [hknown _ (hstandard b hb)] at hunknown
  cases hunknown

/-- A block with a rule for values needs no literal in its place. -/
theorem expression_default (v : Vocabulary) (registry : Registry) (hheld : graph.Holds t)
    (htype : t.type ∈ valueTypes) (levels : Nat) (default default' : String) :
    (v.generator registry).expression graph levels t.id default =
      (v.generator registry).expression graph levels t.id default' := by
  cases levels with
  | zero => rw [Generator.expression, Generator.expression]
  | succ levels =>
    have hnode : ((v.generator registry).site graph t.id).node = t.node := by
      rw [Generator.site, hheld.node?]
      rfl
    obtain ⟨emit, hrule⟩ : ∃ emit, (v.generator registry).rules.get? t.node.type =
        some (.value emit) := rule_of_valueTypes v registry htype
    rw [Generator.expression, Generator.expression, hnode, hrule]

/-- The text of an expression is cut into tokens and parsed as that expression, to its end. -/
theorem Says.parses {order : Order} {code : String} {w : List Lexeme} {e : Expr}
    (h : Says order code w e) :
    ∃ ts stop parsed, tokenize code = .ok ts ∧
      parseExpression ts = .ok (parsed, [Token.closing stop]) ∧ parsed.strip = e := by
  have hscans := h.inline.reads [] nofun
  rw [List.append_nil] at hscans
  obtain ⟨ts, stop, hts, htokens⟩ := tokenize_of_scans hscans
  obtain ⟨parsed, hparsed, hread⟩ :=
    parseExpression_of_spells (h.spells.mono (Nat.zero_le _)) hts stop
  exact ⟨_, stop, parsed, htokens, hread, hparsed⟩

/-- **A tree of standard value blocks always has a text**, and it is that of its expression. -/
theorem expression_valued (v : Vocabulary) (graph : Graph) (t : BlockTree)
    (hheld : graph.Holds t) (hnodup : t.ids.Nodup) (hstandard : t.Standard) (default : String) :
    ∃ code order pass,
      v.preset.generator.expression graph (Generator.levels graph) t.id default .start =
          some ((code, order), pass) ∧
        pass.Sound ∧ Valued t .start (code, order) pass := by
  have hdefaults := literalDefaults_types v
  have hknown (type : String) (htype : type ∈ valueTypes) :
      (v.generator ⟨v.types⟩).knows type = true := valueTypes_known v ⟨v.types⟩ htype
  have hwalkable : Walkable v ⟨v.types⟩ graph t :=
    ⟨hheld, hnodup, oneLine_of_standard _ hstandard hknown⟩
  obtain ⟨⟨code, order⟩, pass, hrun, hvalued⟩ :=
    (walks hdefaults (Generator.levels graph)).expression hwalkable (length_le_levels hheld hnodup)
      isLiteral_null Pass.sound_start
  refine ⟨code, order, pass, ?_, hvalued.moves.grows.sound Pass.sound_start, hvalued⟩
  have hany := expression_default v ⟨v.types⟩ hheld hstandard.type_mem (Generator.levels graph)
    default "null"
  exact (congrFun hany .start).trans hrun

end Generation

open Generation in
/-- **Parentheses agree with precedence.**  A tree of standard value blocks always has a text, and
the text is parsed to its end as the expression that the tree stands for, up to how operations that
may be grouped either way are grouped. -/
theorem expression_reads_back (v : Vocabulary) (graph : Graph) (t : BlockTree)
    (hheld : graph.Holds t) (hnodup : t.ids.Nodup) (hstandard : t.Standard) (default : String) :
    ∃ code order pass ts stop e,
      v.preset.generator.expression graph (Generator.levels graph) t.id default .start =
          some ((code, order), pass) ∧
        tokenize code = .ok ts ∧ parseExpression ts = .ok (e, [Token.closing stop]) ∧
          Regrouped e.strip (t.expr pass.nameOf) := by
  obtain ⟨code, order, pass, hrun, -, hvalued⟩ :=
    expression_valued v graph t hheld hnodup hstandard default
  obtain ⟨w, e, hsays, hmeaning⟩ := hvalued.spelt
  obtain ⟨ts, stop, parsed, htokens, hread, hparsed⟩ := hsays.parses
  refine ⟨code, order, pass, ts, stop, parsed, hrun, htokens, hread, ?_⟩
  rw [hparsed]
  exact hmeaning hstandard pass (.refl pass)

/-- The blocks of twice the sum of a variable and nothing. -/
def twiceSum : BlockTree :=
  .mk "product" "math_arithmetic" ⟨[("OP", "MULTIPLY")]⟩ .empty
    [("A", .mk "two" "math_number" ⟨[("NUM", "2")]⟩ .empty [] none),
     ("B", .mk "sum" "math_arithmetic" ⟨[("OP", "ADD")]⟩ .empty
        [("A", .mk "item" "variables_get" ⟨[("VAR", "item")]⟩ .empty [] none)] none)] none

theorem twiceSum_reads_back :
    ∃ code order pass ts stop e,
      Vocabulary.standard.preset.generator.expression ⟨["product"], twiceSum.blocks⟩
          (Generator.levels ⟨["product"], twiceSum.blocks⟩) twiceSum.id "null" .start =
          some ((code, order), pass) ∧
        tokenize code = .ok ts ∧ parseExpression ts = .ok (e, [Token.closing stop]) ∧
          Regrouped e.strip (twiceSum.expr pass.nameOf) := by
  have hheld : (⟨["product"], twiceSum.blocks⟩ : Graph).Holds twiceSum := by
    show ∀ b ∈ twiceSum.blocks, List.lookup b.1 twiceSum.blocks = some b.2
    decide
  have hstandard : twiceSum.Standard := by
    show ∀ b ∈ twiceSum.blocks, b.2.type ∈ valueTypes
    decide
  exact expression_reads_back .standard _ twiceSum hheld (by decide) hstandard "null"

end VisualBlocks
