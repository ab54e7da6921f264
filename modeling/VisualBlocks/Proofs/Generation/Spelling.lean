import VisualBlocks.Proofs.Generation.Naming
import VisualBlocks.Proofs.Number.Numeral
import VisualBlocks.Proofs.Script.Leftward
import VisualBlocks.Proofs.Script.Scope

/-!
# Orders and precedences

The generator knows how tightly an expression binds by its `Order`, the parser by the precedence of
its operators.  `Order.strength` takes the one to the other.

* `Says order code w e`: the text, of the given order, is written `w` and is the expression `e`.
* `Fits outer code w e`: the same of a text in a place of the outer order.

**A text that is put in parentheses where the orders ask for it fits**
(`Says.enclose`).  What the exceptions of the language leave without parentheses is an operand of
an operation that regroups, inside the same operation, and then both are parts of one chain.  Since
the exceptions leave out all such parentheses, what is said is grouped from the left.
-/

set_option autoImplicit false

namespace VisualBlocks
namespace Generation

open Script

/-! ## What scripts cannot reach -/

/-- No lexeme is the name of something outside the script. -/
def Harmless (w : List Lexeme) : Prop :=
  ∀ l ∈ w, l.kind = .name → l.text ∉ Sandbox.capabilityNames

namespace Harmless

variable {l : Lexeme} {v w : List Lexeme}

theorem nil : Harmless [] := nofun

theorem append (hv : Harmless v) (hw : Harmless w) : Harmless (v ++ w) :=
  fun l hl => (List.mem_append.1 hl).elim (hv l) (hw l)

theorem cons (hl : l.kind ≠ .name) (hw : Harmless w) : Harmless (l :: w) := by
  intro m hm hname
  rcases List.mem_cons.1 hm with rfl | hm
  · exact absurd hname hl
  · exact hw m hm hname

theorem name {text : String} (h : text ∉ Sandbox.capabilityNames) (hw : Harmless w) :
    Harmless (.name text :: w) := by
  intro m hm hname
  rcases List.mem_cons.1 hm with rfl | hm
  · exact h
  · exact hw m hm hname

end Harmless

/-! ## Orders -/

namespace Order

/-- The level of the grammar that an expression of the order is on. -/
def strength (o : Order) : Nat :=
  match o.tier with
  | 0 | 2 | 4 => operandLevel
  | 5 => 6
  | 6 => 5
  | 8 => 4
  | 9 => 3
  | 13 => 2
  | 14 => 1
  | _ => 0

/-- The level that an expression has to be on in a place of the order. -/
def demand (o : Order) : Nat :=
  match o.tier with
  | 4 | 5 => operandLevel
  | 6 => 6
  | 8 => 5
  | 9 => 4
  | 13 => 3
  | 14 => 2
  | 15 => 1
  | _ => 0

/-- The operation that may stand inside itself without parentheses. -/
def chained? (o : Order) : Option BinaryOp :=
  if o = multiplication then some .mul
  else if o = addition then some .add
  else if o = logicalAnd then some .and
  else if o = logicalOr then some .or
  else .none

/-- The orders of expressions. -/
def expressions : List Order :=
  [atomic, functionCall, negation, logicalNot, multiplication, division, subtraction, addition,
   relational, equality, logicalAnd, logicalOr, conditional]

/-- The orders of places for expressions. -/
def places : List Order :=
  [logicalNot, multiplication, division, subtraction, addition, relational, equality, logicalAnd,
   logicalOr, conditional, assignment, comma, none]

/-- **Where no parentheses are put, the expression binds tightly enough**, or it is a part of the
same chain. -/
theorem needsParens_or {outer inner : Order} (ho : outer ∈ places) (hi : inner ∈ expressions) :
    scriptLanguage.needsParens outer inner = true ∨ outer.demand ≤ inner.strength ∨
      (outer = inner ∧ outer.chained?.isSome = true) := by
  have hall : ∀ outer ∈ places, ∀ inner ∈ expressions,
      scriptLanguage.needsParens outer inner = true ∨ outer.demand ≤ inner.strength ∨
        (outer = inner ∧ outer.chained?.isSome = true) := by decide
  exact hall outer ho inner hi

/-- A chain asks of its operands what they need to be operands of its operation. -/
theorem demand_of_chained {o : Order} {op : BinaryOp} (h : o.chained? = some op) :
    o.demand = op.precedence + 1 ∧ o.strength = op.precedence := by
  rw [chained?] at h
  split at h
  · next ho => subst ho; obtain rfl := Option.some.inj h; decide
  · split at h
    · next ho => subst ho; obtain rfl := Option.some.inj h; decide
    · split at h
      · next ho => subst ho; obtain rfl := Option.some.inj h; decide
      · split at h
        · next ho => subst ho; obtain rfl := Option.some.inj h; decide
        · cases h

theorem regroups_of_chained {o : Order} {op : BinaryOp} (h : o.chained? = some op) :
    op.regroups = true := by
  rw [chained?] at h
  split at h
  · obtain rfl := Option.some.inj h; rfl
  · split at h
    · obtain rfl := Option.some.inj h; rfl
    · split at h
      · obtain rfl := Option.some.inj h; rfl
      · split at h
        · obtain rfl := Option.some.inj h; rfl
        · cases h

/-- Two orders with the same chain are the same, and they need no parentheses. -/
theorem needsParens_of_chained {outer inner : Order} {op : BinaryOp} (houter : outer ∈ places)
    (hinner : inner ∈ expressions) (ho : outer.chained? = some op) (hi : inner.chained? = some op) :
    scriptLanguage.needsParens outer inner = false := by
  have hall : ∀ outer ∈ places, ∀ inner ∈ expressions, outer.chained?.isSome = true →
      outer.chained? = inner.chained? → scriptLanguage.needsParens outer inner = false := by decide
  exact hall outer houter inner hinner (Option.isSome_of_eq_some ho) (ho.trans hi.symm)

end Order

/-! ## Texts of expressions -/

/-- Does the text begin with something that no operator before it goes on with? -/
def Leads (code : String) : Prop := ∃ c cs, code.toList = c :: cs ∧ c ≠ '='

theorem Leads.append {a b : String} (h : Leads a) : Leads (a ++ b) := by
  obtain ⟨c, cs, hcs, hc⟩ := h
  exact ⟨c, cs ++ b.toList, by rw [String.toList_append, hcs]; rfl, hc⟩

/-- The text, of the given order, is written `w` and is the expression `e`. -/
structure Says (order : Order) (code : String) (w : List Lexeme) (e : Expr) : Prop where
  inline : Inline code w
  harmless : Harmless w
  leads : Leads code
  order_mem : order ∈ Order.expressions
  spells : Spells order.strength w e
  chain : ∀ op, order.chained? = some op → Chain op w e
  isLeftward : e.IsLeftward
  root : ∀ op, op.regroups = true → e.isOf op = true → order.chained? = some op

/-- The text, in a place of the outer order, is written `w` and is the expression `e`. -/
structure Fits (outer : Order) (code : String) (w : List Lexeme) (e : Expr) : Prop where
  inline : Inline code w
  harmless : Harmless w
  leads : Leads code
  isLeftward : e.IsLeftward
  operand : Spells outer.demand w e ∧ (∀ op, outer.chained? = some op → e.isOf op = false) ∨
    ∃ op, outer.chained? = some op ∧ Chain op w e

section Pieces

variable {outer order : Order} {code : String} {w : List Lexeme} {e : Expr}

theorem Fits.spells (h : Fits outer code w e) (hchain : outer.chained? = .none) :
    Spells outer.demand w e := by
  rcases h.operand with ⟨hspells, -⟩ | ⟨op, hop, -⟩
  · exact hspells
  · rw [hchain] at hop
    cases hop

theorem Fits.chain (h : Fits outer code w e) {op : BinaryOp} (hop : outer.chained? = some op) :
    Chain op w e := by
  rcases h.operand with ⟨hspells, hroot⟩ | ⟨other, hother, hchain⟩
  · rw [(Order.demand_of_chained hop).1] at hspells
    exact .one ⟨hspells, h.isLeftward, hroot op hop⟩
  · rw [hop] at hother
    obtain rfl := Option.some.inj hother
    exact hchain

theorem mark_leftParen : Mark "(" [.leftParen] := ⟨fun rest => .token rfl (.refl rest), by decide⟩

theorem mark_rightParen : Mark ")" [.rightParen] :=
  ⟨fun rest => .token rfl (.refl rest), by decide⟩

theorem startsApart_rightParen : StartsApart ")" := ⟨')', [], by decide, by decide, by decide⟩

/-- What is in parentheses fits everywhere, but it is not left in a chain of its kind. -/
theorem Says.parenthesized (h : Says order code w e) (hplace : outer ∈ Order.places)
    (hparens : scriptLanguage.needsParens outer order = true) :
    Fits outer ("(" ++ code ++ ")") (.leftParen :: (w ++ [.rightParen])) e where
  inline :=
    ((mark_leftParen.append_inline h.inline).append mark_rightParen startsApart_rightParen).inline
  harmless := .cons nofun (h.harmless.append (.cons nofun .nil))
  leads := ⟨'(', code.toList ++ ")".toList, by
    rw [String.toList_append, String.toList_append]
    rfl, by decide⟩
  isLeftward := h.isLeftward
  operand := by
    refine .inl ⟨.group (h.spells.mono (Nat.zero_le _)), fun op hop => ?_⟩
    rw [Bool.eq_false_iff]
    intro hroot
    have hsame := h.root op (Order.regroups_of_chained hop) hroot
    rw [Order.needsParens_of_chained hplace h.order_mem hop hsame] at hparens
    cases hparens

/-- What binds tightly enough fits as it is. -/
theorem Says.fits (h : Says order code w e) (hle : outer.demand ≤ order.strength) :
    Fits outer code w e := by
  refine ⟨h.inline, h.harmless, h.leads, h.isLeftward, .inl ⟨h.spells.mono hle, fun op hop => ?_⟩⟩
  rw [Bool.eq_false_iff]
  intro hroot
  have hsame := h.root op (Order.regroups_of_chained hop) hroot
  rw [(Order.demand_of_chained hop).1, (Order.demand_of_chained hsame).2] at hle
  exact absurd hle (Nat.not_succ_le_self _)

/-- An operation may stand inside itself if it regroups. -/
theorem Says.chained (h : Says order code w e) {op : BinaryOp} (hop : order.chained? = some op) :
    Fits order code w e :=
  ⟨h.inline, h.harmless, h.leads, h.isLeftward, .inr ⟨op, hop, h.chain op hop⟩⟩

/-- **In parentheses where the orders ask for them, an expression fits.** -/
theorem Says.enclose (h : Says order code w e) (hplace : outer ∈ Order.places) :
    ∃ v, Fits outer (scriptLanguage.enclose outer order code) v e := by
  rw [Language.enclose]
  by_cases hparens : scriptLanguage.needsParens outer order = true
  · rw [if_pos hparens]
    exact ⟨_, h.parenthesized hplace hparens⟩
  · rw [if_neg hparens]
    rcases Order.needsParens_or hplace h.order_mem with hyes | hle | ⟨rfl, hsome⟩
    · exact absurd hyes hparens
    · exact ⟨w, h.fits hle⟩
    · obtain ⟨op, hop⟩ := Option.isSome_iff_exists.1 hsome
      exact ⟨w, h.chained hop⟩

theorem Order.demand_le (o : Order) : o.demand ≤ operandLevel := by
  rw [Order.demand]
  split <;> decide

/-- What is read as one operand, without its order being one of a chain. -/
theorem Says.atom (hinline : Inline code w) (hharmless : Harmless w) (hleads : Leads code)
    (hspells : Spells operandLevel w e) (he : e.Unchained) (horder : order ∈ Order.expressions)
    (hstrength : order.strength = operandLevel) : Says order code w e := by
  refine ⟨hinline, hharmless, hleads, horder, by rwa [hstrength], fun op hop => ?_, he.isLeftward,
    fun op hregroups hop => ?_⟩
  · have hprecedence := (Order.demand_of_chained hop).2
    rw [hstrength] at hprecedence
    cases op <;> exact absurd hprecedence (by decide)
  · rw [he.root op hregroups] at hop
    cases hop

end Pieces

/-! ## Literals -/

/-- The expression of a literal that has no sign: a number, the empty text, or a word. -/
def ofMagnitude (text : String) : Expr :=
  match text.toList with
  | '\'' :: _ => .string .start ""
  | c :: _ =>
    if c.isDigit then .number .start ((Number.float? text).getD 0)
    else (keywordLiteral? ⟨.keyword, text, .start⟩).getD (.var .start text)
  | [] => .null .start

/-- The expression of a literal. -/
def ofLiteral (text : String) : Expr :=
  match text.toList with
  | '-' :: cs => .unary .start .negate (ofMagnitude (String.ofList cs))
  | _ => ofMagnitude text

theorem ofLiteral_unsigned {text : String} {c : Char} {cs : List Char} (htext : text.toList = c :: cs)
    (hc : c ≠ '-') : ofLiteral text = ofMagnitude text := by
  rw [ofLiteral, htext]
  split
  · next heq => exact absurd (List.cons.inj heq).1 hc
  · rfl

theorem ofLiteral_minus {text : String} {cs : List Char} (htext : text.toList = '-' :: cs) :
    ofLiteral text = .unary .start .negate (ofMagnitude (String.ofList cs)) := by
  rw [ofLiteral, htext]
  rfl

/-- A numeral is the number as which it is read. -/
theorem ofMagnitude_numeral {cs : List Char} {x : Float} (h : IsNumeral cs)
    (hx : Number.float? (String.ofList cs) = some x) :
    ofMagnitude (String.ofList cs) = .number .start x := by
  obtain ⟨c, ds, rfl, hc⟩ := h.starts
  rw [ofMagnitude, String.toList_ofList]
  split
  · next heq =>
    obtain rfl := (List.cons.inj heq).1
    exact absurd hc (by decide)
  · next heq =>
    obtain rfl := (List.cons.inj heq).1
    rw [if_pos hc, hx]
    rfl
  · next heq => cases heq

theorem isLeaf_ofMagnitude (text : String) : (ofMagnitude text).isLeaf = true := by
  rw [ofMagnitude]
  split
  · rfl
  · split
    · rfl
    · rw [keywordLiteral?]
      split
      · rfl
      · split
        · rfl
        · split <;> rfl
  · rfl

theorem unchained_ofMagnitude (text : String) : (ofMagnitude text).Unchained :=
  .leaf (isLeaf_ofMagnitude text)

theorem unchained_ofLiteral (text : String) : (ofLiteral text).Unchained := by
  rw [ofLiteral]
  split
  · exact .unary .negate (unchained_ofMagnitude _).isLeftward
  · exact unchained_ofMagnitude text

/-- A literal calls no function. -/
theorem callees_ofLiteral (text : String) : (ofLiteral text).callees = [] := by
  have hmagnitude (text : String) : (ofMagnitude text).callees = [] := by
    have hleaf := isLeaf_ofMagnitude text
    cases he : ofMagnitude text <;> rw [he] at hleaf <;> first | rfl | cases hleaf
  rw [ofLiteral]
  split
  · exact hmagnitude _
  · exact hmagnitude text

/-- Is the text a literal that fits everywhere, and that names nothing? -/
structure IsLiteral (text : String) : Prop where
  spelt : ∃ w, Says .atomic text w (ofLiteral text)
  names : (ofLiteral text).Names []

theorem Says.literal {text : String} {w : List Lexeme} {e : Expr} (hinline : Inline text w)
    (hharmless : Harmless w) (hleads : Leads text) (hspells : Spells operandLevel w e)
    (he : e.Unchained) : Says .atomic text w e :=
  .atom hinline hharmless hleads hspells he (by decide) rfl

/-- The empty text. -/
theorem isLiteral_empty : IsLiteral "''" := by
  have hmark : Mark "''" [⟨.string, ""⟩] := ⟨passage_quote "", by decide⟩
  have hsays : Says .atomic "''" [⟨.string, ""⟩] (ofLiteral "''") :=
    .literal hmark.inline (.cons nofun .nil) ⟨'\'', ['\''], by decide, by decide⟩ (.string "")
      (unchained_ofLiteral _)
  exact ⟨⟨_, hsays⟩, rfl, rfl⟩

/-- The words that stand for values. -/
theorem isLiteral_word {text : String} (h : text = "true" ∨ text = "false" ∨ text = "null") :
    IsLiteral text := by
  have hliteral {text : String} {e : Expr} (hword : IsWord text.toList) (hkeyword : text ∈ keywords)
      (hleads : Leads text) (hvalue : keywordLiteral? ⟨.keyword, text, .start⟩ = some e)
      (hmeaning : ofLiteral text = e) (hnames : e.Names []) : IsLiteral text := by
    have hphrase := hword.phrase
    rw [String.ofList_toList, wordLexeme, if_pos (List.contains_iff_mem.2 hkeyword)] at hphrase
    refine ⟨⟨_, .literal ⟨hphrase, fun h => absurd (hword.parts _ h) (by decide)⟩
      (.cons (fun h => by cases h) .nil) hleads ?_ (unchained_ofLiteral _)⟩, hmeaning ▸ hnames⟩
    rw [hmeaning]
    exact .keyword hvalue
  rcases h with rfl | rfl | rfl
  · exact hliteral (isWord_of_all (by decide) (by decide)) (by decide)
      ⟨'t', "rue".toList, by decide, by decide⟩ rfl rfl ⟨rfl, rfl⟩
  · exact hliteral (isWord_of_all (by decide) (by decide)) (by decide)
      ⟨'f', "alse".toList, by decide, by decide⟩ rfl rfl ⟨rfl, rfl⟩
  · exact hliteral (isWord_of_all (by decide) (by decide)) (by decide)
      ⟨'n', "ull".toList, by decide, by decide⟩ rfl rfl ⟨rfl, rfl⟩

/-! ## Numbers -/

/-- An operator before an operand ends where the operand begins. -/
theorem step_unary {op : UnaryOp} {c : Char} {cs : List Char} (hc : c ≠ '=')
    (hop : op = .not ∨ op = .negate ∧ c ≠ '-') :
    step (op.symbol.toList ++ c :: cs) = .token .operator op.symbol op.symbol.toList (c :: cs) := by
  rcases hop with rfl | ⟨rfl, hminus⟩
  · have hnot : step ('!' :: c :: cs) = operatorStep '!' (c :: cs) := rfl
    refine hnot.trans ?_
    rw [operatorStep.eq_def]
    dsimp only
    rw [if_neg (by simp), if_neg (by simp [hc]), if_neg (by simp [hc]), if_neg (by decide)]
    rfl
  · have hnegate : step ('-' :: c :: cs) = operatorStep '-' (c :: cs) := rfl
    refine hnegate.trans ?_
    rw [operatorStep.eq_def]
    dsimp only
    rw [if_neg (by simp [hminus.symm]), if_neg (by simp [hc]), if_neg (by simp [hc]),
      if_neg (by decide)]
    rfl

/-- An operator before a piece that does not go on with it. -/
theorem inline_unary {op : UnaryOp} {code : String} {w : List Lexeme} {c : Char} {cs : List Char}
    (h : Inline code w) (hcode : code.toList = c :: cs) (hc : c ≠ '=')
    (hop : op = .not ∨ op = .negate ∧ c ≠ '-') :
    Inline (op.symbol ++ code) (.operator op.symbol :: w) := by
  refine ⟨fun rest hrest => ?_, lineBreak_not_mem_append (by cases op <;> decide) h.oneLine⟩
  rw [String.toList_append, List.append_assoc, hcode, List.cons_append]
  refine .token (step_unary hc hop) ?_
  have hreads := h.reads rest hrest
  rwa [hcode, List.cons_append] at hreads

/-- What a magnitude is written as, that no operator before it goes on with it, and what it
names. -/
structure SaysMagnitude (text : String) (names : List String) (w : List Lexeme) : Prop where
  inline : Inline text w
  harmless : Harmless w
  spells : Spells operandLevel w (ofMagnitude text)
  leads : ∃ c cs, text.toList = c :: cs ∧ c ≠ '=' ∧ c ≠ '-'
  names : (ofMagnitude text).Names names

/-- A word that is a name is a magnitude. -/
theorem saysMagnitude_word {text : String} (hword : IsWord text.toList) (hkeyword : text ∉ keywords)
    (hfree : text ∉ Sandbox.capabilityNames)
    (hleads : ∃ c cs, text.toList = c :: cs ∧ c ≠ '=' ∧ c ≠ '-')
    (hmeaning : ofMagnitude text = .var .start text) : SaysMagnitude text [text] [.name text] := by
  have hphrase := hword.phrase
  rw [String.ofList_toList, wordLexeme, if_neg (by rwa [List.contains_iff_mem])] at hphrase
  refine ⟨⟨hphrase, fun h => absurd (hword.parts _ h) (by decide)⟩, .name hfree .nil, ?_, hleads, ?_⟩
  · rw [hmeaning]
    exact .var text
  · rw [hmeaning]
    exact ⟨rfl, rfl⟩

/-- A numeral is a magnitude, and it names nothing. -/
theorem saysMagnitude_numeral {cs : List Char} (h : IsNumeral cs) :
    SaysMagnitude (String.ofList cs) [] [⟨.number, String.ofList cs⟩] := by
  obtain ⟨x, hx⟩ := Option.isSome_iff_exists.1 (Number.float?_isSome h)
  have hmeaning := ofMagnitude_numeral h hx
  obtain ⟨c, ds, rfl, hc⟩ := h.starts
  have hne {d : Char} (hd : ¬ d.isDigit = true) : c ≠ d := by
    rintro rfl
    exact hd hc
  have hinline : Inline (String.ofList (c :: ds)) [⟨.number, String.ofList (c :: ds)⟩] := by
    refine ⟨?_, ?_⟩
    · rw [String.toList_ofList]
      exact h.phrase
    · rw [String.toList_ofList]
      exact h.lineBreak_not_mem
  refine ⟨hinline, .cons nofun .nil, ?_, ⟨c, ds, String.toList_ofList, hne (by decide),
    hne (by decide)⟩, ?_⟩
  · rw [hmeaning]
    exact .number hx
  · rw [hmeaning]
    exact ⟨rfl, rfl⟩

theorem saysMagnitude {x : Float} {cs : List Char} (h : Number.IsMagnitude x cs) :
    ∃ w, SaysMagnitude (String.ofList cs) (Number.literalWord? x).toList w := by
  rw [Number.IsMagnitude] at h
  cases hword : Number.literalWord? x with
  | none =>
    rw [hword] at h
    exact ⟨_, saysMagnitude_numeral h⟩
  | some word =>
    rw [hword] at h
    subst h
    rcases Number.literalWord?_cases hword with rfl | rfl
    · exact ⟨_, saysMagnitude_word (isWord_of_all (by decide) (by decide)) (by decide) (by decide)
        ⟨'N', "aN".toList, by decide, by decide, by decide⟩ rfl⟩
    · exact ⟨_, saysMagnitude_word (isWord_of_all (by decide) (by decide)) (by decide) (by decide)
        ⟨'i', "nf".toList, by decide, by decide, by decide⟩ rfl⟩

/-- **The text of a number is one operand**, with a minus sign in front or without.  It names
nothing but the word for a number without digits. -/
theorem says_number (x : Float) {order : Order} (horder : order ∈ Order.expressions)
    (hstrength : order.strength = operandLevel) :
    (∃ w, Says order (Number.literal x) w (ofLiteral (Number.literal x))) ∧
      (ofLiteral (Number.literal x)).Names (Number.literalWord? x).toList := by
  obtain ⟨cs, hcs, hform⟩ := Number.literal_form x
  obtain ⟨w, hw⟩ := saysMagnitude hcs
  obtain ⟨c, ds, hlead, hequals, hminus⟩ := hw.leads
  rw [String.toList_ofList] at hlead
  rcases hform with hplain | hsigned
  · have htext : Number.literal x = String.ofList cs := by rw [← hplain, String.ofList_toList]
    have hmeaning : ofLiteral (String.ofList cs) = ofMagnitude (String.ofList cs) :=
      ofLiteral_unsigned (String.toList_ofList.trans hlead) hminus
    rw [htext, hmeaning]
    exact ⟨⟨w, .atom hw.inline hw.harmless ⟨c, ds, by rw [String.toList_ofList, hlead], hequals⟩
      hw.spells (unchained_ofMagnitude _) horder hstrength⟩, hw.names⟩
  · have htext : Number.literal x = UnaryOp.negate.symbol ++ String.ofList cs := by
      rw [← String.toList_inj, hsigned, String.toList_append, String.toList_ofList]
      rfl
    have hmeaning : ofLiteral (UnaryOp.negate.symbol ++ String.ofList cs) =
        .unary .start .negate (ofMagnitude (String.ofList cs)) :=
      ofLiteral_minus (by rw [String.toList_append, String.toList_ofList]; rfl)
    have hinline : Inline (UnaryOp.negate.symbol ++ String.ofList cs) _ :=
      inline_unary hw.inline (String.toList_ofList.trans hlead) hequals (.inr ⟨rfl, hminus⟩)
    have hleads : Leads (UnaryOp.negate.symbol ++ String.ofList cs) :=
      ⟨'-', cs, by rw [String.toList_append, String.toList_ofList]; rfl, by decide⟩
    rw [htext, hmeaning]
    exact ⟨⟨_, .atom hinline (.cons nofun hw.harmless) hleads
      (.unary .negate (Nat.le_refl _) hw.spells)
      (.unary .negate (unchained_ofMagnitude _).isLeftward) horder hstrength⟩, hw.names.vars,
      hw.names.callees⟩

end Generation
end VisualBlocks
