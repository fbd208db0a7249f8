import ViewSync.Proofs.Script.Operators
import ViewSync.Proofs.View.Lexemes

/-!
# ViewSync.Proofs.View.Operators

Operators keep their operands. The text of an expression of leaves and operators is read by the grammar of
JavaScript as the tree that it was made from, whatever the operators in it and however they are nested
(`operators_read_back`). Parentheses are decided by the first character of a text, and that suffices: a sign never
meets a sign, and the base of a power is never a bare unary operation.
-/

namespace ViewSync

open Script

namespace Expr

/-! ## expressions of operators -/

/-- Leaves and operators: names that JavaScript does not reserve, whole numbers without a sign, strings, booleans
and `None`, under unary operators, the binary operators and single comparisons that are translated, and
conditionals. -/
def operational : Expr → Bool
  | .int _ value => decide (0 ≤ value)
  | .str .. => true
  | .bool .. => true
  | .none _ => true
  | .name _ id => isNameText id && !Script.reservedWords.contains id
  | .unary _ _ operand => operand.operational
  | .binary _ left op right => left.operational && right.operational && op.translatable
  | .compare _ left [(op, right)] => left.operational && right.operational && op.translatable
  | .ternary _ test body orelse => test.operational && body.operational && orelse.operational
  | _ => false

/-- The structure of an expression: its operators as scripts write them, over the texts of its leaves. -/
def operation : Expr → Operation
  | .unary _ op operand => .unary (unarySymbol op).toList operand.operation
  | .binary _ left op right =>
    match Script.BinaryOp.ofSource? op with
    | some symbol => .binary left.operation symbol.symbol.toList right.operation
    | Option.none => .leaf []
  | .compare _ left [(op, right)] =>
    match Script.CompareOp.ofSource? op with
    | some symbol => .binary left.operation symbol.symbol.toList right.operation
    | Option.none => .leaf []
  | .ternary _ test body orelse => .ternary test.operation body.operation orelse.operation
  | e => .leaf e.text.toList

theorem lexical_of_operational {e : Expr} (h : e.operational = true) : e.lexical = true := by
  match e with
  | .int .. => exact h
  | .str .. | .bool .. | .none _ => rfl
  | .name span id =>
      rw [operational, Bool.and_eq_true] at h
      exact h.1
  | .unary span op operand => exact lexical_of_operational (e := operand) h
  | .binary span left op right =>
      simp only [operational, Bool.and_eq_true] at h
      simp [lexical, lexical_of_operational h.1.1, lexical_of_operational h.1.2]
  | .compare span left [(op, right)] =>
      simp only [operational, Bool.and_eq_true] at h
      simp [lexical, operandsLexical, lexical_of_operational h.1.1, lexical_of_operational h.1.2]
  | .ternary span test body orelse =>
      simp only [operational, Bool.and_eq_true] at h
      simp [lexical, lexical_of_operational h.1.1, lexical_of_operational h.1.2, lexical_of_operational h.2]

theorem translatable_of_operational {e : Expr} (h : e.operational = true) : e.translatable = true := by
  match e with
  | .int .. | .str .. | .bool .. | .none _ | .name .. => rfl
  | .unary span op operand => exact translatable_of_operational (e := operand) h
  | .binary span left op right =>
      simp only [operational, Bool.and_eq_true] at h
      simp [translatable, translatable_of_operational h.1.1, translatable_of_operational h.1.2, h.2]
  | .compare span left [(op, right)] =>
      simp only [operational, Bool.and_eq_true] at h
      simp [translatable, translatable_of_operational h.1.1, translatable_of_operational h.1.2, h.2]
  | .ternary span test body orelse =>
      simp only [operational, Bool.and_eq_true] at h
      simp [translatable, translatable_of_operational h.1.1, translatable_of_operational h.1.2,
        translatable_of_operational h.2]

end Expr

/-! ## leaves -/

theorem readsAs_name {id : String} (h : isNameText id = true)
    (hreserved : Script.reservedWords.contains id = false) : ReadsAs [leaf id] (.leaf id.toList) := by
  refine .leaf ?_
  rw [leaf_of_word h]
  simp only [leafOperation?, String.ofList_toList, hreserved, Bool.false_and]
  rfl

/-- A whole number is written without zeros in front. -/
theorem readsAs_int {value : Int} (h : 0 ≤ value) :
    ReadsAs [leaf (Fragment.int value)] (.leaf (Fragment.int value).toList) := by
  refine .leaf ?_
  obtain ⟨n, rfl⟩ := Int.eq_ofNat_of_zero_le h
  rw [leaf_of_number (isNumberText_int n)]
  simp only [leafOperation?]
  split
  · next hcons =>
      rw [toList_int] at hcons
      cases Json.toDigits_of_zero_cons hcons
  · rfl

theorem readsAs_string (value : String) :
    ReadsAs [leaf (Fragment.string value)] (.leaf (Fragment.string value).toList) := by
  refine .leaf ?_
  rw [Fragment.string, leaf_of_string]
  simp only [leafOperation?]

theorem readsAs_boolean (value : Bool) :
    ReadsAs [leaf (Fragment.boolean value)] (.leaf (Fragment.boolean value).toList) := by
  refine .leaf ?_
  cases value <;> rfl

theorem readsAs_null : ReadsAs [leaf Fragment.null] (.leaf Fragment.null.toList) := .leaf rfl

/-! ## reading back -/

/-- An expression that does not start with a unary operator is none. -/
theorem head_of_front {e : Expr} (h : e.operational = true) (hfront : e.front.isUnary = false) :
    e.lexemes.head?.any (isAmong unaryMarks) = false := by
  have hopen : isAmong unaryMarks (mark "(") = false := by decide
  have hpart : ∀ ls, (parens ls).head?.any (isAmong unaryMarks) = false := fun _ => hopen
  have hleaf : ∀ text, [leaf text].head?.any (isAmong unaryMarks) = false := fun _ => isAmong_leaf ..
  match e with
  | .int .. | .str .. | .bool .. | .none _ | .name .. => exact hleaf _
  | .unary span op operand => cases op <;> cases hfront
  | .binary span left op right =>
      rw [Expr.lexemes]
      split
      · exact hpart _
      · rfl
  | .compare span left [(op, right)] =>
      rw [Expr.lexemes]
      split
      · exact hpart _
      · rfl
  | .ternary .. => exact hpart _

/-- The lexemes of an expression are read as its structure. -/
theorem readsAs {e : Expr} (h : e.operational = true) : ReadsAs e.lexemes e.operation := by
  match e with
  | .int span value => exact readsAs_int (by simpa [Expr.operational] using h)
  | .str span text => exact readsAs_string text
  | .bool span value => exact readsAs_boolean value
  | .none span => exact readsAs_null
  | .name span id =>
      simp only [Expr.operational, Bool.and_eq_true, Bool.not_eq_true'] at h
      exact readsAs_name h.1 h.2
  | .unary span op operand =>
      have hmark : unarySymbol op ∈ unaryMarks := by cases op <;> decide
      exact ((readsAs (e := operand) h).parensIf _).unary hmark
  | .binary span left op right =>
      simp only [Expr.operational, Bool.and_eq_true] at h
      obtain ⟨symbol, hop⟩ := Option.isSome_iff_exists.1 ((Lower.isSome_binaryOp op).trans h.2)
      rw [Expr.lexemes, Expr.operation, hop]
      have hleft := (readsAs h.1.1).parensIf (symbol == .pow && left.front.isUnary)
      by_cases hpow : symbol = .pow
      · subst hpow
        refine hleft.pow ?_ (readsAs h.1.2)
        cases hfront : left.front.isUnary with
        | false => exact head_of_front h.1.1 hfront
        | true => rfl
      · exact hleft.binary (mem_levels_binaryOp hpow) (readsAs h.1.2)
  | .compare span left [(op, right)] =>
      simp only [Expr.operational, Bool.and_eq_true] at h
      obtain ⟨symbol, hop⟩ := Option.isSome_iff_exists.1 ((Lower.isSome_compareOp op).trans h.2)
      rw [Expr.lexemes, Expr.operation, hop]
      exact (readsAs h.1.1).binary (mem_levels_compareOp symbol) (readsAs h.1.2)
  | .ternary span test body orelse =>
      simp only [Expr.operational, Bool.and_eq_true] at h
      rw [Expr.lexemes, Expr.operation]
      exact (readsAs h.1.1).ternary (readsAs h.1.2) (readsAs h.2)

/-! ## structures as trees -/

/-- The tree of a view source that a structure stands for. -/
def Script.Operation.tree : Operation → ViewSync.Expr
  | .leaf text => .name .origin (String.ofList text)
  | .unary op operand => ((ViewSync.Expr.prefixed? op).map fun apply => apply operand.tree).getD (.none .origin)
  | .binary left op right =>
    ((ViewSync.Expr.joined? op).map fun apply => apply left.tree right.tree).getD (.none .origin)
  | .ternary test body orelse => .ternary .origin test.tree body.tree orelse.tree

/-- A structure has lost nothing of an expression but its spans and what its leaves are. -/
theorem tree_operation {e : Expr} (h : e.operational = true) : e.operation.tree = e.bare := by
  match e with
  | .int .. | .str .. | .bool .. | .none _ | .name .. =>
      rw [Expr.operation, Script.Operation.tree, String.ofList_toList]
      all_goals first | rfl | simp
  | .unary span op operand =>
      have hoperand := tree_operation (e := operand) h
      simp [Expr.operation, Script.Operation.tree, Expr.prefixed?_unaryOp, Expr.bare, hoperand]
  | .binary span left op right =>
      simp only [Expr.operational, Bool.and_eq_true] at h
      obtain ⟨symbol, hop⟩ := Option.isSome_iff_exists.1 ((Lower.isSome_binaryOp op).trans h.2)
      simp [Expr.operation, hop, Script.Operation.tree, Expr.joined?_binaryOp hop, Expr.bare,
        tree_operation h.1.1, tree_operation h.1.2]
  | .compare span left [(op, right)] =>
      simp only [Expr.operational, Bool.and_eq_true] at h
      obtain ⟨symbol, hop⟩ := Option.isSome_iff_exists.1 ((Lower.isSome_compareOp op).trans h.2)
      simp [Expr.operation, hop, Script.Operation.tree, Expr.joined?_compareOp hop, Expr.bare, Expr.bareOperands,
        tree_operation h.1.1, tree_operation h.1.2]
  | .ternary span test body orelse =>
      simp only [Expr.operational, Bool.and_eq_true] at h
      simp [Expr.operation, Script.Operation.tree, Expr.bare, tree_operation h.1.1, tree_operation h.1.2,
        tree_operation h.2]

/-- Operators keep their operands: an expression of leaves and operators is compiled, JavaScript reads its text as
the same tree, and so no other such tree has the same text, up to the texts of leaves. -/
theorem operators_read_back (ds : Scope.Declarations) {e : Expr} (h : e.operational = true) :
    ∃ s, Lower.expr ⟨.empty, ds⟩ e = .ok s ∧ readOperation s.render = some e.operation ∧
      ∀ ds' e' s', e'.operational = true → Lower.expr ⟨.empty, ds'⟩ e' = .ok s' → s'.render = s.render →
        e'.bare = e.bare := by
  have hread : ∀ e : Expr, e.operational = true → readOperation e.text = some e.operation := fun e he =>
    readOperation_of_readsAs
      (lexemes_text (Expr.lexical_of_operational he) (Expr.translatable_of_operational he)) (readsAs he)
  obtain ⟨s, hs, htext⟩ := Lower.lower_of_translatable ds (Expr.translatable_of_operational h)
  refine ⟨s, hs, htext ▸ hread e h, fun ds' e' s' he' hs' hsame => ?_⟩
  have hequal : e'.text = e.text := by rw [← Lower.render_of_lower hs', hsame, htext]
  have hoperation : e'.operation = e.operation := by
    have hread' := hread e' he'
    rw [hequal, hread e h] at hread'
    exact (Option.some.inj hread').symm
  rw [← tree_operation he', hoperation, tree_operation h]

/-- `(-x) ** 2 if not a else - -b`. -/
def Sample.signed : Expr :=
  let at_ (col : Nat) : Span := .ofNumbers 1 col 1 col
  let base : Expr := .unary (at_ 2) .neg (.name (at_ 3) "x")
  let twice : Expr := .unary (at_ 28) .neg (.unary (at_ 30) .neg (.name (at_ 31) "b"))
  .ternary (at_ 1) (.unary (at_ 16) .not (.name (at_ 20) "a")) (.binary (at_ 1) base .pow (.int (at_ 9) 2)) twice

/-- A power of a sign and a sign behind a sign are kept apart by parentheses. -/
theorem signed_read_back :
    Sample.signed.operational = true ∧
      ∃ s, Lower.expr ⟨.empty, .empty⟩ Sample.signed = .ok s ∧ s.render = "(!a ? ((-x) ** 2) : -(-b))" ∧
        readOperation s.render = some
          (.ternary (.unary ['!'] (.leaf ['a'])) (.binary (.unary ['-'] (.leaf ['x'])) ['*', '*'] (.leaf ['2']))
            (.unary ['-'] (.unary ['-'] (.leaf ['b'])))) := by
  have hsigned : Sample.signed.operational = true := by decide
  obtain ⟨s, hs, hread, -⟩ := operators_read_back .empty hsigned
  have htext : s.render = Sample.signed.text := Lower.render_of_lower hs
  refine ⟨hsigned, s, hs, ?_, ?_⟩
  · rw [htext]
    decide
  · rw [hread]
    decide

end ViewSync
