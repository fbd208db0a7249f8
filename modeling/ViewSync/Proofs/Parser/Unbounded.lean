import ViewSync.Proofs.Parser.Pairs

/-!
# ViewSync.Proofs.Parser.Unbounded

The rules of the grammar without bounds. `Extends P p q` says that `q` does what `p` does wherever `p` is not cut off,
at states at which the number of open expressions is in `P`. A rule extends another one if the parsers inside it do. So
larger bounds change nothing but where a parser is cut off, which it never is, and `expressionAt` and `statement` are
what their rules make of themselves (`expressionAt_eq`, `statement_eq`).
-/

namespace ViewSync.Parser

open ParseState

variable {α β : Type} {P : Nat → Prop}

/-- A parser that moves on, and one that does the same where the first one is not cut off. -/
structure Extends (P : Nat → Prop) (p q : Parser α) : Prop where
  onwards : Onwards p
  agrees : ∀ s : ParseState, s.eof.kind = .eof → P s.depth → p s ≠ .exhausted → q s = p s

section

variable {p q p' q' : Parser α}

theorem Onwards.extends (h : Onwards p) : Extends P p p :=
  ⟨h, fun _ _ _ _ => rfl⟩

theorem extends_pure (a : α) : Extends P (pure a) (pure a) :=
  (onwards_pure a).extends

theorem extends_fail (cause : ParseError) : Extends P (fail cause : Parser α) (fail cause) :=
  (onwards_fail cause).extends

theorem extends_exhausted : Extends P (fun _ => .exhausted) q :=
  ⟨onwards_exhausted, fun _ _ _ hne => absurd rfl hne⟩

theorem Extends.trans {r : Parser α} (h : Extends P p q) (h' : Extends P q r) : Extends P p r where
  onwards := h.onwards
  agrees s heof hs hne := by
    have hsame := h.agrees s heof hs hne
    rw [← hsame] at hne ⊢
    exact h'.agrees s heof hs hne

theorem Extends.bind {f g : α → Parser β} (hp : Extends P p q) (hf : ∀ a, Extends P (f a) (g a)) :
    Extends P (p >>= f) (q >>= g) where
  onwards := hp.onwards.bind fun a => (hf a).onwards
  agrees s heof hs hne := by
    rw [bind_apply] at hne ⊢
    rw [bind_apply]
    have hsame := hp.agrees s heof hs
    cases hfirst : p s with
    | done a s' =>
        rw [hfirst] at hne hsame
        rw [hsame (by simp)]
        have honward := hp.onwards.of_done hfirst
        exact (hf a).agrees s' (honward.eof ▸ heof) (honward.depth ▸ hs) hne
    | failed s' =>
        rw [hfirst] at hsame
        rw [hsame (by simp)]
    | exhausted =>
        rw [hfirst] at hne
        exact absurd rfl hne

/-- Behind the same parser. -/
theorem Onwards.extend {f g : α → Parser β} (hp : Onwards p) (hf : ∀ a, Extends P (f a) (g a)) :
    Extends P (p >>= f) (p >>= g) :=
  hp.extends.bind hf

theorem Extends.ite {c : Prop} [Decidable c] (h : Extends P p q) (h' : Extends P p' q') :
    Extends P (if c then p else p') (if c then q else q') := by
  split
  · exact h
  · exact h'

theorem Extends.loopUpTo {step step' : α → Parser (α ⊕ β)} (h : ∀ a, Extends P (step a) (step' a)) (bound : Nat)
    (a : α) :
    Extends P (loopUpTo step bound a) (loopUpTo step' bound a) := by
  induction bound generalizing a with
  | zero => exact extends_exhausted
  | succ bound ih =>
      refine ⟨Onwards.loopUpTo (fun a => (h a).onwards) _ a, fun s heof hs hne => ?_⟩
      rw [loopUpTo_succ] at hne ⊢
      rw [loopUpTo_succ]
      refine ((h a).bind fun r => ?_).agrees s heof hs hne
      cases r with
      | inl a' => exact ih a'
      | inr b => exact extends_pure b

/-- The bound of a loop is that of the state it starts at. -/
theorem Extends.loop {step step' : α → Parser (α ⊕ β)} (h : ∀ a, Extends P (step a) (step' a)) (a : α) :
    Extends P (loop step a) (loop step' a) :=
  ⟨fun s => (Extends.loopUpTo (P := P) h _ a).onwards s,
    fun s heof hs hne => (Extends.loopUpTo h _ a).agrees s heof hs hne⟩

theorem Extends.bounded {body body' : Nat → Parser α} (h : ∀ bound, Extends P (body bound) (body' bound)) :
    Extends P (bounded body) (bounded body') :=
  ⟨fun s => (h _).onwards s, fun s heof hs hne => (h _).agrees s heof hs hne⟩

/-- Of parsers that extend each other the one with the bound of the state does what all of them do, if that bound is not
too small. -/
theorem extends_bounded {body : Nat → Parser α}
    (hbody : ∀ {bound bound'}, bound ≤ bound' → Extends P (body bound) (body bound'))
    (hends : ∀ s : ParseState, s.eof.kind = .eof → bounded body s ≠ .exhausted) (bound : Nat) :
    Extends P (body bound) (bounded body) where
  onwards := (hbody (Nat.le_refl bound)).onwards
  agrees s heof hs hne := by
    obtain hle | hle := Nat.le_total bound (s.rest.length + 1)
    · exact (hbody hle).agrees s heof hs hne
    · exact ((hbody hle).agrees s heof hs (hends s heof)).symm

theorem Extends.attempt (h : Extends P p q) : Extends P (attempt p) (attempt q) where
  onwards := h.onwards.attempt
  agrees s heof hs hne := by
    have hp : p s ≠ .exhausted := by
      intro heq
      simp [Parser.attempt, heq] at hne
    simp [Parser.attempt, h.agrees s heof hs hp]

end

/-! ## lists -/

theorem extends_leftGrouped {op? : TokenKind → Option BinaryOp} {operand operand' : Parser Expr}
    (h : Extends P operand operand') : Extends P (leftGrouped op? operand) (leftGrouped op? operand') := by
  unfold leftGrouped
  refine h.bind fun first => .loop (fun left => onwards_peek.1.extend fun k => ?_) first
  cases op? k with
  | none => exact extends_pure _
  | some op => exact onwards_advance.extend fun _ => h.bind fun _ => extends_pure _

theorem extends_separated {stop : TokenKind} {item item' : Parser α} (h : Extends P item item') :
    Extends P (separated stop item) (separated stop item') := by
  unfold separated
  refine .loop (fun acc => (onwards_check _).extend fun _ => (onwards_check _).extend fun _ => ?_) []
  refine .ite (extends_pure _) (h.bind fun a => (onwards_eat _).extend fun _ => ?_)
  exact .ite (extends_pure _) (extends_pure _)

theorem extends_moreItems {stop : TokenKind → Bool} {item item' : Parser Expr} (h : Extends P item item') :
    Extends P (moreItems stop item) (moreItems stop item') := by
  unfold moreItems
  refine .loop (fun acc => (onwards_eat _).extend fun _ => .ite (onwards_peek.1.extend fun _ => ?_) (extends_pure _)) []
  exact .ite (extends_pure _) (h.bind fun _ => extends_pure _)

theorem extends_bareList {stop : TokenKind → Bool} {item item' : Parser Expr} (h : Extends P item item') :
    Extends P (bareList stop item) (bareList stop item') := by
  unfold bareList
  refine h.bind fun first => (onwards_check _).extend fun _ => .ite ?_ (extends_pure _)
  exact (extends_moreItems h).bind fun _ => extends_pure _

/-! ## expressions -/

section

variable {sub sub' : Sub} (hsub : ∀ level, Extends P (sub level) (sub' level))

include hsub

theorem extends_expressionList : Extends P (expressionList sub) (expressionList sub') :=
  extends_bareList (hsub .full)

theorem extends_targetList : Extends P (targetList sub) (targetList sub') :=
  extends_bareList (hsub .bitwise)

theorem extends_param (stop : TokenKind) : Extends P (param sub stop) (param sub' stop) := by
  unfold param
  refine onwards_identifier.extend fun name => ?_
  have hvalue : Extends P (do
      if ← eat (.symbol .eq) then
        let value ← sub .full
        return Param.mk name (some value) (name.span.merge value.span)
      else return ⟨name, none, name.span⟩) (do
      if ← eat (.symbol .eq) then
        let value ← sub' .full
        return Param.mk name (some value) (name.span.merge value.span)
      else return ⟨name, none, name.span⟩) :=
    (onwards_eat _).extend fun _ => .ite ((hsub .full).bind fun _ => extends_pure _) (extends_pure _)
  refine .ite ((onwards_eat _).extend fun _ => .ite ?_ hvalue) hvalue
  exact (hsub .full).bind fun _ => hvalue

theorem extends_params (stop : TokenKind) : Extends P (params sub stop) (params sub' stop) :=
  extends_separated (extends_param hsub stop)

theorem extends_arg : Extends P (arg sub) (arg sub') := by
  unfold arg
  have hvalue : ∀ f : Expr → Arg, Extends P (do return f (← sub .full)) (do return f (← sub' .full)) :=
    fun f => (hsub .full).bind fun _ => extends_pure _
  refine onwards_peek.1.extend fun k => ?_
  split
  · exact onwards_advance.extend fun _ => hvalue _
  · exact onwards_advance.extend fun _ => hvalue _
  · refine onwards_peek.2.1.extend fun _ => .ite (onwards_identifier.extend fun name => ?_) (hvalue _)
    exact onwards_advance.extend fun _ => hvalue _
  · exact hvalue _

theorem extends_parenthesized : Extends P (parenthesized sub) (parenthesized sub') := by
  unfold parenthesized
  refine onwards_advance.extend fun _ => (onwards_check _).extend fun _ =>
    .ite (onwards_advance.extend fun _ => extends_pure _) ?_
  refine (hsub .full).bind fun first => (onwards_check _).extend fun _ =>
    .ite (extends_fail _) ((onwards_check _).extend fun _ => ?_)
  refine .ite ?_ ((onwards_expect _).extend fun _ => extends_pure _)
  exact (extends_moreItems (hsub .full)).bind fun _ => (onwards_expect _).extend fun _ => extends_pure _

theorem extends_comprehension (start : Span) (element : Expr) :
    Extends P (comprehension sub start element) (comprehension sub' start element) := by
  unfold comprehension
  refine onwards_advance.extend fun _ => (extends_targetList hsub).bind fun target =>
    (onwards_expect _).extend fun _ => ?_
  refine (hsub .disjunction).bind fun source =>
    .bind (.loop (fun acc => (onwards_eat _).extend fun _ => .ite ?_ (extends_pure _)) []) fun _ => ?_
  · exact (hsub .disjunction).bind fun _ => extends_pure _
  · exact (onwards_expect _).extend fun _ => extends_pure _

theorem extends_list : Extends P (list sub) (list sub') := by
  have hclose : ∀ (start : Span) (items : List Expr), Extends P (do
      let bracket ← expect (.symbol .rightBracket)
      return Expr.list (start.merge bracket.span) items) (do
      let bracket ← expect (.symbol .rightBracket)
      return Expr.list (start.merge bracket.span) items) :=
    fun _ _ => (onwards_expect _).extend fun _ => extends_pure _
  unfold list
  refine onwards_advance.extend fun _ => (onwards_check _).extend fun _ => (onwards_check _).extend fun _ =>
    .ite (hclose _ _) ?_
  refine (hsub .full).bind fun first => (onwards_check _).extend fun _ => .ite (extends_comprehension hsub _ _) ?_
  exact (onwards_eat _).extend fun _ => .ite ((extends_separated (hsub .full)).bind fun _ => hclose _ _) (hclose _ _)

theorem extends_entry : Extends P (entry sub) (entry sub') := by
  unfold entry
  exact (hsub .full).bind fun _ => (onwards_expect _).extend fun _ => (hsub .full).bind fun _ => extends_pure _

theorem extends_dict : Extends P (dict sub) (dict sub') := by
  unfold dict
  refine onwards_advance.extend fun _ => (extends_separated (extends_entry hsub)).bind fun _ => ?_
  exact (onwards_expect _).extend fun _ => extends_pure _

theorem extends_yield : Extends P (yield sub) (yield sub') := by
  unfold yield
  refine onwards_advance.extend fun _ => onwards_peek.1.extend fun _ => .ite (extends_pure _) ?_
  exact (extends_expressionList hsub).bind fun _ => extends_pure _

theorem extends_atom : Extends P (atom sub) (atom sub') := by
  unfold atom
  refine onwards_peek.2.2.1.extend fun span => onwards_peek.1.extend fun k => ?_
  split
  case h_3 => exact (mirrors_strings [] []).onwards.extends
  case h_8 => exact extends_parenthesized hsub
  case h_9 => exact extends_list hsub
  case h_10 => exact extends_dict hsub
  case h_11 => exact extends_yield hsub
  case h_12 => exact extends_fail _
  all_goals exact onwards_advance.extend fun _ => extends_pure _

theorem extends_sliceBound : Extends P (sliceBound sub) (sliceBound sub') := by
  unfold sliceBound
  refine onwards_peek.1.extend fun k => ?_
  split
  case h_4 => exact (hsub .full).bind fun _ => extends_pure _
  all_goals exact extends_pure _

theorem extends_sliceRest (start : Span) (lower : Option Expr) :
    Extends P (sliceRest sub start lower) (sliceRest sub' start lower) := by
  unfold sliceRest
  refine onwards_advance.extend fun _ => (extends_sliceBound hsub).bind fun upper => (onwards_eat _).extend fun _ => ?_
  refine .ite ((extends_sliceBound hsub).bind fun _ => ?_) ((extends_pure _).bind fun _ => ?_)
  all_goals exact onwards_peek.2.2.2.extend fun _ => extends_pure _

theorem extends_subscript : Extends P (subscript sub) (subscript sub') := by
  unfold subscript
  refine onwards_peek.2.2.1.extend fun start => (onwards_check _).extend fun _ => .ite (extends_sliceRest hsub _ _) ?_
  refine (extends_expressionList hsub).bind fun index => (onwards_check _).extend fun _ => ?_
  exact .ite (extends_sliceRest hsub _ _) (extends_pure _)

theorem extends_suffixed : Extends P (suffixed sub) (suffixed sub') := by
  unfold suffixed
  refine (extends_atom hsub).bind fun base => .loop (fun value => onwards_peek.1.extend fun k => ?_) base
  split
  · exact onwards_advance.extend fun _ => onwards_identifier.extend fun _ => extends_pure _
  · refine onwards_advance.extend fun _ => (extends_subscript hsub).bind fun _ => ?_
    exact (onwards_expect _).extend fun _ => extends_pure _
  · refine onwards_advance.extend fun _ => (extends_separated (extends_arg hsub)).bind fun _ => ?_
    exact (onwards_expect _).extend fun _ => extends_pure _
  · exact extends_pure _

theorem extends_factorUpTo (bound : Nat) : Extends P (factorUpTo sub bound) (factorUpTo sub' bound) := by
  induction bound with
  | zero => exact extends_exhausted
  | succ bound ih =>
      unfold factorUpTo
      refine onwards_peek.1.extend fun k => ?_
      cases signOp k with
      | some op => exact onwards_advance.extend fun _ => ih.bind fun _ => extends_pure _
      | none =>
          refine (extends_suffixed hsub).bind fun base => (onwards_eat _).extend fun _ => .ite ?_ (extends_pure _)
          exact ih.bind fun _ => extends_pure _

theorem extends_bitOr : Extends P (bitOr sub) (bitOr sub') := by
  have hfactor : Extends P (factor sub) (factor sub') := .bounded (extends_factorUpTo hsub)
  have hshift : Extends P (shift sub) (shift sub') :=
    extends_leftGrouped (extends_leftGrouped (extends_leftGrouped hfactor))
  exact extends_leftGrouped (extends_leftGrouped (extends_leftGrouped hshift))

theorem extends_comparison : Extends P (comparison sub) (comparison sub') := by
  unfold comparison
  refine (extends_bitOr hsub).bind fun left => .bind (.loop (fun acc => ?_) []) fun rest => ?_
  · refine onwards_peek.1.extend fun k => onwards_peek.2.1.extend fun l => ?_
    cases compareOp? k l with
    | none => exact extends_pure _
    | some found =>
        obtain ⟨op, both⟩ := found
        refine onwards_advance.extend fun _ => .ite (onwards_advance.extend fun _ => ?_) ?_
        all_goals exact (extends_bitOr hsub).bind fun _ => extends_pure _
  · cases rest.getLast? with
    | none => exact extends_pure _
    | some found => exact extends_pure _

theorem extends_negationUpTo (bound : Nat) : Extends P (negationUpTo sub bound) (negationUpTo sub' bound) := by
  induction bound with
  | zero => exact extends_exhausted
  | succ bound ih =>
      unfold negationUpTo
      refine (onwards_check _).extend fun _ => .ite (onwards_advance.extend fun _ => ?_) (extends_comparison hsub)
      exact ih.bind fun _ => extends_pure _

theorem extends_disjunction : Extends P (disjunction sub) (disjunction sub') := by
  have hnegation : Extends P (negation sub) (negation sub') := .bounded (extends_negationUpTo hsub)
  exact extends_leftGrouped (extends_leftGrouped hnegation)

theorem extends_ternary : Extends P (ternary sub) (ternary sub') := by
  unfold ternary
  refine (extends_disjunction hsub).bind fun body => (onwards_eat _).extend fun _ => .ite ?_ (extends_pure _)
  refine (extends_disjunction hsub).bind fun test => (onwards_expect _).extend fun _ => ?_
  exact (hsub .full).bind fun _ => extends_pure _

theorem extends_lambda : Extends P (lambda sub) (lambda sub') := by
  unfold lambda
  refine onwards_advance.extend fun _ => (extends_params hsub _).bind fun ps => (onwards_expect _).extend fun _ => ?_
  exact (hsub .full).bind fun _ => extends_pure _

omit hsub

variable (hP : ∀ depth, P depth → P (depth + 1))

include hP

/-- One more expression is open on both sides. -/
theorem Extends.nested {p q : Parser Expr} (h : Extends P p q) : Extends P (nested p) (nested q) where
  onwards := onwards_nested h.onwards
  agrees s heof hs hne := by
    unfold Parser.nested at hne ⊢
    by_cases hroom : s.depth < maxNesting
    · rw [if_pos hroom] at hne ⊢
      rw [if_pos hroom]
      have hopen : p { s with depth := s.depth + 1 } ≠ .exhausted := by
        intro heq
        simp [heq] at hne
      rw [h.agrees { s with depth := s.depth + 1 } heof (hP _ hs) hopen]
    · rw [if_neg hroom, if_neg hroom]

include hsub

theorem extends_full : Extends P (full sub) (full sub') :=
  .nested hP ((onwards_check _).extend fun _ => .ite (extends_lambda hsub) (extends_ternary hsub))

end

/-! ## recursion of expressions -/

/-- The rule of a level, from the parsers for inner expressions. -/
def levelWith (sub : Sub) : Sub
  | .full => full sub
  | .disjunction => disjunction sub
  | .bitwise => bitOr sub

theorem parseAt_succ (bound : Nat) : parseAt (bound + 1) = levelWith (parseAt bound) := by
  funext level
  cases level <;> rfl

section

variable (hP : ∀ depth, P depth → P (depth + 1))

include hP

theorem extends_levelWith {sub sub' : Sub} (hsub : ∀ level, Extends P (sub level) (sub' level)) (level : Level) :
    Extends P (levelWith sub level) (levelWith sub' level) := by
  cases level with
  | full => exact extends_full hsub hP
  | disjunction => exact extends_disjunction hsub
  | bitwise => exact extends_bitOr hsub

/-- A larger bound changes nothing but where a parser is cut off. -/
theorem extends_parseAt {bound bound' : Nat} (h : bound ≤ bound') (level : Level) :
    Extends P (parseAt bound level) (parseAt bound' level) := by
  induction bound generalizing bound' level with
  | zero => exact extends_exhausted
  | succ bound ih =>
      obtain ⟨bound', rfl⟩ := Nat.exists_eq_succ_of_ne_zero (Nat.ne_of_gt (Nat.zero_lt_of_lt h))
      rw [parseAt_succ, parseAt_succ]
      exact extends_levelWith hP (fun level => ih (Nat.le_of_succ_le_succ h) level) level

end

theorem expressionAt_ne_exhausted (level : Level) {s : ParseState} (heof : s.eof.kind = .eof) :
    expressionAt level s ≠ .exhausted :=
  HaltsAt.ne_exhausted (uses_expressionAt level s) heof

theorem extends_expressionAt (bound : Nat) (level : Level) :
    Extends (fun _ => True) (parseAt bound level) (expressionAt level) :=
  extends_bounded (fun h => extends_parseAt (fun _ h => h) h level)
    (fun _ heof => expressionAt_ne_exhausted level heof) bound

theorem onwards_expressionAt (level : Level) : Onwards (expressionAt level) :=
  fun s => (extends_expressionAt _ level).onwards s

/-- The expressions of a level are what its rule makes of the expressions inside. -/
theorem expressionAt_eq (level : Level) {s : ParseState} (heof : s.eof.kind = .eof) :
    expressionAt level s = levelWith expressionAt level s := by
  have hsame : expressionAt level s = levelWith (parseAt s.rest.length) level s := by
    rw [← parseAt_succ]
    rfl
  have hends := expressionAt_ne_exhausted level heof
  rw [hsame] at hends ⊢
  have hextends := extends_levelWith (P := fun _ => True) (fun _ h => h) (extends_expressionAt s.rest.length) level
  exact (hextends.agrees s heof trivial hends).symm

/-! ## statements -/

theorem onwards_expressionList : Onwards (expressionList expressionAt) :=
  (extends_expressionList (P := fun _ => True) fun level => (onwards_expressionAt level).extends).onwards

theorem onwards_targetList : Onwards (targetList expressionAt) :=
  (extends_targetList (P := fun _ => True) fun level => (onwards_expressionAt level).extends).onwards

theorem onwards_params (stop : TokenKind) : Onwards (params expressionAt stop) :=
  (extends_params (P := fun _ => True) (fun level => (onwards_expressionAt level).extends) stop).onwards

theorem onwards_bases : Onwards bases := by
  unfold bases
  refine (onwards_eat _).bind fun found => ?_
  split
  · have hbases : Extends (fun _ => True) (separated (.symbol .rightParen) expression) _ :=
      extends_separated (onwards_expressionAt .full).extends
    exact hbases.onwards.bind fun _ => (onwards_expect _).bind fun _ => onwards_pure _
  · exact onwards_pure _

section

variable {stmt stmt' : Parser Stmt} (hstmt : Extends P stmt stmt')

include hstmt

theorem extends_recovered : Extends P (recovered stmt) (recovered stmt') := by
  unfold recovered
  refine hstmt.attempt.bind fun found => ?_
  cases found with
  | some stmt => exact extends_pure _
  | none => exact onwards_synchronize.extend fun _ => extends_pure _

theorem extends_statementStep (acc : List Stmt) : Extends P (statementStep stmt acc) (statementStep stmt' acc) := by
  refine (extends_recovered hstmt).bind fun found => ?_
  cases found with
  | some stmt => exact extends_pure _
  | none => exact extends_pure _

theorem extends_indentedBlock : Extends P (indentedBlock stmt) (indentedBlock stmt') := by
  rw [indentedBlock_eq_loop, indentedBlock_eq_loop]
  refine .bind (.loop (fun acc => ?_) []) fun _ => (onwards_eat _).extend fun _ => extends_pure _
  refine (onwards_check _).extend fun _ => (onwards_check _).extend fun _ => onwards_tooManyFaults.extend fun _ => ?_
  exact .ite (extends_pure _) (extends_statementStep hstmt acc)

theorem extends_block : Extends P (block stmt) (block stmt') := by
  unfold block
  refine (onwards_expect _).extend fun _ => (onwards_eat _).extend fun _ => .ite ?_ ?_
  · exact (onwards_eat _).extend fun _ => .ite (extends_indentedBlock hstmt) (extends_fail _)
  · exact onwards_simple.extend fun _ => extends_pure _

theorem extends_function (decorators : List Expr) :
    Extends P (function stmt decorators) (function stmt' decorators) := by
  unfold function
  refine onwards_peek.2.2.1.extend fun start => onwards_advance.extend fun _ => onwards_identifier.extend fun name => ?_
  refine (onwards_expect _).extend fun _ => (onwards_params _).extend fun ps => (onwards_expect _).extend fun _ => ?_
  refine (onwards_eat _).extend fun _ => .ite ((onwards_expressionAt _).extend fun _ => ?_) ?_
  all_goals exact (extends_block hstmt).bind fun _ => onwards_peek.2.2.2.extend fun _ => extends_pure _

theorem extends_classDef (decorators : List Expr) :
    Extends P (classDef stmt decorators) (classDef stmt' decorators) := by
  unfold classDef
  refine onwards_peek.2.2.1.extend fun start => onwards_advance.extend fun _ => onwards_identifier.extend fun name => ?_
  refine onwards_bases.extend fun bs => (extends_block hstmt).bind fun _ => ?_
  exact onwards_peek.2.2.2.extend fun _ => extends_pure _

theorem extends_decorated : Extends P (decorated stmt) (decorated stmt') := by
  unfold decorated
  refine Onwards.extend (.loop (fun acc => (onwards_eat _).bind fun found => ?_) []) fun decorators => ?_
  · split
    · exact (onwards_expressionAt _).bind fun _ => onwards_lineEnd.bind fun _ => onwards_pure _
    · exact onwards_pure _
  · refine onwards_peek.1.extend fun k => ?_
    split
    · exact extends_function hstmt _
    · exact extends_classDef hstmt _
    · exact extends_fail _

theorem extends_ifChainUpTo (bound : Nat) : Extends P (ifChainUpTo stmt bound) (ifChainUpTo stmt' bound) := by
  induction bound with
  | zero => exact extends_exhausted
  | succ bound ih =>
      rw [ifChainUpTo_succ, ifChainUpTo_succ]
      refine onwards_peek.2.2.1.extend fun start => onwards_advance.extend fun _ =>
        (onwards_expressionAt _).extend fun _ => ?_
      refine (extends_block hstmt).bind fun body => .bind ?_ fun _ => onwards_peek.2.2.2.extend fun _ => extends_pure _
      unfold chainRest
      refine onwards_peek.1.extend fun k => ?_
      split
      · exact ih.bind fun _ => extends_pure _
      · exact onwards_advance.extend fun _ => (extends_block hstmt).bind fun _ => extends_pure _
      · exact extends_pure _

theorem extends_loopElse : Extends P (loopElse stmt) (loopElse stmt') := by
  unfold loopElse
  exact (onwards_eat _).extend fun _ => .ite ((extends_block hstmt).bind fun _ => extends_pure _) (extends_pure _)

theorem extends_forLoop : Extends P (forLoop stmt) (forLoop stmt') := by
  unfold forLoop
  refine onwards_peek.2.2.1.extend fun start => onwards_advance.extend fun _ =>
    onwards_targetList.extend fun target => ?_
  refine (onwards_expect _).extend fun _ => onwards_expressionList.extend fun source => ?_
  refine (extends_block hstmt).bind fun body => (extends_loopElse hstmt).bind fun _ => ?_
  exact onwards_peek.2.2.2.extend fun _ => extends_pure _

theorem extends_whileLoop : Extends P (whileLoop stmt) (whileLoop stmt') := by
  unfold whileLoop
  refine onwards_peek.2.2.1.extend fun start => onwards_advance.extend fun _ =>
    (onwards_expressionAt _).extend fun _ => ?_
  refine (extends_block hstmt).bind fun body => (extends_loopElse hstmt).bind fun _ => ?_
  exact onwards_peek.2.2.2.extend fun _ => extends_pure _

theorem extends_statementWith : Extends P (statementWith stmt) (statementWith stmt') := by
  unfold statementWith
  refine onwards_peek.1.extend fun k => ?_
  split
  · exact extends_function hstmt _
  · exact extends_classDef hstmt _
  · exact extends_decorated hstmt
  · exact (Extends.bounded (extends_ifChainUpTo hstmt)).bind fun _ => extends_pure _
  · exact extends_forLoop hstmt
  · exact extends_whileLoop hstmt
  · split
    · exact (onwards_refused _).extends
    · exact .ite onwards_simple.extends (extends_fail _)
  · exact onwards_simple.extends

end

theorem extends_statementUpTo {bound bound' : Nat} (h : bound ≤ bound') :
    Extends P (statementUpTo bound) (statementUpTo bound') := by
  induction bound generalizing bound' with
  | zero => exact extends_exhausted
  | succ bound ih =>
      obtain ⟨bound', rfl⟩ := Nat.exists_eq_succ_of_ne_zero (Nat.ne_of_gt (Nat.zero_lt_of_lt h))
      exact extends_statementWith (ih (Nat.le_of_succ_le_succ h))

theorem statement_ne_exhausted {s : ParseState} (heof : s.eof.kind = .eof) : statement s ≠ .exhausted :=
  HaltsAt.ne_exhausted (uses_statement s) heof

theorem extends_statement (bound : Nat) : Extends (fun _ => True) (statementUpTo bound) statement :=
  extends_bounded extends_statementUpTo (fun _ heof => statement_ne_exhausted heof) bound

/-- A statement is what its rule makes of the statements in its blocks. -/
theorem statement_eq {s : ParseState} (heof : s.eof.kind = .eof) : statement s = statementWith statement s :=
  ((extends_statementWith (extends_statement s.rest.length)).agrees s heof trivial (statement_ne_exhausted heof)).symm

end ViewSync.Parser
