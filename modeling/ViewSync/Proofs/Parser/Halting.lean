import ViewSync.Proofs.Parser.Rounds

/-!
# ViewSync.Proofs.Parser.Halting

Every rule of the grammar ends (`module_ne_exhausted`). The parsers for inner expressions are arbitrary; where fewer
than `n` tokens are ahead they are to use up a token for each value, and a rule that gets to them behind a token of its
own does so where no more than `n` are ahead.
-/

namespace ViewSync.Parser

open ParseState

variable {α : Type} {n : Nat}

theorem UsesBelow.halts {p : Parser α} (h : UsesBelow n p) : HaltsBelow n p :=
  fun s hs => (h s hs).halts

/-! ## operators -/

section operators

variable {op? : TokenKind → Option BinaryOp} {operand : Parser Expr}

/-- The end of a source is no operator. -/
theorem gainsBelow_leftStep (hop : op? .eof = none) (h : UsesBelow n operand) :
    GainsBelow n (leftStep op? operand) := by
  intro left s hs
  unfold leftStep
  refine .kind ?_
  split
  · exact .out trivial
  · rename_i op hfound
    have hne : s.peek.kind ≠ .eof := by
      intro heq
      rw [heq, hop] at hfound
      cases hfound
    exact .advance hne fun s₁ hlt => (h s₁ (by omega)).bind fun right s₂ _ hlt₂ => .again (by omega) trivial

theorem usesBelow_leftGrouped (hop : op? .eof = none) (h : UsesBelow n operand) :
    UsesBelow n (leftGrouped op? operand) := by
  intro s hs
  refine (h s hs).bind fun first s₁ _ hlt => Halts.shorter ?_ hlt
  exact (gainsBelow_leftStep hop h).loop first s₁ (by omega)

end operators

/-! ## lists -/

section lists

variable {item : Parser α} {stop : TokenKind}

theorem gainsBelow_separatedStep (h : UsesBelow n item) : GainsBelow n (separatedStep stop item) := by
  intro acc s hs
  refine .check (.check (.ite (fun _ => .out trivial) fun _ => ?_))
  refine (h s hs).bind fun a s₁ _ hlt => .eat nofun (fun s₂ hlt₂ => ?_) fun _ => ?_
  · exact .again (by omega) trivial
  · exact .out trivial

theorem haltsBelow_separated (h : UsesBelow n item) : HaltsBelow n (separated stop item) :=
  (gainsBelow_separatedStep h).loop []

theorem gainsBelow_moreItemsStep {item : Parser Expr} {stop : TokenKind → Bool} (h : UsesBelow n item) :
    GainsBelow n (moreItemsStep stop item) := by
  intro acc s hs
  refine .eat nofun (fun s₁ hlt => .kind (.ite (fun _ => .out trivial) fun _ => ?_)) fun _ => ?_
  · exact (h s₁ (by omega)).bind fun e s₂ _ hlt₂ => .again (by omega) trivial
  · exact .out trivial

theorem haltsBelow_moreItems {item : Parser Expr} {stop : TokenKind → Bool} (h : UsesBelow n item) :
    HaltsBelow n (moreItems stop item) :=
  (gainsBelow_moreItemsStep h).loop []

theorem usesBelow_bareList {item : Parser Expr} {stop : TokenKind → Bool} (h : UsesBelow n item) :
    UsesBelow n (bareList stop item) := by
  intro s hs
  unfold bareList
  refine (h s hs).bind fun first s₁ _ hlt => .check (.ite (fun _ => ?_) fun _ => .pure hlt)
  exact Halts.shorter ((haltsBelow_moreItems h s₁ (by omega)).bind fun _ s₂ _ => halts_pure _ s₂) hlt

end lists

section

variable {sub : Sub} (hsub : ∀ level, UsesBelow n (sub level))

include hsub

theorem usesBelow_expressionList : UsesBelow n (expressionList sub) :=
  usesBelow_bareList (hsub .full)

theorem usesBelow_targetList : UsesBelow n (targetList sub) :=
  usesBelow_bareList (hsub .bitwise)

theorem usesBelow_param (stop : TokenKind) : UsesBelow n (param sub stop) := by
  intro s hs
  unfold param
  refine .identifier fun i s₁ hlt => Halts.shorter ?_ hlt
  have hvalue : ∀ s' : ParseState, s'.rest.length < n → Halts (do
      if ← eat (.symbol .eq) then
        let value ← sub .full
        return Param.mk i (some value) (i.span.merge value.span)
      else return ⟨i, none, i.span⟩) s' := by
    intro s' hs'
    refine .eat nofun (fun s₂ hlt₂ => ?_) fun _ => halts_pure _ s'
    exact (hsub .full s₂ (by omega)).bind fun _ s₃ _ _ => halts_pure _ s₃
  refine .ite (fun _ => .eat nofun (fun s₂ hlt₂ => ?_) fun _ => hvalue s₁ (by omega)) fun _ => hvalue s₁ (by omega)
  exact (hsub .full s₂ (by omega)).bind fun _ s₃ _ hlt₃ => hvalue s₃ (by omega)

theorem haltsBelow_params (stop : TokenKind) : HaltsBelow n (params sub stop) :=
  haltsBelow_separated (usesBelow_param hsub stop)


theorem usesBelow_arg : UsesBelow n (arg sub) := by
  intro s hs
  have hplain : Uses (do return Arg.positional (← sub .full)) s :=
    (hsub .full s hs).bind fun _ _ _ hlt => .pure hlt
  unfold arg
  refine .kind ?_
  split
  · rename_i hkind
    refine .advance (hkind ▸ nofun) fun s₁ hlt => Halts.shorter ?_ hlt
    exact (hsub .full s₁ (by omega)).bind fun _ s₂ _ _ => halts_pure _ s₂
  · rename_i hkind
    refine .advance (hkind ▸ nofun) fun s₁ hlt => Halts.shorter ?_ hlt
    exact (hsub .full s₁ (by omega)).bind fun _ s₂ _ _ => halts_pure _ s₂
  · refine .second (.ite (fun _ => .identifier fun i s₁ hlt => Halts.shorter (.step fun s₂ hle => ?_) hlt)
      fun _ => hplain)
    exact (hsub .full s₂ (by omega)).bind fun _ s₃ _ _ => halts_pure _ s₃
  · exact hplain

omit hsub

/-! ## atoms -/

/-- A literal is used up, and the loop ends where none is ahead. -/
theorem haltsAt_stringsStep (acc : String) (s : ParseState) : HaltsAt (stringsStep acc) s
    (Gains s (fun _ _ => True) fun _ s' => s' = s ∧ ∀ text, s.peek.kind ≠ .str text) := by
  unfold stringsStep
  refine .kind ?_
  split
  · rename_i hkind
    exact .advance (hkind ▸ nofun) fun s₁ hlt => .again hlt trivial
  · rename_i hother
    exact .out ⟨rfl, hother⟩

/-- String literals use up a token if one is ahead. -/
theorem uses_strings {s : ParseState} {text : String} (h : s.peek.kind = .str text) : Uses strings s := by
  refine .here (.bind ?_ fun _ s₁ _ (hlt : s₁.rest.length < s.rest.length) => .last (.pure hlt))
  refine .loop (fun _ s' => s' = s ∨ s'.rest.length < s.rest.length) (.inl rfl)
    fun acc s₁ honward hs₁ => (haltsAt_stringsStep acc s₁).mono fun r s₂ _ hr => ?_
  cases r with
  | inl acc' => exact ⟨hr.1, .inr (Nat.lt_of_lt_of_le hr.1 honward.length_le)⟩
  | inr found =>
      obtain ⟨rfl, hother⟩ := hr
      refine hs₁.resolve_left ?_
      rintro rfl
      exact hother text h

include hsub


section brackets

variable {s : ParseState} (hne : s.peek.kind ≠ .eof) (hs : s.rest.length ≤ n)

include hne hs

theorem uses_parenthesized : Uses (parenthesized sub) s := by
  unfold parenthesized
  refine .advance hne fun s₁ hlt => Halts.shorter (.check (.ite (fun _ => ?_) fun _ => ?_)) hlt
  · exact .step fun s₂ _ => halts_pure _ s₂
  · refine (hsub .full s₁ (by omega)).bind fun first s₂ _ hlt₂ => .check (.ite (fun _ => haltsAt_fail _) fun _ => ?_)
    refine .check (.ite (fun _ => ?_) fun _ => .expect nofun fun _ s₃ _ => halts_pure _ s₃)
    refine (haltsBelow_moreItems (hsub .full) s₂ (by omega)).bind fun _ s₃ _ => ?_
    exact .expect nofun fun _ s₄ _ => halts_pure _ s₄

end brackets

theorem gainsBelow_conditionStep : GainsBelow n (conditionStep sub) := by
  intro acc s hs
  refine .eat nofun (fun s₁ hlt => ?_) fun _ => .out trivial
  exact (hsub .disjunction s₁ (by omega)).bind fun _ s₂ _ hlt₂ => .again (by omega) trivial

theorem haltsBelow_comprehension (start : Span) (element : Expr) : HaltsBelow n (comprehension sub start element) := by
  intro s hs
  unfold comprehension
  refine .step fun s₁ hle => (usesBelow_targetList hsub s₁ (by omega)).bind fun target s₂ _ hlt₂ => ?_
  refine .expect nofun fun _ s₃ hlt₃ => (hsub .disjunction s₃ (by omega)).bind fun source s₄ _ hlt₄ => ?_
  have hconditions := (gainsBelow_conditionStep hsub).loop [] s₄ (by omega)
  exact hconditions.bind fun _ s₅ _ => .expect nofun fun _ s₆ _ => halts_pure _ s₆

theorem usesBelow_entry : UsesBelow n (entry sub) := by
  intro s hs
  unfold entry
  refine (hsub .full s hs).bind fun key s₁ _ hlt => Halts.shorter (.expect nofun fun _ s₂ hlt₂ => ?_) hlt
  exact (hsub .full s₂ (by omega)).bind fun _ s₃ _ _ => halts_pure _ s₃

section brackets

variable {s : ParseState} (hne : s.peek.kind ≠ .eof) (hs : s.rest.length ≤ n)

include hne hs

theorem uses_list : Uses (list sub) s := by
  have hclose : ∀ (start : Span) (items : List Expr) (s' : ParseState), Halts (do
      let bracket ← expect (.symbol .rightBracket)
      return Expr.list (start.merge bracket.span) items) s' :=
    fun start items s' => .expect nofun fun _ s₁ _ => halts_pure _ s₁
  unfold list
  refine .advance hne fun s₁ hlt => Halts.shorter (.check (.check (.ite (fun _ => hclose _ _ s₁) fun _ => ?_))) hlt
  refine (hsub .full s₁ (by omega)).bind fun first s₂ _ hlt₂ => .check (.ite (fun _ => ?_) fun _ => ?_)
  · exact haltsBelow_comprehension hsub _ _ s₂ (by omega)
  · refine .eat nofun (fun s₃ hlt₃ => ?_) fun _ => hclose _ _ s₂
    exact (haltsBelow_separated (hsub .full) s₃ (by omega)).bind fun _ s₄ _ => hclose _ _ s₄

theorem uses_dict : Uses (dict sub) s := by
  unfold dict
  refine .advance hne fun s₁ hlt => Halts.shorter ?_ hlt
  refine (haltsBelow_separated (usesBelow_entry hsub) s₁ (by omega)).bind fun _ s₂ _ => ?_
  exact .expect nofun fun _ s₃ _ => halts_pure _ s₃

theorem uses_yield : Uses (yield sub) s := by
  unfold yield
  refine .advance hne fun s₁ hlt => Halts.shorter (.kind (.ite (fun _ => halts_pure _ s₁) fun _ => ?_)) hlt
  exact (usesBelow_expressionList hsub s₁ (by omega)).bind fun _ s₂ _ _ => halts_pure _ s₂

end brackets

theorem usesBelow_atom : UsesBelow (n + 1) (atom sub) := by
  intro s hs
  have hs' := Nat.le_of_lt_succ hs
  have hleaf : ∀ e : Expr, s.peek.kind ≠ .eof → Uses (do let _ ← advance; return e) s :=
    fun e hne => .advance hne fun s₁ hlt => .pure hlt
  unfold atom
  refine .here (.kind ?_)
  split
  case h_3 hkind => exact uses_strings hkind
  case h_8 hkind => exact uses_parenthesized hsub (hkind ▸ nofun) hs'
  case h_9 hkind => exact uses_list hsub (hkind ▸ nofun) hs'
  case h_10 hkind => exact uses_dict hsub (hkind ▸ nofun) hs'
  case h_11 hkind => exact uses_yield hsub (hkind ▸ nofun) hs'
  case h_12 => exact haltsAt_fail _
  all_goals
    rename_i hkind
    exact hleaf _ (hkind ▸ nofun)

/-! ## attributes, subscripts and calls -/

theorem haltsBelow_sliceBound : HaltsBelow n (sliceBound sub) := by
  intro s hs
  unfold sliceBound
  refine .kind ?_
  split
  case h_4 => exact (hsub .full s hs).bind fun _ s₁ _ _ => halts_pure _ s₁
  all_goals exact halts_pure _ s

theorem haltsBelow_sliceRest (start : Span) (lower : Option Expr) : HaltsBelow n (sliceRest sub start lower) := by
  intro s hs
  unfold sliceRest
  refine .step fun s₁ hle => (haltsBelow_sliceBound hsub s₁ (by omega)).bind fun upper s₂ honward => ?_
  have hle₂ := honward.length_le
  refine .eat nofun (fun s₃ hlt₃ => ?_) fun _ => .last (halts_pure _ s₂)
  exact (haltsBelow_sliceBound hsub s₃ (by omega)).bind fun _ s₄ _ => .last (halts_pure _ s₄)

theorem haltsBelow_subscript : HaltsBelow n (subscript sub) := by
  intro s hs
  unfold subscript
  refine .here (.check (.ite (fun _ => haltsBelow_sliceRest hsub _ _ s hs) fun _ => ?_))
  refine (usesBelow_expressionList hsub s hs).bind fun index s₁ _ hlt => .check (.ite (fun _ => ?_) fun _ => ?_)
  · exact haltsBelow_sliceRest hsub _ _ s₁ (by omega)
  · exact halts_pure _ s₁

theorem gainsBelow_suffixStep : GainsBelow (n + 1) (suffixStep sub) := by
  intro value s hs
  unfold suffixStep
  refine .kind ?_
  split
  · rename_i hkind
    refine .advance (hkind ▸ nofun) fun s₁ hlt => .identifier fun _ s₂ hlt₂ => .again (by omega) trivial
  · rename_i hkind
    refine .advance (hkind ▸ nofun) fun s₁ hlt => ?_
    refine (haltsBelow_subscript hsub s₁ (by omega)).bind fun _ s₂ honward => ?_
    have hle := honward.length_le
    exact .expect nofun fun _ s₃ hlt₃ => .again (by omega) trivial
  · rename_i hkind
    refine .advance (hkind ▸ nofun) fun s₁ hlt => ?_
    refine (haltsBelow_separated (usesBelow_arg hsub) s₁ (by omega)).bind fun _ s₂ honward => ?_
    have hle := honward.length_le
    exact .expect nofun fun _ s₃ hlt₃ => .again (by omega) trivial
  · exact .out trivial

theorem usesBelow_suffixed : UsesBelow (n + 1) (suffixed sub) := by
  intro s hs
  refine (usesBelow_atom hsub s hs).bind fun base s₁ _ hlt => Halts.shorter ?_ hlt
  exact (gainsBelow_suffixStep hsub).loop base s₁ (by omega)

/-! ## the binding levels -/

theorem uses_factorUpTo {bound : Nat} {s : ParseState} (hs : s.rest.length < n + 1) (hbound : s.rest.length < bound) :
    Uses (factorUpTo sub bound) s := by
  induction bound generalizing s with
  | zero => exact absurd hbound (Nat.not_lt_zero _)
  | succ bound ih =>
      unfold factorUpTo
      refine .kind ?_
      split
      · rename_i op hop
        have hne : s.peek.kind ≠ .eof := by
          intro heq
          rw [heq] at hop
          cases hop
        refine .advance hne fun s₁ hlt => Halts.shorter ?_ hlt
        exact (ih (by omega) (by omega)).bind fun _ s₂ _ _ => halts_pure _ s₂
      · refine (usesBelow_suffixed hsub s hs).bind fun base s₁ _ hlt => .eat nofun (fun s₂ hlt₂ => ?_)
          fun _ => .pure hlt
        exact (ih (by omega) (by omega)).bind fun _ s₃ _ hlt₃ => .pure (by omega)

theorem usesBelow_factor : UsesBelow (n + 1) (factor sub) :=
  fun _ hs => uses_factorUpTo hsub hs (Nat.lt_succ_self _)

theorem usesBelow_term : UsesBelow (n + 1) (term sub) :=
  usesBelow_leftGrouped rfl (usesBelow_factor hsub)

theorem usesBelow_additive : UsesBelow (n + 1) (additive sub) :=
  usesBelow_leftGrouped rfl (usesBelow_term hsub)

theorem usesBelow_shift : UsesBelow (n + 1) (shift sub) :=
  usesBelow_leftGrouped rfl (usesBelow_additive hsub)

theorem usesBelow_bitAnd : UsesBelow (n + 1) (bitAnd sub) :=
  usesBelow_leftGrouped rfl (usesBelow_shift hsub)

theorem usesBelow_bitXor : UsesBelow (n + 1) (bitXor sub) :=
  usesBelow_leftGrouped rfl (usesBelow_bitAnd hsub)

theorem usesBelow_bitOr : UsesBelow (n + 1) (bitOr sub) :=
  usesBelow_leftGrouped rfl (usesBelow_bitXor hsub)

theorem gainsBelow_compareStep : GainsBelow (n + 1) (compareStep sub) := by
  intro acc s hs
  unfold compareStep
  refine .kind (.second ?_)
  split
  · exact .out trivial
  · rename_i op both hop
    have hne : s.peek.kind ≠ .eof := by
      intro heq
      rw [heq] at hop
      cases hop
    have hright : ∀ s' : ParseState, s'.rest.length < s.rest.length → HaltsAt (do
        let right ← bitOr sub
        return (.inl ((op, right) :: acc) : List (CompareOp × Expr) ⊕ List (CompareOp × Expr))) s'
        (Gains s (fun _ _ => True) fun _ _ => True) :=
      fun s' hlt' => (usesBelow_bitOr hsub s' (by omega)).bind fun _ s₂ _ hlt₂ => .again (by omega) trivial
    exact .advance hne fun s₁ hlt => .ite (fun _ => .step fun s₂ hle => hright s₂ (by omega)) fun _ => hright s₁ hlt

theorem usesBelow_comparison : UsesBelow (n + 1) (comparison sub) := by
  intro s hs
  refine (usesBelow_bitOr hsub s hs).bind fun left s₁ _ hlt => Halts.shorter ?_ hlt
  refine ((gainsBelow_compareStep hsub).loop [] s₁ (by omega)).bind fun rest s₂ _ => ?_
  split
  · exact halts_pure _ s₂
  · exact halts_pure _ s₂

theorem uses_negationUpTo {bound : Nat} {s : ParseState} (hs : s.rest.length < n + 1)
    (hbound : s.rest.length < bound) : Uses (negationUpTo sub bound) s := by
  induction bound generalizing s with
  | zero => exact absurd hbound (Nat.not_lt_zero _)
  | succ bound ih =>
      unfold negationUpTo
      refine .check (.ite (fun hnot => ?_) fun _ => usesBelow_comparison hsub s hs)
      refine .advance (by rw [beq_iff_eq.1 hnot]; exact nofun) fun s₁ hlt => Halts.shorter ?_ hlt
      exact (ih (by omega) (by omega)).bind fun _ s₂ _ _ => halts_pure _ s₂

theorem usesBelow_negation : UsesBelow (n + 1) (negation sub) :=
  fun _ hs => uses_negationUpTo hsub hs (Nat.lt_succ_self _)

theorem usesBelow_conjunction : UsesBelow (n + 1) (conjunction sub) :=
  usesBelow_leftGrouped rfl (usesBelow_negation hsub)

theorem usesBelow_disjunction : UsesBelow (n + 1) (disjunction sub) :=
  usesBelow_leftGrouped rfl (usesBelow_conjunction hsub)

theorem usesBelow_ternary : UsesBelow (n + 1) (ternary sub) := by
  intro s hs
  unfold ternary
  refine (usesBelow_disjunction hsub s hs).bind fun body s₁ _ hlt => .eat nofun (fun s₂ hlt₂ => ?_) fun _ => .pure hlt
  refine Halts.shorter ?_ (Nat.lt_trans hlt₂ hlt)
  refine (usesBelow_disjunction hsub s₂ (by omega)).bind fun test s₃ _ hlt₃ => .expect nofun fun _ s₄ hlt₄ => ?_
  exact (hsub .full s₄ (by omega)).bind fun _ s₅ _ _ => halts_pure _ s₅

theorem uses_lambda {s : ParseState} (hne : s.peek.kind ≠ .eof) (hs : s.rest.length ≤ n) : Uses (lambda sub) s := by
  unfold lambda
  refine .advance hne fun s₁ hlt => Halts.shorter ?_ hlt
  refine (haltsBelow_params hsub _ s₁ (by omega)).bind fun ps s₂ honward => ?_
  have hle := honward.length_le
  refine .expect nofun fun _ s₃ hlt₃ => (hsub .full s₃ (by omega)).bind fun _ s₄ _ _ => halts_pure _ s₄

omit hsub

/-- Counting the open expressions costs nothing and is undone. -/
theorem usesBelow_nested {p : Parser Expr} (h : UsesBelow n p) : UsesBelow n (nested p) := by
  intro s hs heof
  have hopen := h { s with depth := s.depth + 1 } hs heof
  by_cases hdepth : s.depth < maxNesting
  · rw [nested, if_pos hdepth]
    cases hp : p { s with depth := s.depth + 1 } with
    | done e s' =>
        rw [hp] at hopen
        obtain ⟨⟨hrest, heof', hdepth', hfaults⟩, hlt⟩ := hopen
        exact ⟨⟨hrest, heof', by rw [hdepth']; rfl, hfaults⟩, hlt⟩
    | failed s' =>
        rw [hp] at hopen
        obtain ⟨hrest, heof', hdepth', hfaults⟩ := hopen
        exact ⟨hrest, heof', by rw [hdepth']; rfl, hfaults⟩
    | exhausted => rwa [hp] at hopen
  · have hfail : Uses (fail .nestingTooDeep : Parser Expr) s := haltsAt_fail _
    rw [nested, if_neg hdepth]
    exact hfail heof

include hsub

theorem usesBelow_full : UsesBelow (n + 1) (full sub) := by
  refine usesBelow_nested fun s hs => .check (.ite (fun hword => ?_) fun _ => usesBelow_ternary hsub s hs)
  exact uses_lambda hsub (by rw [beq_iff_eq.1 hword]; exact nofun) (Nat.le_of_lt_succ hs)

end

/-- Below a bound on the tokens ahead the recursion never gets to its end. -/
theorem usesBelow_parseAt (bound : Nat) (level : Level) : UsesBelow bound (parseAt bound level) := by
  induction bound generalizing level with
  | zero => exact fun s hs => absurd hs (Nat.not_lt_zero _)
  | succ bound ih =>
      cases level with
      | full => exact usesBelow_full ih
      | disjunction => exact usesBelow_disjunction ih
      | bitwise => exact usesBelow_bitOr ih

/-- An expression is read with a token for it, or there is a fault. -/
theorem uses_expressionAt (level : Level) (s : ParseState) : Uses (expressionAt level) s :=
  usesBelow_parseAt _ level s (Nat.lt_succ_self _)

/-! ## simple statements -/

/-- An expression, or a tuple without brackets, that stands in a statement. -/
theorem uses_expressionList (s : ParseState) : Uses (expressionList expressionAt) s :=
  usesBelow_expressionList (fun level s _ => uses_expressionAt level s) s (Nat.lt_succ_self _)

theorem uses_targetList (s : ParseState) : Uses (targetList expressionAt) s :=
  usesBelow_targetList (fun level s _ => uses_expressionAt level s) s (Nat.lt_succ_self _)

theorem halts_params (stop : TokenKind) (s : ParseState) : Halts (params expressionAt stop) s :=
  haltsBelow_params (fun level s _ => uses_expressionAt level s) stop s (Nat.lt_succ_self _)

theorem gainsBelow_valueStep (n : Nat) : GainsBelow n valueStep := by
  intro acc s _
  refine .eat nofun (fun s₁ hlt => ?_) fun _ => .out trivial
  exact (uses_expressionList s₁).bind fun _ s₂ _ hlt₂ => .again (by omega) trivial

theorem halts_assignedValues (s : ParseState) : Halts assignedValues s :=
  (gainsBelow_valueStep _).loop [] s (Nat.lt_succ_self _)

theorem uses_assignment (start : Span) (s : ParseState) : Uses (assignment start) s := by
  unfold assignment
  refine (uses_expressionList s).bind fun first s₁ _ hlt => Halts.shorter ?_ hlt
  refine (halts_assignedValues s₁).bind fun values s₂ _ => ?_
  split
  · exact .last (halts_pure _ s₂)
  · refine .kind ?_
    split
    · refine .step fun s₃ _ => (uses_expressionList s₃).bind fun _ s₄ _ _ => .last (halts_pure _ s₄)
    · exact .last (halts_pure _ s₂)

theorem gainsBelow_targetStep (n : Nat) : GainsBelow n targetStep := by
  intro acc s _
  refine .eat nofun (fun s₁ hlt => ?_) fun _ => .out trivial
  exact (uses_expressionAt .bitwise s₁).bind fun _ s₂ _ hlt₂ => .again (by omega) trivial

theorem halts_deleteTargets (s : ParseState) : Halts deleteTargets s := by
  refine (uses_expressionAt .bitwise s).bind fun first s₁ _ _ => Halts.bind ?_ fun _ s₂ _ => halts_pure _ s₂
  exact (gainsBelow_targetStep _).loop [] s₁ (Nat.lt_succ_self _)

theorem uses_simpleBody (s : ParseState) : Uses simpleBody s := by
  unfold simpleBody
  refine .here (.kind ?_)
  split
  · rename_i hkind
    exact .advance (hkind ▸ nofun) fun s₁ hlt => .last (.pure hlt)
  · rename_i hkind
    refine .advance (hkind ▸ nofun) fun s₁ hlt => Halts.shorter (.kind (.ite (fun _ => .last (halts_pure _ s₁)) ?_)) hlt
    exact fun _ => (uses_expressionList s₁).bind fun _ s₂ _ _ => .last (halts_pure _ s₂)
  · rename_i hkind
    refine .advance (hkind ▸ nofun) fun s₁ hlt => Halts.shorter ?_ hlt
    exact (halts_deleteTargets s₁).bind fun _ s₂ _ => .last (halts_pure _ s₂)
  · exact uses_assignment _ s

theorem uses_simple (s : ParseState) : Uses simple s := by
  unfold simple
  refine (uses_simpleBody s).bind fun stmt s₁ _ hlt => Halts.shorter ?_ hlt
  exact (halts_lineEnd s₁).bind fun _ s₂ _ => halts_pure _ s₂

/-! ## skipping -/

/-- A token of the line is used up, and the loop ends where the line does. -/
theorem haltsAt_skipLineStep (span : Span) (s : ParseState) : HaltsAt (skipLineStep span) s
    (Gains s (fun _ _ => True) fun _ s' => s' = s ∧ endsLine s.peek.kind = true) := by
  refine .kind (.ite (fun hends => .out ⟨rfl, hends⟩) fun hgoes => ?_)
  refine .advance ?_ fun s₁ hlt => .again hlt trivial
  intro heq
  rw [heq] at hgoes
  exact hgoes rfl

/-- The rest of a line is used up if the next token is part of it. -/
theorem haltsAt_skipLine (s : ParseState) :
    HaltsAt skipLine s fun _ s' => endsLine s.peek.kind = false → s'.rest.length < s.rest.length := by
  refine .here (.loop (fun _ s' => s' = s ∨ s'.rest.length < s.rest.length) (.inl rfl)
    fun span s₁ honward hs₁ => (haltsAt_skipLineStep span s₁).mono fun r s₂ _ hr => ?_)
  cases r with
  | inl span' => exact ⟨hr.1, .inr (Nat.lt_of_lt_of_le hr.1 honward.length_le)⟩
  | inr found =>
      obtain ⟨rfl, hends⟩ := hr
      intro hgoes
      refine hs₁.resolve_left ?_
      rintro rfl
      rw [hgoes] at hends
      cases hends

/-- A token of the block is used up, unless the source is at its end. -/
theorem haltsAt_skipStep (depth : Nat) (s : ParseState) : HaltsAt (skipStep depth) s
    (Gains s (fun _ _ => True) fun _ s' => s.peek.kind ≠ .eof → s'.rest.length < s.rest.length) := by
  unfold skipStep
  refine (haltsAt_advance s).bind fun t s₁ _ ht => ?_
  obtain ⟨rfl, hlt⟩ := ht
  split
  · rename_i hkind
    exact .again (hlt (by simp [hkind])) trivial
  · rename_i hkind
    exact .ite (fun _ => .out hlt) fun _ => .again (hlt (by simp [hkind])) trivial
  · exact .out hlt
  · rename_i hne
    exact .again (hlt hne) trivial

/-- A block is skipped with a token for it, unless the source is at its end. -/
theorem haltsAt_skipIndented (s : ParseState) :
    HaltsAt skipIndented s fun _ s' => s.peek.kind ≠ .eof → s'.rest.length < s.rest.length := by
  refine .loop (fun _ s' => s' = s ∨ s'.rest.length < s.rest.length) (.inl rfl)
    fun depth s₁ honward hs₁ => (haltsAt_skipStep depth s₁).mono fun r s₂ honward₂ hr => ?_
  have hle := honward.length_le
  have hle₂ := honward₂.length_le
  cases r with
  | inl depth' => exact ⟨hr.1, .inr (Nat.lt_of_lt_of_le hr.1 hle)⟩
  | inr found =>
      intro hne
      obtain rfl | hlt := hs₁
      · exact hr hne
      · omega

/-- A line is skipped with a token for it, unless the block around it or the source is at its end. -/
theorem haltsAt_skipClause (s : ParseState) : HaltsAt skipClause s fun _ s' =>
    s.peek.kind ≠ .dedent → s.peek.kind ≠ .eof → s'.rest.length < s.rest.length := by
  unfold skipClause
  refine (haltsAt_skipLine s).bind fun span s₁ honward hline => ?_
  have hblock : ∀ s' : ParseState, Halts (do
      if ← check .indent then skipIndented
      return span) s' :=
    fun s' => .check (.ite (fun _ => (haltsAt_skipIndented s').bind fun _ s₂ _ _ => halts_pure _ s₂)
      fun _ => halts_pure _ s')
  refine (haltsAt_eat (k := .newline) nofun s₁).bind fun found s₂ honward₂ hfound => ?_
  refine (hblock s₂).mono fun _ s₃ honward₃ _ hdedent heof => Nat.lt_of_le_of_lt honward₃.length_le ?_
  have hle := honward.length_le
  have hle₂ := honward₂.length_le
  by_cases hmoved : s₁.rest.length < s.rest.length
  · omega
  · have hpeek := honward.peek_eq (Nat.le_of_not_lt hmoved)
    cases found with
    | true => exact Nat.lt_of_lt_of_le (hfound.1 rfl) hle
    | false =>
        refine absurd (hline ?_) hmoved
        have hnewline : s.peek.kind ≠ .newline := hpeek ▸ (hfound.2 rfl).2
        cases hkind : s.peek.kind with
        | newline => exact absurd hkind hnewline
        | dedent => exact absurd hkind hdedent
        | eof => exact absurd hkind heof
        | _ => rfl

/-! ## statements -/

theorem gainsBelow_tryStep (n : Nat) : GainsBelow n fun _ => tryStep := by
  intro _ s _
  refine .kind (.ite (fun hcontinues => ?_) fun _ => .out trivial)
  refine (haltsAt_skipClause s).bind fun _ s₁ _ hlt => .again (hlt ?_ ?_) trivial
  · exact fun heq => by rw [heq] at hcontinues; cases hcontinues
  · exact fun heq => by rw [heq] at hcontinues; cases hcontinues

/-- A refused statement uses up its word. -/
theorem uses_refused {s : ParseState} (stmt : RefusedStmt) (hdedent : s.peek.kind ≠ .dedent)
    (heof : s.peek.kind ≠ .eof) : Uses (refused stmt) s := by
  have hrest : ∀ (start stop : Span) (s' : ParseState), Halts (do
      if stmt == .try_ then loop (fun _ => tryStep) ()
      return Stmt.refused (start.merge stop) stmt) s' := by
    intro start stop s'
    refine .ite (fun _ => Halts.bind ?_ fun _ s₁ _ => halts_pure _ s₁) fun _ => halts_pure _ s'
    exact (gainsBelow_tryStep _).loop () s' (Nat.lt_succ_self _)
  unfold refused
  refine .here ((haltsAt_skipClause s).bind fun stop s₁ _ hlt => Halts.shorter ?_ (hlt hdedent heof))
  exact hrest _ stop s₁

theorem haltsAt_attempt {p : Parser α} {s : ParseState} {post : α → ParseState → Prop} (h : HaltsAt p s post) :
    HaltsAt (attempt p) s fun a? s' => ∀ a ∈ a?, post a s' := by
  intro heof
  have hp := h heof
  unfold attempt
  cases hp' : p s with
  | done a s' =>
      rw [hp'] at hp
      exact ⟨hp.1, by rintro _ ⟨⟩; exact hp.2⟩
  | failed s' =>
      rw [hp'] at hp
      exact ⟨hp, nofun⟩
  | exhausted => rwa [hp'] at hp

section

variable {stmt : Parser Stmt} (hstmt : UsesBelow n stmt)

include hstmt

/-- A statement is used up or skipped. -/
theorem uses_recovered {s : ParseState} (hs : s.rest.length < n) (hdedent : s.peek.kind ≠ .dedent)
    (heof : s.peek.kind ≠ .eof) : Uses (recovered stmt) s := by
  unfold recovered
  refine (haltsAt_attempt (hstmt s hs)).bind fun found s₁ honward hfound => ?_
  cases found with
  | some stmt => exact .pure (hfound stmt rfl)
  | none =>
      have hle := honward.length_le
      have hskips : HaltsAt synchronize s₁ fun _ s' =>
          s₁.peek.kind ≠ .dedent → s₁.peek.kind ≠ .eof → s'.rest.length < s₁.rest.length :=
        (haltsAt_skipClause s₁).bind fun _ _ _ hlt => .pure hlt
      refine hskips.bind fun _ s₂ honward₂ hlt => .pure ?_
      have hle₂ := honward₂.length_le
      by_cases hmoved : s₁.rest.length < s.rest.length
      · omega
      · have hpeek := honward.peek_eq (Nat.le_of_not_lt hmoved)
        exact Nat.lt_of_lt_of_le (hlt (hpeek ▸ hdedent) (hpeek ▸ heof)) hle

/-- A statement is used up or skipped, and the loop goes on. -/
theorem haltsAt_statementStep {s : ParseState} (hs : s.rest.length < n) (hdedent : s.peek.kind ≠ .dedent)
    (heof : s.peek.kind ≠ .eof) (acc : List Stmt) :
    HaltsAt (statementStep stmt acc) s (Gains s (fun _ _ => True) fun _ _ => True) := by
  refine (uses_recovered hstmt hs hdedent heof).bind fun found s₁ _ hlt => ?_
  cases found with
  | some stmt => exact .again hlt trivial
  | none => exact .again hlt trivial

theorem gainsBelow_blockStep : GainsBelow n (blockStep stmt) := by
  intro acc s hs
  refine .check (.check (.tooManyFaults (.ite (fun _ => .out trivial) fun hgoes => ?_)))
  have hkinds : s.peek.kind ≠ .dedent ∧ s.peek.kind ≠ .eof := by
    simp only [Bool.or_eq_true, beq_iff_eq, not_or] at hgoes
    exact hgoes.1
  exact haltsAt_statementStep hstmt hs hkinds.1 hkinds.2 acc

theorem haltsBelow_indentedBlock : HaltsBelow n (indentedBlock stmt) := by
  intro s hs
  refine Halts.bind ?_ fun _ s₁ _ => .eat nofun (fun s₂ _ => halts_pure _ s₂) fun _ => halts_pure _ s₁
  exact (gainsBelow_blockStep hstmt).loop [] s hs

theorem haltsBelow_block : HaltsBelow (n + 1) (block stmt) := by
  intro s hs
  unfold block
  refine .expect nofun fun _ s₁ hlt => .eat nofun (fun s₂ hlt₂ => ?_) fun _ => ?_
  · refine .eat nofun (fun s₃ hlt₃ => ?_) fun _ => haltsAt_fail _
    exact haltsBelow_indentedBlock hstmt s₃ (by omega)
  · exact (uses_simple s₁).bind fun _ s₂ _ _ => halts_pure _ s₂

theorem usesBelow_function (decorators : List Expr) : UsesBelow (n + 1) (function stmt decorators) := by
  intro s hs
  have hbody : ∀ (start : Span) (name : Ident) (ps : List Param) (s' : ParseState), s'.rest.length < n + 1 →
      Halts (do
        let body ← block stmt
        return Stmt.function (.mk (start.merge (← last)) name ps decorators body)) s' :=
    fun start name ps s' hs' => (haltsBelow_block hstmt s' hs').bind fun _ s₁ _ => .last (halts_pure _ s₁)
  unfold function
  refine .here (.step fun s₁ hle => .identifier fun name s₂ hlt => Halts.shorter ?_ (by omega))
  refine .expect nofun fun _ s₃ hlt₃ => (halts_params _ s₃).bind fun ps s₄ honward => .expect nofun fun _ s₅ hlt₅ => ?_
  have hle₄ := honward.length_le
  refine .eat nofun (fun s₆ hlt₆ => ?_) fun _ => hbody _ _ _ s₅ (by omega)
  exact (uses_expressionAt .full s₆).bind fun _ s₇ _ hlt₇ => hbody _ _ _ s₇ (by omega)

omit hstmt in
theorem halts_bases (s : ParseState) : Halts bases s := by
  unfold bases
  refine .eat nofun (fun s₁ _ => ?_) fun _ => halts_pure _ s
  have hbases : Halts (separated (.symbol .rightParen) expression) s₁ :=
    haltsBelow_separated (fun s _ => uses_expressionAt .full s) s₁ (Nat.lt_succ_self _)
  exact hbases.bind fun _ s₂ _ => .expect nofun fun _ s₃ _ => halts_pure _ s₃

theorem usesBelow_classDef (decorators : List Expr) : UsesBelow (n + 1) (classDef stmt decorators) := by
  intro s hs
  unfold classDef
  refine .here (.step fun s₁ hle => .identifier fun name s₂ hlt => Halts.shorter ?_ (by omega))
  refine (halts_bases s₂).bind fun _ s₃ honward => ?_
  have hle₃ := honward.length_le
  exact (haltsBelow_block hstmt s₃ (by omega)).bind fun _ s₄ _ => .last (halts_pure _ s₄)

omit hstmt in
theorem gainsBelow_decoratorStep (n : Nat) : GainsBelow n decoratorStep := by
  intro acc s _
  refine .eat nofun (fun s₁ hlt => ?_) fun _ => .out trivial
  refine (uses_expressionAt .full s₁).bind fun _ s₂ _ hlt₂ => (halts_lineEnd s₂).bind fun _ s₃ honward => ?_
  have hle := honward.length_le
  exact .again (by omega) trivial

theorem usesBelow_decorated : UsesBelow (n + 1) (decorated stmt) := by
  intro s hs
  refine Halts.bind ?_ fun _ s₁ honward => ?_
  · exact (gainsBelow_decoratorStep _).loop [] s (Nat.lt_succ_self _)
  · have hle := honward.length_le
    have hshorter : ∀ {p : Parser Stmt}, UsesBelow (n + 1) p →
        HaltsAt p s₁ fun _ s' => s'.rest.length < s.rest.length :=
      fun hp => (hp s₁ (by omega)).mono fun _ _ _ hlt => Nat.lt_of_lt_of_le hlt hle
    refine .kind ?_
    split
    · exact hshorter (usesBelow_function hstmt _)
    · exact hshorter (usesBelow_classDef hstmt _)
    · exact haltsAt_fail _

theorem uses_ifChainUpTo {bound : Nat} {s : ParseState} (hs : s.rest.length < n + 1) (hbound : s.rest.length < bound) :
    Uses (ifChainUpTo stmt bound) s := by
  induction bound generalizing s with
  | zero => exact absurd hbound (Nat.not_lt_zero _)
  | succ bound ih =>
      unfold ifChainUpTo
      refine .here (.step fun s₁ hle => (uses_expressionAt .full s₁).bind fun _ s₂ _ hlt => Halts.shorter ?_ (by omega))
      refine (haltsBelow_block hstmt s₂ (by omega)).bind fun _ s₃ honward => .kind ?_
      have hle₃ := honward.length_le
      split
      · exact (ih (by omega) (by omega)).bind fun _ s₄ _ _ => .last (halts_pure _ s₄)
      · refine .step fun s₄ hle₄ => (haltsBelow_block hstmt s₄ (by omega)).bind fun _ s₅ _ => .last (halts_pure _ s₅)
      · exact .last (halts_pure _ s₃)

theorem haltsBelow_loopElse : HaltsBelow (n + 1) (loopElse stmt) := by
  intro s hs
  unfold loopElse
  refine .eat nofun (fun s₁ hlt => ?_) fun _ => halts_pure _ s
  exact (haltsBelow_block hstmt s₁ (by omega)).bind fun _ s₂ _ => halts_pure _ s₂

theorem usesBelow_forLoop : UsesBelow (n + 1) (forLoop stmt) := by
  intro s hs
  unfold forLoop
  refine .here (.step fun s₁ hle => (uses_targetList s₁).bind fun _ s₂ _ hlt => Halts.shorter ?_ (by omega))
  refine .expect nofun fun _ s₃ hlt₃ => (uses_expressionList s₃).bind fun _ s₄ _ hlt₄ => ?_
  refine (haltsBelow_block hstmt s₄ (by omega)).bind fun _ s₅ honward => ?_
  have hle₅ := honward.length_le
  exact (haltsBelow_loopElse hstmt s₅ (by omega)).bind fun _ s₆ _ => .last (halts_pure _ s₆)

theorem usesBelow_whileLoop : UsesBelow (n + 1) (whileLoop stmt) := by
  intro s hs
  unfold whileLoop
  refine .here (.step fun s₁ hle => (uses_expressionAt .full s₁).bind fun _ s₂ _ hlt => Halts.shorter ?_ (by omega))
  refine (haltsBelow_block hstmt s₂ (by omega)).bind fun _ s₃ honward => ?_
  have hle₃ := honward.length_le
  exact (haltsBelow_loopElse hstmt s₃ (by omega)).bind fun _ s₄ _ => .last (halts_pure _ s₄)

theorem usesBelow_statementWith : UsesBelow (n + 1) (statementWith stmt) := by
  intro s hs
  unfold statementWith
  refine .kind ?_
  split
  · exact usesBelow_function hstmt _ s hs
  · exact usesBelow_classDef hstmt _ s hs
  · exact usesBelow_decorated hstmt s hs
  · exact (uses_ifChainUpTo hstmt hs (Nat.lt_succ_self _)).bind fun _ s₁ _ hlt => .pure hlt
  · exact usesBelow_forLoop hstmt s hs
  · exact usesBelow_whileLoop hstmt s hs
  · rename_i hkind
    split
    · exact uses_refused _ (hkind ▸ nofun) (hkind ▸ nofun)
    · exact .ite (fun _ => uses_simple s) fun _ => haltsAt_fail _
  · exact uses_simple s

end

theorem usesBelow_statementUpTo (bound : Nat) : UsesBelow bound (statementUpTo bound) := by
  induction bound with
  | zero => exact fun s hs => absurd hs (Nat.not_lt_zero _)
  | succ bound ih => exact usesBelow_statementWith ih

theorem uses_statement (s : ParseState) : Uses statement s :=
  usesBelow_statementUpTo _ s (Nat.lt_succ_self _)

theorem gainsBelow_moduleStep (n : Nat) : GainsBelow n moduleStep := by
  intro acc s hs
  unfold moduleStep
  refine .check (.tooManyFaults (.ite (fun _ => .out trivial) fun hgoes => .kind ?_))
  have heof : s.peek.kind ≠ .eof := by
    simp only [Bool.or_eq_true, beq_iff_eq, not_or] at hgoes
    exact hgoes.1
  split
  · exact .advance heof fun s₁ hlt => .again hlt trivial
  · have hreport : HaltsAt (report .unexpectedIndent) s fun _ s' =>
        s'.peek.kind ≠ .eof ∧ s'.rest.length = s.rest.length :=
      haltsAt_of_done rfl (s.onward_note _ _) ⟨heof, rfl⟩
    refine hreport.bind fun _ s₁ _ hs₁ => (haltsAt_skipIndented s₁).bind fun _ s₂ _ hlt => ?_
    exact .again (hs₁.2 ▸ hlt hs₁.1) trivial
  · exact .advance heof fun s₁ hlt => .again hlt trivial
  · rename_i hdedent
    exact haltsAt_statementStep (fun s _ => uses_statement s) hs hdedent heof acc

theorem halts_module (s : ParseState) : Halts module_ s := by
  refine .here (Halts.bind ?_ fun _ s₁ _ => .last (halts_pure _ s₁))
  exact (gainsBelow_moduleStep _).loop [] s (Nat.lt_succ_self _)

/-- Parsing is never cut off: the bounds of its loops and of its recursion are not reached. -/
theorem module_ne_exhausted (tokens : List Token) : module_ (.start tokens) ≠ .exhausted :=
  HaltsAt.ne_exhausted (halts_module (.start tokens)) rfl

end ViewSync.Parser
