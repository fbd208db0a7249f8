import ViewSync.Proofs.Parser.Rules

/-!
# ViewSync.Proofs.Parser.Levels

The rows of the table of precedence, as the parsers that read them. `Reads sub level w e` says that the parser of a row
reads `e` from the phrase `w` where the token behind it does not go on with that row. A row reads what a tighter row
reads, if it does not start with an operator of the looser row.
-/

namespace ViewSync.Parser

/-- The operators of a row that groups to the left. -/
def opAt : Nat → TokenKind → Option BinaryOp
  | 2 => termOp
  | 3 => additiveOp
  | 4 => shiftOp
  | 5 => bitAndOp
  | 6 => bitXorOp
  | 7 => bitOrOp
  | 10 => andOp
  | 11 => orOp
  | _ => fun _ => none

/-- The parser of a row; the rows of signs and of `not` recur at most `bound` times. -/
def rule (sub : Sub) : Nat → Nat → Parser Expr
  | 0, _ => suffixed sub
  | 1, bound => factorUpTo sub bound
  | 2, _ => term sub
  | 3, _ => additive sub
  | 4, _ => shift sub
  | 5, _ => bitAnd sub
  | 6, _ => bitXor sub
  | 7, _ => bitOr sub
  | 8, _ => comparison sub
  | 9, bound => negationUpTo sub bound
  | 10, _ => conjunction sub
  | 11, _ => disjunction sub
  | 12, _ => ternary sub
  | _, _ => do if ← check (.keyword .lambda) then lambda sub else ternary sub

/-- The parser of a row reads a tree from a phrase. -/
def Reads (sub : Sub) (level : Nat) (w : Phrase) (e : Expr) : Prop :=
  ∀ bound, w.length ≤ bound → Takes (rule sub level (bound + 1)) w (Ends level) (Same e)

variable {sub : Sub} {level : Nat} {w : Phrase} {e : Expr}

theorem Reads.bounded (h : Reads sub level w e) : Takes (bounded (rule sub level)) w (Ends level) (Same e) :=
  .bounded h

/-! ## operators that group to the left -/

theorem opAt_token {op : BinaryOp} (h : op ≠ .pow) : opAt op.level op.token = some op := by
  cases op <;> first | rfl | exact absurd rfl h

theorem continues_of_opAt {k : TokenKind} {op : BinaryOp} (h : opAt level k = some op) : k.continues = level := by
  unfold opAt at h
  split at h
  · unfold termOp at h
    split at h <;> cases h <;> rfl
  · unfold additiveOp at h
    split at h <;> cases h <;> rfl
  · unfold shiftOp at h
    split at h <;> cases h <;> rfl
  · unfold bitAndOp at h
    split at h <;> cases h; rfl
  · unfold bitXorOp at h
    split at h <;> cases h; rfl
  · unfold bitOrOp at h
    split at h <;> cases h; rfl
  · unfold andOp at h
    split at h <;> cases h; rfl
  · unfold orOp at h
    split at h <;> cases h; rfl
  · cases h

theorem opAt_of_ends {k : TokenKind} (h : Ends level k) : opAt level k = none := by
  cases hop : opAt level k with
  | none => rfl
  | some op => exact absurd (continues_of_opAt hop) (Nat.ne_of_gt h)

/-- The parser of a row that groups to the left reads a tree up to the operators behind it. -/
def ReadsLeft (sub : Sub) (level : Nat) (w : Phrase) (e : Expr) : Prop :=
  Arrives (leftGrouped (opAt level) (bounded (rule sub (level - 1))))
    (leftStep (opAt level) (bounded (rule sub (level - 1)))) w (Ends (level - 1)) (Same e)

theorem rule_binary {op : BinaryOp} (h : op ≠ .pow) (bound : Nat) :
    rule sub op.level bound = leftGrouped (opAt op.level) (bounded (rule sub (op.level - 1))) := by
  cases op <;> first | rfl | exact absurd rfl h

theorem Reads.left (h : Reads sub (level - 1) w e) : ReadsLeft sub level w e :=
  h.bounded.arrives

theorem ReadsLeft.reads (op : BinaryOp) (hop : op ≠ .pow) (h : ReadsLeft sub op.level w e) :
    Reads sub op.level w e := by
  intro bound _
  rw [rule_binary hop]
  refine Arrives.stop h (fun v hv => .kind_nil fun next hnext => ?_) fun k hk => Nat.lt_of_le_of_lt (Nat.sub_le _ 1) hk
  rw [opAt_of_ends hnext]
  exact .pure ⟨v, rfl, hv⟩

theorem printed_binary {span : Span} {left right : Expr} {op : BinaryOp} (h : op ≠ .pow) :
    (Expr.binary span left op right).printed =
      left.printedAt op.level ++ (.token op.token ++ right.printedAt (op.level - 1)) := by
  cases op <;> first | rfl | exact absurd rfl h

theorem ReadsLeft.binary {left right : Expr} {op : BinaryOp} (hop : op ≠ .pow)
    (hleft : ReadsLeft sub op.level (left.printedAt op.level) left)
    (hright : Reads sub (op.level - 1) (right.printedAt (op.level - 1)) right) (span : Span) :
    ReadsLeft sub op.level (Expr.binary span left op right).printed (.binary span left op right) := by
  have hlevel : op.level - 1 < op.token.continues := by cases op <;> decide
  rw [printed_binary hop]
  refine Arrives.round hleft (fun l hl => .kind_head rfl ?_) nofun fun _ _ => hlevel
  simp only [opAt_token hop]
  exact .advance fun _ => hright.bounded.map fun r hr => ⟨_, rfl, hl.binary hr⟩

/-! ## signs and powers -/

theorem signOp_token {op : UnaryOp} (h : op ≠ .not) : signOp op.token = some op := by
  cases op <;> first | rfl | exact absurd rfl h

theorem signOp_of_opening {k : TokenKind} (h : k.opening ≤ 0) : signOp k = none := by
  unfold signOp
  split
  · exact absurd h (by decide)
  · exact absurd h (by decide)
  · exact absurd h (by decide)
  · rfl

theorem Reads.sign {operand : Expr} {op : UnaryOp} (hop : op ≠ .not) (h : Reads sub 1 (operand.printedAt 1) operand)
    (span : Span) : Reads sub 1 (Expr.unary span op operand).printed (.unary span op operand) := by
  have hprinted : (Expr.unary span op operand).printed = .token op.token ++ operand.printedAt 1 := by
    cases op <;> first | rfl | exact absurd rfl hop
  rw [hprinted]
  intro bound hbound
  obtain ⟨inner, rfl⟩ : ∃ inner, bound = inner + 1 := ⟨bound - 1, by simp at hbound; omega⟩
  have hlength : (operand.printedAt 1).length ≤ inner := by simp at hbound; omega
  show Takes (factorUpTo sub (inner + 1 + 1)) _ _ _
  unfold factorUpTo
  refine .kind_head rfl ?_
  simp only [signOp_token hop]
  exact .advance fun _ => (h inner hlength).map fun v hv => hv.unary

theorem Reads.pow {left right : Expr} (hleft : Reads sub 0 (left.printedAt 0) left)
    (hopens : (left.printedAt 0).Opens 0) (hright : Reads sub 1 (right.printedAt 1) right) (span : Span) :
    Reads sub 1 (Expr.binary span left .pow right).printed (.binary span left .pow right) := by
  show Reads sub 1 (left.printedAt 0 ++ (.token (.symbol .doubleStar) ++ right.printedAt 1)) _
  obtain ⟨k, rest, hkinds, hk, -⟩ := hopens
  intro bound hbound
  simp at hbound
  obtain ⟨inner, rfl⟩ : ∃ inner, bound = inner + 1 := ⟨bound - 1, by omega⟩
  have hlength : (right.printedAt 1).length ≤ inner := by omega
  show Takes (factorUpTo sub (inner + 1 + 1)) _ _ _
  unfold factorUpTo
  refine .kind_head (k := k) (by rw [Phrase.kinds_append, hkinds]; rfl) ?_
  simp only [signOp_of_opening hk]
  refine (hleft _ (Nat.le_refl _)).bind (fun l hl => .eat ?_) fun _ _ => (by decide : 0 < 1)
  exact (hright inner hlength).map fun r hr => hl.binary hr

/-! ## comparisons -/

theorem compareOp?_of_ends {k second : TokenKind} (h : Ends 8 k) : compareOp? k second = none := by
  unfold compareOp?
  split <;> first | rfl | exact absurd h (by decide)

theorem takes_compareStep {op : CompareOp} (h : Reads sub 7 (e.printedAt 7) e) (hopens : (e.printedAt 7).Opens 7)
    (acc : List (CompareOp × Expr)) : Takes (compareStep sub acc) (op.printed ++ e.printedAt 7) (Ends 7)
      fun r => ∃ e', r = .inl ((op, e') :: acc) ∧ Same e e' := by
  have hoperand : Takes (bitOr sub) (e.printedAt 7) (Ends 7) (Same e) := h _ (Nat.le_refl _)
  have hright : Takes (do let right ← bitOr sub; return .inl ((op, right) :: acc)) (e.printedAt 7) (Ends 7)
      fun r : List (CompareOp × Expr) ⊕ List (CompareOp × Expr) => ∃ e', r = .inl ((op, e') :: acc) ∧ Same e e' :=
    hoperand.map fun e' he' => ⟨e', rfl, he'⟩
  unfold compareStep
  cases op with
  | eq => exact .kind_head rfl (.second fun _ _ => .advance fun _ => hright)
  | notEq => exact .kind_head rfl (.second fun _ _ => .advance fun _ => hright)
  | less => exact .kind_head rfl (.second fun _ _ => .advance fun _ => hright)
  | greater => exact .kind_head rfl (.second fun _ _ => .advance fun _ => hright)
  | lessEq => exact .kind_head rfl (.second fun _ _ => .advance fun _ => hright)
  | greaterEq => exact .kind_head rfl (.second fun _ _ => .advance fun _ => hright)
  | isIn => exact .kind_head rfl (.second fun _ _ => .advance fun _ => hright)
  | notIn =>
      refine .kind_head rfl (.second fun found hfound => ?_)
      cases hfound
      rw [CompareOp.printed, Phrase.append_assoc]
      exact .advance fun _ => .advance fun _ => hright
  | is =>
      obtain ⟨k, rest, hkinds, hk, -⟩ := hopens
      refine .kind_head rfl (.second fun found hfound => ?_)
      have hfound' : found = k := by
        unfold SecondOf at hfound
        rwa [Phrase.kinds_append, hkinds] at hfound
      have hnot : found ≠ .keyword .not := by
        rintro rfl
        rw [← hfound'] at hk
        exact absurd hk (by decide)
      simp only [compareOp?, beq_eq_false_iff_ne.2 hnot]
      exact .advance fun _ => hright
  | isNot =>
      refine .kind_head rfl (.second fun found hfound => ?_)
      cases hfound
      rw [CompareOp.printed, Phrase.append_assoc]
      exact .advance fun _ => .advance fun _ => hright

/-- The comparisons of a chain, one a round. -/
theorem rounds_compare (rest : List (CompareOp × Expr)) (hrest : ∀ operand ∈ rest,
      Reads sub 7 (operand.2.printedAt 7) operand.2 ∧ (operand.2.printedAt 7).Opens 7) (acc : List (CompareOp × Expr)) :
    Rounds (compareStep sub) acc (Expr.printedOperands rest) (Ends 8) fun found : List (CompareOp × Expr) =>
      Expr.spanlessOperands found = Expr.spanlessOperands acc.reverse ++ Expr.spanlessOperands rest := by
  simp only [Expr.spanlessOperands_eq]
  induction rest generalizing acc with
  | nil =>
      refine .last (.kind_nil fun next hnext => .second fun found _ => ?_)
      simp only [compareOp?_of_ends hnext]
      exact .pure ⟨acc.reverse, rfl, by simp⟩
  | cons operand rest ih =>
      obtain ⟨op, e⟩ := operand
      obtain ⟨htakes, hopens⟩ := hrest (op, e) (List.mem_cons_self ..)
      have hprinted : Expr.printedOperands ((op, e) :: rest) =
          (op.printed ++ e.printedAt 7) ++ Expr.printedOperands rest := by
        rw [Phrase.append_assoc]
        rfl
      have hround := (@takes_compareStep sub e op htakes hopens acc).mono (fun _ h => h) fun r hr =>
        show ∃ acc', r = .inl acc' ∧ ∃ e', acc' = (op, e') :: acc ∧ Same e e' by
          obtain ⟨e', rfl, he'⟩ := hr
          exact ⟨_, rfl, e', rfl, he'⟩
      rw [hprinted]
      refine .next hround (by cases op <;> exact nofun) ?_ fun k hk => ?_
      · rintro acc' ⟨e', rfl, he'⟩
        have hrest' := ih (fun operand h => hrest operand (List.mem_cons_of_mem _ h)) ((op, e') :: acc)
        rw [List.reverse_cons, List.map_append, List.append_assoc] at hrest'
        rw [List.map_cons, ← he'.eq]
        exact hrest'
      · cases rest with
        | nil => exact Nat.lt_of_succ_lt hk
        | cons operand' => obtain ⟨op', e'⟩ := operand'; cases op' <;> exact Nat.lt_succ_self 7

theorem comparison_eq : comparison sub = (do
    let left ← bitOr sub
    let rest ← loop (compareStep sub) []
    match rest.getLast? with
    | none => return left
    | some (_, right) => return .compare (left.span.merge right.span) left rest) := rfl

theorem Reads.compare {left : Expr} {operand : CompareOp × Expr} {rest : List (CompareOp × Expr)}
    (hleft : Reads sub 7 (left.printedAt 7) left) (hrest : ∀ o ∈ operand :: rest,
      Reads sub 7 (o.2.printedAt 7) o.2 ∧ (o.2.printedAt 7).Opens 7) (span : Span) :
    Reads sub 8 (Expr.compare span left (operand :: rest)).printed (.compare span left (operand :: rest)) := by
  intro bound _
  show Takes (comparison sub) (left.printedAt 7 ++ Expr.printedOperands (operand :: rest)) _ _
  rw [comparison_eq]
  refine (hleft _ (Nat.le_refl _)).bind (fun l hl => ?_) fun k _ => ?_
  · refine (Takes.loop (rounds_compare (operand :: rest) hrest [])).bind_end (fun found hfound => ?_) fun _ h => h
    cases hlast : found.getLast? with
    | none =>
        rw [List.getLast?_eq_none_iff.1 hlast] at hfound
        cases hfound
    | some right => exact .pure (hl.compare hfound)
  · obtain ⟨op, e⟩ := operand
    cases op <;> exact Nat.lt_succ_self 7

/-! ## negations -/

theorem Reads.negation {operand : Expr} (h : Reads sub 9 (operand.printedAt 9) operand) (span : Span) :
    Reads sub 9 (Expr.unary span .not operand).printed (.unary span .not operand) := by
  show Reads sub 9 (.token (.keyword .not) ++ operand.printedAt 9) _
  intro bound hbound
  obtain ⟨inner, rfl⟩ : ∃ inner, bound = inner + 1 := ⟨bound - 1, by simp at hbound; omega⟩
  have hlength : (operand.printedAt 9).length ≤ inner := by simp at hbound; omega
  show Takes (negationUpTo sub (inner + 1 + 1)) _ _ _
  unfold negationUpTo
  exact .check_eq (fun _ _ => rfl) (.advance fun _ => (h inner hlength).map fun v hv => hv.unary)

/-! ## conditionals and functions -/

/-- No token goes on with a `lambda`. -/
theorem ends_ternary {k : TokenKind} (h : Ends 12 k) : Ends 13 k := by
  have hne : k.continues ≠ 13 := by
    unfold TokenKind.continues
    split <;> decide
  exact Nat.lt_of_le_of_ne h hne.symm

theorem Reads.ternary {test body orelse : Expr} (hbody : Reads sub 11 (body.printedAt 11) body)
    (htest : Reads sub 11 (test.printedAt 11) test) (horelse : ReadsFull sub orelse) (span : Span) :
    Reads sub 12 (Expr.ternary span test body orelse).printed (.ternary span test body orelse) := by
  intro bound _
  show Takes (Parser.ternary sub) (body.printedAt 11 ++ (.token (.keyword .if_) ++
    (test.printedAt 11 ++ (.token (.keyword .else_) ++ orelse.printedFull)))) _ _
  unfold Parser.ternary
  refine (hbody _ (Nat.le_refl _)).bind (fun b hb => .eat ?_) fun _ _ => (by decide : 11 < 12)
  refine (htest _ (Nat.le_refl _)).bind (fun t ht => .expect fun _ => ?_) fun _ _ => (by decide : 11 < 15)
  exact (horelse.takes.weaken fun k hk => ends_ternary hk).map fun o ho => ht.ternary hb ho

theorem Reads.lambda {ps : List Param} {body : Expr} (hps : ∀ p ∈ ps, ∀ e ∈ p.default?, ReadsFull sub e)
    (hbody : ReadsFull sub body) (span : Span) :
    Reads sub 13 (Expr.lambda span ps body).printed (.lambda span ps body) := by
  have hparams : Takes (params sub (.symbol .colon)) (.listed (ps.map Param.printed)) (· = .symbol .colon)
      fun qs : List Param => qs.map Param.spanless = ps.map Param.spanless := by
    refine takes_separated (by decide) (fun p hp => takes_param (hps p hp)) fun p _ => ?_
    obtain ⟨id, default, span⟩ := p
    cases default <;> exact ⟨_, _, rfl, nofun, nofun⟩
  intro bound _
  rw [Expr.printed_lambda]
  show Takes (do if ← check (.keyword .lambda) then Parser.lambda sub else Parser.ternary sub) _ _ _
  unfold Parser.lambda
  refine .check_eq (fun _ _ => rfl) (.advance fun _ => ?_)
  exact hparams.bind (fun qs hqs => .expect fun _ => hbody.takes.map fun b hb => .lambda hqs hb) fun _ _ => rfl

/-! ## from row to row -/

theorem Reads.toFactor (h : Reads sub 0 w e) (hopens : w.Opens 0) : Reads sub 1 w e := by
  obtain ⟨k, rest, hkinds, hk, -⟩ := hopens
  intro bound hbound
  show Takes (factorUpTo sub (bound + 1)) _ _ _
  unfold factorUpTo
  refine .kind_head (k := k) (by rw [hkinds, List.head?_cons]) ?_
  simp only [signOp_of_opening hk]
  refine (h _ hbound).bind_end (fun v hv => .eat_ne (fun next hnext => ?_) (.pure hv)) fun k hk => Nat.lt_of_succ_lt hk
  rintro rfl
  exact absurd hnext (by decide)

theorem Reads.toComparison (h : Reads sub 7 w e) : Reads sub 8 w e := by
  intro bound hbound
  show Takes (comparison sub) w _ _
  rw [comparison_eq]
  refine (h _ hbound).bind_end (fun v hv => ?_) fun k hk => Nat.lt_of_succ_lt hk
  refine (Takes.loop (rounds_compare [] nofun [])).bind_end (fun found hfound => ?_) fun _ h => h
  cases found with
  | nil => exact .pure hv
  | cons => cases hfound

theorem Reads.toNegation (h : Reads sub 8 w e) (hopens : w.Opens 8) : Reads sub 9 w e := by
  intro bound hbound
  show Takes (negationUpTo sub (bound + 1)) _ _ _
  unfold negationUpTo
  refine .check_ne (fun next _ => hopens.headD_ne (by decide) next) ?_
  exact (h _ hbound).weaken fun k hk => Nat.lt_of_succ_lt hk

theorem Reads.toTernary (h : Reads sub 11 w e) : Reads sub 12 w e := by
  intro bound hbound
  show Takes (Parser.ternary sub) w _ _
  unfold Parser.ternary
  refine (h _ hbound).bind_end (fun v hv => .eat_ne (fun next hnext => ?_) (.pure hv)) fun k hk => Nat.lt_of_succ_lt hk
  rintro rfl
  exact absurd hnext (by decide)

theorem Reads.toFull (h : Reads sub 12 w e) (hopens : w.Opens 12) : Reads sub 13 w e := by
  intro bound hbound
  refine .check_ne (fun next _ => hopens.headD_ne (by decide) next) ?_
  exact (h _ hbound).weaken fun k hk => Nat.lt_of_succ_lt hk

/-- A row that groups to the left reads what its operands may be. -/
theorem Reads.toLeft {op : BinaryOp} (hop : op ≠ .pow) (h : Reads sub (op.level - 1) w e) : Reads sub op.level w e :=
  ReadsLeft.reads op hop h.left

/-- A row reads what the row above it reads. -/
theorem Reads.succ (h : Reads sub level w e) (hopens : w.Opens level) (hlevel : level < 13) :
    Reads sub (level + 1) w e := by
  have hleft : ∀ op : BinaryOp, op ≠ .pow → op.level = level + 1 → Reads sub (level + 1) w e := by
    rintro op hop heq
    have hlevel' : op.level - 1 = level := by rw [heq, Nat.add_sub_cancel]
    rw [← heq]
    rw [← hlevel'] at h
    exact h.toLeft hop
  have hcases : level = 0 ∨ level = 1 ∨ level = 2 ∨ level = 3 ∨ level = 4 ∨ level = 5 ∨ level = 6 ∨ level = 7 ∨
      level = 8 ∨ level = 9 ∨ level = 10 ∨ level = 11 ∨ level = 12 := by omega
  rcases hcases with rfl | rfl | rfl | rfl | rfl | rfl | rfl | rfl | rfl | rfl | rfl | rfl | rfl
  · exact h.toFactor hopens
  · exact hleft .mul nofun rfl
  · exact hleft .add nofun rfl
  · exact hleft .shiftLeft nofun rfl
  · exact hleft .bitAnd nofun rfl
  · exact hleft .bitXor nofun rfl
  · exact hleft .bitOr nofun rfl
  · exact h.toComparison
  · exact h.toNegation hopens
  · exact hleft .and nofun rfl
  · exact hleft .or nofun rfl
  · exact h.toTernary
  · exact h.toFull hopens

/-- A row reads what a tighter row reads. -/
theorem Reads.mono {looser : Nat} (h : Reads sub level w e) (hopens : w.Opens level) (hle : level ≤ looser)
    (hlooser : looser ≤ 13) : Reads sub looser w e := by
  induction hle with
  | refl => exact h
  | step hle ih => exact (ih (Nat.le_of_succ_le hlooser)).succ (hopens.mono hle) hlooser

/-! ## what is carried through a tree -/

/-- The parser of a row reads a tree; where the row is a loop, up to what goes on with it as well. -/
structure ReadsAt (sub : Sub) (level : Nat) (w : Phrase) (e : Expr) : Prop where
  reads : Reads sub level w e
  suffixed : level = 0 → ReadsSuffixed sub w e
  left : ∀ op : BinaryOp, op ≠ .pow → op.level = level → ReadsLeft sub level w e

theorem ReadsSuffixed.readsAt (h : ReadsSuffixed sub w e) : ReadsAt sub 0 w e where
  reads _ _ := h.takes
  suffixed _ := h
  left op _ hlevel := by cases op <;> cases hlevel

theorem ReadsLeft.readsAt {op : BinaryOp} (hop : op ≠ .pow) (h : ReadsLeft sub op.level w e) :
    ReadsAt sub op.level w e where
  reads := h.reads op hop
  suffixed hlevel := by cases op <;> cases hlevel
  left _ _ _ := h

/-- A row without a loop. -/
theorem Reads.readsAt (h : Reads sub level w e) (hlevel : level ∈ [1, 8, 9, 12, 13]) : ReadsAt sub level w e where
  reads := h
  suffixed hzero := by subst hzero; simp at hlevel
  left op hop heq := by subst heq; cases op <;> first | exact absurd rfl hop | simp [BinaryOp.level] at hlevel

theorem ReadsAt.mono {looser : Nat} (h : ReadsAt sub level w e) (hopens : w.Opens level) (hle : level ≤ looser)
    (hlooser : looser ≤ 13) : ReadsAt sub looser w e := by
  rcases Nat.eq_or_lt_of_le hle with rfl | hlt
  · exact h
  · refine ⟨h.reads.mono hopens hle hlooser, fun hzero => by omega, fun _ _ _ => ?_⟩
    exact (h.reads.mono hopens (Nat.le_sub_one_of_lt hlt) (by omega)).left

end ViewSync.Parser
