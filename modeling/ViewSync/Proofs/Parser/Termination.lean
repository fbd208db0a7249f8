import ViewSync.Proofs.Parser.Unbounded

/-!
# ViewSync.Proofs.Parser.Termination

Parsing makes progress, whatever the tokens are. A round of any loop of the grammar (`IsRound`) uses up a token or ends
the loop. So a loop is a round and the same loop again, a rule is what the grammar makes of the rules inside, and the
statements of a source are read to an end: no bound is ever reached, and nothing fails as a whole
(`parsing_progresses`).
-/

namespace ViewSync.Parser

open ParseState

variable {α β : Type}

/-! ## rounds -/

/-- The binary operators that group to the left, with the parsers of their operands. -/
def leftRows (sub : Sub) : List ((TokenKind → Option BinaryOp) × Parser Expr) :=
  [(termOp, factor sub), (additiveOp, term sub), (shiftOp, additive sub), (bitAndOp, shift sub), (bitXorOp, bitAnd sub),
    (bitOrOp, bitXor sub), (andOp, negation sub), (orOp, conjunction sub)]

/-- The rounds of the loops of the grammar. -/
inductive IsRound : ∀ {α β : Type}, (α → Parser (α ⊕ β)) → Prop where
  /-- The statements of a source, also those that fail and are skipped. -/
  | source : IsRound moduleStep
  /-- The statements of a block. -/
  | block : IsRound (blockStep statement)
  | arguments : IsRound (separatedStep (.symbol .rightParen) (arg expressionAt))
  | elements : IsRound (separatedStep (.symbol .rightBracket) expression)
  | entries : IsRound (separatedStep (.symbol .rightBrace) (entry expressionAt))
  | parameters (stop : TokenKind) : IsRound (separatedStep stop (param expressionAt stop))
  | bases : IsRound (separatedStep (.symbol .rightParen) expression)
  /-- The items of a tuple behind the first one. -/
  | items (stop : TokenKind → Bool) (level : Level) : IsRound (moreItemsStep stop (expressionAt level))
  | operators {op? : TokenKind → Option BinaryOp} {operand : Parser Expr} :
      (op?, operand) ∈ leftRows expressionAt → IsRound (leftStep op? operand)
  | comparisons : IsRound (compareStep expressionAt)
  /-- Attributes, subscripts and calls. -/
  | suffixes : IsRound (suffixStep expressionAt)
  /-- The conditions of a comprehension. -/
  | conditions : IsRound (conditionStep expressionAt)
  | strings : IsRound stringsStep
  /-- A chain of assignments. -/
  | values : IsRound valueStep
  /-- The targets of a `del`. -/
  | targets : IsRound targetStep
  | decorators : IsRound decoratorStep
  /-- The rest of a line that is skipped. -/
  | line : IsRound skipLineStep
  /-- A block that is skipped. -/
  | skipped : IsRound skipStep
  /-- The clauses of a `try` that is skipped. -/
  | clauses : IsRound fun _ => tryStep

/-- A round goes on with fewer tokens ahead, or it ends its loop with a value or a failure. -/
def UsesOrEnds (s : ParseState) : Outcome (α ⊕ β) → Prop
  | .done (.inl _) s' => s'.rest.length < s.rest.length
  | .done (.inr _) s' => s'.rest.length ≤ s.rest.length
  | .failed s' => s'.rest.length ≤ s.rest.length
  | .exhausted => False

/-- Rounds that go on use up tokens. -/
def Advances (step : α → Parser (α ⊕ β)) : Prop :=
  ∀ n, GainsBelow n step

theorem usesBelow_expressionAt (n : Nat) (level : Level) : UsesBelow n (expressionAt level) :=
  fun s _ => uses_expressionAt level s

/-- Of the parsers of a row no more is asked than that inner expressions use up tokens. -/
theorem gainsBelow_leftRows {n : Nat} {op? : TokenKind → Option BinaryOp} {operand : Parser Expr}
    (h : (op?, operand) ∈ leftRows expressionAt) : GainsBelow (n + 1) (leftStep op? operand) := by
  have hsub := usesBelow_expressionAt n
  simp only [leftRows, List.mem_cons, Prod.mk.injEq, List.not_mem_nil, or_false] at h
  obtain ⟨rfl, rfl⟩ | ⟨rfl, rfl⟩ | ⟨rfl, rfl⟩ | ⟨rfl, rfl⟩ | ⟨rfl, rfl⟩ | ⟨rfl, rfl⟩ | ⟨rfl, rfl⟩ | ⟨rfl, rfl⟩ := h
  · exact gainsBelow_leftStep rfl (usesBelow_factor hsub)
  · exact gainsBelow_leftStep rfl (usesBelow_term hsub)
  · exact gainsBelow_leftStep rfl (usesBelow_additive hsub)
  · exact gainsBelow_leftStep rfl (usesBelow_shift hsub)
  · exact gainsBelow_leftStep rfl (usesBelow_bitAnd hsub)
  · exact gainsBelow_leftStep rfl (usesBelow_bitXor hsub)
  · exact gainsBelow_leftStep rfl (usesBelow_negation hsub)
  · exact gainsBelow_leftStep rfl (usesBelow_conjunction hsub)

theorem Gains.weaken {s s' : ParseState} {post : β → ParseState → Prop} {r : α ⊕ β}
    (h : Gains s (fun _ _ => True) post r s') : Gains s (fun _ _ => True) (fun _ _ => True) r s' := by
  cases r with
  | inl a => exact h
  | inr b => trivial

theorem IsRound.advances {step : α → Parser (α ⊕ β)} (h : IsRound step) : Advances step := by
  intro n
  have hsub := usesBelow_expressionAt n
  cases h with
  | source => exact gainsBelow_moduleStep n
  | block => exact gainsBelow_blockStep fun s _ => uses_statement s
  | arguments => exact gainsBelow_separatedStep (usesBelow_arg hsub)
  | elements => exact gainsBelow_separatedStep (hsub .full)
  | entries => exact gainsBelow_separatedStep (usesBelow_entry hsub)
  | parameters stop => exact gainsBelow_separatedStep (usesBelow_param hsub stop)
  | bases => exact gainsBelow_separatedStep (hsub .full)
  | items stop level => exact gainsBelow_moreItemsStep (hsub level)
  | operators h => exact fun a s hs => gainsBelow_leftRows h a s (Nat.lt_succ_of_lt hs)
  | comparisons => exact fun a s hs => gainsBelow_compareStep hsub a s (Nat.lt_succ_of_lt hs)
  | suffixes => exact fun a s hs => gainsBelow_suffixStep hsub a s (Nat.lt_succ_of_lt hs)
  | conditions => exact gainsBelow_conditionStep hsub
  | strings => exact fun a s _ => (haltsAt_stringsStep a s).mono fun _ _ _ => Gains.weaken
  | values => exact gainsBelow_valueStep n
  | targets => exact gainsBelow_targetStep n
  | decorators => exact gainsBelow_decoratorStep n
  | line => exact fun a s _ => (haltsAt_skipLineStep a s).mono fun _ _ _ => Gains.weaken
  | skipped => exact fun a s _ => (haltsAt_skipStep a s).mono fun _ _ _ => Gains.weaken
  | clauses => exact gainsBelow_tryStep n

theorem Advances.usesOrEnds {step : α → Parser (α ⊕ β)} (h : Advances step) {s : ParseState} (heof : s.eof.kind = .eof)
    (a : α) : UsesOrEnds s (step a s) := by
  have hround := h _ a s (Nat.lt_succ_self _) heof
  cases hend : step a s with
  | done r s' =>
      rw [hend] at hround
      cases r with
      | inl a' => exact hround.2.1
      | inr b => exact hround.1.length_le
  | failed s' =>
      rw [hend] at hround
      exact hround.length_le
  | exhausted => rwa [hend] at hround

/-! ## loops -/

/-- A loop goes on with a value, or ends with one. -/
def goOn (step : α → Parser (α ⊕ β)) : α ⊕ β → Parser β
  | .inl a => loop step a
  | .inr b => pure b

/-- No bound on the rounds is too large. -/
theorem loopUpTo_eq_loop {step : α → Parser (α ⊕ β)} (h : Advances step) {s : ParseState} (heof : s.eof.kind = .eof)
    {bound : Nat} (hbound : s.rest.length < bound) (a : α) : loopUpTo step bound a s = loop step a s := by
  suffices hany : ∀ {bound bound'} {s : ParseState} {a}, s.eof.kind = .eof → s.rest.length < bound →
      s.rest.length < bound' → loopUpTo step bound a s = loopUpTo step bound' a s from
    hany heof hbound (Nat.lt_succ_self _)
  intro bound
  induction bound with
  | zero => exact fun _ hbound => absurd hbound (Nat.not_lt_zero _)
  | succ bound ih =>
      intro bound' s a heof hbound hbound'
      obtain ⟨bound', rfl⟩ := Nat.exists_eq_succ_of_ne_zero (Nat.ne_of_gt (Nat.zero_lt_of_lt hbound'))
      have hround := h _ a s (Nat.lt_succ_self _) heof
      rw [loopUpTo_succ, loopUpTo_succ, bind_apply, bind_apply]
      cases hstep : step a s with
      | done r s' =>
          rw [hstep] at hround
          obtain ⟨honward, hgains⟩ := hround
          cases r with
          | inl a' =>
              have hlt : s'.rest.length < s.rest.length := hgains.1
              exact ih (honward.eof ▸ heof) (by omega) (by omega)
          | inr b => rfl
      | failed s' => rfl
      | exhausted => rfl

/-- A loop is a round and the loop again. -/
theorem loop_eq {step : α → Parser (α ⊕ β)} (h : Advances step) {s : ParseState} (heof : s.eof.kind = .eof) (a : α) :
    loop step a s = (step a >>= goOn step) s := by
  have hround := h _ a s (Nat.lt_succ_self _) heof
  rw [loop, loopUpTo_succ, bind_apply, bind_apply]
  cases hstep : step a s with
  | done r s' =>
      rw [hstep] at hround
      obtain ⟨honward, hgains⟩ := hround
      cases r with
      | inl a' => exact loopUpTo_eq_loop h (honward.eof ▸ heof) hgains.1 a'
      | inr b => rfl
  | failed s' => rfl
  | exhausted => rfl

/-! ## sources -/

/-- A parser that never fails. -/
def Steady (p : Parser α) : Prop :=
  ∀ s s', p s ≠ .failed s'

section

variable {p : Parser α}

theorem steady_of_done {g : ParseState → α} {next : ParseState → ParseState} (h : ∀ s, p s = .done (g s) (next s)) :
    Steady p := by
  intro s s'
  rw [h s]
  simp

theorem steady_pure (a : α) : Steady (pure a) :=
  steady_of_done fun _ => rfl

theorem steady_attempt (p : Parser α) : Steady (attempt p) := by
  intro s s'
  unfold attempt
  cases p s <;> simp

theorem Steady.bind {f : α → Parser β} (hp : Steady p) (hf : ∀ a, Steady (f a)) : Steady (p >>= f) := by
  intro s s'
  rw [bind_apply]
  cases hp' : p s with
  | done a t => exact hf a t s'
  | failed t => exact absurd hp' (hp s t)
  | exhausted => simp

theorem Steady.ite {q : Parser α} {c : Prop} [Decidable c] (hp : Steady p) (hq : Steady q) :
    Steady (if c then p else q) := by
  split
  · exact hp
  · exact hq

theorem Steady.loop {step : α → Parser (α ⊕ β)} (h : ∀ a, Steady (step a)) (a : α) : Steady (loop step a) := by
  have hrounds : ∀ bound a, Steady (loopUpTo step bound a) := by
    intro bound
    induction bound with
    | zero => exact fun a s s' => by simp [loopUpTo]
    | succ bound ih =>
        intro a s
        rw [loopUpTo_succ]
        refine (h a).bind (fun r => ?_) s
        cases r with
        | inl a' => exact ih a'
        | inr b => exact steady_pure b
  exact fun s => hrounds _ a s

end

theorem steady_eat (k : TokenKind) : Steady (eat k) := by
  intro s s'
  unfold eat
  split <;> simp

theorem steady_skipLine : Steady skipLine := by
  refine (steady_of_done fun _ => rfl).bind fun start => .loop (fun span => ?_) start
  refine (steady_of_done fun _ => rfl).bind fun k => .ite (steady_pure _) ?_
  exact (steady_of_done fun _ => rfl).bind fun t => steady_pure _

theorem steady_skipIndented : Steady skipIndented := by
  refine .loop (fun depth => (steady_of_done fun _ => rfl).bind fun t => ?_) 0
  split
  · exact steady_pure _
  · exact .ite (steady_pure _) (steady_pure _)
  · exact steady_pure _
  · exact steady_pure _

theorem steady_skipClause : Steady skipClause := by
  refine steady_skipLine.bind fun span => (steady_eat _).bind fun _ =>
    (steady_of_done fun _ => rfl).bind fun found => ?_
  exact .ite (steady_skipIndented.bind fun _ => steady_pure _) (steady_pure _)

/-- A statement that fails is skipped. -/
theorem steady_recovered (stmt : Parser Stmt) : Steady (recovered stmt) := by
  refine (steady_attempt stmt).bind fun found => ?_
  cases found with
  | some stmt => exact steady_pure _
  | none => exact (steady_skipClause.bind fun _ => steady_pure _).bind fun _ => steady_pure _

theorem steady_moduleStep (acc : List Stmt) : Steady (moduleStep acc) := by
  unfold moduleStep
  refine (steady_of_done fun _ => rfl).bind fun _ => (steady_of_done fun _ => rfl).bind fun _ => .ite (steady_pure _) ?_
  refine (steady_of_done fun _ => rfl).bind fun k => ?_
  split
  · exact (steady_of_done fun _ => rfl).bind fun _ => steady_pure _
  · exact (steady_of_done fun _ => rfl).bind fun _ => steady_skipIndented.bind fun _ => steady_pure _
  · exact (steady_of_done fun _ => rfl).bind fun _ => steady_pure _
  · refine (steady_recovered statement).bind fun found => ?_
    cases found with
    | some stmt => exact steady_pure _
    | none => exact steady_pure _

theorem steady_module : Steady module_ := by
  rw [module_eq_loop]
  refine (steady_of_done fun _ => rfl).bind fun start => (Steady.loop steady_moduleStep []).bind fun body => ?_
  exact (steady_of_done fun _ => rfl).bind fun _ => steady_pure _

/-- Any list of tokens is read to an end. -/
theorem exists_module (tokens : List Token) : ∃ m s, module_ (.start tokens) = .done m s := by
  cases hend : module_ (.start tokens) with
  | done m s => exact ⟨m, s, rfl⟩
  | failed s => exact absurd hend (steady_module _ s)
  | exhausted => exact absurd hend (module_ne_exhausted tokens)

/-- Parsing always makes progress. Any list of tokens is read to an end. A round of a loop uses up a token or ends the
loop, so a loop is a round and the loop again. And the rules of expressions and statements, which call each other, are
what they make of each other: no bound on the rounds of a loop or on the depth of the recursion plays a part. -/
theorem parsing_progresses :
    (∀ tokens : List Token, ∃ m s, module_ (.start tokens) = .done m s) ∧
    (∀ {α β : Type} (step : α → Parser (α ⊕ β)), IsRound step → ∀ (a : α) (s : ParseState), s.eof.kind = .eof →
      UsesOrEnds s (step a s) ∧ loop step a s = (step a >>= goOn step) s) ∧
    ∀ s : ParseState, s.eof.kind = .eof →
      statement s = statementWith statement s ∧ ∀ level, expressionAt level s = levelWith expressionAt level s := by
  refine ⟨exists_module, fun step hstep a s heof => ?_, fun s heof => ?_⟩
  · exact ⟨hstep.advances.usesOrEnds heof a, loop_eq hstep.advances heof a⟩
  · exact ⟨statement_eq heof, fun level => expressionAt_eq level heof⟩

/-- Tokens that no source is lexed to: the end stands in the middle, and no block is open that is closed. -/
theorem parsing_progresses_stray : ∃ s : ParseState,
    s = .start [⟨.dedent, .origin⟩, ⟨.indent, .origin⟩, ⟨.eof, .origin⟩, ⟨.symbol .rightParen, .origin⟩] ∧
      (∃ m s', module_ s = .done m s') ∧ s.eof.kind = .eof ∧ UsesOrEnds s (moduleStep [] s) ∧
        loop moduleStep [] s = (moduleStep [] >>= goOn moduleStep) s ∧ statement s = statementWith statement s := by
  refine ⟨_, rfl, parsing_progresses.1 _, rfl, ?_⟩
  obtain ⟨hround, hloop⟩ := parsing_progresses.2.1 moduleStep .source []
    (.start [⟨.dedent, .origin⟩, ⟨.indent, .origin⟩, ⟨.eof, .origin⟩, ⟨.symbol .rightParen, .origin⟩]) rfl
  exact ⟨hround, hloop, (parsing_progresses.2.2 _ rfl).1⟩

end ViewSync.Parser
