import ViewSync.Proofs.Parser.Unbounded

/-!
# ViewSync.Proofs.Parser.Budget

The room for nested expressions is given back. A rule leaves as many expressions open as there were, whether it gives a
value or fails. So no expression is open where a statement starts, however many statements have failed before: a parser
that starts to count anew with each statement, also inside of blocks, does the same (`room_given_back`).
-/

namespace ViewSync.Parser

open ParseState

variable {α β : Type}

/-- As many expressions are open behind a parser as in front of it. -/
def KeepsDepth (p : Parser α) : Prop :=
  ∀ s, match p s with
  | .done _ s' => s'.depth = s.depth
  | .failed s' => s'.depth = s.depth
  | .exhausted => True

theorem Onwards.keepsDepth {p : Parser α} (h : Onwards p) : KeepsDepth p := by
  intro s
  have honward := h s
  cases hp : p s with
  | done a s' =>
      rw [hp] at honward
      exact honward.depth
  | failed s' =>
      rw [hp] at honward
      exact honward.1.depth
  | exhausted => trivial

/-! ## counting anew -/

/-- A parser before which no expression is open. -/
def fresh (p : Parser α) : Parser α := fun s => p { s with depth := 0 }

/-- Statements that start to count anew, and so do those in their blocks. -/
def freshUpTo : Nat → Parser Stmt
  | 0 => fun _ => .exhausted
  | bound + 1 => fresh (statementWith (freshUpTo bound))

def freshStatement : Parser Stmt := bounded freshUpTo

/-- A round of a source, whatever a statement is. -/
def moduleStepWith (statement : Parser Stmt) (acc : List Stmt) : Parser (List Stmt ⊕ List Stmt) := do
  if (← atEnd) || (← tooManyFaults) then return .inr acc.reverse
  match ← kind with
  | .newline =>
    let _ ← advance
    return .inl acc
  | .indent =>
    report .unexpectedIndent
    skipIndented
    return .inl acc
  | .dedent =>
    let _ ← advance
    return .inl acc
  | _ => statementStep statement acc

/-- A source, whatever a statement is. -/
def moduleWith (statement : Parser Stmt) : Parser Module := do
  let start ← here
  let body ← loop (moduleStepWith statement) []
  return ⟨body, start.merge (← last)⟩

theorem moduleStep_eq_with : moduleStep = moduleStepWith statement := rfl

theorem module_eq_with : module_ = moduleWith statement := rfl

section

variable {P : Nat → Prop} {stmt stmt' : Parser Stmt}

theorem extends_moduleStepWith (h : Extends P stmt stmt') (acc : List Stmt) :
    Extends P (moduleStepWith stmt acc) (moduleStepWith stmt' acc) := by
  unfold moduleStepWith
  refine (onwards_check _).extend fun _ => onwards_tooManyFaults.extend fun _ => .ite (extends_pure _) ?_
  refine onwards_peek.1.extend fun k => ?_
  split
  · exact onwards_advance.extend fun _ => extends_pure _
  · exact (onwards_report _).extend fun _ => onwards_skipIndented.extend fun _ => extends_pure _
  · exact onwards_advance.extend fun _ => extends_pure _
  · exact extends_statementStep h acc

theorem extends_moduleWith (h : Extends P stmt stmt') : Extends P (moduleWith stmt) (moduleWith stmt') := by
  refine onwards_peek.2.2.1.extend fun start => .bind (.loop (extends_moduleStepWith h) []) fun body => ?_
  exact onwards_peek.2.2.2.extend fun _ => extends_pure _

/-- Where no expression is open nothing has to be reset. -/
theorem Extends.fresh {p q : Parser α} (h : Extends (· = 0) p q) : Extends (· = 0) p (fresh q) where
  onwards := h.onwards
  agrees s heof hs hne := by
    have hreset : { s with depth := 0 } = s := by rw [← hs]
    rw [Parser.fresh, hreset]
    exact h.agrees s heof hs hne

theorem extends_freshUpTo (bound : Nat) : Extends (· = 0) (statementUpTo bound) (freshUpTo bound) := by
  induction bound with
  | zero => exact extends_exhausted
  | succ bound ih => exact (extends_statementWith ih).fresh

theorem extends_freshStatement : Extends (· = 0) statement freshStatement :=
  .bounded extends_freshUpTo

end

/-! ## runs -/

theorem Comes.onward {step : α → Parser (α ⊕ β)} {a a' : α} {s s' : ParseState} (hstep : ∀ a, Onwards (step a))
    (h : Comes step a s a' s') : s.Onward s' := by
  induction h with
  | start => exact .refl s
  | round _ hround ih => exact ih.trans ((hstep _).of_done hround)

theorem onwards_statement : Onwards statement :=
  extends_freshStatement.onwards

theorem onwards_moduleStep (acc : List Stmt) : Onwards (moduleStep acc) := by
  rw [moduleStep_eq_with]
  exact (extends_moduleStepWith (P := fun _ => True) onwards_statement.extends acc).onwards

/-- The room for nested expressions is given back. Each call for an expression comes back with a value or a failure,
with as many expressions open as there were; so it is with the calls inside, which recur to a bound. At each statement
of a source no expression is open, as if it were the first one, and a parser that counts anew for each statement of a
source and of its blocks gives the same in the end. -/
theorem room_given_back :
    (∀ (level : Level) (s : ParseState), s.eof.kind = .eof →
      (∃ e s', expressionAt level s = .done e s' ∧ s'.depth = s.depth) ∨
        ∃ s', expressionAt level s = .failed s' ∧ s'.depth = s.depth) ∧
    (∀ (bound : Nat) (level : Level), KeepsDepth (parseAt bound level)) ∧
    (∀ (tokens : List Token) (acc : List Stmt) (s : ParseState), Comes moduleStep [] (.start tokens) acc s →
      statement s = fresh statement s) ∧
    ∀ tokens : List Token, module_ (.start tokens) = moduleWith freshStatement (.start tokens) := by
  refine ⟨fun level s heof => ?_, fun bound level => (extends_expressionAt bound level).onwards.keepsDepth,
    fun tokens acc s hcomes => ?_, fun tokens => ?_⟩
  · have hdepth := (onwards_expressionAt level).keepsDepth s
    cases hend : expressionAt level s with
    | done e s' =>
        rw [hend] at hdepth
        exact .inl ⟨e, s', rfl, hdepth⟩
    | failed s' =>
        rw [hend] at hdepth
        exact .inr ⟨s', rfl, hdepth⟩
    | exhausted => exact absurd hend (expressionAt_ne_exhausted level heof)
  · have hzero : s.depth = 0 := (hcomes.onward onwards_moduleStep).depth
    rw [fresh, ← hzero]
  · have hends := module_ne_exhausted tokens
    rw [module_eq_with] at hends ⊢
    exact ((extends_moduleWith extends_freshStatement).agrees (.start tokens) rfl rfl hends).symm

/-- Behind a statement that has failed inside of a bracket. -/
theorem room_given_back_failed : ∃ s : ParseState,
    Comes moduleStep [] (.start [⟨.symbol .leftParen, .origin⟩, ⟨.newline, .origin⟩]) [] s ∧ s.faults.length = 1 ∧
      s.eof.kind = .eof ∧ statement s = fresh statement s ∧
      ((∃ e s', expressionAt .full s = .done e s' ∧ s'.depth = s.depth) ∨
        ∃ s', expressionAt .full s = .failed s' ∧ s'.depth = s.depth) := by
  obtain ⟨s, hround, hfaults, heof⟩ : ∃ s : ParseState,
      moduleStep [] (.start [⟨.symbol .leftParen, .origin⟩, ⟨.newline, .origin⟩]) = .done (.inl []) s ∧
        s.faults.length = 1 ∧ s.eof.kind = .eof := ⟨_, rfl, rfl, rfl⟩
  have hcomes := Comes.round .start hround
  exact ⟨s, hcomes, hfaults, heof, room_given_back.2.2.1 _ _ s hcomes, room_given_back.1 .full s heof⟩

end ViewSync.Parser
