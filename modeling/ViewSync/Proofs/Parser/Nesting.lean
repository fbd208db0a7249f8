import ViewSync.Proofs.Parser.Built
import ViewSync.Proofs.Parser.Runs

/-!
# ViewSync.Proofs.Parser.Nesting

The tree of a parsed source nests, and no two of its targets have one span (`spans_of_parse`). A statement that is read
without a fault has trees that are a row over the tokens used up for it: its decorators, and its own node behind them.
-/

namespace ViewSync

namespace Parser

open SpanTree ParseState

variable {α β : Type}

/-- A fault has been noted. -/
def Faulty (_ : List Token) (s : ParseState) : Prop :=
  s.faults ≠ []

/-- Statements of which the trees are a row, if no fault has been noted. -/
def BlockBuilt (used : List Token) (body : Block) (s : ParseState) : Prop :=
  s.faults = [] → Carries used (blockTrees body)

section

variable {p : Parser α} {s s' : ParseState} {used : List Token} {post : List Token → α → Prop}
  {goal : List Token → β → ParseState → Prop} {trees : List SpanTree} {r : Role}

theorem RunsAt.bind_walks {f : α → Parser β} (hp : WalksAt p s post)
    (hf : ∀ a used s', s.Walks used s' → post used a →
      RunsAt (f a) s' (fun more b s'' => goal (used ++ more) b s'') Faulty) : RunsAt (p >>= f) s goal Faulty := by
  have hfirst : RunsAt p s (fun used a s' => s.Walks used s' ∧ post used a) Faulty := by
    refine (RunsAt.of_walks hp).mono (fun _ _ _ _ h => h) ?_
    rintro used _ - ⟨mid, cause, -, -, rfl⟩
    exact List.cons_ne_nil _ _
  exact hfirst.bind fun a used s' _ h => hf a used s' h.1 h.2

/-- A row over the tokens from one state to a later one, under a node from the span ahead of the first state to the
last one behind the second. -/
theorem carries_moved (hmoves : s.Moves used s') (hne : used ≠ []) (hworded : s.peek.kind.isLayout = false)
    (h : Carries used trees) : Carries used [.node r (s.peek.span.merge s'.last) trees] := by
  cases hused : used with
  | nil => exact absurd hused hne
  | cons t rest =>
      rw [hused] at hmoves h
      rw [hmoves.toReads.peek_of_cons] at hworded ⊢
      have hcons := worded_cons hworded rest
      obtain ⟨u, hlast⟩ := Option.ne_none_iff_exists'.1
        (mt List.getLast?_eq_none_iff.1 (List.cons_ne_nil t (worded rest)))
      have hend : s'.last = u.span := by rw [hmoves.last, hcons, hlast]; rfl
      rw [hend]
      exact h.spanned (by rw [hcons]; rfl) (by rw [hcons, hlast])

end

/-! ## simple and refused statements -/

section

variable {s : ParseState} {failed : List Token → ParseState → Prop}

theorem runsAt_lineEnd : RunsAt lineEnd s (fun _ _ _ => True) failed := by
  cases hkind : s.peek.kind with
  | newline =>
      obtain ⟨used, hmoves⟩ := s.moves_advance
      have hdone : lineEnd s = .done () s.advance := by simp only [lineEnd, hkind]
      exact .of_done hdone (fun _ => hmoves) trivial
  | dedent | eof =>
      have hdone : lineEnd s = .done () s := by simp only [lineEnd, hkind]
      exact .of_done hdone (fun _ => .refl s) trivial
  | _ =>
      have hdone : lineEnd s = .done () (s.note (.expectedLineEnd s.peek.kind) s.peek.span) := by
        simp only [lineEnd, hkind]
      exact .of_done hdone (fun _ => s.moves_note _ _) trivial

theorem runsAt_simple : RunsAt simple s (fun used stmt _ => StmtBuilt used stmt) Faulty :=
  .bind_walks (walks_simpleBody s) fun stmt used s' _ hstmt => runsAt_lineEnd.bind fun _ more _ _ _ =>
    .pure (hstmt.mono (by grind))

omit failed in
theorem ne_eof_of_worded {k : TokenKind} (h : k.isLayout = false) : k ≠ .eof := by
  rintro rfl
  cases h

omit failed in
theorem endsLine_of_worded {k : TokenKind} (h : k.isLayout = false) : endsLine k = false := by
  cases k <;> first | rfl | cases h

omit failed in
/-- On a line that has been started with a text the layout ahead starts with the end of the line. -/
theorem isLayout_of_line {s' : ParseState} {used : List Token} (hs : s.Sourced) (hreads : s.Reads used s')
    (hworded : s.peek.kind.isLayout = false) (hused : ∀ t ∈ used, t.kind.isLayout = false)
    (hends : endsLine s'.peek.kind = false) : s'.peek.kind.isLayout = false := by
  obtain rfl | ⟨front, t, rfl⟩ := used.eq_nil_or_concat
  · rwa [hreads.peek_eq]
  · rw [List.concat_eq_append] at hreads hused
    obtain hlayout | hnewline := hs.next hreads (hused t (by simp))
    · exact hlayout
    · rw [hnewline] at hends
      cases hends

/-- The rest of a line that starts with a text, and the span of the last token on it. -/
theorem runsAt_skipLine (hworded : s.peek.kind.isLayout = false) :
    RunsAt skipLine s (fun used span _ => Carries used [.leaf (s.peek.span.merge span)]) failed := by
  refine .intro fun hs => .here ((RunsAt.loop
    (fun used span s' => (∀ t ∈ used, t.kind.isLayout = false) ∧ (used ≠ [] → span = s'.last)) ⟨nofun, nofun⟩ ?_ :
    RunsAt _ s (fun used span s' => used ≠ [] ∧ span = s'.last) failed).mono ?_ fun _ _ _ h => h)
  · rintro span used s' hmoves ⟨hused, hspan⟩
    have hnext := isLayout_of_line hs hmoves.toReads hworded hused
    refine .kind (.ite (fun hends => .pure ?_) fun hends => ?_)
    · have hne : used ≠ [] := by
        rintro rfl
        rw [hmoves.toReads.peek_eq, endsLine_of_worded hworded] at hends
        cases hends
      simpa [RunsAt.Turn, hne] using hspan hne
    · have hlayout := hnext (by simpa using hends)
      refine .advance (ne_eof_of_worded hlayout) fun s'' hmoves' => .pure ⟨?_, fun _ => ?_⟩
      · exact List.forall_mem_append.2 ⟨hused, by simpa using hlayout⟩
      · rw [hmoves'.last, worded_cons hlayout]
        rfl
  · rintro used span s' hmoves ⟨hne, rfl⟩
    exact carries_moved hmoves hne hworded carries_nil

/-- A block that is skipped. -/
theorem runsAt_skipIndented : RunsAt skipIndented s (fun _ _ _ => True) failed := by
  refine RunsAt.loop (fun _ _ _ => True) trivial fun depth used s' _ _ => .advance_any fun _ s'' _ => ?_
  split
  · exact .pure trivial
  · exact .ite (fun _ => .pure trivial) fun _ => .pure trivial
  · exact .pure trivial
  · exact .pure trivial

/-- What is known of the rest of a line is known of it with the block that hangs on it. -/
theorem runsAt_skipClause {post : List Token → Span → Prop}
    (h : RunsAt skipLine s (fun used span _ => post used span) failed)
    (hmono : ∀ used more span, post used span → post (used ++ more) span) :
    RunsAt skipClause s (fun used span _ => post used span) failed := by
  refine h.bind fun span used s' _ hspan => .eat nofun (fun t s'' _ _ _ => ?_) fun _ => ?_
  all_goals
    refine .check (.ite (fun _ => runsAt_skipIndented.bind fun _ more _ _ _ => .pure ?_) fun _ => .pure ?_)
    · exact hmono _ _ _ hspan
    · exact hmono _ _ _ hspan

theorem runsAt_skipClause_any : RunsAt skipClause s (fun _ _ _ => True) failed := by
  have hline : RunsAt skipLine s (fun _ _ _ => True) failed := by
    refine .here (RunsAt.loop (fun _ _ _ => True) trivial fun span used s' _ _ =>
      .kind (.ite (fun _ => .pure trivial) ?_))
    exact fun hends => .advance (fun heof => by rw [heof] at hends; exact hends rfl) fun _ _ => .pure trivial
  exact runsAt_skipClause hline fun _ _ _ _ => trivial

theorem runsAt_refused (hworded : s.peek.kind.isLayout = false) (stmt : RefusedStmt) :
    RunsAt (refused stmt) s (fun used stmt _ => StmtBuilt used stmt) failed := by
  refine .here ((runsAt_skipClause (runsAt_skipLine hworded) fun _ _ _ h => h.mono (by grind)).bind
    fun span used s' _ hspan => .ite (fun _ => ?_) fun _ => .pure (hspan.mono (by grind)))
  refine RunsAt.bind (?_ : RunsAt _ s' (fun _ _ _ => True) _) fun _ more _ _ _ => .pure (hspan.mono (by grind))
  refine RunsAt.loop (fun _ _ _ => True) trivial fun _ used s' _ _ => .kind (.ite (fun _ => ?_) fun _ => .pure trivial)
  exact runsAt_skipClause_any.bind fun _ _ _ _ _ => .pure trivial

end

/-! ## blocks -/

/-- What is known of the tokens of a block, from what is known of those of each statement in it. Layout may follow. -/
structure Collects (built : List Token → Stmt → Prop) (held : List Token → Block → Prop) : Prop where
  nil : held [] []
  snoc {used more : List Token} {body : Block} {stmt : Stmt} : held used body → built more stmt →
    held (used ++ more) (body ++ [stmt])
  layout {used : List Token} {t : Token} {body : Block} : held used body → t.kind.isLayout = true →
    held (used ++ [t]) body

section

variable {statement : Parser Stmt} {built : List Token → Stmt → Prop} {held : List Token → Block → Prop}
  (hstatement : ∀ s, RunsAt statement s (fun used stmt s' => s'.faults = [] → built used stmt) Faulty)

include hstatement

theorem runsAt_recovered (s : ParseState) :
    RunsAt (recovered statement) s
      (fun used found s' => s'.faults = [] → ∃ stmt, found = some stmt ∧ built used stmt) Faulty := by
  refine (hstatement s).attempt.bind fun found used s' _ hfound => ?_
  cases found with
  | some stmt => exact .pure fun hclean => ⟨stmt, rfl, by simpa using hfound hclean⟩
  | none =>
      have hsynchronize : RunsAt synchronize s' (fun _ _ _ => True) Faulty :=
        runsAt_skipClause_any.bind fun _ _ _ _ _ => .pure trivial
      refine hsynchronize.bind fun _ more s'' hmoves _ => .pure fun hclean => ?_
      exact absurd (hmoves.clean hclean) hfound

variable (hheld : Collects built held)

include hheld

/-- One more statement of a block. -/
theorem runsAt_round {acc : List Stmt} {used : List Token} {s : ParseState}
    {done : List Token → Block → ParseState → Prop} (hacc : s.faults = [] → held used acc.reverse) :
    RunsAt (do
      match ← recovered statement with
      | some stmt => return .inl (stmt :: acc)
      | none => return .inl acc) s
      (fun more r s' => RunsAt.Turn (fun used (acc : List Stmt) s' => s'.faults = [] → held used acc.reverse) done
        (used ++ more) r s') Faulty := by
  refine (runsAt_recovered hstatement s).bind fun found more s' hmoves hfound => ?_
  cases found with
  | some stmt =>
      refine .pure fun hclean => ?_
      obtain ⟨_, ⟨⟩, hstmt⟩ := hfound hclean
      rw [List.reverse_cons, List.append_nil]
      exact hheld.snoc (hacc (hmoves.clean hclean)) hstmt
  | none => exact .pure fun hclean => by obtain ⟨_, ⟨⟩, -⟩ := hfound hclean

theorem runsAt_indentedBlock (s : ParseState) :
    RunsAt (indentedBlock statement) s (fun used body s' => s'.faults = [] → held used body) Faulty := by
  refine RunsAt.bind (?_ : RunsAt _ s (fun used body s' => s'.faults = [] → held used body) Faulty)
    fun body used s' _ hbody => ?_
  · refine RunsAt.loop (fun used acc s' => s'.faults = [] → held used acc.reverse) (fun _ => hheld.nil) ?_
    intro acc used s' _ hacc
    refine .check (.check (.tooManyFaults (.ite (fun _ => .pure (by simpa [RunsAt.Turn] using hacc)) fun _ => ?_)))
    exact runsAt_round hstatement hheld hacc
  · refine .eat (by decide) (fun t s'' ht _ hmoves => .pure fun hclean => ?_) fun _ => .pure fun hclean => ?_
    · exact hheld.layout (hbody (hmoves.clean hclean)) (ht ▸ rfl)
    · exact (List.append_nil used).symm ▸ hbody hclean

end

theorem collects_trees : Collects StmtBuilt fun used body => Carries used (blockTrees body) where
  nil := carries_nil
  snoc hbody hstmt := by
    rw [blockTrees_append, blockTrees_singleton]
    exact hbody.append hstmt
  layout hbody _ := hbody.mono (by grind)

section

variable {statement : Parser Stmt}
  (hstatement : ∀ s, RunsAt statement s (fun used stmt s' => s'.faults = [] → StmtBuilt used stmt) Faulty)

include hstatement

theorem runsAt_block (s : ParseState) : RunsAt (block statement) s BlockBuilt Faulty := by
  refine .bind_walks (walks_expect rfl s) fun _ u₁ s₁ _ _ => .eat nofun (fun t s₂ _ _ _ => ?_) fun _ => ?_
  · refine .eat nofun (fun u s₃ _ _ _ => ?_) fun _ => ?_
    · refine (runsAt_indentedBlock hstatement collects_trees s₃).mono (fun used body s' _ hbody hclean => ?_)
        fun _ _ _ h => h
      exact (hbody hclean).mono (by grind)
    · exact .of_failed rfl (s₂.moves_note _ _) (List.cons_ne_nil _ _)
  · refine runsAt_simple.bind fun stmt used s' _ hstmt => .pure fun _ => ?_
    rw [blockTrees_singleton]
    exact Carries.mono hstmt (by grind)

/-! ## compound statements -/

omit hstatement in
/-- A function or a class, behind its decorators. -/
theorem carries_definition {s s' : ParseState} {front head more : List Token} {decorators heads : List SpanTree}
    {body : Block} (hmoves : s.Moves (head ++ more) s') (hne : head ≠ []) (hworded : s.peek.kind.isLayout = false)
    (hfront : Carries front decorators) (hhead : Carries head heads) (hbody : Carries more (blockTrees body)) :
    Carries (front ++ (head ++ more))
      (decorators ++ [.node .other (s.peek.span.merge s'.last) (heads ++ blockTrees body)]) :=
  hfront.append (carries_moved hmoves (by simp [hne]) hworded (hhead.append hbody))

theorem runsAt_function {s : ParseState} (hworded : s.peek.kind.isLayout = false) (decorators : List Expr) :
    RunsAt (function statement decorators) s (fun used stmt s' => s'.faults = [] →
      ∀ front, Carries front (decorators.map Expr.tree) → Carries (front ++ used) stmt.trees) Faulty := by
  have hrest : ∀ {head : List Token} {s₁ : ParseState} {name : Ident} {ps : List Param}, s.Moves head s₁ → head ≠ [] →
      Carries head (name.tree :: ps.map Param.tree) → RunsAt (do
        let body ← block statement
        return Stmt.function (.mk (s.peek.span.merge (← last)) name ps decorators body)) s₁ (fun more stmt s' =>
          s'.faults = [] → ∀ front, Carries front (decorators.map Expr.tree) →
            Carries (front ++ (head ++ more)) stmt.trees) Faulty := by
    intro head s₁ name ps hmoves hne hhead
    refine (runsAt_block hstatement s₁).bind fun body more s₂ hmore hbody => .last (.pure fun hclean front hfront => ?_)
    have htrees := carries_definition (hmoves.trans hmore) hne hworded hfront hhead (hbody hclean)
    simpa [Stmt.trees, FunctionDef.trees] using htrees
  refine .here (.advance (ne_eof_of_worded hworded) fun s₁ h₁ => .bind_walks (walks_name s₁) fun name u₂ s₂ h₂ hname =>
    .bind_walks (walks_expect rfl s₂) fun _ u₃ s₃ h₃ _ => .bind_walks (walks_params walks_expressionAt _ s₃)
      fun ps u₄ s₄ h₄ hps => .bind_walks (walks_expect rfl s₄) fun _ u₅ s₅ h₅ _ => ?_)
  obtain ⟨t, rfl, hname⟩ := hname
  have hmoves := h₁.trans (h₂.trans (h₃.trans (h₄.trans h₅))).moves
  have hparams : Carries (u₃ ++ (u₄ ++ u₅)) (ps.map Param.tree) := hps.mono (by grind)
  have hhead : Carries ([s.peek] ++ ([t] ++ (u₃ ++ (u₄ ++ u₅)))) (name.tree :: ps.map Param.tree) :=
    (hname.append hparams).mono (List.sublist_append_right _ _)
  refine .eat (by decide) (fun u s₆ _ _ h₆ => .bind_walks (walks_expressionAt .full s₆) fun _ u₇ s₇ h₇ _ => ?_)
    fun _ => ?_
  · have hannotated := hrest (hmoves.trans (h₆.trans h₇.moves)) (by simp) (hhead.mono (List.sublist_append_left _ _))
    exact hannotated.mono (fun _ _ _ _ h => by simpa using h) fun _ _ _ h => h
  · exact (hrest hmoves (by simp) hhead).mono (fun _ _ _ _ h => by simpa using h) fun _ _ _ h => h

theorem runsAt_classDef {s : ParseState} (hworded : s.peek.kind.isLayout = false) (decorators : List Expr) :
    RunsAt (classDef statement decorators) s (fun used stmt s' => s'.faults = [] →
      ∀ front, Carries front (decorators.map Expr.tree) → Carries (front ++ used) stmt.trees) Faulty := by
  refine .here (.advance (ne_eof_of_worded hworded) fun s₁ h₁ => .bind_walks (walks_name s₁) fun name u₂ s₂ h₂ hname =>
    .bind_walks (walks_bases s₂) fun bs u₃ s₃ h₃ hbs => (runsAt_block hstatement s₃).bind fun body u₄ s₄ h₄ hbody =>
      .last (.pure fun hclean front hfront => ?_))
  obtain ⟨t, rfl, hname⟩ := hname
  have hmoves := (h₁.trans (h₂.trans h₃).moves).trans h₄
  have hhead : Carries ([t] ++ u₃) (name.tree :: bs.map Expr.tree) := hname.append hbs
  have htrees := carries_definition hmoves (by simp) hworded hfront (hhead.mono (by grind)) (hbody hclean)
  simpa [Stmt.trees, ClassDef.trees] using htrees

theorem runsAt_decorated (s : ParseState) :
    RunsAt (decorated statement) s (fun used stmt s' => s'.faults = [] → StmtBuilt used stmt) Faulty := by
  refine RunsAt.bind (?_ : RunsAt _ s (fun used es _ => Carries used (es.map Expr.tree)) Faulty)
    fun decorators used s' _ hdecorators => .kind ?_
  · refine RunsAt.loop (fun used acc _ => Carries used (acc.reverse.map Expr.tree)) carries_nil ?_
    intro acc used s' _ hacc
    refine .eat nofun (fun t s₁ _ _ _ => ?_) fun _ => .pure (by simpa [RunsAt.Turn] using hacc)
    refine .bind_walks (walks_expressionAt .full s₁) fun e u₁ s₂ _ he => runsAt_lineEnd.bind fun _ u₂ _ _ _ => .pure ?_
    have hmore : Carries (used ++ u₁) ((e :: acc).reverse.map Expr.tree) := by simpa using hacc.append he
    exact hmore.mono (by grind)
  · split
    · next hkind =>
        refine (runsAt_function hstatement (hkind ▸ rfl) decorators).mono (fun more stmt s'' _ h hclean => ?_)
          fun _ _ _ h => h
        exact h hclean used hdecorators
    · next hkind =>
        refine (runsAt_classDef hstatement (hkind ▸ rfl) decorators).mono (fun more stmt s'' _ h hclean => ?_)
          fun _ _ _ h => h
        exact h hclean used hdecorators
    · exact .of_failed rfl (s'.moves_note _ _) (List.cons_ne_nil _ _)

theorem runsAt_ifChainUpTo (bound : Nat) {s : ParseState} (hworded : s.peek.kind.isLayout = false) :
    RunsAt (ifChainUpTo statement bound) s
      (fun used chain s' => s'.faults = [] → Carries used [chain.tree]) Faulty := by
  induction bound generalizing s with
  | zero => exact fun _ => trivial
  | succ bound ih =>
      refine .here (.advance (ne_eof_of_worded hworded) fun s₁ h₁ => .bind_walks (walks_expressionAt .full s₁)
        fun condition u₂ s₂ h₂ hcondition => (runsAt_block hstatement s₂).bind fun body u₃ s₃ h₃ hbody => .kind ?_)
      have hmoves := (h₁.trans h₂.moves).trans h₃
      have hchain : ∀ (orelse : Else) {more : List Token} {s₄ : ParseState}, s₃.Moves more s₄ → s₄.faults = [] →
          Carries more orelse.trees → Carries (s.peek :: (u₂ ++ (u₃ ++ more)))
            [(IfChain.mk (s.peek.span.merge s₄.last) condition body orelse).tree] := by
        intro orelse more s₄ hmore hclean horelse
        have hrow : Carries (u₂ ++ (u₃ ++ more)) ([condition.tree] ++ (blockTrees body ++ orelse.trees)) :=
          Carries.append hcondition ((hbody (hmore.clean hclean)).append horelse)
        have hnode := carries_moved (r := .other) (hmoves.trans hmore) (by simp) hworded (hrow.mono (by grind))
        simpa [IfChain.tree] using hnode
      split
      · next hkind =>
          refine (ih (hkind ▸ rfl)).bind fun chain more s₄ hmore hnext =>
            .pure_bind (.last (.pure fun hclean => ?_))
          have htree := hchain (.elif chain) hmore hclean (hnext hclean)
          simpa using htree
      · next hkind =>
          refine .advance (hkind ▸ nofun) fun s₄ h₄ => (runsAt_block hstatement s₄).bind fun body' more s₅ h₅ hbody' =>
            .pure_bind (.last (.pure fun hclean => ?_))
          have hmore : Carries ([s₃.peek] ++ more) (blockTrees body') := (hbody' hclean).mono (by grind)
          have htree := hchain (.block body') (h₄.trans h₅) hclean hmore
          simpa using htree
      · exact .pure_bind (.last (.pure fun hclean => hchain .nothing (.refl s₃) hclean carries_nil))

theorem runsAt_loopElse (s : ParseState) : RunsAt (loopElse statement) s
    (fun used body s' => s'.faults = [] → Carries used (optionalTrees body)) Faulty := by
  refine .eat nofun (fun t s₁ _ _ _ => ?_) fun _ => .pure fun _ => carries_nil
  refine (runsAt_block hstatement s₁).bind fun body used s₂ _ hbody => .pure fun hclean => ?_
  exact (hbody hclean).mono (by grind)

theorem runsAt_forLoop {s : ParseState} (hworded : s.peek.kind.isLayout = false) :
    RunsAt (forLoop statement) s (fun used stmt s' => s'.faults = [] → StmtBuilt used stmt) Faulty := by
  refine .here (.advance (ne_eof_of_worded hworded) fun s₁ h₁ => .bind_walks (walks_targetList walks_expressionAt s₁)
    fun target u₂ s₂ h₂ htarget => .bind_walks (walks_expect rfl s₂) fun _ u₃ s₃ h₃ _ =>
      .bind_walks (walks_expressionList walks_expressionAt s₃) fun source u₄ s₄ h₄ hsource =>
        (runsAt_block hstatement s₄).bind fun body u₅ s₅ h₅ hbody => (runsAt_loopElse hstatement s₅).bind
          fun orelse u₆ s₆ h₆ horelse => .last (.pure fun hclean => ?_))
  have hmoves := (h₁.trans (h₂.trans (h₃.trans h₄)).moves).trans (h₅.trans h₆)
  have htarget : Carries u₂ [target.target] := Carries.roles htarget rfl
  have hblocks := (hbody (h₆.clean hclean)).append (horelse hclean)
  have hrow : Carries (u₂ ++ (u₄ ++ (u₅ ++ u₆)))
      ([target.target] ++ ([source.tree] ++ (blockTrees body ++ optionalTrees orelse))) :=
    htarget.append (Carries.append hsource hblocks)
  have hnode := carries_moved (r := .other) hmoves (by simp) hworded (hrow.mono (by grind))
  simpa [StmtBuilt, Stmt.trees] using hnode

theorem runsAt_whileLoop {s : ParseState} (hworded : s.peek.kind.isLayout = false) :
    RunsAt (whileLoop statement) s (fun used stmt s' => s'.faults = [] → StmtBuilt used stmt) Faulty := by
  refine .here (.advance (ne_eof_of_worded hworded) fun s₁ h₁ => .bind_walks (walks_expressionAt .full s₁)
    fun condition u₂ s₂ h₂ hcondition => (runsAt_block hstatement s₂).bind fun body u₃ s₃ h₃ hbody =>
      (runsAt_loopElse hstatement s₃).bind fun orelse u₄ s₄ h₄ horelse => .last (.pure fun hclean => ?_))
  have hmoves := (h₁.trans h₂.moves).trans (h₃.trans h₄)
  have hblocks := (hbody (h₄.clean hclean)).append (horelse hclean)
  have hrow : Carries (u₂ ++ (u₃ ++ u₄)) ([condition.tree] ++ (blockTrees body ++ optionalTrees orelse)) :=
    Carries.append hcondition hblocks
  have hnode := carries_moved (r := .other) hmoves (by simp) hworded (hrow.mono (by grind))
  simpa [StmtBuilt, Stmt.trees] using hnode

theorem runsAt_statementWith (s : ParseState) :
    RunsAt (statementWith statement) s (fun used stmt s' => s'.faults = [] → StmtBuilt used stmt) Faulty := by
  have hsimple : RunsAt simple s (fun used stmt s' => s'.faults = [] → StmtBuilt used stmt) Faulty :=
    runsAt_simple.mono (fun _ _ _ _ h _ => h) fun _ _ _ h => h
  refine .kind ?_
  split
  · next hkind =>
      exact (runsAt_function hstatement (hkind ▸ rfl) []).mono (fun _ _ _ _ h hclean => h hclean [] carries_nil)
        fun _ _ _ h => h
  · next hkind =>
      exact (runsAt_classDef hstatement (hkind ▸ rfl) []).mono (fun _ _ _ _ h hclean => h hclean [] carries_nil)
        fun _ _ _ h => h
  · exact runsAt_decorated hstatement s
  · next hkind =>
      have hchain : RunsAt (bounded (ifChainUpTo statement)) s
          (fun used chain s' => s'.faults = [] → Carries used [chain.tree]) Faulty :=
        .bounded fun bound => runsAt_ifChainUpTo hstatement bound (hkind ▸ rfl)
      exact hchain.bind fun chain used s' _ h => .pure fun hclean => by rw [List.append_nil]; exact h hclean
  · next hkind => exact runsAt_forLoop hstatement (hkind ▸ rfl)
  · next hkind => exact runsAt_whileLoop hstatement (hkind ▸ rfl)
  · next word hkind =>
      split
      · exact (runsAt_refused (hkind ▸ rfl) _).mono (fun _ _ _ _ h _ => h) fun _ _ _ h => h
      · exact .ite (fun _ => hsimple) fun _ => .of_failed rfl (s.moves_note _ _) (List.cons_ne_nil _ _)
  · exact hsimple

end

/-- The trees of a statement that is read without a fault are a row over the tokens used up for it. -/
theorem runsAt_statement (s : ParseState) :
    RunsAt statement s (fun used stmt s' => s'.faults = [] → StmtBuilt used stmt) Faulty := by
  refine .bounded fun bound => ?_
  induction bound generalizing s with
  | zero => exact fun _ => trivial
  | succ bound ih => exact runsAt_statementWith ih s

/-! ## sources -/

/-- The trees of a source that is read without a fault are a row, and it does not start with a block. -/
theorem runsAt_module (s : ParseState) :
    RunsAt module_ s (fun used m s' => m.span = s.peek.span.merge s'.last ∧
      (s'.faults = [] → Carries used (blockTrees m.body) ∧ s.peek.kind ≠ .indent)) Faulty := by
  refine .here (RunsAt.bind (?_ : RunsAt _ s (fun used body s' => s'.faults = [] →
    Carries used (blockTrees body) ∧ s.peek.kind ≠ .indent) Faulty) fun body used s' _ h =>
      .last (.pure ⟨rfl, by simpa using h⟩))
  refine RunsAt.loop (fun used acc s' => BlockBuilt used acc.reverse s' ∧
    (s'.faults = [] → used ≠ [] → s.peek.kind ≠ .indent)) ⟨fun _ => carries_nil, nofun⟩ ?_
  rintro acc used s' hmoves ⟨hacc, hstarted⟩
  have hstart : s'.faults = [] → s'.peek.kind ≠ .indent → s.peek.kind ≠ .indent := by
    intro hclean hkind
    by_cases hused : used = []
    · subst hused
      rwa [← hmoves.toReads.peek_eq]
    · exact hstarted hclean hused
  refine .check (.tooManyFaults (.ite (fun hend => .pure fun hclean => ⟨?_, hstart hclean ?_⟩) fun _ => .kind ?_))
  · simpa using hacc hclean
  · rintro hkind
    simp [hkind, ParseState.tooManyFaults, hclean, maxDiagnostics] at hend
  split
  · next hkind =>
      refine .advance (by simp [hkind]) fun s'' hmore => .pure ⟨fun hclean => ?_, fun hclean _ => ?_⟩
      · exact (hacc (hmore.clean hclean)).mono (by grind)
      · exact hstart (hmore.clean hclean) (by simp [hkind])
  · have hreport : RunsAt (report .unexpectedIndent) s' (fun used _ s'' => s''.faults ≠ []) Faulty :=
      .of_done rfl (fun _ => s'.moves_note _ _) (List.cons_ne_nil _ _)
    refine hreport.bind fun _ _ s₁ _ hfaults => runsAt_skipIndented.bind fun _ _ s₂ hmore _ => .pure ?_
    exact ⟨fun hclean => absurd (hmore.clean hclean) hfaults, fun hclean => absurd (hmore.clean hclean) hfaults⟩
  · next hkind =>
      refine .advance (by simp [hkind]) fun s'' hmore => .pure ⟨fun hclean => ?_, fun hclean _ => ?_⟩
      · exact (hacc (hmore.clean hclean)).mono (by grind)
      · exact hstart (hmore.clean hclean) (by simp [hkind])
  · next hindent _ =>
      have hround : RunsAt _ s' (fun more r s'' => RunsAt.Turn
        (fun used (acc : List Stmt) s'' => BlockBuilt used acc.reverse s'') (fun used body s'' =>
          s''.faults = [] → Carries used (blockTrees body) ∧ s.peek.kind ≠ .indent) (used ++ more) r s'') Faulty :=
        runsAt_round runsAt_statement collects_trees hacc
      refine hround.mono (fun more r s'' hmore hr => ?_) fun _ _ _ h => h
      cases r with
      | inl acc => exact ⟨hr, fun hclean _ => hstart (hmore.clean hclean) hindent⟩
      | inr body => exact hr

end Parser

open SpanTree

/-- A source that does not start with a block starts with a text, or there is none in it. -/
theorem peek_lex {text : String} (hlex : (lex text).faults = [])
    (hindent : (ParseState.start (lex text).tokens).peek.kind ≠ .indent) :
    ¬ (ParseState.start (lex text).tokens).peek.span.last.before
        (ParseState.start (lex text).tokens).peek.span.first = true ∧
      (worded (lex text).tokens ≠ [] → (ParseState.start (lex text).tokens).peek.kind.isLayout = false) := by
  obtain ⟨pos, hlast⟩ := getLast?_lex text
  obtain ⟨⟨kinds, hkinds, hbefore⟩, hnewline, -⟩ := spaced_lex text
  have hbalance := (nested_lex hlex).1
  have hordered := fun t ht => ((places_lex "" hlex).1 t ht).1
  cases htokens : (lex text).tokens with
  | nil => simp [htokens] at hlast
  | cons t ts =>
      rw [htokens] at hlast hkinds hnewline hbalance hindent hordered
      change ¬ t.span.last.before t.span.first = true ∧ (_ → t.kind.isLayout = false)
      have hworded : t.kind.isLayout = false → _ := fun h =>
        And.intro (hordered t (worded_cons h ts ▸ List.mem_cons_self)) fun _ : worded (t :: ts) ≠ [] => h
      cases hkind : t.kind with
      | newline => simp [hkind] at hnewline
      | indent => exact absurd hkind hindent
      | dedent =>
          have hone := hbalance [.dedent] ⟨ts.map (·.kind), by simp [hkind]⟩
          simp at hone
      | eof =>
          have hnone : ts = [] := by
            cases kinds with
            | nil => simpa [hkind] using hkinds
            | cons k kinds => simp_all
          subst hnone
          obtain rfl : t = ⟨.eof, .point pos⟩ := by simpa using hlast
          exact ⟨Pos.not_before_self pos, fun hne => absurd rfl hne⟩
      | _ => exact hkind ▸ hworded (hkind ▸ rfl)

/-- The tree of a source that is lexed and parsed without a fault nests. -/
theorem nested_tree {text : String} {m : Module} (hlex : (lex text).faults = [])
    (h : (parse (lex text).tokens).module? = some m) : m.tree.Nested := by
  have hsourced : (ParseState.start (lex text).tokens).Sourced := ⟨rfl, text, [], hlex, rfl⟩
  have hruns := Parser.runsAt_module (.start (lex text).tokens) hsourced
  obtain ⟨s, hmodule, hfaults⟩ := module?_parse.1 h
  rw [hmodule] at hruns
  obtain ⟨used, hmoves, hspan, hclean⟩ := hruns
  obtain ⟨hcarries, hindent⟩ := hclean hfaults
  have htokens : (lex text).tokens = used ++ s.rest := hmoves.rest
  have hsub : (worded used).Sublist (worded (lex text).tokens) :=
    (htokens ▸ List.sublist_append_left _ _ : used.Sublist _).filter _
  have hplaces := places_lex "" hlex
  have hlined : Lined (worded used) := Lined.sublist ⟨fun t ht => (hplaces.1 t ht).1, hplaces.2.1⟩ hsub
  obtain ⟨hordered, hworded⟩ := peek_lex hlex hindent
  by_cases hused : worded used = []
  · have hnone : blockTrees m.body = [] := Row.eq_nil (hused ▸ hcarries hlined)
    have hlast : s.last = .origin := by rw [hmoves.last, hused]; rfl
    rw [Module.tree, hspan, hnone, hlast]
    exact .node (Span.not_before_merge hordered (Pos.not_before_self _)) nofun .nil nofun
  · have hne : used ≠ [] := by
      rintro rfl
      exact hused rfl
    have hpeek := hworded fun hnil => hused (List.sublist_nil.1 (hnil ▸ hsub))
    have hrow := Parser.carries_moved (r := .other) hmoves hne hpeek hcarries hlined
    rw [Module.tree, hspan]
    exact hrow.nested _ List.mem_cons_self

/-- The tree of a source that is lexed and parsed without a fault. Every node covers its children, and these stand one
behind the other in the order of the text. Any two nodes are one inside the other or one behind the other, and no two
targets have one span. -/
theorem spans_of_parse {text : String} {m : Module} (hlex : (lex text).faults = [])
    (h : (parse (lex text).tokens).module? = some m) :
    m.tree.Nested ∧ (m.tree.nodes.Pairwise fun a b => a.2.Covers b.2 ∨ a.2.last.before b.2.first = true) ∧
      m.tree.targets.Nodup := by
  have hnested := nested_tree hlex h
  exact ⟨hnested, hnested.pairwise_nodes, m.nodup_targets hnested⟩

/-- A loop over a pair, in which a target of an assignment has a comprehension inside it and another one is a tuple of
one name. -/
def nestingText : String :=
  "@a\ndef f(x):\n  for i, j in x:\n    x[[k for k in i][0]] = j, = i\n"

theorem spans_of_nestingText : ∃ m, (parse (lex nestingText).tokens).module? = some m ∧ m.tree.targets.length = 4 ∧
    m.tree.Nested ∧ (m.tree.nodes.Pairwise fun a b => a.2.Covers b.2 ∨ a.2.last.before b.2.first = true) ∧
      m.tree.targets.Nodup := by
  have hlex : (lex nestingText).faults = [] := by decide +kernel
  have htargets : (parse (lex nestingText).tokens).module?.map (fun m => m.tree.targets.length) = some 4 := by
    decide +kernel
  obtain ⟨m, hm, hlength⟩ := Option.map_eq_some_iff.1 htargets
  exact ⟨m, hm, hlength, spans_of_parse hlex hm⟩

end ViewSync
