import ViewSync.Proofs.Parser.Extents
import ViewSync.Proofs.Parser.Halting
import ViewSync.Proofs.Parser.Nesting
import ViewSync.Proofs.Parser.Targets

/-!
# ViewSync.Proofs.Parser.Refusals

Where the refused statements of a tree stand in its source. `Refuses used rs` says that some tokens end with layout, and
that the refused statements `rs` stand among them in this order: each starts a logical line with its word, and its span
is that of the line (`Site`). A statement that is read without a fault has its refused statements among the tokens that
are used up for it.
-/

namespace ViewSync.Parser

open ParseState

/-! ## refused statements among tokens -/

/-- The last of some tokens is layout, if there is one. -/
abbrev EndsLine (used : List Token) : Prop :=
  Rests (used.map (·.kind))

/-- A refused statement among some tokens, from its word at the start of a line to the end of that line. -/
def Site (used : List Token) (r : Span × RefusedStmt) (w : Token) : Prop :=
  ∃ front line newline back, used = front ++ w :: (line ++ newline :: back) ∧ EndsLine front ∧
    w.kind = .reserved r.2.word ∧ (∀ t ∈ line, t.kind.isLayout = false) ∧ newline.kind = .newline ∧
      r.1 = lineSpan w line

/-- Some tokens end with layout, and refused statements stand among them in order. -/
structure Refuses (used : List Token) (rs : List (Span × RefusedStmt)) : Prop where
  ended : EndsLine used
  sites : ∃ ws : List Token, ws.Sublist used ∧ List.Forall₂ (Site used) rs ws

/-- The same of the tokens behind a line that has been started. -/
def Hung (used : List Token) (rs : List (Span × RefusedStmt)) : Prop :=
  ∃ front t back, used = front ++ t :: back ∧ t.kind.isLayout = true ∧ Refuses back rs

section

variable {used more front : List Token} {t : Token} {rs rs' : List (Span × RefusedStmt)}

theorem EndsLine.append (h : EndsLine used) (h' : EndsLine more) : EndsLine (used ++ more) := by
  rw [EndsLine, List.map_append]
  exact Rests.append h h'

theorem endsLine_concat (h : t.kind.isLayout = true) (used : List Token) : EndsLine (used ++ [t]) := by
  rw [EndsLine, List.map_append]
  exact rests_concat h _

theorem Site.between {r : Span × RefusedStmt} {w : Token} (h : Site used r w) (hfront : EndsLine front)
    (back : List Token) : Site (front ++ used ++ back) r w := by
  obtain ⟨before, line, newline, behind, rfl, hbefore, hword⟩ := h
  exact ⟨front ++ before, line, newline, behind ++ back, by simp, hfront.append hbefore, hword⟩

theorem refuses_nil (h : EndsLine used) : Refuses used [] :=
  ⟨h, [], List.nil_sublist _, .nil⟩

theorem refuses_empty : Refuses [] [] :=
  refuses_nil nofun

theorem Refuses.append (h : Refuses used rs) (h' : Refuses more rs') : Refuses (used ++ more) (rs ++ rs') := by
  obtain ⟨hended, ws, hsub, hsites⟩ := h
  obtain ⟨hended', ws', hsub', hsites'⟩ := h'
  refine ⟨hended.append hended', ws ++ ws', hsub.append hsub', List.rel_append (hsites.imp fun r w hr => ?_)
    (hsites'.imp fun r w hr => ?_)⟩
  · exact @Site.between used [] r w hr nofun more
  · have hbehind := hr.between hended []
    rwa [List.append_nil] at hbehind

theorem Refuses.hung (h : Refuses used rs) (ht : t.kind.isLayout = true) (front : List Token) :
    Hung (front ++ t :: used) rs :=
  ⟨front, t, used, rfl, ht, h⟩

theorem Hung.behind (h : Hung used rs) (front : List Token) : Hung (front ++ used) rs := by
  obtain ⟨before, t, back, rfl, ht, hrefuses⟩ := h
  exact ⟨front ++ before, t, back, (List.append_assoc _ _ _).symm, ht, hrefuses⟩

theorem Hung.refuses (h : Hung used rs) : Refuses used rs := by
  obtain ⟨before, t, back, rfl, ht, hrefuses⟩ := h
  have hall := (refuses_nil (endsLine_concat ht before)).append hrefuses
  rwa [List.append_assoc] at hall

theorem Hung.append (h : Hung used rs) (h' : Refuses more rs') : Hung (used ++ more) (rs ++ rs') := by
  obtain ⟨before, t, back, rfl, ht, hrefuses⟩ := h
  exact ⟨before, t, back ++ more, List.append_assoc _ _ _, ht, hrefuses.append h'⟩

theorem collects_refusals :
    Collects (fun used stmt => Refuses used stmt.refusals) fun used body => Refuses used (blockRefusals body) where
  nil := refuses_empty
  snoc hbody hstmt := by
    rw [blockRefusals_append, blockRefusals_singleton]
    exact hbody.append hstmt
  layout hbody ht := by
    have hmore := hbody.append (refuses_nil (endsLine_concat ht []))
    rwa [List.append_nil, List.nil_append] at hmore

end

/-! ## statements on one line -/

/-- No statement is refused in a statement. -/
def Unrefused (_ : List Token) (stmt : Stmt) : Prop :=
  stmt.refusals = []

theorem yields_assignment_unrefused (start : Span) : Yields (assignment start) Unrefused := by
  refine (yields_expressionList yields_expressionAt).bind fun first _ _ =>
    yields_assignedValues.bind fun values _ _ => ?_
  cases values.getLast? with
  | some value => exact yields_last.bind fun _ _ _ => Yields.pure rfl
  | none =>
      refine yields_kind.bind fun _ _ _ => ?_
      split
      · exact yields_advance.bind fun _ _ _ => (yields_expressionList yields_expressionAt).bind fun _ _ _ =>
          yields_last.bind fun _ _ _ => Yields.pure rfl
      · exact yields_last.bind fun _ _ _ => Yields.pure rfl

theorem yields_simpleBody_unrefused : Yields simpleBody Unrefused := by
  refine yields_here.bind fun start _ _ => yields_kind.bind fun _ _ _ => ?_
  split
  · exact yields_advance.bind fun _ _ _ => yields_last.bind fun _ _ _ => Yields.pure rfl
  · refine yields_advance.bind fun _ _ _ => yields_kind.bind fun _ _ _ => Yields.ite ?_ ?_
    · exact yields_last.bind fun _ _ _ => Yields.pure rfl
    · exact (yields_expressionList yields_expressionAt).bind fun _ _ _ => yields_last.bind fun _ _ _ => Yields.pure rfl
  · exact yields_advance.bind fun _ _ _ => yields_deleteTargets.bind fun _ _ _ =>
      yields_last.bind fun _ _ _ => Yields.pure rfl
  · exact yields_assignment_unrefused start

section

variable {s s' : ParseState} {used : List Token} {t : Token} {failed : List Token → ParseState → Prop}

/-- A line that has been started ends, if no fault is noted. -/
theorem runsAt_lineEnd_newline (hs : s.Sourced) (hreads : s.Reads (used ++ [t]) s') (ht : t.kind.isLayout = false) :
    RunsAt lineEnd s' (fun more _ s'' => s''.faults = [] → ∃ u, more = [u] ∧ u.kind = .newline) failed := by
  have hnext := hs.next hreads ht
  cases hkind : s'.peek.kind with
  | newline =>
      have hdone : lineEnd s' = .done () s'.advance := by simp only [lineEnd, hkind]
      exact .of_done hdone (fun hs' => moves_advance_of_ne hs'.eof (by simp [hkind])) fun _ => ⟨s'.peek, rfl, hkind⟩
  | dedent | eof =>
      rw [hkind] at hnext
      exact absurd hnext (by decide)
  | _ =>
      have hdone : lineEnd s' = .done () (s'.note (.expectedLineEnd s'.peek.kind) s'.peek.span) := by
        simp only [lineEnd, hkind]
      exact .of_done hdone (fun _ => s'.moves_note _ _) fun hclean => by cases hclean

/-- A statement on one line takes tokens of this line, and is not refused. -/
theorem runsAt_simpleBody : RunsAt simpleBody s
    (fun used stmt _ => ∃ front t, used = front ++ [t] ∧ t.kind.isLayout = false ∧ stmt.refusals = []) Faulty := by
  intro hs
  have hwalks := (RunsAt.of_walks (walks_simpleBody s)) hs
  have hunrefused := yields_simpleBody_unrefused s hs.eof
  have huses := uses_simpleBody s hs.eof
  unfold YieldsAt at hunrefused
  cases hdone : simpleBody s with
  | done stmt s' =>
      rw [hdone] at hwalks hunrefused huses
      obtain ⟨used, hmoves, hwalked, -⟩ := hwalks
      obtain ⟨_, _, hrefusals⟩ := hunrefused
      refine ⟨used, hmoves, ?_⟩
      obtain rfl | ⟨front, t, rfl⟩ := used.eq_nil_or_concat
      · have hsame : s.rest = s'.rest := hmoves.rest
        exact absurd huses.2 (by rw [hsame]; exact Nat.lt_irrefl _)
      · exact ⟨front, t, List.concat_eq_append, hwalked.worded t (by simp), hrefusals⟩
  | failed s' =>
      rw [hdone] at hwalks
      obtain ⟨used, hmoves, mid, cause, -, -, rfl⟩ := hwalks
      exact ⟨used, hmoves, List.cons_ne_nil _ _⟩
  | exhausted => trivial

theorem runsAt_simple_line : RunsAt simple s (fun used stmt s' => s'.faults = [] →
    stmt.refusals = [] ∧ ∃ front t, used = front ++ [t] ∧ t.kind.isLayout = true) Faulty := by
  refine .intro fun hs => runsAt_simpleBody.bind fun stmt used s' hmoves h => ?_
  obtain ⟨front, t, rfl, ht, hrefusals⟩ := h
  refine (runsAt_lineEnd_newline hs hmoves.toReads ht).bind fun _ more s'' _ hmore => .pure fun hclean =>
    ⟨hrefusals, ?_⟩
  obtain ⟨u, rfl, hu⟩ := hmore hclean
  exact ⟨front ++ [t], u, by simp, hu ▸ rfl⟩

theorem runsAt_simple_refuses :
    RunsAt simple s (fun used stmt s' => s'.faults = [] → Refuses used stmt.refusals) Faulty := by
  refine runsAt_simple_line.mono (fun used stmt s' _ h hclean => ?_) fun _ _ _ h => h
  obtain ⟨hrefusals, front, t, rfl, ht⟩ := h hclean
  rw [hrefusals]
  exact refuses_nil (endsLine_concat ht front)

/-! ## refused statements -/

theorem word_of_ofWord? {word : String} {stmt : RefusedStmt} (h : RefusedStmt.ofWord? word = some stmt) :
    word = stmt.word := by
  have hfound : (stmt.word == word) = true := List.find?_some (p := fun stmt : RefusedStmt => stmt.word == word) h
  exact (beq_iff_eq.1 hfound).symm

/-- The tokens ahead are the last ones of a source. -/
theorem sourceEnd_of_sourced (hs : s.Sourced) : SourceEnd (s.rest.map (·.kind)) := by
  obtain ⟨-, text, front, hlex, htokens⟩ := hs
  refine (sourceEnd_lex hlex).suffix ?_
  rw [htokens, List.map_append]
  exact List.suffix_append _ _

/-- A statement that is refused stands at the front of the tokens used up for it. -/
theorem runsAt_refused_refuses {stmt : RefusedStmt} (hword : s.peek.kind = .reserved stmt.word) :
    RunsAt (refused stmt) s (fun used node _ => Refuses used node.refusals) failed := by
  intro hs
  have hmoved : RunsAt (refused stmt) s (fun _ _ _ => True) failed :=
    (runsAt_refused (by rw [hword]; rfl) stmt).mono (fun _ _ _ _ _ => trivial) fun _ _ _ h => h
  have hruns := hmoved hs
  obtain ⟨w, rest, hrest⟩ : ∃ w rest, s.rest = w :: rest := by
    refine List.exists_cons_of_ne_nil fun hnil => ?_
    rw [ParseState.peek, hnil, List.headD_nil, hs.eof] at hword
    cases hword
  have hw : w.kind = .reserved stmt.word := by
    rw [ParseState.peek, hrest] at hword
    exact hword
  have hend := sourceEnd_of_sourced hs
  rw [hrest, List.map_cons] at hend
  obtain ⟨line, behind, hkinds, hline⟩ := exists_line hend (by rw [hw]; rfl)
  obtain ⟨first, more, rfl, rfl, hmore⟩ := List.map_eq_append_iff.1 hkinds
  obtain ⟨newline, more, rfl, hnewline, rfl⟩ := List.map_eq_cons_iff.1 hmore
  rw [hkinds] at hend
  obtain ⟨hanging, others, back, rfl, hreach, hback⟩ := exists_reaching stmt hline hend.tail.behind.tail
  obtain ⟨u, hdone, hu⟩ := refused_done hreach hback hw hnewline hs.eof hrest
  rw [hdone] at hruns ⊢
  obtain ⟨used, hmoves, -⟩ := hruns
  have hused : used = w :: (first ++ newline :: (hanging ++ others)) := by
    have hsame := hmoves.rest
    rw [hu.rest, hrest] at hsame
    refine (List.append_cancel_right (?_ : _ ++ back = used ++ back)).symm
    rw [← hsame]
    simp
  refine ⟨used, hmoves, ?_, [w], ?_, .cons ?_ .nil⟩
  · rw [hused, EndsLine]
    have hrests := hreach.rests (.reserved stmt.word)
    simpa [hw, hnewline] using hrests
  · rw [hused]
    exact List.singleton_sublist.2 List.mem_cons_self
  · exact ⟨[], first, newline, hanging ++ others, hused, (fun _ hnone => by cases hnone), hw,
      fun t ht => hline _ (List.mem_map_of_mem ht), hnewline, rfl⟩

end

/-! ## compound statements -/

section

variable {statement : Parser Stmt}
  (hstatement : ∀ s, RunsAt statement s (fun used stmt s' => s'.faults = [] → Refuses used stmt.refusals) Faulty)

include hstatement

theorem runsAt_block_hung (s : ParseState) : RunsAt (block statement) s
    (fun used body s' => s'.faults = [] → Hung used (blockRefusals body)) Faulty := by
  refine .bind_walks (walks_expect rfl s) fun _ u₁ s₁ _ _ => .eat nofun (fun newline s₂ _ _ _ => ?_) fun _ => ?_
  · refine .eat nofun (fun indent s₃ hindent _ _ => ?_) fun _ => ?_
    · refine (runsAt_indentedBlock hstatement collects_refusals s₃).mono (fun used body s' _ hbody hclean => ?_)
        fun _ _ _ h => h
      have hhung := ((hbody hclean).hung (show indent.kind.isLayout = true by rw [hindent]; rfl) [newline]).behind u₁
      exact hhung
    · exact .of_failed rfl (s₂.moves_note _ _) (List.cons_ne_nil _ _)
  · refine runsAt_simple_line.bind fun stmt used s' _ hstmt => .pure fun hclean => ?_
    obtain ⟨hrefusals, front, t, rfl, ht⟩ := hstmt hclean
    rw [blockRefusals_singleton, hrefusals, List.append_nil]
    exact (refuses_empty.hung ht front).behind u₁

theorem runsAt_function_hung {s : ParseState} (hworded : s.peek.kind.isLayout = false) (decorators : List Expr) :
    RunsAt (function statement decorators) s
      (fun used stmt s' => s'.faults = [] → Hung used stmt.refusals) Faulty := by
  have hrest : ∀ {s₁ : ParseState} {name : Ident} {ps : List Param} (head : List Token), RunsAt (do
        let body ← block statement
        return Stmt.function (.mk (s.peek.span.merge (← last)) name ps decorators body)) s₁ (fun more stmt s' =>
          s'.faults = [] → Hung (head ++ more) stmt.refusals) Faulty := by
    intro s₁ name ps head
    refine (runsAt_block_hung hstatement s₁).bind fun body more s₂ _ hbody => .last (.pure fun hclean => ?_)
    rw [List.append_nil]
    exact (hbody hclean).behind head
  refine .here (.advance (ne_eof_of_worded hworded) fun s₁ _ => .bind_walks (walks_name s₁) fun name u₂ s₂ _ _ =>
    .bind_walks (walks_expect rfl s₂) fun _ u₃ s₃ _ _ => .bind_walks (walks_params walks_expressionAt _ s₃)
      fun ps u₄ s₄ _ _ => .bind_walks (walks_expect rfl s₄) fun _ u₅ s₅ _ _ => ?_)
  refine .eat (by decide) (fun u s₆ _ _ _ => .bind_walks (walks_expressionAt .full s₆) fun _ u₇ s₇ _ _ => ?_)
    fun _ => ?_
  · refine (hrest (s.peek :: (u₂ ++ (u₃ ++ (u₄ ++ (u₅ ++ (u :: u₇))))))).mono (fun _ _ _ _ h => ?_) fun _ _ _ h => h
    simpa using h
  · refine (hrest (s.peek :: (u₂ ++ (u₃ ++ (u₄ ++ u₅))))).mono (fun _ _ _ _ h => ?_) fun _ _ _ h => h
    simpa using h

theorem runsAt_classDef_hung {s : ParseState} (hworded : s.peek.kind.isLayout = false) (decorators : List Expr) :
    RunsAt (classDef statement decorators) s
      (fun used stmt s' => s'.faults = [] → Hung used stmt.refusals) Faulty := by
  refine .here (.advance (ne_eof_of_worded hworded) fun s₁ _ => .bind_walks (walks_name s₁) fun name u₂ s₂ _ _ =>
    .bind_walks (walks_bases s₂) fun bs u₃ s₃ _ _ => (runsAt_block_hung hstatement s₃).bind fun body u₄ s₄ _ hbody =>
      .last (.pure fun hclean => ?_))
  have hhung := (hbody hclean).behind (s.peek :: (u₂ ++ u₃))
  simpa [Stmt.refusals, ClassDef.refusals] using hhung

theorem runsAt_decorated_refuses (s : ParseState) :
    RunsAt (decorated statement) s (fun used stmt s' => s'.faults = [] → Refuses used stmt.refusals) Faulty := by
  refine RunsAt.bind (?_ : RunsAt _ s (fun _ _ _ => True) Faulty) fun decorators used s' _ _ => .kind ?_
  · refine RunsAt.loop (fun _ _ _ => True) trivial fun acc used s' _ _ => .eat nofun (fun t s₁ _ _ _ => ?_)
      fun _ => .pure trivial
    exact .bind_walks (walks_expressionAt .full s₁) fun _ _ s₂ _ _ => runsAt_lineEnd.bind fun _ _ _ _ _ => .pure trivial
  · split
    · next hkind =>
        exact (runsAt_function_hung hstatement (hkind ▸ rfl) decorators).mono
          (fun _ _ _ _ h hclean => ((h hclean).behind used).refuses) fun _ _ _ h => h
    · next hkind =>
        exact (runsAt_classDef_hung hstatement (hkind ▸ rfl) decorators).mono
          (fun _ _ _ _ h hclean => ((h hclean).behind used).refuses) fun _ _ _ h => h
    · exact .of_failed rfl (s'.moves_note _ _) (List.cons_ne_nil _ _)

theorem runsAt_ifChainUpTo_hung (bound : Nat) {s : ParseState} (hworded : s.peek.kind.isLayout = false) :
    RunsAt (ifChainUpTo statement bound) s (fun used chain s' => s'.faults = [] → Hung used chain.refusals) Faulty := by
  induction bound generalizing s with
  | zero => exact fun _ => trivial
  | succ bound ih =>
      refine .here (.advance (ne_eof_of_worded hworded) fun s₁ _ => .bind_walks (walks_expressionAt .full s₁)
        fun condition u₂ s₂ _ _ => (runsAt_block_hung hstatement s₂).bind fun body u₃ s₃ _ hbody => .kind ?_)
      have hchain : ∀ (orelse : Else) {more : List Token} {s₄ : ParseState}, s₃.Moves more s₄ → s₄.faults = [] →
          Refuses more orelse.refusals → Hung (s.peek :: (u₂ ++ (u₃ ++ more)))
            (IfChain.mk (s.peek.span.merge s₄.last) condition body orelse).refusals := by
        intro orelse more s₄ hmore hclean horelse
        exact ((hbody (hmore.clean hclean)).append horelse).behind (s.peek :: u₂)
      split
      · next hkind =>
          refine (ih (hkind ▸ rfl)).bind fun chain more s₄ hmore hnext =>
            .pure_bind (.last (.pure fun hclean => ?_))
          have hhung := hchain (.elif chain) hmore hclean (hnext hclean).refuses
          simpa using hhung
      · next hkind =>
          refine .advance (hkind ▸ nofun) fun s₄ h₄ => (runsAt_block_hung hstatement s₄).bind
            fun body' more s₅ h₅ hbody' => .pure_bind (.last (.pure fun hclean => ?_))
          have hhung := hchain (.block body') (h₄.trans h₅) hclean ((hbody' hclean).behind [s₃.peek]).refuses
          simpa using hhung
      · exact .pure_bind (.last (.pure fun hclean => hchain .nothing (.refl s₃) hclean refuses_empty))

theorem runsAt_loopElse_refuses (s : ParseState) : RunsAt (loopElse statement) s
    (fun used body s' => s'.faults = [] → Refuses used (optionalRefusals body)) Faulty := by
  refine .eat nofun (fun t s₁ _ _ _ => ?_) fun _ => .pure fun _ => refuses_empty
  refine (runsAt_block_hung hstatement s₁).bind fun body used s₂ _ hbody => .pure fun hclean => ?_
  rw [List.append_nil]
  exact ((hbody hclean).behind [t]).refuses

theorem runsAt_forLoop_hung {s : ParseState} (hworded : s.peek.kind.isLayout = false) :
    RunsAt (forLoop statement) s (fun used stmt s' => s'.faults = [] → Hung used stmt.refusals) Faulty := by
  refine .here (.advance (ne_eof_of_worded hworded) fun s₁ _ => .bind_walks (walks_targetList walks_expressionAt s₁)
    fun target u₂ s₂ _ _ => .bind_walks (walks_expect rfl s₂) fun _ u₃ s₃ _ _ =>
      .bind_walks (walks_expressionList walks_expressionAt s₃) fun source u₄ s₄ _ _ =>
        (runsAt_block_hung hstatement s₄).bind fun body u₅ s₅ _ hbody => (runsAt_loopElse_refuses hstatement s₅).bind
          fun orelse u₆ s₆ h₆ horelse => .last (.pure fun hclean => ?_))
  have hhung := ((hbody (h₆.clean hclean)).append (horelse hclean)).behind (s.peek :: (u₂ ++ (u₃ ++ u₄)))
  simpa [Stmt.refusals] using hhung

theorem runsAt_whileLoop_hung {s : ParseState} (hworded : s.peek.kind.isLayout = false) :
    RunsAt (whileLoop statement) s (fun used stmt s' => s'.faults = [] → Hung used stmt.refusals) Faulty := by
  refine .here (.advance (ne_eof_of_worded hworded) fun s₁ _ => .bind_walks (walks_expressionAt .full s₁)
    fun condition u₂ s₂ _ _ => (runsAt_block_hung hstatement s₂).bind fun body u₃ s₃ _ hbody =>
      (runsAt_loopElse_refuses hstatement s₃).bind fun orelse u₄ s₄ h₄ horelse => .last (.pure fun hclean => ?_))
  have hhung := ((hbody (h₄.clean hclean)).append (horelse hclean)).behind (s.peek :: u₂)
  simpa [Stmt.refusals] using hhung

theorem runsAt_statementWith_refuses (s : ParseState) : RunsAt (statementWith statement) s
    (fun used stmt s' => s'.faults = [] → Refuses used stmt.refusals) Faulty := by
  have hrefuses : ∀ {p : Parser Stmt},
      RunsAt p s (fun used stmt s' => s'.faults = [] → Hung used stmt.refusals) Faulty →
      RunsAt p s (fun used stmt s' => s'.faults = [] → Refuses used stmt.refusals) Faulty :=
    fun h => h.mono (fun _ _ _ _ h hclean => (h hclean).refuses) fun _ _ _ h => h
  refine .kind ?_
  split
  · next hkind => exact hrefuses (runsAt_function_hung hstatement (hkind ▸ rfl) [])
  · next hkind => exact hrefuses (runsAt_classDef_hung hstatement (hkind ▸ rfl) [])
  · exact runsAt_decorated_refuses hstatement s
  · next hkind =>
      have hchain : RunsAt (bounded (ifChainUpTo statement)) s
          (fun used chain s' => s'.faults = [] → Hung used chain.refusals) Faulty :=
        .bounded fun bound => runsAt_ifChainUpTo_hung hstatement bound (hkind ▸ rfl)
      refine hrefuses (hchain.bind fun chain used s' _ h => .pure fun hclean => ?_)
      rw [List.append_nil]
      exact h hclean
  · next hkind => exact hrefuses (runsAt_forLoop_hung hstatement (hkind ▸ rfl))
  · next hkind => exact hrefuses (runsAt_whileLoop_hung hstatement (hkind ▸ rfl))
  · next word hkind =>
      split
      · next stmt hword =>
          have hpeek : s.peek.kind = .reserved stmt.word := by rw [hkind, word_of_ofWord? hword]
          exact (runsAt_refused_refuses hpeek).mono (fun _ _ _ _ h _ => h) fun _ _ _ h => h
      · exact .ite (fun _ => runsAt_simple_refuses) fun _ => .of_failed rfl (s.moves_note _ _) (List.cons_ne_nil _ _)
  · exact runsAt_simple_refuses

end

/-- The refused statements in a statement that is read without a fault stand among its tokens. -/
theorem runsAt_statement_refuses (s : ParseState) :
    RunsAt statement s (fun used stmt s' => s'.faults = [] → Refuses used stmt.refusals) Faulty := by
  refine .bounded fun bound => ?_
  induction bound generalizing s with
  | zero => exact fun _ => trivial
  | succ bound ih => exact runsAt_statementWith_refuses ih s

/-! ## sources -/

theorem runsAt_module_refuses (s : ParseState) :
    RunsAt module_ s (fun used m s' => s'.faults = [] → Refuses used m.refusals) Faulty := by
  refine .here (RunsAt.bind (?_ : RunsAt _ s (fun used body s' => s'.faults = [] →
    Refuses used (blockRefusals body)) Faulty) fun body used s' _ h =>
      .last (.pure fun hclean => (List.append_nil used).symm ▸ h hclean))
  refine RunsAt.loop (fun used (acc : List Stmt) s' => s'.faults = [] → Refuses used (blockRefusals acc.reverse))
    (fun _ => refuses_empty) fun acc used s' hmoves hacc => ?_
  have hadvance : s'.peek.kind.isLayout = true → s'.peek.kind ≠ .eof → RunsAt (do
      let _ ← advance
      return (.inl acc : List Stmt ⊕ List Stmt)) s' (fun more r s'' => RunsAt.Turn
        (fun used (acc : List Stmt) s'' => s''.faults = [] → Refuses used (blockRefusals acc.reverse))
        (fun used body s'' => s''.faults = [] → Refuses used (blockRefusals body)) (used ++ more) r s'') Faulty :=
    fun hlayout hne => .advance hne fun s'' hmore => .pure fun hclean =>
      collects_refusals.layout (hacc (hmore.clean hclean)) hlayout
  refine .check (.tooManyFaults (.ite (fun _ => .pure (by simpa [RunsAt.Turn] using hacc)) fun _ => .kind ?_))
  split
  · next hkind => exact hadvance (hkind ▸ rfl) (by simp [hkind])
  · have hreport : RunsAt (report .unexpectedIndent) s' (fun used _ s'' => s''.faults ≠ []) Faulty :=
      .of_done rfl (fun _ => s'.moves_note _ _) (List.cons_ne_nil _ _)
    refine hreport.bind fun _ _ s₁ _ hfaults => runsAt_skipIndented.bind fun _ _ s₂ hmore _ => .pure ?_
    exact fun hclean => absurd (hmore.clean hclean) hfaults
  · next hkind => exact hadvance (hkind ▸ rfl) (by simp [hkind])
  · exact runsAt_round runsAt_statement_refuses collects_refusals hacc

/-- The refused statements of a source that is lexed and parsed without a fault stand among its tokens. -/
theorem sites_lex {text : String} {m : Module} (hlex : (lex text).faults = [])
    (hm : (parse (lex text).tokens).module? = some m) :
    ∃ ws : List Token, ws.Sublist (lex text).tokens ∧ List.Forall₂ (Site (lex text).tokens) m.refusals ws := by
  have hruns := runsAt_module_refuses (.start (lex text).tokens) ⟨rfl, text, [], hlex, rfl⟩
  obtain ⟨s, hmodule, hfaults⟩ := module?_parse.1 hm
  rw [hmodule] at hruns
  obtain ⟨used, hmoves, hrefuses⟩ := hruns
  obtain ⟨-, ws, hsub, hsites⟩ := hrefuses hfaults
  have htokens : (lex text).tokens = [] ++ used ++ s.rest := hmoves.rest
  rw [htokens]
  exact ⟨ws, hsub.trans (List.sublist_append_left _ _),
    hsites.imp fun r w hr => @Site.between used [] r w hr nofun s.rest⟩

theorem exists_site {used ws : List Token} {rs : List (Span × RefusedStmt)} (h : List.Forall₂ (Site used) rs ws)
    {r : Span × RefusedStmt} (hr : r ∈ rs) : ∃ w, Site used r w := by
  induction h with
  | nil => cases hr
  | cons hsite _ ih =>
      obtain rfl | hr := List.mem_cons.1 hr
      · exact ⟨_, hsite⟩
      · exact ih hr

/-- They start where their words do. -/
theorem starts_of_sites {text : String} {rs : List (Span × RefusedStmt)} {ws : List Token}
    (h : List.Forall₂ (Site (lex text).tokens) rs ws) : rs.map (fun r => r.1.first) = starts ws := by
  induction h with
  | nil => rfl
  | @cons r w rs ws hsite _ ih =>
      obtain ⟨front, line, newline, back, htokens, -, hw, -, -, hspan⟩ := hsite
      have hword : w.kind.isLayout = false := by rw [hw]; rfl
      have hfirst := @first_lineSpan text front line (newline :: back) w (by simpa using htokens) hword
      have hcons : starts (w :: ws) = w.span.first :: starts ws := by rw [starts, worded_cons hword]; rfl
      rw [List.map_cons, ih, hcons, hspan, hfirst]

/-- No two refused statements have one span. -/
theorem nodup_refusals {text : String} {m : Module} (hlex : (lex text).faults = [])
    (hm : (parse (lex text).tokens).module? = some m) : (m.refusals.map Prod.fst).Nodup := by
  obtain ⟨ws, hsub, hsites⟩ := sites_lex hlex hm
  refine List.Nodup.of_map Span.first ?_
  rw [List.map_map]
  show (m.refusals.map fun r => r.1.first).Nodup
  rw [starts_of_sites hsites]
  exact (nodup_starts_lex text).sublist ((hsub.filter _).map _)

/-- Where one of them is replaced the others are left. -/
theorem refusals_passing_eq {m : Module} {span : Span} {stmt : RefusedStmt} (hnodup : (m.refusals.map Prod.fst).Nodup)
    (h : (span, stmt) ∈ m.refusals) : (m.passing (· == span)).refusals = m.refusals.erase (span, stmt) := by
  rw [m.refusals_passing, unreplaced, (List.Nodup.of_map _ hnodup).erase_eq_filter]
  refine List.filter_congr fun r hr => ?_
  have hsame : r.1 = span ↔ r = (span, stmt) :=
    ⟨fun heq => List.inj_on_of_nodup_map hnodup hr h heq, fun heq => heq ▸ rfl⟩
  exact congrArg not (Bool.eq_iff_iff.2 (by rw [beq_iff_eq, beq_iff_eq, hsame]))

/-! ## `pass` in their place -/

/-- The tokens of a refused statement: its word at the start of a line, the rest of the line, the block that hangs on
it, and behind a `try` the clauses that follow. -/
structure Extent (stmt : RefusedStmt) (span : Span) (front used back : List Token) : Prop where
  starts : EndsLine front
  parts : ∃ w line newline hanging others, used = w :: line ++ newline :: (hanging ++ others) ∧
    w.kind = .reserved stmt.word ∧ newline.kind = .newline ∧
      Reach stmt (line.map (·.kind)) (hanging.map (·.kind)) (others.map (·.kind)) ∧ span = lineSpan w line
  ends : Unattached stmt (back.map (·.kind))

/-- A refused statement is somewhere in the tokens of its source. -/
theorem exists_extent {text : String} {m : Module} (hlex : (lex text).faults = [])
    (hm : (parse (lex text).tokens).module? = some m) {span : Span} {stmt : RefusedStmt}
    (h : (span, stmt) ∈ m.refusals) :
    ∃ front used back, (lex text).tokens = front ++ used ++ back ∧ Extent stmt span front used back := by
  obtain ⟨ws, -, hsites⟩ := sites_lex hlex hm
  obtain ⟨w, front, line, newline, more, htokens, hfront, hw, hline, hnewline, hspan⟩ := exists_site hsites h
  have hend : SourceEnd (more.map (·.kind)) := by
    refine (sourceEnd_lex hlex).suffix ?_
    rw [htokens]
    exact ⟨(front ++ w :: (line ++ [newline])).map (·.kind), by simp⟩
  have hwords : ∀ k ∈ line.map (·.kind), k.isLayout = false := List.forall_mem_map.2 hline
  obtain ⟨hanging, others, back, rfl, hreach, hback⟩ := exists_reaching stmt hwords hend
  exact ⟨front, _, back, by rw [htokens]; simp, hfront,
    ⟨w, line, newline, hanging, others, rfl, hw, hnewline, hreach, hspan⟩, hback⟩

/-- A `pass` in place of a refused statement. For each refused statement of a source that is lexed and parsed without a
fault the source is cut in three, such that the tokens of the statement (`Extent`) are those in the middle, and its span
runs from its word to the last token of its first line. If the middle is replaced by a `pass` with the same white space
in front, and maybe blank lines, there are no faults, and the tree is the same up to spans but for that statement. -/
theorem parse_passed {text : String} {m : Module} (hlex : (lex text).faults = [])
    (hm : (parse (lex text).tokens).module? = some m) {span : Span} {stmt : RefusedStmt}
    (h : (span, stmt) ∈ m.refusals) :
    ∃ p t q front used back, text = p ++ t ++ q ∧ (lex text).tokens = front ++ used ++ back ∧
      Extent stmt span front used back ∧ Divides p t q front used back ∧
        (m.passing (· == span)).refusals = m.refusals.erase (span, stmt) ∧
          ∀ b, BlankLines b → (lex (p ++ passFor t ++ String.ofList b ++ q)).faults = [] ∧
            ∃ m', (parse (lex (p ++ passFor t ++ String.ofList b ++ q)).tokens).module? = some m' ∧
              m'.spanless = (m.passing (· == span)).spanless := by
  obtain ⟨front, used, back, htokens, hextent⟩ := exists_extent hlex hm h
  obtain ⟨hfront, ⟨w, line, newline, hanging, others, rfl, hw, hnewline, hreach, rfl⟩, hback⟩ := id hextent
  have hfront' : ∀ t ∈ front.getLast?, t.kind.isLayout = true :=
    fun t ht => hfront _ (by rw [List.getLast?_map, ht]; rfl)
  have hchain : ((w :: line ++ newline :: (hanging ++ others)).map (·.kind)).IsChain MayFollow := by
    have htext := mayFollow_lex text
    exact htext.infix ⟨front.map (·.kind), back.map (·.kind), by simp [htokens]⟩
  obtain ⟨lines, newline', closers, hlines, hnewline', hcloses, hopens⟩ :=
    hreach.exists_closers hw hnewline rfl hchain
  have hused : w :: line ++ newline :: (hanging ++ others) = w :: lines ++ newline' :: closers :=
    congrArg (w :: ·) hlines
  obtain ⟨p, t, q, htext, hdivides, rest, hrest, hpass⟩ := lex_passed hlex (by rw [htokens, hused]) hfront'
    (by rw [hw]; rfl) hnewline' hcloses (by rw [← hused]; exact hopens) hback.closed
  refine ⟨p, t, q, front, _, back, htext, htokens, hextent, hused ▸ hdivides,
    refusals_passing_eq (nodup_refusals hlex hm) h, fun b hb => ?_⟩
  obtain ⟨hclean, hkinds⟩ := hpass b hb
  exact ⟨hclean, parse_pass (by rw [htokens]; simp) hfront' hreach hback hw hnewline hm hkinds hrest⟩

/-- A `try` in a block, with blocks inside blocks, a comment between its clauses and an empty line behind them. -/
def passedText : String :=
  "if a:\n  try:\n    with b: c\n    if d:\n\tx = 1\n  except e:\n" ++
    "    raise\n # note\n  finally: f\n\n  g = 1\nimport h\n"

theorem parse_passedText : ∃ m span, (lex passedText).faults = [] ∧
    (parse (lex passedText).tokens).module? = some m ∧ (span, .try_) ∈ m.refusals ∧
      ∃ p t q front used back, passedText = p ++ t ++ q ∧ (lex passedText).tokens = front ++ used ++ back ∧
        Extent .try_ span front used back ∧ Divides p t q front used back ∧
          (m.passing (· == span)).refusals = m.refusals.erase (span, .try_) ∧
            ∀ b, BlankLines b → (lex (p ++ passFor t ++ String.ofList b ++ q)).faults = [] ∧
              ∃ m', (parse (lex (p ++ passFor t ++ String.ofList b ++ q)).tokens).module? = some m' ∧
                m'.spanless = (m.passing (· == span)).spanless := by
  have hlex : (lex passedText).faults = [] := by decide +kernel
  have hrefusals : (parse (lex passedText).tokens).module?.map (fun m => m.refusals.map Prod.snd) =
      some [.try_, .import_] := by decide +kernel
  obtain ⟨m, hm, hstmts⟩ := Option.map_eq_some_iff.1 hrefusals
  have htry : RefusedStmt.try_ ∈ m.refusals.map Prod.snd := hstmts ▸ List.mem_cons_self
  obtain ⟨⟨span, stmt⟩, hmem, rfl⟩ := List.mem_map.1 htry
  exact ⟨m, span, hlex, hm, hmem, parse_passed hlex hm hmem⟩

end ViewSync.Parser
