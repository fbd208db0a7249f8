import ViewSync.Proofs.Parser.Headers
import ViewSync.Proofs.Token.Stretches

/-!
# ViewSync.Proofs.Parser.Refused

Statements that are recognized and refused. Such a statement is a clause, that is a line and the block that hangs on it,
and behind a `try` there are more clauses (`Reach`). The parser skips exactly that, and keeps the place of the first
line (`statement_refused`). So a `pass` on a line of its own may stand in its place (`parse_pass`).
-/

namespace ViewSync.Parser

open ParseState

variable {drop : Span → Bool} {stmt : RefusedStmt} {line block clauses kinds : List TokenKind}

/-! ## what belongs to a statement -/

/-- The clauses behind a `try`, each on a line of its own. -/
inductive Clauses : List TokenKind → Prop where
  | nil : Clauses []
  | cons {k : TokenKind} {kinds rest : List TokenKind} : continuesTry k = true → Clause (k :: kinds) → Clauses rest →
      Clauses (k :: kinds ++ rest)

/-- All of a statement that is refused: the rest of the line behind its word, the block that hangs on the line, and
behind a `try` the clauses that follow. -/
structure Reach (stmt : RefusedStmt) (line block clauses : List TokenKind) : Prop where
  worded : ∀ k ∈ line, k.isLayout = false
  hanging : Hanging block
  clauses : if stmt = .try_ then Clauses clauses else clauses = []

/-- What may stand behind a statement: no block that would hang on it, and behind a `try` no more clauses. -/
structure Unattached (stmt : RefusedStmt) (back : List TokenKind) : Prop where
  closed : back.head? ≠ some .indent
  ended : stmt = .try_ → ∀ k ∈ back.head?, continuesTry k = false

theorem not_indent_of_continues {k : TokenKind} (h : continuesTry k = true) : k ≠ .indent := by
  rintro rfl
  cases h

theorem Reach.clauses_cases (h : Reach stmt line block clauses) : Clauses clauses := by
  have hclauses := h.clauses
  split at hclauses
  · exact hclauses
  · exact hclauses ▸ .nil

theorem Clauses.head?_ne (h : Clauses kinds) : kinds.head? ≠ some .indent := by
  cases h with
  | nil => exact nofun
  | cons hk => exact fun heq => not_indent_of_continues hk (Option.some.inj heq)

theorem Clauses.depthBehind_eq (h : Clauses kinds) (depth : Nat) :
    depthBehind (depth + 1) kinds = some (depth + 1) := by
  induction h with
  | nil => rfl
  | cons _ hclause _ ih =>
      rw [depthBehind_append, hclause.depthBehind_eq]
      exact ih

/-- What is skipped opens as many blocks as it closes. -/
theorem Reach.depthBehind_eq (h : Reach stmt line block clauses) (depth : Nat) :
    depthBehind (depth + 1) (.reserved stmt.word :: line ++ .newline :: block ++ clauses) = some (depth + 1) := by
  have hclause : Clause (.reserved stmt.word :: line ++ .newline :: block) :=
    .mk (List.forall_mem_cons.2 ⟨rfl, h.worded⟩) h.hanging
  rw [depthBehind_append, hclause.depthBehind_eq]
  exact h.clauses_cases.depthBehind_eq depth

/-! ## skipping it -/

section

variable {s : ParseState} {tokens back : List Token}

theorem headD_ne_of_head? {k : TokenKind} {more : List Token} (h : (more.map (·.kind)).head? ≠ some k) {eof : Token}
    (heof : eof.kind ≠ k) : (more.headD eof).kind ≠ k := by
  cases more with
  | nil => exact heof
  | cons t rest => exact fun heq => h (congrArg some heq)

/-- All clauses are skipped. -/
theorem loopUpTo_tryStep (h : Clauses (tokens.map (·.kind))) (hback : Unattached .try_ (back.map (·.kind)))
    (heof : s.eof.kind = .eof) (hrest : s.rest = tokens ++ back) {bound : Nat} (hbound : tokens.length < bound) :
    ∃ u, loopUpTo (fun _ => tryStep) bound () s = .done () u ∧ u.Behind s back := by
  generalize hkinds : tokens.map (·.kind) = kinds at h
  induction h generalizing tokens s bound with
  | nil =>
      cases List.map_eq_nil_iff.1 hkinds
      obtain ⟨bound, rfl⟩ := Nat.exists_eq_succ_of_ne_zero (Nat.ne_of_gt hbound)
      have hends : continuesTry s.peek.kind = false := by
        rw [ParseState.peek, hrest]
        cases back with
        | nil => rw [List.nil_append, List.headD_nil, heof]; rfl
        | cons t rest => exact hback.ended rfl t.kind rfl
      have hround : tryStep s = .done (.inr ()) s := by
        unfold tryStep
        rw [bind_apply]
        simp only [kind, hends]
        rfl
      exact ⟨s, loopUpTo_inr hround, .refl hrest⟩
  | @cons k first rest hk hclause hclauses ih =>
      obtain ⟨used, others, rfl, hused, hothers⟩ := List.map_eq_append_iff.1 hkinds
      obtain ⟨bound, rfl⟩ := Nat.exists_eq_succ_of_ne_zero (Nat.ne_of_gt (Nat.zero_lt_of_lt hbound))
      have hmore : ((others ++ back).map (·.kind)).head? ≠ some .indent := by
        rw [List.map_append, hothers]
        cases hclauses with
        | nil => exact hback.closed
        | cons hk => exact fun heq => not_indent_of_continues hk (Option.some.inj heq)
      rw [List.append_assoc] at hrest
      obtain ⟨span, u, hskip, hu⟩ := Clause.skipped (hused ▸ hclause)
        (headD_ne_of_head? hmore (by simp [heof])) hrest
      have hpeek : s.peek.kind = k := by
        obtain ⟨t, ts, rfl, ht, -⟩ := List.map_eq_cons_iff.1 hused
        rw [ParseState.peek, hrest]
        exact ht
      have hround : tryStep s = .done (.inl ()) u := by
        unfold tryStep
        rw [bind_apply]
        simp only [kind, hpeek, hk]
        rw [if_pos trivial, bind_apply, hskip]
        rfl
      have hlength : others.length < bound := by
        obtain ⟨t, ts, rfl, -⟩ := List.map_eq_cons_iff.1 hused
        simp only [List.length_append, List.length_cons] at hbound
        omega
      obtain ⟨v, hdone, hv⟩ := ih (hu.eof ▸ heof) hu.rest hlength hothers
      exact ⟨v, (loopUpTo_inl hround).trans hdone, hu.trans hv⟩

end

/-- Where the first line of a statement stands, from its word to its last token. -/
def lineSpan (w : Token) (rest : List Token) : Span :=
  w.span.merge (rest.getLastD w).span

section

variable {s : ParseState} {w newline : Token} {first hanging others back : List Token}

/-- A statement is skipped with its block and its clauses, and nothing else is. Its span is that of its first line. -/
theorem refused_done (h : Reach stmt (first.map (·.kind)) (hanging.map (·.kind)) (others.map (·.kind)))
    (hback : Unattached stmt (back.map (·.kind))) (hw : w.kind = .reserved stmt.word)
    (hnewline : newline.kind = .newline)
    (heof : s.eof.kind = .eof) (hrest : s.rest = w :: first ++ newline :: (hanging ++ (others ++ back))) :
    ∃ u, refused stmt s = .done (.refused (lineSpan w first) stmt) u ∧ u.Behind s back := by
  have hmore : ((others ++ back).map (·.kind)).head? ≠ some .indent := by
    rw [List.map_append]
    cases hothers : others with
    | nil => exact hback.closed
    | cons t ts =>
        have hne := h.clauses_cases.head?_ne
        rw [hothers] at hne
        exact hne
  have hline : ∀ t ∈ w :: first, t.kind.isLayout = false :=
    List.forall_mem_cons.2 ⟨by rw [hw]; rfl, fun t ht => h.worded _ (List.mem_map_of_mem ht)⟩
  obtain ⟨u, hskip, hu⟩ := skipClause_done hline hnewline h.hanging
    (headD_ne_of_head? hmore (by rw [heof]; exact nofun))
    hrest
  have hspan : (((w :: first).getLast?.map (·.span)).getD s.peek.span) = (first.getLastD w).span := by
    rw [List.getLast?_cons, List.getLastD_eq_getLast?]
    rfl
  rw [hspan] at hskip
  have hpeek : s.peek = w := by rw [ParseState.peek, hrest]; rfl
  rw [refused_eq]
  have hfront : (here >>= fun start => skipClause >>= fun stop =>
      (if stmt == .try_ then loop (fun _ => tryStep) () else pure ()) >>= fun _ =>
        pure (Stmt.refused (start.merge stop) stmt)) s =
      ((if stmt == .try_ then loop (fun _ => tryStep) () else pure ()) >>= fun _ =>
        pure (Stmt.refused (lineSpan w first) stmt)) u := by
    rw [bind_apply]
    simp only [here]
    rw [bind_apply, hskip, hpeek]
    rfl
  rw [hfront, bind_apply]
  by_cases htry : stmt = .try_
  · subst htry
    obtain ⟨v, hdone, hv⟩ := loopUpTo_tryStep h.clauses_cases hback (hu.eof ▸ heof) hu.rest
      (show others.length < u.rest.length + 1 by rw [hu.rest, List.length_append]; omega)
    refine ⟨v, ?_, hu.trans hv⟩
    rw [if_pos (beq_self_eq_true _), loop, hdone]
    rfl
  · have hnone : others = [] := by
      have hclauses := h.clauses
      rw [if_neg htry] at hclauses
      exact List.map_eq_nil_iff.1 hclauses
    subst hnone
    refine ⟨u, ?_, hu⟩
    rw [if_neg (by simpa using htry)]
    rfl

theorem ofWord?_word (stmt : RefusedStmt) : RefusedStmt.ofWord? stmt.word = some stmt := by
  cases stmt <;> rfl

theorem statement_refused (h : Reach stmt (first.map (·.kind)) (hanging.map (·.kind)) (others.map (·.kind)))
    (hback : Unattached stmt (back.map (·.kind))) (hw : w.kind = .reserved stmt.word)
    (hnewline : newline.kind = .newline)
    (hs : s.Ready (w :: first ++ newline :: (hanging ++ (others ++ back)))) (bound : Nat) :
    ∃ u, statementUpTo (bound + 1) s = .done (.refused (lineSpan w first) stmt) u ∧ u.Ready back := by
  obtain ⟨u, hdone, hu⟩ := refused_done h hback hw hnewline hs.eof hs.rest
  refine ⟨u, ?_, hs.behind hu⟩
  have hpeek : s.peek.kind = .reserved stmt.word := by rw [hs.peek, hw]
  show statementWith (statementUpTo bound) s = _
  unfold statementWith
  rw [bind_apply]
  simp only [kind, hpeek, ofWord?_word]
  exact hdone

/-- A `pass` on a line of its own. -/
theorem statement_pass (hw : w.kind = .keyword .pass) (hnewline : newline.kind = .newline)
    (hs : s.Ready (w :: newline :: back)) (bound : Nat) :
    ∃ span u, statementUpTo (bound + 1) s = .done (.pass span) u ∧ u.Ready back := by
  have hpeek : s.peek.kind = .keyword .pass := by rw [hs.peek, hw]
  have hnext : s.advance.peek.kind = .newline := by rw [hs.advance.peek, hnewline]
  refine ⟨s.peek.span.merge s.advance.last, s.advance.advance, ?_, hs.advance.advance⟩
  show statementWith (statementUpTo bound) s = _
  have hlineEnd : lineEnd s.advance = .done () s.advance.advance := by simp only [lineEnd, hnext]
  have hbody : simpleBody s = .done (.pass (s.peek.span.merge s.advance.last)) s.advance := by
    unfold simpleBody
    simp only [bind_apply, here, kind, hpeek]
    rfl
  unfold statementWith
  rw [bind_apply]
  simp only [kind, hpeek]
  rw [simple, bind_apply, hbody]
  simp only [bind_apply, hlineEnd]
  rfl

end

/-! ## `pass` in its place -/

section

variable {w w' newline newline' : Token} {first hanging others back back' : List Token}

theorem continuesTry_word (stmt : RefusedStmt) : continuesTry (.reserved stmt.word) = false := by
  cases stmt <;> decide

/-- The stretch may be a `pass`. Behind it the end of an empty line may be missing on the second side. -/
theorem seam_of_reach (h : Reach stmt (first.map (·.kind)) (hanging.map (·.kind)) (others.map (·.kind)))
    (hback : Unattached stmt (back.map (·.kind))) (hw : w.kind = .reserved stmt.word)
    (hnewline : newline.kind = .newline) (hw' : w'.kind = .keyword .pass) (hnewline' : newline'.kind = .newline)
    (hkinds : back'.map (·.kind) = back.map (·.kind) ∨ back.map (·.kind) = .newline :: back'.map (·.kind))
    (hkept : Kept drop 0 back) (hdrop : drop (lineSpan w first) = true) :
    Seam drop (w :: first ++ newline :: (hanging ++ (others ++ back))) (w' :: newline' :: back') where
  plain hs := by
    obtain ⟨hs, hs'⟩ := atSeam_iff.1 hs
    rw [hs.peek, hs'.peek, hw, hw']
    exact ⟨⟨rfl, nofun⟩, rfl, nofun⟩
  statement bound bound' := by
    intro s s' t a hs hdone _ hne
    obtain ⟨hs, hs'⟩ := atSeam_iff.1 hs
    cases bound with
    | zero => cases hdone
    | succ bound =>
        cases bound' with
        | zero => exact absurd rfl hne
        | succ bound' =>
            obtain ⟨u, hone, hu⟩ := statement_refused h hback hw hnewline hs bound
            obtain ⟨span, u', hother, hu'⟩ := statement_pass hw' hnewline' hs' bound'
            cases hone.symm.trans hdone
            have hlevel := (atSeam_iff.2 ⟨hu, hu'⟩).toLevel
            refine ⟨.pass span, u', hother, passes_pass hdrop stmt, ?_⟩
            obtain hkinds | hkinds := hkinds
            · exact .inl ⟨hlevel, by rw [hu.rest, hu'.rest, hkinds], hu.rest ▸ hkept⟩
            · obtain ⟨empty, rest, rfl, hempty, hrest⟩ := List.map_eq_cons_iff.1 hkinds
              exact .inr ⟨hlevel, ⟨empty, rest, hu.rest, hempty, by rw [hu'.rest, hrest]⟩, hu.rest ▸ hkept⟩
  chainRest bound bound' more more' := by
    unfold Parser.chainRest
    refine agrees_kind (peek_of_atSeam hw hw') ?_
    exact Follows.all (.pure rfl fun _ _ hs => .inr hs)
  loopElse bound bound' := by
    intro s s' t a hs hdone _ _
    obtain ⟨hpeek, hpeek'⟩ := peek_of_atSeam hw hw' s s' hs
    have hone : loopElse (statementUpTo bound) s = .done none s := eat_bind_of_ne (by rw [hpeek]; exact nofun) _
    have hother : loopElse (statementUpTo bound') s' = .done none s' := eat_bind_of_ne (by rw [hpeek']; exact nofun) _
    cases hone.symm.trans hdone
    exact ⟨none, s', hother, .none, .inr hs⟩
  definition bound bound' _ _ _ := by
    unfold Parser.definition
    refine agrees_kind (peek_of_atSeam hw hw') ?_
    exact agrees_fail _
  skip bound bound' depth := by
    have hused : depthBehind (depth + 1) ((w :: first ++ newline :: hanging ++ others).map (·.kind)) =
        some (depth + 1) := by
      have heq := h.depthBehind_eq depth
      rwa [← hw, ← hnewline, ← List.map_cons, ← List.map_cons, ← List.map_append, ← List.map_append] at heq
    have hused' : depthBehind (depth + 1) ([w', newline'].map (·.kind)) = some (depth + 1) := by
      rw [List.map_cons, List.map_singleton, hw', hnewline']
      rfl
    obtain hkinds | hkinds := hkinds
    · have hagrees := agrees_skip hkinds hkept hused hused' bound bound'
      simpa only [List.append_assoc, List.cons_append, List.nil_append] using hagrees
    · obtain ⟨empty, rest, rfl, hempty, hrest⟩ := List.map_eq_cons_iff.1 hkinds
      have hmore : depthBehind (depth + 1) ((w :: first ++ newline :: hanging ++ others ++ [empty]).map (·.kind)) =
          some (depth + 1) := by
        rw [List.map_append, depthBehind_append, hused, List.map_singleton, hempty]
        rfl
      have hagrees := agrees_skip hrest.symm (hkept.suffix (List.suffix_cons _ _)) hmore hused' bound bound'
      simpa only [List.append_assoc, List.cons_append, List.nil_append] using hagrees
  tryStep := by
    unfold Parser.tryStep
    refine agrees_kind (peek_of_atSeam hw hw') ?_
    rw [if_neg (by simp [continuesTry_word]), if_neg (by decide)]
    exact Follows.all (.pure (.inr rfl) fun _ _ hs => .inr hs)

end

/-! ## `pass` in a source -/

theorem first_merge_eq {a b : Span} (h : ¬ b.first.before a.first = true) : (a.merge b).first = a.first := by
  rw [Span.merge, Pos.earlier, if_neg h]

section

variable {text : String} {front first hanging others back : List Token} {w newline : Token}

/-- Spans that start where another token does are not that of the statement. -/
theorem kept_of_starts {tokens : List Token} {span : Span} {floor : Nat} (htokens : tokens <:+ (lex text).tokens)
    (hne : ∀ t more, t :: more <:+ tokens → floor ≤ more.length → t.kind.isLayout = false → t.span.first ≠ span.first) :
    Kept (· == span) floor tokens := by
  intro t more hsuffix hroom hword u hu
  obtain ⟨front, hfront⟩ := hsuffix.trans htokens
  have horder : ¬ u.span.first.before t.span.first = true := by
    obtain rfl | hu := List.mem_cons.1 hu
    · exact Pos.not_before_self _
    · exact not_before_lex hfront.symm hword u hu
  refine beq_false_of_ne fun heq => hne t more hsuffix hroom hword ?_
  rw [← heq, first_merge_eq horder]

theorem first_lineSpan (htokens : (lex text).tokens = front ++ (w :: first ++ back)) (hw : w.kind.isLayout = false) :
    (lineSpan w first).first = w.span.first := by
  refine first_merge_eq ?_
  rw [List.getLastD_eq_getLast?]
  cases hlast : first.getLast? with
  | none => exact Pos.not_before_self _
  | some u => exact not_before_lex htokens hw u (List.mem_append_left _ (List.mem_of_getLast? hlast))

/-- Other tokens start elsewhere. -/
theorem first_ne_of_lex {t : Token} {more : List Token} (htokens : (lex text).tokens = front ++ w :: more)
    (hw : w.kind.isLayout = false) (ht : t ∈ front ∨ t ∈ more) (hword : t.kind.isLayout = false) :
    t.span.first ≠ w.span.first := by
  have hnodup := nodup_starts_lex text
  rw [htokens, starts_append, List.nodup_append] at hnodup
  have hrest : starts (w :: more) = w.span.first :: starts more := by rw [starts, worded_cons hw]; rfl
  have hmem : ∀ ts : List Token, t ∈ ts → t.span.first ∈ starts ts :=
    fun ts hts => List.mem_map_of_mem (mem_worded.2 ⟨hts, hword⟩)
  rw [hrest] at hnodup
  obtain ht | ht := ht
  · exact hnodup.2.2 _ (hmem front ht) _ List.mem_cons_self
  · exact fun heq => (List.nodup_cons.1 hnodup.2.1).1 (heq ▸ hmem more ht)

/-- A refused statement on lines of its own, and a `pass` in its place. -/
theorem parse_pass {m : Module} {tokens' : List Token} {rest : List TokenKind}
    (htokens : (lex text).tokens = front ++ (w :: first ++ newline :: (hanging ++ (others ++ back))))
    (hfront : ∀ t ∈ front.getLast?, t.kind.isLayout = true)
    (h : Reach stmt (first.map (·.kind)) (hanging.map (·.kind)) (others.map (·.kind)))
    (hback : Unattached stmt (back.map (·.kind))) (hw : w.kind = .reserved stmt.word)
    (hnewline : newline.kind = .newline) (hm : (parse (lex text).tokens).module? = some m)
    (htokens' : tokens'.map (·.kind) = front.map (·.kind) ++ .keyword .pass :: .newline :: rest)
    (hrest : rest = back.map (·.kind) ∨ back.map (·.kind) = .newline :: rest) :
    ∃ m', (parse tokens').module? = some m' ∧ m'.spanless = (m.passing (· == lineSpan w first)).spanless := by
  have hword : w.kind.isLayout = false := by rw [hw]; rfl
  have hsplit : (lex text).tokens = front ++ w :: (first ++ newline :: (hanging ++ (others ++ back))) := htokens
  have hspan := first_lineSpan htokens hword
  obtain ⟨front', rest', rfl, hfront', hrest'⟩ := List.map_eq_append_iff.1 htokens'
  obtain ⟨w', rest', rfl, hw', hrest'⟩ := List.map_eq_cons_iff.1 hrest'
  obtain ⟨newline', back', rfl, hnewline', rfl⟩ := List.map_eq_cons_iff.1 hrest'
  have hkept : Kept (· == lineSpan w first) 0 back := by
    have hsuffix : back <:+ (lex text).tokens :=
      htokens ▸ ⟨front ++ (w :: first ++ newline :: (hanging ++ others)), by simp⟩
    refine kept_of_starts hsuffix fun t more ht _ hworded => ?_
    rw [hspan]
    exact first_ne_of_lex hsplit hword (.inr (by simp [ht.subset List.mem_cons_self])) hworded
  have hseam := seam_of_reach h hback hw hnewline hw' hnewline' hrest hkept (beq_self_eq_true _)
  rw [htokens] at hm
  refine parse_of_seam hseam ⟨?_, ?_⟩ hfront' ?_ hm
  · intro k hk
    rw [List.getLast?_map, Option.mem_map] at hk
    obtain ⟨t, ht, rfl⟩ := hk
    exact hfront t ht
  · have hchain := indents_lex text
    rw [htokens, List.map_append] at hchain
    exact hchain.left_of_append
  · refine kept_of_starts (by rw [htokens]) fun t more ht hroom hworded => ?_
    rw [hspan]
    refine first_ne_of_lex hsplit hword (.inl ?_) hworded
    obtain ⟨used, hused⟩ := List.suffix_of_suffix_length_le (List.suffix_append front _)
      ((List.suffix_cons t more).trans ht) hroom
    obtain ⟨pre, hpre⟩ := ht
    rw [← hused, ← List.cons_append, ← List.append_assoc] at hpre
    rw [← List.append_cancel_right hpre]
    simp

end

end ViewSync.Parser
