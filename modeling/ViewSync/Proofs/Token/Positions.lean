import ViewSync.Token.Lex

/-!
# ViewSync.Proofs.Token.Positions

Tokens with a text of their own stand one behind the other: each starts behind the start of the one before it
(`starts_lex`). Every reader only moves its cursor forward (`Cursor.Reaches`), and a lexeme that gives a token has
moved it by at least one character.
-/

namespace ViewSync

/-! ## positions -/

namespace Pos

theorem before_iff {a b : Pos} :
    a.before b = true ↔ a.line < b.line ∨ a.line = b.line ∧ a.col < b.col := by
  simp [before]

theorem before_trans {a b c : Pos} (hab : a.before b = true) (hbc : b.before c = true) :
    a.before c = true := by
  rw [before_iff] at *
  omega

theorem trichotomy (a b : Pos) : a.before b = true ∨ a = b ∨ b.before a = true := by
  obtain ⟨line, col⟩ := a
  obtain ⟨line', col'⟩ := b
  simp only [before_iff, Pos.mk.injEq]
  omega

theorem not_before_self (a : Pos) : ¬ a.before a = true := by
  simp [before]

theorem before_after (p : Pos) (c : Char) : p.before (p.after c) = true := by
  have hsize := c.utf8Size_pos
  rw [before_iff, after]
  split
  · exact .inl (Nat.lt_succ_self _)
  · exact .inr ⟨rfl, by simpa using hsize⟩

end Pos

/-! ## cursors move forward -/

namespace Cursor

/-- A cursor that some characters lead to. -/
def Reaches (cur next : Cursor) : Prop :=
  ∃ n, next = cur.advance n

theorem advance_of_nil {cur : Cursor} (h : cur.rest = []) (n : Nat) : cur.advance n = cur := by
  cases n with
  | zero => rfl
  | succ n => rw [advance, h]

theorem advance_advance (m n : Nat) (cur : Cursor) : (cur.advance m).advance n = cur.advance (m + n) := by
  induction m generalizing cur with
  | zero => rw [advance_zero, Nat.zero_add]
  | succ m ih =>
      cases hrest : cur.rest with
      | nil => rw [advance_of_nil hrest, advance_of_nil hrest, advance_of_nil hrest]
      | cons c cs =>
          rw [Nat.add_right_comm, advance, advance]
          simp only [hrest]
          exact ih _

theorem reaches_advance (n : Nat) (cur : Cursor) : cur.Reaches (cur.advance n) := ⟨n, rfl⟩

theorem reaches_self (cur : Cursor) : cur.Reaches cur := ⟨0, rfl⟩

theorem Reaches.trans {a b c : Cursor} (hab : a.Reaches b) (hbc : b.Reaches c) : a.Reaches c := by
  obtain ⟨m, rfl⟩ := hab
  obtain ⟨n, rfl⟩ := hbc
  exact ⟨m + n, advance_advance m n a⟩

/-- A cursor stays or moves to a later position. -/
theorem Reaches.pos {cur next : Cursor} (h : cur.Reaches next) :
    next = cur ∨ cur.pos.before next.pos = true := by
  obtain ⟨n, rfl⟩ := h
  induction n generalizing cur with
  | zero => exact .inl rfl
  | succ n ih =>
      cases hrest : cur.rest with
      | nil => exact .inl (advance_of_nil hrest _)
      | cons c cs =>
          have hfirst := cur.pos.before_after c
          simp only [advance, hrest]
          obtain heq | hlater := @ih ⟨cs, cur.pos.after c⟩
          · exact .inr (by rwa [heq])
          · exact .inr (Pos.before_trans hfirst hlater)

theorem Reaches.pos_of_lt {cur next : Cursor} (h : cur.Reaches next)
    (hlt : next.rest.length < cur.rest.length) : cur.pos.before next.pos = true := by
  obtain rfl | hlater := h.pos
  · exact absurd hlt (Nat.lt_irrefl _)
  · exact hlater

/-- What stands in front of a cursor stands in front of those that it reaches. -/
theorem Reaches.before {cur next : Cursor} (h : cur.Reaches next) {p : Pos}
    (hp : p.before cur.pos = true) : p.before next.pos = true := by
  obtain rfl | hlater := h.pos
  · exact hp
  · exact Pos.before_trans hp hlater

end Cursor

/-! ## lexemes move the cursor forward -/

open Cursor

theorem reaches_scanEscape (start : Pos) (cur : Cursor) : cur.Reaches (scanEscape start cur).next := by
  have hone := reaches_advance 1 cur
  unfold scanEscape
  split
  · exact reaches_self cur
  · simp only
    split
    all_goals first
      | exact hone
      | simp only [scanNumberedEscape]; split <;> exact hone.trans (reaches_advance _ _)

theorem reaches_scanBody (quote : Char) (triple : Bool) (cur : Cursor) :
    cur.Reaches (scanBody quote triple cur).next := by
  fun_induction scanBody quote triple cur with
  | case1 cur => exact reaches_self cur
  | case2 cur => exact reaches_self cur
  | case3 cur => exact reaches_advance 1 cur
  | case4 cur => exact reaches_advance 3 cur
  | case5 cur c cs h _ _ _ _ escape ih =>
      exact ((reaches_advance 1 cur).trans (reaches_scanEscape cur.pos _)).trans ih
  | case6 cur c cs h _ _ _ _ ih => exact (reaches_advance 1 cur).trans ih

theorem reaches_scanNumber (cur : Cursor) : cur.Reaches (scanNumber cur).next := by
  unfold scanNumber
  split
  · split
    · simp only
      split <;> exact reaches_advance _ cur
    · exact reaches_advance _ cur
  · exact reaches_advance _ cur

theorem reaches_scanJoin (cur : Cursor) : cur.Reaches (scanJoin cur).next := by
  have hone := reaches_advance 1 cur
  unfold scanJoin
  simp only
  split <;> split
  · exact (hone.trans (reaches_advance 1 _)).trans (reaches_advance 1 _)
  · exact hone.trans (reaches_advance 1 _)
  · exact hone.trans (reaches_advance 1 _)
  · exact hone

theorem reaches_scanHere (cur : Cursor) : cur.Reaches (scanHere cur).next := by
  unfold scanHere
  split
  · exact reaches_self cur
  · split
    · exact reaches_advance 1 cur
    split
    · exact (reaches_advance 1 cur).trans (reaches_advance _ _)
    split
    · exact reaches_scanJoin cur
    split
    · exact (reaches_advance _ cur).trans (reaches_scanBody _ _ _)
    split
    · exact reaches_scanNumber cur
    split
    · exact reaches_advance _ cur
    · unfold scanOperator
      split <;> exact reaches_advance _ cur

/-- A lexeme starts where the cursor is or behind it, and its end is reached. -/
theorem reaches_scan (cur : Cursor) :
    ∃ mid, cur.Reaches mid ∧ (scan cur).1 = mid.pos ∧ (scan cur).2 = scanHere mid :=
  ⟨cur.skipWhile isSpace, reaches_advance _ cur, rfl, rfl⟩

/-- Where nothing is left there is no token. -/
theorem rest_ne_nil_of_token {cur : Cursor} {kind : TokenKind} (h : (scanHere cur).lexeme = .token kind) :
    cur.rest ≠ [] := by
  intro hrest
  rw [scanHere, hrest] at h
  cases h

/-! ## tokens with a text -/

/-- The tokens with a text of their own. -/
def worded (tokens : List Token) : List Token :=
  tokens.filter fun t => !t.kind.isLayout

/-- Where the tokens with a text of their own start. -/
def starts (tokens : List Token) : List Pos :=
  (worded tokens).map (·.span.first)

theorem mem_worded {t : Token} {tokens : List Token} :
    t ∈ worded tokens ↔ t ∈ tokens ∧ t.kind.isLayout = false := by
  simp [worded]

theorem worded_cons_layout {t : Token} (h : t.kind.isLayout = true) (ts : List Token) :
    worded (t :: ts) = worded ts := by
  simp [worded, h]

theorem worded_cons {t : Token} (h : t.kind.isLayout = false) (ts : List Token) :
    worded (t :: ts) = t :: worded ts := by
  simp [worded, h]

theorem worded_eq_self {ts : List Token} (h : ∀ t ∈ ts, t.kind.isLayout = false) : worded ts = ts :=
  List.filter_eq_self.2 fun t ht => by rw [h t ht]; rfl

@[simp] theorem starts_append (ts us : List Token) : starts (ts ++ us) = starts ts ++ starts us := by
  simp [starts, worded]

namespace Lexer

/-- Layout tokens leave the other tokens as they are. -/
theorem worded_push_layout (lx : Lexer) {kind : TokenKind} (h : kind.isLayout = true) (span : Span) :
    worded (lx.push kind span).tokens = worded lx.tokens :=
  worded_cons_layout h lx.tokens

theorem worded_foldl_dedent (closed : List Nat) (lx : Lexer) :
    worded (closed.foldl (fun acc _ => acc.push .dedent acc.here) lx).tokens = worded lx.tokens := by
  induction closed generalizing lx with
  | nil => rfl
  | cons _ closed ih => rw [List.foldl_cons, ih, worded_push_layout _ rfl]

theorem worded_layout (lx : Lexer) (width : Nat) : worded (lx.layout width).tokens = worded lx.tokens := by
  unfold layout
  split
  · exact worded_push_layout lx rfl _
  · simp only
    split <;> exact worded_foldl_dedent _ lx

theorem worded_measure (lx : Lexer) : worded lx.measure.tokens = worded lx.tokens := by
  unfold measure
  simp only
  split
  · rfl
  · rw [worded_layout]

theorem reaches_measure (lx : Lexer) : lx.cursor.Reaches lx.measure.cursor := by
  unfold measure
  simp only
  split
  · exact reaches_advance _ _
  · rw [(cursor_layout _ _).1]
    exact reaches_advance _ _

theorem worded_endLine (lx : Lexer) (span : Span) : worded (lx.endLine span).tokens = worded lx.tokens := by
  unfold endLine
  split
  · rfl
  · simp only
    split
    · exact worded_push_layout lx rfl span
    · rfl

theorem worded_close (lx : Lexer) : worded lx.close.tokens = worded lx.tokens := by
  unfold close
  simp only
  rw [worded_push_layout _ rfl, worded_foldl_dedent]
  split
  · exact worded_push_layout lx rfl _
  · rfl

theorem tokens_close_eq (lx : Lexer) : lx.close.tokens =
    (⟨.eof, lx.here⟩ :: (List.replicate lx.widths.length ⟨.dedent, lx.here⟩ ++
      if lx.inLine then [⟨.newline, lx.here⟩] else [])) ++ lx.tokens := by
  rw [close_eq]
  simp only [List.append_assoc, List.cons_append]

/-- What is put at the end of a source stands there. -/
theorem tokens_close_here (lx : Lexer) :
    ∃ new, lx.close.tokens = new ++ lx.tokens ∧ ∀ t ∈ new, t.span = lx.here := by
  have hdedents : ∀ t ∈ List.replicate lx.widths.length (⟨.dedent, lx.here⟩ : Token), t.span = lx.here :=
    fun t ht => congrArg Token.span (List.eq_of_mem_replicate ht)
  have hline : ∀ t ∈ if lx.inLine then [(⟨.newline, lx.here⟩ : Token)] else [], t.span = lx.here := by
    split
    · exact List.forall_mem_singleton.2 rfl
    · exact List.forall_mem_nil _
  exact ⟨_, tokens_close_eq lx, List.forall_mem_cons.2 ⟨rfl, List.forall_mem_append.2 ⟨hdedents, hline⟩⟩⟩

/-- What a step does: it moves the cursor forward, or it adds a token that stands at some place ahead and goes on
behind it. -/
theorem step_cases (lx : Lexer) :
    (worded lx.step.tokens = worded lx.tokens ∧ lx.cursor.Reaches lx.step.cursor) ∨
      ∃ mid kind, lx.cursor.Reaches mid ∧ (scanHere mid).lexeme = .token kind ∧
        lx.step.cursor = (scanHere mid).next ∧
        worded lx.step.tokens = ⟨kind, (scanHere mid).next.spanFrom mid.pos⟩ :: worded lx.tokens := by
  unfold step
  split
  · exact .inl ⟨worded_measure lx, reaches_measure lx⟩
  · obtain ⟨mid, hmid, hstart, hscanned⟩ := reaches_scan lx.cursor
    have hnext : lx.cursor.Reaches (scanHere mid).next := hmid.trans (reaches_scanHere mid)
    rw [lexeme, hstart, hscanned, cursor_accept]
    cases hlexeme : (scanHere mid).lexeme with
    | trivia => exact .inl ⟨by simp only [accept, hlexeme], hnext⟩
    | lineEnd =>
        refine .inl ⟨?_, hnext⟩
        simp only [accept, hlexeme]
        exact worded_endLine _ _
    | token kind =>
        by_cases hlayout : kind.isLayout = true
        · refine .inl ⟨?_, hnext⟩
          simp only [accept, hlexeme]
          exact worded_push_layout _ hlayout _
        · refine .inr ⟨mid, kind, hmid, hlexeme, rfl, ?_⟩
          simp only [accept, hlexeme]
          exact worded_cons (Bool.eq_false_iff.2 hlayout) _

/-- Measuring a line keeps the faults so far. -/
theorem faults_measure (lx : Lexer) : lx.faults <:+ lx.measure.faults := by
  unfold measure layout
  simp only [foldl_dedent]
  split
  · exact List.suffix_rfl
  split
  · exact List.suffix_rfl
  split
  · exact List.suffix_rfl
  · exact List.suffix_cons _ _

theorem faults_accept (lx : Lexer) (start : Pos) (scanned : Scanned) :
    (lx.accept start scanned).faults = scanned.faults.reverse ++ lx.faults := by
  unfold accept endLine
  simp only
  split
  · rfl
  · split
    · rfl
    · simp only
      split <;> rfl
  · rfl

theorem faults_step (lx : Lexer) : lx.faults <:+ lx.step.faults := by
  unfold step
  split
  · exact faults_measure lx
  · rw [lexeme, faults_accept]
    exact List.suffix_append _ _

theorem faults_run (lx : Lexer) : lx.faults <:+ lx.run.faults := by
  fun_induction run lx with
  | case1 lx _ => exact List.suffix_rfl
  | case2 lx _ ih => exact lx.faults_step.trans ih

end Lexer

/-- The tokens of a source are those of the run in reverse. -/
theorem worded_lex (text : String) :
    worded (lex text).tokens = (worded (Lexer.start text).run.tokens).reverse := by
  rw [← Lexer.worded_close, lex, worded, worded, List.filter_reverse]

/-! ## tokens in order -/

namespace Lexer

/-- The tokens so far, newest first, start one in front of the other, and all of them in front of the
cursor. -/
structure InOrder (lx : Lexer) : Prop where
  pairwise : (starts lx.tokens).Pairwise fun a b => b.before a = true
  passed : ∀ p ∈ starts lx.tokens, p.before lx.cursor.pos = true

theorem inOrder_step {lx : Lexer} (h : lx.InOrder) : lx.step.InOrder := by
  obtain ⟨htokens, hcursor⟩ | ⟨mid, kind, hmid, hlexeme, hcursor, htokens⟩ := lx.step_cases
  · have hstarts : starts lx.step.tokens = starts lx.tokens := congrArg (List.map _) htokens
    exact ⟨hstarts ▸ h.pairwise, fun p hp => hcursor.before (h.passed p (hstarts ▸ hp))⟩
  · have hfirst : ∀ p ∈ starts lx.tokens, p.before mid.pos = true :=
      fun p hp => hmid.before (h.passed p hp)
    have hpast : mid.pos.before (scanHere mid).next.pos = true :=
      (reaches_scanHere mid).pos_of_lt (length_rest_scanHere_lt (rest_ne_nil_of_token hlexeme))
    have hstarts : starts lx.step.tokens = mid.pos :: starts lx.tokens := congrArg (List.map _) htokens
    refine ⟨?_, ?_⟩
    · rw [hstarts]
      exact List.pairwise_cons.2 ⟨hfirst, h.pairwise⟩
    · rw [hstarts, hcursor]
      intro p hp
      obtain rfl | hp := List.mem_cons.1 hp
      · exact hpast
      · exact Pos.before_trans (hfirst p hp) hpast

theorem inOrder_run {lx : Lexer} (h : lx.InOrder) : lx.run.InOrder := by
  fun_induction run lx with
  | case1 lx _ => exact h
  | case2 lx _ ih => exact ih (inOrder_step h)

end Lexer

/-- The tokens of a source that have a text of their own start one behind the other. -/
theorem starts_lex (text : String) :
    (starts (lex text).tokens).Pairwise fun a b => a.before b = true := by
  have horder : (Lexer.start text).run.InOrder :=
    Lexer.inOrder_run ⟨List.Pairwise.nil, fun p hp => absurd hp List.not_mem_nil⟩
  rw [starts, worded_lex, List.map_reverse, List.pairwise_reverse]
  exact horder.pairwise

/-- They start at different positions. -/
theorem nodup_starts_lex (text : String) : (starts (lex text).tokens).Nodup := by
  refine (starts_lex text).imp fun {a b} hbefore heq => ?_
  exact Pos.not_before_self b (heq ▸ hbefore)

end ViewSync
