import ViewSync.Proofs.Token.Layout

/-!
# ViewSync.Proofs.Token.Blocks

Blocks in stretches of tokens. `Opened used n` says that behind the tokens `used` there are `n` more open blocks than in
front of them, and that no block was closed that had been open before. In the tokens of a source a block starts at the
front or behind the end of a line (`indents_lex`).
-/

namespace ViewSync

/-! ## open blocks -/

/-- Behind some tokens so many more blocks are open than in front of them, and none was closed that had been open
before. -/
structure Opened (used : List Token) (n : Nat) : Prop where
  kept : ∀ front, front <+: used.map (·.kind) → front.count .dedent ≤ front.count .indent
  count : (used.map (·.kind)).count .indent = (used.map (·.kind)).count .dedent + n

section opened

variable {used more : List Token} {t : Token} {m n : Nat}

theorem opened_nil : Opened [] 0 where
  kept front hfront := by
    rw [List.map_nil, List.prefix_nil] at hfront
    rw [hfront]
    exact Nat.le_refl _
  count := rfl

theorem opened_indent (h : t.kind = .indent) : Opened [t] 1 where
  kept front hfront := by
    rw [List.map_singleton, h, List.prefix_cons_iff] at hfront
    obtain rfl | ⟨rest, rfl, hrest⟩ := hfront
    · exact Nat.le_refl _
    · rw [List.prefix_nil.1 hrest]
      decide
  count := by rw [List.map_singleton, h]; rfl

theorem opened_other (hindent : t.kind ≠ .indent) (hdedent : t.kind ≠ .dedent) : Opened [t] 0 where
  kept front hfront := by
    rw [List.map_singleton, List.prefix_cons_iff] at hfront
    obtain rfl | ⟨rest, rfl, hrest⟩ := hfront
    · exact Nat.le_refl _
    · rw [List.prefix_nil.1 hrest, List.count_singleton, List.count_singleton, if_neg (by simpa using hdedent)]
      exact Nat.zero_le _
  count := by simp [hindent, hdedent]

theorem Opened.append (h : Opened used m) (h' : Opened more n) : Opened (used ++ more) (m + n) where
  kept front hfront := by
    have hcount := h.count
    rw [List.map_append] at hfront
    obtain hinside | ⟨rest, rfl⟩ := List.prefix_or_prefix_of_prefix hfront (List.prefix_append _ _)
    · exact h.kept front hinside
    · have hrest := h'.kept rest ((List.prefix_append_right_inj _).1 hfront)
      rw [List.count_append, List.count_append]
      omega
  count := by
    have hcount := h.count
    have hcount' := h'.count
    rw [List.map_append, List.count_append, List.count_append]
    omega

/-- The innermost of the open blocks is closed. -/
theorem Opened.close (h : Opened used (n + 1)) (ht : t.kind = .dedent) : Opened (used ++ [t]) n := by
  have hcount := h.count
  have hindents : ((used ++ [t]).map (·.kind)).count .indent = (used.map (·.kind)).count .indent := by
    simp [ht]
  have hdedents : ((used ++ [t]).map (·.kind)).count .dedent = (used.map (·.kind)).count .dedent + 1 := by
    simp [ht]
  refine ⟨fun front hfront => ?_, by omega⟩
  rw [List.map_append, List.map_singleton, List.prefix_concat_iff] at hfront
  obtain rfl | hinside := hfront
  · rw [List.map_append, List.map_singleton] at hindents hdedents
    omega
  · exact h.kept front hinside

theorem opened_of_forall (h : ∀ t ∈ used, t.kind ≠ .indent ∧ t.kind ≠ .dedent) : Opened used 0 := by
  induction used with
  | nil => exact opened_nil
  | cons t rest ih =>
      obtain ⟨⟨hindent, hdedent⟩, hrest⟩ := List.forall_mem_cons.1 h
      exact (opened_other hindent hdedent).append (ih hrest)

end opened

/-! ## where blocks start -/

/-- A block starts behind the end of a line. -/
def MayOpen (earlier later : TokenKind) : Prop :=
  later = .indent → earlier = .newline

/-- The tokens so far, latest first, keep to that. -/
def OpenedByLines (kinds : List TokenKind) : Prop :=
  kinds.IsChain fun later earlier => MayOpen earlier later

section

variable {kind : TokenKind} {kinds : List TokenKind}

theorem OpenedByLines.cons (h : OpenedByLines kinds) (hkind : kind ≠ .indent) : OpenedByLines (kind :: kinds) := by
  cases kinds with
  | nil => exact List.IsChain.singleton _
  | cons k kinds => exact List.IsChain.cons_cons (fun heq => absurd heq hkind) h

theorem OpenedByLines.dedents (h : OpenedByLines kinds) (n : Nat) :
    OpenedByLines (List.replicate n .dedent ++ kinds) := by
  induction n with
  | zero => exact h
  | succ n ih => exact ih.cons (by decide)

end

namespace Lexer

variable {lx : Lexer}

/-- The tokens so far keep to it, and a line is measured only where the line before has been ended. -/
structure LinesStart (lx : Lexer) : Prop where
  opened : OpenedByLines (lx.tokens.map (·.kind))
  ended : lx.atLineStart = true → lx.inLine = false

/-- A line that opens a block does so behind the end of a line. -/
theorem LinesStart.indent (h : lx.LinesStart) (hline : lx.atLineStart = true) :
    OpenedByLines (.indent :: lx.tokens.map (·.kind)) := by
  have hended := h.ended hline
  have hopened := h.opened
  unfold inLine at hended
  cases htokens : lx.tokens with
  | nil => exact List.IsChain.singleton _
  | cons t rest =>
      rw [htokens] at hended hopened
      exact List.IsChain.cons_cons (fun _ => by simpa using hended) hopened

theorem linesStart_measure (h : lx.LinesStart) (hline : lx.atLineStart = true) : lx.measure.LinesStart := by
  have hindent := h.indent hline
  unfold measure layout
  simp only [foldl_dedent]
  split
  · exact ⟨h.opened, fun hstart => by cases hstart⟩
  split
  · exact ⟨hindent, fun hstart => by cases hstart⟩
  split <;> exact ⟨by simpa using h.opened.dedents _, fun hstart => by cases hstart⟩

theorem linesStart_lexeme (h : lx.LinesStart) (hline : lx.atLineStart = false) : lx.lexeme.LinesStart := by
  rw [lexeme, accept]
  cases hlexeme : (scan lx.cursor).2.lexeme with
  | trivia => exact ⟨h.opened, fun hstart => absurd hstart (by simp [hline])⟩
  | token kind =>
      have hlayout := TokenKind.isLayout_of_textual (textual_scanHere hlexeme)
      have hkind : kind ≠ .indent := by
        rintro rfl
        cases hlayout
      exact ⟨h.opened.cons hkind, fun hstart => absurd hstart (by simp [push, hline])⟩
  | lineEnd =>
      simp only [endLine]
      split
      · exact ⟨h.opened, fun hstart => absurd hstart (by simp [hline])⟩
      split
      · exact ⟨h.opened.cons (by simp), fun _ => rfl⟩
      · next hin => exact ⟨h.opened, fun _ => by simpa [inLine] using hin⟩

theorem linesStart_run (h : lx.LinesStart) : lx.run.LinesStart := by
  fun_induction run lx with
  | case1 lx _ => exact h
  | case2 lx _ ih =>
      refine ih ?_
      unfold step
      split
      · exact linesStart_measure h ‹_›
      · next hline => exact linesStart_lexeme h (by simpa using hline)

end Lexer

/-- A block starts at the front of a source or behind the end of a line. -/
theorem indents_lex (text : String) : ((lex text).tokens.map (·.kind)).IsChain MayOpen := by
  have hrun : (Lexer.start text).run.LinesStart := Lexer.linesStart_run ⟨List.IsChain.nil, fun _ => rfl⟩
  have hended : OpenedByLines ((if (Lexer.start text).run.inLine = true then [.newline] else []) ++
      (Lexer.start text).run.tokens.map (·.kind)) := by
    split
    · exact hrun.opened.cons (by decide)
    · exact hrun.opened
  rw [lex, List.map_reverse, List.isChain_reverse, Lexer.kinds_close_eq]
  exact (hended.dedents _).cons (by decide)

end ViewSync
