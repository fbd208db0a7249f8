import ViewSync.Proofs.Token.Passed

/-!
# ViewSync.Proofs.Token.Stretches

The lines that some tokens of a text stand on. Where these tokens start with a logical line and open as many blocks as
they close, a line with nothing but `pass` on it may stand in place of the lines, and the tokens in front of them and
behind them stay of the same kinds (`lex_passed`).
-/

namespace ViewSync

/-- A token that opens or closes a block. -/
def Token.isBlock (t : Token) : Bool :=
  t.kind == .indent || t.kind == .dedent

theorem Token.isBlock_iff {t : Token} : t.isBlock = true ↔ t.kind = .indent ∨ t.kind = .dedent := by
  simp [isBlock]

/-- Layout is the start or the end of a block, but for the ends of lines and of the text. -/
theorem Token.isBlock_of_isLayout {t : Token} (h : t.kind.isLayout = true) (hnewline : t.kind ≠ .newline)
    (heof : t.kind ≠ .eof) : t.isBlock = true := by
  rw [Token.isBlock_iff]
  cases hkind : t.kind with
  | newline => exact absurd hkind hnewline
  | eof => exact absurd hkind heof
  | indent => exact .inl rfl
  | dedent => exact .inr rfl
  | _ =>
      rw [hkind] at h
      cases h

theorem Token.isLayout_of_isBlock {t : Token} (h : t.isBlock = true) : t.kind.isLayout = true := by
  obtain heq | heq := isBlock_iff.1 h
  · rw [heq]
    rfl
  · rw [heq]
    rfl

theorem worded_append (ts us : List Token) : worded (ts ++ us) = worded ts ++ worded us :=
  List.filter_append ..

namespace Lexer

theorem comes_run (lx : Lexer) : Comes lx lx.run := by
  fun_induction run lx with
  | case1 lx _ => exact .here lx
  | case2 lx hlx ih => exact .step (by simpa using hlx) ih

theorem Comes.inOrder {lx lx' : Lexer} (h : Comes lx lx') (hlx : lx.InOrder) : lx'.InOrder := by
  induction h with
  | here => exact hlx
  | step _ _ ih => exact ih (inOrder_step hlx)

theorem inLine_of_isBlock {lx : Lexer} {t : Token} {ts : List Token} (h : lx.tokens = t :: ts) (ht : t.isBlock = true) :
    lx.inLine = true := by
  rw [inLine, h]
  dsimp only
  obtain heq | heq := Token.isBlock_iff.1 ht
  · rw [heq]
    rfl
  · rw [heq]
    rfl

theorem not_before_of_meets {cur : Cursor} {pos : Pos} (h : cur.Meets pos) : ¬ pos.before cur.pos = true := by
  obtain ⟨n, -, rfl⟩ := h
  obtain heq | hlater := (Cursor.reaches_advance n cur).pos
  · rw [heq]
    exact Pos.not_before_self _
  · exact fun hbefore => Pos.not_before_self _ (Pos.before_trans hlater hbefore)

/-- What is read behind a state starts behind it. -/
theorem Comes.starts_behind {lx lx' : Lexer} {later : List Token} (h : Comes lx lx')
    (hsplit : worded lx'.tokens = worded later ++ worded lx.tokens) :
    ∀ pos ∈ starts later, ¬ pos.before lx.cursor.pos = true := by
  obtain ⟨new, hnew, hmeets⟩ := h.reads.tokens
  rw [hnew, worded_append] at hsplit
  have hsame : worded new = worded later := List.append_cancel_right hsplit
  intro pos hpos
  rw [starts, ← hsame] at hpos
  obtain ⟨t, ht, rfl⟩ := List.mem_map.1 hpos
  exact not_before_of_meets (hmeets t (mem_worded.1 ht).1)

/-! ## the next logical line -/

/-- Behind the blocks in front of a logical line a lexer is within that line: at the first token that is no block, or at
the end of the text. -/
theorem comes_blocks {after : Lexer} {rest blocks : List Token} (hbetween : after.Between)
    (hrun : after.run.tokens = rest.reverse ++ (blocks.reverse ++ after.tokens))
    (hrest : ∀ t ∈ rest.head?, t.isBlock = false) (hin : rest = [] → after.run.inLine = true) :
    ∃ lx, Comes after lx ∧ lx.tokens = blocks.reverse ++ after.tokens ∧ lx.atLineStart = false ∧
      (lx.inLine = true ∨ lx.step.tokens ≠ lx.tokens) := by
  cases rest with
  | nil =>
      refine ⟨after.run, comes_run after, hrun, Bool.eq_false_iff.2 fun hstart => ?_, .inl (hin rfl)⟩
      exact absurd ((hin rfl).symm.trans (between_run hbetween hstart).1) (by decide)
  | cons u rest =>
      have hu := hrest u rfl
      have hindent : u.kind ≠ .indent := fun heq => by simp [Token.isBlock, heq] at hu
      have hdedent : u.kind ≠ .dedent := fun heq => by simp [Token.isBlock, heq] at hu
      rw [List.reverse_cons, List.append_assoc, List.singleton_append] at hrun
      obtain ⟨lx, hlx, -, htokens, hstep⟩ := comes_push hdedent hrun (List.suffix_append _ _)
      rw [← htokens] at hstep
      exact ⟨lx, hlx, htokens, atLineStart_of_pushed hindent hdedent hstep, .inr (by simp [hstep])⟩

/-- The lines in front of a logical line leave no tokens, as blocks are opened and closed by that line itself. -/
theorem tokens_of_blocks {after behind : Lexer} {blocks : List Token} (hcomes : Comes after behind)
    (hat : behind.AtHead) (hmeasure : behind.measure.tokens = blocks.reverse ++ after.tokens)
    (hblocks : ∀ t ∈ blocks, t.isBlock = true) : behind.tokens = after.tokens := by
  obtain ⟨extra, hextra, -⟩ := hcomes.reads.tokens
  obtain ⟨measured, hmeasured, -⟩ := tokens_measure behind
  cases extra with
  | nil => exact hextra
  | cons t extra =>
      have hmem : t ∈ blocks.reverse := by
        rw [hmeasured, hextra, ← List.append_assoc] at hmeasure
        rw [← List.append_cancel_right hmeasure]
        simp
      have hin := inLine_of_isBlock hextra (hblocks t (List.mem_reverse.1 hmem))
      exact absurd (hin.symm.trans (hat.between hat.atLineStart).1) (by decide)

/-- A logical line that is measured with nothing but blocks in front of it. -/
theorem comes_behind {after : Lexer} (hline : after.atLineStart = true) (hbetween : after.Between)
    (hlast : ∀ t ∈ after.tokens.head?, t.kind.isLayout = true) (hne : after.run.tokens ≠ after.tokens) :
    ∃ (behind : Lexer) (blocks more : List Token), Comes after behind ∧ behind.AtHead ∧ behind.tokens = after.tokens ∧
      behind.measure.tokens = blocks.reverse ++ after.tokens ∧ (∀ t ∈ blocks, t.isBlock = true) ∧
      after.run.close.tokens = more ++ (blocks.reverse ++ after.tokens) ∧ ∀ t ∈ more.getLast?, t.isBlock = false := by
  obtain ⟨new, hnew, -⟩ := after.reads_run.tokens
  -- Up to the first token that is no block, if there is one.
  have hsplit : new = (new.reverse.dropWhile (·.isBlock)).reverse ++ (new.reverse.takeWhile (·.isBlock)).reverse := by
    rw [← List.reverse_append, List.takeWhile_append_dropWhile, List.reverse_reverse]
  have hblocks : ∀ t ∈ new.reverse.takeWhile (·.isBlock), t.isBlock = true := fun t ht => List.mem_takeWhile_imp ht
  have hbehind : ∀ t ∈ (new.reverse.dropWhile (·.isBlock)).head?, t.isBlock = false := by
    intro t ht
    have hhead := List.head?_dropWhile_not (·.isBlock) new.reverse
    rw [Option.mem_def.1 ht] at hhead
    simpa using hhead
  generalize new.reverse.takeWhile (·.isBlock) = blocks at hsplit hblocks
  generalize new.reverse.dropWhile (·.isBlock) = rest at hsplit hbehind
  subst hsplit
  rw [List.append_assoc] at hnew
  have hlayout : ∀ t ∈ (blocks.reverse ++ after.tokens).head?, t.kind.isLayout = true := by
    intro t ht
    rcases List.eq_nil_or_concat blocks with rfl | ⟨front, u, rfl⟩
    · exact hlast t ht
    · obtain rfl : u = t := by simpa using ht
      exact Token.isLayout_of_isBlock (hblocks u (by simp))
  have hin : rest = [] → after.run.inLine = true := by
    rintro rfl
    have hblock : blocks ≠ [] := by
      rintro rfl
      exact hne hnew
    obtain ⟨front, u, rfl⟩ := (List.eq_nil_or_concat blocks).resolve_left hblock
    exact inLine_of_isBlock (by rw [hnew]; simp; rfl) (hblocks u (by simp))
  obtain ⟨lx, hlx, htokens, hoff, hnext⟩ := comes_blocks hbetween hnew hbehind hin
  obtain ⟨behind, hcomes, hat, hmeasure⟩ := comes_head hline hbetween hlx hoff (htokens ▸ hlayout) hnext
  rw [htokens] at hmeasure
  have hsame := tokens_of_blocks hcomes hat hmeasure hblocks
  have hclose := congrArg Lexer.tokens (close_eq after.run)
  refine ⟨behind, blocks, ⟨.eof, after.run.here⟩ :: (List.replicate after.run.widths.length ⟨.dedent, after.run.here⟩ ++
    (if after.run.inLine then [⟨.newline, after.run.here⟩] else [])) ++ rest.reverse, hcomes, hat, hsame, hmeasure,
    hblocks, ?_, ?_⟩
  · rw [hclose, hnew]
    simp only [List.append_assoc, List.cons_append]
  · intro t ht
    rw [List.getLast?_append, List.getLast?_reverse] at ht
    cases rest with
    | nil =>
        rw [hin rfl, if_pos rfl, ← List.cons_append, List.getLast?_concat] at ht
        obtain rfl : (⟨.newline, after.run.here⟩ : Token) = t := by simpa using ht
        rfl
    | cons u rest => exact hbehind t (by simpa using ht)

/-- Where the end of a line is read last, or is missing, the text ends with the blocks that are open. -/
theorem closing_eq {lx : Lexer} {newline : Token} {pre closing : List Token} (hnewline : newline.kind = .newline)
    (hclose : lx.close.tokens = closing ++ newline :: pre) (hall : lx.tokens <:+ newline :: pre) :
    (lx.tokens = newline :: pre ∨ lx.tokens = pre) ∧
      closing = ⟨.eof, lx.here⟩ :: List.replicate lx.widths.length ⟨.dedent, lx.here⟩ := by
  have hnone : newline ∉ (⟨.eof, lx.here⟩ :: List.replicate lx.widths.length ⟨.dedent, lx.here⟩) := by
    intro hmem
    simp only [List.mem_cons, List.mem_replicate] at hmem
    obtain heq | ⟨-, heq⟩ := hmem <;> rw [heq] at hnewline <;> cases hnewline
  obtain ⟨missing, hmissing⟩ := hall
  rw [tokens_close_eq, ← hmissing, ← List.append_assoc, ← List.cons_append] at hclose
  have hsame := List.append_cancel_right hclose
  cases missing with
  | nil =>
      have hin : lx.inLine = false := by
        rw [inLine, ← List.nil_append lx.tokens, hmissing]
        exact bne_eq_false_iff_eq.2 hnewline
      rw [hin] at hsame
      exact ⟨.inl hmissing, by simpa using hsame.symm⟩
  | cons t missing =>
      obtain ⟨rfl, hpre⟩ := List.cons.inj hmissing
      cases hin : lx.inLine with
      | false =>
          rw [hin, if_neg Bool.false_ne_true, List.append_nil] at hsame
          exact absurd (hsame ▸ by simp) hnone
      | true =>
          rw [hin, if_pos rfl] at hsame
          rcases List.eq_nil_or_concat missing with rfl | ⟨init, u, rfl⟩
          · exact ⟨.inr hpre, (List.append_inj' hsame rfl).1.symm⟩
          · rw [List.concat_eq_append, ← List.cons_append, ← List.append_assoc] at hsame
            exact absurd ((List.append_inj' hsame rfl).1 ▸ by simp) hnone

/-! ## from the first word on -/

section

variable {origin head : Lexer} {front lines closers back : List Token} {w newline : Token}

/-- Tokens with a text of their own are read before the text ends. -/
theorem suffix_run_of_worded {post pre : List Token} (hw : w.kind.isLayout = false)
    (h : origin.run.close.tokens = post ++ w :: pre) : w :: pre <:+ origin.run.tokens := by
  rw [tokens_close_eq] at h
  obtain ⟨more, -, hpre⟩ | ⟨more, hclosing, hmore⟩ := List.append_eq_append_iff.1 h
  · exact ⟨more, hpre.symm⟩
  · cases more with
    | nil => exact hmore ▸ List.suffix_rfl
    | cons t more =>
        obtain ⟨rfl, -⟩ := List.cons.inj hmore
        have hmem : w ∈ post ++ w :: more := by simp
        rw [← hclosing] at hmem
        have hlayout : w.kind.isLayout = true := by
          simp only [List.mem_cons, List.mem_append, List.mem_replicate, List.mem_ite_nil_right, List.not_mem_nil,
            or_false] at hmem
          obtain rfl | ⟨-, rfl⟩ | ⟨-, rfl⟩ := hmem <;> rfl
        exact absurd (hw.symm.trans hlayout) Bool.false_ne_true

/-- The logical line that a token starts. -/
theorem comes_line (hline : origin.atLineStart = true) (hbetween : origin.Between) (hw : w.kind.isLayout = false)
    {post pre : List Token} (hpre : ∀ t ∈ pre.head?, t.kind.isLayout = true) (horigin : origin.tokens <:+ pre)
    (h : origin.run.close.tokens = post ++ w :: pre) :
    ∃ head, Comes origin head ∧ head.AtHead ∧ head.measure.tokens = pre := by
  obtain ⟨more, hrun⟩ := suffix_run_of_worded hw h
  have hindent : w.kind ≠ .indent := fun heq => by rw [heq] at hw; cases hw
  have hdedent : w.kind ≠ .dedent := fun heq => by rw [heq] at hw; cases hw
  obtain ⟨lx, hlx, -, htokens, hstep⟩ := comes_push hdedent hrun.symm horigin
  rw [← htokens] at hstep hpre ⊢
  exact comes_head hline hbetween hlx (atLineStart_of_pushed hindent hdedent hstep) hpre (.inr (by simp [hstep]))

variable (hhead : head.AtHead) (hclean : head.run.faults = []) (hnewline : newline.kind = .newline)
  (hcloses : ∀ t ∈ closers, t.isBlock = true)
  (hopens : Opens ((closers.reverse ++ newline :: (lines ++ [w])).map (·.kind)) 0)
  (hback : (back.map (·.kind)).head? ≠ some .indent)
  (htokens : head.run.close.tokens =
    back.reverse ++ (closers.reverse ++ newline :: (lines ++ w :: head.measure.tokens)))

/-- With a `pass` for the lines, the tokens behind are of the same kinds. The end of an empty line may be missing. -/
def PassedTo (head : Lexer) (back : List Token) (text : List Char) : Prop :=
  ∀ w newline : Token, newline.kind = .newline → (head.passed w newline text).run.faults = [] ∧ ∃ new : List Token,
    (head.passed w newline text).run.close.tokens = new.reverse ++ newline :: w :: head.measure.tokens ∧
      (new.map (·.kind) = back.map (·.kind) ∨ back.map (·.kind) = .newline :: new.map (·.kind))

include hhead hclean hnewline hcloses hopens hback htokens

/-- Lines that end in front of a logical line. -/
theorem passedTo_behind (hwithin : newline :: (lines ++ w :: head.measure.tokens) <:+ head.run.tokens)
    (hne : head.run.tokens ≠ newline :: (lines ++ w :: head.measure.tokens)) :
    ∃ behind, Comes head behind ∧ behind.atLineStart = true ∧
      behind.tokens = newline :: (lines ++ w :: head.measure.tokens) ∧ head.PassedTo back behind.cursor.rest := by
  have hlx := hhead.unfinished ((Comes.here head).clean hclean)
  have hmeasure : head.step = head.measure := by rw [step, if_pos hhead.atLineStart]
  have hrun : head.step.run = head.run := (run_step hlx).symm
  obtain ⟨post, hpost⟩ := hwithin
  have hsplit : head.step.run.tokens = post ++ newline :: (lines ++ w :: head.measure.tokens) := hrun ▸ hpost.symm
  obtain ⟨after, hafter, hline, hsame⟩ := comes_newline hnewline hsplit (hmeasure ▸ ⟨lines ++ [w], by simp⟩)
  have hbetween : after.Between := hafter.between (between_step hhead.between)
  have hend : after.run = head.run := by rw [← hafter.run_eq, hrun]
  obtain ⟨behind, blocks, more, hcomes, hat, htokens₂, hmeasure₂, hblocks, hclose, hmore⟩ := comes_behind hline hbetween
    (by rw [hsame]; simp [hnewline, TokenKind.isLayout]) (by rw [hend, hsame]; exact hne)
  rw [hsame] at htokens₂ hmeasure₂ hclose
  -- The blocks that the line closes are those of the lines in front of it and those of the tokens behind.
  obtain ⟨rest, rfl, rfl⟩ : ∃ rest, blocks = closers ++ rest ∧ back = rest ++ more.reverse := by
    have hboth : closers ++ back = blocks ++ more.reverse := by
      rw [hend, htokens, ← List.append_assoc, ← List.append_assoc] at hclose
      have hall := congrArg List.reverse (List.append_cancel_right hclose)
      simpa using hall
    obtain ⟨rest, rfl, rfl⟩ | ⟨rest, hclosers, hrest⟩ := List.append_eq_append_iff.1 hboth
    · exact ⟨rest, rfl, rfl⟩
    · cases rest with
      | nil => exact ⟨[], by simpa using hclosers.symm, by simpa using hrest.symm⟩
      | cons t rest =>
          have hblock := hcloses t (by rw [hclosers]; simp)
          have hother := hmore t (by rw [← List.head?_reverse, hrest]; rfl)
          exact absurd (hblock.symm.trans hother) (by decide)
  refine ⟨behind, (Comes.step hlx hafter).trans hcomes, hat.atLineStart, htokens₂, fun w' newline' hnewline' => ?_⟩
  have hrest : (rest.map (·.kind)).head? ≠ some .indent := by
    cases rest with
    | nil => simp
    | cons t rest => simpa using hback
  obtain ⟨hdone, new, new', hnew, hnew', hkinds⟩ := readsOn_behind (w := w') (X := newline :: (lines ++ [w]))
    hnewline' hhead hat (hafter.trans hcomes) hclean (by simp [htokens₂]) (by rw [hmeasure₂, htokens₂])
    (List.map_append ..) (by simpa [← List.map_reverse] using hopens) hrest
  have hmore' : new' = more := by
    rw [← hcomes.run_eq, hclose, hmeasure₂] at hnew'
    exact (List.append_cancel_right hnew').symm
  subst hmore'
  refine ⟨hdone, new.reverse, by rw [hnew, List.reverse_reverse], ?_⟩
  obtain hkinds | ⟨hnil, hkinds⟩ := hkinds
  · refine .inl ?_
    rw [List.map_reverse, hkinds, List.map_append, List.map_reverse]
    simp
  · obtain rfl := List.map_eq_nil_iff.1 hnil
    refine .inr ?_
    rw [List.nil_append, List.map_reverse, hkinds, List.map_reverse]
    simp

omit hback in
/-- Lines at the end of the text. -/
theorem passedTo_end (hall : head.run.tokens <:+ newline :: (lines ++ w :: head.measure.tokens)) :
    worded head.run.tokens = worded (newline :: (lines ++ w :: head.measure.tokens)) ∧ starts back = [] ∧
      head.PassedTo back [] := by
  have hlx := hhead.unfinished ((Comes.here head).clean hclean)
  have hmeasure : head.step = head.measure := by rw [step, if_pos hhead.atLineStart]
  have hcomes : Comes head.step head.run := (run_step hlx) ▸ comes_run head.step
  rw [← List.append_assoc] at htokens
  obtain ⟨hcases, hlast⟩ := closing_eq hnewline htokens hall
  have hdedents : closers.reverse = List.replicate closers.length ⟨.dedent, head.run.here⟩ := by
    refine List.eq_replicate_iff.2 ⟨List.length_reverse, fun t ht => ?_⟩
    have hmem : t ∈ back.reverse ++ closers.reverse := List.mem_append_right _ ht
    rw [hlast, List.mem_cons, List.mem_replicate] at hmem
    obtain rfl | ⟨-, heq⟩ := hmem
    · have hblock := hcloses _ (List.mem_reverse.1 ht)
      cases hblock
    · exact heq
  have hopen : Opens ((newline :: (lines ++ [w])).map (·.kind)) closers.length := by
    rw [hdedents, List.map_append, List.map_replicate] at hopens
    exact hopens.of_dedents
  obtain ⟨D, hwidths, hD⟩ : ∃ D, head.run.widths = D ++ head.measure.widths ∧ D.length = closers.length := by
    have hstart : head.step.widths = [] ++ head.measure.widths := by rw [hmeasure]; rfl
    obtain hsame | hsame := hcases
    · refine widths_comes (X := newline :: (lines ++ [w])) hcomes hclean hstart .nil ?_ (by simpa using hopen)
      rw [hmeasure, hsame]
      simp
    · refine widths_comes (X := lines ++ [w]) hcomes hclean hstart .nil ?_ ?_
      · rw [hmeasure, hsame]
        simp
      · rw [List.map_cons, hnewline] at hopen
        cases hopen with
        | other _ _ hopen => simpa using hopen
  have hbehind : back.reverse = ⟨.eof, head.run.here⟩ ::
      List.replicate head.measure.widths.length ⟨.dedent, head.run.here⟩ := by
    rw [hdedents, hwidths, List.length_append, hD, Nat.add_comm, List.replicate_add, ← List.cons_append] at hlast
    exact List.append_cancel_right hlast
  refine ⟨?_, ?_, fun w' newline' hnewline' => ?_⟩
  · obtain hsame | hsame := hcases
    · rw [hsame]
    · rw [hsame, worded_cons_layout (by rw [hnewline]; rfl)]
  · rw [← List.reverse_reverse back, hbehind]
    simp [starts, worded, TokenKind.isLayout]
  · have hrun : (head.passed w' newline' []).run = head.passed w' newline' [] := run_of_finished rfl
    have hin : (head.passed w' newline' []).inLine = false := bne_eq_false_iff_eq.2 hnewline'
    have hzero : head.measure.faults = [] := hmeasure ▸ (Comes.step hlx (.here _)).clean hclean
    rw [hrun, tokens_close_eq, hin]
    refine ⟨hzero, _, by rw [List.reverse_reverse]; rfl, .inl ?_⟩
    rw [← List.reverse_reverse back, hbehind, List.map_reverse, List.map_reverse]
    simp [passed]

/-- The tokens that start a logical line and stand on some lines. -/
theorem exists_stop : ∃ stop, Comes head stop ∧ (stop.atLineStart = true ∨ stop.cursor.rest = []) ∧
    worded stop.tokens = worded (newline :: (lines ++ w :: head.measure.tokens)) ∧
      (∀ pos ∈ starts back, ¬ pos.before stop.cursor.pos = true) ∧ head.PassedTo back stop.cursor.rest := by
  by_cases hend : head.run.tokens <:+ newline :: (lines ++ w :: head.measure.tokens)
  · obtain ⟨hworded, hback', hpassed⟩ := passedTo_end hhead hclean hnewline hcloses hopens htokens hend
    have hnil : head.run.cursor.rest = [] := by
      have hfinished := head.finished_run
      simpa [finished, hclean, maxDiagnostics] using hfinished
    exact ⟨head.run, comes_run head, .inr hnil, hworded, by simp [hback'], hnil ▸ hpassed⟩
  · have hboth : head.run.tokens <:+ head.run.close.tokens ∧
        newline :: (lines ++ w :: head.measure.tokens) <:+ head.run.close.tokens :=
      ⟨tokens_close_eq head.run ▸ List.suffix_append _ _, htokens ▸ ⟨back.reverse ++ closers.reverse, by simp⟩⟩
    have hwithin := (List.suffix_or_suffix_of_suffix hboth.1 hboth.2).resolve_left hend
    obtain ⟨behind, hcomes, hline, htokens', hpassed⟩ := passedTo_behind hhead hclean hnewline hcloses hopens hback
      htokens
      hwithin fun heq => hend (heq ▸ List.suffix_rfl)
    refine ⟨behind, hcomes, .inl hline, by rw [htokens'], fun pos hpos => ?_, hpassed⟩
    have hsplit : worded behind.run.tokens = worded (back.reverse ++ closers.reverse) ++ worded behind.tokens := by
      rw [← hcomes.run_eq, ← worded_close, htokens, htokens', ← List.append_assoc, worded_append]
    refine (comes_run behind).starts_behind hsplit pos ?_
    rw [starts_append]
    refine List.mem_append_left _ ?_
    rw [starts, worded, List.filter_reverse, List.map_reverse]
    exact List.mem_reverse.2 hpos

end

end Lexer

/-! ## texts -/

/-- Some blank lines. -/
inductive BlankLines : List Char → Prop where
  | nil : BlankLines []
  | cons {b bs : List Char} : IsBlankLine b → BlankLines bs → BlankLines (b ++ bs)

/-- A `pass` on a line of its own, with the indentation of a text. -/
def passFor (text : String) : String :=
  String.ofList (text.toList.takeWhile isIndentation ++ Lexer.passLine)

/-- The first two of the three parts of a text end with lines, the second one starts with a line that is not blank, and
some tokens start in each of the parts. -/
structure Divides (p t q : String) (front lines back : List Token) : Prop where
  ended : Ended p.toList
  ended' : Ended t.toList ∨ q = ""
  filled : isBlankRest (t.toList.dropWhile isIndentation) = false
  before : ∀ pos ∈ starts front, pos.before (endOf p.toList) = true
  within : ∀ pos ∈ starts lines, ¬ pos.before (endOf p.toList) = true ∧ pos.before (endOf (p ++ t).toList) = true
  behind : ∀ pos ∈ starts back, ¬ pos.before (endOf (p ++ t).toList) = true

/-- Blank lines leave no tokens. -/
theorem lex_blankLines {p : String} (hp : Pauses p) {b : List Char} (hb : BlankLines b) (q : String) :
    (lex (p ++ String.ofList b ++ q)).tokens.map (·.kind) = (lex (p ++ q)).tokens.map (·.kind) ∧
      ((lex (p ++ q)).faults = [] → (lex (p ++ String.ofList b ++ q)).faults = []) := by
  induction hb generalizing q with
  | nil => exact ⟨by simp, by simp⟩
  | @cons b bs hb _ ih =>
      obtain ⟨hkinds, hclean⟩ := ih q
      have hsplit : p ++ String.ofList (b ++ bs) ++ q = p ++ String.ofList b ++ (String.ofList bs ++ q) := by
        rw [String.ofList_append, String.append_assoc, String.append_assoc, String.append_assoc]
      have hbelow := lex_below hp (b := String.ofList b) (by rwa [String.toList_ofList]) (String.ofList bs ++ q)
      rw [hsplit, hbelow, Lexed.below, List.map_map, ← String.append_assoc]
      exact ⟨hkinds, fun h => by rw [hclean h]; rfl⟩

/-- A logical line that a text is read to, and a later place where a line starts or the text ends. -/
structure Stretch (text : String) (head stop : Lexer) (p t : List Char) : Prop where
  comes : Lexer.Comes (Lexer.start text) head
  atHead : head.AtHead
  clean : head.measure.faults = []
  stops : Lexer.Comes head stop
  passes : (Lexer.start text).cursor.Passes p head.cursor
  passes' : head.cursor.Passes t stop.cursor
  ended : Ended p
  ended' : Ended t ∨ stop.cursor.rest = []

theorem dropWhile_eq_drop (p : Char → Bool) (cs : List Char) : cs.dropWhile p = cs.drop (cs.takeWhile p).length := by
  have hdrop : (cs.takeWhile p ++ cs.dropWhile p).drop (cs.takeWhile p).length = cs.dropWhile p := List.drop_left
  rwa [List.takeWhile_append_dropWhile, eq_comm] at hdrop

namespace Stretch

variable {text text' : String} {head stop : Lexer} {p t q : List Char} {front lines back : List Token}

theorem toList_eq (h : Stretch text head stop p t) : text.toList = p ++ (t ++ stop.cursor.rest) := by
  rw [← h.passes'.1]
  exact h.passes.1

theorem pos_head (h : Stretch text head stop p t) : head.cursor.pos = endOf p := h.passes.2

theorem pos_stop (h : Stretch text head stop p t) : stop.cursor.pos = endOf (p ++ t) := by
  rw [endOf_append, ← h.pos_head]
  exact h.passes'.2

theorem inOrder (h : Stretch text head stop p t) : head.InOrder ∧ stop.InOrder := by
  have hstart : (Lexer.start text).InOrder := ⟨List.Pairwise.nil, fun p hp => absurd hp List.not_mem_nil⟩
  have hhead := h.comes.inOrder hstart
  exact ⟨hhead, h.stops.inOrder hhead⟩

/-- The tokens that are read start in the text that is read. -/
theorem places (h : Stretch text head stop p t) (hlines : worded stop.tokens = worded lines ++ worded head.tokens) :
    (∀ pos ∈ starts head.tokens, pos.before (endOf p) = true) ∧
      ∀ pos ∈ starts lines, ¬ pos.before (endOf p) = true ∧ pos.before (endOf (p ++ t)) = true := by
  refine ⟨fun pos hpos => h.pos_head ▸ h.inOrder.1.passed pos hpos, fun pos hpos => ⟨?_, ?_⟩⟩
  · exact h.pos_head ▸ h.stops.starts_behind hlines pos hpos
  · have hstop : starts stop.tokens = starts lines ++ starts head.tokens := by
      rw [starts, hlines, List.map_append]
      rfl
    exact h.pos_stop ▸ h.inOrder.2.passed pos (hstop ▸ List.mem_append_left _ hpos)

/-- There is a line with words in between, so white space in front of it does not go on behind it. -/
theorem blanks (h : Stretch text head stop p t) (hne : starts stop.tokens ≠ starts head.tokens) :
    t.takeWhile isIndentation = head.cursor.rest.takeWhile isIndentation ∧
      isBlankRest (t.dropWhile isIndentation) = false := by
  have hparted : Parted t stop.cursor.rest := by
    refine h.ended'.elim (fun hended => .inr (hended.resolve_left ?_)) .inl
    rintro rfl
    obtain ⟨new, hnew, -⟩ := h.stops.reads.tokens
    have hwords : worded stop.tokens = worded new ++ worded head.tokens := by rw [hnew, worded_append]
    refine hne ?_
    rw [starts, hwords, List.map_append, ← starts, ← starts]
    cases hstarts : starts new with
    | nil => rfl
    | cons pos more =>
        obtain ⟨hnot, hbefore⟩ := (h.places hwords).2 pos (by rw [hstarts]; exact List.mem_cons_self)
        rw [List.append_nil] at hbefore
        exact absurd hbefore hnot
  have hrest : head.cursor.rest = t ++ stop.cursor.rest := h.passes'.1
  have hfilled := h.atHead.filled
  have hskip : head.behindBlanks.cursor.rest = head.cursor.rest.dropWhile isIndentation := by
    rw [dropWhile_eq_drop, ← Cursor.rest_advance]
    rfl
  rw [hskip, hrest, dropWhile_eq_drop, hparted.takeWhile_append (by decide),
    List.drop_append_of_le_length (List.takeWhile_sublist _).length_le,
    isBlankRest_append (hparted.drop_takeWhile (by decide)), ← dropWhile_eq_drop] at hfilled
  exact ⟨by rw [hrest, hparted.takeWhile_append (by decide)], hfilled⟩

/-- With a `pass` in place of a logical line, what is in front of the line is read alike. -/
theorem comes_passed (h : Stretch text head stop p t)
    (htext' : text'.toList = p ++ (head.cursor.rest.takeWhile isIndentation ++ (Lexer.passLine ++ q))) :
    ∃ w newline : Token, w.kind = .keyword .pass ∧ newline.kind = .newline ∧
      Lexer.Comes (Lexer.start text') (head.passed w newline q) := by
  obtain ⟨w, newline, hw, hnewline, hpassed⟩ := Lexer.comes_passed h.atHead h.clean q
  refine ⟨w, newline, hw, hnewline, Lexer.Comes.trans ?_ hpassed⟩
  have hzero : head.faults = [] := List.suffix_nil.1 (h.clean ▸ head.faults_measure)
  have hstart : Lexer.start text' = (Lexer.start text).facing
      (p ++ (head.cursor.rest.takeWhile isIndentation ++ (Lexer.passLine ++ q))) := by
    rw [← htext']
    rfl
  rw [hstart]
  exact h.comes.elsewhere h.ended h.passes.1 rfl h.atHead.atLineStart hzero _

/-- Behind the line with `pass` a new line starts. -/
theorem pauses (h : Stretch text head stop p t)
    (htext' : text'.toList = p ++ (head.cursor.rest.takeWhile isIndentation ++ Lexer.passLine)) : Pauses text' := by
  have htext := htext'
  rw [← List.append_nil Lexer.passLine] at htext
  obtain ⟨w, newline, -, hnewline, hpassed⟩ := h.comes_passed htext
  have hrun : (Lexer.start text').run = head.passed w newline [] := hpassed.run_eq.trans (Lexer.run_of_finished rfl)
  refine ⟨.inr ⟨p ++ (head.cursor.rest.takeWhile isIndentation ++ ['p', 'a', 's', 's']), ?_⟩, fun _ => .inl ?_, ?_⟩
  · rw [htext', Lexer.passLine]
    simp
  · rw [hrun]
    rfl
  · rw [hrun, Lexer.inString, show (head.passed w newline []).faults = [] from h.clean]
    simp

end Stretch

section

variable {text : String} {front lines closers back : List Token} {w newline : Token}

/-- The lines that some tokens stand on. -/
theorem exists_stretch (hclean : (lex text).faults = [])
    (htokens : (lex text).tokens = front ++ (w :: lines ++ newline :: closers) ++ back)
    (hfront : ∀ t ∈ front.getLast?, t.kind.isLayout = true) (hw : w.kind.isLayout = false)
    (hnewline : newline.kind = .newline) (hcloses : ∀ t ∈ closers, t.isBlock = true)
    (hopens : Opens ((w :: lines ++ newline :: closers).map (·.kind)).reverse 0)
    (hback : (back.map (·.kind)).head? ≠ some .indent) :
    ∃ head stop p t, Stretch text head stop p t ∧ head.measure.tokens = front.reverse ∧
      worded stop.tokens = worded (w :: lines ++ newline :: closers).reverse ++ worded head.tokens ∧
        (∀ pos ∈ starts back, ¬ pos.before stop.cursor.pos = true) ∧ head.PassedTo back stop.cursor.rest := by
  have hrun : (Lexer.start text).run.close.tokens =
      back.reverse ++ (closers.reverse ++ newline :: (lines.reverse ++ w :: front.reverse)) := by
    have hreverse := congrArg List.reverse htokens
    rw [lex, List.reverse_reverse] at hreverse
    rw [hreverse]
    simp
  have hnone : (Lexer.start text).run.faults = [] := by
    rw [lex, Lexer.close_eq] at hclean
    exact List.reverse_eq_nil_iff.1 hclean
  have hcut : (Lexer.start text).run.close.tokens =
      back.reverse ++ (closers.reverse ++ newline :: lines.reverse) ++ w :: front.reverse := by
    rw [hrun]
    simp
  obtain ⟨head, hcomes, hhead, hmeasure⟩ := @Lexer.comes_line (.start text) w rfl (fun _ => ⟨rfl, rfl⟩) hw _ _
    (by rwa [List.head?_reverse]) List.nil_suffix hcut
  have hend := hcomes.run_eq
  have hleft : head.run.close.tokens =
      back.reverse ++ (closers.reverse ++ newline :: (lines.reverse ++ w :: head.measure.tokens)) := by
    rw [← hend, hrun, hmeasure]
  obtain ⟨stop, hstop, hstops, hworded, hbehind, hpassed⟩ := Lexer.exists_stop hhead (hend ▸ hnone) hnewline hcloses
    (by simpa using hopens) hback hleft
  have hzero : head.measure.faults = [] := by
    have hlx := hhead.unfinished ((Lexer.Comes.here head).clean (hend ▸ hnone))
    have hstep : head.step = head.measure := by rw [Lexer.step, if_pos hhead.atLineStart]
    exact hstep ▸ (Lexer.Comes.step hlx (.here _)).clean (hend ▸ hnone)
  obtain ⟨p, hp, ended⟩ := Lexer.passes_comes hcomes
    (show (Lexer.start text).cursor.Passes [] (Lexer.start text).cursor from ⟨rfl, rfl⟩) fun _ => .inl rfl
  obtain ⟨t, ht, ended'⟩ := Lexer.passes_comes hstop (show head.cursor.Passes [] head.cursor from ⟨rfl, rfl⟩)
    fun _ => .inl rfl
  refine ⟨head, stop, p, t, ⟨hcomes, hhead, hzero, hstop, hp, ht, ended hhead.atLineStart, hstops.imp_left ended'⟩,
    hmeasure, ?_, hbehind, hpassed⟩
  have hblocks : worded closers.reverse = [] := by
    refine List.filter_eq_nil_iff.2 fun u hu => ?_
    simp [Token.isLayout_of_isBlock (hcloses u (List.mem_reverse.1 hu))]
  have hsplit : worded (w :: lines ++ newline :: closers).reverse =
      worded closers.reverse ++ worded (newline :: (lines.reverse ++ [w])) := by
    rw [← worded_append]
    simp
  have hwords : worded (newline :: (lines.reverse ++ w :: head.measure.tokens)) =
      worded (newline :: (lines.reverse ++ [w])) ++ worded head.measure.tokens := by
    rw [← worded_append]
    simp
  rw [hworded, hsplit, hblocks, List.nil_append, hwords, Lexer.worded_measure]

/-- A line with `pass` in place of some others. The text in front of these and the text behind them are read alike, but
that the end of an empty line behind them may be missing. -/
theorem lex_passed (hclean : (lex text).faults = [])
    (htokens : (lex text).tokens = front ++ (w :: lines ++ newline :: closers) ++ back)
    (hfront : ∀ t ∈ front.getLast?, t.kind.isLayout = true) (hw : w.kind.isLayout = false)
    (hnewline : newline.kind = .newline) (hcloses : ∀ t ∈ closers, t.isBlock = true)
    (hopens : Opens ((w :: lines ++ newline :: closers).map (·.kind)).reverse 0)
    (hback : (back.map (·.kind)).head? ≠ some .indent) :
    ∃ p t q, text = p ++ t ++ q ∧ Divides p t q front (w :: lines ++ newline :: closers) back ∧
      ∃ rest, (rest = back.map (·.kind) ∨ back.map (·.kind) = .newline :: rest) ∧ ∀ b, BlankLines b →
        (lex (p ++ passFor t ++ String.ofList b ++ q)).faults = [] ∧
          (lex (p ++ passFor t ++ String.ofList b ++ q)).tokens.map (·.kind) =
            front.map (·.kind) ++ .keyword .pass :: .newline :: rest := by
  obtain ⟨head, stop, p, t, hstretch, hmeasure, hlines, hbehind, hpassed⟩ :=
    exists_stretch hclean htokens hfront hw hnewline hcloses hopens hback
  have hmem : w ∈ worded (w :: lines ++ newline :: closers).reverse := mem_worded.2 ⟨by simp, hw⟩
  have hne : starts stop.tokens ≠ starts head.tokens := by
    intro heq
    have hlength := congrArg List.length heq
    rw [starts, hlines, List.map_append, List.length_append, ← starts] at hlength
    have hnone := List.eq_nil_of_length_eq_zero (Nat.add_eq_right.1 hlength)
    rw [List.map_eq_nil_iff.1 hnone] at hmem
    cases hmem
  obtain ⟨hblanks, hfilled⟩ := hstretch.blanks hne
  obtain ⟨hbefore, hwithin⟩ := hstretch.places hlines
  have hpass : (String.ofList p ++ passFor (String.ofList t)).toList =
      p ++ (head.cursor.rest.takeWhile isIndentation ++ Lexer.passLine) := by
    rw [String.toList_append, passFor, String.toList_ofList, String.toList_ofList, String.toList_ofList, hblanks]
  have hstarts : ∀ ts : List Token, starts ts.reverse = (starts ts).reverse := fun ts => by
    rw [starts, worded, List.filter_reverse, List.map_reverse]
    rfl
  refine ⟨String.ofList p, String.ofList t, String.ofList stop.cursor.rest, ?_, ⟨?_, ?_, ?_, ?_, ?_, ?_⟩, ?_⟩
  · rw [← String.toList_inj, hstretch.toList_eq]
    simp
  · rw [String.toList_ofList]
    exact hstretch.ended
  · rw [String.toList_ofList]
    exact hstretch.ended'.imp_right fun hnil => by rw [hnil]
  · rw [String.toList_ofList]
    exact hfilled
  · intro pos hpos
    rw [String.toList_ofList]
    refine hbefore pos ?_
    rw [starts, ← Lexer.worded_measure, ← starts, hmeasure, hstarts]
    exact List.mem_reverse.2 hpos
  · intro pos hpos
    rw [← String.ofList_append, String.toList_ofList, String.toList_ofList]
    exact hwithin pos (by rw [hstarts]; exact List.mem_reverse.2 hpos)
  · intro pos hpos
    rw [← String.ofList_append, String.toList_ofList, ← hstretch.pos_stop]
    exact hbehind pos hpos
  · have hjoined : (String.ofList p ++ passFor (String.ofList t) ++ String.ofList stop.cursor.rest).toList =
        p ++ (head.cursor.rest.takeWhile isIndentation ++ (Lexer.passLine ++ stop.cursor.rest)) := by
      rw [String.toList_append, hpass, String.toList_ofList]
      simp
    obtain ⟨w', newline', hw', hnewline', hcomes⟩ := hstretch.comes_passed hjoined
    obtain ⟨hdone, new, hnew, hkinds⟩ := hpassed w' newline' hnewline'
    rw [← hcomes.run_eq] at hdone hnew
    refine ⟨new.map (·.kind), hkinds, fun b hb => ?_⟩
    obtain ⟨hsame, hclean'⟩ := lex_blankLines (hstretch.pauses hpass) hb (String.ofList stop.cursor.rest)
    refine ⟨hclean' ?_, hsame.trans ?_⟩
    · rw [lex, Lexer.close_eq, hdone]
      rfl
    · rw [lex, hnew, hmeasure]
      simp [hw', hnewline']

end

/-! ## the order of all tokens -/

/-- Behind a token with a text of its own no token starts in front of it. -/
theorem not_before_lex {text : String} {front more : List Token} {t : Token}
    (h : (lex text).tokens = front ++ t :: more) (ht : t.kind.isLayout = false) :
    ∀ u ∈ more, ¬ u.span.first.before t.span.first = true := by
  have hrun : (Lexer.start text).run.close.tokens = more.reverse ++ t :: front.reverse := by
    have hreverse := congrArg List.reverse h
    rw [lex, List.reverse_reverse] at hreverse
    rw [hreverse]
    simp
  obtain ⟨post, hpost⟩ := Lexer.suffix_run_of_worded ht hrun
  obtain ⟨lx, hlx, hunfinished, -, hstep⟩ := Lexer.comes_push (fun heq => by rw [heq] at ht; cases ht) hpost.symm
    List.nil_suffix
  have hcomes : Lexer.Comes (Lexer.start text) lx.step := hlx.trans (.step hunfinished (.here _))
  have hpassed : t.span.first.before lx.step.cursor.pos = true := by
    have hstart : (Lexer.start text).InOrder := ⟨List.Pairwise.nil, fun p hp => absurd hp List.not_mem_nil⟩
    refine (hcomes.inOrder hstart).passed _ ?_
    rw [hstep, starts, worded_cons ht]
    exact List.mem_cons_self
  have hreads := lx.step.reads_run
  obtain ⟨read, hread, hmeets⟩ := hreads.tokens
  obtain ⟨closing, hclosing, hends⟩ := lx.step.run.tokens_close
  rw [hcomes.run_eq, hclosing, hread, hstep, ← List.append_assoc] at hrun
  have hmore := List.append_cancel_right hrun
  intro u hu
  have hbehind : ¬ u.span.first.before lx.step.cursor.pos = true := by
    have hmem : u ∈ closing ++ read := hmore ▸ List.mem_reverse.2 hu
    obtain hmem | hmem := List.mem_append.1 hmem
    · rw [hends u hmem]
      obtain heq | hlater := hreads.cursor.pos
      · rw [heq]
        exact Pos.not_before_self _
      · exact fun hbefore => Pos.not_before_self _ (Pos.before_trans hlater hbefore)
    · exact Lexer.not_before_of_meets (hmeets u hmem)
  exact fun hbefore => hbehind (Pos.before_trans hbefore hpassed)

end ViewSync
