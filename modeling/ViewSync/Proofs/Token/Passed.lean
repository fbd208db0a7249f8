import ViewSync.Proofs.Token.Layout
import ViewSync.Proofs.Token.Stops

/-!
# ViewSync.Proofs.Token.Passed

A line with nothing but `pass` on it, in place of some lines of a text that open as many blocks as they close. The
blocks that are still open behind these lines are closed by the line that follows (`layout_behind`), and from there on
both texts are read alike (`resume`).
-/

namespace ViewSync

/-! ## open blocks -/

section

variable {D W opened : List Nat} {width n m : Nat} {kinds new : List TokenKind}

theorem Opens.unique (h : Opens kinds n) (h' : Opens kinds m) : n = m := by
  have hn := h.count_indent
  have hm := h'.count_indent
  omega

theorem Opens.of_dedents {k : Nat} (h : Opens (List.replicate k .dedent ++ kinds) n) : Opens kinds (k + n) := by
  induction k generalizing n with
  | zero => simpa using h
  | succ k ih =>
      cases h with
      | dedent h => simpa [Nat.succ_add_eq_add_succ] using ih h
      | other _ hne => exact absurd rfl hne

/-- Blocks that were open before the first of some tokens stay open, if the tokens close no more than they open. -/
theorem Shift.keeps (h : Shift (D ++ W) width opened new) (hnew : Opens (new ++ kinds) n) (hD : Opens kinds D.length) :
    ∃ D', opened = D' ++ W ∧ D'.length = n := by
  cases h with
  | opens => exact ⟨width :: D, rfl, (Opens.indent hD).unique hnew⟩
  | @closes closed opened _ hsplit _ =>
      have hlength := hD.unique hnew.of_dedents
      obtain ⟨D', rfl, rfl⟩ | ⟨closed', rfl, hW⟩ := List.append_eq_append_iff.1 hsplit
      · rw [List.length_append] at hlength
        have hzero : n = 0 := by omega
        obtain rfl : D' = [] := List.eq_nil_of_length_eq_zero (by omega)
        exact ⟨[], rfl, hzero.symm⟩
      · rw [List.length_append] at hlength
        exact ⟨closed', hW, by omega⟩

end

namespace Lexer

variable {lx lx' : Lexer} {D W : List Nat} {kinds : List TokenKind}

theorem widths_step (hlx : lx.finished = false) (hclean : lx.step.faults = []) (hwidths : lx.widths = D ++ W)
    (hD : Opens kinds D.length) :
    ∃ new, lx.step.tokens = new ++ lx.tokens ∧ ∀ n, Opens (new.map (·.kind) ++ kinds) n →
      ∃ D', lx.step.widths = D' ++ W ∧ D'.length = n := by
  have hsame : lx.step.widths = lx.widths → ∀ new : List Token, (∀ t ∈ new, t.kind ≠ .indent ∧ t.kind ≠ .dedent) →
      ∀ n, Opens (new.map (·.kind) ++ kinds) n → ∃ D', lx.step.widths = D' ++ W ∧ D'.length = n := by
    intro hsame new hnew n hn
    refine ⟨D, hsame.trans hwidths, (hD.others ?_).unique hn⟩
    intro k hk
    obtain ⟨t, ht, rfl⟩ := List.mem_map.1 hk
    exact hnew t ht
  cases hline : lx.atLineStart with
  | true =>
      have hmeasure : lx.step = lx.measure := by rw [step, if_pos hline]
      obtain ⟨-, heq⟩ | ⟨width, opened, new, -, -, heq, -, hshift⟩ := measure_cases hline (hmeasure ▸ hclean)
      · rw [hmeasure, heq] at hsame ⊢
        exact ⟨[], rfl, hsame rfl [] (by simp)⟩
      · rw [hmeasure, heq]
        rw [hwidths] at hshift
        exact ⟨new, rfl, fun n hn => hshift.keeps hn hD⟩
  | false =>
      have hlexeme : lx.step = lx.lexeme := by rw [step, if_neg (by simp [hline])]
      have hrest : lx.cursor.rest ≠ [] := fun hnil => by simp [finished, hnil] at hlx
      obtain ⟨-, hkeep, -, new, hnew, hkinds⟩ := lexeme_cases hline hrest
      rw [hlexeme] at hsame ⊢
      exact ⟨new, hnew, hsame hkeep new fun t ht => (hkinds t ht).1⟩

theorem widths_comes (hcomes : Comes lx lx') (hclean : lx'.faults = []) {X : List Token} {n : Nat}
    (hwidths : lx.widths = D ++ W) (hD : Opens kinds D.length) (htokens : lx'.tokens = X ++ lx.tokens)
    (hX : Opens (X.map (·.kind) ++ kinds) n) :
    ∃ D', lx'.widths = D' ++ W ∧ D'.length = n := by
  induction hcomes generalizing D kinds X with
  | here lx =>
      obtain rfl : X = [] := by simpa using htokens
      exact ⟨D, hwidths, hD.unique hX⟩
  | @step lx lx' hlx hcomes ih =>
      obtain ⟨X', hX', -⟩ := hcomes.reads.tokens
      have hstep : lx.step.faults = [] := by
        obtain ⟨new, hnew, -⟩ := hcomes.reads.faults
        exact (List.append_eq_nil_iff.1 (hnew.symm.trans hclean)).2
      obtain ⟨new, hnew, hkeeps⟩ := widths_step hlx hstep hwidths hD
      have hsplit : X = X' ++ new := by
        rw [hX', hnew, ← List.append_assoc] at htokens
        exact (List.append_cancel_right htokens).symm
      rw [hsplit, List.map_append, List.append_assoc] at hX
      obtain ⟨m, hm⟩ := hX.suffix (List.suffix_append _ _)
      obtain ⟨D', hD', hlength⟩ := hkeeps m hm
      exact ih hclean hD' (hlength ▸ hm) hX' hX

/-! ## the line behind -/

/-- A line does the same to the blocks that are open further out. Where more blocks are open that have to be closed, it
closes these first. -/
theorem layout_behind {width : Nat} {ends rest : List TokenKind} (hwidths : lx.widths = D ++ W)
    (hwidths' : lx'.widths = W) (hclean : (lx.layout width).faults = []) (hD : Opens kinds D.length)
    (hends : Opens (ends.reverse ++ kinds) 0) (hrest : rest.head? ≠ some .indent) {blocks : List Token}
    (htokens : (lx.layout width).tokens = blocks.reverse ++ lx.tokens) (hblocks : blocks.map (·.kind) = ends ++ rest) :
    lx'.layout width = { lx' with
      widths := (lx.layout width).widths
      tokens := List.replicate rest.length ⟨.dedent, lx'.here⟩ ++ lx'.tokens } ∧
      blocks = List.replicate (ends.length + rest.length) ⟨.dedent, lx.here⟩ := by
  have hall : ∀ new : List Token, new ++ lx.tokens = blocks.reverse ++ lx.tokens → blocks = new.reverse :=
    fun new heq => by rw [List.append_cancel_right heq, List.reverse_reverse]
  unfold layout at hclean htokens ⊢
  simp only [foldl_dedent, splitWidths, Lexer.width, hwidths, hwidths'] at hclean htokens ⊢
  by_cases hwider : (D ++ W).headD 0 < width
  · -- A block cannot be opened, neither for what is still to be closed nor for what follows.
    rw [if_pos hwider] at htokens
    obtain rfl := hall [_] htokens
    cases ends with
    | nil => exact absurd (by rw [← List.nil_append rest, ← hblocks]; rfl) hrest
    | cons k ends =>
        obtain ⟨rfl, hnil⟩ := List.cons.inj hblocks
        obtain ⟨rfl, -⟩ := List.append_eq_nil_iff.1 hnil.symm
        cases hends with
        | other hne => exact absurd rfl hne
  · rw [if_neg hwider] at hclean htokens ⊢
    have hmatch : ((D ++ W).dropWhile (width < ·)).headD 0 = width := by
      by_contra hne
      rw [if_neg hne] at hclean
      cases hclean
    rw [if_pos hmatch] at htokens ⊢
    obtain rfl := hall _ htokens
    rw [List.reverse_replicate, List.map_replicate] at hblocks
    have hsplit := List.append_eq_replicate_iff.1 hblocks.symm
    obtain ⟨hlength, hends', hrest'⟩ := hsplit
    have hopen : D.length = ends.length := by
      rw [hends', List.reverse_replicate] at hends
      exact hD.unique hends.of_dedents
    have hpopped : (D.takeWhile (width < ·)).length = D.length := by
      by_contra hne
      rw [List.takeWhile_append, if_neg hne] at hlength
      have hle := (List.takeWhile_sublist (fun w => decide (width < w)) (l := D)).length_le
      omega
    have hdrop : (D ++ W).dropWhile (width < ·) = W.dropWhile (width < ·) := by
      have hnone : D.dropWhile (width < ·) = [] := by
        have hsum := congrArg List.length (List.takeWhile_append_dropWhile (p := (width < ·)) (l := D))
        rw [List.length_append, hpopped] at hsum
        exact List.eq_nil_of_length_eq_zero (by omega)
      rw [List.dropWhile_append, hnone]
      rfl
    have hnarrow : ¬ W.headD 0 < width := by
      intro hlt
      rw [hdrop] at hmatch
      cases W with
      | nil => exact absurd hmatch (Nat.ne_of_lt hlt)
      | cons w W =>
          rw [List.dropWhile_cons_of_neg (by simpa using Nat.le_of_lt hlt)] at hmatch
          exact absurd hmatch (Nat.ne_of_lt hlt)
    rw [List.takeWhile_append, if_pos hpopped, List.length_append] at hlength
    rw [if_neg hnarrow, ← hdrop, if_pos hmatch, List.reverse_replicate, List.takeWhile_append, if_pos hpopped,
      List.length_append]
    have hclosed : (W.takeWhile (width < ·)).length = rest.length := by omega
    rw [hclosed, hopen]
    exact ⟨rfl, rfl⟩

/-! ## reading on -/

/-- Two lexers inside of a logical line, one of them so many lines further down. -/
structure Parallel (n : Nat) (lx lx' : Lexer) : Prop where
  cursor : lx'.cursor = lx.cursor.moved n []
  widths : lx'.widths = lx.widths
  depth : lx'.depth = lx.depth
  atLineStart : lx'.atLineStart = lx.atLineStart
  clean : lx.faults = []
  clean' : lx'.faults = []

/-- What two lexers read from here on. The second one may start with the end of a line. -/
def ReadsOn (lx lx' : Lexer) (more : List TokenKind) : Prop :=
  lx.run.faults = [] ∧ ∃ new new', lx.run.close.tokens = new ++ lx.tokens ∧ lx'.run.close.tokens = new' ++ lx'.tokens ∧
    new'.map (·.kind) = new.map (·.kind) ++ more

/-- Two lexers that are in the middle of a line, or both are not, read alike. -/
theorem Parallel.readsOn {n : Nat} (h : Parallel n lx lx') (hin : lx'.inLine = lx.inLine)
    (hclean : lx'.run.faults = []) :
    ReadsOn lx lx' [] := by
  have hechoes : Echoes n [] lx lx' lx lx' :=
    ⟨h.cursor, ⟨[], rfl, rfl⟩, ⟨[], rfl, rfl⟩, ⟨hin, by rw [h.clean, h.clean']⟩, h.widths, h.depth, h.atLineStart⟩
  obtain ⟨new, hnew, hnew'⟩ := hechoes.run.close.tokens
  obtain ⟨faults, hfaults, hfaults'⟩ := hechoes.run.faults
  refine ⟨?_, new, new.map (Token.down n), hnew, hnew', ?_⟩
  · rw [hfaults', List.append_eq_nil_iff, List.map_eq_nil_iff] at hclean
    rw [hfaults, hclean.1, h.clean]
    rfl
  · rw [List.append_nil, List.map_map]
    rfl

theorem ReadsOn.of_step {add add' : List Token} {more more' : List TokenKind} (h : ReadsOn lx.step lx'.step more)
    (hlx : lx.finished = false) (hlx' : lx'.finished = false) (htokens : lx.step.tokens = add ++ lx.tokens)
    (htokens' : lx'.step.tokens = add' ++ lx'.tokens)
    (hmore : more ++ add'.map (·.kind) = add.map (·.kind) ++ more') : ReadsOn lx lx' more' := by
  obtain ⟨hclean, new, new', hnew, hnew', hkinds⟩ := h
  rw [← run_step hlx] at hclean hnew
  rw [← run_step hlx'] at hnew'
  refine ⟨hclean, new ++ add, new' ++ add', ?_, ?_, ?_⟩
  · rw [hnew, htokens, List.append_assoc]
  · rw [hnew', htokens', List.append_assoc]
  · rw [List.map_append, List.map_append, hkinds, List.append_assoc, hmore, List.append_assoc]

theorem Parallel.finished {n : Nat} (h : Parallel n lx lx') : lx'.finished = lx.finished := by
  rw [Lexer.finished, Lexer.finished, h.cursor, Cursor.moved, List.append_nil, h.clean, h.clean']

/-- Both read the same lexeme. -/
theorem Parallel.step_eq {n : Nat} (h : Parallel n lx lx') (hline : lx.atLineStart = false) :
    lx.step = lx.accept (scan lx.cursor).1 (scan lx.cursor).2 ∧
      lx'.step = lx'.accept ((scan lx.cursor).1.down n) ((scan lx.cursor).2.moved n []) := by
  refine ⟨by rw [step, if_neg (by simp [hline]), lexeme], ?_⟩
  rw [step, if_neg (by simp [h.atLineStart, hline]), lexeme, h.cursor, scan_moved n (parted_nil _) fun _ => rfl]

/-- Two lexers stay in parallel unless one of them opens or closes something that the other one does not. -/
theorem Parallel.step {n : Nat} (h : Parallel n lx lx') (hline : lx.atLineStart = false)
    (hend : lx'.finished = false) (hclean : lx'.step.run.faults = [])
    (hwidths : lx'.step.widths = lx.step.widths) (hdepth : lx'.step.depth = lx.step.depth)
    (hstart : lx'.step.atLineStart = lx.step.atLineStart) : Parallel n lx.step lx'.step := by
  obtain ⟨hstep, hstep'⟩ := h.step_eq hline
  have hclean' : lx'.step.faults = [] := (Comes.step hend (.here _)).clean (by rwa [run_step hend])
  have hnone : (scan lx.cursor).2.faults = [] := by
    rw [hstep', faults_accept, List.append_eq_nil_iff, List.reverse_eq_nil_iff] at hclean'
    exact List.map_eq_nil_iff.1 hclean'.1
  refine ⟨?_, hwidths, hdepth, hstart, ?_, hclean'⟩
  · rw [hstep, hstep', cursor_accept, cursor_accept]
    rfl
  · rw [hstep, faults_accept, hnone, h.clean]
    rfl

/-- At the end of the text, one of them in the middle of a line. -/
theorem Parallel.readsOn_end {n : Nat} (h : Parallel n lx lx') (hend : lx'.finished = true) (hin : lx.inLine = false)
    (hin' : lx'.inLine = true) : ReadsOn lx lx' [.newline] := by
  have hend' := h.finished.symm.trans hend
  refine ⟨by rw [run_of_finished hend', h.clean],
    ⟨.eof, lx.here⟩ :: List.replicate lx.widths.length ⟨.dedent, lx.here⟩,
    ⟨.eof, lx'.here⟩ :: (List.replicate lx'.widths.length ⟨.dedent, lx'.here⟩ ++ [⟨.newline, lx'.here⟩]), ?_, ?_, ?_⟩
  · simp [run_of_finished hend', close_eq, hin]
  · simp [run_of_finished hend, close_eq, hin']
  · simp [h.widths]

/-- Behind a block that is closed by a line without words, the end of that line is read. -/
theorem Parallel.resume {n : Nat} (h : Parallel n lx lx') (hline : lx.atLineStart = false) (hdepth : lx.depth = 0)
    (hin : lx.inLine = false) (hin' : lx'.inLine = true) (hclean : lx'.run.faults = []) :
    ReadsOn lx lx' [] ∨ ReadsOn lx lx' [.newline] := by
  fun_induction Lexer.run lx' generalizing lx with
  | case1 lx' hend => exact .inr (h.readsOn_end hend hin hin')
  | case2 lx' hend ih =>
      have hlx' : lx'.finished = false := by simpa using hend
      have hlx := h.finished.symm.trans hlx'
      have hsame := h.step hline hlx' hclean
      obtain ⟨hstep, hstep'⟩ := h.step_eq hline
      rw [accept] at hstep hstep'
      dsimp only [Scanned.moved] at hstep'
      cases hscan : (scan lx.cursor).2.lexeme with
      | trivia =>
          rw [hscan] at hstep hstep'
          dsimp only at hstep hstep'
          have htokens : lx.step.tokens = [] ++ lx.tokens := by rw [hstep]; rfl
          have htokens' : lx'.step.tokens = [] ++ lx'.tokens := by rw [hstep']; rfl
          have hon := ih (hsame (by rw [hstep, hstep']; exact h.widths) (by rw [hstep, hstep']; exact h.depth)
            (by rw [hstep, hstep']; exact h.atLineStart)) (by rw [hstep]; exact hline) (by rw [hstep]; exact hdepth)
            (by rw [hstep]; exact hin) (by rw [hstep']; exact hin') hclean
          exact hon.imp (·.of_step hlx hlx' htokens htokens' rfl) (·.of_step hlx hlx' htokens htokens' rfl)
      | token kind =>
          rw [hscan] at hstep hstep'
          dsimp only at hstep hstep'
          have htokens : lx.step.tokens =
              [⟨kind, (scan lx.cursor).2.next.spanFrom (scan lx.cursor).1⟩] ++ lx.tokens := by
            rw [hstep]
            rfl
          have htokens' : lx'.step.tokens = [⟨kind, ((scan lx.cursor).2.next.moved n []).spanFrom
              ((scan lx.cursor).1.down n)⟩] ++ lx'.tokens := by
            rw [hstep']
            rfl
          have hparallel := hsame (by rw [hstep, hstep']; exact h.widths)
            (by rw [hstep, hstep']; exact congrArg (depthAfter · kind) h.depth)
            (by rw [hstep, hstep']; exact h.atLineStart)
          refine .inl ((hparallel.readsOn ?_ hclean).of_step hlx hlx' htokens htokens' rfl)
          rw [inLine, inLine, htokens, htokens']
          rfl
      | lineEnd =>
          rw [hscan] at hstep hstep'
          dsimp only at hstep hstep'
          have hunopened : ¬ 0 < lx'.depth := by simp [h.depth, hdepth]
          rw [endLine_of_not_inLine (by exact hin) (by exact hdepth)] at hstep
          rw [endLine, if_neg (by exact hunopened), if_pos (by exact hin')] at hstep'
          have htokens : lx.step.tokens = [] ++ lx.tokens := by rw [hstep]; rfl
          have htokens' : lx'.step.tokens = [⟨.newline, ((scan lx.cursor).2.next.moved n []).spanFrom
              ((scan lx.cursor).1.down n)⟩] ++ lx'.tokens := by
            rw [hstep']
            rfl
          have hparallel := hsame (by rw [hstep, hstep']; exact h.widths) (by rw [hstep, hstep']; exact h.depth)
            (by rw [hstep, hstep'])
          refine .inr ((hparallel.readsOn ?_ hclean).of_step hlx hlx' htokens htokens' rfl)
          rw [inLine, htokens']
          exact (show false = lx.step.inLine by rw [hstep]; exact hin.symm)

/-! ## the line in place of others -/

/-- A line with nothing but `pass` on it, without its white space. -/
def passLine : List Char := ['p', 'a', 's', 's', '\n']

theorem scan_passLine (q : List Char) (pos : Pos) : (scan ⟨passLine ++ q, pos⟩).2 =
    ⟨.token (.keyword .pass), ⟨'\n' :: q, ['p', 'a', 's', 's'].foldl Pos.after pos⟩, []⟩ := by
  rfl

theorem layout_facing (lx : Lexer) (width : Nat) (text : List Char) :
    (lx.facing text).layout width = (lx.layout width).facing text := by
  unfold layout
  simp only [foldl_dedent]
  rw [apply_ite (fun lx : Lexer => lx.facing text), apply_ite (fun lx : Lexer => lx.facing text)]
  rfl

/-- A line is measured by its white space. -/
theorem measure_facing {head : Lexer} (hhead : head.AtHead) {c : Char} {cs : List Char} (hc : isIndentation c = false)
    (hfilled : isBlankRest (c :: cs) = false) :
    (head.facing (head.cursor.rest.takeWhile isIndentation ++ c :: cs)).measure = head.measure.facing (c :: cs) := by
  have hblanks : ∀ d ∈ head.cursor.rest.takeWhile isIndentation, isIndentation d = true := fun d hd =>
    List.mem_takeWhile_imp hd
  have hskip : (head.facing (head.cursor.rest.takeWhile isIndentation ++ c :: cs)).behindBlanks =
      head.behindBlanks.facing (c :: cs) := by
    have hpos := (Cursor.passes_skipWhile isIndentation head.cursor).1.2
    unfold behindBlanks facing
    rw [skipWhile_append hblanks hc, hpos]
  have htake : (head.cursor.rest.takeWhile isIndentation ++ c :: cs).takeWhile isIndentation =
      head.cursor.rest.takeWhile isIndentation := by
    rw [List.takeWhile_append_of_pos hblanks, List.takeWhile_cons_of_neg (by simp [hc]), List.append_nil]
  rw [measure_eq, hskip, if_neg (show ¬ isBlankRest (head.behindBlanks.facing (c :: cs)).cursor.rest = true from
    Bool.eq_false_iff.1 hfilled), measure_eq,
    if_neg (by simp [hhead.filled]), layout_facing]
  exact congrArg (fun blanks => (head.behindBlanks.layout (indentWidth blanks)).facing (c :: cs)) htake

theorem AtHead.unfinished {head : Lexer} (h : head.AtHead) (hclean : head.faults = []) : head.finished = false := by
  have hfilled := h.filled
  cases hrest : head.cursor.rest with
  | nil =>
      rw [show head.behindBlanks.cursor = head.cursor.skipWhile isIndentation from rfl, Cursor.skipWhile,
        Cursor.rest_advance, hrest] at hfilled
      cases hfilled
  | cons => simp [finished, hrest, hclean, maxDiagnostics]

theorem AtHead.measure_eq {head : Lexer} (h : head.AtHead) :
    head.measure = head.behindBlanks.layout (indentWidth (head.cursor.rest.takeWhile isIndentation)) := by
  rw [Lexer.measure_eq, if_neg (by simp [h.filled])]

theorem step_lineEnd (lx : Lexer) {text : List Char} (hline : lx.atLineStart = false) (hdepth : lx.depth = 0)
    (hin : lx.inLine = true) (hrest : lx.cursor.rest = '\n' :: text) :
    ∃ newline : Token, newline.kind = .newline ∧ lx.step = { lx with
      cursor := ⟨text, ⟨lx.cursor.pos.line + 1, 1⟩⟩
      tokens := newline :: lx.tokens
      atLineStart := true } := by
  have hscan := @scan_lineEnd [] nofun text lx.cursor.pos
  rw [List.nil_append, ← hrest] at hscan
  rw [step, if_neg (by simp [hline]), lexeme, accept, hscan]
  dsimp only
  rw [endLine, if_neg (show ¬ 0 < lx.depth by simp [hdepth]), if_pos (by exact hin)]
  exact ⟨_, rfl, rfl⟩

/-- A line is measured up to its first word. -/
theorem measured_of_atHead {head : Lexer} (hhead : head.AtHead) : head.measure.atLineStart = false ∧
    head.measure.depth = 0 ∧ head.measure.cursor.pos.line = head.cursor.pos.line := by
  obtain ⟨hcursor, hline⟩ := cursor_layout head.behindBlanks (indentWidth (head.cursor.rest.takeWhile isIndentation))
  rw [measure_eq, if_neg (by simp [hhead.filled]), hline, hcursor]
  refine ⟨rfl, ?_, ?_⟩
  · unfold layout
    simp only [foldl_dedent]
    have hdepth := (hhead.between hhead.atLineStart).2
    split
    · exact hdepth
    · split <;> exact hdepth
  · rw [show head.behindBlanks.cursor.pos = _ from (Cursor.passes_skipWhile isIndentation head.cursor).1.2]
    refine line_foldl_row (fun hmem => ?_) _
    exact absurd (List.mem_takeWhile_imp hmem) (by decide)

/-- Behind a `pass` on a line of its own: it is read like the first word of the line that was there. -/
def passed (head : Lexer) (w newline : Token) (text : List Char) : Lexer :=
  { head.measure with
    cursor := ⟨text, ⟨head.cursor.pos.line + 1, 1⟩⟩
    tokens := newline :: w :: head.measure.tokens
    atLineStart := true }

theorem comes_passed {head : Lexer} (hhead : head.AtHead) (hclean : head.measure.faults = []) (text : List Char) :
    ∃ w newline : Token, w.kind = .keyword .pass ∧ newline.kind = .newline ∧
      Comes (head.facing (head.cursor.rest.takeWhile isIndentation ++ (passLine ++ text)))
        (head.passed w newline text) := by
  have hmeasure := measure_facing hhead (show isIndentation 'p' = false by decide)
    (show isBlankRest ('p' :: 'a' :: 's' :: 's' :: '\n' :: text) = false by rfl)
  obtain ⟨hmeasured, hdepth, hpos⟩ := measured_of_atHead hhead
  have hzero : head.faults = [] := List.suffix_nil.1 (hclean ▸ faults_measure head)
  have hunfinished : ∀ {lx : Lexer}, lx.cursor.rest ≠ [] → lx.faults = [] → lx.finished = false := by
    intro lx hrest hnone
    simp [finished, hrest, hnone, maxDiagnostics]
  have hline : (['p', 'a', 's', 's'].foldl Pos.after head.measure.cursor.pos).line = head.cursor.pos.line :=
    (line_foldl_row (by decide) _).trans hpos
  have hfirst : (head.facing (head.cursor.rest.takeWhile isIndentation ++ (passLine ++ text))).step =
      head.measure.facing (passLine ++ text) := by
    rw [step, if_pos (by exact hhead.atLineStart)]
    exact hmeasure
  obtain ⟨w, hw, hsecond⟩ : ∃ w : Token, w.kind = .keyword .pass ∧ (head.measure.facing (passLine ++ text)).step =
      { head.measure with
        cursor := ⟨'\n' :: text, ['p', 'a', 's', 's'].foldl Pos.after head.measure.cursor.pos⟩
        tokens := w :: head.measure.tokens } := by
    rw [step, if_neg (by simp [facing, hmeasured]), lexeme, accept, facing, scan_passLine]
    exact ⟨_, rfl, rfl⟩
  obtain ⟨newline, hnewline, hthird⟩ := step_lineEnd { head.measure with
      cursor := ⟨'\n' :: text, ['p', 'a', 's', 's'].foldl Pos.after head.measure.cursor.pos⟩
      tokens := w :: head.measure.tokens } hmeasured hdepth (show (w.kind != .newline) = true by rw [hw]; rfl) rfl
  have hpassed : _ = head.passed w newline text := hthird.trans (by rw [hline]; rfl)
  refine ⟨w, newline, hw, hnewline, .step ?_ (hfirst ▸ .step ?_ (hsecond ▸ .step ?_ (hpassed ▸ .here _)))⟩
  · exact hunfinished (by simp [facing, passLine]) hzero
  · exact hunfinished (by simp [facing, passLine]) hclean
  · exact hunfinished (by simp) hclean

/-! ## the text behind -/

/-- Where a later line starts. -/
theorem pos_of_comes {head behind : Lexer} (hstart : head.atLineStart = true) (hlx : head.finished = false)
    (hcomes : Comes head.step behind) (hline : behind.atLineStart = true) :
    ∃ n, behind.cursor.pos = ⟨head.cursor.pos.line + 1 + n, 1⟩ := by
  obtain ⟨text, ⟨hrest, hpos⟩, hended⟩ := passes_comes (.step hlx hcomes)
    (show head.cursor.Passes [] head.cursor from ⟨rfl, rfl⟩) fun _ => .inl rfl
  obtain rfl | ⟨front, rfl⟩ := hended hline
  · have hlt := hcomes.remaining_le.trans_lt (remaining_step_lt hlx)
    rw [remaining, remaining, hline, hstart, hrest, List.nil_append] at hlt
    exact absurd hlt (Nat.lt_irrefl _)
  · refine ⟨(front.foldl Pos.after head.cursor.pos).line - head.cursor.pos.line, ?_⟩
    have hle := line_foldl_after front head.cursor.pos
    rw [hpos, List.foldl_append, List.foldl_cons, List.foldl_nil, Pos.after, if_pos rfl]
    congr 1
    omega

theorem inLine_of_dedents {lx : Lexer} {k : Nat} {span : Span} {more : List Token} (hk : k ≠ 0)
    (h : lx.tokens = List.replicate k ⟨.dedent, span⟩ ++ more) : lx.inLine = true := by
  obtain ⟨k, rfl⟩ := Nat.exists_eq_succ_of_ne_zero hk
  rw [inLine, h]
  rfl

/-- The line is measured on both sides, behind the blocks that have to be closed first on one of them. -/
theorem parallel_measure {n : Nat} {blocks : List Token} {ends rest : List TokenKind} (hlx : lx.AtHead)
    (hlx' : lx'.AtHead)
    (hcursor : lx'.cursor = lx.cursor.moved n []) (hwidths : lx.widths = W) (hwidths' : lx'.widths = D ++ W)
    (hclean : lx.faults = []) (hclean' : lx'.measure.faults = []) (hD : Opens kinds D.length)
    (hends : Opens (ends.reverse ++ kinds) 0) (hrest : rest.head? ≠ some .indent)
    (hblocks : lx'.measure.tokens = blocks.reverse ++ lx'.tokens) (hkinds : blocks.map (·.kind) = ends ++ rest) :
    Parallel n lx.measure lx'.measure ∧
      lx.measure.tokens = List.replicate rest.length ⟨.dedent, lx.behindBlanks.here⟩ ++ lx.tokens ∧
        blocks = List.replicate (ends.length + rest.length) ⟨.dedent, lx'.behindBlanks.here⟩ := by
  have hskip : lx'.behindBlanks.cursor = lx.behindBlanks.cursor.moved n [] := by
    rw [behindBlanks, hcursor]
    exact Cursor.skipWhile_moved (parted_nil _) (by decide)
  have hblanks : lx'.cursor.rest.takeWhile isIndentation = lx.cursor.rest.takeWhile isIndentation := by
    rw [hcursor, Cursor.moved, List.append_nil]
  have hmeasure := hlx.measure_eq
  have hmeasure' := hlx'.measure_eq
  rw [hblanks] at hmeasure'
  rw [hmeasure'] at hclean' hblocks
  obtain ⟨hlayout, hall⟩ := @layout_behind lx'.behindBlanks lx.behindBlanks _ _ _ _ _ _ hwidths' hwidths
    hclean' hD hends hrest _ hblocks hkinds
  rw [← hmeasure] at hlayout
  rw [← hmeasure'] at hlayout
  obtain ⟨hcursor₂, -⟩ := cursor_layout lx'.behindBlanks (indentWidth (lx.cursor.rest.takeWhile isIndentation))
  rw [← hmeasure', hskip] at hcursor₂
  refine ⟨⟨?_, ?_, ?_, ?_, ?_, hmeasure' ▸ hclean'⟩, ?_, hall⟩
  · rw [hlayout, hcursor₂]
  · rw [hlayout]
  · rw [(measured_of_atHead hlx).2.1, (measured_of_atHead hlx').2.1]
  · rw [(measured_of_atHead hlx).1, (measured_of_atHead hlx').1]
  · rw [hlayout]
    exact hclean
  · rw [hlayout]
    rfl

/-- The line behind a `pass` starts like the one behind what was there. -/
theorem atHead_passed {head behind : Lexer} {w newline : Token} {text : List Char} {n : Nat}
    (hnewline : newline.kind = .newline) (hhead : head.AtHead) (hbehind : behind.AtHead)
    (hcursor : behind.cursor = (head.passed w newline text).cursor.moved n []) :
    (head.passed w newline text).AtHead := by
  refine ⟨rfl, fun _ => ⟨by simp [passed, inLine, hnewline], (measured_of_atHead hhead).2.1⟩, ?_⟩
  have hskip : behind.behindBlanks.cursor = (head.passed w newline text).behindBlanks.cursor.moved n [] := by
    rw [behindBlanks, hcursor]
    exact Cursor.skipWhile_moved (parted_nil _) (by decide)
  have hfilled := hbehind.filled
  rwa [hskip, Cursor.moved, List.append_nil] at hfilled

/-- Behind blocks that have been closed on both sides both read alike. If they have been closed on one side only, then
the end of a line may be read there as well. -/
theorem Parallel.readsOn_closed {n i j : Nat} {m m' : Lexer} {span span' : Span} (h : Parallel n m m')
    (hline : m.atLineStart = false) (hdepth : m.depth = 0) (hin : lx.inLine = false) (hin' : lx'.inLine = false)
    (htokens : m.tokens = List.replicate i ⟨.dedent, span⟩ ++ lx.tokens)
    (htokens' : m'.tokens = List.replicate (j + i) ⟨.dedent, span'⟩ ++ lx'.tokens) (hclean : m'.run.faults = []) :
    ReadsOn m m' [] ∨ i = 0 ∧ ReadsOn m m' [.newline] := by
  by_cases hresumes : i = 0 ∧ j ≠ 0
  · obtain ⟨rfl, hne⟩ := hresumes
    have hsame : m.tokens = lx.tokens := htokens
    have hbetween : m.inLine = false := by rwa [inLine, hsame, ← inLine]
    exact (h.resume hline hdepth hbetween (inLine_of_dedents hne htokens') hclean).imp_right fun hreads => ⟨rfl, hreads⟩
  · refine .inl (h.readsOn ?_ hclean)
    cases i with
    | zero =>
        obtain rfl : j = 0 := by simpa using hresumes
        have hsame : m.tokens = lx.tokens := htokens
        have hsame' : m'.tokens = lx'.tokens := htokens'
        rw [inLine, hsame', ← inLine, hin', inLine, hsame, ← inLine, hin]
    | succ i => rw [inLine_of_dedents (Nat.succ_ne_zero i) htokens, inLine_of_dedents (Nat.succ_ne_zero _) htokens']

/-- From the next logical line on both texts are read alike. -/
theorem readsOn_behind {head behind : Lexer} {w newline : Token} {X blocks : List Token} {ends rest : List TokenKind}
    (hnewline : newline.kind = .newline) (hhead : head.AtHead) (hbehind : behind.AtHead)
    (hcomes : Comes head.step behind) (hclean : head.run.faults = []) (hX : behind.tokens = X ++ head.measure.tokens)
    (hblocks : behind.measure.tokens = blocks.reverse ++ behind.tokens) (hkinds : blocks.map (·.kind) = ends ++ rest)
    (hends : Opens (ends.reverse ++ X.map (·.kind)) 0) (hrest : rest.head? ≠ some .indent) :
    (head.passed w newline behind.cursor.rest).run.faults = [] ∧ ∃ new new' : List Token,
      (head.passed w newline behind.cursor.rest).run.close.tokens = new ++ newline :: w :: head.measure.tokens ∧
      behind.run.close.tokens = new' ++ behind.measure.tokens ∧
      (new.map (·.kind) = new'.map (·.kind) ++ rest.reverse ∨
        rest = [] ∧ new'.map (·.kind) = new.map (·.kind) ++ [.newline]) := by
  have hlx := hhead.unfinished ((Comes.here head).clean hclean)
  have hmeasure : head.step = head.measure := by rw [step, if_pos hhead.atLineStart]
  have hclean' : behind.run.faults = [] := by rwa [← hcomes.run_eq, ← run_step hlx]
  have hzero : behind.faults = [] := (Comes.here behind).clean hclean'
  have hlx' := hbehind.unfinished hzero
  have hstep' : behind.step = behind.measure := by rw [step, if_pos hbehind.atLineStart]
  have hnone : behind.measure.faults = [] := hstep' ▸ (Comes.step hlx' (.here _)).clean hclean'
  obtain ⟨m, hm⟩ := hends.suffix (List.suffix_append _ _)
  obtain ⟨D, hwidths, hD⟩ := widths_comes (D := []) (W := head.measure.widths) hcomes hzero
    (by rw [hmeasure]; rfl) .nil (hmeasure ▸ hX) (by rwa [List.append_nil])
  obtain ⟨n, hpos⟩ := pos_of_comes hhead.atLineStart hlx hcomes hbehind.atLineStart
  have hcursor : behind.cursor = (head.passed w newline behind.cursor.rest).cursor.moved n [] := by
    rw [passed, Cursor.moved, List.append_nil, Pos.down, ← hpos]
  have hat := atHead_passed hnewline hhead hbehind hcursor
  have hfaults : (head.passed w newline behind.cursor.rest).faults = [] :=
    show head.measure.faults = [] from hmeasure ▸ (Comes.step hlx (.here _)).clean hclean
  have hfirst : (head.passed w newline behind.cursor.rest).tokens = newline :: w :: head.measure.tokens := rfl
  obtain ⟨hparallel, htokens, hall⟩ := parallel_measure hat hbehind hcursor rfl hwidths hfaults hnone
    (hD ▸ hm) hends hrest hblocks hkinds
  generalize head.passed w newline behind.cursor.rest = lx at *
  have hstep : lx.step = lx.measure := by rw [step, if_pos hat.atLineStart]
  have hclosed : behind.measure.tokens =
      List.replicate (ends.length + rest.length) ⟨.dedent, behind.behindBlanks.here⟩ ++ behind.tokens := by
    rw [hblocks, hall, List.reverse_replicate]
  have hdedents : rest.reverse = List.replicate rest.length .dedent := by
    rw [hall, List.map_replicate] at hkinds
    rw [(List.append_eq_replicate_iff.1 hkinds.symm).2.2, List.reverse_replicate, List.length_replicate]
  rw [run_step hlx', hstep'] at hclean' ⊢
  rw [run_step (hat.unfinished hfaults), hstep]
  obtain ⟨hdone, new, new', hnew, hnew', hmore⟩ | ⟨hnil, hdone, new, new', hnew, hnew', hmore⟩ :=
    hparallel.readsOn_closed (measured_of_atHead hat).1 (measured_of_atHead hat).2.1
      (hat.between hat.atLineStart).1 (hbehind.between hbehind.atLineStart).1 htokens hclosed hclean'
  · refine ⟨hdone, new ++ List.replicate rest.length ⟨.dedent, lx.behindBlanks.here⟩, new', ?_, hnew', .inl ?_⟩
    · rw [hnew, htokens, hfirst, List.append_assoc]
    · rw [List.map_append, List.map_replicate, ← hdedents, hmore, List.append_nil]
  · obtain rfl := List.length_eq_zero_iff.1 hnil
    have hsame : lx.measure.tokens = lx.tokens := htokens
    exact ⟨hdone, new, new', by rw [hnew, hsame, hfirst], hnew', .inr ⟨rfl, hmore⟩⟩

end Lexer

end ViewSync
