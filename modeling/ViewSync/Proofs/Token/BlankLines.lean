import ViewSync.Proofs.Token.Ahead
import ViewSync.Proofs.Token.Layout

/-!
# ViewSync.Proofs.Token.BlankLines

A blank line changes nothing but the lines below it. Where the lexer is between two logical lines or inside brackets,
it reads white space, a comment and a newline without a trace (`Lexer.run_blankLine`). What it has read by then does
not depend on the text that follows (`Lexer.run_append`), and what it reads from then on it would read alike one line
further down (`Lexer.Echoes.run`). So a text has the same tokens, faults and diagnostics with the blank line and
without it, but for the line numbers behind that line (`lex_blankLine`).
-/

namespace ViewSync

theorem isBlankRest_append {ahead more : List Char} (h : Parted ahead more) :
    isBlankRest (ahead ++ more) = isBlankRest ahead := by
  cases ahead with
  | nil => rw [h.of_nil, List.append_nil]
  | cons c cs =>
      by_cases hc : c = '\r'
      · subst hc
        have htail : Parted cs more := h.tail (by decide)
        cases cs with
        | nil => rw [htail.of_nil, List.append_nil]
        | cons d cs =>
            rw [List.cons_append, List.cons_append]
            by_cases hd : d = '\n'
            · rw [hd]
              rfl
            · simp [isBlankRest, hd]
      · simp [isBlankRest, hc]

namespace Lexer

/-! ## two readings -/

/-- Two lexers that read the same, one of them so many lines further down and with more text behind, from the point on
at which they had the tokens and the faults of `base` and `base'`. -/
structure Echoes (n : Nat) (more : List Char) (base base' lx lx' : Lexer) : Prop where
  cursor : lx'.cursor = lx.cursor.moved n more
  tokens : ∃ new, lx.tokens = new ++ base.tokens ∧ lx'.tokens = new.map (Token.down n) ++ base'.tokens
  faults : ∃ new, lx.faults = new ++ base.faults ∧ lx'.faults = new.map (Fault.down n) ++ base'.faults
  even : base'.inLine = base.inLine ∧ base'.faults.length = base.faults.length
  widths : lx'.widths = lx.widths
  depth : lx'.depth = lx.depth
  atLineStart : lx'.atLineStart = lx.atLineStart

namespace Echoes

variable {n : Nat} {more : List Char} {base base' lx lx' : Lexer}

theorem here (h : Echoes n more base base' lx lx') : lx'.here = lx.here.down n := by
  rw [Lexer.here, h.cursor]
  rfl

theorem inLine (h : Echoes n more base base' lx lx') : lx'.inLine = lx.inLine := by
  obtain ⟨new, hnew, hnew'⟩ := h.tokens
  have heven := h.even.1
  unfold Lexer.inLine at heven ⊢
  rw [hnew, hnew']
  cases new with
  | nil => exact heven
  | cons => rfl

theorem length_faults (h : Echoes n more base base' lx lx') : lx'.faults.length = lx.faults.length := by
  obtain ⟨new, hnew, hnew'⟩ := h.faults
  simp [hnew, hnew', h.even.2]

theorem push (h : Echoes n more base base' lx lx') (kind : TokenKind) (span : Span) :
    Echoes n more base base' (lx.push kind span) (lx'.push kind (span.down n)) := by
  obtain ⟨new, hnew, hnew'⟩ := h.tokens
  refine { h with tokens := ⟨⟨kind, span⟩ :: new, ?_, ?_⟩ }
  · rw [Lexer.push, hnew]
    rfl
  · rw [Lexer.push, hnew']
    rfl

theorem withFaults (h : Echoes n more base base' lx lx') (faults : List (Fault LexError)) :
    Echoes n more base base' { lx with faults := faults ++ lx.faults }
      { lx' with faults := faults.map (Fault.down n) ++ lx'.faults } := by
  obtain ⟨new, hnew, hnew'⟩ := h.faults
  refine { h with faults := ⟨faults ++ new, ?_, ?_⟩ }
  · simp [hnew]
  · simp [hnew']

theorem withCursor (h : Echoes n more base base' lx lx') (cursor : Cursor) :
    Echoes n more base base' { lx with cursor := cursor } { lx' with cursor := cursor.moved n more } :=
  { h with cursor := rfl }

theorem withWidths (h : Echoes n more base base' lx lx') (widths : List Nat) :
    Echoes n more base base' { lx with widths := widths } { lx' with widths := widths } :=
  { h with widths := rfl }

theorem withLineStart (h : Echoes n more base base' lx lx') (atLineStart : Bool) :
    Echoes n more base base' { lx with atLineStart := atLineStart } { lx' with atLineStart := atLineStart } :=
  { h with atLineStart := rfl }

theorem dedents (h : Echoes n more base base' lx lx') (closed : List Nat) :
    Echoes n more base base' (closed.foldl (fun acc _ => acc.push .dedent acc.here) lx)
      (closed.foldl (fun acc _ => acc.push .dedent acc.here) lx') := by
  induction closed generalizing lx lx' with
  | nil => exact h
  | cons width closed ih =>
      have hpush := h.push .dedent lx.here
      rw [← h.here] at hpush
      exact ih hpush

theorem layout (h : Echoes n more base base' lx lx') (width : Nat) :
    Echoes n more base base' (lx.layout width) (lx'.layout width) := by
  unfold Lexer.layout Lexer.width
  rw [h.widths, h.here]
  split
  · exact (h.push .indent lx.here).withWidths _
  · have hclosed := (h.dedents (splitWidths width lx.widths).1).withWidths (splitWidths width lx.widths).2
    dsimp only
    split
    · exact hclosed
    · exact (hclosed.withWidths (width :: (splitWidths width lx.widths).2)).withFaults [⟨.unmatchedIndent, lx.here⟩]

theorem measure (h : Echoes n more base base' lx lx') (parted : Parted lx.cursor.rest more) :
    Echoes n more base base' lx.measure lx'.measure := by
  have hblanks : lx'.cursor.rest.takeWhile isIndentation = lx.cursor.rest.takeWhile isIndentation := by
    rw [h.cursor]
    exact parted.takeWhile_append (by decide)
  have hbehind : Echoes n more base base' lx.behindBlanks lx'.behindBlanks := by
    unfold behindBlanks
    rw [h.cursor, Cursor.skipWhile_moved parted (by decide)]
    exact (h.withCursor _).withLineStart false
  have hblank : isBlankRest lx'.behindBlanks.cursor.rest = isBlankRest lx.behindBlanks.cursor.rest := by
    rw [hbehind.cursor]
    exact isBlankRest_append (Cursor.parted_skipWhile parted (by decide))
  rw [measure_eq, measure_eq, hblank, hblanks]
  split
  · exact hbehind
  · exact hbehind.layout _

theorem endLine (h : Echoes n more base base' lx lx') (span : Span) :
    Echoes n more base base' (lx.endLine span) (lx'.endLine (span.down n)) := by
  unfold Lexer.endLine
  rw [h.depth, h.inLine]
  split
  · exact h
  · split
    · exact (h.push .newline span).withLineStart true
    · exact h.withLineStart true

theorem accept (h : Echoes n more base base' lx lx') (start : Pos) (scanned : Scanned) :
    Echoes n more base base' (lx.accept start scanned) (lx'.accept (start.down n) (scanned.moved n more)) := by
  have hread := (h.withCursor scanned.next).withFaults scanned.faults.reverse
  rw [List.map_reverse] at hread
  unfold Lexer.accept
  dsimp only [Scanned.moved]
  cases scanned.lexeme with
  | trivia => exact hread
  | lineEnd => exact hread.endLine (scanned.next.spanFrom start)
  | token kind =>
      have hpush := hread.push kind (scanned.next.spanFrom start)
      exact { hpush with depth := congrArg (depthAfter · kind) h.depth }

/-- One step of both. A string that is open where the text ends reads differently with more text behind. -/
theorem step (h : Echoes n more base base' lx lx') (parted : Parted lx.cursor.rest more)
    (hopen : lx.atLineStart = false → (scan lx.cursor).2.Open → more = []) :
    Echoes n more base base' lx.step lx'.step := by
  unfold Lexer.step
  rw [h.atLineStart]
  split
  · exact h.measure parted
  · next hline =>
    have hscan := scan_moved n parted (hopen (by simpa using hline))
    unfold Lexer.lexeme
    rw [h.cursor, hscan]
    exact h.accept _ _

theorem finished (h : Echoes n more base base' lx lx') (hlx : lx.finished = false) : lx'.finished = false := by
  simp only [Lexer.finished, Bool.or_eq_false_iff, List.isEmpty_eq_false_iff, decide_eq_false_iff_not, h.length_faults]
    at hlx ⊢
  refine ⟨?_, hlx.2⟩
  rw [h.cursor]
  simp [Cursor.moved, hlx.1]

/-- With no more text behind both read to the same place. -/
theorem run (h : Echoes n [] base base' lx lx') : Echoes n [] base base' lx.run lx'.run := by
  fun_induction Lexer.run lx generalizing lx' with
  | case1 lx hfinished =>
      have hfinished' : lx'.finished = true := by
        simp only [Lexer.finished, Bool.or_eq_true, List.isEmpty_iff, decide_eq_true_eq, h.length_faults] at hfinished ⊢
        refine hfinished.imp_left fun hnil => ?_
        rw [h.cursor, Cursor.moved, hnil]
        rfl
      rwa [run_of_finished hfinished']
  | case2 lx hfinished ih =>
      rw [run_step (h.finished (by simpa using hfinished))]
      exact ih (h.step (parted_nil _) fun _ _ => rfl)

theorem close (h : Echoes n more base base' lx lx') : Echoes n more base base' lx.close lx'.close := by
  have hended : Echoes n more base base' (if lx.inLine then lx.push .newline lx.here else lx)
      (if lx'.inLine then lx'.push .newline lx'.here else lx') := by
    rw [h.inLine, h.here]
    split
    · exact h.push .newline lx.here
    · exact h
  unfold Lexer.close
  dsimp only
  generalize (if lx.inLine then lx.push .newline lx.here else lx) = ended at hended ⊢
  generalize (if lx'.inLine then lx'.push .newline lx'.here else lx') = ended' at hended ⊢
  have hclosed := hended.dedents ended.widths
  rw [hended.widths]
  have heof := hclosed.push .eof (ended.widths.foldl (fun acc _ => acc.push .dedent acc.here) ended).here
  rwa [← hclosed.here] at heof

/-- With no lines in between and no more text both are one. -/
theorem eq_moved (h : Echoes 0 more base base lx lx') : lx' = { lx with cursor := lx.cursor.moved 0 more } := by
  obtain ⟨tokens, htokens, htokens'⟩ := h.tokens
  obtain ⟨faults, hfaults, hfaults'⟩ := h.faults
  rw [Token.down_zero, List.map_id] at htokens'
  rw [Fault.down_zero, List.map_id] at hfaults'
  cases lx
  cases lx'
  simp only [Lexer.mk.injEq]
  exact ⟨h.cursor, htokens'.trans htokens.symm, h.widths, h.depth, h.atLineStart, hfaults'.trans hfaults.symm⟩

end Echoes

/-! ## the end of what is read -/

/-- A string is still open at the end of the text: its fault reaches to the line where the text ends. -/
def inString (lx : Lexer) : Bool :=
  lx.cursor.rest.isEmpty && lx.faults.any fun fault =>
    fault.cause == .unterminatedString && fault.span.last.line == lx.cursor.pos.line

/-- Behind a string that is open where the text ends, nothing is left to read. -/
theorem inString_run {lx : Lexer} (hlx : lx.finished = false) (hline : lx.atLineStart = false)
    (hopen : (scan lx.cursor).2.Open) : lx.run.inString = true := by
  obtain ⟨hnil, fault, hfault, hcause, hpos⟩ := hopen
  have hcursor : lx.step.cursor = (scan lx.cursor).2.next := by
    rw [step, if_neg (by simp [hline]), lexeme, cursor_accept]
  have hfaults : lx.step.faults = (scan lx.cursor).2.faults.reverse ++ lx.faults := by
    rw [step, if_neg (by simp [hline]), lexeme, faults_accept]
  have hfinished : lx.step.finished = true := by simp [finished, hcursor, hnil]
  rw [run_step hlx, run_of_finished hfinished, inString, hcursor, hnil, hfaults, List.isEmpty_nil, Bool.true_and,
    List.any_eq_true]
  exact ⟨fault, List.mem_append_left _ (List.mem_reverse.2 hfault), by simp [hcause, hpos]⟩

/-- With more text behind the end of a line, the same is read up to there. -/
theorem Echoes.run_read {n : Nat} {more : List Char} {base base' lx lx' : Lexer} (h : Echoes n more base base' lx lx')
    (ended : Ended lx.cursor.rest) (outside : lx.run.inString = false) :
    ∃ lx'', Echoes n more base base' lx.run lx'' ∧ lx'.run = lx''.run := by
  fun_induction Lexer.run lx generalizing lx' with
  | case1 lx hfinished => exact ⟨lx', h, rfl⟩
  | case2 lx hfinished ih =>
      have hlx : lx.finished = false := by simpa using hfinished
      have hne : lx.cursor.rest ≠ [] := fun hnil => by simp [Lexer.finished, hnil] at hlx
      have hstep := h.step (.inr (ended.resolve_left hne)) fun hline hopen => by
        rw [← run_step hlx, inString_run hlx hline hopen] at outside
        cases outside
      rw [run_step (h.finished hlx)]
      exact ih hstep (ended.of_reaches lx.reads_step.cursor) outside

/-- What is read of a text that ends with a newline does not depend on the text that follows. -/
theorem run_append {p : String} (ended : Ended p.toList) (outside : (start p).run.inString = false) (more : String) :
    (start (p ++ more)).run =
      ({ (start p).run with cursor := (start p).run.cursor.moved 0 more.toList } : Lexer).run := by
  have hstart : Echoes 0 more.toList (start p) (start p) (start p) (start (p ++ more)) := by
    refine ⟨?_, ⟨[], rfl, rfl⟩, ⟨[], rfl, rfl⟩, ⟨rfl, rfl⟩, rfl, rfl, rfl⟩
    rw [start, Cursor.start, String.toList_append]
    rfl
  obtain ⟨lx, hlx, hrun⟩ := hstart.run_read ended outside
  rw [hrun, hlx.eq_moved]

/-- A lexer that gives up does so in front of the end of the text. -/
theorem length_faults_run_lt {lx : Lexer} (uncapped : lx.faults.length < maxDiagnostics) (ended : Ended lx.cursor.rest)
    (outside : lx.run.inString = false) (hrest : lx.run.cursor.rest = []) :
    lx.run.faults.length < maxDiagnostics := by
  fun_induction Lexer.run lx with
  | case1 lx hfinished => exact uncapped
  | case2 lx hfinished ih =>
      have hlx : lx.finished = false := by simpa using hfinished
      by_cases hstep : lx.step.faults.length < maxDiagnostics
      · exact ih hstep (ended.of_reaches lx.reads_step.cursor) outside hrest
      · -- The last fault is that of a lexeme, and there is no text behind it.
        have hlast : lx.step.run = lx.step := run_of_finished (by simp [finished, Nat.le_of_not_lt hstep])
        have hnil : lx.step.cursor.rest = [] := by rwa [hlast] at hrest
        have hline : lx.atLineStart = false := by
          cases hstart : lx.atLineStart with
          | false => rfl
          | true =>
              rw [step, if_pos hstart, measure_eq] at hnil hstep
              split at hnil
              · next hblank => exact absurd uncapped (by rwa [if_pos hblank] at hstep)
              · next hblank =>
                rw [(cursor_layout _ _).1] at hnil
                exact absurd (by rw [hnil]; rfl) hblank
        have hlexeme : lx.step = lx.lexeme := by rw [step, if_neg (by simp [hline])]
        rw [hlexeme, lexeme, faults_accept, List.length_append] at hstep
        rw [hlexeme, lexeme, cursor_accept] at hnil
        obtain ⟨fault, hfault⟩ : ∃ fault, fault ∈ (scan lx.cursor).2.faults := by
          refine List.exists_mem_of_length_pos ?_
          rw [List.length_reverse] at hstep
          omega
        have hne : lx.cursor.rest ≠ [] := fun hnil => by simp [finished, hnil] at hlx
        have hparted : Parted lx.cursor.rest [' '] := .inr (ended.resolve_left hne)
        have hopen := (fault_scan hparted hfault).2 hnil
        rw [← run_step hlx, inString_run hlx hline (hopen.resolve_right (by simp))] at outside
        cases outside

/-! ## blank lines -/

/-- A line is measured only where no logical line has been started and no bracket is open. -/
def Between (lx : Lexer) : Prop :=
  lx.atLineStart = true → lx.inLine = false ∧ lx.depth = 0

theorem between_endLine {lx : Lexer} (hline : lx.atLineStart = false) (span : Span) : (lx.endLine span).Between := by
  unfold endLine
  split
  · exact fun hstart => absurd hstart (by simp [hline])
  · next hdepth =>
    have hzero : lx.depth = 0 := by omega
    cases hin : lx.inLine with
    | true => exact fun _ => ⟨rfl, hzero⟩
    | false => exact fun _ => ⟨hin, hzero⟩

theorem between_step {lx : Lexer} (h : lx.Between) : lx.step.Between := by
  unfold step
  split
  · rw [measure_eq]
    split
    · exact nofun
    · intro hline
      rw [(cursor_layout _ _).2] at hline
      cases hline
  · next hline =>
    have hsame : lx.atLineStart = false := by simpa using hline
    unfold lexeme accept
    split
    · exact h
    · refine between_endLine ?_ _
      exact hsame
    · exact fun hstart => absurd hstart (by simp [push, hsame])

theorem between_run {lx : Lexer} (h : lx.Between) : lx.run.Between := by
  fun_induction run lx with
  | case1 lx _ => exact h
  | case2 lx _ ih => exact ih (between_step h)

end Lexer

/-- White space, perhaps a comment, and the end of the line. -/
def IsBlankLine (b : List Char) : Prop :=
  ∃ blanks comment, b = blanks ++ comment ++ ['\n'] ∧ (∀ c ∈ blanks, isIndentation c = true) ∧
    (comment = [] ∨ ∃ text, comment = '#' :: text ∧ '\n' ∉ text)

section

variable {blanks text q : List Char} {pos : Pos}

theorem skipWhile_append {p : Char → Bool} (h : ∀ c ∈ blanks, p c = true) {c : Char} (hc : p c = false)
    (cs : List Char) (pos : Pos) :
    (Cursor.mk (blanks ++ c :: cs) pos).skipWhile p = ⟨c :: cs, blanks.foldl Pos.after pos⟩ := by
  have htake : (blanks ++ c :: cs).takeWhile p = blanks := by
    rw [List.takeWhile_append_of_pos h, List.takeWhile_cons_of_neg (by simp [hc]), List.append_nil]
  have hrest : ((Cursor.mk (blanks ++ c :: cs) pos).skipWhile p).rest = c :: cs := by
    rw [Cursor.skipWhile, Cursor.rest_advance, htake, List.drop_left]
  have hpos : ((Cursor.mk (blanks ++ c :: cs) pos).skipWhile p).pos = blanks.foldl Pos.after pos := by
    rw [Cursor.skipWhile, Cursor.pos_advance, htake, List.take_left]
  cases hcur : (Cursor.mk (blanks ++ c :: cs) pos).skipWhile p
  rw [hcur] at hrest hpos
  rw [← hrest, ← hpos]

theorem line_foldl_row (h : '\n' ∉ blanks) (pos : Pos) : (blanks.foldl Pos.after pos).line = pos.line := by
  rw [foldl_after_row h]

theorem scan_lineEnd (h : ∀ c ∈ blanks, isSpace c = true) (q : List Char) (pos : Pos) :
    (scan ⟨blanks ++ '\n' :: q, pos⟩).2 = ⟨.lineEnd, ⟨q, ⟨pos.line + 1, 1⟩⟩, []⟩ := by
  have hnewline : '\n' ∉ blanks := fun hmem => absurd (h _ hmem) (by decide)
  rw [scan, skipWhile_append h (by decide)]
  have hline := line_foldl_row hnewline pos
  simp [scanHere, Cursor.advance, Pos.after, hline]

theorem scan_comment (h : ∀ c ∈ blanks, isSpace c = true) (htext : '\n' ∉ text) (q : List Char) (pos : Pos) :
    ∃ col, (scan ⟨blanks ++ '#' :: (text ++ '\n' :: q), pos⟩).2 = ⟨.trivia, ⟨'\n' :: q, ⟨pos.line, col⟩⟩, []⟩ := by
  have hnewline : '\n' ∉ blanks := fun hmem => absurd (h _ hmem) (by decide)
  have hcomment : '\n' ∉ '#' :: text := by simp [htext]
  have hskip : ∀ pos, (Cursor.mk (text ++ '\n' :: q) pos).skipWhile (· != '\n') =
      ⟨'\n' :: q, text.foldl Pos.after pos⟩ := by
    refine skipWhile_append (fun c hc => ?_) rfl q
    simpa using ne_of_mem_of_not_mem hc htext
  have hline : ((blanks ++ '#' :: text).foldl Pos.after pos).line = pos.line :=
    line_foldl_row (by simpa [hnewline] using htext) pos
  refine ⟨((blanks ++ '#' :: text).foldl Pos.after pos).col, ?_⟩
  rw [← hline, scan, skipWhile_append h (by decide), List.foldl_append, List.foldl_cons]
  simp [scanHere, Cursor.advance, hskip]

end

namespace Lexer

variable {lx : Lexer} {blanks comment text q : List Char}

/-- What a lexeme that leaves no token does. -/
theorem run_of_trivia {next : Cursor} (hline : lx.atLineStart = false) (hne : lx.cursor.rest ≠ [])
    (uncapped : lx.faults.length < maxDiagnostics) (hscan : (scan lx.cursor).2 = ⟨.trivia, next, []⟩) :
    lx.run = ({ lx with cursor := next } : Lexer).run := by
  have hfinished : lx.finished = false := by simpa [finished, hne] using uncapped
  have hstep : lx.step = { lx with cursor := next } := by
    rw [step, if_neg (by simp [hline]), lexeme, hscan]
    rfl
  rw [run_step hfinished, hstep]

theorem run_of_lineEnd {next : Cursor} (hline : lx.atLineStart = false) (hne : lx.cursor.rest ≠ [])
    (uncapped : lx.faults.length < maxDiagnostics) (hscan : (scan lx.cursor).2 = ⟨.lineEnd, next, []⟩) :
    ∃ span, lx.run = (({ lx with cursor := next } : Lexer).endLine span).run := by
  have hfinished : lx.finished = false := by simpa [finished, hne] using uncapped
  refine ⟨next.spanFrom (scan lx.cursor).1, ?_⟩
  have hstep : lx.step = ({ lx with cursor := next } : Lexer).endLine (next.spanFrom (scan lx.cursor).1) := by
    rw [step, if_neg (by simp [hline]), lexeme, hscan]
    rfl
  rw [run_step hfinished, hstep]

/-- The white space and the comment on a line are read up to its end. -/
theorem run_rest_of_line (hline : lx.atLineStart = false) (uncapped : lx.faults.length < maxDiagnostics)
    (hblanks : ∀ c ∈ blanks, isSpace c = true) (hcomment : comment = [] ∨ ∃ text, comment = '#' :: text ∧ '\n' ∉ text)
    (hrest : lx.cursor.rest = blanks ++ comment ++ '\n' :: q) :
    ∃ span, lx.run = (({ lx with cursor := ⟨q, ⟨lx.cursor.pos.line + 1, 1⟩⟩ } : Lexer).endLine span).run := by
  have hcursor : lx.cursor = ⟨blanks ++ comment ++ '\n' :: q, lx.cursor.pos⟩ := by rw [← hrest]
  have hne : lx.cursor.rest ≠ [] := by simp [hrest]
  obtain rfl | ⟨text, rfl, htext⟩ := hcomment
  · have hscan := scan_lineEnd hblanks q lx.cursor.pos
    rw [List.append_nil] at hcursor
    rw [← hcursor] at hscan
    exact run_of_lineEnd hline hne uncapped hscan
  · obtain ⟨col, hscan⟩ := scan_comment hblanks htext q lx.cursor.pos
    rw [List.append_assoc, List.cons_append] at hcursor
    rw [← hcursor] at hscan
    rw [run_of_trivia hline hne uncapped hscan]
    refine run_of_lineEnd hline (by simp) uncapped ?_
    have hnone : ∀ c ∈ ([] : List Char), isSpace c = true := nofun
    exact scan_lineEnd hnone q _

theorem endLine_of_not_inLine (hin : lx.inLine = false) (hdepth : lx.depth = 0) (span : Span) :
    lx.endLine span = { lx with atLineStart := true } := by
  rw [endLine, if_neg (by omega), hin]
  rfl

/-- A blank line is read without a trace. -/
theorem run_blankLine {b : List Char} (hb : IsBlankLine b) (hrest : lx.cursor.rest = b ++ q) (between : lx.Between)
    (ready : lx.atLineStart = true ∨ 0 < lx.depth) (uncapped : lx.faults.length < maxDiagnostics) :
    lx.run = ({ lx with cursor := ⟨q, ⟨lx.cursor.pos.line + 1, 1⟩⟩ } : Lexer).run := by
  obtain ⟨blanks, comment, rfl, hblanks, hcomment⟩ := hb
  have hspaces : ∀ c ∈ blanks, isSpace c = true := fun c hc => isSpace_of_isIndentation (hblanks c hc)
  have hrest' : lx.cursor.rest = blanks ++ comment ++ '\n' :: q := by simp [hrest]
  have hhead : ∃ c cs, comment ++ '\n' :: q = c :: cs ∧ isIndentation c = false ∧ isBlankRest (c :: cs) = true := by
    obtain rfl | ⟨text, rfl, -⟩ := hcomment
    · exact ⟨'\n', q, rfl, by decide, rfl⟩
    · exact ⟨'#', text ++ '\n' :: q, rfl, by decide, rfl⟩
  by_cases hline : lx.atLineStart = true
  · obtain ⟨hin, hdepth⟩ := between hline
    obtain ⟨c, cs, hcs, hc, hblank⟩ := hhead
    have hnewline : '\n' ∉ blanks := fun hmem => absurd (hblanks _ hmem) (by decide)
    have hcursor : lx.cursor = ⟨blanks ++ c :: cs, lx.cursor.pos⟩ := by
      rw [← hcs, ← List.append_assoc, ← hrest']
    have hskip : lx.behindBlanks.cursor = ⟨c :: cs, blanks.foldl Pos.after lx.cursor.pos⟩ := by
      rw [behindBlanks, hcursor]
      exact skipWhile_append hblanks hc cs _
    have hfinished : lx.finished = false := by simpa [finished, hrest'] using uncapped
    have hstep : lx.step = lx.behindBlanks := by
      rw [step, if_pos hline, measure_eq, hskip, if_pos hblank]
    have hread : lx.behindBlanks.cursor.rest = [] ++ comment ++ '\n' :: q := by rw [hskip, ← hcs]; rfl
    have hnone : ∀ c ∈ ([] : List Char), isSpace c = true := fun _ hc => absurd hc List.not_mem_nil
    obtain ⟨span, hrun⟩ := run_rest_of_line (show lx.behindBlanks.atLineStart = false from rfl) uncapped hnone hcomment
      hread
    rw [hskip, line_foldl_row hnewline] at hrun
    rw [run_step hfinished, hstep, hrun]
    refine congrArg run ((endLine_of_not_inLine ?_ ?_ span).trans ?_)
    · exact hin
    · exact hdepth
    · rw [hline]
      rfl
  · have hdepth : 0 < lx.depth := ready.resolve_left hline
    obtain ⟨span, hrun⟩ := run_rest_of_line (by simpa using hline) uncapped hspaces hcomment hrest'
    rw [hrun, endLine, if_pos hdepth]

end Lexer

/-! ## one line further down -/

/-- What starts behind the line goes one line further down. -/
def Span.below (line : Nat) (span : Span) : Span :=
  if line < span.first.line then span.down 1 else span

/-- The token, one line further down if it starts behind the line. -/
def Token.below (line : Nat) (t : Token) : Token :=
  ⟨t.kind, t.span.below line⟩

/-- The fault, one line further down if it starts behind the line. -/
def Fault.below (line : Nat) (fault : Fault LexError) : Fault LexError :=
  ⟨fault.cause, fault.span.below line⟩

/-- The tokens and the faults, those one line further down that start behind the line. -/
def Lexed.below (line : Nat) (lexed : Lexed) : Lexed :=
  ⟨lexed.tokens.map (Token.below line), lexed.faults.map (Fault.below line)⟩

/-- The diagnostic, one line further down if it starts behind the line. -/
def Diagnostic.below (line : Nat) (d : Diagnostic) : Diagnostic :=
  { d with span := d.span.below line }

/-- The diagnostics, those one line further down that start behind the line. -/
def Diagnostics.below (line : Nat) (ds : Diagnostics) : Diagnostics :=
  ⟨ds.stored.map (Diagnostic.below line), ds.total⟩

/-- How many lines of a text have ended. -/
def lineBreaks (text : String) : Nat :=
  text.toList.count '\n'

section

variable {line : Nat}

theorem Token.below_of_le {t : Token} (h : t.span.first.line ≤ line) : t.below line = t := by
  rw [below, Span.below, if_neg (Nat.not_lt.2 h)]

theorem Token.below_of_lt {t : Token} (h : line < t.span.first.line) : t.below line = t.down 1 := by
  rw [below, Span.below, if_pos h]
  rfl

theorem Fault.below_of_le {fault : Fault LexError} (h : fault.span.first.line ≤ line) : fault.below line = fault := by
  rw [below, Span.below, if_neg (Nat.not_lt.2 h)]

theorem Fault.below_of_lt {fault : Fault LexError} (h : line < fault.span.first.line) :
    fault.below line = fault.down 1 := by
  rw [below, Span.below, if_pos h]
  rfl

theorem Token.map_below {early late : List Token} (hearly : ∀ t ∈ early, t.span.first.line ≤ line)
    (hlate : ∀ t ∈ late, line < t.span.first.line) :
    (late ++ early).map (Token.below line) = late.map (Token.down 1) ++ early := by
  rw [List.map_append, List.map_congr_left fun t ht => below_of_lt (hlate t ht),
    List.map_congr_left fun t ht => below_of_le (hearly t ht), List.map_id']

theorem Fault.map_below {early late : List (Fault LexError)} (hearly : ∀ fault ∈ early, fault.span.first.line ≤ line)
    (hlate : ∀ fault ∈ late, line < fault.span.first.line) :
    (late ++ early).map (Fault.below line) = late.map (Fault.down 1) ++ early := by
  rw [List.map_append, List.map_congr_left fun fault h => below_of_lt (hlate fault h),
    List.map_congr_left fun fault h => below_of_le (hearly fault h), List.map_id']

end

/-! ## the lines of a text -/

/-- Behind a text the lexer is between two logical lines or inside brackets, and not inside a string. A lexer that
gives up before reads nothing behind it anyway. -/
structure Pauses (p : String) : Prop where
  ended : Ended p.toList
  ready : (Lexer.start p).run.cursor.rest = [] → (Lexer.start p).run.atLineStart = true ∨ 0 < (Lexer.start p).run.depth
  outside : (Lexer.start p).run.inString = false

section

variable {p : String}

theorem line_le_of_meets {pos : Pos} (ended : Ended p.toList) (h : (Lexer.start p).cursor.Meets pos) :
    pos.line ≤ lineBreaks p := by
  have hline : pos.line < 1 + lineBreaks p := h.line_lt ended
  omega

/-- What is read of a text that ends with a newline starts in one of its lines. -/
theorem line_le_of_run (ended : Ended p.toList) :
    (∀ t ∈ (Lexer.start p).run.tokens, t.span.first.line ≤ lineBreaks p) ∧
      ∀ fault ∈ (Lexer.start p).run.faults, fault.span.first.line ≤ lineBreaks p := by
  have hreads := (Lexer.start p).reads_run
  obtain ⟨tokens, htokens, hmeets⟩ := hreads.tokens
  obtain ⟨faults, hfaults, hplaces⟩ := hreads.faults
  have hnone : (Lexer.start p).tokens = [] ∧ (Lexer.start p).faults = [] := ⟨rfl, rfl⟩
  rw [hnone.1, List.append_nil] at htokens
  rw [hnone.2, List.append_nil] at hfaults
  rw [htokens, hfaults]
  exact ⟨fun t ht => line_le_of_meets ended (hmeets t ht), fun fault h => line_le_of_meets ended (hplaces fault h)⟩

/-- The text that follows starts a line. -/
theorem pos_run (ended : Ended p.toList) (hrest : (Lexer.start p).run.cursor.rest = []) :
    (Lexer.start p).run.cursor.pos = ⟨lineBreaks p + 1, 1⟩ := by
  obtain ⟨n, hn⟩ := (Lexer.start p).reads_run.cursor
  have hall : p.toList.take n = p.toList := by
    rw [hn, Cursor.rest_advance] at hrest
    exact List.take_of_length_le (List.drop_eq_nil_iff.1 hrest)
  have hpos : (Lexer.start p).run.cursor.pos = p.toList.foldl Pos.after ⟨1, 1⟩ := by
    rw [hn, Cursor.pos_advance]
    exact congrArg (List.foldl Pos.after ⟨1, 1⟩) hall
  rw [hpos, lineBreaks]
  obtain hnil | ⟨front, hfront⟩ := ended
  · rw [hnil]
    rfl
  · rw [hfront, List.foldl_concat, Pos.after, if_pos rfl, line_foldl_after, List.count_append,
      List.count_singleton_self]
    simp [Nat.add_comm]

/-- Behind a lexer that gives up nothing is read. -/
theorem lex_append_of_capped (hp : Pauses p) (capped : maxDiagnostics ≤ (Lexer.start p).run.faults.length)
    (more : String) : lex (p ++ more) = lex p ∧ (lex p).below (lineBreaks p) = lex p := by
  have hrest : (Lexer.start p).run.cursor.rest ≠ [] := fun hnil =>
    Nat.not_lt.2 capped (Lexer.length_faults_run_lt (Nat.succ_pos 19) hp.ended hp.outside hnil)
  constructor
  · rw [lex, lex, Lexer.run_append hp.ended hp.outside, Lexer.run_of_finished (by simp [Lexer.finished, capped]),
      Lexer.close_eq, Lexer.close_eq]
    rfl
  · have hhere : (Lexer.start p).run.cursor.pos.line ≤ lineBreaks p :=
      line_le_of_meets hp.ended ((Lexer.start p).reads_run.cursor.meets_pos hrest)
    obtain ⟨htokens, hfaults⟩ := line_le_of_run hp.ended
    obtain ⟨new, hclose, hnew⟩ := (Lexer.start p).run.tokens_close
    have hall : ∀ t ∈ (lex p).tokens, t.span.first.line ≤ lineBreaks p := by
      intro t ht
      rw [lex, List.mem_reverse, hclose] at ht
      obtain hlate | hearly := List.mem_append.1 ht
      · rwa [hnew t hlate]
      · exact htokens t hearly
    have hall' : ∀ fault ∈ (lex p).faults, fault.span.first.line ≤ lineBreaks p := by
      intro fault h
      rw [lex, List.mem_reverse, Lexer.close_eq] at h
      exact hfaults fault h
    rw [Lexed.below, List.map_congr_left fun t ht => Token.below_of_le (hall t ht),
      List.map_congr_left fun fault h => Fault.below_of_le (hall' fault h), List.map_id', List.map_id']

/-- What is read behind some point, up to the end of the text. -/
theorem Lexer.close_run_of_le (lx : Lexer) :
    (∃ new, lx.run.close.tokens = new ++ lx.tokens ∧ ∀ t ∈ new, lx.cursor.pos.line ≤ t.span.first.line) ∧
      ∃ new, lx.run.close.faults = new ++ lx.faults ∧ ∀ fault ∈ new, lx.cursor.pos.line ≤ fault.span.first.line := by
  have hreads := lx.reads_run
  obtain ⟨tokens, htokens, hmeets⟩ := hreads.tokens
  obtain ⟨faults, hfaults, hplaces⟩ := hreads.faults
  obtain ⟨new, hclose, hnew⟩ := lx.run.tokens_close
  have hend : lx.cursor.pos.line ≤ lx.run.cursor.pos.line := by
    obtain ⟨n, hn⟩ := hreads.cursor
    rw [hn, Cursor.pos_advance, line_foldl_after]
    exact Nat.le_add_right _ _
  refine ⟨⟨new ++ tokens, by rw [hclose, htokens, List.append_assoc], ?_⟩, faults, ?_, ?_⟩
  · intro t ht
    obtain hlate | hearly := List.mem_append.1 ht
    · rwa [hnew t hlate]
    · exact (hmeets t hearly).line_le
  · rw [Lexer.close_eq, ← hfaults]
  · exact fun fault h => (hplaces fault h).line_le

/-- With a blank line in between the rest of a text reads alike one line further down. -/
theorem lex_below {b : String} (hp : Pauses p) (hb : IsBlankLine b.toList) (q : String) :
    lex (p ++ b ++ q) = (lex (p ++ q)).below (lineBreaks p) := by
  by_cases capped : maxDiagnostics ≤ (Lexer.start p).run.faults.length
  · obtain ⟨hwith, hbelow⟩ := lex_append_of_capped hp capped (b ++ q)
    rw [String.append_assoc, hwith, (lex_append_of_capped hp capped q).1, hbelow]
  · have uncapped : (Lexer.start p).run.faults.length < maxDiagnostics := Nat.not_le.1 capped
    have hrest : (Lexer.start p).run.cursor.rest = [] := by
      simpa [Lexer.finished, capped] using (Lexer.start p).finished_run
    obtain ⟨hearly, hearly'⟩ := line_le_of_run hp.ended
    have hrun : ∀ more, (Lexer.start (p ++ more)).run =
        ({ (Lexer.start p).run with cursor := ⟨more.toList, ⟨lineBreaks p + 1, 1⟩⟩ } : Lexer).run := by
      intro more
      rw [Lexer.run_append hp.ended hp.outside, Cursor.moved, hrest, pos_run hp.ended hrest]
      rfl
    have hready := hp.ready hrest
    have hbetween : (Lexer.start p).run.Between := Lexer.between_run fun _ => ⟨rfl, rfl⟩
    generalize (Lexer.start p).run = lxp at uncapped hrest hearly hearly' hrun hready hbetween
    have hblank : (Lexer.start (p ++ b ++ q)).run =
        ({ lxp with cursor := ⟨q.toList, ⟨lineBreaks p + 1 + 1, 1⟩⟩ } : Lexer).run := by
      have hread : ({ lxp with cursor := ⟨(b ++ q).toList, ⟨lineBreaks p + 1, 1⟩⟩ } : Lexer).run = _ :=
        Lexer.run_blankLine hb String.toList_append hbetween hready uncapped
      rw [String.append_assoc, hrun, hread]
    have hechoes : Lexer.Echoes 1 [] lxp lxp
        { lxp with cursor := ⟨q.toList, ⟨lineBreaks p + 1, 1⟩⟩ }
        { lxp with cursor := ⟨q.toList, ⟨lineBreaks p + 1 + 1, 1⟩⟩ } :=
      ⟨by simp [Cursor.moved, Pos.down], ⟨[], rfl, rfl⟩, ⟨[], rfl, rfl⟩, ⟨rfl, rfl⟩, rfl, rfl, rfl⟩
    have hclosed := hechoes.run.close
    obtain ⟨⟨late, hlate, hbehind⟩, late', hlate', hbehind'⟩ := Lexer.close_run_of_le
      { lxp with cursor := ⟨q.toList, ⟨lineBreaks p + 1, 1⟩⟩ }
    obtain ⟨tokens, htokens, htokens'⟩ := hclosed.tokens
    obtain ⟨faults, hfaults, hfaults'⟩ := hclosed.faults
    obtain rfl : tokens = late := List.append_cancel_right (htokens.symm.trans hlate)
    obtain rfl : faults = late' := List.append_cancel_right (hfaults.symm.trans hlate')
    rw [lex, lex, hblank, hrun, Lexed.below, List.map_reverse, List.map_reverse, htokens', hfaults', htokens, hfaults,
      Token.map_below hearly hbehind, Fault.map_below hearly' hbehind']

/-- A text that ends with a newline in lines. -/
theorem exists_unlines (ended : Ended p.toList) :
    ∃ lines, p.toList = Text.unlines lines ∧ (∀ line ∈ lines, '\n' ∉ line) ∧ lines.length = lineBreaks p := by
  obtain ⟨lines, row, hp, hlines, hrow⟩ := exists_unlines_append p.toList
  obtain rfl : row = [] := by
    obtain hnil | ⟨front, hfront⟩ := ended
    · exact (List.append_eq_nil_iff.1 (hp.symm.trans hnil)).2
    · rcases List.eq_nil_or_concat row with rfl | ⟨init, c, rfl⟩
      · rfl
      · rw [hfront, List.concat_eq_append, ← List.append_assoc] at hp
        obtain rfl := List.singleton_injective (List.append_inj_right' hp rfl)
        simp at hrow
  rw [List.append_nil] at hp
  refine ⟨lines, hp, hlines, ?_⟩
  have hline := line_foldl_after p.toList ⟨1, 1⟩
  rw [← endOf, hp, endOf_unlines hlines] at hline
  rw [Nat.add_comm] at hline
  rw [lineBreaks, hp]
  exact Nat.add_left_cancel hline

/-- With a blank line in between the lines behind it are the same. -/
theorem lineText_below {b : String} (ended : Ended p.toList) (hb : IsBlankLine b.toList) (q name : String)
    (number : Nat) :
    (SourceFile.mk name (p ++ b ++ q)).lineText (if lineBreaks p < number then number + 1 else number) =
      (SourceFile.mk name (p ++ q)).lineText number := by
  obtain ⟨lines, hp, hlines, hlength⟩ := exists_unlines ended
  obtain ⟨blanks, comment, hb, hblanks, hcomment⟩ := hb
  have hrow : '\n' ∉ blanks ++ comment := by
    rw [List.mem_append, not_or]
    refine ⟨fun hmem => absurd (hblanks _ hmem) (by decide), ?_⟩
    obtain rfl | ⟨text, rfl, htext⟩ := hcomment
    · exact List.not_mem_nil
    · simp [htext]
  have hwithout : (SourceFile.mk name (p ++ q)).rows = lines ++ Text.rows q.toList := by
    rw [SourceFile.rows, String.toList_append, hp, rows_unlines_append hlines]
  have hwith : (SourceFile.mk name (p ++ b ++ q)).rows = lines ++ (blanks ++ comment) :: Text.rows q.toList := by
    have hall : ∀ line ∈ lines ++ [blanks ++ comment], '\n' ∉ line := by
      intro line hline
      obtain hline | hline := List.mem_append.1 hline
      · exact hlines line hline
      · rwa [List.mem_singleton.1 hline]
    have htext : (p ++ b).toList = Text.unlines (lines ++ [blanks ++ comment]) := by
      rw [String.toList_append, hp, hb, unlines_append]
      simp [Text.unlines]
    rw [SourceFile.rows, String.toList_append, htext, rows_unlines_append hall, List.append_assoc]
    rfl
  rw [← hlength, SourceFile.lineText, SourceFile.lineText]
  cases number with
  | zero => rfl
  | succ n =>
      by_cases hbehind : lines.length < n + 1
      · rw [if_pos hbehind, SourceFile.line?, SourceFile.line?, hwith, hwithout,
          List.getElem?_append_right (by omega), List.getElem?_append_right (by omega), Nat.sub_add_comm (by omega)]
        rfl
      · rw [if_neg hbehind, SourceFile.line?, SourceFile.line?, hwith, hwithout,
          List.getElem?_append_left (by omega), List.getElem?_append_left (by omega)]

/-- A blank line is invisible: with it a text has the same tokens and the same faults as without it, and they are
reported alike, but all that starts behind the blank line stands one line further down. -/
theorem lex_blankLine {b : String} (hp : Pauses p) (hb : IsBlankLine b.toList) (q : String) :
    lex (p ++ b ++ q) = (lex (p ++ q)).below (lineBreaks p) ∧
      ∀ name, Diagnostics.ofFaults ⟨name, p ++ b ++ q⟩ (lex (p ++ b ++ q)).faults =
        (Diagnostics.ofFaults ⟨name, p ++ q⟩ (lex (p ++ q)).faults).below (lineBreaks p) := by
  have hbelow := lex_below hp hb q
  refine ⟨hbelow, fun name => ?_⟩
  rw [hbelow, Lexed.below, Diagnostics.ofFaults, Diagnostics.ofFaults, Diagnostics.below, List.length_map,
    ← List.map_take, List.map_map, List.map_map]
  congr 1
  refine List.map_congr_left fun fault _ => ?_
  have hfirst : (fault.span.below (lineBreaks p)).first.line =
      if lineBreaks p < fault.span.first.line then fault.span.first.line + 1 else fault.span.first.line := by
    unfold Span.below
    split <;> rfl
  simp only [Function.comp_apply, Fault.diagnose, Fault.below, Diagnostic.below, Diagnostic.located, Diagnostic.new,
    hfirst, lineText_below hp.ended hb]

end

/-- A block, and in it a bracket that is open at the end of a line. -/
def Sample.openBracket : String :=
  "if a:\n  f(1,\n"

/-- The rest of the line with the bracket, a character that starts no token, and a line that closes the block. -/
def Sample.afterBracket : String :=
  "\t2) ?\nb\n"

/-- A comment inside a bracket: the character is still reported, on line 4 for line 3. -/
theorem lex_blankLine_bracket :
    lex (Sample.openBracket ++ "\t # note\n" ++ Sample.afterBracket) =
        (lex (Sample.openBracket ++ Sample.afterBracket)).below 2 ∧
      (lex (Sample.openBracket ++ Sample.afterBracket)).faults = [⟨.unexpected '?', ⟨⟨3, 5⟩, ⟨3, 5⟩⟩⟩] := by
  have hpauses : Pauses Sample.openBracket :=
    ⟨.inr ⟨Sample.openBracket.toList.dropLast, by decide⟩, fun _ => .inr (by decide +kernel), by decide +kernel⟩
  have hblank : IsBlankLine "\t # note\n".toList :=
    ⟨['\t', ' '], "# note".toList, by decide +kernel, by simp [isIndentation],
      .inr ⟨" note".toList, by decide +kernel, by decide +kernel⟩⟩
  exact ⟨(lex_blankLine hpauses hblank Sample.afterBracket).1, by decide +kernel⟩

end ViewSync
