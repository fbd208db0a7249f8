import ViewSync.Proofs.Token.Returns

/-!
# ViewSync.Proofs.Token.LineEndings

Both ways to end a line. A text is read in step with the text that has a carriage return in front of each newline
(`Lexer.Rereads`): the measure of a line looks for the return, and each lexeme is the same one, unless it is a string
that meets a line end. So the tokens and the faults are the same wherever each string stands on one line (`lex_crlf`).
-/

namespace ViewSync

/-- Each string among the tokens stands on one line, and a fault about the end of a string is on the last line: so many
lines have ended before. -/
structure StringsInLine (lines : Nat) (tokens : List Token) (faults : List (Fault LexError)) : Prop where
  whole : ∀ t ∈ tokens, ∀ content, t.kind = .str content → t.span.last.line = t.span.first.line
  cut : ∀ fault ∈ faults, fault.cause = .unterminatedString → lines < fault.span.last.line

namespace Lexer

/-- Two lexers that have read the same, one of them a text and the other the same text with carriage returns. -/
structure Rereads (lx lx' : Lexer) : Prop where
  cursor : lx'.cursor = lx.cursor.crlf ∨ lx.atLineStart = false ∧ lx.cursor.BehindReturn lx'.cursor
  kinds : lx'.tokens.map (·.kind) = lx.tokens.map (·.kind)
  widths : lx'.widths = lx.widths
  depth : lx'.depth = lx.depth
  atLineStart : lx'.atLineStart = lx.atLineStart
  faults : lx'.faults = lx.faults

namespace Rereads

variable {lx lx' : Lexer}

theorem inLine (h : Rereads lx lx') : lx'.inLine = lx.inLine := by
  have hkinds := h.kinds
  unfold Lexer.inLine
  cases hnew : lx.tokens with
  | nil =>
      rw [hnew, List.map_nil, List.map_eq_nil_iff] at hkinds
      rw [hkinds]
  | cons t ts =>
      rw [hnew, List.map_cons] at hkinds
      obtain ⟨t', ts', hnew', hkind, -⟩ := List.map_eq_cons_iff.1 hkinds
      rw [hnew']
      exact congrArg (· != .newline) hkind

theorem push (h : Rereads lx lx') (kind : TokenKind) (span span' : Span) :
    Rereads (lx.push kind span) (lx'.push kind span') :=
  { h with kinds := congrArg (kind :: ·) h.kinds }

theorem dedents (h : Rereads lx lx') (closed : List Nat) :
    Rereads (closed.foldl (fun acc _ => acc.push .dedent acc.here) lx)
      (closed.foldl (fun acc _ => acc.push .dedent acc.here) lx') := by
  induction closed generalizing lx lx' with
  | nil => exact h
  | cons width closed ih => exact ih (h.push .dedent lx.here lx'.here)

theorem withWidths (h : Rereads lx lx') (widths : List Nat) :
    Rereads { lx with widths := widths } { lx' with widths := widths } :=
  { h with widths := rfl }

theorem withFaults (h : Rereads lx lx') (faults : List (Fault LexError)) :
    Rereads { lx with faults := faults ++ lx.faults } { lx' with faults := faults ++ lx'.faults } :=
  { h with faults := congrArg (faults ++ ·) h.faults }

theorem layout (h : Rereads lx lx') (hhere : lx'.here = lx.here) (width : Nat) :
    Rereads (lx.layout width) (lx'.layout width) := by
  unfold Lexer.layout Lexer.width
  rw [h.widths, hhere]
  split
  · exact (h.push .indent lx.here lx.here).withWidths _
  · have hclosed := (h.dedents (splitWidths width lx.widths).1).withWidths (splitWidths width lx.widths).2
    dsimp only
    split
    · exact hclosed
    · exact (hclosed.withWidths (width :: (splitWidths width lx.widths).2)).withFaults [⟨.unmatchedIndent, lx.here⟩]

theorem measure (h : Rereads lx lx') (hline : lx.atLineStart = true) (hreturn : '\r' ∉ lx.cursor.rest) :
    Rereads lx.measure lx'.measure := by
  have hcursor : lx'.cursor = lx.cursor.crlf := h.cursor.resolve_right (by simp [hline])
  have hblanks : lx'.cursor.rest.takeWhile isIndentation = lx.cursor.rest.takeWhile isIndentation := by
    rw [hcursor]
    exact takeWhile_crlf (by decide) (by decide) _
  have hskip : lx'.behindBlanks.cursor = lx.behindBlanks.cursor.crlf := by
    show lx'.cursor.skipWhile isIndentation = _
    rw [hcursor]
    exact Cursor.skipWhile_crlf (by decide) (by decide)
  have hbehind : Rereads lx.behindBlanks lx'.behindBlanks := { h with cursor := .inl hskip, atLineStart := rfl }
  have hblank : isBlankRest lx'.behindBlanks.cursor.rest = isBlankRest lx.behindBlanks.cursor.rest := by
    rw [hskip]
    exact isBlankRest_crlf ((Cursor.reaches_advance _ _).notMem_rest hreturn)
  have hhere : lx'.behindBlanks.here = lx.behindBlanks.here := by
    rw [here, hskip]
    rfl
  rw [measure_eq, measure_eq, hblank, hblanks]
  split
  · exact hbehind
  · exact hbehind.layout hhere _

theorem endLine (h : Rereads lx lx') (hcursor : lx'.cursor = lx.cursor.crlf) (span span' : Span) :
    Rereads (lx.endLine span) (lx'.endLine span') := by
  unfold Lexer.endLine
  rw [h.depth, h.inLine]
  split
  · exact h
  · split
    · exact { h.push .newline span span' with cursor := .inl hcursor, atLineStart := rfl }
    · exact { h with cursor := .inl hcursor, atLineStart := rfl }

theorem accept (h : Rereads lx lx') (hline : lx.atLineStart = false) {scanned scanned' : Scanned}
    (hscan : scanned.Reread scanned') (start start' : Pos) :
    Rereads (lx.accept start scanned) (lx'.accept start' scanned') := by
  have hread : Rereads { lx with cursor := scanned.next, faults := scanned.faults.reverse ++ lx.faults }
      { lx' with cursor := scanned'.next, faults := scanned'.faults.reverse ++ lx'.faults } := by
    rw [hscan.faults]
    exact { h.withFaults scanned.faults.reverse with cursor := hscan.next.imp_right fun hnext => ⟨hline, hnext.2⟩ }
  have hnext : scanned.lexeme ≠ .trivia → scanned'.next = scanned.next.crlf := fun hne =>
    hscan.next.resolve_right fun hbehind => hne hbehind.1
  unfold Lexer.accept
  dsimp only
  rw [hscan.lexeme]
  cases hlexeme : scanned.lexeme with
  | trivia => exact hread
  | lineEnd => exact hread.endLine (hnext (by simp [hlexeme])) _ _
  | token kind =>
      exact { hread.push kind (scanned.next.spanFrom start) (scanned'.next.spanFrom start') with
        depth := congrArg (depthAfter · kind) h.depth }

/-- One step of both, where what is read is no string that meets a line end. -/
theorem step (h : Rereads lx lx') (hreturn : '\r' ∉ lx.cursor.rest)
    (hstring : lx.atLineStart = false → (scan lx.cursor).2.InLine (scan lx.cursor).1) : Rereads lx.step lx'.step := by
  unfold Lexer.step
  rw [h.atLineStart]
  split
  · next hline => exact h.measure hline hreturn
  · next hline =>
    have hsame : lx.atLineStart = false := by simpa using hline
    refine h.accept hsame ?_ _ _
    obtain hcursor | ⟨-, hbehind⟩ := h.cursor
    · rw [hcursor]
      exact scan_crlf hreturn (hstring hsame)
    · exact reread_lineEnd hbehind

theorem finished (h : Rereads lx lx') : lx'.finished = lx.finished := by
  have hempty : lx'.cursor.rest.isEmpty = lx.cursor.rest.isEmpty := by
    obtain hcursor | ⟨-, cs, hrest, hrest', -⟩ := h.cursor
    · rw [hcursor, Bool.eq_iff_iff, List.isEmpty_iff, List.isEmpty_iff]
      exact crlf_eq_nil
    · rw [hrest, hrest']
      rfl
  rw [Lexer.finished, Lexer.finished, hempty, h.faults]

theorem close (h : Rereads lx lx') : Rereads lx.close lx'.close := by
  have hended : Rereads (if lx.inLine then lx.push .newline lx.here else lx)
      (if lx'.inLine then lx'.push .newline lx'.here else lx') := by
    rw [h.inLine]
    split
    · exact h.push .newline lx.here lx'.here
    · exact h
  unfold Lexer.close
  dsimp only
  rw [hended.widths]
  exact (hended.dedents _).push .eof _ _

end Rereads

/-- What is read next is no string that meets a line end, if no string that is read ever is one. -/
theorem inLine_scan {lx : Lexer} {lines : Nat}
    (hcount : lx.cursor.pos.line + lx.cursor.rest.count '\n' = lines + 1)
    (h : StringsInLine lines lx.lexeme.tokens lx.lexeme.faults) : (scan lx.cursor).2.InLine (scan lx.cursor).1 := by
  have hreaches : lx.cursor.Reaches (scan lx.cursor).2.next := by
    rw [← cursor_accept lx (scan lx.cursor).1]
    exact lx.reads_lexeme.cursor
  refine ⟨fun content hcontent => ?_, fun hfault => ?_⟩
  · refine h.whole ⟨.str content, (scan lx.cursor).2.next.spanFrom (scan lx.cursor).1⟩ ?_ content rfl
    rw [lexeme, accept, hcontent]
    exact List.mem_cons_self
  · have hlast := h.cut _ (by rw [lexeme, faults_accept]; exact List.mem_append_left _ (List.mem_reverse.2 hfault)) rfl
    have hsame := hreaches.line_add_count
    have hnone : (scan lx.cursor).2.next.rest.count '\n' = 0 := by
      change lines < (scan lx.cursor).2.next.pos.line at hlast
      omega
    exact List.count_eq_zero.1 hnone

theorem rereads_run {lx lx' : Lexer} {lines : Nat} (h : Rereads lx lx') (hreturn : '\r' ∉ lx.cursor.rest)
    (hcount : lx.cursor.pos.line + lx.cursor.rest.count '\n' = lines + 1)
    (hstrings : StringsInLine lines lx.run.tokens lx.run.faults) : Rereads lx.run lx'.run := by
  fun_induction Lexer.run lx generalizing lx' with
  | case1 lx hfinished => rwa [run_of_finished (h.finished.trans hfinished)]
  | case2 lx hfinished ih =>
      have hreaches := lx.reads_step.cursor
      obtain ⟨tokens, htokens, -⟩ := lx.step.reads_run.tokens
      obtain ⟨faults, hfaults, -⟩ := lx.step.reads_run.faults
      have hread : StringsInLine lines lx.step.tokens lx.step.faults :=
        ⟨fun t ht => hstrings.whole t (htokens ▸ List.mem_append_right _ ht),
          fun fault hfault => hstrings.cut fault (hfaults ▸ List.mem_append_right _ hfault)⟩
      have hstep : Rereads lx.step lx'.step := by
        refine h.step hreturn fun hline => inLine_scan hcount ?_
        rwa [step, if_neg (by simp [hline])] at hread
      rw [run_step (h.finished.trans (by simpa using hfinished))]
      exact ih hstep (hreaches.notMem_rest hreturn) (hreaches.line_add_count.trans hcount) hstrings

end Lexer

/-- Both ways to end a line read alike: with a carriage return in front of each newline a text without returns has the
same tokens, what they hold included, and the same faults at the same places, if each of its strings stands on one line
and none is cut off by a line end. -/
theorem lex_crlf {text : String} (hreturn : '\r' ∉ text.toList)
    (hstrings : StringsInLine (lineBreaks text) (lex text).tokens (lex text).faults) :
    (lex (String.ofList (crlf text.toList))).tokens.map (·.kind) = (lex text).tokens.map (·.kind) ∧
      (lex (String.ofList (crlf text.toList))).faults = (lex text).faults := by
  have hstart : (Lexer.start text).Rereads (Lexer.start (String.ofList (crlf text.toList))) := by
    refine ⟨.inl ?_, rfl, rfl, rfl, rfl, rfl⟩
    rw [Lexer.start, Cursor.start, String.toList_ofList]
    rfl
  obtain ⟨tokens, htokens, -⟩ := (Lexer.start text).run.tokens_close
  have hread : StringsInLine (lineBreaks text) (Lexer.start text).run.tokens (Lexer.start text).run.faults := by
    refine ⟨fun t ht => hstrings.whole t ?_, fun fault hfault => hstrings.cut fault ?_⟩
    · rw [lex, List.mem_reverse, htokens]
      exact List.mem_append_right _ ht
    · rw [lex, List.mem_reverse, Lexer.close_eq]
      exact hfault
  have hclosed := (Lexer.rereads_run hstart hreturn (Nat.add_comm _ _) hread).close
  constructor
  · rw [lex, lex, List.map_reverse, List.map_reverse, hclosed.kinds]
  · rw [lex, lex, hclosed.faults]

/-- Two blocks, a blank line, a comment, a joined line, a bracket over two lines, a string with a bad escape and one
that the text cuts off. -/
def Sample.linedText : String :=
  "if a:\n    b = (1,  # one\n  2)\n\n    c = ? + \\\n 'x\\u1'\nend = \"cut"

/-- The readings of both texts agree, faults included. -/
theorem lex_crlf_lined :
    (lex (String.ofList (crlf Sample.linedText.toList))).tokens.map (·.kind) =
        (lex Sample.linedText).tokens.map (·.kind) ∧
      (lex (String.ofList (crlf Sample.linedText.toList))).faults = (lex Sample.linedText).faults ∧
      (lex Sample.linedText).faults.map (·.cause) = [.unexpected '?', .badEscape 'u', .unterminatedString] := by
  have hstrings : StringsInLine (lineBreaks Sample.linedText) (lex Sample.linedText).tokens
      (lex Sample.linedText).faults := by
    have hlines : ∀ t ∈ (lex Sample.linedText).tokens, t.span.last.line = t.span.first.line ∨ t.kind = .newline := by
      decide +kernel
    refine ⟨fun t ht content hcontent => (hlines t ht).resolve_right ?_, by decide +kernel⟩
    rw [hcontent]
    exact TokenKind.noConfusion
  obtain ⟨hkinds, hfaults⟩ := @lex_crlf Sample.linedText (by decide) hstrings
  exact ⟨hkinds, hfaults, by decide +kernel⟩

end ViewSync
