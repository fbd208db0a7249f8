import ViewSync.Proofs.Token.Spelling

/-!
# ViewSync.Proofs.Token.Coverage

Spans locate lexemes, and nothing of a source is lost. A source without faults is a row of gaps and lexemes
(`Tiles`): each token with a text of its own is spelled by the bytes that its span names, and between two of them
there is only white space, comments and joined lines (`places_lex`). Every step of the lexer passes a piece of such a
row (`step_reads`), and a run is put together from its end (`tiles_run`).
-/

namespace ViewSync

/-! ## gaps -/

/-- What may stand between tokens: white space and ends of lines, a backslash that joins two lines, and comments with
the end of their line. -/
inductive Gap : List Char → Prop
  | nil : Gap []
  | blank {c : Char} {cs : List Char} : isSpace c = true ∨ c = '\n' → Gap cs → Gap (c :: cs)
  | join {cs : List Char} : Gap cs → Gap ('\\' :: '\n' :: cs)
  | joinReturn {cs : List Char} : Gap cs → Gap ('\\' :: '\r' :: '\n' :: cs)
  | comment {text cs : List Char} : '\n' ∉ text → Gap cs → Gap ('#' :: (text ++ '\n' :: cs))

/-- What may stand behind the last token: a gap, and perhaps a comment on a line without an end. -/
def LastGap (cs : List Char) : Prop :=
  ∃ gap comment, cs = gap ++ comment ∧ Gap gap ∧ (comment = [] ∨ ∃ text, comment = '#' :: text ∧ '\n' ∉ text)

/-- A row of gaps and lexemes behind some text of a source. Each token is spelled by the bytes at its span. -/
inductive Tiles (file : SourceFile) : List Char → List Token → List Char → Prop
  | done {before gap : List Char} : LastGap gap → Tiles file before [] gap
  | token {before gap lexeme rest : List Char} {t : Token} {ts : List Token} : Gap gap → Spells lexeme t.kind →
      file.offset? t.span.first = some (bytes (before ++ gap)).length →
      file.offset? t.span.last = some ((bytes (before ++ gap)).length + (bytes lexeme).length - 1) →
      file.slice? t.span = some (bytes lexeme) →
      Tiles file (before ++ gap ++ lexeme) ts rest → Tiles file before (t :: ts) (gap ++ (lexeme ++ rest))

/-- A gap that starts with a newline goes on behind it. -/
theorem Gap.tail {cs : List Char} (h : Gap ('\n' :: cs)) : Gap cs := by
  cases h with
  | blank _ hcs => exact hcs

/-- A comment in front of the end of its line. -/
theorem Gap.afterComment {text gap : List Char} (htext : '\n' ∉ text) (h : Gap gap) (hhead : gap.head? = some '\n') :
    Gap ('#' :: (text ++ gap)) := by
  cases gap with
  | nil => cases hhead
  | cons c gap =>
      obtain rfl : c = '\n' := Option.some.inj hhead
      exact .comment htext h.tail

namespace Tiles

variable {file : SourceFile} {before front text rest : List Char} {ts : List Token}

/-- What goes on in front of any gap goes on in front of a row. -/
theorem prepend (hfront : ∀ gap, Gap gap → Gap (front ++ gap)) (h : Tiles file (before ++ front) ts rest) :
    Tiles file before ts (front ++ rest) := by
  cases h with
  | done hgap =>
      obtain ⟨gap, comment, rfl, hgap, hcomment⟩ := hgap
      exact .done ⟨front ++ gap, comment, (List.append_assoc _ _ _).symm, hfront gap hgap, hcomment⟩
  | @token _ gap lexeme rest t ts hgap hspells hfirst hlast hslice hrest =>
      rw [List.append_assoc before] at hfirst hlast hrest
      rw [← List.append_assoc]
      exact .token (hfront gap hgap) hspells hfirst hlast hslice hrest

/-- A comment in front of a row, at the end of its line or of the source. -/
theorem comment (htext : '\n' ∉ text) (hrest : ∀ c ∈ rest.head?, c = '\n')
    (h : Tiles file (before ++ '#' :: text) ts rest) : Tiles file before ts ('#' :: text ++ rest) := by
  cases h with
  | done hgap =>
      obtain ⟨gap, comment, rfl, hgap, hcomment⟩ := hgap
      cases gap with
      | nil =>
          obtain rfl | ⟨_, rfl, -⟩ := hcomment
          · exact .done ⟨[], '#' :: text, by simp, .nil, .inr ⟨text, rfl, htext⟩⟩
          · cases hrest _ rfl
      | cons c gap =>
          have hgap' := hgap.afterComment htext (congrArg some (hrest c rfl))
          exact .done ⟨'#' :: (text ++ c :: gap), comment, by simp, hgap', hcomment⟩
  | @token _ gap lexeme rest t ts hgap hspells hfirst hlast hslice htiles =>
      cases gap with
      | nil =>
          obtain ⟨hne, hends, -⟩ := hspells.ends
          obtain ⟨c, lexeme, rfl⟩ := List.exists_cons_of_ne_nil hne
          exact absurd (hrest c rfl) (hends c rfl)
      | cons c gap =>
          have hgap' := hgap.afterComment htext (congrArg some (hrest c rfl))
          rw [List.append_assoc before] at hfirst hlast htiles
          have hrow : Tiles file before (t :: ts) ('#' :: (text ++ c :: gap) ++ (lexeme ++ rest)) :=
            .token hgap' hspells hfirst hlast hslice htiles
          rwa [← List.cons_append, List.append_assoc] at hrow

/-- Every token of a row is spelled by the bytes at its span. -/
theorem spelled (h : Tiles file before ts rest) :
    ∀ t ∈ ts, ∃ lexeme, Spells lexeme t.kind ∧ file.slice? t.span = some (bytes lexeme) := by
  induction h with
  | done _ => nofun
  | token _ hspells _ _ hslice _ ih => exact List.forall_mem_cons.2 ⟨⟨_, hspells, hslice⟩, ih⟩

/-- The tokens of a row start behind the text in front of it, and end where they start or later. -/
theorem offsets (h : Tiles file before ts rest) :
    ∀ t ∈ ts, ∃ m n, file.offset? t.span.first = some m ∧ file.offset? t.span.last = some n ∧
      (bytes before).length ≤ m ∧ m ≤ n := by
  induction h with
  | done _ => nofun
  | token _ hspells hfirst hlast _ _ ih =>
      have hpos := length_bytes_pos hspells.ends.1
      simp only [bytes_append, List.length_append] at hfirst hlast ih
      refine List.forall_mem_cons.2 ⟨⟨_, _, hfirst, hlast, by omega, by omega⟩, fun t ht => ?_⟩
      obtain ⟨m, n, hm, hn, hle, hmn⟩ := ih t ht
      exact ⟨m, n, hm, hn, by omega, hmn⟩

/-- The tokens of a row stand one behind the other. -/
theorem pairwise (h : Tiles file before ts rest) :
    ts.Pairwise fun a b => a.span.last.before b.span.first = true := by
  induction h with
  | done _ => exact .nil
  | token _ hspells _ hlast _ hrest ih =>
      have hpos := length_bytes_pos hspells.ends.1
      refine List.pairwise_cons.2 ⟨fun t ht => ?_, ih⟩
      obtain ⟨m, n, hm, -, hle, -⟩ := hrest.offsets t ht
      simp only [bytes_append, List.length_append] at hlast hle
      rw [SourceFile.before_iff_offset? hlast hm]
      omega

/-- No token of a row ends in front of its start. -/
theorem not_before (h : Tiles file before ts rest) : ∀ t ∈ ts, ¬ t.span.last.before t.span.first = true := by
  intro t ht
  obtain ⟨m, n, hm, hn, -, hle⟩ := h.offsets t ht
  rw [SourceFile.before_iff_offset? hn hm]
  omega

end Tiles

/-! ## what stands between tokens is skipped -/

/-- Any row may have the text in front of it, before what follows. -/
def Skips (file : SourceFile) (front rest : List Char) : Prop :=
  ∀ before ts, Tiles file (before ++ front) ts rest → Tiles file before ts (front ++ rest)

/-- White space and other runs of characters are passed as a whole. -/
theorem Cursor.passes_skipWhile (p : Char → Bool) (cur : Cursor) :
    cur.Passes (cur.rest.takeWhile p) (cur.skipWhile p) ∧ ∀ c ∈ (cur.skipWhile p).rest.head?, p c = false := by
  have hpasses := passes_advance (cur.rest.takeWhile p).length cur
  rw [take_length_takeWhile] at hpasses
  have hrest : (cur.skipWhile p).rest = cur.rest.dropWhile p := by
    have hsplit : cur.rest.takeWhile p ++ (cur.skipWhile p).rest = cur.rest.takeWhile p ++ cur.rest.dropWhile p := by
      rw [List.takeWhile_append_dropWhile]
      exact hpasses.1.symm
    exact List.append_cancel_left hsplit
  constructor
  · exact hpasses
  · intro c hc
    have hhead := List.head?_dropWhile_not p cur.rest
    rw [← hrest, Option.mem_def.1 hc] at hhead
    exact hhead

section skips

variable {file : SourceFile} {front more rest : List Char}

theorem skips_append (hfront : Skips file front (more ++ rest)) (hmore : Skips file more rest) :
    Skips file (front ++ more) rest := by
  intro before ts h
  rw [← List.append_assoc] at h
  rw [List.append_assoc]
  exact hfront before ts (hmore (before ++ front) ts h)

theorem Gap.behindBlanks {gap : List Char} (h : ∀ c ∈ front, isSpace c = true ∨ c = '\n') (hgap : Gap gap) :
    Gap (front ++ gap) := by
  induction front with
  | nil => exact hgap
  | cons c front ih =>
      obtain ⟨hc, hfront⟩ := List.forall_mem_cons.1 h
      exact .blank hc (ih hfront)

theorem skips_blanks (h : ∀ c ∈ front, isSpace c = true ∨ c = '\n') : Skips file front rest :=
  fun _ _ htiles => htiles.prepend fun _ => .behindBlanks h

/-- A backslash in front of a newline, or of a carriage return and a newline. -/
theorem skips_scanJoin {cur : Cursor} {cs : List Char} (hrest : cur.rest = '\\' :: cs)
    (hfaults : (scanJoin cur).faults = []) :
    ∃ front, cur.Passes front (scanJoin cur).next ∧ Skips file front (scanJoin cur).next.rest := by
  have hpasses := Cursor.passes_one hrest
  have hbehind : (cur.advance 1).rest = cs := by simp [hrest]
  unfold scanJoin at hfaults ⊢
  simp only [hbehind] at hfaults ⊢
  by_cases hreturn : cs.head? = some '\r'
  · obtain ⟨cs, rfl⟩ := List.head?_eq_some_iff.1 hreturn
    have hpasses' := Cursor.passes_one hbehind
    simp only [hreturn, if_true] at hfaults ⊢
    split_ifs at hfaults ⊢ with hline
    obtain ⟨more, hmore⟩ := List.head?_eq_some_iff.1 hline
    exact ⟨_, (hpasses.trans hpasses').trans (Cursor.passes_one hmore),
      fun before ts htiles => htiles.prepend fun gap hgap => .joinReturn hgap⟩
  · simp only [hreturn, if_false, hbehind] at hfaults ⊢
    split_ifs at hfaults ⊢ with hline
    obtain ⟨more, rfl⟩ := List.head?_eq_some_iff.1 hline
    exact ⟨_, hpasses.trans (Cursor.passes_one hbehind),
      fun before ts htiles => htiles.prepend fun gap hgap => .join hgap⟩

/-- What is no token and no fault is skipped. -/
theorem skips_scanHere {cur : Cursor} (h : ∀ kind, (scanHere cur).lexeme ≠ .token kind)
    (hfaults : (scanHere cur).faults = []) :
    ∃ front, cur.Passes front (scanHere cur).next ∧ Skips file front (scanHere cur).next.rest := by
  cases hrest : cur.rest with
  | nil =>
      have hnext : (scanHere cur).next = cur := by rw [scanHere, hrest]
      rw [hnext]
      exact ⟨[], ⟨rfl, rfl⟩, skips_blanks (by simp)⟩
  | cons c cs =>
      have hone := Cursor.passes_one hrest
      simp only [scanHere, hrest] at h hfaults ⊢
      split_ifs at h hfaults ⊢ with hline hcomment hjoin hquote hnumber hname
      · obtain rfl : c = '\n' := by simpa using hline
        exact ⟨['\n'], hone, skips_blanks (by simp)⟩
      · obtain rfl : c = '#' := by simpa using hcomment
        obtain ⟨hpasses, hend⟩ := (cur.advance 1).passes_skipWhile (· != '\n')
        have htext : '\n' ∉ (cur.advance 1).rest.takeWhile (· != '\n') := by
          intro hmem
          have hne := List.all_eq_true.1 List.all_takeWhile _ hmem
          simp at hne
        refine ⟨_, hone.trans hpasses, fun before ts htiles => htiles.comment htext fun d hd => ?_⟩
        simpa using hend d hd
      · obtain rfl : c = '\\' := by simpa using hjoin
        exact skips_scanJoin hrest hfaults
      · exact absurd rfl (h _)
      · obtain ⟨kind, text, hkind, -⟩ := spells_scanNumber (hrest ▸ hnumber) hfaults
        exact absurd hkind (h kind)
      · exact absurd rfl (h _)
      · obtain ⟨kind, text, hkind, -⟩ := spells_scanOperator hfaults
        exact absurd hkind (h kind)

end skips

/-! ## steps and runs -/

namespace Lexer

variable {lx : Lexer} {file : SourceFile}

/-- A step without a fault passes what may stand between tokens, or white space and a lexeme. -/
theorem step_reads (h : lx.step.faults = []) :
    (∃ front, lx.cursor.Passes front lx.step.cursor ∧ Skips file front lx.step.cursor.rest ∧
      worded lx.step.tokens = worded lx.tokens) ∨
    ∃ gap mid text kind, lx.cursor.Passes gap mid ∧ Gap gap ∧ mid.Passes text lx.step.cursor ∧ Spells text kind ∧
      worded lx.step.tokens = ⟨kind, lx.step.cursor.spanFrom mid.pos⟩ :: worded lx.tokens := by
  unfold step at h ⊢
  split
  · -- The start of a line is measured.
    obtain ⟨hpasses, -⟩ := lx.cursor.passes_skipWhile isIndentation
    have hcursor : lx.measure.cursor = lx.cursor.skipWhile isIndentation := by
      unfold measure
      simp only
      split
      · rfl
      · rw [(cursor_layout _ _).1]
        rfl
    have hblank : ∀ c ∈ lx.cursor.rest.takeWhile isIndentation, isSpace c = true ∨ c = '\n' := by
      intro c hc
      have hindent := List.all_eq_true.1 List.all_takeWhile c hc
      simp only [isIndentation, isSpace, Bool.or_eq_true] at hindent ⊢
      obtain (h | h) | h := hindent <;> simp [h]
    rw [hcursor]
    exact .inl ⟨_, hpasses, skips_blanks hblank, worded_measure lx⟩
  · -- A lexeme is read behind white space.
    next hline =>
    rw [if_neg hline, lexeme, faults_accept] at h
    obtain ⟨hfaults, -⟩ := List.append_eq_nil_iff.1 h
    rw [List.reverse_eq_nil_iff] at hfaults
    obtain ⟨hspaces, -⟩ := lx.cursor.passes_skipWhile isSpace
    have hblank : ∀ c ∈ lx.cursor.rest.takeWhile isSpace, isSpace c = true ∨ c = '\n' :=
      fun c hc => .inl (List.all_eq_true.1 List.all_takeWhile c hc)
    rw [lexeme, cursor_accept]
    cases hlexeme : (scan lx.cursor).2.lexeme with
    | token kind =>
        obtain ⟨text, hpasses, hspells⟩ := spells_scanHere hlexeme hfaults
        have hlayout := TokenKind.isLayout_of_textual (textual_scanHere hlexeme)
        have htokens : worded (lx.accept (scan lx.cursor).1 (scan lx.cursor).2).tokens =
            ⟨kind, (scan lx.cursor).2.next.spanFrom (scan lx.cursor).1⟩ :: worded lx.tokens := by
          simp only [accept, hlexeme]
          exact worded_cons hlayout _
        have hgap : Gap (lx.cursor.rest.takeWhile isSpace) := by simpa using Gap.behindBlanks hblank .nil
        exact .inr ⟨_, _, text, kind, hspaces, hgap, hpasses, hspells, htokens⟩
    | trivia =>
        have hnone : ∀ kind, (scan lx.cursor).2.lexeme ≠ .token kind := by simp [hlexeme]
        obtain ⟨front, hpasses, hskips⟩ := skips_scanHere hnone hfaults
        have htokens : worded (lx.accept (scan lx.cursor).1 (scan lx.cursor).2).tokens = worded lx.tokens := by
          simp only [accept, hlexeme]
        exact .inl ⟨_, hspaces.trans hpasses, skips_append (skips_blanks hblank) hskips, htokens⟩
    | lineEnd =>
        have hnone : ∀ kind, (scan lx.cursor).2.lexeme ≠ .token kind := by simp [hlexeme]
        obtain ⟨front, hpasses, hskips⟩ := skips_scanHere hnone hfaults
        have htokens : worded (lx.accept (scan lx.cursor).1 (scan lx.cursor).2).tokens = worded lx.tokens := by
          simp only [accept, hlexeme]
          exact worded_endLine _ _
        exact .inl ⟨_, hspaces.trans hpasses, skips_append (skips_blanks hblank) hskips, htokens⟩

/-- A run without a fault reads the rest of a source as a row of gaps and lexemes. -/
theorem tiles_run {before : List Char} (hat : (Cursor.start file.text).Passes before lx.cursor)
    (h : lx.run.faults = []) :
    ∃ ts, worded lx.run.tokens = ts.reverse ++ worded lx.tokens ∧ Tiles file before ts lx.cursor.rest := by
  fun_induction run lx generalizing before with
  | case1 lx hfinished =>
      have hrest : lx.cursor.rest = [] := by simpa [finished, h, maxDiagnostics] using hfinished
      rw [hrest]
      exact ⟨[], rfl, .done ⟨[], [], rfl, .nil, .inl rfl⟩⟩
  | case2 lx _ ih =>
      have hstep : lx.step.faults = [] := List.suffix_nil.1 (h ▸ lx.step.faults_run)
      obtain ⟨front, hpasses, hskips, htokens⟩ | ⟨gap, mid, text, kind, hgap, hgapText, hpasses, hspells, htokens⟩ :=
        step_reads hstep
      · obtain ⟨ts, hts, htiles⟩ := ih (hat.trans hpasses) h
        rw [hpasses.1]
        exact ⟨ts, by rw [hts, htokens], hskips before ts htiles⟩
      · obtain ⟨ts, hts, htiles⟩ := ih (hat.trans (hgap.trans hpasses)) h
        have hmid := hat.trans hgap
        have hnext := hmid.trans hpasses
        obtain ⟨hne, hfirst, hlast⟩ := hspells.ends
        have htext : file.text.toList = (before ++ gap) ++ (text ++ lx.step.cursor.rest) := by
          rw [← hpasses.1]
          exact hmid.1
        have hplaces := slice?_spanFrom htext hfirst hlast hne lx.step.cursor hnext.2
        have hstart : mid.pos = endOf (before ++ gap) := hmid.2
        rw [← hstart] at hplaces
        rw [← List.append_assoc] at htiles
        rw [hgap.1, hpasses.1]
        exact ⟨⟨kind, lx.step.cursor.spanFrom mid.pos⟩ :: ts, by simp [hts, htokens],
          .token hgapText hspells hplaces.1 hplaces.2.1 hplaces.2.2 htiles⟩

end Lexer

/-- The tokens of a source without faults that have a text of their own: each is spelled by the bytes that its span
names, they stand one behind the other, and there is nothing else in the source but what may stand between tokens. -/
theorem places_lex (name : String) {text : String} (h : (lex text).faults = []) :
    (∀ t ∈ worded (lex text).tokens, ¬ t.span.last.before t.span.first = true ∧
      ∃ lexeme, Spells lexeme t.kind ∧ (SourceFile.mk name text).slice? t.span = some (bytes lexeme)) ∧
    ((worded (lex text).tokens).Pairwise fun a b => a.span.last.before b.span.first = true) ∧
    Tiles ⟨name, text⟩ [] (worded (lex text).tokens) text.toList := by
  have hfaults : (Lexer.start text).run.faults = [] := by
    simpa [lex, Lexer.close_eq] using h
  obtain ⟨ts, hts, htiles⟩ := @Lexer.tiles_run (.start text) ⟨name, text⟩ [] ⟨rfl, rfl⟩ hfaults
  have htokens : worded (lex text).tokens = ts := by
    rw [worded_lex, hts]
    simp [Lexer.start, worded]
  rw [htokens]
  exact ⟨fun t ht => ⟨htiles.not_before t ht, htiles.spelled t ht⟩, htiles.pairwise, htiles⟩

/-- A string over two lines, escapes, characters of several bytes, a joined line, a comment, tabs, a form feed and a
carriage return. -/
def mixedText : String :=
  "a = \"é\\n\" + \\\n\t\x27\x27\x27ü\n\\x41\x27\x27\x27 # ß\r\n\t\x0cb(0x_f, .5e-1)\n"

theorem places_lex_mixed :
    (lex mixedText).faults = [] ∧
      (worded (lex mixedText).tokens).map (fun t => (SourceFile.mk "view" mixedText).slice? t.span) =
        ["a", "=", "\"é\\n\"", "+", "\x27\x27\x27ü\n\\x41\x27\x27\x27", "b", "(", "0x_f", ",", ".5e-1", ")"].map
          (fun lexeme => some (bytes lexeme.toList)) ∧
      Tiles ⟨"view", mixedText⟩ [] (worded (lex mixedText).tokens) mixedText.toList :=
  ⟨by decide +kernel, by decide +kernel, (places_lex "view" (by decide +kernel)).2.2⟩

end ViewSync
