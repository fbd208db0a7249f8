import Mathlib.Data.List.Chain
import ViewSync.Proofs.Token.Lexical

/-!
# ViewSync.Proofs.Token.Layout

The layout in the tokens of a source (`layout_lex`). For any source, `eof` is the last token and no other one, no
`newline` is the first token, and no two of them follow each other. For a source without faults, every block that is
closed has been opened and every one that is opened is closed, and the blocks follow the indentation of the logical
lines: a line that is wider than the one before is one block deeper, and any other one stands in the block of the
latest line of its width, with wider lines between the two.

Logical lines are found without the layout (`heads`): they start at the start of the source and behind the ends of
lines outside brackets, and blank lines, on which nothing but a comment stands behind the white space, are none. A
carriage return inside a line, or a backslash that joins it to the next one, makes it more than blank.
-/

namespace ViewSync

/-! ## logical lines -/

/-- Where a logical line starts: the width of its white space, and the position behind that. -/
structure Head where
  width : Nat
  pos : Pos

/-- The logical line at a cursor that stands at the start of a line, unless that line is blank. -/
def headAt (cur : Cursor) : List Head :=
  if isBlankRest (cur.skipWhile isIndentation).rest then []
  else [⟨indentWidth (cur.rest.takeWhile isIndentation), (cur.skipWhile isIndentation).pos⟩]

/-- The logical lines that start behind a cursor, with so many brackets open at it. -/
def headsBehind (cur : Cursor) (depth : Nat) : List Head :=
  if _h : cur.rest = [] then []
  else
    match (scan cur).2.lexeme with
    | .trivia => headsBehind (scan cur).2.next depth
    | .token kind => headsBehind (scan cur).2.next (Lexer.depthAfter depth kind)
    | .lineEnd =>
      (if depth = 0 then headAt (scan cur).2.next else []) ++ headsBehind (scan cur).2.next depth
termination_by cur.rest.length
decreasing_by all_goals exact length_rest_scan_lt _h

/-- The logical lines of a source. -/
def heads (text : String) : List Head :=
  headAt (.start text) ++ headsBehind (.start text) 0

/-- How many more blocks have been opened than closed at a position, the tokens that start there included. -/
def levelAt (tokens : List Token) (p : Pos) : Int :=
  let kinds := (tokens.filter fun t => !p.before t.span.first).map (·.kind)
  kinds.count .indent - kinds.count .dedent

/-- A logical line by its width and the number of blocks that are open on it. -/
structure Line where
  width : Nat
  level : Int

/-- The line at a head. -/
def Head.line (tokens : List Token) (head : Head) : Line :=
  ⟨head.width, levelAt tokens head.pos⟩

/-- The line that counts as standing in front of every source. -/
def Line.imaginary : Line := ⟨0, 0⟩

/-- The level of a line is right behind the earlier lines, latest first. -/
structure Line.Fits (line : Line) (earlier : List Line) : Prop where
  /-- It is one level deeper than the line before exactly when it is wider. -/
  deeper : ∀ previous ∈ earlier.head?, line.level = previous.level + 1 ↔ previous.width < line.width
  /-- Otherwise it is at the level of the latest line of its width, with no narrower line between. -/
  otherwise : (∀ previous ∈ earlier.head?, line.width ≤ previous.width) →
    ∃ near same far, earlier = near ++ same :: far ∧ same.width = line.width ∧ same.level = line.level ∧
      ∀ l ∈ near, line.width < l.width

/-- The levels of some lines are right, latest first. -/
def Nested : List Line → Prop
  | [] => True
  | line :: earlier => line.Fits (earlier ++ [.imaginary]) ∧ Nested earlier

/-! ## what a step adds -/

/-- What a step may put in front of the tokens: nothing, a change of blocks, the end of a line that has been started,
or a token with a text of its own. -/
inductive Lexer.Adds (lx : Lexer) : List Token → Prop
  | nothing : Adds lx []
  | indent (span : Span) : Adds lx [⟨.indent, span⟩]
  | dedents (n : Nat) (span : Span) : Adds lx (List.replicate n ⟨.dedent, span⟩)
  | newline (span : Span) : lx.inLine = true → Adds lx [⟨.newline, span⟩]
  | textual {kind : TokenKind} (span : Span) : kind.textual = true → Adds lx [⟨kind, span⟩]

namespace Lexer

variable {lx : Lexer}

theorem tokens_step (lx : Lexer) : ∃ new, lx.step.tokens = new ++ lx.tokens ∧ lx.Adds new := by
  unfold step
  split
  · unfold measure layout
    simp only [foldl_dedent]
    split
    · exact ⟨_, rfl, .nothing⟩
    split
    · exact ⟨_, rfl, .indent _⟩
    split <;> exact ⟨_, rfl, .dedents _ _⟩
  · rw [lexeme, accept]
    cases hlexeme : (scan lx.cursor).2.lexeme with
    | trivia => exact ⟨_, rfl, .nothing⟩
    | token kind => exact ⟨_, rfl, .textual _ (textual_scanHere hlexeme)⟩
    | lineEnd =>
        simp only [endLine]
        split
        · exact ⟨_, rfl, .nothing⟩
        · cases hline : lx.inLine with
          | true =>
            have hline' : ∀ cursor faults, inLine { lx with cursor := cursor, faults := faults } = true :=
              fun _ _ => hline
            simp only [hline', if_true]
            exact ⟨_, rfl, .newline _ hline⟩
          | false =>
            have hline' : ∀ cursor faults, inLine { lx with cursor := cursor, faults := faults } = false :=
              fun _ _ => hline
            simp only [hline']
            exact ⟨_, rfl, .nothing⟩

end Lexer

/-! ## ends of lines -/

/-- The tokens so far, latest first, have no `eof`, no two ends of lines in a row, and none as the first token. -/
structure Spaced (kinds : List TokenKind) : Prop where
  noEof : .eof ∉ kinds
  apart : ¬ [.newline, .newline] <:+: kinds
  opening : kinds.getLast? ≠ some .newline

section spaced

variable {kind : TokenKind} {kinds : List TokenKind}

theorem spaced_nil : Spaced [] := ⟨nofun, by simp, nofun⟩

theorem Spaced.cons (h : Spaced kinds) (hkind : kind ≠ .eof)
    (hnewline : kind = .newline → ∃ last more, kinds = last :: more ∧ last ≠ .newline) : Spaced (kind :: kinds) := by
  constructor
  · simpa [hkind.symm] using h.noEof
  · rw [List.infix_cons_iff]
    rintro (hstarts | hinside)
    · obtain ⟨more, heq⟩ := hstarts
      obtain ⟨rfl, rfl⟩ : kind = .newline ∧ kinds = .newline :: more := by simpa [eq_comm] using heq
      obtain ⟨last, _, heq, hne⟩ := hnewline rfl
      exact hne (List.cons.inj heq).1.symm
    · exact h.apart hinside
  · cases kinds with
    | nil =>
        intro heq
        obtain ⟨_, _, hnil, -⟩ := hnewline (Option.some.inj heq)
        cases hnil
    | cons last more =>
        rw [List.getLast?_cons_cons]
        exact h.opening

theorem Spaced.dedents (h : Spaced kinds) (n : Nat) : Spaced (List.replicate n .dedent ++ kinds) := by
  induction n with
  | zero => exact h
  | succ n ih => exact ih.cons (by decide) nofun

end spaced

namespace Lexer

variable {lx : Lexer} {new : List Token}

theorem exists_of_inLine (h : lx.inLine = true) :
    ∃ last more, lx.tokens.map (·.kind) = last :: more ∧ last ≠ .newline := by
  unfold inLine at h
  split at h
  · cases h
  · next token more heq =>
      have hne : token.kind ≠ .newline := by simpa using h
      exact ⟨token.kind, more.map (·.kind), by simp [heq], hne⟩

theorem Adds.spaced (h : lx.Adds new) (hspaced : Spaced (lx.tokens.map (·.kind))) :
    Spaced ((new ++ lx.tokens).map (·.kind)) := by
  cases h with
  | nothing => exact hspaced
  | indent span => exact hspaced.cons nofun nofun
  | dedents n span => simpa using hspaced.dedents n
  | newline span hline => exact hspaced.cons nofun fun _ => exists_of_inLine hline
  | @textual kind span hkind =>
      have hlayout := TokenKind.isLayout_of_textual hkind
      exact hspaced.cons (by rintro rfl; cases hlayout) (by rintro rfl; cases hlayout)

theorem spaced_run (h : Spaced (lx.tokens.map (·.kind))) : Spaced (lx.run.tokens.map (·.kind)) := by
  fun_induction run lx with
  | case1 lx _ => exact h
  | case2 lx _ ih =>
      obtain ⟨new, htokens, hadds⟩ := lx.tokens_step
      refine ih ?_
      rw [htokens]
      exact hadds.spaced h

/-- The end of the source ends the last line and closes all blocks. -/
theorem kinds_close_eq (lx : Lexer) :
    lx.close.tokens.map (·.kind) = .eof :: (List.replicate lx.widths.length .dedent ++
      ((if lx.inLine then [.newline] else []) ++ lx.tokens.map (·.kind))) := by
  rw [close_eq]
  cases lx.inLine <;> simp

theorem spaced_close (h : Spaced (lx.tokens.map (·.kind))) :
    ∃ kinds, lx.close.tokens.map (·.kind) = .eof :: kinds ∧ Spaced kinds := by
  refine ⟨_, lx.kinds_close_eq, Spaced.dedents ?_ _⟩
  cases hline : lx.inLine with
  | true => exact h.cons (by decide) fun _ => exists_of_inLine hline
  | false => exact h

end Lexer

/-! ## what follows a text -/

/-- Layout stands behind layout, or starts with the end of a line. -/
def MayFollow (earlier later : TokenKind) : Prop :=
  earlier.isLayout = false → later.isLayout = false ∨ later = .newline

/-- The tokens so far, latest first, keep to that. -/
def Chained (kinds : List TokenKind) : Prop :=
  kinds.IsChain fun later earlier => MayFollow earlier later

/-- No text is the latest of the tokens so far. -/
structure Rested (kinds : List TokenKind) : Prop where
  chained : Chained kinds
  latest : ∀ k ∈ kinds.head?, k.isLayout = true

section chained

variable {kind : TokenKind} {kinds : List TokenKind}

theorem Chained.cons (h : Chained kinds) (hkind : ∀ k ∈ kinds.head?, MayFollow k kind) : Chained (kind :: kinds) := by
  cases kinds with
  | nil => exact List.IsChain.singleton _
  | cons k kinds => exact List.IsChain.cons_cons (hkind k rfl) h

/-- Layout may stand behind layout. -/
theorem Rested.cons (h : Rested kinds) (hkind : kind.isLayout = true) : Rested (kind :: kinds) where
  chained := h.chained.cons fun k hk hworded => by
    rw [h.latest k hk] at hworded
    cases hworded
  latest := by
    rintro _ ⟨⟩
    exact hkind

theorem Rested.dedents (h : Rested kinds) (n : Nat) : Rested (List.replicate n .dedent ++ kinds) := by
  induction n with
  | zero => exact h
  | succ n ih => exact ih.cons rfl

end chained

namespace Lexer

variable {lx : Lexer}

/-- The tokens so far keep to it, and a line is measured only where no text is the latest of them. -/
structure LinesEnd (lx : Lexer) : Prop where
  chained : Chained (lx.tokens.map (·.kind))
  ended : lx.atLineStart = true → Rested (lx.tokens.map (·.kind))

theorem rested_of_not_inLine (h : Chained (lx.tokens.map (·.kind))) (hline : lx.inLine = false) :
    Rested (lx.tokens.map (·.kind)) := by
  refine ⟨h, ?_⟩
  unfold inLine at hline
  split at hline
  · next hnil => simp [hnil]
  · next token rest htokens =>
      have hkind : token.kind = .newline := by simpa using hline
      simp [htokens, hkind, TokenKind.isLayout]

theorem linesEnd_measure (h : lx.LinesEnd) (hline : lx.atLineStart = true) : lx.measure.LinesEnd := by
  have hrested := h.ended hline
  unfold measure layout
  simp only [foldl_dedent]
  split
  · exact ⟨h.chained, nofun⟩
  split
  · exact ⟨(hrested.cons rfl).chained, nofun⟩
  split <;> exact ⟨by simpa using (hrested.dedents _).chained, nofun⟩

theorem linesEnd_lexeme (h : lx.LinesEnd) (hline : lx.atLineStart = false) : lx.lexeme.LinesEnd := by
  rw [lexeme, accept]
  cases hlexeme : (scan lx.cursor).2.lexeme with
  | trivia => exact ⟨h.chained, fun hstart => absurd hstart (by simp [hline])⟩
  | token kind =>
      have hlayout := TokenKind.isLayout_of_textual (textual_scanHere hlexeme)
      exact ⟨h.chained.cons fun _ _ _ => .inl hlayout, fun hstart => absurd hstart (by simp [push, hline])⟩
  | lineEnd =>
      simp only [endLine]
      split
      · exact ⟨h.chained, fun hstart => absurd hstart (by simp [hline])⟩
      split
      · have hnewline : Chained (.newline :: lx.tokens.map (·.kind)) := h.chained.cons fun _ _ _ => .inr rfl
        exact ⟨hnewline, fun _ => ⟨hnewline, by rintro _ ⟨⟩; rfl⟩⟩
      · next hin =>
          have hin : lx.inLine = false := by simpa [inLine] using hin
          exact ⟨h.chained, fun _ => rested_of_not_inLine h.chained hin⟩

theorem linesEnd_run (h : lx.LinesEnd) : lx.run.LinesEnd := by
  fun_induction run lx with
  | case1 lx _ => exact h
  | case2 lx _ ih =>
      refine ih ?_
      unfold step
      split
      · exact linesEnd_measure h ‹_›
      · next hline => exact linesEnd_lexeme h (by simpa using hline)

end Lexer

/-- Behind a token with a text of its own stands another one, or the end of its line. -/
theorem mayFollow_lex (text : String) : ((lex text).tokens.map (·.kind)).IsChain MayFollow := by
  have hrun : (Lexer.start text).run.LinesEnd :=
    Lexer.linesEnd_run ⟨List.IsChain.nil, fun _ => ⟨List.IsChain.nil, nofun⟩⟩
  have hlast : Rested ((if (Lexer.start text).run.inLine = true then [.newline] else []) ++
      (Lexer.start text).run.tokens.map (·.kind)) := by
    split
    · exact ⟨hrun.chained.cons fun _ _ _ => .inr rfl, by rintro _ ⟨⟩; rfl⟩
    · next hline => exact Lexer.rested_of_not_inLine hrun.chained (by simpa using hline)
  rw [lex, List.map_reverse, List.isChain_reverse, Lexer.kinds_close_eq]
  exact ((hlast.dedents _).cons rfl).chained

/-! ## blocks are opened and closed -/

/-- Among some tokens, latest first, so many blocks have been opened and not closed, and none was closed that had not
been opened. -/
inductive Opens : List TokenKind → Nat → Prop
  | nil : Opens [] 0
  | indent {kinds : List TokenKind} {n : Nat} : Opens kinds n → Opens (.indent :: kinds) (n + 1)
  | dedent {kinds : List TokenKind} {n : Nat} : Opens kinds (n + 1) → Opens (.dedent :: kinds) n
  | other {kind : TokenKind} {kinds : List TokenKind} {n : Nat} : kind ≠ .indent → kind ≠ .dedent →
      Opens kinds n → Opens (kind :: kinds) n

section opens

variable {kinds : List TokenKind} {n : Nat}

theorem Opens.count_indent (h : Opens kinds n) : kinds.count .indent = n + kinds.count .dedent := by
  induction h with
  | nil => rfl
  | indent _ ih => simp [ih]; omega
  | dedent _ ih => simp [ih]; omega
  | other hindent hdedent _ ih => simp [hindent, hdedent, ih]

theorem Opens.suffix {some : List TokenKind} (h : Opens kinds n) (hsuffix : some <:+ kinds) : ∃ m, Opens some m := by
  induction h with
  | nil =>
      rw [List.suffix_nil.1 hsuffix]
      exact ⟨0, .nil⟩
  | indent h ih =>
      obtain rfl | hsuffix := List.suffix_cons_iff.1 hsuffix
      · exact ⟨_, .indent h⟩
      · exact ih hsuffix
  | dedent h ih =>
      obtain rfl | hsuffix := List.suffix_cons_iff.1 hsuffix
      · exact ⟨_, .dedent h⟩
      · exact ih hsuffix
  | other hindent hdedent h ih =>
      obtain rfl | hsuffix := List.suffix_cons_iff.1 hsuffix
      · exact ⟨_, .other hindent hdedent h⟩
      · exact ih hsuffix

theorem Opens.others {new : List TokenKind} (h : Opens kinds n)
    (hnew : ∀ kind ∈ new, kind ≠ .indent ∧ kind ≠ .dedent) : Opens (new ++ kinds) n := by
  induction new with
  | nil => exact h
  | cons kind new ih =>
      obtain ⟨hkind, hnew⟩ := List.forall_mem_cons.1 hnew
      exact .other hkind.1 hkind.2 (ih hnew)

theorem Opens.dedents {k : Nat} (h : Opens kinds (k + n)) : Opens (List.replicate k .dedent ++ kinds) n := by
  induction k generalizing n with
  | zero => simpa using h
  | succ k ih =>
      rw [Nat.succ_add_eq_add_succ] at h
      exact .dedent (ih h)

end opens

/-! ## levels of lines -/

/-- Tokens that stand behind a position, or change no blocks, leave the level there. -/
theorem levelAt_append {new tokens : List Token} {p : Pos}
    (h : ∀ t ∈ new, p.before t.span.first = true ∨ t.kind ≠ .indent ∧ t.kind ≠ .dedent) :
    levelAt (new ++ tokens) p = levelAt tokens p := by
  induction new with
  | nil => rfl
  | cons t new ih =>
      obtain ⟨ht, hnew⟩ := List.forall_mem_cons.1 h
      rw [← ih hnew]
      obtain hlater | ⟨hindent, hdedent⟩ := ht
      · simp [levelAt, hlater]
      · cases hbefore : p.before t.span.first <;> simp [levelAt, hbefore, hindent, hdedent]

/-- Where all tokens have started, all blocks count. -/
theorem levelAt_eq {tokens : List Token} {p : Pos} {n : Nat} (h : Opens (tokens.map (·.kind)) n)
    (hpassed : ∀ t ∈ tokens, p.before t.span.first = false) : levelAt tokens p = n := by
  have hall : tokens.filter (fun t => !p.before t.span.first) = tokens :=
    List.filter_eq_self.2 fun t ht => by simp [hpassed t ht]
  have hcount := h.count_indent
  simp only [levelAt, hall]
  omega

/-! ## blocks and lines -/

/-- What a line of some width does to the open blocks, innermost first, and the tokens that say so: it opens a block, or
it closes the blocks that are wider, and there is one of its width. -/
inductive Shift (widths : List Nat) (width : Nat) : List Nat → List TokenKind → Prop
  | opens : widths.headD 0 < width → Shift widths width (width :: widths) [.indent]
  | closes {closed opened : List Nat} : ¬ widths.headD 0 < width → widths = closed ++ opened →
      opened.headD 0 = width → Shift widths width opened (List.replicate closed.length .dedent)

theorem Opens.shift {widths opened : List Nat} {width : Nat} {kinds new : List TokenKind}
    (h : Opens kinds widths.length) (hshift : Shift widths width opened new) : Opens (new ++ kinds) opened.length := by
  cases hshift with
  | opens _ => exact .indent h
  | closes _ hsplit _ =>
      rw [hsplit, List.length_append] at h
      exact h.dedents

/-- The widths of the open blocks, innermost first, against the lines so far, latest first. The latest line is in the
innermost block; behind the line that opened a block, or came back to it, there are only wider lines. -/
structure Stacked (widths : List Nat) (lines : List Line) : Prop where
  sorted : widths.Pairwise fun inner outer => outer < inner
  positive : ∀ width ∈ widths, 0 < width
  latest : lines.head? = some ⟨widths.headD 0, widths.length⟩
  blocks : ∀ outer, outer <:+ widths → ∃ near far,
    lines = near ++ ⟨outer.headD 0, outer.length⟩ :: far ∧ ∀ l ∈ near, outer.headD 0 < l.width

section stacked

variable {widths : List Nat} {lines : List Line} {width : Nat}

theorem stacked_start : Stacked [] [.imaginary] := by
  constructor
  · exact .nil
  · nofun
  · rfl
  · intro outer hsuffix
    rw [List.suffix_nil.1 hsuffix]
    exact ⟨[], [], rfl, nofun⟩

/-- Blocks further out are narrower. -/
theorem Stacked.headD_lt (h : Stacked widths lines) (hwidth : widths.headD 0 < width) {outer : List Nat}
    (hsuffix : outer <:+ widths) : outer.headD 0 < width := by
  cases outer with
  | nil =>
      have hzero : (0 : Nat) ≤ widths.headD 0 := Nat.zero_le _
      exact Nat.lt_of_le_of_lt hzero hwidth
  | cons w outer =>
      obtain ⟨inner, rfl⟩ := hsuffix
      cases inner with
      | nil => exact hwidth
      | cons v inner =>
          have hlt : w < v := (List.pairwise_cons.1 h.sorted).1 w (by simp)
          exact Nat.lt_trans hlt hwidth

/-- A wider line opens a block. -/
theorem Stacked.wider (h : Stacked widths lines) (hwidth : widths.headD 0 < width) :
    Stacked (width :: widths) (⟨width, ↑(width :: widths).length⟩ :: lines) ∧
      Line.Fits ⟨width, ↑(width :: widths).length⟩ lines := by
  constructor
  · constructor
    · refine List.pairwise_cons.2 ⟨fun w hw => ?_, h.sorted⟩
      obtain ⟨inner, outer, rfl⟩ := List.append_of_mem hw
      exact h.headD_lt hwidth (List.suffix_append inner (w :: outer))
    · exact List.forall_mem_cons.2 ⟨Nat.zero_lt_of_lt hwidth, h.positive⟩
    · rfl
    · intro outer hsuffix
      obtain rfl | hsuffix := List.suffix_cons_iff.1 hsuffix
      · exact ⟨[], lines, rfl, nofun⟩
      · obtain ⟨near, far, hlines, hnear⟩ := h.blocks outer hsuffix
        exact ⟨_ :: near, far, by rw [hlines]; rfl, List.forall_mem_cons.2 ⟨h.headD_lt hwidth hsuffix, hnear⟩⟩
  · constructor
    · intro previous hprevious
      obtain rfl : _ = previous := Option.some.inj (h.latest.symm.trans hprevious)
      exact ⟨fun _ => hwidth, fun _ => by simp⟩
    · intro hnone
      exact absurd (hnone _ h.latest) (Nat.not_le.2 hwidth)

/-- A line that is not wider closes the blocks that are wider than it. -/
theorem Stacked.closes (h : Stacked widths lines) {opened : List Nat} (hsuffix : opened <:+ widths)
    (hwidth : ¬ widths.headD 0 < width) (hopened : opened.headD 0 = width) :
    Stacked opened (⟨width, opened.length⟩ :: lines) ∧ Line.Fits ⟨width, opened.length⟩ lines := by
  have hsorted := h.sorted.sublist hsuffix.sublist
  constructor
  · constructor
    · exact hsorted
    · exact fun w hw => h.positive w (hsuffix.mem hw)
    · rw [hopened]
      rfl
    · intro outer houter
      obtain ⟨near, far, hlines, hnear⟩ := h.blocks outer (houter.trans hsuffix)
      by_cases heq : outer = opened
      · exact ⟨[], lines, by rw [heq, hopened]; rfl, nofun⟩
      · have hlt : outer.headD 0 < width := by
          cases opened with
          | nil => exact absurd (List.suffix_nil.1 houter) heq
          | cons w opened =>
              obtain rfl : w = width := hopened
              have houter := (List.suffix_cons_iff.1 houter).resolve_left heq
              cases outer with
              | nil => exact h.positive w (hsuffix.mem List.mem_cons_self)
              | cons v outer => exact (List.pairwise_cons.1 hsorted).1 v (houter.mem List.mem_cons_self)
        exact ⟨_ :: near, far, by rw [hlines]; rfl, List.forall_mem_cons.2 ⟨hlt, hnear⟩⟩
  · constructor
    · intro previous hprevious
      obtain rfl : _ = previous := Option.some.inj (h.latest.symm.trans hprevious)
      have hlength := hsuffix.length_le
      simp only [hwidth, iff_false]
      omega
    · intro _
      obtain ⟨near, far, hlines, hnear⟩ := h.blocks opened hsuffix
      exact ⟨near, _, far, hlines, hopened, rfl, fun l hl => hopened ▸ hnear l hl⟩

theorem Stacked.shift {opened : List Nat} {new : List TokenKind} (h : Stacked widths lines)
    (hshift : Shift widths width opened new) :
    Stacked opened (⟨width, opened.length⟩ :: lines) ∧ Line.Fits ⟨width, opened.length⟩ lines := by
  cases hshift with
  | opens hwidth => exact h.wider hwidth
  | closes hwidth hsplit hopened => exact h.closes (hsplit ▸ List.suffix_append _ _) hwidth hopened

end stacked

/-! ## logical lines are found -/

theorem length_takeWhile_drop {p q : Char → Bool} (h : ∀ c, p c = true → q c = true) (cs : List Char) :
    (cs.takeWhile p).length + ((cs.drop (cs.takeWhile p).length).takeWhile q).length = (cs.takeWhile q).length := by
  induction cs with
  | nil => rfl
  | cons c cs ih =>
      by_cases hp : p c = true
      · simp [hp, h c hp]
        omega
      · simp [hp]

theorem isSpace_of_isIndentation {c : Char} (h : isIndentation c = true) : isSpace c = true := by
  simp only [isIndentation, isSpace, Bool.or_eq_true] at h ⊢
  obtain (h | h) | h := h <;> simp [h]

/-- The white space at the start of a line makes no difference to the lexeme behind it. -/
theorem scan_skipWhile (cur : Cursor) : scan (cur.skipWhile isIndentation) = scan cur := by
  have hskip : (cur.skipWhile isIndentation).skipWhile isSpace = cur.skipWhile isSpace := by
    rw [Cursor.skipWhile, Cursor.skipWhile, Cursor.skipWhile, Cursor.advance_advance, Cursor.rest_advance,
      length_takeWhile_drop (fun _ => isSpace_of_isIndentation)]
  rw [scan, hskip, scan]

theorem headsBehind_of_nil {cur : Cursor} (h : cur.rest = []) (depth : Nat) : headsBehind cur depth = [] := by
  rw [headsBehind, dif_pos h]

theorem headsBehind_skipWhile (cur : Cursor) (depth : Nat) :
    headsBehind (cur.skipWhile isIndentation) depth = headsBehind cur depth := by
  by_cases hskip : (cur.skipWhile isIndentation).rest = []
  · rw [headsBehind_of_nil hskip]
    by_cases hrest : cur.rest = []
    · rw [headsBehind_of_nil hrest]
    · have hnext : ((cur.skipWhile isIndentation).skipWhile isSpace).rest = [] := by
        rw [Cursor.skipWhile, Cursor.rest_advance, hskip, List.drop_nil]
      have hscan : (scan cur).2 = ⟨.trivia, (cur.skipWhile isIndentation).skipWhile isSpace, []⟩ := by
        rw [← scan_skipWhile, scan, scanHere, hnext]
      rw [headsBehind, dif_neg hrest, hscan]
      exact (headsBehind_of_nil hnext depth).symm
  · have hrest : cur.rest ≠ [] := fun hnil => hskip (by simp [Cursor.skipWhile, hnil])
    rw [headsBehind, dif_neg hskip, scan_skipWhile, headsBehind.eq_1 cur, dif_neg hrest]

namespace Lexer

variable {lx : Lexer}

/-- The logical lines ahead. -/
def headsAhead (lx : Lexer) : List Head :=
  (if lx.atLineStart then headAt lx.cursor else []) ++ headsBehind lx.cursor lx.depth

theorem layout_cases {width : Nat} (h : (lx.layout width).faults = []) :
    ∃ opened new, lx.layout width = { lx with widths := opened, tokens := new ++ lx.tokens } ∧
      (∀ t ∈ new, t.span.first = lx.cursor.pos) ∧ Shift lx.widths width opened (new.map (·.kind)) := by
  unfold layout at h ⊢
  simp only [foldl_dedent] at h ⊢
  split_ifs at h ⊢ with hwidth hmatch
  · exact ⟨width :: lx.widths, [⟨.indent, lx.here⟩], rfl, by simp [here, Span.point], .opens hwidth⟩
  · have hshift := Shift.closes hwidth List.takeWhile_append_dropWhile.symm hmatch
    refine ⟨_, _, rfl, ?_, ?_⟩
    · intro t ht
      rw [(List.mem_replicate.1 ht).2]
      rfl
    · simpa [splitWidths] using hshift

/-- A logical line is measured: it shifts the open blocks. Blank lines are passed over. -/
theorem measure_cases (hline : lx.atLineStart = true) (h : lx.measure.faults = []) :
    (lx.headsAhead = lx.measure.headsAhead ∧
      lx.measure = { lx with cursor := lx.cursor.skipWhile isIndentation, atLineStart := false }) ∨
    ∃ width opened new,
      lx.headsAhead = ⟨width, lx.measure.cursor.pos⟩ :: lx.measure.headsAhead ∧ lx.measure.cursor.rest ≠ [] ∧
      lx.measure = { lx with cursor := lx.cursor.skipWhile isIndentation, atLineStart := false, widths := opened,
                             tokens := new ++ lx.tokens } ∧
      (∀ t ∈ new, t.span.first = lx.measure.cursor.pos) ∧ Shift lx.widths width opened (new.map (·.kind)) := by
  have hbehind := headsBehind_skipWhile lx.cursor lx.depth
  by_cases hblank : isBlankRest (lx.cursor.skipWhile isIndentation).rest = true
  · have hmeasure : lx.measure = { lx with cursor := lx.cursor.skipWhile isIndentation, atLineStart := false } :=
      if_pos hblank
    rw [hmeasure]
    exact .inl ⟨by simp [headsAhead, hline, headAt, hblank, hbehind], rfl⟩
  · have hmeasure : lx.measure = layout { lx with cursor := lx.cursor.skipWhile isIndentation, atLineStart := false }
        (indentWidth (lx.cursor.rest.takeWhile isIndentation)) := if_neg hblank
    rw [hmeasure] at h ⊢
    obtain ⟨opened, new, heq, hnew, hshift⟩ := layout_cases h
    have hrest : (lx.cursor.skipWhile isIndentation).rest ≠ [] := fun hnil => hblank (by rw [hnil]; rfl)
    rw [heq]
    exact .inr ⟨_, opened, new, by simp [headsAhead, hline, headAt, hblank, hbehind], hrest, rfl, hnew, hshift⟩

/-- A lexeme opens and closes no blocks. -/
theorem lexeme_cases (hline : lx.atLineStart = false) (hrest : lx.cursor.rest ≠ []) :
    lx.headsAhead = lx.lexeme.headsAhead ∧ lx.lexeme.widths = lx.widths ∧
      lx.cursor.pos.before lx.lexeme.cursor.pos = true ∧
      ∃ new, lx.lexeme.tokens = new ++ lx.tokens ∧
        ∀ t ∈ new, (t.kind ≠ .indent ∧ t.kind ≠ .dedent) ∧ ¬ lx.lexeme.cursor.pos.before t.span.first = true := by
  obtain ⟨mid, hmid, hstart, hscanned⟩ := reaches_scan lx.cursor
  have hreaches := reaches_scanHere mid
  have hnext : lx.cursor.Reaches (scan lx.cursor).2.next := by
    rw [hscanned]
    exact hmid.trans hreaches
  have hpassed : ¬ (scan lx.cursor).2.next.pos.before (scan lx.cursor).1 = true := by
    rw [hstart, hscanned]
    obtain heq | hlater := hreaches.pos
    · rw [heq]
      exact mid.pos.not_before_self
    · exact fun hback => mid.pos.not_before_self (Pos.before_trans hlater hback)
  have hahead : lx.headsAhead = headsBehind lx.cursor lx.depth := by simp [headsAhead, hline]
  rw [headsBehind, dif_neg hrest] at hahead
  have hpos := hnext.pos_of_lt (length_rest_scan_lt hrest)
  rw [hahead, lexeme, cursor_accept]
  cases hlexeme : (scan lx.cursor).2.lexeme with
  | trivia =>
      have haccept : lx.accept (scan lx.cursor).1 (scan lx.cursor).2 =
          { lx with cursor := (scan lx.cursor).2.next, faults := (scan lx.cursor).2.faults.reverse ++ lx.faults } := by
        simp only [accept, hlexeme]
      rw [haccept]
      exact ⟨by simp [headsAhead, hline], rfl, hpos, [], rfl, by simp⟩
  | token kind =>
      have hlayout := TokenKind.isLayout_of_textual (textual_scanHere (hscanned ▸ hlexeme))
      have hkind : kind ≠ .indent ∧ kind ≠ .dedent := by constructor <;> (rintro rfl; cases hlayout)
      simp only [accept, hlexeme]
      exact ⟨by simp [headsAhead, hline], rfl, hpos, [_], rfl, List.forall_mem_singleton.2 ⟨hkind, hpassed⟩⟩
  | lineEnd =>
      simp only [accept, hlexeme, endLine]
      by_cases hdepth : 0 < lx.depth
      · rw [if_pos hdepth, if_neg (Nat.ne_of_gt hdepth)]
        exact ⟨by simp [headsAhead, hline], rfl, hpos, [], rfl, by simp⟩
      · obtain hzero : lx.depth = 0 := Nat.eq_zero_of_not_pos hdepth
        rw [if_neg hdepth, if_pos hzero]
        split
        · exact ⟨rfl, rfl, hpos, [_], rfl, List.forall_mem_singleton.2 ⟨by simp, hpassed⟩⟩
        · exact ⟨rfl, rfl, hpos, [], rfl, by simp⟩

/-! ## the levels of lines are right -/

/-- The lines with these heads, latest first, and the imaginary one. -/
def linesOf (tokens : List Token) (earlier : List Head) : List Line :=
  earlier.map (Head.line tokens) ++ [.imaginary]

/-- The layout so far: blocks are opened before they are closed, and the levels of the lines so far, latest first, are
right. -/
structure Laid (lx : Lexer) (earlier : List Head) : Prop where
  opens : Opens (lx.tokens.map (·.kind)) lx.widths.length
  passed : ∀ t ∈ lx.tokens, ¬ lx.cursor.pos.before t.span.first = true
  stacked : Stacked lx.widths (linesOf lx.tokens earlier)
  nested : Nested (earlier.map (Head.line lx.tokens))
  /-- Lines start in front of the cursor, or the latest one has not been read yet. -/
  behind : ∀ head ∈ earlier, head.pos.before lx.cursor.pos = true ∨
    head.pos = lx.cursor.pos ∧ lx.atLineStart = false ∧ lx.cursor.rest ≠ []

/-- Lines whose levels stay the same stay the same lines. -/
theorem map_line_congr {tokens tokens' : List Token} {earlier : List Head}
    (h : ∀ head ∈ earlier, levelAt tokens' head.pos = levelAt tokens head.pos) :
    earlier.map (Head.line tokens') = earlier.map (Head.line tokens) :=
  List.map_congr_left fun head hhead => by rw [Head.line, Head.line, h head hhead]

theorem Laid.of_levels {lx' : Lexer} {earlier : List Head} (h : lx.Laid earlier)
    (hopens : Opens (lx'.tokens.map (·.kind)) lx'.widths.length)
    (hpassed : ∀ t ∈ lx'.tokens, ¬ lx'.cursor.pos.before t.span.first = true) (hwidths : lx'.widths = lx.widths)
    (hlevels : ∀ head ∈ earlier, levelAt lx'.tokens head.pos = levelAt lx.tokens head.pos)
    (hbehind : ∀ head ∈ earlier, head.pos.before lx'.cursor.pos = true) : lx'.Laid earlier := by
  have hlines := map_line_congr hlevels
  constructor
  · exact hopens
  · exact hpassed
  · rw [linesOf, hlines, hwidths]
    exact h.stacked
  · rw [hlines]
    exact h.nested
  · exact fun head hhead => .inl (hbehind head hhead)

/-- What stands in front of a cursor has been passed by those that it reaches. -/
theorem not_before_of_reaches {cur next : Cursor} (h : cur.Reaches next) {p : Pos}
    (hp : ¬ cur.pos.before p = true) : ¬ next.pos.before p = true := by
  obtain rfl | hlater := h.pos
  · exact hp
  · exact fun hnext => hp (Pos.before_trans hlater hnext)

theorem laid_measure {earlier : List Head} (h : lx.Laid earlier) (hline : lx.atLineStart = true)
    (hfaults : lx.measure.faults = []) :
    ∃ found, lx.headsAhead = found ++ lx.measure.headsAhead ∧ lx.measure.Laid (found.reverse ++ earlier) := by
  have hreaches := lx.reaches_measure
  have hbehind : ∀ head ∈ earlier, head.pos.before lx.measure.cursor.pos = true := by
    intro head hhead
    obtain hbefore | ⟨-, hread, -⟩ := h.behind head hhead
    · exact hreaches.before hbefore
    · rw [hline] at hread
      cases hread
  have hpassed : ∀ t ∈ lx.tokens, ¬ lx.measure.cursor.pos.before t.span.first = true :=
    fun t ht => not_before_of_reaches hreaches (h.passed t ht)
  obtain ⟨hahead, heq⟩ | ⟨width, opened, new, hahead, hrest, heq, hnew, hshift⟩ := measure_cases hline hfaults
  · have htokens : lx.measure.tokens = lx.tokens := by rw [heq]
    have hwidths : lx.measure.widths = lx.widths := by rw [heq]
    refine ⟨[], hahead, h.of_levels ?_ ?_ hwidths (fun _ _ => by rw [htokens]) hbehind⟩
    · rw [htokens, hwidths]
      exact h.opens
    · rw [htokens]
      exact hpassed
  · have htokens : lx.measure.tokens = new ++ lx.tokens := by rw [heq]
    have hwidths : lx.measure.widths = opened := by rw [heq]
    have hread : lx.measure.atLineStart = false := by rw [heq]
    have hopens : Opens (lx.measure.tokens.map (·.kind)) opened.length := by
      rw [htokens, List.map_append]
      exact h.opens.shift hshift
    have hpassed' : ∀ t ∈ lx.measure.tokens, ¬ lx.measure.cursor.pos.before t.span.first = true := by
      rw [htokens]
      intro t ht
      obtain ht | ht := List.mem_append.1 ht
      · rw [hnew t ht]
        exact Pos.not_before_self _
      · exact hpassed t ht
    -- The new line has all blocks that are open now; the tokens in front of it stand behind the earlier lines.
    have hlevel : levelAt lx.measure.tokens lx.measure.cursor.pos = opened.length :=
      levelAt_eq hopens fun t ht => Bool.eq_false_iff.2 (hpassed' t ht)
    have hlevels : ∀ head ∈ earlier, levelAt lx.measure.tokens head.pos = levelAt lx.tokens head.pos := by
      intro head hhead
      rw [htokens]
      exact levelAt_append fun t ht => .inl (hnew t ht ▸ hbehind head hhead)
    have hlines := map_line_congr hlevels
    have hline' : Head.line lx.measure.tokens ⟨width, lx.measure.cursor.pos⟩ = ⟨width, opened.length⟩ := by
      rw [Head.line, hlevel]
    obtain ⟨hstacked, hfits⟩ := h.stacked.shift hshift
    refine ⟨[⟨width, lx.measure.cursor.pos⟩], hahead, ?_⟩
    constructor
    · rw [hwidths]
      exact hopens
    · exact hpassed'
    · rw [hwidths]
      simpa [linesOf, hline', hlines] using hstacked
    · rw [List.reverse_singleton, List.singleton_append, List.map_cons, hline', hlines]
      exact ⟨hfits, h.nested⟩
    · exact List.forall_mem_cons.2 ⟨.inr ⟨rfl, hread, hrest⟩, fun head hhead => .inl (hbehind head hhead)⟩

theorem laid_lexeme {earlier : List Head} (h : lx.Laid earlier) (hline : lx.atLineStart = false)
    (hrest : lx.cursor.rest ≠ []) : lx.headsAhead = lx.lexeme.headsAhead ∧ lx.lexeme.Laid earlier := by
  obtain ⟨hahead, hwidths, hpos, new, htokens, hnew⟩ := lexeme_cases hline hrest
  have hold : ∀ t ∈ lx.tokens, ¬ lx.lexeme.cursor.pos.before t.span.first = true :=
    fun t ht hback => h.passed t ht (Pos.before_trans hpos hback)
  refine ⟨hahead, h.of_levels ?_ ?_ hwidths ?_ ?_⟩
  · rw [hwidths, htokens, List.map_append]
    exact h.opens.others (List.forall_mem_map.2 fun t ht => (hnew t ht).1)
  · rw [htokens]
    intro t ht
    obtain ht | ht := List.mem_append.1 ht
    · exact (hnew t ht).2
    · exact hold t ht
  · intro head hhead
    rw [htokens]
    exact levelAt_append fun t ht => .inr (hnew t ht).1
  · intro head hhead
    obtain hbefore | ⟨hat, -⟩ := h.behind head hhead
    · exact Pos.before_trans hbefore hpos
    · rwa [hat]

/-- A run without faults finds the logical lines ahead, and reads all of the source. -/
theorem laid_run {earlier : List Head} (h : lx.Laid earlier) (hfaults : lx.run.faults = []) :
    lx.run.Laid (lx.headsAhead.reverse ++ earlier) ∧ lx.run.cursor.rest = [] := by
  fun_induction run lx generalizing earlier with
  | case1 lx hfinished =>
      have hrest : lx.cursor.rest = [] := by simpa [finished, hfaults, maxDiagnostics] using hfinished
      have hnone : lx.headsAhead = [] := by
        simp [headsAhead, headAt, headsBehind_of_nil hrest, Cursor.skipWhile, hrest, isBlankRest]
      rw [hnone]
      exact ⟨h, hrest⟩
  | case2 lx hmore ih =>
      have hstep : lx.step.faults = [] := List.suffix_nil.1 (hfaults ▸ lx.step.faults_run)
      cases hline : lx.atLineStart with
      | true =>
          have heq : lx.step = lx.measure := if_pos hline
          rw [heq] at ih hstep hfaults ⊢
          obtain ⟨found, hahead, hlaid⟩ := laid_measure h hline hstep
          rw [hahead, List.reverse_append, List.append_assoc]
          exact ih hlaid hfaults
      | false =>
          have heq : lx.step = lx.lexeme := if_neg (by simp [hline])
          have hrest : lx.cursor.rest ≠ [] := by
            intro hnil
            simp [finished, hnil] at hmore
          rw [heq] at ih hstep hfaults ⊢
          obtain ⟨hahead, hlaid⟩ := laid_lexeme h hline hrest
          rw [hahead]
          exact ih hlaid hfaults

/-- The tokens at the end of a source stand there. -/
theorem tokens_close (lx : Lexer) :
    ∃ new, lx.close.tokens = new ++ lx.tokens ∧ ∀ t ∈ new, t.span.first = lx.cursor.pos := by
  obtain ⟨new, hnew, hspans⟩ := lx.tokens_close_here
  exact ⟨new, hnew, fun t ht => congrArg Span.first (hspans t ht)⟩

/-- Behind the last line all blocks are closed, and the lines keep their levels. -/
theorem Laid.close {earlier : List Head} (h : lx.Laid earlier) (hrest : lx.cursor.rest = []) :
    Opens (lx.close.tokens.map (·.kind)) 0 ∧ Nested (earlier.map (Head.line lx.close.tokens)) := by
  constructor
  · rw [kinds_close_eq]
    refine .other nofun nofun (Opens.dedents ?_)
    cases lx.inLine with
    | true => exact .other nofun nofun h.opens
    | false => exact h.opens
  · have hlevels : ∀ head ∈ earlier, levelAt lx.close.tokens head.pos = levelAt lx.tokens head.pos := by
      intro head hhead
      obtain hbefore | ⟨-, -, hmore⟩ := h.behind head hhead
      · obtain ⟨new, htokens, hnew⟩ := lx.tokens_close
        rw [htokens]
        exact levelAt_append fun t ht => .inl (hnew t ht ▸ hbefore)
      · exact absurd hrest hmore
    rw [map_line_congr hlevels]
    exact h.nested

theorem laid_start (text : String) : (Lexer.start text).Laid [] :=
  ⟨.nil, nofun, stacked_start, trivial, nofun⟩

end Lexer

/-! ## the layout of a source -/

theorem levelAt_reverse (tokens : List Token) (p : Pos) : levelAt tokens.reverse p = levelAt tokens p := by
  simp [levelAt, List.filter_reverse, List.map_reverse]

/-- The logical lines of a source, with their levels in its tokens. -/
def lines (text : String) : List Line :=
  (heads text).map (Head.line (lex text).tokens)

/-- The ends of lines, and the end of the source. -/
theorem spaced_lex (text : String) :
    (∃ kinds, (lex text).tokens.map (·.kind) = kinds ++ [.eof] ∧ .eof ∉ kinds) ∧
      ((lex text).tokens.map (·.kind)).head? ≠ some .newline ∧
      ¬ [.newline, .newline] <:+: (lex text).tokens.map (·.kind) := by
  have hrun := @Lexer.spaced_run (.start text) spaced_nil
  obtain ⟨kinds, hclose, hspaced⟩ := Lexer.spaced_close hrun
  have hkinds : (lex text).tokens.map (·.kind) = kinds.reverse ++ [.eof] := by
    rw [lex, List.map_reverse, hclose, List.reverse_cons]
  rw [hkinds]
  refine ⟨⟨kinds.reverse, rfl, by simpa using hspaced.noEof⟩, ?_, ?_⟩
  · cases hlast : kinds.getLast? with
    | none => simp [List.getLast?_eq_none_iff.1 hlast]
    | some kind =>
        have hne := hspaced.opening
        rw [List.head?_append, List.head?_reverse, hlast]
        rwa [hlast] at hne
  · have hapart : ¬ [.newline, .newline] <:+: TokenKind.eof :: kinds := by
      rw [List.infix_cons_iff]
      rintro (hstarts | hinside)
      · cases (List.cons_prefix_cons.1 hstarts).1
      · exact hspaced.apart hinside
    rwa [← List.reverse_cons, ← List.reverse_infix, List.reverse_reverse]

/-- The end of a source is a single position. -/
theorem getLast?_lex (text : String) : ∃ pos, (lex text).tokens.getLast? = some ⟨.eof, .point pos⟩ := by
  refine ⟨(Lexer.start text).run.cursor.pos, ?_⟩
  rw [lex, Lexer.close_eq, List.getLast?_reverse]
  rfl

/-- The blocks of a source without faults. -/
theorem nested_lex {text : String} (h : (lex text).faults = []) :
    (∀ front, front <+: (lex text).tokens.map (·.kind) → front.count .dedent ≤ front.count .indent) ∧
      ((lex text).tokens.map (·.kind)).count .indent = ((lex text).tokens.map (·.kind)).count .dedent ∧
      Nested (lines text).reverse := by
  have hrun : (Lexer.start text).run.faults = [] := by simpa [lex, Lexer.close_eq] using h
  obtain ⟨hlaid, hrest⟩ := Lexer.laid_run (Lexer.laid_start text) hrun
  obtain ⟨hopens, hnested⟩ := hlaid.close hrest
  have hahead : (Lexer.start text).headsAhead = heads text := rfl
  have hlines : lines text = (heads text).map (Head.line (Lexer.start text).run.close.tokens) :=
    List.map_congr_left fun head _ => by rw [Head.line, Head.line, lex, levelAt_reverse]
  have htokens : (lex text).tokens.map (·.kind) = ((Lexer.start text).run.close.tokens.map (·.kind)).reverse := by
    rw [lex, List.map_reverse]
  rw [htokens]
  refine ⟨fun front hfront => ?_, ?_, ?_⟩
  · rw [← List.reverse_suffix, List.reverse_reverse] at hfront
    obtain ⟨n, hn⟩ := hopens.suffix hfront
    have hcount := hn.count_indent
    simp only [List.count_reverse] at hcount
    omega
  · rw [List.count_reverse, List.count_reverse, hopens.count_indent, Nat.zero_add]
  · rw [hlines, ← List.map_reverse]
    simpa [hahead] using hnested

/-- The layout of a source: the ends of lines stand apart, with `eof` behind all tokens, and without faults the blocks
follow the indentation. -/
theorem layout_lex (text : String) :
    ((∃ kinds, (lex text).tokens.map (·.kind) = kinds ++ [.eof] ∧ .eof ∉ kinds) ∧
      ((lex text).tokens.map (·.kind)).head? ≠ some .newline ∧
      ¬ [.newline, .newline] <:+: (lex text).tokens.map (·.kind)) ∧
    ((lex text).faults = [] →
      (∀ front, front <+: (lex text).tokens.map (·.kind) → front.count .dedent ≤ front.count .indent) ∧
        ((lex text).tokens.map (·.kind)).count .indent = ((lex text).tokens.map (·.kind)).count .dedent ∧
        Nested (lines text).reverse) :=
  ⟨spaced_lex text, nested_lex⟩

/-- Blocks that spaces and a tab open, a comment, a blank line, a line with brackets over two rows, and one that closes
both blocks, its width counted from a form feed. -/
def layoutText : String :=
  "a\n  b\n\tc\n # note\n\n        d(\n0)\n\t \x0ce"

theorem layout_lex_blocks :
    (lex layoutText).faults = [] ∧
      (lines layoutText).map (fun line => (line.width, line.level)) =
        [(0, 0), (2, 1), (8, 2), (8, 2), (0, 0)] ∧
      Nested (lines layoutText).reverse :=
  ⟨by decide +kernel, by decide +kernel, ((layout_lex layoutText).2 (by decide +kernel)).2.2⟩

end ViewSync
