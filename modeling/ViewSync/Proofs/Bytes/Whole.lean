import ViewSync.Proofs.Bytes.Lexemes
import ViewSync.Proofs.Token.Ahead

/-!
# ViewSync.Proofs.Bytes.Whole

A reader that looks at single bytes never splits a character. On the bytes of a text it does what the reader of
characters does, step by step (`ByteLexer.Follows`): between two steps it stands in front of a whole character, what it
reads as a text are the bytes of a text, and each token was read from whole characters, those that its span names
(`characters_stay_whole`).
-/

namespace ViewSync

/-- Where a token was read: `range` counts the bytes up to its start and up to its end. -/
inductive Token.StandsAt (text : List Char) : Token → Nat × Nat → Prop
  /-- A token that the layout puts between two characters. -/
  | between {front rest : List Char} {kind : TokenKind} : text = front ++ rest →
      StandsAt text ⟨kind, .point (endOf front)⟩ ((bytes front).length, (bytes front).length)
  /-- A token that was read from characters. -/
  | read {front lexeme rest : List Char} {kind : TokenKind} : text = front ++ lexeme ++ rest →
      StandsAt text ⟨kind, (Cursor.mk rest (endOf (front ++ lexeme))).spanFrom (endOf front)⟩
        ((bytes front).length, (bytes (front ++ lexeme)).length)

/-- Between two characters. -/
theorem valid_length_bytes {front rest : List Char} {text : String} (h : text.toList = front ++ rest) :
    (⟨(bytes front).length⟩ : String.Pos.Raw).IsValid text := by
  refine String.Pos.Raw.isValid_iff_exists_append.2 ⟨String.ofList front, String.ofList rest, ?_, ?_⟩
  · rw [← String.ofList_append, ← h, String.ofList_toList]
  · have hsize : (String.ofList front).utf8ByteSize = (bytes front).length := by
      rw [← String.size_toByteArray, String.toByteArray_ofList, ← toByteArray_bytes, List.size_toByteArray]
    rw [String.rawEndPos, hsize]

/-! ## the layout looks at positions only -/

namespace Lexer

/-- The reader at the same position, without the text ahead. -/
def placed (lx : Lexer) : Lexer :=
  { lx with cursor := ⟨[], lx.cursor.pos⟩ }

theorem layout_placed (lx : Lexer) (width : Nat) : lx.placed.layout width = (lx.layout width).placed := by
  unfold layout
  simp only [foldl_dedent]
  have hwidth : lx.placed.width = lx.width := rfl
  rw [hwidth]
  split
  · rfl
  · by_cases hfits : (splitWidths width lx.widths).2.headD 0 = width
    · simp only [Lexer.width, placed, hfits, if_true]
      rfl
    · simp only [Lexer.width, placed, hfits, if_false]
      rfl

theorem endLine_placed (lx : Lexer) (span : Span) : lx.placed.endLine span = (lx.endLine span).placed := by
  have hin : lx.placed.inLine = lx.inLine := rfl
  unfold endLine
  rw [hin]
  split
  · next h => rw [if_pos (show 0 < lx.depth from h)]
  · next h =>
    rw [if_neg (show ¬ 0 < lx.depth from h)]
    cases lx.inLine with
    | true => rfl
    | false => rfl

theorem accept_placed (lx : Lexer) (start : Pos) (scanned : Scanned) :
    lx.placed.accept start ⟨scanned.lexeme, ⟨[], scanned.next.pos⟩, scanned.faults⟩ =
      (lx.accept start scanned).placed := by
  unfold accept
  dsimp only
  split
  · rfl
  · exact endLine_placed { lx with cursor := scanned.next, faults := scanned.faults.reverse ++ lx.faults } _
  · rfl

theorem close_placed (lx : Lexer) : lx.placed.close = lx.close.placed := by
  rw [close_eq, close_eq]
  rfl

/-- What the layout of a line adds stands in front of the line. -/
theorem tokens_layout (lx : Lexer) (width : Nat) : ∃ new, (lx.layout width).tokens = new ++ lx.tokens ∧
    ∀ t ∈ new, t.span = lx.here := by
  have hdedents : ∀ n, ∀ t ∈ List.replicate n (⟨.dedent, lx.here⟩ : Token), t.span = lx.here :=
    fun n t ht => congrArg Token.span (List.eq_of_mem_replicate ht)
  unfold layout
  simp only [foldl_dedent]
  split
  · exact ⟨[_], rfl, List.forall_mem_singleton.2 rfl⟩
  split <;> exact ⟨_, rfl, hdedents _⟩

theorem tokens_accept (lx : Lexer) (start : Pos) (scanned : Scanned) :
    ∃ new, (lx.accept start scanned).tokens = new ++ lx.tokens ∧ ∀ t ∈ new, t.span = scanned.next.spanFrom start := by
  unfold accept
  dsimp only
  split
  · exact ⟨[], rfl, List.forall_mem_nil _⟩
  · obtain hsame | hmore := tokens_endLine
      { lx with cursor := scanned.next, faults := scanned.faults.reverse ++ lx.faults } (scanned.next.spanFrom start)
    · exact ⟨[], hsame, List.forall_mem_nil _⟩
    · exact ⟨[_], hmore, List.forall_mem_singleton.2 rfl⟩
  · exact ⟨[_], rfl, List.forall_mem_singleton.2 rfl⟩

end Lexer

/-! ## steps -/

section

variable {c : Char}

theorem isSpace_wide (hc : ¬ IsAscii c) : isSpace c = false := by
  refine Bool.eq_false_iff.2 fun hspace => hc ?_
  simp only [isSpace, Bool.or_eq_true, beq_iff_eq] at hspace
  obtain ((rfl | rfl) | rfl) | rfl := hspace <;> decide

theorem isIndentation_wide (hc : ¬ IsAscii c) : isIndentation c = false := by
  refine Bool.eq_false_iff.2 fun hblank => hc ?_
  simp only [isIndentation, Bool.or_eq_true, beq_iff_eq] at hblank
  obtain (rfl | rfl) | rfl := hblank <;> decide

theorem isBlankRest_inBytes (cur : Cursor) : isBlankRest cur.inBytes.chars = isBlankRest cur.rest := by
  have hreturn : ∀ cs, isBlankRest ('\r' :: cs) = decide (cs.head? = some '\n') := by
    intro cs
    cases cs with
    | nil => rfl
    | cons d cs =>
        by_cases hd : d = '\n'
        · rw [hd]
          rfl
        · simp [isBlankRest, hd]
  have hother : ∀ {c : Char} {cs : List Char}, c ≠ '\r' → isBlankRest (c :: cs) = (c == '\n' || c == '#') := by
    intro c cs hc
    unfold isBlankRest
    simp [hc]
  cases hrest : cur.rest with
  | nil => rw [ByteCursor.chars, Cursor.inBytes, hrest]; rfl
  | cons c cs =>
      by_cases hc : IsAscii c
      · rw [Cursor.chars_inBytes_cons hrest hc]
        by_cases hcr : c = '\r'
        · have hhead : (byteChars (bytes cs)).head? = some '\n' ↔ cs.head? = some '\n' :=
            @Cursor.head?_chars '\n' (by decide) ⟨cs, cur.pos⟩
          rw [hcr, hreturn, hreturn]
          exact decide_eq_decide.2 hhead
        · rw [hother hcr, hother hcr]
      · obtain ⟨d, more, hchars, hd⟩ := Cursor.chars_inBytes_wide hrest hc
        have hne : ∀ {c : Char}, ¬ IsAscii c → c ≠ '\r' := fun hc heq => hc (heq ▸ by decide)
        obtain ⟨hline, hcomment, -⟩ := tests_wide hc
        obtain ⟨hline', hcomment', -⟩ := tests_wide hd
        rw [hchars, hother (hne hc), hother (hne hd), hline, hcomment, hline', hcomment']

theorem Cursor.Reaches.passes {a b : Cursor} (h : a.Reaches b) : ∃ text, a.Passes text b := by
  obtain ⟨n, rfl⟩ := h
  exact ⟨_, Cursor.passes_advance n a⟩

end

/-- The reader of the bytes of a text, where the reader of its characters is. -/
structure ByteLexer.Follows (text : List Char) (bl : ByteLexer) (lx : Lexer) : Prop where
  size : bl.size = (bytes text).length
  cursor : bl.cursor = lx.cursor.inBytes
  lexer : bl.lexer = lx.placed
  ahead : (Cursor.mk text ⟨1, 1⟩).Reaches lx.cursor
  texts : ∀ raw ∈ bl.texts, IsText raw
  ranges : List.Forall₂ (Token.StandsAt text) lx.tokens bl.ranges

namespace ByteLexer.Follows

variable {text front : List Char} {bl : ByteLexer} {lx lx' : Lexer} {first next : Cursor} {texts : List (List UInt8)}

theorem offset (h : Follows text bl lx) (hfront : (Cursor.mk text ⟨1, 1⟩).Passes front next) :
    bl.offset next.inBytes = (bytes front).length := by
  have htext : text = front ++ next.rest := hfront.1
  rw [ByteLexer.offset, h.size, Cursor.inBytes, htext, bytes_append, List.length_append, Nat.add_sub_cancel]

/-- Where a token stands that was read between two cursors, or put between two characters. -/
theorem standsAt (h : Follows text bl lx) (hfirst : (Cursor.mk text ⟨1, 1⟩).Reaches first) (hnext : first.Reaches next)
    {t : Token} (ht : t.span = next.spanFrom first.pos ∨ first = next ∧ t.span = .point next.pos) :
    t.StandsAt text (bl.offset first.inBytes, bl.offset next.inBytes) := by
  obtain ⟨front, hfront⟩ := hfirst.passes
  obtain ⟨lexeme, hlexeme⟩ := hnext.passes
  have hboth := hfront.trans hlexeme
  have hstart : first.pos = endOf front := hfront.2
  have hend : next.pos = endOf (front ++ lexeme) := hboth.2
  obtain ⟨kind, span⟩ := t
  obtain hspan | ⟨rfl, hspan⟩ := ht
  · obtain rfl : span = next.spanFrom first.pos := hspan
    obtain ⟨rest, pos⟩ := next
    obtain rfl : pos = endOf (front ++ lexeme) := hend
    rw [h.offset hfront, h.offset hboth, hstart]
    exact .read hboth.1
  · obtain rfl : span = .point first.pos := hspan
    rw [h.offset hfront, hstart]
    exact .between hfront.1

theorem goOn (h : Follows text bl lx) (hfirst : lx.cursor.Reaches first) (hnext : first.Reaches next)
    (hcursor : lx'.cursor = next)
    (htokens : ∃ new, lx'.tokens = new ++ lx.tokens ∧
      ∀ t ∈ new, t.span = next.spanFrom first.pos ∨ first = next ∧ t.span = .point next.pos)
    (htexts : ∀ raw ∈ texts, IsText raw) : Follows text (bl.goOn first.inBytes next.inBytes lx'.placed texts) lx' := by
  have hahead := h.ahead.trans hfirst
  obtain ⟨new, hnew, hspans⟩ := htokens
  refine ⟨h.size, by rw [hcursor]; rfl, rfl, by rw [hcursor]; exact hahead.trans hnext, ?_, ?_⟩
  · exact List.forall_mem_append.2 ⟨htexts, h.texts⟩
  · have hold : bl.lexer.tokens = lx.tokens := by rw [h.lexer]; rfl
    have hmore : lx'.placed.tokens.length - bl.lexer.tokens.length = new.length := by
      have hall : lx'.placed.tokens = new ++ lx.tokens := hnew
      rw [hall, hold, List.length_append, Nat.add_sub_cancel]
    rw [ByteLexer.goOn, hmore, hnew]
    dsimp only
    clear hnew hmore
    induction new with
    | nil => exact h.ranges
    | cons t new ih =>
        obtain ⟨ht, hspans⟩ := List.forall_mem_cons.1 hspans
        exact .cons (h.standsAt hahead hnext ht) (ih hspans)

theorem measure (h : Follows text bl lx) : Follows text bl.measure lx.measure := by
  have hblanks : bl.cursor.chars.takeWhile isIndentation = lx.cursor.rest.takeWhile isIndentation := by
    rw [h.cursor, Cursor.takeWhile_chars fun _ => isIndentation_wide]
  have hnext : bl.cursor.advance (lx.cursor.rest.takeWhile isIndentation).length = lx.behindBlanks.cursor.inBytes := by
    rw [← hblanks, h.cursor]
    exact lx.cursor.skipWhile_inBytes fun _ => isIndentation_wide
  have hlexer : { bl.lexer with cursor := lx.behindBlanks.cursor.inBytes.place, atLineStart := false } =
      lx.behindBlanks.placed := by
    rw [h.lexer]
    rfl
  rw [ByteLexer.measure, hblanks, hnext, hlexer, isBlankRest_inBytes, Lexer.measure_eq]
  split
  · exact h.goOn (Cursor.reaches_advance _ _) (Cursor.reaches_self _) rfl ⟨[], rfl, List.forall_mem_nil _⟩
      (List.forall_mem_nil _)
  · obtain ⟨new, hnew, hspans⟩ := lx.behindBlanks.tokens_layout (indentWidth (lx.cursor.rest.takeWhile isIndentation))
    rw [Lexer.layout_placed]
    exact h.goOn (Cursor.reaches_advance _ _) (Cursor.reaches_self _) (Lexer.cursor_layout _ _).1
      ⟨new, hnew, fun t ht => .inr ⟨rfl, hspans t ht⟩⟩ (List.forall_mem_nil _)

theorem lexeme (h : Follows text bl lx) : Follows text bl.lexeme lx.lexeme := by
  have hfirst : bl.cursor.skipWhile isSpace = (lx.cursor.skipWhile isSpace).inBytes := by
    rw [h.cursor]
    exact lx.cursor.skipWhile_inBytes fun _ => isSpace_wide
  have hfound := matches_scanHere (lx.cursor.skipWhile isSpace)
  obtain ⟨new, hnew, hspans⟩ := lx.tokens_accept (scan lx.cursor).1 (scan lx.cursor).2
  rw [ByteLexer.lexeme, hfirst, Lexer.lexeme, hfound.next, hfound.lexeme, hfound.faults, h.lexer]
  have haccept : lx.placed.accept (lx.cursor.skipWhile isSpace).inBytes.pos
      ⟨(scanHere (lx.cursor.skipWhile isSpace)).lexeme, (scanHere (lx.cursor.skipWhile isSpace)).next.inBytes.place,
        (scanHere (lx.cursor.skipWhile isSpace)).faults⟩ =
      (lx.accept (scan lx.cursor).1 (scan lx.cursor).2).placed :=
    lx.accept_placed _ _
  rw [haccept]
  exact h.goOn (Cursor.reaches_advance _ _) (reaches_scanHere _) (Lexer.cursor_accept _ _ _)
    ⟨new, hnew, fun t ht => .inl (hspans t ht)⟩ hfound.whole

theorem step (h : Follows text bl lx) : Follows text bl.step lx.step := by
  have hline : bl.lexer.atLineStart = lx.atLineStart := by rw [h.lexer]; rfl
  rw [ByteLexer.step, Lexer.step, hline]
  split
  · exact h.measure
  · exact h.lexeme

theorem finished (h : Follows text bl lx) : bl.finished = lx.finished := by
  have hfaults : bl.lexer.faults = lx.faults := by rw [h.lexer]; rfl
  have hempty : bl.cursor.rest.isEmpty = lx.cursor.rest.isEmpty := by
    rw [h.cursor, Cursor.inBytes]
    cases lx.cursor.rest with
    | nil => rfl
    | cons c cs =>
        have hpos := length_bytes_pos (List.cons_ne_nil c cs)
        simpa using List.length_pos_iff.1 hpos
  rw [ByteLexer.finished, Lexer.finished, hempty, hfaults]

/-- As many steps as there are things to do are enough. -/
theorem runUpTo (h : Follows text bl lx) {bound : Nat} (hbound : lx.remaining ≤ bound) :
    Follows text (bl.runUpTo bound) lx.run := by
  induction bound generalizing bl lx with
  | zero =>
      have hnil : lx.cursor.rest = [] := by
        have hzero := Nat.le_zero.1 hbound
        rw [Lexer.remaining] at hzero
        exact List.length_eq_zero_iff.1 (by omega)
      rw [Lexer.run_of_finished (by simp [Lexer.finished, hnil])]
      exact h
  | succ bound ih =>
      rw [ByteLexer.runUpTo, h.finished]
      split
      · next hfinished =>
        rw [Lexer.run_of_finished hfinished]
        exact h
      · next hfinished =>
        have hmore : lx.finished = false := Bool.eq_false_iff.2 hfinished
        have hless := Lexer.remaining_step_lt hmore
        rw [Lexer.run_step hmore]
        exact ih h.step (by omega)

theorem run (h : Follows text bl lx) : Follows text bl.run lx.run := by
  have hlength : lx.cursor.rest.length ≤ bl.cursor.rest.length := by
    rw [h.cursor]
    exact length_le_bytes _
  have hstart := Bool.toNat_le lx.atLineStart
  exact h.runUpTo (by rw [Lexer.remaining]; omega)

theorem close (h : Follows text bl lx) : Follows text bl.close lx.close := by
  have hcursor : lx.close.cursor = lx.cursor := by rw [Lexer.close_eq]
  obtain ⟨new, hnew, hspans⟩ := lx.tokens_close_here
  rw [ByteLexer.close, h.cursor, h.lexer, Lexer.close_placed]
  exact h.goOn (Cursor.reaches_self _) (Cursor.reaches_self _) hcursor ⟨new, hnew, fun t ht => .inr ⟨rfl, hspans t ht⟩⟩
    (List.forall_mem_nil _)

end ByteLexer.Follows

theorem follows_start (text : List Char) :
    (ByteLexer.start (bytes text)).Follows text ⟨⟨text, ⟨1, 1⟩⟩, [], [], 0, true, []⟩ :=
  ⟨rfl, rfl, rfl, Cursor.reaches_self _, List.forall_mem_nil _, .nil⟩

theorem data_toUTF8 (text : String) : text.toUTF8.data.toList = bytes text.toList := by
  rw [String.toUTF8_eq_toByteArray, ← String.utf8Encode_toList, ← toByteArray_bytes, List.data_toByteArray]

/-- A token stands between two characters, or on some. -/
theorem Token.StandsAt.valid {text : String} {t : Token} {range : Nat × Nat} (h : t.StandsAt text.toList range) :
    (⟨range.1⟩ : String.Pos.Raw).IsValid text ∧ (⟨range.2⟩ : String.Pos.Raw).IsValid text := by
  cases h with
  | between htext => exact ⟨valid_length_bytes htext, valid_length_bytes htext⟩
  | read htext => exact ⟨valid_length_bytes ((List.append_assoc _ _ _).symm ▸ htext), valid_length_bytes htext⟩

theorem valid_of_standsAt {text : String} {tokens : List Token} {ranges : List (Nat × Nat)}
    (h : List.Forall₂ (Token.StandsAt text.toList) tokens ranges) : ∀ range ∈ ranges,
      (⟨range.1⟩ : String.Pos.Raw).IsValid text ∧ (⟨range.2⟩ : String.Pos.Raw).IsValid text := by
  induction h with
  | nil => exact List.forall_mem_nil _
  | cons ht _ ih => exact List.forall_mem_cons.2 ⟨ht.valid, ih⟩

/-- On the bytes of any text, with faults or without, the reader of bytes finds what there is. What it reads as a text
is UTF-8, so that the reading puts no replacement character, and every token starts and ends between two characters, at
the places that its span tells. -/
theorem characters_stay_whole (text : String) :
    let found := lexBytes text.toUTF8.data.toList
    found.tokens = (lex text).tokens ∧ found.faults = (lex text).faults ∧
      (∀ raw ∈ found.texts, raw.toByteArray.IsValidUTF8 ∧ (lossy raw).toUTF8.data.toList = raw) ∧
      (∀ range ∈ found.ranges,
        (⟨range.1⟩ : String.Pos.Raw).IsValid text ∧ (⟨range.2⟩ : String.Pos.Raw).IsValid text) ∧
      List.Forall₂ (Token.StandsAt text.toList) found.tokens found.ranges := by
  intro found
  have hfollows := (follows_start text.toList).run.close
  rw [← data_toUTF8] at hfollows
  have htokens : found.tokens = (lex text).tokens := by
    show (ByteLexer.start text.toUTF8.data.toList).run.close.lexer.tokens.reverse = _
    rw [hfollows.lexer]
    rfl
  have hfaults : found.faults = (lex text).faults := by
    show (ByteLexer.start text.toUTF8.data.toList).run.close.lexer.faults.reverse = _
    rw [hfollows.lexer]
    rfl
  have hplaces : List.Forall₂ (Token.StandsAt text.toList) found.tokens found.ranges := by
    rw [htokens]
    exact List.forall₂_reverse_iff.2 hfollows.ranges
  refine ⟨htokens, hfaults, fun raw hraw => ?_, valid_of_standsAt hplaces, hplaces⟩
  obtain ⟨cs, rfl⟩ := hfollows.texts raw (List.mem_reverse.1 hraw)
  constructor
  · exact .intro cs (toByteArray_bytes cs)
  · rw [lossy_bytes, data_toUTF8, String.toList_ofList]

/-- An escape that is cut short in front of a character of two bytes, an unknown one in front of such a character, and a
character that starts no token. -/
example : (lexBytes "\"\\u00é\\ü\" ß".toUTF8.data.toList).texts.map lossy = ["é\\ü", "ß"] ∧
    (lexBytes "\"\\u00é\\ü\" ß".toUTF8.data.toList).ranges = [(0, 11), (14, 14), (14, 14)] := by
  decide +kernel

end ViewSync
