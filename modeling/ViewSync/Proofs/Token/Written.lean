import Mathlib
import ViewSync.Proofs.Token.Lexical

/-!
# ViewSync.Proofs.Token.Written

Tokens written as text are read back. `sourceText` puts one space between tokens; strings stand in double quotes, with
a backslash in front of backslashes and double quotes and `\n` for a newline, and every other token is written as
messages name it. Reading that gives the same tokens and no fault, whatever the tokens are and however they follow
each other (`lex_sourceText`). A text is scanned as one token where nothing or a space follows it (`ScansAs`).
-/

namespace ViewSync

/-! ## writing -/

/-- A character in a string literal. -/
def escapedChar (c : Char) : List Char :=
  if c = '\\' then ['\\', '\\'] else if c = '"' then ['\\', '"'] else if c = '\n' then ['\\', 'n'] else [c]

/-- The content of a string literal. -/
def escaped (content : List Char) : List Char :=
  content.flatMap escapedChar

/-- A token as sources have it. -/
def TokenKind.source : TokenKind → String
  | .str content => "\"" ++ String.ofList (escaped content.toList) ++ "\""
  | kind => kind.render

/-- Tokens with single spaces between them. -/
def sourceText (kinds : List TokenKind) : String :=
  " ".intercalate (kinds.map TokenKind.source)

/-! ## what may follow -/

/-- Nothing follows, or a space. -/
def Apart (rest : List Char) : Prop :=
  ∀ c ∈ rest.head?, c = ' '

theorem apart_nil : Apart [] := nofun

theorem apart_space (rest : List Char) : Apart (' ' :: rest) := fun _ h => (Option.some.inj h).symm

theorem Apart.cases {rest : List Char} (h : Apart rest) : rest = [] ∨ ∃ more, rest = ' ' :: more := by
  cases rest with
  | nil => exact .inl rfl
  | cons c more => exact .inr ⟨more, by rw [h c rfl]⟩

/-- A run of characters ends where a text ends that is apart from what follows. -/
theorem Apart.takeWhile_append {p : Char → Bool} {rest : List Char} (h : Apart rest) (hp : p ' ' = false)
    {text : List Char} (htext : ∀ c ∈ text, p c = true) : (text ++ rest).takeWhile p = text := by
  rw [List.takeWhile_append_of_pos htext]
  obtain rfl | ⟨more, rfl⟩ := h.cases
  · simp
  · simp [hp]

/-- A text is scanned as a token, where nothing or a space follows. -/
def ScansAs (text : List Char) (kind : TokenKind) : Prop :=
  ∀ (rest : List Char) (pos : Pos), Apart rest →
    scanHere ⟨text ++ rest, pos⟩ = ⟨.token kind, (Cursor.mk (text ++ rest) pos).advance text.length, []⟩

/-! ## symbols -/

theorem scansAs_symbol (s : Symbol) : ScansAs s.text.toList (.symbol s) := by
  intro rest pos hrest
  obtain rfl | ⟨more, rfl⟩ := hrest.cases <;> cases s <;> exact rfl

theorem scansAs_augAssign {op : BinaryOp} (h : op.isLogical = false) :
    ScansAs (op.symbol ++ "=").toList (.augAssign op) := by
  intro rest pos hrest
  obtain rfl | ⟨more, rfl⟩ := hrest.cases <;> cases op <;> first | exact rfl | cases h

/-! ## words -/

theorem isDigit_of_isNameStart {c : Char} (h : isNameStart c = true) : c.isDigit = false := by
  refine Bool.eq_false_iff.2 fun hdigit => ?_
  have hval : 48 ≤ c.val.toNat ∧ c.val.toNat ≤ 57 := by
    simpa [Char.isDigit, UInt32.le_iff_toNat_le] using hdigit
  simp only [isNameStart, Char.isAlpha, Char.isUpper, Char.isLower, Bool.or_eq_true, Bool.and_eq_true,
    decide_eq_true_eq, beq_iff_eq, UInt32.le_iff_toNat_le] at h
  obtain (⟨h, -⟩ | ⟨h, -⟩) | rfl := h
  · have hA : 'A'.val.toNat = 65 := rfl
    omega
  · have ha : 'a'.val.toNat = 97 := rfl
    omega
  · simp at hval

/-- What starts like a name is scanned as one. -/
theorem scanHere_of_isNameStart {c : Char} (h : isNameStart c = true) (cs : List Char) (pos : Pos) :
    scanHere ⟨c :: cs, pos⟩ = scanName ⟨c :: cs, pos⟩ := by
  have hne : ∀ d, isNameStart d = false → c ≠ d := by
    rintro d hd rfl
    rw [hd] at h
    cases h
  have hnumber : startsNumber (c :: cs) = false := by
    unfold startsNumber
    split
    · next heq => exact absurd (List.cons.inj heq).1 (hne '.' (by decide))
    · next heq =>
        rw [← (List.cons.inj heq).1]
        exact isDigit_of_isNameStart h
    · rfl
  simp [scanHere, hne '\n' (by decide), hne '#' (by decide), hne '\\' (by decide), hne '"' (by decide),
    hne '\'' (by decide), hnumber, h]

theorem scansAs_word {name : String} (h : isNameText name = true) : ScansAs name.toList (.ofWord name) := by
  intro rest pos hrest
  unfold isNameText at h
  cases hname : name.toList with
  | nil =>
      rw [hname] at h
      cases h
  | cons c cs =>
      simp only [hname, Bool.and_eq_true, List.all_eq_true] at h
      have hpart : ∀ d ∈ c :: cs, isNamePart d = true :=
        List.forall_mem_cons.2 ⟨isNamePart_of_isNameStart h.1, h.2⟩
      rw [List.cons_append, scanHere_of_isNameStart h.1, scanName, ← List.cons_append,
        hrest.takeWhile_append rfl hpart]
      simp only [← hname, String.ofList_toList]
      simp [hname]

/-! ## numbers -/

theorem fractionRun_of_apart {rest : List Char} (h : Apart rest) : fractionRun rest = [] := by
  obtain rfl | ⟨more, rfl⟩ := h.cases <;> rfl

theorem exponentMark_of_apart {rest : List Char} (h : Apart rest) : exponentMark rest = 0 := by
  obtain rfl | ⟨_ | ⟨c, more⟩, rfl⟩ := h.cases <;> rfl

/-- A row of digits is a whole number while it fits 64 bits. -/
theorem decimalNumber_digits {digits rest : List Char} (hdigits : ∀ c ∈ digits, c.isDigit = true)
    (hrest : Apart rest) (hfits : Decimal.ofDigits digits ≤ Decimal.maxInt64) :
    decimalNumber (digits ++ rest) = (.int (Decimal.ofDigits digits), digits.length) := by
  have hwhole : (digits ++ rest).takeWhile isDigitPart = digits :=
    hrest.takeWhile_append rfl fun c hc => by simp [isDigitPart, hdigits c hc]
  have hseparators : withoutSeparators digits = digits := by
    refine List.filter_eq_self.2 fun c hc => ?_
    have hne : c ≠ '_' := by
      rintro rfl
      cases hdigits '_' hc
    simpa using hne
  simp [decimalNumber, hwhole, fractionRun_of_apart hrest, exponentMark_of_apart hrest, hseparators, hfits]

theorem scanHere_of_isDigit {c : Char} (h : c.isDigit = true) (cs : List Char) (pos : Pos) :
    scanHere ⟨c :: cs, pos⟩ = scanNumber ⟨c :: cs, pos⟩ := by
  have hne : ∀ d : Char, d.isDigit = false → c ≠ d := by
    rintro d hd rfl
    rw [hd] at h
    cases h
  have hnumber : startsNumber (c :: cs) = true := by
    unfold startsNumber
    split
    · next heq => exact absurd (List.cons.inj heq).1 (hne '.' rfl)
    · next heq => rw [← (List.cons.inj heq).1, h]
    · next heq => cases heq
  simp [scanHere, hne '\n' rfl, hne '#' rfl, hne '\\' rfl, hne '"' rfl, hne '\'' rfl, hnumber]

/-- Digits in front of nothing or of a space are no hexadecimal number. -/
theorem scanNumber_digits {c : Char} {cs rest : List Char} (hdigits : ∀ d ∈ c :: cs, d.isDigit = true)
    (hrest : Apart rest) (pos : Pos) :
    scanNumber ⟨c :: (cs ++ rest), pos⟩ =
      ⟨.token (decimalNumber (c :: (cs ++ rest))).1,
        (Cursor.mk (c :: (cs ++ rest)) pos).advance (max (decimalNumber (c :: (cs ++ rest))).2 1), []⟩ := by
  unfold scanNumber
  split
  · next x more heq =>
      have hx : (x == 'x' || x == 'X') = false := by
        cases cs with
        | nil =>
            obtain rfl | ⟨more, rfl⟩ := hrest.cases
            · cases heq
            · cases heq
              rfl
        | cons d cs =>
            have hdigit := hdigits d (by simp)
            simp only [List.cons_append, List.cons.injEq] at heq
            obtain ⟨-, rfl, -⟩ := heq
            refine Bool.eq_false_iff.2 fun hmark => ?_
            simp only [Bool.or_eq_true, beq_iff_eq] at hmark
            obtain rfl | rfl := hmark <;> cases hdigit
      rw [hx]
      rfl
  · rfl

theorem toList_render_int (value : Nat) : (TokenKind.int value).render.toList = Nat.toDigits 10 value := by
  have htext : (TokenKind.int value).render = Nat.repr value := rfl
  rw [htext, Nat.repr_eq_ofList_toDigits, String.toList_ofList]

theorem scansAs_int {value : Nat} (h : value ≤ Decimal.maxInt64) :
    ScansAs (Nat.toDigits 10 value) (.int value) := by
  intro rest pos hrest
  have hdigits : ∀ c ∈ Nat.toDigits 10 value, c.isDigit = true :=
    fun c hc => Nat.isDigit_of_mem_toDigits (by decide) (by decide) hc
  have hvalue : Decimal.ofDigits (Nat.toDigits 10 value) = value := Nat.ofDigitChars_ten_toDigits
  have hnumber := decimalNumber_digits hdigits hrest (by rwa [hvalue])
  obtain ⟨c, cs, hcons⟩ := List.exists_cons_of_ne_nil (Nat.toDigits_ne_nil (n := value) (b := 10))
  rw [hcons] at hdigits hvalue hnumber ⊢
  rw [List.cons_append] at hnumber ⊢
  rw [scanHere_of_isDigit (hdigits c List.mem_cons_self), scanNumber_digits hdigits hrest, hnumber, hvalue]
  simp

/-! ## strings -/

theorem scanBody_quote {cur : Cursor} {cs : List Char} (h : cur.rest = '"' :: cs) :
    scanBody '"' false cur = ⟨[], cur.advance 1, [], true⟩ := by
  rw [scanBody]
  split
  · next heq => simp [heq] at h
  · next c cs heq =>
      obtain ⟨rfl, -⟩ : c = '"' ∧ cs = _ := by simpa [heq] using h
      rfl

theorem scanBody_plain {cur : Cursor} {c : Char} {cs : List Char} (h : cur.rest = c :: cs) (hquote : c ≠ '"')
    (hslash : c ≠ '\\') (hline : c ≠ '\n') :
    scanBody '"' false cur = (scanBody '"' false (cur.advance 1)).after [c] [] := by
  rw [scanBody]
  split
  · next heq => simp [heq] at h
  · next d ds heq =>
      obtain ⟨rfl, -⟩ : d = c ∧ ds = cs := by simpa [heq] using h
      simp [hquote, hslash, hline]

/-- An escape of one character stands for another one. -/
theorem scanBody_escape {cur : Cursor} {c d : Char} {cs : List Char} (h : cur.rest = '\\' :: c :: cs)
    (hc : (c, d) ∈ [('\\', '\\'), ('"', '"'), ('n', '\n')]) :
    scanBody '"' false cur = (scanBody '"' false (cur.advance 2)).after [d] [] := by
  have hbehind : (cur.advance 1).rest = c :: cs := by simp [h]
  have hescape : scanEscape cur.pos (cur.advance 1) = ⟨[d], cur.advance 2, []⟩ := by
    have hnext : (cur.advance 1).advance 1 = cur.advance 2 := Cursor.advance_advance 1 1 cur
    simp only [List.mem_cons, Prod.mk.injEq, List.not_mem_nil, or_false] at hc
    unfold scanEscape
    rw [hbehind, hnext]
    obtain ⟨rfl, rfl⟩ | ⟨rfl, rfl⟩ | ⟨rfl, rfl⟩ := hc <;> rfl
  rw [scanBody]
  split
  · next heq => simp [heq] at h
  · next e es heq =>
      obtain ⟨rfl, -⟩ : e = '\\' ∧ es = c :: cs := by simpa [heq] using h
      simp [hescape]

/-- The content of a string is read back, up to the closing quote. -/
theorem scanBody_escaped (content : List Char) {rest : List Char} {cur : Cursor}
    (h : cur.rest = escaped content ++ '"' :: rest) :
    scanBody '"' false cur = ⟨content, cur.advance ((escaped content).length + 1), [], true⟩ := by
  induction content generalizing cur with
  | nil => exact scanBody_quote h
  | cons c content ih =>
      have hescaped : escaped (c :: content) = escapedChar c ++ escaped content := rfl
      rw [hescaped, List.append_assoc] at h
      -- One more character is read, and the rest is behind its escape.
      have hstep : scanBody '"' false cur =
          (scanBody '"' false (cur.advance (escapedChar c).length)).after [c] [] := by
        unfold escapedChar at h ⊢
        split_ifs at h ⊢ with hslash hquote hline
        · exact scanBody_escape h (by simp [hslash])
        · exact scanBody_escape h (by simp [hquote])
        · exact scanBody_escape h (by simp [hline])
        · exact scanBody_plain h hquote hslash hline
      rw [hstep, ih (by simp [h]), Cursor.advance_advance, hescaped, List.length_append, Nat.add_assoc]
      rfl

/-- A literal has three quotes in front only if three quotes are written. -/
theorem not_triple_of_apart {content rest : List Char} (h : Apart rest) :
    ((escaped content ++ '"' :: rest).take 2 == ['"', '"']) = false := by
  cases content with
  | nil => obtain rfl | ⟨more, rfl⟩ := h.cases <;> rfl
  | cons c content =>
      have hescaped : escaped (c :: content) = escapedChar c ++ escaped content := rfl
      rw [hescaped]
      unfold escapedChar
      split_ifs with hslash hquote hline <;> simp [*]

theorem scansAs_str (content : String) :
    ScansAs (TokenKind.str content).source.toList (.str content) := by
  intro rest pos hrest
  have htext : (TokenKind.str content).source.toList ++ rest = '"' :: (escaped content.toList ++ '"' :: rest) := by
    simp [TokenKind.source]
  have hlength : (TokenKind.str content).source.toList.length = 1 + ((escaped content.toList).length + 1) := by
    simp [TokenKind.source]
    omega
  have hbody : scanBody '"' false ((Cursor.mk ('"' :: (escaped content.toList ++ '"' :: rest)) pos).advance 1) = _ :=
    scanBody_escaped content.toList rfl
  have hscan : scanHere ⟨'"' :: (escaped content.toList ++ '"' :: rest), pos⟩ =
      scanString '"' ⟨'"' :: (escaped content.toList ++ '"' :: rest), pos⟩ := rfl
  rw [htext, hscan, scanString]
  simp only [List.drop_one, List.tail_cons, not_triple_of_apart hrest, Bool.false_eq_true, if_false, hbody,
    String.ofList_toList, hlength, Cursor.advance_advance]
  rfl

/-! ## tokens one behind the other -/

theorem isNameText_word (w : Keyword) : isNameText w.word = true ∧ TokenKind.ofWord w.word = .keyword w := by
  cases w <;> decide

theorem isNameText_reserved :
    ∀ word ∈ reservedWords, isNameText word = true ∧ TokenKind.ofWord word = .reserved word := by
  decide

/-- Every token is read back from its text, floats aside. -/
theorem scansAs_source {kind : TokenKind} (h : kind.textual = true) (hfloat : ∀ value, kind ≠ .float value) :
    ScansAs kind.source.toList kind := by
  cases kind with
  | int value =>
      obtain ⟨hsign, hfits⟩ := of_decide_eq_true h
      obtain ⟨n, rfl⟩ := Int.eq_ofNat_of_zero_le hsign
      rw [TokenKind.source, toList_render_int]
      · exact scansAs_int (Int.ofNat_le.1 hfits)
      · nofun
  | float value => exact absurd rfl (hfloat value)
  | str content => exact scansAs_str content
  | identifier name =>
      simp only [TokenKind.textual, Bool.and_eq_true, Option.isNone_iff_eq_none] at h
      have hread := scansAs_word h.1
      rwa [TokenKind.ofWord, h.2] at hread
  | keyword w =>
      have hread := scansAs_word (isNameText_word w).1
      rwa [(isNameText_word w).2] at hread
  | reserved word =>
      have hword := isNameText_reserved word (List.contains_iff_mem.1 h)
      have hread := scansAs_word hword.1
      rwa [hword.2] at hread
  | symbol s => exact scansAs_symbol s
  | augAssign op => exact scansAs_augAssign (by simpa [TokenKind.textual] using h)
  | newline | indent | dedent | eof => cases h

/-- A token starts with no white space and with no mark of a comment. -/
theorem head_of_token {cur : Cursor} {kind : TokenKind} (h : (scanHere cur).lexeme = .token kind) :
    ∃ c cs, cur.rest = c :: cs ∧ isSpace c = false ∧ c ≠ '\n' ∧ c ≠ '#' := by
  cases hrest : cur.rest with
  | nil => exact absurd hrest (rest_ne_nil_of_token h)
  | cons c cs =>
      obtain ⟨rest, pos⟩ := cur
      obtain rfl : rest = c :: cs := hrest
      refine ⟨c, cs, rfl, Bool.eq_false_iff.2 fun hspace => ?_, ?_, ?_⟩
      · simp only [isSpace, Bool.or_eq_true, beq_iff_eq] at hspace
        obtain ((rfl | rfl) | rfl) | rfl := hspace <;> cases h
      · rintro rfl
        cases h
      · rintro rfl
        cases h

/-- Tokens with a space in front of each. -/
def spaced (kinds : List TokenKind) : List Char :=
  kinds.flatMap fun kind => ' ' :: kind.source.toList

theorem apart_spaced (kinds : List TokenKind) : Apart (spaced kinds) := by
  cases kinds with
  | nil => exact apart_nil
  | cons kind kinds => exact apart_space _

theorem toList_sourceText (kind : TokenKind) (kinds : List TokenKind) :
    (sourceText (kind :: kinds)).toList = kind.source.toList ++ spaced kinds := by
  rw [sourceText, String.toList_intercalate]
  induction kinds generalizing kind with
  | nil => simp [spaced, List.intercalate]
  | cons next kinds ih =>
      have hnext := ih next
      simp only [List.map_cons, List.map_map] at hnext ⊢
      rw [List.intercalate_cons_cons, hnext]
      simp [spaced]

namespace Lexer

variable {lx : Lexer} {kind : TokenKind} {front rest : List Char}

/-- A token behind some white space is read in one step. -/
theorem step_source (hread : ScansAs kind.source.toList kind) (hrest : Apart rest)
    (hfront : ∀ c ∈ front, isSpace c = true) (hcursor : lx.cursor.rest = front ++ (kind.source.toList ++ rest))
    (hline : lx.atLineStart = false) :
    lx.step.cursor.rest = rest ∧ lx.step.tokens.map (·.kind) = kind :: lx.tokens.map (·.kind) ∧
      lx.step.faults = lx.faults ∧ lx.step.widths = lx.widths ∧ lx.step.atLineStart = false := by
  have hhere (pos : Pos) := hread rest pos hrest
  -- The white space ends where the token starts.
  have hskip : (lx.cursor.skipWhile isSpace).rest = kind.source.toList ++ rest := by
    obtain ⟨c, cs, hcons, hspace, -⟩ := head_of_token (congrArg Scanned.lexeme (hhere lx.cursor.pos))
    simp only at hcons
    simp [Cursor.skipWhile, hcursor, List.takeWhile_append_of_pos hfront, hcons, hspace]
  obtain ⟨mid, hmid⟩ : ∃ pos, lx.cursor.skipWhile isSpace = ⟨kind.source.toList ++ rest, pos⟩ :=
    ⟨_, by rw [← hskip]⟩
  simp [step, hline, lexeme, scan, hmid, hhere, accept, push]

/-- Tokens with spaces in front of them are read one after the other. -/
theorem run_spaced {kinds : List TokenKind} (hread : ∀ kind ∈ kinds, ScansAs kind.source.toList kind)
    (hcursor : lx.cursor.rest = spaced kinds) (hline : lx.atLineStart = false) (hfaults : lx.faults = []) :
    lx.run.faults = [] ∧ lx.run.tokens.map (·.kind) = kinds.reverse ++ lx.tokens.map (·.kind) ∧
      lx.run.widths = lx.widths := by
  induction kinds generalizing lx with
  | nil =>
      rw [run_of_finished (by simp [finished, hcursor, spaced])]
      exact ⟨hfaults, rfl, rfl⟩
  | cons kind kinds ih =>
      have hmore : lx.finished = false := by simp [finished, hcursor, spaced, hfaults, maxDiagnostics]
      have hsplit : lx.cursor.rest = [' '] ++ (kind.source.toList ++ spaced kinds) := by
        simp [hcursor, spaced]
      obtain ⟨hnext, htokens, hsame, hwidths, hstill⟩ :=
        step_source (hread kind List.mem_cons_self) (apart_spaced kinds) (by simp [isSpace]) hsplit hline
      obtain ⟨hrun, hkinds, hopen⟩ :=
        ih (fun k hk => hread k (List.mem_cons_of_mem _ hk)) hnext hstill (hsame.trans hfaults)
      rw [run_step hmore]
      exact ⟨hrun, by simp [hkinds, htokens], hopen.trans hwidths⟩

/-- A line that starts at its margin, with no comment, is measured without any effect. -/
theorem step_margin {c : Char} {cs : List Char} (hcursor : lx.cursor.rest = c :: cs) (hspace : isSpace c = false)
    (hnewline : c ≠ '\n') (hcomment : c ≠ '#') (hline : lx.atLineStart = true) (hwidths : lx.widths = []) :
    lx.step = { lx with atLineStart := false } := by
  have hspaces : (c ≠ ' ' ∧ c ≠ '\t' ∧ c ≠ '\r') ∧ c ≠ '\x0c' := by simpa [isSpace, and_assoc] using hspace
  have hblanks : lx.cursor.rest.takeWhile isIndentation = [] := by
    simp [hcursor, isIndentation, hspaces]
  have hblank : isBlankRest lx.cursor.rest = false := by
    rw [hcursor]
    unfold isBlankRest
    split
    · next heq => cases heq
    · next heq => exact absurd (List.cons.inj heq).1 hspaces.1.2.2
    · next heq =>
        obtain ⟨rfl, -⟩ := List.cons.inj heq
        simp [hnewline, hcomment]
  simp [step, hline, measure, hblanks, hblank, layout, width, hwidths, indentWidth, splitWidths]

/-- The text of some tokens is read to its end. -/
theorem run_sourceText {kinds : List TokenKind} (hscan : ∀ kind ∈ kinds, ScansAs kind.source.toList kind)
    (hcursor : lx.cursor.rest = (sourceText kinds).toList) (hline : lx.atLineStart = true) (hwidths : lx.widths = [])
    (hfaults : lx.faults = []) :
    lx.run.faults = [] ∧ lx.run.tokens.map (·.kind) = kinds.reverse ++ lx.tokens.map (·.kind) ∧
      lx.run.widths = [] := by
  cases kinds with
  | nil =>
      rw [run_of_finished (by simp [finished, hcursor, sourceText])]
      exact ⟨hfaults, rfl, hwidths⟩
  | cons kind kinds =>
      rw [toList_sourceText] at hcursor
      have hfirst := hscan kind List.mem_cons_self
      have happart := apart_spaced kinds
      obtain ⟨c, cs, hcons, hspace, hnewline, hcomment⟩ :=
        head_of_token (congrArg Scanned.lexeme (hfirst (spaced kinds) lx.cursor.pos happart))
      have hmargin := step_margin (hcursor.trans hcons) hspace hnewline hcomment hline hwidths
      have hmore : ∀ line, { lx with atLineStart := line }.finished = false := by
        simp only at hcons
        simp [finished, hcursor, hcons, hfaults, maxDiagnostics]
      obtain ⟨hnext, htokens, hsame, hopen, hstill⟩ :=
        @step_source { lx with atLineStart := false } kind [] _ hfirst happart (by simp) hcursor rfl
      obtain ⟨hrun, hkinds, hend⟩ :=
        run_spaced (fun k hk => hscan k (List.mem_cons_of_mem _ hk)) hnext hstill (hsame.trans hfaults)
      rw [run_step (hmore lx.atLineStart), hmargin, run_step (hmore false)]
      exact ⟨hrun, by simp [hkinds, htokens], hend.trans (hopen.trans hwidths)⟩

/-- Behind tokens that stand for texts the line ends and the source. -/
theorem kinds_close {kinds : List TokenKind} (h : ∀ kind ∈ kinds, kind.textual = true)
    (htokens : lx.tokens.map (·.kind) = kinds.reverse) (hwidths : lx.widths = []) :
    lx.close.tokens.reverse.map (·.kind) = kinds ++ if kinds = [] then [.eof] else [.newline, .eof] := by
  have hkinds : (lx.tokens.map (·.kind)).reverse = kinds := by rw [htokens, List.reverse_reverse]
  have hline : lx.inLine = !kinds.isEmpty := by
    unfold inLine
    split
    · next heq =>
        rw [← hkinds, heq]
        rfl
    · next token more heq =>
        have hmem : token.kind ∈ kinds := by
          rw [← List.mem_reverse, ← htokens, heq]
          exact List.mem_cons_self
        have hne : token.kind ≠ .newline := fun heq => by
          have htextual := h _ hmem
          rw [heq] at htextual
          cases htextual
        have hnonempty : kinds.isEmpty = false := List.isEmpty_eq_false_iff.2 (List.ne_nil_of_mem hmem)
        simpa [hnonempty] using hne
  rw [close_eq, hline, hwidths]
  cases kinds with
  | nil => simp [hkinds]
  | cons kind kinds => simp [hkinds]

end Lexer

/-- Tokens that stand for texts, floats aside, are read back from their text, with the end of the line and of the
source behind them. -/
theorem lex_sourceText {kinds : List TokenKind} (h : ∀ kind ∈ kinds, kind.textual = true)
    (hfloat : ∀ value, TokenKind.float value ∉ kinds) :
    (lex (sourceText kinds)).faults = [] ∧
      (lex (sourceText kinds)).tokens.map (·.kind) = kinds ++ if kinds = [] then [.eof] else [.newline, .eof] := by
  have hscan : ∀ kind ∈ kinds, ScansAs kind.source.toList kind := by
    refine fun kind hkind => scansAs_source (h kind hkind) ?_
    rintro value rfl
    exact hfloat value hkind
  obtain ⟨hfaults, htokens, hwidths⟩ := @Lexer.run_sourceText (.start (sourceText kinds)) kinds hscan rfl rfl rfl rfl
  refine ⟨?_, Lexer.kinds_close h (by simpa [Lexer.start] using htokens) hwidths⟩
  simp [lex, Lexer.close_eq, hfaults]

/-- Operators that run together without their spaces, an empty string in front of a quote, a greatest number in front
of a point, and words of all sorts. -/
def mixedKinds : List TokenKind :=
  [.str "", .str "\"\\\nß", .augAssign .pow, .symbol .star, .symbol .doubleStar, .symbol .eq,
    .int Decimal.maxInt64, .symbol .dot, .int 0, .identifier "x", .keyword .not, .reserved "yield", .symbol .rightParen]

theorem lex_sourceText_mixed :
    sourceText mixedKinds = "\"\" \"\\\"\\\\\\nß\" **= * ** = 9223372036854775807 . 0 x not yield )" ∧
      (lex (sourceText mixedKinds)).faults = [] ∧
      (lex (sourceText mixedKinds)).tokens.map (·.kind) = mixedKinds ++ [.newline, .eof] :=
  ⟨by decide +kernel, lex_sourceText (by decide) (by simp [mixedKinds])⟩

end ViewSync
