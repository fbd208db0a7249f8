import ViewSync.Proofs.Token.Alike
import ViewSync.Proofs.Token.Written

/-!
# ViewSync.Proofs.Token.WholeNumbers

Whole numbers are read with their exact value. Digits with separators between them stand for the sum of their values by
powers of the base (`literalValue`), however many there are and whatever zeros stand in front. A decimal literal is the
whole number of that value or, beyond 64 bits, a number with a fraction; a hexadecimal literal is the whole number of
that value or one fault (`whole_numbers_exact`).
-/

namespace ViewSync

/-! ## values -/

/-- The number that digits stand for in a base, the most significant first. Separators count for nothing. -/
def literalValue (base : Nat) (text : List Char) : Nat :=
  Nat.ofDigits base (text.filterMap Text.hexValue?).reverse

theorem foldl_eq_ofDigits (base : Nat) (value : Char → Nat) (cs : List Char) :
    cs.foldl (fun n c => n * base + value c) 0 = Nat.ofDigits base (cs.map value).reverse := by
  rw [Nat.ofDigits_eq_foldr, List.foldr_reverse, List.foldl_map]
  congr 1
  funext n c
  rw [Nat.cast_id, Nat.mul_comm, Nat.add_comm]

/-- Without its separators a text has one value for each digit. -/
theorem filterMap_withoutSeparators {value : Char → Nat} {text : List Char}
    (h : ∀ c ∈ text, c ≠ '_' → Text.hexValue? c = some (value c)) :
    text.filterMap Text.hexValue? = (withoutSeparators text).map value := by
  induction text with
  | nil => rfl
  | cons c text ih =>
      obtain ⟨hfirst, hmore⟩ := List.forall_mem_cons.1 h
      have hrest := ih hmore
      by_cases hc : c = '_'
      · subst hc
        simpa [withoutSeparators, Text.hexValue?] using hrest
      · rw [List.filterMap_cons_some (hfirst hc), hrest]
        simp [withoutSeparators, hc]

theorem hexValue?_of_isDigit {c : Char} (h : c.isDigit = true) : Text.hexValue? c = some (c.toNat - '0'.toNat) := by
  have hrange : '0' ≤ c ∧ c ≤ '9' := by simpa [Char.isDigit, Char.le_def] using h
  rw [Text.hexValue?, if_pos hrange]

theorem ofDigits_withoutSeparators {text : List Char} (h : ∀ c ∈ text, isDigitPart c = true) :
    Decimal.ofDigits (withoutSeparators text) = literalValue 10 text := by
  have hdigits : ∀ c ∈ text, c ≠ '_' → Text.hexValue? c = some (c.toNat - '0'.toNat) := by
    intro c hc hne
    refine hexValue?_of_isDigit ?_
    simpa [isDigitPart, hne] using h c hc
  rw [literalValue, filterMap_withoutSeparators hdigits, ← foldl_eq_ofDigits, Decimal.ofDigits, Nat.ofDigitChars]
  simp only [Nat.mul_comm 10]

theorem ofHexDigits_withoutSeparators {text : List Char} (h : ∀ c ∈ text, isHexPart c = true) :
    Text.ofHexDigits (withoutSeparators text) = literalValue 16 text := by
  have hdigits : ∀ c ∈ text, c ≠ '_' → Text.hexValue? c = some ((Text.hexValue? c).getD 0) := by
    intro c hc hne
    have hhex : (Text.hexValue? c).isSome = true := by simpa [isHexPart, Text.isHexDigit, hne] using h c hc
    obtain ⟨value, hvalue⟩ := Option.isSome_iff_exists.1 hhex
    rw [hvalue, Option.getD_some]
  rw [literalValue, filterMap_withoutSeparators hdigits, ← foldl_eq_ofDigits, Text.ofHexDigits]

/-! ## what may follow -/

/-- No letter, digit, separator or point follows, so that a number ends here. -/
def StandsAlone (rest : List Char) : Prop :=
  ∀ c ∈ rest.head?, isNamePart c = false ∧ c ≠ '.'

theorem standsAlone_nil : StandsAlone [] := by
  simp [StandsAlone]

variable {rest : List Char}

theorem StandsAlone.takeWhile_append (h : StandsAlone rest) {p : Char → Bool}
    (hp : ∀ c, isNamePart c = false → p c = false) {text : List Char} (htext : ∀ c ∈ text, p c = true) :
    (text ++ rest).takeWhile p = text := by
  rw [List.takeWhile_append_of_pos htext]
  cases rest with
  | nil => simp
  | cons c more => simp [hp c (h c rfl).1]

theorem StandsAlone.fractionRun_eq (h : StandsAlone rest) : fractionRun rest = [] := by
  unfold fractionRun
  split
  · exact absurd rfl (h '.' rfl).2
  · rfl

theorem StandsAlone.exponentMark_eq (h : StandsAlone rest) : exponentMark rest = 0 := by
  unfold exponentMark
  split
  · next e c cs =>
      have hmark : ¬ (e == 'e' || e == 'E') = true := by
        intro heq
        simp only [Bool.or_eq_true, beq_iff_eq] at heq
        obtain rfl | rfl := heq <;> exact absurd (h _ rfl).1 (by decide)
      rw [if_neg hmark]
  · rfl

/-! ## single literals -/

/-- The kind of a decimal literal without a fraction and an exponent. -/
def wholeKind (text : List Char) : TokenKind :=
  if literalValue 10 text ≤ 2 ^ 63 - 1 then .int (literalValue 10 text)
  else .float (Decimal.Numeral.toFloat ⟨withoutSeparators text, [], 0⟩)

theorem maxInt64_eq : Decimal.maxInt64 = 2 ^ 63 - 1 := rfl

theorem decimalNumber_whole (h : StandsAlone rest) {text : List Char} (htext : ∀ c ∈ text, isDigitPart c = true) :
    decimalNumber (text ++ rest) = (wholeKind text, text.length) := by
  have hwhole : (text ++ rest).takeWhile isDigitPart = text :=
    h.takeWhile_append (fun c hc => Bool.eq_false_iff.2 fun hd => by simp [isNamePart_of_isDigitPart hd] at hc) htext
  simp [decimalNumber, hwhole, h.fractionRun_eq, h.exponentMark_eq, ofDigits_withoutSeparators htext, wholeKind,
    maxInt64_eq]

/-- Digits behind the first one are no mark of a hexadecimal literal, and neither is what follows. -/
theorem scanNumber_whole (h : StandsAlone rest) {c : Char} {cs : List Char} (hc : c.isDigit = true)
    (hcs : ∀ d ∈ cs, isDigitPart d = true) (pos : Pos) :
    scanNumber ⟨c :: cs ++ rest, pos⟩ =
      ⟨.token (wholeKind (c :: cs)), (Cursor.mk (c :: cs ++ rest) pos).advance (c :: cs).length, []⟩ := by
  have htext : ∀ d ∈ c :: cs, isDigitPart d = true :=
    List.forall_mem_cons.2 ⟨by rw [isDigitPart, hc, Bool.true_or], hcs⟩
  have hplain : ∀ x more, c :: cs ++ rest = '0' :: x :: more → (x == 'x' || x == 'X') = false := by
    intro x more heq
    have hx : isDigitPart x = true ∨ isNamePart x = false := by
      cases cs with
      | nil =>
          have hrest : rest = x :: more := (List.cons.inj heq).2
          exact .inr (h x (by rw [hrest]; rfl)).1
      | cons d cs =>
          obtain ⟨rfl, -⟩ := List.cons.inj (List.cons.inj heq).2
          exact .inl (hcs d List.mem_cons_self)
    refine Bool.eq_false_iff.2 fun hmark => ?_
    simp only [Bool.or_eq_true, beq_iff_eq] at hmark
    obtain rfl | rfl := hmark <;> exact absurd hx (by decide)
  rw [scanNumber_plain (hexRun?_eq_none hplain), decimalNumber_whole h htext]
  simp

/-- A hexadecimal literal with a digit is the whole number of its value, or a fault. -/
theorem scanNumber_hex (h : StandsAlone rest) {mark : Char} (hmark : mark = 'x' ∨ mark = 'X') {run : List Char}
    (hrun : ∀ d ∈ run, isHexPart d = true) (pos : Pos) :
    let cur := Cursor.mk ('0' :: mark :: run ++ rest) pos
    let next := cur.advance ('0' :: mark :: run).length
    scanNumber cur =
      if (∃ d ∈ run, d ≠ '_') ∧ literalValue 16 run ≤ 2 ^ 63 - 1 then ⟨.token (.int (literalValue 16 run)), next, []⟩
      else ⟨.token (.int 0), next, [⟨.badHex (String.ofList (withoutSeparators run)), next.spanFrom pos⟩]⟩ := by
  intro cur next
  have hx : (mark == 'x' || mark == 'X') = true := by simpa using hmark
  have htake : (run ++ rest).takeWhile isHexPart = run :=
    h.takeWhile_append (fun c hc => Bool.eq_false_iff.2 fun hd => by simp [isNamePart_of_isHexPart hd] at hc) hrun
  have hdigits : (withoutSeparators run).isEmpty = false ↔ ∃ d ∈ run, d ≠ '_' := by
    simp [withoutSeparators, List.isEmpty_eq_false_iff]
  have hnext : cur.advance (2 + run.length) = next := by
    simp only [next, List.length_cons]
    congr 1
    omega
  simp only [scanNumber, cur, List.cons_append, hx, if_true, htake, ofHexDigits_withoutSeparators hrun, maxInt64_eq,
    Bool.and_eq_true, Bool.not_eq_true', decide_eq_true_eq, hdigits]
  rw [← hnext]
  rfl

/-! ## whole sources -/

/-- A text is one token wherever it stands alone, in a line or as a whole source, with so much wrong in it. -/
structure LiteralReads (text : List Char) (kind : TokenKind) (causes : List LexError) : Prop where
  inLine : ∀ (rest : List Char) (pos : Pos), StandsAlone rest → ∃ faults,
    scanHere ⟨text ++ rest, pos⟩ = ⟨.token kind, (Cursor.mk (text ++ rest) pos).advance text.length, faults⟩ ∧
      faults.map (·.cause) = causes
  tokens : (lex (String.ofList text)).tokens.map (·.kind) = [kind, .newline, .eof]
  faults : (lex (String.ofList text)).faults.map (·.cause) = causes

/-- A source of a single lexeme that starts with a digit. -/
theorem lex_single {text : String} {c : Char} {cs : List Char} {kind : TokenKind} {next : Cursor}
    {faults : List (Fault LexError)} (htext : text.toList = c :: cs) (hc : c.isDigit = true) (hkind : kind ≠ .newline)
    (hnext : next.rest = []) (hscan : scanHere ⟨c :: cs, ⟨1, 1⟩⟩ = ⟨.token kind, next, faults⟩) :
    (lex text).tokens.map (·.kind) = [kind, .newline, .eof] ∧ (lex text).faults = faults := by
  have hne : ∀ d : Char, d.isDigit = false → c ≠ d := by
    rintro d hd rfl
    rw [hd] at hc
    cases hc
  have hspace : isSpace c = false := by
    simp [isSpace, hne ' ' rfl, hne '\t' rfl, hne '\r' rfl, hne '\x0c' rfl]
  let cur : Cursor := ⟨c :: cs, ⟨1, 1⟩⟩
  have hstart : Lexer.start text = ⟨cur, [], [], 0, true, []⟩ := by
    rw [Lexer.start, Cursor.start, htext]
  have hmargin : (⟨cur, [], [], 0, true, []⟩ : Lexer).step = ⟨cur, [], [], 0, false, []⟩ :=
    Lexer.step_margin rfl hspace (hne '\n' rfl) (hne '#' rfl) rfl rfl
  have hread : scan cur = (⟨1, 1⟩, ⟨.token kind, next, faults⟩) := by
    simp [scan, cur, Cursor.skipWhile, hspace, hscan]
  have hlexeme : (⟨cur, [], [], 0, false, []⟩ : Lexer).step =
      ⟨next, [⟨kind, next.spanFrom ⟨1, 1⟩⟩], [], Lexer.depthAfter 0 kind, false, faults.reverse⟩ := by
    simp [Lexer.step, Lexer.lexeme, hread, Lexer.accept, Lexer.push]
  have hmore (line : Bool) : (⟨cur, [], [], 0, line, []⟩ : Lexer).finished = false := by
    simp [Lexer.finished, cur, maxDiagnostics]
  have hrun : (Lexer.start text).run =
      ⟨next, [⟨kind, next.spanFrom ⟨1, 1⟩⟩], [], Lexer.depthAfter 0 kind, false, faults.reverse⟩ := by
    rw [hstart, Lexer.run_step (hmore true), hmargin, Lexer.run_step (hmore false), hlexeme,
      Lexer.run_of_finished (by simp [Lexer.finished, hnext])]
  simp [lex, hrun, Lexer.close_eq, Lexer.inLine, hkind]

theorem literalReads_of_scanNumber {c : Char} {cs : List Char} {kind : TokenKind} {causes : List LexError}
    (hc : c.isDigit = true) (hkind : kind ≠ .newline)
    (hscan : ∀ (rest : List Char) (pos : Pos), StandsAlone rest → ∃ faults, scanNumber ⟨c :: cs ++ rest, pos⟩ =
      ⟨.token kind, (Cursor.mk (c :: cs ++ rest) pos).advance (c :: cs).length, faults⟩ ∧
        faults.map (·.cause) = causes) :
    LiteralReads (c :: cs) kind causes := by
  have hhere (rest : List Char) (pos : Pos) : scanHere ⟨c :: cs ++ rest, pos⟩ = scanNumber ⟨c :: cs ++ rest, pos⟩ :=
    scanHere_of_isDigit hc (cs ++ rest) pos
  obtain ⟨faults, halone, hcauses⟩ := hscan [] ⟨1, 1⟩ standsAlone_nil
  rw [← hhere, List.append_nil] at halone
  obtain ⟨htokens, hfaults⟩ := lex_single String.toList_ofList hc hkind (by simp) halone
  exact ⟨fun rest pos hrest => hhere rest pos ▸ hscan rest pos hrest, htokens, hfaults ▸ hcauses⟩

/-- Whole numbers never wrap. A decimal literal, with any separators behind its first digit, is the whole number of its
value if that has 63 bits, and else a number with a fraction. A hexadecimal literal is the whole number of its value if
it has a digit and the value has 63 bits, and else one fault is found. -/
theorem whole_numbers_exact :
    (∀ (c : Char) (cs : List Char), c.isDigit = true → (∀ d ∈ cs, isDigitPart d = true) →
      (literalValue 10 (c :: cs) ≤ 2 ^ 63 - 1 → LiteralReads (c :: cs) (.int (literalValue 10 (c :: cs))) []) ∧
      (2 ^ 63 - 1 < literalValue 10 (c :: cs) →
        LiteralReads (c :: cs) (.float (Decimal.Numeral.toFloat ⟨withoutSeparators (c :: cs), [], 0⟩)) [])) ∧
    ∀ (mark : Char) (run : List Char), mark = 'x' ∨ mark = 'X' → (∀ d ∈ run, isHexPart d = true) →
      ((∃ d ∈ run, d ≠ '_') → literalValue 16 run ≤ 2 ^ 63 - 1 →
        LiteralReads ('0' :: mark :: run) (.int (literalValue 16 run)) []) ∧
      ((∀ d ∈ run, d = '_') ∨ 2 ^ 63 - 1 < literalValue 16 run →
        LiteralReads ('0' :: mark :: run) (.int 0) [.badHex (String.ofList (withoutSeparators run))]) := by
  refine ⟨fun c cs hc hcs => ?_, fun mark run hmark hrun => ?_⟩
  · have hread : ∀ kind, wholeKind (c :: cs) = kind → kind ≠ .newline → LiteralReads (c :: cs) kind [] := by
      rintro kind rfl hkind
      exact literalReads_of_scanNumber hc hkind fun rest pos hrest => ⟨[], scanNumber_whole hrest hc hcs pos, rfl⟩
    constructor
    · intro hfits
      exact hread _ (if_pos hfits) (by simp)
    · intro hlarge
      exact hread _ (if_neg (Nat.not_le.2 hlarge)) (by simp)
  · constructor
    · intro hdigit hfits
      refine literalReads_of_scanNumber rfl (by simp) fun rest pos hrest => ⟨[], ?_, rfl⟩
      exact (scanNumber_hex hrest hmark hrun pos).trans (if_pos ⟨hdigit, hfits⟩)
    · intro hbad
      have hnot : ¬ ((∃ d ∈ run, d ≠ '_') ∧ literalValue 16 run ≤ 2 ^ 63 - 1) := by
        rintro ⟨⟨d, hd, hne⟩, hfits⟩
        exact hbad.elim (fun hnone => hne (hnone d hd)) (Nat.not_lt.2 hfits)
      refine literalReads_of_scanNumber rfl (by simp) fun rest pos hrest => ?_
      exact ⟨_, (scanNumber_hex hrest hmark hrun pos).trans (if_neg hnot), rfl⟩

/-- The largest whole number in both notations, the next one, and a hexadecimal literal without a digit. -/
theorem whole_numbers_exact_limits :
    LiteralReads "009_223_372_036_854_775_807".toList (.int (2 ^ 63 - 1)) [] ∧
      LiteralReads "9223372036854775808__".toList
        (.float (Decimal.Numeral.toFloat ⟨"9223372036854775808".toList, [], 0⟩)) [] ∧
      LiteralReads "0x_7fff_ffff_ffff_ffff".toList (.int (2 ^ 63 - 1)) [] ∧
      LiteralReads "0X8000000000000000".toList (.int 0) [.badHex "8000000000000000"] ∧
      LiteralReads "0x__".toList (.int 0) [.badHex ""] := by
  have hlarge : ∀ d ∈ "_7fff_ffff_ffff_ffff".toList, isHexPart d = true := by
    simp [isHexPart, Text.isHexDigit, Text.hexValue?]
  have hlarger : ∀ d ∈ "8000000000000000".toList, isHexPart d = true := by
    simp [isHexPart, Text.isHexDigit, Text.hexValue?]
  refine ⟨?_, ?_, ?_, ?_, ?_⟩
  · exact (whole_numbers_exact.1 '0' "09_223_372_036_854_775_807".toList (by decide) (by simp [isDigitPart])).1
      (by decide +kernel)
  · exact (whole_numbers_exact.1 '9' "223372036854775808__".toList (by decide) (by simp [isDigitPart])).2
      (by decide +kernel)
  · exact (whole_numbers_exact.2 'x' _ (by decide) hlarge).1 ⟨'7', by simp⟩ (by decide +kernel)
  · exact (whole_numbers_exact.2 'X' _ (by decide) hlarger).2 (.inr (by decide +kernel))
  · exact (whole_numbers_exact.2 'x' "__".toList (by decide) (by simp [isHexPart])).2 (.inl (by simp))

end ViewSync
