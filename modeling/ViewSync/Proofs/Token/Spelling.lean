import ViewSync.Proofs.Source.Places
import ViewSync.Proofs.Token.Lexical

/-!
# ViewSync.Proofs.Token.Spelling

A grammar of lexemes: which texts spell which token (`Spells`). It knows nothing of the order in which a reader tries
things, and gives numbers and strings by the form of their text. A token that is read without a fault is spelled by
the characters that it was read from (`spells_scanHere`).
-/

namespace ViewSync

/-! ## the grammar -/

/-- Digits, with separators behind the first one. -/
def isDigitText : List Char → Bool
  | [] => false
  | c :: cs => c.isDigit && cs.all isDigitPart

/-- The text of a fraction, and the digits of it. -/
inductive FractionText : List Char → List Char → Prop
  | none : FractionText [] []
  | point {digits : List Char} : isDigitText digits = true → FractionText ('.' :: digits) digits

/-- The text of an exponent, and its value. -/
inductive ExponentText : List Char → Int → Prop
  | none : ExponentText [] 0
  | plain {mark : Char} {digits : List Char} : mark = 'e' ∨ mark = 'E' → isDigitText digits = true →
      ExponentText (mark :: digits) (Decimal.ofDigits (withoutSeparators digits))
  | plus {mark : Char} {digits : List Char} : mark = 'e' ∨ mark = 'E' → isDigitText digits = true →
      ExponentText (mark :: '+' :: digits) (Decimal.ofDigits (withoutSeparators digits))
  | minus {mark : Char} {digits : List Char} : mark = 'e' ∨ mark = 'E' → isDigitText digits = true →
      ExponentText (mark :: '-' :: digits) (-(Decimal.ofDigits (withoutSeparators digits) : Int))

/-- Escapes of one character behind the backslash. -/
def escapeTable : List (Char × List Char) :=
  [('\n', []), ('n', ['\n']), ('t', ['\t']), ('r', ['\r']), ('0', ['\x00']), ('\\', ['\\']), ('\'', ['\'']),
    ('"', ['"'])]

/-- Escapes with a number of so many hexadecimal digits. -/
def numberedEscapes : List (Char × Nat) :=
  [('x', 2), ('u', 4)]

/-- The text of an escape behind its backslash, and the characters that it stands for. -/
inductive Escape : List Char → List Char → Prop
  | char {c : Char} {chars : List Char} : (c, chars) ∈ escapeTable → Escape [c] chars
  | number {kind : Char} {width : Nat} {digits : List Char} : (kind, width) ∈ numberedEscapes →
      digits.length = width → (∀ d ∈ digits, Text.isHexDigit d = true) → (Text.ofHexDigits digits).isValidChar →
      Escape (kind :: digits) [Char.ofNat (Text.ofHexDigits digits)]
  /-- Other escapes keep their backslash. -/
  | other {c : Char} : (∀ entry ∈ escapeTable, c ≠ entry.1) → (∀ entry ∈ numberedEscapes, c ≠ entry.1) →
      Escape [c] ['\\', c]

/-- A string behind its opening quotes, the closing ones included, and its content. With three quotes the string
ends at the first three that follow each other; with one it ends at the next one, on the same line. -/
inductive Quoted (quote : Char) : Bool → List Char → List Char → Prop
  | close : Quoted quote false [quote] []
  | closeTriple : Quoted quote true [quote, quote, quote] []
  | escape {triple : Bool} {text chars rest content : List Char} : Escape text chars →
      Quoted quote triple rest content → Quoted quote triple ('\\' :: (text ++ rest)) (chars ++ content)
  | plain {triple : Bool} {c : Char} {rest content : List Char} : c ≠ '\\' →
      (triple = false → c ≠ quote ∧ c ≠ '\n') → (triple = true → ¬ [quote, quote, quote] <+: c :: rest) →
      Quoted quote triple rest content → Quoted quote triple (c :: rest) (c :: content)

/-- The texts that spell a token. -/
inductive Spells : List Char → TokenKind → Prop
  | symbol (s : Symbol) : Spells s.text.toList (.symbol s)
  | augAssign {op : BinaryOp} : op.isLogical = false → Spells (op.symbol ++ "=").toList (.augAssign op)
  | word {name : String} : isNameText name = true → Spells name.toList (.ofWord name)
  | whole {digits : List Char} : isDigitText digits = true →
      Decimal.ofDigits (withoutSeparators digits) ≤ Decimal.maxInt64 →
      Spells digits (.int (Decimal.ofDigits (withoutSeparators digits)))
  /-- A whole number beyond 64 bits. -/
  | large {digits : List Char} : isDigitText digits = true →
      Decimal.maxInt64 < Decimal.ofDigits (withoutSeparators digits) →
      Spells digits (.float (Decimal.Numeral.toFloat ⟨withoutSeparators digits, [], 0⟩))
  /-- A number with a fraction, an exponent or both; in front of a fraction the digits may be missing. -/
  | real {whole fraction digits exponent : List Char} {power : Int} : whole = [] ∨ isDigitText whole = true →
      FractionText fraction digits → ExponentText exponent power →
      fraction ≠ [] ∨ whole ≠ [] ∧ exponent ≠ [] →
      Spells (whole ++ (fraction ++ exponent))
        (.float (Decimal.Numeral.toFloat ⟨withoutSeparators whole, withoutSeparators digits, power⟩))
  | hex {mark : Char} {run : List Char} : mark = 'x' ∨ mark = 'X' → (∀ c ∈ run, isHexPart c = true) →
      withoutSeparators run ≠ [] → Text.ofHexDigits (withoutSeparators run) ≤ Decimal.maxInt64 →
      Spells ('0' :: mark :: run) (.int (Text.ofHexDigits (withoutSeparators run)))
  | str {quote : Char} {text content : List Char} : quote = '"' ∨ quote = '\'' → Quoted quote false text content →
      Spells (quote :: text) (.str (String.ofList content))
  | tripleStr {quote : Char} {text content : List Char} : quote = '"' ∨ quote = '\'' →
      Quoted quote true text content → Spells (quote :: quote :: quote :: text) (.str (String.ofList content))

/-! ## characters of lexemes -/

theorem ne_newline_of_isDigitPart {c : Char} (h : isDigitPart c = true) : c ≠ '\n' := by
  rintro rfl
  cases h

theorem isDigitPart_of_isDigitText {digits : List Char} (h : isDigitText digits = true) :
    digits ≠ [] ∧ ∀ c ∈ digits, isDigitPart c = true := by
  cases digits with
  | nil => cases h
  | cons c cs =>
      simp only [isDigitText, Bool.and_eq_true, List.all_eq_true] at h
      exact ⟨List.cons_ne_nil c cs, List.forall_mem_cons.2 ⟨by simp [isDigitPart, h.1], h.2⟩⟩

theorem isNamePart_of_isNameText {name : String} (h : isNameText name = true) :
    name.toList ≠ [] ∧ ∀ c ∈ name.toList, isNamePart c = true := by
  unfold isNameText at h
  split at h
  · cases h
  · next c cs hname =>
      simp only [Bool.and_eq_true, List.all_eq_true] at h
      rw [hname]
      exact ⟨List.cons_ne_nil c cs, List.forall_mem_cons.2 ⟨isNamePart_of_isNameStart h.1, h.2⟩⟩

theorem FractionText.ne_newline {text digits : List Char} (h : FractionText text digits) : '\n' ∉ text := by
  intro hmem
  cases h with
  | none => cases hmem
  | point hdigits =>
      obtain hc | hmem := List.mem_cons.1 hmem
      · cases hc
      · exact ne_newline_of_isDigitPart ((isDigitPart_of_isDigitText hdigits).2 _ hmem) rfl

theorem ExponentText.ne_newline {text : List Char} {power : Int} (h : ExponentText text power) : '\n' ∉ text := by
  have hpart : ∀ {digits : List Char}, isDigitText digits = true → '\n' ∉ digits :=
    fun hdigits hmem => ne_newline_of_isDigitPart ((isDigitPart_of_isDigitText hdigits).2 _ hmem) rfl
  cases h with
  | none => nofun
  | plain hmark hdigits => obtain rfl | rfl := hmark <;> simp [hpart hdigits]
  | plus hmark hdigits => obtain rfl | rfl := hmark <;> simp [hpart hdigits]
  | minus hmark hdigits => obtain rfl | rfl := hmark <;> simp [hpart hdigits]

/-- A string ends with its quote. -/
theorem Quoted.getLast?_eq {quote : Char} {triple : Bool} {text content : List Char}
    (h : Quoted quote triple text content) : text.getLast? = some quote := by
  induction h with
  | close => rfl
  | closeTriple => rfl
  | escape _ _ ih => rw [← List.cons_append, List.getLast?_append, ih]; rfl
  | plain _ _ _ _ ih => rw [List.getLast?_cons, ih]; rfl

/-- A lexeme has characters, and no newline as the first or the last of them. -/
theorem Spells.ends {text : List Char} {kind : TokenKind} (h : Spells text kind) :
    text ≠ [] ∧ (∀ c ∈ text.head?, c ≠ '\n') ∧ ∀ c ∈ text.getLast?, c ≠ '\n' := by
  -- Strings aside, no character of a lexeme is a newline.
  suffices hcases : text ≠ [] ∧ ('\n' ∉ text ∨ ∃ quote, quote ≠ '\n' ∧ text.head? = some quote ∧
      text.getLast? = some quote) by
    obtain ⟨hne, hnone | ⟨quote, hquote, hfirst, hlast⟩⟩ := hcases
    · have hany : ∀ c ∈ text, c ≠ '\n' := fun c hc heq => hnone (heq ▸ hc)
      exact ⟨hne, fun c hc => hany c (List.mem_of_mem_head? hc), fun c hc => hany c (List.mem_of_getLast? hc)⟩
    · simp [hne, hfirst, hlast, hquote]
  have hdigit {digits : List Char} (hdigits : isDigitText digits = true) : digits ≠ [] ∧ '\n' ∉ digits := by
    obtain ⟨hne, hparts⟩ := isDigitPart_of_isDigitText hdigits
    exact ⟨hne, fun hmem => ne_newline_of_isDigitPart (hparts _ hmem) rfl⟩
  have hquoted {quote : Char} {triple : Bool} (front : List Char) {text content : List Char}
    (hquote : quote = '"' ∨ quote = '\'')
      (htext : Quoted quote triple text content) (hfront : (front ++ text).head? = some quote) :
      front ++ text ≠ [] ∧ ('\n' ∉ front ++ text ∨ ∃ q, q ≠ '\n' ∧ (front ++ text).head? = some q ∧
        (front ++ text).getLast? = some q) := by
    have hlast : (front ++ text).getLast? = some quote := by rw [List.getLast?_append, htext.getLast?_eq]; rfl
    have hne : quote ≠ '\n' := by obtain rfl | rfl := hquote <;> decide
    exact ⟨List.ne_nil_of_mem (List.mem_of_mem_head? hfront), .inr ⟨quote, hne, hfront, hlast⟩⟩
  cases h with
  | symbol s => cases s <;> exact ⟨by decide, .inl (by decide)⟩
  | augAssign hop => rename_i op; cases op <;> exact ⟨by decide, .inl (by decide)⟩
  | @word name hname =>
      have hparts := isNamePart_of_isNameText hname
      constructor
      · exact hparts.1
      · exact .inl fun hmem => absurd (hparts.2 _ hmem) (by decide)
  | whole hdigits _ => exact ⟨(hdigit hdigits).1, .inl (hdigit hdigits).2⟩
  | large hdigits _ => exact ⟨(hdigit hdigits).1, .inl (hdigit hdigits).2⟩
  | real hwhole hfraction hexponent hsome =>
      constructor
      · obtain hne | ⟨hne, -⟩ := hsome <;> simp [hne]
      · have hnone := hfraction.ne_newline
        have hnone' := hexponent.ne_newline
        obtain rfl | hwhole := hwhole
        · simp [hnone, hnone']
        · simp [hnone, hnone', (hdigit hwhole).2]
  | @hex mark run hmark hrun _ _ =>
      have hnone : '\n' ∉ run := fun hmem => absurd (hrun _ hmem) (by decide)
      obtain rfl | rfl := hmark <;> simp [hnone]
  | str hquote htext => exact hquoted [_] hquote htext rfl
  | tripleStr hquote htext => exact hquoted [_, _, _] hquote htext rfl

/-! ## what a reader passes -/

/-- From one cursor to another some text is passed. -/
def Cursor.Passes (cur : Cursor) (text : List Char) (next : Cursor) : Prop :=
  cur.rest = text ++ next.rest ∧ next.pos = text.foldl Pos.after cur.pos

namespace Cursor

variable {a b c : Cursor} {text more : List Char}

theorem Passes.trans (hab : a.Passes text b) (hbc : b.Passes more c) : a.Passes (text ++ more) c := by
  obtain ⟨hrest, hpos⟩ := hab
  obtain ⟨hrest', hpos'⟩ := hbc
  constructor
  · rw [hrest, hrest', List.append_assoc]
  · rw [hpos', hpos, List.foldl_append]

theorem passes_advance (n : Nat) (cur : Cursor) : cur.Passes (cur.rest.take n) (cur.advance n) := by
  constructor
  · rw [rest_advance, List.take_append_drop]
  · exact pos_advance n cur

theorem passes_one {cur : Cursor} {c : Char} {cs : List Char} (h : cur.rest = c :: cs) :
    cur.Passes [c] (cur.advance 1) := by
  have hpasses := passes_advance 1 cur
  rwa [h] at hpasses

end Cursor

/-! ## numbers -/

theorem take_length_takeWhile (p : Char → Bool) (cs : List Char) :
    cs.take (cs.takeWhile p).length = cs.takeWhile p :=
  (List.prefix_iff_eq_take.1 (List.takeWhile_prefix p)).symm

theorem isDigitText_takeWhile {c : Char} (h : c.isDigit = true) (cs : List Char) :
    isDigitText ((c :: cs).takeWhile isDigitPart) = true := by
  have hpart : isDigitPart c = true := by simp [isDigitPart, h]
  rw [List.takeWhile_cons_of_pos hpart]
  simp [isDigitText, h, List.all_takeWhile]

/-- How many characters a fraction takes. -/
def fractionSize (digits : List Char) : Nat :=
  if digits.isEmpty then 0 else digits.length + 1

theorem fractionText_take (cs : List Char) :
    FractionText (cs.take (fractionSize (fractionRun cs))) (fractionRun cs) := by
  unfold fractionRun
  split
  · next c cs =>
      by_cases hc : c.isDigit = true
      · have hdigits := isDigitText_takeWhile hc cs
        have hne := (isDigitPart_of_isDigitText hdigits).1
        have hsize : fractionSize ((c :: cs).takeWhile isDigitPart) = ((c :: cs).takeWhile isDigitPart).length + 1 := by
          simp [fractionSize, hne]
        rw [if_pos hc, hsize, List.take_succ_cons, take_length_takeWhile]
        exact .point hdigits
      · rw [if_neg hc]
        exact .none
  · exact .none

theorem exponentMark_cases {cs : List Char} (h : exponentMark cs ≠ 0) :
    (∃ mark d more, cs = mark :: d :: more ∧ (mark = 'e' ∨ mark = 'E') ∧ d.isDigit = true ∧ exponentMark cs = 1) ∨
      ∃ mark sign d more, cs = mark :: sign :: d :: more ∧ (mark = 'e' ∨ mark = 'E') ∧ (sign = '+' ∨ sign = '-') ∧
        d.isDigit = true ∧ exponentMark cs = 2 := by
  unfold exponentMark at h ⊢
  split at h
  · next mark c cs =>
      split_ifs at h with hmark hdigit hsign
      · exact .inl ⟨mark, c, cs, rfl, by simpa using hmark, hdigit, by simp [hmark, hdigit]⟩
      · split at h
        · next d more =>
            have hd : d.isDigit = true := by simpa using h
            exact .inr ⟨mark, c, d, more, rfl, by simpa using hmark, by simpa using hsign, hd,
              by simp [hmark, hdigit, hsign, hd]⟩
        · exact absurd rfl h
      · exact absurd rfl h
      · exact absurd rfl h
  · exact absurd rfl h

/-- The digits of an exponent. -/
def exponentRun (cs : List Char) : List Char :=
  (cs.drop (exponentMark cs)).takeWhile isDigitPart

/-- The value of an exponent. -/
def exponentValue (cs : List Char) : Int :=
  let size := Decimal.ofDigits (withoutSeparators (exponentRun cs))
  if exponentMark cs = 0 then 0 else if (cs.take (exponentMark cs)).contains '-' then -(size : Int) else size

/-- How many characters an exponent takes. -/
def exponentSize (cs : List Char) : Nat :=
  if exponentMark cs = 0 then 0 else exponentMark cs + (exponentRun cs).length

theorem exponentText_take (cs : List Char) : ExponentText (cs.take (exponentSize cs)) (exponentValue cs) := by
  by_cases hmark : exponentMark cs = 0
  · simp only [exponentSize, exponentValue, if_pos hmark]
    exact .none
  · have hrun (n : Nat) (more : List Char) : (more.take (more.takeWhile isDigitPart).length) =
        more.takeWhile isDigitPart := take_length_takeWhile _ _
    simp only [exponentSize, exponentValue, if_neg hmark]
    obtain ⟨mark, d, more, rfl, he, hd, hsize⟩ | ⟨mark, sign, d, more, rfl, he, hsign, hd, hsize⟩ :=
      exponentMark_cases hmark
    · have hdigits := isDigitText_takeWhile hd more
      have hne : mark ≠ '-' := by obtain rfl | rfl := he <;> decide
      simp only [exponentRun, hsize, List.drop_succ_cons, List.drop_zero, Nat.add_comm 1, List.take_succ_cons,
        take_length_takeWhile, List.take_zero]
      simpa [hne.symm] using ExponentText.plain he hdigits
    · have hdigits := isDigitText_takeWhile hd more
      have hne : mark ≠ '-' := by obtain rfl | rfl := he <;> decide
      simp only [exponentRun, hsize, List.drop_succ_cons, List.drop_zero, Nat.add_comm 2, List.take_succ_cons,
        take_length_takeWhile, List.take_zero]
      obtain rfl | rfl := hsign
      · simpa [hne.symm] using ExponentText.plus he hdigits
      · simpa using ExponentText.minus he hdigits

theorem take_exponentSize_ne_nil {cs : List Char} (h : exponentMark cs ≠ 0) : cs.take (exponentSize cs) ≠ [] := by
  have hsize : exponentSize cs = exponentMark cs - 1 + (exponentRun cs).length + 1 := by
    rw [exponentSize, if_neg h]
    omega
  obtain ⟨mark, d, more, rfl, -⟩ | ⟨mark, sign, d, more, rfl, -⟩ := exponentMark_cases h <;> simp [hsize]

theorem FractionText.ne_nil {text digits : List Char} (h : FractionText text digits) (hdigits : digits ≠ []) :
    text ≠ [] := by
  cases h with
  | none => contradiction
  | point => nofun

/-- A number starts with a digit, or with a point in front of one. -/
theorem startsNumber_cases {cs : List Char} (h : startsNumber cs = true) :
    (∃ c more, cs = c :: more ∧ c.isDigit = true) ∨ ∃ c more, cs = '.' :: c :: more ∧ c.isDigit = true := by
  unfold startsNumber at h
  split at h
  · exact .inr ⟨_, _, rfl, h⟩
  · exact .inl ⟨_, _, rfl, h⟩
  · cases h

/-- The parts of a number, one behind the other. -/
theorem decimalNumber_eq (cs : List Char) :
    let whole := cs.takeWhile isDigitPart
    let afterWhole := cs.drop whole.length
    let fraction := fractionRun afterWhole
    let afterFraction := afterWhole.drop (fractionSize fraction)
    decimalNumber cs =
      if fractionSize fraction = 0 ∧ exponentMark afterFraction = 0 then
        (if Decimal.ofDigits (withoutSeparators whole) ≤ Decimal.maxInt64 then
          .int (Decimal.ofDigits (withoutSeparators whole))
        else .float (Decimal.Numeral.toFloat ⟨withoutSeparators whole, [], 0⟩), whole.length)
      else
        (.float (Decimal.Numeral.toFloat
          ⟨withoutSeparators whole, withoutSeparators fraction, exponentValue afterFraction⟩),
          whole.length + fractionSize fraction + exponentSize afterFraction) := rfl

/-- A number is spelled by the characters that it takes. -/
theorem spells_decimalNumber {cs : List Char} (h : startsNumber cs = true) :
    Spells (cs.take (max (decimalNumber cs).2 1)) (decimalNumber cs).1 := by
  have heq := decimalNumber_eq cs
  extract_lets whole afterWhole fraction afterFraction at heq
  have hfraction := fractionText_take afterWhole
  have hexponent := exponentText_take afterFraction
  -- The number starts with a digit, or with the point of a fraction.
  have hstart : isDigitText whole = true ∨ whole = [] ∧ fraction ≠ [] := by
    obtain ⟨c, more, rfl, hc⟩ | ⟨c, more, rfl, hc⟩ := startsNumber_cases h
    · exact .inl (isDigitText_takeWhile hc more)
    · have hrun : fraction = (c :: more).takeWhile isDigitPart := if_pos hc
      exact .inr ⟨rfl, hrun ▸ (isDigitPart_of_isDigitText (isDigitText_takeWhile hc more)).1⟩
  by_cases hplain : fractionSize fraction = 0 ∧ exponentMark afterFraction = 0
  · rw [if_pos hplain] at heq
    have hwhole : isDigitText whole = true := by
      obtain hwhole | ⟨-, hsome⟩ := hstart
      · exact hwhole
      · exact absurd hplain.1 (by simp [fractionSize, hsome])
    have hlength : max whole.length 1 = whole.length := by
      have hpos := List.length_pos_iff.2 (isDigitPart_of_isDigitText hwhole).1
      omega
    rw [heq]
    simp only [hlength]
    rw [take_length_takeWhile]
    by_cases hfits : Decimal.ofDigits (withoutSeparators whole) ≤ Decimal.maxInt64
    · rw [if_pos hfits]
      exact .whole hwhole hfits
    · rw [if_neg hfits]
      exact .large hwhole (Nat.lt_of_not_le hfits)
  · rw [if_neg hplain] at heq
    have hwhole : whole = [] ∨ isDigitText whole = true := hstart.symm.imp_left And.left
    have hsome : afterWhole.take (fractionSize fraction) ≠ [] ∨
        whole ≠ [] ∧ afterFraction.take (exponentSize afterFraction) ≠ [] := by
      by_cases hnone : fraction = []
      · have hsize : fractionSize fraction = 0 := by simp [fractionSize, hnone]
        have hmark : exponentMark afterFraction ≠ 0 := fun hmark => hplain ⟨hsize, hmark⟩
        obtain hdigits | ⟨-, hne⟩ := hstart
        · exact .inr ⟨(isDigitPart_of_isDigitText hdigits).1, take_exponentSize_ne_nil hmark⟩
        · exact absurd hnone hne
      · exact .inl (hfraction.ne_nil hnone)
    have hpos : 1 ≤ whole.length + fractionSize fraction + exponentSize afterFraction := by
      obtain hne | ⟨hne, -⟩ := hsome
      · have hsize : fractionSize fraction ≠ 0 := fun hsize => by simp [hsize] at hne
        omega
      · have hlength := List.length_pos_iff.2 hne
        omega
    have htake : cs.take (whole.length + fractionSize fraction + exponentSize afterFraction) =
        whole ++ (afterWhole.take (fractionSize fraction) ++ afterFraction.take (exponentSize afterFraction)) := by
      rw [Nat.add_assoc, List.take_add, List.take_add, take_length_takeWhile]
    rw [heq]
    simp only [Nat.max_eq_left hpos, htake]
    exact .real hwhole hfraction hexponent hsome

theorem spells_scanNumber {cur : Cursor} (h : startsNumber cur.rest = true) (hfaults : (scanNumber cur).faults = []) :
    ∃ kind text, (scanNumber cur).lexeme = .token kind ∧ cur.Passes text (scanNumber cur).next ∧ Spells text kind := by
  unfold scanNumber at hfaults ⊢
  have hdecimal : ∃ kind text, Lexeme.token (decimalNumber cur.rest).1 = .token kind ∧
      cur.Passes text (cur.advance (max (decimalNumber cur.rest).2 1)) ∧ Spells text kind :=
    ⟨_, _, rfl, Cursor.passes_advance _ cur, spells_decimalNumber h⟩
  split
  · next mark cs hrest =>
      split
      · next hmark =>
          simp only [hrest, hmark, if_true] at hfaults ⊢
          split at hfaults
          · next hvalue =>
              simp only [Bool.and_eq_true, Bool.not_eq_true', List.isEmpty_eq_false_iff, decide_eq_true_eq] at hvalue
              have hpasses := Cursor.passes_advance (2 + (cs.takeWhile isHexPart).length) cur
              rw [hrest, Nat.add_comm 2, List.take_succ_cons, List.take_succ_cons, take_length_takeWhile] at hpasses
              have hrun : ∀ c ∈ cs.takeWhile isHexPart, isHexPart c = true :=
                fun c hc => List.all_eq_true.1 List.all_takeWhile c hc
              rw [if_pos (by simpa using hvalue), Nat.add_comm 2]
              exact ⟨_, _, rfl, hpasses, .hex (by simpa using hmark) hrun hvalue.1 hvalue.2⟩
          · cases hfaults
      · exact hdecimal
  · exact hdecimal

/-! ## strings -/

theorem escape_scanNumberedEscape {start : Pos} {kind : Char} {width : Nat} {cur : Cursor}
    (hkind : (kind, width) ∈ numberedEscapes) (h : (scanNumberedEscape start kind width cur).faults = []) :
    ∃ digits, cur.Passes digits (scanNumberedEscape start kind width cur).next ∧
      Escape (kind :: digits) (scanNumberedEscape start kind width cur).chars := by
  unfold scanNumberedEscape at h ⊢
  extract_lets digits next value at h
  simp only
  split at h
  · next hvalue =>
      have hstarts : digits <+: cur.rest :=
        (List.takeWhile_prefix _).trans (List.take_prefix width cur.rest)
      have hdigits : ∀ d ∈ digits, Text.isHexDigit d = true :=
        fun d hd => List.all_eq_true.1 List.all_takeWhile d hd
      have hpasses := Cursor.passes_advance digits.length cur
      rw [← List.prefix_iff_eq_take.1 hstarts] at hpasses
      rw [if_pos hvalue]
      exact ⟨digits, hpasses, .number hkind hvalue.1 hdigits hvalue.2⟩
  · cases h

theorem escape_scanEscape {start : Pos} {cur : Cursor} (hrest : cur.rest ≠ [])
    (h : (scanEscape start cur).faults = []) :
    ∃ text, cur.Passes text (scanEscape start cur).next ∧ Escape text (scanEscape start cur).chars := by
  obtain ⟨c, cs, hcons⟩ := List.exists_cons_of_ne_nil hrest
  have hone := Cursor.passes_one hcons
  have hchar {chars : List Char} (hmem : (c, chars) ∈ escapeTable) :
      ∃ text, cur.Passes text (cur.advance 1) ∧ Escape text chars :=
    ⟨[c], hone, .char hmem⟩
  have hnumbered {width : Nat} (hmem : (c, width) ∈ numberedEscapes)
      (h : (scanNumberedEscape start c width (cur.advance 1)).faults = []) :
      ∃ text, cur.Passes text (scanNumberedEscape start c width (cur.advance 1)).next ∧
        Escape text (scanNumberedEscape start c width (cur.advance 1)).chars := by
    obtain ⟨digits, hpasses, hescape⟩ := escape_scanNumberedEscape hmem h
    exact ⟨_, hone.trans hpasses, hescape⟩
  unfold scanEscape at h ⊢
  rw [hcons] at h ⊢
  simp only at h ⊢
  split at h
  iterate 8 exact hchar (by simp [escapeTable])
  iterate 2 exact hnumbered (by simp [numberedEscapes]) h
  · exact ⟨[c], hone, .other (by simp_all [escapeTable]) (by simp_all [numberedEscapes])⟩

theorem rest_ne_nil_of_closed {quote : Char} {triple : Bool} {cur : Cursor}
    (h : (scanBody quote triple cur).closed = true) : cur.rest ≠ [] := by
  intro hrest
  rw [scanBody] at h
  split at h
  · cases h
  · next heq =>
      rw [hrest] at heq
      cases heq

/-- The characters of a string up to its closing quotes. -/
theorem quoted_scanBody {quote : Char} {triple : Bool} {cur : Cursor}
    (hclosed : (scanBody quote triple cur).closed = true) (hfaults : (scanBody quote triple cur).faults = []) :
    ∃ text, cur.Passes text (scanBody quote triple cur).next ∧
      Quoted quote triple text (scanBody quote triple cur).content := by
  fun_induction scanBody quote triple cur with
  | case1 cur => cases hclosed
  | case2 cur => cases hclosed
  | case3 cur c cs hrest _ hquote =>
      obtain ⟨rfl, rfl⟩ : c = quote ∧ triple = false := by simpa using hquote
      exact ⟨[c], Cursor.passes_one hrest, .close⟩
  | case4 cur c cs hrest _ hsingle hquote =>
      simp only [Bool.and_eq_true, beq_iff_eq] at hquote
      obtain ⟨rfl, hmore⟩ := hquote
      obtain rfl : triple = true := by simpa using hsingle
      have hpasses := Cursor.passes_advance 3 cur
      rw [hrest, List.take_succ_cons, hmore] at hpasses
      exact ⟨_, hpasses, .closeTriple⟩
  | case5 cur c cs hrest _ _ _ hslash escape ih =>
      obtain rfl : c = '\\' := by simpa using hslash
      obtain ⟨hescape, hbody⟩ := List.append_eq_nil_iff.1 hfaults
      have hne : (cur.advance 1).rest ≠ [] := by
        intro hnil
        have hnext : escape.next.rest = [] := by
          show (scanEscape cur.pos (cur.advance 1)).next.rest = []
          rw [scanEscape, hnil]
          exact hnil
        exact rest_ne_nil_of_closed hclosed hnext
      obtain ⟨text, hpasses, htext⟩ := escape_scanEscape hne hescape
      obtain ⟨more, hpasses', hmore⟩ := ih hclosed hbody
      have hquoted : Quoted quote triple ('\\' :: (text ++ more)) _ := .escape htext hmore
      exact ⟨_, (Cursor.passes_one hrest).trans (hpasses.trans hpasses'), hquoted⟩
  | case6 cur c cs hrest hline hsingle htriple hslash ih =>
      obtain ⟨text, hpasses, htext⟩ := ih hclosed hfaults
      have hone := Cursor.passes_one hrest
      have hcs : cs = text ++ (scanBody quote triple (cur.advance 1)).next.rest := by
        rw [← hpasses.1, Cursor.rest_advance, hrest]
        rfl
      have hshort : triple = false → c ≠ quote ∧ c ≠ '\n' := by
        rintro rfl
        simpa [and_comm] using And.intro hline hsingle
      have hlong : triple = true → ¬ [quote, quote, quote] <+: c :: text := by
        rintro - ⟨more, hstarts⟩
        obtain ⟨rfl, rfl⟩ : c = quote ∧ text = quote :: quote :: more := by simpa [eq_comm] using hstarts
        simp [hcs] at htriple
      exact ⟨_, hone.trans hpasses, .plain (by simpa using hslash) hshort hlong htext⟩

/-! ## all lexemes -/

theorem spells_scanString {quote : Char} {cur : Cursor} (hquote : quote = '"' ∨ quote = '\'') {cs : List Char}
    (hrest : cur.rest = quote :: cs) (hfaults : (scanString quote cur).faults = []) :
    ∃ kind text, (scanString quote cur).lexeme = .token kind ∧ cur.Passes text (scanString quote cur).next ∧
      Spells text kind := by
  unfold scanString at hfaults ⊢
  simp only [List.append_eq_nil_iff, ite_eq_left_iff, List.cons_ne_nil, imp_false, Bool.not_eq_true,
    Bool.not_eq_false] at hfaults ⊢
  obtain ⟨hbody, hclosed⟩ := hfaults
  obtain ⟨text, hpasses, htext⟩ := quoted_scanBody hclosed hbody
  by_cases htriple : ((cur.rest.drop 1).take 2 == [quote, quote]) = true
  · have hfront : cur.Passes [quote, quote, quote] (cur.advance 3) := by
      have hadvance := Cursor.passes_advance 3 cur
      have hcs : cs.take 2 = [quote, quote] := by simpa [hrest] using htriple
      rwa [hrest, List.take_succ_cons, hcs] at hadvance
    simp only [htriple, if_true] at hpasses htext ⊢
    exact ⟨_, _, rfl, hfront.trans hpasses, .tripleStr hquote htext⟩
  · rw [Bool.not_eq_true] at htriple
    simp only [htriple, Bool.false_eq_true, if_false] at hpasses htext ⊢
    exact ⟨_, _, rfl, (Cursor.passes_one hrest).trans hpasses, .str hquote htext⟩

theorem spells_scanName {cur : Cursor} {c : Char} {cs : List Char} (hrest : cur.rest = c :: cs)
    (hc : isNameStart c = true) :
    ∃ kind text, (scanName cur).lexeme = .token kind ∧ cur.Passes text (scanName cur).next ∧ Spells text kind := by
  have hname := isNameText_takeWhile hc cs
  have hlength : max ((c :: cs).takeWhile isNamePart).length 1 = ((c :: cs).takeWhile isNamePart).length := by
    rw [List.takeWhile_cons_of_pos (isNamePart_of_isNameStart hc), List.length_cons]
    omega
  have hpasses := Cursor.passes_advance ((c :: cs).takeWhile isNamePart).length cur
  rw [hrest, take_length_takeWhile] at hpasses
  have hspells := Spells.word hname
  rw [String.toList_ofList] at hspells
  simp only [scanName, hrest, hlength]
  exact ⟨_, _, rfl, hpasses, hspells⟩

/-- Operators are spelled as the table has them. -/
theorem spells_of_mem_operatorTable {entry : List Char × TokenKind} (h : entry ∈ operatorTable) :
    entry.1 ≠ [] ∧ Spells entry.1 entry.2 := by
  simp only [operatorTable, List.mem_append, List.mem_map] at h
  obtain ⟨op, hop, rfl⟩ | ⟨s, hs, rfl⟩ := h
  · have hlogical : op.isLogical = false := by
      revert op
      decide
    have hspells := Spells.augAssign hlogical
    rw [String.toList_append] at hspells
    exact ⟨by simp, hspells⟩
  · exact ⟨by cases s <;> decide, .symbol s⟩

theorem spells_scanOperator {c : Char} {cur : Cursor} (hfaults : (scanOperator c cur).faults = []) :
    ∃ kind text, (scanOperator c cur).lexeme = .token kind ∧ cur.Passes text (scanOperator c cur).next ∧
      Spells text kind := by
  unfold scanOperator at hfaults ⊢
  split at hfaults
  · next kind size hop =>
      obtain ⟨entry, hentry, hpair⟩ := Option.map_eq_some_iff.1 hop
      obtain ⟨rfl, rfl⟩ : entry.2 = kind ∧ entry.1.length = size := by simpa using hpair
      obtain ⟨hne, hspells⟩ := spells_of_mem_operatorTable (List.mem_of_find?_eq_some hentry)
      have hfound := List.find?_some hentry
      have hstarts : entry.1 <+: cur.rest := List.isPrefixOf_iff_prefix.1 hfound
      have hpasses := Cursor.passes_advance entry.1.length cur
      rw [← List.prefix_iff_eq_take.1 hstarts] at hpasses
      have hlength : max entry.1.length 1 = entry.1.length := by
        have hpos := List.length_pos_iff.2 hne
        omega
      rw [hlength]
      exact ⟨_, _, rfl, hpasses, hspells⟩
  · cases hfaults

/-- A token that is read without a fault is spelled by what was read. -/
theorem spells_scanHere {cur : Cursor} {kind : TokenKind} (h : (scanHere cur).lexeme = .token kind)
    (hfaults : (scanHere cur).faults = []) :
    ∃ text, cur.Passes text (scanHere cur).next ∧ Spells text kind := by
  -- Each reader gives some token with its text; there is just one token here.
  suffices hread : ∃ kind text, (scanHere cur).lexeme = .token kind ∧ cur.Passes text (scanHere cur).next ∧
      Spells text kind by
    obtain ⟨kind', text, hkind, hpasses, hspells⟩ := hread
    obtain rfl : kind' = kind := Lexeme.token.inj (hkind.symm.trans h)
    exact ⟨text, hpasses, hspells⟩
  cases hrest : cur.rest with
  | nil =>
      rw [scanHere, hrest] at h
      cases h
  | cons c cs =>
      simp only [scanHere, hrest] at h hfaults ⊢
      split_ifs at h hfaults ⊢ with hline hcomment hjoin hquote hnumber hname
      · rw [lexeme_scanJoin] at h
        cases h
      · exact spells_scanString (by simpa using hquote) hrest hfaults
      · exact spells_scanNumber (hrest ▸ hnumber) hfaults
      · exact spells_scanName hrest hname
      · exact spells_scanOperator hfaults

end ViewSync
