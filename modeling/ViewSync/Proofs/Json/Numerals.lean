import ViewSync.Proofs.Json.Grammar

/-!
# ViewSync.Proofs.Json.Numerals

Numbers are read from each of their texts. What a reader takes is said by `Takes`: exactly the characters of a text,
whatever stands behind them, as long as that ends a value. Each part of a number is read in front of the parts behind
it.

* `takes_exponent`, `takes_fraction` — the parts of a number are read for what they make of its value;
* `takes_number` — the digits of a number, with all that stands behind them, are read for its value;
* `readNumber_toDigits` — the decimal digits of a 64-bit number are read as that number.
-/

namespace ViewSync.Json

/-! ## what a reader takes -/

/-- Whether a number could go on with a character. -/
def continuesNumber (c : Char) : Bool :=
  c.isDigit || c == '.' || c == 'e' || c == 'E'

/-- What may stand behind a value: nothing, or a character with which no number goes on. -/
def Ends (rest : List Char) : Prop :=
  ∀ c cs, rest = c :: cs → continuesNumber c = false

theorem ends_nil : Ends [] := nofun

theorem ends_cons {c : Char} {cs : List Char} (h : continuesNumber c = false) : Ends (c :: cs) := by
  intro d ds heq
  cases heq
  exact h

theorem continuesNumber_of_isSpace {c : Char} (h : Input.isSpace c = true) : continuesNumber c = false := by
  simp only [Input.isSpace, Bool.or_eq_true, beq_iff_eq] at h
  obtain ((rfl | rfl) | rfl) | rfl := h <;> rfl

/-- White space ends a value, and so does what ends a value behind white space. -/
theorem Blank.ends {space rest : List Char} (h : Blank space) (ends : Ends rest) : Ends (space ++ rest) := by
  cases space with
  | nil => exact ends
  | cons c space => exact ends_cons (continuesNumber_of_isSpace (h c List.mem_cons_self))

/-- The reader takes the characters of a text, and nothing behind them, for a value. -/
def Takes {α : Type} (read : Input → Read α) (text : List Char) (a : α) : Prop :=
  ∀ inp rest, inp.rest = text ++ rest → Ends rest → ∃ next, read inp = .ok (a, next) ∧ next.rest = rest

/-- There is no white space to skip in front of another character. -/
theorem skipSpace_of_cons {inp : Input} {c : Char} {cs : List Char} (h : inp.rest = c :: cs)
    (hc : Input.isSpace c = false) : inp.skipSpace = inp := by
  simp [Input.skipSpace, h, hc, Input.advance]

theorem skipSpace_of_nil {inp : Input} (h : inp.rest = []) : inp.skipSpace = inp := by
  simp [Input.skipSpace, h, Input.advance]

/-! ## digits -/

theorem not_continues {c : Char} (h : continuesNumber c = false) :
    c.isDigit = false ∧ c ≠ '.' ∧ c ≠ 'e' ∧ c ≠ 'E' := by
  simpa [continuesNumber, and_assoc] using h

theorem ne_of_isDigit {c d : Char} (hc : c.isDigit = true) (hd : d.isDigit = false) : c ≠ d := by
  rintro rfl
  rw [hc] at hd
  cases hd

theorem isSpace_of_isDigit {c : Char} (h : c.isDigit = true) : Input.isSpace c = false := by
  simp [Input.isSpace, ne_of_isDigit h (d := ' ') rfl, ne_of_isDigit h (d := '\n') rfl,
    ne_of_isDigit h (d := '\t') rfl, ne_of_isDigit h (d := '\r') rfl]

/-- A text with which no row of digits goes on. -/
def EndsDigits (rest : List Char) : Prop :=
  ∀ c cs, rest = c :: cs → c.isDigit = false

theorem Ends.digits {rest : List Char} (ends : Ends rest) : EndsDigits rest :=
  fun c cs h => (not_continues (ends c cs h)).1

theorem endsDigits_cons {c : Char} (h : c.isDigit = false) (cs : List Char) : EndsDigits (c :: cs) := by
  rintro d ds ⟨⟩
  exact h

theorem IsDigits.exists_cons {cs : List Char} (h : IsDigits cs) : ∃ c tail, cs = c :: tail ∧ c.isDigit = true := by
  obtain ⟨c, tail, rfl⟩ := List.exists_cons_of_ne_nil h.1
  exact ⟨c, tail, rfl, h.2 c List.mem_cons_self⟩

/-- Digits go up to the first character that is none. -/
theorem digitsAhead_eq {inp : Input} {cs rest : List Char} (hcs : IsDigits cs) (h : inp.rest = cs ++ rest)
    (hrest : EndsDigits rest) : digitsAhead inp = cs := by
  have hnone : rest.takeWhile Char.isDigit = [] := by
    cases rest with
    | nil => rfl
    | cons c rest => rw [List.takeWhile_cons, hrest c rest rfl]; rfl
  rw [digitsAhead, h, List.takeWhile_append_of_pos hcs.2, hnone, List.append_nil]

theorem atDigit_eq_false {inp : Input} (h : EndsDigits inp.rest) : inp.atDigit = false := by
  rw [Input.atDigit]
  split
  · next c cs hcons => exact h c cs hcons
  · rfl

/-! ## the parts of a number -/

section

variable {negative : Bool} {significand : Nat} {power : Int} {v : Json}

theorem finishFloat_eq (h : (scale? significand power).map (signed negative) = some v) (inp : Input) :
    finishFloat negative significand power inp = .ok (v, inp) := by
  obtain ⟨x, hx, rfl⟩ := Option.map_eq_some_iff.1 h
  simp only [finishFloat, hx]

theorem exponentSign_eq (e : Exponent) {inp : Input} {rest : List Char} (hinp : inp.rest = e.tail ++ rest) :
    ∃ start, exponentSign inp = (decide (e.sign = some '-'), start) ∧ start.rest = e.digits ++ rest := by
  obtain ⟨c, digits, hcons, hdigit⟩ := e.isDigits.exists_cons
  rw [Exponent.tail] at hinp
  obtain hnone | hplus | hminus := e.sign_eq
  · have hne : ∀ d : Char, d.isDigit = false → c ≠ d := fun d => ne_of_isDigit hdigit
    refine ⟨inp, ?_, by simpa [hnone] using hinp⟩
    simp [exponentSign, hinp, hnone, hcons, hne '+' rfl, hne '-' rfl]
  · refine ⟨inp.advance 1, ?_, by simp [hinp, hplus]⟩
    simp [exponentSign, hinp, hplus]
  · refine ⟨inp.advance 1, ?_, by simp [hinp, hminus]⟩
    simp [exponentSign, hinp, hminus]

/-- What stands behind the mark of an exponent is read for what the exponent makes of a number. -/
theorem takes_exponent (e : Exponent) (h : e.value? negative significand power = some v) :
    Takes (readExponent negative significand power) e.tail v := by
  intro inp rest hinp ends
  obtain ⟨start, hsign, hstart⟩ := exponentSign_eq e hinp
  obtain ⟨c, digits, hcons, hdigit⟩ := e.isDigits.exists_cons
  have hahead := digitsAhead_eq e.isDigits hstart ends.digits
  have hfirst : start.rest = c :: (digits ++ rest) := by rw [hstart, hcons, List.cons_append]
  refine ⟨start.advance e.digits.length, ?_, by simp [hstart]⟩
  simp only [readExponent, hsign, hfirst, hdigit, hahead, Bool.not_true, Bool.false_eq_true, if_false]
  rw [Exponent.value?] at h
  cases hover : exponentOverflow? 0 0 e.digits with
  | some taken =>
      simp only [hover, Option.ite_none_left_eq_some, Option.some.injEq] at h
      obtain ⟨hsmall, rfl⟩ := h
      simp [hsmall]
  | none =>
      simp only [hover] at h
      simpa using finishFloat_eq h _

/-- An exponent that may be left out is read for what it makes of a number. -/
theorem takes_tail (exponent : Option Exponent) (h : Numeral.double? negative significand power exponent = some v) :
    Takes (readTail negative significand power) (Numeral.exponentText exponent) v := by
  intro inp rest hinp ends
  cases exponent with
  | none =>
      refine ⟨inp, ?_, hinp⟩
      have hfinish := finishFloat_eq h inp
      cases rest with
      | nil => simpa [readTail, hinp, Numeral.exponentText] using hfinish
      | cons c rest =>
          obtain ⟨-, -, hsmall, hgreat⟩ := not_continues (ends c rest rfl)
          simpa [readTail, hinp, Numeral.exponentText, hsmall, hgreat] using hfinish
  | some e =>
      have hbehind : (inp.advance 1).rest = e.tail ++ rest := by simp [hinp, Numeral.exponentText]
      obtain ⟨next, hread, hnext⟩ := takes_exponent e h _ rest hbehind ends
      refine ⟨next, ?_, hnext⟩
      obtain hmark | hmark := e.mark_eq <;> simpa [readTail, hinp, Numeral.exponentText, hmark] using hread

theorem endsDigits_exponentText (exponent : Option Exponent) {rest : List Char} (ends : Ends rest) :
    EndsDigits (Numeral.exponentText exponent ++ rest) := by
  cases exponent with
  | none => exact ends.digits
  | some e =>
      have hmark : e.mark.isDigit = false := by
        obtain h | h := e.mark_eq <;> rw [h] <;> rfl
      exact endsDigits_cons hmark _

/-- The digits behind a point are read for what they make of a number, with the exponent behind them. -/
theorem takes_fraction {run : List Char} (hrun : IsDigits run) (exponent : Option Exponent) {front : Nat}
    (h : Numeral.double? negative (absorb front run).1 (power - (absorb front run).2) exponent = some v) :
    Takes (readFraction negative front power) (run ++ Numeral.exponentText exponent) v := by
  intro inp rest hinp ends
  rw [List.append_assoc] at hinp
  have hahead := digitsAhead_eq hrun hinp (endsDigits_exponentText exponent ends)
  have hbehind : (inp.advance run.length).rest = Numeral.exponentText exponent ++ rest := by simp [hinp]
  obtain ⟨next, hread, hnext⟩ := takes_tail exponent h _ rest hbehind ends
  refine ⟨next, ?_, hnext⟩
  have hsome : run.isEmpty = false := List.isEmpty_eq_false_iff.2 hrun.1
  simpa [readFraction, hahead, hsome] using hread

theorem endsDigits_fractionText (fraction : Option (List Char)) (exponent : Option Exponent) {rest : List Char}
    (ends : Ends rest) : EndsDigits (Numeral.fractionText fraction ++ Numeral.exponentText exponent ++ rest) := by
  cases fraction with
  | none => exact endsDigits_exponentText exponent ends
  | some run => exact endsDigits_cons rfl _

/-- What stands behind the first digits of a number is read for what it makes of them. -/
theorem takes_behind {fraction : Option (List Char)} (hfraction : ∀ run, fraction = some run → IsDigits run)
    (exponent : Option Exponent) (h : Numeral.valueBehind? negative significand power fraction exponent = some v) :
    Takes (readBehind negative significand power)
      (Numeral.fractionText fraction ++ Numeral.exponentText exponent) v := by
  intro inp rest hinp ends
  match fraction, exponent with
  | none, none =>
      refine ⟨inp, ?_, hinp⟩
      have hend : (if power = 0 then .ok (whole negative significand, inp)
          else finishFloat negative significand power inp) = .ok (v, inp) := by
        rw [Numeral.valueBehind?] at h
        split at h
        · next hpower => rw [if_pos hpower, Option.some.inj h]
        · next hpower => rw [if_neg hpower, finishFloat_eq h]
      cases rest with
      | nil => simpa [readBehind, hinp, Numeral.fractionText, Numeral.exponentText] using hend
      | cons c rest =>
          obtain ⟨-, hpoint, hsmall, hgreat⟩ := not_continues (ends c rest rfl)
          simpa [readBehind, hinp, Numeral.fractionText, Numeral.exponentText, hpoint, hsmall, hgreat] using hend
  | none, some e =>
      have hbehind : (inp.advance 1).rest = e.tail ++ rest := by
        simp [hinp, Numeral.fractionText, Numeral.exponentText]
      obtain ⟨next, hread, hnext⟩ := takes_exponent e h _ rest hbehind ends
      refine ⟨next, ?_, hnext⟩
      obtain hmark | hmark := e.mark_eq <;>
        simpa [readBehind, hinp, Numeral.fractionText, Numeral.exponentText, hmark] using hread
  | some run, exponent =>
      have hbehind : (inp.advance 1).rest = run ++ Numeral.exponentText exponent ++ rest := by
        simp [hinp, Numeral.fractionText]
      obtain ⟨next, hread, hnext⟩ := takes_fraction (hfraction run rfl) exponent h _ rest hbehind ends
      refine ⟨next, ?_, hnext⟩
      simpa [readBehind, hinp, Numeral.fractionText] using hread

end

/-! ## numbers -/

theorem Numeral.unsigned_eq_cons (n : Numeral) : ∃ c cs, n.unsigned = c :: cs ∧ c.isDigit = true := by
  obtain ⟨c, digits, hcons, hdigit⟩ := n.isDigits.exists_cons
  exact ⟨c, _, by rw [unsigned, hcons, List.cons_append], hdigit⟩

/-- The digits of a number, with the fraction and the exponent behind them, are read for its value. -/
theorem takes_number (n : Numeral) {v : Json} (h : n.value? = some v) :
    Takes (readNumber n.negative) n.unsigned v := by
  intro inp rest hinp ends
  obtain ⟨c, digits, hcons, hdigit⟩ := n.isDigits.exists_cons
  rw [Numeral.unsigned, List.append_assoc] at hinp
  have hend := endsDigits_fractionText n.fraction n.exponent ends
  have hahead := digitsAhead_eq n.isDigits hinp hend
  have hfirst : inp.rest =
      c :: (digits ++ (Numeral.fractionText n.fraction ++ Numeral.exponentText n.exponent ++ rest)) := by
    rw [hinp, hcons, List.cons_append]
  have hzero : ¬ (c = '0' ∧ (inp.advance 1).atDigit = true) := by
    rintro ⟨rfl, hnext⟩
    obtain ⟨-, rfl⟩ := List.cons.inj (hcons.symm.trans (n.zero_alone (by rw [hcons]; rfl)))
    rw [atDigit_eq_false (by simpa [hfirst] using hend)] at hnext
    cases hnext
  have hbehind : (inp.advance n.digits.length).rest =
      Numeral.fractionText n.fraction ++ Numeral.exponentText n.exponent ++ rest := by simp [hinp]
  obtain ⟨next, hread, hnext⟩ := takes_behind n.fraction_isDigits n.exponent h _ rest hbehind ends
  exact ⟨next, by simpa [readNumber, hfirst, hdigit, hahead, hzero] using hread, hnext⟩

/-! ## whole numbers -/

theorem le_ofDigitChars (cs : List Char) (n : Nat) : n ≤ Nat.ofDigitChars 10 cs n := by
  induction cs generalizing n with
  | nil => exact Nat.le_refl n
  | cons c cs ih =>
      rw [Nat.ofDigitChars_cons]
      exact Nat.le_trans (by omega) (ih _)

/-- Digits of a number of 64 bits are all taken. -/
theorem absorb_eq {cs : List Char} {n : Nat} (h : Nat.ofDigitChars 10 cs n ≤ Decimal.maxNat64) :
    absorb n cs = (Nat.ofDigitChars 10 cs n, cs.length) := by
  induction cs generalizing n with
  | nil => rfl
  | cons c cs ih =>
      rw [Nat.ofDigitChars_cons, Nat.mul_comm] at h ⊢
      have hfits := Nat.le_trans (le_ofDigitChars cs _) h
      rw [absorb, if_neg (Nat.not_lt.2 hfits), ih h]
      rfl

theorem isDigits_toDigits (n : Nat) : IsDigits (Nat.toDigits 10 n) :=
  ⟨Nat.toDigits_ne_nil, fun _ hc => Nat.isDigit_of_mem_toDigits (by decide) (by decide) hc⟩

/-- Only zero is written with a zero in front. -/
theorem toDigits_of_zero_cons {n : Nat} {cs : List Char} (h : Nat.toDigits 10 n = '0' :: cs) :
    cs = [] := by
  suffices hzero : n = 0 by
    subst hzero
    exact (List.cons.inj h).2.symm
  induction n using Nat.strongRecOn generalizing cs with
  | ind n ih =>
      obtain hlt | hle := Nat.lt_or_ge n 10
      · rw [Nat.toDigits_of_lt_base hlt] at h
        have hchar := Nat.toNat_digitChar_of_lt_ten hlt
        rw [(List.cons.inj h).1] at hchar
        simpa using hchar.symm
      · rw [Nat.toDigits_of_base_le (by decide) hle] at h
        obtain ⟨d, ds, hds, -⟩ := (isDigits_toDigits (n / 10)).exists_cons
        rw [hds, List.cons_append] at h
        have hzero := ih (n / 10) (by omega) ((List.cons.inj h).1 ▸ hds)
        omega

/-- A whole number in its decimal digits. -/
def Numeral.ofNat (negative : Bool) (n : Nat) : Numeral where
  negative := negative
  digits := Nat.toDigits 10 n
  fraction := none
  exponent := none
  isDigits := isDigits_toDigits n
  zero_alone h := by
    obtain ⟨cs, hcons⟩ := List.head?_eq_some_iff.1 h
    rw [hcons, toDigits_of_zero_cons hcons]
  fraction_isDigits := nofun

theorem Numeral.value?_ofNat {n : Nat} (h : n ≤ Decimal.maxNat64) (negative : Bool) :
    (Numeral.ofNat negative n).value? = some (whole negative n) := by
  have habsorb : absorb 0 (Nat.toDigits 10 n) = (n, (Nat.toDigits 10 n).length) := by
    rw [absorb_eq (by rwa [Nat.ofDigitChars_ten_toDigits]), Nat.ofDigitChars_ten_toDigits]
  simp [value?, ofNat, habsorb, valueBehind?]

/-- A whole number with its sign. -/
def Numeral.ofInt : Int → Numeral
  | .ofNat n => .ofNat false n
  | .negSucc n => .ofNat true (n + 1)

theorem Numeral.unsigned_ofNat (negative : Bool) (n : Nat) : (ofNat negative n).unsigned = Nat.toDigits 10 n := by
  simp [unsigned, ofNat, fractionText, exponentText]

theorem toList_repr (n : Nat) : n.repr.toList = Nat.toDigits 10 n := by
  rw [Nat.repr_eq_ofList_toDigits, String.toList_ofList]

/-- A whole number is written as its sign and its digits. -/
theorem Numeral.text_ofInt (n : Int) : (ofInt n).text = (toString n).toList := by
  cases n with
  | ofNat n => exact (unsigned_ofNat false n).trans (toList_repr n).symm
  | negSucc n =>
      have htext : toString (Int.negSucc n) = "-" ++ (n + 1).repr := rfl
      rw [htext, String.toList_append, toList_repr]
      exact congrArg (List.cons '-') (unsigned_ofNat true (n + 1))

/-- A whole number of 64 bits is its own value. -/
theorem Numeral.value?_ofInt {n : Int} (h : Fits64 n) : (ofInt n).value? = some (.int n) := by
  obtain ⟨hlow, hhigh⟩ := h
  cases n with
  | ofNat n => exact value?_ofNat (by simpa using hhigh) false
  | negSucc n =>
      have hfits : n + 1 ≤ 0x8000000000000000 := by omega
      have hwhole : whole true (n + 1) = .int (.negSucc n) := by
        rw [whole, if_neg (by decide), if_pos ⟨Nat.succ_pos n, hfits⟩]
        rfl
      rw [ofInt, value?_ofNat (Nat.le_trans hfits (by decide)), hwhole]

/-- The decimal digits of a number of 64 bits are read as that number, with the sign that was read. -/
theorem readNumber_toDigits {n : Nat} (h : n ≤ Decimal.maxNat64) (negative : Bool) :
    Takes (readNumber negative) (Nat.toDigits 10 n) (whole negative n) :=
  Numeral.unsigned_ofNat negative n ▸ takes_number (.ofNat negative n) (Numeral.value?_ofNat h negative)

end ViewSync.Json
