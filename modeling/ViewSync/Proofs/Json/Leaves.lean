import Mathlib.Tactic.SplitIfs
import ViewSync.Json.Reader
import ViewSync.Proofs.Json.Numerals

/-!
# ViewSync.Proofs.Json.Leaves

Strings, numbers and the words `null`, `true` and `false` are read from each of their texts.

* `readString_spells` — every literal of a string is read as that string, whatever its characters;
* `takes_numeral` — every number is read for its value, whole numbers of 64 bits among them;
* `takes_scalar` — values without parts are read from their texts.
-/

namespace ViewSync

namespace Text

/-! ## hexadecimal digits -/

theorem hexValue?_digitChar : ∀ d < 16, hexValue? (Nat.digitChar d) = some d := by
  decide

@[simp] theorem length_hexDigits (width n : Nat) : (hexDigits width n).length = width := by
  induction width generalizing n with
  | zero => rfl
  | succ width ih => simp [hexDigits, ih]

theorem isHexDigit_of_mem_hexDigits {width n : Nat} {c : Char} (h : c ∈ hexDigits width n) :
    isHexDigit c = true := by
  induction width generalizing n with
  | zero => cases h
  | succ width ih =>
      rw [hexDigits, List.mem_append, List.mem_singleton] at h
      obtain h | rfl := h
      · exact ih h
      · simp [isHexDigit, hexValue?_digitChar _ (Nat.mod_lt n (by decide))]

theorem ofHexDigits_hexDigits (width n : Nat) :
    ofHexDigits (hexDigits width n) = n % Nat.pow 16 width := by
  rw [Nat.pow_eq]
  induction width generalizing n with
  | zero => simp [hexDigits, ofHexDigits, Nat.mod_one]
  | succ width ih =>
      have hfront := ih (n / 16)
      have hlast := hexValue?_digitChar _ (Nat.mod_lt n (by decide : 16 > 0))
      simp only [ofHexDigits, hexDigits, List.foldl_append, List.foldl_cons, List.foldl_nil] at hfront ⊢
      rw [hfront, hlast, Option.getD_some, Nat.pow_succ', Nat.mod_mul]
      omega

end Text

namespace Json

/-! ## strings -/

theorem hexUnit_hexDigits {n : Nat} (h : n < 0x10000) : HexUnit (Text.hexDigits 4 n) n where
  length := Text.length_hexDigits 4 n
  hex := List.all_eq_true.2 fun _ hc => Text.isHexDigit_of_mem_hexDigits hc
  value := by rw [Text.ofHexDigits_hexDigits, Nat.mod_eq_of_lt h]

theorem HexUnit.readUnit {digits rest : List Char} {n : Nat} (h : HexUnit digits n) {inp : Input}
    (hinp : inp.rest = digits ++ rest) : readUnit inp = .ok n := by
  rw [Json.readUnit, hinp, Text.readHex?, List.take_left' h.length, if_pos ⟨h.length, h.hex⟩, h.value]

theorem HexUnit.rest_advance {digits rest : List Char} {n : Nat} (h : HexUnit digits n) {inp : Input}
    (hinp : inp.rest = digits ++ rest) (k : Nat) : (inp.advance (4 + k)).rest = rest.drop k := by
  rw [Input.rest_advance, hinp, ← List.drop_drop, List.drop_left' h.length]

theorem expectUnitMark_of_cons {c : Char} {cs : List Char} {inp : Input} (h : inp.rest = c :: cs) :
    expectUnitMark c inp = .ok () := by
  simp [expectUnitMark, h]

/-- The number of a character is no half of a pair. -/
theorem isLeading_toNat (c : Char) : isLeading c.toNat = false ∧ isTrailing c.toNat = false := by
  have hvalid : c.toNat < 0xd800 ∨ 0xdfff < c.toNat ∧ c.toNat < 0x110000 := c.valid
  simp only [isLeading, isTrailing, Bool.and_eq_false_iff, decide_eq_false_iff_not]
  omega

/-- A character is read from its number. -/
theorem readNumbered_unit {c : Char} {digits rest : List Char} (h : HexUnit digits c.toNat) {inp : Input}
    (hinp : inp.rest = digits ++ rest) : readNumbered inp = .ok (c, 4) := by
  obtain ⟨hleading, htrailing⟩ := isLeading_toNat c
  simp [readNumbered, h.readUnit hinp, htrailing, hleading, bind, Except.bind, Char.ofNat_toNat]

/-- A character is read from the two numbers of its pair. -/
theorem readNumbered_pair {c : Char} {high low rest : List Char} {m n : Nat} (hhigh : HexUnit high m)
    (hlow : HexUnit low n) (hm : 0xd800 ≤ m ∧ m ≤ 0xdbff) (hn : 0xdc00 ≤ n ∧ n ≤ 0xdfff)
    (hc : c.toNat = 0x10000 + (m - 0xd800) * 0x400 + (n - 0xdc00)) {inp : Input}
    (hinp : inp.rest = high ++ '\\' :: 'u' :: (low ++ rest)) : readNumbered inp = .ok (c, 10) := by
  have hm' : isTrailing m = false ∧ isLeading m = true := by
    simp only [isTrailing, isLeading, Bool.and_eq_false_iff, Bool.and_eq_true, decide_eq_false_iff_not,
      decide_eq_true_eq]
    omega
  have hn' : isTrailing n = true := by simp only [isTrailing, Bool.and_eq_true, decide_eq_true_eq]; omega
  have hslash := expectUnitMark_of_cons (hhigh.rest_advance hinp 0)
  have hmark := expectUnitMark_of_cons (hhigh.rest_advance hinp 1)
  have hsecond := hlow.readUnit (hhigh.rest_advance hinp 2)
  have hjoin : joinUnits m n = c := by rw [joinUnits, ← hc, Char.ofNat_toNat]
  simp [readNumbered, hhigh.readUnit hinp, hm', hslash, hmark, hsecond, hn', hjoin, bind, Except.bind]

/-- A character stands for itself in a string, or is read from its escape. -/
theorem SpellsChar.cases {c : Char} {text : List Char} (h : SpellsChar c text) :
    (text = [c] ∧ c ≠ '"' ∧ c ≠ '\\' ∧ ¬ c.toNat < 0x20) ∨
      ∃ tail, text = '\\' :: tail ∧
        ∀ inp rest, inp.rest = tail ++ rest → readEscape inp = .ok (c, tail.length) := by
  cases h with
  | plain hquote hslash hcontrol => exact .inl ⟨rfl, hquote, hslash, hcontrol⟩
  | @mark m h =>
      refine .inr ⟨[m], rfl, fun inp rest hinp => ?_⟩
      simp only [marks, List.mem_cons, Prod.mk.injEq, List.not_mem_nil, or_false] at h
      obtain ⟨rfl, rfl⟩ | ⟨rfl, rfl⟩ | ⟨rfl, rfl⟩ | ⟨rfl, rfl⟩ | ⟨rfl, rfl⟩ | ⟨rfl, rfl⟩ | ⟨rfl, rfl⟩ |
        ⟨rfl, rfl⟩ := h <;>
        simp [readEscape, hinp]
  | @unit digits h =>
      refine .inr ⟨'u' :: digits, rfl, fun inp rest hinp => ?_⟩
      have hbehind : (inp.advance 1).rest = digits ++ rest := by simp [hinp]
      simp [readEscape, hinp, readNumbered_unit h hbehind, h.length, Except.map]
  | @pair high low m n hhigh hlow hm hn hc =>
      refine .inr ⟨'u' :: (high ++ '\\' :: 'u' :: low), rfl, fun inp rest hinp => ?_⟩
      have hbehind : (inp.advance 1).rest = high ++ '\\' :: 'u' :: (low ++ rest) := by simp [hinp]
      simp [readEscape, hinp, readNumbered_pair hhigh hlow hm hn hc hbehind, hhigh.length, hlow.length, Except.map]

/-- The writer's choice. -/
theorem spellsChar_escapeChar (c : Char) : SpellsChar c (escapeChar c) := by
  unfold escapeChar
  split_ifs with hquote hslash hback hfeed hline hreturn htab hcontrol
  all_goals try subst c
  iterate 7 exact .mark (by decide)
  · exact .unit (hexUnit_hexDigits (by omega))
  · exact .plain hquote hslash hcontrol

theorem readChars_quote {inp : Input} {rest : List Char} (h : inp.rest = '"' :: rest) :
    readChars inp = .ok ([], inp.advance 1) := by
  rw [readChars]
  split
  · next hnil => simp [h] at hnil
  · next c cs hcons =>
    obtain ⟨rfl, -⟩ : '"' = c ∧ rest = cs := by simpa [h] using hcons
    rfl

/-- A character that needs no escape. -/
theorem readChars_plain {inp : Input} {c : Char} {rest : List Char} (h : inp.rest = c :: rest)
    (hquote : c ≠ '"') (hslash : c ≠ '\\') (hcontrol : ¬ c.toNat < 0x20) :
    readChars inp = (readChars (inp.advance 1)).map fun (cs, next) => (c :: cs, next) := by
  rw [readChars]
  split
  · next hnil => simp [h] at hnil
  · next d ds hcons =>
    obtain ⟨rfl, -⟩ : c = d ∧ rest = ds := by simpa [h] using hcons
    rw [if_neg hquote, if_neg hslash, if_neg hcontrol]

/-- An escape. -/
theorem readChars_escape {inp : Input} {c : Char} {n : Nat} {rest : List Char}
    (h : inp.rest = '\\' :: rest) (hescape : readEscape (inp.advance 1) = .ok (c, n)) :
    readChars inp = (readChars (inp.advance (1 + n))).map fun (cs, next) => (c :: cs, next) := by
  rw [readChars]
  split
  · next hnil => simp [h] at hnil
  · next d ds hcons =>
    obtain ⟨rfl, -⟩ : '\\' = d ∧ rest = ds := by simpa [h] using hcons
    simp [hescape]

/-- The characters of a string are read from each of their texts. -/
theorem readChars_spells {cs text : List Char} (h : SpellsChars cs text) {inp : Input} {rest : List Char}
    (hinp : inp.rest = text ++ '"' :: rest) : ∃ next, readChars inp = .ok (cs, next) ∧ next.rest = rest := by
  induction h generalizing inp with
  | nil => exact ⟨inp.advance 1, readChars_quote hinp, by simp [hinp]⟩
  | @cons c cs text texts hchar _ ih =>
      rw [List.append_assoc] at hinp
      obtain ⟨rfl, hquote, hslash, hcontrol⟩ | ⟨tail, rfl, hescape⟩ := hchar.cases
      · have hbehind : (inp.advance 1).rest = texts ++ '"' :: rest := by simp [hinp]
        obtain ⟨next, hread, hnext⟩ := ih hbehind
        refine ⟨next, ?_, hnext⟩
        rw [readChars_plain hinp hquote hslash hcontrol, hread]
        rfl
      · rw [List.cons_append] at hinp
        have hbehind : (inp.advance (1 + tail.length)).rest = texts ++ '"' :: rest := by
          simp [hinp, Nat.add_comm]
        obtain ⟨next, hread, hnext⟩ := ih hbehind
        refine ⟨next, ?_, hnext⟩
        rw [readChars_escape hinp (hescape (inp.advance 1) _ (by simp [hinp]; rfl)), hread]
        rfl

/-- A string literal starts with a quote, and behind that it is read as its string. -/
theorem readString_spells {s : String} {text : List Char} (h : SpellsText s text) {inp : Input} {rest : List Char}
    (hinp : inp.rest = text ++ rest) : ∃ cs, inp.rest = '"' :: cs ∧
      ∃ next, readString (inp.advance 1) = .ok (s, next) ∧ next.rest = rest := by
  obtain ⟨body, hbody, rfl⟩ := h
  have hbehind : (inp.advance 1).rest = body ++ '"' :: rest := by simp [hinp]
  obtain ⟨next, hread, hnext⟩ := readChars_spells hbody hbehind
  refine ⟨body ++ '"' :: rest, by simp [hinp], next, ?_, hnext⟩
  rw [readString, hread]
  simp [Except.map]

theorem spellsText_quote (s : String) : SpellsText s (quote s).toList := by
  have hchars : ∀ cs : List Char, SpellsChars cs (cs.flatMap escapeChar) := by
    intro cs
    induction cs with
    | nil => exact .nil
    | cons c cs ih => exact .cons (spellsChar_escapeChar c) ih
  exact ⟨_, hchars s.toList, by simp [quote]⟩

/-! ## values without parts -/

section

variable {nested : Option (Input → Read Json)}

/-- A value that is no array and no object is read without regard to what these may hold. -/
theorem readWith_of_scalar {inp : Input} {c : Char} {cs : List Char} {result : Read Json}
    (h : inp.rest = c :: cs) (hspace : Input.isSpace c = false)
    (hscalar : readScalar? .exact inp = some result) : readWith .exact nested inp = result := by
  simp only [readWith, skipSpace_of_cons h hspace, hscalar]

theorem readIdent_append (cs : List Char) {inp : Input} {rest : List Char} (h : inp.rest = cs ++ rest) :
    ∃ next, readIdent cs inp = .ok next ∧ next.rest = rest := by
  induction cs generalizing inp with
  | nil => exact ⟨inp, rfl, h⟩
  | cons c cs ih =>
      have hbehind : (inp.advance 1).rest = cs ++ rest := by simp [h]
      obtain ⟨next, hread, hnext⟩ := ih hbehind
      exact ⟨next, by simp [readIdent, h, hread], hnext⟩

/-- The letters of a word are read for its value. -/
theorem takes_word (c : Char) (cs : List Char) {v : Json} (hspace : Input.isSpace c = false)
    (hscalar : ∀ inp ds, inp.rest = c :: ds → readScalar? .exact inp =
      some ((readIdent cs (inp.advance 1)).map fun next => (v, next))) :
    Takes (readWith .exact nested) (c :: cs) v := by
  intro inp rest h _
  have hbehind : (inp.advance 1).rest = cs ++ rest := by simp [h]
  obtain ⟨next, hread, hnext⟩ := readIdent_append cs hbehind
  refine ⟨next, ?_, hnext⟩
  rw [readWith_of_scalar h hspace (hscalar inp _ h), hread]
  rfl

theorem takes_null : Takes (readWith .exact nested) "null".toList .null := by
  refine takes_word 'n' ['u', 'l', 'l'] rfl fun inp ds h => ?_
  simp [readScalar?, h]

theorem takes_bool (value : Bool) : Takes (readWith .exact nested) (toString value).toList (.bool value) := by
  cases value with
  | true =>
      refine takes_word 't' ['r', 'u', 'e'] rfl fun inp ds h => ?_
      simp [readScalar?, h]
  | false =>
      refine takes_word 'f' ['a', 'l', 's', 'e'] rfl fun inp ds h => ?_
      simp [readScalar?, h]

theorem takes_str {s : String} {text : List Char} (h : SpellsText s text) :
    Takes (readWith .exact nested) text (.str s) := by
  intro inp rest hinp _
  obtain ⟨cs, hfirst, next, hread, hnext⟩ := readString_spells h hinp
  refine ⟨next, ?_, hnext⟩
  refine readWith_of_scalar hfirst rfl ?_
  simp [readScalar?, hfirst, Leaves.exact, hread, Except.map]

/-- A number is read for its value. -/
theorem takes_numeral (n : Numeral) {v : Json} (h : n.value? = some v) :
    Takes (readWith .exact nested) n.text v := by
  intro inp rest hinp ends
  cases hsign : n.negative with
  | true =>
      have hminus : inp.rest = '-' :: (n.unsigned ++ rest) := by simpa [Numeral.text, hsign] using hinp
      obtain ⟨next, hread, hnext⟩ := takes_number n h (inp.advance 1) rest (by simp [hminus]) ends
      refine ⟨next, readWith_of_scalar hminus rfl ?_, hnext⟩
      simp [readScalar?, hminus, Leaves.exact, ← hsign, hread]
  | false =>
      have hplain : inp.rest = n.unsigned ++ rest := by simpa [Numeral.text, hsign] using hinp
      obtain ⟨next, hread, hnext⟩ := takes_number n h inp rest hplain ends
      obtain ⟨c, cs, hcons, hdigit⟩ := n.unsigned_eq_cons
      have hne : ∀ d : Char, d.isDigit = false → c ≠ d := fun d => ne_of_isDigit hdigit
      rw [hcons, List.cons_append] at hplain
      refine ⟨next, readWith_of_scalar hplain (isSpace_of_isDigit hdigit) ?_, hnext⟩
      simp [readScalar?, hplain, hne 'n' rfl, hne 't' rfl, hne 'f' rfl, hne '-' rfl, hdigit, Leaves.exact, ← hsign,
        hread]

/-- A value without parts is read from its texts, whatever arrays and objects may hold. -/
theorem takes_scalar {v : Json} {text : List Char} (h : SpellsScalar v text) (nested : Option (Input → Read Json)) :
    Takes (readWith .exact nested) text v := by
  cases h with
  | null => exact takes_null
  | bool value => exact takes_bool value
  | int h => exact Numeral.text_ofInt _ ▸ takes_numeral _ (Numeral.value?_ofInt h)
  | float h => exact takes_numeral _ h
  | str h => exact takes_str h

end

end Json

end ViewSync
