import Mathlib
import ViewSync.Proofs.Json.Leaves
import ViewSync.Proofs.Token.Lexical
import ViewSync.Script.Render

/-!
# ViewSync.Proofs.Script.Lexemes

JavaScript text taken apart. `lexemes` reads words, numbers, string literals and marks, each as long as it goes. A
leaf of an expression (`IsLeaf`) is read as one lexeme, whatever follows it that may stand behind an expression.
-/

namespace ViewSync.Script

/-! ## lexemes of JavaScript -/

inductive LexemeKind where
  | word
  | number
  | string
  | mark
deriving DecidableEq, Repr

/-- A piece of JavaScript text that has no parts. -/
structure Lexeme where
  kind : LexemeKind
  text : List Char
deriving DecidableEq, Repr

/-- Letters that a word may start with, as far as they are ASCII. -/
def isWordStart (c : Char) : Bool :=
  isNameStart c || c == '$'

/-- Characters that a word may go on with, as far as they are ASCII. -/
def isWordPart (c : Char) : Bool :=
  isNamePart c || c == '$'

/-- The marks of JavaScript, longer ones in front, and those that start a comment. -/
def marks : List (List Char) :=
  [['>', '>', '>', '='],
   ['.', '.', '.'], ['=', '=', '='], ['!', '=', '='], ['*', '*', '='], ['<', '<', '='], ['>', '>', '='],
   ['>', '>', '>'], ['&', '&', '='], ['|', '|', '='], ['?', '?', '='],
   ['=', '>'], ['=', '='], ['!', '='], ['<', '='], ['>', '='], ['&', '&'], ['|', '|'], ['?', '?'], ['?', '.'],
   ['+', '+'], ['-', '-'], ['+', '='], ['-', '='], ['*', '='], ['/', '='], ['%', '='], ['&', '='], ['|', '='],
   ['^', '='], ['<', '<'], ['>', '>'], ['*', '*'], ['/', '/'], ['/', '*'],
   ['\x7b'], ['\x7d'], ['('], [')'], ['['], [']'], ['.'], [';'], [','], ['<'], ['>'], ['+'], ['-'], ['*'], ['/'],
   ['%'], ['&'], ['|'], ['^'], ['!'], ['~'], ['?'], [':'], ['=']]

/-- The length of a number: digits, and a point with the digits behind it. A point in front of a word starts an
access to a member. -/
def numberSize (cs : List Char) : Nat :=
  let whole := (cs.takeWhile Char.isDigit).length
  match cs.drop whole with
  | '.' :: tail =>
    if tail.head?.any isWordStart then whole else whole + 1 + (tail.takeWhile Char.isDigit).length
  | _ => whole

/-- The length of what is left of a string literal, its closing quote included. -/
def stringSize : List Char → Option Nat
  | [] => none
  | '"' :: _ => some 1
  | '\\' :: c :: cs => if c = '\n' then none else (stringSize cs).map (· + 2)
  | c :: cs => if c = '\n' ∨ c = '\r' then none else (stringSize cs).map (· + 1)

/-- The lexeme at the start of a text, by its kind and its length. A number must not run into a word. -/
def lexemeAt? (cs : List Char) : Option (LexemeKind × Nat) :=
  match cs with
  | [] => none
  | c :: tail =>
    if isWordStart c then some (.word, (cs.takeWhile isWordPart).length)
    else if c.isDigit then
      if (cs.drop (numberSize cs)).head?.any isWordStart then none else some (.number, numberSize cs)
    else if c = '"' then (stringSize tail).map fun n => (.string, n + 1)
    else (marks.find? (·.isPrefixOf cs)).map fun m => (.mark, m.length)

/-- The lexemes of a text on one line. -/
def lexemes (cs : List Char) : Option (List Lexeme) :=
  match cs with
  | [] => some []
  | c :: tail =>
    if c = ' ' then lexemes tail
    else match lexemeAt? cs with
      | none => none
      | some (kind, size) => (lexemes (tail.drop (size - 1))).map (⟨kind, cs.take size⟩ :: ·)
termination_by cs.length
decreasing_by all_goals simp; try omega

/-- Lexemes in front of those of a text. -/
def prepend (front : List Lexeme) (back : Option (List Lexeme)) : Option (List Lexeme) :=
  back.map (front ++ ·)

theorem prepend_prepend (ls ms : List Lexeme) (back : Option (List Lexeme)) :
    prepend ls (prepend ms back) = prepend (ls ++ ms) back := by
  cases back <;> simp [prepend]

theorem prepend_nil (back : Option (List Lexeme)) : prepend [] back = back := by
  cases back <;> simp [prepend]

theorem lexemes_space (cs : List Char) : lexemes (' ' :: cs) = lexemes cs := by
  rw [lexemes]
  simp

/-- The lexeme at the start of a text is the first of its lexemes. -/
theorem lexemes_of_at {text rest : List Char} {kind : LexemeKind}
    (h : lexemeAt? (text ++ rest) = some (kind, text.length)) (hne : text ≠ [])
    (hspace : text.head? ≠ some ' ') :
    lexemes (text ++ rest) = prepend [⟨kind, text⟩] (lexemes rest) := by
  cases text with
  | nil => exact absurd rfl hne
  | cons c cs =>
      have hc : c ≠ ' ' := by simpa using hspace
      rw [List.cons_append] at h ⊢
      rw [lexemes, if_neg hc, h]
      simp [prepend]

/-! ## marks -/

/-- A mark, from its text. -/
def mark (text : String) : Lexeme := ⟨.mark, text.toList⟩

/-- The marks that nothing goes on. -/
theorem lexemes_single {c : Char} (h : c ∈ ['(', ')', '[', ']', '\x7b', '\x7d', ',', ':', '~'])
    (rest : List Char) : lexemes (c :: rest) = prepend [⟨.mark, [c]⟩] (lexemes rest) := by
  have hat : lexemeAt? ([c] ++ rest) = some (.mark, [c].length) := by
    simp only [List.mem_cons, List.not_mem_nil, or_false] at h
    obtain rfl | rfl | rfl | rfl | rfl | rfl | rfl | rfl | rfl := h <;> rfl
  refine lexemes_of_at hat (by simp) ?_
  rintro ⟨⟩
  simp at h

/-- An operator between two operands. -/
theorem lexemes_binaryOp (op : BinaryOp) (rest : List Char) :
    lexemes (op.symbol.toList ++ ' ' :: rest) = prepend [mark op.symbol] (lexemes rest) := by
  have hat : lexemeAt? (op.symbol.toList ++ ' ' :: rest) = some (.mark, op.symbol.toList.length) := by
    cases op <;> rfl
  rw [lexemes_of_at hat (by cases op <;> simp [BinaryOp.symbol]) (by cases op <;> simp [BinaryOp.symbol]),
    lexemes_space]
  rfl

theorem lexemes_compareOp (op : CompareOp) (rest : List Char) :
    lexemes (op.symbol.toList ++ ' ' :: rest) = prepend [mark op.symbol] (lexemes rest) := by
  have hat : lexemeAt? (op.symbol.toList ++ ' ' :: rest) = some (.mark, op.symbol.toList.length) := by
    cases op <;> rfl
  rw [lexemes_of_at hat (by cases op <;> simp [CompareOp.symbol]) (by cases op <;> simp [CompareOp.symbol]),
    lexemes_space]
  rfl

/-- A sign does not run into what follows, unless that is a sign again. -/
theorem lexemes_unaryOp (op : ViewSync.UnaryOp) {rest : List Char}
    (h : ∀ c ∈ rest.head?, c ≠ '-' ∧ c ≠ '+' ∧ c ≠ '=') :
    lexemes ((unarySymbol op).toList ++ rest) = prepend [mark (unarySymbol op)] (lexemes rest) := by
  have hat : lexemeAt? ((unarySymbol op).toList ++ rest) = some (.mark, (unarySymbol op).toList.length) := by
    cases rest with
    | nil => cases op <;> rfl
    | cons c rest =>
        obtain ⟨hminus, hplus, heq⟩ := h c rfl
        cases op <;> simp [lexemeAt?, unarySymbol, isWordStart, isNameStart, Char.isAlpha, Char.isUpper,
          Char.isLower, Char.isDigit, marks, List.find?, List.isPrefixOf, beq_false_of_ne hminus.symm,
          beq_false_of_ne hplus.symm, beq_false_of_ne heq.symm]
  rw [lexemes_of_at hat (by cases op <;> simp [unarySymbol]) (by cases op <;> simp [unarySymbol])]
  rfl

theorem lexemes_question (rest : List Char) :
    lexemes ('?' :: ' ' :: rest) = prepend [mark "?"] (lexemes rest) := by
  have hat : lexemeAt? (['?'] ++ ' ' :: rest) = some (.mark, 1) := rfl
  have hread := lexemes_of_at hat (by simp) (by simp)
  rw [lexemes_space] at hread
  exact hread

theorem lexemes_arrow (rest : List Char) :
    lexemes ('=' :: '>' :: ' ' :: rest) = prepend [mark "=>"] (lexemes rest) := by
  have hat : lexemeAt? (['=', '>'] ++ ' ' :: rest) = some (.mark, 2) := rfl
  have hread := lexemes_of_at hat (by simp) (by simp)
  rw [lexemes_space] at hread
  exact hread

theorem lexemes_spread (rest : List Char) :
    lexemes ('.' :: '.' :: '.' :: rest) = prepend [mark "..."] (lexemes rest) := by
  have hat : lexemeAt? (['.', '.', '.'] ++ rest) = some (.mark, 3) := rfl
  exact lexemes_of_at hat (by simp) (by simp)

theorem lexemes_point {c : Char} (h : c ≠ '.') (rest : List Char) :
    lexemes ('.' :: c :: rest) = prepend [mark "."] (lexemes (c :: rest)) := by
  have hat : lexemeAt? (['.'] ++ c :: rest) = some (.mark, 1) := by
    simp [lexemeAt?, isWordStart, isNameStart, Char.isAlpha, Char.isUpper, Char.isLower, Char.isDigit, marks,
      List.find?, List.isPrefixOf, beq_false_of_ne h.symm]
  exact lexemes_of_at hat (by simp) (by simp)

/-! ## what follows an expression -/

/-- What may stand behind an expression: nothing, or something that parts or closes, or an access, a subscript or a
call. -/
def ends : List Char → Bool
  | [] => true
  | '.' :: tail => tail.head?.any isNameStart
  | c :: _ => [' ', ')', ']', '\x7d', ',', ':', '[', '('].contains c

theorem isWordPart_of_isWordStart {c : Char} (h : isWordStart c = true) : isWordPart c = true := by
  simp only [isWordStart, isWordPart, isNameStart, isNamePart, Char.isAlphanum, Bool.or_eq_true] at *
  obtain (h | h) | h := h <;> simp [h]

theorem isWordPart_of_isDigit {c : Char} (h : c.isDigit = true) : isWordPart c = true := by
  simp [isWordPart, isNamePart, Char.isAlphanum, h]

/-- What follows an expression is no part of a word or a number. -/
theorem head_of_ends {c : Char} {rest : List Char} (h : ends (c :: rest) = true) : isWordPart c = false := by
  by_cases hpoint : c = '.'
  · subst hpoint
    rfl
  · have hmem : c ∈ [' ', ')', ']', '\x7d', ',', ':', '[', '('] := by
      simpa [ends, hpoint] using h
    simp only [List.mem_cons, List.not_mem_nil, or_false] at hmem
    obtain rfl | rfl | rfl | rfl | rfl | rfl | rfl | rfl := hmem <;> rfl

theorem takeWhile_of_ends {p : Char → Bool} (hp : ∀ c, p c = true → isWordPart c = true) {rest : List Char}
    (h : ends rest = true) : rest.takeWhile p = [] := by
  cases rest with
  | nil => rfl
  | cons c rest =>
      have hpart := head_of_ends h
      have hnot : ¬ p c = true := fun hc => by simp [hp c hc] at hpart
      rw [List.takeWhile_cons_of_neg hnot]

theorem not_wordStart_of_ends {rest : List Char} (h : ends rest = true) :
    rest.head?.any isWordStart = false := by
  cases rest with
  | nil => rfl
  | cons c rest =>
      have hpart := head_of_ends h
      have hnot : isWordStart c ≠ true := fun hc => by simp [isWordPart_of_isWordStart hc] at hpart
      simpa using hnot

/-- A text is read as some lexemes, whatever follows it that may follow an expression. -/
def Lexes (text : List Char) (ls : List Lexeme) : Prop :=
  ∀ rest, ends rest = true → lexemes (text ++ rest) = prepend ls (lexemes rest)

/-! ## words, numbers and strings -/

theorem lexes_word {text : String} (h : isNameText text = true) : Lexes text.toList [⟨.word, text.toList⟩] := by
  intro rest hends
  unfold isNameText at h
  cases htext : text.toList with
  | nil => simp [htext] at h
  | cons c cs =>
      rw [htext] at h
      obtain ⟨hfirst, hothers⟩ := Bool.and_eq_true_iff.1 h
      have hstart : isWordStart c = true := by simp [isWordStart, hfirst]
      have hparts : ∀ d ∈ c :: cs, isWordPart d = true := by
        intro d hd
        obtain rfl | hd := List.mem_cons.1 hd
        · exact isWordPart_of_isWordStart hstart
        · simp [isWordPart, List.all_eq_true.1 hothers d hd]
      have htake : ((c :: cs) ++ rest).takeWhile isWordPart = c :: cs := by
        rw [List.takeWhile_append_of_pos hparts, takeWhile_of_ends (fun _ => id) hends, List.append_nil]
      have hat : lexemeAt? ((c :: cs) ++ rest) = some (.word, (c :: cs).length) := by
        rw [List.cons_append] at htake ⊢
        rw [lexemeAt?, if_pos hstart, htake]
      refine lexemes_of_at hat (by simp) ?_
      rintro ⟨⟩
      simp [isNameStart, Char.isAlpha, Char.isUpper, Char.isLower] at hfirst

/-- Digits, and maybe a point with digits behind it. -/
def isNumberText (text : List Char) : Prop :=
  ∃ whole fraction, text = whole ++ fraction ∧ whole ≠ [] ∧ (∀ c ∈ whole, c.isDigit = true) ∧
    (fraction = [] ∨ ∃ digits, fraction = '.' :: digits ∧ ∀ c ∈ digits, c.isDigit = true)

theorem not_wordStart_of_isDigit {c : Char} (h : c.isDigit = true) : isWordStart c = false := by
  have hval : 48 ≤ c.val.toNat ∧ c.val.toNat ≤ 57 := by
    simpa [Char.isDigit, UInt32.le_iff_toNat_le] using h
  refine Bool.eq_false_iff.2 fun hstart => ?_
  simp only [isWordStart, isNameStart, Char.isAlpha, Char.isUpper, Char.isLower,
    Bool.or_eq_true, Bool.and_eq_true, decide_eq_true_eq, beq_iff_eq, UInt32.le_iff_toNat_le] at hstart
  obtain ((⟨h, -⟩ | ⟨h, -⟩) | rfl) | rfl := hstart
  · have hA : 'A'.val.toNat = 65 := rfl
    omega
  · have ha : 'a'.val.toNat = 97 := rfl
    omega
  · simp at hval
  · simp at hval

theorem takeWhile_digits {digits rest : List Char} (h : ∀ c ∈ digits, c.isDigit = true)
    (hrest : rest.takeWhile Char.isDigit = []) : (digits ++ rest).takeWhile Char.isDigit = digits := by
  rw [List.takeWhile_append_of_pos h, hrest, List.append_nil]

/-- A number is read up to what may follow an expression. -/
theorem numberSize_eq {text rest : List Char} (h : isNumberText text) (hends : ends rest = true) :
    numberSize (text ++ rest) = text.length := by
  obtain ⟨whole, fraction, rfl, -, hwhole, hfraction⟩ := h
  have hdigits : rest.takeWhile Char.isDigit = [] := takeWhile_of_ends (fun _ => isWordPart_of_isDigit) hends
  unfold numberSize
  rw [List.append_assoc]
  obtain rfl | ⟨digits, rfl, hall⟩ := hfraction
  · rw [List.nil_append, takeWhile_digits hwhole hdigits, List.append_nil]
    simp only [List.drop_left]
    cases rest with
    | nil => rfl
    | cons c rest =>
        by_cases hpoint : c = '.'
        · subst hpoint
          have hname : rest.head?.any isWordStart = true := by
            cases rest with
            | nil => simp [ends] at hends
            | cons d rest =>
                have hstart : isNameStart d = true := by simpa [ends] using hends
                simp [isWordStart, hstart]
          simp [hname]
        · split
          · next hcons => exact absurd (List.cons.inj hcons).1 hpoint
          · rfl
  · have hfront : ('.' :: digits ++ rest).takeWhile Char.isDigit = [] := by simp [Char.isDigit]
    rw [takeWhile_digits hwhole hfront]
    simp only [List.drop_left, List.cons_append]
    have hword : (digits ++ rest).head?.any isWordStart = false := by
      cases digits with
      | nil => exact not_wordStart_of_ends hends
      | cons d digits => simpa using not_wordStart_of_isDigit (hall d List.mem_cons_self)
    rw [hword, takeWhile_digits hall hdigits]
    simp
    omega

theorem lexes_number {text : List Char} (h : isNumberText text) : Lexes text [⟨.number, text⟩] := by
  intro rest hends
  have hsize := numberSize_eq h hends
  obtain ⟨whole, fraction, htext, hne, hwhole, -⟩ := h
  obtain ⟨c, cs, hcons⟩ := List.exists_cons_of_ne_nil hne
  have hdigit : c.isDigit = true := hwhole c (by simp [hcons])
  have hshape : text = c :: (cs ++ fraction) := by simp [htext, hcons]
  have hat : lexemeAt? (text ++ rest) = some (.number, text.length) := by
    have hdrop : (text ++ rest).drop text.length = rest := List.drop_left
    unfold lexemeAt?
    rw [hshape] at hsize hdrop ⊢
    simp only [List.cons_append] at hsize hdrop ⊢
    simp only [not_wordStart_of_isDigit hdigit, hdigit, hsize, hdrop, not_wordStart_of_ends hends]
    simp
  refine lexemes_of_at hat (by simp [hshape]) ?_
  rw [hshape]
  rintro ⟨⟩
  simp [Char.isDigit] at hdigit

/-- Characters that mean nothing inside a string literal go on inside it. -/
theorem stringSize_append {cs rest : List Char}
    (h : ∀ c ∈ cs, c ≠ '"' ∧ c ≠ '\\' ∧ c ≠ '\n' ∧ c ≠ '\r') :
    stringSize (cs ++ rest) = (stringSize rest).map (· + cs.length) := by
  induction cs with
  | nil => simp
  | cons c cs ih =>
      obtain ⟨hquote, hslash, hline, hreturn⟩ := h c List.mem_cons_self
      have hstep : stringSize (c :: (cs ++ rest)) = (stringSize (cs ++ rest)).map (· + 1) := by
        rw [stringSize.eq_def]
        split
        · next heq => cases heq
        · next heq => exact absurd (List.cons.inj heq).1 hquote
        · next heq => exact absurd (List.cons.inj heq).1 hslash
        · next heq =>
            obtain ⟨rfl, rfl⟩ := List.cons.inj heq
            simp [hline, hreturn]
      rw [List.cons_append, hstep, ih fun d hd => h d (List.mem_cons_of_mem c hd), Option.map_map]
      rfl

/-- A backslash takes the character behind it along. -/
theorem stringSize_slash {c : Char} (h : c ≠ '\n') (rest : List Char) :
    stringSize ('\\' :: c :: rest) = (stringSize rest).map (· + 2) := by
  rw [stringSize, if_neg h]

/-- A character of a JSON string is none of those that end a literal, or it is behind a backslash. -/
theorem stringSize_escapeChar (c : Char) (rest : List Char) :
    stringSize (Json.escapeChar c ++ rest) = (stringSize rest).map (· + (Json.escapeChar c).length) := by
  have hplain : ∀ d ∈ Text.hexDigits 4 c.toNat, d ≠ '"' ∧ d ≠ '\\' ∧ d ≠ '\n' ∧ d ≠ '\r' := by
    intro d hd
    have hhex := Text.isHexDigit_of_mem_hexDigits hd
    refine ⟨?_, ?_, ?_, ?_⟩ <;> (rintro rfl; simp [Text.isHexDigit, Text.hexValue?] at hhex)
  fun_cases Json.escapeChar c
  iterate 7 exact stringSize_slash (by decide) rest
  · have hslash := stringSize_slash (c := 'u') (by decide) (Text.hexDigits 4 c.toNat ++ rest)
    rw [stringSize_append hplain, Option.map_map] at hslash
    simpa [Function.comp_def] using hslash
  · next hquote hslash _ _ hline hreturn _ _ => exact stringSize_append (by simp [hquote, hslash, hline, hreturn])

theorem stringSize_flatMap (cs rest : List Char) :
    stringSize (cs.flatMap Json.escapeChar ++ '"' :: rest) =
      some ((cs.flatMap Json.escapeChar).length + 1) := by
  induction cs with
  | nil => simp [stringSize]
  | cons c cs ih =>
      rw [List.flatMap_cons, List.append_assoc, stringSize_escapeChar, ih, List.length_append]
      simp
      omega

theorem lexes_string (text : String) : Lexes (Json.quote text).toList [⟨.string, (Json.quote text).toList⟩] := by
  intro rest _
  have htext : (Json.quote text).toList = '"' :: (text.toList.flatMap Json.escapeChar ++ ['"']) := by
    simp [Json.quote]
  have hat : lexemeAt? ((Json.quote text).toList ++ rest) = some (.string, (Json.quote text).toList.length) := by
    have hsize := stringSize_flatMap text.toList rest
    rw [htext, List.cons_append, List.append_assoc, List.singleton_append]
    simp [lexemeAt?, isWordStart, isNameStart, Char.isAlpha, Char.isUpper, Char.isLower, Char.isDigit, hsize]
  exact lexemes_of_at hat (by simp [htext]) (by simp [htext])

/-! ## leaves -/

/-- A text without parts: a word, a number or a string literal. -/
inductive IsLeaf (text : String) : Prop where
  | word (h : isNameText text = true)
  | number (h : isNumberText text.toList)
  | string (value : String) (h : text = Json.quote value)

/-- The lexeme that a text without parts is, by its first character. -/
def leaf (text : String) : Lexeme :=
  match text.toList with
  | [] => ⟨.word, []⟩
  | c :: cs => ⟨if c = '"' then .string else if c.isDigit then .number else .word, c :: cs⟩

theorem isNameStart_of_isNameText {text : String} (h : isNameText text = true) :
    ∃ c cs, text.toList = c :: cs ∧ isNameStart c = true := by
  unfold isNameText at h
  cases htext : text.toList with
  | nil => simp [htext] at h
  | cons c cs =>
      rw [htext] at h
      exact ⟨c, cs, rfl, (Bool.and_eq_true_iff.1 h).1⟩

theorem leaf_of_word {text : String} (h : isNameText text = true) : leaf text = ⟨.word, text.toList⟩ := by
  obtain ⟨c, cs, htext, hstart⟩ := isNameStart_of_isNameText h
  have hquote : c ≠ '"' := by
    rintro rfl
    simp [isNameStart, Char.isAlpha, Char.isUpper, Char.isLower] at hstart
  have hdigit : ¬ c.isDigit = true := by
    intro hdigit
    have hnot := not_wordStart_of_isDigit hdigit
    simp [isWordStart, hstart] at hnot
  simp [leaf, htext, hquote, hdigit]

theorem isDigit_of_isNumberText {text : List Char} (h : isNumberText text) :
    ∃ c cs, text = c :: cs ∧ c.isDigit = true := by
  obtain ⟨whole, fraction, rfl, hne, hwhole, -⟩ := h
  obtain ⟨c, cs, rfl⟩ := List.exists_cons_of_ne_nil hne
  exact ⟨c, cs ++ fraction, rfl, hwhole c List.mem_cons_self⟩

theorem leaf_of_number {text : String} (h : isNumberText text.toList) : leaf text = ⟨.number, text.toList⟩ := by
  obtain ⟨c, cs, htext, hdigit⟩ := isDigit_of_isNumberText h
  have hquote : c ≠ '"' := Json.ne_of_isDigit hdigit rfl
  simp [leaf, htext, hquote, hdigit]

theorem leaf_of_string (value : String) : leaf (Json.quote value) = ⟨.string, (Json.quote value).toList⟩ := by
  simp [leaf, Json.quote]

/-- A leaf is read as a whole. -/
theorem IsLeaf.lexes {text : String} (h : IsLeaf text) : Lexes text.toList [leaf text] := by
  cases h with
  | word h =>
      rw [leaf_of_word h]
      exact lexes_word h
  | number h =>
      rw [leaf_of_number h]
      exact lexes_number h
  | string value h =>
      rw [h, leaf_of_string]
      exact lexes_string value

theorem IsLeaf.toList_leaf {text : String} (h : IsLeaf text) : (leaf text).text = text.toList := by
  cases h with
  | word h => rw [leaf_of_word h]
  | number h => rw [leaf_of_number h]
  | string value h => rw [h, leaf_of_string]

/-- A leaf is no mark. -/
theorem leaf_kind (text : String) : (leaf text).kind ≠ .mark := by
  unfold leaf
  split
  · simp
  · split_ifs <;> simp

theorem toList_int (n : Nat) : (Fragment.int n).toList = Nat.toDigits 10 n := by
  rw [Fragment.int, show toString (n : Int) = toString n from rfl, Nat.toString_eq_repr,
    Nat.repr_eq_ofList_toDigits, String.toList_ofList]

theorem isNumberText_int (n : Nat) : isNumberText (Fragment.int n).toList := by
  refine ⟨Nat.toDigits 10 n, [], by simp [toList_int], Nat.toDigits_ne_nil, fun c hc => ?_, .inl rfl⟩
  exact Nat.isDigit_of_mem_toDigits (by decide) (by decide) hc

theorem isLeaf_int {value : Int} (h : 0 ≤ value) : IsLeaf (Fragment.int value) := by
  obtain ⟨n, rfl⟩ := Int.eq_ofNat_of_zero_le h
  exact .number (isNumberText_int n)

theorem isLeaf_boolean (value : Bool) : IsLeaf (Fragment.boolean value) := by
  cases value
  · exact .word rfl
  · exact .word rfl

theorem isLeaf_null : IsLeaf Fragment.null := .word rfl

theorem isLeaf_string (value : String) : IsLeaf (Fragment.string value) := .string value rfl

/-- The digits of a number with a point in its place, whatever the digits and the place are. -/
theorem isNumberText_positional {digits : List Char} (h : ∀ c ∈ digits, c.isDigit = true) (lead : Int) :
    isNumberText (Decimal.positional false digits lead) := by
  have hzeros : ∀ n, ∀ c ∈ List.replicate n '0', c.isDigit = true := by
    intro n c hc
    rw [(List.mem_replicate.1 hc).2]
    rfl
  unfold Decimal.positional
  split
  · refine ⟨['0'], '.' :: (List.replicate (-lead - 1).toNat '0' ++ digits), by simp, by simp, by simp,
      .inr ⟨_, rfl, fun c hc => ?_⟩⟩
    obtain hc | hc := List.mem_append.1 hc
    · exact hzeros _ c hc
    · exact h c hc
  · refine ⟨_, _, rfl, ?_, fun c hc => ?_, ?_⟩
    · intro hnil
      have hlength := congrArg List.length hnil
      simp only [List.length_append, List.length_take, List.length_replicate, List.length_nil] at hlength
      omega
    · obtain hc | hc := List.mem_append.1 hc
      · exact h c (List.mem_of_mem_take hc)
      · exact hzeros _ c hc
    · split
      · exact .inl rfl
      · exact .inr ⟨_, rfl, fun c hc => h c (List.mem_of_mem_drop hc)⟩

/-- A double without a sign is written as digits with a point, unless it is no number or infinite. -/
theorem isLeaf_float {value : Float} (h : (TokenKind.float value).lexical = true) :
    IsLeaf (Fragment.float value) := by
  have hsign : value.toBits >>> 63 = 0 := by simpa [TokenKind.lexical] using h
  have hdigits : ∀ d : Decimal.Scaled, ∀ c ∈ d.significant.1, c.isDigit = true := by
    intro d c hc
    have hmem : c ∈ Nat.toDigits 10 d.digits := by
      have hdrop := List.dropWhile_sublist _ |>.mem (List.mem_reverse.1 hc)
      exact List.mem_reverse.1 hdrop
    exact Nat.isDigit_of_mem_toDigits (by decide) (by decide) hmem
  have hfinite : isNumberText (Decimal.literal.finite value).toList := by
    rw [Decimal.Layout.finite, String.toList_ofList, if_pos hsign, List.nil_append]
    split
    · exact isNumberText_positional (by simp [Char.isDigit]) 0
    · exact isNumberText_positional (hdigits _) _
  unfold Fragment.float Decimal.literalText
  split_ifs
  · exact .word rfl
  · exact .word rfl
  · exact .number hfinite

end ViewSync.Script
