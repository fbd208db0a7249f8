import ViewSync.Proofs.Bytes.Lexer
import ViewSync.Proofs.Token.Locality

/-!
# ViewSync.Proofs.Bytes.Lexemes

Seen as characters the bytes of a text are alike to the text (`alike_byteChars`), so that numbers, names and operators
read the same, and a cursor that passes whole characters comes to the position that is counted in characters
(`Cursor.advance_bytes`). So each lexeme that is read from the bytes is the one that is read from the characters, and
ends where that one ends (`matches_scanHere`). Inside of a string the reader of bytes may stop in the middle of a
character, behind an unknown escape that has taken the first byte of it; the bytes that are left are content as they
are, so that the pieces make up the character again (`after_scanEscape`).
-/

namespace ViewSync

/-! ## bytes seen as characters -/

section

variable {c : Char} {cs : List Char} {b : UInt8} {n : Nat} {p : Pos}

theorem isAscii_of_not_foreign (h : ¬ Foreign c) : IsAscii c :=
  Nat.lt_of_not_le fun hle => h (.inr (.inr hle))

theorem foreign_of_not_isAscii (h : ¬ IsAscii c) : Foreign c :=
  .inr (.inr (Nat.le_of_not_lt h))

/-- Bytes are alike to the characters that they make up. -/
theorem alike_byteChars (cs : List Char) : StartsAlike (byteChars (bytes cs)) cs := by
  induction cs with
  | nil => exact .nil
  | cons c cs ih =>
      by_cases hc : IsAscii c
      · rw [byteChars_bytes_cons hc]
        exact .cons c ih
      · obtain ⟨lead, more, hbytes, -, -⟩ := utf8EncodeChar_of_not_isAscii hc
        have hlead : ¬ IsAscii (Char.ofUInt8 lead) := not_isAscii_of_mem hc (by rw [hbytes]; exact List.mem_cons_self)
        rw [bytes_cons, hbytes, List.cons_append, byteChars_cons]
        exact .stop (foreign_of_not_isAscii hlead) (foreign_of_not_isAscii hc)

theorem take_bytes (h : ∀ c ∈ cs.take n, IsAscii c) : (bytes cs).take n = bytes (cs.take n) := by
  induction n generalizing cs with
  | zero => rfl
  | succ n ih =>
      cases cs with
      | nil => rfl
      | cons c cs =>
          obtain ⟨hc, hcs⟩ := List.forall_mem_cons.1 h
          rw [List.take_succ_cons, bytes_cons, bytes_cons, utf8EncodeChar_of_isAscii hc, List.singleton_append,
            List.take_succ_cons, ih hcs, List.singleton_append]

theorem drop_bytes (h : ∀ c ∈ cs.take n, IsAscii c) : (bytes cs).drop n = bytes (cs.drop n) := by
  have hsplit : bytes cs = (bytes cs).take n ++ bytes (cs.drop n) := by
    rw [take_bytes h, ← bytes_append, List.take_append_drop]
  exact List.append_cancel_left ((List.take_append_drop n _).trans hsplit)

/-! ## positions -/

theorem foldl_afterByte_of_ne (raw : List UInt8) (h : ∀ b ∈ raw, b ≠ 0x0A) (p : Pos) :
    raw.foldl Pos.afterByte p = ⟨p.line, p.col + raw.length⟩ := by
  induction raw generalizing p with
  | nil => rfl
  | cons b raw ih =>
      obtain ⟨hb, hraw⟩ := List.forall_mem_cons.1 h
      rw [List.foldl_cons, ih hraw, Pos.afterByte, if_neg hb, List.length_cons]
      simp only [Pos.mk.injEq, true_and]
      omega

theorem foldl_afterByte_char (c : Char) (p : Pos) : (String.utf8EncodeChar c).foldl Pos.afterByte p = p.after c := by
  by_cases hc : c = '\n'
  · subst hc
    rfl
  · have hne : ∀ b ∈ String.utf8EncodeChar c, b ≠ 0x0A := by
      rintro b hb rfl
      by_cases hascii : IsAscii c
      · rw [utf8EncodeChar_of_isAscii hascii, List.mem_singleton] at hb
        have hchar := ofUInt8_of_isAscii hascii
        rw [← hb] at hchar
        exact hc hchar.symm
      · exact not_isAscii_of_mem hascii hb (by decide)
    rw [foldl_afterByte_of_ne _ hne, String.length_utf8EncodeChar, Pos.after, if_neg hc]

/-- The bytes of a text lead to the position behind it. -/
theorem foldl_afterByte (cs : List Char) (p : Pos) : (bytes cs).foldl Pos.afterByte p = cs.foldl Pos.after p := by
  induction cs generalizing p with
  | nil => rfl
  | cons c cs ih => rw [bytes_cons, List.foldl_append, foldl_afterByte_char, ih, List.foldl_cons]

end

theorem ByteCursor.pos_advance (n : Nat) (cur : ByteCursor) :
    (cur.advance n).pos = (cur.rest.take n).foldl Pos.afterByte cur.pos := by
  induction n generalizing cur with
  | zero => rfl
  | succ n ih =>
      rw [advance]
      split
      · next h => simp [h]
      · next b bs h => rw [ih, h, List.take_succ_cons, List.foldl_cons]

/-! ## cursors -/

/-- The cursor at the same place of the bytes. -/
def Cursor.inBytes (cur : Cursor) : ByteCursor :=
  ⟨bytes cur.rest, cur.pos⟩

namespace Cursor

variable {cur : Cursor} {c : Char} {cs : List Char} {n : Nat} {p : Char → Bool}

theorem alike_chars (cur : Cursor) : StartsAlike cur.inBytes.chars cur.rest :=
  alike_byteChars cur.rest

theorem chars_inBytes_cons (hrest : cur.rest = c :: cs) (hc : IsAscii c) :
    cur.inBytes.chars = c :: byteChars (bytes cs) := by
  rw [ByteCursor.chars, inBytes, hrest, byteChars_bytes_cons hc]

/-- A character beyond one byte is seen as some character that is none of its own. -/
theorem chars_inBytes_wide (hrest : cur.rest = c :: cs) (hc : ¬ IsAscii c) :
    ∃ d more, cur.inBytes.chars = d :: more ∧ ¬ IsAscii d := by
  obtain ⟨lead, more, hbytes, -, -⟩ := utf8EncodeChar_of_not_isAscii hc
  refine ⟨Char.ofUInt8 lead, byteChars (more ++ bytes cs), ?_, ?_⟩
  · rw [ByteCursor.chars, inBytes, hrest, bytes_cons, hbytes]
    rfl
  · exact not_isAscii_of_mem hc (by rw [hbytes]; exact List.mem_cons_self)

theorem head?_chars {d : Char} (hd : IsAscii d) {cur : Cursor} :
    cur.inBytes.chars.head? = some d ↔ cur.rest.head? = some d := by
  cases hrest : cur.rest with
  | nil => simp [ByteCursor.chars, inBytes, hrest]
  | cons c cs =>
      by_cases hc : IsAscii c
      · rw [chars_inBytes_cons hrest hc]
        rfl
      · obtain ⟨e, more, hchars, he⟩ := chars_inBytes_wide hrest hc
        have hne : e ≠ d ∧ c ≠ d := ⟨fun heq => he (heq ▸ hd), fun heq => hc (heq ▸ hd)⟩
        simp [hchars, hne]

/-- Past whole characters. -/
theorem advance_bytes (cur : Cursor) (n : Nat) :
    cur.inBytes.advance (bytes (cur.rest.take n)).length = (cur.advance n).inBytes := by
  have hsplit : bytes cur.rest = bytes (cur.rest.take n) ++ bytes (cur.rest.drop n) := by
    rw [← bytes_append, List.take_append_drop]
  have hrest : (cur.inBytes.advance (bytes (cur.rest.take n)).length).rest = (cur.advance n).inBytes.rest := by
    rw [ByteCursor.rest_advance, inBytes, inBytes, rest_advance, hsplit, List.drop_left]
  have hpos : (cur.inBytes.advance (bytes (cur.rest.take n)).length).pos = (cur.advance n).inBytes.pos := by
    rw [ByteCursor.pos_advance, inBytes, inBytes, pos_advance, hsplit, List.take_left, foldl_afterByte]
  exact congrArg₂ ByteCursor.mk hrest hpos

theorem advance_ascii (h : ∀ c ∈ cur.rest.take n, IsAscii c) : cur.inBytes.advance n = (cur.advance n).inBytes := by
  have hrest : (cur.inBytes.advance n).rest = (cur.advance n).inBytes.rest := by
    rw [ByteCursor.rest_advance, inBytes, inBytes, rest_advance, drop_bytes h]
  have hpos : (cur.inBytes.advance n).pos = (cur.advance n).inBytes.pos := by
    rw [ByteCursor.pos_advance, inBytes, inBytes, pos_advance, take_bytes h, foldl_afterByte]
  exact congrArg₂ ByteCursor.mk hrest hpos

/-- Past a character of any size. -/
theorem advance_char (hrest : cur.rest = c :: cs) :
    cur.inBytes.advance (String.utf8EncodeChar c).length = (cur.advance 1).inBytes := by
  have hone := cur.advance_bytes 1
  rwa [hrest, List.take_succ_cons, List.take_zero, bytes_cons, bytes_nil, List.append_nil] at hone

theorem advance_one (hrest : cur.rest = c :: cs) (hc : IsAscii c) :
    cur.inBytes.advance 1 = (cur.advance 1).inBytes :=
  advance_ascii (by simpa [hrest] using hc)

/-- A run that no character beyond one byte belongs to. -/
theorem takeWhile_chars (hp : ∀ c, ¬ IsAscii c → p c = false) (cur : Cursor) :
    cur.inBytes.chars.takeWhile p = cur.rest.takeWhile p := by
  obtain ⟨rest, pos⟩ := cur
  induction rest with
  | nil => rfl
  | cons c cs ih =>
      by_cases hc : IsAscii c
      · rw [chars_inBytes_cons rfl hc, List.takeWhile_cons, List.takeWhile_cons]
        split
        · exact congrArg (c :: ·) ih
        · rfl
      · obtain ⟨d, more, hchars, hd⟩ := @chars_inBytes_wide ⟨c :: cs, pos⟩ _ _ rfl hc
        rw [hchars, List.takeWhile_cons_of_neg (by simp [hp d hd]), List.takeWhile_cons_of_neg (by simp [hp c hc])]

theorem skipWhile_inBytes (hp : ∀ c, ¬ IsAscii c → p c = false) (cur : Cursor) :
    cur.inBytes.skipWhile p = (cur.skipWhile p).inBytes := by
  rw [ByteCursor.skipWhile, skipWhile, takeWhile_chars hp]
  refine advance_ascii fun c hc => ?_
  rw [take_length_takeWhile] at hc
  by_contra hwide
  exact absurd (List.all_eq_true.1 List.all_takeWhile c hc) (by simp [hp c hwide])

end Cursor

/-! ## numbers, names and operators -/

/-- Bytes of whole characters. -/
def IsText (raw : List UInt8) : Prop :=
  ∃ cs, raw = bytes cs

/-- The lexeme that is read from the characters, read from the bytes; what was read as a text are whole characters. -/
structure ByteScanned.Matches (found : ByteScanned) (scanned : Scanned) : Prop where
  lexeme : found.lexeme = scanned.lexeme
  next : found.next = scanned.next.inBytes
  faults : found.faults = scanned.faults
  whole : ∀ raw ∈ found.texts, IsText raw

namespace ByteCursor

variable {cur : ByteCursor} {run : List Char}

theorem scanNumber_plain (h : hexRun? cur.chars = none) :
    cur.scanNumber =
      ⟨.token (decimalNumber cur.chars).1, cur.advance (max (decimalNumber cur.chars).2 1), [], []⟩ := by
  rw [scanNumber, h]

theorem scanNumber_hexRun (h : hexRun? cur.chars = some run) :
    cur.scanNumber =
      let digits := withoutSeparators run
      let next := cur.advance (2 + run.length)
      if !digits.isEmpty && Text.ofHexDigits digits ≤ Decimal.maxInt64 then
        ⟨.token (.int (Text.ofHexDigits digits)), next, [], []⟩
      else ⟨.token (.int 0), next, [⟨.badHex (String.ofList digits), next.place.spanFrom cur.pos⟩], []⟩ := by
  rw [scanNumber, h]

end ByteCursor

section

variable {cur : Cursor} {c : Char} {cs : List Char}

theorem matches_scanNumber (h : startsNumber cur.rest = true) : cur.inBytes.scanNumber.Matches (scanNumber cur) := by
  have hhex : hexRun? cur.inBytes.chars = hexRun? cur.rest := cur.alike_chars.hexRun?_eq
  cases hrun : hexRun? cur.rest with
  | none =>
      have hsame : decimalNumber cur.inBytes.chars = decimalNumber cur.rest := cur.alike_chars.decimalNumber_eq
      have hascii := Cursor.advance_ascii fun c hc => isAscii_of_not_foreign (not_foreign_of_decimalNumber h c hc)
      rw [scanNumber_plain hrun, ByteCursor.scanNumber_plain (hhex.trans hrun), hsame, hascii]
      exact ⟨rfl, rfl, rfl, by simp⟩
  | some run =>
      have hascii := Cursor.advance_ascii fun c hc => isAscii_of_not_foreign (not_foreign_of_hexRun? hrun c hc)
      rw [scanNumber_hexRun hrun, ByteCursor.scanNumber_hexRun (hhex.trans hrun), hascii]
      dsimp only
      split
      · exact ⟨rfl, rfl, rfl, by simp⟩
      · exact ⟨rfl, rfl, rfl, by simp⟩

theorem matches_scanName (hrest : cur.rest = c :: cs) (hc : isNameStart c = true) :
    cur.inBytes.scanName.Matches (scanName cur) := by
  have hlength : max (cur.rest.takeWhile isNamePart).length 1 = (cur.rest.takeWhile isNamePart).length := by
    rw [hrest, List.takeWhile_cons_of_pos (isNamePart_of_isNameStart hc), List.length_cons]
    exact Nat.max_eq_left (Nat.le_add_left 1 _)
  have hascii : ∀ d ∈ cur.rest.takeWhile isNamePart, IsAscii d := fun d hd =>
    isAscii_of_not_foreign (StartsAlike.not_foreign_of_mem_takeWhile (fun _ => Foreign.isNamePart) hd)
  have htake : cur.rest.take (cur.rest.takeWhile isNamePart).length = cur.rest.takeWhile isNamePart :=
    take_length_takeWhile isNamePart cur.rest
  have hword : cur.inBytes.rest.take (cur.inBytes.chars.takeWhile isNamePart).length =
      bytes (cur.rest.takeWhile isNamePart) := by
    rw [cur.alike_chars.takeWhile_eq fun _ => Foreign.isNamePart, Cursor.inBytes, take_bytes (htake.symm ▸ hascii),
      htake]
  rw [ByteCursor.scanName, hword, scanName, lossy_bytes, length_bytes_of_isAscii hascii, hlength,
    Cursor.advance_ascii (htake.symm ▸ hascii)]
  exact ⟨rfl, rfl, rfl, by simp [IsText]⟩

theorem isContinuation_eq_true {b : UInt8} : isContinuation b = true ↔ 128 ≤ b.toNat ∧ b.toNat < 192 := by
  have hle : b.toNat ≤ 191 ↔ b.toNat < 192 := Nat.lt_succ_iff.symm
  rw [isContinuation, Bool.and_eq_true, decide_eq_true_eq, decide_eq_true_eq, UInt8.le_iff_toNat_le,
    UInt8.le_iff_toNat_le, ← hle]
  rfl

/-- Only the first byte of a character starts one. -/
theorem utf8EncodeChar_starts (c : Char) : ∃ lead more, String.utf8EncodeChar c = lead :: more ∧
    isContinuation lead = false ∧ ∀ b ∈ more, isContinuation b = true := by
  by_cases hc : IsAscii c
  · refine ⟨_, [], utf8EncodeChar_of_isAscii hc, Bool.eq_false_iff.2 fun hb => ?_, by simp⟩
    have hmod : (UInt8.ofNat c.toNat).toNat = c.toNat := by
      rw [← toNat_ofUInt8, ofUInt8_of_isAscii hc]
    rw [isContinuation_eq_true, hmod] at hb
    exact absurd hc (Nat.not_lt_of_le hb.1)
  · obtain ⟨lead, more, hbytes, hlead, hmore⟩ := utf8EncodeChar_of_not_isAscii hc
    refine ⟨lead, more, hbytes, Bool.eq_false_iff.2 fun hb => ?_, fun b hb => isContinuation_eq_true.2 (hmore b hb)⟩
    exact absurd (isContinuation_eq_true.1 hb).2 (Nat.not_lt_of_le hlead)

/-- The bytes behind the first one of a character are swallowed, and no more than these. -/
theorem length_swallowed (c : Char) (cs : List Char) :
    1 + (((bytes (c :: cs)).drop 1).takeWhile isContinuation).length = (String.utf8EncodeChar c).length := by
  obtain ⟨lead, more, hbytes, -, hmore⟩ := utf8EncodeChar_starts c
  have hrest : (bytes cs).takeWhile isContinuation = [] := by
    cases cs with
    | nil => rfl
    | cons d cs =>
        obtain ⟨lead, more, hnext, hlead, -⟩ := utf8EncodeChar_starts d
        rw [bytes_cons, hnext, List.cons_append, List.takeWhile_cons_of_neg (by simp [hlead])]
  rw [bytes_cons, hbytes, List.cons_append, List.drop_succ_cons, List.drop_zero,
    List.takeWhile_append_of_pos hmore, hrest, List.append_nil, List.length_cons, Nat.add_comm]

theorem matches_scanUnexpected (hrest : cur.rest = c :: cs) :
    cur.inBytes.scanUnexpected.Matches
      ⟨.trivia, cur.advance 1, [⟨.unexpected c, (cur.advance 1).spanFrom cur.pos⟩]⟩ := by
  have hbytes : cur.inBytes.rest = bytes (c :: cs) := congrArg bytes hrest
  have htake : (bytes (c :: cs)).take (String.utf8EncodeChar c).length = bytes [c] := by
    rw [bytes_cons, List.take_left, bytes_cons, bytes_nil, List.append_nil]
  have hshown : (lossy (bytes [c])).toList.headD '\uFFFD' = c := by
    rw [lossy_bytes, String.toList_ofList, List.headD_cons]
  rw [ByteCursor.scanUnexpected, hbytes, length_swallowed, htake, hshown, Cursor.advance_char hrest]
  exact ⟨rfl, rfl, rfl, by simp [IsText]⟩

/-- An operator, or a character that starts none. Of a character beyond one byte only the first byte is looked at. -/
theorem matches_scanOperator {d : Char} (hrest : cur.rest = c :: cs) (hd : Foreign d ∨ d = c) :
    (cur.inBytes.scanOperator d).Matches (scanOperator c cur) := by
  have hsame : operator? cur.inBytes.chars = operator? cur.rest := cur.alike_chars.operator?_eq
  rw [ByteCursor.scanOperator, scanOperator, hsame]
  cases hoperator : operator? cur.rest with
  | some entry =>
      have hascii := Cursor.advance_ascii fun c hc => isAscii_of_not_foreign (not_foreign_of_operator? hoperator c hc)
      dsimp only
      rw [hascii]
      exact ⟨rfl, rfl, rfl, by simp⟩
  | none =>
      dsimp only
      split
      · next hmark =>
        have hplain : ¬ Foreign d := by
          obtain rfl | rfl : d = '!' ∨ d = ';' := by simpa using hmark
          · decide
          · decide
        obtain rfl := hd.resolve_left hplain
        rw [Cursor.advance_one hrest (isAscii_of_not_foreign hplain)]
        exact ⟨rfl, rfl, rfl, by simp⟩
      · exact matches_scanUnexpected hrest

theorem behindReturn_inBytes (cur : Cursor) : cur.inBytes.behindReturn = (behindReturn cur).inBytes := by
  unfold ByteCursor.behindReturn behindReturn
  simp only [Cursor.head?_chars (show IsAscii '\r' by decide)]
  split
  · next hreturn =>
    obtain ⟨cs, hcs⟩ := List.head?_eq_some_iff.1 hreturn
    exact Cursor.advance_one hcs (by decide)
  · rfl

theorem matches_scanJoin (hrest : cur.rest = '\\' :: cs) : cur.inBytes.scanJoin.Matches (scanJoin cur) := by
  have hbehind : (cur.inBytes.advance 1).behindReturn = (behindReturn (cur.advance 1)).inBytes := by
    rw [Cursor.advance_one hrest (by decide), behindReturn_inBytes]
  rw [ByteCursor.scanJoin, scanJoin_eq, hbehind]
  simp only [Cursor.head?_chars (show IsAscii '\n' by decide)]
  split
  · next hnewline =>
    obtain ⟨cs, hcs⟩ := List.head?_eq_some_iff.1 hnewline
    rw [Cursor.advance_one hcs (by decide)]
    exact ⟨rfl, rfl, rfl, by simp⟩
  · exact ⟨rfl, rfl, rfl, by simp⟩

end

/-! ## strings -/

/-- The same escape sequence in bytes. -/
def Escaped.inBytes (escaped : Escaped) : ByteEscaped :=
  ⟨bytes escaped.chars, escaped.next.inBytes, escaped.faults⟩

/-- The same content of a string in bytes. -/
def StringBody.inBytes (body : StringBody) : ByteBody :=
  ⟨bytes body.content, body.next.inBytes, body.faults, body.closed⟩

theorem ByteBody.after_after (front more : List UInt8) (faults others : List (Fault LexError)) (body : ByteBody) :
    (body.after more others).after front faults = body.after (front ++ more) (faults ++ others) := by
  simp [after]

theorem StringBody.inBytes_after (chars : List Char) (faults : List (Fault LexError)) (body : StringBody) :
    (body.after chars faults).inBytes = body.inBytes.after (bytes chars) faults := by
  simp [after, inBytes, ByteBody.after]

namespace ByteCursor

variable {cur : ByteCursor} {quote : Char} {triple : Bool} {b : UInt8} {raw rest : List UInt8}

theorem scanBody_nil (hrest : cur.rest = []) : cur.scanBody quote triple = ⟨[], cur, [], false⟩ := by
  rw [scanBody]
  split
  · rfl
  · next hcons =>
    rw [hrest] at hcons
    cases hcons

theorem scanBody_cons (hrest : cur.rest = b :: raw) :
    cur.scanBody quote triple =
      if Char.ofUInt8 b == '\n' && !triple then ⟨[], cur, [], false⟩
      else if Char.ofUInt8 b == quote && !triple then ⟨[], cur.advance 1, [], true⟩
      else if Char.ofUInt8 b == quote && (byteChars raw).take 2 == [quote, quote] then ⟨[], cur.advance 3, [], true⟩
      else if Char.ofUInt8 b == '\\' then
        (((cur.advance 1).scanEscape cur.pos).next.scanBody quote triple).after
          ((cur.advance 1).scanEscape cur.pos).bytes ((cur.advance 1).scanEscape cur.pos).faults
      else ((cur.advance 1).scanBody quote triple).after [b] [] := by
  rw [scanBody]
  split
  · next hnil =>
    rw [hrest] at hnil
    cases hnil
  · next hcons =>
    rw [hrest] at hcons
    cases hcons
    rfl

theorem advance_succ (hrest : cur.rest = b :: raw) (n : Nat) : cur.advance (n + 1) = (cur.advance 1).advance n := by
  simp only [advance, hrest]

/-- Bytes that are no characters of their own are content, each as it is. -/
theorem scanBody_wide (hquote : IsAscii quote) (hraw : ∀ b ∈ raw, ¬ IsAscii (Char.ofUInt8 b))
    (hrest : cur.rest = raw ++ rest) :
    cur.scanBody quote triple = ((cur.advance raw.length).scanBody quote triple).after raw [] := by
  induction raw generalizing cur with
  | nil => rfl
  | cons b raw ih =>
      obtain ⟨hb, hraw⟩ := List.forall_mem_cons.1 hraw
      have hne : ∀ d, IsAscii d → (Char.ofUInt8 b == d) = false := fun d hd => beq_false_of_ne fun heq => hb (heq ▸ hd)
      have hbehind : (cur.advance 1).rest = raw ++ rest := by rw [rest_advance, hrest]; rfl
      rw [scanBody_cons hrest, hne _ hquote, hne '\n' (by decide), hne '\\' (by decide), ih hraw hbehind,
        List.length_cons, ← advance_succ hrest]
      simp only [Bool.false_and, Bool.false_eq_true, if_false, ByteBody.after_after]
      rfl

end ByteCursor

section

variable {cur : Cursor} {quote : Char} {triple : Bool} {c : Char} {cs : List Char}

theorem scanNumberedEscape_inBytes (start : Pos) (kind : Char) (width : Nat) (cur : Cursor) :
    cur.inBytes.scanNumberedEscape start kind width = (scanNumberedEscape start kind width cur).inBytes := by
  have hdigits : (cur.inBytes.chars.take width).takeWhile Text.isHexDigit =
      (cur.rest.take width).takeWhile Text.isHexDigit := by
    rw [takeWhile_take, takeWhile_take, cur.alike_chars.takeWhile_eq fun _ => Foreign.isHexDigit]
  have hascii : ∀ c ∈ cur.rest.take ((cur.rest.take width).takeWhile Text.isHexDigit).length, IsAscii c := by
    have hprefix : (cur.rest.take width).takeWhile Text.isHexDigit <+: cur.rest :=
      (List.takeWhile_prefix _).trans (List.take_prefix width cur.rest)
    rw [← List.prefix_iff_eq_take.1 hprefix]
    exact fun c hc => isAscii_of_not_foreign (StartsAlike.not_foreign_of_mem_takeWhile (fun _ => Foreign.isHexDigit) hc)
  unfold ByteCursor.scanNumberedEscape scanNumberedEscape
  dsimp only
  rw [hdigits, Cursor.advance_ascii hascii]
  split
  · simp [Escaped.inBytes, bytes_cons]
  · rfl

/-- An escape sequence with a character of one byte behind the backslash. -/
theorem scanEscape_inBytes (start : Pos) (h : ∀ c ∈ cur.rest.head?, IsAscii c) :
    cur.inBytes.scanEscape start = (scanEscape start cur).inBytes := by
  cases hrest : cur.rest with
  | nil =>
      have hbytes : cur.inBytes.rest = [] := by rw [Cursor.inBytes, hrest, bytes_nil]
      rw [ByteCursor.scanEscape, hbytes, scanEscape, hrest]
      rfl
  | cons c cs =>
      have hc : IsAscii c := h c (by rw [hrest]; rfl)
      have hbytes : cur.inBytes.rest = UInt8.ofNat c.toNat :: bytes cs := by
        rw [Cursor.inBytes, hrest, bytes_cons, utf8EncodeChar_of_isAscii hc, List.singleton_append]
      have hother : bytes ['\\', c] = [0x5C, UInt8.ofNat c.toNat] := by
        rw [bytes_cons, bytes_cons, utf8EncodeChar_of_isAscii hc]
        rfl
      unfold ByteCursor.scanEscape scanEscape
      rw [hbytes, hrest]
      dsimp only
      rw [ofUInt8_of_isAscii hc, Cursor.advance_one hrest hc]
      split
      case h_9 => exact scanNumberedEscape_inBytes start 'x' 2 _
      case h_10 => exact scanNumberedEscape_inBytes start 'u' 4 _
      case h_11 => simp_all [Escaped.inBytes]
      all_goals rfl

/-- An escape sequence in front of a character beyond one byte is unknown, and keeps the first byte of it. -/
theorem scanEscape_wide (start : Pos) (hrest : cur.rest = c :: cs) (hc : ¬ IsAscii c) {lead : UInt8} {more : List UInt8}
    (hbytes : String.utf8EncodeChar c = lead :: more) :
    scanEscape start cur = ⟨['\\', c], cur.advance 1, []⟩ ∧
      cur.inBytes.scanEscape start = ⟨[0x5C, lead], cur.inBytes.advance 1, []⟩ := by
  have hlead : ¬ IsAscii (Char.ofUInt8 lead) := not_isAscii_of_mem hc (by rw [hbytes]; exact List.mem_cons_self)
  have hraw : cur.inBytes.rest = lead :: (more ++ bytes cs) := by
    rw [Cursor.inBytes, hrest, bytes_cons, hbytes, List.cons_append]
  constructor
  · unfold scanEscape
    rw [hrest]
    dsimp only
    split
    case h_11 => rfl
    all_goals exact absurd (by decide) hc
  · unfold ByteCursor.scanEscape
    rw [hraw]
    dsimp only
    split
    case h_11 => rfl
    all_goals
      next heq => exact absurd (by rw [heq]; decide) hlead

/-- Behind an escape sequence a string goes on alike, also where the rest of a character is still ahead. -/
theorem after_scanEscape (hquote : IsAscii quote) (start : Pos) (cur : Cursor) :
    ((cur.inBytes.scanEscape start).next.scanBody quote triple).after (cur.inBytes.scanEscape start).bytes
        (cur.inBytes.scanEscape start).faults =
      ((scanEscape start cur).next.inBytes.scanBody quote triple).after (bytes (scanEscape start cur).chars)
        (scanEscape start cur).faults := by
  by_cases hhead : ∀ c ∈ cur.rest.head?, IsAscii c
  · rw [scanEscape_inBytes start hhead]
    rfl
  · simp only [not_forall] at hhead
    obtain ⟨c, hc, hwide⟩ := hhead
    obtain ⟨cs, hrest⟩ := List.head?_eq_some_iff.1 hc
    obtain ⟨lead, more, hbytes, -, -⟩ := utf8EncodeChar_of_not_isAscii hwide
    have hmore : ∀ b ∈ more, ¬ IsAscii (Char.ofUInt8 b) :=
      fun b hb => not_isAscii_of_mem hwide (by rw [hbytes]; exact List.mem_cons_of_mem _ hb)
    have hraw : cur.inBytes.rest = lead :: (more ++ bytes cs) := by
      rw [Cursor.inBytes, hrest, bytes_cons, hbytes, List.cons_append]
    have hbehind : (cur.inBytes.advance 1).rest = more ++ bytes cs := by
      rw [ByteCursor.rest_advance, hraw]
      rfl
    have hnext : (cur.inBytes.advance 1).advance more.length = (cur.advance 1).inBytes := by
      rw [← ByteCursor.advance_succ hraw, ← Cursor.advance_char hrest, hbytes, List.length_cons]
    obtain ⟨hchars, hescape⟩ := scanEscape_wide start hrest hwide hbytes
    have hkept : bytes ['\\', c] = 0x5C :: lead :: more := by
      rw [bytes_cons, bytes_cons, hbytes, bytes_nil, List.append_nil]
      rfl
    rw [hchars, hescape, hkept, ByteCursor.scanBody_wide hquote hmore hbehind, hnext, ByteBody.after_after]
    rfl

/-- The body of a string is read alike from the bytes. -/
theorem scanBody_inBytes (hquote : ¬ Foreign quote) (cur : Cursor) :
    cur.inBytes.scanBody quote triple = (scanBody quote triple cur).inBytes := by
  have hascii := isAscii_of_not_foreign hquote
  have hcons : ∀ {cur : Cursor} {c : Char} {cs : List Char}, cur.rest = c :: cs → IsAscii c →
      cur.inBytes.rest = UInt8.ofNat c.toNat :: bytes cs := by
    intro cur c cs hrest hc
    rw [Cursor.inBytes, hrest, bytes_cons, utf8EncodeChar_of_isAscii hc, List.singleton_append]
  fun_induction scanBody quote triple cur with
  | case1 cur hrest =>
      rw [ByteCursor.scanBody_nil (by rw [Cursor.inBytes, hrest, bytes_nil])]
      rfl
  | case2 cur c cs hrest hline =>
      have hc : IsAscii c := by
        obtain ⟨rfl, -⟩ : c = '\n' ∧ triple = false := by simpa using hline
        decide
      rw [ByteCursor.scanBody_cons (hcons hrest hc), ofUInt8_of_isAscii hc, if_pos hline]
      rfl
  | case3 cur c cs hrest hline hclose =>
      obtain ⟨rfl, -⟩ : c = quote ∧ triple = false := by simpa using hclose
      rw [ByteCursor.scanBody_cons (hcons hrest hascii), ofUInt8_of_isAscii hascii, if_neg hline, if_pos hclose,
        Cursor.advance_one hrest hascii]
      rfl
  | case4 cur c cs hrest hline hone hclose =>
      obtain ⟨rfl, hquotes⟩ : c = quote ∧ cs.take 2 = [quote, quote] := by simpa using hclose
      have htake : ∀ d ∈ cur.rest.take 3, IsAscii d := by
        rw [hrest, List.take_succ_cons, hquotes]
        simpa using hascii
      rw [ByteCursor.scanBody_cons (hcons hrest hascii), ofUInt8_of_isAscii hascii, if_neg hline, if_neg hone,
        (alike_byteChars cs).take_two_eq hquote, if_pos hclose, Cursor.advance_ascii htake]
      rfl
  | case5 cur c cs hrest hline hone hclose hescape escape ih =>
      obtain rfl : c = '\\' := by simpa using hescape
      have hc : IsAscii '\\' := by decide
      rw [ByteCursor.scanBody_cons (hcons hrest hc), ofUInt8_of_isAscii hc, if_neg hline, if_neg hone,
        (alike_byteChars cs).take_two_eq hquote, if_neg hclose, if_pos hescape, Cursor.advance_one hrest hc,
        after_scanEscape hascii, StringBody.inBytes_after, ← ih]
      rfl
  | case6 cur c cs hrest hline hone hclose hescape ih =>
      by_cases hc : IsAscii c
      · rw [ByteCursor.scanBody_cons (hcons hrest hc), ofUInt8_of_isAscii hc, if_neg hline, if_neg hone,
          (alike_byteChars cs).take_two_eq hquote, if_neg hclose, if_neg hescape, Cursor.advance_one hrest hc, ih,
          StringBody.inBytes_after, bytes_cons, utf8EncodeChar_of_isAscii hc]
        rfl
      · have hraw : cur.inBytes.rest = String.utf8EncodeChar c ++ bytes cs := by
          rw [Cursor.inBytes, hrest, bytes_cons]
        rw [ByteCursor.scanBody_wide hascii (fun b hb => not_isAscii_of_mem hc hb) hraw, Cursor.advance_char hrest, ih,
          StringBody.inBytes_after, bytes_cons, bytes_nil, List.append_nil]

theorem matches_scanString (hquote : ¬ Foreign quote) (hrest : cur.rest = quote :: cs) :
    (cur.inBytes.scanString quote).Matches (scanString quote cur) := by
  have hascii := isAscii_of_not_foreign hquote
  have htriple : ((cur.inBytes.chars.drop 1).take 2 == [quote, quote]) =
      ((cur.rest.drop 1).take 2 == [quote, quote]) := by
    rw [Cursor.chars_inBytes_cons hrest hascii, hrest, List.drop_succ_cons, List.drop_succ_cons]
    exact (alike_byteChars cs).take_two_eq hquote
  have htake : ∀ d ∈ cur.rest.take (if (cur.rest.drop 1).take 2 == [quote, quote] then 3 else 1), IsAscii d := by
    rw [hrest]
    split
    · next hquotes =>
      have hmore : cs.take 2 = [quote, quote] := by simpa using hquotes
      rw [List.take_succ_cons, hmore]
      simpa using hascii
    · simpa using hascii
  rw [ByteCursor.scanString, htriple, scanString, Cursor.advance_ascii htake, scanBody_inBytes hquote,
    StringBody.inBytes, lossy_bytes]
  exact ⟨rfl, rfl, rfl, by simp [IsText]⟩

end

/-! ## all lexemes -/

section

variable {cur : Cursor} {c : Char} {cs : List Char}

theorem skipWhile_line (cur : Cursor) :
    cur.inBytes.skipWhile (· != '\n') = (cur.skipWhile (· != '\n')).inBytes := by
  have hline : ∀ cs : List Char,
      (byteChars (bytes cs)).takeWhile (· != '\n') = byteChars (bytes (cs.takeWhile (· != '\n'))) := by
    intro cs
    induction cs with
    | nil => rfl
    | cons c cs ih =>
        by_cases hc : IsAscii c
        · rw [byteChars_bytes_cons hc, List.takeWhile_cons, List.takeWhile_cons, ih]
          split
          · rw [byteChars_bytes_cons hc]
          · rfl
        · have hne : ∀ {d : Char}, ¬ IsAscii d → (d != '\n') = true := by
            intro d hd
            rw [bne_iff_ne]
            rintro rfl
            exact hd (by decide)
          have hall : ∀ d ∈ byteChars (String.utf8EncodeChar c), (d != '\n') = true := by
            intro d hd
            obtain ⟨b, hb, rfl⟩ := List.mem_map.1 hd
            exact hne (not_isAscii_of_mem hc hb)
          rw [List.takeWhile_cons_of_pos (p := (· != '\n')) (hne hc), bytes_cons, bytes_cons,
            byteChars_append, byteChars_append,
            List.takeWhile_append_of_pos hall, ih]
  have hlength : (cur.inBytes.chars.takeWhile (· != '\n')).length =
      (bytes (cur.rest.take (cur.rest.takeWhile (· != '\n')).length)).length := by
    rw [take_length_takeWhile, ByteCursor.chars, Cursor.inBytes, hline, length_byteChars]
  rw [ByteCursor.skipWhile, hlength, Cursor.advance_bytes]
  rfl

/-- A character beyond one byte is none of those that decide what is read. -/
theorem tests_wide (hc : ¬ IsAscii c) : (c == '\n') = false ∧ (c == '#') = false ∧ (c == '\\') = false ∧
    (c == '"' || c == '\'') = false ∧ isNameStart c = false := by
  have hne : ∀ d, IsAscii d → (c == d) = false := fun d hd => beq_false_of_ne fun heq => hc (heq ▸ hd)
  refine ⟨hne _ (by decide), hne _ (by decide), hne _ (by decide), ?_, (foreign_of_not_isAscii hc).isNameStart⟩
  rw [hne _ (by decide), hne _ (by decide), Bool.or_false]

theorem matches_scanHere (cur : Cursor) : cur.inBytes.scanHere.Matches (scanHere cur) := by
  have hstarts : startsNumber cur.inBytes.chars = startsNumber cur.rest := cur.alike_chars.startsNumber_eq
  cases hrest : cur.rest with
  | nil =>
      have hchars : cur.inBytes.chars = [] := by rw [ByteCursor.chars, Cursor.inBytes, hrest]; rfl
      rw [ByteCursor.scanHere, hchars, scanHere, hrest]
      exact ⟨rfl, rfl, rfl, by simp⟩
  | cons c cs =>
      by_cases hc : IsAscii c
      · have hone := Cursor.advance_one hrest hc
        rw [ByteCursor.scanHere, hstarts, scanHere, Cursor.chars_inBytes_cons hrest hc, hrest, hone]
        dsimp only
        split_ifs with hline hcomment hjoin hquote hnumber hname
        · exact ⟨rfl, rfl, rfl, by simp⟩
        · rw [skipWhile_line]
          exact ⟨rfl, rfl, rfl, by simp⟩
        · obtain rfl : c = '\\' := by simpa using hjoin
          exact matches_scanJoin hrest
        · have hmark : ¬ Foreign c := by
            obtain rfl | rfl : c = '"' ∨ c = '\'' := by simpa using hquote
            · decide
            · decide
          exact matches_scanString hmark hrest
        · exact matches_scanNumber (by rwa [hrest])
        · exact matches_scanName hrest hname
        · exact matches_scanOperator hrest (.inr rfl)
      · -- Neither the character nor its first byte starts a token.
        obtain ⟨d, more, hchars, hd⟩ := Cursor.chars_inBytes_wide hrest hc
        obtain ⟨hline, hcomment, hjoin, hquote, hname⟩ := tests_wide hc
        obtain ⟨hline', hcomment', hjoin', hquote', hname'⟩ := tests_wide hd
        have hnumber : startsNumber cur.rest = false := by rw [hrest, (foreign_of_not_isAscii hc).startsNumber]
        rw [ByteCursor.scanHere, hstarts, hnumber, scanHere, hnumber, hchars, hrest]
        simp only [hline, hcomment, hjoin, hquote, hname, hline', hcomment', hjoin', hquote', hname',
          Bool.false_eq_true, if_false]
        exact matches_scanOperator hrest (.inl (foreign_of_not_isAscii hd))

end

end ViewSync
