import ViewSync.Proofs.Source.Places

/-!
# ViewSync.Proofs.Bytes.Utf8

Texts as bytes, and bytes as texts. A byte below 128 is a character of its own, and a character beyond takes some bytes
from 128 on, of which none but the first one starts a character. `lossy` reads any bytes as a text and puts replacement
characters where they are no UTF-8; what is UTF-8 comes back as it was (`lossyChars_bytes`).
-/

namespace ViewSync

/-- A character that is one byte. -/
def IsAscii (c : Char) : Prop :=
  c.toNat < 128

instance (c : Char) : Decidable (IsAscii c) :=
  inferInstanceAs (Decidable (c.toNat < 128))

/-! ## bytes of characters -/

section

variable {c : Char} {cs ds : List Char}

theorem bytes_cons (c : Char) (cs : List Char) : bytes (c :: cs) = String.utf8EncodeChar c ++ bytes cs :=
  List.flatMap_cons

theorem toByteArray_bytes (cs : List Char) : (bytes cs).toByteArray = cs.utf8Encode := rfl

theorem utf8EncodeChar_of_isAscii (h : IsAscii c) : String.utf8EncodeChar c = [UInt8.ofNat c.toNat] := by
  have hle : c.val.toNat ≤ 127 := Nat.le_of_lt_succ h
  simp only [String.utf8EncodeChar, hle, if_true]
  rfl

/-- Beyond one byte all bytes are from 128 on, and those behind the first one are below 192. -/
theorem utf8EncodeChar_of_not_isAscii (h : ¬ IsAscii c) : ∃ lead more, String.utf8EncodeChar c = lead :: more ∧
    192 ≤ lead.toNat ∧ ∀ b ∈ more, 128 ≤ b.toNat ∧ b.toNat < 192 := by
  have hlt : ¬ c.val.toNat ≤ 127 := fun hle => h (Nat.lt_succ_of_le hle)
  unfold String.utf8EncodeChar
  simp only [hlt, if_false]
  split
  · refine ⟨_, _, rfl, ?_, ?_⟩
    · simp only [UInt8.toNat_ofNat']
      omega
    · simp only [List.forall_mem_cons, UInt8.toNat_ofNat']
      exact ⟨by omega, by simp⟩
  · split
    · refine ⟨_, _, rfl, ?_, ?_⟩
      · simp only [UInt8.toNat_ofNat']
        omega
      · simp only [List.forall_mem_cons, UInt8.toNat_ofNat']
        exact ⟨by omega, by omega, by simp⟩
    · refine ⟨_, _, rfl, ?_, ?_⟩
      · simp only [UInt8.toNat_ofNat']
        omega
      · simp only [List.forall_mem_cons, UInt8.toNat_ofNat']
        exact ⟨by omega, by omega, by omega, by simp⟩

end

/-! ## bytes as characters -/

/-- Each byte as the character of its number. -/
def byteChars (raw : List UInt8) : List Char :=
  raw.map Char.ofUInt8

section

variable {c : Char} {cs : List Char} {b : UInt8}

@[simp] theorem byteChars_nil : byteChars [] = [] := rfl

@[simp] theorem byteChars_cons (b : UInt8) (raw : List UInt8) :
    byteChars (b :: raw) = Char.ofUInt8 b :: byteChars raw := rfl

@[simp] theorem byteChars_append (raw more : List UInt8) :
    byteChars (raw ++ more) = byteChars raw ++ byteChars more :=
  List.map_append

@[simp] theorem length_byteChars (raw : List UInt8) : (byteChars raw).length = raw.length :=
  List.length_map ..

theorem toNat_ofUInt8 (b : UInt8) : (Char.ofUInt8 b).toNat = b.toNat := rfl

theorem ofUInt8_of_isAscii (h : IsAscii c) : Char.ofUInt8 (UInt8.ofNat c.toNat) = c := by
  refine Char.toNat_inj.1 ?_
  rw [toNat_ofUInt8, UInt8.toNat_ofNat']
  exact Nat.mod_eq_of_lt (Nat.lt_trans h (by decide))

/-- A byte of a character beyond one byte is no character of its own. -/
theorem not_isAscii_of_mem (h : ¬ IsAscii c) (hb : b ∈ String.utf8EncodeChar c) : ¬ IsAscii (Char.ofUInt8 b) := by
  obtain ⟨lead, more, heq, hlead, hmore⟩ := utf8EncodeChar_of_not_isAscii h
  rw [heq] at hb
  rw [IsAscii, toNat_ofUInt8, Nat.not_lt]
  obtain rfl | hb := List.mem_cons.1 hb
  · exact Nat.le_trans (by decide) hlead
  · exact (hmore b hb).1

theorem byteChars_bytes_cons (h : IsAscii c) (cs : List Char) :
    byteChars (bytes (c :: cs)) = c :: byteChars (bytes cs) := by
  rw [bytes_cons, utf8EncodeChar_of_isAscii h, byteChars_append, byteChars_cons, ofUInt8_of_isAscii h]
  rfl

theorem byteChars_bytes_of_isAscii (h : ∀ c ∈ cs, IsAscii c) : byteChars (bytes cs) = cs := by
  induction cs with
  | nil => rfl
  | cons c cs ih =>
      obtain ⟨hc, hcs⟩ := List.forall_mem_cons.1 h
      rw [byteChars_bytes_cons hc, ih hcs]

theorem length_le_bytes (cs : List Char) : cs.length ≤ (bytes cs).length := by
  induction cs with
  | nil => exact Nat.le_refl 0
  | cons c cs ih =>
      have hpos := c.utf8Size_pos
      rw [length_bytes_cons, List.length_cons]
      omega

theorem length_bytes_of_isAscii (h : ∀ c ∈ cs, IsAscii c) : (bytes cs).length = cs.length := by
  rw [← length_byteChars, byteChars_bytes_of_isAscii h]

end

/-! ## bytes that are no text -/

/-- A byte that no character starts with. -/
def isContinuation (b : UInt8) : Bool :=
  0x80 ≤ b && b ≤ 0xBF

/-- How many bytes a character takes of which the first one is given; none starts with a byte of which it is none. -/
def charSize (lead : UInt8) : Nat :=
  if lead ≤ 0x7F then 1
  else if 0xC2 ≤ lead && lead ≤ 0xDF then 2
  else if 0xE0 ≤ lead && lead ≤ 0xEF then 3
  else if 0xF0 ≤ lead && lead ≤ 0xF4 then 4
  else 0

/-- Whether a byte may be the second one. Some of them would make a character that has shorter bytes, or none at all. -/
def isSecond (lead second : UInt8) : Bool :=
  if lead = 0xE0 then 0xA0 ≤ second && second ≤ 0xBF
  else if lead = 0xED then 0x80 ≤ second && second ≤ 0x9F
  else if lead = 0xF0 then 0x90 ≤ second && second ≤ 0xBF
  else if lead = 0xF4 then 0x80 ≤ second && second ≤ 0x8F
  else isContinuation second

/-- How many bytes one replacement character stands for: as many as start a character that then breaks off, and else
one. -/
def brokenSize : List UInt8 → Nat
  | lead :: second :: more =>
    if 3 ≤ charSize lead && isSecond lead second then
      match more with
      | third :: _ => if charSize lead = 4 && isContinuation third then 3 else 2
      | [] => 2
    else 1
  | _ => 1

theorem brokenSize_pos (raw : List UInt8) : 0 < brokenSize raw := by
  unfold brokenSize
  split
  · split
    · split
      · split <;> decide
      · decide
    · decide
  · decide

/-- The characters that bytes are read as, with replacement characters for what is none. -/
def lossyChars (raw : List UInt8) : List Char :=
  match raw with
  | [] => []
  | b :: bs =>
    match (b :: bs).toByteArray.utf8DecodeChar? 0 with
    | some c => c :: lossyChars ((b :: bs).drop c.utf8Size)
    | none => '\uFFFD' :: lossyChars ((b :: bs).drop (brokenSize (b :: bs)))
termination_by raw.length
decreasing_by
  · have hpos := c.utf8Size_pos
    simp only [List.length_drop, List.length_cons]
    omega
  · have hpos := brokenSize_pos (b :: bs)
    simp only [List.length_drop, List.length_cons]
    omega

/-- The text that bytes are read as. -/
def lossy (raw : List UInt8) : String :=
  String.ofList (lossyChars raw)

/-- What is UTF-8 comes back as it was. -/
theorem lossyChars_bytes (cs : List Char) : lossyChars (bytes cs) = cs := by
  induction cs with
  | nil => rw [bytes_nil, lossyChars]
  | cons c cs ih =>
      obtain ⟨b, bs, hraw⟩ := List.exists_cons_of_ne_nil (String.utf8EncodeChar_ne_nil (c := c))
      have hchar : (b :: (bs ++ bytes cs)).toByteArray.utf8DecodeChar? 0 = some c := by
        rw [← List.cons_append, ← hraw, List.toByteArray_append]
        exact ByteArray.utf8DecodeChar?_utf8EncodeChar_append
      have hrest : (b :: (bs ++ bytes cs)).drop c.utf8Size = bytes cs := by
        rw [← List.cons_append, ← hraw]
        exact List.drop_left' (String.length_utf8EncodeChar c)
      rw [bytes_cons, hraw, List.cons_append, lossyChars, hchar]
      simp only [hrest, ih]

theorem lossy_bytes (cs : List Char) : lossy (bytes cs) = String.ofList cs := by
  rw [lossy, lossyChars_bytes]

/-- Bytes that are cut off inside of a character, or in front of one that they do not go on to. -/
example : lossyChars [0x61, 0xE2, 0x82, 0x62, 0xC3, 0xC3, 0xA9] = ['a', '\uFFFD', 'b', '\uFFFD', 'é'] := by
  cbv

end ViewSync
