import ViewSync.Proofs.Token.Spelling

/-!
# ViewSync.Proofs.Token.Alike

Two texts that are alike up to a character that no number, name or operator holds: an end of a line, or a character
beyond ASCII. Which such character it is does not matter, nor what is behind it: at the start of both texts the same
numbers, names and operators are read (`StartsAlike.decimalNumber_eq`, `StartsAlike.operator?_eq`).
-/

namespace ViewSync

/-! ## foreign characters -/

theorem isNamePart_of_isDigitPart {c : Char} (h : isDigitPart c = true) : isNamePart c = true := by
  simp only [isNamePart, isDigitPart, Char.isAlphanum, Bool.or_eq_true] at h ⊢
  exact h.imp .inr id

theorem isNamePart_of_isHexPart {c : Char} (h : isHexPart c = true) : isNamePart c = true := by
  rw [isHexPart, Bool.or_eq_true, Text.isHexDigit, Text.hexValue?] at h
  simp only [isNamePart, Char.isAlphanum, Char.isAlpha, Char.isUpper, Char.isLower, Char.isDigit, Bool.or_eq_true,
    Bool.and_eq_true, decide_eq_true_eq]
  split_ifs at h with hdigit hlower hupper
  · exact .inl (.inr hdigit)
  · exact .inl (.inl (.inr ⟨hlower.1, le_trans hlower.2 (by decide)⟩))
  · exact .inl (.inl (.inl ⟨hupper.1, le_trans hupper.2 (by decide)⟩))
  · exact .inr (h.resolve_left Bool.false_ne_true)

/-- A character that no number, name or operator holds. -/
def Foreign (c : Char) : Prop :=
  c = '\n' ∨ c = '\r' ∨ 128 ≤ c.toNat

instance (c : Char) : Decidable (Foreign c) :=
  inferInstanceAs (Decidable (c = '\n' ∨ c = '\r' ∨ 128 ≤ c.toNat))

namespace Foreign

variable {c d : Char}

theorem ne (h : Foreign c) (hd : ¬ Foreign d) : c ≠ d :=
  fun heq => hd (heq ▸ h)

theorem isNamePart (h : Foreign c) : isNamePart c = false := by
  obtain rfl | rfl | hwide := h
  · rfl
  · rfl
  · refine Bool.eq_false_iff.2 fun hpart => ?_
    simp only [ViewSync.isNamePart, Char.isAlphanum, Char.isAlpha, Char.isUpper, Char.isLower, Char.isDigit,
      Bool.or_eq_true, Bool.and_eq_true, decide_eq_true_eq, beq_iff_eq, UInt32.le_iff_toNat_le, ge_iff_le] at hpart
    obtain ((⟨-, hle⟩ | ⟨-, hle⟩) | ⟨-, hle⟩) | rfl := hpart
    · exact absurd (Nat.le_trans hwide hle) (by decide)
    · exact absurd (Nat.le_trans hwide hle) (by decide)
    · exact absurd (Nat.le_trans hwide hle) (by decide)
    · exact absurd hwide (by decide)

theorem isDigitPart (h : Foreign c) : isDigitPart c = false :=
  Bool.eq_false_iff.2 fun hpart => absurd (isNamePart_of_isDigitPart hpart) (by simp [h.isNamePart])

theorem isHexPart (h : Foreign c) : isHexPart c = false :=
  Bool.eq_false_iff.2 fun hpart => absurd (isNamePart_of_isHexPart hpart) (by simp [h.isNamePart])

theorem isHexDigit (h : Foreign c) : Text.isHexDigit c = false :=
  (Bool.or_eq_false_iff.1 h.isHexPart).1

theorem isDigit (h : Foreign c) : c.isDigit = false :=
  (Bool.or_eq_false_iff.1 h.isDigitPart).1

theorem startsNumber (h : Foreign c) {cs : List Char} : startsNumber (c :: cs) = false := by
  have hpoint : c ≠ '.' := h.ne (by decide)
  unfold ViewSync.startsNumber
  simp [hpoint, h.isDigit]

theorem isNameStart (h : Foreign c) : isNameStart c = false :=
  Bool.eq_false_iff.2 fun hstart => absurd (isNamePart_of_isNameStart hstart) (by simp [h.isNamePart])

end Foreign

/-! ## hexadecimal numbers -/

/-- The digits behind the mark of a hexadecimal number. -/
def hexRun? : List Char → Option (List Char)
  | '0' :: x :: cs => if x == 'x' || x == 'X' then some (cs.takeWhile isHexPart) else none
  | _ => none

section

variable {cs run : List Char} {cur : Cursor}

theorem hexRun?_eq_some (h : hexRun? cs = some run) :
    ∃ x more, cs = '0' :: x :: more ∧ (x = 'x' ∨ x = 'X') ∧ run = more.takeWhile isHexPart := by
  unfold hexRun? at h
  split at h
  · next x more =>
    split_ifs at h with hx
    exact ⟨x, more, rfl, by simpa using hx, (Option.some.inj h).symm⟩
  · cases h

theorem hexRun?_eq_none (h : ∀ x more, cs = '0' :: x :: more → (x == 'x' || x == 'X') = false) : hexRun? cs = none := by
  unfold hexRun?
  split
  · next x more => rw [h x more rfl, if_neg Bool.false_ne_true]
  · rfl

/-- A number that is not hexadecimal. -/
theorem scanNumber_plain (h : hexRun? cur.rest = none) :
    scanNumber cur = ⟨.token (decimalNumber cur.rest).1, cur.advance (max (decimalNumber cur.rest).2 1), []⟩ := by
  unfold scanNumber
  split
  · next x cs hrest =>
    simp only [hexRun?, hrest, ite_eq_right_iff, reduceCtorEq, imp_false] at h
    rw [if_neg h, hrest]
  · rfl

theorem scanNumber_hexRun (h : hexRun? cur.rest = some run) :
    scanNumber cur =
      let digits := withoutSeparators run
      let next := cur.advance (2 + run.length)
      if !digits.isEmpty && Text.ofHexDigits digits ≤ Decimal.maxInt64 then
        ⟨.token (.int (Text.ofHexDigits digits)), next, []⟩
      else ⟨.token (.int 0), next, [⟨.badHex (String.ofList digits), next.spanFrom cur.pos⟩]⟩ := by
  obtain ⟨x, more, hrest, hx, rfl⟩ := hexRun?_eq_some h
  have hmark : (x == 'x' || x == 'X') = true := by simpa using hx
  unfold scanNumber
  simp only [hrest, hmark, if_true]

end

/-! ## texts without foreign characters -/

theorem not_foreign_of_isDigitText {digits : List Char} (h : isDigitText digits = true) :
    ∀ c ∈ digits, ¬ Foreign c :=
  fun c hc hforeign => absurd ((isDigitPart_of_isDigitText h).2 c hc) (by simp [hforeign.isDigitPart])

theorem FractionText.not_foreign {text digits : List Char} (h : FractionText text digits) :
    ∀ c ∈ text, ¬ Foreign c := by
  cases h with
  | none => simp
  | point hdigits => exact List.forall_mem_cons.2 ⟨by decide, not_foreign_of_isDigitText hdigits⟩

theorem ExponentText.not_foreign {text : List Char} {power : Int} (h : ExponentText text power) :
    ∀ c ∈ text, ¬ Foreign c := by
  have hmarked : ∀ {mark : Char} {more : List Char}, mark = 'e' ∨ mark = 'E' → (∀ c ∈ more, ¬ Foreign c) →
      ∀ c ∈ mark :: more, ¬ Foreign c := by
    rintro mark more (rfl | rfl) hmore <;> exact List.forall_mem_cons.2 ⟨by decide, hmore⟩
  cases h with
  | none => simp
  | plain hmark hdigits => exact hmarked hmark (not_foreign_of_isDigitText hdigits)
  | plus hmark hdigits =>
      exact hmarked hmark (List.forall_mem_cons.2 ⟨by decide, not_foreign_of_isDigitText hdigits⟩)
  | minus hmark hdigits =>
      exact hmarked hmark (List.forall_mem_cons.2 ⟨by decide, not_foreign_of_isDigitText hdigits⟩)

/-- Strings aside, no character of a token is foreign. -/
theorem Spells.not_foreign {text : List Char} {kind : TokenKind} (h : Spells text kind)
    (hkind : ∀ content, kind ≠ .str content) : ∀ c ∈ text, ¬ Foreign c := by
  cases h with
  | symbol s => cases s <;> simp [Symbol.text, Foreign]
  | @augAssign op _ => cases op <;> simp [BinaryOp.symbol, Foreign]
  | word hname =>
      exact fun c hc hforeign => absurd ((isNamePart_of_isNameText hname).2 c hc) (by simp [hforeign.isNamePart])
  | whole hwhole _ => exact not_foreign_of_isDigitText hwhole
  | large hwhole _ => exact not_foreign_of_isDigitText hwhole
  | real hwhole hfraction hexponent _ =>
      have hmore := List.forall_mem_append.2 ⟨hfraction.not_foreign, hexponent.not_foreign⟩
      obtain rfl | hwhole := hwhole
      · exact hmore
      · exact List.forall_mem_append.2 ⟨not_foreign_of_isDigitText hwhole, hmore⟩
  | @hex mark run hmark hrun _ _ =>
      have hdigits : ∀ c ∈ run, ¬ Foreign c :=
        fun c hc hforeign => absurd (hrun c hc) (by simp [hforeign.isHexPart])
      refine List.forall_mem_cons.2 ⟨by decide, List.forall_mem_cons.2 ⟨?_, hdigits⟩⟩
      obtain rfl | rfl := hmark <;> decide
  | str _ _ => exact absurd rfl (hkind _)
  | tripleStr _ _ => exact absurd rfl (hkind _)

theorem not_foreign_of_mem_operatorTable {entry : List Char × TokenKind} (h : entry ∈ operatorTable) :
    ∀ c ∈ entry.1, ¬ Foreign c := by
  refine (spells_of_mem_operatorTable h).2.not_foreign fun content hkind => ?_
  simp only [operatorTable, List.mem_append, List.mem_map] at h
  obtain ⟨op, -, rfl⟩ | ⟨s, -, rfl⟩ := h <;> cases hkind

theorem not_foreign_of_hexRun? {cs run : List Char} (h : hexRun? cs = some run) :
    ∀ c ∈ cs.take (2 + run.length), ¬ Foreign c := by
  obtain ⟨x, more, rfl, hx, rfl⟩ := hexRun?_eq_some h
  rw [Nat.add_comm, List.take_succ_cons, List.take_succ_cons, take_length_takeWhile]
  refine List.forall_mem_cons.2 ⟨by decide, List.forall_mem_cons.2 ⟨?_, fun c hc hforeign => ?_⟩⟩
  · obtain rfl | rfl := hx <;> decide
  · exact absurd (List.all_eq_true.1 List.all_takeWhile c hc) (by simp [hforeign.isHexPart])

theorem not_foreign_of_decimalNumber {cs : List Char} (h : startsNumber cs = true) :
    ∀ c ∈ cs.take (max (decimalNumber cs).2 1), ¬ Foreign c := by
  refine (spells_decimalNumber h).not_foreign fun content hkind => ?_
  rw [decimalNumber_eq] at hkind
  split at hkind
  · split at hkind <;> cases hkind
  · cases hkind

theorem not_foreign_of_operator? {cs : List Char} {kind : TokenKind} {size : Nat}
    (h : operator? cs = some (kind, size)) :
    ∀ c ∈ cs.take (max size 1), ¬ Foreign c := by
  obtain ⟨entry, hentry, heq⟩ := Option.map_eq_some_iff.1 h
  obtain ⟨-, rfl⟩ := Prod.mk.inj heq
  have hmem := List.mem_of_find?_eq_some hentry
  have hfound := List.find?_some hentry
  have hstarts : entry.1 <+: cs := List.isPrefixOf_iff_prefix.1 hfound
  rw [Nat.max_eq_left (List.length_pos_iff.2 (spells_of_mem_operatorTable hmem).1), ← List.prefix_iff_eq_take.1 hstarts]
  exact not_foreign_of_mem_operatorTable hmem

/-! ## alike texts -/

/-- Two texts with the same characters in front, up to the end of both or a foreign character in each. -/
inductive StartsAlike : List Char → List Char → Prop
  | nil : StartsAlike [] []
  | cons (c : Char) {cs ds : List Char} : StartsAlike cs ds → StartsAlike (c :: cs) (c :: ds)
  | stop {c d : Char} {cs ds : List Char} : Foreign c → Foreign d → StartsAlike (c :: cs) (d :: ds)

namespace StartsAlike

variable {cs ds text : List Char} {c d : Char} {p : Char → Bool} {n : Nat}

theorem refl (cs : List Char) : StartsAlike cs cs := by
  induction cs with
  | nil => exact .nil
  | cons c cs ih => exact .cons c ih

/-- A run that no foreign character belongs to. -/
theorem takeWhile_eq (h : StartsAlike cs ds) (hp : ∀ c, Foreign c → p c = false) : cs.takeWhile p = ds.takeWhile p := by
  induction h with
  | nil => rfl
  | cons c _ ih => rw [List.takeWhile_cons, List.takeWhile_cons, ih]
  | stop hc hd => rw [List.takeWhile_cons_of_neg (by simp [hp _ hc]), List.takeWhile_cons_of_neg (by simp [hp _ hd])]

/-- What both texts have in front of the foreign characters. -/
theorem take_eq (h : StartsAlike cs ds) (hn : ∀ c ∈ cs.take n, ¬ Foreign c) : cs.take n = ds.take n := by
  induction h generalizing n with
  | nil => rfl
  | cons c _ ih =>
      cases n with
      | zero => rfl
      | succ n => rw [List.take_succ_cons, List.take_succ_cons, ih (List.forall_mem_cons.1 hn).2]
  | stop hc _ =>
      cases n with
      | zero => rfl
      | succ n => exact absurd hc (List.forall_mem_cons.1 hn).1

theorem drop (h : StartsAlike cs ds) (hn : ∀ c ∈ cs.take n, ¬ Foreign c) : StartsAlike (cs.drop n) (ds.drop n) := by
  induction h generalizing n with
  | nil => simpa using StartsAlike.nil
  | cons c h ih =>
      cases n with
      | zero => exact .cons c h
      | succ n => exact ih (List.forall_mem_cons.1 hn).2
  | stop hc hd =>
      cases n with
      | zero => exact .stop hc hd
      | succ n => exact absurd hc (List.forall_mem_cons.1 hn).1

theorem not_foreign_of_mem_takeWhile (hp : ∀ c, Foreign c → p c = false) (hc : c ∈ cs.takeWhile p) :
    ¬ Foreign c :=
  fun hforeign => absurd (List.all_eq_true.1 List.all_takeWhile c hc) (by simp [hp c hforeign])

theorem drop_takeWhile (h : StartsAlike cs ds) (hp : ∀ c, Foreign c → p c = false) :
    StartsAlike (cs.drop (cs.takeWhile p).length) (ds.drop (cs.takeWhile p).length) := by
  refine h.drop fun c hc => ?_
  rw [take_length_takeWhile] at hc
  exact not_foreign_of_mem_takeWhile hp hc

theorem isPrefixOf_eq (h : StartsAlike cs ds) (htext : ∀ c ∈ text, ¬ Foreign c) :
    text.isPrefixOf cs = text.isPrefixOf ds := by
  induction h generalizing text with
  | nil => rfl
  | cons c _ ih =>
      cases text with
      | nil => rfl
      | cons t text =>
          rw [List.isPrefixOf_cons_cons, List.isPrefixOf_cons_cons, ih (List.forall_mem_cons.1 htext).2]
  | stop hc hd =>
      cases text with
      | nil => rfl
      | cons t text =>
          have ht := (List.forall_mem_cons.1 htext).1
          rw [List.isPrefixOf_cons_cons, List.isPrefixOf_cons_cons, beq_false_of_ne (hc.ne ht).symm,
            beq_false_of_ne (hd.ne ht).symm, Bool.false_and, Bool.false_and]

/-- Whether two quotes are ahead. -/
theorem take_two_eq (h : StartsAlike cs ds) (hc : ¬ Foreign c) : (cs.take 2 == [c, c]) = (ds.take 2 == [c, c]) := by
  have hstarts : ∀ cs : List Char, (cs.take 2 == [c, c]) = [c, c].isPrefixOf cs := by
    intro cs
    rw [Bool.eq_iff_iff, beq_iff_eq, List.isPrefixOf_iff_prefix, List.prefix_iff_eq_take]
    exact eq_comm
  rw [hstarts, hstarts]
  exact h.isPrefixOf_eq (by simp [hc])

/-! ## numbers -/

theorem hexRun?_eq (h : StartsAlike cs ds) : hexRun? cs = hexRun? ds := by
  have hnone : ∀ {c : Char} {cs : List Char}, c ≠ '0' → hexRun? (c :: cs) = none :=
    fun hc => hexRun?_eq_none fun x more heq => absurd (List.cons.inj heq).1 hc
  have hstop : ∀ {c x : Char} {cs : List Char}, Foreign x → hexRun? (c :: x :: cs) = none := by
    intro c x cs hx
    refine hexRun?_eq_none fun y more heq => ?_
    obtain ⟨-, htail⟩ := List.cons.inj heq
    have hne : x ≠ 'x' ∧ x ≠ 'X' := ⟨hx.ne (by decide), hx.ne (by decide)⟩
    rw [← (List.cons.inj htail).1]
    simpa using hne
  cases h with
  | nil => rfl
  | stop hc hd => rw [hnone (hc.ne (by decide)), hnone (hd.ne (by decide))]
  | cons c h =>
      by_cases hc : c = '0'
      · subst hc
        cases h with
        | nil => rfl
        | cons x h => simp only [hexRun?, h.takeWhile_eq fun _ => Foreign.isHexPart]
        | stop hc hd => rw [hstop hc, hstop hd]
      · rw [hnone hc, hnone hc]

theorem startsNumber_eq (h : StartsAlike cs ds) : startsNumber cs = startsNumber ds := by
  cases h with
  | nil => rfl
  | stop hc hd => rw [hc.startsNumber, hd.startsNumber]
  | cons c h =>
      by_cases hpoint : c = '.'
      · subst hpoint
        cases h with
        | nil => rfl
        | cons d h => rfl
        | stop hc hd => exact hc.isDigit.trans hd.isDigit.symm
      · unfold startsNumber
        simp [hpoint]

theorem fractionRun_eq (h : StartsAlike cs ds) : fractionRun cs = fractionRun ds := by
  have hnone : ∀ {c : Char} {cs : List Char}, c ≠ '.' → fractionRun (c :: cs) = [] := by
    intro c cs hc
    unfold fractionRun
    simp [hc]
  cases h with
  | nil => rfl
  | stop hc hd => rw [hnone (hc.ne (by decide)), hnone (hd.ne (by decide))]
  | cons c h =>
      by_cases hpoint : c = '.'
      · subst hpoint
        cases h with
        | nil => rfl
        | cons d h =>
            have hrun := (StartsAlike.cons d h).takeWhile_eq (p := isDigitPart) fun _ => Foreign.isDigitPart
            simp only [fractionRun, hrun]
        | stop hc hd => simp [fractionRun, hc.isDigit, hd.isDigit]
      · rw [hnone hpoint, hnone hpoint]

theorem exponentMark_eq (h : StartsAlike cs ds) : exponentMark cs = exponentMark ds := by
  have hnone : ∀ {e : Char} {cs : List Char}, (e == 'e' || e == 'E') = false → exponentMark (e :: cs) = 0 := by
    intro e cs he
    unfold exponentMark
    split
    · next heq =>
      obtain ⟨rfl, rfl⟩ := List.cons.inj heq
      rw [if_neg (Bool.eq_false_iff.1 he)]
    · rfl
  have hstop : ∀ {e c : Char} {cs : List Char}, Foreign c → exponentMark (e :: c :: cs) = 0 := by
    intro e c cs hc
    have hne : c ≠ '+' ∧ c ≠ '-' := ⟨hc.ne (by decide), hc.ne (by decide)⟩
    simp [exponentMark, hc.isDigit, hne]
  cases h with
  | nil => rfl
  | stop hc hd =>
      have hmark : ∀ {c : Char}, Foreign c → (c == 'e' || c == 'E') = false := by
        intro c hc
        have hne : c ≠ 'e' ∧ c ≠ 'E' := ⟨hc.ne (by decide), hc.ne (by decide)⟩
        simpa using hne
      rw [hnone (hmark hc), hnone (hmark hd)]
  | cons e h =>
      cases h with
      | nil => rfl
      | stop hc hd => rw [hstop hc, hstop hd]
      | cons c h =>
          cases h with
          | nil => rfl
          | cons d h => rfl
          | stop hc hd => simp [exponentMark, hc.isDigit, hd.isDigit]

theorem drop_fraction (h : StartsAlike cs ds) :
    StartsAlike (cs.drop (fractionSize (fractionRun cs))) (ds.drop (fractionSize (fractionRun cs))) :=
  h.drop (fractionText_take cs).not_foreign

theorem not_foreign_of_mem_mark (hc : c ∈ cs.take (exponentMark cs)) : ¬ Foreign c := by
  refine (exponentText_take cs).not_foreign c (List.take_subset_take_left _ ?_ hc)
  unfold exponentSize
  split <;> omega

theorem exponentRun_eq (h : StartsAlike cs ds) : exponentRun cs = exponentRun ds := by
  rw [exponentRun, exponentRun, ← h.exponentMark_eq]
  exact (h.drop fun _ => not_foreign_of_mem_mark).takeWhile_eq fun _ => Foreign.isDigitPart

theorem exponentSize_eq (h : StartsAlike cs ds) : exponentSize cs = exponentSize ds := by
  rw [exponentSize, exponentSize, h.exponentMark_eq, h.exponentRun_eq]

theorem exponentValue_eq (h : StartsAlike cs ds) : exponentValue cs = exponentValue ds := by
  have hmark : cs.take (exponentMark cs) = ds.take (exponentMark cs) := h.take_eq fun _ => not_foreign_of_mem_mark
  rw [exponentValue, exponentValue, hmark, h.exponentMark_eq, h.exponentRun_eq]

/-- How a number reads. -/
theorem decimalNumber_eq (h : StartsAlike cs ds) : decimalNumber cs = decimalNumber ds := by
  have hwhole : cs.takeWhile isDigitPart = ds.takeWhile isDigitPart := h.takeWhile_eq fun _ => Foreign.isDigitPart
  have hafter := h.drop_takeWhile fun _ => Foreign.isDigitPart
  have hafterFraction := hafter.drop_fraction
  rw [ViewSync.decimalNumber_eq, ViewSync.decimalNumber_eq ds, ← hwhole, ← hafter.fractionRun_eq,
    hafterFraction.exponentMark_eq, hafterFraction.exponentValue_eq, hafterFraction.exponentSize_eq]

/-! ## operators -/

theorem operator?_eq (h : StartsAlike cs ds) : operator? cs = operator? ds := by
  have hfind : ∀ table : List (List Char × TokenKind), (∀ entry ∈ table, ∀ c ∈ entry.1, ¬ Foreign c) →
      table.find? (·.1.isPrefixOf cs) = table.find? (·.1.isPrefixOf ds) := by
    intro table htable
    induction table with
    | nil => rfl
    | cons entry table ih =>
        obtain ⟨hentry, hrest⟩ := List.forall_mem_cons.1 htable
        rw [List.find?_cons, List.find?_cons, h.isPrefixOf_eq hentry, ih hrest]
  rw [operator?, operator?, hfind _ fun _ => not_foreign_of_mem_operatorTable]

end StartsAlike

end ViewSync
