import ViewSync.Proofs.Token.Alike

/-!
# ViewSync.Proofs.Token.Locality

What stands at a place is read alike at another one. A lexeme does not depend on the line it is on, and no reader
looks beyond the end of a line, unless it is inside a string: with more text behind that end, and some lines further
down, the same lexeme is found, and all that tells a position moves with it (`scan_moved`).
-/

namespace ViewSync

/-! ## further down -/

/-- The position so many lines further down. -/
def Pos.down (n : Nat) (p : Pos) : Pos :=
  ⟨p.line + n, p.col⟩

/-- The span so many lines further down. -/
def Span.down (n : Nat) (span : Span) : Span :=
  ⟨span.first.down n, span.last.down n⟩

/-- The token so many lines further down. -/
def Token.down (n : Nat) (t : Token) : Token :=
  ⟨t.kind, t.span.down n⟩

/-- The fault so many lines further down. -/
def Fault.down (n : Nat) (fault : Fault LexError) : Fault LexError :=
  ⟨fault.cause, fault.span.down n⟩

@[simp] theorem Token.down_zero : Token.down 0 = id := rfl

@[simp] theorem Fault.down_zero : Fault.down 0 = id := rfl

theorem Pos.after_down (n : Nat) (p : Pos) (c : Char) : (p.down n).after c = (p.after c).down n := by
  unfold after
  split
  · simp only [down, Nat.add_right_comm]
  · rfl

/-- The cursor so many lines further down, with more text behind. -/
def Cursor.moved (n : Nat) (more : List Char) (cur : Cursor) : Cursor :=
  ⟨cur.rest ++ more, cur.pos.down n⟩

/-- The lexeme so many lines further down, with more text behind. -/
def Scanned.moved (n : Nat) (more : List Char) (scanned : Scanned) : Scanned :=
  ⟨scanned.lexeme, scanned.next.moved n more, scanned.faults.map (Fault.down n)⟩

/-- The escape sequence so many lines further down, with more text behind. -/
def Escaped.moved (n : Nat) (more : List Char) (escaped : Escaped) : Escaped :=
  ⟨escaped.chars, escaped.next.moved n more, escaped.faults.map (Fault.down n)⟩

/-- The content of a string so many lines further down, with more text behind. -/
def StringBody.moved (n : Nat) (more : List Char) (body : StringBody) : StringBody :=
  ⟨body.content, body.next.moved n more, body.faults.map (Fault.down n), body.closed⟩

/-! ## ends of lines -/

/-- What is ahead ends with a newline, or no more text is behind it. -/
def Parted (ahead more : List Char) : Prop :=
  more = [] ∨ ∃ front, ahead = front ++ ['\n']

section

variable {ahead more cs : List Char} {c : Char} {p : Char → Bool}

theorem parted_nil (ahead : List Char) : Parted ahead [] := .inl rfl

theorem Parted.of_nil (h : Parted [] more) : more = [] := by
  obtain h | ⟨front, h⟩ := h
  · exact h
  · simp at h

theorem Parted.drop (h : Parted ahead more) {n : Nat} (hn : n < ahead.length) : Parted (ahead.drop n) more := by
  obtain rfl | ⟨front, rfl⟩ := h
  · exact parted_nil _
  · rw [List.length_append, List.length_singleton] at hn
    exact .inr ⟨front.drop n, List.drop_append_of_le_length (by omega)⟩

theorem Parted.tail (h : Parted (c :: cs) more) (hc : c ≠ '\n') : Parted cs more := by
  obtain rfl | ⟨front, hfront⟩ := h
  · exact parted_nil _
  · cases front with
    | nil => exact absurd (List.cons.inj hfront).1 hc
    | cons d front => exact .inr ⟨front, (List.cons.inj hfront).2⟩

theorem Parted.head?_append (h : Parted ahead more) : (ahead ++ more).head? = ahead.head? := by
  cases ahead with
  | nil => rw [h.of_nil, List.append_nil]
  | cons c cs => rfl

/-- A run of characters that are no newlines does not go on in the text behind. -/
theorem Parted.takeWhile_append (h : Parted ahead more) (hp : p '\n' = false) :
    (ahead ++ more).takeWhile p = ahead.takeWhile p := by
  obtain rfl | ⟨front, rfl⟩ := h
  · rw [List.append_nil]
  · induction front with
    | nil => simp [hp]
    | cons d front ih => simp only [List.cons_append, List.takeWhile_cons, ih]

theorem Parted.drop_takeWhile (h : Parted ahead more) (hp : p '\n' = false) :
    Parted (ahead.drop (ahead.takeWhile p).length) more := by
  obtain rfl | ⟨front, rfl⟩ := h
  · exact parted_nil _
  · induction front with
    | nil => exact .inr ⟨[], by simp [hp]⟩
    | cons d front ih =>
        rw [List.cons_append, List.takeWhile_cons]
        split
        · exact ih
        · exact .inr ⟨d :: front, rfl⟩

theorem takeWhile_take (n : Nat) (cs : List Char) : (cs.take n).takeWhile p = (cs.takeWhile p).take n := by
  induction cs generalizing n with
  | nil => simp
  | cons c cs ih =>
      cases n with
      | zero => rfl
      | succ n =>
          rw [List.take_succ_cons, List.takeWhile_cons, List.takeWhile_cons]
          split
          · rw [ih, List.take_succ_cons]
          · rfl

/-- The text behind does not come into what is ahead. -/
theorem Parted.alike (h : Parted ahead more) : StartsAlike (ahead ++ more) ahead := by
  obtain rfl | ⟨front, rfl⟩ := h
  · rw [List.append_nil]
    exact .refl ahead
  · induction front with
    | nil => exact .stop (.inl rfl) (.inl rfl)
    | cons c front ih => exact .cons c ih

end

/-! ## cursors -/

namespace Cursor

variable {cur : Cursor} {n k : Nat} {more : List Char} {p : Char → Bool}

theorem advance_moved (h : k ≤ cur.rest.length) : (cur.moved n more).advance k = (cur.advance k).moved n more := by
  induction k generalizing cur with
  | zero => rfl
  | succ k ih =>
      obtain ⟨rest, pos⟩ := cur
      cases rest with
      | nil => simp at h
      | cons c cs =>
          have hrest := @ih ⟨cs, pos.after c⟩ (by simpa using h)
          simpa only [advance, moved, List.cons_append, Pos.after_down] using hrest

theorem skipWhile_moved (h : Parted cur.rest more) (hp : p '\n' = false) :
    (cur.moved n more).skipWhile p = (cur.skipWhile p).moved n more := by
  have hsame : ((cur.moved n more).rest.takeWhile p).length = (cur.rest.takeWhile p).length :=
    congrArg List.length (h.takeWhile_append hp)
  rw [skipWhile, skipWhile, hsame]
  exact advance_moved (List.takeWhile_prefix p).length_le

theorem parted_skipWhile (h : Parted cur.rest more) (hp : p '\n' = false) : Parted (cur.skipWhile p).rest more := by
  rw [skipWhile, rest_advance]
  exact h.drop_takeWhile hp

end Cursor

theorem spanFrom_moved (n : Nat) (more : List Char) (cur : Cursor) (start : Pos) :
    (cur.moved n more).spanFrom (start.down n) = (cur.spanFrom start).down n := rfl

/-! ## numbers -/

theorem fractionSize_le (cs : List Char) : fractionSize (fractionRun cs) ≤ cs.length := by
  have hsize : ∀ run : List Char, fractionSize run ≤ run.length + 1 := by
    intro run
    unfold fractionSize
    split <;> omega
  unfold fractionRun
  split
  · split
    · exact (hsize _).trans (Nat.succ_le_succ (List.takeWhile_prefix _).length_le)
    · exact Nat.zero_le _
  · exact Nat.zero_le _

theorem exponentMark_le (cs : List Char) : exponentMark cs ≤ cs.length := by
  by_cases hmark : exponentMark cs = 0
  · rw [hmark]
    exact Nat.zero_le _
  · obtain ⟨mark, d, more, rfl, -, -, hsize⟩ | ⟨mark, sign, d, more, rfl, -, -, -, hsize⟩ := exponentMark_cases hmark
    all_goals
      rw [hsize]
      simp

theorem decimalNumber_le (cs : List Char) : (decimalNumber cs).2 ≤ cs.length := by
  have hwhole : (cs.takeWhile isDigitPart).length ≤ cs.length := (List.takeWhile_prefix _).length_le
  rw [decimalNumber_eq]
  split
  · exact hwhole
  · have hfraction := fractionSize_le (cs.drop (cs.takeWhile isDigitPart).length)
    generalize hafter : cs.drop (cs.takeWhile isDigitPart).length = afterWhole at hfraction ⊢
    have hexponent : exponentSize (afterWhole.drop (fractionSize (fractionRun afterWhole))) ≤
        (afterWhole.drop (fractionSize (fractionRun afterWhole))).length := by
      generalize afterWhole.drop (fractionSize (fractionRun afterWhole)) = afterFraction
      have hmark := exponentMark_le afterFraction
      have hdigits : (exponentRun afterFraction).length ≤ (afterFraction.drop (exponentMark afterFraction)).length :=
        (List.takeWhile_prefix _).length_le
      rw [List.length_drop] at hdigits
      unfold exponentSize
      split <;> omega
    have hlength : afterWhole.length = cs.length - (cs.takeWhile isDigitPart).length := by
      rw [← hafter, List.length_drop]
    rw [List.length_drop] at hexponent
    omega

section

variable {cur : Cursor} {more : List Char}

/-- A number reads alike elsewhere. -/
theorem scanNumber_moved (h : Parted cur.rest more) (hrest : cur.rest ≠ []) (n : Nat) :
    scanNumber (cur.moved n more) = (scanNumber cur).moved n more := by
  have hone : 1 ≤ cur.rest.length := List.length_pos_iff.2 hrest
  have hhex : hexRun? (cur.moved n more).rest = hexRun? cur.rest := h.alike.hexRun?_eq
  cases hrun : hexRun? cur.rest with
  | none =>
      have hle : max (decimalNumber cur.rest).2 1 ≤ cur.rest.length := Nat.max_le.2 ⟨decimalNumber_le _, hone⟩
      have hsame : decimalNumber (cur.moved n more).rest = decimalNumber cur.rest := h.alike.decimalNumber_eq
      rw [scanNumber_plain hrun, scanNumber_plain (hhex.trans hrun), hsame, Cursor.advance_moved hle]
      rfl
  | some run =>
      have hle : 2 + run.length ≤ cur.rest.length := by
        obtain ⟨x, cs, heq, -, rfl⟩ := hexRun?_eq_some hrun
        have hprefix := (List.takeWhile_prefix (l := cs) isHexPart).length_le
        rw [heq, List.length_cons, List.length_cons]
        omega
      rw [scanNumber_hexRun hrun, scanNumber_hexRun (hhex.trans hrun), Cursor.advance_moved hle]
      dsimp only
      split <;> rfl

/-! ## names, operators and joined lines -/

theorem scanName_moved (h : Parted cur.rest more) (hrest : cur.rest ≠ []) (n : Nat) :
    scanName (cur.moved n more) = (scanName cur).moved n more := by
  have hsame : (cur.moved n more).rest.takeWhile isNamePart = cur.rest.takeWhile isNamePart :=
    h.takeWhile_append (by decide)
  have hle : max (cur.rest.takeWhile isNamePart).length 1 ≤ cur.rest.length :=
    Nat.max_le.2 ⟨(List.takeWhile_prefix _).length_le, List.length_pos_iff.2 hrest⟩
  rw [scanName, scanName, hsame, Cursor.advance_moved hle]
  rfl

theorem length_le_of_operator? {cs : List Char} {kind : TokenKind} {size : Nat} (h : operator? cs = some (kind, size)) :
    size ≤ cs.length := by
  obtain ⟨entry, hentry, heq⟩ := Option.map_eq_some_iff.1 h
  obtain ⟨-, rfl⟩ := Prod.mk.inj heq
  have hprefix := List.find?_some hentry
  exact (List.isPrefixOf_iff_prefix.1 hprefix).length_le

theorem scanOperator_moved (h : Parted cur.rest more) (hrest : cur.rest ≠ []) (n : Nat) (c : Char) :
    scanOperator c (cur.moved n more) = (scanOperator c cur).moved n more := by
  have hone : 1 ≤ cur.rest.length := List.length_pos_iff.2 hrest
  have hsame : operator? (cur.moved n more).rest = operator? cur.rest := h.alike.operator?_eq
  unfold scanOperator
  rw [hsame]
  split
  · next kind size heq =>
    rw [Cursor.advance_moved (Nat.max_le.2 ⟨length_le_of_operator? heq, hone⟩)]
    rfl
  · rw [Cursor.advance_moved hone]
    rfl

/-- Behind the return that may stand at the end of a line. -/
def behindReturn (cur : Cursor) : Cursor :=
  if cur.rest.head? = some '\r' then cur.advance 1 else cur

theorem scanJoin_eq (cur : Cursor) :
    scanJoin cur =
      if (behindReturn (cur.advance 1)).rest.head? = some '\n' then
        ⟨.trivia, (behindReturn (cur.advance 1)).advance 1, []⟩
      else ⟨.trivia, behindReturn (cur.advance 1),
        [⟨.strayBackslash, (behindReturn (cur.advance 1)).spanFrom cur.pos⟩]⟩ := rfl

theorem behindReturn_moved (h : Parted cur.rest more) (n : Nat) :
    behindReturn (cur.moved n more) = (behindReturn cur).moved n more ∧ Parted (behindReturn cur).rest more := by
  have hhead : (cur.moved n more).rest.head? = cur.rest.head? := h.head?_append
  unfold behindReturn
  rw [hhead]
  split
  · next hreturn =>
    obtain ⟨cs, hcs⟩ := List.head?_eq_some_iff.1 hreturn
    rw [hcs] at h
    refine ⟨Cursor.advance_moved (by simp [hcs]), ?_⟩
    rw [Cursor.rest_advance, hcs]
    exact h.tail (by decide)
  · exact ⟨rfl, h⟩

theorem scanJoin_moved {cs : List Char} (h : Parted cur.rest more) (hrest : cur.rest = '\\' :: cs) (n : Nat) :
    scanJoin (cur.moved n more) = (scanJoin cur).moved n more := by
  have hfirst : (cur.moved n more).advance 1 = (cur.advance 1).moved n more := Cursor.advance_moved (by simp [hrest])
  have htail : Parted (cur.advance 1).rest more := by
    rw [Cursor.rest_advance, hrest]
    rw [hrest] at h
    exact h.tail (by decide)
  obtain ⟨hbehind, hparted⟩ := behindReturn_moved htail n
  have hhead : ((behindReturn (cur.advance 1)).moved n more).rest.head? = (behindReturn (cur.advance 1)).rest.head? :=
    hparted.head?_append
  rw [scanJoin_eq, scanJoin_eq, hfirst, hbehind, hhead]
  split
  · next hnewline =>
    obtain ⟨cs, hcs⟩ := List.head?_eq_some_iff.1 hnewline
    rw [Cursor.advance_moved (by simp [hcs])]
    rfl
  · rfl

end

/-! ## strings -/

section

variable {cur : Cursor} {more : List Char}

theorem scanNumberedEscape_moved (h : Parted cur.rest more) (n : Nat) (start : Pos) (kind : Char) (width : Nat) :
    scanNumberedEscape (start.down n) kind width (cur.moved n more) =
      (scanNumberedEscape start kind width cur).moved n more := by
  have hdigits : ((cur.moved n more).rest.take width).takeWhile Text.isHexDigit =
      (cur.rest.take width).takeWhile Text.isHexDigit := by
    rw [takeWhile_take, takeWhile_take]
    exact congrArg _ (h.takeWhile_append (by decide))
  have hle : ((cur.rest.take width).takeWhile Text.isHexDigit).length ≤ cur.rest.length :=
    (List.takeWhile_prefix _).length_le.trans (List.length_take_le' _ _)
  unfold scanNumberedEscape
  dsimp only
  rw [hdigits, Cursor.advance_moved hle]
  split
  · rfl
  · rfl

theorem scanEscape_moved (h : Parted cur.rest more) (n : Nat) (start : Pos) :
    scanEscape (start.down n) (cur.moved n more) = (scanEscape start cur).moved n more := by
  cases hrest : cur.rest with
  | nil =>
      rw [hrest] at h
      obtain rfl := h.of_nil
      simp [scanEscape, Cursor.moved, Escaped.moved, hrest]
  | cons c cs =>
      have hmoved : (cur.moved n more).rest = c :: (cs ++ more) := by rw [Cursor.moved, hrest]; rfl
      have hnext : (cur.moved n more).advance 1 = (cur.advance 1).moved n more := Cursor.advance_moved (by simp [hrest])
      have htail : c ≠ '\n' → Parted (cur.advance 1).rest more := by
        intro hc
        rw [Cursor.rest_advance, hrest]
        rw [hrest] at h
        exact h.tail hc
      unfold scanEscape
      rw [hmoved, hrest]
      dsimp only
      rw [hnext]
      split
      case h_9 => exact scanNumberedEscape_moved (htail (by decide)) n start 'x' 2
      case h_10 => exact scanNumberedEscape_moved (htail (by decide)) n start 'u' 4
      all_goals rfl

/-- What stands behind a character, if anything does. -/
theorem Parted.of_reaches {next : Cursor} (h : Parted cur.rest more) (hreaches : cur.Reaches next)
    (hnext : next.rest = [] → more = []) : Parted next.rest more := by
  obtain ⟨n, rfl⟩ := hreaches
  rw [Cursor.rest_advance] at hnext ⊢
  by_cases hn : n < cur.rest.length
  · exact h.drop hn
  · rw [hnext (List.drop_eq_nil_of_le (Nat.le_of_not_lt hn))]
    exact parted_nil _

/-- Two more quotes are not behind the end of a line. -/
theorem take_two_append {quote : Char} (hquote : quote ≠ '\n') {cs : List Char} (h : Parted cs more) :
    ((cs ++ more).take 2 == [quote, quote]) = (cs.take 2 == [quote, quote]) := by
  cases cs with
  | nil => rw [h.of_nil, List.append_nil]
  | cons c cs =>
      by_cases hc : c = '\n'
      · have hne : ∀ rest, ((c :: rest).take 2 == [quote, quote]) = false := by
          intro rest
          simp [hc, Ne.symm hquote]
        rw [List.cons_append, hne, hne]
      · have htail := h.tail hc
        cases cs with
        | nil => rw [htail.of_nil, List.append_nil]
        | cons d cs => rfl

theorem scanBody_cons {quote c : Char} {triple : Bool} {cs : List Char} (hrest : cur.rest = c :: cs) :
    scanBody quote triple cur =
      if c == '\n' && !triple then ⟨[], cur, [], false⟩
      else if c == quote && !triple then ⟨[], cur.advance 1, [], true⟩
      else if c == quote && cs.take 2 == [quote, quote] then ⟨[], cur.advance 3, [], true⟩
      else if c == '\\' then
        (scanBody quote triple (scanEscape cur.pos (cur.advance 1)).next).after
          (scanEscape cur.pos (cur.advance 1)).chars (scanEscape cur.pos (cur.advance 1)).faults
      else (scanBody quote triple (cur.advance 1)).after [c] [] := by
  rw [scanBody]
  split
  · next hnil =>
    rw [hrest] at hnil
    cases hnil
  · next hcons =>
    rw [hrest] at hcons
    cases hcons
    rfl

theorem scanBody_nil {quote : Char} {triple : Bool} (hrest : cur.rest = []) :
    scanBody quote triple cur = ⟨[], cur, [], false⟩ := by
  rw [scanBody]
  split
  · rfl
  · next hcons =>
    rw [hrest] at hcons
    cases hcons

theorem StringBody.after_moved (n : Nat) (chars : List Char) (faults : List (Fault LexError)) (body : StringBody) :
    (body.moved n more).after chars (faults.map (Fault.down n)) = (body.after chars faults).moved n more := by
  simp [after, moved]

/-- A string reads alike elsewhere, unless it is open where the text ends and there is more text behind. -/
theorem scanBody_moved {quote : Char} {triple : Bool} (hquote : quote ≠ '\n') (n : Nat) (h : Parted cur.rest more)
    (hopen : (scanBody quote triple cur).closed = false → (scanBody quote triple cur).next.rest = [] → more = []) :
    scanBody quote triple (cur.moved n more) = (scanBody quote triple cur).moved n more := by
  have hmoved : ∀ {cur : Cursor} {c cs}, cur.rest = c :: cs → (cur.moved n more).rest = c :: (cs ++ more) :=
    fun hrest => by rw [Cursor.moved, hrest]; rfl
  have htwo : ∀ {c : Char} {cs}, Parted (c :: cs) more →
      (c == quote && (cs ++ more).take 2 == [quote, quote]) = (c == quote && cs.take 2 == [quote, quote]) := by
    intro c cs h
    cases hc : c == quote with
    | false => rfl
    | true =>
        obtain rfl : c = quote := by simpa using hc
        rw [take_two_append hquote (h.tail hquote)]
  fun_induction scanBody quote triple cur with
  | case1 cur hrest =>
      obtain rfl := hopen rfl hrest
      rw [scanBody_nil (by simp [Cursor.moved, hrest])]
      rfl
  | case2 cur c cs hrest hline =>
      rw [scanBody_cons (hmoved hrest), if_pos hline]
      rfl
  | case3 cur c cs hrest hline hclose =>
      rw [scanBody_cons (hmoved hrest), if_neg hline, if_pos hclose, Cursor.advance_moved (by simp [hrest])]
      rfl
  | case4 cur c cs hrest hline hone hclose =>
      rw [hrest] at h
      have hle : 3 ≤ cur.rest.length := by
        have hquotes : cs.take 2 = [quote, quote] := by simpa using (Bool.and_eq_true_iff.1 hclose).2
        have hlength := congrArg List.length hquotes
        simp only [List.length_take, List.length_cons, List.length_nil] at hlength
        rw [hrest, List.length_cons]
        omega
      rw [scanBody_cons (hmoved hrest), if_neg hline, if_neg hone, htwo h, if_pos hclose, Cursor.advance_moved hle]
      rfl
  | case5 cur c cs hrest hline hone hclose hescape escape ih =>
      rw [hrest] at h
      have hc : c ≠ '\n' := fun heq => by simp [heq] at hescape
      have hadvance : (cur.moved n more).advance 1 = (cur.advance 1).moved n more :=
        Cursor.advance_moved (by simp [hrest])
      have hrest' : (cur.advance 1).rest = cs := by rw [Cursor.rest_advance, hrest]; rfl
      have hfirst : Parted (cur.advance 1).rest more := hrest' ▸ h.tail hc
      have hnext : Parted escape.next.rest more := by
        refine hfirst.of_reaches (reaches_scanEscape cur.pos _) fun hnil => ?_
        have hbody : scanBody quote triple _ = _ := scanBody_nil hnil
        exact hopen (congrArg StringBody.closed hbody) ((congrArg (·.next.rest) hbody).trans hnil)
      have hpos : (cur.moved n more).pos = cur.pos.down n := rfl
      rw [scanBody_cons (hmoved hrest), if_neg hline, if_neg hone, htwo h, if_neg hclose, if_pos hescape, hadvance,
        hpos, scanEscape_moved hfirst]
      have hbody := ih hnext hopen
      exact (congrArg (StringBody.after escape.chars (escape.faults.map (Fault.down n))) hbody).trans
        (StringBody.after_moved n _ _ _)
  | case6 cur c cs hrest hline hone hclose hescape ih =>
      rw [hrest] at h
      have hadvance : (cur.moved n more).advance 1 = (cur.advance 1).moved n more :=
        Cursor.advance_moved (by simp [hrest])
      have hnext : Parted (cur.advance 1).rest more := by
        refine Parted.of_reaches (hrest ▸ h) (Cursor.reaches_advance 1 cur) fun hnil => ?_
        have hbody : scanBody quote triple _ = _ := scanBody_nil hnil
        exact hopen (congrArg StringBody.closed hbody) ((congrArg (·.next.rest) hbody).trans hnil)
      rw [scanBody_cons (hmoved hrest), if_neg hline, if_neg hone, htwo h, if_neg hclose, if_neg hescape, hadvance,
        ih hnext hopen]
      exact StringBody.after_moved n [c] [] _

end

/-! ## lexemes -/

/-- A string is still open where the text ends. -/
def Scanned.Open (scanned : Scanned) : Prop :=
  scanned.next.rest = [] ∧ ∃ fault ∈ scanned.faults, fault.cause = .unterminatedString ∧
    fault.span.last.line = scanned.next.pos.line

section

variable {cur : Cursor} {more : List Char}

/-- The lexeme of a string with this content. -/
def StringBody.literal (body : StringBody) (start : Pos) : Scanned :=
  ⟨.token (.str (String.ofList body.content)), body.next,
    body.faults ++ if body.closed then [] else [⟨.unterminatedString, body.next.spanFrom start⟩]⟩

theorem StringBody.literal_moved (n : Nat) (body : StringBody) (start : Pos) :
    (body.moved n more).literal (start.down n) = (body.literal start).moved n more := by
  cases hclosed : body.closed with
  | true => simp [literal, moved, Scanned.moved, hclosed]
  | false => simp [literal, moved, Scanned.moved, hclosed, spanFrom_moved, Fault.down]

theorem StringBody.open_literal {body : StringBody} {start : Pos} (hclosed : body.closed = false)
    (hnil : body.next.rest = []) : (body.literal start).Open := by
  refine ⟨hnil, ⟨.unterminatedString, body.next.spanFrom start⟩, ?_, rfl, rfl⟩
  simp [literal, hclosed]

/-- The quotes at the start of a string: the string goes on behind them in the same line or in a later one. -/
theorem Parted.behind_quotes {quote : Char} (hquote : quote ≠ '\n') {cs : List Char} (h : Parted (quote :: cs) more) :
    (if cs.take 2 == [quote, quote] then 3 else 1) ≤ (quote :: cs).length ∧
      Parted ((quote :: cs).drop (if cs.take 2 == [quote, quote] then 3 else 1)) more := by
  have hcs := h.tail hquote
  split
  · next htriple =>
    have hquotes : cs.take 2 = [quote, quote] := by simpa using htriple
    obtain ⟨rest, rfl⟩ : ∃ rest, cs = quote :: quote :: rest :=
      ⟨cs.drop 2, by rw [← List.take_append_drop 2 cs, hquotes]; simp⟩
    exact ⟨by simp, (hcs.tail hquote).tail hquote⟩
  · exact ⟨by simp, hcs⟩

theorem scanString_moved {quote : Char} (hquote : quote ≠ '\n') {cs : List Char} (n : Nat) (h : Parted cur.rest more)
    (hrest : cur.rest = quote :: cs) (hopen : (scanString quote cur).Open → more = []) :
    scanString quote (cur.moved n more) = (scanString quote cur).moved n more := by
  rw [hrest] at h
  obtain ⟨hle, hbehind⟩ := h.behind_quotes hquote
  have hstring : ∀ {cur : Cursor} {cs}, cur.rest = quote :: cs → scanString quote cur =
      (scanBody quote (cs.take 2 == [quote, quote])
        (cur.advance (if cs.take 2 == [quote, quote] then 3 else 1))).literal cur.pos := by
    intro cur cs hcur
    rw [scanString, hcur]
    rfl
  have hmoved : (cur.moved n more).rest = quote :: (cs ++ more) := by rw [Cursor.moved, hrest]; rfl
  rw [hstring hrest] at hopen ⊢
  rw [hstring hmoved, take_two_append hquote (h.tail hquote)]
  generalize (if cs.take 2 == [quote, quote] then 3 else 1) = size at hle hbehind hopen ⊢
  have hparted : Parted (cur.advance size).rest more := by rwa [Cursor.rest_advance, hrest]
  rw [Cursor.advance_moved (hrest ▸ hle), scanBody_moved hquote n hparted fun hclosed hnil =>
    hopen (StringBody.open_literal hclosed hnil)]
  exact StringBody.literal_moved n _ _

theorem scanHere_moved (n : Nat) (h : Parted cur.rest more) (hopen : (scanHere cur).Open → more = []) :
    scanHere (cur.moved n more) = (scanHere cur).moved n more := by
  cases hrest : cur.rest with
  | nil =>
      rw [hrest] at h
      obtain rfl := h.of_nil
      simp [scanHere, Cursor.moved, Scanned.moved, hrest]
  | cons c cs =>
      have hne : cur.rest ≠ [] := by simp [hrest]
      have hmoved : (cur.moved n more).rest = c :: (cs ++ more) := by rw [Cursor.moved, hrest]; rfl
      have hadvance : (cur.moved n more).advance 1 = (cur.advance 1).moved n more :=
        Cursor.advance_moved (by simp [hrest])
      have hstarts : startsNumber (c :: (cs ++ more)) = startsNumber (c :: cs) := (hrest ▸ h).alike.startsNumber_eq
      have htail : c ≠ '\n' → Parted (cur.advance 1).rest more := by
        intro hc
        rw [Cursor.rest_advance, hrest]
        exact (hrest ▸ h).tail hc
      unfold scanHere at hopen ⊢
      rw [hmoved]
      rw [hrest] at hopen ⊢
      dsimp only at hopen ⊢
      rw [hadvance, hstarts]
      split_ifs at hopen ⊢ with hline hcomment hjoin hquote hnumber hname
      · rfl
      · have hc : c ≠ '\n' := fun heq => hline (by simp [heq])
        rw [Cursor.skipWhile_moved (htail hc) (by decide)]
        rfl
      · obtain rfl : c = '\\' := by simpa using hjoin
        exact scanJoin_moved h hrest n
      · have hc : c ≠ '\n' := fun heq => hline (by simp [heq])
        exact scanString_moved hc n h hrest hopen
      · exact scanNumber_moved h hne n
      · exact scanName_moved h hne n
      · exact scanOperator_moved h hne n c

/-- A lexeme reads alike elsewhere, unless it is a string that is open where the text ends. -/
theorem scan_moved (n : Nat) (h : Parted cur.rest more) (hopen : (scan cur).2.Open → more = []) :
    scan (cur.moved n more) = ((scan cur).1.down n, (scan cur).2.moved n more) := by
  rw [scan, scan, Cursor.skipWhile_moved h (by decide)]
  rw [scanHere_moved n (Cursor.parted_skipWhile h (by decide)) hopen]
  rfl

end

end ViewSync
