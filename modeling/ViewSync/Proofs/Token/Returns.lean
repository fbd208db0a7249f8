import ViewSync.Proofs.Token.BlankLines

/-!
# ViewSync.Proofs.Token.Returns

A carriage return in front of each newline (`crlf`), and what the reader of a lexeme makes of it. Strings aside no
lexeme holds a newline, so that it reads alike with the returns; in front of a newline a return counts as white space,
and the joining of two lines looks for it. A string reads alike if it stands on one line: one that a line end cuts off,
or that a backslash carries over it, takes the return for a character of its own (`scan_crlf`).
-/

namespace ViewSync

/-- The text with a carriage return in front of each newline. -/
def crlf : List Char → List Char
  | [] => []
  | c :: cs => if c = '\n' then '\r' :: '\n' :: crlf cs else c :: crlf cs

section

variable {cs text : List Char} {c : Char} {p : Char → Bool} {n : Nat}

@[simp] theorem crlf_nil : crlf [] = [] := rfl

@[simp] theorem crlf_newline (cs : List Char) : crlf ('\n' :: cs) = '\r' :: '\n' :: crlf cs := rfl

theorem crlf_cons (hc : c ≠ '\n') (cs : List Char) : crlf (c :: cs) = c :: crlf cs := if_neg hc

theorem crlf_eq_nil : crlf cs = [] ↔ cs = [] := by
  cases cs with
  | nil => rfl
  | cons c cs =>
      unfold crlf
      split <;> simp

theorem crlf_append (htext : '\n' ∉ text) (cs : List Char) : crlf (text ++ cs) = text ++ crlf cs := by
  induction text with
  | nil => rfl
  | cons c text ih =>
      rw [List.mem_cons, not_or] at htext
      rw [List.cons_append, crlf_cons (Ne.symm htext.1), ih htext.2]
      rfl

theorem takeWhile_crlf (hp : p '\n' = false) (hreturn : p '\r' = false) (cs : List Char) :
    (crlf cs).takeWhile p = cs.takeWhile p := by
  induction cs with
  | nil => rfl
  | cons c cs ih =>
      by_cases hc : c = '\n'
      · simp [hc, hp, hreturn]
      · rw [crlf_cons hc, List.takeWhile_cons, List.takeWhile_cons, ih]

theorem notMem_takeWhile (hp : p c = false) (cs : List Char) : c ∉ cs.takeWhile p :=
  fun hmem => absurd (List.all_eq_true.1 List.all_takeWhile c hmem) (by simp [hp])

theorem notMem_newline (h : ∀ c ∈ text, ¬ Foreign c) : '\n' ∉ text :=
  fun hmem => h _ hmem (.inl rfl)

theorem drop_crlf (h : '\n' ∉ cs.take n) : (crlf cs).drop n = crlf (cs.drop n) := by
  have hsplit := crlf_append h (cs.drop n)
  rw [List.take_append_drop] at hsplit
  by_cases hn : n ≤ cs.length
  · rw [hsplit, List.drop_left' (List.length_take_of_le hn)]
  · have hall : cs.drop n = [] := List.drop_eq_nil_of_le (Nat.le_of_not_le hn)
    rw [hsplit, hall, crlf_nil, List.append_nil, List.drop_eq_nil_of_le]
    exact (List.length_take_le' n cs).trans (Nat.le_of_not_le hn)

theorem take_crlf (h : '\n' ∉ cs.take n) : (crlf cs).take n = cs.take n := by
  have hsplit := crlf_append h (cs.drop n)
  rw [List.take_append_drop] at hsplit
  by_cases hn : n ≤ cs.length
  · rw [hsplit, List.take_left' (List.length_take_of_le hn)]
  · have hall : cs.drop n = [] := List.drop_eq_nil_of_le (Nat.le_of_not_le hn)
    rw [hsplit, hall, crlf_nil, List.append_nil, List.take_take, Nat.min_self]

/-- Behind the end of a line the texts differ. -/
theorem alike_crlf (cs : List Char) : StartsAlike (crlf cs) cs := by
  induction cs with
  | nil => exact .nil
  | cons c cs ih =>
      by_cases hc : c = '\n'
      · rw [hc]
        exact .stop (.inr (.inl rfl)) (.inl rfl)
      · rw [crlf_cons hc]
        exact .cons c ih

end

/-! ## cursors -/

/-- The cursor at the same place of the text with carriage returns. -/
def Cursor.crlf (cur : Cursor) : Cursor :=
  ⟨ViewSync.crlf cur.rest, cur.pos⟩

/-- The lexeme, with the text with carriage returns behind it. -/
def Scanned.crlf (scanned : Scanned) : Scanned :=
  ⟨scanned.lexeme, scanned.next.crlf, scanned.faults⟩

/-- The escape sequence, with the text with carriage returns behind it. -/
def Escaped.crlf (escaped : Escaped) : Escaped :=
  ⟨escaped.chars, escaped.next.crlf, escaped.faults⟩

/-- The content of a string, with the text with carriage returns behind it. -/
def StringBody.crlf (body : StringBody) : StringBody :=
  ⟨body.content, body.next.crlf, body.faults, body.closed⟩

namespace Cursor

variable {cur next : Cursor} {n : Nat} {p : Char → Bool}

theorem rest_crlf_cons {c : Char} {cs : List Char} (hrest : cur.rest = c :: cs) (hc : c ≠ '\n') :
    cur.crlf.rest = c :: ViewSync.crlf cs := by
  rw [crlf, hrest, crlf_cons hc]

theorem advance_crlf (h : '\n' ∉ cur.rest.take n) : cur.crlf.advance n = (cur.advance n).crlf := by
  have hrest : (cur.crlf.advance n).rest = ViewSync.crlf (cur.advance n).rest := by
    rw [rest_advance, rest_advance]
    exact drop_crlf h
  have hpos : (cur.crlf.advance n).pos = (cur.advance n).pos := by
    rw [pos_advance, pos_advance]
    exact congrArg (List.foldl Pos.after cur.pos) (take_crlf h)
  exact congrArg₂ Cursor.mk hrest hpos

theorem advance_one_crlf {c : Char} {cs : List Char} (hrest : cur.rest = c :: cs) (hc : c ≠ '\n') :
    cur.crlf.advance 1 = (cur.advance 1).crlf :=
  advance_crlf (by simpa [hrest] using Ne.symm hc)

theorem skipWhile_crlf (hp : p '\n' = false) (hreturn : p '\r' = false) :
    cur.crlf.skipWhile p = (cur.skipWhile p).crlf := by
  have hsame : (cur.crlf.rest.takeWhile p).length = (cur.rest.takeWhile p).length :=
    congrArg List.length (takeWhile_crlf hp hreturn cur.rest)
  rw [skipWhile, skipWhile, hsame]
  refine advance_crlf ?_
  rw [take_length_takeWhile]
  exact notMem_takeWhile hp _

theorem Reaches.line_le (h : cur.Reaches next) : cur.pos.line ≤ next.pos.line := by
  obtain ⟨n, rfl⟩ := h
  rw [pos_advance, line_foldl_after]
  exact Nat.le_add_right _ _

theorem Reaches.line_add_count (h : cur.Reaches next) :
    next.pos.line + next.rest.count '\n' = cur.pos.line + cur.rest.count '\n' := by
  obtain ⟨n, rfl⟩ := h
  rw [pos_advance, line_foldl_after, rest_advance, Nat.add_assoc, ← List.count_append, List.take_append_drop]

theorem Reaches.notMem_rest (h : cur.Reaches next) {c : Char} (hc : c ∉ cur.rest) : c ∉ next.rest := by
  obtain ⟨n, rfl⟩ := h
  rw [rest_advance]
  exact fun hmem => hc (List.mem_of_mem_drop hmem)

theorem line_advance_newline {cs : List Char} (hrest : cur.rest = '\n' :: cs) :
    (cur.advance 1).pos.line = cur.pos.line + 1 := by
  rw [pos_advance, hrest]
  rfl

end Cursor

/-! ## numbers, names and operators -/

section

variable {cs text : List Char} {kind : TokenKind} {cur : Cursor}

theorem scanNumber_crlf (h : startsNumber cur.rest = true) : scanNumber cur.crlf = (scanNumber cur).crlf := by
  have hhex : hexRun? cur.crlf.rest = hexRun? cur.rest := (alike_crlf _).hexRun?_eq
  cases hrun : hexRun? cur.rest with
  | none =>
      have hsame : decimalNumber cur.crlf.rest = decimalNumber cur.rest := (alike_crlf _).decimalNumber_eq
      have htake := notMem_newline (not_foreign_of_decimalNumber h)
      rw [scanNumber_plain hrun, scanNumber_plain (hhex.trans hrun), hsame, Cursor.advance_crlf htake]
      rfl
  | some run =>
      have htake := notMem_newline (not_foreign_of_hexRun? hrun)
      rw [scanNumber_hexRun hrun, scanNumber_hexRun (hhex.trans hrun), Cursor.advance_crlf htake]
      dsimp only
      split <;> rfl

theorem scanName_crlf {c : Char} (hrest : cur.rest = c :: cs) (hc : isNameStart c = true) :
    scanName cur.crlf = (scanName cur).crlf := by
  have hsame : cur.crlf.rest.takeWhile isNamePart = cur.rest.takeWhile isNamePart :=
    takeWhile_crlf (by decide) (by decide) _
  have hlength : max (cur.rest.takeWhile isNamePart).length 1 = (cur.rest.takeWhile isNamePart).length := by
    rw [hrest, List.takeWhile_cons_of_pos (isNamePart_of_isNameStart hc), List.length_cons]
    exact Nat.max_eq_left (Nat.le_add_left 1 _)
  have htake : '\n' ∉ cur.rest.take (cur.rest.takeWhile isNamePart).length := by
    rw [take_length_takeWhile]
    exact notMem_takeWhile (by decide) _
  rw [scanName, scanName, hsame, hlength, Cursor.advance_crlf htake]
  rfl

theorem scanOperator_crlf {c : Char} (hrest : cur.rest = c :: cs) (hc : c ≠ '\n') :
    scanOperator c cur.crlf = (scanOperator c cur).crlf := by
  have hsame : operator? cur.crlf.rest = operator? cur.rest := (alike_crlf _).operator?_eq
  unfold scanOperator
  rw [hsame]
  split
  · next kind size heq =>
    have htake := notMem_newline (not_foreign_of_operator? heq)
    rw [Cursor.advance_crlf htake]
    rfl
  · rw [Cursor.advance_one_crlf hrest hc]
    rfl

/-- Two joined lines: the return in front of the newline is looked for. -/
theorem scanJoin_crlf (hreturn : '\r' ∉ cur.rest) (hrest : cur.rest = '\\' :: cs) :
    scanJoin cur.crlf = (scanJoin cur).crlf := by
  have hfirst : cur.crlf.advance 1 = (cur.advance 1).crlf := Cursor.advance_one_crlf hrest (by decide)
  have hbehind : (cur.advance 1).rest = cs := by rw [Cursor.rest_advance, hrest]; rfl
  have hnone : behindReturn (cur.advance 1) = cur.advance 1 := by
    refine if_neg fun hhead => hreturn ?_
    rw [hbehind] at hhead
    rw [hrest]
    exact List.mem_cons_of_mem _ (List.mem_of_mem_head? hhead)
  rw [scanJoin_eq, scanJoin_eq, hfirst, hnone]
  generalize cur.advance 1 = next at hbehind
  have hpos : cur.crlf.pos = cur.pos := rfl
  rw [hpos]
  cases cs with
  | nil =>
      have hsame : behindReturn next.crlf = next.crlf := by simp [behindReturn, Cursor.crlf, hbehind]
      rw [hsame]
      simp [Cursor.crlf, Scanned.crlf, hbehind, Cursor.spanFrom]
  | cons c cs =>
      by_cases hc : c = '\n'
      · subst hc
        simp [behindReturn, Cursor.crlf, Scanned.crlf, Cursor.advance, Pos.after, hbehind]
      · have hne : c ≠ '\r' := fun heq => hreturn (by simp [hrest, heq])
        have hhead := Cursor.rest_crlf_cons hbehind hc
        have hsame : behindReturn next.crlf = next.crlf := if_neg (by simp [hhead, hne])
        rw [hsame, hhead, hbehind]
        simp [hc, Scanned.crlf, Cursor.spanFrom, Cursor.crlf]

end

/-! ## strings -/

section

variable {cur : Cursor} {quote : Char} {triple : Bool}

theorem scanNumberedEscape_crlf (start : Pos) (kind : Char) (width : Nat) (cur : Cursor) :
    scanNumberedEscape start kind width cur.crlf = (scanNumberedEscape start kind width cur).crlf := by
  have hdigits : (cur.crlf.rest.take width).takeWhile Text.isHexDigit =
      (cur.rest.take width).takeWhile Text.isHexDigit := by
    rw [takeWhile_take, takeWhile_take]
    exact congrArg _ (takeWhile_crlf (by decide) (by decide) _)
  have htake : '\n' ∉ cur.rest.take ((cur.rest.take width).takeWhile Text.isHexDigit).length := by
    intro hmem
    rw [takeWhile_take, List.length_take, List.take_eq_take_min] at hmem
    have hrun := List.take_subset_take_left cur.rest (Nat.min_le_left _ _ |>.trans (Nat.min_le_right _ _)) hmem
    rw [take_length_takeWhile] at hrun
    exact notMem_takeWhile (by decide) _ hrun
  unfold scanNumberedEscape
  dsimp only
  rw [hdigits, Cursor.advance_crlf htake]
  split
  · rfl
  · rfl

theorem scanEscape_crlf (start : Pos) (h : ∀ c ∈ cur.rest.head?, c ≠ '\n') :
    scanEscape start cur.crlf = (scanEscape start cur).crlf := by
  cases hrest : cur.rest with
  | nil => simp [scanEscape, Cursor.crlf, Escaped.crlf, hrest]
  | cons c cs =>
      have hc : c ≠ '\n' := h c (by rw [hrest]; rfl)
      unfold scanEscape
      rw [Cursor.rest_crlf_cons hrest hc, hrest]
      dsimp only
      rw [Cursor.advance_one_crlf hrest hc]
      split
      case h_9 => exact scanNumberedEscape_crlf start 'x' 2 _
      case h_10 => exact scanNumberedEscape_crlf start 'u' 4 _
      all_goals rfl

/-- A string that stands on one line, closed or cut off by the end of the text. -/
structure StringBody.InLine (body : StringBody) (line : Nat) : Prop where
  line : body.next.pos.line = line
  ended : body.closed = true ∨ body.next.rest = []

theorem scanBody_crlf (hquote : ¬ Foreign quote)
    (h : (scanBody quote triple cur).InLine cur.pos.line) :
    scanBody quote triple cur.crlf = (scanBody quote triple cur).crlf := by
  have hne : quote ≠ '\n' := fun heq => hquote (.inl heq)
  fun_induction scanBody quote triple cur with
  | case1 cur hrest =>
      rw [scanBody_nil (by simp [Cursor.crlf, hrest])]
      rfl
  | case2 cur c cs hrest hline =>
      obtain hclosed | hnil := h.ended
      · cases hclosed
      · rw [hrest] at hnil
        cases hnil
  | case3 cur c cs hrest hline hclose =>
      obtain ⟨rfl, -⟩ : c = quote ∧ triple = false := by simpa using hclose
      rw [scanBody_cons (Cursor.rest_crlf_cons hrest hne), if_neg hline, if_pos hclose,
        Cursor.advance_one_crlf hrest hne]
      rfl
  | case4 cur c cs hrest hline hone hclose =>
      obtain ⟨rfl, hquotes⟩ : c = quote ∧ cs.take 2 = [quote, quote] := by simpa using hclose
      have htake : '\n' ∉ cur.rest.take 3 := by
        rw [hrest, List.take_succ_cons, hquotes]
        simp [Ne.symm hne]
      rw [scanBody_cons (Cursor.rest_crlf_cons hrest hne), if_neg hline, if_neg hone,
        (alike_crlf _).take_two_eq hquote, if_pos hclose, Cursor.advance_crlf htake]
      rfl
  | case5 cur c cs hrest hline hone hclose hescape escape ih =>
      obtain rfl : c = '\\' := by simpa using hescape
      have hreaches : (cur.advance 1).Reaches escape.next := reaches_scanEscape cur.pos _
      have hfirst : (cur.advance 1).pos.line = cur.pos.line := by
        rw [Cursor.pos_advance, hrest]
        rfl
      have hbody : cur.pos.line ≤ escape.next.pos.line := hfirst ▸ hreaches.line_le
      have hbehind := (reaches_scanBody quote triple escape.next).line_le
      have hend : (scanBody quote triple escape.next).next.pos.line = cur.pos.line := h.line
      have hhead : ∀ d ∈ (cur.advance 1).rest.head?, d ≠ '\n' := by
        rintro d hd rfl
        obtain ⟨more, hmore⟩ := List.head?_eq_some_iff.1 hd
        have hjoined : escape.next = (cur.advance 1).advance 1 := by
          show (scanEscape cur.pos (cur.advance 1)).next = _
          rw [scanEscape, hmore]
          rfl
        have hnext := Cursor.line_advance_newline hmore
        rw [← hjoined] at hnext
        omega
      have hsame : escape.next.pos.line = cur.pos.line := by omega
      rw [scanBody_cons (Cursor.rest_crlf_cons hrest (by decide)), if_neg hline, if_neg hone,
        (alike_crlf _).take_two_eq hquote, if_neg hclose, if_pos hescape, Cursor.advance_one_crlf hrest (by decide)]
      have hpos : cur.crlf.pos = cur.pos := rfl
      have hescaped : (scanEscape cur.pos (cur.advance 1)).crlf.next = escape.next.crlf := rfl
      rw [hpos, scanEscape_crlf _ hhead, hescaped, ih ⟨hend.trans hsame.symm, h.ended⟩]
      rfl
  | case6 cur c cs hrest hline hone hclose hescape ih =>
      have hbehind := (reaches_scanBody quote triple (cur.advance 1)).line_le
      have hend : (scanBody quote triple (cur.advance 1)).next.pos.line = cur.pos.line := h.line
      have hc : c ≠ '\n' := by
        rintro rfl
        have hnext := Cursor.line_advance_newline hrest
        omega
      have hsame : (cur.advance 1).pos.line = cur.pos.line := by
        have hfirst := (Cursor.reaches_advance 1 cur).line_le
        omega
      rw [scanBody_cons (Cursor.rest_crlf_cons hrest hc), if_neg hline, if_neg hone, (alike_crlf _).take_two_eq hquote,
        if_neg hclose, if_neg hescape, Cursor.advance_one_crlf hrest hc, ih ⟨hend.trans hsame.symm, h.ended⟩]
      rfl

theorem scanBody_open (h : (scanBody quote triple cur).closed = false) :
    (scanBody quote triple cur).next.rest = [] ∨ '\n' ∈ (scanBody quote triple cur).next.rest := by
  fun_induction scanBody quote triple cur with
  | case1 cur hrest => exact .inl hrest
  | case2 cur c cs hrest hline =>
      obtain ⟨rfl, -⟩ : c = '\n' ∧ triple = false := by simpa using hline
      rw [hrest]
      exact .inr List.mem_cons_self
  | case3 => cases h
  | case4 => cases h
  | case5 cur c cs hrest hline hone hclose hescape escape ih => exact ih h
  | case6 cur c cs hrest hline hone hclose hescape ih => exact ih h

end

/-! ## lexemes -/

/-- A lexeme is no string, or a string that stands on one line, closed or cut off by the end of the text. -/
structure Scanned.InLine (scanned : Scanned) (start : Pos) : Prop where
  whole : ∀ content, scanned.lexeme = .token (.str content) → scanned.next.pos.line = start.line
  cut : ⟨.unterminatedString, scanned.next.spanFrom start⟩ ∈ scanned.faults → '\n' ∉ scanned.next.rest

/-- The first cursor is at a newline, the second behind the return in front of it. -/
def Cursor.BehindReturn (cur cur' : Cursor) : Prop :=
  ∃ cs, cur.rest = '\n' :: cs ∧ cur'.rest = '\n' :: ViewSync.crlf cs ∧ cur'.pos.line = cur.pos.line

/-- The same lexeme read from both texts. Behind a comment the readings may be one return apart. -/
structure Scanned.Reread (scanned scanned' : Scanned) : Prop where
  lexeme : scanned'.lexeme = scanned.lexeme
  faults : scanned'.faults = scanned.faults
  next : scanned'.next = scanned.next.crlf ∨ scanned.lexeme = .trivia ∧ scanned.next.BehindReturn scanned'.next

theorem Scanned.reread_crlf (scanned : Scanned) : scanned.Reread scanned.crlf :=
  ⟨rfl, rfl, .inl rfl⟩

section

variable {cur cur' : Cursor} {cs : List Char}

theorem scanString_crlf {quote : Char} (hquote : ¬ Foreign quote) (hrest : cur.rest = quote :: cs)
    (h : (scanString quote cur).InLine cur.pos) : scanString quote cur.crlf = (scanString quote cur).crlf := by
  have hne : quote ≠ '\n' := fun heq => hquote (.inl heq)
  have hstring : ∀ {cur : Cursor} {cs}, cur.rest = quote :: cs → scanString quote cur =
      (scanBody quote (cs.take 2 == [quote, quote])
        (cur.advance (if cs.take 2 == [quote, quote] then 3 else 1))).literal cur.pos := by
    intro cur cs hcur
    rw [scanString, hcur]
    rfl
  have htake : '\n' ∉ cur.rest.take (if cs.take 2 == [quote, quote] then 3 else 1) := by
    rw [hrest]
    split
    · next htriple =>
      have hquotes : cs.take 2 = [quote, quote] := by simpa using htriple
      rw [List.take_succ_cons, hquotes]
      simp [Ne.symm hne]
    · simp [Ne.symm hne]
  rw [hstring hrest] at h
  rw [hstring hrest, hstring (Cursor.rest_crlf_cons hrest hne), (alike_crlf _).take_two_eq hquote,
    Cursor.advance_crlf htake]
  generalize hbehind : cur.advance (if cs.take 2 == [quote, quote] then 3 else 1) = behind at h
  have hline : behind.pos.line = cur.pos.line := by
    rw [← hbehind, Cursor.pos_advance, line_foldl_row htake]
  have hbody : (scanBody quote (cs.take 2 == [quote, quote]) behind).InLine behind.pos.line := by
    refine ⟨(h.whole _ rfl).trans hline.symm, ?_⟩
    cases hclosed : (scanBody quote (cs.take 2 == [quote, quote]) behind).closed with
    | true => exact .inl rfl
    | false =>
        refine .inr ((scanBody_open hclosed).resolve_right (h.cut ?_))
        simp [StringBody.literal, hclosed]
  rw [scanBody_crlf hquote hbody]
  rfl

theorem skipWhile_comment (cur : Cursor) :
    cur.crlf.skipWhile (· != '\n') = (cur.skipWhile (· != '\n')).crlf ∨
      (cur.skipWhile (· != '\n')).BehindReturn (cur.crlf.skipWhile (· != '\n')) := by
  have htext : '\n' ∉ cur.rest.takeWhile (· != '\n') := notMem_takeWhile rfl _
  have hsplit := List.takeWhile_append_dropWhile (p := (· != '\n')) (l := cur.rest)
  generalize cur.rest.takeWhile (· != '\n') = text at htext hsplit
  obtain ⟨rest, pos⟩ := cur
  have hother : ∀ c ∈ text, (c != '\n') = true := fun c hc => by simpa using ne_of_mem_of_not_mem hc htext
  have hrest : rest = text ++ rest.dropWhile (· != '\n') := hsplit.symm
  cases hbehind : rest.dropWhile (· != '\n') with
  | nil =>
      have hsame : (Cursor.mk rest pos).crlf = ⟨rest, pos⟩ := by
        rw [hrest, hbehind, Cursor.crlf, crlf_append htext]
        rfl
      have hall : rest.takeWhile (· != '\n') = rest := by
        rw [hrest, hbehind, List.append_nil, List.takeWhile_eq_self_iff]
        exact hother
      refine .inl ?_
      rw [hsame, Cursor.skipWhile, hall]
      refine congrArg₂ Cursor.mk ?_ rfl
      rw [Cursor.rest_advance, List.drop_length]
      rfl
  | cons c q =>
      obtain rfl : c = '\n' := by
        have hc := List.head_dropWhile_not (p := (· != '\n')) (l := rest) (by simp [hbehind])
        simpa [hbehind] using hc
      rw [hbehind] at hrest
      subst hrest
      have hcrlf : (Cursor.mk (text ++ '\n' :: q) pos).crlf = ⟨(text ++ ['\r']) ++ '\n' :: crlf q, pos⟩ := by
        rw [Cursor.crlf, crlf_append htext]
        simp
      have hother' : ∀ c ∈ text ++ ['\r'], (c != '\n') = true := by
        simpa [or_imp, forall_and] using hother
      refine .inr ?_
      rw [hcrlf, skipWhile_append hother rfl, skipWhile_append hother' rfl]
      refine ⟨q, rfl, rfl, ?_⟩
      rw [line_foldl_row htext, line_foldl_row (by simpa using htext)]

theorem scanHere_crlf (hreturn : '\r' ∉ cur.rest) (hhead : ∀ c ∈ cur.rest.head?, c ≠ '\n')
    (h : (scanHere cur).InLine cur.pos) : (scanHere cur).Reread (scanHere cur.crlf) := by
  cases hrest : cur.rest with
  | nil => exact ⟨by simp [scanHere, Cursor.crlf, hrest], by simp [scanHere, Cursor.crlf, hrest],
      .inl (by simp [scanHere, Cursor.crlf, hrest])⟩
  | cons c cs =>
      have hc : c ≠ '\n' := hhead c (by rw [hrest]; rfl)
      have hstarts : startsNumber (c :: crlf cs) = startsNumber (c :: cs) := by
        rw [← (alike_crlf (c :: cs)).startsNumber_eq, crlf_cons hc]
      unfold scanHere at h ⊢
      rw [hrest] at h
      rw [Cursor.rest_crlf_cons hrest hc, hrest]
      dsimp only at h ⊢
      rw [hstarts]
      split_ifs at h ⊢ with hline hcomment hjoin hquote hnumber hname
      · exact absurd (by simpa using hline) hc
      · rw [Cursor.advance_one_crlf hrest hc]
        exact ⟨rfl, rfl, (skipWhile_comment _).imp_right fun hbehind => ⟨rfl, hbehind⟩⟩
      · obtain rfl : c = '\\' := by simpa using hjoin
        rw [scanJoin_crlf hreturn hrest]
        exact Scanned.reread_crlf _
      · have hmark : ¬ Foreign c := by
          obtain rfl | rfl : c = '"' ∨ c = '\'' := by simpa using hquote
          · decide
          · decide
        rw [scanString_crlf hmark hrest h]
        exact Scanned.reread_crlf _
      · rw [scanNumber_crlf (by rwa [hrest])]
        exact Scanned.reread_crlf _
      · rw [scanName_crlf hrest hname]
        exact Scanned.reread_crlf _
      · rw [scanOperator_crlf hrest hc]
        exact Scanned.reread_crlf _

theorem reread_lineEnd (h : cur.BehindReturn cur') : (scan cur).2.Reread (scan cur').2 := by
  obtain ⟨cs, hrest, hrest', hline⟩ := h
  have hread : ∀ {cur : Cursor} {cs}, cur.rest = '\n' :: cs →
      (scan cur).2 = ⟨.lineEnd, ⟨cs, ⟨cur.pos.line + 1, 1⟩⟩, []⟩ := by
    rintro ⟨rest, pos⟩ cs rfl
    exact @scan_lineEnd [] nofun cs pos
  rw [hread hrest, hread hrest', hline]
  exact ⟨rfl, rfl, .inl rfl⟩

/-- White space reads alike, but for the return at the end of a line. -/
theorem takeWhile_isSpace_crlf (h : ∀ c ∈ (cs.dropWhile isSpace).head?, c ≠ '\n') :
    (crlf cs).takeWhile isSpace = cs.takeWhile isSpace := by
  induction cs with
  | nil => rfl
  | cons c cs ih =>
      by_cases hc : c = '\n'
      · subst hc
        exact absurd rfl (h '\n' rfl)
      · rw [crlf_cons hc, List.takeWhile_cons, List.takeWhile_cons]
        split
        · next hspace =>
          rw [List.dropWhile_cons_of_pos hspace] at h
          rw [ih h]
        · rfl

/-- What stands at a place of a text without returns stands there in the text with returns, and both are equally
faulty. -/
theorem scan_crlf (hreturn : '\r' ∉ cur.rest) (h : (scan cur).2.InLine (scan cur).1) :
    (scan cur).2.Reread (scan cur.crlf).2 := by
  have hsplit := List.takeWhile_append_dropWhile (p := isSpace) (l := cur.rest)
  by_cases hline : ∃ q, cur.rest.dropWhile isSpace = '\n' :: q
  · obtain ⟨q, hq⟩ := hline
    have hblanks : ∀ c ∈ cur.rest.takeWhile isSpace, isSpace c = true := List.all_eq_true.1 List.all_takeWhile
    have hnewline : '\n' ∉ cur.rest.takeWhile isSpace := notMem_takeWhile (by decide) _
    generalize cur.rest.takeWhile isSpace = blanks at hsplit hblanks hnewline
    obtain ⟨rest, pos⟩ := cur
    rw [hq] at hsplit
    obtain rfl : blanks ++ '\n' :: q = rest := hsplit
    have hblanks' : ∀ c ∈ blanks ++ ['\r'], isSpace c = true := by
      intro c hc
      obtain hc | hc := List.mem_append.1 hc
      · exact hblanks c hc
      · rw [List.mem_singleton.1 hc]
        decide
    have hcrlf : (Cursor.mk (blanks ++ '\n' :: q) pos).crlf = ⟨(blanks ++ ['\r']) ++ '\n' :: crlf q, pos⟩ := by
      rw [Cursor.crlf, crlf_append hnewline]
      simp
    rw [hcrlf, scan_lineEnd hblanks, scan_lineEnd hblanks']
    exact ⟨rfl, rfl, .inl rfl⟩
  · have hhead : ∀ c ∈ (cur.rest.dropWhile isSpace).head?, c ≠ '\n' := by
      rintro c hc rfl
      obtain ⟨q, hq⟩ := List.head?_eq_some_iff.1 hc
      exact hline ⟨q, hq⟩
    have hskip : cur.crlf.skipWhile isSpace = (cur.skipWhile isSpace).crlf := by
      have hsame : cur.crlf.rest.takeWhile isSpace = cur.rest.takeWhile isSpace := takeWhile_isSpace_crlf hhead
      rw [Cursor.skipWhile, Cursor.skipWhile, hsame]
      refine Cursor.advance_crlf ?_
      rw [take_length_takeWhile]
      exact notMem_takeWhile (by decide) _
    have hrest : (cur.skipWhile isSpace).rest = cur.rest.dropWhile isSpace := by
      rw [Cursor.skipWhile, Cursor.rest_advance]
      exact List.append_cancel_left
        ((take_length_takeWhile isSpace cur.rest ▸ List.take_append_drop _ _).trans hsplit.symm)
    rw [scan] at h ⊢
    rw [scan, hskip]
    exact scanHere_crlf ((Cursor.reaches_advance _ cur).notMem_rest hreturn) (hrest ▸ hhead) h

theorem isBlankRest_crlf (hreturn : '\r' ∉ cs) : isBlankRest (crlf cs) = isBlankRest cs := by
  cases cs with
  | nil => rfl
  | cons c cs =>
      by_cases hc : c = '\n'
      · subst hc
        rfl
      · have hcr : c ≠ '\r' := fun heq => hreturn (by simp [heq])
        rw [crlf_cons hc]
        simp [isBlankRest, hcr]

end

end ViewSync
