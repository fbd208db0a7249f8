import ViewSync.Proofs.Source.Places
import ViewSync.Proofs.Token.Locality

/-!
# ViewSync.Proofs.Token.Ahead

Where tokens and faults start. All that a reading adds starts in front of a character that was still ahead
(`Lexer.reads_run`): not before the place where the reading began, and in a text that ends with a newline not on the
line behind it (`Cursor.Meets.line_lt`). With a fault in the last lexeme the lexer gives up inside such a text, unless
that lexeme is a string that is open where the text ends (`fault_scan`).
-/

namespace ViewSync

/-- A text that is empty or ends with a newline. -/
def Ended (cs : List Char) : Prop :=
  cs = [] ∨ ∃ front, cs = front ++ ['\n']

/-! ## places ahead -/

theorem line_foldl_after (cs : List Char) (p : Pos) : (cs.foldl Pos.after p).line = p.line + cs.count '\n' := by
  induction cs generalizing p with
  | nil => rfl
  | cons c cs ih =>
      rw [List.foldl_cons, ih, Pos.after]
      by_cases hc : c = '\n'
      · rw [if_pos hc, hc, List.count_cons_self, Nat.add_right_comm]
        rfl
      · rw [if_neg hc, List.count_cons_of_ne hc]

namespace Cursor

variable {cur next : Cursor} {p : Pos}

/-- The position of a character ahead. -/
def Meets (cur : Cursor) (p : Pos) : Prop :=
  ∃ n < cur.rest.length, p = (cur.advance n).pos

theorem meets_pos (h : cur.rest ≠ []) : cur.Meets cur.pos :=
  ⟨0, List.length_pos_iff.2 h, rfl⟩

theorem Reaches.meets (h : cur.Reaches next) (hp : next.Meets p) : cur.Meets p := by
  obtain ⟨m, rfl⟩ := h
  obtain ⟨n, hn, rfl⟩ := hp
  rw [rest_advance, List.length_drop] at hn
  exact ⟨m + n, by omega, by rw [advance_advance]⟩

theorem Reaches.meets_pos (h : cur.Reaches next) (hrest : next.rest ≠ []) : cur.Meets next.pos :=
  h.meets (Cursor.meets_pos hrest)

theorem Meets.line_le (h : cur.Meets p) : cur.pos.line ≤ p.line := by
  obtain ⟨n, -, rfl⟩ := h
  rw [pos_advance, line_foldl_after]
  exact Nat.le_add_right _ _

theorem Meets.line_lt (h : cur.Meets p) (ended : Ended cur.rest) : p.line < cur.pos.line + cur.rest.count '\n' := by
  obtain ⟨n, hn, rfl⟩ := h
  obtain hnil | ⟨front, hfront⟩ := ended
  · rw [hnil] at hn
    exact absurd hn (Nat.not_lt_zero n)
  · rw [hfront, List.length_append, List.length_singleton] at hn
    have hcount := (List.take_sublist n front).count_le '\n'
    rw [pos_advance, line_foldl_after, hfront, List.take_append_of_le_length (by omega), List.count_append,
      List.count_singleton_self]
    omega

end Cursor

theorem Ended.of_reaches {cur next : Cursor} (ended : Ended cur.rest) (h : cur.Reaches next) : Ended next.rest := by
  obtain ⟨n, rfl⟩ := h
  rw [Cursor.rest_advance]
  obtain hnil | ⟨front, hfront⟩ := ended
  · rw [hnil, List.drop_nil]
    exact .inl rfl
  · rw [hfront]
    by_cases hle : n ≤ front.length
    · exact .inr ⟨front.drop n, List.drop_append_of_le_length hle⟩
    · exact .inl (List.drop_eq_nil_of_le (by simp; omega))

/-! ## faults of lexemes -/

section

variable {cur : Cursor} {more : List Char} {fault : Fault LexError}

theorem fault_scanNumber (h : Parted cur.rest more) (hfault : fault ∈ (scanNumber cur).faults) :
    fault.span.first = cur.pos ∧ Parted (scanNumber cur).next.rest more := by
  cases hhex : hexRun? cur.rest with
  | none =>
      rw [scanNumber_plain hhex] at hfault
      cases hfault
  | some run =>
      obtain ⟨x, cs, hrest, hx, rfl⟩ := hexRun?_eq_some hhex
      have hdigits : Parted (cs.drop (cs.takeWhile isHexPart).length) more := by
        rw [hrest] at h
        exact ((h.tail (by decide)).tail (by obtain rfl | rfl := hx <;> decide)).drop_takeWhile (by decide)
      have hdrop : (cur.advance (2 + (cs.takeWhile isHexPart).length)).rest =
          cs.drop (cs.takeWhile isHexPart).length := by
        rw [Cursor.rest_advance, hrest, Nat.add_comm]
        rfl
      rw [scanNumber_hexRun hhex] at hfault ⊢
      dsimp only at hfault ⊢
      split at hfault
      · cases hfault
      · next hvalue =>
        rw [List.mem_singleton.1 hfault, if_neg hvalue]
        exact ⟨rfl, hdrop ▸ hdigits⟩

theorem fault_scanOperator (h : Parted cur.rest more) {c : Char} {cs : List Char} (hrest : cur.rest = c :: cs)
    (hc : c ≠ '\n') (hfault : fault ∈ (scanOperator c cur).faults) :
    fault.span.first = cur.pos ∧ Parted (scanOperator c cur).next.rest more := by
  unfold scanOperator at hfault ⊢
  split at hfault
  · cases hfault
  · rw [List.mem_singleton.1 hfault]
    refine ⟨rfl, ?_⟩
    rw [Cursor.rest_advance, hrest]
    exact (hrest ▸ h).tail hc

theorem fault_scanJoin (h : Parted cur.rest more) {cs : List Char} (hrest : cur.rest = '\\' :: cs)
    (hfault : fault ∈ (scanJoin cur).faults) :
    fault.span.first = cur.pos ∧ Parted (scanJoin cur).next.rest more := by
  have htail : Parted (cur.advance 1).rest more := by
    rw [Cursor.rest_advance, hrest]
    exact (hrest ▸ h).tail (by decide)
  have hbehind := (behindReturn_moved htail 0).2
  rw [scanJoin_eq] at hfault ⊢
  split at hfault
  · cases hfault
  · next hnewline =>
    rw [List.mem_singleton.1 hfault, if_neg hnewline]
    exact ⟨rfl, hbehind⟩

theorem first_of_scanEscape {start : Pos} (hfault : fault ∈ (scanEscape start cur).faults) :
    fault.span.first = start := by
  have hnumbered : ∀ {kind width cur}, fault ∈ (scanNumberedEscape start kind width cur).faults →
      fault.span.first = start := by
    intro kind width cur hfault
    unfold scanNumberedEscape at hfault
    dsimp only at hfault
    split at hfault
    · cases hfault
    · rw [List.mem_singleton.1 hfault]
      rfl
  unfold scanEscape at hfault
  split at hfault
  · cases hfault
  · dsimp only at hfault
    split at hfault
    case h_9 => exact hnumbered hfault
    case h_10 => exact hnumbered hfault
    all_goals cases hfault

theorem meets_of_scanBody {quote : Char} {triple : Bool} (hfault : fault ∈ (scanBody quote triple cur).faults) :
    cur.Meets fault.span.first := by
  fun_induction scanBody quote triple cur with
  | case1 => cases hfault
  | case2 => cases hfault
  | case3 => cases hfault
  | case4 => cases hfault
  | case5 cur c cs hrest hline hone hclose hescape escape ih =>
      obtain hhere | hbehind := List.mem_append.1 hfault
      · rw [first_of_scanEscape hhere]
        exact Cursor.meets_pos (by simp [hrest])
      · exact ((Cursor.reaches_advance 1 cur).trans (reaches_scanEscape cur.pos _)).meets (ih hbehind)
  | case6 cur c cs hrest hline hone hclose hescape ih =>
      exact (Cursor.reaches_advance 1 cur).meets (ih hfault)

/-- A string that is closed ends inside its line. -/
theorem parted_scanBody {quote : Char} {triple : Bool} (hquote : quote ≠ '\n') (h : Parted cur.rest more)
    (hclosed : (scanBody quote triple cur).closed = true) : Parted (scanBody quote triple cur).next.rest more := by
  fun_induction scanBody quote triple cur with
  | case1 => cases hclosed
  | case2 => cases hclosed
  | case3 cur c cs hrest hline hclose =>
      obtain rfl : c = quote := by simpa using (Bool.and_eq_true_iff.1 hclose).1
      rw [Cursor.rest_advance, hrest]
      exact (hrest ▸ h).tail hquote
  | case4 cur c cs hrest hline hone hclose =>
      obtain ⟨hc, hquotes⟩ := Bool.and_eq_true_iff.1 hclose
      obtain rfl : c = quote := by simpa using hc
      have hbehind := (Parted.behind_quotes hquote (hrest ▸ h)).2
      rw [if_pos hquotes] at hbehind
      rwa [Cursor.rest_advance, hrest]
  | case5 cur c cs hrest hline hone hclose hescape escape ih =>
      refine ih ?_ hclosed
      have hreaches : cur.Reaches escape.next :=
        (Cursor.reaches_advance 1 cur).trans (reaches_scanEscape cur.pos _)
      refine h.of_reaches hreaches fun hnil => ?_
      have hbody : (scanBody quote triple escape.next).closed = true := hclosed
      rw [scanBody_nil hnil] at hbody
      cases hbody
  | case6 cur c cs hrest hline hone hclose hescape ih =>
      refine ih ?_ hclosed
      refine h.of_reaches (Cursor.reaches_advance 1 cur) fun hnil => ?_
      have hbody : (scanBody quote triple (cur.advance 1)).closed = true := hclosed
      rw [scanBody_nil hnil] at hbody
      cases hbody

theorem fault_scanString {quote : Char} (hquote : quote ≠ '\n') {cs : List Char} (h : Parted cur.rest more)
    (hrest : cur.rest = quote :: cs) (hfault : fault ∈ (scanString quote cur).faults) :
    cur.Meets fault.span.first ∧
      ((scanString quote cur).next.rest = [] → (scanString quote cur).Open ∨ more = []) := by
  obtain ⟨-, hbehind⟩ := Parted.behind_quotes hquote (hrest ▸ h)
  have hstring : scanString quote cur =
      (scanBody quote (cs.take 2 == [quote, quote])
        (cur.advance (if cs.take 2 == [quote, quote] then 3 else 1))).literal cur.pos := by
    rw [scanString, hrest]
    rfl
  rw [hstring] at hfault ⊢
  generalize (if cs.take 2 == [quote, quote] then 3 else 1) = size at hbehind hfault ⊢
  have hparted : Parted (cur.advance size).rest more := by rwa [Cursor.rest_advance, hrest]
  constructor
  · obtain hbody | hopen := List.mem_append.1 hfault
    · exact (Cursor.reaches_advance size cur).meets (meets_of_scanBody hbody)
    · split at hopen
      · cases hopen
      · rw [List.mem_singleton.1 hopen]
        exact Cursor.meets_pos (by simp [hrest])
  · intro hnil
    cases hclosed : (scanBody quote (cs.take 2 == [quote, quote]) (cur.advance size)).closed with
    | false => exact .inl (StringBody.open_literal hclosed hnil)
    | true =>
        have hnext := parted_scanBody hquote hparted hclosed
        exact .inr (Parted.of_nil (hnil ▸ hnext))

theorem fault_scanHere (h : Parted cur.rest more) (hfault : fault ∈ (scanHere cur).faults) :
    cur.Meets fault.span.first ∧ ((scanHere cur).next.rest = [] → (scanHere cur).Open ∨ more = []) := by
  cases hrest : cur.rest with
  | nil => simp [scanHere, hrest] at hfault
  | cons c cs =>
      have hhere : cur.Meets cur.pos := Cursor.meets_pos (by simp [hrest])
      have hplace : ∀ {next : Cursor} {open' : Prop}, fault.span.first = cur.pos ∧ Parted next.rest more →
          cur.Meets fault.span.first ∧ (next.rest = [] → open' ∨ more = []) := by
        rintro next open' ⟨hfirst, hnext⟩
        exact ⟨hfirst ▸ hhere, fun hnil => .inr (Parted.of_nil (hnil ▸ hnext))⟩
      unfold scanHere at hfault ⊢
      rw [hrest] at hfault ⊢
      dsimp only at hfault ⊢
      split_ifs at hfault ⊢ with hline hcomment hjoin hquote hnumber hname
      · cases hfault
      · cases hfault
      · obtain rfl : c = '\\' := by simpa using hjoin
        exact hplace (fault_scanJoin h hrest hfault)
      · exact fault_scanString (fun heq => hline (by simp [heq])) h hrest hfault
      · exact hplace (fault_scanNumber h hfault)
      · cases hfault
      · exact hplace (fault_scanOperator h hrest (fun heq => hline (by simp [heq])) hfault)

/-- A fault starts in front of a character ahead, and the text goes on behind its lexeme, unless that is a string that
is open where the text ends. -/
theorem fault_scan (h : Parted cur.rest more) (hfault : fault ∈ (scan cur).2.faults) :
    cur.Meets fault.span.first ∧ ((scan cur).2.next.rest = [] → (scan cur).2.Open ∨ more = []) := by
  obtain ⟨hmeets, hnext⟩ := fault_scanHere (Cursor.parted_skipWhile h (by decide)) hfault
  exact ⟨(Cursor.reaches_advance _ cur).meets hmeets, hnext⟩

end

/-! ## what is read -/

namespace Lexer

variable {lx mid lx' : Lexer}

/-- Behind the white space at the start of a line. -/
def behindBlanks (lx : Lexer) : Lexer :=
  { lx with cursor := lx.cursor.skipWhile isIndentation, atLineStart := false }

theorem measure_eq (lx : Lexer) : lx.measure =
    if isBlankRest lx.behindBlanks.cursor.rest then lx.behindBlanks
    else lx.behindBlanks.layout (indentWidth (lx.cursor.rest.takeWhile isIndentation)) := rfl

/-- What is read from one state to another: the tokens and the faults that come in addition start ahead of the
first. -/
structure Reads (lx lx' : Lexer) : Prop where
  cursor : lx.cursor.Reaches lx'.cursor
  tokens : ∃ new, lx'.tokens = new ++ lx.tokens ∧ ∀ t ∈ new, lx.cursor.Meets t.span.first
  faults : ∃ new, lx'.faults = new ++ lx.faults ∧ ∀ fault ∈ new, lx.cursor.Meets fault.span.first

theorem reads_self (lx : Lexer) : lx.Reads lx :=
  ⟨Cursor.reaches_self _, ⟨[], rfl, List.forall_mem_nil _⟩, ⟨[], rfl, List.forall_mem_nil _⟩⟩

theorem Reads.trans (h : lx.Reads mid) (h' : mid.Reads lx') : lx.Reads lx' := by
  obtain ⟨tokens, htokens, hmeets⟩ := h.tokens
  obtain ⟨tokens', htokens', hmeets'⟩ := h'.tokens
  obtain ⟨faults, hfaults, hplaces⟩ := h.faults
  obtain ⟨faults', hfaults', hplaces'⟩ := h'.faults
  refine ⟨h.cursor.trans h'.cursor, ⟨tokens' ++ tokens, ?_, ?_⟩, ⟨faults' ++ faults, ?_, ?_⟩⟩
  · rw [htokens', htokens, List.append_assoc]
  · intro t ht
    obtain hlate | hearly := List.mem_append.1 ht
    · exact h.cursor.meets (hmeets' t hlate)
    · exact hmeets t hearly
  · rw [hfaults', hfaults, List.append_assoc]
  · intro fault hfault
    obtain hlate | hearly := List.mem_append.1 hfault
    · exact h.cursor.meets (hplaces' fault hlate)
    · exact hplaces fault hearly

theorem reads_layout (hrest : lx.cursor.rest ≠ []) (width : Nat) : lx.Reads (lx.layout width) := by
  have hhere : lx.cursor.Meets lx.here.first := Cursor.meets_pos hrest
  unfold layout
  simp only [foldl_dedent]
  split
  · refine ⟨Cursor.reaches_self _, ⟨[⟨.indent, lx.here⟩], rfl, ?_⟩, ⟨[], rfl, List.forall_mem_nil _⟩⟩
    simpa using hhere
  · have hdedents : ∀ t ∈ List.replicate (splitWidths width lx.widths).1.length (⟨.dedent, lx.here⟩ : Token),
        lx.cursor.Meets t.span.first := by
      intro t ht
      rw [List.eq_of_mem_replicate ht]
      exact hhere
    split
    · exact ⟨Cursor.reaches_self _, ⟨_, rfl, hdedents⟩, ⟨[], rfl, List.forall_mem_nil _⟩⟩
    · refine ⟨Cursor.reaches_self _, ⟨_, rfl, hdedents⟩, ⟨[⟨.unmatchedIndent, lx.here⟩], rfl, ?_⟩⟩
      simpa using hhere

theorem reads_measure (lx : Lexer) : lx.Reads lx.measure := by
  have hblanks : lx.Reads lx.behindBlanks :=
    ⟨Cursor.reaches_advance _ _, ⟨[], rfl, List.forall_mem_nil _⟩, ⟨[], rfl, List.forall_mem_nil _⟩⟩
  rw [measure_eq]
  split
  · exact hblanks
  · next hblank =>
    have hrest : lx.behindBlanks.cursor.rest ≠ [] := fun hnil => hblank (by rw [hnil]; rfl)
    exact hblanks.trans (reads_layout hrest _)

theorem tokens_endLine (lx : Lexer) (span : Span) :
    (lx.endLine span).tokens = lx.tokens ∨ (lx.endLine span).tokens = ⟨.newline, span⟩ :: lx.tokens := by
  unfold endLine
  split
  · exact .inl rfl
  · dsimp only
    split
    · exact .inr rfl
    · exact .inl rfl

theorem reads_lexeme (lx : Lexer) : lx.Reads lx.lexeme := by
  obtain ⟨mid, hmid, hstart, hscanned⟩ := reaches_scan lx.cursor
  have hfaults : lx.lexeme.faults = (scan lx.cursor).2.faults.reverse ++ lx.faults := faults_accept _ _ _
  refine ⟨?_, ?_, ⟨_, hfaults, fun fault hfault => (fault_scan (parted_nil _) (List.mem_reverse.1 hfault)).1⟩⟩
  · rw [lexeme, cursor_accept, hscanned]
    exact hmid.trans (reaches_scanHere mid)
  · rw [lexeme, accept, hstart, hscanned]
    dsimp only
    cases hlexeme : (scanHere mid).lexeme with
    | trivia => exact ⟨[], rfl, List.forall_mem_nil _⟩
    | lineEnd =>
        have hrest : mid.rest ≠ [] := fun hnil => by simp [scanHere, hnil] at hlexeme
        obtain hnone | hone := tokens_endLine
          { lx with cursor := (scanHere mid).next, faults := (scanHere mid).faults.reverse ++ lx.faults }
          ((scanHere mid).next.spanFrom mid.pos)
        · exact ⟨[], hnone, List.forall_mem_nil _⟩
        · exact ⟨[_], hone, fun t ht => by rw [List.mem_singleton.1 ht]; exact hmid.meets_pos hrest⟩
    | token kind =>
        refine ⟨[⟨kind, (scanHere mid).next.spanFrom mid.pos⟩], rfl, fun t ht => ?_⟩
        rw [List.mem_singleton.1 ht]
        exact hmid.meets_pos (rest_ne_nil_of_token hlexeme)

theorem reads_step (lx : Lexer) : lx.Reads lx.step := by
  unfold step
  split
  · exact reads_measure lx
  · exact reads_lexeme lx

theorem reads_run (lx : Lexer) : lx.Reads lx.run := by
  fun_induction run lx with
  | case1 lx _ => exact reads_self lx
  | case2 lx _ ih => exact (reads_step lx).trans ih

theorem finished_run (lx : Lexer) : lx.run.finished = true := by
  fun_induction run lx with
  | case1 lx hfinished => exact hfinished
  | case2 lx _ ih => exact ih

end Lexer

end ViewSync
