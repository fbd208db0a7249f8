import ViewSync.Proofs.Token.BlankLines
import ViewSync.Proofs.Token.Coverage

/-!
# ViewSync.Proofs.Token.Stops

The states that a run comes to (`Lexer.Comes`). At the start of a line nothing depends on the text behind: what led
there leads there with any other text behind it (`Lexer.Comes.elsewhere`), for a string that is open where the line ends
would go on behind it (`past_scan`).
-/

namespace ViewSync

/-! ## strings that go on -/

section

variable {cur : Cursor} {more : List Char} {quote : Char} {triple : Bool}

theorem length_rest_lt_of_closed (h : (scanBody quote triple cur).closed = true) :
    (scanBody quote triple cur).next.rest.length < cur.rest.length := by
  fun_induction scanBody quote triple cur with
  | case1 => cases h
  | case2 => cases h
  | case3 cur c cs hrest => exact Cursor.length_rest_advance_lt Nat.one_pos (by simp [hrest])
  | case4 cur c cs hrest => exact Cursor.length_rest_advance_lt (by decide) (by simp [hrest])
  | case5 cur c cs hrest hline hone hclose hescape escape ih =>
      have hle := length_rest_scanEscape_le cur.pos (cur.advance 1)
      have hlt : (cur.advance 1).rest.length < cur.rest.length :=
        Cursor.length_rest_advance_lt Nat.one_pos (by simp [hrest])
      exact (ih h).trans (hle.trans_lt hlt)
  | case6 cur c cs hrest hline hone hclose hescape ih =>
      exact (ih h).trans (Cursor.length_rest_advance_lt Nat.one_pos (by simp [hrest]))

/-- A string that is open where the text ends is closed in the text behind, or not at all. -/
theorem past_scanBody (hquote : quote ≠ '\n') (h : cur.rest = [] ∨ Parted cur.rest more)
    (hopen : (scanBody quote triple cur).closed = false) (hnil : (scanBody quote triple cur).next.rest = [])
    (hclosed : (scanBody quote triple (cur.moved 0 more)).closed = true) :
    (scanBody quote triple (cur.moved 0 more)).next.rest.length < more.length := by
  have hmoved : ∀ {cur : Cursor} {c cs}, cur.rest = c :: cs → (cur.moved 0 more).rest = c :: (cs ++ more) :=
    fun hrest => by rw [Cursor.moved, hrest]; rfl
  have hnext : ∀ {cur next : Cursor}, Parted cur.rest more → cur.Reaches next →
      next.rest = [] ∨ Parted next.rest more := by
    intro cur next hparted hreaches
    by_cases hend : next.rest = []
    · exact .inl hend
    · exact .inr (hparted.of_reaches hreaches fun heq => absurd heq hend)
  fun_induction scanBody quote triple cur with
  | case1 cur hrest =>
      have hlt := length_rest_lt_of_closed hclosed
      simpa only [Cursor.moved, hrest, List.nil_append] using hlt
  | case2 cur c cs hrest => exact absurd hnil (by simp [hrest])
  | case3 => cases hopen
  | case4 => cases hopen
  | case5 cur c cs hrest hline hone hclose hescape escape ih =>
      have hparted : Parted (c :: cs) more := hrest ▸ h.resolve_left (by simp [hrest])
      have hc : c ≠ '\n' := fun heq => by simp [heq] at hescape
      have hadvance : (cur.moved 0 more).advance 1 = (cur.advance 1).moved 0 more :=
        Cursor.advance_moved (by simp [hrest])
      have hfirst : Parted (cur.advance 1).rest more := by
        rw [Cursor.rest_advance, hrest]
        exact hparted.tail hc
      have htwo : (c == quote && (cs ++ more).take 2 == [quote, quote]) =
          (c == quote && cs.take 2 == [quote, quote]) := by
        rw [take_two_append hquote (hparted.tail hc)]
      rw [scanBody_cons (hmoved hrest), if_neg hline, if_neg hone, htwo, if_neg hclose, if_pos hescape, hadvance,
        show (cur.moved 0 more).pos = cur.pos.down 0 from rfl, scanEscape_moved hfirst] at hclosed ⊢
      exact ih (hnext hfirst (reaches_scanEscape _ _)) hopen hnil hclosed
  | case6 cur c cs hrest hline hone hclose hescape ih =>
      have hparted : Parted cur.rest more := h.resolve_left (by simp [hrest])
      have hadvance : (cur.moved 0 more).advance 1 = (cur.advance 1).moved 0 more :=
        Cursor.advance_moved (by simp [hrest])
      have htwo : (c == quote && (cs ++ more).take 2 == [quote, quote]) =
          (c == quote && cs.take 2 == [quote, quote]) := by
        cases hc : c == quote with
        | false => rfl
        | true =>
            obtain rfl : c = quote := by simpa using hc
            rw [take_two_append hquote ((hrest ▸ hparted : Parted (c :: cs) more).tail hquote)]
      rw [scanBody_cons (hmoved hrest), if_neg hline, if_neg hone, htwo, if_neg hclose, if_neg hescape, hadvance]
        at hclosed ⊢
      exact ih (hnext hparted (Cursor.reaches_advance 1 cur)) hopen hnil hclosed

theorem not_open_moved {scanned : Scanned} (hopen : scanned.Open) : (scanned.moved 0 more).faults ≠ [] := by
  obtain ⟨-, fault, hfault, -⟩ := hopen
  exact List.ne_nil_of_mem (List.mem_map_of_mem hfault)

theorem past_scanString (hquote : quote ≠ '\n') {cs : List Char} (h : Parted cur.rest more)
    (hrest : cur.rest = quote :: cs)
    (hopen : (scanString quote cur).Open) (hclean : (scanString quote (cur.moved 0 more)).faults = []) :
    (scanString quote (cur.moved 0 more)).next.rest.length < more.length := by
  have hparted : Parted (quote :: cs) more := hrest ▸ h
  obtain ⟨hle, hbehind⟩ := hparted.behind_quotes hquote
  have hstring : ∀ {cur : Cursor} {cs}, cur.rest = quote :: cs → scanString quote cur =
      (scanBody quote (cs.take 2 == [quote, quote])
        (cur.advance (if cs.take 2 == [quote, quote] then 3 else 1))).literal cur.pos := by
    intro cur cs hcur
    rw [scanString, hcur]
    rfl
  have hmoved : (cur.moved 0 more).rest = quote :: (cs ++ more) := by rw [Cursor.moved, hrest]; rfl
  rw [hstring hrest] at hopen
  rw [hstring hmoved, take_two_append hquote (hparted.tail hquote)] at hclean ⊢
  generalize (if cs.take 2 == [quote, quote] then 3 else 1) = size at hle hbehind hopen hclean ⊢
  have hbody : Parted (cur.advance size).rest more := by rwa [Cursor.rest_advance, hrest]
  rw [Cursor.advance_moved (hrest ▸ hle)] at hclean ⊢
  refine past_scanBody hquote (.inr hbody) ?_ hopen.1 ?_
  · refine Bool.eq_false_iff.2 fun hclosed => ?_
    rw [scanBody_moved hquote 0 hbody fun hne => absurd (hclosed.symm.trans hne) (by decide)] at hclean
    exact not_open_moved hopen ((congrArg Scanned.faults (StringBody.literal_moved 0 _ _)).symm.trans hclean)
  · refine Bool.eq_true_of_not_eq_false fun hne => ?_
    simp [StringBody.literal, hne] at hclean

/-- Only strings are left open. -/
theorem quoted_of_open (hopen : (scanHere cur).Open) : ∃ c cs, cur.rest = c :: cs ∧ (c == '"' || c == '\'') = true ∧
    c ≠ '\n' ∧ ∀ n more, scanHere (cur.moved n more) = scanString c (cur.moved n more) := by
  obtain ⟨-, fault, hfault, hcause, -⟩ := hopen
  cases hrest : cur.rest with
  | nil => simp [scanHere, hrest] at hfault
  | cons c cs =>
      have hne : fault.cause ≠ .unterminatedString → False := fun h => h hcause
      unfold scanHere at hfault
      rw [hrest] at hfault
      dsimp only at hfault
      split_ifs at hfault with hline hcomment hjoin hquote hnumber hname
      · cases hfault
      · cases hfault
      · unfold scanJoin at hfault
        dsimp only at hfault
        split_ifs at hfault <;> simp_all
      · refine ⟨c, cs, rfl, hquote, fun heq => hline (by simp [heq]), fun n more => ?_⟩
        simp [scanHere, Cursor.moved, hrest, hline, hcomment, hjoin, hquote]
      · unfold scanNumber at hfault
        split at hfault
        · dsimp only at hfault
          split_ifs at hfault <;> simp_all
        · simp at hfault
      · cases hfault
      · unfold scanOperator at hfault
        split at hfault
        · cases hfault
        · simp_all

/-- A lexeme that is read without a fault does not end where the text does, if it is open there without the text
behind. -/
theorem past_scan (h : Parted cur.rest more) (hopen : (scan cur).2.Open)
    (hclean : (scan (cur.moved 0 more)).2.faults = []) :
    (scan (cur.moved 0 more)).2.next.rest.length < more.length := by
  rw [scan, Cursor.skipWhile_moved h (by decide)] at hclean ⊢
  obtain ⟨c, cs, hrest, hquote, hc, hscan⟩ := quoted_of_open hopen
  have hstring : scanHere (cur.skipWhile isSpace) = scanString c (cur.skipWhile isSpace) := by
    have hself := hscan 0 []
    rwa [show (cur.skipWhile isSpace).moved 0 [] = cur.skipWhile isSpace by simp [Cursor.moved, Pos.down]] at hself
  have hopen' : (scanHere (cur.skipWhile isSpace)).Open := hopen
  dsimp only at hclean ⊢
  rw [hscan] at hclean ⊢
  rw [hstring] at hopen'
  exact past_scanString hc (Cursor.parted_skipWhile h (by decide)) hrest hopen' hclean

/-- The end of a line is one character. -/
theorem scanHere_lineEnd (h : (scanHere cur).lexeme = .lineEnd) :
    ∃ cs, cur.rest = '\n' :: cs ∧ (scanHere cur).next = cur.advance 1 := by
  cases hrest : cur.rest with
  | nil => simp [scanHere, hrest] at h
  | cons c cs =>
      have hcounted : (scanNumber cur).lexeme ≠ .lineEnd := by
        unfold scanNumber
        dsimp only
        split
        · split_ifs <;> simp
        · simp
      have hsign : (scanOperator c cur).lexeme ≠ .lineEnd := by
        unfold scanOperator
        split <;> simp
      unfold scanHere at h ⊢
      rw [hrest] at h ⊢
      dsimp only at h ⊢
      split_ifs at h ⊢ with hline hcomment hjoin hquote hnumber hword
      · obtain rfl : c = '\n' := by simpa using hline
        exact ⟨cs, rfl, rfl⟩
      · exact absurd ((lexeme_scanJoin cur).symm.trans h) (by simp)
      · cases h
      · exact absurd h hcounted
      · cases h
      · exact absurd h hsign

end

namespace Lexer

/-! ## the states of a run -/

/-- A state that a run comes to. -/
inductive Comes : Lexer → Lexer → Prop where
  | here (lx : Lexer) : Comes lx lx
  | step {lx lx' : Lexer} : lx.finished = false → Comes lx.step lx' → Comes lx lx'

namespace Comes

variable {lx mid lx' : Lexer}

theorem trans (h : Comes lx mid) (h' : Comes mid lx') : Comes lx lx' := by
  induction h with
  | here => exact h'
  | step hlx _ ih => exact .step hlx (ih h')

theorem run_eq (h : Comes lx lx') : lx.run = lx'.run := by
  induction h with
  | here => rfl
  | step hlx _ ih => rw [run_step hlx, ih]

theorem reads (h : Comes lx lx') : lx.Reads lx' := by
  induction h with
  | here lx => exact reads_self lx
  | @step lx _ _ _ ih => exact (reads_step lx).trans ih

theorem between (h : Comes lx lx') (hlx : lx.Between) : lx'.Between := by
  induction h with
  | here => exact hlx
  | step _ _ ih => exact ih (between_step hlx)

theorem remaining_le (h : Comes lx lx') : lx'.remaining ≤ lx.remaining := by
  induction h with
  | here => exact Nat.le_refl _
  | step hlx _ ih => exact ih.trans (remaining_step_lt hlx).le

/-- A run without a fault comes to states without one. -/
theorem clean (h : Comes lx lx') (hclean : lx.run.faults = []) : lx'.faults = [] := by
  rw [h.run_eq] at hclean
  exact List.suffix_nil.1 (hclean ▸ faults_run lx')

end Comes

/-- The same state with another text ahead. -/
def facing (lx : Lexer) (text : List Char) : Lexer :=
  { lx with cursor := ⟨text, lx.cursor.pos⟩ }

/-- One step up to the start of a line. It is the same one whatever text is behind that. -/
theorem step_elsewhere {lx : Lexer} {ahead more : List Char} (hne : ahead ≠ []) (ended : Ended ahead)
    (hrest : lx.cursor.rest = ahead ++ more) (hpassed : more.length ≤ lx.step.cursor.rest.length)
    (hclean : lx.step.faults = []) :
    ∃ ahead', Ended ahead' ∧ lx.step.cursor.rest = ahead' ++ more ∧
      ∀ other, (lx.facing (ahead ++ other)).step = lx.step.facing (ahead' ++ other) := by
  have hself : lx = (lx.facing ahead).facing (ahead ++ more) := by
    rw [← hrest]
    rfl
  have hecho : ∀ other, Echoes 0 other (lx.facing ahead) (lx.facing ahead) (lx.facing ahead)
      (lx.facing (ahead ++ other)) := fun other =>
    ⟨rfl, ⟨[], rfl, rfl⟩, ⟨[], rfl, rfl⟩, ⟨rfl, rfl⟩, rfl, rfl, rfl⟩
  have hparted : ∀ other, Parted (lx.facing ahead).cursor.rest other := fun other => .inr (ended.resolve_left hne)
  have hclosed : (lx.facing ahead).atLineStart = false → ¬ (scan (lx.facing ahead).cursor).2.Open := by
    intro hline hopen
    have hstep : lx.step = lx.lexeme := by rw [step, if_neg (by simpa [facing] using hline)]
    have hcursor : lx.cursor = (lx.facing ahead).cursor.moved 0 more := by
      rw [hself]
      rfl
    rw [hstep, lexeme, faults_accept, List.append_eq_nil_iff, List.reverse_eq_nil_iff, hcursor] at hclean
    rw [hstep, lexeme, cursor_accept, hcursor] at hpassed
    exact Nat.not_lt.2 hpassed (past_scan (hparted more) hopen hclean.1)
  have hstep : ∀ other, (lx.facing (ahead ++ other)).step =
      (lx.facing ahead).step.facing ((lx.facing ahead).step.cursor.rest ++ other) := fun other =>
    ((hecho other).step (hparted other) fun hline hopen => absurd hopen (hclosed hline)).eq_moved
  have hsame : lx.step = (lx.facing ahead).step.facing ((lx.facing ahead).step.cursor.rest ++ more) := by
    rw [← hstep, ← hrest]
    rfl
  refine ⟨(lx.facing ahead).step.cursor.rest, ended.of_reaches (lx.facing ahead).reads_step.cursor, ?_, fun other => ?_⟩
  · rw [hsame]
    rfl
  · rw [hstep, hsame]
    rfl

/-- What leads to the start of a line leads there whatever text is behind it. -/
theorem Comes.elsewhere {lx lx' : Lexer} {ahead more : List Char} (h : Comes lx lx') (ended : Ended ahead)
    (hrest : lx.cursor.rest = ahead ++ more) (hrest' : lx'.cursor.rest = more) (hline : lx'.atLineStart = true)
    (hclean : lx'.faults = []) (other : List Char) : Comes (lx.facing (ahead ++ other)) (lx'.facing other) := by
  induction h generalizing ahead with
  | here lx =>
      obtain rfl : ahead = [] := by simpa [hrest'] using hrest
      exact .here _
  | @step lx lx' hlx hcomes ih =>
      have hpassed : more.length ≤ lx.step.cursor.rest.length := by
        obtain ⟨n, hn⟩ := hcomes.reads.cursor
        rw [← hrest', hn, Cursor.rest_advance, List.length_drop]
        exact Nat.sub_le _ _
      have hfaults : lx.step.faults = [] := by
        obtain ⟨new, hnew, -⟩ := hcomes.reads.faults
        exact (List.append_eq_nil_iff.1 (hnew.symm.trans hclean)).2
      have hne : ahead ≠ [] := by
        rintro rfl
        have hlt := hcomes.remaining_le.trans_lt (remaining_step_lt hlx)
        rw [remaining, remaining, hrest, hrest', hline] at hlt
        have hle := Bool.toNat_le lx.atLineStart
        simp only [List.nil_append, Bool.toNat_true] at hlt
        omega
      obtain ⟨ahead', ended', hahead', hstep⟩ := step_elsewhere hne ended hrest hpassed hfaults
      refine .step ?_ (hstep other ▸ ih ended' hahead' hrest' hline hclean)
      have hfew : decide (maxDiagnostics ≤ lx.faults.length) = false := (Bool.or_eq_false_iff.1 hlx).2
      rw [finished, facing, hfew]
      simp [hne]

/-! ## where a token is read -/

/-- A token that ends no block is read by itself. -/
theorem comes_push {lx : Lexer} {t : Token} {pre post : List Token} (ht : t.kind ≠ .dedent)
    (hrun : lx.run.tokens = post ++ t :: pre) (hlx : lx.tokens <:+ pre) :
    ∃ lx', Comes lx lx' ∧ lx'.finished = false ∧ lx'.tokens = pre ∧ lx'.step.tokens = t :: pre := by
  fun_induction Lexer.run lx with
  | case1 lx hfinished =>
      have hlength := hlx.length_le
      simp [hrun] at hlength
      omega
  | case2 lx hfinished ih =>
      have hlx' : lx.finished = false := by simpa using hfinished
      by_cases hstep : lx.step.tokens <:+ pre
      · obtain ⟨lx', hcomes, h⟩ := ih hrun hstep
        exact ⟨lx', .step hlx' hcomes, h⟩
      · refine ⟨lx, .here lx, hlx', ?_⟩
        obtain ⟨tokens, htokens, -⟩ := lx.step.reads_run.tokens
        obtain ⟨new, hnew, hadds⟩ := tokens_step lx
        have hall : lx.step.tokens <:+ post ++ t :: pre := hrun ▸ htokens ▸ List.suffix_append _ _
        have hpre : t :: pre <:+ new ++ lx.tokens := by
          rw [← hnew]
          refine List.suffix_of_suffix_length_le (List.suffix_append _ _) hall (Nat.lt_of_not_le fun hle => hstep ?_)
          exact List.suffix_of_suffix_length_le hall ((List.suffix_cons _ _).trans (List.suffix_append _ _)) hle
        have hone : ∀ u : Token, new = [u] → lx.tokens = pre ∧ lx.step.tokens = t :: pre := by
          rintro u rfl
          have hlength := hpre.length_le
          have hsame : lx.tokens = pre :=
            hlx.eq_of_length (Nat.le_antisymm hlx.length_le (by simpa using hlength))
          subst hsame
          exact ⟨rfl, hnew.trans (hpre.eq_of_length (by simp)).symm⟩
        have hlength := hpre.length_le.trans_eq (List.length_append ..)
        cases hadds with
        | nothing =>
            have hle := hlx.length_le
            simp at hlength
            omega
        | indent span => exact hone _ rfl
        | newline span => exact hone _ rfl
        | textual span => exact hone _ rfl
        | dedents n span =>
            obtain ⟨front, hfront⟩ := hpre
            have hmem : t ∈ List.replicate n (⟨.dedent, span⟩ : Token) := by
              obtain ⟨more, hmore⟩ := hlx
              rw [← hmore, ← List.cons_append, ← List.append_assoc] at hfront
              rw [← List.append_cancel_right hfront]
              simp
            exact absurd (congrArg Token.kind (List.eq_of_mem_replicate hmem)) ht

/-- A line is measured by opening and closing blocks. -/
theorem tokens_measure (lx : Lexer) : ∃ new, lx.measure.tokens = new ++ lx.tokens ∧
    ∀ t ∈ new, t.kind = .indent ∨ t.kind = .dedent := by
  unfold measure layout
  simp only [foldl_dedent]
  have hdedents : ∀ n span, ∀ t ∈ List.replicate n (⟨.dedent, span⟩ : Token), t.kind = .indent ∨ t.kind = .dedent :=
    fun n span t ht => .inr (congrArg Token.kind (List.eq_of_mem_replicate ht))
  split
  · exact ⟨[], rfl, nofun⟩
  split
  · exact ⟨[_], rfl, List.forall_mem_singleton.2 (.inl rfl)⟩
  split <;> exact ⟨_, rfl, hdedents _ _⟩

/-- A token that neither opens nor closes a block is no part of the measure of a line. -/
theorem atLineStart_of_pushed {lx : Lexer} {t : Token} (hindent : t.kind ≠ .indent) (hdedent : t.kind ≠ .dedent)
    (hstep : lx.step.tokens = t :: lx.tokens) : lx.atLineStart = false := by
  refine Bool.eq_false_iff.2 fun hline => ?_
  obtain ⟨new, hnew, hkinds⟩ := tokens_measure lx
  rw [step, if_pos hline, hnew] at hstep
  have hone : new = [t] := List.append_cancel_right hstep
  exact (hkinds t (hone ▸ List.mem_singleton.2 rfl)).elim hindent hdedent

/-- The end of a line is read up to the start of the next one. -/
theorem atLineStart_of_newline {lx : Lexer} {t : Token} (ht : t.kind = .newline)
    (hstep : lx.step.tokens = t :: lx.tokens) : lx.step.atLineStart = true := by
  have hline := atLineStart_of_pushed (by rw [ht]; exact nofun) (by rw [ht]; exact nofun) hstep
  have hne : ∀ {l : List Token}, l ≠ t :: l := fun h => absurd (congrArg List.length h) (by simp)
  have hlexeme : lx.step = lx.lexeme := by rw [step, if_neg (by simp [hline])]
  rw [hlexeme, lexeme, accept] at hstep ⊢
  cases hscan : (scan lx.cursor).2.lexeme with
  | trivia =>
      rw [hscan] at hstep
      exact absurd hstep hne
  | token kind =>
      rw [hscan] at hstep
      have hlayout := TokenKind.isLayout_of_textual (textual_scanHere hscan)
      have hkind : kind = t.kind := congrArg Token.kind (List.cons.inj hstep).1
      rw [hkind, ht] at hlayout
      cases hlayout
  | lineEnd =>
      rw [hscan] at hstep
      dsimp only at hstep ⊢
      unfold endLine at hstep ⊢
      split at hstep
      · exact absurd hstep hne
      · next hdepth =>
        rw [if_neg hdepth]

/-- Where the end of a line is read, the next line starts. -/
theorem comes_newline {lx : Lexer} {t : Token} {pre post : List Token} (ht : t.kind = .newline)
    (hrun : lx.run.tokens = post ++ t :: pre) (hlx : lx.tokens <:+ pre) :
    ∃ lx', Comes lx lx' ∧ lx'.atLineStart = true ∧ lx'.tokens = t :: pre := by
  obtain ⟨lx', hcomes, hfinished, hpre, hstep⟩ := comes_push (by rw [ht]; exact nofun) hrun hlx
  exact ⟨lx'.step, hcomes.trans (.step hfinished (.here _)), atLineStart_of_newline ht (hpre ▸ hstep), hstep⟩

/-! ## where a logical line starts -/

/-- A logical line starts here. -/
structure AtHead (lx : Lexer) : Prop where
  atLineStart : lx.atLineStart = true
  between : lx.Between
  filled : isBlankRest lx.behindBlanks.cursor.rest = false

/-- What is behind the start of a logical line: the line has been measured, and no token has been read since; or it is
blank, or a word has been read. -/
inductive Since (origin lx : Lexer) : Prop where
  | start : lx.atLineStart = true → Since origin lx
  | measured {head : Lexer} : Comes origin head → head.AtHead → head.measure.tokens = lx.tokens → Since origin lx
  | blank : isBlankRest lx.cursor.rest = true → lx.inLine = false → lx.depth = 0 → Since origin lx
  | word {t : Token} {ts : List Token} : lx.tokens = t :: ts → t.kind.isLayout = false → Since origin lx

/-- The rest of a blank line. -/
theorem scan_blank {cur : Cursor} (h : isBlankRest cur.rest = true) : (scan cur).2.lexeme = .lineEnd ∨
    (scan cur).2.lexeme = .trivia ∧ isBlankRest (scan cur).2.next.rest = true := by
  obtain ⟨rest, pos⟩ := cur
  have hhere : ∀ cs pos, (scanHere ⟨'\n' :: cs, pos⟩).lexeme = .lineEnd := fun _ _ => rfl
  cases rest with
  | nil => exact .inr ⟨rfl, rfl⟩
  | cons c cs =>
      by_cases hreturn : c = '\r'
      · subst hreturn
        cases cs with
        | nil => cases h
        | cons d ds =>
            have hd : d = '\n' := by
              by_contra hne
              simp [isBlankRest, hne] at h
            subst hd
            exact .inl (hhere ds _)
      · have hc : c = '\n' ∨ c = '#' := by simpa [isBlankRest, hreturn] using h
        obtain rfl | rfl := hc
        · exact .inl (hhere cs _)
        · refine .inr ⟨rfl, ?_⟩
          show isBlankRest ((Cursor.mk cs (pos.after '#')).skipWhile (· != '\n')).rest = true
          have hend := (Cursor.passes_skipWhile (· != '\n') ⟨cs, pos.after '#'⟩).2
          generalize ((Cursor.mk cs (pos.after '#')).skipWhile (· != '\n')).rest = rest at hend
          cases rest with
          | nil => rfl
          | cons d ds =>
              obtain rfl : d = '\n' := by simpa using hend d rfl
              rfl

theorem since_step {origin lx : Lexer} (hcomes : Comes origin lx) (hbetween : lx.Between) (h : Since origin lx) :
    Since origin lx.step := by
  cases hline : lx.atLineStart with
  | true =>
      have hmeasure : lx.step = lx.measure := by rw [step, if_pos hline]
      rw [hmeasure]
      cases hblank : isBlankRest lx.behindBlanks.cursor.rest with
      | true =>
          rw [measure_eq, if_pos hblank]
          exact .blank hblank (hbetween hline).1 (hbetween hline).2
      | false => exact .measured hcomes ⟨hline, hbetween, hblank⟩ rfl
  | false =>
      have hlexeme : lx.step = lx.lexeme := by rw [step, if_neg (by simp [hline])]
      rw [hlexeme, lexeme, accept]
      have hsame : ∀ {lx' : Lexer}, lx'.tokens = lx.tokens → lx'.inLine = lx.inLine → lx'.depth = lx.depth →
          (lx.depth = 0 → isBlankRest lx.cursor.rest = true → isBlankRest lx'.cursor.rest = true) →
            Since origin lx' := by
        intro lx' htokens hin hdepth hrest
        cases h with
        | start hstart => exact absurd (hline.symm.trans hstart) Bool.false_ne_true
        | measured hhead hat hmeasured => exact .measured hhead hat (hmeasured.trans htokens.symm)
        | blank hblank hnot hzero => exact .blank (hrest hzero hblank) (hin.trans hnot) (hdepth.trans hzero)
        | word hword ht => exact .word (htokens.trans hword) ht
      cases hscan : (scan lx.cursor).2.lexeme with
      | trivia =>
          refine hsame rfl rfl rfl fun _ hblank => ?_
          exact ((scan_blank hblank).resolve_left (by simp [hscan])).2
      | token kind => exact .word rfl (TokenKind.isLayout_of_textual (textual_scanHere hscan))
      | lineEnd =>
          dsimp only
          unfold endLine
          split
          · next hdepth => exact hsame rfl rfl rfl fun hzero => absurd hzero (Nat.ne_of_gt hdepth)
          · exact .start rfl

theorem since_comes {origin lx lx' : Lexer} (hcomes : Comes origin lx) (hbetween : lx.Between) (h : Since origin lx)
    (hcomes' : Comes lx lx') : Since origin lx' := by
  induction hcomes' with
  | here => exact h
  | step hlx _ ih =>
      exact ih (hcomes.trans (.step hlx (.here _))) (between_step hbetween) (since_step hcomes hbetween h)

/-- The first token of a logical line is read behind the measure of the line, or the text ends where it would be. -/
theorem comes_head {origin lx : Lexer} (hline : origin.atLineStart = true) (hbetween : origin.Between)
    (hcomes : Comes origin lx) (hbehind : lx.atLineStart = false)
    (hlast : ∀ t ∈ lx.tokens.head?, t.kind.isLayout = true) (hnext : lx.inLine = true ∨ lx.step.tokens ≠ lx.tokens) :
    ∃ head, Comes origin head ∧ head.AtHead ∧ head.measure.tokens = lx.tokens := by
  cases since_comes (.here origin) hbetween (.start hline) hcomes with
  | start hstart => exact absurd (hbehind.symm.trans hstart) Bool.false_ne_true
  | measured hhead hat hmeasured => exact ⟨_, hhead, hat, hmeasured⟩
  | blank hblank hnot hzero =>
      refine absurd ?_ (hnext.resolve_left (by simp [hnot]))
      rw [step, if_neg (by simp [hbehind]), lexeme, accept]
      obtain hscan | ⟨hscan, -⟩ := scan_blank hblank
      · rw [hscan]
        dsimp only
        rw [endLine_of_not_inLine]
        · exact hnot
        · exact hzero
      · rw [hscan]
  | word hword ht =>
      have hlayout := hlast _ (by rw [hword]; rfl)
      exact absurd (ht.symm.trans hlayout) Bool.false_ne_true

/-! ## the text that has been read -/

theorem passes_step (lx : Lexer) : ∃ text, lx.cursor.Passes text lx.step.cursor ∧
    (lx.step.atLineStart = true → ∃ front, text = front ++ ['\n']) := by
  have hpasses : ∃ text, lx.cursor.Passes text lx.step.cursor := by
    obtain ⟨n, hn⟩ := lx.reads_step.cursor
    exact ⟨_, hn ▸ Cursor.passes_advance n lx.cursor⟩
  obtain ⟨text, htext⟩ := hpasses
  have hinside : lx.step.atLineStart = false → ∃ text, lx.cursor.Passes text lx.step.cursor ∧
      (lx.step.atLineStart = true → ∃ front, text = front ++ ['\n']) := fun hne =>
    ⟨text, htext, fun hstart => absurd (hne.symm.trans hstart) Bool.false_ne_true⟩
  cases hline : lx.atLineStart with
  | true =>
      refine hinside ?_
      rw [step, if_pos hline, measure_eq]
      split
      · rfl
      · exact (cursor_layout _ _).2
  | false =>
      have hlexeme : lx.step = lx.lexeme := by rw [step, if_neg (by simp [hline])]
      cases hscan : (scan lx.cursor).2.lexeme with
      | trivia =>
          refine hinside ?_
          rw [hlexeme, lexeme, accept, hscan]
          exact hline
      | token kind =>
          refine hinside ?_
          rw [hlexeme, lexeme, accept, hscan]
          exact hline
      | lineEnd =>
          have hblanks := (Cursor.passes_skipWhile isSpace lx.cursor).1
          obtain ⟨cs, hrest, hnext⟩ := scanHere_lineEnd hscan
          refine ⟨_, ?_, fun _ => ⟨lx.cursor.rest.takeWhile isSpace, rfl⟩⟩
          rw [hlexeme, lexeme, cursor_accept, scan, hnext]
          exact hblanks.trans (Cursor.passes_one hrest)

/-- The start of a line is behind the end of one. -/
theorem passes_comes {origin lx lx' : Lexer} (hcomes : Comes lx lx') {text : List Char}
    (htext : origin.cursor.Passes text lx.cursor) (hended : lx.atLineStart = true → Ended text) :
    ∃ text, origin.cursor.Passes text lx'.cursor ∧ (lx'.atLineStart = true → Ended text) := by
  induction hcomes generalizing text with
  | here => exact ⟨text, htext, hended⟩
  | @step lx lx' hlx hcomes ih =>
      obtain ⟨more, hmore, hends⟩ := passes_step lx
      refine ih (htext.trans hmore) fun hstart => ?_
      obtain ⟨front, rfl⟩ := hends hstart
      exact .inr ⟨text ++ front, (List.append_assoc ..).symm⟩

end Lexer

end ViewSync
