import ViewSync.Proofs.Parser.Nesting
import ViewSync.Proofs.Parser.RoundTrip
import ViewSync.Proofs.Token.Blocks

/-!
# ViewSync.Proofs.Parser.Recovery

Blocks and recovery. A statement that fails is skipped, with the block that hangs on it, and reading goes on behind it.
Over such a stretch as many more blocks are opened than closed as there are faults that found the start of a block
(`ParseState.strayed`): the other faults leave the blocks in line, and a fault of this kind makes the block around it
end one `dedent` early (`blocks_in_line`). The faults lie where reading has come.
-/

namespace ViewSync

/-- Whether the start of a block was found where something else was to stand. -/
def ParseError.isStray (cause : ParseError) : Bool :=
  cause.found? = some .indent

namespace ParseState

/-- A state inside a source, with no expression open. -/
structure Inside (text : String) (s : ParseState) : Prop where
  eof : s.eof.kind = .eof
  depth : s.depth = 0
  source : s.rest <:+ (lex text).tokens

/-- How many faults found the start of a block where something else was to stand. -/
def strayed (s : ParseState) : Nat :=
  s.faults.countP (·.cause.isStray)

/-- One if a block starts ahead. -/
def blockAhead (s : ParseState) : Nat :=
  if s.peek.kind = .indent then 1 else 0

/-- The new faults lie on tokens that are used up or on the one ahead. -/
def Within (s : ParseState) (used : List Token) (s' : ParseState) : Prop :=
  ∀ f ∈ s'.faults, f ∈ s.faults ∨ ∃ t ∈ used ++ [s'.peek], f.span = t.span

/-- The new faults lie on tokens that are used up, or on the end of a block or of the source that is ahead. -/
def NotedIn (s : ParseState) (used : List Token) (s' : ParseState) : Prop :=
  ∀ f ∈ s'.faults, f ∈ s.faults ∨ ∃ t, f.span = t.span ∧ (t ∈ used ∨ t = s'.peek ∧ (t.kind = .dedent ∨ t.kind = .eof))

/-- As many more blocks are open as there are new faults that found the start of one, `ahead` of these excepted, unless
so much is wrong that reading stops. -/
structure Aligned (s : ParseState) (used : List Token) (s' : ParseState) (ahead : Nat) : Prop where
  within : s.Within used s'
  blocks : s'.tooManyFaults = false → ∃ n, Opened used n ∧ s'.strayed = s.strayed + (n + ahead)

/-- In a whole source at most as many blocks are open as there are new faults that found the start of one. -/
structure Levelled (s : ParseState) (used : List Token) (s' : ParseState) : Prop where
  within : s.Within used s'
  blocks : s'.tooManyFaults = false → ∃ n, Opened used n ∧ s.strayed + n ≤ s'.strayed

/-- A block that ends with a `dedent`, behind which as many of the blocks inside it are still open as there are new
faults that found the start of one. -/
structure Closes (s : ParseState) (used : List Token) (s' : ParseState) : Prop where
  within : s.Within used s'
  blocks : s'.tooManyFaults = false → ∃ inner d n, used = inner ++ [d] ∧ d.kind = .dedent ∧ Opened inner n ∧
    s'.strayed = s.strayed + n

variable {s s' s'' : ParseState} {used more : List Token} {t : Token} {k : Nat}

theorem Inside.sourced {text : String} (h : s.Inside text) (hlex : (lex text).faults = []) : s.Sourced := by
  obtain ⟨front, hfront⟩ := h.source
  exact ⟨h.eof, text, front, hlex, hfront.symm⟩

@[simp] theorem peek_note (s : ParseState) (cause : ParseError) (span : Span) : (s.note cause span).peek = s.peek := rfl

theorem strayed_note (s : ParseState) (cause : ParseError) (span : Span) :
    (s.note cause span).strayed = s.strayed + if cause.isStray then 1 else 0 :=
  List.countP_cons ..

theorem strayed_of_faults (h : s'.faults = s.faults) : s'.strayed = s.strayed :=
  congrArg (List.countP _) h

@[simp] theorem faults_advance (s : ParseState) : s.advance.faults = s.faults := by
  unfold advance
  cases s.rest <;> rfl

/-- What was not too much wrong in the end was not before. -/
theorem Moves.few (h : s.Moves used s') (hfew : s'.tooManyFaults = false) : s.tooManyFaults = false := by
  have hlength := h.faults.length_le
  simp only [tooManyFaults, decide_eq_false_iff_not] at *
  omega

/-! ## stretches of reading -/

theorem within_of_faults (h : s'.faults = s.faults) : s.Within used s' :=
  fun _ hf => .inl (h ▸ hf)

theorem Within.trans (h : s.Within used s') (hmoves : s'.Moves more s'') (h' : s'.Within more s'') :
    s.Within (used ++ more) s'' := by
  have hahead : s'.peek ∈ more ++ [s''.peek] := by
    cases more with
    | nil => simp [hmoves.toReads.peek_eq]
    | cons u rest => simp [hmoves.toReads.peek_of_cons]
  intro f hf
  obtain hearlier | ⟨t, ht, hspan⟩ := h' f hf
  · obtain hold | ⟨t, ht, hspan⟩ := h f hearlier
    · exact .inl hold
    · refine .inr ⟨t, ?_, hspan⟩
      obtain hused | hnext := List.mem_append.1 ht
      · simp [hused]
      · rw [List.mem_singleton.1 hnext, List.append_assoc]
        exact List.mem_append_right _ hahead
  · refine .inr ⟨t, ?_, hspan⟩
    rw [List.append_assoc]
    exact List.mem_append_right _ ht

namespace Aligned

theorem refl (s : ParseState) : s.Aligned [] s 0 :=
  ⟨within_of_faults rfl, fun _ => ⟨0, opened_nil, rfl⟩⟩

theorem trans (h : s.Aligned used s' 0) (hmoves : s'.Moves more s'') (h' : s'.Aligned more s'' k) :
    s.Aligned (used ++ more) s'' k where
  within := h.within.trans hmoves h'.within
  blocks hfew := by
    obtain ⟨m, hm, hstrayed⟩ := h.blocks (hmoves.few hfew)
    obtain ⟨n, hn, hstrayed'⟩ := h'.blocks hfew
    exact ⟨m + n, hm.append hn, by omega⟩

/-- What was ahead has been opened. -/
theorem settle (h : s.Aligned used s' k) (hmoves : s'.Moves more s'') (hopened : Opened more k)
    (hfaults : s''.faults = s'.faults) : s.Aligned (used ++ more) s'' 0 where
  within := h.within.trans hmoves (within_of_faults hfaults)
  blocks hfew := by
    obtain ⟨n, hn, hstrayed⟩ := h.blocks (hmoves.few hfew)
    have hsame := strayed_of_faults hfaults
    exact ⟨n + k, hn.append hopened, by omega⟩

end Aligned

theorem aligned_of_opened (hopened : Opened used 0) (hfaults : s'.faults = s.faults) : s.Aligned used s' 0 where
  within := within_of_faults hfaults
  blocks _ := ⟨0, hopened, strayed_of_faults hfaults⟩

/-- A fault on the token ahead. -/
theorem within_note (s : ParseState) (cause : ParseError) : s.Within [] (s.note cause s.peek.span) := by
  intro f hf
  obtain rfl | hold := List.mem_cons.1 hf
  · exact .inr ⟨s.peek, by simp, rfl⟩
  · exact .inl hold

/-- A fault that finds the start of a block exactly if one is ahead. -/
theorem aligned_note {cause : ParseError} (h : cause.isStray = true ↔ s.peek.kind = .indent) :
    s.Aligned [] (s.note cause s.peek.span) s.blockAhead where
  within := within_note s cause
  blocks _ := ⟨0, opened_nil, by rw [strayed_note, blockAhead]; simp only [h, Nat.zero_add]⟩

/-- No layout is used up on a line. -/
theorem Walks.kind_ne (h : s.Walks used s') {k : TokenKind} (hk : k.isLayout = true) (ht : t ∈ used) : t.kind ≠ k := by
  rintro rfl
  rw [h.worded t ht] at hk
  cases hk

theorem Walks.aligned (h : s.Walks used s') : s.Aligned used s' 0 :=
  aligned_of_opened (opened_of_forall fun _ ht => ⟨h.kind_ne rfl ht, h.kind_ne rfl ht⟩) h.faults

theorem blockAhead_of_ne (h : s.peek.kind ≠ .indent) : s.blockAhead = 0 :=
  if_neg h

/-- A block with its start. -/
theorem Closes.aligned (h : s'.Closes more s'') (hindent : s.peek.kind = .indent) (hmore : s'.Moves more s'')
    (hfaults : s'.faults = s.faults) : s.Aligned ([s.peek] ++ more) s'' 0 where
  within := (within_of_faults hfaults).trans hmore h.within
  blocks hfew := by
    obtain ⟨inner, d, n, rfl, hd, hinner, hstrayed⟩ := h.blocks hfew
    have hopened : Opened ([s.peek] ++ inner) (n + 1) := by
      rw [Nat.add_comm]
      exact (opened_indent hindent).append hinner
    have hsame := strayed_of_faults hfaults
    exact ⟨n, by simpa using hopened.close hd, by omega⟩

theorem Levelled.trans (h : s.Levelled used s') (hmore : s'.Moves more s'') (h' : s'.Aligned more s'' 0) :
    s.Levelled (used ++ more) s'' where
  within := h.within.trans hmore h'.within
  blocks hfew := by
    obtain ⟨m, hm, hstrayed⟩ := h.blocks (hmore.few hfew)
    obtain ⟨n, hn, hstrayed'⟩ := h'.blocks hfew
    exact ⟨m + n, hm.append hn, by omega⟩

/-- The end of a block that is open. -/
theorem Levelled.close (h : s.Levelled used s') (hmore : s'.Moves [t] s'') (hfaults : s''.faults = s'.faults)
    (ht : t.kind = .dedent)
    (hopen : ((used ++ [t]).map (·.kind)).count .dedent ≤ ((used ++ [t]).map (·.kind)).count .indent) :
    s.Levelled (used ++ [t]) s'' where
  within := h.within.trans hmore (within_of_faults hfaults)
  blocks hfew := by
    obtain ⟨n, hn, hstrayed⟩ := h.blocks (hmore.few hfew)
    have hcount := hn.count
    simp [ht] at hopen
    obtain ⟨m, rfl⟩ : ∃ m, n = m + 1 := ⟨n - 1, by omega⟩
    have hsame := strayed_of_faults hfaults
    exact ⟨m, hn.close ht, by omega⟩

/-! ## blocks in a source -/

namespace Sourced

/-- A block starts behind the end of a line. -/
theorem newline_of_indent (h : s.Sourced) (hreads : s.Reads (used ++ [t]) s') (hindent : s'.peek.kind = .indent) :
    t.kind = .newline := by
  obtain ⟨heof, text, front, -, htokens⟩ := h
  rw [hreads.rest] at htokens
  cases hrest : s'.rest with
  | nil =>
      rw [peek, hrest, List.headD_nil, hreads.eof, heof] at hindent
      cases hindent
  | cons u rest =>
      have hchain := indents_lex text
      rw [htokens, hrest] at hchain
      have hpair : List.IsChain MayOpen (t.kind :: u.kind :: rest.map (·.kind)) := by
        refine hchain.suffix ⟨(front ++ used).map (·.kind), ?_⟩
        simp
      rw [peek, hrest] at hindent
      exact (List.isChain_cons_cons.1 hpair).1 hindent

/-- On a line no block starts ahead, if none did at first. -/
theorem peek_ne_indent (h : s.Sourced) (hreads : s.Reads used s') (hs : s.peek.kind ≠ .indent)
    (hused : ∀ t ∈ used, t.kind ≠ .newline) : s'.peek.kind ≠ .indent := by
  obtain rfl | ⟨front, t, rfl⟩ := used.eq_nil_or_concat
  · rwa [hreads.peek_eq]
  · rw [List.concat_eq_append] at hreads hused
    intro hindent
    exact hused t (by simp) (h.newline_of_indent hreads hindent)

/-- Behind a text no block starts. -/
theorem peek_ne_indent_of_text (h : s.Sourced) (hreads : s.Reads [t] s') (ht : t.kind.isLayout = false) :
    s'.peek.kind ≠ .indent := by
  rw [← List.nil_append [t]] at hreads
  intro hindent
  rw [h.newline_of_indent hreads hindent] at ht
  cases ht

/-- At the end of a source all blocks are closed. -/
theorem closed_at_end (h : s.Sourced) (hreads : s.Reads used s') (heof : s'.peek.kind = .eof) :
    (used.map (·.kind)).count .indent ≤ (used.map (·.kind)).count .dedent := by
  obtain ⟨-, text, front, hlex, htokens⟩ := h
  obtain ⟨⟨kinds, hkinds, hbefore⟩, -⟩ := spaced_lex text
  obtain ⟨hkept, hall, -⟩ := nested_lex hlex
  rw [hreads.rest] at htokens
  have hend : s'.rest.map (·.kind) = [] ∨ s'.rest.map (·.kind) = [.eof] := by
    cases hrest : s'.rest with
    | nil => exact .inl rfl
    | cons t rest =>
        rw [peek, hrest, List.headD_cons] at heof
        obtain rfl | ⟨more, u, rfl⟩ := rest.eq_nil_or_concat
        · exact .inr (by rw [List.map_singleton, heof])
        · have hsplit : (front.map (·.kind) ++ (used.map (·.kind) ++ .eof :: more.map (·.kind))) ++ [u.kind] =
              kinds ++ [.eof] := by
            rw [← hkinds, htokens, hrest]
            simp [heof]
          rw [← (List.append_inj' hsplit rfl).1] at hbefore
          exact absurd (by simp) hbefore
  have hfront := hkept (front.map (·.kind)) ⟨(used ++ s'.rest).map (·.kind), by rw [htokens]; simp⟩
  rw [htokens] at hall
  simp only [List.map_append, List.count_append] at hall
  obtain hnil | heof := hend
  · rw [hnil] at hall
    simp at hall
    omega
  · rw [heof] at hall
    simp at hall
    omega

end Sourced

end ParseState

namespace Parser

open ParseState

variable {α β γ : Type}

/-! ## rounds of a loop -/

/-- What holds at first, and of the next round whenever of this one, holds whenever a loop goes on. -/
theorem Comes.runs {step : α → Parser (α ⊕ β)} {a a' : α} {s s' : ParseState} (inv : List Token → ParseState → Prop)
    (h : Comes step a s a' s') (hs : s.Sourced) (hstart : inv [] s)
    (hstep : ∀ a used s', s.Moves used s' → inv used s' → RunsAt (step a) s'
      (fun more r s'' => ∀ a', r = .inl a' → inv (used ++ more) s'') fun _ _ => True) :
    ∃ used, s.Moves used s' ∧ inv used s' := by
  induction h with
  | start => exact ⟨[], .refl s, hstart⟩
  | @round a' a'' s' s'' _ hround ih =>
      obtain ⟨used, hmoves, hinv⟩ := ih
      have hruns := hstep a' used s' hmoves hinv (hs.reads hmoves.toReads)
      rw [hround] at hruns
      obtain ⟨more, hmore, hinv'⟩ := hruns
      exact ⟨used ++ more, hmoves.trans hmore, hinv' a'' rfl⟩

/-! ## single steps -/

section

variable {s : ParseState} {failed : List Token → ParseState → Prop}

theorem runsAt_advance (hne : s.peek.kind ≠ .eof) :
    RunsAt advance s (fun used t s' => used = [s.peek] ∧ t = s.peek ∧ s'.faults = s.faults) failed :=
  .intro fun hs => .of_done rfl (fun _ => moves_advance_of_ne hs.eof hne) ⟨rfl, rfl, faults_advance s⟩

theorem runsAt_eat {k : TokenKind} (hne : k ≠ .eof) :
    RunsAt (eat k) s (fun used found s' => s'.faults = s.faults ∧
      (found = true ∧ s.peek.kind = k ∧ used = [s.peek] ∨ found = false ∧ s.peek.kind ≠ k ∧ used = [] ∧ s' = s))
      failed := by
  by_cases hk : s.peek.kind = k
  · have heat : eat k s = .done true s.advance := by rw [eat, if_pos (beq_iff_eq.2 hk)]
    exact .intro fun hs => .of_done heat (fun _ => moves_advance_of_ne hs.eof (hk ▸ hne))
      ⟨faults_advance s, .inl ⟨rfl, hk, rfl⟩⟩
  · have heat : eat k s = .done false s := by rw [eat, if_neg (mt beq_iff_eq.1 hk)]
    exact .of_done heat (fun _ => .refl s) ⟨rfl, .inr ⟨rfl, hk, rfl, rfl⟩⟩

end

/-! ## parsers that keep blocks in line -/

/-- A parser keeps the blocks in line, whether it ends with a value, of which `post` holds, or fails. Where it fails, a
block that starts ahead has been counted as found and not been opened. -/
def Aligns (p : Parser α) (s : ParseState) (post : α → ParseState → Prop) : Prop :=
  s.depth = 0 → RunsAt p s (fun used a s' => s.Aligned used s' 0 ∧ post a s')
    fun used s' => s.Aligned used s' s'.blockAhead

variable {p : Parser α} {s s' : ParseState} {a : α} {used : List Token} {post : α → ParseState → Prop}
  {goal : β → ParseState → Prop} {walked : List Token → α → Prop}

namespace Aligns

theorem bind {f : α → Parser β} (hp : Aligns p s post) (hf : ∀ a s', post a s' → Aligns (f a) s' goal) :
    Aligns (p >>= f) s goal := by
  intro hdepth
  refine (hp hdepth).bind fun a used s' hmoves ha => ?_
  refine (hf a s' ha.2 (hmoves.depth.trans hdepth)).mono (fun more b s'' hmore hb => ?_) fun more s'' hmore h => ?_
  · exact ⟨ha.1.trans hmore hb.1, hb.2⟩
  · exact ha.1.trans hmore h

theorem pure (h : post a s) : Aligns (pure a) s post :=
  fun _ => .pure ⟨.refl s, h⟩

/-- A value that is at hand. -/
theorem pure_bind {f : α → Parser β} (h : Aligns (f a) s goal) : Aligns (Pure.pure a >>= f) s goal := h

theorem ite {q : Parser α} {c : Prop} [Decidable c] (hp : c → Aligns p s post) (hq : ¬ c → Aligns q s post) :
    Aligns (if c then p else q) s post := by
  split
  · exact hp ‹_›
  · exact hq ‹_›

theorem kind {f : TokenKind → Parser β} (h : Aligns (f s.peek.kind) s goal) : Aligns (kind >>= f) s goal := h

theorem here {f : Span → Parser β} (h : Aligns (f s.peek.span) s goal) : Aligns (here >>= f) s goal := h

theorem last {f : Span → Parser β} (h : Aligns (f s.last) s goal) : Aligns (last >>= f) s goal := h

theorem any (h : Aligns p s post) : Aligns p s fun _ _ => True :=
  fun hdepth => (h hdepth).mono (fun _ _ _ _ ha => ⟨ha.1, trivial⟩) fun _ _ _ ha => ha

/-- A fault on the token ahead, which it names unless it is not the start of a block. -/
theorem fail {cause : ParseError} (h : cause.isStray = true ↔ s.peek.kind = .indent) : Aligns (fail cause) s post :=
  fun _ => .of_failed rfl (s.moves_note _ _) (aligned_note h)

/-- A parser that stays on a line. -/
theorem line (hp : WalksAt p s walked) (hs : s.peek.kind ≠ .indent) :
    Aligns p s fun _ s' => s'.peek.kind ≠ .indent := by
  refine fun _ => .intro fun hsourced => (RunsAt.of_walks hp).mono ?_ ?_
  · rintro used a s' - ⟨hwalks, -⟩
    exact ⟨hwalks.aligned, hsourced.peek_ne_indent hwalks.toReads hs fun _ ht => hwalks.kind_ne rfl ht⟩
  · rintro used s' - ⟨mid, cause, hwalks, hfound, rfl⟩
    have hmid : mid.peek.kind ≠ .indent :=
      hsourced.peek_ne_indent hwalks.toReads hs fun _ ht => hwalks.kind_ne rfl ht
    have hnote : mid.Aligned [] (mid.note cause mid.peek.span) mid.blockAhead := by
      refine aligned_note ⟨fun hstray => ?_, fun heq => absurd heq hmid⟩
      exact (hfound .indent (by simpa [ParseError.isStray] using hstray)).symm
    rw [← List.append_nil used]
    exact hwalks.aligned.trans (mid.moves_note _ _) hnote

/-- A token with a text of its own. -/
theorem advance (hworded : s.peek.kind.isLayout = false) :
    Aligns advance s fun t s' => t = s.peek ∧ s'.peek.kind ≠ .indent := by
  refine fun hdepth => .intro fun hsourced => ?_
  have hwalks := walks_advance hsourced.eof hworded
  exact .of_done rfl (fun _ => hwalks.moves)
    ⟨hwalks.aligned, rfl, hsourced.peek_ne_indent_of_text hwalks.toReads hworded⟩

/-- A token with a text of its own, if it is ahead. -/
theorem eat {k : TokenKind} (hworded : k.isLayout = false) :
    Aligns (eat k) s fun found s' => found = true ∨ s.peek.kind ≠ .indent → s'.peek.kind ≠ .indent := by
  by_cases hk : s.peek.kind = k
  · have heat : Parser.eat k s = .done true s.advance := by rw [Parser.eat, if_pos (beq_iff_eq.2 hk)]
    refine fun hdepth => .intro fun hsourced => ?_
    have hpeek : s.peek.kind.isLayout = false := hk ▸ hworded
    have hwalks := walks_advance hsourced.eof hpeek
    exact .of_done heat (fun _ => hwalks.moves)
      ⟨hwalks.aligned, fun _ => hsourced.peek_ne_indent_of_text hwalks.toReads hpeek⟩
  · have heat : Parser.eat k s = .done false s := by rw [Parser.eat, if_neg (mt beq_iff_eq.1 hk)]
    exact fun _ => .of_done heat (fun _ => .refl s) ⟨.refl s, fun h => h.resolve_left (by simp)⟩

/-- The end of a line, if it is ahead. -/
theorem eat_newline : Aligns (Parser.eat .newline) s fun ended s' => ended = false → s' = s := by
  refine fun _ => (runsAt_eat (by decide)).mono (fun used ended s' _ h => ?_) fun _ _ _ h => h
  obtain ⟨hfaults, ⟨rfl, hkind, rfl⟩ | ⟨rfl, -, rfl, rfl⟩⟩ := h
  · have hopened : Opened [s.peek] 0 := opened_other (by simp [hkind]) (by simp [hkind])
    exact ⟨aligned_of_opened hopened hfaults, fun h => by cases h⟩
  · exact ⟨.refl s', fun _ => rfl⟩

theorem loop {step : α → Parser (α ⊕ β)} (h : ∀ a s, Aligns (step a) s fun _ _ => True) (a : α) :
    Aligns (loop step a) s fun _ _ => True := by
  intro hdepth
  refine RunsAt.loop (fun used _ s' => s.Aligned used s' 0) (.refl s) fun a used s' hmoves haligned => ?_
  refine (h a s' (hmoves.depth.trans hdepth)).mono (fun more r s'' hmore hr => ?_) fun more s'' hmore hr => ?_
  · cases r with
    | inl a' => exact haligned.trans hmore hr.1
    | inr b => exact ⟨haligned.trans hmore hr.1, trivial⟩
  · exact haligned.trans hmore hr

theorem bounded {body : Nat → Parser α} (h : ∀ bound, Aligns (body bound) s post) : Aligns (bounded body) s post :=
  fun hdepth => .bounded fun bound => h bound hdepth

end Aligns

/-! ## skipping -/

section

variable {failed : List Token → ParseState → Prop}

/-- Behind the end of a line, or in front of the end of a block or of the source. -/
def AtLine (used : List Token) (s : ParseState) : Prop :=
  (∃ front t, used = front ++ [t] ∧ (t.kind = .newline ∨ t.kind = .dedent)) ∨
    s.peek.kind = .dedent ∨ s.peek.kind = .eof

/-- The rest of a line. If it starts with the start of a block, that one stays open. -/
theorem skipLine_opened : RunsAt skipLine s
    (fun used _ s' => Opened used s.blockAhead ∧ s'.faults = s.faults ∧ endsLine s'.peek.kind = true) failed := by
  refine .intro fun hs => .here (RunsAt.loop (fun used _ s' => s'.faults = s.faults ∧
    (∀ t ∈ used, t.kind ≠ .newline) ∧ (used ≠ [] → Opened used s.blockAhead)) ⟨rfl, by simp, by simp⟩ ?_)
  rintro span used s' hmoves ⟨hfaults, hline, hopened⟩
  refine .kind (.ite (fun hends => .pure ?_) fun hends => ?_)
  · refine ⟨?_, by simpa using hfaults, hends⟩
    by_cases hused : used = []
    · have hpeek : s'.peek = s.peek := (hused ▸ hmoves.toReads).peek_eq
      have hblock : s.blockAhead = 0 := by
        refine blockAhead_of_ne fun hindent => ?_
        rw [hpeek, hindent] at hends
        cases hends
      rw [hblock, hused]
      exact opened_nil
    · simpa using hopened hused
  · have hne : ∀ k, endsLine k = true → s'.peek.kind ≠ k := by
      rintro _ hk rfl
      exact hends hk
    refine (runsAt_advance (hne .eof rfl)).bind fun t more s'' _ h => .pure ?_
    obtain ⟨rfl, rfl, hfaults'⟩ := h
    refine ⟨hfaults'.trans hfaults, ?_, fun _ => ?_⟩
    · simpa [or_imp, forall_and, hne .newline rfl] using hline
    · obtain rfl | ⟨front, t, rfl⟩ := used.eq_nil_or_concat
      · have hpeek : s'.peek = s.peek := hmoves.toReads.peek_eq
        by_cases hindent : s.peek.kind = .indent
        · rw [blockAhead, if_pos hindent]
          exact opened_indent (hpeek ▸ hindent)
        · rw [blockAhead_of_ne hindent]
          exact opened_other (hpeek ▸ hindent) (hne .dedent rfl)
      · have hindent : s'.peek.kind ≠ .indent := by
          rw [List.concat_eq_append] at hmoves hline
          exact fun h => hline t (by simp) (hs.newline_of_indent hmoves.toReads h)
        simpa using (hopened (by simp)).append (opened_other hindent (hne .dedent rfl))

/-- A block that is skipped, from its start up to its own end. -/
theorem skipIndented_closed (hindent : s.peek.kind = .indent) : RunsAt skipIndented s
    (fun used _ s' => Opened used 0 ∧ s'.faults = s.faults ∧ ∃ front t, used = front ++ [t] ∧ t.kind = .dedent)
    failed := by
  refine .intro fun hs => RunsAt.loop (fun used depth s' => s'.faults = s.faults ∧ Opened used depth ∧
    (depth = 0 → used = [])) ⟨rfl, opened_nil, fun _ => rfl⟩ ?_
  rintro depth used s' hmoves ⟨hfaults, hopened, hstart⟩
  have hfirst : depth = 0 → s'.peek.kind = .indent := by
    intro hdepth
    rw [(hstart hdepth ▸ hmoves.toReads : s.Reads [] s').peek_eq, hindent]
  have hne : s'.peek.kind ≠ .eof := by
    intro heof
    have hclosed := hs.closed_at_end hmoves.toReads heof
    have hcount := hopened.count
    have hdepth := hfirst (by omega)
    rw [heof] at hdepth
    cases hdepth
  refine (runsAt_advance hne).bind fun t more s'' _ h => ?_
  obtain ⟨rfl, rfl, hfaults'⟩ := h
  split
  · next hkind => exact .pure ⟨hfaults'.trans hfaults, by simpa using hopened.append (opened_indent hkind), by simp⟩
  · next hkind =>
      obtain ⟨outer, rfl⟩ : ∃ outer, depth = outer + 1 := by
        refine Nat.exists_eq_succ_of_ne_zero fun hdepth => ?_
        rw [hfirst hdepth] at hkind
        cases hkind
      have hclosed := hopened.close hkind
      refine .ite (fun hlast => .pure ?_) fun hmore => .pure ?_
      · obtain rfl : outer = 0 := by omega
        exact ⟨by simpa using hclosed, hfaults'.trans hfaults, used, s'.peek, by simp, hkind⟩
      · exact ⟨hfaults'.trans hfaults, by simpa using hclosed, fun hdepth => by omega⟩
  · next hkind => exact absurd hkind hne
  · next hnotIndent hnotDedent _ =>
      refine .pure ⟨hfaults'.trans hfaults, ?_, fun hdepth => absurd (hfirst hdepth) hnotIndent⟩
      simpa using hopened.append (opened_other hnotIndent hnotDedent)

/-- The rest of a line, and the block that hangs on it. -/
theorem skipClause_opened : RunsAt skipClause s
    (fun used _ s' => Opened used s.blockAhead ∧ s'.faults = s.faults ∧ AtLine used s') failed := by
  refine skipLine_opened.bind fun span used s₁ _ h => (runsAt_eat (by decide)).bind fun ended more s₂ _ h' => ?_
  obtain ⟨hopened, hfaults, hends⟩ := h
  obtain ⟨hfaults', ⟨rfl, hkind, rfl⟩ | ⟨rfl, hkind, rfl, rfl⟩⟩ := h'
  · have hline : Opened (used ++ [s₁.peek]) s.blockAhead :=
      hopened.append (opened_other (by simp [hkind]) (by simp [hkind]))
    refine .check (.ite (fun hblock => ?_) fun _ => .pure ?_)
    · refine (skipIndented_closed (by simpa using hblock)).bind fun _ rest s₃ _ h => .pure ?_
      obtain ⟨hclosed, hfaults'', front, t, rfl, ht⟩ := h
      refine ⟨by simpa using hline.append hclosed, hfaults''.trans (hfaults'.trans hfaults), .inl ?_⟩
      exact ⟨used ++ ([s₁.peek] ++ front), t, by simp, .inr ht⟩
    · refine ⟨by simpa using hline, hfaults'.trans hfaults, .inl ⟨used, s₁.peek, by simp, .inl hkind⟩⟩
  · have hend : s₂.peek.kind = .dedent ∨ s₂.peek.kind = .eof := by
      revert hends hkind
      cases s₂.peek.kind <;> simp [endsLine]
    refine .check (.ite (fun hblock => ?_) fun _ => .pure ⟨by simpa using hopened, hfaults, .inr hend⟩)
    rw [beq_iff_eq] at hblock
    rw [hblock] at hend
    cases hend with
    | inl h => cases h
    | inr h => cases h

end

/-! ## simple and refused statements -/

theorem aligns_lineEnd (hs : s.peek.kind ≠ .indent) : Aligns lineEnd s fun _ _ => True := by
  refine fun _ => .intro fun hsourced => ?_
  cases hkind : s.peek.kind with
  | newline =>
      have hdone : lineEnd s = .done () s.advance := by simp only [lineEnd, hkind]
      have hopened : Opened [s.peek] 0 := opened_other (by simp [hkind]) (by simp [hkind])
      exact .of_done hdone (fun _ => moves_advance_of_ne hsourced.eof (by simp [hkind]))
        ⟨aligned_of_opened hopened (faults_advance s), trivial⟩
  | dedent | eof =>
      have hdone : lineEnd s = .done () s := by simp only [lineEnd, hkind]
      exact .of_done hdone (fun _ => .refl s) ⟨.refl s, trivial⟩
  | _ =>
      have hdone : lineEnd s = .done () (s.note (.expectedLineEnd s.peek.kind) s.peek.span) := by
        simp only [lineEnd, hkind]
      have hnote : s.Aligned [] (s.note (.expectedLineEnd s.peek.kind) s.peek.span) s.blockAhead :=
        aligned_note (by simp [ParseError.isStray, ParseError.found?])
      rw [blockAhead_of_ne hs] at hnote
      exact .of_done hdone (fun _ => s.moves_note _ _) ⟨hnote, trivial⟩

theorem aligns_simple : Aligns simple s fun _ _ => True := by
  by_cases hindent : s.peek.kind = .indent
  · refine fun hdepth => .of_failed (misses_simple (by rw [hindent]; rfl) hdepth) (s.moves_note _ _) (aligned_note ?_)
    simp [ParseError.isStray, ParseError.found?]
  · exact (Aligns.line (walks_simpleBody s) hindent).bind fun stmt s' hs' => (aligns_lineEnd hs').bind fun _ _ _ =>
      .pure trivial

theorem aligns_skipClause (hs : s.peek.kind ≠ .indent) : Aligns skipClause s fun _ _ => True := by
  refine fun _ => skipClause_opened.mono (fun used span s' _ h => ?_) fun _ _ _ h => h
  rw [blockAhead_of_ne hs] at h
  exact ⟨aligned_of_opened h.1 h.2.1, trivial⟩

theorem aligns_refused (hs : s.peek.kind ≠ .indent) (stmt : RefusedStmt) : Aligns (refused stmt) s fun _ _ => True := by
  refine .here ((aligns_skipClause hs).bind fun stop s' _ => .ite (fun _ => ?_) fun _ => .pure trivial)
  refine (Aligns.loop (fun _ s => .kind (.ite (fun hmore => ?_) fun _ => .pure trivial)) ()).bind
    fun _ _ _ => .pure trivial
  have hne : s.peek.kind ≠ .indent := by
    intro hindent
    rw [hindent] at hmore
    cases hmore
  exact (aligns_skipClause hne).bind fun _ _ _ => .pure trivial

/-! ## blocks -/

section

variable {statement : Parser Stmt} (hstatement : ∀ s, Aligns statement s fun _ _ => True)
  {failed : List Token → ParseState → Prop}

include hstatement

omit hstatement in
theorem AtLine.append (h : AtLine used s') (front : List Token) : AtLine (front ++ used) s' := by
  obtain ⟨more, t, rfl, ht⟩ | hend := h
  · exact .inl ⟨front ++ more, t, (List.append_assoc _ _ _).symm, ht⟩
  · exact .inr hend

omit hstatement in
/-- What is noted on the token ahead is passed when the rest of the line is skipped. -/
theorem AtLine.notedIn {s'' : ParseState} {more : List Token} (h : AtLine more s'') (hwithin : s.Within used s')
    (hmore : s'.Moves more s'') (hfaults : s''.faults = s'.faults) : s.NotedIn (used ++ more) s'' := by
  intro f hf
  rw [hfaults] at hf
  obtain hold | ⟨t, ht, hspan⟩ := hwithin f hf
  · exact .inl hold
  refine .inr ⟨t, hspan, ?_⟩
  obtain hused | hnext := List.mem_append.1 ht
  · exact .inl (List.mem_append_left _ hused)
  rw [List.mem_singleton] at hnext
  cases more with
  | nil =>
      have hpeek : t = s''.peek := hnext.trans hmore.toReads.peek_eq.symm
      obtain ⟨front, u, hnil, -⟩ | hend := h
      · exact absurd hnil.symm (by simp)
      · exact .inr ⟨hpeek, hpeek ▸ hend⟩
  | cons u rest =>
      rw [hmore.toReads.peek_of_cons] at hnext
      exact .inl (by simp [hnext])

/-- A statement that fails is skipped up to the start of a line. Its faults lie on what has been used up for it, or on
the end of the block or of the source that is ahead. -/
theorem runsAt_skipped (hdepth : s.depth = 0) : RunsAt (recovered statement) s
    (fun used found s' => s.Aligned used s' 0 ∧ (found = none → AtLine used s' ∧ s.NotedIn used s')) failed := by
  refine (hstatement s hdepth).attempt.bind fun found used s' hmoves h => ?_
  cases found with
  | some stmt => exact .pure ⟨by simpa using h.1, fun h => by cases h⟩
  | none =>
      have hsynchronize : RunsAt synchronize s' (fun more _ s'' => s.Aligned (used ++ more) s'' 0 ∧
          AtLine (used ++ more) s'' ∧ s.NotedIn (used ++ more) s'') fun more => failed (used ++ more) := by
        refine skipClause_opened.bind fun _ more s'' hmore h' => .pure ?_
        obtain ⟨hopened, hfaults, hline⟩ := h'
        rw [List.append_nil]
        exact ⟨h.settle hmore hopened hfaults, hline.append used, hline.notedIn h.within hmore hfaults⟩
      refine hsynchronize.bind fun _ more s'' _ h' => .pure ?_
      rw [List.append_nil]
      exact ⟨h'.1, fun _ => h'.2⟩

theorem runsAt_blockStep (acc : List Stmt) (hdepth : s.depth = 0) : RunsAt (blockStep statement acc) s
    (fun used r s' => s.Aligned used s' 0 ∧
      ∀ body, r = .inr body → s'.peek.kind = .dedent ∨ s'.peek.kind = .eof ∨ s'.tooManyFaults = true) failed := by
  refine .check (.check (.tooManyFaults (.ite (fun hend => .pure ⟨.refl s, fun _ _ => ?_⟩) fun _ => ?_)))
  · simpa [or_assoc] using hend
  · refine (runsAt_skipped hstatement hdepth).bind fun found used s' _ h => ?_
    cases found with
    | some stmt => exact .pure ⟨by simpa using h.1, fun _ h => by cases h⟩
    | none => exact .pure ⟨by simpa using h.1, fun _ h => by cases h⟩

/-- A block ends with the `dedent` that stands behind as many further open blocks as there are new faults that found the
start of one. Where there is none of these, it is the one that belongs to it. -/
theorem runsAt_indentedBlock_closes (hs : s.Sourced) (hdepth : s.depth = 0) (hindent : s.peek.kind = .indent)
    (hmoves : s.Moves [s.peek] s') :
    RunsAt (indentedBlock statement) s' (fun used _ s'' => s'.Closes used s'') failed := by
  have hloop : RunsAt (loop (blockStep statement) []) s' (fun used _ s'' => s'.Aligned used s'' 0 ∧
      (s''.peek.kind = .dedent ∨ s''.peek.kind = .eof ∨ s''.tooManyFaults = true)) failed := by
    refine RunsAt.loop (fun used _ s'' => s'.Aligned used s'' 0) (.refl s') fun acc used s₁ hused haligned => ?_
    have hdepth₁ : s₁.depth = 0 := (hused.depth.trans hmoves.depth).trans hdepth
    refine (runsAt_blockStep hstatement acc hdepth₁).mono (fun more r s₂ hmore hr => ?_) fun _ _ _ h => h
    cases r with
    | inl acc => exact haligned.trans hmore hr.1
    | inr body => exact ⟨haligned.trans hmore hr.1, hr.2 body rfl⟩
  refine RunsAt.bind hloop fun body used s₁ hused h => (runsAt_eat (by decide)).bind
    fun closed more s₂ hmore h' => .pure ?_
  obtain ⟨haligned, hend⟩ := h
  rw [List.append_nil]
  refine ⟨haligned.within.trans hmore (within_of_faults h'.1), fun hfew => ?_⟩
  obtain ⟨n, hopened, hstrayed⟩ := haligned.blocks (hmore.few hfew)
  obtain ⟨hfaults, ⟨rfl, hkind, rfl⟩ | ⟨rfl, hkind, rfl, rfl⟩⟩ := h'
  · exact ⟨used, s₁.peek, n, rfl, hkind, hopened, (strayed_of_faults hfaults).trans hstrayed⟩
  · obtain hdedent | heof | hmany := hend
    · exact absurd hdedent hkind
    · have hclosed := hs.closed_at_end (hmoves.trans hused).toReads heof
      have hcount := ((opened_indent hindent).append hopened).count
      omega
    · rw [hmany] at hfew
      cases hfew

/-- A block, from its colon. -/
theorem aligns_block (hs : s.peek.kind ≠ .indent) : Aligns (block statement) s fun _ _ => True := by
  refine (Aligns.line (walks_expect rfl s) hs).bind fun _ s₁ hs₁ => Aligns.eat_newline.bind fun ended s₂ hended => ?_
  cases ended with
  | false =>
      rw [hended rfl]
      exact aligns_simple.bind fun _ _ _ => .pure trivial
  | true =>
      by_cases hindent : s₂.peek.kind = .indent
      · refine fun hdepth => .intro fun hsourced => (runsAt_eat (by decide)).bind fun found used s₃ hmoves h => ?_
        obtain ⟨hfaults, ⟨rfl, -, rfl⟩ | ⟨rfl, hne, -, -⟩⟩ := h
        · refine (runsAt_indentedBlock_closes hstatement hsourced hdepth hindent hmoves).mono
            (fun more body s₄ hmore h => ⟨?_, trivial⟩) fun _ _ _ h => h
          exact h.aligned hindent hmore hfaults
        · exact absurd hindent hne
      · refine fun hdepth => (runsAt_eat (by decide)).bind fun found used s₃ _ h => ?_
        obtain ⟨-, ⟨rfl, hkind, -⟩ | ⟨rfl, -, rfl, rfl⟩⟩ := h
        · exact absurd hkind hindent
        · have hfails : Aligns (fail .expectedBlock : Parser Block) s₃ fun _ _ => True :=
            .fail (by simp [ParseError.isStray, ParseError.found?, hindent])
          exact hfails hdepth

/-! ## compound statements -/

theorem aligns_function (hworded : s.peek.kind.isLayout = false) (decorators : List Expr) :
    Aligns (function statement decorators) s fun _ _ => True := by
  refine .here ((Aligns.advance hworded).bind fun _ s₁ h₁ => (Aligns.line (walks_name s₁) h₁.2).bind fun _ s₂ h₂ =>
    (Aligns.line (walks_expect rfl s₂) h₂).bind fun _ s₃ h₃ =>
      (Aligns.line (walks_params walks_expressionAt _ s₃) h₃).bind fun _ s₄ h₄ =>
        (Aligns.line (walks_expect rfl s₄) h₄).bind fun _ s₅ h₅ => (Aligns.eat rfl).bind fun _ s₆ h₆ => ?_)
  refine .ite (fun _ => ?_) fun _ => ?_
  · exact (Aligns.line (walks_expressionAt .full s₆) (h₆ (.inr h₅))).bind fun _ s₇ h₇ =>
      (aligns_block hstatement h₇).bind fun _ _ _ => .last (.pure trivial)
  · exact (aligns_block hstatement (h₆ (.inr h₅))).bind fun _ _ _ => .last (.pure trivial)

theorem aligns_classDef (hworded : s.peek.kind.isLayout = false) (decorators : List Expr) :
    Aligns (classDef statement decorators) s fun _ _ => True :=
  .here ((Aligns.advance hworded).bind fun _ s₁ h₁ => (Aligns.line (walks_name s₁) h₁.2).bind fun _ s₂ h₂ =>
    (Aligns.line (walks_bases s₂) h₂).bind fun _ _ h₃ => (aligns_block hstatement h₃).bind
      fun _ _ _ => .last (.pure trivial))

/-- Behind the line of a decorator the start of a block may stand, and then the statement fails there. -/
theorem aligns_decorated : Aligns (decorated statement) s fun _ _ => True := by
  refine (Aligns.loop (fun acc s => ?_) []).bind fun decorators s' _ => .kind ?_
  · refine (Aligns.eat rfl).bind fun found s₁ h₁ => .ite (fun hfound => ?_) fun _ => .pure trivial
    exact (Aligns.line (walks_expressionAt .full s₁) (h₁ (.inl hfound))).bind fun _ _ h₂ =>
      (aligns_lineEnd h₂).bind fun _ _ _ => .pure trivial
  · split
    · next hkind => exact aligns_function hstatement (by rw [hkind]; rfl) decorators
    · next hkind => exact aligns_classDef hstatement (by rw [hkind]; rfl) decorators
    · exact .fail (by simp [ParseError.isStray, ParseError.found?])

theorem aligns_ifChainUpTo (bound : Nat) (hworded : s.peek.kind.isLayout = false) :
    Aligns (ifChainUpTo statement bound) s fun _ _ => True := by
  induction bound generalizing s with
  | zero => exact fun _ _ => trivial
  | succ bound ih =>
      refine .here ((Aligns.advance hworded).bind fun _ s₁ h₁ => (Aligns.line (walks_expressionAt .full s₁) h₁.2).bind
        fun _ _ h₂ => (aligns_block hstatement h₂).bind fun _ s₃ _ => .kind ?_)
      split
      · next hkind =>
          exact (ih (by rw [hkind]; rfl)).bind fun _ _ _ => .pure_bind (.last (.pure trivial))
      · next hkind =>
          have hworded₃ : s₃.peek.kind.isLayout = false := by rw [hkind]; rfl
          exact (Aligns.advance hworded₃).bind fun _ _ h₄ => (aligns_block hstatement h₄.2).bind fun _ _ _ =>
            .pure_bind (.last (.pure trivial))
      · exact .pure_bind (.last (.pure trivial))

theorem aligns_loopElse : Aligns (loopElse statement) s fun _ _ => True :=
  (Aligns.eat rfl).bind fun _ _ h₁ => .ite
    (fun hfound => (aligns_block hstatement (h₁ (.inl hfound))).bind fun _ _ _ => .pure trivial)
    fun _ => .pure trivial

theorem aligns_forLoop (hworded : s.peek.kind.isLayout = false) : Aligns (forLoop statement) s fun _ _ => True :=
  .here ((Aligns.advance hworded).bind fun _ s₁ h₁ => (Aligns.line (walks_targetList walks_expressionAt s₁) h₁.2).bind
    fun _ s₂ h₂ => (Aligns.line (walks_expect rfl s₂) h₂).bind fun _ s₃ h₃ =>
      (Aligns.line (walks_expressionList walks_expressionAt s₃) h₃).bind fun _ _ h₄ =>
        (aligns_block hstatement h₄).bind fun _ _ _ => (aligns_loopElse hstatement).bind fun _ _ _ =>
          .last (.pure trivial))

theorem aligns_whileLoop (hworded : s.peek.kind.isLayout = false) : Aligns (whileLoop statement) s fun _ _ => True :=
  .here ((Aligns.advance hworded).bind fun _ s₁ h₁ => (Aligns.line (walks_expressionAt .full s₁) h₁.2).bind
    fun _ _ h₂ => (aligns_block hstatement h₂).bind fun _ _ _ => (aligns_loopElse hstatement).bind
      fun _ _ _ => .last (.pure trivial))

theorem aligns_statementWith : Aligns (statementWith statement) s fun _ _ => True := by
  refine .kind ?_
  split
  · next hkind => exact aligns_function hstatement (by rw [hkind]; rfl) []
  · next hkind => exact aligns_classDef hstatement (by rw [hkind]; rfl) []
  · exact aligns_decorated hstatement
  · next hkind =>
      have hchain : Aligns (bounded (ifChainUpTo statement)) s fun _ _ => True :=
        .bounded fun bound => aligns_ifChainUpTo hstatement bound (by rw [hkind]; rfl)
      exact hchain.bind fun _ _ _ => .pure trivial
  · next hkind => exact aligns_forLoop hstatement (by rw [hkind]; rfl)
  · next hkind => exact aligns_whileLoop hstatement (by rw [hkind]; rfl)
  · next word hkind =>
      split
      · exact aligns_refused (by simp [hkind]) _
      · refine .ite (fun _ => aligns_simple) fun _ => .fail ?_
        simp [ParseError.isStray, ParseError.found?, hkind]
  · exact aligns_simple

end

theorem aligns_statementUpTo (bound : Nat) (s : ParseState) : Aligns (statementUpTo bound) s fun _ _ => True := by
  induction bound generalizing s with
  | zero => exact fun _ _ => trivial
  | succ bound ih => exact aligns_statementWith ih

theorem aligns_statement (s : ParseState) : Aligns statement s fun _ _ => True :=
  .bounded fun bound => aligns_statementUpTo bound s

/-! ## whole sources -/

/-- A round of a source. The start of a block is reported and the block is skipped, and the end of a block that has been
closed early is dropped. -/
theorem runsAt_moduleStep {failed : List Token → ParseState → Prop} (acc : List Stmt) (hdepth : s'.depth = 0)
    (hkept : ∀ front, front <+: s.rest.map (·.kind) → front.count .dedent ≤ front.count .indent)
    (hmoves : s.Moves used s') (h : s.Levelled used s') :
    RunsAt (moduleStep acc) s' (fun more _ s'' => s.Levelled (used ++ more) s'') failed := by
  refine .check (.tooManyFaults (.ite (fun _ => .pure (by simpa using h)) fun _ => .kind ?_))
  split
  · next hkind =>
      refine (runsAt_advance (by simp [hkind])).bind fun _ more s'' hmore h' => .pure ?_
      obtain ⟨rfl, -, hfaults⟩ := h'
      rw [List.append_nil]
      exact h.trans hmore (aligned_of_opened (opened_other (by simp [hkind]) (by simp [hkind])) hfaults)
  · next hkind =>
      have hreport : RunsAt (report .unexpectedIndent) s' (fun used _ s'' => s'.Aligned used s'' 0 ∧
          s''.peek.kind = .indent) failed :=
        .of_done rfl (fun _ => s'.moves_note _ _) ⟨⟨within_note s' _, fun _ => ⟨0, opened_nil, strayed_note ..⟩⟩, hkind⟩
      refine RunsAt.bind hreport fun _ noted s₁ hnoted h₁ => (skipIndented_closed h₁.2).bind
        fun _ more s₂ hmore h₂ => .pure ?_
      have haligned := h₁.1.trans hmore (aligned_of_opened h₂.1 h₂.2.1)
      simpa using h.trans (hnoted.trans hmore) haligned
  · next hkind =>
      refine (runsAt_advance (by simp [hkind])).bind fun _ more s'' hmore h' => .pure ?_
      obtain ⟨rfl, -, hfaults⟩ := h'
      rw [List.append_nil]
      refine h.close hmore hfaults hkind (hkept _ ⟨s''.rest.map (·.kind), ?_⟩)
      rw [← List.map_append, hmoves.rest, hmore.rest, List.append_assoc]
  · refine (runsAt_skipped aligns_statement hdepth).bind fun found more s'' hmore h' => ?_
    cases found with
    | some stmt => exact .pure (by simpa using h.trans hmore h'.1)
    | none => exact .pure (by simpa using h.trans hmore h'.1)

section

variable {text : String} (hlex : (lex text).faults = [])

include hlex

/-- Whenever a block goes on with another statement, the blocks in it are in line. -/
theorem block_goes_on {bound : Nat} {acc : List Stmt} (hs : s.Inside text) (hindent : s.peek.kind = .indent)
    (hcomes : Comes (blockStep (statementUpTo bound)) [] s.advance acc s') :
    ∃ used, s.advance.Moves used s' ∧ s.advance.Aligned used s' 0 := by
  have hmoves : s.Moves [s.peek] s.advance := moves_advance_of_ne hs.eof (by simp [hindent])
  have hdepth : s.advance.depth = 0 := hmoves.depth.trans hs.depth
  refine hcomes.runs (fun used s' => s.advance.Aligned used s' 0) ((hs.sourced hlex).reads hmoves.toReads) (.refl _)
    fun acc used mid hused haligned => ?_
  refine (runsAt_blockStep (aligns_statementUpTo bound) acc (hused.depth.trans hdepth)).mono ?_ fun _ _ _ h => h
  exact fun more r s'' hmore hr _ _ => haligned.trans hmore hr.1

theorem block_closes {bound : Nat} {body : Block} (hs : s.Inside text) (hindent : s.peek.kind = .indent)
    (hblock : indentedBlock (statementUpTo bound) s.advance = .done body s') :
    ∃ used, s.advance.Moves used s' ∧ s.advance.Closes used s' := by
  have hsourced := hs.sourced hlex
  have hmoves : s.Moves [s.peek] s.advance := moves_advance_of_ne hs.eof (by simp [hindent])
  have hcloses : RunsAt (indentedBlock (statementUpTo bound)) s.advance
      (fun used _ s'' => s.advance.Closes used s'') fun _ _ => True :=
    runsAt_indentedBlock_closes (aligns_statementUpTo bound) hsourced hs.depth hindent hmoves
  have hruns := hcloses (hsourced.reads hmoves.toReads)
  rwa [hblock] at hruns

/-- Whenever a source goes on with another statement, at most as many blocks are open as there are faults that found the
start of one. -/
theorem source_goes_on {acc : List Stmt} (hcomes : Comes moduleStep [] (.start (lex text).tokens) acc s') :
    ∃ used, (ParseState.start (lex text).tokens).Moves used s' ∧
      (ParseState.start (lex text).tokens).Levelled used s' := by
  have hsourced : (ParseState.start (lex text).tokens).Sourced := ⟨rfl, text, [], hlex, rfl⟩
  have hstart : (ParseState.start (lex text).tokens).Levelled [] (.start (lex text).tokens) :=
    ⟨within_of_faults rfl, fun _ => ⟨0, opened_nil, Nat.le_refl _⟩⟩
  refine hcomes.runs (ParseState.start (lex text).tokens).Levelled hsourced hstart
    fun acc used mid hmoves hlevelled => ?_
  refine (runsAt_moduleStep acc hmoves.depth (nested_lex hlex).1 hmoves hlevelled).mono ?_ fun _ _ _ h => h
  exact fun more r s'' _ h _ _ => h

theorem skipped_in_line {bound : Nat} (hs : s.Inside text)
    (hskipped : recovered (statementUpTo bound) s = .done none s') :
    ∃ used, s.Moves used s' ∧ s.Aligned used s' 0 ∧ AtLine used s' ∧ s.NotedIn used s' := by
  have hskips : RunsAt (recovered (statementUpTo bound)) s (fun used found s' => s.Aligned used s' 0 ∧
      (found = none → AtLine used s' ∧ s.NotedIn used s')) fun _ _ => True :=
    runsAt_skipped (aligns_statementUpTo bound) hs.depth
  have hruns := hskips (hs.sourced hlex)
  rw [hskipped] at hruns
  obtain ⟨used, hmoves, haligned, hnone⟩ := hruns
  exact ⟨used, hmoves, haligned, hnone rfl⟩

end

end Parser

/-- Blocks in a source without lexical faults. Whenever a block goes on with another statement, whether those before it
have failed or not, as many more blocks have been opened in it than closed as there are new faults that found the start
of a block; where there is none, they balance, and the block ends with the `dedent` that belongs to it. In a whole
source, which drops what is closed too much, at most as many are open. A statement that fails is skipped up to the start
of a line, and its faults lie on what has been used up for it, or on the end of the block or of the source behind it. -/
theorem blocks_in_line {text : String} (hlex : (lex text).faults = []) :
    (∀ (bound : Nat) (s : ParseState), s.Inside text → s.peek.kind = .indent →
      (∀ (acc : List Stmt) (s' : ParseState), s'.tooManyFaults = false →
        Parser.Comes (Parser.blockStep (Parser.statementUpTo bound)) [] s.advance acc s' →
        ∃ used n, s.advance.Moves used s' ∧ Opened used n ∧ s'.strayed = s.strayed + n) ∧
      ∀ (body : Block) (s' : ParseState), s'.tooManyFaults = false →
        Parser.indentedBlock (Parser.statementUpTo bound) s.advance = .done body s' →
        ∃ inner d n, s.advance.Moves (inner ++ [d]) s' ∧ d.kind = .dedent ∧ Opened inner n ∧
          s'.strayed = s.strayed + n) ∧
    (∀ (acc : List Stmt) (s' : ParseState), s'.tooManyFaults = false →
      Parser.Comes Parser.moduleStep [] (.start (lex text).tokens) acc s' →
      ∃ used n, (ParseState.start (lex text).tokens).Moves used s' ∧ Opened used n ∧ n ≤ s'.strayed) ∧
    ∀ (bound : Nat) (s s' : ParseState), s.Inside text →
      Parser.recovered (Parser.statementUpTo bound) s = .done none s' →
      ∃ used, s.Moves used s' ∧ Parser.AtLine used s' ∧ s.NotedIn used s' ∧
        (s'.tooManyFaults = false → ∃ n, Opened used n ∧ s'.strayed = s.strayed + n) := by
  refine ⟨fun bound s hs hindent => ⟨fun acc s' hfew hcomes => ?_, fun body s' hfew hblock => ?_⟩,
    fun acc s' hfew hcomes => ?_, fun bound s s' hs hskipped => ?_⟩
  · obtain ⟨used, hmoves, haligned⟩ := Parser.block_goes_on hlex hs hindent hcomes
    obtain ⟨n, hopened, hstrayed⟩ := haligned.blocks hfew
    have hsame := ParseState.strayed_of_faults s.faults_advance
    exact ⟨used, n, hmoves, hopened, by omega⟩
  · obtain ⟨_, hmoves, hcloses⟩ := Parser.block_closes hlex hs hindent hblock
    obtain ⟨inner, d, n, rfl, hd, hopened, hstrayed⟩ := hcloses.blocks hfew
    have hsame := ParseState.strayed_of_faults s.faults_advance
    exact ⟨inner, d, n, hmoves, hd, hopened, by omega⟩
  · obtain ⟨used, hmoves, hlevelled⟩ := Parser.source_goes_on hlex hcomes
    obtain ⟨n, hopened, hstrayed⟩ := hlevelled.blocks hfew
    exact ⟨used, n, hmoves, hopened, (Nat.le_add_left _ _).trans hstrayed⟩
  · obtain ⟨used, hmoves, haligned, hline, hnoted⟩ := Parser.skipped_in_line hlex hs hskipped
    exact ⟨used, hmoves, hline, hnoted, haligned.blocks⟩

/-- A line in the block of an `if` that is deeper than the line before it. -/
def strayText : String :=
  "if a:\n    x = 1\n        y = 2\n    z = 3\nelse:\n    w = 4\n"

/-- In front of the block of that `if`. -/
def strayBlock : ParseState :=
  { ParseState.start (lex strayText).tokens with rest := (lex strayText).tokens.drop 4 }

/-- The state behind a value. -/
def Outcome.state? {α : Type} : Outcome α → Option ParseState
  | .done _ s => some s
  | _ => none

/-- The deeper line is found where a statement is to stand. The end of what it opens ends the block of the `if`, so that
the block has opened one block more than it has closed, and the `else` is a second fault. -/
theorem strayBlock_closed_early :
    (parse (lex strayText).tokens).faults.map (fun f => (f.cause, f.span.first.line)) =
        [(.expectedExpression .indent, 3), (.expectedExpression (.keyword .else_), 5)] ∧
      ∃ body s' inner d, Parser.indentedBlock (Parser.statementUpTo 20) strayBlock.advance = .done body s' ∧
        strayBlock.advance.Moves (inner ++ [d]) s' ∧ d.kind = .dedent ∧ Opened inner 1 := by
  have hlex : (lex strayText).faults = [] := by decide +kernel
  have hinside : strayBlock.Inside strayText := ⟨rfl, rfl, List.drop_suffix _ _⟩
  have hindent : strayBlock.peek.kind = .indent := by decide +kernel
  have hends : ((Parser.indentedBlock (Parser.statementUpTo 20) strayBlock.advance).state?.map fun s' =>
      (s'.strayed, s'.tooManyFaults)) = some (1, false) := by decide +kernel
  refine ⟨by decide +kernel, ?_⟩
  cases hblock : Parser.indentedBlock (Parser.statementUpTo 20) strayBlock.advance with
  | done body s' =>
      rw [hblock] at hends
      obtain ⟨hstrayed, hfew⟩ : s'.strayed = 1 ∧ s'.tooManyFaults = false := by simpa [Outcome.state?] using hends
      obtain ⟨inner, d, n, hmoves, hd, hopened, hcount⟩ :=
        ((blocks_in_line hlex).1 20 _ hinside hindent).2 body s' hfew hblock
      obtain rfl : n = 1 := by
        have hnone : strayBlock.strayed = 0 := rfl
        omega
      exact ⟨body, s', inner, d, rfl, hmoves, hd, hopened⟩
  | _ =>
      rw [hblock] at hends
      cases hends

end ViewSync
