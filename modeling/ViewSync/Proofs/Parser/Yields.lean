import ViewSync.Parser.Statement

/-!
# ViewSync.Proofs.Parser.Yields

What a parser gives, by the tokens that it uses up. `p.Yields post` says that `p` moves over some tokens at the front
of those ahead, and that what it gives satisfies `post` of just these tokens. Rules of the grammar are put together
with `Yields.bind`, repetitions with `Yields.loop` and an invariant over the tokens used so far.
-/

namespace ViewSync

/-- A later state, some tokens behind. -/
structure ParseState.Reads (s : ParseState) (used : List Token) (s' : ParseState) : Prop where
  rest : s.rest = used ++ s'.rest
  eof : s'.eof = s.eof

namespace ParseState

variable {s s' s'' : ParseState} {used more : List Token}

theorem Reads.refl (s : ParseState) : s.Reads [] s := ⟨rfl, rfl⟩

theorem Reads.trans (h : s.Reads used s') (h' : s'.Reads more s'') : s.Reads (used ++ more) s'' :=
  ⟨by rw [h.rest, h'.rest, List.append_assoc], h'.eof.trans h.eof⟩

theorem reads_note (s : ParseState) (cause : ParseError) (span : Span) : s.Reads [] (s.note cause span) :=
  ⟨rfl, rfl⟩

/-- The next token is used up, if there is one. -/
theorem reads_advance (s : ParseState) : ∃ used, s.Reads used s.advance := by
  unfold advance
  cases hrest : s.rest with
  | nil => exact ⟨[], Reads.refl s⟩
  | cons t ts => exact ⟨[t], hrest, rfl⟩

/-- A token that is not the end of the source is one of the tokens ahead. -/
theorem reads_advance_of_ne (heof : s.eof.kind = .eof) (h : s.peek.kind ≠ .eof) :
    s.Reads [s.peek] s.advance := by
  unfold peek at h ⊢
  unfold advance
  cases hrest : s.rest with
  | nil =>
      rw [hrest] at h
      exact absurd heof h
  | cons t ts => exact ⟨hrest, rfl⟩

end ParseState

namespace Parser

open ParseState

variable {α β : Type}

/-- What a parser gives from a state satisfies a condition, together with the tokens used up for it. -/
def YieldsAt (p : Parser α) (s : ParseState) (post : List Token → α → Prop) : Prop :=
  match p s with
  | .done a s' => ∃ used, s.Reads used s' ∧ post used a
  | .failed s' => ∃ used, s.Reads used s'
  | .exhausted => True

/-- What a parser gives satisfies a condition wherever it starts. -/
def Yields (p : Parser α) (post : List Token → α → Prop) : Prop :=
  ∀ s, s.eof.kind = .eof → YieldsAt p s post

/-- Any value. -/
def anything : List Token → α → Prop := fun _ _ => True

section

variable {p : Parser α} {s s' : ParseState} {a : α} {used : List Token}
  {post post' : List Token → α → Prop}

theorem yieldsAt_of_done (h : p s = .done a s') (hreads : s.Reads used s') (ha : post used a) :
    YieldsAt p s post := by
  unfold YieldsAt
  rw [h]
  exact ⟨used, hreads, ha⟩

theorem yieldsAt_of_failed (h : p s = .failed s') (hreads : s.Reads used s') : YieldsAt p s post := by
  unfold YieldsAt
  rw [h]
  exact ⟨used, hreads⟩

theorem YieldsAt.mono (h : YieldsAt p s post) (himp : ∀ used a, post used a → post' used a) :
    YieldsAt p s post' := by
  unfold YieldsAt at *
  cases hp : p s with
  | done a s' =>
      rw [hp] at h
      obtain ⟨used, hreads, ha⟩ := h
      exact ⟨used, hreads, himp used a ha⟩
  | failed s' => rwa [hp] at h
  | exhausted => trivial

theorem Yields.mono (h : Yields p post) (himp : ∀ used a, post used a → post' used a) : Yields p post' :=
  fun s hs => (h s hs).mono himp

theorem Yields.anything (h : Yields p post) : Yields p anything :=
  h.mono fun _ _ _ => trivial

theorem YieldsAt.bind {f : α → Parser β} {goal : List Token → β → Prop} (hs : s.eof.kind = .eof)
    (hp : YieldsAt p s post)
    (hf : ∀ a used, post used a → Yields (f a) fun more b => goal (used ++ more) b) :
    YieldsAt (p >>= f) s goal := by
  change match (match p s with
    | .done a s' => f a s'
    | .failed s' => .failed s'
    | .exhausted => .exhausted) with
    | .done b s' => ∃ used, s.Reads used s' ∧ goal used b
    | .failed s' => ∃ used, s.Reads used s'
    | .exhausted => True
  unfold YieldsAt at hp
  cases hp' : p s with
  | done a s' =>
      rw [hp'] at hp
      obtain ⟨used, hreads, ha⟩ := hp
      have hnext := hf a used ha s' (hreads.eof ▸ hs)
      unfold YieldsAt at hnext
      simp only
      cases hf' : f a s' with
      | done b s'' =>
          rw [hf'] at hnext
          obtain ⟨more, hmore, hb⟩ := hnext
          exact ⟨used ++ more, hreads.trans hmore, hb⟩
      | failed s'' =>
          rw [hf'] at hnext
          obtain ⟨more, hmore⟩ := hnext
          exact ⟨used ++ more, hreads.trans hmore⟩
      | exhausted => trivial
  | failed s' => rwa [hp'] at hp
  | exhausted => trivial

theorem Yields.bind {f : α → Parser β} {goal : List Token → β → Prop} (hp : Yields p post)
    (hf : ∀ a used, post used a → Yields (f a) fun more b => goal (used ++ more) b) :
    Yields (p >>= f) goal :=
  fun s hs => (hp s hs).bind hs hf

theorem Yields.pure {a : α} (h : post [] a) : Yields (pure a) post :=
  fun s _ => ⟨[], Reads.refl s, h⟩

theorem Yields.ite {q : Parser α} {c : Prop} [Decidable c] (hp : Yields p post) (hq : Yields q post) :
    Yields (if c then p else q) post := by
  split
  · exact hp
  · exact hq

end

/-! ## single steps -/

theorem yields_kind : Yields kind anything := fun s _ => ⟨[], Reads.refl s, trivial⟩

theorem yieldsAt_kind {f : TokenKind → Parser β} {goal : List Token → β → Prop} {s : ParseState}
    (h : YieldsAt (f s.peek.kind) s goal) : YieldsAt (kind >>= f) s goal := h

theorem yieldsAt_here {f : Span → Parser β} {goal : List Token → β → Prop} {s : ParseState}
    (h : YieldsAt (f s.peek.span) s goal) : YieldsAt (here >>= f) s goal := h

theorem yields_second : Yields second anything := fun s _ => ⟨[], Reads.refl s, trivial⟩

theorem yields_here : Yields here anything := fun s _ => ⟨[], Reads.refl s, trivial⟩

theorem yields_last : Yields last anything := fun s _ => ⟨[], Reads.refl s, trivial⟩

theorem yields_check (k : TokenKind) : Yields (check k) anything := fun s _ => ⟨[], Reads.refl s, trivial⟩

theorem yields_tooManyFaults : Yields tooManyFaults anything := fun s _ => ⟨[], Reads.refl s, trivial⟩

theorem yields_report (cause : ParseError) : Yields (report cause) anything :=
  fun s _ => ⟨[], reads_note s .., trivial⟩

theorem yields_fail (cause : ParseError) (post : List Token → α → Prop) : Yields (fail cause) post :=
  fun s _ => ⟨[], reads_note s ..⟩

theorem yields_advance : Yields advance anything := by
  intro s _
  obtain ⟨used, hreads⟩ := s.reads_advance
  exact ⟨used, hreads, trivial⟩

/-- A token that is not the end of the source is used up. -/
theorem yieldsAt_advance {s : ParseState} (hs : s.eof.kind = .eof) (h : s.peek.kind ≠ .eof) :
    YieldsAt advance s fun used t => used = [t] ∧ t = s.peek :=
  ⟨[s.peek], reads_advance_of_ne hs h, rfl, rfl⟩

theorem yields_eat (k : TokenKind) : Yields (eat k) anything := by
  intro s _
  unfold YieldsAt eat
  obtain ⟨used, hreads⟩ := s.reads_advance
  by_cases hk : (s.peek.kind == k) = true
  · rw [if_pos hk]
    exact ⟨used, hreads, trivial⟩
  · rw [if_neg hk]
    exact ⟨[], Reads.refl s, trivial⟩

/-- A wanted token is one of the tokens used up. -/
theorem yields_expect {k : TokenKind} (hne : k ≠ .eof) :
    Yields (expect k) fun used t => t ∈ used ∧ t.kind = k := by
  intro s hs
  unfold YieldsAt expect
  by_cases hk : (s.peek.kind == k) = true
  · rw [if_pos hk]
    have hkind : s.peek.kind = k := beq_iff_eq.1 hk
    exact ⟨[s.peek], reads_advance_of_ne hs (hkind ▸ hne), List.mem_singleton_self _, hkind⟩
  · rw [if_neg hk]
    exact ⟨[], reads_note s ..⟩

theorem yields_symbol (x : Symbol) :
    Yields (expect (.symbol x)) fun used t => t ∈ used ∧ t.kind = .symbol x :=
  yields_expect nofun

theorem yields_keyword (w : Keyword) :
    Yields (expect (.keyword w)) fun used t => t ∈ used ∧ t.kind = .keyword w :=
  yields_expect nofun

/-- A symbol that has been looked at is used up. -/
theorem yields_checked (x : Symbol) {f : Token → Parser α} {q : Parser α}
    {post : List Token → α → Prop} (hq : Yields q post)
    (hf : ∀ t, t.kind = .symbol x → Yields (f t) fun more a => post (t :: more) a) :
    Yields (do if ← check (.symbol x) then f (← advance) else q) post := by
  intro s hs
  change YieldsAt (if (s.peek.kind == .symbol x) = true then advance >>= f else q) s post
  by_cases hk : (s.peek.kind == .symbol x) = true
  · rw [if_pos hk]
    have hkind : s.peek.kind = .symbol x := beq_iff_eq.1 hk
    refine (yieldsAt_advance hs (hkind ▸ nofun)).bind hs ?_
    rintro t _ ⟨rfl, rfl⟩
    exact hf s.peek hkind
  · rw [if_neg hk]
    exact hq s hs

/-- A name is one token. -/
theorem yields_identifier : Yields identifier fun used i => ⟨.identifier i.name, i.span⟩ ∈ used := by
  intro s hs
  cases hkind : s.peek.kind with
  | identifier name =>
      have hdone : identifier s = .done ⟨name, s.peek.span⟩ s.advance := by simp only [identifier, hkind]
      have hreads := reads_advance_of_ne hs (hkind ▸ nofun)
      refine yieldsAt_of_done hdone hreads ?_
      rw [← hkind]
      exact List.mem_singleton_self _
  | _ =>
      have hfailed : identifier s = .failed (s.note (.expectedIdentifier s.peek.kind) s.peek.span) := by
        simp only [identifier, hkind]
      exact yieldsAt_of_failed hfailed (reads_note ..)

theorem yields_lineEnd : Yields lineEnd anything := by
  intro s _
  obtain ⟨used, hreads⟩ := s.reads_advance
  cases hkind : s.peek.kind with
  | newline =>
      have hdone : lineEnd s = .done () s.advance := by simp only [lineEnd, hkind]
      exact yieldsAt_of_done hdone hreads trivial
  | dedent | eof =>
      have hdone : lineEnd s = .done () s := by simp only [lineEnd, hkind]
      exact yieldsAt_of_done hdone (Reads.refl s) trivial
  | _ =>
      have hdone : lineEnd s = .done () (s.note (.expectedLineEnd s.peek.kind) s.peek.span) := by
        simp only [lineEnd, hkind]
      exact yieldsAt_of_done hdone (reads_note ..) trivial

theorem Yields.attempt {p : Parser α} {post : List Token → α → Prop} (hp : Yields p post) :
    Yields (attempt p) fun used r => ∀ a, r = some a → post used a := by
  intro s hs
  have h := hp s hs
  unfold YieldsAt at h ⊢
  unfold Parser.attempt
  cases hp' : p s with
  | done a s' =>
      rw [hp'] at h
      obtain ⟨used, hreads, ha⟩ := h
      exact ⟨used, hreads, fun b hb => Option.some.inj hb ▸ ha⟩
  | failed s' =>
      rw [hp'] at h
      obtain ⟨used, hreads⟩ := h
      exact ⟨used, hreads, nofun⟩
  | exhausted => trivial

/-! ## repetition -/

/-- What one more round of a loop has to give: the invariant again, or what the loop is to give. -/
def Round (inv : List Token → α → Prop) (post : List Token → β → Prop) (used : List Token) : α ⊕ β → Prop
  | .inl a => inv used a
  | .inr b => post used b

theorem yieldsAt_loopUpTo {step : α → Parser (α ⊕ β)} {inv : List Token → α → Prop}
    {post : List Token → β → Prop}
    (hstep : ∀ a used, inv used a → Yields (step a) fun more r => Round inv post (used ++ more) r)
    (bound : Nat) {a : α} {used : List Token} (ha : inv used a) {s : ParseState} (hs : s.eof.kind = .eof) :
    YieldsAt (loopUpTo step bound a) s fun more b => post (used ++ more) b := by
  induction bound generalizing a used s with
  | zero => trivial
  | succ bound ih =>
      have hround := hstep a used ha s hs
      unfold YieldsAt loopUpTo
      unfold YieldsAt at hround
      cases hr : step a s with
      | done r s' =>
          rw [hr] at hround
          obtain ⟨more, hreads, hr⟩ := hround
          cases r with
          | inl a' =>
              have hnext := ih hr (hreads.eof ▸ hs)
              unfold YieldsAt at hnext
              simp only
              cases hl : loopUpTo step bound a' s' with
              | done b s'' =>
                  rw [hl] at hnext
                  obtain ⟨rest, hrest, hb⟩ := hnext
                  exact ⟨more ++ rest, hreads.trans hrest, by rwa [← List.append_assoc]⟩
              | failed s'' =>
                  rw [hl] at hnext
                  obtain ⟨rest, hrest⟩ := hnext
                  exact ⟨more ++ rest, hreads.trans hrest⟩
              | exhausted => trivial
          | inr b => exact ⟨more, hreads, hr⟩
      | failed s' => rwa [hr] at hround
      | exhausted => trivial

/-- An invariant over the tokens used so far carries a loop. -/
theorem Yields.loop {step : α → Parser (α ⊕ β)} (inv : List Token → α → Prop)
    {post : List Token → β → Prop} {a : α} (ha : inv [] a)
    (hstep : ∀ a used, inv used a → Yields (step a) fun more r => Round inv post (used ++ more) r) :
    Yields (loop step a) post := by
  intro s hs
  exact yieldsAt_loopUpTo hstep (s.rest.length + 1) ha hs

theorem Yields.bounded {body : Nat → Parser α} {post : List Token → α → Prop}
    (h : ∀ bound, Yields (body bound) post) : Yields (bounded body) post :=
  fun s hs => h _ s hs

/-- A parser that is out of depth gives nothing. -/
theorem yields_exhausted (post : List Token → α → Prop) : Yields (fun _ => .exhausted) post :=
  fun _ _ => trivial

/-! ## skipping -/

theorem yields_skipLine : Yields skipLine anything := by
  unfold skipLine
  refine yields_here.bind fun _ _ _ => ?_
  refine Yields.loop anything trivial fun _ _ _ => yields_kind.bind fun _ _ _ => ?_
  split
  · exact Yields.pure trivial
  · exact yields_advance.bind fun _ _ _ => Yields.pure trivial

theorem yields_skipIndented : Yields skipIndented anything := by
  unfold skipIndented
  refine Yields.loop anything trivial fun depth _ _ => yields_advance.bind fun token _ _ => ?_
  split
  · exact Yields.pure trivial
  · split <;> exact Yields.pure trivial
  · exact Yields.pure trivial
  · exact Yields.pure trivial

theorem yields_skipClause : Yields skipClause anything := by
  unfold skipClause
  refine yields_skipLine.bind fun _ _ _ => (yields_eat _).bind fun _ _ _ => (yields_check _).bind fun _ _ _ => ?_
  split
  · exact yields_skipIndented.bind fun _ _ _ => Yields.pure trivial
  · exact Yields.pure trivial

end Parser

/-- A tree is given where the statements of a source are read without a fault. -/
theorem module?_parse {tokens : List Token} {m : Module} :
    (parse tokens).module? = some m ↔ ∃ s, Parser.module_ (.start tokens) = .done m s ∧ s.faults = [] := by
  rw [parse]
  cases hmodule : Parser.module_ (.start tokens) with
  | done m' s => by_cases hfaults : s.faults = [] <;> simp [hfaults, List.isEmpty_iff, and_assoc]
  | failed s => simp
  | exhausted => simp

end ViewSync
