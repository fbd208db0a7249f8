import ViewSync.Proofs.Parser.Walks

/-!
# ViewSync.Proofs.Parser.Progress

Parsers end, whatever the tokens are. `HaltsAt p s post` says that `p` gives a value that satisfies `post`, or fails,
and is not exhausted; that it only moves on, forgets no fault and leaves as many expressions open as there were. A
loop ends since each round but the last one uses up a token (`HaltsAt.loop`), and a rule that recurs since it uses up
a token before it does, so that the bounds of the loops and of the recursion are never reached
(`module_ne_exhausted`).
-/

namespace ViewSync

/-- A later state: tokens may be used up, as many expressions are open, and no fault is forgotten. -/
structure ParseState.Onward (s s' : ParseState) : Prop where
  rest : s'.rest <:+ s.rest
  eof : s'.eof = s.eof
  depth : s'.depth = s.depth
  faults : s.faults <:+ s'.faults

namespace ParseState

variable {s s' s'' : ParseState}

theorem Onward.refl (s : ParseState) : s.Onward s :=
  ⟨List.suffix_rfl, rfl, rfl, List.suffix_rfl⟩

theorem Onward.trans (h : s.Onward s') (h' : s'.Onward s'') : s.Onward s'' :=
  ⟨h'.rest.trans h.rest, h'.eof.trans h.eof, h'.depth.trans h.depth, h.faults.trans h'.faults⟩

theorem Onward.length_le (h : s.Onward s') : s'.rest.length ≤ s.rest.length :=
  h.rest.length_le

/-- Without a fault in the end there was none before. -/
theorem Onward.clean (h : s.Onward s') (hclean : s'.faults = []) : s.faults = [] :=
  List.suffix_nil.1 (hclean ▸ h.faults)

/-- Where no token is used up the next one is the same. -/
theorem Onward.peek_eq (h : s.Onward s') (hsame : s.rest.length ≤ s'.rest.length) : s'.peek = s.peek := by
  rw [peek, peek, h.rest.eq_of_length_le hsame, h.eof]

theorem onward_note (s : ParseState) (cause : ParseError) (span : Span) : s.Onward (s.note cause span) :=
  ⟨List.suffix_rfl, rfl, rfl, List.suffix_cons _ _⟩

theorem onward_advance (s : ParseState) : s.Onward s.advance := by
  unfold advance
  cases hrest : s.rest with
  | nil => exact .refl s
  | cons t ts => exact ⟨by simp [hrest], rfl, rfl, List.suffix_rfl⟩

/-- A token that is not the end of the source is used up. -/
theorem length_advance_lt (heof : s.eof.kind = .eof) (h : s.peek.kind ≠ .eof) :
    s.advance.rest.length < s.rest.length := by
  unfold peek at h
  unfold advance
  cases hrest : s.rest with
  | nil =>
      rw [hrest] at h
      exact absurd heof h
  | cons t ts => simp

end ParseState

namespace Parser

open ParseState

variable {α β : Type}

/-- A parser ends at a state: with a value, or it fails. -/
def HaltsAt (p : Parser α) (s : ParseState) (post : α → ParseState → Prop) : Prop :=
  s.eof.kind = .eof → match p s with
  | .done a s' => s.Onward s' ∧ post a s'
  | .failed s' => s.Onward s'
  | .exhausted => False

/-- Anything may be given. -/
def Halts (p : Parser α) (s : ParseState) : Prop :=
  HaltsAt p s fun _ _ => True

/-- Each value costs a token. -/
def Uses (p : Parser α) (s : ParseState) : Prop :=
  HaltsAt p s fun _ s' => s'.rest.length < s.rest.length

/-- Each value costs a token where fewer than `n` tokens are ahead. -/
def UsesBelow (n : Nat) (p : Parser α) : Prop :=
  ∀ s : ParseState, s.rest.length < n → Uses p s

/-- Where fewer than `n` tokens are ahead anything may be given. -/
def HaltsBelow (n : Nat) (p : Parser α) : Prop :=
  ∀ s : ParseState, s.rest.length < n → Halts p s

section

variable {p : Parser α} {s s' : ParseState} {a : α} {post post' : α → ParseState → Prop}
  {goal : β → ParseState → Prop}

theorem haltsAt_of_done (h : p s = .done a s') (honward : s.Onward s') (ha : post a s') : HaltsAt p s post := by
  intro _
  rw [h]
  exact ⟨honward, ha⟩

theorem haltsAt_of_failed (h : p s = .failed s') (honward : s.Onward s') : HaltsAt p s post := by
  intro _
  rw [h]
  exact honward

theorem HaltsAt.intro (h : s.eof.kind = .eof → HaltsAt p s post) : HaltsAt p s post :=
  fun heof => h heof heof

theorem HaltsAt.mono (h : HaltsAt p s post) (himp : ∀ a s', s.Onward s' → post a s' → post' a s') :
    HaltsAt p s post' := by
  intro heof
  have hp := h heof
  cases hp' : p s with
  | done a s' =>
      rw [hp'] at hp
      exact ⟨hp.1, himp a s' hp.1 hp.2⟩
  | failed s' => rwa [hp'] at hp
  | exhausted => rwa [hp'] at hp

theorem HaltsAt.ne_exhausted (h : HaltsAt p s post) (heof : s.eof.kind = .eof) : p s ≠ .exhausted := by
  intro heq
  have hends := h heof
  rwa [heq] at hends

theorem HaltsAt.halts (h : HaltsAt p s post) : Halts p s :=
  h.mono fun _ _ _ _ => trivial

/-- Where fewer tokens are ahead, fewer are left behind it. -/
theorem Halts.shorter {n : Nat} (h : Halts p s) (hlt : s.rest.length < n) :
    HaltsAt p s fun _ s' => s'.rest.length < n :=
  HaltsAt.mono h fun _ _ honward _ => Nat.lt_of_le_of_lt honward.length_le hlt

theorem HaltsAt.bind {f : α → Parser β} (hp : HaltsAt p s post)
    (hf : ∀ a s', s.Onward s' → post a s' → HaltsAt (f a) s' goal) : HaltsAt (p >>= f) s goal := by
  intro heof
  rw [bind_apply]
  have hfirst := hp heof
  cases hp' : p s with
  | done a s' =>
      rw [hp'] at hfirst
      obtain ⟨honward, ha⟩ := hfirst
      have hnext := hf a s' honward ha (honward.eof ▸ heof)
      simp only
      cases hf' : f a s' with
      | done b s'' =>
          rw [hf'] at hnext
          exact ⟨honward.trans hnext.1, hnext.2⟩
      | failed s'' =>
          rw [hf'] at hnext
          exact honward.trans hnext
      | exhausted => rwa [hf'] at hnext
  | failed s' => rwa [hp'] at hfirst
  | exhausted => rwa [hp'] at hfirst

/-- What is given first may be anything. -/
theorem Halts.bind {f : α → Parser β} (hp : Halts p s) (hf : ∀ a s', s.Onward s' → HaltsAt (f a) s' goal) :
    HaltsAt (p >>= f) s goal :=
  HaltsAt.bind hp fun a s' honward _ => hf a s' honward

theorem HaltsAt.pure (h : post a s) : HaltsAt (pure a) s post :=
  fun _ => ⟨.refl s, h⟩

theorem halts_pure (a : α) (s : ParseState) : Halts (pure a) s :=
  .pure trivial

theorem HaltsAt.ite {q : Parser α} {c : Prop} [Decidable c] (hp : c → HaltsAt p s post) (hq : ¬ c → HaltsAt q s post) :
    HaltsAt (if c then p else q) s post := by
  split
  · exact hp ‹_›
  · exact hq ‹_›

/-! ## single steps -/

theorem HaltsAt.kind {f : TokenKind → Parser β} (h : HaltsAt (f s.peek.kind) s goal) : HaltsAt (kind >>= f) s goal := h

theorem HaltsAt.second {f : TokenKind → Parser β} (h : HaltsAt (f s.second) s goal) : HaltsAt (second >>= f) s goal := h

theorem HaltsAt.here {f : Span → Parser β} (h : HaltsAt (f s.peek.span) s goal) : HaltsAt (here >>= f) s goal := h

theorem HaltsAt.last {f : Span → Parser β} (h : HaltsAt (f s.last) s goal) : HaltsAt (last >>= f) s goal := h

theorem HaltsAt.check {k : TokenKind} {f : Bool → Parser β} (h : HaltsAt (f (s.peek.kind == k)) s goal) :
    HaltsAt (check k >>= f) s goal := h

theorem HaltsAt.tooManyFaults {f : Bool → Parser β} (h : HaltsAt (f s.tooManyFaults) s goal) :
    HaltsAt (tooManyFaults >>= f) s goal := h

/-- The next token is used up, unless it is the end of the source. -/
theorem haltsAt_advance (s : ParseState) :
    HaltsAt advance s fun t s' => t = s.peek ∧ (t.kind ≠ .eof → s'.rest.length < s.rest.length) :=
  .intro fun heof => haltsAt_of_done rfl s.onward_advance ⟨rfl, length_advance_lt heof⟩

/-- The next token is used up, if there is one. -/
theorem HaltsAt.step {f : Token → Parser β} (h : ∀ s', s'.rest.length ≤ s.rest.length → HaltsAt (f s.peek) s' goal) :
    HaltsAt (Parser.advance >>= f) s goal := by
  refine (haltsAt_advance s).bind fun t s' honward ht => ?_
  obtain ⟨rfl, -⟩ := ht
  exact h s' honward.length_le

theorem HaltsAt.advance {f : Token → Parser β} (hne : s.peek.kind ≠ .eof)
    (h : ∀ s', s'.rest.length < s.rest.length → HaltsAt (f s.peek) s' goal) : HaltsAt (advance >>= f) s goal := by
  refine (haltsAt_advance s).bind fun t s' _ ht => ?_
  obtain ⟨rfl, hlt⟩ := ht
  exact h s' (hlt hne)

theorem haltsAt_fail (cause : ParseError) : HaltsAt (fail cause) s post :=
  haltsAt_of_failed rfl (s.onward_note _ _)

/-- A token that is looked for is used up. -/
theorem haltsAt_eat {k : TokenKind} (hne : k ≠ .eof) (s : ParseState) :
    HaltsAt (eat k) s fun found s' => (found = true → s'.rest.length < s.rest.length) ∧
      (found = false → s' = s ∧ s.peek.kind ≠ k) := by
  by_cases hk : (s.peek.kind == k) = true
  · have hkind : s.peek.kind = k := beq_iff_eq.1 hk
    exact .intro fun heof => haltsAt_of_done (if_pos hk) s.onward_advance
      ⟨fun _ => length_advance_lt heof (hkind ▸ hne), nofun⟩
  · exact haltsAt_of_done (if_neg hk) (.refl s) ⟨nofun, fun _ => ⟨rfl, mt beq_iff_eq.2 hk⟩⟩

theorem HaltsAt.eat {k : TokenKind} {f : Bool → Parser β} (hne : k ≠ .eof)
    (hyes : ∀ s', s'.rest.length < s.rest.length → HaltsAt (f true) s' goal)
    (hno : s.peek.kind ≠ k → HaltsAt (f false) s goal) : HaltsAt (eat k >>= f) s goal := by
  refine (haltsAt_eat hne s).bind fun found s' _ hfound => ?_
  cases found with
  | true => exact hyes s' (hfound.1 rfl)
  | false =>
      obtain ⟨rfl, hk⟩ := hfound.2 rfl
      exact hno hk

theorem uses_expect {k : TokenKind} (hne : k ≠ .eof) (s : ParseState) : Uses (expect k) s := by
  by_cases hk : (s.peek.kind == k) = true
  · have hkind : s.peek.kind = k := beq_iff_eq.1 hk
    exact .intro fun heof => haltsAt_of_done (if_pos hk) s.onward_advance (length_advance_lt heof (hkind ▸ hne))
  · exact haltsAt_of_failed (if_neg hk) (s.onward_note _ _)

theorem HaltsAt.expect {k : TokenKind} {f : Token → Parser β} (hne : k ≠ .eof)
    (h : ∀ t s', s'.rest.length < s.rest.length → HaltsAt (f t) s' goal) : HaltsAt (expect k >>= f) s goal :=
  (uses_expect hne s).bind fun t s' _ hlt => h t s' hlt

theorem uses_identifier (s : ParseState) : Uses identifier s := by
  cases hkind : s.peek.kind with
  | identifier name =>
      have hdone : identifier s = .done ⟨name, s.peek.span⟩ s.advance := by simp only [identifier, hkind]
      have hne : s.peek.kind ≠ .eof := by simp [hkind]
      exact .intro fun heof => haltsAt_of_done hdone s.onward_advance (length_advance_lt heof hne)
  | _ =>
      have hfailed : identifier s = .failed (s.note (.expectedIdentifier s.peek.kind) s.peek.span) := by
        simp only [identifier, hkind]
      exact haltsAt_of_failed hfailed (s.onward_note _ _)

theorem HaltsAt.identifier {f : Ident → Parser β}
    (h : ∀ i s', s'.rest.length < s.rest.length → HaltsAt (f i) s' goal) : HaltsAt (identifier >>= f) s goal :=
  (uses_identifier s).bind fun i s' _ hlt => h i s' hlt

theorem halts_lineEnd (s : ParseState) : Halts lineEnd s := by
  cases hkind : s.peek.kind with
  | newline =>
      have hdone : lineEnd s = .done () s.advance := by simp only [lineEnd, hkind]
      exact haltsAt_of_done hdone s.onward_advance trivial
  | dedent | eof =>
      have hdone : lineEnd s = .done () s := by simp only [lineEnd, hkind]
      exact haltsAt_of_done hdone (.refl s) trivial
  | _ =>
      have hdone : lineEnd s = .done () (s.note (.expectedLineEnd s.peek.kind) s.peek.span) := by
        simp only [lineEnd, hkind]
      exact haltsAt_of_done hdone (s.onward_note _ _) trivial

/-! ## repetition -/

/-- What a round of a loop has to give: a value to go on with for a token, or what the loop is to give. -/
def Gains (s : ParseState) (inv : α → ParseState → Prop) (post : β → ParseState → Prop) (r : α ⊕ β)
    (s' : ParseState) : Prop :=
  match r with
  | .inl a => s'.rest.length < s.rest.length ∧ inv a s'
  | .inr b => post b s'

theorem haltsAt_loopUpTo {step : α → Parser (α ⊕ β)} {inv : α → ParseState → Prop}
    (hstep : ∀ a s', s.Onward s' → inv a s' → HaltsAt (step a) s' (Gains s' inv goal)) {bound : Nat} {a : α}
    (ha : inv a s') (hs' : s.Onward s') (hbound : s'.rest.length < bound) :
    HaltsAt (loopUpTo step bound a) s' goal := by
  induction bound generalizing a s' with
  | zero => exact absurd hbound (Nat.not_lt_zero _)
  | succ bound ih =>
      unfold HaltsAt
      rw [loopUpTo_succ]
      refine (hstep a s' hs' ha).bind fun r s'' honward hr => ?_
      cases r with
      | inl a' => exact ih hr.2 (hs'.trans honward) (Nat.lt_of_lt_of_le hr.1 (Nat.le_of_lt_succ hbound))
      | inr b => exact HaltsAt.pure hr

/-- A loop ends if each round but the last one uses up a token. -/
theorem HaltsAt.loop {step : α → Parser (α ⊕ β)} (inv : α → ParseState → Prop) {a : α} (ha : inv a s)
    (hstep : ∀ a s', s.Onward s' → inv a s' → HaltsAt (step a) s' (Gains s' inv goal)) : HaltsAt (loop step a) s goal :=
  haltsAt_loopUpTo hstep ha (.refl s) (Nat.lt_succ_self _)

/-- Where fewer than `n` tokens are ahead a round that goes on uses up a token. -/
def GainsBelow (n : Nat) (step : α → Parser (α ⊕ β)) : Prop :=
  ∀ a (s : ParseState), s.rest.length < n → HaltsAt (step a) s (Gains s (fun _ _ => True) fun _ _ => True)

/-- A loop of which nothing else is asked. -/
theorem GainsBelow.loop {n : Nat} {step : α → Parser (α ⊕ β)} (h : GainsBelow n step) (a : α) :
    HaltsBelow n (loop step a) :=
  fun _ hs => .loop (fun _ _ => True) trivial fun a s' honward _ => h a s' (Nat.lt_of_le_of_lt honward.length_le hs)

theorem HaltsAt.again {inv : α → ParseState → Prop} {a : α} (hlt : s'.rest.length < s.rest.length) (ha : inv a s') :
    HaltsAt (Pure.pure (.inl a)) s' (Gains s inv goal) :=
  .pure ⟨hlt, ha⟩

theorem HaltsAt.out {inv : α → ParseState → Prop} {b : β} (hb : goal b s') :
    HaltsAt (Pure.pure (.inr b)) s' (Gains s inv goal) :=
  .pure hb

end

/-- The values and the states with which a loop starts a round. -/
inductive Comes (step : α → Parser (α ⊕ β)) (a : α) (s : ParseState) : α → ParseState → Prop
  | start : Comes step a s a s
  | round {a' a'' : α} {s' s'' : ParseState} : Comes step a s a' s' → step a' s' = .done (.inl a'') s'' →
      Comes step a s a'' s''

end Parser

end ViewSync
