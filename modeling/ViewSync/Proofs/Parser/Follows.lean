import ViewSync.Proofs.Parser.Progress
import ViewSync.Proofs.Parser.Rules

/-!
# ViewSync.Proofs.Parser.Follows

Two parsers side by side, each at tokens of its own. `Follows floor pre p p' rel post` says that `p'` ends with a value
where `p` does, if the states that they start at are related by `pre`: then their values are related by `rel` and the
states behind them by `post`. This is only asked where `p` has noted no fault and has left at least `floor` tokens
ahead. What is so at the end of a run was so all the time, since parsers only move on (`Onwards`).
-/

namespace ViewSync

/-- No fault has been found, and so many tokens are still ahead. -/
structure ParseState.Holds (floor : Nat) (s : ParseState) : Prop where
  clean : s.faults = []
  room : floor ≤ s.rest.length

theorem ParseState.Onward.holds {s s' : ParseState} {floor : Nat} (h : s.Onward s') (hholds : s'.Holds floor) :
    s.Holds floor :=
  ⟨h.clean hholds.clean, Nat.le_trans hholds.room h.length_le⟩

/-- Values that look the same to `f`. -/
def SameBy {α δ : Type} (f : α → δ) (a a' : α) : Prop :=
  f a' = f a

namespace SameBy

variable {α δ : Type} {f : α → δ} {a a' : α} {as as' : List α}

theorem refl (f : α → δ) (a : α) : SameBy f a a := rfl

theorem nil : SameBy (List.map f) [] [] := rfl

theorem cons (ha : SameBy f a a') (has : SameBy (List.map f) as as') : SameBy (List.map f) (a :: as) (a' :: as') := by
  unfold SameBy at *
  rw [List.map_cons, List.map_cons, ha, has]

theorem reverse (h : SameBy (List.map f) as as') : SameBy (List.map f) as.reverse as'.reverse := by
  unfold SameBy at *
  rw [List.map_reverse, List.map_reverse, h]

end SameBy

namespace Parser

open ParseState

variable {α β : Type}

/-- A relation that every value is in. -/
class Serial (rel : α → α → Prop) : Prop where
  total : ∀ a, ∃ a', rel a a'

instance {δ : Type} (f : α → δ) : Serial (SameBy f) := ⟨fun a => ⟨a, .refl f a⟩⟩

instance : Serial (@Eq α) := ⟨fun a => ⟨a, rfl⟩⟩

instance : Serial Same := ⟨fun e => ⟨e, rfl⟩⟩

instance (rel : α → α → Prop) (rel' : β → β → Prop) [Serial rel] [Serial rel'] : Serial (Sum.LiftRel rel rel') where
  total
    | .inl a => (Serial.total a : ∃ a', rel a a').imp' Sum.inl fun _ => .inl
    | .inr b => (Serial.total b : ∃ b', rel' b b').imp' Sum.inr fun _ => .inr

/-! ## parsers that move on -/

/-- A value is given further on, and a failure has noted a fault. -/
def Onwards (p : Parser α) : Prop :=
  ∀ s, match p s with
  | .done _ s' => s.Onward s'
  | .failed s' => s.Onward s' ∧ s'.faults ≠ []
  | .exhausted => True

section

variable {p : Parser α} {s s' : ParseState} {a : α}

theorem Onwards.of_done (h : Onwards p) (hdone : p s = .done a s') : s.Onward s' := by
  have hp := h s
  rwa [hdone] at hp

theorem onward_failed (s : ParseState) (cause : ParseError) (span : Span) :
    s.Onward (s.note cause span) ∧ (s.note cause span).faults ≠ [] :=
  ⟨s.onward_note cause span, List.cons_ne_nil _ _⟩

theorem Onwards.bind {f : α → Parser β} (hp : Onwards p) (hf : ∀ a, Onwards (f a)) : Onwards (p >>= f) := by
  intro s
  rw [bind_apply]
  have hfirst := hp s
  cases hp' : p s with
  | done a s' =>
      rw [hp'] at hfirst
      have hnext := hf a s'
      simp only
      cases hf' : f a s' with
      | done b s'' =>
          rw [hf'] at hnext
          exact hfirst.trans hnext
      | failed s'' =>
          rw [hf'] at hnext
          exact ⟨hfirst.trans hnext.1, hnext.2⟩
      | exhausted => trivial
  | failed s' => rwa [hp'] at hfirst
  | exhausted => trivial

theorem onwards_pure (a : α) : Onwards (pure a) := fun s => .refl s

theorem onwards_fail (cause : ParseError) : Onwards (fail cause : Parser α) := fun s => onward_failed s cause _

theorem onwards_exhausted : Onwards (fun _ => .exhausted : Parser α) := fun _ => trivial

theorem onwards_peek : Onwards kind ∧ Onwards second ∧ Onwards here ∧ Onwards last :=
  ⟨fun s => .refl s, fun s => .refl s, fun s => .refl s, fun s => .refl s⟩

theorem onwards_check (k : TokenKind) : Onwards (check k) := fun s => .refl s

theorem onwards_tooManyFaults : Onwards Parser.tooManyFaults := fun s => .refl s

theorem onwards_report (cause : ParseError) : Onwards (report cause) := fun s => s.onward_note cause _

theorem onwards_advance : Onwards advance := fun s => s.onward_advance

theorem onwards_eat (k : TokenKind) : Onwards (eat k) := by
  intro s
  by_cases hk : (s.peek.kind == k) = true
  · rw [eat, if_pos hk]
    exact s.onward_advance
  · rw [eat, if_neg hk]
    exact .refl s

theorem onwards_expect (k : TokenKind) : Onwards (expect k) := by
  intro s
  by_cases hk : (s.peek.kind == k) = true
  · rw [expect, if_pos hk]
    exact s.onward_advance
  · rw [expect, if_neg hk]
    exact onward_failed s _ _

theorem onwards_identifier : Onwards identifier := by
  intro s
  unfold identifier
  cases s.peek.kind with
  | identifier => exact s.onward_advance
  | _ => exact onward_failed s _ _

/-- What is tried may fail, and then reading goes on. -/
theorem Onwards.attempt (h : Onwards p) : Onwards (attempt p) := by
  intro s
  have hp := h s
  unfold Parser.attempt
  cases hp' : p s with
  | done a t =>
      rw [hp'] at hp
      exact hp
  | failed t =>
      rw [hp'] at hp
      exact hp.1
  | exhausted => trivial

theorem Onwards.loopUpTo {step : α → Parser (α ⊕ β)} (h : ∀ a, Onwards (step a)) (bound : Nat) (a : α) :
    Onwards (loopUpTo step bound a) := by
  induction bound generalizing a with
  | zero => exact onwards_exhausted
  | succ bound ih =>
      intro s
      rw [loopUpTo_succ]
      refine (h a).bind (fun r => ?_) s
      cases r with
      | inl a' => exact ih a'
      | inr b => exact onwards_pure b

theorem Onwards.loop {step : α → Parser (α ⊕ β)} (h : ∀ a, Onwards (step a)) (a : α) : Onwards (loop step a) :=
  fun s => Onwards.loopUpTo h _ a s

end

/-! ## one parser behind another -/

/-- Where `p` ends with a value, `p'` does as well, unless it is exhausted. -/
def Agrees (floor : Nat) (pre : ParseState → ParseState → Prop) (p p' : Parser α) (rel : α → α → Prop)
    (post : ParseState → ParseState → Prop) : Prop :=
  ∀ (s s' t : ParseState) (a : α), pre s s' → p s = .done a t → t.Holds floor → p' s' ≠ .exhausted →
    ∃ a' t', p' s' = .done a' t' ∧ rel a a' ∧ post t t'

/-- A parser that moves on, and one that agrees with it. -/
structure Follows (floor : Nat) (pre : ParseState → ParseState → Prop) (p p' : Parser α) (rel : α → α → Prop)
    (post : ParseState → ParseState → Prop) : Prop where
  onwards : Onwards p
  agrees : ∀ {s s' t : ParseState} {a : α}, pre s s' → p s = .done a t → t.Holds floor → p' s' ≠ .exhausted →
    ∃ a' t', p' s' = .done a' t' ∧ rel a a' ∧ post t t'

section

variable {floor : Nat} {pre pre' mid post post' : ParseState → ParseState → Prop} {p p' q q' : Parser α}
  {rel rel' : α → α → Prop} {goal : β → β → Prop} {a a' : α}

theorem Follows.mono (h : Follows floor pre p p' rel post) (hpre : ∀ s s', pre' s s' → pre s s')
    (hrel : ∀ a a', rel a a' → rel' a a') (hpost : ∀ s s', post s s' → post' s s') :
    Follows floor pre' p p' rel' post' where
  onwards := h.onwards
  agrees hs hdone hholds hne := by
    obtain ⟨a', t', hdone', ha, ht⟩ := h.agrees (hpre _ _ hs) hdone hholds hne
    exact ⟨a', t', hdone', hrel _ _ ha, hpost _ _ ht⟩

/-- What is said of the values of a relation holds of all of them. -/
theorem onwards_of_follows [Serial rel] {f f' : α → Parser β}
    (h : ∀ a a', rel a a' → Follows floor pre (f a) (f' a') goal post) (a : α) : Onwards (f a) :=
  have ⟨a', ha⟩ : ∃ a', rel a a' := Serial.total a
  (h a a' ha).onwards

theorem Follows.imp (h : Follows floor pre p p' rel post) (hpre : ∀ s s', pre' s s' → pre s s') :
    Follows floor pre' p p' rel post :=
  h.mono hpre (fun _ _ ha => ha) fun _ _ ht => ht

/-- A first parser of which not every value has to be related to another one. -/
theorem Follows.bind_of_onwards {f f' : α → Parser β} (hp : Follows floor pre p p' rel mid)
    (honwards : ∀ a, Onwards (f a)) (hf : ∀ a a', rel a a' → Follows floor mid (f a) (f' a') goal post) :
    Follows floor pre (p >>= f) (p' >>= f') goal post where
  onwards := hp.onwards.bind honwards
  agrees {s s' t b} hs hdone hholds hne := by
    rw [bind_apply] at hdone hne
    cases hfirst : p s with
    | done a u =>
        rw [hfirst] at hdone
        have hne' : p' s' ≠ .exhausted := by
          intro heq
          rw [heq] at hne
          exact hne rfl
        have honward := (honwards a).of_done hdone
        obtain ⟨a', u', hfirst', ha, hu⟩ := hp.agrees hs hfirst (honward.holds hholds) hne'
        rw [hfirst'] at hne
        obtain ⟨b', t', hdone', hb, ht⟩ := (hf a a' ha).agrees hu hdone hholds hne
        refine ⟨b', t', ?_, hb, ht⟩
        rw [bind_apply, hfirst']
        exact hdone'
    | failed u =>
        rw [hfirst] at hdone
        cases hdone
    | exhausted =>
        rw [hfirst] at hdone
        cases hdone

theorem Follows.bind [Serial rel] {f f' : α → Parser β} (hp : Follows floor pre p p' rel mid)
    (hf : ∀ a a', rel a a' → Follows floor mid (f a) (f' a') goal post) :
    Follows floor pre (p >>= f) (p' >>= f') goal post :=
  hp.bind_of_onwards (onwards_of_follows hf) hf

theorem Follows.pure (h : rel a a') (hpost : ∀ s s', pre s s' → post s s') :
    Follows floor pre (pure a) (pure a') rel post where
  onwards := onwards_pure a
  agrees {s s' t b} hs hdone _ _ := by
    cases hdone
    exact ⟨a', s', rfl, h, hpost _ _ hs⟩

/-- Nothing is asked behind a parser that is exhausted. -/
theorem Follows.cut (h : Follows floor pre p p' rel post) : Follows floor pre p (fun _ => .exhausted) rel post :=
  ⟨h.onwards, fun _ _ _ hne => absurd rfl hne⟩

theorem follows_fail (cause : ParseError) : Follows floor pre (fail cause) p' rel post :=
  ⟨onwards_fail cause, fun _ hdone => by cases hdone⟩

theorem follows_exhausted : Follows floor pre (fun _ => .exhausted) p' rel post :=
  ⟨onwards_exhausted, fun _ hdone => by cases hdone⟩

theorem Follows.ite {c : Prop} [Decidable c] (hp : c → Follows floor pre p p' rel post)
    (hq : ¬ c → Follows floor pre q q' rel post) :
    Follows floor pre (if c then p else q) (if c then p' else q') rel post := by
  by_cases hc : c
  · rw [if_pos hc, if_pos hc]
    exact hp hc
  · rw [if_neg hc, if_neg hc]
    exact hq hc

/-- Two kinds of pairs of states. -/
theorem Follows.or (h : Follows floor pre p p' rel post) (h' : Agrees floor pre' p p' rel post) :
    Follows floor (fun s s' => pre s s' ∨ pre' s s') p p' rel post :=
  ⟨h.onwards, fun hs hdone hholds hne => hs.elim (h.agrees · hdone hholds hne) (h' _ _ _ _ · hdone hholds hne)⟩

/-- What is known of the value on the one side. -/
theorem Follows.also {known : α → Prop} (h : Follows floor pre p p' rel post)
    (hknown : ∀ {s s' t a}, pre s s' → p s = .done a t → known a) :
    Follows floor pre p p' (fun a a' => rel a a' ∧ known a) post where
  onwards := h.onwards
  agrees hs hdone hholds hne := by
    obtain ⟨a', t', hdone', ha, ht⟩ := h.agrees hs hdone hholds hne
    exact ⟨a', t', hdone', ⟨ha, hknown hs hdone⟩, ht⟩

/-! ## single steps -/

theorem Follows.kind {f f' : TokenKind → Parser β} (hkind : ∀ s s', pre s s' → s'.peek.kind = s.peek.kind)
    (h : ∀ k, Follows floor (fun s s' => pre s s' ∧ s.peek.kind = k) (f k) (f' k) goal post) :
    Follows floor pre (kind >>= f) (Parser.kind >>= f') goal post where
  onwards := onwards_peek.1.bind fun k => (h k).onwards
  agrees {s s' t b} hs hdone hholds hne := by
    have hsame : (Parser.kind >>= f') s' = f' s.peek.kind s' := congrArg (f' · s') (hkind s s' hs)
    rw [hsame] at hne ⊢
    exact (h s.peek.kind).agrees ⟨hs, rfl⟩ hdone hholds hne

/-- Where the next tokens are not of the same kind, what is done there does not depend on them. -/
theorem Follows.kind_or {f f' : TokenKind → Parser β} {g g' : Parser β}
    (hkind : ∀ s s', pre s s' → s'.peek.kind = s.peek.kind)
    (h : ∀ k, Follows floor (fun s s' => pre s s' ∧ s.peek.kind = k) (f k) (f' k) goal post)
    (hfixed : ∀ s s', pre' s s' → f s.peek.kind = g ∧ f' s'.peek.kind = g')
    (h' : Follows floor pre' g g' goal post) :
    Follows floor (fun s s' => pre s s' ∨ pre' s s') (Parser.kind >>= f) (Parser.kind >>= f') goal post := by
  refine (Follows.kind hkind h).or ?_
  intro s s' t b hs hdone hholds hne
  have hone : (Parser.kind >>= f) s = g s := congrArg (· s) (hfixed s s' hs).1
  have hother : (Parser.kind >>= f') s' = g' s' := congrArg (· s') (hfixed s s' hs).2
  rw [hone] at hdone
  rw [hother] at hne ⊢
  exact h'.agrees hs hdone hholds hne

theorem Follows.here {f f' : Span → Parser β}
    (h : ∀ span span', Follows floor (fun s s' => pre s s' ∧ s.peek.span = span) (f span) (f' span') goal post) :
    Follows floor pre (here >>= f) (Parser.here >>= f') goal post where
  onwards := onwards_peek.2.2.1.bind fun span => (h span span).onwards
  agrees {s s' _ _} hs hdone hholds hne := (h s.peek.span s'.peek.span).agrees ⟨hs, rfl⟩ hdone hholds hne

theorem Follows.last {f f' : Span → Parser β} (h : ∀ span span', Follows floor pre (f span) (f' span') goal post) :
    Follows floor pre (last >>= f) (Parser.last >>= f') goal post where
  onwards := onwards_peek.2.2.2.bind fun span => (h span span).onwards
  agrees {s s' _ _} hs hdone hholds hne := (h s.last s'.last).agrees hs hdone hholds hne

theorem Follows.check {k : TokenKind} {f f' : Bool → Parser β}
    (hkind : ∀ s s', pre s s' → (s'.peek.kind = k ↔ s.peek.kind = k))
    (h : ∀ found, Follows floor (fun s s' => pre s s' ∧ (s.peek.kind == k) = found) (f found) (f' found) goal post) :
    Follows floor pre (check k >>= f) (Parser.check k >>= f') goal post where
  onwards := (onwards_check k).bind fun found => (h found).onwards
  agrees {s s' t b} hs hdone hholds hne := by
    have hfound : (s'.peek.kind == k) = (s.peek.kind == k) := by
      rw [Bool.eq_iff_iff, beq_iff_eq, beq_iff_eq]
      exact hkind s s' hs
    have hsame : (Parser.check k >>= f') s' = f' (s.peek.kind == k) s' := congrArg (f' · s') hfound
    rw [hsame] at hne ⊢
    exact (h _).agrees ⟨hs, rfl⟩ hdone hholds hne

theorem Follows.tooManyFaults {f f' : Bool → Parser β} (hclean : ∀ s s', pre s s' → s.faults = [] ∧ s'.faults = [])
    (h : ∀ found, Follows floor pre (f found) (f' found) goal post) :
    Follows floor pre (tooManyFaults >>= f) (Parser.tooManyFaults >>= f') goal post where
  onwards := by
    have hpeek : Onwards Parser.tooManyFaults := fun s => .refl s
    exact hpeek.bind fun found => (h found).onwards
  agrees {s s' t b} hs hdone hholds hne := by
    obtain ⟨hone, hother⟩ := hclean s s' hs
    have hsame : (Parser.tooManyFaults >>= f') s' = f' s.tooManyFaults s' := by
      have hfound : s'.tooManyFaults = s.tooManyFaults := by
        unfold ParseState.tooManyFaults
        rw [hone, hother]
      exact congrArg (f' · s') hfound
    rw [hsame] at hne ⊢
    exact (h _).agrees hs hdone hholds hne

theorem Follows.advance {f f' : Token → Parser β}
    (hadvance : ∀ s s', pre s s' → s.advance.Holds floor → mid s.advance s'.advance)
    (h : ∀ t t', Follows floor mid (f t) (f' t') goal post) :
    Follows floor pre (advance >>= f) (Parser.advance >>= f') goal post where
  onwards := onwards_advance.bind fun t => (h t t).onwards
  agrees {s s' _ _} hs hdone hholds hne :=
    (h s.peek s'.peek).agrees (hadvance s s' hs (((h _ s'.peek).onwards.of_done hdone).holds hholds)) hdone hholds hne

/-- Tokens of the same kind are used up. -/
theorem Follows.advance_kind {f f' : Token → Parser β} (hkind : ∀ s s', pre s s' → s'.peek.kind = s.peek.kind)
    (hadvance : ∀ s s', pre s s' → s.advance.Holds floor → mid s.advance s'.advance)
    (h : ∀ t t', t'.kind = t.kind → Follows floor mid (f t) (f' t') goal post) :
    Follows floor pre (Parser.advance >>= f) (Parser.advance >>= f') goal post where
  onwards := onwards_advance.bind fun t => (h t t rfl).onwards
  agrees {s s' _ _} hs hdone hholds hne :=
    have hfollows := h s.peek s'.peek (hkind s s' hs)
    hfollows.agrees (hadvance s s' hs ((hfollows.onwards.of_done hdone).holds hholds)) hdone hholds hne

/-- Behind a fault nothing is asked. -/
theorem Follows.reported {cause : ParseError} {f : Unit → Parser β} {q : Parser β} (h : Onwards (f ())) :
    Follows floor pre (report cause >>= f) q goal post where
  onwards s := by
    have hbehind := h (s.note cause s.peek.span)
    have honward := s.onward_note cause s.peek.span
    rw [bind_apply]
    simp only [report]
    cases hf : f () (s.note cause s.peek.span) with
    | done b t =>
        rw [hf] at hbehind
        exact honward.trans hbehind
    | failed t =>
        rw [hf] at hbehind
        exact ⟨honward.trans hbehind.1, hbehind.2⟩
    | exhausted => trivial
  agrees {s s' t b} _ hdone hholds _ := by
    have hnoted : (s.note cause s.peek.span).faults = [] := (h.of_done hdone).clean hholds.clean
    cases hnoted

theorem Follows.eat {k : TokenKind} {f f' : Bool → Parser β}
    (hkind : ∀ s s', pre s s' → (s'.peek.kind = k ↔ s.peek.kind = k))
    (hadvance : ∀ s s', pre s s' → s.peek.kind = k → s.advance.Holds floor → mid s.advance s'.advance)
    (hyes : Follows floor mid (f true) (f' true) goal post)
    (hno : Follows floor (fun s s' => pre s s' ∧ s.peek.kind ≠ k) (f false) (f' false) goal post) :
    Follows floor pre (eat k >>= f) (Parser.eat k >>= f') goal post where
  onwards := (onwards_eat k).bind fun | true => hyes.onwards | false => hno.onwards
  agrees {s s' t b} hs hdone hholds hne := by
    by_cases hk : s.peek.kind = k
    · rw [eat_bind_of_eq hk] at hdone
      rw [eat_bind_of_eq ((hkind s s' hs).2 hk)] at hne ⊢
      exact hyes.agrees (hadvance s s' hs hk ((hyes.onwards.of_done hdone).holds hholds)) hdone hholds hne
    · rw [eat_bind_of_ne hk] at hdone
      rw [eat_bind_of_ne (mt (hkind s s' hs).1 hk)] at hne ⊢
      exact hno.agrees ⟨hs, hk⟩ hdone hholds hne

theorem Follows.expect {k : TokenKind} {f f' : Token → Parser β}
    (hkind : ∀ s s', pre s s' → s.peek.kind = k → s'.peek.kind = k)
    (hadvance : ∀ s s', pre s s' → s.peek.kind = k → s.advance.Holds floor → mid s.advance s'.advance)
    (h : ∀ t t', Follows floor mid (f t) (f' t') goal post) :
    Follows floor pre (expect k >>= f) (Parser.expect k >>= f') goal post where
  onwards := (onwards_expect k).bind fun t => (h t t).onwards
  agrees {s s' t b} hs hdone hholds hne := by
    by_cases hk : s.peek.kind = k
    · have hone : (Parser.expect k >>= f) s = f s.peek s.advance := by
        rw [bind_apply, Parser.expect, if_pos (beq_iff_eq.2 hk)]
      have hother : (Parser.expect k >>= f') s' = f' s'.peek s'.advance := by
        rw [bind_apply, Parser.expect, if_pos (beq_iff_eq.2 (hkind s s' hs hk))]
      rw [hone] at hdone
      rw [hother] at hne ⊢
      exact (h _ _).agrees (hadvance s s' hs hk (((h _ s'.peek).onwards.of_done hdone).holds hholds)) hdone hholds hne
    · rw [bind_apply, Parser.expect, if_neg (mt beq_iff_eq.1 hk)] at hdone
      cases hdone

/-- What is tried fails with a fault, so it is found where no fault is. -/
theorem Follows.attempt (h : Follows floor pre p p' rel post) : Follows floor pre (attempt p) (Parser.attempt p')
    (fun found found' => ∃ a a', found = some a ∧ found' = some a' ∧ rel a a') post where
  onwards := h.onwards.attempt
  agrees {s s' t found} hs hdone hholds hne := by
    unfold Parser.attempt at hdone hne ⊢
    have hp := h.onwards s
    cases hp' : p s with
    | done a u =>
        rw [hp'] at hdone
        cases hdone
        have hne' : p' s' ≠ .exhausted := by
          intro heq
          rw [heq] at hne
          exact hne rfl
        obtain ⟨a', t', hdone', ha, ht⟩ := h.agrees hs hp' hholds hne'
        rw [hdone']
        exact ⟨some a', t', rfl, ⟨a, a', rfl, rfl, ha⟩, ht⟩
    | failed u =>
        rw [hp'] at hdone hp
        cases hdone
        exact absurd hholds.clean hp.2
    | exhausted =>
        rw [hp'] at hdone
        cases hdone

/-! ## repetition -/

/-- What comes behind a round of a loop. -/
def loopRest (step : α → Parser (α ⊕ β)) (bound : Nat) : α ⊕ β → Parser β
  | .inl a => loopUpTo step bound a
  | .inr b => Pure.pure b

theorem loopUpTo_round (step : α → Parser (α ⊕ β)) (bound : Nat) (a : α) (s : ParseState) :
    loopUpTo step (bound + 1) a s = (step a >>= loopRest step bound) s :=
  loopUpTo_succ step bound a s

theorem Follows.loopUpTo [Serial rel] [Serial goal] {step step' : α → Parser (α ⊕ β)}
    (h : ∀ a a', rel a a' → Follows floor pre (step a) (step' a') (Sum.LiftRel rel goal) pre) {bound bound' : Nat}
    (ha : rel a a') : Follows floor pre (loopUpTo step bound a) (loopUpTo step' bound' a') goal pre := by
  induction bound generalizing bound' a a' with
  | zero => exact follows_exhausted
  | succ bound ih =>
      cases bound' with
      | zero => exact ⟨.loopUpTo (onwards_of_follows h) _ _, fun _ _ _ hne => absurd rfl hne⟩
      | succ bound' =>
          have hround : Follows floor pre (step a >>= loopRest step bound) (step' a' >>= loopRest step' bound')
              goal pre := by
            refine (h a a' ha).bind fun r r' hr => ?_
            cases hr with
            | inl ha => exact ih ha
            | inr hb => exact .pure hb fun _ _ hs => hs
          refine ⟨fun s => ?_, fun {s s' t b} hs hdone hholds hne => ?_⟩
          · rw [loopUpTo_round]
            exact hround.onwards s
          · rw [loopUpTo_round] at hdone hne ⊢
            exact hround.agrees hs hdone hholds hne

/-- Loops go round together. -/
theorem Follows.loop [Serial rel] [Serial goal] {step step' : α → Parser (α ⊕ β)} (ha : rel a a')
    (h : ∀ a a', rel a a' → Follows floor pre (step a) (step' a') (Sum.LiftRel rel goal) pre) :
    Follows floor pre (loop step a) (loop step' a') goal pre where
  onwards s := Onwards.loopUpTo (onwards_of_follows h) _ a s
  agrees hs hdone hholds hne := (Follows.loopUpTo h ha).agrees hs hdone hholds hne

theorem Follows.loop_bind {γ : Type} [Serial rel] [Serial goal] {step step' : α → Parser (α ⊕ β)}
    {f f' : β → Parser γ} {goal' : γ → γ → Prop} (ha : rel a a')
    (h : ∀ a a', rel a a' → Follows floor pre (step a) (step' a') (Sum.LiftRel rel goal) pre)
    (hf : ∀ b b', goal b b' → Follows floor pre (f b) (f' b') goal' post) :
    Follows floor pre (Parser.loop step a >>= f) (Parser.loop step' a' >>= f') goal' post :=
  (Follows.loop ha h).bind hf

theorem Follows.bounded {body body' : Nat → Parser α}
    (h : ∀ bound bound', Follows floor pre (body bound) (body' bound') rel post) :
    Follows floor pre (bounded body) (bounded body') rel post where
  onwards s := (h _ 0).onwards s
  agrees hs hdone hholds hne := (h _ _).agrees hs hdone hholds hne

end

end Parser

end ViewSync
