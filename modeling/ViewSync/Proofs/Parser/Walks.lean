import ViewSync.Proofs.Parser.Yields

/-!
# ViewSync.Proofs.Parser.Walks

Parsers that stay on a logical line. Such a parser only uses up tokens with a text of their own, and keeps in mind the
span of the last of them (`ParseState.Walks`). If it ends with a value, it has noted no fault; if it fails, it has
noted one, at the token where it stands and by the name of that token. `p.Walks post` says so of a parser whose values
satisfy `post` together with the tokens used up for them. Where a token is ahead that neither an expression nor a
statement on one line starts with, such a parser fails at once (`Misses`).
-/

namespace ViewSync

/-- The token that a fault names as the one it found. -/
def ParseError.found? : ParseError → Option TokenKind
  | .expected _ found => some found
  | .expectedIdentifier found => some found
  | .expectedExpression found => some found
  | .expectedLineEnd found => some found
  | .expectedDefinition found => some found
  | _ => none

/-- A later state on the same line: some tokens with a text of their own are behind, and no fault is new. -/
structure ParseState.Walks (s : ParseState) (used : List Token) (s' : ParseState) : Prop
    extends s.Reads used s' where
  worded : ∀ t ∈ used, t.kind.isLayout = false
  last : s'.last = (used.getLast?.map (·.span)).getD s.last
  depth : s'.depth = s.depth
  faults : s'.faults = s.faults

namespace ParseState

variable {s s' s'' : ParseState} {used more : List Token}

theorem Walks.refl (s : ParseState) : s.Walks [] s :=
  ⟨.refl s, nofun, rfl, rfl, rfl⟩

theorem Walks.trans (h : s.Walks used s') (h' : s'.Walks more s'') : s.Walks (used ++ more) s'' where
  toReads := h.toReads.trans h'.toReads
  worded := List.forall_mem_append.2 ⟨h.worded, h'.worded⟩
  last := by
    rw [h'.last, h.last, List.getLast?_append]
    cases more.getLast? <;> rfl
  depth := h'.depth.trans h.depth
  faults := h'.faults.trans h.faults

/-- The next token is used up if it has a text of its own. -/
theorem walks_advance (heof : s.eof.kind = .eof) (h : s.peek.kind.isLayout = false) :
    s.Walks [s.peek] s.advance := by
  have hne : s.peek.kind ≠ .eof := by
    intro heq
    rw [heq] at h
    cases h
  have hreads := reads_advance_of_ne heof hne
  have hrest := hreads.rest
  unfold advance at hreads ⊢
  cases hs : s.rest with
  | nil =>
      rw [hs] at hreads hrest
      cases hreads.rest.symm.trans hs
  | cons t ts =>
      have hpeek : s.peek = t := by rw [peek, hs]; rfl
      rw [hpeek] at h ⊢
      exact ⟨⟨hs, rfl⟩, List.forall_mem_singleton.2 h, by simp [h], rfl, rfl⟩

/-- Where nothing is used up the next token is the same. -/
theorem Reads.peek_eq (h : s.Reads [] s') : s'.peek = s.peek := by
  rw [peek, peek, h.rest, h.eof]
  rfl

/-- The first token used up is the one that was next. -/
theorem Reads.peek_of_cons {t : Token} (h : s.Reads (t :: used) s') : s.peek = t := by
  rw [peek, h.rest]
  rfl

/-- The token after the next one is ahead behind the next one. -/
theorem Reads.peek_kind_of_second {t : Token} {k : TokenKind} (h : s.Reads [t] s') (hsecond : s.second = k)
    (hne : k ≠ .eof) : s'.peek.kind = k := by
  rw [second, h.rest] at hsecond
  rw [peek]
  cases hrest : s'.rest with
  | nil =>
      rw [hrest] at hsecond
      exact absurd hsecond.symm hne
  | cons u more =>
      rw [hrest] at hsecond
      exact hsecond

end ParseState

namespace Parser

open ParseState

variable {α β : Type}

theorem bind_apply (p : Parser α) (f : α → Parser β) (s : ParseState) :
    (p >>= f) s = match p s with
      | .done a s' => f a s'
      | .failed s' => .failed s'
      | .exhausted => .exhausted := rfl

/-- A token that is looked for and ahead is taken. -/
theorem eat_bind_of_eq {k : TokenKind} {s : ParseState} (hk : s.peek.kind = k) (f : Bool → Parser β) :
    (eat k >>= f) s = (advance >>= fun _ => f true) s := by
  rw [bind_apply, eat, if_pos (beq_iff_eq.2 hk)]
  rfl

/-- A token that is looked for and not ahead changes nothing. -/
theorem eat_bind_of_ne {k : TokenKind} {s : ParseState} (hk : s.peek.kind ≠ k) (f : Bool → Parser β) :
    (eat k >>= f) s = f false s := by
  rw [bind_apply, eat, if_neg (mt beq_iff_eq.1 hk)]

/-- A round of a loop, and what comes behind it. -/
theorem loopUpTo_succ (step : α → Parser (α ⊕ β)) (bound : Nat) (a : α) (s : ParseState) :
    loopUpTo step (bound + 1) a s = (step a >>= fun r => match r with
      | .inl a' => loopUpTo step bound a'
      | .inr b => Pure.pure b) s := by
  rw [loopUpTo, bind_apply]
  cases hr : step a s with
  | done r s' =>
      cases r with
      | inl a' => simp only [hr]
      | inr b =>
          simp only [hr]
          rfl
  | _ => simp only [hr]

/-- A parser stays on the line. -/
def WalksAt (p : Parser α) (s : ParseState) (post : List Token → α → Prop) : Prop :=
  s.eof.kind = .eof → match p s with
  | .done a s' => ∃ used, s.Walks used s' ∧ post used a
  | .failed s' => ∃ used mid cause, s.Walks used mid ∧ (∀ k ∈ cause.found?, k = mid.peek.kind) ∧
      s' = mid.note cause mid.peek.span
  | .exhausted => True

/-- A parser stays on the line wherever it starts. -/
def Walks (p : Parser α) (post : List Token → α → Prop) : Prop :=
  ∀ s, WalksAt p s post

section

variable {p : Parser α} {s s' : ParseState} {a : α} {used : List Token} {post post' : List Token → α → Prop}
  {goal : List Token → β → Prop}

theorem walksAt_of_done (h : p s = .done a s') (hwalks : s.eof.kind = .eof → s.Walks used s') (ha : post used a) :
    WalksAt p s post := by
  intro hs
  rw [h]
  exact ⟨used, hwalks hs, ha⟩

/-- A fault at the token ahead. -/
theorem walksAt_of_failed {cause : ParseError} (h : p s = .failed (s.note cause s.peek.span))
    (hfound : ∀ k ∈ cause.found?, k = s.peek.kind) : WalksAt p s post := by
  intro _
  rw [h]
  exact ⟨[], s, cause, .refl s, hfound, rfl⟩

theorem WalksAt.mono (h : WalksAt p s post) (himp : ∀ used a, s.eof.kind = .eof → post used a → post' used a) :
    WalksAt p s post' := by
  intro hs
  have hp := h hs
  cases hp' : p s with
  | done a s' =>
      rw [hp'] at hp
      obtain ⟨used, hwalks, ha⟩ := hp
      exact ⟨used, hwalks, himp used a hs ha⟩
  | failed s' => rwa [hp'] at hp
  | exhausted => trivial

theorem Walks.mono (h : Walks p post) (himp : ∀ used a, post used a → post' used a) : Walks p post' :=
  fun s => (h s).mono fun used a _ => himp used a

theorem WalksAt.bind {f : α → Parser β} (hp : WalksAt p s post)
    (hf : ∀ a used s', s.Walks used s' → post used a → WalksAt (f a) s' fun more b => goal (used ++ more) b) :
    WalksAt (p >>= f) s goal := by
  intro hs
  rw [bind_apply]
  have hfirst := hp hs
  cases hp' : p s with
  | done a s' =>
      rw [hp'] at hfirst
      obtain ⟨used, hwalks, ha⟩ := hfirst
      have hnext := hf a used s' hwalks ha (hwalks.eof ▸ hs)
      simp only
      cases hf' : f a s' with
      | done b s'' =>
          rw [hf'] at hnext
          obtain ⟨more, hmore, hb⟩ := hnext
          exact ⟨used ++ more, hwalks.trans hmore, hb⟩
      | failed s'' =>
          rw [hf'] at hnext
          obtain ⟨more, mid, cause, hmore, hcause⟩ := hnext
          exact ⟨used ++ more, mid, cause, hwalks.trans hmore, hcause⟩
      | exhausted => trivial
  | failed s' => rwa [hp'] at hfirst
  | exhausted => trivial

theorem Walks.bind {f : α → Parser β} (hp : Walks p post)
    (hf : ∀ a used, post used a → Walks (f a) fun more b => goal (used ++ more) b) : Walks (p >>= f) goal :=
  fun s => (hp s).bind fun a used s' _ ha => hf a used ha s'

theorem WalksAt.pure (h : post [] a) : WalksAt (pure a) s post :=
  fun _ => ⟨[], .refl s, h⟩

theorem Walks.pure (h : post [] a) : Walks (pure a) post :=
  fun _ => WalksAt.pure h

theorem WalksAt.ite {q : Parser α} {c : Prop} [Decidable c] (hp : c → WalksAt p s post)
    (hq : ¬ c → WalksAt q s post) : WalksAt (if c then p else q) s post := by
  split
  · exact hp ‹_›
  · exact hq ‹_›

/-! ## single steps -/

theorem WalksAt.kind {f : TokenKind → Parser β} (h : WalksAt (f s.peek.kind) s goal) :
    WalksAt (kind >>= f) s goal := h

theorem WalksAt.second {f : TokenKind → Parser β} (h : WalksAt (f s.second) s goal) :
    WalksAt (second >>= f) s goal := h

theorem WalksAt.here {f : Span → Parser β} (h : WalksAt (f s.peek.span) s goal) : WalksAt (here >>= f) s goal := h

theorem WalksAt.last {f : Span → Parser β} (h : WalksAt (f s.last) s goal) : WalksAt (last >>= f) s goal := h

theorem WalksAt.check {k : TokenKind} {f : Bool → Parser β} (h : WalksAt (f (s.peek.kind == k)) s goal) :
    WalksAt (check k >>= f) s goal := h

/-- The token ahead is used up if it has a text of its own. -/
theorem WalksAt.advance {f : Token → Parser β} (hworded : s.peek.kind.isLayout = false)
    (h : ∀ s', s.Walks [s.peek] s' → WalksAt (f s.peek) s' fun more b => goal (s.peek :: more) b) :
    WalksAt (advance >>= f) s goal := by
  intro hs
  have hwalks := walks_advance hs hworded
  have hadvance : WalksAt Parser.advance s fun used t => used = [s.peek] ∧ t = s.peek :=
    fun _ => ⟨[s.peek], hwalks, rfl, rfl⟩
  refine hadvance.bind (fun t used s' hwalks' ht => ?_) hs
  obtain ⟨rfl, rfl⟩ := ht
  exact h s' hwalks'

/-- A token that is looked for is used up if it is ahead. -/
theorem WalksAt.eat {k : TokenKind} {f : Bool → Parser β} (hworded : k.isLayout = false)
    (hyes : ∀ t s', t.kind = k → s.Walks [t] s' → WalksAt (f true) s' fun more b => goal (t :: more) b)
    (hno : WalksAt (f false) s goal) : WalksAt (eat k >>= f) s goal := by
  unfold WalksAt
  by_cases hk : s.peek.kind = k
  · rw [eat_bind_of_eq hk]
    exact WalksAt.advance (hk ▸ hworded) fun s' hwalks => hyes s.peek s' hk hwalks
  · rw [eat_bind_of_ne hk]
    exact hno

theorem walksAt_fail {cause : ParseError} (h : ∀ k ∈ cause.found?, k = s.peek.kind) :
    WalksAt (fail cause) s post :=
  walksAt_of_failed rfl h

/-- A wanted token is used up. -/
theorem walks_expect {k : TokenKind} (hworded : k.isLayout = false) :
    Walks (expect k) fun used t => used = [t] ∧ t.kind = k := by
  intro s
  by_cases hk : (s.peek.kind == k) = true
  · have hkind : s.peek.kind = k := beq_iff_eq.1 hk
    have hdone : expect k s = .done s.peek s.advance := by rw [expect, if_pos hk]
    exact walksAt_of_done hdone (fun hs => walks_advance hs (hkind ▸ hworded)) ⟨rfl, hkind⟩
  · have hfailed : expect k s = .failed (s.note (.expected k s.peek.kind) s.peek.span) := by rw [expect, if_neg hk]
    refine walksAt_of_failed hfailed ?_
    rintro _ ⟨⟩
    rfl

/-- A name is one token. -/
theorem walks_identifier :
    Walks identifier fun used i => ∃ t, used = [t] ∧ t.kind = .identifier i.name ∧ t.span = i.span := by
  intro s
  cases hkind : s.peek.kind with
  | identifier name =>
      have hdone : identifier s = .done ⟨name, s.peek.span⟩ s.advance := by simp only [identifier, hkind]
      exact walksAt_of_done hdone (fun hs => walks_advance hs (hkind ▸ rfl)) ⟨s.peek, rfl, hkind, rfl⟩
  | _ =>
      have hfailed : identifier s = .failed (s.note (.expectedIdentifier s.peek.kind) s.peek.span) := by
        simp only [identifier, hkind]
      refine walksAt_of_failed hfailed ?_
      rintro _ ⟨⟩
      rfl

/-! ## repetition -/

theorem walksAt_loopUpTo {step : α → Parser (α ⊕ β)} {inv : List Token → α → Prop} {post : List Token → β → Prop}
    (hstep : ∀ a used s', s.Walks used s' → inv used a →
      WalksAt (step a) s' fun more r => Round inv post (used ++ more) r)
    (bound : Nat) {a : α} {used : List Token} (ha : inv used a) (hs' : s.Walks used s') :
    WalksAt (loopUpTo step bound a) s' fun more b => post (used ++ more) b := by
  induction bound generalizing a used s' with
  | zero => exact fun _ => trivial
  | succ bound ih =>
      unfold WalksAt
      rw [loopUpTo_succ]
      refine (hstep a used s' hs' ha).bind fun r more s'' hmore hr => ?_
      simp only [← List.append_assoc]
      cases r with
      | inl a' => exact ih hr (hs'.trans hmore)
      | inr b => exact WalksAt.pure (by simpa [Round] using hr)

/-- An invariant over the tokens used so far carries a loop. -/
theorem WalksAt.loop {step : α → Parser (α ⊕ β)} (inv : List Token → α → Prop) {post : List Token → β → Prop} {a : α}
    (ha : inv [] a)
    (hstep : ∀ a used s', s.Walks used s' → inv used a →
      WalksAt (step a) s' fun more r => Round inv post (used ++ more) r) :
    WalksAt (loop step a) s post :=
  walksAt_loopUpTo hstep _ ha (.refl s)

theorem WalksAt.bounded {body : Nat → Parser α} (h : ∀ bound, WalksAt (body bound) s post) :
    WalksAt (bounded body) s post :=
  fun hs => h _ hs

/-- A parser that is out of depth gives nothing. -/
theorem walks_exhausted (post : List Token → α → Prop) : Walks (fun _ => .exhausted) post :=
  fun _ _ => trivial

end

/-! ## failing at once -/

section

variable {α β : Type} {s : ParseState} {p : Parser α} {sub : Sub}

/-- Ends of lines, starts of blocks, the words of later clauses, and reserved words but `yield`. -/
def startsNothing : TokenKind → Bool
  | .newline => true
  | .indent => true
  | .keyword .elif => true
  | .keyword .else_ => true
  | .reserved word => word != "yield"
  | _ => false

/-- A parser finds no expression ahead. -/
def Misses (p : Parser α) (s : ParseState) : Prop :=
  p s = .failed (s.note (.expectedExpression s.peek.kind) s.peek.span)

theorem Misses.ne_done (h : Misses p s) (a : α) (t : ParseState) : p s ≠ .done a t := by
  rw [Misses] at h
  rw [h]
  exact nofun

theorem Misses.bind (h : Misses p s) (f : α → Parser β) : Misses (p >>= f) s := by
  rw [Misses, bind_apply, h]

theorem Misses.bounded {body : Nat → Parser α} (h : ∀ bound, Misses (body (bound + 1)) s) : Misses (bounded body) s :=
  h _

theorem Misses.nested {p : Parser Expr} (hdepth : s.depth = 0) (h : ∀ depth, Misses p { s with depth := depth }) :
    Misses (nested p) s := by
  rw [Misses, Parser.nested, if_pos (by rw [hdepth]; decide), h]
  rfl

theorem Misses.here {f : Span → Parser β} (h : Misses (f s.peek.span) s) : Misses (here >>= f) s := h

theorem Misses.kind {f : TokenKind → Parser β} (h : Misses (f s.peek.kind) s) : Misses (kind >>= f) s := h

theorem Misses.check {k : TokenKind} {f : Bool → Parser β} (h : Misses (f (s.peek.kind == k)) s) :
    Misses (check k >>= f) s := h

variable (hs : startsNothing s.peek.kind = true)

include hs

theorem misses_atom : Misses (atom sub) s := by
  refine .here (.kind ?_)
  split
  case h_12 => rfl
  all_goals rename_i heq; rw [heq] at hs; cases hs

theorem misses_factor : Misses (factor sub) s := by
  have hsign : signOp s.peek.kind = none := by
    generalize s.peek.kind = k at hs
    cases k with
    | symbol => cases hs
    | _ => rfl
  refine .bounded fun bound => .kind ?_
  rw [hsign]
  exact ((misses_atom hs).bind _).bind _

theorem misses_bitOr : Misses (bitOr sub) s :=
  ((((((misses_factor hs).bind _).bind _).bind _).bind _).bind _).bind _

/-- There is no such word ahead. -/
theorem peek_ne_of_startsNothing {k : TokenKind} (hk : startsNothing k = false) : (s.peek.kind == k) = false := by
  refine beq_false_of_ne fun heq => ?_
  rw [heq, hk] at hs
  cases hs

theorem misses_negation : Misses (negation sub) s := by
  refine .bounded fun bound => .check ?_
  rw [peek_ne_of_startsNothing hs rfl]
  exact (misses_bitOr hs).bind _

theorem misses_full (hdepth : s.depth = 0) : Misses (full sub) s := by
  refine .nested hdepth fun depth => .check ?_
  have hpeek : startsNothing ({ s with depth := depth } : ParseState).peek.kind = true := hs
  rw [peek_ne_of_startsNothing hpeek rfl]
  exact (((misses_negation hpeek).bind _).bind _).bind _

theorem misses_simple (hdepth : s.depth = 0) : Misses simple s := by
  have hexpression : Misses (expressionAt .full) s := .bounded fun bound => misses_full hs hdepth
  refine .bind (.here (.kind ?_)) _
  split
  case h_4 => exact (hexpression.bind _).bind _
  all_goals rename_i heq; rw [heq] at hs; cases hs

end

end Parser

end ViewSync
