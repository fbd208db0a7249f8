import ViewSync.Parser.Expression
import ViewSync.Proofs.Parser.Phrase

/-!
# ViewSync.Proofs.Parser.Takes

What a parser reads without a fault. `Takes p w follow post` says that `p`, in front of the tokens of the phrase `w` and
of a token behind them that `follow` admits, ends right behind the phrase with a value that satisfies `post`, if there
is room for the expressions that nest in the phrase. There is one rule for each way to put parsers together. A loop is
followed round by round from its front (`Rounds`), or, where it builds a tree that grows at its end, up to some round
(`Arrives`); both show as well that the bound of the loop is not reached.
-/

namespace ViewSync

/-- A state in front of the tokens of a phrase, without a fault so far and with room for what nests in the phrase. -/
structure ParseState.Faces (s : ParseState) (w : Phrase) (used more : List Token) : Prop where
  rest : s.rest = used ++ more
  kinds : used.map (·.kind) = w.kinds
  room : s.depth + w.nesting ≤ maxNesting
  faults : s.faults = []

/-- A later state with the given tokens ahead and everything else as it was. -/
structure ParseState.Behind (s' s : ParseState) (more : List Token) : Prop where
  rest : s'.rest = more
  eof : s'.eof = s.eof
  depth : s'.depth = s.depth
  faults : s'.faults = s.faults

namespace ParseState

variable {s s' s'' : ParseState} {w w' : Phrase} {used more tokens : List Token}

theorem Behind.refl (h : s.rest = more) : s.Behind s more := ⟨h, rfl, rfl, rfl⟩

theorem Behind.trans (h : s'.Behind s tokens) (h' : s''.Behind s' more) : s''.Behind s more :=
  ⟨h'.rest, h'.eof.trans h.eof, h'.depth.trans h.depth, h'.faults.trans h.faults⟩

theorem behind_advance {t : Token} (h : s.rest = t :: more) : s.advance.Behind s more := by
  unfold advance
  rw [h]
  exact ⟨rfl, rfl, rfl, rfl⟩

/-- The tokens of two phrases are those of the first one and those of the second one. -/
theorem Faces.split (h : s.Faces (w ++ w') used more) :
    ∃ used₁ used₂, used = used₁ ++ used₂ ∧ s.Faces w used₁ (used₂ ++ more) ∧
      used₂.map (·.kind) = w'.kinds ∧
        ∀ s' : ParseState, s'.Behind s (used₂ ++ more) → s'.Faces w' used₂ more := by
  obtain ⟨used₁, used₂, rfl, hfirst, hsecond⟩ := List.map_eq_append_iff.1 h.kinds
  have hroom := h.room
  rw [Phrase.nesting_append] at hroom
  refine ⟨used₁, used₂, rfl, ⟨by rw [h.rest, List.append_assoc], hfirst, by omega, h.faults⟩, hsecond, ?_⟩
  intro s' hbehind
  exact ⟨hbehind.rest, hsecond, by rw [hbehind.depth]; omega, hbehind.faults.trans h.faults⟩

theorem Faces.empty (h : s.Faces .empty used more) : s.rest = more := by
  simpa [List.map_eq_nil_iff.1 h.kinds] using h.rest

theorem Faces.token {k : TokenKind} (h : s.Faces (.token k) used more) : ∃ t, s.rest = t :: more ∧ t.kind = k := by
  obtain ⟨t, rfl, ht⟩ := List.map_eq_singleton_iff.1 h.kinds
  exact ⟨t, h.rest, ht⟩

/-- The next token is the first one of the phrase, or the one behind it. -/
theorem Faces.peek (h : s.Faces w used more) : s.peek.kind = w.kinds.headD (more.headD s.eof).kind := by
  rw [ParseState.peek, h.rest, ← h.kinds]
  cases used <;> rfl

end ParseState

namespace Parser

open ParseState

variable {α β : Type}

/-- A parser reads the tokens of a phrase, in front of a token that is admitted behind them. -/
def Takes (p : Parser α) (w : Phrase) (follow : TokenKind → Prop) (post : α → Prop) : Prop :=
  ∀ (s : ParseState) (used more : List Token), s.Faces w used more → follow (more.headD s.eof).kind →
    ∃ a s', p s = .done a s' ∧ s'.Behind s more ∧ post a

theorem bind_of_done {p : Parser α} {f : α → Parser β} {s s' : ParseState} {a : α} (h : p s = .done a s') :
    (p >>= f) s = f a s' := by
  simp only [bind, h]

/-- What may be behind the next token, in front of a phrase. -/
def SecondOf (w : Phrase) (follow : TokenKind → Prop) (found : TokenKind) : Prop :=
  match w.kinds with
  | [] => True
  | [_] => found = .eof ∨ follow found
  | _ :: k :: _ => found = k

section rules

variable {p : Parser α} {f : α → Parser β} {a : α} {k : TokenKind} {w w' : Phrase}
  {follow follow' : TokenKind → Prop} {post post' : α → Prop} {goal : β → Prop}

theorem Takes.mono (h : Takes p w follow post) (hfollow : ∀ k, follow' k → follow k) (hpost : ∀ a, post a → post' a) :
    Takes p w follow' post' := by
  intro s used more hfaces hnext
  obtain ⟨a, s', hdone, hbehind, ha⟩ := h s used more hfaces (hfollow _ hnext)
  exact ⟨a, s', hdone, hbehind, hpost a ha⟩

theorem Takes.weaken (h : Takes p w follow post) (hfollow : ∀ k, follow' k → follow k) : Takes p w follow' post :=
  h.mono hfollow fun _ ha => ha

theorem Takes.pure (h : post a) : Takes (pure a) .empty follow post :=
  fun s _ _ hfaces _ => ⟨a, s, rfl, .refl hfaces.empty, h⟩

theorem headD_append (kinds : List TokenKind) {used more : List Token} (h : used.map (·.kind) = kinds) (eof : Token) :
    ((used ++ more).headD eof).kind = kinds.headD (more.headD eof).kind := by
  subst h
  cases used <;> rfl

/-- What the second parser reads may follow the first one. -/
theorem Takes.bind (hp : Takes p w follow post) (hf : ∀ a, post a → Takes (f a) w' follow' goal)
    (hfollow : ∀ k, follow' k → follow (w'.kinds.headD k)) : Takes (p >>= f) (w ++ w') follow' goal := by
  intro s used more hfaces hnext
  obtain ⟨used₁, used₂, -, hfirst, hkinds, hsecond⟩ := hfaces.split
  obtain ⟨a, s', hdone, hbehind, ha⟩ := hp s used₁ _ hfirst (headD_append _ hkinds s.eof ▸ hfollow _ hnext)
  obtain ⟨b, s'', hdone', hbehind', hb⟩ := hf a ha s' used₂ more (hsecond s' hbehind) (hbehind.eof ▸ hnext)
  exact ⟨b, s'', (bind_of_done hdone).trans hdone', hbehind.trans hbehind', hb⟩

theorem Takes.bind_end (hp : Takes p w follow post) (hf : ∀ a, post a → Takes (f a) .empty follow' goal)
    (hfollow : ∀ k, follow' k → follow k) : Takes (p >>= f) w follow' goal := by
  rw [← Phrase.append_empty w]
  exact hp.bind hf hfollow

theorem Takes.map {g : α → β} (hp : Takes p w follow post) (hg : ∀ a, post a → goal (g a)) :
    Takes (p >>= fun a => Pure.pure (g a)) w follow goal :=
  hp.bind_end (fun a ha => .pure (hg a ha)) fun _ h => h

/-- The last token may be followed by anything. -/
theorem Takes.close {g : α → β} (hp : Takes p w (fun _ => True) post) (hg : ∀ a, post a → goal (g a)) :
    Takes (p >>= fun a => Pure.pure (g a)) w follow goal :=
  (hp.map hg).weaken fun _ _ => trivial

/-! ## single tokens -/

/-- Reading that depends on the next token. -/
theorem Takes.kind {f : TokenKind → Parser β}
    (h : ∀ next, follow next → Takes (f (w.kinds.headD next)) w (· = next) goal) :
    Takes (kind >>= f) w follow goal := by
  intro s used more hfaces hnext
  obtain ⟨b, s', hdone, hbehind, hb⟩ := h _ hnext s used more hfaces rfl
  rw [← hfaces.peek] at hdone
  exact ⟨b, s', hdone, hbehind, hb⟩

theorem Takes.kind_head {f : TokenKind → Parser β} (hk : w.kinds.head? = some k) (h : Takes (f k) w follow goal) :
    Takes (Parser.kind >>= f) w follow goal := by
  refine .kind fun next hnext => ?_
  rw [List.headD_eq_head?_getD, hk]
  exact h.weaken fun _ heq => heq ▸ hnext

theorem Takes.kind_nil {f : TokenKind → Parser β}
    (h : ∀ next, follow next → Takes (f next) .empty (· = next) goal) : Takes (Parser.kind >>= f) .empty follow goal :=
  .kind h

theorem Takes.check {f : Bool → Parser β} (h : ∀ found, Takes (f found) w follow goal) :
    Takes (check k >>= f) w follow goal :=
  fun s => h (s.peek.kind == k) s

theorem Takes.check_eq {f : Bool → Parser β} (hk : ∀ next, follow next → w.kinds.headD next = k)
    (h : Takes (f true) w follow goal) : Takes (Parser.check k >>= f) w follow goal := by
  show Takes (Parser.kind >>= fun found => f (found == k)) w follow goal
  refine .kind fun next hnext => ?_
  rw [hk next hnext, beq_self_eq_true]
  exact h.weaken fun _ heq => heq ▸ hnext

/-- A token that is not the next one. -/
theorem Takes.check_ne {f : Bool → Parser β} (hne : ∀ next, follow next → w.kinds.headD next ≠ k)
    (h : Takes (f false) w follow goal) : Takes (Parser.check k >>= f) w follow goal := by
  show Takes (Parser.kind >>= fun found => f (found == k)) w follow goal
  refine .kind fun next hnext => ?_
  rw [beq_eq_false_iff_ne.2 (hne next hnext)]
  exact h.weaken fun _ heq => heq ▸ hnext

theorem Takes.second {f : TokenKind → Parser β}
    (h : ∀ found, SecondOf w follow found → Takes (f found) w follow goal) : Takes (second >>= f) w follow goal := by
  intro s used more hfaces hnext
  have hfound : SecondOf w follow s.second := by
    unfold SecondOf ParseState.second
    rw [hfaces.rest, ← hfaces.kinds]
    match used, more, hnext with
    | [], _, _ => trivial
    | [_], [], _ => exact Or.inl rfl
    | [_], _ :: _, hnext => exact Or.inr hnext
    | _ :: _ :: _, _, _ => rfl
  exact h _ hfound s used more hfaces hnext

theorem takes_advance (k : TokenKind) : Takes advance (.token k) (fun _ => True) fun t => t.kind = k := by
  intro s used more hfaces _
  obtain ⟨t, hrest, ht⟩ := hfaces.token
  have hpeek : s.peek = t := by rw [ParseState.peek, hrest, List.headD_cons]
  exact ⟨t, s.advance, by rw [← hpeek]; rfl, behind_advance hrest, ht⟩

theorem Takes.advance {f : Token → Parser β} (h : ∀ t, Takes (f t) w follow goal) :
    Takes (advance >>= f) (.token k ++ w) follow goal :=
  (takes_advance k).bind (fun t _ => h t) fun _ _ => trivial

theorem takes_expect (k : TokenKind) : Takes (expect k) (.token k) (fun _ => True) fun t => t.kind = k := by
  intro s used more hfaces _
  have hpeek : (s.peek.kind == k) = true := by
    rw [hfaces.peek]
    exact beq_self_eq_true k
  obtain ⟨t, hrest, ht⟩ := hfaces.token
  exact ⟨s.peek, s.advance, if_pos hpeek, behind_advance hrest, beq_iff_eq.1 hpeek⟩

theorem Takes.expect {f : Token → Parser β} (h : ∀ t, Takes (f t) w follow goal) :
    Takes (expect k >>= f) (.token k ++ w) follow goal :=
  (takes_expect k).bind (fun t _ => h t) fun _ _ => trivial

theorem Takes.eat {f : Bool → Parser β} (h : Takes (f true) w follow goal) :
    Takes (eat k >>= f) (.token k ++ w) follow goal := by
  refine (show Takes (Parser.eat k) (.token k) (fun _ => True) fun eaten => eaten = true from ?_).bind
    (fun _ heaten => heaten ▸ h) fun _ _ => trivial
  intro s used more hfaces _
  have hpeek : (s.peek.kind == k) = true := by
    rw [hfaces.peek]
    exact beq_self_eq_true k
  obtain ⟨t, hrest, -⟩ := hfaces.token
  exact ⟨true, s.advance, if_pos hpeek, behind_advance hrest, rfl⟩

theorem Takes.eat_ne {f : Bool → Parser β} (hne : ∀ next, follow next → w.kinds.headD next ≠ k)
    (h : Takes (f false) w follow goal) : Takes (Parser.eat k >>= f) w follow goal := by
  intro s used more hfaces hnext
  have hpeek : ¬ (s.peek.kind == k) = true := by
    rw [hfaces.peek]
    simpa using hne _ hnext
  obtain ⟨b, s', hdone, hbehind, hb⟩ := h s used more hfaces hnext
  have heat : Parser.eat k s = .done false s := if_neg hpeek
  exact ⟨b, s', (bind_of_done heat).trans hdone, hbehind, hb⟩

theorem takes_identifier (name : String) :
    Takes identifier (.token (.identifier name)) (fun _ => True) fun i => i.name = name := by
  intro s used more hfaces _
  have hpeek : s.peek.kind = .identifier name := hfaces.peek
  obtain ⟨t, hrest, -⟩ := hfaces.token
  have hdone : identifier s = .done ⟨name, s.peek.span⟩ s.advance := by simp only [identifier, hpeek]
  exact ⟨_, _, hdone, behind_advance hrest, rfl⟩

/-- Spans make no difference to what is read. -/
theorem Takes.here {f : Span → Parser β} (h : ∀ span, Takes (f span) w follow goal) :
    Takes (here >>= f) w follow goal :=
  fun s => h s.peek.span s

theorem Takes.last {f : Span → Parser β} (h : ∀ span, Takes (f span) w follow goal) :
    Takes (last >>= f) w follow goal :=
  fun s => h s.last s

theorem Takes.tooManyFaults {f : Bool → Parser β} (h : Takes (f false) w follow goal) :
    Takes (tooManyFaults >>= f) w follow goal := by
  intro s used more hfaces hnext
  obtain ⟨b, s', hdone, hbehind, hb⟩ := h s used more hfaces hnext
  have hfew : Parser.tooManyFaults s = .done false s := by
    unfold Parser.tooManyFaults ParseState.tooManyFaults
    rw [hfaces.faults]
    rfl
  exact ⟨b, s', (bind_of_done hfew).trans hdone, hbehind, hb⟩

end rules

/-! ## loops and recursion -/

/-- The rounds of a loop from some value on read the tokens of a phrase, if there may be more rounds than tokens. -/
def Rounds (step : α → Parser (α ⊕ β)) (a : α) (w : Phrase) (follow : TokenKind → Prop) (post : β → Prop) : Prop :=
  ∀ (bound : Nat) (s : ParseState) (used more : List Token), s.rest.length ≤ bound → s.Faces w used more →
    follow (more.headD s.eof).kind → ∃ b s', loopUpTo step (bound + 1) a s = .done b s' ∧ s'.Behind s more ∧ post b

/-- A parser gets to a round of a loop behind a phrase, with a value that satisfies an invariant. -/
def Arrives (p : Parser β) (step : α → Parser (α ⊕ β)) (w : Phrase) (follow : TokenKind → Prop)
    (inv : α → Prop) : Prop :=
  ∀ (w' : Phrase) (follow' : TokenKind → Prop) (post : β → Prop), (∀ a, inv a → Rounds step a w' follow' post) →
    (∀ k, follow' k → follow (w'.kinds.headD k)) → Takes p (w ++ w') follow' post

section loops

variable {p : Parser β} {step : α → Parser (α ⊕ β)} {a : α} {w w' : Phrase} {follow follow' : TokenKind → Prop}
  {inv inv' : α → Prop} {post : β → Prop}

theorem loopUpTo_inl {bound : Nat} {s s' : ParseState} {a' : α} (h : step a s = .done (.inl a') s') :
    loopUpTo step (bound + 1) a s = loopUpTo step bound a' s' := by
  simp only [loopUpTo, h]

theorem loopUpTo_inr {bound : Nat} {s s' : ParseState} {b : β} (h : step a s = .done (.inr b) s') :
    loopUpTo step (bound + 1) a s = .done b s' := by
  simp only [loopUpTo, h]

/-- The last round. -/
theorem Rounds.last (h : Takes (step a) w follow fun r => ∃ b, r = .inr b ∧ post b) : Rounds step a w follow post := by
  intro bound s used more _ hfaces hnext
  obtain ⟨r, s', hdone, hbehind, b, rfl, hb⟩ := h s used more hfaces hnext
  exact ⟨b, s', loopUpTo_inr hdone, hbehind, hb⟩

/-- A round that reads a token, and those behind it. -/
theorem Rounds.next (h : Takes (step a) w follow' fun r => ∃ a', r = .inl a' ∧ inv a') (hne : w.kinds ≠ [])
    (hrounds : ∀ a', inv a' → Rounds step a' w' follow post) (hfollow : ∀ k, follow k → follow' (w'.kinds.headD k)) :
    Rounds step a (w ++ w') follow post := by
  intro bound s used more hbound hfaces hnext
  obtain ⟨used₁, used₂, -, hfirst, hkinds, hsecond⟩ := hfaces.split
  obtain ⟨r, s', hdone, hbehind, a', rfl, ha'⟩ := h s used₁ _ hfirst (headD_append _ hkinds s.eof ▸ hfollow _ hnext)
  have hconsumed : 0 < used₁.length := by
    rw [← List.length_map (·.kind), hfirst.kinds]
    exact List.length_pos_iff.2 hne
  have hbound' : s'.rest.length ≤ bound - 1 ∧ bound - 1 + 1 = bound := by
    rw [hfirst.rest, List.length_append] at hbound
    rw [hbehind.rest]
    omega
  obtain ⟨b, s'', hdone', hbehind', hb⟩ :=
    hrounds a' ha' (bound - 1) s' used₂ more hbound'.1 (hsecond s' hbehind) (hbehind.eof ▸ hnext)
  rw [hbound'.2] at hdone'
  exact ⟨b, s'', (loopUpTo_inl hdone).trans hdone', hbehind.trans hbehind', hb⟩

theorem Rounds.weaken (h : Rounds step a w follow post) (hfollow : ∀ k, follow' k → follow k) :
    Rounds step a w follow' post :=
  fun bound s used more hbound hfaces hnext => h bound s used more hbound hfaces (hfollow _ hnext)

theorem Takes.loop (h : Rounds step a w follow post) : Takes (loop step a) w follow post :=
  fun s used more hfaces hnext => h s.rest.length s used more (Nat.le_refl _) hfaces hnext

theorem Takes.arrives {base : Parser α} (h : Takes base w follow inv) :
    Arrives (base >>= Parser.loop step) step w follow inv :=
  fun _ _ _ hrounds hfollow => h.bind (fun a ha => .loop (hrounds a ha)) hfollow

theorem headD_append_kinds (w w' : Phrase) (k : TokenKind) :
    (w ++ w').kinds.headD k = w.kinds.headD (w'.kinds.headD k) := by
  rw [Phrase.kinds_append]
  cases w.kinds <;> rfl

/-- One more round, which reads a token. -/
theorem Arrives.round (h : Arrives p step w follow inv)
    (hstep : ∀ a, inv a → Takes (step a) w' follow' fun r => ∃ a', r = .inl a' ∧ inv' a') (hne : w'.kinds ≠ [])
    (hfollow : ∀ k, follow' k → follow (w'.kinds.headD k)) : Arrives p step (w ++ w') follow' inv' := by
  intro w'' follow'' post hrounds hfollow''
  rw [Phrase.append_assoc]
  refine h _ _ _ (fun a ha => .next (hstep a ha) hne hrounds hfollow'') fun k hk => ?_
  rw [headD_append_kinds]
  exact hfollow _ (hfollow'' k hk)

/-- The last round reads nothing more. -/
theorem Arrives.stop (h : Arrives p step w follow inv)
    (hstep : ∀ a, inv a → Takes (step a) .empty follow' fun r => ∃ b, r = .inr b ∧ post b)
    (hfollow : ∀ k, follow' k → follow k) : Takes p w follow' post := by
  rw [← Phrase.append_empty w]
  exact h _ _ _ (fun a ha => .last (hstep a ha)) hfollow

/-- Recursion that goes no deeper than there are tokens. -/
theorem Takes.bounded {body : Nat → Parser β}
    (h : ∀ bound, w.length ≤ bound → Takes (body (bound + 1)) w follow post) :
    Takes (bounded body) w follow post := by
  intro s used more hfaces hnext
  have hlength : w.length ≤ s.rest.length := by
    rw [Phrase.length, hfaces.rest, ← hfaces.kinds, List.length_map, List.length_append]
    exact Nat.le_add_right _ _
  exact h _ hlength s used more hfaces hnext

end loops

/-- An expression inside another one takes room of its own. -/
theorem Takes.nested {p : Parser Expr} {w : Phrase} {follow : TokenKind → Prop} {post : Expr → Prop}
    (h : Takes p w follow post) : Takes (nested p) w.inside follow post := by
  intro s used more hfaces hnext
  have hroom : s.depth + (w.nesting + 1) ≤ maxNesting := hfaces.room
  obtain ⟨e, s', hdone, hbehind, he⟩ := h { s with depth := s.depth + 1 } used more
    ⟨hfaces.rest, hfaces.kinds, by simp only; omega, hfaces.faults⟩ hnext
  have hdepth : s'.depth = s.depth + 1 := hbehind.depth
  have hlt : s.depth < maxNesting := by omega
  refine ⟨e, { s' with depth := s'.depth - 1 }, ?_, ⟨hbehind.rest, hbehind.eof, ?_, hbehind.faults⟩, he⟩
  · rw [Parser.nested, if_pos hlt, hdone]
  · simp only [hdepth]
    omega

end Parser

end ViewSync
