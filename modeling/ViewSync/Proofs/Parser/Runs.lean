import ViewSync.Proofs.Parser.Walks
import ViewSync.Proofs.Token.Coverage
import ViewSync.Proofs.Token.Layout

/-!
# ViewSync.Proofs.Parser.Runs

Parsers over the tokens of a source. Inside a source without lexical faults (`ParseState.Sourced`) a parser may go over
the ends of lines and of blocks, note faults and go on (`ParseState.Moves`). `RunsAt p s done failed` says what holds
when a parser ends with a value and when it fails, of the tokens used up and of the state behind them.
-/

namespace ViewSync

/-- A state inside a source without lexical faults. -/
structure ParseState.Sourced (s : ParseState) : Prop where
  eof : s.eof.kind = .eof
  source : ∃ text front, (lex text).faults = [] ∧ (lex text).tokens = front ++ s.rest

/-- A later state: some tokens are behind, the last of them with a text is kept in mind, and no fault is forgotten. -/
structure ParseState.Moves (s : ParseState) (used : List Token) (s' : ParseState) : Prop extends s.Reads used s' where
  last : s'.last = ((worded used).getLast?.map (·.span)).getD s.last
  depth : s'.depth = s.depth
  faults : s.faults <:+ s'.faults

namespace ParseState

variable {s s' s'' : ParseState} {used more : List Token}

theorem Moves.refl (s : ParseState) : s.Moves [] s :=
  ⟨.refl s, rfl, rfl, List.suffix_rfl⟩

theorem Moves.trans (h : s.Moves used s') (h' : s'.Moves more s'') : s.Moves (used ++ more) s'' where
  toReads := h.toReads.trans h'.toReads
  last := by
    rw [h'.last, h.last, worded, worded, worded, List.filter_append, List.getLast?_append]
    cases (more.filter _).getLast? <;> rfl
  depth := h'.depth.trans h.depth
  faults := h.faults.trans h'.faults

/-- Without a fault in the end there was none before. -/
theorem Moves.clean (h : s.Moves used s') (hclean : s'.faults = []) : s.faults = [] :=
  List.suffix_nil.1 (hclean ▸ h.faults)

theorem Walks.moves (h : s.Walks used s') : s.Moves used s' :=
  ⟨h.toReads, by rw [worded_eq_self h.worded, h.last], h.depth, h.faults ▸ List.suffix_rfl⟩

theorem moves_note (s : ParseState) (cause : ParseError) (span : Span) : s.Moves [] (s.note cause span) :=
  ⟨reads_note s cause span, rfl, rfl, List.suffix_cons _ _⟩

/-- The next token is used up, if there is one. -/
theorem moves_advance (s : ParseState) : ∃ used, s.Moves used s.advance := by
  unfold advance
  cases hrest : s.rest with
  | nil => exact ⟨[], .refl s⟩
  | cons t ts =>
      refine ⟨[t], ⟨hrest, rfl⟩, ?_, rfl, List.suffix_rfl⟩
      cases hlayout : t.kind.isLayout <;> simp [worded, hlayout]

/-- A token that is not the end of the source is used up. -/
theorem moves_advance_of_ne (heof : s.eof.kind = .eof) (h : s.peek.kind ≠ .eof) : s.Moves [s.peek] s.advance := by
  have hreads := reads_advance_of_ne heof h
  obtain ⟨used, hmoves⟩ := s.moves_advance
  have hused : used = [s.peek] := by
    have hrest := hmoves.rest.symm.trans hreads.rest
    exact List.append_cancel_right hrest
  exact hused ▸ hmoves

namespace Sourced

theorem reads (h : s.Sourced) (hreads : s.Reads used s') : s'.Sourced := by
  obtain ⟨heof, text, front, hfaults, htokens⟩ := h
  refine ⟨hreads.eof ▸ heof, text, front ++ used, hfaults, ?_⟩
  rw [htokens, hreads.rest, List.append_assoc]

/-- A token with a text of its own is followed by another one, or by the end of its line. -/
theorem next {t : Token} (h : s.Sourced) (hreads : s.Reads (used ++ [t]) s') (ht : t.kind.isLayout = false) :
    s'.peek.kind.isLayout = false ∨ s'.peek.kind = .newline := by
  obtain ⟨-, text, front, -, htokens⟩ := h
  rw [hreads.rest] at htokens
  cases hrest : s'.rest with
  | nil =>
      obtain ⟨kinds, hkinds, -⟩ := (spaced_lex text).1
      rw [htokens, hrest] at hkinds
      have hlast : t.kind = .eof := by
        rw [List.append_nil, ← List.append_assoc, List.map_append] at hkinds
        exact (List.cons.inj (List.append_inj' hkinds rfl).2).1
      rw [hlast] at ht
      cases ht
  | cons u rest =>
      have hchain := mayFollow_lex text
      rw [htokens, hrest] at hchain
      have hpair : List.IsChain MayFollow (t.kind :: u.kind :: rest.map (·.kind)) := by
        refine hchain.suffix ⟨(front ++ used).map (·.kind), ?_⟩
        simp
      rw [peek, hrest]
      exact (List.isChain_cons_cons.1 hpair).1 ht

end Sourced

end ParseState

namespace Parser

open ParseState

variable {α β : Type}

/-- What holds when a parser ends with a value, and when it fails. -/
def RunsAt (p : Parser α) (s : ParseState) (done : List Token → α → ParseState → Prop)
    (failed : List Token → ParseState → Prop) : Prop :=
  s.Sourced → match p s with
  | .done a s' => ∃ used, s.Moves used s' ∧ done used a s'
  | .failed s' => ∃ used, s.Moves used s' ∧ failed used s'
  | .exhausted => True

section

variable {p : Parser α} {s s' : ParseState} {a : α} {used : List Token}
  {done done' : List Token → α → ParseState → Prop}
  {failed failed' : List Token → ParseState → Prop} {goal : List Token → β → ParseState → Prop}

namespace RunsAt

theorem intro (h : s.Sourced → RunsAt p s done failed) : RunsAt p s done failed :=
  fun hs => h hs hs

theorem of_done (h : p s = .done a s') (hmoves : s.Sourced → s.Moves used s') (ha : done used a s') :
    RunsAt p s done failed := by
  intro hs
  rw [h]
  exact ⟨used, hmoves hs, ha⟩

theorem of_failed (h : p s = .failed s') (hmoves : s.Moves used s') (hfailed : failed used s') :
    RunsAt p s done failed := by
  intro _
  rw [h]
  exact ⟨used, hmoves, hfailed⟩

theorem mono (h : RunsAt p s done failed) (hdone : ∀ used a s', s.Moves used s' → done used a s' → done' used a s')
    (hfailed : ∀ used s', s.Moves used s' → failed used s' → failed' used s') : RunsAt p s done' failed' := by
  intro hs
  have hp := h hs
  cases hp' : p s with
  | done a s' =>
      rw [hp'] at hp
      obtain ⟨used, hmoves, ha⟩ := hp
      exact ⟨used, hmoves, hdone used a s' hmoves ha⟩
  | failed s' =>
      rw [hp'] at hp
      obtain ⟨used, hmoves, ha⟩ := hp
      exact ⟨used, hmoves, hfailed used s' hmoves ha⟩
  | exhausted => trivial

theorem bind {f : α → Parser β} (hp : RunsAt p s done failed)
    (hf : ∀ a used s', s.Moves used s' → done used a s' → RunsAt (f a) s'
      (fun more b s'' => goal (used ++ more) b s'') fun more s'' => failed (used ++ more) s'') :
    RunsAt (p >>= f) s goal failed := by
  intro hs
  have hfirst := hp hs
  rw [bind_apply]
  cases hp' : p s with
  | done a s' =>
      rw [hp'] at hfirst
      obtain ⟨used, hmoves, ha⟩ := hfirst
      have hnext := hf a used s' hmoves ha (hs.reads hmoves.toReads)
      simp only
      cases hf' : f a s' with
      | done b s'' =>
          rw [hf'] at hnext
          obtain ⟨more, hmore, hb⟩ := hnext
          exact ⟨used ++ more, hmoves.trans hmore, hb⟩
      | failed s'' =>
          rw [hf'] at hnext
          obtain ⟨more, hmore, hb⟩ := hnext
          exact ⟨used ++ more, hmoves.trans hmore, hb⟩
      | exhausted => trivial
  | failed s' => rwa [hp'] at hfirst
  | exhausted => trivial

theorem pure (h : done [] a s) : RunsAt (pure a) s done failed :=
  fun _ => ⟨[], .refl s, h⟩

/-- A value that is at hand. -/
theorem pure_bind {f : α → Parser β} (h : RunsAt (f a) s goal failed) : RunsAt (Pure.pure a >>= f) s goal failed := h

theorem ite {q : Parser α} {c : Prop} [Decidable c] (hp : c → RunsAt p s done failed)
    (hq : ¬ c → RunsAt q s done failed) : RunsAt (if c then p else q) s done failed := by
  split
  · exact hp ‹_›
  · exact hq ‹_›

/-- A parser that stays on the line. -/
theorem of_walks {post : List Token → α → Prop} (h : WalksAt p s post) :
    RunsAt p s (fun used a s' => s.Walks used s' ∧ post used a) fun used s' => ∃ mid cause, s.Walks used mid ∧
      (∀ k ∈ cause.found?, k = mid.peek.kind) ∧ s' = mid.note cause mid.peek.span := by
  intro hs
  have hp := h hs.eof
  cases hp' : p s with
  | done a s' =>
      rw [hp'] at hp
      obtain ⟨used, hwalks, ha⟩ := hp
      exact ⟨used, hwalks.moves, hwalks, ha⟩
  | failed s' =>
      rw [hp'] at hp
      obtain ⟨used, mid, cause, hwalks, hfound, rfl⟩ := hp
      refine ⟨used, ?_, mid, cause, hwalks, hfound, rfl⟩
      simpa using hwalks.moves.trans (mid.moves_note cause mid.peek.span)
  | exhausted => trivial

/-! ## single steps -/

theorem kind {f : TokenKind → Parser β} (h : RunsAt (f s.peek.kind) s goal failed) :
    RunsAt (kind >>= f) s goal failed := h

theorem here {f : Span → Parser β} (h : RunsAt (f s.peek.span) s goal failed) :
    RunsAt (here >>= f) s goal failed := h

theorem last {f : Span → Parser β} (h : RunsAt (f s.last) s goal failed) : RunsAt (last >>= f) s goal failed := h

theorem check {k : TokenKind} {f : Bool → Parser β} (h : RunsAt (f (s.peek.kind == k)) s goal failed) :
    RunsAt (check k >>= f) s goal failed := h

theorem tooManyFaults {f : Bool → Parser β} (h : RunsAt (f s.tooManyFaults) s goal failed) :
    RunsAt (tooManyFaults >>= f) s goal failed := h

/-- The token ahead is used up if it is not the end of the source. -/
theorem advance {f : Token → Parser β} (hne : s.peek.kind ≠ .eof)
    (h : ∀ s', s.Moves [s.peek] s' → RunsAt (f s.peek) s' (fun more b s'' => goal (s.peek :: more) b s'')
      fun more s'' => failed (s.peek :: more) s'') : RunsAt (advance >>= f) s goal failed := by
  intro hs
  have hmoves := moves_advance_of_ne hs.eof hne
  have hadvance : RunsAt Parser.advance s (fun used t _ => used = [s.peek] ∧ t = s.peek) failed :=
    fun _ => ⟨[s.peek], hmoves, rfl, rfl⟩
  refine hadvance.bind (fun t used s' hmoves' ht => ?_) hs
  obtain ⟨rfl, rfl⟩ := ht
  exact h s' hmoves'

/-- The token ahead is used up, if there is one. -/
theorem advance_any {f : Token → Parser β}
    (h : ∀ used s', s.Moves used s' → RunsAt (f s.peek) s' (fun more b s'' => goal (used ++ more) b s'')
      fun more s'' => failed (used ++ more) s'') : RunsAt (Parser.advance >>= f) s goal failed := by
  obtain ⟨used, hmoves⟩ := s.moves_advance
  have hadvance : RunsAt Parser.advance s (fun _ t _ => t = s.peek) failed := fun _ => ⟨used, hmoves, rfl⟩
  refine hadvance.bind fun t used s' hmoves' ht => ?_
  obtain rfl := ht
  exact h used s' hmoves'

/-- A token that is looked for is used up if it is ahead. -/
theorem eat {k : TokenKind} {f : Bool → Parser β} (hne : k ≠ .eof)
    (hyes : ∀ t s', t.kind = k → s.peek = t → s.Moves [t] s' → RunsAt (f true) s'
      (fun more b s'' => goal (t :: more) b s'') fun more s'' => failed (t :: more) s'')
    (hno : s.peek.kind ≠ k → RunsAt (f false) s goal failed) : RunsAt (eat k >>= f) s goal failed := by
  unfold RunsAt
  by_cases hk : s.peek.kind = k
  · rw [eat_bind_of_eq hk]
    exact RunsAt.advance (hk ▸ hne) fun s' hmoves => hyes s.peek s' hk rfl hmoves
  · rw [eat_bind_of_ne hk]
    exact hno hk

/-- What holds when a parser is tried that may fail. -/
theorem attempt (h : RunsAt p s done failed) :
    RunsAt (attempt p) s (fun used r s' => match r with
      | some a => done used a s'
      | none => failed used s') failed' := by
  intro hs
  have hp := h hs
  unfold Parser.attempt
  cases hp' : p s with
  | done a s' => rwa [hp'] at hp
  | failed s' => rwa [hp'] at hp
  | exhausted => trivial

/-! ## repetition -/

/-- What one more round of a loop has to give: the invariant again, or what the loop is to give. -/
def Turn (inv : List Token → α → ParseState → Prop) (done : List Token → β → ParseState → Prop) (used : List Token)
    (r : α ⊕ β) (s : ParseState) : Prop :=
  match r with
  | .inl a => inv used a s
  | .inr b => done used b s

theorem loopUpTo {step : α → Parser (α ⊕ β)} {inv : List Token → α → ParseState → Prop}
    (hstep : ∀ a used s', s.Moves used s' → inv used a s' → RunsAt (step a) s'
      (fun more r s'' => Turn inv goal (used ++ more) r s'') fun more s'' => failed (used ++ more) s'')
    (bound : Nat) {a : α} {used : List Token} (ha : inv used a s') (hs' : s.Moves used s') :
    RunsAt (loopUpTo step bound a) s' (fun more b s'' => goal (used ++ more) b s'')
      fun more s'' => failed (used ++ more) s'' := by
  induction bound generalizing a used s' with
  | zero => exact fun _ => trivial
  | succ bound ih =>
      unfold RunsAt
      rw [loopUpTo_succ]
      refine (hstep a used s' hs' ha).bind fun r more s'' hmore hr => ?_
      simp only [← List.append_assoc]
      cases r with
      | inl a' => exact ih hr (hs'.trans hmore)
      | inr b => exact RunsAt.pure (by simpa [Turn] using hr)

/-- An invariant over the tokens used so far, and the state behind them, carries a loop. -/
theorem loop {step : α → Parser (α ⊕ β)} (inv : List Token → α → ParseState → Prop) {a : α} (ha : inv [] a s)
    (hstep : ∀ a used s', s.Moves used s' → inv used a s' → RunsAt (step a) s'
      (fun more r s'' => Turn inv goal (used ++ more) r s'') fun more s'' => failed (used ++ more) s'') :
    RunsAt (loop step a) s goal failed :=
  loopUpTo hstep _ ha (.refl s)

theorem bounded {body : Nat → Parser α} (h : ∀ bound, RunsAt (body bound) s done failed) :
    RunsAt (bounded body) s done failed :=
  fun hs => h _ hs

end RunsAt

end

end Parser

end ViewSync
