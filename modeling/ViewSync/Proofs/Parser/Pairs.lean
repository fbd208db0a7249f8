import ViewSync.Proofs.Parser.Halting
import ViewSync.Proofs.Parser.Lines
import ViewSync.Proofs.Parser.Rounds

/-!
# ViewSync.Proofs.Parser.Pairs

Two sources side by side that differ in one place. Inside of lines their states are related by `mid`, and the next
tokens are of the same kind; in front of the place where they differ they are related by `seam`. A `Pair` says what has
to be known of the two relations, and of what the parsers of statements do at the seam. Then the second source is read
where the first one is, with the same tree up to spans and up to the statements that are passed over (`Pair.module`).
-/

namespace ViewSync.Parser

open ParseState

variable {α β : Type} {drop : Span → Bool}

/-! ## parts of the parsers of statements -/

/-- What follows the block of an `if`. -/
def chainRest (statement : Parser Stmt) (bound : Nat) : Parser Else := do
  match ← kind with
  | .keyword .elif => do
    let chain ← ifChainUpTo statement bound
    pure (.elif chain)
  | .keyword .else_ => do
    let _ ← advance
    pure (.block (← block statement))
  | _ => pure .nothing

/-- What is decorated. -/
def definition (statement : Parser Stmt) (decorators : List Expr) : Parser Stmt := do
  match ← kind with
  | .keyword .def_ => function statement decorators
  | .keyword .class_ => classDef statement decorators
  | found => fail (.expectedDefinition found)

theorem ifChainUpTo_succ (statement : Parser Stmt) (bound : Nat) : ifChainUpTo statement (bound + 1) =
    (here >>= fun start => advance >>= fun _ => expression >>= fun condition => block statement >>= fun body =>
      chainRest statement bound >>= fun orelse => last >>= fun stop =>
        pure (.mk (start.merge stop) condition body orelse)) := by
  refine congrArg (here >>= ·) (funext fun start => congrArg (advance >>= ·) (funext fun _ =>
    congrArg (expression >>= ·) (funext fun condition => congrArg (block statement >>= ·) (funext fun body => ?_))))
  rw [chainRest, bind_assoc]
  refine congrArg (kind >>= ·) (funext fun k => ?_)
  cases k with
  | keyword word =>
      cases word with
      | elif => exact (bind_assoc (ifChainUpTo statement bound) _ _).symm
      | else_ => simp only [bind_assoc]
      | _ => rfl
  | _ => rfl

theorem decorated_eq (statement : Parser Stmt) :
    decorated statement = (loop decoratorStep [] >>= definition statement) := rfl

theorem skipIndented_eq : skipIndented = loop skipStep 0 := rfl

theorem refused_eq (stmt : RefusedStmt) : refused stmt = (here >>= fun start => skipClause >>= fun stop =>
    (if stmt == .try_ then loop (fun _ => tryStep) () else pure ()) >>= fun _ =>
      pure (.refused (start.merge stop) stmt)) := by
  refine congrArg (here >>= ·) (funext fun start => congrArg (skipClause >>= ·) (funext fun stop => ?_))
  split <;> rfl

/-! ## skipping moves on -/

section onwards

theorem onwards_lineEnd : Onwards lineEnd := by
  intro s
  unfold lineEnd
  cases s.peek.kind with
  | newline => exact s.onward_advance
  | dedent | eof => exact .refl s
  | _ => exact s.onward_note _ _

theorem onwards_simpleBody : Onwards simpleBody :=
  (@mirrors_simpleBody (fun _ => false) [] []).onwards

theorem onwards_simple : Onwards simple :=
  onwards_simpleBody.bind fun _ => onwards_lineEnd.bind fun _ => onwards_pure _

theorem onwards_skipLine : Onwards skipLine := by
  refine onwards_peek.2.2.1.bind fun start => .loop (fun span => ?_) start
  refine onwards_peek.1.bind fun k => ?_
  split
  · exact onwards_pure _
  · exact onwards_advance.bind fun t => onwards_pure _

theorem onwards_skipStep (depth : Nat) : Onwards (skipStep depth) := by
  unfold skipStep
  refine onwards_advance.bind fun t => ?_
  split
  · exact onwards_pure _
  · split <;> exact onwards_pure _
  · exact onwards_pure _
  · exact onwards_pure _

theorem onwards_skipIndented : Onwards skipIndented :=
  .loop onwards_skipStep 0

theorem onwards_skipClause : Onwards skipClause := by
  unfold skipClause
  refine onwards_skipLine.bind fun span => (onwards_eat _).bind fun _ => (onwards_check _).bind fun found => ?_
  split
  · exact onwards_skipIndented.bind fun _ => onwards_pure _
  · exact onwards_pure _

theorem onwards_synchronize : Onwards synchronize :=
  onwards_skipClause.bind fun _ => onwards_pure _

theorem onwards_tryStep : Onwards tryStep := by
  unfold tryStep
  refine onwards_peek.1.bind fun k => ?_
  split
  · exact onwards_skipClause.bind fun _ => onwards_pure _
  · exact onwards_pure _

theorem onwards_refusedRest (start stop : Span) (stmt : RefusedStmt) :
    Onwards ((if stmt == .try_ then loop (fun _ => tryStep) () else pure ()) >>= fun _ =>
      pure (Stmt.refused (start.merge stop) stmt)) := by
  refine Onwards.bind ?_ fun _ => onwards_pure _
  split
  · exact .loop (fun _ => onwards_tryStep) ()
  · exact onwards_pure _

theorem onwards_refused (stmt : RefusedStmt) : Onwards (refused stmt) := by
  rw [refused_eq]
  exact onwards_peek.2.2.1.bind fun start => onwards_skipClause.bind fun stop => onwards_refusedRest start stop stmt

end onwards

/-! ## the line that is skipped -/

theorem peek_mem_rest {s : ParseState} (heof : s.eof.kind = .eof) (h : s.peek.kind ≠ .eof) : s.peek ∈ s.rest := by
  rw [(reads_advance_of_ne heof h).rest]
  exact List.mem_cons_self

/-- The end of a line that is skipped is the end of one of its tokens. -/
theorem haltsAt_skipLine_span {s : ParseState} (hword : s.peek.kind.isLayout = false) :
    HaltsAt skipLine s fun span _ => ∃ u ∈ s.rest, span = u.span := by
  have hne : ∀ {k : TokenKind}, endsLine k = false → k ≠ .eof := fun h heq => by
    rw [heq] at h
    cases h
  refine .intro fun heof => .here (.loop (fun span _ => ∃ u ∈ s.rest, span = u.span) ?_ fun span s₁ honward hspan => ?_)
  · refine ⟨s.peek, peek_mem_rest heof fun heq => ?_, rfl⟩
    rw [heq] at hword
    cases hword
  · refine .kind (.ite (fun _ => .out hspan) fun hgoes => ?_)
    have hgoes' := hne (Bool.not_eq_true _ ▸ hgoes)
    refine .advance hgoes' fun s₂ hlt => .again hlt ⟨s₁.peek, honward.rest.subset ?_, rfl⟩
    exact peek_mem_rest (honward.eof ▸ heof) hgoes'

/-- What is skipped with a line is said to end with the line. -/
theorem span_of_skipClause {s t : ParseState} {stop : Span} (heof : s.eof.kind = .eof)
    (hword : s.peek.kind.isLayout = false) (hdone : skipClause s = .done stop t) : ∃ u ∈ s.rest, stop = u.span := by
  have hclause : HaltsAt skipClause s fun span _ => ∃ u ∈ s.rest, span = u.span := by
    unfold skipClause
    refine (haltsAt_skipLine_span hword).bind fun span s₁ _ hspan => ?_
    refine (haltsAt_eat (k := .newline) nofun s₁).bind fun _ s₂ _ _ => .check (.ite (fun _ => ?_) fun _ => .pure hspan)
    exact (haltsAt_skipIndented s₂).bind fun _ s₃ _ _ => .pure hspan
  have hhalts := hclause heof
  rw [hdone] at hhalts
  exact hhalts.2

/-! ## a source that is late -/

/-- Either of two relations of states. -/
abbrev Either (mid seam : ParseState → ParseState → Prop) (s s' : ParseState) : Prop :=
  mid s s' ∨ seam s s'

section late

variable {pre post late : ParseState → ParseState → Prop} {p p' : Parser α} {rel : α → α → Prop} {goal : β → β → Prop}
  {step step' : α → Parser (α ⊕ β)}

/-- What is known of the state on the one side. -/
theorem Follows.behind {floor : Nat} {post' : ParseState → ParseState → Prop} (h : Follows floor pre p p' rel post)
    (hknown : ∀ {s s' t t' a}, pre s s' → p s = .done a t → t.faults = [] → post t t' → post' t t') :
    Follows floor pre p p' rel post' where
  onwards := h.onwards
  agrees hs hdone hholds hne := by
    obtain ⟨a', t', hdone', ha, ht⟩ := h.agrees hs hdone hholds hne
    exact ⟨a', t', hdone', ha, hknown hs hdone hholds.clean ht⟩

/-- The last round of a loop. -/
theorem exists_last_round {bound : Nat} {a : α} {b : β} {s t : ParseState} (h : loopUpTo step bound a s = .done b t) :
    ∃ a' u, step a' u = .done (.inr b) t := by
  induction bound generalizing a s with
  | zero => cases h
  | succ bound ih =>
      rw [loopUpTo_round, bind_apply] at h
      cases hstep : step a s with
      | done r u =>
          rw [hstep] at h
          cases r with
          | inl a' => exact ih h
          | inr c =>
              cases h
              exact ⟨a, s, hstep⟩
      | failed u =>
          rw [hstep] at h
          cases h
      | exhausted =>
          rw [hstep] at h
          cases h

/-- Loops go round together, but that the first one may need one more round to get where the second one is. -/
theorem follows_loop_late [Serial rel] [Serial goal] {a a' : α} (ha : rel a a')
    (h : ∀ a a', rel a a' → Follows 0 pre (step a) (step' a') (Sum.LiftRel rel goal) (Either pre late))
    (hlate : ∀ {s s' t a r}, late s s' → step a s = .done r t → t.faults = [] → r = .inl a ∧ pre t s') :
    Follows 0 (Either pre late) (loop step a) (loop step' a') goal (Either pre late) := by
  have honwards := onwards_of_follows h
  have hloop : ∀ bound bound' a a', rel a a' →
      Follows 0 (Either pre late) (loopUpTo step bound a) (loopUpTo step' bound' a') goal (Either pre late) := by
    intro bound
    induction bound with
    | zero => exact fun _ _ _ _ => follows_exhausted
    | succ bound ih =>
        intro bound' a a' ha
        cases bound' with
        | zero => exact ⟨.loopUpTo honwards _ _, fun _ _ _ hne => absurd rfl hne⟩
        | succ bound' =>
            have hround : Follows 0 pre (step a >>= loopRest step bound) (step' a' >>= loopRest step' bound') goal
                (Either pre late) := by
              refine (h a a' ha).bind fun r r' hr => ?_
              cases hr with
              | inl ha => exact ih bound' _ _ ha
              | inr hb => exact .pure hb fun _ _ hs => hs
            refine ⟨.loopUpTo honwards _ _, fun {s s' t b} hs hdone hholds hne => ?_⟩
            rw [loopUpTo_round] at hdone
            obtain hs | hs := hs
            · rw [loopUpTo_round] at hne ⊢
              exact hround.agrees hs hdone hholds hne
            · rw [bind_apply] at hdone
              cases hstep : step a s with
              | done r u =>
                  rw [hstep] at hdone
                  have hclean : u.faults = [] := by
                    cases r with
                    | inl a₁ => exact ((Onwards.loopUpTo honwards bound a₁).of_done hdone).clean hholds.clean
                    | inr b₁ => exact ((onwards_pure b₁).of_done hdone).clean hholds.clean
                  obtain ⟨rfl, hu⟩ := hlate hs hstep hclean
                  exact (ih (bound' + 1) a a' ha).agrees (.inl hu) hdone hholds hne
              | failed u =>
                  rw [hstep] at hdone
                  cases hdone
              | exhausted =>
                  rw [hstep] at hdone
                  cases hdone
  exact ⟨fun s => Onwards.loopUpTo honwards _ a s, fun hs => (hloop _ _ a a' ha).agrees hs⟩

end late

/-! ## pairs of sources -/

/-- A word or a sign that is not for decorators. -/
structure Plain (k : TokenKind) : Prop where
  worded : k.isLayout = false
  ne_at : k ≠ .symbol .at

/-- Inside of a line, in front of a word or a sign. -/
abbrev AtWord (mid : ParseState → ParseState → Prop) (s s' : ParseState) : Prop :=
  mid s s' ∧ s.peek.kind.isLayout = false

/-- Any two values. -/
abbrev Any : α → α → Prop :=
  SameBy fun _ => ()

/-- Two sources that differ in one place. Behind it the first one may be late. -/
structure Pair (drop : Span → Bool) (mid seam late : ParseState → ParseState → Prop) : Prop where
  /-- No fault has been found. -/
  clean : ∀ {s s'}, Either (Either mid seam) late s s' → s.faults = [] ∧ s'.faults = []
  eof : ∀ {s s'}, mid s s' → s.eof.kind = .eof
  kind : ∀ {s s'}, mid s s' → s'.peek.kind = s.peek.kind
  word : ∀ {s s'}, AtWord mid s s' → mid s.advance s'.advance
  turn : ∀ {s s'}, mid s s' → Either mid seam s.advance s'.advance
  line : ∀ {α : Type} {p p' : Parser α} {rel : α → α → Prop}, Walks p (fun _ _ => True) → Mirrors p p' rel →
    Follows 0 mid p p' rel mid
  skipLine : Follows 0 (AtWord mid) skipLine skipLine Any mid
  /-- Refused statements elsewhere are not passed over. -/
  kept : ∀ {s s'}, AtWord mid s s' → ∀ t ∈ s.rest, drop (s.peek.span.merge t.span) = false
  plain : ∀ {s s'}, seam s s' → Plain s.peek.kind ∧ Plain s'.peek.kind
  /-- The first source has the end of an empty line ahead. -/
  empty : ∀ {s s'}, late s s' → s.peek.kind = .newline ∧ s.depth = 0 ∧ mid s.advance s'
  statement : ∀ bound bound', Agrees 0 seam (statementUpTo bound) (statementUpTo bound') (Passes drop)
    (Either (Either mid seam) late)
  chainRest : ∀ bound bound' more more', Agrees 0 seam (chainRest (statementUpTo bound) more)
    (chainRest (statementUpTo bound') more') (Else.Passes drop) (Either mid seam)
  loopElse : ∀ bound bound', Agrees 0 seam (loopElse (statementUpTo bound)) (loopElse (statementUpTo bound'))
    (Option.Rel (PassesAll drop)) (Either mid seam)
  definition : ∀ bound bound' {decorators decorators' : List Expr},
    SameBy (List.map Expr.spanless) decorators decorators' →
      Agrees 0 seam (definition (statementUpTo bound) decorators) (definition (statementUpTo bound') decorators')
        (Passes drop) (Either mid seam)
  skip : ∀ bound bound' depth, Agrees 0 seam (loopUpTo skipStep bound (depth + 1))
    (loopUpTo skipStep bound' (depth + 1)) Any (Either mid seam)
  tryStep : Agrees 0 seam tryStep tryStep (Sum.LiftRel Any Any) (Either mid seam)

namespace Pair

variable {mid seam late : ParseState → ParseState → Prop} {p p' : Parser α} {rel : α → α → Prop}
  {goal : β → β → Prop} {pre post : ParseState → ParseState → Prop}

theorem not_plain {k : TokenKind} (h : k.isLayout = true) : ¬ Plain k :=
  fun hplain => Bool.false_ne_true (hplain.worded.symm.trans h)

theorem recovered {statement statement' : Parser Stmt} (h : Follows 0 pre statement statement' (Passes drop) post) :
    Follows 0 pre (recovered statement) (recovered statement') (Option.Rel (Passes drop)) post := by
  unfold Parser.recovered
  refine h.attempt.bind_of_onwards (fun found => ?_) ?_
  · cases found with
    | some stmt => exact onwards_pure _
    | none =>
        unfold synchronize
        exact (onwards_skipClause.bind fun _ => onwards_pure _).bind fun _ => onwards_pure _
  · rintro _ _ ⟨stmt, stmt', rfl, rfl, hstmt⟩
    exact .pure (.some hstmt) fun _ _ hs => hs

theorem statementStep {statement statement' : Parser Stmt} {acc acc' : List Stmt} (hacc : PassesAll drop acc acc')
    (h : Follows 0 pre statement statement' (Passes drop) post) : Follows 0 pre (statementStep statement acc)
      (statementStep statement' acc') (Sum.LiftRel (PassesAll drop) (PassesAll drop)) post := by
  refine (recovered h).bind fun found found' hfound => ?_
  cases hfound with
  | none => exact .pure (.inl hacc) fun _ _ hs => hs
  | some hstmt => exact .pure (.inl (.cons hstmt hacc)) fun _ _ hs => hs

/-- There is no statement on an empty line. -/
theorem statement_ne_done {s : ParseState} (hkind : s.peek.kind = .newline) (hdepth : s.depth = 0) (bound : Nat)
    (stmt : Stmt) (t : ParseState) : Parser.statementUpTo bound s ≠ .done stmt t := by
  cases bound with
  | zero => exact nofun
  | succ bound =>
      have hsimple := (misses_simple (s := s) (by rw [hkind]; rfl) hdepth).ne_done stmt t
      rw [Parser.statementUpTo, Parser.statementWith, bind_apply]
      simp only [Parser.kind, hkind]
      exact hsimple

/-- Where there is no statement a fault is noted. -/
theorem faulty_of_recovered {statement : Parser Stmt} {s t : ParseState} {found : Option Stmt}
    (h : ∀ stmt u, statement s ≠ .done stmt u) (honwards : Onwards statement)
    (hdone : Parser.recovered statement s = .done found t) : t.faults ≠ [] := by
  have hs := honwards s
  unfold Parser.recovered at hdone
  rw [bind_apply, Parser.attempt] at hdone
  cases hstatement : statement s with
  | done stmt u => exact absurd hstatement (h stmt u)
  | failed u =>
      rw [hstatement] at hs hdone
      have honwards' : Onwards (synchronize >>= fun _ => pure (none : Option Stmt)) := by
        unfold synchronize
        exact (onwards_skipClause.bind fun _ => onwards_pure _).bind fun _ => onwards_pure _
      exact fun hclean => hs.2 ((honwards'.of_done hdone).clean hclean)
  | exhausted =>
      rw [hstatement] at hdone
      cases hdone

/-- There is no statement on an empty line in an indented block. -/
theorem faulty_of_blockStep {bound : Nat} {acc : List Stmt} {s t : ParseState} {r : List Stmt ⊕ List Stmt}
    (honwards : Onwards (Parser.statementUpTo bound)) (hkind : s.peek.kind = .newline) (hdepth : s.depth = 0)
    (hs : s.faults = []) (hdone : blockStep (Parser.statementUpTo bound) acc s = .done r t) : t.faults ≠ [] := by
  have hgoes : (s.peek.kind == .dedent || s.peek.kind == .eof || s.tooManyFaults) = false := by
    simp [hkind, ParseState.tooManyFaults, hs, maxDiagnostics]
  rw [blockStep_apply, if_neg (by simp [hgoes]), Parser.statementStep, bind_apply] at hdone
  cases hfound : Parser.recovered (Parser.statementUpTo bound) s with
  | done found u =>
      have hfaults := faulty_of_recovered (statement_ne_done hkind hdepth bound) honwards hfound
      rw [hfound] at hdone
      cases found <;> cases hdone <;> exact hfaults
  | failed u =>
      rw [hfound] at hdone
      cases hdone
  | exhausted =>
      rw [hfound] at hdone
      cases hdone

section

variable (hpair : Pair drop mid seam late)

include hpair

/-! ### between lines -/

/-- The end of a line or of a block is ahead on both sides, or on none. -/
theorem layout_iff {s s' : ParseState} {k : TokenKind} (hs : Either mid seam s s') (hk : ¬ Plain k) :
    s'.peek.kind = k ↔ s.peek.kind = k := by
  rcases hs with hs | hs
  · rw [hpair.kind hs]
  · obtain ⟨hone, hother⟩ := hpair.plain hs
    exact ⟨fun heq => absurd (heq ▸ hother) hk, fun heq => absurd (heq ▸ hone) hk⟩

theorem mid_of_layout {s s' : ParseState} {k : TokenKind} (hs : Either mid seam s s') (hk : ¬ Plain k)
    (hkind : s.peek.kind = k) : mid s s' :=
  hs.resolve_right fun hseam => hk (hkind ▸ (hpair.plain hseam).1)

/-- The end of a line or the like is used up. -/
theorem eat_layout {k : TokenKind} {f f' : Bool → Parser β} (hk : ¬ Plain k)
    (hyes : Follows 0 (Either mid seam) (f true) (f' true) goal post)
    (hno : Follows 0 (Either mid seam) (f false) (f' false) goal post) :
    Follows 0 (Either mid seam) (eat k >>= f) (eat k >>= f') goal post :=
  .eat (fun _ _ hs => hpair.layout_iff hs hk) (fun _ _ hs hkind _ => hpair.turn (hpair.mid_of_layout hs hk hkind)) hyes
    (hno.imp fun _ _ hs => hs.1)

theorem check_layout {k : TokenKind} {f f' : Bool → Parser β} (hk : ¬ Plain k)
    (h : ∀ found, Follows 0 (Either mid seam) (f found) (f' found) goal post) :
    Follows 0 (Either mid seam) (check k >>= f) (check k >>= f') goal post :=
  .check (fun _ _ hs => hpair.layout_iff hs hk) fun found => (h found).imp fun _ _ hs => hs.1

/-! ### inside of lines -/

/-- A word is used up. -/
theorem eat_word {k : TokenKind} {f f' : Bool → Parser β} (hk : k.isLayout = false)
    (hyes : Follows 0 mid (f true) (f' true) goal post) (hno : Follows 0 mid (f false) (f' false) goal post) :
    Follows 0 mid (eat k >>= f) (eat k >>= f') goal post :=
  .eat (fun _ _ hs => by rw [hpair.kind hs]) (fun _ _ hs hkind _ => hpair.word ⟨hs, hkind ▸ hk⟩) hyes
    (hno.imp fun _ _ hs => hs.1)

theorem expect_word {k : TokenKind} {f f' : Token → Parser β} (hk : k.isLayout = false)
    (h : ∀ t t', Follows 0 mid (f t) (f' t') goal post) : Follows 0 mid (expect k >>= f) (expect k >>= f') goal post :=
  .expect (fun _ _ hs hkind => (hpair.kind hs).trans hkind) (fun _ _ hs hkind _ => hpair.word ⟨hs, hkind ▸ hk⟩) h

/-- The word of a statement is used up. -/
theorem word_bind {f f' : Span → Token → Parser β}
    (h : ∀ start start' t t', Follows 0 mid (f start t) (f' start' t') goal post) :
    Follows 0 (AtWord mid) (here >>= fun start => advance >>= f start) (here >>= fun start => advance >>= f' start)
      goal post :=
  .here fun start start' => .advance (fun _ _ hs _ => hpair.word hs.1) (h start start')

theorem line_of_walks {post' : List Token → α → Prop} (h : Walks p post') (hmirrors : Mirrors p p' rel) :
    Follows 0 mid p p' rel mid :=
  hpair.line (h.mono fun _ _ _ => trivial) hmirrors

theorem lineEnd : Follows 0 mid lineEnd lineEnd Any (Either mid seam) where
  onwards := onwards_lineEnd
  agrees {s s' t a} hs hdone hholds _ := by
    have hkind := hpair.kind hs
    unfold Parser.lineEnd at hdone ⊢
    rw [hkind]
    cases hk : s.peek.kind with
    | newline =>
        rw [hk] at hdone
        cases hdone
        exact ⟨(), _, rfl, rfl, hpair.turn hs⟩
    | dedent | eof =>
        rw [hk] at hdone
        cases hdone
        exact ⟨(), _, rfl, rfl, .inl hs⟩
    | _ =>
        rw [hk] at hdone
        cases hdone
        cases hholds.clean

theorem simple : Follows 0 mid simple simple (Passes drop) (Either mid seam) := by
  unfold Parser.simple
  exact (hpair.line_of_walks walks_simpleBody mirrors_simpleBody).bind fun _ _ hstmt =>
    hpair.lineEnd.bind fun _ _ _ => .pure hstmt fun _ _ hs => hs

/-! ### skipping -/

theorem skipStep_mid (depth : Nat) : Follows 0 mid (skipStep (depth + 1)) (skipStep (depth + 1))
    (fun r r' => r' = r ∧ r ≠ .inl 0) (Either mid seam) := by
  have hpure : ∀ r : Nat ⊕ Unit, r ≠ .inl 0 → Follows 0 (Either mid seam) (pure r) (pure r)
      (fun r r' => r' = r ∧ r ≠ .inl 0) (Either mid seam) :=
    fun r hr => .pure ⟨rfl, hr⟩ fun _ _ hs => hs
  unfold skipStep
  refine .advance_kind (fun _ _ hs => hpair.kind hs) (fun _ _ hs _ => hpair.turn hs) fun t t' hkind => ?_
  rw [hkind]
  split
  · exact hpure _ (by simp)
  · split
    · exact hpure _ (by simp)
    · exact hpure _ (by simp; omega)
  · exact hpure _ (by simp)
  · exact hpure _ (by simp)

/-- Inside of a block that is skipped. -/
theorem skipInside (bound bound' depth : Nat) : Follows 0 (Either mid seam) (loopUpTo skipStep bound (depth + 1))
    (loopUpTo skipStep bound' (depth + 1)) Any (Either mid seam) := by
  induction bound generalizing bound' depth with
  | zero => exact follows_exhausted
  | succ bound ih =>
      have hround : ∀ bound', Follows 0 (Either mid seam) (loopUpTo skipStep (bound + 1) (depth + 1))
          (loopUpTo skipStep (bound' + 1) (depth + 1)) Any (Either mid seam) := by
        intro bound'
        refine .or ?_ (hpair.skip _ _ _)
        rw [funext (loopUpTo_succ skipStep bound _), funext (loopUpTo_succ skipStep bound' _)]
        refine (hpair.skipStep_mid depth).bind_of_onwards (fun r => ?_) ?_
        · cases r with
          | inl depth => exact Onwards.loopUpTo onwards_skipStep _ _
          | inr _ => exact onwards_pure _
        · rintro _ r ⟨rfl, hne⟩
          match r, hne with
          | .inl (depth + 1), _ => exact ih bound' depth
          | .inr _, _ => exact .pure rfl fun _ _ hs => hs
      cases bound' with
      | zero => exact (hround 0).cut
      | succ bound' => exact hround bound'

/-- A block is skipped. -/
theorem skipIndented :
    Follows 0 (fun s s' => Either mid seam s s' ∧ s.peek.kind = .indent) skipIndented skipIndented Any
      (Either mid seam) where
  onwards := onwards_skipIndented
  agrees {s s' t a} hs hdone hholds hne := by
    have hmid := hpair.mid_of_layout hs.1 (not_plain rfl) hs.2
    have hkind' := (hpair.kind hmid).trans hs.2
    have hfirst : ∀ u : ParseState, u.peek.kind = .indent →
        Parser.skipIndented u = loopUpTo skipStep u.rest.length 1 u.advance := by
      intro u hu
      rw [skipIndented_eq, loop, loopUpTo_succ, bind_apply, skipStep, bind_apply]
      simp only [Parser.advance, hu]
      rfl
    rw [hfirst s hs.2] at hdone
    rw [hfirst s' hkind'] at hne ⊢
    exact (hpair.skipInside _ _ 0).agrees (hpair.turn hmid) hdone hholds hne

theorem skipClause : Follows 0 (AtWord mid) skipClause skipClause Any (Either mid seam) := by
  have hblock : ∀ span span' : Span, Follows 0 (Either mid seam) (do
      if ← check .indent then Parser.skipIndented
      return span) (do
      if ← check .indent then Parser.skipIndented
      return span') Any (Either mid seam) := by
    intro span span'
    refine .check (fun _ _ hs => hpair.layout_iff hs (not_plain rfl)) fun found => ?_
    cases found with
    | false => exact .pure rfl fun _ _ hs => hs.1
    | true =>
        refine (hpair.skipIndented.imp fun _ _ hs => ⟨hs.1, beq_iff_eq.1 hs.2⟩).bind fun _ _ _ => ?_
        exact .pure rfl fun _ _ hs => hs
  unfold Parser.skipClause
  refine hpair.skipLine.bind fun span span' _ => ?_
  exact (hpair.eat_layout (not_plain rfl) (hblock _ _) (hblock _ _)).imp fun _ _ hs => .inl hs

theorem tryRest :
    Follows 0 (Either mid seam) (loop (fun _ => Parser.tryStep) ()) (loop (fun _ => Parser.tryStep) ()) Any
      (Either mid seam) := by
  refine .loop (show Any () () from rfl) fun _ _ _ => .or ?_ hpair.tryStep
  unfold Parser.tryStep
  refine .kind (fun _ _ hs => hpair.kind hs) fun k => ?_
  refine .ite (fun hk => ?_) fun _ => .pure (.inr rfl) fun _ _ hs => .inl hs.1
  have hword : k.isLayout = false := by
    cases k <;> first | rfl | cases hk
  refine Follows.bind (hpair.skipClause.imp fun _ _ hs => ⟨hs.1, hs.2 ▸ hword⟩) fun _ _ _ => ?_
  exact .pure (.inl rfl) fun _ _ hs => hs

theorem refused (stmt : RefusedStmt) :
    Follows 0 (AtWord mid) (refused stmt) (refused stmt) (Passes drop) (Either mid seam) := by
  rw [refused_eq]
  refine .here fun start start' => ?_
  have hkept : Follows 0 (fun s s' => AtWord mid s s' ∧ s.peek.span = start) Parser.skipClause Parser.skipClause
      (fun stop stop' => Any stop stop' ∧ drop (start.merge stop) = false) (Either mid seam) := by
    refine (hpair.skipClause.imp fun _ _ hs => hs.1).also fun {s s' t stop} hs hdone => ?_
    obtain ⟨u, hu, rfl⟩ := span_of_skipClause (hpair.eof hs.1.1) hs.1.2 hdone
    exact hs.2 ▸ hpair.kept hs.1 u hu
  refine hkept.bind_of_onwards (fun stop => onwards_refusedRest start stop stmt) fun stop stop' hstop => ?_
  refine Follows.bind ?_ fun (u u' : Unit) (_ : Any u u') => .pure (passes_refused hstop.2 stmt) fun _ _ hs => hs
  exact .ite (fun _ => hpair.tryRest) fun _ => .pure rfl fun _ _ hs => hs

/-! ### blocks -/

section blocks

variable {bound bound' : Nat}
  (hstatement : Follows 0 (Either mid seam) (statementUpTo bound) (statementUpTo bound') (Passes drop)
    (Either (Either mid seam) late))

include hstatement

theorem indentedBlock : Follows 0 (Either mid seam) (indentedBlock (statementUpTo bound))
    (indentedBlock (statementUpTo bound')) (PassesAll drop) (Either mid seam) := by
  have hround : ∀ acc acc', PassesAll drop acc acc' →
      Follows 0 (Either mid seam) (blockStep (Parser.statementUpTo bound) acc)
        (blockStep (Parser.statementUpTo bound') acc') (Sum.LiftRel (PassesAll drop) (PassesAll drop))
        (Either (Either mid seam) late) := by
    intro acc acc' hacc
    unfold blockStep
    refine hpair.check_layout (not_plain rfl) fun _ => hpair.check_layout (not_plain rfl) fun _ => ?_
    refine .tooManyFaults (fun _ _ hs => hpair.clean (.inl hs)) fun _ => .ite (fun _ => ?_) fun _ => ?_
    · exact .pure (.inr (List.rel_reverse hacc)) fun _ _ hs => .inl hs
    · exact statementStep hacc hstatement
  have hloop : Follows 0 (Either mid seam) (loop (blockStep (Parser.statementUpTo bound)) [])
      (loop (blockStep (Parser.statementUpTo bound')) []) (PassesAll drop) (Either mid seam) := by
    have hlate := follows_loop_late (show PassesAll drop [] [] from .nil) hround fun {s s' t a r} hs hstep hclean => by
      obtain ⟨hkind, hdepth, -⟩ := hpair.empty hs
      exact absurd hclean (faulty_of_blockStep hstatement.onwards hkind hdepth (hpair.clean (.inr hs)).1 hstep)
    refine (hlate.imp fun _ _ hs => .inl hs).behind fun {s s' t t' a} _ hdone hclean ht => ht.resolve_right fun hs => ?_
    obtain ⟨acc, u, hlast⟩ := exists_last_round hdone
    have hends := peek_of_blockStep hlast
    simp [(hpair.empty hs).1, ParseState.tooManyFaults, hclean, maxDiagnostics] at hends
  rw [indentedBlock_eq_loop, indentedBlock_eq_loop]
  refine hloop.bind fun body body' hbody => ?_
  have hdone : Follows 0 (Either mid seam) (Pure.pure body) (Pure.pure body') (PassesAll drop) (Either mid seam) :=
    .pure hbody fun _ _ hs => hs
  exact hpair.eat_layout (not_plain rfl) hdone hdone

theorem block : Follows 0 mid (block (statementUpTo bound)) (block (statementUpTo bound')) (PassesAll drop)
    (Either mid seam) := by
  unfold Parser.block
  refine hpair.expect_word rfl fun _ _ => .eat (fun _ _ hs => by rw [hpair.kind hs]) (fun _ _ hs _ _ => hpair.turn hs)
    (hpair.eat_layout (not_plain rfl) (hpair.indentedBlock hstatement) (follows_fail _)) ?_
  exact (hpair.simple.imp fun _ _ hs => hs.1).bind fun _ _ hstmt => .pure (.cons hstmt .nil) fun _ _ hs => hs

/-! ### compound statements -/

theorem function {decorators decorators' : List Expr}
    (hdecorators : SameBy (List.map Expr.spanless) decorators decorators') :
    Follows 0 (AtWord mid) (function (statementUpTo bound) decorators) (function (statementUpTo bound') decorators')
      (Passes drop) (Either mid seam) := by
  rw [function_eq, function_eq]
  refine hpair.word_bind fun _ _ _ _ => (hpair.line_of_walks walks_functionHead mirrors_functionHead).bind
    fun head head' hhead => (hpair.block hstatement).bind fun body body' hbody => .last fun _ _ =>
      .pure ?_ fun _ _ hs => hs
  obtain ⟨hname, hps⟩ := Prod.mk.inj hhead
  exact passes_function hname hps hdecorators hbody

theorem classDef {decorators decorators' : List Expr}
    (hdecorators : SameBy (List.map Expr.spanless) decorators decorators') :
    Follows 0 (AtWord mid) (classDef (statementUpTo bound) decorators) (classDef (statementUpTo bound') decorators')
      (Passes drop) (Either mid seam) := by
  rw [classDef_eq, classDef_eq]
  refine hpair.word_bind fun _ _ _ _ => (hpair.line_of_walks walks_classHead mirrors_classHead).bind
    fun head head' hhead => (hpair.block hstatement).bind fun body body' hbody => .last fun _ _ =>
      .pure ?_ fun _ _ hs => hs
  obtain ⟨hname, hbases⟩ := Prod.mk.inj hhead
  exact passes_class hname hbases hdecorators hbody

theorem decorated : Follows 0 (Either mid seam) (decorated (statementUpTo bound)) (decorated (statementUpTo bound'))
    (Passes drop) (Either mid seam) := by
  have hat : ¬ Plain (.symbol .at) := fun h => h.ne_at rfl
  rw [decorated_eq, decorated_eq]
  refine .loop_bind (SameBy.nil (f := Expr.spanless)) (fun acc acc' hacc => ?_)
    fun ds ds' (hds : SameBy (List.map Expr.spanless) ds ds') => ?_
  · refine .eat (fun _ _ hs => hpair.layout_iff hs hat)
      (fun _ _ hs hkind _ => hpair.word ⟨hpair.mid_of_layout hs hat hkind, hkind ▸ rfl⟩) ?_ ?_
    · refine (hpair.line_of_walks (walks_expressionAt .full) (mirrors_expressionAt .full)).bind fun e e' he => ?_
      exact hpair.lineEnd.bind fun _ _ _ => .pure (.inl (he.items hacc)) fun _ _ hs => hs
    · exact .pure (.inr hacc.reverse) fun _ _ hs => hs.1
  · refine .or ?_ (hpair.definition bound bound' hds)
    unfold Parser.definition
    refine .kind (fun _ _ hs => hpair.kind hs) fun k => ?_
    split
    · exact (hpair.function hstatement hds).imp fun _ _ hs => ⟨hs.1, hs.2 ▸ rfl⟩
    · exact (hpair.classDef hstatement hds).imp fun _ _ hs => ⟨hs.1, hs.2 ▸ rfl⟩
    · exact follows_fail _

/-- What follows the block of an `if`, given what an `elif` starts. -/
theorem chainRest_of {more more' : Nat} (hchain : Follows 0 (AtWord mid) (Parser.ifChainUpTo (statementUpTo bound) more)
    (Parser.ifChainUpTo (statementUpTo bound') more') (IfChain.Passes drop) (Either mid seam)) :
    Follows 0 mid (Parser.chainRest (statementUpTo bound) more) (Parser.chainRest (statementUpTo bound') more')
      (Else.Passes drop) (Either mid seam) := by
  unfold Parser.chainRest
  refine .kind (fun _ _ hs => hpair.kind hs) fun k => ?_
  split
  · refine Follows.bind (hchain.imp fun _ _ hs => ⟨hs.1, hs.2 ▸ rfl⟩) fun chain chain' hchain => ?_
    exact .pure (congrArg Else.elif hchain) fun _ _ hs => hs
  · refine .advance (fun _ _ hs _ => hpair.word ⟨hs.1, hs.2 ▸ rfl⟩) fun _ _ => ?_
    refine (hpair.block hstatement).bind fun body body' hbody => .pure ?_ fun _ _ hs => hs
    exact congrArg Else.block hbody.block
  · exact .pure rfl fun _ _ hs => .inl hs.1

theorem ifChainUpTo (more more' : Nat) : Follows 0 (AtWord mid) (ifChainUpTo (statementUpTo bound) more)
    (ifChainUpTo (statementUpTo bound') more') (IfChain.Passes drop) (Either mid seam) := by
  induction more generalizing more' with
  | zero => exact follows_exhausted
  | succ more ih =>
      have hround : ∀ more', Follows 0 (AtWord mid) (Parser.ifChainUpTo (statementUpTo bound) (more + 1))
          (Parser.ifChainUpTo (statementUpTo bound') (more' + 1)) (IfChain.Passes drop) (Either mid seam) := by
        intro more'
        rw [ifChainUpTo_succ, ifChainUpTo_succ]
        refine hpair.word_bind fun _ _ _ _ => (hpair.line_of_walks (walks_expressionAt .full)
          (mirrors_expressionAt .full)).bind fun condition condition' hcondition =>
            (hpair.block hstatement).bind fun body body' hbody => ?_
        refine ((hpair.chainRest_of hstatement (ih more')).or (hpair.chainRest _ _ _ _)).bind
          fun orelse orelse' horelse => .last fun _ _ => ?_
        exact .pure (passes_chain hcondition hbody horelse) fun _ _ hs => hs
      cases more' with
      | zero => exact (hround 0).cut
      | succ more' => exact hround more'

theorem loopElse_either : Follows 0 (Either mid seam) (Parser.loopElse (statementUpTo bound))
    (Parser.loopElse (statementUpTo bound')) (Option.Rel (PassesAll drop)) (Either mid seam) := by
  refine .or ?_ (hpair.loopElse bound bound')
  unfold Parser.loopElse
  refine hpair.eat_word rfl ?_ (.pure .none fun _ _ hs => .inl hs)
  exact (hpair.block hstatement).bind fun body body' hbody => .pure (.some hbody) fun _ _ hs => hs

theorem forLoop : Follows 0 (AtWord mid) (forLoop (statementUpTo bound)) (forLoop (statementUpTo bound')) (Passes drop)
    (Either mid seam) := by
  rw [forLoop_eq, forLoop_eq]
  refine hpair.word_bind fun _ _ _ _ => (hpair.line_of_walks walks_forHead mirrors_forHead).bind fun head head' hhead =>
    (hpair.block hstatement).bind fun body body' hbody => (hpair.loopElse_either hstatement).bind
      fun orelse orelse' horelse => .last fun _ _ => .pure ?_ fun _ _ hs => hs
  obtain ⟨htarget, hsource⟩ := Prod.mk.inj hhead
  exact passes_for htarget hsource hbody horelse

theorem whileLoop : Follows 0 (AtWord mid) (whileLoop (statementUpTo bound)) (whileLoop (statementUpTo bound'))
    (Passes drop) (Either mid seam) := by
  unfold Parser.whileLoop
  refine hpair.word_bind fun _ _ _ _ => (hpair.line_of_walks (walks_expressionAt .full)
    (mirrors_expressionAt .full)).bind fun condition condition' hcondition => (hpair.block hstatement).bind
      fun body body' hbody => (hpair.loopElse_either hstatement).bind fun orelse orelse' horelse => .last fun _ _ => ?_
  exact .pure (passes_while hcondition hbody horelse) fun _ _ hs => hs

theorem statementWith : Follows 0 mid (statementWith (statementUpTo bound)) (statementWith (statementUpTo bound'))
    (Passes drop) (Either mid seam) := by
  have hsimple : ∀ k : TokenKind, Follows 0 (fun s s' => mid s s' ∧ s.peek.kind = k) Parser.simple Parser.simple
      (Passes drop) (Either mid seam) :=
    fun k => hpair.simple.imp fun _ _ hs => hs.1
  unfold Parser.statementWith
  refine .kind (fun _ _ hs => hpair.kind hs) fun k => ?_
  split
  · exact (hpair.function hstatement rfl).imp fun _ _ hs => ⟨hs.1, hs.2 ▸ rfl⟩
  · exact (hpair.classDef hstatement rfl).imp fun _ _ hs => ⟨hs.1, hs.2 ▸ rfl⟩
  · exact (hpair.decorated hstatement).imp fun _ _ hs => .inl hs.1
  · have hchain := Follows.bounded fun more more' => hpair.ifChainUpTo hstatement more more'
    refine Follows.bind (hchain.imp fun _ _ hs => ⟨hs.1, hs.2 ▸ rfl⟩) fun chain chain' h => ?_
    exact .pure (congrArg Stmt.if_ h) fun _ _ hs => hs
  · exact (hpair.forLoop hstatement).imp fun _ _ hs => ⟨hs.1, hs.2 ▸ rfl⟩
  · exact (hpair.whileLoop hstatement).imp fun _ _ hs => ⟨hs.1, hs.2 ▸ rfl⟩
  · rename_i word
    cases RefusedStmt.ofWord? word with
    | some stmt => exact (hpair.refused stmt).imp fun _ _ hs => ⟨hs.1, hs.2 ▸ rfl⟩
    | none => exact .ite (fun _ => hsimple _) fun _ => follows_fail _
  · exact hsimple _

end blocks

/-- Statements are read side by side. -/
theorem statementUpTo (bound bound' : Nat) : Follows 0 (Either mid seam) (statementUpTo bound) (statementUpTo bound')
    (Passes drop) (Either (Either mid seam) late) := by
  induction bound generalizing bound' with
  | zero => exact follows_exhausted
  | succ bound ih =>
      have hround : ∀ bound', Follows 0 (Either mid seam) (Parser.statementUpTo (bound + 1))
          (Parser.statementUpTo (bound' + 1)) (Passes drop) (Either (Either mid seam) late) := by
        intro bound'
        have hmid : Follows 0 mid (Parser.statementUpTo (bound + 1)) (Parser.statementUpTo (bound' + 1)) (Passes drop)
            (Either (Either mid seam) late) :=
          (hpair.statementWith (ih bound')).mono (fun _ _ hs => hs) (fun _ _ ha => ha) fun _ _ hs => .inl hs
        exact hmid.or (hpair.statement (bound + 1) (bound' + 1))
      cases bound' with
      | zero => exact (hround 0).cut
      | succ bound' => exact hround bound'

/-- A statement of a source. -/
theorem statement_either : Follows 0 (Either mid seam) Parser.statement Parser.statement (Passes drop)
    (Either (Either mid seam) late) :=
  .bounded hpair.statementUpTo

theorem moduleStep {acc acc' : List Stmt} (hacc : PassesAll drop acc acc') :
    Follows 0 (Either mid seam) (moduleStep acc) (moduleStep acc') (Sum.LiftRel (PassesAll drop) (PassesAll drop))
      (Either (Either mid seam) late) := by
  unfold Parser.moduleStep
  refine hpair.check_layout (not_plain rfl) fun _ => .tooManyFaults (fun _ _ hs => hpair.clean (.inl hs)) fun _ =>
    .ite (fun _ => .pure (.inr (List.rel_reverse hacc)) fun _ _ hs => .inl hs) fun _ => ?_
  have hround := statementStep hacc hpair.statement_either
  have hdone : Follows 0 (Either mid seam) (Pure.pure (.inl acc)) (Pure.pure (.inl acc'))
      (Sum.LiftRel (PassesAll drop) (PassesAll drop)) (Either (Either mid seam) late) :=
    .pure (.inl hacc) fun _ _ hs => .inl hs
  refine .kind_or (fun _ _ hs => hpair.kind hs) (fun k => ?_) (fun s s' hs => ?_) (hround.imp fun _ _ hs => .inr hs)
  · split
    · exact .advance (fun _ _ hs _ => hpair.turn hs.1) fun _ _ => hdone
    · exact .reported (onwards_skipIndented.bind fun _ => onwards_pure _)
    · exact .advance (fun _ _ hs _ => hpair.turn hs.1) fun _ _ => hdone
    · exact hround.imp fun _ _ hs => .inl hs.1
  · obtain ⟨hone, hother⟩ := hpair.plain hs
    constructor
    · split
      case h_4 => rfl
      all_goals exact absurd (‹s.peek.kind = _› ▸ hone) (not_plain rfl)
    · split
      case h_4 => rfl
      all_goals exact absurd (‹s'.peek.kind = _› ▸ hother) (not_plain rfl)

/-- Two sources are read side by side. -/
theorem module : Follows 0 (Either mid seam) module_ module_ (fun m m' => m'.spanless = (m.passing drop).spanless)
    (Either (Either mid seam) late) := by
  have hloop : Follows 0 (Either mid seam) (loop Parser.moduleStep []) (loop Parser.moduleStep []) (PassesAll drop)
      (Either (Either mid seam) late) := by
    refine (follows_loop_late (show PassesAll drop [] [] from .nil) (fun _ _ hacc => hpair.moduleStep hacc)
      fun {s s' t a r} hs hstep _ => ?_).imp fun _ _ hs => .inl hs
    obtain ⟨hkind, -, hmid⟩ := hpair.empty hs
    cases (moduleStep_newline hkind (hpair.clean (.inr hs)).1 a).symm.trans hstep
    exact ⟨rfl, .inl hmid⟩
  rw [module_eq_loop]
  refine .here fun _ _ => Follows.imp (hloop.bind fun body body' hbody => .last fun _ _ => ?_) fun _ _ hs => hs.1
  exact .pure hbody.module fun _ _ hs => hs

end

end Pair

end ViewSync.Parser
