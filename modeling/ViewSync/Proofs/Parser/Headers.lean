import ViewSync.Proofs.Parser.Skipping

/-!
# ViewSync.Proofs.Parser.Headers

The headers of blocks: what stands in front of the colon. A header is read up to the colon whatever is behind it
(`ReadsHead.follows`), so two sources that differ from a colon on go on alike if the two blocks do (`seam_of_header`).
-/

namespace ViewSync

/-- A state in front of some tokens, between expressions, in which no fault has been found. -/
structure ParseState.Ready (s : ParseState) (tokens : List Token) : Prop where
  rest : s.rest = tokens
  eof : s.eof.kind = .eof
  depth : s.depth = 0
  clean : s.faults = []

namespace ParseState

variable {s s' : ParseState} {tail tail' more : List Token} {t : Token}

theorem atSeam_iff : AtSeam tail tail' s s' ↔ s.Ready tail ∧ s'.Ready tail' :=
  ⟨fun h => ⟨⟨h.rest, h.eof, h.depth, h.clean⟩, h.rest', h.eof', h.depth', h.clean'⟩, fun ⟨h, h'⟩ =>
    ⟨⟨h.eof, h'.eof, h.depth, h'.depth, h.clean, h'.clean⟩, h.rest, h'.rest⟩⟩

theorem Ready.behind (h : s.Ready tail) (hs : s'.Behind s more) : s'.Ready more :=
  ⟨hs.rest, hs.eof ▸ h.eof, hs.depth.trans h.depth, hs.faults.trans h.clean⟩

theorem Ready.advance (h : s.Ready (t :: more)) : s.advance.Ready more :=
  h.behind (behind_advance h.rest)

theorem Ready.peek (h : s.Ready (t :: more)) : s.peek = t := by
  rw [ParseState.peek, h.rest]
  rfl

end ParseState

namespace Parser

open ParseState

variable {α β δ : Type} {drop : Span → Bool}

/-- Tokens of the given kinds, all at one place. -/
def unplaced (kinds : List TokenKind) : List Token :=
  kinds.map (⟨·, .origin⟩)

/-- A parser reads tokens of the given kinds in front of a colon, and all of them. -/
def ReadsHead (p : Parser α) (kinds : List TokenKind) : Prop :=
  ∃ a t, p (.start (unplaced (kinds ++ [.symbol .colon]))) = .done a t ∧ t.faults = [] ∧ t.rest.length = 1

/-- The headers of blocks: their words, and what stands between the word and the colon. -/
inductive Heads : Keyword → List TokenKind → Prop where
  | condition {word : Keyword} {kinds : List TokenKind} : word = .if_ ∨ word = .elif ∨ word = .while_ →
      ReadsHead expression kinds → Heads word kinds
  | otherwise : Heads .else_ []
  | loop {kinds : List TokenKind} : ReadsHead forHead kinds → Heads .for_ kinds
  | function {kinds : List TokenKind} : ReadsHead functionHead kinds → Heads .def_ kinds
  | class_ {kinds : List TokenKind} : ReadsHead classHead kinds → Heads .class_ kinds

/-! ## reading a header -/

/-- A block is ahead, from its colon on. -/
def FromColon (tail : List Token) : Prop :=
  ∃ colon rest, tail = colon :: rest ∧ colon.kind = .symbol .colon

section

variable {p : Parser α} {f : α → δ} {kinds : List TokenKind}

/-- The same is read wherever the header stands. -/
theorem ReadsHead.at (h : ReadsHead p kinds) (hmirrors : Mirrors p p (SameBy f)) :
    ∃ d, ∀ {s : ParseState} {head tail : List Token}, FromColon tail → s.Ready (head ++ tail) →
      head.map (·.kind) = kinds → p s ≠ .exhausted → ∃ a t, p s = .done a t ∧ f a = d ∧ t.Ready tail := by
  obtain ⟨a, t, hdone, hclean, hlength⟩ := h
  refine ⟨f a, fun {s head tail} htail hs hhead hne => ?_⟩
  obtain ⟨colon, rest, rfl, hcolon⟩ := htail
  have hline : ParseState.Abreast [⟨.symbol .colon, .origin⟩] (colon :: rest)
      (.start (unplaced (kinds ++ [.symbol .colon]))) s := by
    refine ⟨.cons hcolon (.inr rfl), ⟨unplaced kinds, head, List.map_append, hs.rest, ?_⟩, rfl, hs.eof, hs.depth, rfl,
      hs.clean⟩
    rw [hhead, unplaced, List.map_map]
    exact (List.map_id kinds).symm
  have honward := (hmirrors [] []).onwards.of_done hdone
  obtain ⟨a', t', hdone', hsame, ht⟩ := (hmirrors _ _).agrees hline hdone ⟨hclean, Nat.le_of_eq hlength.symm⟩ hne
  obtain ⟨used, used', hrest, hrest', hkinds⟩ := ht.ahead
  have hused : used = [] := by
    rw [hrest, List.length_append, List.length_singleton] at hlength
    exact List.length_eq_zero_iff.1 (Nat.succ_inj.1 hlength)
  rw [hused] at hkinds
  cases List.map_eq_nil_iff.1 hkinds
  exact ⟨a', t', hdone', hsame, hrest', ht.eof', ht.depth.trans honward.depth, ht.clean'⟩

/-- It is read side by side, then. -/
theorem ReadsHead.follows (h : ReadsHead p kinds) (hmirrors : Mirrors p p (SameBy f))
    {head head' tail tail' : List Token}
    (hhead : head.map (·.kind) = kinds) (hhead' : head'.map (·.kind) = kinds) (htail : FromColon tail)
    (htail' : FromColon tail') :
    Follows 0 (AtSeam (head ++ tail) (head' ++ tail')) p p (SameBy f) (AtSeam tail tail') where
  onwards := (hmirrors [] []).onwards
  agrees {s s' t a} hs hdone _ hne := by
    obtain ⟨d, hreads⟩ := h.at hmirrors
    obtain ⟨hs, hs'⟩ := atSeam_iff.1 hs
    obtain ⟨b, u, hone, hb, hu⟩ := hreads htail hs hhead (hdone ▸ nofun)
    obtain ⟨b', u', hother, hb', hu'⟩ := hreads htail' hs' hhead' hne
    cases hone.symm.trans hdone
    exact ⟨b', u', hother, hb'.trans hb.symm, atSeam_iff.2 ⟨hu, hu'⟩⟩

/-- A header has words and signs only. -/
theorem ReadsHead.worded (h : ReadsHead p kinds) (hwalks : Walks p fun _ _ => True) :
    ∀ k ∈ kinds, k.isLayout = false := by
  obtain ⟨a, t, hdone, -, hlength⟩ := h
  have hwalk := hwalks (.start (unplaced (kinds ++ [.symbol .colon]))) rfl
  rw [hdone] at hwalk
  obtain ⟨used, hwalk, -⟩ := hwalk
  obtain ⟨last, hlast⟩ := List.length_eq_one_iff.1 hlength
  have hrest : unplaced kinds ++ unplaced [.symbol .colon] = used ++ [last] := by
    rw [← hlast, ← hwalk.rest, unplaced, unplaced, ← List.map_append]
    rfl
  intro k hk
  have hmem : (⟨k, .origin⟩ : Token) ∈ used := by
    rw [← (List.append_inj' hrest rfl).1]
    exact List.mem_map_of_mem hk
  exact hwalk.worded _ hmem

theorem Heads.worded {word : Keyword} (h : Heads word kinds) : ∀ k ∈ kinds, k.isLayout = false := by
  cases h with
  | otherwise => exact nofun
  | condition _ h => exact h.worded ((walks_expressionAt .full).mono fun _ _ _ => trivial)
  | loop h => exact h.worded walks_forHead
  | function h => exact h.worded walks_functionHead
  | class_ h => exact h.worded walks_classHead

end

/-! ## blocks behind headers -/

/-- Two blocks are read side by side, each from its colon on. -/
structure Blocks (drop : Span → Bool) (tail tail' : List Token) : Prop where
  colon : FromColon tail
  colon' : FromColon tail'
  follows : ∀ bound bound', Follows 0 (AtSeam tail tail') (block (statementUpTo bound)) (block (statementUpTo bound'))
    (PassesAll drop) (Past drop)

section

variable {w w' : Token} {head head' tail tail' : List Token} {kinds : List TokenKind} {bound bound' : Nat}

theorem follows_word {f f' : Span → Token → Parser β} {goal : β → β → Prop} {post : ParseState → ParseState → Prop}
    (h : ∀ start start' t t', Follows 0 (AtSeam tail tail') (f start t) (f' start' t') goal post) :
    Follows 0 (AtSeam (w :: tail) (w' :: tail')) (here >>= fun start => advance >>= f start)
      (here >>= fun start => advance >>= f' start) goal post := by
  refine .here fun start start' => .advance (fun s s' hs _ => ?_) (h start start')
  obtain ⟨hs, hs'⟩ := atSeam_iff.1 hs.1
  exact atSeam_iff.2 ⟨hs.advance, hs'.advance⟩

theorem Follows.past {p p' : Parser α} {rel : α → α → Prop}
    (h : Follows 0 (Either (Past drop) fun _ _ => False) p p' rel (Either (Past drop) fun _ _ => False)) :
    Follows 0 (Past drop) p p' rel (Past drop) :=
  h.mono (fun _ _ hs => .inl hs) (fun _ _ ha => ha) fun _ _ ht => ht.resolve_right id

variable (hblocks : Blocks drop tail tail') (hhead : head.map (·.kind) = kinds) (hhead' : head'.map (·.kind) = kinds)

include hblocks hhead hhead'

theorem Blocks.function (h : ReadsHead functionHead kinds) {decorators decorators' : List Expr}
    (hdecorators : SameBy (List.map Expr.spanless) decorators decorators') :
    Follows 0 (AtSeam (w :: (head ++ tail)) (w' :: (head' ++ tail'))) (function (statementUpTo bound) decorators)
      (function (statementUpTo bound') decorators') (Passes drop) (Past drop) := by
  rw [function_eq, function_eq]
  refine follows_word fun _ _ _ _ => (h.follows mirrors_functionHead hhead hhead' hblocks.colon hblocks.colon').bind
    fun head head' hsame => (hblocks.follows _ _).bind fun body body' hbody => .last fun _ _ =>
      .pure ?_ fun _ _ hs => hs
  obtain ⟨hname, hps⟩ := Prod.mk.inj hsame
  exact passes_function hname hps hdecorators hbody

theorem Blocks.classDef (h : ReadsHead classHead kinds) {decorators decorators' : List Expr}
    (hdecorators : SameBy (List.map Expr.spanless) decorators decorators') :
    Follows 0 (AtSeam (w :: (head ++ tail)) (w' :: (head' ++ tail'))) (classDef (statementUpTo bound) decorators)
      (classDef (statementUpTo bound') decorators') (Passes drop) (Past drop) := by
  rw [classDef_eq, classDef_eq]
  refine follows_word fun _ _ _ _ => (h.follows mirrors_classHead hhead hhead' hblocks.colon hblocks.colon').bind
    fun head head' hsame => (hblocks.follows _ _).bind fun body body' hbody => .last fun _ _ =>
      .pure ?_ fun _ _ hs => hs
  obtain ⟨hname, hbases⟩ := Prod.mk.inj hsame
  exact passes_class hname hbases hdecorators hbody

theorem Blocks.forLoop (h : ReadsHead forHead kinds) :
    Follows 0 (AtSeam (w :: (head ++ tail)) (w' :: (head' ++ tail'))) (forLoop (statementUpTo bound))
      (forLoop (statementUpTo bound')) (Passes drop) (Past drop) := by
  have hpast := pair_past drop
  rw [forLoop_eq, forLoop_eq]
  refine follows_word fun _ _ _ _ => (h.follows mirrors_forHead hhead hhead' hblocks.colon hblocks.colon').bind
    fun head head' hsame => (hblocks.follows _ _).bind fun body body' hbody =>
      (hpast.loopElse_either (hpast.statementUpTo _ _)).past.bind fun orelse orelse' horelse => .last fun _ _ =>
        .pure ?_ fun _ _ hs => hs
  obtain ⟨htarget, hsource⟩ := Prod.mk.inj hsame
  exact passes_for htarget hsource hbody horelse

theorem Blocks.whileLoop (h : ReadsHead expression kinds) :
    Follows 0 (AtSeam (w :: (head ++ tail)) (w' :: (head' ++ tail'))) (whileLoop (statementUpTo bound))
      (whileLoop (statementUpTo bound')) (Passes drop) (Past drop) := by
  have hpast := pair_past drop
  unfold Parser.whileLoop
  refine follows_word fun _ _ _ _ => (h.follows (mirrors_expressionAt .full) hhead hhead' hblocks.colon
    hblocks.colon').bind fun condition condition' hcondition => (hblocks.follows _ _).bind fun body body' hbody =>
      (hpast.loopElse_either (hpast.statementUpTo _ _)).past.bind fun orelse orelse' horelse => .last fun _ _ => ?_
  exact .pure (passes_while hcondition hbody horelse) fun _ _ hs => hs

theorem Blocks.ifChainUpTo (h : ReadsHead expression kinds) (more more' : Nat) :
    Follows 0 (AtSeam (w :: (head ++ tail)) (w' :: (head' ++ tail'))) (ifChainUpTo (statementUpTo bound) more)
      (ifChainUpTo (statementUpTo bound') more') (IfChain.Passes drop) (Past drop) := by
  have hpast := pair_past drop
  have hround : ∀ more more', Follows 0 (AtSeam (w :: (head ++ tail)) (w' :: (head' ++ tail')))
      (Parser.ifChainUpTo (statementUpTo bound) (more + 1)) (Parser.ifChainUpTo (statementUpTo bound') (more' + 1))
        (IfChain.Passes drop) (Past drop) := by
    intro more more'
    have hst := hpast.statementUpTo bound bound'
    have hchain := hpast.chainRest_of hst (hpast.ifChainUpTo hst more more')
    rw [ifChainUpTo_succ, ifChainUpTo_succ]
    refine follows_word fun _ _ _ _ => (h.follows (mirrors_expressionAt .full) hhead hhead' hblocks.colon
      hblocks.colon').bind fun condition condition' hcondition => (hblocks.follows _ _).bind fun body body' hbody =>
        (hchain.imp fun _ _ hs => hs).bind fun orelse orelse' horelse => .last fun _ _ => ?_
    exact .pure (passes_chain hcondition hbody horelse) fun _ _ ht => ht.resolve_right id
  cases more with
  | zero => exact follows_exhausted
  | succ more =>
      cases more' with
      | zero => exact (hround more 0).cut
      | succ more' => exact hround more more'

end

/-! ## what is at the place of a header -/

section

variable {pre post post' : ParseState → ParseState → Prop} {p p' : Parser α} {rel : α → α → Prop}

theorem Follows.all (h : Follows 0 pre p p' rel post) : Agrees 0 pre p p' rel post := by
  intro s s' t a
  exact h.agrees

/-- What is done where certain tokens are known to be ahead. -/
theorem agrees_kind {k k' : TokenKind} {f f' : TokenKind → Parser α}
    (hkind : ∀ s s', pre s s' → s.peek.kind = k ∧ s'.peek.kind = k') (h : Agrees 0 pre (f k) (f' k') rel post) :
    Agrees 0 pre (kind >>= f) (kind >>= f') rel post := by
  intro s s' t a hs hdone hholds hne
  have hone : (kind >>= f) s = f k s := congrArg (f · s) (hkind s s' hs).1
  have hother : (kind >>= f') s' = f' k' s' := congrArg (f' · s') (hkind s s' hs).2
  rw [hone] at hdone
  rw [hother] at hne ⊢
  exact h s s' t a hs hdone hholds hne

theorem agrees_of_misses (h : ∀ s s', pre s s' → Misses p s) : Agrees 0 pre p p' rel post := by
  intro s s' t a hs hdone
  exact absurd hdone ((h s s' hs).ne_done a t)

theorem agrees_fail (cause : ParseError) : Agrees 0 pre (fail cause) p' rel post :=
  (follows_fail cause).all

end

theorem peek_of_atSeam {w w' : Token} {tail tail' : List Token} {k k' : TokenKind} (hw : w.kind = k)
    (hw' : w'.kind = k') : ∀ s s', AtSeam (w :: tail) (w' :: tail') s s' → s.peek.kind = k ∧ s'.peek.kind = k' := by
  intro s s' hs
  obtain ⟨hs, hs'⟩ := atSeam_iff.1 hs
  rw [hs.peek, hs'.peek]
  exact ⟨hw, hw'⟩

section

variable {word : Keyword} {w w' : Token} {head head' tail tail' : List Token} {kinds : List TokenKind}
  (h : Heads word kinds) (hw : w.kind = .keyword word) (hw' : w'.kind = .keyword word)
  (hhead : head.map (·.kind) = kinds) (hhead' : head'.map (·.kind) = kinds) (hblocks : Blocks drop tail tail')

include h hw hw' hhead hhead' hblocks

theorem Heads.statement (bound bound' : Nat) : Agrees 0 (AtSeam (w :: (head ++ tail)) (w' :: (head' ++ tail')))
    (statementUpTo bound) (statementUpTo bound') (Passes drop) (Past drop) := by
  have hpeek := @peek_of_atSeam w w' (head ++ tail) (head' ++ tail') _ _ hw hw'
  have hround : ∀ bound bound', Agrees 0 (AtSeam (w :: (head ++ tail)) (w' :: (head' ++ tail')))
      (statementWith (statementUpTo bound)) (statementWith (statementUpTo bound')) (Passes drop) (Past drop) := by
    intro bound bound'
    unfold statementWith
    refine agrees_kind hpeek ?_
    cases h with
    | condition hword hreads =>
        rcases hword with rfl | rfl | rfl
        · have hchain := Follows.bounded (@Blocks.ifChainUpTo _ w w' _ _ _ _ _ bound bound' hblocks hhead hhead' hreads)
          refine Follows.all (.bind hchain fun chain chain' hsame => ?_)
          exact .pure (congrArg Stmt.if_ hsame) fun _ _ ht => ht
        · refine agrees_of_misses fun s s' hs => misses_simple ?_ hs.depth
          rw [(hpeek s s' hs).1]
          rfl
        · exact (hblocks.whileLoop hhead hhead' hreads).all
    | otherwise =>
        refine agrees_of_misses fun s s' hs => misses_simple ?_ hs.depth
        rw [(hpeek s s' hs).1]
        rfl
    | loop hreads => exact (hblocks.forLoop hhead hhead' hreads).all
    | function hreads => exact (hblocks.function hhead hhead' hreads rfl).all
    | class_ hreads => exact (hblocks.classDef hhead hhead' hreads rfl).all
  cases bound with
  | zero => exact follows_exhausted.all
  | succ bound =>
      cases bound' with
      | zero => exact fun s s' t a _ _ _ hne => absurd rfl hne
      | succ bound' => exact hround bound bound'

theorem Heads.chainRest (bound bound' more more' : Nat) :
    Agrees 0 (AtSeam (w :: (head ++ tail)) (w' :: (head' ++ tail'))) (chainRest (statementUpTo bound) more)
      (chainRest (statementUpTo bound') more') (Else.Passes drop)
        (Either (Past drop) (AtSeam (w :: (head ++ tail)) (w' :: (head' ++ tail')))) := by
  have hnothing : Agrees 0 (AtSeam (w :: (head ++ tail)) (w' :: (head' ++ tail'))) (pure Else.nothing)
      (pure Else.nothing) (Else.Passes drop)
        (Either (Past drop) (AtSeam (w :: (head ++ tail)) (w' :: (head' ++ tail')))) :=
    Follows.all (.pure rfl fun _ _ hs => .inr hs)
  unfold Parser.chainRest
  refine agrees_kind (peek_of_atSeam hw hw') ?_
  cases h with
  | condition hword hreads =>
      rcases hword with rfl | rfl | rfl
      · exact hnothing
      · have hchain := @Blocks.ifChainUpTo _ w w' _ _ _ _ _ bound bound' hblocks hhead hhead' hreads more more'
        refine Follows.all (.bind hchain fun chain chain' hsame => ?_)
        exact .pure (congrArg Else.elif hsame) fun _ _ ht => .inl ht
      · exact hnothing
  | otherwise =>
      cases List.map_eq_nil_iff.1 hhead
      cases List.map_eq_nil_iff.1 hhead'
      refine Follows.all (.advance (fun s s' hs _ => ?_) fun _ _ => (hblocks.follows bound bound').bind
        fun body body' hbody => .pure (congrArg Else.block hbody.block) fun _ _ ht => .inl ht)
      obtain ⟨hs, hs'⟩ := atSeam_iff.1 hs
      exact atSeam_iff.2 ⟨hs.advance, hs'.advance⟩
  | loop | function | class_ => exact hnothing

theorem Heads.loopElse (bound bound' : Nat) :
    Agrees 0 (AtSeam (w :: (head ++ tail)) (w' :: (head' ++ tail'))) (loopElse (statementUpTo bound))
      (loopElse (statementUpTo bound')) (Option.Rel (PassesAll drop))
        (Either (Past drop) (AtSeam (w :: (head ++ tail)) (w' :: (head' ++ tail')))) := by
  have hpeek := @peek_of_atSeam w w' (head ++ tail) (head' ++ tail') _ _ hw hw'
  have hadvance : ∀ s s', AtSeam (w :: (head ++ tail)) (w' :: (head' ++ tail')) s s' →
      s.peek.kind = .keyword .else_ → AtSeam tail tail' s.advance s'.advance := by
    intro s s' hs hkind
    rw [(hpeek s s' hs).1] at hkind
    cases hkind
    have hnone : kinds = [] := by
      cases h with
      | condition hword => rcases hword with h | h | h <;> cases h
      | otherwise => rfl
    rw [hnone] at hhead hhead'
    cases List.map_eq_nil_iff.1 hhead
    cases List.map_eq_nil_iff.1 hhead'
    obtain ⟨hs, hs'⟩ := atSeam_iff.1 hs
    exact atSeam_iff.2 ⟨hs.advance, hs'.advance⟩
  unfold Parser.loopElse
  refine Follows.all (.eat (fun s s' hs => ?_) (fun s s' hs hkind _ => hadvance s s' hs hkind)
    ((hblocks.follows bound bound').bind fun body body' hbody => ?_) (.pure .none fun _ _ hs => .inr hs.1))
  · rw [(hpeek s s' hs).1, (hpeek s s' hs).2]
  · exact .pure (.some hbody) fun _ _ ht => .inl ht

theorem Heads.definition (bound bound' : Nat) {decorators decorators' : List Expr}
    (hdecorators : SameBy (List.map Expr.spanless) decorators decorators') :
    Agrees 0 (AtSeam (w :: (head ++ tail)) (w' :: (head' ++ tail'))) (definition (statementUpTo bound) decorators)
      (definition (statementUpTo bound') decorators') (Passes drop) (Past drop) := by
  unfold Parser.definition
  refine agrees_kind (peek_of_atSeam hw hw') ?_
  cases h with
  | condition hword _ => rcases hword with rfl | rfl | rfl <;> exact agrees_fail _
  | otherwise | loop => exact agrees_fail _
  | function hreads => exact (hblocks.function hhead hhead' hreads hdecorators).all
  | class_ hreads => exact (hblocks.classDef hhead hhead' hreads hdecorators).all

end

/-! ## two sources that differ from a colon on -/

variable {word : Keyword} {w w' : Token} {head head' body body' back back' : List Token} {kinds : List TokenKind}

/-- A clause behind a `try` is skipped on both sides. -/
theorem agrees_tryStep {k : TokenKind} {used used' : List Token} (hback : Alike drop back back')
    (hpeek : ∀ s s', AtSeam (used ++ back) (used' ++ back') s s' → s.peek.kind = k ∧ s'.peek.kind = k)
    (hused : Clause (used.map (·.kind))) (hused' : Clause (used'.map (·.kind))) :
    Agrees 0 (AtSeam (used ++ back) (used' ++ back')) tryStep tryStep (Sum.LiftRel Any Any)
      (Either (Past drop) (AtSeam (used ++ back) (used' ++ back'))) := by
  unfold tryStep
  refine agrees_kind hpeek ?_
  split
  · have hskipped : Follows 0 (AtSeam (used ++ back) (used' ++ back')) skipClause skipClause Any (Past drop) :=
      ⟨onwards_skipClause, fun hs => agrees_skipClause hback hused hused' _ _ _ _ hs⟩
    exact (hskipped.bind fun _ _ _ => .pure (.inl rfl) fun _ _ ht => .inl ht).all
  · exact Follows.all (.pure (.inr rfl) fun _ _ hs => .inr hs)

/-- Two blocks behind a header. -/
theorem seam_of_header (h : Heads word kinds) (hw : w.kind = .keyword word) (hw' : w'.kind = .keyword word)
    (hhead : head.map (·.kind) = kinds) (hhead' : head'.map (·.kind) = kinds)
    (hblocks : Blocks drop (body ++ back) (body' ++ back')) (hback : Alike drop back back')
    (hclause : Clause ((w :: (head ++ body)).map (·.kind)))
    (hclause' : Clause ((w' :: (head' ++ body')).map (·.kind))) :
    Seam drop (w :: (head ++ (body ++ back))) (w' :: (head' ++ (body' ++ back'))) where
  plain hs := by
    obtain ⟨hone, hother⟩ := peek_of_atSeam hw hw' _ _ hs
    rw [hone, hother]
    exact ⟨⟨rfl, nofun⟩, rfl, nofun⟩
  statement bound bound' := (h.statement hw hw' hhead hhead' hblocks bound bound').weaken fun _ _ ht => .inl ht
  chainRest := h.chainRest hw hw' hhead hhead' hblocks
  loopElse := h.loopElse hw hw' hhead hhead' hblocks
  definition bound bound' _ _ hds := h.definition hw hw' hhead hhead' hblocks bound bound' hds
  skip bound bound' depth := by
    rw [← List.append_assoc, ← List.append_assoc]
    exact agrees_skip hback.kinds hback.kept (hclause.depthBehind_eq depth) (hclause'.depthBehind_eq depth) bound bound'
  tryStep := by
    rw [← List.append_assoc, ← List.append_assoc]
    exact agrees_tryStep hback (peek_of_atSeam hw hw') hclause hclause'

end Parser

end ViewSync
