import ViewSync.Proofs.Parser.Pairs
import ViewSync.Proofs.Token.Blocks

/-!
# ViewSync.Proofs.Parser.Seams

Lists of tokens that differ in one stretch. Behind the stretch the tokens ahead are of the same kinds (`Past`), in front
of it they are so up to the stretch (`Ahead`); the stretch itself starts a line. What the parsers of statements do there
is what is left to be said for a pair of sources (`Seam`). Where there is no such stretch, nothing is left
(`pair_past`).
-/

namespace ViewSync

/-- Refused statements are not passed over, if they start in front of the last `floor` tokens. -/
def Kept (drop : Span → Bool) (floor : Nat) (tokens : List Token) : Prop :=
  ∀ t more, t :: more <:+ tokens → floor ≤ more.length → t.kind.isLayout = false → ∀ u ∈ t :: more,
    drop (t.span.merge u.span) = false

theorem Kept.suffix {drop : Span → Bool} {floor : Nat} {tokens more : List Token} (h : Kept drop floor tokens)
    (hmore : more <:+ tokens) : Kept drop floor more :=
  fun t rest ht => h t rest (ht.trans hmore)

namespace ParseState

/-- Two states between expressions in which no fault has been found. -/
structure Level (s s' : ParseState) : Prop where
  eof : s.eof.kind = .eof
  eof' : s'.eof.kind = .eof
  depth : s.depth = 0
  depth' : s'.depth = 0
  clean : s.faults = []
  clean' : s'.faults = []

/-- Two states with tokens of the same kinds ahead. -/
structure Past (drop : Span → Bool) (s s' : ParseState) : Prop extends Level s s' where
  kinds : s'.rest.map (·.kind) = s.rest.map (·.kind)
  kept : Kept drop 0 s.rest

/-- Two states with tokens of the same kinds ahead, but that on the first side there is the end of an empty line in
front of them. -/
structure Late (drop : Span → Bool) (s s' : ParseState) : Prop extends Level s s' where
  empty : ∃ newline rest, s.rest = newline :: rest ∧ newline.kind = .newline ∧ s'.rest.map (·.kind) = rest.map (·.kind)
  kept : Kept drop 0 s.rest

/-- Two states with tokens of the same kinds ahead up to a place where both start a line. -/
structure Ahead (drop : Span → Bool) (tail tail' : List Token) (s s' : ParseState) : Prop extends Level s s' where
  ahead : ∃ used used', s.rest = used ++ tail ∧ s'.rest = used' ++ tail' ∧
    used'.map (·.kind) = used.map (·.kind) ∧ (used.getLast?.map fun t => t.kind.isLayout) = some true ∧
      (used.map (·.kind)).IsChain MayOpen
  kept : Kept drop tail.length s.rest

/-- Two states at that place. -/
structure AtSeam (tail tail' : List Token) (s s' : ParseState) : Prop extends Level s s' where
  rest : s.rest = tail
  rest' : s'.rest = tail'

variable {drop : Span → Bool} {s s' t t' : ParseState} {tail tail' : List Token}

theorem Level.advance (h : Level s s') : Level s.advance s'.advance := by
  have hsame : ∀ u : ParseState, u.advance.eof = u.eof ∧ u.advance.depth = u.depth ∧ u.advance.faults = u.faults := by
    intro u
    unfold ParseState.advance
    cases u.rest with
    | nil => exact ⟨rfl, rfl, rfl⟩
    | cons => exact ⟨rfl, rfl, rfl⟩
  obtain ⟨heof, hdepth, hfaults⟩ := hsame s
  obtain ⟨heof', hdepth', hfaults'⟩ := hsame s'
  exact ⟨by rw [heof, h.eof], by rw [heof', h.eof'], by rw [hdepth, h.depth], by rw [hdepth', h.depth'],
    by rw [hfaults, h.clean], by rw [hfaults', h.clean']⟩

/-! ## behind the place -/

theorem Past.line (h : Past drop s s') : Abreast [] [] s s' :=
  ⟨.nil, ⟨s.rest, s'.rest, (List.append_nil _).symm, (List.append_nil _).symm, h.kinds⟩, h.eof, h.eof',
    h.depth'.trans h.depth.symm, h.clean, h.clean'⟩

/-- On one line the second state is between expressions if the first one is. -/
theorem Abreast.level (h : Abreast tail tail' s s') (hdepth : s.depth = 0) : Level s s' :=
  ⟨h.eof, h.eof', hdepth, h.depth.trans hdepth, h.clean, h.clean'⟩

theorem Past.of_line (h : Past drop s s') (honward : s.Onward t) (hline : Abreast [] [] t t') : Past drop t t' := by
  refine ⟨hline.level (honward.depth.trans h.depth), ?_, h.kept.suffix honward.rest⟩
  obtain ⟨-, ⟨used, used', hrest, hrest', hkinds⟩, -⟩ := hline
  rw [hrest, hrest', List.append_nil, List.append_nil, hkinds]

theorem Past.peek_kind (h : Past drop s s') : s'.peek.kind = s.peek.kind :=
  h.line.peek_kind

theorem Past.advance (h : Past drop s s') : Past drop s.advance s'.advance :=
  h.of_line s.onward_advance (h.line.advance (Nat.zero_le _))

theorem Late.advance (h : Late drop s s') : s.peek.kind = .newline ∧ Past drop s.advance s' := by
  obtain ⟨newline, rest, hrest, hnewline, hkinds⟩ := h.empty
  have hbehind : s.advance.rest = rest := by rw [ParseState.advance, hrest]
  have hlevel := h.toLevel.advance
  exact ⟨by rw [peek, hrest]; exact hnewline, ⟨hlevel.eof, h.eof', hlevel.depth, h.depth', hlevel.clean, h.clean'⟩,
    by rw [hkinds, hbehind], h.kept.suffix s.onward_advance.rest⟩

/-! ## in front of it -/

theorem Ahead.peek_kind (h : Ahead drop tail tail' s s') : s'.peek.kind = s.peek.kind := by
  obtain ⟨used, used', hrest, hrest', hkinds, hlast, -⟩ := h.ahead
  cases used with
  | nil => cases hlast
  | cons t more =>
      cases used' with
      | nil => cases hkinds
      | cons t' more' =>
          rw [peek, peek, hrest, hrest']
          exact (List.cons.inj hkinds).1

theorem Ahead.room (h : Ahead drop tail tail' s s') : tail.length < s.rest.length := by
  obtain ⟨used, used', hrest, -, -, hlast, -⟩ := h.ahead
  rw [hrest, List.length_append]
  cases used with
  | nil => cases hlast
  | cons t more => simp

/-- The next tokens are used up, and the place may be next. -/
theorem Ahead.advance (h : Ahead drop tail tail' s s') :
    Ahead drop tail tail' s.advance s'.advance ∨
      AtSeam tail tail' s.advance s'.advance ∧ s.peek.kind.isLayout = true := by
  have hlevel := h.toLevel.advance
  have hkept := h.kept.suffix s.onward_advance.rest
  obtain ⟨used, used', hrest, hrest', hkinds, hlast, hchain⟩ := h.ahead
  cases used with
  | nil => cases hlast
  | cons t more =>
      cases used' with
      | nil => cases hkinds
      | cons t' more' =>
          have hbehind : s.advance.rest = more ++ tail := by simp [ParseState.advance, hrest]
          have hbehind' : s'.advance.rest = more' ++ tail' := by simp [ParseState.advance, hrest']
          have hmore := (List.cons.inj hkinds).2
          cases more with
          | nil =>
              cases List.map_eq_nil_iff.1 hmore
              refine .inr ⟨⟨hlevel, hbehind, hbehind'⟩, ?_⟩
              rw [peek, hrest]
              exact Option.some.inj hlast
          | cons u rest =>
              refine .inl ⟨hlevel, ⟨u :: rest, more', hbehind, hbehind', hmore, ?_, hchain.tail⟩, hkept⟩
              rwa [List.getLast?_cons_cons] at hlast

/-- Behind a word the line goes on, and no block starts. -/
theorem Ahead.word (h : Ahead drop tail tail' s s') (hword : s.peek.kind.isLayout = false) :
    Ahead drop tail tail' s.advance s'.advance ∧ s.advance.peek.kind ≠ .indent := by
  refine ⟨h.advance.resolve_right fun hseam => ?_, ?_⟩
  · rw [hword] at hseam
    cases hseam.2
  · obtain ⟨used, used', hrest, -, -, hlast, hchain⟩ := h.ahead
    cases used with
    | nil => cases hlast
    | cons t more =>
        have hpeek : s.peek = t := by rw [peek, hrest]; rfl
        rw [hpeek] at hword
        cases more with
        | nil =>
            have hlayout : t.kind.isLayout = true := Option.some.inj hlast
            exact absurd (hword.symm.trans hlayout) Bool.false_ne_true
        | cons u rest =>
            have hnext : s.advance.peek = u := by simp [ParseState.advance, peek, hrest]
            rw [hnext]
            intro hindent
            have hopens : t.kind = .newline := (List.isChain_cons_cons.1 hchain).1 hindent
            rw [hopens] at hword
            cases hword

/-- Up to the end of the line the two are on one line. -/
theorem Ahead.line (h : Ahead drop tail tail' s s') : ∃ line rest rest' : List Token, ∃ l l' : Token,
    (∀ t ∈ line, t.kind.isLayout = false) ∧ s.rest = line ++ l :: (rest ++ tail) ∧ l.kind.isLayout = true ∧
      Abreast (l :: (rest ++ tail)) (l' :: (rest' ++ tail')) s s' ∧
        ∀ {u u' : ParseState}, s.Onward u → Abreast (l :: (rest ++ tail)) (l' :: (rest' ++ tail')) u u' →
          Ahead drop tail tail' u u' := by
  obtain ⟨used, used', hrest, hrest', hkinds, hlast, hchain⟩ := h.ahead
  obtain ⟨last, hlast', hlayout⟩ := Option.map_eq_some_iff.1 hlast
  have hfound : (used.find? fun t => t.kind.isLayout).isSome = true :=
    List.find?_isSome.2 ⟨last, List.mem_of_getLast? hlast', hlayout⟩
  obtain ⟨l, hfind⟩ := Option.isSome_iff_exists.1 hfound
  obtain ⟨hl, line, rest, rfl, hline⟩ := List.find?_eq_some_iff_append.1 hfind
  rw [List.map_append, List.map_cons] at hkinds
  obtain ⟨line', behind, rfl, hline', hbehind⟩ := List.map_eq_append_iff.1 hkinds
  obtain ⟨l', rest', rfl, hl', hrest₁⟩ := List.map_eq_cons_iff.1 hbehind
  rw [List.append_assoc, List.cons_append] at hrest hrest'
  refine ⟨line, rest, rest', l, l', fun t ht => by simpa using hline t ht, hrest, hl, ?_, ?_⟩
  · exact ⟨.cons hl' (.inl hl), ⟨line, line', hrest, hrest', hline'⟩, h.eof, h.eof', h.depth'.trans h.depth.symm,
      h.clean, h.clean'⟩
  · intro u u' honward hline
    obtain ⟨used₂, used₂', hrest₂, hrest₂', hkinds₂⟩ := hline.ahead
    refine ⟨hline.level (honward.depth.trans h.depth), ⟨used₂ ++ l :: rest, used₂' ++ l' :: rest', ?_, ?_, ?_, ?_, ?_⟩,
      h.kept.suffix honward.rest⟩
    · rw [hrest₂, List.append_assoc, List.cons_append]
    · rw [hrest₂', List.append_assoc, List.cons_append]
    · simp [hkinds₂, hl', hrest₁]
    · simpa [List.getLast?_append] using hlast
    · have hsuffix : used₂ ++ l :: rest <:+ line ++ l :: rest := by
        obtain ⟨front, hfront⟩ := honward.rest
        rw [hrest, hrest₂] at hfront
        refine ⟨front, @List.append_cancel_right _ _ tail _ ?_⟩
        simpa using hfront
      exact hchain.suffix (hsuffix.map _)

end ParseState

namespace Parser

open ParseState

variable {α : Type} {drop : Span → Bool} {tail tail' : List Token} {p p' : Parser α} {rel : α → α → Prop}

/-- What stays on its line does so on both sides. -/
theorem follows_ahead (hwalks : Walks p fun _ _ => True) (hmirrors : Mirrors p p' rel) :
    Agrees 0 (Ahead drop tail tail') p p' rel (Ahead drop tail tail') := by
  intro s s' t a hs hdone hholds hne
  obtain ⟨line, rest, rest', l, l', hline, hrest, hl, hlevel, hback⟩ := hs.line
  have hwalk := hwalks s hs.eof
  rw [hdone] at hwalk
  obtain ⟨used, hwalk, -⟩ := hwalk
  have hroom : (l :: (rest ++ tail)).length ≤ t.rest.length := by
    have hsame : used ++ t.rest = line ++ l :: (rest ++ tail) := hwalk.rest.symm.trans hrest
    rcases List.append_eq_append_iff.1 hsame with ⟨more, -, hmore⟩ | ⟨more, hmore, hbehind⟩
    · rw [hmore, List.length_append]
      exact Nat.le_add_left _ _
    · cases more with
      | nil => rw [hbehind, List.nil_append]
      | cons u more =>
          obtain ⟨rfl, -⟩ := List.cons.inj hbehind
          have hword := hwalk.worded l (by rw [hmore]; simp)
          exact absurd (hword.symm.trans hl) Bool.false_ne_true
  have honward := (hmirrors [] []).onwards.of_done hdone
  obtain ⟨a', t', hdone', ha, ht⟩ := (hmirrors _ _).agrees hlevel hdone ⟨hholds.clean, hroom⟩ hne
  exact ⟨a', t', hdone', ha, hback honward ht⟩

theorem follows_past (hmirrors : Mirrors p p' rel) : Follows 0 (Past drop) p p' rel (Past drop) where
  onwards := (hmirrors [] []).onwards
  agrees hs hdone hholds hne := by
    obtain ⟨a', t', hdone', ha, ht⟩ := (hmirrors [] []).agrees hs.line hdone hholds hne
    exact ⟨a', t', hdone', ha, hs.of_line ((hmirrors [] []).onwards.of_done hdone) ht⟩

/-- The rest of a line is skipped on both sides. -/
theorem follows_skipLine {inner : ParseState → ParseState → Prop}
    (hkind : ∀ s s', inner s s' → s'.peek.kind = s.peek.kind)
    (hstep : ∀ s s', inner s s' → endsLine s.peek.kind = false → inner s.advance s'.advance) :
    Follows 0 inner skipLine skipLine Any inner := by
  unfold skipLine
  refine .here fun start start' => Follows.imp (.loop (show Any start start' from rfl) fun span span' _ => ?_)
    fun _ _ hs => hs.1
  refine .kind hkind fun k => .ite (fun _ => .pure (.inr rfl) fun _ _ hs => hs.1) fun hgoes => ?_
  have hgoes' : endsLine k = false := by simpa using hgoes
  exact .advance (fun s s' hs _ => hstep s s' hs.1 (hs.2 ▸ hgoes')) fun _ _ => .pure (.inl rfl) fun _ _ hs => hs

theorem agrees_of_false {floor : Nat} {post : ParseState → ParseState → Prop} :
    Agrees floor (fun _ _ => False) p p' rel post := by
  intro s s' t a hs
  exact hs.elim

theorem kept_peek {floor : Nat} {s : ParseState} (h : Kept drop floor s.rest) (heof : s.eof.kind = .eof)
    (hword : s.peek.kind.isLayout = false) (hroom : floor < s.rest.length) :
    ∀ u ∈ s.rest, drop (s.peek.span.merge u.span) = false := by
  have hrest := (walks_advance heof hword).rest
  rw [hrest] at h hroom ⊢
  exact h _ _ List.suffix_rfl (Nat.lt_succ_iff.1 (by simpa using hroom)) hword

theorem rest_pos {s : ParseState} (heof : s.eof.kind = .eof) (hword : s.peek.kind.isLayout = false) :
    0 < s.rest.length := by
  rw [(walks_advance heof hword).rest]
  exact Nat.succ_pos _

/-- Sources of the same kinds of tokens. -/
theorem pair_past (drop : Span → Bool) : Pair drop (Past drop) (fun _ _ => False) fun _ _ => False where
  clean
    | .inl (.inl hs) => ⟨hs.clean, hs.clean'⟩
    | .inl (.inr hs) => hs.elim
    | .inr hs => hs.elim
  empty := False.elim
  eof hs := hs.eof
  kind hs := hs.peek_kind
  word hs := hs.1.advance
  turn hs := .inl hs.advance
  line _ hmirrors := follows_past hmirrors
  skipLine := (follows_skipLine (fun _ _ hs => hs.peek_kind) fun _ _ hs _ => hs.advance).imp fun _ _ hs => hs.1
  kept hs := kept_peek hs.1.kept hs.1.eof hs.2 (rest_pos hs.1.eof hs.2)
  plain := False.elim
  statement _ _ := agrees_of_false
  chainRest _ _ _ _ := agrees_of_false
  loopElse _ _ := agrees_of_false
  definition _ _ _ _ _ := agrees_of_false
  skip _ _ _ := agrees_of_false
  tryStep := agrees_of_false

/-! ## what is left to be said -/

/-- What the parsers of statements do at a place where two sources differ. -/
structure Seam (drop : Span → Bool) (tail tail' : List Token) : Prop where
  plain : ∀ {s s'}, AtSeam tail tail' s s' → Plain s.peek.kind ∧ Plain s'.peek.kind
  statement : ∀ bound bound', Agrees 0 (AtSeam tail tail') (statementUpTo bound) (statementUpTo bound') (Passes drop)
    (Either (Past drop) (Late drop))
  chainRest : ∀ bound bound' more more', Agrees 0 (AtSeam tail tail') (chainRest (statementUpTo bound) more)
    (chainRest (statementUpTo bound') more') (Else.Passes drop) (Either (Past drop) (AtSeam tail tail'))
  loopElse : ∀ bound bound', Agrees 0 (AtSeam tail tail') (loopElse (statementUpTo bound))
    (loopElse (statementUpTo bound')) (Option.Rel (PassesAll drop)) (Either (Past drop) (AtSeam tail tail'))
  definition : ∀ bound bound' {decorators decorators' : List Expr},
    SameBy (List.map Expr.spanless) decorators decorators' → Agrees 0 (AtSeam tail tail')
      (definition (statementUpTo bound) decorators) (definition (statementUpTo bound') decorators') (Passes drop)
        (Past drop)
  skip : ∀ bound bound' depth, Agrees 0 (AtSeam tail tail') (loopUpTo skipStep bound (depth + 1))
    (loopUpTo skipStep bound' (depth + 1)) Any (Past drop)
  tryStep : Agrees 0 (AtSeam tail tail') tryStep tryStep (Sum.LiftRel Any Any) (Either (Past drop) (AtSeam tail tail'))

/-- In front of the place, or behind it. -/
abbrev Beside (drop : Span → Bool) (tail tail' : List Token) : ParseState → ParseState → Prop :=
  Either (Ahead drop tail tail') (Past drop)

theorem Agrees.weaken {floor : Nat} {pre post post' : ParseState → ParseState → Prop}
    (h : Agrees floor pre p p' rel post)
    (hpost : ∀ s s', post s s' → post' s s') : Agrees floor pre p p' rel post' := by
  intro s s' t a hs hdone hholds hne
  obtain ⟨a', t', hdone', ha, ht⟩ := h s s' t a hs hdone hholds hne
  exact ⟨a', t', hdone', ha, hpost _ _ ht⟩

/-- Two sources that differ in one stretch are read side by side, if its ends are. -/
theorem Seam.pair (h : Seam drop tail tail') : Pair drop (Beside drop tail tail') (AtSeam tail tail') (Late drop) where
  clean
    | .inl (.inl (.inl hs)) => ⟨hs.clean, hs.clean'⟩
    | .inl (.inl (.inr hs)) => ⟨hs.clean, hs.clean'⟩
    | .inl (.inr hs) => ⟨hs.clean, hs.clean'⟩
    | .inr hs => ⟨hs.clean, hs.clean'⟩
  empty hs := ⟨hs.advance.1, hs.depth, .inr hs.advance.2⟩
  eof hs := hs.elim (fun hs => hs.eof) fun hs => hs.eof
  kind hs := hs.elim (fun hs => hs.peek_kind) fun hs => hs.peek_kind
  word hs := hs.1.imp (fun h => (h.word hs.2).1) fun h => h.advance
  turn
    | .inl hs => hs.advance.imp .inl fun hseam => hseam.1
    | .inr hs => .inl (.inr hs.advance)
  line hwalks hmirrors :=
    ((follows_past hmirrors).mono (fun _ _ hs => hs) (fun _ _ ha => ha) fun _ _ ht => .inr ht).or
      ((follows_ahead hwalks hmirrors).weaken fun _ _ ht => .inl ht) |>.imp fun _ _ hs => hs.symm
  skipLine := by
    have hinner : Follows 0 (fun s s' => Ahead drop tail tail' s s' ∧ s.peek.kind ≠ .indent ∨ Past drop s s') skipLine
        skipLine Any fun s s' => Ahead drop tail tail' s s' ∧ s.peek.kind ≠ .indent ∨ Past drop s s' := by
      refine follows_skipLine (fun s s' hs => ?_) fun s s' hs hgoes => ?_
      · exact hs.elim (fun hs => hs.1.peek_kind) fun hs => hs.peek_kind
      · refine hs.imp (fun hs => hs.1.word ?_) fun hs => hs.advance
        cases hkind : s.peek.kind with
        | indent => exact absurd hkind hs.2
        | newline | dedent | eof =>
            rw [hkind] at hgoes
            cases hgoes
        | _ => rfl
    refine hinner.mono (fun s s' hs => ?_) (fun _ _ ha => ha) fun _ _ ht => ht.imp (fun ht => ht.1) fun ht => ht
    refine hs.1.imp (fun h => ⟨h, fun heq => ?_⟩) fun h => h
    have hword := hs.2
    rw [heq] at hword
    cases hword
  kept
    | ⟨.inl hs, hword⟩ => kept_peek hs.kept hs.eof hword hs.room
    | ⟨.inr hs, hword⟩ => kept_peek hs.kept hs.eof hword (rest_pos hs.eof hword)
  plain := h.plain
  statement bound bound' := (h.statement bound bound').weaken fun _ _ ht => ht.imp_left fun ht => .inl (.inr ht)
  chainRest bound bound' more more' := (h.chainRest bound bound' more more').weaken fun _ _ ht => ht.imp_left .inr
  loopElse bound bound' := (h.loopElse bound bound').weaken fun _ _ ht => ht.imp_left .inr
  definition bound bound' _ _ hds := (h.definition bound bound' hds).weaken fun _ _ ht => .inl (.inr ht)
  skip bound bound' depth := (h.skip bound bound' depth).weaken fun _ _ ht => .inl (.inr ht)
  tryStep := h.tryStep.weaken fun _ _ ht => ht.imp_left .inr

/-- A line starts behind some tokens: there are none, or the last one is the end of a line or of a block, or the start
of one. Blocks start behind the ends of lines. -/
structure StartsLine (front : List TokenKind) : Prop where
  ended : ∀ k ∈ front.getLast?, k.isLayout = true
  opened : front.IsChain MayOpen

/-- Two sources that differ in one stretch have the same tree up to spans and to what is passed over. -/
theorem parse_of_seam {drop : Span → Bool} {front front' tail tail' : List Token} {m : Module}
    (h : Seam drop tail tail')
    (hfront : StartsLine (front.map (·.kind))) (hkinds : front'.map (·.kind) = front.map (·.kind))
    (hkept : Kept drop tail.length (front ++ tail)) (hm : (parse (front ++ tail)).module? = some m) :
    ∃ m', (parse (front' ++ tail')).module? = some m' ∧ m'.spanless = (m.passing drop).spanless := by
  obtain ⟨s, hdone, hclean⟩ := module?_parse.1 hm
  have hlevel : ParseState.Level (.start (front ++ tail)) (.start (front' ++ tail')) := ⟨rfl, rfl, rfl, rfl, rfl, rfl⟩
  have hstart : Either (Beside drop tail tail') (ParseState.AtSeam tail tail') (.start (front ++ tail))
      (.start (front' ++ tail')) := by
    cases hlast : front.getLast? with
    | none =>
        cases List.getLast?_eq_none_iff.1 hlast
        cases List.map_eq_nil_iff.1 hkinds
        exact .inr ⟨hlevel, rfl, rfl⟩
    | some t =>
        refine .inl (.inl ⟨hlevel, ⟨front, front', rfl, rfl, hkinds, ?_, hfront.opened⟩, hkept⟩)
        rw [hlast]
        exact congrArg some (hfront.ended t.kind (by rw [List.getLast?_map, hlast]; rfl))
  obtain ⟨m', s', hdone', hsame, hs'⟩ := h.pair.module.agrees hstart hdone ⟨hclean, Nat.zero_le _⟩
    (module_ne_exhausted _)
  exact ⟨m', module?_parse.2 ⟨s', hdone', (h.pair.clean hs').2⟩, hsame⟩

end Parser

end ViewSync
