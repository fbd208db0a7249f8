import ViewSync.Proofs.Parser.Follows

/-!
# ViewSync.Proofs.Parser.Mirrors

An expression is read from the kinds of its tokens alone. Two states on one line (`ParseState.Abreast`) have tokens of
the same kinds ahead, up to a border: the end of the line, or a colon. What is behind the border may differ, and so
may all spans. `Mirrors p p' rel` says that two parsers do the same on such lines, as long as the first one stays in
front of the border; the trees that they give are the same up to spans (`mirrors_expressionAt`).
-/

namespace ViewSync

namespace ParseState

/-- What two lines go on with: neither with anything, or both with an end of a line or a colon. -/
inductive Border : List Token → List Token → Prop where
  | nil : Border [] []
  | cons {t t' : Token} {more more' : List Token} : t'.kind = t.kind →
      t.kind.isLayout = true ∨ t.kind = .symbol .colon → Border (t :: more) (t' :: more')

/-- Two states on lines of the same kinds, up to a border. -/
structure Abreast (tail tail' : List Token) (s s' : ParseState) : Prop where
  border : Border tail tail'
  ahead : ∃ used used', s.rest = used ++ tail ∧ s'.rest = used' ++ tail' ∧ used'.map (·.kind) = used.map (·.kind)
  eof : s.eof.kind = .eof
  eof' : s'.eof.kind = .eof
  depth : s'.depth = s.depth
  clean : s.faults = []
  clean' : s'.faults = []

variable {s s' : ParseState} {tail tail' : List Token}

/-- The next tokens are of the same kind. -/
theorem Abreast.peek_kind (h : Abreast tail tail' s s') : s'.peek.kind = s.peek.kind := by
  obtain ⟨hborder, ⟨used, used', hrest, hrest', hkinds⟩, heof, heof', -⟩ := h
  rw [peek, peek, hrest, hrest']
  cases used with
  | nil =>
      cases List.map_eq_nil_iff.1 hkinds
      cases hborder with
      | nil => exact heof'.trans heof.symm
      | cons hkind _ => exact hkind
  | cons t more =>
      cases used' with
      | nil => cases hkinds
      | cons t' more' => exact (List.cons.inj hkinds).1

/-- The tokens behind them are of the same kind as well, or there is a border in front of these. -/
theorem Abreast.second (h : Abreast tail tail' s s') :
    s'.second = s.second ∨ s.peek.kind.isLayout = true ∨ s.peek.kind = .symbol .colon := by
  obtain ⟨hborder, ⟨used, used', hrest, hrest', hkinds⟩, heof, -⟩ := h
  rw [peek, ParseState.second, ParseState.second, hrest, hrest']
  cases used with
  | nil =>
      cases List.map_eq_nil_iff.1 hkinds
      cases hborder with
      | nil => exact .inr (.inl (by rw [List.append_nil, List.headD_nil, heof]; rfl))
      | cons _ hends => exact .inr hends
  | cons t more =>
      cases used' with
      | nil => cases hkinds
      | cons t' more' =>
          have hmore := (List.cons.inj hkinds).2
          refine .inl ?_
          cases more with
          | nil =>
              cases List.map_eq_nil_iff.1 hmore
              cases hborder with
              | nil => rfl
              | cons hkind _ => exact hkind
          | cons u rest =>
              cases more' with
              | nil => cases hmore
              | cons u' rest' => exact (List.cons.inj hmore).1

/-- The lines go on behind the next tokens, if these are in front of the border. -/
theorem Abreast.advance (h : Abreast tail tail' s s') (hroom : tail.length ≤ s.advance.rest.length) :
    Abreast tail tail' s.advance s'.advance := by
  obtain ⟨hborder, ⟨used, used', hrest, hrest', hkinds⟩, heof, heof', hdepth, hclean, hclean'⟩ := h
  unfold ParseState.advance at hroom ⊢
  cases used with
  | nil =>
      cases List.map_eq_nil_iff.1 hkinds
      cases hborder with
      | nil =>
          rw [List.nil_append] at hrest hrest'
          simp only [hrest, hrest']
          exact ⟨.nil, ⟨[], [], hrest, hrest', rfl⟩, heof, heof', hdepth, hclean, hclean'⟩
      | cons =>
          rw [hrest] at hroom
          exact absurd hroom (by simp)
  | cons t more =>
      cases used' with
      | nil => cases hkinds
      | cons t' more' =>
          simp only [hrest, hrest', List.cons_append]
          exact ⟨hborder, ⟨more, more', rfl, rfl, (List.cons.inj hkinds).2⟩, heof, heof', hdepth, hclean, hclean'⟩

end ParseState

namespace Parser

open ParseState

variable {α β δ : Type}

/-- Two parsers do the same on lines of the same kinds. -/
def Mirrors (p p' : Parser α) (rel : α → α → Prop) : Prop :=
  ∀ tail tail' : List Token, Follows tail.length (Abreast tail tail') p p' rel (Abreast tail tail')

section

variable {p p' q q' : Parser α} {a a' : α} {b b' : β} {rel rel' : α → α → Prop} {goal : β → β → Prop}

theorem Mirrors.mono (h : Mirrors p p' rel) (hrel : ∀ a a', rel a a' → rel' a a') : Mirrors p p' rel' :=
  fun tail tail' => (h tail tail').mono (fun _ _ hs => hs) hrel fun _ _ ht => ht

theorem Mirrors.bind [Serial rel] {f f' : α → Parser β} (hp : Mirrors p p' rel)
    (hf : ∀ a a', rel a a' → Mirrors (f a) (f' a') goal) : Mirrors (p >>= f) (p' >>= f') goal :=
  fun tail tail' => (hp tail tail').bind fun a a' ha => hf a a' ha tail tail'

theorem Mirrors.pure (h : rel a a') : Mirrors (pure a) (pure a') rel :=
  fun _ _ => .pure h fun _ _ hs => hs

theorem Mirrors.pure_bind {f f' : α → Parser β} (h : Mirrors (f a) (f' a') goal) :
    Mirrors (Pure.pure a >>= f) (Pure.pure a' >>= f') goal := h

/-- Nothing is asked behind a parser that is exhausted. -/
theorem Mirrors.cut (h : Mirrors p p' rel) : Mirrors p (fun _ => .exhausted) rel :=
  fun tail tail' => (h tail tail').cut

theorem mirrors_fail (cause : ParseError) : Mirrors (fail cause) p' rel :=
  fun _ _ => follows_fail cause

theorem mirrors_exhausted : Mirrors (fun _ => .exhausted) p' rel :=
  fun _ _ => follows_exhausted

theorem Mirrors.ite {c : Prop} [Decidable c] (hp : Mirrors p p' rel) (hq : Mirrors q q' rel) :
    Mirrors (if c then p else q) (if c then p' else q') rel :=
  fun tail tail' => .ite (fun _ => hp tail tail') fun _ => hq tail tail'

/-! ## single steps -/

theorem Mirrors.kind {f f' : TokenKind → Parser β} (h : ∀ k, Mirrors (f k) (f' k) goal) :
    Mirrors (kind >>= f) (Parser.kind >>= f') goal :=
  fun tail tail' => .kind (fun _ _ hs => hs.peek_kind) fun k => (h k tail tail').imp fun _ _ hs => hs.1

/-- In front of a border the token behind it is not to matter. -/
theorem Mirrors.kind_second {f f' : TokenKind → TokenKind → Parser β} (h : ∀ k l, Mirrors (f k l) (f' k l) goal)
    (hborder : ∀ k l l', k.isLayout = true ∨ k = .symbol .colon → f' k l' = f' k l) :
    Mirrors (Parser.kind >>= fun k => second >>= f k) (Parser.kind >>= fun k => second >>= f' k) goal := by
  intro tail tail'
  refine ⟨onwards_peek.1.bind fun k => onwards_peek.2.1.bind fun l => (h k l tail tail').onwards, ?_⟩
  intro s s' t b hs hdone hholds hne
  have hsame : f' s'.peek.kind s'.second = f' s.peek.kind s.second := by
    rw [hs.peek_kind]
    rcases hs.second with hsecond | hends
    · rw [hsecond]
    · exact hborder _ _ _ hends
  have hgoal : (Parser.kind >>= fun k => second >>= f' k) s' = f' s.peek.kind s.second s' := by
    rw [← hsame]
    rfl
  rw [hgoal] at hne ⊢
  exact (h _ _ tail tail').agrees hs hdone hholds hne

/-- What spans are like does not matter. -/
theorem Mirrors.here {f f' : Span → Parser β} (h : ∀ span span', Mirrors (f span) (f' span') goal) :
    Mirrors (here >>= f) (Parser.here >>= f') goal :=
  fun tail tail' => .here fun span span' => (h span span' tail tail').imp fun _ _ hs => hs.1

theorem Mirrors.last {f f' : Span → Parser β} (h : ∀ span span', Mirrors (f span) (f' span') goal) :
    Mirrors (last >>= f) (Parser.last >>= f') goal :=
  fun tail tail' => .last fun span span' => h span span' tail tail'

theorem Mirrors.check {k : TokenKind} {f f' : Bool → Parser β} (h : ∀ found, Mirrors (f found) (f' found) goal) :
    Mirrors (check k >>= f) (Parser.check k >>= f') goal :=
  fun tail tail' => .check (fun _ _ hs => by rw [hs.peek_kind]) fun found =>
    (h found tail tail').imp fun _ _ hs => hs.1

theorem Mirrors.advance {f f' : Token → Parser β} (h : ∀ t t', Mirrors (f t) (f' t') goal) :
    Mirrors (advance >>= f) (Parser.advance >>= f') goal :=
  fun tail tail' => .advance (fun _ _ hs hholds => hs.advance hholds.room) fun t t' => h t t' tail tail'

theorem Mirrors.eat {k : TokenKind} {f f' : Bool → Parser β} (hyes : Mirrors (f true) (f' true) goal)
    (hno : Mirrors (f false) (f' false) goal) : Mirrors (eat k >>= f) (Parser.eat k >>= f') goal :=
  fun tail tail' => .eat (fun _ _ hs => by rw [hs.peek_kind]) (fun _ _ hs _ hholds => hs.advance hholds.room)
    (hyes tail tail') ((hno tail tail').imp fun _ _ hs => hs.1)

theorem Mirrors.expect {k : TokenKind} {f f' : Token → Parser β} (h : ∀ t t', Mirrors (f t) (f' t') goal) :
    Mirrors (expect k >>= f) (Parser.expect k >>= f') goal :=
  fun tail tail' => .expect (fun _ _ hs hk => by rwa [hs.peek_kind]) (fun _ _ hs _ hholds => hs.advance hholds.room)
    fun t t' => h t t' tail tail'

theorem mirrors_identifier : Mirrors identifier identifier (SameBy Ident.name) := by
  refine fun tail tail' => ⟨onwards_identifier, fun {s s' t i} hs hdone hholds _ => ?_⟩
  have hpeek := hs.peek_kind
  cases hkind : s.peek.kind with
  | identifier name =>
      have hname : identifier s = .done ⟨name, s.peek.span⟩ s.advance := by simp only [identifier, hkind]
      have hname' : identifier s' = .done ⟨name, s'.peek.span⟩ s'.advance := by
        simp only [identifier, hpeek, hkind]
      cases hname.symm.trans hdone
      exact ⟨_, _, hname', rfl, hs.advance hholds.room⟩
  | _ =>
      simp only [identifier, hkind] at hdone
      cases hdone

theorem Mirrors.identifier {f f' : Ident → Parser β} (h : ∀ i i', SameBy Ident.name i i' → Mirrors (f i) (f' i') goal) :
    Mirrors (identifier >>= f) (Parser.identifier >>= f') goal :=
  mirrors_identifier.bind h

/-! ## repetition -/

theorem Mirrors.loop [Serial rel] [Serial goal] {step step' : α → Parser (α ⊕ β)} (ha : rel a a')
    (h : ∀ a a', rel a a' → Mirrors (step a) (step' a') (Sum.LiftRel rel goal)) :
    Mirrors (loop step a) (loop step' a') goal :=
  fun tail tail' => .loop ha fun a a' ha => h a a' ha tail tail'

theorem Mirrors.bounded {body body' : Nat → Parser α} (h : ∀ bound bound', Mirrors (body bound) (body' bound') rel) :
    Mirrors (bounded body) (bounded body') rel :=
  fun tail tail' => .bounded fun bound bound' => h bound bound' tail tail'

/-- Another round. -/
theorem Mirrors.again (h : rel a a') : Mirrors (Pure.pure (.inl a)) (Pure.pure (.inl a')) (Sum.LiftRel rel goal) :=
  .pure (.inl h)

/-- The end of a loop. -/
theorem Mirrors.out (h : goal b b') : Mirrors (Pure.pure (.inr b)) (Pure.pure (.inr b')) (Sum.LiftRel rel goal) :=
  .pure (.inr h)

end

/-! ## trees -/

section same

variable {span span' : Span}

theorem Same.slice {lower lower' upper upper' step step' : Option Expr}
    (hlower : SameBy (Option.map Expr.spanless) lower lower')
    (hupper : SameBy (Option.map Expr.spanless) upper upper') (hstep : SameBy (Option.map Expr.spanless) step step') :
    Same (.slice span lower upper step) (.slice span' lower' upper' step') := by
  show Expr.slice .origin (Expr.spanlessBound lower') (Expr.spanlessBound upper') (Expr.spanlessBound step') =
    .slice .origin (Expr.spanlessBound lower) (Expr.spanlessBound upper) (Expr.spanlessBound step)
  simp only [Expr.spanlessBound_eq]
  rw [hlower, hupper, hstep]

theorem Same.yield {value value' : Option Expr} (h : SameBy (Option.map Expr.spanless) value value') :
    Same (.yield span value) (.yield span' value') := by
  show Expr.yield .origin (Expr.spanlessBound value') = .yield .origin (Expr.spanlessBound value)
  rw [Expr.spanlessBound_eq, Expr.spanlessBound_eq, h]

theorem Same.comprehension {element element' target target' source source' : Expr} {conditions conditions' : List Expr}
    (helement : Same element element') (htarget : Same target target') (hsource : Same source source')
    (hconditions : SameBy (List.map Expr.spanless) conditions conditions') :
    Same (.comprehension span element target source conditions)
      (.comprehension span' element' target' source' conditions') := by
  show Expr.comprehension .origin element'.spanless target'.spanless source'.spanless (Expr.spanlessItems conditions') =
    .comprehension .origin element.spanless target.spanless source.spanless (Expr.spanlessItems conditions)
  rw [Expr.spanlessItems_eq, Expr.spanlessItems_eq, helement.eq, htarget.eq, hsource.eq, hconditions]

theorem Same.some {e e' : Expr} (h : Same e e') : SameBy (Option.map Expr.spanless) (some e) (some e') :=
  congrArg Option.some h

theorem Same.items {e e' : Expr} {es es' : List Expr} (he : Same e e') (hes : SameBy (List.map Expr.spanless) es es') :
    SameBy (List.map Expr.spanless) (e :: es) (e' :: es') :=
  SameBy.cons he hes

end same

/-! ## lists -/

theorem mirrors_leftGrouped {op? : TokenKind → Option BinaryOp} {operand operand' : Parser Expr}
    (h : Mirrors operand operand' Same) : Mirrors (leftGrouped op? operand) (leftGrouped op? operand') Same := by
  unfold leftGrouped
  refine h.bind fun first first' hfirst => .loop hfirst fun left left' hleft => .kind fun k => ?_
  cases op? k with
  | none => exact .out hleft
  | some op => exact .advance fun _ _ => h.bind fun right right' hright => .again (hleft.binary hright)

theorem mirrors_separated {stop : TokenKind} {item item' : Parser α} {f : α → δ} (h : Mirrors item item' (SameBy f)) :
    Mirrors (separated stop item) (separated stop item') (SameBy (List.map f)) := by
  unfold separated
  refine .loop SameBy.nil fun acc acc' hacc => .check fun _ => .check fun _ => .ite (.out hacc.reverse) ?_
  refine h.bind fun a a' ha => .eat (.again (ha.cons hacc)) (.out (SameBy.cons ha hacc).reverse)

theorem mirrors_moreItems {stop : TokenKind → Bool} {item item' : Parser Expr} (h : Mirrors item item' Same) :
    Mirrors (moreItems stop item) (moreItems stop item') (SameBy (List.map Expr.spanless)) := by
  unfold moreItems
  refine .loop SameBy.nil fun acc acc' hacc => .eat (.kind fun _ => .ite (.out hacc.reverse) ?_) (.out hacc.reverse)
  exact h.bind fun e e' he => .again (he.items hacc)

theorem mirrors_bareList {stop : TokenKind → Bool} {item item' : Parser Expr} (h : Mirrors item item' Same) :
    Mirrors (bareList stop item) (bareList stop item') Same := by
  unfold bareList
  refine h.bind fun first first' hfirst => .check fun _ => .ite ?_ (.pure hfirst)
  exact (mirrors_moreItems h).bind fun others others' hothers => .pure (.tuple (hfirst.items hothers))

section

variable {sub sub' : Sub} (hsub : ∀ level, Mirrors (sub level) (sub' level) Same)

include hsub

theorem mirrors_expressionList : Mirrors (expressionList sub) (expressionList sub') Same :=
  mirrors_bareList (hsub .full)

theorem mirrors_targetList : Mirrors (targetList sub) (targetList sub') Same :=
  mirrors_bareList (hsub .bitwise)

theorem mirrors_param (stop : TokenKind) : Mirrors (param sub stop) (param sub' stop) (SameBy Param.spanless) := by
  unfold param
  refine .identifier fun i i' hi => ?_
  have hid : (⟨i'.name, .origin⟩ : Ident) = ⟨i.name, .origin⟩ := congrArg (Ident.mk · _) hi
  have hvalue : Mirrors (do
      if ← eat (.symbol .eq) then
        let value ← sub .full
        return Param.mk i (some value) (i.span.merge value.span)
      else return ⟨i, none, i.span⟩) (do
      if ← eat (.symbol .eq) then
        let value ← sub' .full
        return Param.mk i' (some value) (i'.span.merge value.span)
      else return ⟨i', none, i'.span⟩) (SameBy Param.spanless) := by
    refine .eat ((hsub .full).bind fun e e' he => .pure ?_) (.pure ?_)
    · show Param.mk _ (some e'.spanless) _ = .mk _ (some e.spanless) _
      rw [hid, he.eq]
    · show Param.mk _ _ _ = .mk _ _ _
      rw [hid]
  exact .ite (.eat ((hsub .full).bind fun _ _ _ => hvalue) hvalue) hvalue

theorem mirrors_params (stop : TokenKind) :
    Mirrors (params sub stop) (params sub' stop) (SameBy (List.map Param.spanless)) :=
  mirrors_separated (mirrors_param hsub stop)

/-! ## arguments -/

omit hsub in
/-- An argument, by the next token and the one behind it. -/
def argBy (sub : Sub) (next following : TokenKind) : Parser Arg :=
  match next with
  | .symbol .star => do
    let _ ← advance
    return .starred (← sub .full)
  | .symbol .doubleStar => do
    let _ ← advance
    return .doubleStarred (← sub .full)
  | .identifier _ => do
    if following == .symbol .eq then
      let name ← identifier
      let _ ← advance
      return .keyword name (← sub .full)
    else return .positional (← sub .full)
  | _ => do return .positional (← sub .full)

omit hsub in
/-- In front of any other token an argument is an expression. -/
theorem argBy_other (sub : Sub) {next : TokenKind} (hstar : next = .symbol .star → False)
    (hdouble : next = .symbol .doubleStar → False) (hname : ∀ name, next = .identifier name → False)
    (following : TokenKind) : argBy sub next following = (do return Arg.positional (← sub .full)) := by
  unfold argBy
  split
  · exact absurd rfl hstar
  · exact absurd rfl hdouble
  · exact absurd rfl (hname _)
  · rfl

omit hsub in
theorem arg_eq (sub : Sub) : arg sub = (kind >>= fun next => second >>= argBy sub next) := by
  funext s
  show arg sub s = argBy sub s.peek.kind s.second s
  unfold arg
  rw [bind_apply]
  simp only [kind]
  generalize s.peek.kind = next
  split
  case h_4 =>
    rename_i hstar hdouble hname
    exact (congrFun (argBy_other sub hstar hdouble hname s.second) s).symm
  all_goals rfl

theorem mirrors_arg : Mirrors (arg sub) (arg sub') (SameBy Arg.spanless) := by
  have hpositional : Mirrors (do return Arg.positional (← sub .full)) (do return Arg.positional (← sub' .full))
      (SameBy Arg.spanless) :=
    (hsub .full).bind fun e e' he => .pure (congrArg Arg.positional he)
  rw [arg_eq, arg_eq]
  refine .kind_second (fun k l => ?_) fun k l l' hends => ?_
  · unfold argBy
    split
    · exact .advance fun _ _ => (hsub .full).bind fun e e' he => .pure (congrArg Arg.starred he)
    · exact .advance fun _ _ => (hsub .full).bind fun e e' he => .pure (congrArg Arg.doubleStarred he)
    · refine .ite (.identifier fun i i' hi => .advance fun _ _ => (hsub .full).bind fun e e' he => .pure ?_) hpositional
      show Arg.keyword ⟨i'.name, _⟩ e'.spanless = .keyword ⟨i.name, _⟩ e.spanless
      rw [hi, he.eq]
    · exact hpositional
  · unfold argBy
    split
    case h_3 => rcases hends with hends | hends <;> cases hends
    all_goals rfl

/-! ## atoms -/

omit hsub in
theorem mirrors_strings : Mirrors strings strings Same := by
  have htext : Mirrors (loop stringsStep "") (loop stringsStep "") (@Eq String) := by
    refine .loop rfl fun text _ htext => .kind fun k => ?_
    subst htext
    split
    · exact .advance fun _ _ => .again rfl
    · exact .out rfl
  unfold strings
  refine .here fun _ _ => htext.bind fun text _ htext => .last fun _ _ => .pure ?_
  subst htext
  rfl

theorem mirrors_parenthesized : Mirrors (parenthesized sub) (parenthesized sub') Same := by
  unfold parenthesized
  refine .advance fun _ _ => .check fun _ => .ite (.advance fun _ _ => .pure rfl) ?_
  refine (hsub .full).bind fun first first' hfirst => .check fun _ => .ite (mirrors_fail _) (.check fun _ => .ite ?_ ?_)
  · refine (mirrors_moreItems (hsub .full)).bind fun others others' hothers => .expect fun _ _ => .pure ?_
    exact .tuple (hfirst.items hothers)
  · exact .expect fun _ _ => .pure hfirst

theorem mirrors_comprehension {start start' : Span} {element element' : Expr} (helement : Same element element') :
    Mirrors (comprehension sub start element) (comprehension sub' start' element') Same := by
  unfold comprehension
  refine .advance fun _ _ => (mirrors_targetList hsub).bind fun target target' htarget => .expect fun _ _ => ?_
  refine (hsub .disjunction).bind fun source source' hsource => .bind ?_ fun conditions conditions'
    (hconditions : SameBy (List.map Expr.spanless) conditions conditions') => ?_
  · refine .loop SameBy.nil fun acc acc' hacc => .eat ?_ (.out hacc.reverse)
    exact (hsub .disjunction).bind fun e e' he => .again (he.items hacc)
  · exact .expect fun _ _ => .pure (.comprehension helement htarget hsource hconditions)

theorem mirrors_list : Mirrors (list sub) (list sub') Same := by
  have hclose : ∀ (start start' : Span) (items items' : List Expr), SameBy (List.map Expr.spanless) items items' →
      Mirrors (do
        let bracket ← expect (.symbol .rightBracket)
        return Expr.list (start.merge bracket.span) items) (do
        let bracket ← expect (.symbol .rightBracket)
        return Expr.list (start'.merge bracket.span) items') Same :=
    fun _ _ _ _ hitems => .expect fun _ _ => .pure (.list hitems)
  unfold list
  refine .advance fun _ _ => .check fun _ => .check fun _ => .ite (hclose _ _ _ _ .nil) ?_
  refine (hsub .full).bind fun first first' hfirst => .check fun _ =>
    .ite (mirrors_comprehension hsub hfirst) (.eat ?_ ?_)
  · refine (mirrors_separated (f := Expr.spanless) (hsub .full)).bind fun others others' hothers => ?_
    exact hclose _ _ _ _ (hfirst.items hothers)
  · exact hclose _ _ _ _ (hfirst.items .nil)

theorem mirrors_entry : Mirrors (entry sub) (entry sub') (SameBy fun e => (e.1.spanless, e.2.spanless)) := by
  unfold entry
  refine (hsub .full).bind fun key key' hkey => .expect fun _ _ => (hsub .full).bind fun value value' hvalue => .pure ?_
  show (key'.spanless, value'.spanless) = (key.spanless, value.spanless)
  rw [hkey.eq, hvalue.eq]

theorem mirrors_dict : Mirrors (dict sub) (dict sub') Same := by
  unfold dict
  refine .advance fun _ _ => (mirrors_separated (mirrors_entry hsub)).bind fun entries entries' hentries => ?_
  exact .expect fun _ _ => .pure (.dict hentries)

theorem mirrors_yield : Mirrors (yield sub) (yield sub') Same := by
  unfold yield
  refine .advance fun _ _ => .kind fun _ => .ite (.pure (.yield rfl)) ?_
  exact (mirrors_expressionList hsub).bind fun value value' hvalue => .pure (.yield hvalue.some)

theorem mirrors_atom : Mirrors (atom sub) (atom sub') Same := by
  unfold atom
  refine .here fun span span' => .kind fun k => ?_
  split
  case h_3 => exact mirrors_strings
  case h_8 => exact mirrors_parenthesized hsub
  case h_9 => exact mirrors_list hsub
  case h_10 => exact mirrors_dict hsub
  case h_11 => exact mirrors_yield hsub
  case h_12 => exact mirrors_fail _
  all_goals exact .advance fun _ _ => .pure rfl

/-! ## attributes, subscripts and calls -/

theorem mirrors_sliceBound : Mirrors (sliceBound sub) (sliceBound sub') (SameBy (Option.map Expr.spanless)) := by
  unfold sliceBound
  refine .kind fun k => ?_
  split
  case h_4 => exact (hsub .full).bind fun e e' he => .pure he.some
  all_goals exact .pure rfl

theorem mirrors_sliceRest {start start' : Span} {lower lower' : Option Expr}
    (hlower : SameBy (Option.map Expr.spanless) lower lower') :
    Mirrors (sliceRest sub start lower) (sliceRest sub' start' lower') Same := by
  unfold sliceRest
  refine .advance fun _ _ => (mirrors_sliceBound hsub).bind fun upper upper' hupper => .eat ?_ ?_
  · exact (mirrors_sliceBound hsub).bind fun _ _ hstep => .last fun _ _ => .pure (.slice hlower hupper hstep)
  · exact .pure_bind (.last fun _ _ => .pure (.slice hlower hupper rfl))

theorem mirrors_subscript : Mirrors (subscript sub) (subscript sub') Same := by
  unfold subscript
  refine .here fun _ _ => .check fun _ => .ite (mirrors_sliceRest hsub rfl) ?_
  refine (mirrors_expressionList hsub).bind fun index index' hindex => .check fun _ => .ite ?_ (.pure hindex)
  exact mirrors_sliceRest hsub hindex.some

theorem mirrors_suffixed : Mirrors (suffixed sub) (suffixed sub') Same := by
  unfold suffixed
  refine (mirrors_atom hsub).bind fun base base' hbase => .loop hbase fun value value' hvalue => .kind fun k => ?_
  split
  · exact .advance fun _ _ => .identifier fun i i' hi => .again (hvalue.attribute hi)
  · refine .advance fun _ _ => (mirrors_subscript hsub).bind fun index index' hindex => .expect fun _ _ => ?_
    exact .again (hvalue.subscript hindex)
  · refine .advance fun _ _ => (mirrors_separated (mirrors_arg hsub)).bind fun args args' hargs => .expect fun _ _ => ?_
    exact .again (hvalue.call hargs)
  · exact .out hvalue

/-! ## the binding levels -/

theorem mirrors_factorUpTo (bound bound' : Nat) : Mirrors (factorUpTo sub bound) (factorUpTo sub' bound') Same := by
  induction bound generalizing bound' with
  | zero => exact mirrors_exhausted
  | succ bound ih =>
      have hround : ∀ bound', Mirrors (factorUpTo sub (bound + 1)) (factorUpTo sub' (bound' + 1)) Same := by
        intro bound'
        unfold factorUpTo
        refine .kind fun k => ?_
        cases signOp k with
        | some op => exact .advance fun _ _ => (ih bound').bind fun operand operand' h => .pure h.unary
        | none =>
            refine (mirrors_suffixed hsub).bind fun base base' hbase => .eat ?_ (.pure hbase)
            exact (ih bound').bind fun right right' hright => .pure (hbase.binary hright)
      cases bound' with
      | zero => exact (hround 0).cut
      | succ bound' => exact hround bound'

theorem mirrors_factor : Mirrors (factor sub) (factor sub') Same :=
  .bounded (mirrors_factorUpTo hsub)

theorem mirrors_term : Mirrors (term sub) (term sub') Same :=
  mirrors_leftGrouped (mirrors_factor hsub)

theorem mirrors_additive : Mirrors (additive sub) (additive sub') Same :=
  mirrors_leftGrouped (mirrors_term hsub)

theorem mirrors_shift : Mirrors (shift sub) (shift sub') Same :=
  mirrors_leftGrouped (mirrors_additive hsub)

theorem mirrors_bitAnd : Mirrors (bitAnd sub) (bitAnd sub') Same :=
  mirrors_leftGrouped (mirrors_shift hsub)

theorem mirrors_bitXor : Mirrors (bitXor sub) (bitXor sub') Same :=
  mirrors_leftGrouped (mirrors_bitAnd hsub)

theorem mirrors_bitOr : Mirrors (bitOr sub) (bitOr sub') Same :=
  mirrors_leftGrouped (mirrors_bitXor hsub)

omit hsub in
/-- A comparison does not start with the end of a line or a colon. -/
theorem compareOp?_of_border {k : TokenKind} (h : k.isLayout = true ∨ k = .symbol .colon) (l l' : TokenKind) :
    compareOp? k l = compareOp? k l' := by
  rcases h with h | rfl
  · cases k <;> first | rfl | cases h
  · rfl

/-- What can be compared is compared by one word or by two. -/
abbrev sameOperand : CompareOp × Expr → CompareOp × Expr :=
  fun operand => (operand.1, operand.2.spanless)

theorem mirrors_comparison : Mirrors (comparison sub) (comparison sub') Same := by
  unfold comparison
  refine (mirrors_bitOr hsub).bind fun left left' hleft => .bind ?_ fun rest rest'
    (hrest : SameBy (List.map sameOperand) rest rest') => ?_
  · refine .loop (SameBy.nil (f := sameOperand)) fun acc acc' hacc =>
      .kind_second (fun k l => ?_) fun k l l' hends => ?_
    · cases hop : compareOp? k l with
      | none => exact .out hacc.reverse
      | some found =>
          obtain ⟨op, both⟩ := found
          have hright : Mirrors (do
              let right ← bitOr sub
              return (.inl ((op, right) :: acc) : List (CompareOp × Expr) ⊕ List (CompareOp × Expr))) (do
              let right ← bitOr sub'
              return (.inl ((op, right) :: acc') : List (CompareOp × Expr) ⊕ List (CompareOp × Expr)))
              (Sum.LiftRel (SameBy (List.map sameOperand)) (SameBy (List.map sameOperand))) :=
            (mirrors_bitOr hsub).bind fun right right' hright => .again (.cons (congrArg (Prod.mk op) hright) hacc)
          exact .advance fun _ _ => .ite (.advance fun _ _ => hright) hright
    · rw [compareOp?_of_border hends l' l]
  · have hlast : rest'.getLast?.map sameOperand = rest.getLast?.map sameOperand := by
      rw [← List.getLast?_map, ← List.getLast?_map, hrest]
    cases hr : rest.getLast? with
    | none =>
        rw [hr] at hlast
        rw [Option.map_eq_none_iff.1 hlast]
        exact .pure hleft
    | some found =>
        rw [hr] at hlast
        obtain ⟨found', hr', -⟩ := Option.map_eq_some_iff.1 hlast
        rw [hr']
        refine .pure (hleft.compare ?_)
        rw [Expr.spanlessOperands_eq, Expr.spanlessOperands_eq]
        exact hrest

theorem mirrors_negationUpTo (bound bound' : Nat) :
    Mirrors (negationUpTo sub bound) (negationUpTo sub' bound') Same := by
  induction bound generalizing bound' with
  | zero => exact mirrors_exhausted
  | succ bound ih =>
      have hround : ∀ bound', Mirrors (negationUpTo sub (bound + 1)) (negationUpTo sub' (bound' + 1)) Same := by
        intro bound'
        unfold negationUpTo
        refine .check fun _ => .ite (.advance fun _ _ => ?_) (mirrors_comparison hsub)
        exact (ih bound').bind fun operand operand' h => .pure h.unary
      cases bound' with
      | zero => exact (hround 0).cut
      | succ bound' => exact hround bound'

theorem mirrors_negation : Mirrors (negation sub) (negation sub') Same :=
  .bounded (mirrors_negationUpTo hsub)

theorem mirrors_conjunction : Mirrors (conjunction sub) (conjunction sub') Same :=
  mirrors_leftGrouped (mirrors_negation hsub)

theorem mirrors_disjunction : Mirrors (disjunction sub) (disjunction sub') Same :=
  mirrors_leftGrouped (mirrors_conjunction hsub)

theorem mirrors_ternary : Mirrors (ternary sub) (ternary sub') Same := by
  unfold ternary
  refine (mirrors_disjunction hsub).bind fun body body' hbody => .eat ?_ (.pure hbody)
  refine (mirrors_disjunction hsub).bind fun test test' htest => .expect fun _ _ => ?_
  exact (hsub .full).bind fun orelse orelse' horelse => .pure (.ternary htest hbody horelse)

theorem mirrors_lambda : Mirrors (lambda sub) (lambda sub') Same := by
  unfold lambda
  refine .advance fun _ _ => (mirrors_params hsub _).bind fun ps ps' hps => .expect fun _ _ => ?_
  exact (hsub .full).bind fun body body' hbody => .pure (.lambda hps hbody)

omit hsub

theorem onwards_nested {p : Parser Expr} (h : Onwards p) : Onwards (nested p) := by
  intro s
  have hopen := h { s with depth := s.depth + 1 }
  by_cases hdepth : s.depth < maxNesting
  · rw [nested, if_pos hdepth]
    cases hp : p { s with depth := s.depth + 1 } with
    | done e t =>
        rw [hp] at hopen
        obtain ⟨hrest, heof, hdepth', hfaults⟩ := hopen
        exact ⟨hrest, heof, by rw [hdepth']; rfl, hfaults⟩
    | failed t =>
        rw [hp] at hopen
        obtain ⟨⟨hrest, heof, hdepth', hfaults⟩, hne⟩ := hopen
        exact ⟨⟨hrest, heof, by rw [hdepth']; rfl, hfaults⟩, hne⟩
    | exhausted => trivial
  · rw [nested, if_neg hdepth]
    exact onward_failed s _ _

/-- As many expressions are open on both sides. -/
theorem mirrors_nested {p p' : Parser Expr} (h : Mirrors p p' Same) : Mirrors (nested p) (nested p') Same := by
  refine fun tail tail' => ⟨onwards_nested (h tail tail').onwards, fun {s s' t e} hs hdone hholds hne => ?_⟩
  obtain ⟨hborder, hahead, heof, heof', hdepth, hclean, hclean'⟩ := hs
  unfold nested at hdone hne ⊢
  by_cases hroom : s.depth < maxNesting
  · rw [if_pos hroom] at hdone
    rw [if_pos (hdepth ▸ hroom)] at hne ⊢
    cases hp : p { s with depth := s.depth + 1 } with
    | done e₁ t₁ =>
        rw [hp] at hdone
        cases hdone
        have hopen : Abreast tail tail' { s with depth := s.depth + 1 } { s' with depth := s'.depth + 1 } :=
          ⟨hborder, hahead, heof, heof', congrArg (· + 1) hdepth, hclean, hclean'⟩
        have hne' : p' { s' with depth := s'.depth + 1 } ≠ .exhausted := by
          intro heq
          rw [heq] at hne
          exact hne rfl
        obtain ⟨e', t', hp', he, ⟨hborder₁, hahead₁, heof₁, heof₁', hdepth₁, hclean₁, hclean₁'⟩⟩ :=
          (h tail tail').agrees hopen hp ⟨hholds.clean, hholds.room⟩ hne'
        refine ⟨e', { t' with depth := t'.depth - 1 }, ?_, he, hborder₁, hahead₁, heof₁, heof₁', ?_, hclean₁, hclean₁'⟩
        · rw [hp']
        · exact congrArg (· - 1) hdepth₁
    | failed t₁ =>
        rw [hp] at hdone
        cases hdone
    | exhausted =>
        rw [hp] at hdone
        cases hdone
  · rw [if_neg hroom] at hdone
    cases hdone

include hsub

theorem mirrors_full : Mirrors (full sub) (full sub') Same :=
  mirrors_nested (.check fun _ => .ite (mirrors_lambda hsub) (mirrors_ternary hsub))

end

theorem mirrors_parseAt (bound bound' : Nat) (level : Level) :
    Mirrors (parseAt bound level) (parseAt bound' level) Same := by
  induction bound generalizing bound' level with
  | zero => exact mirrors_exhausted
  | succ bound ih =>
      have hround : ∀ bound', Mirrors (parseAt (bound + 1) level) (parseAt (bound' + 1) level) Same := by
        intro bound'
        cases level with
        | full => exact mirrors_full (ih bound')
        | disjunction => exact mirrors_disjunction (ih bound')
        | bitwise => exact mirrors_bitOr (ih bound')
      cases bound' with
      | zero => exact (hround 0).cut
      | succ bound' => exact hround bound'

/-- An expression is read from the kinds of its tokens alone. -/
theorem mirrors_expressionAt (level : Level) : Mirrors (expressionAt level) (expressionAt level) Same :=
  .bounded fun bound bound' => mirrors_parseAt bound bound' level

end Parser

end ViewSync
