import ViewSync.Parser.Statement
import ViewSync.Proofs.Parser.Rows

/-!
# ViewSync.Proofs.Parser.Built

Expressions stay on a logical line, and their trees are rows over the tokens that they are built of
(`walks_expressionAt`). There is one lemma per rule of the grammar.
-/

namespace ViewSync

namespace Parser

open SpanTree

variable {α : Type}

/-- An expression whose tree is a row over the tokens used up for it. -/
def Built (used : List Token) (e : Expr) : Prop :=
  Carries used [e.tree]

/-! ## operators -/

/-- Operators are tokens with a text of their own. -/
theorem isLayout_of_op {β : Type} {op? : TokenKind → Option β} {k : TokenKind} {op : β}
    (hnone : [TokenKind.newline, .indent, .dedent, .eof].map op? = [none, none, none, none]) (h : op? k = some op) :
    k.isLayout = false := by
  simp only [List.map_cons, List.cons.injEq] at hnone
  obtain ⟨hnewline, hindent, hdedent, heof, -⟩ := hnone
  cases k with
  | newline => cases hnewline.symm.trans h
  | indent => cases hindent.symm.trans h
  | dedent => cases hdedent.symm.trans h
  | eof => cases heof.symm.trans h
  | _ => rfl

theorem built_binary {used more : List Token} {left right : Expr} (hleft : Built used left) (hright : Built more right)
    (op : BinaryOp) : Built (used ++ more) (binary left op right) :=
  (hleft.append hright).joined rfl rfl (List.Sublist.refl _)

theorem walks_leftGrouped {op? : TokenKind → Option BinaryOp} {operand : Parser Expr}
    (hnone : [TokenKind.newline, .indent, .dedent, .eof].map op? = [none, none, none, none])
    (h : Walks operand Built) : Walks (leftGrouped op? operand) Built := by
  refine h.bind fun first used hfirst s => ?_
  refine WalksAt.loop (fun more left => Built (used ++ more) left) (by simpa using hfirst) ?_
  intro left more s' _ hleft
  refine .kind ?_
  cases hop : op? s'.peek.kind with
  | none => exact .pure (by simpa [Round] using hleft)
  | some op =>
      refine .advance (isLayout_of_op hnone hop) fun s'' _ => (h s'').bind fun right read _ _ hright => .pure ?_
      exact (built_binary hleft hright op).mono (by grind)

/-! ## lists -/

theorem walks_separated (trees : α → List SpanTree) (stop : TokenKind) {item : Parser α}
    (h : Walks item fun used a => Carries used (trees a)) :
    Walks (separated stop item) fun used items => Carries used (items.flatMap trees) := by
  intro s
  refine WalksAt.loop (fun used acc => Carries used (acc.reverse.flatMap trees)) carries_nil ?_
  intro acc used s' _ hacc
  refine .check (.check (.ite (fun _ => .pure (by simpa [Round] using hacc)) fun _ => ?_))
  refine (h s').bind fun a read _ _ ha => ?_
  have hmore : Carries (used ++ read) ((a :: acc).reverse.flatMap trees) := by simpa using hacc.append ha
  refine .eat rfl (fun t _ _ _ => .pure ?_) (.pure ?_)
  · exact hmore.mono (by grind)
  · simpa [Round] using hmore

theorem walks_moreItems (stop : TokenKind → Bool) {item : Parser Expr} (h : Walks item Built) :
    Walks (moreItems stop item) fun used items => Carries used (items.map Expr.tree) := by
  intro s
  refine WalksAt.loop (fun used acc => Carries used (acc.reverse.map Expr.tree)) carries_nil ?_
  intro acc used s' _ hacc
  refine .eat rfl (fun t s'' _ _ => .kind (.ite (fun _ => .pure ?_) fun _ => ?_)) (.pure ?_)
  · exact hacc.mono (by grind)
  · refine (h s'').bind fun e read _ _ he => .pure ?_
    have hmore : Carries (used ++ read) ((e :: acc).reverse.map Expr.tree) := by simpa using hacc.append he
    exact hmore.mono (by grind)
  · simpa [Round] using hacc

theorem built_bareTuple {used more : List Token} {first : Expr} {others : List Expr} (hfirst : Built used first)
    (hothers : Carries more (others.map Expr.tree)) : Built (used ++ more) (bareTuple first others) := by
  have hrow := hfirst.append hothers
  rw [Built, bareTuple, Expr.tree_tuple]
  cases hlast : others.getLast? with
  | none =>
      obtain rfl := List.getLast?_eq_none_iff.1 hlast
      exact hrow.joined rfl rfl (List.Sublist.refl _)
  | some e =>
      refine hrow.joined (b := e.tree) rfl ?_ (List.Sublist.refl _)
      simp [List.getLast?_cons, hlast]

theorem walks_bareList (stop : TokenKind → Bool) {item : Parser Expr} (h : Walks item Built) :
    Walks (bareList stop item) Built := by
  refine h.bind fun first used hfirst s => .check (.ite (fun _ => ?_) fun _ => .pure (by simpa using hfirst))
  refine (walks_moreItems stop h s).bind fun others more _ _ hothers => .pure ?_
  exact (built_bareTuple hfirst hothers).mono (by grind)

/-! ## the grammar -/

/-- A name is one token, and a node. -/
theorem walks_name : Walks identifier fun used i => ∃ t, used = [t] ∧ Carries [t] [i.tree] := by
  refine walks_identifier.mono fun used i h => ?_
  obtain ⟨t, rfl, hkind, hspan⟩ := h
  rw [Ident.tree, ← hspan]
  exact ⟨t, rfl, carries_token (hkind ▸ rfl)⟩

section

variable {sub : Sub} (hsub : ∀ level, Walks (sub level) Built)

include hsub

theorem walks_expressionList : Walks (expressionList sub) Built :=
  walks_bareList endsList (hsub .full)

theorem walks_targetList : Walks (targetList sub) Built :=
  walks_bareList _ (hsub .bitwise)

theorem walks_param (stop : TokenKind) : Walks (param sub stop) fun used p => Carries used [p.tree] := by
  refine walks_name.bind fun name used hname => ?_
  obtain ⟨t, rfl, hname⟩ := hname
  have hdefault : ∀ read, Walks (do
      if ← eat (.symbol .eq) then
        let value ← sub .full
        return Param.mk name (some value) (name.span.merge value.span)
      else return ⟨name, none, name.span⟩) fun more p => Carries ([t] ++ (read ++ more)) [p.tree] := by
    intro read s
    refine .eat rfl (fun t' s' _ _ => (hsub .full s').bind fun value read' _ _ hvalue => .pure ?_) (.pure ?_)
    · have hrow : Carries ([t] ++ read') [.node .other (name.span.merge value.span) [name.tree, value.tree]] :=
        (hname.append hvalue).joined rfl rfl (List.Sublist.refl _)
      exact hrow.mono (by grind)
    · have hrow : Carries [t] [.node .other (name.span.merge name.span) [name.tree]] :=
        hname.joined rfl rfl (List.Sublist.refl _)
      rw [Span.merge_self] at hrow
      exact hrow.mono (by grind)
  intro s
  refine .ite (fun _ => .eat rfl (fun t' s' _ _ => ?_) ?_) fun _ => hdefault [] s
  · refine (hsub .full s').bind fun _ read s'' _ _ => ?_
    exact (hdefault ([t'] ++ read) s'').mono fun more p _ hp => by simpa using hp
  · exact hdefault [] s

theorem walks_params (stop : TokenKind) :
    Walks (params sub stop) fun used ps => Carries used (ps.map Param.tree) := by
  refine (walks_separated (fun p : Param => [p.tree]) stop (walks_param hsub stop)).mono fun used ps hps => ?_
  rwa [← List.map_eq_flatMap] at hps

theorem walks_arg : Walks (arg sub) fun used a => Carries used a.trees := by
  intro s
  have hpositional : WalksAt (do return Arg.positional (← sub .full)) s fun used a => Carries used a.trees :=
    (hsub .full s).bind fun e used _ _ he => .pure (by rw [List.append_nil]; exact he)
  refine .kind ?_
  split
  · next hkind =>
      refine .advance (hkind ▸ rfl) fun s' _ => (hsub .full s').bind fun e used _ _ he => .pure ?_
      exact he.mono (by grind)
  · next hkind =>
      refine .advance (hkind ▸ rfl) fun s' _ => (hsub .full s').bind fun e used _ _ he => .pure ?_
      exact he.mono (by grind)
  · next name hkind =>
      refine .second (.ite (fun hsecond => ?_) fun _ => hpositional)
      refine (walks_name s).bind fun i used s' hwalks hi => ?_
      obtain ⟨t, rfl, hi⟩ := hi
      have heq := hwalks.toReads.peek_kind_of_second (beq_iff_eq.1 hsecond) nofun
      refine .advance (heq ▸ rfl) fun s'' _ => (hsub .full s'').bind fun e used' _ _ he => .pure ?_
      exact (hi.append he).mono (by grind)
  · exact hpositional

/-! ## atoms -/

omit hsub in
/-- String literals that stand one behind the other. -/
theorem walksAt_strings {s : ParseState} {part : String} (hkind : s.peek.kind = .str part) :
    WalksAt strings s Built := by
  refine .here (WalksAt.bind (?_ : WalksAt _ s fun used _ => used ≠ []) fun text used s' hwalks hne => ?_)
  · refine WalksAt.loop (fun _ _ => True) trivial fun text used s' hwalks _ => .kind ?_
    split
    · next hpart => exact .advance (hpart ▸ rfl) fun _ _ => .pure trivial
    · next hother =>
        refine .pure ?_
        rintro hused
        obtain ⟨rfl, -⟩ := List.append_eq_nil_iff.1 hused
        exact hother part (by rw [hwalks.toReads.peek_eq, hkind])
  · refine .last (.pure ?_)
    rw [List.append_nil]
    exact carries_walked hwalks hne carries_nil

/-- An expression in parentheses has the span that it has without them. -/
theorem walksAt_parenthesized {s : ParseState} (hkind : s.peek.kind = .symbol .leftParen) :
    WalksAt (parenthesized sub) s Built := by
  have hopen : s.peek.kind.isLayout = false := hkind ▸ rfl
  refine .advance hopen fun s₁ _ => .check (.ite (fun hclose => ?_) fun _ => ?_)
  · have hclose : s₁.peek.kind = .symbol .rightParen := beq_iff_eq.1 hclose
    have hworded : s₁.peek.kind.isLayout = false := hclose ▸ rfl
    have hrow : Built (s.peek :: ([] ++ [s₁.peek])) (.tuple (s.peek.span.merge s₁.peek.span) []) :=
      carries_between hopen hworded carries_nil
    exact .advance hworded fun _ _ => .pure hrow
  refine (hsub .full s₁).bind fun first used s₂ _ hfirst => .check (.ite (fun _ => walksAt_fail nofun) fun _ => ?_)
  refine .check (.ite (fun _ => ?_) fun _ => ?_)
  · refine (walks_moreItems _ (hsub .full) s₂).bind fun others more s₃ _ hothers =>
      (walks_expect rfl s₃).bind fun close read _ _ hclose => .pure ?_
    obtain ⟨rfl, hclose⟩ := hclose
    rw [Built, Expr.tree_tuple]
    exact (carries_between hopen (hclose ▸ rfl) (hfirst.append hothers)).mono (by grind)
  · exact (walks_expect rfl s₂).bind fun _ _ _ _ _ => .pure (hfirst.mono (by grind))

/-- A comprehension, behind its bracket and its element. -/
theorem walksAt_comprehension {t : Token} {used : List Token} {element : Expr} {s : ParseState}
    (ht : t.kind.isLayout = false) (helement : Built used element) (hfor : s.peek.kind = .keyword .for_) :
    WalksAt (comprehension sub t.span element) s fun more e => Built (t :: (used ++ more)) e := by
  refine .advance (hfor ▸ rfl) fun s₁ _ => (walks_targetList hsub s₁).bind fun target u₁ s₂ _ htarget =>
    (walks_expect rfl s₂).bind fun _ u₂ s₃ _ _ => (hsub .disjunction s₃).bind fun source u₃ s₄ _ hsource =>
    WalksAt.bind (?_ : WalksAt _ s₄ fun read es => Carries read (es.map Expr.tree))
      fun conditions u₄ s₅ _ hconditions => (walks_expect rfl s₅).bind fun close u₅ _ _ hclose => .pure ?_
  · refine WalksAt.loop (fun read acc => Carries read (acc.reverse.map Expr.tree)) carries_nil ?_
    intro acc read s' _ hacc
    refine .eat rfl (fun t s'' _ _ => (hsub .disjunction s'').bind fun e u _ _ he => .pure ?_) (.pure ?_)
    · have hmore : Carries (read ++ u) ((e :: acc).reverse.map Expr.tree) := by simpa using hacc.append he
      exact hmore.mono (by grind)
    · simpa [Round] using hacc
  · obtain ⟨rfl, hclose⟩ := hclose
    have htarget : Carries u₁ [target.target] := htarget.roles rfl
    have hrow := (helement.append htarget).append (hsource.append hconditions)
    rw [Built, Expr.tree_comprehension]
    exact (carries_between ht (hclose ▸ rfl) hrow).mono (by grind)

theorem walksAt_list {s : ParseState} (hkind : s.peek.kind = .symbol .leftBracket) : WalksAt (list sub) s Built := by
  have hopen : s.peek.kind.isLayout = false := hkind ▸ rfl
  have hclose : ∀ used items, Carries used (items.map Expr.tree) → Walks (do
      let bracket ← expect (.symbol .rightBracket)
      return Expr.list (s.peek.span.merge bracket.span) items) fun more e => Built (s.peek :: (used ++ more)) e := by
    intro used items hitems s'
    refine (walks_expect rfl s').bind fun close read _ _ hclose => .pure ?_
    obtain ⟨rfl, hclose⟩ := hclose
    rw [Built, Expr.tree_list]
    exact (carries_between hopen (hclose ▸ rfl) hitems).mono (by grind)
  refine .advance hopen fun s₁ _ => .check (.check (.ite (fun _ => hclose [] [] carries_nil s₁) fun _ => ?_))
  refine (hsub .full s₁).bind fun first used s₂ _ hfirst => .check (.ite (fun hfor => ?_) fun _ => .eat rfl ?_ ?_)
  · exact walksAt_comprehension hsub hopen hfirst (beq_iff_eq.1 hfor)
  · refine fun t s₃ _ _ => (walks_separated (fun e : Expr => [e.tree]) _ (hsub .full) s₃).bind
      fun others more s₄ _ hothers => ?_
    rw [← List.map_eq_flatMap] at hothers
    have hitems : Carries (used ++ ([t] ++ more)) ((first :: others).map Expr.tree) :=
      (hfirst.append hothers).mono (by grind)
    exact (hclose _ _ hitems s₄).mono fun read e _ he => by simpa using he
  · exact hclose used [first] hfirst s₂

theorem walks_entry :
    Walks (entry sub) fun used entry => Carries used [entry.1.tree, entry.2.tree] :=
  (hsub .full).bind fun _ _ hkey => (walks_expect rfl).bind fun _ _ _ => (hsub .full).bind fun _ _ hvalue =>
    .pure ((hkey.append hvalue).mono (by grind))

theorem walksAt_dict {s : ParseState} (hkind : s.peek.kind = .symbol .leftBrace) : WalksAt (dict sub) s Built := by
  have hopen : s.peek.kind.isLayout = false := hkind ▸ rfl
  refine .advance hopen fun s₁ _ => (walks_separated _ _ (walks_entry hsub) s₁).bind fun entries used s₂ _ hentries =>
    (walks_expect rfl s₂).bind fun close read _ _ hclose => .pure ?_
  obtain ⟨rfl, hclose⟩ := hclose
  rw [Built, Expr.tree_dict]
  exact (carries_between hopen (hclose ▸ rfl) hentries).mono (by grind)

theorem walksAt_yield {s : ParseState} (hworded : s.peek.kind.isLayout = false) : WalksAt (yield sub) s Built := by
  refine .advance hworded fun s₁ _ => .kind (.ite (fun _ => .pure (carries_token hworded)) fun _ => ?_)
  refine (walks_expressionList hsub s₁).bind fun value used _ _ hvalue => .pure ?_
  exact (carries_behind hworded hvalue).mono (by grind)

theorem walks_atom : Walks (atom sub) Built := by
  intro s
  have hleaf : ∀ e : Expr, e.tree = .leaf s.peek.span → s.peek.kind.isLayout = false →
      WalksAt (do let _ ← advance; return e) s Built := by
    intro e he hworded
    refine .advance hworded fun _ _ => .pure ?_
    rw [Built, he]
    exact carries_token hworded
  refine .here (.kind ?_)
  split
  · next hkind => exact hleaf _ rfl (hkind ▸ rfl)
  · next hkind => exact hleaf _ rfl (hkind ▸ rfl)
  · next hkind => exact walksAt_strings hkind
  · next hkind => exact hleaf _ rfl (hkind ▸ rfl)
  · next hkind => exact hleaf _ rfl (hkind ▸ rfl)
  · next hkind => exact hleaf _ rfl (hkind ▸ rfl)
  · next hkind => exact hleaf _ rfl (hkind ▸ rfl)
  · next hkind => exact walksAt_parenthesized hsub hkind
  · next hkind => exact walksAt_list hsub hkind
  · next hkind => exact walksAt_dict hsub hkind
  · next hkind => exact walksAt_yield hsub (hkind ▸ rfl)
  · exact walksAt_fail fun k hk => (Option.some.inj hk).symm

/-! ## attributes, subscripts and calls -/

theorem walks_sliceBound : Walks (sliceBound sub) fun used e => Carries used (e.toList.map Expr.tree) := by
  intro s
  refine .kind ?_
  split
  · exact .pure carries_nil
  · exact .pure carries_nil
  · exact .pure carries_nil
  · exact (hsub .full s).bind fun e used _ _ he => .pure (by rw [List.append_nil]; exact he)

/-- The rest of a slice, behind its lower bound. -/
theorem walksAt_sliceRest {s s' : ParseState} {used : List Token} {lower : Option Expr} (hwalks : s.Walks used s')
    (hlower : Carries used (lower.toList.map Expr.tree)) (hcolon : s'.peek.kind = .symbol .colon) :
    WalksAt (sliceRest sub s.peek.span lower) s' fun more e => Built (used ++ more) e := by
  refine .advance (hcolon ▸ rfl) fun s₁ h₁ => (walks_sliceBound hsub s₁).bind fun upper u₁ s₂ h₂ hupper => ?_
  have hslice : ∀ {step : Option Expr} {read s₃}, s₂.Walks read s₃ → Carries read (step.toList.map Expr.tree) →
      Built (used ++ ([s'.peek] ++ (u₁ ++ read))) (.slice (s.peek.span.merge s₃.last) lower upper step) := by
    intro step read s₃ h₃ hstep
    have hrow := hlower.append (hupper.append hstep)
    rw [Built, Expr.tree_slice]
    exact carries_walked (hwalks.trans (h₁.trans (h₂.trans h₃))) (by simp) (hrow.mono (by grind))
  refine .eat rfl (fun t s₃ _ h₃ => (walks_sliceBound hsub s₃).bind fun step u₂ s₄ h₄ hstep => .last (.pure ?_))
    (WalksAt.bind (.pure ⟨rfl, rfl⟩ : WalksAt _ s₂ fun read step => read = [] ∧ step = none)
      fun step u₂ s₃ h₃ hstep => .last (.pure ?_))
  · have hrow : Carries ([t] ++ u₂) (step.toList.map Expr.tree) := hstep.mono (by grind)
    exact (hslice (h₃.trans h₄) hrow).mono (by grind)
  · obtain ⟨rfl, rfl⟩ := hstep
    exact (hslice h₃ carries_nil).mono (by grind)

theorem walks_subscript : Walks (subscript sub) Built := by
  intro s
  refine .here (.check (.ite (fun hcolon => ?_) fun _ => ?_))
  · exact walksAt_sliceRest hsub (.refl s) carries_nil (beq_iff_eq.1 hcolon)
  refine (walks_expressionList hsub s).bind fun index used s' hwalks hindex =>
    .check (.ite (fun hcolon => ?_) fun _ => .pure (by rw [List.append_nil]; exact hindex))
  exact walksAt_sliceRest hsub hwalks hindex (beq_iff_eq.1 hcolon)

theorem walks_suffixed : Walks (suffixed sub) Built := by
  refine (walks_atom hsub).bind fun base used hbase s => ?_
  refine WalksAt.loop (fun more value => Built (used ++ more) value) (by simpa using hbase) ?_
  intro value more s' _ hvalue
  refine .kind ?_
  split
  · next hkind =>
      refine .advance (hkind ▸ rfl) fun s₁ _ => (walks_name s₁).bind fun attr read _ _ hattr => .pure ?_
      obtain ⟨t, rfl, hattr⟩ := hattr
      have hrow : Built _ (.attribute (value.span.merge attr.span) value attr) :=
        (hvalue.append hattr).joined rfl rfl (List.Sublist.refl _)
      exact hrow.mono (by grind)
  · next hkind =>
      refine .advance (hkind ▸ rfl) fun s₁ _ => (walks_subscript hsub s₁).bind fun index read s₂ _ hindex =>
        (walks_expect rfl s₂).bind fun close _ _ _ hclose => .pure ?_
      obtain ⟨rfl, hclose⟩ := hclose
      have hrow : Built _ (.subscript (value.span.merge close.span) value index) :=
        carries_closed (hclose ▸ rfl) hvalue hindex
      exact hrow.mono (by grind)
  · next hkind =>
      refine .advance (hkind ▸ rfl) fun s₁ _ => (walks_separated Arg.trees _ (walks_arg hsub) s₁).bind
        fun args read s₂ _ hargs => (walks_expect rfl s₂).bind fun close _ _ _ hclose => .pure ?_
      obtain ⟨rfl, hclose⟩ := hclose
      have hrow : Built (used ++ more ++ (read ++ [close])) (.call (value.span.merge close.span) value args) := by
        rw [Built, Expr.tree_call]
        exact carries_closed (hclose ▸ rfl) hvalue hargs
      exact hrow.mono (by grind)
  · exact .pure (by simpa [Round] using hvalue)

/-! ## binding levels -/

omit hsub in
/-- The second token of a comparison has a text of its own. -/
theorem second_of_compareOp {first second : TokenKind} {op : CompareOp}
    (h : compareOp? first second = some (op, true)) : second.isLayout = false := by
  unfold compareOp? at h
  split at h
  case h_8 =>
    split at h
    · next heq => rw [beq_iff_eq.1 heq]; rfl
    · cases h
  case h_9 =>
    split at h
    · next heq => rw [beq_iff_eq.1 heq]; rfl
    · cases h
  all_goals cases h

theorem walks_factorUpTo (bound : Nat) : Walks (factorUpTo sub bound) Built := by
  induction bound with
  | zero => exact walks_exhausted _
  | succ bound ih =>
      intro s
      refine .kind ?_
      cases hop : signOp s.peek.kind with
      | some op =>
          have hworded := isLayout_of_op rfl hop
          refine .advance hworded fun s' _ => (ih s').bind fun operand used _ _ hoperand => .pure ?_
          exact (carries_behind hworded hoperand).mono (by grind)
      | none =>
          refine (walks_suffixed hsub s).bind fun base used s' _ hbase => .eat rfl (fun t s'' _ _ => ?_) ?_
          · refine (ih s'').bind fun exponent more _ _ hexponent => .pure ?_
            exact (built_binary hbase hexponent .pow).mono (by grind)
          · exact .pure (by simpa using hbase)

theorem walks_bitOr : Walks (bitOr sub) Built :=
  have hfactor : Walks (factor sub) Built := fun _ => .bounded fun bound => walks_factorUpTo hsub bound _
  have hshift : Walks (shift sub) Built :=
    walks_leftGrouped rfl (walks_leftGrouped rfl (walks_leftGrouped rfl hfactor))
  walks_leftGrouped rfl (walks_leftGrouped rfl (walks_leftGrouped rfl hshift))

theorem walks_comparison : Walks (comparison sub) Built := by
  refine (walks_bitOr hsub).bind fun left u₁ hleft s => WalksAt.bind
    (?_ : WalksAt _ s fun used rest => Carries used (rest.map fun operand => operand.2.tree))
    fun rest u₂ _ _ hrest => ?_
  · refine WalksAt.loop (fun used acc => Carries used (acc.reverse.map fun operand => operand.2.tree)) carries_nil ?_
    intro acc used s' _ hacc
    have hmore : ∀ {read : List Token} {op : CompareOp} {right : Expr}, Built read right →
        Carries (used ++ read) (((op, right) :: acc).reverse.map fun operand => operand.2.tree) := by
      intro read op right hright
      simpa using hacc.append hright
    refine .kind (.second ?_)
    cases hop : compareOp? s'.peek.kind s'.second with
    | none => exact .pure (by simpa [Round] using hacc)
    | some found =>
        obtain ⟨op, both⟩ := found
        have hnone : [TokenKind.newline, .indent, .dedent, .eof].map (fun k => compareOp? k s'.second) =
            [none, none, none, none] := rfl
        have hworded : s'.peek.kind.isLayout = false := isLayout_of_op hnone hop
        refine .advance hworded fun s₁ h₁ => .ite (fun hboth => ?_) fun _ => ?_
        · have hsecond : s'.second.isLayout = false := second_of_compareOp (hboth ▸ hop)
          have hne : s'.second ≠ .eof := fun heq => by rw [heq] at hsecond; cases hsecond
          have hnext : s₁.peek.kind.isLayout = false := h₁.toReads.peek_kind_of_second rfl hne ▸ hsecond
          refine .advance hnext fun s₂ _ => (walks_bitOr hsub s₂).bind fun right read _ _ hright => .pure ?_
          exact (hmore hright).mono (by grind)
        · refine (walks_bitOr hsub s₁).bind fun right read _ _ hright => .pure ?_
          exact (hmore hright).mono (by grind)
  · cases hlast : rest.getLast? with
    | none => exact .pure (hleft.mono (by grind))
    | some found =>
        obtain ⟨op, right⟩ := found
        refine .pure ?_
        have hrow := (hleft.append hrest).joined (r := .other) (b := right.tree) rfl
          (by simp [List.getLast?_cons, List.getLast?_map, hlast]) (List.Sublist.refl _)
        rw [Built, Expr.tree_compare]
        exact hrow.mono (by grind)

theorem walks_negationUpTo (bound : Nat) : Walks (negationUpTo sub bound) Built := by
  induction bound with
  | zero => exact walks_exhausted _
  | succ bound ih =>
      intro s
      refine .check (.ite (fun hnot => ?_) fun _ => walks_comparison hsub s)
      have hworded : s.peek.kind.isLayout = false := beq_iff_eq.1 hnot ▸ rfl
      refine .advance hworded fun s' _ => (ih s').bind fun operand used _ _ hoperand => .pure ?_
      exact (carries_behind hworded hoperand).mono (by grind)

theorem walks_disjunction : Walks (disjunction sub) Built :=
  walks_leftGrouped rfl (walks_leftGrouped rfl fun _ => .bounded fun bound => walks_negationUpTo hsub bound _)

theorem walks_ternary : Walks (ternary sub) Built := by
  refine (walks_disjunction hsub).bind fun body u₁ hbody s => .eat rfl (fun t s' _ _ => ?_) ?_
  · refine (walks_disjunction hsub s').bind fun test u₂ s₂ _ htest => (walks_expect rfl s₂).bind fun _ u₃ s₃ _ _ =>
      (hsub .full s₃).bind fun orelse u₄ _ _ horelse => .pure ?_
    have hrow := (hbody.append (htest.append horelse)).joined (r := .other) rfl rfl (List.Sublist.refl _)
    exact hrow.mono (by grind)
  · exact .pure (by simpa using hbody)

theorem walksAt_lambda {s : ParseState} (hworded : s.peek.kind.isLayout = false) : WalksAt (lambda sub) s Built := by
  refine .advance hworded fun s₁ _ => (walks_params hsub _ s₁).bind fun ps u₁ s₂ _ hps =>
    (walks_expect rfl s₂).bind fun _ u₂ s₃ _ _ => (hsub .full s₃).bind fun body u₃ _ _ hbody => .pure ?_
  have hrow := (carries_token hworded).append (hps.append hbody)
  have hspan := hrow.joined (r := .other) (b := body.tree) rfl (by simp [List.getLast?_cons])
    (List.sublist_append_right _ _)
  rw [Built, Expr.tree_lambda]
  exact hspan.mono (by grind)

end

/-- How many expressions are open does not matter. -/
theorem walks_nested {p : Parser Expr} {post : List Token → Expr → Prop} (h : Walks p post) :
    Walks (nested p) post := by
  intro s hs
  have hopen := h { s with depth := s.depth + 1 } hs
  by_cases hdepth : s.depth < maxNesting
  · rw [nested, if_pos hdepth]
    cases hp : p { s with depth := s.depth + 1 } with
    | done e s' =>
        rw [hp] at hopen
        obtain ⟨used, ⟨⟨hrest, heof⟩, hworded, hlast, hdepth', hfaults⟩, he⟩ := hopen
        exact ⟨used, ⟨⟨hrest, heof⟩, hworded, hlast, by rw [hdepth']; rfl, hfaults⟩, he⟩
    | failed s' =>
        rw [hp] at hopen
        obtain ⟨used, mid, cause, ⟨⟨hrest, heof⟩, hworded, hlast, hdepth', hfaults⟩, hfound, rfl⟩ := hopen
        exact ⟨used, { mid with depth := mid.depth - 1 }, cause,
          ⟨⟨hrest, heof⟩, hworded, hlast, by rw [hdepth']; rfl, hfaults⟩, hfound, rfl⟩
    | exhausted => trivial
  · have hfail : WalksAt (fail .nestingTooDeep) s post := walksAt_fail (by simp [ParseError.found?])
    rw [nested, if_neg hdepth]
    exact hfail hs

theorem walks_parseAt (bound : Nat) : ∀ level, Walks (parseAt bound level) Built := by
  induction bound with
  | zero => exact fun _ => walks_exhausted _
  | succ bound ih =>
      rintro (_ | _ | _)
      · refine walks_nested fun s => .check (.ite (fun hlambda => ?_) fun _ => walks_ternary ih s)
        exact walksAt_lambda ih (beq_iff_eq.1 hlambda ▸ rfl)
      · exact walks_disjunction ih
      · exact walks_bitOr ih

/-- The tree of an expression is a row over the tokens that it was read from. -/
theorem walks_expressionAt (level : Level) : Walks (expressionAt level) Built :=
  fun _ => .bounded fun bound => walks_parseAt bound level _

/-! ## simple statements -/

/-- A statement whose trees are a row over the tokens used up for it. -/
def StmtBuilt (used : List Token) (stmt : Stmt) : Prop :=
  Carries used stmt.trees

/-- Over no tokens there are no trees. -/
theorem Built.ne_nil {used : List Token} {e : Expr} (h : Built used e) : used ≠ [] := by
  rintro rfl
  have hrow := h ⟨nofun, .nil⟩
  obtain ⟨u, hu, -⟩ := hrow.starts e.tree (List.mem_singleton_self _)
  cases hu

theorem walks_assignedValues : Walks assignedValues fun used es => Carries used (es.map Expr.tree) := by
  intro s
  refine WalksAt.loop (fun used acc => Carries used (acc.reverse.map Expr.tree)) carries_nil ?_
  intro acc used s' _ hacc
  refine .eat rfl (fun t s'' _ _ => ?_) (.pure (by simpa [Round] using hacc))
  refine (walks_expressionList walks_expressionAt s'').bind fun e read _ _ he => .pure ?_
  have hmore : Carries (used ++ read) ((e :: acc).reverse.map Expr.tree) := by simpa using hacc.append he
  exact hmore.mono (by grind)

theorem walksAt_assignment (s : ParseState) : WalksAt (assignment s.peek.span) s StmtBuilt := by
  refine (walks_expressionList walks_expressionAt s).bind fun first u₁ s₁ h₁ hfirst =>
    (walks_assignedValues s₁).bind fun values u₂ s₂ h₂ hvalues => ?_
  have hne := hfirst.ne_nil
  cases hlast : values.getLast? with
  | some value =>
      refine .last (.pure ?_)
      obtain ⟨others, rfl⟩ := List.getLast?_eq_some_iff.1 hlast
      have hrow := hfirst.append hvalues
      have htargets : Carries (u₁ ++ u₂) ((first :: others).map Expr.target ++ [value.tree]) :=
        hrow.roles (by simp [Expr.target, Expr.tree, plain])
      have hnode := carries_walked (r := .other) (h₁.trans h₂) (by simp [hne]) htargets
      simpa [StmtBuilt, Stmt.trees] using hnode
  | none =>
      obtain rfl := List.getLast?_eq_none_iff.1 hlast
      refine .kind ?_
      split
      · next op hkind =>
          refine .advance (hkind ▸ rfl) fun s₃ h₃ =>
            (walks_expressionList walks_expressionAt s₃).bind fun value u₄ s₄ h₄ hvalue => .last (.pure ?_)
          have htargets : Carries (u₁ ++ u₄) [first.target, value.tree] :=
            (hfirst.append hvalue).roles (by simp [Expr.target, Expr.tree, plain])
          have hnode := carries_walked (r := .other) (h₁.trans (h₂.trans (h₃.trans h₄))) (by simp [hne])
            (htargets.mono (by grind))
          exact hnode.mono (by grind)
      · refine .last (.pure ?_)
        have hnode := carries_walked (r := .other) (h₁.trans h₂) (by simp [hne]) (hfirst.mono (by grind))
        exact hnode.mono (by grind)

theorem walks_deleteTargets : Walks deleteTargets fun used es => Carries used (es.map Expr.tree) := by
  refine (walks_expressionAt .bitwise).bind fun first u₁ hfirst s => WalksAt.bind
    (?_ : WalksAt _ s fun used es => Carries used (es.map Expr.tree)) fun others u₂ _ _ hothers => .pure ?_
  · refine WalksAt.loop (fun used acc => Carries used (acc.reverse.map Expr.tree)) carries_nil ?_
    intro acc used s' _ hacc
    refine .eat rfl (fun t s'' _ _ => ?_) (.pure (by simpa [Round] using hacc))
    refine (walks_expressionAt _ s'').bind fun e read _ _ he => .pure ?_
    have hmore : Carries (used ++ read) ((e :: acc).reverse.map Expr.tree) := by simpa using hacc.append he
    exact hmore.mono (by grind)
  · exact (hfirst.append hothers).mono (by grind)

theorem walks_simpleBody : Walks simpleBody StmtBuilt := by
  intro s
  refine .here (.kind ?_)
  split
  · next hkind =>
      exact .advance (hkind ▸ rfl) fun s₁ h₁ => .last (.pure (carries_walked h₁ (by simp) carries_nil))
  · next hkind =>
      refine .advance (hkind ▸ rfl) fun s₁ h₁ => .kind (.ite (fun _ => .last (.pure ?_)) fun _ => ?_)
      · exact carries_walked h₁ (by simp) carries_nil
      · refine (walks_expressionList walks_expressionAt s₁).bind fun value used s₂ h₂ hvalue => .last (.pure ?_)
        have hnode := carries_walked (r := .other) (h₁.trans h₂) (by simp) (hvalue.mono (by grind))
        exact hnode.mono (by grind)
  · next hkind =>
      refine .advance (hkind ▸ rfl) fun s₁ h₁ => (walks_deleteTargets s₁).bind fun targets used s₂ h₂ htargets =>
        .last (.pure ?_)
      have hnode := carries_walked (r := .other) (h₁.trans h₂) (by simp) (htargets.mono (by grind))
      exact hnode.mono (by grind)
  · exact walksAt_assignment s

/-! ## the heads of compound statements -/

theorem walks_bases : Walks bases fun used bs => Carries used (bs.map Expr.tree) := by
  intro s
  refine .eat rfl (fun t s₁ _ _ => ?_) (.pure carries_nil)
  refine (walks_separated (fun e : Expr => [e.tree]) _ (walks_expressionAt .full) s₁).bind fun bs used s₂ _ hbs =>
    (walks_expect rfl s₂).bind fun _ _ _ _ _ => .pure ?_
  rw [← List.map_eq_flatMap] at hbs
  exact hbs.mono (by grind)

end Parser

end ViewSync
