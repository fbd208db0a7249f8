import ViewSync.Proofs.Parser.Follows
import ViewSync.Proofs.Tree.Paths

/-!
# ViewSync.Proofs.Parser.Room

How many expressions may nest in what a parser gives. `Gives r p post` says that a parser, started where `r` more
expressions may be opened, leaves as many open as there were and gives something that satisfies `post`. Each rule of
the grammar is shallow for the room that it has; a full expression takes one of it (`gives_nested`). What stands
behind prefixed operators, behind `**` and in the clauses of a comprehension is read with the same room, so it does not
count (`gives_expressionAt`).
-/

namespace ViewSync.Parser

open ParseState ViewSync.Expr

variable {α β : Type} {r : Nat}

/-- What a parser gives where so many more expressions may be opened, and that it closes those that it opens. -/
def Gives (r : Nat) (p : Parser α) (post : α → Prop) : Prop :=
  ∀ s a s', maxNesting - s.depth = r → p s = .done a s' → s'.depth = s.depth ∧ post a

section

variable {p : Parser α} {post post' : α → Prop} {goal : β → Prop}

/-- Something is read that does not matter. -/
theorem Onwards.gives (h : Onwards p) : Gives r p fun _ => True :=
  fun _ _ _ _ hdone => ⟨(h.of_done hdone).depth, trivial⟩

theorem Gives.mono (h : Gives r p post) (himp : ∀ a, post a → post' a) : Gives r p post' := fun s a s' hroom hdone =>
  (h s a s' hroom hdone).imp_right (himp a)

theorem Gives.bind {f : α → Parser β} (hp : Gives r p post) (hf : ∀ a, post a → Gives r (f a) goal) :
    Gives r (p >>= f) goal := by
  intro s b s'' hroom hdone
  rw [bind_apply] at hdone
  cases hp' : p s with
  | done a s' =>
      rw [hp'] at hdone
      obtain ⟨hdepth, ha⟩ := hp s a s' hroom hp'
      obtain ⟨hdepth', hb⟩ := hf a ha s' b s'' (hdepth ▸ hroom) hdone
      exact ⟨hdepth'.trans hdepth, hb⟩
  | failed s' =>
      rw [hp'] at hdone
      cases hdone
  | exhausted =>
      rw [hp'] at hdone
      cases hdone

theorem Onwards.skip {f : α → Parser β} (hp : Onwards p) (hf : ∀ a, Gives r (f a) goal) : Gives r (p >>= f) goal :=
  hp.gives.bind fun a _ => hf a

theorem Gives.pure {a : α} (h : post a) : Gives r (pure a) post := by
  rintro s _ _ _ ⟨⟩
  exact ⟨rfl, h⟩

theorem Gives.ite {q : Parser α} {c : Prop} [Decidable c] (hp : Gives r p post) (hq : Gives r q post) :
    Gives r (if c then p else q) post := by
  split
  · exact hp
  · exact hq

theorem gives_fail (cause : ParseError) (post : α → Prop) : Gives r (fail cause) post := by
  rintro s a s' _ ⟨⟩

theorem gives_exhausted (post : α → Prop) : Gives r (fun _ => .exhausted) post := by
  rintro s a s' _ ⟨⟩

/-- What one more round of a loop has to give. -/
def Goes (inv : α → Prop) (post : β → Prop) : α ⊕ β → Prop
  | .inl a => inv a
  | .inr b => post b

theorem gives_loopUpTo {step : α → Parser (α ⊕ β)} {inv : α → Prop}
    (hstep : ∀ a, inv a → Gives r (step a) (Goes inv goal)) (bound : Nat) {a : α} (ha : inv a) :
    Gives r (loopUpTo step bound a) goal := by
  induction bound generalizing a with
  | zero => exact gives_exhausted _
  | succ bound ih =>
      intro s b s' hroom hdone
      rw [loopUpTo_succ] at hdone
      refine (hstep a ha).bind (fun next hnext => ?_) s b s' hroom hdone
      cases next with
      | inl a' => exact ih hnext
      | inr b => exact Gives.pure hnext

/-- An invariant carries a loop. -/
theorem Gives.loop {step : α → Parser (α ⊕ β)} (inv : α → Prop) {a : α} (ha : inv a)
    (hstep : ∀ a, inv a → Gives r (step a) (Goes inv goal)) : Gives r (loop step a) goal :=
  fun s => gives_loopUpTo hstep _ ha s

theorem Gives.bounded {body : Nat → Parser α} (h : ∀ bound, Gives r (body bound) post) : Gives r (bounded body) post :=
  fun s => h _ s

end

/-! ## lists -/

theorem gives_separated {post : α → Prop} (stop : TokenKind) {item : Parser α} (h : Gives r item post) :
    Gives r (separated stop item) fun items => ∀ a ∈ items, post a := by
  refine Gives.loop (fun acc => ∀ a ∈ acc, post a) nofun fun acc hacc => (onwards_check _).skip fun _ =>
    (onwards_check _).skip fun _ => Gives.ite (.pure (by simpa [Goes] using hacc)) ?_
  refine h.bind fun a ha => (onwards_eat _).skip fun _ => ?_
  have hmore : ∀ b ∈ a :: acc, post b := List.forall_mem_cons.2 ⟨ha, hacc⟩
  refine Gives.ite (.pure hmore) (.pure fun b hb => hmore b ?_)
  rwa [List.mem_reverse] at hb

theorem gives_moreItems {post : Expr → Prop} (stop : TokenKind → Bool) {item : Parser Expr} (h : Gives r item post) :
    Gives r (moreItems stop item) fun items => ∀ e ∈ items, post e := by
  refine Gives.loop (fun acc => ∀ e ∈ acc, post e) nofun fun acc hacc => (onwards_eat _).skip fun _ => Gives.ite ?_ ?_
  · refine onwards_peek.1.skip fun _ => Gives.ite (.pure (by simpa [Goes] using hacc)) ?_
    exact h.bind fun e he => .pure (List.forall_mem_cons.2 ⟨he, hacc⟩)
  · exact .pure (by simpa [Goes] using hacc)

theorem gives_bareList {post goal : Expr → Prop} (stop : TokenKind → Bool) {item : Parser Expr} (h : Gives r item post)
    (hitem : ∀ e, post e → goal e) (htuple : ∀ span items, (∀ e ∈ items, post e) → goal (.tuple span items)) :
    Gives r (bareList stop item) goal := by
  refine h.bind fun first hfirst => (onwards_check _).skip fun _ => Gives.ite ?_ (.pure (hitem first hfirst))
  exact (gives_moreItems stop h).bind fun others hothers =>
    .pure (htuple _ _ (List.forall_mem_cons.2 ⟨hfirst, hothers⟩))

theorem gives_leftGrouped {op? : TokenKind → Option BinaryOp} {operand : Parser Expr}
    (h : Gives r operand (Shallow r)) : Gives r (leftGrouped op? operand) (Shallow r) := by
  refine h.bind fun first hfirst => Gives.loop (Shallow r) hfirst fun left hleft => onwards_peek.1.skip fun k => ?_
  cases op? k with
  | none => exact .pure hleft
  | some op => exact onwards_advance.skip fun _ => h.bind fun right hright => .pure (shallow_binary op hleft hright)

/-! ## the grammar -/

/-- What a parser for inner expressions gives: a full expression takes room for itself. -/
def Fits (r : Nat) : Level → Expr → Prop
  | .full => Inside r
  | .disjunction => Shallow r
  | .bitwise => Shallow r

section

variable {sub : Sub} (hsub : ∀ level, Gives r (sub level) (Fits r level))

include hsub

theorem gives_expressionList : Gives r (expressionList sub) (Indexes r) :=
  gives_bareList endsList (hsub .full) (fun _ he => ⟨Inside.weaken he, fun _ => he⟩)
    fun _ _ hitems => ⟨shallow_tuple hitems, nofun⟩

/-- The items of a target are read with the room of the loop. -/
theorem gives_targetList : Gives r (targetList sub) fun target => ∀ e ∈ target.targetItems, Shallow r e := by
  refine gives_bareList _ (hsub .bitwise) (fun target htarget => ?_) fun _ _ hitems => hitems
  have hshallow : Shallow r target := htarget
  cases target with
  | tuple span items => exact fun e he => shallow_of_child (.part he) hshallow
  | _ => exact List.forall_mem_singleton.2 hshallow

theorem gives_param (stop : TokenKind) : Gives r (param sub stop) fun p => ∀ e ∈ p.default?, Shallow r e := by
  have hdefault : ∀ name : Ident, Gives r (do
      if ← eat (.symbol .eq) then
        let value ← sub .full
        return Param.mk name (some value) (name.span.merge value.span)
      else return ⟨name, none, name.span⟩) fun p => ∀ e ∈ p.default?, Shallow r e := by
    intro name
    refine (onwards_eat _).skip fun _ => Gives.ite ((hsub .full).bind fun value hvalue => .pure ?_) (.pure nofun)
    rintro _ ⟨⟩
    exact Inside.weaken hvalue
  refine onwards_identifier.skip fun name => Gives.ite ((onwards_eat _).skip fun _ => Gives.ite ?_ (hdefault name))
    (hdefault name)
  exact (hsub .full).bind fun _ _ => hdefault name

theorem gives_params (stop : TokenKind) :
    Gives r (params sub stop) fun ps => ∀ p ∈ ps, ∀ e ∈ p.default?, Shallow r e :=
  gives_separated stop (gives_param hsub stop)

theorem gives_arg : Gives r (arg sub) fun a => Inside r a.value := by
  have hvalue : ∀ f : Expr → Arg, (∀ e, (f e).value = e) →
      Gives r (do return f (← sub .full)) fun a => Inside r a.value :=
    fun f hf => (hsub .full).bind fun e he => .pure ((hf e).symm ▸ he)
  refine onwards_peek.1.skip fun _ => ?_
  split
  · exact onwards_advance.skip fun _ => hvalue .starred fun _ => rfl
  · exact onwards_advance.skip fun _ => hvalue .doubleStarred fun _ => rfl
  · refine onwards_peek.2.1.skip fun _ => Gives.ite ?_ (hvalue .positional fun _ => rfl)
    exact onwards_identifier.skip fun name => onwards_advance.skip fun _ => hvalue (.keyword name) fun _ => rfl
  · exact hvalue .positional fun _ => rfl

/-! ### atoms -/

omit hsub in
theorem gives_strings : Gives r strings (Shallow r) := by
  refine onwards_peek.2.2.1.skip fun start => Gives.bind (?_ : Gives r _ fun _ => True) fun text _ =>
    onwards_peek.2.2.2.skip fun _ => .pure (shallow_leaf rfl)
  refine Gives.loop (fun _ => True) trivial fun text _ => onwards_peek.1.skip fun _ => ?_
  split
  · exact onwards_advance.skip fun _ => .pure trivial
  · exact .pure trivial

/-- Parentheses take room, of which nothing is left in the tree but for a tuple. -/
theorem gives_parenthesized : Gives r (parenthesized sub) (Shallow r) := by
  refine onwards_advance.skip fun _ => (onwards_check _).skip fun _ => Gives.ite ?_ ?_
  · exact onwards_advance.skip fun _ => .pure (shallow_tuple nofun)
  refine (hsub .full).bind fun first hfirst => (onwards_check _).skip fun _ => Gives.ite (gives_fail _ _) ?_
  refine (onwards_check _).skip fun _ => Gives.ite ?_ ?_
  · refine (gives_moreItems _ (hsub .full)).bind fun others hothers => (onwards_expect _).skip fun _ => .pure ?_
    exact shallow_tuple (List.forall_mem_cons.2 ⟨hfirst, hothers⟩)
  · exact (onwards_expect _).skip fun _ => .pure hfirst.weaken

theorem gives_comprehension (start : Span) {element : Expr} (helement : Inside r element) :
    Gives r (comprehension sub start element) (Shallow r) := by
  refine onwards_advance.skip fun _ => (gives_targetList hsub).bind fun target htarget =>
    (onwards_expect _).skip fun _ => (hsub .disjunction).bind fun source hsource =>
    Gives.bind (?_ : Gives r _ fun es => ∀ e ∈ es, Shallow r e) fun conditions hconditions =>
    (onwards_expect _).skip fun _ => .pure (shallow_comprehension helement htarget hsource hconditions)
  refine Gives.loop (fun acc => ∀ e ∈ acc, Shallow r e) nofun fun acc hacc => (onwards_eat _).skip fun _ =>
    Gives.ite ?_ (.pure (by simpa [Goes] using hacc))
  exact (hsub .disjunction).bind fun e he => .pure (List.forall_mem_cons.2 ⟨he, hacc⟩)

theorem gives_list : Gives r (list sub) (Shallow r) := by
  have hclose : ∀ (start : Span) (items : List Expr), (∀ e ∈ items, Inside r e) → Gives r (do
      let bracket ← expect (.symbol .rightBracket)
      return Expr.list (start.merge bracket.span) items) (Shallow r) :=
    fun start items hitems => (onwards_expect _).skip fun _ => .pure (shallow_list hitems)
  refine onwards_advance.skip fun _ => (onwards_check _).skip fun _ => (onwards_check _).skip fun _ =>
    Gives.ite (hclose _ _ nofun) ?_
  refine (hsub .full).bind fun first hfirst => (onwards_check _).skip fun _ =>
    Gives.ite (gives_comprehension hsub _ hfirst) ?_
  refine (onwards_eat _).skip fun _ => Gives.ite ?_ (hclose _ _ (List.forall_mem_singleton.2 hfirst))
  exact (gives_separated _ (hsub .full)).bind fun others hothers =>
    hclose _ _ (List.forall_mem_cons.2 ⟨hfirst, hothers⟩)

theorem gives_dict : Gives r (dict sub) (Shallow r) := by
  have hentry : Gives r (entry sub) fun entry => Inside r entry.1 ∧ Inside r entry.2 :=
    (hsub .full).bind fun key hkey => (onwards_expect _).skip fun _ => (hsub .full).bind fun value hvalue =>
      .pure ⟨hkey, hvalue⟩
  exact onwards_advance.skip fun _ => (gives_separated _ hentry).bind fun entries hentries =>
    (onwards_expect _).skip fun _ => .pure (shallow_dict hentries)

theorem gives_yield : Gives r (yield sub) (Shallow r) := by
  refine onwards_advance.skip fun _ => onwards_peek.1.skip fun _ => Gives.ite (.pure (shallow_yield nofun)) ?_
  refine (gives_expressionList hsub).bind fun value hvalue => .pure (shallow_yield ?_)
  rintro _ ⟨⟩
  exact hvalue.shallow

theorem gives_atom : Gives r (atom sub) (Shallow r) := by
  have hleaf : ∀ e : Expr, e.isLeaf = true → Gives r (do let _ ← advance; return e) (Shallow r) :=
    fun e he => onwards_advance.skip fun _ => .pure (shallow_leaf he)
  refine onwards_peek.2.2.1.skip fun _ => onwards_peek.1.skip fun _ => ?_
  split
  · exact hleaf _ rfl
  · exact hleaf _ rfl
  · exact gives_strings
  · exact hleaf _ rfl
  · exact hleaf _ rfl
  · exact hleaf _ rfl
  · exact hleaf _ rfl
  · exact gives_parenthesized hsub
  · exact gives_list hsub
  · exact gives_dict hsub
  · exact gives_yield hsub
  · exact gives_fail _ _

/-! ### attributes, subscripts and calls -/

theorem gives_sliceBound : Gives r (sliceBound sub) fun bound => ∀ e ∈ bound, Inside r e := by
  refine onwards_peek.1.skip fun _ => ?_
  split
  · exact .pure nofun
  · exact .pure nofun
  · exact .pure nofun
  · refine (hsub .full).bind fun e he => .pure ?_
    rintro _ ⟨⟩
    exact he

theorem gives_sliceRest (start : Span) {lower : Option Expr} (hlower : ∀ e ∈ lower, Indexes r e) :
    Gives r (sliceRest sub start lower) (Indexes r) := by
  refine onwards_advance.skip fun _ => (gives_sliceBound hsub).bind fun upper hupper => (onwards_eat _).skip fun _ => ?_
  have hslice : ∀ step, (∀ e ∈ step, Inside r e) → Gives r (do
      return Expr.slice (start.merge (← last)) lower upper step) (Indexes r) :=
    fun step hstep => onwards_peek.2.2.2.skip fun _ => .pure ⟨shallow_slice hlower hupper hstep, nofun⟩
  exact Gives.ite ((gives_sliceBound hsub).bind hslice) (hslice none nofun)

theorem gives_subscript : Gives r (subscript sub) (Indexes r) := by
  refine onwards_peek.2.2.1.skip fun start => (onwards_check _).skip fun _ =>
    Gives.ite (gives_sliceRest hsub start nofun) ?_
  refine (gives_expressionList hsub).bind fun index hindex => (onwards_check _).skip fun _ =>
    Gives.ite (gives_sliceRest hsub start ?_) (.pure hindex)
  rintro _ ⟨⟩
  exact hindex

theorem gives_suffixed : Gives r (suffixed sub) (Shallow r) := by
  refine (gives_atom hsub).bind fun base hbase => Gives.loop (Shallow r) hbase fun value hvalue =>
    onwards_peek.1.skip fun _ => ?_
  split
  · exact onwards_advance.skip fun _ => onwards_identifier.skip fun attr => .pure (shallow_attribute attr hvalue)
  · exact onwards_advance.skip fun _ => (gives_subscript hsub).bind fun index hindex =>
      (onwards_expect _).skip fun _ => .pure (shallow_subscript hvalue hindex)
  · exact onwards_advance.skip fun _ => (gives_separated _ (gives_arg hsub)).bind fun args hargs =>
      (onwards_expect _).skip fun _ => .pure (shallow_call hvalue hargs)
  · exact .pure hvalue

/-! ### binding levels -/

/-- Operands and exponents are read with the room of the operator. -/
theorem gives_factorUpTo (bound : Nat) : Gives r (factorUpTo sub bound) (Shallow r) := by
  induction bound with
  | zero => exact gives_exhausted _
  | succ bound ih =>
      refine onwards_peek.1.skip fun k => ?_
      cases signOp k with
      | some op => exact onwards_advance.skip fun _ => ih.bind fun operand hoperand => .pure (shallow_unary op hoperand)
      | none =>
          refine (gives_suffixed hsub).bind fun base hbase => (onwards_eat _).skip fun _ => Gives.ite ?_ (.pure hbase)
          exact ih.bind fun exponent hexponent => .pure (shallow_binary .pow hbase hexponent)

theorem gives_bitOr : Gives r (bitOr sub) (Shallow r) :=
  have hfactor : Gives r (factor sub) (Shallow r) := Gives.bounded (gives_factorUpTo hsub)
  have hshift : Gives r (shift sub) (Shallow r) := gives_leftGrouped (gives_leftGrouped (gives_leftGrouped hfactor))
  gives_leftGrouped (gives_leftGrouped (gives_leftGrouped hshift))

theorem gives_comparison : Gives r (comparison sub) (Shallow r) := by
  refine (gives_bitOr hsub).bind fun left hleft =>
    Gives.bind (?_ : Gives r _ fun rest => ∀ operand ∈ rest, Shallow r operand.2) fun rest hrest => ?_
  · refine Gives.loop (fun acc => ∀ operand ∈ acc, Shallow r operand.2) nofun fun acc hacc =>
      onwards_peek.1.skip fun k => onwards_peek.2.1.skip fun next => ?_
    cases compareOp? k next with
    | none => exact .pure (by simpa [Goes] using hacc)
    | some found =>
        have hright : Gives r (do return .inl ((found.1, ← bitOr sub) :: acc))
            (Goes (β := List (CompareOp × Expr)) (fun acc => ∀ operand ∈ acc, Shallow r operand.2)
              fun rest => ∀ operand ∈ rest, Shallow r operand.2) :=
          (gives_bitOr hsub).bind fun right hright => .pure (List.forall_mem_cons.2 ⟨hright, hacc⟩)
        exact onwards_advance.skip fun _ => Gives.ite (onwards_advance.skip fun _ => hright) hright
  · cases rest.getLast? with
    | none => exact .pure hleft
    | some found => exact .pure (shallow_compare hleft hrest)

theorem gives_negationUpTo (bound : Nat) : Gives r (negationUpTo sub bound) (Shallow r) := by
  induction bound with
  | zero => exact gives_exhausted _
  | succ bound ih =>
      refine (onwards_check _).skip fun _ => Gives.ite ?_ (gives_comparison hsub)
      exact onwards_advance.skip fun _ => ih.bind fun operand hoperand => .pure (shallow_unary .not hoperand)

theorem gives_disjunction : Gives r (disjunction sub) (Shallow r) :=
  gives_leftGrouped (gives_leftGrouped (Gives.bounded (gives_negationUpTo hsub)))

theorem gives_ternary : Gives r (ternary sub) (Shallow r) := by
  refine (gives_disjunction hsub).bind fun body hbody => (onwards_eat _).skip fun _ => Gives.ite ?_ (.pure hbody)
  exact (gives_disjunction hsub).bind fun test htest => (onwards_expect _).skip fun _ =>
    (hsub .full).bind fun orelse horelse => .pure (shallow_ternary htest hbody horelse)

theorem gives_lambda : Gives r (lambda sub) (Shallow r) :=
  onwards_advance.skip fun _ => (gives_params hsub _).bind fun _ hps => (onwards_expect _).skip fun _ =>
    (hsub .full).bind fun _ hbody => .pure (shallow_lambda hps hbody)

end

/-- A full expression takes room for itself. -/
theorem gives_nested {p : Parser Expr} (h : Gives (r - 1) p (Shallow (r - 1))) : Gives r (nested p) (Inside r) := by
  intro s e s' hroom hdone
  unfold nested at hdone
  split at hdone
  · next hlt =>
    cases hp : p { s with depth := s.depth + 1 } with
    | done e' t =>
        rw [hp] at hdone
        cases hdone
        have hopen : maxNesting - (s.depth + 1) = r - 1 := by omega
        obtain ⟨hdepth, he⟩ := h _ e t hopen hp
        exact ⟨by simp [hdepth], by omega, he⟩
    | failed t =>
        rw [hp] at hdone
        cases hdone
    | exhausted =>
        rw [hp] at hdone
        cases hdone
  · cases hdone

theorem gives_parseAt (bound : Nat) : ∀ r level, Gives r (parseAt bound level) (Fits r level) := by
  induction bound with
  | zero => exact fun _ _ => gives_exhausted _
  | succ bound ih =>
      rintro r (_ | _ | _)
      · refine gives_nested ((onwards_check _).skip fun _ => Gives.ite ?_ ?_)
        · exact gives_lambda (ih (r - 1))
        · exact gives_ternary (ih (r - 1))
      · exact gives_disjunction (ih r)
      · exact gives_bitOr (ih r)

/-- An expression fits the room where it is read. -/
theorem gives_expressionAt (level : Level) : Gives r (expressionAt level) (Fits r level) :=
  Gives.bounded fun bound => gives_parseAt bound r level

end ViewSync.Parser
