import ViewSync.Parser.Expression
import ViewSync.Proofs.Parser.Yields
import ViewSync.Proofs.Token.Lexical
import ViewSync.Proofs.Token.Positions

/-!
# ViewSync.Proofs.Parser.Leaves

The leaves of a parsed expression are tokens of the source. Numbers and names of the tree are as tokens have them
(`Expr.lexical`), and what an assignment or a loop may bind starts where one of the tokens starts that were used up
for it (`Expr.ReadFrom`).
-/

namespace ViewSync

/-! ## leaves as tokens have them -/

namespace Expr

mutual

/-- All numbers are without a sign and all names are texts of names. What is never translated may hold anything. -/
def lexical : Expr → Bool
  | .int _ value => (TokenKind.int value).lexical
  | .float _ value => (TokenKind.float value).lexical
  | .name _ id => isNameText id
  | .list _ items => allLexical items
  | .dict _ entries => entriesLexical entries
  | .attribute _ value attr => value.lexical && isNameText attr.name
  | .subscript _ value index => value.lexical && index.lexical
  | .call _ callee args => callee.lexical && argsLexical args
  | .binary _ left _ right => left.lexical && right.lexical
  | .unary _ _ operand => operand.lexical
  | .compare _ left rest => left.lexical && operandsLexical rest
  | .ternary _ test body orelse => test.lexical && body.lexical && orelse.lexical
  | .lambda _ ps body => (ps.all fun p => isNameText p.name.name) && body.lexical
  | _ => true

/-- Several expressions. -/
def allLexical : List Expr → Bool
  | [] => true
  | e :: rest => e.lexical && allLexical rest

/-- The entries of a dict. -/
def entriesLexical : List (Expr × Expr) → Bool
  | [] => true
  | (key, value) :: rest => key.lexical && value.lexical && entriesLexical rest

/-- The arguments of a call. -/
def argsLexical : List Arg → Bool
  | [] => true
  | .positional value :: rest => value.lexical && argsLexical rest
  | .starred value :: rest => value.lexical && argsLexical rest
  | _ :: rest => argsLexical rest

/-- The operands of a chain of comparisons. -/
def operandsLexical : List (CompareOp × Expr) → Bool
  | [] => true
  | (_, e) :: rest => e.lexical && operandsLexical rest

end

/-- Where a target starts: a name, or a tuple of names. -/
def anchor? : Expr → Option Pos
  | .name span _ => some span.first
  | .tuple span items =>
    if (items.filterMap asName?).length = items.length then some span.first else Option.none
  | _ => Option.none

/-- An expression read from some tokens: its leaves are as the tokens have them, and if it is a target, it starts
with one of them. -/
structure ReadFrom (used : List Token) (e : Expr) : Prop where
  lexical : (∀ t ∈ used, t.kind.lexical = true) → e.lexical = true
  anchored : ∀ p ∈ e.anchor?, p ∈ starts used

end Expr

/-- A name starts with one of the tokens used up. -/
theorem Expr.ReadFrom.start_of_name {used : List Token} {e : Expr} (h : e.ReadFrom used)
    (hname : e.asName?.isSome = true) : e.span.first ∈ starts used := by
  cases e with
  | name span id => exact h.anchored _ rfl
  | _ => cases hname

theorem mem_starts {p : Pos} {ts : List Token} :
    p ∈ starts ts ↔ ∃ t ∈ ts, t.kind.isLayout = false ∧ t.span.first = p := by
  simp [starts, worded, and_assoc]

namespace Parser

/-- A condition on what is read from some tokens that more tokens do not undo. -/
def Stable {α : Type} (post : List Token → α → Prop) : Prop :=
  ∀ used more, used ⊆ more → ∀ a, post used a → post more a

theorem stable_readFrom : Stable Expr.ReadFrom := by
  rintro used more hsub e ⟨hlexical, hanchored⟩
  refine ⟨fun h => hlexical fun t ht => h t (hsub ht), fun p hp => ?_⟩
  obtain ⟨t, ht, hkind, hfirst⟩ := mem_starts.1 (hanchored p hp)
  exact mem_starts.2 ⟨t, hsub ht, hkind, hfirst⟩

/-- An expression that is no target. -/
theorem readFrom_of_lexical {used : List Token} {e : Expr} (hnone : e.anchor? = none)
    (h : (∀ t ∈ used, t.kind.lexical = true) → e.lexical = true) : e.ReadFrom used :=
  ⟨h, fun p hp => by rw [hnone] at hp; cases hp⟩

/-! ## lists -/

section

variable {α : Type} {post : List Token → α → Prop}

/-- All of several things satisfy a condition. -/
def Each (post : List Token → α → Prop) (used : List Token) (items : List α) : Prop :=
  ∀ a ∈ items, post used a

theorem stable_each (h : Stable post) : Stable (Each post) :=
  fun used more hsub _ hitems a ha => h used more hsub a (hitems a ha)

theorem each_nil (used : List Token) : Each post used [] := fun _ ha => absurd ha List.not_mem_nil

theorem each_cons {used : List Token} {a : α} {items : List α} :
    Each post used (a :: items) ↔ post used a ∧ Each post used items :=
  List.forall_mem_cons

theorem each_reverse {used : List Token} {items : List α} :
    Each post used items.reverse ↔ Each post used items := by
  simp [Each]

theorem yields_separated (hstable : Stable post) (stop : TokenKind) {item : Parser α}
    (h : Yields item post) : Yields (separated stop item) (Each post) := by
  refine Yields.loop (Each post) (each_nil _) fun acc used hacc => ?_
  refine (yields_check _).bind fun _ u₁ _ => (yields_check _).bind fun _ u₂ _ => Yields.ite ?_ ?_
  · exact Yields.pure (each_reverse.2 (stable_each hstable _ _ (by grind) _ hacc))
  · refine h.bind fun a u₃ ha => (yields_eat _).bind fun _ u₄ _ => ?_
    have hmore : Each post (used ++ (u₁ ++ (u₂ ++ (u₃ ++ (u₄ ++ []))))) (a :: acc) :=
      each_cons.2 ⟨hstable _ _ (by grind) _ ha, stable_each hstable _ _ (by grind) _ hacc⟩
    exact Yields.ite (Yields.pure hmore) (Yields.pure (each_reverse.2 hmore))

end

theorem yields_moreItems (stop : TokenKind → Bool) {item : Parser Expr}
    (h : Yields item Expr.ReadFrom) : Yields (moreItems stop item) (Each Expr.ReadFrom) := by
  have hstable := stable_each stable_readFrom
  refine Yields.loop (Each Expr.ReadFrom) (each_nil _) fun acc used hacc => ?_
  refine (yields_eat _).bind fun _ u₁ _ => Yields.ite ?_ ?_
  · refine yields_kind.bind fun _ u₂ _ => Yields.ite ?_ ?_
    · exact Yields.pure (each_reverse.2 (hstable _ _ (by grind) _ hacc))
    · refine h.bind fun e u₃ he => Yields.pure ?_
      exact each_cons.2 ⟨stable_readFrom _ _ (by grind) _ he, hstable _ _ (by grind) _ hacc⟩
  · exact Yields.pure (each_reverse.2 (hstable _ _ (by grind) _ hacc))

theorem allLexical_of_each {used : List Token} {items : List Expr} (h : Each Expr.ReadFrom used items)
    (hused : ∀ t ∈ used, t.kind.lexical = true) : Expr.allLexical items = true := by
  induction items with
  | nil => rfl
  | cons e rest ih =>
      obtain ⟨he, hrest⟩ := each_cons.1 h
      exact Bool.and_eq_true_iff.2 ⟨he.lexical hused, ih hrest⟩

/-! ## tuples -/

/-- Spans that are put together start with one of both. -/
theorem first_merge (a b : Span) : (a.merge b).first = a.first ∨ (a.merge b).first = b.first := by
  rw [Span.merge, Pos.earlier]
  split
  · exact .inr rfl
  · exact .inl rfl

theorem first_merge_mem {used : List Token} {a b : Span} (ha : a.first ∈ starts used)
    (hb : b.first ∈ starts used) : (a.merge b).first ∈ starts used := by
  obtain h | h := first_merge a b <;> rw [h] <;> assumption

/-- A tuple starts with one of the tokens used up, as far as it is a target. -/
theorem readFrom_tuple {used : List Token} {span : Span} {items : List Expr}
    (h : (items.filterMap Expr.asName?).length = items.length → span.first ∈ starts used) :
    (Expr.tuple span items).ReadFrom used := by
  refine ⟨fun _ => rfl, fun p hp => ?_⟩
  rw [Expr.anchor?] at hp
  split at hp
  · next hnames =>
      cases hp
      exact h hnames
  · cases hp

theorem readFrom_bareTuple {used : List Token} {first : Expr} {others : List Expr}
    (hfirst : first.ReadFrom used) (hothers : Each Expr.ReadFrom used others) :
    (bareTuple first others).ReadFrom used := by
  refine readFrom_tuple fun hnames => ?_
  rw [List.filterMap_length_eq_length] at hnames
  have hstart := hfirst.start_of_name (hnames first List.mem_cons_self)
  refine first_merge_mem hstart ?_
  cases hlast : others.getLast? with
  | none => exact hstart
  | some e =>
      have hmem : e ∈ others := List.mem_of_getLast? hlast
      exact (hothers e hmem).start_of_name (hnames e (List.mem_cons_of_mem _ hmem))

theorem yields_bareList (stop : TokenKind → Bool) {item : Parser Expr} (h : Yields item Expr.ReadFrom) :
    Yields (bareList stop item) Expr.ReadFrom := by
  refine h.bind fun first u₁ hfirst => (yields_check _).bind fun _ u₂ _ => Yields.ite ?_ ?_
  · refine (yields_moreItems stop h).bind fun others u₃ hothers => Yields.pure ?_
    exact readFrom_bareTuple (stable_readFrom _ _ (by grind) _ hfirst)
      (stable_each stable_readFrom _ _ (by grind) _ hothers)
  · exact Yields.pure (stable_readFrom _ _ (by grind) _ hfirst)

/-! ## the grammar -/

/-- An argument of a call whose leaves are as the tokens have them. -/
def ArgRead (used : List Token) (a : Arg) : Prop :=
  (∀ t ∈ used, t.kind.lexical = true) → Expr.argsLexical [a] = true

/-- A parameter whose name is as a token has it. -/
def ParamRead (used : List Token) (p : Param) : Prop :=
  (∀ t ∈ used, t.kind.lexical = true) → isNameText p.name.name = true

/-- An operand of a comparison that is read from some tokens. -/
def OperandRead (used : List Token) (x : CompareOp × Expr) : Prop := x.2.ReadFrom used

/-- A key and a value that are read from some tokens. -/
def PairRead (used : List Token) (entry : Expr × Expr) : Prop :=
  entry.1.ReadFrom used ∧ entry.2.ReadFrom used

theorem stable_argRead : Stable ArgRead :=
  fun _ _ hsub _ h hmore => h fun t ht => hmore t (hsub ht)

theorem stable_paramRead : Stable ParamRead :=
  fun _ _ hsub _ h hmore => h fun t ht => hmore t (hsub ht)

theorem stable_operandRead : Stable OperandRead :=
  fun used more hsub x h => stable_readFrom used more hsub x.2 h

theorem stable_pairRead : Stable PairRead :=
  fun used more hsub _ h => ⟨stable_readFrom used more hsub _ h.1, stable_readFrom used more hsub _ h.2⟩

theorem argsLexical_of_each {used : List Token} {items : List Arg} (h : Each ArgRead used items)
    (hused : ∀ t ∈ used, t.kind.lexical = true) : Expr.argsLexical items = true := by
  induction items with
  | nil => rfl
  | cons a rest ih =>
      obtain ⟨ha, hrest⟩ := each_cons.1 h
      have hfirst := ha hused
      have hothers := ih hrest
      cases a <;> simp_all [Expr.argsLexical]

theorem entriesLexical_of_each {used : List Token} {items : List (Expr × Expr)}
    (h : Each PairRead used items) (hused : ∀ t ∈ used, t.kind.lexical = true) :
    Expr.entriesLexical items = true := by
  induction items with
  | nil => rfl
  | cons entry rest ih =>
      obtain ⟨⟨hkey, hvalue⟩, hrest⟩ := each_cons.1 h
      exact Bool.and_eq_true_iff.2 ⟨Bool.and_eq_true_iff.2 ⟨hkey.lexical hused, hvalue.lexical hused⟩, ih hrest⟩

theorem operandsLexical_of_each {used : List Token} {items : List (CompareOp × Expr)}
    (h : Each OperandRead used items)
    (hused : ∀ t ∈ used, t.kind.lexical = true) : Expr.operandsLexical items = true := by
  induction items with
  | nil => rfl
  | cons x rest ih =>
      obtain ⟨hx, hrest⟩ := each_cons.1 h
      exact Bool.and_eq_true_iff.2 ⟨hx.lexical hused, ih hrest⟩

theorem readFrom_binary {used : List Token} {left right : Expr} (hleft : left.ReadFrom used)
    (hright : right.ReadFrom used) (op : BinaryOp) : (binary left op right).ReadFrom used :=
  readFrom_of_lexical rfl fun h => Bool.and_eq_true_iff.2 ⟨hleft.lexical h, hright.lexical h⟩

theorem yields_leftGrouped {op? : TokenKind → Option BinaryOp} {operand : Parser Expr}
    (h : Yields operand Expr.ReadFrom) : Yields (leftGrouped op? operand) Expr.ReadFrom := by
  refine h.bind fun first used hfirst => ?_
  refine Yields.loop (fun more left => left.ReadFrom (used ++ more)) (by simpa using hfirst) ?_
  intro left more hleft
  refine yields_kind.bind fun k skipped _ => ?_
  cases op? k with
  | none => exact Yields.pure (stable_readFrom _ _ (by grind) _ hleft)
  | some op =>
      refine yields_advance.bind fun _ skipped' _ => h.bind fun right read hright => Yields.pure ?_
      exact readFrom_binary (stable_readFrom _ _ (by grind) _ hleft) (stable_readFrom _ _ (by grind) _ hright) op

section

variable {sub : Sub} (hsub : ∀ level, Yields (sub level) Expr.ReadFrom)

include hsub

theorem yields_param (stop : TokenKind) : Yields (param sub stop) ParamRead := by
  refine yields_identifier.bind fun name u₁ hname => ?_
  have hread : ∀ more (p : Param), p.name = name → ParamRead (u₁ ++ more) p := by
    rintro more p rfl hlexical
    exact hlexical _ (List.mem_append_left _ hname)
  have hdefault : ∀ u, Yields (do
      if ← eat (.symbol .eq) then
        let value ← sub .full
        return ⟨name, some value, name.span.merge value.span⟩
      else return ⟨name, none, name.span⟩) fun more p => ParamRead (u₁ ++ (u ++ more)) p := by
    intro u
    refine (yields_eat _).bind fun _ _ _ => Yields.ite ?_ ?_
    · exact (hsub .full).bind fun value _ _ => Yields.pure (hread _ _ rfl)
    · exact Yields.pure (hread _ _ rfl)
  refine Yields.ite ((yields_eat _).bind fun _ u₂ _ => Yields.ite ?_ (hdefault u₂)) (hdefault [])
  refine (hsub .full).bind fun _ u₃ _ => (hdefault (u₂ ++ u₃)).mono fun more p hp => ?_
  simpa using hp

theorem yields_params (stop : TokenKind) : Yields (params sub stop) (Each ParamRead) :=
  yields_separated stable_paramRead stop (yields_param hsub stop)

theorem yields_arg : Yields (arg sub) ArgRead := by
  have hpositional : ∀ u, Yields (do return Arg.positional (← sub .full))
      fun more a => ArgRead (u ++ more) a := by
    intro u
    refine (hsub .full).bind fun e u₁ he => Yields.pure fun hlexical => ?_
    exact Bool.and_eq_true_iff.2 ⟨he.lexical fun t ht => hlexical t (by grind), rfl⟩
  refine yields_kind.bind fun k u₁ _ => ?_
  split
  · refine yields_advance.bind fun _ u₂ _ => (hsub .full).bind fun e u₃ he => Yields.pure fun hlexical => ?_
    exact Bool.and_eq_true_iff.2 ⟨he.lexical fun t ht => hlexical t (by grind), rfl⟩
  · exact yields_advance.bind fun _ _ _ => (hsub .full).bind fun _ _ _ => Yields.pure fun _ => rfl
  · refine yields_second.bind fun _ u₂ _ => Yields.ite ?_ ?_
    · exact yields_identifier.bind fun _ _ _ => yields_advance.bind fun _ _ _ =>
        (hsub .full).bind fun _ _ _ => Yields.pure fun _ => rfl
    · exact (hpositional (u₁ ++ u₂)).mono fun more a ha => by simpa using ha
  · exact hpositional u₁

/-! ## atoms -/

omit hsub in
theorem yields_strings : Yields strings Expr.ReadFrom := by
  refine yields_here.bind fun _ _ _ => Yields.bind (?_ : Yields _ anything) fun _ _ _ =>
    yields_last.bind fun _ _ _ => Yields.pure (readFrom_of_lexical rfl fun _ => rfl)
  refine Yields.loop anything trivial fun _ _ _ => yields_kind.bind fun _ _ _ => ?_
  split
  · exact yields_advance.bind fun _ _ _ => Yields.pure trivial
  · exact Yields.pure trivial

theorem yields_expressionList : Yields (expressionList sub) Expr.ReadFrom :=
  yields_bareList endsList (hsub .full)

theorem yields_targetList : Yields (targetList sub) Expr.ReadFrom :=
  yields_bareList _ (hsub .bitwise)

/-- A tuple in parentheses starts with its opening one. -/
theorem yieldsAt_parenthesized {s : ParseState} (hs : s.eof.kind = .eof)
    (hopen : s.peek.kind = .symbol .leftParen) : YieldsAt (parenthesized sub) s Expr.ReadFrom := by
  refine (yieldsAt_advance hs (hopen ▸ nofun)).bind hs ?_
  rintro t _ ⟨rfl, rfl⟩
  have hstart : ∀ more, s.peek.span.first ∈ starts ([s.peek] ++ more) := fun more =>
    mem_starts.2 ⟨s.peek, List.mem_append_left _ (List.mem_singleton_self _), by rw [hopen]; rfl, rfl⟩
  refine yields_checked _ ?_ fun close hclose => Yields.pure ?_
  · refine (hsub .full).bind fun first u₁ hfirst => (yields_check _).bind fun _ u₂ _ => Yields.ite ?_ ?_
    · exact yields_fail _ _
    refine (yields_check _).bind fun _ u₃ _ => Yields.ite ?_ ?_
    · refine (yields_moreItems _ (hsub .full)).bind fun others u₄ _ => (yields_symbol _).bind ?_
      rintro close u₅ ⟨hmem, hclose⟩
      refine Yields.pure (readFrom_tuple fun _ => first_merge_mem (hstart _) ?_)
      exact mem_starts.2 ⟨close, by grind, by rw [hclose]; rfl, rfl⟩
    · exact (yields_symbol _).bind fun _ _ _ => Yields.pure (stable_readFrom _ _ (by grind) _ hfirst)
  · refine readFrom_tuple fun _ => first_merge_mem (hstart _) ?_
    exact mem_starts.2 ⟨close, by simp, by rw [hclose]; rfl, rfl⟩

theorem yields_comprehension (start : Span) (element : Expr) :
    Yields (comprehension sub start element) Expr.ReadFrom := by
  refine yields_advance.bind fun _ _ _ => (yields_targetList hsub).bind fun _ _ _ =>
    (yields_keyword _).bind fun _ _ _ => (hsub .disjunction).bind fun _ _ _ =>
    Yields.bind (?_ : Yields _ anything) fun _ _ _ => (yields_symbol _).bind fun _ _ _ =>
    Yields.pure (readFrom_of_lexical rfl fun _ => rfl)
  refine Yields.loop anything trivial fun _ _ _ => (yields_eat _).bind fun _ _ _ => Yields.ite ?_ ?_
  · exact (hsub .disjunction).bind fun _ _ _ => Yields.pure trivial
  · exact Yields.pure trivial

theorem yields_list : Yields (list sub) Expr.ReadFrom := by
  have hclose : ∀ (start : Span) items used, Each Expr.ReadFrom used items →
      Yields (do
        let bracket ← expect (.symbol .rightBracket)
        return Expr.list (start.merge bracket.span) items) fun more e => e.ReadFrom (used ++ more) := by
    intro start items used hitems
    refine (yields_symbol _).bind fun _ _ _ => Yields.pure (readFrom_of_lexical rfl fun hlexical => ?_)
    exact allLexical_of_each hitems fun t ht => hlexical t (List.mem_append_left _ ht)
  have hstable := stable_each stable_readFrom
  refine yields_advance.bind fun open_ u₁ _ => (yields_check _).bind fun _ u₂ _ =>
    (yields_check _).bind fun _ u₃ _ => Yields.ite ?_ ?_
  · exact (hclose _ _ (u₁ ++ (u₂ ++ u₃)) (each_nil _)).mono fun more e he => by simpa using he
  · refine (hsub .full).bind fun first u₄ hfirst => (yields_check _).bind fun _ u₅ _ => Yields.ite ?_ ?_
    · exact (yields_comprehension hsub _ _).mono fun more e he => stable_readFrom _ _ (by grind) _ he
    refine (yields_eat _).bind fun _ u₆ _ => Yields.ite ?_ ?_
    · refine (yields_separated stable_readFrom _ (hsub .full)).bind fun others u₇ hothers => ?_
      refine (hclose _ _ (u₄ ++ u₇) (each_cons.2 ⟨?_, ?_⟩)).mono fun more e he =>
        stable_readFrom _ _ (by grind) _ he
      · exact stable_readFrom _ _ (by grind) _ hfirst
      · exact hstable _ _ (by grind) _ hothers
    · refine (hclose _ _ u₄ (each_cons.2 ⟨hfirst, each_nil _⟩)).mono fun more e he =>
        stable_readFrom _ _ (by grind) _ he

theorem yields_entry : Yields (entry sub) PairRead :=
  (hsub .full).bind fun _ _ hkey => (yields_symbol _).bind fun _ _ _ =>
    (hsub .full).bind fun _ _ hvalue => Yields.pure
      ⟨stable_readFrom _ _ (by grind) _ hkey, stable_readFrom _ _ (by grind) _ hvalue⟩

theorem yields_dict : Yields (dict sub) Expr.ReadFrom := by
  refine yields_advance.bind fun _ u₁ _ =>
    (yields_separated stable_pairRead _ (yields_entry hsub)).bind fun entries u₂ hentries =>
    (yields_symbol _).bind fun _ u₃ _ => Yields.pure (readFrom_of_lexical rfl fun hlexical => ?_)
  exact entriesLexical_of_each hentries fun t ht => hlexical t (by grind)

theorem yields_yield : Yields (yield sub) Expr.ReadFrom := by
  refine yields_advance.bind fun _ _ _ => yields_kind.bind fun _ _ _ => Yields.ite ?_ ?_
  · exact Yields.pure (readFrom_of_lexical rfl fun _ => rfl)
  · exact (yields_expressionList hsub).bind fun _ _ _ => Yields.pure (readFrom_of_lexical rfl fun _ => rfl)

theorem yields_atom : Yields (atom sub) Expr.ReadFrom := by
  intro s hs
  have hleaf : ∀ e : Expr, s.peek.kind ≠ .eof → e.ReadFrom [s.peek] →
      YieldsAt (do let _ ← advance; return e) s Expr.ReadFrom := by
    intro e hne he
    refine (yieldsAt_advance hs hne).bind hs ?_
    rintro t _ ⟨rfl, rfl⟩
    exact Yields.pure he
  have hpeek : ∀ k, s.peek.kind = k → (∀ t ∈ [s.peek], t.kind.lexical = true) → k.lexical = true := by
    rintro _ rfl h
    exact h _ (List.mem_singleton_self _)
  refine yieldsAt_here (yieldsAt_kind ?_)
  split
  · next value hkind => exact hleaf _ (by simp [hkind]) (readFrom_of_lexical rfl (hpeek _ hkind))
  · next value hkind => exact hleaf _ (by simp [hkind]) (readFrom_of_lexical rfl (hpeek _ hkind))
  · exact yields_strings s hs
  · next hkind => exact hleaf _ (by simp [hkind]) (readFrom_of_lexical rfl fun _ => rfl)
  · next hkind => exact hleaf _ (by simp [hkind]) (readFrom_of_lexical rfl fun _ => rfl)
  · next hkind => exact hleaf _ (by simp [hkind]) (readFrom_of_lexical rfl fun _ => rfl)
  · next name hkind =>
      refine hleaf _ (by simp [hkind]) ⟨hpeek _ hkind, ?_⟩
      rintro p ⟨⟩
      exact mem_starts.2 ⟨s.peek, List.mem_singleton_self _, by rw [hkind]; rfl, rfl⟩
  · next hkind => exact yieldsAt_parenthesized hsub hs hkind
  · exact yields_list hsub s hs
  · exact yields_dict hsub s hs
  · exact yields_yield hsub s hs
  · exact yields_fail _ _ s hs

/-! ## attributes, subscripts and calls -/

theorem yields_sliceBound : Yields (sliceBound sub) anything := by
  refine yields_kind.bind fun _ _ _ => ?_
  split
  · exact Yields.pure trivial
  · exact Yields.pure trivial
  · exact Yields.pure trivial
  · exact (hsub .full).bind fun _ _ _ => Yields.pure trivial

theorem yields_sliceRest (start : Span) (lower : Option Expr) :
    Yields (sliceRest sub start lower) Expr.ReadFrom := by
  refine yields_advance.bind fun _ _ _ => (yields_sliceBound hsub).bind fun _ _ _ =>
    (yields_eat _).bind fun _ _ _ => Yields.ite ?_ ?_
  · exact (yields_sliceBound hsub).bind fun _ _ _ =>
      yields_last.bind fun _ _ _ => Yields.pure (readFrom_of_lexical rfl fun _ => rfl)
  · exact Yields.bind (Yields.pure trivial : Yields _ anything) fun _ _ _ =>
      yields_last.bind fun _ _ _ => Yields.pure (readFrom_of_lexical rfl fun _ => rfl)

theorem yields_subscript : Yields (subscript sub) Expr.ReadFrom := by
  have hslice : ∀ (used : List Token) start lower, Yields (sliceRest sub start lower)
      fun more e => e.ReadFrom (used ++ more) := fun used start lower =>
    (yields_sliceRest hsub start lower).mono fun more e he => stable_readFrom _ _ (by grind) _ he
  refine yields_here.bind fun _ u₁ _ => (yields_check _).bind fun _ u₂ _ => Yields.ite ?_ ?_
  · exact (hslice (u₁ ++ u₂) _ _).mono fun more e he => by simpa using he
  · refine (yields_expressionList hsub).bind fun index u₃ hindex => (yields_check _).bind fun _ u₄ _ =>
      Yields.ite ?_ ?_
    · exact (hslice (u₁ ++ (u₂ ++ (u₃ ++ u₄))) _ _).mono fun more e he => by simpa using he
    · exact Yields.pure (stable_readFrom _ _ (by grind) _ hindex)

theorem yields_suffixed : Yields (suffixed sub) Expr.ReadFrom := by
  refine (yields_atom hsub).bind fun base used hbase => ?_
  refine Yields.loop (fun more value => value.ReadFrom (used ++ more)) (by simpa using hbase) ?_
  intro value more hvalue
  refine yields_kind.bind fun _ u₁ _ => ?_
  split
  · refine yields_advance.bind fun _ u₂ _ => yields_identifier.bind fun attr u₃ hattr =>
      Yields.pure (readFrom_of_lexical rfl fun hlexical => ?_)
    have hname : isNameText attr.name = true :=
      hlexical ⟨.identifier attr.name, attr.span⟩ (by grind)
    exact Bool.and_eq_true_iff.2 ⟨hvalue.lexical fun t ht => hlexical t (by grind), hname⟩
  · refine yields_advance.bind fun _ u₂ _ => (yields_subscript hsub).bind fun index u₃ hindex =>
      (yields_symbol _).bind fun _ u₄ _ => Yields.pure (readFrom_of_lexical rfl fun hlexical => ?_)
    exact Bool.and_eq_true_iff.2 ⟨hvalue.lexical fun t ht => hlexical t (by grind),
      hindex.lexical fun t ht => hlexical t (by grind)⟩
  · refine yields_advance.bind fun _ u₂ _ =>
      (yields_separated stable_argRead _ (yields_arg hsub)).bind fun args u₃ hargs =>
      (yields_symbol _).bind fun _ u₄ _ => Yields.pure (readFrom_of_lexical rfl fun hlexical => ?_)
    exact Bool.and_eq_true_iff.2 ⟨hvalue.lexical fun t ht => hlexical t (by grind),
      argsLexical_of_each hargs fun t ht => hlexical t (by grind)⟩
  · exact Yields.pure (stable_readFrom _ _ (by grind) _ hvalue)

/-! ## binding levels -/

theorem yields_factorUpTo (bound : Nat) : Yields (factorUpTo sub bound) Expr.ReadFrom := by
  induction bound with
  | zero => exact yields_exhausted _
  | succ bound ih =>
      refine yields_kind.bind fun k u₁ _ => ?_
      cases signOp k with
      | some op =>
          refine yields_advance.bind fun _ u₂ _ => ih.bind fun operand u₃ hoperand =>
            Yields.pure (readFrom_of_lexical rfl fun hlexical => ?_)
          exact hoperand.lexical fun t ht => hlexical t (by grind)
      | none =>
          refine (yields_suffixed hsub).bind fun base u₂ hbase => (yields_eat _).bind fun _ u₃ _ =>
            Yields.ite ?_ ?_
          · refine ih.bind fun exponent u₄ hexponent => Yields.pure (readFrom_binary ?_ ?_ .pow)
            · exact stable_readFrom _ _ (by grind) _ hbase
            · exact stable_readFrom _ _ (by grind) _ hexponent
          · exact Yields.pure (stable_readFrom _ _ (by grind) _ hbase)

theorem yields_bitOr : Yields (bitOr sub) Expr.ReadFrom :=
  have hfactor : Yields (factor sub) Expr.ReadFrom := Yields.bounded (yields_factorUpTo hsub)
  have hshift : Yields (shift sub) Expr.ReadFrom :=
    yields_leftGrouped (yields_leftGrouped (yields_leftGrouped hfactor))
  yields_leftGrouped (yields_leftGrouped (yields_leftGrouped hshift))

theorem yields_comparison : Yields (comparison sub) Expr.ReadFrom := by
  refine (yields_bitOr hsub).bind fun left u₁ hleft =>
    Yields.bind (?_ : Yields _ (Each OperandRead)) fun rest u₂ hrest => ?_
  · refine Yields.loop (Each OperandRead) (each_nil _) fun acc used hacc => ?_
    have hmore : ∀ more (op : CompareOp) (right : Expr), used ⊆ more → right.ReadFrom more →
        Each OperandRead more ((op, right) :: acc) := fun more op right hsub hright =>
      each_cons.2 ⟨hright, stable_each stable_operandRead _ _ hsub _ hacc⟩
    refine yields_kind.bind fun k u₁ _ => yields_second.bind fun next u₂ _ => ?_
    cases compareOp? k next with
    | none =>
        refine Yields.pure (each_reverse.2 ?_)
        exact stable_each stable_operandRead _ _ (by grind) _ hacc
    | some found =>
        refine yields_advance.bind fun _ u₃ _ => Yields.ite ?_ ?_
        · refine yields_advance.bind fun _ u₄ _ => (yields_bitOr hsub).bind fun right u₅ hright =>
            Yields.pure (hmore _ _ _ (by grind) (stable_readFrom _ _ (by grind) _ hright))
        · exact (yields_bitOr hsub).bind fun right u₄ hright =>
            Yields.pure (hmore _ _ _ (by grind) (stable_readFrom _ _ (by grind) _ hright))
  · cases rest.getLast? with
    | none => exact Yields.pure (stable_readFrom _ _ (by grind) _ hleft)
    | some found =>
        refine Yields.pure (readFrom_of_lexical rfl fun hlexical => ?_)
        exact Bool.and_eq_true_iff.2 ⟨hleft.lexical fun t ht => hlexical t (by grind),
          operandsLexical_of_each hrest fun t ht => hlexical t (by grind)⟩

theorem yields_negationUpTo (bound : Nat) : Yields (negationUpTo sub bound) Expr.ReadFrom := by
  induction bound with
  | zero => exact yields_exhausted _
  | succ bound ih =>
      refine (yields_check _).bind fun _ u₁ _ => Yields.ite ?_ ?_
      · refine yields_advance.bind fun _ u₂ _ => ih.bind fun operand u₃ hoperand =>
          Yields.pure (readFrom_of_lexical rfl fun hlexical => ?_)
        exact hoperand.lexical fun t ht => hlexical t (by grind)
      · exact (yields_comparison hsub).mono fun more e he => stable_readFrom _ _ (by grind) _ he

theorem yields_disjunction : Yields (disjunction sub) Expr.ReadFrom :=
  yields_leftGrouped (yields_leftGrouped (Yields.bounded (yields_negationUpTo hsub)))

theorem yields_ternary : Yields (ternary sub) Expr.ReadFrom := by
  refine (yields_disjunction hsub).bind fun body u₁ hbody => (yields_eat _).bind fun _ u₂ _ =>
    Yields.ite ?_ ?_
  · refine (yields_disjunction hsub).bind fun test u₃ htest => (yields_keyword _).bind fun _ u₄ _ =>
      (hsub .full).bind fun orelse u₅ horelse => Yields.pure (readFrom_of_lexical rfl fun hlexical => ?_)
    have hbranch : (test.lexical && body.lexical) = true :=
      Bool.and_eq_true_iff.2 ⟨htest.lexical fun t ht => hlexical t (by grind),
        hbody.lexical fun t ht => hlexical t (by grind)⟩
    exact Bool.and_eq_true_iff.2 ⟨hbranch, horelse.lexical fun t ht => hlexical t (by grind)⟩
  · exact Yields.pure (stable_readFrom _ _ (by grind) _ hbody)

theorem yields_lambda : Yields (lambda sub) Expr.ReadFrom := by
  refine yields_advance.bind fun _ u₁ _ => (yields_params hsub _).bind fun ps u₂ hps =>
    (yields_symbol _).bind fun _ u₃ _ => (hsub .full).bind fun body u₄ hbody =>
    Yields.pure (readFrom_of_lexical rfl fun hlexical => ?_)
  refine Bool.and_eq_true_iff.2 ⟨List.all_eq_true.2 fun p hp => hps p hp fun t ht => hlexical t (by grind), ?_⟩
  exact hbody.lexical fun t ht => hlexical t (by grind)

end

/-- How many expressions are open does not matter. -/
theorem yields_nested {p : Parser Expr} {post : List Token → Expr → Prop} (h : Yields p post) :
    Yields (nested p) post := by
  intro s hs
  have hopen := h { s with depth := s.depth + 1 } hs
  unfold YieldsAt at hopen
  by_cases hdepth : s.depth < maxNesting
  · cases hp : p { s with depth := s.depth + 1 } with
    | done e s' =>
        rw [hp] at hopen
        obtain ⟨used, hreads, he⟩ := hopen
        have hdone : nested p s = .done e { s' with depth := s'.depth - 1 } := by
          rw [nested, if_pos hdepth, hp]
        exact yieldsAt_of_done hdone ⟨hreads.rest, hreads.eof⟩ he
    | failed s' =>
        rw [hp] at hopen
        obtain ⟨used, hreads⟩ := hopen
        have hfailed : nested p s = .failed { s' with depth := s'.depth - 1 } := by
          rw [nested, if_pos hdepth, hp]
        exact yieldsAt_of_failed hfailed ⟨hreads.rest, hreads.eof⟩
    | exhausted =>
        have hexhausted : nested p s = .exhausted := by rw [nested, if_pos hdepth, hp]
        unfold YieldsAt
        rw [hexhausted]
        trivial
  · have hdeep : nested p s = fail .nestingTooDeep s := by rw [nested, if_neg hdepth]
    unfold YieldsAt
    rw [hdeep]
    exact yields_fail .nestingTooDeep post s hs

theorem yields_parseAt (bound : Nat) : ∀ level, Yields (parseAt bound level) Expr.ReadFrom := by
  induction bound with
  | zero => exact fun _ => yields_exhausted _
  | succ bound ih =>
      rintro (_ | _ | _)
      · exact yields_nested ((yields_check _).bind fun _ _ _ =>
          Yields.ite ((yields_lambda ih).mono fun more e he => stable_readFrom _ _ (by grind) _ he)
            ((yields_ternary ih).mono fun more e he => stable_readFrom _ _ (by grind) _ he))
      · exact yields_disjunction ih
      · exact yields_bitOr ih

/-- The leaves of every expression are as the tokens have them that it was read from. -/
theorem yields_expressionAt (level : Level) : Yields (expressionAt level) Expr.ReadFrom :=
  Yields.bounded fun bound => yields_parseAt bound level

/-- What is read somewhere in a source has the leaves that a source has: the parser gives lexical expressions. -/
theorem lexical_of_expressionAt {text : String} {level : Level} {s s' : ParseState} {e : Expr}
    (hrest : s.rest ⊆ (lex text).tokens) (heof : s.eof.kind = .eof) (h : expressionAt level s = .done e s') :
    e.lexical = true := by
  have hread := yields_expressionAt level s heof
  rw [YieldsAt, h] at hread
  obtain ⟨used, hreads, he⟩ := hread
  refine he.lexical fun t ht => lexical_lex text t (hrest ?_)
  rw [hreads.rest]
  exact List.mem_append_left _ ht

end Parser

end ViewSync
