import ViewSync.Proofs.Parser.Targets
import ViewSync.Proofs.Parser.Walks

/-!
# ViewSync.Proofs.Parser.Names

The names of a parsed source are texts of names, and its numbers have no sign (`lexical_of_parse`). Expressions are as
the tokens have them already; what is left are the names that statements bind, and among them those of a loop over
several names, which stand in a tuple.

`p.Gathers post` says that `p`, started before tokens of a source, gives something that satisfies `post` and stops
before tokens of a source. So nothing has to be said of the tokens used up.
-/

namespace ViewSync

/-! ## trees of statements -/

namespace Expr

/-- Of a tuple the items are as tokens have them. -/
def tupleLexical : Expr → Bool
  | .tuple _ items => allLexical items
  | _ => true

/-- What a loop binds is as tokens have it. -/
def targetLexical (e : Expr) : Bool := e.lexical && e.tupleLexical

end Expr

mutual

/-- All names of a statement are texts of names, and all numbers are without a sign. -/
def Stmt.lexical : Stmt → Bool
  | .function def_ => def_.lexical
  | .class_ def_ => def_.lexical
  | .assign _ targets value => Expr.allLexical targets && value.lexical
  | .augAssign _ target _ value => target.lexical && value.lexical
  | .if_ chain => chain.lexical
  | .for_ _ target source body orelse =>
    target.targetLexical && source.lexical && Stmt.allLexical body && Stmt.optionLexical orelse
  | .while_ _ condition body orelse => condition.lexical && Stmt.allLexical body && Stmt.optionLexical orelse
  | .return_ _ value => value.all Expr.lexical
  | .delete _ targets => Expr.allLexical targets
  | .expr _ value => value.lexical
  | .pass _ => true
  | .refused .. => true

/-- A function. -/
def FunctionDef.lexical : FunctionDef → Bool
  | .mk _ name ps _ body =>
    isNameText name.name && (ps.all fun p => isNameText p.name.name) && Stmt.allLexical body

/-- A class. -/
def ClassDef.lexical : ClassDef → Bool
  | .mk _ name _ _ body => isNameText name.name && Stmt.allLexical body

/-- An `if` with all that follows it. -/
def IfChain.lexical : IfChain → Bool
  | .mk _ condition body orelse => condition.lexical && Stmt.allLexical body && orelse.lexical

/-- What follows a branch. -/
def Else.lexical : Else → Bool
  | .nothing => true
  | .elif chain => chain.lexical
  | .block body => Stmt.allLexical body

/-- The statements of a block. -/
def Stmt.allLexical : List Stmt → Bool
  | [] => true
  | stmt :: rest => stmt.lexical && Stmt.allLexical rest

/-- The block behind a loop. -/
def Stmt.optionLexical : Option (List Stmt) → Bool
  | none => true
  | some body => Stmt.allLexical body

end

theorem Stmt.allLexical_iff {body : List Stmt} : Stmt.allLexical body = true ↔ ∀ stmt ∈ body, stmt.lexical = true := by
  induction body with
  | nil => simp [Stmt.allLexical]
  | cons stmt rest ih => simp [Stmt.allLexical, ih]

theorem Expr.allLexical_iff {items : List Expr} : allLexical items = true ↔ ∀ e ∈ items, e.lexical = true := by
  induction items with
  | nil => simp [allLexical]
  | cons e rest ih => simp [allLexical, ih]

/-! ## parsers over tokens of a source -/

/-- Before tokens that are as a source has them. -/
structure ParseState.Plain (s : ParseState) : Prop where
  eof : s.eof.kind = .eof
  lexical : ∀ t ∈ s.rest, t.kind.lexical = true

theorem ParseState.Plain.reads {s s' : ParseState} {used : List Token} (h : s.Plain) (hreads : s.Reads used s') :
    s'.Plain ∧ ∀ t ∈ used, t.kind.lexical = true := by
  have hlexical := h.lexical
  rw [hreads.rest, List.forall_mem_append] at hlexical
  exact ⟨⟨hreads.eof ▸ h.eof, hlexical.2⟩, hlexical.1⟩

/-- Where a parser over tokens of a source stops, and what it gives. -/
def Outcome.Plain {α : Type} (post : α → Prop) : Outcome α → Prop
  | .done a s => s.Plain ∧ post a
  | .failed s => s.Plain
  | .exhausted => True

namespace Parser

open ParseState

variable {α β : Type}

/-- What a parser gives before tokens of a source satisfies a condition. -/
def Gathers (p : Parser α) (post : α → Prop) : Prop :=
  ∀ s, s.Plain → (p s).Plain post

section

variable {p : Parser α} {post post' : α → Prop} {goal : β → Prop}

/-- What is known of the tokens used up is enough. -/
theorem Yields.gathers {read : List Token → α → Prop} (h : Yields p read)
    (himp : ∀ used a, (∀ t ∈ used, t.kind.lexical = true) → read used a → post a) : Gathers p post := by
  intro s hs
  have hp := h s hs.eof
  unfold YieldsAt at hp
  cases hp' : p s with
  | done a s' =>
      rw [hp'] at hp
      obtain ⟨used, hreads, ha⟩ := hp
      have hused := hs.reads hreads
      exact ⟨hused.1, himp used a hused.2 ha⟩
  | failed s' =>
      rw [hp'] at hp
      obtain ⟨used, hreads⟩ := hp
      exact (hs.reads hreads).1
  | exhausted => trivial

theorem Gathers.mono (h : Gathers p post) (himp : ∀ a, post a → post' a) : Gathers p post' := by
  intro s hs
  have hp := h s hs
  cases hp' : p s with
  | done a s' =>
      rw [hp'] at hp
      exact ⟨hp.1, himp a hp.2⟩
  | failed s' => rwa [hp'] at hp
  | exhausted => trivial

theorem Gathers.and (h : Gathers p post) (h' : Gathers p post') : Gathers p fun a => post a ∧ post' a := by
  intro s hs
  have hp := h s hs
  have hp' := h' s hs
  cases heq : p s with
  | done a s' =>
      rw [heq] at hp hp'
      exact ⟨hp.1, hp.2, hp'.2⟩
  | failed s' => rwa [heq] at hp
  | exhausted => trivial

theorem Gathers.bind {f : α → Parser β} (hp : Gathers p post) (hf : ∀ a, post a → Gathers (f a) goal) :
    Gathers (p >>= f) goal := by
  intro s hs
  have hfirst := hp s hs
  rw [bind_apply]
  cases hp' : p s with
  | done a s' =>
      rw [hp'] at hfirst
      exact hf a hfirst.2 s' hfirst.1
  | failed s' => rwa [hp'] at hfirst
  | exhausted => trivial

/-- Something is read that does not matter. -/
theorem Yields.skip {f : α → Parser β} {read : List Token → α → Prop} (hp : Yields p read)
    (hf : ∀ a, Gathers (f a) goal) : Gathers (p >>= f) goal :=
  (hp.gathers fun _ _ _ _ => trivial : Gathers p fun _ => True).bind fun a _ => hf a

theorem Gathers.pure {a : α} (h : post a) : Gathers (pure a) post :=
  fun _ hs => ⟨hs, h⟩

theorem Gathers.ite {q : Parser α} {c : Prop} [Decidable c] (hp : Gathers p post) (hq : Gathers q post) :
    Gathers (if c then p else q) post := by
  split
  · exact hp
  · exact hq

theorem Gathers.attempt (hp : Gathers p post) : Gathers (attempt p) fun r => ∀ a, r = some a → post a := by
  intro s hs
  have h := hp s hs
  unfold Parser.attempt
  cases hp' : p s with
  | done a s' =>
      rw [hp'] at h
      refine ⟨h.1, ?_⟩
      rintro _ ⟨⟩
      exact h.2
  | failed s' =>
      rw [hp'] at h
      exact ⟨h, by simp⟩
  | exhausted => trivial

/-- What one more round of a loop has to give. -/
def Lap (inv : α → Prop) (post : β → Prop) : α ⊕ β → Prop
  | .inl a => inv a
  | .inr b => post b

theorem gathers_loopUpTo {step : α → Parser (α ⊕ β)} {inv : α → Prop}
    (hstep : ∀ a, inv a → Gathers (step a) (Lap inv goal)) (bound : Nat) {a : α} (ha : inv a) :
    Gathers (loopUpTo step bound a) goal := by
  induction bound generalizing a with
  | zero => exact fun _ _ => trivial
  | succ bound ih =>
      intro s hs
      rw [loopUpTo_succ]
      refine (hstep a ha).bind (fun r hr => ?_) s hs
      cases r with
      | inl a' => exact ih hr
      | inr b => exact Gathers.pure hr

/-- An invariant carries a loop. -/
theorem Gathers.loop {step : α → Parser (α ⊕ β)} (inv : α → Prop) {a : α} (ha : inv a)
    (hstep : ∀ a, inv a → Gathers (step a) (Lap inv goal)) : Gathers (loop step a) goal :=
  fun s hs => gathers_loopUpTo hstep _ ha s hs

theorem Gathers.bounded {body : Nat → Parser α} (h : ∀ bound, Gathers (body bound) post) :
    Gathers (bounded body) post :=
  fun s hs => h _ s hs

theorem gathers_exhausted (post : α → Prop) : Gathers (fun _ => .exhausted) post :=
  fun _ _ => trivial

theorem gathers_fail (cause : ParseError) (post : α → Prop) : Gathers (fail cause) post :=
  (yields_fail cause fun _ _ => False).gathers fun _ _ _ h => h.elim

end

theorem Yields.lexical {p : Parser Expr} (h : Yields p Expr.ReadFrom) : Gathers p fun e => e.lexical = true :=
  h.gathers fun _ _ hused he => he.lexical hused

theorem Yields.allLexical {p : Parser (List Expr)} (h : Yields p (Each Expr.ReadFrom)) :
    Gathers p fun items => Expr.allLexical items = true :=
  h.gathers fun _ _ hused hitems => allLexical_of_each hitems hused

/-! ## tuples -/

/-- What a parser gives has lexical items if it is a tuple. -/
abbrev GathersTuple (p : Parser Expr) : Prop := Gathers p fun e => e.tupleLexical = true

theorem gathers_bareList (stop : TokenKind → Bool) {item : Parser Expr} (h : Yields item Expr.ReadFrom)
    (htuple : GathersTuple item) : GathersTuple (bareList stop item) := by
  refine (h.lexical.and htuple).bind fun first hfirst => (yields_check _).skip fun _ => Gathers.ite ?_ ?_
  · refine (yields_moreItems stop h).allLexical.bind fun others hothers => Gathers.pure ?_
    exact Bool.and_eq_true_iff.2 ⟨hfirst.1, hothers⟩
  · exact Gathers.pure hfirst.2

theorem gathers_leftGrouped {op? : TokenKind → Option BinaryOp} {operand : Parser Expr}
    (h : GathersTuple operand) : GathersTuple (leftGrouped op? operand) := by
  refine h.bind fun first hfirst => Gathers.loop (fun e => e.tupleLexical = true) hfirst fun left hleft => ?_
  refine yields_kind.skip fun k => ?_
  cases op? k with
  | none => exact Gathers.pure hleft
  | some op => exact yields_advance.skip fun _ => h.bind fun _ _ => Gathers.pure rfl

section

variable {sub : Sub} (hread : ∀ level, Yields (sub level) Expr.ReadFrom) (hsub : ∀ level, GathersTuple (sub level))

include hread hsub

theorem gathers_parenthesized : GathersTuple (parenthesized sub) := by
  refine yields_advance.skip fun open_ => (yields_check _).skip fun _ => Gathers.ite ?_ ?_
  · exact yields_advance.skip fun _ => Gathers.pure rfl
  refine ((hread .full).lexical.and (hsub .full)).bind fun first hfirst => (yields_check _).skip fun _ =>
    Gathers.ite (gathers_fail _ _) ?_
  refine (yields_check _).skip fun _ => Gathers.ite ?_ ?_
  · refine (yields_moreItems _ (hread .full)).allLexical.bind fun others hothers => (yields_symbol _).skip fun _ =>
      Gathers.pure ?_
    exact Bool.and_eq_true_iff.2 ⟨hfirst.1, hothers⟩
  · exact (yields_symbol _).skip fun _ => Gathers.pure hfirst.2

omit hread hsub in
theorem gathers_strings : GathersTuple strings := by
  refine yields_here.skip fun start => Gathers.bind (?_ : Gathers _ fun _ => True) fun text _ =>
    yields_last.skip fun _ => Gathers.pure rfl
  refine Gathers.loop (fun _ => True) trivial fun text _ => yields_kind.skip fun _ => ?_
  split
  · exact yields_advance.skip fun _ => Gathers.pure trivial
  · exact Gathers.pure trivial

omit hsub in
theorem gathers_comprehension (start : Span) (element : Expr) : GathersTuple (comprehension sub start element) := by
  refine yields_advance.skip fun _ => (yields_targetList hread).skip fun _ => (yields_keyword _).skip fun _ =>
    (hread .disjunction).skip fun _ => Gathers.bind (?_ : Gathers _ fun _ => True) fun _ _ =>
    (yields_symbol _).skip fun _ => Gathers.pure rfl
  refine Gathers.loop (fun _ => True) trivial fun _ _ => (yields_eat _).skip fun _ => Gathers.ite ?_ ?_
  · exact (hread .disjunction).skip fun _ => Gathers.pure trivial
  · exact Gathers.pure trivial

omit hsub in
theorem gathers_list : GathersTuple (list sub) := by
  have hclose : ∀ (start : Span) items, GathersTuple (do
      let bracket ← expect (.symbol .rightBracket)
      return Expr.list (start.merge bracket.span) items) :=
    fun start items => (yields_symbol _).skip fun _ => Gathers.pure rfl
  refine yields_advance.skip fun open_ => (yields_check _).skip fun _ => (yields_check _).skip fun _ =>
    Gathers.ite (hclose _ _) ?_
  refine (hread .full).skip fun first => (yields_check _).skip fun _ =>
    Gathers.ite (gathers_comprehension hread _ _) ?_
  refine (yields_eat _).skip fun _ => Gathers.ite ?_ (hclose _ _)
  exact (yields_separated stable_readFrom _ (hread .full)).skip fun others => hclose _ _

omit hsub in
theorem gathers_dict : GathersTuple (dict sub) :=
  yields_advance.skip fun _ => (yields_separated stable_pairRead _ (yields_entry hread)).skip fun _ =>
    (yields_symbol _).skip fun _ => Gathers.pure rfl

omit hsub in
theorem gathers_yield : GathersTuple (yield sub) := by
  refine yields_advance.skip fun _ => yields_kind.skip fun _ => Gathers.ite ?_ ?_
  · exact Gathers.pure rfl
  · exact (yields_expressionList hread).skip fun _ => Gathers.pure rfl

theorem gathers_atom : GathersTuple (atom sub) := by
  have hleaf : ∀ e : Expr, e.tupleLexical = true → GathersTuple (do let _ ← advance; return e) :=
    fun e he => yields_advance.skip fun _ => Gathers.pure he
  refine yields_here.skip fun _ => yields_kind.skip fun _ => ?_
  split
  · exact hleaf _ rfl
  · exact hleaf _ rfl
  · exact gathers_strings
  · exact hleaf _ rfl
  · exact hleaf _ rfl
  · exact hleaf _ rfl
  · exact hleaf _ rfl
  · exact gathers_parenthesized hread hsub
  · exact gathers_list hread
  · exact gathers_dict hread
  · exact gathers_yield hread
  · exact gathers_fail _ _

theorem gathers_suffixed : GathersTuple (suffixed sub) := by
  refine (gathers_atom hread hsub).bind fun base hbase =>
    Gathers.loop (fun e => e.tupleLexical = true) hbase fun value hvalue => yields_kind.skip fun _ => ?_
  split
  · exact yields_advance.skip fun _ => yields_identifier.skip fun _ => Gathers.pure rfl
  · exact yields_advance.skip fun _ => (yields_subscript hread).skip fun _ => (yields_symbol _).skip fun _ =>
      Gathers.pure rfl
  · exact yields_advance.skip fun _ => (yields_separated stable_argRead _ (yields_arg hread)).skip fun _ =>
      (yields_symbol _).skip fun _ => Gathers.pure rfl
  · exact Gathers.pure hvalue

theorem gathers_factorUpTo (bound : Nat) : GathersTuple (factorUpTo sub bound) := by
  induction bound with
  | zero => exact gathers_exhausted _
  | succ bound ih =>
      refine yields_kind.skip fun k => ?_
      cases signOp k with
      | some op => exact yields_advance.skip fun _ => ih.bind fun _ _ => Gathers.pure rfl
      | none =>
          refine (gathers_suffixed hread hsub).bind fun base hbase => (yields_eat _).skip fun _ => Gathers.ite ?_ ?_
          · exact ih.bind fun _ _ => Gathers.pure rfl
          · exact Gathers.pure hbase

theorem gathers_bitOr : GathersTuple (bitOr sub) :=
  have hfactor : GathersTuple (factor sub) := Gathers.bounded (gathers_factorUpTo hread hsub)
  have hshift : GathersTuple (shift sub) := gathers_leftGrouped (gathers_leftGrouped (gathers_leftGrouped hfactor))
  gathers_leftGrouped (gathers_leftGrouped (gathers_leftGrouped hshift))

theorem gathers_comparison : GathersTuple (comparison sub) := by
  refine (gathers_bitOr hread hsub).bind fun left hleft => Gathers.bind (?_ : Gathers _ fun _ => True) fun rest _ => ?_
  · refine Gathers.loop (fun _ => True) trivial fun acc _ => yields_kind.skip fun k => yields_second.skip fun next => ?_
    cases compareOp? k next with
    | none => exact Gathers.pure trivial
    | some found =>
        refine yields_advance.skip fun _ => Gathers.ite ?_ ?_
        · exact yields_advance.skip fun _ => (yields_bitOr hread).skip fun _ => Gathers.pure trivial
        · exact (yields_bitOr hread).skip fun _ => Gathers.pure trivial
  · cases rest.getLast? with
    | none => exact Gathers.pure hleft
    | some found => exact Gathers.pure rfl

theorem gathers_negationUpTo (bound : Nat) : GathersTuple (negationUpTo sub bound) := by
  induction bound with
  | zero => exact gathers_exhausted _
  | succ bound ih =>
      refine (yields_check _).skip fun _ => Gathers.ite ?_ (gathers_comparison hread hsub)
      exact yields_advance.skip fun _ => ih.bind fun _ _ => Gathers.pure rfl

theorem gathers_disjunction : GathersTuple (disjunction sub) :=
  gathers_leftGrouped (gathers_leftGrouped (Gathers.bounded (gathers_negationUpTo hread hsub)))

theorem gathers_ternary : GathersTuple (ternary sub) := by
  refine (gathers_disjunction hread hsub).bind fun body hbody => (yields_eat _).skip fun _ => Gathers.ite ?_ ?_
  · exact (yields_disjunction hread).skip fun _ => (yields_keyword _).skip fun _ => (hread .full).skip fun _ =>
      Gathers.pure rfl
  · exact Gathers.pure hbody

omit hsub in
theorem gathers_lambda : GathersTuple (lambda sub) :=
  yields_advance.skip fun _ => (yields_params hread _).skip fun _ => (yields_symbol _).skip fun _ =>
    (hread .full).skip fun _ => Gathers.pure rfl

end

theorem gathers_nested {p : Parser Expr} {post : Expr → Prop} (h : Gathers p post) : Gathers (nested p) post := by
  intro s hs
  unfold nested
  split
  · have hopen := h { s with depth := s.depth + 1 } ⟨hs.eof, hs.lexical⟩
    cases hp : p { s with depth := s.depth + 1 } with
    | done e s' =>
        rw [hp] at hopen
        exact ⟨⟨hopen.1.eof, hopen.1.lexical⟩, hopen.2⟩
    | failed s' =>
        rw [hp] at hopen
        exact ⟨hopen.eof, hopen.lexical⟩
    | exhausted => trivial
  · exact gathers_fail _ _ s hs

theorem gathers_parseAt (bound : Nat) : ∀ level, GathersTuple (parseAt bound level) := by
  induction bound with
  | zero => exact fun _ => gathers_exhausted _
  | succ bound ih =>
      have hread := yields_parseAt bound
      rintro (_ | _ | _)
      · exact gathers_nested ((yields_check _).skip fun _ =>
          Gathers.ite (gathers_lambda hread) (gathers_ternary hread ih))
      · exact gathers_disjunction hread ih
      · exact gathers_bitOr hread ih

theorem gathers_expressionAt (level : Level) : Gathers (expressionAt level) fun e => e.lexical = true :=
  (yields_expressionAt level).lexical

theorem gathers_expressionList : Gathers (expressionList expressionAt) fun e => e.lexical = true :=
  (yields_expressionList yields_expressionAt).lexical

/-- What a loop binds. -/
theorem gathers_targetList : Gathers (targetList expressionAt) fun e => e.targetLexical = true := by
  have htuple : GathersTuple (expressionAt .bitwise) := Gathers.bounded fun bound => gathers_parseAt bound .bitwise
  refine ((yields_targetList yields_expressionAt).lexical.and
    (gathers_bareList _ (yields_expressionAt .bitwise) htuple)).mono fun e he => ?_
  exact Bool.and_eq_true_iff.2 he

/-! ## statements -/

theorem gathers_params (stop : TokenKind) :
    Gathers (params expressionAt stop) fun ps => (ps.all fun p => isNameText p.name.name) = true :=
  (yields_params yields_expressionAt stop).gathers fun _ _ hused hps =>
    List.all_eq_true.2 fun p hp => hps p hp hused

theorem gathers_identifier : Gathers identifier fun i => isNameText i.name = true :=
  yields_identifier.gathers fun _ _ hused hi => hused _ hi

/-- A statement whose names are as tokens have them. -/
abbrev GathersStmt (p : Parser Stmt) : Prop := Gathers p fun stmt => stmt.lexical = true

/-- Statements whose names are as tokens have them. -/
abbrev GathersBlock (p : Parser Block) : Prop := Gathers p fun body => Stmt.allLexical body = true

theorem gathers_assignedValues : Gathers assignedValues fun es => Expr.allLexical es = true := by
  refine Gathers.loop (fun es => Expr.allLexical es = true) rfl fun acc hacc => (yields_eat _).skip fun _ =>
    Gathers.ite ?_ (Gathers.pure ?_)
  · exact gathers_expressionList.bind fun e he => Gathers.pure (Bool.and_eq_true_iff.2 ⟨he, hacc⟩)
  · rw [Lap, Expr.allLexical_iff] at *
    simpa using hacc

theorem gathers_assignment (start : Span) : GathersStmt (assignment start) := by
  refine gathers_expressionList.bind fun first hfirst => gathers_assignedValues.bind fun values hvalues => ?_
  rw [Expr.allLexical_iff] at hvalues
  cases hlast : values.getLast? with
  | some value =>
      refine yields_last.skip fun _ => Gathers.pure (Bool.and_eq_true_iff.2 ⟨?_, hvalues value ?_⟩)
      · refine Bool.and_eq_true_iff.2 ⟨hfirst, Expr.allLexical_iff.2 fun e he => hvalues e ?_⟩
        exact List.dropLast_subset values he
      · exact List.mem_of_getLast? hlast
  | none =>
      refine yields_kind.skip fun _ => ?_
      split
      · exact yields_advance.skip fun _ => gathers_expressionList.bind fun value hvalue => yields_last.skip fun _ =>
          Gathers.pure (Bool.and_eq_true_iff.2 ⟨hfirst, hvalue⟩)
      · exact yields_last.skip fun _ => Gathers.pure hfirst

theorem gathers_deleteTargets : Gathers deleteTargets fun es => Expr.allLexical es = true := by
  refine (gathers_expressionAt _).bind fun first hfirst => Gathers.bind
    (?_ : Gathers _ fun es => Expr.allLexical es = true) fun others hothers =>
    Gathers.pure (Bool.and_eq_true_iff.2 ⟨hfirst, hothers⟩)
  refine Gathers.loop (fun es => Expr.allLexical es = true) rfl fun acc hacc => (yields_eat _).skip fun _ =>
    Gathers.ite ?_ (Gathers.pure ?_)
  · exact (gathers_expressionAt _).bind fun e he => Gathers.pure (Bool.and_eq_true_iff.2 ⟨he, hacc⟩)
  · rw [Lap, Expr.allLexical_iff] at *
    simpa using hacc

theorem gathers_simple : GathersStmt simple := by
  refine Gathers.bind (?_ : GathersStmt simpleBody) fun stmt hstmt => yields_lineEnd.skip fun _ => Gathers.pure hstmt
  refine yields_here.skip fun start => yields_kind.skip fun _ => ?_
  split
  · exact yields_advance.skip fun _ => yields_last.skip fun _ => Gathers.pure rfl
  · refine yields_advance.skip fun _ => yields_kind.skip fun _ => Gathers.ite ?_ ?_
    · exact yields_last.skip fun _ => Gathers.pure rfl
    · exact gathers_expressionList.bind fun value hvalue => yields_last.skip fun _ => Gathers.pure hvalue
  · exact yields_advance.skip fun _ => gathers_deleteTargets.bind fun targets htargets => yields_last.skip fun _ =>
      Gathers.pure htargets
  · exact gathers_assignment start

theorem gathers_refused (stmt : RefusedStmt) : GathersStmt (refused stmt) := by
  refine yields_here.skip fun _ => yields_skipClause.skip fun _ => Gathers.ite ?_ (Gathers.pure rfl)
  refine Gathers.bind (?_ : Gathers _ fun _ => True) fun _ _ => Gathers.pure rfl
  refine Gathers.loop (fun _ => True) trivial fun _ _ => yields_kind.skip fun _ => Gathers.ite ?_ ?_
  · exact yields_skipClause.skip fun _ => Gathers.pure trivial
  · exact Gathers.pure trivial

section

variable {statement : Parser Stmt} (hstatement : GathersStmt statement)

include hstatement

/-- One more statement of a block, if it does not fail. -/
theorem gathers_blockRound {acc : List Stmt} (hacc : Stmt.allLexical acc = true) (goal : Block → Prop) :
    Gathers (do
      match ← recovered statement with
      | some stmt => return .inl (stmt :: acc)
      | none => return .inl acc) (Lap (fun acc => Stmt.allLexical acc = true) goal) := by
  have hskip : Yields synchronize anything := yields_skipClause.bind fun _ _ _ => Yields.pure trivial
  have hrecovered : Gathers (recovered statement) fun found => ∀ stmt, found = some stmt → stmt.lexical = true := by
    refine hstatement.attempt.bind fun found hfound => ?_
    cases found with
    | some stmt => exact Gathers.pure hfound
    | none => exact hskip.skip fun _ => Gathers.pure (by simp)
  refine hrecovered.bind fun found hfound => ?_
  cases found with
  | some stmt => exact Gathers.pure (Bool.and_eq_true_iff.2 ⟨hfound stmt rfl, hacc⟩)
  | none => exact Gathers.pure hacc

theorem gathers_indentedBlock : GathersBlock (indentedBlock statement) := by
  refine Gathers.bind (?_ : GathersBlock _) fun body hbody => (yields_eat _).skip fun _ => Gathers.pure hbody
  refine Gathers.loop (fun acc => Stmt.allLexical acc = true) rfl fun acc hacc => (yields_check _).skip fun _ =>
    (yields_check _).skip fun _ => yields_tooManyFaults.skip fun _ => Gathers.ite (Gathers.pure ?_) ?_
  · rw [Lap, Stmt.allLexical_iff] at *
    simpa using hacc
  · exact gathers_blockRound hstatement hacc _

theorem gathers_block : GathersBlock (block statement) := by
  refine (yields_symbol _).skip fun _ => (yields_eat _).skip fun _ => Gathers.ite ?_ ?_
  · exact (yields_eat _).skip fun _ => Gathers.ite (gathers_indentedBlock hstatement) (gathers_fail _ _)
  · exact gathers_simple.bind fun stmt hstmt => Gathers.pure (Bool.and_eq_true_iff.2 ⟨hstmt, rfl⟩)

theorem gathers_function (decorators : List Expr) : GathersStmt (function statement decorators) := by
  have hrest : ∀ (start : Span) (name : Ident) (ps : List Param), isNameText name.name = true →
      (ps.all fun p => isNameText p.name.name) = true → GathersStmt (do
        let body ← block statement
        return Stmt.function (.mk (start.merge (← last)) name ps decorators body)) := by
    intro start name ps hname hps
    refine (gathers_block hstatement).bind fun body hbody => yields_last.skip fun _ => Gathers.pure ?_
    exact Bool.and_eq_true_iff.2 ⟨Bool.and_eq_true_iff.2 ⟨hname, hps⟩, hbody⟩
  refine yields_here.skip fun start => yields_advance.skip fun _ => gathers_identifier.bind fun name hname =>
    (yields_symbol _).skip fun _ => (gathers_params _).bind fun ps hps => (yields_symbol _).skip fun _ =>
    (yields_eat _).skip fun _ => Gathers.ite ?_ (hrest start name ps hname hps)
  exact (yields_expressionAt _).skip fun _ => hrest start name ps hname hps

theorem gathers_classDef (decorators : List Expr) : GathersStmt (classDef statement decorators) := by
  exact yields_here.skip fun start => yields_advance.skip fun _ => gathers_identifier.bind fun name hname =>
    yields_bases.skip fun bs => (gathers_block hstatement).bind fun body hbody => yields_last.skip fun _ =>
    Gathers.pure (Bool.and_eq_true_iff.2 ⟨hname, hbody⟩)

theorem gathers_decorated : GathersStmt (decorated statement) := by
  refine Gathers.bind (?_ : Gathers _ fun _ => True) fun decorators _ => yields_kind.skip fun _ => ?_
  · refine Gathers.loop (fun _ => True) trivial fun _ _ => (yields_eat _).skip fun _ => Gathers.ite ?_ ?_
    · exact (yields_expressionAt _).skip fun _ => yields_lineEnd.skip fun _ => Gathers.pure trivial
    · exact Gathers.pure trivial
  · split
    · exact gathers_function hstatement decorators
    · exact gathers_classDef hstatement decorators
    · exact gathers_fail _ _

theorem gathers_ifChainUpTo (bound : Nat) :
    Gathers (ifChainUpTo statement bound) fun chain => chain.lexical = true := by
  induction bound with
  | zero => exact gathers_exhausted _
  | succ bound ih =>
      refine yields_here.skip fun start => yields_advance.skip fun _ => (gathers_expressionAt _).bind
        fun condition hcondition => (gathers_block hstatement).bind fun body hbody => yields_kind.skip fun _ => ?_
      have hend : ∀ orelse : Else, orelse.lexical = true → Gathers (do
          return IfChain.mk (start.merge (← last)) condition body orelse) fun chain => chain.lexical = true :=
        fun orelse horelse => yields_last.skip fun _ =>
          Gathers.pure (Bool.and_eq_true_iff.2 ⟨Bool.and_eq_true_iff.2 ⟨hcondition, hbody⟩, horelse⟩)
      split
      · exact ih.bind fun chain hchain => hend (.elif chain) hchain
      · exact yields_advance.skip fun _ => (gathers_block hstatement).bind fun last hlast => hend (.block last) hlast
      · exact hend .nothing rfl

theorem gathers_loopElse : Gathers (loopElse statement) fun orelse => Stmt.optionLexical orelse = true := by
  refine (yields_eat _).skip fun _ => Gathers.ite ?_ (Gathers.pure rfl)
  exact (gathers_block hstatement).bind fun body hbody => Gathers.pure hbody

theorem gathers_forLoop : GathersStmt (forLoop statement) := by
  refine yields_here.skip fun start => yields_advance.skip fun _ => gathers_targetList.bind fun target htarget =>
    (yields_keyword _).skip fun _ => gathers_expressionList.bind fun source hsource =>
    (gathers_block hstatement).bind fun body hbody => (gathers_loopElse hstatement).bind fun orelse horelse =>
    yields_last.skip fun _ => Gathers.pure ?_
  simp [Stmt.lexical, htarget, hsource, hbody, horelse]

theorem gathers_whileLoop : GathersStmt (whileLoop statement) := by
  refine yields_here.skip fun start => yields_advance.skip fun _ => (gathers_expressionAt _).bind
    fun condition hcondition => (gathers_block hstatement).bind fun body hbody =>
    (gathers_loopElse hstatement).bind fun orelse horelse => yields_last.skip fun _ => Gathers.pure ?_
  simp [Stmt.lexical, hcondition, hbody, horelse]

theorem gathers_statementWith : GathersStmt (statementWith statement) := by
  refine yields_kind.skip fun _ => ?_
  split
  · exact gathers_function hstatement []
  · exact gathers_classDef hstatement []
  · exact gathers_decorated hstatement
  · exact (Gathers.bounded (gathers_ifChainUpTo hstatement)).bind fun chain hchain => Gathers.pure hchain
  · exact gathers_forLoop hstatement
  · exact gathers_whileLoop hstatement
  · split
    · exact gathers_refused _
    · exact Gathers.ite gathers_simple (gathers_fail _ _)
  · exact gathers_simple

end

theorem gathers_statement : GathersStmt statement := by
  refine Gathers.bounded fun bound => ?_
  induction bound with
  | zero => exact gathers_exhausted _
  | succ bound ih => exact gathers_statementWith ih

theorem gathers_module : Gathers module_ fun m => Stmt.allLexical m.body = true := by
  refine yields_here.skip fun start => Gathers.bind (?_ : GathersBlock _) fun body hbody => yields_last.skip fun _ =>
    Gathers.pure hbody
  refine Gathers.loop (fun acc => Stmt.allLexical acc = true) rfl fun acc hacc => (yields_check _).skip fun _ =>
    yields_tooManyFaults.skip fun _ => Gathers.ite (Gathers.pure ?_) ?_
  · rw [Lap, Stmt.allLexical_iff] at *
    simpa using hacc
  refine yields_kind.skip fun _ => ?_
  split
  · exact yields_advance.skip fun _ => Gathers.pure hacc
  · exact (yields_report _).skip fun _ => yields_skipIndented.skip fun _ => Gathers.pure hacc
  · exact yields_advance.skip fun _ => Gathers.pure hacc
  · exact gathers_blockRound gathers_statement hacc _

end Parser

/-- The names of a source that is parsed from a text are texts of names, and its numbers have no sign. -/
theorem lexical_of_parse {text : String} {m : Module} (h : (parse (lex text).tokens).module? = some m) :
    Stmt.allLexical m.body = true := by
  have hread := Parser.gathers_module (.start (lex text).tokens) ⟨rfl, lexical_lex text⟩
  obtain ⟨s, hmodule, -⟩ := module?_parse.1 h
  rw [hmodule] at hread
  exact hread.2

end ViewSync
