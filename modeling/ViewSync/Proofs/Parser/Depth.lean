import ViewSync.Proofs.Parser.OneLine
import ViewSync.Proofs.Parser.Room
import ViewSync.Proofs.Parser.Towers

/-!
# ViewSync.Proofs.Parser.Depth

How deep the expressions of a parsed source nest. No more than 64 expressions are open at a time, and each step into
brackets, into the body of a `lambda` or behind an `else` opens one. Behind a sign, a `not` or a `**`, and in the
clauses of a comprehension, the parser recurs without opening another one, so there is no bound on such steps.

* `gives_module` — each expression of a source fits the room that there is where it is read;
* `bounded_iff_nests` — steps of some kinds are bounded exactly if each of these kinds opens an expression, and then
  by 64.
-/

namespace ViewSync

/-! ## the expressions of a source -/

mutual

/-- The expressions that stand right in a statement or in one inside of it; of a target of a loop, what it consists
of. -/
def Stmt.expressions : Stmt → List Expr
  | .function def_ => def_.expressions
  | .class_ def_ => def_.expressions
  | .assign _ targets value => value :: targets
  | .augAssign _ target _ value => [target, value]
  | .if_ chain => chain.expressions
  | .for_ _ target source body orelse =>
    target.targetItems ++ source :: (Stmt.allExpressions body ++ Stmt.optionExpressions orelse)
  | .while_ _ condition body orelse => condition :: (Stmt.allExpressions body ++ Stmt.optionExpressions orelse)
  | .return_ _ value => value.toList
  | .delete _ targets => targets
  | .pass _ => []
  | .expr _ value => [value]
  | .refused .. => []

/-- The default values, the decorators and the body of a function. -/
def FunctionDef.expressions : FunctionDef → List Expr
  | .mk _ _ params decorators body => params.filterMap Param.default? ++ (decorators ++ Stmt.allExpressions body)

/-- The bases, the decorators and the body of a class. -/
def ClassDef.expressions : ClassDef → List Expr
  | .mk _ _ bases decorators body => bases ++ (decorators ++ Stmt.allExpressions body)

/-- An `if` with all that follows it. -/
def IfChain.expressions : IfChain → List Expr
  | .mk _ condition body orelse => condition :: (Stmt.allExpressions body ++ orelse.expressions)

/-- What follows a branch. -/
def Else.expressions : Else → List Expr
  | .nothing => []
  | .elif chain => chain.expressions
  | .block body => Stmt.allExpressions body

/-- The statements of a block. -/
def Stmt.allExpressions : List Stmt → List Expr
  | [] => []
  | stmt :: rest => stmt.expressions ++ Stmt.allExpressions rest

/-- The block behind a loop. -/
def Stmt.optionExpressions : Option (List Stmt) → List Expr
  | none => []
  | some body => Stmt.allExpressions body

end

/-- The expressions of a source. -/
def Module.expressions (m : Module) : List Expr :=
  Stmt.allExpressions m.body

theorem Stmt.mem_allExpressions {body : List Stmt} {e : Expr} :
    e ∈ Stmt.allExpressions body ↔ ∃ stmt ∈ body, e ∈ stmt.expressions := by
  induction body with
  | nil => simp [Stmt.allExpressions]
  | cons stmt rest ih => simp [Stmt.allExpressions, ih]

namespace Parser

open ParseState

/-! ## what statements give -/

variable {r : Nat}

/-- A statement whose expressions fit the room where it is read. -/
abbrev GivesStmt (r : Nat) (p : Parser Stmt) : Prop :=
  Gives r p fun stmt => ∀ e ∈ stmt.expressions, e.Shallow r

/-- Statements whose expressions fit the room where they are read. -/
abbrev GivesBlock (r : Nat) (p : Parser Block) : Prop :=
  Gives r p fun body => ∀ e ∈ Stmt.allExpressions body, e.Shallow r

theorem gives_level (level : Level) : Gives r (expressionAt level) (Expr.Shallow r) :=
  (gives_expressionAt level).mono fun _ he => by
    cases level with
    | full => exact Expr.Inside.weaken he
    | disjunction => exact he
    | bitwise => exact he

theorem gives_values : Gives r (expressionList expressionAt) (Expr.Shallow r) :=
  (gives_expressionList gives_expressionAt).mono fun _ he => he.shallow

theorem gives_assignment (start : Span) : GivesStmt r (assignment start) := by
  refine gives_values.bind fun first hfirst => Gives.bind (?_ : Gives r assignedValues fun es => ∀ e ∈ es, e.Shallow r)
    fun values hvalues => ?_
  · refine Gives.loop (fun es => ∀ e ∈ es, e.Shallow r) nofun fun acc hacc => (onwards_eat _).skip fun _ =>
      Gives.ite ?_ (.pure (by simpa [Goes] using hacc))
    exact gives_values.bind fun e he => .pure (List.forall_mem_cons.2 ⟨he, hacc⟩)
  · cases hlast : values.getLast? with
    | some value =>
        refine onwards_peek.2.2.2.skip fun _ => .pure (List.forall_mem_cons.2 ⟨?_, List.forall_mem_cons.2 ⟨hfirst, ?_⟩⟩)
        · exact hvalues value (List.mem_of_getLast? hlast)
        · exact fun e he => hvalues e (List.dropLast_subset values he)
    | none =>
        refine onwards_peek.1.skip fun _ => ?_
        split
        · exact onwards_advance.skip fun _ => gives_values.bind fun value hvalue => onwards_peek.2.2.2.skip fun _ =>
            .pure (List.forall_mem_cons.2 ⟨hfirst, List.forall_mem_singleton.2 hvalue⟩)
        · exact onwards_peek.2.2.2.skip fun _ => .pure (List.forall_mem_singleton.2 hfirst)

theorem gives_deleteTargets : Gives r deleteTargets fun es => ∀ e ∈ es, e.Shallow r := by
  refine (gives_level _).bind fun first hfirst => Gives.bind (?_ : Gives r _ fun es => ∀ e ∈ es, e.Shallow r)
    fun others hothers => .pure (List.forall_mem_cons.2 ⟨hfirst, hothers⟩)
  refine Gives.loop (fun es => ∀ e ∈ es, e.Shallow r) nofun fun acc hacc => (onwards_eat _).skip fun _ =>
    Gives.ite ?_ (.pure (by simpa [Goes] using hacc))
  exact (gives_level _).bind fun e he => .pure (List.forall_mem_cons.2 ⟨he, hacc⟩)

theorem gives_simple : GivesStmt r simple := by
  refine Gives.bind (?_ : GivesStmt r simpleBody) fun stmt hstmt => onwards_lineEnd.skip fun _ => .pure hstmt
  refine onwards_peek.2.2.1.skip fun start => onwards_peek.1.skip fun _ => ?_
  split
  · exact onwards_advance.skip fun _ => onwards_peek.2.2.2.skip fun _ => .pure nofun
  · refine onwards_advance.skip fun _ => onwards_peek.1.skip fun _ => Gives.ite ?_ ?_
    · exact onwards_peek.2.2.2.skip fun _ => .pure nofun
    · exact gives_values.bind fun value hvalue => onwards_peek.2.2.2.skip fun _ =>
        .pure (List.forall_mem_singleton.2 hvalue)
  · exact onwards_advance.skip fun _ => gives_deleteTargets.bind fun targets htargets =>
      onwards_peek.2.2.2.skip fun _ => .pure htargets
  · exact gives_assignment start

/-- A refused statement has no expressions. -/
theorem gives_refused (stmt : RefusedStmt) : GivesStmt r (refused stmt) := by
  refine onwards_peek.2.2.1.skip fun start => onwards_skipClause.skip fun stop => Gives.ite ?_ (.pure nofun)
  exact Onwards.skip (.loop (fun _ => onwards_tryStep) ()) fun _ => .pure nofun

/-! ## blocks -/

theorem Gives.attempt {p : Parser Stmt} (hp : GivesStmt r p) (honwards : Onwards p) :
    Gives r (attempt p) fun found => ∀ stmt ∈ found, ∀ e ∈ stmt.expressions, e.Shallow r := by
  intro s found s' hroom hdone
  have hdepth : s'.depth = s.depth := (honwards.attempt.of_done hdone).depth
  refine ⟨hdepth, ?_⟩
  rintro stmt ⟨⟩
  unfold Parser.attempt at hdone
  cases hp' : p s with
  | done stmt' t =>
      rw [hp'] at hdone
      cases hdone
      exact (hp s _ _ hroom hp').2
  | failed t =>
      rw [hp'] at hdone
      cases hdone
  | exhausted =>
      rw [hp'] at hdone
      cases hdone

section

variable {statement : Parser Stmt} (hstatement : GivesStmt r statement) (honwards : Onwards statement)

include hstatement honwards

/-- One more statement of a block, if it does not fail. -/
theorem gives_blockRound {acc : List Stmt} (hacc : ∀ e ∈ Stmt.allExpressions acc, e.Shallow r) (goal : Block → Prop) :
    Gives r (do
      match ← recovered statement with
      | some stmt => return .inl (stmt :: acc)
      | none => return .inl acc) (Goes (fun acc => ∀ e ∈ Stmt.allExpressions acc, e.Shallow r) goal) := by
  refine Gives.bind (?_ : Gives r (recovered statement) fun found =>
    ∀ stmt ∈ found, ∀ e ∈ stmt.expressions, e.Shallow r) fun found hfound => ?_
  · refine (Gives.attempt hstatement honwards).bind fun found hfound => ?_
    cases found with
    | some stmt => exact .pure hfound
    | none => exact onwards_synchronize.skip fun _ => .pure nofun
  · cases found with
    | some stmt => exact .pure (List.forall_mem_append.2 ⟨hfound stmt rfl, hacc⟩)
    | none => exact .pure hacc

theorem gives_indentedBlock : GivesBlock r (indentedBlock statement) := by
  refine Gives.bind (?_ : GivesBlock r _) fun body hbody => (onwards_eat _).skip fun _ => .pure hbody
  refine Gives.loop (fun acc => ∀ e ∈ Stmt.allExpressions acc, e.Shallow r) nofun fun acc hacc =>
    (onwards_check _).skip fun _ => (onwards_check _).skip fun _ => onwards_tooManyFaults.skip fun _ =>
    Gives.ite (.pure ?_) (gives_blockRound hstatement honwards hacc _)
  simpa [Goes, Stmt.mem_allExpressions] using hacc

theorem gives_block : GivesBlock r (block statement) := by
  refine (onwards_expect _).skip fun _ => (onwards_eat _).skip fun _ => Gives.ite ?_ ?_
  · exact (onwards_eat _).skip fun _ => Gives.ite (gives_indentedBlock hstatement honwards) (gives_fail _ _)
  · exact gives_simple.bind fun stmt hstmt => .pure (List.forall_mem_append.2 ⟨hstmt, nofun⟩)

/-! ## compound statements -/

theorem gives_function {decorators : List Expr} (hdecorators : ∀ e ∈ decorators, e.Shallow r) :
    GivesStmt r (function statement decorators) := by
  have hrest : ∀ (start : Span) (name : Ident) (ps : List Param), (∀ p ∈ ps, ∀ e ∈ p.default?, e.Shallow r) →
      GivesStmt r (do
        let body ← block statement
        return Stmt.function (.mk (start.merge (← last)) name ps decorators body)) := by
    intro start name ps hps
    refine (gives_block hstatement honwards).bind fun body hbody => onwards_peek.2.2.2.skip fun _ => .pure ?_
    refine List.forall_mem_append.2 ⟨fun e he => ?_, List.forall_mem_append.2 ⟨hdecorators, hbody⟩⟩
    obtain ⟨p, hp, hdefault⟩ := List.mem_filterMap.1 he
    exact hps p hp e hdefault
  refine onwards_peek.2.2.1.skip fun start => onwards_advance.skip fun _ => onwards_identifier.skip fun name =>
    (onwards_expect _).skip fun _ => (gives_params gives_expressionAt _).bind fun ps hps => (onwards_expect _).skip
    fun _ => (onwards_eat _).skip fun _ => Gives.ite ?_ (hrest start name ps hps)
  exact (gives_level _).bind fun _ _ => hrest start name ps hps

theorem gives_classDef {decorators : List Expr} (hdecorators : ∀ e ∈ decorators, e.Shallow r) :
    GivesStmt r (classDef statement decorators) := by
  refine onwards_peek.2.2.1.skip fun start => onwards_advance.skip fun _ => onwards_identifier.skip fun name =>
    Gives.bind (?_ : Gives r bases fun bs => ∀ e ∈ bs, e.Shallow r) fun bs hbs =>
    (gives_block hstatement honwards).bind fun body hbody => onwards_peek.2.2.2.skip fun _ =>
    .pure (List.forall_mem_append.2 ⟨hbs, List.forall_mem_append.2 ⟨hdecorators, hbody⟩⟩)
  refine (onwards_eat _).skip fun _ => Gives.ite ?_ (.pure nofun)
  exact (gives_separated _ (gives_level _)).bind fun bs hbs => (onwards_expect _).skip fun _ => .pure hbs

theorem gives_decorated : GivesStmt r (decorated statement) := by
  refine Gives.bind (?_ : Gives r _ fun es => ∀ e ∈ es, e.Shallow r) fun decorators hdecorators =>
    onwards_peek.1.skip fun _ => ?_
  · refine Gives.loop (fun es => ∀ e ∈ es, e.Shallow r) nofun fun acc hacc => (onwards_eat _).skip fun _ =>
      Gives.ite ?_ (.pure (by simpa [Goes] using hacc))
    exact (gives_level _).bind fun e he => onwards_lineEnd.skip fun _ => .pure (List.forall_mem_cons.2 ⟨he, hacc⟩)
  · split
    · exact gives_function hstatement honwards hdecorators
    · exact gives_classDef hstatement honwards hdecorators
    · exact gives_fail _ _

theorem gives_ifChainUpTo (bound : Nat) :
    Gives r (ifChainUpTo statement bound) fun chain => ∀ e ∈ chain.expressions, e.Shallow r := by
  induction bound with
  | zero => exact gives_exhausted _
  | succ bound ih =>
      refine onwards_peek.2.2.1.skip fun start => onwards_advance.skip fun _ => (gives_level _).bind
        fun condition hcondition => (gives_block hstatement honwards).bind fun body hbody =>
        onwards_peek.1.skip fun _ => ?_
      have hend : ∀ orelse : Else, (∀ e ∈ orelse.expressions, e.Shallow r) → Gives r (do
          return IfChain.mk (start.merge (← last)) condition body orelse)
          fun chain => ∀ e ∈ chain.expressions, e.Shallow r :=
        fun orelse horelse => onwards_peek.2.2.2.skip fun _ =>
          .pure (List.forall_mem_cons.2 ⟨hcondition, List.forall_mem_append.2 ⟨hbody, horelse⟩⟩)
      split
      · exact ih.bind fun chain hchain => hend (.elif chain) hchain
      · exact onwards_advance.skip fun _ => (gives_block hstatement honwards).bind fun last hlast =>
          hend (.block last) hlast
      · exact hend .nothing nofun

theorem gives_loopElse :
    Gives r (loopElse statement) fun orelse => ∀ e ∈ Stmt.optionExpressions orelse, e.Shallow r := by
  refine (onwards_eat _).skip fun _ => Gives.ite ?_ (.pure nofun)
  exact (gives_block hstatement honwards).bind fun body hbody => .pure hbody

theorem gives_forLoop : GivesStmt r (forLoop statement) :=
  onwards_peek.2.2.1.skip fun _ => onwards_advance.skip fun _ => (gives_targetList gives_expressionAt).bind
    fun _ htarget => (onwards_expect _).skip fun _ => gives_values.bind fun _ hsource =>
    (gives_block hstatement honwards).bind fun _ hbody => (gives_loopElse hstatement honwards).bind
    fun _ horelse => onwards_peek.2.2.2.skip fun _ => .pure <| List.forall_mem_append.2 ⟨htarget,
      List.forall_mem_cons.2 ⟨hsource, List.forall_mem_append.2 ⟨hbody, horelse⟩⟩⟩

theorem gives_whileLoop : GivesStmt r (whileLoop statement) :=
  onwards_peek.2.2.1.skip fun _ => onwards_advance.skip fun _ => (gives_level _).bind fun _ hcondition =>
    (gives_block hstatement honwards).bind fun _ hbody => (gives_loopElse hstatement honwards).bind
    fun _ horelse => onwards_peek.2.2.2.skip fun _ => .pure <| List.forall_mem_cons.2 ⟨hcondition,
      List.forall_mem_append.2 ⟨hbody, horelse⟩⟩

theorem gives_statementWith : GivesStmt r (statementWith statement) := by
  refine onwards_peek.1.skip fun _ => ?_
  split
  · exact gives_function hstatement honwards nofun
  · exact gives_classDef hstatement honwards nofun
  · exact gives_decorated hstatement honwards
  · exact (Gives.bounded (gives_ifChainUpTo hstatement honwards)).bind fun chain hchain => .pure hchain
  · exact gives_forLoop hstatement honwards
  · exact gives_whileLoop hstatement honwards
  · split
    · exact gives_refused _
    · exact Gives.ite gives_simple (gives_fail _ _)
  · exact gives_simple

end

theorem gives_statementUpTo (bound : Nat) : GivesStmt r (statementUpTo bound) := by
  induction bound with
  | zero => exact gives_exhausted _
  | succ bound ih => exact gives_statementWith ih (onwards_statementUpTo bound)

theorem gives_module : Gives r module_ fun m => ∀ e ∈ m.expressions, e.Shallow r := by
  refine onwards_peek.2.2.1.skip fun start => Gives.bind (?_ : GivesBlock r _) fun body hbody =>
    onwards_peek.2.2.2.skip fun _ => .pure hbody
  refine Gives.loop (fun acc => ∀ e ∈ Stmt.allExpressions acc, e.Shallow r) nofun fun acc hacc =>
    (onwards_check _).skip fun _ => onwards_tooManyFaults.skip fun _ => Gives.ite (.pure ?_) ?_
  · simpa [Goes, Stmt.mem_allExpressions] using hacc
  refine onwards_peek.1.skip fun _ => ?_
  split
  · exact onwards_advance.skip fun _ => .pure hacc
  · exact (onwards_report _).skip fun _ => onwards_skipIndented.skip fun _ => .pure hacc
  · exact onwards_advance.skip fun _ => .pure hacc
  · have hstatement : GivesStmt r statement := Gives.bounded gives_statementUpTo
    exact gives_blockRound hstatement (fun s => onwards_statementUpTo _ s) hacc _

end Parser

/-! ## whole sources -/

/-- No path through an expression of a source goes more than so many steps of the kinds that count. -/
def BoundedBy (bound : Nat) (counts : Expr.Edge → Bool) : Prop :=
  ∀ (tokens : List Token) (m : Module), (parse tokens).module? = some m → ∀ e ∈ m.expressions,
    ∀ n e', Expr.Path counts n e e' → n ≤ bound

theorem shallow_of_parse {tokens : List Token} {m : Module} (h : (parse tokens).module? = some m) {e : Expr}
    (he : e ∈ m.expressions) : e.Shallow maxNesting := by
  obtain ⟨s, hmodule, -⟩ := module?_parse.1 h
  exact (Parser.gives_module _ m s rfl hmodule).2 e he

/-- More steps are counted if more kinds count. -/
theorem Expr.Path.mono {counts counts' : Expr.Edge → Bool} (hle : ∀ edge, counts edge = true → counts' edge = true)
    {n : Nat} {e e' : Expr} (h : Expr.Path counts n e e') : ∃ n', n ≤ n' ∧ Expr.Path counts' n' e e' := by
  induction h with
  | here => exact ⟨0, Nat.le_refl 0, .here⟩
  | @down edge n e₁ e₂ e₃ hchild hrest ih =>
      obtain ⟨n', hn, hpath⟩ := ih
      have hstep : (counts edge).toNat ≤ (counts' edge).toNat := by
        cases hcounts : counts edge with
        | false => exact Nat.zero_le _
        | true => rw [hle edge hcounts]
      exact ⟨_, Nat.add_le_add hstep hn, .down hchild hpath⟩

/-- A bound on steps of a kind that opens no expression is passed by some source. -/
theorem not_boundedBy {counts : Expr.Edge → Bool} {edge : Expr.Edge} (hcounts : counts edge = true)
    (hfree : edge.nests = false) (bound : Nat) : ¬ BoundedBy bound counts := by
  intro h
  obtain ⟨tokens, m, span, e, e', hparse, hbody, hpath⟩ := exists_deep_source hfree hcounts (bound + 1)
  have he : e ∈ m.expressions := by
    rw [Module.expressions, hbody]
    exact List.mem_cons_self ..
  have hle : bound + 1 ≤ bound := h tokens m (by rw [hparse]) e he (bound + 1) e' hpath
  omega

/-- On a path through an expression of a source, steps of some kinds are bounded exactly if each of these kinds opens an
expression, and then by 64. That is so of steps into brackets, into the body of a `lambda` and behind `else`; of steps
behind a sign, behind `not`, behind `**` and into the clauses of a comprehension it is not. -/
theorem bounded_iff_nests (counts : Expr.Edge → Bool) :
    (BoundedBy maxNesting counts ↔ ∀ edge, counts edge = true → edge.nests = true) ∧
      ((∃ bound, BoundedBy bound counts) → BoundedBy maxNesting counts) := by
  have hfree : ∀ bound, BoundedBy bound counts → ∀ edge, counts edge = true → edge.nests = true := by
    intro bound h edge hcounts
    cases hnests : edge.nests with
    | true => rfl
    | false => exact absurd h (not_boundedBy hcounts hnests bound)
  have hbound : (∀ edge, counts edge = true → edge.nests = true) → BoundedBy maxNesting counts := by
    intro hle tokens m hparse e he n e' hpath
    obtain ⟨n', hn, hpath'⟩ := hpath.mono hle
    exact Nat.le_trans hn (shallow_of_parse hparse he n' e' hpath')
  exact ⟨⟨hfree maxNesting, hbound⟩, fun ⟨bound, h⟩ => hbound (hfree bound h)⟩

/-- Brackets, bodies and `else` are bounded by 64. Once signs, `not` and `**` count as well, nothing is a bound. -/
theorem bounded_iff_nests_operators :
    BoundedBy maxNesting Expr.Edge.nests ∧
      ¬ ∃ bound, BoundedBy bound fun edge => edge.nests || edge = .operand || edge = .exponent := by
  refine ⟨(bounded_iff_nests _).1.2 fun _ h => h, fun h => ?_⟩
  have hoperand := (bounded_iff_nests _).1.1 ((bounded_iff_nests _).2 h) .operand rfl
  cases hoperand

end ViewSync
