import ViewSync.Parser.Statement
import ViewSync.Proofs.Parser.Built
import ViewSync.Proofs.Parser.Mirrors
import ViewSync.Proofs.Tree.Passing

/-!
# ViewSync.Proofs.Parser.Lines

What statements have on one line: the statements that are one line long, and what stands in front of the colon of a
block. Like expressions they are read from the kinds of their tokens alone.
-/

namespace ViewSync.Parser

open ParseState

variable {α β : Type} {drop : Span → Bool}

instance : Serial (Passes drop) := ⟨fun stmt => ⟨stmt.passing drop, rfl⟩⟩

instance : Serial (IfChain.Passes drop) := ⟨fun chain => ⟨chain.passing drop, rfl⟩⟩

instance : Serial (Else.Passes drop) := ⟨fun orelse => ⟨orelse.passing drop, rfl⟩⟩

instance (rel : α → α → Prop) [Serial rel] : Serial (List.Forall₂ rel) where
  total as := by
    induction as with
    | nil => exact ⟨[], .nil⟩
    | cons a rest ih =>
        obtain ⟨rest', hrest⟩ := ih
        obtain ⟨a', ha⟩ : ∃ a', rel a a' := Serial.total a
        exact ⟨a' :: rest', .cons ha hrest⟩

instance (rel : α → α → Prop) [Serial rel] : Serial (Option.Rel rel) where
  total
    | none => ⟨none, .none⟩
    | some a =>
      have ⟨a', ha⟩ : ∃ a', rel a a' := Serial.total a
      ⟨some a', .some ha⟩

/-! ## simple statements -/

theorem mirrors_assignedValues : Mirrors assignedValues assignedValues (SameBy (List.map Expr.spanless)) := by
  unfold assignedValues
  refine .loop SameBy.nil fun acc acc' hacc => .eat ?_ (.out hacc.reverse)
  exact (mirrors_expressionList mirrors_expressionAt).bind fun e e' he => .again (he.items hacc)

theorem mirrors_assignment (start start' : Span) : Mirrors (assignment start) (assignment start') (Passes drop) := by
  unfold assignment
  refine (mirrors_expressionList mirrors_expressionAt).bind fun first first' hfirst =>
    mirrors_assignedValues.bind fun values values' hvalues => ?_
  have hlast : values'.getLast?.map Expr.spanless = values.getLast?.map Expr.spanless := by
    rw [← List.getLast?_map, ← List.getLast?_map, hvalues]
  cases hv : values.getLast? with
  | none =>
      rw [hv] at hlast
      rw [Option.map_eq_none_iff.1 hlast]
      refine .kind fun k => ?_
      split
      · refine .advance fun _ _ => (mirrors_expressionList mirrors_expressionAt).bind fun value value' hvalue => ?_
        refine .last fun _ _ => .pure (passes_of_spanless ?_ rfl)
        simp only [Stmt.spanless, hfirst.eq, hvalue.eq]
      · refine .last fun _ _ => .pure (passes_of_spanless ?_ rfl)
        simp only [Stmt.spanless, hfirst.eq]
  | some value =>
      rw [hv] at hlast
      obtain ⟨value', hv', hvalue⟩ := Option.map_eq_some_iff.1 hlast
      have hinit : values'.dropLast.map Expr.spanless = values.dropLast.map Expr.spanless := by
        rw [List.map_dropLast, List.map_dropLast, hvalues]
      rw [hv']
      refine .last fun _ _ => .pure (passes_of_spanless ?_ rfl)
      simp only [Stmt.spanless, List.map_cons, hfirst.eq, hinit, hvalue]

theorem mirrors_deleteTargets : Mirrors deleteTargets deleteTargets (SameBy (List.map Expr.spanless)) := by
  unfold deleteTargets
  refine (mirrors_expressionAt .bitwise).bind fun first first' hfirst => .bind ?_ fun others others'
    (hothers : SameBy (List.map Expr.spanless) others others') => .pure (hfirst.items hothers)
  refine .loop SameBy.nil fun acc acc' hacc => .eat ?_ (.out hacc.reverse)
  exact (mirrors_expressionAt .bitwise).bind fun e e' he => .again (he.items hacc)

theorem mirrors_simpleBody : Mirrors simpleBody simpleBody (Passes drop) := by
  unfold simpleBody
  refine .here fun _ _ => .kind fun k => ?_
  split
  · exact .advance fun _ _ => .last fun _ _ => .pure (passes_of_spanless rfl rfl)
  · refine .advance fun _ _ => .kind fun k => .ite (.last fun _ _ => .pure (passes_of_spanless rfl rfl)) ?_
    refine (mirrors_expressionList mirrors_expressionAt).bind fun value value' hvalue => .last fun _ _ => .pure ?_
    refine passes_of_spanless ?_ rfl
    simp only [Stmt.spanless, Option.map_some, hvalue.eq]
  · refine .advance fun _ _ => mirrors_deleteTargets.bind fun targets targets' htargets => .last fun _ _ => .pure ?_
    refine passes_of_spanless ?_ rfl
    simp only [Stmt.spanless]
    rw [htargets]
  · exact mirrors_assignment _ _

/-! ## what stands in front of a block -/

theorem mirrors_bases : Mirrors bases bases (SameBy (List.map Expr.spanless)) := by
  unfold bases
  refine .eat ?_ (.pure rfl)
  refine (mirrors_separated (f := Expr.spanless) (mirrors_expressionAt .full)).bind fun bs bs' hbs => ?_
  exact .expect fun _ _ => .pure hbs

/-- What stands behind the `def` of a function. -/
def functionHead : Parser (Ident × List Param) := do
  let name ← identifier
  let _ ← expect (.symbol .leftParen)
  let ps ← params expressionAt (.symbol .rightParen)
  let _ ← expect (.symbol .rightParen)
  if ← eat (.symbol .arrow) then let _ ← expression
  return (name, ps)

/-- What stands behind the `class` of a class. -/
def classHead : Parser (Ident × List Expr) := do
  let name ← identifier
  let bs ← bases
  return (name, bs)

/-- What stands behind a `for`. -/
def forHead : Parser (Expr × Expr) := do
  let target ← targetList expressionAt
  let _ ← expect (.keyword .in_)
  let source ← expressionList expressionAt
  return (target, source)

theorem mirrors_functionHead : Mirrors functionHead functionHead
    (SameBy fun head => (head.1.name, head.2.map Param.spanless)) := by
  have hdone : ∀ {name name' : Ident} {ps ps' : List Param}, SameBy Ident.name name name' →
      SameBy (List.map Param.spanless) ps ps' → Mirrors (Pure.pure (name, ps)) (Pure.pure (name', ps'))
        (SameBy fun head => (head.1.name, head.2.map Param.spanless)) :=
    fun hname hps => .pure (congrArg₂ Prod.mk hname hps)
  unfold functionHead
  refine .identifier fun name name' hname => .expect fun _ _ => (mirrors_params mirrors_expressionAt _).bind
    fun ps ps' hps => .expect fun _ _ => .eat ?_ (hdone hname hps)
  exact (mirrors_expressionAt .full).bind fun _ _ _ => hdone hname hps

theorem mirrors_classHead : Mirrors classHead classHead
    (SameBy fun head => (head.1.name, head.2.map Expr.spanless)) := by
  unfold classHead
  exact .identifier fun name name' hname => mirrors_bases.bind fun bs bs' hbs => .pure (congrArg₂ Prod.mk hname hbs)

theorem mirrors_forHead : Mirrors forHead forHead (SameBy fun head => (head.1.spanless, head.2.spanless)) := by
  unfold forHead
  refine (mirrors_targetList mirrors_expressionAt).bind fun target target' htarget => .expect fun _ _ => ?_
  refine (mirrors_expressionList mirrors_expressionAt).bind fun source source' hsource => .pure ?_
  exact congrArg₂ Prod.mk htarget hsource

/-! ### they stay on their line -/

theorem walks_functionHead : Walks functionHead fun _ _ => True := by
  have hbehind : ∀ name ps, Walks (do
      if ← eat (.symbol .arrow) then let _ ← expression
      return ((name, ps) : Ident × List Param)) fun _ _ => True :=
    fun name ps s => .eat rfl (fun _ s' _ _ => (walks_expressionAt .full s').bind fun _ _ _ _ _ => .pure trivial)
      (.pure trivial)
  unfold functionHead
  exact walks_identifier.bind fun _ _ _ => (walks_expect rfl).bind fun _ _ _ =>
    (walks_params walks_expressionAt _).bind fun _ _ _ => (walks_expect rfl).bind fun _ _ _ => hbehind _ _

theorem walks_classHead : Walks classHead fun _ _ => True := by
  unfold classHead
  exact walks_identifier.bind fun _ _ _ => walks_bases.bind fun _ _ _ => .pure trivial

theorem walks_forHead : Walks forHead fun _ _ => True := by
  unfold forHead
  exact (walks_targetList walks_expressionAt).bind fun _ _ _ => (walks_expect rfl).bind fun _ _ _ =>
    (walks_expressionList walks_expressionAt).bind fun _ _ _ => .pure trivial

/-! ### statements, from what stands in front of their blocks -/

theorem bind_assoc {γ : Type} (p : Parser α) (f : α → Parser β) (g : β → Parser γ) :
    p >>= f >>= g = p >>= fun a => f a >>= g := by
  funext s
  simp only [bind_apply]
  cases p s <;> rfl

theorem function_eq (statement : Parser Stmt) (decorators : List Expr) : function statement decorators =
    (here >>= fun start => advance >>= fun _ => functionHead >>= fun head => block statement >>= fun body =>
      last >>= fun stop => pure (.function (.mk (start.merge stop) head.1 head.2 decorators body))) := by
  unfold function functionHead
  simp only [bind_assoc]
  refine congrArg (here >>= ·) (funext fun start => congrArg (advance >>= ·) (funext fun _ =>
    congrArg (identifier >>= ·) (funext fun name => congrArg (expect _ >>= ·) (funext fun _ =>
      congrArg (params expressionAt _ >>= ·) (funext fun ps => congrArg (expect _ >>= ·) (funext fun _ =>
        congrArg (eat _ >>= ·) (funext fun arrow => ?_)))))))
  cases arrow with
  | false => rfl
  | true =>
      rw [if_pos rfl, if_pos rfl, bind_assoc]
      rfl

theorem classDef_eq (statement : Parser Stmt) (decorators : List Expr) : classDef statement decorators =
    (here >>= fun start => advance >>= fun _ => classHead >>= fun head => block statement >>= fun body =>
      last >>= fun stop => pure (.class_ (.mk (start.merge stop) head.1 head.2 decorators body))) := by
  unfold classDef classHead
  simp only [bind_assoc]
  rfl

theorem forLoop_eq (statement : Parser Stmt) : forLoop statement =
    (here >>= fun start => advance >>= fun _ => forHead >>= fun head => block statement >>= fun body =>
      loopElse statement >>= fun orelse => last >>= fun stop =>
        pure (.for_ (start.merge stop) head.1 head.2 body orelse)) := by
  unfold forLoop forHead
  simp only [bind_assoc]
  rfl

end ViewSync.Parser
