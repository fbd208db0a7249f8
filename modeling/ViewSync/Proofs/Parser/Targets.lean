import Mathlib.Data.List.Nodup
import ViewSync.Parser.Statement
import ViewSync.Proofs.Parser.Leaves
import ViewSync.Proofs.View.Marks
import ViewSync.View.Compile

/-!
# ViewSync.Proofs.Parser.Targets

The targets of a parsed source have different spans: each starts with a token of its own, in the order of the
text (`targetSpans_of_parse`). So a mark at a span is a mark for one target.

A rule of the grammar puts something in front of the rest of a scope. `Adds used f` says that what `f` puts there
has its targets at some of the tokens used up, in order.
-/

namespace ViewSync

namespace Outline

/-- What stands in a scope and in those inside, in the order of the text. -/
def items {α : Type} : Outline α → List α
  | done => []
  | here a rest => a :: items rest
  | scope inner rest => items inner ++ items rest

theorem map_item_places {α : Type} (o : Outline α) (path : List Nat) (n : Nat) :
    (o.places path n).map (·.item) = o.items := by
  induction o generalizing path n with
  | done => rfl
  | here a rest ih => rw [places, List.map_cons, ih, items]
  | scope inner rest ihInner ih => rw [places, List.map_append, ihInner, ih, items]

end Outline

namespace Scope

/-- Where the targets of an outline start. -/
def targetStarts (o : Outline (Binder Span)) : List Pos :=
  (o.items.filterMap Binder.mark?).map (·.first)

theorem targetStarts_here {binder : Binder Span} (h : binder.mark? = none) (rest : Outline (Binder Span)) :
    targetStarts (.here binder rest) = targetStarts rest := by
  simp [targetStarts, Outline.items, h]

theorem targetStarts_scope (inner rest : Outline (Binder Span)) :
    targetStarts (.scope inner rest) = targetStarts inner ++ targetStarts rest := by
  simp [targetStarts, Outline.items]

theorem targetStarts_targets (targets : List Expr) (rest : Outline (Binder Span)) :
    (targetStarts (targets.foldr outlineTarget rest)).Sublist
      (targets.filterMap Expr.anchor? ++ targetStarts rest) := by
  induction targets with
  | nil => exact List.Sublist.refl _
  | cons target targets ih =>
      rw [List.foldr_cons, List.filterMap_cons]
      cases target with
      | name span id => exact ih.cons_cons span.first
      | tuple span items =>
          split
          · exact ih
          · exact ih.cons _
      | _ => exact ih

theorem targetStarts_loopTarget (target : Expr) (rest : Outline (Binder Span)) :
    targetStarts (outlineLoopTarget target rest) = target.anchor?.toList ++ targetStarts rest := by
  cases target with
  | tuple span items =>
      simp only [outlineLoopTarget, Expr.anchor?]
      split <;> rfl
  | _ => rfl

/-- The targets of a source have different spans if they start at different positions. -/
theorem nodup_targetSpans {m : Module} (h : (targetStarts (outlineBlock m.body)).Nodup) :
    (targetSpans (bindings m)).Nodup := by
  have hspans : targetSpans (bindings m) = (outlineBlock m.body).items.filterMap Binder.mark? := by
    rw [← Outline.map_item_places _ [] 0, List.filterMap_map]
    rfl
  rw [hspans]
  exact List.Nodup.of_map _ h

/-- A statement of the body of a class. -/
def outlineMember : Stmt → Outline (Binder Span) → Outline (Binder Span)
  | .function def_, rest => outlineFunction .method def_ rest
  | stmt, rest => outlineStmt stmt rest

theorem outlineBlock_eq (body : Block) : outlineBlock body = body.foldr outlineStmt .done := by
  induction body with
  | nil => rfl
  | cons stmt body ih => rw [outlineBlock, ih, List.foldr_cons]

theorem outlineMembers_eq (body : Block) : outlineMembers body = body.foldr outlineMember .done := by
  induction body with
  | nil => rfl
  | cons stmt body ih =>
      rw [List.foldr_cons, ← ih]
      cases stmt <;> rfl

end Scope

namespace Parser

open Scope

/-! ## what is put in front of a scope -/

/-- The targets that are put in front of a scope start with some of the tokens used up, in order. -/
def Adds (used : List Token) (f : Outline (Binder Span) → Outline (Binder Span)) : Prop :=
  ∀ rest, (targetStarts (f rest)).Sublist (starts used ++ targetStarts rest)

section

variable {used more : List Token} {f g : Outline (Binder Span) → Outline (Binder Span)}

theorem starts_sublist (h : used.Sublist more) : (starts used).Sublist (starts more) :=
  (h.filter _).map _

theorem adds_nothing (used : List Token) : Adds used id :=
  fun _ => List.sublist_append_right _ _

theorem Adds.mono (h : Adds used f) (hsub : used.Sublist more) : Adds more f :=
  fun rest => (h rest).trans ((starts_sublist hsub).append (List.Sublist.refl _))

theorem Adds.comp (hf : Adds used f) (hg : Adds more g) : Adds (used ++ more) (f ∘ g) := by
  intro rest
  rw [starts_append, List.append_assoc]
  exact (hf (g rest)).trans ((List.Sublist.refl _).append (hg rest))

theorem Adds.alone (h : Adds used f) : (targetStarts (f .done)).Sublist (starts used) := by
  simpa [targetStarts, Outline.items] using h .done

/-- A scope is put in front of another one. -/
theorem adds_scope {inner : Outline (Binder Span)} (h : (targetStarts inner).Sublist (starts used)) :
    Adds used (.scope inner) := by
  intro rest
  rw [targetStarts_scope]
  exact h.append (List.Sublist.refl _)

end

/-- A statement whose targets start with tokens used up for it, in a block and in the body of a class. -/
structure StmtRead (used : List Token) (stmt : Stmt) : Prop where
  block : Adds used (outlineStmt stmt)
  member : Adds used (outlineMember stmt)

/-- Statements whose targets start with tokens used up for them, in a block and in the body of a class. -/
structure BlockRead (used : List Token) (body : Block) : Prop where
  block : Adds used (body.foldr outlineStmt)
  members : Adds used (body.foldr outlineMember)

section

variable {used more : List Token} {stmt : Stmt} {body : Block}

theorem StmtRead.mono (h : StmtRead used stmt) (hsub : used.Sublist more) : StmtRead more stmt :=
  ⟨h.block.mono hsub, h.member.mono hsub⟩

theorem BlockRead.mono (h : BlockRead used body) (hsub : used.Sublist more) : BlockRead more body :=
  ⟨h.block.mono hsub, h.members.mono hsub⟩

theorem blockRead_nil (used : List Token) : BlockRead used [] :=
  ⟨adds_nothing used, adds_nothing used⟩

theorem BlockRead.snoc (hbody : BlockRead used body) (hstmt : StmtRead more stmt) :
    BlockRead (used ++ more) (body ++ [stmt]) where
  block rest := by
    simp only [List.foldr_append]
    exact hbody.block.comp hstmt.block rest
  members rest := by
    simp only [List.foldr_append]
    exact hbody.members.comp hstmt.member rest

theorem BlockRead.starts_block (h : BlockRead used body) :
    (targetStarts (outlineBlock body)).Sublist (starts used) := by
  rw [outlineBlock_eq]
  exact h.block.alone

theorem BlockRead.starts_members (h : BlockRead used body) :
    (targetStarts (outlineMembers body)).Sublist (starts used) := by
  rw [outlineMembers_eq]
  exact h.members.alone

/-- A statement that is the same in the body of a class. -/
theorem stmtRead_of_adds (h : Adds used (outlineStmt stmt)) (hsame : outlineMember stmt = outlineStmt stmt) :
    StmtRead used stmt :=
  ⟨h, hsame ▸ h⟩

/-- A statement without targets. -/
theorem stmtRead_of_none (used : List Token) (h : outlineStmt stmt = id)
    (hsame : outlineMember stmt = outlineStmt stmt) : StmtRead used stmt :=
  stmtRead_of_adds (h ▸ adds_nothing used) hsame

end

/-! ## simple statements -/

/-- Expressions of which the targets start with tokens used up for them, in order. -/
def TargetsRead (used : List Token) (es : List Expr) : Prop :=
  (es.filterMap Expr.anchor?).Sublist (starts used)

section

variable {used more : List Token} {es es' : List Expr} {e : Expr}

theorem TargetsRead.mono (h : TargetsRead used es) (hsub : used.Sublist more) : TargetsRead more es :=
  h.trans (starts_sublist hsub)

theorem targetsRead_nil : TargetsRead [] [] := List.Sublist.refl _

theorem TargetsRead.append (h : TargetsRead used es) (h' : TargetsRead more es') :
    TargetsRead (used ++ more) (es ++ es') := by
  unfold TargetsRead
  rw [List.filterMap_append, starts_append]
  exact List.Sublist.append h h'

theorem anchor_sublist (h : e.ReadFrom used) : e.anchor?.toList.Sublist (starts used) := by
  cases hanchor : e.anchor? with
  | none => exact List.nil_sublist _
  | some p => exact List.singleton_sublist.2 (h.anchored p hanchor)

theorem targetsRead_singleton (h : e.ReadFrom used) : TargetsRead used [e] := by
  have hanchor := anchor_sublist h
  unfold TargetsRead
  rw [List.filterMap_cons]
  cases heq : e.anchor? with
  | none => exact List.nil_sublist _
  | some p => rwa [heq] at hanchor

theorem TargetsRead.adds (h : TargetsRead used es) : Adds used (es.foldr outlineTarget) := fun rest =>
  (targetStarts_targets es rest).trans (List.Sublist.append h (List.Sublist.refl _))

theorem TargetsRead.of_sublist (h : TargetsRead used es) (hsub : es'.Sublist es) : TargetsRead used es' :=
  (hsub.filterMap _).trans h

end

theorem yields_assignedValues : Yields assignedValues TargetsRead := by
  refine Yields.loop (fun used acc => TargetsRead used acc.reverse) targetsRead_nil ?_
  intro acc used hacc
  refine (yields_eat _).bind fun _ u₁ _ => Yields.ite ?_ ?_
  · refine (yields_expressionList yields_expressionAt).bind fun e u₂ he => Yields.pure ?_
    change TargetsRead _ (e :: acc).reverse
    rw [List.reverse_cons]
    exact (hacc.append (targetsRead_singleton he)).mono (by grind)
  · exact Yields.pure (hacc.mono (by grind))

theorem yields_assignment (start : Span) : Yields (assignment start) StmtRead := by
  refine (yields_expressionList yields_expressionAt).bind fun first u₁ hfirst =>
    yields_assignedValues.bind fun values u₂ hvalues => ?_
  cases values.getLast? with
  | some value =>
      refine yields_last.bind fun _ u₃ _ => Yields.pure (stmtRead_of_adds ?_ rfl)
      have htargets := (targetsRead_singleton hfirst).append hvalues
      have hadds := (htargets.of_sublist ((List.dropLast_sublist values).cons_cons first)).adds
      exact hadds.mono (by grind)
  | none =>
      refine yields_kind.bind fun _ _ _ => ?_
      split
      · exact yields_advance.bind fun _ _ _ => (yields_expressionList yields_expressionAt).bind fun _ _ _ =>
          yields_last.bind fun _ _ _ => Yields.pure (stmtRead_of_none _ rfl rfl)
      · exact yields_last.bind fun _ _ _ => Yields.pure (stmtRead_of_none _ rfl rfl)

theorem yields_deleteTargets : Yields deleteTargets anything := by
  refine (yields_expressionAt _).bind fun _ _ _ => Yields.bind (?_ : Yields _ anything) fun _ _ _ =>
    Yields.pure trivial
  refine Yields.loop anything trivial fun _ _ _ => (yields_eat _).bind fun _ _ _ => Yields.ite ?_ ?_
  · exact (yields_expressionAt _).bind fun _ _ _ => Yields.pure trivial
  · exact Yields.pure trivial

theorem yields_simpleBody : Yields simpleBody StmtRead := by
  refine yields_here.bind fun start u₁ _ => yields_kind.bind fun _ u₂ _ => ?_
  split
  · exact yields_advance.bind fun _ _ _ => yields_last.bind fun _ _ _ =>
      Yields.pure (stmtRead_of_none _ rfl rfl)
  · refine yields_advance.bind fun _ _ _ => yields_kind.bind fun _ _ _ => Yields.ite ?_ ?_
    · exact yields_last.bind fun _ _ _ => Yields.pure (stmtRead_of_none _ rfl rfl)
    · exact (yields_expressionList yields_expressionAt).bind fun _ _ _ => yields_last.bind fun _ _ _ =>
        Yields.pure (stmtRead_of_none _ rfl rfl)
  · exact yields_advance.bind fun _ _ _ => yields_deleteTargets.bind fun _ _ _ =>
      yields_last.bind fun _ _ _ => Yields.pure (stmtRead_of_none _ rfl rfl)
  · exact (yields_assignment start).mono fun used stmt h => h.mono (by grind)

theorem yields_simple : Yields simple StmtRead :=
  yields_simpleBody.bind fun _ _ hstmt => yields_lineEnd.bind fun _ _ _ =>
    Yields.pure (hstmt.mono (by grind))

theorem yields_refused (stmt : RefusedStmt) : Yields (refused stmt) StmtRead := by
  refine yields_here.bind fun _ _ _ => yields_skipClause.bind fun _ _ _ => Yields.ite ?_ ?_
  · refine Yields.bind (?_ : Yields _ anything) fun _ _ _ => Yields.pure (stmtRead_of_none _ rfl rfl)
    refine Yields.loop anything trivial fun _ _ _ => yields_kind.bind fun _ _ _ => Yields.ite ?_ ?_
    · exact yields_skipClause.bind fun _ _ _ => Yields.pure trivial
    · exact Yields.pure trivial
  · exact Yields.pure (stmtRead_of_none _ rfl rfl)

/-! ## blocks -/

section

variable {statement : Parser Stmt} (hstatement : Yields statement StmtRead)

include hstatement

theorem yields_recovered :
    Yields (recovered statement) fun used found => ∀ stmt, found = some stmt → StmtRead used stmt := by
  refine hstatement.attempt.bind fun found u₁ hfound => ?_
  cases found with
  | some stmt =>
      refine Yields.pure ?_
      rintro _ ⟨⟩
      exact (hfound stmt rfl).mono (by grind)
  | none =>
      exact (yields_skipClause.bind fun _ _ _ => Yields.pure trivial : Yields synchronize anything).bind
        fun _ _ _ => Yields.pure nofun

/-- One more statement of a block, if it does not fail. -/
theorem yields_blockRound (post : List Token → Block → Prop) {used : List Token} {acc : List Stmt}
    (hacc : BlockRead used acc.reverse) :
    Yields (do
      match ← recovered statement with
      | some stmt => return .inl (stmt :: acc)
      | none => return .inl acc)
      fun more r => Round (fun used acc => BlockRead used acc.reverse) post (used ++ more) r := by
  refine (yields_recovered hstatement).bind fun found u₁ hfound => ?_
  cases found with
  | some stmt =>
      refine Yields.pure ?_
      change BlockRead _ (stmt :: acc).reverse
      rw [List.reverse_cons, List.append_nil]
      exact hacc.snoc (hfound stmt rfl)
  | none => exact Yields.pure (hacc.mono (by grind))

theorem yields_indentedBlock : Yields (indentedBlock statement) BlockRead := by
  refine Yields.bind (?_ : Yields _ BlockRead) fun body u₁ hbody => (yields_eat _).bind fun _ u₂ _ =>
    Yields.pure (hbody.mono (by grind))
  refine Yields.loop (fun used acc => BlockRead used acc.reverse) (blockRead_nil _) ?_
  intro acc used hacc
  refine (yields_check _).bind fun _ u₁ _ => (yields_check _).bind fun _ u₂ _ =>
    yields_tooManyFaults.bind fun _ u₃ _ => Yields.ite ?_ ?_
  · exact Yields.pure (hacc.mono (by grind))
  · have hstart : BlockRead (used ++ (u₁ ++ (u₂ ++ u₃))) acc.reverse := hacc.mono (by grind)
    exact (yields_blockRound hstatement BlockRead hstart).mono fun more r hr => by simpa using hr

theorem yields_block : Yields (block statement) BlockRead := by
  refine (yields_symbol _).bind fun _ _ _ => (yields_eat _).bind fun _ _ _ => Yields.ite ?_ ?_
  · refine (yields_eat _).bind fun _ _ _ => Yields.ite ?_ ?_
    · exact (yields_indentedBlock hstatement).mono fun _ _ h => h.mono (by grind)
    · exact yields_fail _ _
  · refine yields_simple.bind fun stmt u₃ hstmt => Yields.pure ?_
    exact ((blockRead_nil []).snoc hstmt).mono (by grind)

/-! ## compound statements -/

omit hstatement in
/-- A function whose name is bound in some way. -/
theorem adds_function {used : List Token} {body : Block} (hbody : BlockRead used body)
    (bind : String → Binder Span) (hbind : ∀ x, (bind x).mark? = none) (span : Span) (name : Ident)
    (ps : List Param) (decorators : List Expr) :
    Adds used (outlineFunction bind (.mk span name ps decorators body)) := by
  intro rest
  rw [outlineFunction, targetStarts_here (hbind _)]
  refine adds_scope ?_ rest
  rw [targetStarts_here rfl]
  exact hbody.starts_block

theorem yields_function (decorators : List Expr) : Yields (function statement decorators) StmtRead := by
  have hrest : ∀ (start : Span) (name : Ident) (ps : List Param), Yields (do
      let body ← block statement
      return Stmt.function (.mk (start.merge (← last)) name ps decorators body)) StmtRead := by
    intro start name ps
    refine (yields_block hstatement).bind fun body u₁ hbody =>
      yields_last.bind fun stop u₂ _ => Yields.pure ?_
    have hused : BlockRead (u₁ ++ (u₂ ++ [])) body := hbody.mono (by grind)
    have hadds : ∀ bind : String → Binder Span, (∀ x, (bind x).mark? = none) →
        Adds _ (outlineFunction bind (.mk (start.merge stop) name ps decorators body)) :=
      fun bind hbind => adds_function hused bind hbind _ _ _ _
    exact ⟨hadds .definition fun _ => rfl, hadds .method fun _ => rfl⟩
  refine yields_here.bind fun start _ _ => yields_advance.bind fun _ _ _ => yields_identifier.bind fun name _ _ =>
    (yields_symbol _).bind fun _ _ _ => (yields_params yields_expressionAt _).bind fun ps _ _ =>
    (yields_symbol _).bind fun _ _ _ => (yields_eat _).bind fun _ _ _ => Yields.ite ?_ ?_
  · exact (yields_expressionAt _).bind fun _ _ _ =>
      (hrest start name ps).mono fun _ _ h => h.mono (by grind)
  · exact (hrest start name ps).mono fun _ _ h => h.mono (by grind)

omit hstatement in
theorem yields_bases : Yields bases anything := by
  refine (yields_eat _).bind fun _ _ _ => Yields.ite ?_ (Yields.pure trivial)
  exact (yields_separated stable_readFrom _ (yields_expressionAt _)).bind fun _ _ _ =>
    (yields_symbol _).bind fun _ _ _ => Yields.pure trivial

theorem yields_classDef (decorators : List Expr) : Yields (classDef statement decorators) StmtRead := by
  refine yields_here.bind fun start _ _ => yields_advance.bind fun _ _ _ => yields_identifier.bind fun name _ _ =>
    yields_bases.bind fun bs _ _ => (yields_block hstatement).bind fun body _ hbody =>
    yields_last.bind fun _ _ _ => Yields.pure (stmtRead_of_adds (fun rest => ?_) rfl)
  rw [outlineStmt, outlineClass, targetStarts_here rfl]
  exact Adds.mono (adds_scope hbody.starts_members) (by grind) rest

theorem yields_decorated : Yields (decorated statement) StmtRead := by
  refine Yields.bind (?_ : Yields _ anything) fun decorators _ _ => yields_kind.bind fun _ _ _ => ?_
  · refine Yields.loop anything trivial fun _ _ _ => (yields_eat _).bind fun _ _ _ => Yields.ite ?_ ?_
    · exact (yields_expressionAt _).bind fun _ _ _ => yields_lineEnd.bind fun _ _ _ => Yields.pure trivial
    · exact Yields.pure trivial
  · split
    · exact (yields_function hstatement decorators).mono fun _ _ h => h.mono (by grind)
    · exact (yields_classDef hstatement decorators).mono fun _ _ h => h.mono (by grind)
    · exact yields_fail _ _

/-- The branches of an `if` have their targets at tokens used up for them. -/
theorem yields_ifChainUpTo (bound : Nat) :
    Yields (ifChainUpTo statement bound) fun used chain => Adds used (outlineChain chain) := by
  induction bound with
  | zero => exact yields_exhausted _
  | succ bound ih =>
      refine yields_here.bind fun start u₁ _ => yields_advance.bind fun _ u₂ _ =>
        (yields_expressionAt _).bind fun condition u₃ _ => (yields_block hstatement).bind fun body u₄ hbody =>
        yields_kind.bind fun _ u₅ _ => ?_
      have hend : ∀ (orelse : Else) (u : List Token), Adds u (outlineElse orelse) →
          Yields (do return IfChain.mk (start.merge (← last)) condition body orelse)
            fun more chain => Adds (u₄ ++ (u ++ more)) (outlineChain chain) := by
        intro orelse u horelse
        refine yields_last.bind fun _ _ _ => Yields.pure ?_
        have hchain := (adds_scope hbody.starts_block).comp horelse
        exact hchain.mono (by grind)
      split
      · exact ih.bind fun chain _ hchain => (hend (.elif chain) _ hchain).mono fun _ _ h => h.mono (by grind)
      · exact yields_advance.bind fun _ _ _ => (yields_block hstatement).bind fun last _ hlast =>
          (hend (.block last) _ (adds_scope hlast.starts_block)).mono fun _ _ h => h.mono (by grind)
      · exact (hend .nothing _ (adds_nothing [])).mono fun _ _ h => h.mono (by grind)

theorem yields_loopElse :
    Yields (loopElse statement) fun used orelse => Adds used (outlineOptional orelse) := by
  refine (yields_eat _).bind fun _ _ _ => Yields.ite ?_ (Yields.pure (adds_nothing _))
  exact (yields_block hstatement).bind fun body _ hbody =>
    Yields.pure (Adds.mono (adds_scope hbody.starts_block) (by grind))

theorem yields_forLoop : Yields (forLoop statement) StmtRead := by
  refine yields_here.bind fun start u₁ _ => yields_advance.bind fun _ u₂ _ =>
    (yields_targetList yields_expressionAt).bind fun target u₃ htarget => (yields_keyword _).bind fun _ u₄ _ =>
    (yields_expressionList yields_expressionAt).bind fun source u₅ _ =>
    (yields_block hstatement).bind fun body u₆ hbody => (yields_loopElse hstatement).bind fun orelse u₇ horelse =>
    yields_last.bind fun _ u₈ _ => Yields.pure (stmtRead_of_adds ?_ rfl)
  have hinner : (targetStarts (outlineLoopTarget target (outlineBlock body))).Sublist (starts (u₃ ++ u₆)) := by
    rw [targetStarts_loopTarget, starts_append]
    exact (anchor_sublist htarget).append hbody.starts_block
  have hloop := (adds_scope hinner).comp horelse
  have hskipped : (u₆ ++ u₇).Sublist (u₄ ++ (u₅ ++ (u₆ ++ (u₇ ++ (u₈ ++ []))))) := by grind
  have hused := (List.Sublist.refl u₃).append hskipped
  exact hloop.mono (by grind)

theorem yields_whileLoop : Yields (whileLoop statement) StmtRead := by
  refine yields_here.bind fun start _ _ => yields_advance.bind fun _ _ _ =>
    (yields_expressionAt _).bind fun condition _ _ => (yields_block hstatement).bind fun body _ hbody =>
    (yields_loopElse hstatement).bind fun orelse _ horelse =>
    yields_last.bind fun _ _ _ => Yields.pure (stmtRead_of_adds ?_ rfl)
  have hloop := (adds_scope hbody.starts_block).comp horelse
  exact hloop.mono (by grind)

theorem yields_statementWith : Yields (statementWith statement) StmtRead := by
  have hmore : ∀ {p : Parser Stmt} {used : List Token}, Yields p StmtRead →
      Yields p fun more stmt => StmtRead (used ++ more) stmt :=
    fun hp => hp.mono fun _ _ h => h.mono (by grind)
  refine yields_kind.bind fun _ u₁ _ => ?_
  split
  · exact hmore (yields_function hstatement [])
  · exact hmore (yields_classDef hstatement [])
  · exact hmore (yields_decorated hstatement)
  · refine (Yields.bounded (yields_ifChainUpTo hstatement)).bind fun chain u₂ hchain =>
      Yields.pure (stmtRead_of_adds (Adds.mono hchain (by grind)) rfl)
  · exact hmore (yields_forLoop hstatement)
  · exact hmore (yields_whileLoop hstatement)
  · split
    · exact hmore (yields_refused _)
    · exact Yields.ite (hmore yields_simple) (yields_fail _ _)
  · exact hmore yields_simple

end

theorem yields_statement : Yields statement StmtRead := by
  refine Yields.bounded fun bound => ?_
  induction bound with
  | zero => exact yields_exhausted _
  | succ bound ih => exact yields_statementWith ih

/-! ## sources -/

theorem yields_module : Yields module_ fun used m => BlockRead used m.body := by
  refine yields_here.bind fun start u₁ _ => Yields.bind (?_ : Yields _ BlockRead) fun body u₂ hbody =>
    yields_last.bind fun _ u₃ _ => Yields.pure (BlockRead.mono hbody (by grind))
  refine Yields.loop (fun used acc => BlockRead used acc.reverse) (blockRead_nil _) ?_
  intro acc used hacc
  refine (yields_check _).bind fun _ u₁ _ => yields_tooManyFaults.bind fun _ u₂ _ => Yields.ite ?_ ?_
  · exact Yields.pure (hacc.mono (by grind))
  · refine yields_kind.bind fun _ u₃ _ => ?_
    split
    · exact yields_advance.bind fun _ _ _ => Yields.pure (hacc.mono (by grind))
    · exact (yields_report _).bind fun _ _ _ => yields_skipIndented.bind fun _ _ _ =>
        Yields.pure (hacc.mono (by grind))
    · exact yields_advance.bind fun _ _ _ => Yields.pure (hacc.mono (by grind))
    · have hstart : BlockRead (used ++ (u₁ ++ (u₂ ++ u₃))) acc.reverse := hacc.mono (by grind)
      exact (yields_blockRound yields_statement BlockRead hstart).mono fun more r hr => by simpa using hr

end Parser

open Scope

/-- In a source that is parsed from a text the targets have different spans. -/
theorem targetSpans_of_parse {text : String} {m : Module} (h : (parse (lex text).tokens).module? = some m) :
    (targetSpans (bindings m)).Nodup := by
  have hread := Parser.yields_module (.start (lex text).tokens) rfl
  obtain ⟨s, hmodule, -⟩ := module?_parse.1 h
  rw [Parser.YieldsAt, hmodule] at hread
  obtain ⟨used, hreads, hbody⟩ := hread
  have htokens : (lex text).tokens = used ++ s.rest := hreads.rest
  have hnodup := nodup_starts_lex text
  rw [htokens, starts_append] at hnodup
  exact nodup_targetSpans (hnodup.of_append_left.sublist hbody.starts_block)

end ViewSync
