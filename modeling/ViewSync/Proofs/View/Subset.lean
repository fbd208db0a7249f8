import ViewSync.Proofs.View.Emission
import ViewSync.View.Compile

/-!
# ViewSync.Proofs.View.Subset

The sources that are compiled. `Module.translatable` goes through a whole tree and asks of each node only what
kind of node it is and how many of what kind of children it has; it knows nothing of scripts. A source whose
scopes are in order is compiled just when all of its nodes pass (`translates_iff_translatable`), so that no child
of a node is left out and no node is dropped.
-/

namespace ViewSync

/-! ## the subset -/

/-- Floor division and the shifts are not translated. -/
def BinaryOp.translatable : BinaryOp → Bool
  | .floorDiv => false
  | .shiftLeft => false
  | .shiftRight => false
  | _ => true

/-- Membership and identity are not translated. -/
def CompareOp.translatable : CompareOp → Bool
  | .isIn => false
  | .notIn => false
  | .is => false
  | .isNot => false
  | _ => true

/-- Parameters without default values. -/
def Param.allRequired (ps : List Param) : Bool :=
  ps.all fun p => p.default?.isNone

namespace Expr

/-- String and number literals, which may be keys of a dict. -/
def isKey : Expr → Bool
  | .str .. => true
  | .int .. => true
  | .float .. => true
  | _ => false

/-- Attributes and subscripts. -/
def isMember : Expr → Bool
  | .attribute .. => true
  | .subscript .. => true
  | _ => false

/-- What may be written to: a name, an attribute or a subscript. -/
def isPlace (e : Expr) : Bool :=
  e.asName?.isSome || e.isMember

/-- What a loop may bind: a name or a tuple of names. -/
def isLoopTarget : Expr → Bool
  | .name .. => true
  | .tuple _ items => items.all fun e => e.asName?.isSome
  | _ => false

mutual

/-- An expression all of whose nodes are translated. -/
def translatable : Expr → Bool
  | .int .. => true
  | .float .. => true
  | .str .. => true
  | .bool .. => true
  | .none .. => true
  | .name .. => true
  | .list _ items => allTranslatable items
  | .dict _ entries => entriesTranslatable entries
  | .attribute _ value _ => value.translatable
  | .subscript _ value index => value.translatable && index.translatable
  | .call _ callee args => callee.translatable && argsTranslatable args
  | .binary _ left op right => left.translatable && right.translatable && op.translatable
  | .unary _ _ operand => operand.translatable
  | .compare _ left [(op, right)] => left.translatable && right.translatable && op.translatable
  | .compare .. => false
  | .ternary _ test body orelse => test.translatable && body.translatable && orelse.translatable
  | .lambda _ ps body => Param.allRequired ps && body.translatable
  | .tuple .. => false
  | .slice .. => false
  | .comprehension .. => false
  | .yield .. => false

/-- Several expressions. -/
def allTranslatable : List Expr → Bool
  | [] => true
  | e :: rest => e.translatable && allTranslatable rest

/-- The entries of a dict. -/
def entriesTranslatable : List (Expr × Expr) → Bool
  | [] => true
  | (key, value) :: rest => key.isKey && value.translatable && entriesTranslatable rest

/-- The arguments of a call: positional ones, with or without a star. -/
def argsTranslatable : List Arg → Bool
  | [] => true
  | .positional value :: rest => value.translatable && argsTranslatable rest
  | .starred value :: rest => value.translatable && argsTranslatable rest
  | .keyword .. :: _ => false
  | .doubleStarred .. :: _ => false

end

end Expr

namespace Stmt

mutual

/-- A statement all of whose nodes are translated. -/
def translatable : Stmt → Bool
  | .function def_ => functionTranslatable def_
  | .class_ def_ => classTranslatable def_
  | .assign _ [target] value => target.isPlace && target.translatable && value.translatable
  | .assign .. => false
  | .augAssign _ target op value =>
    op == .add && target.isPlace && target.translatable && value.translatable
  | .if_ chain => chainTranslatable chain
  | .for_ _ target source body orelse =>
    orelse.isNone && target.isLoopTarget && blockTranslatable body && source.translatable
  | .while_ _ condition body orelse =>
    orelse.isNone && condition.translatable && blockTranslatable body
  | .return_ _ none => true
  | .return_ _ (some value) => value.translatable
  | .delete _ [target] => target.isMember && target.translatable
  | .delete .. => false
  | .pass _ => true
  | .expr _ value => value.translatable
  | .refused .. => false

/-- A function without decorators and default values. -/
def functionTranslatable : FunctionDef → Bool
  | .mk _ _ ps decorators body =>
    decorators.isEmpty && Param.allRequired ps && blockTranslatable body

/-- A class without decorators and bases. -/
def classTranslatable : ClassDef → Bool
  | .mk _ _ bases decorators body => decorators.isEmpty && bases.isEmpty && membersTranslatable body

/-- The body of a class: methods and `pass`. -/
def membersTranslatable : List Stmt → Bool
  | [] => true
  | .function def_ :: rest => functionTranslatable def_ && membersTranslatable rest
  | .pass _ :: rest => membersTranslatable rest
  | _ :: _ => false

/-- The branches of an `if`. -/
def chainTranslatable : IfChain → Bool
  | .mk _ condition body orelse =>
    condition.translatable && blockTranslatable body && elseTranslatable orelse

/-- What follows a branch. -/
def elseTranslatable : Else → Bool
  | .nothing => true
  | .elif chain => chainTranslatable chain
  | .block body => blockTranslatable body

/-- The statements of a block. -/
def blockTranslatable : List Stmt → Bool
  | [] => true
  | stmt :: rest => stmt.translatable && blockTranslatable rest

end

/-- Functions and classes, which are all that may stand at the top of a source. -/
def isDefinition : Stmt → Bool
  | .function _ => true
  | .class_ _ => true
  | _ => false

end Stmt

/-- A source all of whose nodes are translated. -/
def Module.translatable (m : Module) : Bool :=
  m.body.all fun stmt => stmt.isDefinition && stmt.translatable

/-! ## lowering succeeds on the subset -/

namespace Lower

section

variable {ε α β : Type}

@[simp] theorem isOk_ok (a : α) : (Except.ok a : Except ε α).isOk = true := rfl

@[simp] theorem isOk_pure (a : α) : (pure a : Except ε α).isOk = true := rfl

@[simp] theorem isOk_error (e : ε) : (Except.error e : Except ε α).isOk = false := rfl

theorem isOk_iff {x : Except ε α} : x.isOk = true ↔ ∃ a, x = .ok a := by
  cases x <;> simp

/-- Where a step that follows does not depend on the result of the one before, both have to succeed. -/
theorem isOk_bind {x : Except ε α} {f : α → Except ε β} {b : Bool} (h : ∀ a, (f a).isOk = b) :
    (x >>= f).isOk = (x.isOk && b) := by
  cases x with
  | ok a => exact h a
  | error e => rfl

theorem isOk_return {x : Except ε α} {f : α → β} : (do return f (← x)).isOk = x.isOk :=
  (isOk_bind fun _ => isOk_pure _).trans (Bool.and_true _)

end

variable (env : Env)

theorem isOk_params (ps : List Param) : (params env ps).isOk = Param.allRequired ps := by
  induction ps with
  | nil => rfl
  | cons p ps ih =>
      rw [params, Param.allRequired, List.all_cons]
      cases p.default? with
      | some value => rfl
      | none => exact (isOk_bind fun _ => isOk_pure _).trans (by rw [ih]; simp [Param.allRequired])

theorem isOk_checkKey (key : Expr) : (checkKey key).isOk = key.isKey := by
  cases key <;> rfl

/-- The operators that are translated are those with a counterpart in scripts. -/
theorem isSome_binaryOp (op : BinaryOp) : (Script.BinaryOp.ofSource? op).isSome = op.translatable := by
  cases op <;> rfl

theorem isSome_compareOp (op : CompareOp) :
    (Script.CompareOp.ofSource? op).isSome = op.translatable := by
  cases op <;> rfl

/-- A key of a dict is translated. -/
theorem translatable_of_isKey {key : Expr} (h : key.isKey = true) : key.translatable = true := by
  cases key <;> first | rfl | cases h

mutual

/-- An expression is lowered just when all of its nodes are translated. -/
theorem isOk_expr (e : Expr) : (expr env e).isOk = e.translatable := by
  match e with
  | .int .. | .float .. | .str .. | .bool .. | .none .. | .name .. => rfl
  | .tuple .. | .slice .. | .comprehension .. | .yield .. => rfl
  | .list span items =>
      rw [expr, Expr.translatable, ← isOk_exprs items]
      exact isOk_return
  | .dict span items =>
      rw [expr, Expr.translatable, ← isOk_entries items]
      exact isOk_return
  | .attribute span value attr =>
      rw [expr, Expr.translatable, ← isOk_expr value]
      exact isOk_return
  | .subscript span value index =>
      rw [expr, Expr.translatable, ← isOk_expr value, ← isOk_expr index]
      exact isOk_bind fun _ => isOk_return
  | .call span callee items =>
      rw [expr, Expr.translatable, ← isOk_expr callee, ← isOk_args items]
      refine isOk_bind fun _ => (isOk_bind fun _ => ?_).trans (Bool.and_true _)
      split <;> rfl
  | .binary span left op right =>
      rw [expr, Expr.translatable, ← isOk_expr left, ← isOk_expr right, ← isSome_binaryOp, Bool.and_assoc]
      refine isOk_bind fun _ => isOk_bind fun _ => ?_
      cases Script.BinaryOp.ofSource? op <;> rfl
  | .unary span op operand =>
      rw [expr, Expr.translatable, ← isOk_expr operand]
      exact isOk_return
  | .compare span left [(op, right)] =>
      rw [expr, Expr.translatable, ← isOk_expr left, ← isOk_expr right, ← isSome_compareOp, Bool.and_assoc]
      refine isOk_bind fun _ => isOk_bind fun _ => ?_
      cases Script.CompareOp.ofSource? op <;> rfl
  | .compare span left [] => rfl
  | .compare span left (_ :: _ :: _) => rfl
  | .ternary span test body orelse =>
      rw [expr, Expr.translatable, ← isOk_expr test, ← isOk_expr body, ← isOk_expr orelse, Bool.and_assoc]
      exact isOk_bind fun _ => isOk_bind fun _ => isOk_return
  | .lambda span ps body =>
      rw [expr, Expr.translatable, ← isOk_params env ps, ← isOk_expr body]
      exact isOk_bind fun _ => isOk_return

theorem isOk_exprs (items : List Expr) : (exprs env items).isOk = Expr.allTranslatable items := by
  match items with
  | [] => rfl
  | e :: rest =>
      rw [exprs, Expr.allTranslatable, ← isOk_expr e, ← isOk_exprs rest]
      exact isOk_bind fun _ => isOk_return

theorem isOk_entries (items : List (Expr × Expr)) :
    (entries env items).isOk = Expr.entriesTranslatable items := by
  match items with
  | [] => rfl
  | (key, value) :: rest =>
      rw [entries, Expr.entriesTranslatable, ← isOk_expr value, ← isOk_entries rest]
      have hrest : ∀ k, (do
          let v ← expr env value
          return (k, v) :: (← entries env rest)).isOk = ((expr env value).isOk && (entries env rest).isOk) :=
        fun _ => isOk_bind fun _ => isOk_return
      refine (isOk_bind fun _ => isOk_bind fun k => hrest k).trans ?_
      rw [isOk_checkKey, isOk_expr key, Bool.and_assoc]
      cases hkey : key.isKey with
      | false => rfl
      | true => rw [translatable_of_isKey hkey, Bool.true_and, Bool.true_and]

theorem isOk_args (items : List Arg) : (args env items).isOk = Expr.argsTranslatable items := by
  match items with
  | [] => rfl
  | .positional value :: rest =>
      rw [args, arg, Expr.argsTranslatable, ← isOk_expr value, ← isOk_args rest]
      exact isOk_bind fun _ => isOk_return
  | .starred value :: rest =>
      rw [args, arg, Expr.argsTranslatable, ← isOk_expr value, ← isOk_args rest, bind_assoc]
      exact isOk_bind fun _ => isOk_return
  | .keyword .. :: rest => rfl
  | .doubleStarred .. :: rest => rfl

end

/-! ## targets -/

theorem isOk_store (target : Expr) :
    (store env target).isOk = (target.isPlace && target.translatable) := by
  match target with
  | .name .. | .attribute .. | .subscript .. => exact isOk_expr env _
  | .int .. | .float .. | .str .. | .bool .. | .none .. | .list .. | .tuple .. | .dict .. | .slice ..
  | .call .. | .binary .. | .unary .. | .compare .. | .ternary .. | .lambda .. | .comprehension ..
  | .yield .. => rfl

theorem isOk_assignTarget (span : Span) (target : Expr) :
    (assignTarget env span [target]).isOk = (target.isPlace && target.translatable) := by
  rw [← isOk_store env]
  exact isOk_return

theorem isOk_deleteTarget (span : Span) (target : Expr) :
    (deleteTarget env span [target]).isOk = (target.isMember && target.translatable) := by
  match target with
  | .attribute .. | .subscript .. => exact isOk_expr env _
  | .name .. | .int .. | .float .. | .str .. | .bool .. | .none .. | .list .. | .tuple .. | .dict ..
  | .slice .. | .call .. | .binary .. | .unary .. | .compare .. | .ternary .. | .lambda ..
  | .comprehension .. | .yield .. => rfl

theorem isOk_loopNames (items : List Expr) :
    (loopNames env items).isOk = items.all fun e => e.asName?.isSome := by
  induction items with
  | nil => rfl
  | cons e rest ih =>
      rw [List.all_cons]
      cases e with
      | name span id =>
          rw [loopNames, ← ih]
          exact isOk_return
      | _ => rfl

theorem isOk_binding (target : Expr) : (binding env target).isOk = target.isLoopTarget := by
  cases target with
  | tuple span items =>
      rw [binding, Expr.isLoopTarget, ← isOk_loopNames env]
      exact isOk_return
  | _ => rfl

/-- A loop over `object.items()` goes over the object instead. -/
theorem isOk_iteration (bound : Script.Binding) (source : Expr) :
    (iteration env bound source).isOk = source.translatable := by
  rw [iteration]
  cases hreceiver : itemsReceiver? source with
  | none =>
      rw [← isOk_expr env source]
      exact isOk_return
  | some object =>
      have hsource : source.translatable = object.translatable := by
        rw [itemsReceiver?.eq_def] at hreceiver
        split at hreceiver
        · split at hreceiver
          · cases hreceiver
            rw [Expr.translatable, Expr.translatable, Expr.argsTranslatable, Bool.and_true]
          · cases hreceiver
        · cases hreceiver
      rw [hsource, ← isOk_expr env object]
      refine (isOk_bind fun _ => ?_).trans (Bool.and_true _)
      cases bound <;> rfl

/-! ## statements -/

theorem isOk_checkDecorators (node : String) (decorators : List Expr) :
    (checkDecorators node decorators).isOk = decorators.isEmpty := by
  cases decorators <;> rfl

theorem isOk_checkBases (bases : List Expr) : (checkBases bases).isOk = bases.isEmpty := by
  cases bases <;> rfl

theorem isOk_checkLoopElse (node : String) (span : Span) (orelse : Option Block) :
    (checkLoopElse node span orelse).isOk = orelse.isNone := by
  cases orelse <;> rfl

mutual

/-- A statement is lowered just when all of its nodes are translated. -/
theorem isOk_stmt (s : Stmt) : (stmt env s).isOk = s.translatable := by
  match s with
  | .function def_ =>
      rw [stmt, Stmt.translatable, ← isOk_function def_]
      exact isOk_return
  | .class_ def_ =>
      rw [stmt, Stmt.translatable, isOk_classDef def_]
  | .assign span [target] value =>
      rw [stmt, Stmt.translatable, ← isOk_assignTarget env span, ← isOk_expr env value]
      exact isOk_bind fun _ => isOk_return
  | .assign span [] value => rfl
  | .assign span (_ :: _ :: _) value => rfl
  | .augAssign span target op value =>
      rw [stmt, Stmt.translatable]
      by_cases hop : op = .add
      · rw [if_pos hop, hop, ← isOk_expr env value]
        refine (isOk_bind fun _ => isOk_return).trans ?_
        rw [isOk_store]
        rfl
      · rw [if_neg hop, beq_false_of_ne hop]
        rfl
  | .if_ chain =>
      rw [stmt, Stmt.translatable, ← isOk_ifChain chain]
      exact isOk_return
  | .for_ span target source body orelse =>
      rw [stmt, Stmt.translatable, ← isOk_checkLoopElse "For" span, ← isOk_binding env,
        ← isOk_block body, Bool.and_assoc, Bool.and_assoc]
      refine isOk_bind fun _ => isOk_bind fun bound => isOk_bind fun _ => ?_
      rw [← isOk_iteration env bound]
      exact isOk_return
  | .while_ span condition body orelse =>
      rw [stmt, Stmt.translatable, ← isOk_checkLoopElse "While" span, ← isOk_expr env condition,
        ← isOk_block body, Bool.and_assoc]
      exact isOk_bind fun _ => isOk_bind fun _ => isOk_return
  | .return_ span none => rfl
  | .return_ span (some value) =>
      rw [stmt, Stmt.translatable, ← isOk_expr env value, optional, bind_assoc]
      exact isOk_return
  | .delete span [target] =>
      rw [stmt, Stmt.translatable, ← isOk_deleteTarget env span]
      exact isOk_return
  | .delete span [] => rfl
  | .delete span (_ :: _ :: _) => rfl
  | .pass span => rfl
  | .expr span value =>
      rw [stmt, Stmt.translatable, ← isOk_expr env value]
      exact isOk_return
  | .refused .. => rfl

theorem isOk_function (def_ : FunctionDef) :
    (function env def_).isOk = Stmt.functionTranslatable def_ := by
  match def_ with
  | .mk span name ps decorators body =>
      rw [function, Stmt.functionTranslatable, ← isOk_checkDecorators "FunctionDef",
        ← isOk_params env ps, ← isOk_block body, Bool.and_assoc]
      exact isOk_bind fun _ => isOk_bind fun _ => isOk_return

theorem isOk_classDef (def_ : ClassDef) : (classDef env def_).isOk = Stmt.classTranslatable def_ := by
  match def_ with
  | .mk span name bases decorators body =>
      rw [classDef, Stmt.classTranslatable, ← isOk_checkDecorators "ClassDef", ← isOk_checkBases bases,
        ← isOk_methods body, Bool.and_assoc]
      exact isOk_bind fun _ => isOk_bind fun _ => isOk_return

theorem isOk_methods (body : List Stmt) : (methods env body).isOk = Stmt.membersTranslatable body := by
  match body with
  | [] => rfl
  | .function def_ :: rest =>
      rw [methods, Stmt.membersTranslatable, ← isOk_function def_, ← isOk_methods rest]
      exact isOk_bind fun _ => isOk_return
  | .pass span :: rest => rw [methods, Stmt.membersTranslatable, isOk_methods rest]
  | .class_ .. :: _ | .assign .. :: _ | .augAssign .. :: _ | .if_ .. :: _ | .for_ .. :: _
  | .while_ .. :: _ | .return_ .. :: _ | .delete .. :: _ | .expr .. :: _ | .refused .. :: _ => rfl

theorem isOk_ifChain (chain : IfChain) : (ifChain env chain).isOk = Stmt.chainTranslatable chain := by
  match chain with
  | .mk span condition body orelse =>
      rw [ifChain, Stmt.chainTranslatable, ← isOk_expr env condition, ← isOk_block body,
        ← isOk_ifElse orelse, Bool.and_assoc]
      exact isOk_bind fun _ => isOk_bind fun _ => isOk_return

theorem isOk_ifElse (orelse : Else) : (ifElse env orelse).isOk = Stmt.elseTranslatable orelse := by
  match orelse with
  | .nothing => rfl
  | .elif chain => rw [ifElse, Stmt.elseTranslatable, isOk_ifChain chain]
  | .block body =>
      rw [ifElse, Stmt.elseTranslatable, ← isOk_block body]
      exact isOk_return

theorem isOk_block (body : List Stmt) : (block env body).isOk = Stmt.blockTranslatable body := by
  match body with
  | [] => rfl
  | s :: rest =>
      rw [block, Stmt.blockTranslatable, ← isOk_stmt s, ← isOk_block rest]
      exact isOk_bind fun _ => isOk_return

end

/-! ## whole sources -/

/-- The parameters of a constructor are among those of the methods. -/
theorem constructorParams_of_members {body : List Stmt} (h : Stmt.membersTranslatable body = true) :
    (constructorParams env body).isOk = true := by
  induction body with
  | nil => rfl
  | cons s rest ih =>
      match s with
      | .function (.mk span name ps decorators inner) =>
          rw [Stmt.membersTranslatable, Stmt.functionTranslatable] at h
          simp only [Bool.and_eq_true] at h
          obtain ⟨⟨⟨-, hparams⟩, -⟩, hrest⟩ := h
          rw [constructorParams]
          split
          · exact (isOk_params env ps).trans hparams
          · exact ih hrest
      | .pass span =>
          rw [Stmt.membersTranslatable] at h
          exact ih h
      | .class_ .. | .assign .. | .augAssign .. | .if_ .. | .for_ .. | .while_ .. | .return_ ..
      | .delete .. | .expr .. | .refused .. => cases h

/-- What an item looks at beside the statement that it is does not fail by itself. -/
theorem isOk_item (s : Stmt) : (item env s).isOk = (s.isDefinition && s.translatable) := by
  match s with
  | .function (.mk span name ps decorators body) =>
      rw [item, Stmt.isDefinition, Bool.true_and, ← isOk_stmt env]
      refine (isOk_bind fun _ => isOk_return).trans ?_
      rw [isOk_stmt, Stmt.translatable, Stmt.functionTranslatable, FunctionDef.params, isOk_params]
      cases Param.allRequired ps <;> simp
  | .class_ (.mk span name bases decorators body) =>
      rw [item, Stmt.isDefinition, Bool.true_and, ← isOk_stmt env]
      refine (isOk_bind fun _ => isOk_return).trans ?_
      rw [isOk_stmt, Stmt.translatable, Stmt.classTranslatable, ClassDef.body]
      cases hbody : Stmt.membersTranslatable body with
      | true => rw [constructorParams_of_members env hbody, Bool.true_and]
      | false => simp
  | .assign .. | .augAssign .. | .if_ .. | .for_ .. | .while_ .. | .return_ .. | .delete .. | .pass ..
  | .expr .. | .refused .. => rfl

theorem isOk_items (body : List Stmt) :
    (items env body).isOk = body.all fun s => s.isDefinition && s.translatable := by
  induction body with
  | nil => rfl
  | cons s rest ih =>
      rw [items, List.all_cons, ← isOk_item env s, ← ih]
      exact isOk_bind fun _ => isOk_return

end Lower

/-- A source whose scopes are in order is compiled just when each of its nodes is one that is translated. -/
theorem translates_iff_translatable {m : Module} {table : Replacements} {ds : Scope.Declarations}
    (h : Scope.analyze m table = .ok ds) :
    (∃ compiled, translate m table = .ok compiled) ↔ m.translatable = true := by
  have hlowered : (Lower.module_ m table).isOk = m.translatable := by
    rw [Lower.module_, h]
    exact Lower.isOk_items _ m.body
  rw [← hlowered, translate, Lower.isOk_iff]
  constructor
  · rintro ⟨compiled, hcompiled⟩
    cases hmodule : Lower.module_ m table with
    | ok items => exact ⟨items, rfl⟩
    | error r =>
        rw [hmodule] at hcompiled
        cases hcompiled
  · rintro ⟨items, hitems⟩
    rw [hitems]
    exact ⟨_, rfl⟩

/-- A function that hands a function with a comparison inside a list to a call. -/
def Sample.comparing (op : CompareOp) : Module :=
  let at_ (col : Nat) : Span := .ofNumbers 2 col 2 col
  let test : Expr := .compare (at_ 20) (.name (at_ 20) "x") [(op, .int (at_ 25) 1)]
  let key : Expr := .lambda (at_ 15) [.mk ⟨"x", at_ 15⟩ none (at_ 15)] (.list (at_ 19) [test])
  let call : Expr := .call (at_ 10) (.name (at_ 10) "run") [.starred (.name (at_ 12) "xs"), .positional key]
  ⟨[.function (.mk (at_ 1) ⟨"f", at_ 1⟩ [.mk ⟨"xs", at_ 3⟩ none (at_ 3)] [] [.return_ (at_ 8) call])], at_ 1⟩

/-- Equality is translated at any depth, membership is refused at any depth. -/
theorem comparing_translates :
    (∃ compiled, translate (Sample.comparing .eq) .default = .ok compiled) ∧
      ¬ ∃ compiled, translate (Sample.comparing .isIn) .default = .ok compiled := by
  have hscopes (op : CompareOp) : Scope.analyze (Sample.comparing op) .default = .ok .empty := rfl
  refine ⟨(translates_iff_translatable (hscopes .eq)).2 rfl, fun h => ?_⟩
  exact Bool.false_ne_true ((translates_iff_translatable (hscopes .isIn)).1 h)

end ViewSync
