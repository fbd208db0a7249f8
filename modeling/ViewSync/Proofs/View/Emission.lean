import ViewSync.Proofs.View.Outline
import ViewSync.View.Lower

/-!
# ViewSync.Proofs.View.Emission

The outline of a script is that of its source, scope for scope and place for place (`outline_items`). Only what
stands at a place changes: names go through the replacement table, and a target is written with the declaring
word when it is marked.

* `Script.outlineBlock` — what binds names in a script, and in which scope;
* `Lower.emitted` — what becomes of a binder;
* `Lower.call_ok`, `Lower.for_ok` and so on — for each construct, what its parts are lowered to when it is lowered;
* `outline_items` — a source that is lowered keeps its outline.
-/

namespace ViewSync

namespace Script

/-! ## the outline of a script -/

/-- The names that a loop binds. -/
def Binding.names : Binding → List String
  | .single name => [name]
  | .several names => names

mutual

/-- The outline of a statement in front of the rest of its block. Targets are marked with whether they are
written with the declaring word. A loop with its head is a block, and so is every branch. -/
def outlineStmt : Stmt → Outline (Binder Bool) → Outline (Binder Bool)
  | .function signature body, rest =>
    .here (.definition signature.name)
      (.scope (.here (.parameters signature.params) (outlineBlock body)) rest)
  | .class_ name methods, rest => .here (.definition name) (.scope (outlineMethods methods) rest)
  | .assign declared target _, rest =>
    match target with
    | .name text => .here (.target declared [text]) rest
    | _ => rest
  | .ifChain branches orelse, rest => outlineBranches branches (outlineElse orelse rest)
  | .for_ declared binding _ _ body, rest =>
    .scope (.here (.target declared binding.names) (outlineBlock body)) rest
  | .while_ _ body, rest => .scope (outlineBlock body) rest
  | .addAssign .., rest => rest
  | .return_ _, rest => rest
  | .delete _, rest => rest
  | .pass, rest => rest
  | .expr _, rest => rest

/-- The methods of a class. -/
def outlineMethods : List (Signature × List Stmt) → Outline (Binder Bool)
  | [] => .done
  | (signature, body) :: rest =>
    .here (.method signature.name)
      (.scope (.here (.parameters signature.params) (outlineBlock body)) (outlineMethods rest))

/-- The branches of an `if`. -/
def outlineBranches : List (Expr × List Stmt) → Outline (Binder Bool) → Outline (Binder Bool)
  | [], rest => rest
  | (_, body) :: more, rest => .scope (outlineBlock body) (outlineBranches more rest)

/-- The last branch of an `if`. -/
def outlineElse : Option (List Stmt) → Outline (Binder Bool) → Outline (Binder Bool)
  | none, rest => rest
  | some body, rest => .scope (outlineBlock body) rest

/-- The statements of a block. -/
def outlineBlock : List Stmt → Outline (Binder Bool)
  | [] => .done
  | stmt :: rest => outlineStmt stmt (outlineBlock rest)

end

/-- What binds names in a script, in the order of the text. -/
def bindings (script : List Stmt) : List (Place (Binder Bool)) :=
  (outlineBlock script).places [] 0

end Script

namespace Lower

variable {env : Env}

/-! ## what becomes of a binder -/

/-- The binder in the script that stands for one in the source. -/
def emitted (env : Env) : Binder Span → Binder Bool
  | .definition name => .definition name
  | .method name => .method name
  | .parameters names => .parameters (names.map env.table.identifier)
  | .target span names => .target (env.declared.contains span) (names.map env.table.identifier)

/-- The places in the script that stand for places in the source. -/
def emittedPlaces (env : Env) (ps : List (Place (Binder Span))) : List (Place (Binder Bool)) :=
  ps.map fun p => ⟨p.scope, emitted env p.item⟩

theorem bind_eq_ok {ε α β : Type} {x : Except ε α} {f : α → Except ε β} {b : β}
    (h : x >>= f = .ok b) : ∃ a, x = .ok a ∧ f a = .ok b := by
  cases x with
  | error e => cases h
  | ok a => exact ⟨a, rfl, h⟩

theorem params_ok {ps : List Param} {names : List String} (h : params env ps = .ok names) :
    names = ps.map fun p => env.table.identifier p.name.name := by
  induction ps generalizing names with
  | nil =>
      cases h
      rfl
  | cons p ps ih =>
      rw [params] at h
      split at h
      · cases h
      · obtain ⟨rest, hrest, h⟩ := bind_eq_ok h
        cases h
        rw [ih hrest, List.map_cons]

theorem loopNames_ok {items : List Expr} {names : List String} (h : loopNames env items = .ok names) :
    (items.filterMap Expr.asName?).length = items.length ∧
      names = (items.filterMap Expr.asName?).map env.table.identifier := by
  induction items generalizing names with
  | nil =>
      cases h
      exact ⟨rfl, rfl⟩
  | cons e items ih =>
      cases e with
      | name span id =>
          rw [loopNames] at h
          obtain ⟨rest, hrest, h⟩ := bind_eq_ok h
          cases h
          obtain ⟨hlength, rfl⟩ := ih hrest
          simp [Expr.asName?, hlength]
      | _ => cases h

/-- A loop that is lowered has no `else`. -/
theorem checkLoopElse_ok {node : String} {span : Span} {orelse : Option Block}
    (h : checkLoopElse node span orelse = .ok ()) : orelse = none := by
  cases orelse with
  | none => rfl
  | some body => cases h

/-!
## what the parts are lowered to

Each construct is lowered by one chain of binds, which `bind_eq_ok` takes apart as the definition unfolds to it.
-/

section

variable {span : Span}

theorem list_ok {items : List Expr} {s : Script.Expr} (h : expr env (.list span items) = .ok s) :
    ∃ scripts, exprs env items = .ok scripts ∧ s = .list scripts := by
  obtain ⟨scripts, hitems, h⟩ := bind_eq_ok h
  cases h
  exact ⟨scripts, hitems, rfl⟩

theorem dict_ok {items : List (Expr × Expr)} {s : Script.Expr} (h : expr env (.dict span items) = .ok s) :
    ∃ scripts, entries env items = .ok scripts ∧ s = .dict scripts := by
  obtain ⟨scripts, hitems, h⟩ := bind_eq_ok h
  cases h
  exact ⟨scripts, hitems, rfl⟩

theorem attribute_ok {value : Expr} {attr : Ident} {s : Script.Expr}
    (h : expr env (.attribute span value attr) = .ok s) :
    ∃ v, expr env value = .ok v ∧ s = .attribute v attr.name := by
  obtain ⟨v, hvalue, h⟩ := bind_eq_ok h
  cases h
  exact ⟨v, hvalue, rfl⟩

theorem subscript_ok {value index : Expr} {s : Script.Expr} (h : expr env (.subscript span value index) = .ok s) :
    ∃ v i, expr env value = .ok v ∧ expr env index = .ok i ∧ s = .subscript v i := by
  obtain ⟨v, hvalue, h⟩ := bind_eq_ok h
  obtain ⟨i, hindex, h⟩ := bind_eq_ok h
  cases h
  exact ⟨v, i, hvalue, hindex, rfl⟩

theorem call_ok {callee : Expr} {items : List Arg} {s : Script.Expr} (h : expr env (.call span callee items) = .ok s) :
    ∃ target scripts, expr env callee = .ok target ∧ args env items = .ok scripts ∧
      s = if constructs callee then .construct target scripts else .call target scripts := by
  obtain ⟨target, hcallee, h⟩ := bind_eq_ok h
  obtain ⟨scripts, hitems, h⟩ := bind_eq_ok h
  cases h
  exact ⟨target, scripts, hcallee, hitems, rfl⟩

/-- A binary operation is lowered if its operator is one of scripts. -/
theorem binary_ok {left right : Expr} {op : BinaryOp} {s : Script.Expr}
    (h : expr env (.binary span left op right) = .ok s) :
    ∃ l r symbol, expr env left = .ok l ∧ expr env right = .ok r ∧ Script.BinaryOp.ofSource? op = some symbol ∧
      s = .binary l symbol r := by
  rw [expr] at h
  obtain ⟨l, hleft, h⟩ := bind_eq_ok h
  obtain ⟨r, hright, h⟩ := bind_eq_ok h
  cases hop : Script.BinaryOp.ofSource? op with
  | none =>
      rw [hop] at h
      cases h
  | some symbol =>
      rw [hop] at h
      cases h
      exact ⟨l, r, symbol, hleft, hright, rfl, rfl⟩

theorem unary_ok {op : UnaryOp} {operand : Expr} {s : Script.Expr} (h : expr env (.unary span op operand) = .ok s) :
    ∃ o, expr env operand = .ok o ∧ s = .unary op o := by
  obtain ⟨o, hoperand, h⟩ := bind_eq_ok h
  cases h
  exact ⟨o, hoperand, rfl⟩

/-- A comparison is lowered if there is just one and its operator is one of scripts. -/
theorem compare_ok {left : Expr} {rest : List (CompareOp × Expr)} {s : Script.Expr}
    (h : expr env (.compare span left rest) = .ok s) :
    ∃ op right l r symbol, rest = [(op, right)] ∧ expr env left = .ok l ∧ expr env right = .ok r ∧
      Script.CompareOp.ofSource? op = some symbol ∧ s = .compare l symbol r := by
  match rest with
  | [] => cases h
  | _ :: _ :: _ => cases h
  | [(op, right)] =>
      rw [expr] at h
      obtain ⟨l, hleft, h⟩ := bind_eq_ok h
      obtain ⟨r, hright, h⟩ := bind_eq_ok h
      cases hop : Script.CompareOp.ofSource? op with
      | none =>
          rw [hop] at h
          cases h
      | some symbol =>
          rw [hop] at h
          cases h
          exact ⟨op, right, l, r, symbol, rfl, hleft, hright, hop, rfl⟩

theorem ternary_ok {test body orelse : Expr} {s : Script.Expr}
    (h : expr env (.ternary span test body orelse) = .ok s) :
    ∃ t b o, expr env test = .ok t ∧ expr env body = .ok b ∧ expr env orelse = .ok o ∧ s = .ternary t b o := by
  obtain ⟨t, htest, h⟩ := bind_eq_ok h
  obtain ⟨b, hbody, h⟩ := bind_eq_ok h
  obtain ⟨o, horelse, h⟩ := bind_eq_ok h
  cases h
  exact ⟨t, b, o, htest, hbody, horelse, rfl⟩

theorem lambda_ok {ps : List Param} {body : Expr} {s : Script.Expr} (h : expr env (.lambda span ps body) = .ok s) :
    ∃ names b, params env ps = .ok names ∧ expr env body = .ok b ∧ s = .lambda names b := by
  obtain ⟨names, hnames, h⟩ := bind_eq_ok h
  obtain ⟨b, hbody, h⟩ := bind_eq_ok h
  cases h
  exact ⟨names, b, hnames, hbody, rfl⟩

theorem exprs_cons_ok {e : Expr} {rest : List Expr} {scripts : List Script.Expr}
    (h : exprs env (e :: rest) = .ok scripts) :
    ∃ first others, expr env e = .ok first ∧ exprs env rest = .ok others ∧ scripts = first :: others := by
  obtain ⟨first, he, h⟩ := bind_eq_ok h
  obtain ⟨others, hrest, h⟩ := bind_eq_ok h
  cases h
  exact ⟨first, others, he, hrest, rfl⟩

theorem entries_cons_ok {key value : Expr} {rest : List (Expr × Expr)} {scripts : List (Script.Expr × Script.Expr)}
    (h : entries env ((key, value) :: rest) = .ok scripts) :
    ∃ k v others, expr env key = .ok k ∧ expr env value = .ok v ∧ entries env rest = .ok others ∧
      scripts = (k, v) :: others := by
  obtain ⟨-, -, h⟩ := bind_eq_ok h
  obtain ⟨k, hkey, h⟩ := bind_eq_ok h
  obtain ⟨v, hvalue, h⟩ := bind_eq_ok h
  obtain ⟨others, hrest, h⟩ := bind_eq_ok h
  cases h
  exact ⟨k, v, others, hkey, hvalue, hrest, rfl⟩

theorem args_positional_ok {value : Expr} {rest : List Arg} {scripts : List Script.Expr}
    (h : args env (.positional value :: rest) = .ok scripts) :
    ∃ first others, expr env value = .ok first ∧ args env rest = .ok others ∧ scripts = first :: others := by
  obtain ⟨first, hvalue, h⟩ := bind_eq_ok h
  obtain ⟨others, hrest, h⟩ := bind_eq_ok h
  cases h
  exact ⟨first, others, hvalue, hrest, rfl⟩

theorem args_starred_ok {value : Expr} {rest : List Arg} {scripts : List Script.Expr}
    (h : args env (.starred value :: rest) = .ok scripts) :
    ∃ first others, expr env value = .ok first ∧ args env rest = .ok others ∧
      scripts = .spread first :: others := by
  obtain ⟨spread, hspread, h⟩ := bind_eq_ok h
  obtain ⟨first, hvalue, hfirst⟩ := bind_eq_ok hspread
  obtain ⟨others, hrest, h⟩ := bind_eq_ok h
  cases hfirst
  cases h
  exact ⟨first, others, hvalue, hrest, rfl⟩

theorem function_ok {def_ : FunctionDef} {script : Script.Stmt} (h : stmt env (.function def_) = .ok script) :
    ∃ signature body, function env def_ = .ok (signature, body) ∧ script = .function signature body := by
  obtain ⟨⟨signature, body⟩, hfunction, h⟩ := bind_eq_ok h
  cases h
  exact ⟨signature, body, hfunction, rfl⟩

theorem assign_ok {targets : List Expr} {value : Expr} {script : Script.Stmt}
    (h : stmt env (.assign span targets value) = .ok script) :
    ∃ declared target result, assignTarget env span targets = .ok (declared, target) ∧
      expr env value = .ok result ∧ script = .assign declared target result := by
  obtain ⟨⟨declared, target⟩, htarget, h⟩ := bind_eq_ok h
  obtain ⟨result, hvalue, h⟩ := bind_eq_ok h
  cases h
  exact ⟨declared, target, result, htarget, hvalue, rfl⟩

/-- Of the augmented assignments only `+=` is lowered. -/
theorem augAssign_ok {target value : Expr} {op : BinaryOp} {script : Script.Stmt}
    (h : stmt env (.augAssign span target op value) = .ok script) :
    ∃ place result, store env target = .ok place ∧ expr env value = .ok result ∧ script = .addAssign place result := by
  rw [stmt] at h
  split at h
  · obtain ⟨place, htarget, h⟩ := bind_eq_ok h
    obtain ⟨result, hvalue, h⟩ := bind_eq_ok h
    cases h
    exact ⟨place, result, htarget, hvalue, rfl⟩
  · cases h

theorem if_ok {chain : IfChain} {script : Script.Stmt} (h : stmt env (.if_ chain) = .ok script) :
    ∃ branches orelse, ifChain env chain = .ok (branches, orelse) ∧ script = .ifChain branches orelse := by
  obtain ⟨⟨branches, orelse⟩, hchain, h⟩ := bind_eq_ok h
  cases h
  exact ⟨branches, orelse, hchain, rfl⟩

theorem for_ok {target source : Expr} {body : Block} {orelse : Option Block} {script : Script.Stmt}
    (h : stmt env (.for_ span target source body orelse) = .ok script) :
    ∃ bound scripts items object, orelse = none ∧ binding env target = .ok bound ∧ block env body = .ok scripts ∧
      iteration env bound source = .ok (items, object) ∧
      script = .for_ (env.declared.contains target.span) bound items object scripts := by
  obtain ⟨⟨⟩, helse, h⟩ := bind_eq_ok h
  obtain ⟨bound, hbound, h⟩ := bind_eq_ok h
  obtain ⟨scripts, hbody, h⟩ := bind_eq_ok h
  obtain ⟨⟨items, object⟩, hiteration, h⟩ := bind_eq_ok h
  cases h
  exact ⟨bound, scripts, items, object, checkLoopElse_ok helse, hbound, hbody, hiteration, rfl⟩

theorem while_ok {condition : Expr} {body : Block} {orelse : Option Block} {script : Script.Stmt}
    (h : stmt env (.while_ span condition body orelse) = .ok script) :
    ∃ test scripts, orelse = none ∧ expr env condition = .ok test ∧ block env body = .ok scripts ∧
      script = .while_ test scripts := by
  obtain ⟨⟨⟩, helse, h⟩ := bind_eq_ok h
  obtain ⟨test, hcondition, h⟩ := bind_eq_ok h
  obtain ⟨scripts, hbody, h⟩ := bind_eq_ok h
  cases h
  exact ⟨test, scripts, checkLoopElse_ok helse, hcondition, hbody, rfl⟩

theorem return_ok {value : Option Expr} {script : Script.Stmt} (h : stmt env (.return_ span value) = .ok script) :
    ∃ result, optional env value = .ok result ∧ script = .return_ result := by
  obtain ⟨result, hvalue, h⟩ := bind_eq_ok h
  cases h
  exact ⟨result, hvalue, rfl⟩

theorem delete_ok {targets : List Expr} {script : Script.Stmt} (h : stmt env (.delete span targets) = .ok script) :
    ∃ target, deleteTarget env span targets = .ok target ∧ script = .delete target := by
  obtain ⟨target, htarget, h⟩ := bind_eq_ok h
  cases h
  exact ⟨target, htarget, rfl⟩

theorem expr_ok {value : Expr} {script : Script.Stmt} (h : stmt env (.expr span value) = .ok script) :
    ∃ result, expr env value = .ok result ∧ script = .expr result := by
  obtain ⟨result, hvalue, h⟩ := bind_eq_ok h
  cases h
  exact ⟨result, hvalue, rfl⟩

/-- A function is lowered if it has no decorators. -/
theorem functionDef_ok {name : Ident} {ps : List Param} {decorators : List Expr} {body : Block}
    {signature : Script.Signature} {scripts : List Script.Stmt}
    (h : function env (.mk span name ps decorators body) = .ok (signature, scripts)) :
    ∃ names, checkDecorators "FunctionDef" decorators = .ok () ∧ params env ps = .ok names ∧
      block env body = .ok scripts ∧ signature = ⟨name.name, names⟩ := by
  obtain ⟨⟨⟩, hdecorators, h⟩ := bind_eq_ok h
  obtain ⟨names, hnames, h⟩ := bind_eq_ok h
  obtain ⟨scripts, hbody, h⟩ := bind_eq_ok h
  cases h
  exact ⟨names, hdecorators, hnames, hbody, rfl⟩

/-- A class is lowered if it has neither decorators nor bases. -/
theorem classDef_ok {name : Ident} {bases decorators : List Expr} {body : Block} {script : Script.Stmt}
    (h : classDef env (.mk span name bases decorators body) = .ok script) :
    ∃ scripts, checkDecorators "ClassDef" decorators = .ok () ∧ checkBases bases = .ok () ∧
      methods env body = .ok scripts ∧ script = .class_ name.name scripts := by
  obtain ⟨⟨⟩, hdecorators, h⟩ := bind_eq_ok h
  obtain ⟨⟨⟩, hbases, h⟩ := bind_eq_ok h
  obtain ⟨scripts, hmethods, h⟩ := bind_eq_ok h
  cases h
  exact ⟨scripts, hdecorators, hbases, hmethods, rfl⟩

theorem methods_cons_ok {def_ : FunctionDef} {rest : List Stmt}
    {scripts : List (Script.Signature × List Script.Stmt)}
    (h : methods env (.function def_ :: rest) = .ok scripts) :
    ∃ signature body others, function env def_ = .ok (signature, body) ∧ methods env rest = .ok others ∧
      scripts = (signature, body) :: others := by
  obtain ⟨⟨signature, body⟩, hfunction, h⟩ := bind_eq_ok h
  obtain ⟨others, hothers, h⟩ := bind_eq_ok h
  cases h
  exact ⟨signature, body, others, hfunction, hothers, rfl⟩

theorem ifChain_ok {condition : Expr} {body : Block} {orelse : Else}
    {branches : List (Script.Expr × List Script.Stmt)} {last : Option (List Script.Stmt)}
    (h : ifChain env (.mk span condition body orelse) = .ok (branches, last)) :
    ∃ test scripts more, expr env condition = .ok test ∧ block env body = .ok scripts ∧
      ifElse env orelse = .ok (more, last) ∧ branches = (test, scripts) :: more := by
  obtain ⟨test, hcondition, h⟩ := bind_eq_ok h
  obtain ⟨scripts, hbody, h⟩ := bind_eq_ok h
  obtain ⟨⟨more, last⟩, helse, h⟩ := bind_eq_ok h
  cases h
  exact ⟨test, scripts, more, hcondition, hbody, helse, rfl⟩

theorem elseBlock_ok {body : Block} {branches : List (Script.Expr × List Script.Stmt)}
    {last : Option (List Script.Stmt)} (h : ifElse env (.block body) = .ok (branches, last)) :
    ∃ scripts, block env body = .ok scripts ∧ branches = [] ∧ last = some scripts := by
  obtain ⟨scripts, hbody, h⟩ := bind_eq_ok h
  cases h
  exact ⟨scripts, hbody, rfl, rfl⟩

theorem block_cons_ok {source : Stmt} {rest : List Stmt} {scripts : List Script.Stmt}
    (h : block env (source :: rest) = .ok scripts) :
    ∃ first others, stmt env source = .ok first ∧ block env rest = .ok others ∧ scripts = first :: others := by
  obtain ⟨first, hfirst, h⟩ := bind_eq_ok h
  obtain ⟨others, hothers, h⟩ := bind_eq_ok h
  cases h
  exact ⟨first, others, hfirst, hothers, rfl⟩

theorem items_cons_ok {source : Stmt} {rest : List Stmt} {lowered : List Item}
    (h : items env (source :: rest) = .ok lowered) :
    ∃ first others, item env source = .ok first ∧ items env rest = .ok others ∧ lowered = first :: others := by
  obtain ⟨first, hfirst, h⟩ := bind_eq_ok h
  obtain ⟨others, hothers, h⟩ := bind_eq_ok h
  cases h
  exact ⟨first, others, hfirst, hothers, rfl⟩

end

/-! ## statements -/

/-- What is written to is a name, or nothing that binds one. -/
theorem outline_store {source : Expr} {target : Script.Expr} (h : store env source = .ok target)
    (value : Script.Expr) (rest : Outline (Binder Span)) :
    Script.outlineStmt (.assign (env.declared.contains source.span) target value) (rest.map (emitted env)) =
      (Scope.outlineTarget source rest).map (emitted env) := by
  match source, h with
  | .name span id, h =>
    rw [store, expr] at h
    cases h
    rfl
  | .attribute span object attr, h =>
    rw [store] at h
    obtain ⟨object, -, rfl⟩ := attribute_ok h
    rfl
  | .subscript span object index, h =>
    rw [store] at h
    obtain ⟨object, index, -, -, rfl⟩ := subscript_ok h
    rfl

/-- The target of an assignment that is lowered. -/
theorem outline_assign {span : Span} {targets : List Expr} {declared : Bool} {target : Script.Expr}
    (h : assignTarget env span targets = .ok (declared, target)) (value : Script.Expr)
    (rest : Outline (Binder Span)) :
    Script.outlineStmt (.assign declared target value) (rest.map (emitted env)) =
      (targets.foldr Scope.outlineTarget rest).map (emitted env) := by
  match targets, h with
  | [source], h =>
    obtain ⟨lowered, hstore, h⟩ := bind_eq_ok h
    cases h
    exact outline_store hstore value rest

/-- The target of a loop that is lowered. -/
theorem outline_binding {target : Expr} {binding : Script.Binding} (h : Lower.binding env target = .ok binding)
    (rest : Outline (Binder Span)) :
    .here (.target (env.declared.contains target.span) binding.names) (rest.map (emitted env)) =
      (Scope.outlineLoopTarget target rest).map (emitted env) := by
  cases target with
  | name span id =>
      cases h
      rfl
  | tuple span items =>
      rw [Lower.binding] at h
      obtain ⟨names, hnames, h⟩ := bind_eq_ok h
      cases h
      obtain ⟨hlength, rfl⟩ := loopNames_ok hnames
      simp only [Scope.outlineLoopTarget, if_pos hlength]
      rfl
  | _ => cases h

mutual

/-- A statement that is lowered keeps its outline. -/
theorem outline_stmt {source : Stmt} {script : Script.Stmt} (h : stmt env source = .ok script)
    (rest : Outline (Binder Span)) :
    Script.outlineStmt script (rest.map (emitted env)) =
      (Scope.outlineStmt source rest).map (emitted env) := by
  cases source with
  | function def_ =>
      obtain ⟨signature, body, hfunction, rfl⟩ := function_ok h
      exact outline_function hfunction .definition (fun _ => rfl) rest
  | class_ def_ =>
      rw [stmt] at h
      exact outline_class h rest
  | assign span targets value =>
      obtain ⟨declared, target, result, htarget, -, rfl⟩ := assign_ok h
      exact outline_assign htarget result rest
  | augAssign span target op value =>
      obtain ⟨place, result, -, -, rfl⟩ := augAssign_ok h
      rfl
  | if_ chain =>
      obtain ⟨branches, orelse, hchain, rfl⟩ := if_ok h
      exact outline_chain hchain rest
  | for_ span target source body orelse =>
      obtain ⟨bound, scripts, items, object, rfl, hbound, hbody, -, rfl⟩ := for_ok h
      rw [Script.outlineStmt, Scope.outlineStmt, Scope.outlineOptional, Outline.map, outline_block hbody,
        outline_binding hbound]
  | while_ span condition body orelse =>
      obtain ⟨test, scripts, rfl, -, hbody, rfl⟩ := while_ok h
      rw [Script.outlineStmt, Scope.outlineStmt, Scope.outlineOptional, Outline.map, outline_block hbody]
  | return_ span value =>
      obtain ⟨result, -, rfl⟩ := return_ok h
      rfl
  | delete span targets =>
      obtain ⟨target, -, rfl⟩ := delete_ok h
      rfl
  | pass span =>
      cases h
      rfl
  | expr span value =>
      obtain ⟨result, -, rfl⟩ := expr_ok h
      rfl
  | refused span stmt => cases h

/-- A function that is lowered keeps its outline, whatever its name stands for. -/
theorem outline_function {def_ : FunctionDef} {signature : Script.Signature} {body : List Script.Stmt}
    (h : function env def_ = .ok (signature, body)) (bind : {τ : Type} → String → Binder τ)
    (hbind : ∀ x, emitted env (bind x) = bind x) (rest : Outline (Binder Span)) :
    .here (bind signature.name)
        (.scope (.here (.parameters signature.params) (Script.outlineBlock body))
          (rest.map (emitted env))) =
      (Scope.outlineFunction bind def_ rest).map (emitted env) := by
  cases def_ with
  | mk span name ps decorators source =>
      obtain ⟨names, -, hnames, hbody, rfl⟩ := functionDef_ok h
      rw [Scope.outlineFunction, Outline.map, Outline.map, Outline.map, hbind, emitted, List.map_map,
        outline_block hbody, params_ok hnames]
      rfl

theorem outline_class {def_ : ClassDef} {script : Script.Stmt} (h : classDef env def_ = .ok script)
    (rest : Outline (Binder Span)) :
    Script.outlineStmt script (rest.map (emitted env)) =
      (Scope.outlineClass def_ rest).map (emitted env) := by
  cases def_ with
  | mk span name bases decorators body =>
      obtain ⟨scripts, -, -, hmethods, rfl⟩ := classDef_ok h
      rw [Script.outlineStmt, Scope.outlineClass, Outline.map, Outline.map, outline_methods hmethods]
      rfl

theorem outline_methods {body : List Stmt} {script : List (Script.Signature × List Script.Stmt)}
    (h : methods env body = .ok script) :
    Script.outlineMethods script = (Scope.outlineMembers body).map (emitted env) := by
  cases body with
  | nil =>
      cases h
      rfl
  | cons stmt body =>
      cases stmt with
      | function def_ =>
          obtain ⟨signature, inner, others, hfunction, hothers, rfl⟩ := methods_cons_ok h
          rw [Script.outlineMethods, Scope.outlineMembers, outline_methods hothers]
          exact outline_function hfunction .method (fun _ => rfl) _
      | pass span =>
          rw [methods] at h
          have hrest := outline_methods h
          exact hrest
      | _ => cases h

/-- The branches of an `if` keep their outlines. -/
theorem outline_chain {chain : IfChain}
    {branches : List (Script.Expr × List Script.Stmt)} {orelse : Option (List Script.Stmt)}
    (h : ifChain env chain = .ok (branches, orelse)) (rest : Outline (Binder Span)) :
    Script.outlineBranches branches (Script.outlineElse orelse (rest.map (emitted env))) =
      (Scope.outlineChain chain rest).map (emitted env) := by
  cases chain with
  | mk span condition body orelse =>
      obtain ⟨test, scripts, more, -, hbody, helse, rfl⟩ := ifChain_ok h
      rw [Script.outlineBranches, Scope.outlineChain, Outline.map, outline_block hbody, outline_else helse]

theorem outline_else {source : Else}
    {branches : List (Script.Expr × List Script.Stmt)} {orelse : Option (List Script.Stmt)}
    (h : ifElse env source = .ok (branches, orelse)) (rest : Outline (Binder Span)) :
    Script.outlineBranches branches (Script.outlineElse orelse (rest.map (emitted env))) =
      (Scope.outlineElse source rest).map (emitted env) := by
  cases source with
  | nothing =>
      cases h
      rfl
  | elif chain =>
      rw [ifElse] at h
      exact outline_chain h rest
  | block body =>
      obtain ⟨scripts, hbody, rfl, rfl⟩ := elseBlock_ok h
      rw [Script.outlineBranches, Script.outlineElse, Scope.outlineElse, Outline.map, outline_block hbody]

/-- A block that is lowered keeps its outline. -/
theorem outline_block {body : List Stmt} {script : List Script.Stmt} (h : block env body = .ok script) :
    Script.outlineBlock script = (Scope.outlineBlock body).map (emitted env) := by
  cases body with
  | nil =>
      cases h
      rfl
  | cons source body =>
      obtain ⟨first, others, hfirst, hothers, rfl⟩ := block_cons_ok h
      rw [Script.outlineBlock, Scope.outlineBlock, outline_block hothers, outline_stmt hfirst]

end

/-! ## whole sources -/

/-- An item is lowered as the statement that it is. -/
theorem stmt_of_item {source : Stmt} {i : Item} (h : item env source = .ok i) :
    stmt env source = .ok i.script := by
  cases source with
  | function def_ | class_ def_ =>
      rw [item] at h
      obtain ⟨names, -, h⟩ := bind_eq_ok h
      obtain ⟨script, hscript, h⟩ := bind_eq_ok h
      cases h
      exact hscript
  | _ => cases h

/-- Top-level items that are lowered keep their outlines. -/
theorem outline_items {body : List Stmt} {lowered : List Item} (h : items env body = .ok lowered) :
    Script.outlineBlock (lowered.map (·.script)) = (Scope.outlineBlock body).map (emitted env) := by
  induction body generalizing lowered with
  | nil =>
      cases h
      rfl
  | cons source body ih =>
      obtain ⟨first, others, hfirst, hothers, rfl⟩ := items_cons_ok h
      rw [List.map_cons, Script.outlineBlock, Scope.outlineBlock, ih hothers,
        outline_stmt (stmt_of_item hfirst)]

/-- The bindings of the script stand where those of the source do. -/
theorem bindings_of_module {m : Module} {table : Replacements} {lowered : List Item}
    (h : module_ m table = .ok lowered) :
    ∃ ds, Scope.analyze m table = .ok ds ∧
      Script.bindings (lowered.map (·.script)) = emittedPlaces ⟨table, ds⟩ (Scope.bindings m) := by
  obtain ⟨ds, hds, h⟩ := bind_eq_ok h
  refine ⟨ds, hds, ?_⟩
  rw [Script.bindings, outline_items h, Outline.places_map]
  rfl

end Lower

end ViewSync
