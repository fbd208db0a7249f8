import ViewSync.Proofs.Json.RoundTrip
import ViewSync.Proofs.Parser.Names
import ViewSync.Proofs.Script.Literals
import ViewSync.Proofs.View.Emission

/-!
# ViewSync.Proofs.View.Literals

The string literals of compiled views. A literal has no control characters, so it stands on one line whatever the string
is, and so does every expression of a source. Blocks then only put tabs in front of whole lines, and each literal of
the source reaches the output as it is (`literals_of_parse`).
-/

namespace ViewSync

/-! ## the literals of a source -/

mutual

/-- The strings of an expression, in the order of the text. -/
def Expr.literals : Expr → List String
  | .str _ text => [text]
  | .list _ items => Expr.allLiterals items
  | .tuple _ items => Expr.allLiterals items
  | .dict _ entries => Expr.entryLiterals entries
  | .attribute _ value _ => value.literals
  | .subscript _ value index => value.literals ++ index.literals
  | .slice _ lower upper step => Expr.boundLiterals lower ++ Expr.boundLiterals upper ++ Expr.boundLiterals step
  | .call _ callee args => callee.literals ++ Expr.argLiterals args
  | .binary _ left _ right => left.literals ++ right.literals
  | .unary _ _ operand => operand.literals
  | .compare _ left rest => left.literals ++ Expr.operandLiterals rest
  | .ternary _ test body orelse => body.literals ++ test.literals ++ orelse.literals
  | .lambda _ ps body => Expr.paramLiterals ps ++ body.literals
  | .comprehension _ element target source conditions =>
    element.literals ++ target.literals ++ source.literals ++ Expr.allLiterals conditions
  | .yield _ value => Expr.boundLiterals value
  | .int .. => []
  | .float .. => []
  | .bool .. => []
  | .none _ => []
  | .name .. => []

/-- The strings of several expressions. -/
def Expr.allLiterals : List Expr → List String
  | [] => []
  | e :: rest => e.literals ++ Expr.allLiterals rest

/-- The strings of the entries of a dict. -/
def Expr.entryLiterals : List (Expr × Expr) → List String
  | [] => []
  | (key, value) :: rest => key.literals ++ value.literals ++ Expr.entryLiterals rest

/-- The strings of the arguments of a call. -/
def Expr.argLiterals : List Arg → List String
  | [] => []
  | .positional value :: rest => value.literals ++ Expr.argLiterals rest
  | .starred value :: rest => value.literals ++ Expr.argLiterals rest
  | .keyword _ value :: rest => value.literals ++ Expr.argLiterals rest
  | .doubleStarred value :: rest => value.literals ++ Expr.argLiterals rest

/-- The strings of the operands of a chain of comparisons. -/
def Expr.operandLiterals : List (CompareOp × Expr) → List String
  | [] => []
  | (_, e) :: rest => e.literals ++ Expr.operandLiterals rest

/-- The strings of the default values of parameters. -/
def Expr.paramLiterals : List Param → List String
  | [] => []
  | .mk _ default _ :: rest => Expr.boundLiterals default ++ Expr.paramLiterals rest

/-- The strings of an expression that may be left out. -/
def Expr.boundLiterals : Option Expr → List String
  | Option.none => []
  | some e => e.literals

end

mutual

/-- The strings of a statement. -/
def Stmt.literals : Stmt → List String
  | .function def_ => def_.literals
  | .class_ def_ => def_.literals
  | .assign _ targets value => Expr.allLiterals targets ++ value.literals
  | .augAssign _ target _ value => target.literals ++ value.literals
  | .if_ chain => chain.literals
  | .for_ _ target source body orelse =>
    target.literals ++ source.literals ++ Stmt.allLiterals body ++ Stmt.optionLiterals orelse
  | .while_ _ condition body orelse => condition.literals ++ Stmt.allLiterals body ++ Stmt.optionLiterals orelse
  | .return_ _ value => Expr.boundLiterals value
  | .delete _ targets => Expr.allLiterals targets
  | .expr _ value => value.literals
  | .pass _ => []
  | .refused .. => []

/-- The strings of a function. -/
def FunctionDef.literals : FunctionDef → List String
  | .mk _ _ ps decorators body => Expr.allLiterals decorators ++ Expr.paramLiterals ps ++ Stmt.allLiterals body

/-- The strings of a class. -/
def ClassDef.literals : ClassDef → List String
  | .mk _ _ bases decorators body => Expr.allLiterals decorators ++ Expr.allLiterals bases ++ Stmt.allLiterals body

/-- The strings of an `if` with all that follows it. -/
def IfChain.literals : IfChain → List String
  | .mk _ condition body orelse => condition.literals ++ Stmt.allLiterals body ++ orelse.literals

/-- The strings of what follows a branch. -/
def Else.literals : Else → List String
  | .nothing => []
  | .elif chain => chain.literals
  | .block body => Stmt.allLiterals body

/-- The strings of a block. -/
def Stmt.allLiterals : List Stmt → List String
  | [] => []
  | stmt :: rest => stmt.literals ++ Stmt.allLiterals rest

/-- The strings of the block behind a loop. -/
def Stmt.optionLiterals : Option (List Stmt) → List String
  | none => []
  | some body => Stmt.allLiterals body

end

/-! ## what is lowered -/

namespace Lower

open Script

variable {env : Env}

/-- The texts of a table stand on one line each. -/
def Env.OneLine (env : Env) : Prop := ∀ entry ∈ env.table.entries, Script.OneLine entry.2

section

variable (henv : env.OneLine)

include henv

theorem oneLine_identifier {name : String} (h : isNameText name = true) : OneLine (env.table.identifier name) := by
  unfold Replacements.identifier Replacements.get?
  cases hfind : env.table.entries.find? (·.1 == name) with
  | none => exact oneLine_of_isNameText h
  | some entry => exact henv entry (List.mem_of_find?_eq_some hfind)

/-- Parameters that are lowered have no default values. -/
theorem oneLine_params {ps : List Param} {names : List String} (hps : (ps.all fun p => isNameText p.name.name) = true)
    (h : params env ps = .ok names) : (∀ name ∈ names, OneLine name) ∧ Expr.paramLiterals ps = [] := by
  induction ps generalizing names with
  | nil =>
      cases h
      exact ⟨by simp, rfl⟩
  | cons p rest ih =>
      obtain ⟨hp, hrest⟩ := List.forall_mem_cons.1 (List.all_eq_true.1 hps)
      cases p with
      | mk name default span =>
          cases default with
          | some e => cases h
          | none =>
              rw [params] at h
              obtain ⟨others, hothers, h⟩ := bind_eq_ok h
              cases h
              obtain ⟨hnames, hnone⟩ := ih (List.all_eq_true.2 hrest) hothers
              exact ⟨List.forall_mem_cons.2 ⟨oneLine_identifier henv hp, hnames⟩, hnone⟩

end

/-- A call of either kind. -/
theorem holds_called {callee : Expr} {target : Script.Expr} {scripts : List Script.Expr} {ls ls' : List String}
    (h : Holds target.render ls) (hargs : HoldAll (Script.Expr.renderAll scripts) ls') :
    Holds (if constructs callee then Script.Expr.construct target scripts else .call target scripts).render
      (ls ++ ls') := by
  split
  · exact h.construct hargs
  · exact h.call hargs

mutual

/-- The text of an expression holds the literals of the expression. -/
theorem holds_of_lower (henv : env.OneLine) {e : Expr} {s : Script.Expr} (hl : e.lexical = true)
    (h : expr env e = .ok s) :
    Holds s.render e.literals := by
  match e with
  | .int span value =>
      cases h
      exact holds_plain (isLeaf_int (by simpa [Expr.lexical, TokenKind.lexical] using hl)).oneLine
  | .float span value =>
      cases h
      exact holds_plain (isLeaf_float hl).oneLine
  | .str span text =>
      cases h
      exact holds_string text
  | .bool span value =>
      cases h
      exact holds_plain (isLeaf_boolean value).oneLine
  | .none span =>
      cases h
      exact holds_plain isLeaf_null.oneLine
  | .name span id =>
      cases h
      exact holds_plain (oneLine_identifier henv hl)
  | .tuple .. | .slice .. | .comprehension .. | .yield .. => cases h
  | .list span items =>
      obtain ⟨scripts, hitems, rfl⟩ := list_ok h
      exact (holdAll_of_lower henv hl hitems).list
  | .dict span items =>
      obtain ⟨scripts, hitems, rfl⟩ := dict_ok h
      exact (holdAll_of_entries henv hl hitems).dict
  | .attribute span value attr =>
      obtain ⟨v, hvalue, rfl⟩ := attribute_ok h
      obtain ⟨hl, hattr⟩ := Bool.and_eq_true_iff.1 hl
      exact (holds_of_lower henv hl hvalue).member (oneLine_of_isNameText hattr)
  | .subscript span value index =>
      obtain ⟨v, i, hvalue, hindex, rfl⟩ := subscript_ok h
      obtain ⟨hl, hl'⟩ := Bool.and_eq_true_iff.1 hl
      exact (holds_of_lower henv hl hvalue).subscript (holds_of_lower henv hl' hindex)
  | .call span callee items =>
      obtain ⟨target, scripts, hcallee, hitems, rfl⟩ := call_ok h
      obtain ⟨hl, hl'⟩ := Bool.and_eq_true_iff.1 hl
      exact holds_called (holds_of_lower henv hl hcallee) (holdAll_of_args henv hl' hitems)
  | .binary span left op right =>
      obtain ⟨l, r, symbol, hleft, hright, -, rfl⟩ := binary_ok h
      obtain ⟨hl, hl'⟩ := Bool.and_eq_true_iff.1 hl
      exact (holds_of_lower henv hl hleft).binary (holds_of_lower henv hl' hright) symbol
  | .unary span op operand =>
      obtain ⟨o, hoperand, rfl⟩ := unary_ok h
      exact (holds_of_lower henv (e := operand) hl hoperand).unary op
  | .compare span left rest =>
      obtain ⟨op, right, l, r, symbol, rfl, hleft, hright, -, rfl⟩ := compare_ok h
      simp only [Expr.lexical, Expr.operandsLexical, Bool.and_true, Bool.and_eq_true] at hl
      rw [Expr.literals, Expr.operandLiterals, Expr.operandLiterals, List.append_nil]
      exact (holds_of_lower henv hl.1 hleft).compare (holds_of_lower henv hl.2 hright) symbol
  | .ternary span test body orelse =>
      obtain ⟨t, b, o, htest, hbody, horelse, rfl⟩ := ternary_ok h
      simp only [Expr.lexical, Bool.and_eq_true] at hl
      exact (holds_of_lower henv hl.1.1 htest).ternary (holds_of_lower henv hl.1.2 hbody)
        (holds_of_lower henv hl.2 horelse)
  | .lambda span ps body =>
      obtain ⟨names, b, hnames, hbody, rfl⟩ := lambda_ok h
      obtain ⟨hps, hl⟩ := Bool.and_eq_true_iff.1 hl
      obtain ⟨hnames, hnone⟩ := oneLine_params henv hps hnames
      rw [Expr.literals, hnone]
      exact (holds_of_lower henv hl hbody).lambda hnames

theorem holdAll_of_lower (henv : env.OneLine) {items : List Expr} {scripts : List Script.Expr}
    (hl : Expr.allLexical items = true) (h : exprs env items = .ok scripts) :
    HoldAll (Script.Expr.renderAll scripts) (Expr.allLiterals items) := by
  match items with
  | [] =>
      cases h
      exact holdAll_nil
  | e :: rest =>
      obtain ⟨first, others, he, hrest, rfl⟩ := exprs_cons_ok h
      obtain ⟨hl, hl'⟩ := Bool.and_eq_true_iff.1 hl
      exact (holds_of_lower henv hl he).cons (holdAll_of_lower henv hl' hrest)

theorem holdAll_of_entries (henv : env.OneLine) {items : List (Expr × Expr)}
    {scripts : List (Script.Expr × Script.Expr)}
    (hl : Expr.entriesLexical items = true) (h : entries env items = .ok scripts) :
    HoldAll ((Script.Expr.renderEntries scripts).map fun e => e.1 ++ ": " ++ e.2) (Expr.entryLiterals items) := by
  match items with
  | [] =>
      cases h
      exact holdAll_nil
  | (key, value) :: rest =>
      obtain ⟨k, v, others, hkey, hvalue, hrest, rfl⟩ := entries_cons_ok h
      simp only [Expr.entriesLexical, Bool.and_eq_true] at hl
      exact ((holds_of_lower henv hl.1.1 hkey).entry (holds_of_lower henv hl.1.2 hvalue)).cons
        (holdAll_of_entries henv hl.2 hrest)

theorem holdAll_of_args (henv : env.OneLine) {items : List Arg} {scripts : List Script.Expr}
    (hl : Expr.argsLexical items = true) (h : args env items = .ok scripts) :
    HoldAll (Script.Expr.renderAll scripts) (Expr.argLiterals items) := by
  match items with
  | [] =>
      cases h
      exact holdAll_nil
  | .positional value :: rest =>
      obtain ⟨first, others, hvalue, hrest, rfl⟩ := args_positional_ok h
      obtain ⟨hl, hl'⟩ := Bool.and_eq_true_iff.1 hl
      exact (holds_of_lower henv hl hvalue).cons (holdAll_of_args henv hl' hrest)
  | .starred value :: rest =>
      obtain ⟨first, others, hvalue, hrest, rfl⟩ := args_starred_ok h
      obtain ⟨hl, hl'⟩ := Bool.and_eq_true_iff.1 hl
      exact (holds_of_lower henv hl hvalue).spread.cons (holdAll_of_args henv hl' hrest)
  | .keyword .. :: rest => cases h
  | .doubleStarred .. :: rest => cases h

end

/-! ## statements -/

section

variable (henv : env.OneLine)

include henv

theorem holds_of_store {target : Expr} {s : Script.Expr} (hl : target.lexical = true) (h : store env target = .ok s) :
    Holds s.render target.literals := by
  unfold store at h
  split at h
  · exact holds_of_lower henv hl h
  · exact holds_of_lower henv hl h
  · exact holds_of_lower henv hl h
  · cases h

/-- What a loop binds has no literals. -/
theorem oneLine_binding {target : Expr} {bound : Script.Binding} (hl : target.targetLexical = true)
    (h : binding env target = .ok bound) : OneLine bound.render ∧ target.literals = [] := by
  have hnames : ∀ {items : List Expr} {names : List String}, Expr.allLexical items = true →
      loopNames env items = .ok names → (∀ name ∈ names, OneLine name) ∧ Expr.allLiterals items = [] := by
    intro items
    induction items with
    | nil =>
        rintro names - ⟨⟩
        exact ⟨by simp, rfl⟩
    | cons e rest ih =>
        intro names hl h
        cases e with
        | name span id =>
            rw [loopNames] at h
            obtain ⟨others, hothers, h⟩ := bind_eq_ok h
            cases h
            obtain ⟨hl, hl'⟩ := Bool.and_eq_true_iff.1 hl
            obtain ⟨hone, hnone⟩ := ih hl' hothers
            exact ⟨List.forall_mem_cons.2 ⟨oneLine_identifier henv hl, hone⟩, hnone⟩
        | _ => cases h
  obtain ⟨hl, htuple⟩ := Bool.and_eq_true_iff.1 hl
  cases target with
  | name span id =>
      cases h
      exact ⟨oneLine_identifier henv hl, rfl⟩
  | tuple span items =>
      rw [binding] at h
      obtain ⟨names, hitems, h⟩ := bind_eq_ok h
      cases h
      obtain ⟨hone, hnone⟩ := hnames htuple hitems
      have hlist : HoldAll names [] := ⟨hone, by simp⟩
      exact ⟨hlist.list.oneLine, hnone⟩
  | _ => cases h

/-- The text of what a loop goes over holds the literals of the source. -/
theorem holds_of_iteration {bound : Script.Binding} {source : Expr} {i : Script.Iteration} {s : Script.Expr}
    (hl : source.lexical = true) (h : iteration env bound source = .ok (i, s)) : Holds s.render source.literals := by
  unfold iteration at h
  split at h
  · obtain ⟨script, hsource, h⟩ := bind_eq_ok h
    cases h
    exact holds_of_lower henv hl hsource
  · next object hobject =>
      obtain ⟨script, hscript, h⟩ := bind_eq_ok h
      obtain ⟨hobject, hliterals⟩ : object.lexical = true ∧ source.literals = object.literals := by
        unfold itemsReceiver? at hobject
        split at hobject
        · split at hobject
          · cases hobject
            simp only [Expr.lexical, Bool.and_eq_true] at hl
            exact ⟨hl.1.1, by simp [Expr.literals, Expr.argLiterals]⟩
          · cases hobject
        · cases hobject
      rw [hliterals]
      split at h <;> cases h <;> exact holds_of_lower henv hobject hscript

theorem holds_of_assignTarget {span : Span} {targets : List Expr} {declared : Bool} {s : Script.Expr}
    (hl : Expr.allLexical targets = true) (h : assignTarget env span targets = .ok (declared, s)) :
    Holds s.render (Expr.allLiterals targets) := by
  unfold assignTarget at h
  split at h
  · next target =>
      obtain ⟨lowered, hstore, h⟩ := bind_eq_ok h
      cases h
      have hstored := holds_of_store henv (Bool.and_eq_true_iff.1 hl).1 hstore
      simpa [Expr.allLiterals] using hstored
  · cases h

theorem holds_of_deleteTarget {span : Span} {targets : List Expr} {s : Script.Expr}
    (hl : Expr.allLexical targets = true) (h : deleteTarget env span targets = .ok s) :
    Holds s.render (Expr.allLiterals targets) := by
  unfold deleteTarget at h
  split at h
  · next target =>
      have hlexical := (Bool.and_eq_true_iff.1 hl).1
      have hone : Expr.allLiterals [target] = target.literals := by simp [Expr.allLiterals]
      rw [hone]
      split at h
      · exact holds_of_lower henv hlexical h
      · exact holds_of_lower henv hlexical h
      · cases h
  · cases h

/-! ### statements without blocks -/

theorem carries_of_assign {span : Span} {targets : List Expr} {value : Expr} {script : Script.Stmt}
    (hl : (Stmt.assign span targets value).lexical = true) (h : stmt env (.assign span targets value) = .ok script) :
    Script.Carries script (Stmt.assign span targets value).literals := by
  obtain ⟨declared, target, result, htarget, hvalue, rfl⟩ := assign_ok h
  obtain ⟨hl, hl'⟩ := Bool.and_eq_true_iff.1 hl
  have hleft := holds_of_assignTarget henv hl htarget
  have hright := holds_of_lower henv hl' hvalue
  have hdeclared : Holds (declaredText declared target.render) (Expr.allLiterals targets) := by
    cases declared
    · exact hleft
    · exact hleft.after (by decide)
  exact ((hdeclared.before (show OneLine " = " by decide)).append hright).carries
    (.assign hleft.oneLine hright.oneLine) rfl

theorem carries_of_augAssign {span : Span} {target value : Expr} {op : BinaryOp} {script : Script.Stmt}
    (hl : (Stmt.augAssign span target op value).lexical = true)
    (h : stmt env (.augAssign span target op value) = .ok script) :
    Script.Carries script (Stmt.augAssign span target op value).literals := by
  obtain ⟨place, result, htarget, hvalue, rfl⟩ := augAssign_ok h
  obtain ⟨hl, hl'⟩ := Bool.and_eq_true_iff.1 hl
  have hleft := holds_of_store henv hl htarget
  have hright := holds_of_lower henv hl' hvalue
  exact ((hleft.before (show OneLine " += " by decide)).append hright).carries
    (.addAssign hleft.oneLine hright.oneLine) rfl

theorem carries_of_return {span : Span} {value : Option Expr} {script : Script.Stmt}
    (hl : (Stmt.return_ span value).lexical = true) (h : stmt env (.return_ span value) = .ok script) :
    Script.Carries script (Stmt.return_ span value).literals := by
  obtain ⟨result, hvalue, rfl⟩ := return_ok h
  cases value with
  | none =>
      cases hvalue
      exact (holds_plain (show OneLine "return" by decide)).carries (.return_ (by simp)) rfl
  | some e =>
      rw [optional] at hvalue
      obtain ⟨script, he, hvalue⟩ := bind_eq_ok hvalue
      cases hvalue
      have hholds := holds_of_lower henv (e := e) hl he
      exact (hholds.after (show OneLine "return " by decide)).carries (.return_ (by simpa using hholds.oneLine)) rfl

theorem carries_of_delete {span : Span} {targets : List Expr} {script : Script.Stmt}
    (hl : (Stmt.delete span targets).lexical = true) (h : stmt env (.delete span targets) = .ok script) :
    Script.Carries script (Stmt.delete span targets).literals := by
  obtain ⟨target, htarget, rfl⟩ := delete_ok h
  have hholds := holds_of_deleteTarget henv hl htarget
  exact (hholds.after (show OneLine "delete " by decide)).carries (.delete hholds.oneLine) rfl

theorem carries_of_expr {span : Span} {value : Expr} {script : Script.Stmt} (hl : (Stmt.expr span value).lexical = true)
    (h : stmt env (.expr span value) = .ok script) : Script.Carries script (Stmt.expr span value).literals := by
  obtain ⟨result, hvalue, rfl⟩ := expr_ok h
  have hholds := holds_of_lower henv (e := value) hl hvalue
  exact hholds.carries (.expr hholds.oneLine) rfl

end

/-- Decorators and base classes are refused, so there are no literals in them. -/
theorem literals_of_checkDecorators {node : String} {ds : List Expr} (h : checkDecorators node ds = .ok ()) :
    Expr.allLiterals ds = [] := by
  cases ds with
  | nil => rfl
  | cons d rest => cases h

theorem literals_of_checkBases {bs : List Expr} (h : checkBases bs = .ok ()) : Expr.allLiterals bs = [] := by
  cases bs with
  | nil => rfl
  | cons b rest => cases h

mutual

/-- The text of a statement has the literals of the statement in it. -/
theorem carries_of_lower (henv : env.OneLine) {source : Stmt} {script : Script.Stmt} (hl : source.lexical = true)
    (h : stmt env source = .ok script) : Script.Carries script source.literals := by
  cases source with
  | function def_ =>
      obtain ⟨signature, body, hfunction, rfl⟩ := function_ok h
      obtain ⟨hsignature, hbody⟩ := carries_of_function henv hl hfunction
      exact hbody.function hsignature
  | class_ def_ =>
      rw [stmt] at h
      exact carries_of_class henv hl h
  | assign span targets value => exact carries_of_assign henv hl h
  | augAssign span target op value => exact carries_of_augAssign henv hl h
  | if_ chain =>
      obtain ⟨branches, orelse, hchain, rfl⟩ := if_ok h
      obtain ⟨hne, hbranches⟩ := carries_of_chain henv hl hchain
      exact hbranches.ifChain hne
  | for_ span target source body orelse =>
      obtain ⟨bound, scripts, items, object, rfl, hbound, hbody, hiteration, rfl⟩ := for_ok h
      simp only [Stmt.lexical, Bool.and_eq_true] at hl
      obtain ⟨hone, hnone⟩ := oneLine_binding henv hl.1.1.1 hbound
      have hsource := holds_of_iteration henv hl.1.1.2 hiteration
      have hall := (carries_of_block henv hl.1.2 hbody).for_ hone hsource (env.declared.contains target.span) items
      simpa [Stmt.literals, Stmt.optionLiterals, hnone] using hall
  | while_ span condition body orelse =>
      obtain ⟨test, scripts, rfl, hcondition, hbody, rfl⟩ := while_ok h
      simp only [Stmt.lexical, Bool.and_eq_true] at hl
      have hall := (carries_of_block henv hl.1.2 hbody).while_ (holds_of_lower henv hl.1.1 hcondition)
      simpa [Stmt.literals, Stmt.optionLiterals] using hall
  | return_ span value => exact carries_of_return henv hl h
  | delete span targets => exact carries_of_delete henv hl h
  | pass span =>
      cases h
      exact ⟨.pass, by simp [Stmt.literals]⟩
  | expr span value => exact carries_of_expr henv hl h
  | refused span stmt => cases h

theorem carries_of_function (henv : env.OneLine) {def_ : FunctionDef} {signature : Script.Signature}
    {body : List Script.Stmt} (hl : def_.lexical = true) (h : function env def_ = .ok (signature, body)) :
    signature.Flat ∧ CarryAll body def_.literals := by
  cases def_ with
  | mk span name ps decorators source =>
      obtain ⟨names, hdecorators, hnames, hbody, rfl⟩ := functionDef_ok h
      simp only [FunctionDef.lexical, Bool.and_eq_true] at hl
      obtain ⟨hparams, hnone⟩ := oneLine_params henv hl.1.2 hnames
      refine ⟨⟨oneLine_of_isNameText hl.1.1, hparams⟩, ?_⟩
      rw [FunctionDef.literals, literals_of_checkDecorators hdecorators, hnone]
      exact carries_of_block henv hl.2 hbody

theorem carries_of_class (henv : env.OneLine) {def_ : ClassDef} {script : Script.Stmt} (hl : def_.lexical = true)
    (h : classDef env def_ = .ok script) : Script.Carries script def_.literals := by
  cases def_ with
  | mk span name bases decorators body =>
      obtain ⟨scripts, hdecorators, hbases, hmethods, rfl⟩ := classDef_ok h
      obtain ⟨hname, hl⟩ := Bool.and_eq_true_iff.1 hl
      rw [ClassDef.literals, literals_of_checkDecorators hdecorators, literals_of_checkBases hbases]
      exact (carries_of_methods henv hl hmethods).class_ (oneLine_of_isNameText hname)

theorem carries_of_methods (henv : env.OneLine) {body : List Stmt}
    {scripts : List (Script.Signature × List Script.Stmt)} (hl : Stmt.allLexical body = true)
    (h : methods env body = .ok scripts) : MethodsCarry scripts (Stmt.allLiterals body) := by
  cases body with
  | nil =>
      cases h
      exact methodsCarry_nil
  | cons stmt body =>
      obtain ⟨hl, hl'⟩ := Bool.and_eq_true_iff.1 hl
      cases stmt with
      | function def_ =>
          obtain ⟨signature, inner, others, hfunction, hothers, rfl⟩ := methods_cons_ok h
          obtain ⟨hsignature, hbody⟩ := carries_of_function henv hl hfunction
          exact hbody.method hsignature (carries_of_methods henv hl' hothers)
      | pass span =>
          rw [methods] at h
          have hrest := carries_of_methods henv hl' h
          exact hrest
      | _ => cases h

theorem carries_of_chain (henv : env.OneLine) {chain : IfChain} {branches : List (Script.Expr × List Script.Stmt)}
    {last : Option (List Script.Stmt)} (hl : chain.lexical = true) (h : ifChain env chain = .ok (branches, last)) :
    branches ≠ [] ∧ BranchesCarry branches last chain.literals := by
  cases chain with
  | mk span condition body orelse =>
      obtain ⟨test, scripts, more, hcondition, hbody, helse, rfl⟩ := ifChain_ok h
      simp only [IfChain.lexical, Bool.and_eq_true] at hl
      refine ⟨by simp, ?_⟩
      exact (carries_of_block henv hl.1.2 hbody).branch (holds_of_lower henv hl.1.1 hcondition)
        (carries_of_else henv hl.2 helse)

theorem carries_of_else (henv : env.OneLine) {orelse : Else} {branches : List (Script.Expr × List Script.Stmt)}
    {last : Option (List Script.Stmt)} (hl : orelse.lexical = true) (h : ifElse env orelse = .ok (branches, last)) :
    BranchesCarry branches last orelse.literals := by
  cases orelse with
  | nothing =>
      cases h
      exact branchesCarry_nil
  | elif chain =>
      rw [ifElse] at h
      exact (carries_of_chain henv hl h).2
  | block body =>
      obtain ⟨scripts, hbody, rfl, rfl⟩ := elseBlock_ok h
      exact (carries_of_block henv hl hbody).last

/-- The texts of the statements of a block have the literals of these statements in them. -/
theorem carries_of_block (henv : env.OneLine) {body : List Stmt} {scripts : List Script.Stmt}
    (hl : Stmt.allLexical body = true) (h : block env body = .ok scripts) :
    CarryAll scripts (Stmt.allLiterals body) := by
  cases body with
  | nil =>
      cases h
      exact carryAll_nil
  | cons source body =>
      obtain ⟨first, others, hfirst, hothers, rfl⟩ := block_cons_ok h
      obtain ⟨hl, hl'⟩ := Bool.and_eq_true_iff.1 hl
      exact (carries_of_lower henv hl hfirst).cons (carries_of_block henv hl' hothers)

end

/-- Each top-level item has the literals of the statement that it is lowered from. -/
theorem carries_of_items (henv : env.OneLine) {body : List Stmt} {lowered : List Item}
    (hl : Stmt.allLexical body = true) (h : items env body = .ok lowered) :
    List.Forall₂ (fun source i => Script.Carries i.script source.literals) body lowered := by
  induction body generalizing lowered with
  | nil =>
      cases h
      exact .nil
  | cons source body ih =>
      obtain ⟨first, others, hfirst, hothers, rfl⟩ := items_cons_ok h
      obtain ⟨hl, hl'⟩ := Bool.and_eq_true_iff.1 hl
      exact .cons (carries_of_lower henv hl (stmt_of_item hfirst)) (ih hl' hothers)

end Lower

/-! ## whole sources -/

open Script Text

/-- String literals and indentation do not interfere. A literal has no control characters and is read as JSON as the
string that it stands for. In the output of a source that is compiled, with a table of texts that stand on one line,
a statement inside some blocks stands as it stands alone, with one tab for each block in front of every row, and
everything else is the same whatever statement stands there. So every literal of the source is in the output of its
item as it is. -/
theorem literals_of_parse :
    (∀ s : String, (∀ c ∈ (Fragment.string s).toList, 0x20 ≤ c.toNat) ∧
      ∀ depth, Json.parse depth (Fragment.string s) = .ok (.str s)) ∧
    ∀ (text : String) (m : Module) (table : Replacements) (lowered : List Lower.Item),
      (parse (lex text).tokens).module? = some m → (∀ entry ∈ table.entries, '\n' ∉ entry.2.toList) →
      Lower.module_ m table = .ok lowered →
      (∀ i ∈ lowered, ∀ (C : Context) (stmt : Script.Stmt), i.script = C.fill stmt → stmt.Flat ∧
        ∃ above below, ∀ other : Script.Stmt, other.Flat →
          rows (C.fill other).render.toList =
            above ++ (rows other.render.toList).map (List.replicate C.depth '\t' ++ ·) ++ below) ∧
      List.Forall₂ (fun source i =>
        ∀ s ∈ source.literals, (Fragment.string s).toList <:+: i.compiled.source.toList) m.body lowered := by
  refine ⟨fun s => ⟨fun c hc => Json.le_of_mem_quote hc, fun depth => ?_⟩, fun text m table lowered h htable hl => ?_⟩
  · exact Json.parse_render (v := .str s) rfl (Nat.zero_le depth)
  · obtain ⟨ds, -, hitems⟩ := Lower.bind_eq_ok hl
    have hcarries := @Lower.carries_of_items ⟨table, ds⟩ htable _ _ (lexical_of_parse h) hitems
    have hflat : ∀ i ∈ lowered, i.script.Flat := by
      have hboth := hcarries.flip.imp fun i source hi => And.intro hi.flat hi
      exact ((List.forall₂_and_left _ _).1 hboth).1
    refine ⟨fun i hi C stmt hfill => ?_, hcarries.imp fun source i hi => hi.verbatim⟩
    have houter : (C.fill stmt).Flat := hfill ▸ hflat i hi
    exact ⟨(@Context.flat_fill stmt stmt C houter).1, Context.rows_fill houter⟩

/-- A statement with a newline in a string, inside three blocks. -/
def Sample.quoting : String :=
  "def f(x):\n    while x:\n        if x:\n            return 'a\\nb'\n"

/-- The place of that statement. -/
def Sample.quotingContext : Context :=
  .function ⟨"f", ["x"]⟩ [] (.while_ (.name "x") [] (.branch [] (.name "x") [] .here [] [] none) []) []

theorem Sample.quoting_lowered :
    ((parse (lex Sample.quoting).tokens).module?.map fun m =>
      (m.body.map Stmt.literals, (Lower.module_ m .default).map fun items => items.map (·.script))) =
    some ([["a\nb"]], .ok [Sample.quotingContext.fill (.return_ (some (.str "a\nb")))]) := by
  cbv

/-- The statement stands behind three tabs, and the string in it as it is written alone. -/
theorem quoting_verbatim :
    ∃ m lowered, (parse (lex Sample.quoting).tokens).module? = some m ∧ Lower.module_ m .default = .ok lowered ∧
      (∀ i ∈ lowered, "\"a\\nb\"".toList <:+: i.compiled.source.toList ∧
        ∃ above below, rows i.compiled.source.toList = above ++ ["\t\t\treturn \"a\\nb\";".toList] ++ below) ∧
      lowered.length = 1 := by
  obtain ⟨m, hm, hboth⟩ := Option.map_eq_some_iff.1 Sample.quoting_lowered
  obtain ⟨hliterals, hscripts⟩ := Prod.mk.inj hboth
  cases hlowered : Lower.module_ m .default with
  | error r =>
      rw [hlowered] at hscripts
      cases hscripts
  | ok lowered =>
      rw [hlowered] at hscripts
      obtain ⟨i, rfl, hscript⟩ := List.map_eq_singleton_iff.1 (Except.ok.inj hscripts)
      obtain ⟨source, hbody, hsource⟩ := List.map_eq_singleton_iff.1 hliterals
      obtain ⟨hrows, hverbatim⟩ := literals_of_parse.2 Sample.quoting m .default [i] hm (by decide) hlowered
      refine ⟨m, [i], hm, hlowered, List.forall_mem_singleton.2 ⟨?_, ?_⟩, rfl⟩
      · rw [hbody] at hverbatim
        obtain ⟨hi, -⟩ := List.forall₂_cons.1 hverbatim
        exact hi "a\nb" (by simp [hsource])
      · obtain ⟨hflat, above, below, hall⟩ := hrows i (by simp) Sample.quotingContext _ hscript
        refine ⟨above, below, ?_⟩
        rw [Lower.Item.compiled, hscript, hall _ hflat]
        rfl

end ViewSync
