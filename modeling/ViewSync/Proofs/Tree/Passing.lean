import Mathlib.Data.List.Forall2
import ViewSync.Proofs.Parser.Phrase

/-!
# ViewSync.Proofs.Tree.Passing

Trees of statements up to their spans, and with `pass` for some of the statements that are refused. `Passes drop`
relates a statement to one that is the same up to spans, but for the refused statements at the spans that `drop`
chooses: these are `pass` in the second one. There is one lemma for each kind of statement with statements inside. A
tree in which some refused statements are replaced has the others left (`Module.refusals_passing`).
-/

namespace ViewSync

mutual

/-- A statement with all its spans the same. -/
def Stmt.spanless : Stmt → Stmt
  | .function def_ => .function def_.spanless
  | .class_ def_ => .class_ def_.spanless
  | .assign _ targets value => .assign .origin (targets.map Expr.spanless) value.spanless
  | .augAssign _ target op value => .augAssign .origin target.spanless op value.spanless
  | .if_ chain => .if_ chain.spanless
  | .for_ _ target source body orelse =>
    .for_ .origin target.spanless source.spanless (spanlessBlock body) (spanlessOptional orelse)
  | .while_ _ condition body orelse => .while_ .origin condition.spanless (spanlessBlock body) (spanlessOptional orelse)
  | .return_ _ value => .return_ .origin (value.map Expr.spanless)
  | .delete _ targets => .delete .origin (targets.map Expr.spanless)
  | .pass _ => .pass .origin
  | .expr _ value => .expr .origin value.spanless
  | .refused _ stmt => .refused .origin stmt

/-- A function with all its spans the same. -/
def FunctionDef.spanless : FunctionDef → FunctionDef
  | .mk _ name ps decorators body =>
    .mk .origin ⟨name.name, .origin⟩ (ps.map Param.spanless) (decorators.map Expr.spanless) (spanlessBlock body)

/-- A class with all its spans the same. -/
def ClassDef.spanless : ClassDef → ClassDef
  | .mk _ name bases decorators body =>
    .mk .origin ⟨name.name, .origin⟩ (bases.map Expr.spanless) (decorators.map Expr.spanless) (spanlessBlock body)

/-- An `if` with all its spans the same. -/
def IfChain.spanless : IfChain → IfChain
  | .mk _ condition body orelse => .mk .origin condition.spanless (spanlessBlock body) orelse.spanless

/-- What follows the block of an `if`, with all its spans the same. -/
def Else.spanless : Else → Else
  | .nothing => .nothing
  | .elif chain => .elif chain.spanless
  | .block body => .block (spanlessBlock body)

/-- A block that may be absent. -/
def spanlessOptional : Option (List Stmt) → Option (List Stmt)
  | none => none
  | some body => some (spanlessBlock body)

/-- The statements of a block. -/
def spanlessBlock : List Stmt → List Stmt
  | [] => []
  | stmt :: rest => stmt.spanless :: spanlessBlock rest

end

/-- A tree with all its spans the same. -/
def Module.spanless (m : Module) : Module :=
  ⟨spanlessBlock m.body, .origin⟩

mutual

/-- A statement in which the refused statements at some spans are `pass`. -/
def Stmt.passing (drop : Span → Bool) : Stmt → Stmt
  | .function def_ => .function (def_.passing drop)
  | .class_ def_ => .class_ (def_.passing drop)
  | .if_ chain => .if_ (chain.passing drop)
  | .for_ span target source body orelse =>
    .for_ span target source (passingBlock drop body) (passingOptional drop orelse)
  | .while_ span condition body orelse => .while_ span condition (passingBlock drop body) (passingOptional drop orelse)
  | .refused span stmt => if drop span then .pass span else .refused span stmt
  | stmt => stmt

/-- A function in which the refused statements at some spans are `pass`. -/
def FunctionDef.passing (drop : Span → Bool) : FunctionDef → FunctionDef
  | .mk span name ps decorators body => .mk span name ps decorators (passingBlock drop body)

/-- A class in which the refused statements at some spans are `pass`. -/
def ClassDef.passing (drop : Span → Bool) : ClassDef → ClassDef
  | .mk span name bases decorators body => .mk span name bases decorators (passingBlock drop body)

/-- An `if` in which the refused statements at some spans are `pass`. -/
def IfChain.passing (drop : Span → Bool) : IfChain → IfChain
  | .mk span condition body orelse => .mk span condition (passingBlock drop body) (orelse.passing drop)

/-- What follows the block of an `if`. -/
def Else.passing (drop : Span → Bool) : Else → Else
  | .nothing => .nothing
  | .elif chain => .elif (chain.passing drop)
  | .block body => .block (passingBlock drop body)

/-- A block that may be absent. -/
def passingOptional (drop : Span → Bool) : Option (List Stmt) → Option (List Stmt)
  | none => none
  | some body => some (passingBlock drop body)

/-- The statements of a block. -/
def passingBlock (drop : Span → Bool) : List Stmt → List Stmt
  | [] => []
  | stmt :: rest => stmt.passing drop :: passingBlock drop rest

end

/-- A tree in which the refused statements at some spans are `pass`. -/
def Module.passing (drop : Span → Bool) (m : Module) : Module :=
  ⟨passingBlock drop m.body, m.span⟩

mutual

/-- The refused statements in a statement, each with the span at which it stands. -/
def Stmt.refusals : Stmt → List (Span × RefusedStmt)
  | .function def_ => def_.refusals
  | .class_ def_ => def_.refusals
  | .if_ chain => chain.refusals
  | .for_ _ _ _ body orelse => blockRefusals body ++ optionalRefusals orelse
  | .while_ _ _ body orelse => blockRefusals body ++ optionalRefusals orelse
  | .refused span stmt => [(span, stmt)]
  | _ => []

/-- The refused statements in a function. -/
def FunctionDef.refusals : FunctionDef → List (Span × RefusedStmt)
  | .mk _ _ _ _ body => blockRefusals body

/-- The refused statements in a class. -/
def ClassDef.refusals : ClassDef → List (Span × RefusedStmt)
  | .mk _ _ _ _ body => blockRefusals body

/-- The refused statements in an `if`. -/
def IfChain.refusals : IfChain → List (Span × RefusedStmt)
  | .mk _ _ body orelse => blockRefusals body ++ orelse.refusals

/-- The refused statements in what follows the block of an `if`. -/
def Else.refusals : Else → List (Span × RefusedStmt)
  | .nothing => []
  | .elif chain => chain.refusals
  | .block body => blockRefusals body

/-- The refused statements in a block that may be absent. -/
def optionalRefusals : Option (List Stmt) → List (Span × RefusedStmt)
  | none => []
  | some body => blockRefusals body

/-- The refused statements in a block. -/
def blockRefusals : List Stmt → List (Span × RefusedStmt)
  | [] => []
  | stmt :: rest => stmt.refusals ++ blockRefusals rest

end

/-- The refused statements in a tree. -/
def Module.refusals (m : Module) : List (Span × RefusedStmt) :=
  blockRefusals m.body

theorem blockRefusals_append (front body : Block) :
    blockRefusals (front ++ body) = blockRefusals front ++ blockRefusals body := by
  induction front with
  | nil => rfl
  | cons stmt rest ih => exact (congrArg (stmt.refusals ++ ·) ih).trans (List.append_assoc _ _ _).symm

theorem blockRefusals_singleton (stmt : Stmt) : blockRefusals [stmt] = stmt.refusals :=
  List.append_nil _

/-! ## the refused statements that are left -/

section

variable (drop : Span → Bool)

/-- Those that are not replaced. -/
def unreplaced (rs : List (Span × RefusedStmt)) : List (Span × RefusedStmt) :=
  rs.filter fun r => !drop r.1

theorem unreplaced_append (rs rs' : List (Span × RefusedStmt)) :
    unreplaced drop (rs ++ rs') = unreplaced drop rs ++ unreplaced drop rs' :=
  List.filter_append rs rs'

mutual

theorem Stmt.refusals_passing : ∀ stmt : Stmt, (stmt.passing drop).refusals = unreplaced drop stmt.refusals
  | .function def_ => def_.refusals_passing
  | .class_ def_ => def_.refusals_passing
  | .if_ chain => chain.refusals_passing
  | .for_ _ _ _ body orelse => (congrArg₂ (· ++ ·) (blockRefusals_passing body) (optionalRefusals_passing orelse)).trans
    (unreplaced_append drop _ _).symm
  | .while_ _ _ body orelse => (congrArg₂ (· ++ ·) (blockRefusals_passing body) (optionalRefusals_passing orelse)).trans
    (unreplaced_append drop _ _).symm
  | .refused span stmt => by
    rw [Stmt.passing]
    cases hdrop : drop span <;> simp [Stmt.refusals, unreplaced, hdrop]
  | .assign .. | .augAssign .. | .return_ .. | .delete .. | .pass _ | .expr .. => rfl

theorem FunctionDef.refusals_passing :
    ∀ def_ : FunctionDef, (def_.passing drop).refusals = unreplaced drop def_.refusals
  | .mk _ _ _ _ body => blockRefusals_passing body

theorem ClassDef.refusals_passing : ∀ def_ : ClassDef, (def_.passing drop).refusals = unreplaced drop def_.refusals
  | .mk _ _ _ _ body => blockRefusals_passing body

theorem IfChain.refusals_passing : ∀ chain : IfChain, (chain.passing drop).refusals = unreplaced drop chain.refusals
  | .mk _ _ body orelse => (congrArg₂ (· ++ ·) (blockRefusals_passing body) orelse.refusals_passing).trans
    (unreplaced_append drop _ _).symm

theorem Else.refusals_passing : ∀ orelse : Else, (orelse.passing drop).refusals = unreplaced drop orelse.refusals
  | .nothing => rfl
  | .elif chain => chain.refusals_passing
  | .block body => blockRefusals_passing body

theorem optionalRefusals_passing :
    ∀ body : Option (List Stmt), optionalRefusals (passingOptional drop body) = unreplaced drop (optionalRefusals body)
  | none => rfl
  | some body => blockRefusals_passing body

theorem blockRefusals_passing :
    ∀ body : List Stmt, blockRefusals (passingBlock drop body) = unreplaced drop (blockRefusals body)
  | [] => rfl
  | stmt :: rest => (congrArg₂ (· ++ ·) stmt.refusals_passing (blockRefusals_passing rest)).trans
    (unreplaced_append drop _ _).symm

end

theorem Module.refusals_passing (m : Module) : (m.passing drop).refusals = unreplaced drop m.refusals :=
  blockRefusals_passing drop m.body

end

/-! ## a tree in which nothing is replaced -/

mutual

theorem Stmt.passing_none : ∀ stmt : Stmt, stmt.passing (fun _ => false) = stmt
  | .function def_ => congrArg Stmt.function def_.passing_none
  | .class_ def_ => congrArg Stmt.class_ def_.passing_none
  | .if_ chain => congrArg Stmt.if_ chain.passing_none
  | .for_ span target source body orelse =>
    congrArg₂ (Stmt.for_ span target source) (passingBlock_none body) (passingOptional_none orelse)
  | .while_ span condition body orelse =>
    congrArg₂ (Stmt.while_ span condition) (passingBlock_none body) (passingOptional_none orelse)
  | .assign .. | .augAssign .. | .return_ .. | .delete .. | .pass _ | .expr .. | .refused .. => rfl

theorem FunctionDef.passing_none : ∀ def_ : FunctionDef, def_.passing (fun _ => false) = def_
  | .mk span name ps decorators body => congrArg (FunctionDef.mk span name ps decorators) (passingBlock_none body)

theorem ClassDef.passing_none : ∀ def_ : ClassDef, def_.passing (fun _ => false) = def_
  | .mk span name bases decorators body => congrArg (ClassDef.mk span name bases decorators) (passingBlock_none body)

theorem IfChain.passing_none : ∀ chain : IfChain, chain.passing (fun _ => false) = chain
  | .mk span condition body orelse =>
    congrArg₂ (IfChain.mk span condition) (passingBlock_none body) orelse.passing_none

theorem Else.passing_none : ∀ orelse : Else, orelse.passing (fun _ => false) = orelse
  | .nothing => rfl
  | .elif chain => congrArg Else.elif chain.passing_none
  | .block body => congrArg Else.block (passingBlock_none body)

theorem passingOptional_none : ∀ body : Option (List Stmt), passingOptional (fun _ => false) body = body
  | none => rfl
  | some body => congrArg some (passingBlock_none body)

theorem passingBlock_none : ∀ body : List Stmt, passingBlock (fun _ => false) body = body
  | [] => rfl
  | stmt :: rest => congrArg₂ List.cons stmt.passing_none (passingBlock_none rest)

end

theorem Module.passing_none (m : Module) : m.passing (fun _ => false) = m :=
  congrArg (Module.mk · m.span) (passingBlock_none m.body)

/-! ## statements that only differ by spans and what is passed over -/

variable (drop : Span → Bool)

/-- The second statement is the first one up to spans, with `pass` for the refused statements that are dropped. -/
def Passes (stmt stmt' : Stmt) : Prop :=
  stmt'.spanless = (stmt.passing drop).spanless

/-- The same of a chain of conditions. -/
def IfChain.Passes (chain chain' : IfChain) : Prop :=
  chain'.spanless = (chain.passing drop).spanless

/-- The same of what follows a block. -/
def Else.Passes (orelse orelse' : Else) : Prop :=
  orelse'.spanless = (orelse.passing drop).spanless

/-- The same of the statements of a block, one by one. -/
abbrev PassesAll (body body' : List Stmt) : Prop :=
  List.Forall₂ (Passes drop) body body'

variable {drop} {span span' : Span} {body body' : List Stmt}

theorem PassesAll.block (h : PassesAll drop body body') :
    spanlessBlock body' = spanlessBlock (passingBlock drop body) := by
  induction h with
  | nil => rfl
  | cons hstmt _ ih => exact congrArg₂ List.cons hstmt ih

theorem PassesAll.optional {orelse orelse' : Option (List Stmt)} (h : Option.Rel (PassesAll drop) orelse orelse') :
    spanlessOptional orelse' = spanlessOptional (passingOptional drop orelse) := by
  cases h with
  | none => rfl
  | some h => exact congrArg some h.block

/-- A statement without statements inside is the same up to spans. -/
theorem passes_of_spanless {stmt stmt' : Stmt} (h : stmt'.spanless = stmt.spanless)
    (hpassing : stmt.passing drop = stmt) :
    Passes drop stmt stmt' := by
  rw [Passes, hpassing, h]

theorem passes_refused (h : drop span = false) (stmt : RefusedStmt) :
    Passes drop (.refused span stmt) (.refused span' stmt) := by
  refine passes_of_spanless rfl ?_
  rw [Stmt.passing, h]
  rfl

theorem passes_pass (h : drop span = true) (stmt : RefusedStmt) : Passes drop (.refused span stmt) (.pass span') := by
  rw [Passes, Stmt.passing, h]
  rfl

theorem passes_function {name name' : Ident} {ps ps' : List Param} {decorators decorators' : List Expr}
    (hname : name'.name = name.name) (hps : ps'.map Param.spanless = ps.map Param.spanless)
    (hdecorators : decorators'.map Expr.spanless = decorators.map Expr.spanless) (hbody : PassesAll drop body body') :
    Passes drop (.function (.mk span name ps decorators body)) (.function (.mk span' name' ps' decorators' body')) := by
  show Stmt.function (.mk .origin ⟨name'.name, .origin⟩ _ _ (spanlessBlock body')) =
    .function (.mk .origin ⟨name.name, .origin⟩ _ _ (spanlessBlock (passingBlock drop body)))
  rw [hname, hps, hdecorators, hbody.block]

theorem passes_class {name name' : Ident} {bases bases' decorators decorators' : List Expr}
    (hname : name'.name = name.name) (hbases : bases'.map Expr.spanless = bases.map Expr.spanless)
    (hdecorators : decorators'.map Expr.spanless = decorators.map Expr.spanless) (hbody : PassesAll drop body body') :
    Passes drop (.class_ (.mk span name bases decorators body))
      (.class_ (.mk span' name' bases' decorators' body')) := by
  show Stmt.class_ (.mk .origin ⟨name'.name, .origin⟩ _ _ (spanlessBlock body')) =
    .class_ (.mk .origin ⟨name.name, .origin⟩ _ _ (spanlessBlock (passingBlock drop body)))
  rw [hname, hbases, hdecorators, hbody.block]

theorem passes_for {target target' source source' : Expr} {orelse orelse' : Option (List Stmt)}
    (htarget : target'.spanless = target.spanless) (hsource : source'.spanless = source.spanless)
    (hbody : PassesAll drop body body') (horelse : Option.Rel (PassesAll drop) orelse orelse') :
    Passes drop (.for_ span target source body orelse) (.for_ span' target' source' body' orelse') := by
  show Stmt.for_ .origin target'.spanless source'.spanless (spanlessBlock body') (spanlessOptional orelse') =
    .for_ .origin target.spanless source.spanless (spanlessBlock (passingBlock drop body))
      (spanlessOptional (passingOptional drop orelse))
  rw [htarget, hsource, hbody.block, PassesAll.optional horelse]

theorem passes_while {condition condition' : Expr} {orelse orelse' : Option (List Stmt)}
    (hcondition : condition'.spanless = condition.spanless) (hbody : PassesAll drop body body')
    (horelse : Option.Rel (PassesAll drop) orelse orelse') :
    Passes drop (.while_ span condition body orelse) (.while_ span' condition' body' orelse') := by
  show Stmt.while_ .origin condition'.spanless (spanlessBlock body') (spanlessOptional orelse') =
    .while_ .origin condition.spanless (spanlessBlock (passingBlock drop body))
      (spanlessOptional (passingOptional drop orelse))
  rw [hcondition, hbody.block, PassesAll.optional horelse]

theorem passes_chain {condition condition' : Expr} {orelse orelse' : Else}
    (hcondition : condition'.spanless = condition.spanless) (hbody : PassesAll drop body body')
    (horelse : orelse.Passes drop orelse') :
    (IfChain.mk span condition body orelse).Passes drop (.mk span' condition' body' orelse') := by
  show IfChain.mk .origin condition'.spanless (spanlessBlock body') orelse'.spanless =
    .mk .origin condition.spanless (spanlessBlock (passingBlock drop body)) (orelse.passing drop).spanless
  rw [hcondition, hbody.block, horelse]

theorem PassesAll.module {m m' : Module} (h : PassesAll drop m.body m'.body) :
    m'.spanless = (m.passing drop).spanless :=
  congrArg (Module.mk · .origin) h.block

end ViewSync
