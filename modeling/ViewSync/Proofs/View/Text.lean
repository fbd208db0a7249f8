import ViewSync.Proofs.View.Subset
import ViewSync.Script.Render

/-!
# ViewSync.Proofs.View.Text

The text of an expression, without the script in between: `Expr.text` puts pieces of text together as the tree has
them, and `render_of_lower` says that this is what an expression is compiled to when no name is replaced. What is
left of a tree in its text is `Expr.bare`: no spans, and of a leaf only how it is written.
-/

namespace ViewSync

namespace Expr

mutual

/-- The text that an expression is compiled to where no name is replaced. What is refused has none. -/
def text : Expr → String
  | .int _ value => Script.Fragment.int value
  | .float _ value => Script.Fragment.float value
  | .str _ value => Script.Fragment.string value
  | .bool _ value => Script.Fragment.boolean value
  | .none _ => Script.Fragment.null
  | .name _ id => id
  | .list _ items => Script.Fragment.list (texts items)
  | .dict _ entries => Script.Fragment.dict (entryTexts entries)
  | .attribute _ value attr => Script.Fragment.member value.text attr.name
  | .subscript _ value index => Script.Fragment.subscript value.text index.text
  | .call _ callee args =>
    if Lower.constructs callee then Script.Fragment.construct callee.text (argTexts args)
    else Script.Fragment.call callee.text (argTexts args)
  | .binary _ left op right =>
    match Script.BinaryOp.ofSource? op with
    | some op => Script.Fragment.binary left.text op right.text
    | Option.none => ""
  | .unary _ op operand => Script.Fragment.unary op operand.text
  | .compare _ left [(op, right)] =>
    match Script.CompareOp.ofSource? op with
    | some op => Script.Fragment.compare left.text op right.text
    | Option.none => ""
  | .ternary _ test body orelse => Script.Fragment.ternary test.text body.text orelse.text
  | .lambda _ ps body => Script.Fragment.lambda (ps.map fun p => p.name.name) body.text
  | _ => ""

/-- The texts of several expressions. -/
def texts : List Expr → List String
  | [] => []
  | e :: rest => e.text :: texts rest

/-- The texts of the entries of a dict. -/
def entryTexts : List (Expr × Expr) → List (String × String)
  | [] => []
  | (key, value) :: rest => (key.text, value.text) :: entryTexts rest

/-- The texts of the arguments of a call. -/
def argTexts : List Arg → List String
  | [] => []
  | .positional value :: rest => value.text :: argTexts rest
  | .starred value :: rest => Script.Fragment.spread value.text :: argTexts rest
  | _ :: rest => argTexts rest

end

/-! ## trees up to the texts of their leaves -/

mutual

/-- A tree without its spans, whose leaves are only texts. What is refused stays as it is. -/
def bare : Expr → Expr
  | .int _ value => .name .origin (Script.Fragment.int value)
  | .float _ value => .name .origin (Script.Fragment.float value)
  | .str _ value => .name .origin (Script.Fragment.string value)
  | .bool _ value => .name .origin (Script.Fragment.boolean value)
  | .none _ => .name .origin Script.Fragment.null
  | .name _ id => .name .origin id
  | .list _ items => .list .origin (bareAll items)
  | .dict _ entries => .dict .origin (bareEntries entries)
  | .attribute _ value attr => .attribute .origin value.bare ⟨attr.name, .origin⟩
  | .subscript _ value index => .subscript .origin value.bare index.bare
  | .call _ callee args => .call .origin callee.bare (bareArgs args)
  | .binary _ left op right => .binary .origin left.bare op right.bare
  | .unary _ op operand => .unary .origin op operand.bare
  | .compare _ left rest => .compare .origin left.bare (bareOperands rest)
  | .ternary _ test body orelse => .ternary .origin test.bare body.bare orelse.bare
  | .lambda _ ps body =>
    .lambda .origin (ps.map fun p => .mk ⟨p.name.name, .origin⟩ Option.none .origin) body.bare
  | e => e

/-- Several expressions. -/
def bareAll : List Expr → List Expr
  | [] => []
  | e :: rest => e.bare :: bareAll rest

/-- The entries of a dict. -/
def bareEntries : List (Expr × Expr) → List (Expr × Expr)
  | [] => []
  | (key, value) :: rest => (key.bare, value.bare) :: bareEntries rest

/-- The arguments of a call. -/
def bareArgs : List Arg → List Arg
  | [] => []
  | .positional value :: rest => .positional value.bare :: bareArgs rest
  | .starred value :: rest => .starred value.bare :: bareArgs rest
  | a :: rest => a :: bareArgs rest

/-- The operands of a chain of comparisons. -/
def bareOperands : List (CompareOp × Expr) → List (CompareOp × Expr)
  | [] => []
  | (op, e) :: rest => (op, e.bare) :: bareOperands rest

end

/-! ## operators by the way they are written -/

/-- The binary operation or comparison that an operator of scripts stands for. -/
def joined? (symbol : List Char) : Option (Expr → Expr → Expr) :=
  match BinaryOp.all.find? fun op => (Script.BinaryOp.ofSource? op).any (·.symbol.toList == symbol) with
  | some op => some fun left right => .binary .origin left op right
  | Option.none =>
    (CompareOp.all.find? fun op => (Script.CompareOp.ofSource? op).any (·.symbol.toList == symbol)).map
      fun op left right => .compare .origin left [(op, right)]

/-- The unary operation that an operator of scripts stands for. -/
def prefixed? (symbol : List Char) : Option (Expr → Expr) :=
  ([UnaryOp.neg, .pos, .not, .invert].find? fun op => (Script.unarySymbol op).toList == symbol).map
    fun op operand => .unary .origin op operand

theorem joined?_binaryOp {op : BinaryOp} {symbol : Script.BinaryOp} (h : Script.BinaryOp.ofSource? op = some symbol) :
    joined? symbol.symbol.toList = some fun left right => .binary .origin left op right := by
  cases op <;> cases h <;> rfl

/-- Comparisons share no operator with binary operations. -/
theorem joined?_compareOp {op : CompareOp} {symbol : Script.CompareOp}
    (h : Script.CompareOp.ofSource? op = some symbol) :
    joined? symbol.symbol.toList = some fun left right => .compare .origin left [(op, right)] := by
  cases op <;> cases h <;> rfl

theorem prefixed?_unaryOp (op : UnaryOp) :
    prefixed? (Script.unarySymbol op).toList = some fun operand => .unary .origin op operand := by
  cases op <;> rfl

end Expr

/-! ## the text of what is lowered -/

namespace Lower

/-- Without replacements a name is written as it is. -/
theorem identifier_empty (name : String) : Replacements.empty.identifier name = name := rfl

variable {ds : Scope.Declarations}

mutual

/-- What an expression is compiled to. -/
theorem render_of_lower {e : Expr} {s : Script.Expr} (h : expr ⟨.empty, ds⟩ e = .ok s) : s.render = e.text := by
  match e with
  | .int .. | .float .. | .str .. | .bool .. | .none .. | .name .. =>
      cases h
      rfl
  | .tuple .. | .slice .. | .comprehension .. | .yield .. => cases h
  | .list span items =>
      obtain ⟨scripts, hitems, rfl⟩ := list_ok h
      rw [Script.Expr.render, Expr.text, renderAll_of_lower hitems]
  | .dict span items =>
      obtain ⟨scripts, hitems, rfl⟩ := dict_ok h
      rw [Script.Expr.render, Expr.text, renderEntries_of_lower hitems]
  | .attribute span value attr =>
      obtain ⟨v, hvalue, rfl⟩ := attribute_ok h
      rw [Script.Expr.render, Expr.text, render_of_lower hvalue]
  | .subscript span value index =>
      obtain ⟨v, i, hvalue, hindex, rfl⟩ := subscript_ok h
      rw [Script.Expr.render, Expr.text, render_of_lower hvalue, render_of_lower hindex]
  | .call span callee items =>
      obtain ⟨target, scripts, hcallee, hitems, rfl⟩ := call_ok h
      rw [Expr.text, ← render_of_lower hcallee, ← renderAll_of_args hitems]
      split <;> rw [Script.Expr.render]
  | .binary span left op right =>
      obtain ⟨l, r, symbol, hleft, hright, hop, rfl⟩ := binary_ok h
      simp only [Expr.text, hop, Script.Expr.render, render_of_lower hleft, render_of_lower hright]
  | .unary span op operand =>
      obtain ⟨o, hoperand, rfl⟩ := unary_ok h
      rw [Script.Expr.render, Expr.text, render_of_lower hoperand]
  | .compare span left rest =>
      obtain ⟨op, right, l, r, symbol, rfl, hleft, hright, hop, rfl⟩ := compare_ok h
      simp only [Expr.text, hop, Script.Expr.render, render_of_lower hleft, render_of_lower hright]
  | .ternary span test body orelse =>
      obtain ⟨t, b, o, htest, hbody, horelse, rfl⟩ := ternary_ok h
      rw [Script.Expr.render, Expr.text, render_of_lower htest, render_of_lower hbody, render_of_lower horelse]
  | .lambda span ps body =>
      obtain ⟨names, b, hnames, hbody, rfl⟩ := lambda_ok h
      rw [Script.Expr.render, Expr.text, render_of_lower hbody, params_ok hnames]
      simp only [identifier_empty]

theorem renderAll_of_lower {items : List Expr} {scripts : List Script.Expr}
    (h : exprs ⟨.empty, ds⟩ items = .ok scripts) : Script.Expr.renderAll scripts = Expr.texts items := by
  match items with
  | [] =>
      cases h
      rfl
  | e :: rest =>
      obtain ⟨first, others, he, hrest, rfl⟩ := exprs_cons_ok h
      rw [Script.Expr.renderAll, Expr.texts, render_of_lower he, renderAll_of_lower hrest]

theorem renderEntries_of_lower {items : List (Expr × Expr)} {scripts : List (Script.Expr × Script.Expr)}
    (h : entries ⟨.empty, ds⟩ items = .ok scripts) :
    Script.Expr.renderEntries scripts = Expr.entryTexts items := by
  match items with
  | [] =>
      cases h
      rfl
  | (key, value) :: rest =>
      obtain ⟨k, v, others, hkey, hvalue, hrest, rfl⟩ := entries_cons_ok h
      rw [Script.Expr.renderEntries, Expr.entryTexts, render_of_lower hkey, render_of_lower hvalue,
        renderEntries_of_lower hrest]

theorem renderAll_of_args {items : List Arg} {scripts : List Script.Expr}
    (h : args ⟨.empty, ds⟩ items = .ok scripts) : Script.Expr.renderAll scripts = Expr.argTexts items := by
  match items with
  | [] =>
      cases h
      rfl
  | .positional value :: rest =>
      obtain ⟨first, others, hvalue, hrest, rfl⟩ := args_positional_ok h
      rw [Script.Expr.renderAll, Expr.argTexts, render_of_lower hvalue, renderAll_of_args hrest]
  | .starred value :: rest =>
      obtain ⟨first, others, hvalue, hrest, rfl⟩ := args_starred_ok h
      rw [Script.Expr.renderAll, Script.Expr.render, Expr.argTexts, render_of_lower hvalue,
        renderAll_of_args hrest]
  | .keyword .. :: rest => cases h
  | .doubleStarred .. :: rest => cases h

end

/-- An expression all of whose nodes are translated is compiled to its text. -/
theorem lower_of_translatable (ds : Scope.Declarations) {e : Expr} (h : e.translatable = true) :
    ∃ s, expr ⟨.empty, ds⟩ e = .ok s ∧ s.render = e.text := by
  obtain ⟨s, hs⟩ := isOk_iff.1 ((isOk_expr ⟨.empty, ds⟩ e).trans h)
  exact ⟨s, hs, render_of_lower hs⟩

/-- An expression that is compiled has only nodes that are translated. -/
theorem translatable_of_lower {e : Expr} {s : Script.Expr} (h : expr ⟨.empty, ds⟩ e = .ok s) :
    e.translatable = true := by
  rw [← isOk_expr ⟨.empty, ds⟩ e, h]
  rfl

end Lower

end ViewSync
