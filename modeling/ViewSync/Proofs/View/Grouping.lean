import ViewSync.Proofs.View.Lexemes

/-!
# ViewSync.Proofs.View.Grouping

Where accesses, subscripts and calls end up. They are written behind the text of their base, without parentheses. If
that text is a unary operation or a lambda, then what is behind it belongs to the operand or to the body instead:
`(-x).y` and `-(x.y)` have one text. `Expr.regroup` moves each of them to where it ends up, and it moves none of them
in an expression that is `grouped`.
-/

namespace ViewSync

open Script

namespace Expr

/-! ## behind a text -/

/-- What may be written behind an expression. -/
inductive Suffix where
  | attribute (span : Span) (attr : Ident)
  | subscript (span : Span) (index : Expr)
  | call (span : Span) (args : List Arg)

/-- An expression with something written behind it. -/
def Suffix.apply : Suffix → Expr → Expr
  | .attribute span attr, e => .attribute span e attr
  | .subscript span index, e => .subscript span e index
  | .call span args, e => .call span e args

/-- A unary operation or a lambda whose operand or body has no parentheses. -/
def isOpen : Expr → Bool
  | .unary _ _ operand => operand.front != .sign
  | .lambda _ _ body => body.front != .brace
  | _ => false

/-- What a text becomes when something is written behind it: an operand or a body without parentheses takes it. -/
def under (x : Suffix) : Expr → Expr
  | .unary span op operand =>
    if operand.front == .sign then x.apply (.unary span op operand) else .unary span op (operand.under x)
  | .lambda span ps body =>
    if body.front == .brace then x.apply (.lambda span ps body) else .lambda span ps (body.under x)
  | e => x.apply e

mutual

/-- The tree that the text of an expression shows: accesses, subscripts and calls are where they are read. -/
def regroup : Expr → Expr
  | .list span items => .list span (regroupAll items)
  | .dict span entries => .dict span (regroupEntries entries)
  | .attribute span value attr => value.regroup.under (.attribute span attr)
  | .subscript span value index => value.regroup.under (.subscript span index.regroup)
  | .call span callee args => callee.regroup.under (.call span (regroupArgs args))
  | .binary span left op right => .binary span left.regroup op right.regroup
  | .unary span op operand => .unary span op operand.regroup
  | .compare span left rest => .compare span left.regroup (regroupOperands rest)
  | .ternary span test body orelse => .ternary span test.regroup body.regroup orelse.regroup
  | .lambda span ps body => .lambda span ps body.regroup
  | e => e

/-- Several expressions. -/
def regroupAll : List Expr → List Expr
  | [] => []
  | e :: rest => e.regroup :: regroupAll rest

/-- The entries of a dict. -/
def regroupEntries : List (Expr × Expr) → List (Expr × Expr)
  | [] => []
  | (key, value) :: rest => (key, value.regroup) :: regroupEntries rest

/-- The arguments of a call. -/
def regroupArgs : List Arg → List Arg
  | [] => []
  | .positional value :: rest => .positional value.regroup :: regroupArgs rest
  | .starred value :: rest => .starred value.regroup :: regroupArgs rest
  | a :: rest => a :: regroupArgs rest

/-- The operands of a chain of comparisons. -/
def regroupOperands : List (CompareOp × Expr) → List (CompareOp × Expr)
  | [] => []
  | (op, e) :: rest => (op, e.regroup) :: regroupOperands rest

end

mutual

/-- Nothing is written behind a unary operation or a lambda whose operand or body has no parentheses. -/
def grouped : Expr → Bool
  | .list _ items => allGrouped items
  | .dict _ entries => entriesGrouped entries
  | .attribute _ value _ => !value.isOpen && value.grouped
  | .subscript _ value index => !value.isOpen && value.grouped && index.grouped
  | .call _ callee args => !callee.isOpen && callee.grouped && argsGrouped args
  | .binary _ left _ right => left.grouped && right.grouped
  | .unary _ _ operand => operand.grouped
  | .compare _ left rest => left.grouped && operandsGrouped rest
  | .ternary _ test body orelse => test.grouped && body.grouped && orelse.grouped
  | .lambda _ _ body => body.grouped
  | _ => true

/-- Several expressions. -/
def allGrouped : List Expr → Bool
  | [] => true
  | e :: rest => e.grouped && allGrouped rest

/-- The entries of a dict. -/
def entriesGrouped : List (Expr × Expr) → Bool
  | [] => true
  | (_, value) :: rest => value.grouped && entriesGrouped rest

/-- The arguments of a call. -/
def argsGrouped : List Arg → Bool
  | [] => true
  | .positional value :: rest => value.grouped && argsGrouped rest
  | .starred value :: rest => value.grouped && argsGrouped rest
  | _ :: rest => argsGrouped rest

/-- The operands of a chain of comparisons. -/
def operandsGrouped : List (CompareOp × Expr) → Bool
  | [] => true
  | (_, e) :: rest => e.grouped && operandsGrouped rest

end

/-! ## the start of a text stays -/

@[simp] theorem front_apply (x : Suffix) (e : Expr) : (x.apply e).front = e.front := by
  cases x <;> rfl

/-- Whether an operation starts with a sign is up to its operator. -/
theorem front_unary (span span' : Span) (op : UnaryOp) (e e' : Expr) :
    (Expr.unary span op e).front = (Expr.unary span' op e').front := by
  cases op <;> rfl

@[simp] theorem front_under (x : Suffix) (e : Expr) : (e.under x).front = e.front := by
  match e with
  | .unary span op operand =>
      rw [under]
      split
      · exact front_apply x _
      · exact front_unary ..
  | .lambda span ps body =>
      rw [under]
      split
      · exact front_apply x _
      · rfl
  | .int .. | .float .. | .str .. | .bool .. | .none _ | .list .. | .tuple .. | .dict .. | .name .. | .attribute ..
  | .subscript .. | .slice .. | .call .. | .binary .. | .compare .. | .ternary .. | .comprehension ..
  | .yield .. => exact front_apply x _

@[simp] theorem front_regroup (e : Expr) : e.regroup.front = e.front := by
  match e with
  | .attribute span value attr => rw [regroup, front_under, front_regroup value, front]
  | .subscript span value index => rw [regroup, front_under, front_regroup value, front]
  | .call span callee args => rw [regroup, front_under, front_regroup callee, front]
  | .unary span op operand => exact front_unary ..
  | .int .. | .float .. | .str .. | .bool .. | .none _ | .list .. | .tuple .. | .dict .. | .name .. | .slice ..
  | .binary .. | .compare .. | .ternary .. | .lambda .. | .comprehension .. | .yield .. => rfl

@[simp] theorem front_bare (e : Expr) : e.bare.front = e.front := by
  match e with
  | .attribute span value attr => exact front_bare value
  | .subscript span value index => exact front_bare value
  | .call span callee args => exact front_bare callee
  | .unary span op operand => exact front_unary ..
  | .int .. | .float .. | .str .. | .bool .. | .none _ | .list .. | .tuple .. | .dict .. | .name .. | .slice ..
  | .binary .. | .compare .. | .ternary .. | .lambda .. | .comprehension .. | .yield .. => rfl

@[simp] theorem isOpen_bare (e : Expr) : e.bare.isOpen = e.isOpen := by
  cases e <;> simp [bare, isOpen]

/-! ## the text does not show where it belongs -/

/-- What stands behind the text of a base. A call is left out: that of a class has `new` in front as well. -/
def Suffix.tail? : Suffix → Option String
  | .attribute _ attr => some ("." ++ attr.name)
  | .subscript _ index => some ("[" ++ index.text ++ "]")
  | .call .. => Option.none

theorem text_apply {x : Suffix} {tail : String} (hx : x.tail? = some tail) (e : Expr) :
    (x.apply e).text = e.text ++ tail := by
  match x with
  | .attribute span attr =>
      cases hx
      simp [Suffix.apply, text, Fragment.member, String.append_assoc]
  | .subscript span index =>
      cases hx
      simp [Suffix.apply, text, Fragment.subscript, String.append_assoc]
  | .call span args => cases hx

/-- An access or a subscript has one text behind the whole and behind what it is moved to. -/
theorem text_under {x : Suffix} {tail : String} (hx : x.tail? = some tail) {e : Expr} (h : e.lexical = true)
    (ht : e.translatable = true) : (e.under x).text = e.text ++ tail := by
  match e with
  | .unary span op operand =>
      rw [under]
      split
      · exact text_apply hx _
      · next hsign =>
          have hoperand := written (e := operand) h ht
          have hplain : Fragment.startsWithAny ['-', '+'] operand.text = false := by
            rw [hoperand.startsWithAny.1, Bool.eq_false_iff.2 hsign]
          simp only [text, text_under (e := operand) hx h ht, Fragment.unary, hoperand.startsWithAny_append, hplain]
          simp [String.append_assoc]
  | .lambda span ps body =>
      simp only [lexical, translatable, Bool.and_eq_true] at h ht
      rw [under]
      split
      · exact text_apply hx _
      · next hbrace =>
          have hbody := written h.2 ht.2
          have hplain : Fragment.startsWithAny ['\x7b'] body.text = false := by
            rw [hbody.startsWithAny.2.2, Bool.eq_false_iff.2 hbrace]
          simp only [text, text_under hx h.2 ht.2, Fragment.lambda, hbody.startsWithAny_append, hplain]
          simp [String.append_assoc]
  | .int .. | .float .. | .str .. | .bool .. | .none _ | .list .. | .tuple .. | .dict .. | .name .. | .attribute ..
  | .subscript .. | .slice .. | .call .. | .binary .. | .compare .. | .ternary .. | .comprehension ..
  | .yield .. => exact text_apply hx _

/-! ## what is grouped is not moved -/

theorem under_of_not_isOpen (x : Suffix) {e : Expr} (h : e.isOpen = false) : e.under x = x.apply e := by
  match e with
  | .unary span op operand =>
      have hsign : operand.front = .sign := by simpa [isOpen] using h
      simp [under, hsign]
  | .lambda span ps body =>
      have hbrace : body.front = .brace := by simpa [isOpen] using h
      simp [under, hbrace]
  | .int .. | .float .. | .str .. | .bool .. | .none _ | .list .. | .tuple .. | .dict .. | .name .. | .attribute ..
  | .subscript .. | .slice .. | .call .. | .binary .. | .compare .. | .ternary .. | .comprehension ..
  | .yield .. => rfl

mutual

theorem regroup_of_grouped {e : Expr} (h : e.grouped = true) : e.bare.regroup = e.bare := by
  match e with
  | .list span items => simp [bare, regroup, regroupAll_of_grouped h]
  | .dict span entries => simp [bare, regroup, regroupEntries_of_grouped h]
  | .attribute span value attr =>
      simp only [grouped, Bool.and_eq_true, Bool.not_eq_true'] at h
      rw [bare, regroup, regroup_of_grouped h.2, under_of_not_isOpen _ (by simp [h.1]), Suffix.apply]
  | .subscript span value index =>
      simp only [grouped, Bool.and_eq_true, Bool.not_eq_true'] at h
      rw [bare, regroup, regroup_of_grouped h.1.2, regroup_of_grouped h.2,
        under_of_not_isOpen _ (by simp [h.1.1]), Suffix.apply]
  | .call span callee args =>
      simp only [grouped, Bool.and_eq_true, Bool.not_eq_true'] at h
      rw [bare, regroup, regroup_of_grouped h.1.2, regroupArgs_of_grouped h.2,
        under_of_not_isOpen _ (by simp [h.1.1]), Suffix.apply]
  | .binary span left op right =>
      simp only [grouped, Bool.and_eq_true] at h
      simp [bare, regroup, regroup_of_grouped h.1, regroup_of_grouped h.2]
  | .unary span op operand => simp [bare, regroup, regroup_of_grouped (e := operand) h]
  | .compare span left rest =>
      simp only [grouped, Bool.and_eq_true] at h
      simp [bare, regroup, regroup_of_grouped h.1, regroupOperands_of_grouped h.2]
  | .ternary span test body orelse =>
      simp only [grouped, Bool.and_eq_true] at h
      simp [bare, regroup, regroup_of_grouped h.1.1, regroup_of_grouped h.1.2, regroup_of_grouped h.2]
  | .lambda span ps body => simp [bare, regroup, regroup_of_grouped (e := body) h]
  | .int .. | .float .. | .str .. | .bool .. | .none _ | .name .. => rfl
  | .tuple .. | .slice .. | .comprehension .. | .yield .. => rfl

theorem regroupAll_of_grouped {items : List Expr} (h : allGrouped items = true) :
    regroupAll (bareAll items) = bareAll items := by
  match items with
  | [] => rfl
  | e :: rest =>
      simp only [allGrouped, Bool.and_eq_true] at h
      rw [bareAll, regroupAll, regroup_of_grouped h.1, regroupAll_of_grouped h.2]

theorem regroupEntries_of_grouped {entries : List (Expr × Expr)} (h : entriesGrouped entries = true) :
    regroupEntries (bareEntries entries) = bareEntries entries := by
  match entries with
  | [] => rfl
  | (key, value) :: rest =>
      simp only [entriesGrouped, Bool.and_eq_true] at h
      rw [bareEntries, regroupEntries, regroup_of_grouped h.1, regroupEntries_of_grouped h.2]

theorem regroupArgs_of_grouped {args : List Arg} (h : argsGrouped args = true) :
    regroupArgs (bareArgs args) = bareArgs args := by
  match args with
  | [] => rfl
  | .positional value :: rest =>
      simp only [argsGrouped, Bool.and_eq_true] at h
      rw [bareArgs, regroupArgs, regroup_of_grouped h.1, regroupArgs_of_grouped h.2]
  | .starred value :: rest =>
      simp only [argsGrouped, Bool.and_eq_true] at h
      rw [bareArgs, regroupArgs, regroup_of_grouped h.1, regroupArgs_of_grouped h.2]
  | .keyword .. :: rest =>
      rw [argsGrouped] at h
      · simp [bareArgs, regroupArgs, regroupArgs_of_grouped h]
      all_goals simp
  | .doubleStarred .. :: rest =>
      rw [argsGrouped] at h
      · simp [bareArgs, regroupArgs, regroupArgs_of_grouped h]
      all_goals simp

theorem regroupOperands_of_grouped {rest : List (CompareOp × Expr)} (h : operandsGrouped rest = true) :
    regroupOperands (bareOperands rest) = bareOperands rest := by
  match rest with
  | [] => rfl
  | (op, e) :: rest =>
      simp only [operandsGrouped, Bool.and_eq_true] at h
      rw [bareOperands, regroupOperands, regroup_of_grouped h.1, regroupOperands_of_grouped h.2]

end

end Expr

end ViewSync
