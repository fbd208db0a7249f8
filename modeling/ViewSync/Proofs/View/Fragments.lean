import ViewSync.Proofs.View.Reading

/-!
# ViewSync.Proofs.View.Fragments

Expressions of one text. A text does not always show the tree that it was made from, but it always shows the
regrouped one: `reads` follows the tree, and `regroup_of_same_text` concludes that two expressions with one text
differ at most in where accesses, subscripts and calls behind unary operations and lambdas belong. Where nothing is
written behind those, the text shows the tree itself.
-/

namespace ViewSync

open Script

namespace Reading

/-! ## the first lexemes -/

theorem names?_mark (text : String) (rest : List Script.Lexeme) : names? (mark text :: rest) = none := by
  cases rest <;> simp [names?, mark]

/-- An expression that does not start like nothing special starts with a mark. -/
theorem mark_of_front {e : Expr} (h : e.front ≠ .plain) : ∃ text tail, e.lexemes = mark text :: tail := by
  match e with
  | .unary span op operand => exact ⟨_, _, rfl⟩
  | .dict span entries => exact ⟨_, _, rfl⟩
  | .attribute span value attr =>
      obtain ⟨text, tail, hvalue⟩ := mark_of_front (e := value) h
      rw [Expr.lexemes, hvalue]
      exact ⟨_, _, rfl⟩
  | .subscript span value index =>
      obtain ⟨text, tail, hvalue⟩ := mark_of_front (e := value) h
      rw [Expr.lexemes, hvalue]
      exact ⟨_, _, rfl⟩
  | .call span callee args =>
      obtain ⟨text, tail, hcallee⟩ := mark_of_front (e := callee) h
      have hnew : Lower.constructs callee = false := by
        cases callee <;> first | rfl | exact absurd rfl h
      rw [Expr.lexemes, hnew, hcallee]
      exact ⟨_, _, rfl⟩
  | .int .. | .float .. | .str .. | .bool .. | .none _ | .list .. | .tuple .. | .name .. | .slice .. | .binary ..
  | .compare .. | .ternary .. | .lambda .. | .comprehension .. | .yield .. => exact absurd rfl h

theorem names?_of_front {e : Expr} (h : e.front ≠ .plain) (rest : List Script.Lexeme) :
    names? (e.lexemes ++ rest) = none := by
  obtain ⟨text, tail, hlexemes⟩ := mark_of_front h
  rw [hlexemes, List.cons_append, names?_mark]

/-- The name behind `new` is a word. -/
theorem exists_name_of_constructs {callee : Expr} (h : Lower.constructs callee = true) :
    ∃ span id, callee = .name span id := by
  cases callee with
  | name span id => exact ⟨span, id, rfl⟩
  | _ => cases h

/-- A name alone is not one of several with commas between them. -/
theorem names?_leaf {l : Script.Lexeme} (hl : isAmong [")", ","] l = false) (text : String)
    (rest : List Script.Lexeme) :
    names? ([leaf text] ++ l :: rest) = none := by
  have hne : l ≠ mark ")" ∧ l ≠ mark "," := by simpa [isAmong] using hl
  simp [names?, hne]

/-- An expression starts with names between commas only if it is a name, and if a comma or a parenthesis follows. -/
theorem names?_lexemes {e : Expr} (ht : e.translatable = true) {l : Script.Lexeme}
    (hl : isAmong [")", ","] l = false) (rest : List Script.Lexeme) : names? (e.lexemes ++ l :: rest) = none := by
  match e with
  | .int .. | .float .. | .str .. | .bool .. | .none _ | .name .. => exact names?_leaf hl _ _
  | .list .. | .dict .. | .unary .. | .ternary .. | .lambda .. => exact names?_mark _ _
  | .tuple .. | .slice .. | .comprehension .. | .yield .. => cases ht
  | .attribute span value attr =>
      rw [Expr.lexemes, List.append_assoc]
      exact names?_lexemes (e := value) ht (by decide) _
  | .subscript span value index =>
      simp only [Expr.translatable, Bool.and_eq_true] at ht
      rw [Expr.lexemes, List.append_assoc]
      exact names?_lexemes ht.1 (by decide) _
  | .call span callee args =>
      simp only [Expr.translatable, Bool.and_eq_true] at ht
      rw [Expr.lexemes]
      cases hnew : Lower.constructs callee with
      | false =>
          have hcallee := names?_lexemes ht.1 (l := mark "(") (by decide)
          simpa [parens] using hcallee _
      | true =>
          obtain ⟨calleeSpan, id, rfl⟩ := exists_name_of_constructs hnew
          have hne (text : String) : leaf id ≠ mark text := fun heq => leaf_kind id (by rw [heq]; rfl)
          simp [Expr.lexemes, Expr.text, names?, hne]
  | .binary span left op right =>
      simp only [Expr.translatable, Bool.and_eq_true] at ht
      obtain ⟨symbol, hop⟩ := Option.isSome_iff_exists.1 ((Lower.isSome_binaryOp op).trans ht.2)
      rw [Expr.lexemes, hop]
      exact names?_mark _ _
  | .compare span left [(op, right)] =>
      simp only [Expr.translatable, Bool.and_eq_true] at ht
      obtain ⟨symbol, hop⟩ := Option.isSome_iff_exists.1 ((Lower.isSome_compareOp op).trans ht.2)
      rw [Expr.lexemes, hop]
      exact names?_mark _ _
  | .compare span left [] => cases ht
  | .compare span left (_ :: _ :: _) => cases ht

/-- An expression does not start with a closing bracket or with the mark of an argument. -/
theorem head_lexemes {e : Expr} (ht : e.translatable = true) :
    ∃ l tail, e.lexemes = l :: tail ∧ isAmong [")", "]", "\x7d", "..."] l = false := by
  match e with
  | .int .. | .float .. | .str .. | .bool .. | .none _ | .name .. => exact ⟨_, _, rfl, isAmong_leaf _ _⟩
  | .list .. | .dict .. | .ternary .. | .lambda .. => exact ⟨_, _, rfl, by decide⟩
  | .unary span op operand => exact ⟨_, _, rfl, by cases op <;> decide⟩
  | .tuple .. | .slice .. | .comprehension .. | .yield .. => cases ht
  | .attribute span value attr =>
      obtain ⟨l, tail, hvalue, hl⟩ := head_lexemes (e := value) ht
      rw [Expr.lexemes, hvalue]
      exact ⟨_, _, rfl, hl⟩
  | .subscript span value index =>
      simp only [Expr.translatable, Bool.and_eq_true] at ht
      obtain ⟨l, tail, hvalue, hl⟩ := head_lexemes ht.1
      rw [Expr.lexemes, hvalue]
      exact ⟨_, _, rfl, hl⟩
  | .call span callee args =>
      simp only [Expr.translatable, Bool.and_eq_true] at ht
      obtain ⟨l, tail, hcallee, hl⟩ := head_lexemes ht.1
      rw [Expr.lexemes, hcallee]
      cases Lower.constructs callee with
      | false => exact ⟨_, _, rfl, hl⟩
      | true => exact ⟨_, _, rfl, isAmong_leaf _ _⟩
  | .binary span left op right =>
      simp only [Expr.translatable, Bool.and_eq_true] at ht
      obtain ⟨symbol, hop⟩ := Option.isSome_iff_exists.1 ((Lower.isSome_binaryOp op).trans ht.2)
      rw [Expr.lexemes, hop]
      exact ⟨_, _, rfl, by decide⟩
  | .compare span left [(op, right)] =>
      simp only [Expr.translatable, Bool.and_eq_true] at ht
      obtain ⟨symbol, hop⟩ := Option.isSome_iff_exists.1 ((Lower.isSome_compareOp op).trans ht.2)
      rw [Expr.lexemes, hop]
      exact ⟨_, _, rfl, by decide⟩
  | .compare span left [] => cases ht
  | .compare span left (_ :: _ :: _) => cases ht

theorem opens_lexemes {e : Expr} (ht : e.translatable = true) : Opens e.lexemes := by
  obtain ⟨l, tail, hlexemes, hl⟩ := head_lexemes ht
  exact ⟨l, tail, hlexemes, isAmong_mono (by simp) hl⟩

theorem opens_append {ls : List Script.Lexeme} (h : Opens ls) (more : List Script.Lexeme) : Opens (ls ++ more) := by
  obtain ⟨l, tail, rfl, hl⟩ := h
  exact ⟨l, tail ++ more, rfl, hl⟩

theorem expect_spread {e : Expr} (ht : e.translatable = true) (rest : List Script.Lexeme) :
    expect "..." (e.lexemes ++ rest) = none := by
  obtain ⟨l, tail, hlexemes, hl⟩ := head_lexemes ht
  have hspread : l ≠ mark "..." := by
    rintro rfl
    simp [isAmong] at hl
  simp [hlexemes, expect, hspread]

/-! ## parentheses where they are needed -/

/-- What gets parentheses starts with a mark, so they are no head of a lambda. -/
theorem isCore_of_front {e e' : Expr} (ht : e.translatable = true) (h : Reads e.lexemes e')
    (hfront : e.front ≠ .plain) : IsCore (parens e.lexemes) e' :=
  isCore_parens h (opens_lexemes ht) fun _ => names?_of_front hfront _

/-- The base of a power in parentheses is read like one without. -/
theorem reads_parensIf {e e' : Expr} (ht : e.translatable = true) (h : Reads e.lexemes e') (needed : Bool)
    (hneeded : needed = true → e.front ≠ .plain) : Reads (parensIf needed e.lexemes) e' := by
  cases needed with
  | false => exact h
  | true => exact (isCore_of_front ht h (hneeded rfl)).reads

theorem opens_parensIf {e : Expr} (ht : e.translatable = true) (needed : Bool) :
    Opens (parensIf needed e.lexemes) := by
  cases needed with
  | false => exact opens_lexemes ht
  | true => exact ⟨_, _, rfl, by decide⟩

theorem names?_parensIf {e : Expr} (ht : e.translatable = true) (needed : Bool) {l : Script.Lexeme}
    (hl : isAmong [")", ","] l = false) (rest : List Script.Lexeme) :
    names? (parensIf needed e.lexemes ++ l :: rest) = none := by
  cases needed with
  | false => exact names?_lexemes ht hl rest
  | true => exact names?_mark _ _

/-- The operators are no brackets. -/
theorem not_closing_operator {symbol : String} (h : symbol ∈ "**" :: binaryLevels.flatten) :
    isAmong [")", ","] (mark symbol) = false := by
  have hall : ∀ symbol ∈ "**" :: binaryLevels.flatten, [")", ","].contains symbol = false := by decide
  rw [isAmong_mark]
  exact hall symbol h

/-! ## expressions -/

/-- Both sides of an operator are read as the one tree that it joins. -/
theorem reads_binary {span : Span} {left right l r : Expr} {op : BinaryOp} (ht : left.translatable = true)
    (hop : (Script.BinaryOp.ofSource? op).isSome = true) (h : Reads left.lexemes l) (h' : Reads right.lexemes r) :
    Reads (Expr.binary span left op right).lexemes (.binary .origin l op r) := by
  obtain ⟨symbol, hop⟩ := Option.isSome_iff_exists.1 hop
  rw [Expr.lexemes, hop]
  have hsymbol := mem_operators_binaryOp symbol
  have hneeded : (symbol == .pow && left.front.isUnary) = true → left.front ≠ .plain := by
    intro hneeded hplain
    simp [hplain, Front.isUnary] at hneeded
  exact (isCore_joined (Expr.joined?_binaryOp hop) hsymbol (reads_parensIf ht h _ hneeded) h'
    (opens_append (opens_parensIf ht _) _) (names?_parensIf ht _ (not_closing_operator hsymbol))).reads

theorem reads_compare {span : Span} {left right l r : Expr} {op : CompareOp} (ht : left.translatable = true)
    (hop : (Script.CompareOp.ofSource? op).isSome = true) (h : Reads left.lexemes l) (h' : Reads right.lexemes r) :
    Reads (Expr.compare span left [(op, right)]).lexemes (.compare .origin l [(op, r)]) := by
  obtain ⟨symbol, hop⟩ := Option.isSome_iff_exists.1 hop
  rw [Expr.lexemes, hop]
  have hsymbol := List.mem_cons_of_mem "**" (mem_levels_compareOp symbol)
  exact (isCore_joined (Expr.joined?_compareOp hop) hsymbol h h' (opens_append (opens_lexemes ht) _)
    (names?_lexemes ht (not_closing_operator hsymbol))).reads

/-- A unary operation takes what is behind it, up to the next operator, unless its operand has parentheses. -/
theorem reads_unary {span : Span} {operand : Expr} (op : UnaryOp) (ht : operand.translatable = true)
    (h : Reads operand.lexemes operand.bare.regroup) :
    Reads (Expr.unary span op operand).lexemes (.unary .origin op operand.bare.regroup) := by
  by_cases hsign : operand.front = .sign
  · have hcore := isCore_of_front ht h (by simp [hsign])
    rw [Expr.lexemes, hsign]
    exact hcore.behind (leading?_unary op)
  · have hfront : operand.bare.regroup.front = operand.front := by simp
    rw [Expr.lexemes, beq_false_of_ne hsign]
    exact h.behind (leading?_unary op) (passes_unary op (by rwa [hfront])) fun _ => Expr.front_unary ..

/-- So does a lambda, unless its body has parentheses. -/
theorem reads_lambda {span : Span} {ps : List Param} {body : Expr}
    (hnames : ∀ p ∈ ps, isNameText p.name.name = true) (ht : body.translatable = true)
    (h : Reads body.lexemes body.bare.regroup) :
    Reads (Expr.lambda span ps body).lexemes (Expr.lambda span ps body).bare.regroup := by
  have hlead := leading?_lambda (List.forall_mem_map.2 hnames)
  have htree : (Expr.lambda span ps body).bare.regroup =
      lambdaOf (ps.map fun p => p.name.name) body.bare.regroup := by
    simp [Expr.bare, Expr.regroup, lambdaOf]
  have hlexemes : (Expr.lambda span ps body).lexemes =
      parens (listed ((ps.map fun p => p.name.name).map fun name => [leaf name])) ++ [mark "=>"] ++
        parensIf (body.front == .brace) body.lexemes := by
    simp [Expr.lexemes]
    rfl
  rw [htree, hlexemes]
  by_cases hbrace : body.front = .brace
  · have hcore := isCore_of_front ht h (by simp [hbrace])
    rw [hbrace]
    exact hcore.behind hlead
  · have hfront : body.bare.regroup.front = body.front := by simp
    rw [beq_false_of_ne hbrace]
    exact h.behind hlead (passes_lambda _ (by rwa [hfront])) fun _ => rfl

mutual

/-- The lexemes of an expression are read as its regrouped tree. -/
theorem reads {e : Expr} (h : e.lexical = true) (ht : e.translatable = true) :
    Reads e.lexemes e.bare.regroup := by
  match e with
  | .int span value =>
      exact (isCore_leaf (isLeaf_int (by simpa [Expr.lexical, TokenKind.lexical] using h)).toList_leaf).reads
  | .float span value => exact (isCore_leaf (isLeaf_float h).toList_leaf).reads
  | .str span text => exact (isCore_leaf (isLeaf_string text).toList_leaf).reads
  | .bool span value => exact (isCore_leaf (isLeaf_boolean value).toList_leaf).reads
  | .none span => exact (isCore_leaf isLeaf_null.toList_leaf).reads
  | .name span id => exact (isCore_leaf (IsLeaf.word h).toList_leaf).reads
  | .tuple .. | .slice .. | .comprehension .. | .yield .. => cases ht
  | .list span items => exact (isCore_list (parts_all h ht)).reads
  | .dict span entries => exact (isCore_dict (parts_entries h ht)).reads
  | .attribute span value attr =>
      simp only [Expr.lexical, Expr.translatable, Bool.and_eq_true] at h ht
      exact (reads h.1 ht).extend fun _ _ _ hrest => hrest.attribute (IsLeaf.word h.2).toList_leaf
  | .subscript span value index =>
      simp only [Expr.lexical, Expr.translatable, Bool.and_eq_true] at h ht
      exact (reads h.1 ht.1).extend fun _ _ _ hrest => hrest.subscript (reads h.2 ht.2)
  | .call span callee args =>
      simp only [Expr.lexical, Expr.translatable, Bool.and_eq_true] at h ht
      have hargs := parts_args h.2 ht.2
      rw [Expr.lexemes]
      cases hnew : Lower.constructs callee with
      | false => exact (reads h.1 ht.1).extend fun _ _ _ hrest => hrest.call hargs
      | true =>
          obtain ⟨calleeSpan, id, rfl⟩ := exists_name_of_constructs hnew
          exact (isCore_construct h.1 hargs).reads
  | .binary span left op right =>
      simp only [Expr.lexical, Expr.translatable, Bool.and_eq_true] at h ht
      exact reads_binary ht.1.1 ((Lower.isSome_binaryOp op).trans ht.2) (reads h.1 ht.1.1) (reads h.2 ht.1.2)
  | .unary span op operand => exact reads_unary op ht (reads (e := operand) h ht)
  | .compare span left [(op, right)] =>
      simp only [Expr.lexical, Expr.operandsLexical, Expr.translatable, Bool.and_eq_true, and_true] at h ht
      exact reads_compare ht.1.1 ((Lower.isSome_compareOp op).trans ht.2) (reads h.1 ht.1.1) (reads h.2 ht.1.2)
  | .compare span left [] => cases ht
  | .compare span left (_ :: _ :: _) => cases ht
  | .ternary span test body orelse =>
      simp only [Expr.lexical, Expr.translatable, Bool.and_eq_true] at h ht
      exact (isCore_ternary (reads h.1.1 ht.1.1) (reads h.1.2 ht.1.2) (reads h.2 ht.2)
        (opens_append (opens_lexemes ht.1.1) _) (names?_lexemes ht.1.1 (by decide))).reads
  | .lambda span ps body =>
      simp only [Expr.lexical, Expr.translatable, Bool.and_eq_true, List.all_eq_true] at h ht
      exact reads_lambda h.1 ht.2 (reads h.2 ht.2)

theorem parts_all {items : List Expr} (h : Expr.allLexical items = true) (ht : Expr.allTranslatable items = true) :
    List.Forall₂ (IsPart fun n => operand n id) (Expr.lexemesAll items) (Expr.regroupAll (Expr.bareAll items)) := by
  match items with
  | [] => exact .nil
  | e :: rest =>
      simp only [Expr.allLexical, Expr.allTranslatable, Bool.and_eq_true] at h ht
      exact .cons ((reads h.1 ht.1).isPart (opens_lexemes ht.1)) (parts_all h.2 ht.2)

theorem parts_entries {entries : List (Expr × Expr)} (h : Expr.entriesLexical entries = true)
    (ht : Expr.entriesTranslatable entries = true) :
    List.Forall₂ (IsPart fun n => entry (operand n id)) (Expr.lexemesEntries entries)
      (Expr.regroupEntries (Expr.bareEntries entries)) := by
  match entries with
  | [] => exact .nil
  | (key, value) :: rest =>
      simp only [Expr.entriesLexical, Expr.entriesTranslatable, Bool.and_eq_true] at h ht
      have hkey := (isLeaf_key ht.1.1 h.1.1).toList_leaf
      have hvalue := reads h.1.2 ht.1.2
      have hlexemes : key.lexemes = [leaf key.text] ∧ key.bare = .name .origin key.text := by
        cases key with
        | int | float | str => exact ⟨rfl, rfl⟩
        | _ => cases ht.1.1
      rw [Expr.lexemesEntries, Expr.bareEntries, Expr.regroupEntries, hlexemes.1, hlexemes.2]
      exact .cons (hvalue.entry hkey) (parts_entries h.2 ht.2)

theorem parts_args {args : List Arg} (h : Expr.argsLexical args = true) (ht : Expr.argsTranslatable args = true) :
    List.Forall₂ (IsPart fun n => argument (operand n id)) (Expr.lexemesArgs args)
      (Expr.regroupArgs (Expr.bareArgs args)) := by
  match args with
  | [] => exact .nil
  | .positional value :: rest =>
      simp only [Expr.argsLexical, Expr.argsTranslatable, Bool.and_eq_true] at h ht
      have hvalue := reads h.1 ht.1
      exact .cons (hvalue.argument (opens_lexemes ht.1) (expect_spread ht.1)) (parts_args h.2 ht.2)
  | .starred value :: rest =>
      simp only [Expr.argsLexical, Expr.argsTranslatable, Bool.and_eq_true] at h ht
      exact .cons (reads h.1 ht.1).starred (parts_args h.2 ht.2)
  | .keyword .. :: rest => cases ht
  | .doubleStarred .. :: rest => cases ht

end

end Reading

/-- Two expressions with one text are the same tree once accesses, subscripts and calls are where the text shows
them. If none of them is behind a unary operation or a lambda, then the trees are the same as they are. Expressions
that are read from a source are `lexical` (`Parser.lexical_of_expressionAt`). -/
theorem regroup_of_same_text {ds ds' : Scope.Declarations} {e e' : Expr} {s s' : Script.Expr}
    (h : e.lexical = true) (h' : e'.lexical = true) (hs : Lower.expr ⟨.empty, ds⟩ e = .ok s)
    (hs' : Lower.expr ⟨.empty, ds'⟩ e' = .ok s') (hsame : s.render = s'.render) :
    e.bare.regroup = e'.bare.regroup ∧ (e.grouped = true → e'.grouped = true → e.bare = e'.bare) := by
  have ht := Lower.translatable_of_lower hs
  have ht' := Lower.translatable_of_lower hs'
  have hlexemes : e.lexemes = e'.lexemes := by
    have hread := lexemes_text h ht
    rw [← Lower.render_of_lower hs, hsame, Lower.render_of_lower hs', lexemes_text h' ht'] at hread
    exact (Option.some.inj hread).symm
  have hregroup : e.bare.regroup = e'.bare.regroup := by
    obtain ⟨bound, hread⟩ := Reading.reads h ht id [] [] [] (Reading.passes_id _) Reading.follows_nil
    obtain ⟨bound', hread'⟩ := Reading.reads h' ht' id [] [] [] (Reading.passes_id _) Reading.follows_nil
    have hboth := hread (bound + bound') (by omega)
    rw [hlexemes, hread' (bound + bound') (by omega)] at hboth
    simpa [Reading.extend] using hboth.symm
  refine ⟨hregroup, fun hgrouped hgrouped' => ?_⟩
  rw [← Expr.regroup_of_grouped hgrouped, hregroup, Expr.regroup_of_grouped hgrouped']

/-- `(-x).y`. -/
def Sample.accessOfNegated : Expr :=
  let at_ (col : Nat) : Span := .ofNumbers 1 col 1 col
  .attribute (at_ 1) (.unary (at_ 2) .neg (.name (at_ 3) "x")) ⟨"y", at_ 6⟩

/-- `-x.y`. -/
def Sample.negatedAccess : Expr :=
  let at_ (col : Nat) : Span := .ofNumbers 1 col 1 col
  .unary (at_ 1) .neg (.attribute (at_ 2) (.name (at_ 2) "x") ⟨"y", at_ 4⟩)

/-- Two trees with one text: the access belongs to the operation in one of them, and to its operand in the other. -/
theorem accessOfNegated_same_text :
    Sample.accessOfNegated.bare ≠ Sample.negatedAccess.bare ∧ Sample.accessOfNegated.grouped = false ∧
      ∃ s s', Lower.expr ⟨.empty, .empty⟩ Sample.accessOfNegated = .ok s ∧
        Lower.expr ⟨.empty, .empty⟩ Sample.negatedAccess = .ok s' ∧ s.render = "-x.y" ∧ s'.render = "-x.y" ∧
        Sample.accessOfNegated.bare.regroup = Sample.negatedAccess.bare.regroup := by
  have h : Sample.accessOfNegated.lexical = true := by decide
  have h' : Sample.negatedAccess.lexical = true := by decide
  obtain ⟨s, hs, htext⟩ : ∃ s, Lower.expr ⟨.empty, .empty⟩ Sample.accessOfNegated = .ok s ∧ s.render = "-x.y" :=
    ⟨_, rfl, by decide⟩
  obtain ⟨s', hs', htext'⟩ : ∃ s, Lower.expr ⟨.empty, .empty⟩ Sample.negatedAccess = .ok s ∧ s.render = "-x.y" :=
    ⟨_, rfl, by decide⟩
  have hregroup := (regroup_of_same_text h h' hs hs' (htext.trans htext'.symm)).1
  exact ⟨nofun, rfl, s, s', hs, hs', htext, htext', hregroup⟩

end ViewSync
