import ViewSync.Proofs.Script.Pieces

/-!
# ViewSync.Proofs.Script.Operators

Operators as JavaScript reads them. `readOperation` follows the grammar of expressions: a conditional binds most
loosely, below it stand the binary operators level by level, then the power with its restricted base, then the
unary operators, then leaves and parentheses. Names that are reserved are no leaves.

`ReadsAs` says that lexemes are read as one operand, whatever follows them. Each way of writing an operation has a
lemma that says so of the whole from its operands.
-/

namespace ViewSync.Script

/-! ## the grammar -/

/-- What an expression of operators is made of. -/
inductive Operation where
  | leaf (text : List Char)
  | unary (op : List Char) (operand : Operation)
  | binary (left : Operation) (op : List Char) (right : Operation)
  | ternary (test body orelse : Operation)
deriving DecidableEq, Repr

/-- The words that are never names. -/
def reservedWords : List String :=
  ["await", "break", "case", "catch", "class", "const", "continue", "debugger", "default", "delete", "do", "else",
   "enum", "export", "extends", "false", "finally", "for", "function", "if", "import", "in", "instanceof", "new",
   "null", "return", "super", "switch", "this", "throw", "true", "try", "typeof", "var", "void", "while", "with",
   "yield"]

/-- The reserved words that are expressions by themselves. -/
def literalWords : List String :=
  ["true", "false", "null", "this"]

/-- The leaf that a lexeme is, if it is one. A number has no zeros in front. -/
def leafOperation? (l : Lexeme) : Option Operation :=
  match l.kind with
  | .word =>
    let word := String.ofList l.text
    if reservedWords.contains word && !literalWords.contains word then none else some (.leaf l.text)
  | .number =>
    match l.text with
    | '0' :: c :: _ => if c.isDigit then none else some (.leaf l.text)
    | _ => some (.leaf l.text)
  | .string => some (.leaf l.text)
  | .mark => none

/-- The unary operators among the marks. -/
def unaryMarks : List String := ["-", "+", "!", "~"]

/-- The binary operators, the loosest ones in front. Those of one level go together from the left. The power and
`??`, which does not mix with others, are not among them. -/
def binaryLevels : List (List String) :=
  [["||"], ["&&"], ["|"], ["^"], ["&"], ["===", "!==", "==", "!="], ["<", ">", "<=", ">="], ["<<", ">>", ">>>"],
   ["+", "-"], ["*", "/", "%"]]

/-- The operators of scripts are those of the grammar. -/
theorem mem_levels_binaryOp {op : BinaryOp} (h : op ≠ .pow) : op.symbol ∈ binaryLevels.flatten := by
  cases op <;> first | exact absurd rfl h | decide

theorem mem_levels_compareOp (op : CompareOp) : op.symbol ∈ binaryLevels.flatten := by
  cases op <;> decide

theorem mem_operators_binaryOp (op : BinaryOp) : op.symbol ∈ "**" :: binaryLevels.flatten := by
  cases op <;> decide

/-- Whether a lexeme is one of some marks. -/
def isAmong (texts : List String) (l : Lexeme) : Bool :=
  (texts.map mark).contains l

/-- What is behind a mark that has to come next. -/
def expect (text : String) : List Lexeme → Option (List Lexeme)
  | [] => none
  | l :: rest => if l = mark text then some rest else none

/-- Takes an operation from the start of some lexemes, and leaves the rest. -/
abbrev OperationReader := List Lexeme → Option (Operation × List Lexeme)

/-- A leaf, or an expression in parentheses. -/
def primary (inner : OperationReader) : OperationReader
  | [] => none
  | l :: rest =>
    if l = mark "(" then do
      let (tree, rest) ← inner rest
      return (tree, ← expect ")" rest)
    else (leafOperation? l).map fun tree => (tree, rest)

/-- Unary operators in front of an operand. -/
def unary (inner : OperationReader) : OperationReader
  | [] => none
  | l :: rest =>
    if isAmong unaryMarks l then do
      let (operand, rest) ← unary inner rest
      return (.unary l.text operand, rest)
    else primary inner (l :: rest)

/-- Powers go together from the right, and the base must not be a unary operation. -/
def power (inner : OperationReader) : Nat → OperationReader
  | 0, _ => none
  | n + 1, ls => do
    let (base, rest) ← unary inner ls
    match expect "**" rest with
    | none => return (base, rest)
    | some rest =>
      if ls.head?.any (isAmong unaryMarks) then none
      else do
        let (exponent, rest) ← power inner n rest
        return (.binary base ['*', '*'] exponent, rest)

/-- Operators of one level behind an operand. -/
def chain (ops : List String) (next : OperationReader) : Nat → Operation → OperationReader
  | 0, _, _ => none
  | _ + 1, left, [] => some (left, [])
  | n + 1, left, l :: rest =>
    if isAmong ops l then do
      let (right, rest) ← next rest
      chain ops next n (.binary left l.text right) rest
    else some (left, l :: rest)

/-- Operands of one level. -/
def level (n : Nat) (ops : List String) (next : OperationReader) : OperationReader := fun ls => do
  let (left, rest) ← next ls
  chain ops next n left rest

/-- Binary operators of all levels. -/
def binary (inner : OperationReader) (n : Nat) (levels : List (List String)) : OperationReader :=
  levels.foldr (level n) (power inner n)

/-- A conditional, or what may stand in front of it. -/
def conditional (inner : OperationReader) (n : Nat) : OperationReader := fun ls => do
  let (test, rest) ← binary inner n binaryLevels ls
  match expect "?" rest with
  | none => return (test, rest)
  | some rest =>
    let (body, rest) ← inner rest
    let (orelse, rest) ← inner (← expect ":" rest)
    return (.ternary test body orelse, rest)

/-- An expression. The number bounds how deep parentheses and conditionals go, and how many operators there are. -/
def expression : Nat → OperationReader
  | 0 => fun _ => none
  | n + 1 => conditional (expression n) (n + 1)

/-- The operation that a text is, if all of it is one. -/
def readOperation (text : String) : Option Operation := do
  let ls ← lexemes text.toList
  let (tree, rest) ← expression (ls.length + 1) ls
  if rest.isEmpty then some tree else none

/-- Operators that bind tighter are read first, and the base of a power must not have a sign. -/
example :
    readOperation "a + b * -c" =
        some (.binary (.leaf ['a']) ['+'] (.binary (.leaf ['b']) ['*'] (.unary ['-'] (.leaf ['c'])))) ∧
      readOperation "(-x ** 2)" = none := by
  constructor <;> cbv

/-! ## what is read where -/

/-- Lexemes are read as an operand, whatever follows them, if there is a step for each of them. -/
def ReadsAs (ls : List Lexeme) (tree : Operation) : Prop :=
  ∀ n rest, ls.length ≤ n → unary (expression n) (ls ++ rest) = some (tree, rest)

/-- What ends an expression: nothing, a closing parenthesis or a colon. -/
def closes : List Lexeme → Bool
  | [] => true
  | l :: _ => isAmong [")", ":"] l

theorem mark_inj {text other : String} : mark text = mark other ↔ text = other := by
  simp [mark, String.toList_inj]

theorem isAmong_mark (texts : List String) (text : String) : isAmong texts (mark text) = texts.contains text := by
  simp [isAmong, mark_inj]

theorem isAmong_leaf (texts : List String) (text : String) : isAmong texts (leaf text) = false := by
  simp only [isAmong, List.contains_eq_mem, decide_eq_false_iff_not, List.mem_map, not_exists, not_and]
  intro mark _ heq
  exact leaf_kind text (by rw [← heq]; rfl)

@[simp] theorem expect_mark (text : String) (rest : List Lexeme) : expect text (mark text :: rest) = some rest := by
  simp [expect]

/-- The marks that go on an expression. -/
def goOn : List String := "?" :: "**" :: binaryLevels.flatten

/-- No operator follows an expression that ends. -/
theorem not_goOn_of_closes {rest : List Lexeme} (h : closes rest = true) {l : Lexeme} (hl : l ∈ rest.head?) :
    isAmong goOn l = false := by
  cases rest with
  | nil => cases hl
  | cons r rest =>
      obtain rfl : r = l := by simpa using hl
      have hmark : r = mark ")" ∨ r = mark ":" := by simpa [closes, isAmong] using h
      obtain rfl | rfl := hmark <;> decide

theorem isAmong_mono {texts more : List String} (h : texts ⊆ more) {l : Lexeme} (hl : isAmong more l = false) :
    isAmong texts l = false := by
  simp only [isAmong, List.contains_eq_mem, decide_eq_false_iff_not, List.mem_map, not_exists, not_and] at hl ⊢
  exact fun text htext => hl text (h htext)

theorem expect_none {text : String} {rest : List Lexeme} (h : ∀ l ∈ rest.head?, isAmong [text] l = false) :
    expect text rest = none := by
  cases rest with
  | nil => rfl
  | cons l rest =>
      have hl : l ≠ mark text := by simpa [isAmong] using h l rfl
      simp [expect, hl]

section

variable {inner : OperationReader} {n : Nat} {ls rest : List Lexeme} {tree : Operation}

/-- A level without an operator of its own. -/
theorem level_of_next {ops : List String} {next : OperationReader} (h : next ls = some (tree, rest))
    (hrest : ∀ l ∈ rest.head?, isAmong ops l = false) : level (n + 1) ops next ls = some (tree, rest) := by
  cases rest with
  | nil => simp [level, h, chain]
  | cons l rest => simp [level, h, chain, hrest l rfl]

/-- An operand in front of something that is no binary operator. -/
theorem binary_of_power {levels : List (List String)} (h : power inner (n + 1) ls = some (tree, rest))
    (hrest : ∀ l ∈ rest.head?, isAmong levels.flatten l = false) :
    binary inner (n + 1) levels ls = some (tree, rest) := by
  induction levels with
  | nil => exact h
  | cons ops levels ih =>
      rw [binary, List.foldr_cons]
      refine level_of_next (ih fun l hl => ?_) fun l hl => ?_
      · exact isAmong_mono (by simp) (hrest l hl)
      · exact isAmong_mono (by simp) (hrest l hl)

/-- Two operands with an operator between them: the levels below the one of the operator stop in front of it, those
above stop behind the operation. -/
theorem binary_of_operator {levels : List (List String)} (hnodup : levels.flatten.Nodup) {symbol : String}
    (hsymbol : symbol ∈ levels.flatten) {ls' : List Lexeme} {left right : Operation}
    (hleft : power inner (n + 2) ls = some (left, mark symbol :: ls'))
    (hright : power inner (n + 2) ls' = some (right, rest))
    (hrest : ∀ l ∈ rest.head?, isAmong levels.flatten l = false) :
    binary inner (n + 2) levels ls = some (.binary left symbol.toList right, rest) := by
  induction levels with
  | nil => cases hsymbol
  | cons ops levels ih =>
      rw [List.flatten_cons, List.nodup_append] at hnodup
      obtain ⟨-, hlevels, hdisjoint⟩ := hnodup
      have hbelow : ∀ l ∈ rest.head?, isAmong levels.flatten l = false :=
        fun l hl => isAmong_mono (by simp) (hrest l hl)
      have hhere : ∀ l ∈ rest.head?, isAmong ops l = false := fun l hl => isAmong_mono (by simp) (hrest l hl)
      rw [List.flatten_cons, List.mem_append] at hsymbol
      obtain hops | hsymbol := hsymbol
      · have hskip : ∀ l ∈ (mark symbol :: ls').head?, isAmong levels.flatten l = false := by
          intro l hl
          obtain rfl : mark symbol = l := by simpa using hl
          simp only [isAmong_mark, List.contains_eq_mem, decide_eq_false_iff_not]
          exact fun hlower => hdisjoint symbol hops symbol hlower rfl
        have hfirst : binary inner (n + 2) levels ls = some (left, mark symbol :: ls') := binary_of_power hleft hskip
        have hsecond : binary inner (n + 2) levels ls' = some (right, rest) := binary_of_power hright hbelow
        have hamong : isAmong ops (mark symbol) = true := by simpa [isAmong_mark] using hops
        have hstop : chain ops (binary inner (n + 2) levels) (n + 1) (.binary left symbol.toList right) rest =
            some (.binary left symbol.toList right, rest) := by
          cases rest with
          | nil => rfl
          | cons l rest => simp [chain, hhere l rfl]
        rw [binary, List.foldr_cons, ← binary, level, hfirst]
        simp only [Option.bind_eq_bind, Option.bind_some, chain, hamong, if_true, hsecond]
        exact hstop
      · rw [binary, List.foldr_cons, ← binary]
        exact level_of_next (ih hlevels hsymbol hbelow) hhere

/-- What is no conditional. -/
theorem expression_of_binary (h : binary (expression n) (n + 1) binaryLevels ls = some (tree, rest))
    (hrest : closes rest = true) : expression (n + 1) ls = some (tree, rest) := by
  have hquestion : expect "?" rest = none :=
    expect_none fun l hl => isAmong_mono (by simp [goOn]) (not_goOn_of_closes hrest hl)
  simp [expression, conditional, h, hquestion]

end

/-- What is an expression in front of a closing parenthesis is an operand in parentheses. -/
theorem readsAs_parens {ls : List Lexeme} {tree : Operation}
    (h : ∀ n rest, ls.length ≤ n →
      expression (n + 1) (ls ++ mark ")" :: rest) = some (tree, mark ")" :: rest)) : ReadsAs (parens ls) tree := by
  intro n rest hn
  obtain ⟨m, rfl⟩ : ∃ m, n = m + 1 := ⟨n - 1, by simp [parens] at hn; omega⟩
  have hread := h m rest (by simp [parens] at hn; omega)
  have hopen : isAmong unaryMarks (mark "(") = false := by decide
  simp [parens, unary, hopen, primary, hread]

namespace ReadsAs

variable {ls ls' ls'' : List Lexeme} {tree tree' tree'' : Operation}

theorem power (h : ReadsAs ls tree) (n m : Nat) (rest : List Lexeme) (hn : ls.length ≤ n)
    (hrest : ∀ l ∈ rest.head?, isAmong ["**"] l = false) :
    power (expression n) (m + 1) (ls ++ rest) = some (tree, rest) := by
  simp [Script.power, h n rest hn, expect_none hrest]

/-- An operand is an expression, where it ends. -/
theorem expression (h : ReadsAs ls tree) (n : Nat) (rest : List Lexeme) (hn : ls.length ≤ n)
    (hrest : closes rest = true) :
    expression (n + 1) (ls ++ rest) = some (tree, rest) := by
  refine expression_of_binary (binary_of_power (h.power n n rest hn fun l hl => ?_) fun l hl => ?_) hrest
  · exact isAmong_mono (by simp [goOn]) (not_goOn_of_closes hrest hl)
  · exact isAmong_mono (by simp [goOn]) (not_goOn_of_closes hrest hl)

theorem leaf {l : Lexeme} (h : leafOperation? l = some tree) : ReadsAs [l] tree := by
  intro n rest _
  have hkind : l.kind ≠ .mark := by
    intro hkind
    simp [leafOperation?, hkind] at h
  have hmark (text : String) : l ≠ mark text := by
    rintro rfl
    exact hkind rfl
  have hunary : isAmong unaryMarks l = false := by
    simp [isAmong, unaryMarks, hmark]
  simp [unary, hunary, primary, hmark, h]

theorem parens (h : ReadsAs ls tree) : ReadsAs (parens ls) tree :=
  readsAs_parens fun n rest hn => h.expression n (mark ")" :: rest) hn rfl

theorem parensIf (h : ReadsAs ls tree) (needed : Bool) : ReadsAs (parensIf needed ls) tree := by
  cases needed with
  | false => exact h
  | true => exact h.parens

theorem unary {op : String} (hop : op ∈ unaryMarks) (h : ReadsAs ls tree) :
    ReadsAs (mark op :: ls) (.unary op.toList tree) := by
  intro n rest hn
  have hamong : isAmong unaryMarks (mark op) = true := by simpa [isAmong_mark] using hop
  have hread := h n rest (by simp at hn; omega)
  have htext : (mark op).text = op.toList := rfl
  simp [Script.unary, hamong, hread, htext]

/-- Two operands in parentheses with an operator between them. -/
theorem binary {symbol : String} (hsymbol : symbol ∈ binaryLevels.flatten) (h : ReadsAs ls tree)
    (h' : ReadsAs ls' tree') :
    ReadsAs (Script.parens (ls ++ mark symbol :: ls')) (.binary tree symbol.toList tree') := by
  refine readsAs_parens fun n rest hn => ?_
  rw [List.length_append, List.length_cons] at hn
  obtain ⟨m, rfl⟩ : ∃ m, n = m + 1 := ⟨n - 1, by omega⟩
  have hpower : isAmong ["**"] (mark symbol) = false := by
    have hall : ∀ symbol ∈ binaryLevels.flatten, ["**"].contains symbol = false := by decide
    rw [isAmong_mark]
    exact hall symbol hsymbol
  have hleft := h.power (m + 1) (m + 1) (mark symbol :: (ls' ++ mark ")" :: rest)) (by omega)
    (by simpa using hpower)
  have hright := h'.power (m + 1) (m + 1) (mark ")" :: rest) (by omega) (by simp [isAmong_mark])
  rw [List.append_assoc, List.cons_append]
  exact expression_of_binary
    (binary_of_operator (by decide) hsymbol hleft hright (by simp; decide)) rfl

/-- A power in parentheses, with a base that is no unary operation. -/
theorem pow (hbase : ls.head?.any (isAmong unaryMarks) = false) (h : ReadsAs ls tree) (h' : ReadsAs ls' tree') :
    ReadsAs (Script.parens (ls ++ mark "**" :: ls')) (.binary tree ['*', '*'] tree') := by
  refine readsAs_parens fun n rest hn => ?_
  rw [List.length_append, List.length_cons] at hn
  obtain ⟨m, rfl⟩ : ∃ m, n = m + 1 := ⟨n - 1, by omega⟩
  have hleft := h (m + 1) (mark "**" :: (ls' ++ mark ")" :: rest)) (by omega)
  have hright := h'.power (m + 1) m (mark ")" :: rest) (by omega) (by simp [isAmong_mark])
  have hhead : (ls ++ mark "**" :: (ls' ++ mark ")" :: rest)).head?.any (isAmong unaryMarks) = false := by
    cases ls with
    | nil => rfl
    | cons l ls => exact hbase
  have hpower : Script.power (Script.expression (m + 1)) (m + 2) (ls ++ mark "**" :: (ls' ++ mark ")" :: rest)) =
      some (.binary tree ['*', '*'] tree', mark ")" :: rest) := by
    rw [Script.power, hleft]
    simp only [Option.bind_eq_bind, Option.bind_some, expect_mark, hhead, hright]
    rfl
  rw [List.append_assoc, List.cons_append]
  exact expression_of_binary (binary_of_power hpower (by simp; decide)) rfl

/-- A conditional in parentheses. -/
theorem ternary (h : ReadsAs ls tree) (h' : ReadsAs ls' tree') (h'' : ReadsAs ls'' tree'') :
    ReadsAs (Script.parens (ls ++ mark "?" :: (ls' ++ mark ":" :: ls''))) (.ternary tree tree' tree'') := by
  refine readsAs_parens fun n rest hn => ?_
  simp only [List.length_append, List.length_cons] at hn
  obtain ⟨m, rfl⟩ : ∃ m, n = m + 1 := ⟨n - 1, by omega⟩
  have htest : Script.binary (Script.expression (m + 1)) (m + 2) binaryLevels
      (ls ++ mark "?" :: (ls' ++ mark ":" :: (ls'' ++ mark ")" :: rest))) =
        some (tree, mark "?" :: (ls' ++ mark ":" :: (ls'' ++ mark ")" :: rest))) :=
    binary_of_power (h.power (m + 1) (m + 1) _ (by omega) (by simp [isAmong_mark])) (by simp; decide)
  have hbody := h'.expression m (mark ":" :: (ls'' ++ mark ")" :: rest)) (by omega) rfl
  have horelse := h''.expression m (mark ")" :: rest) (by omega) rfl
  rw [Script.expression]
  simp [conditional, htest, hbody, horelse]

end ReadsAs

/-- A text that is read as an operand has its structure. -/
theorem readOperation_of_readsAs {text : String} {ls : List Lexeme} {tree : Operation}
    (hlexemes : lexemes text.toList = some ls) (h : ReadsAs ls tree) : readOperation text = some tree := by
  have hread := h.expression ls.length [] (Nat.le_refl _) rfl
  rw [List.append_nil] at hread
  simp [readOperation, hlexemes, hread]

end ViewSync.Script
