import ViewSync.Parser.Error
import ViewSync.Tree.Basic

/-!
# ViewSync.Proofs.Parser.Phrase

How a tree is written in tokens, with parentheses only where the table of precedence asks for them. The levels are
numbered as in the table, from 13 for `lambda` down to 1 for the signs and `**`; 0 is for what needs no operator, and
14 for a tuple without parentheses. Along with its tokens a `Phrase` keeps how many expressions are open at a time while
it is read.
-/

namespace ViewSync

/-- The kinds of some tokens, and how deep expressions nest in them. -/
structure Phrase where
  kinds : List TokenKind
  nesting : Nat
deriving DecidableEq

namespace Phrase

/-- No token. -/
def empty : Phrase := ⟨[], 0⟩

/-- One token. -/
def token (k : TokenKind) : Phrase := ⟨[k], 0⟩

instance : Append Phrase := ⟨fun w w' => ⟨w.kinds ++ w'.kinds, max w.nesting w'.nesting⟩⟩

/-- The number of tokens. -/
def length (w : Phrase) : Nat := w.kinds.length

/-- A phrase that is read as an expression of its own. -/
def inside (w : Phrase) : Phrase := ⟨w.kinds, w.nesting + 1⟩

/-- Phrases with a comma in front of each. -/
def trailing : List Phrase → Phrase
  | [] => empty
  | w :: rest => token (.symbol .comma) ++ (w ++ trailing rest)

/-- Phrases with commas between them. -/
def listed : List Phrase → Phrase
  | [] => empty
  | w :: rest => w ++ trailing rest

/-- What stands behind the first item of a tuple: at least a comma. -/
def tupleRest : List Phrase → Phrase
  | [] => token (.symbol .comma)
  | rest => trailing rest

/-- The items of a tuple; a single one has a comma behind it. -/
def tupled : List Phrase → Phrase
  | [] => empty
  | w :: rest => w ++ tupleRest rest

/-- A phrase between two brackets. -/
def between (left right : Symbol) (w : Phrase) : Phrase :=
  token (.symbol left) ++ (w ++ token (.symbol right))

/-- An expression that stands alone, where only a tuple is not read as one more expression around its items. -/
def alone (level : Nat) (w : Phrase) : Phrase :=
  if level ≤ 13 then w.inside else w

/-- An expression of a level where only some levels are allowed: with parentheses if it needs them. -/
def grouped (allowed level : Nat) (w : Phrase) : Phrase :=
  if level ≤ allowed then w else between .leftParen .rightParen (w.alone level)

@[simp] theorem kinds_empty : empty.kinds = [] := rfl

@[simp] theorem kinds_token (k : TokenKind) : (token k).kinds = [k] := rfl

@[simp] theorem kinds_append (w w' : Phrase) : (w ++ w').kinds = w.kinds ++ w'.kinds := rfl

@[simp] theorem kinds_inside (w : Phrase) : w.inside.kinds = w.kinds := rfl

@[simp] theorem kinds_alone (level : Nat) (w : Phrase) : (w.alone level).kinds = w.kinds := by
  unfold alone
  split <;> rfl

@[simp] theorem kinds_between (left right : Symbol) (w : Phrase) :
    (between left right w).kinds = .symbol left :: (w.kinds ++ [.symbol right]) := rfl

@[simp] theorem length_empty : empty.length = 0 := rfl

@[simp] theorem length_token (k : TokenKind) : (token k).length = 1 := rfl

@[simp] theorem length_append (w w' : Phrase) : (w ++ w').length = w.length + w'.length := List.length_append

@[simp] theorem length_inside (w : Phrase) : w.inside.length = w.length := rfl

@[simp] theorem length_alone (level : Nat) (w : Phrase) : (w.alone level).length = w.length := by
  rw [length, length, kinds_alone]

@[simp] theorem length_between (left right : Symbol) (w : Phrase) : (between left right w).length = w.length + 2 := by
  simp [between]
  omega

@[simp] theorem nesting_append (w w' : Phrase) : (w ++ w').nesting = max w.nesting w'.nesting := rfl

theorem append_assoc (w w' w'' : Phrase) : (w ++ w') ++ w'' = w ++ (w' ++ w'') := by
  show Phrase.mk _ _ = Phrase.mk _ _
  rw [kinds_append, kinds_append, nesting_append, nesting_append, List.append_assoc, Nat.max_assoc]

@[simp] theorem append_empty (w : Phrase) : w ++ empty = w := by
  show Phrase.mk (w.kinds ++ []) (max w.nesting 0) = w
  rw [List.append_nil, Nat.max_zero]

@[simp] theorem empty_append (w : Phrase) : empty ++ w = w := by
  show Phrase.mk ([] ++ w.kinds) (max 0 w.nesting) = w
  rw [List.nil_append, Nat.zero_max]

theorem grouped_of_le {allowed level : Nat} (h : level ≤ allowed) (w : Phrase) : w.grouped allowed level = w :=
  if_pos h

theorem grouped_of_lt {allowed level : Nat} (h : allowed < level) (w : Phrase) :
    w.grouped allowed level = between .leftParen .rightParen (w.alone level) :=
  if_neg (Nat.not_le.2 h)

/-- Behind the first item of a tuple there is a comma. -/
theorem headD_tupleRest (ws : List Phrase) (next : TokenKind) : (tupleRest ws).kinds.headD next = .symbol .comma := by
  cases ws <;> rfl

theorem length_le_trailing {ws : List Phrase} {w : Phrase} (h : w ∈ ws) : w.length ≤ (trailing ws).length := by
  induction ws with
  | nil => cases h
  | cons first rest ih =>
      simp only [trailing, length_append, length_token]
      rcases List.mem_cons.1 h with rfl | hmem
      · omega
      · have := ih hmem
        omega

/-- None of several phrases is longer than all of them together. -/
theorem length_le_listed {ws : List Phrase} {w : Phrase} (h : w ∈ ws) : w.length ≤ (listed ws).length := by
  cases ws with
  | nil => cases h
  | cons first rest =>
      simp only [listed, length_append]
      rcases List.mem_cons.1 h with rfl | hmem
      · omega
      · have := length_le_trailing hmem
        omega

theorem length_le_tupled {ws : List Phrase} {w : Phrase} (h : w ∈ ws) : w.length ≤ (tupled ws).length := by
  refine Nat.le_trans (length_le_listed h) ?_
  match ws with
  | [] => exact Nat.le_refl _
  | [_] => simp [listed, tupled, tupleRest, trailing]
  | _ :: _ :: _ => exact Nat.le_refl _

end Phrase

/-! ## operators -/

/-- The row of the table that an operator stands in. -/
def BinaryOp.level : BinaryOp → Nat
  | .or => 11
  | .and => 10
  | .bitOr => 7
  | .bitXor => 6
  | .bitAnd => 5
  | .shiftLeft => 4
  | .shiftRight => 4
  | .add => 3
  | .sub => 3
  | .mul => 2
  | .div => 2
  | .floorDiv => 2
  | .mod => 2
  | .pow => 1

/-- The levels allowed on the left. All operators but `**` group to the left; `**` takes no sign there. -/
def BinaryOp.leftLevel : BinaryOp → Nat
  | .pow => 0
  | op => op.level

/-- The levels allowed on the right, where `**` takes a sign or another `**`. -/
def BinaryOp.rightLevel : BinaryOp → Nat
  | .pow => 1
  | op => op.level - 1

/-- The token of an operator. -/
def BinaryOp.token : BinaryOp → TokenKind
  | .or => .keyword .or
  | .and => .keyword .and
  | .bitOr => .symbol .pipe
  | .bitXor => .symbol .caret
  | .bitAnd => .symbol .amp
  | .shiftLeft => .symbol .shiftLeft
  | .shiftRight => .symbol .shiftRight
  | .add => .symbol .plus
  | .sub => .symbol .minus
  | .mul => .symbol .star
  | .div => .symbol .slash
  | .floorDiv => .symbol .doubleSlash
  | .mod => .symbol .percent
  | .pow => .symbol .doubleStar

/-- The row of the table that a prefixed operator stands in; it takes operands of its own row. -/
def UnaryOp.level : UnaryOp → Nat
  | .not => 9
  | _ => 1

/-- The token of a prefixed operator. -/
def UnaryOp.token : UnaryOp → TokenKind
  | .neg => .symbol .minus
  | .pos => .symbol .plus
  | .not => .keyword .not
  | .invert => .symbol .tilde

/-- A comparison is written as one token or two. -/
def CompareOp.printed : CompareOp → Phrase
  | .eq => .token (.symbol .eqEq)
  | .notEq => .token (.symbol .notEq)
  | .less => .token (.symbol .less)
  | .greater => .token (.symbol .greater)
  | .lessEq => .token (.symbol .lessEq)
  | .greaterEq => .token (.symbol .greaterEq)
  | .isIn => .token (.keyword .in_)
  | .notIn => .token (.keyword .not) ++ .token (.keyword .in_)
  | .is => .token (.keyword .is)
  | .isNot => .token (.keyword .is) ++ .token (.keyword .not)

/-! ## tokens -/

/-- The row of the table that a token belongs to behind an expression: in front of it, expressions of this level and of
tighter ones would go on. A comma goes on with a tuple; further strings are part of a string. -/
def TokenKind.continues : TokenKind → Nat
  | .str _ => 0
  | .keyword .in_ => 8
  | .keyword .not => 8
  | .keyword .is => 8
  | .keyword .and => 10
  | .keyword .or => 11
  | .keyword .if_ => 12
  | .symbol .dot => 0
  | .symbol .leftBracket => 0
  | .symbol .leftParen => 0
  | .symbol .doubleStar => 1
  | .symbol .star => 2
  | .symbol .slash => 2
  | .symbol .doubleSlash => 2
  | .symbol .percent => 2
  | .symbol .plus => 3
  | .symbol .minus => 3
  | .symbol .shiftLeft => 4
  | .symbol .shiftRight => 4
  | .symbol .amp => 5
  | .symbol .caret => 6
  | .symbol .pipe => 7
  | .symbol .eqEq => 8
  | .symbol .notEq => 8
  | .symbol .less => 8
  | .symbol .greater => 8
  | .symbol .lessEq => 8
  | .symbol .greaterEq => 8
  | .symbol .comma => 14
  | _ => 15

/-- The row of the table that a token belongs to in front of an expression, 0 for what starts an operand; 15 for a token
that starts no expression. -/
def TokenKind.opening : TokenKind → Nat
  | .int _ => 0
  | .float _ => 0
  | .str _ => 0
  | .identifier _ => 0
  | .keyword .true => 0
  | .keyword .false => 0
  | .keyword .none => 0
  | .keyword .not => 9
  | .keyword .lambda => 13
  | .symbol .leftParen => 0
  | .symbol .leftBracket => 0
  | .symbol .leftBrace => 0
  | .symbol .plus => 1
  | .symbol .minus => 1
  | .symbol .tilde => 1
  | _ => 15

namespace Phrase

/-- A phrase starts like an expression of a level. An equals sign is never its second token, so that it is not taken for
a keyword argument. -/
def Opens (w : Phrase) (level : Nat) : Prop :=
  ∃ k rest, w.kinds = k :: rest ∧ k.opening ≤ level ∧ rest.head? ≠ some (.symbol .eq)

variable {w w' : Phrase} {level allowed : Nat} {k : TokenKind}

theorem Opens.mono (h : w.Opens level) (hle : level ≤ allowed) : w.Opens allowed := by
  obtain ⟨k, rest, hkinds, hk, hne⟩ := h
  exact ⟨k, rest, hkinds, Nat.le_trans hk hle, hne⟩

theorem opens_token (h : k.opening ≤ level) : (token k).Opens level := ⟨k, [], rfl, h, nofun⟩

theorem Opens.append (h : w.Opens level) (hne : w'.kinds.head? ≠ some (.symbol .eq)) : (w ++ w').Opens level := by
  obtain ⟨k, rest, hkinds, hk, hrest⟩ := h
  refine ⟨k, rest ++ w'.kinds, by rw [kinds_append, hkinds, List.cons_append], hk, ?_⟩
  cases rest with
  | nil => exact hne
  | cons => exact hrest

/-- What stands in front of an expression is not taken for a keyword. -/
theorem Opens.token_append (h : w.Opens 14) (hk : k.opening ≤ level) : (token k ++ w).Opens level := by
  refine (opens_token hk).append ?_
  obtain ⟨first, rest, hkinds, hfirst, -⟩ := h
  rw [hkinds]
  rintro heq
  cases heq
  exact absurd hfirst (by decide)

theorem Opens.grouped (h : w.Opens level) (hlevel : level ≤ 14) : (w.grouped allowed level).Opens allowed := by
  rcases Nat.lt_or_ge allowed level with hlt | hle
  · rw [grouped_of_lt hlt]
    obtain ⟨k, rest, hkinds, hk, -⟩ := h
    refine ⟨.symbol .leftParen, _, kinds_between _ _ _, Nat.zero_le _, ?_⟩
    rw [kinds_alone, hkinds]
    rintro heq
    cases heq
    exact absurd (Nat.le_trans hk hlevel) (by decide)
  · rw [grouped_of_le hle]
    exact h.mono hle

theorem Opens.headD_ne (h : w.Opens level) (hk : level < k.opening) (next : TokenKind) : w.kinds.headD next ≠ k := by
  obtain ⟨first, rest, hkinds, hfirst, -⟩ := h
  rw [hkinds, List.headD_cons]
  rintro rfl
  omega

/-- No equals sign comes first. -/
def Fronted (w : Phrase) : Prop := w.kinds.head? ≠ some (.symbol .eq)

theorem Opens.fronted (h : w.Opens level) (hlevel : level ≤ 14) : w.Fronted := by
  obtain ⟨first, rest, hkinds, hfirst, -⟩ := h
  unfold Fronted
  rw [hkinds]
  rintro heq
  cases heq
  exact absurd (Nat.le_trans hfirst hlevel) (by decide)

theorem fronted_trailing (ws : List Phrase) : (trailing ws).Fronted := by
  cases ws with
  | nil => exact nofun
  | cons w rest => exact fun heq => by cases heq

theorem Fronted.append (h : w.Fronted) (h' : w'.Fronted) : (w ++ w').Fronted := by
  unfold Fronted at *
  rw [kinds_append]
  cases hkinds : w.kinds with
  | nil => exact h'
  | cons k rest => rwa [hkinds] at h

theorem fronted_listed {ws : List Phrase} (h : ∀ w ∈ ws, w.Fronted) : (listed ws).Fronted := by
  cases ws with
  | nil => exact nofun
  | cons w rest => exact (h w (List.mem_cons_self ..)).append (fronted_trailing rest)

theorem opens_between {left right : Symbol} (hleft : (TokenKind.symbol left).opening ≤ level) (hright : right ≠ .eq)
    (h : w.Fronted) : (between left right w).Opens level := by
  refine (opens_token hleft).append (h.append ?_)
  exact fun heq => hright (by cases heq; rfl)

end Phrase

/-! ## trees -/

namespace Expr

/-- The row of the table that a tree stands in by its root. -/
def level : Expr → Nat
  | .binary _ _ op _ => op.level
  | .unary _ op _ => op.level
  | .compare .. => 8
  | .ternary .. => 12
  | .lambda .. => 13
  | .tuple _ (_ :: _) => 14
  | _ => 0

mutual

/-- A tree in tokens, without parentheses around it. -/
def printed : Expr → Phrase
  | .int _ value => .token (.int value)
  | .float _ value => .token (.float value)
  | .str _ text => .token (.str text)
  | .bool _ value => .token (.keyword (if value then .true else .false))
  | .none _ => .token (.keyword .none)
  | .name _ id => .token (.identifier id)
  | .list _ items => .between .leftBracket .rightBracket (.listed (printedItems items))
  | .dict _ entries => .between .leftBrace .rightBrace (.listed (printedEntries entries))
  | .tuple _ [] => .between .leftParen .rightParen .empty
  | .tuple _ items => .tupled (printedItems items)
  | .attribute _ value attr =>
    value.printed.grouped 0 value.level ++ (.token (.symbol .dot) ++ .token (.identifier attr.name))
  | .subscript _ value index =>
    value.printed.grouped 0 value.level ++ .between .leftBracket .rightBracket (index.printed.alone index.level)
  | .call _ callee args =>
    callee.printed.grouped 0 callee.level ++ .between .leftParen .rightParen (.listed (printedArgs args))
  | .binary _ left op right =>
    left.printed.grouped op.leftLevel left.level ++
      (.token op.token ++ right.printed.grouped op.rightLevel right.level)
  | .unary _ op operand => .token op.token ++ operand.printed.grouped op.level operand.level
  | .compare _ left rest => left.printed.grouped 7 left.level ++ printedOperands rest
  | .ternary _ test body orelse =>
    body.printed.grouped 11 body.level ++ (.token (.keyword .if_) ++ (test.printed.grouped 11 test.level ++
      (.token (.keyword .else_) ++ (orelse.printed.grouped 13 orelse.level).inside)))
  | .lambda _ ps body =>
    .token (.keyword .lambda) ++ (.listed (printedParams ps) ++ (.token (.symbol .colon) ++
      (body.printed.grouped 13 body.level).inside))
  | .slice .. => .empty
  | .comprehension .. => .empty
  | .yield .. => .empty

/-- Each of several expressions. -/
def printedItems : List Expr → List Phrase
  | [] => []
  | e :: rest => (e.printed.grouped 13 e.level).inside :: printedItems rest

/-- The entries of a dict. -/
def printedEntries : List (Expr × Expr) → List Phrase
  | [] => []
  | (key, value) :: rest =>
    ((key.printed.grouped 13 key.level).inside ++
      (.token (.symbol .colon) ++ (value.printed.grouped 13 value.level).inside)) :: printedEntries rest

/-- The arguments of a call. -/
def printedArgs : List Arg → List Phrase
  | [] => []
  | .positional e :: rest => (e.printed.grouped 13 e.level).inside :: printedArgs rest
  | .starred e :: rest =>
    (.token (.symbol .star) ++ (e.printed.grouped 13 e.level).inside) :: printedArgs rest
  | .keyword key e :: rest =>
    (.token (.identifier key.name) ++ (.token (.symbol .eq) ++ (e.printed.grouped 13 e.level).inside)) ::
      printedArgs rest
  | .doubleStarred e :: rest =>
    (.token (.symbol .doubleStar) ++ (e.printed.grouped 13 e.level).inside) :: printedArgs rest

/-- The parameters of a `lambda`. -/
def printedParams : List Param → List Phrase
  | [] => []
  | .mk id Option.none _ :: rest => .token (.identifier id.name) :: printedParams rest
  | .mk id (some e) _ :: rest =>
    (.token (.identifier id.name) ++ (.token (.symbol .eq) ++ (e.printed.grouped 13 e.level).inside)) ::
      printedParams rest

/-- The comparisons of a chain. -/
def printedOperands : List (CompareOp × Expr) → Phrase
  | [] => .empty
  | (op, e) :: rest => op.printed ++ (e.printed.grouped 7 e.level ++ printedOperands rest)

end

/-- A tree where only some levels are allowed. -/
def printedAt (allowed : Nat) (e : Expr) : Phrase :=
  e.printed.grouped allowed e.level

/-- A tree that is read as an expression of its own. -/
def printedFull (e : Expr) : Phrase :=
  (e.printedAt 13).inside

/-- A tree that stands alone. -/
def printedAlone (e : Expr) : Phrase :=
  e.printed.alone e.level

theorem printedAlone_of_le {e : Expr} (h : e.level ≤ 13) : e.printedAlone = e.printedFull := by
  rw [printedAlone, printedFull, printedAt, Phrase.grouped_of_le h, Phrase.alone, if_pos h]

theorem printedAt_of_le {e : Expr} {allowed : Nat} (h : e.level ≤ allowed) : e.printedAt allowed = e.printed :=
  Phrase.grouped_of_le h _

theorem printedAt_of_lt {e : Expr} {allowed : Nat} (h : allowed < e.level) :
    e.printedAt allowed = .between .leftParen .rightParen e.printedAlone :=
  Phrase.grouped_of_lt h _

/-! ### lists of trees, one by one -/

theorem printedItems_eq (items : List Expr) : printedItems items = items.map printedFull := by
  induction items with
  | nil => rfl
  | cons e rest ih =>
      rw [List.map_cons, ← ih]
      rfl

theorem printed_tuple (span : Span) (first : Expr) (rest : List Expr) :
    (Expr.tuple span (first :: rest)).printed = .tupled ((first :: rest).map printedFull) := by
  rw [← printedItems_eq]
  rfl

/-- An entry of a dict. -/
def printedEntry (entry : Expr × Expr) : Phrase :=
  entry.1.printedFull ++ (.token (.symbol .colon) ++ entry.2.printedFull)

theorem printedEntries_eq (entries : List (Expr × Expr)) : printedEntries entries = entries.map printedEntry := by
  induction entries with
  | nil => rfl
  | cons entry rest ih =>
      rw [List.map_cons, ← ih]
      rfl

end Expr

/-- The value of an argument. -/
def Arg.value : Arg → Expr
  | .positional e => e
  | .starred e => e
  | .keyword _ e => e
  | .doubleStarred e => e

/-- An argument of a call. -/
def Arg.printed : Arg → Phrase
  | .positional e => e.printedFull
  | .starred e => .token (.symbol .star) ++ e.printedFull
  | .keyword key e => .token (.identifier key.name) ++ (.token (.symbol .eq) ++ e.printedFull)
  | .doubleStarred e => .token (.symbol .doubleStar) ++ e.printedFull

/-- A parameter of a `lambda`. -/
def Param.printed : Param → Phrase
  | .mk id Option.none _ => .token (.identifier id.name)
  | .mk id (some e) _ => .token (.identifier id.name) ++ (.token (.symbol .eq) ++ e.printedFull)

namespace Expr

theorem printedArgs_eq (args : List Arg) : printedArgs args = args.map Arg.printed := by
  induction args with
  | nil => rfl
  | cons a rest ih =>
      rw [List.map_cons, ← ih]
      cases a <;> rfl

theorem printedParams_eq (ps : List Param) : printedParams ps = ps.map Param.printed := by
  induction ps with
  | nil => rfl
  | cons p rest ih =>
      rw [List.map_cons, ← ih]
      obtain ⟨id, default, span⟩ := p
      cases default <;> rfl

theorem printed_list (span : Span) (items : List Expr) :
    (Expr.list span items).printed = .between .leftBracket .rightBracket (.listed (items.map printedFull)) := by
  rw [← printedItems_eq]
  rfl

theorem printed_dict (span : Span) (entries : List (Expr × Expr)) :
    (Expr.dict span entries).printed = .between .leftBrace .rightBrace (.listed (entries.map printedEntry)) := by
  rw [← printedEntries_eq]
  rfl

theorem printed_call (span : Span) (callee : Expr) (args : List Arg) :
    (Expr.call span callee args).printed =
      callee.printedAt 0 ++ .between .leftParen .rightParen (.listed (args.map Arg.printed)) := by
  rw [← printedArgs_eq]
  rfl

theorem printed_lambda (span : Span) (ps : List Param) (body : Expr) :
    (Expr.lambda span ps body).printed = .token (.keyword .lambda) ++ (.listed (ps.map Param.printed) ++
      (.token (.symbol .colon) ++ body.printedFull)) := by
  rw [← printedParams_eq]
  rfl

/-! ## trees that can be written -/

/-- The trees right below the root. -/
def children : Expr → List Expr
  | .list _ items => items
  | .tuple _ items => items
  | .dict _ entries => entries.flatMap fun entry => [entry.1, entry.2]
  | .attribute _ value _ => [value]
  | .subscript _ value index => [value, index]
  | .call _ callee args => callee :: args.map Arg.value
  | .binary _ left _ right => [left, right]
  | .unary _ _ operand => [operand]
  | .compare _ left rest => left :: rest.map (·.2)
  | .ternary _ test body orelse => [test, body, orelse]
  | .lambda _ ps body => body :: ps.filterMap Param.default?
  | _ => []

/-- Whether the root is one of the forms that are written here: no slice, no comprehension, no `yield`, and no chain
without a comparison. -/
def hasForm : Expr → Bool
  | .compare _ _ [] => false
  | .slice .. => false
  | .comprehension .. => false
  | .yield .. => false
  | _ => true

/-- Trees all of whose nodes are written here. -/
inductive Plain : Expr → Prop where
  | node {e : Expr} (form : e.hasForm = true) (children : ∀ child ∈ e.children, child.Plain) : e.Plain

theorem plain_iff {e : Expr} : e.Plain ↔ e.hasForm = true ∧ ∀ child ∈ e.children, child.Plain :=
  ⟨fun h => by cases h; constructor <;> assumption, fun h => .node h.1 h.2⟩

theorem Plain.of_mem {e child : Expr} (h : e.Plain) (hmem : child ∈ e.children) : child.Plain :=
  (plain_iff.1 h).2 child hmem

/-- Whether a tree of no more than so many levels is `Plain`. -/
def isPlain : Nat → Expr → Bool
  | 0, _ => false
  | height + 1, e => e.hasForm && e.children.all (isPlain height)

theorem plain_of_isPlain {height : Nat} {e : Expr} (h : isPlain height e = true) : e.Plain := by
  induction height generalizing e with
  | zero => cases h
  | succ height ih =>
      rw [isPlain, Bool.and_eq_true, List.all_eq_true] at h
      exact .node h.1 fun child hchild => ih (h.2 child hchild)

/-- Only a tuple with items is weaker than a `lambda`. -/
theorem exists_tuple {e : Expr} (h : 13 < e.level) : ∃ span first rest, e = .tuple span (first :: rest) := by
  unfold level at h
  split at h
  case h_1 op _ => cases op <;> exact absurd h (by decide)
  case h_2 op _ => cases op <;> exact absurd h (by decide)
  case h_6 span first rest => exact ⟨span, first, rest, rfl⟩
  all_goals exact absurd h (by decide)

theorem level_le (e : Expr) : e.level ≤ 14 := by
  unfold level
  split
  case h_1 op _ => cases op <;> decide
  case h_2 op _ => cases op <;> decide
  all_goals decide

/-- A tree that can be written starts with a token of its own level or of a tighter one. -/
theorem Plain.opens {e : Expr} (h : e.Plain) : e.printed.Opens e.level := by
  induction h with
  | @node e form _ ih =>
      have hat : ∀ child ∈ e.children, ∀ allowed, (child.printedAt allowed).Opens allowed :=
        fun child hchild _ => (ih child hchild).grouped child.level_le
      have hfull : ∀ child ∈ e.children, child.printedFull.Opens 13 := fun child hchild => hat child hchild 13
      cases e with
      | int => exact Phrase.opens_token (Nat.zero_le _)
      | float => exact Phrase.opens_token (Nat.zero_le _)
      | str => exact Phrase.opens_token (Nat.zero_le _)
      | bool _ value => cases value <;> exact Phrase.opens_token (Nat.zero_le _)
      | none => exact Phrase.opens_token (Nat.zero_le _)
      | name => exact Phrase.opens_token (Nat.zero_le _)
      | list _ items =>
          refine Phrase.opens_between (Nat.zero_le _) nofun (Phrase.fronted_listed ?_)
          rw [printedItems_eq, List.forall_mem_map]
          exact fun item hitem => (hfull item hitem).fronted (by decide)
      | dict _ entries =>
          refine Phrase.opens_between (Nat.zero_le _) nofun (Phrase.fronted_listed ?_)
          rw [printedEntries_eq, List.forall_mem_map]
          intro entry hentry
          have hkey : entry.1.printedFull.Opens 13 :=
            hfull _ (List.mem_flatMap.2 ⟨entry, hentry, List.mem_cons_self ..⟩)
          exact (hkey.append (fun heq => by cases heq)).fronted (by decide)
      | tuple _ items =>
          cases items with
          | nil => exact Phrase.opens_between (Nat.zero_le _) nofun (Phrase.fronted_trailing [])
          | cons first rest =>
              have hfirst := (hfull first (List.mem_cons_self ..)).mono (show 13 ≤ 14 by decide)
              refine hfirst.append ?_
              cases rest <;> exact nofun
      | «attribute» _ value attr => exact (hat value (List.mem_cons_self ..) 0).append nofun
      | subscript _ value index => exact (hat value (List.mem_cons_self ..) 0).append nofun
      | call _ callee args => exact (hat callee (List.mem_cons_self ..) 0).append nofun
      | binary _ left op right =>
          have hlevel : op.leftLevel ≤ op.level := by cases op <;> decide
          refine ((hat left (List.mem_cons_self ..) op.leftLevel).mono hlevel).append ?_
          cases op <;> exact nofun
      | unary _ op operand =>
          have hlevel : op.level ≤ 14 := by cases op <;> decide
          have hopening : op.token.opening ≤ op.level := by cases op <;> decide
          exact ((hat operand (List.mem_cons_self ..) op.level).mono hlevel).token_append hopening
      | compare _ left rest =>
          have hleft := (hat left (List.mem_cons_self ..) 7).mono (show 7 ≤ 8 by decide)
          refine hleft.append ?_
          cases rest with
          | nil => exact nofun
          | cons operand => obtain ⟨op, e⟩ := operand; cases op <;> exact nofun
      | ternary _ test body orelse =>
          have hbody := (hat body (by simp [children]) 11).mono (show 11 ≤ 12 by decide)
          exact hbody.append nofun
      | lambda _ ps body =>
          have hopening : (TokenKind.keyword .lambda).opening ≤ 13 := by decide
          refine (Phrase.opens_token hopening).append (Phrase.Fronted.append (Phrase.fronted_listed ?_) nofun)
          rw [printedParams_eq, List.forall_mem_map]
          rintro ⟨id, default, span⟩ -
          cases default <;> exact nofun
      | slice => cases form
      | comprehension => cases form
      | yield => cases form

theorem Plain.opens_at {e : Expr} (h : e.Plain) (allowed : Nat) : (e.printedAt allowed).Opens allowed :=
  h.opens.grouped e.level_le

theorem Plain.opens_alone {e : Expr} (h : e.Plain) : e.printedAlone.Opens 14 := by
  obtain ⟨k, rest, hkinds, hk, hne⟩ := h.opens
  exact ⟨k, rest, by rw [printedAlone, Phrase.kinds_alone, hkinds], Nat.le_trans hk e.level_le, hne⟩

theorem Plain.opens_full {e : Expr} (h : e.Plain) : e.printedFull.Opens 13 :=
  h.opens_at 13

/-! ## trees up to their spans -/

mutual

/-- A tree with all its spans the same. -/
def spanless : Expr → Expr
  | .int _ value => .int .origin value
  | .float _ value => .float .origin value
  | .str _ text => .str .origin text
  | .bool _ value => .bool .origin value
  | .none _ => .none .origin
  | .list _ items => .list .origin (spanlessItems items)
  | .tuple _ items => .tuple .origin (spanlessItems items)
  | .dict _ entries => .dict .origin (spanlessEntries entries)
  | .name _ id => .name .origin id
  | .attribute _ value attr => .attribute .origin value.spanless ⟨attr.name, .origin⟩
  | .subscript _ value index => .subscript .origin value.spanless index.spanless
  | .slice _ lower upper step =>
    .slice .origin (spanlessBound lower) (spanlessBound upper) (spanlessBound step)
  | .call _ callee args => .call .origin callee.spanless (spanlessArgs args)
  | .binary _ left op right => .binary .origin left.spanless op right.spanless
  | .unary _ op operand => .unary .origin op operand.spanless
  | .compare _ left rest => .compare .origin left.spanless (spanlessOperands rest)
  | .ternary _ test body orelse => .ternary .origin test.spanless body.spanless orelse.spanless
  | .lambda _ ps body => .lambda .origin (spanlessParams ps) body.spanless
  | .comprehension _ element target source conditions =>
    .comprehension .origin element.spanless target.spanless source.spanless (spanlessItems conditions)
  | .yield _ value => .yield .origin (spanlessBound value)

/-- An expression that may be missing. -/
def spanlessBound : Option Expr → Option Expr
  | Option.none => Option.none
  | some e => some e.spanless

/-- Several expressions. -/
def spanlessItems : List Expr → List Expr
  | [] => []
  | e :: rest => e.spanless :: spanlessItems rest

/-- The entries of a dict. -/
def spanlessEntries : List (Expr × Expr) → List (Expr × Expr)
  | [] => []
  | (key, value) :: rest => (key.spanless, value.spanless) :: spanlessEntries rest

/-- The arguments of a call. -/
def spanlessArgs : List Arg → List Arg
  | [] => []
  | .positional e :: rest => .positional e.spanless :: spanlessArgs rest
  | .starred e :: rest => .starred e.spanless :: spanlessArgs rest
  | .keyword key e :: rest => .keyword ⟨key.name, .origin⟩ e.spanless :: spanlessArgs rest
  | .doubleStarred e :: rest => .doubleStarred e.spanless :: spanlessArgs rest

/-- The parameters of a `lambda`. -/
def spanlessParams : List Param → List Param
  | [] => []
  | .mk id default _ :: rest => .mk ⟨id.name, .origin⟩ (spanlessBound default) .origin :: spanlessParams rest

/-- The comparisons of a chain. -/
def spanlessOperands : List (CompareOp × Expr) → List (CompareOp × Expr)
  | [] => []
  | (op, e) :: rest => (op, e.spanless) :: spanlessOperands rest

end

/-! ### lists of trees, one by one -/

theorem spanlessItems_eq (items : List Expr) : spanlessItems items = items.map spanless := by
  induction items with
  | nil => rfl
  | cons e rest ih =>
      rw [List.map_cons, ← ih]
      rfl

theorem spanlessEntries_eq (entries : List (Expr × Expr)) :
    spanlessEntries entries = entries.map fun entry => (entry.1.spanless, entry.2.spanless) := by
  induction entries with
  | nil => rfl
  | cons entry rest ih =>
      rw [List.map_cons, ← ih]
      rfl

theorem spanlessOperands_eq (rest : List (CompareOp × Expr)) :
    spanlessOperands rest = rest.map fun operand => (operand.1, operand.2.spanless) := by
  induction rest with
  | nil => rfl
  | cons operand rest ih =>
      rw [List.map_cons, ← ih]
      rfl

end Expr

/-- An argument with all its spans the same. -/
def Arg.spanless : Arg → Arg
  | .positional e => .positional e.spanless
  | .starred e => .starred e.spanless
  | .keyword key e => .keyword ⟨key.name, .origin⟩ e.spanless
  | .doubleStarred e => .doubleStarred e.spanless

/-- A parameter with all its spans the same. -/
def Param.spanless : Param → Param
  | .mk id default _ => .mk ⟨id.name, .origin⟩ (Expr.spanlessBound default) .origin

namespace Expr

theorem spanlessArgs_eq (args : List Arg) : spanlessArgs args = args.map Arg.spanless := by
  induction args with
  | nil => rfl
  | cons a rest ih =>
      rw [List.map_cons, ← ih]
      cases a <;> rfl

theorem spanlessParams_eq (ps : List Param) : spanlessParams ps = ps.map Param.spanless := by
  induction ps with
  | nil => rfl
  | cons p rest ih =>
      rw [List.map_cons, ← ih]
      cases p
      rfl

theorem spanlessBound_eq (bound : Option Expr) : spanlessBound bound = bound.map spanless := by
  cases bound <;> rfl

end Expr

end ViewSync
