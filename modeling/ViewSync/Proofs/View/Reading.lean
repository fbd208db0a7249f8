import ViewSync.Proofs.Script.Operators
import ViewSync.Proofs.View.Grouping

/-!
# ViewSync.Proofs.View.Reading

Reading an expression back from its lexemes, as its text is grouped. `operand` takes prefixes first (unary operators
and the heads of lambdas), then what cannot be divided, then what is written behind it, which goes under the
prefixes. `Reads` says that lexemes are read as an expression whatever is written behind them and in front of them,
and each kind of expression has a lemma that says so of the whole from its parts.
-/

namespace ViewSync

open Script

namespace Reading

/-! ## the reader -/

/-- Takes something from the start of some lexemes, and leaves the rest. -/
abbrev LexemeReader (α : Type) := List Script.Lexeme → Option (α × List Script.Lexeme)

/-- Names with commas between them, and the parenthesis behind them. -/
def names? : LexemeReader (List String)
  | l :: m :: rest =>
    if l.kind ≠ .word then none
    else if m = mark ")" then some ([String.ofList l.text], rest)
    else if m = mark "," then (names? rest).map fun (names, rest) => (String.ofList l.text :: names, rest)
    else none
  | _ => none

/-- The head of a lambda. -/
def lambda? (ls : List Script.Lexeme) : Option (List String × List Script.Lexeme) := do
  let inside ← expect "(" ls
  match expect ")" inside with
  | some rest => return ([], ← expect "=>" rest)
  | none =>
    let (names, rest) ← names? inside
    return (names, ← expect "=>" rest)

/-- A lambda without spans. -/
def lambdaOf (names : List String) (body : Expr) : Expr :=
  .lambda .origin (names.map fun name => .mk ⟨name, .origin⟩ none .origin) body

/-- A unary operator or the head of a lambda. -/
def leading? : LexemeReader (Expr → Expr)
  | [] => none
  | l :: rest =>
    match if l.kind = .mark then Expr.prefixed? l.text else none with
    | some apply => some (apply, rest)
    | none => (lambda? (l :: rest)).map fun (names, rest) => (lambdaOf names, rest)

/-- Parts with commas between them, and the bracket behind them. -/
def separated {α : Type} (item : LexemeReader α) (closing : String) : Nat → LexemeReader (List α)
  | 0, _ => none
  | n + 1, ls =>
    match expect closing ls with
    | some rest => some ([], rest)
    | none => do
      let (a, rest) ← item ls
      match expect "," rest with
      | some rest =>
        let (others, rest) ← separated item closing n rest
        return (a :: others, rest)
      | none => return ([a], ← expect closing rest)

/-- An argument of a call. -/
def argument (read : LexemeReader Expr) : LexemeReader Arg := fun ls =>
  match expect "..." ls with
  | some rest => (read rest).map fun (e, rest) => (.starred e, rest)
  | none => (read ls).map fun (e, rest) => (.positional e, rest)

/-- An entry of a dict. -/
def entry (read : LexemeReader Expr) : LexemeReader (Expr × Expr)
  | [] => none
  | l :: rest => do
    let (value, rest) ← read (← expect ":" rest)
    return ((.name .origin (String.ofList l.text), value), rest)

/-- What is behind an opening parenthesis: an expression by itself, a conditional or two operands. -/
def group (read : LexemeReader Expr) : LexemeReader Expr := fun ls => do
  let (left, rest) ← read ls
  match rest with
  | [] => none
  | l :: rest =>
    if l = mark ")" then return (left, rest)
    else if l = mark "?" then
      let (body, rest) ← read rest
      let (orelse, rest) ← read (← expect ":" rest)
      return (.ternary .origin left body orelse, ← expect ")" rest)
    else
      let join ← Expr.joined? l.text
      let (right, rest) ← read rest
      return (join left right, ← expect ")" rest)

/-- The name and the arguments behind `new`. -/
def construction (read : LexemeReader Expr) (n : Nat) : LexemeReader Expr
  | [] => none
  | l :: rest => do
    let (args, rest) ← separated (argument read) ")" n (← expect "(" rest)
    return (.call .origin (.name .origin (String.ofList l.text)) args, rest)

/-- An expression that nothing can be taken out of. -/
def core (read : LexemeReader Expr) (n : Nat) : LexemeReader Expr
  | [] => none
  | l :: rest =>
    if l = mark "(" then group read rest
    else if l = mark "[" then (separated read "]" n rest).map fun (items, rest) => (.list .origin items, rest)
    else if l = mark "\x7b" then
      (separated (entry read) "\x7d" n rest).map fun (entries, rest) => (.dict .origin entries, rest)
    else if l.kind = .mark then none
    else if l == leaf "new" && rest.head?.any (·.kind == .word) then construction read n rest
    else some (.name .origin (String.ofList l.text), rest)

/-- What is written behind an expression. -/
def suffixes (read : LexemeReader Expr) : Nat → LexemeReader (List Expr.Suffix)
  | 0, _ => none
  | _ + 1, [] => some ([], [])
  | n + 1, l :: rest =>
    if l = mark "." then
      match rest with
      | [] => none
      | attr :: rest => do
        let (xs, rest) ← suffixes read n rest
        return (.attribute .origin ⟨String.ofList attr.text, .origin⟩ :: xs, rest)
    else if l = mark "[" then do
      let (index, rest) ← read rest
      let (xs, rest) ← suffixes read n (← expect "]" rest)
      return (.subscript .origin index :: xs, rest)
    else if l = mark "(" then do
      let (args, rest) ← separated (argument read) ")" n rest
      let (xs, rest) ← suffixes read n rest
      return (.call .origin args :: xs, rest)
    else some ([], l :: rest)

/-- What is written behind an expression, put under it one after the other. -/
def extend (e : Expr) (xs : List Expr.Suffix) : Expr :=
  xs.foldl (fun e x => e.under x) e

/-- An expression, under the prefixes that were read in front of it. The number bounds how deep it is, and how many
parts it has. -/
def operand : Nat → (Expr → Expr) → LexemeReader Expr
  | 0, _, _ => none
  | n + 1, wrap, ls =>
    match leading? ls with
    | some (apply, rest) => operand n (fun e => wrap (apply e)) rest
    | none => do
      let (e, rest) ← core (operand n id) n ls
      let (xs, rest) ← suffixes (operand n id) n rest
      return (extend (wrap e) xs, rest)

/-! ## what is read where -/

/-- What is behind an expression is read as suffixes, by all readers that go deep enough. A word cannot follow. -/
structure Follows (rest : List Script.Lexeme) (xs : List Expr.Suffix) (rest' : List Script.Lexeme) : Prop where
  noWord : rest.head?.any (·.kind == .word) = false
  reads : ∃ bound, ∀ m n, bound ≤ m → bound ≤ n → suffixes (operand m id) n rest = some (xs, rest')

/-- What is put under an expression with this start goes through the prefixes in front of it. -/
def Passes (wrap : Expr → Expr) (front : Front) : Prop :=
  ∀ e x, e.front = front → (wrap e).under x = wrap (e.under x)

/-- Lexemes are read as an expression, whatever is written behind them. -/
def Reads (ls : List Script.Lexeme) (e : Expr) : Prop :=
  ∀ wrap rest xs rest', Passes wrap e.front → Follows rest xs rest' →
    ∃ bound, ∀ n, bound ≤ n → operand n wrap (ls ++ rest) = some (extend (wrap e) xs, rest')

/-- What ends a part of an expression: a closing bracket, a comma, a colon or an operator. -/
def Stops (l : Script.Lexeme) : Prop :=
  l.kind = .mark ∧ isAmong [".", "[", "("] l = false

theorem stops_of_mark (text : String) (h : text ∉ [".", "[", "("]) : Stops (mark text) := by
  refine ⟨rfl, ?_⟩
  simpa [isAmong_mark] using h

theorem follows_of_stops {l : Script.Lexeme} (h : Stops l) (rest : List Script.Lexeme) :
    Follows (l :: rest) [] (l :: rest) := by
  obtain ⟨hkind, hamong⟩ := h
  refine ⟨by simp [hkind], 1, fun m n _ hn => ?_⟩
  obtain ⟨n, rfl⟩ : ∃ k, n = k + 1 := ⟨n - 1, by omega⟩
  have hne : l ≠ mark "." ∧ l ≠ mark "[" ∧ l ≠ mark "(" := by simpa [isAmong] using hamong
  simp [suffixes, hne]

theorem follows_nil : Follows [] [] [] := by
  refine ⟨rfl, 1, fun m n _ hn => ?_⟩
  obtain ⟨n, rfl⟩ : ∃ k, n = k + 1 := ⟨n - 1, by omega⟩
  rfl

theorem passes_id (front : Front) : Passes id front := fun _ _ _ => rfl

section

variable {ls : List Script.Lexeme} {e : Expr}

/-- An expression in front of what ends it. -/
theorem Reads.part (h : Reads ls e) {l : Script.Lexeme} (hl : Stops l) (rest : List Script.Lexeme) :
    ∃ bound, ∀ n, bound ≤ n → operand n id (ls ++ l :: rest) = some (e, l :: rest) :=
  h id _ _ _ (passes_id _) (follows_of_stops hl rest)

/-- An expression with something behind it. -/
theorem Reads.extend (h : Reads ls e) {x : Expr.Suffix} {more : List Script.Lexeme}
    (hx : ∀ rest xs rest', Follows rest xs rest' → Follows (more ++ rest) (x :: xs) rest') :
    Reads (ls ++ more) (e.under x) := by
  intro wrap rest xs rest' hwrap hrest
  rw [Expr.front_under] at hwrap
  rw [List.append_assoc, show Reading.extend (wrap (e.under x)) xs = Reading.extend (wrap e) (x :: xs) by
    rw [Reading.extend, Reading.extend, List.foldl_cons, hwrap e x rfl]]
  exact h wrap _ _ _ hwrap (hx rest xs rest' hrest)

end

/-! ## expressions without prefixes -/

/-- Lexemes without a prefix, which are read as an expression where no word follows. -/
def IsCore (ls : List Script.Lexeme) (e : Expr) : Prop :=
  ∀ rest, rest.head?.any (·.kind == .word) = false → leading? (ls ++ rest) = none ∧
    ∃ bound, ∀ n, bound ≤ n → core (operand n id) n (ls ++ rest) = some (e, rest)

/-- What has no prefix takes what is written behind it, or gives it to the prefixes in front. -/
theorem IsCore.operand {ls : List Script.Lexeme} {e : Expr} (h : IsCore ls e) (wrap : Expr → Expr)
    {rest : List Script.Lexeme} {xs : List Expr.Suffix} {rest' : List Script.Lexeme} (hrest : Follows rest xs rest') :
    ∃ bound, ∀ n, bound ≤ n → operand n wrap (ls ++ rest) = some (extend (wrap e) xs, rest') := by
  obtain ⟨hlead, bound, hcore⟩ := h rest hrest.noWord
  obtain ⟨bound', hsuffixes⟩ := hrest.reads
  refine ⟨bound + bound' + 1, fun n hn => ?_⟩
  obtain ⟨n, rfl⟩ : ∃ k, n = k + 1 := ⟨n - 1, by omega⟩
  simp [Reading.operand, hlead, hcore n (by omega), hsuffixes n n (by omega) (by omega)]

theorem IsCore.reads {ls : List Script.Lexeme} {e : Expr} (h : IsCore ls e) : Reads ls e :=
  fun wrap _ _ _ _ hrest => h.operand wrap hrest

theorem isCore_leaf {text : String} (h : (leaf text).text = text.toList) :
    IsCore [leaf text] (.name .origin text) := by
  intro rest hrest
  have hkind := leaf_kind text
  have hmark (other : String) : leaf text ≠ mark other := fun heq => hkind (by rw [heq]; rfl)
  refine ⟨?_, 0, fun n _ => ?_⟩
  · simp [leading?, hkind, lambda?, expect, hmark]
  · simp [core, hmark, hkind, hrest, h]

/-! ## prefixes -/

section

variable {apply : Expr → Expr} {lead ls : List Script.Lexeme} {e : Expr}

theorem operand_of_leading (hlead : ∀ rest, leading? (lead ++ rest) = some (apply, rest)) (n : Nat)
    (wrap : Expr → Expr) (rest : List Script.Lexeme) :
    operand (n + 1) wrap (lead ++ rest) = operand n (fun e => wrap (apply e)) rest := by
  rw [operand, hlead]

/-- A prefix in front of an operand without parentheses. -/
theorem Reads.behind (h : Reads ls e) (hlead : ∀ rest, leading? (lead ++ rest) = some (apply, rest))
    (hpasses : Passes apply e.front) (hfront : ∀ e', (apply e').front = (apply e).front) :
    Reads (lead ++ ls) (apply e) := by
  intro wrap rest xs rest' hwrap hrest
  have hinner : Passes (fun e => wrap (apply e)) e.front := by
    intro e' x he'
    rw [hwrap _ x (hfront e'), hpasses e' x he']
  obtain ⟨bound, hread⟩ := h _ rest xs rest' hinner hrest
  refine ⟨bound + 1, fun n hn => ?_⟩
  obtain ⟨n, rfl⟩ : ∃ k, n = k + 1 := ⟨n - 1, by omega⟩
  rw [List.append_assoc, operand_of_leading hlead, hread n (by omega)]

/-- A prefix in front of what nothing can be taken out of. -/
theorem IsCore.behind (h : IsCore ls e) (hlead : ∀ rest, leading? (lead ++ rest) = some (apply, rest)) :
    Reads (lead ++ ls) (apply e) := by
  intro wrap rest xs rest' _ hrest
  obtain ⟨bound, hread⟩ := h.operand (fun e => wrap (apply e)) hrest
  refine ⟨bound + 1, fun n hn => ?_⟩
  obtain ⟨n, rfl⟩ : ∃ k, n = k + 1 := ⟨n - 1, by omega⟩
  rw [List.append_assoc, operand_of_leading hlead, hread n (by omega)]

end

theorem passes_unary (op : UnaryOp) {front : Front} (h : front ≠ .sign) : Passes (.unary .origin op) front := by
  rintro e x rfl
  simp [Expr.under, h]

theorem passes_lambda (names : List String) {front : Front} (h : front ≠ .brace) :
    Passes (lambdaOf names) front := by
  rintro e x rfl
  simp [lambdaOf, Expr.under, h]

theorem leading?_unary (op : UnaryOp) (rest : List Script.Lexeme) :
    leading? ([mark (unarySymbol op)] ++ rest) = some (.unary .origin op, rest) := by
  have hkind : (mark (unarySymbol op)).kind = .mark := rfl
  have happly : Expr.prefixed? (mark (unarySymbol op)).text = some (.unary .origin op) := Expr.prefixed?_unaryOp op
  simp [leading?, hkind, happly]

/-- Names with commas between them are read up to the parenthesis. -/
theorem names?_listed {names : List String} (hne : names ≠ []) (h : ∀ name ∈ names, isNameText name = true)
    (rest : List Script.Lexeme) :
    names? (listed (names.map fun name => [leaf name]) ++ mark ")" :: rest) = some (names, rest) := by
  induction names with
  | nil => exact absurd rfl hne
  | cons name names ih =>
      have hleaf := leaf_of_word (h name List.mem_cons_self)
      cases names with
      | nil => simp [listed, names?, hleaf]
      | cons other names =>
          have hothers := ih (by simp) fun name hname => h name (List.mem_cons_of_mem _ hname)
          have hcomma : mark "," ≠ mark ")" := by decide
          rw [List.map_cons] at hothers
          rw [List.map_cons, List.map_cons, listed_cons]
          simp [names?, hleaf, hcomma, hothers]

theorem leading?_lambda {names : List String} (h : ∀ name ∈ names, isNameText name = true)
    (rest : List Script.Lexeme) :
    leading? (parens (listed (names.map fun name => [leaf name])) ++ [mark "=>"] ++ rest) =
      some (lambdaOf names, rest) := by
  have hunary : Expr.prefixed? (mark "(").text = none := rfl
  have hlambda : lambda? (parens (listed (names.map fun name => [leaf name])) ++ [mark "=>"] ++ rest) =
      some (names, rest) := by
    cases names with
    | nil => simp [lambda?, parens, listed]
    | cons name names =>
        have hnames := names?_listed (by simp) h (mark "=>" :: rest)
        have hopen : ∀ rest, expect ")" (listed ((name :: names).map fun name => [leaf name]) ++ rest) = none := by
          intro rest
          have hne : leaf name ≠ mark ")" := fun heq => leaf_kind name (by rw [heq]; rfl)
          cases names <;> simp [listed, expect, hne]
        generalize listed ((name :: names).map fun name => [leaf name]) = ls at hnames hopen ⊢
        simp [lambda?, parens, hopen, hnames]
  have hcons : parens (listed (names.map fun name => [leaf name])) ++ [mark "=>"] ++ rest =
      mark "(" :: (listed (names.map fun name => [leaf name]) ++ [mark ")"] ++ [mark "=>"] ++ rest) := rfl
  rw [hcons] at hlambda ⊢
  simp only [leading?, hunary, hlambda]
  rfl

/-! ## parts between brackets -/

/-- The start of a part is no closing bracket. -/
def Opens (ls : List Script.Lexeme) : Prop :=
  ∃ l tail, ls = l :: tail ∧ isAmong [")", "]", "\x7d"] l = false

theorem Opens.expect_none {ls : List Script.Lexeme} (h : Opens ls) (closing : String)
    (hclosing : closing ∈ [")", "]", "\x7d"]) (rest : List Script.Lexeme) : expect closing (ls ++ rest) = none := by
  obtain ⟨l, tail, rfl, hl⟩ := h
  have hsubset : [closing] ⊆ [")", "]", "\x7d"] := by simpa using hclosing
  refine Script.expect_none fun l' hl' => isAmong_mono hsubset ?_
  obtain rfl : l = l' := by simpa using hl'
  exact hl

/-- Lexemes are read as a part, in front of what ends it. -/
structure IsPart {α : Type} (item : Nat → LexemeReader α) (ls : List Script.Lexeme) (a : α) : Prop where
  opens : Opens ls
  reads : ∀ {l}, Stops l → ∀ rest, ∃ bound, ∀ n, bound ≤ n → item n (ls ++ l :: rest) = some (a, l :: rest)

/-- Parts with commas between them are read up to the bracket behind them. -/
theorem separated_listed {α : Type} {item : Nat → LexemeReader α} (closing : String)
    (hclosing : closing ∈ [")", "]", "\x7d"]) {lss : List (List Script.Lexeme)} {parts : List α}
    (h : List.Forall₂ (IsPart item) lss parts) (rest : List Script.Lexeme) :
    ∃ bound, ∀ m n, bound ≤ m → bound ≤ n →
      separated (item m) closing n (listed lss ++ mark closing :: rest) = some (parts, rest) := by
  have hstops : Stops (mark closing) := stops_of_mark _ (by
    simp only [List.mem_cons, List.not_mem_nil, or_false] at hclosing
    obtain rfl | rfl | rfl := hclosing <;> decide)
  have hcomma : expect "," (mark closing :: rest) = none := by
    simp only [List.mem_cons, List.not_mem_nil, or_false] at hclosing
    obtain rfl | rfl | rfl := hclosing <;> rfl
  induction h with
  | nil =>
      refine ⟨1, fun m n _ hn => ?_⟩
      obtain ⟨n, rfl⟩ : ∃ k, n = k + 1 := ⟨n - 1, by omega⟩
      simp [separated, listed]
  | @cons ls a lss parts hpart hparts ih =>
      cases hparts with
      | nil =>
          obtain ⟨bound, hread⟩ := hpart.reads hstops rest
          refine ⟨bound + 1, fun m n hm hn => ?_⟩
          obtain ⟨n, rfl⟩ : ∃ k, n = k + 1 := ⟨n - 1, by omega⟩
          simp [separated, listed, hpart.opens.expect_none _ hclosing, hread m (by omega), hcomma]
      | @cons ls' a' lss parts hpart' hparts =>
          obtain ⟨bound, hothers⟩ := ih
          obtain ⟨bound', hread⟩ := hpart.reads (stops_of_mark "," (by decide))
            (listed (ls' :: lss) ++ mark closing :: rest)
          refine ⟨bound + bound' + 1, fun m n hm hn => ?_⟩
          obtain ⟨n, rfl⟩ : ∃ k, n = k + 1 := ⟨n - 1, by omega⟩
          rw [listed_cons, List.append_assoc, List.cons_append]
          simp [separated, hpart.opens.expect_none _ hclosing, hread m (by omega), hothers m n (by omega) (by omega)]

theorem Reads.isPart {ls : List Script.Lexeme} {e : Expr} (h : Reads ls e) (hopens : Opens ls) :
    IsPart (fun n => operand n id) ls e :=
  ⟨hopens, fun hl rest => h.part hl rest⟩

/-- A positional argument. -/
theorem Reads.argument {ls : List Script.Lexeme} {e : Expr} (h : Reads ls e) (hopens : Opens ls)
    (hspread : ∀ rest, expect "..." (ls ++ rest) = none) :
    IsPart (fun n => argument (operand n id)) ls (.positional e) := by
  refine ⟨hopens, fun {l} hl rest => ?_⟩
  obtain ⟨bound, hread⟩ := h.part hl rest
  exact ⟨bound, fun n hn => by simp [Reading.argument, hspread, hread n hn]⟩

/-- An argument that stands for several ones. -/
theorem Reads.starred {ls : List Script.Lexeme} {e : Expr} (h : Reads ls e) :
    IsPart (fun n => Reading.argument (operand n id)) (mark "..." :: ls) (.starred e) := by
  refine ⟨⟨_, _, rfl, by decide⟩, fun {l} hl rest => ?_⟩
  obtain ⟨bound, hread⟩ := h.part hl rest
  exact ⟨bound, fun n hn => by simp [Reading.argument, hread n hn]⟩

/-- An entry of a dict. -/
theorem Reads.entry {ls : List Script.Lexeme} {e : Expr} (h : Reads ls e) {key : String}
    (hkey : (leaf key).text = key.toList) :
    IsPart (fun n => entry (operand n id)) (leaf key :: mark ":" :: ls) (.name .origin key, e) := by
  refine ⟨⟨_, _, rfl, isAmong_leaf _ _⟩, fun {l} hl rest => ?_⟩
  obtain ⟨bound, hread⟩ := h.part hl rest
  exact ⟨bound, fun n hn => by simp [Reading.entry, hread n hn, hkey]⟩

/-! ## what is written behind an expression -/

section

variable {rest rest' : List Script.Lexeme} {xs : List Expr.Suffix}

theorem Follows.attribute (h : Follows rest xs rest') {attr : String} (hattr : (leaf attr).text = attr.toList) :
    Follows ([mark ".", leaf attr] ++ rest) (.attribute .origin ⟨attr, .origin⟩ :: xs) rest' := by
  obtain ⟨-, bound, hrest⟩ := h
  refine ⟨rfl, bound + 1, fun m n hm hn => ?_⟩
  obtain ⟨n, rfl⟩ : ∃ k, n = k + 1 := ⟨n - 1, by omega⟩
  simp [suffixes, hattr, hrest m n (by omega) (by omega)]

theorem Follows.subscript (h : Follows rest xs rest') {ls : List Script.Lexeme} {index : Expr}
    (hindex : Reads ls index) :
    Follows (mark "[" :: (ls ++ [mark "]"]) ++ rest) (.subscript .origin index :: xs) rest' := by
  obtain ⟨-, bound, hrest⟩ := h
  obtain ⟨bound', hread⟩ := hindex.part (stops_of_mark "]" (by decide)) rest
  refine ⟨rfl, bound + bound' + 1, fun m n hm hn => ?_⟩
  obtain ⟨n, rfl⟩ : ∃ k, n = k + 1 := ⟨n - 1, by omega⟩
  have hpoint : mark "[" ≠ mark "." := by decide
  simp [suffixes, hpoint, hread m (by omega), hrest m n (by omega) (by omega)]

theorem Follows.call (h : Follows rest xs rest') {lss : List (List Script.Lexeme)} {args : List Arg}
    (hargs : List.Forall₂ (IsPart fun n => argument (operand n id)) lss args) :
    Follows (parens (listed lss) ++ rest) (.call .origin args :: xs) rest' := by
  obtain ⟨-, bound, hrest⟩ := h
  obtain ⟨bound', hread⟩ := separated_listed ")" (by simp) hargs rest
  refine ⟨rfl, bound + bound' + 1, fun m n hm hn => ?_⟩
  obtain ⟨n, rfl⟩ : ∃ k, n = k + 1 := ⟨n - 1, by omega⟩
  have hne : mark "(" ≠ mark "." ∧ mark "(" ≠ mark "[" := by decide
  simp [suffixes, parens, hne, hread m n (by omega) (by omega), hrest m n (by omega) (by omega)]

end

/-! ## what nothing can be taken out of -/

section

variable {ls ls' ls'' : List Script.Lexeme} {e e' e'' : Expr}

/-- What is in parentheses is no head of a lambda, if it does not start with names between commas. -/
theorem leading?_parens (hopens : Opens ls) (hnames : ∀ rest, names? (ls ++ mark ")" :: rest) = none)
    (rest : List Script.Lexeme) : leading? (parens ls ++ rest) = none := by
  have hunary : Expr.prefixed? (mark "(").text = none := rfl
  have hopen := hopens.expect_none ")" (by simp) (mark ")" :: rest)
  have hlambda : lambda? (mark "(" :: (ls ++ mark ")" :: rest)) = none := by
    simp [lambda?, hopen, hnames]
  simp only [parens, List.cons_append, List.append_assoc, List.nil_append, leading?, hunary, hlambda]
  rfl

theorem isCore_group (hopens : Opens ls) (hnames : ∀ rest, names? (ls ++ mark ")" :: rest) = none)
    (h : ∀ rest, ∃ bound, ∀ n, bound ≤ n → group (operand n id) (ls ++ mark ")" :: rest) = some (e, rest)) :
    IsCore (parens ls) e := by
  intro rest _
  obtain ⟨bound, hread⟩ := h rest
  refine ⟨leading?_parens hopens hnames rest, bound, fun n hn => ?_⟩
  simp [core, parens, hread n hn]

/-- An expression by itself in parentheses. -/
theorem isCore_parens (h : Reads ls e) (hopens : Opens ls)
    (hnames : ∀ rest, names? (ls ++ mark ")" :: rest) = none) : IsCore (parens ls) e := by
  refine isCore_group hopens hnames fun rest => ?_
  obtain ⟨bound, hread⟩ := h.part (stops_of_mark ")" (by decide)) rest
  exact ⟨bound, fun n hn => by simp [group, hread n hn]⟩

/-- Two operands with an operator between them. -/
theorem isCore_joined {symbol : String} {join : Expr → Expr → Expr} (hjoin : Expr.joined? symbol.toList = some join)
    (hsymbol : symbol ∈ "**" :: binaryLevels.flatten) (h : Reads ls e) (h' : Reads ls' e')
    (hopens : Opens (ls ++ mark symbol :: ls'))
    (hnames : ∀ rest, names? (ls ++ mark symbol :: rest) = none) :
    IsCore (parens (ls ++ mark symbol :: ls')) (join e e') := by
  have hall : ∀ symbol ∈ "**" :: binaryLevels.flatten, symbol ∉ [".", "[", "("] ∧ symbol ≠ ")" ∧ symbol ≠ "?" := by
    decide
  obtain ⟨hstops, hclose, hquestion⟩ := hall symbol hsymbol
  refine isCore_group hopens (fun rest => ?_) fun rest => ?_
  · rw [List.append_assoc, List.cons_append]
    exact hnames _
  · obtain ⟨bound, hleft⟩ := h.part (stops_of_mark _ hstops) (ls' ++ mark ")" :: rest)
    obtain ⟨bound', hright⟩ := h'.part (stops_of_mark ")" (by decide)) rest
    have htext : (mark symbol).text = symbol.toList := rfl
    refine ⟨bound + bound', fun n hn => ?_⟩
    simp [group, hleft n (by omega), hright n (by omega), mark_inj, hclose, hquestion, htext, hjoin]

/-- A conditional. -/
theorem isCore_ternary (h : Reads ls e) (h' : Reads ls' e') (h'' : Reads ls'' e'')
    (hopens : Opens (ls ++ mark "?" :: (ls' ++ mark ":" :: ls'')))
    (hnames : ∀ rest, names? (ls ++ mark "?" :: rest) = none) :
    IsCore (parens (ls ++ mark "?" :: (ls' ++ mark ":" :: ls''))) (.ternary .origin e e' e'') := by
  refine isCore_group hopens (fun rest => ?_) fun rest => ?_
  · rw [List.append_assoc, List.cons_append]
    exact hnames _
  · obtain ⟨bound, htest⟩ := h.part (stops_of_mark "?" (by decide))
      (ls' ++ mark ":" :: (ls'' ++ mark ")" :: rest))
    obtain ⟨bound', hbody⟩ := h'.part (stops_of_mark ":" (by decide)) (ls'' ++ mark ")" :: rest)
    obtain ⟨bound'', horelse⟩ := h''.part (stops_of_mark ")" (by decide)) rest
    refine ⟨bound + bound' + bound'', fun n hn => ?_⟩
    simp [group, htest n (by omega), hbody n (by omega), horelse n (by omega), mark_inj]

theorem isCore_list {lss : List (List Script.Lexeme)} {items : List Expr}
    (h : List.Forall₂ (IsPart fun n => operand n id) lss items) :
    IsCore (mark "[" :: (listed lss ++ [mark "]"])) (.list .origin items) := by
  intro rest _
  obtain ⟨bound, hread⟩ := separated_listed "]" (by simp) h rest
  refine ⟨rfl, bound, fun n hn => ?_⟩
  simp [core, mark_inj, hread n n hn hn]

theorem isCore_dict {lss : List (List Script.Lexeme)} {entries : List (Expr × Expr)}
    (h : List.Forall₂ (IsPart fun n => entry (operand n id)) lss entries) :
    IsCore (mark "\x7b" :: (listed lss ++ [mark "\x7d"])) (.dict .origin entries) := by
  intro rest _
  obtain ⟨bound, hread⟩ := separated_listed "\x7d" (by simp) h rest
  refine ⟨rfl, bound, fun n hn => ?_⟩
  simp [core, mark_inj, hread n n hn hn]

theorem isCore_construct {name : String} (hname : isNameText name = true) {lss : List (List Script.Lexeme)}
    {args : List Arg} (h : List.Forall₂ (IsPart fun n => argument (operand n id)) lss args) :
    IsCore (leaf "new" :: ([leaf name] ++ parens (listed lss))) (.call .origin (.name .origin name) args) := by
  intro rest _
  obtain ⟨bound, hread⟩ := separated_listed ")" (by simp) h rest
  have hleaf := leaf_of_word hname
  refine ⟨rfl, bound, fun n hn => ?_⟩
  have hmark (other : String) : leaf "new" ≠ mark other := fun heq => leaf_kind "new" (by rw [heq]; rfl)
  simp [core, hmark, leaf_kind, hleaf, construction, parens, hread n n hn hn]

end

end Reading

end ViewSync
