import ViewSync.Proofs.Parser.Levels
import ViewSync.Proofs.Parser.Rounds
import ViewSync.Token.Lex

/-!
# ViewSync.Proofs.Parser.RoundTrip

Parsing undoes writing: the tokens of a tree, with parentheses only where the table of precedence asks for them, are
read as that tree. The induction is on the tree for what stands around operators, and on the bound of the recursion for
what stands inside brackets; there are always fewer tokens inside than the bound allows.
-/

namespace ViewSync.Parser

variable {sub : Sub} {b : Nat} {e : Expr}

/-- The parsers for inner expressions read all trees of less than so many tokens. -/
def Covers (sub : Sub) (b : Nat) : Prop :=
  ∀ e : Expr, e.Plain → e.printedFull.length < b → ReadsFull sub e

/-- A tree is read at every row where it has no more than so many tokens. -/
def ReadsRows (sub : Sub) (b : Nat) (e : Expr) : Prop :=
  ∀ level ≤ 13, (e.printedAt level).length ≤ b → ReadsAt sub level (e.printedAt level) e

/-! ## what stands inside brackets -/

theorem Covers.items {items : List Expr} (hsub : Covers sub b) (hplain : ∀ item ∈ items, item.Plain)
    (hlength : (Phrase.listed (items.map Expr.printedFull)).length < b) : ∀ item ∈ items, ReadsFull sub item := by
  intro item hitem
  have hle : item.printedFull.length ≤ _ := Phrase.length_le_listed (List.mem_map_of_mem hitem)
  exact hsub item (hplain item hitem) (Nat.lt_of_le_of_lt hle hlength)

/-- The items of a tuple that is not too long. -/
theorem Covers.tuple {span : Span} {first : Expr} {rest : List Expr} (hsub : Covers sub b)
    (h : (Expr.tuple span (first :: rest)).Plain) (hlength : (Expr.tuple span (first :: rest)).printed.length < b) :
    ∀ item ∈ first :: rest, ReadsFull sub item := by
  intro item hitem
  rw [Expr.printed_tuple] at hlength
  have hle : item.printedFull.length ≤ _ := Phrase.length_le_tupled (List.mem_map_of_mem hitem)
  exact hsub item (h.of_mem hitem) (Nat.lt_of_le_of_lt hle hlength)

theorem Covers.full (hsub : Covers sub b) (h : e.Plain) (hlevel : e.level ≤ 13) (hlength : e.printed.length < b) :
    ReadsFull sub e := by
  refine hsub e h ?_
  rwa [Expr.printedFull, Phrase.length_inside, Expr.printedAt_of_le hlevel]

theorem Covers.alone (hsub : Covers sub b) (h : e.Plain) (hlength : e.printed.length < b) : ReadsAlone sub e := by
  rcases Nat.lt_or_ge 13 e.level with hlevel | hlevel
  · obtain ⟨span, first, rest, rfl⟩ := Expr.exists_tuple hlevel
    exact readsAlone_tuple (hsub.tuple h hlength)
  · exact (hsub.full h hlevel hlength).alone hlevel

theorem Covers.parenthesized (hsub : Covers sub b) (h : e.Plain) (hlength : e.printed.length < b) :
    Takes (parenthesized sub) (.between .leftParen .rightParen e.printedAlone) (fun _ => True) (Same e) := by
  rcases Nat.lt_or_ge 13 e.level with hlevel | hlevel
  · obtain ⟨span, first, rest, rfl⟩ := Expr.exists_tuple hlevel
    exact takes_parenthesized_tuple (hsub.tuple h hlength)
  · rw [Expr.printedAlone_of_le hlevel]
    exact takes_parenthesized (hsub.full h hlevel hlength)

/-! ## one node -/

section nodes

variable {span : Span}

/-- An atom that may be followed by anything. -/
theorem readsSuffixed_of_atom {w : Phrase} (h : Takes (atom sub) w (fun _ => True) (Same e)) : ReadsSuffixed sub w e :=
  (h.weaken fun _ _ => trivial).readsSuffixed

theorem reads_list {items : List Expr} (hsub : Covers sub b) (h : (Expr.list span items).Plain)
    (hlength : (Expr.list span items).printed.length ≤ b) :
    ReadsSuffixed sub (Expr.list span items).printed (.list span items) := by
  have hplain : ∀ item ∈ items, item.Plain := fun item hitem => h.of_mem hitem
  have hitems : ∀ item ∈ items, ReadsFull sub item := by
    rw [Expr.printed_list] at hlength
    refine hsub.items hplain ?_
    simp at hlength
    omega
  exact readsSuffixed_of_atom (takes_list hitems).atom_list

theorem reads_dict {entries : List (Expr × Expr)} (hsub : Covers sub b) (h : (Expr.dict span entries).Plain)
    (hlength : (Expr.dict span entries).printed.length ≤ b) :
    ReadsSuffixed sub (Expr.dict span entries).printed (.dict span entries) := by
  have hplain : ∀ entry ∈ entries, entry.1.Plain ∧ entry.2.Plain := by
    intro entry hentry
    constructor
    · exact h.of_mem (List.mem_flatMap.2 ⟨entry, hentry, by simp⟩)
    · exact h.of_mem (List.mem_flatMap.2 ⟨entry, hentry, by simp⟩)
  have hentries : ∀ entry ∈ entries, ReadsFull sub entry.1 ∧ ReadsFull sub entry.2 := by
    intro entry hentry
    have hle := Phrase.length_le_listed (List.mem_map_of_mem (f := Expr.printedEntry) hentry)
    rw [Expr.printed_dict] at hlength
    simp [Expr.printedEntry] at hlength hle
    constructor
    · exact hsub _ (hplain entry hentry).1 (by omega)
    · exact hsub _ (hplain entry hentry).2 (by omega)
  exact readsSuffixed_of_atom (takes_dict hentries).atom_dict

theorem reads_attribute {value : Expr} {attr : Ident} (hvalue : ReadsRows sub b value)
    (hlength : (Expr.attribute span value attr).printed.length ≤ b) :
    ReadsSuffixed sub (Expr.attribute span value attr).printed (.attribute span value attr) := by
  have hle : (value.printedAt 0 ++ (.token (.symbol .dot) ++ .token (.identifier attr.name))).length ≤ b := hlength
  simp at hle
  exact ((hvalue 0 (by decide) (by omega)).suffixed rfl).attribute span attr

theorem reads_subscript {value index : Expr} (hsub : Covers sub b) (hvalue : ReadsRows sub b value)
    (hindex : index.Plain) (hlength : (Expr.subscript span value index).printed.length ≤ b) :
    ReadsSuffixed sub (Expr.subscript span value index).printed (.subscript span value index) := by
  have hle : (value.printedAt 0 ++ .between .leftBracket .rightBracket index.printedAlone).length ≤ b := hlength
  simp [Expr.printedAlone] at hle
  have hvalue' := (hvalue 0 (by decide) (by omega)).suffixed rfl
  exact hvalue'.subscript (hsub.alone hindex (by omega)) hindex.opens_alone span

theorem reads_call {callee : Expr} {args : List Arg} (hsub : Covers sub b) (hcallee : ReadsRows sub b callee)
    (hargs : ∀ a ∈ args, a.value.Plain) (hlength : (Expr.call span callee args).printed.length ≤ b) :
    ReadsSuffixed sub (Expr.call span callee args).printed (.call span callee args) := by
  rw [Expr.printed_call] at hlength
  simp at hlength
  have hvalues : ∀ a ∈ args, ReadsFull sub a.value := by
    intro a ha
    have hprinted := Phrase.length_le_listed (List.mem_map_of_mem (f := Arg.printed) ha)
    have hvalue : a.value.printedFull.length ≤ a.printed.length := by
      cases a with
      | keyword key e =>
          simp [Arg.value, Arg.printed]
          omega
      | _ => simp [Arg.value, Arg.printed]
    exact hsub a.value (hargs a ha) (by omega)
  have hcallee' := (hcallee 0 (by decide) (by omega)).suffixed rfl
  exact hcallee'.call hvalues span

theorem reads_binary {left right : Expr} {op : BinaryOp} (hleft : ReadsRows sub b left) (hright : ReadsRows sub b right)
    (hplain : left.Plain) (hlength : (Expr.binary span left op right).printed.length ≤ b) :
    ReadsAt sub op.level (Expr.binary span left op right).printed (.binary span left op right) := by
  have hle : (left.printedAt op.leftLevel ++ (.token op.token ++ right.printedAt op.rightLevel)).length ≤ b := hlength
  simp at hle
  by_cases hop : op = .pow
  · subst hop
    have hleft' := hleft 0 (by decide) (by simp [BinaryOp.leftLevel] at hle; omega)
    have hright' := hright 1 (by decide) (by simp [BinaryOp.rightLevel] at hle; omega)
    exact (Reads.pow hleft'.reads (hplain.opens_at 0) hright'.reads span).readsAt (by decide)
  · have hlevels : op.leftLevel = op.level ∧ op.rightLevel = op.level - 1 ∧ op.level ≤ 13 := by
      cases op <;> first | exact absurd rfl hop | decide
    obtain ⟨hleftLevel, hrightLevel, hlevel⟩ := hlevels
    rw [hleftLevel, hrightLevel] at hle
    have hleft' := (hleft op.level hlevel (by omega)).left op hop rfl
    have hright' := (hright (op.level - 1) (by omega) (by omega)).reads
    exact (hleft'.binary hop hright' span).readsAt hop

theorem reads_unary {operand : Expr} {op : UnaryOp} (hoperand : ReadsRows sub b operand)
    (hlength : (Expr.unary span op operand).printed.length ≤ b) :
    ReadsAt sub op.level (Expr.unary span op operand).printed (.unary span op operand) := by
  have hle : (.token op.token ++ operand.printedAt op.level : Phrase).length ≤ b := hlength
  simp at hle
  have hoperand' := (hoperand op.level (by cases op <;> decide) (by omega)).reads
  by_cases hop : op = .not
  · subst hop
    exact (hoperand'.negation span).readsAt (by decide)
  · have hlevel : op.level = 1 := by cases op <;> first | exact absurd rfl hop | rfl
    rw [hlevel] at hoperand' ⊢
    exact (Reads.sign hop hoperand' span).readsAt (by decide)

theorem length_printedOperands {rest : List (CompareOp × Expr)} {operand : CompareOp × Expr} (h : operand ∈ rest) :
    (operand.2.printedAt 7).length ≤ (Expr.printedOperands rest).length := by
  induction rest with
  | nil => cases h
  | cons first rest ih =>
      have hprinted : (Expr.printedOperands (first :: rest)).length =
          first.1.printed.length + ((first.2.printedAt 7).length + (Expr.printedOperands rest).length) := by
        simp [Expr.printedOperands, Expr.printedAt]
      rcases List.mem_cons.1 h with rfl | hmem
      · omega
      · have := ih hmem
        omega

theorem reads_compare {left : Expr} {rest : List (CompareOp × Expr)} (h : (Expr.compare span left rest).Plain)
    (hrows : ∀ child ∈ (Expr.compare span left rest).children, ReadsRows sub b child)
    (hlength : (Expr.compare span left rest).printed.length ≤ b) :
    ReadsAt sub 8 (Expr.compare span left rest).printed (.compare span left rest) := by
  have hle : (left.printedAt 7 ++ Expr.printedOperands rest).length ≤ b := hlength
  simp at hle
  have hleft := (hrows left (List.mem_cons_self ..) 7 (by decide) (by omega)).reads
  have hoperands : ∀ o ∈ rest, Reads sub 7 (o.2.printedAt 7) o.2 ∧ (o.2.printedAt 7).Opens 7 := by
    intro operand hmem
    have hchild : operand.2 ∈ (Expr.compare span left rest).children :=
      List.mem_cons_of_mem left (List.mem_map_of_mem (f := Prod.snd) hmem)
    have hlength' := length_printedOperands hmem
    exact ⟨(hrows operand.2 hchild 7 (by decide) (by omega)).reads, (h.of_mem hchild).opens_at 7⟩
  cases rest with
  | nil => cases (Expr.plain_iff.1 h).1
  | cons operand rest => exact (hleft.compare hoperands span).readsAt (by decide)

theorem reads_ternary {test body orelse : Expr} (hsub : Covers sub b) (hbody : ReadsRows sub b body)
    (htest : ReadsRows sub b test) (horelse : orelse.Plain)
    (hlength : (Expr.ternary span test body orelse).printed.length ≤ b) :
    ReadsAt sub 12 (Expr.ternary span test body orelse).printed (.ternary span test body orelse) := by
  have hle : (body.printedAt 11 ++ (.token (.keyword .if_) ++ (test.printedAt 11 ++
      (.token (.keyword .else_) ++ orelse.printedFull)))).length ≤ b := hlength
  simp at hle
  have hbody' := (hbody 11 (by decide) (by omega)).reads
  have htest' := (htest 11 (by decide) (by omega)).reads
  exact (hbody'.ternary htest' (hsub orelse horelse (by omega)) span).readsAt (by decide)

theorem reads_lambda {ps : List Param} {body : Expr} (hsub : Covers sub b) (h : (Expr.lambda span ps body).Plain)
    (hlength : (Expr.lambda span ps body).printed.length ≤ b) :
    ReadsAt sub 13 (Expr.lambda span ps body).printed (.lambda span ps body) := by
  rw [Expr.printed_lambda] at hlength
  simp at hlength
  have hparams : ∀ p ∈ ps, ∀ e ∈ p.default?, ReadsFull sub e := by
    intro p hp e he
    have hplain : e.Plain := h.of_mem (List.mem_cons_of_mem body (List.mem_filterMap.2 ⟨p, hp, he⟩))
    have hprinted := Phrase.length_le_listed (List.mem_map_of_mem (f := Param.printed) hp)
    have hvalue : e.printedFull.length ≤ p.printed.length := by
      obtain ⟨id, default, pspan⟩ := p
      cases he
      simp [Param.printed]
      omega
    exact hsub e hplain (by omega)
  exact (Reads.lambda hparams (hsub body (h.of_mem (List.mem_cons_self ..)) (by omega)) span).readsAt (by decide)

end nodes

/-! ## all nodes -/

theorem reads_node (hsub : Covers sub b) (h : e.Plain) (hrows : ∀ child ∈ e.children, ReadsRows sub b child)
    (hlevel : e.level ≤ 13) (hlength : e.printed.length ≤ b) : ReadsAt sub e.level e.printed e := by
  cases e with
  | int => exact (readsSuffixed_of_atom (takes_leaf rfl)).readsAt
  | float => exact (readsSuffixed_of_atom (takes_leaf rfl)).readsAt
  | bool => exact (readsSuffixed_of_atom (takes_leaf rfl)).readsAt
  | none => exact (readsSuffixed_of_atom (takes_leaf rfl)).readsAt
  | name => exact (readsSuffixed_of_atom (takes_leaf rfl)).readsAt
  | str span text => exact (takes_atom_str span text).readsSuffixed.readsAt
  | list => exact (reads_list hsub h hlength).readsAt
  | dict => exact (reads_dict hsub h hlength).readsAt
  | tuple _ items =>
      cases items with
      | nil => exact (readsSuffixed_of_atom takes_parenthesized_empty.atom_parenthesized).readsAt
      | cons => exact absurd (show 14 ≤ 13 from hlevel) (by decide)
  | «attribute» _ value _ => exact (reads_attribute (hrows value (List.mem_cons_self ..)) hlength).readsAt
  | subscript _ value index =>
      have hindex : index.Plain := h.of_mem (by simp [Expr.children])
      exact (reads_subscript hsub (hrows value (List.mem_cons_self ..)) hindex hlength).readsAt
  | call _ callee args =>
      have hargs : ∀ a ∈ args, a.value.Plain := fun a ha => h.of_mem (List.mem_cons_of_mem _ (List.mem_map_of_mem ha))
      exact (reads_call hsub (hrows callee (List.mem_cons_self ..)) hargs hlength).readsAt
  | binary _ left op right =>
      have hleft := hrows left (List.mem_cons_self ..)
      have hright := hrows right (by simp [Expr.children])
      exact reads_binary hleft hright (h.of_mem (List.mem_cons_self ..)) hlength
  | unary _ op operand => exact reads_unary (hrows operand (List.mem_cons_self ..)) hlength
  | compare => exact reads_compare h hrows hlength
  | ternary _ test body orelse =>
      have hbody := hrows body (by simp [Expr.children])
      have htest := hrows test (by simp [Expr.children])
      exact reads_ternary hsub hbody htest (h.of_mem (by simp [Expr.children])) hlength
  | lambda => exact reads_lambda hsub h hlength
  | slice => cases (Expr.plain_iff.1 h).1
  | comprehension => cases (Expr.plain_iff.1 h).1
  | yield => cases (Expr.plain_iff.1 h).1

/-- A tree is read with parentheses where it needs them, and without them elsewhere. -/
theorem readsRows (hsub : Covers sub b) (h : e.Plain) : ReadsRows sub b e := by
  induction h with
  | @node e form children ih =>
      have hplain : e.Plain := .node form children
      intro level hlevel hlength
      rcases Nat.lt_or_ge level e.level with hlt | hge
      · rw [Expr.printedAt_of_lt hlt] at hlength ⊢
        simp [Expr.printedAlone] at hlength
        have hatom := (hsub.parenthesized hplain (by omega)).atom_parenthesized
        refine (readsSuffixed_of_atom hatom).readsAt.mono ?_ (Nat.zero_le _) hlevel
        exact Phrase.opens_between (Nat.le_refl 0) (by decide) ((hplain.opens_alone).fronted (by decide))
      · rw [Expr.printedAt_of_le hge] at hlength ⊢
        have hnode := reads_node hsub hplain (fun child hchild => ih child hchild) (by omega) hlength
        exact hnode.mono hplain.opens hge hlevel

/-! ## recursion -/

theorem covers_parseAt (b : Nat) : Covers (parseAt b) b := by
  induction b with
  | zero => exact fun _ _ hlength => absurd hlength (Nat.not_lt_zero _)
  | succ b ih =>
      intro e h hlength
      have hrule : Takes (rule (parseAt b) 13 _) (e.printedAt 13) (Ends 13) (Same e) :=
        (readsRows ih h 13 (Nat.le_refl 13) (Nat.le_of_lt_succ hlength)).reads _ (Nat.le_refl _)
      exact ⟨hrule.nested, h.opens_full⟩

/-- Any expression of its own is read. -/
theorem covers_expressionAt (b : Nat) : Covers expressionAt b :=
  fun e h _ => {
    takes := .bounded fun bound hlength => (covers_parseAt (bound + 1) e h (Nat.lt_succ_of_le hlength)).takes
    opens := h.opens_full
  }

/-! ## statements and sources -/

theorem Takes.attempt {α : Type} {p : Parser α} {w : Phrase} {follow : TokenKind → Prop} {post : α → Prop}
    (h : Takes p w follow post) : Takes (attempt p) w follow fun r => ∃ a, r = some a ∧ post a := by
  intro s used more hfaces hnext
  obtain ⟨a, s', hdone, hbehind, ha⟩ := h s used more hfaces hnext
  have hattempt : Parser.attempt p s = .done (some a) s' := by
    unfold Parser.attempt
    rw [hdone]
  exact ⟨some a, s', hattempt, hbehind, a, rfl, ha⟩

theorem takes_lineEnd : Takes lineEnd (.token .newline) (fun _ => True) fun _ => True := by
  intro s used more hfaces _
  have hpeek : s.peek.kind = .newline := hfaces.peek
  obtain ⟨t, hrest, -⟩ := hfaces.token
  have hdone : lineEnd s = .done () s.advance := by simp only [lineEnd, hpeek]
  exact ⟨(), _, hdone, ParseState.behind_advance hrest, trivial⟩

/-- A phrase that is read as an expression on a line of its own. -/
structure ReadsPhrase (w : Phrase) (e : Expr) : Prop where
  takes : Takes (expressionList expressionAt) w EndsAlone (Same e)
  opens : w.Opens 14

variable {w : Phrase}

/-- A statement that is only an expression. -/
def IsExpr (e : Expr) (stmt : Stmt) : Prop := ∃ span e', stmt = .expr span e' ∧ Same e e'

theorem takes_assignment (h : ReadsPhrase w e) (start : Span) :
    Takes (assignment start) w (· = .newline) (IsExpr e) := by
  have hvalues : Takes assignedValues .empty (· = .newline) fun values => values = [] := by
    refine .loop (.last (.eat_ne (fun next hnext => ?_) (.pure ⟨[], rfl, rfl⟩)))
    rw [Phrase.kinds_empty, List.headD_nil, hnext]
    exact nofun
  unfold assignment
  refine h.takes.bind_end (fun e' he' => ?_) fun k hk => ?_
  · refine hvalues.bind_end (fun values hnil => ?_) fun _ hk => hk
    subst hnil
    refine .kind_nil fun next hnext => ?_
    subst hnext
    exact .last fun _ => .pure ⟨_, e', rfl, he'⟩
  · subst hk
    exact ⟨by decide, rfl⟩

theorem takes_simple (h : ReadsPhrase w e) : Takes simple (w ++ .token .newline) (fun _ => True) (IsExpr e) := by
  obtain ⟨k, rest, hkinds, hk, -⟩ := h.opens
  have hbody : Takes simpleBody w (· = .newline) (IsExpr e) := by
    unfold simpleBody
    refine .here fun start => .kind_head (k := k) (by rw [hkinds, List.head?_cons]) ?_
    split
    · exact absurd hk (by decide)
    · exact absurd hk (by decide)
    · exact absurd hk (by decide)
    · exact takes_assignment h start
  exact hbody.bind (fun stmt hstmt => takes_lineEnd.map fun _ _ => hstmt) fun _ _ => rfl

/-- No statement but a simple one starts like an expression. -/
theorem takes_statement (h : ReadsPhrase w e) :
    Takes statement (w ++ .token .newline) (fun _ => True) (IsExpr e) := by
  refine .bounded fun bound hlength => ?_
  obtain ⟨k, rest, hkinds, hk, -⟩ := h.opens
  show Takes (statementWith (statementUpTo bound)) _ _ _
  unfold statementWith
  refine .kind_head (k := k) (by rw [Phrase.kinds_append, hkinds]; rfl) ?_
  split
  case h_7 => exact absurd (show 15 ≤ 14 from hk) (by decide)
  case h_8 => exact takes_simple h
  all_goals exact absurd hk (by decide)

/-- The first round of a source that is one expression. -/
theorem takes_moduleStep (h : ReadsPhrase w e) :
    Takes (moduleStep []) (w ++ .token .newline) (fun _ => True)
      fun r => ∃ acc : List Stmt, r = .inl acc ∧ ∃ stmt, acc = [stmt] ∧ IsExpr e stmt := by
  obtain ⟨k, rest, hkinds, hk, -⟩ := h.opens
  have hhead : (w ++ .token .newline : Phrase).kinds.head? = some k := by
    rw [Phrase.kinds_append, hkinds]
    rfl
  have hrecovered : Takes (recovered statement) (w ++ .token .newline) (fun _ => True)
      fun r => ∃ stmt, r = some stmt ∧ IsExpr e stmt := by
    refine (takes_statement h).attempt.bind_end (fun r hr => ?_) fun _ hk => hk
    obtain ⟨stmt, rfl, hstmt⟩ := hr
    exact .pure ⟨stmt, rfl, hstmt⟩
  have hopens : (w ++ .token .newline : Phrase).Opens 14 := h.opens.append fun heq => by cases heq
  refine .check_ne (fun next _ => hopens.headD_ne (by decide) next) (.tooManyFaults (.kind_head hhead ?_))
  split
  · exact absurd hk (by decide)
  · exact absurd hk (by decide)
  · exact absurd hk (by decide)
  · refine hrecovered.bind_end (fun r hr => ?_) fun _ hk => hk
    obtain ⟨stmt, rfl, hstmt⟩ := hr
    exact .pure ⟨[stmt], rfl, stmt, rfl, hstmt⟩

theorem takes_module (h : ReadsPhrase w e) :
    Takes module_ (w ++ .token .newline) (· = .eof)
      fun m => ∃ span e', m.body = [.expr span e'] ∧ Same e e' := by
  have hloop : Takes (loop moduleStep []) (w ++ .token .newline) (· = .eof)
      fun body : List Stmt => ∃ stmt, body = [stmt] ∧ IsExpr e stmt := by
    rw [← Phrase.append_empty (w ++ .token .newline)]
    refine .loop (.next (takes_moduleStep h) (by simp) (fun acc hacc => ?_) fun _ _ => trivial)
    obtain ⟨stmt, rfl, hstmt⟩ := hacc
    exact .last (.check_eq (fun _ hnext => hnext) (.tooManyFaults (.pure ⟨_, rfl, stmt, rfl, hstmt⟩)))
  refine .here fun start => hloop.bind_end (fun body hbody => .last fun _ => .pure ?_) fun _ hk => hk
  obtain ⟨_, rfl, span, e', rfl, he'⟩ := hbody
  exact ⟨span, e', rfl, he'⟩

theorem readsPhrase_printed (h : e.Plain) : ReadsPhrase e.printedAlone e :=
  ⟨(covers_expressionAt _).alone h (Nat.lt_succ_self _), h.opens_alone⟩

end ViewSync.Parser

namespace ViewSync

/-- A source that is one expression is read without a fault, wherever its tokens stand, if no more than 64 expressions
nest. -/
theorem parse_phrase {w : Phrase} {e : Expr} (h : Parser.ReadsPhrase w e) (hnesting : w.nesting ≤ maxNesting)
    {tokens : List Token} (htokens : tokens.map (·.kind) = w.kinds ++ [.newline, .eof]) :
    ∃ m span e', parse tokens = ⟨some m, []⟩ ∧ m.body = [.expr span e'] ∧ e'.spanless = e.spanless := by
  have hsplit : tokens.map (·.kind) = (w.kinds ++ [.newline]) ++ [.eof] := by
    rw [htokens, List.append_assoc]
    rfl
  obtain ⟨used, more, rfl, hused, hmore⟩ := List.map_eq_append_iff.1 hsplit
  obtain ⟨eof, rfl, heof⟩ := List.map_eq_singleton_iff.1 hmore
  have hroom : (w ++ .token .newline : Phrase).nesting ≤ maxNesting := by
    rw [Phrase.nesting_append]
    exact Nat.max_le.2 ⟨hnesting, Nat.zero_le _⟩
  have hfaces : (ParseState.start (used ++ [eof])).Faces (w ++ .token .newline) used [eof] :=
    ⟨rfl, hused, by simpa [ParseState.start] using hroom, rfl⟩
  obtain ⟨m, s, hdone, hbehind, span, e', hbody, he'⟩ := Parser.takes_module h _ used [eof] hfaces heof
  refine ⟨m, span, e', ?_, hbody, he'⟩
  have hfaults : s.faults = [] := hbehind.faults
  rw [parse, hdone]
  simp [hfaults]

/-- Parsing undoes writing with as few parentheses as the table of precedence allows: the tokens of a tree, wherever
they stand, are read without a fault as a source whose only statement is that tree, if no more than 64 expressions
nest. -/
theorem parse_printed {e : Expr} (h : e.Plain) (hnesting : e.printedAlone.nesting ≤ maxNesting) {tokens : List Token}
    (htokens : tokens.map (·.kind) = e.printedAlone.kinds ++ [.newline, .eof]) :
    ∃ m span e', parse tokens = ⟨some m, []⟩ ∧ m.body = [.expr span e'] ∧ e'.spanless = e.spanless :=
  parse_phrase (Parser.readsPhrase_printed h) hnesting htokens

/-- `lambda`, conditionals, comparisons of one and of two tokens, operators on both sides of their row, and all kinds of
arguments inside each other. -/
def entangled : Expr :=
  let name (id : String) : Expr := .name .origin id
  let ident (id : String) : Ident := ⟨id, .origin⟩
  let power : Expr := .unary .origin .neg (.binary .origin (.int .origin 2) .pow (.unary .origin .neg (name "z")))
  let chain : Expr := .compare .origin (name "p") [(.isIn, name "q"), (.isNot, name "r")]
  let difference : Expr := .binary .origin (name "s") .sub (.binary .origin (name "t") .sub (name "u"))
  let call : Expr := .call .origin (.subscript .origin (name "d") (.tuple .origin [name "e"]))
    [.starred (name "g"), .keyword (ident "k") (.tuple .origin [name "h", name "i"]), .doubleStarred (name "m")]
  let called : Expr := .call .origin (.lambda .origin [] (.none .origin)) [.positional (.bool .origin true)]
  .lambda .origin [.mk (ident "x") none .origin, .mk (ident "y") (some power) .origin]
    (.ternary .origin (.binary .origin (.attribute .origin call (ident "n")) .or (.unary .origin .not (name "o")))
      (.binary .origin (.unary .origin .not chain) .add difference)
      (.dict .origin [(.str .origin "", .list .origin [called])]))

/-- The text of `entangled`. -/
def entangledText : String :=
  "lambda x, y=-2 ** -z: (not p in q is not r) + (s - (t - u)) if d[e,](*g, k=(h, i), **m).n or not o else " ++
    "\x7b\"\": [(lambda: None)(True)]\x7d\n"

theorem parse_printed_entangled :
    entangled.Plain ∧ entangled.printedAlone.nesting = 7 ∧
      (lex entangledText).tokens.map (·.kind) = entangled.printedAlone.kinds ++ [.newline, .eof] ∧
      ∃ m span e', parse (lex entangledText).tokens = ⟨some m, []⟩ ∧ m.body = [.expr span e'] ∧
        e'.spanless = entangled.spanless := by
  have hplain : entangled.Plain := Expr.plain_of_isPlain (show Expr.isPlain 8 entangled = true by decide +kernel)
  have hnesting : entangled.printedAlone.nesting = 7 := by decide +kernel
  have htokens : (lex entangledText).tokens.map (·.kind) = entangled.printedAlone.kinds ++ [.newline, .eof] := by
    decide +kernel
  exact ⟨hplain, hnesting, htokens, parse_printed hplain (by rw [hnesting]; decide) htokens⟩

end ViewSync
