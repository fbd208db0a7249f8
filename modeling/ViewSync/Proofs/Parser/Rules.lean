import ViewSync.Proofs.Parser.Rounds
import ViewSync.Proofs.Parser.Takes

/-!
# ViewSync.Proofs.Parser.Rules

What the rules of the grammar that need no operator read: lists of items, atoms, and what hangs on an atom. The parsers
for inner expressions are arbitrary; that they read the expressions inside (`ReadsFull`) is a hypothesis. What is read
is compared with the tree that was written up to spans (`Same`).
-/

namespace ViewSync.Parser

/-- A token that no expression of a level goes on with, when it stands behind one. -/
def Ends (level : Nat) (k : TokenKind) : Prop := level < k.continues

instance (level : Nat) (k : TokenKind) : Decidable (Ends level k) :=
  inferInstanceAs (Decidable (level < k.continues))

/-- Trees that only differ by their spans. -/
def Same (e e' : Expr) : Prop := e'.spanless = e.spanless

theorem Same.eq {e e' : Expr} (h : Same e e') : e'.spanless = e.spanless := h

/-! ## trees that only differ by their spans, built from such trees -/

section same

variable {span span' : Span} {value value' left left' right right' body body' : Expr}

theorem Same.list {items items' : List Expr} (h : items'.map Expr.spanless = items.map Expr.spanless) :
    Same (.list span items) (.list span' items') := by
  show Expr.list .origin (Expr.spanlessItems items') = .list .origin (Expr.spanlessItems items)
  rw [Expr.spanlessItems_eq, Expr.spanlessItems_eq, h]

theorem Same.tuple {items items' : List Expr} (h : items'.map Expr.spanless = items.map Expr.spanless) :
    Same (.tuple span items) (.tuple span' items') := by
  show Expr.tuple .origin (Expr.spanlessItems items') = .tuple .origin (Expr.spanlessItems items)
  rw [Expr.spanlessItems_eq, Expr.spanlessItems_eq, h]

theorem Same.dict {entries entries' : List (Expr × Expr)} (h : entries'.map (fun e => (e.1.spanless, e.2.spanless)) =
    entries.map fun e => (e.1.spanless, e.2.spanless)) : Same (.dict span entries) (.dict span' entries') := by
  show Expr.dict .origin (Expr.spanlessEntries entries') = .dict .origin (Expr.spanlessEntries entries)
  rw [Expr.spanlessEntries_eq, Expr.spanlessEntries_eq, h]

theorem Same.attribute {attr attr' : Ident} (hvalue : Same value value') (hattr : attr'.name = attr.name) :
    Same (.attribute span value attr) (.attribute span' value' attr') := by
  show Expr.attribute .origin value'.spanless ⟨attr'.name, .origin⟩ = .attribute .origin value.spanless ⟨_, .origin⟩
  rw [hvalue.eq, hattr]

theorem Same.subscript {index index' : Expr} (hvalue : Same value value') (hindex : Same index index') :
    Same (.subscript span value index) (.subscript span' value' index') := by
  show Expr.subscript .origin value'.spanless index'.spanless = .subscript .origin value.spanless index.spanless
  rw [hvalue.eq, hindex.eq]

theorem Same.call {args args' : List Arg} (hvalue : Same value value')
    (hargs : args'.map Arg.spanless = args.map Arg.spanless) :
    Same (.call span value args) (.call span' value' args') := by
  show Expr.call .origin value'.spanless (Expr.spanlessArgs args') = .call .origin _ (Expr.spanlessArgs args)
  rw [Expr.spanlessArgs_eq, Expr.spanlessArgs_eq, hvalue.eq, hargs]

theorem Same.binary {op : BinaryOp} (hleft : Same left left') (hright : Same right right') :
    Same (.binary span left op right) (.binary span' left' op right') := by
  show Expr.binary .origin left'.spanless op right'.spanless = .binary .origin left.spanless op right.spanless
  rw [hleft.eq, hright.eq]

theorem Same.unary {op : UnaryOp} (hvalue : Same value value') : Same (.unary span op value) (.unary span' op value') :=
  congrArg (Expr.unary .origin op) hvalue

theorem Same.compare {rest rest' : List (CompareOp × Expr)} (hleft : Same left left')
    (hrest : Expr.spanlessOperands rest' = Expr.spanlessOperands rest) :
    Same (.compare span left rest) (.compare span' left' rest') := by
  show Expr.compare .origin left'.spanless (Expr.spanlessOperands rest') = .compare .origin left.spanless _
  rw [hleft.eq, hrest]

theorem Same.ternary {test test' : Expr} (htest : Same test test') (hleft : Same left left')
    (hright : Same right right') :
    Same (.ternary span test left right) (.ternary span' test' left' right') := by
  show Expr.ternary .origin test'.spanless left'.spanless right'.spanless = .ternary .origin test.spanless _ _
  rw [htest.eq, hleft.eq, hright.eq]

theorem Same.lambda {ps ps' : List Param} (hps : ps'.map Param.spanless = ps.map Param.spanless)
    (hbody : Same body body') :
    Same (.lambda span ps body) (.lambda span' ps' body') := by
  show Expr.lambda .origin (Expr.spanlessParams ps') _ = .lambda .origin (Expr.spanlessParams ps) _
  rw [Expr.spanlessParams_eq, Expr.spanlessParams_eq, hps, hbody.eq]

end same

/-- A comma between items, or what closes the list of them. -/
def Parts (stop k : TokenKind) : Prop := k = .symbol .comma ∨ k = stop

/-- Whether an item is not taken for the end of the list. -/
def Begun (stop : TokenKind) (w : Phrase) : Prop :=
  ∃ k rest, w.kinds = k :: rest ∧ k ≠ stop ∧ k ≠ .eof

theorem Begun.headD_ne {stop : TokenKind} {w : Phrase} (h : Begun stop w) (next : TokenKind) :
    w.kinds.headD next ≠ stop := by
  obtain ⟨k, rest, hkinds, hk, -⟩ := h
  rwa [hkinds]

theorem Begun.headD_ne_eof {stop : TokenKind} {w : Phrase} (h : Begun stop w) (next : TokenKind) :
    w.kinds.headD next ≠ .eof := by
  obtain ⟨k, rest, hkinds, -, hk⟩ := h
  rwa [hkinds]

theorem begun_of_opens {stop : TokenKind} {w : Phrase} (h : w.Opens 13) (hstop : stop.opening = 15) :
    Begun stop w := by
  obtain ⟨k, rest, hkinds, hk, -⟩ := h
  refine ⟨k, rest, hkinds, ?_, ?_⟩
  · rintro rfl
    omega
  · rintro rfl
    exact absurd hk (by decide)

theorem Begun.append {stop : TokenKind} {w : Phrase} (h : Begun stop w) (w' : Phrase) : Begun stop (w ++ w') := by
  obtain ⟨k, rest, hkinds, hk⟩ := h
  exact ⟨k, rest ++ w'.kinds, by rw [Phrase.kinds_append, hkinds, List.cons_append], hk⟩

section lists

variable {γ α δ : Type} {stop : TokenKind} {item : Parser α} {x : γ → Phrase} {f : α → δ} {g : γ → δ}

theorem rounds_separated (hstop : stop ≠ .symbol .comma) (xs : List γ)
    (hitem : ∀ a ∈ xs, Takes item (x a) (Parts stop) fun b => f b = g a) (hbegun : ∀ a ∈ xs, Begun stop (x a))
    (acc : List α) : Rounds (separatedStep stop item) acc (.listed (xs.map x)) (· = stop)
      fun bs : List α => bs.map f = acc.reverse.map f ++ xs.map g := by
  induction xs generalizing acc with
  | nil =>
      refine .last (.check_eq (fun _ hnext => hnext) (.check fun _ => ?_))
      exact .pure ⟨acc.reverse, rfl, by rw [List.map_nil, List.append_nil]⟩
  | cons a rest ih =>
      have hfirst := hitem a (List.mem_cons_self ..)
      have hhead := hbegun a (List.mem_cons_self ..)
      cases rest with
      | nil =>
          rw [List.map_cons, List.map_nil, Phrase.listed, Phrase.trailing, Phrase.append_empty]
          refine .last (.check_ne (fun next _ => hhead.headD_ne next)
            (.check_ne (fun next _ => hhead.headD_ne_eof next) ?_))
          refine hfirst.bind_end (fun b hb => .eat_ne (fun next hnext => hnext ▸ hstop) ?_) fun k hk => Or.inr hk
          exact .pure ⟨_, rfl, by simp [hb]⟩
      | cons a' rest =>
          have hlisted : Phrase.listed ((a :: a' :: rest).map x) =
              (x a ++ .token (.symbol .comma)) ++ .listed ((a' :: rest).map x) := by
            rw [Phrase.append_assoc]
            rfl
          have hround : Takes (separatedStep stop item acc) (x a ++ .token (.symbol .comma)) (fun _ => True)
              fun r => ∃ acc' : List α, r = .inl acc' ∧ acc'.reverse.map f = acc.reverse.map f ++ [g a] := by
            refine .check_ne (fun next _ => (hhead.append _).headD_ne next)
              (.check_ne (fun next _ => (hhead.append _).headD_ne_eof next) ?_)
            refine hfirst.bind (fun b hb => ?_) fun _ _ => Or.inl rfl
            rw [← Phrase.append_empty (.token _)]
            exact .eat (.pure ⟨b :: acc, rfl, by simp [hb]⟩)
          rw [hlisted]
          refine .next hround (by simp) (fun acc' hacc' => ?_) fun _ _ => trivial
          have hrest := ih (fun b hb => hitem b (List.mem_cons_of_mem a hb))
            (fun b hb => hbegun b (List.mem_cons_of_mem a hb)) acc'
          rw [hacc', List.append_assoc, List.singleton_append, ← List.map_cons] at hrest
          exact hrest

theorem takes_separated (hstop : stop ≠ .symbol .comma) {xs : List γ}
    (hitem : ∀ a ∈ xs, Takes item (x a) (Parts stop) fun b => f b = g a) (hbegun : ∀ a ∈ xs, Begun stop (x a)) :
    Takes (separated stop item) (.listed (xs.map x)) (· = stop) fun bs : List α => bs.map f = xs.map g :=
  .loop (rounds_separated hstop xs hitem hbegun [])

end lists

section rules

variable {sub : Sub}

/-- An expression of its own is read, and it starts like one. -/
structure ReadsFull (sub : Sub) (e : Expr) : Prop where
  takes : Takes (sub .full) e.printedFull (Ends 13) (Same e)
  opens : e.printedFull.Opens 13

theorem ends_parts {stop : TokenKind} (hstop : Ends 13 stop) {k : TokenKind} (h : Parts stop k) : Ends 13 k := by
  rcases h with rfl | rfl
  · exact Nat.lt_succ_self 13
  · exact hstop

/-- An expression as an item of a list. -/
theorem ReadsFull.item {e : Expr} {stop : TokenKind} (h : ReadsFull sub e) (hstop : Ends 13 stop) :
    Takes (sub .full) e.printedFull (Parts stop) (Same e) :=
  h.takes.weaken fun _ hk => ends_parts hstop hk

/-! ### lists without a closing token of their own -/

section items

variable {stop : TokenKind → Bool} (hstop : ∀ k : TokenKind, k.opening ≤ 13 → stop k = false)

include hstop

theorem takes_moreItemsStep {e : Expr} (h : ReadsFull sub e) (acc : List Expr) :
    Takes (moreItemsStep stop (sub .full) acc) (.token (.symbol .comma) ++ e.printedFull) (Ends 13)
      fun r => ∃ acc' : List Expr, r = .inl acc' ∧
        acc'.reverse.map Expr.spanless = acc.reverse.map Expr.spanless ++ [e.spanless] := by
  obtain ⟨k, rest, hkinds, hk, -⟩ := h.opens
  have hhead : e.printedFull.kinds.head? = some k := by rw [hkinds, List.head?_cons]
  refine .eat (.kind_head hhead ?_)
  simp only [hstop k hk]
  exact h.takes.map fun e' he' => ⟨e' :: acc, rfl, by simp [he'.eq]⟩

/-- Items with a comma in front of each. -/
theorem rounds_moreItems (items : List Expr) (hitems : ∀ e ∈ items, ReadsFull sub e) (acc : List Expr) :
    Rounds (moreItemsStep stop (sub .full)) acc (.trailing (items.map Expr.printedFull)) (Ends 14)
      fun es : List Expr => es.map Expr.spanless = acc.reverse.map Expr.spanless ++ items.map Expr.spanless := by
  induction items generalizing acc with
  | nil =>
      have hcomma : ∀ next, Ends 14 next → next ≠ .symbol .comma := by
        rintro next hnext rfl
        exact absurd hnext (by decide)
      exact .last (.eat_ne hcomma (.pure ⟨acc.reverse, rfl, by rw [List.map_nil, List.append_nil]⟩))
  | cons e rest ih =>
      have htrailing : Phrase.trailing ((e :: rest).map Expr.printedFull) =
          (.token (.symbol .comma) ++ e.printedFull) ++ .trailing (rest.map Expr.printedFull) := by
        rw [Phrase.append_assoc]
        rfl
      have hfollow : ∀ next, Ends 14 next →
          Ends 13 ((Phrase.trailing (rest.map Expr.printedFull)).kinds.headD next) := by
        intro next hnext
        cases rest with
        | nil => exact Nat.lt_of_succ_lt hnext
        | cons => exact Nat.lt_succ_self 13
      rw [htrailing]
      refine .next (takes_moreItemsStep hstop (hitems e (List.mem_cons_self ..)) acc) (by simp) ?_ hfollow
      intro acc' hacc'
      have hrest := ih (fun e' he' => hitems e' (List.mem_cons_of_mem e he')) acc'
      rw [hacc', List.append_assoc, List.singleton_append, ← List.map_cons] at hrest
      exact hrest

/-- The items of a tuple behind the first one. -/
theorem takes_moreItems {items : List Expr} (hitems : ∀ e ∈ items, ReadsFull sub e) :
    Takes (moreItems stop (sub .full)) (.tupleRest (items.map Expr.printedFull)) (fun k => Ends 14 k ∧ stop k = true)
      fun es : List Expr => es.map Expr.spanless = items.map Expr.spanless := by
  refine .loop ?_
  cases items with
  | nil =>
      rw [List.map_nil, Phrase.tupleRest, ← Phrase.append_empty (.token _)]
      refine .last (.eat (.kind_nil fun next hnext => ?_))
      simp only [hnext.2]
      exact .pure ⟨[], rfl, rfl⟩
  | cons first rest =>
      exact (rounds_moreItems hstop (first :: rest) hitems []).weaken fun _ hk => hk.1

theorem takes_bareList {span : Span} {first : Expr} {items : List Expr} (hfirst : ReadsFull sub first)
    (hitems : ∀ e ∈ items, ReadsFull sub e) :
    Takes (bareList stop (sub .full)) (.tupled ((first :: items).map Expr.printedFull))
      (fun k => Ends 14 k ∧ stop k = true) (Same (.tuple span (first :: items))) := by
  have hcomma := Phrase.headD_tupleRest (items.map Expr.printedFull)
  refine hfirst.takes.bind (fun e he => .check_eq (fun next _ => hcomma next) ?_) fun k _ => ?_
  · refine (takes_moreItems hstop hitems).map fun es hes => ?_
    exact .tuple (by rw [List.map_cons, List.map_cons, hes, he.eq])
  · rw [hcomma]
    exact Nat.lt_succ_self 13

end items

/-! ### parameters, entries and arguments -/

theorem takes_param {p : Param} (h : ∀ e ∈ p.default?, ReadsFull sub e) :
    Takes (param sub (.symbol .colon)) p.printed (Parts (.symbol .colon)) fun q => q.spanless = p.spanless := by
  obtain ⟨id, default, span⟩ := p
  have hname := takes_identifier id.name
  unfold param
  cases default with
  | none =>
      have hnext : ∀ next, Parts (.symbol .colon) next → next ≠ .symbol .eq := by
        rintro next (rfl | rfl) <;> exact nofun
      refine hname.bind_end (fun i hi => .eat_ne hnext (.pure ?_)) fun _ _ => trivial
      simp [Param.spanless, Expr.spanlessBound_eq, hi]
  | some e =>
      have hvalue : Takes (sub .full) e.printedFull (Parts (.symbol .colon)) (Same e) := (h e rfl).item (by decide)
      refine hname.bind (fun i hi => .eat (hvalue.map fun e' he' => ?_)) fun _ _ => trivial
      simp [Param.spanless, Expr.spanlessBound_eq, hi, he'.eq]

theorem takes_entry {entry : Expr × Expr} (hkey : ReadsFull sub entry.1) (hvalue : ReadsFull sub entry.2) :
    Takes (Parser.entry sub) (Expr.printedEntry entry) (Parts (.symbol .rightBrace))
      fun e => (e.1.spanless, e.2.spanless) = (entry.1.spanless, entry.2.spanless) := by
  have hcolon : Ends 13 (.symbol .colon) := by decide
  have hvalue' : Takes (sub .full) entry.2.printedFull (Parts (.symbol .rightBrace)) (Same entry.2) :=
    hvalue.item (by decide)
  refine hkey.takes.bind (fun key hkey' => .expect fun _ => hvalue'.map fun value hvalue'' => ?_) fun _ _ => hcolon
  rw [hkey'.eq, hvalue''.eq]

/-- What stands behind a name at the front of a positional argument is not an equals sign. -/
theorem second_ne_eq {w : Phrase} {k found : TokenKind} {rest : List TokenKind} (hkinds : w.kinds = k :: rest)
    (hne : rest.head? ≠ some (.symbol .eq)) (hfound : SecondOf w (Parts (.symbol .rightParen)) found) :
    found ≠ .symbol .eq := by
  unfold SecondOf at hfound
  rw [hkinds] at hfound
  cases rest with
  | nil => rcases hfound with rfl | rfl | rfl <;> exact nofun
  | cons => exact fun heq => hne (by rw [List.head?_cons, ← heq, hfound])

theorem takes_arg {a : Arg} (h : ReadsFull sub a.value) :
    Takes (arg sub) a.printed (Parts (.symbol .rightParen)) fun b => b.spanless = a.spanless := by
  have hvalue : Takes (sub .full) a.value.printedFull (Parts (.symbol .rightParen)) (Same a.value) := h.item (by decide)
  unfold arg
  cases a with
  | positional e =>
      have hpositional : Takes (do return Arg.positional (← sub .full)) e.printedFull (Parts (.symbol .rightParen))
          fun b => b.spanless = (Arg.positional e).spanless :=
        hvalue.map fun e' he' => congrArg Arg.positional he'.eq
      obtain ⟨k, rest, hkinds, hk, hne⟩ := h.opens
      have hhead : (Arg.positional e).printed.kinds.head? = some k := congrArg List.head? hkinds
      refine .kind_head hhead ?_
      split
      · exact absurd hk (by decide)
      · exact absurd hk (by decide)
      · refine .second fun found hfound => ?_
        have hfound' : found ≠ .symbol .eq := second_ne_eq hkinds hne hfound
        rw [if_neg (by simpa using hfound')]
        exact hpositional
      · exact hpositional
  | starred e => exact .kind_head rfl (.advance fun _ => hvalue.map fun e' he' => congrArg Arg.starred he'.eq)
  | keyword key e =>
      have hname := takes_identifier key.name
      refine .kind_head rfl (.second fun found hfound => ?_)
      cases hfound
      refine hname.bind (fun i hi => .advance fun _ => hvalue.map fun e' he' => ?_) fun _ _ => trivial
      have hsame : e'.spanless = e.spanless := he'.eq
      show Arg.keyword ⟨i.name, .origin⟩ e'.spanless = .keyword ⟨key.name, .origin⟩ e.spanless
      rw [hi, hsame]
  | doubleStarred e =>
      exact .kind_head rfl (.advance fun _ => hvalue.map fun e' he' => congrArg Arg.doubleStarred he'.eq)

theorem begun_arg {a : Arg} (h : ReadsFull sub a.value) : Begun (.symbol .rightParen) a.printed := by
  cases a with
  | positional e => exact begun_of_opens h.opens rfl
  | starred e => exact ⟨_, _, rfl, nofun, nofun⟩
  | keyword key e => exact ⟨_, _, rfl, nofun, nofun⟩
  | doubleStarred e => exact ⟨_, _, rfl, nofun, nofun⟩

/-! ## atoms -/

/-- Strings go on with strings. -/
def EndsAtom (k : TokenKind) : Prop := ∀ text, k ≠ .str text

theorem takes_strings (span : Span) (text : String) :
    Takes strings (.token (.str text)) EndsAtom (Same (.str span text)) := by
  have hround : Takes (stringsStep "") (.token (.str text)) (fun _ => True)
      fun r => ∃ found : String, r = .inl found ∧ found = text := by
    refine .kind_head rfl ((takes_advance _).close fun _ _ => ⟨_, rfl, ?_⟩)
    rw [String.empty_append]
  have hlast : ∀ found, found = text →
      Rounds stringsStep found .empty EndsAtom fun found : String => found = text := by
    intro found hfound
    refine .last (.kind_nil fun next hnext => ?_)
    split
    · exact absurd rfl (hnext _)
    · exact .pure ⟨found, rfl, hfound⟩
  have hparts : Takes (loop stringsStep "") (.token (.str text)) EndsAtom fun found => found = text := by
    rw [← Phrase.append_empty (.token _)]
    exact .loop (.next hround nofun hlast fun _ _ => trivial)
  refine .here fun start => hparts.bind_end (fun found hfound => .last fun _ => .pure ?_) fun _ h => h
  subst hfound
  rfl

theorem takes_list {span : Span} {items : List Expr} (hitems : ∀ e ∈ items, ReadsFull sub e) :
    Takes (list sub) (Expr.list span items).printed (fun _ => True) (Same (.list span items)) := by
  have hclose : ∀ (start : Span) (es : List Expr), es.map Expr.spanless = items.map Expr.spanless →
      Takes (do let bracket ← expect (.symbol .rightBracket); return Expr.list (start.merge bracket.span) es)
        (.token (.symbol .rightBracket)) (fun _ => True) (Same (.list span items)) := by
    intro start es hes
    exact (takes_expect _).close fun _ _ => .list hes
  have hbegun : ∀ e ∈ items, Begun (.symbol .rightBracket) e.printedFull := fun e he =>
    begun_of_opens (hitems e he).opens rfl
  have hbracket : Ends 13 (.symbol .rightBracket) := by decide
  have hcomma : Ends 13 (.symbol .comma) := by decide
  unfold list
  rw [Expr.printed_list]
  refine .advance fun _ => ?_
  cases items with
  | nil =>
      rw [List.map_nil, Phrase.listed, Phrase.empty_append]
      exact .check_eq (fun _ _ => rfl) (.check fun _ => hclose _ [] rfl)
  | cons first rest =>
      have hfirst := (hitems first (List.mem_cons_self ..)).takes
      have hhead := fun w => (hbegun first (List.mem_cons_self ..)).append w
      rw [List.map_cons, Phrase.listed, Phrase.append_assoc]
      refine .check_ne (fun next _ => (hhead _).headD_ne next)
        (.check_ne (fun next _ => (hhead _).headD_ne_eof next) ?_)
      cases rest with
      | nil =>
          rw [List.map_nil, Phrase.trailing, Phrase.empty_append]
          refine hfirst.bind (fun e he => ?_) fun _ _ => hbracket
          refine .check_ne (by simp) (.eat_ne (by simp) (hclose _ [e] ?_))
          simp only [List.map_singleton, he.eq]
      | cons second rest =>
          have hrest : Takes (separated (.symbol .rightBracket) (sub .full))
              (.listed ((second :: rest).map Expr.printedFull)) (· = .symbol .rightBracket)
              fun es : List Expr => es.map Expr.spanless = (second :: rest).map Expr.spanless :=
            takes_separated (by decide) (fun e he => (hitems e (List.mem_cons_of_mem _ he)).item hbracket)
              fun e he => hbegun e (List.mem_cons_of_mem _ he)
          rw [List.map_cons, Phrase.trailing, Phrase.append_assoc]
          refine hfirst.bind (fun e he => .check_ne (by simp) (.eat ?_)) fun _ _ => hcomma
          refine hrest.bind (fun es hes => hclose _ (e :: es) ?_) fun _ _ => rfl
          simp only [List.map_cons, hes, he.eq]

theorem takes_dict {span : Span} {entries : List (Expr × Expr)}
    (hentries : ∀ entry ∈ entries, ReadsFull sub entry.1 ∧ ReadsFull sub entry.2) :
    Takes (dict sub) (Expr.dict span entries).printed (fun _ => True) (Same (.dict span entries)) := by
  have hlist : Takes (separated (.symbol .rightBrace) (entry sub)) (.listed (entries.map Expr.printedEntry))
      (· = .symbol .rightBrace) fun es : List (Expr × Expr) =>
        es.map (fun entry => (entry.1.spanless, entry.2.spanless)) =
          entries.map fun entry => (entry.1.spanless, entry.2.spanless) :=
    takes_separated (by decide) (fun entry h => takes_entry (hentries entry h).1 (hentries entry h).2)
      fun entry h => (begun_of_opens (hentries entry h).1.opens rfl).append _
  unfold dict
  rw [Expr.printed_dict]
  exact .advance fun _ => hlist.bind (fun es hes => (takes_expect _).close fun _ _ => .dict hes) fun _ _ => rfl

/-! ### parentheses -/

/-- An expression in parentheses is that expression. -/
theorem takes_parenthesized {e : Expr} (h : ReadsFull sub e) :
    Takes (parenthesized sub) (.between .leftParen .rightParen e.printedFull) (fun _ => True) (Same e) := by
  have hbegun : Begun (.symbol .rightParen) (e.printedFull ++ .token (.symbol .rightParen)) :=
    (begun_of_opens h.opens rfl).append _
  have hparen : Ends 13 (.symbol .rightParen) := by decide
  unfold parenthesized
  refine .advance fun _ => .check_ne (fun next _ => hbegun.headD_ne next) ?_
  refine h.takes.bind (fun e' he' => ?_) fun _ _ => hparen
  exact .check_ne (fun _ _ => nofun) (.check_ne (fun _ _ => nofun) ((takes_expect _).close fun _ _ => he'))

theorem takes_parenthesized_empty {span : Span} :
    Takes (parenthesized sub) (.between .leftParen .rightParen .empty) (fun _ => True) (Same (.tuple span [])) := by
  unfold parenthesized Phrase.between
  rw [Phrase.empty_append]
  exact .advance fun _ => .check_eq (fun _ _ => rfl) ((takes_advance _).close fun _ _ => rfl)

theorem takes_parenthesized_tuple {span : Span} {first : Expr} {rest : List Expr}
    (hitems : ∀ e ∈ first :: rest, ReadsFull sub e) :
    Takes (parenthesized sub) (.between .leftParen .rightParen (Expr.tuple span (first :: rest)).printed)
      (fun _ => True) (Same (.tuple span (first :: rest))) := by
  have hfirst := hitems first (List.mem_cons_self ..)
  have hstop : ∀ k : TokenKind, k.opening ≤ 13 → (k == .symbol .rightParen) = false := by
    intro k hk
    rw [beq_eq_false_iff_ne]
    rintro rfl
    exact absurd hk (by decide)
  have hrest := takes_moreItems hstop fun e he => hitems e (List.mem_cons_of_mem first he)
  have hcomma : ∀ w next, (Phrase.tupleRest (rest.map Expr.printedFull) ++ w).kinds.headD next = .symbol .comma :=
    fun w next => by rw [headD_append_kinds, Phrase.headD_tupleRest]
  have hbegun : Begun (.symbol .rightParen) first.printedFull := begun_of_opens hfirst.opens rfl
  have hparen : Ends 14 (.symbol .rightParen) := by decide
  unfold parenthesized
  rw [Expr.printed_tuple, List.map_cons, Phrase.tupled, Phrase.between, Phrase.append_assoc]
  refine .advance fun _ => .check_ne (fun next _ => (hbegun.append _).headD_ne next) ?_
  refine hfirst.takes.bind (fun e he => ?_) fun k _ => ?_
  · refine .check_ne (fun next _ => ?_) (.check_eq (fun next _ => hcomma _ next) ?_)
    · rw [hcomma]
      decide
    · refine hrest.bind (fun es hes => (takes_expect _).close fun _ _ => .tuple ?_) fun _ _ => ⟨hparen, rfl⟩
      rw [List.map_cons, List.map_cons, hes, he.eq]
  · rw [hcomma]
    decide

/-! ### atoms of all kinds -/

/-- The expressions of one token, other than strings. -/
def isLeaf : Expr → Bool
  | .int .. => true
  | .float .. => true
  | .bool .. => true
  | .none .. => true
  | .name .. => true
  | _ => false

theorem takes_leaf {e : Expr} (h : isLeaf e = true) : Takes (atom sub) e.printed (fun _ => True) (Same e) := by
  unfold atom
  refine .here fun span => ?_
  cases e with
  | int => exact .kind_head rfl ((takes_advance _).close fun _ _ => rfl)
  | float => exact .kind_head rfl ((takes_advance _).close fun _ _ => rfl)
  | bool _ value => cases value <;> exact .kind_head rfl ((takes_advance _).close fun _ _ => rfl)
  | none => exact .kind_head rfl ((takes_advance _).close fun _ _ => rfl)
  | name => exact .kind_head rfl ((takes_advance _).close fun _ _ => rfl)
  | _ => cases h

theorem takes_atom_str (span : Span) (text : String) :
    Takes (atom sub) (Expr.str span text).printed EndsAtom (Same (.str span text)) := by
  unfold atom
  exact .here fun _ => .kind_head rfl (takes_strings span text)

section brackets

variable {w : Phrase} {e : Expr} {follow : TokenKind → Prop}

theorem Takes.atom_parenthesized (h : Takes (parenthesized sub) (.between .leftParen .rightParen w) follow (Same e)) :
    Takes (atom sub) (.between .leftParen .rightParen w) follow (Same e) := by
  unfold atom
  exact .here fun _ => .kind_head rfl h

theorem Takes.atom_list (h : Takes (list sub) (.between .leftBracket .rightBracket w) follow (Same e)) :
    Takes (atom sub) (.between .leftBracket .rightBracket w) follow (Same e) := by
  unfold atom
  exact .here fun _ => .kind_head rfl h

theorem Takes.atom_dict (h : Takes (dict sub) (.between .leftBrace .rightBrace w) follow (Same e)) :
    Takes (atom sub) (.between .leftBrace .rightBrace w) follow (Same e) := by
  unfold atom
  exact .here fun _ => .kind_head rfl h

end brackets

/-! ## expressions that stand alone -/

/-- What may follow an expression that stands alone. -/
def EndsAlone (k : TokenKind) : Prop := Ends 14 k ∧ endsList k = true

/-- An expression that stands alone is read. -/
def ReadsAlone (sub : Sub) (e : Expr) : Prop := Takes (expressionList sub) e.printedAlone EndsAlone (Same e)

theorem ReadsFull.alone {e : Expr} (h : ReadsFull sub e) (hlevel : e.level ≤ 13) : ReadsAlone sub e := by
  have hcomma : ∀ next, EndsAlone next → next ≠ .symbol .comma := by
    rintro next hnext rfl
    exact absurd hnext.1 (by decide)
  unfold ReadsAlone expressionList bareList
  rw [Expr.printedAlone_of_le hlevel]
  exact h.takes.bind_end (fun e' he' => .check_ne hcomma (.pure he')) fun k hk => Nat.lt_of_succ_lt hk.1

theorem endsList_of_opening {k : TokenKind} (h : k.opening ≤ 13) : endsList k = false := by
  unfold endsList
  split
  case h_4 => exact absurd (show 15 ≤ 13 from h) (by decide)
  all_goals first | rfl | exact absurd h (by decide)

theorem readsAlone_tuple {span : Span} {first : Expr} {rest : List Expr}
    (hitems : ∀ e ∈ first :: rest, ReadsFull sub e) : ReadsAlone sub (.tuple span (first :: rest)) := by
  unfold ReadsAlone
  rw [Expr.printedAlone, Expr.printed_tuple]
  exact takes_bareList (fun _ hk => endsList_of_opening hk) (hitems first (List.mem_cons_self ..)) fun e he =>
    hitems e (List.mem_cons_of_mem first he)

theorem takes_subscript {index : Expr} (h : ReadsAlone sub index) (hopens : index.printedAlone.Opens 14) :
    Takes (subscript sub) index.printedAlone (· = .symbol .rightBracket) (Same index) := by
  have hcolon : ∀ next : TokenKind, next = .symbol .rightBracket → next ≠ .symbol .colon := by
    rintro next rfl
    exact nofun
  have hbracket : EndsAlone (.symbol .rightBracket) := ⟨by decide, rfl⟩
  unfold subscript
  refine .here fun _ => .check_ne (fun next _ => hopens.headD_ne (by decide) next) ?_
  exact h.bind_end (fun e he => .check_ne hcolon (.pure he)) fun k hk => hk ▸ hbracket

/-! ## attributes, subscripts and calls -/

/-- A tree is read up to the suffixes behind it. -/
def ReadsSuffixed (sub : Sub) (w : Phrase) (e : Expr) : Prop :=
  Arrives (suffixed sub) (suffixStep sub) w EndsAtom (Same e)

theorem Takes.readsSuffixed {w : Phrase} {e : Expr} (h : Takes (atom sub) w EndsAtom (Same e)) :
    ReadsSuffixed sub w e :=
  h.arrives

section suffixes

variable {value : Expr} {v : Expr}

theorem takes_attributeStep (hv : Same value v) (span : Span) (attr : Ident) :
    Takes (suffixStep sub v) (.token (.symbol .dot) ++ .token (.identifier attr.name)) EndsAtom
      fun r => ∃ v', r = .inl v' ∧ Same (.attribute span value attr) v' := by
  exact .kind_head rfl (.advance fun _ => (takes_identifier _).close fun i hi => ⟨_, rfl, hv.attribute hi⟩)

theorem takes_subscriptStep {index : Expr} (hv : Same value v) (hindex : ReadsAlone sub index)
    (hopens : index.printedAlone.Opens 14) (span : Span) :
    Takes (suffixStep sub v) (.between .leftBracket .rightBracket index.printedAlone) EndsAtom
      fun r => ∃ v', r = .inl v' ∧ Same (.subscript span value index) v' := by
  have hindex' := takes_subscript hindex hopens
  refine .kind_head rfl (.advance fun _ => hindex'.bind (fun i hi => ?_) fun _ _ => rfl)
  exact (takes_expect _).close fun _ _ => ⟨_, rfl, hv.subscript hi⟩

theorem takes_callStep {args : List Arg} (hv : Same value v) (hargs : ∀ a ∈ args, ReadsFull sub a.value) (span : Span) :
    Takes (suffixStep sub v) (.between .leftParen .rightParen (.listed (args.map Arg.printed))) EndsAtom
      fun r => ∃ v', r = .inl v' ∧ Same (.call span value args) v' := by
  have hlist : Takes (separated (.symbol .rightParen) (arg sub)) (.listed (args.map Arg.printed))
      (· = .symbol .rightParen) fun as : List Arg => as.map Arg.spanless = args.map Arg.spanless :=
    takes_separated (by decide) (fun a ha => takes_arg (hargs a ha)) fun a ha => begun_arg (hargs a ha)
  refine .kind_head rfl (.advance fun _ => hlist.bind (fun as has => ?_) fun _ _ => rfl)
  exact (takes_expect _).close fun _ _ => ⟨_, rfl, hv.call has⟩

end suffixes

theorem ReadsSuffixed.attribute {value : Expr} (h : ReadsSuffixed sub (value.printedAt 0) value) (span : Span)
    (attr : Ident) : ReadsSuffixed sub (Expr.attribute span value attr).printed (.attribute span value attr) :=
  h.round (fun _ hv => takes_attributeStep hv span attr) nofun fun _ _ => nofun

theorem ReadsSuffixed.subscript {value index : Expr} (h : ReadsSuffixed sub (value.printedAt 0) value)
    (hindex : ReadsAlone sub index) (hopens : index.printedAlone.Opens 14) (span : Span) :
    ReadsSuffixed sub (Expr.subscript span value index).printed (.subscript span value index) :=
  h.round (fun _ hv => takes_subscriptStep hv hindex hopens span) nofun fun _ _ => nofun

theorem ReadsSuffixed.call {callee : Expr} {args : List Arg} (h : ReadsSuffixed sub (callee.printedAt 0) callee)
    (hargs : ∀ a ∈ args, ReadsFull sub a.value) (span : Span) :
    ReadsSuffixed sub (Expr.call span callee args).printed (.call span callee args) := by
  rw [Expr.printed_call]
  exact h.round (fun _ hv => takes_callStep hv hargs span) nofun fun _ _ => nofun

/-- The loop over suffixes ends where no suffix follows. -/
theorem ReadsSuffixed.takes {w : Phrase} {e : Expr} (h : ReadsSuffixed sub w e) :
    Takes (suffixed sub) w (Ends 0) (Same e) := by
  have hatom : ∀ k, Ends 0 k → EndsAtom k := by
    rintro k hk text rfl
    exact absurd hk (Nat.lt_irrefl 0)
  refine Arrives.stop h (fun v hv => .kind_nil fun next hnext => ?_) hatom
  split
  · exact absurd hnext (by decide)
  · exact absurd hnext (by decide)
  · exact absurd hnext (by decide)
  · exact .pure ⟨_, rfl, hv⟩

end rules

end ViewSync.Parser
