import ViewSync.Proofs.Parser.RoundTrip
import ViewSync.Proofs.Tree.Paths

/-!
# ViewSync.Proofs.Parser.Towers

Sources that nest as deep as one likes. Not each step from an expression to one inside of it takes room: signs stand in
front of signs, powers behind `**`, comprehensions behind the `in` of comprehensions, and attributes hang on
attributes. So of each of these kinds (`exists_tower`) there are sources that are read without a fault and go down as
many steps of that kind as one likes, with no more than two expressions open at a time.
-/

namespace ViewSync

namespace Expr

/-- The name at the bottom, and wherever else a name is needed. -/
def bottom : Expr := .name .origin "a"

/-- An expression one step above another one. -/
def raised : Edge → Expr → Expr
  | .operand, e => .unary .origin .neg e
  | .exponent, e => .binary .origin bottom .pow e
  | .clause, e => .comprehension .origin bottom bottom e []
  | _, e => .attribute .origin e ⟨"a", .origin⟩

/-- So many steps of one kind. -/
def tower (edge : Edge) : Nat → Expr
  | 0 => bottom
  | height + 1 => (tower edge height).raised edge

variable {edge : Edge} {counts : Edge → Bool}

/-- The step down, in whatever differs only by its spans. -/
theorem exists_child {e e' : Expr} (hfree : edge.nests = false) (h : e'.spanless = (e.raised edge).spanless) :
    ∃ child, Child edge e' child ∧ child.spanless = e.spanless := by
  cases edge with
  | plain =>
      cases e' with
      | «attribute» span value attr =>
          injection h with _ hvalue
          exact ⟨value, .owner, hvalue⟩
      | _ => cases h
  | operand =>
      cases e' with
      | unary span op operand =>
          injection h with _ _ hoperand
          exact ⟨operand, .operand, hoperand⟩
      | _ => cases h
  | exponent =>
      cases e' with
      | binary span left op right =>
          injection h with _ _ hop hright
          subst hop
          have hchild :
              Child (if BinaryOp.pow = .pow then .exponent else .plain) (.binary span left .pow right) right :=
            .right
          exact ⟨right, hchild, hright⟩
      | _ => cases h
  | clause =>
      cases e' with
      | comprehension span element target source conditions =>
          injection h with _ _ _ hsource
          exact ⟨source, .source, hsource⟩
      | _ => cases h
  | group => cases hfree
  | body => cases hfree
  | orelse => cases hfree

/-- All the steps of a tower count, if its steps do. -/
theorem exists_path_tower (hfree : edge.nests = false) (hcounts : counts edge = true) {height : Nat} {e : Expr}
    (h : e.spanless = (tower edge height).spanless) : ∃ e', Path counts height e e' := by
  induction height generalizing e with
  | zero => exact ⟨e, .here⟩
  | succ height ih =>
      obtain ⟨child, hchild, hsame⟩ := exists_child hfree h
      obtain ⟨e', hpath⟩ := ih hsame
      have hstep := Path.down hchild hpath
      rw [hcounts, Bool.toNat_true, Nat.add_comm] at hstep
      exact ⟨e', hstep⟩

theorem plain_tower (hclause : edge ≠ .clause) (height : Nat) : (tower edge height).Plain := by
  have hbottom : bottom.Plain := .node rfl nofun
  induction height with
  | zero => exact hbottom
  | succ height ih =>
      cases edge with
      | clause => exact absurd rfl hclause
      | exponent => exact .node rfl (List.forall_mem_cons.2 ⟨hbottom, List.forall_mem_singleton.2 ih⟩)
      | _ => exact .node rfl (List.forall_mem_singleton.2 ih)

/-- The row of the table that a tower stands in, if it does not end at its bottom. -/
def towerRow : Edge → Nat
  | .operand => 1
  | .exponent => 1
  | _ => 0

/-- Nothing in a tower needs parentheses. -/
theorem printed_tower (hclause : edge ≠ .clause) (height : Nat) :
    (tower edge height).level ≤ towerRow edge ∧ (tower edge height).printed.nesting = 0 := by
  induction height with
  | zero => exact ⟨Nat.zero_le _, rfl⟩
  | succ height ih =>
      obtain ⟨hlevel, hnesting⟩ := ih
      have hgrouped : ((tower edge height).printed.grouped (towerRow edge) (tower edge height).level).nesting = 0 := by
        rw [Phrase.grouped_of_le hlevel, hnesting]
      cases edge with
      | clause => exact absurd rfl hclause
      | operand => exact ⟨Nat.le_refl 1, (Nat.zero_max _).trans hgrouped⟩
      | exponent => exact ⟨Nat.le_refl 1, (Nat.zero_max _).trans ((Nat.zero_max _).trans hgrouped)⟩
      | _ => exact ⟨Nat.zero_le _, (Nat.max_zero _).trans hgrouped⟩

theorem nesting_tower (hclause : edge ≠ .clause) (height : Nat) : (tower edge height).printedAlone.nesting = 1 := by
  obtain ⟨hlevel, hnesting⟩ := printed_tower hclause height
  have hrow : towerRow edge ≤ 1 := by cases edge <;> decide
  rw [printedAlone_of_le (by omega), printedFull, printedAt_of_le (by omega)]
  exact congrArg (· + 1) hnesting

/-- A comprehension over a comprehension and so on, as text. -/
def clauses : Nat → Phrase
  | 0 => .token (.identifier "a")
  | height + 1 => .between .leftBracket .rightBracket ((Phrase.token (.identifier "a")).inside ++
      (.token (.keyword .for_) ++ (.token (.identifier "a") ++ (.token (.keyword .in_) ++ clauses height))))

theorem nesting_clauses (height : Nat) : (clauses height).nesting ≤ 1 := by
  induction height with
  | zero => exact Nat.zero_le 1
  | succ height ih =>
      have hmax : (clauses (height + 1)).nesting = max 1 (clauses height).nesting := by
        simp [clauses, Phrase.between, Phrase.inside, Phrase.token]
      omega

theorem opens_clauses (height : Nat) : (clauses height).Opens 0 := by
  cases height with
  | zero => exact ⟨_, _, rfl, Nat.le_refl 0, nofun⟩
  | succ height => exact ⟨_, _, rfl, Nat.le_refl 0, nofun⟩

end Expr

namespace Parser

open ViewSync.Expr

variable {sub : Sub} {w : Phrase} {e : Expr}

/-- What may be read where a name is. -/
theorem reads_bottom (sub : Sub) {level : Nat} (hlevel : level ≤ 13) :
    Reads sub level (.token (.identifier "a")) bottom := by
  have hreads : Reads sub 0 (.token (.identifier "a")) bottom :=
    (readsSuffixed_of_atom (takes_leaf (e := bottom) rfl)).readsAt.reads
  exact hreads.mono (Phrase.opens_token (Nat.le_refl 0)) (Nat.zero_le _) hlevel

theorem same_clause {span : Span} {element target source : Expr} (helement : Same bottom element)
    (htarget : Same bottom target) (hsource : Same e source) :
    Same (e.raised .clause) (.comprehension span element target source []) := by
  show Expr.comprehension .origin element.spanless target.spanless source.spanless [] = .comprehension .origin _ _ _ []
  rw [helement.eq, htarget.eq, hsource.eq]

/-- Behind `in` another expression is read with the same room. -/
theorem takes_clause (hfull : Takes (sub .full) (Phrase.token (.identifier "a")).inside (Ends 13) (Same bottom))
    (htarget : Takes (sub .bitwise) (.token (.identifier "a")) (Ends 7) (Same bottom))
    (hsource : Takes (sub .disjunction) w (Ends 11) (Same e)) :
    Takes (atom sub) (.between .leftBracket .rightBracket ((Phrase.token (.identifier "a")).inside ++
      (.token (.keyword .for_) ++ (.token (.identifier "a") ++ (.token (.keyword .in_) ++ w)))))
      (fun _ => True) (Same (e.raised .clause)) := by
  refine Takes.atom_list ?_
  have hfor : Ends 13 (.keyword .for_) := by decide
  have hin : Ends 7 (.keyword .in_) := by decide
  have hbracket : Ends 11 (.symbol .rightBracket) := by decide
  have hlist : Takes (targetList sub) (.token (.identifier "a")) (· = .keyword .in_) (Same bottom) := by
    refine htarget.bind_end (fun target htarget => .check_ne (fun next hnext => ?_) (.pure htarget))
      fun k hk => hk ▸ hin
    subst hnext
    exact nofun
  unfold Parser.list Phrase.between
  refine .advance fun _ => .check_ne (fun _ _ => nofun) (.check_ne (fun _ _ => nofun) ?_)
  rw [Phrase.append_assoc]
  refine hfull.bind (fun element helement => .check_eq (fun _ _ => rfl) ?_) fun _ _ => hfor
  unfold comprehension
  rw [Phrase.append_assoc, Phrase.append_assoc, Phrase.append_assoc]
  refine .advance fun _ => hlist.bind (fun target htarget => .expect fun _ => ?_) fun _ _ => rfl
  refine hsource.bind (fun source hsource => ?_) fun _ _ => hbracket
  rw [← Phrase.empty_append (.token (.symbol .rightBracket))]
  have hnone : Takes (loop (conditionStep sub) []) .empty (· = .symbol .rightBracket)
      fun conditions : List Expr => conditions = [] := by
    refine .loop (.last (.eat_ne (fun next hnext => ?_) (.pure ⟨[], rfl, rfl⟩)))
    rw [Phrase.kinds_empty, List.headD_nil, hnext]
    exact nofun
  refine hnone.bind (fun conditions hconditions => (takes_expect _).close fun _ _ => ?_) fun _ _ => rfl
  subst hconditions
  exact same_clause helement htarget hsource

/-- A tower of comprehensions is read in each row. -/
theorem reads_clauses {bound height : Nat} (hlength : (clauses height).length ≤ bound) {level : Nat}
    (hlevel : level ≤ 13) : Reads (parseAt bound) level (clauses height) (tower .clause height) := by
  induction height generalizing bound level with
  | zero => exact reads_bottom (parseAt bound) hlevel
  | succ height ih =>
      have hlong : (clauses (height + 1)).length = (clauses height).length + 6 := by
        simp [clauses]
        omega
      obtain ⟨inner, rfl⟩ : ∃ inner, bound = inner + 1 := ⟨bound - 1, by omega⟩
      have hbottom : bottom.Plain := .node rfl nofun
      have hfull : Takes (parseAt (inner + 1) .full) bottom.printedFull (Ends 13) (Same bottom) :=
        (covers_parseAt (inner + 1) bottom hbottom (show 1 < inner + 1 by omega)).takes
      have htarget : Takes (bitOr (parseAt inner)) (.token (.identifier "a")) (Ends 7) (Same bottom) :=
        reads_bottom (parseAt inner) (by decide) _ (Nat.le_refl _)
      have hsource : Takes (disjunction (parseAt inner)) (clauses height) (Ends 11) (Same (tower .clause height)) :=
        ih (by omega) (by decide) _ (Nat.le_refl _)
      have hatom : Reads (parseAt (inner + 1)) 0 (clauses (height + 1)) (tower .clause (height + 1)) :=
        (readsSuffixed_of_atom (takes_clause hfull htarget hsource)).readsAt.reads
      exact hatom.mono (opens_clauses (height + 1)) (Nat.zero_le _) hlevel

theorem readsPhrase_clauses (height : Nat) : ReadsPhrase (clauses height).inside (tower .clause height) where
  takes := by
    have hcomma : ∀ next, EndsAlone next → next ≠ .symbol .comma := by
      rintro next hnext rfl
      exact absurd hnext.1 (by decide)
    have hfull : Takes (expressionAt .full) (clauses height).inside (Ends 13) (Same (tower .clause height)) := by
      refine .bounded fun bound hlength => ?_
      have hrule : Takes (rule (parseAt bound) 13 _) (clauses height) (Ends 13) (Same (tower .clause height)) :=
        reads_clauses hlength (Nat.le_refl 13) _ (Nat.le_refl _)
      exact hrule.nested
    exact hfull.bind_end (fun e he => .check_ne hcomma (.pure he)) fun k hk => Nat.lt_of_succ_lt hk.1
  opens := (opens_clauses height).mono (Nat.zero_le 14)

/-- Each tower of steps that need no room is the tree of a source. -/
theorem exists_tower {edge : Edge} (hfree : edge.nests = false) (height : Nat) :
    ∃ w : Phrase, ReadsPhrase w (tower edge height) ∧ w.nesting ≤ 2 := by
  by_cases hclause : edge = .clause
  · subst hclause
    exact ⟨(clauses height).inside, readsPhrase_clauses height, Nat.succ_le_succ (nesting_clauses height)⟩
  · exact ⟨(tower edge height).printedAlone, readsPhrase_printed (plain_tower hclause height),
      Nat.le_succ_of_le (Nat.le_of_eq (nesting_tower hclause height))⟩

end Parser

/-- A source is read without a fault that goes down so many steps of a kind that needs no room. -/
theorem exists_deep_source {edge : Expr.Edge} (hfree : edge.nests = false) {counts : Expr.Edge → Bool}
    (hcounts : counts edge = true) (height : Nat) :
    ∃ tokens m span e e', parse tokens = ⟨some m, []⟩ ∧ m.body = [.expr span e] ∧ Expr.Path counts height e e' := by
  obtain ⟨w, hreads, hnesting⟩ := Parser.exists_tower hfree height
  obtain ⟨tokens, htokens⟩ : ∃ tokens : List Token, tokens.map (·.kind) = w.kinds ++ [.newline, .eof] :=
    ⟨(w.kinds ++ [TokenKind.newline, .eof]).map fun k => ⟨k, .origin⟩, by rw [List.map_map]; exact List.map_id _⟩
  obtain ⟨m, span, e, hparse, hbody, hsame⟩ := parse_phrase hreads (Nat.le_trans hnesting (by decide)) htokens
  obtain ⟨e', hpath⟩ := Expr.exists_path_tower hfree hcounts hsame
  exact ⟨tokens, m, span, e, e', hparse, hbody, hpath⟩

end ViewSync
