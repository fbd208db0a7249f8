import ViewSync.Proofs.Parser.Headers
import ViewSync.Proofs.Parser.Recovery

/-!
# ViewSync.Proofs.Parser.OneLine

A block that is one statement on one line may stand on the line of its header, or on a line of its own. Both are the
statement, read in the same way (`BlockAt`), and then the two sources go on alike (`parse_oneLine`).
-/

namespace ViewSync.Parser

open ParseState

variable {α β : Type} {drop : Span → Bool}

/-! ## a statement on a line -/

section

variable {s s' t : ParseState} {line line' more more' : List Token} {newline newline' : Token} {stmt : Stmt}

theorem bind_eq_done {p : Parser α} {f : α → Parser β} {b : β} (h : (p >>= f) s = .done b t) :
    ∃ a u, p s = .done a u ∧ f a u = .done b t := by
  rw [bind_apply] at h
  cases hp : p s with
  | done a u =>
      rw [hp] at h
      exact ⟨a, u, rfl, h⟩
  | failed u =>
      rw [hp] at h
      cases h
  | exhausted =>
      rw [hp] at h
      cases h

/-- A statement that is read without a fault ends with its line. -/
theorem simple_of_ready (hs : s.Ready (line ++ newline :: more)) (hline : ∀ t ∈ line, t.kind.isLayout = false)
    (hnewline : newline.kind = .newline) (hdone : simple s = .done stmt t) (hclean : t.faults = []) :
    ∃ u, simpleBody s = .done stmt u ∧ u.Ready (newline :: more) ∧ t = u.advance := by
  obtain ⟨stmt, u, hbody, hend⟩ := bind_eq_done hdone
  have honward := onwards_simpleBody.of_done hbody
  have hwalk := walks_simpleBody s hs.eof
  rw [hbody] at hwalk
  obtain ⟨used, hwalk, -⟩ := hwalk
  obtain ⟨⟨⟩, v, hlineEnd, hpure⟩ := bind_eq_done hend
  cases hpure
  have hends : endsLine u.peek.kind = true := by
    unfold lineEnd at hlineEnd
    cases hk : u.peek.kind with
    | newline | dedent | eof => rfl
    | _ =>
        rw [hk] at hlineEnd
        cases hlineEnd
        cases hclean
  have hrest : u.rest = newline :: more := by
    have hsame : used ++ u.rest = line ++ newline :: more := hwalk.rest.symm.trans hs.rest
    rcases List.append_eq_append_iff.1 hsame with ⟨rest, hrest, hbehind⟩ | ⟨rest, hrest, hbehind⟩
    · cases rest with
      | nil => exact hbehind
      | cons x rest =>
          have hword := hline x (by rw [hrest]; simp)
          have hpeek : u.peek = x := by
            rw [ParseState.peek, hbehind]
            rfl
          rw [hpeek, endsLine_of_worded hword] at hends
          cases hends
    · cases rest with
      | nil => exact hbehind.symm
      | cons x rest =>
          obtain ⟨rfl, -⟩ := List.cons.inj hbehind
          have hword := hwalk.worded newline (by rw [hrest]; simp)
          rw [hnewline] at hword
          cases hword
  have hpeek : u.peek.kind = .newline := by
    rw [ParseState.peek, hrest]
    exact hnewline
  have hlast : lineEnd u = .done () u.advance := by simp only [lineEnd, hpeek]
  cases hlast.symm.trans hlineEnd
  refine ⟨u, hbody, ⟨hrest, honward.eof ▸ hs.eof, honward.depth.trans hs.depth, ?_⟩, rfl⟩
  exact u.onward_advance.clean hclean

/-- Statements on lines of the same kinds are the same up to spans. -/
theorem simple_alike (hs : s.Ready (line ++ newline :: more)) (hs' : s'.Ready (line' ++ newline' :: more'))
    (hkinds : line'.map (·.kind) = line.map (·.kind)) (hline : ∀ t ∈ line, t.kind.isLayout = false)
    (hnewline : newline.kind = .newline) (hnewline' : newline'.kind = .newline) (hdone : simple s = .done stmt t)
    (hclean : t.faults = []) (hne : simple s' ≠ .exhausted) :
    ∃ stmt' t', simple s' = .done stmt' t' ∧ Passes drop stmt stmt' ∧ t.Ready more ∧ t'.Ready more' := by
  obtain ⟨u, hbody, hu, rfl⟩ := simple_of_ready hs hline hnewline hdone hclean
  have hlines : ParseState.Abreast (newline :: more) (newline' :: more') s s' := by
    refine ⟨.cons (hnewline'.trans hnewline.symm) (.inl (hnewline ▸ rfl)), ⟨line, line', hs.rest, hs'.rest, hkinds⟩,
      hs.eof, hs'.eof, hs'.depth.trans hs.depth.symm, hs.clean, hs'.clean⟩
  have hne' : simpleBody s' ≠ .exhausted := by
    intro heq
    rw [simple, bind_apply, heq] at hne
    exact hne rfl
  obtain ⟨stmt', u', hbody', hsame, hu'⟩ := (mirrors_simpleBody _ _).agrees hlines hbody
    ⟨hu.clean, Nat.le_of_eq (congrArg List.length hu.rest.symm)⟩ hne'
  have hready : u'.Ready (newline' :: more') := by
    obtain ⟨used, used', hrest, hrest', hkinds⟩ := hu'.ahead
    cases List.append_left_eq_self.1 (hrest.symm.trans hu.rest)
    cases List.map_eq_nil_iff.1 hkinds
    exact ⟨hrest', hu'.eof', hu'.depth.trans hu.depth, hu'.clean'⟩
  have hlast : lineEnd u' = .done () u'.advance := by
    have hpeek : u'.peek.kind = .newline := by rw [hready.peek, hnewline']
    simp only [lineEnd, hpeek]
  refine ⟨stmt', u'.advance, ?_, hsame, hu.advance, hready.advance⟩
  rw [simple, bind_apply, hbody']
  show (lineEnd >>= fun _ => pure stmt') u' = _
  rw [bind_apply, hlast]
  rfl

end

/-! ## a statement as a block -/

/-- Whether the first token of a statement says that the statement has a block of its own. -/
def opensBlock : TokenKind → Bool
  | .keyword .def_ => true
  | .keyword .class_ => true
  | .keyword .if_ => true
  | .keyword .for_ => true
  | .keyword .while_ => true
  | .symbol .at => true
  | _ => false

/-- Whether a statement is recognized by its first token and refused. -/
def opensRefused : TokenKind → Bool
  | .reserved word => (RefusedStmt.ofWord? word).isSome
  | _ => false

/-- The statement `v` is in front of is the block that `s` is in front of. -/
structure BlockAt (statement : Parser Stmt) (s v : ParseState) (more back : List Token) : Prop where
  down : ∀ body t, block statement s = .done body t → t.faults = [] → ∃ stmt u, simple v = .done stmt u ∧
    u.faults = [] ∧ (u.Ready more → body = [stmt] ∧ t.Ready back)
  up : ∀ stmt u, block statement s ≠ .exhausted → simple v = .done stmt u → u.Ready more →
    ∃ t, block statement s = .done [stmt] t ∧ t.Ready back
  halts : block statement s ≠ .exhausted → simple v ≠ .exhausted

section

variable {statement : Parser Stmt} {s u v : ParseState} {t colon newline indent dedent : Token}
  {line more back : List Token} {acc : List Stmt} {stmt : Stmt}

/-! ### on the line of the header -/

theorem block_oneLine (hs : s.Ready (colon :: t :: more)) (hcolon : colon.kind = .symbol .colon)
    (ht : t.kind.isLayout = false) : block statement s = (simple >>= fun stmt => pure [stmt]) s.advance := by
  have hexpect : expect (.symbol .colon) s = .done colon s.advance := by
    rw [expect, hs.peek, if_pos (beq_iff_eq.2 hcolon)]
  have hne : s.advance.peek.kind ≠ .newline := by
    rw [hs.advance.peek]
    intro heq
    rw [heq] at ht
    cases ht
  unfold block
  rw [bind_apply, hexpect]
  exact eat_bind_of_ne hne _

theorem blockAt_oneLine (hs : s.Ready (colon :: t :: more)) (hcolon : colon.kind = .symbol .colon)
    (ht : t.kind.isLayout = false) : BlockAt statement s s.advance back back where
  down body u hdone hclean := by
    rw [block_oneLine hs hcolon ht] at hdone
    obtain ⟨stmt, u, hsimple, hpure⟩ := bind_eq_done hdone
    cases hpure
    exact ⟨stmt, u, hsimple, hclean, fun hu => ⟨rfl, hu⟩⟩
  up stmt u _ hsimple hu := by
    refine ⟨u, ?_, hu⟩
    rw [block_oneLine hs hcolon ht, bind_apply, hsimple]
    rfl
  halts hne heq := by
    rw [block_oneLine hs hcolon ht, bind_apply, heq] at hne
    exact hne rfl

/-! ### on a line of its own -/

theorem block_ownLine (hs : s.Ready (colon :: newline :: indent :: more)) (hcolon : colon.kind = .symbol .colon)
    (hnewline : newline.kind = .newline) (hindent : indent.kind = .indent) :
    block statement s = indentedBlock statement s.advance.advance.advance := by
  have hexpect : expect (.symbol .colon) s = .done colon s.advance := by
    rw [expect, hs.peek, if_pos (beq_iff_eq.2 hcolon)]
  have hline : s.advance.peek.kind = .newline := by rw [hs.advance.peek, hnewline]
  have hopens : s.advance.advance.peek.kind = .indent := by rw [hs.advance.advance.peek, hindent]
  unfold block
  rw [bind_apply, hexpect]
  exact (eat_bind_of_eq hline _).trans (eat_bind_of_eq hopens _)

/-- A round of a block with a statement ahead. -/
theorem blockStep_eq (hs : s.Ready (t :: more)) (ht : t.kind.isLayout = false) : blockStep statement acc s =
    (attempt statement >>= fun
      | some stmt => pure (.inl (stmt :: acc))
      | none => synchronize >>= fun _ => pure (.inl acc)) s := by
  have hne : ∀ {k : TokenKind}, k.isLayout = true → (s.peek.kind == k) = false := by
    intro k hk
    refine beq_false_of_ne fun heq => ?_
    rw [← heq, hs.peek, ht] at hk
    cases hk
  have hfew : s.tooManyFaults = false := by
    rw [ParseState.tooManyFaults, hs.clean]
    rfl
  have hround : blockStep statement acc s = (recovered statement >>= fun
      | some stmt => pure (.inl (stmt :: acc))
      | none => pure (.inl acc) : Parser (List Stmt ⊕ Block)) s := by
    unfold blockStep
    simp only [bind_apply, check, atEnd, Parser.tooManyFaults, hne (k := .dedent) rfl, hne (k := .eof) rfl, hfew]
    rfl
  rw [hround, recovered, bind_assoc]
  refine congrFun (congrArg (attempt statement >>= ·) (funext fun found => ?_)) s
  cases found with
  | some stmt => rfl
  | none => exact bind_assoc synchronize _ _

/-- The rounds of a block from its second one on, and its end. -/
def blockRest (statement : Parser Stmt) (bound : Nat) : List Stmt ⊕ Block → Parser Block
  | .inl acc => loopUpTo (blockStep statement) bound acc >>= fun body => eat .dedent >>= fun _ => pure body
  | .inr body => eat .dedent >>= fun _ => pure body

theorem indentedBlock_eq : indentedBlock statement s =
    (blockStep statement [] >>= blockRest statement s.rest.length) s := by
  show (loop (blockStep statement) [] >>= fun body => eat .dedent >>= fun _ => pure body) s = _
  rw [bind_apply, loop, loopUpTo_succ, bind_apply, bind_apply]
  cases blockStep statement [] s with
  | done r u =>
      cases r with
      | inl acc => rfl
      | inr body => rfl
  | failed u => rfl
  | exhausted => rfl

theorem onwards_blockStep (h : Onwards statement) (acc : List Stmt) : Onwards (blockStep statement acc) := by
  have hrecovered : Onwards (recovered statement) := by
    unfold recovered
    refine h.attempt.bind fun found => ?_
    cases found with
    | some stmt => exact onwards_pure _
    | none => exact onwards_synchronize.bind fun _ => onwards_pure _
  unfold blockStep
  refine (onwards_check _).bind fun _ => (onwards_check _).bind fun _ => onwards_tooManyFaults.bind fun _ => ?_
  split
  · exact onwards_pure _
  · refine hrecovered.bind fun found => ?_
    cases found <;> exact onwards_pure _

theorem onwards_blockRest (h : Onwards statement) (bound : Nat) (r : List Stmt ⊕ Block) :
    Onwards (blockRest statement bound r) := by
  have hend : ∀ body : Block, Onwards (eat .dedent >>= fun _ => pure body) :=
    fun body => (onwards_eat _).bind fun _ => onwards_pure _
  cases r with
  | inl acc => exact (Onwards.loopUpTo (onwards_blockStep h) bound acc).bind hend
  | inr body => exact hend body

/-- A statement that is found without a fault has been read. -/
theorem statement_of_blockStep (h : Onwards statement) (hs : s.Ready (t :: more)) (ht : t.kind.isLayout = false)
    {r : List Stmt ⊕ Block} (hdone : blockStep statement acc s = .done r u) (hclean : u.faults = []) :
    ∃ stmt, statement s = .done stmt u ∧ r = .inl (stmt :: acc) := by
  rw [blockStep_eq hs ht] at hdone
  obtain ⟨found, w, hattempt, hrest⟩ := bind_eq_done hdone
  have hread := h s
  unfold attempt at hattempt
  cases hst : statement s with
  | done stmt w' =>
      rw [hst] at hattempt
      cases hattempt
      cases hrest
      exact ⟨stmt, rfl, rfl⟩
  | failed w' =>
      rw [hst] at hattempt hread
      cases hattempt
      obtain ⟨_, w, hsynchronize, hpure⟩ := bind_eq_done hrest
      cases hpure
      have honward := onwards_synchronize.of_done hsynchronize
      exact absurd (honward.clean hclean) hread.2
  | exhausted =>
      rw [hst] at hattempt
      cases hattempt

theorem blockRest_end (hu : u.Ready (dedent :: back)) (hdedent : dedent.kind = .dedent) {bound : Nat}
    (hbound : 0 < bound) :
    blockRest statement bound (.inl acc) u = .done acc.reverse u.advance := by
  obtain ⟨bound, rfl⟩ := Nat.exists_eq_succ_of_ne_zero (Nat.ne_of_gt hbound)
  have hpeek : u.peek.kind = .dedent := by rw [hu.peek, hdedent]
  have hround : blockStep statement acc u = .done (.inr acc.reverse) u := by
    unfold blockStep
    simp only [bind_apply, check, hpeek]
    rfl
  rw [blockRest, bind_apply, loopUpTo_inr hround]
  exact eat_bind_of_eq hpeek _

end

/-- Without a block of its own a statement is read as one on a line, or it is not read at all. -/
theorem statementWith_simple {statement : Parser Stmt} {s : ParseState} (hblock : opensBlock s.peek.kind = false)
    (hrefused : opensRefused s.peek.kind = false) : statementWith statement s = simple s ∨
      startsNothing s.peek.kind = true ∧ ∃ u, statementWith statement s = .failed u := by
  unfold statementWith
  rw [bind_apply]
  simp only [kind]
  generalize s.peek.kind = k at hblock hrefused
  cases k with
  | keyword word => cases word <;> first | exact .inl rfl | cases hblock
  | symbol sign => cases sign <;> first | exact .inl rfl | cases hblock
  | reserved word =>
      have hnone : RefusedStmt.ofWord? word = none :=
        Option.isNone_iff_eq_none.1 (by simpa [opensRefused] using hrefused)
      simp only [hnone]
      split
      · exact .inl rfl
      · rename_i hword
        refine .inr ⟨?_, _, rfl⟩
        simp only [Bool.or_eq_true, beq_iff_eq, not_or] at hword
        exact bne_iff_ne.2 hword.1
  | _ => exact .inl rfl

section

variable {s : ParseState} {t colon newline indent dedent : Token} {line more back : List Token} {bound : Nat}

theorem onwards_statementUpTo (bound : Nat) : Onwards (statementUpTo bound) :=
  ((pair_past fun _ => false).statementUpTo bound 0).onwards

/-- What a statement on a line is read as, if it is read. -/
theorem statementUpTo_simple (hs : s.Ready (t :: more)) (hblock : opensBlock t.kind = false)
    (hrefused : opensRefused t.kind = false) (hne : statementUpTo bound s ≠ .exhausted) :
    statementUpTo bound s = simple s ∨ (∃ u, statementUpTo bound s = .failed u) ∧ ∃ u, simple s = .failed u := by
  cases bound with
  | zero => exact absurd rfl hne
  | succ bound =>
      rw [← hs.peek] at hblock hrefused
      refine (statementWith_simple hblock hrefused).imp_right fun h => ⟨h.2, _, misses_simple h.1 hs.depth⟩

theorem blockAt_ownLine (hs : s.Ready (colon :: newline :: indent :: t :: more)) (hcolon : colon.kind = .symbol .colon)
    (hnewline : newline.kind = .newline) (hindent : indent.kind = .indent) (ht : t.kind.isLayout = false)
    (hblock : opensBlock t.kind = false) (hrefused : opensRefused t.kind = false) (hdedent : dedent.kind = .dedent) :
    BlockAt (statementUpTo bound) s s.advance.advance.advance (dedent :: back) back := by
  have hv := hs.advance.advance.advance
  have hforward := onwards_statementUpTo bound
  have hbound : 0 < s.advance.advance.advance.rest.length := by
    rw [hv.rest]
    exact Nat.succ_pos _
  have hread : block (statementUpTo bound) s ≠ .exhausted →
      statementUpTo bound s.advance.advance.advance ≠ .exhausted := by
    intro hne heq
    rw [block_ownLine hs hcolon hnewline hindent, indentedBlock_eq, bind_apply, blockStep_eq hv ht, bind_apply, attempt,
      heq] at hne
    exact hne rfl
  refine ⟨fun body u hdone hclean => ?_, fun stmt u hne hsimple hu => ?_, fun hne => ?_⟩
  · have hne := hread (by simp [hdone])
    rw [block_ownLine hs hcolon hnewline hindent, indentedBlock_eq] at hdone
    obtain ⟨r, w, hround, hrest⟩ := bind_eq_done hdone
    have hwclean := ((onwards_blockRest hforward _ r).of_done hrest).clean hclean
    obtain ⟨stmt, hstmt, rfl⟩ := statement_of_blockStep hforward hv ht hround hwclean
    obtain hsame | ⟨⟨u, hfailed⟩, -⟩ := statementUpTo_simple hv hblock hrefused hne
    · refine ⟨stmt, w, hsame ▸ hstmt, hwclean, fun hw => ?_⟩
      rw [blockRest_end hw hdedent hbound] at hrest
      cases hrest
      exact ⟨rfl, hw.advance⟩
    · rw [hfailed] at hstmt
      cases hstmt
  · obtain hsame | ⟨-, w, hfailed⟩ := statementUpTo_simple hv hblock hrefused (hread hne)
    · refine ⟨u.advance, ?_, hu.advance⟩
      rw [block_ownLine hs hcolon hnewline hindent, indentedBlock_eq, bind_apply, blockStep_eq hv ht, bind_apply,
        attempt, hsame, hsimple]
      exact blockRest_end hu hdedent hbound
    · rw [hfailed] at hsimple
      cases hsimple
  · obtain hsame | ⟨-, w, hfailed⟩ := statementUpTo_simple hv hblock hrefused (hread hne)
    · exact hsame ▸ hread hne
    · simp [hfailed]

end

/-! ## both forms -/

/-- A statement on the line of its header, from the colon on. -/
def oneLine (stmt : List TokenKind) : List TokenKind :=
  .symbol .colon :: (stmt ++ [.newline])

/-- A statement on a line of its own, from the colon of the header on. -/
def ownLine (stmt : List TokenKind) : List TokenKind :=
  .symbol .colon :: .newline :: .indent :: (stmt ++ [.newline, .dedent])

/-- A statement on one line: it has no block, and is not one of those that are refused. -/
structure OnLine (stmt : List TokenKind) : Prop where
  worded : ∀ k ∈ stmt, k.isLayout = false
  starts : ∃ k, stmt.head? = some k ∧ opensBlock k = false ∧ opensRefused k = false

/-- In both forms the block is the statement at some later place. -/
def LineBlock (stmt : List TokenKind) (body back : List Token) : Prop :=
  ∃ line newline more, line.map (·.kind) = stmt ∧ newline.kind = .newline ∧
    ∀ s : ParseState, s.Ready (body ++ back) → ∃ v : ParseState, v.Ready (line ++ newline :: more) ∧
      ∀ bound, BlockAt (statementUpTo bound) s v more back

section

variable {stmt : List TokenKind} {body body' back back' : List Token}

theorem OnLine.cons (h : OnLine stmt) : ∃ k rest, stmt = k :: rest ∧ k.isLayout = false ∧ opensBlock k = false ∧
    opensRefused k = false := by
  obtain ⟨k, hk, hstarts⟩ := h.starts
  obtain ⟨rest, rfl⟩ := List.head?_eq_some_iff.1 hk
  exact ⟨k, rest, rfl, h.worded k List.mem_cons_self, hstarts⟩

theorem lineBlock_oneLine (h : OnLine stmt) (hbody : body.map (·.kind) = oneLine stmt) : LineBlock stmt body back := by
  obtain ⟨colon, rest, rfl, hcolon, hrest⟩ := List.map_eq_cons_iff.1 hbody
  obtain ⟨line, last, rfl, hline, hlast⟩ := List.map_eq_append_iff.1 hrest
  obtain ⟨newline, rfl, hnewline⟩ := List.map_eq_singleton_iff.1 hlast
  obtain ⟨k, ks, rfl, hk, -⟩ := h.cons
  obtain ⟨t, ts, rfl, ht, hts⟩ := List.map_eq_cons_iff.1 hline
  refine ⟨t :: ts, newline, back, hline, hnewline, fun s hs => ⟨s.advance, ?_, fun bound => ?_⟩⟩
  · simpa using hs.advance
  · exact blockAt_oneLine hs hcolon (ht ▸ hk)

theorem lineBlock_ownLine (h : OnLine stmt) (hbody : body.map (·.kind) = ownLine stmt) : LineBlock stmt body back := by
  obtain ⟨colon, rest₁, rfl, hcolon, hrest⟩ := List.map_eq_cons_iff.1 hbody
  obtain ⟨opening, rest₂, rfl, hopening, hrest⟩ := List.map_eq_cons_iff.1 hrest
  obtain ⟨indent, rest₃, rfl, hindent, hrest⟩ := List.map_eq_cons_iff.1 hrest
  obtain ⟨line, last, rfl, hline, hlast⟩ := List.map_eq_append_iff.1 hrest
  obtain ⟨newline, rest₄, rfl, hnewline, hlast⟩ := List.map_eq_cons_iff.1 hlast
  obtain ⟨dedent, rfl, hdedent⟩ := List.map_eq_singleton_iff.1 hlast
  obtain ⟨k, ks, rfl, hk, hblock, hrefused⟩ := h.cons
  obtain ⟨t, ts, rfl, rfl, hts⟩ := List.map_eq_cons_iff.1 hline
  refine ⟨t :: ts, newline, dedent :: back, hline, hnewline, fun s hs =>
    ⟨s.advance.advance.advance, ?_, fun bound => ?_⟩⟩
  · simpa using hs.advance.advance.advance
  · exact blockAt_ownLine hs hcolon hopening hindent hk hblock hrefused hdedent

/-- The two forms are read side by side. -/
theorem blocks_of_lineBlock (h : OnLine stmt) (hbody : LineBlock stmt body back) (hbody' : LineBlock stmt body' back')
    (hcolon : FromColon (body ++ back)) (hcolon' : FromColon (body' ++ back')) (hback : Alike drop back back') :
    Blocks drop (body ++ back) (body' ++ back') := by
  obtain ⟨line, newline, more, hline, hnewline, hbody⟩ := hbody
  obtain ⟨line', newline', more', hline', hnewline', hbody'⟩ := hbody'
  have hworded : ∀ t ∈ line, t.kind.isLayout = false :=
    fun t ht => h.worded t.kind (hline ▸ List.mem_map_of_mem ht)
  refine ⟨hcolon, hcolon', fun bound bound' => ⟨?_, fun {s s' t stmts} hs hdone hholds hne => ?_⟩⟩
  · exact ((pair_past drop).block ((pair_past drop).statementUpTo bound bound')).onwards
  obtain ⟨hs, hs'⟩ := atSeam_iff.1 hs
  obtain ⟨v, hv, hblock⟩ := hbody s hs
  obtain ⟨v', hv', hblock'⟩ := hbody' s' hs'
  obtain ⟨stmt, u, hsimple, hclean, hends⟩ := (hblock bound).down stmts t hdone hholds.clean
  obtain ⟨stmt', u', hsimple', hsame, hu, hu'⟩ :=
    simple_alike hv hv' (hline'.trans hline.symm) hworded hnewline hnewline'
    hsimple hclean ((hblock' bound').halts hne)
  obtain ⟨rfl, ht⟩ := hends hu
  obtain ⟨t', hdone', ht'⟩ := (hblock' bound').up stmt' u' hne hsimple' hu'
  refine ⟨[stmt'], t', hdone', .cons hsame .nil, ⟨(atSeam_iff.2 ⟨ht, ht'⟩).toLevel, ?_, ?_⟩⟩
  · rw [ht.rest, ht'.rest, hback.kinds]
  · rw [ht.rest]
    exact hback.kept

end

/-! ## sources -/

section

variable {word : Keyword} {kinds stmt front back : List TokenKind} {tokens tokens' : List Token}

theorem fromColon_of_kinds {tail : List Token} (h : (tail.map (·.kind)).head? = some (.symbol .colon)) :
    FromColon tail := by
  cases tail with
  | nil => cases h
  | cons colon rest => exact ⟨colon, rest, rfl, Option.some.inj h⟩

theorem clause_oneLine (hword : ∀ k ∈ kinds, k.isLayout = false) (h : OnLine stmt) :
    Clause (.keyword word :: (kinds ++ oneLine stmt)) := by
  have hclause : Clause ((.keyword word :: (kinds ++ .symbol .colon :: stmt)) ++ .newline :: []) := by
    refine .mk (fun k hk => ?_) .nothing
    simp only [List.mem_cons, List.mem_append] at hk
    rcases hk with rfl | hk | rfl | hk
    · rfl
    · exact hword k hk
    · rfl
    · exact h.worded k hk
  simpa [oneLine] using hclause

theorem clause_ownLine (hword : ∀ k ∈ kinds, k.isLayout = false) (h : OnLine stmt) :
    Clause (.keyword word :: (kinds ++ ownLine stmt)) := by
  have hclause : Clause ((.keyword word :: (kinds ++ [.symbol .colon])) ++ .newline ::
      (.indent :: ((stmt ++ [.newline]) ++ [.dedent]))) := by
    refine .mk (fun k hk => ?_) (.block (depthBehind_of_words (fun k hk => ?_) 1))
    · simp only [List.mem_cons, List.mem_append, List.not_mem_nil, or_false] at hk
      rcases hk with rfl | hk | rfl
      · rfl
      · exact hword k hk
      · rfl
    · exact (List.mem_append.1 hk).imp (h.worded k) List.mem_singleton.1
  simpa [ownLine] using hclause

/-- The parts of a source with a block behind a header. -/
theorem exists_parts {body : List TokenKind}
    (h : tokens.map (·.kind) = front ++ .keyword word :: (kinds ++ (body ++ back))) :
    ∃ front₁ w head body₁ back₁, tokens = front₁ ++ w :: (head ++ (body₁ ++ back₁)) ∧ front₁.map (·.kind) = front ∧
      w.kind = .keyword word ∧ head.map (·.kind) = kinds ∧ body₁.map (·.kind) = body ∧ back₁.map (·.kind) = back := by
  obtain ⟨front₁, rest, rfl, hfront, hrest⟩ := List.map_eq_append_iff.1 h
  obtain ⟨w, rest, rfl, hw, hrest⟩ := List.map_eq_cons_iff.1 hrest
  obtain ⟨head, rest, rfl, hhead, hrest⟩ := List.map_eq_append_iff.1 hrest
  obtain ⟨body₁, back₁, rfl, hbody, hback⟩ := List.map_eq_append_iff.1 hrest
  exact ⟨front₁, w, head, body₁, back₁, rfl, hfront, hw, hhead, hbody, hback⟩

/-- Behind a header, two forms of the same block make the same tree. -/
theorem module_of_forms {body body' : List TokenKind} (hfront : StartsLine front) (hhead : Heads word kinds)
    (hline : OnLine stmt) (hback : back.head? ≠ some .indent)
    (hbody : ∀ {used back}, used.map (·.kind) = body → LineBlock stmt used back)
    (hbody' : ∀ {used back}, used.map (·.kind) = body' → LineBlock stmt used back)
    (hcolon : body.head? = some (.symbol .colon)) (hcolon' : body'.head? = some (.symbol .colon))
    (hclause : Clause (.keyword word :: (kinds ++ body))) (hclause' : Clause (.keyword word :: (kinds ++ body')))
    (htokens : tokens.map (·.kind) = front ++ .keyword word :: (kinds ++ (body ++ back)))
    (htokens' : tokens'.map (·.kind) = front ++ .keyword word :: (kinds ++ (body' ++ back))) {m : Module}
    (hm : (parse tokens).module? = some m) : ∃ m', (parse tokens').module? = some m' ∧ m'.spanless = m.spanless := by
  obtain ⟨front₁, w, head, used, back₁, rfl, hfront₁, hw, hhead₁, hused, hback₁⟩ := exists_parts htokens
  obtain ⟨front₂, w', head', used', back₂, rfl, hfront₂, hw', hhead₂, hused', hback₂⟩ := exists_parts htokens'
  have halike : Alike (fun _ => false) back₁ back₂ :=
    ⟨hback₂.trans hback₁.symm, fun _ _ _ _ _ _ _ => rfl, by rwa [hback₁]⟩
  have hfrom : FromColon (used ++ back₁) := fromColon_of_kinds (by simp [hused, hcolon])
  have hfrom' : FromColon (used' ++ back₂) := fromColon_of_kinds (by simp [hused', hcolon'])
  have hblocks := blocks_of_lineBlock hline (hbody hused) (hbody' hused') hfrom hfrom' halike
  have hseam := seam_of_header hhead hw hw' hhead₁ hhead₂ hblocks halike (by simpa [hw, hhead₁, hused] using hclause)
    (by simpa [hw', hhead₂, hused'] using hclause')
  obtain ⟨m', hm', hsame⟩ := parse_of_seam hseam (hfront₁ ▸ hfront) (hfront₂.trans hfront₁.symm)
    (fun _ _ _ _ _ _ _ => rfl) hm
  exact ⟨m', hm', by rw [hsame, Module.passing_none]⟩

/-- A statement on one line may stand behind a header, or on a line of its own: either both sources are refused, or both
have the same tree up to spans. -/
theorem parse_oneLine (hfront : StartsLine front) (hhead : Heads word kinds) (hline : OnLine stmt)
    (hback : back.head? ≠ some .indent)
    (htokens : tokens.map (·.kind) = front ++ .keyword word :: (kinds ++ (oneLine stmt ++ back)))
    (htokens' : tokens'.map (·.kind) = front ++ .keyword word :: (kinds ++ (ownLine stmt ++ back))) :
    (parse tokens).module?.map Module.spanless = (parse tokens').module?.map Module.spanless := by
  have hforth : ∀ m, (parse tokens).module? = some m →
      ∃ m', (parse tokens').module? = some m' ∧ m'.spanless = m.spanless :=
    fun m hm => module_of_forms hfront hhead hline hback (lineBlock_oneLine hline) (lineBlock_ownLine hline) rfl rfl
      (clause_oneLine hhead.worded hline) (clause_ownLine hhead.worded hline) htokens htokens' hm
  have hback : ∀ m', (parse tokens').module? = some m' →
      ∃ m, (parse tokens).module? = some m ∧ m.spanless = m'.spanless :=
    fun m' hm' => module_of_forms hfront hhead hline hback (lineBlock_ownLine hline) (lineBlock_oneLine hline) rfl rfl
      (clause_ownLine hhead.worded hline) (clause_oneLine hhead.worded hline) htokens' htokens hm'
  cases hm : (parse tokens).module? with
  | none =>
      cases hm' : (parse tokens').module? with
      | none => rfl
      | some m' =>
          obtain ⟨m, hone, -⟩ := hback m' hm'
          cases hone.symm.trans hm
  | some m =>
      obtain ⟨m', hm', hsame⟩ := hforth m hm
      rw [hm', Option.map_some, Option.map_some, hsame]

end

theorem parse_oneLine_if : (parse (lex "if a: return\nelse: b\n").tokens).module?.map Module.spanless =
    (parse (lex "if a:\n    return\nelse: b\n").tokens).module?.map Module.spanless :=
  @parse_oneLine .if_ [.identifier "a"] [.keyword .return_] []
    [.keyword .else_, .symbol .colon, .identifier "b", .newline, .eof] _ _ ⟨nofun, .nil⟩
    (.condition (.inl rfl) ⟨_, _, rfl, rfl, rfl⟩) ⟨by decide, ⟨_, rfl, rfl, rfl⟩⟩ (by decide) (by decide +kernel)
    (by decide +kernel)

end ViewSync.Parser
