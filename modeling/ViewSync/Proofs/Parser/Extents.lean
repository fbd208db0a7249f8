import ViewSync.Proofs.Parser.Refused
import ViewSync.Proofs.Token.Blocks

/-!
# ViewSync.Proofs.Parser.Extents

How far a refused statement reaches in a source. Behind the end of its first line stand the block that hangs on the line
and, behind a `try`, the clauses that follow, if there are any (`exists_reach`); every block that starts there ends in
the source. The tokens of the statement end with the end of a line and with ends of blocks (`Reach.exists_closers`).
-/

namespace ViewSync.Parser

variable {k : TokenKind} {kinds more : List TokenKind} {depth : Nat}

/-! ## the rest of a source -/

/-- The kinds of the last tokens of a source without lexical faults. -/
structure SourceEnd (kinds : List TokenKind) : Prop where
  follows : kinds.IsChain MayFollow
  opened : kinds.IsChain MayOpen
  /-- All blocks are closed that start there. -/
  closed : ∀ back, back <:+ kinds → back.count .indent ≤ back.count .dedent
  last : ∀ k ∈ kinds.getLast?, k = .eof
  /-- Nothing stands behind the end of the source. -/
  ends : ∀ front back, kinds = front ++ .eof :: back → back = []

namespace SourceEnd

theorem suffix (h : SourceEnd kinds) (hsuffix : more <:+ kinds) : SourceEnd more where
  follows := h.follows.suffix hsuffix
  opened := h.opened.suffix hsuffix
  closed back hback := h.closed back (hback.trans hsuffix)
  last k hk := by
    obtain ⟨front, rfl⟩ := hsuffix
    exact h.last k (List.mem_getLast?_append_of_mem_getLast? hk)
  ends front back hback := by
    obtain ⟨used, rfl⟩ := hsuffix
    exact h.ends (used ++ front) back (by rw [hback, List.append_assoc])

theorem behind (h : SourceEnd (kinds ++ more)) : SourceEnd more :=
  h.suffix (List.suffix_append _ _)

theorem tail (h : SourceEnd (k :: kinds)) : SourceEnd kinds :=
  h.suffix (List.suffix_cons _ _)

end SourceEnd

theorem sourceEnd_lex {text : String} (hlex : (lex text).faults = []) : SourceEnd ((lex text).tokens.map (·.kind)) where
  follows := mayFollow_lex text
  opened := indents_lex text
  closed back hback := by
    obtain ⟨hkept, hcount, -⟩ := nested_lex hlex
    obtain ⟨front, hfront⟩ := hback
    have hbefore := hkept front ⟨back, hfront⟩
    rw [← hfront, List.count_append, List.count_append] at hcount
    omega
  last k hk := by
    obtain ⟨⟨front, hkinds, -⟩, -⟩ := spaced_lex text
    rw [hkinds, List.getLast?_concat] at hk
    exact (Option.some.inj hk).symm
  ends front back hback := by
    obtain ⟨⟨used, hkinds, hnone⟩, -⟩ := spaced_lex text
    obtain rfl | ⟨rest, k, rfl⟩ := back.eq_nil_or_concat
    · rfl
    · rw [hkinds, List.concat_eq_append, ← List.cons_append, ← List.append_assoc] at hback
      refine absurd ?_ hnone
      rw [(List.append_inj' hback rfl).1]
      exact List.mem_append_right _ List.mem_cons_self

/-! ## what stands behind a line -/

/-- A line that has been started ends. -/
theorem exists_line (h : SourceEnd (k :: kinds)) (hk : k.isLayout = false) :
    ∃ line back, kinds = line ++ .newline :: back ∧ ∀ k ∈ line, k.isLayout = false := by
  induction kinds generalizing k with
  | nil =>
      rw [h.last k rfl] at hk
      cases hk
  | cons next rest ih =>
      obtain hnext | rfl := (List.isChain_cons_cons.1 h.follows).1 hk
      · obtain ⟨line, back, rfl, hline⟩ := ih h.tail hnext
        exact ⟨next :: line, back, rfl, List.forall_mem_cons.2 ⟨hnext, hline⟩⟩
      · exact ⟨[], rest, rfl, nofun⟩

/-- If more blocks are closed than opened, one of those that are open ends. -/
theorem exists_closing (hends : ∀ front back, kinds = front ++ .eof :: back → back = [])
    (hcount : kinds.count .indent + (depth + 1) ≤ kinds.count .dedent) :
    ∃ inner back, kinds = inner ++ .dedent :: back ∧ depthBehind (depth + 1) inner = some 1 := by
  induction kinds generalizing depth with
  | nil => simp at hcount
  | cons k rest ih =>
      have hends' : ∀ front back, rest = front ++ .eof :: back → back = [] :=
        fun front back heq => hends (k :: front) back (congrArg (k :: ·) heq)
      by_cases hindent : k = .indent
      · subst hindent
        obtain ⟨inner, back, rfl, hinner⟩ := @ih (depth + 1) hends' (by simp at hcount; omega)
        exact ⟨.indent :: inner, back, rfl, hinner⟩
      by_cases hdedent : k = .dedent
      · subst hdedent
        cases depth with
        | zero => exact ⟨[], rest, rfl, rfl⟩
        | succ depth =>
            obtain ⟨inner, back, rfl, hinner⟩ := @ih depth hends' (by simp at hcount; omega)
            exact ⟨.dedent :: inner, back, rfl, (if_neg (by omega)).trans hinner⟩
      have hne : k ≠ .eof := by
        rintro rfl
        rw [hends [] rest rfl] at hcount
        simp at hcount
      obtain ⟨inner, back, rfl, hinner⟩ := @ih depth hends' (by simpa [hindent, hdedent] using hcount)
      exact ⟨k :: inner, back, rfl, (depthBehind_cons hindent hdedent hne _ _).trans hinner⟩

/-- Behind the end of a line a block may hang on it. -/
theorem exists_hanging (h : SourceEnd kinds) :
    ∃ block back, kinds = block ++ back ∧ Hanging block ∧ back.head? ≠ some .indent := by
  by_cases hindent : kinds.head? = some .indent
  · obtain ⟨rest, rfl⟩ : ∃ rest, kinds = .indent :: rest := List.head?_eq_some_iff.1 hindent
    have hcount := h.closed _ List.suffix_rfl
    obtain ⟨inner, back, rfl, hinner⟩ := @exists_closing _ 0 h.tail.ends (by simpa using hcount)
    refine ⟨.indent :: (inner ++ [.dedent]), back, by simp, .block hinner, fun hnext => ?_⟩
    obtain ⟨rest, rfl⟩ := List.head?_eq_some_iff.1 hnext
    have hpair : [TokenKind.dedent, .indent].IsChain MayOpen :=
      h.opened.infix ⟨.indent :: inner, rest, by simp⟩
    cases (List.isChain_cons_cons.1 hpair).1 rfl
  · exact ⟨[], kinds, rfl, .nothing, hindent⟩

/-- Behind that there may be clauses that go on with a `try`. -/
theorem exists_clauses (h : SourceEnd kinds) (hindent : kinds.head? ≠ some .indent) :
    ∃ clauses back, kinds = clauses ++ back ∧ Clauses clauses ∧ back.head? ≠ some .indent ∧
      ∀ k ∈ back.head?, continuesTry k = false := by
  induction hlength : kinds.length using Nat.strong_induction_on generalizing kinds with
  | _ n ih =>
      by_cases hmore : ∃ k ∈ kinds.head?, continuesTry k = true
      · obtain ⟨k, hhead, hk⟩ := hmore
        obtain ⟨rest, rfl⟩ := List.head?_eq_some_iff.1 hhead
        have hword : k.isLayout = false := by cases k <;> first | rfl | cases hk
        obtain ⟨line, behind, rfl, hline⟩ := exists_line h hword
        obtain ⟨block, back, rfl, hblock, hback⟩ := exists_hanging (h.tail.behind.tail)
        have hend : SourceEnd back := h.tail.behind.tail.behind
        obtain ⟨clauses, back, rfl, hclauses, hrest⟩ := ih back.length (by simp at hlength; omega) hend hback rfl
        refine ⟨k :: (line ++ .newline :: block) ++ clauses, back, by simp, .cons hk ?_ hclauses, hrest⟩
        show Clause ((k :: line) ++ .newline :: block)
        exact .mk (List.forall_mem_cons.2 ⟨hword, hline⟩) hblock
      · exact ⟨[], kinds, rfl, .nil, hindent, fun k hk => Bool.eq_false_iff.2 fun hcont => hmore ⟨k, hk, hcont⟩⟩

/-- What belongs to a refused statement behind its first line, and what does not. -/
theorem exists_reach (stmt : RefusedStmt) {line : List TokenKind} (hline : ∀ k ∈ line, k.isLayout = false)
    (h : SourceEnd kinds) : ∃ block clauses back, kinds = block ++ (clauses ++ back) ∧
      Reach stmt line block clauses ∧ Unattached stmt back := by
  obtain ⟨block, rest, rfl, hblock, hrest⟩ := exists_hanging h
  by_cases htry : stmt = .try_
  · obtain ⟨clauses, back, rfl, hclauses, hback, hended⟩ := exists_clauses h.behind hrest
    exact ⟨block, clauses, back, rfl, ⟨hline, hblock, by rwa [if_pos htry]⟩, hback, fun _ => hended⟩
  · exact ⟨block, [], rest, rfl, ⟨hline, hblock, by rw [if_neg htry]⟩, hrest, fun h => absurd h htry⟩

/-- The same, token by token. -/
theorem exists_reaching (stmt : RefusedStmt) {line : List TokenKind} (hline : ∀ k ∈ line, k.isLayout = false)
    {tokens : List Token} (h : SourceEnd (tokens.map (·.kind))) : ∃ hanging others back,
      tokens = hanging ++ (others ++ back) ∧ Reach stmt line (hanging.map (·.kind)) (others.map (·.kind)) ∧
        Unattached stmt (back.map (·.kind)) := by
  obtain ⟨block, clauses, behind, hkinds, hreach, hbehind⟩ := exists_reach stmt hline h
  obtain ⟨hanging, rest, rfl, rfl, hrest⟩ := List.map_eq_append_iff.1 hkinds
  obtain ⟨others, back, rfl, rfl, rfl⟩ := List.map_eq_append_iff.1 hrest
  exact ⟨hanging, others, back, rfl, hreach, hbehind⟩

/-! ## the last line -/

/-- The last of some kinds is layout, if there is one. -/
def Rests (kinds : List TokenKind) : Prop :=
  ∀ k ∈ kinds.getLast?, k.isLayout = true

theorem rests_concat (hk : k.isLayout = true) (kinds : List TokenKind) : Rests (kinds ++ [k]) := by
  intro last hlast
  rw [List.getLast?_concat] at hlast
  exact Option.some.inj hlast ▸ hk

theorem Rests.append (h : Rests kinds) (hmore : Rests more) : Rests (kinds ++ more) := by
  intro k hk
  rw [List.getLast?_append] at hk
  cases hlast : more.getLast? with
  | none => exact h k (by rwa [hlast] at hk)
  | some last =>
      rw [hlast] at hk
      exact Option.some.inj hk ▸ hmore last hlast

theorem Hanging.rests (h : Hanging kinds) (line : List TokenKind) : Rests (line ++ .newline :: kinds) := by
  rw [← List.singleton_append, ← List.append_assoc]
  refine (rests_concat rfl line).append ?_
  cases h with
  | nothing => exact nofun
  | block _ => exact rests_concat rfl (.indent :: _)

theorem Clauses.rests (h : Clauses kinds) : Rests kinds := by
  induction h with
  | nil => exact nofun
  | @cons k line rest _ hclause _ ih =>
      refine Rests.append ?_ ih
      generalize k :: line = kinds at hclause
      obtain ⟨-, hblock⟩ := hclause
      exact hblock.rests _

/-- A refused statement ends with layout. -/
theorem Reach.rests {stmt : RefusedStmt} {line block clauses : List TokenKind} (h : Reach stmt line block clauses)
    (k : TokenKind) : Rests (k :: line ++ .newline :: (block ++ clauses)) := by
  have hrests := (h.hanging.rests (k :: line)).append h.clauses_cases.rests
  rwa [List.append_assoc] at hrests

/-- Where skipping goes on the source has not ended, and as many blocks are open. -/
theorem opens_of_depthBehind {depth' : Nat} (h : depthBehind (depth + 1) kinds = some depth') {front : List TokenKind}
    (hfront : Opens front depth) : .eof ∉ kinds ∧ Opens (kinds.reverse ++ front) (depth' - 1) := by
  induction kinds generalizing depth front with
  | nil =>
      cases h
      exact ⟨List.not_mem_nil, hfront⟩
  | cons k rest ih =>
      rw [List.reverse_cons, List.append_assoc, List.singleton_append]
      by_cases hindent : k = .indent
      · subst hindent
        obtain ⟨hnone, hopens⟩ := ih h hfront.indent
        exact ⟨by simpa using hnone, hopens⟩
      by_cases hdedent : k = .dedent
      · subst hdedent
        cases depth with
        | zero => cases h
        | succ depth =>
            rw [depthBehind, if_neg (by omega)] at h
            obtain ⟨hnone, hopens⟩ := ih h hfront.dedent
            exact ⟨by simpa using hnone, hopens⟩
      by_cases heof : k = .eof
      · subst heof
        cases h
      rw [depthBehind_cons hindent hdedent heof] at h
      obtain ⟨hnone, hopens⟩ := ih h (hfront.other hindent hdedent)
      exact ⟨fun hmem => (List.mem_cons.1 hmem).elim (fun heq => heof heq.symm) hnone, hopens⟩

/-- Behind the end of the last line there are only starts and ends of blocks. -/
theorem exists_closers {w : Token} {tokens : List Token} (hchain : ((w :: tokens).map (·.kind)).IsChain MayFollow)
    (hw : w.kind.isLayout = false) (heof : .eof ∉ tokens.map (·.kind)) (hne : tokens ≠ [])
    (hlast : ∀ t ∈ tokens.getLast?, t.kind.isLayout = true) :
    ∃ lines newline closers, tokens = lines ++ newline :: closers ∧ newline.kind = .newline ∧
      ∀ t ∈ closers, t.isBlock = true := by
  induction tokens using List.reverseRecOn with
  | nil => exact absurd rfl hne
  | append_singleton tokens t ih =>
      have hlayout : t.kind.isLayout = true := hlast t (by simp)
      by_cases hnewline : t.kind = .newline
      · exact ⟨tokens, t, [], rfl, hnewline, nofun⟩
      have hblock := Token.isBlock_of_isLayout hlayout hnewline fun heq => heof (by simp [heq])
      -- Behind a word there is no block, so layout stands in front of it.
      have hbefore : ∀ u ∈ (w :: tokens).getLast?, u.kind.isLayout = true := by
        intro u hu
        obtain ⟨front, hfront⟩ := List.getLast?_eq_some_iff.1 hu
        have hpair : [u.kind, t.kind].IsChain MayFollow := by
          refine hchain.infix ⟨front.map (·.kind), [], ?_⟩
          rw [← List.cons_append, hfront]
          simp
        refine Bool.not_eq_false _ ▸ fun hword => ?_
        obtain hnext | hnext := (List.isChain_cons_cons.1 hpair).1 hword
        · rw [hlayout] at hnext
          cases hnext
        · exact hnewline hnext
      have hsome : tokens ≠ [] := by
        rintro rfl
        rw [hbefore w rfl] at hw
        cases hw
      have hfront : ((w :: tokens).map (·.kind)).IsChain MayFollow :=
        hchain.prefix ⟨[t.kind], by simp⟩
      obtain ⟨lines, newline, closers, rfl, hend, hcloses⟩ := ih hfront
        (fun hmem => heof (by rw [List.map_append]; exact List.mem_append_left _ hmem)) hsome
        (fun u hu => hbefore u (by rw [List.getLast?_cons_of_ne_nil hsome]; exact hu))
      refine ⟨lines, newline, closers ++ [t], by simp, hend, ?_⟩
      exact List.forall_mem_append.2 ⟨hcloses, List.forall_mem_singleton.2 hblock⟩

/-- The tokens of a refused statement end with the end of a line and with ends of blocks, and every block that they open
is closed. -/
theorem Reach.exists_closers {stmt : RefusedStmt} {w newline : Token} {line hanging others used : List Token}
    (h : Reach stmt (line.map (·.kind)) (hanging.map (·.kind)) (others.map (·.kind)))
    (hw : w.kind = .reserved stmt.word) (hnewline : newline.kind = .newline)
    (hused : used = line ++ newline :: (hanging ++ others)) (hchain : ((w :: used).map (·.kind)).IsChain MayFollow) :
    ∃ lines newline' closers, used = lines ++ newline' :: closers ∧ newline'.kind = .newline ∧
      (∀ t ∈ closers, t.isBlock = true) ∧ Opens ((w :: used).map (·.kind)).reverse 0 := by
  have hkinds : (w :: used).map (·.kind) = .reserved stmt.word :: line.map (·.kind) ++
      .newline :: (hanging.map (·.kind) ++ others.map (·.kind)) := by simp [hused, hw, hnewline]
  have hrests : Rests ((w :: used).map (·.kind)) := hkinds ▸ h.rests _
  have hdepth : depthBehind 1 ((w :: used).map (·.kind)) = some 1 := by
    rw [hkinds]
    simpa using h.depthBehind_eq 0
  obtain ⟨hnone, hopens⟩ := opens_of_depthBehind hdepth .nil
  rw [List.append_nil] at hopens
  have hne : used ≠ [] := by simp [hused]
  obtain ⟨lines, newline', closers, hlines, hnewline', hcloses⟩ := Parser.exists_closers hchain (by rw [hw]; rfl)
    (fun hmem => hnone (List.mem_cons_of_mem _ hmem)) hne fun t ht => hrests _ (by
      rw [List.getLast?_map, List.getLast?_cons_of_ne_nil hne, ht]
      rfl)
  exact ⟨lines, newline', closers, hlines, hnewline', hcloses, hopens⟩

end ViewSync.Parser
