import ViewSync.Proofs.View.Outline

/-!
# ViewSync.Proofs.View.Marks

The marks of the scope pass, by what stands in front of a target. The pass keeps the names known in a stack of
scopes; here that is the same as asking, at each target, what the text in front of it binds in the scopes around
it.

* `scan_outlineBlock` — the pass over a source is a walk over its outline;
* `scan_eq_markAll` — on that walk the names known are those that are `Bound`;
* `analyze_ok`, `analyze_error` — which targets are marked, and which one is refused.
-/

namespace ViewSync.Scope

variable {table : Replacements}

/-! ## a walk over an outline -/

theorem ok_bind {ε α β : Type} (a : α) (f : α → Except ε β) : (Except.ok a >>= f) = f a := rfl

/-- What a binder does to the names known and to the marks. -/
def step (table : Replacements) (st : State) : Binder Span → Except Refusal State
  | .target span names =>
    if names.all fun x => !st.isBound table x then
      .ok { st.bind names with declared := st.declared.insert span }
    else if names.all (st.isBound table) then .ok st
    else .error (.mixedDeclaration names span)
  | binder => .ok (st.bind binder.names)

/-- The pass over an outline. An inner scope starts with the names of the scope around it. -/
def scan (table : Replacements) (st : State) : Outline (Binder Span) → Except Refusal State
  | .done => .ok st
  | .here binder rest => do scan table (← step table st binder) rest
  | .scope inner rest => do
    let last ← scan table st inner
    scan table (st.leave last) rest

/-- A single name is declared unless it is known. -/
theorem step_name (st : State) (span : Span) (x : String) :
    step table st (.target span [x]) = .ok (st.declare table x span) := by
  rw [step, State.declare]
  cases h : st.isBound table x <;> simp [h, State.bind]

theorem scan_outlineTarget (st : State) (target : Expr) (rest : Outline (Binder Span)) :
    scan table st (outlineTarget target rest) = scan table (visitTarget table st target) rest := by
  cases target with
  | name span id =>
      rw [outlineTarget, scan, step_name]
      rfl
  | _ => rfl

theorem scan_targets (st : State) (targets : List Expr) (rest : Outline (Binder Span)) :
    scan table st (targets.foldr outlineTarget rest) =
      scan table (targets.foldl (visitTarget table) st) rest := by
  induction targets generalizing st with
  | nil => rfl
  | cons target targets ih => rw [List.foldr_cons, scan_outlineTarget, ih, List.foldl_cons]

theorem scan_outlineLoopTarget (st : State) (target : Expr) (rest : Outline (Binder Span)) :
    scan table st (outlineLoopTarget target rest) =
      visitLoopTarget table st target >>= fun st => scan table st rest := by
  cases target with
  | name span id =>
      rw [outlineLoopTarget, scan, step_name]
      rfl
  | tuple span items =>
      simp only [outlineLoopTarget, visitLoopTarget]
      by_cases hnames : (items.filterMap Expr.asName?).length = items.length
      · rw [if_pos hnames, if_neg (not_not_intro hnames)]
        rfl
      · rw [if_neg hnames, if_pos hnames]
        rfl
  | _ => rfl

mutual

/-- The pass over a statement is a walk over its outline, and goes on with the rest of the scope. -/
theorem scan_outlineStmt (st : State) (stmt : Stmt) (rest : Outline (Binder Span)) :
    scan table st (outlineStmt stmt rest) =
      visitStmt table st stmt >>= fun st => scan table st rest := by
  cases stmt with
  | function def_ => rw [outlineStmt, visitStmt, scan_outlineFunction st .definition (fun _ _ => rfl)]
  | class_ def_ => rw [outlineStmt, visitStmt, scan_outlineClass]
  | assign span targets value =>
      rw [outlineStmt, visitStmt, scan_targets]
      rfl
  | if_ chain => rw [outlineStmt, visitStmt, scan_outlineChain]
  | for_ span target source body orelse =>
      rw [outlineStmt, scan, scan_outlineLoopTarget, visitStmt]
      simp only [scan_outlineBlock, scan_outlineOptional, bind_assoc]
  | while_ span condition body orelse =>
      rw [outlineStmt, scan, visitStmt]
      simp only [scan_outlineBlock, scan_outlineOptional, bind_assoc]
  | _ => rw [outlineStmt, visitStmt]; rfl

theorem scan_outlineFunction (st : State) (bind : String → Binder Span)
    (hbind : ∀ st x, step table st (bind x) = .ok (st.bind [x])) (def_ : FunctionDef)
    (rest : Outline (Binder Span)) :
    scan table st (outlineFunction bind def_ rest) =
      visitFunction table st def_ >>= fun st => scan table st rest := by
  cases def_ with
  | mk span name params decorators body =>
      have hparams : ∀ st names, step table st (.parameters names) = .ok (st.bind names) :=
        fun _ _ => rfl
      rw [outlineFunction, visitFunction]
      simp only [scan, hbind, hparams, ok_bind, scan_outlineBlock, bind_assoc, pure_bind]

theorem scan_outlineClass (st : State) (def_ : ClassDef) (rest : Outline (Binder Span)) :
    scan table st (outlineClass def_ rest) =
      visitClass table st def_ >>= fun st => scan table st rest := by
  cases def_ with
  | mk span name bases decorators body =>
      have hname : step table st (.definition name.name) = .ok (st.bind [name.name]) := rfl
      rw [outlineClass, visitClass]
      simp only [scan, hname, ok_bind, scan_outlineMembers, bind_assoc, pure_bind]

theorem scan_outlineMembers (st : State) (body : List Stmt) :
    scan table st (outlineMembers body) = visitBlock table st body := by
  cases body with
  | nil => rfl
  | cons stmt rest =>
      rw [visitBlock]
      cases stmt with
      | function def_ =>
          rw [outlineMembers, visitStmt, scan_outlineFunction st .method (fun _ _ => rfl)]
          simp only [scan_outlineMembers]
      | _ =>
          rw [outlineMembers, scan_outlineStmt]
          · simp only [scan_outlineMembers]
          · nofun

theorem scan_outlineChain (st : State) (chain : IfChain) (rest : Outline (Binder Span)) :
    scan table st (outlineChain chain rest) =
      visitChain table st chain >>= fun st => scan table st rest := by
  cases chain with
  | mk span condition body orelse =>
      rw [outlineChain, visitChain]
      simp only [scan, scan_outlineBlock, scan_outlineElse, bind_assoc]

theorem scan_outlineElse (st : State) (orelse : Else) (rest : Outline (Binder Span)) :
    scan table st (outlineElse orelse rest) =
      visitElse table st orelse >>= fun st => scan table st rest := by
  cases orelse with
  | nothing => rfl
  | elif chain => rw [outlineElse, visitElse, scan_outlineChain]
  | block body =>
      rw [outlineElse, visitElse]
      simp only [scan, scan_outlineBlock, bind_assoc, pure_bind]

theorem scan_outlineOptional (st : State) (orelse : Option (List Stmt)) (rest : Outline (Binder Span)) :
    scan table st (outlineOptional orelse rest) =
      visitOptional table st orelse >>= fun st => scan table st rest := by
  cases orelse with
  | none => rfl
  | some body =>
      rw [outlineOptional, visitOptional]
      simp only [scan, scan_outlineBlock, bind_assoc, pure_bind]

/-- The pass over a block is a walk over its outline. -/
theorem scan_outlineBlock (st : State) (body : List Stmt) :
    scan table st (outlineBlock body) = visitBlock table st body := by
  cases body with
  | nil => rfl
  | cons stmt rest =>
      rw [outlineBlock, scan_outlineStmt, visitBlock]
      simp only [scan_outlineBlock]

end

/-! ## the names known are those that are bound -/

/-- What a place behind others does to the marks. -/
def mark (table : Replacements) (before : List (Place (Binder Span))) (ds : Declarations)
    (p : Place (Binder Span)) : Except Refusal Declarations :=
  match p.item with
  | .target span names =>
    if ∀ x ∈ names, ¬ Bound table before p.scope x then .ok (ds.insert span)
    else if ∀ x ∈ names, Bound table before p.scope x then .ok ds
    else .error (.mixedDeclaration names span)
  | _ => .ok ds

/-- The marks of places behind others. -/
def markAll (table : Replacements) : List (Place (Binder Span)) → Declarations →
    List (Place (Binder Span)) → Except Refusal Declarations
  | _, ds, [] => .ok ds
  | before, ds, p :: rest => do markAll table (before ++ [p]) (← mark table before ds p) rest

theorem markAll_append (before : List (Place (Binder Span))) (ds : Declarations)
    (ps qs : List (Place (Binder Span))) :
    markAll table before ds (ps ++ qs) =
      markAll table before ds ps >>= fun ds => markAll table (before ++ ps) ds qs := by
  induction ps generalizing before ds with
  | nil => rw [List.nil_append, markAll, ok_bind, List.append_nil]
  | cons p ps ih =>
      rw [List.cons_append, markAll, markAll]
      simp only [ih, bind_assoc, List.append_assoc, List.singleton_append]

/-- A scope is not inside itself. -/
theorem not_concat_prefix (path : List Nat) (k : Nat) : ¬ path ++ [k] <+: path := by
  intro h
  have hlength := h.length_le
  rw [List.length_append] at hlength
  exact Nat.not_succ_le_self _ hlength

/-- The names known in the scope `path` are those that are bound behind the places passed so far, and the
next inner scope, whose number is `n`, holds none of them. -/
structure Knows (table : Replacements) (before : List (Place (Binder Span))) (path : List Nat) (n : Nat)
    (st : State) : Prop where
  known : ∀ x, st.isBound table x = true ↔ Bound table before path x
  fresh : ∀ q ∈ before, ∀ k, n ≤ k → ¬ path ++ [k] <+: q.scope

namespace Knows

variable {before : List (Place (Binder Span))} {path : List Nat} {n : Nat} {st : State}

/-- An inner scope starts with the names of the scope around it. -/
theorem inner (h : Knows table before path n st) : Knows table before (path ++ [n]) 0 st where
  known x := by
    have hscope : ∀ q ∈ before, q.scope <+: path ++ [n] ↔ q.scope <+: path := by
      intro q hq
      rw [List.prefix_concat_iff, or_iff_right]
      exact fun heq => h.fresh q hq n (Nat.le_refl n) (heq ▸ List.prefix_refl _)
    rw [h.known, Bound, Bound]
    refine or_congr_right (exists_congr fun q => and_congr_right fun hq => ?_)
    rw [hscope q hq]
  fresh q hq k _ hprefix :=
    h.fresh q hq n (Nat.le_refl n) ((List.prefix_append _ [k]).trans hprefix)

/-- Behind an inner scope the names are those from before it. -/
theorem outer (h : Knows table before path n st) {o : Outline (Binder Span)} (ds : Declarations) :
    Knows table (before ++ o.places (path ++ [n]) 0) path (n + 1) { st with declared := ds } := by
  have hinside : ∀ q ∈ o.places (path ++ [n]) 0, path ++ [n] <+: q.scope :=
    fun q hq => Outline.prefix_of_mem_places hq
  refine ⟨fun x => ?_, fun q hq k hk hprefix => ?_⟩
  · have hnone : ¬ ∃ q ∈ o.places (path ++ [n]) 0, q.scope <+: path ∧ x ∈ q.item.names := by
      rintro ⟨q, hq, hscope, -⟩
      exact not_concat_prefix path n ((hinside q hq).trans hscope)
    refine (h.known x).trans ?_
    simp only [Bound, List.mem_append, or_and_right, exists_or, hnone, or_false]
  · obtain hq | hq := List.mem_append.1 hq
    · exact h.fresh q hq k (Nat.le_of_succ_le hk) hprefix
    · exact absurd (Outline.eq_of_prefix_concat hprefix (hinside q hq)) (by omega)

/-- Behind a binder in this scope its names are bound as well. -/
theorem behind (h : Knows table before path n st) {binder : Binder Span} {st' : State}
    (known : ∀ x, st'.isBound table x = true ↔ st.isBound table x = true ∨ x ∈ binder.names) :
    Knows table (before ++ [⟨path, binder⟩]) path n st' where
  known x := by
    rw [known, h.known]
    simp only [Bound, List.mem_append, List.mem_singleton, or_and_right, exists_or, exists_eq_left,
      List.prefix_refl, true_and, or_assoc]
  fresh q hq k hk hprefix := by
    obtain hq | hq := List.mem_append.1 hq
    · exact h.fresh q hq k hk hprefix
    · rw [List.mem_singleton.1 hq] at hprefix
      exact not_concat_prefix path k hprefix

end Knows

theorem isBound_bind (st : State) (names : List String) (ds : Declarations) (x : String) :
    State.isBound table { st.bind names with declared := ds } x = true ↔
      st.isBound table x = true ∨ x ∈ names := by
  simp [State.isBound, State.bind, or_assoc, or_comm (a := x ∈ names)]

/-- A binder does to the state what its place does to the marks. -/
theorem step_cases {before : List (Place (Binder Span))} {path : List Nat} {n : Nat} {st : State}
    (h : Knows table before path n st) (binder : Binder Span) :
    (∃ st', step table st binder = .ok st' ∧
        mark table before st.declared ⟨path, binder⟩ = .ok st'.declared ∧
        Knows table (before ++ [⟨path, binder⟩]) path n st') ∨
      ∃ r, step table st binder = .error r ∧ mark table before st.declared ⟨path, binder⟩ = .error r := by
  cases binder with
  | target span names =>
      have hnone : (names.all fun x => !st.isBound table x) = true ↔
          ∀ x ∈ names, ¬ Bound table before path x := by
        simp [List.all_eq_true, ← h.known]
      have hall : names.all (st.isBound table) = true ↔ ∀ x ∈ names, Bound table before path x := by
        simp [List.all_eq_true, ← h.known]
      simp only [step, mark, hnone, hall]
      by_cases hfree : ∀ x ∈ names, ¬ Bound table before path x
      · rw [if_pos hfree, if_pos hfree]
        exact .inl ⟨_, rfl, rfl, h.behind (isBound_bind st names _)⟩
      · rw [if_neg hfree, if_neg hfree]
        by_cases hbound : ∀ x ∈ names, Bound table before path x
        · rw [if_pos hbound, if_pos hbound]
          refine .inl ⟨st, rfl, rfl, h.behind fun x => ⟨.inl, ?_⟩⟩
          exact fun hx => hx.elim id fun hmem => (h.known x).2 (hbound x hmem)
        · rw [if_neg hbound, if_neg hbound]
          exact .inr ⟨_, rfl, rfl⟩
  | definition name | method name | parameters names =>
      exact .inl ⟨_, rfl, rfl, h.behind (isBound_bind st _ st.declared)⟩

/-- The marks that a walk leaves are those of the places that it passes. -/
theorem scan_eq_markAll (o : Outline (Binder Span)) {before : List (Place (Binder Span))}
    {path : List Nat} {n : Nat} {st : State} (h : Knows table before path n st) :
    (scan table st o).map (·.declared) = markAll table before st.declared (o.places path n) := by
  induction o generalizing before path n st with
  | done => rfl
  | here binder rest ih =>
      rw [scan, Outline.places, markAll]
      obtain ⟨st', hstep, hmark, hknows⟩ | ⟨r, hstep, hmark⟩ := step_cases h binder
      · rw [hstep, hmark, ok_bind, ok_bind]
        exact ih hknows
      · rw [hstep, hmark]
        rfl
  | scope inner rest ihInner ih =>
      rw [scan, Outline.places, markAll_append, ← ihInner h.inner]
      cases scan table st inner with
      | error r => rfl
      | ok last => exact ih (h.outer last.declared)

/-- The pass over a source marks its bindings one after another. -/
theorem analyze_eq_markAll (m : Module) (table : Replacements) :
    analyze m table = markAll table [] .empty (bindings m) := by
  have hstart : Knows table [] [] 0 ⟨[], .empty⟩ :=
    ⟨fun x => by simp [State.isBound, Bound], fun q hq => absurd hq List.not_mem_nil⟩
  have hmarks := scan_eq_markAll (outlineBlock m.body) hstart
  rw [scan_outlineBlock] at hmarks
  exact hmarks

/-! ## which targets are marked -/

theorem contains_insert (ds : Declarations) (span span' : Span) :
    (ds.insert span).contains span' = true ↔ ds.contains span' = true ∨ span' = span := by
  unfold Declarations.insert
  split
  · next h => exact ⟨.inl, fun h' => h'.elim id fun heq => heq ▸ h⟩
  · simp [Declarations.contains, or_comm]

section

variable {before : List (Place (Binder Span))} {ds ds' : Declarations} {scope : List Nat}
  {binder : Binder Span} {r : Refusal}

/-- A target is marked where none of its names is bound, passes where all of them are, and is refused where it
is mixed. -/
theorem mark_target_cases (before : List (Place (Binder Span))) (ds : Declarations) (scope : List Nat)
    (span : Span) (names : List String) :
    (mark table before ds ⟨scope, .target span names⟩ = .ok (ds.insert span) ∧
        ∀ x ∈ names, ¬ Bound table before scope x) ∨
      (mark table before ds ⟨scope, .target span names⟩ = .ok ds ∧
        (∃ x ∈ names, Bound table before scope x) ∧ ∀ x ∈ names, Bound table before scope x) ∨
      mark table before ds ⟨scope, .target span names⟩ = .error (.mixedDeclaration names span) ∧
        Mixed table before scope names := by
  simp only [mark]
  by_cases hfree : ∀ x ∈ names, ¬ Bound table before scope x
  · exact .inl ⟨if_pos hfree, hfree⟩
  · have hsome : ∃ x ∈ names, Bound table before scope x := by simpa using hfree
    rw [if_neg hfree]
    by_cases hbound : ∀ x ∈ names, Bound table before scope x
    · exact .inr (.inl ⟨if_pos hbound, hsome, hbound⟩)
    · exact .inr (.inr ⟨if_neg hbound, hsome, by simpa using hbound⟩)

/-- A target is marked when none of its names is bound, and it is not mixed. -/
theorem mark_ok (h : mark table before ds ⟨scope, binder⟩ = .ok ds') :
    (∀ span names, binder = .target span names → ¬ Mixed table before scope names) ∧
      ∀ span, ds'.contains span = true ↔ ds.contains span = true ∨
        ∃ names, binder = .target span names ∧ ∀ x ∈ names, ¬ Bound table before scope x := by
  cases binder with
  | target span names =>
      obtain ⟨hmark, hfree⟩ | ⟨hmark, ⟨x, hx, hxbound⟩, hbound⟩ | ⟨hmark, -⟩ :=
        mark_target_cases before ds scope span names
      · cases hmark.symm.trans h
        refine ⟨?_, fun span' => ?_⟩
        · rintro _ _ ⟨⟩ ⟨⟨x, hx, hxbound⟩, -⟩
          exact hfree x hx hxbound
        · rw [contains_insert]
          refine or_congr_right ⟨fun heq => ⟨names, by rw [heq], hfree⟩, ?_⟩
          rintro ⟨_, ⟨⟩, -⟩
          rfl
      · cases hmark.symm.trans h
        refine ⟨?_, fun span' => ?_⟩
        · rintro _ _ ⟨⟩ ⟨-, y, hy, hfree⟩
          exact hfree (hbound y hy)
        · rw [iff_self_or]
          rintro ⟨_, ⟨⟩, hfree⟩
          exact absurd hxbound (hfree x hx)
      · cases hmark.symm.trans h
  | _ =>
      cases h
      exact ⟨nofun, fun span => by simp⟩

/-- A target that is refused is mixed. -/
theorem mark_error (h : mark table before ds ⟨scope, binder⟩ = .error r) :
    ∃ span names, binder = .target span names ∧ Mixed table before scope names ∧
      r = .mixedDeclaration names span := by
  cases binder with
  | target span names =>
      obtain ⟨hmark, -⟩ | ⟨hmark, -⟩ | ⟨hmark, hmixed⟩ := mark_target_cases before ds scope span names
      · cases hmark.symm.trans h
      · cases hmark.symm.trans h
      · cases hmark.symm.trans h
        exact ⟨span, names, rfl, hmixed, rfl⟩
  | _ => cases h

end

section

variable {p : Place (Binder Span)} {ps l : List (Place (Binder Span))} {scope : List Nat} {span : Span}
  {names : List String}

theorem targetAt_nil : ¬ TargetAt [] l scope span names := by
  rintro ⟨after, h⟩
  cases l <;> cases h

theorem targetAt_cons : TargetAt (p :: ps) l scope span names ↔
    (l = [] ∧ p = ⟨scope, .target span names⟩) ∨ ∃ l', l = p :: l' ∧ TargetAt ps l' scope span names := by
  cases l with
  | nil => simp [TargetAt]
  | cons q l =>
      simp only [TargetAt, List.cons_append, List.cons.injEq, reduceCtorEq, false_and, false_or]
      constructor
      · rintro ⟨after, rfl, h⟩
        exact ⟨l, ⟨rfl, rfl⟩, after, h⟩
      · rintro ⟨l', ⟨rfl, rfl⟩, after, h⟩
        exact ⟨after, rfl, h⟩

end

section

variable {before ps : List (Place (Binder Span))} {ds ds' : Declarations} {r : Refusal}

/-- Where all places pass, no target is mixed, and the marked ones are those that stand where none of their
names is bound. -/
theorem markAll_ok (h : markAll table before ds ps = .ok ds') :
    (∀ l scope span names, TargetAt ps l scope span names → ¬ Mixed table (before ++ l) scope names) ∧
      ∀ span, ds'.contains span = true ↔ ds.contains span = true ∨
        ∃ l scope names, TargetAt ps l scope span names ∧
          ∀ x ∈ names, ¬ Bound table (before ++ l) scope x := by
  induction ps generalizing before ds with
  | nil =>
      cases h
      exact ⟨fun _ _ _ _ hat => absurd hat targetAt_nil, fun span => by simp [targetAt_nil]⟩
  | cons p ps ih =>
      obtain ⟨scope, binder⟩ := p
      rw [markAll] at h
      cases hmark : mark table before ds ⟨scope, binder⟩ with
      | error r =>
          rw [hmark] at h
          cases h
      | ok mid =>
          rw [hmark, ok_bind] at h
          obtain ⟨hnot, hmid⟩ := mark_ok hmark
          obtain ⟨hrest, hmarks⟩ := ih h
          refine ⟨fun l scope' span names hat => ?_, fun span => ?_⟩
          · obtain ⟨rfl, heq⟩ | ⟨l', rfl, hin⟩ := targetAt_cons.1 hat
            · cases heq
              rw [List.append_nil]
              exact hnot span names rfl
            · rw [List.append_cons]
              exact hrest l' scope' span names hin
          · rw [hmarks, hmid, or_assoc]
            refine or_congr_right ⟨?_, ?_⟩
            · rintro (⟨names, rfl, hfree⟩ | ⟨l, scope', names, hat, hfree⟩)
              · exact ⟨[], scope, names, targetAt_cons.2 (.inl ⟨rfl, rfl⟩), by rwa [List.append_nil]⟩
              · exact ⟨_, scope', names, targetAt_cons.2 (.inr ⟨l, rfl, hat⟩), by rwa [List.append_cons]⟩
            · rintro ⟨l, scope', names, hat, hfree⟩
              obtain ⟨rfl, heq⟩ | ⟨l', rfl, hin⟩ := targetAt_cons.1 hat
              · cases heq
                exact .inl ⟨names, rfl, by rwa [List.append_nil] at hfree⟩
              · exact .inr ⟨l', scope', names, hin, by rwa [List.append_cons] at hfree⟩

/-- Places are refused for a target that is mixed. -/
theorem markAll_error (h : markAll table before ds ps = .error r) :
    ∃ l scope span names, TargetAt ps l scope span names ∧ Mixed table (before ++ l) scope names ∧
      r = .mixedDeclaration names span := by
  induction ps generalizing before ds with
  | nil => cases h
  | cons p ps ih =>
      obtain ⟨scope, binder⟩ := p
      rw [markAll] at h
      cases hmark : mark table before ds ⟨scope, binder⟩ with
      | error r' =>
          rw [hmark] at h
          cases h
          obtain ⟨span, names, rfl, hmixed, rfl⟩ := mark_error hmark
          exact ⟨[], scope, span, names, targetAt_cons.2 (.inl ⟨rfl, rfl⟩), by rwa [List.append_nil], rfl⟩
      | ok mid =>
          rw [hmark, ok_bind] at h
          obtain ⟨l, scope', span, names, hat, hmixed, rfl⟩ := ih h
          exact ⟨_, scope', span, names, targetAt_cons.2 (.inr ⟨l, rfl, hat⟩),
            by rwa [List.append_cons], rfl⟩

end

/-! ## targets with spans of their own -/

/-- The spans of the targets among some places. -/
def targetSpans (ps : List (Place (Binder Span))) : List Span :=
  ps.filterMap fun p => p.item.mark?

/-- Where targets have different spans, a span stands for one of them. -/
theorem TargetAt.unique {ps l l' : List (Place (Binder Span))} {scope scope' : List Nat} {span : Span}
    {names names' : List String} (distinct : (targetSpans ps).Nodup)
    (h : TargetAt ps l scope span names) (h' : TargetAt ps l' scope' span names') :
    l = l' ∧ scope = scope' ∧ names = names' := by
  induction ps generalizing l l' with
  | nil => exact absurd h targetAt_nil
  | cons p ps ih =>
      have hmem : ∀ {l scope names}, TargetAt ps l scope span names → span ∈ targetSpans ps := by
        rintro l scope names ⟨after, rfl⟩
        simp [targetSpans, Binder.mark?]
      have hfirst : ∀ {scope names}, p = ⟨scope, .target span names⟩ → span ∉ targetSpans ps := by
        rintro scope names rfl
        exact (List.nodup_cons.1 distinct).1
      obtain ⟨rfl, hp⟩ | ⟨m, rfl, hm⟩ := targetAt_cons.1 h
      · obtain ⟨rfl, hp'⟩ | ⟨m', rfl, hm'⟩ := targetAt_cons.1 h'
        · rw [hp] at hp'
          cases hp'
          exact ⟨rfl, rfl, rfl⟩
        · exact absurd (hmem hm') (hfirst hp)
      · obtain ⟨rfl, hp'⟩ | ⟨m', rfl, hm'⟩ := targetAt_cons.1 h'
        · exact absurd (hmem hm) (hfirst hp')
        · have hrest : (targetSpans ps).Nodup :=
            distinct.sublist ((List.sublist_cons_self p ps).filterMap _)
          obtain ⟨rfl, hscope, hnames⟩ := ih hrest hm hm'
          exact ⟨rfl, hscope, hnames⟩

/-! ## whole sources -/

section

variable {m : Module} {ds : Declarations} {r : Refusal} {before : List (Place (Binder Span))}
  {scope : List Nat} {span : Span} {names : List String}

/-- In a source that passes no target is mixed, and the marked ones are those that stand where none of their
names is bound. -/
theorem analyze_ok (h : analyze m table = .ok ds) :
    (∀ before scope span names, TargetAt (bindings m) before scope span names →
        ¬ Mixed table before scope names) ∧
      ∀ span, ds.contains span = true ↔ ∃ before scope names,
        TargetAt (bindings m) before scope span names ∧ ∀ x ∈ names, ¬ Bound table before scope x := by
  have hempty (span : Span) : Declarations.empty.contains span = false := rfl
  simpa [hempty] using markAll_ok ((analyze_eq_markAll m table).symm.trans h)

/-- A source is refused for a target that is mixed. -/
theorem analyze_error (h : analyze m table = .error r) :
    ∃ before scope span names, TargetAt (bindings m) before scope span names ∧
      Mixed table before scope names ∧ r = .mixedDeclaration names span :=
  markAll_error ((analyze_eq_markAll m table).symm.trans h)

/-- A target is marked where one of its names is not bound. -/
theorem marked_of_not_bound (h : analyze m table = .ok ds)
    (hat : TargetAt (bindings m) before scope span names) {x : String} (hx : x ∈ names)
    (hfree : ¬ Bound table before scope x) : ds.contains span = true := by
  obtain ⟨hnot, hmarks⟩ := analyze_ok h
  refine (hmarks span).2 ⟨before, scope, names, hat, fun y hy hbound => ?_⟩
  exact hnot before scope span names hat ⟨⟨y, hy, hbound⟩, x, hx, hfree⟩

/-- Where targets have different spans, a target is marked just when none of its names is bound. -/
theorem marked_iff (distinct : (targetSpans (bindings m)).Nodup) (h : analyze m table = .ok ds)
    (hat : TargetAt (bindings m) before scope span names) :
    ds.contains span = true ↔ ∀ x ∈ names, ¬ Bound table before scope x := by
  rw [(analyze_ok h).2]
  constructor
  · rintro ⟨before', scope', names', hat', hfree⟩
    obtain ⟨rfl, rfl, rfl⟩ := hat.unique distinct hat'
    exact hfree
  · exact fun hfree => ⟨before, scope, names, hat, hfree⟩

end

end ViewSync.Scope
