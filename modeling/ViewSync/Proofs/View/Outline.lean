import ViewSync.View.Scope

/-!
# ViewSync.Proofs.View.Outline

The scopes of a program without all that is not about names: which names are bound where, in the order of the
text, and which scope stands in which. Sources and scripts have outlines of one form, so that what is bound
in the one can be compared with what is declared in the other.

* `Outline`, `Outline.places` — nested scopes, and what stands in them as one list of places in the order of
  the text, each with the way to its scope;
* `Binder` — what binds names;
* `Scope.outlineBlock` — the outline of a source;
* `Scope.Bound` — a name is bound at a point of the text: it is replaced, or something in front binds it in the
  same scope or in one around it.
-/

namespace ViewSync

/-! ## outlines -/

/-- What stands in a scope, in order, with the scopes inside it. -/
inductive Outline (α : Type) where
  | done
  | here (a : α) (rest : Outline α)
  | scope (inner rest : Outline α)

/-- Something that stands in a scope. A scope is known by the way to it from the outermost one, which says of
each scope on the way how many of its siblings come before it. Scopes around it have a prefix of its way. -/
structure Place (α : Type) where
  scope : List Nat
  item : α

namespace Outline

variable {α β : Type}

/-- Another thing at each place. -/
def map (f : α → β) : Outline α → Outline β
  | done => done
  | here a rest => here (f a) (map f rest)
  | scope inner rest => scope (map f inner) (map f rest)

/-- The places of what is left of the scope `path`, of which `n` inner scopes are over. -/
def places (path : List Nat) : Nat → Outline α → List (Place α)
  | _, done => []
  | n, here a rest => ⟨path, a⟩ :: places path n rest
  | n, scope inner rest => places (path ++ [n]) 0 inner ++ places path (n + 1) rest

theorem places_map (f : α → β) (o : Outline α) (path : List Nat) (n : Nat) :
    (o.map f).places path n = (o.places path n).map fun p => ⟨p.scope, f p.item⟩ := by
  induction o generalizing path n with
  | done => rfl
  | here a rest ih => rw [map, places, places, ih, List.map_cons]
  | scope inner rest ihInner ih => rw [map, places, places, ihInner, ih, List.map_append]

/-- The places of a scope are in it, or in a scope inside. -/
theorem prefix_of_mem_places {o : Outline α} {path : List Nat} {n : Nat} {p : Place α}
    (h : p ∈ o.places path n) : path <+: p.scope := by
  induction o generalizing path n with
  | done => cases h
  | here a rest ih =>
      obtain rfl | h := List.mem_cons.1 h
      · exact List.prefix_refl path
      · exact ih h
  | scope inner rest ihInner ih =>
      obtain h | h := List.mem_append.1 h
      · exact (List.prefix_append path [n]).trans (ihInner h)
      · exact ih h

/-- A scope stands in at most one of the inner scopes of another one. -/
theorem eq_of_prefix_concat {path s : List Nat} {n k : Nat} (hn : path ++ [n] <+: s)
    (hk : path ++ [k] <+: s) : n = k := by
  have heq := List.prefix_of_prefix_length_le hn hk (by simp)
  rw [List.prefix_append_right_inj] at heq
  simpa using heq

/-- The scopes inside the one at `path` that are still to come have numbers from `n` on. -/
theorem not_prefix_of_mem_places {o : Outline α} {path : List Nat} {n k : Nat} (hk : k < n) {p : Place α}
    (h : p ∈ o.places path n) : ¬ path ++ [k] <+: p.scope := by
  induction o generalizing n with
  | done => cases h
  | here a rest ih =>
      obtain rfl | h := List.mem_cons.1 h
      · exact fun hprefix => absurd hprefix.length_le (by simp)
      · exact ih hk h
  | scope inner rest _ ih =>
      obtain h | h := List.mem_append.1 h
      · exact fun hprefix => Nat.ne_of_lt hk (eq_of_prefix_concat hprefix (prefix_of_mem_places h))
      · exact ih (Nat.lt_succ_of_lt hk) h

theorem triple_sublist (l u v w : List α) (a b c : α) :
    [a, b, c].Sublist (l ++ a :: (u ++ b :: (v ++ c :: w))) := by
  have hlast : [c].Sublist (v ++ c :: w) := List.singleton_sublist.2 (by simp)
  have hpair : [b, c].Sublist (u ++ b :: (v ++ c :: w)) :=
    (hlast.cons_cons b).trans (List.sublist_append_right u _)
  exact (hpair.cons_cons a).trans (List.sublist_append_right l _)

/-- A scope is one piece of the text: what stands between two of its places is in it as well. -/
theorem prefix_of_between {o : Outline α} {path s : List Nat} {n : Nat} {a b c : Place α}
    (h : [a, b, c].Sublist (o.places path n)) (ha : s <+: a.scope) (hc : s <+: c.scope) :
    s <+: b.scope := by
  induction o generalizing path n with
  | done => cases h
  | here item rest ih =>
      obtain h | ⟨l, heq, h⟩ := List.sublist_cons_iff.1 h
      · exact ih h
      · cases heq
        exact ha.trans (prefix_of_mem_places (h.subset (by simp)))
  | scope inner rest ihInner ih =>
      have hb : path <+: b.scope := prefix_of_mem_places (h.subset (by simp))
      obtain ⟨l, l', heq, hl, hl'⟩ := List.sublist_append_iff.1 h
      obtain ⟨rfl, rfl⟩ | ⟨l, rfl, htail⟩ := List.cons_eq_append_iff.1 heq
      · exact ih hl'
      · have ha' : path ++ [n] <+: a.scope := prefix_of_mem_places (hl.subset List.mem_cons_self)
        by_cases hs : s <+: path
        · exact hs.trans hb
        · have hinside : path ++ [n] <+: s := by
            obtain h | h := List.prefix_or_prefix_of_prefix ha' ha
            · exact h
            · obtain rfl | h := List.prefix_concat_iff.1 h
              · exact List.prefix_refl _
              · exact absurd h hs
          obtain rfl | ⟨front, last, rfl⟩ := List.eq_nil_or_concat l'
          · rw [List.append_nil] at heq
            exact ihInner (heq ▸ hl)
          · have hlast : last = c := by simpa using (congrArg List.getLast? htail).symm
            have hmem : c ∈ rest.places path (n + 1) := hl'.subset (by simp [hlast])
            exact absurd (hinside.trans hc) (not_prefix_of_mem_places (Nat.lt_succ_self n) hmem)

end Outline

/-! ## what binds names -/

/-- What binds names, with what is known of each target. -/
inductive Binder (τ : Type) where
  /-- A function or a class. -/
  | definition (name : String)
  /-- A function that stands directly in a class. -/
  | method (name : String)
  /-- The parameters of a function. -/
  | parameters (names : List String)
  /-- The target of an assignment, or of a loop over one or several names. -/
  | target (mark : τ) (names : List String)

namespace Binder

variable {τ : Type}

/-- The names that are bound. -/
def names : Binder τ → List String
  | definition name => [name]
  | method name => [name]
  | parameters names => names
  | target _ names => names

/-- What is known of a target. -/
def mark? : Binder τ → Option τ
  | target mark _ => some mark
  | _ => none

end Binder

namespace Scope

/-! ## the outline of a source -/

/-- A simple name among the targets of an assignment. -/
def outlineTarget (target : Expr) (rest : Outline (Binder Span)) : Outline (Binder Span) :=
  match target with
  | .name span id => .here (.target span [id]) rest
  | _ => rest

/-- The target of a loop: a name, or a tuple of names. -/
def outlineLoopTarget (target : Expr) (rest : Outline (Binder Span)) : Outline (Binder Span) :=
  match target with
  | .name span id => .here (.target span [id]) rest
  | .tuple span items =>
    let names := items.filterMap Expr.asName?
    if names.length = items.length then .here (.target span names) rest else rest
  | _ => rest

mutual

/-- The outline of a statement in front of the rest of its scope. A loop with its target is a scope, and so is
every branch and every `else`. -/
def outlineStmt : Stmt → Outline (Binder Span) → Outline (Binder Span)
  | .function def_, rest => outlineFunction .definition def_ rest
  | .class_ def_, rest => outlineClass def_ rest
  | .assign _ targets _, rest => targets.foldr outlineTarget rest
  | .if_ chain, rest => outlineChain chain rest
  | .for_ _ target _ body orelse, rest =>
    .scope (outlineLoopTarget target (outlineBlock body)) (outlineOptional orelse rest)
  | .while_ _ _ body orelse, rest => .scope (outlineBlock body) (outlineOptional orelse rest)
  | .augAssign .., rest => rest
  | .return_ .., rest => rest
  | .delete .., rest => rest
  | .pass _, rest => rest
  | .expr .., rest => rest
  | .refused .., rest => rest

/-- A function: its name stands outside, its parameters in front of its body. -/
def outlineFunction (bind : String → Binder Span) :
    FunctionDef → Outline (Binder Span) → Outline (Binder Span)
  | .mk _ name params _ body, rest =>
    .here (bind name.name) <|
      .scope (.here (.parameters (params.map fun p => p.name.name)) (outlineBlock body)) rest

/-- A class: its name stands outside. -/
def outlineClass : ClassDef → Outline (Binder Span) → Outline (Binder Span)
  | .mk _ name _ _ body, rest => .here (.definition name.name) (.scope (outlineMembers body) rest)

/-- The body of a class. -/
def outlineMembers : List Stmt → Outline (Binder Span)
  | [] => .done
  | .function def_ :: rest => outlineFunction .method def_ (outlineMembers rest)
  | stmt :: rest => outlineStmt stmt (outlineMembers rest)

/-- The branches of an `if`. -/
def outlineChain : IfChain → Outline (Binder Span) → Outline (Binder Span)
  | .mk _ _ body orelse, rest => .scope (outlineBlock body) (outlineElse orelse rest)

/-- What follows a branch. -/
def outlineElse : Else → Outline (Binder Span) → Outline (Binder Span)
  | .nothing, rest => rest
  | .elif chain, rest => outlineChain chain rest
  | .block body, rest => .scope (outlineBlock body) rest

/-- A block that may be absent. -/
def outlineOptional : Option (List Stmt) → Outline (Binder Span) → Outline (Binder Span)
  | none, rest => rest
  | some body, rest => .scope (outlineBlock body) rest

/-- The statements of a block. -/
def outlineBlock : List Stmt → Outline (Binder Span)
  | [] => .done
  | stmt :: rest => outlineStmt stmt (outlineBlock rest)

end

/-- What binds names in a source, in the order of the text. -/
def bindings (m : Module) : List (Place (Binder Span)) :=
  (outlineBlock m.body).places [] 0

/-! ## names that are bound -/

/-- A name is bound in a scope behind some places: it is in the table, or one of the places binds it in that
scope or in one around it. -/
def Bound (table : Replacements) (before : List (Place (Binder Span))) (scope : List Nat) (x : String) :
    Prop :=
  table.contains x = true ∨ ∃ q ∈ before, q.scope <+: scope ∧ x ∈ q.item.names

instance (table : Replacements) (before : List (Place (Binder Span))) (scope : List Nat) (x : String) :
    Decidable (Bound table before scope x) :=
  inferInstanceAs (Decidable (_ ∨ _))

/-- Behind some of the places, a target stands in a scope, with its span and its names. -/
def TargetAt (ps before : List (Place (Binder Span))) (scope : List Nat) (span : Span)
    (names : List String) : Prop :=
  ∃ after, ps = before ++ ⟨scope, .target span names⟩ :: after

/-- Some of the names are bound and some are not. -/
def Mixed (table : Replacements) (before : List (Place (Binder Span))) (scope : List Nat)
    (names : List String) : Prop :=
  (∃ x ∈ names, Bound table before scope x) ∧ ∃ x ∈ names, ¬ Bound table before scope x

end Scope

end ViewSync
