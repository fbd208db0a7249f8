import Mathlib
import ViewSync.Proofs.Parser.Targets
import ViewSync.Proofs.View.Resolution

/-!
# ViewSync.Proofs.View.Redeclaration

How often a block of a script declares a name. A target gets the declaring word only where nothing in front of it
binds its name, so it never repeats a declaration. A function or a class is written as it stands: the scope pass
makes its name known without a look at what is known already.

* `Script.Block`, `Script.blocksOf` — the blocks of a script by what they declare;
* `Script.Block.DeclaresOnce` — no name is declared twice, and no parameter again as a variable or a class;
* `declaresOnce_iff` — for the script of a parsed source, the three ways in which a block may fail to.
-/

namespace ViewSync

open Scope

/-! ## the scopes of an outline one by one -/

namespace Outline

variable {α : Type}

/-- What stands directly in a scope. -/
def own : Outline α → List α
  | done => []
  | here a rest => a :: own rest
  | scope _ rest => own rest

/-- The scopes inside, at any depth. -/
def inner : Outline α → List (Outline α)
  | done => []
  | here _ rest => inner rest
  | scope i rest => i :: (inner i ++ inner rest)

/-- What stands directly in a scope are the places that have just its way. -/
theorem places_filter_own (o : Outline α) (path : List Nat) (n : Nat) :
    ((o.places path n).filter (·.scope = path)).map (·.item) = o.own := by
  induction o generalizing n with
  | done => rfl
  | here a rest ih => simp [places, own, ih]
  | scope i rest _ ih =>
      have hnone : (i.places (path ++ [n]) 0).filter (·.scope = path) = [] := by
        refine List.filter_eq_nil_iff.2 fun p hp hpath => ?_
        have hprefix := prefix_of_mem_places hp
        rw [of_decide_eq_true hpath] at hprefix
        exact absurd hprefix.length_le (by simp)
      rw [places, List.filter_append, hnone, List.nil_append, ih, own]

/-- Every scope inside has a way of its own, and what stands directly in it are the places with that way. -/
theorem exists_scope_of_mem_inner {o o' : Outline α} (h : o' ∈ o.inner) (path : List Nat) (n : Nat) :
    ∃ k s, n ≤ k ∧ path ++ [k] <+: s ∧ ((o.places path n).filter (·.scope = s)).map (·.item) = o'.own := by
  induction o generalizing path n with
  | done => cases h
  | here a rest ih =>
      obtain ⟨k, s, hk, hs, hplaces⟩ := ih h path n
      refine ⟨k, s, hk, hs, ?_⟩
      have hne : path ≠ s := fun heq => absurd hs.length_le (by simp [heq])
      rw [places, List.filter_cons_of_neg (by simpa using hne)]
      exact hplaces
  | scope i rest ihInner ih =>
      obtain ⟨k, s, hk, hs, hplaces⟩ : ∃ k s, n ≤ k ∧ path ++ [k] <+: s ∧
          (((i.places (path ++ [n]) 0).filter (·.scope = s)).map (·.item) ++
            ((rest.places path (n + 1)).filter (·.scope = s)).map (·.item)) = o'.own := by
        have hrest : ∀ s, path ++ [n] <+: s → (rest.places path (n + 1)).filter (·.scope = s) = [] := by
          intro s hs
          refine List.filter_eq_nil_iff.2 fun p hp hscope => ?_
          rw [← of_decide_eq_true hscope] at hs
          exact not_prefix_of_mem_places (Nat.lt_succ_self n) hp hs
        obtain rfl | h := List.mem_cons.1 h
        · refine ⟨n, path ++ [n], Nat.le_refl n, List.prefix_refl _, ?_⟩
          rw [places_filter_own, hrest _ (List.prefix_refl _)]
          exact List.append_nil _
        obtain h | h := List.mem_append.1 h
        · obtain ⟨k, s, -, hs, hplaces⟩ := ihInner h (path ++ [n]) 0
          have hinside : path ++ [n] <+: s := (List.prefix_append _ [k]).trans hs
          refine ⟨n, s, Nat.le_refl n, hinside, ?_⟩
          rw [hplaces, hrest s hinside]
          exact List.append_nil _
        · obtain ⟨k, s, hk, hs, hplaces⟩ := ih h path (n + 1)
          refine ⟨k, s, Nat.le_of_succ_le hk, hs, ?_⟩
          have hnone : (i.places (path ++ [n]) 0).filter (·.scope = s) = [] := by
            refine List.filter_eq_nil_iff.2 fun p hp hscope => ?_
            have hprefix := prefix_of_mem_places hp
            rw [of_decide_eq_true hscope] at hprefix
            exact absurd (eq_of_prefix_concat hprefix hs) (by omega)
          rw [hnone, hplaces]
          rfl
      refine ⟨k, s, hk, hs, ?_⟩
      rw [places, List.filter_append, List.map_append, hplaces]

end Outline

/-! ## the blocks of a script -/

namespace Script

/-- What a statement declares in the block that it stands in. -/
inductive Declaration where
  /-- The names behind one declaring word. -/
  | lets (names : List String)
  | function (name : String)
  | class_ (name : String)
deriving DecidableEq

namespace Declaration

/-- The names that are declared. -/
def names : Declaration → List String
  | lets names => names
  | function name => [name]
  | class_ name => [name]

/-- A function or a class. -/
def isDefinition : Declaration → Bool
  | lets _ => false
  | function _ => true
  | class_ _ => true

/-- As what it stands in the outline of a script. -/
def binder : Declaration → Binder Bool
  | lets names => .target true names
  | function name => .definition name
  | class_ name => .definition name

end Declaration

/-- A block by what it declares, in the order of the text. -/
structure Block where
  /-- The parameters, if it is the body of a function. -/
  parameters : Option (List String)
  declarations : List Declaration
deriving DecidableEq

/-- What a statement declares in the block that it stands in. -/
def Stmt.declares : Stmt → List Declaration
  | .function signature _ => [.function signature.name]
  | .class_ name _ => [.class_ name]
  | .assign true (.name x) _ => [.lets [x]]
  | _ => []

/-- What the head of a loop declares. -/
def headDeclares (declared : Bool) (binding : Binding) : List Declaration :=
  if declared then [.lets binding.names] else []

mutual

/-- The blocks inside a statement: bodies of functions with their parameters, branches, and bodies of loops with
their heads. -/
def Stmt.blocks : Stmt → List Block
  | .function signature body => ⟨some signature.params, body.flatMap Stmt.declares⟩ :: blocksOf body
  | .class_ _ methods => methodBlocks methods
  | .ifChain branches orelse => branchBlocks branches ++ elseBlocks orelse
  | .for_ declared binding _ _ body =>
    ⟨none, headDeclares declared binding ++ body.flatMap Stmt.declares⟩ :: blocksOf body
  | .while_ _ body => ⟨none, body.flatMap Stmt.declares⟩ :: blocksOf body
  | _ => []

/-- The blocks inside the methods of a class. -/
def methodBlocks : List (Signature × List Stmt) → List Block
  | [] => []
  | (signature, body) :: rest =>
    ⟨some signature.params, body.flatMap Stmt.declares⟩ :: (blocksOf body ++ methodBlocks rest)

/-- The branches of an `if` and the blocks inside them. -/
def branchBlocks : List (Expr × List Stmt) → List Block
  | [] => []
  | (_, body) :: rest => ⟨none, body.flatMap Stmt.declares⟩ :: (blocksOf body ++ branchBlocks rest)

/-- The last branch of an `if` and the blocks inside it. -/
def elseBlocks : Option (List Stmt) → List Block
  | none => []
  | some body => ⟨none, body.flatMap Stmt.declares⟩ :: blocksOf body

/-- The blocks inside the statements of a block. -/
def blocksOf : List Stmt → List Block
  | [] => []
  | stmt :: rest => stmt.blocks ++ blocksOf rest

end

namespace Block

/-- What a block declares, as it stands in the outline of a script. -/
def binders (block : Block) : List (Binder Bool) :=
  block.parameters.toList.map .parameters ++ block.declarations.map (·.binder)

/-- No name is declared twice. Parameters are a thing of their own: one may be given twice or be declared again as a
function, but not as a variable or a class. -/
structure DeclaresOnce (block : Block) : Prop where
  distinct : (block.declarations.flatMap (·.names)).Nodup
  parameters : ∀ ps ∈ block.parameters, ∀ d ∈ block.declarations, (∀ name, d ≠ .function name) →
    ∀ x ∈ d.names, x ∉ ps

/-- Functions and classes have names that are not declared in front of them, and classes no names of
parameters. -/
structure DefinitionsFresh (block : Block) : Prop where
  distinct : block.declarations.Pairwise fun a b => b.isDefinition = true → ∀ x ∈ a.names, x ∉ b.names
  parameters : ∀ ps ∈ block.parameters, ∀ name, .class_ name ∈ block.declarations → name ∉ ps

/-- No declaring word has a name twice behind it. -/
def HeadsDistinct (block : Block) : Prop :=
  ∀ names, .lets names ∈ block.declarations → names.Nodup

/-- No variable has the name of a parameter that is written as the text of another name. -/
def ParametersKept (table : Replacements) (block : Block) : Prop :=
  ∀ ps ∈ block.parameters, ∀ names, .lets names ∈ block.declarations → ∀ x ∈ names, x ∈ ps →
    ¬ (table.contains x = false ∧ ∃ y, table.contains y = true ∧ table.identifier y = x)

end Block

/-! ## blocks and scopes -/

/-- Whether something declares a name that stands there for itself. -/
def declaring : Binder Bool → Bool
  | .target declared _ => declared
  | _ => true

/-- Each block is one of some scopes, if only what declares is looked at. -/
def Matches (blocks : List Block) (scopes : List (Outline (Binder Bool))) : Prop :=
  ∀ block ∈ blocks, ∃ o ∈ scopes, o.own.filter declaring = block.binders

theorem matches_nil (scopes : List (Outline (Binder Bool))) : Matches [] scopes :=
  fun _ h => absurd h List.not_mem_nil

theorem matches_scope {inner rest : Outline (Binder Bool)} {block : Block} {blocks blocks' : List Block}
    (hown : inner.own.filter declaring = block.binders) (hinner : Matches blocks inner.inner)
    (h : Matches blocks' rest.inner) : Matches (block :: (blocks ++ blocks')) (Outline.scope inner rest).inner := by
  intro b hb
  obtain rfl | hb := List.mem_cons.1 hb
  · exact ⟨inner, List.mem_cons_self, hown⟩
  obtain hb | hb := List.mem_append.1 hb
  · obtain ⟨o, ho, heq⟩ := hinner b hb
    exact ⟨o, List.mem_cons_of_mem _ (List.mem_append_left _ ho), heq⟩
  · obtain ⟨o, ho, heq⟩ := h b hb
    exact ⟨o, List.mem_cons_of_mem _ (List.mem_append_right _ ho), heq⟩

theorem own_outlineBranches (branches : List (Expr × List Stmt)) (rest : Outline (Binder Bool)) :
    (outlineBranches branches rest).own = rest.own := by
  induction branches with
  | nil => rw [outlineBranches]
  | cons branch branches ih => rw [outlineBranches, Outline.own, ih]

theorem own_outlineElse (orelse : Option (List Stmt)) (rest : Outline (Binder Bool)) :
    (outlineElse orelse rest).own = rest.own := by
  cases orelse <;> rfl

/-- What declares in a block beside a statement is what the statement declares. -/
theorem own_outlineStmt (stmt : Stmt) (rest : Outline (Binder Bool)) :
    (outlineStmt stmt rest).own.filter declaring =
      stmt.declares.map (·.binder) ++ rest.own.filter declaring := by
  cases stmt with
  | assign declared target value =>
      cases target with
      | name x => cases declared <;> rfl
      | _ => cases declared <;> rfl
  | ifChain branches orelse => rw [outlineStmt, own_outlineBranches, own_outlineElse]; rfl
  | _ => rfl

theorem own_outlineBlock (body : List Stmt) :
    (outlineBlock body).own.filter declaring = (body.flatMap Stmt.declares).map (·.binder) := by
  induction body with
  | nil => rfl
  | cons stmt body ih => rw [outlineBlock, own_outlineStmt, ih, List.flatMap_cons, List.map_append]

mutual

theorem matches_stmt (stmt : Stmt) {blocks : List Block} {rest : Outline (Binder Bool)}
    (h : Matches blocks rest.inner) :
    Matches (stmt.blocks ++ blocks) (outlineStmt stmt rest).inner := by
  cases stmt with
  | function signature body =>
      rw [Stmt.blocks, outlineStmt]
      exact matches_scope (congrArg _ (own_outlineBlock body)) (matches_block body) h
  | class_ name methods =>
      have hinner := matches_methods methods
      rw [Stmt.blocks, outlineStmt]
      intro block hblock
      obtain hblock | hblock := List.mem_append.1 hblock
      · obtain ⟨o, ho, heq⟩ := hinner block hblock
        exact ⟨o, List.mem_cons_of_mem _ (List.mem_append_left _ ho), heq⟩
      · obtain ⟨o, ho, heq⟩ := h block hblock
        exact ⟨o, List.mem_cons_of_mem _ (List.mem_append_right _ ho), heq⟩
  | ifChain branches orelse =>
      rw [Stmt.blocks, outlineStmt, List.append_assoc]
      exact matches_branches branches (matches_else orelse h)
  | for_ declared binding iteration source body =>
      rw [Stmt.blocks, outlineStmt]
      refine matches_scope ?_ (matches_block body) h
      rw [Outline.own, Block.binders, List.map_append]
      cases declared with
      | false => exact own_outlineBlock body
      | true => exact congrArg _ (own_outlineBlock body)
  | while_ condition body =>
      rw [Stmt.blocks, outlineStmt]
      exact matches_scope (own_outlineBlock body) (matches_block body) h
  | assign declared target value =>
      cases target <;> exact h
  | _ => exact h

theorem matches_methods (methods : List (Signature × List Stmt)) :
    Matches (methodBlocks methods) (outlineMethods methods).inner := by
  cases methods with
  | nil => exact matches_nil _
  | cons method methods =>
      obtain ⟨signature, body⟩ := method
      rw [methodBlocks, outlineMethods]
      exact matches_scope (congrArg _ (own_outlineBlock body)) (matches_block body) (matches_methods methods)

theorem matches_branches (branches : List (Expr × List Stmt)) {blocks : List Block} {rest : Outline (Binder Bool)}
    (h : Matches blocks rest.inner) :
    Matches (branchBlocks branches ++ blocks) (outlineBranches branches rest).inner := by
  cases branches with
  | nil => exact h
  | cons branch branches =>
      obtain ⟨condition, body⟩ := branch
      rw [branchBlocks, outlineBranches, List.cons_append, List.append_assoc]
      exact matches_scope (own_outlineBlock body) (matches_block body) (matches_branches branches h)

theorem matches_else (orelse : Option (List Stmt)) {blocks : List Block} {rest : Outline (Binder Bool)}
    (h : Matches blocks rest.inner) :
    Matches (elseBlocks orelse ++ blocks) (outlineElse orelse rest).inner := by
  cases orelse with
  | none => exact h
  | some body =>
      rw [elseBlocks, outlineElse]
      exact matches_scope (own_outlineBlock body) (matches_block body) h

/-- Every block is one of the scopes of the outline. -/
theorem matches_block (body : List Stmt) : Matches (blocksOf body) (outlineBlock body).inner := by
  cases body with
  | nil => exact matches_nil _
  | cons stmt body =>
      rw [blocksOf, outlineBlock]
      exact matches_stmt stmt (matches_block body)

end

/-- What a block declares stands at places of one scope, in their order. -/
theorem exists_scope_of_mem_blocks {script : List Stmt} {block : Block} (h : block ∈ blocksOf script) :
    ∃ s, ((bindings script).filter fun p => declaring p.item && decide (p.scope = s)).map (·.item) =
      block.binders := by
  obtain ⟨o, ho, heq⟩ := matches_block script block h
  obtain ⟨-, s, -, -, hplaces⟩ := Outline.exists_scope_of_mem_inner ho [] 0
  refine ⟨s, ?_⟩
  rw [← heq, ← hplaces, List.filter_map, List.filter_filter]
  rfl

end Script

/-! ## what a target repeats -/

section

variable {m : Module} {table : Replacements} {ds : Declarations} {before after : List (Place (Binder Span))}

/-- A name of a target that is declared is bound by nothing in front of it in its scope. In the script it is then
the name of something in front only if that is a parameter written as the text of another name. -/
theorem repeats_parameter {p : Place (Binder Span)} {scope : List Nat} {span : Span} {names : List String}
    (distinct : (targetSpans (bindings m)).Nodup) (hds : analyze m table = .ok ds)
    (hplaces : bindings m = before ++ ⟨scope, .target span names⟩ :: after) (hp : p ∈ before)
    (hscope : p.scope = scope) {x : String} (hx : x ∈ (Lower.emitted ⟨table, ds⟩ (.target span names)).introduced)
    (hdeclaring : Script.declaring (Lower.emitted ⟨table, ds⟩ p.item) = true)
    (hmem : x ∈ (Lower.emitted ⟨table, ds⟩ p.item).names) :
    (∃ ps, p.item = .parameters ps) ∧
      table.contains x = false ∧ ∃ y, table.contains y = true ∧ table.identifier y = x := by
  obtain ⟨-, hfree⟩ := not_bound_of_introduced distinct hds hplaces hx
  have hbinds : x ∉ p.item.names := fun h => hfree (.inr ⟨p, hp, by simp [hscope], h⟩)
  obtain ⟨scope', binder⟩ := p
  cases binder with
  | definition name => exact absurd hmem hbinds
  | method name => exact absurd hmem hbinds
  | parameters params =>
      obtain ⟨y, hy, heq⟩ := List.mem_map.1 hmem
      refine ⟨⟨params, rfl⟩, Bool.eq_false_iff.2 fun h => hfree (.inl h), y, ?_, heq⟩
      by_contra hkept
      rw [Replacements.identifier_eq (Bool.eq_false_iff.2 hkept)] at heq
      exact hbinds (heq ▸ hy)
  | target span' names' =>
      obtain ⟨u, v, rfl⟩ := List.append_of_mem hp
      rw [List.append_assoc] at hplaces
      refine absurd (not_bound_of_introduced distinct hds hplaces ?_).1 hbinds
      simp only [Lower.emitted, Script.declaring] at hdeclaring hmem ⊢
      rwa [hdeclaring]

/-- What the variables of a script repeat in their blocks. -/
theorem pairwise_binders {script : List Script.Stmt} {block : Script.Block}
    (distinct : (targetSpans (bindings m)).Nodup) (hds : analyze m table = .ok ds)
    (hbindings : Script.bindings script = Lower.emittedPlaces ⟨table, ds⟩ (bindings m))
    (hblock : block ∈ Script.blocksOf script) :
    block.binders.Pairwise fun a b => ∀ x ∈ b.introduced, x ∈ a.names → (∃ ps, a = .parameters ps) ∧
      table.contains x = false ∧ ∃ y, table.contains y = true ∧ table.identifier y = x := by
  obtain ⟨s, hs⟩ := Script.exists_scope_of_mem_blocks hblock
  rw [← hs, hbindings, Lower.emittedPlaces, List.pairwise_map, List.pairwise_filter, List.pairwise_map,
    List.pairwise_iff_forall_sublist]
  intro p q hsub hp hq x hx hmem
  obtain ⟨front, back, hplaces, hpfront, hqback⟩ := List.cons_sublist_iff.1 hsub
  obtain ⟨u, v, rfl⟩ := List.append_of_mem (List.singleton_sublist.1 hqback)
  rw [Bool.and_eq_true, decide_eq_true_iff] at hp hq
  rw [← List.append_assoc] at hplaces
  obtain ⟨scope, binder⟩ := q
  cases binder with
  | target span names =>
      obtain ⟨⟨ps, hps⟩, hrest⟩ := repeats_parameter distinct hds hplaces (List.mem_append_left _ hpfront)
        (hp.2.trans hq.2.symm) hx hp.1 hmem
      exact ⟨⟨ps.map table.identifier, by rw [hps]; rfl⟩, hrest⟩
  | _ => cases hx

end

namespace Script.Block

variable {block : Block} {table : Replacements}

/-- What is declared in a block and repeated by a variable behind it, if only parameters are. -/
theorem declaresOnce_of_fresh
    (hlets : block.declarations.Pairwise fun a b => b.isDefinition = false → ∀ x ∈ a.names, x ∉ b.names)
    (hparameters : ∀ ps ∈ block.parameters, ∀ names, .lets names ∈ block.declarations → ∀ x ∈ names, x ∉ ps)
    (hfresh : block.DefinitionsFresh) (hheads : block.HeadsDistinct) : block.DeclaresOnce where
  distinct := by
    refine List.nodup_flatMap.2 ⟨fun d hd => ?_, (hlets.and hfresh.distinct).imp fun {a b} h x hx => ?_⟩
    · cases d with
      | lets names => exact hheads names hd
      | function name => exact List.nodup_singleton name
      | class_ name => exact List.nodup_singleton name
    · cases hb : b.isDefinition with
      | false => exact h.1 hb x hx
      | true => exact h.2 hb x hx
  parameters ps hps d hd hfunction x hx := by
    cases d with
    | lets names => exact hparameters ps hps names hd x hx
    | function name => exact absurd rfl (hfunction name)
    | class_ name => exact List.mem_singleton.1 hx ▸ hfresh.parameters ps hps name hd

theorem DeclaresOnce.fresh (h : block.DeclaresOnce) : block.DefinitionsFresh where
  distinct := (List.nodup_flatMap.1 h.distinct).2.imp fun hdisjoint _ _ hx hmem => hdisjoint hx hmem
  parameters ps hps name hname := h.parameters ps hps _ hname nofun name (List.mem_singleton_self name)

theorem DeclaresOnce.heads (h : block.DeclaresOnce) : block.HeadsDistinct :=
  fun _ hnames => (List.nodup_flatMap.1 h.distinct).1 _ hnames

theorem DeclaresOnce.kept (h : block.DeclaresOnce) : block.ParametersKept table :=
  fun ps hps _ hnames x hx hmem _ => h.parameters ps hps _ hnames nofun x hx hmem

end Script.Block

/-- A block of a script that is compiled from a parsed source declares every name once, unless a function or a class
has a name that is declared in front of it (or a class that of a parameter), or the head of a loop has a name twice,
or a variable has the name of a parameter that is written as the text of another name. -/
theorem declaresOnce_iff {file : SourceFile} {m : Module} {faults : Diagnostics} {table : Replacements}
    {compiled : List CompiledItem} (hparsed : readModule file = (some m, faults))
    (h : translate m table = .ok compiled) :
    ∃ items, Lower.module_ m table = .ok items ∧ compiled = items.map (·.compiled) ∧
      ∀ block ∈ Script.blocksOf (items.map (·.script)),
        block.DeclaresOnce ↔ block.DefinitionsFresh ∧ block.HeadsDistinct ∧ block.ParametersKept table := by
  have distinct : (targetSpans (bindings m)).Nodup := targetSpans_of_parse (congrArg Prod.fst hparsed)
  rw [translate] at h
  cases hlowered : Lower.module_ m table with
  | error r =>
      rw [hlowered] at h
      cases h
  | ok items =>
      rw [hlowered] at h
      obtain ⟨ds, hds, hbindings⟩ := Lower.bindings_of_module hlowered
      refine ⟨items, rfl, (Except.ok.inj h).symm, fun block hblock => ⟨fun honce => ?_, ?_⟩⟩
      · exact ⟨honce.fresh, honce.heads, honce.kept⟩
      rintro ⟨hfresh, hheads, hkept⟩
      have hpairs := pairwise_binders distinct hds hbindings hblock
      obtain ⟨-, hdeclared, hcross⟩ := List.pairwise_append.1 hpairs
      refine Script.Block.declaresOnce_of_fresh ?_ ?_ hfresh hheads
      · refine (List.pairwise_map.1 hdeclared).imp fun {a b} hrepeats hlets x hx hmem => ?_
        cases b with
        | lets names =>
            obtain ⟨⟨ps, hps⟩, -⟩ := hrepeats x hmem (by cases a <;> exact hx)
            cases a <;> cases hps
        | function name => cases hlets
        | class_ name => cases hlets
      · intro ps hps names hnames x hx hmem
        have hrepeats := hcross (.parameters ps) (by simpa using hps) _ (List.mem_map_of_mem hnames) x hx hmem
        exact hkept ps hps names hnames x hx hmem hrepeats.2

/-- A function that binds `inner`, and then a function of that name. -/
def Sample.repeating : SourceFile :=
  ⟨"view", "def f():\n    inner = 1\n    def inner(x):\n        return x\n"⟩

/-- What becomes of it: the text, and the blocks of the script. -/
theorem Sample.repeating_compiled :
    ((readModule repeating).1.map fun m => (Lower.module_ m .default).map fun items =>
      (items.map (·.script.render), Script.blocksOf (items.map (·.script)))) =
    some (.ok (["function f() \x7b\n\tlet inner = 1;\n\tfunction inner(x) \x7b\n\t\treturn x;\n\t\x7d\n\x7d"],
      [⟨some [], [.lets ["inner"], .function "inner"]⟩, ⟨some ["x"], []⟩])) := by
  cbv

/-- The script declares `inner` twice in the body of the function. -/
theorem repeating_declares_twice :
    ∃ m faults items, readModule Sample.repeating = (some m, faults) ∧ Lower.module_ m .default = .ok items ∧
      items.map (·.script.render) =
        ["function f() \x7b\n\tlet inner = 1;\n\tfunction inner(x) \x7b\n\t\treturn x;\n\t\x7d\n\x7d"] ∧
      ∃ block ∈ Script.blocksOf (items.map (·.script)), ¬ block.DeclaresOnce := by
  obtain ⟨m, hm, hcompiled⟩ := Option.map_eq_some_iff.1 Sample.repeating_compiled
  have hparsed : readModule Sample.repeating = (some m, (readModule Sample.repeating).2) := by rw [← hm]
  cases hlowered : Lower.module_ m .default with
  | error r =>
      rw [hlowered] at hcompiled
      cases hcompiled
  | ok items =>
      rw [hlowered] at hcompiled
      obtain ⟨htext, hblocks⟩ := Prod.mk.inj (Except.ok.inj hcompiled)
      refine ⟨m, _, items, hparsed, hlowered, htext, _, hblocks ▸ List.mem_cons_self, ?_⟩
      have htranslate : translate m .default = .ok (items.map (·.compiled)) := by rw [translate, hlowered]; rfl
      obtain ⟨items', hitems, -, hiff⟩ := declaresOnce_iff hparsed htranslate
      obtain rfl : items = items' := Except.ok.inj (hlowered.symm.trans hitems)
      rw [hiff _ (hblocks ▸ List.mem_cons_self)]
      rintro ⟨hfresh, -⟩
      exact absurd hfresh.distinct (by decide)

end ViewSync
