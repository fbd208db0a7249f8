import ViewSync.Proofs.Token.Positions
import ViewSync.Tree.Basic

/-!
# ViewSync.Proofs.Tree.Spans

The tree of a source as a tree of spans (`Module.tree`), with the children of a node in the order of the text. The
spans nest if every node covers its children and these stand one behind the other (`SpanTree.Nested`). Then any two
nodes are one inside the other or one behind the other (`Nested.pairwise_nodes`), and no two targets have one span
(`Module.nodup_targets`): a target inside another one is the target of a comprehension, which never starts with it.
-/

namespace ViewSync

/-! ## trees of spans -/

/-- Whether a node is something that an assignment or a loop binds. -/
inductive Role where
  | target
  | other
deriving DecidableEq

/-- A node of a tree: its span, and its children in the order of the text. -/
inductive SpanTree where
  | node (role : Role) (span : Span) (children : List SpanTree)

/-- A span around another one. -/
def Span.Covers (outer inner : Span) : Prop :=
  ¬ inner.first.before outer.first = true ∧ ¬ outer.last.before inner.last = true

namespace SpanTree

/-- Where a node stands. -/
def span : SpanTree → Span
  | node _ span _ => span

@[simp] theorem span_node (role : Role) (span : Span) (children : List SpanTree) :
    (node role span children).span = span := rfl

/-- A node without children. -/
def leaf (span : Span) : SpanTree :=
  node .other span []

@[simp] theorem span_leaf (span : Span) : (leaf span).span = span := rfl

/-- A tree whose node binds nothing. -/
def plain : SpanTree → SpanTree
  | node _ span children => node .other span children

@[simp] theorem span_plain (t : SpanTree) : t.plain.span = t.span := by
  cases t
  rfl

/-- One tree ends in front of another one. -/
def Precedes (a b : SpanTree) : Prop :=
  a.span.last.before b.span.first = true

/-- Every node covers its children, and these stand one behind the other. -/
inductive Nested : SpanTree → Prop
  | node {role : Role} {span : Span} {children : List SpanTree} : ¬ span.last.before span.first = true →
      (∀ c ∈ children, span.Covers c.span) → children.Pairwise Precedes → (∀ c ∈ children, c.Nested) →
      Nested (node role span children)

mutual

/-- The nodes of a tree, each in front of those inside it. -/
def nodes : SpanTree → List (Role × Span)
  | node role span children => (role, span) :: nodesOf children

/-- The nodes of several trees. -/
def nodesOf : List SpanTree → List (Role × Span)
  | [] => []
  | t :: rest => t.nodes ++ nodesOf rest

end

theorem nodesOf_eq (trees : List SpanTree) : nodesOf trees = trees.flatMap nodes := by
  induction trees with
  | nil => rfl
  | cons t rest ih => rw [nodesOf, ih, List.flatMap_cons]

/-- The spans of the targets in a tree. -/
def targets (t : SpanTree) : List Span :=
  t.nodes.filterMap fun n => if n.1 = .target then some n.2 else none

end SpanTree

/-! ## the tree of a source -/

/-- The node of a name. -/
def Ident.tree (i : Ident) : SpanTree :=
  .leaf i.span

namespace Expr

mutual

/-- What stands inside an expression. -/
def parts : Expr → List SpanTree
  | .list _ items => partsOfAll items
  | .tuple _ items => partsOfAll items
  | .dict _ entries => partsOfEntries entries
  | .attribute _ value attr => [.node .other value.span value.parts, attr.tree]
  | .subscript _ value index => [.node .other value.span value.parts, .node .other index.span index.parts]
  | .slice _ lower upper step => partsOfOption lower ++ (partsOfOption upper ++ partsOfOption step)
  | .call _ callee args => .node .other callee.span callee.parts :: partsOfArgs args
  | .binary _ left _ right => [.node .other left.span left.parts, .node .other right.span right.parts]
  | .unary _ _ operand => [.node .other operand.span operand.parts]
  | .compare _ left rest => .node .other left.span left.parts :: partsOfOperands rest
  | .ternary _ test body orelse =>
    [.node .other body.span body.parts, .node .other test.span test.parts, .node .other orelse.span orelse.parts]
  | .lambda _ ps body => partsOfParams ps ++ [.node .other body.span body.parts]
  | .comprehension _ element target source conditions =>
    .node .other element.span element.parts :: .node .target target.span target.parts ::
      .node .other source.span source.parts :: partsOfAll conditions
  | .yield _ value => partsOfOption value
  | _ => []

/-- The nodes of several expressions. -/
def partsOfAll : List Expr → List SpanTree
  | [] => []
  | e :: rest => .node .other e.span e.parts :: partsOfAll rest

/-- The node of an expression, if there is one. -/
def partsOfOption : Option Expr → List SpanTree
  | Option.none => []
  | some e => [.node .other e.span e.parts]

/-- The nodes of the entries of a dict. -/
def partsOfEntries : List (Expr × Expr) → List SpanTree
  | [] => []
  | (key, value) :: rest =>
    .node .other key.span key.parts :: .node .other value.span value.parts :: partsOfEntries rest

/-- The nodes of the arguments of a call. -/
def partsOfArgs : List Arg → List SpanTree
  | [] => []
  | .positional value :: rest => .node .other value.span value.parts :: partsOfArgs rest
  | .starred value :: rest => .node .other value.span value.parts :: partsOfArgs rest
  | .keyword key value :: rest => key.tree :: .node .other value.span value.parts :: partsOfArgs rest
  | .doubleStarred value :: rest => .node .other value.span value.parts :: partsOfArgs rest

/-- The nodes of the operands of a chain of comparisons. -/
def partsOfOperands : List (CompareOp × Expr) → List SpanTree
  | [] => []
  | (_, e) :: rest => .node .other e.span e.parts :: partsOfOperands rest

/-- The nodes of parameters: a name, and the default value behind it. -/
def partsOfParams : List Param → List SpanTree
  | [] => []
  | .mk ident default span :: rest => .node .other span (ident.tree :: partsOfOption default) :: partsOfParams rest

end

/-- The node of an expression. -/
def tree (e : Expr) : SpanTree :=
  .node .other e.span e.parts

/-- The node of an expression that is bound. -/
def target (e : Expr) : SpanTree :=
  .node .target e.span e.parts

end Expr

/-- The nodes of an argument of a call. -/
def Arg.trees : Arg → List SpanTree
  | .positional value => [value.tree]
  | .starred value => [value.tree]
  | .keyword name value => [name.tree, value.tree]
  | .doubleStarred value => [value.tree]

/-- The node of a parameter. -/
def Param.tree : Param → SpanTree
  | .mk name default span => .node .other span (name.tree :: default.toList.map Expr.tree)

mutual

/-- The node of a statement, and in front of it those of its decorators. -/
def Stmt.trees : Stmt → List SpanTree
  | .function def_ => def_.trees
  | .class_ def_ => def_.trees
  | .assign span targets value => [.node .other span (targets.map Expr.target ++ [value.tree])]
  | .augAssign span target _ value => [.node .other span [target.target, value.tree]]
  | .if_ chain => [chain.tree]
  | .for_ span target source body orelse =>
    [.node .other span (target.target :: source.tree :: (blockTrees body ++ optionalTrees orelse))]
  | .while_ span condition body orelse =>
    [.node .other span (condition.tree :: (blockTrees body ++ optionalTrees orelse))]
  | .return_ span value => [.node .other span (value.toList.map Expr.tree)]
  | .delete span targets => [.node .other span (targets.map Expr.tree)]
  | .pass span => [.leaf span]
  | .expr span value => [.node .other span [value.tree]]
  | .refused span _ => [.leaf span]

/-- The node of a function, behind those of its decorators. -/
def FunctionDef.trees : FunctionDef → List SpanTree
  | .mk span name ps decorators body =>
    decorators.map Expr.tree ++ [.node .other span (name.tree :: (ps.map Param.tree ++ blockTrees body))]

/-- The node of a class, behind those of its decorators. -/
def ClassDef.trees : ClassDef → List SpanTree
  | .mk span name bases decorators body =>
    decorators.map Expr.tree ++ [.node .other span (name.tree :: (bases.map Expr.tree ++ blockTrees body))]

/-- The node of an `if`. What follows in an `elif` is a node inside it. -/
def IfChain.tree : IfChain → SpanTree
  | .mk span condition body orelse => .node .other span (condition.tree :: (blockTrees body ++ orelse.trees))

/-- The nodes behind the block of an `if`. -/
def Else.trees : Else → List SpanTree
  | .nothing => []
  | .elif chain => [chain.tree]
  | .block body => blockTrees body

/-- The nodes of a block that may be absent. -/
def optionalTrees : Option (List Stmt) → List SpanTree
  | none => []
  | some body => blockTrees body

/-- The nodes of the statements of a block. -/
def blockTrees : List Stmt → List SpanTree
  | [] => []
  | stmt :: rest => stmt.trees ++ blockTrees rest

end

/-- The tree of a source. -/
def Module.tree (m : Module) : SpanTree :=
  .node .other m.span (blockTrees m.body)

/-! ## the nodes of lists -/

namespace Expr

theorem partsOfAll_eq (items : List Expr) : partsOfAll items = items.map tree := by
  induction items with
  | nil => rfl
  | cons e rest ih => exact congrArg (e.tree :: ·) ih

theorem partsOfOption_eq (e : Option Expr) : partsOfOption e = e.toList.map tree := by
  cases e <;> rfl

theorem partsOfEntries_eq (entries : List (Expr × Expr)) :
    partsOfEntries entries = entries.flatMap fun entry => [entry.1.tree, entry.2.tree] := by
  induction entries with
  | nil => rfl
  | cons entry rest ih => exact congrArg (entry.1.tree :: entry.2.tree :: ·) ih

theorem partsOfArgs_eq (args : List Arg) : partsOfArgs args = args.flatMap Arg.trees := by
  induction args with
  | nil => rfl
  | cons a rest ih =>
      rw [List.flatMap_cons, ← ih]
      cases a <;> rfl

theorem partsOfOperands_eq (rest : List (CompareOp × Expr)) :
    partsOfOperands rest = rest.map fun operand => operand.2.tree := by
  induction rest with
  | nil => rfl
  | cons operand rest ih => exact congrArg (operand.2.tree :: ·) ih

theorem partsOfParams_eq (ps : List Param) : partsOfParams ps = ps.map Param.tree := by
  induction ps with
  | nil => rfl
  | cons p rest ih =>
      obtain ⟨name, default, span⟩ := p
      rw [List.map_cons, Param.tree, ← partsOfOption_eq, ← ih]
      rfl

theorem tree_list (span : Span) (items : List Expr) :
    (Expr.list span items).tree = .node .other span (items.map tree) := by
  rw [← partsOfAll_eq]
  rfl

theorem tree_tuple (span : Span) (items : List Expr) :
    (Expr.tuple span items).tree = .node .other span (items.map tree) := by
  rw [← partsOfAll_eq]
  rfl

theorem tree_dict (span : Span) (entries : List (Expr × Expr)) :
    (Expr.dict span entries).tree = .node .other span (entries.flatMap fun entry => [entry.1.tree, entry.2.tree]) := by
  rw [← partsOfEntries_eq]
  rfl

theorem tree_slice (span : Span) (lower upper step : Option Expr) :
    (Expr.slice span lower upper step).tree =
      .node .other span (lower.toList.map tree ++ (upper.toList.map tree ++ step.toList.map tree)) := by
  rw [← partsOfOption_eq, ← partsOfOption_eq, ← partsOfOption_eq]
  rfl

theorem tree_call (span : Span) (callee : Expr) (args : List Arg) :
    (Expr.call span callee args).tree = .node .other span (callee.tree :: args.flatMap Arg.trees) := by
  rw [← partsOfArgs_eq]
  rfl

theorem tree_compare (span : Span) (left : Expr) (rest : List (CompareOp × Expr)) :
    (Expr.compare span left rest).tree =
      .node .other span (left.tree :: rest.map fun operand => operand.2.tree) := by
  rw [← partsOfOperands_eq]
  rfl

theorem tree_lambda (span : Span) (ps : List Param) (body : Expr) :
    (Expr.lambda span ps body).tree = .node .other span (ps.map Param.tree ++ [body.tree]) := by
  rw [← partsOfParams_eq]
  rfl

theorem tree_comprehension (span : Span) (element target source : Expr) (conditions : List Expr) :
    (Expr.comprehension span element target source conditions).tree =
      .node .other span (element.tree :: target.target :: source.tree :: conditions.map tree) := by
  rw [← partsOfAll_eq]
  rfl

end Expr

theorem blockTrees_eq (body : Block) : blockTrees body = body.flatMap Stmt.trees := by
  induction body with
  | nil => rfl
  | cons stmt rest ih => exact congrArg (stmt.trees ++ ·) ih

theorem blockTrees_append (front body : Block) : blockTrees (front ++ body) = blockTrees front ++ blockTrees body := by
  rw [blockTrees_eq, blockTrees_eq, blockTrees_eq, List.flatMap_append]

theorem blockTrees_singleton (stmt : Stmt) : blockTrees [stmt] = stmt.trees := by
  rw [blockTrees_eq, List.flatMap_singleton]

/-! ## two nodes of a tree -/

namespace Span

variable {a b c : Span}

theorem covers_trans (h : a.Covers b) (h' : b.Covers c) : a.Covers c := by
  simp only [Covers, Pos.before_iff] at *
  omega

/-- What stands inside two spans that stand one behind the other stands so as well. -/
theorem before_of_covers {d : Span} (h : a.last.before b.first = true) (ha : a.Covers c) (hb : b.Covers d) :
    c.last.before d.first = true := by
  simp only [Covers, Pos.before_iff] at *
  omega

end Span

namespace SpanTree

variable {t : SpanTree} {r : Role} {span : Span} {children : List SpanTree}

theorem nodes_node (role : Role) (span : Span) (children : List SpanTree) :
    (node role span children).nodes = (role, span) :: children.flatMap nodes := by
  rw [nodes, nodesOf_eq]

namespace Nested

/-- A span ends where it starts or later. -/
theorem not_before (h : t.Nested) : ¬ t.span.last.before t.span.first = true := by
  cases h with
  | node hspan _ _ _ => exact hspan

theorem covers (h : (SpanTree.node r span children).Nested) : ∀ c ∈ children, span.Covers c.span := by
  cases h with
  | node _ hcovers _ _ => exact hcovers

theorem pairwise (h : (SpanTree.node r span children).Nested) : children.Pairwise Precedes := by
  cases h with
  | node _ _ hpairwise _ => exact hpairwise

theorem child (h : (SpanTree.node r span children).Nested) : ∀ c ∈ children, c.Nested := by
  cases h with
  | node _ _ _ hchildren => exact hchildren

/-- The role of a node does not matter. -/
theorem role {r' : Role} (h : (SpanTree.node r span children).Nested) :
    (SpanTree.node r' span children).Nested :=
  .node h.not_before h.covers h.pairwise h.child

/-- A node covers all nodes inside it, and each of them ends where it starts or later. -/
theorem covers_nodes (h : t.Nested) :
    ∀ n ∈ t.nodes, t.span.Covers n.2 ∧ ¬ n.2.last.before n.2.first = true := by
  induction h with
  | @node role span children hspan hcovers _ _ ih =>
      rw [nodes_node]
      intro n hn
      obtain rfl | hn := List.mem_cons.1 hn
      · exact ⟨⟨Pos.not_before_self _, Pos.not_before_self _⟩, hspan⟩
      · obtain ⟨c, hc, hn⟩ := List.mem_flatMap.1 hn
        obtain ⟨hinside, hordered⟩ := ih c hc n hn
        exact ⟨Span.covers_trans (hcovers c hc) hinside, hordered⟩

/-- Of any two nodes the one in front covers the other one, or ends in front of it. -/
theorem pairwise_nodes (h : t.Nested) :
    t.nodes.Pairwise fun a b => a.2.Covers b.2 ∨ a.2.last.before b.2.first = true := by
  induction h with
  | @node role span children hspan hcovers hpairwise hchildren ih =>
      have hnode : (SpanTree.node role span children).Nested := .node hspan hcovers hpairwise hchildren
      have hinside := hnode.covers_nodes
      rw [nodes_node] at hinside ⊢
      refine List.pairwise_cons.2 ⟨fun n hn => .inl (hinside n (List.mem_cons_of_mem _ hn)).1, ?_⟩
      refine List.pairwise_flatMap.2 ⟨ih, ?_⟩
      refine hpairwise.imp_of_mem fun {a b} ha hb hbefore m hm n hn => .inr ?_
      exact Span.before_of_covers hbefore ((hchildren a ha).covers_nodes m hm).1
        ((hchildren b hb).covers_nodes n hn).1

end Nested

/-! ## the targets of a tree -/

/-- The targets in a tree start one behind the other. -/
def Sorted (t : SpanTree) : Prop :=
  t.targets.Pairwise fun a b => a.first.before b.first = true

/-- The targets in a tree start behind its start. -/
def Unbound (t : SpanTree) : Prop :=
  ∀ s ∈ t.targets, t.span.first.before s.first = true

theorem targets_other (span : Span) (children : List SpanTree) :
    (node .other span children).targets = children.flatMap targets := by
  rw [targets, nodes_node, List.filterMap_cons, List.filterMap_flatMap]
  rfl

theorem targets_target (span : Span) (children : List SpanTree) :
    (node .target span children).targets = span :: children.flatMap targets := by
  rw [targets, nodes_node, List.filterMap_cons, List.filterMap_flatMap]
  rfl

theorem Nested.covers_targets (h : t.Nested) :
    ∀ s ∈ t.targets, t.span.Covers s ∧ ¬ s.last.before s.first = true := by
  intro s hs
  obtain ⟨n, hn, heq⟩ := List.mem_filterMap.1 hs
  split at heq
  · cases heq
    exact h.covers_nodes n hn
  · cases heq

/-- Targets of trees that stand one behind the other. -/
theorem pairwise_targets (hpairwise : children.Pairwise Precedes) (hnested : ∀ c ∈ children, c.Nested)
    (hsorted : ∀ c ∈ children, c.Sorted) :
    (children.flatMap targets).Pairwise fun a b => a.first.before b.first = true := by
  refine List.pairwise_flatMap.2 ⟨hsorted, ?_⟩
  refine hpairwise.imp_of_mem fun {a b} ha hb hbefore s hs t ht => ?_
  obtain ⟨hs, hordered⟩ := (hnested a ha).covers_targets s hs
  obtain ⟨ht, -⟩ := (hnested b hb).covers_targets t ht
  have hends := Span.before_of_covers hbefore hs ht
  rw [Pos.before_iff] at *
  omega

/-- A node that is no target, of children with targets in order. -/
theorem sorted_node (h : (node .other span children).Nested) (hchildren : ∀ c ∈ children, c.Nested → c.Sorted) :
    (node .other span children).Sorted := by
  rw [Sorted, targets_other]
  exact pairwise_targets h.pairwise h.child fun c hc => hchildren c hc (h.child c hc)

/-- A node that is no target does not start with one if its first child does not. -/
theorem unbound_node (h : (node .other span children).Nested) (hfirst : ∀ c ∈ children.head?, c.Unbound) :
    (node .other span children).Unbound := by
  intro s hs
  rw [targets_other] at hs
  obtain ⟨d, hd, hsd⟩ := List.mem_flatMap.1 hs
  cases children with
  | nil => cases hd
  | cons c rest =>
      have hstart := h.covers c List.mem_cons_self
      obtain rfl | hd' := List.mem_cons.1 hd
      · have hbehind := hfirst d rfl s hsd
        simp only [span_node, Span.Covers, Pos.before_iff] at *
        omega
      · have hbefore := (List.pairwise_cons.1 h.pairwise).1 d hd'
        have hordered := (h.child c List.mem_cons_self).not_before
        obtain ⟨hinside, -⟩ := (h.child d hd).covers_targets s hsd
        simp only [span_node, Precedes, Span.Covers, Pos.before_iff] at *
        omega

/-- The targets in a tree start one behind the other, and behind its start. -/
structure Marked (t : SpanTree) : Prop where
  sorted : t.Sorted
  unbound : t.Unbound

theorem marked_node (h : (node .other span children).Nested) (hchildren : ∀ c ∈ children, c.Nested → c.Marked) :
    (node .other span children).Marked where
  sorted := sorted_node h fun c hc hnested => (hchildren c hc hnested).sorted
  unbound := unbound_node h fun c hc =>
    have hc := List.mem_of_mem_head? hc
    (hchildren c hc (h.child c hc)).unbound

theorem marked_leaf (span : Span) : (leaf span).Marked := by
  constructor
  · rw [Sorted, leaf, targets_other]
    exact .nil
  · rw [Unbound, leaf, targets_other]
    exact nofun

/-- A target that does not start with another one. -/
theorem sorted_target (h : (node .other span children).Marked) : (node .target span children).Sorted := by
  obtain ⟨hsorted, hunbound⟩ := h
  rw [Sorted, targets_other] at hsorted
  rw [Unbound, targets_other] at hunbound
  rw [Sorted, targets_target]
  exact List.pairwise_cons.2 ⟨hunbound, hsorted⟩

end SpanTree

/-! ## the targets of a source -/

open SpanTree List

mutual

/-- An expression does not start with a target: in a comprehension the element stands in front of the target. -/
theorem Expr.marked_tree : ∀ e : Expr, e.tree.Nested → e.tree.Marked
  | .list _ items, h => marked_node h (marked_partsOfAll items)
  | .tuple _ items, h => marked_node h (marked_partsOfAll items)
  | .dict _ entries, h => marked_node h (marked_partsOfEntries entries)
  | .attribute _ value attr, h =>
    marked_node h (forall_mem_cons.2 ⟨value.marked_tree, forall_mem_singleton.2 fun _ => marked_leaf attr.span⟩)
  | .subscript _ value index, h =>
    marked_node h (forall_mem_cons.2 ⟨value.marked_tree, forall_mem_singleton.2 index.marked_tree⟩)
  | .slice _ lower upper step, h =>
    marked_node h (forall_mem_append.2 ⟨marked_partsOfOption lower,
      forall_mem_append.2 ⟨marked_partsOfOption upper, marked_partsOfOption step⟩⟩)
  | .call _ callee args, h => marked_node h (forall_mem_cons.2 ⟨callee.marked_tree, marked_partsOfArgs args⟩)
  | .binary _ left _ right, h =>
    marked_node h (forall_mem_cons.2 ⟨left.marked_tree, forall_mem_singleton.2 right.marked_tree⟩)
  | .unary _ _ operand, h => marked_node h (forall_mem_singleton.2 operand.marked_tree)
  | .compare _ left rest, h => marked_node h (forall_mem_cons.2 ⟨left.marked_tree, marked_partsOfOperands rest⟩)
  | .ternary _ test body orelse, h =>
    marked_node h (forall_mem_cons.2 ⟨body.marked_tree,
      forall_mem_cons.2 ⟨test.marked_tree, forall_mem_singleton.2 orelse.marked_tree⟩⟩)
  | .lambda _ ps body, h =>
    marked_node h (forall_mem_append.2 ⟨marked_partsOfParams ps, forall_mem_singleton.2 body.marked_tree⟩)
  | .comprehension _ element target source conditions, h =>
    have hconditions := marked_partsOfAll conditions
    { sorted := sorted_node h (forall_mem_cons.2 ⟨fun h => (element.marked_tree h).sorted,
        forall_mem_cons.2 ⟨fun h => sorted_target (target.marked_tree h.role),
          forall_mem_cons.2 ⟨fun h => (source.marked_tree h).sorted, fun c hc h => (hconditions c hc h).sorted⟩⟩⟩)
      unbound := unbound_node h (by
        rintro _ ⟨⟩
        exact (element.marked_tree (h.child _ mem_cons_self)).unbound) }
  | .yield _ value, h => marked_node h (marked_partsOfOption value)
  | .int .., _ | .float .., _ | .str .., _ | .bool .., _ | .none _, _ | .name .., _ => marked_leaf _

theorem marked_partsOfAll : ∀ items : List Expr, ∀ c ∈ Expr.partsOfAll items, c.Nested → c.Marked
  | [] => nofun
  | e :: rest => forall_mem_cons.2 ⟨e.marked_tree, marked_partsOfAll rest⟩

theorem marked_partsOfOption : ∀ e : Option Expr, ∀ c ∈ Expr.partsOfOption e, c.Nested → c.Marked
  | none => nofun
  | some e => forall_mem_singleton.2 e.marked_tree

theorem marked_partsOfEntries :
    ∀ entries : List (Expr × Expr), ∀ c ∈ Expr.partsOfEntries entries, c.Nested → c.Marked
  | [] => nofun
  | (key, value) :: rest =>
    forall_mem_cons.2 ⟨key.marked_tree, forall_mem_cons.2 ⟨value.marked_tree, marked_partsOfEntries rest⟩⟩

theorem marked_partsOfArgs : ∀ args : List Arg, ∀ c ∈ Expr.partsOfArgs args, c.Nested → c.Marked
  | [] => nofun
  | .positional value :: rest => forall_mem_cons.2 ⟨value.marked_tree, marked_partsOfArgs rest⟩
  | .starred value :: rest => forall_mem_cons.2 ⟨value.marked_tree, marked_partsOfArgs rest⟩
  | .keyword name value :: rest =>
    forall_mem_cons.2 ⟨fun _ => marked_leaf name.span,
      forall_mem_cons.2 ⟨value.marked_tree, marked_partsOfArgs rest⟩⟩
  | .doubleStarred value :: rest => forall_mem_cons.2 ⟨value.marked_tree, marked_partsOfArgs rest⟩

theorem marked_partsOfOperands :
    ∀ operands : List (CompareOp × Expr), ∀ c ∈ Expr.partsOfOperands operands, c.Nested → c.Marked
  | [] => nofun
  | (_, e) :: rest => forall_mem_cons.2 ⟨e.marked_tree, marked_partsOfOperands rest⟩

theorem marked_partsOfParams : ∀ ps : List Param, ∀ c ∈ Expr.partsOfParams ps, c.Nested → c.Marked
  | [] => nofun
  | .mk name default _ :: rest =>
    forall_mem_cons.2 ⟨fun h => marked_node h
      (forall_mem_cons.2 ⟨fun _ => marked_leaf name.span, marked_partsOfOption default⟩), marked_partsOfParams rest⟩

end

theorem Expr.sorted_tree (e : Expr) (h : e.tree.Nested) : e.tree.Sorted :=
  (e.marked_tree h).sorted

theorem Expr.sorted_target (e : Expr) (h : e.target.Nested) : e.target.Sorted :=
  SpanTree.sorted_target (e.marked_tree h.role)

theorem Param.sorted_tree (p : Param) (h : p.tree.Nested) : p.tree.Sorted := by
  have hmarked := marked_partsOfParams [p] p.tree (by simp [Expr.partsOfParams_eq]) h
  exact hmarked.sorted

mutual

theorem Stmt.sorted_trees : ∀ stmt : Stmt, ∀ t ∈ stmt.trees, t.Nested → t.Sorted
  | .function def_ => def_.sorted_trees
  | .class_ def_ => def_.sorted_trees
  | .assign _ _ value => forall_mem_singleton.2 fun h => sorted_node h
      (forall_mem_append.2 ⟨forall_mem_map.2 fun e _ => e.sorted_target, forall_mem_singleton.2 value.sorted_tree⟩)
  | .augAssign _ target _ value => forall_mem_singleton.2 fun h => sorted_node h
      (forall_mem_cons.2 ⟨target.sorted_target, forall_mem_singleton.2 value.sorted_tree⟩)
  | .if_ chain => forall_mem_singleton.2 chain.sorted_tree
  | .for_ _ target source body orelse => forall_mem_singleton.2 fun h => sorted_node h
      (forall_mem_cons.2 ⟨target.sorted_target, forall_mem_cons.2 ⟨source.sorted_tree,
        forall_mem_append.2 ⟨sorted_blockTrees body, sorted_optionalTrees orelse⟩⟩⟩)
  | .while_ _ condition body orelse => forall_mem_singleton.2 fun h => sorted_node h
      (forall_mem_cons.2 ⟨condition.sorted_tree,
        forall_mem_append.2 ⟨sorted_blockTrees body, sorted_optionalTrees orelse⟩⟩)
  | .return_ .. => forall_mem_singleton.2 fun h => sorted_node h (forall_mem_map.2 fun e _ => e.sorted_tree)
  | .delete .. => forall_mem_singleton.2 fun h => sorted_node h (forall_mem_map.2 fun e _ => e.sorted_tree)
  | .pass _ => forall_mem_singleton.2 fun _ => (marked_leaf _).sorted
  | .expr _ value => forall_mem_singleton.2 fun h => sorted_node h (forall_mem_singleton.2 value.sorted_tree)
  | .refused .. => forall_mem_singleton.2 fun _ => (marked_leaf _).sorted

theorem FunctionDef.sorted_trees : ∀ f : FunctionDef, ∀ t ∈ f.trees, t.Nested → t.Sorted
  | .mk _ name _ _ body =>
    forall_mem_append.2 ⟨forall_mem_map.2 fun e _ => e.sorted_tree, forall_mem_singleton.2 fun h => sorted_node h
      (forall_mem_cons.2 ⟨fun _ => (marked_leaf name.span).sorted,
        forall_mem_append.2 ⟨forall_mem_map.2 fun p _ => p.sorted_tree, sorted_blockTrees body⟩⟩)⟩

theorem ClassDef.sorted_trees : ∀ c : ClassDef, ∀ t ∈ c.trees, t.Nested → t.Sorted
  | .mk _ name _ _ body =>
    forall_mem_append.2 ⟨forall_mem_map.2 fun e _ => e.sorted_tree, forall_mem_singleton.2 fun h => sorted_node h
      (forall_mem_cons.2 ⟨fun _ => (marked_leaf name.span).sorted,
        forall_mem_append.2 ⟨forall_mem_map.2 fun e _ => e.sorted_tree, sorted_blockTrees body⟩⟩)⟩

theorem IfChain.sorted_tree : ∀ chain : IfChain, chain.tree.Nested → chain.tree.Sorted
  | .mk _ condition body orelse => fun h => sorted_node h
      (forall_mem_cons.2 ⟨condition.sorted_tree,
        forall_mem_append.2 ⟨sorted_blockTrees body, orelse.sorted_trees⟩⟩)

theorem Else.sorted_trees : ∀ orelse : Else, ∀ t ∈ orelse.trees, t.Nested → t.Sorted
  | .nothing => nofun
  | .elif chain => forall_mem_singleton.2 chain.sorted_tree
  | .block body => sorted_blockTrees body

theorem sorted_optionalTrees : ∀ body : Option (List Stmt), ∀ t ∈ optionalTrees body, t.Nested → t.Sorted
  | none => nofun
  | some body => sorted_blockTrees body

theorem sorted_blockTrees : ∀ body : List Stmt, ∀ t ∈ blockTrees body, t.Nested → t.Sorted
  | [] => nofun
  | stmt :: rest => forall_mem_append.2 ⟨stmt.sorted_trees, sorted_blockTrees rest⟩

end

/-- In a tree that nests no two targets have one span. -/
theorem Module.nodup_targets (m : Module) (h : m.tree.Nested) : m.tree.targets.Nodup := by
  have hsorted : m.tree.Sorted := sorted_node h (sorted_blockTrees m.body)
  refine hsorted.imp fun {a b} hbefore heq => ?_
  exact Pos.not_before_self b.first (heq ▸ hbefore)

end ViewSync
