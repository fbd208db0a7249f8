import ViewSync.Proofs.Parser.Phrase

/-!
# ViewSync.Proofs.Tree.Paths

Paths through an expression, from the root down. Each step goes to an expression that stands right inside of another
one, and has a kind (`Edge`): so it can be counted how often a path goes through brackets, into the body of a `lambda`
or the `else` of a conditional, or behind a prefixed operator. Parentheses leave no trace in a tree but for tuples,
whose items count as inside of brackets; only a target of a loop never needs them.

* `shallow_of_children` — a node is shallow if what stands right inside of it is, with room for the steps there.
-/

namespace ViewSync

namespace Expr

/-- How an expression stands right inside of another one. -/
inductive Edge where
  | plain
  /-- Behind a sign or `not`. -/
  | operand
  /-- Behind `**`. -/
  | exponent
  /-- In the brackets of a list, of a tuple, of a dict, of a subscript or of a call. -/
  | group
  /-- The body of a `lambda`. -/
  | body
  /-- Behind the `else` of a conditional. -/
  | orelse
  /-- In a comprehension, behind its first `for`. -/
  | clause
deriving DecidableEq

/-- In the brackets of a subscript slices and tuples have no brackets of their own. -/
def isBare : Expr → Bool
  | .slice .. => true
  | .tuple .. => true
  | _ => false

/-- The step from a subscript to what stands in its brackets. -/
def Edge.into (index : Expr) : Edge :=
  if index.isBare then .plain else .group

/-- What a target of a loop consists of. -/
def targetItems : Expr → List Expr
  | .tuple _ items => items
  | e => [e]

/-- What stands right inside of an expression. -/
inductive Child : Edge → Expr → Expr → Prop
  | item {span items e} (h : e ∈ items) : Child .group (.list span items) e
  | part {span items e} (h : e ∈ items) : Child .group (.tuple span items) e
  | key {span entries entry} (h : entry ∈ entries) : Child .group (.dict span entries) entry.1
  | value {span entries entry} (h : entry ∈ entries) : Child .group (.dict span entries) entry.2
  | owner {span value attr} : Child .plain (.attribute span value attr) value
  | base {span value index} : Child .plain (.subscript span value index) value
  | index {span value index} : Child (.into index) (.subscript span value index) index
  | lower {span e upper step} : Child (.into e) (.slice span (some e) upper step) e
  | upper {span lower e step} : Child .group (.slice span lower (some e) step) e
  | step {span lower upper e} : Child .group (.slice span lower upper (some e)) e
  | callee {span callee args} : Child .plain (.call span callee args) callee
  | arg {span callee args a} (h : a ∈ args) : Child .group (.call span callee args) a.value
  | left {span left op right} : Child .plain (.binary span left op right) left
  | right {span left op right} : Child (if op = .pow then .exponent else .plain) (.binary span left op right) right
  | operand {span op operand} : Child .operand (.unary span op operand) operand
  | compared {span left rest} : Child .plain (.compare span left rest) left
  | comparing {span left rest r} (h : r ∈ rest) : Child .plain (.compare span left rest) r.2
  | test {span test body orelse} : Child .plain (.ternary span test body orelse) test
  | chosen {span test body orelse} : Child .plain (.ternary span test body orelse) body
  | orelse {span test body orelse} : Child .orelse (.ternary span test body orelse) orelse
  | default {span ps body p e} (h : p ∈ ps) (hdefault : p.default? = some e) : Child .plain (.lambda span ps body) e
  | body {span ps body} : Child .body (.lambda span ps body) body
  | element {span element target source conditions} :
      Child .group (.comprehension span element target source conditions) element
  | target {span element target source conditions e} (h : e ∈ target.targetItems) :
      Child .clause (.comprehension span element target source conditions) e
  | source {span element target source conditions} :
      Child .clause (.comprehension span element target source conditions) source
  | condition {span element target source conditions e} (h : e ∈ conditions) :
      Child .clause (.comprehension span element target source conditions) e
  | yielded {span e} : Child .plain (.yield span (some e)) e

/-- `e'` stands inside of `e`, and so many steps on the way are of the kinds that count. -/
inductive Path (counts : Edge → Bool) : Nat → Expr → Expr → Prop
  | here {e} : Path counts 0 e e
  | down {edge n e e' e''} (h : Child edge e e') (hrest : Path counts n e' e'') :
      Path counts ((counts edge).toNat + n) e e''

/-- The steps that start another expression: into brackets, into the body of a `lambda`, and behind `else`. -/
def Edge.nests : Edge → Bool
  | .group => true
  | .body => true
  | .orelse => true
  | _ => false

/-- No path nests more expressions than so many. -/
def Shallow (bound : Nat) (e : Expr) : Prop :=
  ∀ n e', Path Edge.nests n e e' → n ≤ bound

/-- There is room for one more expression, and it nests no more than what is left then. -/
structure Inside (room : Nat) (e : Expr) : Prop where
  pos : 0 < room
  shallow : Shallow (room - 1) e

variable {r r' : Nat} {span : Span} {e : Expr}

theorem Shallow.mono (h : Shallow r e) (hle : r ≤ r') : Shallow r' e :=
  fun n e' hpath => Nat.le_trans (h n e' hpath) hle

theorem Inside.weaken (h : Inside r e) : Shallow r e :=
  h.shallow.mono (Nat.sub_le r 1)

theorem shallow_of_child {edge : Edge} {e' : Expr} (hchild : Child edge e e') (h : Shallow r e) : Shallow r e' :=
  fun n e'' hpath => Nat.le_trans (Nat.le_add_left n _) (h _ e'' (.down hchild hpath))

/-- What is right inside of a node, with room for the step there if that counts. -/
theorem shallow_of_children (h : ∀ edge e', Child edge e e' → if edge.nests then Inside r e' else Shallow r e') :
    Shallow r e := by
  intro n e' hpath
  cases hpath with
  | here => exact Nat.zero_le r
  | @down edge n _ e₁ _ hchild hrest =>
      have hnext := h edge e₁ hchild
      cases hnests : edge.nests with
      | false =>
          rw [hnests, if_neg (by decide)] at hnext
          simpa using hnext n e' hrest
      | true =>
          rw [hnests, if_pos rfl] at hnext
          have hle := hnext.shallow n e' hrest
          have hpos := hnext.pos
          rw [Bool.toNat_true]
          omega

/-! ## nodes -/

/-- Nothing stands inside of a literal or a name. -/
def isLeaf : Expr → Bool
  | .int .. => true
  | .float .. => true
  | .str .. => true
  | .bool .. => true
  | .none .. => true
  | .name .. => true
  | _ => false

theorem shallow_leaf (h : e.isLeaf = true) : Shallow r e := by
  refine shallow_of_children fun edge e' hchild => ?_
  cases hchild <;> cases h

section nodes

variable {items conditions : List Expr} {entries : List (Expr × Expr)} {value index left right first : Expr}
  {rest : List (CompareOp × Expr)} {args : List Arg} {ps : List Param}

theorem shallow_list (h : ∀ e ∈ items, Inside r e) : Shallow r (.list span items) := by
  refine shallow_of_children fun edge e' hchild => ?_
  cases hchild with
  | item hmem => exact h _ hmem

theorem shallow_tuple (h : ∀ e ∈ items, Inside r e) : Shallow r (.tuple span items) := by
  refine shallow_of_children fun edge e' hchild => ?_
  cases hchild with
  | part hmem => exact h _ hmem

theorem shallow_dict (h : ∀ entry ∈ entries, Inside r entry.1 ∧ Inside r entry.2) : Shallow r (.dict span entries) := by
  refine shallow_of_children fun edge e' hchild => ?_
  cases hchild with
  | key hmem => exact (h _ hmem).1
  | value hmem => exact (h _ hmem).2

theorem shallow_attribute (attr : Ident) (h : Shallow r value) : Shallow r (.attribute span value attr) := by
  refine shallow_of_children fun edge e' hchild => ?_
  cases hchild with
  | owner => exact h

/-- What stands in the brackets of a subscript fits there. -/
structure Indexes (room : Nat) (index : Expr) : Prop where
  shallow : Shallow room index
  inside : index.isBare = false → Inside room index

theorem Indexes.fits {index : Expr} (h : Indexes r index) :
    if (Edge.into index).nests then Inside r index else Shallow r index := by
  unfold Edge.into
  cases hbare : index.isBare with
  | false => exact h.inside hbare
  | true => exact h.shallow

theorem shallow_subscript (hvalue : Shallow r value) (hindex : Indexes r index) :
    Shallow r (.subscript span value index) := by
  refine shallow_of_children fun edge e' hchild => ?_
  cases hchild with
  | base => exact hvalue
  | index => exact hindex.fits

theorem shallow_slice {lower upper step : Option Expr} (hlower : ∀ e ∈ lower, Indexes r e)
    (hupper : ∀ e ∈ upper, Inside r e) (hstep : ∀ e ∈ step, Inside r e) : Shallow r (.slice span lower upper step) := by
  refine shallow_of_children fun edge e' hchild => ?_
  cases hchild with
  | lower => exact (hlower _ rfl).fits
  | upper => exact hupper _ rfl
  | step => exact hstep _ rfl

theorem shallow_call {callee : Expr} (hcallee : Shallow r callee) (hargs : ∀ a ∈ args, Inside r a.value) :
    Shallow r (.call span callee args) := by
  refine shallow_of_children fun edge e' hchild => ?_
  cases hchild with
  | callee => exact hcallee
  | arg hmem => exact hargs _ hmem

theorem shallow_binary (op : BinaryOp) (hleft : Shallow r left) (hright : Shallow r right) :
    Shallow r (.binary span left op right) := by
  refine shallow_of_children fun edge e' hchild => ?_
  cases hchild with
  | left => exact hleft
  | right => by_cases hpow : op = .pow <;> simpa [hpow, Edge.nests] using hright

theorem shallow_unary (op : UnaryOp) (h : Shallow r e) : Shallow r (.unary span op e) := by
  refine shallow_of_children fun edge e' hchild => ?_
  cases hchild with
  | operand => exact h

theorem shallow_compare (hleft : Shallow r left) (hrest : ∀ operand ∈ rest, Shallow r operand.2) :
    Shallow r (.compare span left rest) := by
  refine shallow_of_children fun edge e' hchild => ?_
  cases hchild with
  | compared => exact hleft
  | comparing hmem => exact hrest _ hmem

theorem shallow_ternary {test body orelse : Expr} (htest : Shallow r test) (hbody : Shallow r body)
    (horelse : Inside r orelse) : Shallow r (.ternary span test body orelse) := by
  refine shallow_of_children fun edge e' hchild => ?_
  cases hchild with
  | test => exact htest
  | chosen => exact hbody
  | orelse => exact horelse

theorem shallow_lambda {body : Expr} (hps : ∀ p ∈ ps, ∀ e ∈ p.default?, Shallow r e) (hbody : Inside r body) :
    Shallow r (.lambda span ps body) := by
  refine shallow_of_children fun edge e' hchild => ?_
  cases hchild with
  | default hmem hdefault => exact hps _ hmem _ hdefault
  | body => exact hbody

theorem shallow_comprehension {element target source : Expr} (helement : Inside r element)
    (htarget : ∀ e ∈ target.targetItems, Shallow r e) (hsource : Shallow r source)
    (hconditions : ∀ e ∈ conditions, Shallow r e) :
    Shallow r (.comprehension span element target source conditions) := by
  refine shallow_of_children fun edge e' hchild => ?_
  cases hchild with
  | element => exact helement
  | target hmem => exact htarget _ hmem
  | source => exact hsource
  | condition hmem => exact hconditions _ hmem

theorem shallow_yield {value : Option Expr} (h : ∀ e ∈ value, Shallow r e) : Shallow r (.yield span value) := by
  refine shallow_of_children fun edge e' hchild => ?_
  cases hchild with
  | yielded => exact h _ rfl

end nodes

end Expr

end ViewSync
