import ViewSync.Proofs.Parser.Walks
import ViewSync.Proofs.Token.Positions
import ViewSync.Proofs.Tree.Spans

/-!
# ViewSync.Proofs.Parser.Rows

Rows of trees over tokens. Where tokens stand one behind the other, the trees that are built of them nest, stand one
behind the other as well, and reach no further than the tokens (`Carries`). Rows over neighbouring tokens make one row,
and the trees of a row may be put under one node, with a span from the first to the last of them (`Carries.joined`) or
from the first to the last token (`Carries.spanned`).
-/

namespace ViewSync

/-- The spans of a first and of a last thing together. -/
theorem Span.merge_eq {a b : Span} (hfirst : ¬ b.first.before a.first = true) (hlast : ¬ b.last.before a.last = true) :
    a.merge b = ⟨a.first, b.last⟩ := by
  rw [merge, Pos.earlier, Pos.later, if_neg hfirst, if_neg hlast]

theorem Span.not_before_merge {a b : Span} (ha : ¬ a.last.before a.first = true) (hb : ¬ b.last.before b.first = true) :
    ¬ (a.merge b).last.before (a.merge b).first = true := by
  simp only [merge, Pos.earlier, Pos.later, Pos.before_iff] at *
  split <;> split <;> omega

theorem Span.merge_self (a : Span) : a.merge a = a :=
  merge_eq (Pos.not_before_self _) (Pos.not_before_self _)

open SpanTree

/-- Tokens that stand one behind the other. -/
structure Lined (ts : List Token) : Prop where
  ordered : ∀ t ∈ ts, ¬ t.span.last.before t.span.first = true
  pairwise : ts.Pairwise fun a b => a.span.last.before b.span.first = true

/-- A row of trees over some tokens: the trees nest, stand one behind the other, and do not reach beyond the tokens. -/
structure Row (ts : List Token) (trees : List SpanTree) : Prop where
  nested : ∀ t ∈ trees, t.Nested
  starts : ∀ t ∈ trees, ∃ u ∈ ts, ¬ t.span.first.before u.span.first = true
  ends : ∀ t ∈ trees, ∃ u ∈ ts, ¬ u.span.last.before t.span.last = true
  apart : trees.Pairwise Precedes

/-- What is built of some tokens is a row over those with a text of their own. -/
def Carries (used : List Token) (trees : List SpanTree) : Prop :=
  Lined (worded used) → Row (worded used) trees

section

variable {ts us used more : List Token} {trees others : List SpanTree} {a b : SpanTree} {r : Role} {span : Span}

theorem Pos.not_before_trans {p q r : Pos} (h : ¬ q.before p = true) (h' : ¬ r.before q = true) :
    ¬ r.before p = true := by
  rw [before_iff] at *
  omega

theorem Lined.sublist (h : Lined us) (hsub : ts.Sublist us) : Lined ts :=
  ⟨fun t ht => h.ordered t (hsub.subset ht), h.pairwise.sublist hsub⟩

namespace Row

theorem mono (h : Row ts trees) (hsub : ts ⊆ us) : Row us trees where
  nested := h.nested
  starts t ht := (h.starts t ht).imp fun _ hu => ⟨hsub hu.1, hu.2⟩
  ends t ht := (h.ends t ht).imp fun _ hu => ⟨hsub hu.1, hu.2⟩
  apart := h.apart

theorem sublist (h : Row ts trees) (hsub : others.Sublist trees) : Row ts others where
  nested t ht := h.nested t (hsub.subset ht)
  starts t ht := h.starts t (hsub.subset ht)
  ends t ht := h.ends t (hsub.subset ht)
  apart := h.apart.sublist hsub

/-- No tree is built of no token. -/
theorem eq_nil (h : Row [] trees) : trees = [] := by
  refine List.eq_nil_iff_forall_not_mem.2 fun t ht => ?_
  obtain ⟨u, hu, -⟩ := h.starts t ht
  cases hu

theorem append (h : Row ts trees) (h' : Row us others) (hlined : Lined (ts ++ us)) :
    Row (ts ++ us) (trees ++ others) := by
  have hleft := h.mono (List.subset_append_left ts us)
  have hright := h'.mono (List.subset_append_right ts us)
  refine ⟨List.forall_mem_append.2 ⟨hleft.nested, hright.nested⟩,
    List.forall_mem_append.2 ⟨hleft.starts, hright.starts⟩,
    List.forall_mem_append.2 ⟨hleft.ends, hright.ends⟩,
    List.pairwise_append.2 ⟨h.apart, h'.apart, fun t ht t' ht' => ?_⟩⟩
  obtain ⟨u, hu, hends⟩ := h.ends t ht
  obtain ⟨u', hu', hstarts⟩ := h'.starts t' ht'
  have hbefore := (List.pairwise_append.1 hlined.pairwise).2.2 u hu u' hu'
  rw [Precedes]
  rw [Pos.before_iff] at *
  omega

/-- No tree of a row starts in front of the first one. -/
theorem first (h : Row ts (a :: trees)) : ∀ t ∈ a :: trees, ¬ t.span.first.before a.span.first = true := by
  intro t ht
  obtain rfl | ht := List.mem_cons.1 ht
  · exact Pos.not_before_self _
  · have hbefore := (List.pairwise_cons.1 h.apart).1 t ht
    have hordered := (h.nested a List.mem_cons_self).not_before
    rw [Precedes] at hbefore
    rw [Pos.before_iff] at *
    omega

/-- No tree of a row ends behind the last one. -/
theorem last (h : Row ts (trees ++ [b])) : ∀ t ∈ trees ++ [b], ¬ b.span.last.before t.span.last = true := by
  intro t ht
  obtain ht | ht := List.mem_append.1 ht
  · have hbefore := (List.pairwise_append.1 h.apart).2.2 t ht b (List.mem_singleton_self b)
    have hordered := (h.nested b (by simp)).not_before
    rw [Precedes] at hbefore
    rw [Pos.before_iff] at *
    omega
  · rw [List.mem_singleton.1 ht]
    exact Pos.not_before_self _

/-- The trees of a row under one node. -/
theorem node (h : Row ts trees) (hspan : ¬ span.last.before span.first = true)
    (hcovers : ∀ t ∈ trees, span.Covers t.span) (hstarts : ∃ u ∈ ts, ¬ span.first.before u.span.first = true)
    (hends : ∃ u ∈ ts, ¬ u.span.last.before span.last = true) : Row ts [.node r span trees] where
  nested := List.forall_mem_singleton.2 (.node hspan hcovers h.apart h.nested)
  starts := List.forall_mem_singleton.2 hstarts
  ends := List.forall_mem_singleton.2 hends
  apart := List.pairwise_singleton _ _

end Row

/-- Tokens are a row of leaves. -/
theorem Lined.row (h : Lined ts) : Row ts (ts.map fun t => .leaf t.span) where
  nested := List.forall_mem_map.2 fun t ht => .node (h.ordered t ht) nofun .nil nofun
  starts := List.forall_mem_map.2 fun t ht => ⟨t, ht, Pos.not_before_self _⟩
  ends := List.forall_mem_map.2 fun t ht => ⟨t, ht, Pos.not_before_self _⟩
  apart := List.pairwise_map.2 h.pairwise

theorem Lined.first {t : Token} (h : Lined ts) (hfirst : ts.head? = some t) :
    ∀ u ∈ ts, ¬ u.span.first.before t.span.first = true := by
  obtain ⟨rest, rfl⟩ := List.head?_eq_some_iff.1 hfirst
  intro u hu
  have hmem := List.mem_map_of_mem (f := fun t : Token => SpanTree.leaf t.span) hu
  exact h.row.first _ hmem

theorem Lined.last {t : Token} (h : Lined ts) (hlast : ts.getLast? = some t) :
    ∀ u ∈ ts, ¬ t.span.last.before u.span.last = true := by
  obtain ⟨front, rfl⟩ := List.getLast?_eq_some_iff.1 hlast
  have hrow := h.row
  rw [List.map_append] at hrow
  intro u hu
  have hmem := List.mem_map_of_mem (f := fun t : Token => SpanTree.leaf t.span) hu
  rw [List.map_append] at hmem
  exact hrow.last _ hmem

/-- The role of a node does not matter. -/
theorem nested_plain (t : SpanTree) : t.plain.Nested ↔ t.Nested := by
  cases t
  exact ⟨Nested.role, Nested.role⟩

theorem precedes_plain (t u : SpanTree) : t.plain.Precedes u.plain ↔ t.Precedes u := by
  rw [Precedes, Precedes, span_plain, span_plain]

theorem row_plain : Row ts (trees.map plain) ↔ Row ts trees := by
  constructor
  · rintro ⟨hnested, hstarts, hends, hapart⟩
    simp only [List.forall_mem_map, List.pairwise_map, nested_plain, span_plain, precedes_plain] at *
    exact ⟨hnested, hstarts, hends, hapart⟩
  · rintro ⟨hnested, hstarts, hends, hapart⟩
    constructor <;> simpa only [List.forall_mem_map, List.pairwise_map, nested_plain, span_plain, precedes_plain]

theorem carries_nil : Carries used [] :=
  fun _ => ⟨nofun, nofun, nofun, .nil⟩

theorem Carries.mono (h : Carries used trees) (hsub : used.Sublist more) : Carries more trees := by
  intro hlined
  have hworded : (worded used).Sublist (worded more) := hsub.filter _
  exact (h (hlined.sublist hworded)).mono hworded.subset

theorem Carries.sublist (h : Carries used trees) (hsub : others.Sublist trees) : Carries used others :=
  fun hlined => (h hlined).sublist hsub

theorem Carries.append (h : Carries used trees) (h' : Carries more others) :
    Carries (used ++ more) (trees ++ others) := by
  intro hlined
  rw [worded, List.filter_append] at *
  exact (h (hlined.sublist (List.sublist_append_left _ _))).append
    (h' (hlined.sublist (List.sublist_append_right _ _))) hlined

/-- The roles of the nodes of a row do not matter. -/
theorem Carries.roles (h : Carries used trees) (hsame : others.map plain = trees.map plain) : Carries used others :=
  fun hlined => row_plain.1 (hsame ▸ row_plain.2 (h hlined))

/-- A token with a text of its own is a node. -/
theorem carries_token {t : Token} (h : t.kind.isLayout = false) : Carries [t] [.leaf t.span] := by
  intro hlined
  rw [worded_cons h] at *
  have hmem : t ∈ t :: worded [] := List.mem_cons_self
  have hrow : Row (t :: worded []) [] := ⟨nofun, nofun, nofun, .nil⟩
  exact hrow.node (hlined.ordered t hmem) nofun ⟨t, hmem, Pos.not_before_self _⟩ ⟨t, hmem, Pos.not_before_self _⟩

/-- Some trees of a row under a node that reaches from the first to the last tree of the row. -/
theorem Carries.joined (h : Carries used trees) (hfirst : trees.head? = some a) (hlast : trees.getLast? = some b)
    (hsub : others.Sublist trees) : Carries used [.node r (a.span.merge b.span) others] := by
  intro hlined
  have hrow := h hlined
  obtain ⟨rest, rfl⟩ := List.head?_eq_some_iff.1 hfirst
  obtain ⟨front, heq⟩ := List.getLast?_eq_some_iff.1 hlast
  have ha : a ∈ a :: rest := List.mem_cons_self
  have hb : b ∈ a :: rest := List.mem_of_getLast? hlast
  have hstart : ∀ t ∈ a :: rest, ¬ t.span.first.before a.span.first = true := hrow.first
  have hend : ∀ t ∈ a :: rest, ¬ b.span.last.before t.span.last = true := by
    rw [heq] at hrow ⊢
    exact hrow.last
  rw [Span.merge_eq (hstart b hb) (hend a ha)]
  refine (hrow.sublist hsub).node ?_ (fun t ht => ⟨hstart t (hsub.subset ht), hend t (hsub.subset ht)⟩)
    (hrow.starts a ha) (hrow.ends b hb)
  exact Pos.not_before_trans (hrow.nested a ha).not_before (hend a ha)

/-- The trees of a row under a node that reaches from the first to the last token. -/
theorem Carries.spanned {t u : Token} (h : Carries used trees) (hfirst : (worded used).head? = some t)
    (hlast : (worded used).getLast? = some u) : Carries used [.node r (t.span.merge u.span) trees] := by
  intro hlined
  have hrow := h hlined
  have ht := List.mem_of_mem_head? hfirst
  have hu := List.mem_of_getLast? hlast
  have hstart := hlined.first hfirst
  have hend := hlined.last hlast
  rw [Span.merge_eq (hstart u hu) (hend t ht)]
  refine hrow.node ?_ (fun c hc => ⟨?_, ?_⟩) ⟨t, ht, Pos.not_before_self _⟩ ⟨u, hu, Pos.not_before_self _⟩
  · exact Pos.not_before_trans (hlined.ordered t ht) (hend t ht)
  · obtain ⟨v, hv, hstarts⟩ := hrow.starts c hc
    exact Pos.not_before_trans (hstart v hv) hstarts
  · obtain ⟨v, hv, hends⟩ := hrow.ends c hc
    exact Pos.not_before_trans hends (hend v hv)

/-- A row between two tokens under a node that reaches from one to the other. -/
theorem carries_between {t u : Token} (ht : t.kind.isLayout = false) (hu : u.kind.isLayout = false)
    (h : Carries used trees) : Carries (t :: (used ++ [u])) [.node r (t.span.merge u.span) trees] := by
  refine (h.mono (by grind)).spanned (by rw [worded_cons ht]; rfl) ?_
  rw [worded_cons ht, worded, List.filter_append, List.getLast?_cons, List.getLast?_append]
  simp [hu]

/-- A tree behind a token under a node that starts with the token. -/
theorem carries_behind {t : Token} (ht : t.kind.isLayout = false) (h : Carries used [a]) :
    Carries (t :: used) [.node r (t.span.merge a.span) [a]] :=
  ((carries_token ht).append h).joined rfl rfl (List.sublist_append_right _ _)

/-- A tree and a row behind it under a node that ends with a token behind both. -/
theorem carries_closed {t : Token} (ht : t.kind.isLayout = false) (h : Carries used [a]) (h' : Carries more trees) :
    Carries (used ++ (more ++ [t])) [.node r (a.span.merge t.span) (a :: trees)] := by
  have hrow := h.append (h'.append (carries_token ht))
  refine hrow.joined rfl (b := .leaf t.span) (by simp [List.getLast?_cons]) ?_
  rw [List.singleton_append, ← List.cons_append]
  exact List.sublist_append_left _ _

/-- A row over the tokens from one state to a later one, under a node from the span ahead of the first state to the
last one behind the second. -/
theorem carries_walked {s s' : ParseState} (hwalks : s.Walks used s') (hne : used ≠ [])
    (h : Carries used trees) : Carries used [.node r (s.peek.span.merge s'.last) trees] := by
  have hworded := worded_eq_self hwalks.worded
  cases hused : used with
  | nil => exact absurd hused hne
  | cons t rest =>
      rw [hused] at hwalks h hworded
      obtain ⟨u, hlast⟩ := Option.ne_none_iff_exists'.1 (mt List.getLast?_eq_none_iff.1 (List.cons_ne_nil t rest))
      have hend : s'.last = u.span := by rw [hwalks.last, hlast]; rfl
      rw [hwalks.toReads.peek_of_cons, hend]
      exact h.spanned (by rw [hworded]; rfl) (by rw [hworded, hlast])

end

end ViewSync
