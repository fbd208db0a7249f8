import ViewSync.Proofs.View.Declarations

/-!
# ViewSync.Proofs.View.Resolution

What a name that is written without the declaring word refers to. The scope pass takes the methods of a class
for bound in the class, though a method is no variable. No other name that it takes for bound refers to
nothing.

* `Script.Visible` — a script has a variable of a name at a point of its text;
* `Scope.MethodFirst` — a method is the first to bind a name at a point of a source;
* `plain_writes_visible` — a name that is written plainly is visible unless a method came first, and if one did,
  it is visible only by a function, a class or a parameter;
* `sibling_write_not_visible` — a local with the name of a method in front is written and nowhere declared.
-/

namespace ViewSync

open Scope

/-! ## variables of a script -/

namespace Binder

/-- The names of functions, classes and parameters. Methods are reached through objects only. -/
def named {τ : Type} : Binder τ → List String
  | definition name => [name]
  | parameters names => names
  | method _ => []
  | target _ _ => []

/-- The names that are written with the declaring word. -/
def introduced : Binder Bool → List String
  | target true names => names
  | _ => []

end Binder

namespace Script

/-- A function, a class or a parameter has the name, in the scope or in one around it. Where it stands in the
text does not matter. -/
def Named (ps : List (Place (Binder Bool))) (scope : List Nat) (x : String) : Prop :=
  ∃ q ∈ ps, q.scope <+: scope ∧ x ∈ q.item.named

/-- The name is introduced behind some places, in the scope or in one around it. -/
def Introduced (before : List (Place (Binder Bool))) (scope : List Nat) (x : String) : Prop :=
  ∃ q ∈ before, q.scope <+: scope ∧ x ∈ q.item.introduced

/-- There is a variable of the name in a scope of a script, behind some of its places. -/
def Visible (ps before : List (Place (Binder Bool))) (scope : List Nat) (x : String) : Prop :=
  Named ps scope x ∨ Introduced before scope x

instance (ps : List (Place (Binder Bool))) (scope : List Nat) (x : String) :
    Decidable (Named ps scope x) :=
  inferInstanceAs (Decidable (∃ q ∈ ps, q.scope <+: scope ∧ x ∈ q.item.named))

end Script

/-! ## the first to bind a name -/

namespace Scope

variable {table : Replacements} {before : List (Place (Binder Span))} {scope : List Nat} {x : String}

/-- Of all that binds a name in a scope and around it, behind some places, a method is first. -/
def MethodFirst (before : List (Place (Binder Span))) (scope : List Nat) (x : String) : Prop :=
  ∃ l scope' l', before = l ++ ⟨scope', .method x⟩ :: l' ∧ scope' <+: scope ∧
    ∀ q ∈ l, q.scope <+: scope → x ∉ q.item.names

/-- A name that is bound and not replaced has a first binder. -/
theorem Bound.exists_first (h : Bound table before scope x) (hx : table.contains x = false) :
    ∃ l p l', before = l ++ p :: l' ∧ p.scope <+: scope ∧ x ∈ p.item.names ∧
      ∀ q ∈ l, q.scope <+: scope → x ∉ q.item.names := by
  obtain h | ⟨q, hq, hscope, hmem⟩ := h
  · exact absurd h (Bool.eq_false_iff.1 hx)
  · obtain ⟨p, hfind⟩ : ∃ p, before.find? (fun q => q.scope <+: scope ∧ x ∈ q.item.names) = some p :=
      Option.isSome_iff_exists.1 (List.find?_isSome.2 ⟨q, hq, decide_eq_true ⟨hscope, hmem⟩⟩)
    obtain ⟨hp, l, l', heq, hl⟩ := List.find?_eq_some_iff_append.1 hfind
    obtain ⟨hpscope, hpmem⟩ := of_decide_eq_true hp
    refine ⟨l, p, l', heq, hpscope, hpmem, fun q hq hqscope hqmem => ?_⟩
    simpa [hqscope, hqmem] using hl q hq

/-- The first binder of a name stands where the name is not bound. -/
theorem not_bound_of_first {l : List (Place (Binder Span))} {scope' : List Nat}
    (hx : table.contains x = false) (hscope : scope' <+: scope)
    (hl : ∀ q ∈ l, q.scope <+: scope → x ∉ q.item.names) : ¬ Bound table l scope' x := by
  rintro (h | ⟨q, hq, hqscope, hqmem⟩)
  · exact absurd h (Bool.eq_false_iff.1 hx)
  · exact hl q hq (hqscope.trans hscope) hqmem

end Scope

/-! ## plain writes -/

section

variable {m : Module} {table : Replacements} {ds : Declarations} {before : List (Place (Binder Span))}
  {scope : List Nat} {span : Span} {names : List String} {x : String}

/-- A name that is not replaced is written as it is. -/
theorem Replacements.identifier_eq (hx : table.contains x = false) : table.identifier x = x := by
  have hnone : table.entries.find? (·.1 == x) = none := by
    simpa [Replacements.contains] using hx
  rw [Replacements.identifier, Replacements.get?, hnone]
  rfl

/-- What is the first to bind a name is a variable in the script, unless it is a method. -/
theorem visible_of_first {l l' : List (Place (Binder Span))} {p : Place (Binder Span)}
    (hds : analyze m table = .ok ds) (hx : table.contains x = false)
    (hat : TargetAt (bindings m) (l ++ p :: l') scope span names) (hscope : p.scope <+: scope)
    (hmem : x ∈ p.item.names) (hfirst : ∀ q ∈ l, q.scope <+: scope → x ∉ q.item.names)
    (hmethod : p.item ≠ .method x) :
    Script.Visible (Lower.emittedPlaces ⟨table, ds⟩ (bindings m))
      (Lower.emittedPlaces ⟨table, ds⟩ (l ++ p :: l')) scope x := by
  obtain ⟨after, hplaces⟩ := hat
  have hin : p ∈ bindings m := by simp [hplaces]
  obtain ⟨scope', binder⟩ := p
  cases binder with
  | definition name =>
      exact .inl ⟨_, List.mem_map_of_mem hin, hscope, hmem⟩
  | parameters params =>
      refine .inl ⟨_, List.mem_map_of_mem hin, hscope, ?_⟩
      exact List.mem_map.2 ⟨x, hmem, Replacements.identifier_eq hx⟩
  | method name =>
      rw [List.mem_singleton.1 hmem] at hmethod
      exact absurd rfl hmethod
  | target span' names' =>
      have hat' : TargetAt (bindings m) l scope' span' names' :=
        ⟨l' ++ _ :: after, by rw [hplaces, List.append_assoc]; rfl⟩
      have hmarked := marked_of_not_bound hds hat' hmem (not_bound_of_first hx hscope hfirst)
      refine .inr ⟨_, List.mem_map_of_mem (a := ⟨scope', .target span' names'⟩) (by simp), hscope, ?_⟩
      simp only [Lower.emitted, hmarked]
      exact List.mem_map.2 ⟨x, hmem, Replacements.identifier_eq hx⟩

/-- What introduces a name binds it where it is not bound. -/
theorem not_bound_of_introduced {l after : List (Place (Binder Span))} {p : Place (Binder Span)}
    (distinct : (targetSpans (bindings m)).Nodup) (hds : analyze m table = .ok ds)
    (hplaces : bindings m = l ++ p :: after) (hx : x ∈ (Lower.emitted ⟨table, ds⟩ p.item).introduced) :
    x ∈ p.item.names ∧ ¬ Bound table l p.scope x := by
  obtain ⟨scope, binder⟩ := p
  cases binder with
  | target span names =>
      simp only [Lower.emitted] at hx
      cases hmarked : ds.contains span with
      | false =>
          rw [hmarked] at hx
          cases hx
      | true =>
          rw [hmarked] at hx
          obtain ⟨y, hy, heq⟩ := List.mem_map.1 hx
          have hfree := (marked_iff distinct hds ⟨after, hplaces⟩).1 hmarked y hy
          have hkept : table.contains y = false := Bool.eq_false_iff.2 fun h => hfree (.inl h)
          obtain rfl : y = x := (Replacements.identifier_eq hkept).symm.trans heq
          exact ⟨hy, hfree⟩
  | _ => cases hx

/-- Where a method is the first to bind a name, the name is not introduced: it is bound from there on. -/
theorem not_introduced_of_methodFirst (distinct : (targetSpans (bindings m)).Nodup)
    (hds : analyze m table = .ok ds) (hat : TargetAt (bindings m) before scope span names)
    (hfirst : MethodFirst before scope x) :
    ¬ Script.Introduced (Lower.emittedPlaces ⟨table, ds⟩ before) scope x := by
  rintro ⟨q, hq, hqscope, hqmem⟩
  obtain ⟨p, hp, rfl⟩ := List.mem_map.1 hq
  obtain ⟨after, hplaces⟩ := hat
  obtain ⟨l, scope', l', rfl, hscope, hnone⟩ := hfirst
  obtain hp | hp := List.mem_append.1 hp
  · obtain ⟨u, v, rfl⟩ := List.append_of_mem hp
    rw [List.append_assoc, List.append_assoc] at hplaces
    exact hnone p (by simp) hqscope (not_bound_of_introduced distinct hds hplaces hqmem).1
  · obtain rfl | hp := List.mem_cons.1 hp
    · cases hqmem
    · obtain ⟨u, v, rfl⟩ := List.append_of_mem hp
      simp only [List.append_assoc, List.cons_append] at hplaces
      have hbetween : scope' <+: p.scope :=
        Outline.prefix_of_between (hplaces ▸ Outline.triple_sublist ..) (List.prefix_refl scope') hscope
      have hsplit : bindings m = (l ++ ⟨scope', .method x⟩ :: u) ++
          p :: (v ++ ⟨scope, .target span names⟩ :: after) := by
        rw [hplaces, List.append_assoc, List.cons_append]
      refine (not_bound_of_introduced distinct hds hsplit hqmem).2 ?_
      exact .inr ⟨⟨scope', .method x⟩, by simp, hbetween, List.mem_singleton_self x⟩

/-- In a script that is compiled from a source, a name that is written without the declaring word and is not
replaced is the name of a variable that is visible there, unless a method was the first to bind it. If one was,
then only a function, a class or a parameter can be that variable: the scope pass takes the method for one and
has nothing declared. -/
theorem plain_writes_visible {compiled : List CompiledItem} (h : translate m table = .ok compiled) :
    ∃ ds script, analyze m table = .ok ds ∧ compiled.map (·.source) = script.map Script.Stmt.render ∧
      Script.bindings script = Lower.emittedPlaces ⟨table, ds⟩ (bindings m) ∧
      ∀ before scope span names, TargetAt (bindings m) before scope span names →
        ds.contains span = false → ∀ x ∈ names, table.contains x = false →
        (¬ MethodFirst before scope x →
          Script.Visible (Script.bindings script) (Lower.emittedPlaces ⟨table, ds⟩ before) scope x) ∧
        ((targetSpans (bindings m)).Nodup → MethodFirst before scope x →
          (Script.Visible (Script.bindings script) (Lower.emittedPlaces ⟨table, ds⟩ before) scope x ↔
            Script.Named (Script.bindings script) scope x)) := by
  obtain ⟨ds, script, hds, htext, hbindings⟩ := script_of_translate h
  refine ⟨ds, script, hds, htext, hbindings, fun before scope span names hat hplain x hmem hx => ⟨?_, ?_⟩⟩
  · intro hmethod
    have hbound : Bound table before scope x := Decidable.byContradiction fun hfree =>
      Bool.false_ne_true (hplain.symm.trans (marked_of_not_bound hds hat hmem hfree))
    obtain ⟨l, p, l', rfl, hpscope, hpmem, hfirst⟩ := hbound.exists_first hx
    rw [hbindings]
    refine visible_of_first hds hx hat hpscope hpmem hfirst fun hitem => hmethod ?_
    exact ⟨l, p.scope, l', by rw [← hitem], hpscope, hfirst⟩
  · intro distinct hmethod
    exact or_iff_left (not_introduced_of_methodFirst distinct hds hat hmethod)

end

/-- A class with a method `x`, in front of a method that binds a local `x`. -/
def Sample.sibling : Module :=
  let at_ (line : Nat) : Span := .ofNumbers line 1 line 9
  let method (line : Nat) (name : String) (body : Block) : Stmt :=
    .function (.mk (at_ line) ⟨name, at_ line⟩ [.mk ⟨"self", at_ line⟩ none (at_ line)] [] body)
  let assign : Stmt := .assign (at_ 5) [.name (at_ 5) "x"] (.none (at_ 5))
  ⟨[.class_ (.mk (at_ 1) ⟨"A", at_ 1⟩ [] [] [method 2 "x" [.pass (at_ 3)], method 4 "f" [assign]])], at_ 1⟩

/-- The local is written plainly, and no variable of its name is there. -/
theorem sibling_write_not_visible :
    ∃ ds script, analyze Sample.sibling .default = .ok ds ∧
      script.map Script.Stmt.render =
        ["class A \x7b\n\tx(self) \x7b\n\t\t// pass\n\t\x7d\n\tf(self) \x7b\n\t\tx = null;\n\t\x7d\n\x7d"] ∧
      ds.contains (.ofNumbers 5 1 5 9) = false ∧
      ¬ Script.Visible (Script.bindings script)
        (Lower.emittedPlaces ⟨.default, ds⟩ ((bindings Sample.sibling).take 5)) [0, 1] "x" := by
  have htranslate : translate Sample.sibling .default = .ok _ := rfl
  obtain ⟨ds, script, hds, htext, hbindings, hwrites⟩ := plain_writes_visible htranslate
  obtain rfl : Declarations.empty = ds := Except.ok.inj hds
  refine ⟨.empty, script, rfl, htext.symm, rfl, ?_⟩
  have hfirst : MethodFirst ((bindings Sample.sibling).take 5) [0, 1] "x" :=
    ⟨(bindings Sample.sibling).take 1, [0], _, rfl, by decide, by decide⟩
  obtain ⟨-, hnamed⟩ := hwrites ((bindings Sample.sibling).take 5) [0, 1] (.ofNumbers 5 1 5 9) ["x"] ⟨_, rfl⟩
    rfl "x" (by decide) (by decide)
  rw [hnamed (by decide) hfirst, hbindings]
  decide

end ViewSync
