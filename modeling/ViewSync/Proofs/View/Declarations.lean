import ViewSync.Proofs.View.Emission
import ViewSync.Proofs.View.Marks
import ViewSync.View.Compile

/-!
# ViewSync.Proofs.View.Declarations

Which targets declare, from the marks of the scope pass to the text: `declares_iff_unbound` says of every
target of a source when it is marked, when a source is refused for a target, and that compiled text has the
declaring word at just the marked targets.
-/

namespace ViewSync

open Scope

/-- The text of a source that is compiled is that of a script whose bindings stand where those of the source
do. -/
theorem script_of_translate {m : Module} {table : Replacements} {compiled : List CompiledItem}
    (h : translate m table = .ok compiled) :
    ∃ ds script, analyze m table = .ok ds ∧ compiled.map (·.source) = script.map Script.Stmt.render ∧
      Script.bindings script = Lower.emittedPlaces ⟨table, ds⟩ (bindings m) := by
  rw [translate] at h
  cases hlowered : Lower.module_ m table with
  | error r =>
      rw [hlowered] at h
      cases h
  | ok lowered =>
      rw [hlowered] at h
      cases h
      obtain ⟨ds, hds, hbindings⟩ := Lower.bindings_of_module hlowered
      refine ⟨ds, lowered.map (·.script), hds, ?_, hbindings⟩
      simp [Lower.Item.compiled, Function.comp_def]

namespace Script

/-- An assignment starts with the declaring word just when its target is declared. -/
theorem render_assign (declared : Bool) (target value : Expr) :
    (Stmt.assign declared target value).render =
      (if declared then "let " else "") ++ target.render ++ " = " ++ value.render ++ ";" := by
  rw [Stmt.render, Fragment.assign, declaredText]
  cases declared <;> simp [Fragment.declare]

/-- The head of a loop starts with the declaring word just when what it binds is declared. -/
theorem render_for (declared : Bool) (binding : Binding) (iteration : Iteration) (source : Expr)
    (body : List Stmt) :
    ∃ rest, (Stmt.for_ declared binding iteration source body).render =
      "for (" ++ (if declared then "let " else "") ++ binding.render ++ rest := by
  have hhead : ∃ rest, (Stmt.for_ declared binding iteration source body).render =
      "for (" ++ declaredText declared binding.render ++ rest := by
    rw [Stmt.render]
    cases iteration <;>
      simp only [loopText, Fragment.forValues, Fragment.forKeys, Fragment.forEntries, String.append_assoc] <;>
      exact ⟨_, rfl⟩
  obtain ⟨rest, hrest⟩ := hhead
  refine ⟨rest, hrest.trans ?_⟩
  rw [declaredText]
  cases declared
  · rfl
  · simp only [Fragment.declare, if_true, String.append_assoc]

end Script

/-- The scope pass marks a target when none of its names is bound where it stands. It refuses a source just when
a target has both bound and unbound names, and for no other reason. In a script that is compiled from it the
targets stand as in the source, declared where they are marked; the text has the declaring word in front of just
those. -/
theorem declares_iff_unbound (m : Module) (table : Replacements)
    (distinct : (targetSpans (bindings m)).Nodup) :
    (∀ ds, analyze m table = .ok ds → ∀ before scope span names,
      TargetAt (bindings m) before scope span names →
      (ds.contains span = true ↔ ∀ x ∈ names, ¬ Bound table before scope x)) ∧
    ((∃ names span, analyze m table = .error (.mixedDeclaration names span)) ↔
      ∃ before scope span names, TargetAt (bindings m) before scope span names ∧
        Mixed table before scope names) ∧
    (∀ r, analyze m table = .error r → ∃ names span, r = .mixedDeclaration names span) ∧
    (∀ compiled, translate m table = .ok compiled →
      ∃ ds script, analyze m table = .ok ds ∧ compiled.map (·.source) = script.map Script.Stmt.render ∧
        Script.bindings script = Lower.emittedPlaces ⟨table, ds⟩ (bindings m)) ∧
    (∀ declared target value, (Script.Stmt.assign declared target value).render =
      (if declared then "let " else "") ++ target.render ++ " = " ++ value.render ++ ";") ∧
    ∀ declared binding iteration source body, ∃ rest,
      (Script.Stmt.for_ declared binding iteration source body).render =
        "for (" ++ (if declared then "let " else "") ++ binding.render ++ rest := by
  refine ⟨fun ds hds _ _ _ _ hat => marked_iff distinct hds hat, ⟨?_, ?_⟩, fun r hr => ?_,
    fun _ => script_of_translate, Script.render_assign, Script.render_for⟩
  · rintro ⟨names, span, herror⟩
    obtain ⟨before, scope, span', names', hat, hmixed, -⟩ := analyze_error herror
    exact ⟨before, scope, span', names', hat, hmixed⟩
  · rintro ⟨before, scope, span, names, hat, hmixed⟩
    cases hresult : analyze m table with
    | ok ds => exact absurd hmixed ((analyze_ok hresult).1 before scope span names hat)
    | error r =>
        obtain ⟨-, -, span', names', -, -, rfl⟩ := analyze_error hresult
        exact ⟨names', span', rfl⟩
  · obtain ⟨-, -, span, names, -, -, rfl⟩ := analyze_error hr
    exact ⟨names, span, rfl⟩

/-- A function with a parameter `a` that binds `x`, goes through pairs and binds `y` in the loop and behind
it. -/
def Sample.pairs : Module :=
  let at_ (line : Nat) : Span := .ofNumbers line 1 line 9
  let assign (line : Nat) (x : String) : Stmt :=
    .assign (at_ line) [.name (at_ line) x] (.none (at_ line))
  let loop : Stmt := .for_ (at_ 3) (.tuple (at_ 3) [.name (at_ 3) "k", .name (at_ 3) "v"])
    (.name (at_ 3) "a") [assign 4 "x", assign 5 "y"] none
  let body : Block := [assign 2 "x", loop, assign 6 "y"]
  ⟨[.function (.mk (at_ 1) ⟨"f", at_ 1⟩ [.mk ⟨"a", at_ 1⟩ none (at_ 1)] [] body)], at_ 1⟩

/-- In the loop `x` is bound and not declared again; behind the loop `y` is not bound, and it is declared. -/
theorem pairs_declared :
    ∃ ds, analyze Sample.pairs .default = .ok ds ∧ ds.contains (.ofNumbers 4 1 4 9) = false ∧
      ds.contains (.ofNumbers 6 1 6 9) = true := by
  obtain ⟨hmarks, -⟩ := declares_iff_unbound Sample.pairs .default (by decide)
  have hmark := hmarks _ rfl
  have hinside := hmark ((bindings Sample.pairs).take 4) [0, 0] (.ofNumbers 4 1 4 9) ["x"] ⟨_, rfl⟩
  have hbehind := hmark ((bindings Sample.pairs).take 6) [0] (.ofNumbers 6 1 6 9) ["y"] ⟨_, rfl⟩
  refine ⟨_, rfl, ?_, hbehind.2 (by decide)⟩
  exact Bool.eq_false_iff.2 fun h => absurd (hinside.1 h) (by decide)

end ViewSync
