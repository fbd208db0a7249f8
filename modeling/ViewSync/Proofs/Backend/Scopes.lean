import ViewSync.Proofs.Backend.Construction

/-!
# ViewSync.Proofs.Backend.Scopes

The batch that an operation keeps open on a component is closed by that operation alone. As long as such a
batch is open, or the component is destroyed (`Backend.Withheld`), every further batch of an operation is
refused on the component before it begins, so nothing that the program does closes the batch
(`keepsScope_execute`); and what is kept back by it is not told (`Backend.Withheld.untold`).
-/

namespace ViewSync

variable {Code Store α : Type}

/-! ## what is kept back -/

namespace Backend

/-- Changes of a component are kept back by the batch of an operation, unless the component is destroyed. -/
def Withheld (b : Backend Code Store) (c : ComponentId) : Prop :=
  ∃ k, b.component? c = some k ∧
    (k.phase = .destroyed ∨ ∃ batch, k.batch = some batch ∧ batch.holder = .scope)

variable {b : Backend Code Store} {c : ComponentId} {a : Act Code Store}

/-- Only the act that ends the batch of an operation, or the construction, changes that. -/
theorem Withheld.apply (h : b.Withheld c) (coherent : Coherent b) (activate : a ≠ .activate c)
    (commit : a ≠ .commit c .scope) (drop : a ≠ .drop c .scope) : (a.apply b).Withheld c := by
  obtain ⟨k, hk, hheld⟩ := h
  obtain ⟨k', hk', fate⟩ := fate_effect coherent (effect_apply b a) hk
  refine ⟨k', hk', ?_⟩
  cases fate with
  | same => exact hheld
  | retired => exact .inl rfl
  | released => exact .inl rfl
  | touched touch =>
      obtain hphase | ⟨batch, hbatch, hscope⟩ := hheld
      · obtain hsame | ⟨hact, -⟩ := touch.phase
        · exact .inl (hsame.trans hphase)
        · exact absurd hact activate
      · cases touch with
        | activated => exact absurd rfl activate
        | buffered live within =>
            rw [hbatch] at within
            cases within
            exact .inr ⟨_, rfl, hscope⟩
        | written live unbatched => rw [hbatch] at unbatched; cases unbatched
        | opened live unbatched => rw [hbatch] at unbatched; cases unbatched
        | committed within =>
            rw [hbatch] at within
            cases within
            exact absurd (hscope ▸ rfl) commit
        | dropped within =>
            rw [hbatch] at within
            cases within
            exact absurd (hscope ▸ rfl) drop
        | listened | unlistened => exact .inr ⟨batch, hbatch, hscope⟩

/-- Nothing is told of what is kept back. -/
theorem Withheld.untold (h : b.Withheld c) (coherent : Coherent b) {k k' : Component Code}
    {d : Option (Delivery Code)} (component : b.component? c = some k) (touch : Touch c k a k' d)
    (commit : a ≠ .commit c .scope) : d = none := by
  obtain ⟨k₁, hk₁, hheld⟩ := h
  rw [component] at hk₁
  cases hk₁
  have hbatch : k.phase ≠ .destroyed → ∃ batch, k.batch = some batch ∧ batch.holder = .scope :=
    hheld.resolve_left
  cases touch with
  | written live unbatched =>
      obtain ⟨batch, hbatch, -⟩ := hbatch live
      rw [hbatch] at unbatched
      cases unbatched
  | committed within =>
      obtain hphase | ⟨batch, hbatch, hscope⟩ := hheld
      · rw [coherent.unbatched component hphase] at within
        cases within
      · rw [hbatch] at within
        cases within
        exact absurd (hscope ▸ rfl) commit
  | _ => rfl

/-- A batch of an operation is refused while there is one, and on a destroyed component. -/
theorem Withheld.openBatch_eq (h : b.Withheld c) : ∃ e, b.openBatch c .scope {} = .error e := by
  obtain ⟨k, hk, hheld⟩ := h
  obtain herror | ⟨k₁, hk₁, live, unbatched, -⟩ := b.openBatch_cases c .scope {}
  · exact herror
  · rw [hk] at hk₁
    cases hk₁
    obtain hphase | ⟨batch, hbatch, -⟩ := hheld
    · exact absurd hphase live
    · rw [hbatch] at unbatched
      cases unbatched

end Backend

/-! ## runs that keep batches of operations -/

/-- From every state in which the changes of a component are kept back, the run leaves the batch that does that
alone, unless a construction of the component ends in it. -/
def Run.KeepsScope (c : ComponentId) (x : Run Code Store α) : Prop :=
  ∀ b, Backend.Coherent b → b.Withheld c → .activate c ∉ x.acts b →
    .commit c .scope ∉ x.acts b ∧ .drop c .scope ∉ x.acts b

namespace Run

variable {c : ComponentId}

/-- Any act but those that end the batch. -/
theorem KeepsScope.act {a : Act Code Store} {next : Run Code Store α} (commit : a ≠ .commit c .scope)
    (drop : a ≠ .drop c .scope) (h : next.KeepsScope c) : (Run.act a next).KeepsScope c := by
  intro b coherent held hopen
  obtain ⟨hactivate, hrest⟩ := not_or.1 (List.mem_cons.not.1 hopen)
  obtain ⟨hcommit, hdrop⟩ :=
    h (a.apply b) (coherent.apply a) (held.apply coherent (Ne.symm hactivate) commit drop) hrest
  exact ⟨List.not_mem_cons_of_ne_of_not_mem commit.symm hcommit,
    List.not_mem_cons_of_ne_of_not_mem drop.symm hdrop⟩

/-- Any act of a kind of acts that do not end the batch. -/
theorem KeepsScope.act_of {kind : Act Code Store → Bool} {a : Act Code Store} {next : Run Code Store α}
    (commit : kind (.commit c .scope) = false) (drop : kind (.drop c .scope) = false) (ha : kind a = true)
    (h : next.KeepsScope c) : (Run.act a next).KeepsScope c := by
  refine h.act (fun heq => ?_) (fun heq => ?_)
  · rw [heq, commit] at ha
    cases ha
  · rw [heq, drop] at ha
    cases ha

/-- Behind acts that leave the batch alone it is still open. -/
theorem withheld_play {b : Backend Code Store} {acts : List (Act Code Store)} (h : b.Withheld c)
    (coherent : Backend.Coherent b) (activate : .activate c ∉ acts) (commit : .commit c .scope ∉ acts)
    (drop : .drop c .scope ∉ acts) : (b.play acts).Withheld c := by
  induction acts generalizing b with
  | nil => exact h
  | cons a acts ih =>
      simp only [List.mem_cons, not_or] at activate commit drop
      have hfirst := h.apply coherent (Ne.symm activate.1) (Ne.symm commit.1) (Ne.symm drop.1)
      exact ih hfirst (coherent.apply a) activate.2 commit.2 drop.2

theorem closed_keepsScope (c : ComponentId) :
    Closed fun α (x : Run Code Store α) => x.KeepsScope c where
  ended _ _ _ _ _ := ⟨List.not_mem_nil, List.not_mem_nil⟩
  look h b := h b b
  act common h := .act_of rfl rfl common h
  andThen {α β x f} hx hf b coherent held hopen := by
    rw [acts_andThen, finish_eq_play] at hopen ⊢
    obtain ⟨hfirst, hsecond⟩ := not_or.1 (List.mem_append.not.1 hopen)
    obtain ⟨hcommit, hdrop⟩ := hx b coherent held hfirst
    have hheld := withheld_play held coherent hfirst hcommit hdrop
    obtain ⟨hcommit', hdrop'⟩ := hf _ _ (coherent.play _) hheld hsecond
    exact ⟨List.mem_append.not.2 (not_or.2 ⟨hcommit, hcommit'⟩),
      List.mem_append.not.2 (not_or.2 ⟨hdrop, hdrop'⟩)⟩

end Run

section

variable {calls : Callbacks Code (Run Code Store)} {c : ComponentId}
  (h : calls.Each fun α (x : Run Code Store α) => x.KeepsScope c)

include h

/-- A batch on the component does not begin, and one on another component is closed there. -/
theorem keepsScope_batch {ε : Type} (c₁ : ComponentId) (fail : ComponentError → ε)
    {body : Run Code Store (Except ε α)} (hbody : body.KeepsScope c) :
    (calls.batch c₁ fail body).KeepsScope c := by
  by_cases hc : c₁ = c
  · subst hc
    intro b _ held _
    obtain ⟨e, hopen⟩ := held.openBatch_eq
    have hrefused : (b.openBatch c₁ .scope {}).map (fun _ => ()) = .error e := by rw [hopen]; rfl
    have hacts : (calls.batch c₁ fail body).acts b = [.openBatch c₁ .scope {}] := by
      have hdoes : (calls.batch c₁ fail body).Does b [.openBatch c₁ .scope {}] (.error (fail e)) := by
        refine Run.Does.step ?_
        rw [hrefused]
        exact Run.does_pure _ _
      exact hdoes.acts_eq
    rw [hacts]
    simp
  · refine h.batch (Run.closed_keepsScope c) (fun {_ a next} bracketed hnext => ?_) hbody
    have hother : ∀ {a' : Act Code Store}, a'.brackets? = some c → a ≠ a' := by
      intro a' ha' heq
      rw [heq, ha'] at bracketed
      exact hc (Option.some.inj bracketed).symm
    exact Run.KeepsScope.act (hother rfl) (hother rfl) hnext

theorem keepsScope_create (s : SessionId) (kind : Kind Code) : (calls.create s kind).KeepsScope c :=
  have closed : Run.Closed fun α (x : Run Code Store α) => x.KeepsScope c := Run.closed_keepsScope c
  Callbacks.Each.create closed (fun id kind => keepsScope_batch h id _ (h.initKind closed kind id))
    (.act_of rfl rfl) s kind

theorem keepsScope_report (s : SessionId) (error : SessionError) : (calls.report s error).KeepsScope c :=
  h.report (Run.closed_keepsScope c) (keepsScope_create h) (.act (by simp) (by simp)) s error

end

/-- In the course of a program a batch of an operation is closed by that operation alone. -/
theorem keepsScope_execute (calls : Callbacks Code (Prog Code Store)) (leave : Store → Store → Store)
    (fuel : Nat) (p : Prog Code Store α) (c : ComponentId) : (p.execute calls leave fuel).KeepsScope c :=
  have closed : Run.Closed fun α (x : Run Code Store α) => x.KeepsScope c := Run.closed_keepsScope c
  closed.execute (fun _ heach => ⟨keepsScope_create heach, keepsScope_report heach,
    fun c₁ body => keepsScope_batch heach c₁ .component (heach.body body),
    heach.advance closed (keepsScope_report heach) (.act_of rfl rfl) _⟩) fuel p

/-! ## the code that a running program calls -/

namespace Callbacks

variable (calls : Callbacks Code (Prog Code Store)) (leave : Store → Store → Store) (fuel : Nat)

/-- The code that sets the first values of a component ends no construction of a component that is there, nor
the batch that is open on it. -/
theorem initKind_keeps (kind : Kind Code) (c' : ComponentId) {c : ComponentId} {b : Backend Code Store}
    (coherent : Backend.Coherent b) (held : b.Withheld c) :
    let acts := ((calls.running leave fuel).initKind kind c').acts b
    .activate c ∉ acts ∧ .abandon c ∉ acts ∧ .commit c .scope ∉ acts ∧ .drop c .scope ∉ acts := by
  intro acts
  have hwhole : (calls.running leave fuel).Each fun α (x : Run Code Store α) => x.Whole calls.viewOf :=
    (closed_whole calls.viewOf).each_running fun p => course_execute calls leave fuel p
  have hcourse : Course calls.viewOf b acts := hwhole.initKind (closed_whole _) kind c' b
  have hthere : c < b.nextComponent := by
    obtain ⟨k, hk, -⟩ := held
    exact coherent.component_lt hk
  have hopen : ∀ {a}, a = .activate c ∨ a = .abandon c → a ∉ acts := fun ha hmem =>
    Nat.not_le_of_lt hthere (Backend.le_of_concludes hcourse hmem ha)
  have hkeeps : (calls.running leave fuel).Each fun α (x : Run Code Store α) => x.KeepsScope c :=
    (Run.closed_keepsScope c).each_running fun p => keepsScope_execute calls leave fuel p c
  have hinit := hkeeps.initKind (Run.closed_keepsScope c) kind c'
  obtain ⟨hcommit, hdrop⟩ := hinit b coherent held (hopen (.inl rfl))
  exact ⟨hopen (.inl rfl), hopen (.inr rfl), hcommit, hdrop⟩

end Callbacks

end ViewSync
