import Mathlib.Data.List.Induction
import ViewSync.Backend.Program

/-!
# ViewSync.Proofs.Backend.Course

The course of a run: the list of its acts. The state at a point of a run is what the acts up to that point
make of the first state, so a point is a prefix of the course, and what is proved of every prefix holds at
every moment at which code of the program may look at the state, in the middle of any call.

* `finish_eq_play` — a run ends in the state that its course leads to;
* `play_induction` — what holds at first and is kept by each act of a course holds at every point;
* `Run.Does` — a run carries out certain acts and ends with a value, put together run by run;
* `Course` — the shape of a course: what is done between the creation of a component and the end of its
  construction is a course again;
* `Run.Whole` — the runs whose acts have that shape from every state, closed under `andThen`.
-/

namespace ViewSync

variable {Code Store α β : Type}

/-- The state before anything happened. -/
def Backend.init (store : Store) : Backend Code Store := { store := store }

/-- The acts of a program that is carried out from the beginning, with those of all the code it calls. -/
def Prog.course (calls : Callbacks Code (Prog Code Store)) (leave : Store → Store → Store) (fuel : Nat)
    (p : Prog Code Store α) (store : Store) : List (Act Code Store) :=
  (p.execute calls leave fuel).acts (.init store)

/-! ## where an act is in a course -/

/-- A point of two courses, one after the other, is one of the first or of the second. -/
theorem prefix_append_cases {γ : Type} {pre acts more : List γ} (h : pre <+: acts ++ more) :
    pre <+: acts ∨ ∃ pre', pre = acts ++ pre' ∧ pre' <+: more := by
  obtain hin | ⟨pre', rfl⟩ := List.prefix_or_prefix_of_prefix h (List.prefix_append acts more)
  · exact .inl hin
  · exact .inr ⟨pre', rfl, (List.prefix_append_right_inj acts).1 h⟩

/-- An act of two courses, one after the other, is in one of them. -/
theorem prefix_concat_append {γ : Type} {pre acts more : List γ} {a : γ}
    (h : pre ++ [a] <+: acts ++ more) :
    pre ++ [a] <+: acts ∨ ∃ pre', pre = acts ++ pre' ∧ pre' ++ [a] <+: more := by
  obtain hin | hbehind := List.prefix_or_prefix_of_prefix h (List.prefix_append acts more)
  · exact .inl hin
  · obtain heq | ⟨pre', rfl⟩ := List.prefix_concat_iff.1 hbehind
    · exact .inl (heq ▸ List.prefix_refl _)
    · refine .inr ⟨pre', rfl, ?_⟩
      rwa [List.append_assoc, List.prefix_append_right_inj] at h

/-- The act at a point of a course is one. -/
theorem eq_of_prefix_concat {γ : Type} {pre acts : List γ} {a a' : γ} (h : pre ++ [a] <+: acts)
    (h' : pre ++ [a'] <+: acts) : a = a' := by
  obtain ⟨rest, rfl⟩ := h
  rw [List.append_assoc, List.prefix_append_right_inj] at h'
  exact (List.cons_prefix_cons.1 h').1.symm

/-- An act of a course that has another one in it is in front of that, is it, or is behind it. -/
theorem prefix_append_cons {γ : Type} {pre inner rest : List γ} {a last : γ}
    (h : pre ++ [a] <+: inner ++ last :: rest) :
    pre ++ [a] <+: inner ∨ (pre = inner ∧ a = last) ∨
      ∃ pre', pre = inner ++ last :: pre' ∧ pre' ++ [a] <+: rest := by
  obtain hin | ⟨pre', rfl, hbehind⟩ := prefix_concat_append h
  · exact .inl hin
  · cases pre' with
    | nil => exact .inr (.inl ⟨List.append_nil inner, (List.cons_prefix_cons.1 hbehind).1⟩)
    | cons x pre' =>
        obtain ⟨rfl, hrest⟩ := List.cons_prefix_cons.1 hbehind
        exact .inr (.inr ⟨pre', rfl, hrest⟩)

namespace Backend

/-! ## playing acts -/

@[simp] theorem play_nil (b : Backend Code Store) : b.play [] = b := rfl

@[simp] theorem play_cons (b : Backend Code Store) (a : Act Code Store) (acts : List (Act Code Store)) :
    b.play (a :: acts) = (a.apply b).play acts := rfl

@[simp] theorem play_append (b : Backend Code Store) (acts more : List (Act Code Store)) :
    b.play (acts ++ more) = (b.play acts).play more := by
  simp [play, List.foldl_append]

/-- What holds at first and is kept by each act of a course holds at every point of it. -/
theorem play_induction {b : Backend Code Store} {acts : List (Act Code Store)}
    {I : List (Act Code Store) → Backend Code Store → Prop} (start : I [] b)
    (step : ∀ pre a, pre ++ [a] <+: acts → I pre (b.play pre) →
      I (pre ++ [a]) (a.apply (b.play pre)))
    {pre : List (Act Code Store)} (h : pre <+: acts) : I pre (b.play pre) := by
  induction pre using List.reverseRecOn with
  | nil => exact start
  | append_singleton pre a ih =>
      have hpre : pre <+: acts := (List.prefix_append pre [a]).trans h
      simpa using step pre a h (ih hpre)

/-- What each act keeps from some point on holds at every later point. -/
theorem play_later {b : Backend Code Store} {acts pre : List (Act Code Store)}
    {P : Backend Code Store → Prop} (start : P (b.play pre))
    (step : ∀ mid a, pre <+: mid → mid ++ [a] <+: acts → P (b.play mid) → P (a.apply (b.play mid)))
    {mid : List (Act Code Store)} (hpre : pre <+: mid) (hmid : mid <+: acts) : P (b.play mid) := by
  obtain ⟨more, rfl⟩ := hpre
  induction more using List.reverseRecOn with
  | nil => simpa using start
  | append_singleton more a ih =>
      rw [← List.append_assoc] at hmid ⊢
      have hmore : pre ++ more <+: acts := (List.prefix_append _ [a]).trans hmid
      simpa using step (pre ++ more) a (List.prefix_append _ _) hmid (ih hmore)

end Backend

namespace Run

/-! ## endings, last states and acts -/

/-- The ending of a run. -/
def ending (x : Run Code Store α) (b : Backend Code Store) : Ending α := (x.finish b).1

/-- The last state of a run. -/
def last (x : Run Code Store α) (b : Backend Code Store) : Backend Code Store := (x.finish b).2

/-- A run ends in the state that its course leads to. -/
theorem finish_eq_play (x : Run Code Store α) (b : Backend Code Store) :
    x.last b = b.play (x.acts b) := by
  induction x generalizing b with
  | ended ending => rfl
  | look next ih => exact ih b b
  | act a next ih => exact ih (a.apply b)

theorem finish_andThen (x : Run Code Store α) (f : Ending α → Run Code Store β)
    (b : Backend Code Store) : (x.andThen f).finish b = (f (x.ending b)).finish (x.last b) := by
  induction x generalizing b with
  | ended ending => rfl
  | look next ih => exact ih b b
  | act a next ih => exact ih (a.apply b)

theorem acts_andThen (x : Run Code Store α) (f : Ending α → Run Code Store β)
    (b : Backend Code Store) :
    (x.andThen f).acts b = x.acts b ++ (f (x.ending b)).acts (x.last b) := by
  induction x generalizing b with
  | ended ending => rfl
  | look next ih => exact ih b b
  | act a next ih =>
      have h := ih (a.apply b)
      simp only [andThen, acts, List.cons_append]
      rw [h]
      rfl

theorem finish_read_bind (f : Backend Code Store → α) (g : α → Run Code Store β)
    (b : Backend Code Store) : (read f >>= g).finish b = (g (f b)).finish b := rfl

/-- After a value the second operation goes on from the state behind the first one. -/
theorem finish_bind_of_value {x : Run Code Store α} {b b' : Backend Code Store} {a : α}
    (h : x.finish b = (.value a, b')) (f : α → Run Code Store β) :
    (x >>= f).finish b = (f a).finish b' := by
  refine (finish_andThen x _ b).trans ?_
  rw [ending, last, h]

theorem acts_step_bind (a : Act Code Store) (answer : Backend Code Store → α)
    (f : α → Run Code Store β) (b : Backend Code Store) :
    (step a answer >>= f).acts b = a :: (f (answer b)).acts (a.apply b) := rfl

/-! ## runs that end with a value -/

/-- From the given state a run carries out the given acts and ends with the given value. -/
structure Does (x : Run Code Store α) (b : Backend Code Store) (acts : List (Act Code Store)) (a : α) :
    Prop where
  acts_eq : x.acts b = acts
  ending_eq : x.ending b = .value a

variable {b : Backend Code Store} {acts more : List (Act Code Store)} {a : α} {a' : β}

theorem Does.last_eq {x : Run Code Store α} (h : x.Does b acts a) : x.last b = b.play acts := by
  rw [finish_eq_play, h.acts_eq]

theorem does_pure (b : Backend Code Store) (a : α) : (pure a : Run Code Store α).Does b [] a := ⟨rfl, rfl⟩

theorem does_step (act : Act Code Store) (answer : Backend Code Store → α) (b : Backend Code Store) :
    (step act answer).Does b [act] (answer b) := ⟨rfl, rfl⟩

/-- What follows a value goes on behind the acts before it. -/
theorem Does.acts_bind {x : Run Code Store α} (h : x.Does b acts a) (f : α → Run Code Store β) :
    (x >>= f).acts b = acts ++ (f a).acts (b.play acts) := by
  refine (acts_andThen x _ b).trans ?_
  rw [h.acts_eq, h.ending_eq, h.last_eq]

theorem Does.ending_bind {x : Run Code Store α} (h : x.Does b acts a) (f : α → Run Code Store β) :
    (x >>= f).ending b = (f a).ending (b.play acts) := by
  have hfinish : x.finish b = (.value a, b.play acts) := Prod.ext h.ending_eq h.last_eq
  rw [ending, finish_bind_of_value hfinish f, ending]

/-- A look at the backend is no act. -/
theorem acts_read_bind (f : Backend Code Store → α) (g : α → Run Code Store β) (b : Backend Code Store) :
    (Run.read f >>= g).acts b = (g (f b)).acts b := rfl

theorem acts_bind_pure (x : Run Code Store α) (a : β) (b : Backend Code Store) :
    (x >>= fun _ => pure a).acts b = x.acts b := by
  have hacts : (x >>= fun _ => pure a).acts b = _ := acts_andThen x _ b
  rw [hacts]
  cases x.ending b <;> exact List.append_nil _

theorem Does.andThen {x : Run Code Store α} {f : Ending α → Run Code Store β} (h : x.Does b acts a)
    (hf : (f (.value a)).Does (b.play acts) more a') : (x.andThen f).Does b (acts ++ more) a' where
  acts_eq := by rw [acts_andThen, h.acts_eq, h.ending_eq, h.last_eq, hf.acts_eq]
  ending_eq := by
    rw [ending, finish_andThen, h.ending_eq, h.last_eq]
    exact hf.ending_eq

/-- A callback carries out its acts, and then the state of the program is what `leave` makes of it. -/
theorem Does.calling {x : Run Code Store α} (h : x.Does b acts a) (leave : Store → Store → Store) :
    (x.calling leave).Does b (acts ++ [.keep (leave b.store (b.play acts).store)]) a := by
  have hlook : (x.andThen fun ending => .look fun after =>
      .act (.keep (leave b.store after.store)) (.ended ending)).Does b _ a := h.andThen ⟨rfl, rfl⟩
  exact ⟨hlook.acts_eq, hlook.ending_eq⟩

theorem Does.bind {x : Run Code Store α} {f : α → Run Code Store β} (h : x.Does b acts a)
    (hf : (f a).Does (b.play acts) more a') : (x >>= f).Does b (acts ++ more) a' := by
  refine Does.andThen h ?_
  exact hf

/-- What ends with a value is, piece by piece, put together from runs that do. -/
theorem Does.of_bind {x : Run Code Store α} {f : α → Run Code Store β} (h : (x >>= f).Does b acts a') :
    ∃ first a rest, x.Does b first a ∧ (f a).Does (b.play first) rest a' ∧ acts = first ++ rest := by
  cases hending : x.ending b with
  | value a =>
      have hx : x.Does b (x.acts b) a := ⟨rfl, hending⟩
      exact ⟨_, a, _, hx, ⟨rfl, (hx.ending_bind f).symm.trans h.ending_eq⟩, h.acts_eq.symm.trans (hx.acts_bind f)⟩
  | panicked p =>
      have hpanicked := (congrArg Prod.fst (finish_andThen x _ b)).symm.trans h.ending_eq
      rw [hending] at hpanicked
      cases hpanicked
  | exhausted =>
      have hexhausted := (congrArg Prod.fst (finish_andThen x _ b)).symm.trans h.ending_eq
      rw [hending] at hexhausted
      cases hexhausted

theorem Does.bind_pure {x : Run Code Store α} (h : x.Does b acts a) (f : α → β) :
    (x >>= fun a => pure (f a)).Does b acts (f a) := by
  rw [← List.append_nil acts]
  exact h.bind (does_pure _ (f a))

theorem Does.read {f : Backend Code Store → α} {g : α → Run Code Store β}
    (h : (g (f b)).Does b acts a') : (Run.read f >>= g).Does b acts a' :=
  ⟨h.acts_eq, h.ending_eq⟩

theorem Does.step {act : Act Code Store} {answer : Backend Code Store → α} {f : α → Run Code Store β}
    (h : (f (answer b)).Does (act.apply b) acts a') :
    (Run.step act answer >>= f).Does b (act :: acts) a' :=
  (does_step act answer b).bind h

end Run

/-! ## the shape of a course -/

variable {views : Kind Code → ViewType}

/-- Acts that do not end the construction of a component. One that creates a component names the compiled
view of its kind. -/
def Act.Plain (views : Kind Code → ViewType) : Act Code Store → Prop
  | .activate _ => False
  | .abandon _ => False
  | .enroll _ kind definition => (views kind).definition.1 = .ok definition
  | _ => True

/-- Acts that can follow each other when programs run, from some state on. The construction of a component
ends at most once, after the component was created in the same course, and what happens in between is a
course. A construction that a panic cuts off does not end. -/
inductive Course (views : Kind Code → ViewType) : Backend Code Store → List (Act Code Store) → Prop
  | nil (b : Backend Code Store) : Course views b []
  | act {b : Backend Code Store} {a : Act Code Store} {rest : List (Act Code Store)}
      (plain : a.Plain views) (next : Course views (a.apply b) rest) : Course views b (a :: rest)
  | creation {b : Backend Code Store} {s : SessionId} {kind : Kind Code} {definition : ViewDefinition}
      {c : ComponentId} {inner rest : List (Act Code Store)} {last : Act Code Store}
      (compiled : (views kind).definition.1 = .ok definition)
      (enrolled : (b.enroll s kind definition).1 = .ok c)
      (construction : Course views (b.enroll s kind definition).2 inner)
      (concluded : last = .activate c ∨ last = .abandon c)
      (next : Course views (last.apply ((b.enroll s kind definition).2.play inner)) rest) :
      Course views b (.enroll s kind definition :: (inner ++ last :: rest))

namespace Course

theorem single {b : Backend Code Store} {a : Act Code Store} (plain : a.Plain views) :
    Course views b [a] :=
  .act plain (.nil _)

/-- One course after another. -/
theorem append {b : Backend Code Store} {acts more : List (Act Code Store)}
    (h : Course views b acts) (hmore : Course views (b.play acts) more) :
    Course views b (acts ++ more) := by
  induction h with
  | nil => exact hmore
  | act plain _ ih => exact .act plain (ih hmore)
  | @creation b s kind definition c inner rest last compiled enrolled construction concluded _ _ ih =>
      have hnext : Course views (last.apply ((b.enroll s kind definition).2.play inner))
          (rest ++ more) := by
        apply ih
        simpa [Act.apply] using hmore
      simpa using Course.creation compiled enrolled construction concluded hnext

/-- The components that a course creates have the compiled views of their kinds. -/
theorem compiled_of_enroll {b : Backend Code Store} {acts : List (Act Code Store)}
    (h : Course views b acts) {s : SessionId} {kind : Kind Code} {definition : ViewDefinition}
    (hmem : .enroll s kind definition ∈ acts) : (views kind).definition.1 = .ok definition := by
  induction h with
  | nil => cases hmem
  | act plain _ ih =>
      obtain rfl | hmem := List.mem_cons.1 hmem
      · exact plain
      · exact ih hmem
  | creation compiled _ _ concluded _ ihinner ihrest =>
      obtain hmem | hmem := List.mem_cons.1 hmem
      · cases hmem
        exact compiled
      obtain hmem | hmem := List.mem_append.1 hmem
      · exact ihinner hmem
      obtain rfl | hmem := List.mem_cons.1 hmem
      · obtain h | h := concluded <;> cases h
      · exact ihrest hmem

end Course

namespace Run

/-- From every state the acts of the run are a course. -/
def Whole (views : Kind Code → ViewType) (x : Run Code Store α) : Prop :=
  ∀ b, Course views b (x.acts b)

theorem whole_ended (ending : Ending α) : (.ended ending : Run Code Store α).Whole views :=
  fun b => .nil b

theorem Whole.look {next : Backend Code Store → Run Code Store α} (h : ∀ b, (next b).Whole views) :
    (Run.look next).Whole views :=
  fun b => h b b

theorem Whole.act {a : Act Code Store} {next : Run Code Store α} (plain : a.Plain views)
    (h : next.Whole views) : (Run.act a next).Whole views :=
  fun b => .act plain (h (a.apply b))

theorem Whole.andThen {x : Run Code Store α} {f : Ending α → Run Code Store β} (hx : x.Whole views)
    (hf : ∀ ending, (f ending).Whole views) : (x.andThen f).Whole views := by
  intro b
  rw [acts_andThen]
  refine (hx b).append ?_
  rw [← finish_eq_play]
  exact hf _ _

end Run

end ViewSync
