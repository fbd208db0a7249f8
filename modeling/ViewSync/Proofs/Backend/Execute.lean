import ViewSync.Proofs.Backend.Closure
import ViewSync.Proofs.Backend.Course

/-!
# ViewSync.Proofs.Backend.Execute

The acts of a program and of all the code that it calls are a course (`course_execute`). Of the operations
only the creation of a component ends a construction, the one that it began; every other operation is put
together from runs of which the same is known already.
-/

namespace ViewSync

variable {Code Store α : Type}

open Run

/-- Common acts end no construction and create no component. -/
theorem plain_of_isCommon {views : Kind Code → ViewType} {a : Act Code Store} (h : a.isCommon = true) :
    a.Plain views := by
  cases a with
  | enroll | activate | abandon => cases h
  | _ => trivial

theorem plain_of_brackets? {views : Kind Code → ViewType} {a : Act Code Store} {c : ComponentId}
    (h : a.brackets? = some c) : a.Plain views := by
  cases a with
  | enroll | activate | abandon => cases h
  | _ => trivial

theorem plain_of_isOfClock {views : Kind Code → ViewType} {a : Act Code Store} (h : a.isOfClock = true) :
    a.Plain views := by
  cases a with
  | enroll | activate | abandon => cases h
  | _ => trivial

/-- Runs whose acts are a course are put together to such runs. -/
theorem closed_whole (views : Kind Code → ViewType) :
    Closed fun α (x : Run Code Store α) => x.Whole views where
  ended := whole_ended
  look := Whole.look
  act common h := .act (plain_of_isCommon common) h
  andThen := Whole.andThen

section

variable {calls : Callbacks Code (Run Code Store)}
  (h : calls.Each fun α (x : Run Code Store α) => x.Whole calls.viewOf)

include h

/-- Bringing a component to life is a course, behind which its construction may end. -/
theorem acts_setUp (kind : Kind Code) (c : ComponentId) (b : Backend Code Store) :
    Course calls.viewOf b ((calls.setUp kind c).acts b) ∨
      ∃ inner last, (calls.setUp kind c).acts b = inner ++ [last] ∧ Course calls.viewOf b inner
        ∧ (last = .activate c ∨ last = .abandon c) := by
  have closed : Closed fun α (x : Run Code Store α) => x.Whole calls.viewOf := closed_whole _
  have hinit : (calls.batch c id (calls.initKind kind c)).Whole calls.viewOf :=
    h.batch closed (fun bracketed => .act (plain_of_brackets? bracketed)) (h.initKind closed kind c)
  -- the batch comes first; whether the construction ends depends on how the batch does
  have hacts : (calls.setUp kind c).acts b = _ := acts_andThen (calls.batch c id _) _ b
  rw [hacts]
  cases hending : (calls.batch c id (calls.initKind kind c)).ending b with
  | value outcome =>
      cases outcome with
      | error e => exact .inr ⟨_, .abandon c, rfl, hinit b, .inr rfl⟩
      | ok _ => exact .inr ⟨_, .activate c, rfl, hinit b, .inl rfl⟩
  | panicked p => exact .inl (by simpa [Run.panic, acts] using hinit b)
  | exhausted => exact .inl (by simpa [Run.exhaust, acts] using hinit b)

theorem whole_create (s : SessionId) (kind : Kind Code) : (calls.create s kind).Whole calls.viewOf := by
  refine (closed_whole calls.viewOf).inside ?_
  cases hcompiled : (calls.viewOf kind).definition.1 with
  | error e => exact whole_ended _
  | ok definition =>
      intro b
      rw [acts_step_bind]
      cases henrolled : (b.enroll s kind definition).1 with
      | error e => exact .single hcompiled
      | ok c =>
          obtain hopen | ⟨inner, last, hacts, hinner, hlast⟩ :=
            acts_setUp h kind c (b.enroll s kind definition).2
          · exact .act hcompiled hopen
          · have hcourse := Course.creation hcompiled henrolled hinner hlast (.nil _)
            rwa [← hacts] at hcourse

theorem whole_report (s : SessionId) (error : SessionError) :
    (calls.report s error).Whole calls.viewOf :=
  h.report (closed_whole _) (whole_create h) (.act trivial) s error

end

/-- The acts of a program and of all the code that it calls are a course. -/
theorem course_execute (calls : Callbacks Code (Prog Code Store)) (leave : Store → Store → Store)
    (fuel : Nat) (p : Prog Code Store α) : (p.execute calls leave fuel).Whole calls.viewOf := by
  refine (closed_whole calls.viewOf).execute (fun depth heach => ?_) fuel p
  rw [← viewOf_running calls leave depth] at heach ⊢
  refine ⟨whole_create heach, whole_report heach, fun c body => ?_, ?_⟩
  · exact heach.batch (closed_whole _) (fun bracketed => .act (plain_of_brackets? bracketed)) (heach.body body)
  · exact heach.advance (closed_whole _) (whole_report heach) (fun clocked => .act (plain_of_isOfClock clocked)) _

/-- The components that a program creates have the compiled views of their kinds. -/
theorem compiled_of_enroll {calls : Callbacks Code (Prog Code Store)} {leave : Store → Store → Store}
    {fuel : Nat} {p : Prog Code Store α} {store : Store} {s : SessionId} {kind : Kind Code}
    {definition : ViewDefinition} (h : .enroll s kind definition ∈ p.course calls leave fuel store) :
    (calls.viewOf kind).definition.1 = .ok definition :=
  (course_execute calls leave fuel p _).compiled_of_enroll h

/-! ## a small program -/

/-- Code of components for examples. -/
inductive Sample where
  /-- Starts with an empty list. -/
  | list
  /-- Destroys itself while it is constructed. -/
  | fleeting
  /-- Starts with nothing. -/
  | bare
deriving DecidableEq

namespace Sample

/-- A view type that has been compiled. -/
def view (ref : ViewRef) (source : String) : ViewType :=
  ⟨ref, source, .default, some (.ok ⟨ref, ref.name, [], source, source⟩)⟩

/-- The callbacks of the sample components, with the given views. -/
def calls (views : Sample → ViewType) : Callbacks Sample (Prog Sample Unit) where
  view := views
  init
    | .list, c => Prog.request (.update c [("items", .arr [])] {})
    | .fleeting, c => (Prog.request (.destroy c)).bind fun _ => pure (.ok ())
    | .bare, _ => pure (.ok ())
  adjust _ _ changes := pure (.ok changes)
  request _ _ _ := pure (.ok ())
  listener _ _ _ := pure ()
  task _ := pure ()
  body _ := pure (.ok .null)

/-- The acts of a program with sample components that all have one view. -/
def course {α : Type} (p : Prog Sample Unit α) : List (Act Sample Unit) :=
  p.course (calls fun _ => view ⟨"app", "", "View"⟩ "") (fun _ after => after) 3 ()

/-- Opens a session, creates a component in it and appends to its list. -/
def growing : Prog Sample Unit (Except ComponentError Unit) := do
  let s ← Prog.request (.openSession {} {})
  let _ ← Prog.request (.create s (.custom .list))
  Prog.request (.update 1 [("items__append", .int 7)] {})

theorem course_growing : course growing =
    [.openSession {} {}, .enter 1 false,
      .enroll 1 (.custom .list) ⟨⟨"app", "", "View"⟩, "View", [], "", ""⟩,
      .openBatch 1 .scope {}, .change 1 [("items", .arr [])] {}, .keep (), .commit 1 .scope,
      .activate 1, .leave 0, .keep (), .change 1 [("items__append", .int 7)] {}] := rfl

/-- Opens a session, creates a component in it and destroys it. -/
def retiring : Prog Sample Unit (Except ComponentError Unit) := do
  let s ← Prog.request (.openSession {} {})
  let _ ← Prog.request (.create s (.custom .list))
  Prog.request (.destroy 1)

theorem course_retiring : course retiring =
    [.openSession {} {}, .enter 1 false,
      .enroll 1 (.custom .list) ⟨⟨"app", "", "View"⟩, "View", [], "", ""⟩,
      .openBatch 1 .scope {}, .change 1 [("items", .arr [])] {}, .keep (), .commit 1 .scope,
      .activate 1, .leave 0, .destroy 1] := rfl

/-- Opens a session and creates a component in it that destroys itself. -/
def fleeing : Prog Sample Unit (Except ComponentError ComponentId) := do
  let s ← Prog.request (.openSession {} {})
  Prog.request (.create s (.custom .fleeting))

end Sample

end ViewSync
