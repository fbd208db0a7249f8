import ViewSync.Backend.Update

/-!
# ViewSync.Backend.Lifecycle

The life of components: they are created in a session, which makes their view known to the other end when
it is used first, and destroyed alone or with all others when the session is closed. The built-in kind
shows the text of a failure.
-/

namespace ViewSync

/-! ## The view of failures -/

namespace FailureView

/-- Red text at the end of the page. -/
def source : String :=
  "\n".intercalate
    ["",
     "        class DiagnosticView:",
     "            def constructor():",
     "                this.domNode = document.createElement(\"pre\")",
     "                this.domNode.style.color = \"red\"",
     "                document.body.appendChild(this.domNode)",
     "",
     "            def handle(change):",
     "                if change.text != undefined:",
     "                    this.domNode.innerText = change.text",
     "    "]

/-- The view type. -/
def viewType : ViewType :=
  .new ⟨"tether_session::diagnostic", "Diagnostic", "DiagnosticView"⟩ source .default

end FailureView

namespace Backend

variable {Code Store : Type}

/-- The number of characters of a failure that a component shows; all, once its session is gone. -/
def textLimit? (b : Backend Code Store) (c : ComponentId) : Option Nat :=
  (b.owner? c).map fun s => (b.session s).config.diagnosticLimit

/-- The part of a text that a component shows. -/
def shownText (b : Backend Code Store) (c : ComponentId) (text : String) : String :=
  match b.textLimit? c with
  | some limit => String.ofList (text.toList.take limit)
  | none => text

/-- The component in which a session shows failures, while it is not destroyed. -/
def shownIn? (b : Backend Code Store) (s : SessionId) : Option ComponentId :=
  (b.session s).diagnostic.filter fun c => b.phase c ≠ .destroyed

/-- From now on a session shows failures in a component. -/
def showFailuresIn (b : Backend Code Store) (s : SessionId) (c : ComponentId) : Backend Code Store :=
  b.modifySession s fun session => { session with diagnostic := some c }

/-! ## Creation -/

/-- Takes a number for a new component. -/
def takeNumber (b : Backend Code Store) : Backend Code Store :=
  { b with nextComponent := b.nextComponent + 1 }

/-- Puts a new component into the arena of a session, and its view among those the other end knows. -/
def join (b : Backend Code Store) (s : SessionId) (id : ComponentId) (kind : Kind Code)
    (definition : ViewDefinition) : Backend Code Store :=
  (b.setComponent id (.new kind s)).modifySession s fun session =>
    { session with
      arena := session.arena ++ [id]
      views :=
        if session.views.contains definition.viewRef then session.views
        else session.views.insert definition.viewRef definition }

/-- Takes a number for a new component and puts it into the arena of a session. A view is told to the
other end when it is used first; its reference must not stand for another compiled source already. -/
def enroll (b : Backend Code Store) (s : SessionId) (kind : Kind Code) (definition : ViewDefinition) :
    Except ComponentError ComponentId × Backend Code Store :=
  let id := b.nextComponent
  let ref := definition.viewRef
  match b.sessions.get? s with
  | none => (.error .noActiveSession, b.takeNumber)
  | some session =>
    let known := session.views.get? ref
    if known.any (·.digest ≠ definition.digest) then (.error (.duplicateViewRef ref), b.takeNumber)
    else
      let joined := b.takeNumber.join s id kind definition
      let told := if known.isSome then joined
        else joined.send s (.define ref.render definition.name definition.source)
      (.ok id, told.send s (.create id ref.render))

/-- Ends the construction of a component. -/
def activate (b : Backend Code Store) (c : ComponentId) : Backend Code Store :=
  b.modifyComponent c fun component => { component with phase := .active }

/-! ## Destruction -/

/-- Removes a component from the arena of a session. -/
def forget (b : Backend Code Store) (s : SessionId) (c : ComponentId) : Backend Code Store :=
  b.modifySession s fun session => { session with arena := session.arena.filter (· ≠ c) }

/-- Destroys a component: it leaves its session, and the other end is told. -/
def destroy (b : Backend Code Store) (c : ComponentId) :
    Except ComponentError (Backend Code Store) :=
  match b.component? c with
  | none => .error (.destroyed c)
  | some component =>
    if component.phase = .destroyed then .error (.destroyed c)
    else
      let retired := (b.setComponent c component.retire).forget component.session c
      .ok (retired.sendFrom c (.delete c))

/-- Ends the life of components without telling anybody. -/
def retireAll (b : Backend Code Store) (arena : List ComponentId) : Backend Code Store :=
  arena.foldl (fun b c => b.modifyComponent c Component.retire) b

/-- Closes a session: its components are released, and nobody is told. -/
def close (b : Backend Code Store) (s : SessionId) : Backend Code Store :=
  (b.modifySession s fun session =>
    { session with closed := true, diagnostic := none, arena := [] }).retireAll (b.session s).arena

end Backend

end ViewSync
