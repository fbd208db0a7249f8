import ViewSync.Proofs.Backend.Batches
import ViewSync.Proofs.Backend.Construction
import ViewSync.Proofs.Backend.Standing

/-!
# ViewSync.Proofs.Backend.Reports

The report of a failure, act by act. A session shows the text in the component that showed the last one, or
creates a component for it (`does_report_again`, `does_report_new`). The code of the program has no part in
either: the built-in kind has no code, and nobody listens to a component that is new.

The component in which a session shows failures was therefore created completely before (`presents_execute`).
-/

namespace ViewSync

variable {Code Store α : Type}

/-! ## the view of failures -/

/-- A source without faults compiles to what its items are lowered to. -/
theorem compileSource_of_reads (fileName : String) {source : String} {table : Replacements} {m : Module}
    {items : List CompiledItem} (lexed : (lex (dedent source)).faults = [])
    (parsed : (parse (lex (dedent source)).tokens).faults = [])
    (module_ : (parse (lex (dedent source)).tokens).module? = some m)
    (translated : translate m table = .ok items) : compileSource fileName source table = .ok items := by
  simp only [compileSource, readModule, module_, lexed, parsed, translated]
  rfl

/-- A view type has a definition when its source compiles to one item. -/
theorem definition_new_of_compiles {ref : ViewRef} {source : String} {table : Replacements}
    {item : CompiledItem} (compiles : compileSource ref.render source table = .ok [item]) :
    ∃ d, (ViewType.new ref source table).definition.1 = .ok d ∧ d.viewRef = ref := by
  refine ⟨⟨ref, item.name, item.params, item.source, Digest.ofText item.source⟩, ?_, rfl⟩
  show compileView ref source table = _
  rw [compileView, compiles]
  rfl

namespace FailureView

/-- The characters of the source. -/
def sourceChars : List Char :=
  List.intercalate "\n".toList (List.map String.toList
    ["",
     "        class DiagnosticView:",
     "            def constructor():",
     "                this.domNode = document.createElement(\"pre\")",
     "                this.domNode.style.color = \"red\"",
     "                document.body.appendChild(this.domNode)",
     "",
     "            def handle(change):",
     "                if change.text != undefined:",
     "                    this.domNode.innerText = change.text",
     "    "])

/-- The characters that the lexer reads. -/
def page : List Char := Text.unlines (dedentLines (Text.lines sourceChars))

theorem toList_source : source.toList = sourceChars := String.toList_intercalate

theorem dedent_source : dedent source = String.ofList page :=
  congrArg (fun cs => String.ofList (Text.unlines (dedentLines (Text.lines cs)))) toList_source

/-- What the lexer makes of characters, without a detour through their text. -/
theorem lex_ofList (cs : List Char) :
    lex (String.ofList cs) =
      let lx := (Lexer.run ⟨⟨cs, ⟨1, 1⟩⟩, [], [], 0, true, []⟩).close
      ⟨lx.tokens.reverse, lx.faults.reverse⟩ := by
  rw [lex, Lexer.start, Cursor.start, String.toList_ofList]

/-- The page is one item without faults. -/
theorem page_reads :
    (lex (String.ofList page)).faults = [] ∧ (parse (lex (String.ofList page)).tokens).faults = [] ∧
      ∃ m, (parse (lex (String.ofList page)).tokens).module? = some m ∧
        ((translate m .default).toOption.map (·.length)) = some 1 := by
  have heval : (fun lexed : Lexed => (lexed.faults.length, (parse lexed.tokens).faults.length,
      (parse lexed.tokens).module?.map fun m => (translate m .default).toOption.map (·.length)))
      (lex (String.ofList page)) = (0, 0, some (some 1)) := by
    rw [lex_ofList]
    decide +kernel
  obtain ⟨hlexed, hrest⟩ := Prod.mk.inj heval
  obtain ⟨hparsed, hmodule⟩ := Prod.mk.inj hrest
  obtain ⟨m, hm, hlength⟩ := Option.map_eq_some_iff.1 hmodule
  exact ⟨List.length_eq_zero_iff.1 hlexed, List.length_eq_zero_iff.1 hparsed, m, hm, hlength⟩

theorem definition_viewType :
    ∃ d, viewType.definition.1 = .ok d ∧ d.viewRef = viewType.viewRef := by
  obtain ⟨hlexed, hparsed, m, hm, hlength⟩ := page_reads
  rw [← dedent_source] at hlexed hparsed hm
  obtain ⟨items, htranslated, hone⟩ := Option.map_eq_some_iff.1 hlength
  obtain ⟨item, rfl⟩ := List.length_eq_one_iff.1 hone
  have hok : translate m .default = .ok [item] := by
    cases htable : translate m .default with
    | error refusal => rw [htable] at htranslated; cases htranslated
    | ok items => rw [htable] at htranslated; exact congrArg _ (Option.some.inj htranslated)
  exact definition_new_of_compiles
    (compileSource_of_reads viewType.viewRef.render hlexed hparsed hm hok)

end FailureView

/-! ## the component in which a session shows failures -/

/-- A component shows the failures of a session, and nothing else is done with it. -/
structure Component.Showing (k : Component Code) (s : SessionId) : Prop where
  kind : ∃ text, k.kind = .diagnostic text
  session : k.session = s
  active : k.phase = .active
  unbatched : k.batch = none
  unheard : k.listeners = []

/-- The changes by which a component shows a text. -/
def shownAs (text : String) : Fields := [("text", .str text)]

theorem plain_shownAs (text : String) : ∀ n ∈ (shownAs text).names, isActionKey n = false := by
  intro n hn
  obtain rfl : n = "text" := by simpa [shownAs, Fields.names] using hn
  decide

/-- Behind the changes the text is in the component. -/
theorem text_applyChanges (fields : Fields) (text : String) :
    Fields.get? (applyChanges fields (shownAs text)) "text" = some (.str text) := by
  have hput : applyChanges fields (shownAs text) = fields.put "text" (.str text) := by
    have hplain : isActionKey "text" = false := by decide
    simp [applyChanges, shownAs, hplain, Fields.putAll]
  rw [hput, Fields.get?_put, if_pos rfl]

namespace Backend

/-- The part of a text that a session shows. -/
def cut (b : Backend Code Store) (s : SessionId) (text : String) : String :=
  String.ofList (text.toList.take (b.session s).config.diagnosticLimit)

variable {b : Backend Code Store} {s : SessionId} {c : ComponentId} {k : Component Code}

/-- A component of an active session shows as much of a text as the session says. -/
theorem shownText_eq_cut (hc : b.component? c = some k) (active : k.session ∈ b.stack) (text : String) :
    b.shownText c text = b.cut k.session text := by
  have halive : b.isAlive k.session = true := by simp [isAlive, active]
  have howner : b.owner? c = some k.session := by simp [owner?, hc, Option.filter, halive]
  simp [shownText, textLimit?, howner, cut]

/-! ## states behind acts -/

/-- Acts that neither begin nor end activations settle. -/
theorem settled_play (coherent : Coherent b) {acts : List (Act Code Store)}
    (idle : ∀ a ∈ acts, a.activates = false) : Settled b (b.play acts) := by
  induction acts generalizing b with
  | nil => exact .refl b
  | cons a acts ih =>
      have hfirst := (sameActivity_apply coherent (idle a List.mem_cons_self)).settled
      exact hfirst.trans (ih (coherent.apply a) fun a' ha' => idle a' (List.mem_cons_of_mem _ ha'))

theorem session_play_of {γ : Type} {g : Session → γ} (h : Session.Standing g)
    {acts : List (Act Code Store)} (standing : ∀ a ∈ acts, a.isStanding = true) (s : SessionId) :
    g ((b.play acts).session s) = g (b.session s) := by
  induction acts generalizing b with
  | nil => rfl
  | cons a acts ih =>
      have hfirst := session_apply_of (b := b) h (standing a List.mem_cons_self) s
      exact (ih fun a' ha' => standing a' (List.mem_cons_of_mem _ ha')).trans hfirst

/-- Acts on a component leave the other ones as they are. -/
theorem component?_play_of_on {acts : List (Act Code Store)} (on : ∀ a ∈ acts, a.on? = some c)
    {c' : ComponentId} (hne : c' ≠ c) : (b.play acts).component? c' = b.component? c' := by
  induction acts generalizing b with
  | nil => rfl
  | cons a acts ih =>
      have hfirst := component?_apply_of_other (b := b) (on a List.mem_cons_self) hne
      exact (ih fun a' ha' => on a' (List.mem_cons_of_mem _ ha')).trans hfirst

end Backend

/-! ## runs of the built-in kind -/

namespace Callbacks

variable (calls : Callbacks Code (Run Code Store)) {b : Backend Code Store} {s : SessionId}
  {c : ComponentId} {k : Component Code}

/-- Showing a text changes the component, when nobody is to be told of the change. -/
theorem does_showText (hc : b.component? c = some k) (kind : ∃ text, k.kind = .diagnostic text)
    (live : k.phase ≠ .destroyed) (text : String) {delivery : Option (Delivery Code)}
    {b' : Backend Code Store} (change : b.change c (shownAs (b.shownText c text)) {} = .ok (delivery, b'))
    (unheard : ∀ d, delivery = some d → d.listeners = []) :
    (calls.showText c text).Does b [.change c (shownAs (b.shownText c text)) {}] (.ok ()) := by
  have hadjusted : (calls.adjusted c (shownAs (b.shownText c text))).Does b []
      (.ok (shownAs (b.shownText c text))) := by
    refine Run.Does.read ?_
    obtain ⟨text, hkind⟩ := kind
    rw [hc]
    cases hphase : k.phase with
    | destroyed => exact absurd hphase live
    | constructing => simpa only [hphase] using Run.does_pure b _
    | active =>
        simp only [hphase, hkind]
        exact Run.does_pure b _
  have hannounce : (calls.announceAny c delivery).Does b' [] () := by
    cases delivery with
    | none => exact Run.does_pure b' ()
    | some d =>
        rw [announceAny, unheard d rfl]
        exact Run.does_pure b' ()
  refine Run.Does.read ?_
  rw [← List.nil_append [Act.change ..]]
  refine Run.Does.bind (x := calls.adjusted c _) hadjusted (Run.Does.step ?_)
  rw [Backend.play_nil, change, Backend.apply_change change]
  exact hannounce.bind (Run.does_pure _ _)

/-- The acts that bring a component to life which shows a text. -/
def bringing (c : ComponentId) (text : String) : List (Act Code Store) :=
  [.openBatch c .scope {}, .change c (shownAs text) {}, .commit c .scope, .activate c]

theorem does_setUp {text : String} (hc : b.component? c = some (.new (.diagnostic text) s))
    (active : s ∈ b.stack) :
    (calls.setUp (.diagnostic text) c).Does b (bringing c (b.cut s text)) (.ok c) ∧
      (b.play (bringing c (b.cut s text))).component? c = some
        { Component.new (.diagnostic text) s with
          fields := applyChanges [] (shownAs (b.cut s text)), phase := .active } := by
  -- the batch opens, keeps the text back and tells it
  have hopen := openBatch_of_unbatched hc (by simp [Component.new]) rfl .scope
  generalize hb₁ : b.setComponent c _ = b₁ at hopen
  have hopened : (Act.openBatch c .scope {}).apply b = b₁ := congrArg b.afterTry hopen
  have hc₁ : b₁.component? c = some
      { Component.new (.diagnostic text) s with batch := some ⟨.scope, [], {}⟩ } := by
    rw [← hb₁, Backend.component?_setComponent, if_pos rfl]
  have hshown : b₁.shownText c text = b.cut s text := by
    have hactive : s ∈ b₁.stack := by rw [← hb₁]; exact active
    refine (Backend.shownText_eq_cut hc₁ hactive text).trans ?_
    rw [← hb₁]
    rfl
  have hchange := Backend.change_of_batched hc₁ (by simp [Component.new]) rfl
    (plain_shownAs (b.cut s text))
  have hchanged := Backend.apply_change hchange
  generalize hb₂ : b₁.tell c _ none = b₂ at hchange hchanged
  have hc₂ : b₂.component? c = some
      { Component.new (.diagnostic text) s with
        fields := applyChanges [] (shownAs (b.cut s text))
        batch := some ⟨.scope, Fields.putAll [] (shownAs (b.cut s text)), {}⟩ } := by
    rw [← hb₂, Backend.component?_tell, if_pos rfl]
    rfl
  have hcommit := commit_of_batched hc₂ rfl rfl
  generalize hb₃ : b₂.tell c _ _ = b₃ at hcommit
  have hcommitted : (Act.commit c .scope).apply b₂ = b₃ := congrArg Prod.snd hcommit
  have hc₃ : b₃.component? c = some
      { Component.new (.diagnostic text) s with
        fields := applyChanges [] (shownAs (b.cut s text)) } := by
    rw [← hb₃, Backend.component?_tell, if_pos rfl]
    rfl
  constructor
  · have hshow : (calls.showText c text).Does b₁ [.change c (shownAs (b.cut s text)) {}] (.ok ()) := by
      have hdoes := does_showText calls hc₁ ⟨text, rfl⟩ (by simp [Component.new]) text
        (hshown.symm ▸ hchange) fun d hd => by cases hd
      rwa [hshown] at hdoes
    have hbody : (Run.onPanic (calls.showText c text) (.drop c .scope)).Does b₁
        ([.change c (shownAs (b.cut s text)) {}] ++ []) (.ok ()) :=
      Run.Does.andThen hshow ⟨rfl, rfl⟩
    have hdone : (calls.commit c .scope).Does b₂ [.commit c .scope] () := by
      refine Run.Does.step ?_
      rw [hcommit]
      exact Run.does_pure _ ()
    have hbatch : (calls.batch c id (calls.initKind (.diagnostic text) c)).Does b
        [.openBatch c .scope {}, .change c (shownAs (b.cut s text)) {}, .commit c .scope] (.ok ()) := by
      have hattempt : (b.openBatch c .scope {}).map (fun _ => ()) = .ok () := by rw [hopen]; rfl
      refine Run.Does.step ?_
      rw [hattempt, hopened]
      refine Run.Does.bind hbody ?_
      rw [List.append_nil, Backend.play_cons, Backend.play_nil, hchanged]
      exact hdone.bind (Run.does_pure _ _)
    exact hbatch.bind (Run.Does.step (Run.does_pure _ _))
  · simp only [bringing, Backend.play_cons, Backend.play_nil, hopened, hchanged, hcommitted]
    show (b₃.activate c).component? c = _
    rw [Backend.activate, Backend.component?_modifyComponent, if_pos rfl, hc₃]
    rfl

/-- The acts by which a session creates a component that shows a text. -/
def presenting (b : Backend Code Store) (s : SessionId) (text : String) (d : ViewDefinition) :
    List (Act Code Store) :=
  .enter s false :: (.enroll s (.diagnostic text) d ::
    bringing b.nextComponent (b.cut s text) ++ [.leave b.nextGuard])

/-- Creation of a component whose view compiles. -/
theorem create_of_compiled {kind : Kind Code} {d : ViewDefinition}
    (compiled : (calls.viewOf kind).definition.1 = .ok d) (s : SessionId) :
    calls.create s kind = Run.inside s (do
      match ← Run.step (.enroll s kind d) fun b => (b.enroll s kind d).1 with
      | .error e => return .error e
      | .ok id => calls.setUp kind id) := by
  unfold create
  generalize (calls.viewOf kind).definition.1 = found at compiled ⊢
  subst compiled
  rfl

section

variable {text : String} {d : ViewDefinition}
  (compiled : (calls.viewOf (.diagnostic text)).definition.1 = .ok d)

include compiled

theorem does_create_error {e : ComponentError}
    (refused : ((b.enter s false).2.enroll s (.diagnostic text) d).1 = .error e) :
    (calls.create s (.diagnostic text)).Does b
      [.enter s false, .enroll s (.diagnostic text) d, .leave b.nextGuard] (.error e) := by
  rw [create_of_compiled calls compiled]
  refine Run.Does.inside (?_ : Run.Does _ _ [.enroll s (.diagnostic text) d] _)
  refine Run.Does.step ?_
  rw [refused]
  exact Run.does_pure _ _

theorem does_create (enrolled : ((b.enter s false).2.enroll s (.diagnostic text) d).1 = .ok c) :
    c = b.nextComponent ∧
      (calls.create s (.diagnostic text)).Does b (presenting b s text d) (.ok c) ∧
      (b.play (presenting b s text d)).component? c = some
        { Component.new (.diagnostic text) s with
          fields := applyChanges [] (shownAs (b.cut s text)), phase := .active } ∧
      ∀ c', c' ≠ c → (b.play (presenting b s text d)).component? c' = b.component? c' := by
  have hentered := (Backend.Still.refl b).enter s false
  have hnumber : c = b.nextComponent :=
    (Backend.eq_nextComponent_of_enroll enrolled).trans hentered.nextComponent
  have hparts := Backend.enrolled_of_enroll enrolled
  have hnew : ((b.enter s false).2.enroll s (.diagnostic text) d).2.component? c =
      some (.new (.diagnostic text) s) := by
    rw [hparts.components, if_pos (Backend.eq_nextComponent_of_enroll enrolled)]
  have hactive : s ∈ ((b.enter s false).2.enroll s (.diagnostic text) d).2.stack := by
    rw [((Backend.SameActivity.refl _).enroll s _ d).stack, (b.rewired_enter s false).stack]
    simp [Backend.begun]
  have hcut : ((b.enter s false).2.enroll s (.diagnostic text) d).2.cut s text = b.cut s text := by
    have hconfig := (Backend.session_enroll_of (b := (b.enter s false).2) Session.standing_config s
      (.diagnostic text) d s).trans
      (Backend.session_enter_of (b := b) Session.standing_config.inactive s false s)
    simp only [Backend.cut, hconfig]
  obtain ⟨hdoes, hcomponent⟩ := does_setUp calls hnew hactive
  rw [hcut] at hdoes hcomponent
  generalize hb₂ : ((b.enter s false).2.enroll s (.diagnostic text) d).2 = b₂ at *
  have hplay : b.play (presenting b s text d) =
      (b₂.play (bringing c (b.cut s text))).leaveNumber b.nextGuard := by
    rw [presenting, ← hnumber, ← hb₂]
    simp [Act.apply]
  refine ⟨hnumber, ?_, ?_, fun c' hne => ?_⟩
  · rw [presenting, ← hnumber, create_of_compiled calls compiled]
    refine Run.Does.inside (Run.Does.step ?_)
    rw [enrolled, Act.apply, hb₂]
    exact hdoes
  · rw [hplay, ((Backend.Still.refl _).leaveNumber b.nextGuard).components, hcomponent]
  · have hne' : c' ≠ (b.enter s false).2.nextComponent := by
      rw [hentered.nextComponent, ← hnumber]
      exact hne
    rw [hplay, ((Backend.Still.refl _).leaveNumber b.nextGuard).components,
      Backend.component?_play_of_on (by simp [bringing, Act.on?]) hne, hparts.components, if_neg hne',
      hentered.components]

end

/-! ## the report -/

/-- A session that is closed, or told not to, shows no failure. -/
theorem does_report_off
    (off : ¬ ((b.session s).config.renderDiagnostics = true ∧ ¬ (b.session s).isClosed = true))
    (error : SessionError) : (calls.report s error).Does b [] () := by
  refine Run.Does.read ?_
  rw [if_neg off]
  exact Run.does_pure b ()

section

variable (on : (b.session s).config.renderDiagnostics = true ∧ ¬ (b.session s).isClosed = true)
  (error : SessionError)

include on

/-- The component that showed the last failure shows the next one, while it is there. -/
theorem does_report_again (shown : b.shownIn? s = some c) (hc : b.component? c = some k)
    (showing : k.Showing s) (active : s ∈ b.stack) :
    (calls.report s error).Does b [.change c (shownAs (b.cut s error.message)) {}] () ∧
      ((Act.change c (shownAs (b.cut s error.message)) {}).apply b).component? c = some
        { k with fields := applyChanges k.fields (shownAs (b.cut s error.message)) } := by
  have hshown : b.shownText c error.message = b.cut s error.message := by
    rw [Backend.shownText_eq_cut hc (showing.session.symm ▸ active), showing.session]
  have hchange := Backend.change_of_unbatched hc showing.active showing.unbatched
    (plain_shownAs (b.cut s error.message))
  constructor
  · have hdoes := does_showText calls hc showing.kind (by simp [showing.active]) error.message
      (hshown.symm ▸ hchange) fun d hd => by cases hd; exact showing.unheard
    rw [hshown] at hdoes
    refine Run.Does.read ?_
    rw [if_pos on]
    refine Run.Does.read ?_
    rw [shown]
    exact hdoes.bind_pure _
  · rw [Backend.apply_change hchange, Backend.component?_tell, if_pos rfl]

/-- A component that a session creates for a failure shows the failures from then on. -/
theorem does_report_new (nowhere : b.shownIn? s = none) {made : List (Act Code Store)}
    (creates : (calls.create s (.diagnostic error.message)).Does b made (.ok c)) :
    (calls.report s error).Does b (made ++ [.showFailuresIn s c]) () := by
  refine Run.Does.read ?_
  rw [if_pos on]
  refine Run.Does.read ?_
  rw [nowhere]
  exact creates.bind (Run.does_step _ _ _)

theorem does_report_error (nowhere : b.shownIn? s = none) {made : List (Act Code Store)}
    {e : ComponentError} (refused : (calls.create s (.diagnostic error.message)).Does b made (.error e)) :
    (calls.report s error).Does b made () := by
  refine Run.Does.read ?_
  rw [if_pos on]
  refine Run.Does.read ?_
  rw [nowhere, ← List.append_nil made]
  exact refused.bind (Run.does_pure _ ())

end

end Callbacks

/-! ## whole runs -/

/-- When a session begins to show failures in a component, the component has been created for that, and the
one that showed failures before is gone. -/
structure Backend.Presented (b : Backend Code Store) (pre : List (Act Code Store)) (s : SessionId)
    (c : ComponentId) : Prop where
  activated : .activate c ∈ pre
  showing : ∃ k, b.component? c = some k ∧ k.Showing s
  alone : ∀ c', (b.session s).diagnostic = some c' → c' = c ∨ b.phase c' = .destroyed

/-- Whenever a session begins to show failures in a component in the course of a run, the component has been
created for that. -/
def Run.Presents (x : Run Code Store α) : Prop :=
  ∀ b, Backend.Coherent b → ∀ pre s c, pre ++ [.showFailuresIn s c] <+: x.acts b →
    (b.play pre).Presented pre s c

theorem Backend.Presented.behind {b : Backend Code Store} {pre : List (Act Code Store)} {s : SessionId}
    {c : ComponentId} (h : b.Presented pre s c) (before : List (Act Code Store)) :
    b.Presented (before ++ pre) s c :=
  ⟨List.mem_append_right _ h.activated, h.showing, h.alone⟩

namespace Run

/-- Any act but the one that gives a session a component to show failures in. -/
theorem Presents.act {a : Act Code Store} {next : Run Code Store α}
    (ha : ∀ s c, a ≠ .showFailuresIn s c) (h : next.Presents) : (Run.act a next).Presents := by
  intro b coherent pre s c hpoint
  cases pre with
  | nil => exact absurd (List.cons_prefix_cons.1 hpoint).1.symm (ha s c)
  | cons x pre =>
      obtain ⟨rfl, hrest⟩ := List.cons_prefix_cons.1 hpoint
      have hpresented : (b.play (x :: pre)).Presented pre s c := h (x.apply b) (coherent.apply x) pre s c hrest
      exact hpresented.behind [x]

theorem closed_presents : Closed fun α (x : Run Code Store α) => x.Presents where
  ended ending b _ pre s c hpoint := by
    have hnone : pre ++ [.showFailuresIn s c] <+: [] := hpoint
    simp at hnone
  look h b := h b b
  act common h := by
    refine Presents.act (fun s c heq => ?_) h
    rw [heq] at common
    cases common
  andThen {α β x f} hx hf b coherent pre s c hpoint := by
    rw [acts_andThen, finish_eq_play] at hpoint
    obtain hin | ⟨more, rfl, hbehind⟩ := prefix_concat_append hpoint
    · exact hx b coherent pre s c hin
    · rw [Backend.play_append]
      exact (hf _ _ (coherent.play _) more s c hbehind).behind _

theorem presents_step {a : Act Code Store} (ha : ∀ s c, a ≠ .showFailuresIn s c)
    (answer : Backend Code Store → α) : (Run.step a answer).Presents := by
  refine closed_presents.look fun b => Presents.act ha ?_
  exact closed_presents.ended _

end Run

section

variable {calls : Callbacks Code (Run Code Store)}
  (h : calls.Each fun α (x : Run Code Store α) => x.Presents)

include h

theorem presents_batch {ε : Type} (c : ComponentId) (fail : ComponentError → ε)
    {body : Run Code Store (Except ε α)} (hbody : body.Presents) : (calls.batch c fail body).Presents := by
  have closed : Run.Closed fun α (x : Run Code Store α) => x.Presents := Run.closed_presents
  refine h.batch closed (fun bracketed hnext => Run.Presents.act (fun s c heq => ?_) hnext) hbody
  rw [heq] at bracketed
  cases bracketed

theorem presents_create (s : SessionId) (kind : Kind Code) : (calls.create s kind).Presents := by
  have closed : Run.Closed fun α (x : Run Code Store α) => x.Presents := Run.closed_presents
  refine closed.inside ?_
  cases (calls.viewOf kind).definition.1 with
  | error e => exact closed.pure _
  | ok d =>
      refine closed.bind (Run.presents_step (by simp) _) fun outcome => ?_
      cases outcome with
      | error e => exact closed.pure _
      | ok c =>
          refine closed.bind (presents_batch h c id (h.initKind closed kind c)) fun outcome => ?_
          cases outcome with
          | error e => exact closed.bind (Run.presents_step (by simp) _) fun _ => closed.pure _
          | ok _ => exact closed.bind (Run.presents_step (by simp) _) fun _ => closed.pure _

theorem presents_report (s : SessionId) (error : SessionError) : (calls.report s error).Presents := by
  have closed : Run.Closed fun α (x : Run Code Store α) => x.Presents := Run.closed_presents
  intro b coherent pre s' c' hpoint
  by_cases on : (b.session s).config.renderDiagnostics = true ∧ ¬ (b.session s).isClosed = true
  · cases hshown : b.shownIn? s with
    | some c =>
        have hacts : (calls.report s error).acts b =
            (calls.showText c error.message >>= fun _ => pure ()).acts b := by
          show (if (b.session s).config.renderDiagnostics = true ∧ ¬ (b.session s).isClosed = true
            then _ else _ : Run Code Store Unit).acts b = _
          rw [if_pos on, Run.acts_read_bind, hshown]
        rw [hacts] at hpoint
        exact (closed.bind (h.showText closed c _) fun _ => closed.pure ()) b coherent pre s' c' hpoint
    | none =>
        obtain ⟨d, hd, -⟩ := FailureView.definition_viewType
        have compiled : (calls.viewOf (.diagnostic error.message)).definition.1 = .ok d := hd
        cases henroll : ((b.enter s false).2.enroll s (.diagnostic error.message) d).1 with
        | error e =>
            have hdoes := Callbacks.does_report_error calls on error hshown
              (Callbacks.does_create_error calls compiled henroll)
            rw [hdoes.acts_eq] at hpoint
            have hmem := hpoint.subset (List.mem_concat_self)
            simp at hmem
        | ok c =>
            obtain ⟨hnumber, hcreate, hcomponent, hothers⟩ := Callbacks.does_create calls compiled henroll
            rw [(Callbacks.does_report_new calls on error hshown hcreate).acts_eq] at hpoint
            obtain heq | hin := List.prefix_concat_iff.1 hpoint
            · obtain ⟨rfl, hact⟩ := List.append_inj' heq rfl
              cases hact
              refine ⟨by simp [Callbacks.presenting, Callbacks.bringing, hnumber],
                ⟨_, hcomponent, ⟨⟨_, rfl⟩, rfl, rfl, rfl, rfl⟩⟩, fun c₀ hdiagnostic => ?_⟩
              have hstanding : ∀ a ∈ Callbacks.presenting b s error.message d, a.isStanding = true := by
                simp [Callbacks.presenting, Callbacks.bringing, Act.isStanding]
              have hsame := Backend.session_play_of (b := b) Session.standing_diagnostic hstanding s
              by_cases hne : c₀ = c'
              · exact .inl hne
              · refine .inr ?_
                rw [hsame] at hdiagnostic
                have hphase : b.phase c₀ = .destroyed := by
                  simpa [Backend.shownIn?, hdiagnostic, Option.filter] using hshown
                rw [Backend.phase, hothers c₀ hne]
                exact hphase
            · have hmem := hin.subset (List.mem_concat_self)
              simp [Callbacks.presenting, Callbacks.bringing] at hmem
  · rw [(Callbacks.does_report_off calls on error).acts_eq] at hpoint
    simp at hpoint

end

/-- In the course of a program a session begins to show failures only in components that were created for
that. -/
theorem presents_execute (calls : Callbacks Code (Prog Code Store)) (leave : Store → Store → Store)
    (fuel : Nat) (p : Prog Code Store α) : (p.execute calls leave fuel).Presents :=
  Run.closed_presents.execute (fun _ heach => ⟨presents_create heach, presents_report heach,
    fun c body => presents_batch heach c .component (heach.body body),
    heach.advance Run.closed_presents (presents_report heach) (fun clocked => Run.Presents.act fun s c heq => by
      rw [heq] at clocked
      cases clocked) _⟩) fuel p

end ViewSync
