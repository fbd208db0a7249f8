import Mathlib.Data.List.Induction
import ViewSync.Proofs.Backend.Still

/-!
# ViewSync.Proofs.Backend.Parts

What the operations on components and sessions do to the parts of the state, one equation for each part:
the components, the arenas and known views of the sessions, the counters, who lives, and what was sent.

The sending operations come first. A session that is closed afterwards has sent nothing, so what a message
adds to `sentTo` can be said in terms of the state behind it (`sentTo_send`).
-/

namespace ViewSync

variable {Code Store : Type}

namespace Channel

theorem closed_of_accept? {channel channel' : Channel} {text : String}
    (h : channel.accept? text = some channel') :
    channel.closed = false ∧ channel'.closed = false := by
  unfold accept? at h
  split at h
  · cases h
  · next hopen =>
    cases h
    exact ⟨by simpa using hopen, by simpa using hopen⟩

/-- Only an open channel takes a frame, and it stays open. -/
theorem closed_of_send? {channel channel' : Channel} {text : String}
    (h : channel.send? text = some channel') : channel.closed = false ∧ channel'.closed = false := by
  unfold send? at h
  split at h
  · exact closed_of_accept? h
  · cases h
  · have hroom := closed_of_accept? h
    exact hroom

end Channel

namespace Backend

variable (b : Backend Code Store)

/-- A session is open while it lives and neither it nor its channel is closed. -/
def isOpen (s : SessionId) : Bool := b.isAlive s && !(b.session s).isClosed

/-! ## sending -/

/-- Sending a message either closes the session or puts the message behind those that were sent. -/
theorem send_cases (s : SessionId) (m : Message) :
    ((b.send s m).session s).isClosed = true ∧ (∀ s', (b.send s m).sentTo s' = b.sentTo s') ∨
      ((b.send s m).session s).isClosed = false ∧
        ∀ s', (b.send s m).sentTo s' = b.sentTo s' ++ if s = s' then [m] else [] := by
  unfold send
  dsimp only
  split
  · next hclosed => exact .inl ⟨hclosed, fun _ => rfl⟩
  · next hopen =>
    have hsession : b.hasSession s = true := hasSession_of_not_isClosed (by simpa using hopen)
    split
    · next channel hsend =>
      refine .inr ⟨?_, fun s' => by rw [sentTo_record_sent]; rfl⟩
      have hchannel := (Channel.closed_of_send? hsend).2
      have hstate : (b.session s).closed = false := by
        simp only [Session.isClosed, Bool.or_eq_true, not_or, Bool.not_eq_true] at hopen
        exact hopen.1
      have hlast : ((b.modifyChannel s fun _ => channel).record (.sent s m)).session s =
          { b.session s with channel := channel } := by
        rw [show ((b.modifyChannel s fun _ => channel).record (.sent s m)).session s =
          (b.modifyChannel s fun _ => channel).session s from rfl, modifyChannel, session_modifySession,
          if_pos ⟨rfl, hsession⟩]
      rw [hlast, Session.isClosed, hstate, hchannel]
      rfl
    · refine .inl ⟨?_, fun _ => rfl⟩
      rw [session_modifySession, if_pos ⟨rfl, hsession⟩]
      rfl

/-- What a message adds to the messages sent. -/
theorem sentTo_send (s s' : SessionId) (m : Message) :
    (b.send s m).sentTo s' =
      b.sentTo s' ++ if s = s' ∧ ((b.send s m).session s).isClosed = false then [m] else [] := by
  obtain ⟨hclosed, hsent⟩ | ⟨hopen, hsent⟩ := b.send_cases s m
  · simp [hsent, hclosed]
  · simp [hsent, hopen]

/-- Of a session, sending changes at most the channel and whether it is closed. -/
theorem session_send_of {γ : Type} (g : Session → γ)
    (hchannel : ∀ x channel, g { x with channel := channel } = g x)
    (hclosed : ∀ x closed, g { x with closed := closed } = g x) (s s' : SessionId) (m : Message) :
    g ((b.send s m).session s') = g (b.session s') := by
  unfold send
  dsimp only
  split
  · rfl
  · split
    · exact session_modifySession_of g (fun x => hchannel x _) s'
    · exact session_modifySession_of g (fun x => hclosed x _) s'

theorem sameParts_send (s : SessionId) (m : Message) : SameParts b (b.send s m) := by
  unfold send
  dsimp only
  split
  · exact .of_eq rfl rfl rfl rfl
  · split
    · next channel _ =>
      have hchannel : SameParts b (b.modifyChannel s fun _ => channel) :=
        .modifySession b s (fun _ => rfl) (fun _ => rfl)
      exact hchannel.trans (.of_eq rfl rfl rfl rfl)
    · exact .modifySession b s (fun _ => rfl) (fun _ => rfl)

/-- A closed session stays closed, whoever sends. -/
theorem isClosed_send {s s' : SessionId} (h : (b.session s').isClosed = true) (m : Message) :
    ((b.send s m).session s').isClosed = true := by
  unfold send
  dsimp only
  split
  · exact h
  · next hopen =>
    have hne : s' ≠ s := fun hs => hopen (hs ▸ h)
    split
    · rw [show ((b.modifyChannel s _).record _).session s' = (b.modifyChannel s _).session s' from rfl,
        modifyChannel, session_modifySession, if_neg fun hs => hne hs.1]
      exact h
    · rw [session_modifySession, if_neg fun hs => hne hs.1]
      exact h

/-- Sends messages one after another. -/
def sendAll (s : SessionId) (ms : List Message) : Backend Code Store :=
  ms.foldl (fun b m => b.send s m) b

theorem sendAll_append_singleton (s : SessionId) (ms : List Message) (m : Message) :
    b.sendAll s (ms ++ [m]) = (b.sendAll s ms).send s m := by
  simp [sendAll]

theorem sameParts_sendAll (s : SessionId) (ms : List Message) : SameParts b (b.sendAll s ms) := by
  induction ms using List.reverseRecOn with
  | nil => exact .of_eq rfl rfl rfl rfl
  | append_singleton ms m ih =>
      rw [sendAll_append_singleton]
      exact ih.trans (sameParts_send _ s m)

theorem isClosed_sendAll {s s' : SessionId} (h : (b.session s').isClosed = true)
    (ms : List Message) : ((b.sendAll s ms).session s').isClosed = true := by
  induction ms using List.reverseRecOn with
  | nil => exact h
  | append_singleton ms m ih =>
      rw [sendAll_append_singleton]
      exact isClosed_send _ ih m

theorem sentTo_sendAll_of_ne {s s' : SessionId} (h : s' ≠ s) (ms : List Message) :
    (b.sendAll s ms).sentTo s' = b.sentTo s' := by
  induction ms using List.reverseRecOn with
  | nil => rfl
  | append_singleton ms m ih =>
      rw [sendAll_append_singleton, sentTo_send, ih, if_neg fun hs => h hs.1.symm, List.append_nil]

/-- A closed session sends nothing. -/
theorem sentTo_send_of_isClosed {s : SessionId} (h : (b.session s).isClosed = true)
    (s' : SessionId) (m : Message) : (b.send s m).sentTo s' = b.sentTo s' := by
  rw [sentTo_send, b.isClosed_send h m]
  simp

theorem sentTo_sendAll_of_isClosed {s : SessionId} (h : (b.session s).isClosed = true)
    (s' : SessionId) (ms : List Message) : (b.sendAll s ms).sentTo s' = b.sentTo s' := by
  induction ms using List.reverseRecOn with
  | nil => rfl
  | append_singleton ms m ih =>
      rw [sendAll_append_singleton, sentTo_send_of_isClosed _ (b.isClosed_sendAll h ms), ih]

/-- A session that is open afterwards sent all messages; one that is closed sent some of the first ones, and
not the last one. -/
theorem sentTo_sendAll (s : SessionId) (ms : List Message) :
    ∃ pre, (b.sendAll s ms).sentTo s = b.sentTo s ++ pre ∧
      (((b.sendAll s ms).session s).isClosed = false → pre = ms) ∧
      (((b.sendAll s ms).session s).isClosed = true → pre <+: ms.dropLast) := by
  induction ms using List.reverseRecOn with
  | nil => exact ⟨[], by simp [sendAll], fun _ => rfl, fun _ => List.nil_prefix⟩
  | append_singleton ms m ih =>
      obtain ⟨pre, hsent, hopen, hclosed⟩ := ih
      rw [sendAll_append_singleton, List.dropLast_concat, sentTo_send]
      cases h : (((b.sendAll s ms).send s m).session s).isClosed with
      | false =>
          have hbefore : ((b.sendAll s ms).session s).isClosed = false := by
            cases hb : ((b.sendAll s ms).session s).isClosed with
            | false => rfl
            | true => rw [isClosed_send _ hb m] at h; cases h
          exact ⟨ms ++ [m], by simp [hsent, hopen hbefore], fun _ => rfl, nofun⟩
      | true =>
          refine ⟨pre, by simp [hsent], nofun, fun _ => ?_⟩
          cases hb : ((b.sendAll s ms).session s).isClosed with
          | false => exact hopen hb ▸ List.prefix_refl pre
          | true => exact (hclosed hb).trans (List.dropLast_prefix ms)

/-! ## who lives -/

theorem isAlive_congr {b b' : Backend Code Store} {s : SessionId}
    (held : (b'.session s).held = (b.session s).held) (stack : b'.stack = b.stack)
    (debouncers : b'.debouncers = b.debouncers) (periodics : b'.periodics = b.periodics)
    (clock : b'.clock = b.clock) : b'.isAlive s = b.isAlive s := by
  simp only [isAlive, awaits, held, stack, debouncers, periodics, clock]

theorem isAlive_send (s s' : SessionId) (m : Message) : (b.send s m).isAlive s' = b.isAlive s' := by
  have held := b.session_send_of (·.held) (fun _ _ => rfl) (fun _ _ => rfl) s s' m
  refine isAlive_congr held ?_ ?_ ?_ ?_
  all_goals
    unfold send
    dsimp only
    split
    · rfl
    · split <;> rfl

/-! ## components -/

@[simp] theorem component?_setComponent (c c' : ComponentId) (k : Component Code) :
    (b.setComponent c k).component? c' = if c' = c then some k else b.component? c' :=
  Table.get?_insert

@[simp] theorem component?_modifyComponent (c c' : ComponentId)
    (f : Component Code → Component Code) :
    (b.modifyComponent c f).component? c' =
      if c' = c then (b.component? c).map f else b.component? c' :=
  Table.get?_modify

theorem component?_retireAll (arena : List ComponentId) (c : ComponentId) :
    (b.retireAll arena).component? c =
      if c ∈ arena then (b.component? c).map Component.retire else b.component? c := by
  induction arena generalizing b with
  | nil => rfl
  | cons c' arena ih =>
      simp only [retireAll, List.foldl_cons] at ih ⊢
      rw [ih, component?_modifyComponent]
      by_cases hc : c = c'
      · -- retiring twice is retiring once
        subst hc
        cases b.component? c <;> simp [Component.retire]
      · simp [hc]

/-! ## sessions opened and closed -/

/-- Retiring components changes nothing but components. -/
theorem retireAll_eq (arena : List ComponentId) :
    ∃ components, b.retireAll arena = { b with components := components } := by
  induction arena generalizing b with
  | nil => exact ⟨b.components, rfl⟩
  | cons c arena ih => exact ih (b.modifyComponent c Component.retire)

/-- Closing a session changes that session, and components. -/
theorem close_eq (s : SessionId) : ∃ components, b.close s =
    { b.modifySession s fun session =>
        { session with closed := true, diagnostic := none, arena := [] } with
      components := components } :=
  retireAll_eq _ _

theorem component?_close (s : SessionId) (c : ComponentId) :
    (b.close s).component? c =
      if c ∈ (b.session s).arena then (b.component? c).map Component.retire else b.component? c :=
  component?_retireAll _ _ c

/-- Behind `close` the sessions are as before, but for the closed one. -/
theorem session_close (s s' : SessionId) :
    (b.close s).session s' =
      if s' = s ∧ b.hasSession s = true
      then { b.session s with closed := true, diagnostic := none, arena := [] } else b.session s' := by
  obtain ⟨components, h⟩ := b.close_eq s
  rw [h]
  exact session_modifySession b s s' _

theorem nextComponent_close (s : SessionId) : (b.close s).nextComponent = b.nextComponent := by
  obtain ⟨components, h⟩ := b.close_eq s
  rw [h]
  rfl

theorem nextSession_close (s : SessionId) : (b.close s).nextSession = b.nextSession := by
  obtain ⟨components, h⟩ := b.close_eq s
  rw [h]
  rfl

theorem hasSession_close (s s' : SessionId) : (b.close s).hasSession s' = b.hasSession s' := by
  obtain ⟨components, h⟩ := b.close_eq s
  rw [h]
  exact hasSession_modifySession b s s' _

theorem sentTo_close (s s' : SessionId) : (b.close s).sentTo s' = b.sentTo s' := by
  obtain ⟨components, h⟩ := b.close_eq s
  rw [h]
  rfl

theorem arena_close (s s' : SessionId) :
    ((b.close s).session s').arena = if s' = s then [] else (b.session s').arena := by
  rw [session_close]
  by_cases hs : s' = s
  · subst hs
    cases h : b.hasSession s' with
    | true => simp
    | false => simp [session_of_not_hasSession h, noSession]
  · simp [hs]

theorem views_close (s s' : SessionId) :
    ((b.close s).session s').views = (b.session s').views := by
  rw [session_close]
  split
  · next h => rw [h.1]
  · rfl

/-- The closed session is closed, and no other one is opened. -/
theorem isClosed_close {s s' : SessionId} (h : s' = s ∨ (b.session s').isClosed = true) :
    ((b.close s).session s').isClosed = true := by
  rw [session_close]
  split
  · rfl
  · next hs =>
    obtain rfl | h := h
    · rw [session_of_not_hasSession (by simpa using hs)]
      rfl
    · exact h

theorem session_openSession (config : SessionConfig) (channel : Channel) (s : SessionId) :
    (b.openSession config channel).2.session s =
      if s = b.nextSession then { config := config, channel := channel } else b.session s := by
  simp only [session, openSession, Table.get?_insert]
  split <;> rfl

theorem hasSession_openSession (config : SessionConfig) (channel : Channel) (s : SessionId) :
    (b.openSession config channel).2.hasSession s = (decide (s = b.nextSession) || b.hasSession s) := by
  simp only [hasSession, openSession, Table.contains_eq_isSome, Table.get?_insert]
  by_cases hs : s = b.nextSession <;> simp [hs]

/-! ## messages of components -/

variable {b}

/-- A message of a component goes to its session, if that is open. -/
theorem sentTo_sendFrom {c : ComponentId} {k : Component Code} (h : b.component? c = some k)
    (s : SessionId) (m : Message) :
    (b.sendFrom c m).sentTo s =
      b.sentTo s ++ if k.session = s ∧ (b.sendFrom c m).isOpen s = true then [m] else [] := by
  unfold sendFrom
  rw [owner?, h]
  cases halive : b.isAlive k.session with
  | false =>
      have : ¬ (k.session = s ∧ b.isOpen s = true) := by
        intro hsent
        obtain ⟨rfl, hopen⟩ := hsent
        simp [isOpen, halive] at hopen
      simp [Option.filter, halive, this]
  | true =>
      simp only [Option.map_some, Option.filter, halive, if_true, sentTo_send]
      by_cases hs : k.session = s
      · subst hs
        simp [isOpen, halive, isAlive_send]
      · simp [hs]

theorem sameParts_sendFrom (b : Backend Code Store) (c : ComponentId) (m : Message) :
    SameParts b (b.sendFrom c m) := by
  unfold sendFrom
  split
  · exact b.sameParts_send _ m
  · exact .of_eq rfl rfl rfl rfl

theorem isClosed_sendFrom {s : SessionId} (h : (b.session s).isClosed = true) (c : ComponentId)
    (m : Message) : ((b.sendFrom c m).session s).isClosed = true := by
  unfold sendFrom
  split
  · exact b.isClosed_send h m
  · exact h

theorem isAlive_sendFrom (b : Backend Code Store) (c : ComponentId) (m : Message)
    (s : SessionId) : (b.sendFrom c m).isAlive s = b.isAlive s := by
  unfold sendFrom
  split
  · exact b.isAlive_send _ s m
  · rfl

end Backend

end ViewSync
