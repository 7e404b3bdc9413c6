import LanguageSessions.Proofs.Session.Stages

namespace LanguageSessions

namespace SessionState

def rank : SessionState → Nat
  | starting => 0
  | ready => 1
  | shuttingDown => 2
  | terminated => 3

end SessionState

namespace Connection

/-- A connection later on, with what was written to it meanwhile; the far end may have taken some of
that, the oldest first. -/
structure Onward (c d : Connection) (wrote : List Message) : Prop where
  outgoing : d.channel.outgoing <:+ c.channel.outgoing ++ wrote.map Message.text
  finished : c.channel.finished = true → d.channel.finished = true ∧ wrote = []
  closed : c.closed = true → d.closed = true
  process : d.channel.process.isNone = c.channel.process.isNone
  dead : c.channel.processAlive = false → d.channel.processAlive = false

namespace Onward

variable {c d e : Connection} {wrote more : List Message}

theorem trans (h : c.Onward d wrote) (k : d.Onward e more) : c.Onward e (wrote ++ more) where
  outgoing := by
    obtain ⟨x, hx⟩ := h.outgoing
    obtain ⟨y, hy⟩ := k.outgoing
    rw [List.map_append, ← List.append_assoc, ← hx]
    exact ⟨x ++ y, by rw [List.append_assoc, hy, List.append_assoc]⟩
  finished hc := by
    obtain ⟨hd, rfl⟩ := h.finished hc
    obtain ⟨he, rfl⟩ := k.finished hd
    exact ⟨he, rfl⟩
  closed hc := k.closed (h.closed hc)
  process := k.process.trans h.process
  dead hc := k.dead (h.dead hc)

theorem of_channel (hchannel : d.channel = c.channel) (hclosed : c.closed = true → d.closed = true) :
    c.Onward d [] where
  outgoing := by
    rw [List.map_nil, List.append_nil]
    exact hchannel ▸ List.suffix_rfl
  finished hc := ⟨by rw [hchannel, hc], rfl⟩
  closed := hclosed
  process := by rw [hchannel]
  dead := by rw [hchannel]; exact id

theorem refl (c : Connection) : c.Onward c [] := .of_channel rfl id

theorem of_taken (hclosed : d.closed = c.closed)
    (houtgoing : d.channel.outgoing <:+ c.channel.outgoing)
    (hfinished : c.channel.finished = true → d.channel.finished = true)
    (hprocess : d.channel.process.isNone = c.channel.process.isNone)
    (hdead : c.channel.processAlive = false → d.channel.processAlive = false) : c.Onward d [] where
  outgoing := by rwa [List.map_nil, List.append_nil]
  finished hc := ⟨hfinished hc, rfl⟩
  closed hc := by rw [hclosed, hc]
  process := hprocess
  dead := hdead

theorem write (c : Connection) (m : Message) : c.Onward (c.write m).1 (told m (c.write m).2) := by
  unfold Connection.write Channel.write
  by_cases hfinished : c.channel.finished = true
  · rw [if_pos hfinished]
    exact .refl c
  · rw [if_neg hfinished]
    by_cases haccepting : c.channel.accepting = true
    · rw [if_pos haccepting]
      exact ⟨List.suffix_rfl, fun hc => absurd hc hfinished, id, rfl, id⟩
    · rw [if_neg haccepting]
      exact .refl c

theorem kill (c : Connection) : c.Onward { c with channel := c.channel.kill } [] := by
  apply of_taken
  · rfl
  · unfold Channel.kill
    cases c.channel.process with
    | none => exact List.suffix_rfl
    | some p => exact List.nil_suffix
  · unfold Channel.kill
    cases c.channel.process <;> exact id
  · unfold Channel.kill
    cases h : c.channel.process with
    | none => exact congrArg Option.isNone h
    | some p => rfl
  · exact fun _ => c.channel.kill_processAlive

theorem far (c : Connection) (e : Channel.Event) : c.Onward (c.step (.far e)) [] := by
  apply of_taken
  · rfl
  · cases e with
    | deliver bytes =>
      change (c.channel.deliver bytes).outgoing <:+ _
      unfold Channel.deliver
      split <;> exact List.suffix_rfl
    | consume rest => exact List.suffix_rfl
    | collect count => exact List.drop_suffix count _
    | deafen => exact List.nil_suffix
    | hangUp => exact List.nil_suffix
    | die => exact List.suffix_rfl
  · cases e with
    | deliver bytes =>
      change _ → (c.channel.deliver bytes).finished = true
      unfold Channel.deliver
      split <;> exact id
    | _ => exact id
  · cases e with
    | deliver bytes =>
      change (c.channel.deliver bytes).process.isNone = _
      unfold Channel.deliver
      split <;> rfl
    | die => exact Option.isNone_map
    | _ => rfl
  · exact c.channel.step_processAlive e

theorem receive (c : Connection) (m : Message) : c.Onward (c.receive m) [] := by
  apply of_channel
  · cases m with
    | request r => rfl
    | response r =>
      unfold Connection.receive Connection.settle
      dsimp only
      split <;> rfl
    | notification n =>
      have hlogged : ∀ params, (c.logged params).channel = c.channel := by
        intro params
        unfold Connection.logged
        split <;> rfl
      unfold Connection.receive Connection.hear
      dsimp only
      split
      · split <;> rfl
      · exact hlogged _
      · exact hlogged _
      · rfl
  · rw [receive_closed]
    exact id

theorem sendRequest (c : Connection) (method : String) (params : Option Json) :
    ∃ wrote, c.Onward (c.sendRequest method params).1 wrote := by
  cases hclosed : c.closed with
  | true =>
    rw [sendRequest_of_closed c method params hclosed]
    exact ⟨[], .refl c⟩
  | false =>
    have hentered : c.Onward { c with nextId := c.nextId + 1 } [] := .of_channel rfl id
    have hwritten := hentered.trans (.write { c with nextId := c.nextId + 1 }
      (.request { id := .number c.nextId, method := method, params := params }))
    rw [sendRequest_of_open c method params hclosed rfl]
    exact ⟨_, hwritten.trans (.of_channel rfl id)⟩

theorem take (c : Connection) (id : Nat) : c.Onward (c.take? id).1 [] := by
  obtain ⟨hclosed, hchannel⟩ := c.take?_keeps id
  exact .of_channel hchannel hclosed.trans

theorem step (c : Connection) (e : Event) : ∃ wrote, c.Onward (c.step e) wrote := by
  cases e with
  | send method params => exact sendRequest c method params
  | notify method params => exact ⟨_, write c _⟩
  | cancel id =>
    have hforgotten : c.Onward (c.forget id) [] := of_channel rfl fun h => h
    exact ⟨_, hforgotten.trans (write (c.forget id) (.notification
      { method := "$/cancelRequest", params := some (.object [("id", .nat id)]) }))⟩
  | take id => exact ⟨[], take c id⟩
  | close => exact ⟨[], .of_taken rfl List.suffix_rfl (fun _ => rfl) rfl id⟩
  | enableLog on => exact ⟨[], .of_channel rfl id⟩
  | hear m =>
    refine ⟨[], ?_⟩
    unfold Connection.step
    dsimp only
    split
    · exact .refl c
    · exact receive c m
  | exit =>
    refine ⟨[], ?_⟩
    unfold Connection.step
    dsimp only
    split
    · exact .refl c
    · exact .of_channel rfl fun _ => rfl
  | reply i =>
    unfold Connection.step Connection.reply
    dsimp only
    split
    · exact ⟨[], .refl c⟩
    · next r hr =>
      have herased : c.Onward { c with owed := c.owed.eraseIdx i } [] := of_channel rfl fun h => h
      exact ⟨_, herased.trans (write _ (.response r))⟩
  | far e => exact ⟨[], far c e⟩

end Onward

end Connection

namespace Session

structure Onward (s t : Session) (wrote : List Message) : Prop where
  state : s.state.rank ≤ t.state.rank
  announced : ∀ a, s.announced = some a → t.announced = some a
  connection : s.connection.Onward t.connection wrote

namespace Onward

variable {s t u : Session} {wrote more : List Message}

theorem trans (h : s.Onward t wrote) (k : t.Onward u more) : s.Onward u (wrote ++ more) where
  state := h.state.trans k.state
  announced a ha := k.announced a (h.announced a ha)
  connection := h.connection.trans k.connection

theorem on {c : Connection} (h : s.connection.Onward c wrote) :
    s.Onward { s with connection := c } wrote :=
  ⟨Nat.le_refl _, fun _ h => h, h⟩

theorem refl (s : Session) : s.Onward s [] := on (.refl _)

theorem of_state (hstate : s.state.rank ≤ t.state.rank)
    (hannounced : ∀ a, s.announced = some a → t.announced = some a)
    (hconnection : t.connection = s.connection) : s.Onward t [] :=
  ⟨hstate, hannounced, hconnection ▸ .refl _⟩

theorem enterShuttingDown (s : Session) : s.Onward s.enterShuttingDown [] := by
  cases hstate : s.state <;>
    simp only [Session.enterShuttingDown, hstate] <;>
    exact .of_state (by simp [hstate, SessionState.rank]) (fun _ h => h) rfl

theorem beginCleanup (s : Session) : s.Onward s.beginCleanup [] := by
  have hmarked : s.Onward { s with cleanedUp := true, cleanups := s.cleanups + 1 } [] :=
    of_state (Nat.le_refl _) (fun _ h => h) rfl
  exact hmarked.trans (enterShuttingDown _)

theorem terminated (s : Session) : s.Onward (Cleanup.terminated s) [] := by
  apply of_state
  · cases h : s.state <;> simp [Cleanup.terminated, SessionState.rank]
  · exact fun _ h => h
  · rfl

theorem killProcess (s : Session) : s.Onward s.killProcess [] := on (.kill _)

theorem kill (s : Session) : s.Onward s.kill [] := by
  have hkilled : s.Onward s.killIfAlive [] := by
    unfold Session.killIfAlive
    split
    · exact killProcess s
    · exact refl s
  exact hkilled.trans (terminated _)

theorem accept (s : Session) (o : HandshakeOutcome) : s.Onward (Handshake.accept s o) [] := by
  apply of_state
  · unfold Handshake.accept
    split
    · next hstate => simp [hstate, SessionState.rank]
    · exact Nat.le_refl _
  · intro a ha
    simp [Handshake.accept, ha]
  · rfl

theorem ended (h : s.Onward t wrote) (hs : s.Ended) : t.Ended := by
  refine ⟨?_, h.connection.dead hs.2⟩
  have hrank := h.state
  rw [hs.1] at hrank
  cases hstate : t.state with
  | terminated => rfl
  | _ => simp [hstate, SessionState.rank] at hrank

theorem unusable (h : s.Onward t wrote) (hstate : s.state ≠ .starting)
    (hunusable : s.isUsable = false) : t.isUsable = false := by
  apply Bool.eq_false_iff.mpr
  intro husable
  have hparts : t.state = .ready ∧ t.isAlive = true ∧ t.connection.closed = false := by
    simpa [isUsable, and_assoc] using husable
  obtain ⟨hready, halive, hopen⟩ := hparts
  -- What makes a session usable later on it had before: nothing of it comes back.
  have hstate' : s.state = .ready := by
    have hrank := h.state
    rw [hready] at hrank
    cases hs : s.state with
    | starting => exact absurd hs hstate
    | ready => rfl
    | shuttingDown => simp [hs, SessionState.rank] at hrank
    | terminated => simp [hs, SessionState.rank] at hrank
  have hopen' : s.connection.closed = false :=
    Bool.eq_false_iff.mpr fun hc => by simp [h.connection.closed hc] at hopen
  have halive' : s.isAlive = true := by
    have hnone := h.connection.process
    have hdead := h.connection.dead
    unfold isAlive process at halive ⊢
    cases hp : s.connection.channel.process with
    | none => simp [hopen']
    | some p =>
      cases hq : t.connection.channel.process with
      | none => simp [hp, hq] at hnone
      | some q =>
        rw [hq] at halive
        simpa [Channel.processAlive, hp, hq, halive] using hdead
  simp [isUsable, hstate', halive', hopen'] at hunusable

end Onward

end Session

namespace Purpose

open Session (Onward)

theorem settle_wrote (p : Purpose) (s : Session) : (p.settle s).wrote = [] := by
  cases p with
  | cleanup gentle => cases gentle <;> rfl
  | _ => rfl

theorem onward_settle (p : Purpose) (s : Session) : s.Onward (p.settle s).session [] := by
  cases p with
  | cleanup gentle =>
    cases gentle with
    | true => exact .refl s
    | false => exact .kill s
  | _ => exact .refl s

theorem onward_enter (p : Purpose) (s : Session) :
    s.Onward (p.enter s).session (p.enter s).wrote := by
  unfold enter
  split
  · rw [settle_wrote]
    exact onward_settle p s
  · exact .on (.of_channel rfl fun h => h)

theorem onward_forget (s : Session) (id : Nat) :
    s.Onward { s with connection := s.connection.forget id } [] :=
  .on (.of_channel rfl fun h => h)

theorem onward_write (p : Purpose) (greeting : Json) (id : Nat) (s : Session) :
    s.Onward (p.write greeting id s).session (p.write greeting id s).wrote := by
  have hwritten := Connection.Onward.write s.connection (.request (p.request greeting id))
  unfold write Session.onConnection
  dsimp only
  generalize s.connection.write (.request (p.request greeting id)) = r at hwritten ⊢
  obtain ⟨c, r⟩ := r
  cases r with
  | ok u => exact .on hwritten
  | error f =>
    dsimp only
    rw [settle_wrote]
    have hleft : s.Onward { s with connection := c } [] := .on hwritten
    exact (hleft.trans (onward_forget _ id)).trans (onward_settle p _)

theorem onward_take (s : Session) (id : Nat) :
    s.Onward (s.onConnection (·.take? id)).1 [] :=
  .on (.take s.connection id)

theorem onward_await (p : Purpose) (id : Nat) (late : Bool) (s : Session) :
    s.Onward (p.await id late s).session (p.await id late s).wrote := by
  have htaken := onward_take s id
  unfold await
  generalize s.onConnection (·.take? id) = r at htaken ⊢
  obtain ⟨t, r⟩ := r
  cases r with
  | some answer =>
    dsimp only
    rw [settle_wrote]
    exact htaken.trans (onward_settle p t)
  | none =>
    dsimp only
    split
    · exact htaken.trans (onward_forget t id)
    · exact htaken

theorem onward_greet (id : Nat) (late : Bool) (s : Session) :
    s.Onward (greet id late s).session (greet id late s).wrote := by
  have htaken := onward_take s id
  unfold greet
  generalize s.onConnection (·.take? id) = r at htaken ⊢
  obtain ⟨t, r⟩ := r
  dsimp only at htaken
  split
  · next heq =>
    cases heq
    unfold greeted
    split
    · exact htaken.trans (.accept t {})
    · exact htaken
  · next heq =>
    cases heq
    exact htaken
  · next heq =>
    cases heq
    exact htaken.trans (.accept t {})
  · next heq =>
    cases heq
    split
    · exact htaken
    · split
      · exact htaken.trans (onward_forget t id)
      · exact htaken

theorem onward_cancel (p : Purpose) (id : Nat) (s : Session) :
    s.Onward (p.cancel id s).session (p.cancel id s).wrote := by
  have hwritten := Connection.Onward.write s.connection (.notification
    { method := "$/cancelRequest", params := some (.object [("id", .nat id)]) })
  unfold cancel Session.onConnection
  dsimp only
  generalize s.connection.write _ = r at hwritten ⊢
  obtain ⟨c, r⟩ := r
  have htold : s.Onward { s with connection := c } _ := .on hwritten
  dsimp only at htold ⊢
  cases p with
  | opening =>
    have hdone := htold.trans (.accept _ { timedOut := true })
    rwa [List.append_nil] at hdone
  | asking => exact htold
  | cleanup gentle =>
    have hdone := htold.trans (onward_settle (.cleanup gentle) _)
    rwa [List.append_nil] at hdone

end Purpose

namespace Stage

open Session (Onward)

theorem onward_begin (s : Session) (o : Operation) :
    s.Onward (begin s o).session (begin s o).wrote := by
  cases o with
  | handshake => exact Purpose.onward_enter _ s
  | shutdown => exact (Onward.enterShuttingDown s).trans (Purpose.onward_enter _ _)
  | shutdownAndKill =>
    unfold begin
    dsimp only
    split
    · exact .refl s
    · exact (Onward.beginCleanup s).trans (Purpose.onward_enter _ _)
  | dispose =>
    unfold begin
    dsimp only
    split
    · exact .refl s
    · split
      · exact (Onward.beginCleanup s).trans (Purpose.onward_enter _ _)
      · exact .beginCleanup s
  | kill => exact .kill s

theorem onward_confirm (o : HandshakeOutcome) (s : Session) :
    s.Onward (confirm o s).session (confirm o s).wrote := by
  have hwritten := Connection.Onward.write s.connection
    (.notification { method := "initialized", params := some (.object []) })
  unfold confirm Session.onConnection
  dsimp only
  generalize s.connection.write _ = r at hwritten ⊢
  obtain ⟨c, r⟩ := r
  have htold : s.Onward { s with connection := c } _ := .on hwritten
  cases r with
  | ok u => exact htold.trans (.accept _ o)
  | error f => exact htold

theorem onward_linger (late : Bool) (s : Session) :
    s.Onward (linger late s).session (linger late s).wrote := by
  unfold linger
  split
  · exact .terminated s
  · split
    · exact (Onward.killProcess s).trans (.terminated _)
    · exact .refl s

theorem step_onward (greeting : Json) (late : Bool) (s : Session) (g : Stage) :
    s.Onward (g.step greeting late s).session (g.step greeting late s).wrote := by
  cases g with
  | ready o => exact onward_begin s o
  | writing p id => exact p.onward_write greeting id s
  | waiting p id =>
    cases p with
    | opening => exact Purpose.onward_greet id late s
    | _ => exact Purpose.onward_await _ id late s
  | cancelling p id => exact p.onward_cancel id s
  | confirming o => exact onward_confirm o s
  | departing => exact .on (.write s.connection _)
  | closing gentle => exact .on (.of_taken rfl List.suffix_rfl (fun _ => rfl) rfl fun h => h)
  | closed gentle =>
    cases gentle with
    | true => exact onward_linger late s
    | false => exact .terminated s
  | exiting => exact onward_linger late s
  | ended => exact .refl s

end Stage

end LanguageSessions
