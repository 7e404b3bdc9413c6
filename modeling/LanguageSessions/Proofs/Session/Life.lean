import LanguageSessions.Proofs.Connection.Death
import LanguageSessions.Session.Cleanup
import LanguageSessions.Session.Handshake

namespace LanguageSessions

namespace Session

def processAlive (s : Session) : Bool := s.connection.channel.processAlive

def Ended (s : Session) : Prop := s.state = .terminated ∧ s.processAlive = false

structure Quiet (s t : Session) : Prop where
  id : t.id = s.id
  key : t.key = s.key
  cleanedUp : t.cleanedUp = s.cleanedUp
  cleanups : t.cleanups = s.cleanups
  ended : s.Ended → t.Ended

theorem Quiet.rfl (s : Session) : s.Quiet s := ⟨by rfl, by rfl, by rfl, by rfl, fun h => h⟩

theorem Quiet.trans {s t u : Session} (h : s.Quiet t) (k : t.Quiet u) : s.Quiet u where
  id := k.id.trans h.id
  key := k.key.trans h.key
  cleanedUp := k.cleanedUp.trans h.cleanedUp
  cleanups := k.cleanups.trans h.cleanups
  ended := fun e => k.ended (h.ended e)

theorem quiet_connection (s : Session) (c : Connection)
    (h : s.processAlive = false → c.channel.processAlive = false) :
    s.Quiet { s with connection := c } :=
  ⟨rfl, rfl, rfl, rfl, fun e => ⟨e.1, h e.2⟩⟩

theorem quiet_onConnection (s : Session) (f : Connection → Connection × α)
    (h : (f s.connection).1.channel.process = s.connection.channel.process) :
    s.Quiet (s.onConnection f).1 :=
  s.quiet_connection _ fun e => (Channel.processAlive_congr h).trans e

theorem quiet_notify (s : Session) (method : String) (params : Option Json) :
    s.Quiet (s.notify method params).1 :=
  s.quiet_onConnection _ (s.connection.notify_process method params)

theorem enterShuttingDown_of_ended (s : Session) (h : s.state = .terminated) :
    s.enterShuttingDown = s := by
  unfold enterShuttingDown
  rw [h]

theorem quiet_enterShuttingDown (s : Session) : s.Quiet s.enterShuttingDown := by
  have hended : s.Ended → s.enterShuttingDown.Ended := by
    intro e
    rw [enterShuttingDown_of_ended s e.1]
    exact e
  unfold enterShuttingDown at hended ⊢
  split at hended
  · exact ⟨rfl, rfl, rfl, rfl, hended⟩
  · exact ⟨rfl, rfl, rfl, rfl, hended⟩
  · exact Quiet.rfl s

theorem quiet_killProcess (s : Session) : s.Quiet s.killProcess :=
  s.quiet_connection _ fun _ => s.connection.channel.kill_processAlive

theorem quiet_killIfAlive (s : Session) : s.Quiet s.killIfAlive := by
  unfold killIfAlive
  split
  · exact s.quiet_killProcess
  · exact Quiet.rfl s

theorem killIfAlive_processAlive (s : Session) : s.killIfAlive.processAlive = false := by
  unfold killIfAlive
  split
  · exact s.connection.channel.kill_processAlive
  · next h => exact Bool.eq_false_iff.mpr h

theorem kill_ended (s : Session) : s.kill.Ended := ⟨rfl, s.killIfAlive_processAlive⟩

theorem quiet_kill (s : Session) : s.Quiet s.kill where
  id := s.quiet_killIfAlive.id
  key := s.quiet_killIfAlive.key
  cleanedUp := s.quiet_killIfAlive.cleanedUp
  cleanups := s.quiet_killIfAlive.cleanups
  ended := fun _ => s.kill_ended

theorem abandon_ended (s : Session) : s.abandon.Ended := kill_ended _

theorem abandon_id (s : Session) : s.abandon.id = s.id :=
  (quiet_kill { s with cleanedUp := true }).id

theorem abandon_key (s : Session) : s.abandon.key = s.key :=
  (quiet_kill { s with cleanedUp := true }).key

theorem abandon_cleanedUp (s : Session) : s.abandon.cleanedUp = true :=
  (quiet_kill { s with cleanedUp := true }).cleanedUp

theorem abandon_cleanups (s : Session) : s.abandon.cleanups = s.cleanups :=
  (quiet_kill { s with cleanedUp := true }).cleanups

theorem quiet_shutdown (s : Session) : s.Quiet s.shutdown :=
  s.quiet_enterShuttingDown.trans
    (quiet_onConnection _ _ (Connection.sendRequest_process _ "shutdown" none))

theorem quiet_openFile (s : Session) (file : String) : s.Quiet (s.openFile file).1 := by
  unfold openFile
  split
  · exact Quiet.rfl s
  · exact ⟨rfl, rfl, rfl, rfl, fun e => e⟩

theorem quiet_closeFile (s : Session) (file : String) : s.Quiet (s.closeFile file).1 :=
  ⟨rfl, rfl, rfl, rfl, fun e => e⟩

theorem quiet_release (s : Session) : s.Quiet s.release := by
  unfold release
  split
  · exact Quiet.rfl s
  · exact s.quiet_killIfAlive

end Session

namespace Cleanup

open Session (Quiet processAlive)

theorem quiet_terminated (s : Session) : s.Quiet (terminated s) :=
  ⟨rfl, rfl, rfl, rfl, fun e => ⟨rfl, e.2⟩⟩

theorem quiet_close (s : Session) : s.Quiet (close s) := s.quiet_onConnection _ rfl

theorem quiet_look (deadline now : Nat) (s : Session) : s.Quiet (look deadline now s).1 := by
  unfold look
  split
  · exact quiet_terminated s
  · split
    · exact s.quiet_killProcess.trans (quiet_terminated _)
    · exact Quiet.rfl s

theorem look_ended (deadline now : Nat) (s : Session) :
    (look deadline now s).2 = .done () → (look deadline now s).1.Ended := by
  unfold look
  split
  · next hp => exact fun _ => ⟨rfl, by simpa [processAlive, terminated] using hp⟩
  · split
    · exact fun _ => ⟨rfl, s.connection.channel.kill_processAlive⟩
    · rintro ⟨⟩

theorem quiet_afterAsking (gentle : Bool) (now : Nat) (s : Session) :
    s.Quiet (afterAsking gentle now s).1 := by
  unfold afterAsking
  split
  · exact ((s.quiet_notify _ _).trans (quiet_close _)).trans (quiet_look _ _ _)
  · exact (s.quiet_kill.trans (quiet_close _)).trans (quiet_terminated _)

theorem afterAsking_ended (gentle : Bool) (now : Nat) (s : Session) :
    (afterAsking gentle now s).2 = .done () → (afterAsking gentle now s).1.Ended := by
  unfold afterAsking
  split
  · exact look_ended _ _ _
  · exact fun _ => ⟨rfl, ((quiet_close _).ended s.kill_ended).2⟩

theorem quiet_ask (gentle : Bool) (now : Nat) (s : Session) : s.Quiet (ask gentle now s).1 := by
  have h := s.quiet_onConnection
    (fun c => Exchange.start c "shutdown" none s.timing.shutdownTimeout now)
    (Exchange.start_process _ _ _ _ _)
  unfold ask
  split
  · next heq =>
    rw [heq] at h
    exact h.trans (quiet_afterAsking gentle now _)
  · next heq =>
    rw [heq] at h
    exact h

theorem ask_ended (gentle : Bool) (now : Nat) (s : Session) :
    (ask gentle now s).2 = .done () → (ask gentle now s).1.Ended := by
  unfold ask
  split
  · exact afterAsking_ended _ _ _
  · rintro ⟨⟩

theorem quiet_advance (w : Cleanup) (now : Nat) (s : Session) : s.Quiet (w.advance now s).1 := by
  cases w with
  | asking gentle x =>
    have h := s.quiet_onConnection (x.advance now) (x.advance_process now s.connection)
    unfold advance
    dsimp only
    split
    · next heq =>
      rw [heq] at h
      exact h
    · next heq =>
      rw [heq] at h
      exact h.trans (quiet_afterAsking gentle now _)
  | leaving deadline due =>
    unfold advance
    dsimp only
    split
    · exact quiet_look deadline now s
    · exact Quiet.rfl s

theorem advance_ended (w : Cleanup) (now : Nat) (s : Session) :
    (w.advance now s).2 = .done () → (w.advance now s).1.Ended := by
  cases w with
  | asking gentle x =>
    unfold advance
    dsimp only
    split
    · rintro ⟨⟩
    · exact afterAsking_ended _ _ _
  | leaving deadline due =>
    unfold advance
    dsimp only
    split
    · exact look_ended _ _ _
    · rintro ⟨⟩

theorem look_ne_idle (deadline now : Nat) (s : Session) : (look deadline now s).2 ≠ .idle := by
  unfold look
  split
  · rintro ⟨⟩
  · split <;> rintro ⟨⟩

theorem afterAsking_ne_idle (gentle : Bool) (now : Nat) (s : Session) :
    (afterAsking gentle now s).2 ≠ .idle := by
  unfold afterAsking
  split
  · exact look_ne_idle _ _ _
  · rintro ⟨⟩

theorem ask_ne_idle (gentle : Bool) (now : Nat) (s : Session) : (ask gentle now s).2 ≠ .idle := by
  unfold ask
  split
  · exact afterAsking_ne_idle _ _ _
  · rintro ⟨⟩

end Cleanup

namespace Session

structure Begins (s : Session) (p : Session × Advance Cleanup Unit) : Prop where
  id : p.1.id = s.id
  key : p.1.key = s.key
  cleanedUp : p.1.cleanedUp = true
  cleanups : p.1.cleanups = s.cleanups + 1
  under : (∃ c, p.2 = .on c) ∨ p.2 = .done () ∧ p.1.Ended

theorem begins_of_quiet {s : Session} {p : Session × Advance Cleanup Unit}
    (hq : s.beginCleanup.Quiet p.1) (hidle : p.2 ≠ .idle) (hended : p.2 = .done () → p.1.Ended) :
    s.Begins p := by
  have hb := quiet_enterShuttingDown { s with cleanedUp := true, cleanups := s.cleanups + 1 }
  have h := hb.trans hq
  refine ⟨h.id, h.key, h.cleanedUp, h.cleanups, ?_⟩
  cases hp : p.2 with
  | idle => exact absurd hp hidle
  | on c => exact .inl ⟨c, rfl⟩
  | done u => exact .inr ⟨rfl, hended hp⟩

def IsCleanup (f : Session → Session × Advance Cleanup Unit) : Prop :=
  ∀ s, s.cleanedUp = true ∧ f s = (s, .done ()) ∨ s.cleanedUp = false ∧ s.Begins (f s)

theorem isCleanup_dispose (now : Nat) : IsCleanup (·.dispose now) := by
  intro s
  dsimp only
  unfold dispose
  cases hs : s.cleanedUp with
  | true => exact .inl ⟨rfl, rfl⟩
  | false =>
    right
    refine ⟨rfl, ?_⟩
    rw [if_neg Bool.false_ne_true]
    dsimp only
    split
    · exact begins_of_quiet (Cleanup.quiet_ask _ _ _) (Cleanup.ask_ne_idle _ _ _)
        (Cleanup.ask_ended _ _ _)
    · exact begins_of_quiet ((Cleanup.quiet_close _).trans (Cleanup.quiet_look _ _ _))
        (Cleanup.look_ne_idle _ _ _) (Cleanup.look_ended _ _ _)

theorem isCleanup_shutdownAndKill (now : Nat) : IsCleanup (·.shutdownAndKill now) := by
  intro s
  dsimp only
  unfold shutdownAndKill
  cases hs : s.cleanedUp with
  | true => exact .inl ⟨rfl, rfl⟩
  | false =>
    right
    refine ⟨rfl, ?_⟩
    rw [if_neg Bool.false_ne_true]
    exact begins_of_quiet (Cleanup.quiet_ask _ _ _) (Cleanup.ask_ne_idle _ _ _)
      (Cleanup.ask_ended _ _ _)

end Session

namespace Handshake

open Session (Quiet)

theorem quiet_start (h : Host) (processId now : Nat) (s : Session) :
    s.Quiet (start h processId now s).1 ∧ (start h processId now s).1.state = s.state := by
  have hq := s.quiet_onConnection
    (·.sendRequest "initialize" (some (introduction h (some processId) s.root)))
    (Connection.sendRequest_process _ _ _)
  unfold start
  dsimp only
  split <;>
    next heq =>
      have hstate := congrArg (·.1.state) heq
      rw [heq] at hq
      exact ⟨hq, hstate.symm⟩

theorem quiet_accept (s : Session) (o : HandshakeOutcome) : s.Quiet (accept s o) := by
  refine ⟨rfl, rfl, rfl, rfl, ?_⟩
  rintro ⟨hstate, halive⟩
  refine ⟨?_, halive⟩
  rw [accept, if_neg (by simp [hstate])]
  exact hstate

theorem accept_ready (s : Session) (o : HandshakeOutcome) (h : s.state = .starting) :
    (accept s o).state = .ready := by
  rw [accept, if_pos h]

structure Leads (s : Session) (p : Session × Advance Handshake (Except Fault HandshakeOutcome)) :
    Prop where
  quiet : s.Quiet p.1
  ready : ∀ o, s.state = .starting → p.2 = .done (.ok o) → o.exited = false → p.1.state = .ready
  starting : s.state = .starting → (∀ r, p.2 ≠ .done r) → p.1.state = .starting

theorem finish_leads (s : Session) (v : Json) : Leads s ((finish s v).1, .done (finish s v).2) := by
  have hq := s.quiet_notify "initialized" (some (.object []))
  unfold finish
  split
  · exact ⟨quiet_accept s {}, fun o hs _ _ => accept_ready s _ hs, fun _ h => absurd rfl (h _)⟩
  · split
    · next heq =>
      rw [heq] at hq
      exact ⟨hq, by rintro o - ⟨⟩, fun _ h => absurd rfl (h _)⟩
    · next heq =>
      have hstate := congrArg (·.1.state) heq
      rw [heq] at hq
      exact ⟨hq.trans (quiet_accept _ _), fun o hs _ _ => accept_ready _ _ (hstate.symm.trans hs),
        fun _ h => absurd rfl (h _)⟩

theorem look_leads (hs : Handshake) (now : Nat) (s : Session) : Leads s (hs.look now s) := by
  unfold look
  split
  · refine ⟨Quiet.rfl s, ?_, fun _ h => absurd rfl (h _)⟩
    rintro o - ⟨⟩ ⟨⟩
  · split
    · dsimp only
      have hq := s.quiet_onConnection (fun c => (c.cancelRequest hs.request, ()))
        (Connection.cancelRequest_process _ _)
      exact ⟨hq.trans (quiet_accept _ _), fun o hs _ _ => accept_ready _ _ hs,
        fun _ h => absurd rfl (h _)⟩
    · exact ⟨Quiet.rfl s, by rintro o - ⟨⟩, fun h _ => h⟩

theorem advance_leads (hs : Handshake) (now : Nat) (s : Session) : Leads s (hs.advance now s) := by
  have hq := s.quiet_onConnection (·.take? hs.request) (Connection.take?_process _ _)
  have hstate : (s.onConnection (·.take? hs.request)).1.state = s.state := rfl
  unfold advance
  generalize s.onConnection (·.take? hs.request) = p at hq hstate
  obtain ⟨t, a⟩ := p
  dsimp only at hq hstate
  have hafter : ∀ q, Leads t q → Leads s q := fun q h =>
    ⟨hq.trans h.quiet, fun o hs => h.ready o (hstate.trans hs), fun hs => h.starting (hstate.trans hs)⟩
  split
  · next heq =>
    cases heq
    exact hafter _ (finish_leads t _)
  · next heq =>
    cases heq
    apply hafter
    refine ⟨Quiet.rfl t, ?_, fun _ h => absurd rfl (h _)⟩
    rintro o - ⟨⟩ ⟨⟩
  · next heq =>
    cases heq
    exact hafter _ ⟨quiet_accept t {}, fun o hs _ _ => accept_ready t _ hs, fun _ h => absurd rfl (h _)⟩
  · next heq =>
    cases heq
    apply hafter
    split
    · exact look_leads hs now t
    · exact ⟨Quiet.rfl t, by rintro o - ⟨⟩, fun h _ => h⟩

end Handshake

end LanguageSessions
