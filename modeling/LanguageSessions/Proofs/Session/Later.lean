import LanguageSessions.Proofs.Session.Lifecycle

namespace LanguageSessions

namespace Session

structure Later (s t : Session) : Prop where
  id : t.id = s.id
  onward : ∃ wrote, s.Onward t wrote
  cleanedUp : s.cleanedUp = true → t.cleanedUp = true
  timing : t.timing = s.timing

def Spent (s : Session) : Prop := s.state ≠ .starting ∧ s.isUsable = false

namespace Later

variable {s t u : Session}

theorem refl (s : Session) : s.Later s := ⟨rfl, ⟨[], .refl s⟩, fun h => h, rfl⟩

theorem trans (h : s.Later t) (k : t.Later u) : s.Later u where
  id := k.id.trans h.id
  onward := by
    obtain ⟨wrote, hw⟩ := h.onward
    obtain ⟨more, hm⟩ := k.onward
    exact ⟨wrote ++ more, hw.trans hm⟩
  cleanedUp hc := k.cleanedUp (h.cleanedUp hc)
  timing := k.timing.trans h.timing

theorem begun (h : s.Later t) (hs : s.state ≠ .starting) : t.state ≠ .starting := by
  obtain ⟨wrote, hw⟩ := h.onward
  intro ht
  have hrank := hw.state
  rw [ht] at hrank
  cases hstate : s.state with
  | starting => exact hs hstate
  | _ => simp [hstate, SessionState.rank] at hrank

theorem spent (h : s.Later t) (hs : s.Spent) : t.Spent := by
  obtain ⟨wrote, hw⟩ := h.onward
  exact ⟨h.begun hs.1, hw.unusable hs.1 hs.2⟩

theorem ended (h : s.Later t) (hs : s.Ended) : t.Ended := by
  obtain ⟨wrote, hw⟩ := h.onward
  exact hw.ended hs

theorem event (s : Session) (e : Connection.Event) :
    s.Later { s with connection := s.connection.step e } := by
  obtain ⟨wrote, hw⟩ := Connection.Onward.step s.connection e
  exact ⟨rfl, ⟨wrote, .on hw⟩, fun h => h, rfl⟩

theorem onConnection {f : Connection → Connection × α} (e : Connection.Event)
    (hf : (f s.connection).1 = s.connection.step e) : s.Later (s.onConnection f).1 := by
  unfold Session.onConnection
  rw [show f s.connection = (s.connection.step e, (f s.connection).2) from Prod.ext hf rfl]
  exact event s e

theorem enterShuttingDown (s : Session) : s.Later s.enterShuttingDown where
  id := by unfold Session.enterShuttingDown; split <;> rfl
  onward := ⟨[], .enterShuttingDown s⟩
  cleanedUp := by unfold Session.enterShuttingDown; split <;> exact fun h => h
  timing := by unfold Session.enterShuttingDown; split <;> rfl

theorem terminated (s : Session) : s.Later (Cleanup.terminated s) :=
  ⟨rfl, ⟨[], .terminated s⟩, fun h => h, rfl⟩

theorem killProcess (s : Session) : s.Later s.killProcess :=
  ⟨rfl, ⟨[], .killProcess s⟩, fun h => h, rfl⟩

theorem killIfAlive (s : Session) : s.Later s.killIfAlive := by
  unfold Session.killIfAlive
  split
  · exact killProcess s
  · exact refl s

theorem kill (s : Session) : s.Later s.kill := (killIfAlive s).trans (terminated _)

theorem marked (s : Session) (n : Nat) : s.Later { s with cleanedUp := true, cleanups := n } :=
  ⟨rfl, ⟨[], .of_state (Nat.le_refl _) (fun _ h => h) rfl⟩, fun _ => rfl, rfl⟩

theorem abandon (s : Session) : s.Later s.abandon := (marked s s.cleanups).trans (kill _)

theorem accept (s : Session) (o : HandshakeOutcome) : s.Later (Handshake.accept s o) :=
  ⟨rfl, ⟨[], .accept s o⟩, fun h => h, rfl⟩

theorem shutdown (s : Session) : s.Later s.shutdown :=
  (enterShuttingDown s).trans (onConnection (.send "shutdown" none) rfl)

theorem opened (s : Session) (files : List String) : s.Later { s with opened := files } :=
  ⟨rfl, ⟨[], .of_state (Nat.le_refl _) (fun _ h => h) rfl⟩, fun h => h, rfl⟩

theorem release (s : Session) : s.Later s.release := by
  unfold Session.release
  split
  · exact refl s
  · exact killIfAlive s

theorem exchangeStart (s : Session) (method : String) (params : Option Json) (millis now : Nat) :
    s.Later (s.onConnection fun c => Exchange.start c method params millis now).1 := by
  apply onConnection (.send method params)
  unfold Exchange.start
  change _ = (s.connection.sendRequest method params).1
  split <;> next heq => rw [heq]

theorem exchangeAdvance (s : Session) (x : Exchange) (now : Nat) :
    s.Later (s.onConnection (x.advance now)).1 := by
  have htaken : s.Later (s.onConnection (·.take? x.id)).1 := onConnection (.take x.id) rfl
  unfold Session.onConnection Exchange.advance at *
  dsimp only at *
  generalize s.connection.take? x.id = p at htaken ⊢
  obtain ⟨c, r⟩ := p
  cases r with
  | some r => exact htaken
  | none =>
    dsimp only at htaken ⊢
    split
    · exact htaken.trans (event { s with connection := c } (.cancel x.id))
    · exact htaken

end Later

end Session

namespace Cleanup

open Session (Later)

theorem later_look (deadline now : Nat) (s : Session) : s.Later (look deadline now s).1 := by
  unfold look
  split
  · exact .terminated s
  · split
    · exact (Later.killProcess s).trans (.terminated _)
    · exact .refl s

theorem later_close (s : Session) : s.Later (close s) := .onConnection .close rfl

theorem later_afterAsking (gentle : Bool) (now : Nat) (s : Session) :
    s.Later (afterAsking gentle now s).1 := by
  unfold afterAsking
  split
  · have hnotified : s.Later (s.notify "exit" none).1 := .onConnection (.notify "exit" none) rfl
    exact (hnotified.trans (later_close _)).trans (later_look _ _ _)
  · exact ((Later.kill s).trans (later_close _)).trans (.terminated _)

theorem later_ask (gentle : Bool) (now : Nat) (s : Session) : s.Later (ask gentle now s).1 := by
  have hstarted := Later.exchangeStart s "shutdown" none s.timing.shutdownTimeout now
  unfold ask
  split
  · next heq =>
    rw [heq] at hstarted
    exact hstarted.trans (later_afterAsking gentle now _)
  · next heq =>
    rw [heq] at hstarted
    exact hstarted

theorem later_advance (w : Cleanup) (now : Nat) (s : Session) : s.Later (w.advance now s).1 := by
  cases w with
  | asking gentle x =>
    have hadvanced := Later.exchangeAdvance s x now
    unfold advance
    dsimp only
    split
    · next heq =>
      rw [heq] at hadvanced
      exact hadvanced
    · next heq =>
      rw [heq] at hadvanced
      exact hadvanced.trans (later_afterAsking gentle now _)
  | leaving deadline due =>
    unfold advance
    dsimp only
    split
    · exact later_look deadline now s
    · exact .refl s

end Cleanup

namespace Session

theorem later_beginCleanup (s : Session) : s.Later s.beginCleanup :=
  (Later.marked s (s.cleanups + 1)).trans (.enterShuttingDown _)

theorem later_dispose (s : Session) (now : Nat) : s.Later (s.dispose now).1 := by
  unfold dispose
  split
  · exact .refl s
  · dsimp only
    split
    · exact (later_beginCleanup s).trans (Cleanup.later_ask _ _ _)
    · exact ((later_beginCleanup s).trans (Cleanup.later_close _)).trans (Cleanup.later_look _ _ _)

theorem later_shutdownAndKill (s : Session) (now : Nat) : s.Later (s.shutdownAndKill now).1 := by
  unfold shutdownAndKill
  split
  · exact .refl s
  · exact (later_beginCleanup s).trans (Cleanup.later_ask _ _ _)

end Session

namespace Handshake

open Session (Later)

theorem later_start (h : Host) (processId now : Nat) (s : Session) :
    s.Later (start h processId now s).1 := by
  have hsent : s.Later (s.onConnection (·.sendRequest "initialize"
      (some (introduction h (some processId) s.root)))).1 := .onConnection (.send _ _) rfl
  unfold start
  dsimp only
  split <;>
    next heq =>
      rw [heq] at hsent
      exact hsent

theorem later_finish (s : Session) (v : Json) : s.Later (finish s v).1 := by
  have hnotified : s.Later (s.notify "initialized" (some (.object []))).1 :=
    .onConnection (.notify _ _) rfl
  unfold finish
  split
  · exact .accept s _
  · split
    · next heq =>
      rw [heq] at hnotified
      exact hnotified
    · next heq =>
      rw [heq] at hnotified
      exact hnotified.trans (.accept _ _)

theorem later_look (hs : Handshake) (now : Nat) (s : Session) : s.Later (hs.look now s).1 := by
  unfold look
  split
  · exact .refl s
  · split
    · have hcancelled : s.Later (s.onConnection fun c => (c.cancelRequest hs.request, ())).1 :=
        .onConnection (.cancel hs.request) rfl
      exact hcancelled.trans (.accept _ _)
    · exact .refl s

theorem later_advance (hs : Handshake) (now : Nat) (s : Session) :
    s.Later (hs.advance now s).1 := by
  have htaken : s.Later (s.onConnection (·.take? hs.request)).1 :=
    .onConnection (.take hs.request) rfl
  unfold advance
  generalize s.onConnection (·.take? hs.request) = p at htaken ⊢
  obtain ⟨t, a⟩ := p
  split
  · next heq =>
    cases heq
    exact htaken.trans (later_finish _ _)
  · next heq =>
    cases heq
    exact htaken
  · next heq =>
    cases heq
    exact htaken.trans (.accept _ _)
  · next heq =>
    cases heq
    split
    · exact htaken.trans (later_look hs now _)
    · exact htaken

end Handshake

end LanguageSessions
