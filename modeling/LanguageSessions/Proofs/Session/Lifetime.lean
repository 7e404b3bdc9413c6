import LanguageSessions.Proofs.Session.Lifecycle

/-!
A session and the calls on it. What is written to end a session is accounted for: each call of
`shutdown` and the one cleanup that sets to work write one request to shut down at most, and only a
`dispose` tells the server to exit, once, after its own request has come to its end.
-/
namespace LanguageSessions

namespace Message

def isShutdown : Message → Bool
  | request r => r.method == "shutdown"
  | _ => false

def isExit : Message → Bool
  | notification n => n.method == "exit"
  | _ => false

end Message

namespace Stage

def mayAsk : Stage → Bool
  | ready .shutdown => true
  | writing .asking _ => true
  | writing (.cleanup _) _ => true
  | _ => false

def mayExit : Stage → Bool
  | writing (.cleanup true) _ => true
  | waiting (.cleanup true) _ => true
  | cancelling (.cleanup true) _ => true
  | departing => true
  | _ => false

end Stage

structure Stride.Accounted (s : Session) (g : Stage) (e : Stride) : Prop where
  once : s.cleanups ≤ s.cleanedUp.toNat → e.session.cleanups ≤ e.session.cleanedUp.toNat
  asks : e.wrote.countP Message.isShutdown + e.stage.mayAsk.toNat + s.cleanups ≤
    g.mayAsk.toNat + e.session.cleanups
  exits : e.wrote.countP Message.isExit + e.stage.mayExit.toNat + s.cleanups ≤
    g.mayExit.toNat + e.session.cleanups
  exit : ∀ m ∈ e.wrote, m.isExit = true → g = .departing
  tried : e.stage = .departing → e.tried = true
  begun : ∀ o, e.stage ≠ .ready o
  gentle : e.stage.mayExit = true → g.mayExit = true ∨ g = .ready .dispose

namespace Stride.Accounted

variable {s t : Session} {g : Stage} {e : Stride}

theorem quiet (hcleanups : e.session.cleanups = s.cleanups)
    (hcleanedUp : e.session.cleanedUp = s.cleanedUp)
    (hwrote : ∀ m ∈ e.wrote, m.isShutdown = false ∧ m.isExit = false)
    (hasks : e.stage.mayAsk = true → g.mayAsk = true)
    (hexits : e.stage.mayExit = true → g.mayExit = true)
    (hbegun : ∀ o, e.stage ≠ .ready o) (htried : e.stage = .departing → e.tried = true) :
    Accounted s g e where
  once := by
    rw [hcleanups, hcleanedUp]
    exact id
  asks := by
    have hnone : e.wrote.countP Message.isShutdown = 0 :=
      List.countP_eq_zero.mpr fun m hm => by simp [(hwrote m hm).1]
    rw [hnone, hcleanups, Nat.zero_add]
    exact Nat.add_le_add_right (Bool.toNat_le_toNat hasks) _
  exits := by
    have hnone : e.wrote.countP Message.isExit = 0 :=
      List.countP_eq_zero.mpr fun m hm => by simp [(hwrote m hm).2]
    rw [hnone, hcleanups, Nat.zero_add]
    exact Nat.add_le_add_right (Bool.toNat_le_toNat hexits) _
  exit m hm hexit := by
    rw [(hwrote m hm).2] at hexit
    cases hexit
  tried := htried
  begun := hbegun
  gentle h := .inl (hexits h)

theorem settle (p : Purpose) (hcleanups : t.cleanups = s.cleanups)
    (hcleanedUp : t.cleanedUp = s.cleanedUp) (hp : p = .cleanup true → g.mayExit = true) :
    Accounted s g (p.settle t) := by
  cases p with
  | cleanup gentle =>
    cases gentle with
    | true =>
      exact quiet hcleanups hcleanedUp (by simp [Purpose.settle]) (by simp [Purpose.settle, Stage.mayAsk])
        (fun _ => hp rfl) (by simp [Purpose.settle]) fun _ => rfl
    | false =>
      have hkilled := t.quiet_kill
      exact quiet (hkilled.cleanups.trans hcleanups) (hkilled.cleanedUp.trans hcleanedUp)
        (by simp [Purpose.settle]) (by simp [Purpose.settle, Stage.mayAsk])
        (by simp [Purpose.settle, Stage.mayExit]) (by simp [Purpose.settle]) (by simp [Purpose.settle])
  | _ =>
    exact quiet hcleanups hcleanedUp (by simp [Purpose.settle]) (by simp [Purpose.settle, Stage.mayAsk])
      (by simp [Purpose.settle, Stage.mayExit]) (by simp [Purpose.settle]) (by simp [Purpose.settle])

theorem silent (hcleanups : e.session.cleanups = s.cleanups)
    (hcleanedUp : e.session.cleanedUp = s.cleanedUp)
    (hwrote : ∀ m ∈ e.wrote, m.isShutdown = false ∧ m.isExit = false)
    (hstage : e.stage.mayAsk = false ∧ e.stage.mayExit = false)
    (hbegun : ∀ o, e.stage ≠ .ready o) : Accounted s g e := by
  apply quiet hcleanups hcleanedUp hwrote
  · simp [hstage.1]
  · simp [hstage.2]
  · exact hbegun
  · intro hdeparting
    simp [hdeparting, Stage.mayExit] at hstage

theorem asked {m : Message} (hcleanups : e.session.cleanups = s.cleanups)
    (hcleanedUp : e.session.cleanedUp = s.cleanedUp) (hwrote : e.wrote = [m])
    (hm : m.isShutdown = true ∧ m.isExit = false) (hstage : e.stage.mayAsk = false)
    (hg : g.mayAsk = true) (hexits : e.stage.mayExit = true → g.mayExit = true)
    (hbegun : ∀ o, e.stage ≠ .ready o) (htried : e.stage ≠ .departing) : Accounted s g e where
  once := by
    rw [hcleanups, hcleanedUp]
    exact id
  asks := by
    rw [hwrote, hcleanups, hstage, hg]
    simp [hm.1]
  exits := by
    have hle := Bool.toNat_le_toNat hexits
    rw [hwrote, hcleanups]
    simp only [List.countP_singleton, hm.2, Bool.false_eq_true, if_false]
    omega
  exit := by
    rw [hwrote]
    simp [hm.2]
  tried h := absurd h htried
  begun := hbegun
  gentle h := .inl (hexits h)

theorem write (p : Purpose) (greeting : Json) (id : Nat) (s : Session) :
    Accounted s (.writing p id) (p.write greeting id s) := by
  unfold Purpose.write Session.onConnection
  dsimp only
  generalize s.connection.write _ = r
  obtain ⟨c, r⟩ := r
  cases r with
  | ok u =>
    cases p with
    | opening =>
      apply silent
      · rfl
      · rfl
      · simp [Purpose.request, Purpose.method, Message.isShutdown, Message.isExit]
      · exact ⟨rfl, rfl⟩
      · simp
    | asking => exact asked rfl rfl rfl ⟨rfl, rfl⟩ rfl rfl (by simp [Stage.mayExit]) (by simp) (by simp)
    | cleanup gentle =>
      apply asked
      · rfl
      · rfl
      · rfl
      · exact ⟨rfl, rfl⟩
      · rfl
      · rfl
      · cases gentle <;> exact fun h => h
      · simp
      · simp
  | error f =>
    refine settle p ?_ ?_ ?_
    · rfl
    · rfl
    · rintro rfl
      rfl

theorem await (p : Purpose) (id : Nat) (late : Bool) (s : Session) :
    Accounted s (.waiting p id) (p.await id late s) := by
  unfold Purpose.await Session.onConnection
  dsimp only
  generalize s.connection.take? id = r
  obtain ⟨c, r⟩ := r
  cases r with
  | some answer =>
    refine settle p ?_ ?_ ?_
    · rfl
    · rfl
    · rintro rfl
      rfl
  | none =>
    dsimp only
    split
    · refine quiet ?_ ?_ ?_ ?_ ?_ ?_ ?_
      · rfl
      · rfl
      · simp [Purpose.giveUp]
      · simp [Purpose.giveUp, Stage.mayAsk]
      · cases p with
        | cleanup gentle => cases gentle <;> exact fun h => h
        | _ => exact fun h => h
      · simp [Purpose.giveUp]
      · simp [Purpose.giveUp]
    · exact quiet rfl rfl (by simp) (fun h => h) (fun h => h) (by simp) (by simp)

theorem greet (id : Nat) (late : Bool) (s : Session) :
    Accounted s (.waiting .opening id) (Purpose.greet id late s) := by
  unfold Purpose.greet Session.onConnection
  dsimp only
  generalize s.connection.take? id = r
  obtain ⟨c, r⟩ := r
  have hquiet : ∀ (t : Session) (g' : Stage), t.cleanups = s.cleanups → t.cleanedUp = s.cleanedUp →
      g'.mayAsk = false ∧ g'.mayExit = false → (∀ o, g' ≠ .ready o) →
      Accounted s (.waiting .opening id) { session := t, stage := g' } :=
    fun t g' hcleanups hcleanedUp hstage hbegun =>
      silent hcleanups hcleanedUp (by simp) hstage hbegun
  split
  · next heq =>
    cases heq
    unfold Purpose.greeted
    split
    · exact hquiet _ _ rfl rfl ⟨rfl, rfl⟩ (by simp)
    · exact hquiet _ _ rfl rfl ⟨rfl, rfl⟩ (by simp)
  · next heq =>
    cases heq
    exact hquiet _ _ rfl rfl ⟨rfl, rfl⟩ (by simp)
  · next heq =>
    cases heq
    exact hquiet _ _ rfl rfl ⟨rfl, rfl⟩ (by simp)
  · next heq =>
    cases heq
    split
    · exact hquiet _ _ rfl rfl ⟨rfl, rfl⟩ (by simp)
    · split
      · exact hquiet _ _ rfl rfl ⟨rfl, rfl⟩ (by simp)
      · exact hquiet _ _ rfl rfl ⟨rfl, rfl⟩ (by simp)

theorem of_told {n : Notification} (hn : (n.method == "exit") = false) (r : Except Fault Unit) :
    ∀ m ∈ told (.notification n) r, m.isShutdown = false ∧ m.isExit = false := by
  cases r with
  | ok u =>
    intro m hm
    rw [told, List.mem_singleton] at hm
    rw [hm]
    exact ⟨rfl, hn⟩
  | error f => simp [told]

theorem cancel (p : Purpose) (id : Nat) (s : Session) :
    Accounted s (.cancelling p id) (p.cancel id s) := by
  unfold Purpose.cancel Session.onConnection
  dsimp only
  generalize s.connection.write _ = r
  obtain ⟨c, r⟩ := r
  cases p with
  | opening => exact silent rfl rfl (of_told rfl r) ⟨rfl, rfl⟩ (by simp)
  | asking => exact silent rfl rfl (of_told rfl r) ⟨rfl, rfl⟩ (by simp [Purpose.settle])
  | cleanup gentle =>
    cases gentle with
    | true =>
      exact quiet rfl rfl (of_told rfl r) (by simp [Purpose.settle, Stage.mayAsk])
        (fun _ => rfl) (by simp [Purpose.settle]) fun _ => rfl
    | false =>
      have hkilled := Session.quiet_kill { s with connection := c }
      exact silent hkilled.cleanups hkilled.cleanedUp (of_told rfl r) ⟨rfl, rfl⟩
        (by simp [Purpose.settle])

theorem begins (hclean : s.cleanedUp = false) (hcleanups : e.session.cleanups = s.cleanups + 1)
    (hcleanedUp : e.session.cleanedUp = true) (hwrote : e.wrote = [])
    (hexit : e.stage.mayExit = true → g = .ready .dispose) (hbegun : ∀ o, e.stage ≠ .ready o)
    (htried : e.stage = .departing → e.tried = true) : Accounted s g e where
  once := by
    rw [hclean, hcleanups, hcleanedUp]
    exact fun h => Nat.succ_le_succ h
  asks := by
    have hle := Bool.toNat_le e.stage.mayAsk
    rw [hwrote, hcleanups, List.countP_nil]
    omega
  exits := by
    have hle := Bool.toNat_le e.stage.mayExit
    rw [hwrote, hcleanups, List.countP_nil]
    omega
  exit := by simp [hwrote]
  tried := htried
  begun := hbegun
  gentle h := .inr (hexit h)

theorem beginCleanup_parts (s : Session) :
    s.beginCleanup.cleanups = s.cleanups + 1 ∧ s.beginCleanup.cleanedUp = true := by
  have hquiet := Session.quiet_enterShuttingDown
    { s with cleanedUp := true, cleanups := s.cleanups + 1 }
  exact ⟨hquiet.cleanups, hquiet.cleanedUp⟩

theorem enterCleanup (gentle : Bool) (s : Session) (hclean : s.cleanedUp = false) {o : Operation}
    (ho : gentle = true → o = .dispose) :
    Accounted s (.ready o) ((Purpose.cleanup gentle).enter s.beginCleanup) := by
  obtain ⟨hcleanups, hcleanedUp⟩ := beginCleanup_parts s
  have hkilled := s.beginCleanup.quiet_kill
  unfold Purpose.enter
  split
  · cases gentle with
    | true =>
      exact begins hclean hcleanups hcleanedUp rfl (fun _ => congrArg _ (ho rfl))
        (by simp [Purpose.settle]) fun _ => rfl
    | false =>
      exact begins hclean (hkilled.cleanups.trans hcleanups) (hkilled.cleanedUp.trans hcleanedUp) rfl
        (by simp [Purpose.settle, Stage.mayExit]) (by simp [Purpose.settle]) (by simp [Purpose.settle])
  · refine begins hclean hcleanups hcleanedUp rfl ?_ (by simp) (by simp)
    cases gentle with
    | true => exact fun _ => congrArg _ (ho rfl)
    | false => simp [Stage.mayExit]

theorem enterPlain (p : Purpose) (s t : Session) (hcleanups : t.cleanups = s.cleanups)
    (hcleanedUp : t.cleanedUp = s.cleanedUp) (hp : p = .opening ∨ p = .asking ∧ g = .ready .shutdown) :
    Accounted s g (p.enter t) := by
  unfold Purpose.enter
  split
  · refine settle p hcleanups hcleanedUp ?_
    rintro rfl
    simp at hp
  · rcases hp with rfl | ⟨rfl, rfl⟩
    · exact silent hcleanups hcleanedUp (by simp) ⟨rfl, rfl⟩ (by simp)
    · exact quiet hcleanups hcleanedUp (by simp) (fun _ => rfl) (by simp [Stage.mayExit]) (by simp)
        (by simp)

theorem begin (o : Operation) (s : Session) : Accounted s (.ready o) (Stage.begin s o) := by
  cases o with
  | handshake => exact enterPlain _ s s rfl rfl (.inl rfl)
  | shutdown =>
    have hquiet := s.quiet_enterShuttingDown
    exact enterPlain _ s _ hquiet.cleanups hquiet.cleanedUp (.inr ⟨rfl, rfl⟩)
  | shutdownAndKill =>
    unfold Stage.begin
    dsimp only
    split
    · exact silent rfl rfl (by simp) ⟨rfl, rfl⟩ (by simp)
    · next hclean => exact enterCleanup false s (Bool.eq_false_iff.mpr hclean) (by simp)
  | dispose =>
    unfold Stage.begin
    dsimp only
    split
    · exact silent rfl rfl (by simp) ⟨rfl, rfl⟩ (by simp)
    · next hclean =>
      split
      · exact enterCleanup true s (Bool.eq_false_iff.mpr hclean) fun _ => rfl
      · obtain ⟨hcleanups, hcleanedUp⟩ := beginCleanup_parts s
        exact begins (Bool.eq_false_iff.mpr hclean) hcleanups hcleanedUp rfl (fun _ => rfl) (by simp)
          (by simp)
  | kill =>
    have hkilled := s.quiet_kill
    exact silent hkilled.cleanups hkilled.cleanedUp (by simp [Stage.begin]) ⟨rfl, rfl⟩
      (by simp [Stage.begin])

theorem confirm (o : HandshakeOutcome) (s : Session) :
    Accounted s (.confirming o) (Stage.confirm o s) := by
  unfold Stage.confirm Session.onConnection
  dsimp only
  generalize s.connection.write _ = r
  obtain ⟨c, r⟩ := r
  cases r with
  | ok u => exact silent rfl rfl (by simp [Message.isShutdown, Message.isExit]) ⟨rfl, rfl⟩ (by simp)
  | error f => exact silent rfl rfl (by simp) ⟨rfl, rfl⟩ (by simp)

theorem depart (s : Session) : Accounted s .departing (Stage.depart s) := by
  unfold Stage.depart Session.onConnection
  dsimp only
  generalize s.connection.write _ = r
  obtain ⟨c, r⟩ := r
  refine ⟨id, ?_, ?_, fun _ _ _ => rfl, by simp, by simp, by simp [Stage.mayExit]⟩
  · cases r with
    | ok u => simp [told, Message.isShutdown, Stage.mayAsk]
    | error f => simp [told, Stage.mayAsk]
  · cases r with
    | ok u => simp [told, Message.isExit, Stage.mayExit]
    | error f => simp [told, Stage.mayExit]

theorem linger (late : Bool) (s : Session) : Accounted s g (Stage.linger late s) := by
  unfold Stage.linger
  split
  · exact silent rfl rfl (by simp) ⟨rfl, rfl⟩ (by simp)
  · split
    · exact silent rfl rfl (by simp) ⟨rfl, rfl⟩ (by simp)
    · exact silent rfl rfl (by simp) ⟨rfl, rfl⟩ (by simp)

theorem step (greeting : Json) (late : Bool) (s : Session) (g : Stage) :
    Accounted s g (g.step greeting late s) := by
  cases g with
  | ready o => exact begin o s
  | writing p id => exact write p greeting id s
  | waiting p id =>
    cases p with
    | opening => exact greet id late s
    | _ => exact await _ id late s
  | cancelling p id => exact cancel p id s
  | confirming o => exact confirm o s
  | departing => exact depart s
  | closing gentle => exact silent rfl rfl (by simp [Stage.step]) ⟨rfl, rfl⟩ (by simp [Stage.step])
  | closed gentle =>
    cases gentle with
    | true => exact linger late s
    | false => exact silent rfl rfl (by simp [Stage.step]) ⟨rfl, rfl⟩ (by simp [Stage.step])
  | exiting => exact linger late s
  | ended => exact silent rfl rfl (by simp [Stage.step]) ⟨rfl, rfl⟩ (by simp [Stage.step])

end Stride.Accounted

inductive Note where
  | wrote (call : Nat) (m : Message)
  | tried (call : Nat)

namespace Note

def message? : Note → Option Message
  | wrote _ m => some m
  | tried _ => none

def isShutdown (n : Note) : Bool := n.message?.any Message.isShutdown

def isExit (n : Note) : Bool := n.message?.any Message.isExit

end Note

def Stride.notes (e : Stride) (n : Nat) : List Note :=
  e.wrote.map (.wrote n) ++ if e.tried then [.tried n] else []

structure Lifetime where
  greeting : Json
  session : Session
  calls : List (Operation × Stage) := []
  notes : List Note := []

namespace Lifetime

inductive Act where
  | call (o : Operation)
  | step (n : Nat) (late : Bool)
  | event (e : Connection.Event)
  | abandon

def start (h : Host) (processId : Nat) (s : Session) : Lifetime :=
  { greeting := introduction h (some processId) s.root, session := s }

def stride (l : Lifetime) (n : Nat) (o : Operation) (e : Stride) : Lifetime :=
  { l with session := e.session, calls := l.calls.set n (o, e.stage), notes := l.notes ++ e.notes n }

def step (l : Lifetime) : Act → Lifetime
  | .call o => { l with calls := l.calls ++ [(o, .ready o)] }
  | .step n late =>
    match l.calls[n]? with
    | none => l
    | some (o, g) => l.stride n o (g.step l.greeting late l.session)
  | .event e => { l with session := { l.session with connection := l.session.connection.step e } }
  | .abandon => { l with session := l.session.abandon }

def run (l : Lifetime) (as : List Act) : Lifetime := as.foldl step l

structure Later (l l' : Lifetime) : Prop where
  session : ∃ wrote, l.session.Onward l'.session wrote
  notes : ∃ new, l'.notes = l.notes ++ new ∧
    (l.session.connection.channel.finished = true → new.filterMap Note.message? = [])

variable {l l' l'' : Lifetime}

theorem Later.trans (h : l.Later l') (k : l'.Later l'') : l.Later l'' := by
  obtain ⟨wrote, hw⟩ := h.session
  obtain ⟨more, hm⟩ := k.session
  obtain ⟨new, hnotes, hnew⟩ := h.notes
  obtain ⟨newer, hnotes', hnewer⟩ := k.notes
  refine ⟨⟨_, hw.trans hm⟩, new ++ newer, ?_, ?_⟩
  · rw [hnotes', hnotes, List.append_assoc]
  · intro hfinished
    rw [List.filterMap_append, hnew hfinished, hnewer (hw.connection.finished hfinished).1]
    rfl

theorem Later.of_session {s : Session} {wrote : List Message} (h : l.session.Onward s wrote) :
    l.Later { l with session := s } :=
  ⟨⟨_, h⟩, [], (List.append_nil _).symm, fun _ => rfl⟩

theorem messages_notes (e : Stride) (n : Nat) : (e.notes n).filterMap Note.message? = e.wrote := by
  have hwrote : (e.wrote.map (Note.wrote n)).filterMap Note.message? = e.wrote := by
    simp [List.filterMap_map, Function.comp_def, Note.message?]
  unfold Stride.notes
  rw [List.filterMap_append, hwrote]
  split <;> simp [Note.message?]

theorem step_noted {n : Nat} {o : Operation} {g : Stage} (hcall : l.calls[n]? = some (o, g))
    (late : Bool) : ∃ new, (l.step (.step n late)).notes = l.notes ++ new ∧
      l.session.Onward (l.step (.step n late)).session (new.filterMap Note.message?) := by
  simp only [step, hcall]
  refine ⟨_, rfl, ?_⟩
  rw [messages_notes]
  exact g.step_onward l.greeting late l.session

theorem step_later (l : Lifetime) (a : Act) : l.Later (l.step a) := by
  cases a with
  | call o => exact ⟨⟨[], .refl _⟩, [], (List.append_nil _).symm, fun _ => rfl⟩
  | step n late =>
    cases hcall : l.calls[n]? with
    | none =>
      simp only [step, hcall]
      exact .of_session (.refl l.session)
    | some c =>
      obtain ⟨new, hnotes, honward⟩ := step_noted hcall late
      exact ⟨⟨_, honward⟩, new, hnotes, fun hfinished => (honward.connection.finished hfinished).2⟩
  | event e =>
    obtain ⟨wrote, honward⟩ := Connection.Onward.step l.session.connection e
    exact .of_session (.on honward)
  | abandon =>
    have hmarked : l.session.Onward { l.session with cleanedUp := true } [] :=
      .of_state (Nat.le_refl _) (fun _ h => h) rfl
    exact .of_session (hmarked.trans (.kill _))

theorem run_later (l : Lifetime) (as : List Act) : l.Later (l.run as) := by
  induction as generalizing l with
  | nil => exact .of_session (.refl l.session)
  | cons a as ih => exact (l.step_later a).trans (ih (l.step a))

structure Sound (l : Lifetime) : Prop where
  once : l.session.cleanups ≤ l.session.cleanedUp.toNat
  asks : l.notes.countP Note.isShutdown + l.calls.countP (·.2.mayAsk) ≤
    l.calls.countP (·.1 == .shutdown) + l.session.cleanups
  exits : l.notes.countP Note.isExit + l.calls.countP (·.2.mayExit) ≤ l.session.cleanups
  ready : ∀ (n : Nat) (o o' : Operation), l.calls[n]? = some (o, .ready o') → o' = o
  gentle : ∀ (n : Nat) (o : Operation) (g : Stage),
    l.calls[n]? = some (o, g) → g.mayExit = true → o = .dispose
  departing : ∀ (n : Nat) (o : Operation), l.calls[n]? = some (o, .departing) → .tried n ∈ l.notes
  exit : ∀ (i n : Nat) (m : Message), l.notes[i]? = some (.wrote n m) → m.isExit = true →
    (∃ j < i, l.notes[j]? = some (.tried n)) ∧ ∃ g, l.calls[n]? = some (.dispose, g)

theorem Sound.start (h : Host) (processId : Nat) {s : Session} (hcleanups : s.cleanups = 0) :
    (start h processId s).Sound where
  once := by
    change s.cleanups ≤ _
    rw [hcleanups]
    exact Nat.zero_le _
  asks := Nat.zero_le _
  exits := Nat.zero_le _
  ready n o o' hcall := by simp [Lifetime.start] at hcall
  gentle n o g hcall := by simp [Lifetime.start] at hcall
  departing n o hcall := by simp [Lifetime.start] at hcall
  exit i n m hnote := by simp [Lifetime.start] at hnote

theorem calls_call {o o' : Operation} {g : Stage} {n : Nat}
    (hcall : (l.step (.call o)).calls[n]? = some (o', g)) :
    l.calls[n]? = some (o', g) ∨ o' = o ∧ g = .ready o := by
  simp only [Lifetime.step, List.getElem?_append] at hcall
  split at hcall
  · exact .inl hcall
  · have hmem := List.mem_of_getElem? hcall
    rw [List.mem_singleton] at hmem
    exact .inr (Prod.mk.inj hmem)

theorem Sound.call (h : l.Sound) (o : Operation) : (l.step (.call o)).Sound where
  once := h.once
  asks := by
    have hbefore := h.asks
    have hasks : (Stage.ready o).mayAsk = (o == .shutdown) := by cases o <;> rfl
    simp only [Lifetime.step, List.countP_append, List.countP_singleton, hasks]
    omega
  exits := by
    have hbefore := h.exits
    simpa [Lifetime.step, List.countP_append, Stage.mayExit] using hbefore
  ready n o₁ o₂ hcall := by
    rcases calls_call hcall with hold | ⟨rfl, hnew⟩
    · exact h.ready n o₁ o₂ hold
    · exact Stage.ready.inj hnew
  gentle n o₁ g hcall hexit := by
    rcases calls_call hcall with hold | ⟨rfl, rfl⟩
    · exact h.gentle n o₁ g hold hexit
    · simp [Stage.mayExit] at hexit
  departing n o₁ hcall := by
    rcases calls_call hcall with hold | ⟨-, hnew⟩
    · exact h.departing n o₁ hold
    · cases hnew
  exit i n m hnote hexit := by
    obtain ⟨htried, g, hcall⟩ := h.exit i n m hnote hexit
    obtain ⟨hlt, -⟩ := List.getElem?_eq_some_iff.mp hcall
    exact ⟨htried, g, (List.getElem?_append_left hlt).trans hcall⟩

theorem Sound.onSession (h : l.Sound) {s : Session} (hcleanups : s.cleanups = l.session.cleanups)
    (hcleanedUp : l.session.cleanedUp = true → s.cleanedUp = true) :
    ({ l with session := s } : Lifetime).Sound where
  once := by
    change s.cleanups ≤ _
    rw [hcleanups]
    exact h.once.trans (Bool.toNat_le_toNat hcleanedUp)
  asks := by
    change _ ≤ _ + s.cleanups
    rw [hcleanups]
    exact h.asks
  exits := by
    change _ ≤ s.cleanups
    rw [hcleanups]
    exact h.exits
  ready := h.ready
  gentle := h.gentle
  departing := h.departing
  exit := h.exit

section Advance

variable {n : Nat} {o : Operation} {g : Stage} {e : Stride}

theorem calls_stride {m : Nat} {c : Operation × Stage}
    (hcall : (l.stride n o e).calls[m]? = some c) :
    n = m ∧ c = (o, e.stage) ∨ l.calls[m]? = some c := by
  simp only [stride, List.getElem?_set] at hcall
  split at hcall
  · next heq =>
    split at hcall
    · exact .inl ⟨heq, (Option.some.inj hcall).symm⟩
    · cases hcall
  · exact .inr hcall

theorem operation_stride (hcall : l.calls[n]? = some (o, g)) {m : Nat} {o₁ : Operation} {g₁ : Stage}
    (hcall₁ : l.calls[m]? = some (o₁, g₁)) :
    ∃ g₂, (l.stride n o e).calls[m]? = some (o₁, g₂) := by
  by_cases heq : n = m
  · subst heq
    rw [hcall] at hcall₁
    cases hcall₁
    obtain ⟨hlt, -⟩ := List.getElem?_eq_some_iff.mp hcall
    exact ⟨e.stage, List.getElem?_set_self hlt⟩
  · exact ⟨g₁, (List.getElem?_set_ne heq).trans hcall₁⟩

theorem countP_stride (hcall : l.calls[n]? = some (o, g)) (p : Operation × Stage → Bool) :
    (l.stride n o e).calls.countP p + (p (o, g)).toNat = l.calls.countP p + (p (o, e.stage)).toNat := by
  obtain ⟨hlt, hget⟩ := List.getElem?_eq_some_iff.mp hcall
  have hone : ∀ b : Bool, (if b = true then 1 else 0) = b.toNat := by decide
  have hcounted : (p (o, g)).toNat ≤ l.calls.countP p := by
    cases hp : p (o, g) with
    | false => exact Nat.zero_le _
    | true => exact List.countP_pos_iff.mpr ⟨_, List.mem_of_getElem? hcall, hp⟩
  rw [stride, List.countP_set hlt, hget, hone, hone]
  omega

theorem countP_notes (l : Lifetime) (n : Nat) (o : Operation) (e : Stride) (p : Message → Bool) :
    (l.stride n o e).notes.countP (·.message?.any p) =
      l.notes.countP (·.message?.any p) + e.wrote.countP p := by
  have hany : ∀ x : Note, x.message?.any p = (x.message?.map p).getD false := by
    intro x
    cases x <;> rfl
  rw [stride, List.countP_append, ← messages_notes e n, List.countP_filterMap]
  simp only [hany]

theorem mem_notes {m : Nat} {x : Message} (h : .wrote m x ∈ e.notes n) : m = n ∧ x ∈ e.wrote := by
  unfold Stride.notes at h
  rcases List.mem_append.mp h with hwrote | htried
  · obtain ⟨y, hy, heq⟩ := List.mem_map.mp hwrote
    cases heq
    exact ⟨rfl, hy⟩
  · split at htried
    · simp at htried
    · cases htried

theorem Sound.stride (h : l.Sound) (hcall : l.calls[n]? = some (o, g))
    (he : e.Accounted l.session g) : (l.stride n o e).Sound where
  once := he.once h.once
  asks := by
    have hbefore := h.asks
    have hstride := he.asks
    have hstages := countP_stride (e := e) hcall (·.2.mayAsk)
    have hcalls := countP_stride (e := e) hcall (·.1 == .shutdown)
    have hnotes : (l.stride n o e).notes.countP Note.isShutdown =
        l.notes.countP Note.isShutdown + _ := countP_notes l n o e _
    rw [hnotes]
    change _ ≤ _ + e.session.cleanups
    dsimp only at hstages hcalls
    omega
  exits := by
    have hbefore := h.exits
    have hstride := he.exits
    have hstages := countP_stride (e := e) hcall (·.2.mayExit)
    have hnotes : (l.stride n o e).notes.countP Note.isExit =
        l.notes.countP Note.isExit + _ := countP_notes l n o e _
    rw [hnotes]
    change _ ≤ e.session.cleanups
    dsimp only at hstages
    omega
  ready m o₁ o₂ hcall' := by
    rcases calls_stride hcall' with ⟨-, heq⟩ | hold
    · exact absurd (Prod.mk.inj heq).2.symm (he.begun o₂)
    · exact h.ready m o₁ o₂ hold
  gentle m o₁ g₁ hcall' hexit := by
    rcases calls_stride hcall' with ⟨-, heq⟩ | hold
    · cases heq
      rcases he.gentle hexit with hbefore | rfl
      · exact h.gentle n o g hcall hbefore
      · exact (h.ready n o .dispose hcall).symm
    · exact h.gentle m o₁ g₁ hold hexit
  departing m o₁ hcall' := by
    rcases calls_stride hcall' with ⟨rfl, heq⟩ | hold
    · have htried := he.tried (Prod.mk.inj heq).2.symm
      exact List.mem_append_right _ (by simp [Stride.notes, htried])
    · exact List.mem_append_left _ (h.departing m o₁ hold)
  exit i m x hnote hexit := by
    rcases Nat.lt_or_ge i l.notes.length with hlt | hge
    · -- It was written before.
      rw [Lifetime.stride, List.getElem?_append_left hlt] at hnote
      obtain ⟨⟨j, hj, htried⟩, g₁, hcall₁⟩ := h.exit i m x hnote hexit
      exact ⟨⟨j, hj, (List.getElem?_append_left (hj.trans hlt)).trans htried⟩,
        operation_stride hcall hcall₁⟩
    · -- It is written by a call that departs, and so has tried before.
      rw [Lifetime.stride, List.getElem?_append_right hge] at hnote
      obtain ⟨rfl, hwrote⟩ := mem_notes (List.mem_of_getElem? hnote)
      obtain rfl := he.exit x hwrote hexit
      obtain ⟨j, hj⟩ := List.mem_iff_getElem?.mp (h.departing m o hcall)
      obtain ⟨hlt, -⟩ := List.getElem?_eq_some_iff.mp hj
      obtain rfl := h.gentle m o .departing hcall rfl
      exact ⟨⟨j, hlt.trans_le hge, (List.getElem?_append_left hlt).trans hj⟩,
        operation_stride hcall hcall⟩

end Advance

theorem Sound.step (h : l.Sound) (a : Act) : (l.step a).Sound := by
  cases a with
  | call o => exact h.call o
  | step n late =>
    cases hcall : l.calls[n]? with
    | none =>
      simp only [Lifetime.step, hcall]
      exact h
    | some c =>
      have hstride := h.stride hcall (.step l.greeting late l.session c.2)
      simpa only [Lifetime.step, hcall] using hstride
  | event e => exact h.onSession rfl fun h => h
  | abandon => exact h.onSession l.session.abandon_cleanups fun _ => l.session.abandon_cleanedUp

theorem Sound.run (h : l.Sound) (as : List Act) : (l.run as).Sound := by
  induction as generalizing l with
  | nil => exact h
  | cons a as ih => exact ih (h.step a)

/-- What holds of a session however its calls interleave. -/
structure Lawful (l : Lifetime) : Prop where
  once : l.session.cleanups ≤ 1
  shutdowns : l.notes.countP Note.isShutdown ≤ l.calls.countP (·.1 == .shutdown) + 1
  exits : l.notes.countP Note.isExit ≤ 1
  exit : ∀ (i n : Nat) (m : Message), l.notes[i]? = some (.wrote n m) → m.isExit = true →
    (∃ j < i, l.notes[j]? = some (.tried n)) ∧ ∃ g, l.calls[n]? = some (.dispose, g)

theorem Sound.lawful (h : l.Sound) : l.Lawful := by
  have hone := Bool.toNat_le l.session.cleanedUp
  -- The cleanup that sets to work pays for what it writes, and there is one at most.
  obtain ⟨honce, hasks, hexits, -, -, -, hexit⟩ := h
  exact ⟨by omega, by omega, by omega, hexit⟩

structure Keeps (l l' : Lifetime) : Prop where
  state : l.session.state.rank ≤ l'.session.state.rank
  announced : ∀ a, l.session.announced = some a → l'.session.announced = some a
  silent : l.session.connection.channel.finished = true →
    l'.session.connection.channel.finished = true ∧
    l'.session.connection.channel.outgoing <:+ l.session.connection.channel.outgoing ∧
    l'.notes.filterMap Note.message? = l.notes.filterMap Note.message?
  lost : l.session.state = .ready → l'.session.isUsable = false →
    ∀ as, (l'.run as).session.isUsable = false

theorem Later.keeps (h : l.Later l') : l.Keeps l' where
  state := by
    obtain ⟨wrote, honward⟩ := h.session
    exact honward.state
  announced := by
    obtain ⟨wrote, honward⟩ := h.session
    exact honward.announced
  silent hfinished := by
    obtain ⟨wrote, honward⟩ := h.session
    obtain ⟨new, hnotes, hnew⟩ := h.notes
    obtain ⟨hfinished', rfl⟩ := honward.connection.finished hfinished
    have houtgoing := honward.connection.outgoing
    rw [List.map_nil, List.append_nil] at houtgoing
    refine ⟨hfinished', houtgoing, ?_⟩
    rw [hnotes, List.filterMap_append, hnew hfinished, List.append_nil]
  lost hready hunusable as := by
    obtain ⟨wrote, honward⟩ := h.session
    have hrank := honward.state
    have hstarted : l'.session.state ≠ .starting := by
      intro hstarting
      rw [hready, hstarting] at hrank
      exact absurd hrank (by decide)
    obtain ⟨more, hlater⟩ := (l'.run_later as).session
    exact hlater.unusable hstarted hunusable

/-- However the calls that open and end a session interleave, with each other and with all that
happens on its connection, its life is a lawful one. -/
theorem run_lawful (h : Host) (processId : Nat) (id : SessionId) (key : SessionKey)
    (root server : String) (channel : Channel) (timing : Timing) (as bs : List Act) :
    let l := (start h processId (Session.start h id key root server channel timing)).run as
    l.Lawful ∧ l.Keeps (l.run bs) := by
  have hfresh := Sound.start h processId (s := Session.start h id key root server channel timing) rfl
  exact ⟨(hfresh.run as).lawful, (run_later _ bs).keeps⟩

-- A server that answers nothing is told to exit all the same.
example :
    ((start {} 1 (Session.start {} 1 ⟨"/p", "foo"⟩ "/p" "foo-ls" { process := some {} } {})).run
      (.call .dispose :: List.replicate 6 (.step 0 true))).notes.countP Note.isExit = 1 := by
  decide +kernel

end Lifetime

end LanguageSessions
