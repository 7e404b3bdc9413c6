import LanguageSessions.Proofs.Connection.Writing
import LanguageSessions.Proofs.Session.Lifecycle

namespace LanguageSessions

def Session.killCount (s : Session) : Nat := (s.process.map Process.kills).getD 0

namespace Stage

def message? : Stage → Option Message
  | writing p id => some (.request (p.request .null id))
  | cancelling _ id => some (.notification
      { method := "$/cancelRequest", params := some (.object [("id", .nat id)]) })
  | confirming _ => some (.notification { method := "initialized", params := some (.object []) })
  | departing => some (.notification { method := "exit", params := none })
  | _ => none

def looks : Stage → Bool
  | closed true | exiting => true
  | _ => false

def rank : Stage → Nat
  | ready _ => 8
  | writing _ _ => 7
  | waiting _ _ => 6
  | cancelling _ _ => 5
  | confirming _ | departing => 4
  | closing _ => 3
  | closed _ => 2
  | exiting => 1
  | ended => 0

def waits : Stage → Bool
  | waiting _ _ | exiting => true
  | _ => false

theorem told_write (c : Connection) (m : Message) :
    told m (c.write m).2 = if c.channel.takes then [m] else [] := by
  rcases c.write_cases m with ⟨htakes, hwrite⟩ | ⟨htakes, f, hwrite⟩
  · rw [hwrite, htakes, if_pos rfl]
    rfl
  · rw [hwrite, htakes, if_neg Bool.false_ne_true]
    rfl

theorem step_writing (id : Nat) (late : Bool) (s : Session) :
    let m : Message := .request { id := .number id, method := "shutdown", params := none }
    (s.connection.channel.takes = true ∧ (writing (.cleanup true) id).step .null late s =
      { session := { s with connection := (s.connection.write m).1 }
        stage := .waiting (.cleanup true) id
        wrote := [m] }) ∨
    (s.connection.channel.takes = false ∧ (writing (.cleanup true) id).step .null late s =
      { session := { s with connection := s.connection.forget id }
        stage := .departing
        tried := true }) := by
  dsimp only
  unfold step Purpose.write Session.onConnection
  dsimp only
  rcases s.connection.write_cases (.request ((Purpose.cleanup true).request .null id)) with
    ⟨htakes, hwrite⟩ | ⟨htakes, f, hwrite⟩
  · left
    rw [hwrite]
    exact ⟨htakes, by rw [← congrArg Prod.fst hwrite]; rfl⟩
  · right
    rw [hwrite]
    exact ⟨htakes, rfl⟩

theorem step_waiting (id : Nat) (late : Bool) (s : Session) :
    ((s.connection.take? id).2.isNone = false ∧ (waiting (.cleanup true) id).step .null late s =
      { session := { s with connection := (s.connection.take? id).1 }
        stage := .departing
        tried := true }) ∨
    ((s.connection.take? id) = (s.connection, none) ∧
      (waiting (.cleanup true) id).step .null late s =
      if late then
        { session := { s with connection := s.connection.forget id }
          stage := .cancelling (.cleanup true) id }
      else { session := s, stage := .waiting (.cleanup true) id }) := by
  unfold step Purpose.await Session.onConnection Connection.take?
  dsimp only
  cases hsettled : s.connection.settled.lookup id with
  | some r => exact .inl ⟨rfl, rfl⟩
  | none =>
    dsimp only
    split
    · exact .inr ⟨rfl, rfl⟩
    · exact .inl ⟨rfl, rfl⟩

theorem step_cancelling (id : Nat) (late : Bool) (s : Session) :
    let m : Message := .notification
      { method := "$/cancelRequest", params := some (.object [("id", .nat id)]) }
    (cancelling (.cleanup true) id).step .null late s =
      { session := { s with connection := (s.connection.write m).1 }
        stage := .departing
        wrote := if s.connection.channel.takes then [m] else []
        tried := true } := by
  dsimp only
  rw [← told_write]
  rfl

theorem step_departing (late : Bool) (s : Session) :
    let m : Message := .notification { method := "exit", params := none }
    departing.step .null late s =
      { session := { s with connection := (s.connection.write m).1 }
        stage := .closing true
        wrote := if s.connection.channel.takes then [m] else [] } := by
  dsimp only
  rw [← told_write]
  rfl

theorem linger_cases (late : Bool) (s : Session) :
    (s.processAlive = false ∧ linger late s = { session := Cleanup.terminated s, stage := ended }) ∨
    (s.processAlive = true ∧ late = true ∧
      linger late s = { session := Cleanup.terminated s.killProcess, stage := ended }) ∨
    (s.processAlive = true ∧ late = false ∧ linger late s = { session := s, stage := exiting }) := by
  unfold linger Session.processAlive
  cases s.connection.channel.processAlive with
  | false => exact .inl ⟨rfl, rfl⟩
  | true =>
    cases late with
    | true => exact .inr (.inl ⟨rfl, rfl, rfl⟩)
    | false => exact .inr (.inr ⟨rfl, rfl, rfl⟩)

theorem timing_enterShuttingDown (s : Session) : s.enterShuttingDown.timing = s.timing := by
  unfold Session.enterShuttingDown
  split <;> rfl

theorem timing_kill (s : Session) : s.kill.timing = s.timing := by
  unfold Session.kill Session.killIfAlive
  split <;> rfl

theorem timing_settle (p : Purpose) (s : Session) : (p.settle s).session.timing = s.timing := by
  cases p with
  | cleanup gentle =>
    cases gentle with
    | true => rfl
    | false => exact timing_kill s
  | _ => rfl

theorem timing_enter (p : Purpose) (s : Session) : (p.enter s).session.timing = s.timing := by
  unfold Purpose.enter
  split
  · exact timing_settle p s
  · rfl

theorem timing_begin (o : Operation) (s : Session) : (begin s o).session.timing = s.timing := by
  have hbegun : s.beginCleanup.timing = s.timing := timing_enterShuttingDown _
  cases o with
  | handshake => exact timing_enter _ s
  | shutdown => exact (timing_enter _ _).trans (timing_enterShuttingDown s)
  | shutdownAndKill =>
    unfold begin
    dsimp only
    split
    · rfl
    · exact (timing_enter _ _).trans hbegun
  | dispose =>
    unfold begin
    dsimp only
    split
    · rfl
    · split
      · exact (timing_enter _ _).trans hbegun
      · exact hbegun
  | kill => exact timing_kill s

theorem timing_linger (late : Bool) (s : Session) : (linger late s).session.timing = s.timing := by
  rcases linger_cases late s with ⟨-, h⟩ | ⟨-, -, h⟩ | ⟨-, -, h⟩ <;> rw [h] <;> rfl

theorem timing_greet (id : Nat) (late : Bool) (s : Session) :
    (Purpose.greet id late s).session.timing = s.timing := by
  have htaken : (s.onConnection (·.take? id)).1.timing = s.timing := rfl
  unfold Purpose.greet
  generalize s.onConnection (·.take? id) = r at htaken ⊢
  obtain ⟨t, r⟩ := r
  dsimp only at htaken
  split
  · next heq =>
    cases heq
    unfold Purpose.greeted
    split <;> exact htaken
  · next heq =>
    cases heq
    exact htaken
  · next heq =>
    cases heq
    exact htaken
  · next heq =>
    cases heq
    split
    · exact htaken
    · split <;> exact htaken

theorem timing_await (p : Purpose) (id : Nat) (late : Bool) (s : Session) :
    (p.await id late s).session.timing = s.timing := by
  have htaken : (s.onConnection (·.take? id)).1.timing = s.timing := rfl
  unfold Purpose.await
  generalize s.onConnection (·.take? id) = r at htaken ⊢
  obtain ⟨t, r⟩ := r
  cases r with
  | some answer => exact (timing_settle p t).trans htaken
  | none =>
    dsimp only
    split <;> exact htaken

theorem timing_step (greeting : Json) (late : Bool) (s : Session) (g : Stage) :
    (g.step greeting late s).session.timing = s.timing := by
  have hwritten : ∀ m, (s.onConnection (·.write m)).1.timing = s.timing := fun _ => rfl
  cases g with
  | ready o => exact timing_begin o s
  | writing p id =>
    have hasked := hwritten (.request (p.request greeting id))
    unfold step Purpose.write
    dsimp only
    generalize s.onConnection _ = r at hasked ⊢
    obtain ⟨t, r⟩ := r
    cases r with
    | ok u => exact hasked
    | error f => exact (timing_settle p _).trans hasked
  | waiting p id =>
    cases p with
    | opening => exact timing_greet id late s
    | _ => exact timing_await _ id late s
  | cancelling p id =>
    cases p with
    | opening => rfl
    | _ => exact timing_settle _ _
  | confirming o =>
    have hconfirmed := hwritten (.notification
      { method := "initialized", params := some (.object []) })
    unfold step confirm
    dsimp only
    generalize s.onConnection _ = r at hconfirmed ⊢
    obtain ⟨t, r⟩ := r
    cases r <;> exact hconfirmed
  | departing => rfl
  | closing gentle => rfl
  | closed gentle =>
    cases gentle with
    | true => exact timing_linger late s
    | false => rfl
  | exiting => exact timing_linger late s
  | ended => rfl

end Stage

end LanguageSessions
