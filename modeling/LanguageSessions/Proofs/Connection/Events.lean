import LanguageSessions.Connection.Exchange

namespace LanguageSessions

inductive Channel.Event where
  | deliver (bytes : List UInt8)
  | consume (rest : List UInt8)
  | collect (count : Nat)
  | deafen
  | hangUp
  | die

def Channel.step (c : Channel) : Channel.Event → Channel
  | .deliver bytes => c.deliver bytes
  | .consume rest => { c with incoming := rest }
  | .collect count => { c with outgoing := c.outgoing.drop count }
  | .deafen => c.deafen
  | .hangUp => c.hangUp
  | .die => c.die

namespace Connection

inductive Event where
  | send (method : String) (params : Option Json)
  | notify (method : String) (params : Option Json)
  | cancel (id : Nat)
  | take (id : Nat)
  | close
  | enableLog (on : Bool)
  | hear (m : Message)
  | exit
  | reply (i : Nat)
  | far (e : Channel.Event)

def Event.isOwn : Event → Bool
  | .hear _ | .exit | .reply _ | .far _ => true
  | _ => false

/-- A reader that has exited takes in nothing and exits no more. -/
def step (c : Connection) : Event → Connection
  | .send method params => (c.sendRequest method params).1
  | .notify method params => (c.notify method params).1
  | .cancel id => c.cancelRequest id
  | .take id => (c.take? id).1
  | .close => c.close
  | .enableLog on => { c with log := c.log.enable on }
  | .hear m => if c.closed then c else c.receive m
  | .exit => if c.closed then c else c.fail
  | .reply i => c.reply i
  | .far e => { c with channel := c.channel.step e }

def run (c : Connection) (es : List Event) : Connection := es.foldl step c

theorem run_append (c : Connection) (es fs : List Event) : c.run (es ++ fs) = (c.run es).run fs :=
  List.foldl_append

theorem take?_keeps (c : Connection) (n : Nat) :
    (c.take? n).1.closed = c.closed ∧ (c.take? n).1.channel = c.channel := by
  unfold take?
  split
  · exact ⟨rfl, rfl⟩
  · split <;> exact ⟨rfl, rfl⟩

theorem logged_closed (c : Connection) (params : Json) : (c.logged params).closed = c.closed := by
  unfold logged
  split <;> rfl

theorem hear_closed (c : Connection) (n : Notification) : (c.hear n).closed = c.closed := by
  unfold hear
  dsimp only
  split
  · split <;> rfl
  · exact logged_closed c _
  · exact logged_closed c _
  · rfl

theorem settle_closed (c : Connection) (r : Response) : (c.settle r).closed = c.closed := by
  unfold settle
  split <;> rfl

theorem receive_closed (c : Connection) (m : Message) : (c.receive m).closed = c.closed := by
  cases m with
  | request r => rfl
  | notification n => exact hear_closed c n
  | response r => exact settle_closed c r

theorem receiveBody_eq_run (c : Connection) (body : List UInt8) (h : c.closed = false) :
    ∃ es, (∀ e ∈ es, e.isOwn = true) ∧ c.receiveBody body = c.run es ∧
      (c.receiveBody body).closed = false := by
  unfold receiveBody
  cases Frame.decodeBody body with
  | error f => exact ⟨[], by simp, rfl, h⟩
  | ok m =>
    refine ⟨[.hear m], by simp [Event.isOwn], ?_, ?_⟩
    · simp [run, step, h]
    · exact (receive_closed c m).trans h

theorem readFrames_eq_run (ended : Bool) (bs : List UInt8) (c : Connection) (h : c.closed = false) :
    ∃ es, (∀ e ∈ es, e.isOwn = true) ∧ (readFrames ended bs c).1 = c.run es := by
  fun_induction readFrames ended bs c with
  | case1 bs c ht => exact ⟨[], by simp, rfl⟩
  | case2 bs c f rest ht => exact ⟨[.exit], by simp [Event.isOwn], by simp [run, step, h]⟩
  | case3 bs c body rest ht _ ih =>
    obtain ⟨es, hes, hrun, hopen⟩ := receiveBody_eq_run c body h
    obtain ⟨fs, hfs, hrest⟩ := ih hopen
    refine ⟨es ++ fs, ?_, ?_⟩
    · intro e he
      rcases List.mem_append.mp he with he | he
      · exact hes e he
      · exact hfs e he
    · rw [hrest, hrun, run_append]

theorem read_eq_run (c : Connection) : ∃ es, (∀ e ∈ es, e.isOwn = true) ∧ c.read = c.run es := by
  unfold read
  split
  · exact ⟨[], by simp, rfl⟩
  · next h =>
    obtain ⟨es, hes, hrun⟩ :=
      readFrames_eq_run c.channel.ended c.channel.incoming c (Bool.eq_false_iff.mpr h)
    let rest := (readFrames c.channel.ended c.channel.incoming c).2
    refine ⟨es ++ [.far (.consume rest)], ?_, ?_⟩
    · intro e he
      rcases List.mem_append.mp he with he | he
      · exact hes e he
      · simp only [List.mem_singleton] at he
        subst he
        rfl
    · rw [run_append, ← hrun]
      rfl

end Connection

end LanguageSessions
