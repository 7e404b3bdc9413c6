import LanguageSessions.Proofs.Connection.Events

namespace LanguageSessions

namespace Channel

theorem write_process (c : Channel) (text : String) : (c.write text).1.process = c.process := by
  unfold write
  split
  · rfl
  · split <;> rfl

theorem processAlive_congr {c d : Channel} (h : d.process = c.process) :
    d.processAlive = c.processAlive := by
  rw [processAlive, h, processAlive]

theorem kill_processAlive (c : Channel) : c.kill.processAlive = false := by
  unfold kill
  split
  · next h => simp [processAlive, h]
  · simp [processAlive]

theorem step_processAlive (c : Channel) (e : Event) (h : c.processAlive = false) :
    (c.step e).processAlive = false := by
  cases e with
  | deliver bytes =>
    unfold step deliver
    dsimp only
    split <;> exact h
  | die =>
    unfold processAlive step die
    cases c.process <;> rfl
  | _ => exact h

end Channel

namespace Connection

theorem write_process (c : Connection) (m : Message) :
    (c.write m).1.channel.process = c.channel.process :=
  c.channel.write_process m.text

theorem notify_process (c : Connection) (method : String) (params : Option Json) :
    (c.notify method params).1.channel.process = c.channel.process :=
  c.write_process _

theorem sendRequest_process (c : Connection) (method : String) (params : Option Json) :
    (c.sendRequest method params).1.channel.process = c.channel.process := by
  unfold sendRequest
  split
  · rfl
  · dsimp only
    have hw := write_process { c with nextId := c.nextId + 1 }
      (.request { id := .number c.nextId, method := method, params := params })
    split <;> next heq => rw [heq] at hw; exact hw

theorem cancelRequest_process (c : Connection) (id : Nat) :
    (c.cancelRequest id).channel.process = c.channel.process :=
  notify_process { c with pending := c.pending.filter (· != id) } _ _

theorem take?_process (c : Connection) (id : Nat) :
    (c.take? id).1.channel.process = c.channel.process :=
  congrArg Channel.process (c.take?_keeps id).2

theorem logged_process (c : Connection) (params : Json) :
    (c.logged params).channel.process = c.channel.process := by
  unfold logged
  split <;> rfl

theorem receive_process (c : Connection) (m : Message) :
    (c.receive m).channel.process = c.channel.process := by
  cases m with
  | request r => rfl
  | notification n =>
    unfold receive hear
    dsimp only
    split
    · split <;> rfl
    · exact logged_process c _
    · exact logged_process c _
    · rfl
  | response r =>
    unfold receive settle
    dsimp only
    split <;> rfl

theorem reply_process (c : Connection) (i : Nat) :
    (c.reply i).channel.process = c.channel.process := by
  unfold reply
  split
  · rfl
  · exact write_process _ _

theorem step_processAlive (c : Connection) (e : Event) (h : c.channel.processAlive = false) :
    (c.step e).channel.processAlive = false := by
  have hsame : ∀ d : Connection, d.channel.process = c.channel.process →
      d.channel.processAlive = false :=
    fun d hd => (Channel.processAlive_congr hd).trans h
  cases e with
  | send method params => exact hsame _ (sendRequest_process c method params)
  | notify method params => exact hsame _ (notify_process c method params)
  | cancel id => exact hsame _ (cancelRequest_process c id)
  | take id => exact hsame _ (take?_process c id)
  | hear m =>
    unfold step
    dsimp only
    split
    · exact h
    · exact hsame _ (receive_process c m)
  | exit =>
    unfold step
    dsimp only
    split <;> exact h
  | reply i => exact hsame _ (reply_process c i)
  | far e => exact Channel.step_processAlive c.channel e h
  | _ => exact h

end Connection

namespace Exchange

theorem start_process (c : Connection) (method : String) (params : Option Json)
    (millis now : Nat) :
    (Exchange.start c method params millis now).1.channel.process = c.channel.process := by
  have h := c.sendRequest_process method params
  unfold Exchange.start
  split <;> next heq => rw [heq] at h; exact h

theorem advance_process (x : Exchange) (now : Nat) (c : Connection) :
    (x.advance now c).1.channel.process = c.channel.process := by
  have h := c.take?_process x.id
  unfold advance
  split
  · next heq => rw [heq] at h; exact h
  · next heq =>
    rw [heq] at h
    split
    · exact (Connection.cancelRequest_process _ _).trans h
    · exact h

end Exchange

end LanguageSessions
