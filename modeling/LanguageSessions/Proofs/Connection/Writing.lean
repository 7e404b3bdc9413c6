import LanguageSessions.Proofs.Connection.Reading
import LanguageSessions.Proofs.Connection.Requests

/-!
What a connection writes. `wrote?` is the message that an event puts on the wire. The writer is held
by one task until all bytes of its message are on the wire, while the others wait (`Outlet`); so
what is on the wire are whole messages one after the other, and the beginning of one more.
-/
namespace LanguageSessions

def Channel.takes (c : Channel) : Bool := !c.finished && c.accepting

theorem Channel.write_cases (c : Channel) (text : String) :
    (c.takes = true ∧ c.write text = ({ c with outgoing := c.outgoing ++ [text] }, .ok ())) ∨
    (c.takes = false ∧ ∃ f, c.write text = (c, .error f)) := by
  unfold write takes
  cases hfinished : c.finished with
  | true => exact .inr ⟨rfl, _, rfl⟩
  | false =>
    cases haccepting : c.accepting with
    | true => exact .inl ⟨rfl, rfl⟩
    | false => exact .inr ⟨rfl, _, rfl⟩

namespace Connection

theorem write_cases (c : Connection) (m : Message) :
    (c.channel.takes = true ∧ c.write m =
      ({ c with channel := { c.channel with outgoing := c.channel.outgoing ++ [m.text] } }, .ok ())) ∨
    (c.channel.takes = false ∧ ∃ f, c.write m = (c, .error f)) := by
  unfold write
  rcases c.channel.write_cases m.text with ⟨htakes, hwrite⟩ | ⟨htakes, f, hwrite⟩
  · exact .inl ⟨htakes, by rw [hwrite]⟩
  · exact .inr ⟨htakes, f, by rw [hwrite]⟩

theorem sendRequest_ok {c d : Connection} {method : String} {params : Option Json} {id : Nat}
    (h : c.sendRequest method params = (d, .ok id)) :
    d.pending = c.pending ++ [id] ∧ d.channel = { c.channel with
      outgoing := c.channel.outgoing ++ [requestText id method params] } := by
  cases hclosed : c.closed with
  | true =>
    rw [sendRequest_of_closed c method params hclosed] at h
    cases h
  | false =>
    rcases c.channel.write_cases (requestText c.nextId method params) with
      ⟨-, hwrite⟩ | ⟨-, f, hwrite⟩
    · rw [sendRequest_of_open c method params hclosed hwrite] at h
      cases h
      exact ⟨rfl, rfl⟩
    · rw [sendRequest_of_open c method params hclosed hwrite] at h
      cases h

theorem write_eq (c : Connection) (m : Message) :
    (c.write m).1 = { c with channel := { c.channel with
      outgoing := c.channel.outgoing ++ if c.channel.takes then [m.text] else [] } } := by
  rcases c.write_cases m with ⟨htakes, hwrite⟩ | ⟨htakes, f, hwrite⟩
  · rw [hwrite, htakes, if_pos rfl]
  · rw [hwrite, htakes, if_neg Bool.false_ne_true, List.append_nil]

def message? (c : Connection) : Event → Option Message
  | .send method params =>
    if c.closed then none
    else some (.request { id := .number c.nextId, method := method, params := params })
  | .notify method params => some (.notification { method := method, params := params })
  | .cancel id => some (.notification
      { method := "$/cancelRequest", params := some (.object [("id", .nat id)]) })
  | .reply i => c.owed[i]?.map .response
  | _ => none

def wrote? (c : Connection) (e : Event) : Option Message :=
  if c.channel.takes then c.message? e else none

def sent (c : Connection) : List Event → List Message
  | [] => []
  | e :: es => (c.wrote? e).toList ++ (c.step e).sent es

theorem sent_append (c : Connection) (es fs : List Event) :
    c.sent (es ++ fs) = c.sent es ++ (c.run es).sent fs := by
  induction es generalizing c with
  | nil => rfl
  | cons e es ih =>
    rw [List.cons_append, sent, sent, ih, List.append_assoc]
    rfl

theorem run_concat (c : Connection) (es : List Event) (e : Event) :
    c.run (es ++ [e]) = (c.run es).step e := run_append c es [e]

theorem sent_concat (c : Connection) (es : List Event) (e : Event) :
    c.sent (es ++ [e]) = c.sent es ++ ((c.run es).wrote? e).toList := by
  rw [sent_append, sent, sent, List.append_nil]

theorem logged_channel (c : Connection) (params : Json) : (c.logged params).channel = c.channel := by
  unfold logged
  split <;> rfl

theorem receive_channel (c : Connection) (m : Message) : (c.receive m).channel = c.channel := by
  cases m with
  | request r => rfl
  | notification n =>
    unfold receive hear
    dsimp only
    split
    · split <;> rfl
    · exact logged_channel c _
    · exact logged_channel c _
    · rfl
  | response r =>
    unfold receive settle
    dsimp only
    split <;> rfl

theorem sendRequest_channel (c : Connection) (method : String) (params : Option Json) :
    (c.sendRequest method params).1.channel = { c.channel with outgoing :=
      c.channel.outgoing ++ ((c.wrote? (.send method params)).map Message.text).toList } := by
  unfold wrote? message?
  cases hclosed : c.closed with
  | true =>
    rw [sendRequest_of_closed c method params hclosed]
    simp
  | false =>
    rcases c.channel.write_cases (requestText c.nextId method params) with
      ⟨htakes, hwrite⟩ | ⟨htakes, f, hwrite⟩
    · rw [sendRequest_of_open c method params hclosed hwrite, htakes]
      rfl
    · rw [sendRequest_of_open c method params hclosed hwrite, htakes]
      simp

def Event.isOurs : Event → Bool
  | .close | .far _ => false
  | _ => true

theorem step_channel (c : Connection) {e : Event} (h : e.isOurs = true) :
    (c.step e).channel = { c.channel with
      outgoing := c.channel.outgoing ++ ((c.wrote? e).map Message.text).toList } := by
  have hquiet : ∀ d : Connection, d.channel = c.channel → c.message? e = none →
      d.channel = { c.channel with
        outgoing := c.channel.outgoing ++ ((c.wrote? e).map Message.text).toList } := by
    intro d hd hnone
    simp [wrote?, hnone, hd]
  cases e with
  | send method params => exact c.sendRequest_channel method params
  | notify method params =>
    rw [step, notify, write_eq, wrote?]
    cases c.channel.takes <;> rfl
  | cancel id =>
    rw [step, cancelRequest, notify, write_eq, wrote?]
    cases c.channel.takes <;> rfl
  | take id => exact hquiet _ (c.take?_keeps id).2 rfl
  | hear m =>
    apply hquiet _ _ rfl
    unfold step
    dsimp only
    split
    · rfl
    · exact c.receive_channel m
  | exit =>
    apply hquiet _ _ rfl
    unfold step
    dsimp only
    split <;> rfl
  | reply i =>
    unfold step reply wrote? message?
    dsimp only
    cases c.owed[i]? with
    | none => simp
    | some r =>
      dsimp only
      rw [write_eq]
      cases c.channel.takes <;> rfl
  | enableLog on => exact hquiet _ rfl rfl
  | close => cases h
  | far e => cases h

theorem takes_of_step (c : Connection) (e : Event) (h : (c.step e).channel.takes = true) :
    c.channel.takes = true := by
  cases hours : e.isOurs with
  | true =>
    rw [step_channel c hours] at h
    exact h
  | false =>
    cases e with
    | close => simp [step, close, Channel.finish, Channel.takes] at h
    | far e =>
      cases e with
      | deliver bytes =>
        unfold step Channel.step Channel.deliver Channel.takes at h
        dsimp only at h
        split at h <;> exact h
      | deafen => simp [step, Channel.step, Channel.deafen, Channel.takes] at h
      | hangUp => simp [step, Channel.step, Channel.hangUp, Channel.deafen, Channel.takes] at h
      | _ => exact h
    | _ => cases hours

end Connection

open Connection (Event)

structure Outlet where
  connection : Connection
  sent : List Message := []
  bytes : List UInt8 := []
  left : List UInt8 := []

namespace Outlet

inductive Act where
  | event (e : Event)
  | put (count : Nat)

def Act.heard? : Act → Option Message
  | .event e => e.heard?
  | .put _ => none

def needsWriter (c : Connection) (e : Event) : Bool :=
  (c.message? e).isSome || match e with
    | .close => true
    | _ => false

def waits (o : Outlet) (e : Event) : Bool := needsWriter o.connection e && !o.left.isEmpty

/-- An event that has to wait does not come about. -/
def step (o : Outlet) : Act → Outlet
  | .event e =>
    if o.waits e then o
    else
      { o with
        connection := o.connection.step e
        sent := o.sent ++ (o.connection.wrote? e).toList
        left := o.left ++ (o.connection.wrote? e).toList.flatMap fun m => Frame.encode m.text }
  | .put count => { o with bytes := o.bytes ++ o.left.take count, left := o.left.drop count }

def run (o : Outlet) (acts : List Act) : Outlet := acts.foldl step o

def happened (o : Outlet) : List Act → List Event
  | [] => []
  | .event e :: acts => (if o.waits e then [] else [e]) ++ (o.step (.event e)).happened acts
  | .put count :: acts => (o.step (.put count)).happened acts

/-- What has become of a connection: events one after the other, whole messages on the wire and of the
last one perhaps only a part. -/
structure Whole (c : Connection) (o : Outlet) (es : List Event) : Prop where
  events : o.connection = c.run es
  sent : o.sent = c.sent es
  stream : o.bytes ++ o.left = o.sent.flatMap fun m => Frame.encode m.text
  last : o.left ≠ [] → ∃ ms m, o.sent = ms ++ [m] ∧ o.left <:+ Frame.encode m.text

theorem whole_start (c : Connection) : Whole c { connection := c } [] :=
  ⟨rfl, rfl, rfl, fun h => absurd rfl h⟩

variable {c : Connection} {o : Outlet} {es : List Event}

theorem Whole.event (h : Whole c o es) {e : Event} (hfree : o.waits e = false) :
    Whole c (o.step (.event e)) (es ++ [e]) := by
  rw [step, hfree, if_neg Bool.false_ne_true]
  refine ⟨?_, ?_, ?_, ?_⟩
  · rw [Connection.run_concat, ← h.events]
  · rw [Connection.sent_concat, ← h.sent, ← h.events]
  · rw [← List.append_assoc, h.stream, List.flatMap_append]
  · dsimp only
    cases hwrote : o.connection.wrote? e with
    | none =>
      rw [Option.toList_none, List.flatMap_nil, List.append_nil, List.append_nil]
      exact h.last
    | some m =>
      intro _
      -- whoever writes has found the writer free
      have hmessage : o.connection.message? e = some m := by
        unfold Connection.wrote? at hwrote
        split at hwrote
        · exact hwrote
        · cases hwrote
      have hleft : o.left = [] := by simpa [waits, needsWriter, hmessage] using hfree
      exact ⟨o.sent, m, rfl, by simp [hleft]⟩

theorem Whole.put (h : Whole c o es) (count : Nat) : Whole c (o.step (.put count)) es where
  events := h.events
  sent := h.sent
  stream := by
    simp only [step, List.append_assoc, List.take_append_drop]
    exact h.stream
  last := by
    intro hne
    have hleft : o.left ≠ [] := by
      intro hnil
      simp [step, hnil] at hne
    obtain ⟨ms, m, hsent, hsuffix⟩ := h.last hleft
    exact ⟨ms, m, hsent, (List.drop_suffix count o.left).trans hsuffix⟩

theorem Whole.run (h : Whole c o es) (acts : List Act) :
    Whole c (o.run acts) (es ++ o.happened acts) := by
  induction acts generalizing o es with
  | nil =>
    rw [happened, List.append_nil]
    exact h
  | cons a acts ih =>
    cases a with
    | event e =>
      cases hwaits : o.waits e with
      | true =>
        have hstep : o.step (.event e) = o := by rw [step, hwaits, if_pos rfl]
        rw [happened, hwaits, if_pos rfl, List.nil_append, hstep]
        rw [Outlet.run, List.foldl_cons, hstep]
        exact ih h
      | false =>
        rw [happened, hwaits, if_neg Bool.false_ne_true, ← List.append_assoc]
        exact ih (h.event hwaits)
    | put count => exact ih (h.put count)

theorem Whole.read (h : Whole c o es) (hleft : o.left = [])
    (hshort : ∀ m ∈ o.sent, (Utf8.bytes m.text).length ≤ Frame.maxLength) :
    (Frame.frames true o.bytes).1 = o.sent.map fun m => Utf8.bytes m.text := by
  have hstream : o.bytes = Frame.stream (o.sent.map fun m => Utf8.bytes m.text) := by
    rw [Frame.stream, List.flatMap_map, ← List.append_nil o.bytes, ← hleft, h.stream]
    rfl
  rw [hstream, Frame.frames_stream]
  simpa using hshort

theorem heard_happened (o : Outlet) (acts : List Act) :
    (o.happened acts).filterMap Event.heard? = acts.filterMap Act.heard? := by
  induction acts generalizing o with
  | nil => rfl
  | cons a acts ih =>
    cases a with
    | put count => exact ih _
    | event e =>
      rw [happened, List.filterMap_append, ih, List.filterMap_cons]
      cases e with
      | hear m =>
        have hfree : o.waits (.hear m) = false := rfl
        rw [hfree]
        rfl
      | _ => split <;> rfl

end Outlet

end LanguageSessions
