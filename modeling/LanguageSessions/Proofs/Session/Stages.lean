import Mathlib.Logic.Relation
import LanguageSessions.Proofs.Connection.Requests
import LanguageSessions.Proofs.Session.Life

/-!
The calls that open and end a session, from one point at which they wait to the next. What a session
does where a call writes without having to wait is a run of these steps (`Reaches.dispose`,
`Reaches.advance`, `Reaches.handshake`).
-/
namespace LanguageSessions

namespace Connection

def enter (c : Connection) : Connection :=
  { c with nextId := c.nextId + 1, pending := c.pending ++ [c.nextId] }

def forget (c : Connection) (id : Nat) : Connection :=
  { c with pending := c.pending.filter (· != id) }

theorem forget_new (c : Connection) (hn : ∀ id ∈ c.pending, id < c.nextId) (channel : Channel) :
    ({ c.enter with channel := channel } : Connection).forget c.nextId =
      { c with nextId := c.nextId + 1, channel := channel } := by
  have hkept : (c.pending ++ [c.nextId]).filter (· != c.nextId) = c.pending := by
    rw [List.filter_append, List.filter_eq_self.mpr]
    · simp
    · intro id hid
      simpa using Nat.ne_of_lt (hn id hid)
  unfold forget enter
  dsimp only
  rw [hkept]

end Connection

inductive Operation where
  | handshake
  | shutdown
  | shutdownAndKill
  | dispose
  | kill
  deriving DecidableEq

inductive Purpose where
  | opening
  | asking
  | cleanup (gentle : Bool)
  deriving DecidableEq

namespace Purpose

def method : Purpose → String
  | opening => "initialize"
  | _ => "shutdown"

def params (greeting : Json) : Purpose → Option Json
  | opening => some greeting
  | _ => none

def request (p : Purpose) (greeting : Json) (id : Nat) : Request :=
  { id := .number id, method := p.method, params := p.params greeting }

end Purpose

inductive Stage where
  | ready (o : Operation)
  | writing (p : Purpose) (id : Nat)
  | waiting (p : Purpose) (id : Nat)
  | cancelling (p : Purpose) (id : Nat)
  | confirming (o : HandshakeOutcome)
  | departing
  | closing (gentle : Bool)
  | closed (gentle : Bool)
  | exiting
  | ended

structure Stride where
  session : Session
  stage : Stage
  wrote : List Message := []
  tried : Bool := false

def told (m : Message) : Except Fault Unit → List Message
  | .ok () => [m]
  | .error _ => []

namespace Purpose

def settle (s : Session) : Purpose → Stride
  | cleanup true => { session := s, stage := .departing, tried := true }
  | cleanup false => { session := s.kill, stage := .closing false, tried := true }
  | _ => { session := s, stage := .ended }

def enter (p : Purpose) (s : Session) : Stride :=
  if s.connection.closed then p.settle s
  else
    { session := { s with connection := s.connection.enter }
      stage := .writing p s.connection.nextId }

def write (p : Purpose) (greeting : Json) (id : Nat) (s : Session) : Stride :=
  match s.onConnection (·.write (.request (p.request greeting id))) with
  | (s, .ok ()) =>
    { session := s
      stage := if p = asking then .ended else .waiting p id
      wrote := [.request (p.request greeting id)] }
  | (s, .error _) => p.settle { s with connection := s.connection.forget id }

def giveUp (p : Purpose) (id : Nat) (s : Session) : Stride :=
  { session := { s with connection := s.connection.forget id }, stage := .cancelling p id }

def await (p : Purpose) (id : Nat) (late : Bool) (s : Session) : Stride :=
  match s.onConnection (·.take? id) with
  | (s, some _) => p.settle s
  | (s, none) => if late then p.giveUp id s else { session := s, stage := .waiting p id }

def greeted (v : Json) (s : Session) : Stride :=
  if v.isNull then { session := Handshake.accept s {}, stage := .ended }
  else
    { session := s
      stage := .confirming { capabilities := (Capabilities.ofJson? v).getD {} } }

def greet (id : Nat) (late : Bool) (s : Session) : Stride :=
  match s.onConnection (·.take? id) with
  | (s, some (.ok v)) => greeted v s
  | (s, some (.error .connectionClosed)) => { session := s, stage := .ended }
  | (s, some (.error _)) => { session := Handshake.accept s {}, stage := .ended }
  | (s, none) =>
    if s.connection.channel.processDead || s.connection.closed then { session := s, stage := .ended }
    else if late then opening.giveUp id s
    else { session := s, stage := .waiting opening id }

def cancel (p : Purpose) (id : Nat) (s : Session) : Stride :=
  let n : Notification := { method := "$/cancelRequest", params := some (.object [("id", .nat id)]) }
  let (s, r) := s.onConnection (·.write (.notification n))
  match p with
  | opening =>
    { session := Handshake.accept s { timedOut := true }
      stage := .ended
      wrote := told (.notification n) r }
  | p => { p.settle s with wrote := told (.notification n) r }

end Purpose

namespace Stage

def begin (s : Session) : Operation → Stride
  | .handshake => Purpose.opening.enter s
  | .shutdown => Purpose.asking.enter s.enterShuttingDown
  | .shutdownAndKill =>
    if s.cleanedUp then { session := s, stage := ended }
    else (Purpose.cleanup false).enter s.beginCleanup
  | .dispose =>
    if s.cleanedUp then { session := s, stage := ended }
    else if s.beginCleanup.isAlive then (Purpose.cleanup true).enter s.beginCleanup
    else { session := s.beginCleanup, stage := closing true }
  | .kill => { session := s.kill, stage := ended }

def confirm (o : HandshakeOutcome) (s : Session) : Stride :=
  let n : Notification := { method := "initialized", params := some (.object []) }
  match s.onConnection (·.write (.notification n)) with
  | (s, .error _) => { session := s, stage := ended }
  | (s, .ok ()) => { session := Handshake.accept s o, stage := ended, wrote := [.notification n] }

def depart (s : Session) : Stride :=
  let n : Notification := { method := "exit", params := none }
  let (s, r) := s.onConnection (·.write (.notification n))
  { session := s, stage := closing true, wrote := told (.notification n) r }

def linger (late : Bool) (s : Session) : Stride :=
  if !s.connection.channel.processAlive then { session := Cleanup.terminated s, stage := ended }
  else if late then { session := Cleanup.terminated s.killProcess, stage := ended }
  else { session := s, stage := exiting }

def step (greeting : Json) (late : Bool) (s : Session) : Stage → Stride
  | ready o => begin s o
  | writing p id => p.write greeting id s
  | waiting .opening id => Purpose.greet id late s
  | waiting p id => p.await id late s
  | cancelling p id => p.cancel id s
  | confirming o => confirm o s
  | departing => depart s
  | closing gentle => { session := Cleanup.close s, stage := closed gentle }
  | closed true => linger late s
  | closed false => { session := Cleanup.terminated s, stage := ended }
  | exiting => linger late s
  | ended => { session := s, stage := ended }

def ofCleanup : Cleanup → Stage
  | .asking gentle x => waiting (.cleanup gentle) x.id
  | .leaving _ _ => exiting

def after (ofWork : σ → Stage) (g : Stage) : Advance σ α → Stage
  | .idle => g
  | .on c => ofWork c
  | .done _ => ended

end Stage

/-- A session and a call come to another point by steps of the call, with nothing in between. -/
def Reaches (greeting : Json) (p q : Session × Stage) : Prop :=
  Relation.ReflTransGen (fun p q : Session × Stage => ∃ late,
    q = ((p.2.step greeting late p.1).session, (p.2.step greeting late p.1).stage)) p q

namespace Reaches

variable (greeting : Json)

theorem step (s : Session) (g : Stage) (late : Bool) : Reaches greeting (s, g)
    ((g.step greeting late s).session, (g.step greeting late s).stage) :=
  .single ⟨late, rfl⟩

def sent (p : Purpose) (s : Session) : Connection × Except Fault Nat → Session × Stage
  | (c, .ok id) => ({ s with connection := c }, if p = .asking then .ended else .waiting p id)
  | (c, .error _) =>
    ((p.settle { s with connection := c }).session, (p.settle { s with connection := c }).stage)

theorem request {s : Session} (hn : ∀ id ∈ s.connection.pending, id < s.connection.nextId)
    (p : Purpose) : Reaches greeting ((p.enter s).session, (p.enter s).stage)
      (sent p s (s.connection.sendRequest p.method (p.params greeting))) := by
  unfold Purpose.enter
  cases hclosed : s.connection.closed with
  | true =>
    rw [if_pos rfl, Connection.sendRequest_of_closed _ _ _ hclosed]
    exact .refl
  | false =>
    rw [if_neg Bool.false_ne_true]
    obtain ⟨w, hw⟩ : ∃ w, s.connection.channel.write
      (Connection.requestText s.connection.nextId p.method (p.params greeting)) = w := ⟨_, rfl⟩
    rw [Connection.sendRequest_of_open _ _ _ hclosed hw]
    have hwrite : ({ s with connection := s.connection.enter } : Session).onConnection
        (·.write (.request (p.request greeting s.connection.nextId))) =
        ({ s with connection := { s.connection.enter with channel := w.1 } }, w.2) := by
      rw [← hw]
      rfl
    have hstep : Reaches greeting
        ({ s with connection := s.connection.enter }, .writing p s.connection.nextId)
        ((p.write greeting s.connection.nextId
          { s with connection := s.connection.enter }).session,
          (p.write greeting s.connection.nextId
            { s with connection := s.connection.enter }).stage) := step _ _ _ false
    unfold Purpose.write at hstep
    rw [hwrite] at hstep
    obtain ⟨channel, r⟩ := w
    cases r with
    | ok u => exact hstep
    | error f =>
      dsimp only at hstep
      rw [s.connection.forget_new hn channel] at hstep
      exact hstep

theorem linger_eq (g : Stage) (deadline now : Nat) (s : Session) :
    ((Stage.linger (decide (deadline ≤ now)) s).session,
      (Stage.linger (decide (deadline ≤ now)) s).stage) =
    ((Cleanup.look deadline now s).1, Stage.after .ofCleanup g (Cleanup.look deadline now s).2) := by
  unfold Stage.linger Cleanup.look
  by_cases halive : s.connection.channel.processAlive = true
  · by_cases hlate : deadline ≤ now
    · simp only [halive, hlate, decide_true, Bool.not_true, Bool.false_eq_true, if_false, if_true]
      rfl
    · simp only [halive, hlate, decide_false, Bool.not_true, Bool.false_eq_true, if_false]
      rfl
  · simp only [Bool.eq_false_iff.mpr halive, Bool.not_false, if_true]
    rfl

theorem settle (gentle : Bool) (now : Nat) (s : Session) (g : Stage) : Reaches greeting
    (((Purpose.cleanup gentle).settle s).session, ((Purpose.cleanup gentle).settle s).stage)
    ((Cleanup.afterAsking gentle now s).1,
      Stage.after .ofCleanup g (Cleanup.afterAsking gentle now s).2) := by
  cases gentle with
  | true =>
    have hdepart := step greeting s .departing false
    have hclose := step greeting (s.notify "exit" none).1 (.closing true) false
    have hlinger := step greeting (Cleanup.close (s.notify "exit" none).1)
      (.closed true) (decide (now + s.timing.exitWait ≤ now))
    have hlook := linger_eq g (now + s.timing.exitWait) now (Cleanup.close (s.notify "exit" none).1)
    exact hdepart.trans (hclose.trans (hlook ▸ hlinger))
  | false =>
    have hclose := step greeting s.kill (.closing false) false
    have hend := step greeting (Cleanup.close s.kill) (.closed false) false
    exact hclose.trans hend

theorem ask (gentle : Bool) (now : Nat) {s : Session}
    (hn : ∀ id ∈ s.connection.pending, id < s.connection.nextId) (g : Stage) : Reaches greeting
    (((Purpose.cleanup gentle).enter s).session, ((Purpose.cleanup gentle).enter s).stage)
    ((Cleanup.ask gentle now s).1, Stage.after .ofCleanup g (Cleanup.ask gentle now s).2) := by
  have hrequest := request greeting hn (.cleanup gentle)
  unfold Cleanup.ask Session.onConnection Exchange.start
  change Reaches greeting _ (sent _ s (s.connection.sendRequest "shutdown" none)) at hrequest
  dsimp only
  generalize s.connection.sendRequest "shutdown" none = p at hrequest ⊢
  obtain ⟨c, r⟩ := p
  cases r with
  | ok id => exact hrequest
  | error f => exact hrequest.trans (settle _ gentle now _ g)

theorem enterShuttingDown_connection (s : Session) : s.enterShuttingDown.connection = s.connection := by
  unfold Session.enterShuttingDown
  split <;> rfl

theorem beginCleanup_numbered {s : Session}
    (hn : ∀ id ∈ s.connection.pending, id < s.connection.nextId) :
    ∀ id ∈ s.beginCleanup.connection.pending, id < s.beginCleanup.connection.nextId := by
  rwa [Session.beginCleanup, enterShuttingDown_connection]

theorem dispose {s : Session} (hn : ∀ id ∈ s.connection.pending, id < s.connection.nextId)
    (now : Nat) : Reaches greeting (s, .ready .dispose)
    ((s.dispose now).1, Stage.after .ofCleanup (.ready .dispose) (s.dispose now).2) := by
  have hbegin : Reaches greeting (s, .ready .dispose)
    ((Stage.begin s .dispose).session, (Stage.begin s .dispose).stage) := step _ s _ false
  unfold Session.dispose
  unfold Stage.begin at hbegin
  by_cases hclean : s.cleanedUp = true
  · rw [if_pos hclean]
    simp only [hclean, if_true] at hbegin
    exact hbegin
  · rw [if_neg hclean]
    simp only [hclean, Bool.false_eq_true, if_false] at hbegin
    dsimp only
    by_cases halive : s.beginCleanup.isAlive = true
    · rw [if_pos halive]
      rw [if_pos halive] at hbegin
      exact hbegin.trans (ask _ true now (beginCleanup_numbered hn) _)
    · rw [if_neg halive]
      rw [if_neg halive] at hbegin
      have hclose := step greeting s.beginCleanup (.closing true) false
      have hlinger := step greeting (Cleanup.close s.beginCleanup)
        (.closed true) (decide (now + s.beginCleanup.timing.exitWait ≤ now))
      have hlook := linger_eq (.ready .dispose) (now + s.beginCleanup.timing.exitWait) now
        (Cleanup.close s.beginCleanup)
      exact hbegin.trans (hclose.trans (hlook ▸ hlinger))

theorem shutdownAndKill {s : Session}
    (hn : ∀ id ∈ s.connection.pending, id < s.connection.nextId) (now : Nat) :
    Reaches greeting (s, .ready .shutdownAndKill)
      ((s.shutdownAndKill now).1,
        Stage.after .ofCleanup (.ready .shutdownAndKill) (s.shutdownAndKill now).2) := by
  have hbegin : Reaches greeting (s, .ready .shutdownAndKill)
    ((Stage.begin s .shutdownAndKill).session, (Stage.begin s .shutdownAndKill).stage) :=
    step _ s _ false
  unfold Session.shutdownAndKill
  unfold Stage.begin at hbegin
  by_cases hclean : s.cleanedUp = true
  · rw [if_pos hclean]
    simp only [hclean, if_true] at hbegin
    exact hbegin
  · rw [if_neg hclean]
    simp only [hclean, Bool.false_eq_true, if_false] at hbegin
    exact hbegin.trans (ask _ false now (beginCleanup_numbered hn) _)

theorem shutdown {s : Session} (hn : ∀ id ∈ s.connection.pending, id < s.connection.nextId) :
    Reaches greeting (s, .ready .shutdown) (s.shutdown, .ended) := by
  have hbegin : Reaches greeting (s, .ready .shutdown)
    ((Purpose.asking.enter s.enterShuttingDown).session,
      (Purpose.asking.enter s.enterShuttingDown).stage) := step _ s _ false
  rw [← enterShuttingDown_connection s] at hn
  have hrequest := request greeting hn .asking
  unfold Session.shutdown Session.onConnection
  change Reaches greeting _ (sent _ _ (s.enterShuttingDown.connection.sendRequest "shutdown" none))
    at hrequest
  dsimp only
  generalize s.enterShuttingDown.connection.sendRequest "shutdown" none = p at hrequest ⊢
  obtain ⟨c, r⟩ := p
  cases r with
  | ok id => exact hbegin.trans hrequest
  | error f => exact hbegin.trans hrequest

theorem kill (s : Session) : Reaches greeting (s, .ready .kill) (s.kill, .ended) :=
  step _ s (.ready .kill) false

theorem advance (w : Cleanup) (now : Nat) (s : Session) :
    Reaches greeting (s, .ofCleanup w)
      ((w.advance now s).1, Stage.after .ofCleanup (.ofCleanup w) (w.advance now s).2) := by
  cases w with
  | asking gentle x =>
    have hawait : Reaches greeting (s, .waiting (.cleanup gentle) x.id)
        (((Purpose.cleanup gentle).await x.id (decide (x.due ≤ now)) s).session,
          ((Purpose.cleanup gentle).await x.id (decide (x.due ≤ now)) s).stage) :=
      step _ s _ (decide (x.due ≤ now))
    unfold Purpose.await Session.onConnection at hawait
    unfold Cleanup.advance Session.onConnection Exchange.advance
    dsimp only at hawait ⊢
    generalize s.connection.take? x.id = p at hawait ⊢
    obtain ⟨c, r⟩ := p
    cases r with
    | some answer => exact hawait.trans (settle _ gentle now _ _)
    | none =>
      by_cases hdue : x.due ≤ now
      · simp only [hdue, decide_true, if_true] at hawait ⊢
        have hcancel := step greeting
          { s with connection := c.forget x.id } (.cancelling (.cleanup gentle) x.id) false
        exact hawait.trans (hcancel.trans (settle _ gentle now _ _))
      · simp only [hdue, decide_false, Bool.false_eq_true, if_false] at hawait ⊢
        exact hawait
  | leaving deadline due =>
    unfold Cleanup.advance
    dsimp only
    by_cases hdue : due ≤ now
    · rw [if_pos hdue, ← linger_eq]
      exact step _ s .exiting (decide (deadline ≤ now))
    · rw [if_neg hdue]
      exact .refl

theorem start {s : Session} (hn : ∀ id ∈ s.connection.pending, id < s.connection.nextId) (h : Host)
    (processId now : Nat) : Reaches (introduction h (some processId) s.root) (s, .ready .handshake)
      ((Handshake.start h processId now s).1, match (Handshake.start h processId now s).2 with
        | .ok hs => .waiting .opening hs.request
        | .error _ => .ended) := by
  have hbegin : Reaches (introduction h (some processId) s.root) (s, .ready .handshake)
    ((Purpose.opening.enter s).session, (Purpose.opening.enter s).stage) := step _ s _ false
  have hrequest := request (introduction h (some processId) s.root) hn .opening
  unfold Handshake.start Session.onConnection
  change Reaches _ _ (sent _ s (s.connection.sendRequest "initialize"
    (some (introduction h (some processId) s.root)))) at hrequest
  dsimp only
  generalize s.connection.sendRequest "initialize" _ = p at hrequest ⊢
  obtain ⟨c, r⟩ := p
  cases r with
  | ok id => exact hbegin.trans hrequest
  | error f => exact hbegin.trans hrequest

theorem finish (s : Session) (v : Json) : Reaches greeting
    ((Purpose.greeted v s).session, (Purpose.greeted v s).stage)
    ((Handshake.finish s v).1, .ended) := by
  unfold Handshake.finish Purpose.greeted
  by_cases hnull : v.isNull = true
  · rw [if_pos hnull, if_pos hnull]
    exact .refl
  · rw [if_neg hnull, if_neg hnull]
    have hconfirm := step greeting s
      (.confirming { capabilities := (Capabilities.ofJson? v).getD {} }) false
    change Reaches greeting _ ((Stage.confirm _ s).session, (Stage.confirm _ s).stage) at hconfirm
    unfold Stage.confirm at hconfirm
    unfold Session.notify Connection.notify
    dsimp only at hconfirm ⊢
    generalize s.onConnection _ = p at hconfirm ⊢
    obtain ⟨t, r⟩ := p
    cases r with
    | ok u => exact hconfirm
    | error f => exact hconfirm

theorem handshake (hs : Handshake) (now : Nat) (s : Session) :
    Reaches greeting (s, .waiting .opening hs.request)
      ((hs.advance now s).1, Stage.after (fun hs : Handshake => .waiting .opening hs.request)
        (.waiting .opening hs.request) (hs.advance now s).2) := by
  have hgreet : ∀ late, Reaches greeting (s, .waiting .opening hs.request)
      ((Purpose.greet hs.request late s).session, (Purpose.greet hs.request late s).stage) :=
    fun late => step _ s _ late
  have hsame : ∀ c, s.connection.take? hs.request = (c, none) → c = s.connection := by
    intro c hc
    unfold Connection.take? at hc
    split at hc
    · cases hc
    · split at hc
      · exact (Prod.mk.inj hc).1.symm
      · cases hc
  unfold Purpose.greet Session.onConnection at hgreet
  unfold Handshake.advance Session.onConnection
  dsimp only at hgreet ⊢
  generalize s.connection.take? hs.request = p at hgreet hsame ⊢
  obtain ⟨c, r⟩ := p
  cases r with
  | some answer =>
    cases answer with
    | ok v => exact (hgreet false).trans (finish _ _ v)
    | error f =>
      cases f with
      | connectionClosed => exact hgreet false
      | _ => exact hgreet false
  | none =>
    cases hsame c rfl
    dsimp only
    by_cases hdue : hs.due ≤ now
    · rw [if_pos hdue]
      unfold Handshake.look
      dsimp only
      by_cases hgone : (s.connection.channel.processDead || s.connection.closed) = true
      · have hleft := hgreet false
        simp only [hgone, if_true] at hleft ⊢
        exact hleft
      · by_cases hover : hs.isOver now s.timing = true
        · have hlate := hgreet true
          simp only [hgone, hover, if_true] at hlate ⊢
          exact hlate.trans (step _ _ _ false)
        · have hearly := hgreet false
          simp only [hgone, hover] at hearly ⊢
          exact hearly
    · rw [if_neg hdue]
      exact .refl

end Reaches

end LanguageSessions
