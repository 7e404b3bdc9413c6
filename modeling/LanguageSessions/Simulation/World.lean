import LanguageSessions.Registry.Call
import LanguageSessions.Scheduler.Feed
import LanguageSessions.Session.Summary
import LanguageSessions.Simulation.FarEnd

/-!
A world to run sessions in: a clock, a registry, the servers at the far ends of its channels, and
all work that is under way. Time passes only when nothing can be done at the present moment.
-/
namespace LanguageSessions.Simulation

inductive Wanted where
  | anything
  | natural
  | text
  deriving DecidableEq, Repr

inductive Result where
  | word (s : String)
  | text (s : String)
  | flag (b : Bool)
  | count (n : Nat)
  | nothing
  | value (v : Json)
  | fault (f : Fault)
  | sessionFault (f : SessionFault)
  | session (s : Session)
  | state (s : SessionState)
  | handshake (o : HandshakeOutcome) (s : SessionState)
  | info (s : Session)
  | output (s : Session) (directory : String)
  | capabilities (c : Capabilities)
  | connection (c : Connection)
  | request (id : Nat) (method : String)
  | names (xs : List String)
  | diagnostics (ds : List Diagnostic)
  | log (lines : List LogLine)
  | sessions (ss : List (SessionId × SessionState))
  | questions (qs : List Question)
  | targets (ts : List (String × String))

namespace Result

def ok : Result := .word "ok"

def ofAnswer (w : Wanted) : Except Fault Json → Result
  | .error f => .fault f
  | .ok v =>
    let fits := match w with
      | .anything => true
      | .natural => (Json.nat? Text.max64 v).isSome
      | .text => (Json.string? v).isSome
    if fits then .value v else .fault (.unexpected "invalid type")

def ofUnit : Except Fault Unit → Result
  | .ok () => .ok
  | .error f => .fault f

def ofQuery (r : Except Fault Json) : Result :=
  match Session.queryAnswer r with
  | .ok (some v) => .value v
  | .ok none => .word "no answer"
  | .error f => .fault f

end Result

inductive Purpose where
  | call (w : Wanted)
  | query
  deriving DecidableEq, Repr

inductive Work where
  | pause (due : Nat)
  | await (id : SessionId) (slot : String) (request due : Nat)
  | exchange (id : SessionId) (x : Exchange) (p : Purpose)
  | handshake (id : SessionId) (hs : Handshake)
  | cleanup (id : SessionId) (c : Cleanup)
  | watch (server deadline poll due : Nat)
  | call (c : Call) (label : Option String)
  | join (name : String)
  | reap (reaper interval window tick : Nat) (sweep : Option Call)

inductive ScriptedEnd where
  | ok
  | interrupted
  | failed (f : Fault)
  | panic
  deriving Inhabited

structure ScriptedRun where
  millis : Nat := 0
  query : Option (String × Option Json) := none
  ending : ScriptedEnd := .ok
  deriving Inhabited

structure TaskObject where
  runs : List ScriptedRun
  begun : Nat := 0

structure OwnJob where
  name : String
  millis : Nat

inductive Current where
  | seeking (r : TaskRun) (ticket : Nat) (c : Call)
  | working (r : TaskRun) (id : SessionId) (n start due : Nat) (plan : ScriptedRun)
  | asking (r : TaskRun) (id : SessionId) (n start : Nat) (x : Exchange)
  | own (name : String) (start due : Nat)

inductive Record where
  | run (file task : String) (session start stop n : Nat) (ending : ScriptedEnd)
      (answer : Option (Option Json))
  | own (name : String) (start stop : Nat)

def Record.key : Record → Nat × Nat × String × String × Nat
  | run file task _ start stop n _ _ => (stop, start, file, task, n)
  | own _ start stop => (stop, start, "", "", 0)

def Record.le (a b : Record) : Bool :=
  let (e, s, f, t, n) := a.key
  let (e', s', f', t', n') := b.key
  if e != e' then e < e'
  else if s != s' then s < s'
  else if f != f' then f < f'
  else if t != t' then t < t'
  else n ≤ n'

inductive Source where
  | registry
  | channel (n : Nat)
  deriving DecidableEq, Repr

structure Following where
  source : Source
  follower : Follower
  finished : Bool := false

structure Reaper where
  stopped : Bool := false
  finished : Bool := false

structure Interruption where
  file : String
  delay : Nat
  due : Option Nat := none
  deriving DecidableEq, Repr

structure World where
  now : Nat := 0
  registry : Registry
  servers : List FarEnd := []
  supply : Supply
  labels : List (String × SessionId) := []
  slots : List (String × Nat) := []
  nextTicket : Nat := 0
  work : List (Nat × Work) := []
  results : List (Nat × Result) := []
  jobs : List (String × Nat) := []
  scheduler : Option Scheduler := none
  objects : List TaskObject := []
  ownJobs : List OwnJob := []
  background : Option Current := none
  events : Option Current := none
  records : List Record := []
  following : List Following := []
  feeds : List Feed := []
  reapers : List Reaper := []
  registryDropped : Bool := false
  announcementsSeen : Nat := 0
  questionsSeen : Nat := 0
  interruption : Option Interruption := none

namespace World

def setRegistry (w : World) (r : Registry) : World := { w with registry := r }

def change (w : World) (id : SessionId) (f : Session → Session × α) : World × Option α :=
  let (r, a) := w.registry.change id f
  (w.setRegistry r, a)

def onConnection (w : World) (id : SessionId) (f : Connection → Connection × α) :
    World × Option α :=
  w.change id (·.onConnection f)

def connect (supply : Supply) (refusing : Bool) (h : Host) (n : Nat) (d : ServerDescription)
    (root : String) : Except Fault Channel :=
  if refusing then .error (.launch (d.name ++ ": refused"))
  else (supply h n d root).map (·.1)

def refuse (w : World) (on : Bool) : World :=
  { w with registry := { w.registry with connect := connect w.supply on } }

def staff (w : World) : World :=
  let known := w.servers.length
  let new := ((w.registry.launches.drop known).zipIdx known).map fun ((d, root), n) =>
    match w.supply w.registry.host n d root with
    | .ok (_, e) => e
    | .error _ => .scripted { script := {} }
  if new.isEmpty then w else { w with servers := w.servers ++ new }

def ticket (w : World) : World × Nat := ({ w with nextTicket := w.nextTicket + 1 }, w.nextTicket)

def begin (w : World) (work : Work) : World × Nat :=
  let (w, t) := w.ticket
  ({ w with work := w.work ++ [(t, work)] }, t)

def conclude (w : World) (t : Nat) (r : Result) : World :=
  { w with work := w.work.filter (·.1 != t), results := w.results ++ [(t, r)] }

def setWork (w : World) (t : Nat) (work : Work) : World :=
  { w with work := w.work.map fun e => if e.1 == t then (t, work) else e }

def resultOf (w : World) : Reply → Result
  | .session (.ok id) => ((w.registry.session? id).map Result.session).getD .nothing
  | .session (.error f) => .sessionFault f
  | .resolved id => ((id.bind w.registry.session?).map Result.session).getD .nothing
  | .sessions ids =>
    .sessions ((ids.filterMap w.registry.session?).map fun s => (s.id, s.state))
  | .count n => .count n
  | .restarted b => .flag b
  | .done => .ok

def labelled (w : World) (label : Option String) (r : Reply) : World :=
  let id? := match r with
    | .session (.ok id) => some id
    | .resolved id => id
    | _ => none
  match label, id? with
  | some l, some id => { w with labels := w.labels.filter (·.1 != l) ++ [(l, id)] }
  | _, _ => w

end World

end LanguageSessions.Simulation
