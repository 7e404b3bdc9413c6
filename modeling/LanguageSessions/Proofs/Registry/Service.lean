import LanguageSessions.Proofs.Registry.Calls

/-!
A registry in use. Any number of calls are under way and advance in any order; between their steps
servers answer, fall silent and die, clients use the sessions they were given and clean them up on
their own account, and the sessions that a registry retired are disposed of.
-/
namespace LanguageSessions

inductive Demand where
  | resolve (owner : Option String) (file : String)
  | resolveFile (file : String)
  | getOrCreate (owner : Option String) (file contentType : String)
  | ensureRunning (project contentType : String)
  | attach (root : String) (d : ServerDescription) (extensions : List String)
  | list
  | evict (window : Nat)
  | restart (key : SessionKey)
  | killAll
  | shutdownAll

inductive Status where
  | running (c : Call)
  | replied (r : Reply)

def Demand.begin (r : Registry) : Demand → Status
  | resolve owner file => .running (Call.resolve owner file)
  | resolveFile file => .running (Call.resolveFile r file)
  | getOrCreate owner file contentType => .running (Call.getOrCreate r owner file contentType)
  | ensureRunning project contentType => .running (Call.ensureRunning r project contentType)
  | attach root d extensions =>
    match Call.attach r root d extensions with
    | .ok c => .running c
    | .error f => .replied (.session (.error f))
  | list => .running (.waiting .list false)
  | evict window => .running (.waiting (.evict window) false)
  | restart key => .running (.waiting (.restart key) false)
  | killAll => .running (.waiting .killAll false)
  | shutdownAll => .running (.waiting .shutdownAll false)

namespace Status

def young : Status → List SessionId
  | running c => c.young
  | replied _ => []

def cleaning : Status → List SessionId
  | running c => c.cleaning
  | replied _ => []

def holds : Status → List SessionId
  | running c => c.holds
  | replied _ => []

def Placed (r : Registry) : Status → Prop
  | running c => c.Placed r
  | replied _ => True

def next (c : Call) : Advance Call Reply → Status
  | .idle => .running c
  | .on c => .running c
  | .done r => .replied r

end Status

def Call.gives (c : Call) : Advance Call Reply → List (SessionKey × SessionId)
  | .done reply =>
    match c.key?, reply.session? with
    | some key, some id => [(key, id)]
    | _, _ => []
  | _ => []

inductive Session.Use where
  | shutdown
  | kill
  | openFile (file : String)
  | closeFile (file : String)

def Session.use (s : Session) : Session.Use → Session
  | .shutdown => s.shutdown
  | .kill => s.kill
  | .openFile file => (s.openFile file).1
  | .closeFile file => (s.closeFile file).1

structure Service where
  registry : Registry
  now : Nat := 0
  calls : List Status := []
  cleanups : List (SessionId × Cleanup) := []
  given : List (SessionKey × SessionId) := []

namespace Service

inductive Act where
  | ask (d : Demand)
  | advance (ticket : Nat)
  | pass (millis : Nat)
  | move (h : Host) (connect : Host → Nat → ServerDescription → String → Except Fault Channel)
  | event (id : SessionId) (e : Connection.Event)
  | use (id : SessionId) (u : Session.Use)
  | dispose (id : SessionId)
  | shutdownAndKill (id : SessionId)
  | reap (i : Nat)
  | clean (i : Nat)
  | release (id : SessionId)

/-- May clients have a session? It was announced, and they have not let go of it. -/
def isShared (σ : Service) (id : SessionId) : Bool :=
  σ.registry.announced.contains id && !σ.registry.released.contains id

/-- Is there a session that neither the registry nor any work holds? -/
def isLoose (σ : Service) (id : SessionId) : Bool :=
  (σ.registry.session? id).isSome && !σ.registry.tables.held.contains id
    && !σ.registry.retired.contains id && !σ.registry.released.contains id
    && σ.calls.all (fun s => !s.holds.contains id) && σ.cleanups.all (fun e => e.1 != id)

def begin (σ : Service) (id : SessionId) (f : Session → Session × Advance Cleanup Unit) : Service :=
  match σ.registry.change id f with
  | (r, some (.on c)) => { σ with registry := r, cleanups := σ.cleanups ++ [(id, c)] }
  | (r, _) => { σ with registry := r }

def step (σ : Service) : Act → Service
  | .ask d => { σ with calls := σ.calls ++ [d.begin σ.registry] }
  | .advance ticket =>
    match σ.calls[ticket]? with
    | some (.running c) =>
      let (r, a) := c.advance ticket σ.now σ.registry
      { σ with
        registry := r
        calls := σ.calls.set ticket (.next c a)
        given := σ.given ++ c.gives a }
    | _ => σ
  | .pass millis => { σ with now := σ.now + millis }
  | .move h connect => { σ with registry := { σ.registry with host := h, connect := connect } }
  | .event id e =>
    if e.isOwn || σ.isShared id then
      { σ with registry :=
          σ.registry.modify id fun s => { s with connection := s.connection.step e } }
    else σ
  | .use id u =>
    if σ.isShared id then { σ with registry := σ.registry.modify id (·.use u) } else σ
  | .dispose id => if σ.isShared id then σ.begin id (·.dispose σ.now) else σ
  | .shutdownAndKill id => if σ.isShared id then σ.begin id (·.shutdownAndKill σ.now) else σ
  | .reap i =>
    match σ.registry.retired[i]? with
    | some id =>
      ({ σ with registry := { σ.registry with retired := σ.registry.retired.eraseIdx i } }
        : Service).begin id (·.dispose σ.now)
    | none => σ
  | .clean i =>
    match σ.cleanups[i]? with
    | some (id, c) =>
      match σ.registry.change id (c.advance σ.now) with
      | (r, some (.on c)) => { σ with registry := r, cleanups := σ.cleanups.set i (id, c) }
      | (r, some .idle) => { σ with registry := r }
      | (r, _) => { σ with registry := r, cleanups := σ.cleanups.eraseIdx i }
    | none => σ
  | .release id => if σ.isLoose id then { σ with registry := σ.registry.release id } else σ

def run (σ : Service) (as : List Act) : Service := as.foldl step σ

theorem run_append (σ : Service) (as bs : List Act) : σ.run (as ++ bs) = (σ.run as).run bs :=
  List.foldl_append

def new (r : Registry) : Service where
  registry :=
    { host := r.host, timing := r.timing, providers := r.providers, contentTypes := r.contentTypes,
      locator := r.locator, connect := r.connect, processId := r.processId }

end Service

end LanguageSessions
