import LanguageSessions.Simulation.World

/-!
How a world goes on. At one moment every piece of work is advanced, then the lanes, the followers,
the servers and the readers, round after round until a round changes nothing; then the clock jumps
to the next point in time at which something is due.
-/
namespace LanguageSessions.Simulation.World

abbrev Moved := World × Bool

def chain (steps : List (World → Moved)) (w : World) : Moved :=
  steps.foldl (fun x step => let (w, m) := step x.1; (w, x.2 || m)) (w, false)

def proceed (w : World) (t : Nat) (a : Option (Advance σ α)) (again : σ → Work)
    (result : World → α → Result) : Moved :=
  match a with
  | none => (w.conclude t (.word "no such session"), true)
  | some .idle => (w, false)
  | some (.on s) => (w.setWork t (again s), true)
  | some (.done r) => (w.conclude t (result w r), true)

def stateOf (w : World) (id : SessionId) : SessionState :=
  ((w.registry.session? id).map Session.state).getD .terminated

def watchAgain (w : World) (server deadline poll due : Nat) : Option (Work ⊕ Bool) :=
  if w.now < due then none
  else
    match w.servers[server]?, w.registry.sessions[server]? with
    | some sv, some s =>
      if !(sv.process s.connection.channel).alive then some (.inr true)
      else if deadline ≤ w.now then some (.inr false)
      else some (.inl (.watch server deadline poll (w.now + poll)))
    | _, _ => some (.inr true)

def reap (w : World) (t reaper interval window tick : Nat) (sweep : Option Call) : Moved :=
  let stopped := (w.reapers[reaper]?).all Reaper.stopped
  let finish (w : World) : World :=
    { w with work := w.work.filter (·.1 != t)
             reapers := w.reapers.modify reaper fun r => { r with finished := true } }
  match sweep with
  | some c =>
    let (r, a) := c.advance t w.now w.registry
    let w := w.setRegistry r
    match a with
    | .idle => (w, false)
    | .on c => (w.setWork t (.reap reaper interval window tick (some c)), true)
    | .done _ =>
      if stopped then (finish w, true)
      else (w.setWork t (.reap reaper interval window tick none), true)
  | none =>
    if w.now < tick then (w, false)
    else if stopped then (finish w, true)
    else
      (w.setWork t
        (.reap reaper interval window (tick + interval) (some (.waiting (.evict window) false))),
        true)

def advanceWork (w : World) (t : Nat) : Work → Moved
  | .pause due => if due ≤ w.now then (w.conclude t .ok, true) else (w, false)
  | .await id slot request due =>
    match w.onConnection id (·.take? request) with
    | (w, some (some r)) =>
      ({ w.conclude t (Result.ofAnswer .anything r) with
          slots := w.slots.filter (·.1 != slot) }, true)
    | (w, some none) =>
      if due ≤ w.now then (w.conclude t (.word "pending"), true) else (w, false)
    | (w, none) => (w.conclude t (.word "no such session"), true)
  | .exchange id x p =>
    let (w, a) := w.onConnection id (x.advance w.now)
    match a with
    | none => (w.conclude t (.word "no such session"), true)
    | some none => (w, false)
    | some (some r) =>
      let result := match p with
        | .call wanted => Result.ofAnswer wanted r
        | .query => Result.ofQuery r
      (w.conclude t result, true)
  | .handshake id hs =>
    let (w, a) := w.change id (hs.advance w.now)
    w.proceed t a (.handshake id) fun w r =>
      match r with
      | .ok o => .handshake o (w.stateOf id)
      | .error f => .fault f
  | .cleanup id c =>
    let (w, a) := w.change id (c.advance w.now)
    w.proceed t a (.cleanup id) fun w _ => .state (w.stateOf id)
  | .watch server deadline poll due =>
    match w.watchAgain server deadline poll due with
    | none => (w, false)
    | some (.inl work) => (w.setWork t work, true)
    | some (.inr b) => (w.conclude t (.flag b), true)
  | .call c label =>
    let (r, a) := c.advance t w.now w.registry
    let w := w.setRegistry r
    match a with
    | .idle => (w, false)
    | .on c => (w.setWork t (.call c label), true)
    | .done reply => ((w.labelled label reply).conclude t (w.resultOf reply), true)
  | .join name =>
    match w.jobs.lookup name with
    | none => (w.conclude t (.word "no such job"), true)
    | some job =>
      match w.results.lookup job with
      | none => (w, false)
      | some r => ({ w.conclude t r with jobs := w.jobs.filter (·.1 != name) }, true)
  | .reap reaper interval window tick sweep => w.reap t reaper interval window tick sweep

def disposeRetired (w : World) : Moved :=
  match w.registry.retired with
  | [] => (w, false)
  | ids =>
    let w := w.setRegistry { w.registry with retired := [] }
    (ids.foldl (fun w id =>
      match w.change id (·.dispose w.now) with
      | (w, some (.on c)) => (w.begin (.cleanup id c)).1
      | (w, _) => w) w, true)

def nextPlan (w : World) (object : Nat) : World × Nat × ScriptedRun :=
  match w.objects[object]? with
  | none => (w, 0, {})
  | some o =>
    ({ w with objects := w.objects.set object { o with begun := o.begun + 1 } }, o.begun,
      (o.runs[o.begun]? <|> o.runs.getLast?).getD {})

def endRun (w : World) (s : Scheduler) (r : TaskRun) (id : SessionId) (n start : Nat)
    (ending : ScriptedEnd) (answer : Option (Option Json)) : World :=
  let e := match ending with
    | .interrupted => RunEnd.interrupted
    | .ok => RunEnd.finished
    | _ => RunEnd.failed
  { w with
    background := none
    records := w.records ++ [.run r.file r.task.name id start w.now n ending answer]
    scheduler := some (s.ended r e w.now) }

def advanceBackground (w : World) (s : Scheduler) : Moved :=
  match w.background with
  | none =>
    match s.background with
    | [] => (w, false)
    | j :: rest =>
      let w := { w with scheduler := some { s with background := rest } }
      match j with
      | .run r =>
        if s.isCancelled r.token then (w, true)
        else
          let (w, t) := w.ticket
          ({ w with background := some (.seeking r t (Call.resolveFile w.registry r.file)) }, true)
      | .rerunAll => (w, true)
      | .own n =>
        match w.ownJobs[n]? with
        | none => (w, true)
        | some o => ({ w with background := some (.own o.name w.now (w.now + o.millis)) }, true)
  | some (.seeking r t c) =>
    let (registry, a) := c.advance t w.now w.registry
    let w := w.setRegistry registry
    match a with
    | .idle => (w, false)
    | .on c => ({ w with background := some (.seeking r t c) }, true)
    | .done (.resolved (some id)) =>
      let (w, n, plan) := w.nextPlan r.task.object
      ({ w with background := some (.working r id n w.now (w.now + plan.millis) plan) }, true)
    | .done _ => ({ w with background := none }, true)
  | some (.working r id n start due plan) =>
    if w.now < due then (w, false)
    else
      match plan.query with
      | none => (w.endRun s r id n start plan.ending none, true)
      | some (method, params) =>
        match w.change id (·.request method params w.now) with
        | (w, some (.ok x)) => ({ w with background := some (.asking r id n start x) }, true)
        | (w, some (.error f)) => (w.endRun s r id n start (.failed f) none, true)
        | (w, none) => (w.endRun s r id n start (.failed .notConnected) none, true)
  | some (.asking r id n start x) =>
    match w.onConnection id (x.advance w.now) with
    | (w, some none) => (w, false)
    | (w, some (some answer)) =>
      match Session.queryAnswer answer with
      | .ok v => (w.endRun s r id n start .ok (some v), true)
      | .error f => (w.endRun s r id n start (.failed f) none, true)
    | (w, none) => (w.endRun s r id n start (.failed .notConnected) none, true)
  | some (.own name start due) =>
    if w.now < due then (w, false)
    else ({ w with background := none, records := w.records ++ [.own name start w.now] }, true)

def advanceEvents (w : World) (s : Scheduler) : Moved :=
  match w.events with
  | some (.own name start due) =>
    if w.now < due then (w, false)
    else ({ w with events := none, records := w.records ++ [.own name start w.now] }, true)
  | some _ => ({ w with events := none }, true)
  | none =>
    match s.events with
    | [] => (w, false)
    | j :: rest =>
      let s := { s with events := rest }
      match j with
      | .rerunAll => ({ w with scheduler := some (s.rerunAll w.now) }, true)
      | .own n =>
        let w := { w with scheduler := some s }
        match w.ownJobs[n]? with
        | none => (w, true)
        | some o => ({ w with events := some (.own o.name w.now (w.now + o.millis)) }, true)
      | .run _ => ({ w with scheduler := some s }, true)

def advanceDelays (w : World) (s : Scheduler) : Moved :=
  if s.armed.any (·.due ≤ w.now) then ({ w with scheduler := some (s.expire w.now) }, true)
  else (w, false)

def onScheduler (f : World → Scheduler → Moved) (w : World) : Moved :=
  match w.scheduler with
  | none => (w, false)
  | some s => f w s

def registryFeed (w : World) (gone : Bool) : Feed :=
  { capacity := 64, sent := w.registry.announced.length, closed := gone }

def registryGone (w : World) : Bool :=
  w.registryDropped && w.scheduler.isNone && w.reapers.all Reaper.finished
    && w.work.all fun e => match e.2 with
      | .call _ _ => false
      | _ => true

def feedOf (w : World) : Source → Feed
  | .registry => w.registryFeed w.registryGone
  | .channel n => (w.feeds[n]?).getD { capacity := 1, closed := true }

def advanceFollowers (w : World) : Moved :=
  (List.range w.following.length).foldl (fun (x : Moved) i =>
    let w := x.1
    match w.following[i]?, w.scheduler with
    | some f, some s =>
      if f.finished then x
      else
        match f.follower.hear? (w.feedOf f.source) with
        | none => x
        | some (news, follower) =>
          let f := { f with follower := follower, finished := news == .closed }
          ({ w with following := w.following.set i f, scheduler := some (s.heed news) }, true)
    | _, _ => x) (w, false)

def advanceServers (w : World) : Moved :=
  (List.range w.servers.length).foldl (fun (x : Moved) i =>
    let w := x.1
    match w.servers[i]?, w.registry.session? (i + 1) with
    | some sv, some s =>
      let c := s.connection.channel
      if sv.isBusy c w.now then
        let (h, c, sv) := sv.advance w.registry.host c w.now
        let set (s : Session) : Session :=
          { s with connection := { s.connection with channel := c } }
        ({ w with servers := w.servers.set i sv
                  registry := { w.registry.modify (i + 1) set with host := h } }, true)
      else x
    | _, _ => x) (w, false)

def advanceReaders (w : World) : Moved :=
  w.registry.sessions.foldl (fun (x : Moved) s =>
    let c := s.connection
    if c.closed || (c.channel.incoming.isEmpty && !c.channel.ended)
        || x.1.registry.released.contains s.id then x
    else
      let d := c.read
      if !d.closed && d.channel.incoming.length == c.channel.incoming.length then x
      else
        let set (s : Session) : Session := { s with connection := d.replyAll }
        ({ x.1 with registry := x.1.registry.modify s.id set }, true)) (w, false)

def heldBy : Option Current → List SessionId
  | some (.seeking _ _ c) => c.holds
  | some (.working _ id _ _ _ _) => [id]
  | some (.asking _ id _ _ _) => [id]
  | _ => []

def heldByWork : Work → List SessionId
  | .await id _ _ _ => [id]
  | .exchange id _ _ => [id]
  | .handshake id _ => [id]
  | .cleanup id _ => [id]
  | .call c _ => c.holds
  | _ => []

def held (w : World) : List SessionId :=
  w.registry.tables.held ++ w.labels.map (·.2) ++ w.registry.retired
    ++ w.work.flatMap (fun e => heldByWork e.2) ++ heldBy w.background

def releaseSessions (w : World) : Moved :=
  let w := if w.registryGone then w.setRegistry { w.registry with tables := {} } else w
  let held := w.held
  let gone := (w.registry.sessions.map Session.id).filter fun id =>
    !held.contains id && !w.registry.released.contains id
  if gone.isEmpty then (w, false)
  else
    (w.setRegistry (gone.foldl Registry.release w.registry), true)

def round (w : World) : Moved :=
  let works := w.work.map fun (t, _) => fun (w : World) =>
    match w.work.lookup t with
    | none => (w, false)
    | some work =>
      let (w, m) := w.advanceWork t work
      (w.staff, m)
  chain (works ++ [onScheduler advanceDelays, onScheduler advanceEvents,
    onScheduler advanceBackground, fun w => (w.staff, false), advanceFollowers, disposeRetired,
    advanceServers, advanceReaders, releaseSessions]) w

def settle : Nat → World → World
  | 0, w => w
  | fuel + 1, w =>
    match w.round with
    | (w, true) => settle fuel w
    | (w, false) => w

def maxRounds : Nat := 100000

def dueOf : Work → Option Nat
  | .pause due => some due
  | .await _ _ _ due => some due
  | .exchange _ x _ => some x.due
  | .handshake _ hs => some hs.due
  | .cleanup _ c => some c.due
  | .watch _ _ _ due => some due
  | .call c _ => c.due?
  | .join _ => none
  | .reap _ _ _ tick none => some tick
  | .reap _ _ _ _ (some c) => c.due?

def dueOfCurrent : Current → Option Nat
  | .seeking _ _ c => c.due?
  | .working _ _ _ _ due _ => some due
  | .asking _ _ _ _ x => some x.due
  | .own _ _ due => some due

def due? (w : World) : Option Nat :=
  (w.work.filterMap (fun e => dueOf e.2) ++ (w.background.bind dueOfCurrent).toList
    ++ (w.events.bind dueOfCurrent).toList ++ (w.scheduler.bind Scheduler.due?).toList
    ++ (w.servers.zip w.registry.sessions).filterMap fun (e, s) =>
      e.due? s.connection.channel).min?

def patience : Nat := 1200000

def expectInterruption (w : World) : World :=
  match w.interruption with
  | some i =>
    if i.due.isNone && w.registry.host.pathExists i.file then
      { w with interruption := some { i with due := some (w.now + i.delay) } }
    else w
  | none => w

def isInterruptedBefore (w : World) (time : Nat) : Bool :=
  w.interruption.any fun i => i.due.any (· < time)

/-- Lets time pass until the work of a ticket has a result, with at most so many jumps of the
clock; none comes after the user's interruption. -/
def awaitResult (t deadline : Nat) : Nat → World → World × Option Result
  | 0, w => (w, none)
  | fuel + 1, w =>
    let w := (w.settle maxRounds).expectInterruption
    match w.results.lookup t with
    | some r => ({ w with results := w.results.filter (·.1 != t) }, some r)
    | none =>
      match w.due? with
      | none => (w, none)
      | some due =>
        if due ≤ w.now || deadline < due || w.isInterruptedBefore due then (w, none)
        else awaitResult t deadline fuel { w with now := due }

end LanguageSessions.Simulation.World
