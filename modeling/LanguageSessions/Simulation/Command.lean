import LanguageSessions.Simulation.Run

namespace LanguageSessions.Simulation

inductive ServerAct where
  | send (bodies : List Json)
  | raw (bytes : List UInt8)
  | hangUp
  | die
  | revive
  | awaitExit (millis poll : Nat)
  | display

inductive SessionAct where
  | sendRequest (slot method : String) (params : Option Json)
  | await (slot : String) (millis : Nat)
  | call (method : String) (params : Option Json) (millis : Nat) (w : Wanted)
  | cancelRequest (id : Nat)
  | notifyConnection (method : String) (params : Option Json)
  | closeConnection
  | dropConnection
  | connection
  | diagnostics (uri : String)
  | countDiagnostics (uris : List String)
  | log
  | enableLog (on : Bool)
  | initiate
  | info
  | display
  | capabilities
  | output (directory : String)
  | request (method : String) (params : Option Json) (w : Wanted)
  | query (method : String) (params : Option Json)
  | notify (method : String) (params : Option Json)
  | openFile (file : String)
  | closeFile (file : String)
  | isOpen (file : String)
  | opened
  | shutdown
  | shutdownAndKill
  | kill
  | dispose
  | drop

inductive SchedulerAct where
  | start
  | schedule (file name : String) (runs : List ScriptedRun)
  | reschedule (file name : String)
  | cancel (file name : String)
  | cancelAll (file : String)
  | runAllNow (file : String)
  | tasks (file : String)
  | files
  | follow
  | unfollow
  | followerFinished
  | followChannel (capacity : Nat)
  | publish (label : String) (count : Nat)
  | closeChannel
  | background (name : String) (millis : Nat)
  | event (name : String) (millis : Nat)

inductive Command where
  | sleep (millis : Nat)
  | server (n : Nat) (a : ServerAct)
  | changeHost (f : Host → Host)
  | onSession (label : String) (a : SessionAct)
  | resolve (owner : Option String) (file : String) (label : Option String)
  | resolveFile (file : String) (label : Option String)
  | getOrCreate (owner : Option String) (file contentType : String) (label : Option String)
  | attach (root : String) (d : ServerDescription) (extensions : List String)
      (label : Option String)
  | list
  | evict (window : Nat)
  | restart (root contentType : String)
  | killAll
  | shutdownAll
  | refuse (on : Bool)
  | asked
  | opened
  | startReaper (interval window : Option Nat)
  | stopReaper
  | reaperFinished
  | sweep
  | dropRegistry
  | onScheduler (a : SchedulerAct)
  | join (name : String)

inductive Started where
  | done (r : Result)
  | under (ticket : Nat)

namespace World

def beginWork (w : World) (work : Work) : World × Started :=
  let (w, t) := w.begin work
  (w, .under t)

def beginOn (w : World) (id : SessionId) (f : Session → Session × Advance σ α) (again : σ → Work)
    (result : World → Option α → Result) : World × Started :=
  match w.change id f with
  | (w, some (.on s)) => w.beginWork (again s)
  | (w, some (.done a)) => (w, .done (result w (some a)))
  | (w, _) => (w, .done (result w none))

def beginExchange (w : World) (id : SessionId)
    (f : Session → Session × Except Fault Exchange) (p : Purpose) : World × Started :=
  match w.change id f with
  | (w, some (.ok x)) => w.beginWork (.exchange id x p)
  | (w, some (.error f)) => (w, .done (.fault f))
  | (w, none) => (w, .done (.word "no such session"))

def simple (w : World) (id : SessionId) (f : Session → Session × Result) : World × Started :=
  match w.change id f with
  | (w, some r) => (w, .done r)
  | (w, none) => (w, .done (.word "no such session"))

def look (w : World) (id : SessionId) (f : Session → Result) : World × Started :=
  w.simple id fun s => (s, f s)

def actOnSession (w : World) (label : String) (id : SessionId) : SessionAct → World × Started
  | .sendRequest slot method params =>
    match w.onConnection id (·.sendRequest method params) with
    | (w, some (.ok request)) =>
      ({ w with slots := w.slots.filter (·.1 != slot) ++ [(slot, request)] },
        .done (.request request method))
    | (w, some (.error f)) => (w, .done (.fault f))
    | (w, none) => (w, .done (.word "no such session"))
  | .await slot millis =>
    match w.slots.lookup slot with
    | none => (w, .done (.word "no such slot"))
    | some request => w.beginWork (.await id slot request (w.now + millis))
  | .call method params millis wanted =>
    w.beginExchange id
      (·.onConnection fun c => Exchange.start c method params millis w.now) (.call wanted)
  | .cancelRequest request =>
    w.simple id fun s => (s.onConnection fun c => (c.cancelRequest request, Result.ok))
  | .notifyConnection method params | .notify method params =>
    w.simple id fun s => let (s, r) := s.notify method params; (s, .ofUnit r)
  | .closeConnection => w.simple id (·.onConnection fun c => (c.close, Result.ok))
  | .dropConnection =>
    ({ w with
        labels := w.labels.filter (·.1 != label)
        registry := { w.registry with released := w.registry.released ++ [id] } },
      .done (.flag true))
  | .connection => w.look id fun s => .connection s.connection
  | .diagnostics uri => w.look id fun s => .diagnostics (s.connection.diagnostics.get uri)
  | .countDiagnostics uris =>
    w.look id fun s => .count (uris.countP fun u => !(s.connection.diagnostics.get u).isEmpty)
  | .log => w.look id fun s => .log s.connection.log.lines
  | .enableLog on =>
    w.simple id (·.onConnection fun c => ({ c with log := c.log.enable on }, Result.ok))
  | .initiate =>
    match w.change id (Handshake.start w.registry.host w.registry.processId w.now) with
    | (w, some (.ok hs)) => w.beginWork (.handshake id hs)
    | (w, some (.error f)) => (w, .done (.fault f))
    | (w, none) => (w, .done (.word "no such session"))
  | .info => w.look id .info
  | .display => w.look id fun s => .text s.display
  | .capabilities => w.look id fun s => .capabilities s.capabilities
  | .output directory => w.look id fun s => .output s directory
  | .request method params wanted =>
    w.beginExchange id (·.request method params w.now) (.call wanted)
  | .query method params => w.beginExchange id (·.request method params w.now) .query
  | .openFile file => w.simple id fun s => let (s, b) := s.openFile file; (s, .flag b)
  | .closeFile file => w.simple id fun s => let (s, b) := s.closeFile file; (s, .flag b)
  | .isOpen file => w.look id fun s => .flag (s.isOpen file)
  | .opened => w.look id fun s => .names (s.opened.mergeSort fun a b => !(b < a))
  | .shutdown => w.simple id fun s => let s := s.shutdown; (s, .state s.state)
  | .kill => w.simple id fun s => let s := s.kill; (s, .state s.state)
  | .shutdownAndKill =>
    w.beginOn id (·.shutdownAndKill w.now) (.cleanup id) fun w _ => .state (w.stateOf id)
  | .dispose => w.beginOn id (·.dispose w.now) (.cleanup id) fun w _ => .state (w.stateOf id)
  | .drop => ({ w with labels := w.labels.filter (·.1 != label) }, .done (.flag true))

def actOnServer (w : World) (n : Nat) (a : ServerAct) : World × Started :=
  match w.servers[n]?, w.registry.sessions[n]? with
  | some sv, some s =>
    let c := s.connection.channel
    let put (x : Channel × FarEnd) : World :=
      let set (s : Session) : Session := { s with connection := { s.connection with channel := x.1 } }
      { w with servers := w.servers.set n x.2, registry := w.registry.modify s.id set }
    match a with
    | .send bodies => (put (bodies.foldl ScriptedServer.send c, sv), .done .ok)
    | .raw bytes => (put (c.deliver bytes, sv), .done .ok)
    | .hangUp => (put (c.hangUp, sv), .done .ok)
    | .die => (put (sv.die c), .done .ok)
    | .revive => (put (sv.revive c), .done .ok)
    | .awaitExit millis poll => w.beginWork (.watch n (w.now + millis) poll w.now)
    | .display => (w, .done (.text (sv.process c).display))
  | _, _ => (w, .done (.word "no such server"))

def putScheduler (w : World) (s : Scheduler) (r : Result) : World × Started :=
  ({ w with scheduler := some s }, .done r)

def addFollower (w : World) (s : Source) : World × Started :=
  let f : Following := { source := s, follower := .ofFeed (w.feedOf s) }
  ({ w with following := w.following ++ [f] }, .done .ok)

def ownJob (w : World) (name : String) (millis : Nat) : World × Job :=
  ({ w with ownJobs := w.ownJobs ++ [⟨name, millis⟩] }, .own w.ownJobs.length)

def openChannel? (w : World) : Option Nat :=
  if (w.feeds.getLast?).any (!·.closed) then some (w.feeds.length - 1) else none

def isFollowed (w : World) (n : Nat) : Bool :=
  w.following.any fun f => f.source == .channel n && !f.finished

def actOnScheduler (w : World) (s : Scheduler) : SchedulerAct → World × Started
  | .start => (w, .done (.count s.debounce))
  | .schedule file name runs =>
    let task : Task := ⟨name, w.objects.length⟩
    let w := { w with objects := w.objects ++ [({ runs := runs } : TaskObject)] }
    w.putScheduler (s.schedule file task w.now) .ok
  | .reschedule file name =>
    let (s, b) := s.reschedule file name w.now
    w.putScheduler s (.flag b)
  | .cancel file name =>
    let (s, b) := s.cancel file name
    w.putScheduler s (.flag b)
  | .cancelAll file =>
    let (s, n) := s.cancelAll file
    w.putScheduler s (.count n)
  | .runAllNow file => w.putScheduler (s.runAllNow file w.now) .ok
  | .tasks file => (w, .done (.names (s.taskNames file)))
  | .files => (w, .done (.names (s.fileNames.mergeSort fun a b => !(b < a))))
  | .follow => w.addFollower .registry
  | .unfollow =>
    let last := w.following.length - 1
    ({ w with following := w.following.modify last fun f => { f with finished := true } },
      .done .ok)
  | .followerFinished =>
    (w, .done ((w.following.getLast?).elim .nothing fun f => .flag f.finished))
  | .followChannel capacity =>
    { w with feeds := w.feeds ++ [Feed.ofCapacity capacity] }.addFollower
      (.channel w.feeds.length)
  | .publish label count =>
    match w.openChannel?, w.labels.lookup label with
    | some n, some _ =>
      if w.isFollowed n then
        ({ w with feeds := w.feeds.modify n (·.publish count) }, .done (.count count))
      else (w, .done (.count 0))
    | _, _ => (w, .done (.word "nothing to publish"))
  | .closeChannel =>
    match w.openChannel? with
    | none => (w, .done (.flag false))
    | some n => ({ w with feeds := w.feeds.modify n fun f => { f with closed := true } },
        .done (.flag true))
  | .background name millis =>
    let (w, j) := w.ownJob name millis
    w.putScheduler (s.post j) .ok
  | .event name millis =>
    let (w, j) := w.ownJob name millis
    w.putScheduler (s.postEvent j) .ok

def beginCall (w : World) (c : Call) (label : Option String) : World × Started :=
  w.beginWork (.call c label)

def startReaper (w : World) (interval window : Option Nat) : World × Started :=
  let timing := w.registry.timing
  let interval := interval.getD timing.reapInterval
  let w : World :=
    if interval == 0 then w
    else
      (w.begin (.reap w.reapers.length interval (window.getD timing.keepAlive)
        (w.now + interval) none)).1
  ({ w with reapers := w.reapers ++ [{ finished := interval == 0 }] }, .done .ok)

def start (w : World) : Command → World × Started
  | .sleep millis => w.beginWork (.pause (w.now + millis))
  | .server n a => w.actOnServer n a
  | .changeHost f => (w.setRegistry { w.registry with host := f w.registry.host }, .done .ok)
  | .onSession label a =>
    match w.labels.lookup label with
    | none => (w, .done (.word "no such session"))
    | some id => w.actOnSession label id a
  | .resolve owner file label => w.beginCall (.resolve owner file) label
  | .resolveFile file label => w.beginCall (.resolveFile w.registry file) label
  | .getOrCreate owner file contentType label =>
    w.beginCall (.getOrCreate w.registry owner file contentType) label
  | .attach root d extensions label =>
    match Call.attach w.registry root d extensions with
    | .ok c => w.beginCall c label
    | .error f => (w, .done (.sessionFault f))
  | .list => w.beginCall (.waiting .list false) none
  | .evict window => w.beginCall (.waiting (.evict window) false) none
  | .restart root contentType =>
    w.beginCall (.waiting (.restart (.ofRoot w.registry.host root contentType)) false) none
  | .killAll => w.beginCall (.waiting .killAll false) none
  | .shutdownAll => w.beginCall (.waiting .shutdownAll false) none
  | .refuse on => (w.refuse on, .done .ok)
  | .asked =>
    ({ w with questionsSeen := w.registry.questions.length },
      .done (.questions (w.registry.questions.drop w.questionsSeen)))
  | .opened => (w, .done (.targets (w.registry.launches.map fun l => (l.1.name, l.2))))
  | .startReaper interval window => w.startReaper interval window
  | .stopReaper =>
    if w.reapers.isEmpty then (w, .done (.word "no reaper"))
    else
      ({ w with reapers := w.reapers.modify (w.reapers.length - 1) fun r =>
          { r with stopped := true } }, .done .ok)
  | .reaperFinished =>
    (w, .done ((w.reapers.getLast?).elim .nothing fun r => .flag r.finished))
  | .sweep => w.beginCall (.waiting (.evict w.registry.timing.keepAlive) false) none
  | .dropRegistry => ({ w with registryDropped := true }, .done .ok)
  | .onScheduler .start =>
    let s : Scheduler := { debounce := w.registry.timing.debounce }
    w.putScheduler s (.count s.debounce)
  | .onScheduler .followerFinished =>
    (w, .done ((w.following.getLast?).elim .nothing fun f => .flag f.finished))
  | .onScheduler a =>
    match w.scheduler with
    | none => (w, .done (.word "no scheduler"))
    | some s => w.actOnScheduler s a
  | .join name => w.beginWork (.join name)

def command (w : World) (c : Command) : World × Option Result :=
  let (w, s) := w.start c
  let w := w.staff
  match s with
  | .done r => (w.settle maxRounds, some r)
  | .under t => w.awaitResult t (w.now + patience) (patience + 1)

def commandInBackground (w : World) (name : String) (c : Command) : World × Option Result :=
  let (w, s) := w.start c
  let w := w.staff
  let (w, t) : World × Nat := match s with
    | .under t => (w, t)
    | .done r =>
      let (w, t) := w.ticket
      ({ w with results := w.results ++ [(t, r)] }, t)
  let w := { w with jobs := (w.jobs.filter fun (j : String × Nat) => j.1 != name) ++ [(name, t)] }
  (w.settle maxRounds, some (.word "started"))

structure Observation where
  received : List (List Json)
  processes : List Process
  announced : List SessionId
  records : List Record

def observe (w : World) : World × Observation :=
  let processes := (w.servers.zip w.registry.sessions).map fun (sv, s) =>
    sv.process s.connection.channel
  ({ w with
      servers := w.servers.map FarEnd.forgetReceived
      announcementsSeen := w.registry.announced.length
      records := [] },
    ⟨w.servers.map FarEnd.received, processes,
      w.registry.announced.drop w.announcementsSeen, w.records.mergeSort Record.le⟩)

def adopt (w : World) (key : SessionKey) (root server label : String) : World :=
  let d : ServerDescription := ⟨server, .command server [] []⟩
  match w.registry.connectTo key root d with
  | (r, .ok id) => { w.setRegistry r with labels := w.labels ++ [(label, id)] }.staff
  | (r, .error _) => w.setRegistry r

def ofRegistry (r : Registry) (supply : Supply) : World :=
  ({ registry := r, supply := supply } : World).refuse false

end World

end LanguageSessions.Simulation
