import LanguageSessions.Registry.Basic

/-!
Calls on a registry. A call first waits for its turn, so that one key never gets two servers; the
call that makes a session keeps its turn until the handshake has ended. A call is advanced as its
session allows, and tells its result when it is done.
-/
namespace LanguageSessions

inductive Wish where
  | resolve (owner : Option String) (file : String)
  | create (t : Target)
  | attach (key : SessionKey) (root : String) (d : ServerDescription) (extensions : List String)
  | list
  | evict (window : Nat)
  | restart (key : SessionKey)
  | killAll
  | shutdownAll

inductive Reply where
  | session (r : Except SessionFault SessionId)
  | resolved (id : Option SessionId)
  | sessions (ids : List SessionId)
  | count (n : Nat)
  | restarted (found : Bool)
  | done

inductive Berth where
  | keyed (key : SessionKey)
  | attached (root : String) (extensions : List String)

/-- A call under way; `lenient` calls tell only whether there is a session. -/
inductive Call where
  | waiting (w : Wish) (lenient : Bool)
  | opening (id : SessionId) (hs : Handshake) (b : Berth) (lenient : Bool)
  | stopping (id : SessionId) (c : Cleanup)
  | clearing (ids : List SessionId) (rest : List (SessionId × Cleanup))

namespace Call

def due? : Call → Option Nat
  | waiting _ _ => none
  | opening _ hs _ _ => some hs.due
  | stopping _ c => some c.due
  | clearing _ rest => (rest.map (·.2.due)).min?

def holds : Call → List SessionId
  | waiting _ _ => []
  | opening id _ _ _ => [id]
  | stopping id _ => [id]
  | clearing ids _ => ids

def resolve (owner : Option String) (file : String) : Call := .waiting (.resolve owner file) true

def resolveFile (r : Registry) (file : String) : Call :=
  resolve (r.locator.findRoot? r.host file) file

def getOrCreate (r : Registry) (owner : Option String) (file contentType : String) : Call :=
  .waiting (.create (Target.ofFile r.host owner file contentType)) false

def ensureRunning (r : Registry) (project contentType : String) : Call :=
  getOrCreate r (some project) project contentType

def attach (r : Registry) (root : String) (d : ServerDescription) (extensions : List String) :
    Except SessionFault Call :=
  let root := r.host.canonical root
  let extensions := (extensions.map normalExtension).filter (· != "")
  if extensions.isEmpty then .error (.noExtensions root)
  else
    let key := SessionKey.ofRoot r.host root ("attached:" ++ String.intercalate "," extensions)
    .ok (.waiting (.attach key root d extensions) false)

def reply (lenient : Bool) (r : Except SessionFault SessionId) : Reply :=
  if lenient then .resolved r.toOption else .session r

def settle (b : Berth) (lenient : Bool) (now : Nat) (r : Registry)
    (o : Except SessionFault SessionId) : Registry × Advance Call Reply :=
  let r := match o, b with
    | .ok id, .keyed key => (r.enter key id now).announce id
    | .ok id, .attached root extensions => (r.attach root extensions id).announce id
    | .error _, _ => r
  ({ r with turns := r.turns.leave }, .done (reply lenient o))

def launch (r : Registry) (key : SessionKey) (root : String) (d : ServerDescription) (b : Berth)
    (lenient : Bool) (now : Nat) : Registry × Advance Call Reply :=
  match r.launch key root d now with
  | (r, .error f) => settle b lenient now r (.error (.connection f))
  | (r, .ok (id, hs)) => (r, .on (.opening id hs b lenient))

def create (r : Registry) (t : Target) (lenient : Bool) (now : Nat) :
    Registry × Advance Call Reply :=
  match r.live? t.key with
  | (r, some id) =>
    ({ r with tables := r.tables.touch id now, turns := r.turns.leave },
      .done (reply lenient (.ok id)))
  | (r, none) =>
    match r.describe t with
    | (r, none) => settle (.keyed t.key) lenient now r (.error (.noProvider t.contentType))
    | (r, some d) => launch r t.key t.root d (.keyed t.key) lenient now

def disposeAll (r : Registry) (now : Nat) : List SessionId → Registry × List (SessionId × Cleanup)
  | [] => (r, [])
  | id :: ids =>
    match r.change id (·.dispose now) with
    | (r, some (.on c)) =>
      let (r, rest) := disposeAll r now ids
      (r, (id, c) :: rest)
    | (r, _) => disposeAll r now ids

def awaitAll (r : Registry) (now : Nat) :
    List (SessionId × Cleanup) → Registry × List (SessionId × Cleanup) × Bool
  | [] => (r, [], false)
  | (id, c) :: more =>
    let (r, a) := r.change id (c.advance now)
    let (r, rest, moved) := awaitAll r now more
    match a with
    | some (.on c) => (r, (id, c) :: rest, true)
    | some .idle => (r, (id, c) :: rest, moved)
    | _ => (r, rest, true)

def clear (r : Registry) (ids : List SessionId) (rest : List (SessionId × Cleanup)) :
    Registry × Advance Call Reply :=
  if rest.isEmpty then (ids.foldl (fun r id => r.modify id Session.kill) r, .done .done)
  else (r, .on (.clearing ids rest))

def perform (r : Registry) (w : Wish) (lenient : Bool) (now : Nat) :
    Registry × Advance Call Reply :=
  let leave (r : Registry) : Registry := { r with turns := r.turns.leave }
  match w with
  | .resolve owner file =>
    match r.attachedFor? file with
    | (r, some id) => (leave r, .done (.resolved (some id)))
    | (r, none) =>
      match r.contentTypes.forFile? file with
      | none => (leave r, .done (.resolved none))
      | some type =>
        (leave r, .on (.waiting (.create (Target.ofFile r.host owner file type)) lenient))
  | .create t => create r t lenient now
  | .attach key root d extensions => launch r key root d (.attached root extensions) lenient now
  | .list => (leave r, .done (.sessions r.aliveSessions))
  | .evict window =>
    let (r, n) := r.evict window now
    (leave r, .done (.count n))
  | .restart key =>
    match r.remove key with
    | (r, none) => (leave r, .done (.restarted false))
    | (r, some id) =>
      match (leave r).change id (·.shutdownAndKill now) with
      | (r, some (.on c)) => (r, .on (.stopping id c))
      | (r, _) => (r, .done (.restarted true))
  | .killAll =>
    let (r, ids) := r.takeAll
    (ids.foldl (fun r id => r.modify id Session.kill) (leave r), .done .done)
  | .shutdownAll =>
    let (r, ids) := r.takeAll
    let (r, rest) := disposeAll (leave r) now ids
    clear r ids rest

def advance (ticket now : Nat) (c : Call) (r : Registry) : Registry × Advance Call Reply :=
  match c with
  | .waiting w lenient =>
    match r.turns.enter ticket with
    | (turns, true) => perform { r with turns := turns } w lenient now
    | (turns, false) => ({ r with turns := turns }, .idle)
  | .opening id hs b lenient =>
    match r.change id (hs.advance now) with
    | (r, some (.done o)) =>
      let (r, o) := r.launched id o
      settle b lenient now r o
    | (r, some (.on hs)) => (r, .on (.opening id hs b lenient))
    | (r, _) => (r, .idle)
  | .stopping id c =>
    match r.change id (c.advance now) with
    | (r, some (.on c)) => (r, .on (.stopping id c))
    | (r, some .idle) => (r, .idle)
    | (r, _) => (r, .done (.restarted true))
  | .clearing ids rest =>
    let (r, rest, moved) := awaitAll r now rest
    if moved then clear r ids rest else (r, .idle)

end Call

end LanguageSessions
