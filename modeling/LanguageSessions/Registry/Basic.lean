import LanguageSessions.Provider
import LanguageSessions.Registry.Tables
import LanguageSessions.Registry.Turns
import LanguageSessions.Session.Cleanup
import LanguageSessions.Session.Handshake

/-!
The registry of sessions: one for each root and content type, made when a file first needs it, and
those attached by hand. The operations here are the parts of a call that nothing interrupts; the
calls themselves, which may wait, are put together from them in `Registry.Call`.
-/
namespace LanguageSessions

structure Question where
  provider : String
  contentType : String
  project : Option String
  root : String
  deriving DecidableEq, Repr

structure Target where
  key : SessionKey
  root : String
  project : Option String
  contentType : String
  deriving DecidableEq, Repr

namespace Target

def ofFile (h : Host) (owner : Option String) (file contentType : String) : Target :=
  let root := h.canonical (owner.getD (parentDirectory file))
  ⟨SessionKey.ofRoot h root contentType, root, owner.map h.canonical, contentType⟩

end Target

structure Registry where
  host : Host
  timing : Timing
  providers : List Provider
  contentTypes : ContentTypes
  locator : ProjectLocator
  connect : Host → Nat → ServerDescription → String → Except Fault Channel
  processId : Nat
  tables : Tables := {}
  turns : Turns := {}
  sessions : List Session := []
  launches : List (ServerDescription × String) := []
  retired : List SessionId := []
  released : List SessionId := []
  announced : List SessionId := []
  questions : List Question := []

namespace Registry

def session? (r : Registry) (id : SessionId) : Option Session := r.sessions.find? (·.id == id)

def isUsable (r : Registry) (id : SessionId) : Bool := (r.session? id).any Session.isUsable

def modify (r : Registry) (id : SessionId) (f : Session → Session) : Registry :=
  { r with sessions := r.sessions.map fun s => if s.id == id then f s else s }

def change (r : Registry) (id : SessionId) (f : Session → Session × α) : Registry × Option α :=
  match r.session? id with
  | none => (r, none)
  | some s =>
    let (s, a) := f s
    (r.modify id fun _ => s, some a)

def retire (r : Registry) (ids : List SessionId) : Registry :=
  { r with retired := r.retired ++ ids }

def upgrade? (r : Registry) (id : SessionId) : Option SessionId :=
  if r.released.contains id then none else some id

def release (r : Registry) (id : SessionId) : Registry :=
  { r.modify id Session.release with released := r.released ++ [id] }

/-- The usable session of a key; one that is not usable leaves the tables, and so does a key that
leads to nothing any more. -/
def live? (r : Registry) (key : SessionKey) : Registry × Option SessionId :=
  match r.tables.find? key with
  | none => (r, none)
  | some id =>
    match r.upgrade? id with
    | none => ({ r with tables := r.tables.dropKey key }, none)
    | some id =>
      if r.isUsable id then (r, some id)
      else ({ r with tables := (r.tables.dropKey key).dropUse id }.retire [id], none)

/-- The usable session attached for a file. The first attached root with the file below it counts,
whether or not it has a session for the file's extension; a session that is not usable leaves it. -/
def attachedFor? (r : Registry) (file : String) : Registry × Option SessionId :=
  match r.tables.rootOf? r.host file with
  | none => (r, none)
  | some a =>
    match (fileExtension? file).bind fun ext => a.byExtension.lookup ext with
    | none => (r, none)
    | some id =>
      if r.isUsable id then (r, some id)
      else ({ r with tables := r.tables.detach a.root id }.retire [id], none)

def describe (r : Registry) (t : Target) : Registry × Option ServerDescription :=
  let asked := (Provider.asked r.host t.contentType r.providers).map fun name =>
    Question.mk name t.contentType t.project t.root
  let (providers, d) := Provider.describeFirst r.host t.contentType r.providers
  ({ r with providers := providers, questions := r.questions ++ asked }, d)

def connectTo (r : Registry) (key : SessionKey) (root : String) (d : ServerDescription) :
    Registry × Except Fault SessionId :=
  match r.connect r.host r.sessions.length d root with
  | .error f => (r, .error f)
  | .ok channel =>
    let id := r.sessions.length + 1
    let s := Session.start r.host id key root d.name channel r.timing
    ({ r with sessions := r.sessions ++ [s], launches := r.launches ++ [(d, root)] }, .ok id)

def launch (r : Registry) (key : SessionKey) (root : String) (d : ServerDescription) (now : Nat) :
    Registry × Except Fault (SessionId × Handshake) :=
  match r.connectTo key root d with
  | (r, .error f) => (r, .error f)
  | (r, .ok id) =>
    match r.change id (Handshake.start r.host r.processId now) with
    | (r, some (.ok hs)) => (r, .ok (id, hs))
    | (r, some (.error f)) => (r.modify id Session.abandon, .error f)
    | (r, none) => (r, .error .notConnected)

def launched (r : Registry) (id : SessionId) (o : Except Fault HandshakeOutcome) :
    Registry × Except SessionFault SessionId :=
  match o with
  | .error f => (r.modify id Session.abandon, .error (.connection f))
  | .ok o =>
    if o.exited then
      (r.modify id Session.abandon,
        .error (.processExited (((r.session? id).map Session.server).getD "")))
    else (r, .ok id)

def enter (r : Registry) (key : SessionKey) (id : SessionId) (now : Nat) : Registry :=
  { r with tables := r.tables.insert key id now }

def attach (r : Registry) (root : String) (extensions : List String) (id : SessionId) : Registry :=
  let replaced := (r.tables.attachedTo root).mergeSort (· ≤ ·)
  { r with tables := r.tables.attach root extensions id }.retire replaced

def announce (r : Registry) (id : SessionId) : Registry :=
  { r with announced := r.announced ++ [id] }

def forget (r : Registry) (id : SessionId) : Registry :=
  { r with tables := match r.session? id with
      | some s => r.tables.forget r.upgrade? s.key id
      | none => r.tables.dropUse id }

def evict (r : Registry) (window now : Nat) : Registry × Nat :=
  let ids := r.tables.expired window now
  ((ids.foldl forget r).retire ids, ids.length)

def remove (r : Registry) (key : SessionKey) : Registry × Option SessionId :=
  let t := r.tables.dropKey key
  match (r.tables.find? key).bind r.upgrade? with
  | none => ({ r with tables := t }, none)
  | some id => ({ r with tables := t.dropUse id }, some id)

def registered (r : Registry) : List SessionId :=
  (r.tables.lastUse.map (·.1) ++ (r.tables.byKey.map (·.2)).filterMap r.upgrade?
    ++ r.tables.attachedSessions).eraseDups.mergeSort (· ≤ ·)

def takeAll (r : Registry) : Registry × List SessionId := ({ r with tables := {} }, r.registered)

def aliveSessions (r : Registry) : List SessionId :=
  r.registered.filter fun id => (r.session? id).any Session.isAlive

end Registry

end LanguageSessions
