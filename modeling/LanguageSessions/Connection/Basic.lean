import LanguageSessions.Connection.Channel
import LanguageSessions.Connection.Diagnostics
import LanguageSessions.Wire.Frame
import LanguageSessions.Workspace.Project

/-!
A connection to one server: requests and their answers, notifications both ways, and the server's
own requests, each of which is answered at once. Requests are numbered from one; an answer settles
the pending request it names, and the end of the stream settles all of them.
-/
namespace LanguageSessions

structure Connection where
  name : String
  root : String
  folder : WorkspaceFolder
  channel : Channel
  nextId : Nat := 1
  pending : List Nat := []
  settled : List (Nat × Response) := []
  owed : List Response := []
  closed : Bool := false
  diagnostics : DiagnosticsCache := {}
  log : ServerLog := {}

namespace Connection

def ofChannel (h : Host) (name root : String) (channel : Channel) (logging : Bool) : Connection :=
  { name := name, root := root, folder := WorkspaceFolder.ofRoot h root, channel := channel,
    log := { enabled := logging } }

def write (c : Connection) (m : Message) : Connection × Except Fault Unit :=
  let (channel, r) := c.channel.write m.text
  ({ c with channel := channel }, r)

def sendRequest (c : Connection) (method : String) (params : Option Json) :
    Connection × Except Fault Nat :=
  if c.closed then (c, .error .connectionClosed)
  else
    let id := c.nextId
    let c := { c with nextId := id + 1 }
    match c.write (.request { id := .number id, method := method, params := params }) with
    | (c, .error f) => (c, .error f)
    | (c, .ok ()) => ({ c with pending := c.pending ++ [id] }, .ok id)

def notify (c : Connection) (method : String) (params : Option Json) :
    Connection × Except Fault Unit :=
  c.write (.notification { method := method, params := params })

def cancelRequest (c : Connection) (id : Nat) : Connection :=
  let c := { c with pending := c.pending.filter (· != id) }
  (c.notify "$/cancelRequest" (some (.object [("id", .nat id)]))).1

def close (c : Connection) : Connection := { c with channel := c.channel.finish }

def outcome (r : Response) : Except Fault Json :=
  match r.outcome with
  | .ok v => .ok v
  | .error e => .error (if e.code == connectionClosedCode then .connectionClosed else e.fault)

/-- Looks for the answer to a request: nothing as long as it is pending; a request that is neither
pending nor answered has lost its connection. -/
def take? (c : Connection) (id : Nat) : Connection × Option (Except Fault Json) :=
  match c.settled.lookup id with
  | some r => ({ c with settled := c.settled.filter (·.1 != id) }, some (outcome r))
  | none => if c.pending.contains id then (c, none) else (c, some (.error .connectionClosed))

def named? (c : Connection) (r : Response) : Option Nat :=
  (r.id.bind RequestId.number?).filter c.pending.contains

def settle (c : Connection) (r : Response) : Connection :=
  match c.named? r with
  | none => c
  | some id => { c with pending := c.pending.filter (· != id), settled := c.settled ++ [(id, r)] }

def answer (c : Connection) (r : Request) : Response :=
  match r.method with
  | "workspace/configuration" =>
    let items := ((r.params.bind (·.get? "items")).map Json.elements).getD []
    .success r.id (.array (items.map fun _ => .null))
  | "workspace/workspaceFolders" => .success r.id (.array [c.folder.toJson])
  | "client/registerCapability" => .success r.id .null
  | "client/unregisterCapability" => .success r.id .null
  | "window/workDoneProgress/create" => .success r.id .null
  | "window/showDocument" => .success r.id (.object [("success", .bool false)])
  | "workspace/applyEdit" =>
    .success r.id (.object [("applied", .bool false),
      ("failureReason", .string "Edits are not applied by this client")])
  | method => .failure (some r.id) methodNotFoundCode ("Method not found: " ++ method)

def logged (c : Connection) (params : Json) : Connection :=
  match LogLine.ofJson? params with
  | some line => { c with log := c.log.record line }
  | none => c

def hear (c : Connection) (n : Notification) : Connection :=
  let params := Json.ofOption n.params
  match n.method with
  | "textDocument/publishDiagnostics" =>
    match Publication.ofJson? params with
    | some p => { c with diagnostics := c.diagnostics.publish p }
    | none => c
  | "window/logMessage" => c.logged params
  | "window/showMessage" => c.logged params
  | _ => c

def receive (c : Connection) : Message → Connection
  | .response r => c.settle r
  | .request r => { c with owed := c.owed ++ [c.answer r] }
  | .notification n => c.hear n

/-- Writes one of the owed answers; one that cannot be written is lost. -/
def reply (c : Connection) (i : Nat) : Connection :=
  match c.owed[i]? with
  | none => c
  | some r => (({ c with owed := c.owed.eraseIdx i } : Connection).write (.response r)).1

def replyAll (c : Connection) : Connection :=
  c.owed.foldl (fun c r => (c.write (.response r)).1) { c with owed := [] }

def fail (c : Connection) : Connection :=
  let gone (id : Nat) : Nat × Response :=
    (id, .failure (some (.number id)) connectionClosedCode (c.name ++ " closed the connection"))
  { c with closed := true, pending := [], settled := c.settled ++ c.pending.map gone }

def receiveBody (c : Connection) (body : List UInt8) : Connection :=
  match Frame.decodeBody body with
  | .ok m => c.receive m
  | .error _ => c

def readFrames (ended : Bool) (bs : List UInt8) (c : Connection) : Connection × List UInt8 :=
  match h : Frame.take ended bs with
  | .wanting => (c, bs)
  | .fault _ rest => (c.fail, rest)
  | .frame body rest =>
    have := Frame.take_lt h
    readFrames ended rest (c.receiveBody body)
termination_by bs.length

def read (c : Connection) : Connection :=
  if c.closed then c
  else
    let (d, rest) := readFrames c.channel.ended c.channel.incoming c
    { d with channel := { d.channel with incoming := rest } }

end Connection

end LanguageSessions
