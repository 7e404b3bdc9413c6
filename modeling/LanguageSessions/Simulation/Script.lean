import LanguageSessions.Connection.Basic

/-!
Servers that follow a script, for running everything else without real processes. A script has
rules for the messages that arrive, by method; the n-th message of a method meets its n-th rule, and
later ones the last.
-/
namespace LanguageSessions.Simulation

inductive Answer where
  | usual
  | result (v : Json)
  | error (v : Json)
  | silent
  deriving Inhabited

structure Rule where
  deaf : Bool := false
  after : Option Nat := none
  before : List Json := []
  answer : Answer := .usual
  textId : Bool := false
  die : Bool := false
  hangUp : Bool := false
  deriving Inhabited

structure Script where
  hasProcess : Bool := true
  pid : Option Nat := none
  separate : Bool := false
  deaf : Bool := false
  capabilities : Json := .object [("hoverProvider", .bool true)]
  rules : List (String × List Rule) := []
  deriving Inhabited

namespace Script

def rule (s : Script) (method : String) (n : Nat) : Rule :=
  match s.rules.lookup method with
  | none => {}
  | some rules => (rules[n]? <|> rules.getLast?).getD {}

def usualAnswer (s : Script) (method : String) (params : Option Json) : Json :=
  match method with
  | "initialize" =>
    Json.ofMembers [
      ("capabilities", s.capabilities),
      ("serverInfo", Json.ofMembers [("name", .string "fake-ls"), ("version", .string "0.0.1")])]
  | "shutdown" => .null
  | _ => Json.ofOption params

def channel (s : Script) : Channel :=
  let c : Channel := { process := if s.hasProcess then some { pid := s.pid } else none }
  if s.separate && s.deaf then c.deafen else c

end Script

structure Planned where
  due : Nat
  rule : Rule
  method : String
  id : Option Json
  params : Option Json

structure ScriptedServer where
  script : Script
  heard : List String := []
  planned : List Planned := []
  received : List Json := []
  hidden : Process := {}

namespace ScriptedServer

def send (c : Channel) (body : Json) : Channel := c.deliver (Frame.encode body.compact)

def answerId (r : Rule) (id : Json) : Json :=
  match r.textId, id with
  | true, .integer n => .string (toString n)
  | _, id => id

def answer? (s : ScriptedServer) (r : Rule) (method : String) (id params : Option Json) :
    Option Json :=
  id.bind fun id =>
    let reply (key : String) (v : Json) : Json :=
      Json.ofMembers [("jsonrpc", .string "2.0"), ("id", answerId r id), (key, v)]
    match r.answer with
    | .result v => some (reply "result" v)
    | .error v => some (reply "error" v)
    | .silent => none
    | .usual =>
      if r.die || r.hangUp then none
      else some (reply "result" (s.script.usualAnswer method params))

def die (s : ScriptedServer) (c : Channel) : Channel × ScriptedServer :=
  match c.process with
  | some _ => (c.die, s)
  | none => (c, { s with hidden := { s.hidden with alive := false } })

def revive (s : ScriptedServer) (c : Channel) : Channel × ScriptedServer :=
  match c.process with
  | some _ => (c.revive, s)
  | none => (c, { s with hidden := { s.hidden with alive := true } })

def process (s : ScriptedServer) (c : Channel) : Process := c.process.getD s.hidden

def act (s : ScriptedServer) (c : Channel) (p : Planned) : Channel × ScriptedServer :=
  let c := p.rule.before.foldl send c
  let c := (s.answer? p.rule p.method p.id p.params).elim c (send c)
  let (c, s) := if p.rule.die then s.die c else (c, s)
  (if p.rule.hangUp then c.hangUp else c, s)

def receive (s : ScriptedServer) (c : Channel) (now : Nat) (text : String) :
    Channel × ScriptedServer :=
  let m := (Json.parse? text).getD .null
  let s := { s with received := s.received ++ [m] }
  match (m.get? "method").bind Json.string? with
  | none => (c, s)
  | some method =>
    let r := s.script.rule method (s.heard.count method)
    let s := { s with heard := method :: s.heard }
    let c := if r.deaf && s.script.separate then c.deafen else c
    let p : Planned := ⟨now + r.after.getD 0, r, method, m.get? "id", m.get? "params"⟩
    if r.after.isSome then (c, { s with planned := s.planned ++ [p] }) else s.act c p

def receiveAll (now : Nat) : List String → ScriptedServer → Channel → Channel × ScriptedServer
  | [], s, c => (c, s)
  | text :: rest, s, c =>
    if c.accepting then
      let (c, s) := s.receive { c with outgoing := rest } now text
      receiveAll now rest s c
    else (c, s)

def catchUp (s : ScriptedServer) (c : Channel) (now : Nat) : Channel × ScriptedServer :=
  let (due, later) := s.planned.partition (·.due ≤ now)
  (due.mergeSort fun a b => a.due ≤ b.due).foldl (fun x p => x.2.act x.1 p)
    (c, { s with planned := later })

def isBusy (s : ScriptedServer) (c : Channel) (now : Nat) : Bool :=
  s.planned.any (·.due ≤ now) || (c.accepting && (!c.outgoing.isEmpty || c.finished))

def advance (s : ScriptedServer) (c : Channel) (now : Nat) : Channel × ScriptedServer :=
  let (c, s) := s.catchUp c now
  let (c, s) := receiveAll now c.outgoing s c
  (if c.accepting && c.finished then c.hangUp else c, s)

def due? (s : ScriptedServer) : Option Nat := (s.planned.map Planned.due).min?

end ScriptedServer

end LanguageSessions.Simulation
