import LanguageSessions.Json.Record
import LanguageSessions.Connection.Log

namespace LanguageSessions

structure Position where
  line : Nat := 0
  character : Nat := 0
  deriving DecidableEq, Repr

structure TextRange where
  start : Position := {}
  stop : Position := {}
  deriving DecidableEq, Repr

structure Diagnostic where
  range : TextRange := {}
  severity : Option Nat := none
  code : Option Json := none
  source : Option String := none
  message : String

def max32 : Nat := Nat.pow 2 32 - 1

namespace Position

def ofJson? (v : Json) : Option Position :=
  match Json.fields? ["line", "character"] v with
  | some [line, character] =>
    match Json.required (Json.nat? max32) line, Json.required (Json.nat? max32) character with
    | some line, some character => some ⟨line, character⟩
    | _, _ => none
  | _ => none

def toJson (p : Position) : Json := .object [("line", .nat p.line), ("character", .nat p.character)]

end Position

namespace TextRange

def ofJson? (v : Json) : Option TextRange :=
  match Json.fields? ["start", "end"] v with
  | some [start, stop] =>
    match Json.required Position.ofJson? start, Json.required Position.ofJson? stop with
    | some start, some stop => some ⟨start, stop⟩
    | _, _ => none
  | _ => none

def toJson (r : TextRange) : Json := .object [("start", r.start.toJson), ("end", r.stop.toJson)]

end TextRange

namespace Diagnostic

def severity? (v : Json) : Option Nat := (Json.nat? 4 v).filter (1 ≤ ·)

def ofJson? (v : Json) : Option Diagnostic :=
  match Json.fields? ["range", "severity", "code", "source", "message"] v with
  | some [range, severity, code, source, message] =>
    match Json.orElse TextRange.ofJson? {} range, Json.optional severity? severity,
        Json.optional some code, Json.optional Json.string? source,
        Json.required Json.string? message with
    | some range, some severity, some code, some source, some message =>
      some ⟨range, severity, code, source, message⟩
    | _, _, _, _, _ => none
  | _ => none

def toJson (d : Diagnostic) : Json :=
  .object ([("range", d.range.toJson)]
    ++ (d.severity.map fun n => ("severity", Json.nat n)).toList
    ++ (d.code.map fun v => ("code", v)).toList
    ++ (d.source.map fun s => ("source", Json.string s)).toList
    ++ [("message", .string d.message)])

end Diagnostic

structure Publication where
  uri : String
  diagnostics : List Diagnostic

namespace Publication

def ofJson? (v : Json) : Option Publication :=
  match Json.fields? ["uri", "diagnostics"] v with
  | some [uri, diagnostics] =>
    match Json.required Json.string? uri,
        Json.orElse (Json.list? Diagnostic.ofJson?) [] diagnostics with
    | some uri, some diagnostics => some ⟨uri, diagnostics⟩
    | _, _ => none
  | _ => none

end Publication

namespace LogLine

def ofJson? (v : Json) : Option LogLine :=
  match Json.fields? ["type", "message"] v with
  | some [level, message] =>
    match (Json.required (Json.nat? 5) level).bind LogLevel.ofNumber?,
        Json.required Json.string? message with
    | some level, some message => some ⟨level, message⟩
    | _, _ => none
  | _ => none

end LogLine

structure DiagnosticsCache where
  entries : List (String × List Diagnostic) := []
  forgotten : Nat := 0
  /-- The places of the entries that made room. Nothing that the cache is asked for shows it. -/
  victim : Nat → Nat := fun _ => 0

namespace DiagnosticsCache

def capacity : Nat := 200

def ofVictims (victim : Nat → Nat) : DiagnosticsCache := { victim := victim }

def get (c : DiagnosticsCache) (uri : String) : List Diagnostic := (c.entries.lookup uri).getD []

def makeRoom (c : DiagnosticsCache) : DiagnosticsCache :=
  if c.entries.length < capacity then c
  else
    { c with
      entries := c.entries.eraseIdx (c.victim c.forgotten % c.entries.length)
      forgotten := c.forgotten + 1 }

def publish (c : DiagnosticsCache) (p : Publication) : DiagnosticsCache :=
  if c.entries.any (·.1 == p.uri) then
    { c with entries := c.entries.map fun e => if e.1 == p.uri then (p.uri, p.diagnostics) else e }
  else { c.makeRoom with entries := c.makeRoom.entries ++ [(p.uri, p.diagnostics)] }

end DiagnosticsCache

end LanguageSessions
