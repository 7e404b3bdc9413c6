import LanguageSessions.CommandLine.Report
import LanguageSessions.Simulation.Command

namespace LanguageSessions.CommandLine

open Simulation

abbrev Attempt := OptionT (StateM World)

def perform (c : Command) : Attempt Result := OptionT.mk fun w =>
  let (w, r) := w.command c
  (r, w)

def label : String := "session"

def onSession (a : SessionAct) : Attempt Result := perform (.onSession label a)

def languageId (contentType : String) : String :=
  let subtype := ((contentType.splitOn "/").getLast?).getD contentType
  if subtype.startsWith "x-" then (subtype.drop 2).toString else subtype

def openedDocument (h : Host) (file contentType text : String) : Json :=
  Json.ofMembers [("textDocument", Json.ofMembers [
    ("uri", .string (Uri.ofPath h file)),
    ("languageId", .string (languageId contentType)),
    ("version", .integer 1),
    ("text", .string text)])]

def openDocument (file contentType : String) : Attempt Unit := do
  match ← onSession (.openFile file) with
  | .flag true =>
    let h := (← get).registry.host
    match h.readText file with
    | .ok text =>
      let _ ← onSession
        (.notify "textDocument/didOpen" (some (openedDocument h file contentType text)))
    | .error _ => return
  | _ => return

def hold (file contentType : String) (millis : Nat) : Attempt Nat := do
  openDocument file contentType
  let _ ← perform (.sleep millis)
  match ← onSession (.diagnostics (Uri.ofPath (← get).registry.host file)) with
  | .diagnostics ds => return ds.length
  | _ => return 0

def logLine (time : String) (l : LogLine) : Json :=
  Json.ofMembers [
    ("at", .string time), ("level", .nat l.level.number), ("message", .string l.message)]

def logLines : Attempt (List Json) := do
  match ← onSession .log with
  | .log lines => return lines.map (logLine (← get).registry.host.time)
  | _ => return []

def summary (a : App) (s : Session) : Attempt Json := do
  match ← onSession .info with
  | .info s => return s.toJson a.root
  | _ => return s.toJson a.root

def leave : Attempt Unit := do
  let _ ← onSession .drop
  let _ ← perform .shutdownAll

def probe (a : App) (word : String) (holdMillis : Nat) (withLog : Bool) : Attempt Json := do
  let w ← get
  let file := Path.join a.root word
  if !w.registry.host.isFile file then return failure ("File not found: " ++ word)
  match w.registry.contentTypes.forFile? file with
  | none => return failure ("No content type configured for " ++ word)
  | some contentType =>
    match ← perform (.resolveFile file (some label)) with
    | .session s =>
      if withLog then
        let _ ← onSession (.enableLog true)
      let found ← if 0 < holdMillis then some <$> hold file s.key.contentType holdMillis
        else pure none
      let session ← summary a s
      let lines ← if withLog then logLines else pure []
      leave
      return success ([("file", .string (shownPath a.root file)), ("session", session)]
        ++ Json.member "diagnostics" (found.map Json.nat)
        ++ (if lines.isEmpty then [] else [("log", .array lines)]))
    | _ =>
      return failure ("No server could be started for " ++ word ++ " (" ++ contentType ++ ")")

def attach (a : App) (word address : String) (extensions : List String) : Attempt Json := do
  let h := (← get).registry.host
  let root := h.canonical word
  if !h.isDirectory root then return failure ("Not a directory: " ++ word)
  let d : ServerDescription := ⟨"tcp:" ++ address, .socket address⟩
  match ← perform (.attach root d extensions (some label)) with
  | .session s =>
    let session ← summary a s
    leave
    return success [
      ("address", .string address), ("extensions", Json.strings extensions), ("session", session)]
  | .sessionFault f => return failure f.message
  | _ => return failure ""

end LanguageSessions.CommandLine
