import LanguageSessions.CommandLine.Invocation
import LanguageSessions.Session.Summary
import LanguageSessions.Settings.Files

namespace LanguageSessions.CommandLine

structure App where
  root : String
  files : SettingsFiles
  settings : Settings

namespace App

def ofRoot (h : Host) (root : String) : App :=
  let files := SettingsFiles.ofRoot h root
  { root, files, settings := (files.load h false).toOption.getD {} }

end App

def success (members : List (String × Json)) : Json :=
  Json.ofMembers (members ++ [("success", .bool true)])

def failure (message : String) : Json :=
  Json.ofMembers [("success", .bool false), ("error", .string message)]

structure ServerRow where
  entry : ServerEntry
  extensions : List String
  installed : Bool

namespace ServerRow

def toJson (r : ServerRow) : Json :=
  Json.ofMembers [
    ("name", .string r.entry.name),
    ("command", .string r.entry.command),
    ("content_types", Json.strings r.entry.contentTypes),
    ("extensions", Json.strings r.extensions),
    ("installed", .bool r.installed)]

end ServerRow

namespace App

def rows (a : App) (h : Host) : List ServerRow :=
  let installed := a.settings.installed h
  a.settings.servers.map fun e =>
    { entry := e
      extensions := e.contentTypes.flatMap a.settings.types.extensionsFor
      installed := (installed.lookup e.name).getD false }

def servers (a : App) (h : Host) (missingOnly : Bool) : Json :=
  let rows := a.rows h
  let shown := if missingOnly then rows.filter fun r => !r.installed else rows
  success [
    ("summary", Json.ofMembers [
      ("installed", .nat (rows.countP (·.installed))),
      ("missing", .nat (rows.countP fun r => !r.installed))]),
    ("servers", .array (shown.map ServerRow.toJson))]

def createSettings (a : App) (h : Host) (ofUser force : Bool) : Host × Json :=
  match a.files.init h ofUser force with
  | .error f => (h, failure f.message)
  | .ok (h, path) =>
    (h, success [
      ("status", .string "created"),
      ("path", .string (if ofUser then path else shownPath a.root path)),
      ("level", .string (if ofUser then "global" else "project"))])

def times (t : Timing) : List (String × Option Nat) := [
  ("keep_alive_ms", some t.keepAlive),
  ("reap_interval_ms", some t.reapInterval),
  ("handshake_poll_ms", some t.handshakePoll),
  ("handshake_timeout_ms", t.handshakeTimeout),
  ("request_timeout_ms", some t.requestTimeout),
  ("debounce_ms", some t.debounce)]

/-- The settings that hold, of the user alone or of the project. Where a time has more than 64
bits, the report says nothing but that it succeeded. -/
def showSettings (a : App) (h : Host) (ofUser : Bool) : Json :=
  match a.files.load h ofUser with
  | .error f => failure f.message
  | .ok s =>
    let times := times s.timing
    if times.any fun e => e.2.any (Text.max64 < ·) then success []
    else
      success [
        ("level", .string (if ofUser then "global" else "merged")),
        ("config", s.toJson),
        ("runtime", Json.ofFields (times.map fun e => (e.1, e.2.map Json.nat)))]

def settingsPath (a : App) (h : Host) (ofUser : Bool) : Json :=
  let path := a.files.path ofUser
  success [
    ("level", .string (if ofUser then "global" else "project")),
    ("path", .string (if ofUser then path else shownPath a.root path)),
    ("exists", .bool (h.pathExists path))]

end App

end LanguageSessions.CommandLine
