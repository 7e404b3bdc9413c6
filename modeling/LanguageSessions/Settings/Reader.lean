import LanguageSessions.Settings.Basic
import LanguageSessions.Toml.Reader

namespace LanguageSessions

namespace Toml

def fields? (strict : Bool) (names : List String) : Toml → Option (List (Option Toml))
  | .table entries => some (names.map fun name => entries.lookup name)
  | .array xs =>
    if strict && names.length < xs.length then none
    else
      some ((xs.take names.length).map some ++ List.replicate (names.length - xs.length) none)
  | _ => none

def orElse (read : Toml → Option α) (absent : α) : Option Toml → Option α
  | none => some absent
  | some v => read v

def asString? : Toml → Option String
  | .string s => some s
  | _ => none

def asBool? : Toml → Option Bool
  | .bool b => some b
  | _ => none

def asNat? : Toml → Option Nat
  | .integer n => if 0 ≤ n then some n.toNat else none
  | _ => none

def asList? (read : Toml → Option α) : Toml → Option (List α)
  | .array xs => xs.mapM read
  | _ => none

def asStrings? : Toml → Option (List (String × String))
  | .table entries =>
    (entries.mapM fun e => (asString? e.2).map (e.1, ·)).map fun es =>
      es.foldl (fun sorted e => ContentTypes.put e.1 e.2 sorted) []
  | _ => none

end Toml

namespace SessionSettings

def fieldNames : List String :=
  ["keep_alive_mins", "handshake_poll_ms", "handshake_timeout_secs", "request_timeout_ms",
    "shutdown_timeout_secs", "exit_wait_secs", "communication_log"]

def ofToml? (strict : Bool) (v : Toml) : Option SessionSettings :=
  let absent : SessionSettings := {}
  match Toml.fields? strict fieldNames v with
  | some [keepAlive, poll, handshake, request, shutdown, exit, log] => do
    return {
      keepAliveMins := ← Toml.orElse Toml.asNat? absent.keepAliveMins keepAlive
      handshakePollMs := ← Toml.orElse Toml.asNat? absent.handshakePollMs poll
      handshakeTimeoutSecs := ← Toml.orElse Toml.asNat? absent.handshakeTimeoutSecs handshake
      requestTimeoutMs := ← Toml.orElse Toml.asNat? absent.requestTimeoutMs request
      shutdownTimeoutSecs := ← Toml.orElse Toml.asNat? absent.shutdownTimeoutSecs shutdown
      exitWaitSecs := ← Toml.orElse Toml.asNat? absent.exitWaitSecs exit
      communicationLog := ← Toml.orElse Toml.asBool? absent.communicationLog log }
  | _ => none

end SessionSettings

namespace ServerEntry

def fieldNames : List String := ["name", "content_types", "command", "args", "env"]

def ofToml? (strict : Bool) (v : Toml) : Option ServerEntry :=
  match Toml.fields? strict fieldNames v with
  | some [some name, some types, some command, args, env] => do
    return {
      name := ← Toml.asString? name
      contentTypes := ← Toml.asList? Toml.asString? types
      command := ← Toml.asString? command
      args := ← Toml.orElse (Toml.asList? Toml.asString?) [] args
      env := ← Toml.orElse Toml.asStrings? [] env }
  | _ => none

end ServerEntry

namespace Settings

def debounce? (strict : Bool) (v : Toml) : Option Nat :=
  match Toml.fields? strict ["debounce_ms"] v with
  | some [debounce] => Toml.orElse Toml.asNat? ({} : Settings).debounceMs debounce
  | _ => none

def ofTable? (strict : Bool) (t : Toml.Table) : Option Settings := do
  let absent : Settings := {}
  return {
    session := ← Toml.orElse (SessionSettings.ofToml? strict) absent.session (t.lookup "session")
    debounceMs := ← Toml.orElse (debounce? strict) absent.debounceMs (t.lookup "tasks")
    contentTypes := ← Toml.orElse Toml.asStrings? absent.contentTypes (t.lookup "content_types")
    servers := ← Toml.orElse (Toml.asList? (ServerEntry.ofToml? strict)) absent.servers
      (t.lookup "servers") }

def parse? (text : String) : Option Settings := (Toml.parse? text).bind (ofTable? false)

end Settings

end LanguageSessions
