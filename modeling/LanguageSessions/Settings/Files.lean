import LanguageSessions.Fault
import LanguageSessions.Host.Basic
import LanguageSessions.Settings.Printer
import LanguageSessions.Settings.Reader
import LanguageSessions.Text.Blank

/-!
The files of the settings, and the variables that override them. The file of a project lies over
the one of the user, key by key; variables of the environment win over both.
-/
namespace LanguageSessions

structure SettingsFiles where
  root : String
  user : String
  deriving DecidableEq, Repr

namespace SettingsFiles

def userPath (h : Host) : String :=
  let base := (h.getEnv? "XDG_CONFIG_HOME").getD (Path.join h.home ".config")
  Path.join (Path.join base "lspbind") "config.toml"

def ofRoot (h : Host) (root : String) : SettingsFiles := ⟨root, userPath h⟩

def projectPath (f : SettingsFiles) : String :=
  Path.join (Path.join f.root ".lspbind") "config.toml"

def path (f : SettingsFiles) (ofUser : Bool) : String := if ofUser then f.user else f.projectPath

def table (h : Host) (path : String) : Except SettingsFault Toml.Table :=
  if !h.pathExists path then .ok []
  else
    match h.readText path with
    | .error kind => .error (.io kind kind.systemText)
    | .ok text =>
      match Toml.parse? text with
      | some t => .ok t
      | none => .error (.parse (some path) "malformed TOML")

def variableNames : List String := [
  "HOME", "XDG_CONFIG_HOME", "LSPBIND_KEEP_ALIVE_MINS", "LSPBIND_HANDSHAKE_TIMEOUT_SECS",
  "LSPBIND_REQUEST_TIMEOUT_MS", "LSPBIND_COMMUNICATION_LOG", "LSPBIND_DEBOUNCE_MS"]

def number? (h : Host) (name : String) : Option Nat :=
  (h.getEnv? name).bind fun s => Text.unsigned? Text.max64 (Text.trim s.toList)

def affirmations : List String := ["1", "true", "yes", "on"]

def switch? (h : Host) (name : String) : Option Bool :=
  (h.getEnv? name).map fun s => affirmations.contains (String.ofList (Text.trim s.toList))

def override (h : Host) (s : Settings) : Settings :=
  { s with
    session := { s.session with
      keepAliveMins := (number? h "LSPBIND_KEEP_ALIVE_MINS").getD s.session.keepAliveMins
      handshakeTimeoutSecs :=
        (number? h "LSPBIND_HANDSHAKE_TIMEOUT_SECS").getD s.session.handshakeTimeoutSecs
      requestTimeoutMs := (number? h "LSPBIND_REQUEST_TIMEOUT_MS").getD s.session.requestTimeoutMs
      communicationLog := (switch? h "LSPBIND_COMMUNICATION_LOG").getD s.session.communicationLog }
    debounceMs := (number? h "LSPBIND_DEBOUNCE_MS").getD s.debounceMs }

def load (f : SettingsFiles) (h : Host) (ofUser : Bool) : Except SettingsFault Settings := do
  let user ← table h f.user
  let all ← if ofUser then pure user else (table h f.projectPath).map (Toml.merge user)
  match Settings.ofTable? true all with
  | some s => .ok (override h s)
  | none => .error (.parse none "unfit settings")

def init (f : SettingsFiles) (h : Host) (ofUser force : Bool) :
    Except SettingsFault (Host × String) :=
  let path := f.path ofUser
  let io {α : Type} (r : Except IoKind α) : Except SettingsFault α :=
    r.mapError fun kind => .io kind kind.systemText
  if h.pathExists path && !force then
    .error (.invalidValue "config"
      ("Config already exists: " ++ path ++ ". Use --force to overwrite."))
  else do
    let h ← match Path.parent? path with
      | some dir => io (h.makeDirectories dir)
      | none => .ok h
    let h ← io (h.write path (Utf8.bytes (Settings.render {})))
    return (h, path)

end SettingsFiles

end LanguageSessions
