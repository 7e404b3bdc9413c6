import LanguageSessions.Json.Basic
import LanguageSessions.Provider
import LanguageSessions.Session.Timing
import LanguageSessions.Workspace.Project

namespace LanguageSessions

structure SessionSettings where
  keepAliveMins : Nat := 10
  handshakePollMs : Nat := 100
  /-- Zero means no limit. -/
  handshakeTimeoutSecs : Nat := 0
  requestTimeoutMs : Nat := 500
  shutdownTimeoutSecs : Nat := 30
  exitWaitSecs : Nat := 30
  communicationLog : Bool := false
  deriving DecidableEq, Repr

structure ServerEntry where
  name : String
  contentTypes : List String
  command : String
  args : List String := []
  env : List (String × String) := []
  deriving DecidableEq, Repr

def defaultContentTypes : List (String × String) := [
  ("c", "text/x-c"),
  ("cc", "text/x-c++"),
  ("cpp", "text/x-c++"),
  ("go", "text/x-go"),
  ("h", "text/x-c"),
  ("hpp", "text/x-c++"),
  ("java", "text/x-java"),
  ("js", "text/javascript"),
  ("json", "application/json"),
  ("jsx", "text/javascript"),
  ("mjs", "text/javascript"),
  ("py", "text/x-python"),
  ("pyi", "text/x-python"),
  ("rs", "text/x-rust"),
  ("ts", "text/typescript"),
  ("tsx", "text/typescript")]

def defaultServers : List ServerEntry := [
  { name := "rust-analyzer", contentTypes := ["text/x-rust"], command := "rust-analyzer" },
  { name := "pyright", contentTypes := ["text/x-python"], command := "pyright-langserver"
    args := ["--stdio"] },
  { name := "gopls", contentTypes := ["text/x-go"], command := "gopls" },
  { name := "typescript-language-server", contentTypes := ["text/typescript", "text/javascript"]
    command := "typescript-language-server", args := ["--stdio"] },
  { name := "clangd", contentTypes := ["text/x-c", "text/x-c++"], command := "clangd"
    args := ["--background-index"] },
  { name := "jdtls", contentTypes := ["text/x-java"], command := "jdtls" }]

structure Settings where
  session : SessionSettings := {}
  debounceMs : Nat := 500
  contentTypes : List (String × String) := defaultContentTypes
  servers : List ServerEntry := defaultServers
  deriving DecidableEq, Repr

namespace SessionSettings

def toJson (s : SessionSettings) : Json :=
  Json.ofMembers [
    ("keep_alive_mins", .nat s.keepAliveMins),
    ("handshake_poll_ms", .nat s.handshakePollMs),
    ("handshake_timeout_secs", .nat s.handshakeTimeoutSecs),
    ("request_timeout_ms", .nat s.requestTimeoutMs),
    ("shutdown_timeout_secs", .nat s.shutdownTimeoutSecs),
    ("exit_wait_secs", .nat s.exitWaitSecs),
    ("communication_log", .bool s.communicationLog)]

end SessionSettings

namespace ServerEntry

def toJson (e : ServerEntry) : Json :=
  Json.ofMembers [
    ("name", .string e.name),
    ("content_types", Json.strings e.contentTypes),
    ("command", .string e.command),
    ("args", Json.strings e.args),
    ("env", Json.ofMembers (e.env.map fun v => (v.1, .string v.2)))]

def description (e : ServerEntry) : ServerDescription := ⟨e.name, .command e.command e.args e.env⟩

def provider (e : ServerEntry) : Provider :=
  { contentTypes := e.contentTypes, description := e.description }

end ServerEntry

namespace Settings

def toJson (s : Settings) : Json :=
  Json.ofMembers [
    ("session", s.session.toJson),
    ("tasks", Json.ofMembers [("debounce_ms", .nat s.debounceMs)]),
    ("content_types", Json.ofMembers (s.contentTypes.map fun e => (e.1, .string e.2))),
    ("servers", .array (s.servers.map ServerEntry.toJson))]

def timing (s : Settings) : Timing where
  keepAlive := s.session.keepAliveMins * 60 * 1000
  handshakePoll := max s.session.handshakePollMs 1
  handshakeTimeout :=
    if s.session.handshakeTimeoutSecs = 0 then none
    else some (s.session.handshakeTimeoutSecs * 1000)
  requestTimeout := s.session.requestTimeoutMs
  shutdownTimeout := s.session.shutdownTimeoutSecs * 1000
  exitWait := s.session.exitWaitSecs * 1000
  debounce := s.debounceMs
  logging := s.session.communicationLog

def providers (s : Settings) : List Provider := s.servers.map ServerEntry.provider

def types (s : Settings) : ContentTypes := .ofList s.contentTypes

/-- Which servers are installed, by name; of two entries of one name the later one counts. -/
def installed (s : Settings) (h : Host) : List (String × Bool) :=
  s.servers.foldl
    (fun found e => found.filter (·.1 != e.name) ++ [(e.name, (e.provider.probe h).2)]) []

end Settings

end LanguageSessions
