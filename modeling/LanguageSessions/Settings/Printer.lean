import LanguageSessions.Settings.Basic
import LanguageSessions.Json.Printer

namespace LanguageSessions.Settings

def quoted (s : String) : String := String.ofList (Json.stringChars s)

def isBareKeyChar (c : Char) : Bool := c.isAlphanum || c = '_' || c = '-'

def key (s : String) : String :=
  if s != "" && s.all isBareKeyChar then s else quoted s

def entry (name value : String) : String := name ++ " = " ++ value ++ "\n"

def list : List String → String
  | [] => "[]"
  | [s] => "[" ++ quoted s ++ "]"
  | ss => "[\n" ++ String.join (ss.map fun s => "    " ++ quoted s ++ ",\n") ++ "]"

def strings (entries : List (String × String)) : String :=
  String.join (entries.map fun e => entry (key e.1) (quoted e.2))

def sessionPart (s : SessionSettings) : String :=
  "[session]\n" ++ entry "keep_alive_mins" (toString s.keepAliveMins)
    ++ entry "handshake_poll_ms" (toString s.handshakePollMs)
    ++ entry "handshake_timeout_secs" (toString s.handshakeTimeoutSecs)
    ++ entry "request_timeout_ms" (toString s.requestTimeoutMs)
    ++ entry "shutdown_timeout_secs" (toString s.shutdownTimeoutSecs)
    ++ entry "exit_wait_secs" (toString s.exitWaitSecs)
    ++ entry "communication_log" (if s.communicationLog then "true" else "false")

def serverPart (e : ServerEntry) : String :=
  "[[servers]]\n" ++ entry "name" (quoted e.name) ++ entry "content_types" (list e.contentTypes)
    ++ entry "command" (quoted e.command) ++ entry "args" (list e.args)
    ++ "\n[servers.env]\n" ++ strings e.env

def render (s : Settings) : String :=
  String.intercalate "\n" ([sessionPart s.session,
    "[tasks]\n" ++ entry "debounce_ms" (toString s.debounceMs),
    "[content_types]\n" ++ strings s.contentTypes] ++ s.servers.map serverPart)

end LanguageSessions.Settings
