import LanguageSessions.Session.Basic

namespace LanguageSessions

namespace Process

def display (p : Process) : String :=
  let id := match p.pid with
    | some n => "Some(" ++ toString n ++ ")"
    | none => "None"
  "ProcessHandle \x7b id: " ++ id ++ ", alive: " ++ (if p.alive then "true" else "false") ++ " \x7d"

end Process

namespace SessionState

def title : SessionState → String
  | starting => "Starting"
  | ready => "Ready"
  | shuttingDown => "ShuttingDown"
  | terminated => "Terminated"

end SessionState

namespace SessionKey

def toJson (k : SessionKey) : Json :=
  Json.ofMembers [("root_uri", .string k.rootUri), ("content_type", .string k.contentType)]

end SessionKey

namespace Session

def display (s : Session) : String :=
  "Session \x7b id: SessionId(" ++ toString s.id ++ "), key: SessionKey \x7b root_uri: "
    ++ Text.quote s.key.rootUri ++ ", content_type: " ++ Text.quote s.key.contentType
    ++ " \x7d, server: " ++ Text.quote s.server ++ ", state: " ++ s.state.title ++ " \x7d"

end Session

def shownPath (directory path : String) : String := (Path.relativeTo? directory path).getD path

def Session.toJson (s : Session) (directory : String) : Json :=
  Json.ofFields [
    ("id", some (.nat s.id)),
    ("server", some (.string s.server)),
    ("root", some (.string (shownPath directory s.root))),
    ("content_type", some (.string s.key.contentType)),
    ("state", some (.string s.state.name)),
    ("pid", s.pid?.map Json.nat),
    ("server_info", s.capabilities.serverInfo.map ServerInfo.toJson),
    ("capabilities", some s.capabilities.flags)]

end LanguageSessions
