import LanguageSessions.Host.Basic

namespace LanguageSessions.Host

def searchDirectory (h : Host) (dir : String) : String :=
  match Path.pieces dir with
  | "~" :: rest => Path.join h.home (String.intercalate "/" rest)
  | _ => dir

def searchPath (h : Host) : List String :=
  match h.getEnv? "PATH" with
  | none => []
  | some p => (p.splitOn ":").map h.searchDirectory

def findCommand? (h : Host) (command : String) : Option String :=
  let candidates :=
    if (Path.steps command).length > 1 then [command]
    else h.searchPath.map fun dir => Path.join dir command
  candidates.find? h.isExecutable

end LanguageSessions.Host
