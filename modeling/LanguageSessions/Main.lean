import LanguageSessions.CommandLine.Program

/-!
The program on a real machine. What it may look at is read beforehand into a host; the program runs
on that host, and the files that it wrote there are written afterwards. Whether a file may be run
cannot be seen from here, so every file counts as one that may.
-/
namespace LanguageSessions.CommandLine.Machine

def node? (path : String) : IO (Option Node) := do
  try
    return some (.file (← IO.FS.readBinFile path).toList true)
  catch
    | .inappropriateType .. => return some .directory
    | _ => return none

def load (h : Host) (path : String) : IO Host := do
  let place := (Path.pieces (h.absolute path)).filter (· != "")
  match ← node? (FileTree.render place) with
  | none => return h
  | some n =>
    let above := (h.tree.makeDirectories [] (FileTree.render place.dropLast)).toOption
    return { h with tree := (above.getD h.tree).set place n }

def loadAll (h : Host) (paths : List String) : IO Host := paths.foldlM load h

def host : IO Host := do
  let directory ← try pure (some (← IO.currentDir).toString) catch _ => pure none
  let names := "PATH" :: SettingsFiles.variableNames
  let environment ← names.filterMapM fun name => do return (← IO.getEnv name).map (name, ·)
  let place := directory.map fun d => (Path.pieces d).filter (· != "")
  return { directory := place, environment, time := toString (← IO.monoMsNow) }

def processId : IO Nat := do
  try
    let status ← IO.FS.readFile "/proc/self/stat"
    return (Text.digits? (status.toList.takeWhile (· != ' '))).getD 0
  catch _ => return 0

def hostFor (r : Request) : IO Host := do
  let h ← host
  match h.directory with
  | none => return h
  | some place =>
    let root := FileTree.render place
    let files := SettingsFiles.ofRoot h root
    let h ← loadAll h [root, files.user, files.projectPath]
    loadAll h ((App.ofRoot h root).paths h r)

def store (before after : FileTree) : IO Unit := do
  for (place, n) in after.nodes do
    match n, before.node? place with
    | .file content _, some (.file old _) =>
      if content != old then
        IO.FS.writeBinFile (FileTree.render place) ⟨content.toArray⟩
    | .file content _, _ =>
      IO.FS.createDirAll (FileTree.render place.dropLast)
      IO.FS.writeBinFile (FileTree.render place) ⟨content.toArray⟩
    | _, _ => pure ()

def run (words : List String) : IO UInt32 := do
  match Invocation.read words with
  | .error u =>
    IO.print u.text
    IO.eprint u.complaint
    return UInt32.ofNat u.exitCode
  | .ok v =>
    let h ← hostFor v.request
    let o := v.request.answer h (← processId) none
    store h.tree o.host.tree
    IO.print o.printed
    return UInt32.ofNat o.exitCode

end LanguageSessions.CommandLine.Machine

def main (words : List String) : IO UInt32 := LanguageSessions.CommandLine.Machine.run words
