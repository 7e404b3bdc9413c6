import LanguageSessions.Workspace.Uri

namespace LanguageSessions

structure SessionKey where
  rootUri : String
  contentType : String
  deriving DecidableEq, Repr

namespace SessionKey

/-- The key of a root and a content type; all paths to one directory give one key. -/
def ofRoot (h : Host) (root contentType : String) : SessionKey :=
  ⟨Uri.ofPath h (h.canonical root), contentType⟩

def display (k : SessionKey) : String := k.rootUri ++ " [" ++ k.contentType ++ "]"

end SessionKey

def parentDirectory (file : String) : String :=
  match Path.parent? file with
  | some p => if p == "" then "." else p
  | none => "."

def isUnder (h : Host) (root file : String) : Bool :=
  Path.isProperlyUnder (h.canonical root) (h.canonical file)

def asciiLower (s : String) : String := s.map Char.toLower

def fileExtension? (file : String) : Option String := (Path.extension? file).map asciiLower

def normalExtension (ext : String) : String :=
  asciiLower (String.ofList (ext.toList.dropWhile (· = '.')))

structure WorkspaceFolder where
  uri : String
  name : String
  deriving DecidableEq, Repr

namespace WorkspaceFolder

def ofRoot (h : Host) (root : String) : WorkspaceFolder :=
  ⟨Uri.ofPath h root, (Path.fileName? root).getD root⟩

def toJson (f : WorkspaceFolder) : Json :=
  Json.ofMembers [("uri", .string f.uri), ("name", .string f.name)]

end WorkspaceFolder

structure ProjectLocator where
  markers : List String :=
    [".lspbind", ".git", "Cargo.toml", "package.json", "pyproject.toml", "go.mod", "pom.xml"]

namespace ProjectLocator

def isRoot (l : ProjectLocator) (h : Host) (dir : String) : Bool :=
  l.markers.any fun m => h.pathExists (Path.join dir m)

def start? (h : Host) (file : String) : Option String :=
  if h.isDirectory file then some (h.canonical file) else (Path.parent? file).map h.canonical

def findRoot? (l : ProjectLocator) (h : Host) (file : String) : Option String :=
  (start? h file).bind fun dir => (Path.ancestors dir).find? (l.isRoot h)

end ProjectLocator

structure ContentTypes where
  byExtension : List (String × String) := []
  deriving Repr

namespace ContentTypes

def put (key value : String) : List (String × String) → List (String × String)
  | [] => [(key, value)]
  | (k, v) :: rest =>
    if key < k then (key, value) :: (k, v) :: rest
    else if key = k then (key, value) :: rest
    else (k, v) :: put key value rest

def insert (c : ContentTypes) (ext contentType : String) : ContentTypes :=
  ⟨put (normalExtension ext) contentType c.byExtension⟩

/-- The types of a map whose keys are in ascending order; of two spellings the later one counts. -/
def ofList (types : List (String × String)) : ContentTypes :=
  types.foldl (fun c e => c.insert e.1 e.2) {}

def forFile? (c : ContentTypes) (file : String) : Option String :=
  (fileExtension? file).bind fun ext => c.byExtension.lookup ext

def extensionsFor (c : ContentTypes) (contentType : String) : List String :=
  (c.byExtension.filter (·.2 == contentType)).map (·.1)

end ContentTypes

end LanguageSessions
