import LanguageSessions.Host.FileTree
import LanguageSessions.Text.Utf8

namespace LanguageSessions

structure Host where
  tree : FileTree := {}
  directory : Option FileTree.Place := some []
  environment : List (String × String) := []
  accountHome : String := "/root"
  time : String := ""

namespace Host

def here (h : Host) : FileTree.Place := h.directory.getD []

def getEnv? (h : Host) (name : String) : Option String := h.environment.lookup name

def home (h : Host) : String :=
  match h.getEnv? "HOME" with
  | none | some "" => h.accountHome
  | some dir => dir

def setEnv (h : Host) (name : String) (value : Option String) : Host :=
  { h with environment := h.environment.filter (·.1 != name) ++ (value.map (name, ·)).toList }

def absolute (h : Host) (p : String) : String :=
  if Path.isAbsolute p then p
  else Path.join ((h.directory.map FileTree.render).getD "") p

def canonical (h : Host) (p : String) : String :=
  match h.tree.resolve h.here p with
  | .ok place => FileTree.render place
  | .error _ => h.absolute p

def pathExists (h : Host) (p : String) : Bool := h.tree.exists? h.here p

def isDirectory (h : Host) (p : String) : Bool := h.tree.isDirectory h.here p

def isFile (h : Host) (p : String) : Bool := (h.tree.file? h.here p).isSome

def isExecutable (h : Host) (p : String) : Bool := (h.tree.file? h.here p).any (·.2)

def read (h : Host) (p : String) : Except IoKind (List UInt8) := h.tree.read h.here p

def readText (h : Host) (p : String) : Except IoKind String :=
  match h.read p with
  | .error kind => .error kind
  | .ok bytes =>
    match Utf8.text? bytes with
    | some text => .ok text
    | none => .error .invalidData

def write (h : Host) (p : String) (content : List UInt8) : Except IoKind Host :=
  (h.tree.write h.here p content).map fun t => { h with tree := t }

def makeDirectories (h : Host) (p : String) : Except IoKind Host :=
  (h.tree.makeDirectories h.here p).map fun t => { h with tree := t }

end Host

end LanguageSessions
