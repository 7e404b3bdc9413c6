import LanguageSessions.Fault
import LanguageSessions.Workspace.Path

/-!
A tree of files, directories and symbolic links. Every place but the root is listed under its
names from the root. `locate` follows links, at most `maxLinks` of them, and tells a place that is
there from one that could be made and from a failure.
-/
namespace LanguageSessions

inductive Node where
  | file (content : List UInt8) (executable : Bool)
  | directory
  | link (target : String)

structure FileTree where
  nodes : List (List String × Node) := []

namespace FileTree

abbrev Place := List String

def maxLinks : Nat := 40

def maxName : Nat := 255

def node? (t : FileTree) (place : Place) : Option Node :=
  if place.isEmpty then some .directory else t.nodes.lookup place

def set (t : FileTree) (place : Place) (n : Node) : FileTree :=
  if t.nodes.any (·.1 == place) then
    { nodes := t.nodes.map fun e => if e.1 == place then (place, n) else e }
  else { nodes := t.nodes ++ [(place, n)] }

def erase (t : FileTree) (place : Place) : FileTree :=
  { nodes := t.nodes.filter fun e => !place.isPrefixOf e.1 }

inductive Found where
  | present (place : Place)
  | vacant (place : Place)
  | failure (kind : IoKind)

def isDirectoryAt (t : FileTree) (place : Place) : Bool :=
  match t.node? place with
  | some .directory => true
  | _ => false

def walk (t : FileTree) (follow : Bool) (links : Nat) (place : Place) (way : List String) : Found :=
  match way with
  | [] => .present place
  | name :: rest =>
    if !t.isDirectoryAt place then .failure .notADirectory
    else if Path.isVoid name then walk t follow links place rest
    else if name == ".." then walk t follow links place.dropLast rest
    else if name.utf8ByteSize > maxName then .failure .invalidFilename
    else
      let next := place ++ [name]
      match t.node? next with
      | none => if rest.isEmpty then .vacant next else .failure .notFound
      | some (.link target) =>
        if rest.isEmpty && !follow then .present next
        else
          match links with
          | 0 => .failure .filesystemLoop
          | links + 1 =>
            if target == "" then .failure .notFound
            else
              walk t follow links (if Path.isAbsolute target then [] else place)
                (Path.pieces target ++ rest)
      | some _ => walk t follow links next rest
termination_by (links, way.length)

def locate (t : FileTree) (directory : Place) (p : String) (follow : Bool := true) : Found :=
  if p == "" then .failure .notFound
  else t.walk follow maxLinks (if Path.isAbsolute p then [] else directory) (Path.pieces p)

def render (place : Place) : String := "/" ++ String.intercalate "/" place

def resolve (t : FileTree) (directory : Place) (p : String) : Except IoKind Place :=
  match t.locate directory p with
  | .present place => .ok place
  | .vacant _ => .error .notFound
  | .failure kind => .error kind

def exists? (t : FileTree) (directory : Place) (p : String) : Bool :=
  (t.resolve directory p).toOption.isSome

def isDirectory (t : FileTree) (directory : Place) (p : String) : Bool :=
  match t.resolve directory p with
  | .ok place => t.isDirectoryAt place
  | .error _ => false

def file? (t : FileTree) (directory : Place) (p : String) : Option (List UInt8 × Bool) :=
  match t.resolve directory p with
  | .ok place =>
    match t.node? place with
    | some (.file content executable) => some (content, executable)
    | _ => none
  | .error _ => none

def read (t : FileTree) (directory : Place) (p : String) : Except IoKind (List UInt8) :=
  match t.resolve directory p with
  | .error kind => .error kind
  | .ok place =>
    match t.node? place with
    | some (.file content _) => .ok content
    | _ => .error .isADirectory

/-- Writes a file; one that is there keeps its right to be run. -/
def write (t : FileTree) (directory : Place) (p : String) (content : List UInt8) :
    Except IoKind FileTree :=
  match t.locate directory p with
  | .failure kind => .error kind
  | .vacant place => .ok (t.set place (.file content false))
  | .present place =>
    match t.node? place with
    | some (.file _ executable) => .ok (t.set place (.file content executable))
    | _ => .error .isADirectory

def append (t : FileTree) (directory : Place) (p : String) (content : List UInt8) :
    Except IoKind FileTree :=
  match t.read directory p with
  | .ok old => t.write directory p (old ++ content)
  | .error .notFound => t.write directory p content
  | .error kind => .error kind

def makeDirectory (t : FileTree) (directory : Place) (p : String) : Except IoKind FileTree :=
  match t.locate directory p false with
  | .present _ => .error .alreadyExists
  | .vacant place => .ok (t.set place .directory)
  | .failure kind => .error kind

def makeDirectories (t : FileTree) (directory : Place) (p : String) : Except IoKind FileTree :=
  up (Path.pieces p).length t p
where
  up : Nat → FileTree → String → Except IoKind FileTree
    | fuel, t, p =>
      if p == "" then .ok t
      else
        match t.makeDirectory directory p with
        | .ok t => .ok t
        | .error .notFound =>
          match fuel, Path.parent? p with
          | fuel + 1, some q =>
            match up fuel t q with
            | .error kind => .error kind
            | .ok t =>
              match t.makeDirectory directory p with
              | .ok t => .ok t
              | .error kind => if t.isDirectory directory p then .ok t else .error kind
          | _, _ => .error .other
        | .error kind => if t.isDirectory directory p then .ok t else .error kind

def makeLink (t : FileTree) (directory : Place) (p target : String) : Except IoKind FileTree :=
  match t.locate directory p false with
  | .present _ => .error .alreadyExists
  | .vacant place => .ok (t.set place (.link target))
  | .failure kind => .error kind

def remove (t : FileTree) (directory : Place) (p : String) : Except IoKind FileTree :=
  match t.locate directory p false with
  | .present place => .ok (t.erase place)
  | .vacant _ => .error .notFound
  | .failure kind => .error kind

def allowRun (t : FileTree) (directory : Place) (p : String) : Except IoKind FileTree :=
  match t.resolve directory p with
  | .error kind => .error kind
  | .ok place =>
    match t.node? place with
    | some (.file content _) => .ok (t.set place (.file content true))
    | _ => .ok t

end FileTree

end LanguageSessions
