namespace LanguageSessions.Path

def pieces (p : String) : List String := p.splitOn "/"

def isAbsolute (p : String) : Bool := p.startsWith "/"

def isVoid (s : String) : Bool := s == "" || s == "."

inductive Step where
  | root
  | here
  | up
  | into (name : String)
  deriving DecidableEq, Repr

def stepOf (s : String) : Step := if s == ".." then .up else .into s

def steps (p : String) : List Step :=
  let ps := pieces p
  let start := if isAbsolute p then [Step.root] else if ps.head? == some "." then [Step.here] else []
  start ++ (ps.filter fun s => !isVoid s).map stepOf

def trimEnd (absolute : Bool) (ps : List String) : List String :=
  match ps with
  | [] => []
  | first :: rest =>
    let kept := (rest.reverse.dropWhile isVoid).reverse
    if absolute || !kept.isEmpty || first != "" then first :: kept else []

def body (p : String) : List String := trimEnd (isAbsolute p) (pieces p)

def parent? (p : String) : Option String :=
  match body p with
  | [] => none
  | [first] => if isAbsolute p || first == "" then none else some ""
  | ps =>
    match trimEnd (isAbsolute p) ps.dropLast with
    | [first] => some (if isAbsolute p then "/" else first)
    | rest => some (String.intercalate "/" rest)

def fileName? (p : String) : Option String :=
  match (steps p).getLast? with
  | some (.into name) => some name
  | _ => none

def extension? (p : String) : Option String :=
  (fileName? p).bind fun name =>
    match name.splitOn "." with
    | [] => none
    | [_] => none
    | ["", _] => none
    | parts => parts.getLast?

def join (base p : String) : String :=
  if isAbsolute p then p
  else if base == "" || base.endsWith "/" then base ++ p
  else base ++ "/" ++ p

def startsWith (base p : String) : Bool := (steps base).isPrefixOf (steps p)

def Step.isPiece : Step → Bool
  | .root => false
  | .here => false
  | _ => true

def relativeTo? (base p : String) : Option String :=
  let ps := body p
  if !startsWith base p then none
  else if (steps base).isEmpty then
    some (if isAbsolute p && ps.length == 1 then "/" else String.intercalate "/" ps)
  else
    let rest := skip ((steps base).countP Step.isPiece) ps
    some (String.intercalate "/" (rest.dropWhile isVoid))
where
  skip : Nat → List String → List String
    | 0, ps => ps
    | _ + 1, [] => []
    | n + 1, s :: ps => if isVoid s then skip (n + 1) ps else skip n ps

/-- Is `p` the same path as `base`, or one that its steps lead to? -/
def isProperlyUnder (base p : String) : Bool := startsWith base p && steps p != steps base

def ancestors (p : String) : List String := climb (pieces p).length p
where
  climb : Nat → String → List String
    | 0, p => [p]
    | n + 1, p =>
      match parent? p with
      | some q => p :: climb n q
      | none => [p]

end LanguageSessions.Path
