import LanguageSessions.Shell.Script

namespace LanguageSessions.Shell.Reader

def isBlank (c : Char) : Bool := c = ' ' || c = '\t'

def endsWord (c : Char) : Bool := isBlank c || "\n;&|()<>".toList.contains c

def isNameChar (c : Char) : Bool := c.isAlphanum || c = '_'

def skipBlanks (cs : List Char) : List Char := go false cs
where
  go (comment : Bool) : List Char → List Char
    | [] => []
    | '\\' :: '\n' :: rest => go comment rest
    | c :: rest =>
      if c = '\n' then c :: rest
      else if comment || isBlank c then go comment rest
      else if c = '#' then go true rest
      else c :: rest

def skipSeparators : Nat → List Char → List Char
  | 0, cs => cs
  | fuel + 1, cs =>
    match skipBlanks cs with
    | '\n' :: rest => skipSeparators fuel rest
    | ';' :: ';' :: rest => ';' :: ';' :: rest
    | ';' :: rest => skipSeparators fuel rest
    | rest => rest

def keyword? (word : String) (cs : List Char) : Option (List Char) :=
  if word.toList.isPrefixOf cs then
    match cs.drop word.length with
    | [] => some []
    | c :: rest => if endsWord c then some (c :: rest) else none
  else none

def closers : List String := ["do", "done", "then", "elif", "else", "fi", "esac", "\x7d"]

def atCloser (cs : List Char) : Bool :=
  match cs with
  | [] => true
  | ')' :: _ => true
  | ';' :: ';' :: _ => true
  | _ => closers.any fun w => (keyword? w cs).isSome

def name? (cs : List Char) : Option (String × List Char) :=
  match cs with
  | [] => none
  | c :: _ =>
    if isNameChar c && !c.isDigit then
      some (String.ofList (cs.takeWhile isNameChar), cs.dropWhile isNameChar)
    else none

def parameter? (cs : List Char) : Option (String × List Char) :=
  match name? cs with
  | some x => some x
  | none =>
    match cs with
    | c :: rest =>
      if c.isDigit || "@*#?$!".toList.contains c then some (String.singleton c, rest) else none
    | [] => none

def assigned? (cs : List Char) : Option (String × List Char) :=
  match name? cs with
  | some (name, '=' :: rest) => some (name, rest)
  | _ => none

def redirection? (cs : List Char) : Option (Nat × RedirectionKind × List Char) :=
  let stream := match cs with
    | '>' :: _ => some (1, cs)
    | c :: '>' :: _ => if c.isDigit then some (c.toNat - '0'.toNat, cs.drop 1) else none
    | _ => none
  match stream with
  | some (n, '>' :: '>' :: rest) => some (n, .append, rest)
  | some (n, '>' :: '&' :: rest) => some (n, .stream, rest)
  | some (n, '>' :: rest) => some (n, .anew, rest)
  | _ => none

mutual

def pieces (fuel : Nat) (stop : Char → Bool) (cs : List Char) :
    Option (List Piece × List Char) :=
  match fuel with
  | 0 => none
  | fuel + 1 =>
    match cs with
    | [] => some ([], [])
    | '\'' :: rest =>
      match rest.dropWhile (· != '\'') with
      | [] => none
      | _ :: after => do
        let (ps, left) ← pieces fuel stop after
        return (.text (String.ofList (rest.takeWhile (· != '\''))) true :: ps, left)
    | '"' :: rest => do
      let (qs, after) ← quoted fuel rest
      let (ps, left) ← pieces fuel stop after
      return ((if qs.isEmpty then [.text "" true] else qs) ++ ps, left)
    | '\\' :: '\n' :: rest => pieces fuel stop rest
    | '\\' :: c :: rest => do
      let (ps, left) ← pieces fuel stop rest
      return (.text (String.singleton c) true :: ps, left)
    | '$' :: rest => do
      let (p, after) ← expansion fuel false rest
      let (ps, left) ← pieces fuel stop after
      return (p :: ps, left)
    | c :: rest =>
      if stop c then some ([], c :: rest)
      else do
        let (ps, left) ← pieces fuel stop rest
        return (.text (String.singleton c) false :: ps, left)

def quoted (fuel : Nat) (cs : List Char) : Option (List Piece × List Char) :=
  match fuel with
  | 0 => none
  | fuel + 1 =>
    match cs with
    | [] => none
    | '"' :: rest => some ([], rest)
    | '$' :: rest => do
      let (p, after) ← expansion fuel true rest
      let (ps, left) ← quoted fuel after
      return (p :: ps, left)
    | '\\' :: c :: rest => do
      let (ps, left) ← quoted fuel rest
      let text := if c = '\n' then "" else if "$\"\\`".toList.contains c then String.singleton c
        else String.ofList ['\\', c]
      return (.text text true :: ps, left)
    | c :: rest => do
      let (ps, left) ← quoted fuel rest
      return (.text (String.singleton c) true :: ps, left)

def expansion (fuel : Nat) (isQuoted : Bool) (cs : List Char) : Option (Piece × List Char) :=
  match fuel with
  | 0 => none
  | fuel + 1 =>
    match cs with
    | '(' :: rest => do
      let (is, after) ← instructions fuel rest
      match after with
      | ')' :: left => return (.output is isQuoted, left)
      | _ => none
    | '\x7b' :: '#' :: '\x7d' :: left => some (.value "#" isQuoted, left)
    | '\x7b' :: '#' :: rest => do
      let (name, after) ← parameter? rest
      match after with
      | '\x7d' :: left => return (.length name, left)
      | _ => none
    | '\x7b' :: rest => do
      let (name, after) ← parameter? rest
      match after with
      | '\x7d' :: left => return (.value name isQuoted, left)
      | c :: more =>
        if c = '%' || c = '#' then do
          let (pattern, closing) ← pieces fuel (· == '\x7d') more
          match closing with
          | '\x7d' :: left => return (.trimmed name (c = '%') pattern isQuoted, left)
          | _ => none
        else none
      | [] => none
    | _ =>
      match parameter? cs with
      | some (name, left) => some (.value name isQuoted, left)
      | none => some (.text "$" isQuoted, cs)

def instructions (fuel : Nat) (cs : List Char) : Option (List Instruction × List Char) :=
  match fuel with
  | 0 => none
  | fuel + 1 =>
    let cs := skipSeparators (cs.length + 1) cs
    if atCloser cs then some ([], cs)
    else do
      let (i, after) ← pipeline fuel cs
      let (j, rest) ← joined fuel i after
      let (is, left) ← instructions fuel rest
      return (j :: is, left)

def joined (fuel : Nat) (first : Instruction) (cs : List Char) :
    Option (Instruction × List Char) :=
  match fuel with
  | 0 => none
  | fuel + 1 =>
    match skipBlanks cs with
    | '&' :: '&' :: rest => do
      let (second, after) ← pipeline fuel (skipSeparators (rest.length + 1) rest)
      joined fuel (.both first second) after
    | '|' :: '|' :: rest => do
      let (second, after) ← pipeline fuel (skipSeparators (rest.length + 1) rest)
      joined fuel (.either first second) after
    | left => some (first, left)

def pipeline (fuel : Nat) (cs : List Char) : Option (Instruction × List Char) :=
  match fuel with
  | 0 => none
  | fuel + 1 =>
    match keyword? "!" cs with
    | some rest => do
      let (i, left) ← pipeline fuel (skipBlanks rest)
      return (.negated i, left)
    | none => do
      let (first, after) ← instruction fuel cs
      match skipBlanks after with
      | '|' :: '|' :: left => return (first, '|' :: '|' :: left)
      | '|' :: rest => do
        let (second, left) ← pipeline fuel (skipSeparators (rest.length + 1) rest)
        return (.pipe first second, left)
      | left => return (first, left)

def branches (fuel : Nat) (cs : List Char) : Option (Instruction × List Char) :=
  match fuel with
  | 0 => none
  | fuel + 1 => do
    let (condition, after) ← instructions fuel cs
    let start ← keyword? "then" after
    let (yes, rest) ← instructions fuel start
    match keyword? "elif" rest, keyword? "else" rest with
    | some more, _ => do
      let (no, left) ← branches fuel more
      return (.branch condition yes [no], left)
    | _, some more => do
      let (no, ending) ← instructions fuel more
      let left ← keyword? "fi" ending
      return (.branch condition yes no, left)
    | _, _ => do
      let left ← keyword? "fi" rest
      return (.branch condition yes [], left)

def wordList (fuel : Nat) (cs : List Char) : Option (List Word × List Char) :=
  match fuel with
  | 0 => none
  | fuel + 1 =>
    match skipBlanks cs with
    | [] => some ([], [])
    | c :: rest =>
      if endsWord c then some ([], c :: rest)
      else do
        let (w, after) ← pieces fuel endsWord (c :: rest)
        let (ws, left) ← wordList fuel after
        return (w :: ws, left)

def instruction (fuel : Nat) (cs : List Char) : Option (Instruction × List Char) :=
  match fuel with
  | 0 => none
  | fuel + 1 =>
    match cs.takeWhile (!endsWord ·) |> String.ofList, cs.dropWhile (!endsWord ·) with
    | "while", rest => do
      let (condition, after) ← instructions fuel rest
      let (body, left) ← loopBody fuel after
      return (.loop condition body, left)
    | "for", rest => do
      let (name, after) ← name? (skipBlanks rest)
      let start ← keyword? "in" (skipBlanks after)
      let (words, next) ← wordList fuel start
      let (body, left) ← loopBody fuel (skipSeparators (next.length + 1) next)
      return (.each name words body, left)
    | "if", rest => branches fuel rest
    | "case", rest => do
      let (word, after) ← pieces fuel endsWord (skipBlanks rest)
      let start ← keyword? "in" (skipSeparators (after.length + 1) after)
      let (as, left) ← arms fuel start
      return (.choice word as, left)
    | "\x7b", rest => do
      let (body, left) ← groupBody fuel rest
      return (.group body, left)
    | _, _ =>
      match name? cs with
      | some (name, '(' :: ')' :: rest) => do
        let start ← keyword? "\x7b" (skipSeparators (rest.length + 1) rest)
        let (body, left) ← groupBody fuel start
        return (.define name body, left)
      | _ => simple fuel [] [] [] cs

def loopBody (fuel : Nat) (cs : List Char) : Option (List Instruction × List Char) :=
  match fuel with
  | 0 => none
  | fuel + 1 => do
    let start ← keyword? "do" cs
    let (body, ending) ← instructions fuel start
    let left ← keyword? "done" ending
    return (body, left)

def groupBody (fuel : Nat) (cs : List Char) : Option (List Instruction × List Char) :=
  match fuel with
  | 0 => none
  | fuel + 1 => do
    let (body, ending) ← instructions fuel cs
    let left ← keyword? "\x7d" ending
    return (body, left)

def arms (fuel : Nat) (cs : List Char) :
    Option (List (List Word × List Instruction) × List Char) :=
  match fuel with
  | 0 => none
  | fuel + 1 =>
    let cs := skipSeparators (cs.length + 1) cs
    match keyword? "esac" cs with
    | some left => some ([], left)
    | none => do
      let (patterns, after) ← alternatives fuel cs
      let (body, ending) ← instructions fuel after
      let next := match ending with
        | ';' :: ';' :: rest => rest
        | _ => ending
      let (as, left) ← arms fuel next
      return ((patterns, body) :: as, left)

def alternatives (fuel : Nat) (cs : List Char) : Option (List Word × List Char) :=
  match fuel with
  | 0 => none
  | fuel + 1 => do
    let (p, after) ← pieces fuel endsWord (skipBlanks cs)
    match skipBlanks after with
    | ')' :: left => return ([p], left)
    | '|' :: rest => do
      let (ps, left) ← alternatives fuel rest
      return (p :: ps, left)
    | _ => none

def simple (fuel : Nat) (assignments : List (String × Word)) (words : List Word)
    (redirections : List Redirection) (cs : List Char) : Option (Instruction × List Char) :=
  match fuel with
  | 0 => none
  | fuel + 1 =>
    let cs := skipBlanks cs
    match redirection? cs with
    | some (stream, kind, rest) => do
      let (target, left) ← pieces fuel endsWord (skipBlanks rest)
      simple fuel assignments words (redirections ++ [.mk stream kind target]) left
    | none =>
      match (if words.isEmpty then assigned? cs else none) with
      | some (name, rest) => do
        let (value, left) ← pieces fuel endsWord rest
        simple fuel (assignments ++ [(name, value)]) words redirections left
      | none =>
        match cs with
        | [] => some (.simple assignments words redirections, [])
        | c :: rest =>
          if endsWord c then some (.simple assignments words redirections, c :: rest)
          else do
            let (word, left) ← pieces fuel endsWord (c :: rest)
            simple fuel assignments (words ++ [word]) redirections left

end

def script? (text : String) : Option (List Instruction) :=
  let cs := text.toList
  match instructions (8 * cs.length + 16) cs with
  | some (is, []) => some is
  | _ => none

end LanguageSessions.Shell.Reader
