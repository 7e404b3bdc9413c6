import LanguageSessions.Toml.Basic

namespace LanguageSessions.Toml

def newline? : List Char → Option (List Char)
  | '\n' :: cs => some cs
  | '\r' :: '\n' :: cs => some cs
  | _ => none

def isWhite (c : Char) : Bool := c = ' ' || c = '\t'

def isPrintable (c : Char) : Bool := c = '\t' || (0x20 ≤ c.toNat && c.toNat ≠ 0x7F)

def codePoint? (count : Nat) (cs : List Char) : Option (Char × List Char) :=
  let ds := cs.take count
  if ds.length = count && ds.all isHex then
    let n := ds.foldl (fun n c => n * 16 + value c) 0
    if h : n.isValidChar then some (Char.ofNatAux n h, cs.drop count) else none
  else none
where
  isHex (c : Char) : Bool := c.isDigit || ('a' ≤ c && c ≤ 'f') || ('A' ≤ c && c ≤ 'F')
  value (c : Char) : Nat :=
    if c.isDigit then c.toNat - 48 else if c.isLower then c.toNat - 87 else c.toNat - 55

def unescape? : List Char → Option (Char × List Char)
  | 'b' :: cs => some ('\x08', cs)
  | 't' :: cs => some ('\t', cs)
  | 'n' :: cs => some ('\n', cs)
  | 'f' :: cs => some ('\x0c', cs)
  | 'r' :: cs => some ('\r', cs)
  | '"' :: cs => some ('"', cs)
  | '\\' :: cs => some ('\\', cs)
  | 'u' :: cs => codePoint? 4 cs
  | 'U' :: cs => codePoint? 8 cs
  | _ => none

def lineFold? (cs : List Char) : Option (List Char) := newline? (cs.dropWhile isWhite)

def skipFolded (fuel : Nat) (cs : List Char) : List Char :=
  match fuel with
  | 0 => cs
  | fuel + 1 =>
    match cs with
    | [] => []
    | c :: rest =>
      if isWhite c then skipFolded fuel rest
      else
        match newline? cs with
        | some rest => skipFolded fuel rest
        | none => cs

def countQuotes (q : Char) (cs : List Char) : Nat := ((cs.take 5).takeWhile (· = q)).length

def lineString? (q : Char) (escapes : Bool) :
    Nat → List Char → List Char → Option (String × List Char)
  | 0, _, _ => none
  | _, _, [] => none
  | fuel + 1, acc, c :: cs =>
    if c = q then some (String.ofList acc.reverse, cs)
    else if escapes && c = '\\' then
      match unescape? cs with
      | some (d, cs) => lineString? q escapes fuel (d :: acc) cs
      | none => none
    else if isPrintable c then lineString? q escapes fuel (c :: acc) cs
    else none

/-- The rest of a string on several lines after its opening quotes. Up to two quotes may stand
inside, also right before the closing ones; in a string with escapes a backslash at the end of a
line joins it to the next text. -/
def blockString? (q : Char) (escapes : Bool) :
    Nat → List Char → List Char → Option (String × List Char)
  | 0, _, _ => none
  | _, _, [] => none
  | fuel + 1, acc, c :: cs =>
    if c = q then
      let n := countQuotes q (c :: cs)
      if n < 3 then blockString? q escapes fuel (c :: acc) cs
      else some (String.ofList (acc.reverse ++ List.replicate (n - 3) q), (c :: cs).drop n)
    else if escapes && c = '\\' then
      match lineFold? cs with
      | some rest => blockString? q escapes fuel acc (skipFolded rest.length rest)
      | none =>
        match unescape? cs with
        | some (d, cs) => blockString? q escapes fuel (d :: acc) cs
        | none => none
    else
      match newline? (c :: cs) with
      | some rest => blockString? q escapes fuel ('\n' :: acc) rest
      | none => if isPrintable c then blockString? q escapes fuel (c :: acc) cs else none

def string? (cs : List Char) : Option (String × List Char) :=
  match cs with
  | [] => none
  | q :: rest =>
    let escapes := q = '"'
    if countQuotes q cs ≥ 3 then
      let body := cs.drop 3
      blockString? q escapes body.length [] ((newline? body).getD body)
    else lineString? q escapes rest.length [] rest

end LanguageSessions.Toml
