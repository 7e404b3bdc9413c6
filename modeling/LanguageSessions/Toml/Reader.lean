import LanguageSessions.Toml.Draft
import LanguageSessions.Toml.Quoted
import LanguageSessions.Toml.Scalar

namespace LanguageSessions.Toml

def maxNesting : Nat := 80

def skipWhite (cs : List Char) : List Char := cs.dropWhile isWhite

def skipComment : List Char → List Char
  | '#' :: cs => cs.dropWhile isPrintable
  | cs => cs

def lineEnd? (cs : List Char) : Option (List Char) :=
  match skipComment (skipWhite cs) with
  | [] => some []
  | cs => newline? cs

def skipLines (fuel : Nat) (cs : List Char) : List Char :=
  match fuel with
  | 0 => cs
  | fuel + 1 =>
    let cs := skipComment (skipWhite cs)
    match newline? cs with
    | some rest => skipLines fuel rest
    | none => cs

def isBareKeyChar (c : Char) : Bool := c.isAlphanum || c = '_' || c = '-'

def keyPart? (cs : List Char) : Option (String × List Char) :=
  match cs with
  | '"' :: rest => lineString? '"' true rest.length [] rest
  | '\'' :: rest => lineString? '\'' false rest.length [] rest
  | _ =>
    let k := cs.takeWhile isBareKeyChar
    if k.isEmpty then none else some (String.ofList k, cs.dropWhile isBareKeyChar)

def keyParts? (fuel : Nat) (cs : List Char) : Option (List String × List Char) :=
  match fuel with
  | 0 => none
  | fuel + 1 =>
    match keyPart? (skipWhite cs) with
    | none => none
    | some (k, cs) =>
      match skipWhite cs with
      | '.' :: cs => (keyParts? fuel cs).map fun (ks, cs) => (k :: ks, cs)
      | cs => some ([k], cs)

def key? (cs : List Char) : Option ((List String × String) × List Char) :=
  match keyParts? (maxNesting - 1) cs with
  | none => none
  | some (ks, cs) => (ks.getLast?).map fun k => ((ks.dropLast, k), cs)

mutual

def value? (fuel depth : Nat) (cs : List Char) : Option (Toml × List Char) :=
  match fuel with
  | 0 => none
  | fuel + 1 =>
    match cs with
    | [] => none
    | c :: rest =>
      if c = '"' || c = '\'' then (string? cs).map fun (s, cs) => (.string s, cs)
      else if c = '[' then
        if depth + 1 < maxNesting then
          (elements? fuel (depth + 1) rest).map fun (xs, cs) => (.array xs, cs)
        else none
      else if c = '\x7b' then
        if depth + 1 < maxNesting then
          match pairs? fuel (depth + 1) rest with
          | none => none
          | some (es, cs) => (Draft.defineAll es .empty).map fun d => (d.toToml, cs)
        else none
      else
        let (w, rest) := takeWord cs
        (word? w).map fun v => (v, rest)

def elements? (fuel depth : Nat) (cs : List Char) : Option (List Toml × List Char) :=
  match fuel with
  | 0 => none
  | fuel + 1 =>
    let cs := skipLines cs.length cs
    match cs with
    | ']' :: rest => some ([], rest)
    | _ =>
      match value? fuel depth cs with
      | none => none
      | some (v, cs) =>
        match skipLines cs.length cs with
        | ',' :: rest => (elements? fuel depth rest).map fun (vs, cs) => (v :: vs, cs)
        | ']' :: rest => some ([v], rest)
        | _ => none

def pairs? (fuel depth : Nat) (cs : List Char) :
    Option (List (List String × String × Toml) × List Char) :=
  match fuel with
  | 0 => none
  | fuel + 1 =>
    match skipWhite cs with
    | '\x7d' :: rest => some ([], rest)
    | cs => morePairs? fuel depth cs

def morePairs? (fuel depth : Nat) (cs : List Char) :
    Option (List (List String × String × Toml) × List Char) :=
  match fuel with
  | 0 => none
  | fuel + 1 =>
    match key? cs with
    | some ((path, k), '=' :: cs) =>
      match value? fuel depth (skipWhite cs) with
      | none => none
      | some (v, cs) =>
        match skipWhite cs with
        | ',' :: rest => (morePairs? fuel depth rest).map fun (es, cs) => ((path, k, v) :: es, cs)
        | '\x7d' :: rest => some ([(path, k, v)], rest)
        | _ => none
    | _ => none

end

inductive Statement where
  | entry (path : List String) (key : String) (v : Toml)
  | header (path : List String) (key : String)
  | repeatedHeader (path : List String) (key : String)

def statement? (cs : List Char) : Option (Statement × List Char) :=
  match cs with
  | '[' :: '[' :: rest =>
    match key? rest with
    | some ((path, k), ']' :: ']' :: cs) =>
      (lineEnd? cs).map fun cs => (.repeatedHeader path k, cs)
    | _ => none
  | '[' :: rest =>
    match key? rest with
    | some ((path, k), ']' :: cs) => (lineEnd? cs).map fun cs => (.header path k, cs)
    | _ => none
  | _ =>
    match key? cs with
    | some ((path, k), '=' :: cs) =>
      match value? (2 * cs.length + 2) 0 (skipWhite cs) with
      | none => none
      | some (v, cs) => (lineEnd? cs).map fun cs => (.entry path k v, cs)
    | _ => none

def statements? (fuel : Nat) (cs : List Char) : Option (List Statement) :=
  match fuel with
  | 0 => none
  | fuel + 1 =>
    match skipLines cs.length cs with
    | [] => some []
    | cs =>
      match statement? cs with
      | none => none
      | some (s, cs) => (statements? fuel cs).map (s :: ·)

def splitEntries : List Statement → List (List String × String × Toml) × List Statement
  | .entry path key v :: rest =>
    let (es, rest) := splitEntries rest
    ((path, key, v) :: es, rest)
  | rest => ([], rest)

theorem splitEntries_length (ss : List Statement) : (splitEntries ss).2.length ≤ ss.length := by
  fun_induction splitEntries ss with
  | case1 path key v rest es rest' h ih =>
    rw [h] at ih
    exact Nat.le_succ_of_le ih
  | case2 => exact Nat.le_refl _

def build? (d : Draft) : List Statement → Option Draft
  | [] => some d
  | .entry _ _ _ :: _ => none
  | .header path key :: rest =>
    have := splitEntries_length rest
    let parts := splitEntries rest
    match d.defineTable path key (Draft.defineAll parts.1) with
    | none => none
    | some d => build? d parts.2
  | .repeatedHeader path key :: rest =>
    have := splitEntries_length rest
    let parts := splitEntries rest
    match d.appendTable path key (Draft.defineAll parts.1) with
    | none => none
    | some d => build? d parts.2
termination_by ss => ss.length

def parse? (text : String) : Option Table :=
  let cs := text.toList
  let cs := if cs.head? = some '\uFEFF' then cs.drop 1 else cs
  match statements? (cs.length + 1) cs with
  | none => none
  | some ss =>
    let (es, rest) := splitEntries ss
    match Draft.defineAll es .empty with
    | none => none
    | some d => (build? d rest).map Draft.toTable

end LanguageSessions.Toml
