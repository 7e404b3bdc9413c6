import LanguageSessions.Shell.Script
import LanguageSessions.Text.Digits
import LanguageSessions.Text.Utf8

namespace LanguageSessions.Shell

abbrev Bytes := List UInt8

inductive Glyph where
  | byte (b : UInt8) (quoted : Bool)
  | mark
  | cut
  deriving DecidableEq, Repr

namespace Glyph

def ofBytes (quoted : Bool) (bs : Bytes) : List Glyph :=
  (if quoted then [mark] else []) ++ bs.map (byte · quoted)

def plain (gs : List Glyph) : Bytes :=
  gs.flatMap fun
    | byte b _ => [b]
    | mark => []
    | cut => [32]

def isBlank (b : UInt8) : Bool := b == 32 || b == 9 || b == 10

def fields (current : Option Bytes) : List Glyph → List Bytes
  | [] => current.toList
  | mark :: gs => fields (some (current.getD [])) gs
  | cut :: gs => current.toList ++ fields none gs
  | byte b quoted :: gs =>
    if !quoted && isBlank b then current.toList ++ fields none gs
    else fields (some (current.getD [] ++ [b])) gs

end Glyph

inductive Wild where
  | byte (b : UInt8)
  | one
  | many
  deriving DecidableEq, Repr

namespace Wild

def ofGlyphs (gs : List Glyph) : List Wild :=
  gs.filterMap fun
    | .byte b quoted =>
      if quoted then some (byte b)
      else if b == 42 then some many
      else if b == 63 then some one
      else some (byte b)
    | _ => none

def matchesAll : List Wild → Bytes → Bool
  | [], bs => bs.isEmpty
  | many :: ps, [] => matchesAll ps []
  | many :: ps, b :: bs => matchesAll ps (b :: bs) || matchesAll (many :: ps) bs
  | one :: _, [] => false
  | one :: ps, _ :: bs => matchesAll ps bs
  | byte _ :: _, [] => false
  | byte a :: ps, b :: bs => a == b && matchesAll ps bs
termination_by ps bs => ps.length + bs.length

def trim (ps : List Wild) (atEnd : Bool) (bs : Bytes) : Bytes :=
  let lengths := List.range (bs.length + 1)
  if atEnd then
    match lengths.find? fun n => matchesAll ps (bs.drop (bs.length - n)) with
    | some n => bs.take (bs.length - n)
    | none => bs
  else
    match lengths.find? fun n => matchesAll ps (bs.take n) with
    | some n => bs.drop n
    | none => bs

end Wild

def number (bs : Bytes) : Nat := ((Utf8.text? bs).bind fun s => Text.digits? s.toList).getD 0

def escaped? (b : UInt8) : Option UInt8 :=
  match Char.ofNat b.toNat with
  | 'a' => some 7
  | 'b' => some 8
  | 'f' => some 12
  | 'v' => some 11
  | 'n' => some 10
  | 'r' => some 13
  | 't' => some 9
  | '\\' => some 92
  | _ => none

def unescape : Bytes → Bytes
  | 92 :: b :: bs =>
    match escaped? b with
    | some c => c :: unescape bs
    | none => 92 :: b :: unescape bs
  | b :: bs => b :: unescape bs
  | [] => []

def formatOnce : Bytes → List Bytes → Bytes × List Bytes
  | 37 :: d :: bs, args =>
    let argument := args.headD []
    let (out, used) : Bytes × Bool :=
      match Char.ofNat d.toNat with
      | 's' => (argument, true)
      | 'b' => (unescape argument, true)
      | 'd' => (Utf8.bytes (toString (number argument)), true)
      | '%' => ([37], false)
      | _ => ([37, d], false)
    let (more, rest) := formatOnce bs (if used then args.drop 1 else args)
    (out ++ more, rest)
  | 92 :: b :: bs, args =>
    let (more, rest) := formatOnce bs args
    (((escaped? b).elim [92, b] fun c => [c]) ++ more, rest)
  | b :: bs, args =>
    let (more, rest) := formatOnce bs args
    (b :: more, rest)
  | [], args => ([], args)

def formatAll (format : Bytes) : Nat → List Bytes → Bytes
  | 0, args => (formatOnce format args).1
  | n + 1, args =>
    let (out, rest) := formatOnce format args
    if rest.isEmpty || rest.length == args.length then out
    else out ++ formatAll format n rest

end LanguageSessions.Shell
