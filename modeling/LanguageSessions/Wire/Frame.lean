import LanguageSessions.Text.Blank
import LanguageSessions.Wire.Message

/-!
Frames on a byte stream: header lines, a blank line, and as many bytes of body as the last
`Content-Length` line says. `Frame.encode` writes a frame; `Frame.take` takes one from the bytes
that have arrived and says where the stream breaks off, where it is at fault, or that more bytes
are wanted.
-/
namespace LanguageSessions

inductive FrameFault where
  | closed
  | lengthMissing
  | truncated
  | headerText
  | lengthValue
  | tooLong (length : Nat)
  | bodyText
  | body (error : Json.Error)
  deriving DecidableEq, Repr

namespace Frame

def maxLength : Nat := 64 * 1024 * 1024

def lengthHeader : List Char := "Content-Length:".toList

def encodeBytes (body : List UInt8) : List UInt8 :=
  Utf8.encode (lengthHeader ++ ' ' :: Json.natChars body.length ++ ['\r', '\n', '\r', '\n']) ++ body

def encode (text : String) : List UInt8 := encodeBytes (Utf8.bytes text)

def splitLine (bs : List UInt8) : List UInt8 × List UInt8 :=
  match bs.dropWhile (· ≠ 10) with
  | [] => (bs, [])
  | b :: rest => (bs.takeWhile (· ≠ 10) ++ [b], rest)

theorem splitLine_length_lt {bs : List UInt8} (h : bs ≠ []) :
    (splitLine bs).2.length < bs.length := by
  unfold splitLine
  split
  · exact List.length_pos_iff.2 h
  · next b rest hr =>
    have := (List.dropWhile_suffix (l := bs) (· ≠ 10)).length_le
    rw [hr] at this
    simp only [List.length_cons] at this
    exact this

inductive Line where
  | blank
  | length (n : Nat)
  | other
  | fault (f : FrameFault)

def readLine (bytes : List UInt8) : Line :=
  match Utf8.decode? bytes with
  | none => .fault .headerText
  | some cs =>
    let line := Text.trim cs
    if line.isEmpty then .blank
    else if lengthHeader.isPrefixOf line then
      match Text.unsigned? Text.max64 (Text.trim (line.drop lengthHeader.length)) with
      | none => .fault .lengthValue
      | some n => if n > maxLength then .fault (.tooLong n) else .length n
    else .other

inductive Take where
  | frame (body rest : List UInt8)
  | fault (f : FrameFault) (rest : List UInt8)
  | wanting

def takeBody (ended : Bool) (n : Nat) (bs : List UInt8) : Take :=
  let body := bs.take n
  if body.length = n then .frame body (bs.drop n)
  else if ended then .fault .truncated []
  else .wanting

inductive Headers where
  | ended (length : Option Nat) (rest : List UInt8)
  | fault (f : FrameFault) (rest : List UInt8)
  | wanting

/-- Reads header lines up to a blank one; those before the first length are passed over. -/
def takeHeaders (ended : Bool) (length : Option Nat) (bs : List UInt8) : Headers :=
  if h : bs = [] then if ended then .fault .closed [] else .wanting
  else
    let line := (splitLine bs).1
    have := splitLine_length_lt h
    if !ended && line.getLast? != some 10 then .wanting
    else
      match readLine line with
      | .fault f => .fault f (splitLine bs).2
      | .other => takeHeaders ended length (splitLine bs).2
      | .length n => takeHeaders ended (some n) (splitLine bs).2
      | .blank =>
        if length.isNone then takeHeaders ended length (splitLine bs).2
        else .ended length (splitLine bs).2
termination_by bs.length

def Headers.thenBody (ended : Bool) : Headers → Take
  | .ended none rest => .fault .lengthMissing rest
  | .ended (some n) rest => takeBody ended n rest
  | .fault f rest => .fault f rest
  | .wanting => .wanting

/-- Takes the next frame; `ended` says that no more bytes will arrive. -/
def take (ended : Bool) (bs : List UInt8) : Take := (takeHeaders ended none bs).thenBody ended

theorem takeHeaders_lt {ended : Bool} {length last : Option Nat} {bs rest : List UInt8}
    (h : takeHeaders ended length bs = .ended last rest) : rest.length < bs.length := by
  fun_induction takeHeaders ended length bs with
  | case1 | case2 | case3 | case4 => cases h
  | case5 length bs hb line hlt _ _ ih => exact Nat.lt_trans (ih h) hlt
  | case6 length bs hb line hlt _ n _ ih => exact Nat.lt_trans (ih h) hlt
  | case7 length bs hb line hlt _ _ _ ih => exact Nat.lt_trans (ih h) hlt
  | case8 length bs hb line hlt =>
    cases h
    exact hlt

theorem takeBody_le {ended : Bool} {n : Nat} {bs body rest : List UInt8}
    (h : takeBody ended n bs = .frame body rest) : rest.length ≤ bs.length := by
  simp only [takeBody] at h
  split at h
  · cases h
    simp
  · split at h <;> cases h

theorem take_lt {ended : Bool} {bs body rest : List UInt8}
    (h : take ended bs = .frame body rest) : rest.length < bs.length := by
  unfold take Headers.thenBody at h
  split at h
  · cases h
  · next heq => exact Nat.lt_of_le_of_lt (takeBody_le h) (takeHeaders_lt heq)
  · cases h
  · cases h

def decodeBody (body : List UInt8) : Except FrameFault Message :=
  match Utf8.text? body with
  | none => .error .bodyText
  | some text =>
    match Message.parse text with
    | .error e => .error (.body e)
    | .ok m => .ok m

/-- One read of a message on a stream to which nothing is added any more, and what is left of the
stream after it. A body that is no message has been read all the same. -/
def readMessage (bs : List UInt8) : Except FrameFault Message × List UInt8 :=
  match take true bs with
  | .frame body rest => (decodeBody body, rest)
  | .fault f rest => (.error f, rest)
  | .wanting => (.error .closed, bs)

end Frame

namespace FrameFault

def kind : FrameFault → IoKind
  | closed => .unexpectedEof
  | truncated => .unexpectedEof
  | _ => .invalidData

def text? : FrameFault → Option String
  | closed => some "Server closed connection"
  | lengthMissing => some "Missing Content-Length"
  | tooLong n => some ("Content-Length " ++ toString n ++ " exceeds " ++ toString Frame.maxLength)
  | _ => none

end FrameFault

end LanguageSessions
