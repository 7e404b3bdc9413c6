import LanguageSessions.Host.Basic

namespace LanguageSessions.Uri

def isPlain (c : Char) : Bool :=
  c.isAlphanum || c = '/' || c = '.' || c = '-' || c = '_' || c = '~'

def hexDigit (n : Nat) : Char := if n < 10 then Char.ofNat (48 + n) else Char.ofNat (55 + n)

def hexValue? (b : UInt8) : Option UInt8 :=
  if 48 ≤ b ∧ b ≤ 57 then some (b - 48)
  else if 65 ≤ b ∧ b ≤ 70 then some (b - 55)
  else if 97 ≤ b ∧ b ≤ 102 then some (b - 87)
  else none

def escapeByte (b : UInt8) : List Char := ['%', hexDigit (b.toNat / 16), hexDigit (b.toNat % 16)]

def encodeChar (c : Char) : List Char :=
  if isPlain c then [c] else (String.utf8EncodeChar c).flatMap escapeByte

def encode (p : String) : String := String.ofList (p.toList.flatMap encodeChar)

/-- Reads escapes. A percent sign without two hexadecimal digits stands for itself, and the two
bytes after it are passed over. -/
def decodeBytes : List UInt8 → List UInt8
  | [] => []
  | [b] => [b]
  | [b, c] => if b = 37 then [b] else b :: decodeBytes [c]
  | b :: high :: low :: rest =>
    if b = 37 then
      match hexValue? high, hexValue? low with
      | some h, some l => (h <<< 4 ||| l) :: decodeBytes rest
      | _, _ => b :: decodeBytes rest
    else b :: decodeBytes (high :: low :: rest)
termination_by bs => bs.length

def scheme : String := "file://"

def ofPath (h : Host) (p : String) : String := scheme ++ encode (h.absolute p)

def toPath (uri : String) : String :=
  if uri.startsWith scheme then
    String.ofList (Utf8.decodeLossy (decodeBytes (Utf8.encode (uri.toList.drop scheme.length))))
  else uri

end LanguageSessions.Uri
