/-!
UTF-8 as byte lists. `encode` writes characters, `decode?` reads exactly the well-formed lists, and
`decodeLossy` reads every list: each maximal piece that starts a character and breaks off, and each
byte that starts none, becomes one replacement character.
-/
namespace LanguageSessions.Utf8

def encode (cs : List Char) : List UInt8 :=
  cs.flatMap String.utf8EncodeChar

structure Lead where
  low : UInt8
  high : UInt8
  tail : Nat
  bits : Nat

def lead? (b : UInt8) : Option Lead :=
  if 0xC2 ≤ b ∧ b ≤ 0xDF then some ⟨0x80, 0xBF, 1, b.toNat % 32⟩
  else if b = 0xE0 then some ⟨0xA0, 0xBF, 2, 0⟩
  else if b = 0xED then some ⟨0x80, 0x9F, 2, 13⟩
  else if 0xE1 ≤ b ∧ b ≤ 0xEF then some ⟨0x80, 0xBF, 2, b.toNat % 16⟩
  else if b = 0xF0 then some ⟨0x90, 0xBF, 3, 0⟩
  else if 0xF1 ≤ b ∧ b ≤ 0xF3 then some ⟨0x80, 0xBF, 3, b.toNat % 8⟩
  else if b = 0xF4 then some ⟨0x80, 0x8F, 3, 4⟩
  else none

def tail (n : Nat) (low high : UInt8) (bits : Nat) (bs : List UInt8) : Option Nat × List UInt8 :=
  match n, bs with
  | 0, bs => (some bits, bs)
  | _ + 1, [] => (none, [])
  | n + 1, b :: bs =>
    if low ≤ b ∧ b ≤ high then tail n 0x80 0xBF (bits * 64 + b.toNat % 64) bs
    else (none, b :: bs)

theorem tail_length_le (n : Nat) (low high : UInt8) (bits : Nat) (bs : List UInt8) :
    (tail n low high bits bs).2.length ≤ bs.length := by
  induction n generalizing low high bits bs with
  | zero => simp [tail]
  | succ n ih =>
    cases bs with
    | nil => simp [tail]
    | cons b bs =>
      simp only [tail]
      split
      · exact Nat.le_succ_of_le (ih ..)
      · simp

def next (b : UInt8) (bs : List UInt8) : Option Char × List UInt8 :=
  if b < 0x80 then (some (Char.ofNat b.toNat), bs)
  else
    match lead? b with
    | none => (none, bs)
    | some l =>
      let (code, rest) := tail l.tail l.low l.high l.bits bs
      (code.map Char.ofNat, rest)

theorem next_length_le (b : UInt8) (bs : List UInt8) : (next b bs).2.length ≤ bs.length := by
  unfold next
  split
  · simp
  · split
    · simp
    · exact tail_length_le ..

def scanFrom (acc : List (Option Char)) : List UInt8 → List (Option Char)
  | [] => acc.reverse
  | b :: bs => scanFrom ((next b bs).1 :: acc) (next b bs).2
termination_by bs => bs.length
decreasing_by exact Nat.lt_succ_of_le (next_length_le b bs)

def scan (bs : List UInt8) : List (Option Char) := scanFrom [] bs

theorem scanFrom_append (a b : List (Option Char)) (bs : List UInt8) :
    scanFrom (a ++ b) bs = b.reverse ++ scanFrom a bs := by
  fun_induction scanFrom a bs with
  | case1 acc => simp [scanFrom]
  | case2 acc c cs ih =>
    rw [scanFrom]
    exact ih

theorem scan_cons (b : UInt8) (bs : List UInt8) :
    scan (b :: bs) = (next b bs).1 :: scan (next b bs).2 := by
  rw [scan, scanFrom, ← List.nil_append [(next b bs).1], scanFrom_append]
  rfl

def decode? (bs : List UInt8) : Option (List Char) :=
  (scan bs).mapM id

def decodeLossy (bs : List UInt8) : List Char :=
  (scan bs).map (·.getD '\uFFFD')

def text? (bs : List UInt8) : Option String :=
  (decode? bs).map String.ofList

def bytes (s : String) : List UInt8 :=
  encode s.toList

end LanguageSessions.Utf8
