import Mathlib.Data.List.Basic
import Mathlib.Data.List.TakeWhile
import LanguageSessions.Wire.Frame
import LanguageSessions.Proofs.Text.Blank
import LanguageSessions.Proofs.Text.Decimal
import LanguageSessions.Proofs.Text.Utf8

namespace LanguageSessions

namespace Frame

theorem splitLine_line {l : List UInt8} (r : List UInt8) (h : 10 ∉ l) :
    splitLine (l ++ 10 :: r) = (l ++ [10], r) := by
  have hl : ∀ b ∈ l, decide (b ≠ 10) = true := by
    intro b hb
    exact decide_eq_true fun heq => h (heq ▸ hb)
  rw [splitLine, List.dropWhile_append_of_pos hl, List.takeWhile_append_of_pos hl]
  simp

theorem splitLine_partial {l : List UInt8} (h : 10 ∉ l) : splitLine l = (l, []) := by
  have hl : ∀ b ∈ l, decide (b ≠ 10) = true := by
    intro b hb
    exact decide_eq_true fun heq => h (heq ▸ hb)
  have hdrop : l.dropWhile (fun b => decide (b ≠ 10)) = [] := List.dropWhile_eq_nil_iff.2 hl
  rw [splitLine, hdrop]

def header (n : Nat) : List Char := lengthHeader ++ ' ' :: Json.natChars n

theorem header_lineless (n : Nat) : '\n' ∉ header n := by
  intro h
  rcases List.mem_append.mp h with h | h
  · revert h
    decide
  · rcases List.mem_cons.mp h with h | h
    · cases h
    · exact absurd (Json.isDigit_of_mem_natChars h) (by decide)

theorem getLast?_natChars {n : Nat} {c : Char} (h : (Json.natChars n).getLast? = some c) :
    Text.isBlank c = false :=
  Text.isBlank_of_isDigit (Json.isDigit_of_mem_natChars (List.mem_of_getLast? h))

theorem trim_header (n : Nat) : Text.trim (header n ++ ['\r', '\n']) = header n := by
  have hlast : (header n).getLast? = (Json.natChars n).getLast? := by
    rw [header, List.append_cons, List.getLast?_append_of_ne_nil _ (Json.natChars_ne_nil n)]
  have hfirst : (header n).head? = some 'C' := rfl
  have htext : header n ++ ['\r', '\n'] = [] ++ (header n ++ ['\r', '\n']) := rfl
  have hend : ['\r', '\n'].all Text.isBlank = true := rfl
  apply Text.trim_eq htext (List.forall_mem_nil _) (List.all_eq_true.mp hend)
  · rw [hfirst]
    rintro _ ⟨⟩
    rfl
  · rw [hlast]
    exact fun c hc => getLast?_natChars hc

theorem trim_value (n : Nat) : Text.trim (' ' :: Json.natChars n) = Json.natChars n := by
  have htext : ' ' :: Json.natChars n = [' '] ++ (Json.natChars n ++ []) := by
    rw [List.append_nil]
    rfl
  have hspace : [' '].all Text.isBlank = true := rfl
  apply Text.trim_eq htext (List.all_eq_true.mp hspace) (List.forall_mem_nil _)
  · intro c hc
    exact Text.isBlank_of_isDigit (Json.isDigit_of_mem_natChars (List.mem_of_head? hc))
  · exact fun c hc => getLast?_natChars hc

theorem readLine_header (n : Nat) (h : n ≤ Text.max64) :
    readLine (Utf8.encode (header n ++ ['\r', '\n'])) =
      if n > maxLength then .fault (.tooLong n) else .length n := by
  have hne : (header n).isEmpty = false := rfl
  have hprefix : lengthHeader.isPrefixOf (header n) = true := by
    rw [List.isPrefixOf_iff_prefix]
    exact List.prefix_append _ _
  have hdrop : (header n).drop lengthHeader.length = ' ' :: Json.natChars n := List.drop_left
  have hread := (Text.unsigned?_eq_some_iff Text.max64 _ n).mpr (Json.writes_natChars h)
  simp only [readLine, Utf8.decode?_encode, trim_header, hne, hprefix, hdrop, trim_value, hread, if_true,
    Bool.false_eq_true, if_false]

theorem toNat_mem_encodeChar {c : Char} {b : UInt8} (h : b ∈ String.utf8EncodeChar c) :
    b.toNat = c.toNat ∨ 128 ≤ b.toNat := by
  have hhigh : ∀ n < 128, 128 ≤ (UInt8.ofNat (n + 128)).toNat := by
    intro n hn
    rw [Utf8.toNat_ofNat_of_lt (by omega)]
    exact Nat.le_add_left _ _
  simp only [String.utf8EncodeChar] at h
  split at h
  · left
    rw [List.mem_singleton.mp h]
    exact Utf8.toNat_ofNat_of_lt (by omega)
  · right
    split at h
    · simp only [List.mem_cons, List.not_mem_nil, or_false] at h
      rcases h with rfl | rfl
      · exact hhigh (c.val.toNat / 64 % 32 + 64) (by omega)
      · exact hhigh (c.val.toNat % 64) (by omega)
    · split at h
      · simp only [List.mem_cons, List.not_mem_nil, or_false] at h
        rcases h with rfl | rfl | rfl
        · exact hhigh (c.val.toNat / 4096 % 16 + 96) (by omega)
        · exact hhigh (c.val.toNat / 64 % 64) (by omega)
        · exact hhigh (c.val.toNat % 64) (by omega)
      · simp only [List.mem_cons, List.not_mem_nil, or_false] at h
        rcases h with rfl | rfl | rfl | rfl
        · exact hhigh (c.val.toNat / 262144 % 8 + 112) (by omega)
        · exact hhigh (c.val.toNat / 4096 % 64) (by omega)
        · exact hhigh (c.val.toNat / 64 % 64) (by omega)
        · exact hhigh (c.val.toNat % 64) (by omega)

theorem newline_mem_encode {cs : List Char} (h : (10 : UInt8) ∈ Utf8.encode cs) : '\n' ∈ cs := by
  obtain ⟨c, hc, hb⟩ := List.mem_flatMap.mp h
  rcases toNat_mem_encodeChar hb with hval | hval
  · have hnewline : c = '\n' := Char.ext (UInt32.toNat_inj.mp hval.symm)
    rwa [hnewline] at hc
  · exact absurd hval (by decide)

theorem takeHeaders_line (ended : Bool) (length : Option Nat) {l : List UInt8} (r : List UInt8)
    (h : 10 ∉ l) :
    takeHeaders ended length (l ++ 10 :: r) =
      match readLine (l ++ [10]) with
      | .fault f => .fault f r
      | .other => takeHeaders ended length r
      | .length n => takeHeaders ended (some n) r
      | .blank => if length.isNone then takeHeaders ended length r else .ended length r := by
  have hne : l ++ 10 :: r ≠ [] := by simp
  conv_lhs => rw [takeHeaders.eq_def, dif_neg hne]
  cases hread : readLine (l ++ [10]) <;> simp [splitLine_line r h, hread]

theorem takeHeaders_partial (length : Option Nat) {l : List UInt8} (h : 10 ∉ l) :
    takeHeaders false length l = .wanting := by
  rw [takeHeaders.eq_def]
  split
  · rfl
  · have hlast : l.getLast? ≠ some 10 := fun hlast => h (List.mem_of_getLast? hlast)
    simp [splitLine_partial h, hlast]

def headerBytes (n : Nat) : List UInt8 := Utf8.encode (header n ++ ['\r'])

theorem encodeBytes_eq (body : List UInt8) :
    encodeBytes body = headerBytes body.length ++ 10 :: 13 :: 10 :: body := by
  have hends : ['\r', '\n', '\r', '\n'] = ['\r'] ++ ['\n', '\r', '\n'] := rfl
  rw [encodeBytes, headerBytes, hends, ← List.append_assoc, Utf8.encode, List.flatMap_append]
  rw [List.append_assoc]
  rfl

theorem newline_notMem_headerBytes (n : Nat) : 10 ∉ headerBytes n := by
  intro h
  rcases List.mem_append.mp (newline_mem_encode h) with h | h
  · exact header_lineless n h
  · revert h
    decide

theorem readLine_headerBytes {n : Nat} (h : n ≤ Text.max64) :
    readLine (headerBytes n ++ [10]) = if n > maxLength then .fault (.tooLong n) else .length n := by
  have hline : headerBytes n ++ [10] = Utf8.encode (header n ++ ['\r', '\n']) := by
    have hends : ['\r', '\n'] = ['\r'] ++ ['\n'] := rfl
    rw [hends, ← List.append_assoc, Utf8.encode, List.flatMap_append]
    rfl
  rw [hline, readLine_header n h]

theorem readLine_blank : readLine [13, 10] = .blank := by
  have hbytes : [13, 10] = Utf8.encode ['\r', '\n'] := by decide
  have htrim : Text.trim ['\r', '\n'] = [] := by decide
  rw [hbytes, readLine, Utf8.decode?_encode]
  simp only [htrim, List.isEmpty_nil, if_true]

theorem takeHeaders_blank (ended : Bool) (n : Nat) (bs : List UInt8) :
    takeHeaders ended (some n) (13 :: 10 :: bs) = .ended (some n) bs := by
  have hline := takeHeaders_line ended (some n) (l := [13]) bs (by decide)
  rw [List.singleton_append, List.singleton_append, readLine_blank] at hline
  exact hline

theorem maxLength_le : maxLength ≤ Text.max64 := by decide +kernel

theorem take_header (ended : Bool) {n : Nat} (h : n ≤ maxLength) (bs : List UInt8) :
    take ended (headerBytes n ++ 10 :: bs) = (takeHeaders ended (some n) bs).thenBody ended := by
  rw [take, takeHeaders_line _ _ _ (newline_notMem_headerBytes n),
    readLine_headerBytes (h.trans maxLength_le), if_neg (Nat.not_lt.mpr h)]

theorem take_encodeBytes (ended : Bool) {body : List UInt8} (h : body.length ≤ maxLength)
    (rest : List UInt8) : take ended (encodeBytes body ++ rest) = .frame body rest := by
  rw [encodeBytes_eq, List.append_assoc, List.cons_append, take_header ended h, List.cons_append,
    List.cons_append, takeHeaders_blank, Headers.thenBody, takeBody, List.take_left, List.drop_left,
    if_pos rfl]

theorem take_tooLong (ended : Bool) {body : List UInt8} (h : maxLength < body.length)
    (hmax : body.length ≤ Text.max64) (rest : List UInt8) :
    take ended (encodeBytes body ++ rest) =
      .fault (.tooLong body.length) (13 :: 10 :: body ++ rest) := by
  rw [encodeBytes_eq, List.append_assoc, List.cons_append, take,
    takeHeaders_line _ _ _ (newline_notMem_headerBytes _), readLine_headerBytes hmax, if_pos h]
  rfl

theorem takeBody_eq_wanting {p q : List UInt8} (hq : q ≠ []) :
    takeBody false (p ++ q).length p = .wanting := by
  have hshort : p.length < (p ++ q).length := by
    rw [List.length_append]
    exact Nat.lt_add_of_pos_right (List.length_pos_iff.mpr hq)
  have htaken : (p.take (p ++ q).length).length ≠ (p ++ q).length := by
    rw [List.take_of_length_le hshort.le]
    exact hshort.ne
  rw [takeBody, if_neg htaken]
  rfl

theorem takeHeaders_eq_wanting {body p q : List UInt8} (hsplit : 13 :: 10 :: body = p ++ q)
    (hq : q ≠ []) : (takeHeaders false (some body.length) p).thenBody false = .wanting := by
  match p with
  | [] =>
    rw [takeHeaders_partial _ List.not_mem_nil]
    rfl
  | [b] =>
    obtain ⟨rfl, -⟩ := List.cons.inj hsplit
    rw [takeHeaders_partial _ (by decide)]
    rfl
  | b :: b' :: p =>
    obtain ⟨rfl, hrest⟩ := List.cons.inj hsplit
    obtain ⟨rfl, rfl⟩ := List.cons.inj hrest
    rw [takeHeaders_blank]
    exact takeBody_eq_wanting hq

theorem take_eq_wanting {body p q : List UInt8} (h : body.length ≤ maxLength)
    (hsplit : encodeBytes body = p ++ q) (hq : q ≠ []) : take false p = .wanting := by
  have hheader := newline_notMem_headerBytes body.length
  rw [encodeBytes_eq, List.append_eq_append_iff] at hsplit
  rcases hsplit with ⟨p', rfl, hrest⟩ | ⟨q', hline, -⟩
  · cases p' with
    | nil =>
      rw [List.append_nil, take, takeHeaders_partial none hheader]
      rfl
    | cons b p' =>
      obtain ⟨rfl, hafter⟩ := List.cons.inj hrest
      rw [take_header false h]
      exact takeHeaders_eq_wanting hafter hq
  · rw [hline] at hheader
    rw [take, takeHeaders_partial _ fun hnewline => hheader (List.mem_append_left _ hnewline)]
    rfl

def stream (bodies : List (List UInt8)) : List UInt8 := bodies.flatMap encodeBytes

theorem stream_cons (body : List UInt8) (bodies : List (List UInt8)) :
    stream (body :: bodies) = encodeBytes body ++ stream bodies := List.flatMap_cons

theorem stream_append (bodies more : List (List UInt8)) :
    stream (bodies ++ more) = stream bodies ++ stream more := List.flatMap_append

theorem take_nil (ended : Bool) :
    take ended [] = if ended then .fault .closed [] else .wanting := by
  rw [take, takeHeaders.eq_def, dif_pos rfl]
  cases ended <;> rfl

theorem take_stream_prefix {bodies : List (List UInt8)} (h : ∀ b ∈ bodies, b.length ≤ maxLength)
    {p q : List UInt8} (hsplit : stream bodies = p ++ q) :
    (take false p = .wanting ∧ (q = [] → bodies = [])) ∨
      ∃ body more p', bodies = body :: more ∧ p = encodeBytes body ++ p' := by
  cases bodies with
  | nil =>
    obtain ⟨rfl, rfl⟩ := List.append_eq_nil_iff.mp hsplit.symm
    exact .inl ⟨take_nil false, fun _ => rfl⟩
  | cons body more =>
    rw [stream_cons, List.append_eq_append_iff] at hsplit
    rcases hsplit with ⟨p', hp, -⟩ | ⟨q', hbody, hq⟩
    · exact .inr ⟨body, more, p', rfl, hp⟩
    · by_cases hq' : q' = []
      · rw [hq', List.append_nil] at hbody
        exact .inr ⟨body, more, [], rfl, by rw [hbody, List.append_nil]⟩
      · left
        refine ⟨take_eq_wanting (h body List.mem_cons_self) hbody hq', ?_⟩
        rintro rfl
        exact absurd (List.append_eq_nil_iff.mp hq.symm).1 hq'

def frames (ended : Bool) (bs : List UInt8) : List (List UInt8) × Take :=
  match h : take ended bs with
  | .frame body rest =>
    have := take_lt h
    (body :: (frames ended rest).1, (frames ended rest).2)
  | .fault f rest => ([], .fault f rest)
  | .wanting => ([], .wanting)
termination_by bs.length

theorem frames_of_frame {ended : Bool} {bs body rest : List UInt8}
    (h : take ended bs = .frame body rest) :
    frames ended bs = (body :: (frames ended rest).1, (frames ended rest).2) := by
  rw [frames]
  split
  · next h' =>
    rw [h] at h'
    cases h'
    rfl
  · next h' => rw [h] at h'; cases h'
  · next h' => rw [h] at h'; cases h'

theorem frames_nil (ended : Bool) :
    frames ended [] = ([], if ended then .fault .closed [] else .wanting) := by
  rw [frames]
  split
  · next h => cases ended <;> simp [take_nil] at h
  · next h => cases ended <;> simp_all [take_nil]
  · next h => cases ended <;> simp_all [take_nil]

theorem frames_stream (ended : Bool) {bodies : List (List UInt8)}
    (h : ∀ b ∈ bodies, b.length ≤ maxLength) :
    frames ended (stream bodies) = (bodies, if ended then .fault .closed [] else .wanting) := by
  induction bodies with
  | nil => exact frames_nil ended
  | cons body bodies ih =>
    have hrest := ih fun b hb => h b (List.mem_cons_of_mem _ hb)
    rw [stream_cons, frames_of_frame (take_encodeBytes ended (h body List.mem_cons_self) _), hrest]

theorem frames_of_fault {ended : Bool} {bs rest : List UInt8} {f : FrameFault}
    (h : take ended bs = .fault f rest) : frames ended bs = ([], .fault f rest) := by
  rw [frames]
  split
  · next h' => rw [h] at h'; cases h'
  · next h' => rw [h] at h'; cases h'; rfl
  · next h' => rw [h] at h'; cases h'

theorem length_bytes_replicate (n : Nat) :
    (Utf8.bytes (String.ofList (List.replicate n 'a'))).length = n := by
  rw [Utf8.bytes, String.toList_ofList, Utf8.encode]
  induction n with
  | zero => rfl
  | succ n ih =>
    rw [List.replicate_succ, List.flatMap_cons, List.length_append, ih]
    exact Nat.add_comm 1 n

theorem frames_encode_long {text : String} (h : maxLength < (Utf8.bytes text).length)
    (hmax : (Utf8.bytes text).length ≤ Text.max64) : (frames true (encode text)).1 = [] := by
  have htake := take_tooLong true h hmax []
  rw [List.append_nil] at htake
  rw [encode, frames_of_fault htake]

theorem long_text_refused :
    ¬ ∀ texts : List String,
      frames true (texts.flatMap encode) = (texts.map Utf8.bytes, .fault .closed []) := by
  intro hall
  have htaken := congrArg Prod.fst (hall [String.ofList (List.replicate (maxLength + 1) 'a')])
  rw [List.flatMap_singleton] at htaken
  have hlength := length_bytes_replicate (maxLength + 1)
  rw [frames_encode_long] at htaken
  · cases htaken
  · rw [hlength]
    exact Nat.lt_succ_self _
  · rw [hlength]
    decide +kernel

end Frame

end LanguageSessions
