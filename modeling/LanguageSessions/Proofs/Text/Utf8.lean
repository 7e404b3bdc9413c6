import Mathlib.Tactic.IntervalCases
import LanguageSessions.Text.Utf8

namespace LanguageSessions.Utf8

theorem toNat_ofNat_of_lt {n : Nat} (h : n < 256) : (UInt8.ofNat n).toNat = n := by
  rw [UInt8.toNat_ofNat']
  exact Nat.mod_eq_of_lt h

theorem lead?_two {n : Nat} (hlow : 2 ≤ n) (hhigh : n < 32) :
    lead? (UInt8.ofNat (n + 192)) = some ⟨0x80, 0xBF, 1, n⟩ := by
  interval_cases n <;> rfl

theorem lead?_three {n : Nat} (h : n < 16) :
    lead? (UInt8.ofNat (n + 224)) =
      some ⟨if n = 0 then 0xA0 else 0x80, if n = 13 then 0x9F else 0xBF, 2, n⟩ := by
  interval_cases n <;> rfl

theorem lead?_four {n : Nat} (h : n < 5) :
    lead? (UInt8.ofNat (n + 240)) =
      some ⟨if n = 0 then 0x90 else 0x80, if n = 4 then 0x8F else 0xBF, 3, n⟩ := by
  interval_cases n <;> rfl

theorem tail_cons (n bits m : Nat) {low high : UInt8} (bs : List UInt8)
    (hlow : low.toNat ≤ m % 64 + 128) (hhigh : m % 64 + 128 ≤ high.toNat) :
    tail (n + 1) low high bits (UInt8.ofNat (m % 64 + 128) :: bs) =
      tail n 0x80 0xBF (bits * 64 + m % 64) bs := by
  have hb : (UInt8.ofNat (m % 64 + 128)).toNat = m % 64 + 128 := toNat_ofNat_of_lt (by omega)
  have hin : low ≤ UInt8.ofNat (m % 64 + 128) ∧ UInt8.ofNat (m % 64 + 128) ≤ high := by
    rw [UInt8.le_iff_toNat_le, UInt8.le_iff_toNat_le, hb]
    exact ⟨hlow, hhigh⟩
  have hbits : (m % 64 + 128) % 64 = m % 64 := by omega
  rw [tail, if_pos hin, hb, hbits]

theorem tail_trail (n bits m : Nat) (bs : List UInt8) :
    tail (n + 1) 0x80 0xBF bits (UInt8.ofNat (m % 64 + 128) :: bs) =
      tail n 0x80 0xBF (bits * 64 + m % 64) bs := by
  have hmod : m % 64 < 64 := Nat.mod_lt _ (by decide)
  apply tail_cons
  · exact Nat.le_add_left 128 _
  · change m % 64 + 128 ≤ 191
    omega

theorem tail_zero (low high : UInt8) (bits : Nat) (bs : List UInt8) :
    tail 0 low high bits bs = (some bits, bs) := by
  rw [tail]

theorem next_of_lead {n : Nat} {l : Lead} (bs : List UInt8) (hn : 128 ≤ n) (hlt : n < 256)
    (h : lead? (UInt8.ofNat n) = some l) :
    next (UInt8.ofNat n) bs = ((tail l.tail l.low l.high l.bits bs).1.map Char.ofNat,
      (tail l.tail l.low l.high l.bits bs).2) := by
  have hlead : ¬ UInt8.ofNat n < 0x80 := by
    rw [UInt8.lt_iff_toNat_lt, toNat_ofNat_of_lt hlt]
    exact Nat.not_lt.mpr hn
  rw [next, if_neg hlead, h]

theorem toNat_valid (c : Char) :
    c.toNat < 0xD800 ∨ (0xDFFF < c.toNat ∧ c.toNat < 0x110000) := c.valid

theorem next_one {v : Nat} (h : v ≤ 127) (bs : List UInt8) :
    next (UInt8.ofNat v) bs = (some (Char.ofNat v), bs) := by
  have hb : (UInt8.ofNat v).toNat = v := toNat_ofNat_of_lt (by omega)
  have hlow : UInt8.ofNat v < 0x80 := by
    rw [UInt8.lt_iff_toNat_lt, hb]
    exact Nat.lt_succ_of_le h
  rw [next, if_pos hlow, hb]

theorem next_two {v : Nat} (hlow : 127 < v) (hhigh : v ≤ 2047) (bs : List UInt8) :
    next (UInt8.ofNat (v / 64 % 32 + 192)) (UInt8.ofNat (v % 64 + 128) :: bs) =
      (some (Char.ofNat v), bs) := by
  have hsum : v / 64 % 32 * 64 + v % 64 = v := by omega
  have hlead := lead?_two (n := v / 64 % 32) (by omega) (by omega)
  rw [next_of_lead _ (by omega) (by omega) hlead]
  dsimp only
  rw [tail_trail, tail_zero, hsum, Option.map_some]

theorem next_three {v : Nat} (hlow : 2047 < v) (hhigh : v ≤ 65535)
    (hvalid : v < 0xD800 ∨ 0xDFFF < v) (bs : List UInt8) :
    next (UInt8.ofNat (v / 4096 % 16 + 224))
        (UInt8.ofNat (v / 64 % 64 + 128) :: UInt8.ofNat (v % 64 + 128) :: bs) =
      (some (Char.ofNat v), bs) := by
  have hsum : (v / 4096 % 16 * 64 + v / 64 % 64) * 64 + v % 64 = v := by omega
  have hlead := lead?_three (n := v / 4096 % 16) (by omega)
  rw [next_of_lead _ (by omega) (by omega) hlead]
  dsimp only
  rw [tail_cons, tail_trail, tail_zero, hsum, Option.map_some]
  · split <;> simp only [UInt8.toNat_ofNat] <;> omega
  · split <;> simp only [UInt8.toNat_ofNat] <;> omega

theorem next_four {v : Nat} (hlow : 65535 < v) (hhigh : v < 0x110000) (bs : List UInt8) :
    next (UInt8.ofNat (v / 262144 % 8 + 240))
        (UInt8.ofNat (v / 4096 % 64 + 128) :: UInt8.ofNat (v / 64 % 64 + 128) ::
          UInt8.ofNat (v % 64 + 128) :: bs) =
      (some (Char.ofNat v), bs) := by
  have hsum : ((v / 262144 % 8 * 64 + v / 4096 % 64) * 64 + v / 64 % 64) * 64 + v % 64 = v := by omega
  have hlead := lead?_four (n := v / 262144 % 8) (by omega)
  rw [next_of_lead _ (by omega) (by omega) hlead]
  dsimp only
  rw [tail_cons, tail_trail, tail_trail, tail_zero, hsum, Option.map_some]
  · split <;> simp only [UInt8.toNat_ofNat] <;> omega
  · split <;> simp only [UInt8.toNat_ofNat] <;> omega

theorem scan_encodeChar (c : Char) (bs : List UInt8) :
    scan (String.utf8EncodeChar c ++ bs) = some c :: scan bs := by
  have hvalid := toNat_valid c
  have hchar : Char.ofNat c.val.toNat = c := Char.ofNat_toNat c
  have hval : c.toNat = c.val.toNat := rfl
  rw [hval] at hvalid
  simp only [String.utf8EncodeChar]
  split
  · next hone => rw [List.singleton_append, scan_cons, next_one hone, hchar]
  · next hone =>
    split
    · next htwo =>
      rw [List.cons_append, List.singleton_append, scan_cons, next_two (by omega) htwo, hchar]
    · next htwo =>
      split
      · next hthree =>
        simp only [List.cons_append, List.nil_append]
        rw [scan_cons, next_three (by omega) hthree (by omega), hchar]
      · next hthree =>
        simp only [List.cons_append, List.nil_append]
        rw [scan_cons, next_four (by omega) (by omega), hchar]

theorem scan_encode (cs : List Char) (bs : List UInt8) :
    scan (encode cs ++ bs) = cs.map some ++ scan bs := by
  induction cs with
  | nil => rfl
  | cons c cs ih =>
    rw [encode, List.flatMap_cons, List.append_assoc, scan_encodeChar]
    exact congrArg (some c :: ·) ih

theorem scan_encode_eq (cs : List Char) : scan (encode cs) = cs.map some := by
  have hnil : scan [] = [] := by simp [scan, scanFrom]
  have hscan := scan_encode cs []
  rwa [List.append_nil, hnil, List.append_nil] at hscan

theorem decodeLossy_encode (cs : List Char) : decodeLossy (encode cs) = cs := by
  rw [decodeLossy, scan_encode_eq, List.map_map]
  exact List.map_id cs

theorem decode?_encode (cs : List Char) : decode? (encode cs) = some cs := by
  rw [decode?, scan_encode_eq, List.mapM_map]
  have hall : cs.mapM (id ∘ some) = pure (cs.map id) := List.mapM_pure (m := Option) (f := id)
  rw [hall, List.map_id, Option.pure_def]

theorem lead?_cases {b : UInt8} {l : Lead} (h : lead? b = some l) :
    128 ≤ l.low.toNat ∧ l.high.toNat ≤ 191 ∧
      ((b = UInt8.ofNat (l.bits + 192) ∧ 2 ≤ l.bits ∧ l.bits < 32 ∧ l.tail = 1) ∨
      (b = UInt8.ofNat (l.bits + 224) ∧ l.bits < 16 ∧ (l.bits = 0 → 160 ≤ l.low.toNat) ∧
        (l.bits = 13 → l.high.toNat < 160) ∧ l.tail = 2) ∨
      (b = UInt8.ofNat (l.bits + 240) ∧ l.bits < 5 ∧ (l.bits = 0 → 144 ≤ l.low.toNat) ∧
        (l.bits = 4 → l.high.toNat < 144) ∧ l.tail = 3)) := by
  have hoff : ∀ k ≤ b.toNat, b = UInt8.ofNat (b.toNat - k + k) := by
    intro k hk
    rw [Nat.sub_add_cancel hk, UInt8.ofNat_toNat]
  have hrange : 194 ≤ b.toNat ∧ b.toNat ≤ 244 := by
    by_contra hout
    have hnone : lead? b = none := by
      simp only [lead?, UInt8.le_iff_toNat_le, ← UInt8.toNat_inj, UInt8.toNat_ofNat]
      grind
    rw [hnone] at h
    cases h
  rcases Nat.lt_or_ge b.toNat 224 with htwo | hthree
  · have hb := hoff 192 (by omega)
    rw [hb, lead?_two (by omega) (by omega)] at h
    rw [← Option.some.inj h]
    have hlow : 2 ≤ b.toNat - 192 := by omega
    have hhigh : b.toNat - 192 < 32 := by omega
    exact ⟨Nat.le_refl 128, Nat.le_refl 191, .inl ⟨hb, hlow, hhigh, rfl⟩⟩
  · rcases Nat.lt_or_ge b.toNat 240 with hlt | hfour
    · have hb := hoff 224 hthree
      rw [hb, lead?_three (by omega)] at h
      rw [← Option.some.inj h]
      dsimp only
      refine ⟨by split <;> decide, by split <;> decide, .inr (.inl ⟨hb, by omega, ?_, ?_, rfl⟩)⟩
      · intro hn
        rw [if_pos hn]
        decide
      · intro hn
        rw [if_pos hn]
        decide
    · have hb := hoff 240 hfour
      rw [hb, lead?_four (by omega)] at h
      rw [← Option.some.inj h]
      dsimp only
      refine ⟨by split <;> decide, by split <;> decide, .inr (.inr ⟨hb, by omega, ?_, ?_, rfl⟩)⟩
      · intro hn
        rw [if_pos hn]
        decide
      · intro hn
        rw [if_pos hn]
        decide

theorem tail_succ_eq_some {n bits v : Nat} {low high : UInt8} {bs rest : List UInt8}
    (hlow : 128 ≤ low.toNat) (hhigh : high.toNat ≤ 191)
    (h : tail (n + 1) low high bits bs = (some v, rest)) :
    ∃ d more, d < 64 ∧ bs = UInt8.ofNat (d + 128) :: more ∧ low.toNat ≤ d + 128 ∧
      d + 128 ≤ high.toNat ∧ tail n 0x80 0xBF (bits * 64 + d) more = (some v, rest) := by
  cases bs with
  | nil => cases h
  | cons b more =>
    rw [tail] at h
    split at h
    · next hin =>
      have hin : low.toNat ≤ b.toNat ∧ b.toNat ≤ high.toNat := hin
      have hd : b.toNat % 64 + 128 = b.toNat := by omega
      exact ⟨b.toNat % 64, more, by omega, by rw [hd, UInt8.ofNat_toNat], by omega, by omega, h⟩
    · cases h

theorem tail_zero_eq_some {bits v : Nat} {low high : UInt8} {bs rest : List UInt8}
    (h : tail 0 low high bits bs = (some v, rest)) : v = bits ∧ rest = bs := by
  rw [tail] at h
  cases h
  exact ⟨rfl, rfl⟩

theorem val_ofNat {v : Nat} (h : v < 0xD800 ∨ (0xDFFF < v ∧ v < 0x110000)) :
    (Char.ofNat v).val.toNat = v := by
  have hvalid : v.isValidChar := h
  rw [Char.ofNat, dif_pos hvalid]
  rfl

theorem encodeChar_two {n d : Nat} (hlow : 2 ≤ n) (hhigh : n < 32) (hd : d < 64) :
    String.utf8EncodeChar (Char.ofNat (n * 64 + d)) =
      [UInt8.ofNat (n + 192), UInt8.ofNat (d + 128)] := by
  have hn : (n * 64 + d) / 64 % 32 = n := by omega
  have hd : (n * 64 + d) % 64 = d := by omega
  rw [String.utf8EncodeChar, val_ofNat (by omega), if_neg (by omega), if_pos (by omega), hn, hd]

theorem encodeChar_three {n d e : Nat} (hn : n < 16) (hlow : n = 0 → 32 ≤ d)
    (hhigh : n = 13 → d < 32) (hd : d < 64) (he : e < 64) :
    String.utf8EncodeChar (Char.ofNat ((n * 64 + d) * 64 + e)) =
      [UInt8.ofNat (n + 224), UInt8.ofNat (d + 128), UInt8.ofNat (e + 128)] := by
  have hn : ((n * 64 + d) * 64 + e) / 4096 % 16 = n := by omega
  have hd : ((n * 64 + d) * 64 + e) / 64 % 64 = d := by omega
  have he : ((n * 64 + d) * 64 + e) % 64 = e := by omega
  rw [String.utf8EncodeChar, val_ofNat (by omega), if_neg (by omega), if_neg (by omega),
    if_pos (by omega), hn, hd, he]

theorem encodeChar_four {n d e f : Nat} (hn : n < 5) (hlow : n = 0 → 16 ≤ d)
    (hhigh : n = 4 → d < 16) (hd : d < 64) (he : e < 64) (hf : f < 64) :
    String.utf8EncodeChar (Char.ofNat (((n * 64 + d) * 64 + e) * 64 + f)) =
      [UInt8.ofNat (n + 240), UInt8.ofNat (d + 128), UInt8.ofNat (e + 128),
        UInt8.ofNat (f + 128)] := by
  have hn : (((n * 64 + d) * 64 + e) * 64 + f) / 262144 % 8 = n := by omega
  have hd : (((n * 64 + d) * 64 + e) * 64 + f) / 4096 % 64 = d := by omega
  have he : (((n * 64 + d) * 64 + e) * 64 + f) / 64 % 64 = e := by omega
  have hf : (((n * 64 + d) * 64 + e) * 64 + f) % 64 = f := by omega
  rw [String.utf8EncodeChar, val_ofNat (by omega), if_neg (by omega), if_neg (by omega),
    if_neg (by omega), hn, hd, he, hf]

theorem eq_encodeChar_of_next {b : UInt8} {bs rest : List UInt8} {c : Char}
    (h : next b bs = (some c, rest)) : b :: bs = String.utf8EncodeChar c ++ rest := by
  unfold next at h
  split at h
  · next hone =>
    cases h
    have hlt : b.toNat < 128 := hone
    rw [String.utf8EncodeChar, val_ofNat (by omega), if_pos (by omega), List.singleton_append,
      UInt8.ofNat_toNat]
  · split at h
    · cases h
    · next l hlead =>
      obtain ⟨hcode, hrest⟩ := Prod.mk.inj h
      obtain ⟨v, hv, rfl⟩ := Option.map_eq_some_iff.mp hcode
      have htail : tail l.tail l.low l.high l.bits bs = (some v, rest) := Prod.ext hv hrest
      obtain ⟨hlow, hhigh, hcases⟩ := lead?_cases hlead
      rcases hcases with ⟨rfl, htwo, hlt, hn⟩ | ⟨rfl, hlt, hfirst, hlast, hn⟩ | ⟨rfl, hlt, hfirst, hlast, hn⟩
      · rw [hn] at htail
        obtain ⟨d, more, hd, rfl, -, -, hdone⟩ := tail_succ_eq_some hlow hhigh htail
        obtain ⟨rfl, rfl⟩ := tail_zero_eq_some hdone
        rw [encodeChar_two htwo hlt hd]
        rfl
      · rw [hn] at htail
        obtain ⟨d, more, hd, rfl, hdlow, hdhigh, htail⟩ := tail_succ_eq_some hlow hhigh htail
        obtain ⟨e, more, he, rfl, -, -, hdone⟩ := tail_succ_eq_some (by decide) (by decide) htail
        obtain ⟨rfl, rfl⟩ := tail_zero_eq_some hdone
        rw [encodeChar_three hlt (by omega) (by omega) hd he]
        rfl
      · rw [hn] at htail
        obtain ⟨d, more, hd, rfl, hdlow, hdhigh, htail⟩ := tail_succ_eq_some hlow hhigh htail
        obtain ⟨e, more, he, rfl, -, -, htail⟩ := tail_succ_eq_some (by decide) (by decide) htail
        obtain ⟨f, more, hf, rfl, -, -, hdone⟩ := tail_succ_eq_some (by decide) (by decide) htail
        obtain ⟨rfl, rfl⟩ := tail_zero_eq_some hdone
        rw [encodeChar_four hlt (by omega) (by omega) hd he hf]
        rfl

theorem decode?_nil : decode? [] = some [] := decode?_encode []

theorem decode?_cons (b : UInt8) (bs : List UInt8) :
    decode? (b :: bs) =
      (next b bs).1.bind fun c => (decode? (next b bs).2).map fun cs => c :: cs := by
  rw [decode?, scan_cons, List.mapM_cons]
  simp only [id_eq, Option.bind_eq_bind, Option.pure_def, Option.map_eq_bind]
  rfl

theorem eq_encode_of_decode? {bs : List UInt8} {cs : List Char} (h : decode? bs = some cs) :
    bs = encode cs := by
  induction cs generalizing bs with
  | nil =>
    cases bs with
    | nil => rfl
    | cons b bs =>
      rw [decode?_cons] at h
      obtain ⟨c, -, hmap⟩ := Option.bind_eq_some_iff.mp h
      obtain ⟨cs, -, hcs⟩ := Option.map_eq_some_iff.mp hmap
      cases hcs
  | cons c cs ih =>
    cases bs with
    | nil =>
      rw [decode?_nil] at h
      cases h
    | cons b bs =>
      rw [decode?_cons] at h
      obtain ⟨c, hc, hmap⟩ := Option.bind_eq_some_iff.mp h
      obtain ⟨cs, hcs, heq⟩ := Option.map_eq_some_iff.mp hmap
      cases heq
      have hnext : next b bs = (some c, encode cs) := Prod.ext hc (ih hcs)
      rw [eq_encodeChar_of_next hnext, encode, encode, List.flatMap_cons]

theorem decode?_eq_some_iff {bs : List UInt8} {cs : List Char} :
    decode? bs = some cs ↔ bs = encode cs := by
  constructor
  · exact eq_encode_of_decode?
  · rintro rfl
    exact decode?_encode cs

theorem decode?_eq_none_iff {bs : List UInt8} : decode? bs = none ↔ ∀ cs, bs ≠ encode cs := by
  simp only [Option.eq_none_iff_forall_ne_some, ne_eq, decode?_eq_some_iff]

theorem text?_bytes (s : String) : text? (bytes s) = some s := by
  rw [text?, bytes, decode?_encode, Option.map_some, String.ofList_toList]

end LanguageSessions.Utf8
