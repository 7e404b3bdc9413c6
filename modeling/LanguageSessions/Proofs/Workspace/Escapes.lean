import LanguageSessions.Proofs.Workspace.Uri

namespace LanguageSessions.Uri

inductive WritesDigit : Nat → UInt8 → Prop
  | decimal {n : Nat} (h : n < 10) : WritesDigit n (UInt8.ofNat ('0'.toNat + n))
  | upper {n : Nat} (h : n < 6) : WritesDigit (10 + n) (UInt8.ofNat ('A'.toNat + n))
  | lower {n : Nat} (h : n < 6) : WritesDigit (10 + n) (UInt8.ofNat ('a'.toNat + n))

def HasDigits (bs : List UInt8) : Prop :=
  ∃ m n high low rest, WritesDigit m high ∧ WritesDigit n low ∧ bs = high :: low :: rest

/-- The bytes that a text denotes, read from left to right. -/
inductive Denotes : List UInt8 → List UInt8 → Prop
  | nil : Denotes [] []
  | escape {m n : Nat} {high low : UInt8} {bs cs : List UInt8} (hhigh : WritesDigit m high)
      (hlow : WritesDigit n low) (rest : Denotes bs cs) :
      Denotes (37 :: high :: low :: bs) (UInt8.ofNat (16 * m + n) :: cs)
  | byte {b : UInt8} {bs cs : List UInt8} (h : b = 37 → ¬HasDigits bs) (rest : Denotes bs cs) :
      Denotes (b :: bs) (b :: cs)

def Whole (bs : List UInt8) : Prop := ∀ front back, bs = front ++ 37 :: back → HasDigits back

theorem Denotes.plain {b : UInt8} {bs cs : List UInt8} (hb : b ≠ 37) (rest : Denotes bs cs) :
    Denotes (b :: bs) (b :: cs) :=
  .byte (fun h => absurd h hb) rest

theorem hexValue?_of_writesDigit {n : Nat} {d : UInt8} (h : WritesDigit n d) :
    hexValue? d = some (UInt8.ofNat n) ∧ n < 16 ∧ d ≠ 37 := by
  cases h with
  | decimal h => interval_cases n <;> decide
  | @upper n h => interval_cases n <;> decide
  | @lower n h => interval_cases n <;> decide

theorem writesDigit_of_hexValue? {d v : UInt8} (h : hexValue? d = some v) :
    ∃ n, WritesDigit n d := by
  have hd : UInt8.ofNat d.toNat = d := UInt8.ofNat_toNat
  unfold hexValue? at h
  simp only [UInt8.le_iff_toNat_le, UInt8.reduceToNat] at h
  split at h
  · next hdigit =>
    obtain ⟨n, hn⟩ := Nat.exists_eq_add_of_le hdigit.1
    rw [← hd, hn]
    exact ⟨n, .decimal (by omega)⟩
  · split at h
    · next hdigit =>
      obtain ⟨n, hn⟩ := Nat.exists_eq_add_of_le hdigit.1
      rw [← hd, hn]
      exact ⟨10 + n, .upper (by omega)⟩
    · split at h
      · next hdigit =>
        obtain ⟨n, hn⟩ := Nat.exists_eq_add_of_le hdigit.1
        rw [← hd, hn]
        exact ⟨10 + n, .lower (by omega)⟩
      · cases h

theorem decodeBytes_escape {m n : Nat} {high low : UInt8} (hhigh : WritesDigit m high)
    (hlow : WritesDigit n low) (rest : List UInt8) :
    decodeBytes (37 :: high :: low :: rest) = UInt8.ofNat (16 * m + n) :: decodeBytes rest := by
  obtain ⟨hvalue, hm, -⟩ := hexValue?_of_writesDigit hhigh
  obtain ⟨hvalue', hn, -⟩ := hexValue?_of_writesDigit hlow
  have hjoin := join_halves (UInt8.ofNat (16 * m + n))
  have hhalf : (16 * m + n) / 16 = m := by omega
  have hhalf' : (16 * m + n) % 16 = n := by omega
  rw [Utf8.toNat_ofNat_of_lt (by omega), hhalf, hhalf'] at hjoin
  rw [decodeBytes, if_pos rfl, hvalue, hvalue']
  dsimp only
  rw [hjoin]

theorem decodeBytes_stray {bs : List UInt8} (h : ¬HasDigits bs) :
    decodeBytes (37 :: bs) = 37 :: decodeBytes (bs.drop 2) := by
  rcases bs with _ | ⟨high, _ | ⟨low, rest⟩⟩
  · simp [decodeBytes]
  · simp [decodeBytes]
  · rw [decodeBytes, if_pos rfl]
    split
    · next hhigh hlow =>
      obtain ⟨m, hm⟩ := writesDigit_of_hexValue? hhigh
      obtain ⟨n, hn⟩ := writesDigit_of_hexValue? hlow
      exact absurd ⟨m, n, high, low, rest, hm, hn, rfl⟩ h
    · rfl

theorem exists_denotes (bs : List UInt8) : ∃ cs, Denotes bs cs := by
  induction h : bs.length using Nat.strong_induction_on generalizing bs with
  | _ length ih =>
    subst h
    cases bs with
    | nil => exact ⟨[], .nil⟩
    | cons b bs =>
      by_cases hescape : b = 37 ∧ HasDigits bs
      · obtain ⟨rfl, m, n, high, low, rest, hhigh, hlow, rfl⟩ := hescape
        obtain ⟨cs, hrest⟩ := ih rest.length (by simp; omega) rest rfl
        exact ⟨_, .escape hhigh hlow hrest⟩
      · obtain ⟨cs, hrest⟩ := ih bs.length (by simp) bs rfl
        exact ⟨_, .byte (fun hb hdigits => hescape ⟨hb, hdigits⟩) hrest⟩

theorem WritesDigit.unique {m n : Nat} {d : UInt8} (hm : WritesDigit m d) (hn : WritesDigit n d) :
    m = n := by
  obtain ⟨hvalue, hlt, -⟩ := hexValue?_of_writesDigit hm
  obtain ⟨hvalue', hlt', -⟩ := hexValue?_of_writesDigit hn
  have heq := congrArg UInt8.toNat (Option.some.inj (hvalue.symm.trans hvalue'))
  rwa [Utf8.toNat_ofNat_of_lt (by omega), Utf8.toNat_ofNat_of_lt (by omega)] at heq

theorem Denotes.unique {bs cs ds : List UInt8} (hcs : Denotes bs cs) (hds : Denotes bs ds) :
    cs = ds := by
  induction hcs generalizing ds with
  | nil =>
    cases hds
    rfl
  | escape hhigh hlow _ ih =>
    cases hds with
    | escape hhigh' hlow' hrest => rw [hhigh.unique hhigh', hlow.unique hlow', ih hrest]
    | byte h _ => exact absurd ⟨_, _, _, _, _, hhigh, hlow, rfl⟩ (h rfl)
  | byte h _ ih =>
    cases hds with
    | escape hhigh hlow _ => exact absurd ⟨_, _, _, _, _, hhigh, hlow, rfl⟩ (h rfl)
    | byte _ hrest => rw [ih hrest]

theorem Whole.of_cons {b : UInt8} {bs : List UInt8} (h : Whole (b :: bs)) : Whole bs :=
  fun front back heq => h (b :: front) back (by rw [heq, List.cons_append])

theorem whole_cons {b : UInt8} {bs : List UInt8} (hb : b ≠ 37) (h : Whole bs) : Whole (b :: bs) := by
  intro front back heq
  cases front with
  | nil => exact absurd (List.cons.inj heq).1 hb
  | cons c front => exact h front back (List.cons.inj heq).2

theorem whole_escape {m n : Nat} {high low : UInt8} {bs : List UInt8} (hhigh : WritesDigit m high)
    (hlow : WritesDigit n low) (h : Whole bs) : Whole (37 :: high :: low :: bs) := by
  have hdigits : Whole (high :: low :: bs) :=
    whole_cons (hexValue?_of_writesDigit hhigh).2.2 (whole_cons (hexValue?_of_writesDigit hlow).2.2 h)
  intro front back heq
  cases front with
  | nil =>
    obtain ⟨-, rfl⟩ := List.cons.inj heq
    exact ⟨m, n, high, low, bs, hhigh, hlow, rfl⟩
  | cons c front => exact hdigits front back (List.cons.inj heq).2

theorem Denotes.append {front back cs ds : List UInt8} (h : Denotes front cs) (hw : Whole front)
    (hback : Denotes back ds) : Denotes (front ++ back) (cs ++ ds) := by
  induction h with
  | nil => exact hback
  | @escape m n high low bs cs hhigh hlow _ ih =>
    exact .escape hhigh hlow (ih hw.of_cons.of_cons.of_cons)
  | @byte b bs cs h _ ih =>
    refine .byte (fun hb => absurd (hw [] bs ?_) (h hb)) (ih hw.of_cons)
    rw [hb, List.nil_append]

theorem Denotes.decodeBytes_append {front cs : List UInt8} (h : Denotes front cs)
    (hw : Whole front) (back : List UInt8) :
    decodeBytes (front ++ back) = cs ++ decodeBytes back := by
  induction h with
  | nil => rfl
  | @escape m n high low bs cs hhigh hlow _ ih =>
    have hrest := ih hw.of_cons.of_cons.of_cons
    rw [List.cons_append, List.cons_append, List.cons_append, decodeBytes_escape hhigh hlow, hrest,
      List.cons_append]
  | @byte b bs cs h _ ih =>
    have hrest := ih hw.of_cons
    have hb : b ≠ 37 := by
      rintro rfl
      exact h rfl (hw [] bs rfl)
    rw [List.cons_append, decodeBytes_cons hb, hrest, List.cons_append]

theorem whole_or_stray (bs : List UInt8) :
    Whole bs ∨ ∃ front back, Whole front ∧ ¬HasDigits back ∧ bs = front ++ 37 :: back := by
  obtain ⟨cs, h⟩ := exists_denotes bs
  induction h with
  | nil =>
    refine .inl fun front back heq => ?_
    cases front <;> cases heq
  | @escape m n high low bs cs hhigh hlow _ ih =>
    rcases ih with hw | ⟨front, back, hw, hback, rfl⟩
    · exact .inl (whole_escape hhigh hlow hw)
    · exact .inr ⟨37 :: high :: low :: front, back, whole_escape hhigh hlow hw, hback, rfl⟩
  | @byte b bs cs h _ ih =>
    by_cases hb : b = 37
    · subst hb
      refine .inr ⟨[], bs, fun front back heq => ?_, h rfl, rfl⟩
      cases front <;> cases heq
    · rcases ih with hw | ⟨front, back, hw, hback, rfl⟩
      · exact .inl (whole_cons hb hw)
      · exact .inr ⟨b :: front, back, whole_cons hb hw, hback, rfl⟩

/-- How the bytes of a text are read, against what they denote. -/
structure ReadsEscapes (bs : List UInt8) : Prop where
  denotes : ∃! cs, Denotes bs cs
  kept : (∀ front back, bs = front ++ 37 :: back → back = [] ∨ HasDigits back) →
    Denotes bs (decodeBytes bs)
  stray : ∀ front back cs ds, bs = front ++ 37 :: back → Whole front → ¬HasDigits back →
    Denotes front cs → Denotes back ds →
    Denotes bs (cs ++ 37 :: ds) ∧ decodeBytes bs = cs ++ 37 :: decodeBytes (back.drop 2)

theorem stray_read {front back cs ds : List UInt8} (hw : Whole front) (hback : ¬HasDigits back)
    (hcs : Denotes front cs) (hds : Denotes back ds) :
    Denotes (front ++ 37 :: back) (cs ++ 37 :: ds) ∧
      decodeBytes (front ++ 37 :: back) = cs ++ 37 :: decodeBytes (back.drop 2) := by
  refine ⟨hcs.append hw (.byte (fun _ => hback) hds), ?_⟩
  rw [hcs.decodeBytes_append hw, decodeBytes_stray hback]

theorem readsEscapes (bs : List UInt8) : ReadsEscapes bs := by
  obtain ⟨cs, hcs⟩ := exists_denotes bs
  refine ⟨⟨cs, hcs, fun ds hds => hds.unique hcs⟩, fun hends => ?_, ?_⟩
  · rcases whole_or_stray bs with hw | ⟨front, back, hw, hback, rfl⟩
    · have hread := hcs.decodeBytes_append hw []
      rw [List.append_nil, decodeBytes, List.append_nil] at hread
      rwa [hread]
    · -- a stray sign can only be the last byte, and then there is nothing it takes along
      obtain rfl := (hends front back rfl).resolve_right hback
      obtain ⟨ds, hds⟩ := exists_denotes front
      obtain ⟨hdenotes, hread⟩ := stray_read hw hback hds .nil
      rwa [hread, List.drop_nil, decodeBytes]
  · rintro front back cs ds rfl hw hback hfront hds
    exact stray_read hw hback hfront hds

theorem escapes_read (s : String) :
    toPath (scheme ++ s) = String.ofList (Utf8.decodeLossy (decodeBytes (Utf8.bytes s))) ∧
      ReadsEscapes (Utf8.bytes s) := by
  refine ⟨?_, readsEscapes _⟩
  have hscheme : (scheme ++ s).startsWith scheme = true := by
    rw [String.startsWith_string_iff, String.toList_append]
    exact List.prefix_append _ _
  have hlength : scheme.length = scheme.toList.length := rfl
  rw [toPath, if_pos hscheme, String.toList_append, hlength, List.drop_left, ← Utf8.bytes]

theorem stray_sign_loses_bytes :
    Denotes (Utf8.bytes "/%zzb") (Utf8.bytes "/%zzb") ∧ toPath "file:///%zzb" = "/%b" := by
  constructor
  · have hbytes : Utf8.bytes "/%zzb" = [47, 37, 122, 122, 98] := by decide +kernel
    have hdigits : ¬HasDigits [122, 122, 98] := by
      rintro ⟨m, n, high, low, rest, hhigh, -, heq⟩
      obtain rfl := (List.cons.inj heq).1
      have hvalue := (hexValue?_of_writesDigit hhigh).1
      have hnone : hexValue? 122 = none := by decide
      rw [hnone] at hvalue
      cases hvalue
    rw [hbytes]
    exact .plain (by decide) (.byte (fun _ => hdigits)
      (.plain (by decide) (.plain (by decide) (.plain (by decide) .nil))))
  · decide +kernel

end LanguageSessions.Uri
