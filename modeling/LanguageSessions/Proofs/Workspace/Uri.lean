import LanguageSessions.Workspace.Project
import LanguageSessions.Proofs.Text.Utf8

namespace LanguageSessions.Uri

def IsDigit (c : Char) : Prop := ('0' ≤ c ∧ c ≤ '9') ∨ ('A' ≤ c ∧ c ≤ 'F')

instance (c : Char) : Decidable (IsDigit c) :=
  inferInstanceAs (Decidable (('0' ≤ c ∧ c ≤ '9') ∨ ('A' ≤ c ∧ c ≤ 'F')))

inductive Escaped : List Char → Prop
  | nil : Escaped []
  | plain {c : Char} {cs : List Char} (hc : c.isAlphanum ∨ c ∈ ['/', '.', '-', '_', '~'])
      (rest : Escaped cs) : Escaped (c :: cs)
  | escape {high low : Char} {cs : List Char} (hhigh : IsDigit high) (hlow : IsDigit low)
      (rest : Escaped cs) : Escaped ('%' :: high :: low :: cs)

theorem Escaped.append {cs ds : List Char} (hcs : Escaped cs) (hds : Escaped ds) :
    Escaped (cs ++ ds) := by
  induction hcs with
  | nil => exact hds
  | plain hc _ ih => exact .plain hc ih
  | escape hhigh hlow _ ih => exact .escape hhigh hlow ih

theorem isDigit_hexDigit {n : Nat} (h : n < 16) : IsDigit (hexDigit n) := by
  interval_cases n <;> decide

theorem escaped_flatMap_escapeByte (bs : List UInt8) : Escaped (bs.flatMap escapeByte) := by
  induction bs with
  | nil => exact .nil
  | cons b bs ih =>
    have hlt : b.toNat < 256 := b.toNat_lt
    exact .escape (isDigit_hexDigit (by omega)) (isDigit_hexDigit (by omega)) ih

theorem isPlain_iff {c : Char} :
    isPlain c = true ↔ c.isAlphanum ∨ c ∈ ['/', '.', '-', '_', '~'] := by
  simp [isPlain, or_assoc]

theorem escaped_flatMap_encodeChar (cs : List Char) : Escaped (cs.flatMap encodeChar) := by
  induction cs with
  | nil => exact .nil
  | cons c cs ih =>
    rw [List.flatMap_cons, encodeChar]
    split
    · next hplain => exact .plain (isPlain_iff.mp hplain) ih
    · exact (escaped_flatMap_escapeByte _).append ih

theorem encodeChar_ascii {c : Char} (h : c.toNat < 128) :
    String.utf8EncodeChar c = [UInt8.ofNat c.toNat] := by
  have hval : c.val.toNat ≤ 127 := Nat.le_of_lt_succ h
  rw [String.utf8EncodeChar, if_pos hval]
  rfl

theorem toNat_of_isPlain {c : Char} (h : isPlain c = true) : c.toNat < 128 ∧ c.toNat ≠ 37 := by
  rcases isPlain_iff.mp h with halnum | hmark
  · delta Char.isAlphanum Char.isAlpha Char.isUpper Char.isLower Char.isDigit at halnum
    simp only [Bool.or_eq_true, Bool.and_eq_true, decide_eq_true_eq, ge_iff_le,
      UInt32.le_iff_toNat_le] at halnum
    change ((65 ≤ c.toNat ∧ c.toNat ≤ 90) ∨ (97 ≤ c.toNat ∧ c.toNat ≤ 122)) ∨
      (48 ≤ c.toNat ∧ c.toNat ≤ 57) at halnum
    omega
  · simp only [List.mem_cons, List.not_mem_nil, or_false] at hmark
    rcases hmark with rfl | rfl | rfl | rfl | rfl <;> decide

theorem toNat_hexDigit_lt {n : Nat} (h : n < 16) : (hexDigit n).toNat < 128 := by
  interval_cases n <;> decide

theorem hexValue?_hexDigit {n : Nat} (h : n < 16) :
    hexValue? (UInt8.ofNat (hexDigit n).toNat) = some (UInt8.ofNat n) := by
  interval_cases n <;> decide

theorem join_halves (b : UInt8) :
    UInt8.ofNat (b.toNat / 16) <<< 4 ||| UInt8.ofNat (b.toNat % 16) = b := by
  have hlt : b.toNat < 256 := b.toNat_lt
  have hshift : (b.toNat / 16) <<< 4 = b.toNat / 16 * 2 ^ 4 := Nat.shiftLeft_eq _ 4
  have hsum := Nat.shiftLeft_add_eq_or_of_lt (show b.toNat % 16 < 2 ^ 4 by omega) (b.toNat / 16)
  rw [← UInt8.toNat_inj, UInt8.toNat_or, UInt8.toNat_shiftLeft,
    Utf8.toNat_ofNat_of_lt (by omega), Utf8.toNat_ofNat_of_lt (by omega)]
  change (b.toNat / 16) <<< 4 % 256 ||| b.toNat % 16 = b.toNat
  rw [Nat.mod_eq_of_lt (by omega), ← hsum, hshift]
  omega

theorem decodeBytes_escapeByte (b : UInt8) (rest : List UInt8) :
    decodeBytes (Utf8.encode (escapeByte b) ++ rest) = b :: decodeBytes rest := by
  have hlt : b.toNat < 256 := b.toNat_lt
  have hhigh : b.toNat / 16 < 16 := by omega
  have hlow : b.toNat % 16 < 16 := by omega
  have hbytes : Utf8.encode (escapeByte b) = [37, UInt8.ofNat (hexDigit (b.toNat / 16)).toNat,
      UInt8.ofNat (hexDigit (b.toNat % 16)).toNat] := by
    rw [Utf8.encode, escapeByte, List.flatMap_cons, List.flatMap_cons, List.flatMap_cons,
      encodeChar_ascii (toNat_hexDigit_lt hhigh), encodeChar_ascii (toNat_hexDigit_lt hlow)]
    rfl
  rw [hbytes]
  simp only [List.cons_append, List.nil_append]
  rw [decodeBytes, if_pos rfl, hexValue?_hexDigit hhigh, hexValue?_hexDigit hlow]
  dsimp only
  rw [join_halves]

theorem decodeBytes_escapes (bs rest : List UInt8) :
    decodeBytes (Utf8.encode (bs.flatMap escapeByte) ++ rest) = bs ++ decodeBytes rest := by
  induction bs with
  | nil => rfl
  | cons b bs ih =>
    rw [List.flatMap_cons, Utf8.encode, List.flatMap_append, List.append_assoc]
    exact (decodeBytes_escapeByte b _).trans (congrArg (b :: ·) ih)

theorem decodeBytes_cons {b : UInt8} (h : b ≠ 37) (rest : List UInt8) :
    decodeBytes (b :: rest) = b :: decodeBytes rest := by
  rcases rest with _ | ⟨c, _ | ⟨d, rest⟩⟩
  · simp [decodeBytes]
  · simp [decodeBytes, h]
  · rw [decodeBytes, if_neg h]

theorem decodeBytes_encodeChar (c : Char) (rest : List UInt8) :
    decodeBytes (Utf8.encode (encodeChar c) ++ rest) =
      String.utf8EncodeChar c ++ decodeBytes rest := by
  rw [encodeChar]
  split
  · next hplain =>
    obtain ⟨hascii, hmark⟩ := toNat_of_isPlain hplain
    have hne : UInt8.ofNat c.toNat ≠ 37 := by
      intro heq
      have hnat := congrArg UInt8.toNat heq
      rw [Utf8.toNat_ofNat_of_lt (by omega)] at hnat
      exact hmark hnat
    rw [Utf8.encode, List.flatMap_singleton, encodeChar_ascii hascii]
    exact decodeBytes_cons hne rest
  · exact decodeBytes_escapes _ rest

theorem decodeBytes_encode (cs : List Char) :
    decodeBytes (Utf8.encode (cs.flatMap encodeChar)) = Utf8.encode cs := by
  induction cs with
  | nil => simp [Utf8.encode, decodeBytes]
  | cons c cs ih =>
    rw [List.flatMap_cons, Utf8.encode, List.flatMap_append]
    refine (decodeBytes_encodeChar c _).trans ?_
    rw [← Utf8.encode, ih, Utf8.encode, Utf8.encode, List.flatMap_cons]

theorem toList_ofPath (h : Host) (p : String) :
    (ofPath h p).toList = scheme.toList ++ (h.absolute p).toList.flatMap encodeChar := by
  rw [ofPath, String.toList_append, encode, String.toList_ofList]

theorem toPath_ofPath (h : Host) (p : String) : toPath (ofPath h p) = h.absolute p := by
  have hscheme : (ofPath h p).startsWith scheme = true := by
    rw [String.startsWith_string_iff, toList_ofPath]
    exact List.prefix_append _ _
  have hlength : scheme.length = scheme.toList.length := rfl
  rw [toPath, if_pos hscheme, toList_ofPath, hlength, List.drop_left, decodeBytes_encode,
    Utf8.decodeLossy_encode, String.ofList_toList]

end LanguageSessions.Uri

namespace LanguageSessions

theorem Path.isAbsolute_append {s : String} (h : isAbsolute s = true) (t : String) :
    isAbsolute (s ++ t) = true := by
  rw [isAbsolute, String.startsWith_string_iff] at h ⊢
  rw [String.toList_append]
  exact h.trans (List.prefix_append _ _)

theorem FileTree.isAbsolute_render (place : Place) : Path.isAbsolute (render place) = true := by
  apply Path.isAbsolute_append
  exact String.startsWith_string_iff.mpr List.prefix_rfl

namespace Host

theorem absolute_of_isAbsolute (h : Host) {p : String} (hp : Path.isAbsolute p = true) :
    h.absolute p = p := by
  rw [absolute, if_pos hp]

theorem absolute_absolute (h : Host) (p : String) : h.absolute (h.absolute p) = h.absolute p := by
  cases hp : Path.isAbsolute p with
  | true => rw [h.absolute_of_isAbsolute hp, h.absolute_of_isAbsolute hp]
  | false =>
    cases hdir : h.directory with
    | none =>
      have hself : h.absolute p = p := by
        rw [absolute, hp, hdir]
        simp [Path.join, hp]
      rw [hself, hself]
    | some dir =>
      apply absolute_of_isAbsolute
      rw [absolute, hp, hdir, Option.map_some, Option.getD_some, Path.join, hp]
      have hroot := FileTree.isAbsolute_render dir
      simp only [Bool.false_eq_true, if_false]
      split
      · exact Path.isAbsolute_append hroot p
      · exact Path.isAbsolute_append (Path.isAbsolute_append hroot "/") p

theorem absolute_canonical (h : Host) (p : String) : h.absolute (h.canonical p) = h.canonical p := by
  unfold canonical
  split
  · exact h.absolute_of_isAbsolute (FileTree.isAbsolute_render _)
  · exact h.absolute_absolute p

end Host

namespace Uri

theorem ofPath_inj (h : Host) (p q : String) :
    ofPath h p = ofPath h q ↔ h.absolute p = h.absolute q := by
  constructor
  · intro heq
    rw [← toPath_ofPath h p, heq, toPath_ofPath]
  · intro heq
    rw [ofPath, heq, ← ofPath]

/-- What URIs say of paths on one machine. -/
structure Identifies (h : Host) : Prop where
  back : ∀ p, toPath (ofPath h p) = h.absolute p
  plain : ∀ p, ∃ text, (ofPath h p).toList = scheme.toList ++ text ∧ Escaped text
  injective : ∀ p q, Path.isAbsolute p → Path.isAbsolute q → ofPath h p = ofPath h q → p = q
  key : ∀ r s c d, SessionKey.ofRoot h r c = SessionKey.ofRoot h s d ↔
    c = d ∧ h.canonical r = h.canonical s

theorem uri_identifies (h : Host) : Identifies h where
  back := toPath_ofPath h
  plain p := ⟨_, toList_ofPath h p, escaped_flatMap_encodeChar _⟩
  injective p q hp hq heq := by
    have habs := (ofPath_inj h p q).mp heq
    rwa [h.absolute_of_isAbsolute hp, h.absolute_of_isAbsolute hq] at habs
  key r s c d := by
    simp only [SessionKey.ofRoot, SessionKey.mk.injEq, ofPath_inj, h.absolute_canonical]
    exact and_comm

end Uri

end LanguageSessions
