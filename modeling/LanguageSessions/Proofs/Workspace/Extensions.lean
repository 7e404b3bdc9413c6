import Mathlib
import LanguageSessions.Proofs.Workspace.Path
import LanguageSessions.Workspace.Project

namespace LanguageSessions

theorem isUpper_of_not_isAlpha {c : Char} (h : c.isAlpha = false) : ¬c.isUpper = true := by
  intro hupper
  rw [Char.isAlpha, hupper] at h
  cases h

theorem toLower_eq_iff {c d : Char} (hd : d.isAlpha = false) : c.toLower = d ↔ c = d := by
  constructor
  · rintro rfl
    rw [Char.isAlpha_toLower_eq_isAlpha] at hd
    exact (Char.toLower_eq_of_not_isUpper (isUpper_of_not_isAlpha hd)).symm
  · rintro rfl
    exact Char.toLower_eq_of_not_isUpper (isUpper_of_not_isAlpha hd)

theorem map_toLower_eq_iff {cs ds : List Char} (hds : ∀ d ∈ ds, d.isAlpha = false) :
    cs.map Char.toLower = ds ↔ cs = ds := by
  induction cs generalizing ds with
  | nil => simp
  | cons c cs ih =>
    cases ds with
    | nil => simp
    | cons d ds =>
      have hd := List.forall_mem_cons.mp hds
      rw [List.map_cons, List.cons_eq_cons, List.cons_eq_cons, toLower_eq_iff hd.1, ih hd.2]

theorem toList_asciiLower (s : String) : (asciiLower s).toList = s.toList.map Char.toLower :=
  String.toList_map

theorem asciiLower_eq_iff {s t : String} (ht : ∀ c ∈ t.toList, c.isAlpha = false) :
    asciiLower s = t ↔ s = t := by
  rw [← String.toList_inj, ← String.toList_inj, toList_asciiLower, map_toLower_eq_iff ht]

theorem asciiLower_asciiLower (s : String) : asciiLower (asciiLower s) = asciiLower s := by
  rw [← String.toList_inj, toList_asciiLower, toList_asciiLower, List.map_map]
  exact List.map_congr_left fun c _ => Char.toLower_toLower_eq_toLower c

theorem splitOn_map_toLower {sep : Char} (hsep : sep.isAlpha = false) (cs : List Char) :
    (cs.map Char.toLower).splitOn sep = (cs.splitOn sep).map (List.map Char.toLower) := by
  induction cs with
  | nil => simp
  | cons c cs ih =>
    obtain ⟨first, rest, hrest⟩ := List.exists_cons_of_ne_nil (List.splitOn_ne_nil sep cs)
    rw [List.map_cons, List.splitOn_cons_eq_if_modifyHead, List.splitOn_cons_eq_if_modifyHead, ih,
      hrest]
    by_cases hc : c = sep
    · simp [hc, (toLower_eq_iff hsep).mpr rfl]
    · have hlower : ¬c.toLower = sep := (toLower_eq_iff hsep).not.mpr hc
      simp [hc, hlower]

theorem splitOn_asciiLower (sep : Char) (hsep : sep.isAlpha = false) (s : String) :
    (asciiLower s).splitOn (String.singleton sep) =
      (s.splitOn (String.singleton sep)).map asciiLower := by
  rw [splitOn_singleton, splitOn_singleton, toList_asciiLower, splitOn_map_toLower hsep,
    List.map_map, List.map_map]
  refine List.map_congr_left fun cs _ => ?_
  rw [← String.toList_inj]
  simp [toList_asciiLower]

namespace Path

theorem fileName?_eq (p : String) :
    fileName? p = (names (pieces p)).getLast?.filter (· != "..") := by
  have hsteps : steps p = (if isAbsolute p then [Step.root]
      else if (pieces p).head? == some "." then [Step.here] else []) ++
      (names (pieces p)).map stepOf := rfl
  rw [fileName?, hsteps]
  rcases List.eq_nil_or_concat (names (pieces p)) with hnil | ⟨init, s, hlast⟩
  · rw [hnil]
    split_ifs <;> rfl
  · rw [hlast, List.concat_eq_append, List.map_append, ← List.append_assoc, List.map_singleton,
      List.getLast?_concat, List.getLast?_concat, stepOf]
    by_cases hup : s = ".." <;> simp [hup, Option.filter_some]

theorem names_map_asciiLower (ps : List String) :
    names (ps.map asciiLower) = (names ps).map asciiLower := by
  have hvoid (s : String) : isVoid (asciiLower s) = isVoid s := by
    rw [Bool.eq_iff_iff, isVoid, isVoid]
    simp only [Bool.or_eq_true, beq_iff_eq]
    rw [asciiLower_eq_iff (by simp), asciiLower_eq_iff (by simp)]
  rw [names, names, List.filter_map]
  congr 1
  exact List.filter_congr fun s _ => by simp [hvoid]

theorem fileName?_asciiLower (p : String) :
    fileName? (asciiLower p) = (fileName? p).map asciiLower := by
  have hpieces : pieces (asciiLower p) = (pieces p).map asciiLower :=
    splitOn_asciiLower '/' (by decide) p
  rw [fileName?_eq, fileName?_eq, hpieces, names_map_asciiLower, List.getLast?_map]
  cases (names (pieces p)).getLast? with
  | none => rfl
  | some s =>
    have hup : (asciiLower s != "..") = (s != "..") := by
      rw [Bool.eq_iff_iff, bne_iff_ne, bne_iff_ne, ne_eq, ne_eq, asciiLower_eq_iff (by simp)]
    rw [Option.map_some, Option.filter_some, Option.filter_some, hup]
    split <;> rfl

theorem extension?_of_name {p name : String} (h : fileName? p = some name) :
    extension? p =
      if (name.splitOn ".").length < 2 ∨
        (name.splitOn ".").length = 2 ∧ (name.splitOn ".").head? = some "" then none
      else (name.splitOn ".").getLast? := by
  rw [extension?, h, Option.bind_some]
  rcases name.splitOn "." with _ | ⟨a, _ | ⟨b, _ | ⟨c, rest⟩⟩⟩
  · rfl
  · rfl
  · by_cases ha : a = "" <;> simp [ha]
  · simp

theorem extension?_asciiLower (p : String) :
    extension? (asciiLower p) = (extension? p).map asciiLower := by
  have hname := fileName?_asciiLower p
  cases h : fileName? p with
  | none =>
    rw [h] at hname
    rw [extension?, extension?, h, hname]
    rfl
  | some name =>
    rw [h] at hname
    have hparts : (asciiLower name).splitOn "." = (name.splitOn ".").map asciiLower :=
      splitOn_asciiLower '.' (by decide) name
    have hhead : ((name.splitOn ".").map asciiLower).head? = some "" ↔
        (name.splitOn ".").head? = some "" := by
      cases name.splitOn "." with
      | nil => rfl
      | cons a rest => simp [asciiLower_eq_iff]
    rw [extension?_of_name h, extension?_of_name hname, hparts, List.length_map, List.getLast?_map]
    simp only [hhead]
    split <;> rfl

theorem fileName?_join (dir : String) {name : String} (h : IsName name) :
    fileName? (join dir name) = some name := by
  have hnames : names (pieces name) = [name] := by
    rw [h.pieces_eq, names_cons h.said]
    rfl
  have hlast : (names (pieces (join dir name))).getLast? = some name := by
    by_cases hdir : dir = ""
    · have hjoin : join dir name = name := by simp [join, h.isAbsolute_eq, hdir]
      rw [hjoin, hnames]
      rfl
    · rw [names_join hdir h.isAbsolute_eq, hnames, List.getLast?_concat]
  rw [fileName?_eq, hlast, Option.filter_some, if_pos (by simpa using h.below)]

theorem splitOn_dot (s : String) :
    s.splitOn "." = (s.toList.splitOn '.').map String.ofList := splitOn_singleton s '.'

theorem splitOn_dot_append {stem ext : String} (hext : '.' ∉ ext.toList) :
    (stem ++ "." ++ ext).splitOn "." = stem.splitOn "." ++ [ext] := by
  have hchars : (stem ++ "." ++ ext).toList = stem.toList ++ '.' :: ext.toList := by simp
  have hlast : ext.toList.splitOn '.' = [ext.toList] := by
    have hsplit := List.splitOn_intercalate '.' (List.forall_mem_singleton.mpr hext)
      (List.cons_ne_nil _ _)
    rwa [List.intercalate_singleton] at hsplit
  rw [splitOn_dot, splitOn_dot, hchars, List.splitOn_append_cons_self, hlast, List.map_append,
    List.map_singleton, String.ofList_toList]

theorem splitOn_dot_ne {stem : String} (h : stem ≠ "") : stem.splitOn "." ≠ [""] := by
  intro hsplit
  rw [splitOn_dot] at hsplit
  obtain ⟨cs, hcs, hempty⟩ := List.map_eq_singleton_iff.mp hsplit
  have hback : ['.'].intercalate (stem.toList.splitOn '.') = stem.toList :=
    List.intercalate_splitOn '.'
  rw [hcs, List.intercalate_singleton] at hback
  rw [hback, String.ofList_toList] at hempty
  exact h hempty

theorem IsName.ne_empty {s : String} (h : IsName s) : s ≠ "" := by
  rintro rfl
  cases h.said

theorem isName_dot {stem ext : String} (hstem : IsName stem) (hext : '/' ∉ ext.toList) :
    IsName (stem ++ "." ++ ext) := by
  have hchars : (stem ++ "." ++ ext).toList = stem.toList ++ '.' :: ext.toList := by simp
  obtain ⟨c, cs, hcs⟩ :=
    List.exists_cons_of_ne_nil (String.toList_eq_nil_iff.not.mpr hstem.ne_empty)
  rw [hcs] at hchars
  have hlong {t : String} (ht : t.toList.length < 2) : stem ++ "." ++ ext ≠ t := by
    rintro rfl
    rw [hchars, List.length_append, List.length_cons, List.length_cons] at ht
    omega
  constructor
  · simp [isVoid, hlong]
  · intro heq
    rw [heq] at hchars
    cases cs with
    | nil =>
      obtain rfl : c = '.' := (List.cons.inj hchars).1.symm
      obtain rfl : stem = "." := String.toList_inj.mp hcs
      cases hstem.said
    | cons d cs =>
      have hlength := congrArg List.length hchars
      simp at hlength
  · rw [hchars, ← hcs, List.mem_append, List.mem_cons]
    rintro (hmem | hmem | hmem)
    · exact hstem.whole hmem
    · cases hmem
    · exact hext hmem

theorem extension?_join (dir : String) {stem ext : String} (hstem : IsName stem)
    (hdot : '.' ∉ ext.toList) (hslash : '/' ∉ ext.toList) :
    extension? (join dir (stem ++ "." ++ ext)) = some ext := by
  have hfirst : stem.splitOn "." ≠ [""] := splitOn_dot_ne hstem.ne_empty
  have hnil : stem.splitOn "." ≠ [] := by
    rw [splitOn_dot]
    exact List.map_eq_nil_iff.not.mpr (List.splitOn_ne_nil _ _)
  rw [extension?_of_name (fileName?_join dir (isName_dot hstem hslash)), splitOn_dot_append hdot,
    List.getLast?_concat, if_neg]
  generalize stem.splitOn "." = parts at hfirst hnil
  rcases parts with _ | ⟨a, _ | ⟨b, rest⟩⟩
  · exact absurd rfl hnil
  · simpa using hfirst
  · simp

end Path

end LanguageSessions
