import LanguageSessions.Proofs.Text.Split
import LanguageSessions.Workspace.Path

namespace LanguageSessions.Path

def names (ps : List String) : List String := ps.filter fun s => !isVoid s

theorem names_void {s : String} {ps : List String} (h : isVoid s = true) :
    names (s :: ps) = names ps := by
  rw [names, List.filter_cons, h]
  rfl

theorem names_cons {s : String} {ps : List String} (h : isVoid s = false) :
    names (s :: ps) = s :: names ps := by
  rw [names, List.filter_cons, h]
  rfl

theorem names_append (ps qs : List String) : names (ps ++ qs) = names ps ++ names qs :=
  List.filter_append ..

theorem pieces_eq (p : String) : pieces p = (p.toList.splitOn '/').map String.ofList :=
  splitOn_singleton p '/'

theorem pieces_ne_nil (p : String) : pieces p ≠ [] := by
  rw [pieces_eq]
  exact List.map_eq_nil_iff.not.mpr (List.splitOn_ne_nil _ _)

theorem pieces_append (a b : String) : pieces (a ++ "/" ++ b) = pieces a ++ pieces b := by
  have hchars : (a ++ "/" ++ b).toList = a.toList ++ '/' :: b.toList := by simp
  rw [pieces_eq, hchars, List.splitOn_append_cons_self, List.map_append, ← pieces_eq, ← pieces_eq]

theorem pieces_empty : pieces "" = [""] := by
  rw [pieces_eq]
  rfl

theorem pieces_intercalate {ps : List String} (hne : ps ≠ []) (h : ∀ s ∈ ps, '/' ∉ s.toList) :
    pieces (String.intercalate "/" ps) = ps := by
  have hparts : ∀ cs ∈ ps.map String.toList, '/' ∉ cs := by
    intro cs hcs
    obtain ⟨s, hs, rfl⟩ := List.mem_map.mp hcs
    exact h s hs
  have hback : ps.map (String.ofList ∘ String.toList) = ps :=
    List.map_id'' (fun s => String.ofList_toList) ps
  have hslash : "/".toList = ['/'] := rfl
  rw [pieces_eq, String.toList_intercalate, hslash,
    List.splitOn_intercalate '/' hparts (List.map_eq_nil_iff.not.mpr hne), List.map_map, hback]

structure IsName (s : String) : Prop where
  said : isVoid s = false
  below : s ≠ ".."
  whole : '/' ∉ s.toList

instance (s : String) : Decidable (IsName s) :=
  decidable_of_iff (isVoid s = false ∧ s ≠ ".." ∧ '/' ∉ s.toList)
    ⟨fun ⟨hsaid, hbelow, hwhole⟩ => ⟨hsaid, hbelow, hwhole⟩, fun h => ⟨h.said, h.below, h.whole⟩⟩

theorem IsName.pieces_eq {s : String} (h : IsName s) : pieces s = [s] := by
  have hpieces := pieces_intercalate (List.cons_ne_nil s []) (by simpa using h.whole)
  rwa [String.intercalate_singleton] at hpieces

theorem IsName.isAbsolute_eq {s : String} (h : IsName s) : isAbsolute s = false := by
  refine Bool.eq_false_iff.mpr fun habs => h.whole ?_
  rw [isAbsolute, String.startsWith_string_iff] at habs
  exact habs.subset List.mem_cons_self

theorem IsName.steps_eq {s : String} (h : IsName s) : steps s = [.into s] := by
  have hhere : s ≠ "." := by
    rintro rfl
    cases h.said
  rw [steps, h.pieces_eq, h.isAbsolute_eq, List.filter_cons, h.said]
  simp [hhere, stepOf, h.below]

theorem endsWith_slash {s : String} (h : s.endsWith "/" = true) : ∃ front, s = front ++ "/" := by
  have hsuffix : "/".toList <:+ s.toList := by
    have hslice : s.toSlice.endsWith "/" = true := h
    rw [String.Slice.endsWith_string_iff] at hslice
    simpa using hslice
  obtain ⟨front, hfront⟩ := hsuffix
  refine ⟨String.ofList front, ?_⟩
  rw [← String.ofList_toList (s := s), ← hfront, String.ofList_append, String.ofList_toList]

theorem isAbsolute_append_iff {s : String} (h : s ≠ "") (t : String) :
    isAbsolute (s ++ t) = isAbsolute s := by
  have hchars : s.toList ≠ [] := by simpa using h
  obtain ⟨c, cs, hs⟩ := List.exists_cons_of_ne_nil hchars
  rw [isAbsolute, isAbsolute, Bool.eq_iff_iff, String.startsWith_string_iff,
    String.startsWith_string_iff, String.toList_append, hs]
  simp

theorem pieces_join {base p : String} (hbase : base ≠ "") (hp : isAbsolute p = false) :
    pieces (join base p) = pieces base ++ pieces p ∨
    ∃ front, front ≠ [] ∧ pieces base = front ++ [""] ∧ pieces (join base p) = front ++ pieces p := by
  rw [join, hp, if_neg Bool.false_ne_true]
  by_cases hend : base.endsWith "/" = true
  · obtain ⟨front, rfl⟩ := endsWith_slash hend
    refine .inr ⟨pieces front, pieces_ne_nil front, ?_, ?_⟩
    · have hpieces := pieces_append front ""
      rwa [String.append_empty, pieces_empty] at hpieces
    · rw [hend, Bool.or_true, if_pos rfl, pieces_append]
  · have hcond : ¬(base == "" || base.endsWith "/") = true := by simp [hbase, hend]
    rw [if_neg hcond, pieces_append]
    exact .inl rfl

theorem names_join {base p : String} (hbase : base ≠ "") (hp : isAbsolute p = false) :
    names (pieces (join base p)) = names (pieces base) ++ names (pieces p) := by
  rcases pieces_join hbase hp with h | ⟨front, -, hbase', h⟩
  · rw [h, names_append]
  · have hvoid : names [""] = [] := rfl
    rw [h, hbase', names_append, names_append, hvoid, List.append_nil]

theorem isAbsolute_join {base p : String} (hbase : base ≠ "") (hp : isAbsolute p = false) :
    isAbsolute (join base p) = isAbsolute base := by
  rw [join, hp, if_neg Bool.false_ne_true]
  split
  · exact isAbsolute_append_iff hbase p
  · rw [String.append_assoc]
    exact isAbsolute_append_iff hbase _

theorem steps_join {base p : String} (hbase : base ≠ "") (hp : isAbsolute p = false) :
    steps (join base p) = steps base ++ (names (pieces p)).map stepOf := by
  have hhead : (pieces (join base p)).head? = (pieces base).head? := by
    rcases pieces_join hbase hp with h | ⟨front, hne, hbase', h⟩
    · rw [h, List.head?_append_of_ne_nil _ (pieces_ne_nil base)]
    · rw [h, hbase', List.head?_append_of_ne_nil _ hne, List.head?_append_of_ne_nil _ hne]
  have hnames := names_join hbase hp
  unfold names at hnames
  simp only [steps, isAbsolute_join hbase hp, hhead, hnames, List.map_append, List.append_assoc]
  rfl

theorem slash_notMem_pieces {p s : String} (h : s ∈ pieces p) : '/' ∉ s.toList := by
  rw [pieces_eq, List.mem_map] at h
  obtain ⟨cs, hcs, rfl⟩ := h
  rw [String.toList_ofList]
  exact notMem_of_mem_splitOn hcs

theorem names_of_steps {p : String} {ss : List Step} (h : steps p = ss)
    (hss : ∀ s ∈ ss, s.isPiece = true) :
    isAbsolute p = false ∧ (names (pieces p)).map stepOf = ss := by
  have hsteps : (if isAbsolute p then [Step.root]
      else if (pieces p).head? == some "." then [Step.here] else []) ++
      (names (pieces p)).map stepOf = ss := h
  split at hsteps
  · subst hsteps
    cases hss .root (by simp)
  · next habs =>
    split at hsteps
    · subst hsteps
      cases hss .here (by simp)
    · exact ⟨Bool.eq_false_iff.mpr habs, hsteps⟩

theorem eq_of_stepOf {s name : String} (h : stepOf s = .into name) : s = name ∧ name ≠ ".." := by
  unfold stepOf at h
  split at h
  · cases h
  · next hs =>
    cases h
    exact ⟨rfl, by simpa using hs⟩

theorem eq_of_map_stepOf {ps ns : List String} (h : ps.map stepOf = ns.map .into) :
    ps = ns ∧ ".." ∉ ns := by
  induction ns generalizing ps with
  | nil => exact ⟨List.map_eq_nil_iff.mp h, List.not_mem_nil⟩
  | cons name ns ih =>
    obtain ⟨s, ps, rfl, hs, hps⟩ := List.map_eq_cons_iff.mp h
    obtain ⟨rfl, hup⟩ := eq_of_stepOf hs
    obtain ⟨rfl, hups⟩ := ih hps
    exact ⟨rfl, by simp [hups, Ne.symm hup]⟩

end LanguageSessions.Path
