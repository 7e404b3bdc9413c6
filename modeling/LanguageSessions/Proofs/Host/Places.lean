import LanguageSessions.Proofs.Host.Walk
import LanguageSessions.Proofs.Workspace.Uri
import Mathlib.Data.List.Induction
import Mathlib.Data.List.Infix

namespace LanguageSessions

open LanguageSessions.Path (IsName isVoid join)

namespace Path

theorem ne_empty_of_isAbsolute {p : String} (h : isAbsolute p = true) : p ≠ "" := by
  rintro rfl
  exact absurd h (by decide)

theorem pieces_of_isAbsolute {p : String} (h : isAbsolute p = true) :
    ∃ rest, pieces p = "" :: rest := by
  rw [isAbsolute, String.startsWith_string_iff] at h
  obtain ⟨cs, hcs⟩ := h
  refine ⟨pieces (String.ofList cs), ?_⟩
  have hp : p = "" ++ "/" ++ String.ofList cs := by
    rw [← String.ofList_toList (s := p), ← hcs]
    simp
  rw [hp, pieces_append, pieces_empty, List.singleton_append]

theorem trimEnd_absolute (first : String) (rest : List String) :
    trimEnd true (first :: rest) = first :: (rest.reverse.dropWhile isVoid).reverse := by
  simp [trimEnd]

theorem dropWhile_isVoid_names {ns : List String} (h : ∀ name ∈ ns, IsName name) :
    (ns.reverse.dropWhile isVoid).reverse = ns := by
  cases hns : ns.reverse with
  | nil => exact (List.reverse_eq_nil_iff.mp hns).symm
  | cons last front =>
    have hlast : last ∈ ns := List.mem_reverse.mp (hns ▸ List.mem_cons_self)
    rw [List.dropWhile_cons, (h last hlast).said, if_neg Bool.false_ne_true, ← hns,
      List.reverse_reverse]

end Path

namespace FileTree

variable {t : FileTree} {links : Nat} {place front q directory : Place} {name m : String}
  {way : List String}

theorem pieces_render (place : Place) :
    Path.pieces (render place) = "" :: Path.pieces (String.intercalate "/" place) := by
  have hcut := Path.pieces_append "" (String.intercalate "/" place)
  rwa [String.empty_append, Path.pieces_empty] at hcut

theorem pieces_render_of_ne_nil (hne : place ≠ []) (hplace : ∀ name ∈ place, IsName name) :
    Path.pieces (render place) = "" :: place := by
  rw [pieces_render, Path.pieces_intercalate hne fun name hname => (hplace name hname).whole]

theorem names_render (hplace : ∀ name ∈ place, IsName name) :
    Path.names (Path.pieces (render place)) = place := by
  by_cases hne : place = []
  · subst hne
    rw [pieces_render, String.intercalate_nil, Path.pieces_empty]
    rfl
  · rw [pieces_render_of_ne_nil hne hplace, Path.names_void rfl]
    exact List.filter_eq_self.mpr fun name hname => by rw [(hplace name hname).said]; rfl

theorem render_ne_empty (place : Place) : render place ≠ "" :=
  Path.ne_empty_of_isAbsolute (isAbsolute_render place)

/-- Is each step on the way down to a place a directory with a name of its own? -/
def IsGround (t : FileTree) (place : Place) : Prop :=
  ∀ front name, front ++ [name] <+: place →
    IsName name ∧ name.utf8ByteSize ≤ maxName ∧ t.node? (front ++ [name]) = some .directory

theorem isGround_nil (t : FileTree) : t.IsGround [] := by
  intro front name h
  simp at h

theorem IsGround.upward (h : t.IsGround place) (hfront : front <+: place) : t.IsGround front :=
  fun above name habove => h above name (habove.trans hfront)

theorem IsGround.concat (h : t.IsGround place) (hname : IsName name)
    (hlength : name.utf8ByteSize ≤ maxName) (hnode : t.node? (place ++ [name]) = some .directory) :
    t.IsGround (place ++ [name]) := by
  intro front s hfront
  rcases List.prefix_concat_iff.mp hfront with heq | hfront
  · obtain ⟨rfl, hs⟩ := List.append_inj' heq rfl
    obtain rfl := List.singleton_inj.mp hs
    exact ⟨hname, hlength, hnode⟩
  · exact h front s hfront

theorem IsGround.isDirectoryAt (h : t.IsGround place) : t.isDirectoryAt place = true := by
  rcases List.eq_nil_or_concat' place with rfl | ⟨front, name, rfl⟩
  · rfl
  · rw [FileTree.isDirectoryAt, (h front name List.prefix_rfl).2.2]

theorem IsGround.isName (h : t.IsGround place) : ∀ name ∈ place, IsName name := by
  intro name hname
  obtain ⟨front, rest, rfl⟩ := List.append_of_mem hname
  exact (h front name ⟨rest, by simp⟩).1

theorem Leads.isGround (h : Leads t links place way q)
    (hplace : t.isDirectoryAt place = true → t.IsGround place) (hway : ∀ s ∈ way, '/' ∉ s.toList)
    (hq : t.isDirectoryAt q = true) : t.IsGround q := by
  -- only directories are gone on from, so what is not one can only be the end of the way
  induction h with
  | here => exact hplace hq
  | void _ _ _ ih => exact ih hplace (fun s hs => hway s (List.mem_cons_of_mem _ hs)) hq
  | up hdir _ ih =>
    exact ih (fun _ => (hplace hdir).upward (List.dropLast_prefix _))
      (fun s hs => hway s (List.mem_cons_of_mem _ hs)) hq
  | @into _ place _ name _ n hdir hvoid hup hlength hnode _ _ ih =>
    refine ih (fun hnext => ?_) (fun s hs => hway s (List.mem_cons_of_mem _ hs)) hq
    have hdirectory : t.node? (place ++ [name]) = some .directory := by
      unfold FileTree.isDirectoryAt at hnext
      split at hnext
      · assumption
      · cases hnext
    exact (hplace hdir).concat ⟨hvoid, hup, hway name List.mem_cons_self⟩ hlength hdirectory
  | link hdir _ _ _ _ _ _ ih =>
    refine ih (fun _ => ?_) (fun s hs => ?_) hq
    · split
      · exact isGround_nil t
      · exact hplace hdir
    · rcases List.mem_append.mp hs with hs | hs
      · exact Path.slash_notMem_pieces hs
      · exact hway s (List.mem_cons_of_mem _ hs)

theorem IsGround.walk_eq (h : t.IsGround (place ++ Path.names way)) (links : Nat)
    (rest : List String) :
    t.walk true links place (way ++ rest) = t.walk true links (place ++ Path.names way) rest := by
  induction way generalizing place with
  | nil => rw [List.nil_append, Path.names, List.filter_nil, List.append_nil]
  | cons s way ih =>
    have hdir : t.isDirectoryAt place = true := (h.upward (List.prefix_append _ _)).isDirectoryAt
    cases hvoid : isVoid s with
    | true =>
      rw [Path.names_void hvoid] at h ⊢
      rw [List.cons_append, walk_void hdir hvoid, ih h]
    | false =>
      have happ : place ++ Path.names (s :: way) = (place ++ [s]) ++ Path.names way := by
        rw [Path.names_cons hvoid, List.append_assoc, List.singleton_append]
      rw [happ] at h ⊢
      obtain ⟨hname, hlength, hnode⟩ := h place s (List.prefix_append _ _)
      rw [List.cons_append, walk_into hdir hvoid hname.below hlength hnode (by rintro target ⟨⟩),
        ih h]

theorem IsGround.resolve_render (h : t.IsGround place) (directory : Place) :
    t.resolve directory (render place) = .ok place := by
  have hnames := names_render h.isName
  have hway : t.IsGround ([] ++ Path.names (Path.pieces (render place))) := by
    rwa [hnames, List.nil_append]
  have hwalk := hway.walk_eq maxLinks []
  rw [hnames, List.append_nil, List.nil_append, walk_nil] at hwalk
  rw [resolve_eq_ok_iff, isAbsolute_render, if_pos rfl, ← walk_eq_present_iff]
  exact ⟨render_ne_empty place, hwalk⟩

theorem exists_pieces_join (hplace : ∀ name ∈ place, IsName name) (hm : Path.isAbsolute m = false) :
    ∃ way, Path.names way = place ∧ Path.pieces (join (render place) m) = way ++ Path.pieces m := by
  have hnames := names_render hplace
  rcases Path.pieces_join (render_ne_empty place) hm with heq | ⟨front, -, hbase, heq⟩
  · exact ⟨_, hnames, heq⟩
  · have hvoid : Path.names [""] = [] := rfl
    rw [hbase, Path.names_append, hvoid, List.append_nil] at hnames
    exact ⟨front, hnames, heq⟩

theorem IsGround.resolve_join (h : t.IsGround place) (hm : Path.isAbsolute m = false) :
    t.resolve directory (join (render place) m) = .ok q ↔
      t.Leads maxLinks place (Path.pieces m) q := by
  have habs : Path.isAbsolute (join (render place) m) = true := by
    rw [Path.isAbsolute_join (render_ne_empty place) hm, isAbsolute_render]
  obtain ⟨way, rfl, hpieces⟩ := exists_pieces_join h.isName hm
  have hway : t.IsGround ([] ++ Path.names way) := h
  have hwalk := hway.walk_eq maxLinks (Path.pieces m)
  rw [List.nil_append] at hwalk
  rw [resolve_eq_ok_iff, habs, if_pos rfl, hpieces, ← walk_eq_present_iff, hwalk,
    walk_eq_present_iff]
  exact and_iff_right (Path.ne_empty_of_isAbsolute habs)

theorem parent?_of_body {p : String} {ps : List String} (h : Path.isAbsolute p = true)
    (hbody : Path.body p = "" :: ps) : Path.parent? p =
      if ps = [] then none else some (render (ps.dropLast.reverse.dropWhile isVoid).reverse) := by
  rw [Path.parent?, hbody, h]
  cases ps with
  | nil => rfl
  | cons s ps =>
    rw [if_neg (List.cons_ne_nil s ps)]
    dsimp only
    rw [List.dropLast_cons_cons, Path.trimEnd_absolute]
    cases ((s :: ps).dropLast.reverse.dropWhile isVoid).reverse with
    | nil => rfl
    | cons first rest =>
      dsimp only
      rw [String.intercalate_cons_cons, String.empty_append, render]

theorem isAbsolute_of_parent? {p dir : String} (h : Path.isAbsolute p = true)
    (hdir : Path.parent? p = some dir) : Path.isAbsolute dir = true := by
  obtain ⟨rest, hrest⟩ := Path.pieces_of_isAbsolute h
  have hbody : Path.body p = "" :: (rest.reverse.dropWhile isVoid).reverse := by
    rw [Path.body, h, hrest, Path.trimEnd_absolute]
  rw [parent?_of_body h hbody] at hdir
  split at hdir
  · cases hdir
  · cases hdir
    exact isAbsolute_render _

theorem body_render (h : ∀ name ∈ place, IsName name) :
    Path.body (render place) = "" :: place := by
  rw [Path.body, isAbsolute_render]
  by_cases hne : place = []
  · subst hne
    rw [pieces_render, String.intercalate_nil, Path.pieces_empty]
    rfl
  · rw [pieces_render_of_ne_nil hne h, Path.trimEnd_absolute, Path.dropWhile_isVoid_names h]

theorem parent?_render_nil : Path.parent? (render []) = none := by
  rw [parent?_of_body (isAbsolute_render []) (body_render (by simp)), if_pos rfl]

theorem parent?_render_concat (h : ∀ s ∈ place ++ [name], IsName s) :
    Path.parent? (render (place ++ [name])) = some (render place) := by
  have hfront : ∀ s ∈ place, IsName s := fun s hs => h s (List.mem_append_left _ hs)
  rw [parent?_of_body (isAbsolute_render _) (body_render h), if_neg (by simp),
    List.dropLast_concat, Path.dropWhile_isVoid_names hfront]

theorem climb_render {n : Nat} (h : ∀ name ∈ place, IsName name) (hn : place.length ≤ n) :
    Path.ancestors.climb n (render place) = place.inits.reverse.map render := by
  induction place using List.reverseRecOn generalizing n with
  | nil =>
    cases n with
    | zero => rfl
    | succ n =>
      rw [Path.ancestors.climb, parent?_render_nil]
      rfl
  | append_singleton place name ih =>
    rw [List.length_append, List.length_singleton] at hn
    obtain ⟨n, rfl⟩ := Nat.exists_eq_add_of_le' (Nat.le_of_add_left_le hn)
    have hfront := ih (fun s hs => h s (List.mem_append_left _ hs)) (Nat.le_of_succ_le_succ hn)
    rw [Path.ancestors.climb, parent?_render_concat h]
    dsimp only
    rw [hfront]
    simp

theorem ancestors_render (h : ∀ name ∈ place, IsName name) :
    Path.ancestors (render place) = place.inits.reverse.map render := by
  refine climb_render h ?_
  by_cases hne : place = []
  · simp [hne]
  · rw [pieces_render_of_ne_nil hne h, List.length_cons]
    exact Nat.le_succ _

end FileTree

theorem Host.isGround_of_resolve {h : Host} {p : String} {q : FileTree.Place}
    (habs : Path.isAbsolute p = true) (hp : h.isDirectory p = true)
    (hq : h.tree.resolve h.here p = .ok q) : h.tree.IsGround q := by
  obtain ⟨place, hplace, hdir⟩ := Host.isDirectory_iff.mp hp
  obtain rfl := Except.ok.inj (hq.symm.trans hplace)
  obtain ⟨-, hleads⟩ := FileTree.resolve_eq_ok_iff.mp hq
  rw [habs, if_pos rfl] at hleads
  exact hleads.isGround (fun _ => FileTree.isGround_nil _) (fun s hs => Path.slash_notMem_pieces hs)
    hdir

end LanguageSessions
