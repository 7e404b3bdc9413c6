import LanguageSessions.Host.Basic
import LanguageSessions.Proofs.Workspace.Path

namespace LanguageSessions

namespace FileTree

/-- A way that leads to a place that is there, with at most so many links. -/
inductive Leads (t : FileTree) : Nat → Place → List String → Place → Prop
  | here {links : Nat} {place : Place} : Leads t links place [] place
  | void {links : Nat} {place q : Place} {name : String} {way : List String}
      (hdir : t.isDirectoryAt place = true) (hvoid : Path.isVoid name = true)
      (rest : Leads t links place way q) : Leads t links place (name :: way) q
  | up {links : Nat} {place q : Place} {way : List String} (hdir : t.isDirectoryAt place = true)
      (rest : Leads t links place.dropLast way q) : Leads t links place (".." :: way) q
  | into {links : Nat} {place q : Place} {name : String} {way : List String} {n : Node}
      (hdir : t.isDirectoryAt place = true) (hvoid : Path.isVoid name = false) (hup : name ≠ "..")
      (hlength : name.utf8ByteSize ≤ maxName) (hnode : t.node? (place ++ [name]) = some n)
      (hlink : ∀ target, n ≠ .link target) (rest : Leads t links (place ++ [name]) way q) :
      Leads t links place (name :: way) q
  | link {links : Nat} {place q : Place} {name target : String} {way : List String}
      (hdir : t.isDirectoryAt place = true) (hvoid : Path.isVoid name = false) (hup : name ≠ "..")
      (hlength : name.utf8ByteSize ≤ maxName) (hnode : t.node? (place ++ [name]) = some (.link target))
      (htarget : target ≠ "")
      (rest : Leads t links (if Path.isAbsolute target then [] else place)
        (Path.pieces target ++ way) q) :
      Leads t (links + 1) place (name :: way) q

variable {t : FileTree} {follow : Bool} {links : Nat} {place q : Place} {name : String}
  {way : List String} {directory : Place} {p : String}

theorem walk_nil : t.walk follow links place [] = .present place := by
  rw [walk]

theorem walk_void (hdir : t.isDirectoryAt place = true) (hvoid : Path.isVoid name = true) :
    t.walk follow links place (name :: way) = t.walk follow links place way := by
  rw [walk, hdir, if_neg (by simp), if_pos hvoid]

theorem walk_up (hdir : t.isDirectoryAt place = true) :
    t.walk follow links place (".." :: way) = t.walk follow links place.dropLast way := by
  rw [walk, hdir, if_neg (by simp), if_neg (by decide), if_pos (beq_self_eq_true _)]

theorem walk_into {n : Node} (hdir : t.isDirectoryAt place = true)
    (hvoid : Path.isVoid name = false) (hup : name ≠ "..")
    (hlength : name.utf8ByteSize ≤ maxName) (hnode : t.node? (place ++ [name]) = some n)
    (hlink : ∀ target, n ≠ .link target) :
    t.walk follow links place (name :: way) = t.walk follow links (place ++ [name]) way := by
  rw [walk, hdir, hvoid, if_neg (by simp), if_neg (by simp), if_neg (by simpa using hup),
    if_neg (by omega)]
  dsimp only
  rw [hnode]
  cases n with
  | link target => exact absurd rfl (hlink target)
  | file content executable => rfl
  | directory => rfl

theorem walk_link {target : String} (hdir : t.isDirectoryAt place = true)
    (hvoid : Path.isVoid name = false) (hup : name ≠ "..")
    (hlength : name.utf8ByteSize ≤ maxName) (hnode : t.node? (place ++ [name]) = some (.link target))
    (htarget : target ≠ "") :
    t.walk true (links + 1) place (name :: way) =
      t.walk true links (if Path.isAbsolute target then [] else place)
        (Path.pieces target ++ way) := by
  rw [walk, hdir, hvoid, if_neg (by simp), if_neg (by simp), if_neg (by simpa using hup),
    if_neg (by omega)]
  dsimp only
  rw [hnode]
  simp [htarget]

theorem leads_of_walk (h : t.walk true links place way = .present q) :
    Leads t links place way q := by
  fun_induction t.walk true links place way with
  | case1 links place =>
    cases h
    exact .here
  | case3 links place name way hdir hvoid ih => exact .void (by simpa using hdir) hvoid (ih h)
  | case4 links place name way hdir _ hup ih =>
    obtain rfl := eq_of_beq hup
    exact .up (by simpa using hdir) (ih h)
  | case11 place name way hdir hvoid hup hlength next target hnode _ links htarget ih =>
    exact .link (by simpa using hdir) (by simpa using hvoid) (by simpa using hup)
      (Nat.le_of_not_lt hlength) hnode (by simpa using htarget) (ih h)
  | case12 links place name way hdir hvoid hup hlength next n hlink hnode ih =>
    exact .into (by simpa using hdir) (by simpa using hvoid) (by simpa using hup)
      (Nat.le_of_not_lt hlength) hnode hlink (ih h)
  | case8 links place name way hdir hvoid hup hlength next target hnode hlast => simp at hlast
  | _ => cases h

theorem Leads.walk_eq (h : Leads t links place way q) :
    t.walk true links place way = .present q := by
  induction h with
  | here => exact walk_nil
  | void hdir hvoid _ ih => rw [walk_void hdir hvoid, ih]
  | up hdir _ ih => rw [walk_up hdir, ih]
  | into hdir hvoid hup hlength hnode hlink _ ih =>
    rw [walk_into hdir hvoid hup hlength hnode hlink, ih]
  | link hdir hvoid hup hlength hnode htarget _ ih =>
    rw [walk_link hdir hvoid hup hlength hnode htarget, ih]

theorem walk_eq_present_iff : t.walk true links place way = .present q ↔ Leads t links place way q :=
  ⟨leads_of_walk, Leads.walk_eq⟩

theorem resolve_eq_ok_iff : t.resolve directory p = .ok q ↔ p ≠ "" ∧
    t.Leads maxLinks (if Path.isAbsolute p then [] else directory) (Path.pieces p) q := by
  rw [resolve, locate, ← walk_eq_present_iff]
  by_cases hp : p = ""
  · simp [hp]
  · simp only [beq_iff_eq, hp, if_false, ne_eq, not_false_eq_true, true_and]
    split <;> simp_all

theorem resolve_name {n : Node} (hname : Path.IsName name)
    (hdir : t.isDirectoryAt directory = true) (hlength : name.utf8ByteSize ≤ maxName)
    (hnode : t.node? (directory ++ [name]) = some n) (hlink : ∀ target, n ≠ .link target) :
    t.resolve directory name = .ok (directory ++ [name]) := by
  have hne : name ≠ "" := by
    rintro rfl
    cases hname.said
  refine resolve_eq_ok_iff.mpr ⟨hne, ?_⟩
  rw [hname.isAbsolute_eq, hname.pieces_eq]
  exact .into hdir hname.said hname.below hlength hnode hlink .here

theorem Leads.walk_append (h : Leads t links place way q) :
    ∃ left, ∀ rest, t.walk true links place (way ++ rest) = t.walk true left q rest := by
  induction h with
  | @here links place => exact ⟨links, fun rest => rfl⟩
  | void hdir hvoid _ ih =>
    obtain ⟨left, hleft⟩ := ih
    exact ⟨left, fun rest => by rw [List.cons_append, walk_void hdir hvoid, hleft]⟩
  | up hdir _ ih =>
    obtain ⟨left, hleft⟩ := ih
    exact ⟨left, fun rest => by rw [List.cons_append, walk_up hdir, hleft]⟩
  | into hdir hvoid hup hlength hnode hlink _ ih =>
    obtain ⟨left, hleft⟩ := ih
    exact ⟨left, fun rest => by
      rw [List.cons_append, walk_into hdir hvoid hup hlength hnode hlink, hleft]⟩
  | link hdir hvoid hup hlength hnode htarget _ ih =>
    obtain ⟨left, hleft⟩ := ih
    exact ⟨left, fun rest => by
      rw [List.cons_append, walk_link hdir hvoid hup hlength hnode htarget, ← List.append_assoc,
        hleft]⟩

theorem Leads.of_concat_void (h : Leads t links place (way ++ [name]) q)
    (hname : Path.isVoid name = true) : Leads t links place way q := by
  generalize hfull : way ++ [name] = full at h
  induction h generalizing way with
  | here => simp at hfull
  | void hdir hvoid rest ih =>
    cases way with
    | nil =>
      obtain ⟨rfl, rfl⟩ := List.cons.inj hfull
      exact rest
    | cons s way =>
      obtain ⟨rfl, hway⟩ := List.cons.inj hfull
      exact .void hdir hvoid (ih hway)
  | up hdir rest ih =>
    cases way with
    | nil =>
      obtain ⟨rfl, -⟩ := List.cons.inj hfull
      cases hname
    | cons s way =>
      obtain ⟨rfl, hway⟩ := List.cons.inj hfull
      exact .up hdir (ih hway)
  | into hdir hvoid hup hlength hnode hlink rest ih =>
    cases way with
    | nil =>
      obtain ⟨rfl, -⟩ := List.cons.inj hfull
      cases hname.symm.trans hvoid
    | cons s way =>
      obtain ⟨rfl, hway⟩ := List.cons.inj hfull
      exact .into hdir hvoid hup hlength hnode hlink (ih hway)
  | link hdir hvoid hup hlength hnode htarget rest ih =>
    cases way with
    | nil =>
      obtain ⟨rfl, -⟩ := List.cons.inj hfull
      cases hname.symm.trans hvoid
    | cons s way =>
      obtain ⟨rfl, rfl⟩ := List.cons.inj hfull
      exact .link hdir hvoid hup hlength hnode htarget (ih (List.append_assoc ..))

def Linkless (t : FileTree) (place : Place) (ns : List String) : Prop :=
  ∀ front, front ≠ [] → front <+: ns → ∀ target, t.node? (place ++ front) ≠ some (.link target)

theorem Linkless.cons {ns : List String} (h : t.Linkless place (name :: ns)) :
    t.Linkless (place ++ [name]) ns := by
  intro front _ hprefix target
  rw [List.append_assoc]
  exact h (name :: front) (List.cons_ne_nil _ _) (List.prefix_cons_inj name |>.mpr hprefix) target

theorem Leads.eq_names (h : Leads t links place way q) (hup : ".." ∉ way)
    (hlinks : t.Linkless place (Path.names way)) : q = place ++ Path.names way := by
  induction h with
  | here => exact (List.append_nil _).symm
  | void _ hvoid _ ih =>
    rw [Path.names_void hvoid] at hlinks ⊢
    exact ih (fun hmem => hup (List.mem_cons_of_mem _ hmem)) hlinks
  | up => exact absurd List.mem_cons_self hup
  | into _ hvoid _ _ _ _ _ ih =>
    rw [Path.names_cons hvoid] at hlinks ⊢
    rw [ih (fun hmem => hup (List.mem_cons_of_mem _ hmem)) hlinks.cons, List.append_assoc]
    rfl
  | @link _ _ _ name target _ _ hvoid _ _ hnode _ _ _ =>
    rw [Path.names_cons hvoid] at hlinks
    exact absurd hnode (hlinks [name] (List.cons_ne_nil _ _) ⟨_, rfl⟩ target)

theorem Leads.of_up {ns : List String} (h : Leads t links place way q)
    (hnames : Path.names way = ".." :: ns) :
    ∃ rest, Path.names rest = ns ∧ Leads t links place.dropLast rest q := by
  induction h with
  | here => cases hnames
  | void _ hvoid _ ih =>
    rw [Path.names_void hvoid] at hnames
    exact ih hnames
  | @up _ _ _ way _ rest _ =>
    rw [Path.names_cons (by decide)] at hnames
    exact ⟨way, (List.cons.inj hnames).2, rest⟩
  | into _ hvoid hup =>
    rw [Path.names_cons hvoid] at hnames
    exact absurd (List.cons.inj hnames).1 hup
  | link _ hvoid hup =>
    rw [Path.names_cons hvoid] at hnames
    exact absurd (List.cons.inj hnames).1 hup

theorem Leads.isName (h : Leads t links place way q) (hplace : ∀ name ∈ place, Path.IsName name)
    (hway : ∀ s ∈ way, '/' ∉ s.toList) : ∀ name ∈ q, Path.IsName name := by
  induction h with
  | here => exact hplace
  | void _ _ _ ih => exact ih hplace fun s hs => hway s (List.mem_cons_of_mem _ hs)
  | up _ _ ih =>
    exact ih (fun name hname => hplace name ((List.dropLast_subset _) hname))
      fun s hs => hway s (List.mem_cons_of_mem _ hs)
  | @into _ place _ name _ _ _ hvoid hup _ _ _ _ ih =>
    refine ih (fun s hs => ?_) fun s hs => hway s (List.mem_cons_of_mem _ hs)
    rcases List.mem_append.mp hs with hs | hs
    · exact hplace s hs
    · obtain rfl := List.mem_singleton.mp hs
      exact ⟨hvoid, hup, hway s List.mem_cons_self⟩
  | link _ _ _ _ _ _ _ ih =>
    refine ih (fun name hname => ?_) fun s hs => ?_
    · split at hname
      · cases hname
      · exact hplace name hname
    · rcases List.mem_append.mp hs with hs | hs
      · exact Path.slash_notMem_pieces hs
      · exact hway s (List.mem_cons_of_mem _ hs)

end FileTree

namespace Host

variable {h : Host} {p : String} {q : FileTree.Place}

theorem pathExists_iff : h.pathExists p = true ↔ ∃ q, h.tree.resolve h.here p = .ok q := by
  rw [pathExists, FileTree.exists?]
  cases h.tree.resolve h.here p <;> simp [Except.toOption]

theorem isDirectory_iff : h.isDirectory p = true ↔
    ∃ q, h.tree.resolve h.here p = .ok q ∧ h.tree.isDirectoryAt q = true := by
  rw [isDirectory, FileTree.isDirectory]
  cases h.tree.resolve h.here p <;> simp

theorem canonical_of_resolve (hp : h.tree.resolve h.here p = .ok q) :
    h.canonical p = FileTree.render q := by
  rw [canonical, hp]

theorem canonical_of_missing (hp : h.pathExists p = false) : h.canonical p = h.absolute p := by
  cases hres : h.tree.resolve h.here p with
  | ok q => simp [pathExists_iff.mpr ⟨q, hres⟩] at hp
  | error kind => rw [canonical, hres]

end Host

end LanguageSessions
