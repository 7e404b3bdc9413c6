import LanguageSessions.Proofs.Host.Places
import LanguageSessions.Registry.Basic

namespace LanguageSessions

open FileTree (Place render IsGround)
open LanguageSessions.Path (IsName join)

namespace FileTree

def Contains (t : FileTree) (place : Place) (p : String) : Prop :=
  ∃ q, t.Leads maxLinks (if Path.isAbsolute p then [] else place) (Path.pieces p) q

variable {t : FileTree} {place : Place} {m : String}

theorem IsGround.pathExists_join {h : Host} (hplace : h.tree.IsGround place) (m : String) :
    h.pathExists (join (render place) m) = true ↔ h.tree.Contains place m := by
  rw [Host.pathExists_iff, Contains]
  cases hm : Path.isAbsolute m with
  | false => simp only [hplace.resolve_join hm, Bool.false_eq_true, if_false]
  | true =>
    simp only [join, hm, if_true, resolve_eq_ok_iff,
      and_iff_right (Path.ne_empty_of_isAbsolute hm)]

theorem contains_name_iff (hplace : t.isDirectoryAt place = true) (hm : IsName m)
    (hlength : m.utf8ByteSize ≤ maxName)
    (hlink : ∀ target, t.node? (place ++ [m]) ≠ some (.link target)) :
    t.Contains place m ↔ t.node? (place ++ [m]) ≠ none := by
  rw [Contains, hm.isAbsolute_eq, hm.pieces_eq, if_neg Bool.false_ne_true]
  constructor
  · rintro ⟨q, hq⟩ hnone
    cases hq with
    | void _ hvoid => cases hm.said.symm.trans hvoid
    | up => exact hm.below rfl
    | into _ _ _ _ hnode => cases hnone.symm.trans hnode
    | link _ _ _ _ hnode => cases hnone.symm.trans hnode
  · intro hne
    obtain ⟨n, hn⟩ := Option.ne_none_iff_exists'.mp hne
    exact ⟨_, .into hplace hm.said hm.below hlength hn (fun target heq => hlink target (heq ▸ hn))
      .here⟩

end FileTree

namespace ProjectLocator

def Marks (l : ProjectLocator) (t : FileTree) (place : Place) : Prop :=
  ∃ m ∈ l.markers, t.Contains place m

inductive StartsAt (h : Host) (file : String) (place : Place) : Prop
  | itself (hfile : h.isDirectory file = true) (hplace : h.tree.resolve h.here file = .ok place)
  | parent (hfile : h.isDirectory file = false) (dir : String)
      (hparent : Path.parent? file = some dir) (hdir : h.isDirectory dir = true)
      (hplace : h.tree.resolve h.here dir = .ok place)

/-- Is a directory with a marker at or above a place, and no other one between the two? -/
structure IsNearest (l : ProjectLocator) (t : FileTree) (place root : Place) : Prop where
  above : root <+: place
  marked : l.Marks t root
  first : ∀ front, root <+: front → front <+: place → l.Marks t front → front = root

theorem IsNearest.eq {l : ProjectLocator} {t : FileTree} {place root other : Place}
    (hroot : l.IsNearest t place root) (hother : l.IsNearest t place other) : other = root := by
  rcases List.prefix_or_prefix_of_prefix hroot.above hother.above with hle | hle
  · exact hroot.first other hle hother.above hother.marked
  · exact (hother.first root hle hroot.above hroot.marked).symm

/-- What is said of the project of a file in the directory at a place. -/
structure Located (l : ProjectLocator) (h : Host) (file : String) (place : Place) : Prop where
  directories : ∀ front, front <+: place → h.tree.isDirectoryAt front = true
  listed : ∀ front m, front <+: place → IsName m → m.utf8ByteSize ≤ FileTree.maxName →
    (∀ target, h.tree.node? (front ++ [m]) ≠ some (.link target)) →
    (h.tree.Contains front m ↔ h.tree.node? (front ++ [m]) ≠ none)
  nearest : ∀ dir, l.findRoot? h file = some dir ↔
    ∃ root, dir = render root ∧ l.IsNearest h.tree place root
  absent : l.findRoot? h file = none ↔ ∀ front, front <+: place → ¬ l.Marks h.tree front
  along : ∀ front, front <+: place → (∀ root, l.IsNearest h.tree place root → root <+: front) →
    l.findRoot? h (render front) = l.findRoot? h file
  itself : ∀ dir, l.findRoot? h file = some dir → l.findRoot? h dir = some dir
  shared : ∀ other q root type, Path.isAbsolute other = true → StartsAt h other q →
    l.IsNearest h.tree place root → l.IsNearest h.tree q root →
    (Target.ofFile h (l.findRoot? h other) other type).key =
      (Target.ofFile h (l.findRoot? h file) file type).key

variable {l : ProjectLocator} {h : Host} {file : String} {place root front : Place}

section

variable {p : Place → Bool}

def nearest? (p : Place → Bool) (place : Place) : Option Place := place.inits.reverse.find? p

theorem nearest?_concat (name : String) : nearest? p (place ++ [name]) =
    if p (place ++ [name]) then some (place ++ [name]) else nearest? p place := by
  have hinits : (place ++ [name]).inits.reverse = (place ++ [name]) :: place.inits.reverse := by
    simp
  rw [nearest?, hinits, List.find?_cons, ← nearest?]
  cases p (place ++ [name]) <;> rfl

theorem nearest?_eq_none_iff :
    nearest? p place = none ↔ ∀ front, front <+: place → p front = false := by
  simp [nearest?]

theorem nearest?_of_holds (hp : p place = true) : nearest? p place = some root ↔
    root <+: place ∧ p root = true ∧
      ∀ front, root <+: front → front <+: place → p front = true → front = root := by
  have hself : nearest? p place = some place := by
    rcases List.eq_nil_or_concat' place with rfl | ⟨front, name, rfl⟩
    · exact List.find?_cons_of_pos hp
    · rw [nearest?_concat, if_pos hp]
  rw [hself, Option.some.injEq]
  constructor
  · rintro rfl
    exact ⟨List.prefix_rfl, hp, fun front habove hbelow _ =>
      hbelow.eq_of_length_le habove.length_le⟩
  · rintro ⟨hroot, -, hfirst⟩
    exact hfirst _ hroot List.prefix_rfl hp

theorem nearest?_eq_some_iff : nearest? p place = some root ↔ root <+: place ∧ p root = true ∧
    ∀ front, root <+: front → front <+: place → p front = true → front = root := by
  -- a place the test does not hold of is passed by, to what is nearest from the place above it
  induction place using List.reverseRecOn with
  | nil =>
    cases hp : p [] with
    | true => exact nearest?_of_holds hp
    | false =>
      have hnone : nearest? p [] = none := by
        rw [nearest?_eq_none_iff]
        intro front hfront
        rw [List.prefix_nil.mp hfront, hp]
      rw [hnone]
      constructor
      · rintro ⟨⟩
      · rintro ⟨hroot, hmark, -⟩
        obtain rfl := List.prefix_nil.mp hroot
        cases hp.symm.trans hmark
  | append_singleton place name ih =>
    cases hp : p (place ++ [name]) with
    | true => exact nearest?_of_holds hp
    | false =>
      rw [nearest?_concat, hp, if_neg Bool.false_ne_true, ih]
      constructor
      · rintro ⟨hroot, hmark, hfirst⟩
        refine ⟨hroot.trans (List.prefix_append _ _), hmark, fun front habove hbelow hfront => ?_⟩
        rcases List.prefix_concat_iff.mp hbelow with rfl | hbelow
        · cases hp.symm.trans hfront
        · exact hfirst front habove hbelow hfront
      · rintro ⟨hroot, hmark, hfirst⟩
        rcases List.prefix_concat_iff.mp hroot with rfl | hroot
        · cases hp.symm.trans hmark
        · exact ⟨hroot, hmark, fun front habove hbelow =>
            hfirst front habove (hbelow.trans (List.prefix_append _ _))⟩

theorem nearest?_upward (hfront : front <+: place)
    (hroot : ∀ root, nearest? p place = some root → root <+: front) :
    nearest? p front = nearest? p place := by
  cases hplace : nearest? p place with
  | some root =>
    obtain ⟨-, hmark, hfirst⟩ := nearest?_eq_some_iff.mp hplace
    exact nearest?_eq_some_iff.mpr ⟨hroot root hplace, hmark,
      fun other habove hother => hfirst other habove (hother.trans hfront)⟩
  | none =>
    rw [nearest?_eq_none_iff] at hplace ⊢
    exact fun other hother => hplace other (hother.trans hfront)

end

theorem exists_startsAt (hfile : h.isDirectory file = true ∨
    ∃ dir, Path.parent? file = some dir ∧ h.isDirectory dir = true) :
    ∃ place, StartsAt h file place := by
  cases hself : h.isDirectory file with
  | true =>
    obtain ⟨place, hplace, -⟩ := Host.isDirectory_iff.mp hself
    exact ⟨place, .itself hself hplace⟩
  | false =>
    rw [hself] at hfile
    obtain ⟨dir, hparent, hdir⟩ := hfile.resolve_left Bool.false_ne_true
    obtain ⟨place, hplace, -⟩ := Host.isDirectory_iff.mp hdir
    exact ⟨place, .parent hself dir hparent hdir hplace⟩

theorem StartsAt.isGround (hstart : StartsAt h file place) (habs : Path.isAbsolute file = true) :
    h.tree.IsGround place := by
  cases hstart with
  | itself hfile hplace => exact Host.isGround_of_resolve habs hfile hplace
  | parent _ dir hparent hdir hplace =>
    exact Host.isGround_of_resolve (FileTree.isAbsolute_of_parent? habs hparent) hdir hplace

theorem StartsAt.start?_eq (hstart : StartsAt h file place) :
    start? h file = some (render place) := by
  cases hstart with
  | itself hfile hplace => rw [start?, if_pos hfile, Host.canonical_of_resolve hplace]
  | parent hfile dir hparent hdir hplace =>
    rw [start?, hfile, if_neg Bool.false_ne_true, hparent, Option.map_some,
      Host.canonical_of_resolve hplace]

theorem startsAt_render (hplace : h.tree.IsGround place) : StartsAt h (render place) place :=
  .itself (Host.isDirectory_iff.mpr ⟨place, hplace.resolve_render _, hplace.isDirectoryAt⟩)
    (hplace.resolve_render _)

theorem isRoot_iff (hplace : h.tree.IsGround place) :
    l.isRoot h (render place) = true ↔ l.Marks h.tree place := by
  rw [isRoot, List.any_eq_true, Marks]
  simp only [hplace.pathExists_join]

theorem findRoot?_eq (hstart : StartsAt h file place) (hplace : h.tree.IsGround place) :
    l.findRoot? h file = (nearest? (fun q => l.isRoot h (render q)) place).map render := by
  rw [findRoot?, hstart.start?_eq, Option.bind_some, FileTree.ancestors_render hplace.isName,
    List.find?_map]
  rfl

theorem nearest?_iff (hplace : h.tree.IsGround place) :
    nearest? (fun q => l.isRoot h (render q)) place = some root ↔
      l.IsNearest h.tree place root := by
  have hmarks : ∀ front, front <+: place →
      (l.isRoot h (render front) = true ↔ l.Marks h.tree front) :=
    fun front hfront => isRoot_iff (hplace.upward hfront)
  rw [nearest?_eq_some_iff]
  constructor
  · rintro ⟨habove, hmark, hfirst⟩
    exact ⟨habove, (hmarks root habove).mp hmark, fun front hroot hfront hfm =>
      hfirst front hroot hfront ((hmarks front hfront).mpr hfm)⟩
  · rintro ⟨habove, hmark, hfirst⟩
    exact ⟨habove, (hmarks root habove).mpr hmark, fun front hroot hfront hfm =>
      hfirst front hroot hfront ((hmarks front hfront).mp hfm)⟩

theorem findRoot?_eq_some_iff (hstart : StartsAt h file place) (hplace : h.tree.IsGround place)
    {dir : String} : l.findRoot? h file = some dir ↔
      ∃ root, dir = render root ∧ l.IsNearest h.tree place root := by
  simp only [findRoot?_eq hstart hplace, Option.map_eq_some_iff, nearest?_iff hplace]
  simp only [and_comm, eq_comm]

theorem findRoot?_along (hstart : StartsAt h file place) (hplace : h.tree.IsGround place)
    (hfront : front <+: place) (hroot : ∀ root, l.IsNearest h.tree place root → root <+: front) :
    l.findRoot? h (render front) = l.findRoot? h file := by
  have hground := hplace.upward hfront
  rw [findRoot?_eq hstart hplace, findRoot?_eq (startsAt_render hground) hground,
    nearest?_upward hfront fun root heq => hroot root ((nearest?_iff hplace).mp heq)]

theorem findRoot?_eq_none_iff (hstart : StartsAt h file place) (hplace : h.tree.IsGround place) :
    l.findRoot? h file = none ↔ ∀ front, front <+: place → ¬ l.Marks h.tree front := by
  rw [findRoot?_eq hstart hplace, Option.map_eq_none_iff, nearest?_eq_none_iff]
  refine forall₂_congr fun front hfront => ?_
  rw [← isRoot_iff (hplace.upward hfront), Bool.not_eq_true]

theorem key_of_findRoot? {dir : String} (hdir : l.findRoot? h file = some dir) (type : String) :
    (Target.ofFile h (l.findRoot? h file) file type).key =
      SessionKey.ofRoot h (h.canonical dir) type := by
  rw [hdir]
  rfl

theorem roots_agree (l : ProjectLocator) (h : Host) (file : String)
    (habs : Path.isAbsolute file = true) (hfile : h.isDirectory file = true ∨
      ∃ dir, Path.parent? file = some dir ∧ h.isDirectory dir = true) :
    ∃ place, StartsAt h file place ∧ Located l h file place := by
  obtain ⟨place, hstart⟩ := exists_startsAt hfile
  have hplace := hstart.isGround habs
  have hnearest : ∀ dir, l.findRoot? h file = some dir ↔
      ∃ root, dir = render root ∧ l.IsNearest h.tree place root :=
    fun dir => findRoot?_eq_some_iff hstart hplace
  exact ⟨place, hstart,
    { directories := fun front hfront => (hplace.upward hfront).isDirectoryAt
      listed := fun front m hfront =>
        FileTree.contains_name_iff (hplace.upward hfront).isDirectoryAt
      nearest := hnearest
      absent := findRoot?_eq_none_iff hstart hplace
      along := fun front hfront hroot => findRoot?_along hstart hplace hfront hroot
      itself := by
        intro dir hdir
        obtain ⟨root, rfl, hroot⟩ := (hnearest dir).mp hdir
        rw [← hdir]
        exact findRoot?_along hstart hplace hroot.above fun other hother =>
          hroot.eq hother ▸ List.prefix_rfl
      shared := by
        intro other q root type hother hq hroot hroot'
        have hdir := (hnearest _).mpr ⟨root, rfl, hroot⟩
        have hdir' := (findRoot?_eq_some_iff hq (hq.isGround hother)).mpr ⟨root, rfl, hroot'⟩
        rw [key_of_findRoot? hdir, key_of_findRoot? hdir'] }⟩

/-- A project, and a link from outside of it to a directory in it. -/
def projectHost : Host where
  tree := ⟨[(["link"], .link "project/src"), (["project"], .directory),
    (["project", ".git"], .directory), (["project", "src"], .directory)]⟩

theorem resolve_projectHost :
    projectHost.tree.resolve projectHost.here "/link" = .ok ["project", "src"] := by
  have hnames : ∀ name ∈ ["link"], IsName name := by decide
  have habs : Path.isAbsolute "/link" = true := FileTree.isAbsolute_render ["link"]
  have hpieces : Path.pieces "/link" = ["", "link"] :=
    FileTree.pieces_render_of_ne_nil (List.cons_ne_nil _ _) hnames
  have htarget : Path.pieces "project/src" = ["project", "src"] :=
    Path.pieces_intercalate (List.cons_ne_nil "project" ["src"]) (by decide)
  have hrelative : Path.isAbsolute "project/src" = false := by decide +kernel
  refine FileTree.resolve_eq_ok_iff.mpr ⟨by decide, ?_⟩
  rw [habs, if_pos rfl, hpieces]
  refine .void rfl rfl (.link rfl rfl (by decide) (by decide +kernel) rfl (by decide) ?_)
  rw [hrelative, if_neg Bool.false_ne_true, htarget]
  refine .into rfl rfl (by decide) (by decide +kernel) rfl (by rintro target ⟨⟩) ?_
  exact .into rfl rfl (by decide) (by decide +kernel) rfl (by rintro target ⟨⟩) .here

theorem isDirectory_projectHost : projectHost.isDirectory "/link" = true :=
  Host.isDirectory_iff.mpr ⟨_, resolve_projectHost, rfl⟩

theorem roots_agree_through_link :
    Path.isAbsolute "/link/a.rs" = true ∧ Path.parent? "/link/a.rs" = some "/link" ∧
    projectHost.isDirectory "/link" = true ∧
    ∃ place, StartsAt projectHost "/link/a.rs" place ∧
      Located {} projectHost "/link/a.rs" place := by
  have habs : Path.isAbsolute "/link/a.rs" = true := FileTree.isAbsolute_render ["link", "a.rs"]
  have hnames : ∀ s ∈ ["link"] ++ ["a.rs"], IsName s := by decide
  have hparent : Path.parent? "/link/a.rs" = some "/link" := FileTree.parent?_render_concat hnames
  exact ⟨habs, hparent, isDirectory_projectHost,
    roots_agree {} projectHost "/link/a.rs" habs (.inr ⟨"/link", hparent, isDirectory_projectHost⟩)⟩

end ProjectLocator

end LanguageSessions
