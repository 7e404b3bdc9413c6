import LanguageSessions.Proofs.Host.Places

namespace LanguageSessions

open LanguageSessions.Path (IsName Step steps join)

namespace FileTree

variable {t : FileTree} {directory place q : Place} {root p : String}

theorem steps_render (hplace : ∀ name ∈ place, IsName name) :
    steps (render place) = .root :: place.map .into := by
  have hsteps : place.map Path.stepOf = place.map .into :=
    List.map_congr_left fun name hname => if_neg (by simpa using (hplace name hname).below)
  have hstart : steps (render place) =
      [.root] ++ (Path.names (Path.pieces (render place))).map Path.stepOf := by
    rw [steps, isAbsolute_render, if_pos rfl, Path.names]
  rw [hstart, names_render hplace, hsteps]
  rfl

theorem isProperlyUnder_render (hplace : ∀ name ∈ place, IsName name)
    (hq : ∀ name ∈ q, IsName name) :
    Path.isProperlyUnder (render place) (render q) = true ↔ place <+: q ∧ q ≠ place := by
  have hinj : Function.Injective Step.into := fun _ _ heq => Step.into.inj heq
  rw [Path.isProperlyUnder, Path.startsWith, steps_render hplace, steps_render hq,
    Bool.and_eq_true, List.isPrefixOf_iff_prefix, List.prefix_cons_inj,
    List.prefix_map_iff_of_injective hinj, bne_iff_ne, ne_eq, List.cons.injEq,
    (List.map_injective_iff.mpr hinj).eq_iff]
  simp

theorem isName_of_resolve (h : t.resolve directory p = .ok q)
    (hdir : ∀ name ∈ directory, IsName name) : ∀ name ∈ q, IsName name := by
  obtain ⟨-, hleads⟩ := resolve_eq_ok_iff.mp h
  refine hleads.isName (fun name hname => ?_) fun s hs => Path.slash_notMem_pieces hs
  split at hname
  · cases hname
  · exact hdir name hname

theorem leads_of_resolve_join (hroot : t.resolve directory root = .ok place)
    (hp : Path.isAbsolute p = false) (h : t.resolve directory (join root p) = .ok q) :
    ∃ links, t.Leads links place (Path.pieces p) q := by
  obtain ⟨hne, hleads⟩ := resolve_eq_ok_iff.mp hroot
  obtain ⟨-, hjoin⟩ := resolve_eq_ok_iff.mp h
  rw [Path.isAbsolute_join hne hp] at hjoin
  have hon : ∀ {front}, t.Leads maxLinks (if Path.isAbsolute root then [] else directory) front
      place → Path.pieces (join root p) = front ++ Path.pieces p →
      ∃ links, t.Leads links place (Path.pieces p) q := by
    intro front hfront heq
    obtain ⟨left, hleft⟩ := hfront.walk_append
    rw [heq, ← walk_eq_present_iff, hleft] at hjoin
    exact ⟨left, leads_of_walk hjoin⟩
  rcases Path.pieces_join hne hp with heq | ⟨front, -, hbase, heq⟩
  · exact hon hleads heq
  · rw [hbase] at hleads
    exact hon (hleads.of_concat_void rfl) heq

end FileTree

namespace Host

variable {h : Host} {root p : String}

theorem steps_absolute_join (hroot : root ≠ "") (hp : Path.isAbsolute p = false) :
    steps (h.absolute (join root p)) =
      steps (h.absolute root) ++ (Path.names (Path.pieces p)).map Path.stepOf := by
  rw [absolute, absolute, Path.isAbsolute_join hroot hp]
  cases hroot' : Path.isAbsolute root with
  | true => exact Path.steps_join hroot hp
  | false =>
    have hjoin : Path.isAbsolute (join root p) = false := by
      rw [Path.isAbsolute_join hroot hp, hroot']
    simp only [Bool.false_eq_true, if_false]
    cases h.directory with
    | none =>
      have hself {s : String} (hs : Path.isAbsolute s = false) : join "" s = s := by
        rw [join, hs]
        simp
      rw [Option.map_none, Option.getD_none, hself hjoin, hself hroot']
      exact Path.steps_join hroot hp
    | some directory =>
      have hne := FileTree.render_ne_empty directory
      rw [Option.map_some, Option.getD_some, Path.steps_join hne hjoin, Path.steps_join hne hroot',
        Path.names_join hroot hp, List.map_append, List.append_assoc]

end Host

/-- What is said of paths from a root that leads to a place. -/
structure RootJudges (h : Host) (root : String) (place : FileTree.Place) : Prop where
  inside : ∀ p ns, steps p = ns.map .into → ns ≠ [] → h.tree.Linkless place ns →
    h.pathExists (join root p) = true → isUnder h root (join root p) = true
  beside : ∀ p ns, steps p = .up :: ns.map .into → h.tree.Linkless place.dropLast ns →
    h.pathExists (join root p) = true →
    (isUnder h root (join root p) = true ↔
      place <+: place.dropLast ++ ns ∧ place.dropLast ++ ns ≠ place)
  missing : ∀ p, (∀ s ∈ steps p, s.isPiece = true) → h.pathExists (join root p) = false →
    (isUnder h root (join root p) = true ↔
      steps (h.canonical root) <+: steps (h.absolute root) ++ steps p ∧
      steps (h.absolute root) ++ steps p ≠ steps (h.canonical root))
  written : steps (h.absolute root) = steps (h.canonical root) → ∀ p ns, steps p = ns.map .into →
    ns ≠ [] → h.tree.Linkless place ns → isUnder h root (join root p) = true
  astray : steps (h.absolute root) = steps (h.canonical root) → ∀ p, steps p ≠ [] →
    (∀ s ∈ steps p, s.isPiece = true) → h.pathExists (join root p) = false →
    isUnder h root (join root p) = true

section

variable {h : Host} {root p : String} {place : FileTree.Place} {ns : List String}

theorem isUnder_of_resolve {q : FileTree.Place} (hdir : ∀ name ∈ h.here, IsName name)
    (hroot : h.tree.resolve h.here root = .ok place) (hp : h.tree.resolve h.here p = .ok q) :
    isUnder h root p = true ↔ place <+: q ∧ q ≠ place := by
  rw [isUnder, Host.canonical_of_resolve hroot, Host.canonical_of_resolve hp]
  exact FileTree.isProperlyUnder_render (FileTree.isName_of_resolve hroot hdir)
    (FileTree.isName_of_resolve hp hdir)

theorem isUnder_inside (hdir : ∀ name ∈ h.here, IsName name)
    (hroot : h.tree.resolve h.here root = .ok place) (hsteps : steps p = ns.map .into)
    (hne : ns ≠ []) (hlinks : h.tree.Linkless place ns)
    (hp : h.pathExists (join root p) = true) : isUnder h root (join root p) = true := by
  obtain ⟨q, hq⟩ := Host.pathExists_iff.mp hp
  obtain ⟨hrel, hnames⟩ := Path.names_of_steps hsteps (by simp [Step.isPiece])
  obtain ⟨rfl, hup⟩ := Path.eq_of_map_stepOf hnames
  obtain ⟨links, hleads⟩ := FileTree.leads_of_resolve_join hroot hrel hq
  have hway : ".." ∉ Path.pieces p := fun hmem => hup (List.mem_filter.mpr ⟨hmem, by decide⟩)
  rw [isUnder_of_resolve hdir hroot hq, hleads.eq_names hway hlinks]
  exact ⟨List.prefix_append _ _, by simpa using hne⟩

theorem isUnder_beside (hdir : ∀ name ∈ h.here, IsName name)
    (hroot : h.tree.resolve h.here root = .ok place) (hsteps : steps p = .up :: ns.map .into)
    (hlinks : h.tree.Linkless place.dropLast ns) (hp : h.pathExists (join root p) = true) :
    isUnder h root (join root p) = true ↔
      place <+: place.dropLast ++ ns ∧ place.dropLast ++ ns ≠ place := by
  obtain ⟨q, hq⟩ := Host.pathExists_iff.mp hp
  obtain ⟨hrel, hmap⟩ := Path.names_of_steps hsteps (by simp [Step.isPiece])
  obtain ⟨first, rest, hnames, hfirst, hrest⟩ := List.map_eq_cons_iff.mp hmap
  obtain rfl : first = ".." := by
    unfold Path.stepOf at hfirst
    split at hfirst
    · next heq => exact eq_of_beq heq
    · cases hfirst
  obtain ⟨rfl, hup⟩ := Path.eq_of_map_stepOf hrest
  obtain ⟨links, hleads⟩ := FileTree.leads_of_resolve_join hroot hrel hq
  obtain ⟨way, rfl, hon⟩ := hleads.of_up hnames
  have hway : ".." ∉ way := fun hmem => hup (List.mem_filter.mpr ⟨hmem, by decide⟩)
  rw [isUnder_of_resolve hdir hroot hq, hon.eq_names hway hlinks]

theorem isUnder_missing (hroot : h.tree.resolve h.here root = .ok place)
    (hpieces : ∀ s ∈ steps p, s.isPiece = true) (hp : h.pathExists (join root p) = false) :
    isUnder h root (join root p) = true ↔
      steps (h.canonical root) <+: steps (h.absolute root) ++ steps p ∧
      steps (h.absolute root) ++ steps p ≠ steps (h.canonical root) := by
  obtain ⟨hne, -⟩ := FileTree.resolve_eq_ok_iff.mp hroot
  obtain ⟨hrel, hnames⟩ := Path.names_of_steps rfl hpieces
  rw [isUnder, Host.canonical_of_missing hp, Path.isProperlyUnder, Path.startsWith,
    Host.steps_absolute_join hne hrel, hnames, Bool.and_eq_true, List.isPrefixOf_iff_prefix,
    bne_iff_ne]

end

theorem root_judges (h : Host) (root : String) (hdir : ∀ name ∈ h.here, IsName name)
    (hroot : h.isDirectory root = true) :
    ∃ place, h.tree.resolve h.here root = .ok place ∧ RootJudges h root place := by
  rw [Host.isDirectory, FileTree.isDirectory] at hroot
  split at hroot
  · next place hplace =>
    have hastray (hwritten : steps (h.absolute root) = steps (h.canonical root)) (p : String)
        (hne : steps p ≠ []) (hpieces : ∀ s ∈ steps p, s.isPiece = true)
        (hp : h.pathExists (join root p) = false) : isUnder h root (join root p) = true := by
      rw [isUnder_missing hplace hpieces hp, hwritten]
      exact ⟨List.prefix_append _ _, by simpa using hne⟩
    exact ⟨place, hplace,
      { inside := fun p ns => isUnder_inside hdir hplace
        beside := fun p ns => isUnder_beside hdir hplace
        missing := fun p => isUnder_missing hplace
        astray := hastray
        written := fun hwritten p ns hsteps hne hlinks => by
          cases hp : h.pathExists (join root p) with
          | true => exact isUnder_inside hdir hplace hsteps hne hlinks hp
          | false =>
            exact hastray hwritten p (by simpa [hsteps] using hne)
              (by simp [hsteps, Step.isPiece]) hp }⟩
  · cases hroot

def linkedHost : Host where
  tree := ⟨[(["home"], .directory), (["home", "real"], .directory),
    (["home", "link"], .link "real")]⟩
  directory := some ["home"]

theorem resolve_linkedHost :
    linkedHost.tree.resolve linkedHost.here "link" = .ok ["home", "real"] := by
  have hlink : IsName "link" := by decide
  have hreal : IsName "real" := by decide
  refine FileTree.resolve_eq_ok_iff.mpr ⟨by decide, ?_⟩
  rw [hlink.isAbsolute_eq, hlink.pieces_eq]
  refine .link rfl rfl (by decide) (by decide +kernel) rfl (by decide) ?_
  rw [hreal.isAbsolute_eq, hreal.pieces_eq]
  exact .into rfl rfl (by decide) (by decide +kernel) rfl (by rintro target ⟨⟩) .here

theorem isDirectory_linkedHost : linkedHost.isDirectory "link" = true := by
  rw [Host.isDirectory, FileTree.isDirectory, resolve_linkedHost]
  rfl

theorem linkedHost_judges :
    (∀ name ∈ linkedHost.here, IsName name) ∧ linkedHost.isDirectory "link" = true ∧
    ∃ place, linkedHost.tree.resolve linkedHost.here "link" = .ok place ∧
      RootJudges linkedHost "link" place :=
  ⟨by decide, isDirectory_linkedHost,
    root_judges linkedHost "link" (by decide) isDirectory_linkedHost⟩

/-- Under a link, a file does not lie below its root before it is there. -/
theorem missing_under_link :
    linkedHost.isDirectory "link" = true ∧
    linkedHost.tree.resolve linkedHost.here "link" = .ok ["home", "real"] ∧
    steps "a.rs" = [.into "a.rs"] ∧ linkedHost.tree.Linkless ["home", "real"] ["a.rs"] ∧
    isUnder linkedHost "link" (join "link" "a.rs") = false := by
  have hname : IsName "a.rs" := by decide
  have hlinks : linkedHost.tree.Linkless ["home", "real"] ["a.rs"] := by
    intro front hne hfront target hnode
    rcases List.prefix_cons_iff.mp hfront with rfl | ⟨rest, rfl, hrest⟩
    · exact hne rfl
    · obtain rfl := List.prefix_nil.mp hrest
      cases hnode
  have hp : linkedHost.pathExists (join "link" "a.rs") = false := by
    refine Bool.eq_false_iff.mpr fun htrue => ?_
    obtain ⟨q, hq⟩ := Host.pathExists_iff.mp htrue
    obtain ⟨links, hleads⟩ := FileTree.leads_of_resolve_join resolve_linkedHost
      hname.isAbsolute_eq hq
    have hvacant : linkedHost.tree.walk true links ["home", "real"] ["a.rs"] =
        .vacant ["home", "real", "a.rs"] := by
      rw [FileTree.walk]
      rfl
    rw [hname.pieces_eq, ← FileTree.walk_eq_present_iff, hvacant] at hleads
    cases hleads
  have hcanonical : linkedHost.canonical "link" = FileTree.render ["home", "real"] :=
    Host.canonical_of_resolve resolve_linkedHost
  have habsolute : linkedHost.absolute "link" = FileTree.render ["home", "link"] := by
    decide +kernel
  refine ⟨isDirectory_linkedHost, resolve_linkedHost, hname.steps_eq, hlinks, Bool.eq_false_iff.mpr fun htrue => ?_⟩
  have hprefix := ((isUnder_missing resolve_linkedHost (by rw [hname.steps_eq]; decide) hp).mp htrue).1
  rw [hcanonical, habsolute, FileTree.steps_render (by decide), FileTree.steps_render (by decide),
    hname.steps_eq] at hprefix
  exact absurd hprefix (by decide)

end LanguageSessions
