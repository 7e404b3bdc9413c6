import LanguageSessions.CommandLine.Program
import LanguageSessions.Proofs.Host.Walk
import LanguageSessions.Proofs.Lists.Sorted

namespace LanguageSessions

namespace CommandLine

def Found (h : Host) (e : ServerEntry) : Bool := (h.findCommand? e.command).isSome

/-- The last of the servers that have the name of one of them. -/
def namesake (es : List ServerEntry) (e : ServerEntry) : ServerEntry :=
  (es.reverse.find? (·.name == e.name)).getD e

theorem lookup_installed (s : Settings) (h : Host) (name : String) :
    (s.installed h).lookup name = (s.servers.reverse.find? (·.name == name)).map (Found h) := by
  refine lookup_foldl_last (fun name v found => found.filter (·.1 != name) ++ [(name, v)])
    (fun key v es k => ?_) ServerEntry.name (Found h) s.servers name
  rw [List.lookup_append, lookup_filter_ne, lookup_cons_eq, List.lookup_nil]
  by_cases hk : k = key
  · simp [hk]
  · simp [hk]

theorem namesake_self {es : List ServerEntry} (h : (es.map (·.name)).Nodup) {e : ServerEntry}
    (he : e ∈ es) : namesake es e = e := by
  unfold namesake
  cases hfound : es.reverse.find? (·.name == e.name) with
  | none => rfl
  | some f =>
    have hname : f.name = e.name := by simpa using List.find?_some hfound
    have hf : f ∈ es := List.mem_reverse.mp (List.mem_of_find?_eq_some hfound)
    exact List.inj_on_of_nodup_map h hf he hname

structure Describes (types : ContentTypes) (installed : ServerEntry → Bool) (e : ServerEntry)
    (row : Json) : Prop where
  name : row.get? "name" = some (.string e.name)
  command : row.get? "command" = some (.string e.command)
  contentTypes : row.get? "content_types" = some (Json.strings e.contentTypes)
  extensions : row.get? "extensions" =
    some (Json.strings (e.contentTypes.flatMap types.extensionsFor))
  flag : row.get? "installed" = some (.bool (installed e))

structure Lists (installed : ServerEntry → Bool) (s : Settings) (missingOnly : Bool)
    (report : Json) : Prop where
  rows : ∃ rows, report.get? "servers" = some (.array rows) ∧
    List.Forall₂ (Describes s.types installed)
      (if missingOnly then s.servers.filter fun e => !installed e else s.servers) rows
  installedCount : (report.get? "summary").bind (·.get? "installed") =
    some (.nat (s.servers.countP installed))
  missingCount : (report.get? "summary").bind (·.get? "missing") =
    some (.nat (s.servers.countP fun e => !installed e))

theorem describes_row {types : ContentTypes} {installed : ServerEntry → Bool} (r : ServerRow)
    (hextensions : r.extensions = r.entry.contentTypes.flatMap types.extensionsFor)
    (hinstalled : r.installed = installed r.entry) : Describes types installed r.entry r.toJson := by
  have hget (key : String) : r.toJson.get? key = _ := Json.get?_ofMembers
    ["name", "command", "content_types", "extensions", "installed"] (by decide) rfl key
  exact ⟨hget _, hget _, hget _, hextensions ▸ hget _, hinstalled ▸ hget _⟩

namespace App

theorem rows_eq (a : App) (h : Host) {installed : ServerEntry → Bool}
    (hinstalled : ∀ e ∈ a.settings.servers,
      installed e = Found h (namesake a.settings.servers e)) :
    a.rows h = a.settings.servers.map fun e =>
      { entry := e
        extensions := e.contentTypes.flatMap a.settings.types.extensionsFor
        installed := installed e } := by
  apply List.map_congr_left
  intro e he
  have hflag : ((a.settings.installed h).lookup e.name).getD false = installed e := by
    have hsome : (a.settings.servers.reverse.find? (·.name == e.name)).isSome := by
      rw [List.find?_isSome]
      exact ⟨e, List.mem_reverse.mpr he, beq_self_eq_true _⟩
    obtain ⟨f, hf⟩ := Option.isSome_iff_exists.mp hsome
    rw [hinstalled e he, lookup_installed, namesake, hf]
    rfl
  rw [hflag]

theorem lists_servers (a : App) (h : Host) (missingOnly : Bool) {installed : ServerEntry → Bool}
    (hinstalled : ∀ e ∈ a.settings.servers,
      installed e = Found h (namesake a.settings.servers e)) :
    Lists installed a.settings missingOnly (a.servers h missingOnly) := by
  have hget (key : String) : (a.servers h missingOnly).get? key = _ :=
    Json.get?_ofMembers ["summary", "servers", "success"] (by decide) rfl key
  have hsummary : (a.servers h missingOnly).get? "summary" = some (Json.ofMembers [
      ("installed", .nat ((a.rows h).countP (·.installed))),
      ("missing", .nat ((a.rows h).countP fun r => !r.installed))]) := hget _
  have hrows := a.rows_eq h hinstalled
  refine ⟨⟨_, hget "servers", ?_⟩, ?_, ?_⟩
  · rw [List.forall₂_map_right_iff]
    cases missingOnly with
    | true =>
      simp only [if_true]
      rw [hrows, List.filter_map, List.forall₂_map_right_iff]
      exact List.forall₂_same.mpr fun _ _ => describes_row ⟨_, _, _⟩ rfl rfl
    | false =>
      simp only [Bool.false_eq_true, if_false]
      rw [hrows, List.forall₂_map_right_iff]
      exact List.forall₂_same.mpr fun _ _ => describes_row ⟨_, _, _⟩ rfl rfl
  · rw [hsummary, Option.bind_some,
      Json.get?_ofMembers ["installed", "missing"] (by decide) rfl, hrows, List.countP_map]
    rfl
  · rw [hsummary, Option.bind_some,
      Json.get?_ofMembers ["installed", "missing"] (by decide) rfl, hrows, List.countP_map,
      List.countP_map]
    rfl

/-- The row of a server says whether the command of its namesake is found, the summary counts the
rows, and the rows of the missing servers are those that say so. Where no two servers share a name,
each row speaks of its own command. -/
theorem servers_listed (a : App) (h : Host) (processId : Nat)
    (i : Option Simulation.Interruption) (missingOnly : Bool) :
    ∃ report, a.answer h processId i (.servers missingOnly) = (h, some report) ∧
      Lists (fun e => Found h (namesake a.settings.servers e)) a.settings missingOnly report ∧
      ((a.settings.servers.map (·.name)).Nodup →
        Lists (Found h) a.settings missingOnly report) := by
  refine ⟨a.servers h missingOnly, rfl, a.lists_servers h missingOnly fun _ _ => rfl, ?_⟩
  intro hnames
  refine a.lists_servers h missingOnly fun e he => ?_
  rw [namesake_self hnames he]

def twoOfOneName : App where
  root := "/"
  files := .ofRoot {} "/"
  settings := { servers := [
    { name := "server", contentTypes := [], command := "here" },
    { name := "server", contentTypes := [], command := "gone" }] }

def oneCommandHost : Host where
  tree := ⟨[(["here"], .file [] true)]⟩
  environment := [("PATH", "")]

theorem searchPath_oneCommandHost : oneCommandHost.searchPath = [""] := by
  have henv : oneCommandHost.getEnv? "PATH" = some "" := by decide
  have hsplit : "".splitOn ":" = [""] := splitOn_singleton "" ':'
  have hdir : oneCommandHost.searchDirectory "" = "" := by
    rw [Host.searchDirectory, Path.pieces_empty]
    split
    · next heq => exact absurd (List.cons.inj heq).1 (by decide)
    · rfl
  rw [Host.searchPath, henv]
  dsimp only
  rw [hsplit, List.map_singleton, hdir]

theorem isSome_findCommand?_oneCommandHost {c : String} (hc : Path.IsName c) :
    (oneCommandHost.findCommand? c).isSome = oneCommandHost.isExecutable c := by
  have hjoin : Path.join "" c = c := by simp [Path.join, hc.isAbsolute_eq]
  rw [Host.findCommand?, hc.steps_eq, List.length_singleton, if_neg (Nat.lt_irrefl 1),
    searchPath_oneCommandHost, List.map_singleton, hjoin, List.isSome_find?, List.any_cons,
    List.any_nil, Bool.or_false]

theorem found_here : (oneCommandHost.findCommand? "here").isSome = true := by
  have hname : Path.IsName "here" := by decide
  have hplace : oneCommandHost.tree.resolve oneCommandHost.here "here" = .ok ["here"] :=
    FileTree.resolve_name hname rfl (by decide +kernel) rfl (by rintro target ⟨⟩)
  rw [isSome_findCommand?_oneCommandHost hname, Host.isExecutable, FileTree.file?, hplace]
  rfl

theorem not_found_gone : (oneCommandHost.findCommand? "gone").isSome = false := by
  have hname : Path.IsName "gone" := by decide
  have hplace : oneCommandHost.tree.resolve oneCommandHost.here "gone" = .error .notFound := by
    rw [FileTree.resolve, FileTree.locate, hname.isAbsolute_eq, hname.pieces_eq, FileTree.walk]
    rfl
  rw [isSome_findCommand?_oneCommandHost hname, Host.isExecutable, FileTree.file?, hplace]
  rfl

theorem found_command_is_hidden :
    ¬Lists (Found oneCommandHost) twoOfOneName.settings false
      (twoOfOneName.servers oneCommandHost false) := by
  intro hown
  have hkept := twoOfOneName.lists_servers oneCommandHost false fun _ _ => rfl
  have hcounts : Json.nat 1 = Json.nat 0 := by
    simpa [twoOfOneName, namesake, Found, found_here, not_found_gone] using
      hown.installedCount.symm.trans hkept.installedCount
  cases hcounts

end App

end CommandLine

end LanguageSessions
