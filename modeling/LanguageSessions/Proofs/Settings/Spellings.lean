import LanguageSessions.Proofs.Host.Walk
import LanguageSessions.Proofs.Settings.Precedence
import LanguageSessions.Proofs.Text.Utf8
import LanguageSessions.Proofs.Workspace.ContentTypes

namespace LanguageSessions

open Toml (field?)

def Spells (t : Toml.Table) (ext spelling : String) : Prop :=
  field? t "content_types" spelling ≠ none ∧ normalExtension spelling = ext

def typeOf? (G P : Toml.Table) (spelling : String) : Option Toml :=
  (field? P "content_types" spelling).or (field? G "content_types" spelling)

/-- The types that files have under the settings of two documents. -/
structure Spelled (G P : Toml.Table) (s : Settings) : Prop where
  greatest : ∀ file ext k, fileExtension? file = some ext → normalExtension k = ext →
    typeOf? G P k ≠ none → (∀ g, Spells G ext g ∨ Spells P ext g → g ≤ k) →
    ∃ type, typeOf? G P k = some (.string type) ∧ s.types.forFile? file = some type
  project : ∀ file ext k, fileExtension? file = some ext → Spells P ext k →
    (∀ g, Spells P ext g → g = k) → (∀ g, Spells G ext g → g ≤ k) →
    ∃ type, field? P "content_types" k = some (.string type) ∧
      s.types.forFile? file = some type
  user : ∀ file ext k g, fileExtension? file = some ext → Spells P ext k →
    (∀ g, Spells P ext g → g = k) → Spells G ext g → k < g → (∀ g', Spells G ext g' → g' ≤ g) →
    ∃ type, field? G "content_types" g = some (.string type) ∧
      s.types.forFile? file = some type

section

variable {G P : Toml.Table} {part : String} {types : List (String × String)}

theorem isTable_of_asStrings? {v : Toml} (h : Toml.asStrings? v = some types) :
    ∃ entries, v = .table entries := by
  cases v with
  | table entries => exact ⟨entries, rfl⟩
  | _ => cases h

theorem isTableAt_upper (hP : Toml.Distinct (.table P)) (h : Toml.IsTableAt (Toml.merge G P) part) :
    Toml.IsTableAt P part := by
  intro v hv
  by_contra hno
  have hnot : ∀ es, v ≠ .table es := fun es heq => hno ⟨es, heq⟩
  have hmerge : (Toml.merge G P).lookup part = some v := by
    rw [Toml.lookup_merge hP.keys, hv, Toml.layer, Toml.overlay_of_not_table hnot]
  exact hno (h v hmerge)

theorem typeOf?_ne_none {k : String} : typeOf? G P k ≠ none ↔
    field? G "content_types" k ≠ none ∨ field? P "content_types" k ≠ none := by
  rw [typeOf?, ne_eq, Option.or_eq_none_iff, not_and_or]
  exact or_comm

theorem lookup_types (hG : Toml.Distinct (.table G)) (hP : Toml.Distinct (.table P))
    (h : Toml.orElse Toml.asStrings? defaultContentTypes
      ((Toml.merge G P).lookup "content_types") = some types)
    (hsome : ∃ k, typeOf? G P k ≠ none) :
    (types.Pairwise fun e f => e.1 < f.1) ∧
      ∀ k, (types.lookup k).map Toml.string = typeOf? G P k := by
  have hread : ∀ v, (Toml.merge G P).lookup "content_types" = some v →
      Toml.asStrings? v = some types := by
    intro v hv
    rw [hv] at h
    exact h
  have hmerged : Toml.IsTableAt (Toml.merge G P) "content_types" :=
    fun v hv => isTable_of_asStrings? (hread v hv)
  have hPt := isTableAt_upper hP hmerged
  by_cases hGt : Toml.IsTableAt G "content_types"
  · refine Settings.types_of_merge hGt hPt hG hP h ?_
    obtain ⟨k, hk⟩ := hsome
    exact (typeOf?_ne_none.mp hk).imp (fun hne hnone => hne (Toml.field?_of_none hnone k))
      fun hne hnone => hne (Toml.field?_of_none hnone k)
  · -- what is no table leaves nothing under the table that lies over it
    obtain ⟨w, hw, hnot⟩ : ∃ w, G.lookup "content_types" = some w ∧ ∀ es, w ≠ .table es := by
      unfold Toml.IsTableAt at hGt
      push Not at hGt
      exact hGt
    have hfield : ∀ k, field? G "content_types" k = none := by
      intro k
      rw [field?, hw]
      cases w with
      | table es => exact absurd rfl (hnot es)
      | _ => rfl
    have hmerge : (Toml.merge G P).lookup "content_types" =
        Toml.layer (some w) (P.lookup "content_types") := hw ▸ Toml.lookup_merge hP.keys _
    cases hp : P.lookup "content_types" with
    | none =>
      rw [hp, Toml.layer_none] at hmerge
      obtain ⟨es, heq⟩ := hmerged w hmerge
      exact absurd heq (hnot es)
    | some v =>
      obtain ⟨p, rfl⟩ := hPt v hp
      have hbare : ∀ es, some w ≠ some (.table es) := fun es heq => hnot es (Option.some.inj heq)
      rw [hp, Toml.layer, Toml.overlay_over_bare hbare] at hmerge
      obtain ⟨hsorted, hlookup⟩ := Settings.lookup_of_asStrings? (hP.lookup hp).keys
        (hread _ hmerge)
      refine ⟨hsorted, fun k => ?_⟩
      rw [typeOf?, hfield, Option.or_none, Toml.field?_of_table hp, hlookup]

theorem forFile?_of_greatest {s : Settings} {file ext k : String}
    (hsorted : s.contentTypes.Pairwise fun e f => e.1 < f.1)
    (hlookup : ∀ k, (s.contentTypes.lookup k).map Toml.string = typeOf? G P k)
    (hfile : fileExtension? file = some ext) (hk : normalExtension k = ext)
    (hne : typeOf? G P k ≠ none) (hgreatest : ∀ g, Spells G ext g ∨ Spells P ext g → g ≤ k) :
    ∃ type, typeOf? G P k = some (.string type) ∧ s.types.forFile? file = some type := by
  obtain ⟨v, hv⟩ := Option.ne_none_iff_exists'.mp hne
  obtain ⟨type, htype, rfl⟩ := Option.map_eq_some_iff.mp ((hlookup k).trans hv)
  refine ⟨type, hv, ?_⟩
  rw [ContentTypes.forFile?, hfile, Option.bind_some, Settings.types]
  refine ContentTypes.lookup_ofList_of_greatest hsorted htype hk fun g hg hext => ?_
  have hspelled : typeOf? G P g ≠ none := by
    rw [← hlookup, ne_eq, Option.map_eq_none_iff]
    exact hg
  exact hgreatest g ((typeOf?_ne_none.mp hspelled).imp (⟨·, hext⟩) (⟨·, hext⟩))

theorem spelled_of_greatest {s : Settings} (h : ∀ file ext k, fileExtension? file = some ext →
    normalExtension k = ext → typeOf? G P k ≠ none →
    (∀ g, Spells G ext g ∨ Spells P ext g → g ≤ k) →
    ∃ type, typeOf? G P k = some (.string type) ∧ s.types.forFile? file = some type) :
    Spelled G P s where
  greatest := h
  project := by
    intro file ext k hfile hk honly hlast
    obtain ⟨v, hv⟩ := Option.ne_none_iff_exists'.mp hk.1
    obtain ⟨type, htype, hfor⟩ := h file ext k hfile hk.2 (typeOf?_ne_none.mpr (.inr hk.1))
      fun g hg => hg.elim (hlast g) fun hg => le_of_eq (honly g hg)
    rw [typeOf?, hv, Option.some_or] at htype
    exact ⟨type, hv.trans htype, hfor⟩
  user := by
    intro file ext k g hfile hk honly hg hlt hlast
    have hnone : field? P "content_types" g = none := by
      by_contra hne
      exact absurd (honly g ⟨hne, hg.2⟩) (ne_of_gt hlt)
    obtain ⟨type, htype, hfor⟩ := h file ext g hfile hg.2 (typeOf?_ne_none.mpr (.inl hg.1))
      fun g' hg' => hg'.elim (hlast g') fun hg' => honly g' hg' ▸ le_of_lt hlt
    rw [typeOf?, hnone, Option.none_or] at htype
    exact ⟨type, htype, hfor⟩

end

namespace SettingsFiles

theorem load_spellings (f : SettingsFiles) (h : Host) (s : Settings)
    (hs : f.load h false = .ok s) :
    ∃ G P, table h f.user = .ok G ∧ table h f.projectPath = .ok P ∧ Spelled G P s := by
  obtain ⟨G, P, s₀, hG, hP, hs₀, rfl⟩ := load_eq_ok hs
  obtain ⟨-, -, htypes, -⟩ := Settings.ofTable?_eq_some hs₀
  refine ⟨G, P, hG, hP, spelled_of_greatest fun file ext k hfile hk hne hgreatest => ?_⟩
  obtain ⟨hsorted, hlookup⟩ := lookup_types (distinct_of_table hG) (distinct_of_table hP) htypes
    ⟨k, hne⟩
  exact forFile?_of_greatest (s := override h s₀) hsorted hlookup hfile hk hne hgreatest

theorem load_of_tables {f : SettingsFiles} {h : Host} {G P : Toml.Table} {s : Settings}
    (hG : table h f.user = .ok G) (hP : table h f.projectPath = .ok P)
    (hs : Settings.ofTable? true (Toml.merge G P) = some s) :
    f.load h false = .ok (override h s) := by
  simp only [load, hG, hP, Except.map, bind, Except.bind, Bool.false_eq_true, if_false]
  rw [hs]

theorem table_of_text {h : Host} {path text : String} {place : FileTree.Place} {executable : Bool}
    {t : Toml.Table} (hplace : h.tree.resolve h.here path = .ok place)
    (hnode : h.tree.node? place = some (.file (Utf8.bytes text) executable))
    (ht : Toml.parse? text = some t) : table h path = .ok t := by
  have hthere : h.pathExists path = true := Host.pathExists_iff.mpr ⟨place, hplace⟩
  have hread : h.readText path = .ok text := by
    rw [Host.readText, Host.read, FileTree.read, hplace]
    dsimp only
    rw [hnode]
    dsimp only
    rw [Utf8.text?_bytes]
  rw [table, hthere, hread]
  simp only [Bool.not_true, Bool.false_eq_true, if_false]
  rw [ht]

def userText : String := "[content_types]\nrs = \"text/user\"\n"

def projectText : String := "[content_types]\n\".rs\" = \"text/project\"\n"

def twoFiles : SettingsFiles := ⟨"", "user"⟩

def twoFilesHost : Host where
  tree := ⟨[(["user"], .file (Utf8.bytes userText) false), ([".lspbind"], .directory),
    ([".lspbind", "config.toml"], .file (Utf8.bytes projectText) false)]⟩

theorem table_user {t : Toml.Table} (ht : Toml.parse? userText = some t) :
    table twoFilesHost twoFiles.user = .ok t := by
  have hplace : twoFilesHost.tree.resolve twoFilesHost.here "user" = .ok ["user"] :=
    FileTree.resolve_name (by decide) rfl (by decide +kernel) rfl (by rintro target ⟨⟩)
  exact table_of_text hplace rfl ht

theorem table_project {t : Toml.Table} (ht : Toml.parse? projectText = some t) :
    table twoFilesHost twoFiles.projectPath = .ok t := by
  have hpath : twoFiles.projectPath = ".lspbind/config.toml" := by decide +kernel
  have hrel : Path.isAbsolute ".lspbind/config.toml" = false := by decide +kernel
  have hplace : twoFilesHost.tree.resolve twoFilesHost.here ".lspbind/config.toml" =
      .ok [".lspbind", "config.toml"] := by
    refine FileTree.resolve_eq_ok_iff.mpr ⟨by decide, ?_⟩
    rw [hrel, Path.pieces_eq]
    exact .into rfl rfl (by decide) (by decide +kernel) rfl (by rintro target ⟨⟩)
      (.into rfl rfl (by decide) (by decide +kernel) rfl (by rintro target ⟨⟩) .here)
  exact hpath ▸ table_of_text hplace rfl ht

theorem load_twoFiles : ∃ s, twoFiles.load twoFilesHost false = .ok s ∧
    s.contentTypes = [(".rs", "text/project"), ("rs", "text/user")] := by
  have hread : ((Toml.parse? userText).bind fun G => (Toml.parse? projectText).bind fun P =>
      (Settings.ofTable? true (Toml.merge G P)).map (·.contentTypes)) =
      some [(".rs", "text/project"), ("rs", "text/user")] := by
    decide +kernel
  simp only [Option.bind_eq_some_iff, Option.map_eq_some_iff] at hread
  obtain ⟨G, hG, P, hP, s, hs, htypes⟩ := hread
  exact ⟨override twoFilesHost s, load_of_tables (table_user hG) (table_project hP) hs, htypes⟩

theorem twoFiles_spellings : ∃ s, twoFiles.load twoFilesHost false = .ok s ∧
    ∃ G P, table twoFilesHost twoFiles.user = .ok G ∧
      table twoFilesHost twoFiles.projectPath = .ok P ∧ Spelled G P s := by
  obtain ⟨s, hs, -⟩ := load_twoFiles
  exact ⟨s, hs, load_spellings twoFiles twoFilesHost s hs⟩

def typesIn (h : Host) (path : String) : Option (List (String × String)) :=
  (table h path).toOption.bind fun t => (t.lookup "content_types").bind Toml.asStrings?

theorem user_spelling_wins :
    typesIn twoFilesHost twoFiles.user = some [("rs", "text/user")] ∧
    typesIn twoFilesHost twoFiles.projectPath = some [(".rs", "text/project")] ∧
    fileExtension? "a.rs" = some "rs" ∧ normalExtension ".rs" = "rs" ∧
    ∃ s, twoFiles.load twoFilesHost false = .ok s ∧
      s.types.forFile? "a.rs" = some "text/user" := by
  have hG : ((Toml.parse? userText).bind fun t =>
      (t.lookup "content_types").bind Toml.asStrings?) = some [("rs", "text/user")] := by
    decide +kernel
  have hP : ((Toml.parse? projectText).bind fun t =>
      (t.lookup "content_types").bind Toml.asStrings?) = some [(".rs", "text/project")] := by
    decide +kernel
  have hfile : fileExtension? "a.rs" = some "rs" := by
    have hname : Path.IsName "a.rs" := by decide
    have hparts : "a.rs".splitOn "." = ["a", "rs"] := by
      refine (splitOn_singleton "a.rs" '.').trans ?_
      decide
    rw [fileExtension?, Path.extension?, Path.fileName?, hname.steps_eq, List.getLast?_singleton,
      Option.bind_some, hparts]
    decide +kernel
  obtain ⟨G, hparse, hG⟩ := Option.bind_eq_some_iff.mp hG
  obtain ⟨P, hparse', hP⟩ := Option.bind_eq_some_iff.mp hP
  obtain ⟨s, hs, htypes⟩ := load_twoFiles
  refine ⟨?_, ?_, hfile, by decide +kernel, s, hs, ?_⟩
  · rw [typesIn, table_user hparse]
    exact hG
  · rw [typesIn, table_project hparse']
    exact hP
  · rw [ContentTypes.forFile?, hfile, Settings.types, htypes]
    decide +kernel

end SettingsFiles

end LanguageSessions
