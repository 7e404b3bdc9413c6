import LanguageSessions.Proofs.Lists.Sorted
import LanguageSessions.Proofs.Toml.Distinct
import LanguageSessions.Settings.Files

namespace LanguageSessions

namespace Toml

def field? (t : Table) (part name : String) : Option Toml :=
  match t.lookup part with
  | some (.table entries) => entries.lookup name
  | _ => none

def IsTableAt (t : Table) (part : String) : Prop :=
  ∀ v, t.lookup part = some v → ∃ entries, v = .table entries

variable {G P t : Table} {part : String}

theorem merge_cases (hG : IsTableAt G part) (hP : IsTableAt P part) (h : Distinct (.table P)) :
    (merge G P).lookup part = G.lookup part ∧ P.lookup part = none ∨
    (merge G P).lookup part = P.lookup part ∧ G.lookup part = none ∨
    ∃ g p, G.lookup part = some (.table g) ∧ P.lookup part = some (.table p) ∧
      (merge G P).lookup part = some (.table (merge g p)) := by
  rw [lookup_merge h.keys]
  cases hp : P.lookup part with
  | none => exact .inl ⟨rfl, rfl⟩
  | some v =>
    obtain ⟨p, rfl⟩ := hP v hp
    cases hg : G.lookup part with
    | none =>
      exact .inr (.inl ⟨none_layer _, rfl⟩)
    | some w =>
      obtain ⟨g, rfl⟩ := hG w hg
      refine .inr (.inr ⟨g, p, rfl, rfl, ?_⟩)
      rw [layer, overlay]

theorem isTableAt_merge (hG : IsTableAt G part) (hP : IsTableAt P part) (h : Distinct (.table P)) :
    IsTableAt (merge G P) part := by
  intro v hv
  rcases merge_cases hG hP h with ⟨hmerge, -⟩ | ⟨hmerge, -⟩ | ⟨g, p, -, -, hmerge⟩
  · exact hG v (hmerge ▸ hv)
  · exact hP v (hmerge ▸ hv)
  · rw [hmerge] at hv
    cases hv
    exact ⟨_, rfl⟩

theorem field?_of_none (h : t.lookup part = none) (name : String) : field? t part name = none := by
  rw [field?, h]

theorem field?_of_table {entries : Table} (h : t.lookup part = some (.table entries))
    (name : String) : field? t part name = entries.lookup name := by
  rw [field?, h]

theorem field?_merge (hG : IsTableAt G part) (hP : IsTableAt P part) (h : Distinct (.table P))
    (name : String) :
    field? (merge G P) part name = layer (field? G part name) (field? P part name) := by
  have hsame : ∀ t : Table, (merge G P).lookup part = t.lookup part →
      field? (merge G P) part name = field? t part name := fun t ht => by rw [field?, ht, field?]
  rcases merge_cases hG hP h with ⟨hmerge, hp⟩ | ⟨hmerge, hg⟩ | ⟨g, p, hg, hp, hmerge⟩
  · rw [field?_of_none hp, layer_none, hsame G hmerge]
  · rw [field?_of_none hg, none_layer, hsame P hmerge]
  · rw [field?_of_table hg, field?_of_table hp, field?_of_table hmerge]
    exact lookup_merge (h.lookup hp).keys name

theorem part_of_orElse {read : Toml → Option α} {absent a : α}
    (h : orElse read absent (t.lookup part) = some a) (ht : IsTableAt t part)
    (hempty : read (.table []) = some absent) :
    ∃ entries, (∀ name, field? t part name = entries.lookup name) ∧
      read (.table entries) = some a := by
  cases hpart : t.lookup part with
  | none =>
    rw [hpart] at h
    cases h
    exact ⟨[], field?_of_none hpart, hempty⟩
  | some v =>
    obtain ⟨entries, rfl⟩ := ht v hpart
    rw [hpart] at h
    exact ⟨entries, field?_of_table hpart, h⟩

theorem orElse_layer {read : Toml → Option α} (hrefuses : ∀ entries, read (.table entries) = none)
    {absent a : α} {lower upper : Option Toml} (h : orElse read absent (layer lower upper) = some a) :
    orElse read absent (upper.or lower) = some a := by
  rw [← layer_eq_or]
  · exact h
  · intro entries hlayer
    rw [hlayer, orElse, hrefuses] at h
    cases h

end Toml

/-- A single setting: where it stands in the files, how the environment overrides it, how it is
read, and what it comes to. -/
structure Setting (α : Type) where
  part : String
  name : String
  override : Host → Option α
  read : Toml → Option α
  value : Settings → α

namespace Setting

variable {x : Setting α} {h : Host} {G P t : Toml.Table} {s : Settings}

def number (part name : String) (env? : Option String) (value : Settings → Nat) :
    Setting Nat where
  part := part
  name := name
  override h := env?.bind fun v =>
    (h.getEnv? v).bind fun text => Text.unsigned? Text.max64 (Text.trim text.toList)
  read := Toml.asNat?
  value := value

def numbers : List (Setting Nat) := [
  number "session" "keep_alive_mins" (some "LSPBIND_KEEP_ALIVE_MINS") (·.session.keepAliveMins),
  number "session" "handshake_poll_ms" none (·.session.handshakePollMs),
  number "session" "handshake_timeout_secs" (some "LSPBIND_HANDSHAKE_TIMEOUT_SECS")
    (·.session.handshakeTimeoutSecs),
  number "session" "request_timeout_ms" (some "LSPBIND_REQUEST_TIMEOUT_MS")
    (·.session.requestTimeoutMs),
  number "session" "shutdown_timeout_secs" none (·.session.shutdownTimeoutSecs),
  number "session" "exit_wait_secs" none (·.session.exitWaitSecs),
  number "tasks" "debounce_ms" (some "LSPBIND_DEBOUNCE_MS") (·.debounceMs)]

def logging : Setting Bool where
  part := "session"
  name := "communication_log"
  override h := (h.getEnv? "LSPBIND_COMMUNICATION_LOG").map fun text =>
    ["1", "true", "yes", "on"].contains (String.ofList (Text.trim text.toList))
  read := Toml.asBool?
  value := (·.session.communicationLog)

/-- What a setting comes to: the value of its variable, else that in the file of the project, else
that in the file of the user, else its default. -/
def Decided (x : Setting α) (h : Host) (G P : Toml.Table) (s : Settings) : Prop :=
  match x.override h with
  | some v => x.value s = v
  | none =>
    match (Toml.field? P x.part x.name).or (Toml.field? G x.part x.name) with
    | some v => x.read v = some (x.value s)
    | none => x.value s = x.value {}

def Reads (x : Setting α) (t : Toml.Table) (s : Settings) : Prop :=
  Toml.orElse x.read (x.value {}) (Toml.field? t x.part x.name) = some (x.value s)

theorem reads_of_part {entries : Toml.Table}
    (hpart : ∀ name, Toml.field? t x.part name = entries.lookup name)
    (hread : Toml.orElse x.read (x.value {}) (entries.lookup x.name) = some (x.value s)) :
    x.Reads t s := by
  rw [Reads, hpart]
  exact hread

theorem decided_of_reads (hrefuses : ∀ entries, x.read (.table entries) = none)
    (hoverride : x.value (SettingsFiles.override h s) = (x.override h).getD (x.value s))
    (hfield : Toml.field? t x.part x.name =
      Toml.layer (Toml.field? G x.part x.name) (Toml.field? P x.part x.name))
    (hreads : x.Reads t s) : x.Decided h G P (SettingsFiles.override h s) := by
  unfold Reads at hreads
  rw [hfield] at hreads
  have hread := Toml.orElse_layer hrefuses hreads
  unfold Decided
  cases hv : x.override h with
  | some v => rw [hoverride, hv, Option.getD_some]
  | none =>
    rw [hoverride, hv, Option.getD_none]
    cases hfound : (Toml.field? P x.part x.name).or (Toml.field? G x.part x.name) with
    | some v =>
      rw [hfound] at hread
      exact hread
    | none =>
      rw [hfound] at hread
      exact (Option.some.inj hread).symm

theorem Decided.eq_of_absent {t : Settings} (hs : x.Decided h G P s) (ht : x.Decided h G [] t)
    (hP : Toml.field? P x.part x.name = none) : x.value s = x.value t := by
  unfold Decided at hs ht
  rw [hP, Option.none_or] at hs
  rw [Toml.field?_of_none rfl, Option.none_or] at ht
  cases hv : x.override h with
  | some v =>
    rw [hv] at hs ht
    exact hs.trans ht.symm
  | none =>
    rw [hv] at hs ht
    cases hG : Toml.field? G x.part x.name with
    | some v =>
      rw [hG] at hs ht
      exact Option.some.inj (hs.symm.trans ht)
    | none =>
      rw [hG] at hs ht
      exact hs.trans ht.symm

end Setting

namespace Settings

variable {t G P : Toml.Table} {s : Settings} {h : Host}

theorem ofTable?_eq_some (hs : ofTable? true t = some s) :
    Toml.orElse (SessionSettings.ofToml? true) {} (t.lookup "session") = some s.session ∧
    Toml.orElse (debounce? true) ({} : Settings).debounceMs (t.lookup "tasks") = some s.debounceMs ∧
    Toml.orElse Toml.asStrings? defaultContentTypes (t.lookup "content_types") =
      some s.contentTypes ∧
    Toml.orElse (Toml.asList? (ServerEntry.ofToml? true)) defaultServers (t.lookup "servers") =
      some s.servers := by
  simp only [ofTable?, Option.bind_eq_bind, Option.bind_eq_some_iff, Option.pure_def,
    Option.some.injEq] at hs
  obtain ⟨session, hsession, debounce, hdebounce, types, htypes, servers, hservers, rfl⟩ := hs
  exact ⟨hsession, hdebounce, htypes, hservers⟩

theorem reads_of_table (hsession : Toml.IsTableAt t "session") (htasks : Toml.IsTableAt t "tasks")
    (hs : ofTable? true t = some s) :
    (∀ x ∈ Setting.numbers, x.Reads t s) ∧ Setting.logging.Reads t s := by
  obtain ⟨hsession', htasks', -, -⟩ := ofTable?_eq_some hs
  obtain ⟨entries, hfield, hread⟩ := Toml.part_of_orElse hsession' hsession rfl
  obtain ⟨tasks, htask, hdebounce⟩ := Toml.part_of_orElse htasks' htasks rfl
  have h₈ : Toml.orElse Toml.asNat? ({} : Settings).debounceMs (tasks.lookup "debounce_ms") =
      some s.debounceMs := hdebounce
  simp only [SessionSettings.ofToml?, Toml.fields?, SessionSettings.fieldNames, List.map_cons,
    List.map_nil, Option.bind_eq_bind, Option.bind_eq_some_iff, Option.pure_def,
    Option.some.injEq] at hread
  obtain ⟨keepAlive, h₁, poll, h₂, handshake, h₃, request, h₄, shutdown, h₅, exit, h₆, log, h₇, heq⟩ :=
    hread
  obtain ⟨session, debounceMs, types, servers⟩ := s
  dsimp only at heq
  subst heq
  refine ⟨?_, Setting.reads_of_part hfield h₇⟩
  unfold Setting.numbers
  simp only [List.forall_mem_cons]
  exact ⟨Setting.reads_of_part hfield h₁, Setting.reads_of_part hfield h₂,
    Setting.reads_of_part hfield h₃, Setting.reads_of_part hfield h₄,
    Setting.reads_of_part hfield h₅, Setting.reads_of_part hfield h₆,
    Setting.reads_of_part htask h₈, by rintro x ⟨⟩⟩

theorem lookup_of_mapM {entries : Toml.Table} {es : List (String × String)}
    (h : (entries.mapM fun e => (Toml.asString? e.2).map (e.1, ·)) = some es) :
    es.map Prod.fst = entries.map Prod.fst ∧
      ∀ k, (es.lookup k).map Toml.string = entries.lookup k := by
  induction entries generalizing es with
  | nil =>
    cases h
    exact ⟨rfl, fun _ => rfl⟩
  | cons e entries ih =>
    simp only [List.mapM_cons, Option.bind_eq_bind, Option.bind_eq_some_iff, Option.pure_def,
      Option.some.injEq] at h
    obtain ⟨f, hf, rest, hrest, rfl⟩ := h
    obtain ⟨text, htext, rfl⟩ := Option.map_eq_some_iff.mp hf
    obtain ⟨hkeys, hlookup⟩ := ih hrest
    have hstring : e.2 = .string text := by
      unfold Toml.asString? at htext
      split at htext <;> cases htext
      assumption
    refine ⟨by rw [List.map_cons, List.map_cons, hkeys], fun k => ?_⟩
    rw [lookup_cons_eq, lookup_cons_eq, ← hlookup, hstring]
    split <;> rfl

theorem lookup_of_asStrings? {entries : Toml.Table} {types : List (String × String)}
    (hkeys : (entries.map Prod.fst).Nodup) (h : Toml.asStrings? (.table entries) = some types) :
    (types.Pairwise fun e f => e.1 < f.1) ∧
      ∀ k, (types.lookup k).map Toml.string = entries.lookup k := by
  obtain ⟨es, hes, rfl⟩ := Option.map_eq_some_iff.mp h
  obtain ⟨hsame, hlookup⟩ := lookup_of_mapM hes
  simp only [ContentTypes.put_eq_enter]
  refine ⟨foldl_enter_pairwise es List.Pairwise.nil, fun k => ?_⟩
  rw [lookup_foldl_enter (hsame ▸ hkeys), List.lookup_nil, Option.or_none, hlookup]

structure Decided (h : Host) (G P : Toml.Table) (s : Settings) : Prop where
  numbers : ∀ x ∈ Setting.numbers, x.Decided h G P s
  logging : Setting.logging.Decided h G P s
  defaultTypes : G.lookup "content_types" = none → P.lookup "content_types" = none →
    s.contentTypes = defaultContentTypes
  types : G.lookup "content_types" ≠ none ∨ P.lookup "content_types" ≠ none →
    (s.contentTypes.Pairwise fun e f => e.1 < f.1) ∧
      ∀ ext, (s.contentTypes.lookup ext).map Toml.string =
        (Toml.field? P "content_types" ext).or (Toml.field? G "content_types" ext)
  servers :
    match (P.lookup "servers").or (G.lookup "servers") with
    | some v => Toml.asList? (ServerEntry.ofToml? true) v = some s.servers
    | none => s.servers = defaultServers

def HasTables (t : Toml.Table) : Prop :=
  ∀ part ∈ ["session", "tasks", "content_types"], Toml.IsTableAt t part

theorem types_of_merge (hG : Toml.IsTableAt G "content_types") (hP : Toml.IsTableAt P "content_types")
    (hG' : Toml.Distinct (.table G)) (hP' : Toml.Distinct (.table P))
    {types : List (String × String)}
    (h : Toml.orElse Toml.asStrings? defaultContentTypes
      ((Toml.merge G P).lookup "content_types") = some types)
    (hsome : G.lookup "content_types" ≠ none ∨ P.lookup "content_types" ≠ none) :
    (types.Pairwise fun e f => e.1 < f.1) ∧
      ∀ ext, (types.lookup ext).map Toml.string =
        (Toml.field? P "content_types" ext).or (Toml.field? G "content_types" ext) := by
  obtain ⟨entries, hentries⟩ : ∃ entries,
      (Toml.merge G P).lookup "content_types" = some (.table entries) := by
    have hfound : (Toml.merge G P).lookup "content_types" ≠ none := by
      rw [Toml.lookup_merge hP'.keys]
      unfold Toml.layer
      cases hp : P.lookup "content_types" with
      | none => exact hsome.resolve_right fun hne => hne hp
      | some v => simp
    obtain ⟨v, hv⟩ := Option.ne_none_iff_exists'.mp hfound
    obtain ⟨entries, rfl⟩ := Toml.isTableAt_merge hG hP hP' v hv
    exact ⟨entries, hv⟩
  rw [hentries] at h
  obtain ⟨hsorted, hlookup⟩ := lookup_of_asStrings? ((hG'.merge hP').lookup hentries).keys h
  refine ⟨hsorted, fun ext => ?_⟩
  have hfield := Toml.field?_merge hG hP hP' ext
  rw [Toml.field?_of_table hentries, ← hlookup] at hfield
  rw [hfield, Toml.layer_eq_or]
  -- a type is a string, so none lies over another one
  intro inner hinner
  rw [hinner] at hfield
  obtain ⟨type, -, heq⟩ := Option.map_eq_some_iff.mp hfield
  cases heq

theorem decided_of_merge (hG : HasTables G) (hP : HasTables P) (hG' : Toml.Distinct (.table G))
    (hP' : Toml.Distinct (.table P)) (hs : ofTable? true (Toml.merge G P) = some s) :
    Decided h G P (SettingsFiles.override h s) := by
  have hfield : ∀ part ∈ ["session", "tasks", "content_types"], ∀ name,
      Toml.field? (Toml.merge G P) part name =
        Toml.layer (Toml.field? G part name) (Toml.field? P part name) :=
    fun part hpart name => Toml.field?_merge (hG part hpart) (hP part hpart) hP' name
  have htable : HasTables (Toml.merge G P) := fun part hpart =>
    Toml.isTableAt_merge (hG part hpart) (hP part hpart) hP'
  obtain ⟨hnumbers, hlogging⟩ := reads_of_table (htable _ (by simp)) (htable _ (by simp)) hs
  obtain ⟨-, -, htypes, hservers⟩ := ofTable?_eq_some hs
  have hoverride : ∀ x ∈ Setting.numbers, (∀ entries, x.read (.table entries) = none) ∧
      x.part ∈ ["session", "tasks", "content_types"] ∧
      x.value (SettingsFiles.override h s) = (x.override h).getD (x.value s) := by
    unfold Setting.numbers
    simp only [List.forall_mem_cons]
    refine ⟨?_, ?_, ?_, ?_, ?_, ?_, ?_, by rintro x ⟨⟩⟩ <;>
      exact ⟨fun _ => rfl, by simp [Setting.number], rfl⟩
  exact {
    numbers := by
      intro x hx
      obtain ⟨hrefuses, hpart, hvalue⟩ := hoverride x hx
      exact Setting.decided_of_reads hrefuses hvalue (hfield x.part hpart x.name) (hnumbers x hx)
    logging := by
      refine Setting.decided_of_reads (fun _ => rfl) rfl (hfield _ (by simp [Setting.logging]) _) hlogging
    defaultTypes := by
      intro hg hp
      rw [Toml.lookup_merge hP'.keys, hg, hp] at htypes
      exact (Option.some.inj htypes).symm
    types := types_of_merge (hG _ (by simp)) (hP _ (by simp)) hG' hP' htypes
    servers := by
      rw [Toml.lookup_merge hP'.keys] at hservers
      have hread := Toml.orElse_layer (fun _ => rfl) hservers
      split
      · next v hv =>
        rw [hv] at hread
        exact hread
      · next hv =>
        rw [hv] at hread
        exact (Option.some.inj hread).symm }

structure Keeps (G P : Toml.Table) (s t : Settings) : Prop where
  numbers : ∀ x ∈ Setting.numbers, Toml.field? P x.part x.name = none → x.value s = x.value t
  logging : Toml.field? P Setting.logging.part Setting.logging.name = none →
    Setting.logging.value s = Setting.logging.value t
  types : ∀ ext, Toml.field? P "content_types" ext = none →
    Toml.field? G "content_types" ext ≠ none →
    s.contentTypes.lookup ext = t.contentTypes.lookup ext
  servers : P.lookup "servers" = none → s.servers = t.servers

theorem Decided.keeps {t : Settings} (hs : Decided h G P s) (ht : Decided h G [] t) :
    Keeps G P s t where
  numbers x hx hP := (hs.numbers x hx).eq_of_absent (ht.numbers x hx) hP
  logging hP := hs.logging.eq_of_absent ht.logging hP
  types := by
    intro ext hP hG
    have hsome : G.lookup "content_types" ≠ none := fun hnone => hG (Toml.field?_of_none hnone ext)
    have hs' := (hs.types (.inl hsome)).2 ext
    have ht' := (ht.types (.inl hsome)).2 ext
    rw [hP, Option.none_or] at hs'
    rw [Toml.field?_of_none rfl, Option.none_or] at ht'
    exact Option.map_injective (fun _ _ => Toml.string.inj) (hs'.trans ht'.symm)
  servers := by
    intro hP
    have hs' := hs.servers
    have ht' := ht.servers
    rw [hP, Option.none_or] at hs'
    rw [List.lookup_nil, Option.none_or] at ht'
    cases hG : G.lookup "servers" with
    | some v =>
      rw [hG] at hs' ht'
      exact Option.some.inj (hs'.symm.trans ht')
    | none =>
      rw [hG] at hs' ht'
      exact hs'.trans ht'.symm

end Settings

namespace SettingsFiles

open Settings (Decided HasTables Keeps)

theorem distinct_of_table {h : Host} {path : String} {t : Toml.Table} (ht : table h path = .ok t) :
    Toml.Distinct (.table t) := by
  unfold table at ht
  split at ht
  · cases ht
    exact .table List.nodup_nil (by rintro e ⟨⟩)
  · split at ht
    · cases ht
    · split at ht
      · next hparse =>
        cases ht
        exact Toml.distinct_of_parse? hparse
      · cases ht

/-- The settings that are loaded, where the parts of the files are tables that are to be. -/
structure Layers (f : SettingsFiles) (h : Host) : Prop where
  project : ∀ s, f.load h false = .ok s → ∃ G P, table h f.user = .ok G ∧
    table h f.projectPath = .ok P ∧ (HasTables G → HasTables P → Decided h G P s)
  user : ∀ s, f.load h true = .ok s → ∃ G, table h f.user = .ok G ∧
    (HasTables G → Decided h G [] s)
  keeps : ∀ s t, f.load h false = .ok s → f.load h true = .ok t → ∃ G P,
    table h f.user = .ok G ∧ table h f.projectPath = .ok P ∧
    (HasTables G → HasTables P → Keeps G P s t)

theorem of_bind_eq_ok {x : Except ε α} {f : α → Except ε β} {b : β} (h : (x >>= f) = .ok b) :
    ∃ a, x = .ok a ∧ f a = .ok b := by
  cases x with
  | error e => cases h
  | ok a => exact ⟨a, rfl, h⟩

theorem override_of_load {h : Host} {t : Toml.Table} {s : Settings}
    (hs : (match Settings.ofTable? true t with
      | some s => Except.ok (override h s)
      | none => .error (SettingsFault.parse none "unfit settings")) = .ok s) :
    ∃ s₀, Settings.ofTable? true t = some s₀ ∧ s = override h s₀ := by
  split at hs
  · next s₀ hs₀ =>
    cases hs
    exact ⟨s₀, hs₀, rfl⟩
  · cases hs

theorem load_eq_ok {f : SettingsFiles} {h : Host} {s : Settings} (hs : f.load h false = .ok s) :
    ∃ G P s₀, table h f.user = .ok G ∧ table h f.projectPath = .ok P ∧
      Settings.ofTable? true (Toml.merge G P) = some s₀ ∧ s = override h s₀ := by
  obtain ⟨G, hG, hs⟩ := of_bind_eq_ok hs
  obtain ⟨all, hall, hs⟩ := of_bind_eq_ok hs
  obtain ⟨s₀, hs₀, rfl⟩ := override_of_load hs
  cases hP : table h f.projectPath with
  | error fault =>
    rw [hP] at hall
    cases hall
  | ok P =>
    rw [hP] at hall
    cases hall
    exact ⟨G, P, s₀, hG, rfl, hs₀, rfl⟩

theorem load_project {f : SettingsFiles} {h : Host} {s : Settings} (hs : f.load h false = .ok s) :
    ∃ G P, table h f.user = .ok G ∧ table h f.projectPath = .ok P ∧
      (HasTables G → HasTables P → Decided h G P s) := by
  obtain ⟨G, P, s₀, hG, hP, hs₀, rfl⟩ := load_eq_ok hs
  exact ⟨G, P, hG, hP, fun hG' hP' => Settings.decided_of_merge hG' hP' (distinct_of_table hG)
    (distinct_of_table hP) hs₀⟩

theorem load_user {f : SettingsFiles} {h : Host} {s : Settings} (hs : f.load h true = .ok s) :
    ∃ G, table h f.user = .ok G ∧ (HasTables G → Decided h G [] s) := by
  obtain ⟨G, hG, hs⟩ := of_bind_eq_ok hs
  obtain ⟨s₀, hs₀, rfl⟩ := override_of_load hs
  have hmerge : Toml.merge G [] = G := by rw [Toml.merge]
  rw [← hmerge] at hs₀
  exact ⟨G, hG, fun hG' => Settings.decided_of_merge hG' (by rintro part - v ⟨⟩)
    (distinct_of_table hG) (.table List.nodup_nil (by rintro e ⟨⟩)) hs₀⟩

theorem load_layers (f : SettingsFiles) (h : Host) : Layers f h where
  project _ hs := load_project hs
  user _ hs := load_user hs
  keeps := by
    intro s t hs ht
    obtain ⟨G, P, hG, hP, hs'⟩ := load_project hs
    obtain ⟨G', hG', ht'⟩ := load_user ht
    rw [hG, Except.ok.injEq] at hG'
    subst hG'
    exact ⟨G, P, hG, hP, fun hg hp => (hs' hg hp).keeps (ht' hg)⟩

end SettingsFiles

end LanguageSessions
