import LanguageSessions.Connection.Basic
import LanguageSessions.Proofs.Lists.Lookup

namespace LanguageSessions

def Message.publication? : Message → Option Publication
  | .notification n =>
    if n.method = "textDocument/publishDiagnostics" then
      Publication.ofJson? (Json.ofOption n.params)
    else none
  | _ => none

def latest? (ms : List Message) (uri : String) : Option (List Diagnostic) :=
  ((ms.filterMap Message.publication?).reverse.find? (·.uri == uri)).map (·.diagnostics)

namespace DiagnosticsCache

structure Publishes (d : DiagnosticsCache) (p : Publication) (d' : DiagnosticsCache) : Prop where
  present : d'.entries.lookup p.uri = some p.diagnostics
  cached : d.entries.lookup p.uri ≠ none →
    ∀ uri, uri ≠ p.uri → d'.entries.lookup uri = d.entries.lookup uri
  roomy : d.entries.length < 200 →
    ∀ uri, uri ≠ p.uri → d'.entries.lookup uri = d.entries.lookup uri
  full : d.entries.length = 200 → d.entries.lookup p.uri = none →
    ∃ e, d.entries[d.victim d.forgotten % 200]? = some e ∧ d'.entries.lookup e.1 = none ∧
      ∀ uri, uri ≠ p.uri → uri ≠ e.1 → d'.entries.lookup uri = d.entries.lookup uri

structure Holds (ms : List Message) (d : DiagnosticsCache) : Prop where
  bounded : d.entries.length ≤ 200
  distinct : (d.entries.map Prod.fst).Nodup
  latest : ∀ uri ds, d.entries.lookup uri = some ds → latest? ms uri = some ds

end DiagnosticsCache

namespace Connection

def cacheAfter (c : Connection) (ms : List Message) : DiagnosticsCache :=
  (ms.foldl receive c).diagnostics

/-- A connection keeps of each file what was published last, as far as it has room. -/
structure CachesLatest (c : Connection) : Prop where
  holds : ∀ ms, (c.cacheAfter ms).Holds ms
  publishes : ∀ ms m p, m.publication? = some p →
    (c.cacheAfter ms).Publishes p (c.cacheAfter (ms ++ [m]))
  silent : ∀ ms m, m.publication? = none → c.cacheAfter (ms ++ [m]) = c.cacheAfter ms
  malformed : ∀ ms (n : Notification), n.method = "textDocument/publishDiagnostics" →
    Publication.ofJson? (Json.ofOption n.params) = none →
    (ms ++ [.notification n]).foldl receive c = ms.foldl receive c

end Connection

namespace DiagnosticsCache

variable {d : DiagnosticsCache} {p : Publication} {ms : List Message} {m : Message}

theorem any_uri_iff (es : List (String × List Diagnostic)) (uri : String) :
    es.any (·.1 == uri) = true ↔ es.lookup uri ≠ none := by
  constructor
  · intro hany
    obtain ⟨e, he, huri⟩ := List.any_eq_true.mp hany
    exact eq_of_beq huri ▸ lookup_ne_none he
  · intro hsome
    obtain ⟨ds, hds⟩ := Option.ne_none_iff_exists'.mp hsome
    exact List.any_eq_true.mpr ⟨_, mem_of_lookup hds, beq_self_eq_true uri⟩

theorem makeRoom_of_lt (h : d.entries.length < 200) : d.makeRoom = d := if_pos h

theorem makeRoom_sublist (d : DiagnosticsCache) : d.makeRoom.entries.Sublist d.entries := by
  unfold makeRoom
  split
  · exact List.Sublist.refl _
  · exact List.eraseIdx_sublist _ _

theorem makeRoom_length_lt (h : d.entries.length ≤ 200) : d.makeRoom.entries.length < 200 := by
  unfold makeRoom
  split
  · assumption
  · next hfull =>
    have hlength : d.entries.length = 200 := Nat.le_antisymm h (Nat.not_lt.mp hfull)
    have hplace : d.victim d.forgotten % d.entries.length < d.entries.length :=
      Nat.mod_lt _ (by omega)
    simp only [List.length_eraseIdx_of_lt hplace]
    omega

theorem makeRoom_full (h : d.entries.length = 200) (hkeys : (d.entries.map Prod.fst).Nodup) :
    ∃ e, d.entries[d.victim d.forgotten % 200]? = some e ∧
      ∀ key, d.makeRoom.entries.lookup key =
        if key = e.1 then none else d.entries.lookup key := by
  have hplace : d.victim d.forgotten % 200 < d.entries.length := h.symm ▸ Nat.mod_lt _ (by omega)
  have he := List.getElem?_eq_getElem hplace
  refine ⟨_, he, fun key => ?_⟩
  rw [makeRoom, capacity, if_neg (Nat.not_lt.mpr (Nat.le_of_eq h.symm))]
  dsimp only
  rw [h]
  exact lookup_eraseIdx hkeys he key

theorem lookup_makeRoom_eq_none {uri : String} (h : d.entries.lookup uri = none) :
    d.makeRoom.entries.lookup uri = none := by
  rw [List.lookup_eq_none_iff] at h ⊢
  intro e he
  exact h e ((makeRoom_sublist d).subset he)

theorem publish_cached (h : d.entries.lookup p.uri ≠ none) :
    d.publish p =
      { d with
        entries := d.entries.map fun e => if e.1 == p.uri then (p.uri, p.diagnostics) else e } :=
  if_pos ((any_uri_iff _ _).mpr h)

theorem publish_new (h : d.entries.lookup p.uri = none) :
    d.publish p =
      { d.makeRoom with entries := d.makeRoom.entries ++ [(p.uri, p.diagnostics)] } :=
  if_neg fun hany => (any_uri_iff _ _).mp hany h

theorem lookup_publish_cached (h : d.entries.lookup p.uri ≠ none) (uri : String) :
    (d.publish p).entries.lookup uri =
      if uri = p.uri then some p.diagnostics else d.entries.lookup uri := by
  rw [publish_cached h, lookup_replace]
  split
  · next huri =>
    obtain ⟨ds, hds⟩ := Option.ne_none_iff_exists'.mp h
    rw [huri, hds]
    rfl
  · rfl

theorem lookup_publish_new (h : d.entries.lookup p.uri = none) (uri : String) :
    (d.publish p).entries.lookup uri =
      if uri = p.uri then some p.diagnostics else d.makeRoom.entries.lookup uri := by
  rw [publish_new h]
  exact lookup_concat (lookup_makeRoom_eq_none h) _ _

theorem lookup_publish (d : DiagnosticsCache) (p : Publication) :
    (d.publish p).entries.lookup p.uri = some p.diagnostics := by
  by_cases h : d.entries.lookup p.uri = none
  · rw [lookup_publish_new h, if_pos rfl]
  · rw [lookup_publish_cached h, if_pos rfl]

theorem publishes (hkeys : (d.entries.map Prod.fst).Nodup) (p : Publication) :
    d.Publishes p (d.publish p) where
  present := lookup_publish d p
  cached := by
    intro h uri huri
    rw [lookup_publish_cached h, if_neg huri]
  roomy := by
    intro hlt uri huri
    by_cases h : d.entries.lookup p.uri = none
    · rw [lookup_publish_new h, if_neg huri, makeRoom_of_lt hlt]
    · rw [lookup_publish_cached h, if_neg huri]
  full := by
    intro hfull h
    obtain ⟨e, he, hlookup⟩ := makeRoom_full hfull hkeys
    have hold : d.entries.lookup e.1 ≠ none := lookup_ne_none (List.mem_of_getElem? he)
    have hne : e.1 ≠ p.uri := fun heq => hold (heq ▸ h)
    refine ⟨e, he, ?_, fun uri huri hother => ?_⟩
    · rw [lookup_publish_new h, if_neg hne, hlookup, if_pos rfl]
    · rw [lookup_publish_new h, if_neg huri, hlookup, if_neg hother]

theorem lookup_of_publish (hkeys : (d.entries.map Prod.fst).Nodup) {uri : String}
    {ds : List Diagnostic} (huri : uri ≠ p.uri)
    (h : (d.publish p).entries.lookup uri = some ds) : d.entries.lookup uri = some ds := by
  by_cases hnew : d.entries.lookup p.uri = none
  · rw [lookup_publish_new hnew, if_neg huri] at h
    exact (lookup_eq_some_iff_mem _ hkeys _ _).mpr ((makeRoom_sublist d).subset (mem_of_lookup h))
  · rwa [lookup_publish_cached hnew, if_neg huri] at h

theorem publish_length_le (h : d.entries.length ≤ 200) : (d.publish p).entries.length ≤ 200 := by
  by_cases hnew : d.entries.lookup p.uri = none
  · rw [publish_new hnew, List.length_append]
    exact makeRoom_length_lt h
  · rw [publish_cached hnew, List.length_map]
    exact h

theorem publish_keys_nodup (h : (d.entries.map Prod.fst).Nodup) :
    ((d.publish p).entries.map Prod.fst).Nodup := by
  by_cases hnew : d.entries.lookup p.uri = none
  · have hfresh : p.uri ∉ d.makeRoom.entries.map Prod.fst := by
      intro hmem
      obtain ⟨e, he, huri⟩ := List.mem_map.mp hmem
      exact lookup_ne_none he (huri ▸ lookup_makeRoom_eq_none hnew)
    rw [publish_new hnew, List.map_append]
    refine List.nodup_append.mpr
      ⟨h.sublist ((makeRoom_sublist d).map _), List.nodup_singleton _, ?_⟩
    rintro uri huri _ hmem rfl
    obtain rfl : uri = p.uri := List.mem_singleton.mp hmem
    exact hfresh huri
  · have hkeys : (d.entries.map fun e => if e.1 == p.uri then (p.uri, p.diagnostics) else e).map
        Prod.fst = d.entries.map Prod.fst := by
      rw [List.map_map]
      refine List.map_congr_left fun e _ => ?_
      by_cases he : e.1 = p.uri <;> simp [he]
    rw [publish_cached hnew, hkeys]
    exact h

theorem latest?_concat (ms : List Message) (m : Message) (uri : String) :
    latest? (ms ++ [m]) uri =
      match m.publication? with
      | some p => if p.uri = uri then some p.diagnostics else latest? ms uri
      | none => latest? ms uri := by
  unfold latest?
  rw [List.filterMap_append]
  cases hm : m.publication? with
  | none => simp [hm]
  | some p => by_cases huri : p.uri = uri <;> simp [hm, huri]

theorem Holds.publish (h : d.Holds ms) (hm : m.publication? = some p) :
    (d.publish p).Holds (ms ++ [m]) where
  bounded := publish_length_le h.bounded
  distinct := publish_keys_nodup h.distinct
  latest := by
    intro uri ds hds
    rw [latest?_concat, hm]
    dsimp only
    by_cases huri : p.uri = uri
    · subst huri
      rw [lookup_publish] at hds
      rw [if_pos rfl, hds]
    · rw [if_neg huri]
      exact h.latest uri ds (lookup_of_publish h.distinct (Ne.symm huri) hds)

theorem Holds.silent (h : d.Holds ms) (hm : m.publication? = none) : d.Holds (ms ++ [m]) := by
  refine ⟨h.bounded, h.distinct, fun uri ds hds => ?_⟩
  rw [latest?_concat, hm]
  exact h.latest uri ds hds

end DiagnosticsCache

namespace Connection

theorem logged_diagnostics (c : Connection) (params : Json) :
    (c.logged params).diagnostics = c.diagnostics := by
  unfold logged
  split <;> rfl

theorem receive_diagnostics (c : Connection) (m : Message) :
    (c.receive m).diagnostics =
      match m.publication? with
      | some p => c.diagnostics.publish p
      | none => c.diagnostics := by
  cases m with
  | request r => rfl
  | response r =>
    unfold receive settle
    dsimp only
    split <;> rfl
  | notification n =>
    unfold receive hear Message.publication?
    dsimp only
    split
    · next hmethod =>
      rw [if_pos hmethod]
      split <;> simp [*]
    · next hmethod => simp [hmethod, logged_diagnostics]
    · next hmethod => simp [hmethod, logged_diagnostics]
    · next hmethod _ _ => rw [if_neg hmethod]

theorem cacheAfter_concat (c : Connection) (ms : List Message) (m : Message) :
    c.cacheAfter (ms ++ [m]) =
      match m.publication? with
      | some p => (c.cacheAfter ms).publish p
      | none => c.cacheAfter ms := by
  unfold cacheAfter
  rw [List.foldl_append]
  exact receive_diagnostics _ m

theorem holds_cacheAfter {c : Connection} (h : c.diagnostics.Holds []) (ms : List Message) :
    (c.cacheAfter ms).Holds ms := by
  induction ms using List.reverseRecOn with
  | nil => exact h
  | append_singleton ms m ih =>
    rw [cacheAfter_concat]
    cases hm : m.publication? with
    | none => exact ih.silent hm
    | some p => exact ih.publish hm

theorem caches_latest (c : Connection) (victim : Nat → Nat) :
    CachesLatest { c with diagnostics := .ofVictims victim } := by
  have hempty : (DiagnosticsCache.ofVictims victim).Holds [] :=
    ⟨Nat.zero_le _, List.nodup_nil, by rintro uri ds ⟨⟩⟩
  have hholds := holds_cacheAfter (c := { c with diagnostics := .ofVictims victim }) hempty
  refine ⟨hholds, ?_, ?_, ?_⟩
  · intro ms m p hm
    rw [cacheAfter_concat, hm]
    exact DiagnosticsCache.publishes (hholds ms).distinct p
  · intro ms m hm
    rw [cacheAfter_concat, hm]
  · intro ms n hmethod hparams
    rw [List.foldl_append, List.foldl_cons, List.foldl_nil, receive, hear]
    simp only [hmethod, hparams]

end Connection

end LanguageSessions
