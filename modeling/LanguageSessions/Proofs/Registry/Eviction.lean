import LanguageSessions.Proofs.Registry.Roots

namespace LanguageSessions

namespace Tables

def strike (t : Tables) (ids : List SessionId) : Tables where
  byKey := t.byKey.filter fun e => !ids.contains e.2
  lastUse := t.lastUse.filter fun e => !ids.contains e.1
  attached := t.attached

variable {t : Tables} {key? : SessionId → Option SessionKey}

theorem strike_nil (t : Tables) : t.strike [] = t := by
  simp [strike]

theorem strike_cons (t : Tables) (id : SessionId) (ids : List SessionId) :
    (t.strike [id]).strike ids = t.strike (id :: ids) := by
  simp only [strike, List.filter_filter, List.contains_cons, List.contains_nil, Bool.or_false,
    Bool.not_or, Bool.and_comm]

theorem mem_strike_uses {ids : List SessionId} {e : SessionId × Nat} :
    e ∈ (t.strike ids).lastUse ↔ e ∈ t.lastUse ∧ e.1 ∉ ids := by
  simp [strike]

theorem Sound.drop_eq_strike (h : t.Sound key?) {key : SessionKey} {id : SessionId}
    (hmem : (key, id) ∈ t.byKey) : (t.dropKey key).dropUse id = t.strike [id] := by
  -- no other key leads to the session, so that its entry goes by either
  have hkeys : without key t.byKey = t.byKey.filter fun e => !([id].contains e.2) := by
    apply List.filter_congr
    intro e he
    have hiff : e.1 = key ↔ e.2 = id := by
      constructor
      · rintro rfl
        exact h.eq_of_key he hmem
      · intro heq
        have hkey := (h.keyed e he).1
        rw [heq, (h.keyed _ hmem).1] at hkey
        exact (Option.some.inj hkey).symm
    rw [Bool.eq_iff_iff]
    simp [hiff]
  have huses : without id t.lastUse = t.lastUse.filter fun e => !([id].contains e.1) := by
    apply List.filter_congr
    intro e _
    rw [Bool.eq_iff_iff]
    simp
  rw [strike, ← hkeys, ← huses]
  rfl

theorem uses_of_strike_expired {window now : Nat} {e : SessionId × Nat}
    (he : e ∈ (t.strike (t.expired window now)).lastUse) : now ≤ e.2 + window := by
  obtain ⟨he, hkept⟩ := mem_strike_uses.mp he
  by_contra hlate
  refine hkept (List.mem_map.mpr ⟨e, List.mem_filter.mpr ⟨he, ?_⟩, rfl⟩)
  exact decide_eq_true (Nat.lt_of_not_le hlate)

theorem expired_strike (t : Tables) (window now : Nat) :
    (t.strike (t.expired window now)).expired window now = [] := by
  rw [expired, List.map_eq_nil_iff, List.filter_eq_nil_iff]
  intro e he hlate
  exact Nat.not_lt.mpr (uses_of_strike_expired he) (of_decide_eq_true hlate)

theorem find?_strike {ids : List SessionId} {id : SessionId} (hid : id ∈ ids) (key : SessionKey) :
    (t.strike ids).find? key ≠ some id := by
  intro hfind
  have hkept := (List.mem_filter.mp (mem_of_lookup hfind)).2
  simp [hid] at hkept

theorem Sound.not_held_strike (h : t.Sound key?) {ids : List SessionId} {id : SessionId}
    (hid : id ∈ ids) (hused : id ∈ t.lastUse.map Prod.fst) : id ∉ (t.strike ids).held := by
  rw [mem_held]
  rintro (hkept | ⟨a, ha, e, he, rfl⟩)
  · obtain ⟨e, he, rfl⟩ := List.mem_map.mp hkept
    exact (mem_strike_uses.mp he).2 hid
  · exact h.alone a ha e he hused

end Tables

namespace Registry

variable {r : Registry} {Young Due Busy : SessionId → Prop}

theorem Sound.forgets_eq {ids : List SessionId} (h : r.Sound Young Due Busy) (hnodup : ids.Nodup)
    (hids : ∀ id ∈ ids, id ∈ r.tables.lastUse.map Prod.fst) :
    ids.foldl forget r = { r with tables := r.tables.strike ids } := by
  induction ids generalizing r Due with
  | nil => rw [Tables.strike_nil, List.foldl_nil]
  | cons id ids ih =>
    rw [List.nodup_cons] at hnodup
    -- those that are still to be forgotten are in use in the tables without this one
    obtain ⟨key, hmem, heq⟩ := h.forget_eq (hids id List.mem_cons_self)
    have hdropped := h.drop hmem
    rw [h.tables.drop_eq_strike hmem] at heq hdropped
    rw [List.foldl_cons, heq, ih hdropped hnodup.2, Tables.strike_cons]
    intro x hx
    obtain ⟨e, he, rfl⟩ := List.mem_map.mp (hids x (List.mem_cons_of_mem _ hx))
    refine List.mem_map.mpr ⟨e, Tables.mem_strike_uses.mpr ⟨he, ?_⟩, rfl⟩
    intro hsame
    exact hnodup.1 (List.mem_singleton.mp hsame ▸ hx)

theorem expired_sublist (t : Tables) (window now : Nat) :
    (t.expired window now).Sublist (t.lastUse.map Prod.fst) := List.filter_sublist.map Prod.fst

theorem Sound.evict_eq (h : r.Sound Young Due Busy) (window now : Nat) : r.evict window now =
    ({ r with
        tables := r.tables.strike (r.tables.expired window now)
        retired := r.retired ++ r.tables.expired window now },
      (r.tables.expired window now).length) := by
  have hsub := expired_sublist r.tables window now
  rw [Registry.evict, h.forgets_eq (h.tables.uses_nodup.sublist hsub) fun id hid => hsub.subset hid]
  rfl

theorem Sound.evict_again (h : r.Sound Young r.Retired Busy) (window now : Nat) :
    (r.evict window now).1.evict window now = ((r.evict window now).1, 0) := by
  rw [(h.evict window now).1.evict_eq, h.evict_eq]
  dsimp only
  rw [Tables.expired_strike, Tables.strike_nil, List.append_nil, List.length_nil]

end Registry

namespace Call

open Registry (Sound Frame)

variable {r r' : Registry} {Young Busy : SessionId → Prop} {ticket now : Nat}

inductive Visits (now : Nat) (c : Call) (r : Registry) (p : Registry × Advance Call Reply) : Prop where
  | keeps (hgives : c.gives p.2 = []) (huses : ∀ e ∈ p.1.tables.lastUse, e ∈ r.tables.lastUse)
  | visits (key : SessionKey) (id : SessionId) (hgives : c.gives p.2 = [(key, id)])
    (huses : p.1.tables.lastUse = Tables.assign id now r.tables.lastUse)

theorem gives_eq_nil {c : Call} (hkey : c.key? = none) (a : Advance Call Reply) : c.gives a = [] := by
  cases a with
  | done reply =>
    unfold gives
    rw [hkey]
  | _ => rfl

theorem gives_error (c : Call) (lenient : Bool) (f : SessionFault) :
    c.gives (.done (reply lenient (.error f))) = [] := by
  unfold gives
  dsimp only
  rw [reply_error]
  split
  · next hsome => cases hsome
  · rfl

theorem gives_ok {c : Call} {key : SessionKey} (hkey : c.key? = some key) (lenient : Bool)
    (id : SessionId) : c.gives (.done (reply lenient (.ok id))) = [(key, id)] := by
  unfold gives
  dsimp only
  rw [hkey, reply_ok]

theorem Visits.of_tables {c : Call} {p : Registry × Advance Call Reply} (hkey : c.key? = none)
    (htables : p.1.tables = r.tables) : c.Visits now r p :=
  .keeps (gives_eq_nil hkey p.2) fun _ he => htables ▸ he

theorem uses_live? (h : r.Sound Young r.Retired Busy) (key : SessionKey) :
    ∀ e ∈ (r.live? key).1.tables.lastUse, e ∈ r.tables.lastUse := by
  rcases h.live?_cases key with ⟨id, -, -, heq⟩ | ⟨-, heq⟩ | ⟨id, -, -, heq⟩
  · rw [heq]
    exact fun e he => he
  · rw [heq]
    exact fun e he => he
  · rw [heq]
    exact fun e he => ((Tables.mem_without id r.tables.lastUse e).mp he).1

theorem create_visits (h : r.Sound Young r.Retired Busy) (t : Target) (lenient : Bool) :
    (waiting (.create t) lenient).Visits now r (create r t lenient now) := by
  have huses := uses_live? h t.key
  rcases create_cases h t lenient now with ⟨id, -, -, heq⟩ |
    ⟨-, -, ⟨r', f, heq, hstays, -, -⟩ | ⟨r₁, r', id, hs, heq, hframe, hl, -⟩⟩
  · rw [heq]
    exact .visits t.key id (gives_ok rfl lenient id) rfl
  · rw [heq]
    refine .keeps (gives_error _ lenient f) fun e he => huses e ?_
    exact hstays.tables ▸ he
  · rw [heq]
    refine .keeps rfl fun e he => huses e ?_
    rw [← hframe.tables, ← hl.tables]
    exact he

theorem launch_tables (h : r.Sound Young r.Retired Busy) (key : SessionKey) (root : String)
    (d : ServerDescription) (b : Berth) (lenient : Bool) :
    (launch r key root d b lenient now).1.tables = r.tables := by
  rcases launch_cases h key root d b lenient now with ⟨r', f, heq, hstays, -, -⟩ |
    ⟨r', id, hs, heq, hl, -⟩
  · rw [heq]
    exact hstays.tables
  · rw [heq]
    exact hl.tables

theorem perform_visits (h : r.Sound Young r.Retired Busy) (w : Wish) (lenient : Bool) :
    (waiting w lenient).Visits now r (perform r w lenient now) := by
  cases w with
  | resolve owner file =>
    refine .keeps (gives_eq_nil rfl _) ?_
    have huses : (r.attachedFor? file).1.tables.lastUse = r.tables.lastUse := by
      rcases r.attachedFor?_cases file with ⟨id, heq⟩ | heq | ⟨a, -, e, -, heq⟩
      · rw [heq]
      · rw [heq]
      · rw [heq]
        rfl
    unfold perform
    dsimp only
    generalize r.attachedFor? file = p at huses ⊢
    obtain ⟨r', id?⟩ := p
    split
    · next heq => cases heq; exact fun e he => huses ▸ he
    · next heq =>
      cases heq
      split <;> exact fun e he => huses ▸ he
  | create t => exact create_visits h t lenient
  | attach key root d extensions =>
    exact .of_tables rfl (launch_tables h key root d (.attached root extensions) lenient)
  | list => exact .of_tables rfl rfl
  | evict window =>
    refine .keeps rfl fun e he => ?_
    change e ∈ (r.evict window now).1.tables.lastUse at he
    rw [h.evict_eq] at he
    exact (Tables.mem_strike_uses.mp he).1
  | restart key =>
    refine .keeps (gives_eq_nil rfl _) ?_
    have huses : ∀ e ∈ (r.remove key).1.tables.lastUse, e ∈ r.tables.lastUse := by
      rcases h.remove_cases key with ⟨-, hsame⟩ | ⟨id, -, heq⟩
      · rw [hsame]
        exact fun e he => he
      · rw [heq]
        exact fun e he => ((Tables.mem_without id r.tables.lastUse e).mp he).1
    rcases restart_cases r key lenient now with ⟨r', heq, hstep⟩ | ⟨r', id, a, heq, hstep, -⟩
    · rw [heq] at huses
      rw [hstep]
      exact huses
    · rw [heq] at huses
      rw [hstep, Registry.tables_change]
      exact huses
  | killAll =>
    refine .keeps rfl fun e he => ?_
    rw [tables_killAll] at he
    cases he
  | shutdownAll =>
    refine .keeps (gives_eq_nil rfl _) fun e he => ?_
    rw [tables_shutdownAll] at he
    cases he

theorem advance_visits (ticket now : Nat) (c : Call)
    (h : r.Sound (also Young c.young) r.Retired (also Busy c.cleaning))
    (hown : ∀ id ∈ c.young, ¬ Young id) : c.Visits now r (c.advance ticket now r) := by
  cases c with
  | waiting w lenient =>
    cases hfree : r.turns.isFree ticket with
    | true =>
      rw [advance_turn hfree]
      change r.Sound (also Young []) r.Retired (also Busy []) at h
      rw [also_nil, also_nil] at h
      have hsound : ({ r with turns := (r.turns.enter ticket).1 } : Registry).Sound Young
          r.Retired Busy := h.congr rfl
      cases perform_visits hsound w lenient with
      | keeps hgives huses => exact .keeps hgives huses
      | visits key id hgives huses => exact .visits key id hgives huses
    | false =>
      rw [advance_waits hfree]
      exact .keeps rfl fun e he => he
  | opening id hs b lenient =>
    rcases opening_cases h (hown id List.mem_cons_self) hs b lenient ticket now with
      ⟨r', a, hs', heq, ha, hframe, -⟩ | ⟨r', f, heq, hframe, -⟩ | ⟨r', s, heq, hframe, -⟩
    · rw [heq]
      refine .keeps ?_ fun e he => hframe.tables ▸ he
      rcases ha with ⟨rfl, -⟩ | rfl <;> rfl
    · rw [heq]
      exact .keeps (gives_error _ lenient f) fun e he => hframe.tables ▸ he
    · rw [heq]
      cases b with
      | keyed key =>
        refine .visits key id (gives_ok rfl lenient id) ?_
        change Tables.assign id now r'.tables.lastUse = _
        rw [hframe.tables]
      | attached root extensions =>
        refine .keeps (gives_eq_nil rfl _) fun e he => ?_
        change e ∈ (r'.tables.attach root extensions id).lastUse at he
        rw [Tables.uses_attach, hframe.tables] at he
        exact he
  | stopping id k => exact .of_tables rfl (tables_stopping ticket now id k r)
  | clearing ids rest => exact .of_tables rfl (tables_clearing ticket now ids rest r)

end Call

end LanguageSessions
