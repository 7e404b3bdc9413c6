import Mathlib.Data.List.Basic
import Mathlib.Data.Nat.Find
import Mathlib.Tactic.Push
import LanguageSessions.Settings.Basic

namespace LanguageSessions

structure Inquiry where
  host : Host
  contentType : String

/-- Settings with their servers, and the inquiries made of their providers. -/
structure Consultation where
  settings : Settings
  inquiries : List Inquiry

namespace Consultation

def servers (c : Consultation) : List ServerEntry := c.settings.servers

def standing (c : Consultation) (k : Nat) : List Provider :=
  (c.inquiries.take k).foldl (fun ps q => (Provider.describeFirst q.host q.contentType ps).1)
    c.settings.providers

def answer (c : Consultation) (k : Nat) : Option ServerDescription :=
  c.inquiries[k]?.bind fun q =>
    (Provider.describeFirst q.host q.contentType (c.standing k)).2

def Accepts (c : Consultation) (k i : Nat) : Prop :=
  ∃ q e, c.inquiries[k]? = some q ∧ c.servers[i]? = some e ∧ q.contentType ∈ e.contentTypes

def Declines (c : Consultation) (k i : Nat) : Prop :=
  ∃ q p, c.inquiries[k]? = some q ∧ (c.standing k)[i]? = some p ∧
    (p.describe q.host q.contentType).2 = none

def Reaches (c : Consultation) (k i : Nat) : Prop := c.Accepts k i ∧ ∀ j < i, c.Declines k j

def Probes (c : Consultation) (k i : Nat) : Prop :=
  ∃ p p', (c.standing k)[i]? = some p ∧ (c.standing (k + 1))[i]? = some p' ∧
    p.found = none ∧ p'.found ≠ none

def Resolves (c : Consultation) (k i : Nat) : Prop :=
  ∃ q e, c.inquiries[k]? = some q ∧ c.servers[i]? = some e ∧
    (q.host.findCommand? e.command).isSome

/-- Does the server `i` accept the type of the inquiry `k`, and was its command there when it was
looked for? -/
def Serves (c : Consultation) (k i : Nat) : Prop :=
  c.Accepts k i ∧ ∃ j, c.Probes j i ∧ c.Resolves j i

structure SelectsFirst (c : Consultation) : Prop where
  chosen : ∀ k i e, c.servers[i]? = some e → c.Serves k i → (∀ j < i, ¬c.Serves k j) →
    c.answer k = some e.description
  unserved : ∀ k, (∀ i, ¬c.Serves k i) → c.answer k = none
  probed : ∀ k i, c.Probes k i ↔ c.Reaches k i ∧ ∀ j < k, ¬c.Reaches j i
  once : ∀ j k i, c.Probes j i → c.Probes k i → j = k
  lasting : ∀ j k i, c.Probes j i → j ≤ k → c.Accepts k i → (c.Declines k i ↔ ¬c.Resolves j i)
  spared : ∀ k i, c.Serves k i → (∀ j < i, ¬c.Serves k j) → ∀ j > i, ¬c.Probes k j
  blind : ∀ k q h, c.inquiries[k]? = some q →
    (∀ i e, c.servers[i]? = some e → c.Probes k i →
      (h.findCommand? e.command).isSome = (q.host.findCommand? e.command).isSome) →
    Provider.describeFirst h q.contentType (c.standing k) =
      Provider.describeFirst q.host q.contentType (c.standing k)

end Consultation

namespace Provider

variable {h : Host} {type : String} {p : Provider} {ps : List Provider} {d : ServerDescription}

theorem describe_fst (p : Provider) (h : Host) (type : String) :
    (p.describe h type).1 =
      if p.accepts type = true ∧ p.found = none then { p with found := some (p.isThere h) }
      else p := by
  unfold describe probe
  cases p.accepts type with
  | false => simp
  | true =>
    cases hfound : p.found with
    | none => cases p.isThere h <;> simp
    | some b => cases b <;> simp

theorem describe_snd (p : Provider) (h : Host) (type : String) :
    (p.describe h type).2 =
      if p.accepts type = true ∧ p.found.getD (p.isThere h) = true then some p.description
      else none := by
  unfold describe probe
  cases p.accepts type with
  | false => simp
  | true =>
    cases hfound : p.found with
    | none => cases p.isThere h <;> simp
    | some b => cases b <;> simp

theorem describeFirst_of_some (hd : (p.describe h type).2 = some d) :
    describeFirst h type (p :: ps) = ((p.describe h type).1 :: ps, some d) := by
  rw [describeFirst]
  generalize p.describe h type = r at hd ⊢
  obtain ⟨p', _⟩ := r
  subst hd
  rfl

theorem describeFirst_of_none (hd : (p.describe h type).2 = none) :
    describeFirst h type (p :: ps) =
      ((p.describe h type).1 :: (describeFirst h type ps).1, (describeFirst h type ps).2) := by
  rw [describeFirst]
  generalize p.describe h type = r at hd ⊢
  obtain ⟨p', _⟩ := r
  subst hd
  rfl

theorem length_describeFirst (h : Host) (type : String) (ps : List Provider) :
    (describeFirst h type ps).1.length = ps.length := by
  induction ps with
  | nil => rfl
  | cons p ps ih =>
    cases hd : (p.describe h type).2 with
    | none => rw [describeFirst_of_none hd, List.length_cons, List.length_cons, ih]
    | some d => rw [describeFirst_of_some hd, List.length_cons, List.length_cons]

theorem getElem?_describeFirst_of_declined {i : Nat}
    (hall : ∀ j < i, ∀ r, ps[j]? = some r → (r.describe h type).2 = none) :
    (describeFirst h type ps).1[i]? = ps[i]?.map fun p => (p.describe h type).1 := by
  induction ps generalizing i with
  | nil => rfl
  | cons p ps ih =>
    cases i with
    | zero =>
      cases hd : (p.describe h type).2 with
      | none => simp [describeFirst_of_none hd]
      | some d => simp [describeFirst_of_some hd]
    | succ i =>
      have hd := hall 0 (Nat.succ_pos i) p rfl
      rw [describeFirst_of_none hd, List.getElem?_cons_succ, List.getElem?_cons_succ]
      exact ih fun j hj r hr => hall (j + 1) (Nat.succ_lt_succ hj) r hr

theorem getElem?_describeFirst_of_answered {i j : Nat} (hj : j < i) {r : Provider}
    (hr : ps[j]? = some r) (hd : (r.describe h type).2 ≠ none) :
    (describeFirst h type ps).1[i]? = ps[i]? := by
  induction ps generalizing i j with
  | nil => rfl
  | cons p ps ih =>
    obtain ⟨i, rfl⟩ := Nat.exists_eq_add_one_of_ne_zero (Nat.ne_zero_of_lt hj)
    cases hp : (p.describe h type).2 with
    | some d => rw [describeFirst_of_some hp, List.getElem?_cons_succ, List.getElem?_cons_succ]
    | none =>
      rw [describeFirst_of_none hp, List.getElem?_cons_succ, List.getElem?_cons_succ]
      cases j with
      | zero =>
        obtain rfl : p = r := by simpa using hr
        exact absurd hp hd
      | succ j => exact ih (Nat.lt_of_succ_lt_succ hj) hr

theorem describeFirst_snd_of_declined {i : Nat}
    (hall : ∀ j < i, ∀ r, ps[j]? = some r → (r.describe h type).2 = none)
    (hp : ps[i]? = some p) (hd : (p.describe h type).2 = some d) :
    (describeFirst h type ps).2 = some d := by
  induction ps generalizing i with
  | nil => simp at hp
  | cons r ps ih =>
    cases i with
    | zero =>
      obtain rfl : r = p := by simpa using hp
      rw [describeFirst_of_some hd]
    | succ i =>
      rw [describeFirst_of_none (hall 0 (Nat.succ_pos i) r rfl)]
      exact ih (fun j hj r hr => hall (j + 1) (Nat.succ_lt_succ hj) r hr) hp

theorem describeFirst_snd_eq_none (hall : ∀ p ∈ ps, (p.describe h type).2 = none) :
    (describeFirst h type ps).2 = none := by
  induction ps with
  | nil => rfl
  | cons p ps ih =>
    rw [describeFirst_of_none (hall p List.mem_cons_self)]
    exact ih fun r hr => hall r (List.mem_cons_of_mem p hr)

theorem describe_congr {g : Host}
    (hsame : p.accepts type = true → p.found = none → p.isThere g = p.isThere h) :
    p.describe g type = p.describe h type := by
  refine Prod.ext ?_ ?_
  · rw [describe_fst, describe_fst]
    by_cases hprobe : p.accepts type = true ∧ p.found = none
    · rw [hsame hprobe.1 hprobe.2]
    · rw [if_neg hprobe, if_neg hprobe]
  · rw [describe_snd, describe_snd]
    cases hfound : p.found with
    | some b => rfl
    | none =>
      by_cases haccepts : p.accepts type = true
      · rw [hsame haccepts hfound]
      · rw [if_neg (haccepts ·.1), if_neg (haccepts ·.1)]

theorem describeFirst_congr {g : Host}
    (hsame : ∀ (i : Nat) (p : Provider), ps[i]? = some p → p.accepts type = true → p.found = none →
      (∀ j < i, ∀ r, ps[j]? = some r → (r.describe h type).2 = none) →
      p.isThere g = p.isThere h) :
    describeFirst g type ps = describeFirst h type ps := by
  induction ps with
  | nil => rfl
  | cons p ps ih =>
    have hp : p.describe g type = p.describe h type :=
      describe_congr fun haccepts hfound => hsame 0 p rfl haccepts hfound (by simp)
    cases hd : (p.describe h type).2 with
    | some d => rw [describeFirst_of_some hd, describeFirst_of_some (hp ▸ hd), hp]
    | none =>
      have hrest : describeFirst g type ps = describeFirst h type ps := by
        apply ih
        intro i r hr haccepts hfound hall
        refine hsame (i + 1) r hr haccepts hfound fun j hj s hs => ?_
        cases j with
        | zero =>
          obtain rfl : p = s := by simpa using hs
          exact hd
        | succ j => exact hall j (Nat.lt_of_succ_lt_succ hj) s hs
      rw [describeFirst_of_none hd, describeFirst_of_none (hp ▸ hd), hp, hrest]

end Provider

namespace Consultation

variable {c : Consultation} {i j k : Nat} {e : ServerEntry} {p : Provider} {q : Inquiry}

theorem standing_succ (hq : c.inquiries[k]? = some q) :
    c.standing (k + 1) = (Provider.describeFirst q.host q.contentType (c.standing k)).1 := by
  rw [standing, List.take_add_one, hq, Option.toList_some, List.foldl_concat]
  rfl

theorem standing_of_none (hq : c.inquiries[k]? = none) : c.standing (k + 1) = c.standing k := by
  rw [standing, List.take_add_one, hq, Option.toList_none, List.append_nil]
  rfl

theorem not_reaches_of_none (hq : c.inquiries[k]? = none) : ¬c.Reaches k i := by
  rintro ⟨⟨q, e, hq', -⟩, -⟩
  rw [hq] at hq'
  cases hq'

structure Tracks (c : Consultation) (k i : Nat) (e : ServerEntry) (p : Provider) : Prop where
  standing : (c.standing k)[i]? = some p
  same : p = { e.provider with found := p.found }
  unprobed : p.found = none → ∀ j < k, ¬c.Reaches j i
  probed : ∀ b, p.found = some b → ∃ j < k, c.Reaches j i ∧ (∀ l < j, ¬c.Reaches l i) ∧
    (b = true ↔ c.Resolves j i)

theorem Tracks.accepts_iff (h : c.Tracks k i e p) (hq : c.inquiries[k]? = some q)
    (he : c.servers[i]? = some e) : p.accepts q.contentType = true ↔ c.Accepts k i := by
  have htypes : p.contentTypes = e.contentTypes := by rw [h.same]; rfl
  rw [Provider.accepts, List.contains_iff_mem, htypes]
  constructor
  · exact fun hmem => ⟨q, e, hq, he, hmem⟩
  · rintro ⟨q', e', hq', he', hmem⟩
    rw [hq] at hq'
    rw [he] at he'
    cases hq'
    cases he'
    exact hmem

theorem Tracks.isThere_iff (h : c.Tracks k i e p) (hq : c.inquiries[k]? = some q)
    (he : c.servers[i]? = some e) : p.isThere q.host = true ↔ c.Resolves k i := by
  have hthere : p.isThere q.host = (q.host.findCommand? e.command).isSome := by rw [h.same]; rfl
  rw [hthere]
  constructor
  · exact fun hsome => ⟨q, e, hq, he, hsome⟩
  · rintro ⟨q', e', hq', he', hsome⟩
    rw [hq] at hq'
    rw [he] at he'
    cases hq'
    cases he'
    exact hsome

theorem Tracks.keep (h : c.Tracks k i e p) (hstanding : (c.standing (k + 1))[i]? = some p)
    (hreaches : p.found = none → ¬c.Reaches k i) : c.Tracks (k + 1) i e p where
  standing := hstanding
  same := h.same
  unprobed := by
    intro hfound j hj
    rcases Nat.lt_succ_iff_lt_or_eq.mp hj with hj | rfl
    · exact h.unprobed hfound j hj
    · exact hreaches hfound
  probed := by
    intro b hb
    obtain ⟨j, hj, hrest⟩ := h.probed b hb
    exact ⟨j, Nat.lt_succ_of_lt hj, hrest⟩

theorem Tracks.probe (h : c.Tracks k i e p) (hq : c.inquiries[k]? = some q)
    (he : c.servers[i]? = some e) (hreaches : c.Reaches k i) (hfound : p.found = none)
    (hstanding : (c.standing (k + 1))[i]? = some { p with found := some (p.isThere q.host) }) :
    c.Tracks (k + 1) i e { p with found := some (p.isThere q.host) } where
  standing := hstanding
  same := by
    rw [h.same]
  unprobed := by rintro ⟨⟩
  probed := by
    rintro _ ⟨⟩
    exact ⟨k, Nat.lt_succ_self k, hreaches, h.unprobed hfound, h.isThere_iff hq he⟩

theorem declines_iff (hq : c.inquiries[k]? = some q) (hp : (c.standing k)[i]? = some p) :
    c.Declines k i ↔ (p.describe q.host q.contentType).2 = none := by
  constructor
  · rintro ⟨q', p', hq', hp', hnone⟩
    rw [hq] at hq'
    rw [hp] at hp'
    cases hq'
    cases hp'
    exact hnone
  · exact fun hnone => ⟨q, p, hq, hp, hnone⟩

theorem describe_of_declines (hq : c.inquiries[k]? = some q) (hall : ∀ j < i, c.Declines k j) :
    ∀ j < i, ∀ r, (c.standing k)[j]? = some r → (r.describe q.host q.contentType).2 = none :=
  fun j hj _ hr => (declines_iff hq hr).mp (hall j hj)

theorem standing_of_reached (hq : c.inquiries[k]? = some q) (hall : ∀ j < i, c.Declines k j) :
    (c.standing (k + 1))[i]? =
      (c.standing k)[i]?.map fun p => (p.describe q.host q.contentType).1 := by
  rw [standing_succ hq]
  exact Provider.getElem?_describeFirst_of_declined (describe_of_declines hq hall)

theorem exists_earlier (hp : (c.standing k)[i]? = some p) (hj : j < i) :
    ∃ r, (c.standing k)[j]? = some r := by
  have hi : i < (c.standing k).length := (List.getElem?_eq_some_iff.mp hp).1
  exact ⟨_, List.getElem?_eq_getElem (Nat.lt_trans hj hi)⟩

theorem standing_of_unreached (hq : c.inquiries[k]? = some q) (hp : (c.standing k)[i]? = some p)
    (hj : j < i) (hanswers : ¬c.Declines k j) : (c.standing (k + 1))[i]? = some p := by
  obtain ⟨r, hr⟩ := exists_earlier hp hj
  rw [standing_succ hq, ← hp]
  exact Provider.getElem?_describeFirst_of_answered hj hr ((declines_iff hq hr).not.mp hanswers)

theorem exists_tracks (he : c.servers[i]? = some e) (k : Nat) : ∃ p, c.Tracks k i e p := by
  induction k with
  | zero =>
    refine ⟨e.provider, ?_, rfl, fun _ _ hj => absurd hj (Nat.not_lt_zero _), by rintro b ⟨⟩⟩
    rw [standing, List.take_zero, List.foldl_nil, Settings.providers, List.getElem?_map]
    exact congrArg (Option.map ServerEntry.provider) he
  | succ k ih =>
    -- only a provider that is reached, by a type that it accepts, learns anything
    obtain ⟨p, h⟩ := ih
    cases hq : c.inquiries[k]? with
    | none =>
      exact ⟨p, h.keep (standing_of_none hq ▸ h.standing) fun _ => not_reaches_of_none hq⟩
    | some q =>
      by_cases hall : ∀ j < i, c.Declines k j
      · have hnext := standing_of_reached hq hall
        rw [h.standing, Option.map_some, Provider.describe_fst] at hnext
        have haccepts := h.accepts_iff hq he
        by_cases hprobe : p.accepts q.contentType = true ∧ p.found = none
        · rw [if_pos hprobe] at hnext
          exact ⟨_, h.probe hq he ⟨haccepts.mp hprobe.1, hall⟩ hprobe.2 hnext⟩
        · rw [if_neg hprobe] at hnext
          exact ⟨p, h.keep hnext fun hfound hreaches =>
            hprobe ⟨haccepts.mpr hreaches.1, hfound⟩⟩
      · push Not at hall
        obtain ⟨j, hj, hanswers⟩ := hall
        exact ⟨p, h.keep (standing_of_unreached hq h.standing hj hanswers)
          fun _ hreaches => hanswers (hreaches.2 j hj)⟩

theorem length_standing (c : Consultation) (k : Nat) :
    (c.standing k).length = c.servers.length := by
  induction k with
  | zero => exact List.length_map _
  | succ k ih =>
    cases hq : c.inquiries[k]? with
    | none => rw [standing_of_none hq, ih]
    | some q => rw [standing_succ hq, Provider.length_describeFirst, ih]

theorem servers_of_standing (hp : (c.standing k)[i]? = some p) : ∃ e, c.servers[i]? = some e := by
  have hi : i < c.servers.length :=
    length_standing c k ▸ (List.getElem?_eq_some_iff.mp hp).1
  exact ⟨_, List.getElem?_eq_getElem hi⟩

theorem probes_iff (k i : Nat) : c.Probes k i ↔ c.Reaches k i ∧ ∀ j < k, ¬c.Reaches j i := by
  constructor
  · rintro ⟨p, p', hp, hp', hfound, hfound'⟩
    obtain ⟨e, he⟩ := servers_of_standing hp
    obtain ⟨r, hr⟩ := exists_tracks he k
    obtain ⟨r', hr'⟩ := exists_tracks he (k + 1)
    obtain rfl : r = p := Option.some.inj (hr.standing.symm.trans hp)
    obtain rfl : r' = p' := Option.some.inj (hr'.standing.symm.trans hp')
    obtain ⟨b, hb⟩ := Option.ne_none_iff_exists'.mp hfound'
    obtain ⟨j, hj, hreaches, -, -⟩ := hr'.probed b hb
    have hbefore := hr.unprobed hfound
    rcases Nat.lt_succ_iff_lt_or_eq.mp hj with hj | rfl
    · exact absurd hreaches (hbefore j hj)
    · exact ⟨hreaches, hbefore⟩
  · rintro ⟨hreaches, hbefore⟩
    obtain ⟨q, e, hq, he, -⟩ := hreaches.1
    obtain ⟨p, hp⟩ := exists_tracks he k
    obtain ⟨p', hp'⟩ := exists_tracks he (k + 1)
    refine ⟨p, p', hp.standing, hp'.standing, ?_, fun hfound => ?_⟩
    · by_contra hfound
      obtain ⟨b, hb⟩ := Option.ne_none_iff_exists'.mp hfound
      obtain ⟨j, hj, hearlier, -, -⟩ := hp.probed b hb
      exact hbefore j hj hearlier
    · exact hp'.unprobed hfound k (Nat.lt_succ_self k) hreaches

theorem probes_unique (hj : c.Probes j i) (hk : c.Probes k i) : j = k := by
  rw [probes_iff] at hj hk
  rcases Nat.lt_trichotomy j k with hlt | heq | hgt
  · exact absurd hj.1 (hk.2 j hlt)
  · exact heq
  · exact absurd hk.1 (hj.2 k hgt)

theorem Reaches.exists_probes (h : c.Reaches k i) : ∃ j ≤ k, c.Probes j i := by
  classical
  have hsome : ∃ j, c.Reaches j i := ⟨k, h⟩
  refine ⟨Nat.find hsome, Nat.find_min' hsome h, (probes_iff _ _).mpr ⟨Nat.find_spec hsome, ?_⟩⟩
  exact fun l hl => Nat.find_min hsome hl

theorem declines_of_not_accepts (hq : c.inquiries[k]? = some q) (he : c.servers[i]? = some e)
    (h : ¬c.Accepts k i) : c.Declines k i := by
  obtain ⟨p, hp⟩ := exists_tracks he k
  rw [declines_iff hq hp.standing, Provider.describe_snd, if_neg]
  exact fun hanswers => h ((hp.accepts_iff hq he).mp hanswers.1)

theorem Probes.declines_iff (h : c.Probes j i) (hjk : j ≤ k) (haccepts : c.Accepts k i) :
    c.Declines k i ↔ ¬c.Resolves j i := by
  obtain ⟨q, e, hq, he, hmem⟩ := haccepts
  obtain ⟨p, hp⟩ := exists_tracks he k
  have haccepts := (hp.accepts_iff hq he).mpr ⟨q, e, hq, he, hmem⟩
  have hknown : p.found.getD (p.isThere q.host) = true ↔ c.Resolves j i := by
    cases hfound : p.found with
    | none =>
      have hk : k ≤ j := by
        by_contra hlt
        exact hp.unprobed hfound j (Nat.not_le.mp hlt) ((probes_iff j i).mp h).1
      obtain rfl : j = k := Nat.le_antisymm hjk hk
      exact hp.isThere_iff hq he
    | some b =>
      obtain ⟨l, -, hreaches, hfirst, hb⟩ := hp.probed b hfound
      obtain rfl : l = j := probes_unique ((probes_iff l i).mpr ⟨hreaches, hfirst⟩) h
      exact hb
  rw [Consultation.declines_iff hq hp.standing, Provider.describe_snd, ← hknown]
  simp [haccepts]

theorem declines_before (hq : c.inquiries[k]? = some q) (hi : i ≤ c.servers.length)
    (hnone : ∀ j < i, ¬c.Serves k j) : ∀ j < i, c.Declines k j := by
  intro j
  induction j using Nat.strong_induction_on with
  | h j ih =>
    intro hj
    have he := List.getElem?_eq_getElem (Nat.lt_of_lt_of_le hj hi)
    by_cases haccepts : c.Accepts k j
    · have hreaches : c.Reaches k j := ⟨haccepts, fun l hl => ih l hl (Nat.lt_trans hl hj)⟩
      obtain ⟨l, hl, hprobes⟩ := hreaches.exists_probes
      exact (hprobes.declines_iff hl haccepts).mpr
        fun hresolves => hnone j hj ⟨haccepts, l, hprobes, hresolves⟩
    · exact declines_of_not_accepts hq he haccepts

theorem Serves.not_declines (h : c.Serves k i) (hbefore : ∀ j < i, c.Declines k j) :
    ¬c.Declines k i := by
  obtain ⟨haccepts, j, hprobes, hresolves⟩ := h
  obtain ⟨l, hl, hprobes'⟩ := Reaches.exists_probes ⟨haccepts, hbefore⟩
  obtain rfl := probes_unique hprobes hprobes'
  rw [hprobes.declines_iff hl haccepts]
  exact not_not_intro hresolves

theorem Serves.declines_before (h : c.Serves k i) (hfirst : ∀ j < i, ¬c.Serves k j) :
    ∀ j < i, c.Declines k j := by
  obtain ⟨q, e, hq, he, -⟩ := h.1
  have hi : i < c.servers.length := (List.getElem?_eq_some_iff.mp he).1
  exact Consultation.declines_before hq (Nat.le_of_lt hi) hfirst

theorem answer_of_serves (he : c.servers[i]? = some e) (h : c.Serves k i)
    (hbefore : ∀ j < i, c.Declines k j) : c.answer k = some e.description := by
  obtain ⟨q, _, hq, -⟩ := h.1
  obtain ⟨p, hp⟩ := exists_tracks he k
  have hanswers : (p.describe q.host q.contentType).2 ≠ none :=
    (declines_iff hq hp.standing).not.mp (h.not_declines hbefore)
  have hdescription : (p.describe q.host q.contentType).2 = some e.description := by
    rw [Provider.describe_snd] at hanswers ⊢
    split at hanswers
    · rw [if_pos ‹_›, hp.same]
      rfl
    · exact absurd rfl hanswers
  rw [answer, hq]
  exact Provider.describeFirst_snd_of_declined (describe_of_declines hq hbefore) hp.standing
    hdescription

theorem answer_eq_none (h : ∀ i, ¬c.Serves k i) : c.answer k = none := by
  rw [answer]
  cases hq : c.inquiries[k]? with
  | none => rfl
  | some q =>
    have hall := declines_before hq (Nat.le_refl _) fun i _ => h i
    refine Provider.describeFirst_snd_eq_none fun p hp => ?_
    obtain ⟨i, hi, rfl⟩ := List.mem_iff_getElem.mp hp
    exact (declines_iff hq (List.getElem?_eq_getElem hi)).mp
      (hall i (length_standing c k ▸ hi))

theorem selects_first (c : Consultation) : c.SelectsFirst where
  chosen := by
    intro k i e he hserves hfirst
    exact answer_of_serves he hserves (hserves.declines_before hfirst)
  unserved := fun _ => answer_eq_none
  probed := probes_iff
  once := fun _ _ _ => probes_unique
  lasting := fun _ _ _ => Probes.declines_iff
  spared := by
    intro k i hserves hfirst j hj hprobes
    have hreaches := ((probes_iff k j).mp hprobes).1
    exact hserves.not_declines (hserves.declines_before hfirst) (hreaches.2 i hj)
  blind := by
    intro k q h hq hsame
    apply Provider.describeFirst_congr
    intro i p hp haccepts hfound hall
    obtain ⟨e, he⟩ := servers_of_standing hp
    obtain ⟨r, hr⟩ := exists_tracks he k
    obtain rfl : r = p := Option.some.inj (hr.standing.symm.trans hp)
    have hbefore : ∀ j < i, c.Declines k j := by
      intro j hj
      obtain ⟨s, hs⟩ := exists_earlier hp hj
      exact (declines_iff hq hs).mpr (hall j hj s hs)
    have hprobes : c.Probes k i :=
      (probes_iff k i).mpr ⟨⟨(hr.accepts_iff hq he).mp haccepts, hbefore⟩, hr.unprobed hfound⟩
    rw [hr.same]
    exact hsame i e he hprobes

end Consultation

end LanguageSessions
