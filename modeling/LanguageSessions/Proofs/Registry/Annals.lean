import LanguageSessions.Proofs.Registry.Later
import LanguageSessions.Proofs.Registry.Reuse
import LanguageSessions.Proofs.Registry.Roots

/-!
A record of what was attached. It runs beside a service in use, which never reads it, and keeps what
the calls have attached since all sessions were last taken out of the tables. The tables always
agree with it (`Annals.Kept.run`).
-/
namespace LanguageSessions

structure Grant where
  root : String
  extensions : List String
  id : SessionId

namespace Grant

def served (g : Grant) : List String := (g.extensions.map normalExtension).filter (· != "")

def roots (gs : List Grant) : List String :=
  gs.foldl (fun roots g =>
    if roots.any fun root => Path.steps root == Path.steps g.root then roots
    else roots ++ [g.root]) []

def latest (gs : List Grant) (root : String) : Option Grant :=
  gs.reverse.find? fun g => Path.steps g.root == Path.steps root

theorem roots_concat (gs : List Grant) (g : Grant) : roots (gs ++ [g]) =
    if (roots gs).any fun root => Path.steps root == Path.steps g.root then roots gs
    else roots gs ++ [g.root] := by
  rw [roots, List.foldl_append]
  rfl

theorem latest_concat (gs : List Grant) (g : Grant) (root : String) : latest (gs ++ [g]) root =
    if Path.steps g.root = Path.steps root then some g else latest gs root := by
  unfold latest
  rw [List.reverse_append]
  by_cases h : Path.steps g.root = Path.steps root
  · simp [h]
  · simp [h]

end Grant

theorem Tables.roots_attach (t : Tables) (root : String) (extensions : List String)
    (id : SessionId) : (t.attach root extensions id).attached.map Attachment.root =
      if (t.attached.map Attachment.root).any fun r => Path.steps r == Path.steps root then
        t.attached.map Attachment.root
      else t.attached.map Attachment.root ++ [root] := by
  unfold Tables.attach
  rw [List.any_map]
  dsimp only [Function.comp_def]
  split
  · rw [List.map_map]
    apply List.map_congr_left
    intro a _
    dsimp only [Function.comp_apply]
    split <;> rfl
  · rw [List.map_append]
    rfl

theorem Tables.roots_detach (t : Tables) (root : String) (id : SessionId) :
    (t.detach root id).attached.map Attachment.root = t.attached.map Attachment.root := by
  unfold Tables.detach
  rw [List.map_map]
  apply List.map_congr_left
  intro a _
  dsimp only [Function.comp_apply]
  split <;> rfl

structure Annals where
  service : Service
  pledges : List (Option (String × List String)) := []
  grants : List Grant := []

namespace Annals

open Service (Act)

def new (r : Registry) : Annals := { service := .new r }

def pledge (r : Registry) : Demand → Option (String × List String)
  | .attach root _ extensions => some (r.host.canonical root, extensions)
  | _ => none

def noted (A : Annals) (n : Nat) : List Grant :=
  match A.service.calls[n]? with
  | some (.running c) =>
    if c.clears && A.service.registry.turns.isFree n then []
    else
      match A.pledges[n]?.join, ((A.service.step (.advance n)).reply? n).bind Reply.session? with
      | some (root, extensions), some id => A.grants ++ [⟨root, extensions, id⟩]
      | _, _ => A.grants
  | _ => A.grants

def step (A : Annals) (a : Act) : Annals where
  service := A.service.step a
  pledges :=
    match a with
    | .ask d => A.pledges ++ [pledge A.service.registry d]
    | _ => A.pledges
  grants :=
    match a with
    | .advance n => A.noted n
    | _ => A.grants

def run (A : Annals) (as : List Act) : Annals := as.foldl step A

theorem run_service (A : Annals) (as : List Act) : (A.run as).service = A.service.run as := by
  induction as generalizing A with
  | nil => rfl
  | cons a as ih => exact ih (A.step a)

def root? (A : Annals) (file : String) : Option String :=
  (Grant.roots A.grants).find? fun root => isUnder A.service.registry.host root file

def granted? (A : Annals) (file : String) : Option SessionId :=
  ((A.root? file).bind (Grant.latest A.grants)).bind fun g =>
    (fileExtension? file).bind fun ext => if g.served.contains ext then some g.id else none

structure Holds (σ : Service) (a : Attachment) (g : Grant) : Prop where
  begun : ∃ s, σ.registry.session? g.id = some s ∧ s.state ≠ .starting
  entries : a.byExtension = Tables.attachment g.served g.id ∨
    a.byExtension = [] ∧ σ.registry.isUsable g.id = false ∧ σ.Handed g.id

structure Agrees (σ : Service) (gs : List Grant) : Prop where
  order : σ.registry.roots.map Attachment.root = Grant.roots gs
  held : ∀ a ∈ σ.registry.roots, ∃ g, Grant.latest gs a.root = some g ∧ Holds σ a g

structure Kept (A : Annals) : Prop where
  sound : A.service.Sound
  pledged : A.pledges.length = A.service.calls.length
  placed : ∀ (n : Nat) (c : Call), A.service.calls[n]? = some (.running c) →
    c.place? = A.pledges[n]?.join.map fun p => (p.1, (p.2.map normalExtension).filter (· != ""))
  agrees : Agrees A.service A.grants

theorem kept_new (r : Registry) : (new r).Kept where
  sound := Service.Sound.new r
  pledged := rfl
  placed := by rintro n c ⟨⟩
  agrees := ⟨rfl, by rintro a ⟨⟩⟩

variable {A : Annals}

theorem unusable_step {σ : Service} (a : Act) {id : SessionId} {s : Session}
    (hs : σ.registry.session? id = some s) (hbegun : s.state ≠ .starting) :
    (∃ t, (σ.step a).registry.session? id = some t ∧ t.state ≠ .starting) ∧
      (σ.registry.isUsable id = false → (σ.step a).registry.isUsable id = false) := by
  obtain ⟨t, ht, hlater⟩ := Service.step_later σ a hs
  refine ⟨⟨t, ht, hlater.begun hbegun⟩, fun hunusable => ?_⟩
  rw [Registry.isUsable, hs] at hunusable
  rw [Registry.isUsable, ht]
  exact (hlater.spent ⟨hbegun, hunusable⟩).2

theorem Holds.step {σ : Service} {a : Attachment} {g : Grant} (h : σ.Sound) (hg : Holds σ a g)
    (act : Act) : Holds (σ.step act) a g := by
  obtain ⟨s, hs, hbegun⟩ := hg.begun
  obtain ⟨hbegun', hunusable⟩ := unusable_step act hs hbegun
  refine ⟨hbegun', ?_⟩
  rcases hg.entries with hsame | ⟨hempty, hspent, hhanded⟩
  · exact .inl hsame
  · exact .inr ⟨hempty, hunusable hspent, Service.step_handed h act hhanded⟩

theorem Agrees.step {σ : Service} {gs : List Grant} (hgs : Agrees σ gs) (h : σ.Sound) {a : Act}
    (hroots : (σ.step a).registry.roots = σ.registry.roots) : Agrees (σ.step a) gs := by
  constructor
  · rw [hroots]
    exact hgs.order
  · intro b hb
    rw [hroots] at hb
    obtain ⟨g, hg, hholds⟩ := hgs.held b hb
    exact ⟨g, hg, hholds.step h a⟩

theorem reply?_advance {σ : Service} {n : Nat} {c : Call}
    (hc : σ.calls[n]? = some (.running c)) (reply : Reply) :
    (σ.step (.advance n)).reply? n = some reply ↔
      (c.advance n σ.now σ.registry).2 = .done reply := by
  have hlt := (List.getElem?_eq_some_iff.mp hc).1
  rw [Service.reply?_eq_some, Service.step_advance hc]
  dsimp only
  rw [List.getElem?_set_self hlt, Option.some.injEq]
  cases (c.advance n σ.now σ.registry).2 <;> simp [Status.next]

theorem noted_of_running {n : Nat} {c : Call}
    (hc : A.service.calls[n]? = some (.running c)) : A.noted n =
      if c.clears = true ∧ A.service.registry.turns.isFree n = true then []
      else
        match A.pledges[n]?.join, ((A.service.step (.advance n)).reply? n).bind Reply.session? with
        | some (root, extensions), some id => A.grants ++ [⟨root, extensions, id⟩]
        | _, _ => A.grants := by
  unfold noted
  rw [hc]
  dsimp only
  simp only [Bool.and_eq_true]

theorem noted_of_none {n : Nat} {c : Call} (h : A.Kept)
    (hc : A.service.calls[n]? = some (.running c))
    (hidle : ¬ (c.clears = true ∧ A.service.registry.turns.isFree n = true))
    (hnone : ∀ reply id, (c.advance n A.service.now A.service.registry).2 = .done reply →
      reply.session? = some id → c.place? = none) : A.noted n = A.grants := by
  rw [noted_of_running hc, if_neg hidle]
  split
  · next root extensions id hpledge hreply =>
    obtain ⟨reply, hreply, hid⟩ := Option.bind_eq_some_iff.mp hreply
    have hplace := h.placed n c hc
    rw [hnone reply id ((reply?_advance hc reply).mp hreply) hid, hpledge] at hplace
    cases hplace
  · rfl

theorem noted_of_place {n : Nat} {c : Call} (h : A.Kept)
    (hc : A.service.calls[n]? = some (.running c)) {root : String} {extensions : List String}
    (hplace : c.place? = some (root, extensions)) {reply : Reply} {id : SessionId}
    (hdone : (c.advance n A.service.now A.service.registry).2 = .done reply)
    (hid : reply.session? = some id) :
    ∃ g : Grant, A.noted n = A.grants ++ [g] ∧ g.root = root ∧ g.served = extensions ∧ g.id = id := by
  have hidle : ¬ (c.clears = true ∧ A.service.registry.turns.isFree n = true) := by
    rintro ⟨hclears, -⟩
    cases c with
    | waiting w lenient =>
      cases w with
      | attach => cases hclears
      | _ => cases hplace
    | _ => cases hclears
  have hplaced := h.placed n c hc
  rw [hplace] at hplaced
  obtain ⟨⟨root', named⟩, hpledge, heq⟩ := Option.map_eq_some_iff.mp hplaced.symm
  obtain ⟨hroot, hserved⟩ := Prod.mk.inj heq
  refine ⟨⟨root', named, id⟩, ?_, hroot, hserved, rfl⟩
  rw [noted_of_running hc, if_neg hidle, hpledge, (reply?_advance hc reply).mpr hdone,
    Option.bind_some, hid]

theorem Kept.placed_advance (h : A.Kept) {n m : Nat} {c c' : Call}
    (hc : A.service.calls[n]? = some (.running c))
    (hc' : (A.service.step (.advance n)).calls[m]? = some (.running c')) :
    c'.place? = A.pledges[m]?.join.map fun p => (p.1, (p.2.map normalExtension).filter (· != "")) := by
  rw [Service.step_advance hc] at hc'
  rcases Service.set_cases hc' with ⟨rfl, hnext⟩ | ⟨-, hother⟩
  · rw [Call.advance_place? _ _ _ _ (Service.after_of_next hnext.symm)]
    exact h.placed m c hc
  · exact h.placed m c' hother

theorem Agrees.attach {σ : Service} {gs : List Grant} (hgs : Agrees σ gs) (h : σ.Sound) {a : Act}
    {g : Grant} {s : Session}
    (hroots : (σ.step a).registry.roots =
      (σ.registry.tables.attach g.root g.served g.id).attached)
    (hs : (σ.step a).registry.session? g.id = some s) (hready : s.state = .ready) :
    Agrees (σ.step a) (gs ++ [g]) := by
  constructor
  · rw [hroots, Tables.roots_attach, Grant.roots_concat, ← hgs.order]
    rfl
  · intro b hb
    rw [hroots] at hb
    rw [Grant.latest_concat]
    rcases Tables.mem_attach hb with ⟨hb, hne⟩ | ⟨hsame, hentries⟩
    · rw [if_neg (Ne.symm hne)]
      obtain ⟨g', hg', hholds⟩ := hgs.held b hb
      exact ⟨g', hg', hholds.step h a⟩
    · rw [if_pos hsame.symm]
      exact ⟨g, rfl, ⟨s, hs, by rw [hready]; rintro ⟨⟩⟩, .inl hentries⟩

theorem Agrees.detach {σ : Service} {gs : List Grant} (hgs : Agrees σ gs) (h : σ.Sound) {act : Act}
    {a : Attachment} {ext : String} {id : SessionId} (ha : a ∈ σ.registry.roots)
    (hid : a.byExtension.lookup ext = some id) (hspent : σ.registry.isUsable id = false)
    (hroots : (σ.step act).registry.roots = (σ.registry.tables.detach a.root id).attached)
    (hretired : id ∈ (σ.step act).registry.retired) : Agrees (σ.step act) gs := by
  constructor
  · rw [hroots, Tables.roots_detach]
    exact hgs.order
  · intro b hb
    rw [hroots] at hb
    obtain ⟨b', hb', rfl⟩ := (Tables.mem_detach _ _ _ _).mp hb
    obtain ⟨g, hg, hholds⟩ := hgs.held b' hb'
    have hholds' := hholds.step h act
    split
    · next hroot =>
      refine ⟨g, hg, hholds'.begun, .inr ?_⟩
      -- the two are one attachment, so `id` is what was attached to it last
      obtain rfl : b' = a :=
        h.registry.tables.eq_of_root hb' ha (congrArg Path.steps (beq_iff_eq.mp hroot))
      have hmem := mem_of_lookup hid
      rcases hholds.entries with hsame | ⟨hempty, -⟩
      · rw [hsame, Tables.mem_attachment] at hmem
        obtain ⟨-, rfl⟩ := hmem
        obtain ⟨s, hs, hbegun⟩ := hholds.begun
        refine ⟨?_, (unusable_step act hs hbegun).2 hspent, .inl hretired⟩
        rw [List.filter_eq_nil_iff, hsame]
        intro e he
        simp [((Tables.mem_attachment _ _ e).mp he).2]
      · rw [hempty] at hmem
        cases hmem
    · exact ⟨g, hg, hholds'⟩

theorem Kept.agrees_advance (h : A.Kept) {n : Nat} {c : Call}
    (hc : A.service.calls[n]? = some (.running c)) :
    Agrees (A.service.step (.advance n)) (A.noted n) := by
  obtain ⟨hreg, hown⟩ := h.sound.split hc
  have hregistry : (A.service.step (.advance n)).registry =
      (c.advance n A.service.now A.service.registry).1 := by rw [Service.step_advance hc]
  cases c.advance_shifts n A.service.now hreg hown with
  | keeps hidle hnone hroots =>
    rw [noted_of_none h hc hidle hnone]
    exact h.agrees.step h.sound (hregistry ▸ hroots)
  | clears hclears hfree hroots =>
    rw [noted_of_running hc, if_pos ⟨hclears, hfree⟩]
    rw [← hregistry] at hroots
    constructor
    · rw [hroots]
      rfl
    · rw [hroots]
      rintro a ⟨⟩
  | attaches root extensions id reply s hplace hdone hid hroots hs hready =>
    obtain ⟨g, hnoted, rfl, rfl, rfl⟩ := noted_of_place h hc hplace hdone hid
    rw [hnoted]
    rw [← hregistry] at hroots hs
    exact h.agrees.attach h.sound hroots hs hready
  | detaches owner file lenient a id hresolve hfree hnone ha hid hspent hroots hretired =>
    subst hresolve
    rw [noted_of_none h hc (by rintro ⟨⟨⟩, -⟩) fun _ _ _ _ => rfl]
    rw [← hregistry] at hroots hretired
    obtain ⟨ext, -, hlookup⟩ := Option.bind_eq_some_iff.mp hid
    exact h.agrees.detach h.sound (List.mem_of_find?_eq_some ha) hlookup hspent hroots hretired

theorem step_idle {n : Nat} (hover : ∀ c, A.service.calls[n]? ≠ some (.running c)) :
    A.step (.advance n) = A := by
  have hnoted : A.noted n = A.grants := by
    unfold noted
    split
    · next c hc => exact absurd hc (hover c)
    · rfl
  unfold step
  dsimp only
  rw [Service.step_over hover, hnoted]

theorem Kept.advance (h : A.Kept) (n : Nat) : (A.step (.advance n)).Kept := by
  by_cases hrunning : ∃ c, A.service.calls[n]? = some (.running c)
  · obtain ⟨c, hc⟩ := hrunning
    refine ⟨(Service.step_leads h.sound (.advance n)).sound, ?_,
      fun m c' hc' => h.placed_advance hc hc', h.agrees_advance hc⟩
    change A.pledges.length = (A.service.step (.advance n)).calls.length
    rw [Service.step_advance hc, List.length_set]
    exact h.pledged
  · rw [step_idle fun c hc => hrunning ⟨c, hc⟩]
    exact h

theorem begin_place? (r : Registry) (d : Demand) {c : Call} (h : d.begin r = .running c) :
    c.place? =
      (pledge r d).map fun p => (p.1, (p.2.map normalExtension).filter (· != "")) := by
  cases d with
  | attach root d extensions =>
    unfold Demand.begin Call.attach at h
    dsimp only at h
    split at h
    · next hc =>
      split at hc
      · cases hc
      · cases hc
        cases h
        rfl
    · cases h
  | _ =>
    cases h
    rfl

theorem Kept.ask (h : A.Kept) (d : Demand) : (A.step (.ask d)).Kept := by
  have hlength : (A.step (.ask d)).pledges.length = (A.step (.ask d)).service.calls.length := by
    change (A.pledges ++ [_]).length = (A.service.calls ++ [_]).length
    rw [List.length_append, List.length_append, h.pledged]
    rfl
  have hagrees : Agrees (A.service.step (.ask d)) A.grants := h.agrees.step h.sound rfl
  refine ⟨(Service.step_leads h.sound (.ask d)).sound, hlength, ?_, hagrees⟩
  intro n c hc
  change (A.service.calls ++ [d.begin A.service.registry])[n]? = some (.running c) at hc
  change c.place? = (A.pledges ++ [pledge A.service.registry d])[n]?.join.map _
  rcases Nat.lt_or_ge n A.service.calls.length with hlt | hge
  · rw [List.getElem?_append_left hlt] at hc
    rw [List.getElem?_append_left (h.pledged ▸ hlt)]
    exact h.placed n c hc
  · obtain rfl : n = A.service.calls.length := by
      have hlast := (List.getElem?_eq_some_iff.mp hc).1
      rw [List.length_append, List.length_singleton] at hlast
      omega
    rw [List.getElem?_concat_length, Option.some.injEq] at hc
    rw [← h.pledged, List.getElem?_concat_length]
    exact begin_place? A.service.registry d hc

theorem Kept.step (h : A.Kept) (a : Act) : (A.step a).Kept := by
  by_cases hcall : (∃ d, a = .ask d) ∨ ∃ n, a = .advance n
  · rcases hcall with ⟨d, rfl⟩ | ⟨n, rfl⟩
    · exact h.ask d
    · exact h.advance n
  -- no call takes the step
  · have hrests := (or_assoc.mpr (Service.step_cases h.sound a)).resolve_left hcall
    have hgrants : (A.step a).grants = A.grants := by
      cases a with
      | advance n => exact absurd (.inr ⟨n, rfl⟩) hcall
      | _ => rfl
    have hpledges : (A.step a).pledges = A.pledges := by
      cases a with
      | ask d => exact absurd (.inl ⟨d, rfl⟩) hcall
      | _ => rfl
    have hsame : (A.step a).service.calls = A.service.calls := hrests.calls
    refine ⟨(Service.step_leads h.sound a).sound, ?_, ?_, ?_⟩
    · rw [hpledges, h.pledged, hsame]
    · intro n c hc
      rw [hpledges]
      exact h.placed n c (hsame ▸ hc)
    · rw [hgrants]
      exact h.agrees.step h.sound (congrArg Tables.attached hrests.frame.tables)

theorem Kept.run (h : A.Kept) (as : List Act) : (A.run as).Kept := by
  induction as generalizing A with
  | nil => exact h
  | cons a as ih => exact ih (h.step a)

end Annals

end LanguageSessions
