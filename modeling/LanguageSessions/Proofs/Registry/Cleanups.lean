import LanguageSessions.Proofs.Registry.Invariant

namespace LanguageSessions

namespace Service

open Registry (Moves)

variable {σ : Service}

def Clean (σ : Service) : Prop :=
  σ.registry.retired = [] ∧ σ.cleanups = [] ∧ ∀ s ∈ σ.calls, s.cleaning = []

def Calm (σ : Service) : Prop := ∀ s ∈ σ.calls, s.young = []

/-- What becomes of the sessions of a registry. -/
structure Contained (σ : Service) : Prop where
  made : ∀ id : Nat, (∃ s, σ.registry.session? id = some s) ↔
    0 < id ∧ id ≤ σ.registry.launches.length
  settled : σ.Clean → ∀ id s, σ.registry.session? id = some s →
    id ∈ σ.registry.tables.held ∨ σ.Young id ∨
      s.state = .terminated ∧ s.connection.channel.processAlive = false
  between : σ.Clean → σ.Calm → ∀ id s, σ.registry.session? id = some s →
    id ∈ σ.registry.tables.held ∨
      s.state = .terminated ∧ s.connection.channel.processAlive = false
  gone : ∀ id s, σ.registry.session? id = some s → id ∉ σ.registry.tables.held → ¬ σ.Young id →
    ∀ bs, id ∉ (σ.run bs).registry.tables.held
  once : ∀ id s, σ.registry.session? id = some s → s.cleanups ≤ 1

theorem Calm.not_young (h : σ.Calm) (id : SessionId) : ¬ σ.Young id := by
  rintro ⟨n, s, hs, hid⟩
  rw [h s (List.mem_of_getElem? hs)] at hid
  cases hid

theorem Clean.not_busy (h : σ.Clean) (id : SessionId) : ¬ σ.Busy id := by
  obtain ⟨-, hcleanups, hcalls⟩ := h
  rintro (⟨n, s, hs, hid⟩ | hid)
  · rw [hcalls s (List.mem_of_getElem? hs)] at hid
    cases hid
  · rw [hcleanups] at hid
    cases hid

theorem Sound.settled (h : σ.Sound) (hclean : σ.Clean) (id : SessionId) (s : Session)
    (hs : σ.registry.session? id = some s) :
    id ∈ σ.registry.tables.held ∨ σ.Young id ∨ s.Ended := by
  have hfit := h.registry.sessions id s hs
  rcases hfit.settled with hy | (hheld | hdue) | hc | he
  · exact .inr (.inl hy)
  · exact .inl hheld
  · rw [Registry.Retired, hclean.1] at hdue
    cases hdue
  · exact .inr (.inr ((hfit.working hc).resolve_right (hclean.not_busy id)))
  · exact .inr (.inr he)

theorem Sound.step_gone (h : σ.Sound) (a : Act) {id : SessionId} (hknows : σ.registry.Knows id)
    (hheld : id ∉ σ.registry.tables.held) (hyoung : ¬ σ.Young id) :
    (σ.step a).registry.Knows id ∧ id ∉ (σ.step a).registry.tables.held ∧ ¬ (σ.step a).Young id := by
  have hleads := step_leads h a
  obtain ⟨new, hmoves, hnew⟩ := hleads.moves
  refine ⟨⟨hknows.1, Nat.le_trans hknows.2 hmoves.count⟩, ?_, ?_⟩
  · intro hid
    rcases hmoves.held id hid with hid | hid
    · exact hheld hid
    · exact hyoung (hnew id hid)
  · intro hid
    rcases hleads.young id hid with hid | hid
    · exact hyoung hid
    · exact absurd hknows.2 (Nat.not_le_of_lt hid)

theorem Sound.run_gone (h : σ.Sound) (bs : List Act) {id : SessionId}
    (hknows : σ.registry.Knows id) (hheld : id ∉ σ.registry.tables.held) (hyoung : ¬ σ.Young id) :
    id ∉ (σ.run bs).registry.tables.held := by
  induction bs generalizing σ with
  | nil => exact hheld
  | cons b bs ih =>
    obtain ⟨hknows', hheld', hyoung'⟩ := h.step_gone b hknows hheld hyoung
    exact ih (step_leads h b).sound hknows' hheld' hyoung'

theorem Sound.contained (h : σ.Sound) : σ.Contained where
  made := by
    intro id
    rw [h.registry.launches]
    exact h.registry.numbered id
  settled := h.settled
  between := by
    intro hclean hcalm id s hs
    exact (h.settled hclean id s hs).imp_right fun hrest =>
      hrest.resolve_left (hcalm.not_young id)
  gone := fun id s hs hheld hyoung bs =>
    h.run_gone bs ((h.registry.numbered id).mp ⟨s, hs⟩) hheld hyoung
  once := fun id s hs => (h.registry.sessions id s hs).once.1

theorem run_contained (r : Registry) (as : List Act) : ((new r).run as).Contained :=
  (run_sound (Sound.new r) as).contained

end Service

end LanguageSessions
