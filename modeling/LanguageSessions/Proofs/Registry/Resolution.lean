import LanguageSessions.Proofs.Registry.Annals
import LanguageSessions.Proofs.Registry.Failure
import LanguageSessions.Proofs.Registry.Leniency
import LanguageSessions.Proofs.Registry.Upkeep

namespace LanguageSessions

namespace Tables

theorem lookup_attachment (extensions : List String) (id : SessionId) (ext : String) :
    (attachment extensions id).lookup ext =
      if extensions.contains ext = true then some id else none := by
  cases hlookup : (attachment extensions id).lookup ext with
  | some x =>
    obtain ⟨hext, rfl⟩ := (mem_attachment extensions id _).mp (mem_of_lookup hlookup)
    rw [if_pos (List.contains_iff_mem.mpr hext)]
  | none =>
    rw [if_neg]
    intro hext
    have hmem := (mem_attachment extensions id (ext, id)).mpr ⟨List.contains_iff_mem.mp hext, rfl⟩
    have hne := List.lookup_eq_none_iff.mp hlookup _ hmem
    simp at hne

def vacate (t : Tables) (root : String) : Tables :=
  { t with attached := t.attached.map fun a =>
      if a.root == root then { a with byExtension := [] } else a }

variable {t : Tables} {key? : SessionId → Option SessionKey}

theorem Sound.detach_eq (h : t.Sound key?) {a : Attachment} (ha : a ∈ t.attached) {id : SessionId}
    (hall : ∀ e ∈ a.byExtension, e.2 = id) : t.detach a.root id = t.vacate a.root := by
  unfold Tables.detach Tables.vacate
  congr 1
  apply List.map_congr_left
  intro b hb
  split
  · next hroot =>
    obtain rfl : b = a := h.eq_of_root hb ha (congrArg Path.steps (beq_iff_eq.mp hroot))
    have hnone : b.byExtension.filter (·.2 != id) = [] := by
      rw [List.filter_eq_nil_iff]
      intro e he
      simp [hall e he]
    rw [hnone]
  · rfl

theorem Sound.vacate_eq (h : t.Sound key?) {a : Attachment} (ha : a ∈ t.attached)
    (hempty : a.byExtension = []) : t.vacate a.root = t := by
  unfold Tables.vacate
  have hsame : (t.attached.map fun b =>
      if b.root == a.root then { b with byExtension := [] } else b) = t.attached := by
    rw [List.map_congr_left (g := id), List.map_id]
    intro b hb
    split
    · next hroot =>
      obtain rfl : b = a := h.eq_of_root hb ha (congrArg Path.steps (beq_iff_eq.mp hroot))
      cases b
      cases hempty
      rfl
    · rfl
  rw [hsame]

end Tables

theorem Registry.attachedFor?_of (r : Registry) {file ext : String} {a : Attachment}
    (ha : r.tables.rootOf? r.host file = some a) (hext : fileExtension? file = some ext) :
    r.attachedFor? file =
      match a.byExtension.lookup ext with
      | none => (r, none)
      | some id =>
        if r.isUsable id = true then (r, some id)
        else ({ r with tables := r.tables.detach a.root id }.retire [id], none) := by
  rw [Registry.attachedFor?, ha, hext]
  rfl

namespace Annals

variable {A : Annals}

def answer? (A : Annals) (file : String) : Option SessionId :=
  (A.granted? file).filter A.service.registry.isUsable

theorem answer?_of_some {file : String} {id : SessionId} (hgranted : A.granted? file = some id) :
    A.answer? file = if A.service.registry.isUsable id = true then some id else none := by
  rw [answer?, hgranted, Option.filter_some]

theorem answer?_of_none {file : String} (hgranted : A.granted? file = none) :
    A.answer? file = none := by
  rw [answer?, hgranted, Option.filter_none]

inductive Finds (A : Annals) (file : String) (r : Registry) : Prop where
  | usable (id : SessionId) (hanswer : A.answer? file = some id)
    (heq : r.attachedFor? file = (r, some id))
  | nothing (hanswer : A.answer? file = none) (hgranted : A.granted? file = none)
    (heq : r.attachedFor? file = (r, none))
  | spent (id : SessionId) (root : String) (retired : List SessionId)
    (hanswer : A.answer? file = none) (hgranted : A.granted? file = some id)
    (hroot : A.root? file = some root)
    (hretired : retired = r.retired ∧ A.service.Handed id ∨ retired = r.retired ++ [id])
    (heq : r.attachedFor? file = ({ r with tables := r.tables.vacate root, retired := retired }, none))

theorem granted?_of {file : String} {root ext : String} {g : Grant} (hroot : A.root? file = some root)
    (hg : Grant.latest A.grants root = some g) (hext : fileExtension? file = some ext) :
    A.granted? file = if g.served.contains ext = true then some g.id else none := by
  rw [granted?, hroot, Option.bind_some, hg, Option.bind_some, hext, Option.bind_some]

theorem Kept.finds (h : A.Kept) (file : String) (turns : Turns) :
    A.Finds file { A.service.registry with turns := turns } := by
  let r : Registry := { A.service.registry with turns := turns }
  change A.Finds file r
  have hroot : A.root? file = (r.tables.rootOf? r.host file).map Attachment.root := by
    rw [root?, ← h.agrees.order, List.find?_map]
    rfl
  cases ha : r.tables.rootOf? r.host file with
  | none =>
    rw [ha] at hroot
    have hgranted : A.granted? file = none := by
      rw [granted?, hroot]
      rfl
    exact .nothing (answer?_of_none hgranted) hgranted (by rw [Registry.attachedFor?, ha])
  | some a =>
    rw [ha, Option.map_some] at hroot
    have hmem : a ∈ r.tables.attached := List.mem_of_find?_eq_some ha
    obtain ⟨g, hg, hholds⟩ := h.agrees.held a hmem
    cases hext : fileExtension? file with
    | none =>
      have hgranted : A.granted? file = none := by
        rw [granted?, hroot, Option.bind_some, hg, Option.bind_some, hext, Option.bind_none]
      exact .nothing (answer?_of_none hgranted) hgranted
        (by rw [Registry.attachedFor?, ha, hext]; rfl)
    | some ext =>
      have hgranted := granted?_of hroot hg hext
      have hfinds := r.attachedFor?_of ha hext
      rcases hholds.entries with hsame | ⟨hempty, hspent, hhanded⟩
      · rw [hsame, Tables.lookup_attachment] at hfinds
        by_cases hserved : g.served.contains ext = true
        · rw [if_pos hserved] at hgranted hfinds
          dsimp only at hfinds
          have hanswer := answer?_of_some hgranted
          cases husable : A.service.registry.isUsable g.id with
          | true =>
            rw [show r.isUsable g.id = true from husable, if_pos rfl] at hfinds
            rw [husable, if_pos rfl] at hanswer
            exact .usable g.id hanswer hfinds
          | false =>
            have hall : ∀ e ∈ a.byExtension, e.2 = g.id := fun e he =>
              ((Tables.mem_attachment _ _ e).mp (hsame ▸ he)).2
            rw [show r.isUsable g.id = false from husable, if_neg Bool.false_ne_true,
              h.sound.registry.tables.detach_eq hmem hall] at hfinds
            rw [husable, if_neg Bool.false_ne_true] at hanswer
            exact .spent g.id a.root _ hanswer hgranted hroot (.inr rfl) hfinds
        · rw [if_neg hserved] at hgranted hfinds
          exact .nothing (answer?_of_none hgranted) hgranted hfinds
      · rw [hempty] at hfinds
        by_cases hserved : g.served.contains ext = true
        · rw [if_pos hserved] at hgranted
          have hanswer := answer?_of_some hgranted
          rw [hspent, if_neg Bool.false_ne_true] at hanswer
          refine .spent g.id a.root r.retired hanswer hgranted hroot (.inl ⟨rfl, hhanded⟩) ?_
          rw [show r.tables.vacate a.root = r.tables from
            h.sound.registry.tables.vacate_eq hmem hempty]
          exact hfinds
        · rw [if_neg hserved] at hgranted
          exact .nothing (answer?_of_none hgranted) hgranted hfinds

theorem Kept.attachedFor? (h : A.Kept) (file : String) :
    (A.service.registry.attachedFor? file).2 = A.answer? file := by
  cases h.finds file A.service.registry.turns with
  | usable id hanswer heq => exact (congrArg Prod.snd heq).trans hanswer.symm
  | nothing hanswer hgranted heq => exact (congrArg Prod.snd heq).trans hanswer.symm
  | spent id root retired hanswer hgranted hroot hretired heq =>
    exact (congrArg Prod.snd heq).trans hanswer.symm

end Annals

namespace Service

variable {σ : Service} {n : Nat} {owner : Option String} {file : String} {r : Registry}

theorem Turn.found (ht : σ.Turn n (.resolve owner file) true) {id : SessionId}
    (heq : (σ.entered n).attachedFor? file = (r, some id)) : σ.step (.advance n) =
      { σ with
        registry := { r with turns := r.turns.leave }
        calls := σ.calls.set n (.replied (.resolved (some id))) } := by
  have hperform : Call.perform (σ.entered n) (.resolve owner file) true σ.now =
      ({ r with turns := r.turns.leave }, .done (.resolved (some id))) := by
    unfold Call.perform
    dsimp only
    rw [heq]
  rw [step_advance ht.call, (Call.advance_turn ht.free _ _ _).trans hperform]
  simp [Call.gives, Call.key?, Status.next]

theorem Turn.missed (ht : σ.Turn n (.resolve owner file) true)
    (heq : (σ.entered n).attachedFor? file = (r, none)) : σ.step (.advance n) =
      { σ with
        registry := { r with turns := r.turns.leave }
        calls := σ.calls.set n <|
          match r.contentTypes.forFile? file with
          | none => .replied (.resolved none)
          | some type => .running (Call.getOrCreate r owner file type).ease } := by
  have hperform : Call.perform (σ.entered n) (.resolve owner file) true σ.now =
      ({ r with turns := r.turns.leave },
        match r.contentTypes.forFile? file with
        | none => .done (.resolved none)
        | some type => .on (Call.getOrCreate r owner file type).ease) := by
    unfold Call.perform
    dsimp only
    rw [heq]
    dsimp only
    cases r.contentTypes.forFile? file <;> rfl
  rw [step_advance ht.call, (Call.advance_turn ht.free _ _ _).trans hperform]
  dsimp only
  cases r.contentTypes.forFile? file <;> simp [Call.gives, Call.key?, Status.next]

end Service

namespace Annals

variable {A : Annals}

structure Passes (A : Annals) (n : Nat) (file : String) (r : Registry) : Prop where
  rest : r =
    { A.service.registry with
      turns := (A.service.registry.turns.enter n).1.leave
      tables := { A.service.registry.tables with attached := r.tables.attached }
      retired := r.retired }
  stays : A.granted? file = none → r.tables.attached = A.service.registry.tables.attached ∧
    r.retired = A.service.registry.retired
  empties : ∀ id root, A.granted? file = some id → A.root? file = some root →
    r.tables.attached = (A.service.registry.tables.vacate root).attached ∧
      (A.service.step (.advance n)).Handed id

/-- How files are resolved. -/
structure Resolves (A : Annals) : Prop where
  order : A.service.registry.tables.attached.map Attachment.root = Grant.roots A.grants
  turn : ∀ n owner file, A.service.calls[n]? = some (.running (Call.resolve owner file)) →
    ∀ as, (A.service.run as).reply? n ≠ none →
      ∃ bs cs, as = bs ++ .advance n :: cs ∧ (A.service.run bs).Turn n (.resolve owner file) true
  hit : ∀ n owner file id, A.service.Turn n (.resolve owner file) true → A.answer? file = some id →
    A.service.step (.advance n) =
      { A.service with
        registry :=
          { A.service.registry with turns := (A.service.registry.turns.enter n).1.leave }
        calls := A.service.calls.set n (.replied (.resolved (some id))) }
  miss : ∀ n owner file, A.service.Turn n (.resolve owner file) true → A.answer? file = none →
    ∃ r, A.Passes n file r ∧
      (A.service.registry.contentTypes.forFile? file = none →
        A.service.step (.advance n) =
          { A.service with
            registry := r
            calls := A.service.calls.set n (.replied (.resolved none)) }) ∧
      ∀ type, A.service.registry.contentTypes.forFile? file = some type →
        let strict : Service :=
          { A.service with
            registry := r
            calls := A.service.calls.set n
              (.running (Call.getOrCreate A.service.registry owner file type)) }
        ∀ as, (A.service.step (.advance n)).run as = (strict.run as).ease n ∧
          ((A.service.step (.advance n)).run as).reply? n = ((strict.run as).reply? n).map Reply.ease
  steady : ∀ n c, A.service.calls[n]? = some (.running c) → c.upkeeps = true →
    (∀ file, (A.step (.advance n)).answer? file = A.answer? file) ∧
      ∀ id ∈ (A.step (.advance n)).service.registry.retired, id ∈ A.service.registry.retired ∨
        ∀ as, id ∉ ((A.step (.advance n)).run as).service.registry.tables.attachedSessions

theorem Passes.config {n : Nat} {file : String} {r : Registry} (h : A.Passes n file r) :
    r.host = A.service.registry.host ∧ r.contentTypes = A.service.registry.contentTypes := by
  rw [h.rest]
  exact ⟨rfl, rfl⟩

theorem Kept.passes (h : A.Kept) {n : Nat} {owner : Option String} {file : String}
    (ht : A.service.Turn n (.resolve owner file) true) (hnone : A.answer? file = none) :
    ∃ r, (A.service.entered n).attachedFor? file = (r, none) ∧
      A.Passes n file { r with turns := r.turns.leave } := by
  cases h.finds file (A.service.registry.turns.enter n).1 with
  | usable id hanswer heq =>
    rw [hnone] at hanswer
    cases hanswer
  | nothing hanswer hgranted heq =>
    refine ⟨_, heq, rfl, fun _ => ⟨rfl, rfl⟩, fun id root hid => ?_⟩
    rw [hgranted] at hid
    cases hid
  | spent id root retired hanswer hgranted hroot hretired heq =>
    have hstep := ht.missed heq
    refine ⟨_, heq, rfl, fun hnothing => ?_, fun id' root' hid hroot' => ?_⟩
    · rw [hgranted] at hnothing
      cases hnothing
    · rw [hgranted] at hid
      rw [hroot] at hroot'
      cases hid
      cases hroot'
      refine ⟨rfl, ?_⟩
      rcases hretired with ⟨-, hhanded⟩ | hretired
      · exact Service.step_handed h.sound _ hhanded
      · left
        rw [hstep]
        dsimp only
        rw [hretired]
        exact List.mem_append_right _ (List.mem_singleton.mpr rfl)

theorem Passes.lenient {n : Nat} {owner : Option String} {file type : String} {r : Registry}
    (hpasses : A.Passes n file { r with turns := r.turns.leave })
    (ht : A.service.Turn n (.resolve owner file) true)
    (heq : (A.service.entered n).attachedFor? file = (r, none))
    (htype : A.service.registry.contentTypes.forFile? file = some type) :
    A.service.step (.advance n) =
      ({ A.service with
        registry := { r with turns := r.turns.leave }
        calls := A.service.calls.set n
          (.running (Call.getOrCreate A.service.registry owner file type)) } : Service).ease n := by
  obtain ⟨hhost, htypes⟩ : r.host = _ ∧ r.contentTypes = _ := hpasses.config
  have hcall : Call.getOrCreate r owner file type =
      Call.getOrCreate A.service.registry owner file type := by
    unfold Call.getOrCreate
    rw [hhost]
  rw [ht.missed heq, htypes, htype]
  dsimp only
  rw [hcall]
  unfold Service.ease
  dsimp only
  rw [Service.modify_of_set]
  rfl

theorem Kept.steady (h : A.Kept) (hparted : A.service.Parted) {n : Nat} {c : Call}
    (hc : A.service.calls[n]? = some (.running c)) (hupkeep : c.upkeeps = true) (file : String) :
    (A.step (.advance n)).answer? file = A.answer? file := by
  have hspares := Call.upkeep_spares h.sound.registry hupkeep n A.service.now fun x k hx =>
    hparted n x k (hx ▸ hc)
  have hregistry : (A.step (.advance n)).service.registry =
      (c.advance n A.service.now A.service.registry).1 := by
    change (A.service.step (.advance n)).registry = _
    rw [Service.step_advance hc]
  rw [← (h.step (.advance n)).attachedFor?, ← h.attachedFor?, hregistry]
  exact hspares.1.attachedFor? file

theorem run_resolves (r : Registry) (as : List Service.Act) : Resolves ((new r).run as) := by
  have h : ((new r).run as).Kept := (kept_new r).run as
  have hparted : ((new r).run as).service.Parted := by
    rw [run_service]
    exact Service.run_parted (Service.Sound.new r) (by rintro n id k ⟨⟩) as
  generalize (new r).run as = A at h hparted
  exact {
    order := h.agrees.order
    turn := fun n owner file hc bs hsome => Service.run_turn h.sound hc bs hsome
    hit := by
      intro n owner file id ht hanswer
      cases h.finds file (A.service.registry.turns.enter n).1 with
      | usable x hx heq =>
        rw [hanswer] at hx
        cases hx
        exact ht.found heq
      | nothing hx =>
        rw [hanswer] at hx
        cases hx
      | spent x root retired hx =>
        rw [hanswer] at hx
        cases hx
    miss := by
      intro n owner file ht hnone
      obtain ⟨r', heq, hpasses⟩ := h.passes ht hnone
      refine ⟨_, hpasses, fun htype => ?_, fun type htype as => ?_⟩
      · rw [ht.missed heq, show r'.contentTypes = _ from hpasses.config.2, htype]
      · have hlt := (List.getElem?_eq_some_iff.mp ht.call).1
        have hrun := congrArg (fun σ : Service => σ.run as) (hpasses.lenient ht heq htype)
        dsimp only at hrun
        rw [Service.run_ease (by rwa [List.length_set])] at hrun
        refine ⟨hrun, ?_⟩
        rw [hrun, Service.reply?_ease]
    steady := by
      intro n c hc hupkeep
      refine ⟨h.steady hparted hc hupkeep, fun id hid => ?_⟩
      rcases Service.upkeep_retires h.sound hparted hc hupkeep hid with hold | hout
      · exact .inl hold
      · refine .inr fun bs => ?_
        rw [run_service]
        exact hout bs }

end Annals

end LanguageSessions
