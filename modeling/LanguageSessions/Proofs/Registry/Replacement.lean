import LanguageSessions.Proofs.Registry.Invariant

/-!
A session whose server has died is replaced when it is asked for. The server of its replacement may
complete its handshake and die before anyone talks to it; then the next call launches one more
(`Service.Barren.replaces`).
-/
namespace LanguageSessions

def welcome : Response := .success (.number 1) (.object [])

theorem Connection.write_open {c : Connection} (hwritable : c.channel.finished = false)
    (haccepting : c.channel.accepting = true) (m : Message) :
    c.write m =
      ({ c with channel := { c.channel with outgoing := c.channel.outgoing ++ [m.text] } }, .ok ()) := by
  unfold Connection.write Channel.write
  rw [if_neg (by simp [hwritable]), if_pos haccepting]

namespace Session

structure Served (s : Session) : Prop where
  opened : s.connection.closed = false
  writable : s.connection.channel.finished = false
  accepting : s.connection.channel.accepting = true
  process : s.connection.channel.process = some {}

variable {s : Session}

theorem start_served (h : Host) (processId now : Nat) (hs : s.Served)
    (hfirst : s.connection.nextId = 1) (hnone : s.connection.pending = [])
    (hsettled : s.connection.settled = []) :
    ∃ s', Handshake.start h processId now s =
        (s', .ok ⟨1, now, now + Handshake.interval s.timing⟩) ∧
      s'.Served ∧ s'.connection.pending = [1] ∧ s'.connection.settled = [] ∧ s'.id = s.id := by
  unfold Handshake.start onConnection Connection.sendRequest
  dsimp only
  rw [if_neg (by simp [hs.opened]), Connection.write_open]
  · dsimp only
    rw [hfirst, hnone]
    exact ⟨_, rfl, ⟨hs.opened, hs.writable, hs.accepting, hs.process⟩, rfl, hsettled, rfl⟩
  · exact hs.writable
  · exact hs.accepting

theorem hear_welcome (hs : s.Served) (hpending : s.connection.pending = [1])
    (hsettled : s.connection.settled = []) :
    let c := s.connection.step (.hear (.response welcome))
    ({ s with connection := c } : Session).Served ∧ c.settled = [(1, welcome)] := by
  have hnamed : s.connection.named? welcome = some 1 := by
    rw [Connection.named?, hpending]
    rfl
  have hstep : s.connection.step (.hear (.response welcome)) =
      { s.connection with pending := [], settled := [(1, welcome)] } := by
    change (if s.connection.closed = true then _ else s.connection.settle welcome) = _
    unfold Connection.settle
    rw [if_neg (by simp [hs.opened]), hnamed, hpending, hsettled]
    rfl
  rw [hstep]
  exact ⟨⟨hs.opened, hs.writable, hs.accepting, hs.process⟩, rfl⟩

theorem advance_welcomed (hs : s.Served) (hsettled : s.connection.settled = [(1, welcome)])
    (started due now : Nat) :
    ∃ s' o, Handshake.advance ⟨1, started, due⟩ now s = (s', .done (.ok o)) ∧ o.exited = false ∧
      s'.Served ∧ s'.id = s.id := by
  have htake : s.onConnection (·.take? 1) =
      ({ s with connection := { s.connection with settled := [] } }, some (.ok (.object []))) := by
    unfold onConnection Connection.take?
    dsimp only
    rw [hsettled]
    rfl
  unfold Handshake.advance
  rw [htake]
  dsimp only
  unfold Handshake.finish Session.notify onConnection Connection.notify
  dsimp only
  rw [Connection.write_open]
  · exact ⟨_, _, rfl, rfl, ⟨hs.opened, hs.writable, hs.accepting, hs.process⟩, rfl⟩
  · exact hs.writable
  · exact hs.accepting

theorem die_unusable (hs : s.Served) :
    ({ s with connection := s.connection.step (.far .die) } : Session).isUsable = false := by
  simp [isUsable, isAlive, process, Connection.step, Channel.step, Channel.die, hs.process]

end Session

namespace Registry

def soil (r : Registry) := (r.host, r.contentTypes, r.connect, r.tables.attached)

structure Provides (r : Registry) (file : String) (type : String) (d : ServerDescription) : Prop where
  detached : r.tables.attached = []
  known : r.contentTypes.forFile? file = some type
  described : ∃ ps, Provider.describeFirst r.host type r.providers = (ps, some d) ∧
    Provider.describeFirst r.host type ps = (ps, some d)
  connects : ∀ n root, r.connect r.host n d root = .ok { process := some {} }

variable {r r' : Registry} {file type : String} {d : ServerDescription}

theorem Provides.congr (h : r.Provides file type d) (hsoil : r'.soil = r.soil)
    (hproviders : r'.providers = r.providers) : r'.Provides file type d := by
  obtain ⟨hhost, htypes, hconnect, hattached⟩ : r'.host = r.host ∧
      r'.contentTypes = r.contentTypes ∧ r'.connect = r.connect ∧
      r'.tables.attached = r.tables.attached := by
    simpa [soil] using hsoil
  constructor
  · rw [hattached, h.detached]
  · rw [htypes, h.known]
  · rw [hhost, hproviders]
    exact h.described
  · rw [hhost, hconnect]
    exact h.connects

theorem live?_barren (h : ∀ id, r.isUsable id = false) (key : SessionKey) :
    ∃ tables retired, r.live? key = ({ r with tables := tables, retired := retired }, none) ∧
      tables.attached = r.tables.attached := by
  unfold live?
  split
  · exact ⟨_, _, rfl, rfl⟩
  · split
    · exact ⟨_, _, rfl, rfl⟩
    · rw [if_neg (by simp [h])]
      exact ⟨_, _, rfl, rfl⟩

theorem Provides.attachedFor?_eq (h : r.Provides file type d) : r.attachedFor? file = (r, none) := by
  unfold attachedFor? Tables.rootOf?
  rw [h.detached]
  rfl

theorem Provides.resolve_eq (h : r.Provides file type d) (owner : Option String) (lenient : Bool)
    (now : Nat) : Call.perform r (.resolve owner file) lenient now =
      ({ r with turns := r.turns.leave },
        .on (.waiting (.create (Target.ofFile r.host owner file type)) lenient)) := by
  unfold Call.perform
  dsimp only
  rw [h.attachedFor?_eq]
  dsimp only
  rw [h.known]

theorem Provides.describe_eq (h : r.Provides file type d) {t : Target} (ht : t.contentType = type) :
    ∃ ps questions, r.describe t = ({ r with providers := ps, questions := questions }, some d) ∧
      ({ r with providers := ps, questions := questions } : Registry).Provides file type d := by
  obtain ⟨ps, hfirst, hagain⟩ := h.described
  unfold describe
  rw [ht, hfirst]
  exact ⟨_, _, rfl, ⟨h.detached, h.known, ⟨ps, hagain, hagain⟩, h.connects⟩⟩

structure Opened (r r' : Registry) (s : Session) : Prop where
  session : r'.session? s.id = some s
  others : ∀ x, x ≠ s.id → r'.isUsable x = false
  turns : r'.turns = r.turns
  launches : r'.launches.length = r.launches.length + 1
  announced : r'.announced = r.announced
  served : s.Served
  pending : s.connection.pending = [1]
  settled : s.connection.settled = []

theorem Provides.launch_eq (h : r.Provides file type d) (hunusable : ∀ id, r.isUsable id = false)
    (hnext : r.session? (r.sessions.length + 1) = none) (key : SessionKey) (root : String)
    (now : Nat) : ∃ r' s due, r.launch key root d now = (r', .ok (s.id, ⟨1, now, due⟩)) ∧
      r'.Provides file type d ∧ r.Opened r' s := by
  obtain ⟨s, hs⟩ : ∃ s, s = Session.start r.host (r.sessions.length + 1) key root d.name
    { process := some {} } r.timing := ⟨_, rfl⟩
  have hid : s.id = r.sessions.length + 1 := by
    rw [hs]
    rfl
  have hconnect : r.connectTo key root d = (r.add s (d, root), .ok s.id) := by
    unfold connectTo
    rw [h.connects, hs]
    rfl
  have hserved : s.Served ∧ s.connection.nextId = 1 ∧ s.connection.pending = [] ∧
      s.connection.settled = [] := by
    rw [hs]
    exact ⟨⟨rfl, rfl, rfl, rfl⟩, rfl, rfl, rfl⟩
  obtain ⟨s', hstart, hserved', hpending, hsettled, hid'⟩ :=
    Session.start_served r.host r.processId now hserved.1 hserved.2.1 hserved.2.2.1 hserved.2.2.2
  have hadd : (r.add s (d, root)).session? s.id = some s := by
    rw [session?_add, hid, hnext, if_pos rfl]
    rfl
  have hsession : ∀ x, ((r.add s (d, root)).modify s.id fun _ => s').session? x =
      if x = s.id then some s' else r.session? x := by
    intro x
    rw [session?_modify _ _ _ _ fun _ _ => hid', hadd]
    split
    · rfl
    · next hne => rw [session?_add, if_neg (Ne.symm hne), Option.or_none]
  refine ⟨(r.add s (d, root)).modify s.id fun _ => s', s', now + Handshake.interval s.timing, ?_,
    h.congr rfl rfl, ?_⟩
  · unfold launch
    rw [hconnect]
    dsimp only
    have hbegun : Handshake.start (r.add s (d, root)).host (r.add s (d, root)).processId now s =
        (s', .ok ⟨1, now, now + Handshake.interval s.timing⟩) := hstart
    rw [change_of_some hadd, hbegun, hid']
  · constructor
    · rw [hsession, hid', if_pos rfl]
    · intro x hx
      rw [hid'] at hx
      rw [isUsable, hsession, if_neg hx]
      exact hunusable x
    · rfl
    · simp [modify, add]
    · rfl
    · exact hserved'
    · exact hpending
    · exact hsettled

theorem Provides.create_eq (h : r.Provides file type d) (hunusable : ∀ id, r.isUsable id = false)
    (hnext : r.session? (r.sessions.length + 1) = none) {t : Target} (ht : t.contentType = type)
    (lenient : Bool) (now : Nat) : ∃ r' s due, Call.create r t lenient now =
        (r', .on (.opening s.id ⟨1, now, due⟩ (.keyed t.key) lenient)) ∧
      r'.Provides file type d ∧ r.Opened r' s := by
  obtain ⟨tables, retired, hlive, hattached⟩ := live?_barren hunusable t.key
  have hfound : ({ r with tables := tables, retired := retired } : Registry).Provides file type d :=
    h.congr (by simp [soil, hattached]) rfl
  obtain ⟨ps, questions, hdescribe, hdescribed⟩ := hfound.describe_eq ht
  obtain ⟨r', s, due, hlaunch, hprovides, hopened⟩ :=
    hdescribed.launch_eq hunusable hnext t.key t.root now
  refine ⟨r', s, due, ?_, hprovides, ?_⟩
  · unfold Call.create
    rw [hlive]
    dsimp only
    rw [hdescribe]
    dsimp only
    unfold Call.launch
    rw [hlaunch]
  · exact ⟨hopened.session, hopened.others, hopened.turns, hopened.launches, hopened.announced,
      hopened.served, hopened.pending, hopened.settled⟩

end Registry

namespace Service

structure Barren (σ : Service) (file type : String) (d : ServerDescription) : Prop where
  provides : σ.registry.Provides file type d
  turns : σ.registry.turns = {}
  unusable : ∀ id, σ.registry.isUsable id = false

structure Greets (σ : Service) (file type : String) (d : ServerDescription) (n : Nat)
    (s : Session) : Prop where
  provides : σ.registry.Provides file type d
  turns : σ.registry.turns = ⟨some n, []⟩
  session : σ.registry.session? s.id = some s
  others : ∀ x, x ≠ s.id → σ.registry.isUsable x = false
  call : ∃ started due key,
    σ.calls[n]? = some (.running (.opening s.id ⟨1, started, due⟩ (.keyed key) true))
  served : s.Served

variable {σ : Service} {file type : String} {d : ServerDescription}

theorem Barren.asks (h : σ.Barren file type d) : ∃ t, t.contentType = type ∧
    (σ.step (.ask (.resolveFile file))).step (.advance σ.calls.length) =
      { σ with calls := σ.calls ++ [.running (.waiting (.create t) true)] } := by
  obtain ⟨owner, howner⟩ : ∃ owner, owner = σ.registry.locator.findRoot? σ.registry.host file :=
    ⟨_, rfl⟩
  refine ⟨Target.ofFile σ.registry.host owner file type, rfl, ?_⟩
  have hcall : (σ.step (.ask (.resolveFile file))).calls[σ.calls.length]? =
      some (.running (.waiting (.resolve owner file) true)) := by
    rw [howner]
    exact List.getElem?_concat_length
  have hadvance : (Call.waiting (.resolve owner file) true).advance σ.calls.length σ.now σ.registry =
      (σ.registry, .on (.waiting (.create (Target.ofFile σ.registry.host owner file type)) true)) := by
    have henter : σ.registry.turns.enter σ.calls.length = (⟨some σ.calls.length, []⟩, true) := by
      rw [h.turns]
      rfl
    have hleft : (⟨some σ.calls.length, []⟩ : Turns).leave = σ.registry.turns := by
      rw [h.turns]
      rfl
    have hprovides : ({ σ.registry with turns := ⟨some σ.calls.length, []⟩ } : Registry).Provides
        file type d := h.provides.congr rfl rfl
    unfold Call.advance
    rw [henter]
    refine (hprovides.resolve_eq owner true σ.now).trans ?_
    dsimp only
    rw [hleft]
  rw [step_advance hcall]
  change ({ σ with
    registry := ((Call.waiting (.resolve owner file) true).advance σ.calls.length σ.now σ.registry).1
    calls := (σ.calls ++ [_]).set σ.calls.length (.next _
      ((Call.waiting (.resolve owner file) true).advance σ.calls.length σ.now σ.registry).2)
    given := σ.given ++ Call.gives _
      ((Call.waiting (.resolve owner file) true).advance σ.calls.length σ.now σ.registry).2
    } : Service) = _
  rw [hadvance, List.set_append_right _ _ (Nat.le_refl _), Nat.sub_self]
  simp only [Call.gives, List.append_nil]
  rfl

theorem Barren.launches (h : σ.Barren file type d) (hsound : σ.Sound) {n : Nat} {t : Target}
    (ht : t.contentType = type)
    (hcall : σ.calls[n]? = some (.running (.waiting (.create t) true))) :
    ∃ s, (σ.step (.advance n)).Greets file type d n s ∧ s.connection.pending = [1] ∧
      s.connection.settled = [] ∧
      (σ.step (.advance n)).registry.launches.length = σ.registry.launches.length + 1 ∧
      (σ.step (.advance n)).registry.announced = σ.registry.announced := by
  have henter : σ.registry.turns.enter n = (⟨some n, []⟩, true) := by
    rw [h.turns]
    rfl
  have hprovides : ({ σ.registry with turns := ⟨some n, []⟩ } : Registry).Provides file type d :=
    h.provides.congr rfl rfl
  obtain ⟨r', s, due, hcreate, hmade, hopened⟩ :=
    hprovides.create_eq h.unusable hsound.registry.session?_next ht true σ.now
  have hadvance : (Call.waiting (.create t) true).advance n σ.now σ.registry =
      (r', .on (.opening s.id ⟨1, σ.now, due⟩ (.keyed t.key) true)) := by
    unfold Call.advance
    rw [henter]
    exact hcreate
  refine ⟨s, ?_⟩
  rw [step_advance hcall, hadvance]
  refine ⟨⟨hmade, hopened.turns, hopened.session, hopened.others, ?_, hopened.served⟩,
    hopened.pending, hopened.settled, hopened.launches, hopened.announced⟩
  exact ⟨_, _, _, List.getElem?_set_self (List.getElem?_eq_some_iff.mp hcall).1⟩

theorem step_own {id : SessionId} {e : Connection.Event} (he : e.isOwn = true) :
    σ.step (.event id e) =
      { σ with registry :=
          (σ.registry.modify id fun s => { s with connection := s.connection.step e }) } := by
  unfold step
  dsimp only
  rw [he, Bool.true_or, if_pos rfl]

theorem session?_step_own {s : Session} (h : σ.registry.session? s.id = some s)
    {e : Connection.Event} (he : e.isOwn = true) (x : SessionId) :
    (σ.step (.event s.id e)).registry.session? x =
      if x = s.id then some { s with connection := s.connection.step e }
      else σ.registry.session? x := by
  rw [step_own he, Registry.session?_modify _ _ _ _ (by exact fun _ hid => hid), h]
  rfl

theorem Greets.event {n : Nat} {s : Session} (h : σ.Greets file type d n s)
    {e : Connection.Event} (he : e.isOwn = true)
    (hserved : ({ s with connection := s.connection.step e } : Session).Served) :
    (σ.step (.event s.id e)).Greets file type d n { s with connection := s.connection.step e } ∧
      (σ.step (.event s.id e)).registry.launches = σ.registry.launches ∧
      (σ.step (.event s.id e)).registry.announced = σ.registry.announced := by
  have hsession := session?_step_own h.session he
  rw [step_own he] at hsession ⊢
  refine ⟨⟨h.provides.congr rfl rfl, h.turns, ?_, ?_, h.call, hserved⟩, rfl, rfl⟩
  · exact (hsession s.id).trans (if_pos rfl)
  · intro x hx
    rw [Registry.isUsable, hsession, if_neg hx]
    exact h.others x hx

theorem Greets.admits {n : Nat} {s : Session} (h : σ.Greets file type d n s)
    (hsettled : s.connection.settled = [(1, welcome)]) :
    ∃ s', s'.id = s.id ∧ s'.Served ∧ (σ.step (.advance n)).registry.session? s'.id = some s' ∧
      (∀ x, x ≠ s'.id → (σ.step (.advance n)).registry.isUsable x = false) ∧
      (σ.step (.advance n)).registry.Provides file type d ∧
      (σ.step (.advance n)).registry.turns = {} ∧
      (σ.step (.advance n)).calls[n]? = some (.replied (.resolved (some s'.id))) ∧
      (σ.step (.advance n)).registry.launches = σ.registry.launches ∧
      (σ.step (.advance n)).registry.announced = σ.registry.announced ++ [s'.id] := by
  obtain ⟨started, due, key, hcall⟩ := h.call
  obtain ⟨s', o, hadvanced, hexited, hserved, hid⟩ :=
    Session.advance_welcomed h.served hsettled started due σ.now
  have hadvance : (Call.opening s.id ⟨1, started, due⟩ (.keyed key) true).advance n σ.now
      σ.registry = Call.settle (.keyed key) true σ.now (σ.registry.modify s.id fun _ => s')
        (.ok s.id) := by
    unfold Call.advance
    dsimp only
    rw [Registry.change_of_some h.session, hadvanced]
    dsimp only
    unfold Registry.launched
    dsimp only
    rw [hexited]
    rfl
  have hsession : ∀ x, (σ.registry.modify s.id fun _ => s').session? x =
      if x = s.id then some s' else σ.registry.session? x := by
    intro x
    rw [Registry.session?_modify _ _ _ _ fun _ _ => hid, h.session]
    rfl
  refine ⟨s', hid, hserved, ?_⟩
  rw [step_advance hcall, hadvance, hid]
  refine ⟨?_, ?_, ?_, ?_, ?_, rfl, rfl⟩
  · exact (hsession s.id).trans (if_pos rfl)
  · intro x hx
    change ((σ.registry.modify s.id fun _ => s').session? x).any Session.isUsable = false
    rw [hsession, if_neg hx]
    exact h.others x hx
  · exact h.provides.congr rfl rfl
  · change ({ σ.registry.turns with holder := none } : Turns) = {}
    rw [h.turns]
  · exact List.getElem?_set_self (List.getElem?_eq_some_iff.mp hcall).1

theorem Barren.replaces (h : σ.Barren file type d) (hsound : σ.Sound) :
    ∃ id as, (∀ a ∈ as, (∀ d, a ≠ .ask d) ∧ ∀ millis, a ≠ .pass millis) ∧
      let τ := (σ.step (.ask (.resolveFile file))).run as
      τ.Barren file type d ∧ τ.calls[σ.calls.length]? = some (.replied (.resolved (some id))) ∧
        τ.registry.launches.length = σ.registry.launches.length + 1 ∧
        τ.registry.announced.length = σ.registry.announced.length + 1 := by
  obtain ⟨t, ht, hasked⟩ := h.asks
  obtain ⟨σ₁, hσ₁⟩ : ∃ σ₁ : Service,
      σ₁ = { σ with calls := σ.calls ++ [.running (.waiting (.create t) true)] } := ⟨_, rfl⟩
  have hcall : σ₁.calls[σ.calls.length]? = some (.running (.waiting (.create t) true)) := by
    rw [hσ₁]
    exact List.getElem?_concat_length
  have hbarren : σ₁.Barren file type d := by
    rw [hσ₁]
    exact ⟨h.provides, h.turns, h.unusable⟩
  have hsound₁ : σ₁.Sound := by
    rw [hσ₁, ← hasked]
    exact (step_leads (step_leads hsound _).sound _).sound
  obtain ⟨s, hgreets, hpending, hsettled, hlaunched, hsame⟩ := hbarren.launches hsound₁ ht hcall
  obtain ⟨hserved, hheard⟩ := Session.hear_welcome hgreets.served hpending hsettled
  obtain ⟨hgreeted, hlaunches₃, hannounced₃⟩ := hgreets.event (e := .hear (.response welcome)) rfl hserved
  obtain ⟨s', hid, hserved', hsession, hothers, hprovides, hturns, hreply, hlaunches₄, hannounced₄⟩ :=
    hgreeted.admits hheard
  rw [hlaunches₃] at hlaunches₄
  rw [hannounced₃, hsame] at hannounced₄
  obtain ⟨σ₄, hσ₄⟩ : ∃ σ₄, σ₄ = ((σ₁.step (.advance σ.calls.length)).step
      (.event s.id (.hear (.response welcome)))).step (.advance σ.calls.length) := ⟨_, rfl⟩
  rw [← hσ₄] at hsession hothers hprovides hturns hreply hlaunches₄ hannounced₄
  have hdead := session?_step_own hsession (e := .far .die) rfl
  -- The call launches and begins, its server answers, the call ends, and the server dies.
  obtain ⟨as, has⟩ : ∃ as : List Act, as = [.advance σ.calls.length, .advance σ.calls.length,
      .event s.id (.hear (.response welcome)), .advance σ.calls.length,
      .event s'.id (.far .die)] := ⟨_, rfl⟩
  have hrun : (σ.step (.ask (.resolveFile file))).run as = σ₄.step (.event s'.id (.far .die)) := by
    rw [has, hσ₄, hσ₁, ← hasked]
    rfl
  have hlaunches : σ₄.registry.launches.length = σ.registry.launches.length + 1 := by
    rw [hlaunches₄, hlaunched, hσ₁]
  have hannounced : σ₄.registry.announced.length = σ.registry.announced.length + 1 := by
    rw [hannounced₄, hσ₁, List.length_append, List.length_singleton]
  refine ⟨s'.id, as, by simp [has], ?_⟩
  rw [hrun]
  have hunusable : ∀ x, (σ₄.step (.event s'.id (.far .die))).registry.isUsable x = false := by
    intro x
    rw [Registry.isUsable, hdead]
    split
    · exact Session.die_unusable hserved'
    · next hne => exact hothers x hne
  rw [step_own rfl] at hunusable ⊢
  exact ⟨⟨hprovides.congr rfl rfl, hturns, hunusable⟩, hreply, hlaunches, hannounced⟩

end Service

end LanguageSessions
