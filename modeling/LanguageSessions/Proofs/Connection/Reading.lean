import Mathlib.Data.List.Induction
import LanguageSessions.Proofs.Connection.Events
import LanguageSessions.Proofs.Wire.Frame

namespace LanguageSessions

def Frame.message? (body : List UInt8) : Option Message := (decodeBody body).toOption

theorem Channel.write_incoming (c : Channel) (text : String) :
    (c.write text).1.incoming = c.incoming := by
  unfold write
  split
  · rfl
  · split <;> rfl

theorem Channel.write_ended (c : Channel) (text : String) : (c.write text).1.ended = c.ended := by
  unfold write
  split
  · rfl
  · split <;> rfl

namespace Connection

def intake (c : Connection) : List UInt8 × Bool × Bool :=
  (c.channel.incoming, c.channel.ended, c.closed)

theorem write_intake (c : Connection) (m : Message) : (c.write m).1.intake = c.intake := by
  simp only [intake, write, Channel.write_incoming, Channel.write_ended]

theorem sendRequest_intake (c : Connection) (method : String) (params : Option Json) :
    (c.sendRequest method params).1.intake = c.intake := by
  unfold sendRequest
  split
  · rfl
  · dsimp only
    have hw := write_intake { c with nextId := c.nextId + 1 }
      (.request { id := .number c.nextId, method := method, params := params })
    split <;> next heq => rw [heq] at hw; exact hw

theorem take?_intake (c : Connection) (id : Nat) : (c.take? id).1.intake = c.intake := by
  unfold take?
  split
  · rfl
  · split <;> rfl

theorem logged_intake (c : Connection) (params : Json) : (c.logged params).intake = c.intake := by
  unfold logged
  split <;> rfl

theorem receive_intake (c : Connection) (m : Message) : (c.receive m).intake = c.intake := by
  cases m with
  | request r => rfl
  | notification n =>
    unfold receive hear
    dsimp only
    split
    · split <;> rfl
    · exact logged_intake c _
    · exact logged_intake c _
    · rfl
  | response r =>
    unfold receive settle
    dsimp only
    split <;> rfl

theorem reply_intake (c : Connection) (i : Nat) : (c.reply i).intake = c.intake := by
  unfold reply
  split
  · rfl
  · exact write_intake _ _

namespace Event

def isRead : Event → Bool
  | .hear _ | .exit | .far (.consume _) => true
  | _ => false

def isEnd : Event → Bool
  | .far .hangUp => true
  | _ => false

def heard? : Event → Option Message
  | .hear m => some m
  | _ => none

def bytes : Event → List UInt8
  | .far (.deliver bytes) => bytes
  | _ => []

end Event

theorem step_intake (c : Connection) (e : Event) (hread : e.isRead = false) (hend : e.isEnd = false)
    (hopen : c.channel.ended = false) :
    (c.step e).intake = (c.channel.incoming ++ e.bytes, c.channel.ended, c.closed) := by
  have hsame : ∀ d : Connection, d.intake = c.intake → e.bytes = [] →
      d.intake = (c.channel.incoming ++ e.bytes, c.channel.ended, c.closed) := by
    intro d hd hbytes
    rw [hd, hbytes, List.append_nil]
    rfl
  cases e with
  | send method params => exact hsame _ (sendRequest_intake c method params) rfl
  | notify method params => exact hsame _ (write_intake c _) rfl
  | cancel id => exact hsame _ (write_intake { c with pending := c.pending.filter (· != id) } _) rfl
  | take id => exact hsame _ (take?_intake c id) rfl
  | reply i => exact hsame _ (reply_intake c i) rfl
  | close => exact hsame _ rfl rfl
  | enableLog on => exact hsame _ rfl rfl
  | hear m => cases hread
  | exit => cases hread
  | far e =>
    cases e with
    | deliver bytes =>
      simp only [step, Channel.step, Channel.deliver, hopen, intake, Event.bytes]
      rfl
    | consume rest => cases hread
    | hangUp => cases hend
    | _ => exact hsame _ rfl rfl

def hearings (bodies : List (List UInt8)) : List Event :=
  (bodies.filterMap Frame.message?).map .hear

theorem hearings_append (bodies more : List (List UInt8)) :
    hearings (bodies ++ more) = hearings bodies ++ hearings more := by
  rw [hearings, List.filterMap_append, List.map_append]
  rfl

theorem receiveBody_eq (c : Connection) (body : List UInt8) (h : c.closed = false) :
    c.receiveBody body = c.run (hearings [body]) ∧ (c.receiveBody body).intake = c.intake := by
  unfold receiveBody hearings
  cases hm : Frame.decodeBody body with
  | error f => simp [Frame.message?, hm, run, Except.toOption]
  | ok m => simp [Frame.message?, hm, run, Except.toOption, step, h, receive_intake]

theorem readFrames_of_frame {ended : Bool} {bs body rest : List UInt8} (c : Connection)
    (h : Frame.take ended bs = .frame body rest) :
    readFrames ended bs c = readFrames ended rest (c.receiveBody body) := by
  rw [readFrames]
  split
  · next h' => rw [h] at h'; cases h'
  · next h' => rw [h] at h'; cases h'
  · next h' =>
    rw [h] at h'
    cases h'
    rfl

theorem readFrames_of_wanting {ended : Bool} {bs : List UInt8} (c : Connection)
    (h : Frame.take ended bs = .wanting) : readFrames ended bs c = (c, bs) := by
  rw [readFrames]
  split
  · rfl
  · next h' => rw [h] at h'; cases h'
  · next h' => rw [h] at h'; cases h'

theorem readFrames_of_fault {ended : Bool} {bs rest : List UInt8} {f : FrameFault} (c : Connection)
    (h : Frame.take ended bs = .fault f rest) : readFrames ended bs c = (c.fail, rest) := by
  rw [readFrames]
  split
  · next h' => rw [h] at h'; cases h'
  · next h' => rw [h] at h'; cases h'; rfl
  · next h' => rw [h] at h'; cases h'

theorem readFrames_open {bodies : List (List UInt8)} (h : ∀ b ∈ bodies, b.length ≤ Frame.maxLength)
    {p q : List UInt8} (hsplit : Frame.stream bodies = p ++ q) (c : Connection)
    (hopen : c.closed = false) :
    ∃ now later rest, bodies = now ++ later ∧ p = Frame.stream now ++ rest ∧
      (q = [] → later = []) ∧ readFrames false p c = (c.run (hearings now), rest) := by
  induction bodies generalizing p c with
  | nil =>
    obtain ⟨rfl, rfl⟩ := List.append_eq_nil_iff.mp hsplit.symm
    exact ⟨[], [], [], rfl, rfl, fun _ => rfl, readFrames_of_wanting c (Frame.take_nil false)⟩
  | cons body bodies ih =>
    rcases Frame.take_stream_prefix h hsplit with ⟨hwanting, hall⟩ | ⟨body', more, p', heq, rfl⟩
    · exact ⟨[], body :: bodies, p, rfl, rfl, hall, readFrames_of_wanting c hwanting⟩
    · obtain ⟨rfl, rfl⟩ := List.cons.inj heq
      rw [Frame.stream_cons, List.append_assoc, List.append_cancel_left_eq] at hsplit
      obtain ⟨hrun, hintake⟩ := receiveBody_eq c body hopen
      have hopen' : (c.receiveBody body).closed = false := (congrArg (·.2.2) hintake).trans hopen
      obtain ⟨now, later, rest, rfl, hp, hall, hread⟩ :=
        ih (fun b hb => h b (List.mem_cons_of_mem _ hb)) hsplit _ hopen'
      have htake := Frame.take_encodeBytes false (h body List.mem_cons_self) p'
      refine ⟨body :: now, later, rest, rfl, ?_, hall, ?_⟩
      · rw [hp, Frame.stream_cons, List.append_assoc]
      · rw [readFrames_of_frame c htake, hread, hrun, ← run_append, ← hearings_append]
        rfl

theorem readFrames_ended {bodies : List (List UInt8)} (h : ∀ b ∈ bodies, b.length ≤ Frame.maxLength)
    (c : Connection) (hopen : c.closed = false) :
    readFrames true (Frame.stream bodies) c = ((c.run (hearings bodies)).fail, []) ∧
      (c.run (hearings bodies)).closed = false := by
  induction bodies generalizing c with
  | nil => exact ⟨readFrames_of_fault c (Frame.take_nil true), hopen⟩
  | cons body bodies ih =>
    obtain ⟨hrun, hintake⟩ := receiveBody_eq c body hopen
    have hopen' : (c.receiveBody body).closed = false := (congrArg (·.2.2) hintake).trans hopen
    have hrest := ih (fun b hb => h b (List.mem_cons_of_mem _ hb)) _ hopen'
    have htake := Frame.take_encodeBytes true (h body List.mem_cons_self) (Frame.stream bodies)
    have happend : hearings (body :: bodies) = hearings [body] ++ hearings bodies :=
      hearings_append [body] bodies
    rw [Frame.stream_cons, readFrames_of_frame c htake, happend, run_append, ← hrun]
    exact hrest

inductive Act where
  | event (e : Event)
  | read

namespace Act

def event? : Act → Option Event
  | .event e => some e
  | .read => none

def bytes : Act → List UInt8
  | .event e => e.bytes
  | .read => []

def Admissible (a : Act) : Prop := ∀ e, a.event? = some e → e.isRead = false ∧ e.isEnd = false

end Act

def act (c : Connection) : Act → Connection
  | .event e => c.step e
  | .read => c.read

def play (c : Connection) (acts : List Act) : Connection := acts.foldl act c

def arrived (acts : List Act) : List UInt8 := acts.flatMap Act.bytes

/-- From `c` on there was what happened and what the reader did with some bodies, in their order,
and nothing else. -/
structure Heard (c d : Connection) (acts : List Act) (bodies : List (List UInt8)) (es : List Event) :
    Prop where
  run : d = c.run es
  heard : es.filterMap Event.heard? = bodies.filterMap Frame.message?
  others : es.filter (fun e => !e.isRead) = acts.filterMap Act.event?
  stays : .exit ∉ es

theorem Heard.start (c : Connection) : Heard c c [] [] [] := ⟨rfl, rfl, rfl, List.not_mem_nil⟩

theorem Heard.event {c d : Connection} {acts : List Act} {bodies : List (List UInt8)}
    {es : List Event} (h : Heard c d acts bodies es) {e : Event} (he : e.isRead = false) :
    Heard c (d.step e) (acts ++ [.event e]) bodies (es ++ [e]) where
  run := by
    rw [run_append, ← h.run]
    rfl
  heard := by
    have hnone : e.heard? = none := by cases e <;> first | rfl | cases he
    simp [h.heard, hnone]
  others := by
    simp [h.others, he, Act.event?]
  stays := by
    intro hmem
    rcases List.mem_append.mp hmem with hmem | hmem
    · exact h.stays hmem
    · rw [← List.mem_singleton.mp hmem] at he
      cases he

theorem heard_hearings (bodies : List (List UInt8)) :
    (hearings bodies).filterMap Event.heard? = bodies.filterMap Frame.message? := by
  rw [hearings, List.filterMap_map]
  exact List.filterMap_some

theorem hearings_isRead {bodies : List (List UInt8)} {e : Event} (he : e ∈ hearings bodies) :
    e.isRead = true ∧ e ≠ .exit := by
  obtain ⟨m, -, rfl⟩ := List.mem_map.mp he
  exact ⟨rfl, Event.noConfusion⟩

theorem Heard.hear {c d : Connection} {acts : List Act} {bodies : List (List UInt8)}
    {es : List Event} (h : Heard c d acts bodies es) (now : List (List UInt8)) :
    Heard c (d.run (hearings now)) acts (bodies ++ now) (es ++ hearings now) where
  run := by rw [run_append, ← h.run]
  heard := by rw [List.filterMap_append, List.filterMap_append, h.heard, heard_hearings]
  others := by
    have hnone : (hearings now).filter (fun e => !e.isRead) = [] := by
      rw [List.filter_eq_nil_iff]
      intro e he
      simp [(hearings_isRead he).1]
    rw [List.filter_append, hnone, List.append_nil, h.others]
  stays := by
    intro hmem
    rcases List.mem_append.mp hmem with hmem | hmem
    · exact h.stays hmem
    · exact (hearings_isRead hmem).2 rfl

theorem Heard.read {c d : Connection} {acts : List Act} {bodies : List (List UInt8)}
    {es : List Event} (h : Heard c d acts bodies es) (now : List (List UInt8)) (rest : List UInt8) :
    Heard c (d.run (hearings now ++ [.far (.consume rest)])) (acts ++ [.read]) (bodies ++ now)
      (es ++ hearings now ++ [.far (.consume rest)]) where
  run := by rw [run_append, run_append, ← (h.hear now).run]
  heard := by
    rw [List.filterMap_append, (h.hear now).heard]
    exact List.append_nil _
  others := by
    rw [List.filter_append, (h.hear now).others, List.filterMap_append]
    rfl
  stays := by
    intro hmem
    rcases List.mem_append.mp hmem with hmem | hmem
    · exact (h.hear now).stays hmem
    · cases List.mem_singleton.mp hmem

theorem read_open {bodies : List (List UInt8)} (h : ∀ b ∈ bodies, b.length ≤ Frame.maxLength)
    (c : Connection) (hopen : c.closed = false) (hended : c.channel.ended = false) {q : List UInt8}
    (hsplit : Frame.stream bodies = c.channel.incoming ++ q) :
    ∃ now later rest, bodies = now ++ later ∧ c.channel.incoming = Frame.stream now ++ rest ∧
      (q = [] → later = []) ∧ c.read = c.run (hearings now ++ [.far (.consume rest)]) := by
  obtain ⟨now, later, rest, hbodies, hp, hall, hread⟩ := readFrames_open h hsplit c hopen
  refine ⟨now, later, rest, hbodies, hp, hall, ?_⟩
  rw [read, hopen, hended, hread, run_append]
  rfl

theorem run_hearings_intake (c : Connection) (bodies : List (List UInt8)) (hopen : c.closed = false) :
    (c.run (hearings bodies)).intake = c.intake := by
  rw [hearings]
  generalize bodies.filterMap Frame.message? = ms
  induction ms generalizing c with
  | nil => rfl
  | cons m ms ih =>
    have hstep : c.step (.hear m) = c.receive m := by simp [step, hopen]
    have hintake := receive_intake c m
    have hrest := ih (c.receive m) ((congrArg (·.2.2) hintake).trans hopen)
    rw [List.map_cons, run, List.foldl_cons, hstep]
    exact hrest.trans hintake

theorem run_consume_intake (c : Connection) (bodies : List (List UInt8)) (rest : List UInt8)
    (hopen : c.closed = false) :
    (c.run (hearings bodies ++ [.far (.consume rest)])).intake =
      (rest, c.channel.ended, c.closed) := by
  have hintake := run_hearings_intake c bodies hopen
  rw [run_append]
  exact congrArg (fun i => (rest, i.2)) hintake

theorem play_concat (c : Connection) (acts : List Act) (a : Act) :
    c.play (acts ++ [a]) = (c.play acts).act a := by
  rw [play, List.foldl_concat, play]

theorem arrived_concat (acts : List Act) (a : Act) : arrived (acts ++ [a]) = arrived acts ++ a.bytes := by
  rw [arrived, List.flatMap_append, List.flatMap_singleton, arrived]

theorem play_reads {bodies : List (List UInt8)} (h : ∀ b ∈ bodies, b.length ≤ Frame.maxLength)
    {c : Connection} (hc : c.intake = ([], false, false)) (acts : List Act)
    (hacts : ∀ a ∈ acts, a.Admissible) {q : List UInt8}
    (hsplit : Frame.stream bodies = arrived acts ++ q) :
    ∃ now later es, bodies = now ++ later ∧ Heard c (c.play acts) acts now es ∧
      (c.play acts).intake = ((c.play acts).channel.incoming, false, false) ∧
      Frame.stream later = (c.play acts).channel.incoming ++ q := by
  -- By the last act. What has arrived and was not read is where the frames still to be read begin.
  induction acts using List.reverseRecOn generalizing q with
  | nil =>
    have hincoming : c.channel.incoming = [] := congrArg (·.1) hc
    refine ⟨[], bodies, [], rfl, Heard.start c, ?_, ?_⟩
    · rw [play, List.foldl_nil, hincoming, hc]
    · rw [play, List.foldl_nil, hincoming, hsplit]
      rfl
  | append_singleton acts a ih =>
    rw [arrived_concat, List.append_assoc] at hsplit
    obtain ⟨now, later, es, rfl, hheard, hintake, hlater⟩ :=
      ih (fun a ha => hacts a (List.mem_append_left _ ha)) hsplit
    have hended : (c.play acts).channel.ended = false := congrArg (·.2.1) hintake
    have hopen : (c.play acts).closed = false := congrArg (·.2.2) hintake
    rw [play_concat]
    cases a with
    | event e =>
      obtain ⟨hread, hend⟩ := hacts (.event e) (by simp) e rfl
      have hstep := step_intake (c.play acts) e hread hend hended
      rw [hended, hopen] at hstep
      have hincoming := congrArg (·.1) hstep
      refine ⟨now, later, _, rfl, hheard.event hread, ?_, ?_⟩
      · exact hstep.trans (congrArg (·, false, false) hincoming.symm)
      · rw [hlater, ← List.append_assoc]
        exact congrArg (· ++ q) hincoming.symm
    | read =>
      have hlong : ∀ b ∈ later, b.length ≤ Frame.maxLength :=
        fun b hb => h b (List.mem_append_right _ hb)
      obtain ⟨now', later', rest, rfl, hp, -, hread⟩ := read_open hlong _ hopen hended hlater
      have hrun := run_consume_intake (c.play acts) now' rest hopen
      rw [hended, hopen, ← hread] at hrun
      have hincoming := congrArg (·.1) hrun
      rw [hp, Frame.stream_append, List.append_assoc, List.append_cancel_left_eq] at hlater
      have hheard' := hheard.read now' rest
      rw [← hread] at hheard'
      refine ⟨now ++ now', later', _, (List.append_assoc ..).symm, hheard', ?_, ?_⟩
      · exact hrun.trans (congrArg (·, false, false) hincoming.symm)
      · rw [hlater]
        exact congrArg (· ++ q) hincoming.symm

theorem play_hears {bodies : List (List UInt8)} (h : ∀ b ∈ bodies, b.length ≤ Frame.maxLength)
    {c : Connection} (hc : c.intake = ([], false, false)) (acts : List Act)
    (hacts : ∀ a ∈ acts, a.Admissible) (hall : arrived acts = Frame.stream bodies) :
    ∃ es, Heard c (c.play (acts ++ [.read])) (acts ++ [.read]) bodies es ∧
      (c.play (acts ++ [.read])).intake = ([], false, false) := by
  have hsplit : Frame.stream bodies = arrived acts ++ [] := by rw [hall, List.append_nil]
  obtain ⟨now, later, es, rfl, hheard, hintake, hlater⟩ := play_reads h hc acts hacts hsplit
  have hended : (c.play acts).channel.ended = false := congrArg (·.2.1) hintake
  have hopen : (c.play acts).closed = false := congrArg (·.2.2) hintake
  have hlong : ∀ b ∈ later, b.length ≤ Frame.maxLength :=
    fun b hb => h b (List.mem_append_right _ hb)
  obtain ⟨now', later', rest, rfl, hp, hrest, hread⟩ := read_open hlong _ hopen hended hlater
  obtain rfl := hrest rfl
  have hrun := run_consume_intake (c.play acts) now' rest hopen
  have hempty : rest = [] := by
    rw [List.append_nil, List.append_nil, hp] at hlater
    exact List.self_eq_append_right.mp hlater
  have hheard' := hheard.read now' rest
  rw [← hread] at hheard'
  rw [hended, hopen, ← hread, hempty] at hrun
  rw [play_concat, List.append_nil]
  exact ⟨_, hheard', hrun⟩

theorem read_ended {bodies : List (List UInt8)} (h : ∀ b ∈ bodies, b.length ≤ Frame.maxLength)
    (c : Connection) (hopen : c.closed = false) (hended : c.channel.ended = true)
    (hall : Frame.stream bodies = c.channel.incoming) :
    c.read = (c.run (hearings bodies)).run [.exit, .far (.consume [])] ∧
      (c.run (hearings bodies)).closed = false := by
  obtain ⟨hread, hstays⟩ := readFrames_ended h c hopen
  refine ⟨?_, hstays⟩
  have hexit : (c.run (hearings bodies)).step .exit = (c.run (hearings bodies)).fail := by
    simp [step, hstays]
  have hrun : (c.run (hearings bodies)).run [.exit, .far (.consume [])] =
      (c.run (hearings bodies)).fail.step (.far (.consume [])) :=
    congrArg (fun d => step d (.far (.consume []))) hexit
  rw [hrun, read, hopen, hended, ← hall, hread]
  rfl

theorem play_ends {bodies : List (List UInt8)} (h : ∀ b ∈ bodies, b.length ≤ Frame.maxLength)
    {c : Connection} (hc : c.intake = ([], false, false)) (acts : List Act)
    (hacts : ∀ a ∈ acts, a.Admissible) (hall : arrived acts = Frame.stream bodies) :
    ∃ d es, Heard c d (acts ++ [.event (.far .hangUp)]) bodies es ∧ d.closed = false ∧
      c.play (acts ++ [.event (.far .hangUp), .read]) = d.run [.exit, .far (.consume [])] := by
  have hsplit : Frame.stream bodies = arrived acts ++ [] := by rw [hall, List.append_nil]
  obtain ⟨now, later, es, rfl, hheard, hintake, hlater⟩ := play_reads h hc acts hacts hsplit
  have hended := hheard.event (e := .far .hangUp) rfl
  have hheard' := hended.hear later
  have hlong : ∀ b ∈ later, b.length ≤ Frame.maxLength :=
    fun b hb => h b (List.mem_append_right _ hb)
  obtain ⟨hread, hstays⟩ := read_ended hlong ((c.play acts).step (.far .hangUp))
    (congrArg (·.2.2) hintake) rfl (hlater.trans (List.append_nil _))
  refine ⟨_, _, hheard', hstays, ?_⟩
  rw [← hread, List.append_cons, play_concat, play_concat]
  rfl

/-- What the frames of some bodies come to on a stream: a reader of frames takes the bodies, and that
of a connection, whatever else happens meanwhile, takes in their messages. -/
structure InSync (bodies : List (List UInt8)) : Prop where
  taken : Frame.frames true (Frame.stream bodies) = (bodies, .fault .closed [])
  waited : Frame.frames false (Frame.stream bodies) = (bodies, .wanting)
  arriving : ∀ c acts q, c.intake = ([], false, false) → (∀ a ∈ acts, Act.Admissible a) →
    Frame.stream bodies = arrived acts ++ q →
    ∃ now later es, bodies = now ++ later ∧ Heard c (c.play acts) acts now es ∧
      (c.play acts).closed = false
  heard : ∀ c acts, c.intake = ([], false, false) → (∀ a ∈ acts, Act.Admissible a) →
    arrived acts = Frame.stream bodies →
    ∃ es, Heard c (c.play (acts ++ [.read])) (acts ++ [.read]) bodies es ∧
      (c.play (acts ++ [.read])).closed = false
  ended : ∀ c acts, c.intake = ([], false, false) → (∀ a ∈ acts, Act.Admissible a) →
    arrived acts = Frame.stream bodies →
    ∃ d es, Heard c d (acts ++ [.event (.far .hangUp)]) bodies es ∧ d.closed = false ∧
      c.play (acts ++ [.event (.far .hangUp), .read]) = d.run [.exit, .far (.consume [])]

theorem stream_in_sync (bodies : List (List UInt8)) (h : ∀ b ∈ bodies, b.length ≤ Frame.maxLength) :
    InSync bodies ∧ FrameFault.closed.kind = .unexpectedEof ∧
      ∀ texts : List String, texts.map Utf8.bytes = bodies →
        Frame.frames true (texts.flatMap Frame.encode) = (bodies, .fault .closed []) := by
  have htaken := Frame.frames_stream true h
  refine ⟨?_, rfl, ?_⟩
  · exact {
      taken := htaken
      waited := Frame.frames_stream false h
      arriving := by
        intro c acts q hc hacts hsplit
        obtain ⟨now, later, es, hbodies, hheard, hintake, -⟩ := play_reads h hc acts hacts hsplit
        exact ⟨now, later, es, hbodies, hheard, congrArg (·.2.2) hintake⟩
      heard := by
        intro c acts hc hacts hall
        obtain ⟨es, hheard, hintake⟩ := play_hears h hc acts hacts hall
        exact ⟨es, hheard, congrArg (·.2.2) hintake⟩
      ended := fun c acts hc hacts hall => play_ends h hc acts hacts hall }
  · intro texts htexts
    have hstream : texts.flatMap Frame.encode = Frame.stream bodies := by
      rw [Frame.stream, ← htexts, List.flatMap_map]
      rfl
    rw [hstream]
    exact htaken

theorem stream_in_sync_odd :
    InSync [Utf8.bytes "Content-Length: 3\r\n\r\n", [255, 10], []] :=
  (stream_in_sync [Utf8.bytes "Content-Length: 3\r\n\r\n", [255, 10], []] (by decide)).1

end Connection

end LanguageSessions
