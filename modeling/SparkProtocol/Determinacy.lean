import SparkProtocol.EarlyBytes
import SparkProtocol.FramePulls
import SparkProtocol.Meetings
import SparkProtocol.SessionTurns
import SparkProtocol.Transducers

/-!
# A session is a function of its input

Left to itself, a session with its services is a machine that is given bytes. How
the network cuts them, when the microtasks run and when the services answer cannot
be seen in what the session does: what it has done when nothing is left to do
depends on the bytes alone, and what it has done before is the beginning of that. Of
the state in which it then is, only the idle timer may depend on more: a chunk arms it,
on a session that has closed too.
-/
namespace SparkProtocol.Sessions
open ByteStrings HostValues StreamPrograms Program Crypto Chunking Coap Messages Handshake
  ByteQueues OrderedMaps FramedStreams LabelledRuns Transducers Session

/-- The event by which `run()` goes on. -/
def turn (svc : (c : Call) → Answer c) (s : Session) : Event :=
  match s.control with
  | .loop => .loop
  | .handshake (.call _ _) => .answer svc
  | _ => .resume

/-- A session whose services answer by `svc` and which nobody else touches. -/
def undisturbed (cfg : Config) (svc : (c : Call) → Answer c) : Transducer Session UInt8 where
  advance s := step cfg s (turn svc s)
  feed := onData

/-- The session has closed, and `run()` returns or has returned. -/
structure Shut (s : Session) : Prop where
  phase : s.phase = .closed
  control : s.control = .loop ∨ s.control = .finished
  settled : s.settled = none
  waiters : s.queue.waiters = []

/-- The states of an undisturbed session that has been started. -/
inductive Tidy (s : Session) : Prop
  | waits {n : ℕ} {k : Except JsError Bytes → Exchange HandshakeResult} {input : Bytes} :
      s.control = .handshake (.read n k) → s.phase ≠ .closed → Reads s n input → Tidy s
  | calls {c : Call} {k : Answer c → Exchange HandshakeResult} {input : Bytes} :
      s.control = .handshake (.call c k) → s.phase ≠ .closed → Unreading s input → Tidy s
  | boundary {input : Bytes} : s.phase = .connected → AtBoundary s input → Tidy s
  | body {n : ℕ} {input : Bytes} : s.phase = .connected → s.control = .reading (readBytes n) →
      Reads s n input → Tidy s
  | shut : Shut s → Tidy s

section Tidy
variable {cfg : Config} {svc : (c : Call) → Answer c} {s t : Session} {input : Bytes}

theorem ahead_self (hs : s.settled = none) (hw : s.queue.waiters = []) : Ahead [] s s :=
  ⟨hs,hw,s.idleTimer,by simp [supply]⟩

theorem Unreading.waiters (h : Unreading s input) : s.queue.waiters = [] := by
  rw [h.queue]

theorem Unreading.open' (h : Unreading s input) : s.queue.closed = false := by
  rw [h.queue]

theorem caught_shut (h : Unreading s input) (err : JsError) : Shut (s.caught err) := by
  have hend := caught_ends s err
  have ha := (ahead_self h.settled h.waiters).caught err
  exact ⟨hend.phase,.inr hend.control,ha.settled,ha.waiters⟩

theorem continueHandshake_tidy (h : Unreading s input) (hp : s.phase ≠ .closed)
    (p : Exchange HandshakeResult) : Tidy (s.continueHandshake p) := by
  have hafter := unreading_effects h p.burst.1
  have hphase := (silent_effects s p.burst.1).phase
  have hsettles := burst_settles p
  unfold continueHandshake
  dsimp only
  generalize p.burst.1.foldl perform s = u at hafter hphase
  generalize p.burst.2 = q at hsettles
  rw [← hphase] at hp
  cases q with
  | done r => exact .boundary rfl (.inl ⟨rfl,hafter.congr rfl rfl⟩)
  | fail e => exact .shut (caught_shut hafter e)
  | note x k => simp [Waits,outcome] at hsettles
  | write b k => simp [Waits,outcome] at hsettles
  | read n k => exact .waits rfl hp ((hafter.read n).congr rfl rfl)
  | call c k => exact .calls rfl hp (hafter.congr rfl rfl)

/-- After a frame the session is closed, or nothing has happened to the queue. -/
theorem handleFrame_ends (h : Unreading s input) (hp : s.phase = .connected) (node : Primitives)
    (ct : Bytes) :
    (s.handleFrame node ct).1.phase = .closed ∧ (s.handleFrame node ct).2 = .ok () ∨
      (s.handleFrame node ct).1.phase = .connected ∧ Unreading (s.handleFrame node ct).1 input := by
  have hh := handleFrame_handles node s ct
  generalize s.handleFrame node ct = r at hh ⊢
  cases hh with
  | undecryptable _ => exact .inl ⟨disconnect_phase _,rfl⟩
  | unparsable _ _ => exact .inr ⟨hp,h.congr rfl rfl⟩
  | @ping plain msg _ _ _ =>
      obtain ⟨iv,l,-,he⟩ := sendPlain_shape node (decoded s ct msg) (ackBytes msg)
      rw [he]
      exact .inr ⟨hp,h.congr rfl rfl⟩
  | @other plain msg _ _ _ =>
      obtain ⟨pending,timers,o,he,-⟩ := correlate_shape (decoded s ct msg) msg
      dsimp only
      rw [he]
      exact .inr ⟨hp,h.congr rfl rfl⟩

/-- And the coroutine is between two turns, or it has ended. -/
theorem endTurn_ends (h : Unreading s input) (hp : s.phase = .connected) (node : Primitives)
    (ct : Bytes) :
    ((endTurn (s.handleFrame node ct)).control = .loop ∧
      (endTurn (s.handleFrame node ct)).phase = .connected ∧
      Unreading (endTurn (s.handleFrame node ct)) input) ∨
    Shut (endTurn (s.handleFrame node ct)) := by
  have hends := handleFrame_ends h hp node ct
  have ha := (ahead_self h.settled h.waiters).handleFrame node ct
  generalize s.handleFrame node ct = r at hends ha
  obtain ⟨u,r⟩ := r
  cases r with
  | ok _ =>
      rcases hends with ⟨hc,-⟩ | ⟨hc,hun⟩
      · exact .inr ⟨hc,.inl rfl,ha.1.settled,ha.1.waiters⟩
      · exact .inl ⟨rfl,hc,hun.congr rfl rfl⟩
  | error err =>
      rcases hends with ⟨-,herr⟩ | ⟨-,hun⟩
      · cases herr
      · exact .inr (caught_shut hun err)

theorem endTurn_tidy (h : Unreading s input) (hp : s.phase = .connected) (node : Primitives)
    (ct : Bytes) : Tidy (endTurn (s.handleFrame node ct)) := by
  rcases endTurn_ends h hp node ct with ⟨hc,hphase,hun⟩ | hshut
  · exact .boundary hphase (.inl ⟨hc,hun⟩)
  · exact .shut hshut

/-- Bytes keep the order, whether they serve a read or not. -/
theorem onData_tidy (h : Tidy s) (c : Bytes) : Tidy (s.onData c) := by
  cases h with
  | waits hc hp hr => exact .waits hc hp (hr.data c)
  | calls hc hp hun => exact .calls hc hp (hun.data c)
  | boundary hp hb =>
      rcases hb with ⟨hc,hun⟩ | ⟨hc,hr⟩
      · exact .boundary hp (.inl ⟨hc,hun.data c⟩)
      · exact .boundary hp (.inr ⟨hc,hr.data c⟩)
  | body hp hc hr => exact .body hp hc (hr.data c)
  | shut h =>
      rw [onData_eq h.waiters]
      exact .shut ⟨h.phase,h.control,h.settled,h.waiters⟩

/-- What the next turn does, and what it does it to. -/
inductive Goes (cfg : Config) (svc : (c : Call) → Answer c) (s : Session) : (Session → Session) → Prop
  | proceeds {n : ℕ} {k : Except JsError Bytes → Exchange HandshakeResult} {b : Bytes}
      {input : Bytes} : s.control = .handshake (.read n k) → s.settled = some (.ok b) →
      s.phase ≠ .closed → Unreading s.taken input →
      Goes cfg svc s fun u => u.taken.continueHandshake (k (.ok b))
  | answered {c : Call} {k : Answer c → Exchange HandshakeResult} {input : Bytes} :
      s.control = .handshake (.call c k) → s.phase ≠ .closed → Unreading s input →
      Goes cfg svc s fun u => u.continueHandshake (k (svc c))
  | tests {input : Bytes} : s.control = .loop → s.phase = .connected → Unreading s input →
      Goes cfg svc s fun u => u.continueReading cfg.node readFrame
  | returns : s.control = .loop → Shut s → Goes cfg svc s fun u => { u with control := .finished }
  | header {n : ℕ} {head input : Bytes} : s.control = .reading readFrame →
      s.settled = some (.ok head) → readUInt16BE head 0 = .ok n → s.phase = .connected →
      Unreading s.taken input →
      Goes cfg svc s fun u => u.taken.continueReading cfg.node (readBytes n)
  | frame {n : ℕ} {ct input : Bytes} : s.control = .reading (readBytes n) →
      s.settled = some (.ok ct) → s.phase = .connected → Unreading s.taken input →
      Goes cfg svc s fun u => endTurn (u.taken.handleFrame cfg.node ct)

/-- A session with the same control and the same settled read goes on in the same way. -/
theorem Goes.advance {f : Session → Session} (h : Goes cfg svc s f) {u : Session}
    (hc : u.control = s.control) (hs : u.settled = s.settled) (hp : u.phase = s.phase) :
    (undisturbed cfg svc).advance u = some (f u) := by
  cases h with
  | proceeds h1 h2 _ _ => simp [undisturbed,turn,step,hc,h1,hs,h2]
  | answered h1 _ _ => simp [undisturbed,turn,step,hc,h1]
  | tests h1 h2 _ => simp [undisturbed,turn,step,hc,h1,loopTest,hp,h2]
  | returns h1 h2 => simp [undisturbed,turn,step,hc,h1,loopTest,hp,h2.phase]
  | header h1 h2 h3 _ _ => simp [undisturbed,turn,step,hc,h1,hs,h2,readFrame_eq,h3]
  | frame h1 h2 _ _ => simp [undisturbed,turn,step,hc,h1,hs,h2,readBytes_eq,continueReading]

/-- A turn of a tidy session. -/
theorem advance_goes (h : Tidy s) (ht : (undisturbed cfg svc).advance s = some t) :
    ∃ f, Goes cfg svc s f ∧ t = f s := by
  have hgoes : ∀ f, Goes cfg svc s f → ∃ f, Goes cfg svc s f ∧ t = f s := fun f hf =>
    ⟨f,hf,Option.some.inj (ht.symm.trans (hf.advance rfl rfl rfl))⟩
  have hreads : ∀ {n input}, Reads s n input → s.settled ≠ none →
      n ≤ input.length ∧ s.settled = some (.ok (input.take n)) ∧ Unreading s.taken (input.drop n) := by
    intro n input hr hs
    obtain ⟨r,hr'⟩ := Option.ne_none_iff_exists'.mp hs
    obtain ⟨hle,rfl,hun⟩ := hr.take hr'
    exact ⟨hle,hr',hun⟩
  have hsome : turn svc s = .resume → s.settled ≠ none := by
    intro hturn hs
    simp [undisturbed,hturn,step,hs] at ht
  cases h with
  | waits hc hp hr =>
      obtain ⟨-,hs,hun⟩ := hreads hr (hsome (by simp [turn,hc]))
      exact hgoes _ (.proceeds hc hs hp hun)
  | calls hc hp hun => exact hgoes _ (.answered hc hp hun)
  | @boundary input hp hb =>
      rcases hb with ⟨hc,hun⟩ | ⟨hc,hr⟩
      · exact hgoes _ (.tests hc hp hun)
      · obtain ⟨hle,hs,hun⟩ := hreads hr (hsome (by simp [turn,hc]))
        obtain ⟨n,-,hn⟩ := readUInt16BE_threeBytes (List.length_take_of_le hle)
        exact hgoes _ (.header hc hs hn hp hun)
  | body hp hc hr =>
      obtain ⟨-,hs,hun⟩ := hreads hr (hsome (by simp [turn,hc]))
      exact hgoes _ (.frame hc hs hp hun)
  | shut h =>
      rcases h.control with hc | hc
      · exact hgoes _ (.returns hc h)
      · simp [undisturbed,turn,step,hc] at ht

theorem Goes.tidy {f : Session → Session} (h : Goes cfg svc s f) : Tidy (f s) := by
  cases h with
  | proceeds _ _ hp hun => exact continueHandshake_tidy hun hp _
  | answered _ hp hun => exact continueHandshake_tidy hun hp _
  | tests _ hp hun => exact .boundary hp (.inr ⟨rfl,(hun.read 3).congr rfl rfl⟩)
  | returns _ h => exact .shut ⟨h.phase,.inr rfl,h.settled,h.waiters⟩
  | @header n _ _ _ _ _ hp hun => exact .body hp rfl ((hun.read n).congr rfl rfl)
  | frame _ _ hp hun => exact endTurn_tidy hun hp _ _

theorem undisturbed_keeps (s : Session) (e : Stimulus UInt8) (t : Session) (h : Tidy s)
    (ht : (undisturbed cfg svc).step s e = some t) : Tidy t := by
  cases e with
  | advance =>
      obtain ⟨f,hf,rfl⟩ := advance_goes h ht
      exact hf.tidy
  | feed c =>
      obtain rfl := Option.some.inj ht
      exact onData_tidy h c

theorem look_eq {u : Session} (h : look u = look t) : u = { t with idleTimer := u.idleTimer } := by
  have hc := congrArg (fun v => ({ v with idleTimer := u.idleTimer } : Session)) h
  exact hc

/-- What the timer was does not matter to a chunk. -/
theorem onData_look {u : Session} (h : look u = look t) (c : Bytes) : u.onData c = t.onData c := by
  rw [look_eq h]
  rfl

theorem Goes.waiters {f : Session → Session} (h : Goes cfg svc s f) : s.queue.waiters = [] := by
  cases h with
  | proceeds _ _ _ hun => exact hun.waiters
  | answered _ _ hun => exact hun.waiters
  | tests _ _ hun => exact hun.waiters
  | returns _ h => exact h.waiters
  | header _ _ _ _ hun => exact hun.waiters
  | frame _ _ _ hun => exact hun.waiters

/-- A turn that is due before more bytes come is due after they have come, and does the same. -/
theorem Goes.early {f : Session → Session} (h : Goes cfg svc s f) {u : Session} {c : Bytes}
    (hu : look u = look (s.onData c)) :
    (undisturbed cfg svc).advance u = some (f u) ∧ look (f u) = look ((f s).onData c) := by
  have hw := h.waiters
  rw [onData_eq hw] at hu
  obtain ⟨armed,rfl⟩ : ∃ armed, u = supply c armed s := ⟨_,look_eq hu⟩
  refine ⟨h.advance rfl rfl rfl,?_⟩
  have htaken : ∀ {armed}, Ahead c s.taken (supply c armed s).taken := ⟨rfl,hw,_,rfl⟩
  have hsame : ∀ {armed}, s.settled = none → Ahead c s (supply c armed s) := fun hs => ⟨hs,hw,_,rfl⟩
  cases h with
  | proceeds _ _ _ hun => exact htaken.continueHandshake hun.open' _
  | answered _ _ hun => exact (hsame hun.settled).continueHandshake hun.open' _
  | tests _ _ hun => exact (hsame hun.settled).continueReading hun.open' _ _
  | returns _ h =>
      exact ((hsame h.settled).map (fun s => { s with control := .finished }) (fun _ => rfl)
        h.settled rfl).look
  | header _ _ _ _ hun => exact htaken.continueReading hun.open' _ _
  | frame _ _ _ _ => exact (Ahead.endTurn (htaken.handleFrame _ _)).look

/-- A read waits for more than there is, or none waits. -/
theorem Reads.buffer {n : ℕ} (h : Reads s n input) : s.queue.waiters = [] ∨
    ∃ n buf, s.queue = ⟨buf,[⟨(),n⟩],false⟩ ∧ ¬ n ≤ buf.length := by
  cases h with
  | waiting _ hq hl => exact .inr ⟨n,input,hq,by omega⟩
  | served _ _ hq => exact .inl (by rw [hq])

theorem Tidy.buffer (h : Tidy s) : s.queue.waiters = [] ∨
    ∃ n buf, s.queue = ⟨buf,[⟨(),n⟩],false⟩ ∧ ¬ n ≤ buf.length := by
  cases h with
  | waits _ _ hr => exact hr.buffer
  | calls _ _ hun => exact .inl hun.waiters
  | boundary _ hb =>
      rcases hb with ⟨-,hun⟩ | ⟨-,hr⟩
      · exact .inl hun.waiters
      · exact hr.buffer
  | body _ _ hr => exact hr.buffer
  | shut h => exact .inl h.waiters

/-- A chunk of no bytes is none. -/
theorem look_onData_nil (h : Tidy s) : look (s.onData []) = look s := by
  rcases h.buffer with hw | ⟨n,buf,hq,hn⟩
  · rw [onData_eq hw,supply,List.append_nil]
    rfl
  · rw [onData_waiting hq,List.append_nil,withQueue_waiting hn,← hq]
    rfl

/-- A chunk cut in two is the chunk. -/
theorem look_onData_append (h : Tidy s) (c c' : Bytes) :
    look ((s.onData c).onData c') = look (s.onData (c++c')) := by
  rcases h.buffer with hw | ⟨n,buf,hq,-⟩
  · rw [onData_eq hw,onData_eq hw,onData_eq (s := supply c true s) hw,supply,supply,supply,
      List.append_assoc]
  · rw [onData_waiting hq,onData_waiting hq,← List.append_assoc]
    by_cases hn : n ≤ (buf++c).length
    · have hn' : n ≤ (buf++c++c').length := by
        rw [List.length_append]
        omega
      rw [withQueue_served hn,withQueue_served hn',onData_eq rfl,List.take_append_of_le_length hn,
        List.drop_append_of_le_length hn]
      rfl
    · rw [withQueue_waiting hn,onData_waiting rfl]
      rfl

theorem undisturbed_lawful (cfg : Config) (svc : (c : Call) → Answer c) :
    Lawful (undisturbed cfg svc) Tidy look where
  keeps := undisturbed_keeps
  feed_nil _ h := look_onData_nil h
  feed_append _ c c' h := look_onData_append h c c'
  feed_view _ _ c _ _ h := congrArg look (onData_look h c)
  early s u c t hs _ hu ht := by
    obtain ⟨f,hf,rfl⟩ := advance_goes hs ht
    obtain ⟨hadv,hlook⟩ := hf.early hu
    exact ⟨f u,hadv,hlook⟩

theorem rests_shut (h : Shut s) : Rests (undisturbed cfg svc) s := by
  have hend : ∀ {u : Session}, u.control = .finished → Rests (undisturbed cfg svc) u := fun hu =>
    .rest (by simp [undisturbed,turn,step,hu])
  rcases h.control with hc | hc
  · exact .move ((Goes.returns hc h).advance rfl rfl rfl) (hend rfl)
  · exact hend hc

/-- A session that waits for bytes rests, or its next turn follows. -/
theorem rests_reads {n : ℕ} (hturn : turn svc s = .resume) (hr : Reads s n input)
    (next : n ≤ input.length → s.settled = some (.ok (input.take n)) →
      Unreading s.taken (input.drop n) →
      ∃ f, Goes cfg svc s f ∧ Rests (undisturbed cfg svc) (f s)) : Rests (undisturbed cfg svc) s := by
  cases hs : s.settled with
  | none => exact .rest (by simp [undisturbed,hturn,step,hs])
  | some r =>
      obtain ⟨hle,rfl,hun⟩ := hr.take hs
      obtain ⟨f,hf,hrest⟩ := next hle hs hun
      exact .move (hf.advance rfl rfl rfl) hrest

/-- In the middle of a frame, as long as the next turn comes to rest. -/
theorem rests_body {n : ℕ} (hp : s.phase = .connected) (hc : s.control = .reading (readBytes n))
    (hr : Reads s n input) (next : ∀ u, u.phase = .connected → u.control = .loop →
      Unreading u (input.drop n) → Rests (undisturbed cfg svc) u) : Rests (undisturbed cfg svc) s := by
  have hturn : turn svc s = .resume := by simp [turn,hc]
  refine rests_reads hturn hr fun _ hs hun => ⟨_,.frame hc hs hp hun,?_⟩
  rcases endTurn_ends hun hp cfg.node _ with ⟨hloop,hphase,hnext⟩ | hshut
  · exact next _ hphase hloop hnext
  · exact rests_shut hshut

theorem rests_header (hp : s.phase = .connected) (hc : s.control = .reading readFrame)
    (hr : Reads s 3 input) (next : ∀ u input', input'.length < input.length → u.phase = .connected →
      u.control = .loop → Unreading u input' → Rests (undisturbed cfg svc) u) :
    Rests (undisturbed cfg svc) s := by
  have hturn : turn svc s = .resume := by simp [turn,hc]
  refine rests_reads hturn hr fun hle hs hun => ?_
  obtain ⟨n,-,hn⟩ := readUInt16BE_threeBytes (List.length_take_of_le hle)
  refine ⟨_,.header hc hs hn hp hun,rests_body hp rfl ((hun.read n).congr rfl rfl) ?_⟩
  exact fun u => next u _ (by simp only [List.length_drop]; omega)

/-- In the message loop every frame shortens what is unread. -/
theorem rests_loop (n : ℕ) (hn : input.length = n) (hp : s.phase = .connected)
    (hc : s.control = .loop) (h : Unreading s input) : Rests (undisturbed cfg svc) s := by
  induction n using Nat.strong_induction_on generalizing s input with
  | h n ih =>
      refine .move ((Goes.tests hc hp h).advance rfl rfl rfl) ?_
      refine rests_header hp rfl ((h.read 3).congr rfl rfl) fun u input' hlt hp' hc' hun => ?_
      exact ih _ (hn ▸ hlt) rfl hp' hc' hun

/-- The handshake is one program: its turns come to an end as the program does. -/
theorem rests_handshake (p : Exchange HandshakeResult) (h : Unreading s input) (hp : s.phase ≠ .closed) :
    Rests (undisturbed cfg svc) (s.continueHandshake p) := by
  induction p generalizing s input with
  | done r => exact rests_loop _ rfl rfl rfl (h.congr rfl rfl)
  | fail e => exact rests_shut (caught_shut h e)
  | note x k ih => exact ih (s := s.perform (.note x)) (h.congr rfl rfl) hp
  | write b k ih => exact ih (s := s.perform (.write b)) (h.congr rfl rfl) hp
  | read n k ih =>
      have hr : Reads (s.continueHandshake (.read n k)) n input := (h.read n).congr rfl rfl
      exact rests_reads rfl hr fun _ hs hun => ⟨_,.proceeds rfl hs hp hun,ih _ hun hp⟩
  | call c k ih =>
      have hun : Unreading (s.continueHandshake (.call c k)) input := h.congr rfl rfl
      have hgo : Goes cfg svc (s.continueHandshake (.call c k)) _ := .answered rfl hp hun
      exact .move (hgo.advance rfl rfl rfl) (ih _ hun hp)

theorem tidy_rests (h : Tidy s) : Rests (undisturbed cfg svc) s := by
  cases h with
  | waits hc hp hr =>
      have hturn : turn svc s = .resume := by simp [turn,hc]
      exact rests_reads hturn hr fun _ hs hun => ⟨_,.proceeds hc hs hp hun,rests_handshake _ hun hp⟩
  | calls hc hp hun =>
      have hgo : Goes cfg svc s _ := .answered hc hp hun
      exact .move (hgo.advance rfl rfl rfl) (rests_handshake _ hun hp)
  | boundary hp hb =>
      rcases hb with ⟨hc,hun⟩ | ⟨hc,hr⟩
      · exact rests_loop _ rfl hp hc hun
      · exact rests_header hp hc hr fun u input' _ hp' hc' hun => rests_loop _ rfl hp' hc' hun
  | body hp hc hr =>
      exact rests_body hp hc hr fun u hp' hc' hun => rests_loop _ rfl hp' hc' hun
  | shut h => exact rests_shut h

end Tidy

/-- The events of a session that is left alone with its services. -/
inductive Unattended (svc : (c : Call) → Answer c) : Event → Prop
  | data (chunk : Bytes) : Unattended svc (.data chunk)
  | resume : Unattended svc .resume
  | loop : Unattended svc .loop
  | answer : Unattended svc (.answer svc)

/-- All the bytes of a run. -/
def arrivals : List Event → Bytes
  | [] => []
  | .data chunk::es => chunk++arrivals es
  | _::es => arrivals es

/-- `run()` waits for bytes, or it has returned. -/
structure AtRest (cfg : Config) (svc : (c : Call) → Answer c) (s : Session) : Prop where
  resume : step cfg s .resume = none
  loop : step cfg s .loop = none
  answer : step cfg s (.answer svc) = none

section Function
variable {cfg : Config} {svc : (c : Call) → Answer c} {s t : Session} {es : List Event}

theorem atRest_iff : AtRest cfg svc s ↔ (undisturbed cfg svc).advance s = none := by
  constructor
  · intro h
    simp only [undisturbed,turn]
    split
    · exact h.loop
    · exact h.answer
    · exact h.resume
  · intro h
    simp only [undisturbed,turn] at h
    split at h
    · next hc => simp [step,hc] at h
    · next hc => simp [step,hc] at h
    · next hl hcall =>
        refine ⟨h,?_,?_⟩
        · dsimp only [step]
          split
          · next hc => exact absurd hc hl
          · rfl
        · dsimp only [step]
          split
          · next hc => exact absurd hc (hcall _ _)
          · rfl

/-- The only turn that can be taken is the one that is due. -/
theorem turn_taken {e : Event} (he : Unattended svc e) (ht : step cfg s e = some t) :
    ∃ c : Stimulus UInt8, (undisturbed cfg svc).step s c = some t ∧ supplied [c] = arrivals [e] := by
  have hadv : turn svc s = e → (undisturbed cfg svc).step s .advance = some t := by
    rintro rfl
    exact ht
  cases he with
  | data chunk => exact ⟨.feed chunk,ht,rfl⟩
  | resume =>
      refine ⟨.advance,hadv ?_,rfl⟩
      cases step_cases ht with
      | proceeds hc _ => simp [turn,hc]
      | reads hc _ => simp [turn,hc]
  | loop =>
      refine ⟨.advance,hadv ?_,rfl⟩
      cases step_cases ht with
      | loop hc => simp [turn,hc]
  | answer =>
      refine ⟨.advance,hadv ?_,rfl⟩
      cases step_cases ht with
      | answer _ hc => simp [turn,hc]

theorem arrivals_cons (e : Event) (es : List Event) : arrivals (e::es) = arrivals [e]++arrivals es := by
  cases e <;> simp [arrivals]

/-- A run of the session is a run of the machine on its bytes. -/
theorem unattended_run (hes : ∀ e ∈ es, Unattended svc e) (h : Run (step cfg) s es t) :
    ∃ cs, Run (undisturbed cfg svc).step s cs t ∧ supplied cs = arrivals es := by
  induction h with
  | nil s => exact ⟨[],.nil s,rfl⟩
  | @cons s u t e es hstep _ ih =>
      obtain ⟨cs,hcs,hsup⟩ := ih fun e he => hes e (List.mem_cons_of_mem _ he)
      obtain ⟨c,hc,hsup'⟩ := turn_taken (hes e List.mem_cons_self) hstep
      refine ⟨c::cs,.cons hc hcs,?_⟩
      rw [arrivals_cons,← hsup',← hsup,← List.singleton_append,supplied_append]

/-- `run()` has been called on a new session. -/
def started (cfg : Config) : Session := ({} : Session).run cfg

theorem started_tidy (cfg : Config) : Tidy (started cfg) := by
  have hun : Unreading { ({} : Session).resetIdleTimer with progress := {}, phase := .handshaking }
      [] := ⟨rfl,rfl⟩
  exact continueHandshake_tidy hun (fun h => by cases h)
    (runHandshake cfg.node cfg.serverPrivKeyPem cfg.draws)

theorem run_started {u : Session} (h : Run (step cfg) {} (.run::es) u) :
    Run (step cfg) (started cfg) es u := by
  cases h with
  | cons hstep h =>
      obtain ⟨-,rfl⟩ := run_some.mp hstep
      exact h

theorem undisturbed_adds (e : Stimulus UInt8) (h : (undisturbed cfg svc).step s e = some t) :
    (look s).trace <+: (look t).trace := by
  cases e with
  | advance =>
      have hstep : Sessions.step cfg s (turn svc s) = some t := h
      have hadds : Adds s t := step_adds hstep
      exact hadds
  | feed c =>
      obtain rfl := Option.some.inj h
      exact List.prefix_refl _

/-- The turns that are due end in a state of rest. -/
theorem comes_to_rest (h : Tidy s) : ∃ turns t, (∀ e ∈ turns, Unattended svc e) ∧
    arrivals turns = [] ∧ Run (step cfg) s turns t ∧ AtRest cfg svc t := by
  have hrest : Rests (undisturbed cfg svc) s := tidy_rests h
  induction hrest with
  | rest hr => exact ⟨[],_,by simp,rfl,.nil _,atRest_iff.mpr hr⟩
  | @move s u hmove _ ih =>
      obtain ⟨turns,t,hturns,harr,hrun,hr⟩ := ih (undisturbed_keeps s .advance u h hmove)
      have hturn : Unattended svc (turn svc s) ∧ arrivals [turn svc s] = [] := by
        unfold turn
        split
        · exact ⟨.loop,rfl⟩
        · exact ⟨.answer,rfl⟩
        · exact ⟨.resume,rfl⟩
      refine ⟨turn svc s::turns,t,?_,?_,.cons hmove hrun,hr⟩
      · simpa using ⟨hturn.1,hturns⟩
      · rw [arrivals_cons,hturn.2,harr]
        rfl

theorem unattended_tidy (hes : ∀ e ∈ es, Unattended svc e) (h : Run (step cfg) {} (.run::es) s) :
    Tidy s := by
  obtain ⟨cs,hcs,-⟩ := unattended_run hes (run_started h)
  exact (undisturbed_lawful cfg svc).run_keeps (started_tidy cfg) hcs

/-- What a session does on these bytes in the end, and on the way there. -/
theorem outcome_of_bytes (cfg : Config) (svc : (c : Call) → Answer c) :
    ∃ outcome : Bytes → Session, ∀ es s, (∀ e ∈ es, Unattended svc e) →
      Run (step cfg) {} (.run::es) s → (AtRest cfg svc s → look s = outcome (arrivals es)) ∧
        ∀ more, s.trace <+: (outcome (arrivals es++more)).trace := by
  have hlaw := undisturbed_lawful cfg svc
  have hstart := started_tidy cfg
  have hexists : ∀ b, ∃ t, AtRest cfg svc t ∧
      ∃ cs, Run (undisturbed cfg svc).step (started cfg) cs t ∧ supplied cs = b := by
    intro b
    have hrests : Rests (undisturbed cfg svc) ((started cfg).onData b) :=
      tidy_rests (onData_tidy hstart b)
    obtain ⟨n,t,ht,hrest⟩ := hrests.advances
    have hfeed : (undisturbed cfg svc).step (started cfg) (.feed b) =
        some ((started cfg).onData b) := rfl
    refine ⟨t,atRest_iff.mpr hrest,_,.cons hfeed ht.run,?_⟩
    rw [supplied,supplied_replicate,List.append_nil]
  choose rest hrest cs hcs hsup using hexists
  refine ⟨fun b => look (rest b),fun es s hes hrun => ?_⟩
  obtain ⟨cs',hcs',hsup'⟩ := unattended_run hes (run_started hrun)
  refine ⟨fun hs => ?_,fun more => ?_⟩
  · exact hlaw.determinate hstart hcs' (hcs _) (hsup'.trans (hsup _).symm) (atRest_iff.mp hs)
      (atRest_iff.mp (hrest _))
  · exact hlaw.log_prefix Session.trace (fun _ e _ _ h => undisturbed_adds e h) hstart hcs'
      (hcs _) ⟨more,by rw [hsup',hsup]⟩ (atRest_iff.mp (hrest _))

/-- A session which is left alone computes a function of the bytes that come, however
they are cut and whenever its turns and its services get round to it: at rest it is what
the function gives, but for its idle timer, it comes to rest by its own turns, and all that
it does on the way is the beginning of what it does on these bytes and on any that follow
them. -/
theorem session_function (cfg : Config) (svc : (c : Call) → Answer c) :
    ∃ outcome : Bytes → Session, ∀ es s, (∀ e ∈ es, Unattended svc e) →
      Run (step cfg) {} (.run::es) s →
        (AtRest cfg svc s → look s = outcome (arrivals es)) ∧
        (∃ turns t, (∀ e ∈ turns, Unattended svc e) ∧ arrivals turns = [] ∧
          Run (step cfg) s turns t ∧ AtRest cfg svc t) ∧
        ∀ more, s.trace <+: (outcome (arrivals es++more)).trace := by
  obtain ⟨outcome,houtcome⟩ := outcome_of_bytes cfg svc
  refine ⟨outcome,fun es s hes hrun => ?_⟩
  obtain ⟨hrests,hbegins⟩ := houtcome es s hes hrun
  exact ⟨hrests,comes_to_rest (unattended_tidy hes hrun),hbegins⟩

end Function

/-- The all-zero device in one piece, and cut inside its first message and on both sides of
the length of its second. -/
def wholeEvents : List Event :=
  [.data (List.replicate 256 0++[0,16,0xFF,0x50,2,0,1]++List.replicate 12 12),.resume,
    .answer plainAnswer,.answer plainAnswer,.answer plainAnswer,.answer plainAnswer,.resume,.resume,.loop]

def recutEvents : List Event :=
  [.data (List.replicate 100 0),.data (List.replicate 156 0++[0]),.resume,.answer plainAnswer,
    .answer plainAnswer,.data [16,0xFF,0x50],.answer plainAnswer,.answer plainAnswer,.resume,
    .data ([2,0,1]++List.replicate 12 12),.resume,.loop]

theorem session_function_recut : ∃ s t : Session, s.phase = .connected ∧
    Run (step plainConfig) {} (.run::wholeEvents) s ∧ AtRest plainConfig plainAnswer s ∧
    Run (step plainConfig) {} (.run::recutEvents) t ∧ AtRest plainConfig plainAnswer t ∧
    look s = look t := by
  have hwhole : (exec (step plainConfig) {} (.run::wholeEvents)).map (fun s =>
      (s.phase,((undisturbed plainConfig plainAnswer).advance s).isNone)) = some (.connected,true) := by
    decide +kernel
  have hrecut : (exec (step plainConfig) {} (.run::recutEvents)).map (fun s =>
      ((undisturbed plainConfig plainAnswer).advance s).isNone) = some true := by
    decide +kernel
  obtain ⟨s,hrun,hs⟩ := Run.of_observation _ hwhole
  obtain ⟨t,hrun',ht⟩ := Run.of_observation _ hrecut
  obtain ⟨hphase,hs⟩ := Prod.mk.inj hs
  have hrest : AtRest plainConfig plainAnswer s := atRest_iff.mpr (Option.isNone_iff_eq_none.mp hs)
  have hrest' : AtRest plainConfig plainAnswer t := atRest_iff.mpr (Option.isNone_iff_eq_none.mp ht)
  have hbytes : arrivals wholeEvents = arrivals recutEvents := by
    decide +kernel
  have hleft : ∀ e ∈ wholeEvents, Unattended plainAnswer e := by
    simp [-List.reduceReplicate,wholeEvents,Unattended.data,Unattended.resume,Unattended.loop,
      Unattended.answer]
  have hleft' : ∀ e ∈ recutEvents, Unattended plainAnswer e := by
    simp [-List.reduceReplicate,recutEvents,Unattended.data,Unattended.resume,Unattended.loop,
      Unattended.answer]
  obtain ⟨outcome,houtcome⟩ := session_function plainConfig plainAnswer
  have hsame := (houtcome _ s hleft hrun).1 hrest
  have hsame' := (houtcome _ t hleft' hrun').1 hrest'
  exact ⟨s,t,hphase,hrun,hrest,hrun',hrest',by rw [hsame,hsame',hbytes]⟩

end SparkProtocol.Sessions
