import SparkProtocol.HonestDevice
import SparkProtocol.SessionReads
import SparkProtocol.RollingVectors

/-!
# A session meets an honest device

The system is a session in its handshake, the program of a device, and the bytes
between them. Either stream is delivered in pieces of any size at any time, and
the services answer whenever they like. Under every schedule both sides finish
and agree. The proof follows the weave of the two histories: each step of the
system does the next items of one history, and while anything is left of them
some step is enabled.
-/
namespace SparkProtocol.Sessions
open ByteStrings HostValues StreamPrograms Program Crypto Chunking Coap Messages Handshake
  ByteQueues OrderedMaps FramedStreams StreamWeaving LabelledRuns Session

abbrev DeviceHistory := List (Item Empty Empty (fun _ => Empty) JsError)

structure Meeting where
  server : Session
  toServer : Bytes := []
  device : DeviceProgram DeviceResult
  /-- What has arrived at the device and has not been read there. -/
  buffered : Bytes := []
  toDevice : Bytes

/-- The events of the server's own code. -/
inductive ServerTurn where
  | resume | answer | loop

def ServerTurn.event (svc : Services) : ServerTurn → Event
  | .resume => .resume
  | .answer => .answer svc.answer
  | .loop => .loop

inductive MeetingEvent where
  | toServer (n : ℕ)
  | toDevice (n : ℕ)
  | server (turn : ServerTurn)
  | device

/-- The bytes of a burst. -/
def sent {N : Type} (l : List (Effect N)) : Bytes :=
  (written (l.map (Effect.item (C := Empty) (A := fun _ => Empty) (ε := JsError)))).flatten

/-- What a session has put on its socket between two states. -/
def newlyWritten (s t : Session) : Bytes := ((wire t.trace).drop (wire s.trace).length).flatten

def meetingStep (cfg : Config) (svc : Services) (m : Meeting) : MeetingEvent → Option Meeting
  | .toServer n =>
      if 0 < n ∧ n ≤ m.toServer.length then
        some { m with server := m.server.onData (m.toServer.take n), toServer := m.toServer.drop n }
      else none
  | .toDevice n =>
      if 0 < n ∧ n ≤ m.toDevice.length then
        some { m with buffered := m.buffered++m.toDevice.take n, toDevice := m.toDevice.drop n }
      else none
  | .server turn =>
      (step cfg m.server (turn.event svc)).map fun s =>
        { m with server := s, toDevice := m.toDevice++newlyWritten m.server s }
  | .device =>
      match m.device with
      | .read n k =>
          if n ≤ m.buffered.length then
            let p := (k (.ok (m.buffered.take n))).burst
            some { m with device := p.2, buffered := m.buffered.drop n, toServer := m.toServer++sent p.1 }
          else none
      | _ => none

/-- The session has been accepted and the device has connected. -/
def meet (cfg : Config) (svc : Services) (d : Device) : Meeting :=
  { server := ({} : Session).run cfg
    device := simulateDevice cfg.node svc.rsa d
    toDevice := newlyWritten {} (({} : Session).run cfg) }

/-- The session has taken over the result of its handshake. -/
structure Established (s : Session) (r : HandshakeResult) : Prop where
  resolved : .handshake r ∈ s.trace
  phase : s.phase = .connected
  coreId : s.coreId = some r.coreId
  sessionKey : s.sessionKey = r.sessionKey
  aesKey : s.aesKey = r.aesKey
  ivIn : s.ivIn = r.ivIn
  ivOut : s.ivOut = r.ivOut
  recvCounter : s.recvCounter = r.recvCounter
  sendCounter : s.sendCounter = r.sendCounter
  productId : s.productId = r.productId
  firmwareVersion : s.firmwareVersion = r.firmwareVersion

/-- The queue and the place in the loop are no part of it. -/
theorem Established.elsewhere {s : Session} {r : HandshakeResult} (h : Established s r)
    (q : ByteQueue Unit × List (Settlement Unit)) (c : Control) (on : Bool) :
    Established { s.withQueue q with control := c, idleTimer := on } r :=
  ⟨h.resolved,h.phase,h.coreId,h.sessionKey,h.aesKey,h.ivIn,h.ivOut,h.recvCounter,h.sendCounter,
    h.productId,h.firmwareVersion⟩

/-- The session still has this history before it, with this input unread. -/
inductive ServerAt (r : HandshakeResult) (s : Session) : Bytes → History → Prop
  | reading {n : ℕ} {k : Except JsError Bytes → Exchange HandshakeResult} {input : Bytes}
      {t : History} : s.control = .handshake (.read n k) → Reads s n input →
      Runs (.read n k) t (.done r) → ServerAt r s input t
  | calling {c : Call} {k : Answer c → Exchange HandshakeResult} {input : Bytes} {t : History} :
      s.control = .handshake (.call c k) → Unreading s input → Runs (.call c k) t (.done r) →
      ServerAt r s input t
  | finished {input : Bytes} : Established s r → AtBoundary s input → ServerAt r s input []

theorem wire_effects (s : Session) (l : List (Effect Note)) :
    wire (l.foldl perform s).trace =
      wire s.trace++written (l.map (Effect.item (C := Call) (A := Answer) (ε := JsError))) := by
  induction l generalizing s with
  | nil => simp [written]
  | cons x l ih =>
      cases x with
      | note x => exact ih _
      | write b =>
          rw [List.foldl_cons,ih]
          simp [perform,log,wire,Effect.item,written]

theorem unreading_effects {s : Session} {input : Bytes} (h : Unreading s input)
    (l : List (Effect Note)) : Unreading (l.foldl perform s) input := by
  induction l generalizing s with
  | nil => exact h
  | cons x l ih =>
      apply ih
      cases x with
      | note x => exact h.congr rfl rfl
      | write b => exact h.congr rfl rfl

/-- A burst of the handshake does the front of its history and writes its bytes. -/
theorem continueHandshake_at {r : HandshakeResult} {s : Session} {input : Bytes}
    {p : Exchange HandshakeResult} {t : History} (hs : Unreading s input)
    (h : Runs p t (.done r)) :
    ∃ u, t = p.burst.1.map Effect.item++u ∧ ServerAt r (s.continueHandshake p) input u ∧
      wire (s.continueHandshake p).trace = wire s.trace++
        written (p.burst.1.map (Effect.item (C := Call) (A := Answer) (ε := JsError))) := by
  obtain ⟨u,rfl,hu⟩ := h.after_burst
  have hun := unreading_effects hs p.burst.1
  have hw := wire_effects s p.burst.1
  have hq := burst_settles p
  refine ⟨u,rfl,?_⟩
  unfold continueHandshake
  dsimp only
  generalize p.burst.1.foldl perform s = s1 at hun hw ⊢
  generalize p.burst.2 = q at hu hq ⊢
  cases q with
  | done r' =>
      obtain ⟨rfl,hr⟩ := hu.ended rfl
      obtain rfl := Program.done.inj hr
      refine ⟨.finished ?_ (.inl ⟨rfl,hun.congr rfl rfl⟩),?_⟩
      · exact ⟨by simp [established,log],rfl,rfl,rfl,rfl,rfl,rfl,rfl,rfl,rfl,rfl⟩
      · rw [← hw]
        simp [established,log,wire]
  | fail e =>
      obtain ⟨-,hr⟩ := hu.ended rfl
      cases hr
  | read n k => exact ⟨.reading rfl ((hun.read n).congr rfl rfl) hu,hw⟩
  | call c k => exact ⟨.calling rfl (hun.congr rfl rfl) hu,hw⟩
  | note x k => simp [Waits,outcome] at hq
  | write b k => simp [Waits,outcome] at hq

theorem newlyWritten_eq {s t : Session} {l : List Bytes} (h : wire t.trace = wire s.trace++l) :
    newlyWritten s t = l.flatten := by
  rw [newlyWritten,h,List.drop_left]

/-- What holds all along: both sides have fitting histories before them, which the
services' answers and the bytes between them match. The rank counts what is left. -/
structure Meets (svc : Services) (r : HandshakeResult) (res : DeviceResult) (rank : ℕ)
    (m : Meeting) : Prop where
  rest : ∃ (input : Bytes) (t : History) (u : DeviceHistory), ServerAt r m.server input t ∧
    Answered svc t ∧ Runs m.device u (.done res) ∧ (m.device.Waits ∨ m.device = .done res) ∧
    Weave (input++m.toServer) (m.buffered++m.toDevice) t u ∧
    rank = m.toServer.length+m.toDevice.length+weight t+weight u+m.server.control.isLoop.toNat

theorem ServerAt.data {r : HandshakeResult} {s : Session} {input : Bytes} {t : History}
    (h : ServerAt r s input t) (chunk : Bytes) : ServerAt r (s.onData chunk) (input++chunk) t := by
  cases h with
  | reading hc hr hk => exact .reading hc (hr.data chunk) hk
  | calling hc hu hk => exact .calling hc (hu.data chunk) hk
  | finished he hb =>
      refine .finished (he.elsewhere (s.queue.push chunk) s.control true) ?_
      rcases hb with ⟨hc,hu⟩ | ⟨hc,hr⟩
      · exact .inl ⟨hc,hu.data chunk⟩
      · exact .inr ⟨hc,hr.data chunk⟩

section Steps
variable {cfg : Config} {svc : Services} {r : HandshakeResult} {s s' : Session} {input b : Bytes}
  {toServer : Bytes} {t : History} {u : DeviceHistory}

/-- A step of the server's code, with the part of the history that it does. -/
structure Turns (svc : Services) (r : HandshakeResult) (s s' : Session) (toServer b : Bytes)
    (t : History) (u : DeviceHistory) : Prop where
  rest : ∃ (input : Bytes) (t' : History), ServerAt r s' input t' ∧ Answered svc t' ∧
    Weave (input++toServer) (b++newlyWritten s s') t' u ∧
    (newlyWritten s s').length+weight t'+s'.control.isLoop.toNat <
      weight t+s.control.isLoop.toNat

theorem isLoop_le (c : Control) : c.isLoop.toNat ≤ 1 := by
  cases c <;> simp [Control.isLoop]

/-- A continuation does one item and a burst. -/
theorem turns_of_continue {p : Exchange HandshakeResult} {i : Item Note Call Answer JsError}
    (hs : Unreading s input) (hw : wire s.trace = wire s'.trace) (hp : Runs p t (.done r))
    (ha : Answered svc t) (hweave : Weave (input++toServer) b t u) (hi : weight [i] = 2) :
    Turns svc r s' (s.continueHandshake p) toServer b (i::t) u := by
  obtain ⟨t',rfl,hat,hwire⟩ := continueHandshake_at hs hp
  have hn := newlyWritten_eq (s := s') (hw ▸ hwire)
  refine ⟨input,t',hat,ha.after_effects,?_,?_⟩
  · rw [hn]
    exact hweave.burst
  · have hsplit := weight_append [i] (p.burst.1.map Effect.item++t')
    have hburst := weight_append (p.burst.1.map Effect.item) t'
    have hle := written_length_le_weight
      (p.burst.1.map (Effect.item (C := Call) (A := Answer) (ε := JsError)))
    have hloop := isLoop_le (s.continueHandshake p).control
    rw [hn]
    rw [List.singleton_append] at hsplit
    omega

/-- A read that has settled is the next item of the history. -/
theorem resume_turns {n : ℕ} {k : Except JsError Bytes → Exchange HandshakeResult}
    (hc : s.control = .handshake (.read n k)) (hr : Reads s n input)
    (hk : Runs (.read n k) t (.done r)) (ha : Answered svc t)
    (hweave : Weave (input++toServer) b t u) (h : step cfg s .resume = some s') :
    Turns svc r s s' toServer b t u := by
  cases hset : s.settled with
  | none => simp [step,hc,hset] at h
  | some v =>
      obtain ⟨hle,rfl,hun⟩ := hr.take hset
      simp only [step,hc,hset,Option.some.injEq] at h
      subst h
      cases hk with
      | @read _ _ _ t v hk =>
          have hle' : n ≤ (input++toServer).length := by
            rw [List.length_append]
            omega
          obtain ⟨rfl,hw⟩ := hweave.read hle'
          rw [List.take_append_of_le_length hle] at hk ⊢
          rw [List.drop_append_of_le_length hle] at hw
          exact turns_of_continue hun rfl hk ha hw rfl

/-- The answer of a service is the next item of the history. -/
theorem answer_turns {c : Call} {k : Answer c → Exchange HandshakeResult}
    (hc : s.control = .handshake (.call c k)) (hu : Unreading s input)
    (hk : Runs (.call c k) t (.done r)) (ha : Answered svc t)
    (hweave : Weave (input++toServer) b t u) (h : step cfg s (.answer svc.answer) = some s') :
    Turns svc r s s' toServer b t u := by
  simp only [step,hc,Option.some.injEq] at h
  subst h
  cases hk with
  | call v hk =>
      obtain ⟨rfl,ha⟩ := ha
      exact turns_of_continue hu rfl hk ha (hweave.step .call) rfl

/-- The loop begins with a read, and has done nothing yet. -/
theorem loop_turns (he : Established s r) (hc : s.control = .loop) (hu : Unreading s input)
    (hweave : Weave (input++toServer) b ([] : History) u) (h : step cfg s .loop = some s') :
    Turns svc r s s' toServer b [] u := by
  simp only [step,hc,loopTest,he.phase,↓reduceIte,continueReading_readFrame,
    Option.some.injEq] at h
  subst h
  have hn : newlyWritten s
      { s.withQueue (s.queue.read () 3) with control := .reading readFrame } = [] := by
    apply newlyWritten_eq (l := [])
    rw [List.append_nil]
    rfl
  have hat := (hu.read 3).congr (t := { s.withQueue (s.queue.read () 3) with
    control := .reading readFrame }) rfl rfl
  refine ⟨input,[],.finished (he.elsewhere _ _ _) (.inr ⟨rfl,hat⟩),trivial,?_,?_⟩
  · rw [hn,List.append_nil]
    exact hweave
  · rw [hn,hc]
    simp [Control.isLoop,weight]

/-- Where the session stands decides which turn it can take. -/
theorem server_turns {turn : ServerTurn} (hat : ServerAt r s input t) (ha : Answered svc t)
    (hweave : Weave (input++toServer) b t u) (h : step cfg s (turn.event svc) = some s') :
    Turns svc r s s' toServer b t u := by
  cases hat with
  | reading hc hr hk =>
      cases turn with
      | resume => exact resume_turns hc hr hk ha hweave h
      | answer => simp [ServerTurn.event,step,hc] at h
      | loop => simp [ServerTurn.event,step,hc] at h
  | calling hc hu hk =>
      cases turn with
      | resume => simp [ServerTurn.event,step,hc] at h
      | answer => exact answer_turns hc hu hk ha hweave h
      | loop => simp [ServerTurn.event,step,hc] at h
  | finished he hb =>
      rcases hb with ⟨hc,hu⟩ | ⟨hc,hr⟩
      · cases turn with
        | resume => simp [ServerTurn.event,step,hc] at h
        | answer => simp [ServerTurn.event,step,hc] at h
        | loop => exact loop_turns he hc hu hweave h
      · cases turn with
        | resume =>
            -- nothing is on its way to a finished server, so the read has not settled
            have hnil := hweave.finished
            obtain rfl := (List.append_eq_nil_iff.mp hnil).1
            cases hset : s.settled with
            | none => simp [ServerTurn.event,step,hset] at h
            | some v =>
                obtain ⟨hle,-,-⟩ := hr.take hset
                simp at hle
        | answer => simp [ServerTurn.event,step,hc] at h
        | loop => simp [ServerTurn.event,step,hc] at h

end Steps

theorem sent_eq {N : Type} (l : List (Effect N)) :
    sent l = (written (l.map (Effect.item (C := Empty) (A := fun _ => Empty) (ε := JsError)))).flatten :=
  rfl

section Meeting
variable {cfg : Config} {svc : Services} {r : HandshakeResult} {res : DeviceResult} {rank : ℕ}
  {m m' : Meeting}

/-- A read of the device does the front of its history and puts its bytes on the way. -/
theorem device_turns {n : ℕ} {k : Except JsError Bytes → DeviceProgram DeviceResult}
    {input toServer buffered toDevice : Bytes} {t : History} {u : DeviceHistory}
    (hdev : Runs (.read n k) u (.done res)) (hn : n ≤ buffered.length)
    (hw : Weave (input++toServer) (buffered++toDevice) t u) :
    ∃ u', Runs (k (.ok (buffered.take n))).burst.2 u' (.done res) ∧
      ((k (.ok (buffered.take n))).burst.2.Waits ∨
        (k (.ok (buffered.take n))).burst.2 = .done res) ∧
      Weave (input++toServer++sent (k (.ok (buffered.take n))).burst.1) (buffered.drop n++toDevice)
        t u' ∧
      (sent (k (.ok (buffered.take n))).burst.1).length+weight u' < weight u := by
  cases hdev with
  | @read _ _ _ u v hdev =>
      have hle : n ≤ (buffered++toDevice).length := by
        rw [List.length_append]
        omega
      obtain ⟨rfl,hw'⟩ := hw.swap.read hle
      rw [List.take_append_of_le_length hn] at hdev ⊢
      rw [List.drop_append_of_le_length hn] at hw'
      obtain ⟨u',rfl,hu'⟩ := hdev.after_burst
      refine ⟨u',hu',?_,hw'.burst.swap,?_⟩
      · rcases burst_settles (k (.ok (buffered.take n))) with hq | ⟨o,ho⟩
        · exact .inl hq
        · obtain ⟨-,heq⟩ := hu'.ended ho
          exact .inr heq.symm
      · have hsplit := weight_append ((k (.ok (buffered.take n))).burst.1.map Effect.item) u'
        have hwr := written_length_le_weight
          ((k (.ok (buffered.take n))).burst.1.map
            (Effect.item (C := Empty) (A := fun _ => Empty) (ε := JsError)))
        simp only [sent_eq,weight]
        omega

/-- Every event keeps the histories fitting and lowers the rank. -/
theorem meets_descends {e : MeetingEvent} (hm : Meets svc r res rank m)
    (h : meetingStep cfg svc m e = some m') : ∃ rank', rank' < rank ∧ Meets svc r res rank' m' := by
  obtain ⟨input,t,u,hat,ha,hdev,hwait,hw,rfl⟩ := hm.rest
  cases e with
  | toServer n =>
      dsimp only [meetingStep] at h
      split at h
      · next hn =>
          obtain rfl := Option.some.inj h
          refine ⟨_,?_,⟨input++m.toServer.take n,t,u,hat.data _,ha,hdev,hwait,?_,rfl⟩⟩
          · have hctl : (m.server.onData (m.toServer.take n)).control = m.server.control := rfl
            simp only [hctl,List.length_drop]
            omega
          · rw [List.append_assoc,List.take_append_drop]
            exact hw
      · cases h
  | toDevice n =>
      dsimp only [meetingStep] at h
      split at h
      · next hn =>
          obtain rfl := Option.some.inj h
          refine ⟨_,?_,⟨input,t,u,hat,ha,hdev,hwait,?_,rfl⟩⟩
          · simp only [List.length_drop]
            omega
          · rw [List.append_assoc,List.take_append_drop]
            exact hw
      · cases h
  | server turn =>
      obtain ⟨s,hs,rfl⟩ := Option.map_eq_some_iff.mp h
      obtain ⟨input',t',hat',ha',hw',hlt⟩ := (server_turns hat ha hw hs).rest
      refine ⟨_,?_,⟨input',t',u,hat',ha',hdev,hwait,?_,rfl⟩⟩
      · simp only [List.length_append]
        omega
      · rw [← List.append_assoc]
        exact hw'
  | device =>
      dsimp only [meetingStep] at h
      split at h
      · next n k hd =>
          split at h
          · next hn =>
              obtain rfl := Option.some.inj h
              rw [hd] at hdev
              obtain ⟨u',hu',hwait',hw',hlt⟩ := device_turns hdev hn hw
              refine ⟨_,?_,⟨input,t,u',hat,ha,hu',hwait',?_,rfl⟩⟩
              · simp only [List.length_append]
                omega
              · rw [← List.append_assoc]
                exact hw'
          · cases h
      · cases h

/-- Both sides are done, nothing is left over, and the session waits for frames. -/
structure Concluded (r : HandshakeResult) (res : DeviceResult) (m : Meeting) : Prop where
  server : Established m.server r
  device : m.device = .done res
  boundary : AtBoundary m.server []
  toServer : m.toServer = []
  toDevice : m.toDevice = []
  buffered : m.buffered = []

theorem enabled_toServer (h : m.toServer ≠ []) :
    ∃ e m', meetingStep cfg svc m e = some m' := by
  have hpos := List.length_pos_iff.mpr h
  exact ⟨.toServer m.toServer.length,_,by simp only [meetingStep,hpos,le_refl,and_self,↓reduceIte]; rfl⟩

theorem enabled_toDevice (h : m.toDevice ≠ []) :
    ∃ e m', meetingStep cfg svc m e = some m' := by
  have hpos := List.length_pos_iff.mpr h
  exact ⟨.toDevice m.toDevice.length,_,by simp only [meetingStep,hpos,le_refl,and_self,↓reduceIte]; rfl⟩

theorem enabled_server {turn : ServerTurn} {s : Session}
    (h : step cfg m.server (turn.event svc) = some s) :
    ∃ e m', meetingStep cfg svc m e = some m' :=
  ⟨.server turn,_,by simp only [meetingStep,h,Option.map_some]; rfl⟩

theorem concludes {input : Bytes} {u : DeviceHistory} (hat : ServerAt r m.server input [])
    (hdev : Runs m.device u (.done res)) (hu : u = [])
    (hw : Weave (input++m.toServer) (m.buffered++m.toDevice) ([] : History) u) :
    Concluded r res m := by
  subst hu
  obtain ⟨rfl,hserver⟩ := List.append_eq_nil_iff.mp hw.finished
  obtain ⟨hbuf,htoDevice⟩ := List.append_eq_nil_iff.mp hw.swap.finished
  have hdone : m.device = .done res := by
    generalize m.device = p at hdev
    cases hdev
    rfl
  generalize ht : ([] : History) = t at hat
  cases hat with
  | reading _ _ hk => subst ht; cases hk
  | calling _ _ hk => subst ht; cases hk
  | finished he hb => exact ⟨he,hdone,hb,hserver,htoDevice,hbuf⟩

/-- A server that can do its next item has a step, or its bytes have to arrive. -/
theorem server_enabled {i : Item Note Call Answer JsError} {input a' b b' : Bytes} {t : History}
    (hat : ServerAt r m.server input (i::t)) (hi : Acts i (input++m.toServer) b a' b') :
    ∃ e m', meetingStep cfg svc m e = some m' := by
  generalize ht : i::t = t0 at hat
  cases hat with
  | @reading n k _ _ hc hr hk =>
      subst ht
      cases hk with
      | read v _ =>
          have hle : n ≤ (input++m.toServer).length := by
            generalize input++m.toServer = a at hi
            cases hi with
            | read hl => simp [← hl]
          cases hset : m.server.settled with
          | none =>
              apply enabled_toServer
              intro hnil
              have hlt := hr.blocked hset
              rw [hnil,List.append_nil] at hle
              omega
          | some v =>
              have hstep : step cfg m.server (ServerTurn.resume.event svc) =
                  some (m.server.taken.continueHandshake (k v)) := by
                simp only [ServerTurn.event,step,hc,hset]
              exact enabled_server hstep
  | @calling c k _ _ hc _ _ =>
      have hstep : step cfg m.server (ServerTurn.answer.event svc) =
          some (m.server.continueHandshake (k (svc.answer c))) := by
        simp only [ServerTurn.event,step,hc]
      exact enabled_server hstep
  | finished _ _ => cases ht

theorem device_enabled {i : Item Empty Empty (fun _ => Empty) JsError} {a a' b' : Bytes}
    {u : DeviceHistory} (hdev : Runs m.device (i::u) (.done res))
    (hwait : m.device.Waits ∨ m.device = .done res)
    (hi : Acts i (m.buffered++m.toDevice) a b' a') :
    ∃ e m', meetingStep cfg svc m e = some m' := by
  cases hd : m.device with
  | read n k =>
      rw [hd] at hdev
      cases hdev with
      | read v _ =>
          have hle : n ≤ (m.buffered++m.toDevice).length := by
            generalize m.buffered++m.toDevice = b at hi
            cases hi with
            | read hl => simp [← hl]
          by_cases hn : n ≤ m.buffered.length
          · exact ⟨.device,_,by simp only [meetingStep,hd,hn,↓reduceIte]; rfl⟩
          · apply enabled_toDevice
            intro hnil
            rw [hnil,List.append_nil] at hle
            exact hn hle
  | call c k => exact c.elim
  | done a =>
      rw [hd] at hdev
      cases hdev
  | fail e => simp [hd,Waits] at hwait
  | note x k => exact x.elim
  | write w k => simp [hd,Waits] at hwait

/-- Nobody is ever stuck before the end. -/
theorem meets_progresses (hm : Meets svc r res rank m) :
    Concluded r res m ∨ ∃ e m', meetingStep cfg svc m e = some m' := by
  obtain ⟨input,t,u,hat,-,hdev,hwait,hw,-⟩ := hm.rest
  rcases hw.progress with ⟨rfl,hu⟩ | ⟨i,t',a',b',rfl,hi⟩ | ⟨i,u',a',b',rfl,hi⟩
  · exact .inl (concludes hat hdev hu hw)
  · exact .inr (server_enabled hat hi)
  · exact .inr (device_enabled hdev hwait hi)

end Meeting

/-- The two ends have the same idea of the session. -/
structure Agreement (d : Device) (r : HandshakeResult) (res : DeviceResult) : Prop where
  coreId : r.coreId = toHex d.id
  sessionKey : r.sessionKey = res.sessionKey
  aesKey : r.aesKey = res.aesKey
  ivIn : r.ivIn = firstBlock res.helloCiphertext
  ivOut : r.ivOut = firstBlock res.serverHelloFrame
  recvCounter : r.recvCounter = d.helloMessageId
  sendCounter : res.serverHello.messageId = r.sendCounter
  productId : r.productId = if 4 ≤ d.helloPayload.length then readBe16 d.helloPayload else none
  firmwareVersion : r.firmwareVersion =
    if 4 ≤ d.helloPayload.length then readBe16 (d.helloPayload.drop 2) else none

theorem honest_agrees {node : Primitives} {svc : Services} {serverPrivKeyPem : String} {draws : Draws}
    {d : Device} {k : Completion} (h : Honest node svc serverPrivKeyPem draws d k) :
    Agreement d (k.result draws) (deviceResult k draws) := by
  obtain ⟨-,-,hid,-⟩ := Device.identity h.plaintext
  refine ⟨hid,rfl,rfl,rfl,rfl,?_,rfl,?_,?_⟩
  · simp [Completion.result,h.hello,heard]
  · simp [Completion.result,helloIn,h.hello,heard]
  · simp [Completion.result,helloIn,h.hello,heard]

/-- Both sides have finished, each with its result, and the results agree. -/
def Agreed (d : Device) (m : Meeting) : Prop :=
  ∃ r res, Concluded r res m ∧ Agreement d r res

theorem meet_meets {cfg : Config} {svc : Services} {d : Device} {k : Completion}
    (h : Honest cfg.node svc cfg.serverPrivKeyPem cfg.draws d k) :
    ∃ rank, Meets svc (k.result cfg.draws) (deviceResult k cfg.draws) rank (meet cfg svc d) := by
  have hfresh : Unreading { ({} : Session).resetIdleTimer with progress := {}, phase := .handshaking }
      [] := ⟨rfl,rfl⟩
  obtain ⟨t,ht,hat,hwire⟩ := continueHandshake_at hfresh h.server_runs
  have hw := h.weave
  have ha := h.answered
  rw [ht] at hw ha
  have hn : newlyWritten {} (({} : Session).run cfg) = _ := newlyWritten_eq hwire
  refine ⟨_,[],t,deviceHistory k cfg.draws,hat,ha.after_effects,h.device_runs,.inl trivial,?_,rfl⟩
  have hburst := hw.burst
  have htoDevice : (meet cfg svc d).toDevice = newlyWritten {} (({} : Session).run cfg) := rfl
  rw [htoDevice,hn]
  exact hburst

/-- Whatever the schedule and the cutting of the two streams, the handshake of the
session resolves, the device accepts the digest, and the two agree. -/
theorem meeting_agrees {cfg : Config} {svc : Services} {d : Device} {devicePubPem : String}
    (hserver : svc.rsa.Matching d.serverPubPem cfg.serverPrivKeyPem 256)
    (hdevice : svc.rsa.Matching devicePubPem d.privPem 128) (hkey : devicePubPem ≠ "")
    (hload : svc.loadCoreKey (toHex d.id) d.inlineDer = .ok (some devicePubPem)) :
    Eventually (meetingStep cfg svc) (Agreed d) (meet cfg svc d) := by
  obtain ⟨k,hk⟩ := honest_exists cfg.node cfg.draws hserver hdevice hkey hload
  obtain ⟨rank,hm⟩ := meet_meets hk
  have hprogress : ∀ n m, Meets svc (k.result cfg.draws) (deviceResult k cfg.draws) n m →
      Concluded (k.result cfg.draws) (deviceResult k cfg.draws) m ∨
        ∃ e m', meetingStep cfg svc m e = some m' := fun _ _ => meets_progresses
  have hdescend : ∀ n m e m', Meets svc (k.result cfg.draws) (deviceResult k cfg.draws) n m →
      meetingStep cfg svc m e = some m' →
        ∃ n', n' < n ∧ Meets svc (k.result cfg.draws) (deviceResult k cfg.draws) n' m' :=
    fun _ _ _ _ => meets_descends
  have hconcluded : Eventually (meetingStep cfg svc)
      (Concluded (k.result cfg.draws) (deviceResult k cfg.draws)) (meet cfg svc d) :=
    eventually_of_rank hprogress hdescend rank _ hm
  exact hconcluded.mono fun m hc => ⟨_,_,hc,honest_agrees hk⟩

/-- PKCS#1 padding around a permutation that does nothing, for closed examples. -/
def padBlock (modulus : ℕ) (m : Bytes) : Bytes :=
  [0,2]++(List.replicate (modulus-3-m.length) 0xFF++0::m)

def unpadBlock (c : Bytes) : Bytes := ((c.drop 2).dropWhile fun b => b ≠ 0).drop 1

theorem unpadBlock_padBlock (modulus : ℕ) (m : Bytes) : unpadBlock (padBlock modulus m) = m := by
  have hdrop : ∀ n, (List.replicate n 0xFF++0::m).dropWhile (fun b : UInt8 => b ≠ 0) = 0::m := by
    intro n
    induction n with
    | zero => rfl
    | succ n ih => simp [List.replicate_succ]
  have hskip : (padBlock modulus m).drop 2 = List.replicate (modulus-3-m.length) 0xFF++0::m := rfl
  rw [unpadBlock,hskip,hdrop]
  rfl

def plainModulus (pem : String) : ℕ := if pem = "server" then 256 else 128

def plainEncrypt (pem : String) (m : Bytes) : Except JsError Bytes :=
  if m.length+11 ≤ plainModulus pem then .ok (padBlock (plainModulus pem) m)
  else .error { message := "data too large for key size" }

def plainRsa : Rsa := ⟨plainEncrypt,fun _ c => .ok (unpadBlock c),plainEncrypt,fun _ c => .ok (unpadBlock c)⟩

theorem plainRsa_matching (pem : String) : plainRsa.Matching pem pem (plainModulus pem) := by
  have hpair : ∀ m : Bytes, m.length+11 ≤ plainModulus pem → ∃ c : Bytes,
      plainEncrypt pem m = .ok c ∧ c.length = plainModulus pem ∧
        (Except.ok (unpadBlock c) : Except JsError Bytes) = .ok m := by
    intro m hm
    refine ⟨padBlock (plainModulus pem) m,if_pos hm,?_,by rw [unpadBlock_padBlock]⟩
    simp only [padBlock,List.length_append,List.length_replicate,List.length_cons,List.length_nil]
    omega
  exact ⟨hpair,hpair⟩

def plainServices : Services :=
  ⟨plainRsa,fun id _ => .ok (if id = "000000000000000000000000" then some "device" else none)⟩

def plainDevice : Device where
  id := List.replicate 12 0
  inlineKey := []
  privPem := "device"
  serverPubPem := "server"
  helloMessageId := 0xABCD
  helloPayload := [0,5,0,3]
  id_length := rfl
  inlineKey_fits := by decide
  helloMessageId_lt := by decide
  hello_fits := by decide

theorem meeting_agrees_plain :
    Eventually (meetingStep plainConfig plainServices) (Agreed plainDevice)
      (meet plainConfig plainServices plainDevice) := by
  have hload : plainServices.loadCoreKey (toHex plainDevice.id) plainDevice.inlineDer =
      .ok (some "device") := by
    decide +kernel
  have hserver := plainRsa_matching "server"
  have hdevice := plainRsa_matching "device"
  exact meeting_agrees hserver hdevice (by decide) hload

end SparkProtocol.Sessions
