import SparkProtocol.Sessions
import SparkProtocol.SessionReads

/-!
# Bytes that come early

A session with more bytes in its buffer behaves as it would without them: no method
looks at the buffer but the read that `run()` makes, and a read that is served at
once ends where a read that waits for the same bytes ends. Only the idle timer may
differ, which every chunk arms anew.
-/
namespace SparkProtocol.Sessions
open ByteStrings HostValues StreamPrograms Program Crypto Chunking Coap Messages Handshake
  ByteQueues OrderedMaps Session

/-- A session but for its idle timer. -/
def look (s : Session) : Session := { s with idleTimer := false }

/-- More bytes in the buffer, and an idle timer of its own. -/
def supply (c : Bytes) (armed : Bool) (s : Session) : Session :=
  { s with queue := { s.queue with buf := s.queue.buf++c }, idleTimer := armed }

/-- No read is under way, and `t` is `s` with more bytes in its buffer. -/
structure Ahead (c : Bytes) (s t : Session) : Prop where
  settled : s.settled = none
  waiters : s.queue.waiters = []
  supplied : ∃ armed, t = supply c armed s

section Ahead
variable {c : Bytes} {s t : Session}

theorem onData_eq (hw : s.queue.waiters = []) (chunk : Bytes) :
    s.onData chunk = supply chunk true s := by
  simp [onData,resetIdleTimer,withQueue,ByteQueue.push,ByteQueue.drain,hw,drainLoop,supply]

theorem Ahead.look (h : Ahead c s t) : look t = look (s.onData c) := by
  obtain ⟨-,hw,armed,rfl⟩ := h
  rw [onData_eq hw]
  rfl

theorem Ahead.phase (h : Ahead c s t) : t.phase = s.phase := by
  obtain ⟨-,-,armed,rfl⟩ := h
  rfl

theorem Ahead.log (h : Ahead c s t) (o : Out) : Ahead c (s.log o) (t.log o) := by
  obtain ⟨hs,hw,armed,rfl⟩ := h
  exact ⟨hs,hw,armed,rfl⟩

/-- What only rewrites fields that do not count here. -/
theorem Ahead.map (h : Ahead c s t) (f : Session → Session)
    (hf : ∀ armed, f (supply c armed s) = supply c armed (f s))
    (hs : (f s).settled = none) (hq : (f s).queue = s.queue) : Ahead c (f s) (f t) := by
  obtain ⟨-,hw,armed,rfl⟩ := h
  exact ⟨hs,hq ▸ hw,armed,hf armed⟩

theorem Ahead.effects (h : Ahead c s t) (l : List (Effect Note)) :
    Ahead c (l.foldl perform s) (l.foldl perform t) := by
  induction l generalizing s t with
  | nil => exact h
  | cons x l ih =>
      apply ih
      cases x with
      | note x => exact h.map (fun s => s.perform (.note x)) (fun _ => rfl) h.settled rfl
      | write b => exact h.log (.write b)

theorem Ahead.finalize (h : Ahead c s t) : Ahead c s.finalize t.finalize := by
  obtain ⟨hs,hw,armed,rfl⟩ := h
  have hclose : ∀ q : ByteQueue Unit, q.waiters = [] → q.close = ({ q with closed := true },[]) := by
    intro q hq
    simp [ByteQueue.close,ByteQueue.drain,hq,drainLoop]
  by_cases hp : s.phase = .closed
  · have hp' : (supply c armed s).phase = .closed := hp
    rw [finalize_closed hp,finalize_closed hp']
    exact ⟨hs,hw,armed,rfl⟩
  · have hp' : (supply c armed s).phase ≠ .closed := hp
    unfold Session.finalize
    rw [if_neg hp,if_neg hp']
    simp only [hclose s.queue hw,hclose (supply c armed s).queue hw]
    exact ⟨hs,hw,false,rfl⟩

theorem Ahead.disconnect (h : Ahead c s t) : Ahead c s.disconnect t.disconnect := by
  unfold Session.disconnect
  rw [h.phase]
  split
  · exact h
  · exact (h.log .fin).finalize

theorem Ahead.caught (h : Ahead c s t) (err : JsError) : Ahead c (s.caught err) (t.caught err) := by
  have hset := h.map (fun s => { s with handshakeError := some err, control := .finished })
    (fun _ => rfl) h.settled rfl
  unfold Session.caught
  dsimp only
  split
  · next hp => rwa [if_pos (h.phase.trans hp)]
  · next hp =>
      rw [if_neg (fun ht => hp (h.phase.symm.trans ht))]
      exact (hset.log (.error err)).disconnect

theorem Ahead.correlate (h : Ahead c s t) (msg : CoapMessage JsNumber) :
    Ahead c (s.correlate msg) (t.correlate msg) := by
  obtain ⟨hs,hw,armed,rfl⟩ := h
  unfold Session.correlate
  dsimp only [supply]
  split <;> exact ⟨hs,hw,armed,rfl⟩

/-- Two outcomes of a call, of which the second is ahead. -/
def AheadResult (c : Bytes) (r r' : Session × Except JsError Unit) : Prop :=
  Ahead c r.1 r'.1 ∧ r'.2 = r.2

theorem Ahead.sendPlain (h : Ahead c s t) (node : Primitives) (plain : Bytes) :
    AheadResult c (s.sendPlain node plain) (t.sendPlain node plain) := by
  obtain ⟨hs,hw,armed,rfl⟩ := h
  unfold Session.sendPlain
  dsimp only [Session.log,supply]
  split
  · exact ⟨⟨hs,hw,armed,rfl⟩,rfl⟩
  · split <;> exact ⟨⟨hs,hw,armed,rfl⟩,rfl⟩

theorem Ahead.handleFrame (h : Ahead c s t) (node : Primitives) (ct : Bytes) :
    AheadResult c (s.handleFrame node ct) (t.handleFrame node ct) := by
  have hlog := h.log (.frameIn ct)
  have hdecrypted := hlog.map (fun s => { s with ivIn := firstBlock ct }) (fun _ => rfl) h.settled rfl
  have hplain : aesDecrypt node (t.log (.frameIn ct)).aesKey (t.log (.frameIn ct)).ivIn ct =
      aesDecrypt node (s.log (.frameIn ct)).aesKey (s.log (.frameIn ct)).ivIn ct := by
    obtain ⟨-,-,armed,rfl⟩ := h
    rfl
  unfold Session.handleFrame
  dsimp only
  rw [hplain]
  split
  · exact ⟨(hlog.log _).disconnect,rfl⟩
  · split
    · exact ⟨hdecrypted.log _,rfl⟩
    · next msg _ =>
        have hdecoded := hdecrypted.map (fun s => { s with recvCounter := msg.messageId })
          (fun _ => rfl) h.settled rfl
        split
        · split
          · exact ⟨hdecoded,rfl⟩
          · exact hdecoded.sendPlain node _
        · exact ⟨hdecoded.correlate msg,rfl⟩

theorem Ahead.endTurn {r r' : Session × Except JsError Unit} (h : AheadResult c r r') :
    Ahead c (endTurn r) (endTurn r') := by
  obtain ⟨u,r⟩ := r
  obtain ⟨u',r'⟩ := r'
  obtain ⟨hu,rfl⟩ := h
  cases r' with
  | ok _ => exact hu.map (fun s => { s with control := .loop }) (fun _ => rfl) hu.settled rfl
  | error err => exact hu.caught err

theorem withQueue_served {n : ℕ} {buf : Bytes} (h : n ≤ buf.length) (s : Session) :
    s.withQueue (ByteQueue.drain ⟨buf,[⟨(),n⟩],false⟩) =
      { s with queue := ⟨buf.drop n,[],false⟩, settled := some (.ok (buf.take n)) } := by
  simp [withQueue,ByteQueue.drain,drainLoop_one,h]

theorem withQueue_waiting {n : ℕ} {buf : Bytes} (h : ¬ n ≤ buf.length) (s : Session) :
    s.withQueue (ByteQueue.drain ⟨buf,[⟨(),n⟩],false⟩) = { s with queue := ⟨buf,[⟨(),n⟩],false⟩ } := by
  simp [withQueue,ByteQueue.drain,drainLoop_one,h]

/-- Bytes that come to a waiting read are bytes that were there. -/
theorem onData_waiting {n : ℕ} {buf : Bytes} (hq : s.queue = ⟨buf,[⟨(),n⟩],false⟩) (c : Bytes) :
    s.onData c = s.resetIdleTimer.withQueue (ByteQueue.drain ⟨buf++c,[⟨(),n⟩],false⟩) := by
  unfold onData
  rw [hq]
  rfl

/-- Bytes that come before a read and bytes that come after it end in the same state. -/
theorem Ahead.read (h : Ahead c s t) (hopen : s.queue.closed = false) (n : ℕ) (control : Control) :
    Sessions.look { t.withQueue (t.queue.read () n) with control := control } =
      Sessions.look ({ s.withQueue (s.queue.read () n) with control := control }.onData c) := by
  obtain ⟨hs,hw,armed,rfl⟩ := h
  have hq : s.queue = ⟨s.queue.buf,[],false⟩ := by rw [← hw,← hopen]
  have hread : s.queue.read () n = ByteQueue.drain ⟨s.queue.buf,[⟨(),n⟩],false⟩ := by
    rw [hq]
    rfl
  have hread' : (supply c armed s).queue.read () n =
      ByteQueue.drain ⟨s.queue.buf++c,[⟨(),n⟩],false⟩ := by
    unfold supply
    rw [hq]
    rfl
  rw [hread,hread']
  by_cases hn : n ≤ s.queue.buf.length
  · have hn' : n ≤ (s.queue.buf++c).length := by
      rw [List.length_append]
      omega
    rw [withQueue_served hn,withQueue_served hn',onData_eq rfl,List.take_append_of_le_length hn,
      List.drop_append_of_le_length hn]
    rfl
  · rw [withQueue_waiting hn,onData_waiting rfl]
    rfl

theorem effects_settled (s : Session) (l : List (Effect Note)) :
    (l.foldl perform s).settled = s.settled ∧ (l.foldl perform s).queue = s.queue := by
  induction l generalizing s with
  | nil => exact ⟨rfl,rfl⟩
  | cons x l ih => cases x <;> exact ih (s.perform _)

/-- The handshake goes on alike. -/
theorem Ahead.continueHandshake (h : Ahead c s t) (hopen : s.queue.closed = false)
    (p : Exchange HandshakeResult) :
    Sessions.look (t.continueHandshake p) = Sessions.look ((s.continueHandshake p).onData c) := by
  have hafter := h.effects p.burst.1
  have hopen' : (p.burst.1.foldl perform s).queue.closed = false := by
    rw [(effects_settled s p.burst.1).2,hopen]
  have hsettles := burst_settles p
  unfold Session.continueHandshake
  dsimp only
  generalize p.burst.1.foldl perform s = u at hafter hopen'
  generalize p.burst.1.foldl perform t = u' at hafter
  generalize p.burst.2 = q at hsettles
  cases q with
  | done r =>
      exact ((hafter.map (fun s => { s with
        coreId := some r.coreId, sessionKey := r.sessionKey, aesKey := r.aesKey, ivIn := r.ivIn,
        ivOut := r.ivOut, recvCounter := r.recvCounter, sendCounter := r.sendCounter,
        productId := r.productId, firmwareVersion := r.firmwareVersion,
        phase := .connected, control := .loop }) (fun _ => rfl) hafter.settled rfl).log _).look
  | fail e => exact (hafter.caught e).look
  | note x k => simp [Waits,outcome] at hsettles
  | write b k => simp [Waits,outcome] at hsettles
  | read n k => exact hafter.read hopen' n _
  | call a k =>
      exact (hafter.map (fun s => { s with control := .handshake (.call a k) }) (fun _ => rfl)
        hafter.settled rfl).look

/-- And so does a loop turn. -/
theorem Ahead.continueReading (h : Ahead c s t) (hopen : s.queue.closed = false) (node : Primitives)
    (p : Exchange Bytes) :
    Sessions.look (t.continueReading node p) = Sessions.look ((s.continueReading node p).onData c) := by
  have hafter := h.effects p.burst.1
  have hopen' : (p.burst.1.foldl perform s).queue.closed = false := by
    rw [(effects_settled s p.burst.1).2,hopen]
  have hsettles := burst_settles p
  unfold Session.continueReading
  dsimp only
  generalize p.burst.1.foldl perform s = u at hafter hopen'
  generalize p.burst.1.foldl perform t = u' at hafter
  generalize p.burst.2 = q at hsettles
  cases q with
  | done frame => exact (Ahead.endTurn (hafter.handleFrame node frame)).look
  | fail e => exact (hafter.caught e).look
  | note x k => simp [Waits,outcome] at hsettles
  | write b k => simp [Waits,outcome] at hsettles
  | read n k => exact hafter.read hopen' n _
  | call a k =>
      exact (hafter.map (fun s => { s with control := .reading (.call a k) }) (fun _ => rfl)
        hafter.settled rfl).look

end Ahead

end SparkProtocol.Sessions
