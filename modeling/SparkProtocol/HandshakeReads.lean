import SparkProtocol.Determinacy

/-!
# The bytes that a handshake has read

Whoever closes the session meanwhile and whatever else is called on it, the reads that
its handshake was given and the bytes that nobody has read are what has come, in order.
A read that is refused because the queue has closed takes nothing. So what the handshake
takes for the first message of its device is what came first.
-/
namespace SparkProtocol.Sessions
open ByteStrings HostValues StreamPrograms Program Crypto Chunking Coap Messages Handshake
  ByteQueues OrderedMaps FramedStreams LabelledRuns Session

/-- The read that the handshake waits for is in the queue or has settled, and there is
no other. The queue may have closed. -/
inductive Holds (s : Session) : Exchange HandshakeResult → Prop
  | waiting {n : ℕ} {k : Except JsError Bytes → Exchange HandshakeResult} : s.settled = none →
      s.queue.waiters = [⟨(),n⟩] → Holds s (.read n k)
  | settled {n : ℕ} {k : Except JsError Bytes → Exchange HandshakeResult}
      {r : Except JsError Bytes} : s.settled = some r → (∀ b, r = .ok b → b.length = n) →
      s.queue.waiters = [] → Holds s (.read n k)
  | calls {c : Call} {k : Answer c → Exchange HandshakeResult} : s.settled = none →
      s.queue.waiters = [] → Holds s (.call c k)

/-- The history has been given the front of what came, and the rest is unread. -/
structure Received (s : Session) (b : Bytes) (l : History) : Prop where
  sized : ∀ n x, .read n (.ok x) ∈ l → x.length = n
  taken : (reads l).flatten <+: b
  left : ∀ q, s.control = .handshake q → (reads l).flatten++unread s = b ∧ Holds s q

section Queue
variable {s t : Session} {q : Exchange HandshakeResult}

theorem unread_congr (hs : t.settled = s.settled) (hq : t.queue = s.queue) : unread t = unread s := by
  unfold unread
  rw [hs,hq]

theorem unread_none (hs : s.settled = none) : unread s = s.queue.buf := by
  unfold unread
  rw [hs]

theorem Holds.congr (h : Holds s q) (hs : t.settled = s.settled) (hq : t.queue = s.queue) :
    Holds t q := by
  cases h with
  | waiting h1 h2 => exact .waiting (hs.trans h1) (hq ▸ h2)
  | settled h1 h2 h3 => exact .settled (hs.trans h1) h2 (hq ▸ h3)
  | calls h1 h2 => exact .calls (hs.trans h1) (hq ▸ h2)

/-- The drain loop serves the one waiter, refuses it or leaves it. -/
theorem holds_drain (hs : s.settled = none) (n : ℕ)
    (k : Except JsError Bytes → Exchange HandshakeResult) (buf : Bytes) (closed : Bool) :
    Holds (s.withQueue (ByteQueue.drain ⟨buf,[⟨(),n⟩],closed⟩)) (.read n k) ∧
      unread (s.withQueue (ByteQueue.drain ⟨buf,[⟨(),n⟩],closed⟩)) = buf := by
  by_cases hn : n ≤ buf.length
  · have hd : s.withQueue (ByteQueue.drain ⟨buf,[⟨(),n⟩],closed⟩) =
        { s with queue := ⟨buf.drop n,[],closed⟩, settled := some (.ok (buf.take n)) } := by
      simp [withQueue,ByteQueue.drain,drainLoop,hn]
    rw [hd]
    refine ⟨.settled rfl (fun b hb => ?_) rfl,List.take_append_drop n buf⟩
    rw [← Except.ok.inj hb,List.length_take_of_le hn]
  · cases closed with
    | true =>
        have hd : s.withQueue (ByteQueue.drain ⟨buf,[⟨(),n⟩],true⟩) =
            { s with queue := ⟨buf,[],true⟩, settled := some (.error socketClosed) } := by
          simp [withQueue,ByteQueue.drain,drainLoop,hn]
        rw [hd]
        exact ⟨.settled rfl (fun b hb => by cases hb) rfl,rfl⟩
    | false =>
        have hd : s.withQueue (ByteQueue.drain ⟨buf,[⟨(),n⟩],false⟩) =
            { s with queue := ⟨buf,[⟨(),n⟩],false⟩ } := by
          simp [withQueue,ByteQueue.drain,drainLoop,hn]
        rw [hd]
        exact ⟨.waiting hs rfl,unread_none hs⟩

/-- More bytes, or the end of the queue. -/
theorem Holds.drained (h : Holds s q) (chunk : Bytes) (closed : Bool) :
    Holds (s.withQueue (ByteQueue.drain ⟨s.queue.buf++chunk,s.queue.waiters,closed⟩)) q ∧
      unread (s.withQueue (ByteQueue.drain ⟨s.queue.buf++chunk,s.queue.waiters,closed⟩)) =
        unread s++chunk := by
  have hidle : s.queue.waiters = [] →
      s.withQueue (ByteQueue.drain ⟨s.queue.buf++chunk,s.queue.waiters,closed⟩) =
        { s with queue := ⟨s.queue.buf++chunk,[],closed⟩ } := by
    intro hw
    simp [withQueue,ByteQueue.drain,drainLoop,hw]
  cases h with
  | @waiting n k hs hw =>
      rw [hw,unread_none hs]
      exact holds_drain hs n k _ closed
  | @settled n k r hs hr hw =>
      rw [hidle hw]
      refine ⟨.settled hs hr rfl,?_⟩
      unfold unread
      simp only [hs]
      cases r with
      | ok b => exact (List.append_assoc ..).symm
      | error err => rfl
  | calls hs hw =>
      rw [hidle hw]
      exact ⟨.calls hs rfl,by rw [unread_none hs]; exact unread_none hs⟩

theorem Holds.data (h : Holds s q) (chunk : Bytes) :
    Holds (s.onData chunk) q ∧ unread (s.onData chunk) = unread s++chunk :=
  (h.congr (t := s.resetIdleTimer) rfl rfl).drained chunk s.queue.closed

theorem Holds.finalize (h : Holds s q) : Holds s.finalize q ∧ unread s.finalize = unread s := by
  by_cases hp : s.phase = .closed
  · rw [finalize_closed hp]
    exact ⟨h,rfl⟩
  · obtain ⟨hd,hu⟩ := h.drained [] true
    rw [List.append_nil] at hd hu
    have hclose : s.finalize.settled = (s.withQueue s.queue.close).settled ∧
        s.finalize.queue = (s.withQueue s.queue.close).queue := by
      unfold Session.finalize
      rw [if_neg hp]
      exact ⟨rfl,rfl⟩
    rw [List.append_nil] at hu
    exact ⟨hd.congr hclose.1 hclose.2,(unread_congr hclose.1 hclose.2).trans hu⟩

theorem Holds.disconnect (h : Holds s q) : Holds s.disconnect q ∧ unread s.disconnect = unread s := by
  unfold Session.disconnect
  split
  · exact ⟨h,rfl⟩
  · exact (h.congr (t := s.log .fin) rfl rfl).finalize

/-- The handshake asks for its next read, or waits for a service. -/
theorem holds_await (hs : s.settled = none) (hw : s.queue.waiters = []) (hq : q.Waits) :
    Holds (s.await q) q ∧ unread (s.await q) = unread s := by
  cases q with
  | read n k =>
      obtain ⟨hd,hu⟩ := holds_drain hs n k s.queue.buf s.queue.closed
      have hread : s.queue.read () n = ByteQueue.drain ⟨s.queue.buf,[⟨(),n⟩],s.queue.closed⟩ := by
        simp only [ByteQueue.read,hw,List.nil_append]
      rw [← hread] at hd hu
      exact ⟨hd,hu.trans (unread_none hs).symm⟩
  | call c k => exact ⟨.calls hs hw,rfl⟩
  | _ => exact hq.elim

end Queue

section Receiving
variable {cfg : Config} {s t : Session} {e : Event} {b : Bytes} {l : History}
  {p q : Exchange HandshakeResult}

theorem flatten_reads_append (l m : History) :
    (reads (l++m)).flatten = (reads l).flatten++(reads m).flatten := by
  rw [reads_append,List.flatten_append]

theorem sized_effects (hl : ∀ n x, .read n (.ok x) ∈ l → x.length = n) (m : List (Effect Note)) :
    ∀ n x, .read n (.ok x) ∈ l++m.map Effect.item → x.length = n := by
  intro n x hm
  rcases List.mem_append.mp hm with hm | hm
  · exact hl n x hm
  · obtain ⟨y,-,hy⟩ := List.mem_map.mp hm
    cases y <;> cases hy

/-- Up to its next wait the handshake reads nothing. -/
theorem continueHandshake_received (hl : ∀ n x, .read n (.ok x) ∈ l → x.length = n)
    (hs : s.settled = none) (hw : s.queue.waiters = []) (hb : (reads l).flatten++unread s = b)
    (p : Exchange HandshakeResult) :
    Received (s.continueHandshake p) b (l++p.burst.1.map Effect.item) := by
  have hsame : (reads (l++p.burst.1.map Effect.item)).flatten = (reads l).flatten := by
    rw [flatten_reads_append,reads_effects,List.flatten_nil,List.append_nil]
  refine ⟨sized_effects hl _,?_,fun q hq => ?_⟩
  · rw [hsame,← hb]
    exact List.prefix_append _ _
  · obtain ⟨hsettled,hqueue⟩ := effects_settled s p.burst.1
    have hcont := continueHandshake_cases s p
    generalize s.continueHandshake p = t at hcont hq ⊢
    cases hcont with
    | resolves _ => cases hq
    | rejects _ =>
        rw [(caught_ends _ _).control] at hq
        cases hq
    | waits hwaits =>
        obtain rfl := Control.handshake.inj hq
        obtain ⟨hholds,hunread⟩ := holds_await (hsettled.trans hs) (hqueue ▸ hw) hwaits
        rw [hsame]
        refine ⟨?_,hholds.congr rfl rfl⟩
        rw [← hb,← unread_congr hsettled hqueue,← hunread]
        rfl

/-- What the handshake is given it takes from what was unread. -/
theorem Holds.given (cfg : Config) (h : Holds s q) (hq : s.control = .handshake q)
    (hp : continuation s e = some p) :
    ∃ i, Sessions.given s e = some i ∧ (∀ n x, i = .read n (.ok x) → x.length = n) ∧
      (reads [i]).flatten++unread s.taken = unread s ∧ s.queue.waiters = [] ∧
      step cfg s e = some (s.taken.continueHandshake p) := by
  cases e with
  | resume =>
      simp only [continuation] at hp
      split at hp
      · next n k r hc hr =>
          obtain rfl := Option.some.inj hp
          obtain rfl := Control.handshake.inj (hq.symm.trans hc)
          cases h with
          | waiting hs _ => cases hs.symm.trans hr
          | @settled _ _ r hs hsize hw =>
              obtain rfl := Option.some.inj (hs.symm.trans hr)
              refine ⟨.read n r,by simp only [Sessions.given,hc,hr],?_,?_,hw,?_⟩
              · rintro m x hx
                cases hx
                exact hsize x rfl
              · rw [unread_none (s := s.taken) rfl,unread,hr]
                cases r with
                | ok x => simp [reads,Session.taken]
                | error err => rfl
              · simp only [step,hc,hr]
      · cases hp
  | answer a =>
      simp only [continuation] at hp
      split at hp
      · next c k hc =>
          obtain rfl := Option.some.inj hp
          obtain rfl := Control.handshake.inj (hq.symm.trans hc)
          cases h with
          | calls hs hw =>
              have hsame : s.taken = s := by
                unfold Session.taken
                rw [← hs]
              refine ⟨.call c (a c),by simp only [Sessions.given,hc],fun n x hx => (by cases hx),?_,hw,?_⟩
              · rw [hsame]
                rfl
              · rw [hsame]
                simp only [step,hc]
      · cases hp
  | _ => simp [continuation] at hp

/-- Otherwise the handshake is given nothing, and only a chunk adds to what is unread. -/
theorem Holds.stays (h : Holds s q) (hq : s.control = .handshake q)
    (hnone : ∀ p, continuation s e ≠ some p) (hstep : step cfg s e = some t) :
    Holds t q ∧ unread t = unread s++arrivals [e] := by
  have hquiet : ∀ {u : Session}, u.settled = s.settled → u.queue = s.queue →
      Holds u q ∧ unread u = unread s++[] := by
    intro u hsettled hqueue
    exact ⟨h.congr hsettled hqueue,by rw [unread_congr hsettled hqueue,List.append_nil]⟩
  have hshut : ∀ {u v : Session}, u.settled = s.settled → u.queue = s.queue →
      Holds v q ∧ unread v = unread u → Holds v q ∧ unread v = unread s++[] := by
    rintro u v hsettled hqueue ⟨hv,hu⟩
    exact ⟨hv,by rw [hu,unread_congr hsettled hqueue,List.append_nil]⟩
  cases step_cases hstep with
  | run hc => simp [hq] at hc
  | @proceeds _ k r hc hr => exact absurd (by simp only [continuation,hc,hr]) (hnone (k r))
  | reads hc _ => simp [hq] at hc
  | loop hc => simp [hq] at hc
  | @answer c k a hc => exact absurd (by simp only [continuation,hc]) (hnone (k (a c)))
  | data chunk => simpa [arrivals] using h.data chunk
  | socketError err =>
      exact hshut rfl rfl (h.congr (t := s.log (.error err)) rfl rfl).disconnect
  | socketClose => exact hshut rfl rfl h.finalize
  | idleTimeout _ =>
      have hoff := h.congr (t := ({ s with idleTimer := false } : Session).log
        (.error { message := "idle timeout" })) rfl rfl
      exact hshut rfl rfl hoff.disconnect
  | disconnect => exact hshut rfl rfl h.disconnect
  | send name opts =>
      obtain ⟨c,iv,l,-,he⟩ := send_shape cfg.node s name opts
      rw [he]
      exact hquiet rfl rfl
  | request name opts token =>
      obtain ⟨pending,timers,c,iv,l,r,-,-,-,he⟩ := request_shape cfg.node s name opts token
      rw [he]
      exact hquiet rfl rfl
  | requestTimeout _ => exact hquiet rfl rfl

/-- What a session has received before it is given anything. -/
theorem started_received (cfg : Config) : Received (started cfg) []
    ((runHandshake cfg.node cfg.serverPrivKeyPem cfg.draws).burst.1.map Effect.item) := by
  unfold started Session.run
  exact continueHandshake_received (l := []) (fun _ _ h => by cases h) rfl rfl rfl _

end Receiving
end SparkProtocol.Sessions
