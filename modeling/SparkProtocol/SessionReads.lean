import SparkProtocol.SessionEffects

/-!
# The read that `run()` waits for

At most one read is under way. It is waiting in the queue, or it has settled and
`run()` has not yet taken the value up; the bytes have left the buffer in the
second case and not in the first. Seen from outside the two are one thing, a read
of `n` bytes with the input it is served from, and that input only ever grows at
its end.
-/
namespace SparkProtocol.Sessions
open ByteStrings HostValues StreamPrograms Program Handshake ByteQueues Session

/-- No read is under way. -/
structure Unreading (s : Session) (input : Bytes) : Prop where
  settled : s.settled = none
  queue : s.queue = ⟨input,[],false⟩

/-- A read of `n` bytes is under way. -/
inductive Reads (s : Session) (n : ℕ) : Bytes → Prop
  | waiting {buf : Bytes} : s.settled = none → s.queue = ⟨buf,[⟨(),n⟩],false⟩ → buf.length < n →
      Reads s n buf
  | served {b buf : Bytes} : s.settled = some (.ok b) → b.length = n → s.queue = ⟨buf,[],false⟩ →
      Reads s n (b++buf)

/-- The unread bytes, those of a settled read included. -/
def unread (s : Session) : Bytes :=
  match s.settled with
  | some (.ok b) => b++s.queue.buf
  | _ => s.queue.buf

theorem Unreading.unread {s : Session} {input : Bytes} (h : Unreading s input) : unread s = input := by
  simp [Sessions.unread,h.settled,h.queue]

theorem Reads.unread {s : Session} {n : ℕ} {input : Bytes} (h : Reads s n input) :
    unread s = input := by
  cases h with
  | waiting hs hq _ => simp [Sessions.unread,hs,hq]
  | served hs _ hq => simp [Sessions.unread,hs,hq]

/-- Only the promise and the queue matter. -/
theorem Unreading.congr {s t : Session} {input : Bytes} (h : Unreading s input)
    (hs : t.settled = s.settled) (hq : t.queue = s.queue) : Unreading t input :=
  ⟨hs.trans h.settled,hq.trans h.queue⟩

theorem Reads.congr {s t : Session} {n : ℕ} {input : Bytes} (h : Reads s n input)
    (hs : t.settled = s.settled) (hq : t.queue = s.queue) : Reads t n input := by
  cases h with
  | waiting h1 h2 h3 => exact .waiting (hs.trans h1) (hq.trans h2) h3
  | served h1 h2 h3 => exact .served (hs.trans h1) h2 (hq.trans h3)

theorem drainLoop_one (n : ℕ) (buf : Bytes) :
    drainLoop false buf [⟨(),n⟩] =
      if n ≤ buf.length then ((buf.drop n,[]),[⟨(),.ok (buf.take n)⟩]) else ((buf,[⟨(),n⟩]),[]) := by
  unfold drainLoop
  split <;> simp [drainLoop]

/-- A queue with one waiter settles it at once, or keeps it. -/
theorem reads_withQueue {s : Session} {n : ℕ} {input : Bytes} (hs : s.settled = none) :
    Reads (s.withQueue (ByteQueue.drain ⟨input,[⟨(),n⟩],false⟩)) n input := by
  by_cases h : n ≤ input.length
  · have hr : Reads (s.withQueue (ByteQueue.drain ⟨input,[⟨(),n⟩],false⟩)) n
        (input.take n++input.drop n) := by
      refine .served ?_ (List.length_take_of_le h) ?_
      · simp [withQueue,ByteQueue.drain,drainLoop_one,h]
      · simp [withQueue,ByteQueue.drain,drainLoop_one,h]
    rwa [List.take_append_drop] at hr
  · refine .waiting ?_ ?_ (by omega)
    · simp [withQueue,ByteQueue.drain,drainLoop_one,h,hs]
    · simp [withQueue,ByteQueue.drain,drainLoop_one,h]

theorem Unreading.read {s : Session} {input : Bytes} (h : Unreading s input) (n : ℕ) :
    Reads (s.withQueue (s.queue.read () n)) n input := by
  rw [h.queue]
  exact reads_withQueue h.settled

theorem Unreading.data {s : Session} {input : Bytes} (h : Unreading s input) (chunk : Bytes) :
    Unreading (s.onData chunk) (input++chunk) := by
  constructor
  · simp [onData,resetIdleTimer,withQueue,ByteQueue.push,ByteQueue.drain,h.queue,drainLoop,h.settled]
  · simp [onData,resetIdleTimer,withQueue,ByteQueue.push,ByteQueue.drain,h.queue,drainLoop]

theorem Reads.data {s : Session} {n : ℕ} {input : Bytes} (h : Reads s n input) (chunk : Bytes) :
    Reads (s.onData chunk) n (input++chunk) := by
  cases h with
  | waiting hs hq _ =>
      unfold onData
      have hpush : s.queue.push chunk = ByteQueue.drain ⟨input++chunk,[⟨(),n⟩],false⟩ := by
        rw [hq]
        rfl
      rw [hpush]
      exact reads_withQueue hs
  | @served b buf hs hb hq =>
      rw [List.append_assoc]
      refine .served ?_ hb ?_
      · simp [onData,resetIdleTimer,withQueue,ByteQueue.push,ByteQueue.drain,hq,drainLoop,hs]
      · simp [onData,resetIdleTimer,withQueue,ByteQueue.push,ByteQueue.drain,hq,drainLoop]

/-- A settled read holds the front of its input. -/
theorem Reads.take {s : Session} {n : ℕ} {input : Bytes} (h : Reads s n input)
    {r : Except JsError Bytes} (hs : s.settled = some r) :
    n ≤ input.length ∧ r = .ok (input.take n) ∧ Unreading s.taken (input.drop n) := by
  cases h with
  | waiting hn _ _ => simp [hn] at hs
  | @served b buf hb hl hq =>
      obtain rfl := Option.some.inj (hs.symm.trans hb)
      refine ⟨by simp [← hl],?_,rfl,?_⟩
      · rw [List.take_left' hl]
      · rw [List.drop_left' hl]
        exact hq

/-- A read that has not settled wants more than there is. -/
theorem Reads.blocked {s : Session} {n : ℕ} {input : Bytes} (h : Reads s n input)
    (hs : s.settled = none) : input.length < n := by
  cases h with
  | waiting _ _ hl => exact hl
  | served hb _ _ => simp [hs] at hb

/-- Between turns, or waiting for the header of a frame. -/
def AtBoundary (s : Session) (input : Bytes) : Prop :=
  (s.control = .loop ∧ Unreading s input) ∨ (s.control = .reading readFrame ∧ Reads s 3 input)

end SparkProtocol.Sessions
