import SparkProtocol.CryptoWorker
import SparkProtocol.LabelledRuns

/-!
# The worker pool

The pool keeps a stack of idle workers, a queue of messages and a map from message
ids to the promises of their callers. A worker thread has the inbox of messages
posted to it; it answers the first of them, and the listener of the pool runs on
the answer. A thread may fail: it raises `error` and never answers again. Promises
are known by the number of the call that made them.

The trace records the messages posted, the promises settled and the errors raised.
-/
namespace SparkProtocol.CryptoPools
open ByteStrings HostValues OrderedMaps LabelledRuns

structure Thread (K : Type) where
  inbox : List Message := []
  caches : Caches K := {}
  alive : Bool := true

/-- The `resolve` and `reject` of one call, and the wrapper that awaits it. -/
structure Deferred where
  promise : ℕ
  task : Task
  deriving DecidableEq, Repr

inductive PoolOut where
  | posted (worker : ℕ) (id : ℕ)
  | resolve (promise : ℕ) (v : Value)
  | reject (promise : ℕ) (e : JsError)
  | error (worker : ℕ) (err : JsError)
  deriving DecidableEq

structure Pool (K : Type) where
  threads : List (Thread K) := []
  workers : List ℕ := []
  idle : List ℕ := []
  queue : List Message := []
  nextId : ℕ := 1
  pending : OrderedMap ℕ Deferred := .empty
  closed : Bool := false
  /-- `close()` waits for the threads to end. -/
  terminating : Bool := false
  submitted : List Task := []
  trace : List PoolOut := []

structure CryptoPoolStats where
  workers : ℕ
  idle : ℕ
  queued : ℕ
  inflight : ℕ
  deriving DecidableEq

namespace Pool
variable {K : Type}

def log (s : Pool K) (o : PoolOut) : Pool K := { s with trace := s.trace++[o] }

def spawn (s : Pool K) : Pool K :=
  { s with
    threads := s.threads++[{}]
    workers := s.workers++[s.threads.length]
    idle := s.idle++[s.threads.length] }

/-- The constructor. -/
def start : ℕ → Pool K
  | 0 => {}
  | size+1 => (start size).spawn

def postMessage (s : Pool K) (w : ℕ) (msg : Message) : Pool K :=
  match s.threads[w]? with
  | some th =>
      { s with threads := s.threads.set w { th with inbox := th.inbox++[msg] } }.log (.posted w msg.id)
  | none => s

def release (s : Pool K) (w : ℕ) : Pool K :=
  match s.queue with
  | next::queue => { s with queue }.postMessage w next
  | [] => { s with idle := s.idle++[w] }

/-- An empty error text is falsy, and the listener then throws on the missing result:
the promise is left and the worker is not released. -/
def onMessage (s : Pool K) (w : ℕ) (msg : Reply) : Pool K :=
  match s.pending.get msg.id with
  | none => s
  | some d =>
      let s := { s with pending := s.pending.delete msg.id }
      match msg.outcome with
      | .error error =>
          if error = "" then s else (s.log (.reject d.promise { message := error })).release w
      | .ok result => (s.log (.resolve d.promise (d.task.returned result))).release w

def dispatch (s : Pool K) (t : Task) : Pool K :=
  let promise := s.submitted.length
  let s := { s with submitted := s.submitted++[t] }
  if s.closed then s.log (.reject promise { message := "CryptoPool is closed" })
  else
    let msg : Message := ⟨s.nextId,t⟩
    let s := { s with nextId := s.nextId+1, pending := s.pending.set msg.id ⟨promise,t⟩ }
    match s.idle.getLast? with
    | some w => { s with idle := s.idle.dropLast }.postMessage w msg
    | none => { s with queue := s.queue++[msg] }

def stats (s : Pool K) : CryptoPoolStats :=
  { workers := s.workers.length, idle := s.idle.length, queued := s.queue.length,
    inflight := s.pending.entries.length }

/-- `close()` up to its await. -/
def close (s : Pool K) : Pool K :=
  if s.closed then s
  else { s with closed := true, terminating := true, workers := [], idle := [], queue := [] }

/-- And after it. -/
def terminated (s : Pool K) : Pool K :=
  { s with
    terminating := false
    threads := s.threads.map fun th => { th with alive := false }
    trace := s.trace++s.pending.values.map fun d => .reject d.promise { message := "CryptoPool closed" }
    pending := .empty }

section Forms
variable {s : Pool K} {w : ℕ} {idle : List ℕ} {th : Thread K} {next : Message} {queue : List Message}

theorem dispatch_posted (hopen : s.closed = false) (hidle : s.idle = idle++[w])
    (hth : s.threads[w]? = some th) (t : Task) : s.dispatch t =
      { s with submitted := s.submitted++[t], nextId := s.nextId+1,
               pending := s.pending.set s.nextId ⟨s.submitted.length,t⟩, idle := idle,
               threads := s.threads.set w { th with inbox := th.inbox++[⟨s.nextId,t⟩] },
               trace := s.trace++[.posted w s.nextId] } := by
  simp [dispatch,hopen,hidle,postMessage,hth,log]

theorem dispatch_queued (hopen : s.closed = false) (hidle : s.idle = []) (t : Task) :
    s.dispatch t =
      { s with submitted := s.submitted++[t], nextId := s.nextId+1,
               pending := s.pending.set s.nextId ⟨s.submitted.length,t⟩,
               queue := s.queue++[⟨s.nextId,t⟩] } := by
  simp [dispatch,hopen,hidle]

theorem release_idle (hq : s.queue = []) (w : ℕ) :
    s.release w = { s with idle := s.idle++[w] } := by
  simp [release,hq]

theorem release_posted (hq : s.queue = next::queue) (hth : s.threads[w]? = some th) :
    s.release w =
      { s with queue := queue, threads := s.threads.set w { th with inbox := th.inbox++[next] },
               trace := s.trace++[.posted w next.id] } := by
  simp [release,hq,postMessage,hth,log]

end Forms
end Pool

open Pool

inductive PoolEvent where
  | submit (t : Task)
  /-- Worker `w` has done the first task of its inbox, and the pool hears of it. -/
  | reply (w : ℕ)
  | failure (w : ℕ) (err : JsError)
  | close
  | terminated

/-- The thread that can act in the event, if it lives. -/
def Pool.thread {K : Type} (s : Pool K) (w : ℕ) : Option (Thread K) :=
  (s.threads[w]?).filter fun th => th.alive

def poolStep {K : Type} (host : HostRsa K) (s : Pool K) : PoolEvent → Option (Pool K)
  | .submit t => some (s.dispatch t)
  | .reply w =>
      match s.thread w with
      | some ⟨msg::inbox,caches,alive⟩ =>
          let (r,caches) := onTask host caches msg
          some ({ s with threads := s.threads.set w ⟨inbox,caches,alive⟩ }.onMessage w r)
      | _ => none
  | .failure w err =>
      match s.thread w with
      | some th => some ({ s with threads := s.threads.set w { th with alive := false } }.log (.error w err))
      | none => none
  | .close => some s.close
  | .terminated => if s.terminating then some s.terminated else none

/-- A step of the pool, by its event and by what the worker holds. -/
inductive PoolMoves {K : Type} (host : HostRsa K) (s : Pool K) : PoolEvent → Pool K → Prop
  | submit (task : Task) : PoolMoves host s (.submit task) (s.dispatch task)
  | reply {w : ℕ} {msg : Message} {inbox : List Message} {caches : Caches K} {alive : Bool} :
      s.thread w = some ⟨msg::inbox,caches,alive⟩ → PoolMoves host s (.reply w)
        ({ s with threads := s.threads.set w ⟨inbox,(onTask host caches msg).2,alive⟩ }.onMessage w
          (onTask host caches msg).1)
  | failure {w : ℕ} {th : Thread K} (err : JsError) : s.thread w = some th →
      PoolMoves host s (.failure w err)
        ({ s with threads := s.threads.set w { th with alive := false } }.log (.error w err))
  | close : PoolMoves host s .close s.close
  | terminated : s.terminating = true → PoolMoves host s .terminated s.terminated

theorem poolStep_cases {K : Type} {host : HostRsa K} {s t : Pool K} {e : PoolEvent}
    (h : poolStep host s e = some t) : PoolMoves host s e t := by
  cases e with
  | submit task => exact Option.some.inj h ▸ .submit task
  | reply w =>
      dsimp only [poolStep] at h
      split at h
      · next hth => exact Option.some.inj h ▸ .reply hth
      · cases h
  | failure w err =>
      dsimp only [poolStep] at h
      split at h
      · next hth => exact Option.some.inj h ▸ .failure err hth
      · cases h
  | close => exact Option.some.inj h ▸ .close
  | terminated =>
      dsimp only [poolStep] at h
      split at h
      · next hterm => exact Option.some.inj h ▸ .terminated hterm
      · cases h

end SparkProtocol.CryptoPools
