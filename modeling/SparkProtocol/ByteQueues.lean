import SparkProtocol.HostValues

/-!
# The inbound byte queue

Readers wait in the order in which they asked. One drain loop serves the first
waiter while enough bytes are buffered; on a closed queue a waiter which asks
for more than is buffered is rejected and takes nothing. Bytes leave the buffer
when a read settles, not when its reader resumes. A tag stands for the promise
of each read.
-/
namespace SparkProtocol.ByteQueues
open ByteStrings HostValues

structure Waiter (ρ : Type) where
  tag : ρ
  want : ℕ
  deriving DecidableEq

structure ByteQueue (ρ : Type) where
  buf : Bytes := []
  waiters : List (Waiter ρ) := []
  closed : Bool := false
  deriving DecidableEq

structure Settlement (ρ : Type) where
  tag : ρ
  outcome : Except JsError Bytes

def socketClosed : JsError := { message := "socket closed" }

variable {ρ : Type}

/-- The loop of `_drain`: what is left of the buffer and of the waiters, and the
promises settled on the way. -/
def drainLoop (closed : Bool) : Bytes → List (Waiter ρ) →
    (Bytes × List (Waiter ρ)) × List (Settlement ρ)
  | buf,[] => ((buf,[]),[])
  | buf,w::ws =>
      if w.want ≤ buf.length then
        let r := drainLoop closed (buf.drop w.want) ws
        (r.1,⟨w.tag,.ok (buf.take w.want)⟩::r.2)
      else if closed then
        let r := drainLoop closed buf ws
        (r.1,⟨w.tag,.error socketClosed⟩::r.2)
      else ((buf,w::ws),[])

namespace ByteQueue

def drain (q : ByteQueue ρ) : ByteQueue ρ × List (Settlement ρ) :=
  let r := drainLoop q.closed q.buf q.waiters
  ({ q with buf := r.1.1, waiters := r.1.2 },r.2)

def push (q : ByteQueue ρ) (b : Bytes) : ByteQueue ρ × List (Settlement ρ) :=
  drain { q with buf := q.buf++b }

def close (q : ByteQueue ρ) : ByteQueue ρ × List (Settlement ρ) :=
  drain { q with closed := true }

def read (q : ByteQueue ρ) (tag : ρ) (n : ℕ) : ByteQueue ρ × List (Settlement ρ) :=
  drain { q with waiters := q.waiters++[⟨tag,n⟩] }

end ByteQueue
end SparkProtocol.ByteQueues
