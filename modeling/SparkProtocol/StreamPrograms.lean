import SparkProtocol.ByteStrings
import Mathlib.Logic.Function.Basic

/-!
# Sequential programs over a byte stream

A program reads exact byte counts, writes bytes, leaves notes and makes calls
whose answers come from outside. Reads and calls suspend it; notes and writes do
not. A read may be refused, and the refusal is handed to the continuation, so a
program is free to catch it. Everything between two suspensions is one burst.

`Runs` lists what a program did and was told up to some point, suspended points
included. `Keeps Q W R` is the corresponding program logic: whatever the answers
were, every partial history satisfies `Q`, or `W` where the program waits, and
every finished one satisfies `R`.
-/
namespace SparkProtocol.StreamPrograms
open ByteStrings

inductive Program (N C : Type) (A : C → Type) (ε α : Type) where
  | done (a : α)
  | fail (e : ε)
  | note (x : N) (k : Program N C A ε α)
  | write (b : Bytes) (k : Program N C A ε α)
  | read (n : ℕ) (k : Except ε Bytes → Program N C A ε α)
  | call (c : C) (k : A c → Program N C A ε α)

/-- What happened at one node, with the answer the environment gave there. -/
inductive Item (N C : Type) (A : C → Type) (ε : Type) where
  | note (x : N)
  | write (b : Bytes)
  | read (n : ℕ) (r : Except ε Bytes)
  | call (c : C) (a : A c)

/-- What a program does without waiting. -/
inductive Effect (N : Type) where
  | note (x : N)
  | write (b : Bytes)
  deriving DecidableEq

variable {N C : Type} {A : C → Type} {ε α β : Type}

namespace Program

def bind (p : Program N C A ε α) (f : α → Program N C A ε β) : Program N C A ε β :=
  match p with
  | .done a => f a
  | .fail e => .fail e
  | .note x k => .note x (k.bind f)
  | .write b k => .write b (k.bind f)
  | .read n k => .read n fun r => (k r).bind f
  | .call c k => .call c fun a => (k a).bind f

def handle (p : Program N C A ε α) (f : ε → Program N C A ε α) : Program N C A ε α :=
  match p with
  | .done a => .done a
  | .fail e => f e
  | .note x k => .note x (k.handle f)
  | .write b k => .write b (k.handle f)
  | .read n k => .read n fun r => (k r).handle f
  | .call c k => .call c fun a => (k a).handle f

instance : Monad (Program N C A ε) where
  pure := .done
  bind := bind

instance : MonadExceptOf ε (Program N C A ε) where
  throw := .fail
  tryCatch := handle

@[simp] theorem pure_eq (a : α) : (pure a : Program N C A ε α) = .done a := rfl
@[simp] theorem throw_eq (e : ε) : (throw e : Program N C A ε α) = .fail e := rfl
@[simp] theorem bind_done (a : α) (f : α → Program N C A ε β) : (done a >>= f) = f a := rfl
@[simp] theorem bind_fail (e : ε) (f : α → Program N C A ε β) : (fail e >>= f) = .fail e := rfl
@[simp] theorem bind_note (x : N) (k : Program N C A ε α) (f : α → Program N C A ε β) :
    (note x k >>= f) = .note x (k >>= f) := rfl
@[simp] theorem bind_write (b : Bytes) (k : Program N C A ε α) (f : α → Program N C A ε β) :
    (write b k >>= f) = .write b (k >>= f) := rfl
@[simp] theorem bind_read (n : ℕ) (k : Except ε Bytes → Program N C A ε α)
    (f : α → Program N C A ε β) : (read n k >>= f) = .read n fun r => k r >>= f := rfl
@[simp] theorem bind_call (c : C) (k : A c → Program N C A ε α)
    (f : α → Program N C A ε β) : (call c k >>= f) = .call c fun a => k a >>= f := rfl

@[simp] theorem handle_done (a : α) (f : ε → Program N C A ε α) :
    tryCatch (done a : Program N C A ε α) f = .done a := rfl
@[simp] theorem handle_fail (e : ε) (f : ε → Program N C A ε α) :
    tryCatch (fail e : Program N C A ε α) f = f e := rfl
@[simp] theorem handle_call (c : C) (k : A c → Program N C A ε α) (f : ε → Program N C A ε α) :
    tryCatch (call c k) f = .call c fun a => tryCatch (k a) f := rfl

/-- `await` of a promise: a value goes on, a rejection is thrown. -/
def settled : Except ε α → Program N C A ε α
  | .ok a => .done a
  | .error e => .fail e

@[simp] theorem settled_ok (a : α) : (settled (.ok a) : Program N C A ε α) = .done a := rfl
@[simp] theorem settled_error (e : ε) : (settled (.error e) : Program N C A ε α) = .fail e := rfl

def readBytes (n : ℕ) : Program N C A ε Bytes := .read n settled

def leave (x : N) : Program N C A ε Unit := .note x (.done ())

def send (b : Bytes) : Program N C A ε Unit := .write b (.done ())

/-- The effects up to the next suspension, and the program suspended there. -/
def burst : Program N C A ε α → List (Effect N) × Program N C A ε α
  | .note x k => (.note x::k.burst.1,k.burst.2)
  | .write b k => (.write b::k.burst.1,k.burst.2)
  | p => ([],p)

@[simp] theorem burst_note (x : N) (k : Program N C A ε α) :
    (note x k).burst = (.note x::k.burst.1,k.burst.2) := rfl
@[simp] theorem burst_write (b : Bytes) (k : Program N C A ε α) :
    (write b k).burst = (.write b::k.burst.1,k.burst.2) := rfl
@[simp] theorem burst_done (a : α) : (done a : Program N C A ε α).burst = ([],.done a) := rfl
@[simp] theorem burst_fail (e : ε) : (fail e : Program N C A ε α).burst = ([],.fail e) := rfl
@[simp] theorem burst_read (n : ℕ) (k : Except ε Bytes → Program N C A ε α) :
    (read n k).burst = ([],.read n k) := rfl
@[simp] theorem burst_call (c : C) (k : A c → Program N C A ε α) :
    (call c k).burst = ([],.call c k) := rfl

/-- The value or error of a program that neither waits nor has effects left. -/
def outcome : Program N C A ε α → Option (Except ε α)
  | .done a => some (.ok a)
  | .fail e => some (.error e)
  | _ => none

end Program

open Program

/-- The run relation: the items so far, and the program still to be run. -/
inductive Runs : Program N C A ε α → List (Item N C A ε) → Program N C A ε α → Prop
  | here (p : Program N C A ε α) : Runs p [] p
  | note {x : N} {k q : Program N C A ε α} {t : List (Item N C A ε)} :
      Runs k t q → Runs (.note x k) (.note x::t) q
  | write {b : Bytes} {k q : Program N C A ε α} {t : List (Item N C A ε)} :
      Runs k t q → Runs (.write b k) (.write b::t) q
  | read {n : ℕ} {k : Except ε Bytes → Program N C A ε α} {q : Program N C A ε α}
      {t : List (Item N C A ε)} (r : Except ε Bytes) :
      Runs (k r) t q → Runs (.read n k) (.read n r::t) q
  | call {c : C} {k : A c → Program N C A ε α} {q : Program N C A ε α}
      {t : List (Item N C A ε)} (a : A c) :
      Runs (k a) t q → Runs (.call c k) (.call c a::t) q

theorem Runs.append {p q r : Program N C A ε α} {s t : List (Item N C A ε)}
    (h : Runs p s q) (k : Runs q t r) : Runs p (s++t) r := by
  induction h with
  | here p => exact k
  | note _ ih => exact .note (ih k)
  | write _ ih => exact .write (ih k)
  | read r _ ih => exact .read r (ih k)
  | call a _ ih => exact .call a (ih k)

def Effect.item : Effect N → Item N C A ε
  | .note x => .note x
  | .write b => .write b

/-- A burst is part of every run. -/
theorem runs_burst (p : Program N C A ε α) : Runs p (p.burst.1.map Effect.item) p.burst.2 := by
  induction p with
  | done a => exact .here _
  | fail e => exact .here _
  | note x k ih => exact .note ih
  | write b k ih => exact .write ih
  | read n k => exact .here _
  | call c k => exact .here _

/-- A finished first part, then a run of what it hands its value to. -/
theorem Runs.bind {p : Program N C A ε α} {f : α → Program N C A ε β} {q : Program N C A ε β}
    {a : α} {s t : List (Item N C A ε)} (h : Runs p s (.done a)) (k : Runs (f a) t q) :
    Runs (p >>= f) (s++t) q := by
  generalize hd : (.done a : Program N C A ε α) = d at h
  induction h with
  | here p =>
      subst hd
      exact k
  | note _ ih => exact .note (ih hd)
  | write _ ih => exact .write (ih hd)
  | read r _ ih => exact .read r (ih hd)
  | call a _ ih => exact .call a (ih hd)

/-- The byte strings written, one for each write, in order. -/
def written : List (Item N C A ε) → List Bytes
  | [] => []
  | .write b::t => b::written t
  | _::t => written t

theorem written_append (s t : List (Item N C A ε)) : written (s++t) = written s++written t := by
  induction s with
  | nil => rfl
  | cons i s ih => cases i <;> simp [written,ih]

/-- Nothing happens after the end. -/
theorem Runs.ended {p q : Program N C A ε α} {t : List (Item N C A ε)} {r : Except ε α}
    (h : Runs p t q) (hp : p.outcome = some r) : t = [] ∧ q = p := by
  cases h with
  | here p => exact ⟨rfl,rfl⟩
  | note h => cases hp
  | write h => cases hp
  | read r h => cases hp
  | call a h => cases hp

/-- The program is suspended here. -/
def Program.Waits : Program N C A ε α → Prop
  | .read _ _ => True
  | .call _ _ => True
  | _ => False

theorem burst_settles (p : Program N C A ε α) :
    p.burst.2.Waits ∨ ∃ r, p.burst.2.outcome = some r := by
  induction p with
  | done a => exact .inr ⟨_,rfl⟩
  | fail e => exact .inr ⟨_,rfl⟩
  | note x k ih => exact ih
  | write b k ih => exact ih
  | read n k => exact .inl trivial
  | call c k => exact .inl trivial

/-- A run to the end begins with the burst. -/
theorem Runs.after_burst {p : Program N C A ε α} {t : List (Item N C A ε)} {a : α}
    (h : Runs p t (.done a)) :
    ∃ u, t = p.burst.1.map Effect.item++u ∧ Runs p.burst.2 u (.done a) := by
  induction p generalizing t with
  | note x k ih =>
      cases h with
      | note h =>
          obtain ⟨u,rfl,hu⟩ := ih h
          exact ⟨u,rfl,hu⟩
  | write b k ih =>
      cases h with
      | write h =>
          obtain ⟨u,rfl,hu⟩ := ih h
          exact ⟨u,rfl,hu⟩
  | done a => exact ⟨t,rfl,h⟩
  | fail e => exact ⟨t,rfl,h⟩
  | read n k => exact ⟨t,rfl,h⟩
  | call c k => exact ⟨t,rfl,h⟩

theorem outcome_ok {p : Program N C A ε α} {a : α} (h : p.outcome = some (.ok a)) : p = .done a := by
  cases p with
  | done b => cases h; rfl
  | _ => cases h

theorem outcome_error {p : Program N C A ε α} {e : ε} (h : p.outcome = some (.error e)) :
    p = .fail e := by
  cases p with
  | fail e => cases h; rfl
  | _ => cases h

/-- From the history `t` on, `Q` holds between effects, `W` wherever the program
waits, and `R` at its end. -/
def Keeps (Q W : List (Item N C A ε) → Prop) (R : List (Item N C A ε) → Except ε α → Prop) :
    List (Item N C A ε) → Program N C A ε α → Prop
  | t,.done a => R t (.ok a)
  | t,.fail e => R t (.error e)
  | t,.note x k => Q t ∧ Keeps Q W R (t++[.note x]) k
  | t,.write b k => Q t ∧ Keeps Q W R (t++[.write b]) k
  | t,.read n k => W t ∧ ∀ r, Keeps Q W R (t++[.read n r]) (k r)
  | t,.call c k => W t ∧ ∀ a, Keeps Q W R (t++[.call c a]) (k a)

section Logic
variable {Q W : List (Item N C A ε) → Prop} {R : List (Item N C A ε) → Except ε α → Prop}

/-- What the logic says at one point of a run. -/
theorem Keeps.now {t : List (Item N C A ε)} {p : Program N C A ε α} (h : Keeps Q W R t p) :
    (p.Waits ∧ W t) ∨ (p.outcome = none ∧ ¬ p.Waits ∧ Q t) ∨ ∃ r, p.outcome = some r ∧ R t r := by
  cases p with
  | done a => exact .inr (.inr ⟨_,rfl,h⟩)
  | fail e => exact .inr (.inr ⟨_,rfl,h⟩)
  | note x k => exact .inr (.inl ⟨rfl,id,h.1⟩)
  | write b k => exact .inr (.inl ⟨rfl,id,h.1⟩)
  | read n k => exact .inl ⟨trivial,h.1⟩
  | call c k => exact .inl ⟨trivial,h.1⟩

/-- Soundness: the logic speaks about every run, finished or not. -/
theorem Keeps.sound {p q : Program N C A ε α} {s t : List (Item N C A ε)}
    (h : Keeps Q W R s p) (r : Runs p t q) : Keeps Q W R (s++t) q := by
  induction r generalizing s with
  | here p => simpa using h
  | note _ ih => simpa using ih h.2
  | write _ ih => simpa using ih h.2
  | read r _ ih => simpa using ih (h.2 r)
  | call a _ ih => simpa using ih (h.2 a)

/-- The rule for sequencing: the first part's end condition starts the second. -/
theorem Keeps.bind {R' : List (Item N C A ε) → Except ε β → Prop}
    {t : List (Item N C A ε)} {p : Program N C A ε α} {f : α → Program N C A ε β}
    (h : Keeps Q W R t p) (ok : ∀ t a, R t (.ok a) → Keeps Q W R' t (f a))
    (error : ∀ t e, R t (.error e) → R' t (.error e)) : Keeps Q W R' t (p >>= f) := by
  induction p generalizing t with
  | done a => exact ok t a h
  | fail e => exact error t e h
  | note x k ih => exact ⟨h.1,ih h.2⟩
  | write b k ih => exact ⟨h.1,ih h.2⟩
  | read n k ih => exact ⟨h.1,fun r => ih r (h.2 r)⟩
  | call c k ih => exact ⟨h.1,fun a => ih a (h.2 a)⟩

end Logic

section Feeding

/-- With every call answered by a fixed function, a program consumes one byte stream:
it runs until it ends or waits for more bytes than are left. -/
structure Fed (N C : Type) (A : C → Type) (ε α : Type) where
  trace : List (Item N C A ε)
  rest : Bytes
  program : Program N C A ε α

def Fed.after (i : Item N C A ε) (f : Fed N C A ε α) : Fed N C A ε α := { f with trace := i::f.trace }

variable (answer : (c : C) → A c)

def feed : Program N C A ε α → Bytes → Fed N C A ε α
  | .done a,b => ⟨[],b,.done a⟩
  | .fail e,b => ⟨[],b,.fail e⟩
  | .note x k,b => (feed k b).after (.note x)
  | .write w k,b => (feed k b).after (.write w)
  | .call c k,b => (feed (k (answer c)) b).after (.call c (answer c))
  | .read n k,b =>
      if n ≤ b.length then (feed (k (.ok (b.take n))) (b.drop n)).after (.read n (.ok (b.take n)))
      else ⟨[],b,.read n k⟩

variable {answer}

theorem feed_runs (p : Program N C A ε α) (b : Bytes) :
    Runs p (feed answer p b).trace (feed answer p b).program := by
  induction p generalizing b with
  | done a => exact .here _
  | fail e => exact .here _
  | note x k ih => exact .note (ih b)
  | write w k ih => exact .write (ih b)
  | call c k ih => exact .call _ (ih _ b)
  | read n k ih =>
      unfold feed
      split
      · exact .read _ (ih _ _)
      · exact .here _

end Feeding
end SparkProtocol.StreamPrograms
