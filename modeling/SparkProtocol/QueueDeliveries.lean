import SparkProtocol.ByteQueues
import SparkProtocol.LabelledRuns
import SparkProtocol.StreamPortions

/-!
# Reads at the queue

The calls of the queue do not interrupt each other, but the loop that each of them
ends with settles one promise a turn, so the queue is looked at between two turns as
well as between two calls. Beside it runs a record of what was pushed, of what was
asked for and of what has been settled. At every moment the reads that were resolved
and the buffer make up the pushed bytes, and the settled and the waiting reads make up
the issued ones. A call ends only where the oldest waiter cannot be served, so a queue
that nobody has closed hands out the portions of the pushed bytes that the sizes cut,
whatever the order of the calls.
-/
namespace SparkProtocol.ByteQueues
open ByteStrings HostValues LabelledRuns StreamPortions

/-- One turn of the loop of `_drain`, or `none` where the loop ends. -/
def ByteQueue.turn {ρ : Type} (q : ByteQueue ρ) : Option (ByteQueue ρ × Settlement ρ) :=
  match q.waiters with
  | [] => none
  | w::ws =>
      if w.want ≤ q.buf.length then
        some ({ q with buf := q.buf.drop w.want, waiters := ws },⟨w.tag,.ok (q.buf.take w.want)⟩)
      else if q.closed then some ({ q with waiters := ws },⟨w.tag,.error socketClosed⟩)
      else none

/-- The oldest waiter wants more than there is, and more may come. -/
def ByteQueue.AtRest {ρ : Type} (q : ByteQueue ρ) : Prop :=
  ∀ w ws, q.waiters = w::ws → q.closed = false ∧ q.buf.length < w.want

/-- A rejected read takes nothing. -/
def Settlement.taken {ρ : Type} (x : Settlement ρ) : Bytes := x.outcome.toOption.getD []

/-- The bytes of the reads that were resolved. -/
def resolvedBytes {ρ : Type} (l : List (Settlement ρ)) : Bytes := l.flatMap Settlement.taken

/-- The queue with its record. The number of a read stands for its promise. -/
structure Intake where
  queue : ByteQueue ℕ := {}
  /-- A call is executing. -/
  draining : Bool := false
  pushed : Bytes := []
  asked : List ℕ := []
  settled : List (Settlement ℕ) := []

inductive IntakeEvent where
  | push (b : Bytes)
  | read (n : ℕ)
  | close
  | turn

def intakeStep (s : Intake) : IntakeEvent → Option Intake
  | .push b =>
      if s.draining then none else some { s with
        queue := { s.queue with buf := s.queue.buf++b }, draining := true, pushed := s.pushed++b }
  | .read n =>
      if s.draining then none else some { s with
        queue := { s.queue with waiters := s.queue.waiters++[⟨s.asked.length,n⟩] },
        draining := true, asked := s.asked++[n] }
  | .close =>
      if s.draining then none else some { s with
        queue := { s.queue with closed := true }, draining := true }
  | .turn =>
      if s.draining then
        match s.queue.turn with
        | some (q,x) => some { s with queue := q, settled := s.settled++[x] }
        | none => some { s with draining := false }
      else none

/-- What was pushed, and what was asked for, by the calls of a run. -/
def pushes (es : List IntakeEvent) : Bytes :=
  es.flatMap fun
    | .push b => b
    | _ => []

def readSizes (es : List IntakeEvent) : List ℕ :=
  es.filterMap fun
    | .read n => some n
    | _ => none

section Turns
variable {ρ : Type} {q q' : ByteQueue ρ} {x : Settlement ρ}

/-- What a turn does: the oldest waiter gets its bytes, or it is refused. -/
inductive LoopTurn (q : ByteQueue ρ) : ByteQueue ρ → Settlement ρ → Prop
  | serve {w : Waiter ρ} {ws : List (Waiter ρ)} : q.waiters = w::ws → w.want ≤ q.buf.length →
      LoopTurn q { q with buf := q.buf.drop w.want, waiters := ws } ⟨w.tag,.ok (q.buf.take w.want)⟩
  | refuse {w : Waiter ρ} {ws : List (Waiter ρ)} : q.waiters = w::ws → q.buf.length < w.want →
      q.closed = true → LoopTurn q { q with waiters := ws } ⟨w.tag,.error socketClosed⟩

theorem turn_cases (h : q.turn = some (q',x)) : LoopTurn q q' x := by
  unfold ByteQueue.turn at h
  split at h
  · cases h
  · next w ws hw =>
      split_ifs at h with hle hc
      · obtain ⟨rfl,rfl⟩ := Prod.mk.inj (Option.some.inj h)
        exact .serve hw hle
      · obtain ⟨rfl,rfl⟩ := Prod.mk.inj (Option.some.inj h)
        exact .refuse hw (Nat.lt_of_not_le hle) hc

/-- What the turn takes from the buffer goes to the oldest waiter. -/
theorem turn_account (h : q.turn = some (q',x)) :
    ∃ w ws, q.waiters = w::ws ∧ q'.waiters = ws ∧ x.tag = w.tag ∧
      x.taken++q'.buf = q.buf ∧ ∀ b, x.outcome = .ok b → b.length = w.want := by
  cases turn_cases h with
  | @serve w ws hw hle =>
      refine ⟨w,ws,hw,rfl,rfl,List.take_append_drop w.want q.buf,fun b hb => ?_⟩
      obtain rfl := Except.ok.inj hb
      exact List.length_take_of_le hle
  | @refuse w ws hw _ _ => exact ⟨w,ws,hw,rfl,rfl,List.nil_append q.buf,fun b hb => by cases hb⟩

theorem turn_closed (h : q.turn = some (q',x)) : q'.closed = q.closed := by
  cases turn_cases h <;> rfl

theorem turn_eq_none : q.turn = none ↔ q.AtRest := by
  unfold ByteQueue.turn ByteQueue.AtRest
  cases hw : q.waiters with
  | nil => simp
  | cons w ws =>
      by_cases hle : w.want ≤ q.buf.length
      · simp [hle]
      · have hlt := Nat.lt_of_not_le hle
        cases q.closed <;> simp [hle,hlt]

/-- The loop is its turns. -/
theorem drain_turn (h : q.turn = some (q',x)) : q.drain = (q'.drain.1,x::q'.drain.2) := by
  cases turn_cases h with
  | serve hw hle => simp [ByteQueue.drain,hw,drainLoop,hle]
  | refuse hw hlt hc => simp [ByteQueue.drain,hw,drainLoop,Nat.not_le.mpr hlt,hc]

theorem drain_atRest (h : q.AtRest) : q.drain = (q,[]) := by
  obtain ⟨buf,waiters,closed⟩ := q
  cases waiters with
  | nil => rfl
  | cons w ws =>
      obtain ⟨rfl,hlt⟩ := h w ws rfl
      simp [ByteQueue.drain,drainLoop,Nat.not_le.mpr hlt]

end Turns

section Steps
variable {s t : Intake} {e : IntakeEvent}

/-- What a step does: a call begins, a turn settles a read, or the call returns. -/
inductive IntakeMoves (s : Intake) : IntakeEvent → Intake → Prop
  | push {b : Bytes} : s.draining = false → IntakeMoves s (.push b) { s with
      queue := { s.queue with buf := s.queue.buf++b }, draining := true, pushed := s.pushed++b }
  | read {n : ℕ} : s.draining = false → IntakeMoves s (.read n) { s with
      queue := { s.queue with waiters := s.queue.waiters++[⟨s.asked.length,n⟩] },
      draining := true, asked := s.asked++[n] }
  | close : s.draining = false → IntakeMoves s .close { s with
      queue := { s.queue with closed := true }, draining := true }
  | turn {q : ByteQueue ℕ} {x : Settlement ℕ} : s.draining = true → s.queue.turn = some (q,x) →
      IntakeMoves s .turn { s with queue := q, settled := s.settled++[x] }
  | returns : s.draining = true → s.queue.AtRest → IntakeMoves s .turn { s with draining := false }

theorem intakeStep_cases (h : intakeStep s e = some t) : IntakeMoves s e t := by
  cases e with
  | push b =>
      simp only [intakeStep] at h
      split_ifs at h with hd
      obtain rfl := Option.some.inj h
      exact .push (by simpa using hd)
  | read n =>
      simp only [intakeStep] at h
      split_ifs at h with hd
      obtain rfl := Option.some.inj h
      exact .read (by simpa using hd)
  | close =>
      simp only [intakeStep] at h
      split_ifs at h with hd
      obtain rfl := Option.some.inj h
      exact .close (by simpa using hd)
  | turn =>
      simp only [intakeStep] at h
      split_ifs at h with hd
      split at h
      · next hturn =>
          obtain rfl := Option.some.inj h
          exact .turn hd hturn
      · next hturn =>
          obtain rfl := Option.some.inj h
          exact .returns hd (turn_eq_none.mp hturn)

end Steps

/-- The books of the queue at any moment. -/
structure Accounted (s : Intake) : Prop where
  /-- No byte is lost, doubled or out of its place. -/
  bytes : resolvedBytes s.settled++s.queue.buf = s.pushed
  /-- Every read is settled once, in its turn, or waits in its turn. -/
  reads : s.settled.map Settlement.tag++s.queue.waiters.map Waiter.tag =
    List.range s.asked.length
  lengths : ∀ i b, ⟨i,.ok b⟩ ∈ s.settled → s.asked[i]? = some b.length
  wants : ∀ w ∈ s.queue.waiters, s.asked[w.tag]? = some w.want
  rest : s.draining = false → s.queue.AtRest

section Books
variable {ρ : Type} {s t : Intake} {e : IntakeEvent}

theorem resolvedBytes_concat (l : List (Settlement ρ)) (x : Settlement ρ) :
    resolvedBytes (l++[x]) = resolvedBytes l++x.taken := by
  simp [resolvedBytes]

theorem accounted_start : Accounted {} :=
  ⟨rfl,rfl,by simp,by simp,fun _ _ _ h => by cases h⟩

theorem accounted_keeps (h : Accounted s) (ht : intakeStep s e = some t) : Accounted t := by
  cases intakeStep_cases ht with
  | push _ =>
      refine ⟨?_,h.reads,h.lengths,h.wants,fun hidle => by cases hidle⟩
      dsimp only
      rw [← List.append_assoc,h.bytes]
  | @read n _ =>
      refine ⟨h.bytes,?_,fun i b hi => getElem?_concat_some (h.lengths i b hi) n,?_,
        fun hidle => by cases hidle⟩
      · dsimp only
        rw [List.map_append,List.length_append,List.length_singleton,List.range_succ,← h.reads,
          List.append_assoc]
        rfl
      · intro w hw
        rcases List.mem_append.mp hw with hw | hw
        · exact getElem?_concat_some (h.wants w hw) n
        · obtain rfl := List.mem_singleton.mp hw
          exact List.getElem?_concat_length
  | close _ => exact ⟨h.bytes,h.reads,h.lengths,h.wants,fun hidle => by cases hidle⟩
  | returns _ hrest => exact ⟨h.bytes,h.reads,h.lengths,h.wants,fun _ => hrest⟩
  | turn hd hturn =>
      obtain ⟨w,ws,hw,rfl,htag,hbytes,hlength⟩ := turn_account hturn
      have hreads := h.reads
      have hwants := h.wants
      rw [hw] at hreads hwants
      refine ⟨?_,?_,?_,fun v hv => hwants v (List.mem_cons_of_mem w hv),fun hidle => ?_⟩
      · dsimp only
        rw [resolvedBytes_concat,List.append_assoc,hbytes,h.bytes]
      · dsimp only
        rw [← hreads,List.map_append,List.append_assoc,List.map_singleton,htag]
        rfl
      · intro i b hi
        rcases List.mem_append.mp hi with hi | hi
        · exact h.lengths i b hi
        · obtain rfl := List.mem_singleton.mp hi
          obtain rfl : i = w.tag := htag
          rw [hlength b rfl]
          exact hwants w List.mem_cons_self
      · rw [show s.draining = false from hidle] at hd
        cases hd

/-- The record is that of the calls. -/
theorem intake_recorded {es : List IntakeEvent} (h : Run intakeStep s es t) :
    t.pushed = s.pushed++pushes es ∧ t.asked = s.asked++readSizes es ∧
      (t.queue.closed = true ↔ s.queue.closed = true ∨ .close ∈ es) := by
  induction h with
  | nil s => simp [pushes,readSizes]
  | @cons s t u e es hstep _ ih =>
      obtain ⟨hpushed,hasked,hclosed⟩ := ih
      rw [hpushed,hasked,hclosed]
      cases intakeStep_cases hstep with
      | push _ => simp [pushes,readSizes]
      | read _ => simp [pushes,readSizes]
      | close _ => simp [pushes,readSizes]
      | returns _ _ => simp [pushes,readSizes]
      | turn _ hturn => simp [pushes,readSizes,turn_closed hturn]

/-- The turns of a call are its drain. -/
theorem drain_runs (s : Intake) (hd : s.draining = true) :
    Run intakeStep s (List.replicate (s.queue.drain.2.length+1) .turn) { s with
      queue := s.queue.drain.1, draining := false, settled := s.settled++s.queue.drain.2 } := by
  -- each turn but the last settles the oldest waiter
  induction hws : s.queue.waiters generalizing s with
  | nil =>
      have hrest : s.queue.AtRest := fun w ws hw => by cases hws.symm.trans hw
      rw [drain_atRest hrest,List.append_nil]
      refine .cons ?_ (.nil _)
      simp only [intakeStep,hd,if_true,turn_eq_none.mpr hrest]
  | cons w ws ih =>
      cases hturn : s.queue.turn with
      | none =>
          have hrest := turn_eq_none.mp hturn
          rw [drain_atRest hrest,List.append_nil]
          refine .cons ?_ (.nil _)
          simp only [intakeStep,hd,if_true,hturn]
      | some p =>
          obtain ⟨q,x⟩ := p
          obtain ⟨w',ws',hw,hrest,-⟩ := turn_account hturn
          obtain ⟨rfl,rfl⟩ := List.cons.inj (hws.symm.trans hw)
          have hnext := ih { s with queue := q, settled := s.settled++[x] } hd hrest
          rw [drain_turn hturn]
          refine .cons ?_ (by simpa using hnext)
          simp only [intakeStep,hd,if_true,hturn]

/-- The function of the queue that a call is. -/
def call (s : Intake) : IntakeEvent → ByteQueue ℕ × List (Settlement ℕ)
  | .push b => s.queue.push b
  | .read n => s.queue.read s.asked.length n
  | .close => s.queue.close
  | .turn => (s.queue,[])

theorem call_runs (hd : s.draining = false) (he : e ≠ .turn) :
    ∃ t, Run intakeStep s (e::List.replicate ((call s e).2.length+1) .turn) t ∧
      t.draining = false ∧ t.queue = (call s e).1 ∧ t.settled = s.settled++(call s e).2 := by
  have hbegin : ∃ t, intakeStep s e = some t ∧ t.draining = true ∧ t.queue.drain = call s e ∧
      t.settled = s.settled := by
    cases e with
    | push b => exact ⟨_,if_neg (ne_true_of_eq_false hd),rfl,rfl,rfl⟩
    | read n => exact ⟨_,if_neg (ne_true_of_eq_false hd),rfl,rfl,rfl⟩
    | close => exact ⟨_,if_neg (ne_true_of_eq_false hd),rfl,rfl,rfl⟩
    | turn => exact absurd rfl he
  obtain ⟨t,hstep,hdt,hcall,hsettled⟩ := hbegin
  have hrun := drain_runs t hdt
  rw [hcall,hsettled] at hrun
  exact ⟨_,.cons hstep hrun,rfl,rfl,rfl⟩

/-- How a read is settled: it takes its bytes off the front of the buffer, or it is
rejected by a closed queue with too few of them and takes nothing. -/
inductive Granted (s t : Intake) (x : Settlement ℕ) : Prop
  | resolved {n : ℕ} {b : Bytes} : s.asked[x.tag]? = some n → x.outcome = .ok b → b.length = n →
      b++t.queue.buf = s.queue.buf → Granted s t x
  | rejected {n : ℕ} : s.asked[x.tag]? = some n → x.outcome = .error socketClosed →
      s.queue.closed = true → s.queue.buf.length < n → t.queue.buf = s.queue.buf → Granted s t x

/-- A step settles one read or none. -/
theorem step_granted (h : Accounted s) (ht : intakeStep s e = some t) :
    t.settled = s.settled ∨ ∃ x, t.settled = s.settled++[x] ∧ Granted s t x := by
  cases intakeStep_cases ht with
  | @turn q x _ hturn =>
      refine .inr ⟨x,rfl,?_⟩
      cases turn_cases hturn with
      | @serve w ws hw hle =>
          have hwant := h.wants w (hw ▸ List.mem_cons_self)
          exact .resolved hwant rfl (List.length_take_of_le hle) (List.take_append_drop _ _)
      | @refuse w ws hw hlt hc =>
          have hwant := h.wants w (hw ▸ List.mem_cons_self)
          exact .rejected hwant rfl hc hlt rfl
  | _ => exact .inl rfl

/-- A queue that is not closed has rejected nothing. -/
def NoneRejected (s : Intake) : Prop :=
  s.queue.closed = false → ∀ x ∈ s.settled, x.outcome = .ok x.taken

theorem noneRejected_keeps (h : NoneRejected s) (ht : intakeStep s e = some t) :
    NoneRejected t := by
  cases intakeStep_cases ht with
  | push _ => exact h
  | read _ => exact h
  | close _ => exact fun hclosed => by cases hclosed
  | returns _ _ => exact h
  | @turn q x _ hturn =>
      intro hopen y hy
      rcases List.mem_append.mp hy with hy | hy
      · exact h ((turn_closed hturn).symm.trans hopen) y hy
      · obtain rfl := List.mem_singleton.mp hy
        cases turn_cases hturn with
        | serve _ _ => rfl
        | refuse _ _ hc => cases hc.symm.trans hopen

theorem range_split {l m : List ℕ} {n : ℕ} (h : l++m = List.range n) :
    l = List.range l.length ∧ m = (List.range m.length).map (l.length+·) := by
  have hlength := congrArg List.length h
  rw [List.length_append,List.length_range] at hlength
  rw [← hlength,List.range_add] at h
  exact List.append_inj h (by simp)

/-- The read after the settled ones is the oldest waiter. -/
theorem waiting_next (h : Accounted s) {n : ℕ} (hn : s.asked[s.settled.length]? = some n) :
    ∃ w ws, s.queue.waiters = w::ws ∧ w.want = n := by
  have hwait := (range_split h.reads).2
  cases hw : s.queue.waiters with
  | nil =>
      have hlength := congrArg List.length h.reads
      have hlt := (List.getElem?_eq_some_iff.mp hn).choose
      simp only [hw,List.length_append,List.length_map,List.length_range,List.length_nil] at hlength
      omega
  | cons w ws =>
      rw [hw,List.map_cons,List.length_cons,List.range_succ_eq_map,List.map_cons] at hwait
      have htag : w.tag = s.settled.length := by simpa using (List.cons.inj hwait).1
      refine ⟨w,ws,rfl,?_⟩
      have hwant := h.wants w (hw ▸ List.mem_cons_self)
      rw [htag,hn] at hwant
      exact (Option.some.inj hwant).symm

theorem settled_sizes (h : Accounted s) (hok : ∀ x ∈ s.settled, x.outcome = .ok x.taken) :
    (s.settled.map Settlement.taken).map List.length = s.asked.take s.settled.length := by
  have htags := (range_split h.reads).1
  rw [List.length_map] at htags
  apply List.ext_getElem?
  intro i
  by_cases hi : i < s.settled.length
  · have htag : s.settled[i].tag = i := by
      simpa [hi] using congrArg (fun l : List ℕ => l[i]?) htags
    have hmem := List.getElem_mem hi
    have hsize := h.lengths s.settled[i].tag s.settled[i].taken (by rwa [← hok _ hmem])
    rw [htag] at hsize
    rw [List.getElem?_take_of_lt hi,hsize]
    simp [hi]
  · rw [List.getElem?_take_eq_none (Nat.le_of_not_lt hi)]
    simpa using Nat.le_of_not_lt hi

/-- A queue at rest which has rejected nothing has cut what was pushed. -/
theorem accounted_cuts (h : Accounted s) (hok : ∀ x ∈ s.settled, x.outcome = .ok x.taken)
    (hidle : s.draining = false) :
    Cuts s.pushed s.asked (s.settled.map Settlement.taken) s.queue.buf := by
  refine ⟨?_,?_,fun n hn => ?_⟩
  · rw [← h.bytes,resolvedBytes,List.flatMap_def]
  · rw [List.length_map]
    exact settled_sizes h hok
  · rw [List.length_map] at hn
    obtain ⟨w,ws,hw,rfl⟩ := waiting_next h hn
    exact (h.rest hidle w ws hw).2

/-- What the reads of an open queue get depends on the bytes and on the sizes alone. -/
theorem open_queue_serves {es : List IntakeEvent} (h : Run intakeStep {} es s)
    (hopen : .close ∉ es) (hidle : s.draining = false) :
    s.settled.map Settlement.outcome = (portions (pushes es) (readSizes es)).map .ok := by
  have hbooks : Accounted s := h.keeps (fun _ _ _ _ => accounted_keeps) accounted_start
  have hok : NoneRejected s :=
    h.keeps (fun _ _ _ _ => noneRejected_keeps) fun _ x hx => by cases hx
  obtain ⟨hpushed,hasked,hclosed⟩ := intake_recorded h
  have hserved := hok (by simpa [hopen] using hclosed)
  have hcut := (accounted_cuts hbooks hserved hidle).eq_portions
  rw [hpushed,hasked] at hcut
  calc s.settled.map Settlement.outcome
    _ = (s.settled.map Settlement.taken).map .ok := by simpa using hserved
    _ = (portions (pushes es) (readSizes es)).map .ok := congrArg _ hcut

/-- Each byte is delivered once and in order, and each read is settled in its turn,
whatever the calls and their order. -/
theorem queue_delivers {es : List IntakeEvent} (h : Run intakeStep {} es s) :
    (s.pushed = pushes es ∧ s.asked = readSizes es ∧ (s.queue.closed = true ↔ .close ∈ es)) ∧
      Accounted s ∧
      (∀ e t, intakeStep s e = some t →
        t.settled = s.settled ∨ ∃ x, t.settled = s.settled++[x] ∧ Granted s t x) ∧
      (s.draining = true → Run intakeStep s (List.replicate (s.queue.drain.2.length+1) .turn)
        { s with
          queue := s.queue.drain.1, draining := false, settled := s.settled++s.queue.drain.2 }) ∧
      (s.draining = false → ∀ e, e ≠ .turn → ∃ t,
        Run intakeStep s (e::List.replicate ((call s e).2.length+1) .turn) t ∧
          t.draining = false ∧ t.queue = (call s e).1 ∧ t.settled = s.settled++(call s e).2) := by
  have hbooks : Accounted s := h.keeps (fun _ _ _ _ => accounted_keeps) accounted_start
  refine ⟨?_,hbooks,fun e t => step_granted hbooks,drain_runs s,fun hd e he => call_runs hd he⟩
  simpa using intake_recorded h

/-- Two reads wait, the bytes of the first arrive, and the queue is closed on the second. -/
def visit : List IntakeEvent :=
  [.read 2,.turn,.read 4,.turn,.push [1,2,3],.turn,.turn,.close,.turn,.turn,.read 1,.turn,.turn]

theorem queue_delivers_visit : ∃ s, Run intakeStep {} visit s ∧ Accounted s ∧
    s.settled.map (fun x => (x.tag,x.outcome.toOption)) =
      [(0,some [1,2]),(1,none),(2,some [3])] := by
  obtain ⟨s,hs,hobs⟩ : ∃ s, Run intakeStep {} visit s ∧
      s.settled.map (fun x => (x.tag,x.outcome.toOption)) =
        [(0,some [1,2]),(1,none),(2,some [3])] := by
    apply Run.of_observation
    decide +kernel
  exact ⟨s,hs,(queue_delivers hs).2.1,hobs⟩

end Books
end SparkProtocol.ByteQueues
