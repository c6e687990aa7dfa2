import SparkProtocol.PoolScheduling

/-!
# Failing workers

A failed worker answers nothing, and the pool goes on as if it would: its task
stays with it, and it stays on the stack of the idle. `Loses` lists the steps by
which a task is lost. As long as none of them is taken every task is with a living
worker or waits for one, and each of them visibly loses a task.
-/
namespace SparkProtocol.CryptoPools
open ByteStrings HostValues OrderedMaps LabelledRuns Dispatching Pool

/-- No task is posted to a worker that has failed. -/
def Heeded (l : List PoolOut) : Prop :=
  l.Pairwise fun o o' => ∀ w err id, o = .error w err → o' ≠ .posted w id

section Failures
variable {K : Type}

/-- The task of promise `p` waits and a worker is left to take it, or a living worker holds it. -/
def Cared (s : Pool K) (p : ℕ) : Prop :=
  (p+1 ∈ s.queue.map Message.id ∧ ∃ th ∈ s.threads, th.alive = true) ∨
    ∃ th ∈ s.threads, th.alive = true ∧ p+1 ∈ th.inbox.map Message.id

structure Safe (s : Pool K) : Prop where
  cared : s.closed = false → ∀ p < s.submitted.length, p ∉ settled s.trace → Cared s p
  heeded : Heeded s.trace

/-- The steps that lose a task of an open pool. -/
inductive Loses (host : HostRsa K) (s : Pool K) : PoolEvent → Prop
  /-- The worker fails at its task. -/
  | busy {w : ℕ} {th : Thread K} (err : JsError) : s.closed = false → s.thread w = some th →
      th.inbox ≠ [] → Loses host s (.failure w err)
  /-- The idle worker that is next has failed. -/
  | deaf {w : ℕ} {idle : List ℕ} (task : Task) : s.closed = false → s.idle = idle++[w] →
      s.thread w = none → Loses host s (.submit task)
  /-- The task waits and no worker lives. -/
  | stranded (task : Task) : s.closed = false → s.idle = [] →
      (∀ th ∈ s.threads, th.alive = false) → Loses host s (.submit task)
  /-- The error has no text. -/
  | speechless {w : ℕ} : s.closed = false → ¬ Spoken host s (.reply w) → Loses host s (.reply w)

/-- What keeps the tasks safe: failure leaves a mark, and hits idle workers only. -/
structure Tended (s : Pool K) : Prop where
  marked : ∀ w th, s.threads[w]? = some th →
    (th.alive = false ↔ ∃ err, .error w err ∈ s.trace)
  free : ∀ th ∈ s.threads, th.alive = false → th.inbox = []
  waiting : s.queue ≠ [] → ∃ th ∈ s.threads, th.alive = true
  heeded : Heeded s.trace

/-- What a pool says in a step in which worker `w` takes part. -/
def Voiced (w : ℕ) (l : List PoolOut) : Prop :=
  ∀ o ∈ l, (∀ v err, o ≠ .error v err) ∧ ∀ v id, o = .posted v id → v = w

section Tending
variable {host : HostRsa K} {size w : ℕ} {s t : Pool K} {th th' : Thread K} {l : List PoolOut}

theorem Heeded.append (h : Heeded s.trace) (hv : Voiced w l)
    (hw : ∀ err, .error w err ∉ s.trace) : Heeded (s.trace++l) := by
  apply List.pairwise_append.mpr
  refine ⟨h,?_,?_⟩
  · apply List.pairwise_of_forall_mem_list
    rintro _ ho _ _ v err _ rfl
    exact absurd rfl ((hv _ ho).1 v err)
  · rintro _ ho o' ho' v err id rfl rfl
    obtain rfl := (hv _ ho').2 v id rfl
    exact hw err ho

/-- A living worker takes part in a step. -/
theorem Tended.served (h : Tended s) (hth : s.threads[w]? = some th) (halive : th.alive = true)
    (hthreads : t.threads = s.threads.set w th') (halive' : th'.alive = true)
    (htrace : t.trace = s.trace++l) (hv : Voiced w l) : Tended t := by
  have hw := (List.getElem?_eq_some_iff.mp hth).choose
  have herror : ∀ v err, .error v err ∈ t.trace ↔ .error v err ∈ s.trace := by
    intro v err
    rw [htrace,List.mem_append]
    constructor
    · rintro (ho | ho)
      · exact ho
      · exact absurd rfl ((hv _ ho).1 v err)
    · exact .inl
  refine ⟨?_,?_,?_,?_⟩
  · intro v u hu
    simp only [herror]
    rw [hthreads] at hu
    rcases getElem?_set_cases hu with ⟨rfl,rfl⟩ | ⟨-,hu⟩
    · have hm := h.marked v th hth
      simpa [halive,halive'] using hm
    · exact h.marked v u hu
  · intro u hu hdead
    rw [hthreads] at hu
    rcases List.mem_or_eq_of_mem_set hu with hu | rfl
    · exact h.free u hu hdead
    · simp [halive'] at hdead
  · intro _
    rw [hthreads]
    exact ⟨th',List.mem_set hw th',halive'⟩
  · rw [htrace]
    apply h.heeded.append hv
    intro err herr
    have := (h.marked w th hth).mpr ⟨err,herr⟩
    simp [halive] at this

theorem Tended.waits (h : Tended s) (hlive : ∃ th ∈ s.threads, th.alive = true)
    (hthreads : t.threads = s.threads) (htrace : t.trace = s.trace) : Tended t := by
  refine ⟨?_,?_,?_,?_⟩
  · rw [hthreads,htrace]
    exact h.marked
  · rw [hthreads]
    exact h.free
  · intro _
    rw [hthreads]
    exact hlive
  · rw [htrace]
    exact h.heeded

theorem Heeded.quiet (h : Heeded s.trace) (hl : ∀ o ∈ l, ∀ w id, o ≠ .posted w id) :
    Heeded (s.trace++l) := by
  apply List.pairwise_append.mpr
  refine ⟨h,?_,?_⟩
  · apply List.pairwise_of_forall_mem_list
    intro _ _ o' ho' v err id _
    exact hl o' ho' v id
  · intro _ _ o' ho' v err id _
    exact hl o' ho' v id

/-- An idle worker fails. -/
theorem Tended.failed (h : Tended s) (hq : s.queue = []) (hth : s.threads[w]? = some th)
    (hin : th.inbox = []) (err : JsError) :
    Tended ({ s with threads := s.threads.set w { th with alive := false } }.log (.error w err)) := by
  refine ⟨?_,?_,?_,h.heeded.quiet (by simp)⟩
  · intro v u hu
    simp only [log,List.mem_append,List.mem_singleton,PoolOut.error.injEq]
    rcases getElem?_set_cases hu with ⟨rfl,rfl⟩ | ⟨hv,hu⟩
    · simp only [true_iff]
      exact ⟨err,.inr ⟨trivial,rfl⟩⟩
    · simp only [hv,false_and,or_false]
      exact h.marked v u hu
  · intro u hu hdead
    rcases List.mem_or_eq_of_mem_set hu with hu | rfl
    · exact h.free u hu hdead
    · exact hin
  · intro hq'
    exact absurd hq hq'

theorem start_tended (size : ℕ) : Tended (Pool.start size : Pool K) := by
  rw [start_eq]
  refine ⟨?_,?_,?_,List.Pairwise.nil⟩
  · intro v u hu
    rw [List.eq_of_mem_replicate (List.mem_of_getElem? hu)]
    simp
  · intro u hu _
    rw [List.eq_of_mem_replicate hu]
  · intro hq
    exact absurd rfl hq

end Tending

section Keeping
variable {host : HostRsa K} {size w : ℕ} {s t : Pool K}

theorem dispatch_tended (hk : Kept host size s) (h : Tended s) (hopen : s.closed = false)
    (task : Task) (hsafe : ¬ Loses host s (.submit task)) : Tended (s.dispatch task) := by
  obtain ⟨d,hr,-⟩ := hk
  rcases List.eq_nil_or_concat s.idle with hidle | ⟨idle,w,hidle⟩
  · rw [dispatch_queued hopen hidle]
    refine h.waits ?_ rfl rfl
    by_contra hdead
    apply hsafe
    apply Loses.stranded task hopen hidle
    intro th hth
    by_contra halive
    exact hdead ⟨th,hth,by simpa using halive⟩
  · rw [List.concat_eq_append] at hidle
    obtain ⟨th,hth,-⟩ := hr.slot (d.slot_of_idle (hr.idle.symm.trans hidle))
    have halive : th.alive = true := by
      by_contra halive
      apply hsafe
      apply Loses.deaf task hopen hidle
      simpa [Pool.thread,hth] using halive
    rw [dispatch_posted hopen hidle hth]
    refine h.served (l := [.posted w s.nextId]) hth halive rfl halive rfl ?_
    intro o ho
    rw [List.mem_singleton.mp ho]
    refine ⟨nofun,?_⟩
    rintro v id ⟨⟩
    rfl

/-- A settlement is no message and no failure. -/
theorem voiced_settled {o : PoolOut} {p : ℕ} (h : settled [o] = [p]) (w : ℕ) : Voiced w [o] := by
  intro o' ho'
  rw [List.mem_singleton.mp ho']
  constructor
  · rintro v err rfl
    cases h
  · rintro v id rfl
    cases h

theorem release_tended (h : Tended s) {th u : Thread K} (hth : s.threads[w]? = some u)
    (hu : u.alive = true) {o : PoolOut} {p : ℕ} (hsettle : settled [o] = [p]) {r : Pool K}
    (hthreads : r.threads = s.threads.set w th) (halive : th.alive = true)
    (htrace : r.trace = s.trace++[o]) : Tended (r.release w) := by
  have hvoice := voiced_settled hsettle w
  obtain hq | ⟨next,queue,hq⟩ : r.queue = [] ∨ ∃ next queue, r.queue = next::queue := by
    cases r.queue <;> simp
  · rw [release_idle hq]
    exact h.served hth hu hthreads halive htrace hvoice
  · have hr : r.threads[w]? = some th := by
      rw [hthreads]
      exact getElem?_set_at hth th
    rw [release_posted hq hr]
    have hset : (r.threads.set w { th with inbox := th.inbox++[next] }) =
        s.threads.set w { th with inbox := th.inbox++[next] } := by
      rw [hthreads]
      exact List.set_set ..
    refine h.served (l := [o,.posted w next.id]) hth hu hset halive ?_ ?_
    · rw [htrace]
      exact List.append_assoc ..
    · intro o' ho'
      rcases List.mem_cons.mp ho' with rfl | ho'
      · exact hvoice _ List.mem_cons_self
      · rw [List.mem_singleton.mp ho']
        refine ⟨nofun,?_⟩
        rintro v id ⟨⟩
        rfl

theorem reply_tended (hk : Kept host size s) (h : Tended s) {msg : Message} {inbox : List Message}
    {caches : Caches K} {alive : Bool} (hth : s.thread w = some ⟨msg::inbox,caches,alive⟩)
    (hne : ∀ err, msg.task.operation host = .error err → err.message ≠ "") :
    Tended ({ s with threads := s.threads.set w ⟨inbox,(onTask host caches msg).2,alive⟩ }.onMessage w
      (onTask host caches msg).1) := by
  obtain ⟨d,hr,hl,-⟩ := hk
  obtain ⟨hw,halive⟩ := thread_alive hth
  obtain ⟨rfl,-,own,hmem,htask,-,hsub⟩ := reply_owner hr hl hw
  obtain ⟨o,hsettle,-,-,heq⟩ :=
    onMessage_eq (s := { s with threads := s.threads.set w ⟨[],(onTask host caches msg).2,alive⟩ })
      (w := w) hmem htask hsub (hl.caches _ (List.mem_of_getElem? hw)) hne
  rw [heq]
  exact release_tended h hw halive hsettle rfl halive rfl

theorem release_heeded (w : ℕ) {r : Pool K} (hq : r.queue = []) (h : Heeded r.trace) :
    (r.release w).queue = [] ∧ Heeded (r.release w).trace := by
  rw [release_idle hq]
  exact ⟨hq,h⟩

theorem closed_heeded (hclosed : s.closed = true) (hq : s.queue = []) (h : Heeded s.trace)
    {e : PoolEvent} (hstep : poolStep host s e = some t) : t.queue = [] ∧ Heeded t.trace := by
  cases poolStep_cases hstep with
  | submit task =>
      simp only [dispatch,hclosed,if_true]
      exact ⟨hq,h.quiet (by simp)⟩
  | reply hth =>
      unfold onMessage
      split
      · exact ⟨hq,h⟩
      · dsimp only
        split
        · split
          · exact ⟨hq,h⟩
          · exact release_heeded _ hq (h.quiet (by simp))
        · exact release_heeded _ hq (h.quiet (by simp))
  | failure err hth => exact ⟨hq,h.quiet (by simp)⟩
  | close =>
      simp only [close,hclosed,if_true]
      exact ⟨hq,h⟩
  | terminated hterm =>
      refine ⟨hq,h.quiet ?_⟩
      intro o ho
      obtain ⟨own,-,rfl⟩ := List.mem_map.mp ho
      intro w id he
      cases he

end Keeping
section Breaking
variable {host : HostRsa K} {size w : ℕ} {s t : Pool K} {d : Dispatcher Message} {th u : Thread K}
  {msg : Message}

/-- Beside the worker that holds it, a message is nowhere. -/
theorem places_emptied (hr : Refines s d) (hl : Ledger host s d) (hth : s.threads[w]? = some th)
    (hin : th.inbox = [msg]) (hu : u.inbox = []) :
    msg.id ∉ s.queue.map Message.id++
      (s.threads.set w u).flatMap fun v => v.inbox.map Message.id := by
  have hperm := flatMap_set_perm (fun v : Thread K => v.inbox.map Message.id) hth u
  have hnodup : (places s).Nodup := by
    rw [hr.places,hl.placed.nodup_iff]
    exact hl.nodup.of_append_right
  rw [hin,hu] at hperm
  have hplaces := (hperm.append_left (s.queue.map Message.id)).nodup_iff.mpr hnodup
  exact (List.nodup_cons.mp (List.perm_middle.nodup_iff.mp hplaces)).1

/-- A promise is lost with its task when no living worker has it any more. -/
theorem not_safe_of_taken (hr : Refines s d) (hl : Ledger host s d)
    (hth : s.threads[w]? = some th) (hin : th.inbox = [msg]) (hu : u.inbox = [])
    (hopen : t.closed = false) (hsub : t.submitted = s.submitted)
    (hsettled : settled t.trace = settled s.trace) (hqueue : t.queue = s.queue)
    (hlive : ∀ v ∈ t.threads, v.alive = true → v ∈ s.threads.set w u) : ¬ Safe t := by
  intro hsafe
  obtain ⟨inbox,caches,alive⟩ := th
  subst hin
  obtain ⟨-,-,own,hmem,-,hid,-⟩ := reply_owner hr hl hth
  obtain ⟨hlt,hns⟩ := hl.unsettled hmem
  have hnot := places_emptied hr hl hth rfl hu
  rw [hid] at hnot
  rw [← hsettled] at hns
  rw [← hsub] at hlt
  rcases hsafe.cared hopen own.promise hlt hns with ⟨hq,-⟩ | ⟨v,hv,halive,hv'⟩
  · rw [hqueue] at hq
    exact hnot (List.mem_append_left _ hq)
  · apply hnot
    apply List.mem_append_right
    exact List.mem_flatMap.mpr ⟨v,hlive v hv halive,hv'⟩

theorem busy_breaks (hr : Refines s d) (hl : Ledger host s d) (hopen : s.closed = false)
    (hth : s.thread w = some th) (hin : th.inbox ≠ []) (err : JsError) :
    ¬ Safe ({ s with threads := s.threads.set w { th with alive := false } }.log (.error w err)) := by
  obtain ⟨hw,-⟩ := thread_alive hth
  obtain ⟨o,-,ho⟩ := hr.thread hw
  cases o with
  | none => exact absurd ho hin
  | some msg =>
      refine not_safe_of_taken (u := { th with inbox := [] }) hr hl hw ho rfl hopen rfl ?_ rfl ?_
      · simp [log,settled]
      · intro v hv halive
        obtain ⟨j,hj⟩ := List.mem_iff_getElem?.mp hv
        simp only [log] at hj
        rcases getElem?_set_cases hj with ⟨rfl,rfl⟩ | ⟨hjw,hj⟩
        · simp at halive
        · apply List.mem_of_getElem?
          rw [List.getElem?_set_ne (Ne.symm hjw)]
          exact hj

theorem deaf_breaks (hr : Refines s d) (h : Tended s) (hopen : s.closed = false) {idle : List ℕ}
    (hidle : s.idle = idle++[w]) (hdead : s.thread w = none) (task : Task) :
    ¬ Safe (s.dispatch task) := by
  obtain ⟨th,hth,-⟩ := hr.slot (d.slot_of_idle (hr.idle.symm.trans hidle))
  have hfalse : th.alive = false := by simpa [Pool.thread,hth] using hdead
  obtain ⟨err,herr⟩ := (h.marked w th hth).mp hfalse
  rw [dispatch_posted hopen hidle hth]
  intro hsafe
  have hpost := (List.pairwise_append.mp hsafe.heeded).2.2 _ herr _ (List.mem_singleton_self _)
  exact hpost w err s.nextId rfl rfl

theorem stranded_breaks (hl : Ledger host s d) (hopen : s.closed = false) (hidle : s.idle = [])
    (hdead : ∀ th ∈ s.threads, th.alive = false) (task : Task) : ¬ Safe (s.dispatch task) := by
  rw [dispatch_queued hopen hidle]
  intro hsafe
  have hns : s.submitted.length ∉ settled s.trace := by
    intro hs
    have hr := hl.accounted.mem_iff.mp (List.mem_append_left _ (List.mem_map_of_mem (f := Nat.succ) hs))
    have := List.mem_range'_1.mp hr
    omega
  have hlive : ∀ th ∈ s.threads, th.alive ≠ true := by
    intro th hth
    simp [hdead th hth]
  rcases hsafe.cared hopen s.submitted.length (by simp) hns with ⟨-,th,hth,halive⟩ | ⟨th,hth,halive,-⟩
  · exact hlive th hth halive
  · exact hlive th hth halive

/-- Without an error text the listener throws before it releases the worker. -/
theorem onMessage_lost {own : Deferred} {caches : Caches K} (hmem : (msg.id,own) ∈ s.pending.entries)
    (hsound : caches.Sound host) {err : JsError} (herr : msg.task.operation host = .error err)
    (hempty : err.message = "") : s.onMessage w (onTask host caches msg).1 =
      { s with pending := s.pending.delete msg.id } := by
  have hget := OrderedMap.get_eq_some.mpr hmem
  obtain ⟨hop,-⟩ := compute_sound hsound msg.task
  rw [herr] at hop
  rcases hc : compute host caches msg.task with ⟨r,c⟩
  rw [hc] at hop
  cases r with
  | ok result => cases hop
  | error e =>
      obtain rfl := Except.error.inj hop
      simp [onTask,hc,onMessage,hget,hempty]

theorem speechless_breaks (hr : Refines s d) (hl : Ledger host s d) (hopen : s.closed = false)
    (h : ¬ Spoken host s (.reply w)) :
    ∃ t, poolStep host s (.reply w) = some t ∧ ¬ Safe t := by
  simp only [Spoken] at h
  push Not at h
  obtain ⟨⟨inbox,caches,alive⟩,hth,msg,hmsg,err,herr,hempty⟩ := h
  obtain ⟨rest,rfl⟩ : ∃ rest, inbox = msg::rest := List.head?_eq_some_iff.mp hmsg
  obtain ⟨hw,-⟩ := thread_alive hth
  obtain ⟨rfl,-,own,hmem,-⟩ := reply_owner hr hl hw
  have hth : s.thread w = some ⟨[msg],caches,alive⟩ := hth
  have hlost := onMessage_lost (w := w)
    (s := { s with threads := s.threads.set w ⟨[],(onTask host caches msg).2,alive⟩ }) hmem
    (hl.caches _ (List.mem_of_getElem? hw)) herr hempty
  have hstep : poolStep host s (.reply w) =
      some { s with threads := s.threads.set w ⟨[],(onTask host caches msg).2,alive⟩,
                    pending := s.pending.delete msg.id } := by
    simp only [poolStep,hth,hlost]
  refine ⟨_,hstep,?_⟩
  exact not_safe_of_taken hr hl hw rfl rfl hopen rfl rfl rfl fun v hv _ => hv

end Breaking

/-- What holds along the runs in which no task is lost. -/
def Watched (host : HostRsa K) (size : ℕ) (s : Pool K) : Prop :=
  (s.closed = true ∧ s.queue = [] ∧ Heeded s.trace) ∨
    (Kept host size s ∧ Tended s)

section Runs
variable {host : HostRsa K} {size : ℕ} {s t : Pool K} {e : PoolEvent}

theorem Watched.safe (h : Watched host size s) : Safe s := by
  rcases h with ⟨hclosed,-,hh⟩ | ⟨⟨d,hr,hl,-⟩,ht⟩
  · refine ⟨fun hopen => ?_,hh⟩
    simp [hclosed] at hopen
  · refine ⟨fun _ p hp hns => ?_,ht.heeded⟩
    have hplace := hl.out p hp hns
    rw [← hl.placed.mem_iff,← hr.places] at hplace
    rcases List.mem_append.mp hplace with hq | hin
    · refine .inl ⟨hq,ht.waiting ?_⟩
      rintro hnil
      simp [hnil] at hq
    · obtain ⟨th,hth,hmem⟩ := List.mem_flatMap.mp hin
      refine .inr ⟨th,hth,?_,hmem⟩
      by_contra hdead
      simp [ht.free th hth (by simpa using hdead)] at hmem

theorem step_tended (hk : Kept host size s) (ht : Tended s) (hsafe : ¬ Loses host s e)
    (hstep : poolStep host s e = some t) (hclose : e ≠ .close) : Tended t := by
  have hopen := hk.opened
  cases poolStep_cases hstep with
  | submit task => exact dispatch_tended hk ht hopen task hsafe
  | @reply w msg inbox caches alive hth =>
      have hspoken : Spoken host s (.reply w) := by
        by_contra h
        exact hsafe (.speechless hopen h)
      exact reply_tended hk ht hth (hspoken _ hth msg rfl)
  | @failure w th err hth =>
      obtain ⟨d,hr,-⟩ := hk
      obtain ⟨hw,-⟩ := thread_alive hth
      have hin : th.inbox = [] := by
        by_contra hin
        exact hsafe (.busy err hopen hth hin)
      obtain ⟨o,ho,hto⟩ := hr.thread hw
      have hnone : o = none := Option.toList_eq_nil_iff.mp (hto.symm.trans hin)
      have hidle := (d.free w).mpr (hnone ▸ ho)
      have hq : s.queue = [] := by
        rw [hr.queue]
        apply d.eager.resolve_right
        rintro hnil
        simp [hnil] at hidle
      exact ht.failed hq hw hin err
  | close => exact absurd rfl hclose
  | terminated hterm =>
      obtain ⟨-,-,-,-,-,hnot,-⟩ := hk
      simp [hnot] at hterm

theorem Watched.step (h : Watched host size s) (hsafe : ¬ Loses host s e)
    (hstep : poolStep host s e = some t) : Watched host size t := by
  rcases h with ⟨hclosed,hq,hh⟩ | ⟨hk,ht⟩
  · exact .inl ⟨closed_stays hclosed hstep,closed_heeded hclosed hq hh hstep⟩
  · have hspoken : Spoken host s e := by
      cases e with
      | reply w =>
          by_contra h
          exact hsafe (.speechless hk.opened h)
      | _ => trivial
    by_cases he : e = .close
    · subst he
      obtain rfl := Option.some.inj hstep
      simp only [close,hk.opened]
      exact .inl ⟨rfl,rfl,ht.heeded⟩
    · obtain ⟨hkt,-⟩ := (step_kept hk hspoken hstep).resolve_left he
      exact .inr ⟨hkt,step_tended hk ht hsafe hstep he⟩

theorem Loses.breaks (h : Watched host size s) (hloses : Loses host s e) :
    ∃ t, poolStep host s e = some t ∧ ¬ Safe t := by
  have hopen : s.closed = false := by
    cases hloses <;> assumption
  obtain ⟨⟨d,hr,hl,-⟩,ht⟩ := h.resolve_left (by simp [hopen])
  cases hloses with
  | busy err _ hth hin => exact ⟨_,by simp only [poolStep,hth],busy_breaks hr hl hopen hth hin err⟩
  | deaf task _ hidle hdead => exact ⟨_,rfl,deaf_breaks hr ht hopen hidle hdead task⟩
  | stranded task _ hidle hdead => exact ⟨_,rfl,stranded_breaks hl hopen hidle hdead task⟩
  | speechless _ h => exact speechless_breaks hr hl hopen h

/-- No task is lost along exactly the runs in which no worker fails at its task, no
task goes to a failed worker or to a pool without workers, and every error has a text. -/
theorem safe_iff_not_loses (size : ℕ) (es : List PoolEvent) :
    Always (poolStep host) Safe (Pool.start size) es ↔
      Throughout (poolStep host) (fun s e => ¬ Loses host s e) (Pool.start size) es := by
  apply always_iff_throughout (fun _ h => Watched.safe h) (fun _ _ _ h hsafe => h.step hsafe)
    (I := Watched host size)
  · intro s e h hloses
    exact Loses.breaks h (not_not.mp hloses)
  · exact .inr ⟨start_kept size,start_tended size⟩

end Runs
end Failures

/-- The only worker runs out of memory at the task. -/
theorem task_lost : ¬ Always (poolStep keyless) Safe (Pool.start 1)
    [.submit (.encrypt "not a key" [1]),
      .failure 0 { message := "Worker terminated due to reaching memory limit" }] := by
  intro h
  obtain ⟨s,hrun,hobs⟩ : ∃ s, Run (poolStep keyless) (Pool.start 1)
      [.submit (.encrypt "not a key" [1]),
        .failure 0 { message := "Worker terminated due to reaching memory limit" }] s ∧
      (s.closed,s.submitted.length,settled s.trace,s.queue,s.threads.map Thread.alive) =
        (false,1,[],[],[false]) := by
    apply Run.of_observation
    rfl
  simp only [Prod.mk.injEq] at hobs
  obtain ⟨hopen,hlen,hsettled,hq,hdead⟩ := hobs
  rcases (h.at_end hrun).cared hopen 0 (by omega) (by simp [hsettled]) with ⟨hmem,-⟩ | ⟨th,hth,halive,-⟩
  · simp [hq] at hmem
  · have := List.mem_map_of_mem (f := Thread.alive) hth
    simp [hdead,halive] at this

end SparkProtocol.CryptoPools
