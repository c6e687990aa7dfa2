import SparkProtocol.PoolScheduling

/-!
# Closing the pool

While the threads end, the listener of the pool still runs on what they have sent. An
account is kept of the promises: those that have settled, those that are owed, and
those that were lost to a reply without a text. No promise is on it twice. When the
threads have ended nothing is owed, so all have settled but the lost, and all counts
are zero but for the workers that late replies have made idle again.
-/
namespace SparkProtocol.CryptoPools
open ByteStrings HostValues OrderedMaps LabelledRuns Dispatching Pool

section Closing
variable {K : Type}

/-- What worker `w` sends next, if it lives and holds a task. -/
def replyOf (host : HostRsa K) (s : Pool K) (w : ℕ) : Option Reply :=
  match s.thread w with
  | some ⟨msg::_,caches,_⟩ => some (onTask host caches msg).1
  | _ => none

/-- A reply to an outstanding task comes late, while the threads end, or without a text. -/
inductive Sullies (host : HostRsa K) (s : Pool K) : PoolEvent → Prop
  | late {w : ℕ} {r : Reply} : replyOf host s w = some r → (s.pending.get r.id).isSome →
      s.terminating = true → Sullies host s (.reply w)
  | speechless {w : ℕ} {r : Reply} : replyOf host s w = some r → (s.pending.get r.id).isSome →
      r.outcome = .error "" → Sullies host s (.reply w)

/-- The promises that are still in the map. -/
def owed (s : Pool K) : List ℕ := s.pending.values.map Deferred.promise

/-- Every promise is on the account once. -/
def Balanced (lost : List ℕ) (s : Pool K) : Prop :=
  (lost++(settled s.trace++owed s)).Perm (List.range s.submitted.length)

/-- Nothing is lost, and no worker has come back to a closed pool. -/
def Spotless (lost : List ℕ) (s : Pool K) : Prop := lost = [] ∧ (s.closed = true → s.idle = [])

/-- What closing leaves behind at once, and what is left when the threads have ended. -/
structure Shutting (s : Pool K) : Prop where
  opened : s.closed = false → s.terminating = false
  shut : s.closed = true → s.workers = [] ∧ s.queue = []
  ended : s.closed = true → s.terminating = false →
    s.pending.entries = [] ∧ ∀ th ∈ s.threads, th.alive = false
  fresh : ∀ id ∈ s.pending.entries.map Prod.fst, id < s.nextId

/-- What `close()` leaves when it resolves: every promise has settled, every count is zero. -/
structure Clean (s : Pool K) : Prop where
  settled : ∀ p < s.submitted.length, p ∈ settled s.trace
  stats : s.stats = ⟨0,0,0,0⟩

/-- What the listener does with a reply. -/
inductive Heard (s : Pool K) (w : ℕ) (r : Reply) : Pool K → Prop
  | stray : s.pending.get r.id = none → Heard s w r s
  | speechless {own : Deferred} : s.pending.get r.id = some own → r.outcome = .error "" →
      Heard s w r { s with pending := s.pending.delete r.id }
  | answered {own : Deferred} {o : PoolOut} : s.pending.get r.id = some own →
      r.outcome ≠ .error "" → settled [o] = [own.promise] → handed [o] = [] →
      Heard s w r (({ s with pending := s.pending.delete r.id }.log o).release w)

section Steps
variable {host : HostRsa K} {s t : Pool K} {w : ℕ} {e : PoolEvent} {lost : List ℕ}

theorem onMessage_heard (s : Pool K) (w : ℕ) (r : Reply) : Heard s w r (s.onMessage w r) := by
  unfold onMessage
  split
  · next h => exact .stray h
  · next own h =>
      dsimp only
      split
      · next text ht =>
          split_ifs with he
          · exact .speechless h (he ▸ ht)
          · exact .answered h (fun hn => he (Except.error.inj (ht.symm.trans hn))) rfl rfl
      · next result hr => exact .answered h (fun hn => by cases hr.symm.trans hn) rfl rfl

theorem owed_delete {id : ℕ} {own : Deferred} (h : s.pending.get id = some own) :
    (own.promise::(s.pending.delete id).values.map Deferred.promise).Perm (owed s) := by
  have hperm := OrderedMap.entries_delete (OrderedMap.get_eq_some.mp h)
  have hmap := hperm.map (Deferred.promise ∘ Prod.snd)
  rw [owed,OrderedMap.values,OrderedMap.values,List.map_map,List.map_map]
  exact hmap

theorem owed_set {id : ℕ} {own : Deferred} (h : id ∉ s.pending.entries.map Prod.fst) :
    (s.pending.set id own).values.map Deferred.promise = owed s++[own.promise] := by
  simp [owed,OrderedMap.values,OrderedMap.set_new _ h]

/-- A message that is posted changes one inbox and settles nothing. -/
theorem postMessage_shape (s : Pool K) (w : ℕ) (msg : Message) : ∃ threads l,
    s.postMessage w msg = { s with threads := threads, trace := s.trace++l } ∧ settled l = [] := by
  unfold postMessage
  split
  · exact ⟨_,[.posted w msg.id],rfl,rfl⟩
  · exact ⟨s.threads,[],by rw [List.append_nil],rfl⟩

theorem release_shape (s : Pool K) (w : ℕ) : ∃ threads queue idle l,
    s.release w = { s with threads := threads, queue := queue, idle := idle, trace := s.trace++l } ∧
      settled l = [] ∧ (s.queue = [] → queue = []) := by
  unfold release
  split
  · next next queue hq =>
      obtain ⟨threads,l,he,hl⟩ := postMessage_shape { s with queue := queue } w next
      exact ⟨threads,queue,s.idle,l,he,hl,fun hn => by cases hq.symm.trans hn⟩
  · exact ⟨s.threads,s.queue,_,[],by rw [List.append_nil],rfl,id⟩

/-- A submission to an open pool goes on the account. -/
theorem dispatch_shape (hopen : s.closed = false) (task : Task) : ∃ threads idle queue l,
    s.dispatch task = { s with
      submitted := s.submitted++[task], nextId := s.nextId+1,
      pending := s.pending.set s.nextId ⟨s.submitted.length,task⟩, threads := threads, idle := idle,
      queue := queue, trace := s.trace++l } ∧ settled l = [] := by
  dsimp only [dispatch]
  rw [if_neg (by simp [hopen])]
  split
  · next w hw =>
      obtain ⟨threads,l,he,hl⟩ := postMessage_shape
        { s with
          submitted := s.submitted++[task], nextId := s.nextId+1
          pending := s.pending.set s.nextId ⟨s.submitted.length,task⟩, idle := s.idle.dropLast }
        w ⟨s.nextId,task⟩
      exact ⟨threads,_,_,l,he,hl⟩
  · exact ⟨s.threads,s.idle,_,[],by rw [List.append_nil],rfl⟩

theorem dispatch_refused (hclosed : s.closed = true) (task : Task) :
    s.dispatch task = { s with
      submitted := s.submitted++[task],
      trace := s.trace++[.reject s.submitted.length { message := "CryptoPool is closed" }] } := by
  simp [dispatch,hclosed,log]

theorem close_open (hopen : s.closed = false) : s.close =
    { s with closed := true, terminating := true, workers := [], idle := [], queue := [] } := by
  simp [close,hopen]

theorem close_again (hclosed : s.closed = true) : s.close = s := by simp [close,hclosed]

/-- A worker that acts lives, so the threads have not ended. -/
theorem Shutting.acting (h : Shutting s) {th : Thread K} (hth : s.thread w = some th)
    (hclosed : s.closed = true) : s.terminating = true := by
  obtain ⟨hw,halive⟩ := thread_alive hth
  by_contra hterm
  have hdead := (h.ended hclosed (by simpa using hterm)).2 th (List.mem_of_getElem? hw)
  simp [halive] at hdead

theorem Shutting.terminating_closed (h : Shutting s) (hterm : s.terminating = true) :
    s.closed = true := by
  by_contra hopen
  simp [h.opened (by simpa using hopen)] at hterm

/-- The pool hears of a living worker. -/
theorem Shutting.heard (h : Shutting s) {th : Thread K} (hth : s.thread w = some th)
    {threads : List (Thread K)} {r : Reply} (ht : Heard { s with threads := threads } w r t) :
    Shutting t := by
  have hnot : s.closed = true → s.terminating = false → False := by
    intro hclosed hterm
    simp [h.acting hth hclosed] at hterm
  have hdel : ∀ id ∈ (s.pending.delete r.id).entries.map Prod.fst, id < s.nextId := by
    intro id hid
    obtain ⟨p,hp,rfl⟩ := List.mem_map.mp hid
    exact h.fresh _ (List.mem_map_of_mem (OrderedMap.mem_delete.mp hp).1)
  cases ht with
  | stray _ => exact ⟨h.opened,h.shut,fun hc hn => (hnot hc hn).elim,h.fresh⟩
  | speechless _ _ => exact ⟨h.opened,h.shut,fun hc hn => (hnot hc hn).elim,hdel⟩
  | @answered own o _ _ _ _ =>
      obtain ⟨threads,queue,idle,l,he,-,hq⟩ := release_shape
        ({ s with threads := threads, pending := s.pending.delete r.id }.log o) w
      rw [he]
      exact ⟨h.opened,fun hc => ⟨(h.shut hc).1,hq (h.shut hc).2⟩,fun hc hn => (hnot hc hn).elim,hdel⟩

theorem shutting_keeps (h : Shutting s) (hstep : poolStep host s e = some t) : Shutting t := by
  cases poolStep_cases hstep with
  | submit task =>
      cases hc : s.closed with
      | true =>
          rw [dispatch_refused hc]
          exact ⟨h.opened,h.shut,h.ended,h.fresh⟩
      | false =>
          obtain ⟨threads,idle,queue,l,he,-⟩ := dispatch_shape hc task
          rw [he]
          have hnot : s.closed ≠ true := by simp [hc]
          refine ⟨h.opened,fun hn => absurd hn hnot,fun hn => absurd hn hnot,?_⟩
          intro id hid
          obtain ⟨p,hp,rfl⟩ := List.mem_map.mp hid
          rcases OrderedMap.mem_set.mp hp with rfl | ⟨hp,-⟩
          · exact Nat.lt_succ_self _
          · exact Nat.lt_succ_of_lt (h.fresh _ (List.mem_map_of_mem hp))
  | reply hth => exact h.heard hth (onMessage_heard _ _ _)
  | failure err hth =>
      refine ⟨h.opened,h.shut,fun hc hn => ?_,h.fresh⟩
      cases (h.acting hth hc).symm.trans hn
  | close =>
      cases hc : s.closed with
      | true => exact (close_again hc).symm ▸ h
      | false =>
          rw [close_open hc]
          exact ⟨(by simp),fun _ => ⟨rfl,rfl⟩,(by simp),h.fresh⟩
  | terminated hterm =>
      have hclosed := h.terminating_closed hterm
      refine ⟨fun _ => rfl,fun _ => h.shut hclosed,fun _ _ => ⟨rfl,?_⟩,by simp [terminated,OrderedMap.empty]⟩
      intro th hth
      obtain ⟨u,-,rfl⟩ := List.mem_map.mp hth
      rfl

/-- A promise that is no longer owed has settled, or it is lost. -/
theorem Balanced.discharged {id : ℕ} {own : Deferred} (h : Balanced lost s)
    (hget : s.pending.get id = some own) : (lost++(settled s.trace++
      own.promise::(s.pending.delete id).values.map Deferred.promise)).Perm
        (List.range s.submitted.length) :=
  (((owed_delete hget).append_left _).append_left _).trans h

theorem balanced_reply (hb : Balanced lost s) (hs : Shutting s) {th : Thread K} {r : Reply}
    (hth : s.thread w = some th) (hr : replyOf host s w = some r) {threads : List (Thread K)}
    (ht : Heard { s with threads := threads } w r t) :
    ∃ lost', Balanced lost' t ∧ (Spotless lost' t ↔ Spotless lost s ∧ ¬ Sullies host s (.reply w)) := by
  cases ht with
  | stray hget =>
      have hget : s.pending.get r.id = none := hget
      have hclean : ¬ Sullies host s (.reply w) := by
        intro h
        cases h with
        | late hr' hsome _ =>
            obtain rfl := Option.some.inj (hr.symm.trans hr')
            simp [hget] at hsome
        | speechless hr' hsome _ =>
            obtain rfl := Option.some.inj (hr.symm.trans hr')
            simp [hget] at hsome
      exact ⟨lost,hb,fun h => ⟨h,hclean⟩,fun h => h.1⟩
  | @speechless own hget htext =>
      have hget : s.pending.get r.id = some own := hget
      have hloud : Sullies host s (.reply w) := .speechless hr (by simp [hget]) htext
      refine ⟨own.promise::lost,?_,?_⟩
      · refine List.Perm.trans ?_ (hb.discharged hget)
        rw [← List.append_assoc,← List.append_assoc]
        exact List.perm_middle.symm
      · simp [Spotless,hloud]
  | @answered own o hget htext hsettle _ =>
      have hget : s.pending.get r.id = some own := hget
      have hsome : (s.pending.get r.id).isSome := by simp [hget]
      have hdis := hb.discharged hget
      rw [← List.singleton_append,← List.append_assoc (settled s.trace),← hsettle,
        ← settled_append] at hdis
      obtain ⟨threads',queue,idle,l,he,hl,-⟩ := release_shape
        ({ s with threads := threads, pending := s.pending.delete r.id }.log o) w
      refine ⟨lost,?_,?_⟩
      · rw [he]
        change (lost++(settled (s.trace++[o]++l)++_)).Perm _
        rw [settled_append,hl,List.append_nil]
        exact hdis
      · by_cases hc : s.closed = true
        · have hq : ({ s with threads := threads, pending := s.pending.delete r.id }.log o).queue = [] :=
            (hs.shut hc).2
          have hlate : Sullies host s (.reply w) := .late hr hsome (hs.acting hth hc)
          rw [release_idle hq]
          simp [Spotless,log,hc,hlate]
        · have hclean : ¬ Sullies host s (.reply w) := by
            intro h
            cases h with
            | late _ _ hterm => exact hc (hs.terminating_closed hterm)
            | speechless hr' _ htext' =>
                obtain rfl := Option.some.inj (hr.symm.trans hr')
                exact htext htext'
          simp [Spotless,log,hc,hclean]

theorem balanced_submit (hb : Balanced lost s) (hs : Shutting s) (task : Task) :
    Balanced lost (s.dispatch task) ∧ (Spotless lost (s.dispatch task) ↔ Spotless lost s) := by
  have hrange : List.range (s.submitted++[task]).length =
      List.range s.submitted.length++[s.submitted.length] := by
    rw [List.length_append,List.length_singleton,List.range_succ]
  by_cases hc : s.closed = true
  · rw [dispatch_refused hc]
    refine ⟨?_,Iff.rfl⟩
    change (lost++(settled (s.trace++[_])++owed s)).Perm _
    rw [hrange,settled_append]
    change (lost++(settled s.trace++[s.submitted.length]++owed s)).Perm _
    rw [List.append_assoc,List.singleton_append]
    refine List.Perm.trans (List.Perm.append_left _ (List.perm_middle.trans
      (List.perm_append_singleton _ _).symm)) ?_
    rw [← List.append_assoc]
    exact List.Perm.append_right _ hb
  · have hopen : s.closed = false := by simpa using hc
    obtain ⟨threads,idle,queue,l,he,hl⟩ := dispatch_shape hopen task
    have hfresh : s.nextId ∉ s.pending.entries.map Prod.fst :=
      fun h => Nat.lt_irrefl _ (hs.fresh _ h)
    rw [he]
    refine ⟨?_,by simp [Spotless,hopen]⟩
    change (lost++(settled (s.trace++l)++
      (s.pending.set s.nextId _).values.map Deferred.promise)).Perm _
    rw [hrange,settled_append,hl,List.append_nil,owed_set hfresh,← List.append_assoc,
      ← List.append_assoc,List.append_assoc lost]
    exact List.Perm.append_right _ hb

theorem settled_closingRejects (l : List Deferred) :
    settled (l.map fun d => .reject d.promise { message := "CryptoPool closed" }) =
      l.map Deferred.promise := by
  induction l with
  | nil => rfl
  | cons d l ih => exact congrArg (d.promise::·) ih

/-- Only replies sully. -/
theorem unsullied (host : HostRsa K) (s : Pool K) (he : ∀ w, e ≠ .reply w) : ¬ Sullies host s e := by
  rintro (⟨_,_,_⟩ | ⟨_,_,_⟩) <;> exact he _ rfl

/-- One step on the account: a promise is lost, or a worker comes back too late, exactly
in a step that sullies. -/
theorem balanced_step (hb : Balanced lost s) (hs : Shutting s)
    (hstep : poolStep host s e = some t) :
    ∃ lost', Balanced lost' t ∧ (Spotless lost' t ↔ Spotless lost s ∧ ¬ Sullies host s e) := by
  cases poolStep_cases hstep with
  | submit task =>
      have hclean : ¬ Sullies host s (.submit task) := unsullied host s (by simp)
      obtain ⟨hbal,hspot⟩ := balanced_submit hb hs task
      exact ⟨lost,hbal,by simp [hspot,hclean]⟩
  | reply hth => exact balanced_reply hb hs hth (by simp [replyOf,hth]) (onMessage_heard _ _ _)
  | @failure w th err hth =>
      have hclean : ¬ Sullies host s (.failure w err) := unsullied host s (by simp)
      refine ⟨lost,?_,fun h => ⟨h,hclean⟩,fun h => h.1⟩
      change (lost++(settled (s.trace++[_])++owed s)).Perm _
      rw [settled_append]
      change (lost++(settled s.trace++[]++owed s)).Perm _
      rw [List.append_nil]
      exact hb
  | close =>
      have hclean : ¬ Sullies host s .close := unsullied host s (by simp)
      refine ⟨lost,?_⟩
      by_cases hc : s.closed = true
      · rw [close_again hc]
        exact ⟨hb,fun h => ⟨h,hclean⟩,fun h => h.1⟩
      · rw [close_open (by simpa using hc)]
        exact ⟨hb,by simp [Spotless,hc,hclean]⟩
  | terminated hterm =>
      have hclean : ¬ Sullies host s .terminated := unsullied host s (by simp)
      refine ⟨lost,?_,fun h => ⟨h,hclean⟩,fun h => h.1⟩
      change (lost++(settled (s.trace++_)++[])).Perm _
      rw [settled_append,settled_closingRejects,List.append_nil]
      exact hb

/-- And a run. -/
theorem balanced_run {es : List PoolEvent} (h : Run (poolStep host) s es t) (hb : Balanced lost s)
    (hs : Shutting s) : ∃ lost', Balanced lost' t ∧ (Spotless lost' t ↔
      Spotless lost s ∧ Throughout (poolStep host) (fun u e => ¬ Sullies host u e) s es) := by
  induction h generalizing lost with
  | nil s => exact ⟨lost,hb,fun h => ⟨h,trivial⟩,fun h => h.1⟩
  | @cons s u t e es hstep _ ih =>
      obtain ⟨lost',hb',hiff⟩ := balanced_step hb hs hstep
      obtain ⟨lost'',hb'',hiff'⟩ := ih hb' (shutting_keeps hs hstep)
      refine ⟨lost'',hb'',?_⟩
      rw [hiff',hiff,and_assoc]
      refine and_congr_right fun _ => and_congr_right fun _ => ?_
      simp [hstep]

theorem Balanced.once (h : Balanced lost s) : (settled s.trace).Nodup :=
  (h.nodup_iff.mpr List.nodup_range).of_append_right.of_append_left

theorem balanced_start (size : ℕ) : Balanced [] (Pool.start size : Pool K) := by
  rw [start_eq]
  exact .refl []

theorem shutting_start (size : ℕ) : Shutting (Pool.start size : Pool K) := by
  rw [start_eq]
  exact ⟨fun _ => rfl,(by simp),(by simp),by simp [OrderedMap.empty]⟩

/-- When nothing is owed any more, the promises that have not settled are the lost. -/
theorem Balanced.settled_iff (h : Balanced lost s) (howed : owed s = []) :
    (∀ p < s.submitted.length, p ∈ settled s.trace) ↔ lost = [] := by
  rw [Balanced,howed,List.append_nil] at h
  constructor
  · intro hall
    by_contra hne
    obtain ⟨p,hp⟩ := List.exists_mem_of_ne_nil lost hne
    have hlt := List.mem_range.mp (h.mem_iff.mp (List.mem_append_left _ hp))
    exact (List.nodup_append.mp (h.nodup_iff.mpr List.nodup_range)).2.2 p hp p (hall p hlt) rfl
  · rintro rfl p hp
    exact h.mem_iff.mpr (List.mem_range.mpr hp)

/-- The threads have ended: the pool is clean if nothing was lost and nobody came back. -/
theorem clean_iff (hb : Balanced lost s) (hs : Shutting s) (hclosed : s.closed = true)
    (hterm : s.terminating = false) : Clean s ↔ Spotless lost s := by
  obtain ⟨hworkers,hqueue⟩ := hs.shut hclosed
  obtain ⟨hpending,-⟩ := hs.ended hclosed hterm
  have howed : owed s = [] := by simp [owed,OrderedMap.values,hpending]
  have hstats : s.stats = ⟨0,0,0,0⟩ ↔ s.idle = [] := by
    simp [stats,hworkers,hqueue,hpending]
  have hlost := hb.settled_iff howed
  constructor
  · exact fun h => ⟨hlost.mp h.settled,fun _ => hstats.mp h.stats⟩
  · exact fun h => ⟨hlost.mpr h.1,hstats.mpr (h.2 hclosed)⟩

/-- A closed pool posts nothing, and it rejects what is submitted. -/
structure Shut (s t : Pool K) (e : PoolEvent) : Prop where
  unposted : handed t.trace = handed s.trace
  rejects : ∀ task, e = .submit task →
    t.trace = s.trace++[.reject s.submitted.length { message := "CryptoPool is closed" }]

theorem handed_closingRejects (l : List Deferred) :
    handed (l.map fun d => .reject d.promise { message := "CryptoPool closed" }) = [] := by
  induction l with
  | nil => rfl
  | cons d l ih => exact ih

theorem handed_release (hq : s.queue = []) (w : ℕ) :
    handed (s.release w).trace = handed s.trace := by
  rw [release_idle hq]

theorem closed_shut (hs : Shutting s) (hclosed : s.closed = true)
    (hstep : poolStep host s e = some t) : Shut s t e := by
  cases poolStep_cases hstep with
  | submit task =>
      rw [dispatch_refused hclosed]
      refine ⟨by simp [handed],fun _ he => ?_⟩
      rfl
  | @reply w msg inbox caches alive hth =>
      refine ⟨?_,(by simp)⟩
      have hheard := onMessage_heard
        { s with threads := s.threads.set w ⟨inbox,(onTask host caches msg).2,alive⟩ } w
        (onTask host caches msg).1
      generalize onMessage _ _ _ = u at hheard
      cases hheard with
      | stray _ => rfl
      | speechless _ _ => rfl
      | @answered own o _ _ _ hnone =>
          refine (handed_release ?_ w).trans ?_
          · exact (hs.shut hclosed).2
          · change handed (s.trace++[o]) = _
            rw [handed_append,hnone,List.append_nil]
  | failure err hth => exact ⟨by simp [log,handed],(by simp)⟩
  | close =>
      rw [close_again hclosed]
      exact ⟨rfl,(by simp)⟩
  | terminated hterm =>
      refine ⟨?_,(by simp)⟩
      change handed (s.trace++_) = _
      rw [handed_append,handed_closingRejects,List.append_nil]

end Steps

/-- Every promise settles at most once, and a closed pool takes and posts nothing. When
`close()` has resolved the pool is clean, along exactly the runs in which no reply came
late or without a text. -/
theorem close_clean_iff {host : HostRsa K} {size : ℕ} {es : List PoolEvent} {s : Pool K}
    (h : Run (poolStep host) (Pool.start size) es s) :
    (settled s.trace).Nodup ∧
    (s.closed = true → ∀ e t, poolStep host s e = some t → Shut s t e) ∧
    (s.closed = true → s.terminating = false →
      (Clean s ↔
        Throughout (poolStep host) (fun u e => ¬ Sullies host u e) (Pool.start size) es)) := by
  have hs : Shutting s := h.keeps (fun _ _ _ _ => shutting_keeps) (shutting_start size)
  obtain ⟨lost,hb,hiff⟩ := balanced_run h (balanced_start size) (shutting_start size)
  have hstart : Spotless [] (Pool.start size : Pool K) := by
    rw [start_eq]
    exact ⟨rfl,(by simp)⟩
  refine ⟨hb.once,fun hclosed e t => closed_shut hs hclosed,fun hclosed hterm => ?_⟩
  rw [clean_iff hb hs hclosed hterm,hiff]
  exact ⟨fun h => h.2,fun h => ⟨hstart,h⟩⟩

end Closing

/-- Three tasks for one worker, and the pool is closed. -/
def hangUp : List PoolEvent :=
  [.submit (.encrypt "not a key" [1]),.submit (.sign "not a key" [2]),.close,
    .submit (.sign "not a key" [3])]

theorem close_clean_iff_undisturbed : ∃ s, Run (poolStep keyless) (Pool.start 1)
    (hangUp++[.terminated]) s ∧ Clean s := by
  obtain ⟨s,hrun,hobs⟩ : ∃ s, Run (poolStep keyless) (Pool.start 1) (hangUp++[.terminated]) s ∧
      (s.closed,s.terminating) = (true,false) := by
    apply Run.of_observation
    rfl
  obtain ⟨hclosed,hterm⟩ := Prod.mk.inj hobs
  refine ⟨s,hrun,((close_clean_iff hrun).2.2 hclosed hterm).mpr ?_⟩
  have hclean : ∀ e u, (∀ w, e ≠ .reply w) → ¬ Sullies keyless u e := fun _ u => unsullied keyless u
  refine ⟨hclean _ _ (by simp),fun _ _ => ⟨hclean _ _ (by simp),fun _ _ =>
    ⟨hclean _ _ (by simp),fun _ _ => ⟨hclean _ _ (by simp),fun _ _ =>
      ⟨hclean _ _ (by simp),fun _ _ => trivial⟩⟩⟩⟩⟩

/-- The worker's reply arrives while it is being ended. -/
theorem lateReply_idles : ¬ ∀ (size : ℕ) (es : List PoolEvent) (s : Pool Unit),
    Run (poolStep keyless) (Pool.start size) es s → s.closed = true → s.terminating = false →
      Clean s := by
  intro h
  obtain ⟨s,hrun,hobs⟩ : ∃ s, Run (poolStep keyless) (Pool.start 1)
      (hangUp++[.reply 0,.terminated]) s ∧ (s.closed,s.terminating,s.idle) = (true,false,[0]) := by
    apply Run.of_observation
    rfl
  simp only [Prod.mk.injEq] at hobs
  obtain ⟨hclosed,hterm,hidle⟩ := hobs
  have hstats := congrArg CryptoPoolStats.idle (h 1 _ s hrun hclosed hterm).stats
  simp [stats,hidle] at hstats

end SparkProtocol.CryptoPools
