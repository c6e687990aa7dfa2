import SparkProtocol.CryptoPool
import SparkProtocol.Dispatching

/-!
# Scheduling of the worker pool

The pool is a dispatcher of messages to workers with a ledger beside it: which
submission each id stands for, which ids are out, which promises have settled.
One lemma a step shows that the dispatcher makes the matching move and that the
ledger stays balanced, and every statement about scheduling is read off the two.
-/
namespace SparkProtocol.CryptoPools
open ByteStrings HostValues OrderedMaps LabelledRuns Dispatching Pool

def handed (l : List PoolOut) : List ℕ :=
  l.filterMap fun o => match o with
    | .posted _ id => some id
    | _ => none

/-- The promises that have settled. -/
def settled (l : List PoolOut) : List ℕ :=
  l.filterMap fun o => match o with
    | .resolve promise _ => some promise
    | .reject promise _ => some promise
    | _ => none

@[simp] theorem handed_append (l m : List PoolOut) : handed (l++m) = handed l++handed m :=
  List.filterMap_append

@[simp] theorem settled_append (l m : List PoolOut) : settled (l++m) = settled l++settled m :=
  List.filterMap_append

/-- The ids of the tasks that wait or are held by a worker. -/
def places {K : Type} (s : Pool K) : List ℕ :=
  s.queue.map Message.id++s.threads.flatMap fun th => th.inbox.map Message.id

section Scheduling
variable {K : Type} (host : HostRsa K)

/-- A promise settles with what the operation gives on its own task. An error
crosses the threads as its message. -/
def Truthful (submitted : List Task) : PoolOut → Prop
  | .resolve promise v => ∃ t, submitted[promise]? = some t ∧ t.operation host = .ok v
  | .reject promise e => ∃ t err, submitted[promise]? = some t ∧ t.operation host = .error err ∧
      e = { message := err.message }
  | _ => True

/-- What holds in every state of an open pool. -/
structure Scheduled (s : Pool K) : Prop where
  single : ∀ th ∈ s.threads, th.inbox.length ≤ 1
  idle : ∀ w, w ∈ s.idle ↔ ∃ th, s.threads[w]? = some th ∧ th.inbox = []
  eager : s.queue = [] ∨ s.idle = []
  /-- The message with id `p+1` carries the task of submission `p`. -/
  messages : ∀ msg, (msg ∈ s.queue ∨ ∃ th ∈ s.threads, msg ∈ th.inbox) →
    ∃ p, msg.id = p+1 ∧ s.submitted[p]? = some msg.task
  placed : ∀ p < s.submitted.length, p ∉ settled s.trace → (places s).count (p+1) = 1
  stats : (s.stats.idle : ℤ)+s.stats.inflight-s.stats.queued = s.stats.workers
  order : handed s.trace <+: List.range' 1 s.submitted.length
  once : (settled s.trace).Nodup
  answers : ∀ o ∈ s.trace, Truthful host s.submitted o
  complete : (∀ th ∈ s.threads, th.inbox = []) →
    ∀ p < s.submitted.length, p ∈ settled s.trace

/-- The promises that settle in a step: the one whose task the replying worker holds. -/
def settling (s : Pool K) : PoolEvent → List ℕ
  | .reply w => ((s.thread w).toList.flatMap fun th => th.inbox.take 1).map fun msg => msg.id-1
  | _ => []

/-- The dispatcher whose moves the pool makes. -/
structure Refines (s : Pool K) (d : Dispatcher Message) : Prop where
  inboxes : s.threads.map Thread.inbox = d.slots.map Option.toList
  idle : s.idle = d.idle
  queue : s.queue = d.queue

structure Ledger (s : Pool K) (d : Dispatcher Message) : Prop where
  nextId : s.nextId = s.submitted.length+1
  order : handed s.trace++d.queue.map Message.id = List.range' 1 s.submitted.length
  placed : (d.items.map Message.id).Perm (s.pending.entries.map Prod.fst)
  accounted : ((settled s.trace).map Nat.succ++s.pending.entries.map Prod.fst).Perm
    (List.range' 1 s.submitted.length)
  owners : ∀ id own, (id,own) ∈ s.pending.entries →
    id = own.promise+1 ∧ s.submitted[own.promise]? = some own.task
  messages : ∀ msg ∈ d.items, ∃ p, msg.id = p+1 ∧ s.submitted[p]? = some msg.task
  answers : ∀ o ∈ s.trace, Truthful host s.submitted o
  caches : ∀ th ∈ s.threads, th.caches.Sound host

section Threads
variable {host} {s : Pool K} {d : Dispatcher Message} {w : ℕ}

theorem Refines.slot (h : Refines s d) {o : Option Message} (ho : d.slots[w]? = some o) :
    ∃ th, s.threads[w]? = some th ∧ th.inbox = o.toList := by
  have hw := congrArg (fun l => l[w]?) h.inboxes
  simp only [List.getElem?_map,ho,Option.map_some] at hw
  exact Option.map_eq_some_iff.mp hw

theorem Refines.thread (h : Refines s d) {th : Thread K} (ht : s.threads[w]? = some th) :
    ∃ o, d.slots[w]? = some o ∧ th.inbox = o.toList := by
  have hw := congrArg (fun l => l[w]?) h.inboxes
  simp only [List.getElem?_map,ht,Option.map_some] at hw
  obtain ⟨o,ho,he⟩ := Option.map_eq_some_iff.mp hw.symm
  exact ⟨o,ho,he.symm⟩

theorem Refines.single (h : Refines s d) : ∀ th ∈ s.threads, th.inbox.length ≤ 1 := by
  intro th hth
  obtain ⟨w,hw⟩ := List.mem_iff_getElem?.mp hth
  obtain ⟨o,-,ho⟩ := h.thread hw
  rw [ho]
  cases o <;> simp

theorem Refines.idle_iff (h : Refines s d) (w : ℕ) :
    w ∈ s.idle ↔ ∃ th, s.threads[w]? = some th ∧ th.inbox = [] := by
  rw [h.idle,d.free]
  constructor
  · exact fun hw => h.slot hw
  · rintro ⟨th,hth,hin⟩
    obtain ⟨o,ho,hin'⟩ := h.thread hth
    cases o with
    | none => exact ho
    | some m => simp [hin] at hin'

theorem Refines.mem_items (h : Refines s d) {msg : Message}
    (hm : msg ∈ s.queue ∨ ∃ th ∈ s.threads, msg ∈ th.inbox) : msg ∈ d.items := by
  rcases hm with hm | ⟨th,hth,hm⟩
  · exact List.mem_append_left _ (h.queue ▸ hm)
  · obtain ⟨w,hw⟩ := List.mem_iff_getElem?.mp hth
    obtain ⟨o,ho,hin⟩ := h.thread hw
    apply List.mem_append_right
    exact List.mem_flatMap.mpr ⟨o,List.mem_of_getElem? ho,hin ▸ hm⟩

theorem Refines.held_nil (h : Refines s d) (hidle : ∀ th ∈ s.threads, th.inbox = []) :
    held d.slots = [] := by
  rw [held,List.flatMap_eq_nil_iff]
  intro o ho
  obtain ⟨w,hw⟩ := List.mem_iff_getElem?.mp ho
  obtain ⟨th,hth,hin⟩ := h.slot hw
  rw [← hin]
  exact hidle th (List.mem_of_getElem? hth)

theorem Refines.places (h : Refines s d) : places s = d.items.map Message.id := by
  have hheld : s.threads.flatMap (fun th => th.inbox.map Message.id) =
      (held d.slots).map Message.id := by
    have hin := congrArg (List.flatMap (List.map Message.id)) h.inboxes
    simpa only [List.flatMap_map,held,List.map_flatMap] using hin
  rw [CryptoPools.places,hheld,h.queue,Dispatcher.items,List.map_append]

theorem Refines.inboxes_set (h : Refines s d) (th : Thread K) {o : Option Message}
    (he : th.inbox = o.toList) :
    (s.threads.set w th).map Thread.inbox = (d.slots.set w o).map Option.toList := by
  rw [List.map_set,h.inboxes,he,List.map_set]

theorem sound_set (h : ∀ th ∈ s.threads, th.caches.Sound host) {th : Thread K}
    (ht : th.caches.Sound host) : ∀ u ∈ s.threads.set w th, u.caches.Sound host := by
  intro u hu
  rcases List.mem_or_eq_of_mem_set hu with hu | rfl
  · exact h u hu
  · exact ht

end Threads

section Entries
variable {host} {s t : Pool K} {d d' : Dispatcher Message} {task : Task} {l : List PoolOut}

theorem Truthful.append {o : PoolOut} (u : Task) (h : Truthful host s.submitted o) :
    Truthful host (s.submitted++[u]) o := by
  cases o with
  | resolve p v =>
      obtain ⟨r,hr,ho⟩ := h
      exact ⟨r,getElem?_concat_some hr u,ho⟩
  | reject p e =>
      obtain ⟨r,err,hr,ho⟩ := h
      exact ⟨r,err,getElem?_concat_some hr u,ho⟩
  | posted => trivial
  | error => trivial

theorem Ledger.nodup (h : Ledger host s d) :
    ((settled s.trace).map Nat.succ++s.pending.entries.map Prod.fst).Nodup :=
  h.accounted.nodup_iff.mpr List.nodup_range'

/-- A promise that is still in the map is one of the submitted and has not settled. -/
theorem Ledger.unsettled (h : Ledger host s d) {id : ℕ} {own : Deferred}
    (hmem : (id,own) ∈ s.pending.entries) :
    own.promise < s.submitted.length ∧ own.promise ∉ settled s.trace := by
  obtain ⟨hid,hsub⟩ := h.owners id own hmem
  refine ⟨(List.getElem?_eq_some_iff.mp hsub).choose,fun hs => ?_⟩
  apply (List.nodup_append.mp h.nodup).2.2 (own.promise+1) (List.mem_map_of_mem (f := Nat.succ) hs)
    id (List.mem_map_of_mem (f := Prod.fst) hmem)
  exact hid.symm

theorem Ledger.out (h : Ledger host s d) (p : ℕ) (hp : p < s.submitted.length)
    (hns : p ∉ settled s.trace) : p+1 ∈ s.pending.entries.map Prod.fst := by
  have hmem : p+1 ∈ List.range' 1 s.submitted.length := List.mem_range'_1.mpr (by omega)
  rcases List.mem_append.mp (h.accounted.mem_iff.mpr hmem) with hm | hm
  · obtain ⟨q,hq,hqp⟩ := List.mem_map.mp hm
    exact absurd (Nat.succ.inj hqp ▸ hq) hns
  · exact hm

/-- A promise that is out has its task in one place. -/
theorem Ledger.placed_once (h : Ledger host s d) (hr : Refines s d) {p : ℕ}
    (hp : p < s.submitted.length) (hns : p ∉ settled s.trace) : (places s).count (p+1) = 1 := by
  rw [hr.places]
  apply List.count_eq_one_of_mem
  · rw [h.placed.nodup_iff]
    exact h.nodup.of_append_right
  · exact h.placed.mem_iff.mpr (h.out p hp hns)

/-- When no worker holds a task, no promise is out. -/
theorem Ledger.settled_of_idle (h : Ledger host s d) (hr : Refines s d) (hslots : d.slots ≠ [])
    (hidle : ∀ th ∈ s.threads, th.inbox = []) {p : ℕ} (hp : p < s.submitted.length) :
    p ∈ settled s.trace := by
  by_contra hns
  have hmem := h.placed.mem_iff.mpr (h.out p hp hns)
  simp [d.items_nil hslots (hr.held_nil hidle)] at hmem

theorem Ledger.fresh (h : Ledger host s d) : s.nextId ∉ s.pending.entries.map Prod.fst := by
  intro hmem
  have hr := h.accounted.mem_iff.mp (List.mem_append_right _ hmem)
  rw [List.mem_range'_1,h.nextId] at hr
  omega

/-- A submission enters the ledger under the next id. -/
theorem Ledger.posed (h : Ledger host s d) (hsub : t.submitted = s.submitted++[task])
    (hid : t.nextId = s.nextId+1)
    (hpend : t.pending = s.pending.set s.nextId ⟨s.submitted.length,task⟩)
    (hitems : d'.items.Perm (⟨s.nextId,task⟩::d.items)) (htrace : t.trace = s.trace++l)
    (horder : handed l++d'.queue.map Message.id = d.queue.map Message.id++[s.nextId])
    (hquiet : settled l = []) (htrue : ∀ o ∈ l, Truthful host t.submitted o)
    (hcaches : ∀ th ∈ t.threads, th.caches.Sound host) : Ledger host t d' := by
  have hkeys : t.pending.entries = s.pending.entries++[(s.nextId,⟨s.submitted.length,task⟩)] := by
    rw [hpend,OrderedMap.set_new _ h.fresh]
  have hrange : List.range' 1 t.submitted.length =
      List.range' 1 s.submitted.length++[s.nextId] := by
    rw [hsub,List.length_append,List.length_singleton,List.range'_1_concat,h.nextId,Nat.add_comm]
  refine ⟨?_,?_,?_,?_,?_,?_,?_,hcaches⟩
  · rw [hid,hsub,h.nextId,List.length_append,List.length_singleton]
  · rw [htrace,handed_append,List.append_assoc,horder,← List.append_assoc,h.order,hrange]
  · rw [hkeys,List.map_append]
    calc d'.items.map Message.id
        |>.Perm (s.nextId::d.items.map Message.id) := hitems.map Message.id
      _ |>.Perm (s.nextId::s.pending.entries.map Prod.fst) := h.placed.cons _
      _ |>.Perm (s.pending.entries.map Prod.fst++[s.nextId]) := (List.perm_append_singleton ..).symm
  · rw [htrace,settled_append,hquiet,List.append_nil,hkeys,List.map_append,← List.append_assoc,hrange]
    exact h.accounted.append_right _
  · intro id own hmem
    rw [hkeys,List.mem_append,List.mem_singleton] at hmem
    rw [hsub]
    rcases hmem with hmem | hmem
    · obtain ⟨hid,hown⟩ := h.owners id own hmem
      exact ⟨hid,getElem?_concat_some hown task⟩
    · obtain ⟨rfl,rfl⟩ := Prod.mk.inj hmem
      exact ⟨h.nextId,List.getElem?_concat_length⟩
  · intro msg hmem
    rw [hsub]
    rcases List.mem_cons.mp (hitems.mem_iff.mp hmem) with rfl | hmem
    · exact ⟨s.submitted.length,h.nextId,List.getElem?_concat_length⟩
    · obtain ⟨p,hp,hown⟩ := h.messages msg hmem
      exact ⟨p,hp,getElem?_concat_some hown task⟩
  · intro o ho
    rw [htrace,List.mem_append] at ho
    rcases ho with ho | ho
    · rw [hsub]
      exact (h.answers o ho).append task
    · exact htrue o ho

/-- A task leaves the ledger with the settlement of its promise. -/
theorem Ledger.answered (h : Ledger host s d) {msg : Message} {own : Deferred} {o : PoolOut}
    (hmem : (msg.id,own) ∈ s.pending.entries) (hsub : t.submitted = s.submitted)
    (hid : t.nextId = s.nextId) (hpend : t.pending = s.pending.delete msg.id)
    (hitems : (msg::d'.items).Perm d.items) (htrace : t.trace = s.trace++o::l)
    (hsettle : settled [o] = [own.promise]) (hnone : handed [o] = [])
    (horder : handed l++d'.queue.map Message.id = d.queue.map Message.id)
    (hquiet : settled l = []) (htrue : ∀ o' ∈ o::l, Truthful host s.submitted o')
    (hcaches : ∀ th ∈ t.threads, th.caches.Sound host) : Ledger host t d' := by
  have hkeys := OrderedMap.keys_delete (List.mem_map_of_mem (f := Prod.fst) hmem)
  have hpromise := (h.owners _ _ hmem).1
  have htrace' : t.trace = s.trace++([o]++l) := htrace
  refine ⟨by rw [hid,hsub,h.nextId],?_,?_,?_,?_,?_,?_,hcaches⟩
  · rw [htrace',handed_append,handed_append,hnone,List.nil_append,List.append_assoc,horder,hsub,
      h.order]
  · rw [hpend]
    refine List.Perm.cons_inv (a := msg.id) ?_
    calc (msg.id::d'.items.map Message.id)
        |>.Perm (d.items.map Message.id) := hitems.map Message.id
      _ |>.Perm (s.pending.entries.map Prod.fst) := h.placed
      _ |>.Perm (msg.id::(s.pending.delete msg.id).entries.map Prod.fst) := hkeys.symm
  · rw [htrace',settled_append,settled_append,hsettle,hquiet,List.append_nil,hpend,hsub,
      List.map_append,List.append_assoc]
    refine List.Perm.trans (List.Perm.append_left _ ?_) h.accounted
    rw [List.map_singleton,List.singleton_append,← Nat.add_one,← hpromise]
    exact hkeys
  · intro id own' hmem'
    rw [hpend,OrderedMap.mem_delete] at hmem'
    rw [hsub]
    exact h.owners id own' hmem'.1
  · intro m hm
    rw [hsub]
    exact h.messages m (hitems.mem_iff.mp (List.mem_cons_of_mem _ hm))
  · intro o' ho
    rw [htrace,List.mem_append] at ho
    rw [hsub]
    exact ho.elim (h.answers o') (htrue o')

end Entries

/-- The pool makes the moves of a dispatcher and keeps its ledger balanced. -/
def Kept (size : ℕ) (s : Pool K) : Prop :=
  ∃ d, Refines s d ∧ Ledger host s d ∧ d.slots.length = size ∧ s.workers = List.range size ∧
    s.terminating = false ∧ s.closed = false

theorem Kept.opened {host : HostRsa K} {size : ℕ} {s : Pool K} (h : Kept host size s) :
    s.closed = false := by
  obtain ⟨-,-,-,-,-,-,hopen⟩ := h
  exact hopen

section Steps
variable {host} {size w : ℕ} {s : Pool K} {d : Dispatcher Message}

theorem start_eq (size : ℕ) : (Pool.start size : Pool K) =
    { threads := List.replicate size {}, workers := List.range size, idle := List.range size } := by
  induction size with
  | zero => rfl
  | succ size ih =>
      rw [Pool.start,ih,spawn]
      simp only [List.length_replicate,List.range_succ,List.replicate_succ']

theorem start_kept (size : ℕ) : Kept host size (Pool.start size) := by
  rw [start_eq]
  refine ⟨.start size,⟨?_,rfl,rfl⟩,⟨rfl,rfl,?_,?_,?_,?_,?_,?_⟩,List.length_replicate,rfl,rfl,rfl⟩
  · simp [Dispatcher.start]
  · simp [Dispatcher.items,Dispatcher.start,held,OrderedMap.empty]
  · simp [settled,OrderedMap.empty]
  · simp [OrderedMap.empty]
  · simp [Dispatcher.items,Dispatcher.start,held]
  · simp
  · intro th hth
    rw [List.eq_of_mem_replicate hth]
    exact ⟨by simp,by simp⟩

theorem dispatch_kept (h : Kept host size s) (task : Task) :
    Kept host size (s.dispatch task) := by
  obtain ⟨d,hr,hl,hsize,hopen⟩ := h
  rcases List.eq_nil_or_concat s.idle with hidle | ⟨idle,w,hidle⟩
  · -- every worker is busy: the message waits
    have hd : d.idle = [] := hr.idle.symm.trans hidle
    rw [dispatch_queued hopen.2.2 hidle]
    refine ⟨d.enqueue hd ⟨s.nextId,task⟩,⟨hr.inboxes,hr.idle,by rw [hr.queue]; rfl⟩,?_,hsize,hopen⟩
    exact hl.posed (l := []) rfl rfl rfl (d.enqueue_items hd _) (List.append_nil _).symm
      (by simp [handed,Dispatcher.enqueue]) rfl (by simp) hl.caches
  · have hd : d.idle = idle++[w] := by rw [← hr.idle,hidle,List.concat_eq_append]
    have hq := d.queue_nil_of_idle hd
    obtain ⟨th,hth,hin⟩ := hr.slot (d.slot_of_idle hd)
    rw [dispatch_posted hopen.2.2 (hidle.trans List.concat_eq_append) hth,hin]
    refine ⟨d.assign hd ⟨s.nextId,task⟩,⟨hr.inboxes_set _ rfl,rfl,hr.queue⟩,?_,?_,hopen⟩
    · exact hl.posed (l := [.posted w s.nextId]) rfl rfl rfl (d.assign_items hd _) rfl
        (by simp [handed,Dispatcher.assign,hq]) rfl (by simp [Truthful])
        (sound_set hl.caches (hl.caches th (List.mem_of_getElem? hth)))
    · rw [← hsize]
      exact List.length_set

/-- The worker whose task has settled takes the next message or goes idle. -/
theorem release_kept (hr : Refines s d) (hl : Ledger host s d) (hsize : d.slots.length = size)
    (hopen : s.workers = List.range size ∧ s.terminating = false ∧ s.closed = false)
    {msg : Message} {own : Deferred} {o : PoolOut}
    {th : Thread K} (hslot : d.slots[w]? = some (some msg))
    (hmem : (msg.id,own) ∈ s.pending.entries) (hin : th.inbox = [])
    (hsettle : settled [o] = [own.promise]) (hnone : handed [o] = [])
    (htrue : Truthful host s.submitted o) (hcaches : th.caches.Sound host) {u : Pool K}
    (hu : { s with threads := s.threads.set w th, pending := s.pending.delete msg.id }.log o = u) :
    Kept host size (u.release w) := by
  obtain ⟨old,hold,-⟩ := hr.slot hslot
  obtain hq | ⟨next,queue,hq⟩ : s.queue = [] ∨ ∃ next queue, s.queue = next::queue := by
    cases s.queue <;> simp
  · have hd : d.queue = [] := hr.queue.symm.trans hq
    have hqu : u.queue = [] := by
      rw [← hu]
      exact hq
    rw [release_idle hqu,← hu]
    refine ⟨d.vacate hslot hd,⟨hr.inboxes_set _ hin,by rw [hr.idle]; rfl,hr.queue⟩,?_,?_,hopen⟩
    · exact hl.answered (l := []) hmem rfl rfl rfl (d.vacate_items hslot hd) rfl hsettle hnone
        rfl rfl (by simpa using htrue) (sound_set hl.caches hcaches)
    · rw [← hsize]
      exact List.length_set
  · have hd : d.queue = next::queue := hr.queue.symm.trans hq
    have hqu : u.queue = next::queue := by
      rw [← hu]
      exact hq
    have hthu : u.threads[w]? = some th := by
      rw [← hu]
      exact getElem?_set_at hold th
    rw [release_posted hqu hthu,hin,← hu]
    simp only [log,List.set_set]
    refine ⟨d.hand hslot hd,⟨hr.inboxes_set _ rfl,hr.idle,rfl⟩,?_,?_,hopen⟩
    · exact hl.answered (l := [.posted w next.id]) hmem rfl rfl rfl (d.hand_items hslot hd)
        (List.append_assoc ..) hsettle hnone (by simp [handed,Dispatcher.hand,hd]) rfl
        (by simpa [Truthful] using htrue) (sound_set hl.caches hcaches)
    · rw [← hsize]
      exact List.length_set

theorem thread_alive {th : Thread K} (h : s.thread w = some th) :
    s.threads[w]? = some th ∧ th.alive = true := Option.filter_eq_some_iff.mp h

/-- The worker that replies holds one message, and the ledger knows whose it is. -/
theorem reply_owner (hr : Refines s d) (hl : Ledger host s d) {msg : Message}
    {inbox : List Message} {caches : Caches K} {alive : Bool}
    (hth : s.threads[w]? = some ⟨msg::inbox,caches,alive⟩) :
    inbox = [] ∧ d.slots[w]? = some (some msg) ∧ ∃ own, (msg.id,own) ∈ s.pending.entries ∧
      own.task = msg.task ∧ msg.id = own.promise+1 ∧ s.submitted[own.promise]? = some msg.task := by
  obtain ⟨o,ho,hin⟩ := hr.thread hth
  cases o with
  | none => cases hin
  | some m =>
      obtain ⟨rfl,rfl⟩ := List.cons_eq_cons.mp hin
      have hitem : msg ∈ d.items := by
        apply List.mem_append_right
        exact List.mem_flatMap.mpr ⟨_,List.mem_of_getElem? ho,List.mem_singleton_self msg⟩
      have hkey := hl.placed.mem_iff.mp (List.mem_map_of_mem (f := Message.id) hitem)
      obtain ⟨⟨id,own⟩,hmem,rfl⟩ := List.mem_map.mp hkey
      obtain ⟨hid,hown⟩ := hl.owners _ own hmem
      obtain ⟨p,hp,htask⟩ := hl.messages msg hitem
      have heq : own.promise = p := by
        have : own.promise+1 = p+1 := hid.symm.trans hp
        omega
      subst heq
      rw [hown] at htask
      have htask := Option.some.inj htask
      exact ⟨rfl,ho,own,hmem,htask,hid,htask ▸ hown⟩

/-- The reply settles the promise of the worker's task truthfully, and the worker
is released. -/
theorem onMessage_eq {msg : Message} {own : Deferred} {caches : Caches K}
    (hmem : (msg.id,own) ∈ s.pending.entries) (htask : own.task = msg.task)
    (hsub : s.submitted[own.promise]? = some msg.task) (hsound : caches.Sound host)
    (hne : ∀ err, msg.task.operation host = .error err → err.message ≠ "") :
    ∃ o, settled [o] = [own.promise] ∧ handed [o] = [] ∧ Truthful host s.submitted o ∧
      s.onMessage w (onTask host caches msg).1 =
        ({ s with pending := s.pending.delete msg.id }.log o).release w := by
  have hget := OrderedMap.get_eq_some.mpr hmem
  obtain ⟨hop,-⟩ := compute_sound hsound msg.task
  rcases hc : compute host caches msg.task with ⟨r,c⟩
  rw [hc] at hop
  cases r with
  | ok result =>
      refine ⟨.resolve own.promise (own.task.returned result),rfl,rfl,⟨_,hsub,?_⟩,?_⟩
      · rw [htask]
        exact hop.symm
      · simp [onTask,hc,onMessage,hget]
  | error err =>
      have hop : msg.task.operation host = .error err := hop.symm
      refine ⟨.reject own.promise { message := err.message },rfl,rfl,⟨_,err,hsub,hop,rfl⟩,?_⟩
      simp [onTask,hc,onMessage,hget,hne err hop]

theorem onTask_sound {msg : Message} {caches : Caches K} (hsound : caches.Sound host) :
    (onTask host caches msg).2.Sound host := by
  have hs := (compute_sound hsound msg.task).2
  unfold onTask
  split
  · next hc => rwa [hc] at hs
  · next hc => rwa [hc] at hs

theorem postMessage_settled (s : Pool K) (w : ℕ) (msg : Message) :
    settled (s.postMessage w msg).trace = settled s.trace := by
  unfold postMessage
  split
  · simp [log,settled]
  · rfl

theorem release_settled (s : Pool K) (w : ℕ) : settled (s.release w).trace = settled s.trace := by
  unfold release
  split
  · exact postMessage_settled ..
  · rfl

theorem reply_kept (h : Kept host size s) {msg : Message} {inbox : List Message}
    {caches : Caches K} {alive : Bool} (hth : s.thread w = some ⟨msg::inbox,caches,alive⟩)
    (hne : ∀ err, msg.task.operation host = .error err → err.message ≠ "") {t : Pool K}
    (ht : { s with threads := s.threads.set w ⟨inbox,(onTask host caches msg).2,alive⟩ }.onMessage w
      (onTask host caches msg).1 = t) :
    Kept host size t ∧ settled t.trace = settled s.trace++[msg.id-1] := by
  obtain ⟨d,hr,hl,hsize,hopen⟩ := h
  obtain ⟨hw,-⟩ := thread_alive hth
  obtain ⟨rfl,hslot,own,hmem,htask,hid,hsub⟩ := reply_owner hr hl hw
  have hsound : caches.Sound host := hl.caches _ (List.mem_of_getElem? hw)
  obtain ⟨o,hsettle,hnone,htrue,heq⟩ :=
    onMessage_eq (s := { s with threads := s.threads.set w ⟨[],(onTask host caches msg).2,alive⟩ })
      (w := w) hmem htask hsub hsound hne
  rw [heq] at ht
  subst ht
  constructor
  · exact release_kept hr hl hsize hopen hslot hmem rfl hsettle hnone htrue (onTask_sound hsound)
      rfl
  · rw [release_settled,hid,Nat.add_sub_cancel,← hsettle]
    exact settled_append ..

theorem failure_kept (h : Kept host size s) {th : Thread K} (hth : s.thread w = some th)
    (err : JsError) :
    Kept host size
      ({ s with threads := s.threads.set w { th with alive := false } }.log (.error w err)) := by
  obtain ⟨d,hr,hl,hsize,hopen⟩ := h
  obtain ⟨hw,-⟩ := thread_alive hth
  have hinboxes : (s.threads.set w { th with alive := false }).map Thread.inbox =
      s.threads.map Thread.inbox := by
    obtain ⟨hlt,hget⟩ := List.getElem?_eq_some_iff.mp hw
    have hmap : w < (s.threads.map Thread.inbox).length := by rwa [List.length_map]
    have hin : th.inbox = (s.threads.map Thread.inbox)[w] := by rw [List.getElem_map,hget]
    rw [List.map_set,hin,List.set_getElem_self]
  refine ⟨d,⟨hinboxes.trans hr.inboxes,hr.idle,hr.queue⟩,?_,hsize,hopen⟩
  refine ⟨hl.nextId,?_,hl.placed,?_,hl.owners,hl.messages,?_,?_⟩
  · simpa [log,handed] using hl.order
  · simpa [log,settled] using hl.accounted
  · intro o ho
    rcases List.mem_append.mp ho with ho | ho
    · exact hl.answers o ho
    · rw [List.mem_singleton.mp ho]
      trivial
  · exact sound_set hl.caches (hl.caches th (List.mem_of_getElem? hw))

end Steps

/-- An error reply carries a text. -/
def Spoken (s : Pool K) : PoolEvent → Prop
  | .reply w => ∀ th ∈ s.thread w, ∀ msg ∈ th.inbox.head?, ∀ err,
      msg.task.operation host = .error err → err.message ≠ ""
  | _ => True

section Runs
variable {host} {size : ℕ} {s t : Pool K} {e : PoolEvent} {es : List PoolEvent}

theorem dispatch_settled (hopen : s.closed = false) (task : Task) :
    settled (s.dispatch task).trace = settled s.trace := by
  unfold dispatch
  simp only [hopen,Bool.false_eq_true,if_false]
  split
  · exact postMessage_settled ..
  · rfl

/-- Each step of an open pool keeps the ledger, and settles the promise of the worker
that replies. -/
theorem step_kept (h : Kept host size s) (hspoken : Spoken host s e)
    (hstep : poolStep host s e = some t) :
    e = .close ∨ (Kept host size t ∧ settled t.trace = settled s.trace++settling s e) := by
  cases poolStep_cases hstep with
  | submit task =>
      right
      constructor
      · exact dispatch_kept h task
      · rw [dispatch_settled h.opened]
        exact (List.append_nil _).symm
  | @reply w msg inbox caches alive hth =>
      right
      have hne := hspoken _ hth msg rfl
      simpa [settling,hth] using reply_kept h hth hne rfl
  | failure err hth =>
      right
      exact ⟨failure_kept h hth err,by simp [log,settled,settling]⟩
  | close => exact .inl rfl
  | terminated hterm =>
      obtain ⟨-,-,-,-,-,hnot,-⟩ := h
      simp [hnot] at hterm

theorem close_closed (hstep : poolStep host s .close = some t) : t.closed = true := by
  obtain rfl := Option.some.inj hstep
  unfold close
  split
  · assumption
  · rfl

@[simp] theorem postMessage_closed (s : Pool K) (w : ℕ) (msg : Message) :
    (s.postMessage w msg).closed = s.closed := by
  unfold postMessage
  split <;> rfl

@[simp] theorem release_closed (s : Pool K) (w : ℕ) : (s.release w).closed = s.closed := by
  unfold release
  split
  · exact postMessage_closed ..
  · rfl

@[simp] theorem onMessage_closed (s : Pool K) (w : ℕ) (msg : Reply) :
    (s.onMessage w msg).closed = s.closed := by
  unfold onMessage
  split
  · rfl
  · dsimp only
    split
    · split
      · rfl
      · exact release_closed ..
    · exact release_closed ..

theorem closed_stays (hclosed : s.closed = true) (hstep : poolStep host s e = some t) :
    t.closed = true := by
  cases poolStep_cases hstep with
  | submit task => simp [dispatch,hclosed,log]
  | reply hth => simpa using hclosed
  | failure err hth => exact hclosed
  | close => simp [close,hclosed]
  | terminated hterm => exact hclosed

theorem run_kept {s₀ : Pool K} (h : Run (poolStep host) s₀ es s) (h₀ : Kept host size s₀)
    (hspoken : Throughout (poolStep host) (Spoken host) s₀ es) (hopen : s.closed = false) :
    Kept host size s := by
  have hlaw : Always (poolStep host) (fun u => u.closed = true ∨ Kept host size u) s₀ es := by
    apply always_of_throughout (fun _ hu => hu) _ (.inr h₀) hspoken
    intro u e v hu hspoken hstep
    rcases hu with hclosed | hk
    · exact .inl (closed_stays hclosed hstep)
    · rcases step_kept hk hspoken hstep with rfl | ⟨hkv,-⟩
      · exact .inl (close_closed hstep)
      · exact .inr hkv
  exact (hlaw.at_end h).resolve_left (by simp [hopen])

/-- What the ledger says of the schedule. -/
theorem Kept.scheduled (hsize : 1 ≤ size) (h : Kept host size s) : Scheduled host s := by
  obtain ⟨d,hr,hl,hlen,hworkers,-,-⟩ := h
  have hslots : d.slots ≠ [] := List.ne_nil_of_length_pos (hlen ▸ hsize)
  refine ⟨hr.single,hr.idle_iff,?_,fun msg hm => hl.messages msg (hr.mem_items hm),
    fun p hp hns => hl.placed_once hr hp hns,?_,?_,?_,hl.answers,
    fun hidle p hp => hl.settled_of_idle hr hslots hidle hp⟩
  · rw [hr.queue,hr.idle]
    exact d.eager
  · have hcount := d.count
    have hpending : s.pending.entries.length = d.queue.length+(held d.slots).length := by
      have := hl.placed.length_eq
      simp only [List.length_map,Dispatcher.items,List.length_append] at this
      exact this.symm
    simp only [stats,hr.idle,hr.queue,hworkers,hpending,List.length_range]
    omega
  · rw [← hl.order]
    exact List.prefix_append ..
  · exact (List.nodup_map_iff Nat.succ_injective).mp hl.nodup.of_append_left

/-- In every state that an open pool can reach, the workers hold and the queue keeps
the tasks as scheduled, and a step settles the promise whose task was answered and
no other. -/
theorem pool_scheduled (hsize : 1 ≤ size) (h : Run (poolStep host) (Pool.start size) es s)
    (hspoken : Throughout (poolStep host) (Spoken host) (Pool.start size) es)
    (hopen : s.closed = false) :
    Scheduled host s ∧ ∀ e t, Spoken host s e → poolStep host s e = some t → t.closed = false →
      settled t.trace = settled s.trace++settling s e := by
  have hk := run_kept h (start_kept size) hspoken hopen
  refine ⟨hk.scheduled hsize,fun e t hse hstep htopen => ?_⟩
  rcases step_kept hk hse hstep with rfl | ⟨-,hsettled⟩
  · simp [close_closed hstep] at htopen
  · exact hsettled

end Runs

/-- A host that can parse no key. -/
def keyless : HostRsa Unit where
  createPublicKey _ := .error { message := "error:1E08010C:DECODER routines::unsupported" }
  createPrivateKey _ := .error { message := "error:1E08010C:DECODER routines::unsupported" }
  publicEncrypt _ b := .ok b
  privateDecrypt _ b := .ok b
  privateEncrypt _ b := .ok b
  publicDecrypt _ b := .ok b

theorem keyless_spoken (s : Pool Unit) (e : PoolEvent) : Spoken keyless s e := by
  cases e with
  | reply w =>
      intro th _ msg _ err herr
      have hmsg : msg.task.operation keyless =
          .error { message := "error:1E08010C:DECODER routines::unsupported" } := by
        cases msg.task <;> rfl
      rw [hmsg,Except.error.injEq] at herr
      subst herr
      decide
  | _ => trivial

/-- Three tasks for two workers: the one that waits goes to the worker which replies. -/
theorem pool_scheduled_garbled : ∃ s, Run (poolStep keyless) (Pool.start 2)
    [.submit (.encrypt "not a key" [1]),.submit (.decrypt "not a key" [2]),
      .submit (.sign "not a key" [3]),.reply 0] s ∧
    (handed s.trace,settled s.trace) = ([1,2,3],[1]) ∧ Scheduled keyless s := by
  obtain ⟨s,hrun,hobs⟩ : ∃ s, Run (poolStep keyless) (Pool.start 2)
      [.submit (.encrypt "not a key" [1]),.submit (.decrypt "not a key" [2]),
        .submit (.sign "not a key" [3]),.reply 0] s ∧
      (s.closed,handed s.trace,settled s.trace) = (false,[1,2,3],[1]) := by
    apply Run.of_observation
    rfl
  obtain ⟨hopen,hobs⟩ := Prod.mk.inj hobs
  exact ⟨s,hrun,hobs,
    (pool_scheduled (by decide) hrun (throughout_of_forall keyless_spoken _ _) hopen).1⟩

end Scheduling
end SparkProtocol.CryptoPools
