import SparkProtocol.PoolScheduling

/-!
# What a promise of the pool is worth

Workers fail, replies come late or without a text, the pool is closed while tasks
are out: whatever happens, a promise that settles does so with what the operation
gives on the task of its own call, or with one of the two refusals of a closed pool.
-/
namespace SparkProtocol.CryptoPools
open ByteStrings HostValues OrderedMaps LabelledRuns Pool

/-- The rejections which are the pool's own. -/
def refusals : List JsError := [{ message := "CryptoPool is closed" },{ message := "CryptoPool closed" }]

/-- What the promise of a task may settle with. An error crosses the threads as its message. -/
def Fulfils {K : Type} (host : HostRsa K) (closed : Bool) (t : Task) : Except JsError Value → Prop
  | .ok v => t.operation host = .ok v
  | .error e =>
      (∃ err, t.operation host = .error err ∧ e = { message := err.message }) ∨
        (closed = true ∧ e ∈ refusals)

/-- What a promise has settled with. -/
def settlementIn (trace : List PoolOut) (promise : ℕ) : Option (Except JsError Value) :=
  trace.findSome? fun o => match o with
    | .resolve p v => if p = promise then some (.ok v) else none
    | .reject p e => if p = promise then some (.error e) else none
    | _ => none

section Truth
variable {K : Type} (host : HostRsa K)

def Says (submitted : List Task) (closed : Bool) : PoolOut → Prop
  | .resolve promise v => ∃ t, submitted[promise]? = some t ∧ Fulfils host closed t (.ok v)
  | .reject promise e => ∃ t, submitted[promise]? = some t ∧ Fulfils host closed t (.error e)
  | _ => True

/-- The message waits or is with a worker. -/
def Posted (s : Pool K) (msg : Message) : Prop :=
  msg ∈ s.queue ∨ ∃ th ∈ s.threads, msg ∈ th.inbox

/-- Every message that is about carries the task of the promise with its id. -/
structure Sincere (s : Pool K) : Prop where
  owners : ∀ id own, (id,own) ∈ s.pending.entries →
    id < s.nextId ∧ s.submitted[own.promise]? = some own.task
  messages : ∀ msg, Posted s msg →
    msg.id < s.nextId ∧ ∀ own, (msg.id,own) ∈ s.pending.entries → own.task = msg.task
  caches : ∀ th ∈ s.threads, th.caches.Sound host
  truths : ∀ o ∈ s.trace, Says host s.submitted s.closed o
  closing : s.terminating = true → s.closed = true

variable {host} {s t : Pool K} {w : ℕ} {msg : Message}

theorem Fulfils.closing {task : Task} {r : Except JsError Value} {closed closed' : Bool}
    (h : Fulfils host closed task r) (hc : closed = true → closed' = true) :
    Fulfils host closed' task r := by
  cases r with
  | ok v => exact h
  | error e => exact h.imp_right fun ⟨hcl,he⟩ => ⟨hc hcl,he⟩

theorem Says.later {o : PoolOut} {submitted rest : List Task} {closed closed' : Bool}
    (h : Says host submitted closed o) (hc : closed = true → closed' = true) :
    Says host (submitted++rest) closed' o := by
  have hkeep : ∀ {p : ℕ} {task : Task}, submitted[p]? = some task →
      (submitted++rest)[p]? = some task := fun hp =>
    (List.getElem?_append_left (List.getElem?_eq_some_iff.mp hp).choose).trans hp
  cases o with
  | resolve p v =>
      obtain ⟨task,ht,hf⟩ := h
      exact ⟨task,hkeep ht,hf⟩
  | reject p e =>
      obtain ⟨task,ht,hf⟩ := h
      exact ⟨task,hkeep ht,hf.closing hc⟩
  | posted => trivial
  | error => trivial

/-- A worker whose inbox has changed, with the messages of the new one vouched for. -/
theorem Sincere.worker (h : Sincere host s) {th th' : Thread K} (hth : s.threads[w]? = some th)
    (hcaches : th'.caches.Sound host)
    (hinbox : ∀ m ∈ th'.inbox, m ∈ th.inbox ∨ (m.id < s.nextId ∧
      ∀ own, (m.id,own) ∈ s.pending.entries → own.task = m.task)) :
    Sincere host { s with threads := s.threads.set w th' } := by
  have hmem := List.mem_of_getElem? hth
  refine ⟨h.owners,?_,?_,h.truths,h.closing⟩
  · rintro m (hm | ⟨u,hu,hm⟩)
    · exact h.messages m (.inl hm)
    · rcases List.mem_or_eq_of_mem_set hu with hu | rfl
      · exact h.messages m (.inr ⟨u,hu,hm⟩)
      · rcases hinbox m hm with hm | hm
        · exact h.messages m (.inr ⟨th,hmem,hm⟩)
        · exact hm
  · intro u hu
    rcases List.mem_or_eq_of_mem_set hu with hu | rfl
    · exact h.caches u hu
    · exact hcaches

theorem Sincere.log (h : Sincere host s) {o : PoolOut} (ho : Says host s.submitted s.closed o) :
    Sincere host (s.log o) := by
  refine ⟨h.owners,h.messages,h.caches,fun o' ho' => ?_,h.closing⟩
  rcases List.mem_append.mp ho' with ho' | ho'
  · exact h.truths o' ho'
  · rwa [List.mem_singleton.mp ho']

theorem Sincere.delete (h : Sincere host s) (id : ℕ) :
    Sincere host { s with pending := s.pending.delete id } := by
  refine ⟨fun id' own hm => h.owners id' own (OrderedMap.mem_delete.mp hm).1,?_,h.caches,h.truths,
    h.closing⟩
  intro m hm
  obtain ⟨hid,hown⟩ := h.messages m hm
  exact ⟨hid,fun own ho => hown own (OrderedMap.mem_delete.mp ho).1⟩

theorem postMessage_sincere (h : Sincere host s) (hid : msg.id < s.nextId)
    (hown : ∀ own, (msg.id,own) ∈ s.pending.entries → own.task = msg.task) :
    Sincere host (s.postMessage w msg) := by
  unfold postMessage
  split
  · next th hth =>
      have hposted : Sincere host
          { s with threads := s.threads.set w { th with inbox := th.inbox++[msg] } } := by
        refine h.worker hth (h.caches th (List.mem_of_getElem? hth)) fun m hm => ?_
        rcases List.mem_append.mp hm with hm | hm
        · exact .inl hm
        · obtain rfl := List.mem_singleton.mp hm
          exact .inr ⟨hid,hown⟩
      exact hposted.log trivial
  · exact h

theorem release_sincere (h : Sincere host s) : Sincere host (s.release w) := by
  unfold release
  split
  · next next queue hq =>
      have hnext := h.messages next (.inl (hq ▸ List.mem_cons_self))
      refine postMessage_sincere ⟨h.owners,?_,h.caches,h.truths,h.closing⟩ hnext.1 hnext.2
      rintro m (hm | hm)
      · exact h.messages m (.inl (hq ▸ List.mem_cons_of_mem _ hm))
      · exact h.messages m (.inr hm)
  · exact ⟨h.owners,h.messages,h.caches,h.truths,h.closing⟩

/-- A call goes on record under its number; an open pool enters it under a new id. -/
theorem dispatch_sincere (h : Sincere host s) (task : Task) : Sincere host (s.dispatch task) := by
  have hnew : (s.submitted++[task])[s.submitted.length]? = some task := List.getElem?_concat_length
  have hrecorded : Sincere host { s with submitted := s.submitted++[task] } := by
    refine ⟨fun id own hm => ?_,h.messages,h.caches,fun o ho => (h.truths o ho).later id,h.closing⟩
    obtain ⟨hid,hown⟩ := h.owners id own hm
    exact ⟨hid,getElem?_concat_some hown task⟩
  unfold dispatch
  dsimp only
  split
  · next hclosed => exact hrecorded.log ⟨task,hnew,.inr ⟨hclosed,by simp [refusals]⟩⟩
  · have hown : ∀ own, (s.nextId,own) ∈ (s.pending.set s.nextId ⟨s.submitted.length,task⟩).entries →
        own.task = task := by
      intro own ho
      rcases OrderedMap.mem_set.mp ho with ho | ⟨-,hne⟩
      · rw [(Prod.mk.inj ho).2]
      · exact absurd rfl hne
    have hentered : Sincere host { s with
        submitted := s.submitted++[task], nextId := s.nextId+1
        pending := s.pending.set s.nextId ⟨s.submitted.length,task⟩ } := by
      refine ⟨?_,?_,h.caches,hrecorded.truths,h.closing⟩
      · intro id own hm
        rcases OrderedMap.mem_set.mp hm with hm | ⟨hm,-⟩
        · obtain ⟨rfl,rfl⟩ := Prod.mk.inj hm
          exact ⟨Nat.lt_succ_self _,hnew⟩
        · obtain ⟨hid,hown⟩ := hrecorded.owners id own hm
          exact ⟨Nat.lt_succ_of_lt hid,hown⟩
      · intro m hm
        obtain ⟨hid,hown⟩ := h.messages m hm
        refine ⟨Nat.lt_succ_of_lt hid,fun own ho => ?_⟩
        rcases OrderedMap.mem_set.mp ho with ho | ⟨ho,-⟩
        · have := (Prod.mk.inj ho).1
          omega
        · exact hown own ho
    split
    · exact postMessage_sincere
        ⟨hentered.owners,hentered.messages,hentered.caches,hentered.truths,h.closing⟩
        (Nat.lt_succ_self _) hown
    · refine ⟨hentered.owners,?_,hentered.caches,hentered.truths,h.closing⟩
      rintro m (hm | hm)
      · rcases List.mem_append.mp hm with hm | hm
        · exact hentered.messages m (.inl hm)
        · obtain rfl := List.mem_singleton.mp hm
          exact ⟨Nat.lt_succ_self _,hown⟩
      · exact hentered.messages m (.inr hm)

/-- A reply is what the operation gives on the task of the message. -/
theorem onTask_fulfils (msg : Message) {caches : Caches K} (hsound : caches.Sound host)
    (closed : Bool) :
    (onTask host caches msg).1.id = msg.id ∧
      (∀ result, (onTask host caches msg).1.outcome = .ok result →
        Fulfils host closed msg.task (.ok (msg.task.returned result))) ∧
      ∀ text, (onTask host caches msg).1.outcome = .error text →
        Fulfils host closed msg.task (.error { message := text }) := by
  have hop := (compute_sound hsound msg.task).1
  unfold onTask
  rcases hc : compute host caches msg.task with ⟨r,c⟩
  rw [hc] at hop
  cases r with
  | ok result =>
      refine ⟨rfl,fun b hb => ?_,fun text ht => by cases ht⟩
      obtain rfl := Except.ok.inj hb
      exact hop.symm
  | error err =>
      refine ⟨rfl,fun b hb => (by cases hb),fun text ht => ?_⟩
      obtain rfl := Except.error.inj ht
      exact .inl ⟨err,hop.symm,rfl⟩

theorem onMessage_sincere (h : Sincere host s) {r : Reply} {task : Task}
    (hown : ∀ own, (r.id,own) ∈ s.pending.entries → own.task = task)
    (hok : ∀ result, r.outcome = .ok result → Fulfils host s.closed task (.ok (task.returned result)))
    (herror : ∀ text, r.outcome = .error text →
      Fulfils host s.closed task (.error { message := text })) :
    Sincere host (s.onMessage w r) := by
  unfold onMessage
  split
  · exact h
  · next own hget =>
      have hmem := OrderedMap.get_eq_some.mp hget
      obtain rfl := hown own hmem
      have hsub := (h.owners _ _ hmem).2
      have hdel := h.delete r.id
      dsimp only
      split
      · next text ht =>
          split
          · exact hdel
          · exact release_sincere (hdel.log ⟨own.task,hsub,herror text ht⟩)
      · next result hr => exact release_sincere (hdel.log ⟨own.task,hsub,hok result hr⟩)

theorem close_sincere (h : Sincere host s) : Sincere host s.close := by
  unfold close
  split
  · exact h
  · refine ⟨h.owners,?_,h.caches,fun o ho => ?_,fun _ => rfl⟩
    · rintro m (hm | hm)
      · cases hm
      · exact h.messages m (.inr hm)
    · have hlater : Says host (s.submitted++[]) true o := (h.truths o ho).later fun _ => rfl
      rwa [List.append_nil] at hlater

/-- What is still owed when the threads have ended is refused. -/
theorem terminated_sincere (h : Sincere host s) (hterm : s.terminating = true) :
    Sincere host s.terminated := by
  refine ⟨by simp [terminated,OrderedMap.empty],?_,?_,fun o ho => ?_,by simp [terminated]⟩
  · rintro m (hm | ⟨u,hu,hm⟩)
    · exact ⟨(h.messages m (.inl hm)).1,by simp [terminated,OrderedMap.empty]⟩
    · obtain ⟨th,hth,rfl⟩ := List.mem_map.mp hu
      exact ⟨(h.messages m (.inr ⟨th,hth,hm⟩)).1,by simp [terminated,OrderedMap.empty]⟩
  · intro u hu
    obtain ⟨th,hth,rfl⟩ := List.mem_map.mp hu
    exact h.caches th hth
  · rcases List.mem_append.mp ho with ho | ho
    · exact h.truths o ho
    · obtain ⟨own,hown,rfl⟩ := List.mem_map.mp ho
      obtain ⟨⟨id,own'⟩,hm,rfl⟩ := List.mem_map.mp hown
      exact ⟨own'.task,(h.owners id own' hm).2,.inr ⟨h.closing hterm,by simp [refusals]⟩⟩

theorem pool_sincere {e : PoolEvent} (h : Sincere host s) (hstep : poolStep host s e = some t) :
    Sincere host t := by
  cases poolStep_cases hstep with
  | submit task => exact dispatch_sincere h task
  | @reply w msg inbox caches alive hth =>
      obtain ⟨hw,-⟩ := thread_alive hth
      have hsound := h.caches _ (List.mem_of_getElem? hw)
      obtain ⟨-,hown⟩ := h.messages msg (.inr ⟨_,List.mem_of_getElem? hw,List.mem_cons_self⟩)
      obtain ⟨hrid,hok,herror⟩ := onTask_fulfils msg hsound s.closed
      have htaken : Sincere host { s with
          threads := s.threads.set w ⟨inbox,(onTask host caches msg).2,alive⟩ } :=
        h.worker hw (onTask_sound hsound) fun m hm => .inl (List.mem_cons_of_mem _ hm)
      exact onMessage_sincere htaken (hrid ▸ hown) hok herror
  | @failure w th err hth =>
      obtain ⟨hw,-⟩ := thread_alive hth
      have hdead : Sincere host { s with threads := s.threads.set w { th with alive := false } } :=
        h.worker hw (h.caches th (List.mem_of_getElem? hw)) fun m hm => .inl hm
      exact hdead.log trivial
  | close => exact close_sincere h
  | terminated hterm => exact terminated_sincere h hterm

theorem start_sincere (size : ℕ) : Sincere host (Pool.start size) := by
  rw [start_eq]
  refine ⟨by simp [OrderedMap.empty],?_,?_,by simp,by simp⟩
  · rintro m (hm | ⟨th,hth,hm⟩)
    · cases hm
    · rw [List.eq_of_mem_replicate hth] at hm
      cases hm
  · intro th hth
    rw [List.eq_of_mem_replicate hth]
    exact ⟨by simp,by simp⟩

/-- A promise that has settled has settled truthfully. -/
theorem Sincere.settlement (h : Sincere host s) {p : ℕ} {r : Except JsError Value}
    (hr : settlementIn s.trace p = some r) :
    ∃ task, s.submitted[p]? = some task ∧ Fulfils host s.closed task r := by
  obtain ⟨o,ho,hp⟩ := List.exists_of_findSome?_eq_some hr
  have htrue := h.truths o ho
  cases o with
  | resolve q v =>
      simp only [Option.ite_none_right_eq_some,Option.some.injEq] at hp
      obtain ⟨rfl,rfl⟩ := hp
      exact htrue
  | reject q e =>
      simp only [Option.ite_none_right_eq_some,Option.some.injEq] at hp
      obtain ⟨rfl,rfl⟩ := hp
      exact htrue
  | posted => cases hp
  | error => cases hp

@[simp] theorem postMessage_submitted (s : Pool K) (w : ℕ) (msg : Message) :
    (s.postMessage w msg).submitted = s.submitted := by
  unfold postMessage
  split <;> rfl

@[simp] theorem release_submitted (s : Pool K) (w : ℕ) : (s.release w).submitted = s.submitted := by
  unfold release
  split
  · exact postMessage_submitted ..
  · rfl

@[simp] theorem onMessage_submitted (s : Pool K) (w : ℕ) (r : Reply) :
    (s.onMessage w r).submitted = s.submitted := by
  unfold onMessage
  split
  · rfl
  · dsimp only
    split
    · split
      · rfl
      · exact release_submitted ..
    · exact release_submitted ..

@[simp] theorem dispatch_submitted (s : Pool K) (task : Task) :
    (s.dispatch task).submitted = s.submitted++[task] := by
  unfold dispatch
  dsimp only
  split
  · rfl
  · split
    · exact postMessage_submitted ..
    · rfl

/-- What has been submitted keeps its number. -/
theorem submitted_grows {e : PoolEvent} (hstep : poolStep host s e = some t) :
    ∃ rest, t.submitted = s.submitted++rest := by
  cases poolStep_cases hstep with
  | submit task => exact ⟨[task],dispatch_submitted s task⟩
  | reply _ => exact ⟨[],by simp⟩
  | failure _ _ => exact ⟨[],(List.append_nil _).symm⟩
  | close =>
      refine ⟨[],?_⟩
      unfold close
      split <;> simp
  | terminated _ => exact ⟨[],(List.append_nil _).symm⟩

end Truth
end SparkProtocol.CryptoPools
