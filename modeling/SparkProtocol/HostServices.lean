import SparkProtocol.GatewayServices
import SparkProtocol.Meetings

/-!
# What the host does for one connection

While nobody closes the pool, the host is to each of its connections what a pair of
services is to a single session: a turn of the connection on the host is a turn of
the session whose calls are answered by the operations themselves. What the turn
costs the pool is one task at most.
-/
namespace SparkProtocol.Gateways
open ByteStrings HostValues StreamPrograms Program Handshake OrderedMaps LabelledRuns Sessions Session
  CryptoPools Pool Gateway

section Services
variable {K : Type} (host : HostRsa K)

/-- What a caller of the pool gets for its task. -/
def pooled (t : Task) : Except JsError Bytes :=
  bufferOf ((t.operation host).mapError fun e => { message := e.message })

/-- The host's RSA, keys by their texts. The pool does not recover signatures for
its callers; a device does. -/
def textRsa : Rsa where
  publicEncrypt keyPem data := pooled host (.encrypt keyPem data)
  privateDecrypt keyPem data := pooled host (.decrypt keyPem data)
  privateEncrypt keyPem data := pooled host (.sign keyPem data)
  publicDecrypt keyPem signature := (loadPublicKey host keyPem).bind fun k => host.publicDecrypt k signature

def hostServices (loadCoreKey : String → Option Bytes → Except JsError (Option String)) : Services :=
  ⟨textRsa host,loadCoreKey⟩

end Services

/-- The event of the host in which connection `i` takes its turn. -/
def Host.turn {K : Type} (loadCoreKey : String → Option Bytes → Except JsError (Option String))
    (h : Host K) (i : ℕ) : ServerTurn → HostEvent
  | .resume => .gateway (.session i .resume)
  | .loop => .gateway (.session i .loop)
  | .answer =>
      match (h.gateway.connections[i]?).bind fun c => awaited c.session with
      | some (.loadCoreKey coreId inlineDer) => .loaded i (loadCoreKey coreId inlineDer)
      | _ => .settled i

section Turns
variable {K : Type} {opts : Options} {host : HostRsa K} {h h' : Host K} {i : ℕ}
  {loadCoreKey : String → Option Bytes → Except JsError (Option String)}

theorem fulfilled_pooled {t : Task} {v : Except JsError Value} (h : Fulfils host false t v) :
    bufferOf v = pooled host t := by
  unfold pooled
  cases v with
  | ok v =>
      have hop : t.operation host = .ok v := h
      rw [hop]
      rfl
  | error e =>
      rcases h with ⟨err,hop,rfl⟩ | ⟨hclosed,-⟩
      · rw [hop]
        rfl
      · cases hclosed

/-- The settled promise of an open pool is the answer of the services. -/
theorem relay_answer {c : Call} {t : Task} {v : Except JsError Value} (hc : rsaTask c = some t)
    (hv : Fulfils host false t v) :
    relay (bufferOf v) c = (hostServices host loadCoreKey).answer c := by
  rw [fulfilled_pooled hv]
  cases c with
  | loadCoreKey coreId inlineDer => cases hc
  | _ =>
      obtain rfl := Option.some.inj hc
      rfl

/-- Of an answer only what it says to the awaited call matters. -/
theorem step_answer_congr {cfg : Config} {s : Session} {c : Call} {a b : (c : Call) → Answer c}
    (hc : awaited s = some c) (hab : a c = b c) :
    step cfg s (.answer a) = step cfg s (.answer b) := by
  unfold awaited at hc
  split at hc
  · next k hk =>
      obtain rfl := Option.some.inj hc
      simp only [step,hk,hab]
  · cases hc

theorem awaited_of_step {cfg : Config} {s t : Session} {a : (c : Call) → Answer c}
    (h : step cfg s (.answer a) = some t) : ∃ c, awaited s = some c := by
  cases step_cases h with
  | @answer c k _ hc => exact ⟨c,by simp only [awaited,hc]⟩

/-- A turn of a connection on the host is a turn of its session with these services. -/
theorem turn_serves {turn : ServerTurn} (hl : Linked opts host h) (hopen : h.pool.closed = false)
    (hstep : hostStep opts host h (h.turn loadCoreKey i turn) = some h') :
    ∃ c u, h.gateway.connections[i]? = some c ∧
      step (opts.config c.draws) c.session (turn.event (hostServices host loadCoreKey)) = some u ∧
      h' = h.went i (h.gateway.deliver i c u) := by
  cases turn with
  | resume =>
      cases hostStep_cases hstep with
      | continues _ hg =>
          cases gatewayStep_cases hg with
          | session hc ht => exact ⟨_,_,hc,ht,rfl⟩
      | stands hgo _ _ => cases hgo
  | loop =>
      cases hostStep_cases hstep with
      | continues _ hg =>
          cases gatewayStep_cases hg with
          | session hc ht => exact ⟨_,_,hc,ht,rfl⟩
      | stands hgo _ _ => cases hgo
  | answer =>
      unfold Host.turn at hstep
      dsimp only at hstep
      split at hstep
      · next coreId inlineDer hcall =>
          cases hostStep_cases hstep with
          | loaded hc hcall' hg =>
              cases gatewayStep_cases hg with
              | session hd ht =>
                  obtain rfl := Option.some.inj (hc.symm.trans hd)
                  rw [hc,Option.bind_some] at hcall
                  have hloaded : relayKey (loadCoreKey coreId inlineDer) (.loadCoreKey coreId inlineDer) =
                      (hostServices host loadCoreKey).answer (.loadCoreKey coreId inlineDer) := rfl
                  rw [step_answer_congr hcall hloaded] at ht
                  exact ⟨_,_,hc,ht,rfl⟩
      · next hcall =>
          cases hostStep_cases hstep with
          | settled hp hv hg =>
              cases gatewayStep_cases hg with
              | @session _ _ c _ hc ht =>
                  obtain ⟨call,hawait⟩ := awaited_of_step ht
                  obtain ⟨task,htask,hful⟩ := settled_owned hl hc hawait hp hv
                  rw [hopen] at hful
                  rw [step_answer_congr hawait (relay_answer htask hful)] at ht
                  exact ⟨_,_,hc,ht,rfl⟩

/-- A turn is open to a connection on the host as soon as its promise has settled. -/
theorem turn_enabled {turn : ServerTurn} {c : Connection} {u : Session} (hl : Linked opts host h)
    (hc : h.gateway.connections[i]? = some c)
    (hu : step (opts.config c.draws) c.session (turn.event (hostServices host loadCoreKey)) = some u)
    (hanswer : ∀ p, h.promises[i]? = some (some p) → ∃ v, settlementIn h.pool.trace p = some v) :
    ∃ h', hostStep opts host h (h.turn loadCoreKey i turn) = some h' := by
  have hanswered : ∀ {call : Call} (a : (c : Call) → Answer c), awaited c.session = some call →
      ∃ g, gatewayStep opts h.gateway (.session i (.answer a)) = some g := by
    intro call a hcall
    unfold awaited at hcall
    split at hcall
    · next k hk => exact ⟨_,by simp only [gatewayStep,hc,step,hk,Option.map_some]; rfl⟩
    · cases hcall
  cases turn with
  | resume =>
      have hu : step (opts.config c.draws) c.session .resume = some u := hu
      exact ⟨_,by simp only [Host.turn,hostStep,gatewayStep,hc,hu,Option.map_some]; rfl⟩
  | loop =>
      have hu : step (opts.config c.draws) c.session .loop = some u := hu
      exact ⟨_,by simp only [Host.turn,hostStep,gatewayStep,hc,hu,Option.map_some]; rfl⟩
  | answer =>
      obtain ⟨call,hcall⟩ := awaited_of_step hu
      obtain ⟨q,hq,hm⟩ := hl.matched i (List.getElem?_eq_some_iff.mp hc).choose
      rw [taskAt_some hc,hcall,Option.bind_some] at hm
      unfold Host.turn
      rw [hc,Option.bind_some,hcall]
      cases call with
      | loadCoreKey coreId inlineDer =>
          obtain ⟨g,hg⟩ := hanswered (relayKey (loadCoreKey coreId inlineDer)) hcall
          exact ⟨_,by simp only [hostStep,hc,Option.bind_some,hcall,hg,Option.map_some]; rfl⟩
      | _ =>
          cases hm with
          | out _ =>
              obtain ⟨v,hv⟩ := hanswer _ hq
              obtain ⟨g,hg⟩ := hanswered (relay (bufferOf v)) hcall
              exact ⟨_,by simp only [hostStep,hq,hv,Option.bind_some,hg,Option.map_some]; rfl⟩

/-- Going on costs the pool the task that the connection has come to. -/
theorem went_pool (h : Host K) (i : ℕ) (g : Gateway) :
    (h.went i g).pool = h.pool ∨
      ∃ t, taskAt g i = some t ∧ (h.went i g).pool = h.pool.dispatch t := by
  unfold Host.went
  split
  · next t ht => exact .inr ⟨t,ht,rfl⟩
  · exact .inl rfl

end Turns

section Pools
variable {K : Type} {host : HostRsa K} {s t : Pool K} {size w : ℕ}

/-- No thread has failed. -/
def Awake (threads : List (Thread K)) : Prop := ∀ th ∈ threads, th.alive = true

/-- The promises that are out. -/
def unsettled (s : Pool K) : ℕ := s.submitted.length-(settled s.trace).length

theorem Awake.set {threads : List (Thread K)} (h : Awake threads) (w : ℕ) {th : Thread K}
    (hth : th.alive = true) : Awake (threads.set w th) := by
  intro u hu
  rcases List.mem_or_eq_of_mem_set hu with hu | rfl
  · exact h u hu
  · exact hth

theorem postMessage_awake (h : Awake s.threads) (w : ℕ) (msg : Message) :
    Awake (s.postMessage w msg).threads := by
  unfold postMessage
  split
  · next th hth =>
      have halive : ({ th with inbox := th.inbox++[msg] } : Thread K).alive = true :=
        h th (List.mem_of_getElem? hth)
      exact h.set w halive
  · exact h

theorem release_awake (h : Awake s.threads) (w : ℕ) : Awake (s.release w).threads := by
  unfold release
  split
  · apply postMessage_awake
    exact h
  · exact h

theorem onMessage_awake (h : Awake s.threads) (w : ℕ) (r : Reply) :
    Awake (s.onMessage w r).threads := by
  unfold onMessage
  split
  · exact h
  · dsimp only
    split
    · split
      · exact h
      · apply release_awake
        exact h
    · apply release_awake
      exact h

theorem dispatch_awake (h : Awake s.threads) (task : Task) : Awake (s.dispatch task).threads := by
  unfold dispatch
  dsimp only
  split
  · exact h
  · split
    · apply postMessage_awake
      exact h
    · exact h

theorem reply_awake (h : Awake s.threads) (hstep : poolStep host s (.reply w) = some t) :
    Awake t.threads := by
  cases poolStep_cases hstep with
  | @reply _ msg inbox caches alive hth =>
      obtain ⟨-,halive⟩ := thread_alive hth
      have htaken : Awake (s.threads.set w ⟨inbox,(onTask host caches msg).2,alive⟩) := h.set w halive
      apply onMessage_awake
      exact htaken

theorem start_awake (size : ℕ) : Awake (Pool.start size : Pool K).threads := by
  rw [start_eq]
  intro th hth
  rw [List.eq_of_mem_replicate hth]

theorem settled_le (h : Kept host size s) : (settled s.trace).length ≤ s.submitted.length := by
  obtain ⟨d,-,hl,-⟩ := h
  have hcount := hl.accounted.length_eq
  simp only [List.length_append,List.length_map,List.length_range'] at hcount
  omega

theorem dispatch_unsettled (h : Kept host size s) (task : Task) :
    unsettled (s.dispatch task) = unsettled s+1 := by
  have hle := settled_le h
  unfold unsettled
  rw [dispatch_submitted,dispatch_settled h.opened,List.length_append,List.length_singleton]
  omega

/-- A task that succeeds and comes back takes one promise off those that are out. -/
theorem reply_settles (h : Kept host size s)
    (hgranted : ∀ task ∈ s.submitted, ∃ v, task.operation host = .ok v)
    (hstep : poolStep host s (.reply w) = some t) : Kept host size t ∧ unsettled t < unsettled s := by
  cases poolStep_cases hstep with
  | @reply _ msg inbox caches alive hth =>
      obtain ⟨d,hr,hl,-⟩ := id h
      obtain ⟨-,-,own,-,-,-,hsub⟩ := reply_owner hr hl (thread_alive hth).1
      have hne : ∀ err, msg.task.operation host = .error err → err.message ≠ "" := by
        intro err herr
        obtain ⟨v,hv⟩ := hgranted msg.task (List.mem_of_getElem? hsub)
        rw [hv] at herr
        cases herr
      obtain ⟨hk,hset⟩ := reply_kept h hth hne rfl
      refine ⟨hk,?_⟩
      have hle := settled_le hk
      unfold unsettled
      rw [hset,onMessage_submitted,List.length_append,List.length_singleton] at hle ⊢
      dsimp only at hle ⊢
      omega

/-- Either some worker has a reply to give, or nothing is out and every worker is idle. -/
theorem busy_or_rested (hsize : 1 ≤ size) (h : Kept host size s) (hawake : Awake s.threads) :
    (∃ w t, poolStep host s (.reply w) = some t) ∨
      (s.stats = ⟨size,size,0,0⟩ ∧ ∀ p < s.submitted.length, p ∈ settled s.trace) := by
  by_cases hidle : ∀ th ∈ s.threads, th.inbox = []
  · obtain ⟨d,hr,hl,hlen,hworkers,-⟩ := id h
    have hitems := d.items_nil (List.ne_nil_of_length_pos (hlen ▸ hsize)) (hr.held_nil hidle)
    have hqueue : d.queue = [] := (List.append_eq_nil_iff.mp hitems).1
    have hcount := d.count
    have hpending : s.pending.entries.length = 0 := by
      have hplaced := hl.placed.length_eq
      rw [hitems,List.map_nil,List.length_nil,List.length_map] at hplaced
      exact hplaced.symm
    refine .inr ⟨?_,(h.scheduled hsize).complete hidle⟩
    rw [hr.held_nil hidle,List.length_nil,hlen] at hcount
    simp only [stats,hworkers,List.length_range,hr.idle,hr.queue,hqueue,List.length_nil,hpending]
    rw [← hcount,Nat.add_zero]
  · obtain ⟨th,hth,hin⟩ : ∃ th ∈ s.threads, th.inbox ≠ [] := by
      by_contra hnone
      exact hidle fun th hth => by_contra fun hin => hnone ⟨th,hth,hin⟩
    obtain ⟨w,hw⟩ := List.mem_iff_getElem?.mp hth
    obtain ⟨msg,inbox,hin⟩ := List.exists_cons_of_ne_nil hin
    have hthread : s.thread w = some ⟨msg::inbox,th.caches,th.alive⟩ := by
      refine Option.filter_eq_some_iff.mpr ⟨?_,hawake th hth⟩
      rw [hw,← hin]
    exact .inl ⟨w,_,by simp only [poolStep,hthread]; rfl⟩

theorem settlement_exists {l : List PoolOut} {p : ℕ} (h : p ∈ settled l) :
    ∃ v, settlementIn l p = some v := by
  obtain ⟨o,ho,hp⟩ := List.mem_filterMap.mp h
  refine Option.isSome_iff_exists.mp (List.findSome?_isSome_iff.mpr ⟨o,ho,?_⟩)
  cases o with
  | resolve q v =>
      obtain rfl := Option.some.inj hp
      simp
  | reject q e =>
      obtain rfl := Option.some.inj hp
      simp
  | posted => cases hp
  | error => cases hp

end Pools
end SparkProtocol.Gateways
