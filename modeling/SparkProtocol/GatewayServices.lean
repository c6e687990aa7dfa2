import SparkProtocol.TerminalCauses
import SparkProtocol.PoolTruth

/-!
# The gateway on its crypto pool

All connections share one pool. A handshake that comes to an RSA call hands a task
to the pool in the same breath and awaits the promise it gets; the pool settles it
whenever a worker has replied, whatever the other connections and the pool have been
through in between, and `run()` takes the value up some time later. What a handshake
is told depends on none of this: it is told what the operation gives on its own
arguments, or that the pool has closed.
-/
namespace SparkProtocol.Gateways
open ByteStrings HostValues StreamPrograms Program Handshake OrderedMaps LabelledRuns Sessions Session
  CryptoPools Gateway

/-- The service call that `run()` awaits. -/
def awaited (s : Session) : Option Call :=
  match s.control with
  | .handshake (.call c _) => some c
  | _ => none

/-- The pool's task for a service call. Keys are not loaded by the pool. -/
def rsaTask : Call → Option Task
  | .decrypt keyPem ciphertext => some (.decrypt keyPem ciphertext)
  | .encrypt keyPem data => some (.encrypt keyPem data)
  | .sign keyPem hash => some (.sign keyPem hash)
  | .loadCoreKey _ _ => none

/-- The buffer that a handshake gets out of its promise; it never asks to verify. -/
def bufferOf : Except JsError Value → Except JsError Bytes
  | .ok (.bytes b) => .ok b
  | .ok (.verdict _) => .ok []
  | .error e => .error e

/-- The answer to the RSA call that is awaited. -/
def relay (r : Except JsError Bytes) : (c : Call) → Answer c
  | .loadCoreKey _ _ => Except.ok none
  | .decrypt _ _ => r
  | .encrypt _ _ => r
  | .sign _ _ => r

/-- The answer of the key loader. -/
def relayKey (r : Except JsError (Option String)) : (c : Call) → Answer c
  | .loadCoreKey _ _ => r
  | .decrypt _ _ => Except.ok []
  | .encrypt _ _ => Except.ok []
  | .sign _ _ => Except.ok []

/-- The gateway, the pool, and the promise that each connection awaits. -/
structure Host (K : Type) where
  gateway : Gateway := {}
  pool : Pool K
  promises : List (Option ℕ) := []

inductive HostEvent where
  | gateway (e : GatewayEvent)
  /-- `run()` of a connection takes up what its promise has settled with. -/
  | settled (i : ℕ)
  | loaded (i : ℕ) (r : Except JsError (Option String))
  /-- Anything else that happens to the pool, tasks of other callers included. -/
  | pool (e : PoolEvent)

/-- What connection `i` awaits. -/
def awaitedAt (g : Gateway) (i : ℕ) : Option Call := (g.connections[i]?).bind fun c => awaited c.session

/-- The task that connection `i` has come to. -/
def taskAt (g : Gateway) (i : ℕ) : Option Task :=
  (g.connections[i]?).bind fun c => (awaited c.session).bind rsaTask

namespace Host
variable {K : Type}

def start (size : ℕ) : Host K := { pool := Pool.start size }

/-- `run()` of connection `i` has gone on, and has called the pool if that is what it
awaits now. -/
def went (h : Host K) (i : ℕ) (g : Gateway) : Host K :=
  match taskAt g i with
  | some t => ⟨g,h.pool.dispatch t,h.promises.set i (some h.pool.submitted.length)⟩
  | none => ⟨g,h.pool,h.promises.set i none⟩

end Host

/-- The events in which `run()` goes on without being answered. -/
def goesOn : Event → Bool
  | .run => true
  | .resume => true
  | .loop => true
  | _ => false

def hostStep {K : Type} (opts : Options) (host : HostRsa K) (h : Host K) : HostEvent → Option (Host K)
  | .gateway (.session i e) =>
      match e with
      | .answer _ => none
      | e =>
          (gatewayStep opts h.gateway (.session i e)).map fun g =>
            if goesOn e then h.went i g else { h with gateway := g }
  | .gateway (.accept draws) =>
      (gatewayStep opts h.gateway (.accept draws)).map fun g =>
        { h with gateway := g, promises := h.promises++[none] }
  | .gateway .start => (gatewayStep opts h.gateway .start).map fun g => { h with gateway := g }
  | .gateway .stop => (gatewayStep opts h.gateway .stop).map fun g => { h with gateway := g }
  | .settled i =>
      match h.promises[i]? with
      | some (some p) =>
          (settlementIn h.pool.trace p).bind fun r =>
            (gatewayStep opts h.gateway (.session i (.answer (relay (bufferOf r))))).map (h.went i)
      | _ => none
  | .loaded i r =>
      match (h.gateway.connections[i]?).bind fun c => awaited c.session with
      | some (.loadCoreKey _ _) =>
          (gatewayStep opts h.gateway (.session i (.answer (relayKey r)))).map (h.went i)
      | _ => none
  | .pool e => (poolStep host h.pool e).map fun pool => { h with pool }

/-- A step of the host, by its event. -/
inductive HostTakes {K : Type} (opts : Options) (host : HostRsa K) (h : Host K) :
    HostEvent → Host K → Prop
  | continues {i : ℕ} {e : Event} {g : Gateway} : goesOn e = true →
      gatewayStep opts h.gateway (.session i e) = some g →
      HostTakes opts host h (.gateway (.session i e)) (h.went i g)
  | stands {i : ℕ} {e : Event} {g : Gateway} : goesOn e = false → (∀ a, e ≠ .answer a) →
      gatewayStep opts h.gateway (.session i e) = some g →
      HostTakes opts host h (.gateway (.session i e)) { h with gateway := g }
  | accept {draws : Draws} {g : Gateway} : gatewayStep opts h.gateway (.accept draws) = some g →
      HostTakes opts host h (.gateway (.accept draws))
        { h with gateway := g, promises := h.promises++[none] }
  | start {g : Gateway} : gatewayStep opts h.gateway .start = some g →
      HostTakes opts host h (.gateway .start) { h with gateway := g }
  | stop {g : Gateway} : gatewayStep opts h.gateway .stop = some g →
      HostTakes opts host h (.gateway .stop) { h with gateway := g }
  | settled {i p : ℕ} {v : Except JsError Value} {g : Gateway} : h.promises[i]? = some (some p) →
      settlementIn h.pool.trace p = some v →
      gatewayStep opts h.gateway (.session i (.answer (relay (bufferOf v)))) = some g →
      HostTakes opts host h (.settled i) (h.went i g)
  | loaded {i : ℕ} {c : Connection} {coreId : String} {inlineDer : Option Bytes}
      {r : Except JsError (Option String)} {g : Gateway} : h.gateway.connections[i]? = some c →
      awaited c.session = some (.loadCoreKey coreId inlineDer) →
      gatewayStep opts h.gateway (.session i (.answer (relayKey r))) = some g →
      HostTakes opts host h (.loaded i r) (h.went i g)
  | pool {e : PoolEvent} {pool : Pool K} : poolStep host h.pool e = some pool →
      HostTakes opts host h (.pool e) { h with pool }

theorem hostStep_cases {K : Type} {opts : Options} {host : HostRsa K} {h h' : Host K} {e : HostEvent}
    (hstep : hostStep opts host h e = some h') : HostTakes opts host h e h' := by
  cases e with
  | gateway e =>
      cases e with
      | start =>
          obtain rfl := Option.some.inj hstep
          exact .start rfl
      | accept draws =>
          obtain ⟨g,hg,rfl⟩ := Option.map_eq_some_iff.mp hstep
          exact .accept hg
      | stop =>
          obtain rfl := Option.some.inj hstep
          exact .stop rfl
      | session i e =>
          dsimp only [hostStep] at hstep
          split at hstep
          · cases hstep
          · next ha =>
              obtain ⟨g,hg,rfl⟩ := Option.map_eq_some_iff.mp hstep
              split
              · next hgo => exact .continues hgo hg
              · next hgo => exact .stands (Bool.eq_false_iff.mpr hgo) ha hg
  | settled i =>
      dsimp only [hostStep] at hstep
      split at hstep
      · next hp =>
          obtain ⟨v,hv,hstep⟩ := Option.bind_eq_some_iff.mp hstep
          obtain ⟨g,hg,rfl⟩ := Option.map_eq_some_iff.mp hstep
          exact .settled hp hv hg
      · cases hstep
  | loaded i r =>
      dsimp only [hostStep] at hstep
      split at hstep
      · next hcall =>
          obtain ⟨c,hc,hcall⟩ := Option.bind_eq_some_iff.mp hcall
          obtain ⟨g,hg,rfl⟩ := Option.map_eq_some_iff.mp hstep
          exact .loaded hc hcall hg
      · cases hstep
  | pool e =>
      obtain ⟨pool,hpool,rfl⟩ := Option.map_eq_some_iff.mp hstep
      exact .pool hpool

/-- What an RSA service tells a caller: what the operation gives on the caller's own
arguments, an error crossing as its message, or that the pool has closed. -/
def Told {K : Type} (host : HostRsa K) (closed : Bool) (t : Task) (r : Except JsError Bytes) : Prop :=
  ∃ v, Fulfils host closed t v ∧ r = bufferOf v

/-- An answer to a service call that a handshake awaits. The key loader may say anything. -/
def Honours {K : Type} (host : HostRsa K) (closed : Bool) : (c : Call) → Answer c → Prop
  | .loadCoreKey _ _,_ => True
  | .decrypt keyPem ciphertext,r => Told host closed (.decrypt keyPem ciphertext) r
  | .encrypt keyPem data,r => Told host closed (.encrypt keyPem data) r
  | .sign keyPem hash,r => Told host closed (.sign keyPem hash) r

/-- A step of the gateway in which a handshake is answered, answers it so. -/
def Honoured {K : Type} (host : HostRsa K) (closed : Bool) (g : Gateway) : GatewayEvent → Prop
  | .session i (.answer a) => ∀ c call, g.connections[i]? = some c → awaited c.session = some call →
      Honours host closed call (a call)
  | _ => True

/-- What a connection awaits: nothing of the pool, or the promise of its own task. -/
inductive Matched (submitted : List Task) : Option Task → Option ℕ → Prop
  | free : Matched submitted none none
  | out {t : Task} {p : ℕ} : submitted[p]? = some t → Matched submitted (some t) (some p)

/-- What the host keeps. -/
structure Linked {K : Type} (opts : Options) (host : HostRsa K) (h : Host K) : Prop where
  tracked : Tracked opts h.gateway
  sincere : Sincere host h.pool
  length : h.promises.length = h.gateway.connections.length
  matched : ∀ i, i < h.gateway.connections.length →
    ∃ p, h.promises[i]? = some p ∧ Matched h.pool.submitted (taskAt h.gateway i) p

section Controls
variable {opts : Options} {g g' : Gateway} {i : ℕ} {c : Connection} {t : Session} {e : Event}

/-- Only what continues `run()` moves it. -/
theorem step_control {cfg : Config} {s : Session} (h : step cfg s e = some t)
    (he : goesOn e = false) (ha : ∀ a, e ≠ .answer a) : t.control = s.control := by
  cases step_cases h with
  | run _ => cases he
  | proceeds _ _ => cases he
  | reads _ _ => cases he
  | loop _ => cases he
  | answer a _ => exact absurd rfl (ha a)
  | data chunk => rfl
  | socketError err => exact ((detached_log s _).trans (detached_disconnect _)).control
  | socketClose => exact (detached_finalize s).control
  | idleTimeout _ =>
      have hoff : Detached s { s with idleTimer := false } := ⟨rfl,rfl,rfl,.inl rfl⟩
      exact ((hoff.trans (detached_log _ _)).trans (detached_disconnect _)).control
  | disconnect => exact (detached_disconnect s).control
  | send name opts => exact (detached_send cfg.node s name opts).control
  | request name opts token => exact (detached_request cfg.node s name opts token).control
  | requestTimeout _ => rfl

theorem awaited_congr {s : Session} (h : t.control = s.control) : awaited t = awaited s := by
  unfold awaited
  rw [h]

/-- Two gateways with the same connections, whose coroutines stand at the same places. -/
structure Standing (g g' : Gateway) : Prop where
  length : g'.connections.length = g.connections.length
  awaits : ∀ i, awaitedAt g' i = awaitedAt g i

theorem Standing.refl (g : Gateway) : Standing g g := ⟨rfl,fun _ => rfl⟩

theorem Standing.trans {g'' : Gateway} (h : Standing g g') (k : Standing g' g'') : Standing g g'' :=
  ⟨k.length.trans h.length,fun i => (k.awaits i).trans (h.awaits i)⟩

theorem awaitedAt_some (hc : g.connections[i]? = some c) : awaitedAt g i = awaited c.session := by
  rw [awaitedAt,hc,Option.bind_some]

theorem taskAt_eq (g : Gateway) (i : ℕ) : taskAt g i = (awaitedAt g i).bind rsaTask := by
  unfold taskAt awaitedAt
  cases g.connections[i]? <;> rfl

theorem taskAt_some (hc : g.connections[i]? = some c) :
    taskAt g i = (awaited c.session).bind rsaTask := by
  rw [taskAt_eq,awaitedAt_some hc]

theorem Standing.task (h : Standing g g') (i : ℕ) : taskAt g' i = taskAt g i := by
  rw [taskAt_eq,taskAt_eq,h.awaits]

/-- A step of one session leaves the other connections alone. -/
theorem deliver_others (h : Tracked opts g) (hc : g.connections[i]? = some c)
    (ht : step (opts.config c.draws) c.session e = some t) :
    (g.deliver i c t).connections.length = g.connections.length ∧
      ∀ j ≠ i, (g.deliver i c t).connections[j]? = g.connections[j]? := by
  obtain ⟨c',l,hg,-⟩ := (deliver_cases (h.attended i c hc) hc ht).trace
  exact ⟨by rw [hg,List.length_set],fun j hj => by rw [hg,List.getElem?_set_ne (Ne.symm hj)]⟩

theorem deliver_standing (h : Tracked opts g) (hc : g.connections[i]? = some c)
    (ht : step (opts.config c.draws) c.session e = some t) (hcontrol : t.control = c.session.control) :
    Standing g (g.deliver i c t) := by
  obtain ⟨hlength,hothers⟩ := deliver_others h hc ht
  refine ⟨hlength,fun j => ?_⟩
  by_cases hj : j = i
  · subst hj
    obtain ⟨c',l,hg,hs,-⟩ := (deliver_cases (h.attended j c hc) hc ht).trace
    have hself : (g.deliver j c t).connections[j]? = some c' := by
      rw [hg]
      exact getElem?_set_at hc c'
    rw [awaitedAt_some hself,awaitedAt_some hc,hs,awaited_congr hcontrol]
  · rw [awaitedAt,hothers j hj,awaitedAt]

theorem disconnectAt_standing (h : Tracked opts g) (i : ℕ) : Standing g (g.disconnectAt i) := by
  unfold disconnectAt
  split
  · next c hc =>
      have ht : step (opts.config c.draws) c.session .disconnect = some c.session.disconnect := rfl
      exact deliver_standing h hc ht (detached_disconnect c.session).control
  · exact .refl g

theorem foldl_standing (l : List ℕ) (h : Tracked opts g) : Standing g (l.foldl disconnectAt g) := by
  induction l generalizing g with
  | nil => exact .refl g
  | cons i l ih => exact (disconnectAt_standing h i).trans (ih (disconnectAt_tracked h i))

theorem stop_standing (h : Tracked opts g) : Standing g g.stop := by
  unfold stop
  split
  · have hall := foldl_standing g.sessions h
    exact ⟨hall.length,hall.awaits⟩
  · exact .refl g

end Controls

section Linking
variable {K : Type} {opts : Options} {host : HostRsa K} {h h' : Host K} {g : Gateway} {i : ℕ}

theorem Matched.grow {submitted rest : List Task} {t : Option Task} {p : Option ℕ}
    (h : Matched submitted t p) : Matched (submitted++rest) t p := by
  cases h with
  | free => exact .free
  | out hp => exact .out ((List.getElem?_append_left (List.getElem?_eq_some_iff.mp hp).choose).trans hp)

/-- The gateway has moved, and no coroutine with it. -/
theorem Linked.stand (hl : Linked opts host h) (ht : Tracked opts g) (hs : Standing h.gateway g) :
    Linked opts host { h with gateway := g } := by
  refine ⟨ht,hl.sincere,hl.length.trans hs.length.symm,fun i hi => ?_⟩
  obtain ⟨p,hp,hm⟩ := hl.matched i (hs.length ▸ hi)
  exact ⟨p,hp,by rw [hs.task]; exact hm⟩

/-- The coroutine of one connection has gone on. -/
theorem Linked.went (hl : Linked opts host h) (ht : Tracked opts g)
    (hlength : g.connections.length = h.gateway.connections.length)
    (hothers : ∀ j ≠ i, taskAt g j = taskAt h.gateway j) : Linked opts host (h.went i g) := by
  have hother : ∀ j q, j ≠ i → j < g.connections.length → ∃ p, (h.promises.set i q)[j]? = some p ∧
      Matched h.pool.submitted (taskAt g j) p := by
    intro j q hj hlt
    obtain ⟨p,hp,hm⟩ := hl.matched j (hlength ▸ hlt)
    rw [hothers j hj]
    exact ⟨p,by rw [List.getElem?_set_ne (Ne.symm hj),hp],hm⟩
  have hself : ∀ q, i < g.connections.length → (h.promises.set i q)[i]? = some q := fun q hi =>
    List.getElem?_set_self (by rw [hl.length,← hlength]; exact hi)
  unfold Host.went
  split
  · next t htask =>
      refine ⟨ht,dispatch_sincere hl.sincere t,?_,fun j hj => ?_⟩
      · rw [List.length_set,hl.length,hlength]
      · dsimp only
        rw [dispatch_submitted]
        by_cases hji : j = i
        · subst hji
          refine ⟨_,hself _ hj,?_⟩
          rw [htask]
          exact .out List.getElem?_concat_length
        · obtain ⟨p,hp,hm⟩ := hother j (some h.pool.submitted.length) hji hj
          exact ⟨p,hp,hm.grow⟩
  · next htask =>
      refine ⟨ht,hl.sincere,?_,fun j hj => ?_⟩
      · rw [List.length_set,hl.length,hlength]
      · by_cases hji : j = i
        · subst hji
          refine ⟨_,hself _ hj,?_⟩
          rw [htask]
          exact .free
        · exact hother j none hji hj

theorem Linked.pool (hl : Linked opts host h) {e : PoolEvent} {pool : Pool K}
    (hp : poolStep host h.pool e = some pool) : Linked opts host { h with pool } := by
  obtain ⟨rest,hrest⟩ := submitted_grows hp
  refine ⟨hl.tracked,pool_sincere hl.sincere hp,hl.length,fun i hi => ?_⟩
  obtain ⟨p,hpi,hm⟩ := hl.matched i hi
  exact ⟨p,hpi,by rw [hrest]; exact hm.grow⟩

theorem taskAt_started (opts : Options) (draws : Draws) :
    (awaited (({} : Session).run (opts.config draws))).bind rsaTask = none := rfl

theorem Linked.accepted (hl : Linked opts host h) (draws : Draws) :
    Linked opts host { h with
      gateway := h.gateway.accept opts draws, promises := h.promises++[none] } := by
  have hg : (h.gateway.accept opts draws).connections =
      h.gateway.connections++[{ draws, session := ({} : Session).run (opts.config draws) }] := rfl
  refine ⟨accept_tracked draws hl.tracked,hl.sincere,?_,fun i hi => ?_⟩
  · rw [List.length_append,hl.length,hg,List.length_append,List.length_singleton,
      List.length_singleton]
  · by_cases hlt : i < h.gateway.connections.length
    · obtain ⟨p,hp,hm⟩ := hl.matched i hlt
      refine ⟨p,getElem?_concat_some hp none,?_⟩
      unfold taskAt
      rw [hg,List.getElem?_append_left hlt]
      exact hm
    · rw [hg,List.length_append,List.length_singleton] at hi
      obtain rfl : i = h.gateway.connections.length := by omega
      refine ⟨none,by rw [← hl.length]; exact List.getElem?_concat_length,?_⟩
      unfold taskAt
      rw [hg,List.getElem?_concat_length,Option.bind_some,taskAt_started]
      exact .free

/-- The answer of a settled promise is the caller's own. -/
theorem relay_honours {call : Call} {t : Task} {closed : Bool} {v : Except JsError Value}
    (htask : rsaTask call = some t) (hv : Fulfils host closed t v) :
    Honours host closed call (relay (bufferOf v) call) := by
  cases call with
  | loadCoreKey => trivial
  | _ =>
      obtain rfl := Option.some.inj htask
      exact ⟨v,hv,rfl⟩

/-- A step of the host: the gateway takes at most one step, honoured by its services. -/
inductive HostMoves (opts : Options) (host : HostRsa K) (h h' : Host K) : Prop
  | still : h'.gateway = h.gateway → HostMoves opts host h h'
  | moves {e : GatewayEvent} : gatewayStep opts h.gateway e = some h'.gateway →
      Honoured host h.pool.closed h.gateway e → HostMoves opts host h h'

theorem went_gateway (h : Host K) (i : ℕ) (g : Gateway) : (h.went i g).gateway = g := by
  unfold Host.went
  split <;> rfl

/-- The coroutine of connection `i` has gone on in one step of the gateway. -/
theorem went_linked {e : Event} (hl : Linked opts host h)
    (hg : gatewayStep opts h.gateway (.session i e) = some g) : Linked opts host (h.went i g) := by
  have ht := tracked_keeps hl.tracked hg
  cases gatewayStep_cases hg with
  | session hc hstep =>
      obtain ⟨hlength,hothers⟩ := deliver_others hl.tracked hc hstep
      refine hl.went ht hlength fun j hj => ?_
      rw [taskAt,hothers j hj,taskAt]

/-- A step keeps the promises matched. -/
theorem host_linked {e : HostEvent} (hl : Linked opts host h)
    (hstep : hostStep opts host h e = some h') : Linked opts host h' := by
  cases hostStep_cases hstep with
  | continues _ hg => exact went_linked hl hg
  | stands hgo ha hg =>
      have ht := tracked_keeps hl.tracked hg
      cases gatewayStep_cases hg with
      | session hc hmove =>
          exact hl.stand ht (deliver_standing hl.tracked hc hmove (step_control hmove hgo ha))
  | @accept draws g hg =>
      cases gatewayStep_cases hg with
      | accept _ _ => exact hl.accepted draws
  | start hg =>
      have ht := tracked_keeps hl.tracked hg
      cases gatewayStep_cases hg with
      | start => exact hl.stand ht ⟨rfl,fun _ => rfl⟩
  | stop hg =>
      have ht := tracked_keeps hl.tracked hg
      cases gatewayStep_cases hg with
      | stop => exact hl.stand ht (stop_standing hl.tracked)
  | settled _ _ hg => exact went_linked hl hg
  | loaded _ _ hg => exact went_linked hl hg
  | pool hp => exact hl.pool hp

/-- The promise of a connection that is answered was that of the call which it awaits. -/
theorem settled_owned {p : ℕ} {v : Except JsError Value} {c : Connection} {call : Call}
    (hl : Linked opts host h) (hc : h.gateway.connections[i]? = some c)
    (hcall : awaited c.session = some call) (hp : h.promises[i]? = some (some p))
    (hv : settlementIn h.pool.trace p = some v) :
    ∃ t, rsaTask call = some t ∧ Fulfils host h.pool.closed t v := by
  obtain ⟨q,hq,hm⟩ := hl.matched i (List.getElem?_eq_some_iff.mp hc).choose
  obtain rfl := Option.some.inj (hq.symm.trans hp)
  rw [taskAt_some hc,hcall,Option.bind_some] at hm
  generalize rsaTask call = task at hm
  cases hm with
  | out hsub =>
      obtain ⟨t,ht,hful⟩ := hl.sincere.settlement hv
      exact ⟨_,rfl,Option.some.inj (ht.symm.trans hsub) ▸ hful⟩

theorem settled_honours {p : ℕ} {v : Except JsError Value} (hl : Linked opts host h)
    (hp : h.promises[i]? = some (some p)) (hv : settlementIn h.pool.trace p = some v) :
    Honoured host h.pool.closed h.gateway (.session i (.answer (relay (bufferOf v)))) := by
  intro c call hc hcall
  obtain ⟨t,htask,hful⟩ := settled_owned hl hc hcall hp hv
  exact relay_honours htask hful

/-- A step of the host is a step of the gateway with honoured answers, or none of it. -/
theorem host_moves {e : HostEvent} (hl : Linked opts host h)
    (hstep : hostStep opts host h e = some h') : HostMoves opts host h h' := by
  cases hostStep_cases hstep with
  | @continues i e g hgo hg =>
      have hmove : gatewayStep opts h.gateway (.session i e) = some (h.went i g).gateway := by
        rw [went_gateway]
        exact hg
      refine .moves hmove ?_
      cases e with
      | answer a => cases hgo
      | _ => trivial
  | @stands i e g _ ha hg =>
      refine .moves hg ?_
      cases e with
      | answer a => exact absurd rfl (ha a)
      | _ => trivial
  | accept hg => exact .moves hg trivial
  | start hg => exact .moves hg trivial
  | stop hg => exact .moves hg trivial
  | @settled i p v g hp hv hg =>
      have hmove : gatewayStep opts h.gateway (.session i (.answer (relay (bufferOf v)))) =
          some (h.went i g).gateway := by
        rw [went_gateway]
        exact hg
      exact .moves hmove (settled_honours hl hp hv)
  | @loaded i c coreId inlineDer r g hc hcall hg =>
      have hmove : gatewayStep opts h.gateway (.session i (.answer (relayKey r))) =
          some (h.went i g).gateway := by
        rw [went_gateway]
        exact hg
      refine .moves hmove ?_
      intro d call hd hcall'
      obtain rfl := Option.some.inj (hc.symm.trans hd)
      obtain rfl := Option.some.inj (hcall.symm.trans hcall')
      trivial
  | pool _ => exact .still rfl

theorem dispatch_closed (s : Pool K) (task : Task) : (s.dispatch task).closed = s.closed := by
  unfold Pool.dispatch
  dsimp only
  split
  · rfl
  · split
    · exact postMessage_closed ..
    · rfl

theorem host_closed {e : HostEvent} (hstep : hostStep opts host h e = some h')
    (hc : h.pool.closed = true) : h'.pool.closed = true := by
  have hwent : ∀ i g, (h.went i g).pool.closed = true := by
    intro i g
    unfold Host.went
    split
    · exact (dispatch_closed ..).trans hc
    · exact hc
  cases hostStep_cases hstep with
  | continues _ _ => exact hwent _ _
  | settled _ _ _ => exact hwent _ _
  | loaded _ _ _ => exact hwent _ _
  | pool hp => exact closed_stays hc hp
  | _ => exact hc

theorem Honoured.later {closed closed' : Bool} (hcl : closed = true → closed' = true)
    {e : GatewayEvent} (hh : Honoured host closed g e) : Honoured host closed' g e := by
  unfold Honoured at hh ⊢
  split
  · next i a =>
      intro c call hc hcall
      have hcall' := hh c call hc hcall
      cases call with
      | loadCoreKey => trivial
      | _ =>
          obtain ⟨v,hv,hr⟩ := hcall'
          exact ⟨v,hv.closing hcl,hr⟩
  · trivial

theorem start_linked (opts : Options) (host : HostRsa K) (size : ℕ) :
    Linked opts host (Host.start size) := by
  refine ⟨⟨?_,?_,?_,?_,?_⟩,start_sincere size,rfl,?_⟩ <;> simp [Host.start]

/-- A step of the host in which the gateway takes this step, honoured by the pool as it
then is. -/
structure Lets (opts : Options) (host : HostRsa K) (e : GatewayEvent) (h h' : Host K) : Prop where
  step : gatewayStep opts h.gateway e = some h'.gateway
  honoured : Honoured host h.pool.closed h.gateway e

def Idles (h h' : Host K) : Prop := h'.gateway = h.gateway

/-- The steps that the gateway takes in a run of the host, each honoured as the pool then
is, and so in particular as it is in the end. -/
theorem linked_performs {es : List HostEvent} (hl : Linked opts host h)
    (hrun : Run (hostStep opts host) h es h') :
    (h.pool.closed = true → h'.pool.closed = true) ∧
      ∃ es', Performs (hostStep opts host) Idles (Lets opts host) h es es' h' ∧
        Run (gatewayStep opts) h.gateway es' h'.gateway ∧
        Throughout (gatewayStep opts) (Honoured host h'.pool.closed) h.gateway es' := by
  induction hrun with
  | nil s => exact ⟨id,[],.nil _,.nil _,trivial⟩
  | cons hstep _ ih =>
      obtain ⟨hclosed,es',hperforms,hr',hthrough⟩ := ih (host_linked hl hstep)
      refine ⟨fun hc => hclosed (host_closed hstep hc),?_⟩
      cases host_moves hl hstep with
      | still hg => exact ⟨es',.quiet hstep hg hperforms,hg ▸ hr',hg ▸ hthrough⟩
      | @moves e hg hh =>
          refine ⟨e::es',.item hstep ⟨hg,hh⟩ hperforms,.cons hg hr',
            hh.later fun hc => hclosed (host_closed hstep hc),?_⟩
          intro t ht
          obtain rfl := Option.some.inj (hg.symm.trans ht)
          exact hthrough

/-- Whatever befalls the pool and whoever else uses it, the gateway on the pool runs as
a gateway each of whose RSA calls is answered with what the operation gives on the
arguments of that call, or, if the pool has been closed by then, with its refusal. -/
theorem host_refines_gateway {size : ℕ} {es : List HostEvent}
    (hrun : Run (hostStep opts host) (Host.start size) es h) :
    ∃ es', Performs (hostStep opts host) Idles (Lets opts host) (Host.start size) es es' h ∧
      Run (gatewayStep opts) {} es' h.gateway ∧
      Throughout (gatewayStep opts) (Honoured host h.pool.closed) {} es' :=
  (linked_performs (start_linked opts host size) hrun).2

end Linking

/-- RSA that answers as the all-zero device expects, for closed examples. -/
def zeroHost : HostRsa Unit where
  createPublicKey _ := .ok ()
  createPrivateKey _ := .ok ()
  publicEncrypt _ _ := .ok (List.replicate 128 1)
  privateDecrypt _ _ := .ok (List.replicate 52 0)
  privateEncrypt _ _ := .ok (List.replicate 256 2)
  publicDecrypt _ _ := .ok []

/-- One handshake through a pool of one worker, which another caller uses in between. -/
def pooledEvents : List HostEvent :=
  [.gateway .start,.gateway (.accept zeroDraws),
    .gateway (.session 0 (.data (List.replicate 256 0++[0,16,0xFF,0x50,2,0,1]++List.replicate 12 12))),
    .pool (.submit (.verify "other" [] [])),.gateway (.session 0 .resume),.pool (.reply 0),
    .pool (.reply 0),.settled 0,.loaded 0 (.ok (some "key")),.pool (.reply 0),.settled 0,
    .pool (.reply 0),.settled 0,.gateway (.session 0 .resume),.gateway (.session 0 .resume)]

theorem host_refines_gateway_pooled : ∃ (h : Host Unit) (es' : List GatewayEvent),
    LiveAt h.gateway 0 "000000000000000000000000" ∧
    Performs (hostStep ⟨Crypto.plainNode,"server"⟩ zeroHost) Idles
      (Lets ⟨Crypto.plainNode,"server"⟩ zeroHost) (Host.start 1) pooledEvents es' h ∧
    Run (gatewayStep ⟨Crypto.plainNode,"server"⟩) {} es' h.gateway ∧
    Throughout (gatewayStep ⟨Crypto.plainNode,"server"⟩) (Honoured zeroHost false) {} es' := by
  have hobs : (exec (hostStep ⟨Crypto.plainNode,"server"⟩ zeroHost) (Host.start 1) pooledEvents).map
      (fun h => (h.pool.closed,
        h.gateway.connections[0]?.map fun c => decide (c.Live "000000000000000000000000"))) =
      some (false,some true) := by
    decide +kernel
  obtain ⟨h,hrun,hh⟩ := Run.of_observation _ hobs
  obtain ⟨hclosed,hlive⟩ := Prod.mk.inj hh
  obtain ⟨c,hc,hl⟩ := Option.map_eq_some_iff.mp hlive
  obtain ⟨es',hperforms,hr,hthrough⟩ := host_refines_gateway hrun
  rw [hclosed] at hthrough
  exact ⟨h,es',⟨c,hc,of_decide_eq_true hl⟩,hperforms,hr,hthrough⟩

end SparkProtocol.Gateways
