import SparkProtocol.Determinacy
import SparkProtocol.HostServices

/-!
# What a connection sees of the others

The connections of a host share its pool, the caches of the workers and the registry.
Take any two hosts with the same keys, and on each of them a connection which its
device alone attends to. Around the two anything may go on: other devices connect,
break off or speak out of turn, requests are sent to them, other callers load the pool,
workers fail. If the same bytes have reached both connections and both rest, then they
are in the same state, but for their idle timers, and have done the same things in the
same order.
-/
namespace SparkProtocol.Gateways
open ByteStrings HostValues StreamPrograms Program Handshake OrderedMaps LabelledRuns Sessions Session
  CryptoPools Pool Gateway

/-- The bytes that an event brings to connection `i`. -/
def brought (i : ℕ) : HostEvent → Bytes
  | .gateway (.session j (.data chunk)) => if j = i then chunk else []
  | _ => []

def broughtBy (i : ℕ) (es : List HostEvent) : Bytes := es.flatMap (brought i)

/-- The event leaves connection `i` to its device and to the loader of keys; with the other
connections and with the pool it does as it likes. -/
def Spares {K : Type} (svc : Services) (i : ℕ) (h : Host K) : HostEvent → Prop
  | .gateway .stop => False
  | .gateway (.session j e) => j = i → Unattended svc.answer e
  | .loaded j r => j = i → ∀ c coreId inlineDer, h.gateway.connections[i]? = some c →
      awaited c.session = some (.loadCoreKey coreId inlineDer) → r = svc.loadCoreKey coreId inlineDer
  | _ => True

/-- The session has gone on undisturbed, on these bytes. -/
def Proceeded (cfg : Config) (svc : Services) (s t : Session) (b : Bytes) : Prop :=
  ∃ es, (∀ e ∈ es, Unattended svc.answer e) ∧ Run (step cfg) s es t ∧ arrivals es = b

section Proceeding
variable {cfg : Config} {svc : Services} {s t u : Session} {b b' : Bytes}

theorem Proceeded.refl (cfg : Config) (svc : Services) (s : Session) : Proceeded cfg svc s s [] :=
  ⟨[],by simp,.nil s,rfl⟩

theorem Proceeded.step {e : Event} (he : Unattended svc.answer e) (h : Sessions.step cfg s e = some t) :
    Proceeded cfg svc s t (arrivals [e]) :=
  ⟨[e],by simpa using he,.cons h (.nil t),rfl⟩

theorem arrivals_append (es es' : List Event) : arrivals (es++es') = arrivals es++arrivals es' := by
  induction es with
  | nil => rfl
  | cons e es ih =>
      rw [List.cons_append,arrivals_cons,ih,← List.append_assoc,← arrivals_cons]

theorem Proceeded.trans (h : Proceeded cfg svc s t b) (k : Proceeded cfg svc t u b') :
    Proceeded cfg svc s u (b++b') := by
  obtain ⟨es,hes,hrun,rfl⟩ := h
  obtain ⟨es',hes',hrun',rfl⟩ := k
  refine ⟨es++es',?_,hrun.append hrun',arrivals_append es es'⟩
  intro e he
  exact (List.mem_append.mp he).elim (hes e) (hes' e)

end Proceeding

section Isolation
variable {K : Type} {opts : Options} {host : HostRsa K} {h h' : Host K} {i : ℕ} {c : Connection}
  {loadCoreKey : String → Option Bytes → Except JsError (Option String)} {e : HostEvent}

/-- Connection `i` is as it was or has gone on by itself. -/
def Persists (opts : Options) (svc : Services) (i : ℕ) (c : Connection) (g : Gateway) (b : Bytes) :
    Prop :=
  ∃ c', g.connections[i]? = some c' ∧ c'.draws = c.draws ∧
    Proceeded (opts.config c.draws) svc c.session c'.session b

theorem persists_still {svc : Services} {g : Gateway} (hc : g.connections[i]? = some c) :
    Persists opts svc i c g [] := ⟨c,hc,rfl,.refl ..⟩

/-- A session takes a step of its own. -/
theorem persists_deliver {svc : Services} {g : Gateway} {u : Session} {e : Event} (ht : Tracked opts g)
    (hc : g.connections[i]? = some c) (he : Unattended svc.answer e)
    (hu : step (opts.config c.draws) c.session e = some u) :
    Persists opts svc i c (g.deliver i c u) (arrivals [e]) := by
  obtain ⟨c',l,hg,hs,hd,-⟩ := (deliver_cases (ht.attended i c hc) hc hu).trace
  refine ⟨c',?_,hd,hs ▸ .step he hu⟩
  rw [hg]
  exact getElem?_set_at hc c'

/-- Another session takes a step. -/
theorem persists_other {svc : Services} {g : Gateway} {j : ℕ} {d : Connection} {u : Session} {e : Event}
    (ht : Tracked opts g) (hji : j ≠ i) (hc : g.connections[i]? = some c)
    (hd : g.connections[j]? = some d) (hu : step (opts.config d.draws) d.session e = some u) :
    Persists opts svc i c (g.deliver j d u) [] := by
  have hother := (deliver_others ht hd hu).2 i (Ne.symm hji)
  exact persists_still (hother.trans hc)

theorem persists_session {svc : Services} {g g' : Gateway} {j : ℕ} {e : Event} (ht : Tracked opts g)
    (hc : g.connections[i]? = some c) (he : j = i → Unattended svc.answer e)
    (hg : gatewayStep opts g (.session j e) = some g') :
    Persists opts svc i c g' (brought i (.gateway (.session j e))) := by
  cases gatewayStep_cases hg with
  | @session _ _ d u hd hu =>
      by_cases hji : j = i
      · subst hji
        obtain rfl := Option.some.inj (hc.symm.trans hd)
        have hpersists := persists_deliver ht hc (he rfl) hu
        cases e with
        | data chunk => simpa [brought,arrivals] using hpersists
        | _ => exact hpersists
      · have hpersists : Persists opts svc i c (g.deliver j d _) [] := persists_other ht hji hc hd hu
        cases e with
        | data chunk => simpa [brought,hji] using hpersists
        | _ => exact hpersists

/-- A session is answered: this one as the services answer, the others somehow. -/
theorem persists_answered {svc : Services} {g g' : Gateway} {j : ℕ} {a : (c : Call) → Answer c}
    (ht : Tracked opts g) (hc : g.connections[i]? = some c)
    (ha : j = i → ∀ call, awaited c.session = some call → a call = svc.answer call)
    (hg : gatewayStep opts g (.session j (.answer a)) = some g') : Persists opts svc i c g' [] := by
  cases gatewayStep_cases hg with
  | @session _ _ d u hd hu =>
      by_cases hji : j = i
      · subst hji
        obtain rfl := Option.some.inj (hc.symm.trans hd)
        obtain ⟨call,hcall⟩ := awaited_of_step hu
        rw [step_answer_congr hcall (ha rfl call hcall)] at hu
        exact persists_deliver ht hc .answer hu
      · exact persists_other ht hji hc hd hu

/-- A step of the host, as connection `i` sees it. -/
theorem persists_step (hl : Linked opts host h) (hopen : h.pool.closed = false)
    (hc : h.gateway.connections[i]? = some c) (hs : Spares (hostServices host loadCoreKey) i h e)
    (hstep : hostStep opts host h e = some h') :
    Persists opts (hostServices host loadCoreKey) i c h'.gateway (brought i e) := by
  cases hostStep_cases hstep with
  | continues _ hg =>
      rw [went_gateway]
      exact persists_session hl.tracked hc hs hg
  | stands _ _ hg => exact persists_session hl.tracked hc hs hg
  | @accept draws g hg =>
      cases gatewayStep_cases hg with
      | accept _ _ => exact persists_still (getElem?_concat_some hc _)
  | start hg =>
      cases gatewayStep_cases hg with
      | start => exact persists_still hc
  | stop _ => exact hs.elim
  | settled hp hv hg =>
      rw [went_gateway]
      refine persists_answered hl.tracked hc (fun hji call hcall => ?_) hg
      subst hji
      obtain ⟨t,htask,hful⟩ := settled_owned hl hc hcall hp hv
      rw [hopen] at hful
      exact relay_answer htask hful
  | loaded hd hawait hg =>
      rw [went_gateway]
      refine persists_answered hl.tracked hc (fun hji call hcall => ?_) hg
      subst hji
      obtain rfl := Option.some.inj (hc.symm.trans hd)
      obtain rfl := Option.some.inj (hcall.symm.trans hawait)
      exact hs rfl c _ _ hc hawait
  | pool _ => exact persists_still hc

/-- Connections are new when they come. -/
theorem joins_started (hl : Linked opts host h) (hnone : h.gateway.connections[i]? = none)
    (hstep : hostStep opts host h e = some h') (hc : h'.gateway.connections[i]? = some c) :
    c.session = started (opts.config c.draws) := by
  have habsent : ∀ {g : Gateway}, g.connections.length = h.gateway.connections.length →
      g.connections[i]? = some c → False := by
    intro g hlength hg
    rw [List.getElem?_eq_none_iff,← hlength,← List.getElem?_eq_none_iff,hg] at hnone
    cases hnone
  have hsession : ∀ {g : Gateway} {j : ℕ} {e : Event},
      gatewayStep opts h.gateway (.session j e) = some g → g.connections[i]? = some c → False := by
    intro g j e hg
    cases gatewayStep_cases hg with
    | session hd hu => exact habsent (deliver_others hl.tracked hd hu).1
  cases hostStep_cases hstep with
  | continues _ hg =>
      rw [went_gateway] at hc
      exact (hsession hg hc).elim
  | stands _ _ hg => exact (hsession hg hc).elim
  | @accept draws g hg =>
      cases gatewayStep_cases hg with
      | accept _ _ =>
          rcases accept_connections opts h.gateway draws hc with hold | ⟨-,rfl⟩
          · exact (habsent rfl hold).elim
          · rfl
  | start hg =>
      cases gatewayStep_cases hg with
      | start => exact (habsent rfl hc).elim
  | stop hg =>
      cases gatewayStep_cases hg with
      | stop => exact (habsent (stop_standing hl.tracked).length hc).elim
  | settled _ _ hg =>
      rw [went_gateway] at hc
      exact (hsession hg hc).elim
  | loaded _ _ hg =>
      rw [went_gateway] at hc
      exact (hsession hg hc).elim
  | pool _ => exact (habsent rfl hc).elim

/-- Nothing reaches a connection that is not there. -/
theorem brought_absent (hnone : h.gateway.connections[i]? = none)
    (hstep : hostStep opts host h e = some h') : brought i e = [] := by
  have hsession : ∀ {g : Gateway} {j : ℕ} {e : Event},
      gatewayStep opts h.gateway (.session j e) = some g → j ≠ i := by
    intro g j e hg hji
    cases gatewayStep_cases hg with
    | session hd _ =>
        rw [hji,hnone] at hd
        cases hd
  unfold brought
  split
  · cases hostStep_cases hstep with
    | continues _ hg => exact if_neg (hsession hg)
    | stands _ _ hg => exact if_neg (hsession hg)
  · rfl

theorem host_opened (hstep : hostStep opts host h e = some h') (hopen : h'.pool.closed = false) :
    h.pool.closed = false := by
  by_contra hclosed
  rw [Bool.not_eq_false] at hclosed
  rw [host_closed hstep hclosed] at hopen
  cases hopen

theorem run_opened {es : List HostEvent} (hrun : Run (hostStep opts host) h es h')
    (hopen : h'.pool.closed = false) : h.pool.closed = false := by
  induction hrun with
  | nil _ => exact hopen
  | cons hstep _ ih => exact host_opened hstep (ih hopen)

/-- A run of the host, as a connection that is there sees it. -/
theorem persists_run {es : List HostEvent} (hl : Linked opts host h)
    (hrun : Run (hostStep opts host) h es h') (hopen : h'.pool.closed = false)
    (hs : Throughout (hostStep opts host) (Spares (hostServices host loadCoreKey) i) h es)
    (hc : h.gateway.connections[i]? = some c) :
    Persists opts (hostServices host loadCoreKey) i c h'.gateway (broughtBy i es) := by
  induction hrun generalizing c with
  | nil _ => exact persists_still hc
  | cons hstep hrun ih =>
      have hfirst := host_opened hstep (run_opened hrun hopen)
      obtain ⟨d,hd,hdraws,hgone⟩ := persists_step hl hfirst hc hs.1 hstep
      obtain ⟨c',hc',hdraws',hrest⟩ := ih (host_linked hl hstep) hopen (hs.2 _ hstep) hd
      rw [hdraws] at hrest
      exact ⟨c',hc',hdraws'.trans hdraws,hgone.trans hrest⟩

/-- And a run of the host, as a connection sees it which joins on the way. -/
theorem joins_run {es : List HostEvent} (hl : Linked opts host h)
    (hrun : Run (hostStep opts host) h es h') (hopen : h'.pool.closed = false)
    (hs : Throughout (hostStep opts host) (Spares (hostServices host loadCoreKey) i) h es)
    (hnone : h.gateway.connections[i]? = none) (hc : h'.gateway.connections[i]? = some c) :
    Proceeded (opts.config c.draws) (hostServices host loadCoreKey) (started (opts.config c.draws))
      c.session (broughtBy i es) := by
  induction hrun with
  | nil _ => cases hnone.symm.trans hc
  | @cons h₀ h₁ h₂ e es hstep hrun ih =>
      have hlinked := host_linked hl hstep
      cases hd : h₁.gateway.connections[i]? with
      | none =>
          rw [broughtBy,List.flatMap_cons,brought_absent hnone hstep]
          exact ih hlinked hopen (hs.2 _ hstep) hd hc
      | some d =>
          have hstart := joins_started hl hnone hstep hd
          obtain ⟨c',hc',hdraws,hgone⟩ := persists_run hlinked hrun hopen (hs.2 _ hstep) hd
          obtain rfl := Option.some.inj (hc'.symm.trans hc)
          rw [broughtBy,List.flatMap_cons,brought_absent hnone hstep,hdraws,← hstart]
          exact hgone

/-- The connections of two hosts which have got the same bytes, or one the first of
the other's. Their idle timers may differ. -/
structure Alike (cfg : Config) (svc : Services) (b b' : Bytes) (s s' : Session) : Prop where
  comparable : s.trace <+: s'.trace ∨ s'.trace <+: s.trace
  behind : AtRest cfg svc.answer s' → s.trace <+: s'.trace
  same : b = b' → AtRest cfg svc.answer s → AtRest cfg svc.answer s' → look s = look s'

end Isolation

instance : DecidableEq Draws := fun a b =>
  decidable_of_iff (a.nonce = b.nonce ∧ a.sessionKey = b.sessionKey ∧ a.counter = b.counter) (by
    cases a
    cases b
    simp only [Draws.mk.injEq])

/-- The all-zero device again, on two workers: another connection uses them too and breaks
off, and the device's bytes are cut elsewhere. -/
def crowdedEvents : List HostEvent :=
  [.gateway .start,.gateway (.accept zeroDraws),.gateway (.accept zeroDraws),
    .gateway (.session 0 (.data (List.replicate 256 0))),
    .gateway (.session 1 (.data (List.replicate 100 0))),.gateway (.session 0 .resume),
    .gateway (.session 1 (.data (List.replicate 156 0++[0,16]))),.gateway (.session 1 .resume),
    .pool (.reply 0),.gateway (.session 0 (.socketError { message := "ECONNRESET" })),
    .pool (.reply 1),.settled 1,.settled 0,.loaded 1 (.ok (some "key")),.pool (.reply 1),.settled 1,
    .pool (.reply 1),.settled 1,
    .gateway (.session 1 (.data ([0xFF,0x50,2,0,1]++List.replicate 12 12))),
    .gateway (.session 1 .resume),.gateway (.session 1 .resume),.gateway (.session 1 .loop)]

/-- What decides whether a session of the all-zero device is live and at rest. -/
def restsLive (c : Connection) : Bool :=
  decide (c.Live "000000000000000000000000") &&
    ((undisturbed (Options.config ⟨Crypto.plainNode,"server"⟩ c.draws)
      (hostServices zeroHost fun _ _ => .ok (some "key")).answer).advance c.session).isNone

end SparkProtocol.Gateways
