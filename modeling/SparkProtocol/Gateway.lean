import SparkProtocol.SessionHistory

/-!
# The gateway and its registry

The gateway owns a session per accepted socket and listens to two of its events,
each once. Listeners run synchronously: those of a step run on the session as the
step leaves it, because a session emits at most one of the two events in a step
and after it changes nothing that a listener reads. The registry is the caller's;
the model has the map which its contract describes.

Registering is per session, unregistering is per device id. The registry shows
the devices with a live session along exactly those runs in which no session
closes while its device has another one, and no handshake completes for a session
that has closed. Between two closes that `stop()` makes the registry is looked at too.
-/
namespace SparkProtocol.Gateways
open HostValues Handshake OrderedMaps FramedStreams LabelledRuns Sessions Session

inductive HandshakeFailure where
  | socketClosed | aborted | rsaFail | nonceMismatch | aesHelloFail | helloParseFail
  | missingCoreKey | timeout | error
  deriving DecidableEq, Repr

inductive DisconnectReason where
  | peerClose | idle | aesFail | error
  deriving DecidableEq, Repr

/-- `s.includes(part)`. -/
def includes (s part : String) : Bool := decide (part.toList <:+: s.toList)

/-- The stage is absent where the source says `unknown`. -/
def handshakeFailureReason (err : Option JsError) (stage : Option Stage) : HandshakeFailure :=
  match err with
  | none => if stage = none then .socketClosed else .aborted
  | some err =>
      let m := err.message
      if includes m "RSA decrypt" then .rsaFail
      else if includes m "nonce mismatch" then .nonceMismatch
      else if includes m "AES decrypt" then .aesHelloFail
      else if includes m "CoAP parse" then .helloParseFail
      else if includes m "core key not found" then .missingCoreKey
      else if m = "idle timeout" then .timeout
      else .error

def disconnectReason (err : Option JsError) : DisconnectReason :=
  match err with
  | none => .peerClose
  | some err =>
      let m := err.message
      if m = "idle timeout" then .idle
      else if includes m "AES decrypt" then .aesFail
      else .error

/-- The emitted events and the calls of the registry, each with its connection. -/
inductive GatewayOut where
  | connection (i : ℕ)
  | register (i : ℕ) (coreId : Option String)
  | session (i : ℕ)
  | unregister (i : ℕ) (coreId : String)
  | handshakeFailed (i : ℕ) (coreId : Option String) (stage : Option Stage)
      (result : HandshakeFailure) (error : Option JsError)
  | sessionDisconnected (i : ℕ) (coreId : String) (reason : DisconnectReason)
  deriving DecidableEq

/-- A session with the variables of the closure that listens to it. -/
structure Connection where
  draws : Draws
  session : Session
  handshakeSucceeded : Bool := false
  onceHandshake : Bool := true
  onceClose : Bool := true

structure Options where
  node : Crypto.Primitives
  serverPrivKeyPem : String

def Options.config (opts : Options) (draws : Draws) : Config :=
  ⟨opts.node,opts.serverPrivKeyPem,draws⟩

/-- Connections are known by the order in which they were accepted. -/
structure Gateway where
  server : Bool := false
  connections : List Connection := []
  sessions : List ℕ := []
  registry : OrderedMap String ℕ := .empty
  trace : List GatewayOut := []

/-- A device id that is neither `null` nor empty. -/
def truthy (coreId : Option String) : Option String := coreId.filter fun id => id ≠ ""

def register (registry : OrderedMap String ℕ) (i : ℕ) (session : Session) : OrderedMap String ℕ :=
  match session.coreId with
  | some id => registry.set id i
  | none => registry

def unregister (registry : OrderedMap String ℕ) (coreId : Option String) : OrderedMap String ℕ :=
  match truthy coreId with
  | some id => registry.delete id
  | none => registry

namespace Gateway

def log (g : Gateway) (l : List GatewayOut) : Gateway := { g with trace := g.trace++l }

def put (g : Gateway) (i : ℕ) (c : Connection) : Gateway :=
  { g with connections := g.connections.set i c }

def onHandshake (g : Gateway) (i : ℕ) (c : Connection) : Gateway :=
  if c.onceHandshake then
    let g := g.put i { c with onceHandshake := false, handshakeSucceeded := true }
    let g := { g with registry := register g.registry i c.session }
    g.log [.register i c.session.coreId,.session i]
  else g

def closeReport (i : ℕ) (c : Connection) : Option GatewayOut :=
  if c.handshakeSucceeded then
    (truthy c.session.coreId).map fun id =>
      .sessionDisconnected i id (disconnectReason c.session.handshakeError)
  else
    let stage := c.session.progress.stage
    let result := handshakeFailureReason c.session.handshakeError stage
    some (.handshakeFailed i c.session.progress.coreId stage result c.session.handshakeError)

def onClose (g : Gateway) (i : ℕ) (c : Connection) : Gateway :=
  if c.onceClose then
    let g := g.put i { c with onceClose := false }
    let g := { g with sessions := g.sessions.erase i, registry := unregister g.registry c.session.coreId }
    g.log (((truthy c.session.coreId).map (.unregister i)).toList++(closeReport i c).toList)
  else g

/-- The listeners of one emitted event. -/
def hear (i : ℕ) (g : Gateway) (o : Out) : Gateway :=
  match g.connections[i]?,o with
  | some c,.handshake _ => g.onHandshake i c
  | some c,.close => g.onClose i c
  | _,_ => g

/-- What a step of a session has emitted, of the two events listened to. -/
def emitted (s t : Session) : List Out := (lifecycle t.trace).drop (lifecycle s.trace).length

/-- Connection `i` with its session in a new state, and what the gateway hears of it. -/
def deliver (g : Gateway) (i : ℕ) (c : Connection) (t : Session) : Gateway :=
  (emitted c.session t).foldl (hear i) (g.put i { c with session := t })

/-- `_onConnection`: the listeners are attached before `run()` is called. -/
def accept (opts : Options) (g : Gateway) (draws : Draws) : Gateway :=
  let i := g.connections.length
  let g := g.log [.connection i]
  { g with
    sessions := g.sessions++[i]
    connections := g.connections++[{ draws, session := ({} : Session).run (opts.config draws) }] }

def disconnectAt (g : Gateway) (i : ℕ) : Gateway :=
  match g.connections[i]? with
  | some c => g.deliver i c c.session.disconnect
  | none => g

/-- `stop()` is one synchronous piece of code. It keeps `_server`, and closes only
the last listener that `start()` made. -/
def stop (g : Gateway) : Gateway :=
  if g.server then { g.sessions.foldl disconnectAt g with sessions := [] } else g

/-- Handshaked and still handshaking. -/
def sessionCount (g : Gateway) : ℕ := g.sessions.length

end Gateway

open Gateway

inductive GatewayEvent where
  | start
  | accept (draws : Draws)
  | session (i : ℕ) (e : Event)
  | stop

def gatewayStep (opts : Options) (g : Gateway) : GatewayEvent → Option Gateway
  | .start => some { g with server := true }
  | .accept draws => if g.server then some (g.accept opts draws) else none
  | .session i e =>
      match g.connections[i]? with
      | some c => (step (opts.config c.draws) c.session e).map (g.deliver i c)
      | none => none
  | .stop => some g.stop

/-- A step of the gateway, by its event. -/
inductive GatewayMoves (opts : Options) (g : Gateway) : GatewayEvent → Gateway → Prop
  | start : GatewayMoves opts g .start { g with server := true }
  | accept (draws : Draws) : g.server = true →
      GatewayMoves opts g (.accept draws) (g.accept opts draws)
  | session {i : ℕ} {e : Event} {c : Connection} {t : Session} : g.connections[i]? = some c →
      step (opts.config c.draws) c.session e = some t →
      GatewayMoves opts g (.session i e) (g.deliver i c t)
  | stop : GatewayMoves opts g .stop g.stop

theorem gatewayStep_cases {opts : Options} {g g' : Gateway} {e : GatewayEvent}
    (h : gatewayStep opts g e = some g') : GatewayMoves opts g e g' := by
  cases e with
  | start => exact Option.some.inj h ▸ .start
  | accept draws =>
      dsimp only [gatewayStep] at h
      split at h
      · next hserver => exact Option.some.inj h ▸ .accept draws hserver
      · cases h
  | session i e =>
      dsimp only [gatewayStep] at h
      split at h
      · next c hc =>
          obtain ⟨t,ht,rfl⟩ := Option.map_eq_some_iff.mp h
          exact .session hc ht
      · cases h
  | stop => exact Option.some.inj h ▸ .stop

/-- The session has completed its handshake. -/
def Greeted (s : Session) : Prop := ∃ r, .handshake r ∈ s.trace

def Ended (s : Session) : Prop := .close ∈ s.trace

/-- A completed and unclosed session of this device. -/
structure Connection.Live (c : Connection) (id : String) : Prop where
  coreId : c.session.coreId = some id
  greeted : Greeted c.session
  open' : ¬ Ended c.session

def LiveAt (g : Gateway) (i : ℕ) (id : String) : Prop :=
  ∃ c, g.connections[i]? = some c ∧ c.Live id

/-- The registry shows exactly the devices that have a live session. -/
def Presence (g : Gateway) : Prop :=
  ∀ id, (g.registry.get id).isSome ↔ ∃ i, LiveAt g i id

/-- The states that an event passes on its way. `stop()` makes one close after another,
and the listeners of each of them see where it has come to. -/
def passed (g : Gateway) : GatewayEvent → List Gateway
  | .stop => if g.server then g.sessions.scanl disconnectAt g else []
  | _ => []

/-- The registry is right in every state of the run, those that an event passes included. -/
def AlwaysPresent (opts : Options) (es : List GatewayEvent) : Prop :=
  Always (gatewayStep opts) Presence {} es ∧
    Throughout (gatewayStep opts) (fun g e => ∀ g' ∈ passed g e, Presence g') {} es

/-- In this event the session of connection `i` emits `o`. -/
def Emits (opts : Options) (g : Gateway) (i : ℕ) (e : Event) (o : Out) : Prop :=
  ∃ c t, g.connections[i]? = some c ∧ step (opts.config c.draws) c.session e = some t ∧
    lifecycle t.trace = lifecycle c.session.trace++[o]

/-- What the registry cannot follow: a live session closes while its device has
another live session, by itself or because `stop()` closes them all, or a session that
has closed completes its handshake while its device has none. -/
inductive Misfiles (opts : Options) (g : Gateway) : GatewayEvent → Prop
  | stale {i j : ℕ} {e : Event} {id : String} : LiveAt g i id → Emits opts g i e .close →
      j ≠ i → LiveAt g j id → Misfiles opts g (.session i e)
  | late {i : ℕ} {e : Event} {c : Connection} {r : HandshakeResult} :
      g.connections[i]? = some c → Ended c.session → Emits opts g i e (.handshake r) →
      (∀ j, ¬ LiveAt g j r.coreId) → Misfiles opts g (.session i e)
  | stop {i j : ℕ} {id : String} : g.server = true → LiveAt g i id → j ≠ i → LiveAt g j id →
      Misfiles opts g .stop

theorem greeted_iff {s : Session} : Greeted s ↔ ∃ r, .handshake r ∈ lifecycle s.trace := by
  simp [Greeted,lifecycle,Out.isLifecycle]

theorem ended_iff {s : Session} : Ended s ↔ .close ∈ lifecycle s.trace := by
  simp [Ended,lifecycle,Out.isLifecycle]

theorem greeted_congr {s t : Session} (h : lifecycle t.trace = lifecycle s.trace) :
    Greeted t ↔ Greeted s := by
  rw [greeted_iff,greeted_iff,h]

theorem ended_congr {s t : Session} (h : lifecycle t.trace = lifecycle s.trace) :
    Ended t ↔ Ended s := by
  rw [ended_iff,ended_iff,h]

theorem closing_greeted {s t : Session} (h : Closing s t) : Greeted t ↔ Greeted s := by
  rw [greeted_iff,greeted_iff,h.events]
  simp

theorem closing_ended {s t : Session} (h : Closing s t) : Ended t := by
  rw [ended_iff,h.events]
  simp

theorem establishing_greeted {s t : Session} {r : HandshakeResult} (h : Establishing s t r) :
    Greeted t := by
  rw [greeted_iff,h.events]
  exact ⟨r,by simp⟩

theorem establishing_ended {s t : Session} {r : HandshakeResult} (h : Establishing s t r) :
    Ended t ↔ Ended s := by
  rw [ended_iff,ended_iff,h.events]
  simp

theorem ended_step {cfg : Config} {s t : Session} {e : Event} (h : step cfg s e = some t)
    (hs : Ended s) : Ended t := by
  cases step_moves h with
  | silent hm => exact (ended_congr hm.events).mpr hs
  | closing hm => exact closing_ended hm
  | starting _ hm => exact (ended_congr hm.events).mpr hs
  | establishing _ _ hm => exact (establishing_ended hm).mpr hs

/-- The variables of the listeners agree with what the session has emitted. -/
structure Attended (opts : Options) (c : Connection) : Prop where
  history : Historic (opts.config c.draws) c.session
  started : c.session.control ≠ .idle
  framed : Greeted c.session → Framed c.session
  named : Greeted c.session ↔ ∃ id, c.session.coreId = some id
  ended : c.session.phase = .closed → Ended c.session
  handshakeSucceeded : c.handshakeSucceeded = true ↔ Greeted c.session
  onceHandshake : c.onceHandshake = true ↔ ¬ Greeted c.session
  onceClose : c.onceClose = true ↔ ¬ Ended c.session

theorem emitted_eq {s t : Session} {l : List Out}
    (h : lifecycle t.trace = lifecycle s.trace++l) : emitted s t = l := by
  rw [emitted,h,List.drop_left]

/-- What one step of a session does to the connection and to the registry. -/
inductive Shifts (g : Gateway) (i : ℕ) (c : Connection) (t : Session) :
    OrderedMap String ℕ → Prop
  | quiet : lifecycle t.trace = lifecycle c.session.trace → t.coreId = c.session.coreId →
      Shifts g i c t g.registry
  | again : Closing c.session t → Ended c.session → Shifts g i c t g.registry
  | closing : Closing c.session t → ¬ Ended c.session →
      Shifts g i c t (unregister g.registry c.session.coreId)
  | opening {r : HandshakeResult} : Establishing c.session t r → ¬ Greeted c.session →
      Shifts g i c t (g.registry.set r.coreId i)

/-- The gateway after a step of the session of connection `i`, from which the
listeners may have heard something. -/
inductive Delivers (g : Gateway) (i : ℕ) (c : Connection) (e : Event) (t : Session) : Gateway → Prop
  | silent : Silent c.session t → Delivers g i c e t (g.put i { c with session := t })
  | again : Closing c.session t → Ended c.session →
      Delivers g i c e t (g.put i { c with session := t })
  | closing : Closing c.session t → ¬ Ended c.session → Delivers g i c e t
      { g with
        connections := g.connections.set i { c with session := t, onceClose := false }
        sessions := g.sessions.erase i
        registry := unregister g.registry c.session.coreId
        trace := g.trace++((truthy c.session.coreId).map (.unregister i)).toList++
          (closeReport i { c with session := t }).toList }
  | opening {p : Exchange HandshakeResult} {r : HandshakeResult} : continuation c.session e = some p →
      p.burst.2 = .done r → Establishing c.session t r → ¬ Greeted c.session → Delivers g i c e t
      { g with
        connections := g.connections.set i
          { c with session := t, onceHandshake := false, handshakeSucceeded := true }
        registry := g.registry.set r.coreId i
        trace := g.trace++[.register i (some r.coreId),.session i] }

theorem put_get {g : Gateway} {i : ℕ} {c c' : Connection} (hc : g.connections[i]? = some c) :
    (g.put i c').connections[i]? = some c' :=
  getElem?_set_at hc c'

section Listeners
variable {opts : Options} {c : Connection} {t : Session} {e : Event}

theorem Attended.quiet (ha : Attended opts c) (h : step (opts.config c.draws) c.session e = some t)
    (hl : lifecycle t.trace = lifecycle c.session.trace) (hid : t.coreId = c.session.coreId)
    (hp : t.phase = .closed → c.session.phase = .closed) :
    Attended opts { c with session := t } := by
  have hg := greeted_congr hl
  have he := ended_congr hl
  refine ⟨historic_keeps ha.history h,started_keeps ha.history h ha.started,
    fun k => (step_conveys (ha.framed (hg.mp k)) h).framed,?_,fun k => he.mpr (ha.ended (hp k)),?_,?_,?_⟩
  · rw [hg,hid]
    exact ha.named
  · rw [hg]
    exact ha.handshakeSucceeded
  · rw [hg]
    exact ha.onceHandshake
  · rw [he]
    exact ha.onceClose

theorem Attended.closing (ha : Attended opts c)
    (h : step (opts.config c.draws) c.session e = some t) (hm : Closing c.session t) :
    Attended opts { c with session := t, onceClose := false } := by
  have hg := closing_greeted hm
  have he := closing_ended hm
  refine ⟨historic_keeps ha.history h,started_keeps ha.history h ha.started,
    fun k => (step_conveys (ha.framed (hg.mp k)) h).framed,?_,fun _ => he,?_,?_,?_⟩
  · rw [hg,hm.coreId]
    exact ha.named
  · rw [hg]
    exact ha.handshakeSucceeded
  · rw [hg]
    exact ha.onceHandshake
  · simp [he]

theorem Attended.opening (ha : Attended opts c)
    (h : step (opts.config c.draws) c.session e = some t) {r : HandshakeResult}
    (hm : Establishing c.session t r) :
    Attended opts { c with session := t, onceHandshake := false, handshakeSucceeded := true } := by
  have hg := establishing_greeted hm
  have he := establishing_ended hm
  refine ⟨historic_keeps ha.history h,started_keeps ha.history h ha.started,
    fun _ => framed_of_loop hm.control,?_,?_,?_,?_,?_⟩
  · exact ⟨fun _ => ⟨_,hm.coreId⟩,fun _ => hg⟩
  · intro k
    rw [hm.phase] at k
    cases k
  · simp [hg]
  · simp [hg]
  · rw [he]
    exact ha.onceClose

/-- One step of one session, through the listeners. -/
theorem deliver_cases {g : Gateway} {i : ℕ} (ha : Attended opts c)
    (hc : g.connections[i]? = some c) (h : step (opts.config c.draws) c.session e = some t) :
    Delivers g i c e t (g.deliver i c t) := by
  have quiet : lifecycle t.trace = lifecycle c.session.trace →
      g.deliver i c t = g.put i { c with session := t } := by
    intro hl
    rw [deliver,emitted_eq (l := []) (by simpa using hl)]
    rfl
  cases step_moves h with
  | silent hm =>
      rw [quiet hm.events]
      exact .silent hm
  | starting _ hm => exact absurd hm.control ha.started
  | closing hm =>
      have hd : g.deliver i c t = (g.put i { c with session := t }).onClose i { c with session := t } := by
        rw [deliver,emitted_eq hm.events]
        simp only [List.foldl_cons,List.foldl_nil,hear,put_get hc]
      rw [hd]
      by_cases hend : Ended c.session
      · rw [onClose,if_neg (by simpa using fun ho => ha.onceClose.mp ho hend)]
        exact .again hm hend
      · rw [onClose,if_pos (ha.onceClose.mpr hend)]
        have hclosing := Delivers.closing (g := g) (i := i) (e := e) hm hend
        rw [← hm.coreId] at hclosing
        simpa only [Gateway.log,put,List.set_set,List.append_assoc] using hclosing
  | establishing hcont hdone hm =>
      have hnew : ¬ Greeted c.session := fun hg =>
        not_completes_of_framed (ha.framed hg) e ⟨_,_,hcont,hdone⟩
      have hd : g.deliver i c t =
          (g.put i { c with session := t }).onHandshake i { c with session := t } := by
        rw [deliver,emitted_eq hm.events]
        simp only [List.foldl_cons,List.foldl_nil,hear,put_get hc]
      rw [hd,onHandshake,if_pos (ha.onceHandshake.mpr hnew)]
      have hopening := Delivers.opening (g := g) (i := i) hcont hdone hm hnew
      simpa only [Gateway.log,put,List.set_set,register,hm.coreId] using hopening

/-- The connection that a step leaves, and what has become of the registry and of
the set of sessions. -/
theorem deliver_shape {g : Gateway} {i : ℕ} (ha : Attended opts c)
    (hc : g.connections[i]? = some c) (h : step (opts.config c.draws) c.session e = some t) :
    ∃ c', Attended opts c' ∧ c'.session = t ∧
      (g.deliver i c t).connections = g.connections.set i c' ∧
      Shifts g i c t (g.deliver i c t).registry ∧
      ((g.deliver i c t).sessions = g.sessions ∨
        Ended t ∧ (g.deliver i c t).sessions = g.sessions.erase i) := by
  have hd := deliver_cases ha hc h
  generalize g.deliver i c t = g' at hd
  cases hd with
  | silent hm =>
      exact ⟨_,ha.quiet h hm.events hm.coreId fun hp => hm.phase ▸ hp,rfl,rfl,
        .quiet hm.events hm.coreId,.inl rfl⟩
  | again hm hend =>
      have hoff : c.onceClose = false := by simpa [hend] using ha.onceClose
      have hsame : { c with session := t, onceClose := false } = { c with session := t } := by
        rw [← hoff]
      exact ⟨_,ha.closing h hm,rfl,by rw [hsame]; rfl,.again hm hend,.inl rfl⟩
  | closing hm hend =>
      exact ⟨_,ha.closing h hm,rfl,rfl,.closing hm hend,.inr ⟨closing_ended hm,rfl⟩⟩
  | opening _ _ hm hnew => exact ⟨_,ha.opening h hm,rfl,rfl,.opening hm hnew,.inl rfl⟩

end Listeners

theorem liveAt_self {g : Gateway} {i : ℕ} {c : Connection} {id : String}
    (hc : g.connections[i]? = some c) : LiveAt g i id ↔ c.Live id := by
  constructor
  · rintro ⟨d,hd,hl⟩
    obtain rfl := Option.some.inj (hc.symm.trans hd)
    exact hl
  · exact fun hl => ⟨c,hc,hl⟩

theorem liveAt_set {g g' : Gateway} {i : ℕ} {c c' : Connection}
    (hc : g.connections[i]? = some c) (hg : g'.connections = g.connections.set i c') :
    (∀ id, LiveAt g' i id ↔ c'.Live id) ∧ ∀ j ≠ i, ∀ id, LiveAt g' j id ↔ LiveAt g j id := by
  constructor
  · intro id
    exact liveAt_self (by rw [hg,getElem?_set_at hc])
  · intro j hj id
    unfold LiveAt
    rw [hg,List.getElem?_set_ne (Ne.symm hj)]

theorem Connection.Live.id_eq {c : Connection} {id id' : String} (h : c.Live id) (k : c.Live id') :
    id = id' :=
  Option.some.inj (h.coreId.symm.trans k.coreId)

section Presence
variable {opts : Options} {g g' : Gateway} {i : ℕ} {c c' : Connection} {e : Event} {t : Session}

theorem emits_iff (hc : g.connections[i]? = some c)
    (h : step (opts.config c.draws) c.session e = some t) (o : Out) :
    Emits opts g i e o ↔ lifecycle t.trace = lifecycle c.session.trace++[o] := by
  constructor
  · rintro ⟨d,u,hd,hu,hl⟩
    obtain rfl := Option.some.inj (hc.symm.trans hd)
    obtain rfl := Option.some.inj (h.symm.trans hu)
    exact hl
  · exact fun hl => ⟨c,t,hc,h,hl⟩

/-- The same sessions are live, and the registry is as it was. -/
theorem presence_same (hp : Presence g) (hr : g'.registry = g.registry)
    (hl : ∀ j id, LiveAt g' j id ↔ LiveAt g j id) : Presence g' := by
  intro id
  rw [hr,hp id]
  exact exists_congr fun j => (hl j id).symm

theorem liveAt_same (hc : g.connections[i]? = some c)
    (hg : g'.connections = g.connections.set i c') (hlive : ∀ id, c'.Live id ↔ c.Live id)
    (j : ℕ) (id : String) : LiveAt g' j id ↔ LiveAt g j id := by
  obtain ⟨hself,hother⟩ := liveAt_set hc hg
  by_cases hj : j = i
  · subst hj
    rw [hself,hlive,liveAt_self hc]
  · exact hother j hj id

/-- Nothing is misfiled without an emission, nor for a session that is not live
and closes. -/
theorem not_misfiles_of_silent (hc : g.connections[i]? = some c)
    (h : step (opts.config c.draws) c.session e = some t)
    (hl : lifecycle t.trace = lifecycle c.session.trace) : ¬ Misfiles opts g (.session i e) := by
  intro hm
  cases hm with
  | stale _ hem _ _ =>
      have := (emits_iff hc h _).mp hem
      simp [hl] at this
  | late _ _ hem _ =>
      have := (emits_iff hc h _).mp hem
      simp [hl] at this

theorem misfiles_closing_iff (hc : g.connections[i]? = some c)
    (h : step (opts.config c.draws) c.session e = some t) (hm : Closing c.session t) :
    Misfiles opts g (.session i e) ↔ ∃ id, c.Live id ∧ ∃ j ≠ i, LiveAt g j id := by
  constructor
  · intro hmis
    cases hmis with
    | stale hi _ hne hj => exact ⟨_,(liveAt_self hc).mp hi,_,hne,hj⟩
    | late _ _ hem _ =>
        have := (emits_iff hc h _).mp hem
        simp [hm.events] at this
  · rintro ⟨id,hi,j,hne,hj⟩
    exact .stale ((liveAt_self hc).mpr hi) ((emits_iff hc h _).mpr hm.events) hne hj

theorem misfiles_opening_iff (hc : g.connections[i]? = some c)
    (h : step (opts.config c.draws) c.session e = some t) {r : HandshakeResult}
    (hm : Establishing c.session t r) :
    Misfiles opts g (.session i e) ↔ Ended c.session ∧ ∀ j, ¬ LiveAt g j r.coreId := by
  constructor
  · intro hmis
    cases hmis with
    | stale _ hem _ _ =>
        have := (emits_iff hc h _).mp hem
        simp [hm.events] at this
    | @late _ _ d r' hd hend hem hnone =>
        obtain rfl := Option.some.inj (hc.symm.trans hd)
        have hev := (emits_iff hc h _).mp hem
        obtain rfl : r = r' := by simpa [hm.events] using hev
        exact ⟨hend,hnone⟩
  · rintro ⟨hend,hnone⟩
    exact .late hc hend ((emits_iff hc h _).mpr hm.events) hnone

/-- Unregistering the id of a closing session is right unless the device has
another live session. -/
theorem presence_closing (hp : Presence g) (ha : Attended opts c)
    (hc : g.connections[i]? = some c) (hm : Closing c.session t) (hs : c'.session = t)
    (hg : g'.connections = g.connections.set i c')
    (hr : g'.registry = unregister g.registry c.session.coreId) (hend : ¬ Ended c.session) :
    Presence g' ↔ ¬ ∃ id, c.Live id ∧ ∃ j ≠ i, LiveAt g j id := by
  have hdead : ∀ id, ¬ c'.Live id := fun id hl => hl.open' (hs ▸ closing_ended hm)
  by_cases hgr : Greeted c.session
  · obtain ⟨cid,hcid⟩ := ha.named.mp hgr
    have hlive : c.Live cid := ⟨hcid,hgr,hend⟩
    have hdel : g'.registry = g.registry.delete cid := by
      rw [hr,hcid]
      simp [unregister,truthy,Option.filter,ha.history.named cid hcid]
    constructor
    · rintro hp' ⟨id,hid,j,hj,hl⟩
      obtain rfl := hlive.id_eq hid
      have hj' := ((liveAt_set hc hg).2 j hj _).mpr hl
      have hsome := (hp' cid).mpr ⟨j,hj'⟩
      simp [hdel] at hsome
    · intro hno id
      by_cases hid : id = cid
      · subst hid
        have hnone : ¬ ∃ j, LiveAt g' j id := by
          rintro ⟨j,hj⟩
          by_cases hji : j = i
          · subst hji
            exact hdead id (((liveAt_set hc hg).1 _).mp hj)
          · exact hno ⟨id,hlive,j,hji,((liveAt_set hc hg).2 j hji _).mp hj⟩
        simp [hdel,hnone]
      · rw [hdel,OrderedMap.get_delete_ne _ hid,hp id]
        refine exists_congr fun j => ?_
        by_cases hji : j = i
        · subst hji
          have hother : ¬ c.Live id := fun hl => hid (hl.id_eq hlive)
          rw [liveAt_self hc,(liveAt_set hc hg).1]
          simp [hother,hdead id]
        · exact ((liveAt_set hc hg).2 j hji _).symm
  · have hnone : c.session.coreId = none := by
      rw [Option.eq_none_iff_forall_ne_some]
      exact fun id hid => hgr (ha.named.mpr ⟨id,hid⟩)
    have hnever : ∀ id, ¬ c.Live id := fun id hl => hgr hl.greeted
    have hp' : Presence g' := by
      apply presence_same hp (by rw [hr,hnone]; rfl)
      exact liveAt_same hc hg fun id => iff_of_false (hdead id) (hnever id)
    refine iff_of_true hp' ?_
    rintro ⟨id,hid,-⟩
    exact hnever id hid

theorem presence_opening (hp : Presence g) (hc : g.connections[i]? = some c)
    {r : HandshakeResult} (hm : Establishing c.session t r) (hs : c'.session = t)
    (hg : g'.connections = g.connections.set i c')
    (hr : g'.registry = g.registry.set r.coreId i) (hnew : ¬ Greeted c.session) :
    Presence g' ↔ ¬ (Ended c.session ∧ ∀ j, ¬ LiveAt g j r.coreId) := by
  have hnever : ∀ id, ¬ c.Live id := fun id hl => hnew hl.greeted
  have hlive : ∀ id, c'.Live id ↔ r.coreId = id ∧ ¬ Ended c.session := by
    intro id
    rw [← establishing_ended hm,← hs]
    constructor
    · intro hl
      exact ⟨Option.some.inj ((hs ▸ hm.coreId).symm.trans hl.coreId),hl.open'⟩
    · rintro ⟨rfl,hopen⟩
      exact ⟨hs ▸ hm.coreId,hs ▸ establishing_greeted hm,hopen⟩
  have hset := liveAt_set hc hg
  by_cases hend : Ended c.session
  · have hsame := liveAt_same hc hg fun id =>
      iff_of_false (fun hl => ((hlive id).mp hl).2 hend) (hnever id)
    constructor
    · rintro hp' ⟨-,hnone⟩
      obtain ⟨j,hj⟩ := (hp' r.coreId).mp (by simp [hr])
      exact hnone j ((hsame j _).mp hj)
    · intro hsome id
      by_cases hid : id = r.coreId
      · subst hid
        simp only [hr,OrderedMap.get_set_self,Option.isSome_some,true_iff,hsame]
        by_contra hno
        exact hsome ⟨hend,fun j hj => hno ⟨j,hj⟩⟩
      · rw [hr,OrderedMap.get_set_ne _ _ hid,hp id]
        exact exists_congr fun j => (hsame j id).symm
  · refine iff_of_true ?_ fun h => hend h.1
    intro id
    by_cases hid : id = r.coreId
    · subst hid
      simp only [hr,OrderedMap.get_set_self,Option.isSome_some,true_iff]
      exact ⟨i,(hset.1 _).mpr ((hlive _).mpr ⟨rfl,hend⟩)⟩
    · rw [hr,OrderedMap.get_set_ne _ _ hid,hp id]
      refine exists_congr fun j => ?_
      by_cases hj : j = i
      · subst hj
        rw [liveAt_self hc,hset.1,hlive]
        simp [hnever id,Ne.symm hid]
      · exact (hset.2 j hj id).symm

/-- The misfiled events are exactly those after which the registry is wrong. -/
theorem presence_shift (hp : Presence g) (ha : Attended opts c)
    (hc : g.connections[i]? = some c) (h : step (opts.config c.draws) c.session e = some t)
    (hs : c'.session = t) (hg : g'.connections = g.connections.set i c')
    (hr : Shifts g i c t g'.registry) :
    Presence g' ↔ ¬ Misfiles opts g (.session i e) := by
  generalize hreg : g'.registry = reg at hr
  cases hr with
  | quiet hl hid =>
      have hlive : ∀ id, c'.Live id ↔ c.Live id := by
        intro id
        constructor
        · intro k
          exact ⟨hid ▸ hs ▸ k.coreId,(greeted_congr hl).mp (hs ▸ k.greeted),
            fun he => k.open' (hs ▸ (ended_congr hl).mpr he)⟩
        · intro k
          exact ⟨hs ▸ hid.trans k.coreId,hs ▸ (greeted_congr hl).mpr k.greeted,
            fun he => k.open' ((ended_congr hl).mp (hs ▸ he))⟩
      exact iff_of_true (presence_same hp hreg (liveAt_same hc hg hlive))
        (not_misfiles_of_silent hc h hl)
  | again hm hend =>
      have hdead : ∀ id, ¬ c'.Live id := fun id hl => hl.open' (hs ▸ closing_ended hm)
      have hwas : ∀ id, ¬ c.Live id := fun id hl => hl.open' hend
      rw [misfiles_closing_iff hc h hm]
      refine iff_of_true (presence_same hp hreg (liveAt_same hc hg fun id =>
        iff_of_false (hdead id) (hwas id))) ?_
      rintro ⟨id,hid,-⟩
      exact hwas id hid
  | closing hm hend =>
      rw [misfiles_closing_iff hc h hm]
      exact presence_closing hp ha hc hm hs hg hreg hend
  | opening hm hnew =>
      rw [misfiles_opening_iff hc h hm]
      exact presence_opening hp hc hm hs hg hreg hnew

end Presence

/-- What the gateway keeps: the registry is right, every connection is attended
to, and no open session is missing from the set. -/
structure Consistent (opts : Options) (g : Gateway) : Prop where
  presence : Presence g
  attended : ∀ (i : ℕ) (c : Connection), g.connections[i]? = some c → Attended opts c
  member : ∀ (i : ℕ) (c : Connection), g.connections[i]? = some c → ¬ Ended c.session → i ∈ g.sessions

/-- `stop()` on its way: the sessions still to be disconnected are listed, and the
registry shows no device without a live session. -/
structure Draining (opts : Options) (l : List ℕ) (g : Gateway) : Prop where
  sound : ∀ id, (g.registry.get id).isSome → ∃ i, LiveAt g i id
  attended : ∀ (i : ℕ) (c : Connection), g.connections[i]? = some c → Attended opts c
  member : ∀ (i : ℕ) (c : Connection), g.connections[i]? = some c → ¬ Ended c.session → i ∈ l

theorem get_unregister {m : OrderedMap String ℕ} {coreId : Option String} {id : String}
    (h : ((unregister m coreId).get id).isSome) : (m.get id).isSome ∧ (coreId = some id → id = "") := by
  unfold unregister truthy at h
  split at h
  · next d hd =>
      obtain ⟨hsome,hne⟩ := Option.filter_eq_some_iff.mp hd
      by_cases hid : id = d
      · subst hid
        simp at h
      · rw [OrderedMap.get_delete_ne _ hid] at h
        refine ⟨h,fun hc => ?_⟩
        exact absurd (Option.some.inj (hc.symm.trans hsome)) hid
  · next hnone =>
      refine ⟨h,fun hc => ?_⟩
      simpa [hc,Option.filter] using hnone

section Keeping
variable {opts : Options} {g g' : Gateway} {i : ℕ} {c c' : Connection}

/-- An open session after the step is the stepped one, or was there before. -/
theorem open_set (hg : g'.connections = g.connections.set i c') {j : ℕ} {d : Connection}
    (hd : g'.connections[j]? = some d) : (j = i ∧ d = c') ∨ (j ≠ i ∧ g.connections[j]? = some d) :=
  getElem?_set_cases (hg ▸ hd)

/-- A disconnected session closes, unless it has closed before. -/
theorem disconnectAt_shape (ha : Attended opts c) (hc : g.connections[i]? = some c) :
    ∃ c', Attended opts c' ∧ Ended c'.session ∧ c'.session = c.session.disconnect ∧
      (g.disconnectAt i).connections = g.connections.set i c' ∧
      Shifts g i c c.session.disconnect (g.disconnectAt i).registry := by
  have hstep : step (opts.config c.draws) c.session .disconnect = some c.session.disconnect := rfl
  have hd : g.disconnectAt i = g.deliver i c c.session.disconnect := by
    simp only [disconnectAt,hc]
  obtain ⟨c',ha',hs,hg,hr,-⟩ := deliver_shape ha hc hstep
  rw [hd]
  exact ⟨c',ha',ha'.ended (hs ▸ disconnect_phase c.session),hs,hg,hr⟩

theorem disconnectAt_none (hc : g.connections[i]? = none) : g.disconnectAt i = g := by
  simp only [disconnectAt,hc]

theorem disconnectAt_attended
    (h : ∀ (i : ℕ) (c : Connection), g.connections[i]? = some c → Attended opts c) (i : ℕ) :
    ∀ (j : ℕ) (c : Connection), (g.disconnectAt i).connections[j]? = some c → Attended opts c := by
  cases hc : g.connections[i]? with
  | none => rwa [disconnectAt_none hc]
  | some c =>
      obtain ⟨c',ha',-,-,hg,-⟩ := disconnectAt_shape (h i c hc) hc
      exact each_set h ha' hg

/-- The other sessions stay as they are. -/
theorem disconnectAt_liveAt
    (h : ∀ (i : ℕ) (c : Connection), g.connections[i]? = some c → Attended opts c) (i j : ℕ)
    (id : String) : LiveAt (g.disconnectAt i) j id ↔ j ≠ i ∧ LiveAt g j id := by
  cases hc : g.connections[i]? with
  | none =>
      rw [disconnectAt_none hc]
      refine ⟨fun hl => ⟨?_,hl⟩,And.right⟩
      rintro rfl
      obtain ⟨c,hc',-⟩ := hl
      cases hc.symm.trans hc'
  | some c =>
      obtain ⟨c',-,hend,-,hg,-⟩ := disconnectAt_shape (h i c hc) hc
      obtain ⟨hself,hother⟩ := liveAt_set hc hg
      by_cases hj : j = i
      · subst hj
        rw [hself]
        exact iff_of_false (fun hl => hl.open' hend) fun hl => hl.1 rfl
      · rw [hother j hj,and_iff_right hj]

theorem disconnectAt_drains {l : List ℕ} (h : Draining opts (i::l) g) :
    Draining opts l (g.disconnectAt i) := by
  have hlive := disconnectAt_liveAt h.attended i
  refine ⟨?_,disconnectAt_attended h.attended i,?_⟩
  · intro id hid
    have hshown : (g.registry.get id).isSome ∧ ¬ LiveAt g i id := by
      cases hc : g.connections[i]? with
      | none =>
          rw [disconnectAt_none hc] at hid
          refine ⟨hid,?_⟩
          rintro ⟨c,hc',-⟩
          cases hc.symm.trans hc'
      | some c =>
          have ha := h.attended i c hc
          obtain ⟨c',-,hend,hs,-,hr⟩ := disconnectAt_shape ha hc
          rw [hs] at hend
          rw [liveAt_self hc]
          generalize (g.disconnectAt i).registry = reg at hid hr
          cases hr with
          | quiet hl _ => exact ⟨hid,fun k => k.open' ((ended_congr hl).mp hend)⟩
          | again _ he => exact ⟨hid,fun k => k.open' he⟩
          | closing _ _ =>
              obtain ⟨hsome,hne⟩ := get_unregister hid
              exact ⟨hsome,fun k => ha.history.named id k.coreId (hne k.coreId)⟩
          | opening hm _ =>
              have hphase := disconnect_phase c.session
              rw [hm.phase] at hphase
              cases hphase
    obtain ⟨j,hj⟩ := h.sound id hshown.1
    refine ⟨j,(hlive j id).mpr ⟨?_,hj⟩⟩
    rintro rfl
    exact hshown.2 hj
  · intro j d hd hopen
    cases hc : g.connections[i]? with
    | none =>
        rw [disconnectAt_none hc] at hd
        refine (List.mem_cons.mp (h.member j d hd hopen)).resolve_left ?_
        rintro rfl
        cases hc.symm.trans hd
    | some c =>
        obtain ⟨c',-,hend,-,hg,-⟩ := disconnectAt_shape (h.attended i c hc) hc
        rcases open_set hg hd with ⟨-,rfl⟩ | ⟨hj,hd'⟩
        · exact absurd hend hopen
        · exact (List.mem_cons.mp (h.member j d hd' hopen)).resolve_left hj

theorem drain (l : List ℕ) (h : Draining opts l g) : Draining opts [] (l.foldl disconnectAt g) := by
  induction l generalizing g with
  | nil => exact h
  | cons i l ih => exact ih (disconnectAt_drains h)

/-- With every session closed the registry is empty. -/
theorem stop_consistent (h : Consistent opts g) : Consistent opts g.stop := by
  unfold stop
  split
  · have hd : Draining opts g.sessions g := ⟨fun id => (h.presence id).mp,h.attended,h.member⟩
    obtain ⟨hsound,ha,hm⟩ := drain g.sessions hd
    refine ⟨fun id => ⟨hsound id,?_⟩,ha,fun j d hj hopen => absurd (hm j d hj hopen) (by simp)⟩
    rintro ⟨j,d,hj,hl⟩
    exact absurd (hm j d hj hl.open') (by simp)
  · exact h

/-- No two live sessions have one device id. -/
def Unshared (g : Gateway) : Prop := ∀ i j id, LiveAt g i id → LiveAt g j id → i = j

theorem disconnectAt_presence (hp : Presence g)
    (h : ∀ (i : ℕ) (c : Connection), g.connections[i]? = some c → Attended opts c) :
    Presence (g.disconnectAt i) ↔ ∀ id, LiveAt g i id → ∀ j, LiveAt g j id → i = j := by
  cases hc : g.connections[i]? with
  | none =>
      rw [disconnectAt_none hc]
      refine iff_of_true hp fun id hi => ?_
      obtain ⟨c,hc',-⟩ := hi
      cases hc.symm.trans hc'
  | some c =>
      have ha := h i c hc
      obtain ⟨c',-,hend,hs,hg,hr⟩ := disconnectAt_shape ha hc
      have hstep : step (opts.config c.draws) c.session .disconnect = some c.session.disconnect := rfl
      rw [presence_shift hp ha hc hstep hs hg hr]
      rcases disconnect_moves c.session with hm | hm
      · refine iff_of_true (not_misfiles_of_silent hc hstep hm.events) fun id hi => ?_
        exact absurd ((ended_congr hm.events).mp (hs ▸ hend)) ((liveAt_self hc).mp hi).open'
      · rw [misfiles_closing_iff hc hstep hm]
        constructor
        · intro hno id hi j hj
          by_contra hij
          exact hno ⟨id,(liveAt_self hc).mp hi,j,Ne.symm hij,hj⟩
        · rintro honly ⟨id,hi,j,hji,hj⟩
          exact hji (honly id ((liveAt_self hc).mpr hi) j hj).symm

theorem disconnectAt_unshared
    (h : ∀ (i : ℕ) (c : Connection), g.connections[i]? = some c → Attended opts c)
    (hu : Unshared g) (i : ℕ) : Unshared (g.disconnectAt i) := by
  intro j k id hj hk
  rw [disconnectAt_liveAt h] at hj hk
  exact hu j k id hj.2 hk.2

/-- If no two live sessions have one id, the registry is right after each close. -/
theorem closes_present (l : List ℕ) (hp : Presence g)
    (h : ∀ (i : ℕ) (c : Connection), g.connections[i]? = some c → Attended opts c)
    (hu : Unshared g) : ∀ g' ∈ l.scanl disconnectAt g, Presence g' := by
  induction l generalizing g with
  | nil => simpa using hp
  | cons i l ih =>
      have hp' := (disconnectAt_presence (i := i) hp h).mpr fun id hi j hj => hu i j id hi hj
      rw [List.scanl_cons]
      intro g' hg'
      rcases List.mem_cons.mp hg' with rfl | hg'
      · exact hp
      · exact ih hp' (disconnectAt_attended h i) (disconnectAt_unshared h hu i) g' hg'

/-- If two do, it is wrong after the first of the two has been closed. -/
theorem closes_misfile {j : ℕ} {id : String} (l : List ℕ)
    (h : ∀ (i : ℕ) (c : Connection), g.connections[i]? = some c → Attended opts c)
    (hi : i ∈ l) (hj : j ∈ l) (hji : j ≠ i) (hlive : LiveAt g i id) (hlive' : LiveAt g j id) :
    ¬ ∀ g' ∈ l.scanl disconnectAt g, Presence g' := by
  induction l generalizing g with
  | nil => simp at hi
  | cons k l ih =>
      rw [List.scanl_cons]
      intro hall
      have hp := hall g List.mem_cons_self
      have hrest : ∀ g' ∈ l.scanl disconnectAt (g.disconnectAt k), Presence g' := fun g' hg' =>
        hall g' (List.mem_cons_of_mem g hg')
      have honly := (disconnectAt_presence hp h).mp (hrest _ (List.mem_of_head? List.head?_scanl))
      by_cases hki : k = i
      · subst hki
        exact hji (honly id hlive j hlive').symm
      by_cases hkj : k = j
      · subst hkj
        exact hji (honly id hlive' i hlive)
      refine ih (disconnectAt_attended h k) ?_ ?_ ?_ ?_ hrest
      · exact (List.mem_cons.mp hi).resolve_left (Ne.symm hki)
      · exact (List.mem_cons.mp hj).resolve_left (Ne.symm hkj)
      · exact (disconnectAt_liveAt h k i id).mpr ⟨Ne.symm hki,hlive⟩
      · exact (disconnectAt_liveAt h k j id).mpr ⟨Ne.symm hkj,hlive'⟩

/-- The registry is right in what an event passes unless the event misfiles. -/
theorem passed_present {e : GatewayEvent} (h : Consistent opts g) (hm : ¬ Misfiles opts g e) :
    ∀ g' ∈ passed g e, Presence g' := by
  cases e with
  | stop =>
      dsimp only [passed]
      split
      · next hserver =>
          refine closes_present g.sessions h.presence h.attended fun i j id hi hj => ?_
          by_contra hij
          exact hm (.stop hserver hi (Ne.symm hij) hj)
      · simp
  | _ => simp [passed]

theorem accept_connections (opts : Options) (g : Gateway) (draws : Draws) {j : ℕ} {d : Connection}
    (h : (g.accept opts draws).connections[j]? = some d) :
    g.connections[j]? = some d ∨
      (j = g.connections.length ∧ d = { draws, session := ({} : Session).run (opts.config draws) }) := by
  have hg : (g.accept opts draws).connections =
      g.connections++[{ draws, session := ({} : Session).run (opts.config draws) }] := rfl
  rw [hg] at h
  exact getElem?_concat_cases h

/-- A session that has just been accepted has emitted nothing. -/
theorem accepted_attended (opts : Options) (draws : Draws) :
    Attended opts { draws, session := ({} : Session).run (opts.config draws) } := by
  have hm := run_starting (opts.config draws) (s := {}) rfl
  have hl : lifecycle (({} : Session).run (opts.config draws)).trace = [] := hm.events
  have hg : ¬ Greeted (({} : Session).run (opts.config draws)) := by simp [greeted_iff,hl]
  have he : ¬ Ended (({} : Session).run (opts.config draws)) := by simp [ended_iff,hl]
  have hhist : Historic (opts.config draws) (({} : Session).run (opts.config draws)) :=
    historic_keeps (e := .run) (.start _) rfl
  refine ⟨hhist,?_,fun k => absurd k hg,?_,?_,?_,?_,?_⟩
  · obtain ⟨p,hp⟩ := run_control (opts.config draws) {}
    simp [hp]
  · simp [hg,hm.coreId]
  · simp [hm.phase]
  · simp [hg]
  · simp [hg]
  · simp [he]

theorem accept_consistent (draws : Draws) (h : Consistent opts g) :
    Consistent opts (g.accept opts draws) := by
  have hnew := accepted_attended opts draws
  have hg : ¬ Greeted (({} : Session).run (opts.config draws)) := by
    rw [← hnew.handshakeSucceeded]
    simp
  refine ⟨?_,each_concat h.attended hnew rfl,?_⟩
  · refine presence_same h.presence rfl fun j id => ?_
    constructor
    · rintro ⟨d,hd,hl⟩
      rcases accept_connections opts g draws hd with hd | ⟨-,rfl⟩
      · exact ⟨d,hd,hl⟩
      · exact absurd hl.greeted hg
    · rintro ⟨d,hd,hl⟩
      exact ⟨d,getElem?_concat_some hd _,hl⟩
  · intro j d hd hopen
    rcases accept_connections opts g draws hd with hd | ⟨rfl,-⟩
    · exact List.mem_append_left _ (h.member j d hd hopen)
    · exact List.mem_append_right _ List.mem_cons_self

theorem consistent_keeps {e : GatewayEvent} (h : Consistent opts g) (hm : ¬ Misfiles opts g e)
    (he : gatewayStep opts g e = some g') : Consistent opts g' := by
  cases gatewayStep_cases he with
  | start => exact ⟨presence_same h.presence rfl fun _ _ => Iff.rfl,h.attended,h.member⟩
  | accept draws _ => exact accept_consistent draws h
  | @session i e c t hc ht =>
      have ha := h.attended i c hc
      obtain ⟨c',ha',hs,hg,hr,hsess⟩ := deliver_shape ha hc ht
      refine ⟨(presence_shift h.presence ha hc ht hs hg hr).mpr hm,each_set h.attended ha' hg,?_⟩
      intro j d hd hopen
      rcases open_set hg hd with ⟨rfl,rfl⟩ | ⟨hj,hd'⟩
      · have hwas := h.member j c hc fun hend => hopen (hs ▸ ended_step ht hend)
        rcases hsess with hsame | ⟨hend,-⟩
        · rwa [hsame]
        · exact absurd (hs ▸ hend) hopen
      · have hwas := h.member j d hd' hopen
        rcases hsess with hsame | ⟨-,herase⟩
        · rwa [hsame]
        · rw [herase]
          exact (List.mem_erase_of_ne hj).mpr hwas
  | stop => exact stop_consistent h

/-- A misfiled event leaves the registry wrong, or passes by a wrong one. -/
theorem misfiles_breaks {e : GatewayEvent} (h : Consistent opts g) (hm : Misfiles opts g e) :
    (∃ g', gatewayStep opts g e = some g' ∧ ¬ Presence g') ∨ ¬ ∀ g' ∈ passed g e, Presence g' := by
  have break_at : ∀ (i : ℕ) (e : Event) (o : Out), Emits opts g i e o →
      Misfiles opts g (.session i e) →
      ∃ g', gatewayStep opts g (.session i e) = some g' ∧ ¬ Presence g' := by
    rintro i e o ⟨c,t,hc,ht,-⟩ hm
    have ha := h.attended i c hc
    obtain ⟨c',-,hs,hg,hr,-⟩ := deliver_shape ha hc ht
    refine ⟨g.deliver i c t,by simp [gatewayStep,hc,ht],?_⟩
    rw [presence_shift h.presence ha hc ht hs hg hr]
    exact fun hn => hn hm
  have listed : ∀ {i id}, LiveAt g i id → i ∈ g.sessions := by
    rintro i id ⟨c,hc,hl⟩
    exact h.member i c hc hl.open'
  cases hm with
  | stale hi hem hne hj => exact .inl (break_at _ _ _ hem (.stale hi hem hne hj))
  | late hc hend hem hnone => exact .inl (break_at _ _ _ hem (.late hc hend hem hnone))
  | stop hserver hi hne hj =>
      right
      dsimp only [passed]
      rw [if_pos hserver]
      exact closes_misfile g.sessions h.attended (listed hi) (listed hj) hne hi hj

/-- The registry shows exactly the devices with a live session, in every state of
exactly those runs that misfile nothing. -/
theorem presence_iff_filed (opts : Options) (es : List GatewayEvent) :
    AlwaysPresent opts es ↔
      Throughout (gatewayStep opts) (fun g e => ¬ Misfiles opts g e) {} es := by
  refine always_passing_iff_throughout (fun g h => h.presence) (fun g e => passed_present)
    (fun g e g' => consistent_keeps) ?_ ?_
  · intro g e h hm
    exact misfiles_breaks h (not_not.mp hm)
  · refine ⟨fun id => ?_,by simp,by simp⟩
    simp [LiveAt]

end Keeping

/-- The events of one connection that complete a handshake with the all-zero device. -/
def plainEvents : List Event :=
  [.data (List.replicate 256 0++[0,16,0xFF,0x50,2,0,1]++List.replicate 12 12),.resume,
    .answer plainAnswer,.answer plainAnswer,.answer plainAnswer,.answer plainAnswer,.resume,.resume]

/-- The device reconnects, and then its first socket is noticed dead. -/
def reconnect : List GatewayEvent :=
  [.start,.accept zeroDraws]++plainEvents.map (.session 0)++[.accept zeroDraws]++
    plainEvents.map (.session 1)++[.session 0 .socketClose]

instance (s : Session) : Decidable (Greeted s) :=
  decidable_of_iff (s.trace.any fun o => match o with | .handshake _ => true | _ => false) (by
    simp only [List.any_eq_true,Greeted]
    constructor
    · rintro ⟨o,ho,hr⟩
      cases o <;> simp at hr
      exact ⟨_,ho⟩
    · rintro ⟨r,hr⟩
      exact ⟨_,hr,rfl⟩)

instance (s : Session) : Decidable (Ended s) := inferInstanceAs (Decidable (_ ∈ _))

instance (c : Connection) (id : String) : Decidable (c.Live id) :=
  decidable_of_iff (c.session.coreId = some id ∧ Greeted c.session ∧ ¬ Ended c.session)
    ⟨fun ⟨h,k,l⟩ => ⟨h,k,l⟩,fun ⟨h,k,l⟩ => ⟨h,k,l⟩⟩

/-- The close of the stale session unregisters the device of the new one. -/
theorem reconnect_unregisters : ¬ ∀ (opts : Options) (es : List GatewayEvent),
    AlwaysPresent opts es := by
  intro h
  have hrun : (exec (gatewayStep ⟨Crypto.plainNode,"server"⟩) {} reconnect).map (fun g =>
      ((g.registry.get "000000000000000000000000").isSome,
        g.connections[1]?.map fun c => decide (c.Live "000000000000000000000000"))) =
      some (false,some true) := by
    decide +kernel
  obtain ⟨g,hr,hg⟩ := Run.of_observation _ hrun
  obtain ⟨hreg,hlive⟩ := Prod.mk.inj hg
  obtain ⟨c,hc,hl⟩ := Option.map_eq_some_iff.mp hlive
  have hp := ((h ⟨Crypto.plainNode,"server"⟩ reconnect).1.at_end hr) "000000000000000000000000"
  rw [hreg] at hp
  exact absurd (hp.mpr ⟨1,c,hc,of_decide_eq_true hl⟩) Bool.false_ne_true

end SparkProtocol.Gateways
