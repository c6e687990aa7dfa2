import SparkProtocol.SessionEffects

/-!
# Opening and closing

Only three things touch the phase of a session or emit one of its two lifecycle
events: `run()` when it starts, the continuation on which the handshake
resolves, and finalizing. Everything else is silent. Finalizing tests the phase,
the other two do not; a session stays closed along exactly those runs in which
neither of them happens to a closed session.
-/
namespace SparkProtocol.Sessions
open ByteStrings HostValues StreamPrograms Program Crypto Chunking Coap Messages Handshake
  ByteQueues OrderedMaps FramedStreams LabelledRuns Session

def Out.isLifecycle : Out → Bool
  | .handshake _ => true
  | .close => true
  | _ => false

def lifecycle (l : List Out) : List Out := l.filter Out.isLifecycle

@[simp] theorem lifecycle_nil : lifecycle [] = [] := rfl

@[simp] theorem lifecycle_append (l m : List Out) : lifecycle (l++m) = lifecycle l++lifecycle m :=
  List.filter_append ..

theorem lifecycle_cons (o : Out) (l : List Out) :
    lifecycle (o::l) = if o.isLifecycle then o::lifecycle l else lifecycle l := List.filter_cons

structure Silent (s t : Session) : Prop where
  phase : t.phase = s.phase
  coreId : t.coreId = s.coreId
  events : lifecycle t.trace = lifecycle s.trace

/-- The session closes. `close` is the last thing it says, and nothing is left
armed or outstanding. -/
structure Closing (s t : Session) : Prop where
  wasOpen : s.phase ≠ .closed
  phase : t.phase = .closed
  coreId : t.coreId = s.coreId
  events : lifecycle t.trace = lifecycle s.trace++[.close]
  last : ∃ l, t.trace = l++[.close]
  idle : t.idleTimer = false
  pending : t.pending = .empty

theorem Silent.refl (s : Session) : Silent s s := ⟨rfl,rfl,rfl⟩

theorem Silent.trans {s t u : Session} (h : Silent s t) (k : Silent t u) : Silent s u :=
  ⟨k.phase.trans h.phase,k.coreId.trans h.coreId,k.events.trans h.events⟩

theorem Silent.closing {s t u : Session} (h : Silent s t) (k : Closing t u) : Closing s u :=
  ⟨h.phase ▸ k.wasOpen,k.phase,k.coreId.trans h.coreId,by rw [k.events,h.events],k.last,k.idle,
    k.pending⟩

theorem Silent.either {s t u : Session} (h : Silent s t) (k : Silent t u ∨ Closing t u) :
    Silent s u ∨ Closing s u :=
  k.imp h.trans h.closing

theorem silent_log (s : Session) {o : Out} (h : o.isLifecycle = false) : Silent s (s.log o) :=
  ⟨rfl,rfl,by simp [log,lifecycle_cons,h]⟩

theorem silent_await {α : Type} (s : Session) (p : Exchange α) : Silent s (s.await p) := by
  cases p <;> exact ⟨rfl,rfl,rfl⟩

theorem silent_perform (s : Session) (x : Effect Note) : Silent s (s.perform x) := by
  cases x with
  | note x => exact ⟨rfl,rfl,rfl⟩
  | write b => exact silent_log s rfl

theorem silent_effects (s : Session) (l : List (Effect Note)) : Silent s (l.foldl perform s) := by
  induction l generalizing s with
  | nil => exact .refl s
  | cons x l ih => exact (silent_perform s x).trans (ih _)

theorem Sealing.lifecycle {node : Primitives} {key iv plain iv' : Bytes} {l : List Out}
    (h : Sealing node key iv plain iv' l) : lifecycle l = [] := by
  cases h <;> rfl

theorem Sends.lifecycle {node : Primitives} {key iv iv' : Bytes} {plain : Option Bytes}
    {l : List Out} (h : Sends node key iv plain iv' l) : lifecycle l = [] := by
  cases h with
  | silent => rfl
  | once h => exact h.lifecycle

theorem silent_sendPlain (node : Primitives) (s : Session) (plain : Bytes) :
    Silent s (s.sendPlain node plain).1 := by
  obtain ⟨iv,l,hs,he⟩ := sendPlain_shape node s plain
  rw [he]
  exact ⟨rfl,rfl,by simp [hs.lifecycle]⟩

theorem silent_send (node : Primitives) (s : Session) (name : MessageKey) (opts : SendOptions) :
    Silent s (s.send node name opts).1 := by
  obtain ⟨c,iv,l,hs,he⟩ := send_shape node s name opts
  rw [he]
  exact ⟨rfl,rfl,by simp [hs.lifecycle]⟩

theorem silent_request (node : Primitives) (s : Session) (name : MessageKey)
    (opts : RequestOptions) (token : UInt8) : Silent s (s.request node name opts token) := by
  obtain ⟨pending,timers,c,iv,l,r,hs,hr,-,he⟩ := request_shape node s name opts token
  rw [he]
  refine ⟨rfl,rfl,?_⟩
  rcases hr with rfl | ⟨e,rfl⟩ <;> simp [hs.lifecycle,lifecycle_cons,Out.isLifecycle]

theorem silent_correlate (s : Session) (msg : CoapMessage JsNumber) : Silent s (s.correlate msg) := by
  obtain ⟨pending,timers,o,he,ho⟩ := correlate_shape s msg
  rw [he]
  refine ⟨rfl,rfl,?_⟩
  rcases ho with ⟨id,rfl⟩ | rfl <;> simp [lifecycle_cons,Out.isLifecycle]

theorem lifecycle_closingRejects (s : Session) : lifecycle (closingRejects s) = [] := by
  simp [lifecycle,closingRejects,Out.isLifecycle]

theorem finalize_moves (s : Session) : Silent s s.finalize ∨ Closing s s.finalize := by
  by_cases h : s.phase = .closed
  · rw [finalize_closed h]
    exact .inl (.refl s)
  · obtain ⟨q,d,ts,he⟩ := finalize_shape h
    rw [he]
    exact .inr ⟨h,rfl,rfl,by simp [lifecycle_closingRejects,lifecycle_cons,Out.isLifecycle],
      ⟨_,rfl⟩,rfl,rfl⟩

theorem disconnect_moves (s : Session) : Silent s s.disconnect ∨ Closing s s.disconnect := by
  unfold disconnect
  split
  · exact .inl (.refl s)
  · exact (silent_log s rfl).either (finalize_moves _)

theorem caught_moves (s : Session) (err : JsError) : Silent s (s.caught err) ∨ Closing s (s.caught err) := by
  have h : Silent s { s with handshakeError := some err, control := .finished } := ⟨rfl,rfl,rfl⟩
  unfold caught
  dsimp only
  split
  · exact .inl h
  · exact (h.trans (silent_log _ rfl)).either (disconnect_moves _)

theorem silent_decrypted (s : Session) (ct : Bytes) : Silent s (decrypted s ct) :=
  ⟨rfl,rfl,(silent_log s (o := .frameIn ct) rfl).events⟩

theorem silent_decoded (s : Session) (ct : Bytes) (msg : CoapMessage JsNumber) :
    Silent s (decoded s ct msg) :=
  ⟨rfl,rfl,(silent_decrypted s ct).events⟩

theorem handleFrame_moves (node : Primitives) (s : Session) (ct : Bytes) :
    Silent s (s.handleFrame node ct).1 ∨ Closing s (s.handleFrame node ct).1 := by
  have hin : Silent s (s.log (.frameIn ct)) := silent_log s rfl
  have hh := handleFrame_handles node s ct
  generalize s.handleFrame node ct = r at hh ⊢
  cases hh with
  | undecryptable _ => exact (hin.trans (silent_log _ rfl)).either (disconnect_moves _)
  | unparsable _ _ => exact .inl ((silent_decrypted s ct).trans (silent_log _ rfl))
  | ping _ _ _ => exact .inl ((silent_decoded s ct _).trans (silent_sendPlain node _ _))
  | other _ _ _ => exact .inl ((silent_decoded s ct _).trans (silent_correlate _ _))

theorem endTurn_moves (s : Session) (r : Session × Except JsError Unit)
    (h : Silent s r.1 ∨ Closing s r.1) : Silent s (endTurn r) ∨ Closing s (endTurn r) := by
  obtain ⟨t,r⟩ := r
  cases r with
  | ok _ =>
      exact h.imp (fun h => ⟨h.phase,h.coreId,h.events⟩) fun h =>
        ⟨h.wasOpen,h.phase,h.coreId,h.events,h.last,h.idle,h.pending⟩
  | error e =>
      rcases h with h | h
      · exact h.either (caught_moves t e)
      · -- a throw after the session closed is recorded and nothing else
        have ht : t.caught e = { t with handshakeError := some e, control := .finished } := by
          unfold caught
          exact if_pos h.phase
        show _ ∨ Closing s (t.caught e)
        rw [ht]
        exact .inr ⟨h.wasOpen,h.phase,h.coreId,h.events,h.last,h.idle,h.pending⟩

theorem continueReading_moves (node : Primitives) (s : Session) (p : Exchange Bytes) :
    Silent s (s.continueReading node p) ∨ Closing s (s.continueReading node p) := by
  have hs := silent_effects s p.burst.1
  unfold continueReading
  dsimp only
  split
  · exact endTurn_moves s _ (hs.either (handleFrame_moves node _ _))
  · exact hs.either (caught_moves _ _)
  · have ha := hs.trans (silent_await _ p.burst.2)
    exact .inl ⟨ha.phase,ha.coreId,ha.events⟩

structure Establishing (s t : Session) (r : HandshakeResult) : Prop where
  phase : t.phase = .connected
  control : t.control = .loop
  coreId : t.coreId = some r.coreId
  events : lifecycle t.trace = lifecycle s.trace++[.handshake r]

/-- What a burst of the handshake leaves of the session. -/
inductive Continued (s : Session) (p : Exchange HandshakeResult) : Session → Prop
  | resolves {r : HandshakeResult} : p.burst.2 = .done r →
      Continued s p ((p.burst.1.foldl perform s).established r)
  | rejects {err : JsError} : p.burst.2 = .fail err →
      Continued s p ((p.burst.1.foldl perform s).caught err)
  | waits : p.burst.2.Waits → Continued s p
      { (p.burst.1.foldl perform s).await p.burst.2 with control := .handshake p.burst.2 }

theorem continueHandshake_cases (s : Session) (p : Exchange HandshakeResult) :
    Continued s p (s.continueHandshake p) := by
  unfold continueHandshake
  dsimp only
  split
  · next hr => exact .resolves hr
  · next hr => exact .rejects hr
  · next hdone hfail =>
      refine .waits ?_
      rcases burst_settles p with hw | ⟨r,hr⟩
      · exact hw
      · cases r with
        | ok r => exact absurd (outcome_ok hr) (hdone r)
        | error err => exact absurd (outcome_error hr) (hfail err)

theorem continueHandshake_moves (s : Session) (p : Exchange HandshakeResult) :
    (Silent s (s.continueHandshake p) ∨ Closing s (s.continueHandshake p)) ∨
      ∃ r, p.burst.2 = .done r ∧ Establishing s (s.continueHandshake p) r := by
  have hs := silent_effects s p.burst.1
  have hcont := continueHandshake_cases s p
  generalize s.continueHandshake p = t at hcont ⊢
  cases hcont with
  | @resolves r hr =>
      refine .inr ⟨r,hr,rfl,rfl,rfl,?_⟩
      simp [established,log,lifecycle_cons,Out.isLifecycle,hs.events]
  | rejects _ => exact .inl (hs.either (caught_moves _ _))
  | waits _ =>
      have ha := hs.trans (silent_await _ p.burst.2)
      exact .inl (.inl ⟨ha.phase,ha.coreId,ha.events⟩)

/-- The first burst of the handshake ends at the read of stage 2. -/
theorem runHandshake_burst (node : Primitives) (serverPrivKeyPem : String) (draws : Draws) :
    ∃ k, (runHandshake node serverPrivKeyPem draws).burst =
      ([.note (.stage .sendNonce),.write draws.nonce,.note (.stage .readCoreId)],.read 256 k) :=
  ⟨_,rfl⟩

theorem run_control (cfg : Config) (s : Session) : ∃ p, (s.run cfg).control = .handshake p := by
  obtain ⟨k,hk⟩ := runHandshake_burst cfg.node cfg.serverPrivKeyPem cfg.draws
  refine ⟨.read 256 k,?_⟩
  unfold Session.run continueHandshake
  rw [hk]

structure Starting (s t : Session) : Prop where
  control : s.control = .idle
  phase : t.phase = .handshaking
  coreId : t.coreId = s.coreId
  events : lifecycle t.trace = lifecycle s.trace

theorem run_starting (cfg : Config) {s : Session} (h : s.control = .idle) :
    Starting s (s.run cfg) := by
  obtain ⟨k,hk⟩ := runHandshake_burst cfg.node cfg.serverPrivKeyPem cfg.draws
  have hm := continueHandshake_moves { s.resetIdleTimer with progress := {}, phase := .handshaking }
    (runHandshake cfg.node cfg.serverPrivKeyPem cfg.draws)
  rw [hk] at hm
  have hr : s.run cfg = { s.resetIdleTimer with progress := {}, phase := .handshaking }.continueHandshake
    (runHandshake cfg.node cfg.serverPrivKeyPem cfg.draws) := rfl
  unfold continueHandshake at hr
  rw [hk] at hr
  rw [hr]
  exact ⟨h,rfl,rfl,by simp [Session.await,perform,log,withQueue,resetIdleTimer,lifecycle_cons,Out.isLifecycle]⟩

inductive Moves (s : Session) (e : Event) (t : Session) : Prop
  | silent : Silent s t → Moves s e t
  | closing : Closing s t → Moves s e t
  | starting : e = .run → Starting s t → Moves s e t
  | establishing {p : Exchange HandshakeResult} {r : HandshakeResult} : continuation s e = some p →
      p.burst.2 = .done r → Establishing s t r → Moves s e t

theorem Moves.of_either {s t : Session} {e : Event} (h : Silent s t ∨ Closing s t) : Moves s e t :=
  h.elim .silent .closing

theorem silent_taken (s : Session) : Silent s s.taken := ⟨rfl,rfl,rfl⟩

theorem Moves.of_continuation {s u : Session} {e : Event} {p : Exchange HandshakeResult}
    (hp : continuation s e = some p) (hu : Silent s u) : Moves s e (u.continueHandshake p) := by
  rcases continueHandshake_moves u p with h | ⟨r,hr,h⟩
  · exact .of_either (hu.either h)
  · exact .establishing hp hr ⟨h.phase,h.control,h.coreId,by rw [h.events,hu.events]⟩

/-- Every step, with what it does to the phase and to the lifecycle events. -/
theorem step_moves {cfg : Config} {s t : Session} {e : Event} (h : step cfg s e = some t) :
    Moves s e t := by
  cases step_cases h with
  | run hc => exact .starting rfl (run_starting cfg hc)
  | @proceeds _ k r hc hs =>
      have hk : continuation s .resume = some (k r) := by simp [continuation,hc,hs]
      exact .of_continuation hk (silent_taken s)
  | reads _ _ => exact .of_either ((silent_taken s).either (continueReading_moves cfg.node _ _))
  | loop _ =>
      unfold loopTest
      split
      · exact .of_either (continueReading_moves cfg.node s _)
      · exact .silent ⟨rfl,rfl,rfl⟩
  | @answer c k a hc =>
      have hk : continuation s (.answer a) = some (k (a c)) := by simp [continuation,hc]
      exact .of_continuation hk (.refl s)
  | data chunk => exact .silent ⟨rfl,rfl,rfl⟩
  | socketError err => exact .of_either ((silent_log s rfl).either (disconnect_moves _))
  | socketClose => exact .of_either (finalize_moves s)
  | idleTimeout _ =>
      have hi : Silent s ({ s with idleTimer := false }.log (.error { message := "idle timeout" })) :=
        ⟨rfl,rfl,by simp [log,lifecycle_cons,Out.isLifecycle]⟩
      exact .of_either (hi.either (disconnect_moves _))
  | disconnect => exact .of_either (disconnect_moves s)
  | send name opts => exact .silent (silent_send cfg.node s name opts)
  | request name opts token => exact .silent (silent_request cfg.node s name opts token)
  | requestTimeout _ =>
      exact .silent ⟨rfl,rfl,by simp [onRequestTimeout,clearTimer,log,lifecycle_cons,Out.isLifecycle]⟩

/-- `run()` is called on a closed session, or its handshake resolves there. -/
def Revives (s : Session) (e : Event) : Prop :=
  s.phase = .closed ∧ ((e = .run ∧ s.control = .idle) ∨ Completes s e)

/-- The lifecycle events so far, by phase: a close is the last of them. -/
def Orderly (s : Session) : Prop :=
  if s.phase = .closed then ∃ l, lifecycle s.trace = l++[.close] ∧ .close ∉ l
  else .close ∉ lifecycle s.trace

theorem orderly_keeps {cfg : Config} {s t : Session} {e : Event} (hs : Orderly s)
    (hr : ¬ Revives s e) (h : step cfg s e = some t) : Orderly t := by
  unfold Orderly at hs ⊢
  cases step_moves h with
  | silent hm => rwa [hm.phase,hm.events]
  | closing hm =>
      rw [if_neg hm.wasOpen] at hs
      rw [if_pos hm.phase]
      exact ⟨_,hm.events,hs⟩
  | starting he hm =>
      have hp : s.phase ≠ .closed := fun hp => hr ⟨hp,.inl ⟨he,hm.control⟩⟩
      rw [if_neg hp] at hs
      rw [hm.phase,hm.events]
      exact hs
  | establishing hcont hdone hm =>
      have hp : s.phase ≠ .closed := fun hp => hr ⟨hp,.inr ⟨_,_,hcont,hdone⟩⟩
      rw [if_neg hp] at hs
      rw [hm.phase,hm.events]
      simpa using hs

theorem Orderly.once {s : Session} (h : Orderly s) : s.trace.count .close ≤ 1 := by
  have hc : s.trace.count .close = (lifecycle s.trace).count .close :=
    (List.count_filter rfl).symm
  rw [hc]
  unfold Orderly at h
  split at h
  · obtain ⟨l,hl,hn⟩ := h
    simp [hl,List.count_eq_zero_of_not_mem hn]
  · simp [List.count_eq_zero_of_not_mem h]

theorem Orderly.last {s : Session} (h : Orderly s) {l m : List Out}
    (ht : s.trace = l++.close::m) (r : HandshakeResult) : .handshake r ∉ m := by
  intro hm
  have hr : .handshake r ∈ lifecycle m := List.mem_filter.mpr ⟨hm,rfl⟩
  have hsplit : lifecycle s.trace = lifecycle l++.close::lifecycle m := by
    rw [ht,lifecycle_append,lifecycle_cons]
    rfl
  unfold Orderly at h
  split at h
  · obtain ⟨l',hl,hn⟩ := h
    rcases List.eq_nil_or_concat (lifecycle m) with he | ⟨m',o,he⟩
    · simp [he] at hr
    · rw [hsplit,he,List.concat_eq_append,← List.cons_append,← List.append_assoc] at hl
      obtain ⟨hl,-⟩ := List.append_inj' hl rfl
      exact hn (hl ▸ by simp)
  · exact h (hsplit ▸ by simp)

/-- Along a run from the start: closed stays closed, one close at most, and no
handshake after it. -/
structure ClosedForGood (cfg : Config) (es : List Event) : Prop where
  absorbing : Throughout (step cfg)
    (fun s e => s.phase = .closed → ∀ t, step cfg s e = some t → t.phase = .closed) {} es
  once : Always (step cfg) (fun s => s.trace.count .close ≤ 1) {} es
  last : Always (step cfg)
    (fun s => ∀ l m r, s.trace = l++.close::m → .handshake r ∉ m) {} es

/-- The step that a continuation belongs to. -/
theorem continuation_step (cfg : Config) {s : Session} {e : Event} {p : Exchange HandshakeResult}
    (h : continuation s e = some p) :
    ∃ d, step cfg s e = some (({ s with settled := d } : Session).continueHandshake p) := by
  cases e with
  | resume =>
      simp only [continuation] at h
      split at h
      · next n k r hc hs =>
          obtain rfl := Option.some.inj h
          exact ⟨none,by simp only [step,hc,hs,taken]⟩
      · cases h
  | answer a =>
      simp only [continuation] at h
      split at h
      · next c k hc =>
          obtain rfl := Option.some.inj h
          refine ⟨s.settled,?_⟩
          change step cfg s (.answer a) = some (s.continueHandshake (k (a c)))
          simp only [step,hc]
      · cases h
  | _ => simp [continuation] at h

theorem continueHandshake_done {s : Session} {p : Exchange HandshakeResult} {r : HandshakeResult}
    (h : p.burst.2 = .done r) : s.continueHandshake p = (p.burst.1.foldl perform s).established r := by
  unfold continueHandshake
  simp only [h]

theorem continueHandshake_fail {s : Session} {p : Exchange HandshakeResult} {err : JsError}
    (h : p.burst.2 = .fail err) : s.continueHandshake p = (p.burst.1.foldl perform s).caught err := by
  unfold continueHandshake
  simp only [h]

theorem revives_reopens (cfg : Config) {s : Session} {e : Event} (h : Revives s e) :
    ∃ t, step cfg s e = some t ∧ t.phase ≠ .closed := by
  obtain ⟨-,⟨rfl,hc⟩ | ⟨p,r,hp,hr⟩⟩ := h
  · exact ⟨_,run_some.mpr ⟨hc,rfl⟩,by simp [(run_starting cfg hc).phase]⟩
  · obtain ⟨d,hd⟩ := continuation_step cfg hp
    refine ⟨_,hd,?_⟩
    rw [continueHandshake_done hr]
    simp [established,log]

/-- The closed phase is final along exactly the runs which revive no session. -/
theorem closedForGood_iff (cfg : Config) (es : List Event) :
    ClosedForGood cfg es ↔ Throughout (step cfg) (fun s e => ¬ Revives s e) {} es := by
  have start : Orderly {} := by simp [Orderly]
  constructor
  · intro h
    refine h.absorbing.mono fun s e hs hr => ?_
    obtain ⟨t,ht,hp⟩ := revives_reopens cfg hr
    exact hp (hs hr.1 t ht)
  · intro h
    refine ⟨?_,?_,?_⟩
    · refine h.mono fun s e hr hp t ht => ?_
      cases step_moves ht with
      | silent hm => exact hm.phase.trans hp
      | closing hm => exact hm.phase
      | starting he hm => exact absurd ⟨hp,.inl ⟨he,hm.control⟩⟩ hr
      | establishing hcont hdone _ => exact absurd ⟨hp,.inr ⟨_,_,hcont,hdone⟩⟩ hr
    · exact always_of_throughout (fun _ hs => hs.once) (fun _ _ _ => orderly_keeps) start h
    · exact always_of_throughout (fun _ hs l m r ht => hs.last ht r) (fun _ _ _ => orderly_keeps)
        start h

/-- A device that sends stage 2 and a stage-5 frame at once, then hangs up while
the server waits for the RSA pool. -/
def earlyHello : List Event :=
  [.run,.data (List.replicate 256 0++[0,16,0xFF,0x50,2,0,1]++List.replicate 12 12),.resume,
    .socketClose,.answer plainAnswer,.answer plainAnswer,.answer plainAnswer,.answer plainAnswer,
    .resume,.resume,.loop,.resume]

/-- The buffered frame completes the handshake of the closed session, which then
closes again. -/
theorem earlyHello_reopens : ¬ ∀ (cfg : Config) (es : List Event), ClosedForGood cfg es := by
  intro h
  have hrun : (exec (step plainConfig) {} earlyHello).map (fun s => s.trace.count .close) = some 2 := by
    decide +kernel
  obtain ⟨t,hr,ht⟩ := Run.of_observation _ hrun
  have h1 := (h plainConfig earlyHello).once.at_end hr
  omega

end SparkProtocol.Sessions
