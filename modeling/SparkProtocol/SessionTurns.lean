import SparkProtocol.SessionHistory
import SparkProtocol.HandshakeFaults

/-!
# How `run()` ends

A step goes on with the handshake, or with the message loop, or it leaves the
coroutine alone. While the coroutine is alive nothing has been caught, and what
the handshake has noted is what its history says; so a rejected handshake is
reported with the stage at which it threw. A session that closes without anything
caught was closed from outside, or by a frame that does not decrypt.
-/
namespace SparkProtocol.Sessions
open ByteStrings HostValues StreamPrograms Program Crypto Chunking Coap Messages Handshake
  ByteQueues OrderedMaps FramedStreams LabelledRuns Session

/-- The coroutine and what it has noted and caught are untouched. -/
structure Detached (s t : Session) : Prop where
  control : t.control = s.control
  progress : t.progress = s.progress
  handshakeError : t.handshakeError = s.handshakeError
  phase : t.phase = s.phase ∨ t.phase = .closed

theorem Detached.refl (s : Session) : Detached s s := ⟨rfl,rfl,rfl,.inl rfl⟩

theorem Detached.trans {s t u : Session} (h : Detached s t) (k : Detached t u) : Detached s u := by
  refine ⟨k.control.trans h.control,k.progress.trans h.progress,
    k.handshakeError.trans h.handshakeError,?_⟩
  rcases k.phase with hk | hk
  · rw [hk]
    exact h.phase
  · exact .inr hk

theorem detached_log (s : Session) (o : Out) : Detached s (s.log o) := ⟨rfl,rfl,rfl,.inl rfl⟩

theorem detached_finalize (s : Session) : Detached s s.finalize := by
  by_cases h : s.phase = .closed
  · rw [finalize_closed h]
    exact .refl s
  · obtain ⟨q,d,ts,he⟩ := finalize_shape h
    rw [he]
    exact ⟨rfl,rfl,rfl,.inr rfl⟩

theorem detached_disconnect (s : Session) : Detached s s.disconnect := by
  by_cases h : s.phase = .closed
  · rw [disconnect_closed h]
    exact .refl s
  · obtain ⟨q,d,ts,he⟩ := disconnect_shape h
    rw [he]
    exact ⟨rfl,rfl,rfl,.inr rfl⟩

theorem detached_send (node : Primitives) (s : Session) (name : MessageKey) (opts : SendOptions) :
    Detached s (s.send node name opts).1 := by
  obtain ⟨c,iv,l,-,he⟩ := send_shape node s name opts
  rw [he]
  exact ⟨rfl,rfl,rfl,.inl rfl⟩

theorem detached_request (node : Primitives) (s : Session) (name : MessageKey) (opts : RequestOptions)
    (token : UInt8) : Detached s (s.request node name opts token) := by
  obtain ⟨pending,timers,c,iv,l,r,-,-,-,he⟩ := request_shape node s name opts token
  rw [he]
  exact ⟨rfl,rfl,rfl,.inl rfl⟩

theorem detached_sendPlain (node : Primitives) (s : Session) (plain : Bytes) :
    Detached s (s.sendPlain node plain).1 := by
  obtain ⟨iv,l,-,he⟩ := sendPlain_shape node s plain
  rw [he]
  exact ⟨rfl,rfl,rfl,.inl rfl⟩

theorem detached_correlate (s : Session) (msg : CoapMessage JsNumber) : Detached s (s.correlate msg) := by
  obtain ⟨pending,timers,o,he,-⟩ := correlate_shape s msg
  rw [he]
  exact ⟨rfl,rfl,rfl,.inl rfl⟩

theorem detached_handleFrame (node : Primitives) (s : Session) (ct : Bytes) :
    Detached s (s.handleFrame node ct).1 := by
  have hh := handleFrame_handles node s ct
  have hd : Detached s (decrypted s ct) := ⟨rfl,rfl,rfl,.inl rfl⟩
  have hm : ∀ msg, Detached s (decoded s ct msg) := fun msg => ⟨rfl,rfl,rfl,.inl rfl⟩
  generalize s.handleFrame node ct = r at hh ⊢
  cases hh with
  | undecryptable _ => exact ((detached_log s _).trans (detached_log _ _)).trans (detached_disconnect _)
  | unparsable _ _ => exact hd.trans (detached_log _ _)
  | ping _ _ _ => exact (hm _).trans (detached_sendPlain node _ _)
  | other _ _ _ => exact (hm _).trans (detached_correlate _ _)

theorem detached_await {α : Type} (s : Session) (p : Exchange α) :
    Detached s (s.await p) ∧ (s.await p).phase = s.phase := by
  cases p <;> exact ⟨⟨rfl,rfl,rfl,.inl rfl⟩,rfl⟩

/-- The `catch` of `run()` is the end of the coroutine, and of the session. -/
structure Caught (s : Session) (err : JsError) (t : Session) : Prop where
  control : t.control = .finished
  phase : t.phase = .closed
  handshakeError : t.handshakeError = some err
  progress : t.progress = s.progress

theorem caught_ends (s : Session) (err : JsError) : Caught s err (s.caught err) := by
  unfold caught
  dsimp only
  split
  · next hp => exact ⟨rfl,hp,rfl,rfl⟩
  · have ha := detached_disconnect
      (({ s with handshakeError := some err, control := .finished } : Session).log (.error err))
    exact ⟨ha.control,disconnect_phase _,ha.handshakeError,ha.progress⟩

theorem effects_progress (s : Session) (l : List (Effect Note)) :
    (l.foldl perform s).progress = (l.map Effect.item).foldl Progress.after s.progress ∧
      (l.foldl perform s).handshakeError = s.handshakeError := by
  induction l generalizing s with
  | nil => exact ⟨rfl,rfl⟩
  | cons x l ih => cases x <;> exact ih (s.perform _)

/-- An event that closes the session from outside `run()`. -/
def Event.closes : Event → Bool
  | .socketError _ => true
  | .socketClose => true
  | .idleTimeout => true
  | .disconnect => true
  | _ => false

/-- What a step does to the coroutine once it has been started. -/
inductive Turn (cfg : Config) (s : Session) (e : Event) (t : Session) : Prop
  | detached : Detached s t → e.closes = true ∨ t.phase = s.phase → Turn cfg s e t
  | handshake {p : Exchange HandshakeResult} {d : Option (Except JsError Bytes)} :
      continuation s e = some p → t = ({ s with settled := d } : Session).continueHandshake p →
      Turn cfg s e t
  | waits {q : Exchange Bytes} : Framed s → s.control ≠ .finished →
      Detached { s with control := .reading q } t → t.phase = s.phase → Turn cfg s e t
  | returns : s.control = .loop → s.phase ≠ .connected → t = { s with control := .finished } →
      Turn cfg s e t
  | frame {ct : Bytes} : delivered s e = some ct → Framed s →
      t = endTurn (s.taken.handleFrame cfg.node ct) → Turn cfg s e t
  | rejected {err : JsError} : Framed s → t = s.taken.caught err → Turn cfg s e t

theorem step_turn {cfg : Config} {s t : Session} {e : Event} (hs : Historic cfg s)
    (hstarted : s.control ≠ .idle) (h : step cfg s e = some t) : Turn cfg s e t := by
  cases step_cases h with
  | run hc => exact absurd hc hstarted
  | @proceeds _ k r hc hr =>
      have hk : continuation s .resume = some (k r) := by simp only [continuation,hc,hr]
      exact .handshake (d := none) hk rfl
  | @reads _ k r hc _ =>
      have hf : Framed s := by
        rcases hs.control with hi | ⟨q,hq,-⟩ | hfr
        · simp [hc] at hi
        · simp [hc] at hq
        · exact hfr
      have hr := resume_cases hf h
      generalize s.taken.continueReading cfg.node (k r) = t at hr ⊢
      cases hr with
      | header hc _ _ _ => exact .waits hf (by simp [hc]) ⟨rfl,rfl,rfl,.inl rfl⟩ rfl
      | body _ _ hd => exact .frame hd hf rfl
      | rejected _ => exact .rejected hf rfl
  | loop hc =>
      unfold loopTest
      split
      · exact .waits (framed_of_loop hc) (by simp [hc]) ⟨rfl,rfl,rfl,.inl rfl⟩ rfl
      · next hp => exact .returns hc hp rfl
  | @answer c k a hc =>
      have hk : continuation s (.answer a) = some (k (a c)) := by simp only [continuation,hc]
      exact .handshake (d := s.settled) hk rfl
  | data chunk => exact .detached ⟨rfl,rfl,rfl,.inl rfl⟩ (.inr rfl)
  | socketError err => exact .detached ((detached_log s _).trans (detached_disconnect _)) (.inl rfl)
  | socketClose => exact .detached (detached_finalize s) (.inl rfl)
  | idleTimeout _ =>
      have hoff : Detached s { s with idleTimer := false } := ⟨rfl,rfl,rfl,.inl rfl⟩
      exact .detached ((hoff.trans (detached_log _ _)).trans (detached_disconnect _)) (.inl rfl)
  | disconnect => exact .detached (detached_disconnect s) (.inl rfl)
  | send name opts =>
      exact .detached (detached_send cfg.node s name opts) (.inr (silent_send cfg.node s name opts).phase)
  | request name opts token =>
      exact .detached (detached_request cfg.node s name opts token)
        (.inr (silent_request cfg.node s name opts token).phase)
  | requestTimeout _ => exact .detached ⟨rfl,rfl,rfl,.inl rfl⟩ (.inr rfl)

/-- What a run keeps once the coroutine has been started. -/
structure Coherent (cfg : Config) (s : Session) : Prop where
  history : Historic cfg s
  started : s.control ≠ .idle
  looping : Framed s → s.phase = .connected ∨ s.phase = .closed
  finished : s.control = .finished → s.phase = .closed
  unset : s.control ≠ .finished → s.handshakeError = none
  noted : ∀ q, s.control = .handshake q →
    ∃ t, Runs (runHandshake cfg.node cfg.serverPrivKeyPem cfg.draws) t q ∧ noted t = s.progress

/-- What the environment gives the handshake in this event. -/
def given (s : Session) : Event → Option (Item Note Call Answer JsError)
  | .resume =>
      match s.control,s.settled with
      | .handshake (.read n _),some r => some (.read n r)
      | _,_ => none
  | .answer a =>
      match s.control with
      | .handshake (.call c _) => some (.call c (a c))
      | _ => none
  | _ => none

/-- The history of the handshake goes on with what it is given. -/
theorem goes_on {cfg : Config} {s : Session} {e : Event} {p : Exchange HandshakeResult}
    (hs : Coherent cfg s) (h : continuation s e = some p) :
    ∃ t i, given s e = some i ∧
      Runs (runHandshake cfg.node cfg.serverPrivKeyPem cfg.draws) (t++[i]) p ∧
      noted (t++[i]) = s.progress := by
  cases e with
  | resume =>
      simp only [continuation] at h
      split at h
      · next n k r hc hr =>
          obtain rfl := Option.some.inj h
          obtain ⟨t,ht,hn⟩ := hs.noted _ hc
          refine ⟨t,.read n r,by simp only [given,hc,hr],ht.append (.read r (.here _)),?_⟩
          rw [noted_append,hn]
          rfl
      · cases h
  | answer a =>
      simp only [continuation] at h
      split at h
      · next c k hc =>
          obtain rfl := Option.some.inj h
          obtain ⟨t,ht,hn⟩ := hs.noted _ hc
          refine ⟨t,.call c (a c),by simp only [given,hc],ht.append (.call (a c) (.here _)),?_⟩
          rw [noted_append,hn]
          rfl
      · cases h
  | _ => simp [continuation] at h

theorem Caught.coherent {cfg : Config} {s t : Session} {err : JsError} (h : Caught s err t)
    (ht : Historic cfg t) : Coherent cfg t := by
  refine ⟨ht,?_,fun _ => .inr h.phase,fun _ => h.phase,fun hn => absurd h.control hn,?_⟩
  · simp [h.control]
  · intro q hq
    simp [h.control] at hq

theorem delivered_awake {s : Session} {e : Event} {ct : Bytes} (h : delivered s e = some ct) :
    s.control ≠ .finished := by
  intro hc
  obtain ⟨rfl,-⟩ := delivered_enabled plainConfig h
  simp [delivered,hc] at h

theorem continuation_control {s : Session} {e : Event} {p : Exchange HandshakeResult}
    (h : continuation s e = some p) : ∃ q, s.control = .handshake q := by
  cases e with
  | resume =>
      simp only [continuation] at h
      split at h
      · next hc _ => exact ⟨_,hc⟩
      · cases h
  | answer a =>
      simp only [continuation] at h
      split at h
      · next hc => exact ⟨_,hc⟩
      · cases h
  | _ => simp [continuation] at h

/-- The handshake goes on: it waits again, it has resolved, or it is rejected. -/
theorem continueHandshake_coherent {cfg : Config} {s : Session} {p : Exchange HandshakeResult}
    {l : History} (hrun : Runs (runHandshake cfg.node cfg.serverPrivKeyPem cfg.draws) l p)
    (hnoted : Handshake.noted l = s.progress) (hnone : s.handshakeError = none)
    (ht : Historic cfg (s.continueHandshake p)) : Coherent cfg (s.continueHandshake p) := by
  obtain ⟨hprogress,herror⟩ := effects_progress s p.burst.1
  have hcont := continueHandshake_cases s p
  generalize s.continueHandshake p = t at hcont ht ⊢
  cases hcont with
  | waits _ =>
      obtain ⟨hawait,-⟩ := detached_await (p.burst.1.foldl perform s) p.burst.2
      refine ⟨ht,by simp,fun hf => by simp [Framed] at hf,by simp,fun _ => ?_,?_⟩
      · exact (hawait.handshakeError.trans herror).trans hnone
      · intro q' hq'
        obtain rfl := Control.handshake.inj hq'
        refine ⟨_,hrun.append (runs_burst p),?_⟩
        rw [noted_append,hnoted,← hprogress]
        exact hawait.progress.symm
  | resolves _ =>
      refine ⟨ht,by simp [established,log],fun _ => .inl rfl,by simp [established,log],?_,?_⟩
      · exact fun _ => herror.trans hnone
      · simp [established,log]
  | rejects _ => exact (caught_ends _ _).coherent ht

/-- The state in which `run()` first waits. -/
theorem run_coherent (cfg : Config) : Coherent cfg (({} : Session).run cfg) :=
  continueHandshake_coherent (.here _) rfl rfl (historic_keeps (e := .run) (.start cfg) rfl)

theorem coherent_keeps {cfg : Config} {s t : Session} {e : Event} (hs : Coherent cfg s)
    (h : step cfg s e = some t) : Coherent cfg t := by
  have ht := historic_keeps hs.history h
  cases step_turn hs.history hs.started h with
  | detached ha _ =>
      have hf : Framed t → Framed s := by
        unfold Framed
        rw [ha.control]
        exact id
      refine ⟨ht,ha.control ▸ hs.started,?_,?_,?_,?_⟩
      · intro hft
        rcases ha.phase with hp | hp
        · rw [hp]
          exact hs.looping (hf hft)
        · exact .inr hp
      · intro hc
        rcases ha.phase with hp | hp
        · rw [hp]
          exact hs.finished (ha.control ▸ hc)
        · exact hp
      · rw [ha.control,ha.handshakeError]
        exact hs.unset
      · rw [ha.control,ha.progress]
        exact hs.noted
  | handshake hp he =>
      subst he
      obtain ⟨q,hq⟩ := continuation_control hp
      obtain ⟨l,i,-,hrun,hnoted⟩ := goes_on hs hp
      exact continueHandshake_coherent hrun hnoted (hs.unset (by simp [hq])) ht
  | @waits q hf hawake ha hp =>
      have hc : t.control = .reading q := ha.control
      exact ⟨ht,by simp [hc],fun _ => hp ▸ hs.looping hf,by simp [hc],
        fun _ => ha.handshakeError.trans (hs.unset hawake),by simp [hc]⟩
  | returns hc hp he =>
      subst he
      have hclosed := (hs.looping (framed_of_loop hc)).resolve_left hp
      exact ⟨ht,by simp,fun _ => .inr hclosed,fun _ => hclosed,by simp,by simp⟩
  | @frame ct hd hf he =>
      subst he
      have ha := detached_handleFrame cfg.node s.taken ct
      generalize s.taken.handleFrame cfg.node ct = r at ha ht
      obtain ⟨u,r⟩ := r
      cases r with
      | error err => exact (caught_ends _ _).coherent ht
      | ok _ =>
          refine ⟨ht,by simp [endTurn],fun _ => ?_,by simp [endTurn],?_,by simp [endTurn]⟩
          · rcases ha.phase with hp | hp
            · exact hp ▸ hs.looping hf
            · exact .inr hp
          · exact fun _ => ha.handshakeError.trans (hs.unset (delivered_awake hd))
  | rejected hf he =>
      subst he
      exact (caught_ends _ _).coherent ht

theorem finished_stays {cfg : Config} {s t : Session} {e : Event} (hs : Coherent cfg s)
    (h : step cfg s e = some t) (hc : s.control = .finished) : t.control = .finished := by
  cases step_turn hs.history hs.started h with
  | detached ha _ => exact ha.control.trans hc
  | handshake hp _ =>
      obtain ⟨q,hq⟩ := continuation_control hp
      simp [hq] at hc
  | waits _ hawake _ _ => exact absurd hc hawake
  | returns hl _ _ => simp [hl] at hc
  | frame hd _ _ => exact absurd hc (delivered_awake hd)
  | rejected _ he => exact he ▸ (caught_ends _ _).control

/-- The rejection is that of the read or of the service which the handshake awaits. -/
def Relays (s : Session) (e : Event) (err : JsError) : Prop :=
  ∃ i, given s e = some i ∧ Passes i err

/-- `runHandshake` rejects with an error of its own. -/
structure Rejects (s : Session) (e : Event) (f : Fault) (err : JsError) : Prop where
  program : ∃ p, continuation s e = some p ∧ p.burst.2 = .fail err
  names : f.Names err
  own : ¬ Relays s e err

/-- A rejection is caught with the progress at the stage of its throw site. -/
theorem rejects_caught {cfg : Config} {s t : Session} {e : Event} {f : Fault} {err : JsError}
    (hs : Coherent cfg s) (hr : Rejects s e f err) (h : step cfg s e = some t) :
    ∃ u : Session, t = u.caught err ∧ u.phase = s.phase ∧ u.progress.stage = some f.stage := by
  obtain ⟨p,hp,hfail⟩ := hr.program
  obtain ⟨d,hd⟩ := continuation_step cfg hp
  obtain rfl := Option.some.inj (h.symm.trans hd)
  refine ⟨_,continueHandshake_fail hfail,(silent_effects _ _).phase,?_⟩
  obtain ⟨l,i,hgiven,hrun,hnoted⟩ := goes_on hs hp
  have hend := hfail ▸ hrun.append (runs_burst p)
  have hprogress := (effects_progress ({ s with settled := d } : Session) p.burst.1).1
  dsimp only at hprogress
  rw [hprogress,← hnoted,← noted_append]
  rcases rejection_explained hend with ⟨g,hg,hstage⟩ | ⟨u,j,hsplit,hpasses⟩ | hname
  · rw [hstage,hg.unique hr.names]
  · -- what was given last is passed on, or else the last item is an effect
    exfalso
    rcases List.eq_nil_or_concat p.burst.1 with hnil | ⟨l',x,hl'⟩
    · rw [hnil,List.map_nil,List.append_nil] at hsplit
      obtain ⟨-,hlast⟩ := List.append_inj' hsplit rfl
      obtain rfl := (List.cons.inj hlast).1
      exact hr.own ⟨i,hgiven,hpasses⟩
    · rw [hl',List.concat_eq_append,List.map_append,← List.append_assoc] at hsplit
      obtain ⟨-,hlast⟩ := List.append_inj' hsplit rfl
      obtain rfl := (List.cons.inj hlast).1
      cases x <;> exact hpasses
  · exact absurd hr.names.1 hname

theorem handleFrame_phase {node : Primitives} {s : Session} {ct plain : Bytes}
    (h : aesDecrypt node s.aesKey s.ivIn ct = .ok plain) :
    (s.handleFrame node ct).1.phase = s.phase := by
  have hh := handleFrame_handles node s ct
  generalize s.handleFrame node ct = r at hh ⊢
  cases hh with
  | undecryptable he => simp [h] at he
  | unparsable _ _ => rfl
  | ping _ _ _ => exact (silent_sendPlain node _ _).phase
  | other _ _ _ => exact (silent_correlate _ _).phase

theorem delivered_framed {cfg : Config} {s : Session} {e : Event} {ct : Bytes} (hs : Historic cfg s)
    (h : delivered s e = some ct) : Framed s := by
  obtain ⟨rfl,-⟩ := delivered_enabled cfg h
  rcases hs.control with hi | ⟨q,hq,-⟩ | hf
  · simp [delivered,hi] at h
  · simp [delivered,hq] at h
  · exact hf

/-- After a frame that does not decrypt `run()` is back at its loop condition. -/
theorem undecryptable_loops {cfg : Config} {s t : Session} {e : Event} {ct : Bytes} {err : JsError}
    (hs : Coherent cfg s) (h : step cfg s e = some t) (hdel : delivered s e = some ct)
    (hdec : aesDecrypt cfg.node s.aesKey s.ivIn ct = .error err) : t.control = .loop := by
  obtain ⟨rfl,-⟩ := delivered_enabled cfg hdel
  cases resume_cases (delivered_framed hs.history hdel) h with
  | header _ _ _ hnone => simp [hnone] at hdel
  | body _ _ hd =>
      obtain rfl := Option.some.inj (hd.symm.trans hdel)
      simp [handleFrame,log,taken,hdec,endTurn]
  | rejected hnone => simp [hnone] at hdel

/-- Without anything caught, a session closes from outside or by a frame that
does not decrypt. -/
theorem closing_cause {cfg : Config} {s t : Session} {e : Event} (hs : Coherent cfg s)
    (h : step cfg s e = some t) (hm : Closing s t) (hnone : t.handshakeError = none) :
    e.closes = true ∨
      ∃ ct err, delivered s e = some ct ∧ aesDecrypt cfg.node s.aesKey s.ivIn ct = .error err := by
  have stays : t.phase ≠ s.phase := fun hp => hm.wasOpen (hp.symm.trans hm.phase)
  have uncaught : ∀ u err, t ≠ Session.caught u err := by
    rintro u err rfl
    rw [(caught_ends u err).handshakeError] at hnone
    cases hnone
  cases step_turn hs.history hs.started h with
  | detached _ hcl => exact .inl (hcl.resolve_right stays)
  | @handshake p d hp he =>
      have hphase := (silent_effects ({ s with settled := d } : Session) p.burst.1).phase
      have hcont := continueHandshake_cases ({ s with settled := d } : Session) p
      rw [← he] at hcont
      cases hcont with
      | waits _ => exact absurd ((detached_await _ _).2.trans hphase) stays
      | resolves _ =>
          have hopen := hm.phase
          cases hopen
      | rejects _ => exact absurd rfl (uncaught _ _)
  | waits _ _ _ hp => exact absurd hp stays
  | returns _ _ he => exact absurd (congrArg Session.phase he) stays
  | @frame ct hd _ he =>
      cases hdec : aesDecrypt cfg.node s.aesKey s.ivIn ct with
      | error err => exact .inr ⟨ct,err,hd,hdec⟩
      | ok plain =>
          have hphase := handleFrame_phase (s := s.taken) hdec
          generalize s.taken.handleFrame cfg.node ct = r at he hphase
          obtain ⟨u,r⟩ := r
          cases r with
          | ok _ => exact absurd ((congrArg Session.phase he).trans hphase) stays
          | error err => exact absurd he (uncaught u err)
  | rejected _ he => exact absurd he (uncaught _ _)

end SparkProtocol.Sessions
