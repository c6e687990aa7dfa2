import SparkProtocol.ConnectionLifecycles
import SparkProtocol.SessionTurns

/-!
# What the last event of a connection names

The listener of `close` runs inside the step that closes the session, and it reads
the error which the `catch` of `run()` has recorded. An error that is caught is
recorded before the session closes, so a rejected handshake is named, and so is
the stage. An error that is only emitted is never recorded: when the idle timer
or a frame that does not decrypt ends the session, the report blames nothing. The
reports are right along exactly those runs that have no such step, no socket
error on a live session, and no handshake that rejects after its session closed.
-/
namespace SparkProtocol.Gateways
open ByteStrings HostValues StreamPrograms Program Crypto Handshake OrderedMaps FramedStreams LabelledRuns
  Sessions Session Gateway

/-- The result under which a failure of the handshake is reported. -/
def faultResult : Fault → HandshakeFailure
  | .rsaDecrypt => .rsaFail
  | .plaintextTooSmall => .error
  | .nonceMismatch => .nonceMismatch
  | .coreKeyNotFound => .missingCoreKey
  | .helloAesDecrypt => .aesHelloFail
  | .helloCoapParse => .helloParseFail

theorem handshakeFailureReason_fault {f : Fault} {err : JsError} (hf : f.Names err)
    (stage : Option Stage) : handshakeFailureReason (some err) stage = faultResult f := by
  simp only [handshakeFailureReason,hf.2]
  cases f <;> decide

/-- In the step from `g` to `g'` the causes are named as they are. The trace of
`g'` has what the step reported and what was reported before. -/
structure Truthful (opts : Options) (g : Gateway) (e : GatewayEvent) (g' : Gateway) : Prop where
  idle : ∀ (i : ℕ) (c : Connection), e = .session i .idleTimeout → g.connections[i]? = some c →
    c.session.phase ≠ .closed →
    (¬ Greeted c.session → ∃ coreId stage error,
      .handshakeFailed i coreId stage .timeout error ∈ g'.trace) ∧
    (Greeted c.session → ∃ id, .sessionDisconnected i id .idle ∈ g'.trace)
  frame : ∀ (i : ℕ) (c : Connection) (d : Event) (ct : Bytes) (err : JsError), e = .session i d →
    g.connections[i]? = some c → delivered c.session d = some ct →
    aesDecrypt opts.node c.session.aesKey c.session.ivIn ct = .error err →
    ∃ id, .sessionDisconnected i id .aesFail ∈ g'.trace
  rejected : ∀ (i : ℕ) (c : Connection) (d : Event) (f : Fault) (err : JsError), e = .session i d →
    g.connections[i]? = some c → Rejects c.session d f err →
    ∃ coreId, .handshakeFailed i coreId (some f.stage) (faultResult f) (some err) ∈ g'.trace
  peerClose : ∀ (i : ℕ) (id : String) (c c' : Connection),
    .sessionDisconnected i id .peerClose ∈ g'.trace.drop g.trace.length →
    g.connections[i]? = some c → g'.connections[i]? = some c' →
    ∀ err, .error err ∉ c'.session.trace.drop c.session.trace.length

/-- The steps whose cause the gateway cannot see. -/
inductive Misnames (opts : Options) (g : Gateway) : GatewayEvent → Prop
  | idle {i : ℕ} {c : Connection} : g.connections[i]? = some c → c.session.phase ≠ .closed →
      c.session.idleTimer = true → Misnames opts g (.session i .idleTimeout)
  | frame {i : ℕ} {c : Connection} {e : Event} {ct : Bytes} {err : JsError} :
      g.connections[i]? = some c → delivered c.session e = some ct →
      aesDecrypt opts.node c.session.aesKey c.session.ivIn ct = .error err →
      Misnames opts g (.session i e)
  | late {i : ℕ} {c : Connection} {e : Event} {f : Fault} {err : JsError} :
      g.connections[i]? = some c → c.session.phase = .closed → Rejects c.session e f err →
      Misnames opts g (.session i e)
  | socketError {i : ℕ} {c : Connection} {err : JsError} : g.connections[i]? = some c →
      Greeted c.session → ¬ Ended c.session → Misnames opts g (.session i (.socketError err))

/-- A report that blames nothing. -/
def GatewayOut.Blameless : GatewayOut → Prop
  | .handshakeFailed _ _ _ result error => result ≠ .timeout ∧ error = none
  | .sessionDisconnected _ _ reason => reason = .peerClose
  | _ => True

/-- What the gateway keeps. A report can blame an error only once `run()` is over. -/
structure Tracked (opts : Options) (g : Gateway) : Prop where
  attended : ∀ (i : ℕ) (c : Connection), g.connections[i]? = some c → Attended opts c
  coherent : ∀ (i : ℕ) (c : Connection), g.connections[i]? = some c →
    Coherent (opts.config c.draws) c.session
  ended : ∀ (i : ℕ) (c : Connection), g.connections[i]? = some c → Ended c.session →
    c.session.phase = .closed ∨ Framed c.session
  blameless : ∀ (i : ℕ) (c : Connection), g.connections[i]? = some c →
    c.session.control ≠ .finished → ∀ o ∈ g.trace, o.index = i → o.Blameless
  known : ∀ o ∈ g.trace, o.index < g.connections.length

theorem closeReport_blameless {i : ℕ} {c : Connection} {o : GatewayOut}
    (h : closeReport i c = some o) (hnone : c.session.handshakeError = none) : o.Blameless := by
  unfold closeReport at h
  split at h
  · obtain ⟨id,-,rfl⟩ := Option.map_eq_some_iff.mp h
    simp [GatewayOut.Blameless,disconnectReason,hnone]
  · obtain rfl := Option.some.inj h
    refine ⟨?_,hnone⟩
    rw [hnone,handshakeFailureReason]
    split_ifs <;> decide

theorem closeReport_index {i : ℕ} {c : Connection} {o : GatewayOut}
    (h : closeReport i c = some o) : o.index = i := by
  unfold closeReport at h
  split at h
  · obtain ⟨id,-,rfl⟩ := Option.map_eq_some_iff.mp h
    rfl
  · obtain rfl := Option.some.inj h
    rfl

/-- A step of a session reports only on its connection. -/
theorem Delivers.trace {g g' : Gateway} {i : ℕ} {c : Connection} {e : Event} {t : Session}
    (h : Delivers g i c e t g') :
    ∃ c' l, g'.connections = g.connections.set i c' ∧ c'.session = t ∧ c'.draws = c.draws ∧
      g'.trace = g.trace++l ∧ (∀ o ∈ l, o.index = i) ∧
      (t.handshakeError = none → ∀ o ∈ l, o.Blameless) := by
  cases h with
  | silent _ => exact ⟨_,[],rfl,rfl,rfl,(List.append_nil _).symm,by simp,by simp⟩
  | again _ _ => exact ⟨_,[],rfl,rfl,rfl,(List.append_nil _).symm,by simp,by simp⟩
  | closing _ _ =>
      refine ⟨_,_,rfl,rfl,rfl,List.append_assoc ..,?_,?_⟩
      · intro o ho
        rcases List.mem_append.mp ho with ho | ho
        · obtain ⟨id,-,rfl⟩ := Option.map_eq_some_iff.mp (Option.mem_toList.mp ho)
          rfl
        · exact closeReport_index (Option.mem_toList.mp ho)
      · intro hnone o ho
        rcases List.mem_append.mp ho with ho | ho
        · obtain ⟨id,-,rfl⟩ := Option.map_eq_some_iff.mp (Option.mem_toList.mp ho)
          trivial
        · exact closeReport_blameless (Option.mem_toList.mp ho) hnone
  | opening _ _ _ _ =>
      refine ⟨_,_,rfl,rfl,rfl,rfl,?_,?_⟩
      · simp [GatewayOut.index]
      · simp [GatewayOut.Blameless]

/-- A session that has closed and is open again is in its message loop. -/
theorem ended_keeps {cfg : Config} {s t : Session} {e : Event} (hs : Coherent cfg s)
    (h : step cfg s e = some t) (hend : Ended s → s.phase = .closed ∨ Framed s) :
    Ended t → t.phase = .closed ∨ Framed t := by
  intro ht
  have framed : Framed s → Framed t := fun hf => (step_conveys hf h).framed
  cases step_moves h with
  | silent hm =>
      rcases hend ((ended_congr hm.events).mp ht) with hp | hf
      · exact .inl (hm.phase.trans hp)
      · exact .inr (framed hf)
  | closing hm => exact .inl hm.phase
  | starting _ hm => exact absurd hm.control hs.started
  | establishing _ _ hm => exact .inr (framed_of_loop hm.control)

section Tracking
variable {opts : Options} {g g' : Gateway} {i : ℕ} {c : Connection}

theorem deliver_tracked {t : Session} {e : Event} (h : Tracked opts g)
    (hc : g.connections[i]? = some c) (ht : step (opts.config c.draws) c.session e = some t) :
    Tracked opts (g.deliver i c t) := by
  have hco := h.coherent i c hc
  have hcot := coherent_keeps hco ht
  obtain ⟨d,had,-,hd,-,-⟩ := deliver_shape (h.attended i c hc) hc ht
  obtain ⟨c',l,hg,rfl,hdraws,htrace,hl,hblame⟩ := (deliver_cases (h.attended i c hc) hc ht).trace
  generalize g.deliver i c c'.session = g' at hd hg htrace
  obtain rfl : d = c' := by
    have hself := congrArg (fun l => l[i]?) (hd.symm.trans hg)
    simpa only [getElem?_set_at hc,Option.some.injEq] using hself
  refine ⟨each_set h.attended had hg,each_set h.coherent (hdraws ▸ hcot) hg,
    each_set h.ended (ended_keeps hco ht (h.ended i c hc)) hg,?_,known_set h.known hc hg htrace hl⟩
  · intro j d hd hawake o ho hj
    rw [htrace] at ho
    rcases open_set hg hd with ⟨rfl,rfl⟩ | ⟨hne,hd'⟩
    · rcases List.mem_append.mp ho with ho | ho
      · exact h.blameless j c hc (mt (finished_stays hco ht) hawake) o ho hj
      · exact hblame (hcot.unset hawake) o ho
    · rcases List.mem_append.mp ho with ho | ho
      · exact h.blameless j d hd' hawake o ho hj
      · exact absurd (hj.symm.trans (hl o ho)) hne

theorem accept_tracked (draws : Draws) (h : Tracked opts g) : Tracked opts (g.accept opts draws) := by
  have hnew := accepted_attended opts draws
  have hm := run_starting (opts.config draws) (s := {}) rfl
  have hend : ¬ Ended (({} : Session).run (opts.config draws)) := hnew.onceClose.mp rfl
  have htrace : (g.accept opts draws).trace = g.trace++[.connection g.connections.length] := rfl
  refine ⟨each_concat h.attended hnew rfl,each_concat h.coherent (run_coherent (opts.config draws)) rfl,
    each_concat h.ended (fun he => absurd he hend) rfl,?_,known_accept draws h.known⟩
  · intro j d hd hawake o ho hj
    rw [htrace] at ho
    rcases List.mem_append.mp ho with ho | ho
    · rcases accept_connections opts g draws hd with hd | ⟨rfl,-⟩
      · exact h.blameless j d hd hawake o ho hj
      · exact absurd hj (h.known o ho).ne
    · rw [List.mem_singleton.mp ho]
      trivial

theorem disconnectAt_tracked (h : Tracked opts g) (i : ℕ) : Tracked opts (g.disconnectAt i) := by
  unfold disconnectAt
  split
  · next c hc => exact deliver_tracked (e := .disconnect) h hc rfl
  · exact h

theorem stop_tracked (h : Tracked opts g) : Tracked opts g.stop := by
  unfold stop
  split
  · have hall : Tracked opts (g.sessions.foldl disconnectAt g) :=
      List.foldlRecOn g.sessions disconnectAt h fun _ hg i _ => disconnectAt_tracked hg i
    exact ⟨hall.attended,hall.coherent,hall.ended,hall.blameless,hall.known⟩
  · exact h

theorem tracked_keeps {e : GatewayEvent} (h : Tracked opts g) (he : gatewayStep opts g e = some g') :
    Tracked opts g' := by
  cases gatewayStep_cases he with
  | start => exact ⟨h.attended,h.coherent,h.ended,h.blameless,h.known⟩
  | accept draws _ => exact accept_tracked draws h
  | session hc ht => exact deliver_tracked h hc ht
  | stop => exact stop_tracked h

end Tracking

/-- The session goes on without an error. -/
def Unhurt (s t : Session) : Prop := ∃ l, t.trace = s.trace++l ∧ ∀ err, .error err ∉ l

theorem Unhurt.refl (s : Session) : Unhurt s s := ⟨[],(List.append_nil _).symm,by simp⟩

theorem Unhurt.trans {s t u : Session} (h : Unhurt s t) (k : Unhurt t u) : Unhurt s u := by
  obtain ⟨l,hl,hn⟩ := h
  obtain ⟨m,hm,hn'⟩ := k
  refine ⟨l++m,by rw [hm,hl,List.append_assoc],fun err he => ?_⟩
  rcases List.mem_append.mp he with he | he
  · exact hn err he
  · exact hn' err he

theorem unhurt_finalize (s : Session) : Unhurt s s.finalize := by
  by_cases h : s.phase = .closed
  · rw [finalize_closed h]
    exact .refl s
  · obtain ⟨q,d,ts,he⟩ := finalize_shape h
    rw [he]
    exact ⟨_,List.append_assoc ..,by simp [closingRejects]⟩

theorem unhurt_disconnect (s : Session) : Unhurt s s.disconnect := by
  by_cases h : s.phase = .closed
  · rw [disconnect_closed h]
    exact .refl s
  · obtain ⟨q,d,ts,he⟩ := disconnect_shape h
    rw [he]
    exact ⟨_,List.append_assoc ..,by simp [closingRejects]⟩

theorem Unhurt.drop {s t : Session} (h : Unhurt s t) (err : JsError) :
    .error err ∉ t.trace.drop s.trace.length := by
  obtain ⟨l,hl,hn⟩ := h
  rw [hl,List.drop_left]
  exact hn err

section Naming
variable {opts : Options} {g g' : Gateway} {i : ℕ} {c : Connection} {t : Session} {e : Event}

theorem disconnectAt_unhurt (h : Tracked opts g) (i : ℕ) {j : ℕ} (hc : g.connections[j]? = some c) :
    ∃ c', (g.disconnectAt i).connections[j]? = some c' ∧ Unhurt c.session c'.session := by
  unfold disconnectAt
  split
  · next d hd =>
      obtain ⟨d',-,hs,hg,-,-⟩ := deliver_shape (e := .disconnect) (h.attended i d hd) hd rfl
      rw [hg]
      by_cases hj : j = i
      · subst hj
        obtain rfl := Option.some.inj (hc.symm.trans hd)
        refine ⟨d',getElem?_set_at hd _,?_⟩
        exact hs ▸ unhurt_disconnect c.session
      · exact ⟨c,(List.getElem?_set_ne (Ne.symm hj)).trans hc,.refl _⟩
  · exact ⟨c,hc,.refl _⟩

theorem foldl_disconnectAt_unhurt (l : List ℕ) (h : Tracked opts g) {j : ℕ}
    (hc : g.connections[j]? = some c) :
    ∃ c', (l.foldl disconnectAt g).connections[j]? = some c' ∧ Unhurt c.session c'.session := by
  induction l generalizing g c with
  | nil => exact ⟨c,hc,.refl _⟩
  | cons i l ih =>
      obtain ⟨d,hd,hcd⟩ := disconnectAt_unhurt h i hc
      obtain ⟨c',hc',hdc⟩ := ih (disconnectAt_tracked h i) hd
      exact ⟨c',hc',hcd.trans hdc⟩

/-- Whoever is disconnected by `stop()` suffers no error. -/
theorem stop_unhurt (h : Tracked opts g) {c' : Connection} (hc : g.connections[i]? = some c)
    (hc' : g.stop.connections[i]? = some c') : Unhurt c.session c'.session := by
  unfold stop at hc'
  split at hc'
  · obtain ⟨d,hd,hcd⟩ := foldl_disconnectAt_unhurt g.sessions h hc
    obtain rfl := Option.some.inj (hd.symm.trans hc')
    exact hcd
  · obtain rfl := Option.some.inj (hc.symm.trans hc')
    exact .refl _

/-- A handshake that rejects on an open session is reported with its error. -/
theorem rejected_reported {f : Fault} {err : JsError} (h : Tracked opts g)
    (hc : g.connections[i]? = some c) (ht : step (opts.config c.draws) c.session e = some t)
    (hopen : c.session.phase ≠ .closed) (hr : Rejects c.session e f err) :
    ∃ coreId, .handshakeFailed i coreId (some f.stage) (faultResult f) (some err) ∈
      (g.deliver i c t).trace := by
  have ha := h.attended i c hc
  have hco := h.coherent i c hc
  obtain ⟨p,hp,hfail⟩ := hr.program
  obtain ⟨q,hq⟩ := continuation_control hp
  have hunframed : ¬ Framed c.session := by simp [Framed,hq]
  obtain ⟨u,hcaught,-,hstage⟩ := rejects_caught hco hr ht
  have hend := caught_ends u err
  rw [← hcaught] at hend
  have hd := deliver_cases ha hc ht
  generalize g.deliver i c t = g' at hd ⊢
  cases hd with
  | silent hm => exact absurd (hm.phase.symm.trans hend.phase) hopen
  | again _ he =>
      rcases h.ended i c hc he with hclosed | hf
      · exact absurd hclosed hopen
      · exact absurd hf hunframed
  | closing _ _ =>
      have hoff : c.handshakeSucceeded = false := by
        rw [Bool.eq_false_iff,ne_eq,ha.handshakeSucceeded]
        exact fun hg => hunframed (ha.framed hg)
      refine ⟨t.progress.coreId,List.mem_append_right _ (Option.mem_toList.mpr ?_)⟩
      simp [closeReport,hoff,hend.handshakeError,handshakeFailureReason_fault hr.names,
        hend.progress,hstage]
  | opening hp' hdone _ _ =>
      obtain rfl := Option.some.inj (hp.symm.trans hp')
      rw [hfail] at hdone
      cases hdone

/-- A new report that the peer closed comes from a live session which closes with
nothing caught. -/
theorem peerClose_closing {id : String} (h : Tracked opts g) (hc : g.connections[i]? = some c)
    (ht : step (opts.config c.draws) c.session e = some t) {j : ℕ}
    (hnew : .sessionDisconnected j id .peerClose ∈ (g.deliver i c t).trace.drop g.trace.length) :
    j = i ∧ Closing c.session t ∧ Greeted c.session ∧ ¬ Ended c.session ∧
      t.handshakeError = none := by
  have ha := h.attended i c hc
  have hd := deliver_cases ha hc ht
  generalize g.deliver i c t = g' at hd hnew
  cases hd with
  | silent _ => simp [put] at hnew
  | again _ _ => simp [put] at hnew
  | opening _ _ _ _ => simp at hnew
  | closing hm hend =>
      rw [List.append_assoc,List.drop_left] at hnew
      rcases List.mem_append.mp hnew with hun | hrep
      · simp at hun
      · have hreport := Option.mem_toList.mp hrep
        have hj := closeReport_index hreport
        unfold closeReport at hreport
        split at hreport
        · next hon =>
            obtain ⟨id',-,heq⟩ := Option.map_eq_some_iff.mp hreport
            obtain ⟨-,-,hreason⟩ := GatewayOut.sessionDisconnected.inj heq
            refine ⟨hj,hm,ha.handshakeSucceeded.mp hon,hend,?_⟩
            cases herr : t.handshakeError with
            | none => rfl
            | some err =>
                simp only [herr,disconnectReason] at hreason
                split_ifs at hreason
        · cases hreport

/-- With no step misnamed it is the peer, or a caller, that has closed the session. -/
theorem peerClose_unhurt {id : String} (h : Tracked opts g) (hc : g.connections[i]? = some c)
    (ht : step (opts.config c.draws) c.session e = some t)
    (hmis : ¬ Misnames opts g (.session i e)) {j : ℕ}
    (hnew : .sessionDisconnected j id .peerClose ∈ (g.deliver i c t).trace.drop g.trace.length) :
    j = i ∧ Unhurt c.session t := by
  obtain ⟨hj,hm,hgreeted,hend,hnone⟩ := peerClose_closing h hc ht hnew
  refine ⟨hj,?_⟩
  rcases closing_cause (h.coherent i c hc) ht hm hnone with hcl | ⟨ct,err,hdel,hdec⟩
  · cases e with
    | socketError err => exact absurd (.socketError hc hgreeted hend) hmis
    | socketClose =>
        obtain rfl := Option.some.inj ht
        exact unhurt_finalize _
    | idleTimeout =>
        cases step_cases ht with
        | idleTimeout hon => exact absurd (.idle hc hm.wasOpen hon) hmis
    | disconnect =>
        obtain rfl := Option.some.inj ht
        exact unhurt_disconnect _
    | _ => cases hcl
  · exact absurd (.frame hc hdel hdec) hmis

theorem deliver_truthful (h : Tracked opts g) (hc : g.connections[i]? = some c)
    (ht : step (opts.config c.draws) c.session e = some t)
    (hmis : ¬ Misnames opts g (.session i e)) :
    Truthful opts g (.session i e) (g.deliver i c t) := by
  have same : ∀ {j : ℕ} {d : Connection} {e' : Event}, GatewayEvent.session i e = .session j e' →
      g.connections[j]? = some d → i = j ∧ e = e' ∧ c = d := by
    intro j d e' he hd
    obtain ⟨rfl,rfl⟩ := GatewayEvent.session.inj he
    exact ⟨rfl,rfl,Option.some.inj (hc.symm.trans hd)⟩
  refine ⟨?_,?_,?_,?_⟩
  · intro j d he hd hopen
    obtain ⟨rfl,rfl,rfl⟩ := same he hd
    cases step_cases ht with
    | idleTimeout hon => exact absurd (.idle hc hopen hon) hmis
  · intro j d e' ct err he hd hdel hdec
    obtain ⟨rfl,rfl,rfl⟩ := same he hd
    exact absurd (.frame hc hdel hdec) hmis
  · intro j d e' f err he hd hr
    obtain ⟨rfl,rfl,rfl⟩ := same he hd
    exact rejected_reported h hc ht (fun hp => hmis (.late hc hp hr)) hr
  · intro j id d d' hnew hd hd'
    obtain ⟨rfl,hunhurt⟩ := peerClose_unhurt h hc ht hmis hnew
    obtain rfl := Option.some.inj (hc.symm.trans hd)
    obtain ⟨c',l,hg,hs,-⟩ := (deliver_cases (h.attended j c hc) hc ht).trace
    rw [hg,getElem?_set_at hc] at hd'
    obtain rfl := Option.some.inj hd'
    exact (hs ▸ hunhurt).drop

theorem truthful_of_not_misnames {e : GatewayEvent} (h : Tracked opts g)
    (hmis : ¬ Misnames opts g e) (he : gatewayStep opts g e = some g') : Truthful opts g e g' := by
  cases gatewayStep_cases he with
  | start =>
      refine ⟨by simp,by simp,by simp,?_⟩
      simp
  | accept draws _ =>
      refine ⟨by simp,by simp,by simp,?_⟩
      simp [accept,Gateway.log]
  | session hc ht => exact deliver_truthful h hc ht hmis
  | stop =>
      refine ⟨by simp,by simp,by simp,?_⟩
      intro i id c c' _ hc hc'
      exact (stop_unhurt h hc hc').drop

/-- While `run()` has not ended, no report of the connection blames anything. -/
theorem deliver_blameless (h : Tracked opts g) (hc : g.connections[i]? = some c)
    (ht : step (opts.config c.draws) c.session e = some t) (hawake : t.control ≠ .finished)
    {o : GatewayOut} (ho : o ∈ (g.deliver i c t).trace) (hi : o.index = i) : o.Blameless := by
  have htracked := deliver_tracked h hc ht
  obtain ⟨c',l,hg,rfl,-⟩ := (deliver_cases (h.attended i c hc) hc ht).trace
  refine htracked.blameless i c' ?_ hawake o ho hi
  rw [hg,getElem?_set_at hc]

theorem idle_misnamed (h : Tracked opts g) (hc : g.connections[i]? = some c)
    (hopen : c.session.phase ≠ .closed) (hon : c.session.idleTimer = true) :
    ¬ Truthful opts g (.session i .idleTimeout) (g.deliver i c c.session.onIdleTimeout) := by
  intro htruth
  have ht : step (opts.config c.draws) c.session .idleTimeout = some c.session.onIdleTimeout := by
    simp [step,hon]
  have hawake : c.session.onIdleTimeout.control ≠ .finished := by
    rw [onIdleTimeout,(detached_disconnect _).control]
    exact mt (h.coherent i c hc).finished hopen
  obtain ⟨hfailed,hgone⟩ := htruth.idle i c rfl hc hopen
  by_cases hgreeted : Greeted c.session
  · obtain ⟨id,hid⟩ := hgone hgreeted
    have hblame := deliver_blameless h hc ht hawake hid rfl
    simp [GatewayOut.Blameless] at hblame
  · obtain ⟨coreId,stage,error,hid⟩ := hfailed hgreeted
    have hblame := deliver_blameless h hc ht hawake hid rfl
    exact hblame.1 rfl

theorem frame_misnamed {ct : Bytes} {err : JsError} (h : Tracked opts g)
    (hc : g.connections[i]? = some c) (ht : step (opts.config c.draws) c.session e = some t)
    (hdel : delivered c.session e = some ct)
    (hdec : aesDecrypt opts.node c.session.aesKey c.session.ivIn ct = .error err) :
    ¬ Truthful opts g (.session i e) (g.deliver i c t) := by
  intro htruth
  obtain ⟨id,hid⟩ := htruth.frame i c e ct err rfl hc hdel hdec
  have hawake : t.control ≠ .finished := by
    rw [undecryptable_loops (h.coherent i c hc) ht hdel hdec]
    simp
  have hblame := deliver_blameless h hc ht hawake hid rfl
  simp [GatewayOut.Blameless] at hblame

theorem late_misnamed {f : Fault} {err : JsError} (h : Tracked opts g)
    (hc : g.connections[i]? = some c) (ht : step (opts.config c.draws) c.session e = some t)
    (hp : c.session.phase = .closed) (hr : Rejects c.session e f err) :
    ¬ Truthful opts g (.session i e) (g.deliver i c t) := by
  intro htruth
  obtain ⟨id,hid⟩ := htruth.rejected i c e f err rfl hc hr
  obtain ⟨p,hcont,hfail⟩ := hr.program
  obtain ⟨q,hq⟩ := continuation_control hcont
  have hd := deliver_cases (h.attended i c hc) hc ht
  generalize g.deliver i c t = g' at hd hid
  have hsame : g'.trace = g.trace := by
    cases hd with
    | silent _ => rfl
    | again _ _ => rfl
    | closing hm _ => exact absurd hp hm.wasOpen
    | opening hcont' hdone _ _ =>
        obtain rfl := Option.some.inj (hcont.symm.trans hcont')
        rw [hfail] at hdone
        cases hdone
  rw [hsame] at hid
  have hblame := h.blameless i c hc (by simp [hq]) _ hid rfl
  simp [GatewayOut.Blameless] at hblame

/-- The peer is said to have closed a live session that an error has closed. -/
theorem socketError_misnamed (err : JsError) (h : Tracked opts g) (hc : g.connections[i]? = some c)
    (hgreeted : Greeted c.session) (hend : ¬ Ended c.session) :
    ¬ Truthful opts g (.session i (.socketError err)) (g.deliver i c (c.session.onSocketError err)) := by
  intro htruth
  have ha := h.attended i c hc
  have hopen : c.session.phase ≠ .closed := mt ha.ended hend
  obtain ⟨id,hid⟩ := ha.named.mp hgreeted
  obtain ⟨q,d,ts,hshape⟩ := disconnect_shape (s := c.session.log (.error err)) hopen
  have hclosed : (c.session.onSocketError err).phase = .closed := disconnect_phase _
  have hnone : (c.session.onSocketError err).handshakeError = none :=
    (detached_disconnect _).handshakeError.trans
      ((h.coherent i c hc).unset (mt (h.coherent i c hc).finished hopen))
  have herror : .error err ∈
      (c.session.onSocketError err).trace.drop c.session.trace.length := by
    rw [onSocketError,hshape]
    simp [Session.log]
  have ht : step (opts.config c.draws) c.session (.socketError err) =
      some (c.session.onSocketError err) := rfl
  have hd := deliver_cases ha hc ht
  generalize c.session.onSocketError err = t at hd hclosed hnone herror htruth
  generalize g.deliver i c t = g' at hd htruth
  cases hd with
  | silent hm => exact hopen (hm.phase.symm.trans hclosed)
  | again _ he => exact hend he
  | opening hcont _ _ _ => cases hcont
  | closing hm _ =>
      refine htruth.peerClose i id c _ ?_ hc (getElem?_set_at hc _) err herror
      rw [List.append_assoc,List.drop_left]
      refine List.mem_append_right _ (Option.mem_toList.mpr ?_)
      have hon : c.handshakeSucceeded = true := ha.handshakeSucceeded.mpr hgreeted
      simp [closeReport,hon,hm.coreId,hid,truthy_some (ha.history.named id hid),hnone,disconnectReason]

theorem misnames_breaks {e : GatewayEvent} (h : Tracked opts g) (hmis : Misnames opts g e) :
    ∃ g', gatewayStep opts g e = some g' ∧ ¬ Truthful opts g e g' := by
  cases hmis with
  | @idle i c hc hopen hon =>
      refine ⟨_,?_,idle_misnamed h hc hopen hon⟩
      simp [gatewayStep,hc,step,hon]
  | @frame i c e ct err hc hdel hdec =>
      obtain ⟨rfl,t,ht⟩ := delivered_enabled (opts.config c.draws) hdel
      exact ⟨g.deliver i c t,by simp [gatewayStep,hc,ht],frame_misnamed h hc ht hdel hdec⟩
  | @late i c e f err hc hp hr =>
      obtain ⟨p,hcont,-⟩ := hr.program
      obtain ⟨d,hd⟩ := continuation_step (opts.config c.draws) hcont
      exact ⟨_,by simp [gatewayStep,hc,hd],late_misnamed h hc hd hp hr⟩
  | @socketError i c err hc hgreeted hend =>
      exact ⟨_,by simp [gatewayStep,hc,step],socketError_misnamed err h hc hgreeted hend⟩

/-- The gateway names the causes in every step of exactly those runs that have no
misnamed step. -/
theorem causes_named_iff (opts : Options) (es : List GatewayEvent) :
    Throughout (gatewayStep opts)
        (fun g e => ∀ g', gatewayStep opts g e = some g' → Truthful opts g e g') {} es ↔
      Throughout (gatewayStep opts) (fun g e => ¬ Misnames opts g e) {} es := by
  refine throughout_congr (I := Tracked opts) (fun g e h => ?_) (fun g e g' => tracked_keeps) ?_
  · constructor
    · intro htruth hmis
      obtain ⟨g',he,hnot⟩ := misnames_breaks h hmis
      exact hnot (htruth g' he)
    · exact fun hmis g' => truthful_of_not_misnames h hmis
  · exact ⟨by simp,by simp,by simp,by simp,by simp⟩

end Naming

/-- A device that connects and says nothing. -/
def silentDevice : List GatewayEvent := [.start,.accept zeroDraws,.session 0 .idleTimeout]

/-- It is reported as aborted and not as timed out. -/
theorem silentDevice_aborted : ¬ ∀ (opts : Options) (es : List GatewayEvent),
    Throughout (gatewayStep opts)
      (fun g e => ∀ g', gatewayStep opts g e = some g' → Truthful opts g e g') {} es := by
  intro h
  have hlast := (((h ⟨plainNode,"server"⟩ silentDevice).2 _ rfl).2 _ rfl).1
  have hrun : (exec (gatewayStep ⟨plainNode,"server"⟩) {} silentDevice).map (fun g => g.trace) =
      some [.connection 0,.handshakeFailed 0 none (some .readCoreId) .aborted none] := by
    decide +kernel
  obtain ⟨g,hg,htrace⟩ := Option.map_eq_some_iff.mp hrun
  have htruth := hlast g hg
  obtain ⟨coreId,stage,error,hmem⟩ := (htruth.idle 0 _ rfl rfl (by decide)).1 (by decide +kernel)
  rw [htrace] at hmem
  simp at hmem

end SparkProtocol.Gateways
