import SparkProtocol.HandshakeTraces
import SparkProtocol.Dialogues

/-!
# Sessions that a run reaches

The suspended part of a handshaking session is what is left of a run of
`runHandshake`, so what is known of every completed handshake holds of every
session that gets connected: its key and both vectors have sixteen bytes, its
device id is not empty, and it has made no request yet. The theorems about
connected sessions start where such a session starts.
-/
namespace SparkProtocol.Sessions
open ByteStrings HostValues StreamPrograms Program Crypto Chunking Coap Messages Handshake
  ByteQueues OrderedMaps FramedStreams LabelledRuns Session

/-- The program is what is left of a handshake of this configuration. -/
def Remains (cfg : Config) (p : Exchange HandshakeResult) : Prop :=
  ∃ t, Runs (runHandshake cfg.node cfg.serverPrivKeyPem cfg.draws) t p

theorem Remains.burst {cfg : Config} {p : Exchange HandshakeResult} (h : Remains cfg p) :
    Remains cfg p.burst.2 := by
  obtain ⟨t,ht⟩ := h
  exact ⟨_,ht.append (runs_burst p)⟩

theorem Remains.read {cfg : Config} {n : ℕ} {k : Except JsError Bytes → Exchange HandshakeResult}
    (h : Remains cfg (.read n k)) (r : Except JsError Bytes) : Remains cfg (k r) := by
  obtain ⟨t,ht⟩ := h
  exact ⟨_,ht.append (.read r (.here _))⟩

theorem Remains.call {cfg : Config} {c : Call} {k : Answer c → Exchange HandshakeResult}
    (h : Remains cfg (.call c k)) (a : Answer c) : Remains cfg (k a) := by
  obtain ⟨t,ht⟩ := h
  exact ⟨_,ht.append (.call a (.here _))⟩

theorem Remains.result {cfg : Config} {r : HandshakeResult} (h : Remains cfg (.done r)) :
    r.aesKey.length = 16 ∧ r.ivIn.length = 16 ∧ r.ivOut.length = 16 ∧ r.coreId ≠ "" := by
  obtain ⟨t,ht⟩ := h
  obtain ⟨k,hk,rfl,-⟩ := (secrets_follow_checks ht).2.2 r rfl
  exact hk.lengths

/-- The books before the first request. -/
structure Blank (s : Session) : Prop where
  pending : s.pending = .empty
  timers : s.timers = []
  resolved : resolved s.trace = []

/-- Without an entry no request can be dealt with, so the books stay blank until one
is filed. -/
theorem Blank.settles {node : Primitives} {s t : Session} {e : Event} (h : Blank s)
    (hphase : s.phase ≠ .connected) (k : Settles node s e t) : Blank t := by
  cases k with
  | still k _ _ =>
      exact ⟨k.pending.trans h.pending,k.timers.trans h.timers,k.kept.resolved.trans h.resolved⟩
  | ended k _ _ =>
      exact ⟨k.pending,by rw [k.timers,h.timers]; rfl,k.emptied.resolved.trans h.resolved⟩
  | refused _ _ ht =>
      subst ht
      refine ⟨h.pending,h.timers,?_⟩
      rw [resolved_append,h.resolved]
      rfl
  | filed _ hc _ => exact absurd hc hphase
  | thrown _ hc _ _ _ _ _ => exact absurd hc hphase
  | expired hfind _ _ => simp [h.timers] at hfind
  | matched _ hm _ _ _ _ _ _ => simp [h.pending] at hm

/-- What a run from the start keeps. Before the message loop the books are blank. -/
structure Historic (cfg : Config) (s : Session) : Prop where
  control : s.control = .idle ∨ (∃ p, s.control = .handshake p ∧ Remains cfg p) ∨ Framed s
  looping : s.phase = .connected → Framed s
  named : ∀ id, s.coreId = some id → id ≠ ""
  blank : ¬ Framed s → Blank s

theorem Historic.start (cfg : Config) : Historic cfg {} :=
  ⟨.inl rfl,by simp,by simp,fun _ => ⟨rfl,rfl,rfl⟩⟩

theorem framed_of_loop {s : Session} (h : s.control = .loop) : Framed s := by
  simp [Framed,h]

theorem caught_framed (s : Session) (err : JsError) : Framed (s.caught err) := by
  have h : Framed { s with handshakeError := some err, control := .finished } := trivial
  unfold caught
  dsimp only
  split
  · exact h
  · exact (mute_disconnect _).framed ((mute_log _ (o := .error err) rfl).framed h)

/-- A burst of the handshake leaves it suspended at what remains of it, or ends it. -/
theorem continueHandshake_history {cfg : Config} {s : Session} {p : Exchange HandshakeResult}
    (hp : Remains cfg p) :
    ((∃ q, (s.continueHandshake p).control = .handshake q ∧ Remains cfg q) ∨
      Framed (s.continueHandshake p)) ∧
      (Still s (s.continueHandshake p) ∨ Ended s (s.continueHandshake p)) := by
  have hk := still_effects s p.burst.1
  have hphase := (silent_effects s p.burst.1).phase
  have hr := hp.burst
  have hcont := continueHandshake_cases s p
  generalize s.continueHandshake p = t at hcont ⊢
  cases hcont with
  | resolves _ =>
      refine ⟨.inr (framed_of_loop rfl),.inl (hk.trans ?_)⟩
      exact ⟨rfl,rfl,rfl,by simp [established,log,booked,Out.isBooked],by simp [established,log]⟩
  | rejects _ => exact ⟨.inr (caught_framed _ _),hk.either hphase (caught_settles _ _)⟩
  | waits _ =>
      have ha := still_await (p.burst.1.foldl perform s) p.burst.2
      refine ⟨.inl ⟨_,rfl,hr⟩,.inl (hk.trans ?_)⟩
      exact ⟨ha.pending,ha.timers,ha.requests,ha.booked,ha.open_of_open⟩

theorem finalize_control (s : Session) : s.finalize.control = s.control := by
  by_cases h : s.phase = .closed
  · rw [finalize_closed h]
  · obtain ⟨q,d,ts,he⟩ := finalize_shape h
    rw [he]

theorem disconnect_control (s : Session) : s.disconnect.control = s.control := by
  by_cases h : s.phase = .closed
  · rw [disconnect_closed h]
  · obtain ⟨q,d,ts,he⟩ := disconnect_shape h
    rw [he]

theorem Historic.hand {cfg : Config} {s : Session} (hs : Historic cfg s)
    {p : Exchange HandshakeResult} (hp : s.control = .handshake p) : Remains cfg p := by
  rcases hs.control with hi | ⟨q,hq,hr⟩ | hf
  · simp [hp] at hi
  · obtain rfl := Control.handshake.inj (hp.symm.trans hq)
    exact hr
  · simp [Framed,hp] at hf

/-- A burst from a state in which no request has moved. -/
theorem Remains.proceeds {cfg : Config} {s u : Session} {p : Exchange HandshakeResult}
    (hp : Remains cfg p) (hu : Still s u) (hphase : u.phase = s.phase) :
    ((∃ q, (u.continueHandshake p).control = .handshake q ∧ Remains cfg q) ∨
      Framed (u.continueHandshake p) ∨ (u.continueHandshake p).control = s.control) ∧
      (Still s (u.continueHandshake p) ∨ Ended s (u.continueHandshake p)) := by
  obtain ⟨hc,hst⟩ := continueHandshake_history (s := u) hp
  refine ⟨?_,hu.either hphase hst⟩
  rcases hc with hc | hc
  · exact .inl hc
  · exact .inr (.inl hc)

/-- Before the message loop a step continues the handshake, or it leaves the
coroutine alone; no request is filed. -/
theorem early_step {cfg : Config} {s t : Session} {e : Event} (hs : Historic cfg s)
    (hf : ¬ Framed s) (h : step cfg s e = some t) :
    ((∃ q, t.control = .handshake q ∧ Remains cfg q) ∨ Framed t ∨ t.control = s.control) ∧
      Settles cfg.node s e t := by
  have hphase : s.phase ≠ .connected := fun hp => hf (hs.looping hp)
  cases step_cases h with
  | run hidle =>
      obtain ⟨hc,hst⟩ := continueHandshake_history
        (s := { s.resetIdleTimer with progress := {}, phase := .handshaking })
        (p := runHandshake cfg.node cfg.serverPrivKeyPem cfg.draws) ⟨[],.here _⟩
      refine ⟨hc.imp_right .inl,.of_either (.inl ?_) rfl rfl⟩
      rcases hst with hst | hst
      · exact ⟨hst.pending,hst.timers,hst.requests,hst.booked,fun _ => hst.open_of_open (by simp)⟩
      · have hstart := (run_starting cfg hidle).phase
        have hclosed := hst.closed
        rw [Session.run] at hstart
        rw [hstart] at hclosed
        cases hclosed
  | @proceeds _ k r hc _ =>
      obtain ⟨hctl,hst⟩ := ((hs.hand hc).read r).proceeds (still_taken s) rfl
      exact ⟨hctl,.of_either hst rfl (by simp [answered,delivered,hc])⟩
  | reads hc _ =>
      rcases hs.control with hi | ⟨q,hq,-⟩ | hfr
      · simp [hc] at hi
      · simp [hc] at hq
      · exact absurd hfr hf
  | loop hc => exact absurd (framed_of_loop hc) hf
  | @answer c k a hc =>
      obtain ⟨hctl,hst⟩ := ((hs.hand hc).call (a c)).proceeds (.refl s) rfl
      exact ⟨hctl,.of_either hst rfl rfl⟩
  | data chunk => exact ⟨.inr (.inr rfl),.of_either (.inl ⟨rfl,rfl,rfl,rfl,id⟩) rfl rfl⟩
  | socketError err =>
      exact ⟨.inr (.inr (disconnect_control _)),
        .of_either ((still_log s rfl).either rfl (disconnect_settles _)) rfl rfl⟩
  | socketClose => exact ⟨.inr (.inr (finalize_control s)),.of_either (finalize_settles s) rfl rfl⟩
  | idleTimeout _ =>
      have hidle : Still s { s with idleTimer := false } := ⟨rfl,rfl,rfl,rfl,id⟩
      exact ⟨.inr (.inr (disconnect_control _)),
        .of_either ((hidle.trans (still_log _ rfl)).either rfl (disconnect_settles _)) rfl rfl⟩
  | disconnect => exact ⟨.inr (.inr (disconnect_control s)),.of_either (disconnect_settles s) rfl rfl⟩
  | send name opts =>
      obtain ⟨c,iv,l,-,he⟩ := send_shape cfg.node s name opts
      exact ⟨.inr (.inr (by rw [he])),.of_either (.inl (still_send cfg.node s name opts)) rfl rfl⟩
  | request name opts token =>
      rw [request_unconnected hphase]
      exact ⟨.inr (.inr rfl),.refused rfl hphase rfl⟩
  | requestTimeout hfind => simp [(hs.blank hf).timers] at hfind

theorem continuation_remains {cfg : Config} {s : Session} {e : Event} (hs : Historic cfg s)
    {p : Exchange HandshakeResult} (h : continuation s e = some p) : Remains cfg p := by
  cases e with
  | resume =>
      simp only [continuation] at h
      split at h
      · next n k r hc _ =>
          obtain rfl := Option.some.inj h
          exact (hs.hand hc).read r
      · cases h
  | answer a =>
      simp only [continuation] at h
      split at h
      · next c k hc =>
          obtain rfl := Option.some.inj h
          exact (hs.hand hc).call (a c)
      · cases h
  | _ => simp [continuation] at h

theorem continuation_result {cfg : Config} {s : Session} {e : Event} (hs : Historic cfg s)
    {p : Exchange HandshakeResult} {r : HandshakeResult} (h : continuation s e = some p)
    (hdone : p.burst.2 = .done r) : Remains cfg (.done r) :=
  hdone ▸ (continuation_remains hs h).burst

theorem historic_keeps {cfg : Config} {s t : Session} {e : Event} (hs : Historic cfg s)
    (h : step cfg s e = some t) : Historic cfg t := by
  by_cases hf : Framed s
  · have hft := (step_conveys hf h).framed
    refine ⟨.inr (.inr hft),fun _ => hft,?_,fun hn => absurd hft hn⟩
    cases step_moves h with
    | silent hm => exact hm.coreId ▸ hs.named
    | closing hm => exact hm.coreId ▸ hs.named
    | starting _ hm => simp [Framed,hm.control] at hf
    | establishing hcont hdone _ => exact absurd ⟨_,_,hcont,hdone⟩ (not_completes_of_framed hf e)
  · obtain ⟨hc,hsettles⟩ := early_step hs hf h
    have hphase : s.phase ≠ .connected := fun hp => hf (hs.looping hp)
    have hb := (hs.blank hf).settles hphase hsettles
    have hctl : t.control = .idle ∨ (∃ p, t.control = .handshake p ∧ Remains cfg p) ∨ Framed t := by
      rcases hc with hq | hft | hsame
      · exact .inr (.inl hq)
      · exact .inr (.inr hft)
      · rw [hsame]
        rcases hs.control with hi | hq | hfr
        · exact .inl hi
        · exact .inr (.inl hq)
        · exact absurd hfr hf
    cases step_moves h with
    | silent hm =>
        exact ⟨hctl,fun hp => absurd (hm.phase.symm.trans hp) hphase,hm.coreId ▸ hs.named,fun _ => hb⟩
    | closing hm =>
        exact ⟨hctl,fun hp => by simp [hm.phase] at hp,hm.coreId ▸ hs.named,fun _ => hb⟩
    | starting _ hm =>
        exact ⟨hctl,fun hp => by simp [hm.phase] at hp,hm.coreId ▸ hs.named,fun _ => hb⟩
    | @establishing p r hcont hdone hm =>
        refine ⟨hctl,fun _ => framed_of_loop hm.control,?_,fun _ => hb⟩
        intro id hid
        obtain rfl : r.coreId = id := Option.some.inj (hm.coreId.symm.trans hid)
        exact (continuation_result hs hcont hdone).result.2.2.2

/-- `run()` is not called again. -/
theorem started_keeps {cfg : Config} {s t : Session} {e : Event} (hs : Historic cfg s)
    (h : step cfg s e = some t) (hstarted : s.control ≠ .idle) : t.control ≠ .idle := by
  intro hidle
  have hnot : ¬ Framed t := by simp [Framed,hidle]
  by_cases hf : Framed s
  · exact hnot (step_conveys hf h).framed
  · rcases (early_step hs hf h).1 with ⟨q,hq,-⟩ | hft | hsame
    · simp [hq] at hidle
    · exact hnot hft
    · exact hstarted (hsame ▸ hidle)

/-- The state in which a handshake resolves, as the assignments leave it. -/
theorem completes_established {cfg : Config} {s t : Session} {e : Event}
    {p : Exchange HandshakeResult} {r : HandshakeResult} (h : step cfg s e = some t)
    (hcont : continuation s e = some p) (hdone : p.burst.2 = .done r) :
    ∃ u : Session, t = u.established r := by
  obtain ⟨d,hd⟩ := continuation_step cfg hcont
  obtain rfl := Option.some.inj (h.symm.trans hd)
  exact ⟨_,continueHandshake_done hdone⟩

/-- Every session that gets connected without having closed is one that the
theorems about connected sessions start from. -/
theorem completes_unasked {cfg : Config} {s t : Session} {e : Event} (hs : Historic cfg s)
    (h : step cfg s e = some t) (hc : Completes s e) (hopen : .close ∉ s.trace) :
    Dialogue.Unasked t := by
  obtain ⟨p,r,hcont,hdone⟩ := hc
  have hf : ¬ Framed s := fun hf => not_completes_of_framed hf e ⟨p,r,hcont,hdone⟩
  obtain ⟨hk,hi,ho,-⟩ := (continuation_result hs hcont hdone).result
  obtain ⟨u,ht⟩ := completes_established h hcont hdone
  have hphase : s.phase ≠ .connected := fun hp => hf (hs.looping hp)
  have hb := (hs.blank hf).settles hphase (early_step hs hf h).2
  have hclose : .close ∉ t.trace := by
    intro hm
    have hmem : .close ∈ lifecycle t.trace := List.mem_filter.mpr ⟨hm,rfl⟩
    cases step_moves h with
    | silent hmv => exact hopen (List.mem_filter.mp (hmv.events ▸ hmem)).1
    | closing hmv =>
        have hp := hmv.phase
        rw [ht] at hp
        cases hp
    | starting _ hmv => exact hopen (List.mem_filter.mp (hmv.events ▸ hmem)).1
    | establishing _ _ hmv =>
        rw [hmv.events] at hmem
        exact hopen (List.mem_filter.mp (show _ ∈ lifecycle s.trace by simpa using hmem)).1
  subst ht
  exact ⟨⟨rfl,framed_of_loop rfl,hk,hi,ho,hclose⟩,hb.pending,hb.timers,hb.resolved⟩

end SparkProtocol.Sessions
