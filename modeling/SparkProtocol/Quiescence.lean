import SparkProtocol.RollingVectors

/-!
# A closed session

Finalizing disarms the idle timer, rejects what is outstanding and says `close`
last. What can still stir a closed session is counted here: the data handler and
the error handler do not look at the phase, a frame read before the close is
handled after it, and `send` never asks. Without these four the session is
silent for good, and each of them alone breaks the silence.
-/
namespace SparkProtocol.Sessions
open ByteStrings HostValues StreamPrograms Program Crypto Chunking Coap Messages Handshake
  ByteQueues OrderedMaps FramedStreams LabelledRuns Session

/-- What a closed session should not do any more. -/
def Out.isNoise : Out → Bool
  | .message _ _ => true
  | .error _ => true
  | .write _ => true
  | _ => false

def afterClose : List Out → List Out
  | [] => []
  | .close::l => l
  | _::l => afterClose l

theorem afterClose_append_of_mem {l : List Out} (h : .close ∈ l) (m : List Out) :
    afterClose (l++m) = afterClose l++m := by
  induction l with
  | nil => simp at h
  | cons o l ih =>
      cases o with
      | close => rfl
      | _ => exact ih (by simpa using h)

theorem afterClose_eq_nil {l : List Out} (h : .close ∉ l) : afterClose l = [] := by
  induction l with
  | nil => rfl
  | cons o l ih =>
      cases o with
      | close => simp at h
      | _ => exact ih fun hl => h (List.mem_cons_of_mem _ hl)

theorem afterClose_last {l : List Out} (h : .close ∉ l) : afterClose (l++[.close]) = [] := by
  induction l with
  | nil => rfl
  | cons o l ih =>
      cases o with
      | close => simp at h
      | _ => exact ih fun hl => h (List.mem_cons_of_mem _ hl)

/-- After `close`: no message, no error, no byte, and no idle timer. -/
structure Quiet (s : Session) : Prop where
  silent : ∀ o ∈ afterClose s.trace, o.isNoise = false
  disarmed : .close ∈ s.trace → s.idleTimer = false

/-- The events that stir a closed session. -/
def Stirs (s : Session) : Event → Prop
  | .data _ => True
  | .socketError _ => True
  | .send name opts => ∃ plain, composed s name opts = some plain ∧ Fits plain
  | e => delivered s e ≠ none

/-- A session that has not closed, or a closed one at rest. -/
structure Resting (s : Session) : Prop where
  framed : Framed s
  key : s.aesKey.length = 16
  ivOut : s.ivOut.length = 16
  phases : (s.phase ≠ .closed ∧ .close ∉ s.trace) ∨
    (s.phase = .closed ∧ .close ∈ s.trace ∧ s.idleTimer = false ∧ s.pending = .empty ∧
      ∀ o ∈ afterClose s.trace, o.isNoise = false)

theorem Resting.quiet {s : Session} (h : Resting s) : Quiet s := by
  rcases h.phases with ⟨-,hn⟩ | ⟨-,-,hi,-,hs⟩
  · exact ⟨by simp [afterClose_eq_nil hn],fun hc => absurd hc hn⟩
  · exact ⟨hs,fun _ => hi⟩

theorem Connected.resting {s : Session} (h : Connected s) : Resting s :=
  ⟨h.framed,h.key,h.ivOut,.inl ⟨by simp [h.phase],h.unclosed⟩⟩

theorem mem_lifecycle_close {l : List Out} : .close ∈ lifecycle l ↔ .close ∈ l := by
  simp [lifecycle,Out.isLifecycle]

/-- Closing puts `close` at the end of a trace that did not have it. -/
theorem Closing.afterClose {s t : Session} (h : Closing s t) (hn : .close ∉ s.trace) :
    afterClose t.trace = [] := by
  obtain ⟨l,hl⟩ := h.last
  have he := h.events
  rw [hl,lifecycle_append] at he
  have hs : lifecycle l = lifecycle s.trace := (List.append_inj' he rfl).1
  rw [hl]
  exact afterClose_last fun hc => hn (mem_lifecycle_close.mp (hs ▸ mem_lifecycle_close.mpr hc))

theorem caught_closed {s : Session} (h : s.phase = .closed) (err : JsError) :
    s.caught err = { s with handshakeError := some err, control := .finished } := by
  unfold caught
  exact if_pos h

/-- The trace grows by silent entries only. -/
structure Undisturbed (s t : Session) : Prop where
  phase : t.phase = .closed
  disarmed : t.idleTimer = false
  pending : t.pending = .empty
  silent : ∃ m, t.trace = s.trace++m ∧ ∀ o ∈ m, o.isNoise = false

theorem undisturbed_of_quiet {s t : Session} (hp : t.phase = .closed) (hi : t.idleTimer = false)
    (hn : t.pending = .empty) (ht : t.trace = s.trace) : Undisturbed s t :=
  ⟨hp,hi,hn,[],by simp [ht],by simp⟩

theorem Sends.silent_of_not_fits {node : Primitives} {key iv iv' : Bytes} {plain : Option Bytes}
    {l : List Out} (h : Sends node key iv plain iv' l)
    (hn : ∀ p, plain = some p → ¬ Fits p) : ∀ o ∈ l, o.isNoise = false := by
  cases h with
  | silent => simp
  | once h =>
      cases h with
      | refused _ => simp [Out.isNoise]
      | oversize _ _ => simp [Out.isNoise]
      | sent he hl =>
          rw [aesEncrypt_length he] at hl
          exact absurd hl (hn _ rfl)

theorem closed_step {cfg : Config} {s t : Session} {e : Event} (hf : Framed s)
    (hp : s.phase = .closed) (hi : s.idleTimer = false) (hn : s.pending = .empty)
    (hd : ¬ Stirs s e) (h : step cfg s e = some t) : Undisturbed s t := by
  cases step_cases h with
  | run hc => simp [Framed,hc] at hf
  | proceeds hc _ => simp [Framed,hc] at hf
  | @reads _ k r _ _ =>
      have hnone : delivered s .resume = none := not_not.mp hd
      have hr := resume_cases hf h
      generalize s.taken.continueReading cfg.node (k r) = t at hr ⊢
      cases hr with
      | header _ _ _ _ => exact undisturbed_of_quiet hp hi hn rfl
      | body _ _ hb => simp [hb] at hnone
      | rejected _ =>
          rw [caught_closed (s := s.taken) hp]
          exact undisturbed_of_quiet hp hi hn rfl
  | loop _ =>
      unfold loopTest
      rw [if_neg (by simp [hp])]
      exact undisturbed_of_quiet hp hi hn rfl
  | answer a hc => simp [Framed,hc] at hf
  | data chunk => exact absurd trivial hd
  | socketError err => exact absurd trivial hd
  | socketClose =>
      rw [finalize_closed hp]
      exact undisturbed_of_quiet hp hi hn rfl
  | idleTimeout hon => simp [hi] at hon
  | disconnect =>
      rw [disconnect_closed hp]
      exact undisturbed_of_quiet hp hi hn rfl
  | send name opts =>
      obtain ⟨c,iv,l,hs,he⟩ := send_shape cfg.node s name opts
      rw [he]
      exact ⟨hp,hi,hn,l,rfl,hs.silent_of_not_fits fun p hc hfit => hd ⟨p,hc,hfit⟩⟩
  | request name opts token =>
      obtain ⟨pending,timers,c,iv,l,r,hs,hr,hpend,he⟩ := request_shape cfg.node s name opts token
      have ha : asked s name opts token = none := by simp [asked,hp]
      rw [ha] at hs
      obtain ⟨-,rfl⟩ := hs.nothing
      obtain rfl : pending = s.pending := hpend.resolve_left (by simp [hp])
      rw [he]
      refine ⟨hp,hi,hn,r,by simp,?_⟩
      rcases hr with rfl | ⟨e,rfl⟩ <;> simp [Out.isNoise]
  | @requestTimeout _ timer _ =>
      refine ⟨hp,hi,?_,[.reject timer.id (timedOut timer)],rfl,by simp [Out.isNoise]⟩
      simp [onRequestTimeout,clearTimer,log,hn,OrderedMap.delete,OrderedMap.empty]

theorem resting_keeps {cfg : Config} {s t : Session} {e : Event} (hs : Resting s)
    (hc : ¬ (s.phase = .closed ∧ Stirs s e)) (h : step cfg s e = some t) : Resting t := by
  have hv := step_conveys hs.framed h
  obtain ⟨l,hsends,-⟩ := hv.ivOut
  refine ⟨hv.framed,hv.key ▸ hs.key,hsends.ivOut_length hs.ivOut,?_⟩
  rcases hs.phases with ⟨hp,hn⟩ | ⟨hp,hm,hi,hpend,hq⟩
  · cases step_moves h with
    | silent hm =>
        refine .inl ⟨hm.phase ▸ hp,fun hx => hn ?_⟩
        rw [← mem_lifecycle_close,hm.events,mem_lifecycle_close] at hx
        exact hx
    | closing hm =>
        refine .inr ⟨hm.phase,?_,hm.idle,hm.pending,by simp [hm.afterClose hn]⟩
        rw [← mem_lifecycle_close,hm.events]
        simp
    | starting _ hm =>
        have hf := hs.framed
        simp [Framed,hm.control] at hf
    | establishing hcont hdone _ =>
        exact absurd ⟨_,_,hcont,hdone⟩ (not_completes_of_framed hs.framed e)
  · have hu := closed_step hs.framed hp hi hpend (fun hd => hc ⟨hp,hd⟩) h
    obtain ⟨m,ht,hsil⟩ := hu.silent
    refine .inr ⟨hu.phase,by simp [ht,hm],hu.disarmed,hu.pending,?_⟩
    rw [ht,afterClose_append_of_mem hm]
    intro o ho
    rcases List.mem_append.mp ho with ho | ho
    · exact hq o ho
    · exact hsil o ho

section Stirring
variable {cfg : Config} {s : Session}

/-- A noisy entry after the close. -/
theorem not_quiet_of_noise {t : Session} (hm : .close ∈ s.trace) {l : List Out}
    (ht : t.trace = s.trace++l) (hn : ∃ o ∈ l, o.isNoise = true) : ¬ Quiet t := by
  intro hq
  obtain ⟨o,ho,hn⟩ := hn
  have hs := hq.silent o (by
    rw [ht,afterClose_append_of_mem hm]
    exact List.mem_append_right _ ho)
  simp [hn] at hs

/-- A frame that reaches `_handleFrame` of a closed session makes noise, whatever
it holds: an error, an answered ping, or a message that no request waits for. -/
theorem handleFrame_noise {node : Primitives} {ct : Bytes} (hk : s.aesKey.length = 16)
    (ho : s.ivOut.length = 16) (hp : s.phase = .closed) (hn : s.pending = .empty) :
    ∃ l, (endTurn (s.handleFrame node ct)).trace = s.trace++l ∧ ∃ o ∈ l, o.isNoise = true := by
  have hh := handleFrame_handles node s ct
  generalize s.handleFrame node ct = r at hh ⊢
  cases hh with
  | @undecryptable err _ =>
      rw [disconnect_closed (by exact hp)]
      exact ⟨_,by simp only [endTurn,log,List.append_assoc,List.cons_append,List.nil_append]; rfl,
        by simp [Out.isNoise]⟩
  | @unparsable _ err _ _ =>
      exact ⟨_,by
        simp only [endTurn,decrypted,log,List.append_assoc,List.cons_append,List.nil_append]; rfl,
        by simp [Out.isNoise]⟩
  | @ping _ msg _ hd _ =>
      have hshort := ackBytes_length hd
      obtain ⟨sealed,he⟩ := aesEncrypt_total node hk ho (ackBytes msg)
      have hl : sealed.length < 65536 := by
        rw [aesEncrypt_length he]
        omega
      refine ⟨[.frameIn ct,.plainOut (ackBytes msg),.write (frame [] sealed)],?_,by
        simp [Out.isNoise]⟩
      rw [sendPlain_ok (by exact he) hl]
      simp [endTurn,decoded,decrypted,log]
  | @other _ msg _ _ _ =>
      refine ⟨[.frameIn ct,.message (classify msg) msg],?_,by simp [Out.isNoise]⟩
      have hnone : (if msg.token.length > 0 then (decoded s ct msg).pending.get (toHex msg.token)
          else none) = none := by
        simp [decoded,decrypted,log,hn]
      simp only [correlate,hnone]
      simp [endTurn,decoded,decrypted,log]

/-- Each of the stirring events is possible and ends the quiet. -/
theorem stirs_breaks {e : Event} (hs : Resting s) (h : s.phase = .closed ∧ Stirs s e) :
    ∃ t, step cfg s e = some t ∧ ¬ Quiet t := by
  obtain ⟨hp,hd⟩ := h
  obtain ⟨-,hm,-,hpend,-⟩ := hs.phases.resolve_left fun h => h.1 hp
  have frames : delivered s e ≠ none → ∃ t, step cfg s e = some t ∧ ¬ Quiet t := by
    intro hne
    obtain ⟨ct,hct⟩ := Option.ne_none_iff_exists'.mp hne
    obtain ⟨rfl,t,ht⟩ := delivered_enabled cfg hct
    refine ⟨t,ht,?_⟩
    cases resume_cases hs.framed ht with
    | header _ _ _ hnone => simp [hnone] at hct
    | body _ _ _ =>
        obtain ⟨l,hl,hn⟩ := handleFrame_noise (s := s.taken) hs.key hs.ivOut hp hpend
        exact not_quiet_of_noise hm hl hn
    | rejected hnone => simp [hnone] at hct
  cases e with
  | data chunk =>
      refine ⟨_,rfl,fun hq => ?_⟩
      have hi : (s.onData chunk).idleTimer = false := hq.disarmed hm
      simp [onData,withQueue,resetIdleTimer] at hi
  | socketError err =>
      refine ⟨_,rfl,not_quiet_of_noise hm (l := [.error err]) ?_ (by simp [Out.isNoise])⟩
      rw [onSocketError,disconnect_closed (by exact hp)]
      rfl
  | send name opts =>
      obtain ⟨plain,hc,hfit⟩ := hd
      obtain ⟨c,iv,l,hsends,he⟩ := send_shape cfg.node s name opts
      obtain ⟨ct,hct⟩ := aesEncrypt_total cfg.node hs.key hs.ivOut plain
      refine ⟨_,rfl,?_⟩
      rw [hc] at hsends
      cases hsends with
      | once hseal =>
          cases hseal with
          | refused hr => simp [hct] at hr
          | oversize hr hl =>
              rw [aesEncrypt_length hr] at hl
              exact absurd hfit (Nat.not_lt.mpr hl)
          | sent hr hl =>
              rw [he]
              exact not_quiet_of_noise hm rfl (by simp [Out.isNoise])
  | run => exact frames hd
  | resume => exact frames hd
  | loop => exact frames hd
  | answer a => exact frames hd
  | socketClose => exact frames hd
  | idleTimeout => exact frames hd
  | disconnect => exact frames hd
  | request name opts token => exact frames hd
  | requestTimeout id => exact frames hd

end Stirring

/-- A connected session is quiet after its close along exactly the runs in which
nothing stirs it then. -/
theorem quiet_iff_unstirred (cfg : Config) {s : Session} (h : Connected s) (es : List Event) :
    Always (step cfg) Quiet s es ↔
      Throughout (step cfg) (fun s e => ¬ (s.phase = .closed ∧ Stirs s e)) s es :=
  always_iff_throughout (fun _ hs => hs.quiet) (fun _ _ _ hs hc ht => resting_keeps hs hc ht)
    (fun _ _ hs hc => stirs_breaks hs (not_not.mp hc)) h.resting

/-- A response and a second frame arrive in one chunk. The request resolves, its
continuation disconnects, and the second frame is handled all the same. -/
def disconnectOnResponse : List Event :=
  [.loop,.request (.named .getTime) {} 7,
    .data ([0,16,0xFF,0x31,0x47,0,8,11]++List.replicate 11 7++
      [0,16,0xFF,0x61,0x45,0,10,7]++List.replicate 11 11),
    .resume,.resume,.loop,.disconnect,.resume,.resume]

theorem quiet_iff_unstirred_plain :
    Always (step plainConfig) Quiet plainSession disconnectOnResponse ↔
      Throughout (step plainConfig) (fun s e => ¬ (s.phase = .closed ∧ Stirs s e)) plainSession
        disconnectOnResponse :=
  quiet_iff_unstirred plainConfig plainSession_connected _

theorem disconnectOnResponse_not_quiet : ¬ ∀ (cfg : Config) (s : Session), Connected s →
    ∀ es : List Event, Always (step cfg) Quiet s es := by
  intro h
  have hrun : (exec (step plainConfig) plainSession disconnectOnResponse).map
      (fun s => (afterClose s.trace).any Out.isNoise) = some true := by
    decide +kernel
  obtain ⟨t,hr,ht⟩ := Run.of_observation _ hrun
  have hq := (h plainConfig plainSession plainSession_connected _).at_end hr
  obtain ⟨o,ho,hn⟩ := List.any_eq_true.mp ht
  simp [hq.silent o ho] at hn

end SparkProtocol.Sessions
