import SparkProtocol.SessionHistory
import SparkProtocol.WrappingCounters

/-!
# Message ids taken from the counter

Stage 6 draws the counter and gives its value to the Hello; the session goes on from
the value that the handshake hands over. After that only a call without an explicit
message id touches the counter, and each such call takes its value and advances it.
The value that was handed over is the Hello's own, so the first call repeats it.
-/
namespace SparkProtocol.Sessions
open ByteStrings HostValues StreamPrograms Program Crypto Chunking Coap Messages Handshake
  ByteQueues OrderedMaps FramedStreams LabelledRuns WrappingCounters Session

/-- The call takes its message id from the counter. It does so also when the message
then does not encode. -/
def Allocates (s : Session) : Event → Prop
  | .send name opts => name.spec.isSome ∧ opts.messageId = none
  | .request name _ _ => s.phase = .connected ∧ name.spec.isSome
  | _ => False

instance (s : Session) : (e : Event) → Decidable (Allocates s e)
  | .send name opts =>
      inferInstanceAs (Decidable (name.spec.isSome = true ∧ opts.messageId = none))
  | .request name _ _ => inferInstanceAs (Decidable (s.phase = .connected ∧ name.spec.isSome = true))
  | .run | .resume | .loop | .answer _ | .data _ | .socketError _ | .socketClose | .idleTimeout
  | .disconnect | .requestTimeout _ => inferInstanceAs (Decidable False)

/-- The ids that a run takes from the counter, in order. -/
def allocated (cfg : Config) : Session → List Event → List ℤ
  | _,[] => []
  | s,e::es =>
      match step cfg s e with
      | none => []
      | some t => (if Allocates s e then [(s.allocate none).1] else [])++allocated cfg t es

section Counter
variable {node : Primitives} {s : Session}

@[simp] theorem finalize_sendCounter (s : Session) : s.finalize.sendCounter = s.sendCounter := by
  by_cases h : s.phase = .closed
  · rw [finalize_closed h]
  · obtain ⟨q,d,ts,he⟩ := finalize_shape h
    rw [he]

@[simp] theorem disconnect_sendCounter (s : Session) : s.disconnect.sendCounter = s.sendCounter := by
  by_cases h : s.phase = .closed
  · rw [disconnect_closed h]
  · obtain ⟨q,d,ts,he⟩ := disconnect_shape h
    rw [he]

@[simp] theorem caught_sendCounter (s : Session) (err : JsError) :
    (s.caught err).sendCounter = s.sendCounter := by
  unfold caught
  dsimp only
  split
  · rfl
  · exact disconnect_sendCounter _

variable (node) in
@[simp] theorem sendPlain_sendCounter (s : Session) (plain : Bytes) :
    (s.sendPlain node plain).1.sendCounter = s.sendCounter := by
  obtain ⟨iv,l,-,he⟩ := sendPlain_shape node s plain
  rw [he]

theorem handleFrame_sendCounter (s : Session) (ct : Bytes) :
    (s.handleFrame node ct).1.sendCounter = s.sendCounter := by
  have hh := handleFrame_handles node s ct
  generalize s.handleFrame node ct = r at hh ⊢
  cases hh with
  | undecryptable _ => exact disconnect_sendCounter _
  | unparsable _ _ => rfl
  | ping _ _ _ => exact sendPlain_sendCounter _ _ _
  | @other plain msg _ _ _ =>
      obtain ⟨pending,timers,o,he,-⟩ := correlate_shape (decoded s ct msg) msg
      rw [he]
      rfl

theorem endTurn_sendCounter (r : Session × Except JsError Unit) :
    (endTurn r).sendCounter = r.1.sendCounter := by
  obtain ⟨s,u | e⟩ := r
  · exact caught_sendCounter _ _
  · rfl

variable (node) in
theorem send_sendCounter (s : Session) (name : MessageKey) (opts : SendOptions) :
    (s.send node name opts).1.sendCounter =
      if name.spec.isSome ∧ opts.messageId = none then (s.sendCounter+1)%65536
      else s.sendCounter := by
  unfold Session.send
  split
  · next hn => simp [hn]
  · next spec hn =>
      have ha : (s.allocate opts.messageId).2.sendCounter =
          if name.spec.isSome ∧ opts.messageId = none then (s.sendCounter+1)%65536
          else s.sendCounter := by
        cases hm : opts.messageId <;> simp [allocate,hn]
      dsimp only
      split
      · exact ha
      · next plain _ =>
          have hp := (sendPlain_sendCounter node (s.allocate opts.messageId).2 plain).trans ha
          split
          · next heq =>
              rw [heq] at hp
              exact hp
          · next heq =>
              rw [heq] at hp
              exact hp

theorem request_sendCounter (s : Session) (name : MessageKey) (opts : RequestOptions) (token : UInt8) :
    (s.request node name opts token).sendCounter =
      if s.phase = .connected ∧ name.spec.isSome then (s.sendCounter+1)%65536 else s.sendCounter := by
  by_cases hc : s.phase = .connected
  · have hsend := send_sendCounter node (filed s name opts token) name (opts.sent token)
    have hnone : (opts.sent token).messageId = none := rfl
    simp only [hnone,and_true] at hsend
    simp only [hc,true_and]
    rcases hr : (filed s name opts token).send node name (opts.sent token) with ⟨t,e | messageId⟩
    · rw [hr] at hsend
      rw [request_thrown hc hr]
      exact hsend
    · rw [hr] at hsend
      rw [request_sent hc hr]
      exact hsend
  · rw [request_unconnected hc,if_neg fun h => hc h.1]
    rfl

/-- In the message loop a step advances the counter exactly when it takes an id. -/
theorem step_sendCounter {cfg : Config} {t : Session} {e : Event} (hf : Framed s)
    (h : step cfg s e = some t) :
    t.sendCounter = if Allocates s e then (s.sendCounter+1)%65536 else s.sendCounter := by
  cases step_cases h with
  | run hc => simp [Framed,hc] at hf
  | proceeds hc _ => simp [Framed,hc] at hf
  | @reads _ k r _ _ =>
      have hr := resume_cases hf h
      generalize s.taken.continueReading cfg.node (k r) = t at hr ⊢
      cases hr with
      | header _ _ _ _ => rfl
      | body _ _ _ => exact (endTurn_sendCounter _).trans (handleFrame_sendCounter _ _)
      | rejected _ => exact caught_sendCounter _ _
  | loop _ =>
      unfold loopTest
      split
      · rfl
      · rfl
  | answer a hc => simp [Framed,hc] at hf
  | data chunk => rfl
  | socketError err => exact disconnect_sendCounter _
  | socketClose => exact finalize_sendCounter _
  | idleTimeout _ => exact disconnect_sendCounter _
  | disconnect => exact disconnect_sendCounter _
  | send name opts => exact send_sendCounter _ _ _ _
  | request name opts token => exact request_sendCounter _ _ _ _
  | requestTimeout _ => rfl

theorem allocates_enabled (cfg : Config) {e : Event} (h : Allocates s e) :
    ∃ t, step cfg s e = some t := by
  cases e with
  | send name opts => exact ⟨_,rfl⟩
  | request name opts token => exact ⟨_,rfl⟩
  | _ => cases h

/-- The ids taken in the message loop are successive values of the counter. -/
theorem allocated_drawn (cfg : Config) (hf : Framed s) (es : List Event) :
    ∃ n, allocated cfg s es = drawn 65536 s.sendCounter n := by
  induction es generalizing s with
  | nil => exact ⟨0,rfl⟩
  | cons e es ih =>
      unfold allocated
      cases ht : step cfg s e with
      | none => exact ⟨0,rfl⟩
      | some t =>
          obtain ⟨n,hn⟩ := ih (step_conveys hf ht).framed
          have hcounter := step_sendCounter hf ht
          by_cases ha : Allocates s e
          · rw [if_pos ha] at hcounter
            refine ⟨n+1,?_⟩
            simp only [ha,if_true,hn,hcounter,allocate,drawn,List.singleton_append]
            rfl
          · rw [if_neg ha] at hcounter
            exact ⟨n,by simp only [ha,if_false,hn,hcounter,List.nil_append]⟩

theorem allocated_eq_nil (cfg : Config) (s : Session) (es : List Event) :
    allocated cfg s es = [] ↔ Throughout (step cfg) (fun u e => ¬ Allocates u e) s es := by
  induction es generalizing s with
  | nil => exact ⟨fun _ => trivial,fun _ => rfl⟩
  | cons e es ih =>
      unfold allocated Throughout
      cases ht : step cfg s e with
      | none =>
          have hnot : ¬ Allocates s e := by
            intro ha
            obtain ⟨t,he⟩ := allocates_enabled cfg ha
            simp [ht] at he
          simp [hnot]
      | some t =>
          by_cases ha : Allocates s e
          · simp [ha]
          · simp [ha,ih t]

end Counter

section Greeting

theorem item_injective {N C : Type} {A : C → Type} {ε : Type} :
    Function.Injective (Effect.item : Effect N → Item N C A ε) := by
  intro x y h
  cases x <;> cases y <;> cases h <;> rfl

/-- The effects after the last wait are determined. -/
theorem effects_suffix {N C : Type} {A : C → Type} {ε : Type} {s t : List (Item N C A ε)}
    {i i' : Item N C A ε} {l l' : List (Effect N)} (hi : ∀ x, i ≠ Effect.item x)
    (hi' : ∀ x, i' ≠ Effect.item x)
    (h : s++i::l.map Effect.item = t++i'::l'.map Effect.item) :
    l = l' := by
  apply List.map_injective_iff.mpr (item_injective (C := C) (A := A) (ε := ε))
  rcases List.append_eq_append_iff.mp h with ⟨u,-,hu⟩ | ⟨u,-,hu⟩
  · cases u with
    | nil => exact (List.cons.inj hu).2
    | cons x u =>
        have hmem : i' ∈ l.map Effect.item := by
          rw [(List.cons.inj hu).2]
          simp
        obtain ⟨x,-,hx⟩ := List.mem_map.mp hmem
        exact absurd hx.symm (hi' x)
  · cases u with
    | nil => exact (List.cons.inj hu).2.symm
    | cons x u =>
        have hmem : i ∈ l'.map Effect.item := by
          rw [(List.cons.inj hu).2]
          simp
        obtain ⟨x,-,hx⟩ := List.mem_map.mp hmem
        exact absurd hx.symm (hi x)

/-- A handshake goes on with what its last wait gave it. -/
theorem continuation_given {cfg : Config} {s : Session} {e : Event} (hs : Historic cfg s)
    {p : Exchange HandshakeResult} (h : continuation s e = some p) :
    ∃ l i, (∀ x, i ≠ Effect.item x) ∧
      Runs (runHandshake cfg.node cfg.serverPrivKeyPem cfg.draws) (l++[i]) p := by
  cases e with
  | resume =>
      simp only [continuation] at h
      split at h
      · next n k r hc _ =>
          obtain rfl := Option.some.inj h
          obtain ⟨l,hl⟩ := hs.hand hc
          refine ⟨l,.read n r,?_,hl.append (.read r (.here _))⟩
          intro x hx
          cases x <;> cases hx
      · cases h
  | answer a =>
      simp only [continuation] at h
      split at h
      · next c k hc =>
          obtain rfl := Option.some.inj h
          obtain ⟨l,hl⟩ := hs.hand hc
          refine ⟨l,.call c (a c),?_,hl.append (.call (a c) (.here _))⟩
          intro x hx
          cases x <;> cases hx
      · cases h
  | _ => simp [continuation] at h

/-- The result with which the handshake resolves in this event, if it does. -/
def resolving (s : Session) (e : Event) : Option HandshakeResult :=
  (continuation s e).bind fun p => p.burst.2.outcome.bind Except.toOption

theorem resolving_eq_some {s : Session} {e : Event} {r : HandshakeResult} :
    resolving s e = some r ↔ ∃ p, continuation s e = some p ∧ p.burst.2 = .done r := by
  constructor
  · intro h
    obtain ⟨p,hp,h⟩ := Option.bind_eq_some_iff.mp h
    obtain ⟨o,ho,hr⟩ := Option.bind_eq_some_iff.mp h
    cases o with
    | ok r' =>
        obtain rfl : r' = r := Option.some.inj hr
        exact ⟨p,hp,outcome_ok ho⟩
    | error err => cases hr
  · rintro ⟨p,hp,hr⟩
    simp [resolving,hp,hr,outcome,Except.toOption]

/-- The last that the session has written is the Hello of stage 6, under the first key
and vector. -/
def Greets (cfg : Config) (t : Session) (r : HandshakeResult) : Prop :=
  ∃ hello reply l, encode (helloMessage r.sendCounter []) = .ok hello ∧
    aesEncrypt cfg.node (initialParams cfg.draws).key (initialParams cfg.draws).iv hello = .ok reply ∧
    t.trace = l++[.write (frame [] reply),.handshake r]

/-- The handshake hands over the counter of its own Hello. -/
theorem completes_greets {cfg : Config} {s t : Session} {e : Event} (hs : Historic cfg s)
    (h : step cfg s e = some t) {r : HandshakeResult} (hr : resolving s e = some r) :
    Framed t ∧ t.sendCounter = r.sendCounter ∧ r.sendCounter%65536 = r.sendCounter ∧
      Greets cfg t r := by
  obtain ⟨p,hcont,hdone⟩ := resolving_eq_some.mp hr
  obtain ⟨l,i,hi,hruns⟩ := continuation_given hs hcont
  have hend := hdone ▸ hruns.append (runs_burst p)
  obtain ⟨k,hk,rfl,ht⟩ := (secrets_follow_checks hend).2.2 r rfl
  have hsuffix : p.burst.1 =
      [.note (.stage .sendHello),.write (frame [] k.reply),.note (.stage .done)] := by
    have hread : ∀ x, (Item.read k.size (.ok k.helloFrame) : Item Note Call Answer JsError) ≠
        Effect.item x := by
      intro x hx
      cases x <;> cases hx
    refine effects_suffix (s := l) (t := transcript cfg.node cfg.serverPrivKeyPem cfg.draws
      k.credentials++[.note (.stage .getHello),.read 3 (.ok k.head)]) hi hread ?_
    simpa [Completion.history,Completion.greeted,Effect.item] using ht
  obtain ⟨d,hd⟩ := continuation_step cfg hcont
  obtain rfl := Option.some.inj (h.symm.trans hd)
  have hlt := readUInt16BE_lt hk.counter
  rw [continueHandshake_done hdone,hsuffix]
  refine ⟨framed_of_loop rfl,rfl,?_,?_⟩
  · change (k.counter : ℤ)%65536 = k.counter
    omega
  · exact ⟨helloBytes k.counter,k.reply,s.trace,encode_helloMessage _ _,hk.reply,
      List.append_assoc ..⟩

end Greeting

/-- The handshake of the all-zero device up to its last continuation. -/
def plainGreeting : List Event := plainHandshake.dropLast

theorem plainGreeting_resolves : ∃ s t r, Run (step plainConfig) {} plainGreeting s ∧
    resolving s .resume = some r ∧ step plainConfig s .resume = some t := by
  have hrun : (exec (step plainConfig) {} plainGreeting).map
      (fun s => ((resolving s .resume).isSome,(step plainConfig s .resume).isSome)) =
        some (true,true) := by
    decide +kernel
  obtain ⟨s,hs,hobs⟩ := Run.of_observation _ hrun
  obtain ⟨hr,ht⟩ := Prod.mk.inj hobs
  obtain ⟨r,hr⟩ := Option.isSome_iff_exists.mp hr
  obtain ⟨t,ht⟩ := Option.isSome_iff_exists.mp ht
  exact ⟨s,t,r,hs,hr,ht⟩

end SparkProtocol.Sessions
