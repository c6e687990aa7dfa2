import SparkProtocol.SessionChannels

/-!
# Requests of the device

A device originates requests of its own, with tokens of its own choice. They come
by the same stream as its responses, and the session tells the two apart by the
token alone: a message whose token is that of an outstanding request resolves it,
whatever its code says. So the listeners hear of a device's request exactly when
its token is not one that the server is waiting for.
-/
namespace SparkProtocol.Sessions
open ByteStrings HostValues StreamPrograms Program Crypto Chunking Coap Messages Handshake
  ByteQueues OrderedMaps FramedStreams LabelledRuns Session

/-- The message that the session decodes in this event, if any. -/
def arriving (node : Primitives) (s : Session) (e : Event) : Option (CoapMessage JsNumber) :=
  (delivered s e).bind fun ct =>
    (aesDecrypt node s.aesKey s.ivIn ct).toOption.bind fun plain => (decode plain).toOption

/-- A request, with a name in the vocabulary. -/
def Originates (msg : CoapMessage JsNumber) : Prop :=
  (msg.code = Code.GET ∨ msg.code = Code.POST ∨ msg.code = Code.PUT) ∧ (classify msg).isSome

instance (msg : CoapMessage JsNumber) : Decidable (Originates msg) :=
  inferInstanceAs (Decidable (_ ∧ _))

/-- What the session has done since. -/
def since (s t : Session) : List Out := t.trace.drop s.trace.length

/-- The listeners are told of the message under its name, and nothing is resolved. -/
structure Announced (msg : CoapMessage JsNumber) (l : List Out) : Prop where
  named : ∃ name, classify msg = some name ∧ .message (some name) msg ∈ l
  unresolved : ∀ id other, .resolve id other ∉ l

theorem Originates.not_ping {msg : CoapMessage JsNumber} (h : Originates msg) :
    classify msg ≠ some .ping := by
  intro hp
  obtain ⟨hempty,-⟩ := classify_eq_ping.mp hp
  rcases h.1 with hc | hc | hc <;> simp [hc,Code.Empty,Code.GET,Code.POST,Code.PUT] at hempty

section Hearing
variable {cfg : Config} {s t : Session} {e : Event} {msg : CoapMessage JsNumber}

theorem arriving_delivered {node : Primitives} (h : arriving node s e = some msg) :
    ∃ ct plain, delivered s e = some ct ∧ aesDecrypt node s.aesKey s.ivIn ct = .ok plain ∧
      decode plain = .ok msg := by
  obtain ⟨ct,hct,h⟩ := Option.bind_eq_some_iff.mp h
  obtain ⟨plain,hp,hm⟩ := Option.bind_eq_some_iff.mp h
  exact ⟨ct,plain,hct,toOption_eq_some.mp hp,toOption_eq_some.mp hm⟩

/-- A message that is no ping is correlated, and nothing else happens. -/
theorem arriving_correlates (hf : Framed s) (h : arriving cfg.node s e = some msg)
    (hping : classify msg ≠ some .ping) (ht : step cfg s e = some t) :
    ∃ ct, t = { (decoded s.taken ct msg).correlate msg with control := .loop } := by
  obtain ⟨ct,plain,hd,hp,hm⟩ := arriving_delivered h
  obtain ⟨rfl,-⟩ := delivered_enabled cfg hd
  cases resume_cases hf ht with
  | header _ _ _ hnone => simp [hnone] at hd
  | rejected hnone => simp [hnone] at hd
  | @body ct _ _ _ hbody =>
      obtain rfl := Option.some.inj (hbody.symm.trans hd)
      have hh := handleFrame_handles cfg.node s.taken ct
      generalize s.taken.handleFrame cfg.node ct = r at hh ⊢
      cases hh with
      | undecryptable ha => cases ha.symm.trans hp
      | unparsable ha hbad =>
          obtain rfl := Except.ok.inj (ha.symm.trans hp)
          cases hbad.symm.trans hm
      | ping ha hok his =>
          obtain rfl := Except.ok.inj (ha.symm.trans hp)
          obtain rfl := Except.ok.inj (hok.symm.trans hm)
          exact absurd his hping
      | other ha hok _ =>
          obtain rfl := Except.ok.inj (ha.symm.trans hp)
          obtain rfl := Except.ok.inj (hok.symm.trans hm)
          exact ⟨ct,rfl⟩

/-- The request that a message is taken to answer. -/
def claimant (s : Session) (msg : CoapMessage JsNumber) : Option ℕ :=
  if msg.token.length > 0 then s.pending.get (toHex msg.token) else none

theorem claimant_eq_none (s : Session) (msg : CoapMessage JsNumber) :
    claimant s msg = none ↔ msg.token = [] ∨ s.pending.get (toHex msg.token) = none := by
  unfold claimant
  cases msg.token <;> simp

/-- Where the message goes. -/
def destination (s : Session) (msg : CoapMessage JsNumber) : Out :=
  match claimant s msg with
  | some id => .resolve id msg
  | none => .message (classify msg) msg

theorem correlate_trace (s : Session) (msg : CoapMessage JsNumber) :
    (s.correlate msg).trace = s.trace++[destination s msg] := by
  have hclaimant : (if msg.token.length > 0 then s.pending.get (toHex msg.token) else none) =
      claimant s msg := rfl
  unfold destination correlate
  rw [hclaimant]
  cases claimant s msg with
  | none => rfl
  | some id => rfl

/-- After the arrival the session has done one thing. -/
theorem request_since (hf : Framed s) (h : arriving cfg.node s e = some msg)
    (hping : classify msg ≠ some .ping) (ht : step cfg s e = some t) :
    ∃ ct, since s t = [.frameIn ct,destination s msg] := by
  obtain ⟨ct,rfl⟩ := arriving_correlates hf h hping ht
  refine ⟨ct,?_⟩
  have htrace : ((decoded s.taken ct msg).correlate msg).trace =
      s.trace++[.frameIn ct]++[destination s msg] :=
    correlate_trace _ _
  simp [since,htrace]

theorem run_framed {es : List Event} (h : Run (step cfg) s es t) (hf : Framed s) : Framed t :=
  h.keeps (fun _ _ _ _ hu ht => (step_conveys hu ht).framed) hf

end Hearing

theorem announced_iff {s : Session} {ct : Bytes} {msg : CoapMessage JsNumber} (h : Originates msg) :
    Announced msg [.frameIn ct,destination s msg] ↔
      msg.token = [] ∨ s.pending.get (toHex msg.token) = none := by
  rw [← claimant_eq_none]
  constructor
  · intro ha
    cases hc : claimant s msg with
    | none => rfl
    | some id => exact absurd (by simp [destination,hc]) (ha.unresolved id msg)
  · intro hc
    obtain ⟨name,hname⟩ := Option.isSome_iff_exists.mp h.2
    exact ⟨⟨name,hname,by simp [destination,hc,hname]⟩,by simp [destination,hc]⟩

/-- In whatever a connected session goes through, a request of the device reaches the
listeners and resolves nothing exactly when no outstanding request has its token. -/
theorem request_announced_iff {cfg : Config} {s₀ s t : Session} {es : List Event} {e : Event}
    {msg : CoapMessage JsNumber} (hc : Connected s₀) (hrun : Run (step cfg) s₀ es s)
    (h : arriving cfg.node s e = some msg) (hreq : Originates msg) (ht : step cfg s e = some t) :
    Announced msg (since s t) ↔
      msg.token = [] ∨ s.pending.get (toHex msg.token) = none := by
  obtain ⟨ct,hsince⟩ := request_since (run_framed hrun hc.framed) h hreq.not_ping ht
  rw [hsince]
  exact announced_iff hreq

/-- The server waits for the token 7, and the device asks for the time with it. -/
def askedTime : List Event :=
  [.loop,.request (.named .describe) {} 7,
    .data ([0,16,0xFF]++[0x11,3,0,0,0x0B,0xBD,0x78]++List.replicate 9 5),.resume]

theorem askedTime_arrives : ∃ s t msg, Run (step plainConfig) plainSession askedTime s ∧
    arriving plainConfig.node s .resume = some msg ∧ step plainConfig s .resume = some t ∧
    Originates msg ∧ ¬ (msg.token = [] ∨ s.pending.get (toHex msg.token) = none) := by
  have hrun : (exec (step plainConfig) plainSession askedTime).map
      (fun s => ((step plainConfig s .resume).isSome,(arriving plainConfig.node s .resume).any fun msg =>
        Originates msg ∧ ¬ (msg.token = [] ∨ s.pending.get (toHex msg.token) = none))) =
        some (true,true) := by
    decide +kernel
  obtain ⟨s,hs,hobs⟩ := Run.of_observation _ hrun
  obtain ⟨ht,hmsg⟩ := Prod.mk.inj hobs
  obtain ⟨t,ht⟩ := Option.isSome_iff_exists.mp ht
  obtain ⟨msg,hmsg,hreq⟩ := (Option.any_eq_true _ _).mp hmsg
  exact ⟨s,t,msg,hs,hmsg,ht,of_decide_eq_true hreq⟩

theorem request_announced_iff_askedTime : ∃ s t msg,
    arriving plainConfig.node s .resume = some msg ∧ step plainConfig s .resume = some t ∧
      (Announced msg (since s t) ↔
        msg.token = [] ∨ s.pending.get (toHex msg.token) = none) := by
  obtain ⟨s,t,msg,hs,hmsg,ht,hreq,-⟩ := askedTime_arrives
  exact ⟨s,t,msg,hmsg,ht,request_announced_iff plainSession_connected hs hmsg hreq ht⟩

/-- The device's question for the time becomes the server's description. -/
theorem askedTime_swallowed : ¬ ∀ (cfg : Config) (s₀ s t : Session) (es : List Event) (e : Event)
    (msg : CoapMessage JsNumber), Connected s₀ → Run (step cfg) s₀ es s →
      arriving cfg.node s e = some msg → Originates msg → step cfg s e = some t →
        Announced msg (since s t) := by
  intro h
  obtain ⟨s,t,msg,hs,hmsg,ht,hreq,hcollides⟩ := askedTime_arrives
  have ha := h plainConfig plainSession s t askedTime .resume msg plainSession_connected hs hmsg
    hreq ht
  obtain ⟨ct,hsince⟩ := request_since (run_framed hs plainSession_connected.framed) hmsg
    hreq.not_ping ht
  rw [hsince] at ha
  exact hcollides ((announced_iff hreq).mp ha)

end SparkProtocol.Sessions
