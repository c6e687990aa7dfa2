import SparkProtocol.Admissions
import SparkProtocol.Inbound

/-!
# A session attached to its device

After the handshake either end holds one vector for each direction. What the device
sends is handled in order and told to the host; what the session sends, whoever of its
three callers has asked for it, is opened by the device in order. The two directions
move independently of each other, and each of them keeps an account of what is on its way.
-/
namespace SparkProtocol.Sessions
open ByteStrings HostValues StreamPrograms Program Crypto Chunking Coap Messages Handshake
  ByteQueues OrderedMaps FramedStreams BlockChaining LabelledRuns Session

/-- A device that has been greeted, with what it has said and what it has heard. -/
structure Peer where
  result : DeviceResult
  ivSend : Bytes
  ivReceive : Bytes
  said : List Bytes := []
  heard : List Bytes := []

namespace Peer

def greeted (result : DeviceResult) : Peer :=
  { result, ivSend := firstBlock result.helloCiphertext
    ivReceive := firstBlock result.serverHelloFrame }

/-- The device seals and frames a CoAP message. -/
def say (node : Primitives) (peer : Peer) (plain : Bytes) : Option (Peer × Bytes) :=
  match decode plain,deviceSend node peer.result.aesKey peer.ivSend [plain] with
  | .ok _,.ok (f,iv) => some ({ peer with ivSend := iv, said := peer.said++[plain] },f)
  | _,_ => none

/-- The device opens the next frame, and the rest stays where it is. -/
def hear (node : Primitives) (peer : Peer) (b : Bytes) : Option (Peer × Bytes) :=
  match readBe16 b with
  | none => none
  | some n =>
      if 2+n ≤ b.length then
        match aesDecrypt node peer.result.aesKey peer.ivReceive (slice b 2 (2+n)) with
        | .ok plain => some ({ peer with ivReceive := firstBlock (slice b 2 (2+n)),
                                         heard := peer.heard++[plain] },b.drop (2+n))
        | .error _ => none
      else none

end Peer

/-- What the host has been told: responses and messages, as they came. -/
def news (l : List Out) : List (CoapMessage JsNumber) :=
  l.filterMap fun
    | .message _ msg => some msg
    | .resolve _ msg => some msg
    | _ => none

/-- What a device's messages tell the host; pings tell it nothing. -/
def tidings (ms : List Bytes) : List (CoapMessage JsNumber) :=
  ms.filterMap fun m =>
    match decode m with
    | .ok msg => if classify msg = some .ping then none else some msg
    | .error _ => none

/-- The acknowledgements of a device's pings. -/
def pongs (ms : List Bytes) : List (CoapMessage JsNumber) :=
  ms.filterMap fun m =>
    match decode m with
    | .ok msg =>
        if classify msg = some .ping then
          some { type := MsgType.ACK, code := Code.Empty, messageId := msg.messageId,
                 token := msg.token }
        else none
    | .error _ => none

@[simp] theorem news_append (l m : List Out) : news (l++m) = news l++news m :=
  List.filterMap_append ..

@[simp] theorem tidings_append (l m : List Bytes) : tidings (l++m) = tidings l++tidings m :=
  List.filterMap_append ..

@[simp] theorem pongs_append (l m : List Bytes) : pongs (l++m) = pongs l++pongs m :=
  List.filterMap_append ..

theorem plains_channel (l : List Out) : plains (channel l) = plains l := by
  unfold plains channel
  rw [List.filterMap_filter]
  refine congrArg (fun f => List.filterMap f l) (funext fun o => ?_)
  cases o <;> rfl

section Telling
variable {node : Primitives} {s t : Session} {m : Bytes}

/-- A message is told to the host, or it was a ping and is answered. -/
theorem handled_tells (h : Handled node m s t) : news t.trace = news s.trace++tidings [m] ∧
    ∃ l, plains t.trace = plains s.trace++l ∧
      ((pongs [m]).map Except.ok).Sublist (l.map decode) := by
  obtain ⟨ct,msg,out,-,hm,-,-,hout,htrace⟩ := h.message
  have hsplit : s.trace++.frameIn ct::out = s.trace++([.frameIn ct]++out) := by simp
  rw [htrace,hsplit]
  have hother : ¬ IsPing msg → tidings [m] = [msg] ∧ pongs [m] = [] := by
    intro hping
    have hclass : classify msg ≠ some .ping := fun k => hping (classify_eq_ping.mp k)
    simp [tidings,pongs,hm,hclass]
  cases hout with
  | @ping ack ct' hping hack _ _ =>
      have hclass := classify_eq_ping.mpr hping
      refine ⟨by simp [news,tidings,hm,hclass],[ack],by simp [plains],?_⟩
      simp [pongs,hm,hclass,hack]
  | pending hping _ _ =>
      obtain ⟨htidings,hpongs⟩ := hother hping
      exact ⟨by simp [news,htidings],[],by simp [plains],by simp [hpongs]⟩
  | surfaced hping _ =>
      obtain ⟨htidings,hpongs⟩ := hother hping
      exact ⟨by simp [news,htidings],[],by simp [plains],by simp [hpongs]⟩

theorem aside_tells (h : Aside s t) : news t.trace = news s.trace ∧
    ∃ l, plains t.trace = plains s.trace++l := by
  obtain ⟨l,hl,hquiet⟩ := h.events
  have hnews : news l = [] := by
    refine List.filterMap_eq_nil_iff.mpr fun o ho => ?_
    have hout := hquiet o ho
    cases o <;> first | rfl | cases hout
  rw [hl,news_append,hnews,List.append_nil,plains_append]
  exact ⟨rfl,_,rfl⟩

end Telling

/-- The bytes on their way to the device are what it has not heard yet. -/
structure Spoken (node : Primitives) (key iv : Bytes) (heard : List Bytes) (b : Bytes) (s : Session) :
    Prop where
  rest : ∃ pend cts, plains s.trace = heard++pend ∧
    sealAll firstBlock (aesEncrypt node key) iv pend = .ok (cts,s.ivOut) ∧
    b = cts.flatMap (frame []) ∧ ∀ ct ∈ cts, ct.length < 65536

section Speaking
variable {cfg : Config} {node : Primitives} {s t : Session} {iv b buffered toDevice : Bytes}
  {heard : List Bytes} {peer peer' : Peer} {rest : Bytes}

/-- A step of the session puts on the way what it seals. -/
theorem Spoken.step {e : Event} (h : Spoken cfg.node s.aesKey iv heard b s) (hf : Framed s)
    (hs : Serving s) (hfit : ∀ p, outgoing cfg.node s e = some p → Fits p)
    (hstep : Sessions.step cfg s e = some t) :
    Spoken cfg.node s.aesKey iv heard (b++newlyWritten s t) t := by
  obtain ⟨pend,cts,hplains,hseal,rfl,hlen⟩ := h.rest
  obtain ⟨l,hsends,hl⟩ := (step_conveys hf hstep).ivOut
  have hp : plains t.trace = plains s.trace++plains l := by
    rw [← plains_channel,hl,plains_append,plains_append,plains_channel,plains_frameIn,List.nil_append]
  have hw : wire t.trace = wire s.trace++wire l := by
    rw [← wire_channel,hl,wire_append,wire_append,wire_channel,wire_frameIn,List.nil_append]
  rw [newlyWritten_eq hw]
  generalize hiv : t.ivOut = iv' at hsends
  generalize hout : outgoing cfg.node s e = sent at hsends
  cases hsends with
  | silent =>
      refine ⟨pend,cts,by rw [hp,hplains]; simp [plains],hiv ▸ hseal,by simp [wire],hlen⟩
  | @once plain _ _ hsealing =>
      cases hsealing with
      | refused hr =>
          obtain ⟨ct,hct⟩ := aesEncrypt_total cfg.node hs.key hs.ivOut plain
          cases hct.symm.trans hr
      | oversize hr hlong =>
          rw [aesEncrypt_length hr] at hlong
          exact absurd (hfit plain hout) (Nat.not_lt.mpr hlong)
      | @sent ct hr hshort =>
          refine ⟨pend++[plain],cts++[ct],?_,hiv ▸ sealAll_snoc hseal hr,?_,?_⟩
          · rw [hp,hplains,List.append_assoc]
            rfl
          · simp [wire]
          · simpa [or_imp,forall_and] using And.intro hlen hshort

/-- What the device hears is the next of what has been said. -/
theorem Spoken.hear (h : Spoken node peer.result.aesKey peer.ivReceive peer.heard
      (buffered++toDevice) s) (hear : peer.hear node buffered = some (peer',rest)) :
    Spoken node peer.result.aesKey peer'.ivReceive peer'.heard (rest++toDevice) s ∧
      peer'.result = peer.result ∧ peer'.said = peer.said ∧ peer'.ivSend = peer.ivSend ∧
      rest.length < buffered.length := by
  obtain ⟨pend,cts,hplains,hseal,hb,hlen⟩ := h.rest
  unfold Peer.hear at hear
  split at hear
  · cases hear
  · next n hn =>
      split_ifs at hear with hle
      cases cts with
      | nil =>
          rw [(List.append_eq_nil_iff.mp hb).1] at hn
          cases hn
      | cons ct cts =>
          rw [List.flatMap_cons] at hb
          have hct := hlen ct List.mem_cons_self
          have hsize : n = ct.length := by
            have hfront := readBe16_append (b := buffered) (by omega) toDevice
            rw [hb,readBe16_frame [] ct _ hct,hn] at hfront
            exact (Option.some.inj hfront).symm
          subst hsize
          have hframe : (frame [] ct).length = 2+ct.length := by simp
          obtain ⟨hhead,htail⟩ := append_split hb (by rw [hframe]; exact hle)
          rw [hframe] at hhead htail
          have hbody : slice buffered 2 (2+ct.length) = ct := by
            rw [← List.take_append_drop (2+ct.length) buffered,hhead]
            exact slice_frame [] ct _
          rw [hbody] at hear
          obtain ⟨plain,pend,rfl,hseals,hrest⟩ := sealAll_head hseal
          rw [aesDecrypt_aesEncrypt hseals] at hear
          obtain ⟨rfl,rfl⟩ := Prod.mk.inj (Option.some.inj hear)
          refine ⟨⟨pend,cts,?_,hrest,htail,fun c hc => hlen c (List.mem_cons_of_mem ct hc)⟩,rfl,rfl,rfl,?_⟩
          · rw [hplains,List.append_assoc]
            rfl
          · rw [List.length_drop]
            omega

/-- Where something is on its way, and all of it has arrived, the device can hear. -/
theorem Spoken.hears (h : Spoken node peer.result.aesKey peer.ivReceive peer.heard b s) (hb : b ≠ []) :
    ∃ peer' rest, peer.hear node b = some (peer',rest) := by
  obtain ⟨pend,cts,hplains,hseal,rfl,hlen⟩ := h.rest
  cases cts with
  | nil => exact absurd rfl hb
  | cons ct cts =>
      obtain ⟨plain,pend,rfl,hseals,-⟩ := sealAll_head hseal
      have hle : 2+ct.length ≤ (frame [] ct++cts.flatMap (frame [])).length := by simp
      have hbody : slice (frame [] ct++cts.flatMap (frame [])) 2 (2+ct.length) = ct :=
        slice_frame [] ct _
      rw [List.flatMap_cons]
      simp only [Peer.hear,readBe16_frame [] ct _ (hlen ct List.mem_cons_self),hle,↓reduceIte,hbody,
        aesDecrypt_aesEncrypt hseals]
      exact ⟨_,_,rfl⟩

/-- Where nothing is on its way, the device has heard everything. -/
theorem Spoken.silent (h : Spoken node peer.result.aesKey peer.ivReceive peer.heard [] s) :
    plains s.trace = peer.heard ∧ s.ivOut = peer.ivReceive := by
  obtain ⟨pend,cts,hplains,hseal,hb,-⟩ := h.rest
  cases pend with
  | nil =>
      obtain ⟨rfl,hiv⟩ := Prod.mk.inj (Except.ok.inj hseal)
      exact ⟨by rw [hplains,List.append_nil],hiv.symm⟩
  | cons plain pend =>
      obtain ⟨ct,cts',-,-,rfl⟩ := sealAll_cons.mp hseal
      have hempty := congrArg List.length hb
      rw [List.flatMap_cons,List.length_append,frame_length,List.length_nil] at hempty
      omega

end Speaking

section Sending
variable {node : Primitives} {key iv iv' iv'' b b' : Bytes} {ms ms' : List Bytes}

theorem deviceSend_append (h : deviceSend node key iv ms = .ok (b,iv'))
    (h' : deviceSend node key iv' ms' = .ok (b',iv'')) :
    deviceSend node key iv (ms++ms') = .ok (b++b',iv'') := by
  induction ms generalizing iv b with
  | nil =>
      obtain ⟨rfl,rfl⟩ := Prod.mk.inj (Except.ok.inj h)
      exact h'
  | cons m ms ih =>
      obtain ⟨ct,rest,hct,hlen,hrest,rfl⟩ := deviceSend_cons h
      have hf : encodeDeviceFrame ct = .ok (frame [syncByte] ct) :=
        encodeDeviceFrame_eq_ok.mpr ⟨hlen,rfl⟩
      rw [List.append_assoc]
      simp only [List.cons_append,deviceSend,hct,hf,ih hrest,Bind.bind,Except.bind,Pure.pure,Except.pure]

/-- What the device sends now comes after what is still to be handled. -/
theorem Position.append {todo : List Bytes} {l : Link} (h : Position node iv todo l)
    (hms : deviceSend node l.session.aesKey iv ms = .ok (b,iv')) :
    Position node iv' (todo++ms) ⟨l.session,l.wire++b⟩ := by
  cases h with
  | boundary hb hdev hw =>
      refine .boundary hb (deviceSend_append hdev hms) ?_
      rw [← List.append_assoc,hw]
  | body hc hr hct hdev hw =>
      refine .body hc hr hct (deviceSend_append hdev hms) ?_
      rw [← List.append_assoc,hw,List.append_assoc]

end Sending

/-- A session and a device that have agreed, with the bytes on their way in either
direction. The device's messages are those that have been handled and those to come. -/
structure Attached (cfg : Config) (peer : Peer) (id : String) (handled todo : List Bytes) (b : Bytes)
    (l : Link) : Prop where
  coherent : Coherent cfg l.session
  serving : Serving l.session
  key : l.session.aesKey = peer.result.aesKey
  coreId : l.session.coreId = some id
  position : Position cfg.node peer.ivSend todo l
  decodes : ∀ m ∈ todo, ∃ msg, decode m = .ok msg
  told : news l.session.trace = tidings handled
  answered : ((pongs handled).map Except.ok).Sublist ((plains l.session.trace).map decode)
  spoken : Spoken cfg.node peer.result.aesKey peer.ivReceive peer.heard b l.session

section Attaching
variable {cfg : Config} {peer peer' : Peer} {id : String} {handled todo : List Bytes}
  {b buffered toDevice rest : Bytes} {l l' : Link} {e : LinkEvent}

theorem Position.framed {ivEnd : Bytes} (h : Position cfg.node ivEnd todo l) : Framed l.session := by
  cases h with
  | boundary hb _ _ =>
      rcases hb with ⟨hc,-⟩ | ⟨hc,-⟩
      · exact framed_of_loop hc
      · simp [Framed,hc]
  | body hc _ _ _ _ =>
      simp only [Framed,hc]
      exact .inr ⟨_,rfl⟩

/-- What an event of the link sends. -/
def LinkEvent.sends (cfg : Config) (l : Link) : LinkEvent → Option Bytes
  | .deliver _ => none
  | .session e => outgoing cfg.node l.session e

theorem framed_continues {s : Session} {e : Event} (hf : Framed s) (p : Exchange HandshakeResult) :
    continuation s e ≠ some p := by
  intro hp
  obtain ⟨q,hq⟩ := continuation_control hp
  simp [Framed,hq] at hf

/-- A step of the link is one of its session. -/
theorem linkStep_session (hstep : linkStep cfg l e = some l') : ∃ e', step cfg l.session e' =
    some l'.session ∧ outgoing cfg.node l.session e' = e.sends cfg l := by
  cases e with
  | deliver n =>
      dsimp only [linkStep] at hstep
      split at hstep
      · obtain rfl := Option.some.inj hstep
        exact ⟨.data (l.wire.take n),rfl,rfl⟩
      · cases hstep
  | session e =>
      dsimp only [linkStep] at hstep
      split at hstep
      · obtain ⟨t,ht,rfl⟩ := Option.map_eq_some_iff.mp hstep
        exact ⟨e,ht,rfl⟩
      · cases hstep

/-- A step of the session's side handles the next message or none. -/
theorem Attached.step (h : Attached cfg peer id handled todo b l)
    (hfit : ∀ p, e.sends cfg l = some p → Fits p) (hstep : linkStep cfg l e = some l') :
    ∃ more later, todo = more++later ∧ Attached cfg peer id (handled++more) later
      (b++newlyWritten l.session l'.session) l' := by
  have hframed := h.position.framed
  obtain ⟨e',hmove,hsends⟩ := linkStep_session hstep
  have hkey := (step_conveys hframed hmove).key
  have hcoherent := coherent_keeps h.coherent hmove
  have hid := (coreId_kept h.coherent hmove (framed_continues hframed)).trans h.coreId
  have hspoken := h.spoken
  rw [← h.key] at hspoken
  have hspoken' := hspoken.step hframed h.serving (hsends ▸ hfit) hmove
  rw [h.key] at hspoken'
  obtain ⟨hserving,⟨haside,hposition⟩ | ⟨m,later,rfl,hhandled,hposition⟩⟩ :=
    position_keeps h.serving h.decodes h.position hstep
  · obtain ⟨hnews,new,hplains⟩ := aside_tells haside
    refine ⟨[],todo,rfl,hcoherent,hserving,hkey.trans h.key,hid,hposition,h.decodes,?_,?_,hspoken'⟩
    · rw [List.append_nil,hnews,h.told]
    · rw [List.append_nil,hplains,List.map_append]
      exact h.answered.trans (List.sublist_append_left _ _)
  · obtain ⟨hnews,new,hplains,hanswered⟩ := handled_tells hhandled
    refine ⟨[m],later,rfl,hcoherent,hserving,hkey.trans h.key,hid,hposition,
      fun c hc => h.decodes c (List.mem_cons_of_mem m hc),?_,?_,hspoken'⟩
    · rw [hnews,h.told,tidings_append]
    · rw [hplains,pongs_append,List.map_append,List.map_append]
      exact h.answered.append hanswered

/-- The device speaks. -/
theorem Attached.say {plain f : Bytes} (h : Attached cfg peer id handled todo b l)
    (hsay : peer.say cfg.node plain = some (peer',f)) :
    Attached cfg peer' id handled (todo++[plain]) b ⟨l.session,l.wire++f⟩ ∧
      peer'.said = peer.said++[plain] ∧ peer'.result = peer.result := by
  unfold Peer.say at hsay
  split at hsay
  · next msg f' iv hmsg hsend =>
      obtain ⟨rfl,rfl⟩ := Prod.mk.inj (Option.some.inj hsay)
      rw [← h.key] at hsend
      refine ⟨⟨h.coherent,h.serving,h.key,h.coreId,h.position.append hsend,?_,h.told,h.answered,
        h.spoken⟩,rfl,rfl⟩
      intro m hm
      rcases List.mem_append.mp hm with hm | hm
      · exact h.decodes m hm
      · obtain rfl := List.mem_singleton.mp hm
        exact ⟨msg,hmsg⟩
  · cases hsay

/-- The device listens. -/
theorem Attached.hear (h : Attached cfg peer id handled todo (buffered++toDevice) l)
    (hear : peer.hear cfg.node buffered = some (peer',rest)) :
    Attached cfg peer' id handled todo (rest++toDevice) l ∧ peer'.said = peer.said ∧
      peer'.result = peer.result ∧ rest.length < buffered.length := by
  obtain ⟨hspoken,hresult,hsaid,hiv,hlt⟩ := h.spoken.hear hear
  refine ⟨⟨h.coherent,h.serving,?_,h.coreId,?_,h.decodes,h.told,h.answered,?_⟩,hsaid,hresult,hlt⟩
  · rw [hresult]
    exact h.key
  · rw [hiv]
    exact h.position
  · rw [hresult]
    exact hspoken

/-- The host hears of a prefix of what the device says, and the device of what the
session sends. -/
theorem Attached.accounts (h : Attached cfg peer id handled todo b l) :
    news l.session.trace <+: tidings (handled++todo) ∧ peer.heard <+: plains l.session.trace := by
  obtain ⟨pend,cts,hplains,-⟩ := h.spoken.rest
  rw [tidings_append,h.told,hplains]
  exact ⟨List.prefix_append _ _,List.prefix_append _ _⟩

/-- An answer to a frame is short. -/
theorem due_short (he : e.due = true) : ∀ p, e.sends cfg l = some p → p.length ≤ 12 := by
  intro p hp
  cases e with
  | deliver n => cases hp
  | session e =>
      cases e with
      | resume =>
          obtain ⟨ct,-,hack⟩ := Option.bind_eq_some_iff.mp hp
          unfold acknowledgement at hack
          split at hack
          · cases hack
          · next plain _ =>
              split at hack
              · cases hack
              · next msg hmsg =>
                  split_ifs at hack
                  obtain rfl := Option.some.inj hack
                  exact ackBytes_length hmsg
      | loop => cases hp
      | _ => cases he

/-- So a due step does not write much. -/
theorem due_writes (h : Attached cfg peer id handled todo b l) (he : e.due = true)
    (hstep : linkStep cfg l e = some l') : (newlyWritten l.session l'.session).length ≤ 18 := by
  obtain ⟨e',hmove,hsends⟩ := linkStep_session hstep
  have hshort : ∀ p, e.sends cfg l = some p → p.length ≤ 12 := due_short he
  rw [← hsends] at hshort
  obtain ⟨s,hs,hl⟩ := (step_conveys h.position.framed hmove).ivOut
  have hw : wire l'.session.trace = wire l.session.trace++wire s := by
    rw [← wire_channel,hl,wire_append,wire_append,wire_channel,wire_frameIn,List.nil_append]
  rw [newlyWritten_eq hw]
  generalize l'.session.ivOut = iv at hs
  generalize outgoing cfg.node l.session e' = sent at hs hshort
  cases hs with
  | silent => simp [wire]
  | @once plain _ _ hsealing =>
      cases hsealing with
      | refused _ => simp [wire]
      | oversize _ _ => simp [wire]
      | sent hct _ =>
          have hlen := hshort plain rfl
          have hsize := aesEncrypt_length hct
          simp only [wire,List.filterMap_cons,List.filterMap_nil,List.flatten_cons,List.flatten_nil,
            List.append_nil,frame_length,List.length_nil]
          omega

end Attaching
end SparkProtocol.Sessions
