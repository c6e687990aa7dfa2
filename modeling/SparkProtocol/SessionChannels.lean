import SparkProtocol.SessionEffects
import SparkProtocol.LabelledRuns

/-!
# The two channels of an established session

In the message loop a step takes at most one frame in and sends at most one
plaintext out. Which frame and which plaintext is settled by the state and the
event; the two vectors and the channel part of the trace follow from them. The
end of a session, a caught error and all bookkeeping leave the channels alone.
-/
namespace SparkProtocol.Sessions
open ByteStrings HostValues StreamPrograms Program Crypto Chunking Coap Messages Handshake
  ByteQueues OrderedMaps FramedStreams LabelledRuns Session

def Out.isChannel : Out → Bool
  | .frameIn _ => true
  | .plainOut _ => true
  | .write _ => true
  | _ => false

def channel (l : List Out) : List Out := l.filter Out.isChannel

@[simp] theorem channel_nil : channel [] = [] := rfl

@[simp] theorem channel_append (l m : List Out) : channel (l++m) = channel l++channel m :=
  List.filter_append ..

theorem channel_cons (o : Out) (l : List Out) :
    channel (o::l) = if o.isChannel then o::channel l else channel l := List.filter_cons

/-- The plaintext of the automatic answer to a frame: only a ping has one. -/
def acknowledgement (node : Primitives) (s : Session) (ct : Bytes) : Option Bytes :=
  match aesDecrypt node s.aesKey s.ivIn ct with
  | .error _ => none
  | .ok plain =>
      match decode plain with
      | .error _ => none
      | .ok msg =>
          if classify msg = some .ping then some (ackBytes msg) else none

/-- The plaintext that a step passes to `_sendPlain`, if any. -/
def outgoing (node : Primitives) (s : Session) : Event → Option Bytes
  | .send name opts => composed s name opts
  | .request name opts token => asked s name opts token
  | .resume => (delivered s .resume).bind (acknowledgement node s)
  | _ => none

/-- The inbound vector after a frame. -/
def rolledIn (node : Primitives) (s : Session) : Option Bytes → Bytes
  | none => s.ivIn
  | some ct =>
      match aesDecrypt node s.aesKey s.ivIn ct with
      | .ok _ => firstBlock ct
      | .error _ => s.ivIn

/-- Nothing moved on either channel. -/
structure Mute (s t : Session) : Prop where
  framed : Framed s → Framed t
  closed : s.phase = .closed → t.phase = .closed
  key : t.aesKey = s.aesKey
  ivIn : t.ivIn = s.ivIn
  ivOut : t.ivOut = s.ivOut
  channel : channel t.trace = channel s.trace

theorem Mute.refl (s : Session) : Mute s s := ⟨id,id,rfl,rfl,rfl,rfl⟩

theorem Mute.trans {s t u : Session} (h : Mute s t) (k : Mute t u) : Mute s u :=
  ⟨k.framed ∘ h.framed,k.closed ∘ h.closed,k.key.trans h.key,k.ivIn.trans h.ivIn,k.ivOut.trans h.ivOut,
    k.channel.trans h.channel⟩

theorem mute_log (s : Session) {o : Out} (h : o.isChannel = false) : Mute s (s.log o) :=
  ⟨id,id,rfl,rfl,rfl,by simp [log,channel_cons,h]⟩

theorem channel_closingRejects (s : Session) : channel (closingRejects s) = [] := by
  simp [channel,closingRejects,Out.isChannel]

theorem mute_finalize (s : Session) : Mute s s.finalize := by
  by_cases h : s.phase = .closed
  · rw [finalize_closed h]
    exact .refl s
  · obtain ⟨q,d,ts,he⟩ := finalize_shape h
    rw [he]
    exact ⟨id,fun _ => rfl,rfl,rfl,rfl,by
      simp [channel_closingRejects,channel_cons,Out.isChannel]⟩

theorem mute_disconnect (s : Session) : Mute s s.disconnect := by
  unfold disconnect
  split
  · exact .refl s
  · exact (mute_log s rfl).trans (mute_finalize _)

theorem mute_caught (s : Session) (err : JsError) : Mute s (s.caught err) := by
  have h : Mute s { s with handshakeError := some err, control := .finished } :=
    ⟨fun _ => trivial,id,rfl,rfl,rfl,rfl⟩
  unfold caught
  dsimp only
  split
  · exact h
  · exact (h.trans (mute_log _ rfl)).trans (mute_disconnect _)

theorem mute_correlate (s : Session) (msg : CoapMessage JsNumber) : Mute s (s.correlate msg) := by
  obtain ⟨pending,timers,o,he,ho⟩ := correlate_shape s msg
  rw [he]
  refine ⟨id,id,rfl,rfl,rfl,?_⟩
  rcases ho with ⟨id,rfl⟩ | rfl <;> simp [channel_cons,Out.isChannel]

/-- What one step did on the channels: the frame it took, the plaintext it sent.
A frame that does not decrypt ends the session. -/
structure Conveys (node : Primitives) (s : Session) (taken sent : Option Bytes) (t : Session) :
    Prop where
  framed : Framed t
  refused : ∀ ct e, taken = some ct → aesDecrypt node s.aesKey s.ivIn ct = .error e →
    t.phase = .closed
  key : t.aesKey = s.aesKey
  ivIn : t.ivIn = rolledIn node s taken
  ivOut : ∃ l, Sends node s.aesKey s.ivOut sent t.ivOut l ∧
    channel t.trace = channel s.trace++((taken.map Out.frameIn).toList++l)

theorem Conveys.mute {node : Primitives} {s t u : Session} {taken sent : Option Bytes}
    (h : Conveys node s taken sent t) (k : Mute t u) : Conveys node s taken sent u := by
  obtain ⟨l,hs,hl⟩ := h.ivOut
  exact ⟨k.framed h.framed,fun ct e ht he => k.closed (h.refused ct e ht he),k.key.trans h.key,
    k.ivIn.trans h.ivIn,l,k.ivOut.symm ▸ hs,k.channel.trans hl⟩

theorem Mute.conveys {node : Primitives} {s t : Session} (h : Mute s t) (hf : Framed s) :
    Conveys node s none none t :=
  ⟨h.framed hf,by simp,h.key,h.ivIn,[],h.ivOut.symm ▸ .silent,by simpa using h.channel⟩

theorem Sealing.channel {node : Primitives} {key iv plain iv' : Bytes} {l : List Out}
    (h : Sealing node key iv plain iv' l) : channel l = l := by
  cases h <;> rfl

theorem Sends.channel {node : Primitives} {key iv iv' : Bytes} {plain : Option Bytes}
    {l : List Out} (h : Sends node key iv plain iv' l) : channel l = l := by
  cases h with
  | silent => rfl
  | once h => exact h.channel

theorem Sends.nothing {node : Primitives} {key iv iv' : Bytes} {l : List Out}
    (h : Sends node key iv none iv' l) : iv' = iv ∧ l = [] := by
  cases h
  exact ⟨rfl,rfl⟩

theorem sendPlain_conveys {node : Primitives} {s t : Session} {taken : Option Bytes}
    (h : Conveys node s taken none t) (plain : Bytes) :
    Conveys node s taken (some plain) (t.sendPlain node plain).1 := by
  obtain ⟨iv,l,hs,he⟩ := sendPlain_shape node t plain
  obtain ⟨l',hs',hl⟩ := h.ivOut
  obtain ⟨hi,rfl⟩ := hs'.nothing
  rw [he]
  rw [h.key,hi] at hs
  exact ⟨h.framed,h.refused,h.key,h.ivIn,l,.once hs,by simp [hl,hs.channel]⟩

theorem send_conveys (node : Primitives) {s : Session} (hf : Framed s) (name : MessageKey)
    (opts : SendOptions) :
    Conveys node s none (composed s name opts) (s.send node name opts).1 := by
  obtain ⟨c,iv,l,hs,he⟩ := send_shape node s name opts
  rw [he]
  exact ⟨hf,by simp,rfl,rfl,l,hs,by simp [hs.channel]⟩

theorem request_conveys (node : Primitives) {s : Session} (hf : Framed s) (name : MessageKey)
    (opts : RequestOptions) (token : UInt8) :
    Conveys node s none (asked s name opts token) (s.request node name opts token) := by
  obtain ⟨pending,timers,c,iv,l,r,hs,hr,-,he⟩ := request_shape node s name opts token
  rw [he]
  refine ⟨hf,by simp,rfl,rfl,l,hs,?_⟩
  rcases hr with rfl | ⟨e,rfl⟩ <;> simp [hs.channel,channel_cons,Out.isChannel]

section Frames
variable {node : Primitives} {s : Session}

theorem decrypted_conveys (hf : Framed s) {ct plain : Bytes}
    (h : aesDecrypt node s.aesKey s.ivIn ct = .ok plain) :
    Conveys node s (some ct) none (decrypted s ct) :=
  ⟨hf,fun ct' e ht he => by cases ht; simp [h] at he,rfl,by simp [rolledIn,h,decrypted],[],.silent,by
    simp [decrypted,log,channel_cons,Out.isChannel]⟩

theorem decoded_conveys (hf : Framed s) {ct plain : Bytes} (msg : CoapMessage JsNumber)
    (h : aesDecrypt node s.aesKey s.ivIn ct = .ok plain) :
    Conveys node s (some ct) none (decoded s ct msg) :=
  (decrypted_conveys hf h).mute ⟨id,id,rfl,rfl,rfl,rfl⟩

theorem handleFrame_conveys (node : Primitives) (hf : Framed s) (ct : Bytes) :
    Conveys node s (some ct) (acknowledgement node s ct) (s.handleFrame node ct).1 := by
  have hh := handleFrame_handles node s ct
  generalize s.handleFrame node ct = r at hh ⊢
  cases hh with
  | @undecryptable err ha =>
      simp only [acknowledgement,ha]
      have hm := (mute_log (s.log (.frameIn ct))
        (o := .error { message := "AES decrypt failed: " ++ err.message }) rfl).trans
          (mute_disconnect _)
      exact ⟨hm.framed hf,fun _ _ _ _ => disconnect_phase _,hm.key,
        hm.ivIn.trans (by simp [rolledIn,ha,log]),[],hm.ivOut.symm ▸ .silent,
        hm.channel.trans (by simp [log,channel_cons,Out.isChannel])⟩
  | unparsable ha hd =>
      simp only [acknowledgement,ha,hd]
      exact (decrypted_conveys hf ha).mute (mute_log _ rfl)
  | ping ha hd hp =>
      simp only [acknowledgement,ha,hd,hp,↓reduceIte]
      exact sendPlain_conveys (decoded_conveys hf _ ha) _
  | other ha hd hp =>
      simp only [acknowledgement,ha,hd,hp,↓reduceIte]
      exact (decoded_conveys hf _ ha).mute (mute_correlate _ _)

theorem endTurn_conveys {taken sent : Option Bytes} {r : Session × Except JsError Unit}
    (h : Conveys node s taken sent r.1) : Conveys node s taken sent (endTurn r) := by
  obtain ⟨t,r⟩ := r
  cases r with
  | ok _ => exact h.mute ⟨fun _ => trivial,id,rfl,rfl,rfl,rfl⟩
  | error e => exact h.mute (mute_caught t e)

end Frames

/-- Every step of the message loop, with its effect on the channels. -/
theorem step_conveys {cfg : Config} {s t : Session} {e : Event} (hf : Framed s)
    (h : step cfg s e = some t) :
    Conveys cfg.node s (delivered s e) (outgoing cfg.node s e) t := by
  cases step_cases h with
  | run hc => simp [Framed,hc] at hf
  | proceeds hc _ => simp [Framed,hc] at hf
  | @reads _ k r _ _ =>
      have ht : Mute s s.taken := ⟨id,id,rfl,rfl,rfl,rfl⟩
      have hr := resume_cases hf h
      generalize s.taken.continueReading cfg.node (k r) = t at hr ⊢
      cases hr with
      | header _ _ _ hd =>
          simp only [outgoing,hd,Option.bind_none]
          exact Mute.conveys ⟨fun _ => .inr ⟨_,rfl⟩,id,rfl,rfl,rfl,rfl⟩ hf
      | body _ _ hd =>
          simp only [outgoing,hd,Option.bind_some]
          have hh := handleFrame_conveys cfg.node (s := s.taken) hf
          exact endTurn_conveys
            ⟨(hh _).framed,(hh _).refused,(hh _).key,(hh _).ivIn,(hh _).ivOut⟩
      | rejected hd =>
          simp only [outgoing,hd,Option.bind_none]
          exact (ht.trans (mute_caught _ _)).conveys hf
  | loop _ =>
      unfold loopTest
      split
      · rw [continueReading_readFrame]
        exact Mute.conveys ⟨fun _ => .inl rfl,id,rfl,rfl,rfl,rfl⟩ hf
      · exact Mute.conveys ⟨fun _ => trivial,id,rfl,rfl,rfl,rfl⟩ hf
  | answer a hc => simp [Framed,hc] at hf
  | data chunk => exact Mute.conveys ⟨id,id,rfl,rfl,rfl,rfl⟩ hf
  | socketError err => exact ((mute_log s rfl).trans (mute_disconnect _)).conveys hf
  | socketClose => exact (mute_finalize s).conveys hf
  | idleTimeout _ =>
      have hi : Mute s { s with idleTimer := false } := ⟨id,id,rfl,rfl,rfl,rfl⟩
      exact ((hi.trans (mute_log _ rfl)).trans (mute_disconnect _)).conveys hf
  | disconnect => exact (mute_disconnect s).conveys hf
  | send name opts => exact send_conveys cfg.node hf name opts
  | request name opts token => exact request_conveys cfg.node hf name opts token
  | requestTimeout _ =>
      exact Mute.conveys ⟨fun h => h,fun h => h,rfl,rfl,rfl,by
        simp [onRequestTimeout,clearTimer,log,channel_cons,Out.isChannel]⟩ hf

theorem Sends.ivOut_length {node : Primitives} {key iv iv' : Bytes} {plain : Option Bytes}
    {l : List Out} (h : Sends node key iv plain iv' l) (hi : iv.length = 16) : iv'.length = 16 := by
  cases h with
  | silent => exact hi
  | once h =>
      cases h with
      | refused _ => exact hi
      | oversize he _ => exact aesEncrypt_firstBlock he
      | sent he _ => exact aesEncrypt_firstBlock he

/-- A session whose handshake has resolved and which has not closed since. -/
structure Connected (s : Session) : Prop where
  phase : s.phase = .connected
  framed : Framed s
  key : s.aesKey.length = 16
  ivIn : s.ivIn.length = 16
  ivOut : s.ivOut.length = 16
  unclosed : .close ∉ s.trace

def Control.isLoop : Control → Bool
  | .loop => true
  | _ => false

theorem framed_of_isLoop {s : Session} (h : s.control.isLoop = true) : Framed s := by
  unfold Framed
  cases hc : s.control <;> simp_all [Control.isLoop]

/-- The handshake of the all-zero device, in the order of an undisturbed run. -/
def plainHandshake : List Event :=
  [.run,.data (List.replicate 256 0),.resume,.answer plainAnswer,.answer plainAnswer,
    .answer plainAnswer,.answer plainAnswer,
    .data ([0,16,0xFF,0x50,2,0,1]++List.replicate 12 12),.resume,.resume]

/-- The session after it, for closed examples. -/
@[irreducible] def plainSession : Session := (exec (step plainConfig) {} plainHandshake).getD {}

theorem plainSession_connected : Connected plainSession := by
  have h : plainSession.phase = .connected ∧ plainSession.control.isLoop = true ∧
      plainSession.aesKey.length = 16 ∧ plainSession.ivIn.length = 16 ∧
      plainSession.ivOut.length = 16 ∧ .close ∉ plainSession.trace := by
    decide +kernel
  obtain ⟨hp,hc,hk,hi,ho,hn⟩ := h
  exact ⟨hp,framed_of_isLoop hc,hk,hi,ho,hn⟩

end SparkProtocol.Sessions
