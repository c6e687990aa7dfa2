import SparkProtocol.SessionReads
import SparkProtocol.RollingVectors

/-!
# The inbound channel

A device seals its messages one after another, each under the vector that the one
before has left, and frames them with a sync byte. The network delivers the bytes
in pieces of any size. A connected session which is left open handles exactly
these messages, in order and each once, whatever the pieces are and whatever the
host sends or asks meanwhile; when nothing is left to do, nothing is left over.
-/
namespace SparkProtocol.Sessions
open ByteStrings HostValues StreamPrograms Program Crypto Chunking Coap Messages Handshake
  ByteQueues OrderedMaps FramedStreams LabelledRuns Session

/-- The bytes of a device that sends these plaintexts, and its vector after them. -/
def deviceSend (node : Primitives) (key : Bytes) : Bytes → List Bytes → Except JsError (Bytes × Bytes)
  | iv,[] => .ok ([],iv)
  | iv,m::ms => do
      let ct ← aesEncrypt node key iv m
      let f ← encodeDeviceFrame ct
      let (rest,iv) ← deviceSend node key (firstBlock ct) ms
      pure (f++rest,iv)

/-- A session and the bytes on their way to it. -/
structure Link where
  session : Session
  wire : Bytes

inductive LinkEvent where
  /-- The next `n` bytes arrive as one chunk. -/
  | deliver (n : ℕ)
  | session (e : Event)

/-- Events of a session that is left open, other than the arrival of bytes. -/
def Event.leavesOpen : Event → Bool
  | .resume => true
  | .loop => true
  | .send _ _ => true
  | .request _ _ _ => true
  | .requestTimeout _ => true
  | _ => false

def linkStep (cfg : Config) (l : Link) : LinkEvent → Option Link
  | .deliver n =>
      if n ≤ l.wire.length then some ⟨l.session.onData (l.wire.take n),l.wire.drop n⟩ else none
  | .session e =>
      if e.leavesOpen then (step cfg l.session e).map fun s => ⟨s,l.wire⟩ else none

/-- The steps that are due without anything new from the host or the device. -/
def LinkEvent.due : LinkEvent → Bool
  | .deliver n => decide (0 < n)
  | .session .resume => true
  | .session .loop => true
  | _ => false

def dueStep (cfg : Config) (l : Link) (e : LinkEvent) : Option Link :=
  if e.due then linkStep cfg l e else none

/-- Nothing is due. -/
def Settled (cfg : Config) (l : Link) : Prop := ∀ e, dueStep cfg l e = none

/-- Outputs which only an inbound frame causes. -/
def Out.isInbound : Out → Bool
  | .frameIn _ => true
  | .message _ _ => true
  | .resolve _ _ => true
  | _ => false

/-- A confirmable message with the empty code. -/
def IsPing (msg : CoapMessage JsNumber) : Prop := msg.code = Code.Empty ∧ msg.type = MsgType.CON

/-- What becomes of a message: a ping is answered by one frame, which is an empty
acknowledgement; a message with the token of an outstanding request resolves it;
any other message is told to the listeners. -/
inductive Dispatch (node : Primitives) (s : Session) (msg : CoapMessage JsNumber) : List Out → Prop
  | ping {ack ct : Bytes} : IsPing msg →
      decode ack = .ok { type := MsgType.ACK, code := Code.Empty, messageId := msg.messageId,
                         token := msg.token } →
      aesEncrypt node s.aesKey s.ivOut ack = .ok ct → ct.length < 65536 →
      Dispatch node s msg [.plainOut ack,.write (frame [] ct)]
  | pending {id : ℕ} : ¬ IsPing msg → msg.token ≠ [] →
      s.pending.get (toHex msg.token) = some id → Dispatch node s msg [.resolve id msg]
  | surfaced : ¬ IsPing msg →
      (msg.token ≠ [] → s.pending.get (toHex msg.token) = none) →
      Dispatch node s msg [.message (classify msg) msg]

/-- One step handles one plaintext. -/
structure Handled (node : Primitives) (m : Bytes) (s t : Session) : Prop where
  message : ∃ ct msg out, aesEncrypt node s.aesKey s.ivIn m = .ok ct ∧ decode m = .ok msg ∧
    t.ivIn = firstBlock ct ∧ t.recvCounter = msg.messageId ∧ Dispatch node s msg out ∧
    t.trace = s.trace++.frameIn ct::out

/-- One step handles none: it may write and reject, and leaves the vector alone. -/
structure Aside (s t : Session) : Prop where
  ivIn : t.ivIn = s.ivIn
  events : ∃ l, t.trace = s.trace++l ∧ ∀ o ∈ l, o.isInbound = false

/-- What the channel needs of the session in every state. -/
structure Serving (s : Session) : Prop where
  phase : s.phase = .connected
  key : s.aesKey.length = 16
  ivOut : s.ivOut.length = 16

/-- How far the session has come in the stream of the messages still to be handled. -/
inductive Position (node : Primitives) (ivEnd : Bytes) : List Bytes → Link → Prop
  | boundary {todo : List Bytes} {l : Link} {input stream : Bytes} : AtBoundary l.session input →
      deviceSend node l.session.aesKey l.session.ivIn todo = .ok (stream,ivEnd) →
      input++l.wire = stream → Position node ivEnd todo l
  | body {m : Bytes} {rest : List Bytes} {l : Link} {input ct stream : Bytes} :
      l.session.control = .reading (readBytes ct.length) → Reads l.session ct.length input →
      aesEncrypt node l.session.aesKey l.session.ivIn m = .ok ct →
      deviceSend node l.session.aesKey (firstBlock ct) rest = .ok (stream,ivEnd) →
      input++l.wire = ct++stream → Position node ivEnd (m::rest) l

theorem deviceSend_cons {node : Primitives} {key iv m stream ivEnd : Bytes} {ms : List Bytes}
    (h : deviceSend node key iv (m::ms) = .ok (stream,ivEnd)) :
    ∃ ct rest, aesEncrypt node key iv m = .ok ct ∧ ct.length < 65536 ∧
      deviceSend node key (firstBlock ct) ms = .ok (rest,ivEnd) ∧
      stream = frame [syncByte] ct++rest := by
  unfold deviceSend at h
  cases ha : aesEncrypt node key iv m with
  | error e => simp [ha,Bind.bind,Except.bind] at h
  | ok ct =>
      cases hf : encodeDeviceFrame ct with
      | error e => simp [ha,hf,Bind.bind,Except.bind] at h
      | ok f =>
          obtain ⟨hl,rfl⟩ := encodeDeviceFrame_eq_ok.mp hf
          cases hr : deviceSend node key (firstBlock ct) ms with
          | error e => simp [ha,hf,hr,Bind.bind,Except.bind] at h
          | ok r =>
              obtain ⟨rest,iv'⟩ := r
              simp only [ha,hf,hr,Bind.bind,Except.bind,Pure.pure,Except.pure,Except.ok.injEq,
                Prod.mk.injEq] at h
              obtain ⟨rfl,rfl⟩ := h
              exact ⟨ct,rest,rfl,hl,hr,rfl⟩

/-- Plaintexts that fit a frame can be sent. -/
theorem deviceSend_total (node : Primitives) {key iv : Bytes} (hk : key.length = 16)
    (hi : iv.length = 16) (ms : List Bytes) (hfit : ∀ m ∈ ms, Fits m) :
    ∃ stream ivEnd, deviceSend node key iv ms = .ok (stream,ivEnd) := by
  induction ms generalizing iv with
  | nil => exact ⟨[],iv,rfl⟩
  | cons m ms ih =>
      obtain ⟨ct,hct⟩ := aesEncrypt_total node hk hi m
      have hl : ct.length < 65536 := aesEncrypt_length hct ▸ hfit m List.mem_cons_self
      have hf : encodeDeviceFrame ct = .ok (frame [syncByte] ct) :=
        encodeDeviceFrame_eq_ok.mpr ⟨hl,rfl⟩
      obtain ⟨rest,ivEnd,hr⟩ := ih (aesEncrypt_firstBlock hct) fun c hc =>
        hfit c (List.mem_cons_of_mem m hc)
      refine ⟨frame [syncByte] ct++rest,ivEnd,?_⟩
      simp only [deviceSend,hct,hf,hr,Bind.bind,Except.bind,Pure.pure,Except.pure]

theorem Sends.isInbound {node : Primitives} {key iv iv' : Bytes} {plain : Option Bytes}
    {l : List Out} (h : Sends node key iv plain iv' l) : ∀ o ∈ l, o.isInbound = false := by
  cases h with
  | silent => simp
  | once h => cases h <;> simp [Out.isInbound]

/-- Host calls and request timers leave the coroutine and its read alone. -/
structure HostStep (s t : Session) : Prop where
  serving : Serving s → Serving t
  aside : Aside s t
  control : t.control = s.control
  settled : t.settled = s.settled
  queue : t.queue = s.queue
  key : t.aesKey = s.aesKey

theorem hostStep {cfg : Config} {s t : Session} {e : Event} (h : step cfg s e = some t)
    (he : e.leavesOpen = true) (hr : e ≠ .resume) (hl : e ≠ .loop) : HostStep s t := by
  cases e with
  | send name opts =>
      obtain rfl := Option.some.inj h
      obtain ⟨c,iv,l,hs,hw⟩ := send_shape cfg.node s name opts
      rw [hw]
      exact ⟨fun k => ⟨k.phase,k.key,hs.ivOut_length k.ivOut⟩,⟨rfl,l,rfl,hs.isInbound⟩,
        rfl,rfl,rfl,rfl⟩
  | request name opts token =>
      obtain rfl := Option.some.inj h
      obtain ⟨pending,timers,c,iv,l,r,hs,hr,-,hw⟩ := request_shape cfg.node s name opts token
      rw [hw]
      refine ⟨fun k => ⟨k.phase,k.key,hs.ivOut_length k.ivOut⟩,
        ⟨rfl,l++r,List.append_assoc ..,?_⟩,rfl,rfl,rfl,rfl⟩
      intro o ho
      rcases List.mem_append.mp ho with ho | ho
      · exact hs.isInbound o ho
      · rcases hr with rfl | ⟨err,rfl⟩
        · simp at ho
        · rw [List.mem_singleton.mp ho]
          rfl
  | requestTimeout id =>
      obtain ⟨timer,-,rfl⟩ := Option.map_eq_some_iff.mp h
      exact ⟨fun k => ⟨k.phase,k.key,k.ivOut⟩,⟨rfl,[.reject timer.id (timedOut timer)],rfl,
        by simp [Out.isInbound]⟩,rfl,rfl,rfl,rfl⟩
  | resume => exact absurd rfl hr
  | loop => exact absurd rfl hl
  | _ => cases he

theorem Serving.of_eq {s t : Session} (h : Serving s) (hp : t.phase = s.phase)
    (hk : t.aesKey = s.aesKey) (hi : t.ivOut = s.ivOut) : Serving t :=
  ⟨hp.trans h.phase,hk ▸ h.key,hi ▸ h.ivOut⟩

/-- The acknowledgement reads back as one, with the id and the token of the ping. -/
theorem decode_ackBytes {buf : Bytes} {msg : CoapMessage JsNumber} (h : decode buf = .ok msg) :
    decode (ackBytes msg) = .ok { type := MsgType.ACK, code := Code.Empty,
                                  messageId := msg.messageId, token := msg.token } := by
  obtain ⟨ht,-,-,hi,hm⟩ := decode_fields h
  rw [ackBytes,decode_bare _ _ _ _ ht,Int.emod_eq_of_lt hi hm]
  rfl

/-- Correlation removes an entry and its timer, or changes nothing. -/
theorem correlate_dispatches (node : Primitives) (s : Session) {msg : CoapMessage JsNumber}
    (hp : ¬ IsPing msg) :
    ∃ pending timers o, s.correlate msg = { s with pending, timers, trace := s.trace++[o] } ∧
      Dispatch node s msg [o] := by
  by_cases ht : msg.token = []
  · refine ⟨s.pending,s.timers,.message (classify msg) msg,?_,.surfaced hp fun hne => absurd ht hne⟩
    simp [correlate,ht,log]
  · have hpos : msg.token.length > 0 := List.length_pos_iff.mpr ht
    cases hg : s.pending.get (toHex msg.token) with
    | none =>
        refine ⟨s.pending,s.timers,.message (classify msg) msg,?_,.surfaced hp fun _ => hg⟩
        simp [correlate,hpos,hg,log]
    | some id =>
        refine ⟨s.pending.delete (toHex msg.token),s.timers.filter fun t => t.id ≠ id,
          .resolve id msg,?_,.pending hp ht hg⟩
        simp [correlate,hpos,hg,log,clearTimer]

/-- A whole turn on a frame of the device: it is handled and the loop goes on. -/
theorem turn_handles {node : Primitives} {s : Session} (hs : Serving s) {m ct : Bytes}
    {msg : CoapMessage JsNumber} (hct : aesEncrypt node s.aesKey s.ivIn m = .ok ct)
    (hm : decode m = .ok msg) :
    Handled node m s (endTurn (s.handleFrame node ct)) ∧
      Serving (endTurn (s.handleFrame node ct)) ∧
      (endTurn (s.handleFrame node ct)).control = .loop ∧
      (endTurn (s.handleFrame node ct)).settled = s.settled ∧
      (endTurn (s.handleFrame node ct)).queue = s.queue ∧
      (endTurn (s.handleFrame node ct)).aesKey = s.aesKey ∧
      (endTurn (s.handleFrame node ct)).ivIn = firstBlock ct := by
  have hdec := aesDecrypt_aesEncrypt hct
  have hh := handleFrame_handles node s ct
  generalize s.handleFrame node ct = r at hh ⊢
  cases hh with
  | undecryptable ha => simp [hdec] at ha
  | unparsable ha hd =>
      obtain rfl := Except.ok.inj (hdec.symm.trans ha)
      simp [hm] at hd
  | @ping plain msg' ha hd hp =>
      obtain rfl := Except.ok.inj (hdec.symm.trans ha)
      obtain rfl := Except.ok.inj (hm.symm.trans hd)
      obtain ⟨ack,hack⟩ := aesEncrypt_total node hs.key hs.ivOut (ackBytes msg)
      have hlen := ackBytes_length hm
      have hl : ack.length < 65536 := by
        rw [aesEncrypt_length hack]
        omega
      rw [sendPlain_ok (s := decoded s ct msg) hack hl]
      refine ⟨⟨ct,msg,_,hct,hm,rfl,rfl,.ping (classify_eq_ping.mp hp) (decode_ackBytes hm) hack hl,?_⟩,
        ⟨hs.phase,hs.key,aesEncrypt_firstBlock hack⟩,rfl,rfl,rfl,rfl,rfl⟩
      simp [endTurn,decoded,decrypted,log]
  | @other plain msg' ha hd hp =>
      obtain rfl := Except.ok.inj (hdec.symm.trans ha)
      obtain rfl := Except.ok.inj (hm.symm.trans hd)
      obtain ⟨pending,timers,o,hc,ho⟩ := correlate_dispatches node (decoded s ct msg)
        fun k => hp (classify_eq_ping.mpr k)
      rw [hc]
      refine ⟨⟨ct,msg,[o],hct,hm,rfl,rfl,?_,?_⟩,⟨hs.phase,hs.key,hs.ivOut⟩,rfl,rfl,rfl,rfl,rfl⟩
      · cases ho with
        | pending h1 h2 h3 => exact .pending h1 h2 h3
        | surfaced h1 h2 => exact .surfaced h1 h2
      · simp [endTurn,decoded,decrypted,log]

theorem AtBoundary.data {s : Session} {input : Bytes} (h : AtBoundary s input) (chunk : Bytes) :
    AtBoundary (s.onData chunk) (input++chunk) := by
  rcases h with ⟨hc,hu⟩ | ⟨hc,hr⟩
  · exact .inl ⟨hc,hu.data chunk⟩
  · exact .inr ⟨hc,hr.data chunk⟩

theorem AtBoundary.congr {s t : Session} {input : Bytes} (h : AtBoundary s input)
    (hc : t.control = s.control) (hs : t.settled = s.settled) (hq : t.queue = s.queue) :
    AtBoundary t input := by
  rcases h with ⟨h1,h2⟩ | ⟨h1,h2⟩
  · exact .inl ⟨hc.trans h1,h2.congr hs hq⟩
  · exact .inr ⟨hc.trans h1,h2.congr hs hq⟩

section Steps
variable {cfg : Config} {s t : Session}

/-- The header read has settled. -/
theorem resume_header (hc : s.control = .reading readFrame) {head : Bytes} {n : ℕ}
    (hs : s.settled = some (.ok head)) (hn : readUInt16BE head 0 = .ok n) :
    step cfg s .resume = some
      { s.taken.withQueue (s.queue.read () n) with control := .reading (readBytes n) } := by
  simp only [step,hc,hs,readFrame_eq,settled_ok,bind_done,hn]
  rfl

/-- The body read has settled. -/
theorem resume_body {n : ℕ} (hc : s.control = .reading (readBytes n)) {body : Bytes}
    (hs : s.settled = some (.ok body)) :
    step cfg s .resume = some (endTurn (s.taken.handleFrame cfg.node body)) := by
  simp only [step,hc,hs,readBytes_eq,settled_ok]
  rfl

theorem resume_blocked (hs : s.settled = none) : step cfg s .resume = none := by
  unfold step
  simp only [hs]
  split
  · next h => cases h
  · next h => cases h
  · rfl

theorem resume_between (hc : s.control = .loop) : step cfg s .resume = none := by
  simp only [step,hc]

theorem loop_turn (hc : s.control = .loop) (hp : s.phase = .connected) :
    step cfg s .loop = some
      { s.withQueue (s.queue.read () 3) with control := .reading readFrame } := by
  simp only [step,hc,loopTest,hp,↓reduceIte,continueReading_readFrame]

end Steps

/-- The three header bytes of a device frame give its length. -/
theorem readUInt16BE_header {ct : Bytes} (hl : ct.length < 65536) :
    readUInt16BE (be16 ct.length++[syncByte]) 0 = .ok ct.length := by
  unfold readUInt16BE
  rw [List.drop_zero,readBe16_be16 _ hl]

/-- The front of a stream is in what has arrived, once that is long enough. -/
theorem append_split {a w c r : Bytes} (h : a++w = c++r) (hl : c.length ≤ a.length) :
    a.take c.length = c ∧ a.drop c.length++w = r := by
  constructor
  · have ht := congrArg (List.take c.length) h
    rwa [List.take_append_of_le_length hl,List.take_left' rfl] at ht
  · have hd := congrArg (List.drop c.length) h
    rwa [List.drop_append_of_le_length hl,List.drop_left' rfl] at hd

theorem header_split {input wire ct rest : Bytes}
    (h : input++wire = frame [syncByte] ct++rest) (hl : 3 ≤ input.length) :
    input.take 3 = be16 ct.length++[syncByte] ∧ input.drop 3++wire = ct++rest := by
  have hf : frame [syncByte] ct++rest = (be16 ct.length++[syncByte])++(ct++rest) := by
    simp [frame]
  exact append_split (c := be16 ct.length++[syncByte]) (h.trans hf) hl

/-- How much is left to do: a byte counts more on the wire than in the session. -/
def remaining (l : Link) : ℕ :=
  3*l.wire.length+2*(unread l.session).length+l.session.control.isLoop.toNat

section Keeping
variable {cfg : Config} {ivEnd : Bytes} {todo : List Bytes} {s t : Session} {wire : Bytes}

theorem loop_keeps (hs : Serving s) (hp : Position cfg.node ivEnd todo ⟨s,wire⟩)
    (h : step cfg s .loop = some t) :
    (Serving t ∧ Aside s t ∧ Position cfg.node ivEnd todo ⟨t,wire⟩) ∧
      remaining ⟨t,wire⟩ < remaining ⟨s,wire⟩ := by
  cases hp with
  | boundary hb hdev hw =>
      rcases hb with ⟨hc,hu⟩ | ⟨hc,-⟩
      · obtain rfl := Option.some.inj ((loop_turn hc hs.phase).symm.trans h)
        have hr : Reads { s.withQueue (s.queue.read () 3) with control := .reading readFrame } 3 _ :=
          (hu.read 3).congr rfl rfl
        refine ⟨⟨⟨hs.phase,hs.key,hs.ivOut⟩,⟨rfl,[],(List.append_nil _).symm,by simp⟩,?_⟩,?_⟩
        · exact .boundary (.inr ⟨rfl,hr⟩) hdev hw
        · have hc' : s.control = .loop := hc
          simp [remaining,hr.unread,hu.unread,hc',Control.isLoop]
      · simp only [step] at h
        dsimp only at hc
        simp [hc] at h
  | body hc _ _ _ _ =>
      simp only [step] at h
      dsimp only at hc
      simp [hc] at h

/-- The header of the next frame, and then its body is waited for. -/
theorem header_keeps {input stream : Bytes} (hs : Serving s) (hc : s.control = .reading readFrame)
    (hr : Reads s 3 input) (hdev : deviceSend cfg.node s.aesKey s.ivIn todo = .ok (stream,ivEnd))
    (hw : input++wire = stream) (h : step cfg s .resume = some t) :
    (Serving t ∧ Aside s t ∧ Position cfg.node ivEnd todo ⟨t,wire⟩) ∧
      remaining ⟨t,wire⟩ < remaining ⟨s,wire⟩ := by
  subst hw
  cases hset : s.settled with
  | none => simp [resume_blocked hset] at h
  | some r =>
      obtain ⟨hle,rfl,hun⟩ := hr.take hset
      cases todo with
      | nil =>
          -- no frame is under way, so three bytes cannot have come
          have hempty := (Prod.mk.inj (Except.ok.inj hdev)).1.symm
          have hnil : input = [] := (List.append_eq_nil_iff.mp hempty).1
          simp [hnil] at hle
      | cons m rest =>
          obtain ⟨ct,tail,hct,hlen,hdev',hstream⟩ := deviceSend_cons hdev
          obtain ⟨hhead,hbody⟩ := header_split hstream hle
          rw [hhead] at hset
          obtain rfl := Option.some.inj
            ((resume_header hc hset (readUInt16BE_header hlen)).symm.trans h)
          have hrd : Reads { s.taken.withQueue (s.queue.read () ct.length) with
              control := .reading (readBytes ct.length) } ct.length (input.drop 3) :=
            (hun.read ct.length).congr rfl rfl
          refine ⟨⟨⟨hs.phase,hs.key,hs.ivOut⟩,⟨rfl,[],(List.append_nil _).symm,by simp⟩,?_⟩,?_⟩
          · exact .body rfl hrd hct hdev' hbody
          · simp only [remaining,hrd.unread,hr.unread,hc,Control.isLoop,Bool.toNat_false,
              List.length_drop]
            omega

/-- The body, and with it the message of the frame. -/
theorem body_keeps {m input ct stream : Bytes} {rest : List Bytes} {msg : CoapMessage JsNumber}
    (hs : Serving s) (hm : decode m = .ok msg) (hc : s.control = .reading (readBytes ct.length))
    (hr : Reads s ct.length input) (hct : aesEncrypt cfg.node s.aesKey s.ivIn m = .ok ct)
    (hdev : deviceSend cfg.node s.aesKey (firstBlock ct) rest = .ok (stream,ivEnd))
    (hw : input++wire = ct++stream) (h : step cfg s .resume = some t) :
    (Serving t ∧ Handled cfg.node m s t ∧ Position cfg.node ivEnd rest ⟨t,wire⟩) ∧
      remaining ⟨t,wire⟩ < remaining ⟨s,wire⟩ := by
  cases hset : s.settled with
  | none => simp [resume_blocked hset] at h
  | some r =>
      obtain ⟨hle,rfl,hun⟩ := hr.take hset
      obtain ⟨hbody,hrest⟩ := append_split hw hle
      rw [hbody] at hset
      obtain rfl := Option.some.inj ((resume_body hc hset).symm.trans h)
      have hs' : Serving s.taken := ⟨hs.phase,hs.key,hs.ivOut⟩
      obtain ⟨hh,hs',hctl,hsettled,hqueue,hkey,hiv⟩ := turn_handles hs' (s := s.taken) hct hm
      have hun' := hun.congr hsettled hqueue
      refine ⟨⟨hs',?_,?_⟩,?_⟩
      · obtain ⟨ct',msg',out,h1,h2,h3,h4,h5,h6⟩ := hh.message
        refine ⟨ct',msg',out,h1,h2,h3,h4,?_,h6⟩
        cases h5 with
        | ping k1 k2 k3 k4 => exact .ping k1 k2 k3 k4
        | pending k1 k2 k3 => exact .pending k1 k2 k3
        | surfaced k1 k2 => exact .surfaced k1 k2
      · refine .boundary (.inl ⟨hctl,hun'⟩) ?_ hrest
        rw [hkey,hiv]
        exact hdev
      · have hlen := aesEncrypt_length hct
        simp only [remaining,hun'.unread,hr.unread,hc,hctl,Control.isLoop,Bool.toNat_false,
          Bool.toNat_true,List.length_drop]
        omega

theorem resume_keeps (hs : Serving s) (hd : ∀ m ∈ todo, ∃ msg, decode m = .ok msg)
    (hp : Position cfg.node ivEnd todo ⟨s,wire⟩) (h : step cfg s .resume = some t) :
    (Serving t ∧ ((Aside s t ∧ Position cfg.node ivEnd todo ⟨t,wire⟩) ∨
      ∃ m rest, todo = m::rest ∧ Handled cfg.node m s t ∧ Position cfg.node ivEnd rest ⟨t,wire⟩)) ∧
      remaining ⟨t,wire⟩ < remaining ⟨s,wire⟩ := by
  cases hp with
  | boundary hb hdev hw =>
      rcases hb with ⟨hc,-⟩ | ⟨hc,hr⟩
      · simp [resume_between hc] at h
      · obtain ⟨⟨hs',haside,hp'⟩,hlt⟩ := header_keeps hs hc hr hdev hw h
        exact ⟨⟨hs',.inl ⟨haside,hp'⟩⟩,hlt⟩
  | @body m rest _ _ _ _ hc hr hct hdev hw =>
      obtain ⟨msg,hm⟩ := hd m List.mem_cons_self
      obtain ⟨⟨hs',hhandled,hp'⟩,hlt⟩ := body_keeps hs hm hc hr hct hdev hw h
      exact ⟨⟨hs',.inr ⟨m,rest,rfl,hhandled,hp'⟩⟩,hlt⟩

end Keeping

/-- Whether quiet or not, every step of the open link keeps its position. -/
theorem position_keeps {cfg : Config} {ivEnd : Bytes} {todo : List Bytes} {l l' : Link}
    {e : LinkEvent} (hs : Serving l.session) (hd : ∀ m ∈ todo, ∃ msg, decode m = .ok msg)
    (hp : Position cfg.node ivEnd todo l) (h : linkStep cfg l e = some l') :
    Serving l'.session ∧
      ((Aside l.session l'.session ∧ Position cfg.node ivEnd todo l') ∨
        ∃ m rest, todo = m::rest ∧ Handled cfg.node m l.session l'.session ∧
          Position cfg.node ivEnd rest l') := by
  cases e with
  | deliver n =>
      dsimp only [linkStep] at h
      split at h
      · obtain rfl := Option.some.inj h
        refine ⟨hs.of_eq rfl rfl rfl,.inl ⟨⟨rfl,[],(List.append_nil _).symm,by simp⟩,?_⟩⟩
        cases hp with
        | boundary hb hdev hw =>
            refine .boundary (hb.data _) hdev ?_
            rw [List.append_assoc,List.take_append_drop]
            exact hw
        | body hc hr hct hdev hw =>
            refine .body hc (hr.data _) hct hdev ?_
            rw [List.append_assoc,List.take_append_drop]
            exact hw
      · cases h
  | session e =>
      dsimp only [linkStep] at h
      split at h
      · next he =>
          obtain ⟨t,ht,rfl⟩ := Option.map_eq_some_iff.mp h
          by_cases hr : e = .resume
          · subst hr
            exact (resume_keeps hs hd hp ht).1
          · by_cases hl : e = .loop
            · subst hl
              obtain ⟨⟨h1,h2,h3⟩,-⟩ := loop_keeps hs hp ht
              exact ⟨h1,.inl ⟨h2,h3⟩⟩
            · have hh := hostStep ht he hr hl
              refine ⟨hh.serving hs,.inl ⟨hh.aside,?_⟩⟩
              cases hp with
              | boundary hb hdev hw =>
                  refine .boundary (hb.congr hh.control hh.settled hh.queue) ?_ hw
                  rw [hh.key,hh.aside.ivIn]
                  exact hdev
              | body hc hrd hct hdev hw =>
                  refine .body (hh.control.trans hc) (hrd.congr hh.settled hh.queue) ?_ ?_ hw
                  · rw [hh.key,hh.aside.ivIn]
                    exact hct
                  · rw [hh.key]
                    exact hdev
      · cases h

theorem AtBoundary.unread {s : Session} {input : Bytes} (h : AtBoundary s input) :
    unread s = input := by
  rcases h with ⟨-,h⟩ | ⟨-,h⟩
  · exact h.unread
  · exact h.unread

theorem Position.data {node : Primitives} {ivEnd : Bytes} {todo : List Bytes} {l : Link}
    (h : Position node ivEnd todo l) (chunk : Bytes) :
    unread (l.session.onData chunk) = unread l.session++chunk := by
  cases h with
  | boundary hb _ _ => rw [(hb.data chunk).unread,hb.unread]
  | body _ hr _ _ _ => rw [(hr.data chunk).unread,hr.unread]

/-- Every due step brings the end closer. -/
theorem due_descends {cfg : Config} {ivEnd : Bytes} {todo : List Bytes} {l l' : Link}
    {e : LinkEvent} (hs : Serving l.session) (hd : ∀ m ∈ todo, ∃ msg, decode m = .ok msg)
    (hp : Position cfg.node ivEnd todo l) (h : dueStep cfg l e = some l') :
    remaining l' < remaining l := by
  unfold dueStep at h
  split at h
  · next he =>
      cases e with
      | deliver n =>
          have hn : 0 < n := of_decide_eq_true he
          dsimp only [linkStep] at h
          split at h
          · obtain rfl := Option.some.inj h
            have hu := hp.data (l.wire.take n)
            have hctl : (l.session.onData (l.wire.take n)).control = l.session.control := rfl
            simp only [remaining,hu,hctl,List.length_append,List.length_take,List.length_drop]
            omega
          · cases h
      | session e =>
          dsimp only [linkStep] at h
          split at h
          · obtain ⟨t,ht,rfl⟩ := Option.map_eq_some_iff.mp h
            cases e with
            | resume => exact (resume_keeps hs hd hp ht).2
            | loop => exact (loop_keeps hs hp ht).2
            | _ => cases he
          · cases h
  · cases h

/-- Where nothing is due, everything has been handled and nothing is left over. -/
theorem settled_done {cfg : Config} {ivEnd : Bytes} {todo : List Bytes} {l : Link}
    (hs : Serving l.session) (hp : Position cfg.node ivEnd todo l) (h : Settled cfg l) :
    todo = [] ∧ l.wire = [] ∧ unread l.session = [] ∧ l.session.ivIn = ivEnd := by
  have hwire : l.wire = [] := by
    by_contra hne
    have hpos := List.length_pos_iff.mpr hne
    have hdue := h (.deliver l.wire.length)
    simp [dueStep,LinkEvent.due,hpos,linkStep] at hdue
  have hstuck : ∀ t, step cfg l.session .resume ≠ some t := by
    intro t ht
    have hdue := h (.session .resume)
    simp [dueStep,LinkEvent.due,linkStep,Event.leavesOpen,ht] at hdue
  cases hp with
  | boundary hb hdev hw =>
      rw [hwire,List.append_nil] at hw
      subst hw
      rcases hb with ⟨hc,-⟩ | ⟨hc,hr⟩
      · have hdue := h (.session .loop)
        simp [dueStep,LinkEvent.due,linkStep,Event.leavesOpen,loop_turn hc hs.phase] at hdue
      · cases todo with
        | nil =>
            obtain ⟨rfl,hiv⟩ := Prod.mk.inj (Except.ok.inj hdev)
            exact ⟨rfl,hwire,hr.unread,hiv⟩
        | cons m rest =>
            obtain ⟨ct,tail,-,hlen,-,rfl⟩ := deviceSend_cons hdev
            have hle : 3 ≤ (frame [syncByte] ct++tail).length := by simp; omega
            cases hset : l.session.settled with
            | none => exact absurd (hr.blocked hset) (by omega)
            | some r =>
                obtain ⟨-,rfl,-⟩ := hr.take hset
                obtain ⟨hhead,-⟩ := header_split (List.append_nil _) hle
                rw [hhead] at hset
                exact absurd (resume_header hc hset (readUInt16BE_header hlen)) (hstuck _)
  | body hc hr _ _ hw =>
      rw [hwire,List.append_nil] at hw
      subst hw
      cases hset : l.session.settled with
      | none =>
          have hlt := hr.blocked hset
          rw [List.length_append] at hlt
          omega
      | some r =>
          obtain ⟨-,rfl,-⟩ := hr.take hset
          exact absurd (resume_body hc hset) (hstuck _)

/-- What a run of the open link has done with the messages of the device. -/
structure Serves (cfg : Config) (ms : List Bytes) (ivEnd : Bytes) (start : Link)
    (es : List LinkEvent) (l : Link) : Prop where
  /-- A prefix of the messages is handled, in order and each in one step; where
  nothing is due the prefix is all of them. -/
  handled : ∃ items rest, ms = items++rest ∧
    Performs (linkStep cfg) (fun l l' => Aside l.session l'.session)
      (fun m l l' => Handled cfg.node m l.session l'.session) start es items l ∧
    (Settled cfg l → rest = [] ∧ l.session.ivIn = ivEnd ∧ l.session.queue.buf = [])
  /-- However the due steps are scheduled from here, they come to an end. -/
  finishes : Eventually (dueStep cfg) (Settled cfg) l

theorem unread_nil {s : Session} (h : unread s = []) : s.queue.buf = [] := by
  unfold unread at h
  split at h
  · exact (List.append_eq_nil_iff.mp h).2
  · exact h

/-- Every run over the stream of a device handles its messages. -/
theorem link_serves {cfg : Config} {s : Session} (hc : Connected s) {input : Bytes}
    (hb : AtBoundary s input) {ms : List Bytes} (hdec : ∀ m ∈ ms, ∃ msg, decode m = .ok msg)
    (hfit : ∀ m ∈ ms, Fits m) :
    ∃ stream ivEnd, deviceSend cfg.node s.aesKey s.ivIn ms = .ok (stream,ivEnd) ∧
      ∀ wire, input++wire = stream → ∀ es l, Run (linkStep cfg) ⟨s,wire⟩ es l →
        Serves cfg ms ivEnd ⟨s,wire⟩ es l := by
  obtain ⟨stream,ivEnd,hdev⟩ := deviceSend_total cfg.node hc.key hc.ivIn ms hfit
  refine ⟨stream,ivEnd,hdev,fun wire hw es l hr => ?_⟩
  have keep : ∀ todo l e l', (Serving l.session ∧ (∀ m ∈ todo, ∃ msg, decode m = .ok msg) ∧
      Position cfg.node ivEnd todo l) → linkStep cfg l e = some l' →
      (Aside l.session l'.session ∧ Serving l'.session ∧
        (∀ m ∈ todo, ∃ msg, decode m = .ok msg) ∧ Position cfg.node ivEnd todo l') ∨
      ∃ m rest, todo = m::rest ∧ Handled cfg.node m l.session l'.session ∧ Serving l'.session ∧
        (∀ m ∈ rest, ∃ msg, decode m = .ok msg) ∧ Position cfg.node ivEnd rest l' := by
    rintro todo l e l' ⟨hs,hd,hp⟩ h
    obtain ⟨hs',⟨ha,hp'⟩ | ⟨m,rest,rfl,hm,hp'⟩⟩ := position_keeps hs hd hp h
    · exact .inl ⟨ha,hs',hd,hp'⟩
    · exact .inr ⟨m,rest,rfl,hm,hs',fun c hc => hd c (List.mem_cons_of_mem m hc),hp'⟩
  have start : Serving s ∧ (∀ m ∈ ms, ∃ msg, decode m = .ok msg) ∧
      Position cfg.node ivEnd ms ⟨s,wire⟩ :=
    ⟨⟨hc.phase,hc.key,hc.ivOut⟩,hdec,.boundary hb hdev hw⟩
  obtain ⟨items,rest,hms,hperf,hs,hd,hp⟩ := hr.performs keep start
  refine ⟨⟨items,rest,hms,hperf,fun hset => ?_⟩,?_⟩
  · obtain ⟨hrest,-,hun,hiv⟩ := settled_done hs hp hset
    exact ⟨hrest,hiv,unread_nil hun⟩
  · refine eventually_of_rank (I := fun n l => remaining l = n ∧ ∃ todo, Serving l.session ∧
      (∀ m ∈ todo, ∃ msg, decode m = .ok msg) ∧ Position cfg.node ivEnd todo l)
      ?_ ?_ (remaining l) l ⟨rfl,rest,hs,hd,hp⟩
    · intro n l _
      by_cases hset : Settled cfg l
      · exact .inl hset
      · obtain ⟨e,he⟩ := not_forall.mp hset
        exact .inr ⟨e,Option.ne_none_iff_exists'.mp he⟩
    · rintro _ l e l' ⟨rfl,todo,hs,hd,hp⟩ h
      refine ⟨remaining l',due_descends hs hd hp h,rfl,?_⟩
      have hstep : linkStep cfg l e = some l' := by
        unfold dueStep at h
        split at h
        · exact h
        · cases h
      rcases keep todo l e l' ⟨hs,hd,hp⟩ hstep with ⟨-,hi⟩ | ⟨m,rest,-,-,hi⟩
      · exact ⟨todo,hi⟩
      · exact ⟨rest,hi⟩

/-- A ping and a request for the time. -/
def twoMessages : List Bytes := [[0x40,0,0,8],[0x40,1,0,9,0xB1,0x74]]

/-- Pieces that end inside a header and inside a body. -/
def oddPieces : List LinkEvent :=
  [.session .loop,.deliver 2,.deliver 24,.session .resume,.session .resume,.session .loop,
    .session .resume,.deliver 12,.session .resume,.session .loop]

theorem plainSession_atBoundary : AtBoundary plainSession [] := by
  have h : plainSession.control.isLoop = true ∧ plainSession.settled.isNone = true ∧
      plainSession.queue = ⟨[],[],false⟩ := by
    decide +kernel
  obtain ⟨hc,hs,hq⟩ := h
  refine .inl ⟨?_,Option.isNone_iff_eq_none.mp hs,hq⟩
  revert hc
  cases plainSession.control <;> simp [Control.isLoop]

theorem link_serves_plain : ∃ stream ivEnd l,
    deviceSend plainNode plainSession.aesKey plainSession.ivIn twoMessages = .ok (stream,ivEnd) ∧
      Run (linkStep plainConfig) ⟨plainSession,stream⟩ oddPieces l ∧
      (received l.session.trace).length = 2 ∧
      Serves plainConfig twoMessages ivEnd ⟨plainSession,stream⟩ oddPieces l := by
  have hdec : ∀ m ∈ twoMessages, ∃ msg, decode m = .ok msg := by
    simp only [twoMessages,List.forall_mem_cons]
    exact ⟨⟨_,rfl⟩,⟨_,rfl⟩,by simp⟩
  obtain ⟨stream,ivEnd,hdev,hserves⟩ := @link_serves plainConfig _ plainSession_connected _
    plainSession_atBoundary _ hdec (by decide)
  have hrun : (exec (linkStep plainConfig) ⟨plainSession,
      ((deviceSend plainNode plainSession.aesKey plainSession.ivIn twoMessages).toOption.map
        Prod.fst).getD []⟩ oddPieces).map (fun l => (received l.session.trace).length) = some 2 := by
    decide +kernel
  have hdev' : deviceSend plainNode plainSession.aesKey plainSession.ivIn twoMessages =
      .ok (stream,ivEnd) := hdev
  rw [hdev'] at hrun
  obtain ⟨l,hr,hl⟩ := Run.of_observation _ hrun
  exact ⟨stream,ivEnd,l,hdev,hr,hl,hserves stream rfl oddPieces l hr⟩

end SparkProtocol.Sessions
