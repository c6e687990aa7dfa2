import SparkProtocol.Sessions

/-!
# What one step of a session can do

Each method is described once, by the cases of its result, and every invariant
is derived from these descriptions. Sending rolls one vector and writes at most
one frame. Handling a frame ends in one of four ways. Finalizing is one update of
the closing session. A step of the coroutine is a burst of the handshake, a step
inside `readFrame`, the delivery of a frame, or a rejected read.
-/
namespace SparkProtocol.Sessions
open ByteStrings HostValues StreamPrograms Program Crypto Chunking Coap Messages Handshake
  ByteQueues OrderedMaps FramedStreams Session

@[simp] theorem run_some {cfg : Config} {s t : Session} :
    step cfg s .run = some t ↔ s.control = .idle ∧ t = s.run cfg := by
  unfold step
  cases s.control <;> simp [eq_comm]

/-- A step, by its event and by what `run()` waits for. -/
inductive Takes (cfg : Config) (s : Session) : Event → Session → Prop
  | run : s.control = .idle → Takes cfg s .run (s.run cfg)
  | proceeds {n : ℕ} {k : Except JsError Bytes → Exchange HandshakeResult}
      {r : Except JsError Bytes} : s.control = .handshake (.read n k) → s.settled = some r →
      Takes cfg s .resume (s.taken.continueHandshake (k r))
  | reads {n : ℕ} {k : Except JsError Bytes → Exchange Bytes} {r : Except JsError Bytes} :
      s.control = .reading (.read n k) → s.settled = some r →
      Takes cfg s .resume (s.taken.continueReading cfg.node (k r))
  | loop : s.control = .loop → Takes cfg s .loop (s.loopTest cfg.node)
  | answer {c : Call} {k : Answer c → Exchange HandshakeResult} (a : ∀ c, Answer c) :
      s.control = .handshake (.call c k) → Takes cfg s (.answer a) (s.continueHandshake (k (a c)))
  | data (chunk : Bytes) : Takes cfg s (.data chunk) (s.onData chunk)
  | socketError (err : JsError) : Takes cfg s (.socketError err) (s.onSocketError err)
  | socketClose : Takes cfg s .socketClose s.finalize
  | idleTimeout : s.idleTimer = true → Takes cfg s .idleTimeout s.onIdleTimeout
  | disconnect : Takes cfg s .disconnect s.disconnect
  | send (name : MessageKey) (opts : SendOptions) :
      Takes cfg s (.send name opts) (s.send cfg.node name opts).1
  | request (name : MessageKey) (opts : RequestOptions) (token : UInt8) :
      Takes cfg s (.request name opts token) (s.request cfg.node name opts token)
  | requestTimeout {id : ℕ} {timer : RequestTimer} :
      s.timers.find? (fun t => t.id = id) = some timer →
      Takes cfg s (.requestTimeout id) (s.onRequestTimeout timer)

theorem step_cases {cfg : Config} {s t : Session} {e : Event} (h : step cfg s e = some t) :
    Takes cfg s e t := by
  cases e with
  | run =>
      obtain ⟨hc,rfl⟩ := run_some.mp h
      exact .run hc
  | resume =>
      dsimp only [step] at h
      split at h
      · next hc hs => exact Option.some.inj h ▸ .proceeds hc hs
      · next hc hs => exact Option.some.inj h ▸ .reads hc hs
      · cases h
  | loop =>
      dsimp only [step] at h
      split at h
      · next hc => exact Option.some.inj h ▸ .loop hc
      · cases h
  | answer a =>
      dsimp only [step] at h
      split at h
      · next hc => exact Option.some.inj h ▸ .answer a hc
      · cases h
  | idleTimeout =>
      dsimp only [step] at h
      split at h
      · next hon => exact Option.some.inj h ▸ .idleTimeout hon
      · cases h
  | requestTimeout id =>
      obtain ⟨timer,hfind,rfl⟩ := Option.map_eq_some_iff.mp h
      exact .requestTimeout hfind
  | data chunk => exact Option.some.inj h ▸ .data chunk
  | socketError err => exact Option.some.inj h ▸ .socketError err
  | socketClose => exact Option.some.inj h ▸ .socketClose
  | disconnect => exact Option.some.inj h ▸ .disconnect
  | send name opts => exact Option.some.inj h ▸ .send name opts
  | request name opts token => exact Option.some.inj h ▸ .request name opts token

/-- The effect of one `_sendPlain` on the outbound vector and on the trace. -/
inductive Sealing (node : Primitives) (key iv plain : Bytes) : Bytes → List Out → Prop
  | refused {e : JsError} : aesEncrypt node key iv plain = .error e →
      Sealing node key iv plain iv [.plainOut plain]
  | oversize {ct : Bytes} : aesEncrypt node key iv plain = .ok ct → 65536 ≤ ct.length →
      Sealing node key iv plain (firstBlock ct) [.plainOut plain]
  | sent {ct : Bytes} : aesEncrypt node key iv plain = .ok ct → ct.length < 65536 →
      Sealing node key iv plain (firstBlock ct) [.plainOut plain,.write (frame [] ct)]

/-- At most one `_sendPlain`. -/
inductive Sends (node : Primitives) (key iv : Bytes) : Option Bytes → Bytes → List Out → Prop
  | silent : Sends node key iv none iv []
  | once {plain iv' : Bytes} {l : List Out} : Sealing node key iv plain iv' l →
      Sends node key iv (some plain) iv' l

theorem sendPlain_shape (node : Primitives) (s : Session) (plain : Bytes) :
    ∃ iv l, Sealing node s.aesKey s.ivOut plain iv l ∧
      (s.sendPlain node plain).1 = { s with ivOut := iv, trace := s.trace++l } := by
  cases ha : aesEncrypt node s.aesKey s.ivOut plain with
  | error e => exact ⟨_,_,.refused ha,by simp [sendPlain,log,ha]⟩
  | ok ct =>
      by_cases hl : ct.length < 65536
      · refine ⟨_,_,.sent ha hl,?_⟩
        have hf : encodeFrame ct = .ok (frame [] ct) := encodeFrame_eq_ok.mpr ⟨hl,rfl⟩
        simp [sendPlain,log,ha,hf]
      · refine ⟨_,_,.oversize ha (by omega),?_⟩
        have hf : encodeFrame ct = .error (exceedsPrefix ct.length) := by
          unfold encodeFrame
          rw [if_pos (by omega)]
        simp [sendPlain,log,ha,hf]

/-- `_sendPlain` under lawful parameters and within the frame limit. -/
theorem sendPlain_ok {node : Primitives} {s : Session} {plain ct : Bytes}
    (ha : aesEncrypt node s.aesKey s.ivOut plain = .ok ct) (hl : ct.length < 65536) :
    s.sendPlain node plain =
      ({ s with ivOut := firstBlock ct,
                trace := s.trace++[.plainOut plain,.write (frame [] ct)] },.ok ()) := by
  have hf : encodeFrame ct = .ok (frame [] ct) := encodeFrame_eq_ok.mpr ⟨hl,rfl⟩
  simp [sendPlain,log,ha,hf]

/-- The plaintext of a named message, when it encodes. -/
def composed (s : Session) (name : MessageKey) (opts : SendOptions) : Option Bytes :=
  name.spec.bind fun spec =>
    (encode (outbound spec opts (s.allocate opts.messageId).1)).toOption

theorem allocate_shape (s : Session) (messageId : Option ℤ) :
    ∃ counter, (s.allocate messageId).2 = { s with sendCounter := counter } := by
  cases messageId with
  | none => exact ⟨_,rfl⟩
  | some _ => exact ⟨s.sendCounter,rfl⟩

theorem send_shape (node : Primitives) (s : Session) (name : MessageKey) (opts : SendOptions) :
    ∃ counter iv l, Sends node s.aesKey s.ivOut (composed s name opts) iv l ∧
      (s.send node name opts).1 =
        { s with sendCounter := counter, ivOut := iv, trace := s.trace++l } := by
  have quiet : ∀ c, ({ s with sendCounter := c } : Session) =
      { s with sendCounter := c, ivOut := s.ivOut, trace := s.trace++[] } := by simp
  unfold Session.send composed
  split
  · next hn =>
      rw [hn]
      exact ⟨s.sendCounter,s.ivOut,[],.silent,quiet _⟩
  · next spec hn =>
      obtain ⟨c,hc⟩ := allocate_shape s opts.messageId
      rw [hn,Option.bind_some]
      dsimp only
      rw [hc]
      split
      · next he =>
          rw [he]
          exact ⟨c,s.ivOut,[],.silent,quiet c⟩
      · next plain he =>
          obtain ⟨iv,l,hs,hp⟩ := sendPlain_shape node { s with sendCounter := c } plain
          rw [he]
          split
          · next heq => exact ⟨c,iv,l,.once hs,by rw [← hp,heq]⟩
          · next heq => exact ⟨c,iv,l,.once hs,by rw [← hp,heq]⟩

/-- The plaintext of a request that is made on a connected session. -/
def asked (s : Session) (name : MessageKey) (opts : RequestOptions) (token : UInt8) :
    Option Bytes :=
  if s.phase = .connected then
    composed s name { payload := opts.payload, options := opts.options, token := [token] }
  else none

/-- A request stands in the two tables. -/
def filed (s : Session) (name : MessageKey) (opts : RequestOptions) (token : UInt8) : Session :=
  { s with
    requests := s.requests+1
    timers := s.timers++[RequestTimer.mk s.requests (toHex [token]) name opts.timeoutMs]
    pending := s.pending.set (toHex [token]) s.requests }

/-- What it sends. -/
def RequestOptions.sent (opts : RequestOptions) (token : UInt8) : SendOptions :=
  { payload := opts.payload, options := opts.options, token := [token] }

section Request
variable {node : Primitives} {s : Session} {name : MessageKey} {opts : RequestOptions}
  {token : UInt8}

theorem request_unconnected (hc : s.phase ≠ .connected) :
    s.request node name opts token =
      { s with requests := s.requests+1 }.log (.reject s.requests notConnected) := by
  unfold request
  exact if_pos hc

theorem request_sent (hc : s.phase = .connected) {t : Session} {messageId : ℤ}
    (h : (filed s name opts token).send node name (opts.sent token) = (t,.ok messageId)) :
    s.request node name opts token = t := by
  unfold filed RequestOptions.sent at h
  unfold request
  dsimp only
  rw [if_neg (not_not.mpr hc),h]

theorem request_thrown (hc : s.phase = .connected) {t : Session} {e : JsError}
    (h : (filed s name opts token).send node name (opts.sent token) = (t,.error e)) :
    s.request node name opts token =
      ({ t with pending := t.pending.delete (toHex [token]) }.clearTimer s.requests).log
        (.reject s.requests e) := by
  unfold filed RequestOptions.sent at h
  unfold request
  dsimp only
  rw [if_neg (not_not.mpr hc),h]

theorem asked_unconnected (hc : s.phase ≠ .connected) : asked s name opts token = none :=
  if_neg hc

theorem asked_connected (hc : s.phase = .connected) :
    asked s name opts token = composed (filed s name opts token) name (opts.sent token) :=
  if_pos hc

end Request

/-- A request enters the two tables and sends, or it is rejected. -/
theorem request_shape (node : Primitives) (s : Session) (name : MessageKey) (opts : RequestOptions)
    (token : UInt8) :
    ∃ pending timers counter iv l r,
      Sends node s.aesKey s.ivOut (asked s name opts token) iv l ∧
      (r = [] ∨ ∃ e, r = [Out.reject s.requests e]) ∧
      (s.phase = .connected ∨ pending = s.pending) ∧
      s.request node name opts token =
        { s with requests := s.requests+1, pending, timers, sendCounter := counter, ivOut := iv,
                 trace := s.trace++l++r } := by
  by_cases hc : s.phase = .connected
  · obtain ⟨c,iv,l,hs,he⟩ := send_shape node (filed s name opts token) name (opts.sent token)
    rw [asked_connected hc]
    rcases hr : (filed s name opts token).send node name (opts.sent token) with ⟨t,e | messageId⟩
    · rw [hr] at he
      obtain rfl : t = _ := he
      rw [request_thrown hc hr]
      exact ⟨_,_,c,iv,l,[.reject s.requests e],hs,.inr ⟨e,rfl⟩,.inl hc,rfl⟩
    · rw [hr] at he
      obtain rfl : t = _ := he
      rw [request_sent hc hr]
      exact ⟨_,_,c,iv,l,[],hs,.inl rfl,.inl hc,by rw [List.append_nil]; rfl⟩
  · rw [request_unconnected hc,asked_unconnected hc]
    exact ⟨s.pending,s.timers,s.sendCounter,s.ivOut,[],_,.silent,.inr ⟨notConnected,rfl⟩,.inr rfl,by
      simp only [log,List.append_nil]⟩

/-- A frame has decrypted. -/
def decrypted (s : Session) (ct : Bytes) : Session :=
  { s.log (.frameIn ct) with ivIn := firstBlock ct }

/-- And its message has decoded. -/
def decoded (s : Session) (ct : Bytes) (msg : CoapMessage JsNumber) : Session :=
  { decrypted s ct with recvCounter := msg.messageId }

/-- The bytes of the empty acknowledgement. -/
def ackBytes (msg : CoapMessage JsNumber) : Bytes :=
  header MsgType.ACK Code.Empty msg.messageId msg.token.length++msg.token

theorem encode_pingAck {buf : Bytes} {msg : CoapMessage JsNumber} (h : decode buf = .ok msg) :
    encode (pingAck msg) = .ok (ackBytes msg) :=
  encode_bare _ _ _ _ (decode_fields h).1

theorem ackBytes_length {buf : Bytes} {msg : CoapMessage JsNumber} (h : decode buf = .ok msg) :
    (ackBytes msg).length ≤ 12 := by
  have ht := (decode_fields h).1
  rw [ackBytes,List.length_append,header_length]
  omega

/-- The four ends of `_handleFrame`. -/
inductive Handles (node : Primitives) (s : Session) (ct : Bytes) :
    Session × Except JsError Unit → Prop
  | undecryptable {err : JsError} : aesDecrypt node s.aesKey s.ivIn ct = .error err →
      Handles node s ct
        (((s.log (.frameIn ct)).log
          (.error { message := "AES decrypt failed: " ++ err.message })).disconnect,.ok ())
  | unparsable {plain : Bytes} {err : JsError} : aesDecrypt node s.aesKey s.ivIn ct = .ok plain →
      decode plain = .error err →
      Handles node s ct
        ((decrypted s ct).log
          (.error { message := "CoAP decode failed: " ++ err.message }),.ok ())
  | ping {plain : Bytes} {msg : CoapMessage JsNumber} : aesDecrypt node s.aesKey s.ivIn ct = .ok plain →
      decode plain = .ok msg → classify msg = some .ping →
      Handles node s ct
        ((decoded s ct msg).sendPlain node (ackBytes msg))
  | other {plain : Bytes} {msg : CoapMessage JsNumber} : aesDecrypt node s.aesKey s.ivIn ct = .ok plain →
      decode plain = .ok msg → classify msg ≠ some .ping →
      Handles node s ct
        ((decoded s ct msg).correlate msg,.ok ())

theorem handleFrame_handles (node : Primitives) (s : Session) (ct : Bytes) :
    Handles node s ct (s.handleFrame node ct) := by
  unfold handleFrame
  dsimp only
  have hkey : (s.log (.frameIn ct)).aesKey = s.aesKey := rfl
  have hiv : (s.log (.frameIn ct)).ivIn = s.ivIn := rfl
  rw [hkey,hiv]
  split
  · next ha => exact .undecryptable ha
  · next ha =>
      split
      · next hd => exact .unparsable ha hd
      · next msg hd =>
          split_ifs with hp
          · rw [encode_pingAck hd]
            exact .ping ha hd hp
          · exact .other ha hd hp

/-- Correlation removes one entry and its timer, or tells the listeners. -/
theorem correlate_shape (s : Session) (msg : CoapMessage JsNumber) :
    ∃ pending timers o, s.correlate msg = { s with pending, timers, trace := s.trace++[o] } ∧
      ((∃ id, o = .resolve id msg) ∨ o = .message (classify msg) msg) := by
  unfold correlate
  split
  · next id _ => exact ⟨_,_,_,rfl,.inl ⟨id,rfl⟩⟩
  · exact ⟨s.pending,s.timers,_,rfl,.inr rfl⟩

/-- The rejections that a closing session hands out. -/
def closingRejects (s : Session) : List Out :=
  s.pending.values.map fun id => Out.reject id sessionClosed

theorem finalize_closed {s : Session} (h : s.phase = .closed) : s.finalize = s := by
  simp [finalize,h]

theorem disconnect_closed {s : Session} (h : s.phase = .closed) : s.disconnect = s := by
  simp [disconnect,h]

theorem finalize_shape {s : Session} (h : s.phase ≠ .closed) :
    ∃ queue settled timers, s.finalize =
      { s with phase := .closed, idleTimer := false, pending := .empty, timers, queue, settled,
               trace := s.trace++closingRejects s++[.close] } := by
  unfold finalize
  rw [if_neg h]
  exact ⟨_,_,_,rfl⟩

theorem disconnect_shape {s : Session} (h : s.phase ≠ .closed) :
    ∃ queue settled timers, s.disconnect =
      { s with phase := .closed, idleTimer := false, pending := .empty, timers, queue, settled,
               trace := s.trace++.fin::closingRejects s++[.close] } := by
  unfold disconnect
  rw [if_neg h]
  obtain ⟨q,d,ts,he⟩ := finalize_shape (s := s.log .fin) h
  refine ⟨q,d,ts,?_⟩
  rw [he]
  simp [log,closingRejects]

theorem disconnect_phase (s : Session) : s.disconnect.phase = .closed := by
  by_cases h : s.phase = .closed
  · rw [disconnect_closed h]
    exact h
  · obtain ⟨q,d,ts,he⟩ := disconnect_shape h
    rw [he]

/-- The handshake program that a step continues, after the answer it brings. -/
def continuation (s : Session) : Event → Option (Exchange HandshakeResult)
  | .resume =>
      match s.control,s.settled with
      | .handshake (.read _ k),some r => some (k r)
      | _,_ => none
  | .answer a =>
      match s.control with
      | .handshake (.call c k) => some (k (a c))
      | _ => none
  | _ => none

/-- The step on which `runHandshake` resolves. -/
def Completes (s : Session) (e : Event) : Prop :=
  ∃ p r, continuation s e = some p ∧ p.burst.2 = .done r

/-- The frame that a step passes to `_handleFrame`, if any. -/
def delivered (s : Session) : Event → Option Bytes
  | .resume =>
      match s.control,s.settled with
      | .reading (.read _ k),some r =>
          match (k r).burst.2 with
          | .done frame => some frame
          | _ => none
      | _,_ => none
  | _ => none

theorem delivered_enabled (cfg : Config) {s : Session} {e : Event} {ct : Bytes}
    (h : delivered s e = some ct) :
    e = .resume ∧ ∃ t, step cfg s .resume = some t := by
  cases e with
  | resume =>
      refine ⟨rfl,?_⟩
      simp only [delivered] at h
      split at h
      · next n k r hc hs => exact ⟨_,by simp only [step,hc,hs]; rfl⟩
      · cases h
  | _ => simp [delivered] at h

/-- In the message loop, `run()` waits for a header or for a body, or it is
between two turns, or it has returned. -/
def Framed (s : Session) : Prop :=
  match s.control with
  | .reading p => p = readFrame ∨ ∃ n, p = readBytes n
  | .loop => True
  | .finished => True
  | _ => False

/-- In the message loop no handshake is left to continue. -/
theorem not_completes_of_framed {s : Session} (hf : Framed s) (e : Event) : ¬ Completes s e := by
  rintro ⟨p,r,hp,-⟩
  unfold Framed at hf
  cases e with
  | resume => cases hc : s.control <;> simp_all [continuation]
  | answer a => cases hc : s.control <;> simp_all [continuation]
  | _ => simp [continuation] at hp

theorem readFrame_eq :
    readFrame = .read 3 fun r => settled r >>= fun head =>
      settled (readUInt16BE head 0) >>= readBytes := rfl

theorem readBytes_eq (n : ℕ) : (readBytes n : Exchange Bytes) = .read n settled := rfl

theorem continueReading_readBytes (node : Primitives) (s : Session) (n : ℕ) :
    s.continueReading node (readBytes n) =
      { s.withQueue (s.queue.read () n) with control := .reading (readBytes n) } := rfl

theorem continueReading_readFrame (node : Primitives) (s : Session) :
    s.continueReading node readFrame =
      { s.withQueue (s.queue.read () 3) with control := .reading readFrame } := rfl

/-- A continuation inside the message loop. -/
inductive Resumes (node : Primitives) (s : Session) : Session → Prop
  | header {head : Bytes} {n : ℕ} : s.control = .reading readFrame →
      s.settled = some (.ok head) → readUInt16BE head 0 = .ok n →
      delivered s .resume = none →
      Resumes node s
        { s.taken.withQueue (s.queue.read () n) with
            control := .reading (readBytes n) }
  | body {frame : Bytes} {n : ℕ} : s.control = .reading (readBytes n) →
      s.settled = some (.ok frame) → delivered s .resume = some frame →
      Resumes node s (endTurn (s.taken.handleFrame node frame))
  | rejected {err : JsError} : delivered s .resume = none →
      Resumes node s (s.taken.caught err)

theorem resume_cases {cfg : Config} {s t : Session} (hf : Framed s)
    (h : step cfg s .resume = some t) : Resumes cfg.node s t := by
  unfold Framed at hf
  unfold step at h
  cases hc : s.control with
  | idle => simp [hc] at h
  | handshake p => simp [hc] at hf
  | loop => simp [hc] at h
  | finished => simp [hc] at h
  | reading p =>
      rw [hc] at hf
      cases hs : s.settled with
      | none => rcases hf with rfl | ⟨n,rfl⟩ <;> simp [hc,hs,readFrame_eq,readBytes_eq] at h
      | some r =>
          rcases hf with rfl | ⟨n,rfl⟩
          · simp only [hc,hs,readFrame_eq,Option.some.injEq] at h
            cases r with
            | error err =>
                rw [← h]
                exact .rejected (by simp [delivered,hc,hs,readFrame_eq])
            | ok head =>
                cases hn : readUInt16BE head 0 with
                | error err =>
                    simp only [settled_ok,bind_done,hn,settled_error,bind_fail] at h
                    rw [← h]
                    exact .rejected (by simp [delivered,hc,hs,readFrame_eq,hn])
                | ok n =>
                    simp only [settled_ok,bind_done,hn,continueReading_readBytes] at h
                    rw [← h]
                    exact .header hc hs hn (by simp [delivered,hc,hs,readFrame_eq,hn,readBytes_eq])
          · simp only [hc,hs,readBytes_eq,Option.some.injEq] at h
            cases r with
            | error err =>
                rw [← h]
                exact .rejected (by simp [delivered,hc,hs,readBytes_eq])
            | ok frame =>
                rw [← h]
                exact .body hc hs (by simp [delivered,hc,hs,readBytes_eq])

/-- What a session has done it has done: a step only adds to the trace. -/
def Adds (s t : Session) : Prop := s.trace <+: t.trace

theorem Adds.trans {s t u : Session} (h : Adds s t) (k : Adds t u) : Adds s u := List.IsPrefix.trans h k

theorem adds_of_eq {s t : Session} (h : t.trace = s.trace) : Adds s t := by
  rw [Adds,h]

theorem adds_log (s : Session) (o : Out) : Adds s (s.log o) := List.prefix_append _ _

theorem adds_finalize (s : Session) : Adds s s.finalize := by
  by_cases h : s.phase = .closed
  · exact adds_of_eq (by rw [finalize_closed h])
  · obtain ⟨q,d,ts,he⟩ := finalize_shape h
    rw [he,Adds,List.append_assoc]
    exact List.prefix_append _ _

theorem adds_disconnect (s : Session) : Adds s s.disconnect := by
  unfold disconnect
  split
  · exact adds_of_eq rfl
  · exact (adds_log s .fin).trans (adds_finalize _)

theorem adds_send (node : Primitives) (s : Session) (name : MessageKey) (opts : SendOptions) :
    Adds s (s.send node name opts).1 := by
  obtain ⟨c,iv,l,-,he⟩ := send_shape node s name opts
  rw [he]
  exact List.prefix_append _ _

theorem adds_request (node : Primitives) (s : Session) (name : MessageKey) (opts : RequestOptions)
    (token : UInt8) : Adds s (s.request node name opts token) := by
  obtain ⟨pending,timers,c,iv,l,r,-,-,-,he⟩ := request_shape node s name opts token
  rw [he,Adds,List.append_assoc]
  exact List.prefix_append _ _

theorem adds_handleFrame (node : Primitives) (s : Session) (ct : Bytes) :
    Adds s (s.handleFrame node ct).1 := by
  have hh := handleFrame_handles node s ct
  have hd : Adds s (decrypted s ct) := List.prefix_append _ _
  have hm : ∀ msg, Adds s (decoded s ct msg) := fun _ => List.prefix_append _ _
  generalize s.handleFrame node ct = r at hh ⊢
  cases hh with
  | undecryptable _ => exact ((adds_log s _).trans (adds_log _ _)).trans (adds_disconnect _)
  | unparsable _ _ => exact hd.trans (adds_log _ _)
  | @ping plain msg _ _ _ =>
      obtain ⟨iv,l,-,he⟩ := sendPlain_shape node (decoded s ct msg) (ackBytes msg)
      rw [he]
      exact (hm msg).trans (List.prefix_append _ _)
  | @other plain msg _ _ _ =>
      obtain ⟨pending,timers,o,he,-⟩ := correlate_shape (decoded s ct msg) msg
      dsimp only
      rw [he]
      exact (hm msg).trans (List.prefix_append _ _)

theorem adds_caught (s : Session) (err : JsError) : Adds s (s.caught err) := by
  unfold caught
  dsimp only
  split
  · exact adds_of_eq rfl
  · have hlog : Adds s (({ s with handshakeError := some err, control := .finished } : Session).log
        (.error err)) := List.prefix_append _ _
    exact hlog.trans (adds_disconnect _)

theorem adds_endTurn (r : Session × Except JsError Unit) : Adds r.1 (endTurn r) := by
  obtain ⟨s,r⟩ := r
  cases r with
  | ok _ => exact adds_of_eq rfl
  | error err => exact adds_caught s err

theorem adds_effects (s : Session) (l : List (Effect Note)) : Adds s (l.foldl perform s) := by
  induction l generalizing s with
  | nil => exact adds_of_eq rfl
  | cons x l ih =>
      refine Adds.trans ?_ (ih (s.perform x))
      cases x with
      | note x => exact adds_of_eq rfl
      | write b => exact adds_log s _

theorem adds_await {α : Type} (s : Session) (p : Exchange α) : Adds s (s.await p) := by
  cases p <;> exact adds_of_eq rfl

theorem adds_continueHandshake (s : Session) (p : Exchange HandshakeResult) :
    Adds s (s.continueHandshake p) := by
  refine Adds.trans (adds_effects s p.burst.1) ?_
  unfold continueHandshake
  dsimp only
  generalize p.burst.1.foldl perform s = u
  generalize p.burst.2 = q
  cases q with
  | done r => exact List.prefix_append _ _
  | fail e => exact adds_caught u e
  | _ => exact (adds_await u _).trans (adds_of_eq rfl)

theorem adds_continueReading (node : Primitives) (s : Session) (p : Exchange Bytes) :
    Adds s (s.continueReading node p) := by
  refine Adds.trans (adds_effects s p.burst.1) ?_
  unfold continueReading
  dsimp only
  generalize p.burst.1.foldl perform s = u
  generalize p.burst.2 = q
  cases q with
  | done frame => exact (adds_handleFrame node u frame).trans (adds_endTurn _)
  | fail e => exact adds_caught u e
  | _ => exact (adds_await u _).trans (adds_of_eq rfl)

theorem step_adds {cfg : Config} {s t : Session} {e : Event} (h : step cfg s e = some t) : Adds s t := by
  cases step_cases h with
  | run _ =>
      have hstart : Adds s { s.resetIdleTimer with progress := {}, phase := .handshaking } :=
        adds_of_eq rfl
      exact hstart.trans (adds_continueHandshake _ _)
  | proceeds _ _ => exact Adds.trans (adds_of_eq rfl) (adds_continueHandshake s.taken _)
  | reads _ _ => exact Adds.trans (adds_of_eq rfl) (adds_continueReading cfg.node s.taken _)
  | loop _ =>
      unfold loopTest
      split
      · exact adds_continueReading cfg.node s _
      · exact adds_of_eq rfl
  | answer a _ => exact adds_continueHandshake s _
  | data chunk => exact adds_of_eq rfl
  | socketError err => exact (adds_log s _).trans (adds_disconnect _)
  | socketClose => exact adds_finalize s
  | idleTimeout _ =>
      have hlog : Adds s (({ s with idleTimer := false } : Session).log
        (.error { message := "idle timeout" })) := List.prefix_append _ _
      exact hlog.trans (adds_disconnect _)
  | disconnect => exact adds_disconnect s
  | send name opts => exact adds_send cfg.node s name opts
  | request name opts token => exact adds_request cfg.node s name opts token
  | requestTimeout _ => exact List.prefix_append _ _

end SparkProtocol.Sessions
