import SparkProtocol.HandshakeTraces
import SparkProtocol.StreamWeaving

/-!
# A device that follows the six stages

The device of the end-to-end test is a second program over byte streams. Of RSA
only the matching of key pairs is assumed: what one half of a pair has made the
other half takes back, and either fills one modulus. The padding is random, so a
primitive stands for the one result that it gives in the run at hand. With such
services both programs can run to their ends, and their histories fit together:
each side reads what the other has written.
-/
namespace SparkProtocol.Handshake
open ByteStrings HostValues StreamPrograms Program Crypto Chunking Coap Messages FramedStreams
  StreamWeaving

/-- The four RSA operations of `node:crypto`, keys by their PEM texts. -/
structure Rsa where
  publicEncrypt : String → Bytes → Except JsError Bytes
  privateDecrypt : String → Bytes → Except JsError Bytes
  privateEncrypt : String → Bytes → Except JsError Bytes
  publicDecrypt : String → Bytes → Except JsError Bytes

/-- A key pair with a modulus of the given size; eleven bytes go to the padding. -/
structure Rsa.Matching (rsa : Rsa) (pubPem privPem : String) (modulus : ℕ) : Prop where
  decrypts : ∀ m : Bytes, m.length+11 ≤ modulus → ∃ c : Bytes, rsa.publicEncrypt pubPem m = .ok c ∧
    c.length = modulus ∧ rsa.privateDecrypt privPem c = .ok m
  verifies : ∀ m : Bytes, m.length+11 ≤ modulus → ∃ c : Bytes, rsa.privateEncrypt privPem m = .ok c ∧
    c.length = modulus ∧ rsa.publicDecrypt pubPem c = .ok m

/-- What the handshake awaits besides the stream. -/
structure Services where
  rsa : Rsa
  loadCoreKey : String → Option Bytes → Except JsError (Option String)

/-- The answers of the crypto pool and of the key loader. -/
def Services.answer (svc : Services) : (c : Call) → Answer c
  | .decrypt keyPem ciphertext => svc.rsa.privateDecrypt keyPem ciphertext
  | .loadCoreKey coreId inlineDer => svc.loadCoreKey coreId inlineDer
  | .encrypt keyPem data => svc.rsa.publicEncrypt keyPem data
  | .sign keyPem hash => svc.rsa.privateEncrypt keyPem hash

/-- A device: its identity and keys, and the Hello that it will say. An empty
inline key is none. -/
structure Device where
  id : Bytes
  inlineKey : Bytes
  privPem : String
  serverPubPem : String
  helloMessageId : ℕ
  helloPayload : Bytes
  id_length : id.length = 12
  inlineKey_fits : 40+12+inlineKey.length+11 ≤ 256
  helloMessageId_lt : helloMessageId < 65536
  hello_fits : ((6+(payloadBytes helloPayload).length)/16+1)*16 < 65536

structure DeviceResult where
  sessionKey : Bytes
  aesKey : Bytes
  helloCiphertext : Bytes
  serverHelloFrame : Bytes
  serverHello : CoapMessage JsNumber

abbrev DeviceProgram := Program Empty Empty (fun _ => Empty) JsError

def hmacMismatch : JsError := { message := "virtual device: HMAC mismatch" }

/-- The frames of the server have no sync byte. -/
def readServerFrame : DeviceProgram Bytes := do
  let head ← readBytes 2
  let len ← settled (readUInt16BE head 0)
  readBytes len

section
variable (node : Primitives) (rsa : Rsa) (d : Device)

def identifyDevice : DeviceProgram Unit := do
  let nonce ← readBytes 40
  send (← settled (rsa.publicEncrypt d.serverPubPem (nonce++d.id++d.inlineKey)))

/-- The session key, if the signature recovers to the digest of its ciphertext. -/
def openSession (sessCt signature : Bytes) : Except JsError Bytes :=
  match rsa.privateDecrypt d.privPem sessCt,rsa.publicDecrypt d.serverPubPem signature with
  | .ok sessionKey,.ok recoveredHmac =>
      if hmacSha1 node sessCt sessionKey = recoveredHmac then .ok sessionKey else .error hmacMismatch
  | .error e,_ => .error e
  | _,.error e => .error e

def receiveSession : DeviceProgram Bytes := do
  let sessBlob ← readBytes 384
  settled (openSession node rsa d (slice sessBlob 0 128) (slice sessBlob 128 384))

def greetServer (aesKey aesIv : Bytes) : DeviceProgram Bytes := do
  let helloPlain ← settled (encode (helloMessage d.helloMessageId d.helloPayload))
  let helloCt ← settled (aesEncrypt node aesKey aesIv helloPlain)
  send (← settled (encodeDeviceFrame helloCt))
  pure helloCt

def simulateDevice : DeviceProgram DeviceResult := do
  identifyDevice rsa d
  let sessionKey ← receiveSession node rsa d
  let aesKey := slice sessionKey 0 16
  let aesIv := slice sessionKey 16 32
  let helloCiphertext ← greetServer node d aesKey aesIv
  let serverHelloFrame ← readServerFrame
  let serverHelloPlain ← settled (aesDecrypt node aesKey aesIv serverHelloFrame)
  let serverHello ← settled (decode serverHelloPlain)
  pure { sessionKey, aesKey, helloCiphertext, serverHelloFrame, serverHello }

end

theorem decodeOptions_hello (b0 b1 b2 b3 : UInt8) (payload : Bytes) (fuel : ℕ) :
    decodeOptions (b0::b1::b2::b3::0xB1::0x68::payloadBytes payload) (fuel+2) 4 (.nat 0) =
      .ok ([⟨.nat UriPath,[0x68]⟩],.nat (if payload = [] then 6 else 7)) := by
  cases payload with
  | nil => simp [decodeOptions,payloadBytes,extended,slice,UriPath]
  | cons x payload => simp [decodeOptions,payloadBytes,extended,slice,UriPath]

/-- The message that a Hello reads back as. -/
def heard (messageId : ℤ) (payload : Bytes) : CoapMessage JsNumber :=
  { type := MsgType.NON, code := Code.POST, messageId, options := [⟨.nat UriPath,[0x68]⟩], payload }

theorem decode_hello {messageId : ℤ} (h0 : 0 ≤ messageId) (h1 : messageId < 65536) (payload : Bytes) :
    decode (header MsgType.NON Code.POST messageId 0++([0xB1,0x68]++payloadBytes payload)) =
      .ok (heard messageId payload) := by
  have h := decode_header MsgType.NON Code.POST messageId [] ([0xB1,0x68]++payloadBytes payload)
    (by simp)
  have ho := decodeOptions_hello (UInt8.ofNat (64+(MsgType.NON%4).toNat*16+0%16))
    (UInt8.ofNat (Code.POST%256).toNat) (UInt8.ofNat ((messageId%65536).toNat/256))
    (UInt8.ofNat (messageId%65536).toNat) payload (4+(payloadBytes payload).length)
  simp only [header,be16,List.length_nil,List.append_nil,List.cons_append,List.nil_append,
    List.length_cons] at h ho ⊢
  rw [h,show 4+0+((payloadBytes payload).length+1+1) = 4+(payloadBytes payload).length+2 by omega,ho,
    Int.emod_eq_of_lt h0 h1]
  cases payload <;> rfl

/-- The device's Hello before encryption. -/
def Device.hello (d : Device) : Bytes :=
  header MsgType.NON Code.POST d.helloMessageId 0++([0xB1,0x68]++payloadBytes d.helloPayload)

/-- The values of one honest run, on both sides. -/
structure Honest (node : Primitives) (svc : Services) (serverPrivKeyPem : String) (draws : Draws)
    (d : Device) (k : Completion) : Prop where
  plaintext : k.credentials.plaintext = draws.nonce++d.id++d.inlineKey
  identify : svc.rsa.publicEncrypt d.serverPubPem k.credentials.plaintext = .ok k.credentials.ciphertext
  ciphertext_length : k.credentials.ciphertext.length = 256
  decrypt : svc.rsa.privateDecrypt serverPrivKeyPem k.credentials.ciphertext =
    .ok k.credentials.plaintext
  key : k.credentials.key ≠ ""
  loadCoreKey : svc.loadCoreKey k.credentials.coreId k.credentials.inlineDer = .ok (some k.credentials.key)
  encrypt : svc.rsa.publicEncrypt k.credentials.key draws.sessionKey =
    .ok k.credentials.sessionCiphertext
  sessionCiphertext_length : k.credentials.sessionCiphertext.length = 128
  recover : svc.rsa.privateDecrypt d.privPem k.credentials.sessionCiphertext = .ok draws.sessionKey
  sign : svc.rsa.privateEncrypt serverPrivKeyPem
    (hmacSha1 node k.credentials.sessionCiphertext draws.sessionKey) = .ok k.credentials.signature
  signature_length : k.credentials.signature.length = 256
  verify : svc.rsa.publicDecrypt d.serverPubPem k.credentials.signature =
    .ok (hmacSha1 node k.credentials.sessionCiphertext draws.sessionKey)
  greet : aesEncrypt node (initialParams draws).key (initialParams draws).iv d.hello = .ok k.helloFrame
  helloFrame_length : k.helloFrame.length < 65536
  head : k.head = be16 k.helloFrame.length++[syncByte]
  size : k.size = k.helloFrame.length
  hello : k.hello = heard d.helloMessageId d.helloPayload
  counter : readUInt16BE draws.counter 0 = .ok k.counter
  reply : aesEncrypt node (initialParams draws).key (initialParams draws).iv (helloBytes k.counter) =
    .ok k.reply
  reply_length : k.reply.length < 65536

/-- The inline key as stage 2 passes it on. -/
def Device.inlineDer (d : Device) : Option Bytes := if d.inlineKey = [] then none else some d.inlineKey

/-- What the device has done when it returns. -/
def deviceHistory (k : Completion) (draws : Draws) :
    List (Item Empty Empty (fun _ => Empty) JsError) :=
  [.read 40 (.ok draws.nonce),.write k.credentials.ciphertext,
    .read 384 (.ok (k.credentials.sessionCiphertext++k.credentials.signature)),
    .write (frame [syncByte] k.helloFrame),.read 2 (.ok (be16 k.reply.length)),
    .read k.reply.length (.ok k.reply)]

def deviceResult (k : Completion) (draws : Draws) : DeviceResult :=
  { sessionKey := draws.sessionKey, aesKey := (initialParams draws).key
    helloCiphertext := k.helloFrame, serverHelloFrame := k.reply
    serverHello := heard k.counter [] }

/-- Every service call in the history has the answer that the services give. -/
def Answered (svc : Services) : History → Prop
  | [] => True
  | .call c a::t => a = svc.answer c ∧ Answered svc t
  | _::t => Answered svc t

theorem Answered.after_effects {svc : Services} {l : List (Effect Note)} {t : History}
    (h : Answered svc (l.map Effect.item++t)) : Answered svc t := by
  induction l with
  | nil => exact h
  | cons x l ih =>
      cases x with
      | note x => exact ih h
      | write b => exact ih h

section ServerRuns
variable {node : Primitives} {serverPrivKeyPem : String} {draws : Draws} {c : Credentials}

theorem sendNonce_runs : Runs (sendNonce draws) (opening draws) (.done ()) := .note (.write (.here _))

theorem readCoreId_runs (serverPrivKeyPem : String) (hlong : 52 ≤ c.plaintext.length)
    (hnonce : slice c.plaintext 0 40 = draws.nonce) :
    Runs (readCoreId serverPrivKeyPem draws.nonce) (identification serverPrivKeyPem c)
      (.done (c.coreId,c.inlineDer)) := by
  apply Runs.note
  apply Runs.read
  apply Runs.call
  change Runs (if c.plaintext.length < 52 then _ else _) _ _
  rw [if_neg (by omega),if_neg (not_not.mpr hnonce)]
  exact .note (.here _)

theorem getCoreKey_runs (hkey : c.key ≠ "") :
    Runs (getCoreKey c.coreId c.inlineDer) (keyLookup c) (.done c.key) := by
  apply Runs.note
  apply Runs.call
  change Runs (if c.key = "" then _ else _) _ _
  rw [if_neg hkey]
  exact .here _

theorem sendSessionKey_runs (node : Primitives) (serverPrivKeyPem : String) (draws : Draws)
    (c : Credentials) :
    Runs (sendSessionKey node serverPrivKeyPem c.key draws.sessionKey)
      (disclosure node serverPrivKeyPem draws c) (.done (initialParams draws)) := by
  apply Runs.note
  apply Runs.call
  apply Runs.call
  apply Runs.write
  change Runs (settled (deriveAesParams draws.sessionKey)) _ _
  rw [deriveAesParams_ok draws.sessionKey_length]
  exact .here _

theorem getHello_runs {aes : AesParams} {head frame plain : Bytes} {size : ℕ}
    {msg : CoapMessage JsNumber} (hsize : readUInt16BE head 0 = .ok size)
    (ha : aesDecrypt node aes.key aes.iv frame = .ok plain) (hd : decode plain = .ok msg) :
    Runs (getHello node aes)
      [.note (.stage .getHello),.read 3 (.ok head),.read size (.ok frame)]
      (.done (helloIn frame msg)) := by
  apply Runs.note
  apply Runs.read
  change Runs (settled (readUInt16BE head 0) >>= readBytes >>= fun b => settled (openHello node aes b))
    _ _
  rw [hsize]
  apply Runs.read
  change Runs (settled (openHello node aes frame)) _ _
  have ho : openHello node aes frame = .ok (helloIn frame msg) := by
    simp only [openHello,ha,hd]
  rw [ho]
  exact .here _

end ServerRuns

section Agreement
variable {node : Primitives} {svc : Services} {serverPrivKeyPem : String} {draws : Draws}
  {d : Device} {k : Completion}

/-- What the server reads in a stage-2 plaintext of the device. -/
theorem Device.identity {c : Credentials} (hp : c.plaintext = draws.nonce++d.id++d.inlineKey) :
    c.plaintext.length = 52+d.inlineKey.length ∧ slice c.plaintext 0 40 = draws.nonce ∧
      c.coreId = toHex d.id ∧ c.inlineDer = d.inlineDer := by
  have hlen : c.plaintext.length = 52+d.inlineKey.length := by
    rw [hp]
    simp only [List.length_append,draws.nonce_length,d.id_length]
  refine ⟨hlen,?_,?_,?_⟩
  · rw [hp,slice,List.drop_zero,List.append_assoc]
    exact List.take_left' draws.nonce_length
  · rw [Credentials.coreId,hp,slice,List.append_assoc,List.drop_left' draws.nonce_length]
    rw [List.take_left' d.id_length]
  · have hdrop : c.plaintext.drop 52 = d.inlineKey := by
      rw [hp]
      exact List.drop_left' (by simp only [List.length_append,draws.nonce_length,d.id_length])
    unfold Credentials.inlineDer Device.inlineDer
    rw [hdrop,hlen]
    cases d.inlineKey <;> simp

theorem Honest.valid (h : Honest node svc serverPrivKeyPem draws d k) :
    k.credentials.Valid draws := by
  obtain ⟨hlen,hnonce,-,-⟩ := Device.identity h.plaintext
  exact ⟨by rw [hlen]; omega,hnonce,h.key⟩

theorem Device.helloMessageId_cast (d : Device) :
    (0 : ℤ) ≤ d.helloMessageId ∧ (d.helloMessageId : ℤ) < 65536 := by
  have hlt := d.helloMessageId_lt
  omega

theorem Honest.opens (h : Honest node svc serverPrivKeyPem draws d k) :
    aesDecrypt node (initialParams draws).key (initialParams draws).iv k.helloFrame = .ok d.hello ∧
      decode d.hello = .ok k.hello := by
  obtain ⟨h0,h1⟩ := d.helloMessageId_cast
  rw [h.hello]
  exact ⟨aesDecrypt_aesEncrypt h.greet,decode_hello h0 h1 d.helloPayload⟩

/-- The server's program runs to its end. -/
theorem Honest.server_runs (h : Honest node svc serverPrivKeyPem draws d k) :
    Runs (runHandshake node serverPrivKeyPem draws) (k.history node serverPrivKeyPem draws)
      (.done (k.result draws)) := by
  have hsize : readUInt16BE k.head 0 = .ok k.size := by
    rw [h.head,h.size]
    unfold readUInt16BE
    rw [List.drop_zero,readBe16_be16 _ h.helloFrame_length]
  obtain ⟨counter,reply,hn,hreply,hsend⟩ := sendHello_eq node draws
  obtain rfl : k.counter = counter := Except.ok.inj (h.counter.symm.trans hn)
  obtain rfl : k.reply = reply := Except.ok.inj (h.reply.symm.trans hreply)
  have hlast : Runs (sendHello node (initialParams draws) draws.counter)
      [.note (.stage .sendHello),.write (frame [] k.reply),.note (.stage .done)]
      (.done ⟨k.counter,firstBlock k.reply⟩) := by
    rw [hsend]
    exact .note (.write (.note (.here _)))
  have hid := readCoreId_runs serverPrivKeyPem h.valid.long h.valid.nonce
  have hkey := getCoreKey_runs h.key
  have hdisclose := sendSessionKey_runs node serverPrivKeyPem draws k.credentials
  have hhello := getHello_runs hsize h.opens.1 h.opens.2
  refine sendNonce_runs.bind ?_
  refine hid.bind ?_
  refine hkey.bind ?_
  refine hdisclose.bind ?_
  refine hhello.bind ?_
  refine hlast.bind ?_
  exact .here _

theorem Honest.openSession (h : Honest node svc serverPrivKeyPem draws d k) :
    openSession node svc.rsa d k.credentials.sessionCiphertext k.credentials.signature =
      .ok draws.sessionKey := by
  unfold Handshake.openSession
  rw [h.recover,h.verify]
  exact if_pos rfl

theorem Honest.receives (h : Honest node svc serverPrivKeyPem draws d k) :
    Runs (receiveSession node svc.rsa d)
      [.read 384 (.ok (k.credentials.sessionCiphertext++k.credentials.signature))]
      (.done draws.sessionKey) := by
  apply Runs.read
  change Runs (settled (Handshake.openSession node svc.rsa d
    (slice (k.credentials.sessionCiphertext++k.credentials.signature) 0 128)
    (slice (k.credentials.sessionCiphertext++k.credentials.signature) 128 384))) _ _
  have hct : slice (k.credentials.sessionCiphertext++k.credentials.signature) 0 128 =
      k.credentials.sessionCiphertext := by
    rw [slice,List.drop_zero]
    exact List.take_left' h.sessionCiphertext_length
  have hsig : slice (k.credentials.sessionCiphertext++k.credentials.signature) 128 384 =
      k.credentials.signature := by
    rw [slice,List.drop_left' h.sessionCiphertext_length]
    exact List.take_of_length_le (by rw [h.signature_length])
  rw [hct,hsig,h.openSession]
  exact .here _

theorem Honest.greets (h : Honest node svc serverPrivKeyPem draws d k) :
    Runs (greetServer node d (slice draws.sessionKey 0 16) (slice draws.sessionKey 16 32))
      [.write (frame [syncByte] k.helloFrame)] (.done k.helloFrame) := by
  have hhello : encode (helloMessage d.helloMessageId d.helloPayload) = .ok d.hello :=
    encode_helloMessage d.helloMessageId d.helloPayload
  have hct : aesEncrypt node (slice draws.sessionKey 0 16) (slice draws.sessionKey 16 32) d.hello =
      .ok k.helloFrame := h.greet
  have hframe : encodeDeviceFrame k.helloFrame = .ok (frame [syncByte] k.helloFrame) :=
    encodeDeviceFrame_eq_ok.mpr ⟨h.helloFrame_length,rfl⟩
  simp only [greetServer,hhello,settled_ok,bind_done,hct,hframe]
  exact .write (.here _)

theorem readServerFrame_runs {reply : Bytes} (hl : reply.length < 65536) :
    Runs readServerFrame [.read 2 (.ok (be16 reply.length)),.read reply.length (.ok reply)]
      (.done reply) := by
  have hlen : readUInt16BE (be16 reply.length) 0 = .ok reply.length := by
    have hr := readBe16_be16 reply.length hl []
    rw [List.append_nil] at hr
    unfold readUInt16BE
    rw [List.drop_zero,hr]
  apply Runs.read
  change Runs (settled (readUInt16BE (be16 reply.length) 0) >>= readBytes) _ _
  rw [hlen]
  exact .read _ (.here _)

/-- The device's program runs to its end. -/
theorem Honest.device_runs (h : Honest node svc serverPrivKeyPem draws d k) :
    Runs (simulateDevice node svc.rsa d) (deviceHistory k draws) (.done (deviceResult k draws)) := by
  have hcounter : (0 : ℤ) ≤ k.counter ∧ (k.counter : ℤ) < 65536 := by
    have hlt := readUInt16BE_lt h.counter
    omega
  have hid : Runs (identifyDevice svc.rsa d) [.read 40 (.ok draws.nonce),.write k.credentials.ciphertext]
      (.done ()) := by
    have hsent := h.identify
    rw [h.plaintext] at hsent
    apply Runs.read
    change Runs (settled (svc.rsa.publicEncrypt d.serverPubPem (draws.nonce++d.id++d.inlineKey)) >>= _) _ _
    rw [hsent]
    exact .write (.here _)
  have hplain : aesDecrypt node (slice draws.sessionKey 0 16) (slice draws.sessionKey 16 32) k.reply =
      .ok (helloBytes k.counter) := aesDecrypt_aesEncrypt h.reply
  have hreply : decode (helloBytes k.counter) = .ok (heard k.counter []) :=
    decode_hello hcounter.1 hcounter.2 []
  refine hid.bind ?_
  refine h.receives.bind ?_
  refine h.greets.bind ?_
  refine (readServerFrame_runs h.reply_length).bind ?_
  simp only [hplain,settled_ok,bind_done,hreply]
  exact .here _

/-- Two matching key pairs and a loader that knows the device make an honest run. -/
theorem honest_exists {devicePubPem : String} (node : Primitives) (draws : Draws)
    (hserver : svc.rsa.Matching d.serverPubPem serverPrivKeyPem 256)
    (hdevice : svc.rsa.Matching devicePubPem d.privPem 128) (hkey : devicePubPem ≠ "")
    (hload : svc.loadCoreKey (toHex d.id) d.inlineDer = .ok (some devicePubPem)) :
    ∃ k, Honest node svc serverPrivKeyPem draws d k := by
  have hlong : (draws.nonce++d.id++d.inlineKey).length = 52+d.inlineKey.length := by
    simp only [List.length_append,draws.nonce_length,d.id_length]
  have hfits := d.inlineKey_fits
  obtain ⟨ciphertext,hc1,hc2,hc3⟩ := hserver.decrypts (draws.nonce++d.id++d.inlineKey) (by omega)
  obtain ⟨sessionCiphertext,hs1,hs2,hs3⟩ := hdevice.decrypts draws.sessionKey
    (by rw [draws.sessionKey_length]; decide)
  obtain ⟨signature,hg1,hg2,hg3⟩ := hserver.verifies (hmacSha1 node sessionCiphertext draws.sessionKey)
    (by rw [hmacSha1,node.hmac_length]; decide)
  obtain ⟨counter,reply,hn,hreply,-⟩ := sendHello_eq node draws
  obtain ⟨hk,hi⟩ := initialParams_lengths draws
  obtain ⟨helloFrame,hhello⟩ := aesEncrypt_total node hk hi d.hello
  have hhlen : helloFrame.length < 65536 := by
    have hplain : d.hello.length = 6+(payloadBytes d.helloPayload).length := by
      simp only [Device.hello,List.length_append,header_length,List.length_cons,List.length_nil]
      omega
    rw [aesEncrypt_length hhello,hplain]
    exact d.hello_fits
  have hrlen : reply.length < 65536 := by
    rw [aesEncrypt_length hreply]
    simp [helloBytes,header_length]
  let credentials : Credentials :=
    ⟨ciphertext,draws.nonce++d.id++d.inlineKey,devicePubPem,sessionCiphertext,signature⟩
  have hplain : credentials.plaintext = draws.nonce++d.id++d.inlineKey := rfl
  obtain ⟨-,-,hid,hder⟩ := Device.identity hplain
  refine ⟨⟨credentials,be16 helloFrame.length++[syncByte],helloFrame.length,helloFrame,
    heard d.helloMessageId d.helloPayload,counter,reply⟩,?_⟩
  exact ⟨rfl,hc1,hc2,hc3,hkey,by rw [hid,hder]; exact hload,hs1,hs2,hs3,hg1,hg2,hg3,hhello,hhlen,rfl,rfl,
    rfl,hn,hreply,hrlen⟩

theorem Honest.answered (h : Honest node svc serverPrivKeyPem draws d k) :
    Answered svc (k.history node serverPrivKeyPem draws) :=
  ⟨h.decrypt.symm,h.loadCoreKey.symm,h.encrypt.symm,h.sign.symm,trivial⟩

/-- The two histories fit together: backwards from the end, each read is put in
front of the stream and each write takes it from there. -/
theorem Honest.weave (h : Honest node svc serverPrivKeyPem draws d k) :
    Weave [] [] (k.history node serverPrivKeyPem draws) (deviceHistory k draws) := by
  have hend : Weave [] [] ([] : History) ([] : List (Item Empty Empty (fun _ => Empty) JsError)) :=
    .done
  -- stage 6
  have h1 := hend.second_read (r := k.reply) rfl
  rw [List.append_nil] at h1
  have h2 := h1.second_read (n := 2) (r := be16 k.reply.length) rfl
  have h3 := Weave.first (.note (x := Note.stage .done)) h2
  have h4 := Weave.first (b := []) (.write (w := frame [] k.reply)) h3
  have h5 := Weave.first (.note (x := Note.stage .sendHello)) h4
  -- stage 5
  have h6 := h5.first_read (r := k.helloFrame) h.size.symm
  rw [List.append_nil] at h6
  have h7 := h6.first_read (n := 3) (r := k.head) (by rw [h.head]; rfl)
  have hframe : k.head++k.helloFrame = []++frame [syncByte] k.helloFrame := by
    rw [h.head]
    simp [frame]
  rw [hframe] at h7
  have h8 := Weave.second .write h7
  -- stage 4
  have h9 := h8.second_read (n := 384) (r := k.credentials.sessionCiphertext++k.credentials.signature)
    (by rw [List.length_append,h.sessionCiphertext_length,h.signature_length])
  rw [List.append_nil] at h9
  have h10 := Weave.first (.note (x := Note.stage .getHello)) h9
  have h11 := Weave.first (b := []) (.write
    (w := k.credentials.sessionCiphertext++k.credentials.signature)) h10
  have h12 := Weave.first (.call (c := Call.sign serverPrivKeyPem (hmacSha1 node
    k.credentials.sessionCiphertext draws.sessionKey)) (r := Except.ok k.credentials.signature)) h11
  have h13 := Weave.first (.call (c := Call.encrypt k.credentials.key draws.sessionKey)
    (r := Except.ok k.credentials.sessionCiphertext)) h12
  have h14 := Weave.first (.note (x := Note.stage .sendSessionKey)) h13
  -- stages 3 and 2
  have h15 := Weave.first (.call (c := Call.loadCoreKey k.credentials.coreId k.credentials.inlineDer)
    (r := Except.ok (some k.credentials.key))) h14
  have h16 := Weave.first (.note (x := Note.stage .getCoreKey)) h15
  have h17 := Weave.first (.note (x := Note.coreId k.credentials.coreId)) h16
  have h18 := Weave.first (.call (c := Call.decrypt serverPrivKeyPem k.credentials.ciphertext)
    (r := Except.ok k.credentials.plaintext)) h17
  have h19 := h18.first_read (n := 256) (r := k.credentials.ciphertext) h.ciphertext_length
  rw [List.append_nil] at h19
  have h20 := Weave.second (a := []) (.write (w := k.credentials.ciphertext)) h19
  have h21 := h20.second_read (n := 40) (r := draws.nonce) draws.nonce_length
  rw [List.append_nil] at h21
  have h22 := Weave.first (.note (x := Note.stage .readCoreId)) h21
  -- stage 1
  have h23 := Weave.first (b := []) (.write (w := draws.nonce)) h22
  exact .first (.note (x := Note.stage .sendNonce)) h23

end Agreement
end SparkProtocol.Handshake
