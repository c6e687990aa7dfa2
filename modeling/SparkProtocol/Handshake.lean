import SparkProtocol.StreamPrograms
import SparkProtocol.Crypto
import SparkProtocol.Chunking
import SparkProtocol.Messages

/-!
# The six-stage handshake

The handshake is one sequential program. Its reads come from the inbound byte
queue, its calls go to the crypto pool and to the core-key loader, and any of
them may be refused; only a refused RSA decryption is caught, to be thrown again
under its own name. The three random strings of a run are its inputs, drawn in
the order nonce, session material, send counter. Progress is left as notes, the
last of which a caller can read after a failure.
-/
namespace SparkProtocol.Handshake
open ByteStrings HostValues StreamPrograms Program Crypto Chunking Coap Messages

inductive Stage where
  | sendNonce | readCoreId | getCoreKey | sendSessionKey | getHello | sendHello | done
  deriving DecidableEq, Repr

/-- An assignment to a field of `progress`. -/
inductive Note where
  | stage (s : Stage)
  | coreId (id : String)
  deriving DecidableEq, Repr

structure Progress where
  stage : Option Stage := none
  coreId : Option String := none
  deriving DecidableEq, Repr

def Progress.record (p : Progress) : Note → Progress
  | .stage s => { p with stage := some s }
  | .coreId id => { p with coreId := some id }

/-- The awaited services other than the byte queue. Keys are PEM texts. -/
inductive Call where
  | decrypt (keyPem : String) (ciphertext : Bytes)
  | loadCoreKey (coreId : String) (inlineDer : Option Bytes)
  | encrypt (keyPem : String) (data : Bytes)
  | sign (keyPem : String) (hash : Bytes)

def Answer : Call → Type
  | .loadCoreKey _ _ => Except JsError (Option String)
  | _ => Except JsError Bytes

abbrev Exchange := Program Note Call Answer JsError

/-- The random strings of one run. -/
structure Draws where
  nonce : Bytes
  sessionKey : Bytes
  counter : Bytes
  nonce_length : nonce.length = 40
  sessionKey_length : sessionKey.length = 40
  counter_length : counter.length = 2

/-- A fixed run for closed examples: zeros, and the send counter 7. -/
def zeroDraws : Draws where
  nonce := List.replicate 40 0
  sessionKey := List.replicate 40 0
  counter := [0,7]
  nonce_length := List.length_replicate
  sessionKey_length := List.length_replicate
  counter_length := rfl

/-- Services that accept: the all-zero device with its key on file. -/
def plainAnswer : (c : Call) → Answer c
  | .decrypt _ _ => Except.ok (List.replicate 52 0)
  | .loadCoreKey _ _ => Except.ok (some "key")
  | .encrypt _ _ => Except.ok (List.replicate 128 1)
  | .sign _ _ => Except.ok (List.replicate 256 2)

structure HandshakeResult where
  coreId : String
  sessionKey : Bytes
  aesKey : Bytes
  ivIn : Bytes
  ivOut : Bytes
  recvCounter : ℤ
  sendCounter : ℤ
  productId : Option ℕ
  firmwareVersion : Option ℕ
  deriving DecidableEq

def handshakeError (message : String) : JsError := { message, name := "HandshakeError" }

/-- `io.readFrame`: the sync byte is the third header byte and is skipped. -/
def readFrame : Exchange Bytes := do
  let head ← readBytes 3
  let len ← settled (readUInt16BE head 0)
  readBytes len

def writeFrame (b : Bytes) : Exchange Unit := do
  send (← settled (encodeFrame b))

def sendNonce (draws : Draws) : Exchange Unit := do
  leave (.stage .sendNonce)
  send draws.nonce

def readCoreId (serverPrivKeyPem : String) (nonce : Bytes) : Exchange (String × Option Bytes) := do
  leave (.stage .readCoreId)
  let ciphertext ← readBytes 256
  let plaintext ← tryCatch (.call (.decrypt serverPrivKeyPem ciphertext) settled) fun err =>
    throw { handshakeError "RSA decrypt failed" with cause := some err.message }
  if plaintext.length < 52 then
    throw { handshakeError "plaintext too small" with length := some plaintext.length }
  else if slice plaintext 0 40 ≠ nonce then throw (handshakeError "nonce mismatch")
  else do
    let coreId := toHex (slice plaintext 40 52)
    leave (.coreId coreId)
    pure (coreId,if plaintext.length > 52 then some (plaintext.drop 52) else none)

/-- Fails closed: an absent or empty key text is no key. -/
def getCoreKey (coreId : String) (inlineDer : Option Bytes) : Exchange String := do
  leave (.stage .getCoreKey)
  match ← (.call (.loadCoreKey coreId inlineDer) settled : Exchange (Option String)) with
  | none => throw { handshakeError "core key not found" with coreId := some coreId }
  | some pem =>
      if pem = "" then throw { handshakeError "core key not found" with coreId := some coreId }
      else pure pem

section
variable (node : Primitives)

def sendSessionKey (serverPrivKeyPem corePubPem : String) (sessionKey : Bytes) :
    Exchange AesParams := do
  leave (.stage .sendSessionKey)
  let sessionCiphertext ← (.call (.encrypt corePubPem sessionKey) settled : Exchange Bytes)
  let hmac := hmacSha1 node sessionCiphertext sessionKey
  let signature ← (.call (.sign serverPrivKeyPem hmac) settled : Exchange Bytes)
  send (sessionCiphertext++signature)
  settled (deriveAesParams sessionKey)

structure HelloIn where
  recvCounter : ℤ
  productId : Option ℕ
  firmwareVersion : Option ℕ
  ivIn : Bytes
  deriving DecidableEq

/-- What stage 5 keeps of the frame and of the message in it. -/
def helloIn (frame : Bytes) (msg : CoapMessage JsNumber) : HelloIn :=
  { recvCounter := msg.messageId
    productId := if msg.payload.length ≥ 4 then readBe16 msg.payload else none
    firmwareVersion := if msg.payload.length ≥ 4 then readBe16 (msg.payload.drop 2) else none
    ivIn := firstBlock frame }

def openHello (aes : AesParams) (frame : Bytes) : Except JsError HelloIn :=
  match aesDecrypt node aes.key aes.iv frame with
  | .error err => .error { handshakeError "hello AES decrypt failed" with cause := some err.message }
  | .ok helloPlain =>
      match decode helloPlain with
      | .error err => .error { handshakeError "hello CoAP parse failed" with cause := some err.message }
      | .ok helloMsg => .ok (helloIn frame helloMsg)

def getHello (aes : AesParams) : Exchange HelloIn := do
  leave (.stage .getHello)
  let helloFrameIn ← readFrame
  settled (openHello node aes helloFrameIn)

/-- The Hello of either side: a non-confirmable POST to `h`. -/
def helloMessage (messageId : ℤ) (payload : Bytes) : CoapMessage ℕ :=
  { type := MsgType.NON, code := Code.POST, messageId,
    options := [⟨UriPath,[UInt8.ofNat 'h'.toNat]⟩], payload }

structure HelloOut where
  sendCounter : ℤ
  ivOut : Bytes
  deriving DecidableEq

def sendHello (aes : AesParams) (counter : Bytes) : Exchange HelloOut := do
  leave (.stage .sendHello)
  let sendCounter ← settled (readUInt16BE counter 0)
  let helloPlainOut ← settled (encode (helloMessage sendCounter []))
  let helloFrameOut ← settled (aesEncrypt node aes.key aes.iv helloPlainOut)
  writeFrame helloFrameOut
  leave (.stage .done)
  pure ⟨sendCounter,firstBlock helloFrameOut⟩

def runHandshake (serverPrivKeyPem : String) (draws : Draws) : Exchange HandshakeResult := do
  sendNonce draws
  let (coreId,inlineDer) ← readCoreId serverPrivKeyPem draws.nonce
  let corePubPem ← getCoreKey coreId inlineDer
  let aes ← sendSessionKey node serverPrivKeyPem corePubPem draws.sessionKey
  let hello ← getHello node aes
  let out ← sendHello node aes draws.counter
  pure { coreId, sessionKey := draws.sessionKey, aesKey := aes.key, ivIn := hello.ivIn,
         ivOut := out.ivOut, recvCounter := hello.recvCounter, sendCounter := out.sendCounter,
         productId := hello.productId, firmwareVersion := hello.firmwareVersion }

end
end SparkProtocol.Handshake
