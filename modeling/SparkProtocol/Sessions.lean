import SparkProtocol.Handshake
import SparkProtocol.ByteQueues
import SparkProtocol.OrderedMaps
import SparkProtocol.LabelledRuns

/-!
# One connection

A session is the state of one socket with the coroutine `run()` suspended in it.
Each event is one uninterrupted piece of the code: a socket or timer callback, a
host call, or one continuation of the coroutine. Between a settled read and its
continuation, and between the end of a loop turn and the next test of the loop
condition, any other event may come. Two moments are no steps of their own: the last
continuation of `runHandshake` is one with what `run()` does of its outcome, and a call
that an `error` listener makes comes after the `disconnect()` that follows the emission.

The trace records in order what the session did: socket writes and the half
close, emitted events, settled request promises, and each call of `_handleFrame`
and `_sendPlain` with its argument. An `error` listener is attached throughout,
as the gateway attaches one, so emitting `error` never throws.
-/
namespace SparkProtocol.Sessions
open ByteStrings HostValues StreamPrograms Program Crypto Chunking Coap Messages Handshake
  ByteQueues OrderedMaps

/-- `_state`. -/
inductive Phase where
  | opening | handshaking | connected | closed
  deriving DecidableEq, Repr

/-- Where `run()` is. -/
inductive Control where
  | idle
  | handshake (p : Exchange HandshakeResult)
  | loop
  | reading (p : Exchange Bytes)
  | finished

/-- The argument by which `send` looks up its message: an own key of the table, a
key that the table object inherits, or a name with no value there. -/
inductive MessageKey where
  | named (name : MessageName)
  | inherited (key : String)
  | unknown (name : String)
  deriving DecidableEq, Repr

def MessageKey.text : MessageKey → String
  | .named name => name.text
  | .inherited key => key
  | .unknown name => name

/-- An inherited value is truthy and has none of the three fields. -/
def MessageKey.spec : MessageKey → Option MessageSpec
  | .named name => some (messageSpec name)
  | .inherited _ => some ⟨0,0,none⟩
  | .unknown _ => none

structure SendOptions where
  payload : Bytes := []
  options : List (CoapOption ℕ) := []
  messageId : Option ℤ := none
  token : Bytes := []
  type : Option ℤ := none

structure RequestOptions where
  payload : Bytes := []
  options : List (CoapOption ℕ) := []
  timeoutMs : ℕ := 5000

/-- A live request timer. Its callback deletes by key and rejects by identity. -/
structure RequestTimer where
  id : ℕ
  key : String
  name : MessageKey
  timeoutMs : ℕ
  deriving DecidableEq

inductive Out where
  | write (b : Bytes)
  | fin
  | handshake (r : HandshakeResult)
  | message (name : Option MessageName) (msg : CoapMessage JsNumber)
  | error (e : JsError)
  | close
  | resolve (id : ℕ) (msg : CoapMessage JsNumber)
  | reject (id : ℕ) (e : JsError)
  | frameIn (ciphertext : Bytes)
  | plainOut (plain : Bytes)
  deriving DecidableEq

structure Config where
  node : Primitives
  serverPrivKeyPem : String
  draws : Draws

def plainConfig : Config := ⟨plainNode,"server",zeroDraws⟩

/-- Buffers that are `null` before the handshake are empty here; the ciphers
refuse both. A pending entry holds the request whose promise and timer it has. -/
structure Session where
  phase : Phase := .opening
  control : Control := .idle
  queue : ByteQueue Unit := {}
  settled : Option (Except JsError Bytes) := none
  idleTimer : Bool := false
  pending : OrderedMap String ℕ := .empty
  timers : List RequestTimer := []
  requests : ℕ := 0
  coreId : Option String := none
  sessionKey : Bytes := []
  aesKey : Bytes := []
  ivIn : Bytes := []
  ivOut : Bytes := []
  recvCounter : ℤ := 0
  sendCounter : ℤ := 0
  productId : Option ℕ := none
  firmwareVersion : Option ℕ := none
  progress : Progress := {}
  handshakeError : Option JsError := none
  trace : List Out := []

namespace Session

def log (s : Session) (o : Out) : Session := { s with trace := s.trace++[o] }

def resetIdleTimer (s : Session) : Session := { s with idleTimer := true }

/-- The queue after an operation, and the promise that `run()` awaits if the
operation settled it. -/
def withQueue (s : Session) (r : ByteQueue Unit × List (Settlement Unit)) : Session :=
  { s with
    queue := r.1
    settled := match r.2 with
      | [] => s.settled
      | w::_ => some w.outcome }

def onData (s : Session) (chunk : Bytes) : Session :=
  s.resetIdleTimer.withQueue (s.queue.push chunk)

def sessionClosed : JsError := { message := "session closed" }

def finalize (s : Session) : Session :=
  if s.phase = .closed then s
  else
    let s := { s with phase := .closed, idleTimer := false }
    let s := { s with
      timers := s.timers.filter fun t => t.id ∉ s.pending.values
      trace := s.trace++s.pending.values.map fun id => Out.reject id sessionClosed
      pending := .empty }
    (s.withQueue s.queue.close).log .close

def disconnect (s : Session) : Session :=
  if s.phase = .closed then s else (s.log .fin).finalize

def onSocketError (s : Session) (err : JsError) : Session := (s.log (.error err)).disconnect

def onIdleTimeout (s : Session) : Session :=
  ({ s with idleTimer := false }.log (.error { message := "idle timeout" })).disconnect

section Sending
variable (node : Primitives)

/-- The vector rolls before the frame is built, so a refused frame has moved it. -/
def sendPlain (s : Session) (plain : Bytes) : Session × Except JsError Unit :=
  let s := s.log (.plainOut plain)
  match aesEncrypt node s.aesKey s.ivOut plain with
  | .error e => (s,.error e)
  | .ok ct =>
      let s := { s with ivOut := firstBlock ct }
      match encodeFrame ct with
      | .error e => (s,.error e)
      | .ok frame => (s.log (.write frame),.ok ())

/-- The message id of a send: allocated from the counter unless given. -/
def allocate (s : Session) : Option ℤ → ℤ × Session
  | none => (s.sendCounter%65536,{ s with sendCounter := (s.sendCounter+1)%65536 })
  | some messageId => (messageId%65536,s)

def outbound (spec : MessageSpec) (opts : SendOptions) (messageId : ℤ) : CoapMessage ℕ :=
  { type := opts.type.getD spec.type, code := spec.code, messageId, token := opts.token,
    options := (spec.uri.map (CoapOption.mk UriPath)).toList++opts.options, payload := opts.payload }

def send (s : Session) (name : MessageKey) (opts : SendOptions) : Session × Except JsError ℤ :=
  match name.spec with
  | none => (s,.error { message := "unknown message: " ++ name.text })
  | some spec =>
      let (messageId,s) := s.allocate opts.messageId
      match encode (outbound spec opts messageId) with
      | .error e => (s,.error e)
      | .ok plain =>
          match s.sendPlain node plain with
          | (s,.error e) => (s,.error e)
          | (s,.ok ()) => (s,.ok messageId)

def clearTimer (s : Session) (id : ℕ) : Session :=
  { s with timers := s.timers.filter fun t => t.id ≠ id }

def notConnected : JsError := { message := "session not connected" }

/-- `token` is the byte that `randomBytes(1)` gave. -/
def request (s : Session) (name : MessageKey) (opts : RequestOptions) (token : UInt8) : Session :=
  let id := s.requests
  let s := { s with requests := id+1 }
  if s.phase ≠ .connected then s.log (.reject id notConnected)
  else
    let key := toHex [token]
    let s := { s with
      timers := s.timers++[RequestTimer.mk id key name opts.timeoutMs]
      pending := s.pending.set key id }
    match s.send node name { payload := opts.payload, options := opts.options, token := [token] } with
    | (s,.ok _) => s
    | (s,.error e) => ({ s with pending := s.pending.delete key }.clearTimer id).log (.reject id e)

def timedOut (t : RequestTimer) : JsError :=
  { message := "device request '" ++ t.name.text ++ "' timed out after " ++
      toString t.timeoutMs ++ "ms" }

def onRequestTimeout (s : Session) (t : RequestTimer) : Session :=
  ({ s with pending := s.pending.delete t.key }.clearTimer t.id).log (.reject t.id (timedOut t))

/-- A message that is not a ping: the outstanding request with its token, or else
the listeners. -/
def correlate (s : Session) (msg : CoapMessage JsNumber) : Session :=
  match if msg.token.length > 0 then s.pending.get (toHex msg.token) else none with
  | some id =>
      ({ s with pending := s.pending.delete (toHex msg.token) }.clearTimer id).log (.resolve id msg)
  | none => s.log (.message (classify msg) msg)

def pingAck (msg : CoapMessage JsNumber) : CoapMessage ℕ :=
  { type := MsgType.ACK, code := Code.Empty, messageId := msg.messageId, token := msg.token }

def handleFrame (s : Session) (ciphertext : Bytes) : Session × Except JsError Unit :=
  let s := s.log (.frameIn ciphertext)
  match aesDecrypt node s.aesKey s.ivIn ciphertext with
  | .error err =>
      ((s.log (.error { message := "AES decrypt failed: " ++ err.message })).disconnect,.ok ())
  | .ok plaintext =>
      let s := { s with ivIn := firstBlock ciphertext }
      match decode plaintext with
      | .error err => (s.log (.error { message := "CoAP decode failed: " ++ err.message }),.ok ())
      | .ok msg =>
          let s := { s with recvCounter := msg.messageId }
          if classify msg = some .ping then
            match encode (pingAck msg) with
            | .error e => (s,.error e)
            | .ok plain => s.sendPlain node plain
          else (s.correlate msg,.ok ())

end Sending

/-- The `catch` of `run()`. -/
def caught (s : Session) (err : JsError) : Session :=
  let s := { s with handshakeError := some err, control := .finished }
  if s.phase = .closed then s else (s.log (.error err)).disconnect

def perform (s : Session) : Effect Note → Session
  | .note x => { s with progress := s.progress.record x }
  | .write b => s.log (.write b)

/-- Suspension on a read enters the queue; on a service call nothing happens here. -/
def await {α : Type} (s : Session) : Exchange α → Session
  | .read n _ => s.withQueue (s.queue.read () n)
  | _ => s

def established (s : Session) (r : HandshakeResult) : Session :=
  { s with
    coreId := some r.coreId, sessionKey := r.sessionKey, aesKey := r.aesKey, ivIn := r.ivIn
    ivOut := r.ivOut, recvCounter := r.recvCounter, sendCounter := r.sendCounter
    productId := r.productId, firmwareVersion := r.firmwareVersion
    phase := .connected, control := .loop }.log (.handshake r)

def continueHandshake (s : Session) (p : Exchange HandshakeResult) : Session :=
  let s := p.burst.1.foldl perform s
  match p.burst.2 with
  | .done r => s.established r
  | .fail e => s.caught e
  | q => { s.await q with control := .handshake q }

/-- `run()` has taken up the value its read settled with. -/
def taken (s : Session) : Session := { s with settled := none }

/-- Back to the loop condition, unless the call threw. -/
def endTurn (r : Session × Except JsError Unit) : Session :=
  match r with
  | (s,.ok ()) => { s with control := .loop }
  | (s,.error e) => s.caught e

/-- The rest of one loop turn, from a point inside `readFrame` on. -/
def continueReading (node : Primitives) (s : Session) (p : Exchange Bytes) : Session :=
  let s := p.burst.1.foldl perform s
  match p.burst.2 with
  | .done frame => endTurn (s.handleFrame node frame)
  | .fail e => s.caught e
  | q => { s.await q with control := .reading q }

def loopTest (node : Primitives) (s : Session) : Session :=
  if s.phase = .connected then s.continueReading node readFrame else { s with control := .finished }

def run (cfg : Config) (s : Session) : Session :=
  { s.resetIdleTimer with progress := {}, phase := .handshaking }.continueHandshake
    (runHandshake cfg.node cfg.serverPrivKeyPem cfg.draws)

end Session

open Session

inductive Event where
  | run
  | resume
  | loop
  /-- The service that `run()` is waiting for answers it. -/
  | answer (a : (c : Call) → Answer c)
  | data (chunk : Bytes)
  | socketError (err : JsError)
  | socketClose
  | idleTimeout
  | disconnect
  | send (name : MessageKey) (opts : SendOptions)
  | request (name : MessageKey) (opts : RequestOptions) (token : UInt8)
  | requestTimeout (id : ℕ)

/-- One event, or `none` where the event cannot happen. -/
def step (cfg : Config) (s : Session) : Event → Option Session
  | .run =>
      match s.control with
      | .idle => some (s.run cfg)
      | _ => none
  | .resume =>
      match s.control,s.settled with
      | .handshake (.read _ k),some r => some (s.taken.continueHandshake (k r))
      | .reading (.read _ k),some r => some (s.taken.continueReading cfg.node (k r))
      | _,_ => none
  | .loop =>
      match s.control with
      | .loop => some (s.loopTest cfg.node)
      | _ => none
  | .answer a =>
      match s.control with
      | .handshake (.call c k) => some (s.continueHandshake (k (a c)))
      | _ => none
  | .data chunk => some (s.onData chunk)
  | .socketError err => some (s.onSocketError err)
  | .socketClose => some s.finalize
  | .idleTimeout => if s.idleTimer then some s.onIdleTimeout else none
  | .disconnect => some s.disconnect
  | .send name opts => some (s.send cfg.node name opts).1
  | .request name opts token => some (s.request cfg.node name opts token)
  | .requestTimeout id => (s.timers.find? fun t => t.id = id).map s.onRequestTimeout

end SparkProtocol.Sessions
