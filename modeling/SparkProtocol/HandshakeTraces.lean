import SparkProtocol.Handshake

/-!
# What a handshake discloses

The history of a run lists every byte string written, every read and every
service call with its answer. Whatever the device and the services do, the
history follows one transcript up to the stage-4 write, so that write presupposes
all the checks before it; an answer that fails its check is the last item there
is. Stage 5 accepts a frame exactly when it decrypts to some CoAP message.
-/
namespace SparkProtocol.Handshake
open ByteStrings HostValues StreamPrograms Program Crypto Chunking Coap Messages FramedStreams

abbrev History := List (Item Note Call Answer JsError)

/-- What stages 2 to 4 obtained from the device and from the services. -/
structure Credentials where
  ciphertext : Bytes
  plaintext : Bytes
  key : String
  sessionCiphertext : Bytes
  signature : Bytes

def Credentials.coreId (c : Credentials) : String := toHex (slice c.plaintext 40 52)

def Credentials.inlineDer (c : Credentials) : Option Bytes :=
  if c.plaintext.length > 52 then some (c.plaintext.drop 52) else none

structure Credentials.Valid (draws : Draws) (c : Credentials) : Prop where
  long : 52 ≤ c.plaintext.length
  nonce : slice c.plaintext 0 40 = draws.nonce
  key : c.key ≠ ""

section
variable (node : Primitives) (serverPrivKeyPem : String) (draws : Draws)

def opening : History := [.note (.stage .sendNonce),.write draws.nonce]

def identification (c : Credentials) : History :=
  [.note (.stage .readCoreId),.read 256 (.ok c.ciphertext),
    .call (.decrypt serverPrivKeyPem c.ciphertext) (Except.ok c.plaintext),.note (.coreId c.coreId)]

def keyLookup (c : Credentials) : History :=
  [.note (.stage .getCoreKey),.call (.loadCoreKey c.coreId c.inlineDer) (Except.ok (some c.key))]

/-- The secret goes out encrypted under the loaded key, with the signed digest. -/
def disclosure (c : Credentials) : History :=
  [.note (.stage .sendSessionKey),.call (.encrypt c.key draws.sessionKey) (Except.ok c.sessionCiphertext),
    .call (.sign serverPrivKeyPem (hmacSha1 node c.sessionCiphertext draws.sessionKey))
      (Except.ok c.signature),
    .write (c.sessionCiphertext++c.signature)]

/-- A run up to and including the stage-4 write. -/
def transcript (c : Credentials) : History :=
  opening draws++identification serverPrivKeyPem c++keyLookup c++disclosure node serverPrivKeyPem draws c

/-- Nothing written, or the nonce alone, or the whole transcript behind it. -/
def Disclosed (t : History) : Prop :=
  written t = [] ∨ written t = [draws.nonce] ∨
    ∃ c : Credentials, c.Valid draws ∧ ∃ u, t = transcript node serverPrivKeyPem draws c++u

/-- An answer that does not pass its check. -/
def Refuses : Item Note Call Answer JsError → Prop
  | .note _ => False
  | .write _ => False
  | .read _ r => ∃ e, r = .error e
  | .call (.decrypt _ _) a =>
      (∃ e, a = Except.error e) ∨ ∃ plaintext, a = Except.ok plaintext ∧
        (plaintext.length < 52 ∨ slice plaintext 0 40 ≠ draws.nonce)
  | .call (.loadCoreKey _ _) a =>
      (∃ e, a = Except.error e) ∨ a = Except.ok none ∨ a = Except.ok (some "")
  | .call (.encrypt _ _) a => ∃ e, a = Except.error e
  | .call (.sign _ _) a => ∃ e, a = Except.error e

/-- The byte strings that the reads so far were given. -/
def reads : History → List Bytes
  | [] => []
  | .read _ (.ok b)::t => b::reads t
  | _::t => reads t

@[simp] theorem reads_append (s t : History) : reads (s++t) = reads s++reads t := by
  induction s with
  | nil => rfl
  | cons i s ih =>
      cases i with
      | read n r => cases r <;> simp [reads,ih]
      | _ => exact ih

/-- The session key and the initial vector of the run. -/
def initialParams : AesParams := ⟨slice draws.sessionKey 0 16,slice draws.sessionKey 16 32⟩

theorem initialParams_lengths :
    (initialParams draws).key.length = 16 ∧ (initialParams draws).iv.length = 16 := by
  simp [initialParams,slice_length,draws.sessionKey_length]

/-- The frame decrypts under the initial parameters to the given CoAP message. -/
def Opens (frame : Bytes) (msg : CoapMessage JsNumber) : Prop :=
  ∃ plain, aesDecrypt node (initialParams draws).key (initialParams draws).iv frame = .ok plain ∧
    decode plain = .ok msg

/-- Between two effects: every check so far has passed. -/
def Going (t : History) : Prop :=
  (∀ i ∈ t, ¬ Refuses draws i) ∧ Disclosed node serverPrivKeyPem draws t

def Waiting (t : History) : Prop :=
  Going node serverPrivKeyPem draws t ∧ (reads t).length < 3

/-- The end of a rejected run: at most the last item failed, and a stage-5 frame
that was read holds no message. -/
def Halted (t : History) : Prop :=
  (∀ i ∈ t.dropLast, ¬ Refuses draws i) ∧ Disclosed node serverPrivKeyPem draws t ∧
    ∀ ct head frame, reads t = [ct,head,frame] → ∀ msg, ¬ Opens node draws frame msg

end

section Growing
variable {node : Primitives} {serverPrivKeyPem : String} {draws : Draws} {t : History}
  {i : Item Note Call Answer JsError}

theorem Disclosed.snoc (h : Disclosed node serverPrivKeyPem draws t)
    (hw : written [i] = [] ∨ ∃ c : Credentials, c.Valid draws ∧
      ∃ u, t = transcript node serverPrivKeyPem draws c++u) :
    Disclosed node serverPrivKeyPem draws (t++[i]) := by
  have later : (∃ c : Credentials, c.Valid draws ∧
      ∃ u, t = transcript node serverPrivKeyPem draws c++u) →
        Disclosed node serverPrivKeyPem draws (t++[i]) := by
    rintro ⟨c,hc,u,rfl⟩
    exact .inr (.inr ⟨c,hc,u++[i],by rw [List.append_assoc]⟩)
  rcases hw with hw | hw
  · rcases h with h | h | h
    · exact .inl (by rw [written_append,h,hw]; rfl)
    · exact .inr (.inl (by rw [written_append,h,hw]; rfl))
    · exact later h
  · exact later hw

/-- Notes, reads and answers that pass their check. -/
theorem Going.quiet (h : Going node serverPrivKeyPem draws t) (hw : written [i] = [])
    (hi : ¬ Refuses draws i) : Going node serverPrivKeyPem draws (t++[i]) := by
  refine ⟨?_,h.2.snoc (.inl hw)⟩
  intro j hj
  rcases List.mem_append.mp hj with hj | hj
  · exact h.1 j hj
  · obtain rfl := List.mem_singleton.mp hj
    exact hi

/-- Writes after the stage-4 write. -/
theorem Going.loud {b : Bytes} (h : Going node serverPrivKeyPem draws t)
    (hc : ∃ c : Credentials, c.Valid draws ∧ ∃ u, t = transcript node serverPrivKeyPem draws c++u) :
    Going node serverPrivKeyPem draws (t++[.write b]) := by
  refine ⟨?_,h.2.snoc (.inr hc)⟩
  intro j hj
  rcases List.mem_append.mp hj with hj | hj
  · exact h.1 j hj
  · obtain rfl := List.mem_singleton.mp hj
    exact id

/-- A run that ends on the answer just given. -/
theorem Going.halted (h : Going node serverPrivKeyPem draws t) (hw : written [i] = [])
    (hr : ∀ ct head frame, reads (t++[i]) = [ct,head,frame] → ∀ msg, ¬ Opens node draws frame msg) :
    Halted node serverPrivKeyPem draws (t++[i]) := by
  refine ⟨?_,h.2.snoc (.inl hw),hr⟩
  rw [List.dropLast_concat]
  exact h.1

theorem no_frame {l : List Bytes} (h : l.length < 3) :
    ∀ ct head frame, l = [ct,head,frame] → ∀ msg, ¬ Opens node draws frame msg := by
  rintro ct head frame rfl
  simp at h

end Growing

theorem encode_helloMessage (messageId : ℤ) (payload : Bytes) :
    encode (helloMessage messageId payload) =
      .ok (header MsgType.NON Code.POST messageId 0++([0xB1,0x68]++payloadBytes payload)) := by
  have hopt : encodeOptions 0 [⟨UriPath,[UInt8.ofNat 'h'.toNat]⟩] = .ok [0xB1,0x68] := by decide
  unfold encode
  rw [if_neg (by simp [helloMessage])]
  have hsort : (helloMessage messageId payload).options.insertionSort
      (fun a b => a.number ≤ b.number) = [⟨UriPath,[UInt8.ofNat 'h'.toNat]⟩] := rfl
  rw [hsort,hopt]
  simp [helloMessage]

/-- The server's Hello before encryption. -/
def helloBytes (counter : ℕ) : Bytes := header MsgType.NON Code.POST counter 0++[0xB1,0x68]

/-- A finished run: what the last two stages saw and said, after the transcript. -/
structure Completion where
  credentials : Credentials
  head : Bytes
  size : ℕ
  helloFrame : Bytes
  hello : CoapMessage JsNumber
  counter : ℕ
  reply : Bytes

namespace Completion
variable (node : Primitives) (serverPrivKeyPem : String) (draws : Draws) (k : Completion)

/-- The history up to the stage-5 frame. -/
def greeted : History :=
  transcript node serverPrivKeyPem draws k.credentials++
    [.note (.stage .getHello),.read 3 (.ok k.head),.read k.size (.ok k.helloFrame)]

def history : History :=
  k.greeted node serverPrivKeyPem draws++
    [.note (.stage .sendHello),.write (frame [] k.reply),.note (.stage .done)]

def result : HandshakeResult :=
  { coreId := k.credentials.coreId, sessionKey := draws.sessionKey
    aesKey := (initialParams draws).key, ivIn := firstBlock k.helloFrame, ivOut := firstBlock k.reply
    recvCounter := k.hello.messageId, sendCounter := k.counter
    productId := (helloIn k.helloFrame k.hello).productId
    firmwareVersion := (helloIn k.helloFrame k.hello).firmwareVersion }

structure Valid : Prop where
  credentials : k.credentials.Valid draws
  opens : Opens node draws k.helloFrame k.hello
  counter : readUInt16BE draws.counter 0 = .ok k.counter
  reply : aesEncrypt node (initialParams draws).key (initialParams draws).iv (helloBytes k.counter) =
    .ok k.reply

end Completion

section Stages
variable {node : Primitives} {serverPrivKeyPem : String} {draws : Draws}

theorem sendNonce_keeps :
    Keeps (Going node serverPrivKeyPem draws) (Waiting node serverPrivKeyPem draws)
      (fun t _ => t = opening draws ∧ Going node serverPrivKeyPem draws t) [] (sendNonce draws) := by
  have h0 : Going node serverPrivKeyPem draws [] := ⟨by simp,.inl rfl⟩
  have h1 := h0.quiet (i := .note (.stage .sendNonce)) rfl id
  have h2 : Going node serverPrivKeyPem draws (opening draws) :=
    ⟨by simp [opening,Refuses],.inr (.inl rfl)⟩
  exact ⟨h0,h1,rfl,h2⟩

theorem not_refuses_decrypt {keyPem : String} {ciphertext plaintext : Bytes}
    (hlong : 52 ≤ plaintext.length) (hnonce : slice plaintext 0 40 = draws.nonce) :
    ¬ Refuses draws (.call (.decrypt keyPem ciphertext) (Except.ok plaintext)) := by
  rintro (⟨e,he⟩ | ⟨p,hp,hbad⟩)
  · cases he
  · obtain rfl : plaintext = p := Except.ok.inj hp
    rcases hbad with hbad | hbad
    · omega
    · exact hbad hnonce

theorem not_refuses_loadCoreKey {coreId key : String} {inlineDer : Option Bytes} (hkey : key ≠ "") :
    ¬ Refuses draws (.call (.loadCoreKey coreId inlineDer) (Except.ok (some key))) := by
  rintro (⟨e,he⟩ | he | he)
  · cases he
  · cases he
  · exact hkey (Option.some.inj (Except.ok.inj he))

theorem readCoreId_keeps {t : History} (h : t = opening draws ∧ Going node serverPrivKeyPem draws t) :
    Keeps (Going node serverPrivKeyPem draws) (Waiting node serverPrivKeyPem draws)
      (fun t r => match r with
        | .ok id => ∃ c : Credentials, t = opening draws++identification serverPrivKeyPem c ∧
            52 ≤ c.plaintext.length ∧ slice c.plaintext 0 40 = draws.nonce ∧
            id = (c.coreId,c.inlineDer) ∧ Going node serverPrivKeyPem draws t
        | .error _ => Halted node serverPrivKeyPem draws t) t
      (readCoreId serverPrivKeyPem draws.nonce) := by
  obtain ⟨rfl,h⟩ := h
  have h1 := h.quiet (i := .note (.stage .readCoreId)) rfl id
  refine ⟨h,⟨h1,by simp [opening,reads]⟩,?_⟩
  intro r
  cases r with
  | error e => exact h1.halted rfl (no_frame (by simp [opening,reads]))
  | ok ciphertext =>
      have h2 := h1.quiet (i := .read 256 (.ok ciphertext)) rfl (by simp [Refuses])
      refine ⟨⟨h2,by simp [opening,reads]⟩,?_⟩
      intro a
      obtain e | plaintext := (a : Except JsError Bytes)
      · exact h2.halted rfl (no_frame (by simp [opening,reads]))
      · have hread : (reads (opening draws++[.note (.stage .readCoreId)]++[.read 256 (.ok ciphertext)]++
            [.call (.decrypt serverPrivKeyPem ciphertext) (Except.ok plaintext)])).length < 3 := by
          simp [opening,reads]
        by_cases hlong : plaintext.length < 52
        · change Keeps _ _ _ _ (if plaintext.length < 52 then _ else _)
          rw [if_pos hlong]
          exact h2.halted rfl (no_frame hread)
        · change Keeps _ _ _ _ (if plaintext.length < 52 then _ else _)
          rw [if_neg hlong]
          by_cases hnonce : slice plaintext 0 40 = draws.nonce
          · rw [if_neg (not_not.mpr hnonce)]
            have h3 := h2.quiet (i := .call (.decrypt serverPrivKeyPem ciphertext) (Except.ok plaintext))
              rfl (not_refuses_decrypt (by omega) hnonce)
            have h4 := h3.quiet (i := .note (.coreId (toHex (slice plaintext 40 52)))) rfl id
            refine ⟨h3,⟨ciphertext,plaintext,"",[],[]⟩,?_,by simpa using hlong,hnonce,rfl,h4⟩
            simp [identification,Credentials.coreId]
          · rw [if_pos hnonce]
            exact h2.halted rfl (no_frame hread)

theorem getCoreKey_keeps {c : Credentials} {t : History}
    (h : t = opening draws++identification serverPrivKeyPem c ∧ 52 ≤ c.plaintext.length ∧
      slice c.plaintext 0 40 = draws.nonce ∧ Going node serverPrivKeyPem draws t) :
    Keeps (Going node serverPrivKeyPem draws) (Waiting node serverPrivKeyPem draws)
      (fun t r => match r with
        | .ok key => ∃ d : Credentials, d.Valid draws ∧ d.key = key ∧ d.coreId = c.coreId ∧
            t = opening draws++identification serverPrivKeyPem d++keyLookup d ∧
            Going node serverPrivKeyPem draws t
        | .error _ => Halted node serverPrivKeyPem draws t) t
      (getCoreKey c.coreId c.inlineDer) := by
  obtain ⟨rfl,hlong,hnonce,h⟩ := h
  have h1 := h.quiet (i := .note (.stage .getCoreKey)) rfl id
  refine ⟨h,⟨h1,by simp [opening,identification,reads]⟩,?_⟩
  intro a
  obtain e | found := (a : Except JsError (Option String))
  · exact h1.halted rfl (no_frame (by simp [opening,identification,reads]))
  · cases found with
    | none => exact h1.halted rfl (no_frame (by simp [opening,identification,reads]))
    | some key =>
        change Keeps _ _ _ _ (if key = "" then _ else _)
        by_cases hkey : key = ""
        · rw [if_pos hkey]
          exact h1.halted rfl (no_frame (by simp [opening,identification,reads]))
        · rw [if_neg hkey]
          have h2 := h1.quiet (i := .call (.loadCoreKey c.coreId c.inlineDer) (Except.ok (some key)))
            rfl (not_refuses_loadCoreKey hkey)
          refine ⟨{ c with key },⟨hlong,hnonce,hkey⟩,rfl,rfl,?_,h2⟩
          simp [keyLookup,identification,Credentials.coreId,Credentials.inlineDer]

theorem sendSessionKey_keeps {c : Credentials} {t : History}
    (h : c.Valid draws ∧ t = opening draws++identification serverPrivKeyPem c++keyLookup c ∧
      Going node serverPrivKeyPem draws t) :
    Keeps (Going node serverPrivKeyPem draws) (Waiting node serverPrivKeyPem draws)
      (fun t r => match r with
        | .ok aes => ∃ d : Credentials, d.Valid draws ∧ aes = initialParams draws ∧
            d.coreId = c.coreId ∧ t = transcript node serverPrivKeyPem draws d ∧
            Going node serverPrivKeyPem draws t
        | .error _ => Halted node serverPrivKeyPem draws t) t
      (sendSessionKey node serverPrivKeyPem c.key draws.sessionKey) := by
  obtain ⟨hc,rfl,h⟩ := h
  have h1 := h.quiet (i := .note (.stage .sendSessionKey)) rfl id
  refine ⟨h,⟨h1,by simp [opening,identification,keyLookup,reads]⟩,?_⟩
  intro a
  obtain e | sessionCiphertext := (a : Except JsError Bytes)
  · exact h1.halted rfl (no_frame (by simp [opening,identification,keyLookup,reads]))
  · have h2 := h1.quiet (i := .call (.encrypt c.key draws.sessionKey) (Except.ok sessionCiphertext))
      rfl (by simp [Refuses])
    refine ⟨⟨h2,by simp [opening,identification,keyLookup,reads]⟩,?_⟩
    intro a
    obtain e | signature := (a : Except JsError Bytes)
    · exact h2.halted rfl (no_frame (by simp [opening,identification,keyLookup,reads]))
    · have h3 := h2.quiet (i := .call (.sign serverPrivKeyPem (hmacSha1 node sessionCiphertext
        draws.sessionKey)) (Except.ok signature)) rfl (by simp [Refuses])
      refine ⟨h3,?_⟩
      change Keeps _ _ _ _ (settled (deriveAesParams draws.sessionKey))
      rw [deriveAesParams_ok draws.sessionKey_length]
      let full : Credentials := { c with sessionCiphertext, signature }
      have hfull : full.Valid draws := ⟨hc.long,hc.nonce,hc.key⟩
      refine ⟨full,hfull,rfl,rfl,?_,?_⟩
      · simp [transcript,disclosure,keyLookup,identification,Credentials.coreId,Credentials.inlineDer,full]
      · refine ⟨?_,.inr (.inr ⟨full,hfull,[],?_⟩)⟩
        · intro j hj
          rcases List.mem_append.mp hj with hj | hj
          · exact h3.1 j hj
          · obtain rfl := List.mem_singleton.mp hj
            exact id
        · simp [transcript,disclosure,keyLookup,identification,Credentials.coreId,
            Credentials.inlineDer,full]

theorem openHello_ok {frame : Bytes} {hello : HelloIn}
    (h : openHello node (initialParams draws) frame = .ok hello) :
    ∃ msg, Opens node draws frame msg ∧ hello = helloIn frame msg := by
  unfold openHello at h
  split at h
  · cases h
  · next plain ha =>
      split at h
      · cases h
      · next msg hd => exact ⟨msg,⟨plain,ha,hd⟩,(Except.ok.inj h).symm⟩

theorem openHello_error {frame : Bytes} {e : JsError}
    (h : openHello node (initialParams draws) frame = .error e) (msg : CoapMessage JsNumber) :
    ¬ Opens node draws frame msg := by
  rintro ⟨plain,ha,hd⟩
  simp [openHello,ha,hd] at h

theorem getHello_keeps {c : Credentials} {t : History}
    (h : c.Valid draws ∧ t = transcript node serverPrivKeyPem draws c ∧
      Going node serverPrivKeyPem draws t) :
    Keeps (Going node serverPrivKeyPem draws) (Waiting node serverPrivKeyPem draws)
      (fun t r => match r with
        | .ok hello => ∃ k : Completion, k.credentials = c ∧
            Opens node draws k.helloFrame k.hello ∧ hello = helloIn k.helloFrame k.hello ∧
            t = k.greeted node serverPrivKeyPem draws ∧ Going node serverPrivKeyPem draws t
        | .error _ => Halted node serverPrivKeyPem draws t) t
      (getHello node (initialParams draws)) := by
  obtain ⟨hc,rfl,h⟩ := h
  have hr : reads (transcript node serverPrivKeyPem draws c) = [c.ciphertext] := rfl
  have h1 := h.quiet (i := .note (.stage .getHello)) rfl id
  refine ⟨h,⟨h1,by simp [hr,reads]⟩,?_⟩
  intro r
  cases r with
  | error e => exact h1.halted rfl (no_frame (by simp [hr,reads]))
  | ok head =>
      have h2 := h1.quiet (i := .read 3 (.ok head)) rfl (by simp [Refuses])
      change Keeps _ _ _ _ ((settled (readUInt16BE head 0) >>= readBytes) >>= _)
      cases readUInt16BE head 0 with
      | error e => exact h1.halted rfl (no_frame (by simp [hr,reads]))
      | ok size =>
          refine ⟨⟨h2,by simp [hr,reads]⟩,?_⟩
          intro r
          cases r with
          | error e => exact h2.halted rfl (no_frame (by simp [hr,reads]))
          | ok body =>
              have h3 := h2.quiet (i := .read size (.ok body)) rfl (by simp [Refuses])
              change Keeps _ _ _ _ (settled (openHello node (initialParams draws) body))
              cases ho : openHello node (initialParams draws) body with
              | error e =>
                  apply h2.halted rfl
                  intro ct head' body' hl
                  simp only [reads_append,hr,reads,List.append_nil,List.cons_append,
                    List.nil_append,List.cons.injEq,and_true] at hl
                  obtain ⟨-,-,rfl⟩ := hl
                  exact openHello_error ho
              | ok hello =>
                  obtain ⟨msg,hopen,rfl⟩ := openHello_ok ho
                  exact ⟨⟨c,head,size,body,msg,0,[]⟩,rfl,hopen,rfl,by
                    simp [Completion.greeted],h3⟩

/-- Nothing can go wrong in stage 6. -/
theorem sendHello_eq (node : Primitives) (draws : Draws) : ∃ counter reply,
    readUInt16BE draws.counter 0 = .ok counter ∧
    aesEncrypt node (initialParams draws).key (initialParams draws).iv (helloBytes counter) =
      .ok reply ∧
    sendHello node (initialParams draws) draws.counter =
      .note (.stage .sendHello) (.write (frame [] reply) (.note (.stage .done)
        (.done ⟨counter,firstBlock reply⟩))) := by
  have hcounter : ∃ n, readUInt16BE draws.counter 0 = .ok n := by
    match hd : draws.counter,draws.counter_length with
    | [hi,lo],_ => exact ⟨word16 hi lo,rfl⟩
  obtain ⟨counter,hn⟩ := hcounter
  obtain ⟨hk,hi⟩ := initialParams_lengths draws
  obtain ⟨reply,hreply⟩ := aesEncrypt_total node hk hi (helloBytes counter)
  have henc : encode (helloMessage counter []) = .ok (helloBytes counter) :=
    encode_helloMessage counter []
  have hlen : reply.length < 65536 := by
    rw [aesEncrypt_length hreply]
    simp [helloBytes,header_length]
  have hframe : encodeFrame reply = .ok (frame [] reply) := encodeFrame_eq_ok.mpr ⟨hlen,rfl⟩
  refine ⟨counter,reply,hn,hreply,?_⟩
  simp only [sendHello,leave,writeFrame,StreamPrograms.Program.send,hn,henc,hreply,hframe,settled_ok,
    bind_note,bind_done,bind_write,pure_eq]

theorem runHandshake_keeps (node : Primitives) (serverPrivKeyPem : String) (draws : Draws) :
    Keeps (Going node serverPrivKeyPem draws) (Waiting node serverPrivKeyPem draws)
      (fun t r => match r with
        | .ok r => ∃ k : Completion, k.Valid node draws ∧ r = k.result draws ∧
            t = k.history node serverPrivKeyPem draws ∧ Going node serverPrivKeyPem draws t
        | .error _ => Halted node serverPrivKeyPem draws t) []
      (runHandshake node serverPrivKeyPem draws) := by
  apply sendNonce_keeps.bind
  case error => exact fun t e h => ⟨fun i hi => h.2.1 i (List.dropLast_subset t hi),h.2.2,by
    rw [h.1]
    exact no_frame (by simp [opening,reads])⟩
  intro t _ h
  apply (readCoreId_keeps h).bind
  case error => exact fun _ _ h => h
  rintro t _ ⟨c,ht,hlong,hnonce,rfl,hg⟩
  apply (getCoreKey_keeps ⟨ht,hlong,hnonce,hg⟩).bind
  case error => exact fun _ _ h => h
  rintro t _ ⟨d,hd,rfl,hid,ht,hg⟩
  rw [← hid]
  apply (sendSessionKey_keeps ⟨hd,ht,hg⟩).bind
  case error => exact fun _ _ h => h
  rintro t _ ⟨c,hc,rfl,hid,ht,hg⟩
  rw [← hid]
  apply (getHello_keeps ⟨hc,ht,hg⟩).bind
  case error => exact fun _ _ h => h
  rintro t _ ⟨k,rfl,hopen,rfl,rfl,hg⟩
  obtain ⟨counter,reply,hn,hreply,hsend⟩ := sendHello_eq node draws
  rw [hsend]
  let done : Completion := { k with counter, reply }
  have hgreet : k.greeted node serverPrivKeyPem draws = done.greeted node serverPrivKeyPem draws := rfl
  have hloud : ∃ c : Credentials, c.Valid draws ∧ ∃ u,
      k.greeted node serverPrivKeyPem draws++[.note (.stage .sendHello)] =
        transcript node serverPrivKeyPem draws c++u := by
    refine ⟨k.credentials,hc,[.note (.stage .getHello),.read 3 (.ok k.head),
      .read k.size (.ok k.helloFrame),.note (.stage .sendHello)],?_⟩
    simp [Completion.greeted]
  have h1 := hg.quiet (i := .note (.stage .sendHello)) rfl id
  have h2 := h1.loud (b := frame [] reply) hloud
  have h3 := h2.quiet (i := .note (.stage .done)) rfl id
  refine ⟨hg,h1,h2,done,⟨hc,hopen,hn,hreply⟩,rfl,?_,h3⟩
  simp [Completion.history,hgreet,done]

/-- At every point of every run: what was disclosed was due, a failed check was the
last thing that happened, and a resolved run is a completed one. -/
theorem secrets_follow_checks {t : History} {q : Exchange HandshakeResult}
    (h : Runs (runHandshake node serverPrivKeyPem draws) t q) :
    Disclosed node serverPrivKeyPem draws t ∧
      (∀ s i u, t = s++i::u → Refuses draws i → u = [] ∧ ∃ e, q = .fail e) ∧
      ∀ r, q = .done r → ∃ k : Completion, k.Valid node draws ∧ r = k.result draws ∧
        t = k.history node serverPrivKeyPem draws := by
  have passed : Going node serverPrivKeyPem draws t →
      ∀ s i u, t = s++i::u → Refuses draws i → u = [] ∧ ∃ e, q = .fail e := by
    rintro hg s i u rfl hi
    exact absurd hi (hg.1 i (by simp))
  rcases ((runHandshake_keeps node serverPrivKeyPem draws).sound h).now with
    ⟨hw,hg⟩ | ⟨hnone,-,hg⟩ | ⟨r,hr,hpost⟩
  · refine ⟨hg.1.2,passed hg.1,?_⟩
    rintro r rfl
    exact hw.elim
  · refine ⟨hg.2,passed hg,?_⟩
    rintro r rfl
    cases hnone
  · cases r with
    | ok r =>
        obtain ⟨k,hk,hres,ht,hg⟩ := hpost
        refine ⟨hg.2,passed hg,?_⟩
        intro r' hq
        rw [outcome_ok hr] at hq
        obtain rfl := Program.done.inj hq
        exact ⟨k,hk,hres,ht⟩
    | error e =>
        obtain ⟨hlast,hd,-⟩ := hpost
        have hq := outcome_error hr
        refine ⟨hd,?_,by simp [hq]⟩
        rintro s i u rfl hi
        refine ⟨?_,e,hq⟩
        by_contra hu
        refine hlast i ?_ hi
        rw [List.nil_append,List.dropLast_append_of_ne_nil (by simp),List.dropLast_cons_of_ne_nil hu]
        simp

theorem reads_history (k : Completion) :
    reads (k.history node serverPrivKeyPem draws) =
      [k.credentials.ciphertext,k.head,k.helloFrame] := rfl

theorem reads_effects (l : List (Effect Note)) : reads (l.map Effect.item) = [] := by
  induction l with
  | nil => rfl
  | cons x l ih => cases x <;> exact ih

/-- Stage 5 is decided by the frame alone: any CoAP message in it will do. -/
theorem hello_frame_decides {t : History} {q : Exchange HandshakeResult}
    (h : Runs (runHandshake node serverPrivKeyPem draws) t q) :
    (∀ r, q = .done r → ∃ ct head body msg, reads t = [ct,head,body] ∧ Opens node draws body msg ∧
        r.recvCounter = msg.messageId ∧ r.ivIn = firstBlock body) ∧
      ∀ ct head body, reads t = [ct,head,body] →
        ((∃ msg, Opens node draws body msg) → ∃ r, q.burst.2 = .done r) ∧
        ((∀ msg, ¬ Opens node draws body msg) → ∃ e, q.burst.2 = .fail e) := by
  constructor
  · intro r hq
    obtain ⟨k,hk,rfl,rfl⟩ := (secrets_follow_checks h).2.2 r hq
    exact ⟨_,_,_,k.hello,reads_history k,hk.opens,rfl,rfl⟩
  · intro ct head body hr
    -- what is left of the run after the frame is effects only
    have hb := h.append (runs_burst q)
    have hrb : reads (t++q.burst.1.map Effect.item) = [ct,head,body] := by
      rw [reads_append,reads_effects,List.append_nil,hr]
    rcases ((runHandshake_keeps node serverPrivKeyPem draws).sound hb).now with
      ⟨-,-,hlt⟩ | ⟨hnone,hnw,-⟩ | ⟨r,hout,hpost⟩
    · rw [List.nil_append,hrb] at hlt
      simp at hlt
    · rcases burst_settles q with hw | ⟨r,hs⟩
      · exact absurd hw hnw
      · rw [hs] at hnone
        cases hnone
    · cases r with
      | ok r =>
          refine ⟨fun _ => ⟨r,outcome_ok hout⟩,fun hno => ?_⟩
          obtain ⟨k,hk,-,ht,-⟩ := hpost
          rw [List.nil_append] at ht
          rw [ht,reads_history k] at hrb
          obtain ⟨-,-,rfl⟩ : _ ∧ _ ∧ k.helloFrame = body := by simpa using hrb
          exact absurd hk.opens (hno k.hello)
      | error e =>
          refine ⟨fun ⟨msg,hopen⟩ => ?_,fun _ => ⟨e,outcome_error hout⟩⟩
          exact absurd hopen (hpost.2.2 ct head body (by simpa using hrb) msg)

/-- The two initial vectors of a session are whole blocks, and it has an id. -/
theorem Completion.Valid.lengths {k : Completion} (h : k.Valid node draws) :
    (k.result draws).aesKey.length = 16 ∧ (k.result draws).ivIn.length = 16 ∧
      (k.result draws).ivOut.length = 16 ∧ (k.result draws).coreId ≠ "" := by
  obtain ⟨plain,ha,hd⟩ := h.opens
  have hne : k.helloFrame ≠ [] := by
    intro hnil
    obtain ⟨hk,hi⟩ := initialParams_lengths draws
    rw [hnil,aesDecrypt_nil node hk hi] at ha
    cases ha
    cases hd
  refine ⟨(initialParams_lengths draws).1,aesDecrypt_firstBlock ha hne,
    aesEncrypt_firstBlock h.reply,?_⟩
  intro hid
  have hlen := slice_length k.credentials.plaintext 40 52
  have hlong := h.credentials.long
  have hnil : slice k.credentials.plaintext 40 52 = [] := toHex_injective (b := []) hid
  rw [hnil] at hlen
  simp at hlen
  omega

end Stages

/-- The stream of a device that says Hello, and of one that pings instead. -/
def helloStream : Bytes :=
  List.replicate 256 0++[0,16,0xFF,0x50,2,0,1,0xB1,0x68]++List.replicate 10 10

def pingStream : Bytes := List.replicate 256 0++[0,16,0xFF,0x40,0,0,1]++List.replicate 12 12

def fedPlain (b : Bytes) : Fed Note Call Answer JsError HandshakeResult :=
  feed plainAnswer (runHandshake plainNode "server" zeroDraws) b

theorem secrets_follow_checks_plain :
    Disclosed plainNode "server" zeroDraws (fedPlain helloStream).trace ∧
      (∀ s i u, (fedPlain helloStream).trace = s++i::u → Refuses zeroDraws i →
        u = [] ∧ ∃ e, (fedPlain helloStream).program = .fail e) ∧
      ∀ r, (fedPlain helloStream).program = .done r → ∃ k : Completion, k.Valid plainNode zeroDraws ∧
        r = k.result zeroDraws ∧
        (fedPlain helloStream).trace = k.history plainNode "server" zeroDraws :=
  secrets_follow_checks (feed_runs _ _)

theorem hello_frame_decides_plain :
    (∀ r, (fedPlain helloStream).program = .done r → ∃ ct head body msg,
        reads (fedPlain helloStream).trace = [ct,head,body] ∧ Opens plainNode zeroDraws body msg ∧
        r.recvCounter = msg.messageId ∧ r.ivIn = firstBlock body) ∧
      ∀ ct head body, reads (fedPlain helloStream).trace = [ct,head,body] →
        ((∃ msg, Opens plainNode zeroDraws body msg) →
          ∃ r, (fedPlain helloStream).program.burst.2 = .done r) ∧
        ((∀ msg, ¬ Opens plainNode zeroDraws body msg) →
          ∃ e, (fedPlain helloStream).program.burst.2 = .fail e) :=
  hello_frame_decides (feed_runs _ _)

/-- A ping in the place of the Hello completes the handshake. -/
theorem ping_completes : ¬ ∀ (node : Primitives) (serverPrivKeyPem : String) (draws : Draws)
    (t : History) (r : HandshakeResult), Runs (runHandshake node serverPrivKeyPem draws) t (.done r) →
    ∃ ct head body msg, reads t = [ct,head,body] ∧ Opens node draws body msg ∧
      classify msg = some .hello := by
  intro h
  have hdone : ∃ r, (fedPlain pingStream).program.outcome = some (.ok r) := by
    have hsome : ((fedPlain pingStream).program.outcome.bind Except.toOption).isSome = true := by
      decide +kernel
    obtain ⟨r,hr⟩ := Option.isSome_iff_exists.mp hsome
    obtain ⟨o,ho,hor⟩ := Option.bind_eq_some_iff.mp hr
    cases o with
    | ok r => exact ⟨r,ho⟩
    | error e => cases hor
  obtain ⟨r,hr⟩ := hdone
  have hruns : Runs (runHandshake plainNode "server" zeroDraws) (fedPlain pingStream).trace
      (fedPlain pingStream).program := feed_runs _ _
  rw [outcome_ok hr] at hruns
  obtain ⟨ct,head,body,msg,hreads,⟨plain,ha,hd⟩,hc⟩ := h _ _ _ _ _ hruns
  have hlast : (reads (fedPlain pingStream).trace).getLast? =
      some ([0x40,0,0,1]++List.replicate 12 12) := by
    decide +kernel
  have hbody : body = [0x40,0,0,1]++List.replicate 12 12 := by
    have hl : (reads (fedPlain pingStream).trace).getLast? = some body := by
      rw [show reads (fedPlain pingStream).trace = [ct,head,body] from hreads]
      rfl
    exact Option.some.inj (hl.symm.trans hlast)
  have hping : (aesDecrypt plainNode (initialParams zeroDraws).key (initialParams zeroDraws).iv
      ([0x40,0,0,1]++List.replicate 12 12)).bind decode =
        .ok { type := 0, code := 0, messageId := 1 } := by
    decide +kernel
  rw [hbody] at ha
  rw [ha] at hping
  obtain rfl := Except.ok.inj (hd.symm.trans hping)
  cases hc

end SparkProtocol.Handshake
