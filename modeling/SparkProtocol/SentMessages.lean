import SparkProtocol.FailedSends
import SparkProtocol.CoapRoundTrip

/-!
# Messages under their names

A send takes code and path from the table and the rest from the caller, whose options
come after the path of the table. Sorting moves options of other numbers only, so the
first path segment on the wire is that of the table, and code and path together name
one entry of it.
-/
namespace SparkProtocol.Sessions
open ByteStrings HostValues StreamPrograms Program Crypto Chunking Coap Messages Handshake
  ByteQueues OrderedMaps FramedStreams BlockChaining LabelledRuns Session

/-- The values of the path segments, in order. -/
def uriPaths (options : List (CoapOption JsNumber)) : List Bytes :=
  (options.filter fun o => o.number = .nat UriPath).map CoapOption.value

/-- No two entries of the table with a path have both code and path in common. -/
theorem find_messageSpec {name : MessageName} {u : Bytes} (h : (messageSpec name).uri = some u) :
    messageNames.find? (fun other =>
      (messageSpec other).uri = some u ∧ (messageSpec other).code = (messageSpec name).code) =
        some name := by
  rw [← h]
  cases name with
  | ping => cases h
  | getTimeReturn => cases h
  | _ => rfl

theorem messageSpec_code {name : MessageName} {u : Bytes} (h : (messageSpec name).uri = some u) :
    (messageSpec name).code ≠ Code.Empty ∧
      (messageSpec name).code%256 = (messageSpec name).code := by
  cases name with
  | ping => cases h
  | _ => exact ⟨by decide,rfl⟩

/-- The code and the first segment of an entry find its name. -/
theorem classify_of_path {decoded : CoapMessage JsNumber} {name : MessageName} {u : Bytes}
    {rest : List Bytes} (hu : (messageSpec name).uri = some u)
    (hc : decoded.code = (messageSpec name).code) (hp : uriPaths decoded.options = u::rest) :
    classify decoded = some name := by
  obtain ⟨first,others,hf,rfl,-⟩ := List.map_eq_cons_iff.mp hp
  have hfind : decoded.options.find? (fun o => o.number = .nat UriPath) = some first := by
    rw [← List.head?_filter,hf,List.head?_cons]
  unfold classify
  rw [if_neg fun h => (messageSpec_code hu).1 (hc.symm.trans h.1),hfind,hc]
  exact find_messageSpec hu

/-- Sorting leaves the path segments in their order. -/
theorem uriPaths_sorted {options sorted : List (CoapOption ℕ)} (h : StablySorted options sorted) :
    uriPaths (sorted.map CoapOption.js) = uriPaths (options.map CoapOption.js) := by
  have hfilter : ∀ l : List (CoapOption ℕ),
      (l.map CoapOption.js).filter (fun o => o.number = .nat UriPath) =
        (l.filter fun o => o.number = UriPath).map CoapOption.js := by
    intro l
    rw [List.filter_map]
    refine congrArg _ (List.filter_congr fun o _ => ?_)
    simp [CoapOption.js]
  simp only [uriPaths,hfilter,h.stable]

theorem uriPaths_outbound {spec : MessageSpec} {u : Bytes} (hu : spec.uri = some u)
    (opts : SendOptions) (messageId : ℤ) :
    uriPaths ((outbound spec opts messageId).options.map CoapOption.js) =
      u::uriPaths (opts.options.map CoapOption.js) := by
  simp [outbound,hu,uriPaths,CoapOption.js]

/-- The message that a send under this name and with this id is read as. -/
structure ReadsAs (name : MessageName) (u : Bytes) (opts : SendOptions) (messageId : ℤ)
    (msg : CoapMessage JsNumber) : Prop where
  name : classify msg = some name
  messageId : msg.messageId = messageId
  token : msg.token = opts.token
  payload : msg.payload = opts.payload
  path : uriPaths msg.options = u::uriPaths (opts.options.map CoapOption.js)

theorem outbound_reads {name : MessageName} {u plain : Bytes} {opts : SendOptions} {messageId : ℤ}
    (hu : (messageSpec name).uri = some u) (hid : messageId%65536 = messageId)
    (hp : encode (outbound (messageSpec name) opts messageId) = .ok plain) :
    ∃ msg, decode plain = .ok msg ∧ ReadsAs name u opts messageId msg := by
  have hpath := (uriPaths_sorted (insertionSort_stablySorted _)).trans
    (uriPaths_outbound hu opts messageId)
  exact ⟨_,(encode_wire hp).decodes,classify_of_path hu (messageSpec_code hu).2 hpath,hid,rfl,rfl,
    hpath⟩

theorem allocate_word (s : Session) (messageId : Option ℤ) :
    (s.allocate messageId).1%65536 = (s.allocate messageId).1 := by
  cases messageId <;> exact Int.emod_emod_of_dvd _ (Int.dvd_refl _)

/-- A message that encodes comes to the cipher, once. -/
theorem send_plainOut (node : Primitives) {s : Session} {name : MessageKey} {opts : SendOptions}
    {spec : MessageSpec} {plain : Bytes} (hspec : name.spec = some spec)
    (hp : encoded s opts spec = .ok plain) :
    (∃ l, (∀ p, Out.plainOut p ∉ l) ∧
      (s.send node name opts).1.trace = s.trace++.plainOut plain::l) ∧
    ∀ r, (s.send node name opts).2 = .ok r → r = (s.allocate opts.messageId).1 := by
  obtain ⟨-,-,htrace⟩ := allocate_channel s opts.messageId
  have ha := send_attempt node s name opts
  generalize s.send node name opts = r at ha ⊢
  cases ha with
  | unknown hn => cases hspec.symm.trans hn
  | unencodable hs he =>
      obtain rfl := Option.some.inj (hspec.symm.trans hs)
      cases hp.symm.trans he
  | refused hs he _ =>
      obtain rfl := Option.some.inj (hspec.symm.trans hs)
      obtain rfl := Except.ok.inj (hp.symm.trans he)
      exact ⟨⟨[],by simp,by simp [log,htrace]⟩,fun _ hr => by cases hr⟩
  | oversize hs he _ _ =>
      obtain rfl := Option.some.inj (hspec.symm.trans hs)
      obtain rfl := Except.ok.inj (hp.symm.trans he)
      exact ⟨⟨[],by simp,by simp [log,htrace]⟩,fun _ hr => by cases hr⟩
  | sent hs he _ _ =>
      obtain rfl := Option.some.inj (hspec.symm.trans hs)
      obtain rfl := Except.ok.inj (hp.symm.trans he)
      exact ⟨⟨[_],by simp,rfl⟩,fun _ hr => (Except.ok.inj hr).symm⟩

/-- What a send under a name with a path encrypts is read as a message of that name,
with the caller's path segments after the one of the table. -/
theorem send_reads {name : MessageName} {u plain : Bytes} {s : Session} {opts : SendOptions}
    (hu : (messageSpec name).uri = some u) (hp : encoded s opts (messageSpec name) = .ok plain)
    (node : Primitives) :
    (∃ l, (∀ p, Out.plainOut p ∉ l) ∧
      (s.send node (.named name) opts).1.trace = s.trace++.plainOut plain::l) ∧
    (∀ r, (s.send node (.named name) opts).2 = .ok r → r = (s.allocate opts.messageId).1) ∧
    ∃ msg, decode plain = .ok msg ∧ ReadsAs name u opts (s.allocate opts.messageId).1 msg := by
  have hspec : (MessageKey.named name).spec = some (messageSpec name) := rfl
  obtain ⟨hsent,hid⟩ := send_plainOut node hspec hp
  exact ⟨hsent,hid,outbound_reads hu (allocate_word s opts.messageId) hp⟩

/-- A function call with an argument in the path and an option below it. -/
def functionCall : SendOptions :=
  { token := [9], payload := [1,2],
    options := [⟨UriPath,[0x67]⟩,⟨3,[0x68]⟩,⟨15,[0x71]⟩], messageId := some 70000 }

theorem send_reads_functionCall : ∃ plain msg, decode plain = .ok msg ∧
    ReadsAs .functionCall [0x66] functionCall 4464 msg ∧ uriPaths msg.options = [[0x66],[0x67]] := by
  have hp : (encoded {} functionCall (messageSpec .functionCall)).toOption.isSome = true := by
    decide +kernel
  obtain ⟨plain,hp⟩ := Option.isSome_iff_exists.mp hp
  obtain ⟨-,-,msg,hmsg,hreads⟩ := send_reads rfl (toOption_eq_some.mp hp) plainNode
  exact ⟨plain,msg,hmsg,hreads,hreads.path⟩

end SparkProtocol.Sessions
