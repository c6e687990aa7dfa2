import SparkProtocol.Coap

/-!
# Named messages

The vocabulary is one table from names to code, type and Uri-Path. Outbound it
supplies the fields of a message; inbound, `classify` searches it in order for
the code and the first Uri-Path segment. A path in the table is one ASCII
letter, and the UTF-8 text of a segment equals such a letter exactly when the
segment is that single byte, so segments are compared as bytes.
-/
namespace SparkProtocol.Messages
open ByteStrings HostValues Coap

inductive MessageName where
  | hello | keyChange | updateBegin | chunk | updateDone | functionCall | variableRequest
  | privateEvent | publicEvent | synergyProtocol | attributeMessage | describe | getTime
  | raiseYourHand | ping | getTimeReturn
  deriving DecidableEq, Repr

structure MessageSpec where
  code : ℤ
  type : ℤ
  uri : Option Bytes := none
  deriving DecidableEq, Repr

/-- The text of a path letter. -/
def letter (c : Char) : Option Bytes := some [UInt8.ofNat c.toNat]

open MsgType Code MessageName in
def messageSpec : MessageName → MessageSpec
  | hello => ⟨POST,NON,letter 'h'⟩
  | keyChange => ⟨PUT,CON,letter 'k'⟩
  | updateBegin => ⟨POST,CON,letter 'u'⟩
  | chunk => ⟨POST,CON,letter 'c'⟩
  | updateDone => ⟨PUT,CON,letter 'u'⟩
  | functionCall => ⟨POST,CON,letter 'f'⟩
  | variableRequest => ⟨GET,CON,letter 'v'⟩
  | privateEvent => ⟨POST,NON,letter 'E'⟩
  | publicEvent => ⟨POST,NON,letter 'e'⟩
  | synergyProtocol => ⟨POST,NON,letter 'm'⟩
  | attributeMessage => ⟨POST,NON,letter 'a'⟩
  | describe => ⟨GET,CON,letter 'd'⟩
  | getTime => ⟨GET,CON,letter 't'⟩
  | raiseYourHand => ⟨PUT,CON,letter 's'⟩
  | ping => ⟨Empty,CON,none⟩
  | getTimeReturn => ⟨Content,ACK,none⟩

/-- The order of `Object.entries(Messages)`. -/
def messageNames : List MessageName :=
  [.hello,.keyChange,.updateBegin,.chunk,.updateDone,.functionCall,.variableRequest,
    .privateEvent,.publicEvent,.synergyProtocol,.attributeMessage,.describe,.getTime,.raiseYourHand,
    .ping,.getTimeReturn]

def MessageName.text : MessageName → String
  | hello => "Hello"
  | keyChange => "KeyChange"
  | updateBegin => "UpdateBegin"
  | chunk => "Chunk"
  | updateDone => "UpdateDone"
  | functionCall => "FunctionCall"
  | variableRequest => "VariableRequest"
  | privateEvent => "PrivateEvent"
  | publicEvent => "PublicEvent"
  | synergyProtocol => "SynergyProtocol"
  | attributeMessage => "Attribute"
  | describe => "Describe"
  | getTime => "GetTime"
  | raiseYourHand => "RaiseYourHand"
  | ping => "Ping"
  | getTimeReturn => "GetTimeReturn"

def classify (decoded : CoapMessage JsNumber) : Option MessageName :=
  if decoded.code = Code.Empty ∧ decoded.type = MsgType.CON then some .ping
  else
    match decoded.options.find? fun o => o.number = .nat UriPath with
    | none => none
    | some firstUriPath =>
        messageNames.find? fun name =>
          (messageSpec name).uri = some firstUriPath.value ∧ (messageSpec name).code = decoded.code

/-- The special case of the table search: nothing but an empty confirmable
message is a ping, since the table's ping has no path to match. -/
theorem classify_eq_ping {decoded : CoapMessage JsNumber} :
    classify decoded = some .ping ↔ decoded.code = Code.Empty ∧ decoded.type = MsgType.CON := by
  unfold classify
  split_ifs with h
  · simp [h]
  · simp only [h,iff_false]
    split
    · simp
    · intro hf
      have hp := List.find?_some hf
      simp [messageSpec] at hp

end SparkProtocol.Messages
