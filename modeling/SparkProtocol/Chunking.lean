import SparkProtocol.FramedStreams
import SparkProtocol.HostValues

/-!
# The two frame shapes

The directions are asymmetric. A server frame is its length and its body; a
device frame carries one sync byte between them. Both refuse a body longer than
the 16-bit length can say.
-/
namespace SparkProtocol.Chunking
open ByteStrings HostValues FramedStreams

def syncByte : UInt8 := 0xFF

def exceedsPrefix (n : ℕ) : JsError :=
  { message := "payload " ++ toString n ++ " bytes exceeds 16-bit length prefix",
    name := "RangeError" }

/-- `[len_hi][len_lo][payload]`, server to device. -/
def encodeFrame (payload : Bytes) : Except JsError Bytes :=
  if payload.length > 0xFFFF then .error (exceedsPrefix payload.length) else .ok (frame [] payload)

/-- `[len_hi][len_lo][0xFF][payload]`, device to server. -/
def encodeDeviceFrame (payload : Bytes) : Except JsError Bytes :=
  if payload.length > 0xFFFF then .error (exceedsPrefix payload.length)
  else .ok (frame [syncByte] payload)

theorem encodeFrame_eq_ok {payload f : Bytes} :
    encodeFrame payload = .ok f ↔ payload.length < 65536 ∧ f = frame [] payload := by
  unfold encodeFrame
  split_ifs with h
  · simp only [false_iff]
    omega
  · simp only [Except.ok.injEq,eq_comm (a := f)]
    exact ⟨fun he => ⟨by omega,he⟩,fun he => he.2⟩

theorem encodeDeviceFrame_eq_ok {payload f : Bytes} :
    encodeDeviceFrame payload = .ok f ↔ payload.length < 65536 ∧ f = frame [syncByte] payload := by
  unfold encodeDeviceFrame
  split_ifs with h
  · simp only [false_iff]
    omega
  · simp only [Except.ok.injEq,eq_comm (a := f)]
    exact ⟨fun he => ⟨by omega,he⟩,fun he => he.2⟩

end SparkProtocol.Chunking
