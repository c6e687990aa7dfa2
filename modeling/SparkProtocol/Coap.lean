import SparkProtocol.HostValues
import Mathlib.Data.List.Sort

/-!
# The CoAP codec

Serialisation sorts the options by number, stably, and writes each as the gap to
its predecessor. Parsing walks the buffer by position. Its reads are those of
the host: an extension byte past the end makes the length or the number `NaN`,
the comparison with the buffer length is then false, and the walk ends without
an error. Only the word reads throw.

Numbers handed to `encode` are options numbers proper; numbers that `decode`
returns may be `NaN`, so the option type is generic in them.
-/
namespace SparkProtocol.Coap
open ByteStrings HostValues

namespace MsgType
def CON : ℤ := 0
def NON : ℤ := 1
def ACK : ℤ := 2
end MsgType

namespace Code
def Empty : ℤ := 0x00
def GET : ℤ := 0x01
def POST : ℤ := 0x02
def PUT : ℤ := 0x03
def Content : ℤ := 0x45
end Code

def UriPath : ℕ := 11

structure CoapOption (ν : Type) where
  number : ν
  value : Bytes
  deriving DecidableEq, Repr

structure CoapMessage (ν : Type) where
  type : ℤ
  code : ℤ
  messageId : ℤ
  token : Bytes := []
  options : List (CoapOption ν) := []
  payload : Bytes := []
  deriving DecidableEq, Repr

def nibble (v : ℕ) : ℕ := if v < 13 then v else if v < 269 then 13 else 14

/-- The bytes that follow the option header for one of its two numbers. -/
def extension (v : ℕ) : Except JsError Bytes :=
  if nibble v = 13 then .ok [UInt8.ofNat (v-13)]
  else if nibble v = 14 then writeUInt16BE (v-269)
  else .ok []

def encodeOptionHeader (delta len : ℕ) : Except JsError Bytes :=
  match extension delta,extension len with
  | .ok d,.ok l => .ok (UInt8.ofNat (nibble delta*16+nibble len)::(d++l))
  | .error e,_ => .error e
  | _,.error e => .error e

def encodeOptions : ℕ → List (CoapOption ℕ) → Except JsError Bytes
  | _,[] => .ok []
  | prev,opt::options =>
      if opt.number < prev then
        .error { message := "CoAP options must be in ascending order", name := "RangeError" }
      else
        match encodeOptionHeader (opt.number-prev) opt.value.length with
        | .error e => .error e
        | .ok head =>
            match encodeOptions opt.number options with
            | .error e => .error e
            | .ok rest => .ok (head++opt.value++rest)

/-- The four header bytes for a token of the given length. -/
def header (type code messageId : ℤ) (tokenLength : ℕ) : Bytes :=
  UInt8.ofNat (64+(type%4).toNat*16+tokenLength%16)::UInt8.ofNat (code%256).toNat::
    be16 (messageId%65536).toNat

/-- An empty payload leaves no marker behind. -/
def payloadBytes : Bytes → Bytes
  | [] => []
  | payload => 0xFF::payload

def encode (msg : CoapMessage ℕ) : Except JsError Bytes :=
  if msg.token.length > 8 then
    .error { message := "CoAP token max 8 bytes", name := "RangeError" }
  else
    match encodeOptions 0 (msg.options.insertionSort fun a b => a.number ≤ b.number) with
    | .error e => .error e
    | .ok options =>
        .ok (header msg.type msg.code msg.messageId msg.token.length++msg.token++options++
          payloadBytes msg.payload)

/-- A nibble with the extension it announces, and the position after it. -/
def extended (buf : Bytes) (v pos : ℕ) : Except JsError (JsNumber × ℕ) :=
  if v = 13 then .ok ((JsNumber.nat 13).add (byteAt buf pos),pos+1)
  else if v = 14 then
    match readUInt16BE buf pos with
    | .ok w => .ok (.nat (269+w),pos+2)
    | .error e => .error e
  else .ok (.nat v,pos)

/-- The option loop: the options from `pos` on and the position where it ends.
Each turn consumes a byte, so the buffer length is fuel enough. -/
def decodeOptions (buf : Bytes) : ℕ → ℕ → JsNumber → Except JsError (List (CoapOption JsNumber) × JsNumber)
  | 0,pos,_ => .ok ([],.nat pos)
  | fuel+1,pos,prev =>
      match buf[pos]? with
      | none => .ok ([],.nat pos)
      | some head =>
          if head = 0xFF then .ok ([],.nat (pos+1))
          else if head.toNat/16 = 15 ∨ head.toNat%16 = 15 then
            .error { message := "CoAP option uses reserved nibble 15" }
          else
            match extended buf (head.toNat/16) (pos+1) with
            | .error e => .error e
            | .ok (delta,pos) =>
                match extended buf (head.toNat%16) pos with
                | .error e => .error e
                -- `pos + NaN > buf.length` is false and `subarray(pos, NaN)` is empty
                | .ok (.nan,_) => .ok ([⟨prev.add delta,[]⟩],.nan)
                | .ok (.nat len,pos) =>
                    if pos+len > buf.length then
                      .error { message := "CoAP option value truncated" }
                    else
                      match decodeOptions buf fuel (pos+len) (prev.add delta) with
                      | .error e => .error e
                      | .ok (options,stop) =>
                          .ok (⟨prev.add delta,slice buf pos (pos+len)⟩::options,stop)

def decode (buf : Bytes) : Except JsError (CoapMessage JsNumber) :=
  match buf with
  | b0::b1::b2::b3::_ =>
      if b0.toNat/64%4 ≠ 1 then
        .error { message := "CoAP version " ++ toString (b0.toNat/64%4) ++ " unsupported" }
      else
        let tkl := b0.toNat%16
        if tkl > 8 then .error { message := "CoAP token length " ++ toString tkl ++ " > 8" }
        else if buf.length < 4+tkl then .error { message := "CoAP token truncated" }
        else
          match decodeOptions buf buf.length (4+tkl) (.nat 0) with
          | .error e => .error e
          | .ok (options,stop) =>
              .ok { type := (b0.toNat/16%4 : ℕ), code := b1.toNat, messageId := word16 b2 b3,
                    token := slice buf 4 (4+tkl), options,
                    payload := match stop with
                      | .nat pos => buf.drop pos
                      | .nan => [] }
  | _ => .error { message := "CoAP message too short" }

/-- Whatever the options were, an accepted message has a short token, and its
header fields are in range. -/
theorem decode_fields {buf : Bytes} {msg : CoapMessage JsNumber} (h : decode buf = .ok msg) :
    msg.token.length ≤ 8 ∧ 0 ≤ msg.type ∧ msg.type < 4 ∧
      0 ≤ msg.messageId ∧ msg.messageId < 65536 := by
  unfold decode at h
  split at h
  · next b0 b1 b2 b3 tail =>
      dsimp only at h
      split_ifs at h with hv ht hl
      split at h
      · cases h
      · cases h
        have hw := word16_lt b2 b3
        simp only [slice_length]
        omega
  · cases h

theorem header_length (type code messageId : ℤ) (n : ℕ) :
    (header type code messageId n).length = 4 := rfl

/-- What `decode` reads back from a header written by `encode`, with the option
loop still to run. -/
theorem decode_header (type code messageId : ℤ) (token rest : Bytes) (ht : token.length ≤ 8) :
    decode (header type code messageId token.length++token++rest) =
      match decodeOptions (header type code messageId token.length++token++rest)
          (4+token.length+rest.length) (4+token.length) (.nat 0) with
      | .error e => .error e
      | .ok (options,stop) =>
          .ok { type := type%4, code := code%256, messageId := messageId%65536, token, options,
                payload := match stop with
                  | .nat pos => (header type code messageId token.length++token++rest).drop pos
                  | .nan => [] } := by
  have hb : (UInt8.ofNat (64+(type%4).toNat*16+token.length%16)).toNat =
      64+(type%4).toNat*16+token.length := by
    rw [UInt8.toNat_ofNat']
    omega
  have hc : ((UInt8.ofNat (code%256).toNat).toNat : ℤ) = code%256 := by
    rw [UInt8.toNat_ofNat']
    omega
  have hw : (word16 (UInt8.ofNat ((messageId%65536).toNat/256))
      (UInt8.ofNat (messageId%65536).toNat) : ℤ) = messageId%65536 := by
    rw [word16_be16 _ (by omega)]
    omega
  have hlen : (header type code messageId token.length++token++rest).length =
      4+token.length+rest.length := by
    simp only [List.length_append,header_length]
  have htok : slice (header type code messageId token.length++token++rest) 4 (4+token.length) =
      token := by
    rw [slice,List.append_assoc,List.drop_left' (header_length ..),Nat.add_sub_cancel_left]
    exact List.take_left' rfl
  rw [← hlen]
  generalize hbuf : header type code messageId token.length++token++rest = buf at hlen htok ⊢
  have hshape : ∃ tail, buf = UInt8.ofNat (64+(type%4).toNat*16+token.length%16)::
      UInt8.ofNat (code%256).toNat::UInt8.ofNat ((messageId%65536).toNat/256)::
      UInt8.ofNat (messageId%65536).toNat::tail := ⟨token++rest,hbuf ▸ by simp [header,be16]⟩
  obtain ⟨tail,hshape⟩ := hshape
  have hver : (64+(type%4).toNat*16+token.length)/64%4 = 1 := by omega
  have htkl : (64+(type%4).toNat*16+token.length)%16 = token.length := by omega
  have htyp : (((64+(type%4).toNat*16+token.length)/16%4 : ℕ) : ℤ) = type%4 := by omega
  rw [decode.eq_def]
  split
  · next b0 b1 b2 b3 tl _ =>
      simp only [List.cons.injEq] at hshape
      obtain ⟨rfl,rfl,rfl,rfl,-⟩ := hshape
      simp only [hb,hver,htkl,htyp,hc,hw,htok]
      rw [if_neg (by simp),if_neg (by omega),if_neg (by omega)]
  · next hno => exact absurd hshape (hno _ _ _ _ _)

/-- A message with no options and no payload is its header and its token. -/
theorem decode_bare (type code messageId : ℤ) (token : Bytes) (ht : token.length ≤ 8) :
    decode (header type code messageId token.length++token) =
      .ok { type := type%4, code := code%256, messageId := messageId%65536, token } := by
  have h := decode_header type code messageId token [] ht
  rw [List.append_nil] at h
  have hl : (header type code messageId token.length++token).length = 4+token.length := by
    simp only [List.length_append,header_length]
  have hend : (header type code messageId token.length++token)[4+token.length]? = none :=
    List.getElem?_eq_none (by omega)
  have hdrop : (header type code messageId token.length++token).drop (4+token.length) = [] :=
    List.drop_eq_nil_of_le (by omega)
  rw [h,show 4+token.length+([] : Bytes).length = (3+token.length)+1 by simp; omega]
  simp only [decodeOptions,hend,hdrop]

theorem encode_bare (type code messageId : ℤ) (token : Bytes) (ht : token.length ≤ 8) :
    encode { type, code, messageId, token } =
      .ok (header type code messageId token.length++token) := by
  unfold encode
  rw [if_neg (by simpa using ht)]
  simp [encodeOptions,payloadBytes]

end SparkProtocol.Coap
