import SparkProtocol.ByteStrings

/-!
# Values of the host language

Errors carry the text and the extra fields which the throwing site attaches.
Numbers that come out of unchecked buffer reads may be `NaN`: reading past the
end of a buffer gives `undefined`, and adding to it gives `NaN`. Reading a word
past the end throws instead.
-/
namespace SparkProtocol.HostValues
open ByteStrings

structure JsError where
  message : String
  name : String := "Error"
  cause : Option String := none
  length : Option ℕ := none
  coreId : Option String := none
  deriving DecidableEq, Repr

/-- A number that started as a natural and may have met `undefined`. -/
inductive JsNumber where
  | nat (n : ℕ)
  | nan
  deriving DecidableEq, Repr

def JsNumber.add : JsNumber → JsNumber → JsNumber
  | .nat m,.nat n => .nat (m+n)
  | _,_ => .nan

@[simp] theorem JsNumber.add_nat (m n : ℕ) : (JsNumber.nat m).add (.nat n) = .nat (m+n) := rfl

/-- `buf[pos]`, as a number. -/
def byteAt (buf : Bytes) (pos : ℕ) : JsNumber :=
  match buf[pos]? with
  | some b => .nat b.toNat
  | none => .nan

/-- `buf.readUInt16BE(pos)`. -/
def readUInt16BE (buf : Bytes) (pos : ℕ) : Except JsError ℕ :=
  match readBe16 (buf.drop pos) with
  | some n => .ok n
  | none =>
      .error (if buf.length < 2 then
        { message := "Attempt to access memory outside buffer bounds", name := "RangeError" }
      else
        { message := "The value of \"offset\" is out of range. It must be >= 0 and <= " ++
            toString (buf.length-2) ++ ". Received " ++ toString pos, name := "RangeError" })

theorem readUInt16BE_lt {buf : Bytes} {pos n : ℕ} (h : readUInt16BE buf pos = .ok n) :
    n < 65536 := by
  unfold readUInt16BE at h
  split at h
  · next m hm =>
      cases h
      exact readBe16_lt hm
  · cases h

/-- Outside its range `writeUInt16BE` throws. -/
def writeUInt16BE (n : ℕ) : Except JsError Bytes :=
  if n ≤ 0xFFFF then .ok (be16 n) else
    .error { message := "The value of \"value\" is out of range. It must be >= 0 and <= 65535. Received "
      ++ toString n, name := "RangeError" }

theorem writeUInt16BE_ok {n : ℕ} (h : n ≤ 0xFFFF) : writeUInt16BE n = .ok (be16 n) := if_pos h

theorem toOption_eq_some {ε α : Type} {x : Except ε α} {a : α} :
    x.toOption = some a ↔ x = .ok a := by
  cases x <;> simp [Except.toOption]

end SparkProtocol.HostValues
