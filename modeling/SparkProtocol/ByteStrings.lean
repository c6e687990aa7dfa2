import Mathlib.Data.List.Infix
import Mathlib.Data.Nat.Notation

/-!
# Byte strings, big-endian words and lower-case hex

A buffer is a list of bytes. A 16-bit word is read and written most significant
byte first; writing is total and keeps the low 16 bits, so the range checks of a
caller stay visible at the caller. Hex text is two lower-case digits a byte and
determines the bytes it was made from.
-/
namespace SparkProtocol.ByteStrings

abbrev Bytes := List UInt8

/-- The bytes from position `i` up to, not including, position `j`. -/
def slice (b : Bytes) (i j : ℕ) : Bytes := (b.drop i).take (j-i)

theorem slice_length (b : Bytes) (i j : ℕ) : (slice b i j).length = min (j-i) (b.length-i) := by
  simp [slice]

def word16 (hi lo : UInt8) : ℕ := hi.toNat*256+lo.toNat

theorem word16_lt (hi lo : UInt8) : word16 hi lo < 65536 := by
  have hh := hi.toNat_lt
  have hl := lo.toNat_lt
  unfold word16
  omega

def be16 (n : ℕ) : Bytes := [UInt8.ofNat (n/256),UInt8.ofNat n]

@[simp] theorem be16_length (n : ℕ) : (be16 n).length = 2 := rfl

theorem word16_be16 (n : ℕ) (h : n < 65536) :
    word16 (UInt8.ofNat (n/256)) (UInt8.ofNat n) = n := by
  unfold word16
  simp only [UInt8.toNat_ofNat']
  omega

/-- The word at the front of a buffer, when the buffer holds one. -/
def readBe16 : Bytes → Option ℕ
  | hi::lo::_ => some (word16 hi lo)
  | _ => none

theorem readBe16_be16 (n : ℕ) (h : n < 65536) (b : Bytes) : readBe16 (be16 n++b) = some n := by
  simp [be16,readBe16,word16_be16 n h]

theorem readBe16_lt {b : Bytes} {n : ℕ} (h : readBe16 b = some n) : n < 65536 := by
  match b,h with
  | hi::lo::_,h =>
      simp only [readBe16,Option.some.injEq] at h
      exact h ▸ word16_lt hi lo

def hexDigits (x : UInt8) : List Char :=
  [Nat.digitChar (x.toNat/16),Nat.digitChar (x.toNat%16)]

/-- `buffer.toString('hex')`. -/
def toHex (b : Bytes) : String := String.ofList (b.flatMap hexDigits)

private theorem digitChar_injective :
    ∀ m < 16, ∀ n < 16, Nat.digitChar m = Nat.digitChar n → m = n := by decide

theorem hexDigits_injective {x y : UInt8} (h : hexDigits x = hexDigits y) : x = y := by
  have hx := x.toNat_lt
  have hy := y.toNat_lt
  simp only [hexDigits,List.cons.injEq,and_true] at h
  have hi := digitChar_injective (x.toNat/16) (by omega) (y.toNat/16) (by omega) h.1
  have lo := digitChar_injective (x.toNat%16) (by omega) (y.toNat%16) (by omega) h.2
  exact UInt8.toNat_inj.mp (by omega)

theorem toHex_injective {a b : Bytes} (h : toHex a = toHex b) : a = b := by
  have hl : a.flatMap hexDigits = b.flatMap hexDigits := String.ofList_injective h
  clear h
  induction a generalizing b with
  | nil =>
      cases b with
      | nil => rfl
      | cons y b => simp [hexDigits] at hl
  | cons x a ih =>
      cases b with
      | nil => simp [hexDigits] at hl
      | cons y b =>
          simp only [List.flatMap_cons] at hl
          obtain ⟨hx,hr⟩ := List.append_inj hl rfl
          rw [hexDigits_injective hx,ih hr]

end SparkProtocol.ByteStrings
