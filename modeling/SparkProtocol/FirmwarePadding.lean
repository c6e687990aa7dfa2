import SparkProtocol.Crypto

/-!
# The padding of the firmware

The device fills up a plaintext with a partial last block by as many bytes as it
takes, each equal to their number, and leaves a plaintext of whole blocks as it is.
Two plaintexts then have one image: the padded one is a plaintext too. The receiver
takes the image for the shorter, so it loses the end of a plaintext that looks padded
by itself, and of no other.
-/
namespace SparkProtocol.Crypto
open ByteStrings HostValues BlockChaining

/-- What the device encrypts. -/
def firmwarePad (p : Bytes) : Bytes := if p.length%16 = 0 then p else pad 16 p

/-- What the device sends, under a key and a vector of the right length. -/
def firmwareEncrypt (node : Primitives) (key iv : Block 16) (p : Bytes) : Bytes :=
  join (encrypt xor (node.cipher key.1) iv (blocks 16 ((firmwarePad p).length/16) (firmwarePad p)))

/-- A plaintext of whole blocks whose last byte could be a padding count. -/
def LooksPadded (p : Bytes) : Prop :=
  p.length%16 = 0 ∧ ∃ last ∈ p.getLast?, 1 ≤ last.toNat ∧ last.toNat ≤ 16

theorem firmwarePad_length (p : Bytes) :
    (firmwarePad p).length = (firmwarePad p).length/16*16 := by
  unfold firmwarePad
  split_ifs with h
  · omega
  · rw [pad_length (by decide : 0 < 16),Nat.mul_div_cancel _ (by decide : 0 < 16)]

/-- Padding is ambiguous: what it makes it leaves alone. -/
theorem firmwarePad_firmwarePad (p : Bytes) : firmwarePad (firmwarePad p) = firmwarePad p := by
  have h := firmwarePad_length p
  exact if_pos (by omega)

theorem unpad_of_looksPadded {p : Bytes} {last : UInt8} (hl : p.getLast? = some last)
    (h : LooksPadded p) : unpad p = p.take (p.length-last.toNat) := by
  obtain ⟨-,last',hl',hrange⟩ := h
  obtain rfl := Option.some.inj (hl.symm.trans hl')
  simp only [unpad,hl]
  exact if_pos hrange

theorem unpad_of_not_looksPadded {p : Bytes} (hm : p.length%16 = 0) (h : ¬ LooksPadded p) :
    unpad p = p := by
  unfold unpad
  split
  · rfl
  · next last hl => exact if_neg fun hrange => h ⟨hm,last,hl,hrange⟩

theorem unpad_firmwarePad {p : Bytes} (h : ¬ LooksPadded p) : unpad (firmwarePad p) = p := by
  unfold firmwarePad
  split_ifs with hm
  · exact unpad_of_not_looksPadded hm h
  · exact unpad_pad p

/-- A plaintext that looks padded loses at least a byte. -/
theorem unpad_shortens {p : Bytes} (h : LooksPadded p) : (unpad p).length < p.length := by
  obtain ⟨-,last,hl,hrange⟩ := id h
  have hpos : 0 < p.length := List.length_pos_iff.mpr (by rintro rfl; cases hl)
  rw [unpad_of_looksPadded hl h,List.length_take]
  omega

/-- The receiver restores what the device sent, except that a plaintext which looks padded
by itself comes without as many bytes as its last one says. -/
theorem aesDecrypt_firmwareEncrypt (node : Primitives) (key iv : Block 16) (p : Bytes) :
    (aesDecrypt node key.1 iv.1 (firmwareEncrypt node key iv p) = .ok p ↔ ¬ LooksPadded p) ∧
    ∀ last, p.getLast? = some last → LooksPadded p →
      aesDecrypt node key.1 iv.1 (firmwareEncrypt node key iv p) =
        .ok (p.take (p.length-last.toNat)) := by
  rw [firmwareEncrypt,aesDecrypt_chained node key.2 iv (firmwarePad_length p)]
  constructor
  · constructor
    · intro h hlooks
      have hpad : firmwarePad p = p := if_pos hlooks.1
      have hshort := unpad_shortens hlooks
      rw [hpad,Except.ok.injEq] at h
      rw [h] at hshort
      exact lt_irrefl _ hshort
    · intro h
      rw [unpad_firmwarePad h]
  · intro last hl hlooks
    rw [firmwarePad,if_pos hlooks.1,unpad_of_looksPadded hl hlooks]

def zeroBlock : Block 16 := ⟨List.replicate 16 0,List.length_replicate⟩

/-- Fifteen bytes and a last one that says "one byte of padding". -/
def endsInOne : Bytes := List.replicate 15 7++[1]

theorem aesDecrypt_firmwareEncrypt_endsInOne :
    aesDecrypt plainNode zeroBlock.1 zeroBlock.1 (firmwareEncrypt plainNode zeroBlock zeroBlock
      endsInOne) = .ok (List.replicate 15 7) :=
  (aesDecrypt_firmwareEncrypt plainNode zeroBlock zeroBlock endsInOne).2 1 rfl
    ⟨rfl,1,rfl,by decide,by decide⟩

theorem endsInOne_loses : ¬ ∀ (node : Primitives) (key iv : Block 16) (p : Bytes), p ≠ [] →
    aesDecrypt node key.1 iv.1 (firmwareEncrypt node key iv p) = .ok p := by
  intro h
  have hkept := h plainNode zeroBlock zeroBlock endsInOne (by decide)
  have hlost : aesDecrypt plainNode zeroBlock.1 zeroBlock.1 (firmwareEncrypt plainNode zeroBlock
      zeroBlock endsInOne) = .ok (List.replicate 15 7) := by
    decide +kernel
  cases hlost.symm.trans hkept

end SparkProtocol.Crypto
