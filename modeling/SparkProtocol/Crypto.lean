import SparkProtocol.BlockChaining
import SparkProtocol.HostValues

/-!
# Session cryptography

AES-128-CBC over an arbitrary keyed permutation of 16-byte blocks, with the two
padding conventions of the code: encryption pads by PKCS#7, decryption strips as
many bytes as the last plaintext byte says when that byte is between 1 and 16,
and none otherwise. A key or initialization vector of the wrong length is
refused, and so is a ciphertext with a partial last block; the empty ciphertext
has no partial block and decrypts to the empty string.
-/
namespace SparkProtocol.Crypto
open ByteStrings HostValues BlockChaining

/-- What is used of `node:crypto`: one block permutation for each key, and the
20-byte SHA-1 digest. -/
structure Primitives where
  cipher : Bytes → Equiv.Perm (Block 16)
  hmac : Bytes → Bytes → Bytes
  hmac_length : ∀ c k, (hmac c k).length = 20

def invalidIv : JsError := { message := "Invalid initialization vector", name := "TypeError" }
def invalidKey : JsError := { message := "Invalid key length", name := "RangeError" }
def wrongFinalBlock : JsError :=
  { message := "error:1C80006B:Provider routines::wrong final block length" }

/-- The part of a ciphertext that becomes the next initialization vector. -/
def firstBlock (ciphertext : Bytes) : Bytes := ciphertext.take 16

section
variable (node : Primitives)

/-- HMAC-SHA1 of the ciphertext, keyed by the session material. -/
def hmacSha1 (ciphertext key : Bytes) : Bytes := node.hmac ciphertext key

def aesEncrypt (key iv plaintext : Bytes) : Except JsError Bytes :=
  if hi : iv.length = 16 then
    if key.length = 16 then
      let padded := pad 16 plaintext
      .ok (join (encrypt xor (node.cipher key) ⟨iv,hi⟩ (blocks 16 (padded.length/16) padded)))
    else .error invalidKey
  else .error invalidIv

/-- Strip exactly `lastByte` bytes if it is in `[1,16]`, else strip none. -/
def unpad (raw : Bytes) : Bytes :=
  match raw.getLast? with
  | none => raw
  | some last =>
      if 1 ≤ last.toNat ∧ last.toNat ≤ 16 then raw.take (raw.length-last.toNat) else raw

def aesDecrypt (key iv ciphertext : Bytes) : Except JsError Bytes :=
  if hi : iv.length = 16 then
    if key.length = 16 then
      if ciphertext.length%16 = 0 then
        .ok (unpad (join (decrypt xor (node.cipher key).symm ⟨iv,hi⟩
          (blocks 16 (ciphertext.length/16) ciphertext))))
      else .error wrongFinalBlock
    else .error invalidKey
  else .error invalidIv

end

structure AesParams where
  key : Bytes
  iv : Bytes
  deriving DecidableEq

def deriveAesParams (sessionKey : Bytes) : Except JsError AesParams :=
  if sessionKey.length < 32 then
    .error { message := "session key too short: " ++ toString sessionKey.length ++
      " bytes (need >= 32)", name := "RangeError" }
  else .ok ⟨slice sessionKey 0 16,slice sessionKey 16 32⟩

theorem deriveAesParams_ok {sessionKey : Bytes} (h : sessionKey.length = 40) :
    deriveAesParams sessionKey = .ok ⟨slice sessionKey 0 16,slice sessionKey 16 32⟩ := by
  unfold deriveAesParams
  rw [if_neg (by omega)]

theorem unpad_pad (p : Bytes) : unpad (pad 16 p) = p := by
  have hp := padding_pos (by decide : 0 < 16) p.length
  have hl := padding_le (w := 16) p.length
  have hb : (UInt8.ofNat (padding 16 p.length)).toNat = padding 16 p.length := by
    rw [UInt8.toNat_ofNat']
    omega
  simp only [unpad,pad_getLast (by decide : 0 < 16),hb]
  rw [if_pos ⟨hp,hl⟩]
  exact pad_take p

variable {node : Primitives} {key iv plaintext ciphertext : Bytes}

theorem firstBlock_length (h : 16 ≤ ciphertext.length) : (firstBlock ciphertext).length = 16 := by
  simp [firstBlock,h]

/-- Encryption refuses nothing but a key or vector of the wrong length. -/
theorem aesEncrypt_total (node : Primitives) (hk : key.length = 16) (hi : iv.length = 16) (plaintext : Bytes) :
    ∃ ct, aesEncrypt node key iv plaintext = .ok ct := by
  simp only [aesEncrypt,hi,↓reduceDIte,hk,↓reduceIte,Except.ok.injEq,exists_eq']

theorem aesEncrypt_params (h : aesEncrypt node key iv plaintext = .ok ciphertext) :
    iv.length = 16 ∧ key.length = 16 := by
  unfold aesEncrypt at h
  split at h
  · next hi =>
      split at h
      · next hk => exact ⟨hi,hk⟩
      · cases h
  · cases h

theorem aesEncrypt_length (h : aesEncrypt node key iv plaintext = .ok ciphertext) :
    ciphertext.length = (plaintext.length/16+1)*16 := by
  obtain ⟨hi,hk⟩ := aesEncrypt_params h
  have hp := pad_length (by decide : 0 < 16) plaintext
  simp only [aesEncrypt,hi,↓reduceDIte,hk,↓reduceIte,Except.ok.injEq] at h
  rw [← h,join_length,encrypt_length,hp,Nat.mul_div_cancel _ (by decide : 0 < 16),
    blocks_length hp]

theorem aesEncrypt_firstBlock (h : aesEncrypt node key iv plaintext = .ok ciphertext) :
    (firstBlock ciphertext).length = 16 := by
  have hl := aesEncrypt_length h
  exact firstBlock_length (by omega)

/-- Chaining undoes chaining, whatever was done to fill the last block. -/
theorem aesDecrypt_chained (node : Primitives) (hk : key.length = 16) (iv : Block 16) {k : ℕ}
    {padded : Bytes} (h : padded.length = k*16) :
    aesDecrypt node key iv.1 (join (encrypt xor (node.cipher key) iv (blocks 16 k padded))) =
      .ok (unpad padded) := by
  generalize hcs : encrypt BlockChaining.xor (node.cipher key) iv (blocks 16 k padded) = cs
  have hlen : cs.length = k := by rw [← hcs,encrypt_length,blocks_length h]
  have hct : (join cs).length = k*16 := by rw [join_length,hlen]
  have hm : (join cs).length%16 = 0 := by
    rw [hct]
    exact Nat.mul_mod_left _ _
  have hd : (join cs).length/16 = cs.length := by
    rw [hct,hlen,Nat.mul_div_cancel _ (by decide : 0 < 16)]
  simp only [aesDecrypt,iv.2,↓reduceDIte,hk,↓reduceIte,hm,hd,blocks_join]
  rw [← hcs,decrypt_encrypt (node.cipher key).symm_apply_apply xor_xor_cancel,join_blocks h]

/-- The lenient unpadding undoes PKCS#7. -/
theorem aesDecrypt_aesEncrypt (h : aesEncrypt node key iv plaintext = .ok ciphertext) :
    aesDecrypt node key iv ciphertext = .ok plaintext := by
  obtain ⟨hi,hk⟩ := aesEncrypt_params h
  have hp := pad_length (by decide : 0 < 16) plaintext
  have hq : (pad 16 plaintext).length/16 = plaintext.length/16+1 := by
    rw [hp,Nat.mul_div_cancel _ (by decide : 0 < 16)]
  simp only [aesEncrypt,hi,↓reduceDIte,hk,↓reduceIte,Except.ok.injEq,hq] at h
  rw [← h,aesDecrypt_chained node hk ⟨iv,hi⟩ hp,unpad_pad]

/-- A ciphertext that decrypts is a whole number of blocks, under lawful parameters. -/
theorem aesDecrypt_params (h : aesDecrypt node key iv ciphertext = .ok plaintext) :
    iv.length = 16 ∧ key.length = 16 ∧ ciphertext.length%16 = 0 := by
  unfold aesDecrypt at h
  split at h
  · next hi =>
      split at h
      · next hk =>
          split at h
          · next hm => exact ⟨hi,hk,hm⟩
          · cases h
      · cases h
  · cases h

theorem aesDecrypt_firstBlock (h : aesDecrypt node key iv ciphertext = .ok plaintext)
    (hne : ciphertext ≠ []) : (firstBlock ciphertext).length = 16 := by
  have hm := (aesDecrypt_params h).2.2
  have hp := List.length_pos_iff.mpr hne
  exact firstBlock_length (by omega)

/-- The empty frame: no block, no last byte, nothing to strip. -/
theorem aesDecrypt_nil (node : Primitives) (hk : key.length = 16) (hi : iv.length = 16) :
    aesDecrypt node key iv [] = .ok [] := by
  simp [aesDecrypt,hi,hk,blocks,decrypt,unpad]

/-- The identity cipher and an empty digest, for closed examples. -/
def plainNode : Primitives where
  cipher _ := Equiv.refl _
  hmac _ _ := List.replicate 20 0
  hmac_length _ _ := List.length_replicate

end SparkProtocol.Crypto
