import SparkProtocol.CoreKeys
import SparkProtocol.LineWrapping

/-!
# The text of a key that is put aside

Base64 with its padding can be read back, four characters at a time. The lines of the
text between its two marks are chunks of the encoding, and none of them has a line end
in it, so whoever splits the text at its line ends finds the bytes again.
-/
namespace SparkProtocol.CoreKeys
open ByteStrings LineWrapping

def base64Value (c : Char) : Option ℕ := (List.range 64).find? fun n => base64Char n = c

/-- The bytes of a padded base64 text. -/
def decodeBase64 : List Char → Option Bytes
  | [] => some []
  | a::b::c::d::rest => do
      let a ← base64Value a
      let b ← base64Value b
      if c = '=' then
        if d = '=' ∧ rest = [] then return [UInt8.ofNat (a*4+b/16)] else none
      else
        let c ← base64Value c
        if d = '=' then
          if rest = [] then return [UInt8.ofNat (a*4+b/16),UInt8.ofNat (b%16*16+c/4)] else none
        else
          let d ← base64Value d
          return UInt8.ofNat (a*4+b/16)::UInt8.ofNat (b%16*16+c/4)::UInt8.ofNat (c%4*64+d)::
            (← decodeBase64 rest)
  | _ => none

/-- The lines of the text are the two marks around full lines and a last one, which
together encode the key. -/
def PemOf (text : String) (der : Bytes) : Prop :=
  ∃ full last, text.toList.splitOn '\n' =
      ["-----BEGIN PUBLIC KEY-----".toList]++(full++[last])++["-----END PUBLIC KEY-----".toList,[]] ∧
    (∀ line ∈ full, line.length = 64) ∧ 1 ≤ last.length ∧ last.length ≤ 64 ∧
    decodeBase64 (full++[last]).flatten = some der

section Sextets
variable {n : ℕ}

theorem base64Value_base64Char (h : n < 64) : base64Value (base64Char n) = some n := by
  have hall : ∀ n : Fin 64, base64Value (base64Char n) = some n.val := by decide +kernel
  exact hall ⟨n,h⟩

theorem base64Char_ne_pad (h : n < 64) : base64Char n ≠ '=' := by
  have hall : ∀ n : Fin 64, base64Char n ≠ '=' := by decide +kernel
  exact hall ⟨n,h⟩

theorem base64Char_ne_newline (n : ℕ) : base64Char n ≠ '\n' := by
  intro he
  have hmem : base64Char n ∈
      '='::"ABCDEFGHIJKLMNOPQRSTUVWXYZabcdefghijklmnopqrstuvwxyz0123456789+/".toList := by
    unfold base64Char
    cases hn : "ABCDEFGHIJKLMNOPQRSTUVWXYZabcdefghijklmnopqrstuvwxyz0123456789+/".toList[n]? with
    | none => exact List.mem_cons_self
    | some c => exact List.mem_cons_of_mem _ (List.mem_of_getElem? hn)
  rw [he] at hmem
  exact absurd hmem (by decide +kernel)

/-- The sextets of three bytes, put together again. -/
theorem ofNat_sextets (a b c : UInt8) :
    UInt8.ofNat (a.toNat/4*4+(a.toNat%4*16+b.toNat/16)/16) = a ∧
      UInt8.ofNat ((a.toNat%4*16+b.toNat/16)%16*16+(b.toNat%16*4+c.toNat/64)/4) = b ∧
      UInt8.ofNat ((b.toNat%16*4+c.toNat/64)%4*64+c.toNat%64) = c := by
  have ha := a.toNat_lt
  have hb := b.toNat_lt
  have hc := c.toNat_lt
  refine ⟨?_,?_,?_⟩
  · rw [show a.toNat/4*4+(a.toNat%4*16+b.toNat/16)/16 = a.toNat by omega,UInt8.ofNat_toNat]
  · rw [show (a.toNat%4*16+b.toNat/16)%16*16+(b.toNat%16*4+c.toNat/64)/4 = b.toNat by omega,
      UInt8.ofNat_toNat]
  · rw [show (b.toNat%16*4+c.toNat/64)%4*64+c.toNat%64 = c.toNat by omega,UInt8.ofNat_toNat]

end Sextets

/-- What has been encoded can be decoded. -/
theorem decodeBase64_base64 (b : Bytes) : decodeBase64 (base64 b) = some b := by
  induction b using base64.induct with
  | case1 a b c rest ih =>
      have ha := a.toNat_lt
      have hb := b.toNat_lt
      have hc := c.toNat_lt
      have h₁ : a.toNat/4 < 64 := by omega
      have h₂ : a.toNat%4*16+b.toNat/16 < 64 := by omega
      have h₃ : b.toNat%16*4+c.toNat/64 < 64 := by omega
      have h₄ : c.toNat%64 < 64 := by omega
      obtain ⟨e₁,e₂,e₃⟩ := ofNat_sextets a b c
      simp only [base64,decodeBase64,base64Value_base64Char h₁,base64Value_base64Char h₂,
        base64Value_base64Char h₃,base64Value_base64Char h₄,if_neg (base64Char_ne_pad h₃),
        if_neg (base64Char_ne_pad h₄),ih,Option.bind_eq_bind,Option.bind_some,e₁,e₂,e₃]
      rfl
  | case2 a b =>
      have ha := a.toNat_lt
      have hb := b.toNat_lt
      have h₁ : a.toNat/4 < 64 := by omega
      have h₂ : a.toNat%4*16+b.toNat/16 < 64 := by omega
      have h₃ : b.toNat%16*4 < 64 := by omega
      obtain ⟨e₁,e₂,-⟩ := ofNat_sextets a b 0
      simp only [UInt8.toNat_zero,Nat.zero_div,Nat.add_zero] at e₂
      simp only [base64,decodeBase64,base64Value_base64Char h₁,base64Value_base64Char h₂,
        base64Value_base64Char h₃,if_neg (base64Char_ne_pad h₃),Option.bind_eq_bind,
        Option.bind_some,if_true,e₁,e₂]
      rfl
  | case3 a =>
      have ha := a.toNat_lt
      have h₁ : a.toNat/4 < 64 := by omega
      have h₂ : a.toNat%4*16 < 64 := by omega
      obtain ⟨e₁,-,-⟩ := ofNat_sextets a 0 0
      simp only [UInt8.toNat_zero,Nat.zero_div,Nat.add_zero] at e₁
      simp only [base64,decodeBase64,base64Value_base64Char h₁,base64Value_base64Char h₂,
        Option.bind_eq_bind,Option.bind_some,if_true,and_self,e₁]
      rfl
  | case4 => rfl

theorem base64_ne_newline (b : Bytes) : '\n' ∉ base64 b := by
  induction b using base64.induct with
  | case1 a b c rest ih =>
      simp only [base64,List.mem_cons,not_or]
      exact ⟨(base64Char_ne_newline _).symm,(base64Char_ne_newline _).symm,
        (base64Char_ne_newline _).symm,(base64Char_ne_newline _).symm,ih⟩
  | case2 a b =>
      simp only [base64,List.mem_cons,not_or]
      exact ⟨(base64Char_ne_newline _).symm,(base64Char_ne_newline _).symm,
        (base64Char_ne_newline _).symm,by decide,List.not_mem_nil⟩
  | case3 a =>
      simp only [base64,List.mem_cons,not_or]
      exact ⟨(base64Char_ne_newline _).symm,(base64Char_ne_newline _).symm,by decide,by decide,
        List.not_mem_nil⟩
  | case4 => exact List.not_mem_nil

/-- Every key that is put aside can be read back, whatever its length. -/
theorem derToPem_pemOf {der : Bytes} (h : der ≠ []) : PemOf (derToPem der) der := by
  have hne : base64 der ≠ [] := by
    intro he
    have hdec := decodeBase64_base64 der
    rw [he] at hdec
    exact h (Option.some.inj hdec).symm
  have hw := toChunks_wrapped (n := 64) (by omega) hne
  obtain ⟨full,last,hlines,hfull,hpos,hle⟩ := hw.lengths
  refine ⟨full,last,?_,hfull,hpos,hle,?_⟩
  · have htext : (derToPem der).toList = ['\n'].intercalate
        (["-----BEGIN PUBLIC KEY-----".toList]++(base64 der).toChunks 64++
          ["-----END PUBLIC KEY-----".toList,[]]) := by
      rw [derToPem,String.toList_append,String.toList_intercalate,List.map_append,List.map_append,
        List.map_map,show String.toList ∘ String.ofList = id from funext fun _ => String.toList_ofList,
        List.map_id]
      refine (intercalate_append_self (by simp)).trans ?_
      rw [List.append_assoc]
      rfl
    rw [htext,← hlines]
    refine List.splitOn_intercalate _ ?_ (by simp)
    intro l hl
    rw [List.mem_append,List.mem_append] at hl
    rcases hl with (hl | hl) | hl
    · rw [List.mem_singleton.mp hl]
      decide +kernel
    · intro hn
      refine base64_ne_newline der ?_
      rw [← hw.flatten]
      exact List.mem_flatten.mpr ⟨l,hl,hn⟩
    · rcases List.mem_pair.mp hl with rfl | rfl
      · decide +kernel
      · exact List.not_mem_nil
  · rw [← hlines,hw.flatten]
    exact decodeBase64_base64 der

end SparkProtocol.CoreKeys
