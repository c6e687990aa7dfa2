import SparkProtocol.CoapGrammar

/-!
# Encoding and decoding are inverse

`encode` writes strings of the grammar, and every string of the grammar is what
`encode` writes for its parts: a nibble and its extension are determined by the
number they make, and the options of a derivation are already in order. Both
directions go through the derivations, so neither sees a buffer position.
-/
namespace SparkProtocol.Coap
open ByteStrings HostValues

section Extensions
variable {v n : ℕ} {d : Bytes}

theorem be16_word16 (hi lo : UInt8) : be16 (word16 hi lo) = [hi,lo] := by
  have hh := hi.toNat_lt
  have hl := lo.toNat_lt
  have h1 : UInt8.ofNat (word16 hi lo/256) = hi := by
    apply UInt8.toNat_inj.mp
    rw [UInt8.toNat_ofNat',word16]
    omega
  have h2 : UInt8.ofNat (word16 hi lo) = lo := by
    apply UInt8.toNat_inj.mp
    rw [UInt8.toNat_ofNat',word16]
    omega
  rw [be16,h1,h2]

theorem extension_extends (h : extension v = .ok d) : Extends (nibble v) d v := by
  unfold extension at h
  split_ifs at h with h13 h14
  · obtain rfl := Except.ok.inj h
    have hv : 13 ≤ v ∧ v < 269 := by
      unfold nibble at h13
      split_ifs at h13 <;> omega
    have hx : 13+(UInt8.ofNat (v-13)).toNat = v := by
      rw [UInt8.toNat_ofNat']
      omega
    have hb := Extends.byte (UInt8.ofNat (v-13))
    rw [hx] at hb
    rwa [h13]
  · have hv : 269 ≤ v := by
      unfold nibble at h14
      split_ifs at h14 <;> omega
    unfold writeUInt16BE at h
    split_ifs at h with hw
    obtain rfl := Except.ok.inj h
    have hx := word16_be16 (v-269) (by omega)
    have hb := Extends.word (UInt8.ofNat ((v-269)/256)) (UInt8.ofNat (v-269))
    rw [hx,Nat.add_sub_cancel' hv] at hb
    rw [h14]
    exact hb
  · obtain rfl := Except.ok.inj h
    have hv : nibble v = v ∧ v < 13 := by
      unfold nibble at h13 h14 ⊢
      split_ifs at h13 h14 ⊢ <;> omega
    rw [hv.1]
    exact .short hv.2

/-- There is one nibble and one extension for a number. -/
theorem Extends.extension (h : Extends v d n) : extension n = .ok d ∧ nibble n = v := by
  cases h with
  | short hv =>
      have hn : nibble v = v := if_pos hv
      refine ⟨?_,hn⟩
      unfold Coap.extension
      rw [hn,if_neg (by omega),if_neg (by omega)]
  | byte x =>
      have hx := x.toNat_lt
      have hn : nibble (13+x.toNat) = 13 := by
        unfold nibble
        rw [if_neg (by omega),if_pos (by omega)]
      refine ⟨?_,hn⟩
      unfold Coap.extension
      rw [hn,if_pos rfl,Nat.add_sub_cancel_left,UInt8.ofNat_toNat]
  | word hi lo =>
      have hn : nibble (269+word16 hi lo) = 14 := by
        unfold nibble
        rw [if_neg (by omega),if_neg (by omega)]
      have hw := word16_lt hi lo
      refine ⟨?_,hn⟩
      unfold Coap.extension
      rw [hn,if_neg (by decide),if_pos rfl,Nat.add_sub_cancel_left,writeUInt16BE_ok (by omega),
        be16_word16]

theorem extension_error_iff : (∃ e, extension v = .error e) ↔ 65804 < v := by
  unfold extension nibble writeUInt16BE
  split_ifs <;> simp <;> omega

end Extensions

section Options
variable {prev delta len : ℕ} {b bs : Bytes} {options : List (CoapOption ℕ)}

theorem nibble_le (v : ℕ) : nibble v ≤ 14 := by
  unfold nibble
  split_ifs <;> omega

theorem encodeOptionHeader_ok (h : encodeOptionHeader delta len = .ok b) :
    ∃ head d l, b = head::(d++l) ∧ Extends (head.toNat/16) d delta ∧
      Extends (head.toNat%16) l len := by
  unfold encodeOptionHeader at h
  split at h
  · next d l hd hl =>
      obtain rfl := Except.ok.inj h
      have h1 := nibble_le delta
      have h2 := nibble_le len
      have hhead : (UInt8.ofNat (nibble delta*16+nibble len)).toNat = nibble delta*16+nibble len := by
        rw [UInt8.toNat_ofNat']
        omega
      refine ⟨_,d,l,rfl,?_,?_⟩
      · rw [hhead,show (nibble delta*16+nibble len)/16 = nibble delta by omega]
        exact extension_extends hd
      · rw [hhead,show (nibble delta*16+nibble len)%16 = nibble len by omega]
        exact extension_extends hl
  · cases h
  · cases h

theorem encodeOptionHeader_error_iff :
    (∃ e, encodeOptionHeader delta len = .error e) ↔ 65804 < delta ∨ 65804 < len := by
  rw [← extension_error_iff,← extension_error_iff]
  unfold encodeOptionHeader
  cases extension delta <;> cases extension len <;> simp

/-- What is written for the options is a string of the grammar. -/
theorem encodeOptions_bytes (h : encodeOptions prev options = .ok bs) :
    OptionsBytes prev options bs := by
  induction options generalizing prev bs with
  | nil =>
      obtain rfl := Except.ok.inj h
      exact .nil prev
  | cons opt options ih =>
      rw [encodeOptions] at h
      split_ifs at h with hlt
      split at h
      · cases h
      · next head hhead =>
          split at h
          · cases h
          · next rest hrest =>
              obtain rfl := Except.ok.inj h
              obtain ⟨x,d,l,rfl,hd,hl⟩ := encodeOptionHeader_ok hhead
              have hone : OptionBytes prev ⟨prev+(opt.number-prev),opt.value⟩
                  (x::(d++l++opt.value)) := .mk hd hl
              rw [Nat.add_sub_cancel' (Nat.le_of_not_lt hlt)] at hone
              exact .cons hone (ih hrest)

/-- And a string of the grammar is what is written for its options. -/
theorem OptionsBytes.encodes (h : OptionsBytes prev options bs) :
    encodeOptions prev options = .ok bs := by
  induction h with
  | nil prev => rfl
  | cons ho _ ih =>
      cases ho with
      | @mk head d l value delta hd hl =>
          obtain ⟨hde,hdn⟩ := hd.extension
          obtain ⟨hle,hln⟩ := hl.extension
          have hhead : encodeOptionHeader delta value.length = .ok (head::(d++l)) := by
            unfold encodeOptionHeader
            rw [hde,hle,hdn,hln,Nat.div_add_mod',UInt8.ofNat_toNat]
          rw [encodeOptions,if_neg (by simp),Nat.add_sub_cancel_left,hhead,ih]
          simp only [List.cons_append]

/-- The options of a derivation are in order. -/
theorem OptionsBytes.ascending (h : OptionsBytes prev options bs) :
    (∀ opt ∈ options, prev ≤ opt.number) ∧
      options.Pairwise fun a b => a.number ≤ b.number := by
  induction h with
  | nil prev => exact ⟨by simp,.nil⟩
  | @cons prev opt options b bs ho _ ih =>
      have hle : prev ≤ opt.number := by
        cases ho
        exact Nat.le_add_right ..
      refine ⟨?_,.cons ih.1 ih.2⟩
      intro o ho
      rcases List.mem_cons.mp ho with rfl | ho
      · exact hle
      · exact hle.trans (ih.1 o ho)

/-- The gaps between consecutive numbers. -/
def gaps : ℕ → List (CoapOption ℕ) → List ℕ
  | _,[] => []
  | prev,opt::options => (opt.number-prev)::gaps opt.number options

theorem encodeOptions_error_iff (hmin : ∀ opt ∈ options, prev ≤ opt.number)
    (hasc : options.Pairwise fun a b => a.number ≤ b.number) :
    (∃ e, encodeOptions prev options = .error e) ↔
      (∃ opt ∈ options, 65804 < opt.value.length) ∨ ∃ gap ∈ gaps prev options, 65804 < gap := by
  induction options generalizing prev with
  | nil => simp [encodeOptions,gaps]
  | cons opt options ih =>
      obtain ⟨hrel,hasc⟩ := List.pairwise_cons.mp hasc
      have hle := hmin opt List.mem_cons_self
      have hhead : (∃ e, encodeOptionHeader (opt.number-prev) opt.value.length = .error e) ↔
          65804 < opt.number-prev ∨ 65804 < opt.value.length := encodeOptionHeader_error_iff
      have hrec := ih hrel hasc
      rw [encodeOptions,if_neg (by omega)]
      simp only [List.exists_mem_cons_iff,gaps]
      cases hh : encodeOptionHeader (opt.number-prev) opt.value.length with
      | error e =>
          rw [hh] at hhead
          simp only [Except.error.injEq,exists_eq',true_iff]
          rcases hhead.mp ⟨e,rfl⟩ with h | h
          · exact .inr (.inl h)
          · exact .inl (.inl h)
      | ok head =>
          rw [hh] at hhead
          have hfit : ¬ (65804 < opt.number-prev ∨ 65804 < opt.value.length) := by
            intro hno
            obtain ⟨e,he⟩ := hhead.mpr hno
            cases he
          cases hr : encodeOptions opt.number options with
          | error e =>
              rw [hr] at hrec
              simp only [Except.error.injEq,exists_eq',true_iff]
              rcases hrec.mp ⟨e,rfl⟩ with h | h
              · exact .inl (.inr h)
              · exact .inr (.inr h)
          | ok rest =>
              rw [hr] at hrec
              simp only [reduceCtorEq,exists_false,false_iff] at hrec ⊢
              rintro ((h | h) | h | h)
              · exact hfit (.inr h)
              · exact hrec (.inl h)
              · exact hfit (.inl h)
              · exact hrec (.inr h)

end Options

/-- Sorted by number, with options of one number left in their order. -/
structure StablySorted (options sorted : List (CoapOption ℕ)) : Prop where
  perm : sorted.Perm options
  ascending : sorted.Pairwise fun a b => a.number ≤ b.number
  stable : ∀ n, sorted.filter (fun opt => opt.number = n) = options.filter fun opt => opt.number = n

theorem insertionSort_stablySorted (options : List (CoapOption ℕ)) :
    StablySorted options (options.insertionSort fun a b => a.number ≤ b.number) := by
  have hperm := List.perm_insertionSort (fun a b : CoapOption ℕ => a.number ≤ b.number) options
  have : Std.Total fun a b : CoapOption ℕ => a.number ≤ b.number := ⟨fun a b => Nat.le_total ..⟩
  have : IsTrans (CoapOption ℕ) fun a b => a.number ≤ b.number := ⟨fun a b c => Nat.le_trans⟩
  refine ⟨hperm,List.pairwise_insertionSort _ options,fun n => ?_⟩
  have hsub : (options.filter fun opt => opt.number = n).Sublist
      (options.insertionSort fun a b => a.number ≤ b.number) := by
    refine List.sublist_insertionSort ?_ List.filter_sublist
    refine List.pairwise_of_forall_mem_list fun a ha b hb => ?_
    simp only [List.mem_filter,decide_eq_true_eq] at ha hb
    omega
  have hfilter := hsub.filter fun opt => decide (opt.number = n)
  rw [List.filter_filter] at hfilter
  simp only [Bool.and_self] at hfilter
  exact (hfilter.eq_of_length ((hperm.filter _).length_eq).symm).symm

theorem payloadBytes_ending (payload : Bytes) : Ending payload (payloadBytes payload) := by
  cases payload with
  | nil => exact .absent
  | cons x payload => exact .marked _

/-- The message whose parts stand in what `encode` writes. -/
def normalized (msg : CoapMessage ℕ) : CoapMessage ℕ :=
  { msg with
    type := msg.type%4
    code := msg.code%256
    messageId := msg.messageId%65536
    options := msg.options.insertionSort fun a b => a.number ≤ b.number }

/-- The four header bytes and the fields they hold. -/
theorem header_bytes (type code messageId : ℤ) {tkl : ℕ} (h : tkl ≤ 8) :
    ∃ b0 b1 b2 b3 : UInt8, header type code messageId tkl = [b0,b1,b2,b3] ∧ b0.toNat/64 = 1 ∧
      b0.toNat%16 = tkl ∧ ((b0.toNat/16%4 : ℕ) : ℤ) = type%4 ∧ (b1.toNat : ℤ) = code%256 ∧
      (word16 b2 b3 : ℤ) = messageId%65536 := by
  have h0 : (UInt8.ofNat (64+(type%4).toNat*16+tkl%16)).toNat = 64+(type%4).toNat*16+tkl := by
    rw [UInt8.toNat_ofNat']
    omega
  have h1 : ((UInt8.ofNat (code%256).toNat).toNat : ℤ) = code%256 := by
    rw [UInt8.toNat_ofNat']
    omega
  have hw : (word16 (UInt8.ofNat ((messageId%65536).toNat/256))
      (UInt8.ofNat (messageId%65536).toNat) : ℤ) = messageId%65536 := by
    rw [word16_be16 _ (by omega)]
    omega
  refine ⟨_,_,_,_,rfl,?_,?_,?_,h1,hw⟩
  · rw [h0]
    omega
  · rw [h0]
    omega
  · rw [h0]
    omega

theorem header_of_bytes {b0 : UInt8} (b1 b2 b3 : UInt8) {tkl : ℕ} (hv : b0.toNat/64 = 1)
    (ht : b0.toNat%16 = tkl) :
    header ((b0.toNat/16%4 : ℕ) : ℤ) b1.toNat (word16 b2 b3) tkl = [b0,b1,b2,b3] := by
  have h1 := b1.toNat_lt
  have hw := word16_lt b2 b3
  have h0 : 64+(((b0.toNat/16%4 : ℕ) : ℤ)%4).toNat*16+tkl%16 = b0.toNat := by omega
  have hc : ((b1.toNat : ℤ)%256).toNat = b1.toNat := by omega
  have hm : ((word16 b2 b3 : ℤ)%65536).toNat = word16 b2 b3 := by omega
  rw [header,h0,hc,hm,be16_word16,UInt8.ofNat_toNat,UInt8.ofNat_toNat]

theorem encode_wire {msg : CoapMessage ℕ} {b : Bytes} (h : encode msg = .ok b) :
    Wire b (normalized msg) := by
  unfold encode at h
  split_ifs at h with ht
  split at h
  · cases h
  · next bs hbs =>
      obtain rfl := Except.ok.inj h
      obtain ⟨b0,b1,b2,b3,hhead,hv,htkl,htype,hcode,hid⟩ :=
        header_bytes msg.type msg.code msg.messageId (Nat.le_of_not_lt ht)
      have hw := @Wire.mk b0 b1 b2 b3 _ _ _ _ _ hv htkl (Nat.le_of_not_lt ht)
        (encodeOptions_bytes hbs) (payloadBytes_ending msg.payload)
      rw [htype,hcode,hid] at hw
      rw [hhead]
      simpa only [List.cons_append,List.nil_append,List.append_assoc,normalized] using hw

/-- `encode` refuses exactly what the format cannot hold, and `decode` returns
everything else as it was, up to the order of the options and the widths of the
header fields. -/
theorem decode_encode (msg : CoapMessage ℕ) :
    ∃ sorted, StablySorted msg.options sorted ∧
      ((∃ e, encode msg = .error e) ↔ 8 < msg.token.length ∨
        (∃ opt ∈ msg.options, 65804 < opt.value.length) ∨ ∃ gap ∈ gaps 0 sorted, 65804 < gap) ∧
      ∀ b, encode msg = .ok b →
        decode b = .ok { type := msg.type%4, code := msg.code%256,
                         messageId := msg.messageId%65536, token := msg.token,
                         options := sorted.map CoapOption.js, payload := msg.payload } := by
  have hsorted := insertionSort_stablySorted msg.options
  refine ⟨_,hsorted,?_,fun b h => (encode_wire h).decodes⟩
  have herr := encodeOptions_error_iff (fun opt _ => Nat.zero_le opt.number) hsorted.ascending
  have hmem : (∃ opt ∈ msg.options.insertionSort fun a b => a.number ≤ b.number,
      65804 < opt.value.length) ↔ ∃ opt ∈ msg.options, 65804 < opt.value.length := by
    simp only [List.mem_insertionSort]
  rw [hmem] at herr
  rw [← herr]
  unfold encode
  split_ifs with ht
  · simp [ht]
  · simp only [ht,false_or]
    cases encodeOptions 0 (msg.options.insertionSort fun a b => a.number ≤ b.number) <;> simp

/-- The message ends in a marker with no payload after it. -/
inductive BareMarked : Bytes → Prop
  | mk {b0 b1 b2 b3 : UInt8} {token optionBytes : Bytes} {options : List (CoapOption ℕ)} :
      b0.toNat/64 = 1 → b0.toNat%16 = token.length → token.length ≤ 8 →
      OptionsBytes 0 options optionBytes →
      BareMarked (b0::b1::b2::b3::(token++(optionBytes++[0xFF])))

theorem encode_of_parts {b0 b1 b2 b3 : UInt8} {token optionBytes payload : Bytes}
    {options : List (CoapOption ℕ)} (hv : b0.toNat/64 = 1) (ht : b0.toNat%16 = token.length)
    (h8 : token.length ≤ 8) (ho : OptionsBytes 0 options optionBytes) :
    encode { type := (b0.toNat/16%4 : ℕ), code := b1.toNat, messageId := word16 b2 b3, token,
             options, payload } =
      .ok (b0::b1::b2::b3::(token++(optionBytes++payloadBytes payload))) := by
  unfold encode
  rw [if_neg (by simpa using h8)]
  simp only [ho.ascending.2.insertionSort_eq,ho.encodes,header_of_bytes b1 b2 b3 hv ht,
    List.cons_append,List.nil_append,List.append_assoc]

/-- A message without a bare marker is what `encode` writes for its parts. -/
theorem Wire.encodes {b : Bytes} {w : CoapMessage ℕ} (h : Wire b w) (hb : ¬ BareMarked b) :
    encode w = .ok b := by
  cases h with
  | @mk b0 b1 b2 b3 token payload optionBytes ending options hv ht h8 ho he =>
      rw [encode_of_parts hv ht h8 ho]
      cases he with
      | absent => rfl
      | marked =>
          cases payload with
          | nil => exact absurd (.mk hv ht h8 ho) hb
          | cons x payload => rfl

theorem BareMarked.encodes {b : Bytes} {w : CoapMessage ℕ} (h : BareMarked b) (hw : Wire b w) :
    encode w = .ok b.dropLast := by
  cases h with
  | @mk b0 b1 b2 b3 token optionBytes options hv ht h8 ho =>
      have hmark := @Wire.mk b0 b1 b2 b3 _ _ _ _ _ hv ht h8 ho (.marked [])
      have hsame := hw.decodes.symm.trans hmark.decodes
      rw [CoapMessage.js_injective (Except.ok.inj hsame),encode_of_parts hv ht h8 ho]
      have hsplit : b0::b1::b2::b3::(token++(optionBytes++[0xFF])) =
          b0::b1::b2::b3::(token++optionBytes)++[0xFF] := by
        simp only [List.cons_append,List.append_assoc]
      rw [hsplit,List.dropLast_concat]
      simp only [payloadBytes,List.append_nil]

/-- The wire form is canonical: but for a bare marker, `encode` undoes `decode`. -/
theorem encode_decode {b : Bytes} {w : CoapMessage ℕ} (h : Wire b w) :
    decode b = .ok w.js ∧ (¬ BareMarked b → encode w = .ok b) ∧
      (BareMarked b → encode w = .ok b.dropLast) ∧
      ∀ b' w', Wire b' w' → ¬ BareMarked b → ¬ BareMarked b' → decode b = decode b' → b = b' := by
  refine ⟨h.decodes,h.encodes,fun hb => hb.encodes h,fun b' w' h' hb hb' hdec => ?_⟩
  rw [h.decodes,h'.decodes] at hdec
  have hw := CoapMessage.js_injective (Except.ok.inj hdec)
  have henc := h.encodes hb
  rw [hw,h'.encodes hb'] at henc
  exact (Except.ok.inj henc).symm

/-- A request with a token, two options and a bare marker. -/
theorem encode_decode_bare : decode [0x41,1,0,9,7,0xB1,0x74,0x01,0x75,0xFF] =
      .ok (CoapMessage.js ⟨0,1,9,[7],[⟨11,[0x74]⟩,⟨11,[0x75]⟩],[]⟩) ∧
    encode ⟨0,1,9,[7],[⟨11,[0x74]⟩,⟨11,[0x75]⟩],[]⟩ = .ok [0x41,1,0,9,7,0xB1,0x74,0x01,0x75] := by
  have hfirst : OptionBytes 0 ⟨11,[0x74]⟩ [0xB1,0x74] :=
    @OptionBytes.mk 0 0xB1 [] [] [0x74] 11 (.short (by decide)) (.short (by decide))
  have hsecond : OptionBytes 11 ⟨11,[0x75]⟩ [0x01,0x75] :=
    @OptionBytes.mk 11 0x01 [] [] [0x75] 0 (.short (by decide)) (.short (by decide))
  have ho : OptionsBytes 0 [⟨11,[0x74]⟩,⟨11,[0x75]⟩] ([0xB1,0x74]++([0x01,0x75]++[])) :=
    .cons hfirst (.cons hsecond (.nil _))
  have hw : Wire [0x41,1,0,9,7,0xB1,0x74,0x01,0x75,0xFF]
      ⟨0,1,9,[7],[⟨11,[0x74]⟩,⟨11,[0x75]⟩],[]⟩ :=
    @Wire.mk 0x41 1 0 9 [7] _ _ _ _ (by decide) (by decide) (by decide) ho (.marked [])
  obtain ⟨hdec,-,hbare,-⟩ := encode_decode hw
  exact ⟨hdec,hbare (@BareMarked.mk 0x41 1 0 9 [7] _ _ (by decide) (by decide) (by decide) ho)⟩

end SparkProtocol.Coap
