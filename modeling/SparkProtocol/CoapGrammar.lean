import SparkProtocol.Coap

/-!
# The grammar of CoAP messages

A message on the wire is a header of four bytes, a token, options and an ending.
An option is one byte whose two nibbles announce extension bytes, the extension
of the gap before that of the length, and then the value. Derivations are built
from these pieces; nothing here reads a buffer by position.

The option loop follows the derivations: it returns the parts of every string of
the grammar. The only other strings it accepts end where the extension byte of a
length is due. Reading that byte gives `undefined`, so the length is `NaN` and the
loop ends as if the message were complete.
-/
namespace SparkProtocol.Coap
open ByteStrings HostValues

/-- The bytes that a nibble announces, and the number they make. -/
inductive Extends : ℕ → Bytes → ℕ → Prop
  | short {v : ℕ} : v < 13 → Extends v [] v
  | byte (x : UInt8) : Extends 13 [x] (13+x.toNat)
  | word (hi lo : UInt8) : Extends 14 [hi,lo] (269+word16 hi lo)

/-- One option whose number is counted from `prev`. -/
inductive OptionBytes (prev : ℕ) : CoapOption ℕ → Bytes → Prop
  | mk {head : UInt8} {d l value : Bytes} {delta : ℕ} : Extends (head.toNat/16) d delta →
      Extends (head.toNat%16) l value.length →
      OptionBytes prev ⟨prev+delta,value⟩ (head::(d++l++value))

inductive OptionsBytes : ℕ → List (CoapOption ℕ) → Bytes → Prop
  | nil (prev : ℕ) : OptionsBytes prev [] []
  | cons {prev : ℕ} {opt : CoapOption ℕ} {options : List (CoapOption ℕ)} {b bs : Bytes} :
      OptionBytes prev opt b → OptionsBytes opt.number options bs →
      OptionsBytes prev (opt::options) (b++bs)

/-- The payload and what stands on the wire for it. A bare marker has an empty one. -/
inductive Ending : Bytes → Bytes → Prop
  | absent : Ending [] []
  | marked (payload : Bytes) : Ending payload (0xFF::payload)

/-- The parts of a complete message. -/
inductive Wire : Bytes → CoapMessage ℕ → Prop
  | mk {b0 b1 b2 b3 : UInt8} {token payload optionBytes ending : Bytes}
      {options : List (CoapOption ℕ)} :
      b0.toNat/64 = 1 → b0.toNat%16 = token.length → token.length ≤ 8 →
      OptionsBytes 0 options optionBytes → Ending payload ending →
      Wire (b0::b1::b2::b3::(token++(optionBytes++ending)))
        { type := (b0.toNat/16%4 : ℕ), code := b1.toNat, messageId := word16 b2 b3, token, options,
          payload }

/-- Complete options, and then an option whose length is announced by a byte that
is missing. Before it the extension of the gap may be missing as well. -/
inductive CutShort : ℕ → Bytes → Prop
  | here {prev : ℕ} {head : UInt8} {d : Bytes} : head.toNat%16 = 13 →
      ((∃ delta, Extends (head.toNat/16) d delta) ∨ head.toNat/16 = 13 ∧ d = []) →
      CutShort prev (head::d)
  | later {prev : ℕ} {opt : CoapOption ℕ} {b bs : Bytes} : OptionBytes prev opt b →
      CutShort opt.number bs → CutShort prev (b++bs)

inductive CutShortMessage : Bytes → Prop
  | mk {b0 b1 b2 b3 : UInt8} {token rest : Bytes} : b0.toNat/64 = 1 →
      b0.toNat%16 = token.length → token.length ≤ 8 → CutShort 0 rest →
      CutShortMessage (b0::b1::b2::b3::(token++rest))

/-- A message as `decode` returns it. -/
def CoapOption.js (opt : CoapOption ℕ) : CoapOption JsNumber := ⟨.nat opt.number,opt.value⟩

def CoapMessage.js (msg : CoapMessage ℕ) : CoapMessage JsNumber :=
  { type := msg.type, code := msg.code, messageId := msg.messageId, token := msg.token,
    options := msg.options.map CoapOption.js, payload := msg.payload }

theorem CoapOption.js_injective : Function.Injective CoapOption.js := by
  rintro ⟨m,a⟩ ⟨n,b⟩ h
  simpa [CoapOption.js] using h

theorem CoapMessage.js_injective : Function.Injective CoapMessage.js := by
  rintro ⟨t,c,i,k,o,p⟩ ⟨t',c',i',k',o',p'⟩ h
  simp only [CoapMessage.js,CoapMessage.mk.injEq] at h
  obtain ⟨rfl,rfl,rfl,rfl,ho,rfl⟩ := h
  rw [List.map_injective_iff.mpr CoapOption.js_injective ho]

theorem Extends.lt {v n : ℕ} {d : Bytes} (h : Extends v d n) : v < 15 := by
  cases h <;> omega

section Reading
variable {buf rest : Bytes} {pos : ℕ}

theorem getElem?_of_drop {x : UInt8} (h : buf.drop pos = x::rest) : buf[pos]? = some x := by
  have hx : (buf.drop pos)[0]? = buf[pos+0]? := List.getElem?_drop
  rw [h] at hx
  simpa using hx.symm

theorem drop_succ_of_drop {x : UInt8} (h : buf.drop pos = x::rest) : buf.drop (pos+1) = rest := by
  rw [← List.drop_drop,h,List.drop_one,List.tail_cons]

theorem drop_add_of_drop {d : Bytes} (h : buf.drop pos = d++rest) :
    buf.drop (pos+d.length) = rest := by
  rw [← List.drop_drop,h,List.drop_left]

theorem length_of_drop {d : Bytes} (hp : pos ≤ buf.length) (h : buf.drop pos = d) :
    buf.length = pos+d.length := by
  have hl := congrArg List.length h
  rw [List.length_drop] at hl
  omega

theorem slice_of_drop {d : Bytes} (h : buf.drop pos = d++rest) : slice buf pos (pos+d.length) = d := by
  rw [slice,h,Nat.add_sub_cancel_left,List.take_left]

theorem readUInt16BE_of_drop {hi lo : UInt8} (h : buf.drop pos = hi::lo::rest) :
    readUInt16BE buf pos = .ok (word16 hi lo) := by
  simp [readUInt16BE,h,readBe16]

theorem drop_of_readUInt16BE {w : ℕ} (h : readUInt16BE buf pos = .ok w) :
    ∃ hi lo, w = word16 hi lo ∧ buf.drop pos = hi::lo::buf.drop (pos+2) := by
  unfold readUInt16BE at h
  rw [← List.drop_drop]
  match hd : buf.drop pos with
  | [] => simp [hd,readBe16] at h
  | [x] => simp [hd,readBe16] at h
  | hi::lo::tl =>
      simp only [hd,readBe16,Except.ok.injEq] at h
      exact ⟨hi,lo,h.symm,rfl⟩

/-- Reading an extension that is there. -/
theorem extended_of_extends {v n : ℕ} {d : Bytes} (h : Extends v d n) (hb : buf.drop pos = d++rest) :
    extended buf v pos = .ok (.nat n,pos+d.length) := by
  cases h with
  | short hv =>
      unfold extended
      rw [if_neg (by omega),if_neg (by omega)]
      rfl
  | byte x => simp [extended,byteAt,getElem?_of_drop hb]
  | word hi lo => simp [extended,readUInt16BE_of_drop hb]

/-- Reading past the end: a byte extension gives `NaN`, with the position moved on. -/
theorem extended_missing (hb : buf.drop pos = []) : extended buf 13 pos = .ok (.nan,pos+1) := by
  have hnone : buf[pos]? = none := List.getElem?_eq_none (List.drop_eq_nil_iff.mp hb)
  simp [extended,byteAt,hnone,JsNumber.add]

theorem extended_cases {v pos' : ℕ} {n : JsNumber} (hv : v < 15)
    (h : extended buf v pos = .ok (n,pos')) :
    (∃ d m, n = .nat m ∧ Extends v d m ∧ pos' = pos+d.length ∧ buf.drop pos = d++buf.drop pos') ∨
      (v = 13 ∧ n = .nan ∧ buf.drop pos = [] ∧ pos' = pos+1) := by
  unfold extended at h
  split_ifs at h with h13 h14
  · subst h13
    obtain ⟨rfl,rfl⟩ := Prod.mk.inj (Except.ok.inj h)
    cases hd : buf.drop pos with
    | nil =>
        refine .inr ⟨rfl,?_,rfl,rfl⟩
        simp [byteAt,List.getElem?_eq_none (List.drop_eq_nil_iff.mp hd),JsNumber.add]
    | cons x tl =>
        refine .inl ⟨[x],13+x.toNat,?_,.byte x,rfl,?_⟩
        · simp [byteAt,getElem?_of_drop hd]
        · rw [drop_succ_of_drop hd]
          rfl
  · subst h14
    split at h
    · next w hw =>
        obtain ⟨rfl,rfl⟩ := Prod.mk.inj (Except.ok.inj h)
        obtain ⟨hi,lo,rfl,hd⟩ := drop_of_readUInt16BE hw
        exact .inl ⟨[hi,lo],_,rfl,.word hi lo,rfl,hd⟩
    · cases h
  · obtain ⟨rfl,rfl⟩ := Prod.mk.inj (Except.ok.inj h)
    exact .inl ⟨[],v,rfl,.short (by omega),rfl,rfl⟩

end Reading

section Loop
variable {buf bs ending payload : Bytes} {fuel pos prev : ℕ} {options : List (CoapOption ℕ)}

theorem head_ne_marker {head : UInt8} (h : head.toNat/16 < 15) : head ≠ 0xFF := by
  rintro rfl
  exact absurd h (by decide)

/-- The loop over one complete option. -/
theorem decodeOptions_option {opt : CoapOption ℕ} {b rest : Bytes} (h : OptionBytes prev opt b)
    (hp : pos ≤ buf.length) (hb : buf.drop pos = b++rest) :
    decodeOptions buf (fuel+1) pos (.nat prev) =
      (decodeOptions buf fuel (pos+b.length) (.nat opt.number)).map fun r => (opt.js::r.1,r.2) := by
  cases h with
  | @mk head d l value delta hd hl =>
      have hhead : buf.drop pos = head::(d++(l++(value++rest))) := by
        simpa only [List.cons_append,List.append_assoc] using hb
      have hdelta := drop_succ_of_drop hhead
      have hlen := drop_add_of_drop hdelta
      have hval := drop_add_of_drop hlen
      have hsize := length_of_drop hp hhead
      simp only [List.length_cons,List.length_append] at hsize
      have hnib : ¬ (head.toNat/16 = 15 ∨ head.toNat%16 = 15) := by
        have h1 := hd.lt
        have h2 := hl.lt
        omega
      have hfit : ¬ pos+1+d.length+l.length+value.length > buf.length := by omega
      have hpos : pos+1+d.length+l.length+value.length =
          pos+(head::(d++l++value)).length := by
        simp only [List.length_cons,List.length_append]
        omega
      rw [decodeOptions,getElem?_of_drop hhead]
      simp only [head_ne_marker hd.lt,↓reduceIte,hnib,extended_of_extends hd hdelta,
        extended_of_extends hl hlen,hfit,slice_of_drop hval,JsNumber.add_nat]
      rw [hpos]
      cases decodeOptions buf fuel (pos+(head::(d++l++value)).length) (.nat (prev+delta)) with
      | error e => rfl
      | ok r => rfl

theorem OptionBytes.length_pos {opt : CoapOption ℕ} {b : Bytes} (h : OptionBytes prev opt b) :
    0 < b.length := by
  cases h
  exact Nat.succ_pos _

/-- The loop returns the parts of every string of the grammar. -/
theorem decodeOptions_options (h : OptionsBytes prev options bs) (he : Ending payload ending)
    (hp : pos ≤ buf.length) (hb : buf.drop pos = bs++ending) (hf : (bs++ending).length ≤ fuel) :
    ∃ stop, decodeOptions buf fuel pos (.nat prev) = .ok (options.map CoapOption.js,.nat stop) ∧
      buf.drop stop = payload := by
  induction h generalizing pos fuel with
  | nil prev =>
      cases he with
      | absent =>
          have hnone : buf[pos]? = none := List.getElem?_eq_none (List.drop_eq_nil_iff.mp hb)
          refine ⟨pos,?_,hb⟩
          cases fuel with
          | zero => rfl
          | succ fuel => simp [decodeOptions,hnone]
      | marked =>
          cases fuel with
          | zero => simp at hf
          | succ fuel =>
              refine ⟨pos+1,?_,drop_succ_of_drop hb⟩
              simp [decodeOptions,getElem?_of_drop hb]
  | @cons prev opt options b bs ho _ ih =>
      rw [List.append_assoc] at hb hf
      have hsize := length_of_drop hp hb
      rw [List.length_append] at hf hsize
      have hpos := ho.length_pos
      cases fuel with
      | zero => omega
      | succ fuel =>
          have hfuel : (bs++ending).length ≤ fuel := by omega
          obtain ⟨stop,hrec,hstop⟩ := ih (by omega) (drop_add_of_drop hb) hfuel
          refine ⟨stop,?_,hstop⟩
          rw [decodeOptions_option ho hp hb,hrec]
          rfl

/-- A string that is cut short is accepted, with no position left to read on from. -/
theorem decodeOptions_cutShort (h : CutShort prev bs) (hp : pos ≤ buf.length)
    (hb : buf.drop pos = bs) (hf : bs.length ≤ fuel) :
    ∃ options, decodeOptions buf fuel pos (.nat prev) = .ok (options,.nan) := by
  induction h generalizing pos fuel with
  | @here prev head d hl hd =>
      cases fuel with
      | zero => simp at hf
      | succ fuel =>
          have hdelta := drop_succ_of_drop hb
          have hnib : ¬ (head.toNat/16 = 15 ∨ head.toNat%16 = 15) := by
            rcases hd with ⟨delta,hd⟩ | ⟨hd,-⟩
            · have h1 := hd.lt
              omega
            · omega
          have hne : head ≠ 0xFF := head_ne_marker (by
            rcases hd with ⟨delta,hd⟩ | ⟨hd,-⟩
            · exact hd.lt
            · omega)
          have hext : ∃ number pos', extended buf (head.toNat/16) (pos+1) = .ok (number,pos') ∧
              buf.drop pos' = [] := by
            rcases hd with ⟨delta,hd⟩ | ⟨hd,rfl⟩
            · rw [← List.append_nil d] at hdelta
              exact ⟨_,_,extended_of_extends hd hdelta,drop_add_of_drop hdelta⟩
            · rw [hd]
              refine ⟨_,_,extended_missing hdelta,?_⟩
              rw [← List.drop_drop,hdelta,List.drop_nil]
          obtain ⟨number,pos',hext,hend⟩ := hext
          refine ⟨[⟨(JsNumber.nat prev).add number,[]⟩],?_⟩
          rw [decodeOptions,getElem?_of_drop hb]
          dsimp only
          rw [if_neg hne,if_neg hnib,hext,hl]
          simp only [extended_missing hend]
  | @later prev opt b bs ho _ ih =>
      have hsize := length_of_drop hp hb
      have hpos := ho.length_pos
      rw [List.length_append] at hf hsize
      cases fuel with
      | zero => omega
      | succ fuel =>
          have hfuel : bs.length ≤ fuel := by omega
          obtain ⟨options,hrec⟩ := ih (by omega) (drop_add_of_drop hb) hfuel
          refine ⟨opt.js::options,?_⟩
          rw [decodeOptions_option ho hp hb,hrec]
          rfl

/-- The length byte is missing, so the string ends with the bytes of the gap. -/
theorem cutShort_of_missing {head : UInt8} {rest : Bytes} {delta : JsNumber} {pos1 stop : ℕ}
    (hb : buf.drop pos = head::rest) (hd15 : head.toNat/16 < 15) (hl15 : head.toNat%16 < 15)
    (hdelta : extended buf (head.toNat/16) (pos+1) = .ok (delta,pos1))
    (hlen : extended buf (head.toNat%16) pos1 = .ok (.nan,stop)) : CutShort prev (head::rest) := by
  have hrest := drop_succ_of_drop hb
  rcases extended_cases hl15 hlen with ⟨_,_,hn,-⟩ | ⟨hl,-,hend,-⟩
  · cases hn
  refine .here hl ?_
  rcases extended_cases hd15 hdelta with ⟨d,m,-,hd,rfl,hdrop⟩ | ⟨hd,-,hnil,-⟩
  · rw [hrest,hend,List.append_nil] at hdrop
    exact .inl ⟨m,hdrop ▸ hd⟩
  · exact .inr ⟨hd,hrest.symm.trans hnil⟩

/-- The value is there, so the string begins with an option. -/
theorem option_of_fits (prev : ℕ) {head : UInt8} {rest : Bytes} {delta : JsNumber} {pos1 pos2 len : ℕ}
    (hb : buf.drop pos = head::rest) (hd15 : head.toNat/16 < 15) (hl15 : head.toNat%16 < 15)
    (hdelta : extended buf (head.toNat/16) (pos+1) = .ok (delta,pos1))
    (hlen : extended buf (head.toNat%16) pos1 = .ok (.nat len,pos2))
    (hfit : ¬ pos2+len > buf.length) :
    ∃ m value b, delta = .nat m ∧ OptionBytes prev ⟨prev+m,value⟩ b ∧ pos < pos2 ∧
      head::rest = b++buf.drop (pos2+len) := by
  have hrest := drop_succ_of_drop hb
  rcases extended_cases hd15 hdelta with ⟨d,m,rfl,hd,rfl,hdrop⟩ | ⟨-,-,hnil,rfl⟩
  · rcases extended_cases hl15 hlen with ⟨l,_,hn,hl,rfl,hval⟩ | ⟨-,hn,-⟩
    · obtain rfl := JsNumber.nat.inj hn
      -- the value and what follows it
      have hv := (List.take_append_drop len (buf.drop (pos+1+d.length+l.length))).symm
      rw [List.drop_drop] at hv
      have hsize : ((buf.drop (pos+1+d.length+l.length)).take len).length = len := by
        rw [List.length_take,List.length_drop]
        omega
      generalize (buf.drop (pos+1+d.length+l.length)).take len = value at hv hsize
      subst hsize
      refine ⟨m,value,_,rfl,.mk hd hl,by omega,?_⟩
      rw [← hrest,hdrop,hval,hv]
      simp only [List.cons_append,List.append_assoc]
    · cases hn
  · -- the gap is missing, so the position is past the end
    have hsize := List.drop_eq_nil_iff.mp hnil
    rcases extended_cases hl15 hlen with ⟨l,_,-,-,rfl,-⟩ | ⟨-,hn,-⟩
    · omega
    · cases hn

/-- Nothing else is accepted. -/
theorem decodeOptions_ok {options : List (CoapOption JsNumber)} {stop : JsNumber}
    (hf : buf.length ≤ pos+fuel)
    (h : decodeOptions buf fuel pos (.nat prev) = .ok (options,stop)) :
    (∃ options' bs payload ending, OptionsBytes prev options' bs ∧ Ending payload ending ∧
      buf.drop pos = bs++ending) ∨ CutShort prev (buf.drop pos) := by
  induction fuel generalizing pos prev options stop with
  | zero => exact .inl ⟨[],[],[],[],.nil prev,.absent,List.drop_eq_nil_of_le hf⟩
  | succ fuel ih =>
      cases hb : buf.drop pos with
      | nil => exact .inl ⟨[],[],[],[],.nil prev,.absent,rfl⟩
      | cons head rest =>
          rw [decodeOptions,getElem?_of_drop hb] at h
          dsimp only at h
          split_ifs at h with hff hnib
          · subst hff
            exact .inl ⟨[],[],rest,_,.nil prev,.marked rest,rfl⟩
          · have hd15 : head.toNat/16 < 15 := by
              have hlt := head.toNat_lt
              omega
            have hl15 : head.toNat%16 < 15 := by omega
            split at h
            · cases h
            · next delta pos1 hdelta =>
                split at h
                · cases h
                · next stop' hlen =>
                    exact .inr (cutShort_of_missing hb hd15 hl15 hdelta hlen)
                · next len pos2 hlen =>
                    split_ifs at h with hfit
                    obtain ⟨m,value,b,rfl,hone,hpos,hsplit⟩ :=
                      option_of_fits prev hb hd15 hl15 hdelta hlen hfit
                    rw [hsplit]
                    split at h
                    · cases h
                    · next hrec =>
                        rcases ih (by omega) hrec with
                          ⟨options',bs,payload,ending,ho,he,hend⟩ | hcut
                        · refine .inl ⟨_,_,payload,ending,.cons hone ho,he,?_⟩
                          rw [hend,List.append_assoc]
                        · exact .inr (.later hone hcut)

end Loop

/-- The payload, from where the options have ended. -/
def payloadFrom (buf : Bytes) : JsNumber → Bytes
  | .nat pos => buf.drop pos
  | .nan => []

/-- What `decode` does after a sound header and a whole token. -/
theorem decode_headed {b0 b1 b2 b3 : UInt8} {token rest : Bytes} (hv : b0.toNat/64 = 1)
    (ht : b0.toNat%16 = token.length) (h8 : token.length ≤ 8) :
    decode (b0::b1::b2::b3::(token++rest)) =
      (decodeOptions (b0::b1::b2::b3::(token++rest)) (token.length+rest.length+4)
        (4+token.length) (.nat 0)).map fun r =>
          { type := (b0.toNat/16%4 : ℕ), code := b1.toNat, messageId := word16 b2 b3, token,
            options := r.1, payload := payloadFrom (b0::b1::b2::b3::(token++rest)) r.2 } := by
  have hlen : (b0::b1::b2::b3::(token++rest)).length = token.length+rest.length+4 := by
    simp only [List.length_cons,List.length_append]
  have hdrop : (b0::b1::b2::b3::(token++rest)).drop 4 = token++rest := rfl
  have hslice := slice_of_drop hdrop
  unfold decode
  dsimp only
  rw [if_neg (by omega),ht,if_neg (by omega),if_neg (by omega),hlen,hslice]
  cases decodeOptions (b0::b1::b2::b3::(token++rest)) (token.length+rest.length+4)
      (4+token.length) (.nat 0) with
  | error e => rfl
  | ok r => rfl

theorem drop_headed (b0 b1 b2 b3 : UInt8) (token rest : Bytes) :
    (b0::b1::b2::b3::(token++rest)).drop (4+token.length) = rest := by
  have hdrop : (b0::b1::b2::b3::(token++rest)).drop 4 = token++rest := rfl
  exact drop_add_of_drop hdrop

/-- The loop over what follows the token of a complete message. -/
theorem Wire.options_end {b0 b1 b2 b3 : UInt8} {token rest : Bytes} {w : CoapMessage ℕ}
    (h : Wire (b0::b1::b2::b3::(token++rest)) w) (ht : b0.toNat%16 = token.length) :
    w.token = token ∧ ∃ stop,
      decodeOptions (b0::b1::b2::b3::(token++rest)) (token.length+rest.length+4) (4+token.length)
        (.nat 0) = .ok (w.options.map CoapOption.js,.nat stop) ∧
      (b0::b1::b2::b3::(token++rest)).drop stop = w.payload := by
  generalize hb : b0::b1::b2::b3::(token++rest) = b at h ⊢
  cases h with
  | @mk c0 c1 c2 c3 token' payload optionBytes ending options hv' ht' h8' ho he =>
      simp only [List.cons.injEq] at hb
      obtain ⟨rfl,rfl,rfl,rfl,hb⟩ := hb
      obtain ⟨rfl,rfl⟩ := List.append_inj hb (ht.symm.trans ht')
      refine ⟨rfl,decodeOptions_options ho he ?_ (drop_headed ..) (by omega)⟩
      simp only [List.length_cons,List.length_append]
      omega

theorem Wire.decodes {b : Bytes} {w : CoapMessage ℕ} (h : Wire b w) : decode b = .ok w.js := by
  have hw := h
  cases h with
  | mk hv ht h8 ho he =>
      obtain ⟨-,stop,hopts,hpay⟩ := hw.options_end ht
      rw [decode_headed hv ht h8,hopts]
      simp only [Except.map,payloadFrom,hpay,CoapMessage.js]

/-- A message that is cut short is accepted although it is none. -/
theorem CutShortMessage.decodes {b : Bytes} (h : CutShortMessage b) :
    (∃ msg, decode b = .ok msg) ∧ ∀ w, ¬ Wire b w := by
  cases h with
  | @mk b0 b1 b2 b3 token rest hv ht h8 hcut =>
      have hlen : 4+token.length ≤ (b0::b1::b2::b3::(token++rest)).length := by
        simp only [List.length_cons,List.length_append]
        omega
      have hfuel : rest.length ≤ token.length+rest.length+4 := by omega
      obtain ⟨options,hopts⟩ := decodeOptions_cutShort hcut hlen (drop_headed ..) hfuel
      constructor
      · exact ⟨_,by rw [decode_headed hv ht h8,hopts]; rfl⟩
      · intro w hw
        obtain ⟨-,stop,hstop,-⟩ := hw.options_end ht
        rw [hopts] at hstop
        simp at hstop

theorem wire_or_cutShort {b : Bytes} {msg : CoapMessage JsNumber} (h : decode b = .ok msg) :
    (∃ w, Wire b w) ∨ CutShortMessage b := by
  have hd := h
  unfold decode at h
  split at h
  · next b0 b1 b2 b3 tail =>
      dsimp only at h
      split_ifs at h with hv h8 hl
      obtain ⟨token,rest,htail,ht⟩ : ∃ token rest, tail = token++rest ∧ token.length = b0.toNat%16 := by
        refine ⟨_,_,(List.take_append_drop (b0.toNat%16) tail).symm,?_⟩
        rw [List.length_take]
        simp only [List.length_cons] at hl
        omega
      subst htail
      have hver : b0.toNat/64 = 1 := by
        have hlt := b0.toNat_lt
        omega
      rw [decode_headed hver ht.symm (by omega)] at hd
      cases hopts : decodeOptions (b0::b1::b2::b3::(token++rest)) (token.length+rest.length+4)
          (4+token.length) (.nat 0) with
      | error e =>
          rw [hopts] at hd
          cases hd
      | ok r =>
          obtain ⟨options,stop⟩ := r
          have hfuel : (b0::b1::b2::b3::(token++rest)).length ≤
              4+token.length+(token.length+rest.length+4) := by
            simp only [List.length_cons,List.length_append]
            omega
          have hok := decodeOptions_ok hfuel hopts
          rw [drop_headed] at hok
          rcases hok with ⟨options',bs,payload,ending,ho,he,rfl⟩ | hcut
          · exact .inl ⟨_,.mk hver ht.symm (by omega) ho he⟩
          · exact .inr (.mk hver ht.symm (by omega) hcut)
  · cases h

/-- `decode` returns the parts of the complete messages, and on nothing else, exactly
where the last length is not cut off. -/
theorem decode_grammar_iff (b : Bytes) :
    (∀ msg, decode b = .ok msg ↔ ∃ w, Wire b w ∧ msg = w.js) ↔ ¬ CutShortMessage b := by
  constructor
  · intro h hcut
    obtain ⟨⟨msg,hmsg⟩,hno⟩ := hcut.decodes
    obtain ⟨w,hw,-⟩ := (h msg).mp hmsg
    exact hno w hw
  · intro hcut msg
    constructor
    · intro h
      obtain ⟨w,hw⟩ := (wire_or_cutShort h).resolve_right hcut
      exact ⟨w,hw,Except.ok.inj (h.symm.trans hw.decodes)⟩
    · rintro ⟨w,hw,rfl⟩
      exact hw.decodes

/-- An empty confirmable GET whose only option ends with its header byte. -/
theorem missingLength_accepted : ¬ ∀ b msg, decode b = .ok msg ↔ ∃ w, Wire b w ∧ msg = w.js := by
  intro h
  have hcut : CutShortMessage [0x40,1,0,0,0x0D] :=
    @CutShortMessage.mk 0x40 1 0 0 [] [0x0D] (by decide) (by decide) (by decide)
      (.here (by decide) (.inl ⟨0,.short (by decide)⟩))
  obtain ⟨⟨msg,hmsg⟩,hno⟩ := hcut.decodes
  obtain ⟨w,hw,-⟩ := (h _ msg).mp hmsg
  exact hno w hw

end SparkProtocol.Coap
