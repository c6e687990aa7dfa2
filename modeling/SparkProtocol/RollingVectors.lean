import SparkProtocol.SessionChannels
import SparkProtocol.SessionLifecycle

/-!
# The rolling vectors

Outbound, three callers share one vector and one socket, but each of them ends in
`_sendPlain`. Along any run whose plaintexts fit a frame, what was written is the
chained sealing of what was said, and a receiver which parses, opens and rolls
ends with the same vector.

Inbound, the vector is the first block of the last frame as long as that frame
had a block. The two ways out of step are both at the edge of the length field:
a frame of length zero has no first block, and a message too long for a frame
rolls the outbound vector without being written.
-/
namespace SparkProtocol.Sessions
open ByteStrings HostValues StreamPrograms Program Crypto Chunking Coap Messages Handshake
  ByteQueues OrderedMaps FramedStreams BlockChaining LabelledRuns Session

def received (l : List Out) : List Bytes :=
  l.filterMap fun
    | .frameIn ct => some ct
    | _ => none

def plains (l : List Out) : List Bytes :=
  l.filterMap fun
    | .plainOut plain => some plain
    | _ => none

def wire (l : List Out) : List Bytes :=
  l.filterMap fun
    | .write b => some b
    | _ => none

@[simp] theorem received_append (l m : List Out) : received (l++m) = received l++received m :=
  List.filterMap_append ..

@[simp] theorem plains_append (l m : List Out) : plains (l++m) = plains l++plains m :=
  List.filterMap_append ..

@[simp] theorem wire_append (l m : List Out) : wire (l++m) = wire l++wire m :=
  List.filterMap_append ..

/-- What passed on the channels between two states of a run. -/
def exchanged (s t : Session) : List Out := (channel t.trace).drop (channel s.trace).length

theorem exchanged_eq {s t : Session} {l : List Out} (h : channel t.trace = channel s.trace++l) :
    exchanged s t = l := by
  rw [exchanged,h]
  exact List.drop_left

@[simp] theorem exchanged_self (s : Session) : exchanged s s = [] :=
  exchanged_eq (List.append_nil _).symm

/-- A plaintext whose ciphertext has a 16-bit length. -/
def Fits (plain : Bytes) : Prop := (plain.length/16+1)*16 < 65536

instance : DecidablePred Fits := fun _ => inferInstanceAs (Decidable (_ < _))

/-- The far end of the outbound channel: bodies by their length prefix, each
opened under the vector rolled so far. The last component is what is left over. -/
def receive (node : Primitives) (key iv b : Bytes) : Except JsError (List Bytes × Bytes × Bytes) :=
  let r := parse 0 b.length b
  match openAll firstBlock (aesDecrypt node key) iv r.1 with
  | .error e => .error e
  | .ok (plains,iv) => .ok (plains,iv,r.2)

theorem receive_frames {node : Primitives} {key iv iv' : Bytes} {ps cts : List Bytes}
    (h : sealAll firstBlock (aesEncrypt node key) iv ps = .ok (cts,iv'))
    (hl : ∀ ct ∈ cts, ct.length < 65536) :
    receive node key iv (cts.map (frame [])).flatten = .ok (ps,iv',[]) := by
  have hp : parse 0 (cts.map (frame [])).flatten.length (cts.map (frame [])).flatten = (cts,[]) := by
    rw [← List.flatMap_def]
    exact parse_frames [] cts _ (length_le_flatMap_frame [] cts) hl
  have undo : ∀ i x y, aesEncrypt node key i x = .ok y → aesDecrypt node key i y = .ok x :=
    fun _ _ _ he => aesDecrypt_aesEncrypt he
  have ho : openAll firstBlock (aesDecrypt node key) iv cts = .ok (ps,iv') :=
    openAll_sealAll undo h
  simp only [receive,hp,ho]

/-- `_sendPlain` throws for a long plaintext and for nothing else. -/
theorem sendPlain_ok_iff {node : Primitives} {s : Session} (hk : s.aesKey.length = 16)
    (hi : s.ivOut.length = 16) (plain : Bytes) :
    (s.sendPlain node plain).2 = .ok () ↔ Fits plain := by
  obtain ⟨ct,hct⟩ := aesEncrypt_total node hk hi plain
  have hlen := aesEncrypt_length hct
  by_cases hl : ct.length < 65536
  · rw [sendPlain_ok hct hl]
    exact iff_of_true rfl (by unfold Fits; omega)
  · have hf : encodeFrame ct = .error (exceedsPrefix ct.length) := by
      unfold encodeFrame
      rw [if_pos (by omega)]
    refine iff_of_false ?_ (by unfold Fits; omega)
    simp [sendPlain,log,hct,hf]

/-- Since `s`: what was said is sealed in what was written, under one chain. -/
structure Sealed (node : Primitives) (s t : Session) : Prop where
  framed : Framed t
  key : t.aesKey = s.aesKey
  ivOut : t.ivOut.length = 16
  grows : channel t.trace = channel s.trace++exchanged s t
  chain : (∀ p ∈ plains (exchanged s t), Fits p) → ∃ cts,
    sealAll firstBlock (aesEncrypt node s.aesKey) s.ivOut (plains (exchanged s t)) =
        .ok (cts,t.ivOut) ∧
      wire (exchanged s t) = cts.map (frame []) ∧ ∀ ct ∈ cts, ct.length < 65536

theorem Sealed.start (node : Primitives) {s : Session} (hf : Framed s) (hi : s.ivOut.length = 16) :
    Sealed node s s :=
  ⟨hf,rfl,hi,by simp,fun _ => ⟨[],by simp [sealAll,plains],by simp [wire],by simp⟩⟩

/-- One step appends to the exchange what it took and what it sent. -/
theorem Conveys.appends {node : Primitives} {s t u : Session} {taken sent : Option Bytes}
    (h : Conveys node t taken sent u) (hg : channel t.trace = channel s.trace++exchanged s t) :
    ∃ l, Sends node t.aesKey t.ivOut sent u.ivOut l ∧
      exchanged s u = exchanged s t++((taken.map Out.frameIn).toList++l) ∧
      channel u.trace = channel s.trace++exchanged s u := by
  obtain ⟨l,hs,hl⟩ := h.ivOut
  have hc : channel u.trace = channel s.trace++(exchanged s t++((taken.map Out.frameIn).toList++l)) := by
    rw [hl,hg,exchanged_eq hg,List.append_assoc]
  have he := exchanged_eq hc
  exact ⟨l,hs,he,he ▸ hc⟩

theorem plains_frameIn (o : Option Bytes) : plains (o.map Out.frameIn).toList = [] := by
  cases o <;> rfl

theorem wire_frameIn (o : Option Bytes) : wire (o.map Out.frameIn).toList = [] := by
  cases o <;> rfl

theorem sealed_keeps {cfg : Config} {s t u : Session} {e : Event} (hk : s.aesKey.length = 16)
    (ht : Sealed cfg.node s t) (h : step cfg t e = some u) : Sealed cfg.node s u := by
  have hv := step_conveys ht.framed h
  obtain ⟨l,hs,he,hg⟩ := hv.appends ht.grows
  refine ⟨hv.framed,hv.key.trans ht.key,hs.ivOut_length ht.ivOut,hg,fun hfit => ?_⟩
  have hp : plains (exchanged s u) = plains (exchanged s t)++plains l := by
    simp [he,plains_frameIn]
  have hw : wire (exchanged s u) = wire (exchanged s t)++wire l := by
    simp [he,wire_frameIn]
  rw [hp] at hfit ⊢
  rw [hw]
  obtain ⟨cts,hseal,hwire,hlen⟩ := ht.chain fun p hm => hfit p (List.mem_append_left _ hm)
  rw [ht.key] at hs
  generalize u.ivOut = iv' at hs ⊢
  generalize outgoing cfg.node t e = sent at hs
  cases hs with
  | silent => exact ⟨cts,by simpa [plains] using hseal,by simpa [wire] using hwire,hlen⟩
  | @once plain _ _ hs =>
      cases hs with
      | refused hr =>
          obtain ⟨ct,hct⟩ := aesEncrypt_total cfg.node hk ht.ivOut plain
          rw [hct] at hr
          cases hr
      | oversize hr hl =>
          rw [aesEncrypt_length hr] at hl
          exact absurd (hfit plain (by simp [plains])) (Nat.not_lt.mpr hl)
      | @sent ct hr hl =>
          refine ⟨cts++[ct],by simpa [plains] using sealAll_snoc hseal hr,by
            rw [hwire,List.map_append]
            rfl,?_⟩
          intro c hc
          rcases List.mem_append.mp hc with hc | hc
          · exact hlen c hc
          · obtain rfl := List.mem_singleton.mp hc
            exact hl

theorem sealed_run {cfg : Config} {s t : Session} {es : List Event} (hk : s.aesKey.length = 16)
    (hi : s.ivOut.length = 16) (hf : Framed s) (h : Run (step cfg) s es t) : Sealed cfg.node s t :=
  h.keeps (fun _ _ _ _ => sealed_keeps hk) (Sealed.start cfg.node hf hi)

/-- Whatever else happens in the run: when every plaintext said in it fits a
frame, the receiver recovers them all, in order, and holds the vector of the
sender. -/
theorem receive_wire {cfg : Config} {s t : Session} {es : List Event} (hk : s.aesKey.length = 16)
    (hi : s.ivOut.length = 16) (hf : Framed s) (h : Run (step cfg) s es t)
    (hfit : ∀ p ∈ plains (exchanged s t), Fits p) :
    receive cfg.node s.aesKey s.ivOut (wire (exchanged s t)).flatten =
      .ok (plains (exchanged s t),t.ivOut,[]) := by
  obtain ⟨cts,hseal,hwire,hlen⟩ := (sealed_run hk hi hf h).chain hfit
  rw [hwire]
  exact receive_frames hseal hlen

/-- A send, a request, and a ping that is answered. -/
def threeCallers : List Event :=
  [.send (.named .describe) {},.request (.named .getTime) {} 7,.loop,
    .data ([0,16,0xFF,0x10,2,0,8]++List.replicate 12 0),.resume,.resume]

theorem receive_wire_plain : ∃ t, Run (step plainConfig) plainSession threeCallers t ∧
    (plains (exchanged plainSession t)).length = 3 ∧
    receive plainNode plainSession.aesKey plainSession.ivOut (wire (exchanged plainSession t)).flatten =
      .ok (plains (exchanged plainSession t),t.ivOut,[]) := by
  have hrun : (exec (step plainConfig) plainSession threeCallers).map
      (fun t => ((plains (exchanged plainSession t)).length,
        (plains (exchanged plainSession t)).all fun p => Fits p)) = some (3,true) := by
    decide +kernel
  obtain ⟨t,hr,ht⟩ := Run.of_observation _ hrun
  obtain ⟨hlen,hall⟩ := Prod.mk.inj ht
  have hc := plainSession_connected
  have hw := receive_wire hc.key hc.ivOut hc.framed hr
    fun p hp => of_decide_eq_true (List.all_eq_true.mp hall p hp)
  exact ⟨t,hr,hlen,hw⟩

/-- The inbound vector that the frames of a trace leave behind. -/
def inboundVector (iv : Bytes) (l : List Out) : Bytes :=
  (((received l).filter (· ≠ [])).getLast?.map firstBlock).getD iv

/-- The outbound vector that the writes of a trace leave behind: the first block of
the last body. -/
def outboundVector (iv : Bytes) (l : List Out) : Bytes :=
  ((wire l).getLast?.map fun w => firstBlock (w.drop 2)).getD iv

theorem inboundVector_append (iv : Bytes) (l m : List Out) :
    inboundVector iv (l++m) = inboundVector (inboundVector iv l) m := by
  unfold inboundVector
  rw [received_append,List.filter_append,List.getLast?_append]
  cases ((received m).filter (· ≠ [])).getLast? <;> simp

theorem outboundVector_append (iv : Bytes) (l m : List Out) :
    outboundVector iv (l++m) = outboundVector (outboundVector iv l) m := by
  unfold outboundVector
  rw [wire_append,List.getLast?_append]
  cases (wire m).getLast? <;> simp

/-- Both vectors are whole blocks and come from the last ciphertexts since `s`. The
peer can open a new chain at any time: what it seals under the inbound vector opens. -/
structure InStep (node : Primitives) (s t : Session) : Prop where
  ivIn_length : t.ivIn.length = 16
  ivOut_length : t.ivOut.length = 16
  ivIn : t.ivIn = inboundVector s.ivIn (exchanged s t)
  ivOut : t.ivOut = outboundVector s.ivOut (exchanged s t)
  opens : ∀ plain, ∃ ct, aesEncrypt node t.aesKey t.ivIn plain = .ok ct ∧
    aesDecrypt node t.aesKey t.ivIn ct = .ok plain

/-- The two slips: a frame of length zero, and a message too long for a frame whose
first block moves the vector. -/
def Strays (node : Primitives) (s : Session) (e : Event) : Prop :=
  s.phase = .connected ∧ (delivered s e = some [] ∨
    ∃ plain ct, outgoing node s e = some plain ∧ aesEncrypt node s.aesKey s.ivOut plain = .ok ct ∧
      65536 ≤ ct.length ∧ firstBlock ct ≠ s.ivOut)

structure Tracking (node : Primitives) (s t : Session) : Prop where
  framed : Framed t
  key : t.aesKey.length = 16
  grows : channel t.trace = channel s.trace++exchanged s t
  inStep : t.phase = .connected → InStep node s t

theorem connected_before {cfg : Config} {s t : Session} {e : Event} (hf : Framed s)
    (h : step cfg s e = some t) (ht : t.phase = .connected) : s.phase = .connected := by
  cases step_moves h with
  | silent hm => exact hm.phase.symm.trans ht
  | closing hm => simp [hm.phase] at ht
  | starting _ hm => simp [hm.phase] at ht
  | establishing hcont hdone _ => exact absurd ⟨_,_,hcont,hdone⟩ (not_completes_of_framed hf e)

theorem opens_of_lengths {node : Primitives} {key iv : Bytes} (hk : key.length = 16)
    (hi : iv.length = 16) (plain : Bytes) : ∃ ct, aesEncrypt node key iv plain = .ok ct ∧
      aesDecrypt node key iv ct = .ok plain := by
  obtain ⟨ct,hct⟩ := aesEncrypt_total node hk hi plain
  exact ⟨ct,hct,aesDecrypt_aesEncrypt hct⟩

theorem received_sends {node : Primitives} {key iv iv' : Bytes} {plain : Option Bytes}
    {l : List Out} (h : Sends node key iv plain iv' l) : received l = [] := by
  cases h with
  | silent => rfl
  | once h => cases h <;> rfl

theorem inboundVector_none {iv : Bytes} {l : List Out} (h : received l = []) :
    inboundVector iv l = iv := by
  simp [inboundVector,h]

theorem inboundVector_frameIn {iv ct : Bytes} {l : List Out} (h : received l = []) (hne : ct ≠ []) :
    inboundVector iv (.frameIn ct::l) = firstBlock ct := by
  have hr : received (.frameIn ct::l) = ct::received l := rfl
  simp [inboundVector,hr,h,hne]

theorem outboundVector_frameIn (iv : Bytes) (o : Option Bytes) :
    outboundVector iv (o.map Out.frameIn).toList = iv := by
  simp [outboundVector,wire_frameIn]

theorem tracking_keeps {cfg : Config} {s t u : Session} {e : Event} (ht : Tracking cfg.node s t)
    (hc : ¬ Strays cfg.node t e) (h : step cfg t e = some u) : Tracking cfg.node s u := by
  have hv := step_conveys ht.framed h
  obtain ⟨l,hs,he,hg⟩ := hv.appends ht.grows
  have hkey : u.aesKey.length = 16 := hv.key ▸ ht.key
  refine ⟨hv.framed,hkey,hg,fun hu => ?_⟩
  have hp := connected_before ht.framed h hu
  have hin := ht.inStep hp
  have hstray := fun hd => hc ⟨hp,hd⟩
  have hivIn : u.ivIn.length = 16 ∧ u.ivIn = inboundVector s.ivIn (exchanged s u) := by
    rw [he,inboundVector_append,← hin.ivIn]
    have hvi := hv.ivIn
    cases hd : delivered t e with
    | none =>
        rw [hd] at hvi
        exact ⟨hvi ▸ hin.ivIn_length,by
          rw [inboundVector_none (by simpa using received_sends hs)]
          exact hvi⟩
    | some ct =>
        rw [hd] at hvi
        have hne : ct ≠ [] := fun hn => hstray (.inl (hn ▸ hd))
        cases hdec : aesDecrypt cfg.node t.aesKey t.ivIn ct with
        | error err => simp [hv.refused ct err hd hdec] at hu
        | ok plain =>
            simp only [rolledIn,hdec] at hvi
            exact ⟨hvi ▸ aesDecrypt_firstBlock hdec hne,
              hvi.trans (inboundVector_frameIn (received_sends hs) hne).symm⟩
  have hivOut : u.ivOut = outboundVector s.ivOut (exchanged s u) := by
    rw [he,outboundVector_append,outboundVector_append,outboundVector_frameIn,← hin.ivOut]
    generalize u.ivOut = iv' at hs ⊢
    generalize hout : outgoing cfg.node t e = sent at hs
    cases hs with
    | silent => rfl
    | @once plain _ _ hs =>
        cases hs with
        | refused _ => rfl
        | @oversize ct hr hl =>
            by_contra hne
            exact hstray (.inr ⟨plain,ct,hout,hr,hl,hne⟩)
        | sent hr hl => rfl
  exact ⟨hivIn.1,hs.ivOut_length hin.ivOut_length,hivIn.2,hivOut,opens_of_lengths hkey hivIn.1⟩

/-- A frame of length zero decrypts, fails to decode, and leaves a connected session
with no vector. -/
theorem handleFrame_nil (node : Primitives) {s : Session} (hk : s.aesKey.length = 16)
    (hi : s.ivIn.length = 16) :
    (endTurn (s.handleFrame node [])).phase = s.phase ∧
      (endTurn (s.handleFrame node [])).ivIn = [] := by
  have hnil := aesDecrypt_nil node hk hi
  have hh := handleFrame_handles node s []
  generalize s.handleFrame node [] = r at hh ⊢
  cases hh with
  | undecryptable ha =>
      rw [hnil] at ha
      cases ha
  | unparsable _ _ => exact ⟨rfl,rfl⟩
  | ping ha hd _ =>
      rw [hnil] at ha
      cases ha
      cases hd
  | other ha hd _ =>
      rw [hnil] at ha
      cases ha
      cases hd

theorem acknowledgement_short {node : Primitives} {s : Session} {ct plain : Bytes}
    (h : acknowledgement node s ct = some plain) : plain.length ≤ 12 := by
  unfold acknowledgement at h
  split at h
  · cases h
  · split at h
    · cases h
    · next hd =>
        split_ifs at h
        obtain rfl := Option.some.inj h
        exact ackBytes_length hd

/-- Only a host call can say something too long, and it leaves the phase alone. -/
theorem long_outgoing {cfg : Config} {s : Session} {e : Event} {plain : Bytes}
    (h : outgoing cfg.node s e = some plain) (hl : 12 < plain.length) :
    ∃ t, step cfg s e = some t ∧ t.phase = s.phase := by
  cases e with
  | send name opts => exact ⟨_,rfl,(silent_send cfg.node s name opts).phase⟩
  | request name opts token => exact ⟨_,rfl,(silent_request cfg.node s name opts token).phase⟩
  | resume =>
      obtain ⟨ct,-,ha⟩ := Option.bind_eq_some_iff.mp h
      have := acknowledgement_short ha
      omega
  | _ => simp [outgoing] at h

theorem strays_breaks {cfg : Config} {s t : Session} {e : Event} (ht : Tracking cfg.node s t)
    (hc : Strays cfg.node t e) :
    ∃ u, step cfg t e = some u ∧ ¬ (u.phase = .connected → InStep cfg.node s u) := by
  obtain ⟨hp,hd | ⟨plain,ct,hout,hct,hl,hne⟩⟩ := hc
  · obtain ⟨rfl,u,hu⟩ := delivered_enabled cfg hd
    refine ⟨u,hu,fun h => ?_⟩
    have hv := (step_conveys ht.framed hu).ivIn
    cases resume_cases ht.framed hu with
    | header _ _ _ hnone => simp [hnone] at hd
    | rejected hnone => simp [hnone] at hd
    | @body frame _ _ _ hf =>
        obtain rfl : frame = [] := Option.some.inj (hf.symm.trans hd)
        obtain ⟨hph,hiv⟩ := handleFrame_nil cfg.node (s := t.taken) ht.key
          (ht.inStep hp).ivIn_length
        have hlen := (h (hph.trans hp)).ivIn_length
        simp [hiv] at hlen
  · have hlong : 12 < plain.length := by
      rw [aesEncrypt_length hct] at hl
      omega
    obtain ⟨u,hu,hph⟩ := long_outgoing hout hlong
    refine ⟨u,hu,fun h => ?_⟩
    have hin := h (hph.trans hp)
    have hv := step_conveys ht.framed hu
    obtain ⟨l,hs,he,-⟩ := hv.appends ht.grows
    have hout' := hin.ivOut
    rw [he,outboundVector_append,outboundVector_append,outboundVector_frameIn,
      ← (ht.inStep hp).ivOut] at hout'
    rw [hout] at hs
    generalize u.ivOut = iv' at hs hout'
    cases hs with
    | once hs =>
        cases hs with
        | refused hr => simp [hct] at hr
        | oversize hr _ =>
            obtain rfl := Except.ok.inj (hct.symm.trans hr)
            exact hne hout'
        | sent hr hl' =>
            obtain rfl := Except.ok.inj (hct.symm.trans hr)
            omega

theorem Connected.tracking {node : Primitives} {s : Session} (h : Connected s) :
    Tracking node s s :=
  ⟨h.framed,h.key,by simp,fun _ => ⟨h.ivIn,h.ivOut,by simp [inboundVector,received],
    by simp [outboundVector,wire],opens_of_lengths h.key h.ivIn⟩⟩

/-- While the session is connected its vectors are those of the last ciphertexts,
along exactly the runs without one of the two slips. -/
theorem inStep_iff_unstrayed (cfg : Config) {s : Session} (h : Connected s) (es : List Event) :
    Always (step cfg) (fun t => t.phase = .connected → InStep cfg.node s t) s es ↔
      Throughout (step cfg) (fun t e => ¬ Strays cfg.node t e) s es :=
  always_iff_throughout (fun _ ht => ht.inStep) (fun _ _ _ ht hc hu => tracking_keeps ht hc hu)
    (fun _ _ ht hc => strays_breaks ht (not_not.mp hc)) h.tracking

/-- A frame of length zero and then a good one. -/
def emptyFrame : List Event :=
  [.loop,.data ([0,0,0xFF]++[0,16,0xFF]++List.replicate 16 0),.resume,.resume]

theorem inStep_iff_unstrayed_plain :
    Always (step plainConfig) (fun t => t.phase = .connected → InStep plainNode plainSession t)
        plainSession emptyFrame ↔
      Throughout (step plainConfig) (fun t e => ¬ Strays plainNode t e) plainSession emptyFrame :=
  inStep_iff_unstrayed plainConfig plainSession_connected emptyFrame

theorem emptyFrame_strays : ¬ ∀ (cfg : Config) (s : Session), Connected s → ∀ es : List Event,
    Always (step cfg) (fun t => t.phase = .connected → InStep cfg.node s t) s es := by
  intro h
  have hrun : (exec (step plainConfig) plainSession emptyFrame).map
      (fun t => (t.phase,t.ivIn.length)) = some (.connected,0) := by
    decide +kernel
  obtain ⟨t,hr,ht⟩ := Run.of_observation _ hrun
  obtain ⟨hp,hl⟩ := Prod.mk.inj ht
  have hin := (h plainConfig plainSession plainSession_connected _).at_end hr hp
  have hlen := hin.ivIn_length
  omega

end SparkProtocol.Sessions
