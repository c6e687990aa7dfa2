import SparkProtocol.RollingVectors

/-!
# Sends that throw

A send can throw at four places: at the table of names, in the encoder, in the
cipher, and at the length of the frame. By the second the counter has advanced and
by the fourth the vector has rolled, and neither is put back. `Slips` lists what
that changes; a send that throws otherwise leaves the outbound channel as it was.
-/
namespace SparkProtocol.Sessions
open ByteStrings HostValues StreamPrograms Program Crypto Chunking Coap Messages Handshake
  ByteQueues OrderedMaps FramedStreams BlockChaining LabelledRuns Session

section Attempts
variable (node : Primitives) (s : Session) (name : MessageKey) (opts : SendOptions)

/-- What the encoder gives for the message under the id that it gets. -/
def encoded (spec : MessageSpec) : Except JsError Bytes :=
  encode (outbound spec opts (s.allocate opts.messageId).1)

/-- How a send ends, with the session that it leaves. -/
inductive Attempt : Session × Except JsError ℤ → Prop
  | unknown {e : JsError} : name.spec = none → Attempt (s,.error e)
  | unencodable {spec : MessageSpec} {e : JsError} : name.spec = some spec →
      encoded s opts spec = .error e → Attempt ((s.allocate opts.messageId).2,.error e)
  | refused {spec : MessageSpec} {plain : Bytes} {e : JsError} : name.spec = some spec →
      encoded s opts spec = .ok plain → aesEncrypt node s.aesKey s.ivOut plain = .error e →
      Attempt ((s.allocate opts.messageId).2.log (.plainOut plain),.error e)
  | oversize {spec : MessageSpec} {plain ct : Bytes} {e : JsError} : name.spec = some spec →
      encoded s opts spec = .ok plain → aesEncrypt node s.aesKey s.ivOut plain = .ok ct →
      65536 ≤ ct.length → Attempt
        ({ (s.allocate opts.messageId).2.log (.plainOut plain) with ivOut := firstBlock ct },.error e)
  | sent {spec : MessageSpec} {plain ct : Bytes} : name.spec = some spec →
      encoded s opts spec = .ok plain → aesEncrypt node s.aesKey s.ivOut plain = .ok ct →
      ct.length < 65536 → Attempt
        ({ (s.allocate opts.messageId).2 with
           ivOut := firstBlock ct
           trace := s.trace++[.plainOut plain,.write (frame [] ct)] },
          .ok (s.allocate opts.messageId).1)

/-- The throws after which the counter or the vector is not what it was. -/
inductive Slips : Prop
  | unencodable {spec : MessageSpec} {e : JsError} : name.spec = some spec →
      encoded s opts spec = .error e → opts.messageId = none → Slips
  | refused {spec : MessageSpec} {plain : Bytes} {e : JsError} : name.spec = some spec →
      encoded s opts spec = .ok plain → aesEncrypt node s.aesKey s.ivOut plain = .error e →
      opts.messageId = none → Slips
  | oversize {spec : MessageSpec} {plain ct : Bytes} : name.spec = some spec →
      encoded s opts spec = .ok plain → aesEncrypt node s.aesKey s.ivOut plain = .ok ct →
      65536 ≤ ct.length → (opts.messageId = none ∨ firstBlock ct ≠ s.ivOut) → Slips

/-- The outbound channel of `t` is that of `s`: whoever has processed what `s` wrote
can read what `t` sends next. -/
structure Unharmed (t : Session) : Prop where
  key : t.aesKey = s.aesKey
  unwritten : wire t.trace = wire s.trace
  ivOut : t.ivOut = s.ivOut
  sendCounter : t.sendCounter = s.sendCounter
  next : ∀ name opts u messageId, t.send node name opts = (u,.ok messageId) →
    ∃ spec plain, name.spec = some spec ∧ encoded t opts spec = .ok plain ∧
      receive node s.aesKey s.ivOut ((wire u.trace).drop (wire s.trace).length).flatten =
        .ok ([plain],u.ivOut,[])

end Attempts

section Sends
variable {node : Primitives} {s t : Session} {name : MessageKey} {opts : SendOptions}

theorem allocate_channel (s : Session) (messageId : Option ℤ) :
    (s.allocate messageId).2.aesKey = s.aesKey ∧ (s.allocate messageId).2.ivOut = s.ivOut ∧
      (s.allocate messageId).2.trace = s.trace := by
  obtain ⟨counter,hc⟩ := allocate_shape s messageId
  rw [hc]
  exact ⟨rfl,rfl,rfl⟩

theorem send_attempt (node : Primitives) (s : Session) (name : MessageKey) (opts : SendOptions) :
    Attempt node s name opts (s.send node name opts) := by
  obtain ⟨hkey,hiv,htrace⟩ := allocate_channel s opts.messageId
  cases hspec : name.spec with
  | none =>
      simp only [Session.send,hspec]
      exact .unknown hspec
  | some spec =>
      cases he : encoded s opts spec with
      | error e =>
          have hsend : s.send node name opts = ((s.allocate opts.messageId).2,.error e) := by
            unfold encoded at he
            simp only [Session.send,hspec,he]
          rw [hsend]
          exact .unencodable hspec he
      | ok plain =>
          have he' := he
          unfold encoded at he'
          cases ha : aesEncrypt node s.aesKey s.ivOut plain with
          | error e =>
              have hsend : s.send node name opts =
                  ((s.allocate opts.messageId).2.log (.plainOut plain),.error e) := by
                simp only [Session.send,hspec,he',sendPlain,log,hkey,hiv,ha]
              rw [hsend]
              exact .refused hspec he ha
          | ok ct =>
              by_cases hl : ct.length < 65536
              · have hsend : s.send node name opts =
                    ({ (s.allocate opts.messageId).2 with
                       ivOut := firstBlock ct
                       trace := s.trace++[.plainOut plain,.write (frame [] ct)] },
                      .ok (s.allocate opts.messageId).1) := by
                  have hplain := sendPlain_ok (s := (s.allocate opts.messageId).2)
                    (by rw [hkey,hiv]; exact ha) hl
                  simp only [Session.send,hspec,he',hplain,htrace]
                rw [hsend]
                exact .sent hspec he ha hl
              · have hf : encodeFrame ct = .error (exceedsPrefix ct.length) := by
                  unfold encodeFrame
                  rw [if_pos (by omega)]
                have hsend : s.send node name opts =
                    ({ (s.allocate opts.messageId).2.log (.plainOut plain) with
                       ivOut := firstBlock ct },.error (exceedsPrefix ct.length)) := by
                  simp only [Session.send,hspec,he',sendPlain,log,hkey,hiv,ha,hf]
                rw [hsend]
                exact .oversize hspec he ha (by omega)

/-- What a receiver with the old vector gets of the next send that does not throw. -/
theorem next_received (hkey : t.aesKey = s.aesKey) (hiv : t.ivOut = s.ivOut)
    (hwire : wire t.trace = wire s.trace) {u : Session} {messageId : ℤ}
    (h : t.send node name opts = (u,.ok messageId)) :
    ∃ spec plain, name.spec = some spec ∧ encoded t opts spec = .ok plain ∧
      receive node s.aesKey s.ivOut ((wire u.trace).drop (wire s.trace).length).flatten =
        .ok ([plain],u.ivOut,[]) := by
  have ha := send_attempt node t name opts
  rw [h] at ha
  cases ha with
  | @sent spec plain ct hspec he ha hl =>
      refine ⟨spec,plain,hspec,he,?_⟩
      have hdrop : (wire (t.trace++[.plainOut plain,.write (frame [] ct)])).drop
          (wire s.trace).length = [frame [] ct] := by
        rw [wire_append,hwire]
        exact List.drop_left
      rw [hdrop]
      have hseal : sealAll firstBlock (aesEncrypt node s.aesKey) s.ivOut [plain] =
          .ok ([ct],firstBlock ct) := by
        rw [hkey,hiv] at ha
        simp [sealAll,ha]
      exact receive_frames hseal (by simpa using hl)

theorem Unharmed.intro (hkey : t.aesKey = s.aesKey) (hwire : wire t.trace = wire s.trace)
    (hiv : t.ivOut = s.ivOut) (hcounter : t.sendCounter = s.sendCounter) : Unharmed node s t :=
  ⟨hkey,hwire,hiv,hcounter,fun _ _ _ _ => next_received hkey hiv hwire⟩

/-- The counter stays exactly when the id is given. -/
theorem allocate_sendCounter (s : Session) (messageId : Option ℤ) :
    (s.allocate messageId).2.sendCounter = s.sendCounter ↔ messageId ≠ none := by
  cases messageId with
  | none =>
      simp only [allocate,ne_eq,not_true_eq_false,iff_false]
      omega
  | some _ => simp [allocate]

section Which
variable {spec : MessageSpec} {plain ct : Bytes} {e : JsError}

theorem not_slips_unknown (hspec : name.spec = none) : ¬ Slips node s name opts := by
  intro h
  cases h <;> simp_all only [reduceCtorEq]

theorem slips_unencodable (hspec : name.spec = some spec) (he : encoded s opts spec = .error e) :
    Slips node s name opts ↔ opts.messageId = none := by
  constructor
  · intro h
    cases h with
    | unencodable _ _ hid => exact hid
    | refused _ _ _ hid => exact hid
    | oversize hspec' he' _ _ _ =>
        obtain rfl := Option.some.inj (hspec.symm.trans hspec')
        rw [he] at he'
        cases he'
  · exact .unencodable hspec he

theorem slips_refused (hspec : name.spec = some spec) (he : encoded s opts spec = .ok plain)
    (ha : aesEncrypt node s.aesKey s.ivOut plain = .error e) :
    Slips node s name opts ↔ opts.messageId = none := by
  constructor
  · intro h
    cases h with
    | unencodable _ _ hid => exact hid
    | refused _ _ _ hid => exact hid
    | oversize hspec' he' ha' _ _ =>
        obtain rfl := Option.some.inj (hspec.symm.trans hspec')
        obtain rfl := Except.ok.inj (he.symm.trans he')
        rw [ha] at ha'
        cases ha'
  · exact .refused hspec he ha

theorem slips_encrypted (hspec : name.spec = some spec) (he : encoded s opts spec = .ok plain)
    (ha : aesEncrypt node s.aesKey s.ivOut plain = .ok ct) :
    Slips node s name opts ↔
      65536 ≤ ct.length ∧ (opts.messageId = none ∨ firstBlock ct ≠ s.ivOut) := by
  constructor
  · intro h
    cases h with
    | unencodable hspec' he' _ =>
        obtain rfl := Option.some.inj (hspec.symm.trans hspec')
        rw [he] at he'
        cases he'
    | refused hspec' he' ha' _ =>
        obtain rfl := Option.some.inj (hspec.symm.trans hspec')
        obtain rfl := Except.ok.inj (he.symm.trans he')
        rw [ha] at ha'
        cases ha'
    | oversize hspec' he' ha' hl hid =>
        obtain rfl := Option.some.inj (hspec.symm.trans hspec')
        obtain rfl := Except.ok.inj (he.symm.trans he')
        obtain rfl := Except.ok.inj (ha.symm.trans ha')
        exact ⟨hl,hid⟩
  · rintro ⟨hl,hid⟩
    exact .oversize hspec he ha hl hid

end Which

/-- A throw leaves the channel alone unless it is one of the slips. -/
theorem attempt_unharmed {r : Session × Except JsError ℤ} (h : Attempt node s name opts r) :
    (∀ e, r.2 = .error e → Unharmed node s r.1) ↔ ¬ Slips node s name opts := by
  obtain ⟨hkey,hiv,htrace⟩ := allocate_channel s opts.messageId
  have hcounter := allocate_sendCounter s opts.messageId
  have hquiet : ∀ plain, wire ((s.allocate opts.messageId).2.log (.plainOut plain)).trace = wire s.trace := by
    intro plain
    simp [log,htrace,wire]
  cases h with
  | unknown hspec =>
      exact iff_of_true (fun _ _ => .intro rfl rfl rfl rfl) (not_slips_unknown hspec)
  | unencodable hspec he =>
      rw [slips_unencodable hspec he]
      constructor
      · intro hu
        exact hcounter.mp (hu _ rfl).sendCounter
      · intro hid _ _
        exact .intro hkey (congrArg wire htrace) hiv (hcounter.mpr hid)
  | refused hspec he ha =>
      rw [slips_refused hspec he ha]
      constructor
      · intro hu
        exact hcounter.mp (hu _ rfl).sendCounter
      · intro hid _ _
        exact .intro hkey (hquiet _) hiv (hcounter.mpr hid)
  | @oversize spec plain ct e hspec he ha hl =>
      rw [slips_encrypted hspec he ha]
      constructor
      · rintro hu ⟨-,hid | hid⟩
        · exact hcounter.mp (hu _ rfl).sendCounter hid
        · exact hid (hu _ rfl).ivOut
      · intro hn _ _
        have hid : opts.messageId ≠ none := fun hid => hn ⟨hl,.inl hid⟩
        have hblock : firstBlock ct = s.ivOut := by
          by_contra hne
          exact hn ⟨hl,.inr hne⟩
        exact .intro hkey (hquiet _) hblock (hcounter.mpr hid)
  | sent hspec he ha hl =>
      rw [slips_encrypted hspec he ha]
      constructor
      · exact fun _ h => absurd h.1 (Nat.not_le.mpr hl)
      · intro _ e he
        cases he

/-- The tables of the requests are no part of the channel. -/
theorem request_unharmed_iff (hc : s.phase = .connected) {ropts : RequestOptions} {token : UInt8}
    {e : JsError} (h : (filed s name ropts token).send node name (ropts.sent token) = (t,.error e)) :
    Unharmed node s (s.request node name ropts token) ↔
      Unharmed node (filed s name ropts token) t := by
  rw [request_thrown hc h]
  have hwire : wire (t.trace++[Out.reject s.requests e]) = wire t.trace := by simp [wire]
  constructor
  · intro hu
    exact .intro hu.key (hwire.symm.trans hu.unwritten) hu.ivOut hu.sendCounter
  · intro hu
    exact .intro hu.key (hwire.trans hu.unwritten) hu.ivOut hu.sendCounter

/-- A send that throws, on its own or in a request, has written nothing and moved
neither the vector nor the counter, exactly when it is none of the slips. -/
theorem thrown_unharmed_iff (node : Primitives) {s : Session} (hc : s.phase = .connected)
    (name : MessageKey) :
    (∀ opts, (∀ e, (s.send node name opts).2 = .error e →
        Unharmed node s (s.send node name opts).1) ↔ ¬ Slips node s name opts) ∧
      ∀ ropts token, (∀ e, ((filed s name ropts token).send node name (ropts.sent token)).2 = .error e →
          Unharmed node s (s.request node name ropts token)) ↔
        ¬ Slips node (filed s name ropts token) name (ropts.sent token) := by
  refine ⟨fun opts => attempt_unharmed (send_attempt node s name opts),fun ropts token => ?_⟩
  rw [← attempt_unharmed (send_attempt node (filed s name ropts token) name (ropts.sent token))]
  apply forall_congr'
  intro e
  apply imp_congr_right
  intro he
  exact request_unharmed_iff hc (Prod.ext rfl he)

theorem thrown_unharmed_unknown :
    Unharmed plainNode plainSession (plainSession.send plainNode (.unknown "Reboot") {}).1 ∧
      Unharmed plainNode plainSession (plainSession.request plainNode (.unknown "Reboot") {} 7) := by
  have h := thrown_unharmed_iff plainNode plainSession_connected.phase (.unknown "Reboot")
  exact ⟨(h.1 {}).mpr (not_slips_unknown rfl) _ rfl,(h.2 {} 7).mpr (not_slips_unknown rfl) _ rfl⟩

/-- The token is too long for the encoder, and the counter has advanced. -/
theorem longToken_harms :
    (plainSession.send plainNode (.named .describe) { token := List.replicate 9 0 }).2 =
        .error { message := "CoAP token max 8 bytes", name := "RangeError" } ∧
      ¬ Unharmed plainNode plainSession
        (plainSession.send plainNode (.named .describe) { token := List.replicate 9 0 }).1 := by
  refine ⟨rfl,fun hu => ?_⟩
  have hcounter := hu.sendCounter
  revert hcounter
  decide +kernel

end Sends
end SparkProtocol.Sessions
