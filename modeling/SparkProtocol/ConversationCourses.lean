import SparkProtocol.Conversations

/-!
# Every conversation catches up

While a session and its device greet each other nobody talks. The session finishes
first, because its last message is what the device waits for; then the device finishes,
and neither of them is ever stuck. So a conversation is always at its greeting or open,
and whatever is on its way arrives.
-/
namespace SparkProtocol.Sessions
open ByteStrings HostValues StreamPrograms Program Crypto Chunking Coap Messages Handshake
  ByteQueues OrderedMaps FramedStreams BlockChaining StreamWeaving LabelledRuns Session

/-- The two are still at their handshakes, and nobody has talked yet. -/
structure Greeting (cfg : Config) (svc : Services) (r : HandshakeResult) (res : DeviceResult)
    (rank : ℕ) (c : Conversation) : Prop where
  rest : ∃ p, c.remote = .greeting p ∧ p.Waits ∧
    Meets svc r res rank ⟨c.server,c.toServer,p,c.buffered,c.toDevice⟩ ∧ Coherent cfg c.server ∧
    c.server.phase ≠ .connected ∧ news c.server.trace = [] ∧ plains c.server.trace = []

/-- What the two results have in common that the channels need. -/
structure Pact (r : HandshakeResult) (res : DeviceResult) : Prop where
  key : r.aesKey = res.aesKey
  ivIn : r.ivIn = firstBlock res.helloCiphertext
  ivOut : r.ivOut = firstBlock res.serverHelloFrame
  key_length : r.aesKey.length = 16
  ivOut_length : r.ivOut.length = 16

section Greetings
variable {cfg : Config} {svc : Services} {c c' : Conversation} {e : ConversationEvent}
  {r : HandshakeResult} {res : DeviceResult} {rank : ℕ} {s t : Session} {input : Bytes} {l : History}

theorem weave_idle {N C N' C' : Type} {A : C → Type} {A' : C' → Type} {ε ε' : Type} {a b : Bytes}
    {t : List (Item N C A ε)} (h : Weave a b t ([] : List (Item N' C' A' ε'))) :
    (written t).flatten = [] := by
  generalize hs : ([] : List (Item N' C' A' ε')) = s at h
  induction h with
  | done => rfl
  | second _ _ => cases hs
  | @first i a b a' b' t u hi hw ih =>
      subst hs
      cases hi with
      | write =>
          obtain ⟨-,rfl⟩ := List.append_eq_nil_iff.mp hw.swap.finished
          exact ih rfl
      | note => exact ih rfl
      | call => exact ih rfl
      | read _ => exact ih rfl

/-- A handshake that waits has still to write its last message. -/
theorem remains_writes {p : Exchange HandshakeResult} {i : Item Note Call Answer JsError}
    (hp : Remains cfg p) (hl : Runs p (i::l) (.done r)) (hwrite : ∀ b, i ≠ .write b)
    (hnote : ∀ x, i ≠ .note x) : (written (i::l)).flatten ≠ [] := by
  obtain ⟨before,hbefore⟩ := hp
  obtain ⟨k,-,-,hall⟩ := (run_disclosed (hbefore.append hl)).2 r rfl
  unfold Completion.history at hall
  rcases List.append_eq_append_iff.mp hall with ⟨mid,-,hmid⟩ | ⟨mid,-,hmid⟩
  · intro hnil
    rw [hmid,written_append,List.flatten_append] at hnil
    have hframe : (frame [] k.reply).length = 0 := by
      have hlast := (List.append_eq_nil_iff.mp hnil).2
      simpa [written] using congrArg List.length hlast
    rw [frame_length] at hframe
    omega
  · have hmem : i ∈ mid++i::l := List.mem_append_right _ List.mem_cons_self
    rw [← hmid] at hmem
    simp only [List.mem_cons,List.not_mem_nil,or_false] at hmem
    rcases hmem with rfl | rfl | rfl
    · exact absurd rfl (hnote _)
    · exact absurd rfl (hwrite _)
    · exact absurd rfl (hnote _)

theorem server_writes (hs : Coherent cfg s) (hat : ServerAt r s input l) (hp : s.phase ≠ .connected) :
    (written l).flatten ≠ [] := by
  cases hat with
  | reading hc _ hk =>
      have hremains := hs.history.hand hc
      cases hk with
      | read v hk =>
          exact remains_writes hremains (.read v hk) (fun b hb => by cases hb) fun x hx => by cases hx
  | calling hc _ hk =>
      have hremains := hs.history.hand hc
      cases hk with
      | call v hk =>
          exact remains_writes hremains (.call v hk) (fun b hb => by cases hb) fun x hx => by cases hx
  | finished he _ => exact absurd he.phase hp

/-- So the device does not finish first. -/
theorem device_waits {p : DeviceProgram DeviceResult} {a b : Bytes} {u : DeviceHistory}
    (hs : Coherent cfg s) (hat : ServerAt r s input l) (hp : s.phase ≠ .connected)
    (hweave : Weave a b l u) (hdev : Runs p u (.done res)) (hwait : p.Waits ∨ p = .done res) :
    p.Waits := by
  refine hwait.resolve_right fun hdone => ?_
  subst hdone
  obtain ⟨rfl,-⟩ := hdev.ended rfl
  exact server_writes hs hat hp (weave_idle hweave)

/-- A session stands where the device's greeting has brought it, or it has finished. -/
theorem serverAt_phase (hs : Coherent cfg s) (hat : ServerAt r s input l) :
    (s.phase ≠ .connected ∧ ∃ p, s.control = .handshake p) ∨
      (l = [] ∧ Established s r ∧ AtBoundary s input) := by
  have hearly : ∀ p, s.control = .handshake p → s.phase ≠ .connected := by
    intro p hc hphase
    have hf := hs.history.looping hphase
    simp [Framed,hc] at hf
  cases hat with
  | reading hc _ _ => exact .inl ⟨hearly _ hc,_,hc⟩
  | calling hc _ _ => exact .inl ⟨hearly _ hc,_,hc⟩
  | finished he hb => exact .inr ⟨rfl,he,hb⟩

theorem effects_quiet (s : Session) (l : List (Effect Note)) :
    news (l.foldl perform s).trace = news s.trace ∧
      plains (l.foldl perform s).trace = plains s.trace := by
  induction l generalizing s with
  | nil => exact ⟨rfl,rfl⟩
  | cons x l ih =>
      obtain ⟨hnews,hplains⟩ := ih (s.perform x)
      rw [List.foldl_cons,hnews,hplains]
      cases x with
      | note _ => exact ⟨rfl,rfl⟩
      | write b => exact ⟨by simp [perform,log,news],by simp [perform,log,plains]⟩

/-- A burst of the handshake that goes well tells nobody anything. -/
theorem continueHandshake_quiet {p : Exchange HandshakeResult}
    (h : (s.continueHandshake p).control ≠ .finished) :
    news (s.continueHandshake p).trace = news s.trace ∧
      plains (s.continueHandshake p).trace = plains s.trace := by
  obtain ⟨hnews,hplains⟩ := effects_quiet s p.burst.1
  have hcont := continueHandshake_cases s p
  generalize s.continueHandshake p = t at hcont h
  cases hcont with
  | waits _ =>
      obtain ⟨-,-,htrace⟩ := await_shape (p.burst.1.foldl perform s) p.burst.2
      dsimp only
      rw [htrace]
      exact ⟨hnews,hplains⟩
  | resolves _ =>
      rw [← hnews,← hplains]
      exact ⟨by simp [established,log,news],by simp [established,log,plains]⟩
  | rejects _ => exact absurd (caught_ends _ _).control h

/-- The server's turn in its handshake. -/
theorem turn_quiet {turn : ServerTurn} {p : Exchange HandshakeResult} (hc : s.control = .handshake p)
    (h : step cfg s (turn.event svc) = some t) (hgood : t.control ≠ .finished) :
    news t.trace = news s.trace ∧ plains t.trace = plains s.trace := by
  cases turn with
  | resume =>
      cases step_cases h with
      | @proceeds _ k r hc' _ => exact continueHandshake_quiet (s := s.taken) hgood
      | reads hc' _ => cases hc.symm.trans hc'
  | answer =>
      cases step_cases h with
      | answer a hc' => exact continueHandshake_quiet (s := s) hgood
  | loop =>
      cases step_cases h with
      | loop hc' => cases hc.symm.trans hc'

theorem not_finished_of_serverAt (hat : ServerAt r s input l) : s.control ≠ .finished := by
  intro hfin
  cases hat with
  | reading hc _ _ => cases hfin.symm.trans hc
  | calling hc _ _ => cases hfin.symm.trans hc
  | finished _ hb =>
      rcases hb with ⟨hc,-⟩ | ⟨hc,-⟩
      · cases hfin.symm.trans hc
      · cases hfin.symm.trans hc

/-- The session has just finished: what the device has not read yet is on its way. -/
theorem greets {p : DeviceProgram DeviceResult} {u : DeviceHistory} (hpact : Pact r res)
    (hremote : c.remote = .greeting p) (hwait : p.Waits) (hdev : Runs p u (.done res))
    (hs : Coherent cfg c.server) (he : Established c.server r) (hb : AtBoundary c.server input)
    (hweave : Weave (input++c.toServer) (c.buffered++c.toDevice) ([] : History) u)
    (hnews : news c.server.trace = []) (hplains : plains c.server.trace = []) :
    Greeted cfg res r.coreId (c.cost+weight u) c := by
  obtain ⟨rfl,htoServer⟩ := List.append_eq_nil_iff.mp hweave.finished
  have hserving : Serving c.server :=
    ⟨he.phase,by rw [he.aesKey]; exact hpact.key_length,by rw [he.ivOut]; exact hpact.ivOut_length⟩
  have hsend : deviceSend cfg.node c.server.aesKey c.server.ivIn [] =
      .ok ([],(Peer.greeted res).ivSend) := by
    rw [he.ivIn,hpact.ivIn]
    rfl
  have hspoken : Spoken cfg.node res.aesKey (firstBlock res.serverHelloFrame) [] [] c.server := by
    refine ⟨[],[],hplains,?_,rfl,by simp⟩
    rw [he.ivOut,hpact.ivOut]
    rfl
  rw [List.nil_append,htoServer] at hweave
  refine ⟨p,u,c.buffered++c.toDevice,[],hremote,hdev,hwait,hweave,(List.append_nil _).symm,rfl,?_⟩
  exact ⟨hs,hserving,he.aesKey.trans hpact.key,he.coreId,.boundary hb hsend htoServer,by simp,hnews,
    by simp [pongs],hspoken⟩

/-- A step of the two at their handshakes. -/
theorem greeting_keeps (hpact : Pact r res) (h : Greeting cfg svc r res rank c)
    (hstep : conversationStep cfg svc c e = some c') :
    (∃ rank', rank' < rank ∧ Greeting cfg svc r res rank' c') ∨
      ∃ rank', Greeted cfg res r.coreId rank' c' := by
  obtain ⟨p,hremote,hwait,hmeets,hs,hphase,hnews,hplains⟩ := h.rest
  cases e with
  | toServer n =>
      dsimp only [conversationStep] at hstep
      split_ifs at hstep with hn
      obtain rfl := Option.some.inj hstep
      have hmove : meetingStep cfg svc ⟨c.server,c.toServer,p,c.buffered,c.toDevice⟩ (.toServer n) =
          some ⟨c.server.onData (c.toServer.take n),c.toServer.drop n,p,c.buffered,c.toDevice⟩ :=
        if_pos hn
      obtain ⟨rank',hlt,hmeets'⟩ := meets_descends hmeets hmove
      exact .inl ⟨rank',hlt,p,hremote,hwait,hmeets',coherent_keeps (e := .data _) hs rfl,hphase,hnews,
        hplains⟩
  | toDevice n =>
      dsimp only [conversationStep] at hstep
      split_ifs at hstep with hn
      obtain rfl := Option.some.inj hstep
      have hmove : meetingStep cfg svc ⟨c.server,c.toServer,p,c.buffered,c.toDevice⟩ (.toDevice n) =
          some ⟨c.server,c.toServer,p,c.buffered++c.toDevice.take n,c.toDevice.drop n⟩ := if_pos hn
      obtain ⟨rank',hlt,hmeets'⟩ := meets_descends hmeets hmove
      exact .inl ⟨rank',hlt,p,hremote,hwait,hmeets',hs,hphase,hnews,hplains⟩
  | server turn =>
      obtain ⟨t,ht,rfl⟩ := Option.map_eq_some_iff.mp hstep
      have hmove : meetingStep cfg svc ⟨c.server,c.toServer,p,c.buffered,c.toDevice⟩ (.server turn) =
          some ⟨t,c.toServer,p,c.buffered,c.toDevice++newlyWritten c.server t⟩ := by
        simp only [meetingStep,ht,Option.map_some]
      obtain ⟨rank',hlt,hmeets'⟩ := meets_descends hmeets hmove
      obtain ⟨input₀,l₀,-,hat₀,-⟩ := hmeets.rest
      obtain ⟨-,q,hq⟩ := (serverAt_phase hs hat₀).resolve_right fun hdone => hphase hdone.2.1.phase
      obtain ⟨input,l,u,hat,-,hdev,-,hweave,-⟩ := id hmeets'.rest
      have ht' := coherent_keeps hs ht
      obtain ⟨hnews',hplains'⟩ := turn_quiet hq ht (not_finished_of_serverAt hat)
      rw [hnews] at hnews'
      rw [hplains] at hplains'
      rcases serverAt_phase ht' hat with ⟨hphase',-⟩ | ⟨rfl,he,hb⟩
      · exact .inl ⟨rank',hlt,p,hremote,hwait,hmeets',ht',hphase',hnews',hplains'⟩
      · exact .inr ⟨_,greets (c := c.moved t) hpact hremote hwait hdev ht' he hb hweave hnews' hplains'⟩
  | device =>
      cases p with
      | read n k =>
          simp only [conversationStep,Conversation.deviceTurn,hremote] at hstep
          split_ifs at hstep with hn
          obtain rfl := Option.some.inj hstep
          have hmove : meetingStep cfg svc ⟨c.server,c.toServer,.read n k,c.buffered,c.toDevice⟩
              .device = some ⟨c.server,c.toServer++sent (k (.ok (c.buffered.take n))).burst.1,
                (k (.ok (c.buffered.take n))).burst.2,c.buffered.drop n,c.toDevice⟩ := if_pos hn
          obtain ⟨rank',hlt,hmeets'⟩ := meets_descends hmeets hmove
          obtain ⟨input,l,u,hat,-,hdev,hwait',hweave,-⟩ := id hmeets'.rest
          have hwaits := device_waits hs hat hphase hweave hdev hwait'
          exact .inl ⟨rank',hlt,_,after_waits hwaits,hwaits,hmeets',hs,hphase,hnews,hplains⟩
      | call c _ => exact c.elim
      | note x _ => exact x.elim
      | done _ => cases hwait
      | fail _ => cases hwait
      | write _ _ => cases hwait
  | host e =>
      dsimp only [conversationStep] at hstep
      split_ifs at hstep with hhost
      exact absurd hhost.2.1 hphase
  | say plain =>
      dsimp only [conversationStep] at hstep
      rw [hremote] at hstep
      cases hstep

theorem due_of_meeting {p : DeviceProgram DeviceResult} {m : Meeting} {e : MeetingEvent}
    (hremote : c.remote = .greeting p)
    (h : meetingStep cfg svc ⟨c.server,c.toServer,p,c.buffered,c.toDevice⟩ e = some m) :
    ∃ e c', dueTurn cfg svc c e = some c' := by
  cases e with
  | toServer n =>
      dsimp only [meetingStep] at h
      split_ifs at h with hn
      refine ⟨.toServer n,Option.ne_none_iff_exists'.mp ?_⟩
      simp [dueTurn,ConversationEvent.due,conversationStep,hn]
  | toDevice n =>
      dsimp only [meetingStep] at h
      split_ifs at h with hn
      refine ⟨.toDevice n,Option.ne_none_iff_exists'.mp ?_⟩
      simp [dueTurn,ConversationEvent.due,conversationStep,hn]
  | server turn =>
      obtain ⟨s,hs,-⟩ := Option.map_eq_some_iff.mp h
      refine ⟨.server turn,Option.ne_none_iff_exists'.mp ?_⟩
      simp [dueTurn,ConversationEvent.due,conversationStep,hs]
  | device =>
      dsimp only [meetingStep] at h
      split at h
      · split_ifs at h with hn
        refine ⟨.device,Option.ne_none_iff_exists'.mp ?_⟩
        simp [dueTurn,ConversationEvent.due,conversationStep,Conversation.deviceTurn,hremote,hn]
      · cases h

theorem greeting_progresses (h : Greeting cfg svc r res rank c) :
    ∃ e c', dueTurn cfg svc c e = some c' := by
  obtain ⟨p,hremote,-,hmeets,-,hphase,-⟩ := h.rest
  rcases meets_progresses hmeets with hdone | ⟨e,m,hm⟩
  · exact absurd hdone.server.phase hphase
  · exact due_of_meeting hremote hm

end Greetings

section Conversing
variable {cfg : Config} {svc : Services} {c c' : Conversation} {e : ConversationEvent}
  {r : HandshakeResult} {res : DeviceResult} {id : String} {rank : ℕ} {d : Device}

/-- Where a conversation can be. -/
inductive Underway (cfg : Config) (svc : Services) (r : HandshakeResult) (res : DeviceResult)
    (c : Conversation) : Prop
  | greeting {rank : ℕ} : Greeting cfg svc r res rank c → Underway cfg svc r res c
  | opened {rank : ℕ} : Open cfg res r.coreId rank c → Underway cfg svc r res c

theorem Open.framed (h : Open cfg res id rank c) : Framed c.server := by
  cases h with
  | greeted h =>
      obtain ⟨p,u,due,extra,-,-,-,-,-,-,hattached⟩ := h.rest
      exact hattached.position.framed
  | talking h =>
      obtain ⟨peer,handled,todo,-,-,-,-,hattached⟩ := h.rest
      exact hattached.position.framed

theorem underway_keeps (hpact : Pact r res) (h : Underway cfg svc r res c)
    (hstep : conversationStep cfg svc c e = some c') : Underway cfg svc r res c' := by
  cases h with
  | greeting h =>
      rcases greeting_keeps hpact h hstep with ⟨rank',-,h'⟩ | ⟨rank',h'⟩
      · exact .greeting h'
      · exact .opened (.greeted h')
  | opened h =>
      obtain ⟨rank',h',-⟩ := open_keeps h (conversationStep_cases h.framed hstep)
      exact .opened h'

theorem dueTurn_some (h : dueTurn cfg svc c e = some c') :
    e.due = true ∧ conversationStep cfg svc c e = some c' := by
  unfold dueTurn at h
  split_ifs at h with hdue
  exact ⟨hdue,h⟩

theorem open_catches_up (hid : id = toHex d.id) (h : Open cfg res id rank c) :
    Eventually (dueTurn cfg svc) (fun c => ∃ peer, CaughtUp d c peer) c := by
  refine eventually_of_rank (I := fun rank c => Open cfg res id rank c) ?_ ?_ rank c h
  · intro n c h
    cases h with
    | greeted h => exact .inr (greeted_progresses h)
    | talking h => exact talking_progresses hid h
  · intro n c e c' h hdue
    obtain ⟨hdue,hstep⟩ := dueTurn_some hdue
    obtain ⟨rank',h',hlt⟩ := open_keeps h (conversationStep_cases h.framed hstep)
    exact ⟨rank',hlt hdue,h'⟩

theorem underway_catches_up (hpact : Pact r res) (hid : r.coreId = toHex d.id)
    (h : Underway cfg svc r res c) :
    Eventually (dueTurn cfg svc) (fun c => ∃ peer, CaughtUp d c peer) c := by
  cases h with
  | opened h => exact open_catches_up hid h
  | @greeting rank h =>
      have hopens : Eventually (dueTurn cfg svc) (fun c => ∃ rank, Open cfg res r.coreId rank c) c := by
        refine eventually_of_descent (I := fun rank c => Greeting cfg svc r res rank c) ?_ ?_ rank c h
        · exact fun n c h => .inr (greeting_progresses h)
        · intro n c e c' h hdue
          rcases greeting_keeps hpact h (dueTurn_some hdue).2 with h' | ⟨rank',h'⟩
          · exact .inr h'
          · exact .inl ⟨rank',.greeted h'⟩
      exact hopens.trans fun c hc => open_catches_up hid hc.choose_spec

/-- Both directions lose nothing, repeat nothing and keep the order. -/
structure Faithful (c : Conversation) : Prop where
  told : news c.server.trace <+: tidings c.said
  heard : c.heard <+: plains c.server.trace

theorem underway_faithful (h : Underway cfg svc r res c) : Faithful c := by
  have hearly : ∀ p, c.remote = .greeting p → news c.server.trace = [] → Faithful c := by
    intro p hremote hnews
    have hheard : c.heard = [] := congrArg Remote.heard hremote
    exact ⟨by rw [hnews]; exact List.nil_prefix,by rw [hheard]; exact List.nil_prefix⟩
  cases h with
  | greeting h =>
      obtain ⟨p,hremote,-,-,-,-,hnews,-⟩ := h.rest
      exact hearly p hremote hnews
  | opened h =>
      cases h with
      | greeted h =>
          obtain ⟨p,u,due,extra,hremote,-,-,-,-,-,hattached⟩ := h.rest
          exact hearly p hremote hattached.told
      | talking h =>
          obtain ⟨peer,handled,todo,hremote,-,hsaid,-,hattached⟩ := h.rest
          obtain ⟨htold,hheard⟩ := hattached.accounts
          have hs : c.said = handled++todo := (congrArg Remote.said hremote).trans hsaid
          have hh : c.heard = peer.heard := congrArg Remote.heard hremote
          exact ⟨hs ▸ htold,hh ▸ hheard⟩

theorem after_said (p : DeviceProgram DeviceResult) : (Remote.after p).said = [] := by
  cases p <;> rfl

theorem hear_said {node : Primitives} {peer peer' : Peer} {b rest : Bytes}
    (h : peer.hear node b = some (peer',rest)) : peer'.said = peer.said := by
  unfold Peer.hear at h
  split at h
  · cases h
  · split_ifs at h
    split at h
    · obtain ⟨rfl,-⟩ := Prod.mk.inj (Option.some.inj h)
      rfl
    · cases h

/-- The steps that are due say nothing new. -/
theorem dueTurn_said (h : dueTurn cfg svc c e = some c') : c'.said = c.said := by
  obtain ⟨hdue,hstep⟩ := dueTurn_some h
  cases e with
  | toServer n =>
      dsimp only [conversationStep] at hstep
      split_ifs at hstep
      obtain rfl := Option.some.inj hstep
      rfl
  | toDevice n =>
      dsimp only [conversationStep] at hstep
      split_ifs at hstep
      obtain rfl := Option.some.inj hstep
      rfl
  | server turn =>
      obtain ⟨s,-,rfl⟩ := Option.map_eq_some_iff.mp hstep
      rfl
  | device =>
      have hstep : c.deviceTurn cfg.node = some c' := hstep
      unfold Conversation.deviceTurn at hstep
      split at hstep
      · next n k hr =>
          split_ifs at hstep
          obtain rfl := Option.some.inj hstep
          exact (after_said _).trans (congrArg Remote.said hr).symm
      · cases hstep
      · next peer hr =>
          obtain ⟨⟨peer',rest⟩,hhear,rfl⟩ := Option.map_eq_some_iff.mp hstep
          exact (hear_said hhear).trans (congrArg Remote.said hr).symm
  | host e => cases hdue
  | say plain => cases hdue

end Conversing

theorem converse_greeting {cfg : Config} {svc : Services} {d : Device} {k : Completion}
    (h : Honest cfg.node svc cfg.serverPrivKeyPem cfg.draws d k) : ∃ rank,
      Greeting cfg svc (k.result cfg.draws) (deviceResult k cfg.draws) rank (converse cfg svc d) := by
  obtain ⟨rank,hmeets⟩ := meet_meets h
  have hs := run_coherent cfg
  obtain ⟨q,hq⟩ := run_control cfg {}
  refine ⟨rank,simulateDevice cfg.node svc.rsa d,rfl,trivial,hmeets,hs,fun hp => ?_,rfl,rfl⟩
  have hf := hs.history.looping hp
  simp [Framed,hq] at hf

theorem honest_pact {cfg : Config} {svc : Services} {d : Device} {k : Completion}
    (h : Honest cfg.node svc cfg.serverPrivKeyPem cfg.draws d k) :
    Pact (k.result cfg.draws) (deviceResult k cfg.draws) :=
  ⟨rfl,rfl,rfl,(initialParams_lengths cfg.draws).1,aesEncrypt_firstBlock h.reply⟩

/-- From the connection on, with messages of the host that fit one frame each: whatever has
been said arrives once and in order, on either side, and however the rest is scheduled, all
of it arrives. -/
theorem conversation_catches_up {cfg : Config} {svc : Services} {d : Device} {devicePubPem : String}
    {es : List ConversationEvent} {c : Conversation}
    (hserver : svc.rsa.Matching d.serverPubPem cfg.serverPrivKeyPem 256)
    (hdevice : svc.rsa.Matching devicePubPem d.privPem 128) (hkey : devicePubPem ≠ "")
    (hload : svc.loadCoreKey (toHex d.id) d.inlineDer = .ok (some devicePubPem))
    (hrun : Run (conversationStep cfg svc) (converse cfg svc d) es c) :
    Faithful c ∧ Eventually (dueTurn cfg svc)
      (fun c' => c'.said = c.said ∧ ∃ peer, CaughtUp d c' peer) c := by
  obtain ⟨k,hk⟩ := honest_exists cfg.node cfg.draws hserver hdevice hkey hload
  obtain ⟨rank,hgreeting⟩ := converse_greeting hk
  have hpact := honest_pact hk
  have hunderway : Underway cfg svc (k.result cfg.draws) (deviceResult k cfg.draws) c :=
    hrun.keeps (fun _ _ _ _ h hstep => underway_keeps hpact h hstep) (.greeting hgreeting)
  refine ⟨underway_faithful hunderway,?_⟩
  have hid : (k.result cfg.draws).coreId = toHex d.id := (honest_agrees hk).coreId
  exact (underway_catches_up hpact hid hunderway).keeping
    (fun _ _ _ hsaid hdue => (dueTurn_said hdue).trans hsaid) rfl

/-- The host speaks before the device is done, then a ping and a request of the device;
the answer to the ping and half of the request are still on their way. -/
def brokenOff : List ConversationEvent :=
  [.toDevice 40,.device,.toServer 100,.toServer 156,.server .resume,.server .answer,.server .answer,
    .server .answer,.server .answer,.toDevice 384,.device,.toServer 10,.server .resume,.toServer 9,
    .server .resume,.host (.send (.named .describe) {}),.server .loop,.toDevice 10,.device,.toDevice 26,
    .device,.device,.say [0x40,0,0,8],.say [0x40,1,0,9,0xB1,0x74],.toServer 30,.server .resume,
    .server .resume]

theorem conversation_catches_up_brokenOff : ∃ c, c.said.length = 2 ∧ c.heard.length = 1 ∧ Faithful c ∧
    Eventually (dueTurn plainConfig plainServices)
      (fun c' => c'.said = c.said ∧ ∃ peer, CaughtUp plainDevice c' peer) c := by
  have hobs : (exec (conversationStep plainConfig plainServices)
      (converse plainConfig plainServices plainDevice) brokenOff).map
        (fun c => (c.said.length,c.heard.length)) = some (2,1) := by
    decide +kernel
  obtain ⟨c,hrun,hc⟩ := Run.of_observation _ hobs
  obtain ⟨hsaid,hheard⟩ := Prod.mk.inj hc
  have hload : plainServices.loadCoreKey (toHex plainDevice.id) plainDevice.inlineDer =
      .ok (some "device") := by
    decide +kernel
  have hserver := plainRsa_matching "server"
  have hdevice := plainRsa_matching "device"
  obtain ⟨hfaithful,heventually⟩ := conversation_catches_up hserver hdevice (by decide) hload hrun
  exact ⟨c,hsaid,hheard,hfaithful,heventually⟩

end SparkProtocol.Sessions
