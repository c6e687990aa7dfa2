import SparkProtocol.HandshakeReads

/-!
# What a session has shown

The socket of a session carries what its handshake has written and, once there is a
key, frames. So if each service call of the handshake was answered in a certain way,
nothing is on the socket, and no device id is in the session, that such answers do not
account for: the second write is the blob of stage 4 and has a whole transcript of
answered calls behind it, the first of them about the first message that came.
-/
namespace SparkProtocol.Sessions
open ByteStrings HostValues StreamPrograms Program Crypto Chunking Coap Messages Handshake
  ByteQueues OrderedMaps FramedStreams LabelledRuns Session

/-- Each call was answered so. -/
def Backed (P : (c : Call) → Answer c → Prop) (l : History) : Prop := ∀ c a, .call c a ∈ l → P c a

theorem backed_append {P : (c : Call) → Answer c → Prop} {l m : History} :
    Backed P (l++m) ↔ Backed P l ∧ Backed P m := by
  simp only [Backed,List.mem_append]
  exact ⟨fun h => ⟨fun c a hm => h c a (.inl hm),fun c a hm => h c a (.inr hm)⟩,
    fun h c a hm => hm.elim (h.1 c a) (h.2 c a)⟩

theorem backed_effects (P : (c : Call) → Answer c → Prop) (l : List (Effect Note)) :
    Backed P (l.map Effect.item) := by
  intro c a hm
  obtain ⟨x,-,hx⟩ := List.mem_map.mp hm
  cases x <;> cases hx

/-- What a session shows of a history that has come to `q`: while there is no key, its
writes, and afterwards its result too. -/
inductive Shown (s : Session) (l : History) : Exchange HandshakeResult → Prop
  | unkeyed {q : Exchange HandshakeResult} : s.aesKey = [] → s.coreId = none →
      wire s.trace = written l → Shown s l q
  | keyed {r : HandshakeResult} : s.coreId = some r.coreId → Framed s →
      written l <+: wire s.trace → Shown s l (.done r)

/-- The session shows a handshake whose calls were answered so, and which has read the
front of the bytes `b` that came. -/
structure Grounded (P : (c : Call) → Answer c → Prop) (cfg : Config) (b : Bytes) (s : Session) :
    Prop where
  coherent : Coherent cfg s
  shown : ∃ l q, Runs (runHandshake cfg.node cfg.serverPrivKeyPem cfg.draws) l q ∧ Backed P l ∧
    (∀ p, s.control = .handshake p → q = p) ∧ Shown s l q ∧ Received s b l

section Quiet
variable {cfg : Config} {s t : Session} {e : Event}

theorem wire_channel (l : List Out) : wire (channel l) = wire l := by
  unfold wire channel
  rw [List.filterMap_filter]
  refine congrArg (fun f => List.filterMap f l) (funext fun o => ?_)
  cases o <;> rfl

theorem Mute.wire (h : Mute s t) : wire t.trace = wire s.trace := by
  rw [← wire_channel,h.channel,wire_channel]

/-- Without a key nothing is sent. -/
theorem sends_unkeyed {node : Primitives} {iv iv' : Bytes} {plain : Option Bytes} {l : List Out}
    (h : Sends node [] iv plain iv' l) : wire l = [] := by
  have hrefused : ∀ p ct, aesEncrypt node [] iv p ≠ .ok ct := by
    intro p ct
    unfold aesEncrypt
    split <;> simp
  cases h with
  | silent => rfl
  | once h =>
      cases h with
      | refused _ => rfl
      | oversize hct _ => exact absurd hct (hrefused _ _)
      | sent hct _ => exact absurd hct (hrefused _ _)

/-- Neither the key nor what has been written has changed. -/
structure Unmoved (s t : Session) : Prop where
  key : t.aesKey = s.aesKey
  wire : wire t.trace = Sessions.wire s.trace

theorem Mute.unmoved (h : Mute s t) : Unmoved s t := ⟨h.key,h.wire⟩

theorem unmoved_sends {node : Primitives} {iv : Bytes} {plain : Option Bytes} {l r : List Out}
    (hkey : s.aesKey = []) (hs : Sends node s.aesKey s.ivOut plain iv l) (hr : wire r = [])
    (ht : t.aesKey = s.aesKey) (htrace : t.trace = s.trace++l++r) : Unmoved s t := by
  rw [hkey] at hs
  exact ⟨ht,by rw [htrace,wire_append,wire_append,sends_unkeyed hs,hr,List.append_nil,List.append_nil]⟩

/-- Besides going on, a handshaking session writes nothing. -/
theorem early_unmoved {p : Exchange HandshakeResult} (hp : s.control = .handshake p)
    (hkey : s.aesKey = []) (h : step cfg s e = some t) :
    (∃ q, continuation s e = some q) ∨ Unmoved s t := by
  cases step_cases h with
  | run hc => simp [hp] at hc
  | @proceeds _ k r hc hr => exact .inl ⟨k r,by simp only [continuation,hc,hr]⟩
  | reads hc _ => simp [hp] at hc
  | loop hc => simp [hp] at hc
  | @answer c k a hc => exact .inl ⟨k (a c),by simp only [continuation,hc]⟩
  | data chunk => exact .inr ⟨rfl,rfl⟩
  | socketError err => exact .inr ((mute_log s rfl).trans (mute_disconnect _)).unmoved
  | socketClose => exact .inr (mute_finalize s).unmoved
  | idleTimeout _ =>
      have hoff : Mute s { s with idleTimer := false } := ⟨id,id,rfl,rfl,rfl,rfl⟩
      exact .inr ((hoff.trans (mute_log _ rfl)).trans (mute_disconnect _)).unmoved
  | disconnect => exact .inr (mute_disconnect s).unmoved
  | send name opts =>
      obtain ⟨c,iv,l,hs,he⟩ := send_shape cfg.node s name opts
      rw [he]
      exact .inr (unmoved_sends hkey hs rfl rfl (List.append_nil _).symm)
  | request name opts token =>
      obtain ⟨pending,timers,c,iv,l,r,hs,hr,-,he⟩ := request_shape cfg.node s name opts token
      rw [he]
      refine .inr (unmoved_sends hkey hs ?_ rfl rfl)
      rcases hr with rfl | ⟨err,rfl⟩ <;> rfl
  | requestTimeout _ =>
      exact .inr ⟨rfl,by simp [onRequestTimeout,clearTimer,log,wire]⟩

theorem framed_unmoved (hf : Framed s) (hkey : s.aesKey = []) (h : step cfg s e = some t) :
    Unmoved s t := by
  have hc := step_conveys hf h
  obtain ⟨l,hs,hl⟩ := hc.ivOut
  rw [hkey] at hs
  refine ⟨hc.key,?_⟩
  rw [← wire_channel,hl,wire_append,wire_append,wire_channel,wire_frameIn,sends_unkeyed hs]
  simp

/-- The id comes with the key. -/
theorem coreId_kept (hs : Coherent cfg s) (h : step cfg s e = some t)
    (hq : ∀ q, continuation s e ≠ some q) : t.coreId = s.coreId := by
  cases step_moves h with
  | silent hm => exact hm.coreId
  | closing hm => exact hm.coreId
  | starting _ hm => exact absurd hm.control hs.started
  | establishing hcont _ _ => exact absurd hcont (hq _)

end Quiet

section Grounding
variable {P : (c : Call) → Answer c → Prop} {cfg : Config} {s t : Session} {e : Event} {b : Bytes}

/-- What the handshake is given is its next item. -/
theorem given_runs {q p : Exchange HandshakeResult} (hq : s.control = .handshake q)
    (h : continuation s e = some p) : ∃ i, given s e = some i ∧ Runs q [i] p ∧ written [i] = [] := by
  cases e with
  | resume =>
      simp only [continuation] at h
      split at h
      · next n k r hc hr =>
          obtain rfl := Option.some.inj h
          obtain rfl := Control.handshake.inj (hq.symm.trans hc)
          exact ⟨.read n r,by simp only [given,hc,hr],.read r (.here _),rfl⟩
      · cases h
  | answer a =>
      simp only [continuation] at h
      split at h
      · next c k hc =>
          obtain rfl := Option.some.inj h
          obtain rfl := Control.handshake.inj (hq.symm.trans hc)
          exact ⟨.call c (a c),by simp only [given,hc],.call (a c) (.here _),rfl⟩
      · cases h
  | _ => simp [continuation] at h

theorem effects_key (s : Session) (l : List (Effect Note)) :
    (l.foldl perform s).aesKey = s.aesKey ∧ (l.foldl perform s).coreId = s.coreId := by
  induction l generalizing s with
  | nil => exact ⟨rfl,rfl⟩
  | cons x l ih => cases x <;> exact ih (s.perform _)

theorem await_shape {α : Type} (s : Session) (p : Exchange α) :
    (s.await p).aesKey = s.aesKey ∧ (s.await p).coreId = s.coreId ∧ (s.await p).trace = s.trace := by
  cases p <;> exact ⟨rfl,rfl,rfl⟩

/-- The handshake goes on to its next wait, and its history with it. -/
theorem continueHandshake_shown {l : History} {p : Exchange HandshakeResult} (hkey : s.aesKey = [])
    (hid : s.coreId = none) (hwire : wire s.trace = written l) :
    Shown (s.continueHandshake p) (l++p.burst.1.map Effect.item) p.burst.2 ∧
      ∀ q, (s.continueHandshake p).control = .handshake q → p.burst.2 = q := by
  obtain ⟨hkey',hid'⟩ := effects_key s p.burst.1
  have hwire' := wire_effects s p.burst.1
  have hcont := continueHandshake_cases s p
  rw [hkey] at hkey'
  rw [hid] at hid'
  rw [hwire,← written_append] at hwire'
  generalize s.continueHandshake p = t at hcont ⊢
  cases hcont with
  | waits _ =>
      obtain ⟨hk,hi,ht⟩ := await_shape (p.burst.1.foldl perform s) p.burst.2
      refine ⟨.unkeyed (hk.trans hkey') (hi.trans hid') ?_,fun q hq => Control.handshake.inj hq⟩
      dsimp only
      rw [ht,hwire']
  | @resolves r hr =>
      rw [hr]
      refine ⟨.keyed rfl (framed_of_loop rfl) ?_,fun q hq => by cases hq⟩
      rw [← hwire']
      simp [established,log,wire]
  | @rejects err hr =>
      have hm := mute_caught (p.burst.1.foldl perform s) err
      refine ⟨.unkeyed (hm.key.trans hkey') ?_ (hm.wire.trans hwire'),fun q hq => ?_⟩
      · exact (caught_moves _ err).elim (fun h => h.coreId.trans hid') fun h => h.coreId.trans hid'
      · rw [(caught_ends _ _).control] at hq
        cases hq

/-- No bytes come with what continues the handshake. -/
theorem continuation_arrivals {p : Exchange HandshakeResult} (h : continuation s e = some p) :
    arrivals [e] = [] := by
  cases e with
  | data chunk => simp [continuation] at h
  | _ => rfl

theorem grounded_goes_on {p : Exchange HandshakeResult} (hs : Grounded P cfg b s)
    (hp : continuation s e = some p) (h : step cfg s e = some t)
    (ha : ∀ c a, given s e = some (.call c a) → P c a) : Grounded P cfg b t := by
  refine ⟨coherent_keeps hs.coherent h,?_⟩
  obtain ⟨l,q,hrun,hback,hat,hshown,hreceived⟩ := hs.shown
  obtain ⟨q',hq⟩ := continuation_control hp
  obtain rfl := hat q' hq
  obtain ⟨hleft,hholds⟩ := hreceived.left _ hq
  obtain ⟨i,hi,hsize,hunread,hwaiters,hstep⟩ := hholds.given cfg hq hp
  obtain rfl := Option.some.inj (h.symm.trans hstep)
  obtain ⟨j,hj,hnext,hsilent⟩ := given_runs hq hp
  obtain rfl := Option.some.inj (hi.symm.trans hj)
  have hback' : Backed P (l++[i]) := by
    refine backed_append.mpr ⟨hback,fun c a hm => ?_⟩
    obtain rfl := List.mem_singleton.mp hm
    exact ha c a hi
  have hsized : ∀ n x, .read n (.ok x) ∈ l++[i] → x.length = n := by
    intro n x hm
    rcases List.mem_append.mp hm with hm | hm
    · exact hreceived.sized n x hm
    · exact hsize n x (List.mem_singleton.mp hm).symm
  have hbytes : (reads (l++[i])).flatten++unread s.taken = b := by
    rw [flatten_reads_append,List.append_assoc,hunread,hleft]
  cases hshown with
  | keyed _ hf _ => simp [Framed,hq] at hf
  | unkeyed hkey hid hwire =>
      rw [← List.append_nil (written l),← hsilent,← written_append] at hwire
      obtain ⟨hshown,hctl⟩ := continueHandshake_shown (s := s.taken) (p := p) hkey hid hwire
      exact ⟨_,_,(hrun.append hnext).append (runs_burst p),
        backed_append.mpr ⟨hback',backed_effects P _⟩,hctl,hshown,
        continueHandshake_received (s := s.taken) hsized rfl hwaiters hbytes p⟩

/-- A step that does not continue the handshake leaves it where it is. -/
theorem handshake_stays {q : Exchange HandshakeResult} (hs : Coherent cfg s)
    (h : step cfg s e = some t) (hnone : ∀ p, continuation s e ≠ some p)
    (hq : t.control = .handshake q) : s.control = .handshake q := by
  have hnot : ¬ Framed s := by
    intro hf
    have hft := (step_conveys hf h).framed
    simp [Framed,hq] at hft
  cases step_turn hs.history hs.started h with
  | detached hd _ => rw [← hd.control,hq]
  | handshake hp _ => exact absurd hp (hnone _)
  | waits hf _ _ _ => exact absurd hf hnot
  | returns hc _ _ => exact absurd (framed_of_loop hc) hnot
  | frame _ hf _ => exact absurd hf hnot
  | rejected hf _ => exact absurd hf hnot

/-- A step that does not continue the handshake adds to what is unread. -/
theorem received_stays {l : History} (hs : Coherent cfg s) (h : step cfg s e = some t)
    (hnone : ∀ p, continuation s e ≠ some p) (hr : Received s b l) :
    Received t (b++arrivals [e]) l := by
  refine ⟨hr.sized,hr.taken.trans (List.prefix_append _ _),fun q hq => ?_⟩
  have hq' := handshake_stays hs h hnone hq
  obtain ⟨hleft,hholds⟩ := hr.left q hq'
  obtain ⟨hholds',hunread⟩ := hholds.stays hq' hnone h
  exact ⟨by rw [hunread,← List.append_assoc,hleft],hholds'⟩

theorem grounded_keeps (hs : Grounded P cfg b s) (h : step cfg s e = some t)
    (ha : ∀ c a, given s e = some (.call c a) → P c a) : Grounded P cfg (b++arrivals [e]) t := by
  by_cases hnone : ∃ p, continuation s e = some p
  · obtain ⟨p,hp⟩ := hnone
    rw [continuation_arrivals hp,List.append_nil]
    exact grounded_goes_on hs hp h ha
  · have hnone : ∀ p, continuation s e ≠ some p := fun p hp => hnone ⟨p,hp⟩
    refine ⟨coherent_keeps hs.coherent h,?_⟩
    obtain ⟨l,q,hrun,hback,hat,hshown,hreceived⟩ := hs.shown
    have hid := coreId_kept hs.coherent h hnone
    refine ⟨l,q,hrun,hback,fun p hp => hat p (handshake_stays hs.coherent h hnone hp),?_,
      received_stays hs.coherent h hnone hreceived⟩
    cases hshown with
    | unkeyed hkey hno hwire =>
        have hm : Unmoved s t := by
          rcases hs.coherent.history.control with hi | ⟨p,hp,-⟩ | hf
          · exact absurd hi hs.coherent.started
          · exact (early_unmoved hp hkey h).resolve_left (not_exists.mpr hnone)
          · exact framed_unmoved hf hkey h
        exact .unkeyed (hm.key.trans hkey) (hid.trans hno) (hm.wire.trans hwire)
    | keyed hr hf hwire =>
        exact .keyed (hid.trans hr) (step_conveys hf h).framed
          (hwire.trans ((step_adds h).filterMap _))

theorem started_grounded (P : (c : Call) → Answer c → Prop) (cfg : Config) :
    Grounded P cfg [] (({} : Session).run cfg) := by
  refine ⟨run_coherent cfg,?_⟩
  obtain ⟨hshown,hctl⟩ := continueHandshake_shown
    (s := { ({} : Session).resetIdleTimer with progress := {}, phase := .handshaking }) (l := [])
    (p := runHandshake cfg.node cfg.serverPrivKeyPem cfg.draws) rfl rfl rfl
  exact ⟨_,_,runs_burst _,backed_effects P _,hctl,hshown,started_received cfg⟩

/-- The transcript of a session that has gone beyond the nonce, and what it was told by
the bytes `b` that came. -/
structure Disclosing (P : (c : Call) → Answer c → Prop) (cfg : Config) (b : Bytes) (s : Session)
    (c : Credentials) : Prop where
  valid : c.Valid cfg.draws
  size : c.ciphertext.length = 256
  received : c.ciphertext <+: b
  backed : Backed P (transcript cfg.node cfg.serverPrivKeyPem cfg.draws c)
  wire : [cfg.draws.nonce,c.sessionCiphertext++c.signature] <+: wire s.trace
  coreId : ∀ id, s.coreId = some id → id = c.coreId

theorem run_disclosed {node : Primitives} {serverPrivKeyPem : String} {draws : Draws} {l : History}
    {q : Exchange HandshakeResult} (h : Runs (runHandshake node serverPrivKeyPem draws) l q) :
    Disclosed node serverPrivKeyPem draws l ∧ ∀ r, q = .done r → ∃ k : Completion,
      k.Valid node draws ∧ r = k.result draws ∧ l = k.history node serverPrivKeyPem draws := by
  rcases ((runHandshake_keeps node serverPrivKeyPem draws).sound h).now with
    ⟨hw,hg⟩ | ⟨hnone,-,hg⟩ | ⟨r,hr,hpost⟩
  · exact ⟨hg.1.2,fun r hq => by rw [hq] at hw; exact hw.elim⟩
  · exact ⟨hg.2,fun r hq => by rw [hq] at hnone; cases hnone⟩
  · cases r with
    | error err =>
        rw [outcome_error hr]
        exact ⟨hpost.2.1,fun r hq => by cases hq⟩
    | ok r =>
        obtain ⟨k,hk,hres,hl,hg⟩ := hpost
        refine ⟨hg.2,fun r' hq => ⟨k,hk,?_,hl⟩⟩
        rw [outcome_ok hr] at hq
        exact (Program.done.inj hq).symm.trans hres

/-- The first read of a transcript is of the first bytes that came. -/
theorem Received.first {node : Primitives} {serverPrivKeyPem : String} {draws : Draws}
    {c : Credentials} {u : History} (h : Received s b (transcript node serverPrivKeyPem draws c++u)) :
    c.ciphertext.length = 256 ∧ c.ciphertext <+: b := by
  have hreads : (reads (transcript node serverPrivKeyPem draws c++u)).flatten =
      c.ciphertext++(reads u).flatten := by
    rw [flatten_reads_append]
    simp [transcript,opening,identification,keyLookup,disclosure,reads]
  refine ⟨h.sized 256 _ (by simp [transcript,identification]),?_⟩
  exact (List.prefix_append _ _).trans (hreads ▸ h.taken)

/-- A session that has an id, or has written more than the nonce, has a transcript behind it. -/
theorem Grounded.discloses (hs : Grounded P cfg b s)
    (h : 2 ≤ (wire s.trace).length ∨ s.coreId ≠ none) : ∃ c, Disclosing P cfg b s c := by
  obtain ⟨l,q,hrun,hback,-,hshown,hreceived⟩ := hs.shown
  obtain ⟨hdisclosed,hdone⟩ := run_disclosed hrun
  cases hshown with
  | unkeyed _ hid hwire =>
      have hlong : 2 ≤ (written l).length := hwire ▸ h.resolve_right fun hne => hne hid
      rcases hdisclosed with hl | hl | ⟨c,hc,u,rfl⟩
      · simp [hl] at hlong
      · simp [hl] at hlong
      · obtain ⟨hsize,hfirst⟩ := hreceived.first
        refine ⟨c,hc,hsize,hfirst,(backed_append.mp hback).1,?_,fun id hid' => ?_⟩
        · rw [hwire,written_append]
          exact List.prefix_append _ _
        · rw [hid] at hid'
          cases hid'
  | @keyed r hr _ hwire =>
      obtain ⟨k,hk,rfl,rfl⟩ := hdone r rfl
      rw [Completion.history,Completion.greeted,List.append_assoc] at hback hreceived
      obtain ⟨hsize,hfirst⟩ := hreceived.first
      refine ⟨k.credentials,hk.credentials,hsize,hfirst,(backed_append.mp hback).1,?_,?_⟩
      · exact List.IsPrefix.trans ⟨[frame [] k.reply],rfl⟩ hwire
      · intro id hid
        exact Option.some.inj (hid.symm.trans hr)

end Grounding
end SparkProtocol.Sessions
