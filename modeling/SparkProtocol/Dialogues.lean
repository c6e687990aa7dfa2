import SparkProtocol.Correlation

/-!
# A session and a device that answers

The device answers each request that reached it at most once, with a message
that echoes the token of the request and is not a ping; whatever else it sends
carries no token. When it answers, how late, and in which order is left open, as
is every other event of the session. Each response is recorded with the request
it was made for, which the session cannot see.
-/
namespace SparkProtocol.Sessions
open ByteStrings HostValues StreamPrograms Program Crypto Chunking Coap Messages Handshake
  ByteQueues OrderedMaps FramedStreams LabelledRuns Session

structure Dialogue where
  session : Session
  /-- The requests that reached the device, with their tokens. -/
  sent : List (ℕ × UInt8) := []
  /-- The responses handled so far, with the requests they answer. -/
  replies : List (ℕ × CoapMessage JsNumber) := []
  /-- Those which came while their own request was outstanding. -/
  onTime : List (ℕ × CoapMessage JsNumber) := []

namespace Dialogue

/-- The device may send `msg` as its answer to the request. -/
def Answers (d : Dialogue) (id : ℕ) (msg : CoapMessage JsNumber) : Prop :=
  id ∉ d.replies.map Prod.fst ∧ ∃ p ∈ d.sent, p.1 = id ∧ msg.token = [p.2]

instance (d : Dialogue) (id : ℕ) (msg : CoapMessage JsNumber) : Decidable (d.Answers id msg) :=
  inferInstanceAs (Decidable (_ ∧ _))

/-- The request's timer is running: it has neither settled nor timed out. -/
def Outstanding (d : Dialogue) (id : ℕ) : Prop := ∃ timer ∈ d.session.timers, timer.id = id

instance (d : Dialogue) (id : ℕ) : Decidable (d.Outstanding id) :=
  inferInstanceAs (Decidable (∃ timer ∈ _, _))

def reply (d : Dialogue) (t : Session) (id : ℕ) (msg : CoapMessage JsNumber) : Dialogue :=
  { d with
    session := t
    replies := d.replies++[(id,msg)]
    onTime := if d.Outstanding id then d.onTime++[(id,msg)] else d.onTime }

/-- A step of the session. If it hands a response to `_handleFrame`, the label says
which request the device answers with it. -/
def step (cfg : Config) (d : Dialogue) (a : Event × Option ℕ) : Option Dialogue :=
  match Sessions.step cfg d.session a.1 with
  | none => none
  | some t =>
      match answered cfg.node d.session a.1,a.2 with
      | none,none => some { d with session := t, sent := d.sent++(posed d.session a.1).toList }
      | some msg,some id => if d.Answers id msg then some (d.reply t id msg) else none
      | _,_ => none

inductive Steps (cfg : Config) (d : Dialogue) (a : Event × Option ℕ) : Dialogue → Prop
  | other {t : Session} : Sessions.step cfg d.session a.1 = some t →
      answered cfg.node d.session a.1 = none → a.2 = none →
      Steps cfg d a { d with session := t, sent := d.sent++(posed d.session a.1).toList }
  | reply {t : Session} {id : ℕ} {msg : CoapMessage JsNumber} :
      Sessions.step cfg d.session a.1 = some t → answered cfg.node d.session a.1 = some msg →
      a.2 = some id → d.Answers id msg → Steps cfg d a (d.reply t id msg)

theorem step_iff {cfg : Config} {d d' : Dialogue} {a : Event × Option ℕ} :
    d.step cfg a = some d' ↔ Steps cfg d a d' := by
  constructor
  · intro h
    unfold step at h
    split at h
    · cases h
    · next t ht =>
        split at h
        · next ha hi =>
            obtain rfl := Option.some.inj h
            exact .other ht ha hi
        · next msg id ha hi =>
            split_ifs at h with hans
            obtain rfl := Option.some.inj h
            exact .reply ht ha hi hans
        · cases h
  · intro h
    cases h with
    | other ht ha hi => simp only [step,ht,ha,hi]
    | reply ht ha hi hans => simp only [step,ht,ha,hi,hans,↓reduceIte]

/-- What the books promise. A promise resolves only with a response to its own
request; a response in time resolves its request; every outstanding request has
its own entry, no two share a key, and no timeout takes another's entry. -/
structure Correlated (d : Dialogue) : Prop where
  only : ∀ id msg, .resolve id msg ∈ d.session.trace → (id,msg) ∈ d.replies
  onTime : ∀ r ∈ d.onTime, .resolve r.1 r.2 ∈ d.session.trace
  own : ∀ timer ∈ d.session.timers, d.session.pending.get timer.key = some timer.id
  apart : ∀ a ∈ d.session.timers, ∀ b ∈ d.session.timers, a.id ≠ b.id → a.key ≠ b.key ∧
    (d.session.onRequestTimeout a).pending.get b.key = some b.id

/-- A token is drawn that an outstanding request holds, or a response meets the
entry of another request than its own. -/
def Collides (cfg : Config) (d : Dialogue) (a : Event × Option ℕ) : Prop :=
  (∃ name opts token, a = (.request name opts token,none) ∧ d.session.phase = .connected ∧
    ∃ timer ∈ d.session.timers, timer.key = toHex [token]) ∨
  ∃ id msg other, a.2 = some id ∧ answered cfg.node d.session a.1 = some msg ∧ d.Answers id msg ∧
    d.session.pending.get (toHex msg.token) = some other ∧ other ≠ id

structure InOrder (d : Dialogue) : Prop where
  framed : Framed d.session
  key : d.session.aesKey.length = 16
  ivOut : d.session.ivOut.length = 16
  filed : Filed d.session.pending d.session.timers d.session.requests d.sent
    (d.replies.map Prod.fst)
  only : ∀ id msg, .resolve id msg ∈ resolved d.session.trace → (id,msg) ∈ d.replies
  onTime : ∀ r ∈ d.onTime, .resolve r.1 r.2 ∈ resolved d.session.trace

theorem InOrder.correlated {d : Dialogue} (h : InOrder d) : Correlated d := by
  refine ⟨?_,?_,h.filed.own,?_⟩
  · intro id msg hm
    exact h.only id msg (mem_resolved.mpr hm)
  · intro r hr
    exact mem_resolved.mp (h.onTime r hr)
  · intro a ha b hb hne
    have hk := h.filed.key_ne ha hb hne
    refine ⟨hk,?_⟩
    exact (OrderedMap.get_delete_ne _ hk.symm).trans (h.filed.own b hb)

section Keeping
variable {cfg : Config} {d : Dialogue}

/-- An entry under the token of a request is the entry of that request or of a
request that collided with it. -/
theorem not_outstanding_of_none (h : InOrder d) {id : ℕ} {msg : CoapMessage JsNumber}
    (ha : d.Answers id msg) (hn : d.session.pending.get (toHex msg.token) = none) :
    ∀ timer ∈ d.session.timers, timer.id ≠ id := by
  rintro timer ht rfl
  obtain ⟨_,⟨i,token⟩,hp,rfl,htok⟩ := ha
  obtain ⟨_,_,other,ho,hk⟩ := h.filed.live timer ht
  have hsame : token = other := h.filed.once timer.id _ _ hp ho
  have hown := h.filed.own timer ht
  rw [hk,← hsame] at hown
  rw [htok,hown] at hn
  cases hn

theorem inOrder_other {t : Session} {e : Event} (h : InOrder d)
    (hc : ¬ Collides cfg d (e,none)) (ht : Sessions.step cfg d.session e = some t)
    (ha : answered cfg.node d.session e = none) :
    InOrder { d with session := t, sent := d.sent++(posed d.session e).toList } := by
  have hv := step_conveys h.framed ht
  obtain ⟨l,hs,-⟩ := hv.ivOut
  -- the record of responses stays, so the resolved promises must stay
  have build : ∀ p, posed d.session e = p →
      Filed t.pending t.timers t.requests (d.sent++p.toList) (d.replies.map Prod.fst) →
      resolved t.trace = resolved d.session.trace →
      InOrder { d with session := t, sent := d.sent++(posed d.session e).toList } := by
    rintro p rfl hfiled hres
    exact ⟨hv.framed,hv.key ▸ h.key,hs.ivOut_length h.ivOut,hfiled,
      fun id msg hm => h.only id msg (hres ▸ hm),fun r hr => hres ▸ h.onTime r hr⟩
  have hf := h.filed
  cases step_files h.framed h.key h.ivOut ht with
  | kept hk hp _ =>
      apply build none hp _ hk.resolved
      rw [hk.pending,hk.timers,hk.requests]
      simpa using hf
  | emptied hk hp _ =>
      apply build none hp _ hk.resolved
      rw [hk.pending,hk.timers,hk.requests]
      simpa using hf.emptied
  | refused _ _ hp hreq hpend htim hres =>
      apply build none hp _ hres
      rw [hpend,htim,hreq]
      simpa using hf.later
  | @opened name opts token he hph hp hreq hpend htim hres =>
      apply build _ hp _ hres
      rw [hpend,htim,hreq]
      apply hf.opened
      intro timer hm hkey
      exact hc (.inl ⟨name,opts,token,by rw [he],hph,timer,hm,hkey⟩)
  | @failed name opts token he hph hp hreq hpend htim hres =>
      apply build none hp _ hres
      rw [hpend,htim,hreq]
      have hfresh : ∀ timer ∈ d.session.timers, timer.key ≠ toHex [token] := by
        intro timer hm hkey
        exact hc (.inl ⟨name,opts,token,by rw [he],hph,timer,hm,hkey⟩)
      simpa using hf.failed hfresh
  | @expired timer hm he hpend htim hreq hres =>
      apply build none (by rw [he]; rfl) _ hres
      rw [hpend,htim,hreq]
      simpa using hf.removed hm
  | matched hans _ _ _ _ _ => simp [ha] at hans

/-- A response is entered, and its promise resolves where the request is outstanding. -/
theorem InOrder.replied {t : Session} {id : ℕ} {msg : CoapMessage JsNumber} (h : InOrder d)
    (hframed : Framed t) (hkey : t.aesKey.length = 16) (hiv : t.ivOut.length = 16)
    (hfiled : Filed t.pending t.timers t.requests d.sent (d.replies.map Prod.fst++[id]))
    (hold : ∀ i m, .resolve i m ∈ resolved t.trace →
      .resolve i m ∈ resolved d.session.trace ∨ (i = id ∧ m = msg))
    (hgrow : ∀ o ∈ resolved d.session.trace, o ∈ resolved t.trace)
    (hnew : d.Outstanding id → .resolve id msg ∈ resolved t.trace) :
    InOrder (d.reply t id msg) := by
  refine ⟨hframed,hkey,hiv,?_,?_,?_⟩
  · simpa [reply] using hfiled
  · intro i m hm
    rcases hold i m hm with hm | ⟨rfl,rfl⟩
    · exact List.mem_append_left _ (h.only i m hm)
    · exact List.mem_append_right _ List.mem_cons_self
  · intro r hr
    simp only [reply] at hr
    split_ifs at hr with hout
    · rcases List.mem_append.mp hr with hr | hr
      · exact hgrow _ (h.onTime r hr)
      · obtain rfl := List.mem_singleton.mp hr
        exact hnew hout
    · exact hgrow _ (h.onTime r hr)

theorem inOrder_reply {t : Session} {e : Event} {id : ℕ} {msg : CoapMessage JsNumber}
    (h : InOrder d) (hc : ¬ Collides cfg d (e,some id))
    (ht : Sessions.step cfg d.session e = some t)
    (ha : answered cfg.node d.session e = some msg) (hans : d.Answers id msg) :
    InOrder (d.reply t id msg) := by
  have hv := step_conveys h.framed ht
  obtain ⟨l,hs,-⟩ := hv.ivOut
  have hlt : id < d.session.requests := by
    obtain ⟨-,p,hp,rfl,-⟩ := hans
    exact h.filed.known p hp
  have hdel : delivered d.session e ≠ none := by
    intro hn
    simp [answered,hn] at ha
  have hiv := hs.ivOut_length h.ivOut
  cases step_files h.framed h.key h.ivOut ht with
  | kept hk _ hnone =>
      have hgone := not_outstanding_of_none h hans (hnone msg ha)
      apply h.replied hv.framed (hv.key ▸ h.key) hiv
      · rw [hk.pending,hk.timers,hk.requests]
        exact h.filed.answered hgone hlt
      · intro i m hm
        exact .inl (hk.resolved ▸ hm)
      · intro o ho
        exact hk.resolved ▸ ho
      · rintro ⟨timer,hm,hid⟩
        exact absurd hid (hgone timer hm)
  | @matched msg' other ha' hget hpend htim hreq hres =>
      obtain rfl : msg' = msg := Option.some.inj (ha'.symm.trans ha)
      have hid : other = id := by
        by_contra hne
        exact hc (.inr ⟨id,msg',other,rfl,ha,hans,hget,hne⟩)
      subst hid
      obtain ⟨timer,hm,hti,htk⟩ := h.filed.entries _ _ hget
      apply h.replied hv.framed (hv.key ▸ h.key) hiv
      · rw [hpend,htim,hreq,← htk,← hti]
        apply (h.filed.removed hm).answered
        · intro other ho
          simpa using (List.mem_filter.mp ho).2
        · exact (h.filed.live timer hm).1
      · intro i m hm
        rw [hres] at hm
        simpa using hm
      · intro o ho
        rw [hres]
        exact List.mem_append_left _ ho
      · intro _
        rw [hres]
        exact List.mem_append_right _ List.mem_cons_self
  | emptied _ _ hn => simp [ha] at hn
  | refused he _ _ _ _ _ _ => simp [he,delivered] at hdel
  | opened he _ _ _ _ _ _ => simp [he,delivered] at hdel
  | failed he _ _ _ _ _ _ => simp [he,delivered] at hdel
  | expired _ he _ _ _ _ => simp [he,delivered] at hdel

theorem inOrder_keeps {d' : Dialogue} {a : Event × Option ℕ} (h : InOrder d)
    (hc : ¬ Collides cfg d a) (hs : d.step cfg a = some d') : InOrder d' := by
  obtain ⟨e,i⟩ := a
  cases step_iff.mp hs with
  | other ht ha hi =>
      obtain rfl : i = none := hi
      exact inOrder_other h hc ht ha
  | reply ht ha hi hans =>
      obtain rfl : i = some _ := hi
      exact inOrder_reply h hc ht ha hans

theorem repeated_token_breaks (h : InOrder d) {name : MessageKey} {opts : RequestOptions}
    {token : UInt8} {t : Session} (ht : Sessions.step cfg d.session (.request name opts token) = some t)
    (hp : d.session.phase = .connected) {timer : RequestTimer} (hm : timer ∈ d.session.timers)
    (hk : timer.key = toHex [token]) :
    ∃ other ∈ t.timers, t.pending.get other.key ≠ some other.id := by
  have hlt := (h.filed.live timer hm).1
  have hreq : t.requests = d.session.requests+1 := by
    obtain rfl := Option.some.inj ht
    obtain ⟨_,_,_,_,_,_,-,-,-,he⟩ := request_shape cfg.node d.session name opts token
    rw [he]
  cases step_files h.framed h.key h.ivOut ht with
  | kept hk _ _ => simp [hk.requests] at hreq
  | emptied hk _ _ => simp [hk.requests] at hreq
  | refused _ hn _ _ _ _ _ => exact absurd hp hn
  | opened he _ _ _ hpend htim _ =>
      cases he
      refine ⟨timer,?_,?_⟩
      · rw [htim]
        exact List.mem_append_left _ hm
      · -- the entry is now the newer request's
        rw [hpend,hk,OrderedMap.get_set_self]
        intro he
        have := Option.some.inj he
        omega
  | failed he _ _ _ hpend htim _ =>
      cases he
      refine ⟨timer,?_,?_⟩
      · rw [htim]
        exact List.mem_filter.mpr ⟨hm,by simpa using Nat.ne_of_lt hlt⟩
      · rw [hpend,hk,OrderedMap.get_delete_self]
        simp
  | expired _ _ _ _ hr _ => simp [hr] at hreq
  | matched _ _ _ _ hr _ => simp [hr] at hreq

theorem collides_breaks {a : Event × Option ℕ} (h : InOrder d) (hc : Collides cfg d a) :
    ∃ d', d.step cfg a = some d' ∧ ¬ Correlated d' := by
  rcases hc with ⟨name,opts,token,rfl,hp,timer,hm,hk⟩ | ⟨id,msg,other,hi,ha,hans,hget,hne⟩
  · refine ⟨_,step_iff.mpr (.other rfl rfl rfl),fun hcor => ?_⟩
    have ht : Sessions.step cfg d.session (.request name opts token) = some _ := rfl
    obtain ⟨b,hb,hbad⟩ := repeated_token_breaks h ht hp hm hk
    exact hbad (hcor.own b hb)
  · obtain ⟨e,i⟩ := a
    obtain ⟨ct,hd,-⟩ := Option.bind_eq_some_iff.mp ha
    obtain ⟨rfl,t,ht⟩ := delivered_enabled cfg hd
    refine ⟨_,step_iff.mpr (.reply ht ha hi hans),fun hcor => ?_⟩
    cases step_files h.framed h.key h.ivOut ht with
    | kept _ _ hnone => simp [hnone msg ha] at hget
    | emptied _ _ hn => simp [ha] at hn
    | matched ha' hget' _ _ _ hres =>
        obtain rfl := Option.some.inj (ha'.symm.trans ha)
        obtain rfl := Option.some.inj (hget'.symm.trans hget)
        have hmem := hcor.only _ _ (mem_resolved.mp (hres ▸ List.mem_append_right _ List.mem_cons_self))
        rcases List.mem_append.mp hmem with hmem | hmem
        · -- the entry's request is outstanding, so the device has not answered it
          obtain ⟨timer,hm,hti,-⟩ := h.filed.entries _ _ hget
          exact (h.filed.live timer hm).2.1 (hti ▸ List.mem_map_of_mem (f := Prod.fst) hmem)
        · exact hne (Prod.mk.inj (List.mem_singleton.mp hmem)).1
    | refused he _ _ _ _ _ _ => cases he
    | opened he _ _ _ _ _ _ => cases he
    | failed he _ _ _ _ _ _ => cases he
    | expired _ he _ _ _ _ => cases he

end Keeping

/-- A connected session that has made no request yet. -/
structure Unasked (s : Session) : Prop extends Connected s where
  pending : s.pending = .empty
  timers : s.timers = []
  unresolved : resolved s.trace = []

theorem Unasked.inOrder {s : Session} (h : Unasked s) : InOrder { session := s } := by
  refine ⟨h.framed,h.key,h.ivOut,?_,?_,?_⟩
  · rw [h.pending,h.timers]
    exact Filed.start
  · simp [h.unresolved]
  · simp

/-- Responses and requests go together along exactly the runs without a collision. -/
theorem correlated_iff_no_collision (cfg : Config) {s : Session} (h : Unasked s)
    (as : List (Event × Option ℕ)) :
    Always (step cfg) Correlated { session := s } as ↔
      Throughout (step cfg) (fun d a => ¬ Collides cfg d a) { session := s } as :=
  always_iff_throughout (fun _ hd => hd.correlated) (fun _ _ _ hd hc hs => inOrder_keeps hd hc hs)
    (fun _ _ hd hc => collides_breaks hd (not_not.mp hc)) h.inOrder

theorem plainSession_unasked : Unasked plainSession := by
  have h : plainSession.pending.entries = [] ∧ plainSession.timers = [] ∧
      resolved plainSession.trace = [] := by
    decide +kernel
  have hp : ∀ m : OrderedMap String ℕ, m.entries = [] → m = .empty := by
    rintro ⟨es,hd⟩ rfl
    rfl
  exact ⟨plainSession_connected,hp _ h.1,h.2.1,h.2.2⟩

/-- Two requests draw the token 7, and the device answers the first. -/
def sameToken : List (Event × Option ℕ) :=
  [(.loop,none),(.request (.named .getTime) {} 7,none),(.request (.named .describe) {} 7,none),
    (.data ([0,16,0xFF,0x31,0x47,0,8,11]++List.replicate 11 7),none),(.resume,none),
    (.resume,some 0)]

theorem correlated_iff_no_collision_plain :
    Always (step plainConfig) Correlated { session := plainSession } sameToken ↔
      Throughout (step plainConfig) (fun d a => ¬ Collides plainConfig d a)
        { session := plainSession } sameToken :=
  correlated_iff_no_collision plainConfig plainSession_unasked sameToken

def misresolved (d : Dialogue) : Bool :=
  d.session.trace.any fun
    | .resolve id msg => (id,msg) ∉ d.replies
    | _ => false

/-- The second request resolves with the response to the first. -/
theorem sameToken_misresolves : ¬ ∀ (cfg : Config) (s : Session), Unasked s →
    ∀ as, Always (step cfg) Correlated { session := s } as := by
  intro h
  have hrun : (exec (step plainConfig) { session := plainSession } sameToken).map misresolved =
      some true := by
    decide +kernel
  obtain ⟨d,hr,hd⟩ := Run.of_observation _ hrun
  have hcor := (h plainConfig plainSession plainSession_unasked _).at_end hr
  obtain ⟨o,ho,hbad⟩ := List.any_eq_true.mp hd
  cases o with
  | resolve id msg => simp [hcor.only id msg ho] at hbad
  | _ => simp at hbad

end Dialogue
end SparkProtocol.Sessions
