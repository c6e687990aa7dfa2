import SparkProtocol.SessionHistory

/-!
# The life of a request

Four things settle a request: its response, its timer, a send that throws, and the
close of the session. Each takes the request out of both tables as it settles the
promise, so the tables stay an account of the requests that have not settled, as
long as no two of these share a token.
-/
namespace SparkProtocol.Sessions
open ByteStrings HostValues StreamPrograms Program Crypto Chunking Coap Messages Handshake
  ByteQueues OrderedMaps FramedStreams LabelledRuns Session

/-- The request whose promise settles. -/
def Out.settles : Out → Option ℕ
  | .resolve id _ => some id
  | .reject id _ => some id
  | _ => none

def settlements (l : List Out) : List Out := l.filter fun o => o.settles.isSome

def settledIds (l : List Out) : List ℕ := l.filterMap Out.settles

/-- No outstanding request has the token that is drawn. -/
def Fresh (s : Session) : Event → Prop
  | .request _ _ token => s.phase = .connected → s.pending.get (toHex [token]) = none
  | _ => True

instance (s : Session) (e : Event) : Decidable (Fresh s e) := by
  cases e <;> unfold Fresh <;> infer_instance

/-- What settles in a step from `s` to `t`, and how. -/
def settling (node : Primitives) (s : Session) (e : Event) (t : Session) : List Out :=
  match e with
  | .request name opts token =>
      if s.phase ≠ .connected then [.reject s.requests notConnected]
      else match ((filed s name opts token).send node name (opts.sent token)).2 with
        | .error err => [.reject s.requests err]
        | .ok _ => []
  | .requestTimeout id =>
      ((s.timers.find? fun timer => timer.id = id).map fun timer => .reject id (timedOut timer)).toList
  | e =>
      if s.phase ≠ .closed ∧ t.phase = .closed then closingRejects s
      else ((answered node s e).bind fun msg =>
        (s.pending.get (toHex msg.token)).map fun id => .resolve id msg).toList

/-- The tables as an account of the requests. -/
structure Tabled (s : Session) : Prop where
  /-- Each entry has its timer, and each timer its entry. -/
  timed : s.pending.entries.Perm (s.timers.map fun timer => (timer.key,timer.id))
  /-- Each request has settled once or has one entry. -/
  accounted : (settledIds s.trace++s.pending.values).Perm (List.range s.requests)

/-- What a step does in the life of the requests. -/
structure Lives (node : Primitives) (s : Session) (e : Event) (t : Session) : Prop where
  settles : settlements t.trace = settlements s.trace++settling node s e t
  closes : s.trace.count .close < t.trace.count .close → t.pending.entries = [] ∧ t.timers = []
  unconnected : ∀ name opts token, e = .request name opts token → s.phase ≠ .connected →
    t = { s with requests := s.requests+1, trace := s.trace++[.reject s.requests notConnected] }
  unmatched : ∀ ct plain msg, delivered s e = some ct →
    aesDecrypt node s.aesKey s.ivIn ct = .ok plain → decode plain = .ok msg →
    classify msg ≠ some .ping → s.pending.get (toHex msg.token) = none →
    t.trace = s.trace++[.frameIn ct,.message (classify msg) msg]

section Accounts
variable {node : Primitives} {s t : Session} {e : Event} {l : List Out}

@[simp] theorem settlements_append (l m : List Out) :
    settlements (l++m) = settlements l++settlements m := List.filter_append ..

@[simp] theorem settledIds_append (l m : List Out) :
    settledIds (l++m) = settledIds l++settledIds m := List.filterMap_append ..

theorem settlements_booked (l : List Out) : settlements (booked l) = settlements l := by
  unfold settlements booked
  rw [List.filter_filter]
  apply List.filter_congr
  intro o _
  cases o <;> rfl

theorem settledIds_settlements (l : List Out) : settledIds (settlements l) = settledIds l := by
  unfold settledIds settlements
  rw [List.filterMap_filter]
  apply List.filterMap_congr
  intro o _
  cases o <;> rfl

theorem count_close_booked (l : List Out) : (booked l).count .close = l.count .close :=
  List.count_filter rfl

/-- What the books gain, the settlements gain. -/
theorem settlements_of_booked (h : booked t.trace = booked s.trace++l) :
    settlements t.trace = settlements s.trace++settlements l := by
  rw [← settlements_booked t.trace,h,settlements_append,settlements_booked]

theorem settledIds_of_booked (h : booked t.trace = booked s.trace++l) :
    settledIds t.trace = settledIds s.trace++settledIds l := by
  rw [← settledIds_settlements t.trace,settlements_of_booked h,settledIds_append,
    settledIds_settlements,settledIds_settlements]

theorem count_close_of_booked (h : booked t.trace = booked s.trace++l) :
    t.trace.count .close = s.trace.count .close+l.count .close := by
  rw [← count_close_booked t.trace,h,List.count_append,count_close_booked]

theorem settledIds_closingRejects (s : Session) :
    settledIds (closingRejects s) = s.pending.values := by
  unfold settledIds closingRejects
  rw [List.filterMap_map]
  exact List.filterMap_some

theorem settlements_closingRejects (s : Session) :
    settlements (closingRejects s) = closingRejects s := by
  apply List.filter_eq_self.mpr
  intro o ho
  obtain ⟨id,-,rfl⟩ := List.mem_map.mp ho
  rfl

end Accounts

section Tables
variable {node : Primitives} {s t : Session} {e : Event}

theorem Tabled.start : Tabled {} :=
  ⟨by simp [OrderedMap.empty],by simp [settledIds,OrderedMap.empty,OrderedMap.values]⟩

theorem Tabled.lt (h : Tabled s) {id : ℕ} (hid : id ∈ s.pending.values) : id < s.requests :=
  List.mem_range.mp (h.accounted.mem_iff.mp (List.mem_append_right _ hid))

theorem Tabled.timer_mem (h : Tabled s) {timer : RequestTimer} (ht : timer ∈ s.timers) :
    s.pending.get timer.key = some timer.id ∧ timer.id ∈ s.pending.values := by
  have hmem := h.timed.mem_iff.mpr (List.mem_map_of_mem (f := fun r : RequestTimer => (r.key,r.id)) ht)
  exact ⟨OrderedMap.get_eq_some.mpr hmem,List.mem_map_of_mem (f := Prod.snd) hmem⟩

/-- A request that settles at once leaves no entry. -/
theorem Tabled.passed (h : Tabled s) (hpend : t.pending.entries = s.pending.entries)
    (htimers : t.timers = s.timers) (hreq : t.requests = s.requests+1)
    (hset : settledIds t.trace = settledIds s.trace++[s.requests]) : Tabled t := by
  refine ⟨?_,?_⟩
  · rw [hpend,htimers]
    exact h.timed
  · rw [hset,hreq,List.range_succ,OrderedMap.values,hpend,List.append_assoc]
    calc settledIds s.trace++([s.requests]++s.pending.values)
        |>.Perm (settledIds s.trace++(s.pending.values++[s.requests])) :=
          List.perm_append_comm.append_left _
      _ |>.Perm ((settledIds s.trace++s.pending.values)++[s.requests]) := by rw [List.append_assoc]
      _ |>.Perm (List.range s.requests++[s.requests]) := h.accounted.append_right _

/-- A request that settles takes its entry and its timer along. -/
theorem Tabled.removed (h : Tabled s) {key : String} {id : ℕ} (hget : s.pending.get key = some id)
    (hpend : t.pending = s.pending.delete key)
    (htimers : t.timers = s.timers.filter fun timer => timer.id ≠ id)
    (hreq : t.requests = s.requests) (hset : settledIds t.trace = settledIds s.trace++[id]) :
    Tabled t := by
  have hmem := OrderedMap.get_eq_some.mp hget
  have hentries := OrderedMap.entries_delete hmem
  have hnodup : s.pending.values.Nodup := by
    have := h.accounted.nodup_iff.mpr List.nodup_range
    exact this.of_append_right
  refine ⟨?_,?_⟩
  · -- among the entries the key and the id pick out the same one
    have hsame : (s.pending.delete key).entries = s.pending.entries.filter fun e => e.2 ≠ id := by
      apply List.filter_congr
      rintro ⟨k,i⟩ hki
      have hiff : k = key ↔ i = id := by
        constructor
        · rintro rfl
          have hgk := OrderedMap.get_eq_some.mpr hki
          exact Option.some.inj (hgk.symm.trans hget)
        · rintro rfl
          by_contra hne
          have hin : (k,i) ∈ (s.pending.delete key).entries := OrderedMap.mem_delete.mpr ⟨hki,hne⟩
          have hperm := (hentries.map Prod.snd).nodup_iff.mpr hnodup
          have hi : i ∈ (s.pending.delete key).entries.map Prod.snd := List.mem_map_of_mem hin
          exact (List.nodup_cons.mp hperm).1 hi
      simp [hiff]
    have hfilter : (s.timers.filter fun timer => timer.id ≠ id).map
          (fun timer => (timer.key,timer.id)) =
        (s.timers.map fun timer => (timer.key,timer.id)).filter fun e => e.2 ≠ id := by
      rw [List.filter_map]
      rfl
    rw [hpend,htimers,hsame,hfilter]
    exact h.timed.filter _
  · rw [hset,hreq,hpend,List.append_assoc]
    refine List.Perm.trans (List.Perm.append_left _ ?_) h.accounted
    exact hentries.map Prod.snd

theorem Tabled.still (h : Tabled s) (k : Still s t) : Tabled t := by
  have hset := settledIds_of_booked (k.booked.trans (List.append_nil _).symm)
  refine ⟨?_,?_⟩
  · rw [k.pending,k.timers]
    exact h.timed
  · rw [hset,k.pending,k.requests]
    simpa [settledIds] using h.accounted

/-- When the session closes no timer is left. -/
theorem Tabled.ended (h : Tabled s) (k : Ended s t) : t.timers = [] ∧ Tabled t := by
  have htimers : t.timers = [] := by
    rw [k.timers]
    apply List.filter_eq_nil_iff.mpr
    intro timer ht
    simpa using (h.timer_mem ht).2
  have hb := k.booked
  rw [List.append_assoc] at hb
  have hset := settledIds_of_booked hb
  have hclose : settledIds [.close] = [] := rfl
  rw [settledIds_append,settledIds_closingRejects,hclose,List.append_nil] at hset
  refine ⟨htimers,?_,?_⟩
  · rw [k.pending,htimers]
    simp [OrderedMap.empty]
  · rw [hset,k.pending,k.requests]
    simpa [OrderedMap.empty,OrderedMap.values] using h.accounted

/-- A request is entered under a token that no other has. -/
theorem Tabled.filed (h : Tabled s) (name : MessageKey) (opts : RequestOptions) {token : UInt8}
    (hfresh : s.pending.get (toHex [token]) = none) : Tabled (Sessions.filed s name opts token) := by
  have hnew : toHex [token] ∉ s.pending.entries.map Prod.fst := by
    intro hm
    obtain ⟨⟨k,i⟩,he,hk⟩ := List.mem_map.mp hm
    obtain rfl : k = toHex [token] := hk
    rw [OrderedMap.get_eq_some.mpr he] at hfresh
    cases hfresh
  have hset := OrderedMap.set_new s.requests hnew
  refine ⟨?_,?_⟩
  · simp only [Sessions.filed,hset,List.map_append,List.map_singleton]
    exact h.timed.append_right _
  · simp only [Sessions.filed,OrderedMap.values,hset,List.map_append,List.map_singleton,
      List.range_succ]
    rw [← List.append_assoc]
    exact h.accounted.append_right _

/-- The tables of a request whose send threw are those before it. -/
theorem pending_thrown {key : String} (hfresh : s.pending.get key = none) (id : ℕ) :
    ((s.pending.set key id).delete key).entries = s.pending.entries := by
  have hkey : ∀ e ∈ s.pending.entries, e.1 ≠ key := by
    rintro ⟨k,i⟩ he rfl
    rw [OrderedMap.get_eq_some.mpr he] at hfresh
    cases hfresh
  have hnew : key ∉ s.pending.entries.map Prod.fst := by
    intro hm
    obtain ⟨e,he,hk⟩ := List.mem_map.mp hm
    exact hkey e he hk
  change (s.pending.set key id).entries.filter _ = _
  rw [OrderedMap.set_new id hnew,List.filter_append,List.filter_cons_of_neg (by simp)]
  simpa using hkey

theorem Tabled.timers_lt (h : Tabled s) :
    s.timers.filter (fun timer => timer.id ≠ s.requests) = s.timers := by
  apply List.filter_eq_self.mpr
  intro timer ht
  simpa using Nat.ne_of_lt (h.lt (h.timer_mem ht).2)

/-- Every step of a session whose requests have their own tokens keeps the account. -/
theorem Tabled.settles (h : Tabled s) (hfresh : Fresh s e) (k : Settles node s e t) : Tabled t := by
  cases k with
  | still k _ _ => exact h.still k
  | ended k _ _ => exact (h.ended k).2
  | refused _ _ ht =>
      subst ht
      exact h.passed rfl rfl rfl (settledIds_append ..)
  | @filed name opts token _ he hc hr =>
      subst he
      have hstill := still_send node (Sessions.filed s name opts token) name (opts.sent token)
      rw [hr] at hstill
      exact (h.filed name opts (hfresh hc)).still hstill
  | thrown he hc hr hpend htimers hreq hb =>
      subst he
      refine h.passed ?_ (htimers.trans h.timers_lt) hreq (settledIds_of_booked hb)
      rw [hpend]
      exact pending_thrown (hfresh hc) _
  | expired hfind _ ht =>
      subst ht
      have hget := (h.timer_mem (List.mem_of_find?_eq_some hfind)).1
      exact h.removed hget rfl rfl rfl (settledIds_append ..)
  | matched _ hm _ _ hpend htimers hreq hb =>
      exact h.removed hm hpend htimers hreq (settledIds_of_booked hb)

end Tables

section Causes
variable {node : Primitives} {s t : Session} {e : Event}

theorem settling_undealt (he : e.isDealing = false) :
    settling node s e t =
      if s.phase ≠ .closed ∧ t.phase = .closed then closingRejects s
      else ((answered node s e).bind fun msg =>
        (s.pending.get (toHex msg.token)).map fun id => .resolve id msg).toList := by
  cases e <;> first | rfl | cases he

/-- What settles in a step is what its causes say. -/
theorem Settles.settlements (k : Settles node s e t) :
    settlements t.trace = settlements s.trace++settling node s e t := by
  cases k with
  | still k he hans =>
      have hset := settlements_of_booked (k.booked.trans (List.append_nil _).symm)
      have hnone : ((answered node s e).bind fun msg =>
          (s.pending.get (toHex msg.token)).map fun id => Out.resolve id msg) = none := by
        rw [Option.bind_eq_none_iff]
        intro msg hmsg
        rw [hans msg hmsg]
        rfl
      have hopen : ¬ (s.phase ≠ .closed ∧ t.phase = .closed) := fun hc => k.open_of_open hc.1 hc.2
      rw [hset,settling_undealt he,if_neg hopen,hnone]
      rfl
  | ended k he _ =>
      have hb := k.booked
      rw [List.append_assoc] at hb
      have hset := settlements_of_booked hb
      have hclose : Sessions.settlements [.close] = [] := rfl
      rw [settlements_append,settlements_closingRejects,hclose,List.append_nil] at hset
      rw [hset,settling_undealt he,if_pos ⟨k.opened,k.closed⟩]
  | refused he hc ht =>
      subst he ht
      rw [settling,if_pos hc]
      exact settlements_append ..
  | @filed name opts token _ he hc hr =>
      subst he
      have hstill := still_send node (Sessions.filed s name opts token) name (opts.sent token)
      have hset := settlements_of_booked (hstill.booked.trans (List.append_nil _).symm)
      rw [hr] at hset
      simp only [settling,hc,ne_eq,not_true_eq_false,if_false,hr]
      exact hset
  | thrown he hc hr _ _ _ hb =>
      subst he
      simp only [settling,hc,ne_eq,not_true_eq_false,if_false,hr]
      exact settlements_of_booked hb
  | expired hfind he ht =>
      subst he ht
      simp only [settling,hfind]
      exact settlements_append ..
  | matched hans hm he hphase _ _ _ hb =>
      have hopen : ¬ (s.phase ≠ .closed ∧ t.phase = .closed) := by
        rintro ⟨hs,ht⟩
        exact hs (hphase ▸ ht)
      rw [settlements_of_booked hb,settling_undealt he,if_neg hopen,hans,Option.bind_some,hm]
      rfl

/-- The close of a session finds the tables cleared. -/
theorem Settles.closes (h : Tabled s) (k : Settles node s e t)
    (hclose : s.trace.count .close < t.trace.count .close) :
    t.pending.entries = [] ∧ t.timers = [] := by
  have same : ∀ l, booked t.trace = booked s.trace++l → l.count .close = 0 →
      t.pending.entries = [] ∧ t.timers = [] := by
    intro l hb hl
    have := count_close_of_booked hb
    omega
  cases k with
  | still k _ _ => exact same [] (k.booked.trans (List.append_nil _).symm) rfl
  | ended k _ _ =>
      refine ⟨?_,(h.ended k).1⟩
      rw [k.pending]
      rfl
  | refused _ _ ht =>
      subst ht
      exact same _ (booked_append ..) rfl
  | @filed name opts token _ _ hc hr =>
      have hstill := still_send node (Sessions.filed s name opts token) name (opts.sent token)
      rw [hr] at hstill
      exact same [] (hstill.booked.trans (List.append_nil _).symm) rfl
  | thrown _ _ _ _ _ _ hb => exact same _ hb rfl
  | expired _ _ ht =>
      subst ht
      exact same _ (booked_append ..) rfl
  | matched _ _ _ _ _ _ _ hb => exact same _ hb rfl

/-- A message that is no ping and no response goes to the listeners. -/
theorem unmatched_message {cfg : Config} (hf : Framed s) (h : step cfg s e = some t) {ct plain : Bytes}
    {msg : CoapMessage JsNumber} (hd : delivered s e = some ct)
    (ha : aesDecrypt cfg.node s.aesKey s.ivIn ct = .ok plain) (hdec : decode plain = .ok msg)
    (hping : classify msg ≠ some .ping) (hnone : s.pending.get (toHex msg.token) = none) :
    t.trace = s.trace++[.frameIn ct,.message (classify msg) msg] := by
  obtain ⟨rfl,-⟩ := delivered_enabled cfg hd
  cases resume_cases hf h with
  | header _ _ _ hn => simp [hn] at hd
  | rejected hn => simp [hn] at hd
  | @body frame _ _ _ hframe =>
      obtain rfl : frame = ct := Option.some.inj (hframe.symm.trans hd)
      have hmatch : (if msg.token.length > 0 then (decoded s.taken frame msg).pending.get
          (toHex msg.token) else none) = none := by
        split
        · exact hnone
        · rfl
      have hh := handleFrame_handles cfg.node s.taken frame
      generalize s.taken.handleFrame cfg.node frame = r at hh
      cases hh with
      | undecryptable ha' => simp [show aesDecrypt cfg.node s.taken.aesKey s.taken.ivIn frame = _ from ha] at ha'
      | unparsable ha' hdec' =>
          obtain rfl := Except.ok.inj (ha.symm.trans ha')
          simp [hdec] at hdec'
      | ping ha' hdec' hping' =>
          obtain rfl := Except.ok.inj (ha.symm.trans ha')
          obtain rfl := Except.ok.inj (hdec.symm.trans hdec')
          exact absurd hping' hping
      | other ha' hdec' _ =>
          obtain rfl := Except.ok.inj (ha.symm.trans ha')
          obtain rfl := Except.ok.inj (hdec.symm.trans hdec')
          simp only [correlate,hmatch]
          exact List.append_assoc ..

end Causes

section Runs
variable {cfg : Config} {s t : Session} {e : Event} {es : List Event}

/-- A step anywhere in a run, before the message loop or in it. -/
theorem historic_settles (hs : Historic cfg s) (h : step cfg s e = some t) :
    Settles cfg.node s e t := by
  by_cases hf : Framed s
  · exact step_settles hf h
  · exact (early_step hs hf h).2

theorem framed_of_delivered (hs : Historic cfg s) {ct : Bytes} (hd : delivered s e = some ct) :
    Framed s := by
  obtain ⟨rfl,-⟩ := delivered_enabled cfg hd
  rcases hs.control with hi | ⟨p,hp,-⟩ | hf
  · simp [delivered,hi] at hd
  · simp [delivered,hp] at hd
  · exact hf

/-- While no two outstanding requests of a session have the same token, the tables
hold exactly the requests that have not settled, each request settles at most once
and by the first of its causes, and a close leaves nothing outstanding. -/
theorem request_lifecycle (h : Run (step cfg) {} es s) (hfresh : Throughout (step cfg) Fresh {} es) :
    Tabled s ∧ ∀ e t, step cfg s e = some t → Lives cfg.node s e t := by
  have hlaw : Always (step cfg) (fun s => Historic cfg s ∧ Tabled s) {} es := by
    apply always_of_throughout (fun _ hs => hs) _ ⟨.start cfg,.start⟩ hfresh
    rintro s e t ⟨hh,ht⟩ hf hstep
    exact ⟨historic_keeps hh hstep,ht.settles hf (historic_settles hh hstep)⟩
  obtain ⟨hh,ht⟩ := hlaw.at_end h
  refine ⟨ht,fun e t hstep => ?_⟩
  have hsettles := historic_settles hh hstep
  refine ⟨hsettles.settlements,hsettles.closes ht,?_,?_⟩
  · rintro name opts token rfl hc
    obtain rfl := Option.some.inj hstep
    exact request_unconnected hc
  · intro ct plain msg hd
    exact unmatched_message (framed_of_delivered hh hd) hstep hd

/-- Two requests, and the timer of the second expires. -/
def twoRequests : List Event :=
  plainHandshake++[.request (.named .getTime) {} 7,.request (.named .getTime) {} 8,.requestTimeout 1]

theorem request_lifecycle_plain : ∃ s, Run (step plainConfig) {} twoRequests s ∧
    (settledIds s.trace,s.pending.values,s.requests) = ([1],[0],2) ∧ Tabled s := by
  have hrun : (exec (step plainConfig) {} twoRequests).map
      (fun s => (settledIds s.trace,s.pending.values,s.requests)) = some ([1],[0],2) := by
    decide +kernel
  obtain ⟨s,hr,hs⟩ := Run.of_observation _ hrun
  exact ⟨s,hr,hs,(request_lifecycle hr (by decide +kernel)).1⟩

end Runs
end SparkProtocol.Sessions
