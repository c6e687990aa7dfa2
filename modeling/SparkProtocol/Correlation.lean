import SparkProtocol.RollingVectors
import SparkProtocol.Settlements

/-!
# Requests and responses

A request files its entry under the one byte of its token and keeps a timer; a
response takes the entry out by token, an expiring timer takes it out by token
too. What a step does to the entries, to the timers and to the promises is said
once. Beside the session stand the device, which answers each request it got at
most once and echoes its token, and the record of those answers.

The books are in order, each outstanding request holding its own entry, along
exactly the runs in which no token is drawn that an outstanding request holds,
and no late response meets a newer request with the same token.
-/
namespace SparkProtocol.Sessions
open ByteStrings HostValues StreamPrograms Program Crypto Chunking Coap Messages Handshake
  ByteQueues OrderedMaps FramedStreams LabelledRuns Session

def Out.isResolve : Out → Bool
  | .resolve _ _ => true
  | _ => false

def resolved (l : List Out) : List Out := l.filter Out.isResolve

@[simp] theorem resolved_append (l m : List Out) : resolved (l++m) = resolved l++resolved m :=
  List.filter_append ..

theorem mem_resolved {id : ℕ} {msg : CoapMessage JsNumber} {l : List Out} :
    .resolve id msg ∈ resolved l ↔ .resolve id msg ∈ l := by
  simp [resolved,Out.isResolve]

/-- Nothing changed in the books. -/
structure Kept (s t : Session) : Prop where
  pending : t.pending = s.pending
  timers : t.timers = s.timers
  requests : t.requests = s.requests
  resolved : resolved t.trace = resolved s.trace

/-- The books of a session that has just closed. -/
structure Emptied (s t : Session) : Prop where
  pending : t.pending = .empty
  timers : t.timers = s.timers.filter fun timer => timer.id ∉ s.pending.values
  requests : t.requests = s.requests
  resolved : Sessions.resolved t.trace = Sessions.resolved s.trace

theorem resolved_booked (l : List Out) : resolved (booked l) = resolved l := by
  unfold resolved booked
  rw [List.filter_filter]
  apply List.filter_congr
  intro o _
  cases o <;> rfl

/-- Two traces with the same settlements have the same resolved promises. -/
theorem resolved_of_booked {s t : Session} {l : List Out} (h : booked t.trace = booked s.trace++l) :
    resolved t.trace = resolved s.trace++resolved l := by
  rw [← resolved_booked t.trace,h,resolved_append,resolved_booked]

theorem Still.kept {s t : Session} (h : Still s t) : Kept s t := by
  refine ⟨h.pending,h.timers,h.requests,?_⟩
  simpa [resolved] using resolved_of_booked (l := []) (h.booked.trans (List.append_nil _).symm)

theorem Ended.emptied {s t : Session} (h : Ended s t) : Emptied s t := by
  have hnone : Sessions.resolved (closingRejects s++[.close]) = [] := by
    rw [resolved_append,closingRejects]
    simp [Sessions.resolved,Out.isResolve]
  refine ⟨h.pending,h.timers,h.requests,?_⟩
  have hb := h.booked
  rw [List.append_assoc] at hb
  simpa [hnone] using resolved_of_booked hb

/-- `send` returns exactly when its message encodes and fits a frame. -/
theorem send_result (node : Primitives) {s : Session} (hk : s.aesKey.length = 16)
    (hi : s.ivOut.length = 16) (name : MessageKey) (opts : SendOptions) :
    (∃ messageId, (s.send node name opts).2 = .ok messageId) ↔
      ∃ plain, composed s name opts = some plain ∧ Fits plain := by
  unfold Session.send composed
  split
  · next hn => simp [hn]
  · next spec hn =>
      obtain ⟨c,hc⟩ := allocate_shape s opts.messageId
      rw [hn,Option.bind_some]
      dsimp only
      rw [hc]
      split
      · next he => simp [he,Except.toOption]
      · next plain he =>
          have hok := @sendPlain_ok_iff node { s with sendCounter := c } hk hi plain
          rw [he]
          split
          · next heq =>
              rw [heq] at hok
              simpa [Except.toOption] using hok
          · next heq =>
              rw [heq] at hok
              simpa [Except.toOption] using hok

/-- The request that reaches the device at a step, with its token. -/
def posed (s : Session) : Event → Option (ℕ × UInt8)
  | .request name opts token =>
      match asked s name opts token with
      | some plain => if Fits plain then some (s.requests,token) else none
      | none => none
  | _ => none

/-- What one step does to the books. -/
inductive Files (node : Primitives) (s : Session) (e : Event) (t : Session) : Prop
  | kept : Kept s t → posed s e = none →
      (∀ msg, answered node s e = some msg → s.pending.get (toHex msg.token) = none) →
      Files node s e t
  | emptied : Emptied s t → posed s e = none → answered node s e = none → Files node s e t
  | refused {name : MessageKey} {opts : RequestOptions} {token : UInt8} :
      e = .request name opts token → s.phase ≠ .connected → posed s e = none →
      t.requests = s.requests+1 → t.pending = s.pending → t.timers = s.timers →
      resolved t.trace = resolved s.trace →
      Files node s e t
  | opened {name : MessageKey} {opts : RequestOptions} {token : UInt8} :
      e = .request name opts token → s.phase = .connected → posed s e = some (s.requests,token) →
      t.requests = s.requests+1 → t.pending = s.pending.set (toHex [token]) s.requests →
      t.timers = s.timers++[⟨s.requests,toHex [token],name,opts.timeoutMs⟩] →
      resolved t.trace = resolved s.trace → Files node s e t
  | failed {name : MessageKey} {opts : RequestOptions} {token : UInt8} :
      e = .request name opts token → s.phase = .connected → posed s e = none →
      t.requests = s.requests+1 →
      t.pending = (s.pending.set (toHex [token]) s.requests).delete (toHex [token]) →
      t.timers = s.timers.filter (fun timer => timer.id ≠ s.requests) →
      resolved t.trace = resolved s.trace → Files node s e t
  | expired {timer : RequestTimer} : timer ∈ s.timers → e = .requestTimeout timer.id →
      t.pending = s.pending.delete timer.key →
      t.timers = s.timers.filter (fun other => other.id ≠ timer.id) →
      t.requests = s.requests → resolved t.trace = resolved s.trace → Files node s e t
  | matched {msg : CoapMessage JsNumber} {id : ℕ} : answered node s e = some msg →
      s.pending.get (toHex msg.token) = some id → t.pending = s.pending.delete (toHex msg.token) →
      t.timers = s.timers.filter (fun timer => timer.id ≠ id) → t.requests = s.requests →
      resolved t.trace = resolved s.trace++[.resolve id msg] → Files node s e t

section Steps
variable {node : Primitives} {s : Session}

theorem posed_of_not_dealing {e : Event} (h : e.isDealing = false) : posed s e = none := by
  cases e <;> first | rfl | cases h

/-- Under a sound key the device gets exactly the requests whose send does not throw. -/
theorem posed_request (hk : s.aesKey.length = 16) (hi : s.ivOut.length = 16)
    (hc : s.phase = .connected) {name : MessageKey} {opts : RequestOptions} {token : UInt8}
    {u : Session} {r : Except JsError ℤ}
    (h : (Sessions.filed s name opts token).send node name (opts.sent token) = (u,r)) :
    posed s (.request name opts token) = r.toOption.map fun _ => (s.requests,token) := by
  have hres := @send_result node (Sessions.filed s name opts token) hk hi name (opts.sent token)
  rw [h] at hres
  simp only [posed,asked_connected hc]
  cases hplain : composed (Sessions.filed s name opts token) name (opts.sent token) with
  | none => cases r <;> simp_all [Except.toOption]
  | some plain => cases r <;> simp_all [Except.toOption]

/-- What a step does to the books follows from what it does to the requests. -/
theorem Settles.files {e : Event} {t : Session} (hk : s.aesKey.length = 16)
    (hi : s.ivOut.length = 16) (h : Settles node s e t) : Files node s e t := by
  cases h with
  | still hs he hans => exact .kept hs.kept (posed_of_not_dealing he) hans
  | ended hs he hans => exact .emptied hs.emptied (posed_of_not_dealing he) hans
  | refused he hc ht =>
      subst he ht
      exact .refused rfl hc (by simp [posed,asked_unconnected hc]) rfl rfl rfl
        (by simp [resolved,Out.isResolve])
  | @filed name opts token messageId he hc hr =>
      subst he
      have hkept := (still_send node (Sessions.filed s name opts token) name (opts.sent token)).kept
      have hp := posed_request hk hi hc hr
      rw [hr] at hkept
      exact .opened rfl hc hp hkept.requests hkept.pending hkept.timers hkept.resolved
  | @thrown name opts token u err he hc hr hpend htimers hreq hb =>
      subst he
      have hp := posed_request hk hi hc hr
      have hnone : resolved [Out.reject s.requests err] = [] := rfl
      exact .failed rfl hc hp hreq hpend htimers
        (by rw [resolved_of_booked hb,hnone,List.append_nil])
  | @expired timer hfind he ht =>
      subst he ht
      exact .expired (List.mem_of_find?_eq_some hfind) rfl rfl rfl rfl
        (by simp [onRequestTimeout,clearTimer,log,resolved,Out.isResolve])
  | matched hans hm _ _ hpend htimers hreq hb =>
      exact .matched hans hm hpend htimers hreq (resolved_of_booked hb)

/-- Every step of the message loop, with what it does to the books. -/
theorem step_files {cfg : Config} {t : Session} {e : Event} (hf : Framed s)
    (hk : s.aesKey.length = 16) (hi : s.ivOut.length = 16) (h : step cfg s e = some t) :
    Files cfg.node s e t :=
  (step_settles hf h).files hk hi

end Steps

/-- The books in order: who holds which entry and which timer, given the requests
that reached the device and those it has answered. -/
structure Filed (pending : OrderedMap String ℕ) (timers : List RequestTimer) (requests : ℕ)
    (posed : List (ℕ × UInt8)) (replied : List ℕ) : Prop where
  own : ∀ timer ∈ timers, pending.get timer.key = some timer.id
  entries : ∀ k id, pending.get k = some id → ∃ timer ∈ timers, timer.id = id ∧ timer.key = k
  live : ∀ timer ∈ timers, timer.id < requests ∧ timer.id ∉ replied ∧
    ∃ token, (timer.id,token) ∈ posed ∧ timer.key = toHex [token]
  once : ∀ id a b, (id,a) ∈ posed → (id,b) ∈ posed → a = b
  known : ∀ p ∈ posed, p.1 < requests
  past : ∀ id ∈ replied, id < requests

namespace Filed
variable {pending : OrderedMap String ℕ} {timers : List RequestTimer} {requests : ℕ}
  {posed : List (ℕ × UInt8)} {replied : List ℕ}

theorem start : Filed .empty [] requests [] [] :=
  ⟨by simp,by simp,by simp,by simp,by simp,by simp⟩

theorem key_ne (h : Filed pending timers requests posed replied) {a b : RequestTimer}
    (ha : a ∈ timers) (hb : b ∈ timers) (hne : a.id ≠ b.id) : a.key ≠ b.key := by
  intro hk
  have hown := h.own a ha
  rw [hk,h.own b hb] at hown
  exact hne (Option.some.inj hown).symm

theorem later (h : Filed pending timers requests posed replied) :
    Filed pending timers (requests+1) posed replied := by
  refine ⟨h.own,h.entries,?_,h.once,fun p hp => Nat.lt_succ_of_lt (h.known p hp),
    fun id hid => Nat.lt_succ_of_lt (h.past id hid)⟩
  intro timer ht
  obtain ⟨hlt,hr,hp⟩ := h.live timer ht
  exact ⟨Nat.lt_succ_of_lt hlt,hr,hp⟩

/-- Closing clears every timer, since each one has its entry. -/
theorem emptied (h : Filed pending timers requests posed replied) :
    Filed .empty (timers.filter fun timer => timer.id ∉ pending.values) requests posed replied := by
  have hnil : timers.filter (fun timer => timer.id ∉ pending.values) = [] := by
    apply List.filter_eq_nil_iff.mpr
    intro timer ht
    simpa using OrderedMap.mem_values_of_get (h.own timer ht)
  rw [hnil]
  exact ⟨by simp,by simp,by simp,h.once,h.known,h.past⟩

theorem opened (h : Filed pending timers requests posed replied) {token : UInt8} (name : MessageKey)
    (timeoutMs : ℕ) (hfresh : ∀ timer ∈ timers, timer.key ≠ toHex [token]) :
    Filed (pending.set (toHex [token]) requests)
      (timers++[⟨requests,toHex [token],name,timeoutMs⟩]) (requests+1)
      (posed++[(requests,token)]) replied := by
  refine ⟨?_,?_,?_,?_,?_,h.later.past⟩
  · intro timer ht
    rcases List.mem_append.mp ht with ht | ht
    · rw [OrderedMap.get_set_ne _ _ (hfresh timer ht)]
      exact h.own timer ht
    · obtain rfl := List.mem_singleton.mp ht
      exact OrderedMap.get_set_self ..
  · intro k id hk
    by_cases hkey : k = toHex [token]
    · rw [hkey,OrderedMap.get_set_self] at hk
      exact ⟨_,List.mem_append_right _ List.mem_cons_self,Option.some.inj hk,hkey.symm⟩
    · rw [OrderedMap.get_set_ne _ _ hkey] at hk
      obtain ⟨timer,ht,hid⟩ := h.entries k id hk
      exact ⟨timer,List.mem_append_left _ ht,hid⟩
  · intro timer ht
    rcases List.mem_append.mp ht with ht | ht
    · obtain ⟨hlt,hn,t,hp,hk⟩ := h.live timer ht
      exact ⟨Nat.lt_succ_of_lt hlt,hn,t,List.mem_append_left _ hp,hk⟩
    · obtain rfl := List.mem_singleton.mp ht
      exact ⟨Nat.lt_succ_self _,fun hr => Nat.lt_irrefl _ (h.past _ hr),token,
        List.mem_append_right _ List.mem_cons_self,rfl⟩
  · intro id a b ha hb
    simp only [List.mem_append,List.mem_singleton,Prod.mk.injEq] at ha hb
    rcases ha with ha | ⟨rfl,rfl⟩ <;> rcases hb with hb | ⟨hid,rfl⟩
    · exact h.once id a b ha hb
    · exact absurd (h.known _ ha) (by simp [hid])
    · exact absurd (h.known _ hb) (by simp)
    · rfl
  · intro p hp
    rcases List.mem_append.mp hp with hp | hp
    · exact Nat.lt_succ_of_lt (h.known p hp)
    · obtain rfl := List.mem_singleton.mp hp
      exact Nat.lt_succ_self _

/-- A request that was not sent leaves no trace behind. -/
theorem failed (h : Filed pending timers requests posed replied) {token : UInt8}
    (hfresh : ∀ timer ∈ timers, timer.key ≠ toHex [token]) :
    Filed ((pending.set (toHex [token]) requests).delete (toHex [token]))
      (timers.filter fun timer => timer.id ≠ requests) (requests+1) posed replied := by
  have hall : timers.filter (fun timer => timer.id ≠ requests) = timers := by
    apply List.filter_eq_self.mpr
    intro timer ht
    simpa using Nat.ne_of_lt (h.live timer ht).1
  have hget : ∀ k, k ≠ toHex [token] →
      ((pending.set (toHex [token]) requests).delete (toHex [token])).get k = pending.get k := by
    intro k hk
    rw [OrderedMap.get_delete_ne _ hk,OrderedMap.get_set_ne _ _ hk]
  rw [hall]
  refine ⟨?_,?_,h.later.live,h.once,h.later.known,h.later.past⟩
  · intro timer ht
    rw [hget _ (hfresh timer ht)]
    exact h.own timer ht
  · intro k id hk
    by_cases hkey : k = toHex [token]
    · rw [hkey,OrderedMap.get_delete_self] at hk
      cases hk
    · exact h.entries k id (hget k hkey ▸ hk)

/-- A request leaves the books with its entry and its timer. -/
theorem removed (h : Filed pending timers requests posed replied) {timer : RequestTimer}
    (ht : timer ∈ timers) :
    Filed (pending.delete timer.key) (timers.filter fun other => other.id ≠ timer.id) requests posed
      replied := by
  have hsub : ∀ other ∈ timers.filter (fun other => other.id ≠ timer.id),
      other ∈ timers ∧ other.id ≠ timer.id := by
    intro other ho
    simpa using ho
  refine ⟨?_,?_,fun other ho => h.live other (hsub other ho).1,h.once,h.known,h.past⟩
  · intro other ho
    obtain ⟨hm,hne⟩ := hsub other ho
    rw [OrderedMap.get_delete_ne _ (h.key_ne hm ht hne)]
    exact h.own other hm
  · intro k id hk
    have hkey : k ≠ timer.key := by
      rintro rfl
      simp at hk
    rw [OrderedMap.get_delete_ne _ hkey] at hk
    obtain ⟨other,ho,hid,hok⟩ := h.entries k id hk
    refine ⟨other,List.mem_filter.mpr ⟨ho,?_⟩,hid,hok⟩
    have hne : other.id ≠ timer.id := by
      intro heq
      have hown := h.own timer ht
      obtain ⟨_,_,a,ha,hka⟩ := h.live other ho
      obtain ⟨_,_,b,hb,hkb⟩ := h.live timer ht
      rw [heq] at ha
      rw [h.once _ a b ha hb] at hka
      exact hkey (hok ▸ hka.trans hkb.symm)
    simpa using hne

/-- The device answers a request that is no longer outstanding. -/
theorem answered (h : Filed pending timers requests posed replied) {id : ℕ}
    (hn : ∀ timer ∈ timers, timer.id ≠ id) (hid : id < requests) :
    Filed pending timers requests posed (replied++[id]) := by
  refine ⟨h.own,h.entries,?_,h.once,h.known,by simpa [or_imp,forall_and,hid] using h.past⟩
  intro timer ht
  obtain ⟨hlt,hr,hp⟩ := h.live timer ht
  refine ⟨hlt,?_,hp⟩
  simp only [List.mem_append,List.mem_singleton,not_or]
  exact ⟨hr,hn timer ht⟩

end Filed

end SparkProtocol.Sessions
