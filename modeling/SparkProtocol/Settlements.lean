import SparkProtocol.SessionLifecycle

/-!
# What a step does to the requests

The requests of a session live in two tables and end in its trace. Most steps
leave them still. The step that closes a session rejects all that are outstanding
and clears both tables. What is left are the four dealings with one request: it is
refused, filed, thrown out, expired or matched.
-/
namespace SparkProtocol.Sessions
open ByteStrings HostValues StreamPrograms Program Crypto Chunking Coap Messages Handshake
  ByteQueues OrderedMaps FramedStreams LabelledRuns Session

/-- Settled promises, and the `close` that settles all. -/
def Out.isBooked : Out → Bool
  | .resolve _ _ => true
  | .reject _ _ => true
  | .close => true
  | _ => false

def booked (l : List Out) : List Out := l.filter Out.isBooked

@[simp] theorem booked_append (l m : List Out) : booked (l++m) = booked l++booked m :=
  List.filter_append ..

/-- No request is touched. -/
structure Still (s t : Session) : Prop where
  pending : t.pending = s.pending
  timers : t.timers = s.timers
  requests : t.requests = s.requests
  booked : booked t.trace = booked s.trace
  open_of_open : s.phase ≠ .closed → t.phase ≠ .closed

/-- The session has just closed. -/
structure Ended (s t : Session) : Prop where
  opened : s.phase ≠ .closed
  closed : t.phase = .closed
  pending : t.pending = .empty
  timers : t.timers = s.timers.filter fun timer => timer.id ∉ s.pending.values
  requests : t.requests = s.requests
  booked : Sessions.booked t.trace = Sessions.booked s.trace++closingRejects s++[.close]

theorem Still.refl (s : Session) : Still s s := ⟨rfl,rfl,rfl,rfl,id⟩

theorem Still.trans {s t u : Session} (h : Still s t) (k : Still t u) : Still s u :=
  ⟨k.pending.trans h.pending,k.timers.trans h.timers,k.requests.trans h.requests,
    k.booked.trans h.booked,fun hs => k.open_of_open (h.open_of_open hs)⟩

theorem Still.ended {s t u : Session} (h : Still s t) (hs : s.phase ≠ .closed) (k : Ended t u) :
    Ended s u := by
  refine ⟨hs,k.closed,k.pending,?_,k.requests.trans h.requests,?_⟩
  · rw [k.timers,h.timers,h.pending]
  · rw [k.booked,h.booked,closingRejects,h.pending,← closingRejects]

theorem still_log (s : Session) {o : Out} (h : o.isBooked = false) : Still s (s.log o) :=
  ⟨rfl,rfl,rfl,by simp [log,h,booked],id⟩

theorem booked_closingRejects (s : Session) : booked (closingRejects s) = closingRejects s := by
  apply List.filter_eq_self.mpr
  intro o ho
  obtain ⟨id,-,rfl⟩ := List.mem_map.mp ho
  rfl

theorem finalize_ends {s : Session} (h : s.phase ≠ .closed) : Ended s s.finalize := by
  have hb := booked_closingRejects s
  unfold closingRejects at hb
  unfold finalize
  rw [if_neg h]
  refine ⟨h,rfl,rfl,rfl,rfl,?_⟩
  simp only [withQueue,log,booked_append,hb,closingRejects]
  rfl

theorem finalize_settles (s : Session) : Still s s.finalize ∨ Ended s s.finalize := by
  by_cases h : s.phase = .closed
  · rw [finalize_closed h]
    exact .inl (.refl s)
  · exact .inr (finalize_ends h)

theorem disconnect_settles (s : Session) : Still s s.disconnect ∨ Ended s s.disconnect := by
  by_cases h : s.phase = .closed
  · rw [disconnect_closed h]
    exact .inl (.refl s)
  · unfold disconnect
    rw [if_neg h]
    exact .inr ((still_log s rfl).ended h (finalize_ends h))

theorem Still.either {s t u : Session} (h : Still s t) (hp : t.phase = s.phase)
    (k : Still t u ∨ Ended t u) : Still s u ∨ Ended s u := by
  rcases k with k | k
  · exact .inl (h.trans k)
  · exact .inr (h.ended (hp ▸ k.opened) k)

theorem caught_settles (s : Session) (err : JsError) : Still s (s.caught err) ∨ Ended s (s.caught err) := by
  have h : Still s { s with handshakeError := some err, control := .finished } := ⟨rfl,rfl,rfl,rfl,id⟩
  unfold caught
  dsimp only
  split
  · exact .inl h
  · exact (h.trans (still_log _ rfl)).either rfl (disconnect_settles _)

theorem Sends.booked {node : Primitives} {key iv iv' : Bytes} {plain : Option Bytes}
    {l : List Out} (h : Sends node key iv plain iv' l) : booked l = [] := by
  cases h with
  | silent => rfl
  | once h => cases h <;> rfl

theorem still_sendPlain (node : Primitives) (s : Session) (plain : Bytes) :
    Still s (s.sendPlain node plain).1 := by
  obtain ⟨iv,l,hs,he⟩ := sendPlain_shape node s plain
  rw [he]
  exact ⟨rfl,rfl,rfl,by simp [(Sends.once hs).booked],id⟩

theorem still_send (node : Primitives) (s : Session) (name : MessageKey) (opts : SendOptions) :
    Still s (s.send node name opts).1 := by
  obtain ⟨c,iv,l,hs,he⟩ := send_shape node s name opts
  rw [he]
  exact ⟨rfl,rfl,rfl,by simp [hs.booked],id⟩

theorem still_effects (s : Session) (l : List (Effect Note)) : Still s (l.foldl perform s) := by
  induction l generalizing s with
  | nil => exact .refl s
  | cons x l ih =>
      have hx : Still s (s.perform x) := by
        cases x with
        | note x => exact ⟨rfl,rfl,rfl,rfl,id⟩
        | write b => exact still_log s rfl
      exact hx.trans (ih _)

theorem still_await {α : Type} (s : Session) (p : Exchange α) : Still s (s.await p) := by
  cases p <;> exact ⟨rfl,rfl,rfl,rfl,id⟩

theorem still_decrypted (s : Session) (ct : Bytes) : Still s (decrypted s ct) :=
  ⟨rfl,rfl,rfl,(still_log s (o := .frameIn ct) rfl).booked,id⟩

theorem still_decoded (s : Session) (ct : Bytes) (msg : CoapMessage JsNumber) :
    Still s (decoded s ct msg) :=
  ⟨rfl,rfl,rfl,(still_log s (o := .frameIn ct) rfl).booked,id⟩

theorem still_taken (s : Session) : Still s s.taken := ⟨rfl,rfl,rfl,rfl,id⟩

theorem endTurn_settles {s : Session} {r : Session × Except JsError Unit} (h : Still s r.1)
    (hp : r.1.phase = s.phase) : Still s (endTurn r) ∨ Ended s (endTurn r) := by
  obtain ⟨t,r⟩ := r
  cases r with
  | ok _ => exact .inl ⟨h.pending,h.timers,h.requests,h.booked,h.open_of_open⟩
  | error e => exact h.either hp (caught_settles t e)

/-- The message by which a frame could be matched to a request. -/
def response (node : Primitives) (s : Session) (ct : Bytes) : Option (CoapMessage JsNumber) :=
  match aesDecrypt node s.aesKey s.ivIn ct with
  | .error _ => none
  | .ok plain =>
      match decode plain with
      | .error _ => none
      | .ok msg => if classify msg = some .ping ∨ msg.token = [] then none else some msg

/-- The response that a step hands to `_handleFrame`, if any. -/
def answered (node : Primitives) (s : Session) (e : Event) : Option (CoapMessage JsNumber) :=
  (delivered s e).bind (response node s)

def Event.isDealing : Event → Bool
  | .request _ _ _ => true
  | .requestTimeout _ => true
  | _ => false

/-- What one step does to the requests. -/
inductive Settles (node : Primitives) (s : Session) (e : Event) (t : Session) : Prop
  | still : Still s t → e.isDealing = false →
      (∀ msg, answered node s e = some msg → s.pending.get (toHex msg.token) = none) →
      Settles node s e t
  | ended : Ended s t → e.isDealing = false → answered node s e = none → Settles node s e t
  | refused {name : MessageKey} {opts : RequestOptions} {token : UInt8} :
      e = .request name opts token → s.phase ≠ .connected →
      t = { s with requests := s.requests+1, trace := s.trace++[.reject s.requests notConnected] } →
      Settles node s e t
  | filed {name : MessageKey} {opts : RequestOptions} {token : UInt8} {messageId : ℤ} :
      e = .request name opts token → s.phase = .connected →
      (Sessions.filed s name opts token).send node name (opts.sent token) = (t,.ok messageId) →
      Settles node s e t
  | thrown {name : MessageKey} {opts : RequestOptions} {token : UInt8} {u : Session} {err : JsError} :
      e = .request name opts token → s.phase = .connected →
      (Sessions.filed s name opts token).send node name (opts.sent token) = (u,.error err) →
      t.pending = (s.pending.set (toHex [token]) s.requests).delete (toHex [token]) →
      t.timers = s.timers.filter (fun timer => timer.id ≠ s.requests) →
      t.requests = s.requests+1 → booked t.trace = booked s.trace++[.reject s.requests err] →
      Settles node s e t
  | expired {timer : RequestTimer} : (s.timers.find? fun other => other.id = timer.id) = some timer →
      e = .requestTimeout timer.id → t = s.onRequestTimeout timer → Settles node s e t
  | matched {msg : CoapMessage JsNumber} {id : ℕ} : answered node s e = some msg →
      s.pending.get (toHex msg.token) = some id → e.isDealing = false → t.phase = s.phase →
      t.pending = s.pending.delete (toHex msg.token) →
      t.timers = s.timers.filter (fun timer => timer.id ≠ id) → t.requests = s.requests →
      booked t.trace = booked s.trace++[.resolve id msg] → Settles node s e t

section Steps
variable {node : Primitives} {s : Session}

theorem Settles.of_either {e : Event} {t : Session} (h : Still s t ∨ Ended s t)
    (he : e.isDealing = false) (ha : answered node s e = none) : Settles node s e t := by
  rcases h with h | h
  · exact .still h he (by simp [ha])
  · exact .ended h he ha

theorem request_settles (name : MessageKey) (opts : RequestOptions) (token : UInt8) :
    Settles node s (.request name opts token) (s.request node name opts token) := by
  by_cases hc : s.phase = .connected
  · have hstill := still_send node (filed s name opts token) name (opts.sent token)
    rcases hr : (filed s name opts token).send node name (opts.sent token) with ⟨t,err | messageId⟩
    · rw [hr] at hstill
      rw [request_thrown hc hr]
      refine .thrown rfl hc hr ?_ ?_ hstill.requests ?_
      · exact congrArg (fun m => OrderedMap.delete m (toHex [token])) hstill.pending
      · have ht : t.timers = s.timers++[⟨s.requests,toHex [token],name,opts.timeoutMs⟩] :=
          hstill.timers
        simp [clearTimer,log,ht]
      · simp only [log,clearTimer,booked_append]
        rw [hstill.booked]
        rfl
    · rw [request_sent hc hr]
      exact .filed rfl hc hr
  · rw [request_unconnected hc]
    exact .refused rfl hc rfl

/-- A message that is no ping goes to its request, or to the listeners. -/
theorem correlate_settles {ct : Bytes} {msg : CoapMessage JsNumber}
    (hans : answered node s .resume = if msg.token = [] then none else some msg) :
    Settles node s .resume (endTurn ((decoded s.taken ct msg).correlate msg,.ok ())) := by
  have hstill := (still_taken s).trans (still_decoded _ ct msg)
  have hdone : ∀ t : Session, endTurn (t,.ok ()) = { t with control := .loop } := fun _ => rfl
  have hk := hstill.trans (still_log (decoded s.taken ct msg) (o := .message (classify msg) msg) rfl)
  rw [hdone]
  by_cases hn : msg.token = []
  · have hnone : (if msg.token.length > 0 then (decoded s.taken ct msg).pending.get
        (toHex msg.token) else none) = none := by simp [hn]
    simp only [correlate,hnone]
    exact .still ⟨hk.pending,hk.timers,hk.requests,hk.booked,hk.open_of_open⟩ rfl
      (by simp [hans,hn])
  · have hres : answered node s .resume = some msg := hans.trans (if_neg hn)
    have hpos : msg.token.length > 0 := List.length_pos_iff.mpr hn
    have hget : (decoded s.taken ct msg).pending = s.pending := rfl
    cases hm : s.pending.get (toHex msg.token) with
    | none =>
        simp only [correlate,hpos,↓reduceIte,hget,hm]
        refine .still ⟨hk.pending,hk.timers,hk.requests,hk.booked,hk.open_of_open⟩ rfl ?_
        intro other ho
        obtain rfl := Option.some.inj (hres.symm.trans ho)
        exact hm
    | some id =>
        simp only [correlate,hpos,↓reduceIte,hget,hm]
        refine .matched hres hm rfl rfl rfl rfl rfl ?_
        have hrec := hstill.booked
        simp only [log,clearTimer,booked_append]
        rw [hrec]
        rfl

/-- A frame touches the request that its response is for and no other. -/
theorem handleFrame_settles {ct : Bytes} (hd : delivered s .resume = some ct) :
    Settles node s .resume (endTurn (s.taken.handleFrame node ct)) := by
  have ht := still_taken s
  have hans : answered node s .resume = response node s.taken ct := by
    rw [answered,hd]
    rfl
  have hh := handleFrame_handles node s.taken ct
  generalize s.taken.handleFrame node ct = r at hh ⊢
  cases hh with
  | @undecryptable err ha =>
      have hin : Still s.taken ((s.taken.log (.frameIn ct)).log
          (.error { message := "AES decrypt failed: " ++ err.message })) :=
        (still_log _ rfl).trans (still_log _ rfl)
      refine .of_either ?_ rfl (by simp [hans,response,ha])
      rcases (ht.trans hin).either rfl (disconnect_settles _) with h | h
      · exact .inl ⟨h.pending,h.timers,h.requests,h.booked,h.open_of_open⟩
      · exact .inr ⟨h.opened,h.closed,h.pending,h.timers,h.requests,h.booked⟩
  | unparsable ha hdec =>
      apply Settles.of_either _ rfl (by simp [hans,response,ha,hdec])
      exact endTurn_settles ((ht.trans (still_decrypted _ ct)).trans (still_log _ rfl)) rfl
  | ping ha hdec hping =>
      apply Settles.of_either _ rfl (by simp [hans,response,ha,hdec,hping])
      obtain ⟨iv,l,-,hp⟩ := sendPlain_shape node (decoded s.taken ct _) (ackBytes _)
      exact endTurn_settles ((ht.trans (still_decoded _ ct _)).trans (still_sendPlain node _ _))
        (by rw [hp]; rfl)
  | @other plain msg ha hdec hping =>
      apply correlate_settles
      rw [hans]
      simp [response,ha,hdec,hping]

/-- Every step of the message loop, with what it does to the requests. -/
theorem step_settles {cfg : Config} {t : Session} {e : Event} (hf : Framed s)
    (h : step cfg s e = some t) : Settles cfg.node s e t := by
  cases step_cases h with
  | run hc => simp [Framed,hc] at hf
  | proceeds hc _ => simp [Framed,hc] at hf
  | @reads _ k r _ _ =>
      have hr := resume_cases hf h
      generalize s.taken.continueReading cfg.node (k r) = t at hr ⊢
      cases hr with
      | header _ _ _ hd => exact .of_either (.inl ⟨rfl,rfl,rfl,rfl,id⟩) rfl (by simp [answered,hd])
      | body _ _ hd => exact handleFrame_settles hd
      | rejected hd =>
          exact .of_either ((still_taken s).either rfl (caught_settles _ _)) rfl (by simp [answered,hd])
  | loop _ =>
      unfold loopTest
      split
      · exact .of_either (.inl ⟨rfl,rfl,rfl,rfl,id⟩) rfl rfl
      · exact .of_either (.inl ⟨rfl,rfl,rfl,rfl,id⟩) rfl rfl
  | answer a hc => simp [Framed,hc] at hf
  | data chunk => exact .of_either (.inl ⟨rfl,rfl,rfl,rfl,id⟩) rfl rfl
  | socketError err => exact .of_either ((still_log s rfl).either rfl (disconnect_settles _)) rfl rfl
  | socketClose => exact .of_either (finalize_settles s) rfl rfl
  | idleTimeout _ =>
      have hidle : Still s { s with idleTimer := false } := ⟨rfl,rfl,rfl,rfl,id⟩
      exact .of_either ((hidle.trans (still_log _ rfl)).either rfl (disconnect_settles _)) rfl rfl
  | disconnect => exact .of_either (disconnect_settles s) rfl rfl
  | send name opts => exact .of_either (.inl (still_send cfg.node s name opts)) rfl rfl
  | request name opts token => exact request_settles name opts token
  | @requestTimeout id timer hfind =>
      have hid : timer.id = id := by simpa using List.find?_some hfind
      subst hid
      exact .expired hfind rfl rfl

end Steps
end SparkProtocol.Sessions
