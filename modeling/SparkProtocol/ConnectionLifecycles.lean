import SparkProtocol.Gateway

/-!
# The life of a connection

To its caller a connection is a machine with four states. It is opening; then it
has failed, or its device is present; a device that is present goes. Each state
has exactly one history of events and registry calls, and the laws of the
lifecycle events are read off these histories. A step of the gateway takes the
machine of a connection at most one transition further, unless a handshake
resolves on a session that has closed. Such a step reopens a session which the
gateway has given up, so the laws hold along exactly those runs that have none.
-/
namespace SparkProtocol.Gateways
open HostValues StreamPrograms Handshake OrderedMaps FramedStreams LabelledRuns Sessions Session Gateway

/-- The connection that it is about. -/
def GatewayOut.index : GatewayOut → ℕ
  | .connection i => i
  | .register i _ => i
  | .session i => i
  | .unregister i _ => i
  | .handshakeFailed i _ _ _ _ => i
  | .sessionDisconnected i _ _ => i

/-- The events and registry calls of one connection, in order. -/
def said (g : Gateway) (i : ℕ) : List GatewayOut := g.trace.filter fun o => o.index = i

/-- The two events that end a connection. -/
def GatewayOut.isTerminal : GatewayOut → Bool
  | .handshakeFailed .. => true
  | .sessionDisconnected .. => true
  | _ => false

/-- What a caller may rely on for one connection. -/
structure Lifecycle (g : Gateway) (i : ℕ) (c : Connection) : Prop where
  once : (said g i).countP GatewayOut.isTerminal ≤ 1
  failed : ∀ l m coreId stage result error,
    said g i = l++.handshakeFailed i coreId stage result error::m → .session i ∉ m
  disconnected : ∀ l m coreId reason,
    said g i = l++.sessionDisconnected i coreId reason::m → .session i ∈ l
  unregistered : c.session.phase = .closed → c.session.control = .finished →
    ∀ l m coreId, said g i = l++.register i coreId::m →
      ∃ id, coreId = some id ∧ .unregister i id ∈ m
  member : i ∈ g.sessions ↔ c.session.phase ≠ .closed

/-- Every connection is lawful, and `sessionCount` counts the open ones. -/
structure Lawful (g : Gateway) : Prop where
  lifecycle : ∀ (i : ℕ) (c : Connection), g.connections[i]? = some c → Lifecycle g i c
  count : g.sessionCount = g.connections.countP fun c => c.session.phase ≠ .closed

/-- A handshake resolves on a session that has closed. -/
inductive Late (g : Gateway) : GatewayEvent → Prop
  | resolves {i : ℕ} {e : Event} {c : Connection} : g.connections[i]? = some c →
      c.session.phase = .closed → Completes c.session e → Late g (.session i e)

/-- The machine, with the data that its history shows. -/
inductive Life where
  | opening
  | failed (coreId : Option String) (stage : Option Stage) (result : HandshakeFailure)
      (error : Option JsError)
  | present (coreId : String)
  | gone (coreId : String) (reason : DisconnectReason)

namespace Life

def history (i : ℕ) : Life → List GatewayOut
  | .opening => [.connection i]
  | .failed coreId stage result error =>
      [.connection i,.handshakeFailed i coreId stage result error]
  | .present coreId => [.connection i,.register i (some coreId),.session i]
  | .gone coreId reason =>
      [.connection i,.register i (some coreId),.session i,.unregister i coreId,
        .sessionDisconnected i coreId reason]

def isOpen : Life → Bool
  | .opening => true
  | .present _ => true
  | _ => false

/-- The device that has been registered. -/
def coreId : Life → Option String
  | .present id => some id
  | .gone id _ => some id
  | _ => none

inductive Next : Life → Life → Prop
  | fail (coreId : Option String) (stage : Option Stage) (result : HandshakeFailure)
      (error : Option JsError) : Next .opening (.failed coreId stage result error)
  | greet (coreId : String) : Next .opening (.present coreId)
  | leave (coreId : String) (reason : DisconnectReason) :
      Next (.present coreId) (.gone coreId reason)

theorem history_once (k : Life) (i : ℕ) : (k.history i).countP GatewayOut.isTerminal ≤ 1 := by
  cases k <;> simp [history,GatewayOut.isTerminal]

theorem history_failed (k : Life) {i : ℕ} {l m : List GatewayOut} {coreId : Option String}
    {stage : Option Stage} {result : HandshakeFailure} {error : Option JsError}
    (h : k.history i = l++.handshakeFailed i coreId stage result error::m) : .session i ∉ m := by
  cases k with
  | failed id s r err =>
      obtain ⟨-,-,rfl⟩ : l = [.connection i] ∧
          (coreId = id ∧ stage = s ∧ result = r ∧ error = err) ∧ m = [] := by
        simpa [history,List.cons_eq_append_iff] using h
      simp
  | _ => simp [history,List.cons_eq_append_iff] at h

theorem history_disconnected (k : Life) {i : ℕ} {l m : List GatewayOut} {coreId : String}
    {reason : DisconnectReason}
    (h : k.history i = l++.sessionDisconnected i coreId reason::m) : .session i ∈ l := by
  cases k with
  | gone id r =>
      obtain ⟨rfl,-,-⟩ : l = [.connection i,.register i (some id),.session i,.unregister i id] ∧
          (coreId = id ∧ reason = r) ∧ m = [] := by
        simpa [history,List.cons_eq_append_iff] using h
      simp
  | _ => simp [history,List.cons_eq_append_iff] at h

theorem history_unregistered {k : Life} (hk : k.isOpen = false) {i : ℕ} {l m : List GatewayOut}
    {coreId : Option String} (h : k.history i = l++.register i coreId::m) :
    ∃ id, coreId = some id ∧ .unregister i id ∈ m := by
  cases k with
  | gone id r =>
      obtain ⟨-,hid,rfl⟩ : l = [.connection i] ∧ coreId = some id ∧
          m = [.session i,.unregister i id,.sessionDisconnected i id r] := by
        simpa [history,List.cons_eq_append_iff] using h
      exact ⟨id,hid,by simp⟩
  | failed id s r err => simp [history,List.cons_eq_append_iff] at h
  | _ => cases hk

end Life

/-- Connection `i` is where the machine is. -/
structure Follows (g : Gateway) (i : ℕ) (c : Connection) (k : Life) : Prop where
  history : said g i = k.history i
  coreId : c.session.coreId = k.coreId
  isOpen : c.session.phase ≠ .closed ↔ k.isOpen = true
  ended : Ended c.session ↔ k.isOpen = false

theorem truthy_some {id : String} (h : id ≠ "") : truthy (some id) = some id := by
  simp [truthy,Option.filter,h]

theorem said_append {g g' : Gateway} {l : List GatewayOut} (h : g'.trace = g.trace++l) (i : ℕ) :
    said g' i = said g i++l.filter fun o => o.index = i := by
  rw [said,h,List.filter_append]
  rfl

theorem said_own {g g' : Gateway} {l : List GatewayOut} (h : g'.trace = g.trace++l) {i : ℕ}
    (hl : ∀ o ∈ l, o.index = i) : said g' i = said g i++l ∧ ∀ j ≠ i, said g' j = said g j := by
  constructor
  · rw [said_append h,List.filter_eq_self.mpr (by simpa using hl)]
  · intro j hj
    rw [said_append h,List.filter_eq_nil_iff.mpr,List.append_nil]
    intro o ho hij
    exact hj ((of_decide_eq_true hij).symm.trans (hl o ho))

/-- What a step of connection `i` leaves: its machine is where it was or one
transition further, and the set of sessions follows the machine. -/
structure Advances (opts : Options) (g : Gateway) (i : ℕ) (k : Life) (t : Session) (c' : Connection)
    (k' : Life) (g' : Gateway) : Prop where
  attended : Attended opts c'
  session : c'.session = t
  connections : g'.connections = g.connections.set i c'
  follows : Follows g' i c' k'
  next : k' = k ∨ k.Next k'
  trace : ∃ l, g'.trace = g.trace++l ∧ ∀ o ∈ l, o.index = i
  sessions : (g'.sessions = g.sessions ∧ k'.isOpen = k.isOpen) ∨
    (g'.sessions = g.sessions.erase i ∧ k'.isOpen = false)

section Stepping
variable {opts : Options} {g : Gateway} {i : ℕ} {c : Connection} {t : Session} {e : Event} {k : Life}

theorem Follows.greeted (hk : Follows g i c k) (ha : Attended opts c) :
    Greeted c.session ↔ ∃ id, k.coreId = some id := by
  rw [ha.named,hk.coreId]

/-- What the gateway says when the session closes is what the machine adds. -/
theorem closing_adds (ha : Attended opts c) (hk : Follows g i c k) (hopen : k.isOpen = true)
    (hid : t.coreId = c.session.coreId) :
    ∃ k' l, k.Next k' ∧ k'.isOpen = false ∧ k'.coreId = k.coreId ∧ k'.history i = k.history i++l ∧
      (∀ o ∈ l, o.index = i) ∧
      l = ((truthy c.session.coreId).map (.unregister i)).toList++
        (closeReport i { c with session := t }).toList := by
  have hgreeted := hk.greeted ha
  have hcore := hk.coreId
  cases k with
  | opening =>
      have hoff : c.handshakeSucceeded = false := by
        rw [Bool.eq_false_iff,ne_eq,ha.handshakeSucceeded,hgreeted]
        simp [Life.coreId]
      refine ⟨_,_,.fail t.progress.coreId t.progress.stage
        (handshakeFailureReason t.handshakeError t.progress.stage) t.handshakeError,rfl,rfl,rfl,?_,?_⟩
      · simp [GatewayOut.index]
      · simp [closeReport,hoff,hcore,Life.coreId,truthy]
  | present id =>
      have hon : c.handshakeSucceeded = true := ha.handshakeSucceeded.mpr (hgreeted.mpr ⟨id,rfl⟩)
      have hne : id ≠ "" := ha.history.named id hcore
      refine ⟨_,_,.leave id (disconnectReason t.handshakeError),rfl,rfl,rfl,?_,?_⟩
      · simp [GatewayOut.index]
      · simp [closeReport,hon,hid,hcore,Life.coreId,truthy_some hne]
  | failed => cases hopen
  | gone => cases hopen

/-- A step of a session on which no late handshake resolves. -/
theorem deliver_advances (ha : Attended opts c) (hc : g.connections[i]? = some c)
    (h : step (opts.config c.draws) c.session e = some t) (hlate : ¬ Late g (.session i e))
    (hk : Follows g i c k) : ∃ c' k', Advances opts g i k t c' k' (g.deliver i c t) := by
  have hd := deliver_cases ha hc h
  generalize g.deliver i c t = g' at hd
  cases hd with
  | silent hm =>
      refine ⟨_,k,ha.quiet h hm.events hm.coreId fun hp => hm.phase ▸ hp,rfl,rfl,?_,.inl rfl,
        ⟨[],(List.append_nil _).symm,by simp⟩,.inl ⟨rfl,rfl⟩⟩
      exact ⟨hk.history,hm.coreId.trans hk.coreId,by rw [hm.phase]; exact hk.isOpen,
        (ended_congr hm.events).trans hk.ended⟩
  | again hm hend =>
      have hclosed := hk.ended.mp hend
      rw [hk.isOpen.mp hm.wasOpen] at hclosed
      cases hclosed
  | closing hm hend =>
      have hopen : k.isOpen = true := by simpa using mt hk.ended.mpr hend
      obtain ⟨k',l,hnext,hoff,hid,hhist,hl,hnew⟩ := closing_adds ha hk hopen hm.coreId
      rw [List.append_assoc,← hnew]
      refine ⟨_,k',ha.closing h hm,rfl,rfl,?_,.inr hnext,⟨l,rfl,hl⟩,.inr ⟨rfl,hoff⟩⟩
      refine ⟨?_,?_,?_,?_⟩
      · rw [(said_own rfl hl).1,hhist,hk.history]
      · rw [hid]
        exact hm.coreId.trans hk.coreId
      · simp [hm.phase,hoff]
      · simp [closing_ended hm,hoff]
  | @opening p r hcont hdone hm hnew =>
      have hopen : c.session.phase ≠ .closed := fun hp => hlate (.resolves hc hp ⟨p,r,hcont,hdone⟩)
      have hk0 : k = .opening := by
        have hg := mt (hk.greeted ha).mpr hnew
        have ho := hk.isOpen.mp hopen
        cases k with
        | opening => rfl
        | present id => exact absurd ⟨id,rfl⟩ hg
        | failed => cases ho
        | gone => cases ho
      subst hk0
      have hl : ∀ o ∈ [GatewayOut.register i (some r.coreId),.session i], o.index = i := by
        simp [GatewayOut.index]
      refine ⟨_,.present r.coreId,ha.opening h hm,rfl,rfl,?_,.inr (.greet _),⟨_,rfl,hl⟩,
        .inl ⟨rfl,rfl⟩⟩
      refine ⟨?_,hm.coreId,?_,?_⟩
      · rw [(said_own rfl hl).1,hk.history]
        rfl
      · simp [hm.phase,Life.isOpen]
      · rw [establishing_ended hm,hk.ended]
        rfl

end Stepping

/-- What the gateway keeps while no late handshake resolves. -/
structure Running (opts : Options) (g : Gateway) : Prop where
  attended : ∀ (i : ℕ) (c : Connection), g.connections[i]? = some c → Attended opts c
  follows : ∀ (i : ℕ) (c : Connection), g.connections[i]? = some c → ∃ k, Follows g i c k
  members : ∀ i, i ∈ g.sessions ↔ ∃ c, g.connections[i]? = some c ∧ c.session.phase ≠ .closed
  nodup : g.sessions.Nodup
  known : ∀ o ∈ g.trace, o.index < g.connections.length

theorem Follows.congr {g g' : Gateway} {i : ℕ} {c : Connection} {k : Life} (h : Follows g i c k)
    (hs : said g' i = said g i) : Follows g' i c k :=
  ⟨hs.trans h.history,h.coreId,h.isOpen,h.ended⟩

section Keeping
variable {opts : Options} {g g' : Gateway} {i : ℕ} {c : Connection}

section Advance
variable {t : Session} {k k' : Life} {c' : Connection}

theorem Advances.at_self (hadv : Advances opts g i k t c' k' g') (hc : g.connections[i]? = some c) :
    g'.connections[i]? = some c' := by
  rw [hadv.connections,getElem?_set_at hc]

theorem Advances.at_other (hadv : Advances opts g i k t c' k' g') {j : ℕ} (hj : j ≠ i) :
    g'.connections[j]? = g.connections[j]? := by
  rw [hadv.connections,List.getElem?_set_ne (Ne.symm hj)]

/-- The session is in the set exactly while its machine is open. -/
theorem Advances.mem_self (hadv : Advances opts g i k t c' k' g') (h : Running opts g)
    (hc : g.connections[i]? = some c) (hk : Follows g i c k) :
    i ∈ g'.sessions ↔ c'.session.phase ≠ .closed := by
  rw [hadv.follows.isOpen]
  rcases hadv.sessions with ⟨hs,ho⟩ | ⟨hs,ho⟩
  · rw [hs,ho,h.members i]
    constructor
    · rintro ⟨d,hd,hp⟩
      obtain rfl := Option.some.inj (hc.symm.trans hd)
      exact hk.isOpen.mp hp
    · exact fun hko => ⟨c,hc,hk.isOpen.mpr hko⟩
  · rw [hs,ho]
    simp [h.nodup.mem_erase_iff]

theorem Advances.mem_other (hadv : Advances opts g i k t c' k' g') {j : ℕ} (hj : j ≠ i) :
    j ∈ g'.sessions ↔ j ∈ g.sessions := by
  rcases hadv.sessions with ⟨hs,-⟩ | ⟨hs,-⟩
  · rw [hs]
  · rw [hs,List.mem_erase_of_ne hj]

theorem Advances.nodup (hadv : Advances opts g i k t c' k' g') (h : g.sessions.Nodup) :
    g'.sessions.Nodup := by
  rcases hadv.sessions with ⟨hs,-⟩ | ⟨hs,-⟩
  · exact hs ▸ h
  · exact hs ▸ h.erase i

end Advance

/-- Every event is about a connection of the gateway. -/
theorem known_set {l : List GatewayOut} {c' : Connection}
    (h : ∀ o ∈ g.trace, o.index < g.connections.length) (hc : g.connections[i]? = some c)
    (hg : g'.connections = g.connections.set i c') (htrace : g'.trace = g.trace++l)
    (hl : ∀ o ∈ l, o.index = i) : ∀ o ∈ g'.trace, o.index < g'.connections.length := by
  intro o ho
  rw [hg,List.length_set]
  rw [htrace] at ho
  rcases List.mem_append.mp ho with ho | ho
  · exact h o ho
  · rw [hl o ho]
    exact (List.getElem?_eq_some_iff.mp hc).choose

theorem known_accept (draws : Draws) (h : ∀ o ∈ g.trace, o.index < g.connections.length) :
    ∀ o ∈ (g.accept opts draws).trace, o.index < (g.accept opts draws).connections.length := by
  intro o ho
  have hlen : (g.accept opts draws).connections.length = g.connections.length+1 :=
    List.length_append
  have htrace : (g.accept opts draws).trace = g.trace++[.connection g.connections.length] := rfl
  rw [hlen]
  rw [htrace] at ho
  rcases List.mem_append.mp ho with ho | ho
  · exact Nat.lt_succ_of_lt (h o ho)
  · rw [List.mem_singleton.mp ho]
    exact Nat.lt_succ_self _

theorem deliver_running {t : Session} {e : Event} (h : Running opts g)
    (hc : g.connections[i]? = some c) (ht : step (opts.config c.draws) c.session e = some t)
    (hlate : ¬ Late g (.session i e)) : Running opts (g.deliver i c t) := by
  obtain ⟨k,hk⟩ := h.follows i c hc
  obtain ⟨c',k',hadv⟩ := deliver_advances (h.attended i c hc) hc ht hlate hk
  generalize g.deliver i c t = g' at hadv
  obtain ⟨l,htrace,hl⟩ := hadv.trace
  refine ⟨each_set h.attended hadv.attended hadv.connections,?_,?_,hadv.nodup h.nodup,
    known_set h.known hc hadv.connections htrace hl⟩
  · intro j d hd
    rcases open_set hadv.connections hd with ⟨rfl,rfl⟩ | ⟨hj,hd'⟩
    · exact ⟨k',hadv.follows⟩
    · obtain ⟨kj,hkj⟩ := h.follows j d hd'
      exact ⟨kj,hkj.congr ((said_own htrace hl).2 j hj)⟩
  · intro j
    by_cases hj : j = i
    · subst hj
      rw [hadv.mem_self h hc hk]
      constructor
      · exact fun hp => ⟨c',hadv.at_self hc,hp⟩
      · rintro ⟨d,hd,hp⟩
        obtain rfl := Option.some.inj ((hadv.at_self hc).symm.trans hd)
        exact hp
    · rw [hadv.at_other hj,← h.members j]
      exact hadv.mem_other hj

theorem accept_running (draws : Draws) (h : Running opts g) : Running opts (g.accept opts draws) := by
  have hnew := accepted_attended opts draws
  have hm := run_starting (opts.config draws) (s := {}) rfl
  have hend : ¬ Ended (({} : Session).run (opts.config draws)) := hnew.onceClose.mp rfl
  have htrace : (g.accept opts draws).trace = g.trace++[.connection g.connections.length] := rfl
  have hsaid := said_own htrace (i := g.connections.length) (by simp [GatewayOut.index])
  have hnone : said g g.connections.length = [] := by
    refine List.filter_eq_nil_iff.mpr fun o ho hi => ?_
    have hlt := h.known o ho
    rw [of_decide_eq_true hi] at hlt
    exact Nat.lt_irrefl _ hlt
  have hlast : (g.accept opts draws).connections[g.connections.length]? =
      some { draws, session := ({} : Session).run (opts.config draws) } := List.getElem?_concat_length
  have hold : ∀ (j : ℕ) (d : Connection), g.connections[j]? = some d →
      (g.accept opts draws).connections[j]? = some d := by
    intro j d hd
    exact getElem?_concat_some hd _
  refine ⟨each_concat h.attended hnew rfl,?_,?_,?_,known_accept draws h.known⟩
  · intro j d hd
    rcases accept_connections opts g draws hd with hd | ⟨rfl,rfl⟩
    · obtain ⟨k,hk⟩ := h.follows j d hd
      exact ⟨k,hk.congr (hsaid.2 j (List.getElem?_eq_some_iff.mp hd).choose.ne)⟩
    · refine ⟨.opening,?_,hm.coreId,?_,?_⟩
      · rw [hsaid.1,hnone]
        rfl
      · simp [hm.phase,Life.isOpen]
      · simp [hend,Life.isOpen]
  · intro j
    have hs : (g.accept opts draws).sessions = g.sessions++[g.connections.length] := rfl
    rw [hs,List.mem_append,List.mem_singleton,h.members j]
    constructor
    · rintro (⟨d,hd,hp⟩ | rfl)
      · exact ⟨d,hold j d hd,hp⟩
      · exact ⟨_,hlast,by simp [hm.phase]⟩
    · rintro ⟨d,hd,hp⟩
      rcases accept_connections opts g draws hd with hd | ⟨hj,-⟩
      · exact .inl ⟨d,hd,hp⟩
      · exact .inr hj
  · refine List.nodup_append.mpr ⟨h.nodup,List.nodup_singleton _,?_⟩
    intro j hj n hn
    obtain ⟨d,hd,-⟩ := (h.members j).mp hj
    rw [List.mem_singleton.mp hn]
    exact (List.getElem?_eq_some_iff.mp hd).choose.ne

/-- A call from outside resolves no handshake. -/
theorem disconnect_not_late : ¬ Late g (.session i .disconnect) := by
  rintro ⟨-,-,p,r,hp,-⟩
  cases hp

theorem disconnectAt_running (h : Running opts g) (i : ℕ) : Running opts (g.disconnectAt i) := by
  unfold disconnectAt
  split
  · next c hc => exact deliver_running h hc rfl disconnect_not_late
  · exact h

theorem disconnectAt_sessions (h : Running opts g) (i : ℕ) :
    ∀ j ∈ (g.disconnectAt i).sessions, j ∈ g.sessions ∧ j ≠ i := by
  intro j hj
  have hrun := disconnectAt_running h i
  obtain ⟨d,hd,hp⟩ := (hrun.members j).mp hj
  unfold disconnectAt at hd
  split at hd
  · next c hc =>
      obtain ⟨c',-,hs,hg,-,-⟩ := deliver_shape (h.attended i c hc) hc
        (show step (opts.config c.draws) c.session .disconnect = some _ from rfl)
      rcases open_set hg hd with ⟨-,rfl⟩ | ⟨hji,hd'⟩
      · exact absurd (hs ▸ disconnect_phase c.session) hp
      · exact ⟨(h.members j).mpr ⟨d,hd',hp⟩,hji⟩
  · next hnone =>
      refine ⟨(h.members j).mpr ⟨d,hd,hp⟩,?_⟩
      rintro rfl
      simp [hnone] at hd

/-- Every listed session is disconnected, and with it gone from the set. -/
theorem foldl_disconnectAt (l : List ℕ) (h : Running opts g) :
    Running opts (l.foldl disconnectAt g) ∧
      ∀ j ∈ (l.foldl disconnectAt g).sessions, j ∈ g.sessions ∧ j ∉ l := by
  induction l generalizing g with
  | nil => exact ⟨h,fun j hj => ⟨hj,List.not_mem_nil⟩⟩
  | cons i l ih =>
      obtain ⟨hrun,hmem⟩ := ih (disconnectAt_running h i)
      refine ⟨hrun,fun j hj => ?_⟩
      obtain ⟨hj,hjl⟩ := hmem j hj
      obtain ⟨hj,hji⟩ := disconnectAt_sessions h i j hj
      exact ⟨hj,List.not_mem_cons_of_ne_of_not_mem hji hjl⟩

/-- `clear()` finds the set empty. -/
theorem stop_running (h : Running opts g) : Running opts g.stop := by
  unfold stop
  split
  · obtain ⟨hrun,hmem⟩ := foldl_disconnectAt g.sessions h
    have hnil : (g.sessions.foldl disconnectAt g).sessions = [] := by
      refine List.eq_nil_iff_forall_not_mem.mpr fun j hj => ?_
      exact (hmem j hj).2 (hmem j hj).1
    rw [← hnil]
    exact hrun
  · exact h

theorem running_keeps {e : GatewayEvent} (h : Running opts g) (hlate : ¬ Late g e)
    (he : gatewayStep opts g e = some g') : Running opts g' := by
  cases gatewayStep_cases he with
  | start =>
      refine ⟨h.attended,fun j d hd => ?_,h.members,h.nodup,h.known⟩
      obtain ⟨k,hk⟩ := h.follows j d hd
      exact ⟨k,hk.congr rfl⟩
  | accept draws _ => exact accept_running draws h
  | session hc ht => exact deliver_running h hc ht hlate
  | stop => exact stop_running h

/-- A set without repetitions that holds the open sessions has their number. -/
theorem Running.count (h : Running opts g) :
    g.sessionCount = g.connections.countP fun c => c.session.phase ≠ .closed := by
  have hperm : g.sessions.Perm
      ((g.connections.zipIdx.filter fun p => p.1.session.phase ≠ .closed).map Prod.snd) := by
    refine (List.perm_ext_iff_of_nodup h.nodup ?_).mpr fun i => ?_
    · refine List.Nodup.sublist (List.filter_sublist.map _) ?_
      rw [List.zipIdx_map_snd]
      exact List.nodup_range'
    · rw [h.members i]
      simp [List.mem_zipIdx_iff_getElem?]
  calc
    g.sessionCount = (g.connections.zipIdx.filter fun p => p.1.session.phase ≠ .closed).length := by
      rw [sessionCount,hperm.length_eq,List.length_map]
    _ = (g.connections.zipIdx.map Prod.fst).countP fun c => c.session.phase ≠ .closed := by
      rw [List.countP_map,List.countP_eq_length_filter]
      rfl
    _ = g.connections.countP fun c => c.session.phase ≠ .closed := by
      rw [List.zipIdx_map_fst]

theorem Running.lawful (h : Running opts g) : Lawful g := by
  refine ⟨fun i c hc => ?_,h.count⟩
  obtain ⟨k,hk⟩ := h.follows i c hc
  refine ⟨?_,?_,?_,?_,?_⟩
  · rw [hk.history]
    exact k.history_once i
  · intro l m coreId stage result error hs
    exact k.history_failed (hk.history.symm.trans hs)
  · intro l m coreId reason hs
    exact k.history_disconnected (hk.history.symm.trans hs)
  · intro hp _ l m coreId hs
    have hclosed : k.isOpen = false := by simpa [hp] using hk.isOpen
    exact Life.history_unregistered hclosed (hk.history.symm.trans hs)
  · rw [h.members i]
    constructor
    · rintro ⟨d,hd,hp⟩
      obtain rfl := Option.some.inj (hc.symm.trans hd)
      exact hp
    · exact fun hp => ⟨c,hc,hp⟩

/-- The session is open again, and the gateway has dropped it. -/
theorem late_breaks {e : GatewayEvent} (h : Running opts g) (hlate : Late g e) :
    ∃ g', gatewayStep opts g e = some g' ∧ ¬ Lawful g' := by
  obtain @⟨i,e,c,hc,hp,hdone⟩ := hlate
  obtain ⟨t,ht,hopen⟩ := revives_reopens (opts.config c.draws) ⟨hp,.inr hdone⟩
  refine ⟨g.deliver i c t,by simp [gatewayStep,hc,ht],fun hlaw => ?_⟩
  obtain ⟨c',-,hs,hg,-,hsess⟩ := deliver_shape (h.attended i c hc) hc ht
  have hself : (g.deliver i c t).connections[i]? = some c' := by
    rw [hg,getElem?_set_at hc]
  have hin := (hlaw.lifecycle i c' hself).member.mpr (hs ▸ hopen)
  have hwas : i ∈ g.sessions := by
    rcases hsess with hsame | ⟨-,herase⟩
    · exact hsame ▸ hin
    · exact List.mem_of_mem_erase (herase ▸ hin)
  obtain ⟨d,hd,hne⟩ := (h.members i).mp hwas
  obtain rfl := Option.some.inj (hc.symm.trans hd)
  exact hne hp

/-- The laws hold in every state of exactly those runs in which no handshake
resolves on a session that has closed. -/
theorem lifecycles_iff (opts : Options) (es : List GatewayEvent) :
    Always (gatewayStep opts) Lawful {} es ↔
      Throughout (gatewayStep opts) (fun g e => ¬ Late g e) {} es := by
  have lawful : ∀ g, Running opts g → Lawful g := fun g h => h.lawful
  refine always_iff_throughout lawful (fun g e g' => running_keeps) ?_ ?_
  · intro g e h hlate
    exact late_breaks h (not_not.mp hlate)
  · exact ⟨by simp,by simp,by simp,List.nodup_nil,by simp⟩

end Keeping

/-- The device hangs up with its Hello already in the queue. -/
def hangUp : List GatewayEvent :=
  [.start,.accept zeroDraws]++earlyHello.tail.map (.session 0)

/-- The connection that failed is announced, and its device is never unregistered. -/
theorem hangUp_announces : ¬ ∀ (opts : Options) (es : List GatewayEvent),
    Always (gatewayStep opts) Lawful {} es := by
  intro h
  have hrun : (exec (gatewayStep ⟨Crypto.plainNode,"server"⟩) {} hangUp).map (fun g =>
      (g.connections.length,said g 0)) =
      some (1,[.connection 0,.handshakeFailed 0 none (some .readCoreId) .aborted none,
        .register 0 (some "000000000000000000000000"),.session 0]) := by
    decide +kernel
  obtain ⟨g,hr,hg⟩ := Run.of_observation _ hrun
  obtain ⟨hlen,hsaid⟩ := Prod.mk.inj hg
  have hlaw := (h ⟨Crypto.plainNode,"server"⟩ hangUp).at_end hr
  have hlt : 0 < g.connections.length := by omega
  have hlife := hlaw.lifecycle 0 g.connections[0] (List.getElem?_eq_getElem hlt)
  exact hlife.failed [.connection 0] _ _ _ _ _ hsaid (by simp)

end SparkProtocol.Gateways
