import SparkProtocol.HostServices
import Mathlib.Algebra.GroupWithZero.Nat

/-!
# A reconnect storm

A fleet comes back at once: devices keep connecting while the handshakes of others
are under way, and all of them share one pool of workers. The network cuts and delays
every stream as it likes, the workers reply in any order, and the turns of the
sessions interleave freely. Each connection with its device is a meeting, and its
meeting is all that a step of the storm sees of it; what the handshakes owe each other
is only the pool, and there no task is lost. So every schedule ends with the whole
fleet connected, registered and in agreement, and with the pool at rest.
-/
namespace SparkProtocol.Gateways
open ByteStrings HostValues StreamPrograms Program Handshake OrderedMaps StreamWeaving LabelledRuns
  Sessions Session CryptoPools Pool Gateway

/-- The far end of a connection: its device, and the bytes between the two. -/
structure Line where
  device : DeviceProgram DeviceResult
  toServer : Bytes := []
  buffered : Bytes := []
  toDevice : Bytes := []

def Line.meeting (l : Line) (s : Session) : Meeting :=
  ⟨s,l.toServer,l.device,l.buffered,l.toDevice⟩

structure Arrival where
  device : Device
  draws : Draws

/-- The host, the lines of its connections, and the devices that have yet to connect. -/
structure Storm (K : Type) where
  host : Host K
  lines : List Line := []
  coming : List Arrival := []

inductive StormEvent where
  | connect
  | toServer (i n : ℕ)
  | toDevice (i n : ℕ)
  | turn (i : ℕ) (turn : ServerTurn)
  | device (i : ℕ)
  | reply (w : ℕ)

/-- What connection `i` has put on its socket between two states of the gateway. -/
def wrote (g g' : Gateway) (i : ℕ) : Bytes :=
  match g.connections[i]?,g'.connections[i]? with
  | some c,some c' => newlyWritten c.session c'.session
  | none,some c' => newlyWritten {} c'.session
  | _,none => []

namespace Storm
variable {K : Type}

def start (size : ℕ) (arrivals : List Arrival) : Storm K :=
  { host := { gateway := { server := true }, pool := Pool.start size }, coming := arrivals }

/-- Connection `i` and its device. -/
def meeting (s : Storm K) (i : ℕ) : Option Meeting :=
  match s.host.gateway.connections[i]?,s.lines[i]? with
  | some c,some l => some (l.meeting c.session)
  | _,_ => none

end Storm

section Storms
variable {K : Type} (opts : Options) (host : HostRsa K)
  (loadCoreKey : String → Option Bytes → Except JsError (Option String))

def stormStep (s : Storm K) : StormEvent → Option (Storm K)
  | .connect =>
      match s.coming with
      | [] => none
      | a::coming =>
          (hostStep opts host s.host (.gateway (.accept a.draws))).map fun h =>
            { host := h, coming
              lines := s.lines++[{ device := simulateDevice opts.node (textRsa host) a.device
                                   toDevice := wrote s.host.gateway h.gateway s.lines.length }] }
  | .toServer i n =>
      (s.lines[i]?).bind fun l =>
        if 0 < n ∧ n ≤ l.toServer.length then
          (hostStep opts host s.host (.gateway (.session i (.data (l.toServer.take n))))).map fun h =>
            { s with host := h, lines := s.lines.set i { l with toServer := l.toServer.drop n } }
        else none
  | .toDevice i n =>
      (s.lines[i]?).bind fun l =>
        if 0 < n ∧ n ≤ l.toDevice.length then
          some { s with lines := s.lines.set i { l with
            buffered := l.buffered++l.toDevice.take n, toDevice := l.toDevice.drop n } }
        else none
  | .turn i turn =>
      (s.lines[i]?).bind fun l =>
        (hostStep opts host s.host (s.host.turn loadCoreKey i turn)).map fun h =>
          { s with host := h, lines := s.lines.set i { l with
            toDevice := l.toDevice++wrote s.host.gateway h.gateway i } }
  | .device i =>
      (s.lines[i]?).bind fun l =>
        match l.device with
        | .read n k =>
            if n ≤ l.buffered.length then
              let p := (k (.ok (l.buffered.take n))).burst
              some { s with lines := s.lines.set i { l with
                device := p.2, buffered := l.buffered.drop n, toServer := l.toServer++sent p.1 } }
            else none
        | _ => none
  | .reply w => (hostStep opts host s.host (.pool (.reply w))).map fun h => { s with host := h }

/-- The fleet is back: every device has a live session that agrees with it, the registry
shows the fleet, and the pool has nothing left to do. -/
structure Weathered (size : ℕ) (arrivals : List Arrival) (s : Storm K) : Prop where
  coming : s.coming = []
  agreed : ∀ i a, arrivals[i]? = some a → ∃ m, s.meeting i = some m ∧ Agreed a.device m
  live : ∀ i a, arrivals[i]? = some a → LiveAt s.host.gateway i (toHex a.device.id)
  registry : ∀ id, (s.host.gateway.registry.get id).isSome ↔ ∃ a ∈ arrivals, toHex a.device.id = id
  stats : s.host.pool.stats = ⟨size,size,0,0⟩
  settled : ∀ p < s.host.pool.submitted.length, p ∈ settled s.host.pool.trace

/-- The server knows the key of the device, and the device that of the server. -/
structure Acquainted (d : Device) : Prop where
  server : (textRsa host).Matching d.serverPubPem opts.serverPrivKeyPem 256
  device : ∃ devicePubPem, (textRsa host).Matching devicePubPem d.privPem 128 ∧ devicePubPem ≠ "" ∧
    loadCoreKey (toHex d.id) d.inlineDer = .ok (some devicePubPem)

/-- The connection of arrival `a` is on its way to the end of this completion. -/
structure Engaged (a : Arrival) (k : Completion) (c : Connection) (l : Line) (rank : ℕ) : Prop where
  draws : c.draws = a.draws
  open' : ¬ Ended c.session
  meets : Meets (hostServices host loadCoreKey) (k.result a.draws) (deviceResult k a.draws) rank
    (l.meeting c.session)

section Calls
variable {opts host loadCoreKey} {svc : Services} {r : HandshakeResult} {cfg : Config} {s s' : Session}
  {input input' : Bytes} {t t' : History}

/-- In a handshake that completes, no service refuses. -/
theorem completed_granted {c : Call} {k : Answer c → Exchange HandshakeResult}
    (hp : Remains cfg (.call c k)) (hk : Runs (.call c k) t (.done r)) (ha : Answered svc t) :
    ¬ Refuses cfg.draws (.call c (svc.answer c)) := by
  obtain ⟨past,hpast⟩ := hp
  cases hk with
  | @call _ _ _ t a hk =>
      obtain ⟨rfl,-⟩ := ha
      have hrun := hpast.append (.call _ hk)
      rcases ((runHandshake_keeps cfg.node cfg.serverPrivKeyPem cfg.draws).sound hrun).now with
        ⟨hw,-⟩ | ⟨hnone,-,-⟩ | ⟨o,ho,hpost⟩
      · exact hw.elim
      · cases hnone
      · obtain rfl := Option.some.inj ho
        obtain ⟨k,-,-,-,hg⟩ := hpost
        exact hg.1 _ (by simp)

/-- A task that is not refused succeeds. -/
theorem task_granted {draws : Draws} {c : Call} {task : Task} (hc : rsaTask c = some task)
    (hr : ¬ Refuses draws (.call c ((hostServices host loadCoreKey).answer c))) :
    ∃ v, task.operation host = .ok v := by
  cases hop : task.operation host with
  | ok v => exact ⟨v,rfl⟩
  | error err =>
      refine absurd ?_ hr
      have hpool : pooled host task = .error { message := err.message } := by
        unfold pooled
        rw [hop]
        rfl
      cases c with
      | loadCoreKey => cases hc
      | decrypt =>
          obtain rfl := Option.some.inj hc
          exact .inl ⟨_,hpool⟩
      | _ =>
          obtain rfl := Option.some.inj hc
          exact ⟨_,hpool⟩

/-- On its way to a result a session is in its handshake, or it has the result. -/
theorem serverAt_handshaking (h : ServerAt r s input t) :
    (∃ q, s.control = .handshake q) ∨ (s.phase = .connected ∧ Framed s) := by
  cases h with
  | reading hc _ _ => exact .inl ⟨_,hc⟩
  | calling hc _ _ => exact .inl ⟨_,hc⟩
  | finished he hb =>
      refine .inr ⟨he.phase,?_⟩
      rcases hb with ⟨hc,-⟩ | ⟨hc,-⟩ <;> simp [Framed,hc]

theorem continueHandshake_waits {p q : Exchange HandshakeResult}
    (h : (s.continueHandshake p).control = .handshake q) :
    (s.continueHandshake p).phase = s.phase := by
  have hs := silent_effects s p.burst.1
  have hcont := continueHandshake_cases s p
  generalize s.continueHandshake p = u at h hcont ⊢
  cases hcont with
  | resolves _ => cases h
  | @rejects err _ =>
      rw [(caught_ends (p.burst.1.foldl perform s) err).control] at h
      cases h
  | waits _ => exact (hs.trans (silent_await _ p.burst.2)).phase

/-- No turn on the way closes the session. -/
theorem turn_not_closing {turn : ServerTurn} (hat : ServerAt r s input t)
    (hat' : ServerAt r s' input' t') (h : step cfg s (turn.event svc) = some s') : ¬ Closing s s' := by
  intro hm
  rcases serverAt_handshaking hat' with ⟨q,hq⟩ | ⟨hphase,-⟩
  · rcases serverAt_handshaking hat with ⟨p,hp⟩ | ⟨-,hframed⟩
    · have hphase : s'.phase = s.phase := by
        cases turn with
        | resume =>
            cases step_cases h with
            | proceeds _ _ => exact continueHandshake_waits hq
            | reads hc _ => cases hp.symm.trans hc
        | answer =>
            cases step_cases h with
            | answer _ _ => exact continueHandshake_waits hq
        | loop =>
            cases step_cases h with
            | loop hc => cases hp.symm.trans hc
      exact hm.wasOpen (hphase ▸ hm.phase)
    · have hframed' := (step_conveys hframed h).framed
      simp [Framed,hq] at hframed'
  · have hclosed := hm.phase
    rw [hphase] at hclosed
    cases hclosed

theorem not_ended_of_not_closing {e : Event} (h : step cfg s e = some s') (hopen : ¬ Ended s)
    (hn : ¬ Closing s s') : ¬ Ended s' := by
  cases step_moves h with
  | silent hm => exact fun he => hopen ((ended_congr hm.events).mp he)
  | closing hm => exact absurd hm hn
  | starting _ hm => exact fun he => hopen ((ended_congr hm.events).mp he)
  | establishing _ _ hm => exact fun he => hopen ((establishing_ended hm).mp he)

theorem Delivers.server {g g' : Gateway} {i : ℕ} {c : Connection} {e : Event} {u : Session}
    (h : Delivers g i c e u g') : g'.server = g.server := by
  cases h <;> rfl

/-- A step that closes nothing, of a session that has not closed, misfiles nothing. -/
theorem not_misfiles_of_open {g : Gateway} {i : ℕ} {c : Connection} {e : Event} {u : Session}
    (hc : g.connections[i]? = some c) (hu : step (opts.config c.draws) c.session e = some u)
    (hopen : ¬ Ended c.session) (hn : ¬ Ended u) : ¬ Misfiles opts g (.session i e) := by
  intro hm
  cases hm with
  | stale _ hem _ _ =>
      have hl := (emits_iff hc hu _).mp hem
      exact hn (ended_iff.mpr (by rw [hl]; simp))
  | late hd hend _ _ =>
      obtain rfl := Option.some.inj (hc.symm.trans hd)
      exact hopen hend

end Calls

section Weathering
variable {opts host loadCoreKey} {size : ℕ} {arrivals : List Arrival} {done : Arrival → Completion}
  {cost : Arrival → ℕ} {ranks : List ℕ} {s t : Storm K}

/-- A turn of an engaged connection keeps it open, and the task that it comes to succeeds. -/
theorem Engaged.turn {a : Arrival} {k : Completion} {c : Connection} {l : Line} {n : ℕ} {u : Session}
    {turn : ServerTurn} (h : Engaged host loadCoreKey a k c l n)
    (hist : Historic (opts.config c.draws) u)
    (hu : step (opts.config c.draws) c.session (turn.event (hostServices host loadCoreKey)) = some u) :
    ¬ Ended u ∧ ∀ task, (awaited u).bind rsaTask = some task → ∃ v, task.operation host = .ok v := by
  obtain ⟨input,t,w,hat,ha,-,-,hw,-⟩ := h.meets.rest
  obtain ⟨input',t',hat',ha',-⟩ := (server_turns hat ha hw hu).rest
  refine ⟨not_ended_of_not_closing hu h.open' (turn_not_closing hat hat' hu),fun task htask => ?_⟩
  obtain ⟨call,hcall,htask⟩ := Option.bind_eq_some_iff.mp htask
  unfold awaited at hcall
  split at hcall
  · next k hk =>
      obtain rfl := Option.some.inj hcall
      cases hat' with
      | reading hc _ _ => cases hk.symm.trans hc
      | calling hc _ hruns =>
          cases Control.handshake.inj (hk.symm.trans hc)
          exact task_granted htask (completed_granted (hist.hand hk) hruns ha')
      | finished he hb => rcases hb with ⟨hc,-⟩ | ⟨hc,-⟩ <;> cases hk.symm.trans hc
  · cases hcall

/-- What a rank is worth: a handshake does two steps of work for one task of the pool. -/
def worth (cost : Arrival → ℕ) (ranks : List ℕ) (s : Storm K) : ℕ :=
  2*ranks.sum+(s.coming.map fun a => 2*cost a+1).sum+unsettled s.host.pool

variable (opts host loadCoreKey size arrivals done) in
/-- What a storm keeps. Every connection is engaged, and the pool has only tasks that
succeed. -/
structure Storming (ranks : List ℕ) (s : Storm K) : Prop where
  linked : Linked opts host s.host
  consistent : Consistent opts s.host.gateway
  server : s.host.gateway.server = true
  kept : Kept host size s.host.pool
  awake : Awake s.host.pool.threads
  granted : ∀ task ∈ s.host.pool.submitted, ∃ v, task.operation host = .ok v
  connections : s.host.gateway.connections.length = s.lines.length
  coming : arrivals.drop s.lines.length = s.coming
  ranked : ranks.length = s.lines.length
  engaged : ∀ (i : ℕ) (n : ℕ), ranks[i]? = some n → ∃ a c l, arrivals[i]? = some a ∧
    s.host.gateway.connections[i]? = some c ∧ s.lines[i]? = some l ∧
    Engaged host loadCoreKey a (done a) c l n

variable (opts host loadCoreKey size arrivals done cost) in
/-- So much is left of the storm. -/
def Left (n : ℕ) (s : Storm K) : Prop :=
  ∃ ranks, worth cost ranks s = n ∧ Storming opts host loadCoreKey size arrivals done ranks s

theorem sum_set {l : List ℕ} {i n : ℕ} (h : l[i]? = some n) (m : ℕ) :
    (l.set i m).sum+n = l.sum+m := by
  induction l generalizing i with
  | nil => cases h
  | cons x l ih =>
      cases i with
      | zero =>
          obtain rfl := Option.some.inj h
          simp only [List.set_cons_zero,List.sum_cons]
          omega
      | succ i =>
          have hrec := ih h
          simp only [List.set_cons_succ,List.sum_cons]
          omega

/-- An engaged connection has moved, and the pool has got its task if it came to one. -/
theorem Storming.moves (hs : Storming opts host loadCoreKey size arrivals done ranks s) {i n : ℕ}
    {a : Arrival} {c c' : Connection} {l l' : Line} {h' : Host K} {e : MeetingEvent}
    (hr : ranks[i]? = some n) (ha : arrivals[i]? = some a) (hc : s.host.gateway.connections[i]? = some c)
    (hl : s.lines[i]? = some l) (hm : Engaged host loadCoreKey a (done a) c l n)
    (hlinked : Linked opts host h') (hconsistent : Consistent opts h'.gateway)
    (hserver : h'.gateway.server = true)
    (hconn : h'.gateway.connections = s.host.gateway.connections.set i c')
    (hdraws : c'.draws = c.draws) (hopen : ¬ Ended c'.session)
    (hstep : meetingStep (opts.config c.draws) (hostServices host loadCoreKey) (l.meeting c.session) e =
      some (l'.meeting c'.session))
    (hpool : h'.pool = s.host.pool ∨ ∃ task, (∃ v, task.operation host = .ok v) ∧
      h'.pool = s.host.pool.dispatch task) :
    ∃ ranks', worth cost ranks' { s with host := h', lines := s.lines.set i l' } < worth cost ranks s ∧
      Storming opts host loadCoreKey size arrivals done ranks'
        { s with host := h', lines := s.lines.set i l' } := by
  obtain ⟨n',hlt,hm'⟩ := meets_descends hm.meets hstep
  have hsum := sum_set hr n'
  have hpools : Kept host size h'.pool ∧ Awake h'.pool.threads ∧
      (∀ task ∈ h'.pool.submitted, ∃ v, task.operation host = .ok v) ∧
      unsettled h'.pool ≤ unsettled s.host.pool+1 := by
    rcases hpool with hpool | ⟨task,htask,hpool⟩ <;> rw [hpool]
    · exact ⟨hs.kept,hs.awake,hs.granted,Nat.le_succ _⟩
    · refine ⟨dispatch_kept hs.kept task,dispatch_awake hs.awake task,fun u hu => ?_,
        (dispatch_unsettled hs.kept task).le⟩
      rw [dispatch_submitted,List.mem_append,List.mem_singleton] at hu
      rcases hu with hu | rfl
      · exact hs.granted u hu
      · exact htask
  obtain ⟨hkept,hawake,hgranted,hout⟩ := hpools
  refine ⟨ranks.set i n',?_,⟨hlinked,hconsistent,hserver,hkept,hawake,hgranted,?_,?_,?_,?_⟩⟩
  · simp only [worth]
    omega
  · rw [hconn,List.length_set,List.length_set,hs.connections]
  · rw [List.length_set]
    exact hs.coming
  · rw [List.length_set,List.length_set,hs.ranked]
  · intro j m hj
    rw [hconn]
    rcases getElem?_set_cases hj with ⟨rfl,rfl⟩ | ⟨hji,hj⟩
    · exact ⟨a,c',l',ha,getElem?_set_at hc c',getElem?_set_at hl l',hdraws.trans hm.draws,hopen,hm'⟩
    · obtain ⟨b,d,k,hb,hd,hk,hmj⟩ := hs.engaged j m hj
      exact ⟨b,d,k,hb,by rw [List.getElem?_set_ne (Ne.symm hji),hd],
        by rw [List.getElem?_set_ne (Ne.symm hji),hk],hmj⟩

theorem Storming.at (hs : Storming opts host loadCoreKey size arrivals done ranks s) {i : ℕ} {l : Line}
    (hl : s.lines[i]? = some l) : ∃ n a c, ranks[i]? = some n ∧ arrivals[i]? = some a ∧
      s.host.gateway.connections[i]? = some c ∧ Engaged host loadCoreKey a (done a) c l n := by
  have hlt : i < ranks.length := by
    rw [hs.ranked]
    exact (List.getElem?_eq_some_iff.mp hl).choose
  obtain ⟨a,c,l',ha,hc,hl',hm⟩ := hs.engaged i _ (List.getElem?_eq_getElem hlt)
  obtain rfl := Option.some.inj (hl.symm.trans hl')
  exact ⟨_,a,c,List.getElem?_eq_getElem hlt,ha,hc,hm⟩

/-- Bytes arrive at the server. -/
theorem Storming.hears (hs : Storming opts host loadCoreKey size arrivals done ranks s) {i n : ℕ}
    {l : Line} {h' : Host K} (hl : s.lines[i]? = some l) (hn : 0 < n ∧ n ≤ l.toServer.length)
    (hstep : hostStep opts host s.host (.gateway (.session i (.data (l.toServer.take n)))) = some h') :
    ∃ ranks', worth cost ranks' { s with
        host := h', lines := s.lines.set i { l with toServer := l.toServer.drop n } } <
        worth cost ranks s ∧
      Storming opts host loadCoreKey size arrivals done ranks' { s with
        host := h', lines := s.lines.set i { l with toServer := l.toServer.drop n } } := by
  obtain ⟨m,a,c,hr,ha,hc,hm⟩ := hs.at hl
  have hlinked := host_linked hs.linked hstep
  cases hostStep_cases hstep with
  | continues hgo _ => cases hgo
  | stands _ _ hg =>
      have hgate := hg
      cases gatewayStep_cases hg with
      | @session _ _ d u hd hu =>
          obtain rfl := Option.some.inj (hc.symm.trans hd)
          obtain rfl := Option.some.inj hu
          have hopen : ¬ Ended (c.session.onData (l.toServer.take n)) := hm.open'
          have hdel := deliver_cases (hs.consistent.attended i c hc) hc hu
          obtain ⟨c',k,hconn,hsession,hdraws,-⟩ := hdel.trace
          refine hs.moves (e := .toServer n) hr ha hc hl hm hlinked
            (consistent_keeps hs.consistent (not_misfiles_of_open hc hu hm.open' hopen) hgate) ?_
            hconn hdraws (by rw [hsession]; exact hopen) ?_ (.inl rfl)
          · rw [hdel.server]
            exact hs.server
          · rw [hsession]
            exact if_pos hn

theorem set_same {α : Type*} {l : List α} {i : ℕ} {a : α} (h : l[i]? = some a) : l = l.set i a := by
  obtain ⟨hlt,rfl⟩ := List.getElem?_eq_some_iff.mp h
  rw [List.set_getElem_self]

/-- Only the far end of a line has moved. -/
theorem Storming.afar (hs : Storming opts host loadCoreKey size arrivals done ranks s) {i : ℕ}
    {l l' : Line} {e : MeetingEvent} (hl : s.lines[i]? = some l)
    (hstep : ∀ cfg session, meetingStep cfg (hostServices host loadCoreKey) (l.meeting session) e =
      some (l'.meeting session)) :
    ∃ ranks', worth cost ranks' { s with lines := s.lines.set i l' } < worth cost ranks s ∧
      Storming opts host loadCoreKey size arrivals done ranks' { s with lines := s.lines.set i l' } := by
  obtain ⟨n,a,c,hr,ha,hc,hm⟩ := hs.at hl
  exact hs.moves hr ha hc hl hm hs.linked hs.consistent hs.server (set_same hc) rfl hm.open'
    (hstep _ _) (.inl rfl)

/-- A session takes its turn. -/
theorem Storming.turns (hs : Storming opts host loadCoreKey size arrivals done ranks s) {i : ℕ}
    {turn : ServerTurn} {l : Line} {h' : Host K} (hl : s.lines[i]? = some l)
    (hstep : hostStep opts host s.host (s.host.turn loadCoreKey i turn) = some h') :
    ∃ ranks', worth cost ranks' { s with host := h', lines := s.lines.set i { l with
        toDevice := l.toDevice++wrote s.host.gateway h'.gateway i } } < worth cost ranks s ∧
      Storming opts host loadCoreKey size arrivals done ranks' { s with
        host := h', lines := s.lines.set i { l with
          toDevice := l.toDevice++wrote s.host.gateway h'.gateway i } } := by
  obtain ⟨m,a,c,hr,ha,hc,hm⟩ := hs.at hl
  have hlinked := host_linked hs.linked hstep
  obtain ⟨d,u,hd,hu,rfl⟩ := turn_serves hs.linked hs.kept.opened hstep
  obtain rfl := Option.some.inj (hc.symm.trans hd)
  have hgate : gatewayStep opts s.host.gateway
      (.session i (turn.event (hostServices host loadCoreKey))) = some (s.host.gateway.deliver i c u) := by
    simp only [gatewayStep,hc,hu,Option.map_some]
  have hattended := hs.consistent.attended i c hc
  have hdel := deliver_cases hattended hc hu
  obtain ⟨c',k,hconn,hsession,hdraws,-⟩ := hdel.trace
  have hc' : (s.host.gateway.deliver i c u).connections[i]? = some c' := by
    rw [hconn]
    exact getElem?_set_at hc c'
  obtain ⟨hopen,hgranted⟩ := hm.turn (historic_keeps hattended.history hu) hu
  have hwrote : wrote s.host.gateway (s.host.gateway.deliver i c u) i = newlyWritten c.session u := by
    simp only [wrote,hc,hc',hsession]
  have hpool : (s.host.went i (s.host.gateway.deliver i c u)).pool = s.host.pool ∨
      ∃ task, (∃ v, task.operation host = .ok v) ∧
        (s.host.went i (s.host.gateway.deliver i c u)).pool = s.host.pool.dispatch task := by
    rcases went_pool s.host i (s.host.gateway.deliver i c u) with hpool | ⟨task,htask,hpool⟩
    · exact .inl hpool
    · rw [taskAt_some hc',hsession] at htask
      exact .inr ⟨task,hgranted task htask,hpool⟩
  rw [went_gateway]
  refine hs.moves (e := .server turn) hr ha hc hl hm hlinked ?_ ?_ ?_ hdraws
    (by rw [hsession]; exact hopen) ?_ hpool
  · rw [went_gateway]
    exact consistent_keeps hs.consistent (not_misfiles_of_open hc hu hm.open' hopen) hgate
  · rw [went_gateway,hdel.server]
    exact hs.server
  · rw [went_gateway]
    exact hconn
  · rw [hwrote,hsession]
    simp only [meetingStep,Line.meeting,hu,Option.map_some]

/-- A device connects: its server has begun, and its handshake has all its rank. -/
theorem Storming.joins (hs : Storming opts host loadCoreKey size arrivals done ranks s) {a : Arrival}
    {coming : List Arrival} {h' : Host K} (hcoming : s.coming = a::coming)
    (hm : Meets (hostServices host loadCoreKey) ((done a).result a.draws) (deviceResult (done a) a.draws)
      (cost a) (meet (opts.config a.draws) (hostServices host loadCoreKey) a.device))
    (hstep : hostStep opts host s.host (.gateway (.accept a.draws)) = some h') :
    ∃ ranks', worth cost ranks' { host := h', coming, lines := s.lines++[{
          device := simulateDevice opts.node (textRsa host) a.device
          toDevice := wrote s.host.gateway h'.gateway s.lines.length }] } < worth cost ranks s ∧
      Storming opts host loadCoreKey size arrivals done ranks' { host := h', coming, lines := s.lines++[{
          device := simulateDevice opts.node (textRsa host) a.device
          toDevice := wrote s.host.gateway h'.gateway s.lines.length }] } := by
  have hlinked := host_linked hs.linked hstep
  have hdrop := hs.coming.trans hcoming
  have ha : arrivals[s.lines.length]? = some a := by
    rw [← List.head?_drop,hdrop,List.head?_cons]
  have hrest : arrivals.drop (s.lines.length+1) = coming := by
    rw [← List.tail_drop,hdrop,List.tail_cons]
  cases hostStep_cases hstep with
  | accept hg =>
      cases gatewayStep_cases hg with
      | accept _ _ =>
          have hattended := accepted_attended opts a.draws
          have hconn : (s.host.gateway.accept opts a.draws).connections = s.host.gateway.connections++
              [{ draws := a.draws, session := ({} : Session).run (opts.config a.draws) }] := rfl
          have hnone : s.host.gateway.connections[s.lines.length]? = none := by
            rw [List.getElem?_eq_none_iff,hs.connections]
          have hnew : (s.host.gateway.accept opts a.draws).connections[s.lines.length]? =
              some { draws := a.draws, session := ({} : Session).run (opts.config a.draws) } := by
            rw [hconn,← hs.connections]
            exact List.getElem?_concat_length
          have hwrote : wrote s.host.gateway (s.host.gateway.accept opts a.draws) s.lines.length =
              newlyWritten {} (({} : Session).run (opts.config a.draws)) := by
            simp only [wrote,hnone,hnew]
          refine ⟨ranks++[cost a],?_,hlinked,accept_consistent a.draws hs.consistent,hs.server,hs.kept,
            hs.awake,hs.granted,?_,?_,?_,?_⟩
          · simp only [worth,hcoming,List.sum_append,List.map_cons,List.sum_cons,List.sum_nil]
            omega
          · rw [hconn,List.length_append,List.length_append,hs.connections]
            rfl
          · rw [List.length_append,List.length_singleton]
            exact hrest
          · rw [List.length_append,List.length_append,hs.ranked]
            rfl
          · intro i n hi
            rcases getElem?_concat_cases hi with hi | ⟨rfl,rfl⟩
            · obtain ⟨b,c,l,hb,hc,hl,hmi⟩ := hs.engaged i n hi
              exact ⟨b,c,l,hb,hconn ▸ getElem?_concat_some hc _,getElem?_concat_some hl _,hmi⟩
            · rw [hs.ranked]
              refine ⟨a,_,_,ha,hnew,List.getElem?_concat_length,rfl,?_,?_⟩
              · exact hattended.onceClose.mp rfl
              · rw [hwrote]
                exact hm

/-- A worker replies. -/
theorem Storming.replies (hs : Storming opts host loadCoreKey size arrivals done ranks s) {w : ℕ}
    {h' : Host K} (hstep : hostStep opts host s.host (.pool (.reply w)) = some h') :
    worth cost ranks { s with host := h' } < worth cost ranks s ∧
      Storming opts host loadCoreKey size arrivals done ranks { s with host := h' } := by
  have hlinked := host_linked hs.linked hstep
  cases hostStep_cases hstep with
  | @pool _ pool hp =>
      obtain ⟨hkept,hout⟩ := reply_settles hs.kept hs.granted hp
      have hsame : pool.submitted = s.host.pool.submitted := by
        cases poolStep_cases hp with
        | reply _ => exact onMessage_submitted ..
      refine ⟨Nat.add_lt_add_left hout _,hlinked,hs.consistent,hs.server,hkept,reply_awake hs.awake hp,?_,
        hs.connections,hs.coming,hs.ranked,hs.engaged⟩
      rw [hsame]
      exact hs.granted

/-- Every event of a storm lowers what is left of it. -/
theorem storm_descends {e : StormEvent} (hknown : ∀ a ∈ arrivals, Meets (hostServices host loadCoreKey)
      ((done a).result a.draws) (deviceResult (done a) a.draws) (cost a)
      (meet (opts.config a.draws) (hostServices host loadCoreKey) a.device))
    (hs : Storming opts host loadCoreKey size arrivals done ranks s)
    (hstep : stormStep opts host loadCoreKey s e = some t) : ∃ ranks',
      worth cost ranks' t < worth cost ranks s ∧
        Storming opts host loadCoreKey size arrivals done ranks' t := by
  cases e with
  | connect =>
      dsimp only [stormStep] at hstep
      split at hstep
      · cases hstep
      · next a coming hcoming =>
          obtain ⟨h',hh,rfl⟩ := Option.map_eq_some_iff.mp hstep
          have hmem : a ∈ arrivals := by
            apply List.mem_of_mem_drop (i := s.lines.length)
            rw [hs.coming,hcoming]
            exact List.mem_cons_self
          exact hs.joins hcoming (hknown a hmem) hh
  | toServer i n =>
      obtain ⟨l,hl,hstep⟩ := Option.bind_eq_some_iff.mp hstep
      split at hstep
      · next hn =>
          obtain ⟨h',hh,rfl⟩ := Option.map_eq_some_iff.mp hstep
          exact hs.hears hl hn hh
      · cases hstep
  | toDevice i n =>
      obtain ⟨l,hl,hstep⟩ := Option.bind_eq_some_iff.mp hstep
      split at hstep
      · next hn =>
          obtain rfl := Option.some.inj hstep
          exact hs.afar (e := .toDevice n) hl fun _ _ => if_pos hn
      · cases hstep
  | turn i turn =>
      obtain ⟨l,hl,hstep⟩ := Option.bind_eq_some_iff.mp hstep
      obtain ⟨h',hh,rfl⟩ := Option.map_eq_some_iff.mp hstep
      exact hs.turns hl hh
  | device i =>
      obtain ⟨l,hl,hstep⟩ := Option.bind_eq_some_iff.mp hstep
      split at hstep
      · next n k hd =>
          split at hstep
          · next hn =>
              obtain rfl := Option.some.inj hstep
              refine hs.afar (e := .device) hl fun _ _ => ?_
              simp only [meetingStep,Line.meeting,hd,hn,↓reduceIte]
          · cases hstep
      · cases hstep
  | reply w =>
      obtain ⟨h',hh,rfl⟩ := Option.map_eq_some_iff.mp hstep
      exact ⟨ranks,hs.replies hh⟩

/-- A meeting that can go on lets the storm go on, unless its server waits for the pool. -/
theorem meeting_enabled {i : ℕ} {c : Connection} {l : Line} {e : MeetingEvent} {m : Meeting}
    (hlinked : Linked opts host s.host) (hc : s.host.gateway.connections[i]? = some c)
    (hl : s.lines[i]? = some l)
    (hm : meetingStep (opts.config c.draws) (hostServices host loadCoreKey) (l.meeting c.session) e =
      some m)
    (hsettled : ∀ p < s.host.pool.submitted.length, p ∈ settled s.host.pool.trace) :
    ∃ e t, stormStep opts host loadCoreKey s e = some t := by
  cases e with
  | toServer n =>
      dsimp only [meetingStep] at hm
      split at hm
      · next hn =>
          obtain ⟨h',hdata⟩ : ∃ h', hostStep opts host s.host
              (.gateway (.session i (.data (l.toServer.take n)))) = some h' :=
            ⟨_,by simp only [hostStep,gatewayStep,hc,step,Option.map_some]; rfl⟩
          have hn : 0 < n ∧ n ≤ l.toServer.length := hn
          exact ⟨.toServer i n,_,by
            simp only [stormStep,hl,Option.bind_some,if_pos hn,hdata,Option.map_some]; rfl⟩
      · cases hm
  | toDevice n =>
      dsimp only [meetingStep] at hm
      split at hm
      · next hn =>
          have hn : 0 < n ∧ n ≤ l.toDevice.length := hn
          exact ⟨.toDevice i n,_,by simp only [stormStep,hl,Option.bind_some,if_pos hn]; rfl⟩
      · cases hm
  | server turn =>
      obtain ⟨u,hu,-⟩ := Option.map_eq_some_iff.mp hm
      obtain ⟨h',hh⟩ := turn_enabled (u := u) hlinked hc hu fun p hp => by
        obtain ⟨q,hq,hmatch⟩ := hlinked.matched i (List.getElem?_eq_some_iff.mp hc).choose
        obtain rfl := Option.some.inj (hq.symm.trans hp)
        generalize taskAt s.host.gateway i = task at hmatch
        cases hmatch with
        | out hsub => exact settlement_exists (hsettled p (List.getElem?_eq_some_iff.mp hsub).choose)
      exact ⟨.turn i turn,_,by simp only [stormStep,hl,Option.bind_some,hh,Option.map_some]; rfl⟩
  | device =>
      dsimp only [meetingStep] at hm
      split at hm
      · next n k hd =>
          have hd : l.device = .read n k := hd
          split at hm
          · next hn =>
              have hn : n ≤ l.buffered.length := hn
              exact ⟨.device i,_,by simp only [stormStep,hl,Option.bind_some,hd,if_pos hn]; rfl⟩
          · cases hm
      · cases hm

/-- The storm is over once every meeting has concluded and nothing is left in the pool. -/
theorem Storming.weathered (hs : Storming opts host loadCoreKey size arrivals done ranks s)
    (hhonest : ∀ a ∈ arrivals, Honest opts.node (hostServices host loadCoreKey) opts.serverPrivKeyPem
      a.draws a.device (done a))
    (hcoming : s.coming = []) (hstats : s.host.pool.stats = ⟨size,size,0,0⟩)
    (hsettled : ∀ p < s.host.pool.submitted.length, p ∈ settled s.host.pool.trace)
    (hall : ∀ (i : ℕ) (a : Arrival) (c : Connection) (l : Line), arrivals[i]? = some a →
      s.host.gateway.connections[i]? = some c → s.lines[i]? = some l →
      Concluded ((done a).result a.draws) (deviceResult (done a) a.draws) (l.meeting c.session)) :
    Weathered size arrivals s := by
  have hlong : arrivals.length ≤ s.lines.length := by
    rw [← List.drop_eq_nil_iff,hs.coming,hcoming]
  have hagrees : ∀ i a, arrivals[i]? = some a →
      Agreement a.device ((done a).result a.draws) (deviceResult (done a) a.draws) := fun i a ha =>
    honest_agrees (hhonest a (List.mem_of_getElem? ha))
  have hthere : ∀ (i : ℕ) (a : Arrival), arrivals[i]? = some a → ∃ (n : ℕ) (c : Connection) (l : Line),
      ranks[i]? = some n ∧ s.host.gateway.connections[i]? = some c ∧ s.lines[i]? = some l ∧
        Engaged host loadCoreKey a (done a) c l n := by
    intro i a ha
    have hlt := (List.getElem?_eq_some_iff.mp ha).choose
    obtain ⟨n,b,c,hr,hb,hc,hm⟩ := hs.at (List.getElem?_eq_getElem (by omega : i < s.lines.length))
    obtain rfl := Option.some.inj (ha.symm.trans hb)
    exact ⟨n,c,_,hr,hc,List.getElem?_eq_getElem _,hm⟩
  have hlive : ∀ i a, arrivals[i]? = some a → LiveAt s.host.gateway i (toHex a.device.id) := by
    intro i a ha
    obtain ⟨n,c,l,-,hc,hl,hm⟩ := hthere i a ha
    have he : Established c.session _ := (hall i a c l ha hc hl).server
    refine ⟨c,hc,?_,⟨_,he.resolved⟩,hm.open'⟩
    rw [he.coreId,(hagrees i a ha).coreId]
  refine ⟨hcoming,fun i a ha => ?_,hlive,fun coreId => ?_,hstats,hsettled⟩
  · obtain ⟨n,c,l,-,hc,hl,-⟩ := hthere i a ha
    refine ⟨l.meeting c.session,?_,_,_,hall i a c l ha hc hl,hagrees i a ha⟩
    simp only [Storm.meeting,hc,hl]
  · rw [hs.consistent.presence coreId]
    constructor
    · rintro ⟨i,c,hc,hi⟩
      have hlt := (List.getElem?_eq_some_iff.mp hc).choose
      rw [hs.connections,← hs.ranked] at hlt
      obtain ⟨a,-,-,ha,-⟩ := hs.engaged i _ (List.getElem?_eq_getElem hlt)
      obtain ⟨d,hd,hdl⟩ := hlive i a ha
      obtain rfl := Option.some.inj (hc.symm.trans hd)
      exact ⟨a,List.mem_of_getElem? ha,hdl.id_eq hi⟩
    · rintro ⟨a,ha,rfl⟩
      obtain ⟨i,hi⟩ := List.mem_iff_getElem?.mp ha
      exact ⟨i,hlive i a hi⟩

/-- Until the storm is over, something can happen. -/
theorem storm_progresses (hsize : 1 ≤ size)
    (hhonest : ∀ a ∈ arrivals, Honest opts.node (hostServices host loadCoreKey) opts.serverPrivKeyPem
      a.draws a.device (done a))
    (hs : Storming opts host loadCoreKey size arrivals done ranks s) :
    Weathered size arrivals s ∨ ∃ e t, stormStep opts host loadCoreKey s e = some t := by
  rcases busy_or_rested hsize hs.kept hs.awake with ⟨w,pool,hp⟩ | ⟨hstats,hsettled⟩
  · exact .inr ⟨.reply w,_,by simp only [stormStep,hostStep,hp,Option.map_some]; rfl⟩
  cases hcoming : s.coming with
  | cons a coming =>
      obtain ⟨h',hh⟩ : ∃ h', hostStep opts host s.host (.gateway (.accept a.draws)) = some h' :=
        ⟨_,by simp only [hostStep,gatewayStep,hs.server,↓reduceIte,Option.map_some]; rfl⟩
      exact .inr ⟨.connect,_,by simp only [stormStep,hcoming,hh,Option.map_some]; rfl⟩
  | nil =>
      by_cases hall : ∀ (i : ℕ) (a : Arrival) (c : Connection) (l : Line), arrivals[i]? = some a →
          s.host.gateway.connections[i]? = some c → s.lines[i]? = some l →
          Concluded ((done a).result a.draws) (deviceResult (done a) a.draws) (l.meeting c.session)
      · exact .inl (hs.weathered hhonest hcoming hstats hsettled hall)
      · simp only [not_forall] at hall
        obtain ⟨i,a,c,l,ha,hc,hl,hnot⟩ := hall
        obtain ⟨n,b,d,-,hb,hd,hm⟩ := hs.at hl
        obtain rfl := Option.some.inj (ha.symm.trans hb)
        obtain rfl := Option.some.inj (hc.symm.trans hd)
        have hmeets := hm.meets
        have hnext : Concluded ((done a).result a.draws) (deviceResult (done a) a.draws)
            (l.meeting c.session) ∨ ∃ e m, meetingStep (opts.config c.draws)
              (hostServices host loadCoreKey) (l.meeting c.session) e = some m :=
          meets_progresses hmeets
        obtain ⟨e,m,he⟩ := hnext.resolve_left hnot
        exact .inr (meeting_enabled hs.linked hc hl he hsettled)

theorem start_storming (opts : Options) (host : HostRsa K)
    (loadCoreKey : String → Option Bytes → Except JsError (Option String)) (size : ℕ)
    (arrivals : List Arrival) (done : Arrival → Completion) :
    Storming opts host loadCoreKey size arrivals done [] (Storm.start size arrivals) := by
  have hopened : hostStep opts host (Host.start size) (.gateway .start) =
      some { gateway := { server := true }, pool := Pool.start size } := rfl
  refine ⟨host_linked (start_linked opts host size) hopened,⟨fun coreId => ?_,by simp [Storm.start],
    by simp [Storm.start]⟩,rfl,start_kept size,start_awake size,?_,rfl,rfl,rfl,by simp⟩
  · simp [Storm.start,LiveAt]
  · simp [Storm.start,start_eq]

instance : Inhabited Completion := ⟨⟨⟨[],[],"",[],[]⟩,[],0,[],heard 0 [],0,[]⟩⟩

/-- However the streams are cut and delayed, in whatever order the devices connect, the
sessions take their turns and the workers reply, the whole fleet comes back: every
handshake completes, each session agrees with its own device, the registry shows exactly
the fleet, and the pool has answered everything and is at rest. -/
theorem storm_weathers (hsize : 1 ≤ size)
    (hknown : ∀ a ∈ arrivals, Acquainted opts host loadCoreKey a.device) :
    Eventually (stormStep opts host loadCoreKey) (Weathered size arrivals)
      (Storm.start size arrivals) := by
  have hmeets : ∀ a : Arrival, ∃ (k : Completion) (n : ℕ), a ∈ arrivals →
      Honest opts.node (hostServices host loadCoreKey) opts.serverPrivKeyPem a.draws a.device k ∧
        Meets (hostServices host loadCoreKey) (k.result a.draws) (deviceResult k a.draws) n
          (meet (opts.config a.draws) (hostServices host loadCoreKey) a.device) := by
    intro a
    by_cases ha : a ∈ arrivals
    · obtain ⟨hserver,pem,hdevice,hpem,hload⟩ := hknown a ha
      have hload : (hostServices host loadCoreKey).loadCoreKey (toHex a.device.id)
          a.device.inlineDer = .ok (some pem) := hload
      obtain ⟨k,hk⟩ := honest_exists opts.node a.draws hserver hdevice hpem hload
      have hmeet : Honest (opts.config a.draws).node (hostServices host loadCoreKey)
          (opts.config a.draws).serverPrivKeyPem (opts.config a.draws).draws a.device k := hk
      obtain ⟨n,hn⟩ := meet_meets hmeet
      exact ⟨k,n,fun _ => ⟨hk,hn⟩⟩
    · exact ⟨default,0,fun h => absurd h ha⟩
  choose done cost hdone using hmeets
  have hprogress : ∀ n s, Left opts host loadCoreKey size arrivals done cost n s →
      Weathered size arrivals s ∨ ∃ e t, stormStep opts host loadCoreKey s e = some t := by
    rintro n s ⟨ranks,-,hs⟩
    exact storm_progresses hsize (fun a ha => (hdone a ha).1) hs
  have hdescend : ∀ n s e t, Left opts host loadCoreKey size arrivals done cost n s →
      stormStep opts host loadCoreKey s e = some t →
        ∃ m, m < n ∧ Left opts host loadCoreKey size arrivals done cost m t := by
    rintro n s e t ⟨ranks,rfl,hs⟩ hstep
    obtain ⟨ranks',hlt,hs'⟩ := storm_descends (fun a ha => (hdone a ha).2) hs hstep
    exact ⟨_,hlt,ranks',rfl,hs'⟩
  exact eventually_of_rank hprogress hdescend _ _ ⟨[],rfl,start_storming ..⟩

end Weathering
end Storms

/-- Keys that are their own texts, with the padding of the closed examples. -/
def plainHost : HostRsa String where
  createPublicKey keyPem := .ok keyPem
  createPrivateKey keyPem := .ok keyPem
  publicEncrypt := plainEncrypt
  privateDecrypt _ c := .ok (unpadBlock c)
  privateEncrypt := plainEncrypt
  publicDecrypt _ c := .ok (unpadBlock c)

theorem textRsa_plainHost : textRsa plainHost = plainRsa := by
  have hencrypt : ∀ pem m, pooled plainHost (.encrypt pem m) = plainEncrypt pem m := by
    intro pem m
    have hop : (Task.encrypt pem m).operation plainHost = (plainEncrypt pem m).map Value.bytes := rfl
    rw [pooled,hop]
    unfold plainEncrypt
    split <;> rfl
  have hpublic : (fun pem m => pooled plainHost (.encrypt pem m)) = plainEncrypt :=
    funext fun pem => funext fun m => hencrypt pem m
  have hsign : (fun pem m => pooled plainHost (.sign pem m)) = plainEncrypt := hpublic
  unfold textRsa plainRsa
  rw [hpublic,hsign]
  rfl

/-- Two devices for one worker. -/
def plainFleet : List Arrival :=
  [⟨plainDevice,zeroDraws⟩,⟨{ plainDevice with id := List.replicate 12 1, id_length := rfl },zeroDraws⟩]

theorem storm_weathers_pair : Eventually (stormStep ⟨Crypto.plainNode,"server"⟩ plainHost
      fun _ _ => .ok (some "device")) (Weathered 1 plainFleet) (Storm.start 1 plainFleet) := by
  refine storm_weathers (le_refl 1) fun a ha => ?_
  have hkeys : a.device.serverPubPem = "server" ∧ a.device.privPem = "device" := by
    simp only [plainFleet,List.mem_cons,List.not_mem_nil,or_false] at ha
    rcases ha with rfl | rfl <;> exact ⟨rfl,rfl⟩
  have hmatching := plainRsa_matching
  rw [← textRsa_plainHost] at hmatching
  refine ⟨?_,"device",?_,by decide,rfl⟩
  · rw [hkeys.1]
    exact hmatching "server"
  · rw [hkeys.2]
    exact hmatching "device"
end SparkProtocol.Gateways
