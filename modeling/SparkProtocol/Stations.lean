import SparkProtocol.Vouching

/-!
# The gateway with its directory of core keys

A handshake that comes to stage 3 makes a call of the loader and takes up what the call
has come to. The calls of all connections and of other callers interleave at their
operations on one directory, some fail, and an operator promotes keys. Let some keys be
approved: those that the directory holds at the start, and each that the operator
promotes. Then no session key leaves the gateway but under an approved key of a device
whose first bytes, decrypted, echo the nonce, and no session takes the id of any other
device.
-/
namespace SparkProtocol.Gateways
open ByteStrings HostValues StreamPrograms Program Handshake OrderedMaps LabelledRuns Sessions Session
  CryptoPools Pool Gateway
open CoreKeys (KeyStore DeskEvent LoaderCall FsError Directory Sound canonicalName quarantineName
  isValidDeviceId deskStep)

/-- The host, the directory, and the loader call that each connection awaits. -/
structure Station (K : Type) where
  host : Host K
  store : KeyStore
  lookups : List (Option ℕ) := []

inductive StationEvent where
  | host (e : HostEvent)
  /-- `run()` of a connection takes up what its call of the loader has come to. -/
  | loaded (i : ℕ)
  /-- The operations of the loader's calls, calls by others, and the operator. -/
  | desk (e : DeskEvent)

/-- The key that connection `i` is waiting for. -/
def lookupAt (g : Gateway) (i : ℕ) : Option (String × Option Bytes) :=
  match awaitedAt g i with
  | some (.loadCoreKey coreId inlineDer) => some (coreId,inlineDer)
  | _ => none

namespace Station
variable {K : Type}

def start (size : ℕ) (dir : Directory) : Station K := { host := Host.start size, store := { dir } }

/-- `run()` of connection `i` has gone on, and has called the loader if that is what it
awaits now. -/
def went (s : Station K) (i : ℕ) (h : Host K) : Station K :=
  match lookupAt h.gateway i with
  | some (coreId,inlineDer) =>
      { host := h
        store := { s.store with
          calls := s.store.calls++[⟨coreId,inlineDer,CoreKeys.loadCoreKey coreId inlineDer⟩] }
        lookups := s.lookups.set i (some s.store.calls.length) }
  | none => ⟨h,s.store,s.lookups.set i none⟩

end Station

/-- A rejection reaches the handshake as the error that it is. -/
def rejection (r : Except FsError (Option String)) : Except JsError (Option String) :=
  r.mapError FsError.toJsError

/-- The connection whose `run()` goes on. -/
def HostEvent.mover : HostEvent → Option ℕ
  | .gateway (.session i e) => if goesOn e then some i else none
  | .settled i => some i
  | .loaded i _ => some i
  | _ => none

/-- Where a step of the host leaves the loader. -/
def Station.after {K : Type} (s : Station K) (e : HostEvent) (h : Host K) : Station K :=
  match e with
  | .gateway (.accept _) => { s with host := h, lookups := s.lookups++[none] }
  | e =>
      match e.mover with
      | some i => s.went i h
      | none => { s with host := h }

/-- The operator promotes files that no call is writing: such a write would go on under
the new name. -/
def stationStep {K : Type} (opts : Options) (host : HostRsa K) (s : Station K) :
    StationEvent → Option (Station K)
  | .host (.loaded _ _) => none
  | .host e => (hostStep opts host s.host e).map (s.after e)
  | .loaded i =>
      match s.lookups[i]? with
      | some (some n) =>
          (s.store.outcomeOf n).bind fun r =>
            (hostStep opts host s.host (.loaded i (rejection r))).map (s.went i)
      | _ => none
  | .desk (.promote coreId) =>
      if s.store.isWriting (quarantineName coreId) then none
      else (deskStep s.store (.promote coreId)).map fun store => { s with store }
  | .desk e => (deskStep s.store e).map fun store => { s with store }

/-- The bytes that an event brings to connection `i`. -/
def StationEvent.brings (i : ℕ) : StationEvent → Bytes
  | .host e => brought i e
  | _ => []

def broughtTo (i : ℕ) (es : List StationEvent) : Bytes := es.flatMap (StationEvent.brings i)

/-- A step of the station, by its event. -/
inductive StationTakes {K : Type} (opts : Options) (host : HostRsa K) (s : Station K) :
    StationEvent → Station K → Prop
  | host {e : HostEvent} {h : Host K} : (∀ i r, e ≠ .loaded i r) → hostStep opts host s.host e = some h →
      StationTakes opts host s (.host e) (s.after e h)
  | loaded {i n : ℕ} {r : Except FsError (Option String)} {h : Host K} :
      s.lookups[i]? = some (some n) → s.store.outcomeOf n = some r →
      hostStep opts host s.host (.loaded i (rejection r)) = some h →
      StationTakes opts host s (.loaded i) (s.went i h)
  | desk {e : DeskEvent} {store : KeyStore} : deskStep s.store e = some store →
      StationTakes opts host s (.desk e) { s with store }

theorem stationStep_cases {K : Type} {opts : Options} {host : HostRsa K} {s t : Station K}
    {e : StationEvent} (h : stationStep opts host s e = some t) : StationTakes opts host s e t := by
  cases e with
  | host e =>
      have hnot : ∀ i r, e ≠ .loaded i r := by
        rintro i r rfl
        cases h
      have hstep : (hostStep opts host s.host e).map (s.after e) = some t := by
        cases e with
        | loaded i r => exact absurd rfl (hnot i r)
        | _ => exact h
      obtain ⟨h',hh,rfl⟩ := Option.map_eq_some_iff.mp hstep
      exact .host hnot hh
  | loaded i =>
      dsimp only [stationStep] at h
      split at h
      · next n hn =>
          obtain ⟨r,hr,h⟩ := Option.bind_eq_some_iff.mp h
          obtain ⟨h',hh,rfl⟩ := Option.map_eq_some_iff.mp h
          exact .loaded hn hr hh
      · cases h
  | desk e =>
      have hstep : (deskStep s.store e).map (fun store => { s with store }) = some t := by
        cases e with
        | traffic e => exact h
        | promote coreId =>
            dsimp only [stationStep] at h
            split at h
            · cases h
            · exact h
      obtain ⟨store,hstore,rfl⟩ := Option.map_eq_some_iff.mp hstep
      exact .desk hstore

section Movers
variable {K : Type} {opts : Options} {host : HostRsa K} {h h' : Host K} {i : ℕ} {e : HostEvent}

/-- When `run()` of a connection goes on, the others stay where they are. -/
theorem mover_others (hl : Linked opts host h) (hstep : hostStep opts host h e = some h')
    (hm : e.mover = some i) : h'.gateway.connections.length = h.gateway.connections.length ∧
      ∀ j ≠ i, awaitedAt h'.gateway j = awaitedAt h.gateway j := by
  have hsession : ∀ {j : ℕ} {e : Event} {g : Gateway}, gatewayStep opts h.gateway (.session j e) = some g →
      g.connections.length = h.gateway.connections.length ∧
        ∀ k ≠ j, awaitedAt g k = awaitedAt h.gateway k := by
    intro j e g hg
    cases gatewayStep_cases hg with
    | session hc hu =>
        obtain ⟨hlength,hothers⟩ := deliver_others hl.tracked hc hu
        exact ⟨hlength,fun k hk => by rw [awaitedAt,hothers k hk,awaitedAt]⟩
  cases hostStep_cases hstep with
  | continues hgo hg =>
      obtain rfl : _ = i := by simpa [HostEvent.mover,hgo] using hm
      rw [went_gateway]
      exact hsession hg
  | stands hgo _ _ => simp [HostEvent.mover,hgo] at hm
  | settled _ _ hg =>
      obtain rfl := Option.some.inj hm
      rw [went_gateway]
      exact hsession hg
  | loaded _ _ hg =>
      obtain rfl := Option.some.inj hm
      rw [went_gateway]
      exact hsession hg
  | _ => cases hm

/-- When no `run()` goes on and no connection joins, all stay where they are. -/
theorem mover_none (hl : Linked opts host h) (hstep : hostStep opts host h e = some h')
    (hm : e.mover = none) (ha : ∀ draws, e ≠ .gateway (.accept draws)) :
    Standing h.gateway h'.gateway := by
  cases hostStep_cases hstep with
  | continues hgo _ => simp [HostEvent.mover,hgo] at hm
  | stands hgo hans hg =>
      cases gatewayStep_cases hg with
      | session hc hu => exact deliver_standing hl.tracked hc hu (step_control hu hgo hans)
  | accept _ => exact absurd rfl (ha _)
  | start hg =>
      cases gatewayStep_cases hg with
      | start => exact ⟨rfl,fun _ => rfl⟩
  | stop hg =>
      cases gatewayStep_cases hg with
      | stop => exact stop_standing hl.tracked
  | settled _ _ _ => cases hm
  | loaded _ _ _ => cases hm
  | pool _ => exact .refl _

theorem lookupAt_congr {g g' : Gateway} {j : ℕ} (h : awaitedAt g' j = awaitedAt g j) :
    lookupAt g' j = lookupAt g j := by
  unfold lookupAt
  rw [h]

theorem lookupAt_some {g : Gateway} {coreId : String} {inlineDer : Option Bytes}
    (h : awaitedAt g i = some (.loadCoreKey coreId inlineDer)) :
    lookupAt g i = some (coreId,inlineDer) := by
  unfold lookupAt
  rw [h]

end Movers

section Housing
variable {K : Type} (A : String → String → Prop) (opts : Options) (host : HostRsa K)

/-- A connection that waits for a key waits for a call of the loader for its own device. -/
structure Lookups (g : Gateway) (store : KeyStore) (lookups : List (Option ℕ)) : Prop where
  length : lookups.length = g.connections.length
  owned : ∀ i coreId inlineDer, lookupAt g i = some (coreId,inlineDer) → ∃ n call,
    lookups[i]? = some (some n) ∧ store.calls[n]? = some call ∧ call.coreId = coreId

/-- What a station keeps, with the bytes that have been brought to each connection. -/
structure Housed (b : ℕ → Bytes) (s : Station K) : Prop where
  linked : Linked opts host s.host
  lookups : Lookups s.host.gateway s.store s.lookups
  sound : Sound A s.store
  vouching : Vouching host A opts b s.host.gateway
  enrolled : Enrolled s.host.gateway

variable {A opts host} {s t : Station K} {h : Host K} {i : ℕ} {b : ℕ → Bytes}

theorem lookupAt_lt {g : Gateway} {p : String × Option Bytes} (h : lookupAt g i = some p) :
    i < g.connections.length := by
  by_contra hge
  have hnone : awaitedAt g i = none := by
    rw [awaitedAt,List.getElem?_eq_none (not_lt.mp hge),Option.bind_none]
  unfold lookupAt at h
  rw [hnone] at h
  cases h

theorem went_lookups (hp : Lookups s.host.gateway s.store s.lookups)
    (hlength : h.gateway.connections.length = s.host.gateway.connections.length)
    (hothers : ∀ j ≠ i, awaitedAt h.gateway j = awaitedAt s.host.gateway j) :
    Lookups (s.went i h).host.gateway (s.went i h).store (s.went i h).lookups := by
  have hold : ∀ j ≠ i, ∀ coreId inlineDer, lookupAt h.gateway j = some (coreId,inlineDer) →
      ∃ n call, s.lookups[j]? = some (some n) ∧ s.store.calls[n]? = some call ∧
        call.coreId = coreId := by
    intro j hj coreId inlineDer hlook
    exact hp.owned j coreId inlineDer ((lookupAt_congr (hothers j hj)).symm.trans hlook)
  unfold Station.went
  split
  · next coreId inlineDer hlook =>
      refine ⟨by rw [List.length_set,hp.length,hlength],fun j coreId' inlineDer' hj => ?_⟩
      dsimp only at hj ⊢
      by_cases hji : j = i
      · subst hji
        obtain ⟨rfl,rfl⟩ := Prod.mk.inj (Option.some.inj (hlook.symm.trans hj))
        have hlt : j < s.lookups.length := by
          rw [hp.length,← hlength]
          exact lookupAt_lt hj
        exact ⟨_,_,List.getElem?_set_self hlt,List.getElem?_concat_length,rfl⟩
      · obtain ⟨n,call,hn,hcall,hid⟩ := hold j hji coreId' inlineDer' hj
        exact ⟨n,call,by rw [List.getElem?_set_ne (Ne.symm hji),hn],getElem?_concat_some hcall _,hid⟩
  · next hlook =>
      refine ⟨by rw [List.length_set,hp.length,hlength],fun j coreId inlineDer hj => ?_⟩
      dsimp only at hj ⊢
      by_cases hji : j = i
      · subst hji
        rw [hlook] at hj
        cases hj
      · rw [List.getElem?_set_ne (Ne.symm hji)]
        exact hold j hji coreId inlineDer hj

/-- The calls of the loader are there to stay. -/
theorem desk_call {store store' : KeyStore} {e : DeskEvent} (h : deskStep store e = some store')
    {n : ℕ} {c : LoaderCall} (hc : store.calls[n]? = some c) :
    ∃ c', store'.calls[n]? = some c' ∧ c'.coreId = c.coreId := by
  have hset : ∀ {j : ℕ} {d d' : LoaderCall}, store.calls[j]? = some d → d'.coreId = d.coreId →
      ∃ c', (store.calls.set j d')[n]? = some c' ∧ c'.coreId = c.coreId := by
    intro j d d' hd hid
    by_cases hjn : j = n
    · subst hjn
      obtain rfl := Option.some.inj (hd.symm.trans hc)
      exact ⟨d',getElem?_set_at hd d',hid⟩
    · exact ⟨c,by rw [List.getElem?_set_ne hjn,hc],rfl⟩
  cases e with
  | promote coreId =>
      obtain ⟨-,text,-,rfl⟩ := CoreKeys.promote_eq h
      exact ⟨c,hc,rfl⟩
  | traffic e =>
      cases CoreKeys.storeStep_cases h with
      | invoke coreId inlineDer => exact ⟨c,getElem?_concat_some hc _,rfl⟩
      | finish hi => exact hset hi rfl
      | writing _ => exact ⟨c,hc,rfl⟩
      | fault hi _ => exact hset hi rfl

theorem went_sound (hs : Sound A s.store) : Sound A (s.went i h).store := by
  unfold Station.went
  split
  · next coreId inlineDer _ => exact hs.traffic (e := .invoke coreId inlineDer) rfl
  · exact hs

theorem went_host (s : Station K) (i : ℕ) (h : Host K) : (s.went i h).host = h := by
  unfold Station.went
  split <;> rfl

/-- The operator promotes approved keys. -/
def Approves (A : String → String → Prop) (s : Station K) : StationEvent → Prop
  | .desk (.promote coreId) => ∀ text, s.store.dir (quarantineName coreId) = some text → A coreId text
  | _ => True

theorem housed_went {e : HostEvent} (hs : Housed A opts host b s)
    (hload : Loaded A s.host.gateway e) (hm : e.mover = some i)
    (hstep : hostStep opts host s.host e = some h) :
    Housed A opts host (fun j => b j++brought j e) (s.went i h) := by
  obtain ⟨hlength,hothers⟩ := mover_others hs.linked hstep hm
  refine ⟨?_,went_lookups hs.lookups hlength hothers,went_sound hs.sound,?_,?_⟩
  · rw [went_host]
    exact host_linked hs.linked hstep
  · rw [went_host]
    exact host_vouching hs.linked hs.vouching hload hstep
  · rw [went_host]
    exact host_enrolled hs.linked hs.enrolled hstep

/-- A session that starts awaits the first message, and no key. -/
theorem accept_lookupAt {g : Gateway} {draws : Draws} {j : ℕ} :
    lookupAt (g.accept opts draws) j = lookupAt g j := by
  have hg : (g.accept opts draws).connections =
      g.connections++[{ draws, session := ({} : Session).run (opts.config draws) }] := rfl
  have hstart : awaited (({} : Session).run (opts.config draws)) = none := rfl
  refine lookupAt_congr ?_
  rw [awaitedAt,awaitedAt,hg]
  rcases lt_trichotomy j g.connections.length with hlt | rfl | hgt
  · rw [List.getElem?_append_left hlt]
  · rw [List.getElem?_concat_length,Option.bind_some,hstart,List.getElem?_eq_none le_rfl]
    rfl
  · rw [List.getElem?_eq_none (by rw [List.length_append,List.length_singleton]; omega),
      List.getElem?_eq_none hgt.le]

theorem accept_lookups {g : Gateway} {store : KeyStore} {lookups : List (Option ℕ)} (draws : Draws)
    (hp : Lookups g store lookups) : Lookups (g.accept opts draws) store (lookups++[none]) := by
  refine ⟨?_,fun i coreId inlineDer hi => ?_⟩
  · have hg : (g.accept opts draws).connections =
        g.connections++[{ draws, session := ({} : Session).run (opts.config draws) }] := rfl
    rw [hg,List.length_append,List.length_append,hp.length,List.length_singleton,List.length_singleton]
  · rw [accept_lookupAt] at hi
    obtain ⟨n,call,hn,hcall,hid⟩ := hp.owned i coreId inlineDer hi
    exact ⟨n,call,getElem?_concat_some hn _,hcall,hid⟩

theorem Standing.lookups {g g' : Gateway} {store : KeyStore} {lookups : List (Option ℕ)}
    (hs : Standing g g') (hp : Lookups g store lookups) : Lookups g' store lookups := by
  refine ⟨hp.length.trans hs.length.symm,fun i coreId inlineDer hi => ?_⟩
  rw [lookupAt_congr (hs.awaits i)] at hi
  exact hp.owned i coreId inlineDer hi

/-- What the loader's call has come to holds for the connection that made it. -/
theorem outcome_loaded {n : ℕ} {r : Except FsError (Option String)} (hs : Housed A opts host b s)
    (hn : s.lookups[i]? = some (some n)) (hr : s.store.outcomeOf n = some r) :
    Loaded A s.host.gateway (.loaded i (rejection r)) := by
  intro coreId inlineDer hawait pem hpem
  obtain ⟨m,call,hm,hcall,rfl⟩ := hs.lookups.owned i coreId inlineDer (lookupAt_some hawait)
  obtain rfl := Option.some.inj (Option.some.inj (hn.symm.trans hm))
  cases r with
  | error err => cases hpem
  | ok found =>
      obtain rfl := Except.ok.inj hpem
      obtain ⟨call',hcall',happroved⟩ := hs.sound.outcome hr
      obtain rfl := Option.some.inj (hcall.symm.trans hcall')
      exact happroved

theorem housed_host {e : HostEvent} (hs : Housed A opts host b s) (hnot : ∀ i r, e ≠ .loaded i r)
    (hstep : hostStep opts host s.host e = some h) :
    Housed A opts host (fun j => b j++brought j e) (s.after e h) := by
  have hload : Loaded A s.host.gateway e := by
    cases e with
    | loaded i r => exact absurd rfl (hnot i r)
    | _ => trivial
  have hlinked := host_linked hs.linked hstep
  have hvouching := host_vouching hs.linked hs.vouching hload hstep
  have henrolled := host_enrolled hs.linked hs.enrolled hstep
  unfold Station.after
  split
  · next draws =>
      refine ⟨hlinked,?_,hs.sound,hvouching,henrolled⟩
      cases hostStep_cases hstep with
      | accept hg =>
          cases gatewayStep_cases hg with
          | accept _ _ => exact accept_lookups draws hs.lookups
  · next haccept =>
      split
      · next i hm => exact housed_went hs hload hm hstep
      · next hm =>
          have hstanding := mover_none hs.linked hstep hm fun draws => haccept draws
          exact ⟨hlinked,hstanding.lookups hs.lookups,hs.sound,hvouching,henrolled⟩

theorem housed_desk {e : DeskEvent} {store : KeyStore} (hs : Housed A opts host b s)
    (ha : Approves A s (.desk e)) (hstore : deskStep s.store e = some store) :
    Housed A opts host b { s with store } := by
  refine ⟨hs.linked,⟨hs.lookups.length,fun i coreId inlineDer hi => ?_⟩,?_,hs.vouching,hs.enrolled⟩
  · obtain ⟨n,call,hn,hcall,rfl⟩ := hs.lookups.owned i coreId inlineDer hi
    obtain ⟨call',hcall',hid⟩ := desk_call hstore hcall
    exact ⟨n,call',hn,hcall',hid⟩
  · cases e with
    | traffic e => exact hs.sound.traffic hstore
    | promote coreId => exact hs.sound.promote ha hstore

theorem Housed.congr {b' : ℕ → Bytes} (hs : Housed A opts host b s) (hb : ∀ j, b' j = b j) :
    Housed A opts host b' s :=
  ⟨hs.linked,hs.lookups,hs.sound,hs.vouching.congr hb,hs.enrolled⟩

/-- A station keeps what it keeps, in every step. -/
theorem housed_keeps {e : StationEvent} (hs : Housed A opts host b s) (ha : Approves A s e)
    (hstep : stationStep opts host s e = some t) :
    Housed A opts host (fun j => b j++e.brings j) t := by
  cases stationStep_cases hstep with
  | host hnot hh => exact housed_host hs hnot hh
  | loaded hn hr hh => exact housed_went hs (outcome_loaded hs hn hr) rfl hh
  | desk hstore => exact (housed_desk hs ha hstore).congr fun j => List.append_nil (b j)

theorem housed_run {es : List StationEvent} (hs : Housed A opts host b s)
    (hrun : Run (stationStep opts host) s es t)
    (ha : Throughout (stationStep opts host) (Approves A) s es) :
    Housed A opts host (fun j => b j++broughtTo j es) t := by
  induction hrun generalizing b with
  | nil _ => exact hs.congr fun j => List.append_nil (b j)
  | cons hstep _ ih =>
      refine (ih (housed_keeps hs ha.1 hstep) (ha.2 _ hstep)).congr fun j => ?_
      rw [broughtTo,List.flatMap_cons,List.append_assoc]
      rfl

theorem start_housed {size : ℕ} {dir : Directory}
    (hdir : ∀ coreId pem, isValidDeviceId coreId = true → dir (canonicalName coreId) = some pem →
      A coreId pem) : Housed A opts host (fun _ => []) (.start size dir) := by
  refine ⟨start_linked opts host size,⟨rfl,fun i coreId inlineDer hi => ?_⟩,⟨?_,hdir,?_⟩,⟨?_,?_⟩,?_⟩
  · exact absurd (lookupAt_lt hi) (Nat.not_lt_zero i)
  · intro c hc
    cases hc
  · intro c hc
    cases hc
  · intro i c hc
    cases hc
  · exact fun i _ => rfl
  · intro id i hi
    cases hi

/-- The second write of a connection, or the id that it has taken, with what is behind it:
the first message among the bytes `b` that were brought to it, and what came of that. -/
structure Admitted (host : HostRsa K) (A : String → String → Prop) (opts : Options) (b : Bytes)
    (c : Connection) (k : Credentials) : Prop where
  size : k.ciphertext.length = 256
  received : k.ciphertext <+: b
  valid : k.Valid c.draws
  decrypted : pooled host (.decrypt opts.serverPrivKeyPem k.ciphertext) = .ok k.plaintext
  deviceId : isValidDeviceId k.coreId = true
  approved : A k.coreId k.key
  encrypted : pooled host (.encrypt k.key c.draws.sessionKey) = .ok k.sessionCiphertext
  signed : pooled host (.sign opts.serverPrivKeyPem
    (Crypto.hmacSha1 opts.node k.sessionCiphertext c.draws.sessionKey)) = .ok k.signature
  wire : [c.draws.nonce,k.sessionCiphertext++k.signature] <+: wire c.session.trace
  coreId : ∀ id, c.session.coreId = some id → id = k.coreId

theorem disclosing_admitted {b : Bytes} {c : Connection} {k : Credentials}
    (h : Disclosing (Vouched host A) (opts.config c.draws) b c.session k) :
    Admitted host A opts b c k := by
  have hcall : ∀ call a, .call call a ∈ transcript opts.node opts.serverPrivKeyPem c.draws k →
      Vouched host A call a := fun call a hm => h.backed call a hm
  have hkey := hcall (.loadCoreKey k.coreId k.inlineDer) (Except.ok (some k.key))
    (by simp [transcript,keyLookup]) k.key rfl
  exact
    { size := h.size
      received := h.received
      valid := h.valid
      decrypted := hcall (.decrypt opts.serverPrivKeyPem k.ciphertext) (Except.ok k.plaintext)
        (by simp [transcript,identification]) k.plaintext rfl
      deviceId := hkey.1
      approved := hkey.2
      encrypted := hcall (.encrypt k.key c.draws.sessionKey) (Except.ok k.sessionCiphertext)
        (by simp [transcript,disclosure]) k.sessionCiphertext rfl
      signed := hcall (.sign opts.serverPrivKeyPem _) (Except.ok k.signature)
        (by simp [transcript,disclosure]) k.signature rfl
      wire := h.wire
      coreId := h.coreId }

/-- Whatever comes between, a key goes out and a device is registered only on the strength
of an approved key, and of what the connection itself was sent first. -/
theorem station_admits_approved {size : ℕ} {dir : Directory} {es : List StationEvent}
    (hdir : ∀ coreId pem, isValidDeviceId coreId = true → dir (canonicalName coreId) = some pem →
      A coreId pem)
    (hrun : Run (stationStep opts host) (.start size dir) es s)
    (ha : Throughout (stationStep opts host) (Approves A) (.start size dir) es) :
    (∀ (i : ℕ) (c : Connection), s.host.gateway.connections[i]? = some c →
      2 ≤ (wire c.session.trace).length ∨ c.session.coreId ≠ none →
        ∃ k, Admitted host A opts (broughtTo i es) c k) ∧
    ∀ id i, s.host.gateway.registry.get id = some i →
      isValidDeviceId id = true ∧ ∃ pem, A id pem := by
  have hs := housed_run (start_housed hdir) hrun ha
  have hconnections : ∀ (i : ℕ) (c : Connection), s.host.gateway.connections[i]? = some c →
      2 ≤ (wire c.session.trace).length ∨ c.session.coreId ≠ none →
        ∃ k, Admitted host A opts (broughtTo i es) c k := by
    intro i c hc hgone
    obtain ⟨k,hk⟩ := (hs.vouching.grounded i c hc).discloses hgone
    exact ⟨k,disclosing_admitted hk⟩
  refine ⟨hconnections,fun id i hi => ?_⟩
  obtain ⟨c,hc,hid⟩ := hs.enrolled id i hi
  obtain ⟨k,hk⟩ := hconnections i c hc (.inr (by rw [hid]; exact Option.some_ne_none id))
  obtain rfl := hk.coreId id hid
  exact ⟨hk.deviceId,k.key,hk.approved⟩

end Housing

instance (A : String → String → Prop) [∀ coreId pem, Decidable (A coreId pem)] {K : Type}
    (s : Station K) : (e : StationEvent) → Decidable (Approves A s e)
  | .host _ => .isTrue trivial
  | .loaded _ => .isTrue trivial
  | .desk (.traffic _) => .isTrue trivial
  | .desk (.promote coreId) =>
      match hq : s.store.dir (quarantineName coreId) with
      | some text => decidable_of_iff (A coreId text) (by simp [Approves,hq])
      | none => .isTrue (by simp [Approves,hq])

/-- The all-zero device sends a key along. -/
def offeringHost : HostRsa Unit where
  __ := zeroHost
  privateDecrypt _ _ := .ok (List.replicate 52 0++[7])

/-- A device that nobody knows is refused, its key is promoted, and the device comes again. -/
def stationEvents : List StationEvent :=
  let greeting := List.replicate 256 0++[0,16,0xFF,0x50,2,0,1]++List.replicate 12 12
  [.host (.gateway .start),.host (.gateway (.accept zeroDraws)),
    .host (.gateway (.session 0 (.data greeting))),.host (.gateway (.session 0 .resume)),
    .host (.pool (.reply 0)),.host (.settled 0),.desk (.traffic (.finish 0)),
    .desk (.traffic (.finish 0)),.desk (.traffic (.finish 0)),.loaded 0,
    .desk (.promote "000000000000000000000000"),.host (.gateway (.accept zeroDraws)),
    .host (.gateway (.session 1 (.data greeting))),.host (.gateway (.session 1 .resume)),
    .host (.pool (.reply 0)),.host (.settled 1),.desk (.traffic (.finish 1)),.loaded 1,
    .host (.pool (.reply 0)),.host (.settled 1),.host (.pool (.reply 0)),.host (.settled 1),
    .host (.gateway (.session 1 .resume)),.host (.gateway (.session 1 .resume))]

/-- The one approved key. -/
abbrev OfferedKey (coreId pem : String) : Prop :=
  coreId = "000000000000000000000000" ∧ pem = CoreKeys.derToPem [7]

theorem station_admits_approved_promoted : ∃ (c : Connection) (k : Credentials),
    c.Live "000000000000000000000000" ∧ k.key = CoreKeys.derToPem [7] ∧
      Admitted offeringHost OfferedKey ⟨Crypto.plainNode,"server"⟩ (broughtTo 1 stationEvents) c k := by
  have hobs : (exec (stationStep ⟨Crypto.plainNode,"server"⟩ offeringHost)
      (.start 1 fun _ => none) stationEvents).map (fun s =>
        s.host.gateway.connections[1]?.map fun c => decide (c.Live "000000000000000000000000")) =
      some (some true) := by
    decide +kernel
  have happroves : Throughout (stationStep ⟨Crypto.plainNode,"server"⟩ offeringHost)
      (Approves OfferedKey) (.start 1 fun _ => none) stationEvents := by
    decide +kernel
  obtain ⟨s,hrun,hs⟩ := Run.of_observation _ hobs
  obtain ⟨c,hc,hl⟩ := Option.map_eq_some_iff.mp hs
  have hlive := of_decide_eq_true hl
  obtain ⟨k,hk⟩ := (station_admits_approved (fun _ _ _ h => by cases h) hrun happroves).1 1 c hc
    (.inr (by rw [hlive.coreId]; exact Option.some_ne_none _))
  exact ⟨c,k,hlive,hk.approved.2,hk⟩

end SparkProtocol.Gateways
