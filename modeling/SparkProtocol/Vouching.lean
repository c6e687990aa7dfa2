import SparkProtocol.Admissions
import SparkProtocol.ApprovedKeys
import SparkProtocol.Isolation

/-!
# Answers that are vouched for

The pool answers for its connections with what the operations give, and the loader, if
its keys are approved, with approved keys. Every session of the host then shows a
handshake whose calls were answered so and which has read what was brought to it, and the
registry has no device but those whose session has taken their id.
-/
namespace SparkProtocol.Gateways
open ByteStrings HostValues StreamPrograms Program Handshake OrderedMaps LabelledRuns Sessions Session
  CryptoPools Pool Gateway
open CoreKeys (isValidDeviceId)

section Vouching
variable {K : Type} (host : HostRsa K) (A : String → String → Prop)

/-- What the answers to a handshake are worth: keys are approved, and the pool's values are
those of the operations. -/
def Vouched : (c : Call) → Answer c → Prop
  | .loadCoreKey coreId _,r => ∀ pem, r = .ok (some pem) → isValidDeviceId coreId = true ∧ A coreId pem
  | .decrypt keyPem ciphertext,r => ∀ b, r = .ok b → pooled host (.decrypt keyPem ciphertext) = .ok b
  | .encrypt keyPem data,r => ∀ b, r = .ok b → pooled host (.encrypt keyPem data) = .ok b
  | .sign keyPem hash,r => ∀ b, r = .ok b → pooled host (.sign keyPem hash) = .ok b

variable {host A} {opts : Options} {g g' : Gateway}

theorem fulfilled_ok {closed : Bool} {t : Task} {v : Except JsError Value} {b : Bytes}
    (h : Fulfils host closed t v) (hb : bufferOf v = .ok b) : pooled host t = .ok b := by
  cases v with
  | error e => cases hb
  | ok v =>
      have hop : t.operation host = .ok v := h
      unfold pooled
      rw [hop]
      exact hb

theorem relay_vouched {call : Call} {t : Task} {closed : Bool} {v : Except JsError Value}
    (htask : rsaTask call = some t) (hv : Fulfils host closed t v) :
    Vouched host A call (relay (bufferOf v) call) := by
  cases call with
  | loadCoreKey _ _ => cases htask
  | _ =>
      obtain rfl := Option.some.inj htask
      exact fun b hb => fulfilled_ok hv hb

/-- Every connection shows a handshake that was answered so, on the bytes brought to it.
Nothing has been brought to a connection that is not there. -/
structure Vouching (host : HostRsa K) (A : String → String → Prop) (opts : Options) (b : ℕ → Bytes)
    (g : Gateway) : Prop where
  grounded : ∀ (i : ℕ) (c : Connection), g.connections[i]? = some c →
    Grounded (Vouched host A) (opts.config c.draws) (b i) c.session
  absent : ∀ i, g.connections[i]? = none → b i = []

theorem Vouching.congr {b b' : ℕ → Bytes} (h : Vouching host A opts b g) (hb : ∀ i, b' i = b i) :
    Vouching host A opts b' g := by
  obtain rfl : b' = b := funext hb
  exact h

theorem brought_session (i j : ℕ) (e : Event) :
    brought i (.gateway (.session j e)) = if j = i then arrivals [e] else [] := by
  cases e <;> simp [brought,arrivals]

theorem given_awaited {s : Session} {e : Event} {c : Call} {a : Answer c}
    (h : given s e = some (.call c a)) : ∃ f, e = .answer f ∧ awaited s = some c ∧ f c = a := by
  cases e with
  | resume =>
      simp only [given] at h
      split at h <;> cases h
  | answer f =>
      simp only [given] at h
      split at h
      · next d k hd =>
          cases h
          exact ⟨f,rfl,by simp only [awaited,hd],rfl⟩
      · cases h
  | _ => simp [given] at h

variable {b : ℕ → Bytes}

theorem deliver_vouching {i : ℕ} {c : Connection} {u : Session} {e : Event} (ht : Tracked opts g)
    (h : Vouching host A opts b g) (hc : g.connections[i]? = some c)
    (hu : step (opts.config c.draws) c.session e = some u)
    (ha : ∀ f call, e = .answer f → awaited c.session = some call → Vouched host A call (f call)) :
    Vouching host A opts (fun j => b j++brought j (.gateway (.session i e))) (g.deliver i c u) := by
  obtain ⟨c',l,hg,hs,hd,-⟩ := (deliver_cases (ht.attended i c hc) hc hu).trace
  have hother : ∀ j, i ≠ j → b j++brought j (.gateway (.session i e)) = b j := by
    intro j hj
    rw [brought_session,if_neg hj,List.append_nil]
  refine ⟨fun j d hd' => ?_,fun j hj => ?_⟩
  · rw [hg] at hd'
    rcases getElem?_set_cases hd' with ⟨rfl,rfl⟩ | ⟨hji,hd'⟩
    · rw [hs,hd,brought_session,if_pos rfl]
      refine grounded_keeps (h.grounded j c hc) hu fun call a hgiven => ?_
      obtain ⟨f,rfl,hcall,rfl⟩ := given_awaited hgiven
      exact ha f call rfl hcall
    · rw [hother j (Ne.symm hji)]
      exact h.grounded j d hd'
  · rw [hg,List.getElem?_eq_none_iff,List.length_set,← List.getElem?_eq_none_iff] at hj
    have hij : i ≠ j := by
      rintro rfl
      cases hc.symm.trans hj
    rw [hother j hij]
    exact h.absent j hj

theorem disconnectAt_vouching (ht : Tracked opts g) (h : Vouching host A opts b g) (i : ℕ) :
    Vouching host A opts b (g.disconnectAt i) := by
  unfold disconnectAt
  split
  · next c hc =>
      have hgone := deliver_vouching (e := .disconnect) ht h hc rfl fun f call hf => by cases hf
      exact hgone.congr fun j => (List.append_nil (b j)).symm
  · exact h

theorem foldl_vouching (l : List ℕ) (ht : Tracked opts g) (h : Vouching host A opts b g) :
    Vouching host A opts b (l.foldl disconnectAt g) := by
  induction l generalizing g with
  | nil => exact h
  | cons i l ih => exact ih (disconnectAt_tracked ht i) (disconnectAt_vouching ht h i)

theorem stop_vouching (ht : Tracked opts g) (h : Vouching host A opts b g) :
    Vouching host A opts b g.stop := by
  unfold stop
  split
  · have hall := foldl_vouching g.sessions ht h
    exact ⟨hall.grounded,hall.absent⟩
  · exact h

theorem accept_vouching (draws : Draws) (h : Vouching host A opts b g) :
    Vouching host A opts b (g.accept opts draws) := by
  refine ⟨fun i c hc => ?_,fun i hi => h.absent i ?_⟩
  · rcases accept_connections opts g draws hc with hc | ⟨rfl,rfl⟩
    · exact h.grounded i c hc
    · rw [h.absent _ (List.getElem?_eq_none le_rfl)]
      exact started_grounded _ (opts.config draws)
  · by_contra hsome
    obtain ⟨c,hc⟩ := Option.ne_none_iff_exists'.mp hsome
    have hi' : (g.connections++[{ draws, session := ({} : Session).run (opts.config draws) }])[i]? =
        none := hi
    rw [getElem?_concat_some hc] at hi'
    cases hi'

/-- A step of the gateway in which what is answered is vouched for. -/
theorem gateway_vouching {e : GatewayEvent} (ht : Tracked opts g) (h : Vouching host A opts b g)
    (hg : gatewayStep opts g e = some g')
    (ha : ∀ i f c call, e = .session i (.answer f) → g.connections[i]? = some c →
      awaited c.session = some call → Vouched host A call (f call)) :
    Vouching host A opts (fun i => b i++brought i (.gateway e)) g' := by
  have hnone : ∀ i, b i++[] = b i := fun i => List.append_nil (b i)
  cases gatewayStep_cases hg with
  | start => exact Vouching.congr ⟨h.grounded,h.absent⟩ hnone
  | accept draws _ => exact (accept_vouching draws h).congr hnone
  | session hc hu =>
      refine deliver_vouching ht h hc hu fun f call hf hcall => ?_
      exact ha _ f _ call (by rw [hf]) hc hcall
  | stop => exact (stop_vouching ht h).congr hnone

/-- A loader answer that is vouched for. -/
def Loaded (A : String → String → Prop) (g : Gateway) : HostEvent → Prop
  | .loaded i r => ∀ coreId inlineDer, awaitedAt g i = some (.loadCoreKey coreId inlineDer) →
      ∀ pem, r = .ok (some pem) → isValidDeviceId coreId = true ∧ A coreId pem
  | _ => True

theorem host_vouching {h h' : Host K} {e : HostEvent} (hl : Linked opts host h)
    (hv : Vouching host A opts b h.gateway) (hload : Loaded A h.gateway e)
    (hstep : hostStep opts host h e = some h') :
    Vouching host A opts (fun i => b i++brought i e) h'.gateway := by
  cases hostStep_cases hstep with
  | @continues i e g hgo hg =>
      rw [went_gateway]
      refine gateway_vouching hl.tracked hv hg fun j f c call hf _ _ => ?_
      cases hf
      cases hgo
  | stands _ ha hg =>
      refine gateway_vouching hl.tracked hv hg fun j f c call hf _ _ => ?_
      cases hf
      exact absurd rfl (ha f)
  | accept hg => exact gateway_vouching hl.tracked hv hg fun j f c call hf _ _ => by cases hf
  | start hg => exact gateway_vouching hl.tracked hv hg fun j f c call hf _ _ => by cases hf
  | stop hg => exact gateway_vouching hl.tracked hv hg fun j f c call hf _ _ => by cases hf
  | settled hp hset hg =>
      rw [went_gateway]
      refine gateway_vouching hl.tracked hv hg fun j f c call hf hc hcall => ?_
      cases hf
      obtain ⟨t,htask,hful⟩ := settled_owned hl hc hcall hp hset
      exact relay_vouched htask hful
  | loaded hc hawait hg =>
      rw [went_gateway]
      refine gateway_vouching hl.tracked hv hg fun j f d call hf hd hcall => ?_
      cases hf
      obtain rfl := Option.some.inj (hc.symm.trans hd)
      obtain rfl := Option.some.inj (hawait.symm.trans hcall)
      exact hload _ _ ((awaitedAt_some hc).trans hawait)
  | pool _ => exact hv.congr fun i => List.append_nil (b i)

end Vouching

section Filing
variable {opts : Options} {i : ℕ}

/-- A device of the registry has the session that it is registered with. -/
def Enrolled (g : Gateway) : Prop :=
  ∀ id i, g.registry.get id = some i → ∃ c, g.connections[i]? = some c ∧ c.session.coreId = some id

theorem deliver_enrolled {g : Gateway} {c : Connection} {u : Session} {e : Event} (ht : Tracked opts g)
    (hf : Enrolled g) (hc : g.connections[i]? = some c)
    (hu : step (opts.config c.draws) c.session e = some u) : Enrolled (g.deliver i c u) := by
  have hattended := ht.attended i c hc
  obtain ⟨c',-,rfl,hg,hshifts,-⟩ := deliver_shape hattended hc hu
  have hkept : (∀ id, c.session.coreId = some id → c'.session.coreId = some id) →
      ∀ id j, g.registry.get id = some j →
        ∃ d, (g.deliver i c c'.session).connections[j]? = some d ∧ d.session.coreId = some id := by
    intro hid id j hj
    obtain ⟨d,hd,hname⟩ := hf id j hj
    rw [hg]
    by_cases hji : j = i
    · subst hji
      obtain rfl := Option.some.inj (hc.symm.trans hd)
      exact ⟨c',getElem?_set_at hc c',hid id hname⟩
    · exact ⟨d,by rw [List.getElem?_set_ne (Ne.symm hji),hd],hname⟩
  intro id j hj
  generalize (g.deliver i c c'.session).registry = registry at hshifts hj
  cases hshifts with
  | quiet _ hsame => exact hkept (fun id hid => hsame.trans hid) id j hj
  | again hm _ => exact hkept (fun id hid => hm.coreId.trans hid) id j hj
  | closing hm _ =>
      refine hkept (fun id hid => hm.coreId.trans hid) id j ?_
      unfold unregister at hj
      split at hj
      · next old hold =>
          by_cases hid : id = old
          · subst hid
            simp at hj
          · rwa [OrderedMap.get_delete_ne _ hid] at hj
      · exact hj
  | @opening r hm hnew =>
      by_cases hid : id = r.coreId
      · subst hid
        rw [OrderedMap.get_set_self] at hj
        obtain rfl := Option.some.inj hj
        rw [hg]
        exact ⟨c',getElem?_set_at hc c',hm.coreId⟩
      · rw [OrderedMap.get_set_ne _ _ hid] at hj
        exact hkept (fun id hid => absurd (hattended.named.mpr ⟨id,hid⟩) hnew) id j hj

theorem foldl_enrolled {g : Gateway} (l : List ℕ) (ht : Tracked opts g) (hf : Enrolled g) :
    Enrolled (l.foldl disconnectAt g) := by
  induction l generalizing g with
  | nil => exact hf
  | cons i l ih =>
      refine ih (disconnectAt_tracked ht i) ?_
      unfold disconnectAt
      split
      · next c hc => exact deliver_enrolled (e := .disconnect) ht hf hc rfl
      · exact hf

theorem gateway_enrolled {g g' : Gateway} {e : GatewayEvent} (ht : Tracked opts g) (hf : Enrolled g)
    (hg : gatewayStep opts g e = some g') : Enrolled g' := by
  cases gatewayStep_cases hg with
  | start => exact hf
  | accept draws _ =>
      intro id i hi
      obtain ⟨c,hc,hid⟩ := hf id i hi
      exact ⟨c,getElem?_concat_some hc _,hid⟩
  | session hc hu => exact deliver_enrolled ht hf hc hu
  | stop =>
      unfold stop
      split
      · exact foldl_enrolled g.sessions ht hf
      · exact hf

theorem host_enrolled {K : Type} {host : HostRsa K} {h h' : Host K} {e : HostEvent}
    (hl : Linked opts host h) (hf : Enrolled h.gateway) (hstep : hostStep opts host h e = some h') :
    Enrolled h'.gateway := by
  cases host_moves hl hstep with
  | still hg => exact hg ▸ hf
  | moves hg _ => exact gateway_enrolled hl.tracked hf hg

end Filing

end SparkProtocol.Gateways
