import SparkProtocol.Promotion

/-!
# Approved keys

Let some keys be approved. A directory that holds only such keys under the names that
are trusted stays so, whatever the calls of the loader do and in whichever order, as long
as the operator promotes approved keys. What a call resolves with is then approved too.
-/
namespace SparkProtocol.CoreKeys
open ByteStrings HostValues StreamPrograms Program LabelledRuns

section Approval
variable (A : String → String → Prop)

/-- The directory holds approved keys only, and so do the calls that have found one. -/
structure Sound (s : KeyStore) : Prop where
  placed : Placed s
  canonical : ∀ coreId pem, isValidDeviceId coreId = true →
    s.dir (canonicalName coreId) = some pem → A coreId pem
  resolved : ∀ c ∈ s.calls, ∀ pem, c.program = .done (some pem) →
    isValidDeviceId c.coreId = true ∧ A c.coreId pem

variable {A} {s t : KeyStore}

theorem looked_error_found {coreId pem : String} {inlineDer : Option Bytes} {err : FsError} :
    looked coreId inlineDer (.error err) ≠ .done (some pem) := by
  simp only [looked,missing]
  split_ifs
  · simp
  · split
    · simp
    · split_ifs <;> simp

/-- Only a canonical file that was read makes a call resolve with a key. -/
theorem performed_found {dir : Directory} {coreId pem : String} {inlineDer : Option Bytes}
    {op : FsCall} {k : FsAnswer op → Loading (Option String)}
    (hp : Position coreId inlineDer (.call op k))
    (hdone : k (perform dir op).1 = .done (some pem)) :
    isValidDeviceId coreId = true ∧ dir (canonicalName coreId) = some pem := by
  cases hp with
  | looking hv =>
      refine ⟨hv,?_⟩
      cases hread : dir (canonicalName coreId) with
      | some text =>
          rw [perform_readFile_some hread] at hdone
          exact Program.done.inj hdone
      | none =>
          rw [perform_readFile_none hread] at hdone
          exact absurd hdone looked_error_found
  | checking _ _ _ =>
      rcases perform_access dir (quarantineName coreId) with ha | ha <;> rw [ha] at hdone <;>
        cases hdone
  | storing _ _ _ => cases hdone

theorem refused_found {coreId pem : String} {inlineDer : Option Bytes} {op : FsCall} {err : FsError}
    {k : FsAnswer op → Loading (Option String)}
    (hp : Position coreId inlineDer (.call op k)) :
    k (refuse err op) ≠ .done (some pem) := by
  cases hp with
  | looking _ => exact looked_error_found
  | checking _ _ _ => simp [refuse,accessed]
  | storing _ _ _ => simp [refuse,written]

theorem loadCoreKey_found {coreId pem : String} {inlineDer : Option Bytes} :
    loadCoreKey coreId inlineDer ≠ .done (some pem) := by
  cases hv : isValidDeviceId coreId with
  | false => simp [loadCoreKey_invalid hv]
  | true => simp [loadCoreKey_valid hv]

/-- The operations of the loader write no canonical file and find approved keys. -/
theorem Sound.traffic {e : StoreEvent} (h : Sound A s) (hstep : storeStep s e = some t) :
    Sound A t := by
  refine ⟨placed_keeps h.placed hstep,fun coreId pem hv hpem => ?_,fun c hc pem hpem => ?_⟩
  · rw [canonical_kept h.placed hstep hv] at hpem
    exact h.canonical coreId pem hv hpem
  · obtain ⟨j,hj⟩ := List.mem_iff_getElem?.mp hc
    cases storeStep_call hstep hj with
    | same hj => exact h.resolved c (List.mem_of_getElem? hj) pem hpem
    | fresh _ _ hprogram => exact absurd (hprogram.symm.trans hpem) loadCoreKey_found
    | done _ hj hprogram =>
        have hplace := h.placed _ (List.mem_of_getElem? hj)
        obtain ⟨hv,hread⟩ := performed_found hplace (hprogram.symm.trans hpem)
        exact ⟨hv,h.canonical _ _ hv hread⟩
    | refused _ hj _ hprogram =>
        have hplace := h.placed _ (List.mem_of_getElem? hj)
        exact absurd (hprogram.symm.trans hpem) (refused_found hplace)

/-- A promotion of an approved key. -/
theorem Sound.promote {coreId : String} (h : Sound A s)
    (hA : ∀ text, s.dir (quarantineName coreId) = some text → A coreId text)
    (hstep : deskStep s (.promote coreId) = some t) : Sound A t := by
  obtain ⟨hv,text,hq,he⟩ := promote_eq hstep
  have hcalls : t.calls = s.calls := by rw [he]
  refine ⟨fun c hc => h.placed c (hcalls ▸ hc),fun other pem ho hpem => ?_,
    fun c hc => h.resolved c (hcalls ▸ hc)⟩
  by_cases hid : coreId = other
  · subst hid
    rw [he] at hpem
    dsimp only at hpem
    rw [Function.update_self] at hpem
    obtain rfl := Option.some.inj hpem
    exact hA _ hq
  · rw [(promote_elsewhere hstep ho hid).2.2.1] at hpem
    exact h.canonical other pem ho hpem

theorem Sound.outcome {n : ℕ} {pem : String} (h : Sound A s)
    (hn : s.outcomeOf n = some (.ok (some pem))) :
    ∃ c, s.calls[n]? = some c ∧ isValidDeviceId c.coreId = true ∧ A c.coreId pem := by
  obtain ⟨c,hc,hout⟩ := Option.bind_eq_some_iff.mp hn
  exact ⟨c,hc,h.resolved c (List.mem_of_getElem? hc) pem (outcome_ok hout)⟩

end Approval

end SparkProtocol.CoreKeys
