import SparkProtocol.QuarantinedKeys
import SparkProtocol.PemTexts

/-!
# A key that is promoted

An operator accepts the key that a device has offered by dropping a suffix of its
file's name. Calls for other devices go on all the while, each at its own place
between two of its operations, and the places do not depend on what the directory
holds: what the operator changes they find at their next operation.
-/
namespace SparkProtocol.CoreKeys
open ByteStrings HostValues StreamPrograms Program LabelledRuns

/-- The calls of the loader, and an operator at the directory. -/
inductive DeskEvent where
  | traffic (e : StoreEvent)
  | promote (coreId : String)

/-- Rename the file of the key that was put aside. -/
def promoted (dir : Directory) (coreId : String) : Option Directory :=
  (dir (quarantineName coreId)).map fun text =>
    Function.update (Function.update dir (quarantineName coreId) none) (canonicalName coreId)
      (some text)

def deskStep (s : KeyStore) : DeskEvent → Option KeyStore
  | .traffic e => storeStep s e
  | .promote coreId =>
      if isValidDeviceId coreId then (promoted s.dir coreId).map fun dir => { s with dir := dir }
      else none

def KeyStore.outcomeOf (s : KeyStore) (i : ℕ) : Option (Except FsError (Option String)) :=
  (s.calls[i]?).bind fun c => c.program.outcome

/-- A key of one byte or more comes with the call. -/
def Offers (inlineDer : Option Bytes) : Prop := ∃ der, inlineDer = some der ∧ der ≠ []

/-- An operation of call `i` that is done. -/
def finishes (i : ℕ) : DeskEvent → Bool
  | .traffic (.finish j) => j = i
  | _ => false

/-- Another call offers a key of this device, call `i` has a failing operation, or the
operator does not wait for it. -/
def Disturbs (coreId : String) (i : ℕ) : DeskEvent → Prop
  | .traffic (.invoke other inlineDer) => other = coreId ∧ Offers inlineDer
  | .traffic (.fault j _) => j = i
  | .traffic _ => False
  | .promote other => other = coreId

/-- Where a call can be, in whatever directory. -/
inductive Position (coreId : String) (inlineDer : Option Bytes) : Loading (Option String) → Prop
  | looking : isValidDeviceId coreId = true →
      Position coreId inlineDer (.call (.readFile (canonicalName coreId)) (looked coreId inlineDer))
  | checking {der : Bytes} : isValidDeviceId coreId = true → inlineDer = some der → der ≠ [] →
      Position coreId inlineDer (.call (.access (quarantineName coreId)) (accessed coreId der))
  | storing {der : Bytes} : isValidDeviceId coreId = true → inlineDer = some der → der ≠ [] →
      Position coreId inlineDer
        (.call (.writeFile (quarantineName coreId) (derToPem der) 0o600) written)
  | resolved (found : Option String) : Position coreId inlineDer (.done found)
  | failed (err : FsError) : Position coreId inlineDer (.fail err)

def Placed (s : KeyStore) : Prop := ∀ c ∈ s.calls, Position c.coreId c.inlineDer c.program

section Names
variable {coreId other : String}

theorem canonicalName_inj (h : canonicalName coreId = canonicalName other) : coreId = other :=
  String.append_left_inj _ |>.mp h

theorem quarantineName_inj (h : quarantineName coreId = quarantineName other) : coreId = other :=
  String.append_left_inj _ |>.mp h

end Names

section Positions
variable {coreId : String} {inlineDer : Option Bytes}

theorem loadCoreKey_position : Position coreId inlineDer (loadCoreKey coreId inlineDer) := by
  cases hv : isValidDeviceId coreId with
  | false =>
      rw [loadCoreKey_invalid hv]
      exact .failed _
  | true =>
      rw [loadCoreKey_valid hv]
      exact .looking hv

/-- An answer, whichever it is, takes a call to its next place. -/
theorem Position.answered {c : FsCall} {k : FsAnswer c → Loading (Option String)}
    (h : Position coreId inlineDer (.call c k)) (a : FsAnswer c) :
    Position coreId inlineDer (k a) := by
  cases h with
  | looking hv =>
      cases a with
      | ok pem => exact .resolved _
      | error err =>
          simp only [looked,missing]
          split_ifs
          · exact .failed err
          · split
            · exact .resolved none
            · split_ifs with hpos
              · exact .checking hv rfl (List.ne_nil_of_length_pos hpos)
              · exact .resolved none
  | checking hv hd hne =>
      cases a with
      | ok _ => exact .resolved none
      | error _ => exact .storing hv hd hne
  | storing hv hd hne =>
      cases a with
      | ok _ => exact .resolved none
      | error err => exact .failed err

end Positions

section Steps
variable {s t : KeyStore} {e : StoreEvent} {coreId : String}

theorem placed_keeps (hp : Placed s) (h : storeStep s e = some t) : Placed t := by
  intro c hc
  obtain ⟨j,hj⟩ := List.mem_iff_getElem?.mp hc
  cases storeStep_call h hj with
  | same hj => exact hp c (List.mem_of_getElem? hj)
  | fresh _ _ hprogram =>
      rw [hprogram]
      exact loadCoreKey_position
  | done _ hj hprogram =>
      rw [hprogram]
      exact (hp _ (List.mem_of_getElem? hj)).answered _
  | refused _ hj _ hprogram =>
      rw [hprogram]
      exact (hp _ (List.mem_of_getElem? hj)).answered _

/-- What is written is a key that the call has brought, and goes into the file of its
device. -/
theorem Placed.puts (hp : Placed s) {name text : String} (h : puts s e = some (name,text)) :
    ∃ i c data mode, s.calls[i]? = some c ∧ isValidDeviceId c.coreId = true ∧
      name = quarantineName c.coreId ∧ Offers c.inlineDer ∧ c.program.outcome = none ∧
      s.operationOf i = some (.writeFile name data mode) := by
  obtain ⟨i,data,mode,hop,-⟩ := puts_eq_some h
  obtain ⟨coreId,inlineDer,k,hi⟩ := call_of_operationOf hop
  have hpos : Position coreId inlineDer (.call (.writeFile name data mode) k) :=
    hp _ (List.mem_of_getElem? hi)
  cases hpos with
  | storing hv hd hne => exact ⟨i,_,_,_,hi,hv,rfl,⟨_,hd,hne⟩,rfl,hop⟩

theorem canonical_kept (hp : Placed s) (h : storeStep s e = some t)
    (hv : isValidDeviceId coreId = true) :
    t.dir (canonicalName coreId) = s.dir (canonicalName coreId) := by
  rcases storeStep_dir h with ⟨-,hdir⟩ | ⟨name,text,hputs,hdir⟩
  · rw [hdir]
  · obtain ⟨i,c,_,_,-,hvalid,rfl,-⟩ := hp.puts hputs
    rw [hdir,Function.update_of_ne (quarantineName_ne_canonicalName hvalid hv).symm]

end Steps

/-- The `i`th call has `n` operations left. -/
inductive Offering (coreId : String) (der : Bytes) (dir : Directory) :
    ℕ → Loading (Option String) → Prop
  | looking : dir (quarantineName coreId) = none → Offering coreId der dir 3
      (.call (.readFile (canonicalName coreId)) (looked coreId (some der)))
  | checking : dir (quarantineName coreId) = none → Offering coreId der dir 2
      (.call (.access (quarantineName coreId)) (accessed coreId der))
  | storing : Offering coreId der dir 1
      (.call (.writeFile (quarantineName coreId) (derToPem der) 0o600) written)
  | stored : dir (quarantineName coreId) = some (derToPem der) →
      Offering coreId der dir 0 (.done none)

/-- Its device is not known, and no other call has a key of it to put aside. -/
structure Offered (coreId : String) (der : Bytes) (i n : ℕ) (s : KeyStore) : Prop where
  placed : Placed s
  absent : s.dir (canonicalName coreId) = none
  sole : ∀ j c, s.calls[j]? = some c → c.coreId = coreId → Offers c.inlineDer →
    c.program.outcome = none → j = i
  call : ∃ p, s.calls[i]? = some ⟨coreId,some der,p⟩ ∧ Offering coreId der s.dir n p

section Offers
variable {coreId : String} {der : Bytes} {i n : ℕ} {s t : KeyStore}

/-- While the call is not at its write, only its file matters. -/
theorem Offering.moved {dir dir' : Directory} {p : Loading (Option String)}
    (h : Offering coreId der dir n p)
    (hsame : (∀ name data mode, operation p ≠ some (.writeFile name data mode)) →
      dir' (quarantineName coreId) = dir (quarantineName coreId)) :
    Offering coreId der dir' n p := by
  cases h with
  | looking hq => exact .looking ((hsame fun _ _ _ => by simp [operation]).trans hq)
  | checking hq => exact .checking ((hsame fun _ _ _ => by simp [operation]).trans hq)
  | storing => exact .storing
  | stored hq => exact .stored ((hsame fun _ _ _ => by simp [operation]).trans hq)

theorem missing_offers (h : der ≠ []) : missing coreId (some der) =
    .call (.access (quarantineName coreId)) (accessed coreId der) :=
  if_pos (List.length_pos_iff.mpr h)

/-- Its next operation. -/
theorem Offering.next {dir : Directory} {p : Loading (Option String)}
    (h : Offering coreId der dir (n+1) p) (hder : der ≠ []) (ha : dir (canonicalName coreId) = none) :
    ∃ c k, p = .call c k ∧ Offering coreId der (perform dir c).2 n (k (perform dir c).1) := by
  cases h with
  | looking hq =>
      refine ⟨.readFile (canonicalName coreId),looked coreId (some der),rfl,?_⟩
      rw [perform_readFile_none ha,looked_missing rfl,missing_offers hder]
      exact .checking hq
  | checking hq =>
      refine ⟨.access (quarantineName coreId),accessed coreId der,rfl,?_⟩
      rw [perform_access_none hq]
      exact .storing
  | storing =>
      refine ⟨.writeFile (quarantineName coreId) (derToPem der) 0o600,written,rfl,?_⟩
      exact .stored (Function.update_self ..)

theorem Offering.outcome {dir : Directory} {p : Loading (Option String)}
    (h : Offering coreId der dir n p) : p.outcome = if n = 0 then some (.ok none) else none := by
  cases h <;> rfl

/-- A step that is not about the call leaves its file. -/
theorem Offered.kept {e : StoreEvent} (h : Offered coreId der i n s) (ht : storeStep s e = some t)
    {p : Loading (Option String)} (hi : s.calls[i]? = some ⟨coreId,some der,p⟩)
    (hp : ∀ name data mode, operation p ≠ some (.writeFile name data mode)) :
    t.dir (quarantineName coreId) = s.dir (quarantineName coreId) := by
  rcases storeStep_dir ht with ⟨-,hdir⟩ | ⟨name,text,hputs,hdir⟩
  · rw [hdir]
  · obtain ⟨j,c,data,mode,hj,-,rfl,hoff,hnone,hop⟩ := h.placed.puts hputs
    have hne : c.coreId ≠ coreId := by
      intro hid
      obtain rfl := h.sole j c hj hid hoff hnone
      rw [KeyStore.operationOf,hi] at hop
      exact hp _ _ _ hop
    rw [hdir,Function.update_of_ne fun he => hne (quarantineName_inj he).symm]

theorem promote_eq {coreId : String} (h : deskStep s (.promote coreId) = some t) :
    isValidDeviceId coreId = true ∧ ∃ text, s.dir (quarantineName coreId) = some text ∧
      t = { s with
        dir := Function.update (Function.update s.dir (quarantineName coreId) none)
          (canonicalName coreId) (some text) } := by
  simp only [deskStep] at h
  split_ifs at h with hv
  obtain ⟨dir,hdir,rfl⟩ := Option.map_eq_some_iff.mp h
  obtain ⟨text,htext,rfl⟩ := Option.map_eq_some_iff.mp hdir
  exact ⟨hv,text,htext,rfl⟩

/-- A promotion is none of the business of another device. -/
theorem promote_elsewhere {other : String} (h : deskStep s (.promote other) = some t)
    (hv : isValidDeviceId coreId = true) (hne : other ≠ coreId) :
    t.calls = s.calls ∧ t.faults = s.faults ∧
      t.dir (canonicalName coreId) = s.dir (canonicalName coreId) ∧
      t.dir (quarantineName coreId) = s.dir (quarantineName coreId) := by
  obtain ⟨hother,text,-,rfl⟩ := promote_eq h
  refine ⟨rfl,rfl,?_,?_⟩
  · dsimp only
    rw [Function.update_of_ne fun he => hne (canonicalName_inj he).symm,
      Function.update_of_ne (quarantineName_ne_canonicalName hother hv).symm]
  · dsimp only
    rw [Function.update_of_ne (quarantineName_ne_canonicalName hv hother),
      Function.update_of_ne fun he => hne (quarantineName_inj he).symm]

/-- No other call with a key of the device comes up. -/
theorem Offered.alone {e : StoreEvent} (h : Offered coreId der i n s)
    (hq : ¬ Disturbs coreId i (.traffic e)) (ht : storeStep s e = some t) {j : ℕ} {c : LoaderCall}
    (hj : t.calls[j]? = some c) (hid : c.coreId = coreId) (hoff : Offers c.inlineDer)
    (hnone : c.program.outcome = none) : j = i := by
  cases storeStep_call ht hj with
  | same hj => exact h.sole j c hj hid hoff hnone
  | fresh he _ _ =>
      subst he
      exact absurd ⟨hid,hoff⟩ hq
  | done _ hj _ => exact h.sole j _ hj hid hoff rfl
  | refused _ hj _ _ => exact h.sole j _ hj hid hoff rfl

/-- An operation of the call itself. -/
theorem Offered.finish (h : Offered coreId der i n s) (hder : der ≠ [])
    (ht : storeStep s (.finish i) = some t) :
    ∃ m, m+1 = n ∧ ∃ p, t.calls[i]? = some ⟨coreId,some der,p⟩ ∧ Offering coreId der t.dir m p := by
  obtain ⟨p,hi,hp⟩ := h.call
  cases storeStep_cases ht with
  | finish hi' =>
      obtain ⟨rfl,rfl,rfl⟩ := LoaderCall.mk.inj (Option.some.inj (hi.symm.trans hi'))
      cases n with
      | zero => cases hp
      | succ m =>
          obtain ⟨c,k,hck,hnext⟩ := hp.next hder h.absent
          cases hck
          exact ⟨m,rfl,_,getElem?_set_at hi _,hnext⟩

/-- Everything else in the directory. -/
theorem Offered.wait {e : StoreEvent} (h : Offered coreId der i n s)
    (hq : ¬ Disturbs coreId i (.traffic e)) (he : e ≠ .finish i) (ht : storeStep s e = some t) :
    ∃ p, t.calls[i]? = some ⟨coreId,some der,p⟩ ∧ Offering coreId der t.dir n p := by
  obtain ⟨p,hi,hp⟩ := h.call
  refine ⟨p,?_,hp.moved fun hw => h.kept ht hi hw⟩
  have hlt := (List.getElem?_eq_some_iff.mp hi).choose
  have hi' := List.getElem?_eq_getElem (hlt.trans_le (storeStep_length ht))
  cases storeStep_call ht hi' with
  | same hsame => exact hi'.trans (hsame.symm.trans hi)
  | fresh _ hlen _ => omega
  | done hfinish _ _ => exact absurd hfinish he
  | refused hfault _ _ _ =>
      subst hfault
      exact absurd rfl hq

/-- One step takes the call on by one operation, or leaves it where it is. -/
theorem offered_keeps (hv : isValidDeviceId coreId = true) (hder : der ≠ []) {e : DeskEvent}
    (h : Offered coreId der i n s) (hq : ¬ Disturbs coreId i e) (ht : deskStep s e = some t) :
    ∃ m, m+(if finishes i e then 1 else 0) = n ∧ Offered coreId der i m t := by
  cases e with
  | promote other =>
      obtain ⟨hcalls,-,hcanonical,hquarantine⟩ := promote_elsewhere ht hv hq
      obtain ⟨p,hi,hp⟩ := h.call
      refine ⟨n,rfl,?_,hcanonical.trans h.absent,?_,p,?_,hp.moved fun _ => hquarantine⟩
      · rw [Placed,hcalls]
        exact h.placed
      · rw [hcalls]
        exact h.sole
      · rw [hcalls]
        exact hi
  | traffic e =>
      have ht' : storeStep s e = some t := ht
      have hrest : ∀ m, (∃ p, t.calls[i]? = some ⟨coreId,some der,p⟩ ∧
          Offering coreId der t.dir m p) → Offered coreId der i m t := fun m hcall =>
        ⟨placed_keeps h.placed ht',(canonical_kept h.placed ht' hv).trans h.absent,
          fun _ _ => h.alone hq ht',hcall⟩
      by_cases he : e = .finish i
      · subst he
        obtain ⟨m,hm,hcall⟩ := h.finish hder ht'
        exact ⟨m,by simpa [finishes] using hm,hrest m hcall⟩
      · have hfin : finishes i (.traffic e) = false := by
          cases e with
          | finish j => simpa [finishes] using fun hj => he (congrArg _ hj)
          | _ => rfl
        exact ⟨n,by rw [hfin]; rfl,hrest n (h.wait hq he ht')⟩

theorem offered_run (hv : isValidDeviceId coreId = true) (hder : der ≠ []) {es : List DeskEvent}
    (hr : Run deskStep s es t) (hq : ∀ e ∈ es, ¬ Disturbs coreId i e)
    (h : Offered coreId der i n s) :
    ∃ m, m+es.countP (finishes i) = n ∧ Offered coreId der i m t := by
  induction hr generalizing n with
  | nil s => exact ⟨n,rfl,h⟩
  | @cons s s' t e es hstep _ ih =>
      obtain ⟨m,hm,hs'⟩ := offered_keeps hv hder h (hq e List.mem_cons_self) hstep
      obtain ⟨l,hl,ht⟩ := ih (fun e he => hq e (List.mem_cons_of_mem _ he)) hs'
      refine ⟨l,?_,ht⟩
      rw [List.countP_cons]
      omega

/-- The directory does not know the device when the call is made, and no call that has a
key of it is under way. -/
theorem invoke_offered (hv : isValidDeviceId coreId = true) (hp : Placed s)
    (hcanonical : s.dir (canonicalName coreId) = none)
    (hquarantine : s.dir (quarantineName coreId) = none)
    (hsole : ∀ c ∈ s.calls, c.coreId = coreId → Offers c.inlineDer → c.program.outcome.isSome)
    (ht : deskStep s (.traffic (.invoke coreId (some der))) = some t) :
    Offered coreId der s.calls.length 3 t := by
  have ht' : storeStep s (.invoke coreId (some der)) = some t := ht
  have hplaced := placed_keeps hp ht'
  obtain rfl := Option.some.inj ht'
  refine ⟨hplaced,hcanonical,?_,_,List.getElem?_concat_length,?_⟩
  · intro j c hj hid hoff hnone
    rcases getElem?_concat_cases hj with hj | ⟨hlen,-⟩
    · have hsome := hsole c (List.mem_of_getElem? hj) hid hoff
      rw [hnone] at hsome
      cases hsome
    · exact hlen
  · rw [loadCoreKey_valid hv]
    exact .looking hquarantine

end Offers

/-- What a call can have come to, that was made when the text was the device's key. -/
inductive Fetching (coreId text : String) (inlineDer : Option Bytes) (Faulted : FsError → Prop) :
    Loading (Option String) → Prop
  | looking : Fetching coreId text inlineDer Faulted
      (.call (.readFile (canonicalName coreId)) (looked coreId inlineDer))
  | found : Fetching coreId text inlineDer Faulted (.done (some text))
  | failed {err : FsError} : Faulted err → Fetching coreId text inlineDer Faulted (.fail err)

/-- The text is the device's key, and the calls from the `n`th on find it. -/
structure Accepted (coreId text : String) (n : ℕ) (s : KeyStore) : Prop where
  placed : Placed s
  canonical : s.dir (canonicalName coreId) = some text
  later : ∀ j c, n ≤ j → s.calls[j]? = some c → c.coreId = coreId →
    Fetching coreId text c.inlineDer (fun err => (j,err) ∈ s.faults) c.program

/-- A call that writes nothing, and resolves to the text unless its read fails. -/
structure Fetches (s : KeyStore) (j : ℕ) (text : String) : Prop where
  reads : ∀ name data mode, s.operationOf j ≠ some (.writeFile name data mode)
  resolves : ∀ r, s.outcomeOf j = some r → (∀ err, (j,err) ∉ s.faults) → r = .ok (some text)
  waits : s.outcomeOf j = none → ∃ t, deskStep s (.traffic (.finish j)) = some t ∧
    t.outcomeOf j = some (.ok (some text))

/-- Whatever happens before the operator accepts the text and after, the calls that are
made from then on fetch it. -/
def Promotes (coreId text : String) (s : KeyStore) : Prop :=
  ∀ es t, Run deskStep s es t → t.dir (quarantineName coreId) = some text →
    ∃ t', deskStep t (.promote coreId) = some t' ∧ t'.dir (canonicalName coreId) = some text ∧
      t'.dir (quarantineName coreId) = none ∧
      ∀ es' u, Run deskStep t' es' u → .promote coreId ∉ es' →
        ∀ j c, t.calls.length ≤ j → u.calls[j]? = some c → c.coreId = coreId → Fetches u j text

section Acceptance
variable {coreId text : String} {n : ℕ} {s t : KeyStore}

theorem Fetching.mono {inlineDer : Option Bytes} {Faulted Faulted' : FsError → Prop}
    (hf : ∀ err, Faulted err → Faulted' err) {p : Loading (Option String)}
    (h : Fetching coreId text inlineDer Faulted p) : Fetching coreId text inlineDer Faulted' p := by
  cases h with
  | looking => exact .looking
  | found => exact .found
  | failed he => exact .failed (hf _ he)

theorem deskStep_placed {e : DeskEvent} (hp : Placed s) (ht : deskStep s e = some t) : Placed t := by
  cases e with
  | traffic e => exact placed_keeps hp ht
  | promote other =>
      obtain ⟨-,_,-,rfl⟩ := promote_eq ht
      exact hp

theorem accepted_keeps (hv : isValidDeviceId coreId = true) {e : DeskEvent}
    (h : Accepted coreId text n s) (he : e ≠ .promote coreId) (ht : deskStep s e = some t) :
    Accepted coreId text n t := by
  cases e with
  | promote other =>
      obtain ⟨hcalls,hfaults,hcanonical,-⟩ := promote_elsewhere ht hv fun hid => he (congrArg _ hid)
      refine ⟨deskStep_placed h.placed ht,hcanonical.trans h.canonical,?_⟩
      rw [hcalls,hfaults]
      exact h.later
  | traffic e =>
      have ht' : storeStep s e = some t := ht
      refine ⟨placed_keeps h.placed ht',(canonical_kept h.placed ht' hv).trans h.canonical,?_⟩
      intro j c hn hj hid
      cases storeStep_call ht' hj with
      | same hj => exact (h.later j c hn hj hid).mono fun _ hf => storeStep_faults ht' hf
      | fresh _ _ hprogram =>
          rw [hprogram,hid,loadCoreKey_valid hv]
          exact .looking
      | @done op k _ hj hprogram =>
          have hbefore : Fetching coreId text c.inlineDer (fun err => (j,err) ∈ s.faults)
              (.call op k) := h.later j _ hn hj hid
          rw [hprogram]
          cases hbefore with
          | looking =>
              rw [perform_readFile_some h.canonical]
              exact .found
      | @refused op k err hfault hj hr hprogram =>
          have hbefore : Fetching coreId text c.inlineDer (fun err => (j,err) ∈ s.faults)
              (.call op k) := h.later j _ hn hj hid
          rw [hprogram]
          cases hbefore with
          | looking =>
              change Fetching _ _ _ _ (looked coreId c.inlineDer (.error err))
              rw [looked_refused hr]
              exact .failed (storeStep_fault (hfault ▸ ht'))

theorem Fetching.reads {inlineDer : Option Bytes} {Faulted : FsError → Prop}
    {p : Loading (Option String)} (h : Fetching coreId text inlineDer Faulted p)
    (name data : String) (mode : ℕ) : operation p ≠ some (.writeFile name data mode) := by
  cases h <;> simp [operation]

theorem Fetching.resolves {inlineDer : Option Bytes} {Faulted : FsError → Prop}
    {p : Loading (Option String)} (h : Fetching coreId text inlineDer Faulted p)
    {r : Except FsError (Option String)} (hr : p.outcome = some r) (hf : ∀ err, ¬ Faulted err) :
    r = .ok (some text) := by
  cases h with
  | looking => cases hr
  | found => exact (Option.some.inj hr).symm
  | failed he => exact absurd he (hf _)

theorem Fetching.waits {inlineDer : Option Bytes} {Faulted : FsError → Prop}
    {p : Loading (Option String)} (h : Fetching coreId text inlineDer Faulted p)
    (hp : p.outcome = none) :
    p = .call (.readFile (canonicalName coreId)) (looked coreId inlineDer) := by
  cases h with
  | looking => rfl
  | found => cases hp
  | failed _ => cases hp

theorem Accepted.fetches (h : Accepted coreId text n s) {j : ℕ} {c : LoaderCall} (hn : n ≤ j)
    (hj : s.calls[j]? = some c) (hid : c.coreId = coreId) : Fetches s j text := by
  have hstage := h.later j c hn hj hid
  have hop : s.operationOf j = operation c.program := by
    rw [KeyStore.operationOf,hj,Option.bind_some]
  have hout : s.outcomeOf j = c.program.outcome := by rw [KeyStore.outcomeOf,hj,Option.bind_some]
  refine ⟨hop ▸ hstage.reads,fun r hr => hstage.resolves (hout ▸ hr),fun hnone => ?_⟩
  obtain ⟨id,inlineDer,p⟩ := c
  obtain rfl : p = .call (.readFile (canonicalName coreId)) (looked coreId inlineDer) :=
    hstage.waits (hout ▸ hnone)
  refine ⟨_,storeStep_finish hj,?_⟩
  rw [KeyStore.outcomeOf,getElem?_set_at hj,perform_readFile_some h.canonical]
  rfl

theorem placed_promotes (hv : isValidDeviceId coreId = true) (hp : Placed s) :
    Promotes coreId text s := by
  intro es t hr hquarantine
  have hpt : Placed t := hr.keeps (fun _ _ _ _ => deskStep_placed) hp
  obtain ⟨t',ht'⟩ : ∃ t', deskStep t (.promote coreId) = some t' := by
    simp [deskStep,hv,promoted,hquarantine]
  obtain ⟨-,text',htext,rfl⟩ := promote_eq ht'
  obtain rfl : text = text' := Option.some.inj (hquarantine.symm.trans htext)
  have hcanonical : Function.update (Function.update t.dir (quarantineName coreId) none)
      (canonicalName coreId) (some text) (canonicalName coreId) = some text :=
    Function.update_self ..
  refine ⟨_,ht',hcanonical,?_,?_⟩
  · dsimp only
    rw [Function.update_of_ne (quarantineName_ne_canonicalName hv hv),Function.update_self]
  · intro es' u hr' hpromote j c hn hj hid
    have haccepted := hr'.keeps (I := Accepted coreId text t.calls.length)
      (fun s e s' he h => accepted_keeps hv h fun hpe => hpromote (hpe ▸ he))
      ⟨deskStep_placed hpt ht',hcanonical,fun j c hn hj _ => ?_⟩
    · exact haccepted.fetches hn hj hid
    · have hlt := (List.getElem?_eq_some_iff.mp hj).choose
      exact absurd hlt (Nat.not_lt.mpr hn)

end Acceptance

/-- A key that a device offers comes back as what the loader resolves to, once an
operator has promoted it and not before. -/
theorem quarantined_then_promoted {coreId : String} {der : Bytes} {d : Directory}
    {s t : KeyStore} {es₀ es : List DeskEvent} (hv : isValidDeviceId coreId = true)
    (hder : der ≠ []) (hbefore : Run deskStep { dir := d } es₀ s)
    (hcanonical : s.dir (canonicalName coreId) = none)
    (hquarantine : s.dir (quarantineName coreId) = none)
    (hsole : ∀ c ∈ s.calls, c.coreId = coreId → Offers c.inlineDer → c.program.outcome.isSome)
    (hrun : Run deskStep s (.traffic (.invoke coreId (some der))::es) t)
    (hquiet : ∀ e ∈ es, ¬ Disturbs coreId s.calls.length e) :
    es.countP (finishes s.calls.length) ≤ 3 ∧
      (es.countP (finishes s.calls.length) < 3 → t.outcomeOf s.calls.length = none ∧
        (deskStep t (.traffic (.finish s.calls.length))).isSome) ∧
      (es.countP (finishes s.calls.length) = 3 →
        t.outcomeOf s.calls.length = some (.ok none) ∧
        ∃ text, t.dir (quarantineName coreId) = some text ∧ PemOf text der ∧
          Promotes coreId text t) := by
  have hplaced : Placed s := hbefore.keeps (fun _ _ _ _ => deskStep_placed) (by simp [Placed])
  cases hrun with
  | @cons _ s' _ _ _ hinvoke hrest =>
      have hstart := invoke_offered hv hplaced hcanonical hquarantine hsole hinvoke
      obtain ⟨n,hn,h⟩ := offered_run hv hder hrest hquiet hstart
      obtain ⟨p,hi,hp⟩ := h.call
      have hout : t.outcomeOf s.calls.length = p.outcome := by
        rw [KeyStore.outcomeOf,hi,Option.bind_some]
      rw [hout,hp.outcome]
      refine ⟨by omega,fun hlt => ?_,fun hall => ?_⟩
      · obtain ⟨m,rfl⟩ : ∃ m, n = m+1 := ⟨n-1,by omega⟩
        obtain ⟨c,k,rfl,-⟩ := hp.next hder h.absent
        exact ⟨if_neg (by omega),by rw [deskStep,storeStep_finish hi,Option.isSome_some]⟩
      · obtain rfl : n = 0 := by omega
        cases hp with
        | stored htext =>
            exact ⟨rfl,_,htext,derToPem_pemOf hder,placed_promotes hv h.placed⟩

/-- An unknown device offers its key while another one is looked up. -/
def offering : List DeskEvent :=
  [.traffic (.finish 0),.traffic (.invoke "36001f000247000000000002" (some [48,2])),
    .traffic (.finish 0),.traffic (.writing 0 "-----BEGIN"),.traffic (.finish 1),.traffic (.finish 0)]

theorem quarantined_then_promoted_unknown : ∃ t text,
    Run deskStep { dir := oneKey }
      (.traffic (.invoke "36001f000247000000000003" (some [48,1]))::offering) t ∧
    t.outcomeOf 0 = some (.ok none) ∧
    t.dir (quarantineName "36001f000247000000000003") = some text ∧ PemOf text [48,1] ∧
    Promotes "36001f000247000000000003" text t := by
  obtain ⟨t,ht,-⟩ : ∃ t, Run deskStep { dir := oneKey }
      (.traffic (.invoke "36001f000247000000000003" (some [48,1]))::offering) t ∧
      t.calls.length = 2 := by
    apply Run.of_observation
    decide +kernel
  have h := quarantined_then_promoted (by decide) (by decide) (.nil _)
    (by decide +kernel) (by decide +kernel) (by simp) ht (by simp [offering,Disturbs])
  obtain ⟨hout,text,htext,hpem,hpromotes⟩ := h.2.2 (by decide +kernel)
  exact ⟨t,text,ht,hout,htext,hpem,hpromotes⟩

end SparkProtocol.CoreKeys
