import SparkProtocol.CoreKeys

/-!
# The key that was offered first

The loader looks whether a key has been put aside before it puts one aside, but the
look and the write are two operations. Beside the directory runs the record of what
each file held when it was first complete. The files agree with the record as long
as no call is still to write where a file is complete, and that is so when each look
that finds nothing is a look at a file that nobody is writing.
-/
namespace SparkProtocol.CoreKeys
open ByteStrings HostValues StreamPrograms Program LabelledRuns

/-- The operation that a program waits for. -/
def operation : Loading (Option String) → Option FsCall
  | .call c _ => some c
  | _ => none

def KeyStore.operationOf (s : KeyStore) (i : ℕ) : Option FsCall :=
  (s.calls[i]?).bind fun c => operation c.program

/-- The file that an event writes, and what it holds then. -/
def puts (s : KeyStore) : StoreEvent → Option (String × String)
  | .finish i =>
      match s.operationOf i with
      | some (.writeFile name data _) => some (name,data)
      | _ => none
  | .writing i text =>
      match s.operationOf i with
      | some (.writeFile name _ _) => some (name,text)
      | _ => none
  | _ => none

/-- The file that a call has looked for in vain: it is missing, or the look failed. -/
def misses (s : KeyStore) : StoreEvent → Option String
  | .finish i =>
      match s.operationOf i with
      | some (.access name) => if s.dir name = none then some name else none
      | _ => none
  | .fault i _ =>
      match s.operationOf i with
      | some (.access name) => some name
      | _ => none
  | _ => none

/-- The store beside what each file held when it was first complete. -/
structure Watched where
  store : KeyStore
  first : Directory

def Watched.start (d : Directory) : Watched := { store := { dir := d }, first := d }

/-- What is complete stays on record. -/
def recorded (w : Watched) : StoreEvent → Directory
  | .finish i =>
      match puts w.store (.finish i) with
      | some (name,data) => Function.update w.first name (some ((w.first name).getD data))
      | none => w.first
  | _ => w.first

def watchedStep (w : Watched) (e : StoreEvent) : Option Watched :=
  (storeStep w.store e).map fun s => { store := s, first := recorded w e }

/-- Every key that was put aside is the one that was put aside first. -/
def Firm (w : Watched) : Prop :=
  ∀ coreId text, isValidDeviceId coreId = true → w.first (quarantineName coreId) = some text →
    w.store.dir (quarantineName coreId) = some text

/-- A call that has still to write comes upon a complete file with another key. -/
def Overwrites (w : Watched) (e : StoreEvent) : Prop :=
  ∃ name old text, puts w.store e = some (name,text) ∧ w.first name = some old ∧ text ≠ old

/-- Some call is about to write the file. -/
def KeyStore.isWriting (s : KeyStore) (name : String) : Bool :=
  s.calls.any fun c =>
    match operation c.program with
    | some (.writeFile other _ _) => other = name
    | _ => false

/-- A look finds nothing only where there is nothing: the file is not complete and no
call is about to write it. -/
def Exclusive (w : Watched) (e : StoreEvent) : Prop :=
  ∀ name ∈ misses w.store e, w.first name = none ∧ w.store.isWriting name = false

instance (w : Watched) (e : StoreEvent) : Decidable (Exclusive w e) :=
  inferInstanceAs (Decidable (∀ name ∈ misses w.store e, _))

section Steps
variable {d : Directory} {s t : KeyStore} {e : StoreEvent} {name : String}

theorem operationOf_of_call {i : ℕ} {coreId : String} {inlineDer : Option Bytes} {c : FsCall}
    {k : FsAnswer c → Loading (Option String)}
    (h : s.calls[i]? = some ⟨coreId,inlineDer,.call c k⟩) : s.operationOf i = some c := by
  simp [KeyStore.operationOf,h,operation]

/-- The directory changes by what is put. -/
theorem storeStep_dir (h : storeStep s e = some t) :
    (puts s e = none ∧ t.dir = s.dir) ∨
      ∃ name text, puts s e = some (name,text) ∧ t.dir = Function.update s.dir name (some text) := by
  cases storeStep_cases h with
  | invoke coreId inlineDer => exact .inl ⟨rfl,rfl⟩
  | @finish i coreId inlineDer c k hi =>
      have hop := operationOf_of_call hi
      cases c with
      | readFile name =>
          refine .inl ⟨by simp [puts,hop],?_⟩
          simp only [perform]
          split <;> rfl
      | access name =>
          refine .inl ⟨by simp [puts,hop],?_⟩
          simp only [perform]
          split <;> rfl
      | writeFile name data mode => exact .inr ⟨name,data,by simp [puts,hop],rfl⟩
  | writing hi => exact .inr ⟨_,_,by simp [puts,operationOf_of_call hi],rfl⟩
  | fault hi _ => exact .inl ⟨rfl,rfl⟩

theorem call_of_operationOf {i : ℕ} {c : FsCall} (h : s.operationOf i = some c) :
    ∃ coreId inlineDer k, s.calls[i]? = some ⟨coreId,inlineDer,.call c k⟩ := by
  obtain ⟨⟨coreId,inlineDer,p⟩,hi,hp⟩ := Option.bind_eq_some_iff.mp h
  cases p with
  | call c' k =>
      obtain rfl := Option.some.inj hp
      exact ⟨coreId,inlineDer,k,hi⟩
  | _ => cases hp

theorem isWriting_of_operationOf {i : ℕ} {data : String} {mode : ℕ}
    (h : s.operationOf i = some (.writeFile name data mode)) : s.isWriting name = true := by
  obtain ⟨coreId,inlineDer,k,hi⟩ := call_of_operationOf h
  exact List.any_eq_true.mpr ⟨_,List.mem_of_getElem? hi,by simp [operation]⟩

/-- A call writes only what it puts aside. -/
theorem writer_quarantine (h : Guarded d s) {i : ℕ} {data : String} {mode : ℕ}
    (hw : s.operationOf i = some (.writeFile name data mode)) :
    ∃ coreId, isValidDeviceId coreId = true ∧ name = quarantineName coreId := by
  obtain ⟨coreId,inlineDer,k,hi⟩ := call_of_operationOf hw
  have hstage : Stage d (fun err => (i,err) ∈ s.faults) coreId inlineDer
      (.call (.writeFile name data mode) k) := h.stages i _ hi
  cases hstage with
  | storing hv _ => exact ⟨coreId,hv,rfl⟩

theorem puts_eq_some {text : String} (h : puts s e = some (name,text)) :
    ∃ i data mode, s.operationOf i = some (.writeFile name data mode) ∧
      (e = .finish i ∧ text = data ∨ e = .writing i text) := by
  cases e with
  | invoke _ _ => cases h
  | finish i =>
      simp only [puts] at h
      split at h
      · next data mode hop =>
          obtain ⟨rfl,rfl⟩ := Prod.mk.inj (Option.some.inj h)
          exact ⟨i,_,mode,hop,.inl ⟨rfl,rfl⟩⟩
      · cases h
  | writing i _ =>
      simp only [puts] at h
      split at h
      · next data mode hop =>
          obtain ⟨rfl,rfl⟩ := Prod.mk.inj (Option.some.inj h)
          exact ⟨i,data,mode,hop,.inr rfl⟩
      · cases h
  | fault _ _ => cases h

/-- An event that puts something is enabled. -/
theorem puts_enabled {text : String} (h : puts s e = some (name,text)) :
    ∃ t, storeStep s e = some t := by
  obtain ⟨i,data,mode,hop,he⟩ := puts_eq_some h
  obtain ⟨coreId,inlineDer,k,hi⟩ := call_of_operationOf hop
  rcases he with ⟨rfl,-⟩ | rfl
  · simp [storeStep,hi]
  · simp [storeStep,hi]

end Steps

section Firmness
variable {d : Directory} {w w' : Watched} {e : StoreEvent} {name : String}

theorem watchedStep_eq (h : watchedStep w e = some w') :
    storeStep w.store e = some w'.store ∧ w'.first = recorded w e := by
  obtain ⟨s,hs,rfl⟩ := Option.map_eq_some_iff.mp h
  exact ⟨hs,rfl⟩

/-- What is put goes into the file, and on record if it completes the first. -/
theorem watchedStep_puts (h : watchedStep w e = some w') :
    (puts w.store e = none ∧ w'.store.dir = w.store.dir ∧ w'.first = w.first) ∨
      ∃ name text, puts w.store e = some (name,text) ∧
        w'.store.dir = Function.update w.store.dir name (some text) ∧
        (w'.first = w.first ∨
          w'.first = Function.update w.first name (some ((w.first name).getD text))) := by
  obtain ⟨hs,hfirst⟩ := watchedStep_eq h
  rw [hfirst]
  rcases storeStep_dir hs with ⟨hnone,hdir⟩ | ⟨name,text,hp,hdir⟩
  · refine .inl ⟨hnone,hdir,?_⟩
    cases e with
    | finish i => simp only [recorded,hnone]
    | _ => rfl
  · refine .inr ⟨name,text,hp,hdir,?_⟩
    cases e with
    | finish i => exact .inr (by simp only [recorded,hp])
    | _ => exact .inl rfl

/-- A step that overwrites nothing leaves every key that was put aside first. -/
theorem firm_keeps (h : Firm w) (hc : ¬ Overwrites w e) (ht : watchedStep w e = some w') :
    Firm w' := by
  intro coreId text hv hrec
  rcases watchedStep_puts ht with ⟨-,hdir,hfirst⟩ | ⟨name,data,hp,hdir,hfirst⟩
  · rw [hfirst] at hrec
    rw [hdir]
    exact h coreId text hv hrec
  rw [hdir]
  by_cases hn : quarantineName coreId = name
  · have hsame : ∀ old, w.first name = some old → data = old := by
      intro old hold
      by_contra hne
      exact hc ⟨name,old,data,hp,hold,hne⟩
    rw [hn] at hrec ⊢
    rw [Function.update_self]
    rcases hfirst with hfirst | hfirst
    · rw [hsame text (hfirst ▸ hrec)]
    · rw [hfirst,Function.update_self] at hrec
      cases hold : w.first name with
      | none => simpa [hold] using hrec
      | some old =>
          rw [hsame old hold]
          simpa [hold] using hrec
  · rw [Function.update_of_ne hn]
    refine h coreId text hv ?_
    rcases hfirst with hfirst | hfirst
    · exact hfirst ▸ hrec
    · rwa [hfirst,Function.update_of_ne hn] at hrec

/-- An overwriting step shows. -/
theorem overwrites_breaks (hg : Guarded d w.store) (hc : Overwrites w e) :
    ∃ w', watchedStep w e = some w' ∧ ¬ Firm w' := by
  obtain ⟨name,old,text,hp,hold,hne⟩ := hc
  obtain ⟨t,ht⟩ := puts_enabled hp
  obtain ⟨w',hstep⟩ : ∃ w', watchedStep w e = some w' :=
    ⟨{ store := t, first := recorded w e },by simp only [watchedStep,ht,Option.map_some]⟩
  refine ⟨w',hstep,fun hfirm => ?_⟩
  obtain ⟨i,data,mode,hop,-⟩ := puts_eq_some hp
  obtain ⟨coreId,hv,rfl⟩ := writer_quarantine hg hop
  rcases watchedStep_puts hstep with ⟨hnone,-⟩ | ⟨_,_,hp',hdir,hfirst⟩
  · cases hnone.symm.trans hp
  obtain ⟨rfl,rfl⟩ := Prod.mk.inj (Option.some.inj (hp.symm.trans hp'))
  have hrec : w'.first (quarantineName coreId) = some old := by
    rcases hfirst with hfirst | hfirst
    · rw [hfirst,hold]
    · rw [hfirst,Function.update_self,hold,Option.getD_some]
  have hkept := hfirm coreId old hv hrec
  rw [hdir,Function.update_self] at hkept
  exact hne (Option.some.inj hkept)

end Firmness

section Exclusion
variable {d : Directory} {s t : KeyStore} {w w' : Watched} {e : StoreEvent} {name data : String}
  {mode i j : ℕ}

theorem loadCoreKey_operation (coreId : String) (inlineDer : Option Bytes) :
    operation (loadCoreKey coreId inlineDer) ≠ some (.writeFile name data mode) := by
  cases hv : isValidDeviceId coreId with
  | false => simp [loadCoreKey_invalid hv,operation]
  | true => simp [loadCoreKey_valid hv,operation]

theorem looked_operation (coreId : String) (inlineDer : Option Bytes) (a : Except FsError String) :
    operation (looked coreId inlineDer a) ≠ some (.writeFile name data mode) := by
  cases a with
  | ok pem => simp [looked,operation]
  | error err =>
      simp only [looked,missing]
      split_ifs
      · simp [operation]
      · split
        · simp [operation]
        · split_ifs <;> simp [operation]

theorem written_operation (a : Except FsError Unit) :
    operation (written a) ≠ some (.writeFile name data mode) := by
  cases a <;> simp [written,operation]

/-- Only a look in vain brings a call to its write. -/
theorem writes_after {Faulted : FsError → Prop} {coreId : String} {inlineDer : Option Bytes}
    {c : FsCall} {k : FsAnswer c → Loading (Option String)}
    (h : Stage d Faulted coreId inlineDer (.call c k)) {a : FsAnswer c}
    (hw : operation (k a) = some (.writeFile name data mode)) :
    c = .access name ∧ ∀ dir, a = (perform dir c).1 → dir name = none := by
  cases h with
  | reading _ => exact absurd hw (looked_operation coreId inlineDer a)
  | storing _ _ => exact absurd hw (written_operation a)
  | checking _ _ =>
      cases a with
      | ok _ => simp [accessed,operation] at hw
      | error err =>
          obtain ⟨rfl,-⟩ := FsCall.writeFile.inj (Option.some.inj hw)
          refine ⟨rfl,fun dir ha => ?_⟩
          cases hd : dir (quarantineName coreId) with
          | none => rfl
          | some text => simp [perform,hd] at ha

/-- A call comes to its write by a look in vain, and leaves it when it is done. -/
theorem writer_origin (hg : Guarded d s) (ht : storeStep s e = some t)
    (hw : t.operationOf j = some (.writeFile name data mode)) :
    (s.operationOf j = some (.writeFile name data mode) ∧ e ≠ .finish j) ∨
      misses s e = some name ∧ (e = .finish j ∨ ∃ err, e = .fault j err) := by
  obtain ⟨coreId,inlineDer,k,hj⟩ := call_of_operationOf hw
  cases storeStep_call ht hj with
  | same hj' =>
      refine .inl ⟨operationOf_of_call hj',?_⟩
      rintro rfl
      rw [storeStep_finish hj'] at ht
      obtain rfl := Option.some.inj ht
      rw [KeyStore.operationOf,getElem?_set_at hj'] at hw
      cases (writes_after (hg.stages j _ hj') hw).1
  | fresh _ _ hprogram =>
      exact absurd (congrArg operation hprogram.symm) (loadCoreKey_operation coreId inlineDer)
  | done he hj' hprogram =>
      obtain ⟨rfl,hnone⟩ := writes_after (hg.stages j _ hj') (congrArg operation hprogram.symm)
      subst he
      exact .inr ⟨by simp [misses,operationOf_of_call hj',hnone s.dir rfl],.inl rfl⟩
  | refused he hj' _ hprogram =>
      obtain ⟨rfl,-⟩ := writes_after (hg.stages j _ hj') (congrArg operation hprogram.symm)
      subst he
      exact .inr ⟨by simp [misses,operationOf_of_call hj'],.inr ⟨_,rfl⟩⟩

/-- No two calls are about to write one file, and none is about to write a complete one. -/
structure Alone (d : Directory) (w : Watched) : Prop where
  guarded : Guarded d w.store
  firm : Firm w
  fresh : ∀ i name data mode, w.store.operationOf i = some (.writeFile name data mode) →
    w.first name = none
  single : ∀ i j name data data' mode mode', w.store.operationOf i = some (.writeFile name data mode) →
    w.store.operationOf j = some (.writeFile name data' mode') → i = j

theorem Alone.start (d : Directory) : Alone d (.start d) :=
  ⟨.start d,fun _ _ _ h => h,fun _ _ _ _ h => by simp [KeyStore.operationOf,Watched.start] at h,
    fun _ _ _ _ _ _ _ h => by simp [KeyStore.operationOf,Watched.start] at h⟩

theorem Alone.not_overwrites (h : Alone d w) : ¬ Overwrites w e := by
  rintro ⟨name,old,text,hp,hold,-⟩
  obtain ⟨i,data,mode,hop,-⟩ := puts_eq_some hp
  cases (h.fresh i name data mode hop).symm.trans hold

/-- What comes on record is off the hands of its call. -/
theorem Alone.unrecorded (h : Alone d w)
    (hw : w.store.operationOf j = some (.writeFile name data mode)) (he : e ≠ .finish j) :
    recorded w e name = none := by
  have hfresh := h.fresh j name data mode hw
  cases e with
  | finish i =>
      cases hp : puts w.store (.finish i) with
      | none => simpa only [recorded,hp] using hfresh
      | some p =>
          obtain ⟨i',data',mode',hop,⟨hi,-⟩ | hi⟩ := puts_eq_some hp
          · obtain rfl := StoreEvent.finish.inj hi
            have hn : name ≠ p.1 := by
              rintro rfl
              exact he (congrArg _ (h.single _ _ _ _ _ _ _ hop hw))
            simpa only [recorded,hp,Function.update_of_ne hn] using hfresh
          · cases hi
  | _ => exact hfresh

theorem puts_of_misses (h : misses s e = some name) : puts s e = none := by
  cases e with
  | finish i =>
      simp only [misses] at h
      split at h
      · next hop => simp [puts,hop]
      · cases h
  | writing i text => cases h
  | _ => rfl

theorem alone_keeps (h : Alone d w) (hx : Exclusive w e) (ht : watchedStep w e = some w') :
    Alone d w' := by
  obtain ⟨hs,hfirst⟩ := watchedStep_eq ht
  refine ⟨guarded_keeps h.guarded hs,firm_keeps h.firm h.not_overwrites ht,?_,?_⟩
  · intro j name data mode hw
    rcases writer_origin h.guarded hs hw with ⟨hw',he⟩ | ⟨hm,-⟩
    · exact hfirst ▸ h.unrecorded hw' he
    · rcases watchedStep_puts ht with ⟨-,-,hsame⟩ | ⟨_,_,hp,-⟩
      · exact hsame ▸ (hx name hm).1
      · cases (puts_of_misses hm).symm.trans hp
  · intro i j name data data' mode mode' hi hj
    rcases writer_origin h.guarded hs hi with ⟨hi',-⟩ | ⟨hm,he⟩
    · rcases writer_origin h.guarded hs hj with ⟨hj',-⟩ | ⟨hm,-⟩
      · exact h.single i j name data data' mode mode' hi' hj'
      · cases (isWriting_of_operationOf hi').symm.trans (hx name hm).2
    · rcases writer_origin h.guarded hs hj with ⟨hj',-⟩ | ⟨-,he'⟩
      · cases (isWriting_of_operationOf hj').symm.trans (hx name hm).2
      · rcases he with rfl | ⟨err,rfl⟩ <;> rcases he' with he' | ⟨err',he'⟩ <;> cases he' <;> rfl

end Exclusion

/-- The key that was put aside first stays, along exactly the runs in which no call
comes upon a complete file with another key. It stays as long as the looks are exclusive. -/
theorem firm_iff_not_overwrites (d : Directory) (es : List StoreEvent) :
    (Always watchedStep Firm (.start d) es ↔
      Throughout watchedStep (fun w e => ¬ Overwrites w e) (.start d) es) ∧
    (Throughout watchedStep Exclusive (.start d) es → Always watchedStep Firm (.start d) es) := by
  constructor
  · refine always_iff_throughout (I := fun w => Guarded d w.store ∧ Firm w) (fun _ h => h.2) ?_ ?_
      ⟨.start d,fun _ _ _ h => h⟩
    · intro w e w' h hc ht
      exact ⟨guarded_keeps h.1 (watchedStep_eq ht).1,firm_keeps h.2 hc ht⟩
    · intro w e h hc
      exact overwrites_breaks h.1 (not_not.mp hc)
  · exact always_of_throughout (I := Alone d) (fun _ h => h.firm)
      (fun _ _ _ h hx ht => alone_keeps h hx ht) (.start d)

/-- Two connections claim the same id, one after the other. -/
def oneByOne : List StoreEvent :=
  [.invoke "36001f000247000000000003" (some [48,1]),.finish 0,.finish 0,.finish 0,
    .invoke "36001f000247000000000003" (some [48,2]),.finish 1,.finish 1]

theorem firm_iff_not_overwrites_oneByOne :
    Always watchedStep Firm (.start oneKey) oneByOne :=
  (firm_iff_not_overwrites oneKey oneByOne).2 (by decide +kernel)

/-- Two connections claim it at once, and both look before either has written. -/
def atOnce : List StoreEvent :=
  [.invoke "36001f000247000000000003" (some [48,1]),.invoke "36001f000247000000000003" (some [48,2]),
    .finish 0,.finish 1,.finish 0,.finish 1,.finish 0,.finish 1]

theorem atOnce_overwrites : ¬ ∀ (d : Directory) (es : List StoreEvent),
    Always watchedStep Firm (.start d) es := by
  intro h
  have hrun : (exec watchedStep (.start oneKey) atOnce).map (fun w =>
      ((w.first (quarantineName "36001f000247000000000003")).isSome,
        decide (w.first (quarantineName "36001f000247000000000003") =
          w.store.dir (quarantineName "36001f000247000000000003")))) = some (true,false) := by
    decide +kernel
  obtain ⟨w,hr,hw⟩ := Run.of_observation _ hrun
  obtain ⟨hsome,hdiffer⟩ := Prod.mk.inj hw
  obtain ⟨text,hfirst⟩ := Option.isSome_iff_exists.mp hsome
  have hkept := (h oneKey atOnce).at_end hr _ text (by decide) hfirst
  exact of_decide_eq_false hdiffer (hfirst.trans hkept.symm)

end SparkProtocol.CoreKeys
