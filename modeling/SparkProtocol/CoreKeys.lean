import SparkProtocol.StreamPrograms
import SparkProtocol.HostValues
import SparkProtocol.LabelledRuns
import Mathlib.Data.List.Basic

/-!
# The directory of core keys

The loader looks up the canonical key of a device by its id. A key that a device
sends along when there is none is put aside in the same directory under another
name. Any number of calls are under way at once; they share only the directory,
and each operation on it may fail.

The ids that pass the check have one length and one alphabet, so no name that is
written is a name that is trusted, and every name is an entry of the directory.
-/
namespace SparkProtocol.CoreKeys
open ByteStrings HostValues StreamPrograms Program LabelledRuns

structure FsError extends JsError where
  code : Option String := none
  deriving DecidableEq

inductive FsCall where
  | readFile (name : String)
  | access (name : String)
  | writeFile (name data : String) (mode : ℕ)

def FsCall.name : FsCall → String
  | .readFile name => name
  | .access name => name
  | .writeFile name _ _ => name

def FsAnswer : FsCall → Type
  | .readFile _ => Except FsError String
  | _ => Except FsError Unit

abbrev Loading := Program Empty FsCall FsAnswer FsError

def isHexDigit (c : Char) : Bool := ('0' ≤ c && c ≤ '9') || ('a' ≤ c && c ≤ 'f')

/-- `/^[0-9a-f]{24}$/`. -/
def isValidDeviceId (id : String) : Bool := id.toList.length = 24 && id.toList.all isHexDigit

def base64Char (n : ℕ) : Char :=
  ("ABCDEFGHIJKLMNOPQRSTUVWXYZabcdefghijklmnopqrstuvwxyz0123456789+/".toList)[n]?.getD '='

/-- `buffer.toString('base64')`. -/
def base64 : Bytes → List Char
  | a::b::c::rest =>
      base64Char (a.toNat/4)::base64Char (a.toNat%4*16+b.toNat/16)::
        base64Char (b.toNat%16*4+c.toNat/64)::base64Char (c.toNat%64)::base64 rest
  | [a,b] =>
      [base64Char (a.toNat/4),base64Char (a.toNat%4*16+b.toNat/16),base64Char (b.toNat%16*4),'=']
  | [a] => [base64Char (a.toNat/4),base64Char (a.toNat%4*16),'=','=']
  | [] => []

def derToPem (der : Bytes) : String :=
  let lines := (base64 der).toChunks 64 |>.map String.ofList
  String.intercalate "\n" (["-----BEGIN PUBLIC KEY-----"]++lines++["-----END PUBLIC KEY-----"])++"\n"

/-- The name of a file in the directory stands for its path: it has no separator. -/
def canonicalName (coreId : String) : String := coreId++".pub.pem"

def quarantineName (coreId : String) : String := coreId++"_handshake.pub.pem"

def invalidDeviceId (id : String) : FsError := { message := "invalid device id: "++id }

/-- Put the key aside unless one is there. -/
def quarantine (coreId : String) (inlineDer : Option Bytes) : Loading Unit :=
  match inlineDer with
  | none => pure ()
  | some der =>
      if der.length > 0 then
        tryCatch (.call (.access (quarantineName coreId)) settled) fun _ =>
          .call (.writeFile (quarantineName coreId) (derToPem der) 0o600) settled
      else pure ()

/-- The function that `makeFsCoreKeyLoader` makes. -/
def loadCoreKey (coreId : String) (inlineDer : Option Bytes) : Loading (Option String) := do
  if isValidDeviceId coreId = false then throw (invalidDeviceId coreId)
  else
    let found ← tryCatch (do return some (← .call (.readFile (canonicalName coreId)) settled))
      fun err => if err.code ≠ some "ENOENT" then throw err else pure none
    match found with
    | some pem => return some pem
    | none =>
        quarantine coreId inlineDer
        return none

/-- File names and contents. -/
abbrev Directory := String → Option String

structure LoaderCall where
  coreId : String
  inlineDer : Option Bytes
  program : Loading (Option String)

/-- The directory with the calls of the loader so far. -/
structure KeyStore where
  dir : Directory
  calls : List LoaderCall := []
  faults : List (ℕ × FsError) := []

def noEntry (operation name : String) : FsError :=
  { message := "ENOENT: no such file or directory, "++operation++" '"++name++"'",
    code := some "ENOENT" }

def perform (d : Directory) : (c : FsCall) → FsAnswer c × Directory
  | .readFile name =>
      match d name with
      | some text => (.ok text,d)
      | none => (.error (noEntry "open" name),d)
  | .access name =>
      if (d name).isSome then (.ok (),d) else (.error (noEntry "access" name),d)
  | .writeFile name data _ => (.ok (),Function.update d name (some data))

def refuse (err : FsError) : (c : FsCall) → FsAnswer c
  | .readFile _ => .error err
  | .access _ => .error err
  | .writeFile _ _ _ => .error err

/-- Only a missing file is reported as missing. -/
def Refusable (err : FsError) : FsCall → Prop
  | .readFile _ => err.code ≠ some "ENOENT"
  | _ => True

instance (err : FsError) (c : FsCall) : Decidable (Refusable err c) := by
  cases c <;> unfold Refusable <;> infer_instance

inductive StoreEvent where
  | invoke (coreId : String) (inlineDer : Option Bytes)
  /-- The operation that call `i` waits for is done. -/
  | finish (i : ℕ)
  /-- The write of call `i` is under way, and so far the file holds this text. -/
  | writing (i : ℕ) (text : String)
  /-- The operation fails. -/
  | fault (i : ℕ) (err : FsError)

def storeStep (s : KeyStore) : StoreEvent → Option KeyStore
  | .invoke coreId inlineDer =>
      some { s with calls := s.calls++[⟨coreId,inlineDer,loadCoreKey coreId inlineDer⟩] }
  | .finish i =>
      match s.calls[i]? with
      | some ⟨coreId,inlineDer,.call c k⟩ =>
          let (a,dir) := perform s.dir c
          some { s with dir := dir, calls := s.calls.set i ⟨coreId,inlineDer,k a⟩ }
      | _ => none
  | .writing i text =>
      match s.calls[i]? with
      | some ⟨_,_,.call (.writeFile name _ _) _⟩ =>
          some { s with dir := Function.update s.dir name (some text) }
      | _ => none
  | .fault i err =>
      match s.calls[i]? with
      | some ⟨coreId,inlineDer,.call c k⟩ =>
          if Refusable err c then
            some { s with calls := s.calls.set i ⟨coreId,inlineDer,k (refuse err c)⟩,
                          faults := s.faults++[(i,err)] }
          else none
      | _ => none

/-- What a step does, by the call that it is about. -/
inductive StoreMoves (s : KeyStore) : StoreEvent → KeyStore → Prop
  | invoke (coreId : String) (inlineDer : Option Bytes) :
      StoreMoves s (.invoke coreId inlineDer)
        { s with calls := s.calls++[⟨coreId,inlineDer,loadCoreKey coreId inlineDer⟩] }
  | finish {i : ℕ} {coreId : String} {inlineDer : Option Bytes} {c : FsCall}
      {k : FsAnswer c → Loading (Option String)} :
      s.calls[i]? = some ⟨coreId,inlineDer,.call c k⟩ →
      StoreMoves s (.finish i) { s with
        dir := (perform s.dir c).2,
        calls := s.calls.set i ⟨coreId,inlineDer,k (perform s.dir c).1⟩ }
  | writing {i : ℕ} {text coreId : String} {inlineDer : Option Bytes} {name data : String} {mode : ℕ}
      {k : Except FsError Unit → Loading (Option String)} :
      s.calls[i]? = some ⟨coreId,inlineDer,.call (.writeFile name data mode) k⟩ →
      StoreMoves s (.writing i text) { s with dir := Function.update s.dir name (some text) }
  | fault {i : ℕ} {err : FsError} {coreId : String} {inlineDer : Option Bytes} {c : FsCall}
      {k : FsAnswer c → Loading (Option String)} :
      s.calls[i]? = some ⟨coreId,inlineDer,.call c k⟩ → Refusable err c →
      StoreMoves s (.fault i err) { s with
        calls := s.calls.set i ⟨coreId,inlineDer,k (refuse err c)⟩,
        faults := s.faults++[(i,err)] }

theorem storeStep_cases {s t : KeyStore} {e : StoreEvent} (h : storeStep s e = some t) :
    StoreMoves s e t := by
  cases e with
  | invoke coreId inlineDer =>
      obtain rfl := Option.some.inj h
      exact .invoke coreId inlineDer
  | finish i =>
      simp only [storeStep] at h
      split at h
      · next hi =>
          obtain rfl := Option.some.inj h
          exact .finish hi
      · cases h
  | writing i text =>
      simp only [storeStep] at h
      split at h
      · next hi =>
          obtain rfl := Option.some.inj h
          exact .writing hi
      · cases h
  | fault i err =>
      simp only [storeStep] at h
      split at h
      · next hi =>
          split_ifs at h with hr
          obtain rfl := Option.some.inj h
          exact .fault hi hr
      · cases h

theorem storeStep_finish {s : KeyStore} {i : ℕ} {coreId : String} {inlineDer : Option Bytes}
    {c : FsCall} {k : FsAnswer c → Loading (Option String)}
    (h : s.calls[i]? = some ⟨coreId,inlineDer,.call c k⟩) :
    storeStep s (.finish i) = some { s with
      dir := (perform s.dir c).2,
      calls := s.calls.set i ⟨coreId,inlineDer,k (perform s.dir c).1⟩ } := by
  simp only [storeStep,h]

/-- Where a call comes from: it was there, or it is new, or one of its operations has
been answered. -/
inductive CameFrom (s : KeyStore) (e : StoreEvent) (j : ℕ) (c : LoaderCall) : Prop
  | same : s.calls[j]? = some c → CameFrom s e j c
  | fresh : e = .invoke c.coreId c.inlineDer → j = s.calls.length →
      c.program = loadCoreKey c.coreId c.inlineDer → CameFrom s e j c
  | done {op : FsCall} {k : FsAnswer op → Loading (Option String)} : e = .finish j →
      s.calls[j]? = some ⟨c.coreId,c.inlineDer,.call op k⟩ →
      c.program = k (perform s.dir op).1 → CameFrom s e j c
  | refused {op : FsCall} {k : FsAnswer op → Loading (Option String)} {err : FsError} :
      e = .fault j err → s.calls[j]? = some ⟨c.coreId,c.inlineDer,.call op k⟩ →
      Refusable err op → c.program = k (refuse err op) → CameFrom s e j c

theorem storeStep_call {s t : KeyStore} {e : StoreEvent} (h : storeStep s e = some t) {j : ℕ}
    {c : LoaderCall} (hj : t.calls[j]? = some c) : CameFrom s e j c := by
  cases storeStep_cases h with
  | invoke coreId inlineDer =>
      rcases getElem?_concat_cases hj with hj | ⟨hlen,rfl⟩
      · exact .same hj
      · exact .fresh rfl hlen rfl
  | finish hi =>
      rcases getElem?_set_cases hj with ⟨rfl,rfl⟩ | ⟨-,hj⟩
      · exact .done rfl hi rfl
      · exact .same hj
  | writing hi => exact .same hj
  | fault hi hr =>
      rcases getElem?_set_cases hj with ⟨rfl,rfl⟩ | ⟨-,hj⟩
      · exact .refused rfl hi hr rfl
      · exact .same hj

theorem storeStep_length {s t : KeyStore} {e : StoreEvent} (h : storeStep s e = some t) :
    s.calls.length ≤ t.calls.length := by
  cases storeStep_cases h with
  | invoke _ _ => simp
  | finish _ => simp
  | writing _ => simp
  | fault _ _ => simp

/-- What has failed stays on record. -/
theorem storeStep_faults {s t : KeyStore} {e : StoreEvent} (h : storeStep s e = some t)
    {f : ℕ × FsError} (hf : f ∈ s.faults) : f ∈ t.faults := by
  cases storeStep_cases h with
  | fault _ _ => exact List.mem_append_left _ hf
  | _ => exact hf

theorem storeStep_fault {s t : KeyStore} {i : ℕ} {err : FsError}
    (h : storeStep s (.fault i err) = some t) : (i,err) ∈ t.faults := by
  cases storeStep_cases h with
  | fault _ _ => exact List.mem_append_right _ (List.mem_singleton_self _)

section Names
variable {coreId other : String}

/-- Names of different length: what is put aside is never a canonical file. -/
theorem quarantineName_ne_canonicalName (h : isValidDeviceId coreId = true)
    (h' : isValidDeviceId other = true) : quarantineName coreId ≠ canonicalName other := by
  intro he
  simp only [isValidDeviceId,Bool.and_eq_true,decide_eq_true_eq] at h h'
  have hlen := congrArg (fun n => n.toList.length) he
  simp [quarantineName,canonicalName,String.toList_append,h.1,h'.1] at hlen

/-- A single path component. -/
structure Inside (name : String) : Prop where
  separator : '/' ∉ name.toList ∧ '\\' ∉ name.toList
  self : name ≠ "."
  parent : name ≠ ".."

theorem inside_suffix (h : isValidDeviceId coreId = true) {suffix : String}
    (hs : '/' ∉ suffix.toList ∧ '\\' ∉ suffix.toList) : Inside (coreId++suffix) := by
  simp only [isValidDeviceId,Bool.and_eq_true,decide_eq_true_eq,List.all_eq_true] at h
  obtain ⟨hlen,hhex⟩ := h
  have hlong : 24 ≤ (coreId++suffix).toList.length := by
    simp only [String.toList_append,List.length_append,hlen]
    omega
  refine ⟨⟨?_,?_⟩,?_,?_⟩
  · simp only [String.toList_append,List.mem_append,not_or]
    exact ⟨fun hm => absurd (hhex _ hm) (by decide),hs.1⟩
  · simp only [String.toList_append,List.mem_append,not_or]
    exact ⟨fun hm => absurd (hhex _ hm) (by decide),hs.2⟩
  · intro he
    rw [he] at hlong
    exact absurd hlong (by decide)
  · intro he
    rw [he] at hlong
    exact absurd hlong (by decide)

theorem inside_canonicalName (h : isValidDeviceId coreId = true) : Inside (canonicalName coreId) :=
  inside_suffix h (by decide)

theorem inside_quarantineName (h : isValidDeviceId coreId = true) :
    Inside (quarantineName coreId) :=
  inside_suffix h (by decide)

end Names

section Stages
variable (coreId : String) (inlineDer : Option Bytes)

def written : Except FsError Unit → Loading (Option String)
  | .ok () => .done none
  | .error err => .fail err

def accessed (der : Bytes) : Except FsError Unit → Loading (Option String)
  | .ok () => .done none
  | .error _ => .call (.writeFile (quarantineName coreId) (derToPem der) 0o600) written

/-- The canonical file is missing. -/
def missing : Loading (Option String) :=
  match inlineDer with
  | none => .done none
  | some der =>
      if der.length > 0 then .call (.access (quarantineName coreId)) (accessed coreId der)
      else .done none

def looked : Except FsError String → Loading (Option String)
  | .ok pem => .done (some pem)
  | .error err => if err.code ≠ some "ENOENT" then .fail err else missing coreId inlineDer

variable {coreId inlineDer}

theorem loadCoreKey_invalid (h : isValidDeviceId coreId = false) :
    loadCoreKey coreId inlineDer = .fail (invalidDeviceId coreId) := by
  simp [loadCoreKey,h]

theorem looked_refused {err : FsError} (h : err.code ≠ some "ENOENT") :
    looked coreId inlineDer (.error err) = .fail err :=
  if_pos h

theorem looked_missing {err : FsError} (h : err.code = some "ENOENT") :
    looked coreId inlineDer (.error err) = missing coreId inlineDer :=
  if_neg (not_not.mpr h)

theorem quarantine_eq :
    (quarantine coreId inlineDer >>= fun _ => (pure none : Loading (Option String))) =
      missing coreId inlineDer := by
  cases inlineDer with
  | none => rfl
  | some der =>
      simp only [quarantine,missing]
      split
      · refine congrArg (Program.call (FsCall.access (quarantineName coreId))) (funext fun a => ?_)
        cases a with
        | ok _ => rfl
        | error _ =>
            refine congrArg (Program.call (FsCall.writeFile _ _ _)) (funext fun b => ?_)
            cases b <;> rfl
      · rfl

theorem loadCoreKey_valid (h : isValidDeviceId coreId = true) :
    loadCoreKey coreId inlineDer = .call (.readFile (canonicalName coreId)) (looked coreId inlineDer) := by
  simp only [loadCoreKey,h,Bool.true_eq_false,if_false]
  refine congrArg (Program.call (FsCall.readFile (canonicalName coreId))) (funext fun a => ?_)
  cases a with
  | ok pem => rfl
  | error err =>
      simp only [settled_error,Program.bind,Program.handle,looked]
      by_cases hc : err.code = some "ENOENT"
      · simp only [hc,ne_eq,not_true_eq_false,if_false,pure_eq,Program.bind]
        exact quarantine_eq
      · simp only [hc,ne_eq,not_false_eq_true,if_true,throw_eq,Program.bind]

end Stages

/-- Where a call can be, over a directory whose canonical files are those of `d`.
`Faulted` are the failures of its own operations. -/
inductive Stage (d : Directory) (Faulted : FsError → Prop) (coreId : String)
    (inlineDer : Option Bytes) : Loading (Option String) → Prop
  | refused : isValidDeviceId coreId = false →
      Stage d Faulted coreId inlineDer (.fail (invalidDeviceId coreId))
  | reading : isValidDeviceId coreId = true →
      Stage d Faulted coreId inlineDer
        (.call (.readFile (canonicalName coreId)) (looked coreId inlineDer))
  | checking {der : Bytes} : isValidDeviceId coreId = true → d (canonicalName coreId) = none →
      Stage d Faulted coreId inlineDer
        (.call (.access (quarantineName coreId)) (accessed coreId der))
  | storing {der : Bytes} : isValidDeviceId coreId = true → d (canonicalName coreId) = none →
      Stage d Faulted coreId inlineDer
        (.call (.writeFile (quarantineName coreId) (derToPem der) 0o600) written)
  | resolved : isValidDeviceId coreId = true →
      Stage d Faulted coreId inlineDer (.done (d (canonicalName coreId)))
  | failed {err : FsError} : isValidDeviceId coreId = true → Faulted err →
      Stage d Faulted coreId inlineDer (.fail err)

section Calls
variable {d dir : Directory} {Faulted : FsError → Prop} {coreId : String} {inlineDer : Option Bytes}

theorem Stage.mono {Faulted' : FsError → Prop} (hf : ∀ err, Faulted err → Faulted' err)
    {p : Loading (Option String)} (h : Stage d Faulted coreId inlineDer p) :
    Stage d Faulted' coreId inlineDer p := by
  cases h with
  | refused hv => exact .refused hv
  | reading hv => exact .reading hv
  | checking hv hn => exact .checking hv hn
  | storing hv hn => exact .storing hv hn
  | resolved hv => exact .resolved hv
  | failed hv he => exact .failed hv (hf _ he)

theorem Stage.none (hv : isValidDeviceId coreId = true) (hn : d (canonicalName coreId) = Option.none) :
    Stage d Faulted coreId inlineDer (.done Option.none) :=
  hn ▸ .resolved hv

theorem loadCoreKey_stage : Stage d Faulted coreId inlineDer (loadCoreKey coreId inlineDer) := by
  cases hv : isValidDeviceId coreId with
  | false =>
      rw [loadCoreKey_invalid hv]
      exact .refused hv
  | true =>
      rw [loadCoreKey_valid hv]
      exact .reading hv

theorem missing_stage (hv : isValidDeviceId coreId = true) (hn : d (canonicalName coreId) = none) :
    Stage d Faulted coreId inlineDer (missing coreId inlineDer) := by
  unfold missing
  split
  · exact .none hv hn
  · split
    · exact .checking hv hn
    · exact .none hv hn

/-- The canonical files of two directories are the same. -/
def SameKeys (dir d : Directory) : Prop :=
  ∀ id, isValidDeviceId id = true → dir (canonicalName id) = d (canonicalName id)

theorem SameKeys.update (h : SameKeys dir d) (hv : isValidDeviceId coreId = true) (text : String) :
    SameKeys (Function.update dir (quarantineName coreId) (some text)) d := by
  intro id hid
  rw [Function.update_of_ne (quarantineName_ne_canonicalName hv hid).symm]
  exact h id hid

theorem perform_readFile_none {name : String} (h : dir name = none) :
    perform dir (.readFile name) = (.error (noEntry "open" name),dir) := by
  simp only [perform,h]

theorem perform_readFile_some {name pem : String} (h : dir name = some pem) :
    perform dir (.readFile name) = (.ok pem,dir) := by
  simp only [perform,h]

theorem perform_access_none {name : String} (h : dir name = none) :
    perform dir (.access name) = (.error (noEntry "access" name),dir) := by
  simp [perform,h]

theorem perform_access (dir : Directory) (name : String) :
    perform dir (.access name) = (.ok (),dir) ∨
      perform dir (.access name) = (.error (noEntry "access" name),dir) := by
  simp only [perform]
  split
  · exact .inl rfl
  · exact .inr rfl

/-- An operation that is done leaves the canonical files and moves its call on. -/
theorem perform_stage (hd : SameKeys dir d) {c : FsCall} {k : FsAnswer c → Loading (Option String)}
    (h : Stage d Faulted coreId inlineDer (.call c k)) :
    SameKeys (perform dir c).2 d ∧ Stage d Faulted coreId inlineDer (k (perform dir c).1) := by
  cases h with
  | reading hv =>
      have hsame := hd coreId hv
      cases hpem : dir (canonicalName coreId) with
      | some pem =>
          have hdone : Stage d Faulted coreId inlineDer (.done (d (canonicalName coreId))) :=
            .resolved hv
          rw [← hsame,hpem] at hdone
          rw [perform_readFile_some hpem]
          exact ⟨hd,hdone⟩
      | none =>
          rw [perform_readFile_none hpem]
          exact ⟨hd,missing_stage hv (hsame.symm.trans hpem)⟩
  | checking hv hn =>
      rcases perform_access dir (quarantineName coreId) with hok | herr
      · rw [hok]
        exact ⟨hd,.none hv hn⟩
      · rw [herr]
        exact ⟨hd,.storing hv hn⟩
  | storing hv hn => exact ⟨hd.update hv _,.none hv hn⟩

/-- An operation that fails is forgiven or ends the call. -/
theorem refuse_stage {c : FsCall} {k : FsAnswer c → Loading (Option String)} {err : FsError}
    (h : Stage d Faulted coreId inlineDer (.call c k)) (hr : Refusable err c) (hf : Faulted err) :
    Stage d Faulted coreId inlineDer (k (refuse err c)) := by
  cases h with
  | reading hv =>
      change Stage _ _ _ _ (looked coreId inlineDer (.error err))
      rw [looked_refused hr]
      exact .failed hv hf
  | checking hv hn => exact .storing hv hn
  | storing hv hn => exact .failed hv hf

end Calls

/-- What every run keeps: the canonical files, and where each call is. -/
structure Guarded (d : Directory) (s : KeyStore) : Prop where
  keys : SameKeys s.dir d
  stages : ∀ i c, s.calls[i]? = some c →
    Stage d (fun err => (i,err) ∈ s.faults) c.coreId c.inlineDer c.program

section Steps
variable {d : Directory} {s t : KeyStore} {e : StoreEvent}

theorem guarded_keeps (h : Guarded d s) (hstep : storeStep s e = some t) : Guarded d t := by
  constructor
  · cases storeStep_cases hstep with
    | invoke coreId inlineDer => exact h.keys
    | finish hi => exact (perform_stage h.keys (h.stages _ _ hi)).1
    | @writing i text coreId inlineDer name data mode k hi =>
        have hstage : Stage d (fun err => (i,err) ∈ s.faults) coreId inlineDer
            (.call (.writeFile name data mode) k) := h.stages i _ hi
        cases hstage with
        | storing hv hn => exact h.keys.update hv text
    | fault hi hr => exact h.keys
  · intro j c hj
    have hmono : ∀ {coreId inlineDer p}, Stage d (fun err => (j,err) ∈ s.faults) coreId inlineDer p →
        Stage d (fun err => (j,err) ∈ t.faults) coreId inlineDer p :=
      fun hs => hs.mono fun _ hf => storeStep_faults hstep hf
    cases storeStep_call hstep hj with
    | same hj => exact hmono (h.stages j c hj)
    | fresh _ _ hprogram =>
        rw [hprogram]
        exact loadCoreKey_stage
    | done _ hj hprogram =>
        rw [hprogram]
        exact hmono (perform_stage h.keys (h.stages j _ hj)).2
    | refused he hj hr hprogram =>
        rw [hprogram]
        exact refuse_stage (hmono (h.stages j _ hj)) hr (storeStep_fault (he ▸ hstep))

end Steps

/-- The result of a call whose operations do not fail. -/
def answerOf (d : Directory) (coreId : String) : Except FsError (Option String) :=
  if isValidDeviceId coreId then .ok (d (canonicalName coreId)) else .error (invalidDeviceId coreId)

/-- What the calls can have done to a directory with the canonical files of `d`. -/
structure Trusted (d : Directory) (s : KeyStore) : Prop where
  keys : SameKeys s.dir d
  /-- A call under a wrong id waits for no operation at any time. -/
  refuses : ∀ c ∈ s.calls, isValidDeviceId c.coreId = false →
    c.program = .fail (invalidDeviceId c.coreId)
  inside : ∀ c ∈ s.calls, ∀ op k, c.program = .call op k → Inside op.name
  resolves : ∀ c ∈ s.calls, ∀ pem, c.program = .done (some pem) →
    isValidDeviceId c.coreId = true ∧ s.dir (canonicalName c.coreId) = some pem

section Trust
variable {d d' : Directory} {s s' : KeyStore} {es es' : List StoreEvent}

theorem Guarded.start (d : Directory) : Guarded d { dir := d } :=
  ⟨fun _ _ => rfl,fun i c hc => by simp at hc⟩

theorem Guarded.trusted (h : Guarded d s) : Trusted d s := by
  have hstage : ∀ c ∈ s.calls, ∃ Faulted, Stage d Faulted c.coreId c.inlineDer c.program := by
    intro c hc
    obtain ⟨i,hi⟩ := List.mem_iff_getElem?.mp hc
    exact ⟨_,h.stages i c hi⟩
  refine ⟨h.keys,?_,?_,?_⟩
  · intro c hc hinvalid
    obtain ⟨Faulted,hs⟩ := hstage c hc
    generalize c.program = p at hs
    cases hs with
    | refused _ => rfl
    | reading hv => simp [hinvalid] at hv
    | checking hv _ => simp [hinvalid] at hv
    | storing hv _ => simp [hinvalid] at hv
    | resolved hv => simp [hinvalid] at hv
    | failed hv _ => simp [hinvalid] at hv
  · intro c hc op k hop
    obtain ⟨Faulted,hs⟩ := hstage c hc
    rw [hop] at hs
    cases hs with
    | reading hv => exact inside_canonicalName hv
    | checking hv _ => exact inside_quarantineName hv
    | storing hv _ => exact inside_quarantineName hv
  · intro c hc pem hpem
    obtain ⟨Faulted,hs⟩ := hstage c hc
    generalize hp : c.program = p at hs
    cases hs with
    | resolved hv =>
        rw [hpem] at hp
        exact ⟨hv,(h.keys _ hv).trans (Program.done.inj hp).symm⟩
    | _ => simp [hpem] at hp

/-- A call that has resolved gives the canonical file, and one that was not failed
gives what the directory said at the start. -/
theorem Guarded.answer (h : Guarded d s) {i : ℕ} {c : LoaderCall} (hc : s.calls[i]? = some c) :
    (∀ v, c.program = .done v → isValidDeviceId c.coreId = true ∧ v = d (canonicalName c.coreId)) ∧
      ∀ r, c.program.outcome = some r → (∀ err, (i,err) ∉ s.faults) → r = answerOf d c.coreId := by
  have hs := h.stages i c hc
  generalize c.program = p at hs
  cases hs with
  | refused hv =>
      refine ⟨nofun,fun r hr _ => ?_⟩
      obtain rfl := Option.some.inj hr
      simp [answerOf,hv]
  | resolved hv =>
      refine ⟨fun v hv' => ⟨hv,(Program.done.inj hv').symm⟩,fun r hr _ => ?_⟩
      obtain rfl := Option.some.inj hr
      simp [answerOf,hv]
  | failed hv he => exact ⟨nofun,fun r _ hn => absurd he (hn _)⟩
  | reading _ => exact ⟨nofun,nofun⟩
  | checking _ _ => exact ⟨nofun,nofun⟩
  | storing _ _ => exact ⟨nofun,nofun⟩

theorem answerOf_congr (hsame : SameKeys d d') (coreId : String) :
    answerOf d coreId = answerOf d' coreId := by
  unfold answerOf
  split
  · next hv => rw [hsame coreId hv]
  · rfl

/-- Calls of the loader never touch a trusted key, and no call can tell which others
came before it. -/
theorem traffic_accepts_no_key (h : Run storeStep { dir := d } es s)
    (h' : Run storeStep { dir := d' } es' s') (hsame : SameKeys d d') :
    Trusted d s ∧ ∀ i j c c', s.calls[i]? = some c → s'.calls[j]? = some c' →
      c.coreId = c'.coreId →
      (∀ v v', c.program = .done v → c'.program = .done v' → v = v') ∧
        ∀ r r', c.program.outcome = some r → c'.program.outcome = some r' →
          (∀ err, (i,err) ∉ s.faults) → (∀ err, (j,err) ∉ s'.faults) → r = r' := by
  have hg := h.keeps (fun _ _ _ _ => guarded_keeps) (.start d)
  have hg' := h'.keeps (fun _ _ _ _ => guarded_keeps) (.start d')
  refine ⟨hg.trusted,fun i j c c' hc hc' hid => ?_⟩
  have ha := hg.answer hc
  have ha' := hg'.answer hc'
  rw [← hid] at ha'
  constructor
  · intro v v' hv hv'
    obtain ⟨hvalid,rfl⟩ := ha.1 v hv
    obtain ⟨-,rfl⟩ := ha'.1 v' hv'
    exact hsame c.coreId hvalid
  · intro r r' hr hr' hn hn'
    rw [ha.2 r hr hn,ha'.2 r' hr' hn']
    exact answerOf_congr hsame c.coreId

end Trust

/-- One device is known. -/
def oneKey : Directory := Function.update (fun _ => none) "36001f000247000000000002.pub.pem" (some "PEM")

/-- A device that is not known sends its key along, and a wrong id is tried. -/
def traffic : List StoreEvent :=
  [.invoke "36001f000247000000000003" (some [48,1]),.invoke "../36001f000247000000000002" (some [48,2]),
    .finish 0,.invoke "36001f000247000000000002" (some [48,3]),.finish 0,.writing 0 "-----BEGIN",
    .finish 2,.finish 0]

theorem traffic_accepts_no_key_known : ∃ s s',
    Run storeStep { dir := oneKey } [.invoke "36001f000247000000000002" none,.finish 0] s ∧
    Run storeStep { dir := oneKey } traffic s' ∧ Trusted oneKey s' ∧
    (s'.dir "36001f000247000000000003_handshake.pub.pem").isSome ∧
    ∀ c c', s.calls[0]? = some c → s'.calls[2]? = some c' → c.coreId = c'.coreId →
      ∀ v v', c.program = .done v → c'.program = .done v' → v = v' := by
  obtain ⟨s,hs,-⟩ : ∃ s, Run storeStep { dir := oneKey }
      [.invoke "36001f000247000000000002" none,.finish 0] s ∧
      s.calls.map (fun c => c.program.outcome) = [some (.ok (some "PEM"))] := by
    apply Run.of_observation
    decide +kernel
  obtain ⟨s',hs',hput⟩ : ∃ s', Run storeStep { dir := oneKey } traffic s' ∧
      (s'.dir "36001f000247000000000003_handshake.pub.pem").isSome = true := by
    apply Run.of_observation
    decide +kernel
  have h := traffic_accepts_no_key hs' hs' fun _ _ => rfl
  have h' := traffic_accepts_no_key hs hs' fun _ _ => rfl
  exact ⟨s,s',hs,hs',h.1,hput,fun c c' hc hc' hid => (h'.2 0 2 c c' hc hc' hid).1⟩

end SparkProtocol.CoreKeys
