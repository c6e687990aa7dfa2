import SparkProtocol.HandshakeTraces

/-!
# Why a handshake is rejected

`runHandshake` throws six errors of its own, each at one stage. Whatever else it
rejects with was thrown at it: a refused read, or the rejection of a service that
it does not catch. Only a header too short for its length field gives an error of
another kind. The stage that it noted last is the stage at which it threw.
-/
namespace SparkProtocol.Handshake
open ByteStrings HostValues StreamPrograms Program Crypto Chunking Coap Messages FramedStreams

/-- The throw sites of `runHandshake`. -/
inductive Fault where
  | rsaDecrypt | plaintextTooSmall | nonceMismatch | coreKeyNotFound | helloAesDecrypt | helloCoapParse
  deriving DecidableEq, Repr

namespace Fault

def message : Fault → String
  | .rsaDecrypt => "RSA decrypt failed"
  | .plaintextTooSmall => "plaintext too small"
  | .nonceMismatch => "nonce mismatch"
  | .coreKeyNotFound => "core key not found"
  | .helloAesDecrypt => "hello AES decrypt failed"
  | .helloCoapParse => "hello CoAP parse failed"

def stage : Fault → Stage
  | .rsaDecrypt => .readCoreId
  | .plaintextTooSmall => .readCoreId
  | .nonceMismatch => .readCoreId
  | .coreKeyNotFound => .getCoreKey
  | .helloAesDecrypt => .getHello
  | .helloCoapParse => .getHello

/-- The error is this one, whatever fields it carries. -/
def Names (f : Fault) (e : JsError) : Prop := e.name = "HandshakeError" ∧ e.message = f.message

theorem Names.unique {f g : Fault} {e : JsError} (hf : f.Names e) (hg : g.Names e) : f = g := by
  have h : f.message = g.message := hf.2.symm.trans hg.2
  cases f <;> cases g <;> first | rfl | (revert h; decide)

end Fault

/-- The rejection of a read or of a service that is passed on as it is. -/
def Passes : Item Note Call Answer JsError → JsError → Prop
  | .note _,_ => False
  | .write _,_ => False
  | .read _ r,e => r = .error e
  | .call (.decrypt _ _) _,_ => False
  | .call (.loadCoreKey _ _) a,e => a = Except.error e
  | .call (.encrypt _ _) a,e => a = Except.error e
  | .call (.sign _ _) a,e => a = Except.error e

def Progress.after (p : Progress) : Item Note Call Answer JsError → Progress
  | .note x => p.record x
  | _ => p

/-- The progress that a history has left. -/
def noted (t : History) : Progress := t.foldl Progress.after {}

theorem noted_append (t u : History) : noted (t++u) = u.foldl Progress.after (noted t) :=
  List.foldl_append

/-- A rejection: an own error at its stage, or one that came from outside. -/
def Explained (t : History) (e : JsError) : Prop :=
  (∃ f : Fault, f.Names e ∧ (noted t).stage = some f.stage) ∨
    (∃ u i, t = u++[i] ∧ Passes i e) ∨ e.name ≠ "HandshakeError"

/-- The program rejects for no other reason, and resolves with a value of this kind. -/
def Explains {α : Type} (P : α → Prop) (t : History) (p : Exchange α) : Prop :=
  Keeps (fun _ => True) (fun _ => True)
    (fun t r => match r with
      | .ok a => P a
      | .error e => Explained t e) t p

section Stages
variable {node : Primitives} {serverPrivKeyPem : String} {draws : Draws} {t : History}

theorem Explains.fault {α : Type} {P : α → Prop} {e : JsError} (f : Fault) (he : f.Names e)
    (ht : (noted t).stage = some f.stage) : Explains P t (.fail e) :=
  .inl ⟨f,he,ht⟩

theorem Explains.passed {α : Type} {P : α → Prop} {e : JsError} (i : Item Note Call Answer JsError)
    (hi : Passes i e) : Explains P (t++[i]) (.fail e) :=
  .inr (.inl ⟨t,i,rfl,hi⟩)

theorem Explains.bind {α β : Type} {P : α → Prop} {Q : β → Prop} {p : Exchange α}
    {f : α → Exchange β} (h : Explains P t p) (k : ∀ t a, P a → Explains Q t (f a)) :
    Explains Q t (p >>= f) :=
  Keeps.bind h k fun _ _ h => h

theorem sendNonce_explains : Explains (fun _ => True) t (sendNonce draws) :=
  ⟨trivial,trivial,trivial⟩

theorem readCoreId_explains (nonce : Bytes) :
    Explains (fun _ => True) t (readCoreId serverPrivKeyPem nonce) := by
  refine ⟨trivial,trivial,?_⟩
  intro r
  cases r with
  | error e => exact Explains.passed _ rfl
  | ok ciphertext =>
      refine ⟨trivial,?_⟩
      intro a
      obtain e | plaintext := (a : Except JsError Bytes)
      · exact Explains.fault .rsaDecrypt ⟨rfl,rfl⟩ (by simp only [noted_append]; rfl)
      · change Explains _ _ (if plaintext.length < 52 then _ else _)
        by_cases hlong : plaintext.length < 52
        · rw [if_pos hlong]
          exact Explains.fault .plaintextTooSmall ⟨rfl,rfl⟩ (by simp only [noted_append]; rfl)
        · rw [if_neg hlong]
          by_cases hnonce : slice plaintext 0 40 ≠ nonce
          · rw [if_pos hnonce]
            exact Explains.fault .nonceMismatch ⟨rfl,rfl⟩ (by simp only [noted_append]; rfl)
          · rw [if_neg hnonce]
            exact ⟨trivial,trivial⟩

theorem getCoreKey_explains (coreId : String) (inlineDer : Option Bytes) :
    Explains (fun _ => True) t (getCoreKey coreId inlineDer) := by
  refine ⟨trivial,trivial,?_⟩
  intro a
  obtain e | found := (a : Except JsError (Option String))
  · exact Explains.passed _ rfl
  · cases found with
    | none => exact Explains.fault .coreKeyNotFound ⟨rfl,rfl⟩ (by simp only [noted_append]; rfl)
    | some key =>
        change Explains _ _ (if key = "" then _ else _)
        by_cases hkey : key = ""
        · rw [if_pos hkey]
          exact Explains.fault .coreKeyNotFound ⟨rfl,rfl⟩ (by simp only [noted_append]; rfl)
        · rw [if_neg hkey]
          exact trivial

theorem sendSessionKey_explains (corePubPem : String) :
    Explains (fun aes => aes = initialParams draws) t
      (sendSessionKey node serverPrivKeyPem corePubPem draws.sessionKey) := by
  refine ⟨trivial,trivial,?_⟩
  intro a
  obtain e | sessionCiphertext := (a : Except JsError Bytes)
  · exact Explains.passed _ rfl
  · refine ⟨trivial,?_⟩
    intro a
    obtain e | signature := (a : Except JsError Bytes)
    · exact Explains.passed _ rfl
    · refine ⟨trivial,?_⟩
      change Explains _ _ (settled (deriveAesParams draws.sessionKey))
      rw [deriveAesParams_ok draws.sessionKey_length]
      rfl

theorem openHello_faults {aes : AesParams} {frame : Bytes} {e : JsError}
    (h : openHello node aes frame = .error e) :
    Fault.Names .helloAesDecrypt e ∨ Fault.Names .helloCoapParse e := by
  unfold openHello at h
  split at h
  · cases h
    exact .inl ⟨rfl,rfl⟩
  · split at h
    · cases h
      exact .inr ⟨rfl,rfl⟩
    · cases h

theorem readUInt16BE_name {buf : Bytes} {pos : ℕ} {e : JsError} (h : readUInt16BE buf pos = .error e) :
    e.name = "RangeError" := by
  unfold readUInt16BE at h
  split at h
  · cases h
  · cases h
    split_ifs <;> rfl

theorem getHello_explains (aes : AesParams) : Explains (fun _ => True) t (getHello node aes) := by
  refine ⟨trivial,trivial,?_⟩
  intro r
  cases r with
  | error e => exact Explains.passed _ rfl
  | ok head =>
      change Explains _ _ ((settled (readUInt16BE head 0) >>= readBytes) >>= _)
      cases hn : readUInt16BE head 0 with
      | error e => exact .inr (.inr (by simp [readUInt16BE_name hn]))
      | ok size =>
          refine ⟨trivial,?_⟩
          intro r
          cases r with
          | error e => exact Explains.passed _ rfl
          | ok body =>
              change Explains _ _ (settled (openHello node aes body))
              cases ho : openHello node aes body with
              | error e =>
                  rcases openHello_faults ho with hf | hf
                  · exact Explains.fault _ hf (by simp only [noted_append]; rfl)
                  · exact Explains.fault _ hf (by simp only [noted_append]; rfl)
              | ok hello => exact trivial

theorem sendHello_explains :
    Explains (fun _ => True) t (sendHello node (initialParams draws) draws.counter) := by
  obtain ⟨counter,reply,-,-,hsend⟩ := sendHello_eq node draws
  rw [hsend]
  exact ⟨trivial,trivial,trivial,trivial⟩

end Stages

/-- Every rejection of the handshake is explained. -/
theorem rejection_explained {node : Primitives} {serverPrivKeyPem : String} {draws : Draws}
    {t : History} {e : JsError} (h : Runs (runHandshake node serverPrivKeyPem draws) t (.fail e)) :
    Explained t e := by
  have hrun : Explains (fun _ => True) [] (runHandshake node serverPrivKeyPem draws) := by
    apply sendNonce_explains.bind
    intro t _ _
    apply (readCoreId_explains _).bind
    rintro t ⟨coreId,inlineDer⟩ _
    apply (getCoreKey_explains _ _).bind
    intro t key _
    apply (sendSessionKey_explains _).bind
    rintro t _ rfl
    apply (getHello_explains _).bind
    intro t hello _
    apply sendHello_explains.bind
    intro t out _
    exact trivial
  exact hrun.sound h

end SparkProtocol.Handshake
