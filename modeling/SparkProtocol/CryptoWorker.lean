import SparkProtocol.HostValues
import SparkProtocol.OrderedMaps

/-!
# RSA operations and the thread that runs them

The four operations work on parsed keys. A worker thread parses a key text once
and remembers it: each of its two caches holds the keys used last, in the order of
their use, and forgets the oldest beyond a bound. A cache never changes what an
operation gives, because every entry is what parsing its text gives.

Key objects and the RSA primitives on them are the host's and stay arbitrary.
-/
namespace SparkProtocol.CryptoPools
open ByteStrings HostValues OrderedMaps

/-- The RSA half of the host's crypto module, with PKCS#1 padding throughout. -/
structure HostRsa (K : Type) where
  createPublicKey : String → Except JsError K
  createPrivateKey : String → Except JsError K
  publicEncrypt : K → Bytes → Except JsError Bytes
  privateDecrypt : K → Bytes → Except JsError Bytes
  privateEncrypt : K → Bytes → Except JsError Bytes
  publicDecrypt : K → Bytes → Except JsError Bytes

variable {K : Type} (host : HostRsa K)

/-- Keys cross the thread boundary as PEM texts. -/
def loadPublicKey (keyPem : String) : Except JsError K := host.createPublicKey keyPem

def loadPrivateKey (keyPem : String) : Except JsError K := host.createPrivateKey keyPem

def rsaEncrypt (publicKey : K) (plaintext : Bytes) : Except JsError Bytes :=
  host.publicEncrypt publicKey plaintext

def rsaDecrypt (privateKey : K) (ciphertext : Bytes) : Except JsError Bytes :=
  host.privateDecrypt privateKey ciphertext

def rsaSign (privateKey : K) (hash : Bytes) : Except JsError Bytes :=
  host.privateEncrypt privateKey hash

def rsaVerify (publicKey : K) (hash signature : Bytes) : Bool :=
  match host.publicDecrypt publicKey signature with
  | .error _ => false
  | .ok recovered => if recovered.length ≠ hash.length then false else decide (recovered = hash)

/-- What a caller asks of the pool. -/
inductive Task where
  | encrypt (keyPem : String) (data : Bytes)
  | decrypt (keyPem : String) (data : Bytes)
  | sign (keyPem : String) (data : Bytes)
  | verify (keyPem : String) (data extra : Bytes)
  deriving DecidableEq, Repr

/-- What it gets. -/
inductive Value where
  | bytes (b : Bytes)
  | verdict (ok : Bool)
  deriving DecidableEq, Repr

/-- The operation on the task's own key and data. -/
def Task.operation : Task → Except JsError Value
  | .encrypt keyPem data => do return .bytes (← rsaEncrypt host (← loadPublicKey host keyPem) data)
  | .decrypt keyPem data => do return .bytes (← rsaDecrypt host (← loadPrivateKey host keyPem) data)
  | .sign keyPem data => do return .bytes (← rsaSign host (← loadPrivateKey host keyPem) data)
  | .verify keyPem data extra => do
      return .verdict (rsaVerify host (← loadPublicKey host keyPem) data extra)

def LRU_MAX : ℕ := 64

abbrev Cache (K : Type) := OrderedMap String K

def lruGet (cache : Cache K) (pem : String) : Option K × Cache K :=
  match cache.get pem with
  | none => (none,cache)
  | some hit => (some hit,(cache.delete pem).set pem hit)

def lruSet (cache : Cache K) (pem : String) (obj : K) : Cache K :=
  let cache := cache.set pem obj
  if cache.entries.length > LRU_MAX then
    match cache.entries with
    | (oldest,_)::_ => cache.delete oldest
    | [] => cache
  else cache

/-- `getPub` and `getPriv` are this with their own parser. -/
def getKey (load : String → Except JsError K) (cache : Cache K) (pem : String) :
    Except JsError K × Cache K :=
  match lruGet cache pem with
  | (some k,cache) => (.ok k,cache)
  | (none,cache) =>
      match load pem with
      | .ok k => (.ok k,lruSet cache pem k)
      | .error e => (.error e,cache)

structure Message where
  id : ℕ
  task : Task
  deriving DecidableEq, Repr

structure Reply where
  id : ℕ
  /-- An error crosses back as its message. -/
  outcome : Except String Bytes

structure Caches (K : Type) where
  pubCache : Cache K := .empty
  privCache : Cache K := .empty

def getPub (c : Caches K) (pem : String) : Except JsError K × Caches K :=
  let (r,cache) := getKey (loadPublicKey host) c.pubCache pem
  (r,{ c with pubCache := cache })

def getPriv (c : Caches K) (pem : String) : Except JsError K × Caches K :=
  let (r,cache) := getKey (loadPrivateKey host) c.privCache pem
  (r,{ c with privCache := cache })

/-- The `switch` of the worker, with the caches as they are left. -/
def compute (c : Caches K) : Task → Except JsError Bytes × Caches K
  | .encrypt keyPem data =>
      let (k,c) := getPub host c keyPem
      (k.bind fun k => rsaEncrypt host k data,c)
  | .decrypt keyPem data =>
      let (k,c) := getPriv host c keyPem
      (k.bind fun k => rsaDecrypt host k data,c)
  | .sign keyPem data =>
      let (k,c) := getPriv host c keyPem
      (k.bind fun k => rsaSign host k data,c)
  | .verify keyPem data extra =>
      let (k,c) := getPub host c keyPem
      (k.bind fun k => .ok [if rsaVerify host k data extra then 1 else 0],c)

def onTask (c : Caches K) (msg : Message) : Reply × Caches K :=
  match compute host c msg.task with
  | (.ok result,c) => (⟨msg.id,.ok result⟩,c)
  | (.error err,c) => (⟨msg.id,.error err.message⟩,c)

/-- The value of the promise that the caller holds, from the bytes of the reply:
`verify` turns them into a truth value. -/
def Task.returned (t : Task) (result : Bytes) : Value :=
  match t with
  | .verify _ _ _ => .verdict (decide (result = [1]))
  | _ => .bytes result

/-- Every cached key is what parsing its text gives. -/
structure Caches.Sound (c : Caches K) : Prop where
  pub : ∀ pem k, c.pubCache.get pem = some k → loadPublicKey host pem = .ok k
  priv : ∀ pem k, c.privCache.get pem = some k → loadPrivateKey host pem = .ok k

section Caching
variable {host} {load : String → Except JsError K} {cache : Cache K} {c : Caches K}

theorem lruSet_get {pem p : String} {obj k : K} (h : (lruSet cache pem obj).get p = some k) :
    (cache.set pem obj).get p = some k := by
  unfold lruSet at h
  dsimp only at h
  split at h
  · split at h
    · rw [OrderedMap.get_eq_some,OrderedMap.mem_delete] at h
      exact OrderedMap.get_eq_some.mpr h.1
    · exact h
  · exact h

theorem set_sound (hc : ∀ pem k, cache.get pem = some k → load pem = .ok k) {pem : String} {obj : K}
    (hl : load pem = .ok obj) (p : String) (k : K) (h : (cache.set pem obj).get p = some k) :
    load p = .ok k := by
  by_cases hp : p = pem
  · subst hp
    rw [OrderedMap.get_set_self] at h
    exact hl.trans (congrArg Except.ok (Option.some.inj h))
  · exact hc p k (by rwa [OrderedMap.get_set_ne _ _ hp] at h)

/-- With a sound cache the key is the one that parsing gives, and the cache stays sound. -/
theorem getKey_sound (hc : ∀ pem k, cache.get pem = some k → load pem = .ok k) (pem : String) :
    (getKey load cache pem).1 = load pem ∧
      ∀ p k, (getKey load cache pem).2.get p = some k → load p = .ok k := by
  unfold getKey lruGet
  cases hget : cache.get pem with
  | some hit =>
      have hl := hc pem hit hget
      refine ⟨hl.symm,set_sound (fun p k h => hc p k ?_) hl⟩
      rw [OrderedMap.get_eq_some,OrderedMap.mem_delete] at h
      exact OrderedMap.get_eq_some.mpr h.1
  | none =>
      dsimp only
      cases hl : load pem with
      | ok k => exact ⟨rfl,fun p j h => set_sound hc hl p j (lruSet_get h)⟩
      | error e => exact ⟨rfl,hc⟩

theorem getPub_sound (hc : c.Sound host) (pem : String) :
    (getPub host c pem).1 = loadPublicKey host pem ∧ (getPub host c pem).2.Sound host := by
  obtain ⟨hk,hs⟩ := getKey_sound hc.pub pem
  exact ⟨hk,⟨hs,hc.priv⟩⟩

theorem getPriv_sound (hc : c.Sound host) (pem : String) :
    (getPriv host c pem).1 = loadPrivateKey host pem ∧ (getPriv host c pem).2.Sound host := by
  obtain ⟨hk,hs⟩ := getKey_sound hc.priv pem
  exact ⟨hk,⟨hc.pub,hs⟩⟩

theorem bind_bytes (r : Except JsError K) (f : K → Except JsError Bytes) :
    (r.bind f).map Value.bytes = (do return .bytes (← f (← r)) : Except JsError Value) := by
  cases r with
  | error e => rfl
  | ok k =>
      change (f k).map Value.bytes = (f k).bind fun b => .ok (.bytes b)
      cases f k <;> rfl

/-- The worker computes the operation of the task, whatever it has cached. -/
theorem compute_sound (hc : c.Sound host) (t : Task) :
    (compute host c t).1.map t.returned = t.operation host ∧ (compute host c t).2.Sound host := by
  cases t with
  | encrypt keyPem data =>
      obtain ⟨hk,hs⟩ := getPub_sound hc keyPem
      refine ⟨?_,hs⟩
      simp only [compute,hk]
      exact bind_bytes _ _
  | decrypt keyPem data =>
      obtain ⟨hk,hs⟩ := getPriv_sound hc keyPem
      refine ⟨?_,hs⟩
      simp only [compute,hk]
      exact bind_bytes _ _
  | sign keyPem data =>
      obtain ⟨hk,hs⟩ := getPriv_sound hc keyPem
      refine ⟨?_,hs⟩
      simp only [compute,hk]
      exact bind_bytes _ _
  | verify keyPem data extra =>
      obtain ⟨hk,hs⟩ := getPub_sound hc keyPem
      refine ⟨?_,hs⟩
      simp only [compute,hk,Task.operation]
      cases loadPublicKey host keyPem with
      | error e => rfl
      | ok k =>
          change Except.ok (Value.verdict _) = Except.ok (Value.verdict _)
          cases rsaVerify host k data extra <;> rfl

end Caching
end SparkProtocol.CryptoPools
