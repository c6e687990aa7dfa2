import SparkProtocol.CryptoWorker
import SparkProtocol.RecencyLists

/-!
# The key caches of a worker

Whatever messages a worker gets, each of its caches is the recency list of the texts
of its kind that have parsed, and a lookup gives what parsing gives. A message whose
operation fails has looked its key up all the same; one whose key does not parse, or
whose operation is not known, leaves the caches as they are.
-/
namespace SparkProtocol.CryptoPools
open ByteStrings HostValues OrderedMaps RecencyLists

/-- A message of the parent port, with one of the four operations or another text. -/
inductive Request where
  | task (msg : Message)
  | other (id : ℕ) (op : String)

/-- The handler of the worker, with the caches as it leaves them. -/
def onRequest {K : Type} (host : HostRsa K) (c : Caches K) : Request → Reply × Caches K
  | .task msg => onTask host c msg
  | .other id op => (⟨id,.error ("unknown op: "++op)⟩,c)

/-- A worker that has handled some messages. -/
def handled {K : Type} (host : HostRsa K) : Caches K → List Request → Caches K
  | c,[] => c
  | c,r::rs => handled host (onRequest host c r).2 rs

inductive KeyKind where
  | pub | priv
  deriving DecidableEq

section Kinds
variable {K : Type} (host : HostRsa K)

def parseKey : KeyKind → String → Except JsError K
  | .pub => loadPublicKey host
  | .priv => loadPrivateKey host

def Caches.cache (c : Caches K) : KeyKind → Cache K
  | .pub => c.pubCache
  | .priv => c.privCache

/-- `getPub` or `getPriv`. -/
def lookup (c : Caches K) : KeyKind → String → Except JsError K × Caches K
  | .pub => getPub host c
  | .priv => getPriv host c

/-- The key texts of a cache, the one used longest ago first. -/
def Caches.texts (c : Caches K) (kind : KeyKind) : List String :=
  (c.cache kind).entries.map Prod.fst

/-- The key that a message looks up. -/
def Request.key : Request → Option (KeyKind × String)
  | .task ⟨_,.encrypt keyPem _⟩ => some (.pub,keyPem)
  | .task ⟨_,.decrypt keyPem _⟩ => some (.priv,keyPem)
  | .task ⟨_,.sign keyPem _⟩ => some (.priv,keyPem)
  | .task ⟨_,.verify keyPem _ _⟩ => some (.pub,keyPem)
  | .other _ _ => none

/-- The caches after that. -/
def Caches.looked (c : Caches K) : Option (KeyKind × String) → Caches K
  | some (kind,pem) => (lookup host c kind pem).2
  | none => c

/-- The text that a message has parsed, if it is of this kind. -/
def parsed (kind : KeyKind) (r : Request) : Option String :=
  (r.key.filter fun key => key.1 = kind ∧ (parseKey host kind key.2).isOk).map Prod.snd

/-- All of them, in order. -/
def parsedTexts (kind : KeyKind) (rs : List Request) : List String := rs.filterMap (parsed host kind)

end Kinds

section Lookups
variable {K : Type} {load : String → Except JsError K} {cache : Cache K} {pem : String} {k : K}

theorem texts_delete (cache : Cache K) (pem : String) :
    (cache.delete pem).entries.map Prod.fst = (cache.entries.map Prod.fst).erase pem := by
  rw [cache.distinct.erase_eq_filter,List.filter_map]
  refine congrArg (List.map Prod.fst) (List.filter_congr fun e _ => ?_)
  by_cases he : e.1 = pem <;> simp [he]

theorem texts_set_new (h : pem ∉ cache.entries.map Prod.fst) :
    (cache.set pem k).entries.map Prod.fst = cache.entries.map Prod.fst++[pem] := by
  rw [OrderedMap.set_new _ h,List.map_append,List.map_singleton]

theorem not_mem_texts (hget : cache.get pem = none) : pem ∉ cache.entries.map Prod.fst := by
  intro hmem
  obtain ⟨⟨p,v⟩,he,hp⟩ := List.mem_map.mp hmem
  obtain rfl : p = pem := hp
  rw [OrderedMap.get_eq_some.mpr he] at hget
  cases hget

/-- A hit moves its text to the end. -/
theorem texts_hit (hsize : cache.entries.length ≤ LRU_MAX) (hget : cache.get pem = some k) :
    ((cache.delete pem).set pem k).entries.map Prod.fst =
      touch 63 (cache.entries.map Prod.fst) pem := by
  have hmem : pem ∈ cache.entries.map Prod.fst :=
    List.mem_map_of_mem (f := Prod.fst) (OrderedMap.get_eq_some.mp hget)
  have hlen := List.length_erase_of_mem hmem
  have hnew : pem ∉ (cache.delete pem).entries.map Prod.fst := by
    rw [texts_delete]
    exact cache.distinct.not_mem_erase
  rw [texts_set_new hnew,texts_delete,touch,rtake_of_length_le]
  rw [hlen,List.length_map]
  simp only [LRU_MAX] at hsize
  omega

/-- A miss puts its text at the end, and the oldest text goes if that is one too many. -/
theorem texts_miss (hsize : cache.entries.length ≤ LRU_MAX) (hget : cache.get pem = none) :
    (lruSet cache pem k).entries.map Prod.fst = touch 63 (cache.entries.map Prod.fst) pem := by
  have hnew := not_mem_texts hget
  have hset := OrderedMap.set_new k hnew
  rw [touch,List.erase_of_not_mem hnew]
  simp only [LRU_MAX] at hsize
  unfold lruSet
  dsimp only
  rw [hset,List.length_append,List.length_singleton]
  split_ifs with hfull
  · -- the cache is full, so its first entry is the oldest
    simp only [LRU_MAX] at hfull
    have hd := cache.distinct
    cases hes : cache.entries with
    | nil =>
        rw [hes,List.length_nil] at hfull
        omega
    | cons e es =>
        rw [hes] at hset hnew hd hfull
        rw [List.length_cons] at hfull
        rw [hes,List.length_cons] at hsize
        have hlen : (es.map Prod.fst).length = 63 := by
          rw [List.length_map]
          omega
        rw [List.cons_append]
        change ((cache.set pem k).delete e.1).entries.map Prod.fst = _
        rw [texts_delete,texts_set_new (by rwa [hes]),hes,List.map_cons,List.cons_append,
          List.erase_cons_head,rtake_cons hlen]
  · simp only [LRU_MAX] at hfull
    rw [hset,List.map_append,List.map_singleton,rtake_of_length_le]
    rw [List.length_map]
    omega

/-- A text that parses is used, and one that does not changes nothing. -/
theorem getKey_texts (hload : ∀ pem k, cache.get pem = some k → load pem = .ok k)
    (hsize : cache.entries.length ≤ LRU_MAX) (pem : String) :
    (getKey load cache pem).2.entries.map Prod.fst =
      if (load pem).isOk then touch 63 (cache.entries.map Prod.fst) pem
      else cache.entries.map Prod.fst := by
  unfold getKey lruGet
  cases hget : cache.get pem with
  | some k =>
      rw [hload pem k hget]
      exact texts_hit hsize hget
  | none =>
      dsimp only
      cases load pem with
      | ok k => exact texts_miss hsize hget
      | error e => rfl

end Lookups

section Runs
variable {K : Type} {host : HostRsa K} {c : Caches K}

/-- Whatever comes of its operation, a message changes the caches by looking its key up. -/
theorem onRequest_caches (c : Caches K) (r : Request) :
    (onRequest host c r).2 = c.looked host r.key := by
  cases r with
  | other id op => rfl
  | task msg =>
      obtain ⟨id,t⟩ := msg
      have hcompute : (onTask host c ⟨id,t⟩).2 = (compute host c t).2 := by
        unfold onTask
        dsimp only
        generalize compute host c t = p
        obtain ⟨_ | _,_⟩ := p <;> rfl
      rw [onRequest,hcompute]
      cases t <;> rfl

/-- A lookup gives what parsing gives. -/
theorem lookup_sound (hc : c.Sound host) (kind : KeyKind) (pem : String) :
    (lookup host c kind pem).1 = parseKey host kind pem ∧
      (lookup host c kind pem).2.Sound host := by
  cases kind with
  | pub => exact getPub_sound hc pem
  | priv => exact getPriv_sound hc pem

theorem lookup_texts (hc : c.Sound host) (hsize : ∀ kind, (c.texts kind).length ≤ LRU_MAX)
    (kind kind' : KeyKind) (pem : String) :
    (lookup host c kind pem).2.texts kind' =
      if kind = kind' ∧ (parseKey host kind' pem).isOk then touch 63 (c.texts kind') pem
      else c.texts kind' := by
  have hpub := hsize .pub
  have hpriv := hsize .priv
  rw [Caches.texts,List.length_map] at hpub hpriv
  cases kind with
  | pub =>
      cases kind' with
      | pub =>
          simp only [true_and]
          exact getKey_texts hc.pub hpub pem
      | priv =>
          rw [if_neg (by simp)]
          rfl
  | priv =>
      cases kind' with
      | pub =>
          rw [if_neg (by simp)]
          rfl
      | priv =>
          simp only [true_and]
          exact getKey_texts hc.priv hpriv pem

/-- The caches hold what has been parsed. -/
structure Caches.Recent (host : HostRsa K) (c : Caches K) (uses : KeyKind → List String) : Prop where
  sound : c.Sound host
  texts : ∀ kind, c.texts kind = recent LRU_MAX (uses kind)

theorem Caches.Recent.size {uses : KeyKind → List String} (h : c.Recent host uses)
    (kind : KeyKind) : (c.texts kind).length ≤ LRU_MAX := by
  rw [h.texts,recent_length]
  exact min_le_left ..

theorem empty_recent : ({} : Caches K).Recent host fun _ => [] := by
  refine ⟨⟨fun _ _ h => ?_,fun _ _ h => ?_⟩,fun kind => ?_⟩
  · cases h
  · cases h
  · cases kind <;> rfl

theorem onRequest_texts (hc : c.Sound host) (hsize : ∀ kind, (c.texts kind).length ≤ LRU_MAX)
    (r : Request) (kind : KeyKind) :
    (onRequest host c r).2.texts kind =
      (parsed host kind r).elim (c.texts kind) (touch 63 (c.texts kind)) := by
  rw [onRequest_caches,parsed]
  cases r.key with
  | none => rfl
  | some key =>
      rw [Caches.looked,lookup_texts hc hsize]
      split_ifs with h
      · rw [Option.filter_some_pos (by simpa using h)]
        rfl
      · rw [Option.filter_some_neg (by simpa using h)]
        rfl

/-- One message. -/
theorem onRequest_recent {uses : KeyKind → List String} (h : c.Recent host uses) (r : Request) :
    (onRequest host c r).2.Recent host fun kind => uses kind++(parsed host kind r).toList := by
  refine ⟨?_,fun kind => ?_⟩
  · rw [onRequest_caches]
    cases r.key with
    | none => exact h.sound
    | some key => exact (lookup_sound h.sound key.1 key.2).2
  · rw [onRequest_texts h.sound h.size]
    cases parsed host kind r with
    | none => simpa using h.texts kind
    | some pem =>
        rw [Option.elim_some,h.texts]
        exact (recent_concat 63 (uses kind) pem).symm

/-- All of them. -/
theorem handled_recent (rs : List Request) {uses : KeyKind → List String}
    (h : c.Recent host uses) :
    (handled host c rs).Recent host fun kind => uses kind++parsedTexts host kind rs := by
  induction rs generalizing c uses with
  | nil =>
      have huses : (fun kind => uses kind++parsedTexts host kind []) = uses :=
        funext fun kind => List.append_nil _
      rwa [huses]
  | cons r rs ih =>
      have hrest := ih (onRequest_recent h r)
      have huses : (fun kind => uses kind++(parsed host kind r).toList++parsedTexts host kind rs) =
          fun kind => uses kind++parsedTexts host kind (r::rs) := by
        funext kind
        rw [List.append_assoc,parsedTexts,parsedTexts,List.filterMap_cons]
        cases parsed host kind r <;> rfl
      rwa [huses] at hrest

/-- What a worker answers does not depend on what it has cached. -/
theorem onRequest_reply {d : Caches K} (hc : c.Sound host) (hd : d.Sound host) (r : Request) :
    (onRequest host c r).1 = (onRequest host d r).1 := by
  cases r with
  | other id op => rfl
  | task msg =>
      obtain ⟨id,t⟩ := msg
      have hresult : (compute host c t).1 = (compute host d t).1 := by
        cases t <;> simp only [compute,(getPub_sound hc _).1,(getPub_sound hd _).1,
          (getPriv_sound hc _).1,(getPriv_sound hd _).1]
      rw [onRequest,onRequest,onTask,onTask]
      dsimp only
      generalize compute host c t = p at hresult ⊢
      generalize compute host d t = q at hresult ⊢
      obtain ⟨result,c⟩ := p
      obtain ⟨result',d⟩ := q
      obtain rfl : result = result' := hresult
      cases result <;> rfl

theorem handled_append (c : Caches K) (rs : List Request) (r : Request) :
    handled host c (rs++[r]) = (onRequest host (handled host c rs) r).2 := by
  induction rs generalizing c with
  | nil => rfl
  | cons r rs ih => exact ih _

/-- The caches of a worker are bounded, forget in the order of last use, and cannot be
told from no caches. -/
theorem caches_recent (host : HostRsa K) (rs : List Request) (kind : KeyKind) :
    (handled host {} rs).texts kind = recent LRU_MAX (parsedTexts host kind rs) ∧
      ((handled host {} rs).texts kind).length =
        min LRU_MAX (parsedTexts host kind rs).dedup.length ∧
      (∀ pem, (lookup host (handled host {} rs) kind pem).1 = parseKey host kind pem) ∧
      (∀ r, (onRequest host (handled host {} rs) r).1 = (onRequest host {} r).1) ∧
      ∀ r pem, pem ∈ (handled host {} rs).texts kind →
        pem ∉ (handled host {} (rs++[r])).texts kind →
        ((handled host {} rs).texts kind).length = LRU_MAX ∧
          ((handled host {} rs).texts kind).head? = some pem := by
  have hempty : ({} : Caches K).Recent host fun _ => [] := empty_recent
  have h := handled_recent rs hempty
  have htexts : (handled host {} rs).texts kind = recent LRU_MAX (parsedTexts host kind rs) :=
    h.texts kind
  refine ⟨htexts,?_,fun pem => (lookup_sound h.sound kind pem).1,
    fun r => onRequest_reply h.sound hempty.sound r,fun r pem hmem hnot => ?_⟩
  · rw [htexts,recent_length]
  · rw [handled_append,onRequest_texts h.sound h.size] at hnot
    cases hp : parsed host kind r with
    | none =>
        rw [hp] at hnot
        exact absurd hmem hnot
    | some used =>
        rw [hp] at hnot
        exact touch_forgets (h.size kind) hmem hnot

/-- A host that takes every text for a key. -/
def parsesAll : HostRsa Unit where
  createPublicKey _ := .ok ()
  createPrivateKey _ := .ok ()
  publicEncrypt _ b := .ok b
  privateDecrypt _ b := .ok b
  privateEncrypt _ b := .ok b
  publicDecrypt _ b := .ok b

def encryptWith (n : ℕ) : Request := .task ⟨n,.encrypt (String.singleton (Char.ofNat (33+n))) []⟩

/-- The 65th text costs the first its place. -/
theorem caches_recent_full :
    ((handled parsesAll {} ((List.range 64).map encryptWith)).texts .pub).length = 64 ∧
      ((handled parsesAll {} ((List.range 64).map encryptWith)).texts .pub).head? = some "!" :=
  (caches_recent parsesAll ((List.range 64).map encryptWith) .pub).2.2.2.2 (encryptWith 64) "!"
    (by decide +kernel) (by decide +kernel)

end Runs
end SparkProtocol.CryptoPools
