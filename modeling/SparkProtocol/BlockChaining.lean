import SparkProtocol.ByteStrings
import Mathlib.Logic.Equiv.Defs

/-!
# Cipher block chaining over an arbitrary block permutation

The chaining laws need only that decryption of a block undoes its encryption and
that mixing twice with the same block is the identity; no property of a
particular cipher is used. Byte strings enter through blocks of a fixed width,
whose length is carried by the type. Padding follows PKCS#7: between one byte
and a whole block, each equal to the count.

A rolling chain runs a keyed operation message by message with the next
initialization value taken from the ciphertext alone. Sender and receiver then
stay in step without further agreement, whatever the roll function is.
-/
namespace SparkProtocol.BlockChaining
open ByteStrings

section Mode
variable {B : Type*} (mix : B → B → B)

def encrypt (E : B → B) : B → List B → List B
  | _,[] => []
  | iv,m::ms => E (mix m iv)::encrypt E (E (mix m iv)) ms

def decrypt (D : B → B) : B → List B → List B
  | _,[] => []
  | iv,c::cs => mix (D c) iv::decrypt D c cs

variable {mix}

@[simp] theorem encrypt_length (E : B → B) (iv : B) (ms : List B) :
    (encrypt mix E iv ms).length = ms.length := by
  induction ms generalizing iv with
  | nil => rfl
  | cons m ms ih => simp [encrypt,ih]

theorem decrypt_encrypt {E D : B → B} (hD : ∀ b, D (E b) = b)
    (hmix : ∀ a v, mix (mix a v) v = a) (iv : B) (ms : List B) :
    decrypt mix D iv (encrypt mix E iv ms) = ms := by
  induction ms generalizing iv with
  | nil => rfl
  | cons m ms ih => simp only [encrypt,decrypt,hD,hmix,ih]

end Mode

/-- A byte string of the block width. -/
abbrev Block (w : ℕ) := {b : Bytes // b.length = w}

def xor {w : ℕ} (a b : Block w) : Block w :=
  ⟨List.zipWith (· ^^^ ·) a.1 b.1,by simp [a.2,b.2]⟩

theorem zipWith_xor_cancel (a b : Bytes) (h : a.length = b.length) :
    List.zipWith (· ^^^ ·) (List.zipWith (· ^^^ ·) a b) b = a := by
  induction a generalizing b with
  | nil => simp
  | cons x a ih =>
      cases b with
      | nil => simp at h
      | cons y b =>
          simp only [List.zipWith_cons_cons,ih b (by simpa using h),UInt8.xor_assoc,
            UInt8.xor_self,UInt8.xor_zero]

theorem xor_xor_cancel {w : ℕ} (a b : Block w) : xor (xor a b) b = a :=
  Subtype.ext (zipWith_xor_cancel a.1 b.1 (a.2.trans b.2.symm))

/-- The first `k` whole blocks, in order. -/
def blocks (w : ℕ) : ℕ → Bytes → List (Block w)
  | 0,_ => []
  | k+1,b => if h : w ≤ b.length then ⟨b.take w,by simp [h]⟩::blocks w k (b.drop w) else []

def join {w : ℕ} (bs : List (Block w)) : Bytes := bs.flatMap Subtype.val

@[simp] theorem join_nil {w : ℕ} : join ([] : List (Block w)) = [] := rfl

@[simp] theorem join_cons {w : ℕ} (b : Block w) (bs : List (Block w)) :
    join (b::bs) = b.1++join bs := rfl

theorem join_length {w : ℕ} (bs : List (Block w)) : (join bs).length = bs.length*w := by
  induction bs with
  | nil => simp
  | cons b bs ih =>
      simp only [join_cons,List.length_append,b.2,ih,List.length_cons,Nat.succ_mul]
      omega

theorem blocks_join {w : ℕ} (bs : List (Block w)) : blocks w bs.length (join bs) = bs := by
  induction bs with
  | nil => rfl
  | cons b bs ih =>
      have hw : w ≤ (b.1++join bs).length := by simp [b.2]
      have ht : (b.1++join bs).take w = b.1 := List.take_left' b.2
      have hd : (b.1++join bs).drop w = join bs := List.drop_left' b.2
      simp only [List.length_cons,join_cons,blocks,hw,↓reduceDIte,hd,ih]
      exact congrArg (·::bs) (Subtype.ext ht)

theorem join_blocks {w k : ℕ} {b : Bytes} (h : b.length = k*w) : join (blocks w k b) = b := by
  induction k generalizing b with
  | zero =>
      have hb : b = [] := List.length_eq_zero_iff.mp (by omega)
      simp [blocks,hb]
  | succ k ih =>
      rw [Nat.succ_mul] at h
      have hw : w ≤ b.length := by omega
      have hr : (b.drop w).length = k*w := by simp only [List.length_drop]; omega
      simp only [blocks,hw,↓reduceDIte,join_cons,ih hr,List.take_append_drop]

theorem blocks_length {w k : ℕ} {b : Bytes} (h : b.length = k*w) : (blocks w k b).length = k := by
  induction k generalizing b with
  | zero => rfl
  | succ k ih =>
      rw [Nat.succ_mul] at h
      have hw : w ≤ b.length := by omega
      have hr : (b.drop w).length = k*w := by simp only [List.length_drop]; omega
      simp only [blocks,hw,↓reduceDIte,List.length_cons,ih hr]

/-- PKCS#7 for blocks of width `w`: the padding byte is the padding length. -/
def padding (w n : ℕ) : ℕ := w-n%w

def pad (w : ℕ) (p : Bytes) : Bytes :=
  p++List.replicate (padding w p.length) (UInt8.ofNat (padding w p.length))

section Padding
variable {w : ℕ} (hw : 0 < w)
include hw

theorem padding_pos (n : ℕ) : 0 < padding w n := by
  have := Nat.mod_lt n hw
  unfold padding
  omega

omit hw in
theorem padding_le (n : ℕ) : padding w n ≤ w := Nat.sub_le _ _

theorem pad_length (p : Bytes) : (pad w p).length = (p.length/w+1)*w := by
  have hm := Nat.mod_lt p.length hw
  have hd := Nat.div_add_mod p.length w
  simp only [pad,List.length_append,List.length_replicate,padding]
  rw [Nat.add_mul,Nat.one_mul,Nat.mul_comm]
  omega

theorem pad_getLast (p : Bytes) :
    (pad w p).getLast? = some (UInt8.ofNat (padding w p.length)) := by
  have hp := padding_pos hw p.length
  simp only [pad,List.getLast?_append,List.getLast?_replicate,Nat.ne_of_gt hp,↓reduceIte,
    Option.some_or]

omit hw in
theorem pad_take (p : Bytes) :
    (pad w p).take ((pad w p).length-padding w p.length) = p := by
  simp [pad]

end Padding

section Rolling
variable {I X Y ε : Type*} (roll : Y → I)

/-- Process a list; the next state is a function of the item just produced. -/
def sealAll (f : I → X → Except ε Y) : I → List X → Except ε (List Y × I)
  | i,[] => .ok ([],i)
  | i,x::xs =>
      match f i x with
      | .error e => .error e
      | .ok y =>
          match sealAll f (roll y) xs with
          | .error e => .error e
          | .ok r => .ok (y::r.1,r.2)

end Rolling

section Opening
variable {I X Y ε : Type*} (roll : X → I)

/-- Process a list; the next state is a function of the item just consumed. -/
def openAll (f : I → X → Except ε Y) : I → List X → Except ε (List Y × I)
  | i,[] => .ok ([],i)
  | i,x::xs =>
      match f i x with
      | .error e => .error e
      | .ok y =>
          match openAll f (roll x) xs with
          | .error e => .error e
          | .ok r => .ok (y::r.1,r.2)

end Opening

section Agreement
variable {I X Y ε : Type*} {roll : Y → I} {enc : I → X → Except ε Y} {dec : I → Y → Except ε X}

theorem sealAll_cons {i j : I} {x : X} {xs : List X} {ys : List Y} :
    sealAll roll enc i (x::xs) = .ok (ys,j) ↔
      ∃ y zs, enc i x = .ok y ∧ sealAll roll enc (roll y) xs = .ok (zs,j) ∧ ys = y::zs := by
  constructor
  · intro h
    unfold sealAll at h
    split at h
    · cases h
    · next y hy =>
        split at h
        · cases h
        · next r hr =>
            simp only [Except.ok.injEq,Prod.mk.injEq] at h
            exact ⟨y,r.1,hy,by rw [hr,← h.2],h.1.symm⟩
  · rintro ⟨y,zs,hy,hz,rfl⟩
    simp only [sealAll,hy,hz]

/-- What the first sealed item was. -/
theorem sealAll_head {i j : I} {y : Y} {xs : List X} {ys : List Y}
    (h : sealAll roll enc i xs = .ok (y::ys,j)) :
    ∃ x rest, xs = x::rest ∧ enc i x = .ok y ∧ sealAll roll enc (roll y) rest = .ok (ys,j) := by
  cases xs with
  | nil => cases h
  | cons x rest =>
      obtain ⟨y',ys',hy,hrest,he⟩ := sealAll_cons.mp h
      obtain ⟨rfl,rfl⟩ := List.cons.inj he
      exact ⟨x,rest,rfl,hy,hrest⟩

theorem sealAll_append {i j k : I} {xs xs' : List X} {ys ys' : List Y}
    (h : sealAll roll enc i xs = .ok (ys,j)) (h' : sealAll roll enc j xs' = .ok (ys',k)) :
    sealAll roll enc i (xs++xs') = .ok (ys++ys',k) := by
  induction xs generalizing i ys with
  | nil =>
      simp only [sealAll,Except.ok.injEq,Prod.mk.injEq] at h
      obtain ⟨rfl,rfl⟩ := h
      exact h'
  | cons x xs ih =>
      obtain ⟨y,zs,hy,hz,rfl⟩ := sealAll_cons.mp h
      exact sealAll_cons.mpr ⟨y,zs++ys',hy,ih hz,rfl⟩

theorem sealAll_snoc {i j : I} {xs : List X} {ys : List Y} {x : X} {y : Y}
    (h : sealAll roll enc i xs = .ok (ys,j)) (hy : enc j x = .ok y) :
    sealAll roll enc i (xs++[x]) = .ok (ys++[y],roll y) :=
  sealAll_append h (sealAll_cons.mpr ⟨y,[],hy,rfl,rfl⟩)

/-- The two ends stay in step when opening one item undoes sealing it. -/
theorem openAll_sealAll (undo : ∀ i x y, enc i x = .ok y → dec i y = .ok x)
    {i j : I} {xs : List X} {ys : List Y} (h : sealAll roll enc i xs = .ok (ys,j)) :
    openAll roll dec i ys = .ok (xs,j) := by
  induction xs generalizing i ys with
  | nil =>
      simp only [sealAll,Except.ok.injEq,Prod.mk.injEq] at h
      obtain ⟨rfl,rfl⟩ := h
      rfl
  | cons x xs ih =>
      obtain ⟨y,zs,hy,hz,rfl⟩ := sealAll_cons.mp h
      simp only [openAll,undo i x y hy,ih hz]

end Agreement
end SparkProtocol.BlockChaining
