import Mathlib.Data.List.Infix
import Mathlib.Data.List.Nodup
import Mathlib.Data.Nat.Notation

/-!
# Counters that wrap around

A counter modulo `m` gives its value and advances. Draws that lie fewer than `m`
apart are distinct. A list is spread over a width when no stretch of at most that
many entries repeats one.
-/
namespace SparkProtocol.WrappingCounters

/-- The next `n` values of a counter that stands at `c`. -/
def drawn (m : ℕ) : ℤ → ℕ → List ℤ
  | _,0 => []
  | c,n+1 => c%m::drawn m ((c+1)%m) n

def Spread {α : Type*} (m : ℕ) (l : List α) : Prop := ∀ w, w <:+: l → w.length ≤ m → w.Nodup

theorem drawn_length (m : ℕ) (c : ℤ) (n : ℕ) : (drawn m c n).length = n := by
  induction n generalizing c with
  | zero => rfl
  | succ n ih => rw [drawn,List.length_cons,ih]

theorem drawn_getElem? (m : ℕ) (c : ℤ) {n i : ℕ} (h : i < n) :
    (drawn m c n)[i]? = some ((c+i)%m) := by
  induction n generalizing c i with
  | zero => exact absurd h (Nat.not_lt_zero i)
  | succ n ih =>
      cases i with
      | zero => simp [drawn]
      | succ i =>
          have hi : c+1+(i : ℤ) = c+((i+1 : ℕ) : ℤ) := by omega
          rw [drawn,List.getElem?_cons_succ,ih _ (by omega),Int.emod_add_emod,hi]

/-- Congruent numbers less than `m` apart are equal. -/
theorem emod_ne_of_near {m i j : ℕ} (c : ℤ) (hij : i < j) (hnear : j < i+m) :
    (c+i)%m ≠ (c+j)%m := by
  intro he
  have hdvd : (m : ℤ) ∣ (c+j)-(c+i) :=
    Int.dvd_of_emod_eq_zero (Int.emod_eq_emod_iff_emod_sub_eq_zero.mp he.symm)
  have hsub : (c+j)-(c+i) = ((j-i : ℕ) : ℤ) := by omega
  rw [hsub,Int.natCast_dvd_natCast] at hdvd
  have := Nat.le_of_dvd (by omega) hdvd
  omega

theorem drawn_spread (m : ℕ) (c : ℤ) (n : ℕ) : Spread m (drawn m c n) := by
  rintro w ⟨a,b,hw⟩ hlen
  have hn := congrArg List.length hw
  rw [drawn_length,List.length_append,List.length_append] at hn
  have hget : ∀ i < w.length, w[i]? = some ((c+((a.length+i : ℕ) : ℤ))%m) := by
    intro i hi
    rw [← drawn_getElem? m c (show a.length+i < n by omega),← hw,List.append_assoc,
      List.getElem?_append_right (by omega),Nat.add_sub_cancel_left,List.getElem?_append_left hi]
  rw [List.nodup_iff_getElem?_ne_getElem?]
  intro i j hij hj
  rw [hget i (by omega),hget j hj]
  intro he
  exact emod_ne_of_near c (by omega) (by omega) (Option.some.inj he)

/-- A draw that repeats its predecessor is seen at every width but one. -/
theorem not_spread_of_repeat {α : Type*} {m : ℕ} (hm : 2 ≤ m) (x : α) (l : List α) :
    ¬ Spread m (x::x::l) := by
  intro h
  have hw := h [x,x] ⟨[],l,rfl⟩ hm
  simp at hw

theorem spread_singleton {α : Type*} (m : ℕ) (x : α) : Spread m [x] :=
  fun _ hw _ => (List.nodup_singleton x).sublist hw.sublist

end SparkProtocol.WrappingCounters
