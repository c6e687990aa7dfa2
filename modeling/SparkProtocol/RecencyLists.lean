import Mathlib.Data.List.Dedup
import Mathlib.Data.List.DropRight

/-!
# Recency lists

A bounded store that forgets what was used longest ago holds, after any sequence of
uses, the last distinct of them in the order of their last use. The store need not
remember the sequence: a use moves its item to the end, and what is then too much
falls off the front.
-/
namespace SparkProtocol.RecencyLists

variable {α : Type*}

theorem rtake_append {n : ℕ} (p : List α) {s : List α} (h : n ≤ s.length) :
    (p++s).rtake n = s.rtake n := by
  rw [List.rtake,List.rtake,List.length_append,Nat.add_sub_assoc h,List.drop_length_add_append]

theorem rtake_of_length_le {n : ℕ} {l : List α} (h : l.length ≤ n) : l.rtake n = l := by
  rw [List.rtake,Nat.sub_eq_zero_of_le h,List.drop_zero]

theorem rtake_cons {n : ℕ} {l : List α} (h : l.length = n) (a : α) : (a::l).rtake n = l := by
  rw [← List.singleton_append,rtake_append _ h.ge,rtake_of_length_le h.le]

theorem length_rtake (n : ℕ) (l : List α) : (l.rtake n).length = min n l.length := by
  rw [List.rtake,List.length_drop]
  omega

variable [DecidableEq α]

/-- The last `n` distinct items of a sequence, each where it was used last. -/
def recent (n : ℕ) (uses : List α) : List α := uses.dedup.rtake n

/-- A use, in a store of `n+1` places. -/
def touch (n : ℕ) (l : List α) (a : α) : List α := (l.erase a).rtake n++[a]

theorem recent_length (n : ℕ) (uses : List α) :
    (recent n uses).length = min n uses.dedup.length :=
  length_rtake ..

/-- The last use of an item counts. -/
theorem dedup_concat (l : List α) (a : α) : (l++[a]).dedup = l.dedup.erase a++[a] := by
  induction l with
  | nil => simp
  | cons x l ih =>
      rw [List.cons_append]
      by_cases hx : x ∈ l
      · rw [List.dedup_cons_of_mem hx,List.dedup_cons_of_mem (List.mem_append_left _ hx),ih]
      · rw [List.dedup_cons_of_notMem hx]
        by_cases hxa : x = a
        · subst hxa
          rw [List.dedup_cons_of_mem (by simp),ih,List.erase_cons_head,
            List.erase_of_not_mem (by simpa using hx)]
        · rw [List.dedup_cons_of_notMem (by simp [hx,hxa]),ih,
            List.erase_cons_tail (by simpa using hxa),List.cons_append]

/-- Among the last `n` other items none is from before the last `n+1`. -/
theorem rtake_erase {n : ℕ} {l : List α} (h : l.Nodup) (a : α) :
    ((l.rtake (n+1)).erase a).rtake n = (l.erase a).rtake n := by
  by_cases hlen : l.length ≤ n+1
  · rw [rtake_of_length_le hlen]
  obtain ⟨p,s,rfl,hs⟩ : ∃ p s, l = p++s ∧ s.length = n+1 :=
    ⟨_,_,(List.take_append_drop (l.length-(n+1)) l).symm,by
      rw [List.length_drop]
      omega⟩
  have hsuffix : (p++s).rtake (n+1) = s := by
    rw [rtake_append p (by omega),rtake_of_length_le (by omega)]
  rw [hsuffix]
  by_cases has : a ∈ s
  · have hap : a ∉ p := fun hap => (List.nodup_append.mp h).2.2 a hap a has rfl
    have hlen := List.length_erase_of_mem has
    rw [List.erase_append_right _ hap,rtake_append p (by omega)]
  · rw [List.erase_of_not_mem has,List.erase_append]
    split_ifs
    · exact (rtake_append _ (by omega)).symm
    · rw [List.erase_of_not_mem has]
      exact (rtake_append _ (by omega)).symm

/-- A store that is touched follows the sequence of uses. -/
theorem recent_concat (n : ℕ) (uses : List α) (a : α) :
    recent (n+1) (uses++[a]) = touch n (recent (n+1) uses) a := by
  rw [recent,dedup_concat,List.rtake_concat_succ,touch,recent,
    rtake_erase (List.nodup_dedup uses)]

/-- Only a full store forgets, and only the item used longest ago. -/
theorem touch_forgets {n : ℕ} {l : List α} (h : l.length ≤ n+1) {a b : α} (hb : b ∈ l)
    (hnot : b ∉ touch n l a) : l.length = n+1 ∧ l.head? = some b := by
  rw [touch,List.mem_append,List.mem_singleton,not_or] at hnot
  obtain ⟨hnot,hba⟩ := hnot
  have hmem : b ∈ l.erase a := (List.mem_erase_of_ne hba).mpr hb
  have hlong : n < (l.erase a).length := by
    by_contra hle
    rw [rtake_of_length_le (by omega)] at hnot
    exact hnot hmem
  have hal : a ∉ l := by
    intro hal
    have := List.length_erase_of_mem hal
    omega
  rw [List.erase_of_not_mem hal] at hnot hlong
  refine ⟨by omega,?_⟩
  cases l with
  | nil => cases hb
  | cons x t =>
      have ht : t.length = n := by
        rw [List.length_cons] at h hlong
        omega
      rw [rtake_cons ht] at hnot
      rcases List.mem_cons.mp hb with rfl | hb
      · rfl
      · exact absurd hb hnot

end SparkProtocol.RecencyLists
