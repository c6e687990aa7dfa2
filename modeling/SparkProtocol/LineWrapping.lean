import Mathlib.Data.List.Defs
import Mathlib.Data.Nat.Notation

/-!
# Text in lines of one length

A text that is cut into chunks is in lines which are full but for the last. The lines
together are the text, so they can be joined by a character that is not in it and
found again.
-/
namespace SparkProtocol.LineWrapping

variable {α : Type*} {n : ℕ}

/-- Lines of `n` characters, and a last one that is not empty. -/
inductive Wrapped (n : ℕ) : List α → List (List α) → Prop
  | last {l : List α} : 1 ≤ l.length → l.length ≤ n → Wrapped n l [l]
  | full {l rest : List α} {lines : List (List α)} : l.length = n → Wrapped n rest lines →
      Wrapped n (l++rest) (l::lines)

theorem Wrapped.flatten {text : List α} {lines : List (List α)} (h : Wrapped n text lines) :
    lines.flatten = text := by
  induction h with
  | last _ _ => simp
  | full _ _ ih => rw [List.flatten_cons,ih]

theorem Wrapped.lengths {text : List α} {lines : List (List α)} (h : Wrapped n text lines) :
    ∃ full last, lines = full++[last] ∧ (∀ l ∈ full, l.length = n) ∧ 1 ≤ last.length ∧
      last.length ≤ n := by
  induction h with
  | last hpos hle => exact ⟨[],_,rfl,by simp,hpos,hle⟩
  | @full l rest lines hl _ ih =>
      obtain ⟨full,last,rfl,hfull,hpos,hle⟩ := ih
      refine ⟨l::full,last,rfl,?_,hpos,hle⟩
      intro l' hl'
      rcases List.mem_cons.mp hl' with rfl | hl'
      · exact hl
      · exact hfull l' hl'

/-- The loop has put the lines `b` away and is at work on `a`. -/
theorem toChunks_go (xs : List α) {a : Array α} (b : Array (List α)) (hpos : 1 ≤ a.size)
    (hle : a.size ≤ n) : ∃ lines, List.toChunks.go n xs a b = b.toList++lines ∧
      Wrapped n (a.toList++xs) lines := by
  induction xs generalizing a b with
  | nil =>
      refine ⟨[a.toList],by simp [List.toChunks.go],?_⟩
      rw [List.append_nil]
      exact .last (by simpa using hpos) (by simpa using hle)
  | cons x xs ih =>
      simp only [List.toChunks.go]
      split
      · next hfull =>
          have hsize : a.size = n := by simpa using hfull
          have hone : 1 ≤ (#[x] : Array α).size := Nat.le_refl 1
          obtain ⟨lines,hgo,hw⟩ := ih (b.push a.toList) hone (Nat.le_trans hpos hle)
          rw [Array.toList_push,List.append_assoc,List.singleton_append] at hgo
          exact ⟨a.toList::lines,hgo,.full (by simpa using hsize) hw⟩
      · next hroom =>
          have hsize : a.size ≠ n := by simpa using hroom
          obtain ⟨lines,hgo,hw⟩ := ih (a := a.push x) b (by simp) (by simp; omega)
          refine ⟨lines,hgo,?_⟩
          rwa [Array.toList_push,List.append_assoc] at hw

theorem toChunks_wrapped (hn : 1 ≤ n) {text : List α} (ht : text ≠ []) :
    Wrapped n text (text.toChunks n) := by
  cases text with
  | nil => exact absurd rfl ht
  | cons x xs =>
      obtain ⟨m,rfl⟩ := Nat.exists_eq_add_of_le' hn
      obtain ⟨lines,hgo,hw⟩ := toChunks_go (n := m+1) xs (a := #[x]) #[] (by simp) (by simp)
      have hchunks : (x::xs).toChunks (m+1) = lines := by simpa [List.toChunks] using hgo
      rw [hchunks]
      simpa using hw

/-- A line end at the end of the text is an empty last line. -/
theorem intercalate_append_self {sep : List α} {lines : List (List α)} (h : lines ≠ []) :
    sep.intercalate lines++sep = sep.intercalate (lines++[[]]) := by
  induction lines with
  | nil => exact absurd rfl h
  | cons line lines ih =>
      cases lines with
      | nil => simp
      | cons line' lines =>
          rw [List.intercalate_cons_cons,List.append_assoc,ih (by simp)]
          exact List.intercalate_cons_cons.symm

end SparkProtocol.LineWrapping
