import Mathlib.Data.List.Basic

/-!
# Cutting a stream into portions

A list of demands cuts a stream into portions. Each demand takes its part off the
front, in order, and the cutting ends at the first one that asks for more than is
left. A cut is known by what it leaves: pieces of the demanded sizes which make up the
stream with a rest too short for the next demand are the portions, however they were
found.
-/
namespace SparkProtocol.StreamPortions
variable {α : Type*} {l rest : List α} {ns : List ℕ} {ps : List (List α)}

def portions : List α → List ℕ → List (List α)
  | _,[] => []
  | l,n::ns => if n ≤ l.length then l.take n::portions (l.drop n) ns else []

structure Cuts (l : List α) (ns : List ℕ) (ps : List (List α)) (rest : List α) : Prop where
  whole : ps.flatten++rest = l
  sizes : ps.map List.length = ns.take ps.length
  ends : ∀ n, ns[ps.length]? = some n → rest.length < n

theorem portions_short {n : ℕ} (h : l.length < n) : portions l (n::ns) = [] :=
  if_neg (Nat.not_le.mpr h)

theorem portions_append {p : List α} : portions (p++l) (p.length::ns) = p::portions l ns := by
  rw [portions,if_pos (by simp),List.take_left,List.drop_left]

theorem Cuts.eq_portions (h : Cuts l ns ps rest) : ps = portions l ns := by
  induction ns generalizing l ps with
  | nil =>
      have hnone : ps.map List.length = [] := h.sizes.trans (List.take_nil)
      rw [List.map_eq_nil_iff.mp hnone,portions]
  | cons n ns ih =>
      cases ps with
      | nil =>
          obtain rfl : rest = l := h.whole
          exact (portions_short (h.ends n rfl)).symm
      | cons p ps =>
          obtain ⟨rfl,hsizes⟩ := List.cons.inj h.sizes
          have htail : Cuts (ps.flatten++rest) ns ps rest := ⟨rfl,hsizes,h.ends⟩
          rw [← h.whole,List.flatten_cons,List.append_assoc,portions_append,← ih htail]

end SparkProtocol.StreamPortions
