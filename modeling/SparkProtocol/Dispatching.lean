import Mathlib.Data.List.Perm.Basic
import Mathlib.Data.List.Nodup
import Mathlib.Data.Nat.Notation

/-!
# Work-conserving dispatch

Slots that hold at most one item each, a stack of the free ones, and a queue for
the items that found none free. Four moves: an item takes the slot on top of the
stack, or waits; a slot that becomes free takes the first waiting item, or goes on
the stack. The bookkeeping is part of the type, so it cannot go wrong: the stack
lists exactly the free slots, each once, and nothing waits while a slot is free.

Every move says which items it added and removed, and that items leave the queue
in the order in which they came.
-/
namespace SparkProtocol.Dispatching

variable {τ : Type*}

def held (slots : List (Option τ)) : List τ := slots.flatMap Option.toList

structure Dispatcher (τ : Type*) where
  slots : List (Option τ)
  idle : List ℕ
  queue : List τ
  free : ∀ w, w ∈ idle ↔ slots[w]? = some none
  nodup : idle.Nodup
  count : idle.length+(held slots).length = slots.length
  eager : queue = [] ∨ idle = []

/-- Replacing one entry exchanges what it contributed. -/
theorem flatMap_set_perm {α β : Type*} (f : α → List β) {l : List α} {i : ℕ} {a : α}
    (h : l[i]? = some a) (b : α) : (f a++(l.set i b).flatMap f).Perm (f b++l.flatMap f) := by
  induction l generalizing i with
  | nil => simp at h
  | cons x l ih =>
      cases i with
      | zero =>
          obtain rfl : x = a := by simpa using h
          simp only [List.set_cons_zero,List.flatMap_cons]
          exact List.perm_append_comm_assoc ..
      | succ i =>
          have hrec := ih (i := i) (by simpa using h)
          simp only [List.set_cons_succ,List.flatMap_cons]
          calc f a++(f x++(l.set i b).flatMap f)
              |>.Perm (f x++(f a++(l.set i b).flatMap f)) := List.perm_append_comm_assoc ..
            _ |>.Perm (f x++(f b++l.flatMap f)) := hrec.append_left _
            _ |>.Perm (f b++(f x++l.flatMap f)) := List.perm_append_comm_assoc ..

section Slots
variable {slots : List (Option τ)} {w : ℕ} {x y : τ}

theorem held_fill (h : slots[w]? = some none) (x : τ) :
    (held (slots.set w (some x))).Perm (x::held slots) :=
  flatMap_set_perm Option.toList h (some x)

theorem held_free (h : slots[w]? = some (some y)) :
    (y::held (slots.set w none)).Perm (held slots) :=
  flatMap_set_perm Option.toList h none

theorem held_exchange (h : slots[w]? = some (some y)) (x : τ) :
    (y::held (slots.set w (some x))).Perm (x::held slots) :=
  flatMap_set_perm Option.toList h (some x)

theorem get_set_iff {o o' : Option τ} (h : slots[w]? = some o) (j : ℕ) :
    (slots.set w o')[j]? = some none ↔ (j = w ∧ o' = none) ∨ (j ≠ w ∧ slots[j]? = some none) := by
  have hw := (List.getElem?_eq_some_iff.mp h).choose
  by_cases hj : j = w
  · subst hj
    rw [List.getElem?_set_self hw]
    simp
  · rw [List.getElem?_set_ne (Ne.symm hj)]
    simp [hj]

end Slots

namespace Dispatcher

def items (d : Dispatcher τ) : List τ := d.queue++held d.slots

/-- Every slot is free. -/
def start (n : ℕ) : Dispatcher τ where
  slots := List.replicate n none
  idle := List.range n
  queue := []
  free w := by simp [List.getElem?_replicate]
  nodup := List.nodup_range
  count := by
    have : held (List.replicate n (none : Option τ)) = [] := by simp [held]
    simp [this]
  eager := .inl rfl

section Moves
variable (d : Dispatcher τ) {idle : List ℕ} {w : ℕ} {x y : τ} {queue : List τ}

theorem queue_nil_of_idle (h : d.idle = idle++[w]) : d.queue = [] :=
  d.eager.resolve_right (by simp [h])

theorem slot_of_idle (h : d.idle = idle++[w]) : d.slots[w]? = some none :=
  (d.free w).mp (by simp [h])

/-- When no slot holds an item, none waits either. -/
theorem items_nil (hslots : d.slots ≠ []) (hheld : held d.slots = []) : d.items = [] := by
  have hq : d.queue = [] := by
    rcases d.eager with hq | hi
    · exact hq
    · have hc := d.count
      rw [hi,hheld] at hc
      exact absurd (List.eq_nil_of_length_eq_zero hc.symm) hslots
  rw [items,hq,hheld]
  rfl

/-- The item takes the slot on top of the stack. -/
def assign (h : d.idle = idle++[w]) (x : τ) : Dispatcher τ where
  slots := d.slots.set w (some x)
  idle := idle
  queue := d.queue
  free j := by
    have hn := d.nodup
    rw [h,List.nodup_append] at hn
    rw [get_set_iff (d.slot_of_idle h),← d.free j,h]
    simp only [List.mem_append,List.mem_singleton,reduceCtorEq,and_false,false_or]
    constructor
    · intro hj
      exact ⟨hn.2.2 j hj w List.mem_cons_self,.inl hj⟩
    · rintro ⟨hne,hj⟩
      exact hj.resolve_right hne
  nodup := by
    have hn := d.nodup
    rw [h,List.nodup_append] at hn
    exact hn.1
  count := by
    have hc := d.count
    have hl := (held_fill (d.slot_of_idle h) x).length_eq
    rw [h,List.length_append,List.length_singleton] at hc
    rw [hl,List.length_cons,List.length_set]
    omega
  eager := .inl (d.queue_nil_of_idle h)

def enqueue (h : d.idle = []) (x : τ) : Dispatcher τ :=
  { d with queue := d.queue++[x], eager := .inr h }

/-- The slot has done with `y` and takes the first waiting item. -/
def hand (h : d.slots[w]? = some (some y)) (hq : d.queue = x::queue) : Dispatcher τ where
  slots := d.slots.set w (some x)
  idle := d.idle
  queue := queue
  free j := by
    rw [get_set_iff h,d.free j]
    simp only [reduceCtorEq,and_false,false_or]
    constructor
    · intro hj
      refine ⟨?_,hj⟩
      rintro rfl
      simp [h] at hj
    · exact And.right
  nodup := d.nodup
  count := by
    have hc := d.count
    have hl := (held_exchange h x).length_eq
    simp only [List.length_cons] at hl
    rw [List.length_set]
    omega
  eager := .inr (d.eager.resolve_left (by simp [hq]))

/-- The slot has done with `y` and nothing waits. -/
def vacate (h : d.slots[w]? = some (some y)) (hq : d.queue = []) : Dispatcher τ where
  slots := d.slots.set w none
  idle := d.idle++[w]
  queue := d.queue
  free j := by
    rw [get_set_iff h,List.mem_append,List.mem_singleton,d.free j]
    by_cases hj : j = w <;> simp [hj]
  nodup := by
    refine List.nodup_append.mpr ⟨d.nodup,List.nodup_singleton w,?_⟩
    rintro j hj _ hw rfl
    obtain rfl := List.mem_singleton.mp hw
    simp [(d.free j).mp hj] at h
  count := by
    have hc := d.count
    have hl := (held_free h).length_eq
    simp only [List.length_cons] at hl
    simp only [List.length_append,List.length_singleton,List.length_set]
    omega
  eager := .inl hq

theorem assign_items (h : d.idle = idle++[w]) (x : τ) :
    (d.assign h x).items.Perm (x::d.items) := by
  have hq := d.queue_nil_of_idle h
  simp only [items,assign,hq,List.nil_append]
  exact held_fill (d.slot_of_idle h) x

theorem enqueue_items (h : d.idle = []) (x : τ) : (d.enqueue h x).items.Perm (x::d.items) := by
  simp only [items,enqueue,List.append_assoc,List.singleton_append]
  exact List.perm_middle

theorem hand_items (h : d.slots[w]? = some (some y)) (hq : d.queue = x::queue) :
    (y::(d.hand h hq).items).Perm d.items := by
  simp only [items,hand,hq,List.cons_append]
  calc y::(queue++held (d.slots.set w (some x)))
      |>.Perm (queue++y::held (d.slots.set w (some x))) := List.perm_middle.symm
    _ |>.Perm (queue++x::held d.slots) := (held_exchange h x).append_left _
    _ |>.Perm (x::(queue++held d.slots)) := List.perm_middle

theorem vacate_items (h : d.slots[w]? = some (some y)) (hq : d.queue = []) :
    (y::(d.vacate h hq).items).Perm d.items := by
  simp only [items,vacate,hq,List.nil_append]
  exact held_free h

end Moves
end Dispatcher
end SparkProtocol.Dispatching
