import Mathlib.Data.List.Nodup

/-!
# Finite maps in insertion order

The map remembers the order in which its keys were first set: setting a present
key replaces its value in place, setting an absent key appends it, deleting keeps
the order of the rest. Distinctness of the keys is a field, so each operation
carries its own proof and a lookup never depends on which entry comes first.
-/
namespace SparkProtocol.OrderedMaps

structure OrderedMap (κ ν : Type*) where
  entries : List (κ × ν)
  distinct : (entries.map Prod.fst).Nodup

namespace OrderedMap
variable {κ ν : Type*}

def empty : OrderedMap κ ν := ⟨[],List.nodup_nil⟩

def values (m : OrderedMap κ ν) : List ν := m.entries.map Prod.snd

variable [DecidableEq κ]

def get (m : OrderedMap κ ν) (k : κ) : Option ν :=
  (m.entries.find? fun e => e.1 = k).map Prod.snd

def replace (k : κ) (v : ν) (e : κ × ν) : κ × ν := if e.1 = k then (k,v) else e

theorem replace_fst (k : κ) (v : ν) (e : κ × ν) : (replace k v e).1 = e.1 := by
  unfold replace
  split_ifs with h
  · exact h.symm
  · rfl

def set (m : OrderedMap κ ν) (k : κ) (v : ν) : OrderedMap κ ν :=
  if h : k ∈ m.entries.map Prod.fst then
    ⟨m.entries.map (replace k v),by
      rw [List.map_map,show Prod.fst ∘ replace k v = Prod.fst from funext (replace_fst k v)]
      exact m.distinct⟩
  else
    ⟨m.entries++[(k,v)],by
      rw [List.map_append]
      exact List.nodup_append.mpr ⟨m.distinct,List.nodup_singleton k,by
        rintro a ha b hb rfl
        obtain rfl : a = k := by simpa using hb
        exact h ha⟩⟩

def delete (m : OrderedMap κ ν) (k : κ) : OrderedMap κ ν :=
  ⟨m.entries.filter fun e => e.1 ≠ k,
    m.distinct.sublist (List.filter_sublist.map Prod.fst)⟩

@[simp] theorem get_empty (k : κ) : (empty : OrderedMap κ ν).get k = none := rfl

/-- Distinct keys make lookup the membership relation. -/
theorem get_eq_some {m : OrderedMap κ ν} {k : κ} {v : ν} :
    m.get k = some v ↔ (k,v) ∈ m.entries := by
  obtain ⟨es,hd⟩ := m
  unfold get
  induction es with
  | nil => simp
  | cons e es ih =>
      rw [List.map_cons,List.nodup_cons] at hd
      by_cases he : e.1 = k
      · rw [List.find?_cons_of_pos (by simpa using he)]
        simp only [Option.map_some,Option.some.injEq,List.mem_cons]
        constructor
        · rintro rfl
          exact .inl (by rw [← he])
        · rintro (h | h)
          · rw [← h]
          · exact absurd (he ▸ List.mem_map_of_mem (f := Prod.fst) h) hd.1
      · rw [List.find?_cons_of_neg (by simpa using he)]
        rw [ih hd.2,List.mem_cons]
        exact ⟨.inr,fun h => h.resolve_left fun h => he (by rw [← h])⟩

theorem mem_set {m : OrderedMap κ ν} {k : κ} {v : ν} {e : κ × ν} :
    e ∈ (m.set k v).entries ↔ e = (k,v) ∨ (e ∈ m.entries ∧ e.1 ≠ k) := by
  unfold set
  split_ifs with h
  · simp only [List.mem_map]
    constructor
    · rintro ⟨d,hd,rfl⟩
      by_cases hk : d.1 = k
      · exact .inl (by simp [replace,hk])
      · exact .inr (by simpa [replace,hk] using hd)
    · rintro (rfl | ⟨he,hk⟩)
      · obtain ⟨d,hd,hk⟩ := List.mem_map.mp h
        exact ⟨d,hd,by simp [replace,hk]⟩
      · exact ⟨e,he,by simp [replace,hk]⟩
  · simp only [List.mem_append,List.mem_singleton]
    constructor
    · rintro (he | he)
      · exact .inr ⟨he,fun hk => h (hk ▸ List.mem_map_of_mem he)⟩
      · exact .inl he
    · rintro (he | he)
      · exact .inr he
      · exact .inl he.1

theorem mem_delete {m : OrderedMap κ ν} {k : κ} {e : κ × ν} :
    e ∈ (m.delete k).entries ↔ e ∈ m.entries ∧ e.1 ≠ k := by
  simp [delete]

@[simp] theorem get_set_self (m : OrderedMap κ ν) (k : κ) (v : ν) : (m.set k v).get k = some v :=
  get_eq_some.mpr (mem_set.mpr (.inl rfl))

theorem get_set_ne (m : OrderedMap κ ν) {k j : κ} (v : ν) (h : j ≠ k) :
    (m.set k v).get j = m.get j := by
  apply Option.ext
  intro w
  simp only [get_eq_some,mem_set,Prod.mk.injEq]
  constructor
  · rintro (⟨hj,-⟩ | ⟨he,-⟩)
    · exact absurd hj h
    · exact he
  · exact fun he => .inr ⟨he,h⟩

@[simp] theorem get_delete_self (m : OrderedMap κ ν) (k : κ) : (m.delete k).get k = none := by
  apply Option.eq_none_iff_forall_ne_some.mpr
  intro w hw
  exact (mem_delete.mp (get_eq_some.mp hw)).2 rfl

theorem get_delete_ne (m : OrderedMap κ ν) {k j : κ} (h : j ≠ k) :
    (m.delete k).get j = m.get j := by
  apply Option.ext
  intro w
  simp only [get_eq_some,mem_delete]
  exact ⟨fun he => he.1,fun he => ⟨he,h⟩⟩

theorem set_new {m : OrderedMap κ ν} {k : κ} (v : ν) (h : k ∉ m.entries.map Prod.fst) :
    (m.set k v).entries = m.entries++[(k,v)] := by
  unfold set
  rw [dif_neg h]

/-- Deleting takes one entry away. -/
theorem entries_delete {m : OrderedMap κ ν} {k : κ} {v : ν} (h : (k,v) ∈ m.entries) :
    ((k,v)::(m.delete k).entries).Perm m.entries := by
  obtain ⟨a,b,hab⟩ := List.append_of_mem h
  have hd := m.distinct
  rw [hab,List.map_append,List.map_cons,List.nodup_append,List.nodup_cons] at hd
  obtain ⟨-,⟨hb,-⟩,hdisj⟩ := hd
  have keep : ∀ l : List (κ × ν), k ∉ l.map Prod.fst → l.filter (fun e => e.1 ≠ k) = l := by
    intro l hl
    apply List.filter_eq_self.mpr
    intro e he
    have hne : e.1 ≠ k := fun hek => hl (hek ▸ List.mem_map_of_mem he)
    simpa using hne
  have ha : k ∉ a.map Prod.fst := fun hk => hdisj k hk k List.mem_cons_self rfl
  have hdel : (m.delete k).entries = a++b := by
    change m.entries.filter _ = _
    rw [hab,List.filter_append,List.filter_cons_of_neg (by simp),keep a ha,keep b hb]
  rw [hdel,hab]
  exact List.perm_middle.symm

theorem keys_delete {m : OrderedMap κ ν} {k : κ} (h : k ∈ m.entries.map Prod.fst) :
    (k::(m.delete k).entries.map Prod.fst).Perm (m.entries.map Prod.fst) := by
  obtain ⟨⟨_,v⟩,he,rfl⟩ := List.mem_map.mp h
  exact (entries_delete he).map Prod.fst

theorem mem_values_of_get {m : OrderedMap κ ν} {k : κ} {v : ν} (h : m.get k = some v) :
    v ∈ m.values :=
  List.mem_map_of_mem (f := Prod.snd) (get_eq_some.mp h)

end OrderedMap
end SparkProtocol.OrderedMaps
