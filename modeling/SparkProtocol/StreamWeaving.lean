import SparkProtocol.StreamPrograms

/-!
# Two programs talking to each other

The histories of two programs fit together when they can be woven into one: in
some order of their items, each read finds at the front of its stream what the
other side has written. Which order is taken does not matter. An item that a
party can do now can be done first, so the rest still fits; and as long as
something is left, the weave itself names a party that is not stuck. Hence every
schedule of the two, with any delay of the bytes, runs both histories to the end.
-/
namespace SparkProtocol.StreamWeaving
open ByteStrings StreamPrograms Program

variable {N C : Type} {A : C → Type} {ε α : Type} {N' C' : Type} {A' : C' → Type} {ε' : Type}

/-- One item of a party: `a` is on its way to it, `b` to the other party. -/
inductive Acts : Item N C A ε → Bytes → Bytes → Bytes → Bytes → Prop
  | note {x : N} {a b : Bytes} : Acts (.note x) a b a b
  | call {c : C} {r : A c} {a b : Bytes} : Acts (.call c r) a b a b
  | write {w a b : Bytes} : Acts (.write w) a b a (b++w)
  | read {n : ℕ} {r a b : Bytes} : r.length = n → Acts (.read n (.ok r)) (r++a) b a b

/-- The two histories fit together, with these bytes on their way. -/
inductive Weave : Bytes → Bytes → List (Item N C A ε) → List (Item N' C' A' ε') → Prop
  | done : Weave [] [] [] []
  | first {i : Item N C A ε} {a b a' b' : Bytes} {t : List (Item N C A ε)}
      {u : List (Item N' C' A' ε')} : Acts i a b a' b' → Weave a' b' t u → Weave a b (i::t) u
  | second {i : Item N' C' A' ε'} {a b a' b' : Bytes} {t : List (Item N C A ε)}
      {u : List (Item N' C' A' ε')} : Acts i b a b' a' → Weave a' b' t u → Weave a b t (i::u)

theorem Acts.deterministic {i : Item N C A ε} {a b a1 b1 a2 b2 : Bytes}
    (h : Acts i a b a1 b1) (k : Acts i a b a2 b2) : a1 = a2 ∧ b1 = b2 := by
  generalize ha : a = a0 at k
  cases h with
  | note => cases k; exact ⟨ha,rfl⟩
  | call => cases k; exact ⟨ha,rfl⟩
  | write => cases k; exact ⟨ha,rfl⟩
  | read hr =>
      cases k with
      | read hs => exact ⟨(List.append_inj ha rfl).2,rfl⟩

/-- What one party can do now it can still do after the other has acted, and the
order makes no difference. -/
theorem Acts.commute {i : Item N C A ε} {j : Item N' C' A' ε'} {a b a1 b1 a2 b2 : Bytes}
    (h : Acts i a b a1 b1) (k : Acts j b a b2 a2) :
    ∃ a3 b3, Acts i a2 b2 a3 b3 ∧ Acts j b1 a1 b3 a3 := by
  cases h with
  | note => exact ⟨a2,b2,.note,k⟩
  | call => exact ⟨a2,b2,.call,k⟩
  | @write w =>
      cases k with
      | note => exact ⟨_,_,.write,.note⟩
      | call => exact ⟨_,_,.write,.call⟩
      | write => exact ⟨_,_,.write,.write⟩
      | @read n r _ _ hr =>
          refine ⟨_,_,.write,?_⟩
          rw [List.append_assoc]
          exact .read hr
  | @read n r _ _ hr =>
      cases k with
      | note => exact ⟨_,_,.read hr,.note⟩
      | call => exact ⟨_,_,.read hr,.call⟩
      | @write w =>
          refine ⟨a1++w,_,?_,.write⟩
          rw [List.append_assoc]
          exact .read hr
      | read hs => exact ⟨_,_,.read hr,.read hs⟩

variable {a b a' b' : Bytes} {t : List (Item N C A ε)} {u : List (Item N' C' A' ε')}

theorem Weave.swap (h : Weave a b t u) : Weave b a u t := by
  induction h with
  | done => exact .done
  | first hi _ ih => exact .second hi ih
  | second hi _ ih => exact .first hi ih

theorem Weave.first_read {n : ℕ} {r : Bytes} (h : Weave a b t u) (hr : r.length = n) :
    Weave (r++a) b (.read n (.ok r)::t) u :=
  .first (.read hr) h

theorem Weave.second_read {n : ℕ} {r : Bytes} (h : Weave a b t u) (hr : r.length = n) :
    Weave a (r++b) t (.read n (.ok r)::u) :=
  .second (.read hr) h

/-- An item that can be done now can be done first. -/
theorem Weave.step {i : Item N C A ε} (h : Weave a b (i::t) u) (hi : Acts i a b a' b') :
    Weave a' b' t u := by
  generalize ht : i::t = s at h
  induction h generalizing a' b' with
  | done => cases ht
  | first hj hw =>
      obtain ⟨rfl,rfl⟩ := List.cons.inj ht
      obtain ⟨rfl,rfl⟩ := hj.deterministic hi
      exact hw
  | second hj _ ih =>
      obtain ⟨a3,b3,h3,k3⟩ := hi.commute hj
      exact .second k3 (ih h3 ht)

/-- A burst can be done at once. -/
theorem Weave.burst {l : List (Effect N)} (h : Weave a b (l.map Effect.item++t) u) :
    Weave a (b++(written (l.map (Effect.item (C := C) (A := A) (ε := ε)))).flatten) t u := by
  induction l generalizing b with
  | nil => simpa [written] using h
  | cons x l ih =>
      cases x with
      | note x => exact ih (h.step .note)
      | write w => simpa [Effect.item,written] using ih (h.step .write)

/-- A read of no more than is on its way is served from the front. -/
theorem Weave.read {n : ℕ} {r : Except ε Bytes} (h : Weave a b (.read n r::t) u)
    (hn : n ≤ a.length) : r = .ok (a.take n) ∧ Weave (a.drop n) b t u := by
  have hr : r = .ok (a.take n) := by
    generalize ht : Item.read n r::t = s at h
    induction h with
    | done => cases ht
    | first hj _ =>
        cases hj with
        | read hl =>
            obtain ⟨hi,-⟩ := List.cons.inj ht
            cases hi
            rw [List.take_left' hl]
        | _ => cases ht
    | second hj _ ih =>
        cases hj with
        | write =>
            rw [ih (by rw [List.length_append]; omega) ht,List.take_append_of_le_length hn]
        | read _ => exact ih hn ht
        | note => exact ih hn ht
        | call => exact ih hn ht
  refine ⟨hr,h.step ?_⟩
  subst hr
  have hread := Acts.read (N := N) (C := C) (A := A) (ε := ε) (b := b) (a := a.drop n)
    (List.length_take_of_le hn)
  rwa [List.take_append_drop] at hread

/-- Nothing is on its way to a party that has finished. -/
theorem Weave.finished (h : Weave a b ([] : List (Item N C A ε)) u) : a = [] := by
  generalize ht : ([] : List (Item N C A ε)) = s at h
  induction h with
  | done => rfl
  | first _ _ => cases ht
  | second hj _ ih =>
      cases hj with
      | write => exact (List.append_eq_nil_iff.mp (ih ht)).1
      | read _ => exact ih ht
      | note => exact ih ht
      | call => exact ih ht

/-- As long as something is left, some party can do its next item. -/
theorem Weave.progress (h : Weave a b t u) :
    (t = [] ∧ u = []) ∨ (∃ i s a' b', t = i::s ∧ Acts i a b a' b') ∨
      ∃ i s a' b', u = i::s ∧ Acts i b a b' a' := by
  cases h with
  | done => exact .inl ⟨rfl,rfl⟩
  | first hi _ => exact .inr (.inl ⟨_,_,_,_,rfl,hi⟩)
  | second hi _ => exact .inr (.inr ⟨_,_,_,_,rfl,hi⟩)

/-- The size of a history: its items, and the bytes still to be written. -/
def weight : List (Item N C A ε) → ℕ
  | [] => 0
  | .write w::t => 2+w.length+weight t
  | _::t => 2+weight t

theorem weight_append (s t : List (Item N C A ε)) : weight (s++t) = weight s+weight t := by
  induction s with
  | nil => simp [weight]
  | cons i s ih =>
      cases i <;> simp only [List.cons_append,weight,ih] <;> omega

theorem written_length_le_weight (t : List (Item N C A ε)) :
    (written t).flatten.length ≤ weight t := by
  induction t with
  | nil => simp [written]
  | cons i t ih =>
      cases i with
      | write w =>
          simp only [written,List.flatten_cons,List.length_append,weight]
          omega
      | _ => exact Nat.le_trans ih (Nat.le_add_left ..)

end SparkProtocol.StreamWeaving
