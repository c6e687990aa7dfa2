import Mathlib.Logic.Basic
import Mathlib.Order.WellFounded

/-!
# Runs of a guarded step function

A system is a step function on states and labels which answers `none` when the
label is not enabled. A run is a list of labels enabled one after another. The
safety vocabulary follows the run: `Always P` asks `P` of every visited state,
`Throughout C` asks `C` of every visited state with the label taken from it.
`Eventually P` is about every scheduler: whichever enabled label is taken, again
and again, `P` is reached, and no state before it is stuck.

The rules reduce a statement about runs to a statement about one step. The last
safety rules are equivalences: an invariant that each admissible step keeps, and
each inadmissible step visibly breaks, at its end or on its way, holds along exactly
the admissible runs.

A system of several parties keeps them in a list. A step moves one of them or lets
one join, and every party after it is that one or was there before.
-/
namespace SparkProtocol.LabelledRuns

variable {σ ε : Type*} (step : σ → ε → Option σ)

inductive Run : σ → List ε → σ → Prop
  | nil (s : σ) : Run s [] s
  | cons {s t u : σ} {e : ε} {es : List ε} : step s e = some t → Run t es u → Run s (e::es) u

/-- The same runs, computed. -/
def exec : σ → List ε → Option σ
  | s,[] => some s
  | s,e::es => (step s e).bind fun t => exec t es

def Always (P : σ → Prop) : σ → List ε → Prop
  | s,[] => P s
  | s,e::es => P s ∧ ∀ t, step s e = some t → Always P t es

def Throughout (C : σ → ε → Prop) : σ → List ε → Prop
  | _,[] => True
  | s,e::es => C s e ∧ ∀ t, step s e = some t → Throughout C t es

/-- Every maximal schedule from here reaches `P`. -/
inductive Eventually (P : σ → Prop) : σ → Prop
  | now {s : σ} : P s → Eventually P s
  | later {s : σ} : (∃ e t, step s e = some t) →
      (∀ e t, step s e = some t → Eventually P t) → Eventually P s

/-- A run read as work: each of its steps is quiet, or it does the next item. -/
inductive Performs {α : Type*} (Quiet : σ → σ → Prop) (Do : α → σ → σ → Prop) :
    σ → List ε → List α → σ → Prop
  | nil (s : σ) : Performs Quiet Do s [] [] s
  | quiet {s t u : σ} {e : ε} {es : List ε} {items : List α} : step s e = some t → Quiet s t →
      Performs Quiet Do t es items u → Performs Quiet Do s (e::es) items u
  | item {s t u : σ} {e : ε} {es : List ε} {a : α} {items : List α} : step s e = some t →
      Do a s t → Performs Quiet Do t es items u → Performs Quiet Do s (e::es) (a::items) u

variable {step}

/-- A condition that can be tested at a step can be tested along a run. -/
instance decidableThroughout {C : σ → ε → Prop} [∀ s e, Decidable (C s e)] :
    ∀ (s : σ) (es : List ε), Decidable (Throughout step C s es)
  | _,[] => isTrue trivial
  | s,e::es =>
      match h : step s e with
      | none => decidable_of_iff (C s e) (by simp [Throughout,h])
      | some t =>
          have : Decidable (Throughout step C t es) := decidableThroughout t es
          decidable_of_iff (C s e ∧ Throughout step C t es) (by simp [Throughout,h])

theorem run_iff_exec {s u : σ} {es : List ε} : Run step s es u ↔ exec step s es = some u := by
  constructor
  · intro h
    induction h with
    | nil s => rfl
    | cons hs _ ih => simpa only [exec,hs,Option.bind_some] using ih
  · intro h
    induction es generalizing s with
    | nil =>
        simp only [exec,Option.some.injEq] at h
        exact h ▸ .nil s
    | cons e es ih =>
        simp only [exec,Option.bind_eq_some_iff] at h
        obtain ⟨t,ht,hr⟩ := h
        exact .cons ht (ih hr)

/-- A computed observation of the end of a run, for closed examples. -/
theorem Run.of_observation {ω : Type*} {s : σ} {es : List ε} (f : σ → ω) {w : ω}
    (h : (exec step s es).map f = some w) : ∃ u, Run step s es u ∧ f u = w := by
  obtain ⟨u,hu,hw⟩ := Option.map_eq_some_iff.mp h
  exact ⟨u,run_iff_exec.mpr hu,hw⟩

theorem Run.append {s t u : σ} {es es' : List ε} (h : Run step s es t) (k : Run step t es' u) :
    Run step s (es++es') u := by
  induction h with
  | nil s => exact k
  | cons hstep _ ih => exact .cons hstep (ih k)

/-- A property that each step of the run keeps holds at its end. -/
theorem Run.keeps {I : σ → Prop} {s u : σ} {es : List ε} (h : Run step s es u)
    (keep : ∀ s e t, e ∈ es → I s → step s e = some t → I t) (hs : I s) : I u := by
  induction h with
  | nil s => exact hs
  | @cons s t u e es hstep _ ih =>
      exact ih (fun s e' t he => keep s e' t (List.mem_cons_of_mem e he))
        (keep s e t List.mem_cons_self hs hstep)

/-- Work on a list in order: the run has done a prefix of it, and the invariant
holds of the rest. -/
theorem Run.performs {α : Type*} {Quiet : σ → σ → Prop} {Do : α → σ → σ → Prop}
    {I : List α → σ → Prop} {s u : σ} {es : List ε} {todo : List α} (h : Run step s es u)
    (keep : ∀ todo s e t, I todo s → step s e = some t →
      (Quiet s t ∧ I todo t) ∨ ∃ a rest, todo = a::rest ∧ Do a s t ∧ I rest t)
    (hs : I todo s) :
    ∃ items rest, todo = items++rest ∧ Performs step Quiet Do s es items u ∧ I rest u := by
  induction h generalizing todo with
  | nil s => exact ⟨[],todo,rfl,.nil s,hs⟩
  | @cons s t u e es hstep _ ih =>
      rcases keep todo s e t hs hstep with ⟨hq,ht⟩ | ⟨a,rest,rfl,hd,ht⟩
      · obtain ⟨items,rest,rfl,hp,hr⟩ := ih ht
        exact ⟨items,rest,rfl,.quiet hstep hq hp,hr⟩
      · obtain ⟨items,rest,rfl,hp,hr⟩ := ih ht
        exact ⟨a::items,rest,rfl,.item hstep hd hp,hr⟩

theorem Always.head {P : σ → Prop} {s : σ} {es : List ε} (h : Always step P s es) : P s := by
  cases es with
  | nil => exact h
  | cons e es => exact h.1

theorem Throughout.mono {C D : σ → ε → Prop} (hcd : ∀ s e, C s e → D s e) {s : σ} {es : List ε}
    (h : Throughout step C s es) : Throughout step D s es := by
  induction es generalizing s with
  | nil => trivial
  | cons e es ih => exact ⟨hcd s e h.1,fun t ht => ih (h.2 t ht)⟩

theorem throughout_of_mem {C : σ → ε → Prop} {es : List ε} (h : ∀ e ∈ es, ∀ s, C s e) (s : σ) :
    Throughout step C s es := by
  induction es generalizing s with
  | nil => trivial
  | cons e es ih =>
      exact ⟨h e List.mem_cons_self s,fun t _ => ih (fun e he => h e (List.mem_cons_of_mem _ he)) t⟩

theorem throughout_of_forall {C : σ → ε → Prop} (h : ∀ s e, C s e) (s : σ) (es : List ε) :
    Throughout step C s es := by
  induction es generalizing s with
  | nil => trivial
  | cons e es ih => exact ⟨h s e,fun t _ => ih t⟩

theorem Always.at_end {P : σ → Prop} {s u : σ} {es : List ε} (h : Always step P s es)
    (r : Run step s es u) : P u := by
  induction r with
  | nil s => exact h
  | cons hs _ ih => exact ih (h.2 _ hs)

section Rules
variable {I P : σ → Prop} {C : σ → ε → Prop}

theorem Eventually.mono {Q : σ → Prop} (hpq : ∀ s, P s → Q s) {s : σ}
    (h : Eventually step P s) : Eventually step Q s := by
  induction h with
  | now hp => exact .now (hpq _ hp)
  | later he _ ih => exact .later he ih

theorem always_of_throughout (use : ∀ s, I s → P s)
    (keep : ∀ s e t, I s → C s e → step s e = some t → I t)
    {s : σ} {es : List ε} (hs : I s) (hc : Throughout step C s es) : Always step P s es := by
  induction es generalizing s with
  | nil => exact use s hs
  | cons e es ih =>
      exact ⟨use s hs,fun t ht => ih (keep s e t hs hc.1 ht) (hc.2 t ht)⟩

/-- Admissible steps keep the invariant and pass by nothing wrong; every other label
leads where `P` fails, or by something wrong. -/
theorem always_passing_iff_throughout {Q : σ → ε → Prop} (use : ∀ s, I s → P s)
    (pass : ∀ s e, I s → C s e → Q s e)
    (keep : ∀ s e t, I s → C s e → step s e = some t → I t)
    (breaks : ∀ s e, I s → ¬ C s e → (∃ t, step s e = some t ∧ ¬ P t) ∨ ¬ Q s e)
    {s : σ} {es : List ε} (hs : I s) :
    Always step P s es ∧ Throughout step Q s es ↔ Throughout step C s es := by
  induction es generalizing s with
  | nil => exact ⟨fun _ => trivial,fun _ => ⟨use s hs,trivial⟩⟩
  | cons e es ih =>
      constructor
      · rintro ⟨⟨-,hnext⟩,hq,hrest⟩
        have hc : C s e := by
          by_contra hc
          rcases breaks s e hs hc with ⟨t,ht,hp⟩ | hnq
          · exact hp (hnext t ht).head
          · exact hnq hq
        exact ⟨hc,fun t ht => (ih (keep s e t hs hc ht)).mp ⟨hnext t ht,hrest t ht⟩⟩
      · rintro ⟨hc,hrest⟩
        have hnext := fun t ht => (ih (keep s e t hs hc ht)).mpr (hrest t ht)
        exact ⟨⟨use s hs,fun t ht => (hnext t ht).1⟩,pass s e hs hc,fun t ht => (hnext t ht).2⟩

/-- Admissible steps keep the invariant, every other label leads where `P` fails. -/
theorem always_iff_throughout (use : ∀ s, I s → P s)
    (keep : ∀ s e t, I s → C s e → step s e = some t → I t)
    (breaks : ∀ s e, I s → ¬ C s e → ∃ t, step s e = some t ∧ ¬ P t)
    {s : σ} {es : List ε} (hs : I s) :
    Always step P s es ↔ Throughout step C s es := by
  rw [← always_passing_iff_throughout use (fun _ _ _ _ => trivial) keep
    (fun s e hi hc => .inl (breaks s e hi hc)) hs,and_iff_left]
  exact throughout_of_forall (fun _ _ => trivial) s es

/-- Two conditions that agree wherever an invariant holds. -/
theorem throughout_congr {D : σ → ε → Prop} (agree : ∀ s e, I s → (C s e ↔ D s e))
    (keep : ∀ s e t, I s → step s e = some t → I t) {s : σ} {es : List ε} (hs : I s) :
    Throughout step C s es ↔ Throughout step D s es := by
  induction es generalizing s with
  | nil => exact Iff.rfl
  | cons e es ih =>
      refine and_congr (agree s e hs) (forall_congr' fun t => ?_)
      exact ⟨fun h ht => (ih (keep s e t hs ht)).mp (h ht),
        fun h ht => (ih (keep s e t hs ht)).mpr (h ht)⟩

/-- Progress and a descending rank give termination under every scheduler. The rank
need not be read off the state. -/
theorem eventually_of_rank {I : ℕ → σ → Prop}
    (progress : ∀ n s, I n s → P s ∨ ∃ e t, step s e = some t)
    (descend : ∀ n s e t, I n s → step s e = some t → ∃ m, m < n ∧ I m t)
    (n : ℕ) (s : σ) (hs : I n s) : Eventually step P s := by
  induction n using Nat.strong_induction_on generalizing s with
  | h n ih =>
      rcases progress n s hs with hp | hp
      · exact .now hp
      · refine .later hp fun e t ht => ?_
        obtain ⟨m,hm,hi⟩ := descend n s e t hs ht
        exact ih m hm t hi

/-- What is reached from wherever the first goal is reached. -/
theorem Eventually.trans {Q : σ → Prop} {s : σ} (h : Eventually step P s)
    (hpq : ∀ s, P s → Eventually step Q s) : Eventually step Q s := by
  induction h with
  | now hp => exact hpq _ hp
  | later he _ ih => exact .later he ih

/-- What every step keeps holds when the goal is reached. -/
theorem Eventually.keeping {s : σ} (h : Eventually step P s)
    (keep : ∀ s e t, I s → step s e = some t → I t) (hs : I s) :
    Eventually step (fun s => I s ∧ P s) s := by
  induction h with
  | now hp => exact .now ⟨hs,hp⟩
  | later he _ ih => exact .later he fun e t ht => ih e t ht (keep _ e t hs ht)

/-- The rank need only descend until the goal is reached. -/
theorem eventually_of_descent {I : ℕ → σ → Prop}
    (progress : ∀ n s, I n s → P s ∨ ∃ e t, step s e = some t)
    (descend : ∀ n s e t, I n s → step s e = some t → P t ∨ ∃ m, m < n ∧ I m t)
    (n : ℕ) (s : σ) (hs : I n s) : Eventually step P s := by
  induction n using Nat.strong_induction_on generalizing s with
  | h n ih =>
      rcases progress n s hs with hp | hp
      · exact .now hp
      · refine .later hp fun e t ht => ?_
        rcases descend n s e t hs ht with ht | ⟨m,hm,hi⟩
        · exact .now ht
        · exact ih m hm t hi

end Rules

section Parties
variable {α : Type*} {l : List α} {i j : ℕ} {a b : α}

/-- A party after one party has moved. -/
theorem getElem?_set_cases (h : (l.set i a)[j]? = some b) :
    (j = i ∧ b = a) ∨ (j ≠ i ∧ l[j]? = some b) := by
  by_cases hij : j = i
  · subst hij
    have hlt := (List.getElem?_eq_some_iff.mp h).choose
    rw [List.length_set] at hlt
    rw [List.getElem?_set_self hlt] at h
    exact .inl ⟨rfl,(Option.some.inj h).symm⟩
  · rw [List.getElem?_set_ne (Ne.symm hij)] at h
    exact .inr ⟨hij,h⟩

theorem getElem?_set_at (h : l[i]? = some b) (a : α) : (l.set i a)[i]? = some a :=
  List.getElem?_set_self (List.getElem?_eq_some_iff.mp h).choose

/-- A party keeps its place when one joins. -/
theorem getElem?_concat_some (h : l[j]? = some b) (a : α) : (l++[a])[j]? = some b :=
  (List.getElem?_append_left (List.getElem?_eq_some_iff.mp h).choose).trans h

/-- What holds of each party holds after one of them has moved. -/
theorem each_set {P : α → Prop} {m : List α} (h : ∀ (j : ℕ) (b : α), l[j]? = some b → P b)
    (ha : P a) (hm : m = l.set i a) : ∀ (j : ℕ) (b : α), m[j]? = some b → P b := by
  subst hm
  intro j b hb
  rcases getElem?_set_cases hb with ⟨-,rfl⟩ | ⟨-,hb⟩
  · exact ha
  · exact h j b hb

/-- A party after one has joined. -/
theorem getElem?_concat_cases (h : (l++[a])[j]? = some b) :
    l[j]? = some b ∨ (j = l.length ∧ b = a) := by
  rw [List.getElem?_append] at h
  split_ifs at h with hlt
  · exact .inl h
  · obtain ⟨hj,hb⟩ := List.getElem?_eq_some_iff.mp h
    rw [List.length_singleton] at hj
    exact .inr ⟨by omega,by simpa using hb.symm⟩

theorem each_concat {P : α → Prop} {m : List α} (h : ∀ (j : ℕ) (b : α), l[j]? = some b → P b)
    (ha : P a) (hm : m = l++[a]) : ∀ (j : ℕ) (b : α), m[j]? = some b → P b := by
  subst hm
  intro j b hb
  rcases getElem?_concat_cases hb with hb | ⟨-,rfl⟩
  · exact h j b hb
  · exact ha

end Parties
end SparkProtocol.LabelledRuns
