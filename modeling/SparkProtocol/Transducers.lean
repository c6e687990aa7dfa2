import SparkProtocol.LabelledRuns

/-!
# Machines that are given input

A machine has at most one move of its own at a time, and it may be given input
whenever the world likes; input that no move has taken yet is kept. Of such a
machine only a view is compared. If a move does not mind input that comes early,
and it makes no difference how input is cut, then all that is left of a schedule is
its input: two machines at rest which were given the same are alike, and what a
machine has logged is the beginning of what it will have logged at rest.
-/
namespace SparkProtocol.Transducers
open LabelledRuns

variable {σ ι ω : Type*}

structure Transducer (σ ι : Type*) where
  advance : σ → Option σ
  feed : σ → List ι → σ

inductive Stimulus (ι : Type*) where
  | advance
  | feed (portion : List ι)

def Transducer.step (m : Transducer σ ι) (s : σ) : Stimulus ι → Option σ
  | .advance => m.advance s
  | .feed portion => some (m.feed s portion)

/-- All the input of a run. -/
def supplied : List (Stimulus ι) → List ι
  | [] => []
  | .advance::es => supplied es
  | .feed portion::es => portion++supplied es

theorem supplied_append (es es' : List (Stimulus ι)) :
    supplied (es++es') = supplied es++supplied es' := by
  induction es with
  | nil => rfl
  | cons e es ih => cases e <;> simp [supplied,ih]

theorem supplied_replicate (n : ℕ) : supplied (List.replicate n (.advance : Stimulus ι)) = [] := by
  induction n with
  | zero => rfl
  | succ n ih => rw [List.replicate_succ,supplied,ih]

/-- A number of moves in a row. -/
inductive Advances (m : Transducer σ ι) : ℕ → σ → σ → Prop
  | here (s : σ) : Advances m 0 s s
  | move {n : ℕ} {s t u : σ} : m.advance s = some t → Advances m n t u → Advances m (n+1) s u

/-- The moves come to an end. -/
inductive Rests (m : Transducer σ ι) : σ → Prop
  | rest {s : σ} : m.advance s = none → Rests m s
  | move {s t : σ} : m.advance s = some t → Rests m t → Rests m s

/-- The laws, where the invariant `I` holds. -/
structure Lawful (m : Transducer σ ι) (I : σ → Prop) (view : σ → ω) : Prop where
  keeps : ∀ s e t, I s → m.step s e = some t → I t
  feed_nil : ∀ s, I s → view (m.feed s []) = view s
  feed_append : ∀ s l l', I s → view (m.feed (m.feed s l) l') = view (m.feed s (l++l'))
  feed_view : ∀ s s' l, I s → I s' → view s = view s' → view (m.feed s l) = view (m.feed s' l)
  /-- A move is still there after more input, and it is the same. -/
  early : ∀ s s' l t, I s → I s' → view s' = view (m.feed s l) → m.advance s = some t →
    ∃ t', m.advance s' = some t' ∧ view t' = view (m.feed t l)

section Laws
variable {m : Transducer σ ι} {I : σ → Prop} {view : σ → ω} {s s' t t' u : σ} {n n' : ℕ}

theorem Rests.advances (h : Rests m s) : ∃ n t, Advances m n s t ∧ m.advance t = none := by
  induction h with
  | rest h => exact ⟨0,_,.here _,h⟩
  | move h _ ih =>
      obtain ⟨n,t,ht,hrest⟩ := ih
      exact ⟨n+1,t,.move h ht,hrest⟩

theorem Advances.run (h : Advances m n s t) :
    Run m.step s (List.replicate n .advance) t := by
  induction h with
  | here s => exact .nil s
  | move h _ ih => exact .cons h ih

theorem Lawful.feeds (h : Lawful m I view) (hs : I s) (l : List ι) : I (m.feed s l) :=
  h.keeps s (.feed l) _ hs rfl

theorem Lawful.moves (h : Lawful m I view) (hs : I s) (ht : m.advance s = some t) : I t :=
  h.keeps s .advance t hs ht

theorem Lawful.advances (h : Lawful m I view) (hs : I s) (ha : Advances m n s t) : I t := by
  induction ha with
  | here s => exact hs
  | move hmove _ ih => exact ih (h.moves hs hmove)

theorem Lawful.run_keeps (h : Lawful m I view) {es : List (Stimulus ι)} (hs : I s)
    (hrun : Run m.step s es t) : I t :=
  hrun.keeps (fun s e t _ => h.keeps s e t) hs

/-- States that look alike move alike. -/
theorem Lawful.alike (h : Lawful m I view) (hs : I s) (hs' : I s') (hv : view s' = view s)
    (ht : m.advance s = some t) : ∃ t', m.advance s' = some t' ∧ view t' = view t := by
  obtain ⟨t',ht',hvt⟩ := h.early s s' [] t hs hs' (hv.trans (h.feed_nil s hs).symm) ht
  exact ⟨t',ht',hvt.trans (h.feed_nil t (h.moves hs ht))⟩

theorem Lawful.alike_advances (h : Lawful m I view) (hs : I s) (hs' : I s')
    (hv : view s' = view s) (ha : Advances m n s t) :
    ∃ t', Advances m n s' t' ∧ view t' = view t := by
  induction ha generalizing s' with
  | here s => exact ⟨s',.here s',hv⟩
  | move hmove _ ih =>
      obtain ⟨u,hu,hvu⟩ := h.alike hs hs' hv hmove
      obtain ⟨t',ht',hvt⟩ := ih (h.moves hs hmove) (h.moves hs' hu) hvu
      exact ⟨t',.move hu ht',hvt⟩

theorem Lawful.alike_rest (h : Lawful m I view) (hs : I s) (hs' : I s') (hv : view s' = view s)
    (hrest : m.advance s = none) : m.advance s' = none := by
  cases hm : m.advance s' with
  | none => rfl
  | some t' =>
      obtain ⟨t,ht,-⟩ := h.alike hs' hs hv.symm hm
      rw [hrest] at ht
      cases ht

/-- Every run looks like one that is given its input at the start. -/
theorem Lawful.normal (h : Lawful m I view) {es : List (Stimulus ι)} (hs : I s)
    (hrun : Run m.step s es t) :
    ∃ n t', Advances m n (m.feed s (supplied es)) t' ∧ view t' = view t := by
  induction hrun with
  | nil s => exact ⟨0,_,.here _,h.feed_nil s hs⟩
  | @cons s u t e es hstep _ ih =>
      obtain ⟨n,t₁,ht₁,hv₁⟩ := ih (h.keeps s e u hs hstep)
      cases e with
      | advance =>
          obtain ⟨u',hu',hvu⟩ := h.early s _ (supplied es) u hs (h.feeds hs _) rfl hstep
          have hiu := h.moves (h.feeds hs _) hu'
          obtain ⟨t₂,ht₂,hv₂⟩ :=
            h.alike_advances (h.feeds (h.moves hs hstep) _) hiu hvu ht₁
          exact ⟨n+1,t₂,.move hu' ht₂,hv₂.trans hv₁⟩
      | feed portion =>
          obtain rfl := Option.some.inj hstep
          obtain ⟨t₂,ht₂,hv₂⟩ := h.alike_advances (h.feeds (h.feeds hs portion) _) (h.feeds hs _)
            (h.feed_append s portion _ hs).symm ht₁
          exact ⟨n,t₂,ht₂,hv₂.trans hv₁⟩

/-- There is one way to move: the shorter of two sequences begins the longer. -/
theorem Advances.compare (h : Advances m n s t) (h' : Advances m n' s t')
    (hrest : m.advance t' = none) : ∃ k, Advances m k t t' := by
  induction h generalizing n' with
  | here s => exact ⟨n',h'⟩
  | move hmove _ ih =>
      cases h' with
      | here _ =>
          rw [hrest] at hmove
          cases hmove
      | move hmove' h' =>
          obtain rfl := Option.some.inj (hmove.symm.trans hmove')
          exact ih h'

theorem Advances.at_rest (h : Advances m n s t) (hrest : m.advance s = none) : t = s := by
  cases h with
  | here _ => rfl
  | move hmove _ =>
      rw [hrest] at hmove
      cases hmove

variable {es es' : List (Stimulus ι)}

/-- The schedule makes no difference at rest. -/
theorem Lawful.determinate (h : Lawful m I view) (hs : I s) (hrun : Run m.step s es t)
    (hrun' : Run m.step s es' t') (hsup : supplied es = supplied es')
    (hrest : m.advance t = none) (hrest' : m.advance t' = none) : view t = view t' := by
  obtain ⟨n,u,hu,hv⟩ := h.normal hs hrun
  obtain ⟨n',u',hu',hv'⟩ := h.normal hs hrun'
  rw [← hsup] at hu'
  have hiu := h.advances (h.feeds hs _) hu
  have hiu' := h.advances (h.feeds hs _) hu'
  have hru := h.alike_rest (h.run_keeps hs hrun) hiu hv hrest
  have hru' := h.alike_rest (h.run_keeps hs hrun') hiu' hv' hrest'
  obtain ⟨k,hk⟩ := hu.compare hu' hru'
  rw [← hv,← hv',hk.at_rest hru]

variable {α : Type*} (log : ω → List α)

theorem Lawful.log_advances (h : Lawful m I view)
    (grows : ∀ s e t, I s → m.step s e = some t → log (view s) <+: log (view t)) (hs : I s)
    (ha : Advances m n s t) : log (view s) <+: log (view t) := by
  induction ha with
  | here s => exact List.prefix_refl _
  | move hmove _ ih =>
      exact (grows _ .advance _ hs hmove).trans (ih (h.moves hs hmove))

/-- What has been logged on some input begins what is logged at rest on more. -/
theorem Lawful.log_prefix (h : Lawful m I view)
    (grows : ∀ s e t, I s → m.step s e = some t → log (view s) <+: log (view t)) (hs : I s)
    (hrun : Run m.step s es t) (hrun' : Run m.step s es' t')
    (hsup : supplied es <+: supplied es') (hrest' : m.advance t' = none) :
    log (view t) <+: log (view t') := by
  obtain ⟨rest,hrest⟩ := hsup
  have hit := h.run_keeps hs hrun
  have hmore : Run m.step s (es++[.feed rest]) (m.feed t rest) :=
    hrun.append (.cons rfl (.nil _))
  obtain ⟨n,u,hu,hv⟩ := h.normal hs hmore
  obtain ⟨n',u',hu',hv'⟩ := h.normal hs hrun'
  rw [supplied_append,supplied,supplied,List.append_nil,hrest] at hu
  have hiu' := h.advances (h.feeds hs _) hu'
  have hru' := h.alike_rest (h.run_keeps hs hrun') hiu' hv' hrest'
  obtain ⟨k,hk⟩ := hu.compare hu' hru'
  have hlater := h.log_advances log grows (h.advances (h.feeds hs _) hu) hk
  rw [hv,hv'] at hlater
  exact (grows t (.feed rest) _ hit rfl).trans hlater

end Laws
end SparkProtocol.Transducers
