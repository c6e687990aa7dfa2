import SparkProtocol.ByteStrings
import Mathlib.Tactic.Common

/-!
# Length-prefixed streams

A frame is a 16-bit big-endian length, a fixed mark and as many body bytes as
the length says. The parser knows only how long the mark is and never looks at
it. Parsing a concatenation of frames gives back the bodies and leaves nothing;
an incomplete tail is kept back whole.

What there is to peel off a byte string is a relation, whoever computes it and from
however many pieces. A string that grows is peeled further from the tail on, so any
parser that keeps the tail and peels on gives what one parse of the whole would give.
-/
namespace SparkProtocol.FramedStreams
open ByteStrings

def frame (mark body : Bytes) : Bytes := be16 body.length++(mark++body)

/-- Peel frames off the front while they are complete; the fuel bounds their number. -/
def parse (markLength : ℕ) : ℕ → Bytes → List Bytes × Bytes
  | 0,b => ([],b)
  | fuel+1,b =>
      match readBe16 b with
      | none => ([],b)
      | some n =>
          let stop := 2+markLength+n
          if stop ≤ b.length then
            let r := parse markLength fuel (b.drop stop)
            (slice b (2+markLength) stop::r.1,r.2)
          else ([],b)

@[simp] theorem frame_length (mark body : Bytes) :
    (frame mark body).length = 2+mark.length+body.length := by
  simp only [frame,List.length_append,be16_length]
  omega

theorem readBe16_frame (mark body rest : Bytes) (h : body.length < 65536) :
    readBe16 (frame mark body++rest) = some body.length := by
  rw [frame,List.append_assoc]
  exact readBe16_be16 _ h _

theorem drop_frame (mark body rest : Bytes) :
    (frame mark body++rest).drop (2+mark.length+body.length) = rest :=
  List.drop_left' (frame_length mark body)

theorem slice_frame (mark body rest : Bytes) :
    slice (frame mark body++rest) (2+mark.length) (2+mark.length+body.length) = body := by
  have hm : (be16 body.length++mark).length = 2+mark.length := by
    rw [List.length_append,be16_length]
  rw [slice,frame,← List.append_assoc (be16 body.length),List.append_assoc _ body,
    List.drop_left' hm]
  exact List.take_left' (by omega)

theorem parse_frame (mark body rest : Bytes) (fuel : ℕ) (h : body.length < 65536) :
    parse mark.length (fuel+1) (frame mark body++rest) =
      (body::(parse mark.length fuel rest).1,(parse mark.length fuel rest).2) := by
  have hle : 2+mark.length+body.length ≤ (frame mark body++rest).length := by simp
  simp only [parse,readBe16_frame _ _ _ h,hle,↓reduceIte,drop_frame,slice_frame]

theorem parse_frames (mark : Bytes) (bodies : List Bytes) (fuel : ℕ)
    (hf : bodies.length ≤ fuel) (h : ∀ b ∈ bodies, b.length < 65536) :
    parse mark.length fuel (bodies.flatMap (frame mark)) = (bodies,[]) := by
  induction bodies generalizing fuel with
  | nil => cases fuel <;> rfl
  | cons b bodies ih =>
      cases fuel with
      | zero => simp at hf
      | succ fuel =>
          rw [List.flatMap_cons,parse_frame mark b _ fuel (h b List.mem_cons_self),
            ih fuel (by simpa using hf) fun c hc => h c (List.mem_cons_of_mem b hc)]

theorem length_le_flatMap_frame (mark : Bytes) (bodies : List Bytes) :
    bodies.length ≤ (bodies.flatMap (frame mark)).length := by
  induction bodies with
  | nil => simp
  | cons b bodies ih =>
      simp only [List.flatMap_cons,List.length_append,frame_length,List.length_cons]
      omega

/-- No whole frame stands at the front. -/
def Incomplete (m : ℕ) (b : Bytes) : Prop := ∀ n, readBe16 b = some n → b.length < 2+m+n

/-- The bodies of the whole frames of a byte string, and what is left behind them. -/
inductive Peels (m : ℕ) : Bytes → List Bytes → Bytes → Prop
  | stop {b : Bytes} : Incomplete m b → Peels m b [] b
  | peel {b rest : Bytes} {bodies : List Bytes} {n : ℕ} : readBe16 b = some n →
      2+m+n ≤ b.length → Peels m (b.drop (2+m+n)) bodies rest →
      Peels m b (slice b (2+m) (2+m+n)::bodies) rest

theorem readBe16_append {b : Bytes} (h : 2 ≤ b.length) (c : Bytes) :
    readBe16 (b++c) = readBe16 b := by
  match b,h with
  | hi::lo::b,_ => rfl

theorem slice_append {b : Bytes} {i j : ℕ} (h : j ≤ b.length) (c : Bytes) :
    slice (b++c) i j = slice b i j := by
  unfold slice
  by_cases hi : i ≤ b.length
  · rw [List.drop_append_of_le_length hi,List.take_append_of_le_length (by simp; omega)]
  · rw [show j-i = 0 by omega]
    simp

section Peeling
variable {m : ℕ} {b c rest rest' : Bytes} {bodies bodies' : List Bytes}

theorem Peels.incomplete (h : Peels m b bodies rest) : Incomplete m rest := by
  induction h with
  | stop h => exact h
  | peel _ _ _ ih => exact ih

/-- There is one way to peel. -/
theorem Peels.functional (h : Peels m b bodies rest) (h' : Peels m b bodies' rest') :
    bodies = bodies' ∧ rest = rest' := by
  induction h generalizing bodies' with
  | stop hi =>
      cases h' with
      | stop _ => exact ⟨rfl,rfl⟩
      | peel hn hle _ => exact absurd hle (Nat.not_le.mpr (hi _ hn))
  | peel hn hle _ ih =>
      cases h' with
      | stop hi => exact absurd hle (Nat.not_le.mpr (hi _ hn))
      | peel hn' _ hr =>
          obtain rfl := Option.some.inj (hn.symm.trans hn')
          obtain ⟨rfl,rfl⟩ := ih hr
          exact ⟨rfl,rfl⟩

/-- More bytes are peeled from the tail on. -/
theorem Peels.append (h : Peels m b bodies rest) (h' : Peels m (rest++c) bodies' rest') :
    Peels m (b++c) (bodies++bodies') rest' := by
  induction h with
  | stop _ => exact h'
  | @peel b rest bodies n hn hle _ ih =>
      have hpeel := ih h'
      rw [← List.drop_append_of_le_length hle] at hpeel
      have h := Peels.peel ((readBe16_append (by omega) c).trans hn) (by simp; omega) hpeel
      rw [slice_append hle] at h
      exact h

/-- The parser peels, given a turn for each byte. -/
theorem parse_peels (fuel : ℕ) (b : Bytes) (h : b.length ≤ fuel) :
    Peels m b (parse m fuel b).1 (parse m fuel b).2 := by
  induction fuel generalizing b with
  | zero =>
      obtain rfl := List.length_eq_zero_iff.mp (Nat.le_zero.mp h)
      exact .stop fun n hn => by cases hn
  | succ fuel ih =>
      unfold parse
      split
      · next hn => exact .stop fun n hn' => by simp [hn] at hn'
      · next n hn =>
          dsimp only
          split_ifs with hle
          · exact .peel hn hle (ih _ (by simp; omega))
          · refine .stop fun n' hn' => ?_
            obtain rfl := Option.some.inj (hn.symm.trans hn')
            omega

theorem frame_prefix {mark body wire : Bytes} (hp : b <+: frame mark body++wire)
    (hle : 2+mark.length+body.length ≤ b.length) : ∃ b', b = frame mark body++b' ∧ b' <+: wire := by
  obtain ⟨b',rfl⟩ := List.prefix_of_prefix_length_le (List.prefix_append _ wire) hp
    (by rw [frame_length]; exact hle)
  exact ⟨b',rfl,(List.prefix_append_right_inj _).mp hp⟩

/-- What a prefix of a sequence of frames is peeled into: the bodies of the frames that it
holds whole. -/
theorem Peels.of_prefix {mark : Bytes} {payloads : List Bytes}
    (hp : b <+: payloads.flatMap (frame mark)) (hl : ∀ p ∈ payloads, p.length < 65536)
    (h : Peels mark.length b bodies rest) :
    bodies <+: payloads ∧ bodies.flatMap (frame mark)++rest = b ∧
      ∀ p, bodies++[p] <+: payloads → b.length < ((bodies++[p]).flatMap (frame mark)).length := by
  induction payloads generalizing b bodies with
  | nil =>
      obtain rfl := List.prefix_nil.mp hp
      cases h with
      | stop _ => exact ⟨List.nil_prefix,rfl,fun p hq => by simp at hq⟩
      | peel hn _ _ => cases hn
  | cons p payloads ih =>
      have hpl := hl p List.mem_cons_self
      rw [List.flatMap_cons] at hp
      cases h with
      | stop hi =>
          refine ⟨List.nil_prefix,rfl,fun q hq => ?_⟩
          obtain ⟨rfl,-⟩ := List.cons_prefix_cons.mp hq
          by_contra hge
          rw [List.nil_append,List.flatMap_singleton,frame_length] at hge
          obtain ⟨b',rfl,-⟩ := frame_prefix hp (by omega)
          have hlt := hi _ (readBe16_frame mark q b' hpl)
          omega
      | @peel _ _ bodies n hn hle hr =>
          have hn' : readBe16 b = some p.length := by
            obtain ⟨t,ht⟩ := hp
            rw [← readBe16_append (by omega) t,ht]
            exact readBe16_frame mark p _ hpl
          obtain rfl := Option.some.inj (hn.symm.trans hn')
          obtain ⟨b',rfl,hb'⟩ := frame_prefix hp hle
          rw [drop_frame] at hr
          rw [slice_frame]
          obtain ⟨hpre,hbytes,hnext⟩ := ih hb' (fun q hq => hl q (List.mem_cons_of_mem p hq)) hr
          refine ⟨List.cons_prefix_cons.mpr ⟨rfl,hpre⟩,?_,fun q hq => ?_⟩
          · rw [List.flatMap_cons,List.append_assoc,hbytes]
          · have hlt := hnext q (List.cons_prefix_cons.mp hq).2
            simp only [List.cons_append,List.flatMap_cons,List.length_append]
            omega

end Peeling
end SparkProtocol.FramedStreams
