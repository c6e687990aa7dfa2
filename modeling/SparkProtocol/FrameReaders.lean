import SparkProtocol.Chunking

/-!
# The framer

The framer appends each chunk to what it has kept back and peels off the whole
frames. Whatever the chunks are, it has then given out the payloads of the frames
that have come whole, and it keeps what has come of the next.
-/
namespace SparkProtocol.Chunking
open ByteStrings HostValues FramedStreams

structure FrameReader where
  buf : Bytes := []
  deriving DecidableEq

/-- The loop of `feed`. A turn that goes on takes three bytes at least, so the length of
the buffer is fuel enough. -/
def feedLoop : ℕ → Bytes → List Bytes × Bytes
  | 0,buf => ([],buf)
  | fuel+1,buf =>
      if 3 ≤ buf.length then
        match readUInt16BE buf 0 with
        | .error _ => ([],buf)
        | .ok len =>
            if buf.length < 3+len then ([],buf)
            else
              let r := feedLoop fuel (buf.drop (3+len))
              (slice buf 3 (3+len)::r.1,r.2)
      else ([],buf)

def FrameReader.feed (r : FrameReader) (chunk : Bytes) : List Bytes × FrameReader :=
  let l := feedLoop (r.buf++chunk).length (r.buf++chunk)
  (l.1,{ buf := l.2 })

/-- Successive calls, with the frames of each. -/
def FrameReader.feedAll : FrameReader → List Bytes → List (List Bytes) × FrameReader
  | r,[] => ([],r)
  | r,chunk::chunks =>
      let l := (r.feed chunk).2.feedAll chunks
      ((r.feed chunk).1::l.1,l.2)

/-- One turn of the loop is one of the parser. -/
theorem feedLoop_eq (fuel : ℕ) (buf : Bytes) : feedLoop fuel buf = parse 1 fuel buf := by
  induction fuel generalizing buf with
  | zero => rfl
  | succ fuel ih =>
      unfold feedLoop parse readUInt16BE
      rw [List.drop_zero]
      cases hn : readBe16 buf with
      | none => split_ifs <;> rfl
      | some n =>
          by_cases hlt : buf.length < 3+n
          · have hle : ¬ 2+1+n ≤ buf.length := by omega
            simp only [hlt,↓reduceIte,hle,ite_self]
          · have hle : 2+1+n ≤ buf.length := by omega
            have h3 : 3 ≤ buf.length := by omega
            simp only [h3,hlt,↓reduceIte,hle,ih]

namespace FrameReader

/-- A framer between two calls. -/
def Settled (r : FrameReader) : Prop := Incomplete 1 r.buf

theorem settled_start : Settled {} := fun n hn => by cases hn

theorem feed_peels (r : FrameReader) (chunk : Bytes) :
    Peels 1 (r.buf++chunk) (r.feed chunk).1 (r.feed chunk).2.buf := by
  have h := parse_peels (m := 1) _ (r.buf++chunk) (Nat.le_refl _)
  rw [← feedLoop_eq] at h
  exact h

/-- Calls in a row peel what one call would peel. -/
theorem feedAll_peels {r : FrameReader} (h : r.Settled) (chunks : List Bytes) :
    Peels 1 (r.buf++chunks.flatten) (r.feedAll chunks).1.flatten (r.feedAll chunks).2.buf := by
  induction chunks generalizing r with
  | nil =>
      rw [List.flatten_nil,List.append_nil]
      exact .stop h
  | cons chunk chunks ih =>
      have hfeed := r.feed_peels chunk
      have happ := hfeed.append (ih hfeed.incomplete)
      rw [List.flatten_cons,← List.append_assoc]
      exact happ

theorem feedAll_take (r : FrameReader) (chunks : List Bytes) (i : ℕ) :
    (r.feedAll chunks).1.take i = (r.feedAll (chunks.take i)).1 := by
  induction chunks generalizing r i with
  | nil => simp [feedAll]
  | cons chunk chunks ih =>
      cases i with
      | zero => rfl
      | succ i => simp only [feedAll,List.take_succ_cons,ih]

end FrameReader

/-- What has been given out and kept back of the frames of some payloads, after some bytes:
the payloads whose frames are complete, and all the rest. -/
structure Lossless (payloads : List Bytes) (fed : Bytes) (given : List Bytes) (kept : Bytes) :
    Prop where
  order : given <+: payloads
  bytes : given.flatMap (frame [syncByte])++kept = fed
  complete : ∀ p, given++[p] <+: payloads →
    fed.length < ((given++[p]).flatMap (frame [syncByte])).length

/-- Payloads that fit are encoded, each to its frame. -/
theorem mapM_encodeDeviceFrame {payloads : List Bytes} (h : ∀ p ∈ payloads, p.length ≤ 65535) :
    payloads.mapM encodeDeviceFrame = .ok (payloads.map (frame [syncByte])) := by
  induction payloads with
  | nil => rfl
  | cons p payloads ih =>
      have hp : encodeDeviceFrame p = .ok (frame [syncByte] p) :=
        if_neg (Nat.not_lt.mpr (h p List.mem_cons_self))
      rw [List.mapM_cons,hp,ih fun q hq => h q (List.mem_cons_of_mem p hq)]
      rfl

/-- However the encoded payloads are cut into chunks, and wherever the last chunk ends:
after each call the framer has given out the payloads that are complete by then, and
keeps the rest of the bytes. -/
theorem frameReader_lossless {payloads : List Bytes} (h : ∀ p ∈ payloads, p.length ≤ 65535) :
    ∃ frames, payloads.mapM encodeDeviceFrame = .ok frames ∧
      ∀ chunks : List Bytes, chunks.flatten <+: frames.flatten → ∀ i,
        Lossless payloads (chunks.take i).flatten
          (((FrameReader.feedAll {} chunks).1.take i).flatten)
          (FrameReader.feedAll {} (chunks.take i)).2.buf := by
  refine ⟨_,mapM_encodeDeviceFrame h,fun chunks hc i => ?_⟩
  have hpeels : Peels [syncByte].length (chunks.take i).flatten _ _ :=
    FrameReader.feedAll_peels FrameReader.settled_start (chunks.take i)
  rw [FrameReader.feedAll_take]
  have hpre : (chunks.take i).flatten <+: payloads.flatMap (frame [syncByte]) := by
    refine List.IsPrefix.trans ?_ hc
    obtain ⟨rest,hrest⟩ := List.take_prefix i chunks
    exact ⟨rest.flatten,by rw [← List.flatten_append,hrest]⟩
  obtain ⟨horder,hbytes,hcomplete⟩ :=
    hpeels.of_prefix hpre fun p hp => Nat.lt_succ_of_le (h p hp)
  exact ⟨horder,hbytes,hcomplete⟩

/-- An empty frame and a longer one, cut inside a header, with an empty chunk, and short
of the end. -/
theorem frameReader_lossless_cut :
    Lossless [[],[7,8]] [0,0,0xFF,0,2,0xFF,7] [[]] [0,2,0xFF,7] := by
  have hp : ∀ p ∈ ([[],[7,8]] : List Bytes), p.length ≤ 65535 := by decide
  obtain ⟨frames,hframes,h⟩ := frameReader_lossless hp
  obtain rfl := Except.ok.inj ((mapM_encodeDeviceFrame hp).symm.trans hframes)
  exact h [[0,0],[0xFF],[],[0,2,0xFF,7]] (by decide) 4

end SparkProtocol.Chunking
