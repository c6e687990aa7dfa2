import SparkProtocol.SessionReads
import SparkProtocol.FrameReaders

/-!
# Two framers

The session pulls frames from its byte queue, with one read for the header and one for
the body; the framer is pushed the chunks and peels. A loop that pulls frame after frame
takes the bytes up later than they come, by as many continuations as the schedule leaves
open, but what it has taken, what it is about to take and what is still to come are one
stream at all times, and its frames are those that are peeled off that stream.
-/
namespace SparkProtocol.Sessions
open ByteStrings HostValues StreamPrograms Program Chunking Handshake ByteQueues FramedStreams
  LabelledRuns Session

/-- A loop of `readFrame` calls over the queue of a session, with the chunks still to come. -/
structure Pull where
  session : Session := {}
  incoming : List Bytes
  control : Exchange Bytes
  frames : List Bytes := []

inductive PullEvent where
  /-- The next chunk arrives. -/
  | data
  /-- The loop takes up the value of its read. -/
  | resume

/-- On to the next suspension; a frame that is delivered is followed by the next call. -/
def Pull.go (s : Pull) (p : Exchange Bytes) : Pull :=
  match p.burst.2 with
  | .done frame =>
      { s with frames := s.frames++[frame], session := s.session.await readFrame, control := readFrame }
  | q => { s with session := s.session.await q, control := q }

def Pull.start (chunks : List Bytes) : Pull :=
  Pull.go { incoming := chunks, control := readFrame } readFrame

def pullStep (s : Pull) : PullEvent → Option Pull
  | .data =>
      match s.incoming with
      | [] => none
      | chunk::chunks => some { s with session := s.session.onData chunk, incoming := chunks }
  | .resume =>
      match s.control,s.session.settled with
      | .read _ k,some r => some ({ s with session := s.session.taken }.go (k r))
      | _,_ => none

/-- Where the loop is: before a header, or after one and before its body. The bytes are
those that no frame has been made of yet, of what has come. -/
inductive Pulling (s : Pull) : Bytes → ℕ → Prop
  | header {input : Bytes} : s.control = readFrame → Reads s.session 3 input → Pulling s input 1
  | body {head input : Bytes} {n : ℕ} : s.control = readBytes n → head.length = 3 →
      readBe16 head = some n → Reads s.session n input → Pulling s (head++input) 0

/-- What the loop has made, with what is peeled off what it has not, is what is peeled off
the stream. -/
def Follows (stream : Bytes) (m : ℕ) (s : Pull) : Prop :=
  ∃ rest k, Pulling s rest k ∧
    m = 2*(rest.length+s.incoming.flatten.length)+s.incoming.length+k ∧
    ∀ bodies tail, Peels 1 (rest++s.incoming.flatten) bodies tail →
      Peels 1 stream (s.frames++bodies) tail

/-- The loop has made the frames of the framer, and it keeps back the same bytes; those of a
header are out of the queue. -/
structure Agrees (s : Pull) (frames : List Bytes) (buf : Bytes) : Prop where
  frames : s.frames = frames
  tail : (s.control = readFrame ∧ s.session.queue.buf = buf) ∨
    ∃ head n, head.length = 3 ∧ readBe16 head = some n ∧ s.control = readBytes n ∧
      head++s.session.queue.buf = buf

section Steps
variable {stream : Bytes} {s t : Pull} {rest : Bytes} {k m : ℕ}

theorem pulling_start (chunks : List Bytes) : Pulling (.start chunks) [] 1 :=
  .header rfl ((⟨rfl,rfl⟩ : Unreading {} []).read 3)

theorem readUInt16BE_threeBytes {head : Bytes} (h : head.length = 3) :
    ∃ n, readBe16 head = some n ∧ readUInt16BE head 0 = .ok n := by
  match head,h with
  | [hi,lo,_],_ => exact ⟨word16 hi lo,rfl,rfl⟩

/-- A read that is taken up was for a header or for a body. -/
theorem pull_resume (h : Pulling s rest k) (ht : pullStep s .resume = some t) :
    t.incoming = s.incoming ∧
      ((k = 1 ∧ t.frames = s.frames ∧ Pulling t rest 0) ∨
        ∃ n, readBe16 rest = some n ∧ 3+n ≤ rest.length ∧
          t.frames = s.frames++[slice rest 3 (3+n)] ∧ Pulling t (rest.drop (3+n)) 1) := by
  cases h with
  | header hc hr =>
      cases hs : s.session.settled with
      | none => simp [pullStep,hc,readFrame_eq,hs] at ht
      | some r =>
          obtain ⟨hle,rfl,hun⟩ := hr.take hs
          have hlen : (rest.take 3).length = 3 := List.length_take_of_le hle
          obtain ⟨n,hn,hread⟩ := readUInt16BE_threeBytes hlen
          simp only [pullStep,hc,readFrame_eq,hs,settled_ok,bind_done,hread] at ht
          obtain rfl := Option.some.inj ht
          refine ⟨rfl,.inl ⟨rfl,rfl,?_⟩⟩
          rw [← List.take_append_drop 3 rest]
          exact .body rfl hlen hn (hun.read n)
  | @body head input n hc hl hn hr =>
      cases hs : s.session.settled with
      | none => simp [pullStep,hc,readBytes_eq,hs] at ht
      | some r =>
          obtain ⟨hle,rfl,hun⟩ := hr.take hs
          simp only [pullStep,hc,readBytes_eq,hs,settled_ok] at ht
          obtain rfl := Option.some.inj ht
          have hslice : slice (head++input) 3 (3+n) = input.take n := by
            rw [slice,List.drop_left' hl,Nat.add_sub_cancel_left]
          have hdrop : (head++input).drop (3+n) = input.drop n := by
            rw [← List.drop_drop,List.drop_left' hl]
          refine ⟨rfl,.inr ⟨n,?_,by simp [hl,hle],?_,?_⟩⟩
          · rw [readBe16_append (by omega),hn]
          · rw [hslice]
            rfl
          · rw [hdrop]
            exact .header rfl (hun.read 3)

/-- Bytes that arrive come behind those that are there. -/
theorem pull_data (h : Pulling s rest k) (ht : pullStep s .data = some t) :
    ∃ chunk, s.incoming = chunk::t.incoming ∧ t.frames = s.frames ∧ Pulling t (rest++chunk) k := by
  simp only [pullStep] at ht
  split at ht
  · cases ht
  · next chunk chunks hin =>
      obtain rfl := Option.some.inj ht
      refine ⟨chunk,hin,rfl,?_⟩
      cases h with
      | header hc hr => exact .header hc (hr.data chunk)
      | body hc hl hn hr =>
          rw [List.append_assoc]
          exact .body hc hl hn (hr.data chunk)

theorem follows_start (chunks : List Bytes) :
    ∃ m, Follows chunks.flatten m (.start chunks) :=
  ⟨_,[],1,pulling_start chunks,rfl,fun _ _ h => h⟩

/-- Each event keeps the loop on the stream and brings it nearer to its end. -/
theorem follows_step {e : PullEvent} (h : Follows stream m s) (ht : pullStep s e = some t) :
    ∃ m', m' < m ∧ Follows stream m' t := by
  obtain ⟨rest,k,hp,rfl,hpeels⟩ := h
  cases e with
  | data =>
      obtain ⟨chunk,hin,hframes,hp'⟩ := pull_data hp ht
      refine ⟨_,?_,rest++chunk,k,hp',rfl,fun bodies tail hb => ?_⟩
      · simp only [hin,List.length_append,List.flatten_cons,List.length_cons]
        omega
      · rw [hframes]
        rw [List.append_assoc,← List.flatten_cons,← hin] at hb
        exact hpeels bodies tail hb
  | resume =>
      obtain ⟨hin,⟨rfl,hframes,hp'⟩ | ⟨n,hn,hle,hframes,hp'⟩⟩ := pull_resume hp ht
      · refine ⟨_,?_,rest,0,hp',rfl,fun bodies tail hb => ?_⟩
        · rw [hin]
          omega
        · rw [hframes]
          rw [hin] at hb
          exact hpeels bodies tail hb
      · refine ⟨_,?_,rest.drop (3+n),1,hp',rfl,fun bodies tail hb => ?_⟩
        · rw [hin,List.length_drop]
          omega
        · rw [hin,← List.drop_append_of_le_length hle] at hb
          have hnext := hpeels _ tail
            (.peel ((readBe16_append (by omega) _).trans hn) (by simp; omega) hb)
          rw [slice_append hle] at hnext
          rw [hframes,List.append_assoc]
          exact hnext

/-- No chunk is left, and nothing to take up: then nothing more can be peeled. -/
theorem Pulling.at_rest (h : Pulling s rest k) (hs : s.session.settled = none) :
    Incomplete 1 rest ∧ Agrees s s.frames rest := by
  cases h with
  | header hc hr =>
      have hlt := hr.blocked hs
      have hbuf := hr.unread
      simp only [unread,hs] at hbuf
      exact ⟨fun n _ => by omega,rfl,.inl ⟨hc,hbuf⟩⟩
  | @body head input n hc hl hn hr =>
      have hlt := hr.blocked hs
      have hbuf := hr.unread
      simp only [unread,hs] at hbuf
      refine ⟨fun n' hn' => ?_,rfl,.inr ⟨head,n,hl,hn,hc,by rw [hbuf]⟩⟩
      obtain rfl := Option.some.inj (((readBe16_append (by omega) input).trans hn).symm.trans hn')
      simp only [List.length_append,hl]
      omega

theorem settled_resumes (h : Pulling s rest k) (hs : s.session.settled ≠ none) :
    ∃ t, pullStep s .resume = some t := by
  obtain ⟨r,hr⟩ := Option.ne_none_iff_exists'.mp hs
  cases h with
  | header hc _ => simp [pullStep,hc,readFrame_eq,hr]
  | body hc _ _ _ => simp [pullStep,hc,readBytes_eq,hr]

/-- At every time the loop has made the first of the frames. -/
theorem Follows.frames_prefix {bodies : List Bytes} {tail : Bytes} (h : Follows stream m s)
    (hp : Peels 1 stream bodies tail) : s.frames <+: bodies := by
  obtain ⟨rest,k,-,-,hpeels⟩ := h
  obtain ⟨hbodies,-⟩ := (hpeels _ _ (parse_peels _ _ (Nat.le_refl _))).functional hp
  exact ⟨_,hbodies⟩

theorem Follows.progress {bodies : List Bytes} {tail : Bytes} (h : Follows stream m s)
    (hp : Peels 1 stream bodies tail) :
    (s.incoming = [] ∧ s.session.settled = none ∧ Agrees s bodies tail) ∨
      ∃ e t, pullStep s e = some t := by
  obtain ⟨rest,k,hpull,-,hpeels⟩ := h
  by_cases hs : s.session.settled = none
  · cases hin : s.incoming with
    | nil =>
        obtain ⟨hstop,hframes,htail⟩ := hpull.at_rest hs
        have hend := hpeels [] rest (by
          rw [hin,List.flatten_nil,List.append_nil]
          exact .stop hstop)
        obtain ⟨hbodies,rfl⟩ := hend.functional hp
        rw [List.append_nil] at hbodies
        exact .inl ⟨rfl,hs,hbodies,htail⟩
    | cons chunk chunks => exact .inr ⟨.data,by simp [pullStep,hin]⟩
  · obtain ⟨t,ht⟩ := settled_resumes hpull hs
    exact .inr ⟨.resume,t,ht⟩

end Steps

/-- Pulled or pushed, by whatever chunks and in whatever schedule, a stream gives the same
frames: at every time the loop has made the first of them, and in the end all, with the
same bytes kept back. -/
theorem framers_agree {chunks chunks' : List Bytes} (h : chunks.flatten = chunks'.flatten) :
    (∀ es s, Run pullStep (.start chunks) es s →
      s.frames <+: (FrameReader.feedAll {} chunks').1.flatten) ∧
    Eventually pullStep (fun s => s.incoming = [] ∧ s.session.settled = none ∧
      Agrees s (FrameReader.feedAll {} chunks').1.flatten (FrameReader.feedAll {} chunks').2.buf)
      (.start chunks) := by
  have hp := FrameReader.feedAll_peels FrameReader.settled_start chunks'
  rw [List.nil_append,← h] at hp
  obtain ⟨m,hm⟩ := follows_start chunks
  constructor
  · intro es s hrun
    have keep : ∀ s e t, e ∈ es → (∃ m, Follows chunks.flatten m s) → pullStep s e = some t →
        ∃ m, Follows chunks.flatten m t := by
      rintro s e t - ⟨m,hm⟩ ht
      obtain ⟨m',-,hm'⟩ := follows_step hm ht
      exact ⟨m',hm'⟩
    obtain ⟨m',hs⟩ := hrun.keeps keep ⟨m,hm⟩
    exact hs.frames_prefix hp
  · exact eventually_of_rank (I := Follows chunks.flatten) (fun _ _ hf => hf.progress hp)
      (fun _ _ _ _ hf ht => follows_step hf ht) m _ hm

/-- A frame of one byte and the header of one of two. -/
theorem framers_agree_cut : Eventually pullStep (fun s => s.frames = [[7]])
    (.start [[0,1],[0xFF,7,0],[],[2,0xAA,9]]) := by
  have hflat : ([[0,1],[0xFF,7,0],[],[2,0xAA,9]] : List Bytes).flatten =
      ([[0,1,0xFF,7,0,2,0xAA,9]] : List Bytes).flatten := by
    decide
  exact (framers_agree hflat).2.mono fun s hs => hs.2.2.frames

end SparkProtocol.Sessions
