import FizzDns.Foundation.Bytes

/-!
# Length-prefixed frames

A stream of messages, each behind its length in two bytes. `splitFrames` takes a stream apart
up to the first length of zero and the first frame that is not all there; messages of
admissible length that were put together with `frame` come back (`splitFrames_flatMap_frame`).
-/

namespace FizzDns

/-- A message behind its length. -/
def frame (message : Bytes) : Bytes :=
  wr16 (UInt16.ofNat message.length) ++ message

/-- The messages of a stream of frames, up to a zero length or an incomplete frame. -/
def splitFrames (stream : Bytes) : List Bytes :=
  if stream.length < 2 then []
  else
    let size := (rd16 stream 0).toNat
    if size = 0 then []
    else if stream.length < 2 + size then []
    else slice stream 2 size :: splitFrames (stream.drop (2 + size))
termination_by stream.length
decreasing_by
  rw [List.length_drop]
  omega

@[simp] theorem splitFrames_nil : splitFrames [] = [] := by
  rw [splitFrames]
  exact if_pos (by decide)

/-- A message that a frame can hold. -/
def Framable (message : Bytes) : Prop :=
  0 < message.length ∧ message.length < 2 ^ 16

/-- The first frame of a stream is split off. -/
theorem splitFrames_frame_append {message : Bytes} (framable : Framable message) (rest : Bytes) :
    splitFrames (frame message ++ rest) = message :: splitFrames rest := by
  obtain ⟨positive, short⟩ := framable
  have size : (rd16 (frame message ++ rest) 0).toNat = message.length := by
    rw [frame, List.append_assoc, rd16_wr16, UInt16.toNat_ofNat']
    exact Nat.mod_eq_of_lt short
  have length : (frame message ++ rest).length = 2 + message.length + rest.length := by
    simp only [frame, List.length_append, length_wr16]
  have content : slice (frame message ++ rest) 2 message.length = message := by
    rw [frame, List.append_assoc]
    exact (slice_append_right (wr16 _) (message ++ rest) 0 _).trans (slice_append_left message rest)
  have behind : (frame message ++ rest).drop (2 + message.length) = rest := by
    apply List.drop_left'
    simp only [frame, List.length_append, length_wr16]
  rw [splitFrames]
  simp only [size, length]
  rw [if_neg (by omega), if_neg (Nat.ne_of_gt positive), if_neg (by omega), content, behind]

/-- Framed messages are what the stream splits into. -/
theorem splitFrames_flatMap_frame {messages : List Bytes}
    (framable : ∀ message ∈ messages, Framable message) :
    splitFrames (messages.flatMap frame) = messages := by
  induction messages with
  | nil => exact splitFrames_nil
  | cons message rest ih =>
      rw [List.forall_mem_cons] at framable
      rw [List.flatMap_cons, splitFrames_frame_append framable.1, ih framable.2]

end FizzDns
