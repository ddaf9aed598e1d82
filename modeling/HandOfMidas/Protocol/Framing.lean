import Mathlib.Data.Nat.Notation
import HandOfMidas.Lib.Stream
import Mathlib.Algebra.Group.Int.Defs
import Mathlib.Algebra.GroupWithZero.Nat

/-! The frame codec of the IB simulator (`protocol/framing.rs`): a frame is a big-endian `u32` length
    followed by a payload of fields, each terminated by NUL. The decoder is called on a growing
    buffer, the encoder appends to one. -/

namespace Midas.Protocol

abbrev Bytes := List UInt8

/-- The errors of `ProtocolError` that the frame codec raises. -/
inductive ProtocolError where
  | frameTooLarge (length : ℕ)
  deriving DecidableEq

/-- 16 MiB. -/
def MAX_FRAME_LEN : ℕ := 16 * 1024 * 1024

/-- `u32::from_be_bytes`. -/
def fromBeBytes (a b c d : UInt8) : ℕ :=
  a.toNat * 2 ^ 24 + b.toNat * 2 ^ 16 + c.toNat * 2 ^ 8 + d.toNat

/-- `(n as u32).to_be_bytes()`. -/
def toBeBytes (n : ℕ) : Bytes :=
  [.ofNat (n / 2 ^ 24), .ofNat (n / 2 ^ 16), .ofNat (n / 2 ^ 8), .ofNat n]

/-- One wire frame: its fields, without length prefix and NULs. -/
structure RawFrame where
  fields : List Bytes := []
  deriving DecidableEq

namespace RawFrame

/-- Fields joined by NUL with a terminating NUL; no field, no payload. -/
def encodePayload (frame : RawFrame) : Bytes := frame.fields.flatMap fun f => f ++ [0]

def payloadLen (frame : RawFrame) : ℕ := (frame.fields.map fun f => f.length + 1).sum

theorem length_encodePayload (frame : RawFrame) : frame.encodePayload.length = frame.payloadLen := by
  simp [encodePayload, payloadLen, List.length_flatMap]

end RawFrame

/-- The scan of `split_payload`, with the bytes since the last NUL. What is left at the end is a
    field only if it is not empty: a final NUL ends the last field. -/
def splitFields (current : Bytes) : Bytes → List Bytes
  | [] => if current.isEmpty then [] else [current]
  | b :: bytes => if b = 0 then current :: splitFields [] bytes else splitFields (current ++ [b]) bytes

def splitPayload (payload : Bytes) : RawFrame := ⟨splitFields [] payload⟩

/-- Take one frame off the front of the buffer, if all of it is there. -/
def decodeFramed (src : Bytes) : Except ProtocolError (Option RawFrame) × Bytes :=
  match src with
  | a :: b :: c :: d :: rest =>
    let len := fromBeBytes a b c d
    if len > MAX_FRAME_LEN then (.error (.frameTooLarge len), src)
    else if src.length < 4 + len then (.ok none, src)
    else (.ok (some (splitPayload (rest.take len))), rest.drop len)
  | _ => (.ok none, src)

/-- Append a frame to the buffer, unless it is too large. -/
def encodeFramed (frame : RawFrame) (dst : Bytes) : Except ProtocolError Unit × Bytes :=
  let payloadLen := frame.payloadLen
  if payloadLen > MAX_FRAME_LEN then (.error (.frameTooLarge (payloadLen % 2 ^ 32)), dst)
  else (.ok (), dst ++ toBeBytes payloadLen ++ frame.encodePayload)

/-- Before the handshake is over the codec leaves the bytes alone. -/
inductive CodecState where | preHandshake | framed
  deriving DecidableEq

def CodecState.decode (state : CodecState) (src : Bytes) :
    Except ProtocolError (Option RawFrame) × Bytes :=
  match state with
  | .preHandshake => (.ok none, src)
  | .framed => decodeFramed src

/-! ### Fields -/

/-- Scanning a field that is terminated by NUL yields the field. -/
theorem splitFields_field (current : Bytes) (rest : Bytes) : ∀ {field : Bytes}, 0 ∉ field →
    splitFields current (field ++ 0 :: rest) = (current ++ field) :: splitFields [] rest
  | [], _ => by simp [splitFields]
  | b :: field, h => by
    rw [List.mem_cons, not_or] at h
    rw [List.cons_append, splitFields, if_neg (Ne.symm h.1), splitFields_field _ _ h.2]
    simp

/-- The splitter undoes the joiner when no field contains NUL. -/
theorem splitPayload_encodePayload : ∀ {frame : RawFrame}, (∀ f ∈ frame.fields, 0 ∉ f) →
    splitPayload frame.encodePayload = frame
  | ⟨[]⟩, _ => rfl
  | ⟨field :: fields⟩, h => by
    have hrest := @splitPayload_encodePayload ⟨fields⟩
      fun f hf => h f (List.mem_cons_of_mem field hf)
    have hfields : splitFields [] (RawFrame.encodePayload ⟨fields⟩) = fields :=
      congrArg RawFrame.fields hrest
    show RawFrame.mk (splitFields [] ((field ++ [0]) ++ RawFrame.encodePayload ⟨fields⟩)) = _
    rw [List.append_assoc, List.singleton_append,
      splitFields_field [] _ (h field List.mem_cons_self), hfields, List.nil_append]

/-! ### The length prefix -/

theorem fromBeBytes_toBeBytes {n : ℕ} (h : n < 2 ^ 32) :
    fromBeBytes (.ofNat (n / 2 ^ 24)) (.ofNat (n / 2 ^ 16)) (.ofNat (n / 2 ^ 8)) (.ofNat n) = n := by
  simp only [fromBeBytes, UInt8.toNat_ofNat']
  omega

/-! ### The decoder as a stream decoder -/

theorem decodeFramed_of_complete {a b c d : UInt8} {rest : Bytes}
    (hlen : fromBeBytes a b c d ≤ MAX_FRAME_LEN) (hall : fromBeBytes a b c d ≤ rest.length) :
    decodeFramed (a :: b :: c :: d :: rest) =
      (.ok (some (splitPayload (rest.take (fromBeBytes a b c d)))),
        rest.drop (fromBeBytes a b c d)) := by
  have hlt : ¬ (a :: b :: c :: d :: rest).length < 4 + fromBeBytes a b c d := by
    simp only [List.length_cons]
    omega
  simp only [decodeFramed]
  rw [if_neg (by omega), if_neg hlt]

theorem decodeFramed_of_tooLarge {a b c d : UInt8} {rest : Bytes}
    (hlen : MAX_FRAME_LEN < fromBeBytes a b c d) : decodeFramed (a :: b :: c :: d :: rest) =
      (.error (.frameTooLarge (fromBeBytes a b c d)), a :: b :: c :: d :: rest) := by
  simp only [decodeFramed]
  rw [if_pos hlen]

/-- What the decoder can do with a buffer: wait, refuse the length, or take a complete frame. -/
theorem decodeFramed_cases (src : Bytes) :
    decodeFramed src = (.ok none, src) ∨
    ∃ a b c d rest, src = a :: b :: c :: d :: rest ∧
      (MAX_FRAME_LEN < fromBeBytes a b c d ∨
        fromBeBytes a b c d ≤ MAX_FRAME_LEN ∧ fromBeBytes a b c d ≤ rest.length) := by
  unfold decodeFramed
  split
  · rename_i a b c d rest
    by_cases hlen : MAX_FRAME_LEN < fromBeBytes a b c d
    · exact Or.inr ⟨a, b, c, d, rest, rfl, Or.inl hlen⟩
    · by_cases hall : fromBeBytes a b c d ≤ rest.length
      · exact Or.inr ⟨a, b, c, d, rest, rfl, Or.inr ⟨by omega, hall⟩⟩
      · left
        have hlt : (a :: b :: c :: d :: rest).length < 4 + fromBeBytes a b c d := by
          simp only [List.length_cons]
          omega
        rw [if_neg (by omega), if_pos hlt]
  · exact Or.inl rfl

/-- `decode_framed` decides on a prefix and sticks to it. -/
def framed : StreamDecoder RawFrame UInt8 ProtocolError where
  next := decodeFramed
  progress {s a r} h := by
    rcases decodeFramed_cases s with hw | ⟨a, b, c, d, rest, rfl, hlen | ⟨hlen, hall⟩⟩
    · rw [hw] at h
      cases h
    · rw [decodeFramed_of_tooLarge hlen] at h
      cases h
    · rw [decodeFramed_of_complete hlen hall] at h
      cases h
      simp only [List.length_drop, List.length_cons]
      omega
  extend {s a r} t h := by
    rcases decodeFramed_cases s with hw | ⟨a, b, c, d, rest, rfl, hlen | ⟨hlen, hall⟩⟩
    · rw [hw] at h
      cases h
    · rw [decodeFramed_of_tooLarge hlen] at h
      cases h
    · rw [decodeFramed_of_complete hlen hall] at h
      cases h
      simp only [List.cons_append]
      rw [decodeFramed_of_complete hlen (by rw [List.length_append]; omega),
        List.take_append_of_le_length hall, List.drop_append_of_le_length hall]
  wait {s r} h := by
    rcases decodeFramed_cases s with hw | ⟨a, b, c, d, rest, rfl, hlen | ⟨hlen, hall⟩⟩
    · rw [hw] at h
      cases h
      rfl
    · rw [decodeFramed_of_tooLarge hlen] at h
      cases h
    · rw [decodeFramed_of_complete hlen hall] at h
      cases h
  fault {s e r} t h := by
    rcases decodeFramed_cases s with hw | ⟨a, b, c, d, rest, rfl, hlen | ⟨hlen, hall⟩⟩
    · rw [hw] at h
      cases h
    · rw [decodeFramed_of_tooLarge hlen] at h
      cases h
      exact ⟨rfl, decodeFramed_of_tooLarge hlen⟩
    · rw [decodeFramed_of_complete hlen hall] at h
      cases h

/-! ### Encoding, cutting, decoding -/

/-- A frame the codec can carry: within the limit, and no field contains NUL. -/
structure RawFrame.Encodable (frame : RawFrame) : Prop where
  size : frame.payloadLen ≤ MAX_FRAME_LEN
  noNul : ∀ f ∈ frame.fields, 0 ∉ f

/-- The frames encoded one after another onto one buffer. -/
def encodeAll (frames : List RawFrame) : Bytes :=
  frames.foldl (fun dst frame => (encodeFramed frame dst).2) []

/-- The bytes of a frame that is not too large. -/
def frameBytes (frame : RawFrame) : Bytes := toBeBytes frame.payloadLen ++ frame.encodePayload

theorem encodeFramed_of_size {frame : RawFrame} (h : frame.payloadLen ≤ MAX_FRAME_LEN)
    (dst : Bytes) : encodeFramed frame dst = (.ok (), dst ++ frameBytes frame) := by
  simp only [encodeFramed]
  rw [if_neg (by omega), frameBytes, List.append_assoc]

theorem encodeAll_eq {frames : List RawFrame} (h : ∀ f ∈ frames, f.payloadLen ≤ MAX_FRAME_LEN) :
    encodeAll frames = frames.flatMap frameBytes := by
  have hfold : ∀ (frames : List RawFrame) dst, (∀ f ∈ frames, f.payloadLen ≤ MAX_FRAME_LEN) →
      frames.foldl (fun dst frame => (encodeFramed frame dst).2) dst =
        dst ++ frames.flatMap frameBytes := by
    intro frames
    induction frames with
    | nil => intro dst _; rw [List.flatMap_nil, List.append_nil]; rfl
    | cons frame frames ih =>
      intro dst h
      rw [List.foldl_cons, encodeFramed_of_size (h frame List.mem_cons_self),
        ih _ fun f hf => h f (List.mem_cons_of_mem frame hf), List.flatMap_cons, List.append_assoc]
  rw [encodeAll, hfold frames [] h, List.nil_append]

/-- One frame is read back off the front of whatever follows it. -/
theorem decodeFramed_frameBytes {frame : RawFrame} (h : frame.Encodable) (t : Bytes) :
    decodeFramed (frameBytes frame ++ t) = (.ok (some frame), t) := by
  have hlen : fromBeBytes (.ofNat (frame.payloadLen / 2 ^ 24)) (.ofNat (frame.payloadLen / 2 ^ 16))
      (.ofNat (frame.payloadLen / 2 ^ 8)) (.ofNat frame.payloadLen) = frame.payloadLen := by
    have hmax := h.size
    unfold MAX_FRAME_LEN at hmax
    exact fromBeBytes_toBeBytes (by omega)
  have hlength := frame.length_encodePayload
  show decodeFramed (_ :: _ :: _ :: _ :: (frame.encodePayload ++ t)) = _
  rw [decodeFramed_of_complete (by rw [hlen]; exact h.size)
    (by rw [hlen, List.length_append]; omega), hlen, ← hlength,
    List.take_append_of_le_length (Nat.le_refl _), List.drop_append_of_le_length (Nat.le_refl _),
    List.take_length, List.drop_length, splitPayload_encodePayload h.noNul, List.nil_append]

/-- Frames within the limit without NULs, encoded one after another and cut into any chunks, are
    read back as they were, with nothing left in the buffer; a frame that is too large is refused and
    leaves the buffer alone. -/
theorem framing_chunking_independent (frames : List RawFrame) (h : ∀ f ∈ frames, f.Encodable)
    (chunks : List Bytes) (hcut : chunks.flatten = encodeAll frames) :
    framed.feedAll chunks = ⟨frames, [], none⟩ ∧
      (∀ f ∈ frames, ∀ dst, (encodeFramed f dst).1 = .ok ()) ∧
      ∀ (frame : RawFrame) dst, MAX_FRAME_LEN < frame.payloadLen →
        ∃ e, encodeFramed frame dst = (.error e, dst) := by
  refine ⟨?_, fun f hf dst => by rw [encodeFramed_of_size (h f hf).size], fun frame dst hlen => ?_⟩
  · rw [framed.feedAll_eq, hcut, encodeAll_eq fun f hf => (h f hf).size]
    exact framed.drain_flatMap rfl fun f hf t => decodeFramed_frameBytes (h f hf) t
  · refine ⟨.frameTooLarge (frame.payloadLen % 2 ^ 32), ?_⟩
    simp only [encodeFramed]
    rw [if_pos hlen]

/-- Two frames, the second with an empty last field, arriving in three chunks that split both a
    length prefix and a payload. -/
theorem framing_three_chunks :
    framed.feedAll [[0, 0], [0, 2, 57, 0, 0, 0, 0], [3, 97, 0, 0]] =
      ⟨[⟨[[57]]⟩, ⟨[[97], []]⟩], [], none⟩ := by
  have h : ∀ f ∈ [RawFrame.mk [[57]], ⟨[[97], []]⟩], f.Encodable := by
    intro f hf
    refine ⟨?_, ?_⟩
    · revert f
      decide
    · revert f
      decide
  exact (framing_chunking_independent [⟨[[57]]⟩, ⟨[[97], []]⟩] h _ (by decide)).1

end Midas.Protocol
