import BlackcoinMore.Net

/-! The V1 wire format read as a whole: the frame a message is sent as, and what a byte stream
is, frame by frame, to a receiver. The transport's state machines, which see the stream in
pieces, are compared with this level. -/

namespace BlackcoinMore.Net
open Primitives ByteCodec Serialize

/-- A message type of at most `COMMAND_SIZE` printable characters, and a payload that a receiver
takes. Every `NetMsgType` meets the first two conditions. -/
def CSerializedNetMsg.Valid (msg : CSerializedNetMsg) : Prop :=
  msg.m_type.length ≤ COMMAND_SIZE ∧ (∀ c ∈ msg.m_type, 0x20 ≤ c ∧ c ≤ 0x7e) ∧
    msg.data.length ≤ MAX_PROTOCOL_MESSAGE_LENGTH

instance (msg : CSerializedNetMsg) : Decidable msg.Valid := inferInstanceAs (Decidable (_ ∧ _ ∧ _))

theorem CSerializedNetMsg.Valid.ne_zero {msg : CSerializedNetMsg} (hv : msg.Valid) :
    ∀ c ∈ msg.m_type, c ≠ 0 := by
  intro c hc h0
  have := (hv.2.1 c hc).1
  subst h0
  exact absurd this (by decide)

theorem CSerializedNetMsg.Valid.size_toNat {msg : CSerializedNetMsg} (hv : msg.Valid) :
    msg.data.length.toUInt32.toNat = msg.data.length := by
  have := hv.2.2
  unfold MAX_PROTOCOL_MESSAGE_LENGTH at this
  simp only [Nat.toUInt32_eq, UInt32.toNat_ofNat']
  omega

namespace CMessageHeader

/-- A command of at most `COMMAND_SIZE` bytes padded with NULs. -/
theorem toList_pad {l : Bytes} (hl : l.length ≤ COMMAND_SIZE) :
    (Vector.ofFn fun i : Fin COMMAND_SIZE => l.getD i 0).toList = l ++ List.replicate (COMMAND_SIZE - l.length) 0 := by
  rw [Vector.toList_ofFn]
  apply List.ext_getElem (by simp; omega)
  intro i h₁ h₂
  rw [List.getElem_ofFn, List.getElem_append]
  split
  · next h => exact List.getD_eq_getElem _ _ h
  · next h => simp [List.getD_eq_getElem?_getD, List.getElem?_eq_none (Nat.le_of_not_lt h)]

theorem takeWhile_pad {l : Bytes} (hl : ∀ c ∈ l, c ≠ 0) (k : Nat) :
    (l ++ List.replicate k 0).takeWhile (· != 0) = l := by
  rw [List.takeWhile_append_of_pos (by simpa using hl), List.takeWhile_replicate]
  simp

theorem commandValid_pad {l : Bytes} (hl : ∀ c ∈ l, 0x20 ≤ c ∧ c ≤ 0x7e) (k : Nat) :
    commandValid (l ++ List.replicate k 0) = true := by
  induction l with
  | nil =>
    cases k with
    | zero => rfl
    | succ k => simp [commandValid, List.replicate_succ]
  | cons c l ih =>
    obtain ⟨hlo, hhi⟩ := hl c (by simp)
    have hc : c ≠ 0 := by
      rintro rfl
      exact absurd hlo (by decide)
    simp [commandValid, hc, hlo, hhi, ih fun d hd => hl d (by simp [hd])]

end CMessageHeader

section Frames
variable (hash256 : Bytes → Uint256) (magic : MessageStartChars)

/-- The checksum field: the first `CHECKSUM_SIZE` bytes of the payload's hash. -/
def checksumOf (data : Bytes) : Vector UInt8 CHECKSUM_SIZE :=
  ⟨(encodeLE CHECKSUM_SIZE (hash256 data).toNat).toArray, by simp⟩

/-- The header `SetMessageToSend` sends before `msg`. -/
def headerFor (msg : CSerializedNetMsg) : CMessageHeader :=
  ⟨magic, Vector.ofFn fun i => msg.m_type.getD i 0, msg.data.length.toUInt32, checksumOf hash256 msg.data⟩

/-- The bytes of `msg` on the wire. -/
def frame (msg : CSerializedNetMsg) : Bytes := (headerFor hash256 magic msg).serialize ++ msg.data

def framesOf (msgs : List CSerializedNetMsg) : Bytes := msgs.flatMap (frame hash256 magic)

@[simp] theorem framesOf_nil : framesOf hash256 magic [] = [] := rfl

@[simp] theorem framesOf_cons (msg : CSerializedNetMsg) (msgs : List CSerializedNetMsg) :
    framesOf hash256 magic (msg :: msgs) = frame hash256 magic msg ++ framesOf hash256 magic msgs := rfl

theorem framesOf_append (l₁ l₂ : List CSerializedNetMsg) :
    framesOf hash256 magic (l₁ ++ l₂) = framesOf hash256 magic l₁ ++ framesOf hash256 magic l₂ := by
  simp [framesOf]

theorem length_frame (msg : CSerializedNetMsg) :
    (frame hash256 magic msg).length = HEADER_SIZE + msg.data.length := by
  simp [frame]

/-- The checks `readHeader` makes of a complete header. -/
def headerOk (hdr : CMessageHeader) : Bool :=
  hdr.pchMessageStart == magic && decide (hdr.nMessageSize.toNat ≤ MAX_SIZE) &&
    decide (hdr.nMessageSize.toNat ≤ MAX_PROTOCOL_MESSAGE_LENGTH)

/-- A byte stream read as a whole, one frame at a time: the complete frames, as header and
payload; whether the stream stops at a header that `readHeader` refuses; and the bytes of an
incomplete last frame. -/
def decodeFrames (bs : Bytes) : List (CMessageHeader × Bytes) × Bool × Bytes :=
  if _h₁ : bs.length < HEADER_SIZE then ([], true, bs)
  else
    let hdr := CMessageHeader.deserialize bs
    if !headerOk magic hdr then ([], false, [])
    else if _h₂ : bs.length < HEADER_SIZE + hdr.nMessageSize.toNat then ([], true, bs)
    else
      let d := decodeFrames (bs.drop (HEADER_SIZE + hdr.nMessageSize.toNat))
      ((hdr, slice bs HEADER_SIZE (HEADER_SIZE + hdr.nMessageSize.toNat)) :: d.1, d.2)
termination_by bs.length
decreasing_by simp only [List.length_drop]; unfold HEADER_SIZE at _h₁ _h₂ ⊢; omega

/-- What `GetReceivedMessage` makes of a complete frame received at `time`, unless it rejects it. -/
def frameMessage (time : Int) (f : CMessageHeader × Bytes) : Option CNetMessage :=
  if encodeLE CHECKSUM_SIZE (hash256 f.2).toNat == f.1.pchChecksum.toList && f.1.isCommandValid then
    some ⟨f.2, time, f.1.nMessageSize, f.1.nMessageSize + 24, f.1.getCommand⟩
  else none

/-- The messages a receiver hands on for the frames `fs`. -/
def deliver (time : Int) (fs : List (CMessageHeader × Bytes)) : List CNetMessage :=
  fs.filterMap (frameMessage hash256 time)

/-- The message a receiver hands on for `msg`, received at `time`. -/
def received (time : Int) (msg : CSerializedNetMsg) : CNetMessage :=
  ⟨msg.data, time, msg.data.length.toUInt32, msg.data.length.toUInt32 + 24, msg.m_type⟩

theorem decodeFrames_short {bs : Bytes} (h : bs.length < HEADER_SIZE) : decodeFrames magic bs = ([], true, bs) := by
  rw [decodeFrames, dif_pos h]

@[simp] theorem decodeFrames_nil : decodeFrames magic [] = ([], true, []) :=
  decodeFrames_short magic (by decide)

variable {hash256 magic}

theorem headerOk_headerFor {msg : CSerializedNetMsg} (hv : msg.Valid) : headerOk magic (headerFor hash256 magic msg) = true := by
  have hlen := hv.2.2
  unfold MAX_PROTOCOL_MESSAGE_LENGTH at hlen
  simp [headerOk, headerFor, hv.size_toNat, MAX_SIZE, MAX_PROTOCOL_MESSAGE_LENGTH]
  omega

theorem frameMessage_headerFor (time : Int) {msg : CSerializedNetMsg} (hv : msg.Valid) :
    frameMessage hash256 time (headerFor hash256 magic msg, msg.data) = some (received time msg) := by
  have hpad := CMessageHeader.toList_pad hv.1
  simp only [frameMessage, headerFor, checksumOf, CMessageHeader.isCommandValid, CMessageHeader.getCommand, hpad,
    CMessageHeader.commandValid_pad hv.2.1, CMessageHeader.takeWhile_pad hv.ne_zero, Vector.toList_mk,
    beq_self_eq_true, Bool.and_self, if_true, received]

/-- A valid message's frame reads back as its header and payload, whatever follows it. -/
theorem decodeFrames_frame {msg : CSerializedNetMsg} (hv : msg.Valid) (rest : Bytes) :
    decodeFrames magic (frame hash256 magic msg ++ rest) =
      ((headerFor hash256 magic msg, msg.data) :: (decodeFrames magic rest).1, (decodeFrames magic rest).2) := by
  have hhdr : CMessageHeader.deserialize (frame hash256 magic msg ++ rest) = headerFor hash256 magic msg := by
    rw [frame, List.append_assoc, CMessageHeader.deserialize_serialize]
  have hsize : (headerFor hash256 magic msg).nMessageSize.toNat = msg.data.length := hv.size_toNat
  have hdrop : (frame hash256 magic msg ++ rest).drop (HEADER_SIZE + msg.data.length) = rest := by
    rw [← length_frame hash256 magic msg, List.drop_left]
  have hslice : slice (frame hash256 magic msg ++ rest) HEADER_SIZE (HEADER_SIZE + msg.data.length) = msg.data := by
    rw [slice, frame, List.append_assoc, ← CMessageHeader.length_serialize (headerFor hash256 magic msg), List.drop_left,
      Nat.add_sub_cancel_left, List.take_left]
  have hlen : (frame hash256 magic msg ++ rest).length = HEADER_SIZE + msg.data.length + rest.length := by
    simp [length_frame]
  rw [decodeFrames, dif_neg (by omega)]
  simp only [hhdr, headerOk_headerFor hv, hsize, Bool.not_true, Bool.false_eq_true, if_false]
  rw [dif_neg (by omega), hdrop, hslice]

/-- A proper prefix of a valid message's frame reads as an incomplete frame. -/
theorem decodeFrames_partial {msg : CSerializedNetMsg} (hv : msg.Valid) {q : Bytes}
    (hq : q <+: frame hash256 magic msg) (hlt : q.length < (frame hash256 magic msg).length) :
    decodeFrames magic q = ([], true, q) := by
  by_cases hs : q.length < HEADER_SIZE
  · exact decodeFrames_short magic hs
  obtain ⟨t, ht⟩ := hq
  have hhdr : CMessageHeader.deserialize q = headerFor hash256 magic msg := by
    have hser : (headerFor hash256 magic msg).serialize <+: frame hash256 magic msg := List.prefix_append _ _
    obtain ⟨u, rfl⟩ := List.prefix_of_prefix_length_le hser ⟨t, ht⟩ (by simpa using Nat.le_of_not_lt hs)
    exact CMessageHeader.deserialize_serialize _ u
  have hsize : (headerFor hash256 magic msg).nMessageSize.toNat = msg.data.length := hv.size_toNat
  rw [length_frame] at hlt
  rw [decodeFrames, dif_neg hs]
  simp only [hhdr, headerOk_headerFor hv, hsize, Bool.not_true, Bool.false_eq_true, if_false]
  rw [dif_pos hlt]

/-- The decoder's view of any prefix of a run of valid frames: the complete frames in it, and
the rest of the next one. -/
theorem decodeFrames_prefix :
    ∀ {msgs : List CSerializedNetMsg}, (∀ m ∈ msgs, m.Valid) → ∀ {b : Bytes}, b <+: framesOf hash256 magic msgs →
      ∃ j ≤ msgs.length, ∃ q, b = framesOf hash256 magic (msgs.take j) ++ q ∧ q <+: framesOf hash256 magic (msgs.drop j) ∧
        decodeFrames magic b = ((msgs.take j).map fun m => (headerFor hash256 magic m, m.data), true, q)
  | [], _, b, hb => by
    have : b = [] := List.prefix_nil.mp hb
    exact ⟨0, le_rfl, [], by simp [this], by simp, by simp [this]⟩
  | msg :: msgs, hv, b, hb => by
    have hmsg := hv msg (by simp)
    by_cases hshort : b.length < (frame hash256 magic msg).length
    · -- the prefix ends inside the first frame
      have hq : b <+: frame hash256 magic msg :=
        List.prefix_of_prefix_length_le hb (List.prefix_append _ _) hshort.le
      exact ⟨0, Nat.zero_le _, b, by simp, hb, by simpa using decodeFrames_partial hmsg hq hshort⟩
    · -- the first frame is complete: read it, and the rest by induction
      obtain ⟨b', rfl⟩ := List.prefix_of_prefix_length_le (List.prefix_append _ _) hb (Nat.le_of_not_lt hshort)
      obtain ⟨j, hj, q, rfl, hq, hd⟩ := decodeFrames_prefix (fun m hm => hv m (by simp [hm]))
        ((List.prefix_append_right_inj _).mp hb)
      refine ⟨j + 1, by simpa using hj, q, by simp, by simpa using hq, ?_⟩
      rw [decodeFrames_frame hmsg, hd]
      simp

/-- The frames of valid messages read back, as a whole, as their headers and payloads. -/
theorem decodeFrames_framesOf {msgs : List CSerializedNetMsg} (hv : ∀ m ∈ msgs, m.Valid) :
    decodeFrames magic (framesOf hash256 magic msgs) = (msgs.map fun m => (headerFor hash256 magic m, m.data), true, []) := by
  induction msgs with
  | nil => simp
  | cons msg msgs ih =>
    rw [framesOf_cons, decodeFrames_frame (hv msg (by simp)), ih fun m hm => hv m (by simp [hm])]
    simp

theorem deliver_headerFor (time : Int) {msgs : List CSerializedNetMsg} (hv : ∀ m ∈ msgs, m.Valid) :
    deliver hash256 time (msgs.map fun m => (headerFor hash256 magic m, m.data)) = msgs.map (received time) := by
  induction msgs with
  | nil => rfl
  | cons msg msgs ih =>
    simp only [deliver, List.map_cons, List.filterMap_cons] at ih ⊢
    rw [frameMessage_headerFor time (hv msg (by simp)), ih fun m hm => hv m (by simp [hm])]

end Frames

end BlackcoinMore.Net
