import BlackcoinMore.NetFrames

/-! The sending half of the V1 transport and `CConnman::SocketSendData`: whatever the socket
takes at each `Send`, the bytes that leave are a prefix of the frames of the queued messages,
in order, with nothing lost or sent twice; and the `Assume` on the `more` flag holds. -/

namespace BlackcoinMore.Net
open Primitives ByteCodec Serialize

namespace SendState
variable (hash256 : Bytes → Uint256) (magic : MessageStartChars)

/-- The bytes of the message in the transport that the socket has not taken yet. -/
def unsent (s : SendState) : Bytes :=
  if s.m_sending_header then s.m_header_to_send.drop s.m_bytes_sent ++ s.m_message_to_send.data
  else s.m_message_to_send.data.drop s.m_bytes_sent

/-- The sending half holds the frame of a valid message and is inside its header, or is inside
a payload, or is idle. -/
def WF (s : SendState) : Prop :=
  (s.m_sending_header = true ∧ s.m_header_to_send = (headerFor hash256 magic s.m_message_to_send).serialize ∧
    s.m_bytes_sent < HEADER_SIZE ∧ s.m_message_to_send.Valid) ∨
  (s.m_sending_header = false ∧
    (s.m_bytes_sent < s.m_message_to_send.data.length ∨ s.m_bytes_sent = 0 ∧ s.m_message_to_send.data = []))

variable {hash256 magic}

theorem wf_make (magic : MessageStartChars) : (V1Transport.make magic).send.WF hash256 magic :=
  .inr ⟨rfl, .inr ⟨rfl, rfl⟩⟩

/-- Idle: nothing left to send, which is when `SetMessageToSend` takes a new message. -/
theorem unsent_eq_nil {s : SendState} (hwf : s.WF hash256 magic) :
    s.unsent = [] ↔ s.m_sending_header = false ∧ s.m_bytes_sent = 0 ∧ s.m_message_to_send.data = [] := by
  rcases hwf with ⟨hh, hhdr, hlt, _⟩ | ⟨hh, hlt | ⟨h0, hd⟩⟩
  · simp [unsent, hh, hhdr, HEADER_SIZE] at hlt ⊢
    omega
  · have hne : s.m_message_to_send.data ≠ [] := by
      rintro h
      simp [h] at hlt
    simp [unsent, hh, hne]
    omega
  · simp [unsent, hh, h0, hd]

theorem setMessageToSend_idle {s : SendState} (hwf : s.WF hash256 magic) (hidle : s.unsent = [])
    {msg : CSerializedNetMsg} (hv : msg.Valid) :
    s.setMessageToSend hash256 magic msg =
      .ok (true, ⟨(headerFor hash256 magic msg).serialize, msg, true, 0⟩) := by
  obtain ⟨hh, h0, hd⟩ := (unsent_eq_nil hwf).mp hidle
  have hcmd : msg.m_type.takeWhile (· != 0) = msg.m_type :=
    List.takeWhile_eq_self_iff.mpr fun c hc => by simpa using hv.ne_zero c hc
  simp only [setMessageToSend, hh, h0, hd, Bool.false_or, List.length_nil, Nat.lt_irrefl, decide_false,
    Bool.false_eq_true, if_false, CMessageHeader.make, hcmd, show ¬ COMMAND_SIZE < msg.m_type.length from
    Nat.not_lt.mpr hv.1]
  rfl

theorem setMessageToSend_busy {s : SendState} (hwf : s.WF hash256 magic) (hbusy : s.unsent ≠ [])
    (msg : CSerializedNetMsg) : s.setMessageToSend hash256 magic msg = .ok (false, s) := by
  have hb : (s.m_sending_header || decide (s.m_bytes_sent < s.m_message_to_send.data.length)) = true := by
    rcases hwf with ⟨hh, _⟩ | ⟨hh, hlt | ⟨h0, hd⟩⟩
    · simp [hh]
    · simp [hh, hlt]
    · exact absurd (by simp [unsent, hh, h0, hd]) hbusy
  simp only [setMessageToSend, hb, if_true]

/-- The frame of a message that the transport has just taken is all unsent. -/
theorem unsent_setMessageToSend (msg : CSerializedNetMsg) :
    SendState.unsent ⟨(headerFor hash256 magic msg).serialize, msg, true, 0⟩ = frame hash256 magic msg := by
  simp [unsent, frame]

theorem wf_setMessageToSend {msg : CSerializedNetMsg} (hv : msg.Valid) :
    SendState.WF hash256 magic ⟨(headerFor hash256 magic msg).serialize, msg, true, 0⟩ :=
  .inl ⟨rfl, rfl, show 0 < HEADER_SIZE by decide, hv⟩

/-- What `GetBytesToSend` offers is the first part of the unsent bytes: the rest of the header,
or the rest of the payload. -/
theorem getBytesToSend_unsent (s : SendState) (have_next_message : Bool) :
    ∃ tail, s.unsent = (s.getBytesToSend have_next_message).1 ++ tail ∧
      (s.m_sending_header = true → tail = s.m_message_to_send.data) ∧ (s.m_sending_header = false → tail = []) := by
  cases hh : s.m_sending_header
  · exact ⟨[], by simp [unsent, getBytesToSend, hh], by simp, fun _ => rfl⟩
  · exact ⟨s.m_message_to_send.data, by simp [unsent, getBytesToSend, hh], fun _ => rfl, by simp⟩

/-- In a well-formed state, `GetBytesToSend` offers nothing only when the transport is idle. -/
theorem getBytesToSend_eq_nil {s : SendState} (hwf : s.WF hash256 magic) (have_next_message : Bool) :
    (s.getBytesToSend have_next_message).1 = [] ↔ s.unsent = [] := by
  rcases hwf with ⟨hh, hhdr, hlt, _⟩ | ⟨hh, _⟩
  · simp [getBytesToSend, unsent, hh, hhdr, HEADER_SIZE] at hlt ⊢
    omega
  · simp [getBytesToSend, unsent, hh]

/-- `MarkBytesSent` for bytes that `GetBytesToSend` offered: they leave the unsent bytes, and the
state stays well formed. -/
theorem markBytesSent_spec {s : SendState} (hwf : s.WF hash256 magic) {n : Nat} (hn : 0 < n)
    {have_next_message : Bool} (hle : n ≤ (s.getBytesToSend have_next_message).1.length) :
    (s.markBytesSent n).unsent = s.unsent.drop n ∧ (s.markBytesSent n).WF hash256 magic := by
  rcases hwf with ⟨hh, hhdr, hlt, hv⟩ | ⟨hh, hlt | ⟨h0, hd⟩⟩
  · -- inside the header
    simp only [getBytesToSend, hh, if_true, List.length_drop, hhdr, CMessageHeader.length_serialize] at hle
    by_cases hend : s.m_bytes_sent + n = HEADER_SIZE
    · have hm : s.markBytesSent n = { s with m_sending_header := false, m_bytes_sent := 0 } := by
        simp [markBytesSent, hh, hhdr, hend]
      rw [hm]
      refine ⟨?_, .inr ⟨rfl, ?_⟩⟩
      · simp only [unsent, hh, if_true, Bool.false_eq_true, if_false, List.drop_zero, hhdr]
        rw [List.drop_append_of_le_length (by simp; omega), List.drop_drop, Nat.add_comm,
          List.drop_eq_nil_of_le (by simp; omega), List.nil_append]
      · cases hdata : s.m_message_to_send.data with
        | nil => exact .inr ⟨rfl, rfl⟩
        | cons _ _ => exact .inl (by simp)
    · have hm : s.markBytesSent n = { s with m_bytes_sent := s.m_bytes_sent + n } := by
        simp [markBytesSent, hh, hhdr, hend]
      rw [hm]
      refine ⟨?_, .inl ⟨hh, hhdr, show s.m_bytes_sent + n < HEADER_SIZE by omega, hv⟩⟩
      simp only [unsent, hh, if_true, hhdr]
      rw [List.drop_append_of_le_length (by simp; omega), List.drop_drop, Nat.add_comm]
  · -- inside the payload
    simp only [getBytesToSend, hh, Bool.false_eq_true, if_false, List.length_drop] at hle
    by_cases hend : s.m_bytes_sent + n = s.m_message_to_send.data.length
    · have hm : s.markBytesSent n = { s with m_message_to_send := { s.m_message_to_send with data := [] },
                                             m_bytes_sent := 0 } := by
        simp [markBytesSent, hh, hend]
      rw [hm]
      refine ⟨?_, .inr ⟨hh, .inr ⟨rfl, rfl⟩⟩⟩
      simp only [unsent, hh, Bool.false_eq_true, if_false, List.drop_nil, List.drop_drop]
      exact (List.drop_eq_nil_of_le (by omega)).symm
    · have hm : s.markBytesSent n = { s with m_bytes_sent := s.m_bytes_sent + n } := by
        simp [markBytesSent, hh, hend]
      rw [hm]
      refine ⟨?_, .inr ⟨hh, .inl (by simp; omega)⟩⟩
      simp only [unsent, hh, Bool.false_eq_true, if_false, List.drop_drop, Nat.add_comm]
  · -- idle: nothing was offered
    simp [getBytesToSend, hh, hd] at hle
    omega

end SendState

section Socket
variable {hash256 : Bytes → Uint256}

/-- The bytes a node still has to send: the rest of the message in its transport, then the frames
of its queue. -/
def pendingBytes (hash256 : Bytes → Uint256) (node : CNode) : Bytes :=
  node.m_transport.send.unsent ++ framesOf hash256 node.m_transport.m_magic_bytes node.vSendMsg

/-- The sending side of a node: a well-formed sending half, valid messages queued, and a queue
that only waits while the transport is busy. -/
def SendOk (hash256 : Bytes → Uint256) (node : CNode) : Prop :=
  node.m_transport.send.WF hash256 node.m_transport.m_magic_bytes ∧ ∀ m ∈ node.vSendMsg, m.Valid

/-- `node'` differs from `node` at most in its sending half and its queue. -/
def SendFrame (node node' : CNode) : Prop :=
  node' = { node with m_transport.send := node'.m_transport.send, vSendMsg := node'.vSendMsg }

theorem SendFrame.refl (node : CNode) : SendFrame node node := rfl

theorem SendFrame.trans {node₁ node₂ node₃ : CNode} (h₁ : SendFrame node₁ node₂) (h₂ : SendFrame node₂ node₃) :
    SendFrame node₁ node₃ := by
  unfold SendFrame at *
  rw [h₂, h₁]

theorem SendFrame.magic {node node' : CNode} (h : SendFrame node node') :
    node'.m_transport.m_magic_bytes = node.m_transport.m_magic_bytes := by
  rw [h]

theorem framesOf_eq_nil {magic : MessageStartChars} {msgs : List CSerializedNetMsg} :
    framesOf hash256 magic msgs = [] ↔ msgs = [] := by
  cases msgs with
  | nil => simp
  | cons m ms => simp [frame, ← List.length_eq_zero_iff, HEADER_SIZE]

theorem isEmpty_eq_of_iff {α β : Type} {a : List α} {b : List β} (h : a = [] ↔ b = []) : a.isEmpty = b.isEmpty := by
  rw [Bool.eq_iff_iff, List.isEmpty_iff, List.isEmpty_iff]
  exact h

/-- The first step of a pass of `SocketSendData`: a queued message moves into an idle transport,
and afterwards the queue waits only behind a busy transport. -/
theorem setNextMessage_spec (node : CNode) (hok : SendOk hash256 node) :
    ∃ node₁, setNextMessage hash256 node = .ok node₁ ∧
      SendOk hash256 node₁ ∧ SendFrame node node₁ ∧ pendingBytes hash256 node₁ = pendingBytes hash256 node ∧
      (node₁.m_transport.send.unsent = [] → node₁.vSendMsg = []) := by
  obtain ⟨hwf, hq⟩ := hok
  unfold setNextMessage
  cases hqueue : node.vSendMsg with
  | nil => exact ⟨node, rfl, ⟨hwf, hq⟩, rfl, rfl, fun _ => hqueue⟩
  | cons msg rest =>
    rw [hqueue] at hq
    by_cases hidle : node.m_transport.send.unsent = []
    · -- the transport takes the message
      have hv := hq msg (by simp)
      refine ⟨{ node with m_transport.send := ⟨(headerFor hash256 node.m_transport.m_magic_bytes msg).serialize, msg, true, 0⟩,
                          vSendMsg := rest }, ?_, ⟨SendState.wf_setMessageToSend hv, fun m hm => hq m (by simp [hm])⟩,
        rfl, ?_, ?_⟩
      · simp [SendState.setMessageToSend_idle hwf hidle hv, bind, Except.bind, pure, Except.pure]
      · simp [pendingBytes, SendState.unsent_setMessageToSend, hqueue, hidle]
      · intro h
        rw [SendState.unsent_setMessageToSend] at h
        have := congrArg List.length h
        simp [length_frame, HEADER_SIZE] at this
    · -- a message is still in the transport
      refine ⟨node, ?_, ⟨hwf, by rw [hqueue]; exact hq⟩, rfl, rfl, fun h => absurd h hidle⟩
      simp [SendState.setMessageToSend_busy hwf hidle, bind, Except.bind, pure, Except.pure]

/-- After the first step, `GetBytesToSend` offers nothing exactly when nothing is pending. -/
theorem getBytesToSend_isEmpty {node : CNode} (hok : SendOk hash256 node)
    (hqueue : node.m_transport.send.unsent = [] → node.vSendMsg = []) (have_next_message : Bool) :
    (node.m_transport.send.getBytesToSend have_next_message).1.isEmpty = (pendingBytes hash256 node).isEmpty := by
  have hoff := SendState.getBytesToSend_eq_nil hok.1 have_next_message
  by_cases hidle : node.m_transport.send.unsent = []
  · simp [pendingBytes, hidle, hoff.mpr hidle, hqueue hidle]
  · have hne : (node.m_transport.send.getBytesToSend have_next_message).1 ≠ [] := fun h => hidle (hoff.mp h)
    exact isEmpty_eq_of_iff (by simp [pendingBytes, hidle, hne])

/-- After the bytes `GetBytesToSend` offered are all taken, its `more` flag tells whether bytes
are still pending. -/
theorem more_eq_pending {node : CNode} (hok : SendOk hash256 node) {n : Nat} (hn : 0 < n)
    (hall : n = (node.m_transport.send.getBytesToSend !node.vSendMsg.isEmpty).1.length) :
    (node.m_transport.send.getBytesToSend !node.vSendMsg.isEmpty).2.1 =
      !(pendingBytes hash256 { node with m_transport.send := node.m_transport.send.markBytesSent n }).isEmpty := by
  obtain ⟨tail, hu, hhd, hdt⟩ := SendState.getBytesToSend_unsent node.m_transport.send !node.vSendMsg.isEmpty
  have hmark := (SendState.markBytesSent_spec hok.1 hn hall.le).1
  have hdrop : ((node.m_transport.send.getBytesToSend !node.vSendMsg.isEmpty).1 ++ tail).drop n = tail := by
    rw [hall, List.drop_left]
  rw [hu, hdrop] at hmark
  have hq : (framesOf hash256 node.m_transport.m_magic_bytes node.vSendMsg).isEmpty = node.vSendMsg.isEmpty :=
    isEmpty_eq_of_iff framesOf_eq_nil
  simp only [pendingBytes, hmark]
  cases hh : node.m_transport.send.m_sending_header
  · simp [SendState.getBytesToSend, hh, hdt hh, hq]
  · have hor : (tail ++ framesOf hash256 node.m_transport.m_magic_bytes node.vSendMsg).isEmpty =
        (tail.isEmpty && node.vSendMsg.isEmpty) := by
      rw [← hq]
      cases tail <;> rfl
    rw [hhd hh] at hor
    simp [SendState.getBytesToSend, hh, hhd hh, hor, Bool.not_and, Bool.or_comm]

/-- `SocketSendData`'s loop: whatever each `Send` takes, the bytes that leave and the bytes still
pending make up the bytes pending before; only the sending side changes and it stays well formed;
`data_left` says whether bytes are pending; and the `Assume` on `expected_more` holds, so the loop
does not fail. `expected_more`, when given, is true to the node. When every `Send` could take all
that is pending and there are as many calls as pending bytes, nothing stays pending. The
induction follows the loop on the list of `Send` results. -/
theorem socketSendLoop_spec :
    ∀ (sends : List Nat) (node : CNode) (expected_more : Option Bool), SendOk hash256 node →
      (expected_more = none ∨ expected_more = some !(pendingBytes hash256 node).isEmpty) →
      ∃ node' sent data_left, socketSendLoop hash256 expected_more sends node = .ok (node', sent, data_left) ∧
        sent ++ pendingBytes hash256 node' = pendingBytes hash256 node ∧ SendOk hash256 node' ∧
        SendFrame node node' ∧ data_left = !(pendingBytes hash256 node').isEmpty ∧
        ((∀ c ∈ sends, (pendingBytes hash256 node).length ≤ c) → (pendingBytes hash256 node).length ≤ sends.length →
          pendingBytes hash256 node' = [])
  | sends, node, expected_more, hok, hexp => by
    obtain ⟨node₁, htake, hok₁, hframe₁, hpend₁, hqueue₁⟩ := setNextMessage_spec node hok
    have hempty := getBytesToSend_isEmpty hok₁ hqueue₁ (!node₁.vSendMsg.isEmpty)
    generalize hoff : node₁.m_transport.send.getBytesToSend (!node₁.vSendMsg.isEmpty) = off at hempty
    obtain ⟨data, more, msg_type⟩ := off
    simp only at hempty
    have hassume : expected_more.any (· != !data.isEmpty) = false := by
      rcases hexp with rfl | rfl
      · rfl
      · simp [hempty, hpend₁]
    rw [socketSendLoop, htake]
    simp only [bind, Except.bind, hoff, hassume, Bool.false_eq_true, if_false]
    by_cases hdata : data.isEmpty
    · -- nothing to send: the loop stops
      have hnil : pendingBytes hash256 node₁ = [] := by simpa [hdata, List.isEmpty_iff] using hempty.symm
      refine ⟨node₁, [], false, by simp [hdata, pure, Except.pure], by simpa using hpend₁, hok₁, hframe₁, ?_,
        fun _ _ => hnil⟩
      simp [hnil]
    have hpos : 0 < (pendingBytes hash256 node).length := by
      rw [← hpend₁]
      have : pendingBytes hash256 node₁ ≠ [] := by simpa [hdata, List.isEmpty_iff] using hempty.symm
      exact List.length_pos_iff.mpr this
    cases sends with
    | nil =>
      -- the next `Send` would block
      refine ⟨node₁, [], true, by simp [hdata, pure, Except.pure], by simpa using hpend₁, hok₁, hframe₁, ?_,
        fun _ hlen => absurd (Nat.le_zero.mp hlen) (by omega)⟩
      simp [← hempty, hdata]
    | cons c sends =>
      -- what is offered is part of what is pending
      have hdlen : data.length ≤ (pendingBytes hash256 node).length := by
        obtain ⟨tail, hu, -, -⟩ := SendState.getBytesToSend_unsent node₁.m_transport.send !node₁.vSendMsg.isEmpty
        rw [hoff] at hu
        rw [← hpend₁, pendingBytes, hu]
        simp
      have hdpos : 0 < data.length := List.length_pos_iff.mpr (by simpa using hdata)
      by_cases hzero : min c data.length = 0
      · refine ⟨node₁, [], true, by simp [hdata, hzero, pure, Except.pure], by simpa using hpend₁, hok₁, hframe₁, ?_,
          fun hc _ => absurd hzero (by have := hc c (by simp); omega)⟩
        simp [← hempty, hdata]
      -- `Send` took `min c data.length` bytes
      have hn : 0 < min c data.length := Nat.pos_of_ne_zero hzero
      have hle : min c data.length ≤ (node₁.m_transport.send.getBytesToSend !node₁.vSendMsg.isEmpty).1.length := by
        rw [hoff]
        exact Nat.min_le_right _ _
      obtain ⟨hmark, hwf₂⟩ := SendState.markBytesSent_spec hok₁.1 hn hle
      obtain ⟨tail, hu, -, -⟩ := SendState.getBytesToSend_unsent node₁.m_transport.send !node₁.vSendMsg.isEmpty
      rw [hoff] at hu
      simp only at hu
      have hne : data ≠ [] := by simpa using hdata
      set node₂ := { node₁ with m_transport.send := node₁.m_transport.send.markBytesSent (min c data.length) }
      have hok₂ : SendOk hash256 node₂ := ⟨hwf₂, hok₁.2⟩
      have hframe₂ : SendFrame node node₂ := hframe₁.trans rfl
      have hpend₂ : pendingBytes hash256 node₂ = data.drop (min c data.length) ++ tail ++
          framesOf hash256 node₁.m_transport.m_magic_bytes node₁.vSendMsg := by
        simp only [pendingBytes, node₂, hmark, hu, List.drop_append_of_le_length (Nat.min_le_right _ _)]
      by_cases hpart : min c data.length ≠ data.length
      · -- a partial send: the loop stops
        refine ⟨node₂, data.take (min c data.length), true, by simp [hdata, hzero, hpart, node₂, pure, Except.pure],
          ?_, hok₂, hframe₂, ?_, fun hc _ => absurd hpart (by have := hc c (by simp); omega)⟩
        · rw [hpend₂, ← hpend₁, pendingBytes, hu]
          simp only [List.append_assoc]
          rw [← List.append_assoc (data.take _), List.take_append_drop]
        · have : data.drop (min c data.length) ≠ [] := by simp; omega
          simp [hpend₂, this]
      -- the whole offer was sent: the loop goes on with the next offer
      have hall : min c data.length = data.length := not_not.mp hpart
      have hmore : more = !(pendingBytes hash256 node₂).isEmpty := by
        have := more_eq_pending hok₁ hn (by rw [hoff]; exact hall)
        rw [hoff] at this
        exact this
      obtain ⟨node', sent, data_left, hrun, hsent, hok', hframe', hleft, hdrain⟩ :=
        socketSendLoop_spec sends node₂ (some more) hok₂ (.inr (by rw [hmore]))
      have hlen₂ : (pendingBytes hash256 node₂).length + data.length = (pendingBytes hash256 node).length := by
        rw [← hpend₁, hpend₂, hall, List.drop_length, List.nil_append, pendingBytes, hu]
        simp only [List.length_append]
        omega
      refine ⟨node', data ++ sent, data_left, ?_, ?_, hok', hframe₂.trans hframe', hleft, fun hc hlen => ?_⟩
      · simp only [node₂, hall] at hrun
        simp [hne, hall, hrun, pure, Except.pure]
      · rw [List.append_assoc, hsent, hpend₂, hall, List.drop_length, List.nil_append, ← hpend₁]
        simp [pendingBytes, hu]
      · refine hdrain (fun c' hc' => ?_) ?_
        · have := hc c' (by simp [hc'])
          omega
        · simp at hlen
          omega

/-- `SocketSendData` fails for no socket behaviour, and sends a prefix of what is pending; a socket
that takes everything each time, as often as there are pending bytes, empties the node. -/
theorem socketSendData_spec (sends : List Nat) {node : CNode} (hok : SendOk hash256 node) :
    ∃ node' sent data_left, socketSendData hash256 sends node = .ok (node', sent, data_left) ∧
      sent ++ pendingBytes hash256 node' = pendingBytes hash256 node ∧ SendOk hash256 node' ∧
      SendFrame node node' ∧ data_left = !(pendingBytes hash256 node').isEmpty ∧
      ((∀ c ∈ sends, (pendingBytes hash256 node).length ≤ c) → (pendingBytes hash256 node).length ≤ sends.length →
        pendingBytes hash256 node' = []) :=
  socketSendLoop_spec sends node none hok (.inl rfl)

/-- A fresh node with a `ping` queued, on a socket that takes 10 bytes and then would block. -/
theorem socketSendData_spec_ping :
    SendOk (fun _ => 0) { CNode.make #v[0x70, 0x35, 0x22, 0x05] with vSendMsg := [⟨[1, 2], [0x70, 0x69, 0x6e, 0x67]⟩] } ∧
      ∃ node' sent data_left,
        socketSendData (fun _ => 0) [10]
            { CNode.make #v[0x70, 0x35, 0x22, 0x05] with vSendMsg := [⟨[1, 2], [0x70, 0x69, 0x6e, 0x67]⟩] } =
          .ok (node', sent, data_left) ∧
        sent ++ pendingBytes (fun _ => 0) node' =
          pendingBytes (fun _ => 0) { CNode.make #v[0x70, 0x35, 0x22, 0x05] with vSendMsg := [⟨[1, 2], [0x70, 0x69, 0x6e, 0x67]⟩] } ∧
        SendOk (fun _ => 0) node' ∧
        SendFrame { CNode.make #v[0x70, 0x35, 0x22, 0x05] with vSendMsg := [⟨[1, 2], [0x70, 0x69, 0x6e, 0x67]⟩] } node' ∧
        data_left = !(pendingBytes (fun _ => 0) node').isEmpty ∧
        ((∀ c ∈ [10], (pendingBytes (fun _ => 0)
            { CNode.make #v[0x70, 0x35, 0x22, 0x05] with vSendMsg := [⟨[1, 2], [0x70, 0x69, 0x6e, 0x67]⟩] }).length ≤ c) →
          (pendingBytes (fun _ => 0)
            { CNode.make #v[0x70, 0x35, 0x22, 0x05] with vSendMsg := [⟨[1, 2], [0x70, 0x69, 0x6e, 0x67]⟩] }).length ≤ [10].length →
          pendingBytes (fun _ => 0) node' = []) := by
  have hok : SendOk (fun _ => 0)
      { CNode.make #v[0x70, 0x35, 0x22, 0x05] with vSendMsg := [⟨[1, 2], [0x70, 0x69, 0x6e, 0x67]⟩] } :=
    ⟨SendState.wf_make _, by simp only [List.mem_singleton, forall_eq]; exact ⟨by decide, by simp, by simp [MAX_PROTOCOL_MESSAGE_LENGTH]⟩⟩
  exact ⟨hok, socketSendData_spec [10] hok⟩

/-- `PushMessage` of a valid message: it is queued behind what is pending, and the optimistic
write sends a prefix of the result; with a socket that takes everything, all of it. -/
theorem pushMessage_spec (sends : List Nat) {node : CNode} (hok : SendOk hash256 node) {msg : CSerializedNetMsg}
    (hv : msg.Valid) :
    ∃ node' sent, pushMessage hash256 node msg sends = .ok (node', sent) ∧
      sent ++ pendingBytes hash256 node' = pendingBytes hash256 node ++ frame hash256 node.m_transport.m_magic_bytes msg ∧
      SendOk hash256 node' ∧ SendFrame node node' := by
  have hok₁ : SendOk hash256 { node with vSendMsg := node.vSendMsg ++ [msg] } :=
    ⟨hok.1, fun m hm => by
      rcases List.mem_append.mp hm with hm | hm
      · exact hok.2 m hm
      · simp only [List.mem_singleton] at hm
        exact hm ▸ hv⟩
  have hpend₁ : pendingBytes hash256 { node with vSendMsg := node.vSendMsg ++ [msg] } =
      pendingBytes hash256 node ++ frame hash256 node.m_transport.m_magic_bytes msg := by
    simp [pendingBytes, framesOf_append]
  unfold pushMessage
  by_cases hwrite : ((node.m_transport.send.getBytesToSend true).1.isEmpty && node.vSendMsg.isEmpty &&
      (node.m_transport.send.getBytesToSend true).2.1) = true
  · -- the queue was empty: write at once
    obtain ⟨node', sent, data_left, hrun, hsent, hok', hframe', -⟩ := socketSendLoop_spec sends _ none hok₁ (.inl rfl)
    -- a frame over the queued node is a frame over `node`: only the queue differs
    refine ⟨node', sent, ?_, by rw [hsent, hpend₁], hok', hframe'⟩
    simp only [hwrite, if_true, socketSendData, bind, Except.bind, hrun, pure, Except.pure]
  · refine ⟨{ node with vSendMsg := node.vSendMsg ++ [msg] }, [], ?_, by rw [List.nil_append, hpend₁], hok₁, rfl⟩
    simp only [Bool.not_eq_true] at hwrite
    simp only [hwrite, Bool.false_eq_true, if_false, pure, Except.pure]

end Socket

end BlackcoinMore.Net
