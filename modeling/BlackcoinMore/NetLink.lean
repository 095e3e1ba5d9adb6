import BlackcoinMore.NetReceive
import BlackcoinMore.NetSend

/-! One direction of a V1 connection as a system: a sending node whose messages are queued by
`CConnman::PushMessage` and written by `CConnman::SocketSendData`, the bytes in flight, and a
receiving node fed by `CNode::ReceiveMsgBytes`. The steps interleave freely, each `Send` takes
any number of bytes, and the receiver gets the bytes in flight in pieces of any size. Over every
run the receiver keeps the connection and hands on the pushed messages in order, a prefix of
them at any time and all of them once nothing is in flight or pending. -/

namespace BlackcoinMore.Net
open Primitives ByteCodec Serialize

/-- The sending node, the bytes in flight, the receiving node, whether the receiver keeps the
connection, and the messages pushed so far (which only the proofs read). -/
structure Link where
  sender : CNode
  wire : Bytes
  receiver : CNode
  connected : Bool
  pushed : List CSerializedNetMsg

namespace Link

/-- Two fresh nodes of one network. -/
def init (magic : MessageStartChars) : Link := ⟨CNode.make magic, [], CNode.make magic, true, []⟩

section Steps
variable (hash256 : Bytes → Uint256)

/-- The steps of the link. A receive takes any number of the bytes in flight; the pieces of at
most 64 KiB and never empty that `SocketHandlerConnected` hands on are among them. Pushed
messages are valid, as the message maker makes them. -/
inductive Step : Link → Link → Prop
  /-- `PushMessage`; the optimistic write puts its bytes in flight. -/
  | push {l : Link} {msg : CSerializedNetMsg} {sends : List Nat} {sender : CNode} {sent : Bytes}
      (hv : msg.Valid) (h : pushMessage hash256 l.sender msg sends = .ok (sender, sent)) :
      Step l { l with sender := sender, wire := l.wire ++ sent, pushed := l.pushed ++ [msg] }
  /-- `SocketSendData`, when the socket is ready to send. -/
  | send {l : Link} {sends : List Nat} {sender : CNode} {sent : Bytes} {data_left : Bool}
      (h : socketSendData hash256 sends l.sender = .ok (sender, sent, data_left)) :
      Step l { l with sender := sender, wire := l.wire ++ sent }
  /-- `ReceiveMsgBytes` of the first `k` bytes in flight; `false` closes the connection. -/
  | recv {l : Link} {k : Nat} {time : Int} {ok complete : Bool} {receiver : CNode} (hc : l.connected = true)
      (h : receiveMsgBytes hash256 time l.receiver (l.wire.take k) = some (ok, complete, receiver)) :
      Step l { l with receiver := receiver, wire := l.wire.drop k, connected := ok }

def Reachable (magic : MessageStartChars) (l : Link) : Prop :=
  Relation.ReflTransGen (Step hash256) (init magic) l

/-- `rcv` are the messages a receiver hands on for `msgs`: one each, in order, with its payload
and type, at some receive time. -/
def ReceivedCopies (rcv : List CNetMessage) (msgs : List CSerializedNetMsg) : Prop :=
  List.Forall₂ (fun m msg => ∃ t, m = received t msg) rcv msgs

theorem receivedCopies_map (time : Int) (msgs : List CSerializedNetMsg) :
    ReceivedCopies (msgs.map (received time)) msgs :=
  List.forall₂_map_left_iff.mpr (List.forall₂_same.mpr fun _ _ => ⟨time, rfl⟩)

/-- The receiver has handed on the first `n` pushed messages, and the bytes it holds, the bytes
in flight and the bytes the sender has yet to write make up the frames of the others. -/
def Delivered (magic : MessageStartChars) (l : Link) (n : Nat) : Prop :=
  n ≤ l.pushed.length ∧ ReceivedCopies l.receiver.vRecvMsg (l.pushed.take n) ∧
    framesOf hash256 magic (l.pushed.drop n) = l.receiver.m_transport.recv.pending ++ l.wire ++ pendingBytes hash256 l.sender

/-- What holds of every state the link reaches. -/
structure Inv (magic : MessageStartChars) (l : Link) : Prop where
  sender_magic : l.sender.m_transport.m_magic_bytes = magic
  receiver_magic : l.receiver.m_transport.m_magic_bytes = magic
  connected : l.connected = true
  sendOk : SendOk hash256 l.sender
  recvWF : l.receiver.m_transport.recv.WF magic
  valid : ∀ m ∈ l.pushed, m.Valid
  delivered : ∃ n, Delivered hash256 magic l n

theorem inv_init (magic : MessageStartChars) : Inv hash256 magic (init magic) where
  sender_magic := rfl
  receiver_magic := rfl
  connected := rfl
  sendOk := ⟨SendState.wf_make magic, by simp [init, CNode.make]⟩
  recvWF := RecvState.wf_reset _
  valid := by simp [init]
  delivered := ⟨0, le_rfl, .nil, rfl⟩

variable {hash256} {magic : MessageStartChars} {l : Link}

theorem Inv.valid_drop (hi : Inv hash256 magic l) (n : Nat) : ∀ m ∈ l.pushed.drop n, m.Valid :=
  fun m hm => hi.valid m (List.mem_of_mem_drop hm)

/-- What `ReceiveMsgBytes` does to a receiver of the invariant, for any piece of the bytes in
flight: it keeps the connection, hands on the next `j` pushed messages, and holds the start of
the frame after them. -/
theorem Inv.receiveMsgBytes_spec (hi : Inv hash256 magic l) {n : Nat} (hd : Delivered hash256 magic l n)
    (k : Nat) (time : Int) :
    ∃ j ≤ (l.pushed.drop n).length, ∃ r, receiveMsgBytes hash256 time l.receiver (l.wire.take k) =
        some (true, !((l.pushed.drop n).take j).isEmpty,
          { l.receiver with m_transport.recv := r,
                            vRecvMsg := l.receiver.vRecvMsg ++ ((l.pushed.drop n).take j).map (received time) }) ∧
      r.WF magic ∧ framesOf hash256 magic ((l.pushed.drop n).drop j) = r.pending ++ l.wire.drop k ++ pendingBytes hash256 l.sender := by
  obtain ⟨-, -, hframes⟩ := hd
  have hvalid := hi.valid_drop n
  have hwire : l.wire.take k ++ (l.wire.drop k ++ pendingBytes hash256 l.sender) = l.wire ++ pendingBytes hash256 l.sender := by
    rw [← List.append_assoc, List.take_append_drop]
  -- the receiver sees a prefix of the frames of the messages it has not handed on
  have hpre : l.receiver.m_transport.recv.pending ++ l.wire.take k <+: framesOf hash256 magic (l.pushed.drop n) :=
    ⟨l.wire.drop k ++ pendingBytes hash256 l.sender, by rw [hframes, List.append_assoc, hwire, List.append_assoc]⟩
  obtain ⟨j, hj, q, hsplit, -, hdec⟩ := decodeFrames_prefix hvalid hpre
  obtain ⟨r, hres, hwf, hpend⟩ :=
    @receiveLoop_decodeFrames hash256 time _ l.receiver (l.wire.take k) false le_rfl (hi.receiver_magic ▸ hi.recvWF)
  rw [hi.receiver_magic, hdec] at hres hpend
  have htake : ∀ m ∈ (l.pushed.drop n).take j, m.Valid := fun m hm => hvalid m (List.mem_of_mem_take hm)
  refine ⟨j, hj, r, ?_, hi.receiver_magic ▸ hwf, ?_⟩
  · rw [receiveMsgBytes, hres, deliver_headerFor time htake]
    simp only [Bool.false_or, List.isEmpty_map]
  · -- cancel the frames handed on from both sides of the invariant's equation
    have hall : framesOf hash256 magic ((l.pushed.drop n).take j) ++ framesOf hash256 magic ((l.pushed.drop n).drop j) =
        framesOf hash256 magic ((l.pushed.drop n).take j) ++ (q ++ (l.wire.drop k ++ pendingBytes hash256 l.sender)) :=
      calc _ = framesOf hash256 magic (l.pushed.drop n) := by rw [← framesOf_append, List.take_append_drop]
        _ = (l.receiver.m_transport.recv.pending ++ l.wire.take k) ++ (l.wire.drop k ++ pendingBytes hash256 l.sender) := by
          rw [hframes, List.append_assoc, List.append_assoc, hwire]
        _ = _ := by rw [hsplit, List.append_assoc]
    rw [List.append_cancel_left hall, hpend, List.append_assoc]

theorem Inv.push (hi : Inv hash256 magic l) {msg : CSerializedNetMsg} {sends : List Nat} {sender : CNode} {sent : Bytes}
    (hv : msg.Valid) (h : pushMessage hash256 l.sender msg sends = .ok (sender, sent)) :
    Inv hash256 magic { l with sender := sender, wire := l.wire ++ sent, pushed := l.pushed ++ [msg] } := by
  obtain ⟨node', sent', hrun, hsent, hok, hframe⟩ := pushMessage_spec sends hi.sendOk hv
  rw [h, Except.ok.injEq, Prod.mk.injEq] at hrun
  obtain ⟨rfl, rfl⟩ := hrun
  obtain ⟨n, hn, hcopies, hframes⟩ := hi.delivered
  rw [hi.sender_magic] at hsent
  refine ⟨hframe.magic.trans hi.sender_magic, hi.receiver_magic, hi.connected, hok, hi.recvWF, ?_, n, ?_, ?_, ?_⟩
  · simp only [List.mem_append, List.mem_singleton]
    rintro m (hm | rfl)
    · exact hi.valid m hm
    · exact hv
  · simp only [List.length_append]
    omega
  · simpa only [List.take_append_of_le_length hn] using hcopies
  · -- the new frame goes behind everything the sender had pending
    dsimp only
    rw [List.drop_append_of_le_length hn, framesOf_append, hframes]
    simp only [framesOf_cons, framesOf_nil, List.append_nil, List.append_assoc, hsent]

theorem Inv.send (hi : Inv hash256 magic l) {sends : List Nat} {sender : CNode} {sent : Bytes} {data_left : Bool}
    (h : socketSendData hash256 sends l.sender = .ok (sender, sent, data_left)) :
    Inv hash256 magic { l with sender := sender, wire := l.wire ++ sent } := by
  obtain ⟨node', sent', data_left', hrun, hsent, hok, hframe, -⟩ := socketSendLoop_spec sends l.sender none hi.sendOk (.inl rfl)
  unfold socketSendData at h
  rw [h, Except.ok.injEq, Prod.mk.injEq, Prod.mk.injEq] at hrun
  obtain ⟨rfl, rfl, -⟩ := hrun
  obtain ⟨n, hn, hcopies, hframes⟩ := hi.delivered
  refine ⟨hframe.magic.trans hi.sender_magic, hi.receiver_magic, hi.connected, hok, hi.recvWF, hi.valid, n, hn, hcopies, ?_⟩
  -- the bytes written move from the sender to the wire
  dsimp only
  rw [hframes, ← hsent]
  simp

theorem Inv.recv (hi : Inv hash256 magic l) {k : Nat} {time : Int} {ok complete : Bool} {receiver : CNode}
    (h : receiveMsgBytes hash256 time l.receiver (l.wire.take k) = some (ok, complete, receiver)) :
    Inv hash256 magic { l with receiver := receiver, wire := l.wire.drop k, connected := ok } := by
  obtain ⟨n, hd⟩ := hi.delivered
  obtain ⟨j, hj, r, hres, hwf, hframes⟩ := hi.receiveMsgBytes_spec hd k time
  rw [h, Option.some.injEq, Prod.mk.injEq, Prod.mk.injEq] at hres
  obtain ⟨rfl, -, rfl⟩ := hres
  obtain ⟨hn, hcopies, -⟩ := hd
  refine ⟨hi.sender_magic, hi.receiver_magic, rfl, hi.sendOk, hwf, hi.valid, n + j, ?_, ?_, ?_⟩
  · simp only [List.length_drop] at hj
    dsimp only
    omega
  · -- the new messages are copies of the next `j` pushed ones
    dsimp only
    rw [List.take_add]
    exact List.rel_append hcopies (receivedCopies_map time _)
  · dsimp only
    rw [← List.drop_drop, hframes]

theorem Inv.step {l' : Link} (hi : Inv hash256 magic l) (h : Step hash256 l l') : Inv hash256 magic l' := by
  cases h with
  | push hv h => exact hi.push hv h
  | send h => exact hi.send h
  | recv _ h => exact hi.recv h

theorem Reachable.inv (h : Reachable hash256 magic l) : Inv hash256 magic l := by
  induction h with
  | refl => exact inv_init hash256 magic
  | tail _ hs ih => exact ih.step hs

/-- With nothing in flight and nothing pending at the sender, the undelivered frames are the
bytes the receiver holds; those read as no complete frame, so there are none. -/
theorem Inv.delivered_all (hi : Inv hash256 magic l) (hwire : l.wire = []) (hsender : pendingBytes hash256 l.sender = []) :
    ReceivedCopies l.receiver.vRecvMsg l.pushed ∧ l.receiver.m_transport.recv.pending = [] := by
  obtain ⟨n, -, hcopies, hframes⟩ := hi.delivered
  rw [hwire, hsender, List.append_nil, List.append_nil] at hframes
  have hdec := @decodeFrames_framesOf hash256 magic _ (hi.valid_drop n)
  rw [hframes, RecvState.decodeFrames_pending hi.recvWF, Prod.mk.injEq, Prod.mk.injEq] at hdec
  obtain ⟨hnil, -, hpend⟩ := hdec
  have hdrop : l.pushed.drop n = [] := List.map_eq_nil_iff.mp hnil.symm
  rw [List.take_of_length_le (List.drop_eq_nil_iff.mp hdrop)] at hcopies
  exact ⟨hcopies, hpend⟩

/-- Over every interleaving of pushes, sends that take any number of bytes and receives of
pieces of any size, the messages the receiver has handed on are copies of the first pushed
ones, in order: none lost, duplicated, reordered or altered. -/
theorem link_delivers_prefix (h : Reachable hash256 magic l) :
    ∃ n ≤ l.pushed.length, ReceivedCopies l.receiver.vRecvMsg (l.pushed.take n) := by
  obtain ⟨n, hn, hcopies, -⟩ := h.inv.delivered
  exact ⟨n, hn, hcopies⟩

/-- A `ping` with a two-byte payload, pushed on a socket that takes it all and received whole. -/
theorem link_delivers_prefix_ping :
    ∃ l, Reachable (fun _ => 0) #v[0x70, 0x35, 0x22, 0x05] l ∧ l.pushed = [⟨[1, 2], [0x70, 0x69, 0x6e, 0x67]⟩] ∧
      ∃ n ≤ l.pushed.length, ReceivedCopies l.receiver.vRecvMsg (l.pushed.take n) := by
  have hr : Reachable (fun _ => 0) #v[0x70, 0x35, 0x22, 0x05] _ :=
    (Relation.ReflTransGen.single (@Step.push _ _ ⟨[1, 2], [0x70, 0x69, 0x6e, 0x67]⟩ (List.replicate 26 26) _ _
      ⟨by decide, by simp, by simp [MAX_PROTOCOL_MESSAGE_LENGTH]⟩ rfl)).tail (@Step.recv _ _ 26 0 _ _ _ rfl rfl)
  exact ⟨_, hr, rfl, link_delivers_prefix hr⟩

/-- No step of a reachable link fails: `PushMessage` of a valid message and `SocketSendData`
pass their assertion and their `Assume` whatever the socket takes, and `ReceiveMsgBytes` of any
piece of the bytes in flight keeps the connection. -/
theorem link_steps_succeed (h : Reachable hash256 magic l) :
    (∀ (msg : CSerializedNetMsg) (sends : List Nat), msg.Valid → ∃ r, pushMessage hash256 l.sender msg sends = .ok r) ∧
    (∀ sends : List Nat, ∃ r, socketSendData hash256 sends l.sender = .ok r) ∧
    (∀ (k : Nat) (time : Int), ∃ complete receiver,
      receiveMsgBytes hash256 time l.receiver (l.wire.take k) = some (true, complete, receiver)) := by
  have hi := h.inv
  refine ⟨fun msg sends hv => ?_, fun sends => ?_, fun k time => ?_⟩
  · obtain ⟨_, _, hrun, -⟩ := pushMessage_spec sends hi.sendOk hv
    exact ⟨_, hrun⟩
  · obtain ⟨_, _, _, hrun, -⟩ := socketSendLoop_spec sends l.sender none hi.sendOk (.inl rfl)
    exact ⟨_, hrun⟩
  · obtain ⟨n, hd⟩ := hi.delivered
    obtain ⟨j, -, r, hres, -⟩ := hi.receiveMsgBytes_spec hd k time
    exact ⟨_, _, hres⟩

theorem link_steps_succeed_ping :
    ∃ l, Reachable (fun _ => 0) #v[0x70, 0x35, 0x22, 0x05] l ∧ l.pushed = [⟨[1, 2], [0x70, 0x69, 0x6e, 0x67]⟩] ∧
      ((∀ (msg : CSerializedNetMsg) (sends : List Nat), msg.Valid →
          ∃ r, pushMessage (fun _ => 0) l.sender msg sends = .ok r) ∧
        (∀ sends : List Nat, ∃ r, socketSendData (fun _ => 0) sends l.sender = .ok r) ∧
        (∀ (k : Nat) (time : Int), ∃ complete receiver,
          receiveMsgBytes (fun _ => 0) time l.receiver (l.wire.take k) = some (true, complete, receiver))) := by
  have hr : Reachable (fun _ => 0) #v[0x70, 0x35, 0x22, 0x05] _ :=
    (Relation.ReflTransGen.single (@Step.push _ _ ⟨[1, 2], [0x70, 0x69, 0x6e, 0x67]⟩ (List.replicate 26 26) _ _
      ⟨by decide, by simp, by simp [MAX_PROTOCOL_MESSAGE_LENGTH]⟩ rfl)).tail (@Step.recv _ _ 26 0 _ _ _ rfl rfl)
  exact ⟨_, hr, rfl, link_steps_succeed hr⟩

/-- Once nothing is in flight and the sender has written everything, the receiver has handed on
every pushed message, in order, and holds no bytes. -/
theorem delivered_of_quiescent (h : Reachable hash256 magic l) (hwire : l.wire = [])
    (hsender : pendingBytes hash256 l.sender = []) :
    ReceivedCopies l.receiver.vRecvMsg l.pushed ∧ l.receiver.m_transport.recv.pending = [] :=
  h.inv.delivered_all hwire hsender

set_option maxRecDepth 100000 in
theorem delivered_of_quiescent_ping :
    ∃ l, Reachable (fun _ => 0) #v[0x70, 0x35, 0x22, 0x05] l ∧ l.pushed = [⟨[1, 2], [0x70, 0x69, 0x6e, 0x67]⟩] ∧
      l.wire = [] ∧ pendingBytes (fun _ => 0) l.sender = [] ∧
      (ReceivedCopies l.receiver.vRecvMsg l.pushed ∧ l.receiver.m_transport.recv.pending = []) := by
  have hr : Reachable (fun _ => 0) #v[0x70, 0x35, 0x22, 0x05] _ :=
    (Relation.ReflTransGen.single (@Step.push _ _ ⟨[1, 2], [0x70, 0x69, 0x6e, 0x67]⟩ (List.replicate 26 26) _ _
      ⟨by decide, by simp, by simp [MAX_PROTOCOL_MESSAGE_LENGTH]⟩ rfl)).tail (@Step.recv _ _ 26 0 _ _ _ rfl rfl)
  exact ⟨_, hr, rfl, by decide, by decide, delivered_of_quiescent hr (by decide) (by decide)⟩

/-- From any reachable state, one `SocketSendData` on a socket that takes all that is pending at
each `Send`, called as often as there are pending bytes, followed by one `ReceiveMsgBytes` of all
the bytes in flight, hands on every pushed message. -/
theorem link_delivers_all (h : Reachable hash256 magic l) (sends : List Nat)
    (hcap : ∀ c ∈ sends, (pendingBytes hash256 l.sender).length ≤ c)
    (hcount : (pendingBytes hash256 l.sender).length ≤ sends.length) (time : Int) :
    ∃ sender sent data_left complete receiver,
      socketSendData hash256 sends l.sender = .ok (sender, sent, data_left) ∧
      receiveMsgBytes hash256 time l.receiver (l.wire ++ sent) = some (true, complete, receiver) ∧
      ReceivedCopies receiver.vRecvMsg l.pushed := by
  have hi := h.inv
  obtain ⟨sender, sent, data_left, hsend, -, -, -, -, hdrain⟩ := socketSendLoop_spec sends l.sender none hi.sendOk (.inl rfl)
  have hi₁ := hi.send hsend
  obtain ⟨n, hd⟩ := hi₁.delivered
  -- receive everything now in flight
  obtain ⟨j, -, r, hres, -⟩ := hi₁.receiveMsgBytes_spec hd (l.wire ++ sent).length time
  have hi₂ := hi₁.recv hres
  dsimp only at hres
  rw [List.take_length] at hres
  exact ⟨sender, sent, data_left, _, _, hsend, hres, (hi₂.delivered_all (by simp) (hdrain hcap hcount)).1⟩

set_option maxRecDepth 100000 in
/-- The `ping` pushed while the socket would block, then sent and received. -/
theorem link_delivers_all_ping :
    ∃ l, Reachable (fun _ => 0) #v[0x70, 0x35, 0x22, 0x05] l ∧ l.pushed = [⟨[1, 2], [0x70, 0x69, 0x6e, 0x67]⟩] ∧
      (∀ c ∈ List.replicate 26 26, (pendingBytes (fun _ => 0) l.sender).length ≤ c) ∧
      (pendingBytes (fun _ => 0) l.sender).length ≤ (List.replicate 26 26).length ∧
      ∃ sender sent data_left complete receiver,
        socketSendData (fun _ => 0) (List.replicate 26 26) l.sender = .ok (sender, sent, data_left) ∧
        receiveMsgBytes (fun _ => 0) 0 l.receiver (l.wire ++ sent) = some (true, complete, receiver) ∧
        ReceivedCopies receiver.vRecvMsg l.pushed := by
  have hr : Reachable (fun _ => 0) #v[0x70, 0x35, 0x22, 0x05] _ :=
    Relation.ReflTransGen.single (@Step.push _ _ ⟨[1, 2], [0x70, 0x69, 0x6e, 0x67]⟩ [] _ _
      ⟨by decide, by simp, by simp [MAX_PROTOCOL_MESSAGE_LENGTH]⟩ rfl)
  exact ⟨_, hr, rfl, by decide, by decide, link_delivers_all hr _ (by decide) (by decide) 0⟩

end Steps

end Link

end BlackcoinMore.Net
