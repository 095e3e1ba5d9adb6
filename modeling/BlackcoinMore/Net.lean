import BlackcoinMore.Primitives
import BlackcoinMore.ByteCodec
import BlackcoinMore.Serialize

/-! The version 1 P2P transport (`protocol.h`, `protocol.cpp`, `net.h`, `net.cpp`): the 24-byte
message header, the receiving and sending halves of `V1Transport`, and the loops of `CNode` and
`CConnman` that drive them. The double SHA-256 of a payload is an argument `hash256`; the
receiver's streaming `CHash256` is the list of bytes written to it, so that finalizing it is
`hash256` of that list. The socket is given by what each `Send` call accepts. -/

namespace BlackcoinMore.Net
open Primitives ByteCodec Serialize

def COMMAND_SIZE : Nat := 12
def CHECKSUM_SIZE : Nat := 4
def HEADER_SIZE : Nat := 24
def MAX_PROTOCOL_MESSAGE_LENGTH : Nat := 4 * 1000 * 1000

abbrev MessageStartChars := Vector UInt8 4

structure CMessageHeader where
  pchMessageStart : MessageStartChars
  pchCommand : Vector UInt8 COMMAND_SIZE
  nMessageSize : UInt32
  pchChecksum : Vector UInt8 CHECKSUM_SIZE
  deriving DecidableEq, Repr

namespace CMessageHeader

/-- `CMessageHeader()`: zero bytes, and a size of `UINT32_MAX`. -/
def empty : CMessageHeader :=
  ⟨Vector.replicate 4 0, Vector.replicate COMMAND_SIZE 0, 0xffffffff, Vector.replicate CHECKSUM_SIZE 0⟩

/-- `CMessageHeader(pchMessageStartIn, pszCommand, nMessageSizeIn)`: the command is copied up to
its first NUL, which the constructor asserts to lie within `COMMAND_SIZE` bytes. -/
def make (pchMessageStartIn : MessageStartChars) (pszCommand : Bytes) (nMessageSizeIn : UInt32) :
    Except String CMessageHeader :=
  let command := pszCommand.takeWhile (· != 0)
  if COMMAND_SIZE < command.length then .error "Assertion `pszCommand[i] == 0' failed."
  else .ok ⟨pchMessageStartIn, Vector.ofFn fun i => command.getD i 0, nMessageSizeIn,
    Vector.replicate CHECKSUM_SIZE 0⟩

/-- `SERIALIZE_METHODS(CMessageHeader, obj)`. -/
def serialize (hdr : CMessageHeader) : Bytes :=
  hdr.pchMessageStart.toList ++ hdr.pchCommand.toList ++ encodeLE 4 hdr.nMessageSize.toNat ++
    hdr.pchChecksum.toList

/-- `hdrbuf >> hdr` on the bytes of a header: each field read at its offset. -/
def deserialize (b : Bytes) : CMessageHeader :=
  ⟨Vector.ofFn fun i => b.getD i 0, Vector.ofFn fun i => b.getD (4 + i) 0,
    (decodeLE (slice b 16 20)).toUInt32, Vector.ofFn fun i => b.getD (20 + i) 0⟩

def getCommand (hdr : CMessageHeader) : Bytes := hdr.pchCommand.toList.takeWhile (· != 0)

/-- The loop of `IsCommandValid`: printable characters, then only NULs after the first NUL. -/
def commandValid : Bytes → Bool
  | [] => true
  | c :: rest => if c = 0 then rest.all (· = 0) else (0x20 ≤ c && c ≤ 0x7e) && commandValid rest

def isCommandValid (hdr : CMessageHeader) : Bool := commandValid hdr.pchCommand.toList

@[simp] theorem length_serialize (hdr : CMessageHeader) : hdr.serialize.length = HEADER_SIZE := by
  simp only [serialize, List.length_append, Vector.length_toList, length_encodeLE]
  rfl

/-- A header reads back from its serialization, whatever bytes follow it. -/
theorem deserialize_serialize (hdr : CMessageHeader) (rest : Bytes) :
    deserialize (hdr.serialize ++ rest) = hdr := by
  obtain ⟨m, c, n, k⟩ := hdr
  have hm : m.toList.length = 4 := Vector.length_toList
  have hc : c.toList.length = 12 := Vector.length_toList
  have he : (encodeLE 4 n.toNat).length = 4 := length_encodeLE 4 _
  have hn : decodeLE (encodeLE 4 n.toNat) = n.toNat := by
    rw [decodeLE_encodeLE]
    exact Nat.mod_eq_of_lt (by simpa using n.toNat_lt)
  have hk : k.toList.length = 4 := Vector.length_toList
  simp only [deserialize, serialize, List.append_assoc, mk.injEq]
  refine ⟨?_, ?_, ?_, ?_⟩
  · ext i hi
    rw [Vector.getElem_ofFn, List.getD_append _ _ _ i (by omega), List.getD_eq_getElem _ _ (by omega)]
    simp
  · ext i hi
    have hi' : i < 12 := hi
    simp only [Vector.getElem_ofFn]
    rw [List.getD_append_right _ _ _ _ (by omega), List.getD_append _ _ _ _ (by omega),
      List.getD_eq_getElem _ _ (by omega)]
    simp [hm]
  · have h16 : (m.toList ++ (c.toList ++ (encodeLE 4 n.toNat ++ (k.toList ++ rest)))).drop 16 =
        encodeLE 4 n.toNat ++ (k.toList ++ rest) := by
      rw [← List.append_assoc, show 16 = (m.toList ++ c.toList).length by simp [hm, hc]]
      exact List.drop_left
    rw [slice, h16, show 20 - 16 = (encodeLE 4 n.toNat).length by rw [he], List.take_left, hn,
      Nat.toUInt32_eq, UInt32.ofNat_toNat]
  · ext i hi
    have hi' : i < 4 := hi
    simp only [Vector.getElem_ofFn]
    rw [List.getD_append_right _ _ _ _ (by omega), List.getD_append_right _ _ _ _ (by omega),
      List.getD_append_right _ _ _ _ (by omega), List.getD_append _ _ _ _ (by omega),
      List.getD_eq_getElem _ _ (by omega)]
    simp [hm, hc, he, show 20 + i - 4 - 12 - 4 = i by omega]

/-- Bytes after the first `HEADER_SIZE` do not change the header read from a buffer. -/
theorem deserialize_append {b : Bytes} (c : Bytes) (hb : HEADER_SIZE ≤ b.length) :
    deserialize (b ++ c) = deserialize b := by
  unfold HEADER_SIZE at hb
  simp only [deserialize, mk.injEq]
  refine ⟨?_, ?_, ?_, ?_⟩
  · ext i hi
    simp only [Vector.getElem_ofFn]
    rw [List.getD_append _ _ _ _ (by omega)]
  · ext i hi
    have hi' : i < 12 := hi
    simp only [Vector.getElem_ofFn]
    rw [List.getD_append _ _ _ _ (by omega)]
  · simp [slice, List.drop_append_of_le_length (by omega : 16 ≤ b.length),
      List.take_append_of_le_length (by simp; omega : 20 - 16 ≤ (b.drop 16).length)]
  · ext i hi
    have hi' : i < 4 := hi
    simp only [Vector.getElem_ofFn]
    rw [List.getD_append _ _ _ _ (by omega)]

end CMessageHeader

structure CSerializedNetMsg where
  data : Bytes
  m_type : Bytes
  deriving DecidableEq, Repr

structure CNetMessage where
  m_recv : Bytes
  m_time : Int
  m_message_size : UInt32
  m_raw_message_size : UInt32
  m_type : Bytes
  deriving DecidableEq, Repr

/-- The fields of `V1Transport` guarded by `m_recv_mutex`. `hdrbuf` holds the `nHdrPos` header
bytes copied so far and `vRecv` the `nDataPos` payload bytes; `hasher` is what was written to the
payload's hasher. -/
structure RecvState where
  in_data : Bool
  hdrbuf : Bytes
  hdr : CMessageHeader
  vRecv : Bytes
  hasher : Bytes
  deriving DecidableEq, Repr

/-- The fields of `V1Transport` guarded by `m_send_mutex`. -/
structure SendState where
  m_header_to_send : Bytes
  m_message_to_send : CSerializedNetMsg
  m_sending_header : Bool
  m_bytes_sent : Nat
  deriving DecidableEq, Repr

structure V1Transport where
  m_magic_bytes : MessageStartChars
  recv : RecvState
  send : SendState
  deriving DecidableEq, Repr

namespace RecvState
variable (magic : MessageStartChars)

/-- `Reset()`: the receiving half starts a new header. The last header stays in `hdr`. -/
def reset (r : RecvState) : RecvState := { r with vRecv := [], hdrbuf := [], in_data := false, hasher := [] }

/-- `readHeader`: the number of bytes taken, or `none` for the `-1` of a bad header. -/
def readHeader (r : RecvState) (msg_bytes : Bytes) : Option Nat × RecvState :=
  let nRemaining := HEADER_SIZE - r.hdrbuf.length
  let nCopy := min nRemaining msg_bytes.length
  let r := { r with hdrbuf := r.hdrbuf ++ msg_bytes.take nCopy }
  if r.hdrbuf.length < HEADER_SIZE then (some nCopy, r)
  else
    let r := { r with hdr := CMessageHeader.deserialize r.hdrbuf }
    if r.hdr.pchMessageStart != magic then (none, r)
    else if MAX_SIZE < r.hdr.nMessageSize.toNat ∨ MAX_PROTOCOL_MESSAGE_LENGTH < r.hdr.nMessageSize.toNat then
      (none, r)
    else (some nCopy, { r with in_data := true })

def readData (r : RecvState) (msg_bytes : Bytes) : Nat × RecvState :=
  let nRemaining := r.hdr.nMessageSize.toNat - r.vRecv.length
  let nCopy := min nRemaining msg_bytes.length
  (nCopy, { r with hasher := r.hasher ++ msg_bytes.take nCopy, vRecv := r.vRecv ++ msg_bytes.take nCopy })

/-- `ReceivedBytes`: whether the bytes were accepted, the new state and the bytes left over. -/
def receivedBytes (r : RecvState) (msg_bytes : Bytes) : Bool × RecvState × Bytes :=
  if r.in_data then
    let (ret, r) := r.readData msg_bytes
    (true, r, msg_bytes.drop ret)
  else
    match r.readHeader magic msg_bytes with
    | (some ret, r) => (true, r, msg_bytes.drop ret)
    | (none, r) => (false, r.reset, msg_bytes)

def receivedMessageComplete (r : RecvState) : Bool :=
  r.in_data && r.hdr.nMessageSize.toNat == r.vRecv.length

/-- `GetReceivedMessage`: the message, whether it is rejected, and the reset state. -/
def getReceivedMessage (hash256 : Bytes → Uint256) (r : RecvState) (time : Int) :
    CNetMessage × Bool × RecvState :=
  let msg : CNetMessage := ⟨r.vRecv, time, r.hdr.nMessageSize, r.hdr.nMessageSize + 24, r.hdr.getCommand⟩
  let hash := hash256 r.hasher
  let reject_message := encodeLE CHECKSUM_SIZE hash.toNat != r.hdr.pchChecksum.toList || !r.hdr.isCommandValid
  (msg, reject_message, r.reset)

end RecvState

namespace SendState

/-- `SetMessageToSend`: whether the message was taken, and the new state. -/
def setMessageToSend (hash256 : Bytes → Uint256) (magic : MessageStartChars) (s : SendState)
    (msg : CSerializedNetMsg) : Except String (Bool × SendState) :=
  if s.m_sending_header || s.m_bytes_sent < s.m_message_to_send.data.length then .ok (false, s)
  else do
    let hash := hash256 msg.data
    let hdr ← CMessageHeader.make magic msg.m_type msg.data.length.toUInt32
    let hdr := { hdr with pchChecksum := ⟨(encodeLE CHECKSUM_SIZE hash.toNat).toArray, by simp⟩ }
    pure (true, { m_header_to_send := hdr.serialize, m_message_to_send := msg,
                  m_sending_header := true, m_bytes_sent := 0 })

/-- `GetBytesToSend`: the bytes to send, whether more will follow, and the message type. -/
def getBytesToSend (s : SendState) (have_next_message : Bool) : Bytes × Bool × Bytes :=
  if s.m_sending_header then
    (s.m_header_to_send.drop s.m_bytes_sent, have_next_message || !s.m_message_to_send.data.isEmpty,
      s.m_message_to_send.m_type)
  else (s.m_message_to_send.data.drop s.m_bytes_sent, have_next_message, s.m_message_to_send.m_type)

def markBytesSent (s : SendState) (bytes_sent : Nat) : SendState :=
  let s := { s with m_bytes_sent := s.m_bytes_sent + bytes_sent }
  if s.m_sending_header && s.m_bytes_sent == s.m_header_to_send.length then
    { s with m_sending_header := false, m_bytes_sent := 0 }
  else if !s.m_sending_header && s.m_bytes_sent == s.m_message_to_send.data.length then
    { s with m_message_to_send := { s.m_message_to_send with data := [] }, m_bytes_sent := 0 }
  else s

end SendState

/-- `V1Transport(node_id, nTypeIn)` on a network whose message start is `magic`. -/
def V1Transport.make (magic : MessageStartChars) : V1Transport :=
  ⟨magic, RecvState.reset ⟨false, [], CMessageHeader.empty, [], []⟩, ⟨[], ⟨[], []⟩, false, 0⟩⟩

/-- The part of a `CNode` the transport loops use. -/
structure CNode where
  m_transport : V1Transport
  vSendMsg : List CSerializedNetMsg
  vRecvMsg : List CNetMessage
  deriving DecidableEq, Repr

def CNode.make (magic : MessageStartChars) : CNode := ⟨V1Transport.make magic, [], []⟩

section Loops
variable (hash256 : Bytes → Uint256)

/-- The start of a pass of `SocketSendData`: move the first queued message to the transport, if
the transport takes it. -/
def setNextMessage (node : CNode) : Except String CNode :=
  match node.vSendMsg with
  | [] => pure node
  | msg :: rest => do
    let (ok, s) ← node.m_transport.send.setMessageToSend hash256 node.m_transport.m_magic_bytes msg
    pure (if ok then { node with m_transport.send := s, vSendMsg := rest } else node)

/-- The loop of `CConnman::SocketSendData`, after `expected_more` was set: the node, the bytes
the socket took, and `data_left`. `sends` holds what successive `Send` calls accept; a zero, or
the end of the list, is a send that would block. -/
def socketSendLoop (expected_more : Option Bool) : List Nat → CNode → Except String (CNode × Bytes × Bool)
  | sends, node => do
    let node ← setNextMessage hash256 node
    let (data, more, _) := node.m_transport.send.getBytesToSend !node.vSendMsg.isEmpty
    if expected_more.any (· != !data.isEmpty) then throw "Assumption `!data.empty() == *expected_more' failed."
    else if data.isEmpty then pure (node, [], false)
    else match sends with
      | [] => pure (node, [], true)
      | c :: sends =>
        let nBytes := min c data.length
        if nBytes = 0 then pure (node, [], true)
        else
          let node := { node with m_transport.send := node.m_transport.send.markBytesSent nBytes }
          -- a partial send stops the loop
          if nBytes ≠ data.length then pure (node, data.take nBytes, true)
          else do
            let (node, sent, data_left) ← socketSendLoop (some more) sends node
            pure (node, data ++ sent, data_left)

def socketSendData (sends : List Nat) (node : CNode) : Except String (CNode × Bytes × Bool) :=
  socketSendLoop hash256 none sends node

/-- `CConnman::PushMessage`: queue the message, and write at once if nothing was pending. -/
def pushMessage (node : CNode) (msg : CSerializedNetMsg) (sends : List Nat) : Except String (CNode × Bytes) := do
  let (to_send, more, _) := node.m_transport.send.getBytesToSend true
  let queue_was_empty := to_send.isEmpty && node.vSendMsg.isEmpty
  let node := { node with vSendMsg := node.vSendMsg ++ [msg] }
  if queue_was_empty && more then
    let (node, sent, _) ← socketSendData hash256 sends node
    pure (node, sent)
  else pure (node, [])

/-- The loop of `CNode::ReceiveMsgBytes`: whether the peer may stay connected, `complete`, and the
node. Each pass takes at least one byte from a well-formed receiver, so `fuel` passes for
`fuel` bytes suffice; `none` is a pass that took nothing. -/
def receiveLoop (time : Int) : Nat → CNode → Bytes → Bool → Option (Bool × Bool × CNode)
  | _, node, [], complete => some (true, complete, node)
  | 0, _, _ :: _, _ => none
  | fuel + 1, node, b :: bs, complete =>
    match node.m_transport.recv.receivedBytes node.m_transport.m_magic_bytes (b :: bs) with
    | (false, r, _) => some (false, complete, { node with m_transport.recv := r })
    | (true, r, rest) =>
      if r.receivedMessageComplete then
        let (msg, reject_message, r) := r.getReceivedMessage hash256 time
        if reject_message then receiveLoop time fuel { node with m_transport.recv := r } rest complete
        else receiveLoop time fuel { node with m_transport.recv := r, vRecvMsg := node.vRecvMsg ++ [msg] } rest true
      else receiveLoop time fuel { node with m_transport.recv := r } rest complete

def receiveMsgBytes (time : Int) (node : CNode) (msg_bytes : Bytes) : Option (Bool × Bool × CNode) :=
  receiveLoop hash256 time msg_bytes.length node msg_bytes false

end Loops

end BlackcoinMore.Net
