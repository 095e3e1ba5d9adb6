import BlackcoinMore.NetFrames

/-! The receiving half of the V1 transport refines the whole-stream decoder: whatever pieces the
stream arrives in, `CNode::ReceiveMsgBytes` hands on the messages `decodeFrames` finds in the
bytes held so far followed by the new ones, stops exactly at a refused header, and keeps the
bytes of the incomplete last frame. -/

namespace BlackcoinMore.Net
open Primitives ByteCodec Serialize

namespace RecvState
variable {magic : MessageStartChars}

/-- The bytes of the current frame that the receiver holds. -/
def pending (r : RecvState) : Bytes := r.hdrbuf ++ r.vRecv

/-- The states the receiving half is in between two passes of the loop: inside a header, or
inside the payload of a header that passed the checks. -/
def WF (magic : MessageStartChars) (r : RecvState) : Prop :=
  (r.in_data = false ∧ r.hdrbuf.length < HEADER_SIZE ∧ r.vRecv = [] ∧ r.hasher = []) ∨
  (r.in_data = true ∧ r.hdrbuf.length = HEADER_SIZE ∧ r.hdr = CMessageHeader.deserialize r.hdrbuf ∧
    headerOk magic r.hdr = true ∧ r.vRecv.length < r.hdr.nMessageSize.toNat ∧ r.hasher = r.vRecv)

@[simp] theorem pending_reset (r : RecvState) : r.reset.pending = [] := rfl

theorem wf_reset (r : RecvState) : r.reset.WF magic := .inl ⟨rfl, by simp [reset, HEADER_SIZE], rfl, rfl⟩

/-- `ReceivedBytes` inside a header that the new bytes do not complete. -/
theorem receivedBytes_header_short {r : RecvState} {x : Bytes} (hin : r.in_data = false)
    (hshort : r.hdrbuf.length + x.length < HEADER_SIZE) :
    r.receivedBytes magic x = (true, { r with hdrbuf := r.hdrbuf ++ x }, []) := by
  have hk : min (HEADER_SIZE - r.hdrbuf.length) x.length = x.length := by omega
  simp only [receivedBytes, hin, Bool.false_eq_true, if_false, readHeader, hk, List.take_length,
    List.length_append, hshort, if_true, List.drop_length]

/-- `ReceivedBytes` when the new bytes complete the header `hb`. -/
theorem receivedBytes_header_full {r : RecvState} {x : Bytes} (hin : r.in_data = false)
    (hlen : r.hdrbuf.length < HEADER_SIZE) (hfull : HEADER_SIZE ≤ r.hdrbuf.length + x.length) :
    let k := HEADER_SIZE - r.hdrbuf.length
    let hb := r.hdrbuf ++ x.take k
    let r' := { r with hdrbuf := hb, hdr := CMessageHeader.deserialize hb }
    r.receivedBytes magic x =
      if headerOk magic r'.hdr then (true, { r' with in_data := true }, x.drop k) else (false, r'.reset, x) := by
  intro k hb r'
  have hk : min (HEADER_SIZE - r.hdrbuf.length) x.length = k := by omega
  have hhb : ¬ (r.hdrbuf ++ x.take k).length < HEADER_SIZE := by simp; omega
  simp only [receivedBytes, hin, Bool.false_eq_true, if_false, readHeader, hk, hhb, if_false]
  by_cases hm : (CMessageHeader.deserialize hb).pchMessageStart = magic
  · by_cases hs : (CMessageHeader.deserialize hb).nMessageSize.toNat ≤ MAX_PROTOCOL_MESSAGE_LENGTH
    · have hsize : ¬ (MAX_SIZE < (CMessageHeader.deserialize hb).nMessageSize.toNat ∨
          MAX_PROTOCOL_MESSAGE_LENGTH < (CMessageHeader.deserialize hb).nMessageSize.toNat) := by
        unfold MAX_SIZE MAX_PROTOCOL_MESSAGE_LENGTH at *
        omega
      have hok : headerOk magic r'.hdr = true := by
        simp only [headerOk, r', hm, hs, beq_self_eq_true, Bool.true_and, decide_true, Bool.and_true]
        unfold MAX_SIZE MAX_PROTOCOL_MESSAGE_LENGTH at *
        simp only [decide_eq_true_eq]
        omega
      simp only [hb, hm, bne_self_eq_false, Bool.false_eq_true, if_false, hsize, hok, if_true, r']
    · have hsize : MAX_SIZE < (CMessageHeader.deserialize hb).nMessageSize.toNat ∨
          MAX_PROTOCOL_MESSAGE_LENGTH < (CMessageHeader.deserialize hb).nMessageSize.toNat := Or.inr (by omega)
      have hok : headerOk magic r'.hdr = false := by simp [headerOk, r', hs]
      simp only [hb, hm, bne_self_eq_false, Bool.false_eq_true, if_false, hsize, if_true, hok, r']
      rfl
  · have hok : headerOk magic r'.hdr = false := by simp [headerOk, r', hm]
    have hne : ((CMessageHeader.deserialize hb).pchMessageStart != magic) = true := by simpa using hm
    simp only [hb, hne, if_true, hok, Bool.false_eq_true, if_false, r']
    rfl

/-- `ReceivedBytes` inside a payload: it takes what the payload still lacks, or all of `x`. -/
theorem receivedBytes_data {r : RecvState} {x : Bytes} (hin : r.in_data = true) :
    let c := min (r.hdr.nMessageSize.toNat - r.vRecv.length) x.length
    r.receivedBytes magic x =
      (true, { r with hasher := r.hasher ++ x.take c, vRecv := r.vRecv ++ x.take c }, x.drop c) := by
  simp [receivedBytes, hin, readData]

/-- `GetReceivedMessage` decides as `frameMessage` does, and resets the receiver. -/
theorem getReceivedMessage_spec (hash256 : Bytes → Uint256) (time : Int) (r : RecvState) (hh : r.hasher = r.vRecv) :
    (r.getReceivedMessage hash256 time).2.2 = r.reset ∧
      frameMessage hash256 time (r.hdr, r.vRecv) =
        if (r.getReceivedMessage hash256 time).2.1 then none else some (r.getReceivedMessage hash256 time).1 := by
  refine ⟨rfl, ?_⟩
  simp only [frameMessage, getReceivedMessage, hh]
  by_cases hc : encodeLE CHECKSUM_SIZE (hash256 r.vRecv).toNat = r.hdr.pchChecksum.toList <;>
    cases r.hdr.isCommandValid <;> simp [hc]

theorem decodeFrames_pending {r : RecvState} (hwf : r.WF magic) : decodeFrames magic r.pending = ([], true, r.pending) := by
  rcases hwf with ⟨_, hlen, hv, _⟩ | ⟨_, hlen, hhdr, hok, hv, _⟩
  · exact decodeFrames_short magic (by simp [pending, hv, hlen])
  · rw [decodeFrames, dif_neg (by simp [pending]; omega)]
    simp only [pending, CMessageHeader.deserialize_append _ hlen.ge, ← hhdr, hok, Bool.not_true,
      Bool.false_eq_true, if_false]
    rw [dif_pos (by simp; omega)]

end RecvState

/-- The decoder on a complete header `hb` and what follows it. -/
theorem decodeFrames_header (magic : MessageStartChars) {hb : Bytes} (y : Bytes) (hlen : hb.length = HEADER_SIZE) :
    let hdr := CMessageHeader.deserialize hb
    decodeFrames magic (hb ++ y) =
      if headerOk magic hdr then
        if y.length < hdr.nMessageSize.toNat then ([], true, hb ++ y)
        else ((hdr, y.take hdr.nMessageSize.toNat) :: (decodeFrames magic (y.drop hdr.nMessageSize.toNat)).1,
          (decodeFrames magic (y.drop hdr.nMessageSize.toNat)).2)
      else ([], false, []) := by
  intro hdr
  rw [decodeFrames, dif_neg (by simp; omega)]
  simp only [CMessageHeader.deserialize_append _ hlen.ge]
  by_cases hok : headerOk magic hdr
  · simp only [hok, Bool.not_true, Bool.false_eq_true, if_false, if_true, hdr]
    by_cases hs : y.length < (CMessageHeader.deserialize hb).nMessageSize.toNat
    · rw [dif_pos (by simp; omega), if_pos hs]
    · rw [dif_neg (by simp; omega), if_neg hs, slice, List.drop_append_of_le_length hlen.ge,
        List.drop_eq_nil_of_le hlen.le, List.nil_append, Nat.add_sub_cancel_left,
        List.drop_append, List.drop_eq_nil_of_le (by omega), List.nil_append, hlen,
        Nat.add_sub_cancel_left]
  · have hbad : headerOk magic (CMessageHeader.deserialize hb) = false := by simpa [hdr] using hok
    simp only [hdr, hbad, Bool.not_false, if_true, Bool.false_eq_true, if_false]

section Loop
variable (hash256 : Bytes → Uint256) (time : Int)

/-- What the loop of `ReceiveMsgBytes` returns from `node` fed `x`, in terms of the decoder. -/
def LoopResult (node : CNode) (x : Bytes) (complete : Bool) (res : Option (Bool × Bool × CNode)) : Prop :=
  let d := decodeFrames node.m_transport.m_magic_bytes (node.m_transport.recv.pending ++ x)
  ∃ r, res = some (d.2.1, complete || !(deliver hash256 time d.1).isEmpty,
      { node with m_transport.recv := r, vRecvMsg := node.vRecvMsg ++ deliver hash256 time d.1 }) ∧
    r.WF node.m_transport.m_magic_bytes ∧ r.pending = d.2.2

variable {hash256 time}

/-- One pass of the loop, with the results of `ReceivedBytes` and `GetReceivedMessage` taken apart. -/
theorem receiveLoop_succ_cons (fuel : Nat) (node : CNode) (b : UInt8) (bs : Bytes) (complete : Bool) :
    receiveLoop hash256 time (fuel + 1) node (b :: bs) complete =
      let p := node.m_transport.recv.receivedBytes node.m_transport.m_magic_bytes (b :: bs)
      if p.1 then
        if p.2.1.receivedMessageComplete then
          let g := p.2.1.getReceivedMessage hash256 time
          if g.2.1 then receiveLoop hash256 time fuel { node with m_transport.recv := g.2.2 } p.2.2 complete
          else receiveLoop hash256 time fuel { node with m_transport.recv := g.2.2, vRecvMsg := node.vRecvMsg ++ [g.1] }
            p.2.2 true
        else receiveLoop hash256 time fuel { node with m_transport.recv := p.2.1 } p.2.2 complete
      else some (false, complete, { node with m_transport.recv := p.2.1 }) := by
  simp only [receiveLoop]
  generalize node.m_transport.recv.receivedBytes node.m_transport.m_magic_bytes (b :: bs) = p
  obtain ⟨ok, r, rest⟩ := p
  cases ok <;> rfl

/-- A complete frame handed on, or dropped, and then the loop on the rest of the bytes. -/
theorem loopResult_complete {fuel : Nat} {node : CNode} {r : RecvState} {rest : Bytes} {complete : Bool}
    (ih : ∀ node' complete', node'.m_transport.recv.WF node'.m_transport.m_magic_bytes →
      LoopResult hash256 time node' rest complete' (receiveLoop hash256 time fuel node' rest complete'))
    (hh : r.hasher = r.vRecv) :
    let d := decodeFrames node.m_transport.m_magic_bytes rest
    ∃ r', (if (r.getReceivedMessage hash256 time).2.1 then
          receiveLoop hash256 time fuel { node with m_transport.recv := (r.getReceivedMessage hash256 time).2.2 } rest complete
        else receiveLoop hash256 time fuel { node with m_transport.recv := (r.getReceivedMessage hash256 time).2.2,
                                                       vRecvMsg := node.vRecvMsg ++ [(r.getReceivedMessage hash256 time).1] }
          rest true) =
      some (d.2.1, complete || !(deliver hash256 time ((r.hdr, r.vRecv) :: d.1)).isEmpty,
        { node with m_transport.recv := r', vRecvMsg := node.vRecvMsg ++ deliver hash256 time ((r.hdr, r.vRecv) :: d.1) }) ∧
      r'.WF node.m_transport.m_magic_bytes ∧ r'.pending = d.2.2 := by
  intro d
  obtain ⟨hreset, hmsg⟩ := RecvState.getReceivedMessage_spec hash256 time r hh
  generalize r.getReceivedMessage hash256 time = g at hreset hmsg ⊢
  obtain ⟨msg, rej, r₁⟩ := g
  simp only at hreset hmsg ⊢
  subst hreset
  cases rej
  · -- handed on
    obtain ⟨r', hres, hwf, hpen⟩ := ih { node with m_transport.recv := r.reset, vRecvMsg := node.vRecvMsg ++ [msg] } true
      (RecvState.wf_reset r)
    simp only [RecvState.pending_reset, List.nil_append] at hres hpen
    refine ⟨r', ?_, hwf, hpen⟩
    simp only [Bool.false_eq_true, if_false] at hmsg ⊢
    rw [hres]
    simp [deliver, hmsg, d]
  · -- rejected
    obtain ⟨r', hres, hwf, hpen⟩ := ih { node with m_transport.recv := r.reset } complete (RecvState.wf_reset r)
    simp only [RecvState.pending_reset, List.nil_append] at hres hpen
    refine ⟨r', ?_, hwf, hpen⟩
    simp only [if_true] at hmsg ⊢
    rw [hres]
    simp [deliver, hmsg, d]

section Pass
variable {fuel : Nat} {node : CNode} {b : UInt8} {bs : Bytes} {complete : Bool} {r₁ : RecvState} {rest : Bytes}

/-- A pass that takes bytes without completing a frame: the loop goes on from the new state, which
holds the same bytes of the stream. -/
theorem loopResult_continue
    (ih : ∀ node' complete', node'.m_transport.recv.WF node'.m_transport.m_magic_bytes →
      LoopResult hash256 time node' rest complete' (receiveLoop hash256 time fuel node' rest complete'))
    (hrb : node.m_transport.recv.receivedBytes node.m_transport.m_magic_bytes (b :: bs) = (true, r₁, rest))
    (hcomp : r₁.receivedMessageComplete = false) (hwf : r₁.WF node.m_transport.m_magic_bytes)
    (hbytes : r₁.pending ++ rest = node.m_transport.recv.pending ++ b :: bs) :
    LoopResult hash256 time node (b :: bs) complete (receiveLoop hash256 time (fuel + 1) node (b :: bs) complete) := by
  rw [receiveLoop_succ_cons]
  simp only [hrb, hcomp, if_true, Bool.false_eq_true, if_false]
  obtain ⟨r', hres, hwf', hpen⟩ := ih { node with m_transport.recv := r₁ } complete hwf
  simp only [hbytes] at hres hpen
  exact ⟨r', hres, hwf', hpen⟩

/-- A pass that completes a frame: it is handed on or dropped, and the loop goes on with the rest. -/
theorem loopResult_deliver
    (ih : ∀ node' complete', node'.m_transport.recv.WF node'.m_transport.m_magic_bytes →
      LoopResult hash256 time node' rest complete' (receiveLoop hash256 time fuel node' rest complete'))
    (hrb : node.m_transport.recv.receivedBytes node.m_transport.m_magic_bytes (b :: bs) = (true, r₁, rest))
    (hcomp : r₁.receivedMessageComplete = true) (hh : r₁.hasher = r₁.vRecv)
    (hdec : decodeFrames node.m_transport.m_magic_bytes (node.m_transport.recv.pending ++ b :: bs) =
      ((r₁.hdr, r₁.vRecv) :: (decodeFrames node.m_transport.m_magic_bytes rest).1,
        (decodeFrames node.m_transport.m_magic_bytes rest).2)) :
    LoopResult hash256 time node (b :: bs) complete (receiveLoop hash256 time (fuel + 1) node (b :: bs) complete) := by
  rw [receiveLoop_succ_cons]
  simp only [hrb, hcomp, if_true]
  unfold LoopResult
  rw [hdec]
  exact loopResult_complete ih hh

/-- A pass that completes a header `readHeader` refuses: the loop stops, asking for a disconnect. -/
theorem loopResult_refuse {x : Bytes}
    (hrb : node.m_transport.recv.receivedBytes node.m_transport.m_magic_bytes (b :: bs) = (false, r₁, x))
    (hwf : r₁.WF node.m_transport.m_magic_bytes) (hpen : r₁.pending = [])
    (hdec : decodeFrames node.m_transport.m_magic_bytes (node.m_transport.recv.pending ++ b :: bs) = ([], false, [])) :
    LoopResult hash256 time node (b :: bs) complete (receiveLoop hash256 time (fuel + 1) node (b :: bs) complete) := by
  rw [receiveLoop_succ_cons]
  simp only [hrb, Bool.false_eq_true, if_false]
  refine ⟨r₁, ?_, hwf, ?_⟩
  · rw [hdec]
    simp [deliver]
  · rw [hdec, hpen]

end Pass

/-- The loop of `ReceiveMsgBytes` refines the decoder: from a well-formed receiver, `fuel` passes
for at most `fuel` bytes hand on what `decodeFrames` reads in the held bytes followed by `x`. The
induction is on the passes; each takes at least one byte. -/
theorem receiveLoop_decodeFrames :
    ∀ (fuel : Nat) (node : CNode) (x : Bytes) (complete : Bool), x.length ≤ fuel →
      node.m_transport.recv.WF node.m_transport.m_magic_bytes →
      LoopResult hash256 time node x complete (receiveLoop hash256 time fuel node x complete)
  | _, node, [], complete, _, hwf => by
    refine ⟨node.m_transport.recv, ?_, hwf, ?_⟩
    · cases ‹Nat› <;> simp [receiveLoop, RecvState.decodeFrames_pending hwf, deliver]
    · simp [RecvState.decodeFrames_pending hwf]
  | 0, _, _ :: _, _, hx, _ => absurd hx (by simp)
  | fuel + 1, node, b :: bs, complete, hx, hwf => by
    have ih := fun x' (hx' : List.length x' ≤ fuel) node' complete' hwf' =>
      receiveLoop_decodeFrames fuel node' x' complete' hx' hwf'
    obtain ⟨⟨magic, r, snd⟩, vs, vr⟩ := node
    have hlenx : (b :: bs).length = bs.length + 1 := rfl
    rcases hwf with ⟨hin, hlen, hv, hh⟩ | ⟨hin, hlen, hhdr, hok, hv, hh⟩
    · -- inside a header
      simp only at hin hlen hv hh
      by_cases hshort : r.hdrbuf.length + (b :: bs).length < HEADER_SIZE
      · -- the bytes stay inside the header
        exact loopResult_continue (ih [] (Nat.zero_le _)) (RecvState.receivedBytes_header_short hin hshort)
          (by simp [RecvState.receivedMessageComplete, hin]) (.inl ⟨hin, by simpa using hshort, hv, hh⟩)
          (by simp [RecvState.pending, hv])
      -- the header completes
      have hfull : HEADER_SIZE ≤ r.hdrbuf.length + (b :: bs).length := Nat.le_of_not_lt hshort
      have hrb := @RecvState.receivedBytes_header_full magic _ _ hin hlen hfull
      simp only at hrb
      generalize hk : HEADER_SIZE - r.hdrbuf.length = k at hrb
      generalize hhb : r.hdrbuf ++ (b :: bs).take k = hb at hrb
      have hhblen : hb.length = HEADER_SIZE := by rw [← hhb, List.length_append, List.length_take]; omega
      have hbytes : r.pending ++ b :: bs = hb ++ (b :: bs).drop k := by
        rw [← hhb, RecvState.pending, hv, List.append_nil, List.append_assoc, List.take_append_drop]
      have hrest : ((b :: bs).drop k).length ≤ fuel := by rw [List.length_drop]; omega
      have hdec := decodeFrames_header magic ((b :: bs).drop k) hhblen
      simp only at hdec
      by_cases hgood : headerOk magic (CMessageHeader.deserialize hb)
      · rw [if_pos hgood] at hrb hdec
        by_cases hzero : (CMessageHeader.deserialize hb).nMessageSize.toNat = 0
        · -- an empty payload: the frame is complete at once
          rw [if_neg (by omega)] at hdec
          refine loopResult_deliver (ih _ hrest) hrb (by simp [RecvState.receivedMessageComplete, hv, hzero])
            (by simp [hv, hh]) ?_
          simp only [hbytes, hdec, hzero, List.take_zero, List.drop_zero, hv]
        · -- a payload follows
          refine loopResult_continue (ih _ hrest) hrb (by simp [RecvState.receivedMessageComplete, hv]; omega)
            (.inr ⟨rfl, hhblen, rfl, hgood, by simp [hv]; omega, by simp [hv, hh]⟩) ?_
          simp only [RecvState.pending, hv, List.append_nil] at hbytes ⊢
          exact hbytes.symm
      · -- a refused header: the peer is dropped
        rw [if_neg hgood] at hrb hdec
        exact loopResult_refuse hrb (RecvState.wf_reset _) rfl (by simp only [hbytes, hdec])
    · -- inside a payload
      simp only at hin hlen hhdr hok hv hh
      have hrb := @RecvState.receivedBytes_data magic _ (b :: bs) hin
      simp only at hrb
      generalize hc : min (r.hdr.nMessageSize.toNat - r.vRecv.length) (b :: bs).length = c at hrb
      have hdec := decodeFrames_header magic (r.vRecv ++ b :: bs) hlen
      simp only at hdec
      rw [← hhdr, if_pos hok] at hdec
      have hbytes : r.pending ++ b :: bs = r.hdrbuf ++ (r.vRecv ++ b :: bs) := by simp [RecvState.pending]
      have hpos : 0 < c := by rw [← hc]; simp; omega
      have hrest : ((b :: bs).drop c).length ≤ fuel := by rw [List.length_drop]; omega
      by_cases hdone : r.vRecv.length + (b :: bs).length < r.hdr.nMessageSize.toNat
      · -- the payload is still incomplete: all bytes are taken
        have hcl : c = (b :: bs).length := by omega
        rw [hcl, List.take_length, List.drop_length] at hrb
        refine loopResult_continue (ih [] (Nat.zero_le _)) hrb
          (by simp [RecvState.receivedMessageComplete, hin]; omega)
          (.inr ⟨hin, hlen, hhdr, hok, by simp; omega, by simp [hh]⟩) ?_
        simp [RecvState.pending]
      · -- the payload completes
        have hcl : c = r.hdr.nMessageSize.toNat - r.vRecv.length := by omega
        have htake : (r.vRecv ++ b :: bs).take r.hdr.nMessageSize.toNat = r.vRecv ++ (b :: bs).take c := by
          rw [List.take_append, hcl, List.take_of_length_le (by omega)]
        have hdrop : (r.vRecv ++ b :: bs).drop r.hdr.nMessageSize.toNat = (b :: bs).drop c := by
          rw [List.drop_append, hcl, List.drop_eq_nil_of_le (by omega), List.nil_append]
        rw [if_neg (by simp; omega), htake, hdrop] at hdec
        refine loopResult_deliver (ih _ hrest) hrb ?_ (by simp [hh]) (by rw [hbytes, hdec])
        simp only [RecvState.receivedMessageComplete, hin, Bool.true_and, beq_iff_eq, List.length_append,
          List.length_take]
        omega

/-- `CNode::ReceiveMsgBytes` on a well-formed receiver: for any bytes `msg_bytes`, it keeps the
peer exactly when `decodeFrames` finds no refused header in the held bytes followed by
`msg_bytes`, hands on the messages of the complete frames it finds, sets `complete` when it
hands on any, and holds the bytes of the incomplete last frame. -/
theorem receiveMsgBytes_decodeFrames (node : CNode) (msg_bytes : Bytes)
    (hwf : node.m_transport.recv.WF node.m_transport.m_magic_bytes) :
    LoopResult hash256 time node msg_bytes false (receiveMsgBytes hash256 time node msg_bytes) :=
  receiveLoop_decodeFrames _ node msg_bytes false le_rfl hwf

/-- A fresh node fed the frame of a `ping` with a two-byte payload. -/
theorem receiveMsgBytes_decodeFrames_ping :
    (CNode.make #v[0x70, 0x35, 0x22, 0x05]).m_transport.recv.WF #v[0x70, 0x35, 0x22, 0x05] ∧
      LoopResult (fun _ => 0) 0 (CNode.make #v[0x70, 0x35, 0x22, 0x05])
        (frame (fun _ => 0) #v[0x70, 0x35, 0x22, 0x05] ⟨[1, 2], [0x70, 0x69, 0x6e, 0x67]⟩) false
        (receiveMsgBytes (fun _ => 0) 0 (CNode.make #v[0x70, 0x35, 0x22, 0x05])
          (frame (fun _ => 0) #v[0x70, 0x35, 0x22, 0x05] ⟨[1, 2], [0x70, 0x69, 0x6e, 0x67]⟩)) :=
  ⟨RecvState.wf_reset _, receiveMsgBytes_decodeFrames _ _ (RecvState.wf_reset _)⟩

end Loop

end BlackcoinMore.Net
