import BlackcoinMore.Serialize

/-! The wire format reads back what it writes: the fixed-width integers, CompactSize within
`MAX_SIZE`, byte vectors and vectors, and Blackcoin's transaction in both of its formats.
The basic format drops the witness stacks; a reader meeting the flags byte takes only the
witness flag, and only with a stack that is not empty. -/
namespace BlackcoinMore.Primitives

/-- An input as the basic format carries it. -/
def CTxIn.withoutWitness (txin : CTxIn) : CTxIn := { txin with scriptWitness := [] }

def CTransaction.withoutWitness (tx : CTransaction) : CTransaction :=
  { tx with vin := tx.vin.map CTxIn.withoutWitness }

theorem CTransaction.withoutWitness_of_hasWitness {tx : CTransaction} (h : tx.hasWitness = false) :
    tx.withoutWitness = tx := by
  have hempty : ∀ txin ∈ tx.vin, txin.withoutWitness = txin := by
    intro txin hin
    have : txin.scriptWitness = [] := by
      simpa [CTransaction.hasWitness] using List.any_eq_false.mp h txin hin
    simp [CTxIn.withoutWitness, ← this]
  simp [CTransaction.withoutWitness, List.map_congr_left hempty]

end BlackcoinMore.Primitives

namespace BlackcoinMore.Serialize
open Primitives ByteCodec

section Fields

theorem serReaddata8_ser (v : UInt8) (rest : Bytes) :
    serReaddata8 (serWritedata8 v ++ rest) = .ok (v, rest) := rfl

theorem serReaddata16_ser {v : Nat} (hv : v < 2 ^ 16) (rest : Bytes) :
    serReaddata16 (serWritedata16 v ++ rest) = .ok (v, rest) := by
  unfold serReaddata16 serWritedata16
  rw [bind_of_ok (readBytes_encodeLE 2 v rest), decodeLE_encodeLE, Nat.mod_eq_of_lt (by omega)]
  rfl

theorem serReaddata32_ser (v : UInt32) (rest : Bytes) :
    serReaddata32 (serWritedata32 v ++ rest) = .ok (v, rest) := by
  unfold serReaddata32 serWritedata32
  rw [bind_of_ok (readBytes_encodeLE 4 v.toNat rest), decodeLE_encodeLE,
    Nat.mod_eq_of_lt (v.toNat_lt.trans_eq (by norm_num))]
  show Except.ok (UInt32.ofNat v.toNat, rest) = _
  rw [UInt32.ofNat_toNat]

theorem serReaddata64_ser (v : UInt64) (rest : Bytes) :
    serReaddata64 (serWritedata64 v ++ rest) = .ok (v, rest) := by
  unfold serReaddata64 serWritedata64
  rw [bind_of_ok (readBytes_encodeLE 8 v.toNat rest), decodeLE_encodeLE,
    Nat.mod_eq_of_lt (v.toNat_lt.trans_eq (by norm_num))]
  show Except.ok (UInt64.ofNat v.toNat, rest) = _
  rw [UInt64.ofNat_toNat]

/-- The range check of `ReadCompactSize`, on the value it has read. -/
theorem rangeCheck_run (range_check : Bool) (v : Nat) (rest : Bytes) :
    (if (range_check && decide (MAX_SIZE < v)) = true then do
        throw "ReadCompactSize(): size too large"
        pure v
      else (pure v : Reader Nat)) rest =
      if (range_check && decide (MAX_SIZE < v)) = true then .error "ReadCompactSize(): size too large"
      else .ok (v, rest) := by
  split <;> rfl

/-- Each of the four widths reads back canonically, so no "non-canonical" error: only the range
check can refuse the value. -/
theorem readCompactSize_writeCompactSize_eq {n : Nat} (range_check : Bool) (hn : n < 2 ^ 64) (rest : Bytes) :
    readCompactSize range_check (writeCompactSize n ++ rest) =
      if range_check && decide (MAX_SIZE < n) then .error "ReadCompactSize(): size too large"
      else .ok (n, rest) := by
  unfold writeCompactSize readCompactSize
  by_cases h1 : n < 253
  · have hb : n.toUInt8.toNat = n := UInt8.toNat_ofNat_of_lt' (show n < 256 by omega)
    have hlt : n.toUInt8 < 253 := by
      rw [UInt8.lt_iff_toNat_lt, hb]
      exact h1
    rw [if_pos h1, bind_of_ok (serReaddata8_ser _ rest), if_pos hlt, bind_of_ok (run_pure _ rest), hb]
    exact rangeCheck_run range_check n rest
  rw [if_neg h1]
  by_cases h2 : n ≤ 0xffff
  · rw [if_pos h2, List.append_assoc, bind_of_ok (serReaddata8_ser _ _), if_neg (by decide), if_pos (by decide),
      bind_of_ok (serReaddata16_ser (by omega) rest), if_neg (by omega), bind_of_ok (run_pure _ rest)]
    exact rangeCheck_run range_check n rest
  rw [if_neg h2]
  by_cases h3 : n ≤ 0xffffffff
  · have hb : n.toUInt32.toNat = n := UInt32.toNat_ofNat_of_lt' (show n < 2 ^ 32 by omega)
    rw [if_pos h3, List.append_assoc, bind_of_ok (serReaddata8_ser _ _), if_neg (by decide), if_neg (by decide),
      if_pos (by decide), bind_of_ok (serReaddata32_ser _ rest), hb, if_neg (by omega),
      bind_of_ok (run_pure _ rest)]
    exact rangeCheck_run range_check n rest
  · have hb : n.toUInt64.toNat = n := UInt64.toNat_ofNat_of_lt' (show n < 2 ^ 64 by omega)
    rw [if_neg h3, List.append_assoc, bind_of_ok (serReaddata8_ser _ _), if_neg (by decide), if_neg (by decide),
      if_neg (by decide), bind_of_ok (serReaddata64_ser _ rest), hb, if_neg (by omega),
      bind_of_ok (run_pure _ rest)]
    exact rangeCheck_run range_check n rest

theorem readCompactSize_writeCompactSize {n : Nat} (range_check : Bool) (hn : n < 2 ^ 64)
    (hr : range_check = true → n ≤ MAX_SIZE) (rest : Bytes) :
    readCompactSize range_check (writeCompactSize n ++ rest) = .ok (n, rest) := by
  have hcheck : (range_check && decide (MAX_SIZE < n)) = false := by
    cases range_check
    · rfl
    · simpa using hr rfl
  rw [readCompactSize_writeCompactSize_eq range_check hn rest, hcheck, if_neg Bool.false_ne_true]

theorem readCompactSize_ser {n : Nat} (hn : n ≤ MAX_SIZE) (rest : Bytes) :
    readCompactSize true (writeCompactSize n ++ rest) = .ok (n, rest) :=
  readCompactSize_writeCompactSize true (by unfold MAX_SIZE at hn; omega) (fun _ => hn) rest

theorem serReaddata16_eq_ok {s t : Bytes} {v : Nat} (h : serReaddata16 s = .ok (v, t)) :
    s = serWritedata16 v ++ t ∧ v < 2 ^ 16 := by
  obtain ⟨bs, s₁, hbs, h⟩ := run_bind_eq_ok h
  cases h
  obtain ⟨rfl, hlen⟩ := readBytes_eq_ok hbs
  have hlt := decodeLE_lt bs
  rw [hlen] at hlt
  exact ⟨by rw [serWritedata16, ← hlen, encodeLE_decodeLE], by omega⟩

theorem serReaddata32_eq_ok {s t : Bytes} {v : UInt32} (h : serReaddata32 s = .ok (v, t)) :
    s = serWritedata32 v ++ t := by
  obtain ⟨bs, s₁, hbs, h⟩ := run_bind_eq_ok h
  cases h
  obtain ⟨rfl, hlen⟩ := readBytes_eq_ok hbs
  have hlt := decodeLE_lt bs
  rw [hlen] at hlt
  rw [serWritedata32, UInt32.toNat_ofNat_of_lt' (by omega), ← hlen, encodeLE_decodeLE]

theorem serReaddata64_eq_ok {s t : Bytes} {v : UInt64} (h : serReaddata64 s = .ok (v, t)) :
    s = serWritedata64 v ++ t := by
  obtain ⟨bs, s₁, hbs, h⟩ := run_bind_eq_ok h
  cases h
  obtain ⟨rfl, hlen⟩ := readBytes_eq_ok hbs
  have hlt := decodeLE_lt bs
  rw [hlen] at hlt
  rw [serWritedata64, UInt64.toNat_ofNat_of_lt' (by omega), ← hlen, encodeLE_decodeLE]

theorem rangeCheck_eq_ok {range_check : Bool} {v n : Nat} {s rest : Bytes}
    (h : (if (range_check && decide (MAX_SIZE < v)) = true then do
        throw "ReadCompactSize(): size too large"
        pure v
      else (pure v : Reader Nat)) s = .ok (n, rest)) : v = n ∧ s = rest := by
  rw [rangeCheck_run] at h
  split at h
  · cases h
  · cases h
    exact ⟨rfl, rfl⟩

/-- Every string `ReadCompactSize` accepts starts with the writer's encoding of the value it
returns: a 253, 254 or 255 form of a value that a shorter form holds is refused. -/
theorem writeCompactSize_of_readCompactSize {range_check : Bool} {s rest : Bytes} {n : Nat}
    (h : readCompactSize range_check s = .ok (n, rest)) : s = writeCompactSize n ++ rest := by
  unfold readCompactSize at h
  obtain ⟨chSize, s₁, h8, h⟩ := run_bind_eq_ok h
  rw [readByte_eq_ok h8]
  dsimp only at h
  by_cases c1 : chSize < 253
  · rw [if_pos c1] at h
    obtain ⟨v, s₂, hv, h⟩ := run_bind_eq_ok h
    cases hv
    obtain ⟨rfl, rfl⟩ := rangeCheck_eq_ok h
    have hlt : chSize.toNat < 253 := UInt8.lt_iff_toNat_lt.mp c1
    rw [writeCompactSize, if_pos hlt, serWritedata8]
    simp [Nat.toUInt8]
  rw [if_neg c1] at h
  by_cases c2 : chSize = 253
  · subst c2
    rw [if_pos (by decide)] at h
    obtain ⟨w, s₃, h16, h⟩ := run_bind_eq_ok h
    split at h
    · obtain ⟨_, _, h, -⟩ := run_bind_eq_ok h
      cases h
    obtain ⟨v, s₂, hv, h⟩ := run_bind_eq_ok h
    cases hv
    obtain ⟨rfl, rfl⟩ := rangeCheck_eq_ok h
    obtain ⟨rfl, hw⟩ := serReaddata16_eq_ok h16
    rw [writeCompactSize, if_neg (by omega), if_pos (by omega)]
    rfl
  rw [if_neg (by simpa using c2)] at h
  by_cases c3 : chSize = 254
  · subst c3
    rw [if_pos (by decide)] at h
    obtain ⟨w, s₃, h32, h⟩ := run_bind_eq_ok h
    split at h
    · obtain ⟨_, _, h, -⟩ := run_bind_eq_ok h
      cases h
    obtain ⟨v, s₂, hv, h⟩ := run_bind_eq_ok h
    cases hv
    obtain ⟨rfl, rfl⟩ := rangeCheck_eq_ok h
    have hw := w.toNat_lt
    rw [serReaddata32_eq_ok h32, writeCompactSize, if_neg (by omega), if_neg (by omega), if_pos (by omega)]
    simp [Nat.toUInt32, serWritedata8]
  rw [if_neg (by simpa using c3)] at h
  have c4 : chSize = 255 := by
    have := chSize.toNat_lt
    have h253 : 253 ≤ chSize.toNat := by simpa [UInt8.lt_iff_toNat_lt] using c1
    have h2 : chSize.toNat ≠ 253 := fun e => c2 (UInt8.toNat_inj.mp e)
    have h3 : chSize.toNat ≠ 254 := fun e => c3 (UInt8.toNat_inj.mp e)
    exact UInt8.toNat_inj.mp (by simp; omega)
  subst c4
  obtain ⟨w, s₃, h64, h⟩ := run_bind_eq_ok h
  split at h
  · obtain ⟨_, _, h, -⟩ := run_bind_eq_ok h
    cases h
  obtain ⟨v, s₂, hv, h⟩ := run_bind_eq_ok h
  cases hv
  obtain ⟨rfl, rfl⟩ := rangeCheck_eq_ok h
  have hw := w.toNat_lt
  rw [serReaddata64_eq_ok h64, writeCompactSize, if_neg (by omega), if_neg (by omega), if_neg (by omega)]
  simp [Nat.toUInt64, serWritedata8]

theorem length_writeCompactSize (n : Nat) : (writeCompactSize n).length = getSizeOfCompactSize n := by
  unfold writeCompactSize getSizeOfCompactSize serWritedata8 serWritedata16 serWritedata32 serWritedata64
  split_ifs <;> simp

/-- CompactSize is canonical: a 64-bit value reads back from its encoding of
`GetSizeOfCompactSize` bytes, the range check refuses exactly the values above `MAX_SIZE`, and
every string the reader accepts is the encoding of the value it returns. -/
theorem compactSize_canonical :
    (∀ (n : UInt64) (rest : Bytes),
      readCompactSize false (writeCompactSize n.toNat ++ rest) = .ok (n.toNat, rest) ∧
      (writeCompactSize n.toNat).length = getSizeOfCompactSize n.toNat ∧
      readCompactSize true (writeCompactSize n.toNat ++ rest) =
        if n.toNat ≤ MAX_SIZE then .ok (n.toNat, rest) else .error "ReadCompactSize(): size too large") ∧
    (∀ (range_check : Bool) (s rest : Bytes) (n : Nat),
      readCompactSize range_check s = .ok (n, rest) → s = writeCompactSize n ++ rest) := by
  refine ⟨fun n rest => ⟨?_, length_writeCompactSize _, ?_⟩,
    fun _ _ _ _ h => writeCompactSize_of_readCompactSize h⟩
  · rw [readCompactSize_writeCompactSize_eq false n.toNat_lt rest]
    rfl
  · rw [readCompactSize_writeCompactSize_eq true n.toNat_lt rest]
    by_cases hn : n.toNat ≤ MAX_SIZE
    · simp [hn]
    · simp [hn, Nat.lt_of_not_le hn]

theorem unserializeBytes_ser {v : Bytes} (hv : v.length ≤ MAX_SIZE) (rest : Bytes) :
    unserializeBytes (serializeBytes v ++ rest) = .ok (v, rest) := by
  unfold unserializeBytes serializeBytes
  rw [List.append_assoc, bind_of_ok (readCompactSize_ser hv _), readBytes_append]

theorem unserializeVector_ser {α β : Type} {unser : Reader β} {ser : α → Bytes} (g : α → β)
    {v : List α} (hv : v.length ≤ MAX_SIZE) (hel : ∀ a ∈ v, ∀ rest, unser (ser a ++ rest) = .ok (g a, rest))
    (rest : Bytes) : unserializeVector unser (serializeVector ser v ++ rest) = .ok (v.map g, rest) := by
  unfold unserializeVector serializeVector
  rw [List.append_assoc, bind_of_ok (readCompactSize_ser hv _), readCount_flatten g v hel]

/-- The dummy of the extended format: a vector read as empty. -/
theorem unserializeVector_zero {α : Type} (unser : Reader α) (s : Bytes) :
    unserializeVector unser (0 :: s) = .ok ([], s) := rfl

theorem unserializeUint256_ser (h : Uint256) (rest : Bytes) :
    unserializeUint256 (serializeUint256 h ++ rest) = .ok (h, rest) := by
  unfold unserializeUint256 serializeUint256
  rw [bind_of_ok (readBytes_encodeLE 32 h.toNat rest), decodeLE_encodeLE,
    Nat.mod_eq_of_lt (h.isLt.trans_eq (by norm_num)), BitVec.ofNat_toNat, BitVec.setWidth_eq]
  rfl

theorem unserializeOutPoint_ser (o : COutPoint) (rest : Bytes) :
    unserializeOutPoint (serializeOutPoint o ++ rest) = .ok (o, rest) := by
  unfold unserializeOutPoint serializeOutPoint
  rw [List.append_assoc, bind_of_ok (unserializeUint256_ser _ _), bind_of_ok (serReaddata32_ser _ rest)]
  rfl

theorem unserializeTxIn_ser {txin : CTxIn} (hs : txin.scriptSig.length ≤ MAX_SIZE) (rest : Bytes) :
    unserializeTxIn (serializeTxIn txin ++ rest) = .ok (txin.withoutWitness, rest) := by
  unfold unserializeTxIn serializeTxIn
  rw [List.append_assoc, List.append_assoc, bind_of_ok (unserializeOutPoint_ser _ _),
    bind_of_ok (unserializeBytes_ser hs _), bind_of_ok (serReaddata32_ser _ rest)]
  rfl

theorem unserializeTxOut_ser {out : CTxOut} (hs : out.scriptPubKey.length ≤ MAX_SIZE) (rest : Bytes) :
    unserializeTxOut (serializeTxOut out ++ rest) = .ok (out, rest) := by
  unfold unserializeTxOut serializeTxOut
  rw [List.append_assoc, bind_of_ok (serReaddata64_ser _ _), bind_of_ok (unserializeBytes_ser hs rest),
    Int64.toInt64_toUInt64]
  rfl

/-- The stacks, one after another, go back into the inputs they were written from. -/
theorem readWitnesses_ser : ∀ {vin : List CTxIn}, (∀ txin ∈ vin, txin.scriptWitness.length ≤ MAX_SIZE) →
    (∀ txin ∈ vin, ∀ item ∈ txin.scriptWitness, item.length ≤ MAX_SIZE) → ∀ rest : Bytes,
    readWitnesses (vin.map CTxIn.withoutWitness)
      ((vin.map fun txin => serializeVector serializeBytes txin.scriptWitness).flatten ++ rest) = .ok (vin, rest)
  | [], _, _, _ => rfl
  | txin :: vin, hstack, hitem, rest => by
    simp only [List.map_cons, List.flatten_cons, List.append_assoc, readWitnesses]
    rw [bind_of_ok (unserializeVector_ser id (hstack txin (by simp))
        (fun item h rest => unserializeBytes_ser (hitem txin (by simp) item h) rest) _), List.map_id,
      bind_of_ok (readWitnesses_ser (fun t h => hstack t (by simp [h])) (fun t h => hitem t (by simp [h])) rest)]
    rfl

end Fields

/-- Every length the wire format writes of a transaction fits `MAX_SIZE`, the bound
`ReadCompactSize` reads lengths under. -/
structure WithinMaxSize (tx : CTransaction) : Prop where
  vin : tx.vin.length ≤ MAX_SIZE
  vout : tx.vout.length ≤ MAX_SIZE
  scriptSig : ∀ txin ∈ tx.vin, txin.scriptSig.length ≤ MAX_SIZE
  stack : ∀ txin ∈ tx.vin, txin.scriptWitness.length ≤ MAX_SIZE
  item : ∀ txin ∈ tx.vin, ∀ item ∈ txin.scriptWitness, item.length ≤ MAX_SIZE
  scriptPubKey : ∀ out ∈ tx.vout, out.scriptPubKey.length ≤ MAX_SIZE

section Transaction

/-- `nTime`, on the wire only when `nVersion < 2`, reads back as written; the reader's
continuation `K` stands in both branches of the `if`. -/
theorem readTime_ser {β : Type} {c : Prop} [Decidable c] {t : UInt32} (ht : ¬c → t = 0)
    (K : UInt32 → Reader β) (s : Bytes) :
    (if c then serReaddata32 >>= K else pure 0 >>= K) ((if c then serWritedata32 t else []) ++ s) = K t s := by
  by_cases hc : c
  · rw [if_pos hc, if_pos hc, bind_of_ok (serReaddata32_ser t s)]
  · rw [if_neg hc, if_neg hc, ht hc]
    rfl

theorem serReaddata32_of_length {ver : Bytes} (hver : ver.length = 4) (s : Bytes) :
    serReaddata32 (ver ++ s) = .ok ((decodeLE ver).toUInt32, s) := by
  unfold serReaddata32
  rw [← hver, bind_of_ok (readBytes_append ver s)]
  rfl

theorem readTime_of_length {β : Type} {c : Prop} [Decidable c] {time : Bytes}
    (ht : time.length = if c then 4 else 0) (K : UInt32 → Reader β) (s : Bytes) :
    ∃ t, (if c then serReaddata32 >>= K else pure 0 >>= K) (time ++ s) = K t s := by
  by_cases hc : c
  · rw [if_pos hc] at ht
    exact ⟨_, by rw [if_pos hc, bind_of_ok (serReaddata32_of_length ht s)]⟩
  · rw [if_neg hc, List.length_eq_zero_iff] at ht
    subst ht
    exact ⟨0, by rw [if_neg hc]; rfl⟩

/-- The basic format, written when there is no witness to write: a non-empty `vin` tells the
reader so. -/
theorem unserializeTransaction_ser_basic (fAllowWitness : Bool) {tx : CTransaction} (hvin : tx.vin ≠ [])
    (htime : ¬tx.nVersion < 2 → tx.nTime = 0) (hsize : WithinMaxSize tx)
    (hflags : (fAllowWitness && tx.hasWitness) = false) (rest : Bytes) :
    unserializeTransaction fAllowWitness (serializeTransaction tx fAllowWitness ++ rest) =
      .ok (tx.withoutWitness, rest) := by
  unfold serializeTransaction unserializeTransaction
  simp only [hflags, Bool.false_eq_true, if_false, bne_self_eq_false, UInt8.zero_and, List.nil_append,
    List.append_assoc]
  rw [bind_of_ok (serReaddata32_ser _ _), Int32.toInt32_toUInt32, readTime_ser htime]
  have hne : (tx.vin.map CTxIn.withoutWitness).isEmpty = false := by simpa using hvin
  rw [bind_of_ok (unserializeVector_ser CTxIn.withoutWitness hsize.vin
    (fun txin h rest => unserializeTxIn_ser (hsize.scriptSig txin h) rest) _), if_neg (by simp [hne]),
    bind_of_ok (unserializeVector_ser id hsize.vout
    (fun out h rest => unserializeTxOut_ser (hsize.scriptPubKey out h) rest) _), List.map_id]
  rw [if_neg (by simp), bind_of_ok (serReaddata32_ser _ rest)]
  rfl

/-- The extended format: the dummy, the flags byte `1`, and the stacks after the outputs. -/
theorem unserializeTransaction_ser_extended {tx : CTransaction} (htime : ¬tx.nVersion < 2 → tx.nTime = 0)
    (hsize : WithinMaxSize tx) (hw : tx.hasWitness = true) (rest : Bytes) :
    unserializeTransaction true (serializeTransaction tx true ++ rest) = .ok (tx, rest) := by
  have hflag : ((1 : UInt8) != 0) = true := rfl
  have hbit : ((1 : UInt8) &&& 1 != 0) = true := rfl
  unfold serializeTransaction unserializeTransaction
  simp only [hw, Bool.and_self, if_true, hflag, hbit, List.append_assoc]
  rw [bind_of_ok (serReaddata32_ser _ _), Int32.toInt32_toUInt32, readTime_ser htime]
  rw [bind_of_ok (unserializeVector_ser CTxIn.withoutWitness (Nat.zero_le _) (fun _ h => absurd h List.not_mem_nil) _),
    List.map_nil, if_pos (by rfl), bind_of_ok (serReaddata8_ser _ _), if_pos hflag]
  rw [bind_of_ok (unserializeVector_ser CTxIn.withoutWitness hsize.vin
    (fun txin h rest => unserializeTxIn_ser (hsize.scriptSig txin h) rest) _),
    bind_of_ok (unserializeVector_ser id hsize.vout
    (fun out h rest => unserializeTxOut_ser (hsize.scriptPubKey out h) rest) _), List.map_id]
  -- the stacks, one for each input, of which some is not empty
  have hany : (tx.vin.any fun txin => !txin.scriptWitness.isEmpty) = true := hw
  rw [if_pos (by rfl), bind_of_ok (readWitnesses_ser hsize.stack hsize.item _), hany, if_neg (by decide),
    if_neg (by decide), bind_of_ok (serReaddata32_ser _ rest)]
  rfl

/-- Once the reader has met a flags byte `f ≠ 0` after the dummy, it succeeds only on `f = 1`
and a witness that is not empty. -/
theorem unserializeTransaction_flags {ver time s rest : Bytes} {f : UInt8} {tx : CTransaction}
    (hver : ver.length = 4) (htime : time.length = if (decodeLE ver).toUInt32.toInt32 < 2 then 4 else 0)
    (hf : f ≠ 0) (h : unserializeTransaction true (ver ++ time ++ 0 :: f :: s) = .ok (tx, rest)) :
    f = 1 ∧ tx.hasWitness = true := by
  have hf' : (f != 0) = true := bne_iff_ne.mpr hf
  unfold unserializeTransaction at h
  rw [List.append_assoc, bind_of_ok (serReaddata32_of_length hver _)] at h
  obtain ⟨t, ht⟩ := readTime_of_length htime _ (0 :: f :: s)
  rw [ht] at h
  simp only at h
  rw [bind_of_ok (unserializeVector_zero _ _), if_pos (by rfl), bind_of_ok rfl, if_pos hf'] at h
  obtain ⟨vin, s1, -, h⟩ := run_bind_eq_ok h
  obtain ⟨vout, s2, -, h⟩ := run_bind_eq_ok h
  by_cases hbit : (f &&& 1 != 0) = true
  · rw [if_pos (by simp [hbit])] at h
    obtain ⟨vin', s3, -, h⟩ := run_bind_eq_ok h
    -- a witness record whose stacks are all empty is superfluous
    by_cases hany : (vin'.any fun txin => !txin.scriptWitness.isEmpty) = true
    · rw [if_neg (by simp [hany])] at h
      -- and any flag bit past the first is unknown
      by_cases hx : (f ^^^ 1 != 0) = true
      · rw [if_pos hx] at h
        cases h
      · rw [if_neg hx] at h
        obtain ⟨_, _, -, h⟩ := run_bind_eq_ok h
        rw [run_pure] at h
        cases h
        exact ⟨(UInt8.xor_left_inj 1).mp (bne_eq_false_iff_eq.mp (by simpa using hx)), hany⟩
    · rw [if_pos (by simpa using hany)] at h
      cases h
  · rw [if_neg (by simp [hbit]), if_pos hf'] at h
    cases h

/-- Under `TX_WITH_WITNESS` a transaction with an input reads back whole, in either format. -/
theorem unserializeTransaction_ser_true {tx : CTransaction} (hvin : tx.vin ≠ [])
    (htime : ¬tx.nVersion < 2 → tx.nTime = 0) (hsize : WithinMaxSize tx) (rest : Bytes) :
    unserializeTransaction true (serializeTransaction tx true ++ rest) = .ok (tx, rest) := by
  cases hw : tx.hasWitness
  · -- no witness to write: the basic format, and nothing is dropped
    have h := unserializeTransaction_ser_basic true hvin htime hsize (by simp [hw]) rest
    rwa [CTransaction.withoutWitness_of_hasWitness hw] at h
  · exact unserializeTransaction_ser_extended htime hsize hw rest

/-- `nTime` is on the wire only below version 2: the transaction with it cleared from there on
writes the same bytes. -/
theorem serializeTransaction_clearTime (tx : CTransaction) (fAllowWitness : Bool) :
    serializeTransaction { tx with nTime := if tx.nVersion < 2 then tx.nTime else 0 } fAllowWitness =
      serializeTransaction tx fAllowWitness := by
  by_cases h : tx.nVersion < 2 <;> simp [serializeTransaction, h, CTransaction.hasWitness]

/-- Any transaction with an input reads back under `TX_WITH_WITNESS`, with the `nTime` the wire
omits cleared. -/
theorem unserializeTransaction_ser_true_clearTime {tx : CTransaction} (hvin : tx.vin ≠ [])
    (hsize : WithinMaxSize tx) (rest : Bytes) :
    unserializeTransaction true (serializeTransaction tx true ++ rest) =
      .ok ({ tx with nTime := if tx.nVersion < 2 then tx.nTime else 0 }, rest) := by
  rw [← serializeTransaction_clearTime tx true]
  exact @unserializeTransaction_ser_true { tx with nTime := if tx.nVersion < 2 then tx.nTime else 0 } hvin
    (fun hv2 => if_neg hv2) ⟨hsize.vin, hsize.vout, hsize.scriptSig, hsize.stack, hsize.item, hsize.scriptPubKey⟩
    rest

/-- Two transactions with an input and one serialization with witness have one serialization
without: the reader gives both back from the same bytes, up to the `nTime` the wire omits. -/
theorem serializeTransaction_false_eq {tx tx' : CTransaction} (hvin : tx.vin ≠ []) (hvin' : tx'.vin ≠ [])
    (hsize : WithinMaxSize tx) (hsize' : WithinMaxSize tx')
    (h : serializeTransaction tx true = serializeTransaction tx' true) :
    serializeTransaction tx false = serializeTransaction tx' false := by
  have hread := unserializeTransaction_ser_true_clearTime hvin hsize []
  rw [h, unserializeTransaction_ser_true_clearTime hvin' hsize' []] at hread
  have hclear := (Prod.mk.inj (Except.ok.inj hread)).1
  rw [← serializeTransaction_clearTime tx, ← serializeTransaction_clearTime tx', hclear]

end Transaction

/-- A transaction with an input reads back from its wire format: whole under `TX_WITH_WITNESS`,
with its witness stacks empty under `TX_NO_WITNESS`; and a byte string that sets the flags byte
is rejected unless that byte is the witness flag and some stack is not empty. -/
theorem transaction_wire_roundTrip (tx : CTransaction) (hvin : tx.vin ≠ [])
    (htime : 2 ≤ tx.nVersion → tx.nTime = 0) (hsize : WithinMaxSize tx) (rest : Bytes) :
    unserializeTransaction true (serializeTransaction tx true ++ rest) = .ok (tx, rest) ∧
      unserializeTransaction false (serializeTransaction tx false ++ rest) = .ok (tx.withoutWitness, rest) ∧
      ∀ (ver time s rest' : Bytes) (f : UInt8) (tx' : CTransaction), ver.length = 4 →
        time.length = (if (decodeLE ver).toUInt32.toInt32 < 2 then 4 else 0) → f ≠ 0 →
        unserializeTransaction true (ver ++ time ++ 0 :: f :: s) = .ok (tx', rest') →
        f = 1 ∧ tx'.hasWitness = true := by
  have htime' : ¬tx.nVersion < 2 → tx.nTime = 0 := fun h => htime (Int32.not_lt.mp h)
  exact ⟨unserializeTransaction_ser_true hvin htime' hsize rest,
    unserializeTransaction_ser_basic false hvin htime' hsize rfl rest,
    fun _ _ _ _ _ _ hver ht hf h => unserializeTransaction_flags hver ht hf h⟩

/-- A version-2 spend of one output with a one-item witness, paying to an `OP_RETURN`. -/
def witnessSpend : CTransaction :=
  ⟨[⟨⟨7, 0⟩, [], 0xffffffff, [[1, 2, 3]]⟩], [⟨COIN, [OP_RETURN]⟩], 2, 0, 0⟩

theorem transaction_wire_roundTrip_witnessSpend :
    witnessSpend.vin ≠ [] ∧ (2 ≤ witnessSpend.nVersion → witnessSpend.nTime = 0) ∧
      WithinMaxSize witnessSpend ∧
      unserializeTransaction true (serializeTransaction witnessSpend true ++ []) = .ok (witnessSpend, []) ∧
      unserializeTransaction false (serializeTransaction witnessSpend false ++ []) =
        .ok (witnessSpend.withoutWitness, []) ∧
      ∀ (ver time s rest' : Bytes) (f : UInt8) (tx' : CTransaction), ver.length = 4 →
        time.length = (if (decodeLE ver).toUInt32.toInt32 < 2 then 4 else 0) → f ≠ 0 →
        unserializeTransaction true (ver ++ time ++ 0 :: f :: s) = .ok (tx', rest') →
        f = 1 ∧ tx'.hasWitness = true := by
  have hsize : WithinMaxSize witnessSpend := ⟨by decide, by decide, by decide, by decide, by decide, by decide⟩
  exact ⟨by decide, fun _ => rfl, hsize,
    transaction_wire_roundTrip witnessSpend (by decide) (fun _ => rfl) hsize []⟩

end BlackcoinMore.Serialize
