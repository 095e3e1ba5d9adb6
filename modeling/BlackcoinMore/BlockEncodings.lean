import BlackcoinMore.HeaderTime

/-! Compact blocks (BIP 152): the sender's `CBlockHeaderAndShortTxIDs`, and the receiver's
`PartiallyDownloadedBlock` with `InitData` and `FillBlock`. The SipHash of the short IDs and the
hash map's bucket test are parameters; the mempool is the list of its `(wtxid, tx)` entries. -/

namespace BlackcoinMore.Primitives

/-- `CTransaction::IsNull`. -/
def CTransaction.isNull (tx : CTransaction) : Bool := tx.vin.isEmpty && tx.vout.isEmpty

/-- `CBlockHeader::IsNull`. -/
def CBlockHeader.isNull (h : CBlockHeader) : Bool := h.nBits == 0

end BlackcoinMore.Primitives

namespace BlackcoinMore.BlockEncodings
open Primitives ByteCodec Serialize Coins ChainParams BlockChecks

inductive ReadStatus
  | READ_STATUS_OK
  | READ_STATUS_INVALID
  | READ_STATUS_FAILED
  | READ_STATUS_CHECKBLOCK_FAILED
  deriving DecidableEq, Repr

/-- The hashes behind short transaction IDs: `CSHA256` for the key, `SipHashUint256` for the IDs. -/
structure ShortIdOracles where
  sha256 : Bytes → Uint256
  sipHashUint256 : UInt64 → UInt64 → Uint256 → UInt64

/-- `CBlockHeader::SetNull`. -/
def nullHeader : CBlockHeader := ⟨0, 0, 0, 0, 0, 0, 0⟩

/-- `Wtxid`: the txid unless the transaction carries witness data. -/
def getWitnessHash (hash256 : Bytes → Uint256) (tx : CTransaction) : Uint256 :=
  if tx.hasWitness then hash256 (serializeTransaction tx true) else getHash hash256 tx

/-- `uint256::GetUint64(pos)`: the `pos`-th 64-bit little-endian word. -/
def getUint64 (u : Uint256) (pos : Nat) : UInt64 := UInt64.ofNat (u.toNat / 2 ^ (64 * pos))

structure PrefilledTransaction where
  /-- `uint16_t`: the offset from the previous prefilled transaction. -/
  index : Nat
  tx : CTransaction
  deriving DecidableEq, Repr

structure CBlockHeaderAndShortTxIDs where
  nonce : UInt64
  shorttxids : List UInt64
  prefilledtxn : List PrefilledTransaction
  header : CBlockHeader
  vchBlockSig : Bytes
  deriving DecidableEq, Repr

namespace CBlockHeaderAndShortTxIDs
variable (orc : ShortIdOracles)

/-- `FillShortTxIDSelector`: the SipHash key from the header, without `nFlags`, and the nonce. -/
def shortTxIdKeys (c : CBlockHeaderAndShortTxIDs) : UInt64 × UInt64 :=
  let shorttxidhash := orc.sha256 (serializeBlockHeader c.header false ++ serWritedata64 c.nonce)
  (getUint64 shorttxidhash 0, getUint64 shorttxidhash 1)

/-- `GetShortID`: the low 48 bits of the keyed SipHash of the witness hash. -/
def getShortID (c : CBlockHeaderAndShortTxIDs) (txhash : Uint256) : UInt64 :=
  orc.sipHashUint256 (c.shortTxIdKeys orc).1 (c.shortTxIdKeys orc).2 txhash &&& 0xffffffffffff

def blockTxCount (c : CBlockHeaderAndShortTxIDs) : Nat := c.shorttxids.length + c.prefilledtxn.length

/-- The constructor from a block: the coinbase prefilled at index 0, a short ID for each other
transaction. -/
def make (hash256 : Bytes → Uint256) (block : CBlock) (nonce : UInt64) : CBlockHeaderAndShortTxIDs :=
  let c : CBlockHeaderAndShortTxIDs :=
    ⟨nonce, [], [], { block.toCBlockHeader with nFlags := block.nFlags }, block.vchBlockSig⟩
  match block.vtx with
  | [] => c
  | tx0 :: rest =>
    { c with
      shorttxids := rest.map fun tx => c.getShortID orc (getWitnessHash hash256 tx)
      prefilledtxn := [⟨0, tx0⟩] }

end CBlockHeaderAndShortTxIDs

def MIN_SERIALIZABLE_TRANSACTION_WEIGHT : Nat := WITNESS_SCALE_FACTOR * 10

structure PartiallyDownloadedBlock where
  txn_available : List (Option CTransaction)
  prefilled_count : Nat
  mempool_count : Nat
  extra_count : Nat
  header : CBlockHeader
  vchBlockSig : Bytes
  deriving DecidableEq, Repr

/-- A freshly constructed `PartiallyDownloadedBlock`. -/
def PartiallyDownloadedBlock.empty : PartiallyDownloadedBlock := ⟨[], 0, 0, 0, nullHeader, []⟩

/-- The loop of `InitData` over `prefilledtxn`: each index is an offset from the previous one.
On a failure the slots written so far stay written. -/
def placePrefilled (nShortIds : Nat) :
    List PrefilledTransaction → Nat → Int → List (Option CTransaction) → Bool × List (Option CTransaction)
  | [], _, _, txn_available => (true, txn_available)
  | p :: ps, i, lastprefilledindex, txn_available =>
    if p.tx.isNull then (false, txn_available)
    else
      let lastprefilledindex := lastprefilledindex + p.index + 1
      if lastprefilledindex > 65535 then (false, txn_available)
      else if lastprefilledindex.toNat > nShortIds + i then (false, txn_available)
      else placePrefilled nShortIds ps (i + 1) lastprefilledindex
        (txn_available.set lastprefilledindex.toNat (some p.tx))

/-- The inner `while` of the short ID loop: the first slot from `p` on without a transaction. -/
def nextFree (txn_available : List (Option CTransaction)) (p : Nat) : Nat :=
  if h : p < txn_available.length ∧ (txn_available.getD p none).isSome then nextFree txn_available (p + 1)
  else p
termination_by txn_available.length - p

/-- `shorttxids[key] = value` on the `unordered_map`, kept as a list of its entries. -/
def mapInsert (m : List (UInt64 × Nat)) (key : UInt64) (value : Nat) : List (UInt64 × Nat) :=
  if m.any (·.1 == key) then m.map fun e => if e.1 == key then (key, value) else e else m ++ [(key, value)]

def mapFind (m : List (UInt64 × Nat)) (key : UInt64) : Option Nat := (m.find? (·.1 == key)).map (·.2)

/-- The short ID loop of `InitData`: the `i`-th short ID gets the `i`-th slot left free by the
prefilled transactions. `overfull` is the hash map's `bucket_size(...) > 12` test, which depends
on the standard library's hashing. -/
def mapShortIds (txn_available : List (Option CTransaction)) (overfull : List (UInt64 × Nat) → UInt64 → Bool) :
    List UInt64 → Nat → Nat → List (UInt64 × Nat) → Option (List (UInt64 × Nat))
  | [], _, _, m => some m
  | s :: ss, i, index_offset, m =>
    let index_offset := nextFree txn_available (i + index_offset) - i
    let m := mapInsert m s (i + index_offset)
    if overfull m s then none else mapShortIds txn_available overfull ss (i + 1) index_offset m

/-- What the two pool loops of `InitData` update. -/
structure Filling where
  txn_available : List (Option CTransaction)
  have_txn : List Bool
  mempool_count : Nat
  extra_count : Nat
  deriving DecidableEq, Repr

section Pools
variable (orc : ShortIdOracles) (hash256 : Bytes → Uint256) (cmpctblock : CBlockHeaderAndShortTxIDs)
  (shorttxids : List (UInt64 × Nat))

/-- One mempool entry: fill its slot, or on a second match empty the slot again. -/
def mempoolStep (f : Filling) (e : Uint256 × CTransaction) : Filling :=
  match mapFind shorttxids (cmpctblock.getShortID orc e.1) with
  | none => f
  | some slot =>
    if !f.have_txn.getD slot false then
      { f with txn_available := f.txn_available.set slot (some e.2), have_txn := f.have_txn.set slot true,
               mempool_count := f.mempool_count + 1 }
    else if (f.txn_available.getD slot none).isSome then
      { f with txn_available := f.txn_available.set slot none, mempool_count := f.mempool_count - 1 }
    else f

/-- The loop over `pool->vTxHashes`, left as soon as every short ID has a transaction. -/
def fillFromMempool : List (Uint256 × CTransaction) → Filling → Filling
  | [], f => f
  | e :: es, f =>
    let f := mempoolStep orc cmpctblock shorttxids f e
    if f.mempool_count = shorttxids.length then f else fillFromMempool es f

/-- One extra transaction: as for the mempool, but a second match with the same witness hash
keeps the slot. -/
def extraStep (f : Filling) (e : Uint256 × CTransaction) : Filling :=
  match mapFind shorttxids (cmpctblock.getShortID orc e.1) with
  | none => f
  | some slot =>
    if !f.have_txn.getD slot false then
      { f with txn_available := f.txn_available.set slot (some e.2), have_txn := f.have_txn.set slot true,
               mempool_count := f.mempool_count + 1, extra_count := f.extra_count + 1 }
    else match f.txn_available.getD slot none with
      | some tx =>
        if getWitnessHash hash256 tx != getWitnessHash hash256 e.2 then
          { f with txn_available := f.txn_available.set slot none, mempool_count := f.mempool_count - 1,
                   extra_count := f.extra_count - 1 }
        else f
      | none => f

def fillFromExtra : List (Uint256 × CTransaction) → Filling → Filling
  | [], f => f
  | e :: es, f =>
    let f := extraStep orc hash256 cmpctblock shorttxids f e
    if f.mempool_count = shorttxids.length then f else fillFromExtra es f

end Pools

/-- `PartiallyDownloadedBlock::InitData`, with the mempool's `vTxHashes` and the hash map's
bucket test as arguments. It returns the status and the object as the source leaves it. -/
def initData (orc : ShortIdOracles) (hash256 : Bytes → Uint256) (overfull : List (UInt64 × Nat) → UInt64 → Bool)
    (vTxHashes : List (Uint256 × CTransaction)) (pdb : PartiallyDownloadedBlock)
    (cmpctblock : CBlockHeaderAndShortTxIDs) (extra_txn : List (Uint256 × CTransaction)) :
    ReadStatus × PartiallyDownloadedBlock :=
  if cmpctblock.header.isNull || (cmpctblock.shorttxids.isEmpty && cmpctblock.prefilledtxn.isEmpty) then
    (.READ_STATUS_INVALID, pdb)
  else if cmpctblock.shorttxids.length + cmpctblock.prefilledtxn.length >
      MAX_BLOCK_WEIGHT / MIN_SERIALIZABLE_TRANSACTION_WEIGHT then (.READ_STATUS_INVALID, pdb)
  else if !pdb.header.isNull || !pdb.txn_available.isEmpty then (.READ_STATUS_INVALID, pdb)
  else
    let placed := placePrefilled cmpctblock.shorttxids.length cmpctblock.prefilledtxn 0 (-1)
      (List.replicate cmpctblock.blockTxCount none)
    let pdb := { pdb with header := cmpctblock.header, vchBlockSig := cmpctblock.vchBlockSig,
                          txn_available := placed.2 }
    if !placed.1 then (.READ_STATUS_INVALID, pdb)
    else
      let pdb := { pdb with prefilled_count := cmpctblock.prefilledtxn.length }
      match mapShortIds placed.2 overfull cmpctblock.shorttxids 0 0 [] with
      | none => (.READ_STATUS_FAILED, pdb)
      | some shorttxids =>
        if shorttxids.length ≠ cmpctblock.shorttxids.length then (.READ_STATUS_FAILED, pdb)
        else
          let f : Filling := ⟨placed.2, List.replicate placed.2.length false, pdb.mempool_count, pdb.extra_count⟩
          let f := fillFromMempool orc cmpctblock shorttxids vTxHashes f
          let f := fillFromExtra orc hash256 cmpctblock shorttxids extra_txn f
          (.READ_STATUS_OK, { pdb with txn_available := f.txn_available, mempool_count := f.mempool_count,
                                       extra_count := f.extra_count })

/-- `IsTxAvailable`. -/
def PartiallyDownloadedBlock.isTxAvailable (pdb : PartiallyDownloadedBlock) (index : Nat) : Bool :=
  !pdb.header.isNull && (pdb.txn_available.getD index none).isSome

/-- The loop of `FillBlock`: each empty slot takes the next missing transaction. It fails when
they run out, and returns the transactions and the missing ones left over. -/
def fillSlots : List (Option CTransaction) → List CTransaction → Option (List CTransaction × List CTransaction)
  | [], vtx_missing => some ([], vtx_missing)
  | none :: _, [] => none
  | none :: slots, tx :: vtx_missing => (fillSlots slots vtx_missing).map fun r => (tx :: r.1, r.2)
  | some tx :: slots, vtx_missing => (fillSlots slots vtx_missing).map fun r => (tx :: r.1, r.2)

/-- `FillBlock` with `check_block` for `CheckBlock`: the status, the block when it was written
out in full, and the object, which a completed loop leaves null. -/
def fillBlock (check_block : CBlock → Except BlockResult Unit) (pdb : PartiallyDownloadedBlock)
    (vtx_missing : List CTransaction) : ReadStatus × Option CBlock × PartiallyDownloadedBlock :=
  if pdb.header.isNull then (.READ_STATUS_INVALID, none, pdb)
  else
    match fillSlots pdb.txn_available vtx_missing with
    | none => (.READ_STATUS_INVALID, none, pdb)
    | some (vtx, rest) =>
      let block : CBlock := { pdb.header with vtx := vtx, vchBlockSig := pdb.vchBlockSig }
      -- make sure FillBlock cannot be called again
      let pdb := { pdb with header := nullHeader, txn_available := [] }
      if !rest.isEmpty then (.READ_STATUS_INVALID, some block, pdb)
      else
        match check_block block with
        | .ok () => (.READ_STATUS_OK, some block, pdb)
        | .error (.invalid .BLOCK_MUTATED _) => (.READ_STATUS_FAILED, some block, pdb)
        | .error _ => (.READ_STATUS_CHECKBLOCK_FAILED, some block, pdb)

section Map

theorem mapFind_append_singleton (m : List (UInt64 × Nat)) (k key : UInt64) (v : Nat) :
    mapFind (m ++ [(k, v)]) key = (mapFind m key).or (if k = key then some v else none) := by
  unfold mapFind
  rw [List.find?_append]
  cases m.find? (·.1 == key) with
  | some e => rfl
  | none => by_cases hk : k = key <;> simp [hk]

theorem mapFind_isSome (m : List (UInt64 × Nat)) (key : UInt64) :
    (mapFind m key).isSome = m.any (·.1 == key) := by
  simp only [mapFind, Option.isSome_map]
  rw [Bool.eq_iff_iff, List.find?_isSome, List.any_eq_true]

theorem mapInsert_of_not_mem {m : List (UInt64 × Nat)} {key : UInt64} (h : mapFind m key = none) (v : Nat) :
    mapInsert m key v = m ++ [(key, v)] := by
  have hany : m.any (·.1 == key) = false := by rw [← mapFind_isSome, h]; rfl
  simp [mapInsert, hany]

end Map

section ShortIds

theorem nextFree_of_not {avail : List (Option CTransaction)} {p : Nat}
    (h : ¬ (p < avail.length ∧ (avail.getD p none).isSome)) : nextFree avail p = p := by
  rw [nextFree, dif_neg h]

theorem nextFree_of_some {avail : List (Option CTransaction)} {p : Nat}
    (h : p < avail.length ∧ (avail.getD p none).isSome) : nextFree avail p = nextFree avail (p + 1) := by
  rw [nextFree, dif_pos h]

/-- With only the coinbase prefilled, the free slots are all from 1 on. -/
theorem nextFree_coinbase (tx0 : CTransaction) (k p : Nat) :
    nextFree (some tx0 :: List.replicate k none) p = max p 1 := by
  have hfree : ∀ q, 1 ≤ q → nextFree (some tx0 :: List.replicate k none) q = q := fun q hq => by
    apply nextFree_of_not
    rintro ⟨-, hs⟩
    obtain ⟨q, rfl⟩ : ∃ q', q = q' + 1 := ⟨q - 1, by omega⟩
    simp [List.getD_eq_getElem?_getD, List.getElem?_replicate] at hs
    split_ifs at hs <;> simp at hs
  cases p with
  | zero => rw [nextFree_of_some (by simp), hfree 1 le_rfl]; rfl
  | succ p => rw [hfree (p + 1) (by omega)]; omega

/-- After the first `i` short IDs of `S`, the map sends exactly `S[j]` to slot `j + 1` for `j < i`. -/
def MapInv (S : List UInt64) (i : Nat) (m : List (UInt64 × Nat)) : Prop :=
  (∀ key slot, mapFind m key = some slot → ∃ j < i, S[j]? = some key ∧ slot = j + 1) ∧
    ∀ j < i, ∀ key, S[j]? = some key → mapFind m key = some (j + 1)

theorem mapInv_zero (S : List UInt64) : MapInv S 0 [] :=
  ⟨fun key slot h => by simp [mapFind] at h, fun j hj => absurd hj (Nat.not_lt_zero j)⟩

theorem MapInv.insert {S : List UInt64} (hS : S.Nodup) {i : Nat} {m : List (UInt64 × Nat)} (hm : MapInv S i m)
    {key : UInt64} (hkey : S[i]? = some key) : MapInv S (i + 1) (mapInsert m key (i + 1)) := by
  have hi : i < S.length := (List.getElem?_eq_some_iff.mp hkey).1
  -- `key` is new: an earlier entry with it would repeat `S[i]`
  have hnew : mapFind m key = none := by
    cases hf : mapFind m key with
    | none => rfl
    | some slot =>
      obtain ⟨j, hj, hSj, -⟩ := hm.1 key slot hf
      have := ((List.getElem?_inj hi hS).mp (hkey.trans hSj.symm))
      omega
  rw [mapInsert_of_not_mem hnew]
  refine ⟨fun key' slot h => ?_, fun j hj key' hkey' => ?_⟩
  · rw [mapFind_append_singleton] at h
    cases hf : mapFind m key' with
    | some slot' =>
      rw [hf] at h
      obtain ⟨j, hj, hSj, rfl⟩ := hm.1 key' slot' hf
      cases h
      exact ⟨j, by omega, hSj, rfl⟩
    | none =>
      rw [hf] at h
      by_cases hk : key = key'
      · subst hk
        simp at h
        exact ⟨i, by omega, hkey, h.symm⟩
      · simp [hk] at h
  · rw [mapFind_append_singleton]
    rcases Nat.lt_succ_iff_lt_or_eq.mp hj with hj | rfl
    · rw [hm.2 j hj key' hkey']
      rfl
    · rw [hkey] at hkey'
      cases hkey'
      rw [hnew]
      simp

/-- The short ID loop on the compact block of a block: short ID `j` goes to slot `j + 1`. -/
theorem mapShortIds_coinbase {tx0 : CTransaction} {k : Nat} {S : List UInt64} (hS : S.Nodup)
    (overfull : List (UInt64 × Nat) → UInt64 → Bool) :
    ∀ d i off m res, i + d = S.length → (i = 0 ∧ off = 0 ∨ off = 1) → MapInv S i m →
      mapShortIds (some tx0 :: List.replicate k none) overfull (S.drop i) i off m = some res →
        MapInv S S.length res
  | 0, i, off, m, res, hd, _, hm, h => by
    rw [Nat.add_zero] at hd
    subst hd
    rw [List.drop_length, mapShortIds] at h
    cases h
    exact hm
  | d + 1, i, off, m, res, hd, hoff, hm, h => by
    have hi : i < S.length := by omega
    rw [List.drop_eq_getElem_cons hi, mapShortIds] at h
    rw [nextFree_coinbase, show max (i + off) 1 - i = 1 by omega] at h
    split_ifs at h
    exact mapShortIds_coinbase hS overfull d (i + 1) 1 _ res (by omega) (.inr rfl)
      (hm.insert hS (List.getElem?_eq_getElem hi)) h

end ShortIds

section Slots

/-- Every slot is empty or holds the block's own transaction at that index. -/
def SlotsOk (vtx : List CTransaction) (avail : List (Option CTransaction)) : Prop :=
  avail.length = vtx.length ∧ ∀ i (h : i < avail.length), avail[i] = none ∨ avail[i] = vtx[i]?

theorem SlotsOk.set {vtx : List CTransaction} {avail : List (Option CTransaction)} (h : SlotsOk vtx avail)
    {slot : Nat} {x : Option CTransaction} (hx : x = none ∨ x = vtx[slot]?) : SlotsOk vtx (avail.set slot x) := by
  refine ⟨by rw [List.length_set, h.1], fun i hi => ?_⟩
  rw [List.getElem_set]
  split
  · rename_i hs
    subst hs
    exact hx
  · exact h.2 i (by simpa using hi)

theorem SlotsOk.tail {v : CTransaction} {vs : List CTransaction} {a : Option CTransaction}
    {as : List (Option CTransaction)} (h : SlotsOk (v :: vs) (a :: as)) : SlotsOk vs as :=
  ⟨by simpa using h.1, fun i hi => by
    have := h.2 (i + 1) (by simpa using hi)
    rwa [List.getElem_cons_succ, List.getElem?_cons_succ] at this⟩

/-- With the coinbase in slot 0 and every other slot empty. -/
theorem slotsOk_coinbase (tx0 : CTransaction) (rest : List CTransaction) :
    SlotsOk (tx0 :: rest) (some tx0 :: List.replicate rest.length none) := by
  refine ⟨by simp, fun i hi => ?_⟩
  cases i with
  | zero => exact .inr rfl
  | succ i => exact .inl (by simp)

variable (orc : ShortIdOracles) (hash256 : Bytes → Uint256) (cmpctblock : CBlockHeaderAndShortTxIDs)
  (shorttxids : List (UInt64 × Nat))

/-- Every pool entry whose short ID is in the map is the block's transaction at the mapped slot. -/
def PoolOk (vtx : List CTransaction) (es : List (Uint256 × CTransaction)) : Prop :=
  ∀ e ∈ es, ∀ slot, mapFind shorttxids (cmpctblock.getShortID orc e.1) = some slot → vtx[slot]? = some e.2

theorem PoolOk.tail {vtx : List CTransaction} {e : Uint256 × CTransaction} {es : List (Uint256 × CTransaction)}
    (h : PoolOk orc cmpctblock shorttxids vtx (e :: es)) : PoolOk orc cmpctblock shorttxids vtx es :=
  fun e' he' => h e' (List.mem_cons_of_mem e he')

theorem PoolOk.head {vtx : List CTransaction} {e : Uint256 × CTransaction} {es : List (Uint256 × CTransaction)}
    (h : PoolOk orc cmpctblock shorttxids vtx (e :: es)) : PoolOk orc cmpctblock shorttxids vtx [e] :=
  fun e' he' => h e' (by rw [List.mem_singleton.mp he']; exact List.mem_cons_self)

theorem mempoolStep_slotsOk {vtx : List CTransaction} {f : Filling} {e : Uint256 × CTransaction}
    (hE : PoolOk orc cmpctblock shorttxids vtx [e]) (hf : SlotsOk vtx f.txn_available) :
    SlotsOk vtx (mempoolStep orc cmpctblock shorttxids f e).txn_available := by
  unfold mempoolStep
  split
  · exact hf
  · rename_i slot hslot
    split_ifs
    · exact hf.set (.inr (hE e (List.mem_singleton_self e) slot hslot).symm)
    · exact hf.set (.inl rfl)
    · exact hf

theorem extraStep_slotsOk {vtx : List CTransaction} {f : Filling} {e : Uint256 × CTransaction}
    (hE : PoolOk orc cmpctblock shorttxids vtx [e]) (hf : SlotsOk vtx f.txn_available) :
    SlotsOk vtx (extraStep orc hash256 cmpctblock shorttxids f e).txn_available := by
  unfold extraStep
  split
  · exact hf
  · rename_i slot hslot
    split
    · exact hf.set (.inr (hE e (List.mem_singleton_self e) slot hslot).symm)
    · split
      · split
        · exact hf.set (.inl rfl)
        · exact hf
      · exact hf

/-- The mempool loop keeps every slot right, whatever the order of the entries. -/
theorem fillFromMempool_slotsOk {vtx : List CTransaction} :
    ∀ (es : List (Uint256 × CTransaction)) (f : Filling), PoolOk orc cmpctblock shorttxids vtx es →
      SlotsOk vtx f.txn_available → SlotsOk vtx (fillFromMempool orc cmpctblock shorttxids es f).txn_available
  | [], _, _, hf => hf
  | e :: es, f, hE, hf => by
    have h1 := mempoolStep_slotsOk orc cmpctblock shorttxids hE.head hf
    rw [fillFromMempool]
    split
    · exact h1
    · exact fillFromMempool_slotsOk es _ hE.tail h1

theorem fillFromExtra_slotsOk {vtx : List CTransaction} :
    ∀ (es : List (Uint256 × CTransaction)) (f : Filling), PoolOk orc cmpctblock shorttxids vtx es →
      SlotsOk vtx f.txn_available → SlotsOk vtx (fillFromExtra orc hash256 cmpctblock shorttxids es f).txn_available
  | [], _, _, hf => hf
  | e :: es, f, hE, hf => by
    have h1 := extraStep_slotsOk orc hash256 cmpctblock shorttxids hE.head hf
    rw [fillFromExtra]
    split
    · exact h1
    · exact fillFromExtra_slotsOk es _ hE.tail h1

end Slots

section Fill

/-- The transactions `FillBlock` is to be given: those of the slots left empty, in index order. -/
theorem fillSlots_missing : ∀ (vtx : List CTransaction) (avail : List (Option CTransaction))
    (extra : List CTransaction), SlotsOk vtx avail →
      fillSlots avail (((List.range vtx.length).filterMap fun i =>
        if (avail.getD i none).isSome then none else vtx[i]?) ++ extra) = some (vtx, extra)
  | [], avail, extra, h => by
    rw [List.length_eq_zero_iff.mp h.1]
    rfl
  | _ :: _, [], _, h => absurd h.1 (by simp)
  | v :: vs, a :: as, extra, h => by
    have ih := fillSlots_missing vs as extra h.tail
    simp only [List.getD_eq_getElem?_getD] at ih
    rw [List.length_cons, List.range_succ_eq_map, List.filterMap_cons, List.filterMap_map]
    have hshift : ((fun i => if ((a :: as).getD i none).isSome then none else (v :: vs)[i]?) ∘ Nat.succ) =
        fun i => if (as.getD i none).isSome then none else vs[i]? := by
      funext i
      simp
    rw [hshift]
    -- slot 0 is either empty, and takes the first missing transaction, or holds `v`
    rcases h.2 0 (by simp) with h0 | h0 <;> simp only [List.getElem_cons_zero, List.getElem?_cons_zero] at h0 <;>
      subst h0 <;> simp [fillSlots, ih]

theorem fillSlots_eq_some : ∀ (avail : List (Option CTransaction)) (missing : List CTransaction)
    (r : List CTransaction × List CTransaction), fillSlots avail missing = some r →
      r.2.length + avail.countP Option.isNone = missing.length
  | [], _, r, h => by
    cases h
    simp
  | none :: _, [], _, h => by cases h
  | none :: slots, tx :: missing, r, h => by
    rw [fillSlots, Option.map_eq_some_iff] at h
    obtain ⟨r', hr', rfl⟩ := h
    have := fillSlots_eq_some slots missing r' hr'
    simp only [List.countP_cons, List.length_cons]
    simp at this ⊢
    omega
  | some tx :: slots, missing, r, h => by
    rw [fillSlots, Option.map_eq_some_iff] at h
    obtain ⟨r', hr', rfl⟩ := h
    simpa using fillSlots_eq_some slots missing r' hr'

theorem fillBlock_of_length_ne (check_block : CBlock → Except BlockResult Unit) (pdb : PartiallyDownloadedBlock)
    (vtx_missing : List CTransaction) (h : vtx_missing.length ≠ pdb.txn_available.countP Option.isNone) :
    (fillBlock check_block pdb vtx_missing).1 = .READ_STATUS_INVALID := by
  unfold fillBlock
  split
  · rfl
  · split
    · rfl
    · rename_i vtx rest hfill
      have hlen := fillSlots_eq_some _ _ _ hfill
      have hrest : rest.isEmpty = false := by
        cases rest with
        | nil => simp at hlen; omega
        | cons _ _ => rfl
      simp [hrest]

end Fill

section Init

/-- The prefilled loop on the compact block of a block: the coinbase goes to slot 0. -/
theorem placePrefilled_coinbase (k : Nat) (tx0 : CTransaction) :
    placePrefilled k [⟨0, tx0⟩] 0 (-1) (List.replicate (k + 1) none) =
      if tx0.isNull then (false, List.replicate (k + 1) none) else (true, some tx0 :: List.replicate k none) := by
  rw [placePrefilled]
  split_ifs with hnull
  · rfl
  · have hidx : (-1 : Int) + ((0 : Nat) : Int) + 1 = 0 := by decide
    simp only [hidx]
    rw [if_neg (by decide), if_neg (by simp), placePrefilled, Int.toNat_zero, List.replicate_succ,
      List.set_cons_zero]

variable {orc : ShortIdOracles} {hash256 : Bytes → Uint256} {overfull : List (UInt64 × Nat) → UInt64 → Bool}
  {vTxHashes extra_txn : List (Uint256 × CTransaction)} {pdb₀ pdb : PartiallyDownloadedBlock}
  {c : CBlockHeaderAndShortTxIDs}

/-- What a successful `InitData` has done: every check passed, the short IDs were mapped, and
the object holds the slots the two pool loops left. -/
theorem initData_eq_ok (h : initData orc hash256 overfull vTxHashes pdb₀ c extra_txn = (.READ_STATUS_OK, pdb)) :
    let placed := placePrefilled c.shorttxids.length c.prefilledtxn 0 (-1) (List.replicate c.blockTxCount none)
    c.header.isNull = false ∧ (c.shorttxids.isEmpty && c.prefilledtxn.isEmpty) = false ∧ placed.1 = true ∧
      ∃ m, mapShortIds placed.2 overfull c.shorttxids 0 0 [] = some m ∧
      let f := fillFromExtra orc hash256 c m extra_txn
        (fillFromMempool orc c m vTxHashes
          ⟨placed.2, List.replicate placed.2.length false, pdb₀.mempool_count, pdb₀.extra_count⟩)
      pdb = { pdb₀ with header := c.header, vchBlockSig := c.vchBlockSig, prefilled_count := c.prefilledtxn.length,
                        txn_available := f.txn_available, mempool_count := f.mempool_count,
                        extra_count := f.extra_count } := by
  intro placed
  unfold initData at h
  simp only at h
  -- the four early returns are `READ_STATUS_INVALID`
  split_ifs at h with h1 h2 h3 h4 <;> try cases h
  split at h
  · cases h
  · rename_i m hm
    split_ifs at h
    · cases h
    · cases h
      exact ⟨by simp_all, by simp_all, by simpa using h4, m, hm, by intro f; rfl⟩

end Init

section RoundTrip

theorem make_of_cons (orc : ShortIdOracles) (hash256 : Bytes → Uint256) {B : CBlock} {tx0 : CTransaction}
    {rest : List CTransaction} (hB : B.vtx = tx0 :: rest) (nonce : UInt64) :
    CBlockHeaderAndShortTxIDs.make orc hash256 B nonce =
      let c : CBlockHeaderAndShortTxIDs :=
        ⟨nonce, [], [], { B.toCBlockHeader with nFlags := B.nFlags }, B.vchBlockSig⟩
      { c with shorttxids := rest.map fun tx => c.getShortID orc (getWitnessHash hash256 tx)
               prefilledtxn := [⟨0, tx0⟩] } := by
  unfold CBlockHeaderAndShortTxIDs.make
  rw [hB]

/-- A pool entry whose short ID is mapped sits at the mapped slot, when the short IDs are
distinct and every matching entry is one of the block's non-coinbase transactions. -/
theorem poolOk_of_mapInv (orc : ShortIdOracles) (hash256 : Bytes → Uint256) (c : CBlockHeaderAndShortTxIDs)
    {tx0 : CTransaction} {rest : List CTransaction} {m : List (UInt64 × Nat)}
    {es : List (Uint256 × CTransaction)}
    (hS : c.shorttxids = rest.map fun tx => c.getShortID orc (getWitnessHash hash256 tx))
    (hdist : c.shorttxids.Nodup) (hm : MapInv c.shorttxids c.shorttxids.length m)
    (hwtxid : ∀ e ∈ es, e.1 = getWitnessHash hash256 e.2)
    (hpool : ∀ e ∈ es, c.getShortID orc e.1 ∈ c.shorttxids → e.2 ∈ rest) :
    PoolOk orc c m (tx0 :: rest) es := by
  intro e he slot hslot
  obtain ⟨j, hj, hSj, rfl⟩ := hm.1 _ _ hslot
  obtain ⟨k, hk⟩ := List.mem_iff_getElem?.mp (hpool e he (List.mem_of_getElem? hSj))
  have hSk : c.shorttxids[k]? = some (c.getShortID orc e.1) := by
    rw [hS, List.getElem?_map, hk, hwtxid e he]
    rfl
  -- distinct short IDs: the entry's slot is its own index in the block
  have hjk : j = k := (List.getElem?_inj hj hdist).mp (hSj.trans hSk.symm)
  rw [List.getElem?_cons_succ, hjk, hk]

theorem fillBlock_initData_make (orc : ShortIdOracles) (borc : Oracles) (params : Params)
    (chainHeight adjustedTime : Int) (overfull : List (UInt64 × Nat) → UInt64 → Bool) (B : CBlock)
    (nonce : UInt64) (vTxHashes extra_txn : List (Uint256 × CTransaction)) (pdb : PartiallyDownloadedBlock)
    (hcheck : checkBlock borc params chainHeight adjustedTime B = .ok ())
    (hdist : (CBlockHeaderAndShortTxIDs.make orc borc.hash256 B nonce).shorttxids.Nodup)
    (hwtxid : ∀ e ∈ vTxHashes ++ extra_txn, e.1 = getWitnessHash borc.hash256 e.2)
    (hpool : ∀ e ∈ vTxHashes ++ extra_txn,
      (CBlockHeaderAndShortTxIDs.make orc borc.hash256 B nonce).getShortID orc e.1 ∈
        (CBlockHeaderAndShortTxIDs.make orc borc.hash256 B nonce).shorttxids → e.2 ∈ B.vtx.tail)
    (hinit : initData orc borc.hash256 overfull vTxHashes .empty
      (CBlockHeaderAndShortTxIDs.make orc borc.hash256 B nonce) extra_txn = (.READ_STATUS_OK, pdb)) :
    let check_block := fun b => checkBlock borc params chainHeight adjustedTime b
    let vtx_missing := (List.range B.vtx.length).filterMap fun i =>
      if pdb.isTxAvailable i then none else B.vtx[i]?
    fillBlock check_block pdb vtx_missing =
        (.READ_STATUS_OK, some B, { pdb with header := nullHeader, txn_available := [] }) ∧
      ∀ vtx_missing' : List CTransaction, vtx_missing'.length ≠ vtx_missing.length →
        (fillBlock check_block pdb vtx_missing').1 = .READ_STATUS_INVALID := by
  intro check_block vtx_missing
  set c := CBlockHeaderAndShortTxIDs.make orc borc.hash256 B nonce with hc
  obtain ⟨hnull, hnonempty, hplaced, m, hm, hpdb⟩ := initData_eq_ok hinit
  -- a block without transactions gives a compact block that `InitData` refuses
  obtain ⟨tx0, rest, hB⟩ : ∃ tx0 rest, B.vtx = tx0 :: rest := by
    cases hv : B.vtx with
    | nil =>
      unfold CBlockHeaderAndShortTxIDs.make at hc
      rw [hv] at hc
      simp [hc] at hnonempty
    | cons tx0 rest => exact ⟨tx0, rest, rfl⟩
  have hc' := make_of_cons orc borc.hash256 hB nonce
  rw [← hc] at hc'
  have hS : c.shorttxids = rest.map fun tx => c.getShortID orc (getWitnessHash borc.hash256 tx) := by
    rw [hc']
    rfl
  have hpre : c.prefilledtxn = [⟨0, tx0⟩] := by rw [hc']
  have hcount : c.blockTxCount = rest.length + 1 := by
    simp [CBlockHeaderAndShortTxIDs.blockTxCount, hS, hpre]
  -- the prefilled loop puts the coinbase in slot 0
  have hplace : placePrefilled c.shorttxids.length c.prefilledtxn 0 (-1) (List.replicate c.blockTxCount none) =
      (true, some tx0 :: List.replicate rest.length none) := by
    rw [hcount, hpre, hS, List.length_map, placePrefilled_coinbase] at hplaced ⊢
    -- a null coinbase stops the loop, against `hplaced`
    split_ifs at hplaced ⊢
    rfl
  rw [hplace] at hm hpdb
  have hmap : MapInv c.shorttxids c.shorttxids.length m :=
    mapShortIds_coinbase hdist overfull c.shorttxids.length 0 0 [] m (by simp) (.inl ⟨rfl, rfl⟩)
      (mapInv_zero _) (by rwa [List.drop_zero])
  -- both pool loops keep every slot empty or right
  have hslots : SlotsOk B.vtx pdb.txn_available := by
    rw [hpdb, hB]
    have hmem := fun e he => hwtxid e (List.mem_append_left extra_txn he)
    exact fillFromExtra_slotsOk orc borc.hash256 c m _ _
      (poolOk_of_mapInv orc borc.hash256 c hS hdist hmap (fun e he => hwtxid e (List.mem_append_right _ he))
        (fun e he hin => by simpa [hB] using hpool e (List.mem_append_right _ he) hin))
      (fillFromMempool_slotsOk orc c m _ _
        (poolOk_of_mapInv orc borc.hash256 c hS hdist hmap hmem
          (fun e he hin => by simpa [hB] using hpool e (List.mem_append_left _ he) hin))
        (slotsOk_coinbase tx0 rest))
  have hheader : pdb.header = c.header := by rw [hpdb]
  have hmissing : vtx_missing = (List.range B.vtx.length).filterMap fun i =>
      if (pdb.txn_available.getD i none).isSome then none else B.vtx[i]? := by
    simp only [vtx_missing, PartiallyDownloadedBlock.isTxAvailable, hheader, hnull, Bool.not_false,
      Bool.true_and]
  have hfill : fillSlots pdb.txn_available vtx_missing = some (B.vtx, []) := by
    rw [hmissing, ← List.append_nil (List.filterMap _ _)]
    exact fillSlots_missing B.vtx pdb.txn_available [] hslots
  refine ⟨?_, fun vtx_missing' hlen => fillBlock_of_length_ne check_block pdb vtx_missing' ?_⟩
  · -- the reconstructed block is `B`: header with `nFlags`, `vchBlockSig` and every transaction
    have hsig : pdb.vchBlockSig = B.vchBlockSig := by rw [hpdb, hc']
    have hblock : (⟨c.header, B.vtx, pdb.vchBlockSig⟩ : CBlock) = B := by rw [hc', hsig]
    unfold fillBlock
    rw [hheader, hnull, if_neg Bool.false_ne_true, hfill]
    simp only [List.isEmpty_nil, Bool.not_true, Bool.false_eq_true, if_false, check_block]
    rw [hblock, hcheck]
  · have := fillSlots_eq_some _ _ _ hfill
    simp only [List.length_nil, Nat.zero_add] at this
    omega

/-- Short IDs that all collide: every SipHash is 0. -/
def collidingIds : ShortIdOracles := ⟨ConnectBlock.exampleOracles.hash256, fun _ _ _ => 0⟩

namespace PoolFill

/-- The stake block of `EarlyBlock` sent compactly, its coinstake already in the extra pool. -/
def extra_txn : List (Uint256 × CTransaction) :=
  [(getWitnessHash ConnectBlock.exampleOracles.hash256 HeaderTime.EarlyBlock.coinstake, HeaderTime.EarlyBlock.coinstake)]

def received : ReadStatus × PartiallyDownloadedBlock :=
  initData collidingIds ConnectBlock.exampleOracles.hash256 (fun _ _ => false) [] .empty
    (CBlockHeaderAndShortTxIDs.make collidingIds ConnectBlock.exampleOracles.hash256 HeaderTime.EarlyBlock.block 5) extra_txn

end PoolFill

theorem fillBlock_initData_make_earlyBlock :
    checkBlock ConnectBlock.exampleOracles.toOracles Params.main 0 1760000001 HeaderTime.EarlyBlock.block = .ok () ∧
      (fillBlock (fun b => checkBlock ConnectBlock.exampleOracles.toOracles Params.main 0 1760000001 b) PoolFill.received.2
        ((List.range HeaderTime.EarlyBlock.block.vtx.length).filterMap fun i =>
          if PoolFill.received.2.isTxAvailable i then none else HeaderTime.EarlyBlock.block.vtx[i]?)).2.1 =
        some HeaderTime.EarlyBlock.block :=
  have hcheck : checkBlock ConnectBlock.exampleOracles.toOracles Params.main 0 1760000001 HeaderTime.EarlyBlock.block = .ok () := by
    decide +kernel
  ⟨hcheck, by
    rw [(fillBlock_initData_make collidingIds ConnectBlock.exampleOracles.toOracles Params.main 0 1760000001 (fun _ _ => false)
      HeaderTime.EarlyBlock.block 5 [] PoolFill.extra_txn PoolFill.received.2 hcheck (by decide +kernel) (by decide +kernel)
      (by decide +kernel) (by decide +kernel)).1]⟩

namespace CoinbaseCollision

/-- The same block, with the coinbase in the extra pool: its short ID is the coinstake's. -/
def extra_txn : List (Uint256 × CTransaction) :=
  [(getWitnessHash ConnectBlock.exampleOracles.hash256 HeaderTime.EarlyBlock.coinbase, HeaderTime.EarlyBlock.coinbase)]

def cmpctblock : CBlockHeaderAndShortTxIDs :=
  CBlockHeaderAndShortTxIDs.make collidingIds ConnectBlock.exampleOracles.hash256 HeaderTime.EarlyBlock.block 5

def received : ReadStatus × PartiallyDownloadedBlock :=
  initData collidingIds ConnectBlock.exampleOracles.hash256 (fun _ _ => false) [] .empty cmpctblock extra_txn

def vtx_missing : List CTransaction :=
  (List.range HeaderTime.EarlyBlock.block.vtx.length).filterMap fun i =>
    if received.2.isTxAvailable i then none else HeaderTime.EarlyBlock.block.vtx[i]?

end CoinbaseCollision

/-- A pool holding only transactions of the block can still fill a slot with the wrong one:
the coinbase takes the coinstake's slot, and the rebuilt block fails `CheckBlock`. -/
theorem fillBlock_coinbase_collision :
    checkBlock ConnectBlock.exampleOracles.toOracles Params.main 0 1760000001 HeaderTime.EarlyBlock.block = .ok () ∧
      CoinbaseCollision.cmpctblock.shorttxids.Nodup ∧
      (∀ e ∈ CoinbaseCollision.extra_txn, e.2 ∈ HeaderTime.EarlyBlock.block.vtx) ∧
      CoinbaseCollision.received.1 = .READ_STATUS_OK ∧
      (fillBlock (fun b => checkBlock ConnectBlock.exampleOracles.toOracles Params.main 0 1760000001 b)
        CoinbaseCollision.received.2 CoinbaseCollision.vtx_missing).1 = .READ_STATUS_CHECKBLOCK_FAILED := by
  decide +kernel

end RoundTrip

end BlackcoinMore.BlockEncodings
