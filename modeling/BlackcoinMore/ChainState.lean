import BlackcoinMore.ConnectBlock
import BlackcoinMore.Pow

/-! The state header and block acceptance work on: the block index, the active chain, the
failed blocks and the candidate tips of `ChainstateManager` and its active `Chainstate`
(`validation.{h,cpp}`), with the context-dependent checks `ContextualCheckBlockHeader` and
`ContextualCheckBlock`, and `ReceivedBlockTransactions`. -/
namespace BlackcoinMore.ChainState
open Primitives Serialize Coins ChainParams TxVerify BlockChecks BlockIndex BlackcoinMore.Pow ConnectBlock

def MAX_FUTURE_BLOCK_TIME : Int := 2 * 60 * 60
def MIN_BLOCKS_TO_KEEP : Nat := 288
def BLOCK_OPT_WITNESS : UInt32 := 128

/-- The node's chain configuration. -/
structure ChainContext where
  params : Params
  /-- `Params().GetChainType() == ChainType::REGTEST`. -/
  fRegtest : Bool
  checkpoints : List (Nat × Uint256)
  checkpointsEnabled : Bool
  /-- `MinimumChainWork()`. -/
  nMinimumChainWork : Nat

structure ChainstateManager where
  m_block_index : BlockMap
  m_best_header : Option Uint256
  /-- `m_chain`: the hash of the active block at each height. -/
  m_chain : List Uint256
  m_failed_blocks : List Uint256
  setBlockIndexCandidates : List Uint256
  /-- `m_blocks_unlinked`: (parent, child) pairs waiting for the parent's data. -/
  m_blocks_unlinked : List (Uint256 × Uint256)
  nBlockSequenceId : Int

namespace ChainstateManager

def tip (s : ChainstateManager) : Option CBlockIndex := s.m_chain.getLast?.bind s.m_block_index

/-- `m_chain.Height()`: `-1` for an empty chain. -/
def height (s : ChainstateManager) : Int := s.m_chain.length - 1

/-- The entry stored under `hash`, rewritten by `f`. -/
def modifyIndex (s : ChainstateManager) (hash : Uint256) (f : CBlockIndex → CBlockIndex) :
    ChainstateManager :=
  { s with m_block_index := fun h => if h = hash then (s.m_block_index h).map f else s.m_block_index h }

/-- The `nFlags` of the entry under `h`: what validity and status updates leave alone. -/
def flagsOf (s : ChainstateManager) (h : Uint256) : Option UInt32 := (s.m_block_index h).map (·.nFlags)

theorem flagsOf_update (s : ChainstateManager) {hash : Uint256} {pindex : CBlockIndex}
    (hflags : s.flagsOf hash = some pindex.nFlags) (h : Uint256) :
    ({ s with m_block_index := Function.update s.m_block_index hash (some pindex) } :
      ChainstateManager).flagsOf h = s.flagsOf h := by
  unfold flagsOf
  by_cases hh : h = hash
  · subst hh
    simpa [flagsOf] using hflags.symm
  · simp [Function.update_of_ne hh]

end ChainstateManager

/-- `CBlockIndexWorkComparator(pa, pb)`: `pa` sorts before `pb`. The pointer tie-break is
modelled by the order of the hashes. -/
def workLess (pa pb : CBlockIndex) : Bool :=
  if pb.nChainWork < pa.nChainWork then false
  else if pa.nChainWork < pb.nChainWork then true
  else if pa.nSequenceId < pb.nSequenceId then false
  else if pb.nSequenceId < pa.nSequenceId then true
  else pb.phashBlock.toNat < pa.phashBlock.toNat

/-- `CScriptNum::serialize` of a non-negative `int64_t`: its little-endian bytes, with a zero
byte added when the last one has its top bit set. -/
def scriptNumSerialize (value : Nat) : Bytes :=
  let result := go 8 value
  if result.getLast?.any (· &&& 0x80 != 0) then result ++ [0] else result
where
  go : Nat → Nat → Bytes
    | 0, _ => []
    | fuel + 1, absvalue => if absvalue = 0 then [] else (absvalue % 256).toUInt8 :: go fuel (absvalue / 256)

/-- `CScript() << nHeight` for a block height (always a short push). -/
def pushHeight (n : Nat) : CScript :=
  if 1 ≤ n ∧ n ≤ 16 then [(n + 0x50).toUInt8]
  else if n = 0 then [0]
  else let b := scriptNumSerialize n; b.length.toUInt8 :: b

/-- `GetBlockWeight`. -/
def getBlockWeight (block : CBlock) : Nat :=
  (serializeBlock block false false).length * (WITNESS_SCALE_FACTOR - 1) +
    (serializeBlock block false true).length

section
variable (cc : ChainContext) (orc : Oracles)

/-- `BlockWitnessMerkleRoot`: the coinbase's witness hash is replaced by zero. -/
def blockWitnessMerkleRoot (block : CBlock) : Uint256 :=
  (Merkle.computeMerkleRoot orc.hash256
    (block.vtx.zipIdx.map fun (tx, i) => if i = 0 then 0 else orc.hash256 (serializeTransaction tx true))).1

def checkWitnessMalleation (block : CBlock) (expect_witness_commitment : Bool) :
    Except BlockResult Unit := do
  let commitpos := getWitnessCommitmentIndex block
  if expect_witness_commitment && commitpos != NO_WITNESS_COMMITMENT then
    let witness_stack := ((block.vtx.head?.bind (·.vin.head?)).map (·.scriptWitness)).getD []
    if witness_stack.length != 1 || (witness_stack.headD []).length != 32 then
      throw (.invalid .BLOCK_MUTATED "bad-witness-nonce-size")
    let hash_witness := orc.hash256
      (serializeUint256 (blockWitnessMerkleRoot orc block) ++ witness_stack.headD [])
    let commitment := ((block.vtx.head?.bind (·.vout[commitpos.toNat]?)).map (·.scriptPubKey)).getD []
    if serializeUint256 hash_witness != (commitment.drop 6).take 32 then
      throw (.invalid .BLOCK_MUTATED "bad-witness-merkle-match")
  else
    -- No witness data is allowed in blocks that don't commit to witness data
    if block.vtx.any CTransaction.hasWitness then
      throw (.invalid .BLOCK_MUTATED "unexpected-witness")

variable (s : ChainstateManager)

/-- `DeploymentActiveAfter(pindexPrev, ..., dep)` for a buried deployment at `depHeight`. -/
def deploymentActiveAfter (pindexPrev : Option CBlockIndex) (depHeight : Int) : Bool :=
  depHeight ≤ (((pindexPrev.map (·.nHeight + 1)).getD 0 : Nat) : Int)

/-- `ContextualCheckBlockHeader`, with `now` the adjusted clock. -/
def contextualCheckBlockHeader (block : CBlockHeader) (pindexPrev : CBlockIndex) (now : Int)
    (fProofOfStake : Bool) : Except BlockResult Unit := do
  let nHeight := pindexPrev.nHeight + 1
  let params := cc.params
  -- Check difficulty
  let nBitsRequired ← liftExcept
    (getNextTargetRequired s.m_block_index cc.fRegtest (some pindexPrev) params fProofOfStake)
  if block.nBits != nBitsRequired then throw (.invalid .BLOCK_INVALID_HEADER "bad-diffbits")
  -- Check maximum reorg depth
  if params.nMaxReorganizationDepth ≤ s.height - nHeight then
    throw (.invalid .BLOCK_INVALID_HEADER "older-than-maxreorg-depth")
  -- Check for the last proof of work block
  if params.nLastPOWBlock < nHeight && !fProofOfStake then
    throw (.invalid .BLOCK_INVALID_HEADER "reject-pow")
  -- Preliminary check of pos timestamp
  if params.nLastPOWBlock < nHeight && !checkStakeBlockTimestamp params block.getBlockTime then
    throw (.invalid .BLOCK_INVALID_HEADER "bad-pos-time")
  -- Check against checkpoints
  if cc.checkpointsEnabled then
    if let some pcheckpoint := getLastCheckpoint s.m_block_index cc.checkpoints then
      if nHeight < pcheckpoint.nHeight then
        throw (.invalid .BLOCK_CHECKPOINT "bad-fork-prior-to-checkpoint")
    if !checkHardened cc.checkpoints nHeight (CBlockHeader.getHash orc block) then
      throw (.invalid .BLOCK_CHECKPOINT "bad-fork-hardened-checkpoint")
  -- Check that the block satisfies synchronized checkpoint
  match s.tip with
  | none => throw (.exception "null dereference of chain.Tip() in AutoSelectSyncCheckpoint")
  | some tip =>
    if !checkSyncCheckpoint s.m_block_index params nHeight tip then
      throw (.invalid .BLOCK_INVALID_HEADER "bad-fork-prior-to-synch-checkpoint")
  -- Check timestamp against prev
  if block.getBlockTime ≤ getMedianTimePast s.m_block_index params pindexPrev then
    throw (.invalid .BLOCK_INVALID_HEADER "time-too-old")
  -- Check timestamp
  if now + MAX_FUTURE_BLOCK_TIME < block.getBlockTime then
    throw (.invalid .BLOCK_TIME_FUTURE "time-too-new")

/-- `ContextualCheckBlock(block, state, chainman, pindexPrev)`. -/
def contextualCheckBlock (block : CBlock) (pindexPrev : Option CBlockIndex) :
    Except BlockResult Unit := do
  let nHeight : Nat := (pindexPrev.map (·.nHeight + 1)).getD 0
  let params := cc.params
  -- Enforce BIP113 (Median Time Past).
  let nLockTimeCutoff := match pindexPrev with
    | some prev => if deploymentActiveAfter pindexPrev params.CSVHeight then
        getMedianTimePast s.m_block_index params prev else block.getBlockTime
    | none => block.getBlockTime
  -- Check that all transactions are finalized
  if block.vtx.any fun tx => !isFinalTx tx nHeight nLockTimeCutoff then
    throw (.invalid .BLOCK_CONSENSUS "bad-txns-nonfinal")
  -- Enforce rule that the coinbase starts with serialized block height
  let expect := pushHeight nHeight
  let scriptSig := ((block.vtx.head?.bind (·.vin.head?)).map (·.scriptSig)).getD []
  if scriptSig.length < expect.length || scriptSig.take expect.length != expect then
    throw (.invalid .BLOCK_CONSENSUS "bad-cb-height")
  -- Validation for witness commitments.
  checkWitnessMalleation orc block (deploymentActiveAfter pindexPrev params.SegwitHeight)
  if MAX_BLOCK_WEIGHT < getBlockWeight block then
    throw (.invalid .BLOCK_CONSENSUS "bad-blk-weight")

/-- `TryAddBlockIndexCandidate` for the active chainstate. -/
def tryAddBlockIndexCandidate (pindex : CBlockIndex) : ChainstateManager :=
  match s.tip with
  | some tip => if workLess pindex tip then s
    else { s with setBlockIndexCandidates := s.setBlockIndexCandidates ++ [pindex.phashBlock] }
  | none => { s with setBlockIndexCandidates := s.setBlockIndexCandidates ++ [pindex.phashBlock] }

end

theorem tryAddBlockIndexCandidate_index (s : ChainstateManager) (pindex : CBlockIndex) :
    (tryAddBlockIndexCandidate s pindex).m_block_index = s.m_block_index := by
  unfold tryAddBlockIndexCandidate
  split
  · split_ifs <;> rfl
  · rfl

/-- The queue of `ReceivedBlockTransactions`: each block taken from the front gets its
`nChainTx` and sequence id and becomes a candidate; its unlinked children join the queue. -/
def linkQueue : Nat → ChainstateManager → List Uint256 → ChainstateManager
  | 0, s, _ => s
  | _ + 1, s, [] => s
  | fuel + 1, s, hash :: queue =>
    match s.m_block_index hash with
    | none => linkQueue fuel s queue
    | some pindex =>
      let prevChainTx := ((pindex.pprev.bind s.m_block_index).map (·.nChainTx)).getD 0
      let pindex : CBlockIndex :=
        { pindex with nChainTx := prevChainTx + pindex.nTx, nSequenceId := s.nBlockSequenceId }
      let s := { s with m_block_index := Function.update s.m_block_index hash (some pindex),
                        nBlockSequenceId := s.nBlockSequenceId + 1 }
      let s := tryAddBlockIndexCandidate s pindex
      let children := (s.m_blocks_unlinked.filter (·.1 == hash)).map (·.2)
      let s := { s with m_blocks_unlinked := s.m_blocks_unlinked.filter (·.1 != hash) }
      linkQueue fuel s (queue ++ children)

theorem flagsOf_linkQueue (fuel : Nat) (s : ChainstateManager) (queue : List Uint256) (h : Uint256) :
    (linkQueue fuel s queue).flagsOf h = s.flagsOf h := by
  induction fuel generalizing s queue with
  | zero => rfl
  | succ fuel ih =>
    cases queue with
    | nil => rfl
    | cons hash queue =>
      simp only [linkQueue]
      split
      · exact ih s queue
      next pindex hp =>
        -- the entry is rewritten with its own flags; the candidate set and the unlinked
        -- pairs are not entries
        rw [ih]
        change (tryAddBlockIndexCandidate _ _).flagsOf h = s.flagsOf h
        unfold ChainstateManager.flagsOf
        rw [tryAddBlockIndexCandidate_index]
        exact ChainstateManager.flagsOf_update s (by simp [ChainstateManager.flagsOf, hp]) h

/-- The entry of a block whose transactions arrived: `nTx`, `BLOCK_HAVE_DATA` and the validity
`BLOCK_VALID_TRANSACTIONS`. -/
def receivedEntry (params : Params) (block : CBlock) (pindexNew : CBlockIndex) : CBlockIndex :=
  let witness := if params.SegwitHeight ≤ (pindexNew.nHeight : Int) then BLOCK_OPT_WITNESS else 0
  let nStatus := pindexNew.nStatus ||| BLOCK_HAVE_DATA ||| witness
  let pindexNew : CBlockIndex := { pindexNew with nTx := block.vtx.length, nChainTx := 0, nStatus }
  (pindexNew.raiseValidity BLOCK_VALID_TRANSACTIONS).2

@[simp] theorem nFlags_receivedEntry (params : Params) (block : CBlock) (pindexNew : CBlockIndex) :
    (receivedEntry params block pindexNew).nFlags = pindexNew.nFlags := by
  simp [receivedEntry]

@[simp] theorem phashBlock_receivedEntry (params : Params) (block : CBlock) (pindexNew : CBlockIndex) :
    (receivedEntry params block pindexNew).phashBlock = pindexNew.phashBlock := by
  simp [receivedEntry]

/-- `ReceivedBlockTransactions(block, pindexNew, pos)`. -/
def receivedBlockTransactions (params : Params) (s : ChainstateManager) (block : CBlock)
    (pindexNew : CBlockIndex) : ChainstateManager :=
  let pindexNew := receivedEntry params block pindexNew
  let s := { s with m_block_index := Function.update s.m_block_index pindexNew.phashBlock (some pindexNew) }
  match pindexNew.pprev.bind s.m_block_index with
  | none => linkQueue (s.m_blocks_unlinked.length + 1) s [pindexNew.phashBlock]
  | some pprev =>
    if pprev.nChainTx != 0 then linkQueue (s.m_blocks_unlinked.length + 1) s [pindexNew.phashBlock]
    else if pprev.isValid BLOCK_VALID_TREE then
      { s with m_blocks_unlinked := s.m_blocks_unlinked ++ [(pprev.phashBlock, pindexNew.phashBlock)] }
    else s

theorem flagsOf_receivedBlockTransactions (params : Params) (s : ChainstateManager) (block : CBlock)
    {pindexNew : CBlockIndex} (hflags : s.flagsOf pindexNew.phashBlock = some pindexNew.nFlags)
    (h : Uint256) : (receivedBlockTransactions params s block pindexNew).flagsOf h = s.flagsOf h := by
  -- the entry is stored again with its own flags
  have hstore := @ChainstateManager.flagsOf_update s (receivedEntry params block pindexNew).phashBlock
    (receivedEntry params block pindexNew) (by simpa using hflags)
  unfold receivedBlockTransactions
  dsimp only
  split
  · rw [flagsOf_linkQueue]; exact hstore h
  · split_ifs
    · rw [flagsOf_linkQueue]; exact hstore h
    · exact hstore h
    · exact hstore h

end BlackcoinMore.ChainState
