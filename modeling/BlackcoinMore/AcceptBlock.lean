import BlackcoinMore.ChainState

/-! `ChainstateManager::AcceptBlockHeader`, `AcceptBlock` and the checks `ProcessNewBlock` runs
before them (`validation.cpp`), and how `MaybePunishNodeForBlock` (`net_processing.cpp`) treats
the state they return. A call returns the manager's new state also when it fails: a failed
block is marked in the index. -/
namespace BlackcoinMore.AcceptBlock
open Primitives ChainParams BlockChecks BlockIndex ConnectBlock ChainState

abbrev Outcome (α : Type) := ChainstateManager × Except BlockResult α

/-- The walk of `AcceptBlockHeader` that marks `pindexPrev` and every block above `failedit` as
`BLOCK_FAILED_CHILD`. -/
def markFailedChild (failedit : Uint256) : Nat → ChainstateManager → CBlockIndex → ChainstateManager
  | 0, s, _ => s
  | fuel + 1, s, invalid_walk =>
    if invalid_walk.phashBlock = failedit then s
    else
      let s := s.modifyIndex invalid_walk.phashBlock fun b => { b with nStatus := b.nStatus ||| BLOCK_FAILED_CHILD }
      match invalid_walk.pprev.bind s.m_block_index with
      | some pprev => markFailedChild failedit fuel s pprev
      | none => s

/-- The first block of `m_failed_blocks` that is an ancestor of `pindexPrev`. -/
def findFailedAncestor (s : ChainstateManager) (pindexPrev : CBlockIndex) :
    Except String (Option CBlockIndex) :=
  s.m_failed_blocks.foldlM (fun found hash =>
    match found, s.m_block_index hash with
    | some f, _ => pure (some f)
    | none, none => pure none
    | none, some failedit => do
      let a ← getAncestor s.m_block_index pindexPrev failedit.nHeight
      pure (if a = some failedit then some failedit else none)) none

variable (cc : ChainContext) (orc : Oracles)

/-- The test against the sync checkpoint of a header that does not extend the tip. -/
def checkSyncCheckpointTime (s : ChainstateManager) (block : CBlockHeader) :
    Except BlockResult Unit :=
  match s.tip with
  | some tip =>
    if block.hashPrevBlock != tip.phashBlock &&
        block.getBlockTime - (autoSelectSyncCheckpoint s.m_block_index cc.params tip).getBlockTime < 0 then
      throw (.invalid .BLOCK_HEADER_SYNC "older-than-checkpoint")
    else pure ()
  | none => pure ()

/-- `CheckBlockHeader` as `AcceptBlockHeader` calls it, with the kind the header claims: the
kind the entry is to record. An old client's failure flips the guess. -/
def headerKind (s : ChainstateManager) (now : Int) (block : CBlockHeader) (fOldClient : Bool) :
    Except BlockResult Bool :=
  let fProofOfStake := block.nFlags &&& BLOCK_PROOF_OF_STAKE != 0
  match checkBlockHeader orc cc.params s.height now block (!fProofOfStake) fOldClient with
  | .ok () => pure fProofOfStake
  | .error e => if fOldClient then pure !fProofOfStake else throw e

/-- The parent tests and `ContextualCheckBlockHeader`: the parent. -/
def checkParent (s : ChainstateManager) (now : Int) (block : CBlockHeader) (fSetAsProofOfStake : Bool) :
    Except BlockResult CBlockIndex :=
  match s.m_block_index block.hashPrevBlock with
  | none => throw (.invalid .BLOCK_MISSING_PREV "prev-blk-not-found")
  | some pindexPrev => do
    if pindexPrev.nStatus &&& BLOCK_FAILED_MASK != 0 then
      throw (.invalid .BLOCK_INVALID_PREV "bad-prevblk")
    contextualCheckBlockHeader cc orc s block pindexPrev now fSetAsProofOfStake
    pure pindexPrev

/-- The checks of a new header from the checkpoint test to `ContextualCheckBlockHeader`: the
parent and `fSetAsProofOfStake`. -/
def checkNewHeader (s : ChainstateManager) (now : Int) (block : CBlockHeader) (fOldClient : Bool) :
    Except BlockResult (CBlockIndex × Bool) := do
  checkSyncCheckpointTime cc s block
  let fSetAsProofOfStake ← headerKind cc orc s now block fOldClient
  let pindexPrev ← checkParent cc orc s now block fSetAsProofOfStake
  pure (pindexPrev, fSetAsProofOfStake)

/-- `AddToBlockIndex` after the `min_pow_checked` test. -/
def addHeader (s : ChainstateManager) (block : CBlockHeader) (hash : Uint256)
    (min_pow_checked fSetAsProofOfStake : Bool) : Outcome CBlockIndex :=
  if !min_pow_checked then (s, .error (.invalid .BLOCK_HEADER_LOW_WORK "too-little-chainwork"))
  else
    match addToBlockIndex s.m_block_index s.m_best_header block hash fSetAsProofOfStake with
    | .ok (m, best, pindex) => ({ s with m_block_index := m, m_best_header := best }, .ok pindex)
    | .error what => (s, .error (.exception what))

/-- `AcceptBlockHeader(block, state, ppindex, min_pow_checked, fOldClient)` at adjusted time
`now`; the entry is `*ppindex`. -/
def acceptBlockHeader (s : ChainstateManager) (now : Int) (block : CBlockHeader)
    (min_pow_checked fOldClient : Bool) : Outcome CBlockIndex :=
  let hash := CBlockHeader.getHash orc block
  if hash != cc.params.hashGenesisBlock then
    match s.m_block_index hash with
    | some pindex =>
      -- Block header is already known.
      if pindex.nStatus &&& BLOCK_FAILED_MASK != 0 then
        (s, .error (.invalid .BLOCK_CACHED_INVALID "duplicate"))
      else (s, .ok pindex)
    | none =>
      match checkNewHeader cc orc s now block fOldClient with
      | .error e => (s, .error e)
      | .ok (pindexPrev, fSetAsProofOfStake) =>
        if pindexPrev.isValid BLOCK_VALID_SCRIPTS then
          addHeader s block hash min_pow_checked fSetAsProofOfStake
        else
          -- Determine if this block descends from any block which has been found invalid
          match findFailedAncestor s pindexPrev with
          | .error what => (s, .error (.exception what))
          | .ok none => addHeader s block hash min_pow_checked fSetAsProofOfStake
          | .ok (some failedit) =>
            if failedit.nStatus &&& BLOCK_FAILED_VALID == 0 then
              (s, .error (.exception "Assertion `failedit->nStatus & BLOCK_FAILED_VALID' failed."))
            else
              (markFailedChild failedit.phashBlock pindexPrev.nHeight s pindexPrev,
                .error (.invalid .BLOCK_INVALID_PREV "bad-prevblk"))
  else addHeader s block hash min_pow_checked (block.nFlags &&& BLOCK_PROOF_OF_STAKE != 0)

/-- `CheckBlock` and `ContextualCheckBlock` as `AcceptBlock` runs them. -/
def checkBlockData (s : ChainstateManager) (now : Int) (block : CBlock) (pindex : CBlockIndex) :
    Except BlockResult Unit := do
  checkBlock orc cc.params s.height now block
  contextualCheckBlock cc orc s block (pindex.pprev.bind s.m_block_index)

/-- `AcceptBlock(pblock, state, ppindex, fRequested, dbp, fNewBlock, min_pow_checked)` at
adjusted time `now`. Writing the block to disk is not modelled. -/
def acceptBlock (s : ChainstateManager) (now : Int) (block : CBlock) (fRequested min_pow_checked : Bool) :
    Outcome CBlockIndex :=
  match acceptBlockHeader cc orc s now block.toCBlockHeader min_pow_checked false with
  | (s, .error e) => (s, .error e)
  | (s, .ok pindex) =>
    let fAlreadyHave := pindex.nStatus &&& BLOCK_HAVE_DATA != 0
    let fHasMoreOrSameWork := match s.tip with
      | some tip => tip.nChainWork ≤ pindex.nChainWork
      | none => true
    let fTooFarAhead := s.height + MIN_BLOCKS_TO_KEEP < pindex.nHeight
    if fAlreadyHave then (s, .ok pindex)
    -- Skip processing of unrequested blocks as an anti-DoS measure
    else if !fRequested && (pindex.nTx != 0 || !fHasMoreOrSameWork || fTooFarAhead ||
        pindex.nChainWork < cc.nMinimumChainWork) then (s, .ok pindex)
    else
      match checkBlockData cc orc s now block pindex with
      | .error (.invalid result reason) =>
        let s := if result != .BLOCK_MUTATED then
            s.modifyIndex pindex.phashBlock fun b => { b with nStatus := b.nStatus ||| BLOCK_FAILED_VALID }
          else s
        (s, .error (.invalid result reason))
      | .error e => (s, .error e)
      | .ok () => (receivedBlockTransactions cc.params s block pindex, .ok pindex)

/-- The block part of `ProcessNewBlock` before `ActivateBestChain`: the signature encoding
test, `CheckBlock`, then `AcceptBlock`. `fCanonicalSig` is `CheckCanonicalBlockSignature`. -/
def processNewBlock (s : ChainstateManager) (now : Int) (block : CBlock) (fCanonicalSig : Bool)
    (force_processing min_pow_checked : Bool) : Outcome CBlockIndex :=
  if !fCanonicalSig then (s, .error (.error "bad block signature encoding"))
  else
    match checkBlock orc cc.params s.height now block with
    | .error e => (s, .error e)
    | .ok () => acceptBlock cc orc s now block force_processing min_pow_checked

/-- `MaybePunishNodeForBlock(nodeid, state, via_compact_block, message)`: the misbehaviour score
the sending peer gets, `none` when it is not punished; `is_inbound` is the peer's
`m_is_inbound`. A state that is an error rather than invalid has no result and is not
punished. -/
def maybePunishNodeForBlock (state : BlockResult) (via_compact_block is_inbound : Bool) :
    Option Nat :=
  match state with
  | .invalid result _ =>
    match result with
    | .BLOCK_RESULT_UNSET | .BLOCK_HEADER_LOW_WORK => none
    -- The node is providing invalid data:
    | .BLOCK_CONSENSUS | .BLOCK_MUTATED => if !via_compact_block then some 100 else none
    | .BLOCK_CACHED_INVALID => if !via_compact_block && !is_inbound then some 100 else none
    | .BLOCK_INVALID_HEADER | .BLOCK_CHECKPOINT | .BLOCK_INVALID_PREV | .BLOCK_HEADER_SPAM => some 100
    -- Conflicting (but not necessarily invalid) data or different policy:
    | .BLOCK_MISSING_PREV => some 10
    | .BLOCK_HEADER_SYNC => some 1
    | .BLOCK_RECENT_CONSENSUS_CHANGE | .BLOCK_TIME_FUTURE | .BLOCK_HEADER_REJECT => none
  | .error _ | .exception _ => none

/-- The main network's genesis header. -/
def genesisHeader : CBlockHeader :=
  { nVersion := 1, hashPrevBlock := 0,
    hashMerkleRoot := 0x12630d16a97f24b287c8c2594dda5fb98c9e6c70fc61d44191931ea2aa08dc90#256,
    nTime := 1393221600, nBits := 0x1e0fffff, nNonce := 164482, nFlags := 0 }

def genesisIndex : CBlockIndex :=
  let pindex := CBlockIndex.ofHeader genesisHeader Params.main.hashGenesisBlock
  { pindex with nChainWork := getBlockProof pindex, nTx := 1, nChainTx := 1,
                nStatus := BLOCK_VALID_SCRIPTS ||| BLOCK_HAVE_DATA }

/-- A main-network node that has loaded and connected only the genesis block. -/
def genesisState : ChainstateManager where
  m_block_index h := if h = Params.main.hashGenesisBlock then some genesisIndex else none
  m_best_header := some Params.main.hashGenesisBlock
  m_chain := [Params.main.hashGenesisBlock]
  m_failed_blocks := []
  setBlockIndexCandidates := [Params.main.hashGenesisBlock]
  m_blocks_unlinked := []
  nBlockSequenceId := 1

/-- Main-network rules with checkpoints off and no minimum chain work. -/
def exampleChainContext : ChainContext := ⟨Params.main, false, [], false, 0⟩

end BlackcoinMore.AcceptBlock
