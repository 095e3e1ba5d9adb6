import BlackcoinMore.AcceptBlock
import BlackcoinMore.DisconnectBlock

/-! Chain selection: `CChain` (`chain.cpp`), `FindMostWorkChain`, `ConnectTip`, `DisconnectTip`,
`ActivateBestChainStep` and `ActivateBestChain` of `validation.cpp`, and `ProcessNewBlock` and
`ProcessNewBlockHeaders` around them. The node's state is the chainstate manager with the
coins tip of its active chainstate and the block and undo files. Every failure of chain
activation in this model is a `FatalError` or a failed assertion of the source, after which the
node shuts down; such a run is reported by its message. -/
namespace BlackcoinMore.ActivateChain
open Primitives Serialize Coins ChainParams BlockChecks BlockIndex ConnectBlock ChainState
  AcceptBlock DisconnectBlock

/-- The `CValidationInterface` notifications the chainstate sends. -/
inductive ValidationSignal
  | blockConnected (hash : Uint256)
  | blockDisconnected (hash : Uint256)
  | updatedBlockTip (newTip : Uint256) (fork : Option Uint256)
  deriving DecidableEq, Repr

structure Node where
  chainman : ChainstateManager
  /-- `CoinsTip()` of the active chainstate, as its users see it. -/
  coinsTip : CoinsView
  /-- The `blk` files: the bytes `WriteBlockToDisk` wrote for each block. -/
  blockFiles : Uint256 → Option Bytes
  /-- The `rev` files: the undo data `WriteUndoDataForBlock` wrote for each block. -/
  undoFiles : Uint256 → Option CBlockUndo
  signals : List ValidationSignal

/-! ### `CChain` on the hashes of the active chain -/

section Chain
variable (s : ChainstateManager)

/-- `CChain::Contains(pindex)`. -/
def contains (pindex : CBlockIndex) : Bool := s.m_chain[pindex.nHeight]? == some pindex.phashBlock

/-- The walk of `CChain::FindFork` down `pprev` to the first block of the chain. -/
def forkWalk : Nat → Option CBlockIndex → Option CBlockIndex
  | 0, pindex => pindex
  | _ + 1, none => none
  | fuel + 1, some pindex =>
    if contains s pindex then some pindex else forkWalk fuel (pindex.pprev.bind s.m_block_index)

/-- `CChain::FindFork(pindex)`: the last common block of the chain and `pindex`'s branch. -/
def findFork : Option CBlockIndex → Except String (Option CBlockIndex)
  | none => pure none
  | some pindex => do
    let pindex ← if s.height < pindex.nHeight then getAncestor s.m_block_index pindex s.height
      else pure (some pindex)
    pure (forkWalk s (pindex.map (·.nHeight + 1) |>.getD 0) pindex)

/-- `vChain.resize(n)`, with the hash `0` for a null entry. -/
def resizeChain (chain : List Uint256) (n : Nat) : List Uint256 :=
  chain.take n ++ List.replicate (n - chain.length) 0

/-- The walk of `CChain::SetTip`, writing each block at its height until the chain agrees. -/
def setTipWalk : Nat → List Uint256 → Option CBlockIndex → List Uint256
  | 0, chain, _ => chain
  | _ + 1, chain, none => chain
  | fuel + 1, chain, some pindex =>
    if chain[pindex.nHeight]? = some pindex.phashBlock then chain
    else setTipWalk fuel (chain.set pindex.nHeight pindex.phashBlock) (pindex.pprev.bind s.m_block_index)

/-- `CChain::SetTip(block)`. -/
def setTip (pindex : CBlockIndex) : ChainstateManager :=
  { s with m_chain :=
      setTipWalk s (pindex.nHeight + 1) (resizeChain s.m_chain (pindex.nHeight + 1)) (some pindex) }

end Chain

/-! ### Candidates and invalid blocks -/

section Candidates
variable (s : ChainstateManager)

/-- `setBlockIndexCandidates.rbegin()`: the candidate that sorts last under
`CBlockIndexWorkComparator`. -/
def bestCandidate : Option CBlockIndex :=
  s.setBlockIndexCandidates.foldl (fun best hash =>
    match s.m_block_index hash, best with
    | none, _ => best
    | some p, none => some p
    | some p, some b => if workLess b p then some p else best) none

def eraseCandidate (hash : Uint256) : ChainstateManager :=
  { s with setBlockIndexCandidates := s.setBlockIndexCandidates.filter (· != hash) }

def blockFailed (pindex : CBlockIndex) : Bool := pindex.nStatus &&& BLOCK_FAILED_MASK != 0

def blockHasData (pindex : CBlockIndex) : Bool := pindex.nStatus &&& BLOCK_HAVE_DATA != 0

/-- The walk of `FindMostWorkChain` from a candidate down to the active chain: the first block
on the way that has failed or has no data. -/
def unusableWalk : Nat → Option CBlockIndex → Except String (Option CBlockIndex)
  | 0, _ => pure none
  | _ + 1, none => pure none
  | fuel + 1, some pindexTest =>
    if contains s pindexTest then pure none
    else if !(pindexTest.nChainTx != 0 || pindexTest.nHeight == 0) then
      throw "Assertion `pindexTest->HaveNumChainTxs() || pindexTest->nHeight == 0' failed."
    else if blockFailed pindexTest || !blockHasData pindexTest then pure (some pindexTest)
    else unusableWalk fuel (pindexTest.pprev.bind s.m_block_index)

/-- Remove a candidate chain from `pindexFailed` down to `pindexTest`: a failed chain marks each
block `BLOCK_FAILED_CHILD`, one with missing data queues it in `m_blocks_unlinked` again. -/
def removeChain (pindexTest : CBlockIndex) (fFailedChain : Bool) :
    Nat → ChainstateManager → CBlockIndex → ChainstateManager
  | 0, s, _ => eraseCandidate s pindexTest.phashBlock
  | fuel + 1, s, pindexFailed =>
    if pindexFailed.phashBlock = pindexTest.phashBlock then eraseCandidate s pindexTest.phashBlock
    else
      let s := if fFailedChain then
          s.modifyIndex pindexFailed.phashBlock fun b => { b with nStatus := b.nStatus ||| BLOCK_FAILED_CHILD }
        else match pindexFailed.pprev with
          | some pprev => { s with m_blocks_unlinked := s.m_blocks_unlinked ++ [(pprev, pindexFailed.phashBlock)] }
          | none => s
      let s := eraseCandidate s pindexFailed.phashBlock
      match pindexFailed.pprev.bind s.m_block_index with
      | some pprev => removeChain pindexTest fFailedChain fuel s pprev
      | none => eraseCandidate s pindexTest.phashBlock

/-- `FindMostWorkChain()`: each round drops the best candidate or returns it. -/
def findMostWorkChain : Nat → ChainstateManager → Except String (ChainstateManager × Option CBlockIndex)
  | 0, _ => throw "FindMostWorkChain: out of fuel"
  | fuel + 1, s =>
    match bestCandidate s with
    | none => pure (s, none)
    | some pindexNew => do
      match ← unusableWalk s (pindexNew.nHeight + 1) (some pindexNew) with
      | none => pure (s, some pindexNew)
      | some pindexTest =>
        findMostWorkChain fuel (removeChain pindexTest (blockFailed pindexTest) (pindexNew.nHeight + 1) s pindexNew)

/-- `PruneBlockIndexCandidates()`: drop every candidate that sorts before the tip. -/
def pruneBlockIndexCandidates : Except String ChainstateManager :=
  match s.tip with
  | none => throw "null dereference of m_chain.Tip() in PruneBlockIndexCandidates"
  | some tip =>
    let cands := s.setBlockIndexCandidates.filter fun hash =>
      match s.m_block_index hash with
      | some p => !workLess p tip
      | none => true
    if cands.isEmpty then throw "Assertion `!setBlockIndexCandidates.empty()' failed."
    else pure { s with setBlockIndexCandidates := cands }

/-- `InvalidChainFound(pindexNew)`: a best header above the invalid block falls back to the tip. -/
def invalidChainFound (pindexNew : CBlockIndex) : Except String ChainstateManager := do
  let s ← match s.m_best_header.bind s.m_block_index with
    | some best => do
      let a ← getAncestor s.m_block_index best pindexNew.nHeight
      pure (if a.map (·.phashBlock) = some pindexNew.phashBlock then
        { s with m_best_header := s.tip.map (·.phashBlock) } else s)
    | none => pure s
  if s.tip.isNone then throw "Assertion `tip' failed."
  pure s

/-- `InvalidBlockFound(pindex, state)` for a block that failed with `result`. -/
def invalidBlockFound (pindex : CBlockIndex) (result : BlockValidationResult) :
    Except String ChainstateManager :=
  if result != .BLOCK_MUTATED then
    let s := s.modifyIndex pindex.phashBlock fun b => { b with nStatus := b.nStatus ||| BLOCK_FAILED_VALID }
    let s := { s with m_failed_blocks :=
      if pindex.phashBlock ∈ s.m_failed_blocks then s.m_failed_blocks else s.m_failed_blocks ++ [pindex.phashBlock] }
    invalidChainFound (eraseCandidate s pindex.phashBlock) pindex
  else pure s

end Candidates

/-! ### Connecting and disconnecting the tip -/

namespace Node
variable (cc : ChainContext) (orc : ConnectOracles) (now : Int)

/-- `ReadBlockFromDisk(block, index)`: the block decoded from its file, with the hash check. -/
def readBlockFromDisk (n : Node) (pindex : CBlockIndex) : Option CBlock :=
  match n.blockFiles pindex.phashBlock with
  | none => none
  | some bytes =>
    match (unserializeBlock false true).run bytes with
    | .ok (block, _) =>
      if CBlockHeader.getHash orc.toOracles block.toCBlockHeader = pindex.phashBlock then some block else none
    | .error _ => none

/-- `DisconnectTip(state, disconnectpool)`. -/
def disconnectTip (n : Node) : Except String Node :=
  match n.chainman.tip with
  | none => throw "Assertion `pindexDelete' failed."
  | some pindexDelete =>
    match pindexDelete.pprev.bind n.chainman.m_block_index with
    | none => throw "Assertion `pindexDelete->pprev' failed."
    | some pprev =>
      match readBlockFromDisk orc n pindexDelete with
      | none => throw "DisconnectTip(): Failed to read block"
      | some block => do
        if n.coinsTip.hashBlock != pindexDelete.phashBlock then
          throw "Assertion `view.GetBestBlock() == pindexDelete->GetBlockHash()' failed."
        let (res, view) ← disconnectBlock orc.hash256 block pindexDelete.nHeight pprev.phashBlock
          (n.undoFiles pindexDelete.phashBlock) n.coinsTip
        if res != .DISCONNECT_OK then throw "DisconnectTip(): DisconnectBlock failed"
        pure { n with coinsTip := view, chainman := setTip n.chainman pprev,
                      signals := n.signals ++ [.blockDisconnected pindexDelete.phashBlock] }

/-- The context `ConnectBlock` reads in the active chainstate. -/
def connectContext (n : Node) : Context :=
  ⟨cc.params, cc.checkpoints, cc.checkpointsEnabled, n.chainman.height, now⟩

/-- `ConnectTip(state, pindexNew, pblock, ...)`: the node, and the result of a block that
failed validation (`none` when it connected). A connected block's `BlockConnected` signal,
which the source sends from the connect trace after the step, is recorded here. -/
def connectTip (n : Node) (pindexNew : CBlockIndex) (pblock : Option CBlock) :
    Except String (Node × Option BlockValidationResult) := do
  if pindexNew.pprev != n.chainman.tip.map (·.phashBlock) then
    throw "Assertion `pindexNew->pprev == m_chain.Tip()' failed."
  let block ← match pblock with
    | some block => pure block
    | none => match readBlockFromDisk orc n pindexNew with
      | some block => pure block
      | none => throw "Failed to read block"
  match connectBlock (connectContext cc now n) orc block pindexNew.nHeight pindexNew.pprev n.coinsTip with
  | .error (.invalid result _) => do
    let s ← invalidBlockFound n.chainman pindexNew result
    pure ({ n with chainman := s }, some result)
  | .error (.error m) => throw m
  | .error (.exception w) => throw w
  | .ok (view, blockundo) =>
    -- `WriteUndoDataForBlock` (not for the genesis block) and `RaiseValidity(BLOCK_VALID_SCRIPTS)`
    let fUndo := pindexNew.pprev.isSome
    let s := n.chainman.modifyIndex pindexNew.phashBlock fun b =>
      ({ b with nStatus := if fUndo then b.nStatus ||| BLOCK_HAVE_UNDO else b.nStatus } :
        CBlockIndex).raiseValidity BLOCK_VALID_SCRIPTS |>.2
    let undoFiles := if fUndo then Function.update n.undoFiles pindexNew.phashBlock (some blockundo)
      else n.undoFiles
    pure ({ n with chainman := setTip s pindexNew, coinsTip := view, undoFiles,
                   signals := n.signals ++ [.blockConnected pindexNew.phashBlock] }, none)

/-- The disconnect loop of `ActivateBestChainStep`: `DisconnectTip` until the tip is the fork;
each round shortens the chain. -/
def disconnectToFork (pindexFork : Option CBlockIndex) : Nat → Node → Except String Node
  | 0, n => pure n
  | fuel + 1, n =>
    match n.chainman.tip with
    | none => pure n
    | some tip =>
      if some tip.phashBlock = pindexFork.map (·.phashBlock) then pure n
      else disconnectTip orc n >>= disconnectToFork pindexFork fuel

/-- The list `vpindexToConnect`: from `pindexIter` down `pprev` to height `nHeight`, highest first. -/
def blocksToConnect (m : BlockMap) (nHeight : Int) : Nat → Option CBlockIndex → List CBlockIndex
  | 0, _ => []
  | _ + 1, none => []
  | fuel + 1, some pindexIter =>
    if (pindexIter.nHeight : Int) = nHeight then []
    else pindexIter :: blocksToConnect m nHeight fuel (pindexIter.pprev.bind m)

/-- How a batch of `ConnectTip` calls ends: all connected, or the step stops (with
`fInvalidFound`). -/
inductive BatchEnd
  | next
  | stop (fInvalidFound : Bool)

/-- The connect loop over one batch, lowest block first. `front` is `vpindexToConnect.front()`,
`pindexOldTip` the tip when the step began. -/
def connectBatch (pindexMostWork : CBlockIndex) (pblock : Option CBlock) (pindexOldTip : Option CBlockIndex)
    (front : CBlockIndex) : List CBlockIndex → Node → Except String (Node × BatchEnd)
  | [], n => pure (n, .next)
  | pindexConnect :: rest, n => do
    let pblock := if pindexConnect.phashBlock = pindexMostWork.phashBlock then pblock else none
    match ← connectTip cc orc now n pindexConnect pblock with
    | (n, some result) =>
      -- The block violates a consensus rule.
      let s ← if result != .BLOCK_MUTATED then invalidChainFound n.chainman front else pure n.chainman
      pure ({ n with chainman := s }, .stop true)
    | (n, none) => do
      let s ← pruneBlockIndexCandidates n.chainman
      let n := { n with chainman := s }
      -- We're in a better position than we were. Return temporarily to release the lock.
      match pindexOldTip, s.tip with
      | none, _ => pure (n, .stop false)
      | some _, none => throw "null dereference of m_chain.Tip() in ActivateBestChainStep"
      | some old, some tip =>
        if old.nChainWork < tip.nChainWork then pure (n, .stop false)
        else connectBatch pindexMostWork pblock pindexOldTip front rest n

/-- The batches of `ActivateBestChainStep`: up to 32 blocks towards `pindexMostWork` at a time,
from height `nHeight`; `fInvalidFound`. -/
def connectBatches (pindexMostWork : CBlockIndex) (pblock : Option CBlock) (pindexOldTip : Option CBlockIndex) :
    Nat → Int → Node → Except String (Node × Bool)
  | 0, _, n => pure (n, false)
  | fuel + 1, nHeight, n => do
    if nHeight = pindexMostWork.nHeight then return (n, false)
    let nTargetHeight := min (nHeight + 32) pindexMostWork.nHeight
    let pindexIter ← getAncestor n.chainman.m_block_index pindexMostWork nTargetHeight
    let vpindexToConnect :=
      blocksToConnect n.chainman.m_block_index nHeight (nTargetHeight - nHeight).toNat pindexIter
    match vpindexToConnect with
    | [] => connectBatches pindexMostWork pblock pindexOldTip fuel nTargetHeight n
    | front :: _ =>
      match ← connectBatch cc orc now pindexMostWork pblock pindexOldTip front vpindexToConnect.reverse n with
      | (n, .next) => connectBatches pindexMostWork pblock pindexOldTip fuel nTargetHeight n
      | (n, .stop fInvalidFound) => pure (n, fInvalidFound)

/-- `ActivateBestChainStep(state, pindexMostWork, pblock, fInvalidFound, connectTrace)`: the node
and `fInvalidFound`. -/
def activateBestChainStep (n : Node) (pindexMostWork : CBlockIndex) (pblock : Option CBlock) :
    Except String (Node × Bool) := do
  let pindexOldTip := n.chainman.tip
  let pindexFork ← findFork n.chainman (some pindexMostWork)
  -- Disconnect active blocks which are no longer in the best chain.
  let n ← disconnectToFork orc pindexFork n.chainman.m_chain.length n
  -- Build list of new blocks to connect (in descending height order).
  let nHeight : Int := (pindexFork.map (·.nHeight : CBlockIndex → Int)).getD (-1)
  connectBatches cc orc now pindexMostWork pblock pindexOldTip
    ((pindexMostWork.nHeight : Int) - nHeight).toNat nHeight n

def tipHash (n : Node) : Option Uint256 := n.chainman.tip.map (·.phashBlock)

/-- The inner loop of `ActivateBestChain`: steps while the tip sorts before `starting_tip`.
Returns the node, `pindexMostWork`, `pindexNewTip` and `blocks_connected`. -/
def activateInner (pblock : Option CBlock) (starting_tip : Option CBlockIndex) :
    Nat → Node → Option CBlockIndex → Option Uint256 → Bool →
      Except String (Node × Option CBlockIndex × Option Uint256 × Bool)
  | 0, _, _, _, _ => throw "ActivateBestChain: out of fuel"
  | fuel + 1, n, pindexMostWork, pindexNewTip, blocks_connected => do
    let (s, pindexMostWork) ← match pindexMostWork with
      | none => findMostWorkChain (n.chainman.setBlockIndexCandidates.length + 1) n.chainman
      | some p => pure (n.chainman, some p)
    let n := { n with chainman := s }
    -- Whether we have anything to do at all.
    match pindexMostWork with
    | none => pure (n, none, pindexNewTip, blocks_connected)
    | some mostWork =>
      if some mostWork.phashBlock = tipHash n then pure (n, pindexMostWork, pindexNewTip, blocks_connected)
      else
        let pblock := pblock.filter fun b =>
          CBlockHeader.getHash orc.toOracles b.toCBlockHeader = mostWork.phashBlock
        let (n, fInvalidFound) ← activateBestChainStep cc orc now n mostWork pblock
        -- Wipe cache, we may need another branch now.
        let pindexMostWork := if fInvalidFound then none else pindexMostWork
        let pindexNewTip := tipHash n
        let worse := match n.chainman.tip, starting_tip with
          | none, _ => true
          | some tip, some st => workLess tip st
          | some _, none => false
        if worse then activateInner pblock starting_tip fuel n pindexMostWork pindexNewTip true
        else pure (n, pindexMostWork, pindexNewTip, true)

/-- The outer loop of `ActivateBestChain`, until the new tip is `pindexMostWork`. -/
def activateOuter (pblock : Option CBlock) : Nat → Node → Option CBlockIndex → Option Uint256 →
    Except String Node
  | 0, _, _, _ => throw "ActivateBestChain: out of fuel"
  | fuel + 1, n, pindexMostWork, pindexNewTip => do
    let starting_tip := n.chainman.tip
    let (n, pindexMostWork, pindexNewTip, blocks_connected) ←
      activateInner cc orc now pblock starting_tip (fuel + 1) n pindexMostWork pindexNewTip false
    if !blocks_connected then return n
    let pindexFork ← findFork n.chainman starting_tip
    -- Notify external listeners about the new tip.
    let n := match pindexNewTip with
      | some newTip => if pindexFork.map (·.phashBlock) != some newTip then
          { n with signals := n.signals ++ [.updatedBlockTip newTip (pindexFork.map (·.phashBlock))] }
        else n
      | none => n
    if pindexNewTip != pindexMostWork.map (·.phashBlock) then activateOuter pblock fuel n pindexMostWork pindexNewTip
    else pure n

/-- `ActivateBestChain(state, pblock)`. The rounds of its loops are bounded by twice the number
of sequence ids handed out, plus two; a run that needs more is reported as out of fuel. -/
def activateBestChain (n : Node) (pblock : Option CBlock) : Except String Node :=
  activateOuter cc orc now pblock (2 * n.chainman.nBlockSequenceId.toNat + 2) n none none

def haveData (s : ChainstateManager) (hash : Uint256) : Bool := (s.m_block_index hash).any blockHasData

/-- `ProcessNewBlock(block, force_processing, min_pow_checked, new_block)` at adjusted time
`now`. The block is written to its file exactly when `AcceptBlock` stores its data, which is
when its entry gains `BLOCK_HAVE_DATA`. A failed activation is reported with the node as
`AcceptBlock` left it. -/
def processNewBlock (n : Node) (block : CBlock) (fCanonicalSig force_processing min_pow_checked : Bool) :
    Node × Except BlockResult Unit :=
  match AcceptBlock.processNewBlock cc orc.toOracles n.chainman now block fCanonicalSig force_processing
      min_pow_checked with
  | (s, .error e) => ({ n with chainman := s }, .error e)
  | (s, .ok pindex) =>
    let written := !haveData n.chainman pindex.phashBlock && haveData s pindex.phashBlock
    let blockFiles := if written then
      Function.update n.blockFiles pindex.phashBlock (some (serializeBlock block false true)) else n.blockFiles
    let n := { n with chainman := s, blockFiles }
    match activateBestChain cc orc now n (some block) with
    | .ok n => (n, .ok ())
    | .error what => (n, .error (.error what))

/-- `ProcessNewBlockHeaders(headers, min_pow_checked, state, old_client, ppindex)`: the last
accepted entry. Its instant-ban flag is never set, so the failure is the header's own. -/
def processNewBlockHeaders (n : Node) (headers : List CBlockHeader) (min_pow_checked old_client : Bool) :
    Node × Except BlockResult (Option CBlockIndex) :=
  let (s, r) := headers.foldl (fun acc header =>
    match acc with
    | (s, .error e) => (s, .error e)
    | (s, .ok _) =>
      match acceptBlockHeader cc orc.toOracles s now header min_pow_checked old_client with
      | (s, .ok pindex) => (s, .ok (some pindex))
      | (s, .error e) => (s, .error e)) (n.chainman, .ok none)
  ({ n with chainman := s }, r)

end Node

end BlackcoinMore.ActivateChain
