import BlackcoinMore.ActivateChain

/-! How deep a reorganization the node makes. `ContextualCheckBlockHeader` refuses a header
whose height is `nMaxReorganizationDepth` below the tip or at or below the sync checkpoint of
the tip, and `AcceptBlockHeader` one older than that checkpoint; all three compare the new
header with the tip of the moment. `ActivateBestChainStep` then disconnects down to the fork
with no test of its own. A branch whose blocks arrive while each is close to the tip can
therefore replace the whole active chain later, here on regtest, where the sync checkpoint
trails the tip by `nCoinbaseMaturity` = 10 blocks: the reorganization below disconnects blocks
that sat at or below it. -/
namespace BlackcoinMore.ReorgDepth
open Primitives Coins ChainParams BlockChecks BlockIndex ConnectBlock ChainState AcceptBlock
  ActivateChain

/-- The regtest genesis header, `CreateGenesisBlock(1393221600, 216178, 0x1f00ffff, 1, 0)`. -/
def regtestGenesisHeader : CBlockHeader := { genesisHeader with nBits := 0x1f00ffff, nNonce := 216178 }

def regtestGenesisIndex : CBlockIndex :=
  let pindex := CBlockIndex.ofHeader regtestGenesisHeader Params.regtest.hashGenesisBlock
  { pindex with nChainWork := getBlockProof pindex, nTx := 1, nChainTx := 1,
                nStatus := BLOCK_VALID_SCRIPTS ||| BLOCK_HAVE_DATA }

/-- A regtest node that has loaded and connected only the genesis block. -/
def regtestGenesisNode : Node where
  chainman :=
    { m_block_index := fun h => if h = Params.regtest.hashGenesisBlock then some regtestGenesisIndex else none
      m_best_header := some Params.regtest.hashGenesisBlock
      m_chain := [Params.regtest.hashGenesisBlock]
      m_failed_blocks := []
      setBlockIndexCandidates := [Params.regtest.hashGenesisBlock]
      m_blocks_unlinked := []
      nBlockSequenceId := 1 }
  coinsTip := ⟨fun _ => Coin.empty, Params.regtest.hashGenesisBlock⟩
  blockFiles _ := none
  undoFiles _ := none
  signals := []

/-- Regtest rules with the default `-checkpoints`: the one checkpoint is the genesis block. -/
def regtestContext : ChainContext :=
  ⟨Params.regtest, true, [(0, Params.regtest.hashGenesisBlock)], true, 0⟩

/-- The polynomial stand-in hashes, with every header mined at the regtest target
`0x207fffff`. -/
def regtestOracles : ConnectOracles :=
  { exampleOracles with scrypt := fun bytes => exampleOracles.scrypt bytes >>> 8 }

def hashOf (block : CBlock) : Uint256 := CBlockHeader.getHash regtestOracles.toOracles block.toCBlockHeader

/-- Submit blocks one after another through `ProcessNewBlock`, as a peer relays them, at the
adjusted time `now`: the node, and whether every block was accepted. -/
def submitAll (now : Int) (n : Node) (blocks : List CBlock) : Node × Bool :=
  blocks.foldl (fun (n, ok) block =>
    let (n, r) := Node.processNewBlock regtestContext regtestOracles now n block true false true
    (n, ok && r.isOk)) (n, true)

namespace SiblingBranches

def now : Int := 1760010000

/-- The coinbase of the block at height `n` of `branch`: the height push, then the branch byte. -/
def coinbase (branch : UInt8) (n : Nat) : CTransaction :=
  ⟨[⟨⟨0, NULL_INDEX⟩, pushHeight n ++ [branch], 0xffffffff, []⟩], [⟨0, [0x51]⟩], 2, 0, 0⟩

def unrooted (branch : UInt8) (prev : Uint256) (n : Nat) : CBlock :=
  { nVersion := 7, hashPrevBlock := prev, hashMerkleRoot := 0,
    nTime := (1760000000 + 64 * n + branch.toNat).toUInt32, nBits := 0x207fffff, nNonce := 0,
    nFlags := 0, vtx := [coinbase branch n], vchBlockSig := [] }

/-- A proof-of-work block at height `n` on top of `prev`. -/
def block (branch : UInt8) (prev : Uint256) (n : Nat) : CBlock :=
  { unrooted branch prev n with
    hashMerkleRoot := (Merkle.blockMerkleRoot regtestOracles.hash256 (unrooted branch prev n)).1 }

/-- `k` blocks of `branch`, from height `n` on top of `prev`. -/
def chainFrom (branch : UInt8) : Nat → Uint256 → Nat → List CBlock
  | 0, _, _ => []
  | k + 1, prev, n => block branch prev n :: chainFrom branch k (hashOf (block branch prev n)) (n + 1)

/-- The active chain, 12 blocks on the genesis block. -/
def active : List CBlock := chainFrom 0 12 Params.regtest.hashGenesisBlock 1

/-- The rival chain from the same genesis block, one block longer. -/
def rival : List CBlock := chainFrom 1 13 Params.regtest.hashGenesisBlock 1

def rivalTip : CBlock := rival.getLastD (block 1 0 0)

/-- Each active block, then the rival block at the same height: a rival block has the work of
the tip and arrives after it, so it is stored but never preferred. -/
def interleaved : List CBlock := (active.zip rival).flatMap fun (a, r) => [a, r]

def beforeReorg : Node := (submitAll now regtestGenesisNode interleaved).1

end SiblingBranches

open SiblingBranches in
theorem processNewBlock_disconnects_past_reorg_limits :
    (submitAll now regtestGenesisNode interleaved).2 = true ∧
    beforeReorg.chainman.tip.map (fun T => (T.phashBlock, T.nHeight,
      (autoSelectSyncCheckpoint beforeReorg.chainman.m_block_index Params.regtest T).nHeight)) =
      some (hashOf (active.getLastD rivalTip), 12, 2) ∧
    (Node.processNewBlock regtestContext regtestOracles now beforeReorg rivalTip true false true).2.isOk = true ∧
    (Node.processNewBlock regtestContext regtestOracles now beforeReorg rivalTip true false true).1.signals.drop
        beforeReorg.signals.length =
      active.reverse.map (fun b => .blockDisconnected (hashOf b)) ++
      rival.map (fun b => .blockConnected (hashOf b)) ++
      [.updatedBlockTip (hashOf rivalTip) (some Params.regtest.hashGenesisBlock)] := by
  decide +kernel

end BlackcoinMore.ReorgDepth
