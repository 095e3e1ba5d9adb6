import BlackcoinMore.ArithUint256
import BlackcoinMore.ChainParams
import BlackcoinMore.ExceptFold

/-! The block index of `chain.{h,cpp}` and `node/blockstorage.cpp`: one `CBlockIndex` per known
header, stored in `m_block_index` under the block's hash. A pointer between entries (`pprev`,
`pskip`) is the hash under which the entry it points to is stored; a pointer with no entry
behind it reads as `nullptr`. -/
namespace BlackcoinMore.BlockIndex
open Primitives ArithUint256 ChainParams

def BLOCK_VALID_UNKNOWN : UInt32 := 0
def BLOCK_VALID_RESERVED : UInt32 := 1
def BLOCK_VALID_TREE : UInt32 := 2
def BLOCK_VALID_TRANSACTIONS : UInt32 := 3
def BLOCK_VALID_CHAIN : UInt32 := 4
def BLOCK_VALID_SCRIPTS : UInt32 := 5
def BLOCK_VALID_MASK : UInt32 := BLOCK_VALID_RESERVED ||| BLOCK_VALID_TREE |||
  BLOCK_VALID_TRANSACTIONS ||| BLOCK_VALID_CHAIN ||| BLOCK_VALID_SCRIPTS
def BLOCK_HAVE_DATA : UInt32 := 8
def BLOCK_HAVE_UNDO : UInt32 := 16
def BLOCK_FAILED_VALID : UInt32 := 32
def BLOCK_FAILED_CHILD : UInt32 := 64
def BLOCK_FAILED_MASK : UInt32 := BLOCK_FAILED_VALID ||| BLOCK_FAILED_CHILD
def BLOCK_PROOF_OF_STAKE : UInt32 := 1

structure CBlockIndex where
  phashBlock : Uint256
  pprev : Option Uint256
  pskip : Option Uint256
  nHeight : Nat
  /-- An `arith_uint256` in the source: the sum of the block proofs, far below `2 ^ 256`. -/
  nChainWork : Nat
  nTx : Nat
  nChainTx : Nat
  nStatus : UInt32
  nVersion : Int32
  hashMerkleRoot : Uint256
  nTime : UInt32
  nBits : UInt32
  nNonce : UInt32
  nSequenceId : Int
  nFlags : UInt32
  deriving DecidableEq, Repr

namespace CBlockIndex

/-- `CBlockIndex(const CBlockHeader&)`, with the `phashBlock` that `AddToBlockIndex` sets. -/
def ofHeader (block : CBlockHeader) (hash : Uint256) : CBlockIndex :=
  { phashBlock := hash, pprev := none, pskip := none, nHeight := 0, nChainWork := 0, nTx := 0,
    nChainTx := 0, nStatus := 0, nVersion := block.nVersion, hashMerkleRoot := block.hashMerkleRoot,
    nTime := block.nTime, nBits := block.nBits, nNonce := block.nNonce, nSequenceId := 0,
    nFlags := block.nFlags }

def getBlockTime (b : CBlockIndex) : Int := b.nTime.toNat

def isProofOfStake (b : CBlockIndex) : Bool := b.nFlags &&& BLOCK_PROOF_OF_STAKE != 0

def isProofOfWork (b : CBlockIndex) : Bool := !b.isProofOfStake

def setProofOfStake (b : CBlockIndex) : CBlockIndex :=
  { b with nFlags := b.nFlags ||| BLOCK_PROOF_OF_STAKE }

def isValid (b : CBlockIndex) (nUpTo : UInt32 := BLOCK_VALID_TRANSACTIONS) : Bool :=
  b.nStatus &&& BLOCK_FAILED_MASK == 0 && nUpTo ≤ b.nStatus &&& BLOCK_VALID_MASK

/-- `RaiseValidity(nUpTo)`: whether the level rose, and the entry. -/
def raiseValidity (b : CBlockIndex) (nUpTo : UInt32) : Bool × CBlockIndex :=
  if b.nStatus &&& BLOCK_FAILED_MASK != 0 then (false, b)
  else if b.nStatus &&& BLOCK_VALID_MASK < nUpTo then
    (true, { b with nStatus := (b.nStatus &&& ~~~BLOCK_VALID_MASK) ||| nUpTo })
  else (false, b)

theorem raiseValidity_snd (b : CBlockIndex) (nUpTo : UInt32) :
    ∃ nStatus, (b.raiseValidity nUpTo).2 = { b with nStatus } := by
  unfold raiseValidity
  split_ifs
  · exact ⟨b.nStatus, rfl⟩
  · exact ⟨_, rfl⟩
  · exact ⟨b.nStatus, rfl⟩

@[simp] theorem nFlags_raiseValidity (b : CBlockIndex) (nUpTo : UInt32) :
    (b.raiseValidity nUpTo).2.nFlags = b.nFlags := by
  obtain ⟨_, h⟩ := raiseValidity_snd b nUpTo
  rw [h]

@[simp] theorem phashBlock_raiseValidity (b : CBlockIndex) (nUpTo : UInt32) :
    (b.raiseValidity nUpTo).2.phashBlock = b.phashBlock := by
  obtain ⟨_, h⟩ := raiseValidity_snd b nUpTo
  rw [h]

@[simp] theorem isProofOfStake_setProofOfStake (b : CBlockIndex) :
    b.setProofOfStake.isProofOfStake = true := by
  simp only [setProofOfStake, isProofOfStake, BLOCK_PROOF_OF_STAKE, bne_iff_ne, ne_eq]
  intro h
  have h0 := congrArg (fun v : UInt32 => v.toBitVec.getLsbD 0) h
  simp at h0

end CBlockIndex

/-- `m_block_index`. -/
abbrev BlockMap := Uint256 → Option CBlockIndex

def invertLowestOne (n : Nat) : Nat := n &&& (n - 1)

def getSkipHeight (height : Nat) : Nat :=
  if height < 2 then 0
  else if height &&& 1 != 0 then invertLowestOne (invertLowestOne (height - 1)) + 1
  else invertLowestOne height

section
variable (m : BlockMap)

/-- The loop of `GetAncestor(height)` from `pindexWalk` at `heightWalk`, for at most `fuel`
rounds; each round lowers `heightWalk`. -/
def ancestorWalk (height : Nat) : Nat → CBlockIndex → Nat → Except String CBlockIndex
  | 0, pindexWalk, _ => .ok pindexWalk
  | fuel + 1, pindexWalk, heightWalk =>
    if height < heightWalk then
      let heightSkip := getSkipHeight heightWalk
      let heightSkipPrev := getSkipHeight (heightWalk - 1)
      -- Only follow pskip if pprev->pskip isn't better than pskip->pprev.
      let followSkip := heightSkip == height ||
        (height < heightSkip && !(heightSkipPrev + 2 < heightSkip && height ≤ heightSkipPrev))
      match pindexWalk.pskip.bind m, followSkip with
      | some pskip, true => ancestorWalk height fuel pskip heightSkip
      | _, _ =>
        match pindexWalk.pprev.bind m with
        | some pprev => ancestorWalk height fuel pprev (heightWalk - 1)
        | none => .error "Assertion `pindexWalk->pprev' failed."
    else .ok pindexWalk

/-- `CBlockIndex::GetAncestor(height)`; `none` is the null pointer. -/
def getAncestor (p : CBlockIndex) (height : Int) : Except String (Option CBlockIndex) :=
  if p.nHeight < height ∨ height < 0 then .ok none
  else some <$> ancestorWalk m height.toNat p.nHeight p p.nHeight

/-- `BuildSkip()`. -/
def buildSkip (p : CBlockIndex) : Except String CBlockIndex :=
  match p.pprev.bind m with
  | some pprev => do
    let pskip ← getAncestor m pprev (getSkipHeight p.nHeight)
    pure { p with pskip := pskip.map (·.phashBlock) }
  | none => pure p

theorem buildSkip_eq_ok {p q : CBlockIndex} (h : buildSkip m p = .ok q) :
    ∃ pskip, q = { p with pskip } := by
  unfold buildSkip at h
  split at h
  · obtain ⟨a, -, h⟩ := ExceptFold.bind_eq_ok h
    cases h
    exact ⟨_, rfl⟩
  · cases h
    exact ⟨p.pskip, rfl⟩

def nMedianTimeSpan : Nat := 11

/-- The times of `pindex` and of up to `n - 1` of its ancestors, newest first. -/
def recentTimes : Nat → Option CBlockIndex → List Int
  | 0, _ => []
  | _ + 1, none => []
  | n + 1, some pindex => pindex.getBlockTime :: recentTimes n (pindex.pprev.bind m)

/-- `GetMedianTimePast()`: from protocol V2 on, the block's own time. -/
def getMedianTimePast (params : Params) (p : CBlockIndex) : Int :=
  if params.isProtocolV2 p.getBlockTime then p.getBlockTime
  else
    let pmedian := (recentTimes m nMedianTimeSpan (some p)).mergeSort fun a b => decide (a ≤ b)
    pmedian.getD (pmedian.length / 2) 0

/-- The loop of `GetLastBlockIndex`, for at most `fuel` rounds. -/
def lastBlockIndexWalk (fProofOfStake : Bool) : Nat → CBlockIndex → CBlockIndex
  | 0, pindex => pindex
  | fuel + 1, pindex =>
    match pindex.pprev.bind m with
    | some pprev =>
      if pindex.isProofOfStake != fProofOfStake then lastBlockIndexWalk fProofOfStake fuel pprev
      else pindex
    | none => pindex

/-- `GetLastBlockIndex(pindex, fProofOfStake)`: the nearest block of the kind, or the genesis. -/
def getLastBlockIndex (pindex : CBlockIndex) (fProofOfStake : Bool) : CBlockIndex :=
  lastBlockIndexWalk m fProofOfStake pindex.nHeight pindex

/-- `GetBlockProof`: `~bnTarget / (bnTarget + 1) + 1`, that is `2 ^ 256 / (bnTarget + 1)`. -/
def getBlockProof (block : CBlockIndex) : Nat :=
  let (bnTarget, fNegative, fOverflow) := ArithUint256.setCompact block.nBits
  if fNegative || fOverflow || bnTarget == BaseUint.zero then 0
  else (2 ^ 256 - 1 - bnTarget.toNat) / (bnTarget.toNat + 1) + 1

/-- `AddToBlockIndex(block, best_header, fSetAsProofOfStake)` for the header of hash `hash`:
the map, the best header and the entry. -/
def addToBlockIndex (best_header : Option Uint256) (block : CBlockHeader) (hash : Uint256)
    (fSetAsProofOfStake : Bool) : Except String (BlockMap × Option Uint256 × CBlockIndex) := do
  match m hash with
  | some pindex => pure (m, best_header, pindex)
  | none =>
    let pindexNew := CBlockIndex.ofHeader block hash
    let pindexNew ← (match m block.hashPrevBlock with
      | some pprev =>
        buildSkip m { pindexNew with pprev := some block.hashPrevBlock, nHeight := pprev.nHeight + 1 }
      | none => pure pindexNew)
    let pindexNew := if fSetAsProofOfStake then pindexNew.setProofOfStake else pindexNew
    let prevWork := ((pindexNew.pprev.bind m).map (·.nChainWork)).getD 0
    let pindexNew := (({ pindexNew with nChainWork := prevWork + getBlockProof pindexNew } :
      CBlockIndex).raiseValidity BLOCK_VALID_TREE).2
    let best_header := match best_header.bind m with
      | some best => if best.nChainWork < pindexNew.nChainWork then some hash else best_header
      | none => some hash
    pure (Function.update m hash (some pindexNew), best_header, pindexNew)

/-- A new header is stored under its hash, with the proof-of-stake flag its `nFlags` carries
or `fSetAsProofOfStake` sets. -/
theorem addToBlockIndex_new {best_header best' : Option Uint256} {block : CBlockHeader}
    {hash : Uint256} {fSetAsProofOfStake : Bool} {m' : BlockMap} {pindex : CBlockIndex}
    (hnew : m hash = none)
    (h : addToBlockIndex m best_header block hash fSetAsProofOfStake = .ok (m', best', pindex)) :
    m' hash = some pindex ∧ pindex.phashBlock = hash ∧
      pindex.isProofOfStake = (fSetAsProofOfStake || block.nFlags &&& BLOCK_PROOF_OF_STAKE != 0) := by
  unfold addToBlockIndex at h
  simp only [hnew] at h
  obtain ⟨q, hq, h⟩ := ExceptFold.bind_eq_ok h
  cases h
  -- the entry before the flag: the header's `nFlags` and `hash`, whatever `BuildSkip` set
  have hq' : q.nFlags = block.nFlags ∧ q.phashBlock = hash := by
    split at hq
    · obtain ⟨_, rfl⟩ := buildSkip_eq_ok m hq
      exact ⟨rfl, rfl⟩
    · cases hq
      exact ⟨rfl, rfl⟩
  refine ⟨by simp, ?_, ?_⟩
  · cases fSetAsProofOfStake <;> simp [CBlockIndex.setProofOfStake, hq'.2]
  · cases fSetAsProofOfStake
    · simp [CBlockIndex.isProofOfStake, hq'.1]
    · simpa [CBlockIndex.isProofOfStake] using CBlockIndex.isProofOfStake_setProofOfStake q

/-- `AutoSelectSyncCheckpoint(pindexBest)`: the block `nCoinbaseMaturity` below the best one,
or the genesis block. -/
def autoSelectSyncCheckpoint (params : Params) (pindexBest : CBlockIndex) : CBlockIndex :=
  walk pindexBest.nHeight pindexBest
where
  walk : Nat → CBlockIndex → CBlockIndex
    | 0, pindex => pindex
    | fuel + 1, pindex =>
      match pindex.pprev.bind m with
      | some pprev =>
        if (pindexBest.nHeight : Int) < pindex.nHeight + params.nCoinbaseMaturity then walk fuel pprev
        else pindex
      | none => pindex

/-- `CheckSyncCheckpoint(nHeight, pindexBest)`. -/
def checkSyncCheckpoint (params : Params) (nHeight : Nat) (pindexBest : CBlockIndex) : Bool :=
  nHeight == 0 || (autoSelectSyncCheckpoint m params pindexBest).nHeight < nHeight

/-- `GetLastCheckpoint`: the highest checkpoint whose block is in the index. -/
def getLastCheckpoint (checkpoints : List (Nat × Uint256)) : Option CBlockIndex :=
  (checkpoints.reverse.filterMap fun (_, hash) => m hash).head?

end

end BlackcoinMore.BlockIndex
