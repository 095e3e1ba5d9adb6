import BlackcoinMore.SkipList

/-! BIP9 version bits (`versionbits.{h,cpp}`, `consensus/params.h`): the threshold state of a
deployment for the block after `pindexPrev`, computed per retarget period by
`AbstractThresholdConditionChecker::GetStateFor` with a cache of period states, the height
since which the state holds, the signalling statistics of a period, and the block version a
miner sets (`VersionBitsCache`). Blackcoin activates SegWit by this machinery. The virtual
members of a checker are its fields, evaluated at the consensus parameters. -/

namespace BlackcoinMore.VersionBits
open Primitives ChainParams BlockIndex SkipList

inductive ThresholdState
  | DEFINED
  | STARTED
  | LOCKED_IN
  | ACTIVE
  | FAILED
  deriving DecidableEq, Repr

/-- `BIP9Deployment::ALWAYS_ACTIVE` and `NEVER_ACTIVE`, the special start times. -/
def ALWAYS_ACTIVE : Int := -1
def NEVER_ACTIVE : Int := -2

/-- `BIP9Deployment::NO_TIMEOUT`, `std::numeric_limits<int64_t>::max()`. -/
def NO_TIMEOUT : Int := 2 ^ 63 - 1

/-- An `AbstractThresholdConditionChecker` at given consensus parameters: `Condition`,
`BeginTime`, `EndTime`, `MinActivationHeight`, `Period` and `Threshold`. -/
structure ThresholdConditionChecker where
  condition : CBlockIndex → Bool
  beginTime : Int
  endTime : Int
  minActivationHeight : Int
  period : Nat
  threshold : Nat

/-- `ThresholdConditionCache`, keyed by the hash of the entry a pointer names; `none` is the key
of `nullptr`. -/
abbrev ThresholdConditionCache := Option Uint256 → Option ThresholdState

def keyOf (p : Option CBlockIndex) : Option Uint256 := p.map (·.phashBlock)

def heightOf (p : Option CBlockIndex) : Nat := (p.map (·.nHeight)).getD 0

section Checker
variable (m : BlockMap) (params : Params) (c : ThresholdConditionChecker)

/-- The counting loop of the `STARTED` case: `count` plus the blocks among the next `i` from
`pindexCount` down whose condition holds. A null `pindexCount` is dereferenced by `Condition`. -/
def countLoop : Nat → Option CBlockIndex → Nat → Except String Nat
  | 0, _, count => .ok count
  | _ + 1, none, _ => .error "Condition(nullptr)"
  | i + 1, some pindexCount, count =>
    countLoop i (pindexCount.pprev.bind m) (if c.condition pindexCount then count + 1 else count)

/-- The body of the forward walk of `GetStateFor`: the state of the period after `pindexPrev`,
from the state of the period `pindexPrev` ends. -/
def nextState (state : ThresholdState) (pindexPrev : CBlockIndex) : Except String ThresholdState :=
  match state with
  | .DEFINED => .ok (if c.beginTime ≤ getMedianTimePast m params pindexPrev then .STARTED else .DEFINED)
  | .STARTED => do
    let count ← countLoop m c c.period (some pindexPrev) 0
    pure (if c.threshold ≤ count then .LOCKED_IN
      else if c.endTime ≤ getMedianTimePast m params pindexPrev then .FAILED else .STARTED)
  | .LOCKED_IN => .ok (if c.minActivationHeight ≤ pindexPrev.nHeight + 1 then .ACTIVE else .LOCKED_IN)
  | .FAILED => .ok .FAILED
  | .ACTIVE => .ok .ACTIVE

/-- The first lines of `GetStateFor`: `pindexPrev` moved back to the last block of the period
before the one its child is in. -/
def alignToPeriod : Option CBlockIndex → Except String (Option CBlockIndex)
  | none => .ok none
  | some p => getAncestor m p (p.nHeight - (p.nHeight + 1) % c.period)

/-- The backward walk of `GetStateFor`, for at most `fuel` rounds: from `pindexPrev`, one period
at a time, until a cached entry, `nullptr` or a block before the start time, which it caches as
`DEFINED`. `vToCompute` holds the blocks passed, the last pushed first. -/
def walkBack : Nat → Option CBlockIndex → List CBlockIndex → ThresholdConditionCache →
    Except String (Option CBlockIndex × List CBlockIndex × ThresholdConditionCache)
  | 0, _, _, _ => .error "walk out of rounds"
  | fuel + 1, pindexPrev, vToCompute, cache =>
    if (cache (keyOf pindexPrev)).isSome then .ok (pindexPrev, vToCompute, cache)
    else
      match pindexPrev with
      | none => .ok (none, vToCompute, Function.update cache none (some .DEFINED))
      | some p =>
        if getMedianTimePast m params p < c.beginTime then
          .ok (some p, vToCompute, Function.update cache (some p.phashBlock) (some .DEFINED))
        else do
          let q ← getAncestor m p (p.nHeight - c.period)
          walkBack fuel q (p :: vToCompute) cache

/-- The forward walk of `GetStateFor`: the state of each block of `vToCompute`'s period after,
cached as it is computed. -/
def walkForward : ThresholdState → ThresholdConditionCache → List CBlockIndex →
    Except String (ThresholdState × ThresholdConditionCache)
  | state, cache, [] => .ok (state, cache)
  | state, cache, pindexPrev :: vToCompute => do
    let stateNext ← nextState m params c state pindexPrev
    walkForward stateNext (Function.update cache (some pindexPrev.phashBlock) (some stateNext)) vToCompute

/-- The cached state the forward walk starts from; `GetStateFor` asserts it is there. -/
def cachedState (cache : ThresholdConditionCache) (pindexPrev : Option CBlockIndex) :
    Except String ThresholdState :=
  match cache (keyOf pindexPrev) with
  | some state => .ok state
  | none => .error "Assertion `cache.count(pindexPrev)' failed."

/-- `GetStateFor(pindexPrev, params, cache)`: the state and the cache. -/
def getStateFor (pindexPrev : Option CBlockIndex) (cache : ThresholdConditionCache) :
    Except String (ThresholdState × ThresholdConditionCache) :=
  if c.beginTime = ALWAYS_ACTIVE then .ok (.ACTIVE, cache)
  else if c.beginTime = NEVER_ACTIVE then .ok (.FAILED, cache)
  else do
    let pindexPrev ← alignToPeriod m c pindexPrev
    let (pindexPrev, vToCompute, cache) ← walkBack m params c (heightOf pindexPrev + 2) pindexPrev [] cache
    let state ← cachedState cache pindexPrev
    walkForward m params c state cache vToCompute

/-- The loop of `GetStateSinceHeightFor`, for at most `fuel` rounds: back one period while the
period before has `initialState`. -/
def sinceLoop (initialState : ThresholdState) : Nat → CBlockIndex → Option CBlockIndex →
    ThresholdConditionCache → Except String (Int × ThresholdConditionCache)
  | 0, _, _, _ => .error "walk out of rounds"
  | fuel + 1, pindexPrev, previousPeriodParent, cache =>
    match previousPeriodParent with
    | none => .ok (pindexPrev.nHeight + 1, cache)
    | some q => do
      let (state, cache) ← getStateFor m params c (some q) cache
      if state = initialState then do
        let next ← getAncestor m q (q.nHeight - c.period)
        sinceLoop initialState fuel q next cache
      else .ok (pindexPrev.nHeight + 1, cache)

/-- `GetStateSinceHeightFor(pindexPrev, params, cache)`: the height and the cache. -/
def getStateSinceHeightFor (pindexPrev : Option CBlockIndex) (cache : ThresholdConditionCache) :
    Except String (Int × ThresholdConditionCache) :=
  if c.beginTime = ALWAYS_ACTIVE ∨ c.beginTime = NEVER_ACTIVE then .ok (0, cache)
  else do
    let (initialState, cache) ← getStateFor m params c pindexPrev cache
    if initialState = .DEFINED then .ok (0, cache)
    else do
      let aligned ← alignToPeriod m c pindexPrev
      match aligned with
      | none => .error "Assertion `pindexPrev->GetAncestor(pindexPrev->nHeight - ((pindexPrev->nHeight + 1) % nPeriod))' failed."
      | some p => do
        let previousPeriodParent ← getAncestor m p (p.nHeight - c.period)
        sinceLoop m params c initialState (p.nHeight + 1) p previousPeriodParent cache

/-- `BIP9Stats`. -/
structure BIP9Stats where
  period : Int
  threshold : Int
  elapsed : Int
  count : Int
  possible : Bool
  deriving DecidableEq, Repr

/-- The do-while loop of `GetStateStatisticsFor`: from `currentIndex` back to the start of the
period, `blocks_in_period` blocks, counting and marking the signalling ones. -/
def statsLoop : Nat → Option CBlockIndex → Nat → Nat → List Bool → Except String (Nat × Nat × List Bool)
  | 0, _, elapsed, count, signalling_blocks => .ok (elapsed, count, signalling_blocks)
  | _ + 1, none, _, _, _ => .error "Condition(nullptr)"
  | blocks_in_period + 1, some currentIndex, elapsed, count, signalling_blocks =>
    if c.condition currentIndex then
      statsLoop blocks_in_period (currentIndex.pprev.bind m) (elapsed + 1) (count + 1)
        (signalling_blocks.set blocks_in_period true)
    else statsLoop blocks_in_period (currentIndex.pprev.bind m) (elapsed + 1) count signalling_blocks

/-- `GetStateStatisticsFor(pindex, params, signalling_blocks)`: the statistics and the
signalling flags of the period's blocks up to `pindex`, oldest first. -/
def getStateStatisticsFor (pindex : Option CBlockIndex) : Except String (BIP9Stats × List Bool) :=
  match pindex with
  | none => .ok (⟨c.period, c.threshold, 0, 0, false⟩, [])
  | some p => do
    let blocks_in_period := 1 + p.nHeight % c.period
    let (elapsed, count, signalling_blocks) ←
      statsLoop m c blocks_in_period (some p) 0 0 (List.replicate blocks_in_period false)
    pure (⟨c.period, c.threshold, elapsed, count,
      decide ((elapsed : Int) - count ≤ (c.period : Int) - c.threshold)⟩, signalling_blocks)

end Checker

/-! ### `VersionBitsConditionChecker` and `VersionBitsCache` -/

/-- What bits to set in version for versionbits blocks. -/
def VERSIONBITS_TOP_BITS : Int32 := 0x20000000
/-- `0xE0000000UL` as an `int32_t`: the mask that determines whether versionbits is in use. -/
def VERSIONBITS_TOP_MASK : Int32 := (0xE0000000 : UInt32).toInt32

inductive DeploymentPos
  | DEPLOYMENT_TESTDUMMY
  | DEPLOYMENT_SEGWIT
  | DEPLOYMENT_TAPROOT
  deriving DecidableEq, Repr

/-- The deployments in the order of the enumeration, below `MAX_VERSION_BITS_DEPLOYMENTS`. -/
def allDeployments : List DeploymentPos := [.DEPLOYMENT_TESTDUMMY, .DEPLOYMENT_SEGWIT, .DEPLOYMENT_TAPROOT]

structure BIP9Deployment where
  bit : Nat
  nStartTime : Int
  nTimeout : Int
  min_activation_height : Int
  deriving DecidableEq, Repr

/-- The fields of `Consensus::Params` the version bits read. -/
structure VersionBitsParams where
  nRuleChangeActivationThreshold : Nat
  nMinerConfirmationWindow : Nat
  vDeployments : DeploymentPos → BIP9Deployment

/-- `VersionBitsConditionChecker::Mask`. -/
def mask (vbparams : VersionBitsParams) (pos : DeploymentPos) : UInt32 :=
  1 <<< (vbparams.vDeployments pos).bit.toUInt32

/-- `VersionBitsConditionChecker(pos)`. -/
def versionBitsConditionChecker (vbparams : VersionBitsParams) (pos : DeploymentPos) : ThresholdConditionChecker where
  condition pindex := (pindex.nVersion &&& VERSIONBITS_TOP_MASK) == VERSIONBITS_TOP_BITS &&
    (pindex.nVersion.toUInt32 &&& mask vbparams pos) != 0
  beginTime := (vbparams.vDeployments pos).nStartTime
  endTime := (vbparams.vDeployments pos).nTimeout
  minActivationHeight := (vbparams.vDeployments pos).min_activation_height
  period := vbparams.nMinerConfirmationWindow
  threshold := vbparams.nRuleChangeActivationThreshold

/-- `VersionBitsCache`: one cache per deployment. -/
structure VersionBitsCache where
  m_caches : DeploymentPos → ThresholdConditionCache

namespace VersionBitsCache
variable (m : BlockMap) (params : Params) (vbparams : VersionBitsParams)

def empty : VersionBitsCache := ⟨fun _ _ => none⟩

def setCache (vbc : VersionBitsCache) (pos : DeploymentPos) (cache : ThresholdConditionCache) : VersionBitsCache :=
  ⟨Function.update vbc.m_caches pos cache⟩

/-- `VersionBitsCache::State`. -/
def state (vbc : VersionBitsCache) (pindexPrev : Option CBlockIndex) (pos : DeploymentPos) :
    Except String (ThresholdState × VersionBitsCache) := do
  let (state, cache) ← getStateFor m params (versionBitsConditionChecker vbparams pos) pindexPrev (vbc.m_caches pos)
  pure (state, vbc.setCache pos cache)

/-- `VersionBitsCache::Statistics`. -/
def statistics (pindex : Option CBlockIndex) (pos : DeploymentPos) : Except String (BIP9Stats × List Bool) :=
  getStateStatisticsFor m (versionBitsConditionChecker vbparams pos) pindex

/-- `VersionBitsCache::StateSinceHeight`. -/
def stateSinceHeight (vbc : VersionBitsCache) (pindexPrev : Option CBlockIndex) (pos : DeploymentPos) :
    Except String (Int × VersionBitsCache) := do
  let (height, cache) ← getStateSinceHeightFor m params (versionBitsConditionChecker vbparams pos) pindexPrev (vbc.m_caches pos)
  pure (height, vbc.setCache pos cache)

/-- `VersionBitsCache::Clear`: every deployment's cache emptied. -/
def clear (_ : VersionBitsCache) : VersionBitsCache := empty

/-- The loop of `ComputeBlockVersion` over the deployments `poss`, from `nVersion`. -/
def versionLoop (pindexPrev : Option CBlockIndex) :
    List DeploymentPos → UInt32 → VersionBitsCache → Except String (UInt32 × VersionBitsCache)
  | [], nVersion, vbc => .ok (nVersion, vbc)
  | pos :: poss, nVersion, vbc => do
    let (state, vbc) ← vbc.state m params vbparams pindexPrev pos
    let nVersion := if state = .LOCKED_IN ∨ state = .STARTED then nVersion ||| mask vbparams pos else nVersion
    versionLoop pindexPrev poss nVersion vbc

/-- `VersionBitsCache::ComputeBlockVersion`. -/
def computeBlockVersion (vbc : VersionBitsCache) (pindexPrev : Option CBlockIndex) :
    Except String (Int32 × VersionBitsCache) := do
  let (nVersion, vbc) ← versionLoop m params vbparams pindexPrev allDeployments VERSIONBITS_TOP_BITS.toUInt32 vbc
  pure (nVersion.toInt32, vbc)

end VersionBitsCache

/-! ### A chain to run the checkers on -/

namespace SignalChain

/-- The header at height `i`, on top of the one stored under hash `i`, at time `i + 1`; it
signals bit 0 when `signal` holds. -/
def header (signal : Bool) (i : Nat) : CBlockHeader :=
  ⟨if signal then 0x20000001 else 0x20000000, BitVec.ofNat 256 i, 0, (i + 1).toUInt32, 0x1e0fffff, 0, 0⟩

/-- The chain of one header per entry of `signals`, stored under the hashes `1, 2, ...`. -/
def index (signals : List Bool) : BlockMap :=
  addHeaders (fun _ => none)
    ((List.range signals.length).map fun i => (header (signals.getD i false) i, BitVec.ofNat 256 (i + 1)))

/-- The entry at height `i`. -/
def entry (signals : List Bool) (i : Nat) : CBlockIndex :=
  (index signals (BitVec.ofNat 256 (i + 1))).getD (CBlockIndex.ofHeader (header false i) 0)

/-- Two periods of two blocks, the second signalling: after them the deployment on bit 0 locks
in, and it is active from the fourth period on. -/
def signals : List Bool := [false, false, true, true, false, false]

def deploymentBit : DeploymentPos → Nat
  | .DEPLOYMENT_TESTDUMMY => 0
  | .DEPLOYMENT_SEGWIT => 1
  | .DEPLOYMENT_TAPROOT => 2

/-- Periods of two blocks with a threshold of two; every deployment starts at time 0. -/
def vbparams : VersionBitsParams := ⟨2, 2, fun pos => ⟨deploymentBit pos, 0, NO_TIMEOUT, 0⟩⟩

end SignalChain

end BlackcoinMore.VersionBits
