import BlackcoinMore.ChainState
import BlackcoinMore.ExceptFold

/-! Block assembly of `node/miner.cpp`: the package selection of `addPackageTxs` over the
mempool's ancestor-score index, and the proof-of-stake path of `CreateNewBlock`, with the
inputs and outputs of the coinstake taken from the wallet's `CreateCoinStake`. The adjusted
clock is read where the source reads it, in order: once for the template's first time, once
for each transaction `TestPackageTransactions` gets to, once for the coinbase and once for
the coinstake. -/
namespace BlackcoinMore.Miner
open Primitives Serialize Coins ChainParams TxVerify BlockChecks BlockIndex BlackcoinMore.Pow
  ChainState

def DEFAULT_BLOCK_MAX_WEIGHT : Nat := MAX_BLOCK_WEIGHT - 4000
def DEFAULT_BLOCK_MIN_TX_FEE : CAmount := 100000
def MAX_CONSECUTIVE_FAILURES : Nat := 1000
def SEQUENCE_FINAL : UInt32 := 0xffffffff
def CURRENT_VERSION : Int32 := 2
def OP_0 : UInt8 := 0x00

/-- `uint256::operator<`: `memcmp` of the bytes. -/
def hashLt (a b : Uint256) : Bool := decide (serializeUint256 a < serializeUint256 b)

/-- An `int64_t` stored into a `uint32_t` field. -/
def toUInt32 (t : Int) : UInt32 := UInt32.ofInt t

/-! ### The mempool as block assembly reads it -/

/-- A `CTxMemPoolEntry`: the transaction and its fees, sizes and sigop cost, the ancestor state
the mempool keeps for it, and its in-mempool parents and children by hash. -/
structure CTxMemPoolEntry where
  tx : CTransaction
  /-- `GetTx().GetHash()`. -/
  hash : Uint256
  nFee : CAmount
  /-- `GetModifiedFee()`. -/
  nModFee : CAmount
  nTxSize : Nat
  nTxWeight : Nat
  sigOpCost : Int
  nCountWithAncestors : Nat
  nSizeWithAncestors : Nat
  nModFeesWithAncestors : CAmount
  nSigOpCostWithAncestors : Int
  parents : List Uint256
  children : List Uint256
  deriving DecidableEq, Repr

/-- `CTxMemPool::mapTx`, listed in the order of its `ancestor_score` index. -/
structure CTxMemPool where
  mapTx : List CTxMemPoolEntry

namespace CTxMemPool
variable (pool : CTxMemPool)

def find (h : Uint256) : Option CTxMemPoolEntry := pool.mapTx.find? (·.hash == h)

/-- The staged walk of `CalculateAncestorsAndCheckLimits` over `GetMemPoolParentsConst`, with
no limits. -/
def ancestorsWalk : Nat → List Uint256 → List Uint256 → List Uint256
  | 0, _, ancestors => ancestors
  | _ + 1, [], ancestors => ancestors
  | fuel + 1, stage :: staged, ancestors =>
    if stage ∈ ancestors then ancestorsWalk fuel staged ancestors
    else
      let parents := ((pool.find stage).map (·.parents)).getD []
      ancestorsWalk fuel (staged ++ parents) (ancestors ++ [stage])

/-- A bound on the rounds of both walks: each entry is taken once and stages its links once. -/
def walkFuel : Nat := pool.mapTx.length * (pool.mapTx.length + 1) + 1

/-- `AssumeCalculateMemPoolAncestors(entry, NoLimits(), fSearchForParents = false)`. -/
def calculateMemPoolAncestors (entry : CTxMemPoolEntry) : List CTxMemPoolEntry :=
  (pool.ancestorsWalk pool.walkFuel entry.parents []).filterMap pool.find

/-- The walk of `CalculateDescendants` over `GetMemPoolChildrenConst`. -/
def descendantsWalk : Nat → List Uint256 → List Uint256 → List Uint256
  | 0, _, descendants => descendants
  | _ + 1, [], descendants => descendants
  | fuel + 1, stage :: staged, descendants =>
    if stage ∈ descendants then descendantsWalk fuel staged descendants
    else
      let children := ((pool.find stage).map (·.children)).getD []
      descendantsWalk fuel (staged ++ children) (descendants ++ [stage])

/-- `CalculateDescendants(it, setDescendants)` from an empty set: `it` and all it reaches. -/
def calculateDescendants (it : Uint256) : List Uint256 := pool.descendantsWalk pool.walkFuel [it] []

end CTxMemPool

/-- A `CTxMemPoolModifiedEntry`: the ancestor state of an entry some of whose ancestors are in
the block already. -/
structure CTxMemPoolModifiedEntry where
  iter : CTxMemPoolEntry
  nSizeWithAncestors : Nat
  nModFeesWithAncestors : CAmount
  nSigOpCostWithAncestors : Int
  deriving DecidableEq, Repr

namespace CTxMemPoolModifiedEntry

def ofEntry (e : CTxMemPoolEntry) : CTxMemPoolModifiedEntry :=
  ⟨e, e.nSizeWithAncestors, e.nModFeesWithAncestors, e.nSigOpCostWithAncestors⟩

/-- `update_for_parent_inclusion(it)`. -/
def updateForParentInclusion (it : CTxMemPoolEntry) (e : CTxMemPoolModifiedEntry) :
    CTxMemPoolModifiedEntry :=
  { e with nModFeesWithAncestors := e.nModFeesWithAncestors - it.nModFee
           nSizeWithAncestors := e.nSizeWithAncestors - it.nTxSize
           nSigOpCostWithAncestors := e.nSigOpCostWithAncestors - it.sigOpCost }

/-- `GetModFeeAndSize`: the fee and size of the lower of the entry's own fee rate and its fee
rate with ancestors. The products are exact here; the source forms them in `double`. -/
def modFeeAndSize (e : CTxMemPoolModifiedEntry) : Int × Int :=
  if e.nModFeesWithAncestors.toInt * e.iter.nTxSize < e.iter.nModFee.toInt * e.nSizeWithAncestors then
    (e.nModFeesWithAncestors.toInt, e.nSizeWithAncestors)
  else (e.iter.nModFee.toInt, e.iter.nTxSize)

end CTxMemPoolModifiedEntry

/-- `CompareTxMemPoolEntryByAncestorFee()(a, b)`: `a` sorts before `b`. -/
def ancestorFeeBefore (a b : CTxMemPoolModifiedEntry) : Bool :=
  let (aFee, aSize) := a.modFeeAndSize
  let (bFee, bSize) := b.modFeeAndSize
  if aFee * bSize = aSize * bFee then hashLt a.iter.hash b.iter.hash
  else aSize * bFee < aFee * bSize

/-- `mapModifiedTx.get<ancestor_score>().begin()`. -/
def bestModified : List CTxMemPoolModifiedEntry → Option CTxMemPoolModifiedEntry
  | [] => none
  | e :: rest => some (rest.foldl (fun best e => if ancestorFeeBefore e best then e else best) e)

def eraseModified (h : Uint256) (mapModifiedTx : List CTxMemPoolModifiedEntry) :
    List CTxMemPoolModifiedEntry :=
  mapModifiedTx.filter (·.iter.hash != h)

/-- `CFeeRate(nSatoshisPerK).GetFee(nSize)`. -/
def getFee (nSatoshisPerK : CAmount) (nSize : Nat) : CAmount :=
  let nFee : Int := -Int.fdiv (-(nSatoshisPerK.toInt * nSize)) 1000
  if nFee = 0 ∧ nSize ≠ 0 then (if 0 < nSatoshisPerK then 1 else if nSatoshisPerK < 0 then -1 else 0)
  else Int64.ofInt nFee

/-! ### `BlockAssembler` -/

structure Options where
  nBlockMaxWeight : Nat
  /-- `blockMinFeeRate`, in satoshis per kilobyte. -/
  blockMinFeeRate : CAmount

def Options.default : Options := ⟨DEFAULT_BLOCK_MAX_WEIGHT, DEFAULT_BLOCK_MIN_TX_FEE⟩

/-- `ClampOptions`: the weight between 4000 and `DEFAULT_BLOCK_MAX_WEIGHT`. -/
def clampOptions (options : Options) : Options :=
  { options with nBlockMaxWeight := max 4000 (min options.nBlockMaxWeight DEFAULT_BLOCK_MAX_WEIGHT) }

/-- What `CreateNewBlock` fixes before the packages are selected. -/
structure AssemblyContext where
  options : Options
  nHeight : Int
  m_lock_time_cutoff : Int
  fIncludeWitness : Bool
  /-- `GetAdjustedTimeSeconds()` at the `n`-th reading of the call. -/
  clock : Nat → Int

structure BlockAssembler where
  /-- The transactions `AddToBlock` appended after the coinbase. -/
  vtx : List CTransaction
  inBlock : List Uint256
  nBlockWeight : Nat
  nBlockSigOpsCost : Int
  nBlockTx : Nat
  nFees : CAmount
  /-- The readings of the adjusted clock so far. -/
  nReadings : Nat

/-- `resetBlock()`, after `nReadings` readings of the clock; it reserves space for the
coinbase. -/
def resetBlock (nReadings : Nat) : BlockAssembler :=
  ⟨[], [], 4000, 400, 0, 0, nReadings⟩

section Assembly
variable (pool : CTxMemPool) (ctx : AssemblyContext)

/-- `TestPackage(packageSize, packageSigOpsCost)`. -/
def testPackage (a : BlockAssembler) (packageSize : Nat) (packageSigOpsCost : Int) : Bool :=
  !(ctx.options.nBlockMaxWeight ≤ a.nBlockWeight + WITNESS_SCALE_FACTOR * packageSize) &&
  !(MAX_BLOCK_SIGOPS_COST ≤ a.nBlockSigOpsCost + packageSigOpsCost)

/-- `TestPackageTransactions(package, nTime)` from the `r`-th reading of the clock, with the
readings it makes. -/
def testPackageTransactions (nTime : UInt32) : List CTxMemPoolEntry → Nat → Bool × Nat
  | [], r => (true, r)
  | it :: package, r =>
    if !isFinalTx it.tx ctx.nHeight ctx.m_lock_time_cutoff then (false, r)
    else if !ctx.fIncludeWitness && it.tx.hasWitness then (false, r)
    -- peercoin: timestamp limit
    else if ctx.clock r < it.tx.nTime.toNat ∨ (nTime ≠ 0 ∧ nTime < it.tx.nTime) then (false, r + 1)
    else testPackageTransactions nTime package (r + 1)

/-- `AddToBlock(iter)`. -/
def addToBlock (a : BlockAssembler) (iter : CTxMemPoolEntry) : BlockAssembler :=
  { a with vtx := a.vtx ++ [iter.tx], nBlockWeight := a.nBlockWeight + iter.nTxWeight
           nBlockTx := a.nBlockTx + 1, nBlockSigOpsCost := a.nBlockSigOpsCost + iter.sigOpCost
           nFees := a.nFees + iter.nFee, inBlock := a.inBlock ++ [iter.hash] }

/-- `CompareTxIterByAncestorCount()(a, b)`. -/
def ancestorCountBefore (a b : CTxMemPoolEntry) : Bool :=
  if a.nCountWithAncestors ≠ b.nCountWithAncestors then a.nCountWithAncestors < b.nCountWithAncestors
  else hashLt a.hash b.hash

/-- `SortForBlock(package, sortedEntries)`. -/
def sortForBlock (package : List CTxMemPoolEntry) : List CTxMemPoolEntry :=
  package.mergeSort fun a b => !ancestorCountBefore b a

/-- `UpdatePackagesForAdded(mempool, alreadyAdded, mapModifiedTx)`. -/
def updatePackagesForAdded (alreadyAdded : List CTxMemPoolEntry)
    (mapModifiedTx : List CTxMemPoolModifiedEntry) : List CTxMemPoolModifiedEntry :=
  alreadyAdded.foldl (fun mapModifiedTx it =>
    (pool.calculateDescendants it.hash).foldl (fun mapModifiedTx desc =>
      if desc ∈ alreadyAdded.map (·.hash) then mapModifiedTx
      else match pool.find desc with
        | none => mapModifiedTx
        | some d =>
          let mapModifiedTx := if mapModifiedTx.any (·.iter.hash == desc) then mapModifiedTx
            else mapModifiedTx ++ [.ofEntry d]
          mapModifiedTx.map fun e =>
            if e.iter.hash == desc then e.updateForParentInclusion it else e) mapModifiedTx)
    mapModifiedTx

/-- The state of the loop of `addPackageTxs`: what is left of the `ancestor_score` index, the
modified and the failed entries, and the block so far. -/
structure SelectState where
  mi : List CTxMemPoolEntry
  mapModifiedTx : List CTxMemPoolModifiedEntry
  failedTx : List Uint256
  nConsecutiveFailed : Nat
  asm : BlockAssembler

/-- The end of a round of the loop: the next round, or the block when the loop is left. -/
inductive Next
  | loop (s : SelectState)
  | done (asm : BlockAssembler)

/-- A `mapTx` entry already in the block, modified, or failed is skipped. -/
def isStale (s : SelectState) (e : CTxMemPoolEntry) : Bool :=
  s.mapModifiedTx.any (·.iter.hash == e.hash) || e.hash ∈ s.asm.inBlock || e.hash ∈ s.failedTx

/-- A package that fails drops its modified entry and marks the transaction failed. -/
def dropFailed (s : SelectState) (iter : CTxMemPoolEntry) (fUsingModified : Bool) : SelectState :=
  if fUsingModified then
    { s with mapModifiedTx := eraseModified iter.hash s.mapModifiedTx, failedTx := s.failedTx ++ [iter.hash] }
  else s

/-- The package of `iter` with the ancestors not in the block yet. -/
def packageOf (s : SelectState) (iter : CTxMemPoolEntry) : List CTxMemPoolEntry :=
  (pool.calculateMemPoolAncestors iter).filter (fun a => a.hash ∉ s.asm.inBlock) ++ [iter]

/-- `AddToBlock` of each entry of a sorted package, erasing it from the modified set. -/
def addPackage (s : SelectState) (sortedEntries : List CTxMemPoolEntry) : SelectState :=
  sortedEntries.foldl (fun s e =>
    { s with asm := addToBlock s.asm e, mapModifiedTx := eraseModified e.hash s.mapModifiedTx }) s

/-- A round of `addPackageTxs` on the package of `iter`; `modit` is the modified entry it came
from, if any, and `mi` the index after the round. -/
def considerPackage (nTime : UInt32) (s : SelectState) (iter : CTxMemPoolEntry)
    (modit : Option CTxMemPoolModifiedEntry) (mi : List CTxMemPoolEntry) : Except String Next :=
  if iter.hash ∈ s.asm.inBlock then throw "Assertion `!inBlock.count(iter)' failed."
  else
    let (packageSize, packageFees, packageSigOpsCost) := match modit with
      | some m => (m.nSizeWithAncestors, m.nModFeesWithAncestors, m.nSigOpCostWithAncestors)
      | none => (iter.nSizeWithAncestors, iter.nModFeesWithAncestors, iter.nSigOpCostWithAncestors)
    let s := { s with mi := mi }
    if packageFees < getFee ctx.options.blockMinFeeRate packageSize then
      -- Everything else we might consider has a lower fee rate
      pure (.done s.asm)
    else if !testPackage ctx s.asm packageSize packageSigOpsCost then
      let s := dropFailed s iter modit.isSome
      let s := { s with nConsecutiveFailed := s.nConsecutiveFailed + 1 }
      if MAX_CONSECUTIVE_FAILURES < s.nConsecutiveFailed &&
          ctx.options.nBlockMaxWeight - 4000 < s.asm.nBlockWeight then
        -- Give up if we're close to full and haven't succeeded in a while
        pure (.done s.asm)
      else pure (.loop s)
    else
      let ancestors := packageOf pool s iter
      let (ok, nReadings) := testPackageTransactions ctx nTime ancestors s.asm.nReadings
      let s := { s with asm := { s.asm with nReadings := nReadings } }
      if !ok then pure (.loop (dropFailed s iter modit.isSome))
      else
        let s := addPackage { s with nConsecutiveFailed := 0 } (sortForBlock ancestors)
        pure (.loop { s with mapModifiedTx := updatePackagesForAdded pool ancestors s.mapModifiedTx })

/-- A round of the loop of `addPackageTxs`: the next `mapTx` entry, or the best modified entry
when it has the higher score or `mapTx` is done. -/
def selectStep (nTime : UInt32) (s : SelectState) : Except String Next :=
  match s.mi, bestModified s.mapModifiedTx with
  | e :: rest, modit =>
    if isStale s e then pure (.loop { s with mi := rest })
    else match modit with
      | some m =>
        if ancestorFeeBefore m (.ofEntry e) then considerPackage pool ctx nTime s m.iter (some m) s.mi
        else considerPackage pool ctx nTime s e none rest
      | none => considerPackage pool ctx nTime s e none rest
  | [], some m => considerPackage pool ctx nTime s m.iter (some m) []
  | [], none => pure (.done s.asm)

/-- The loop of `addPackageTxs`, for at most `fuel` rounds. -/
def selectLoop (nTime : UInt32) : Nat → SelectState → Except String BlockAssembler
  | 0, s => pure s.asm
  | fuel + 1, s => do
    match ← selectStep pool ctx nTime s with
    | .done asm => pure asm
    | .loop s => selectLoop nTime fuel s

/-- `addPackageTxs(mempool, ..., nTime)`. A round skips or considers an entry of `mapTx`, drops
a modified entry, or adds a package; between two packages at most every entry is dropped, so
`(n + 1) * (n + 3)` rounds suffice. -/
def addPackageTxs (nTime : UInt32) (a : BlockAssembler) : Except String BlockAssembler :=
  selectLoop pool ctx nTime ((pool.mapTx.length + 1) * (pool.mapTx.length + 3)) ⟨pool.mapTx, [], [], 0, a⟩

end Assembly

/-! ### `CreateNewBlock` with a wallet -/

/-- `GetMaxTransactionTime(pblock)`. -/
def getMaxTransactionTime (vtx : List CTransaction) : Int :=
  vtx.foldl (fun maxTransactionTime tx => max maxTransactionTime tx.nTime.toNat) 0

/-- The wallet's `CreateCoinStake(wallet, nBits, 1, txCoinStake, nFees, destination)` for a
coinstake stamped `nTime`: the inputs and outputs of the coinstake when a kernel is found. With
the search interval `1` the timestamp it is given stays. -/
abbrev CreateCoinStake := (nBits : UInt32) → (nTime : UInt32) → (nFees : CAmount) →
  Option (List CTxIn × List CTxOut)

/-- The coinstake of `CreateNewBlock` stamped `nStakeTime`: made when the search time is past
the last one, the wallet finds a kernel, and the time is at or after `MTP + 1`. -/
def makeCoinStake (createCoinStake : CreateCoinStake) (nBits : UInt32) (nFees : CAmount)
    (nStakeTime : UInt32) (nLastCoinStakeSearchTime nMedianTimePast : Int) : Option CTransaction :=
  if nLastCoinStakeSearchTime < nStakeTime.toNat then
    match createCoinStake nBits nStakeTime nFees with
    | some (vin, vout) =>
      if nMedianTimePast + 1 ≤ nStakeTime.toNat then some ⟨vin, vout, CURRENT_VERSION, nStakeTime, 0⟩
      else none
    | none => none
  else none

/-- `BlockAssembler::CreateNewBlock(scriptPubKeyIn, pwallet, ...)` with a wallet, on the tip
`pindexPrev` of the block index `m`: the template, or `none` when no coinstake is made, and the
new `nLastCoinStakeSearchTime`. The witness commitment of the coinbase is left out. -/
def createNewBlock (m : BlockMap) (fRegtest : Bool) (params : Params) (options : Options)
    (pool : CTxMemPool) (pindexPrev : CBlockIndex) (nVersion : Int32) (fIncludeWitness : Bool)
    (clock : Nat → Int) (createCoinStake : CreateCoinStake) (nLastCoinStakeSearchTime : Int) :
    Except String (Option CBlock × Int) := do
  let nHeight : Int := pindexPrev.nHeight + 1
  let nTime := toUInt32 (clock 0)
  let nMedianTimePast := getMedianTimePast m params pindexPrev
  let ctx : AssemblyContext := ⟨clampOptions options, nHeight, nMedianTimePast, fIncludeWitness, clock⟩
  let asm ← addPackageTxs pool ctx nTime (resetBlock 1)
  let nBits ← getNextTargetRequired m fRegtest (some pindexPrev) params true
  -- The coinbase reads the clock at `asm.nReadings`; its time is replaced by the coinstake's.
  let nStakeTime := toUInt32 (clock (asm.nReadings + 1)) &&& ~~~(UInt32.ofInt params.nStakeTimestampMask)
  let nLast : Int := if nLastCoinStakeSearchTime < nStakeTime.toNat then nStakeTime.toNat
    else nLastCoinStakeSearchTime
  match makeCoinStake createCoinStake nBits asm.nFees nStakeTime nLastCoinStakeSearchTime
      nMedianTimePast with
  | none =>
    -- peercoin: there is no point to continue if we failed to create coinstake
    pure (none, nLast)
  | some txCoinStake =>
    -- Make the coinbase tx empty in case of proof of stake
    let coinbaseTx : CTransaction :=
      ⟨[⟨⟨0, NULL_INDEX⟩, pushHeight nHeight.toNat ++ [OP_0], SEQUENCE_FINAL, []⟩], [⟨0, []⟩],
        CURRENT_VERSION, txCoinStake.nTime, 0⟩
    let vtx := coinbaseTx :: txCoinStake :: asm.vtx
    let header : CBlockHeader :=
      ⟨nVersion, pindexPrev.phashBlock, 0,
        toUInt32 (max (nMedianTimePast + 1) (getMaxTransactionTime vtx)), nBits, 0,
        BLOCK_PROOF_OF_STAKE⟩
    pure (some ⟨header, vtx, []⟩, nLast)

/-! ### The timestamps of a template -/

/-- Every transaction the selection put in the block passed the timestamp limit of
`TestPackageTransactions` against the template's first time `nTime`. -/
def TimedBy (nTime : UInt32) (a : BlockAssembler) : Prop := ∀ tx ∈ a.vtx, nTime ≠ 0 → tx.nTime ≤ nTime

/-- The block of a round of the loop. -/
def Next.asm : Next → BlockAssembler
  | .loop s => s.asm
  | .done asm => asm

section Selection
variable (pool : CTxMemPool) (ctx : AssemblyContext) {nTime : UInt32}

theorem testPackageTransactions_times {package : List CTxMemPoolEntry} {r r' : Nat}
    (h : testPackageTransactions ctx nTime package r = (true, r')) :
    ∀ e ∈ package, nTime ≠ 0 → e.tx.nTime ≤ nTime := by
  induction package generalizing r with
  | nil => simp
  | cons it package ih =>
    unfold testPackageTransactions at h
    split at h
    · cases h
    · split at h
      · cases h
      · split at h
        · cases h
        · rename_i htime
          intro e he hne
          rcases List.mem_cons.mp he with rfl | he
          · exact UInt32.not_lt.mp fun hlt => htime (.inr ⟨hne, hlt⟩)
          · exact ih h e he hne

theorem addPackage_vtx (s : SelectState) (sortedEntries : List CTxMemPoolEntry) :
    (addPackage s sortedEntries).asm.vtx = s.asm.vtx ++ sortedEntries.map (·.tx) := by
  induction sortedEntries generalizing s with
  | nil => simp [addPackage]
  | cons e sortedEntries ih =>
    show (addPackage _ sortedEntries).asm.vtx = _
    rw [ih]
    simp [addToBlock]

@[simp] theorem dropFailed_asm (s : SelectState) (iter : CTxMemPoolEntry) (b : Bool) :
    (dropFailed s iter b).asm = s.asm := by
  cases b <;> rfl

/-- A round on a package either leaves the block's transactions as they were or appends a
package, sorted, that passed `TestPackageTransactions`. -/
theorem considerPackage_vtx {s : SelectState} {iter : CTxMemPoolEntry}
    {modit : Option CTxMemPoolModifiedEntry} {mi : List CTxMemPoolEntry} {r : Next}
    (h : considerPackage pool ctx nTime s iter modit mi = .ok r) :
    r.asm.vtx = s.asm.vtx ∨ ∃ package r', testPackageTransactions ctx nTime package s.asm.nReadings =
      (true, r') ∧ r.asm.vtx = s.asm.vtx ++ (sortForBlock package).map (·.tx) := by
  unfold considerPackage at h
  split at h
  · cases h
  · split at h
    rename_i packageSize packageFees packageSigOpsCost _
    dsimp only at h
    split at h
    · -- the fee rate is too low
      obtain rfl := Except.ok.inj h
      exact .inl rfl
    · split at h
      · -- `TestPackage` fails
        split at h <;> (obtain rfl := Except.ok.inj h; exact .inl (by simp [Next.asm]))
      · split at h
        · obtain rfl := Except.ok.inj h
          exact .inl (by simp [Next.asm])
        · -- the package is added
          rename_i hok
          obtain rfl := Except.ok.inj h
          exact .inr ⟨packageOf pool { s with mi := mi } iter, _, Prod.ext (by simpa using hok) rfl,
            by simp [Next.asm, addPackage_vtx]⟩

theorem considerPackage_timedBy {s : SelectState} {iter : CTxMemPoolEntry}
    {modit : Option CTxMemPoolModifiedEntry} {mi : List CTxMemPoolEntry} {r : Next}
    (h : considerPackage pool ctx nTime s iter modit mi = .ok r) (hs : TimedBy nTime s.asm) :
    TimedBy nTime r.asm := by
  rcases considerPackage_vtx pool ctx h with hvtx | ⟨package, r', hpkg, hvtx⟩
  · rw [TimedBy, hvtx]
    exact hs
  · intro tx htx hne
    rw [hvtx, List.mem_append] at htx
    rcases htx with htx | htx
    · exact hs tx htx hne
    · obtain ⟨e, he, rfl⟩ := List.mem_map.mp htx
      exact testPackageTransactions_times ctx hpkg e (List.mem_mergeSort.mp he) hne

theorem selectStep_timedBy {s : SelectState} {r : Next} (h : selectStep pool ctx nTime s = .ok r)
    (hs : TimedBy nTime s.asm) : TimedBy nTime r.asm := by
  unfold selectStep at h
  split at h
  · split at h
    · -- a stale entry is skipped
      obtain rfl := Except.ok.inj h
      exact hs
    · split at h
      · split at h <;> exact considerPackage_timedBy pool ctx h hs
      · exact considerPackage_timedBy pool ctx h hs
  · exact considerPackage_timedBy pool ctx h hs
  · obtain rfl := Except.ok.inj h
    exact hs

theorem selectLoop_timedBy (fuel : Nat) :
    ∀ {s : SelectState} {a : BlockAssembler}, selectLoop pool ctx nTime fuel s = .ok a →
      TimedBy nTime s.asm → TimedBy nTime a := by
  induction fuel with
  | zero =>
    intro s a h hs
    obtain rfl := Except.ok.inj h
    exact hs
  | succ fuel ih =>
    intro s a h hs
    rw [selectLoop] at h
    obtain ⟨r, hr, h⟩ := ExceptFold.bind_eq_ok h
    have hr' := selectStep_timedBy pool ctx hr hs
    cases r with
    | done asm =>
      obtain rfl := Except.ok.inj h
      exact hr'
    | loop s' => exact ih h hr'

/-- Every transaction `addPackageTxs` puts in a fresh block passed the timestamp limit. -/
theorem addPackageTxs_timedBy {r : Nat} {a : BlockAssembler}
    (h : addPackageTxs pool ctx nTime (resetBlock r) = .ok a) : TimedBy nTime a :=
  selectLoop_timedBy pool ctx _ h (by simp [TimedBy, resetBlock])

end Selection

theorem makeCoinStake_eq_some {createCoinStake : CreateCoinStake} {nBits : UInt32} {nFees : CAmount}
    {nStakeTime : UInt32} {nLastCoinStakeSearchTime nMedianTimePast : Int} {cs : CTransaction}
    (h : makeCoinStake createCoinStake nBits nFees nStakeTime nLastCoinStakeSearchTime
      nMedianTimePast = some cs) :
    cs.nTime = nStakeTime ∧ nMedianTimePast + 1 ≤ cs.nTime.toNat := by
  unfold makeCoinStake at h
  split_ifs at h with hlast hmtp
  · split at h
    · obtain rfl := Option.some.inj h
      exact ⟨rfl, hmtp⟩
    · cases h
  · split at h <;> cases h

theorem toNat_toUInt32 {t : Int} (h0 : 0 ≤ t) (h : t < 2 ^ 32) : ((toUInt32 t).toNat : Int) = t := by
  have hmod : t % 2 ^ 32 = t := Int.emod_eq_of_lt h0 h
  simp only [toUInt32, UInt32.ofInt, hmod, UInt32.toNat_ofNat']
  omega

theorem foldl_maxTime_le_iff (vtx : List CTransaction) (acc t : Int) :
    vtx.foldl (fun maxTransactionTime tx => max maxTransactionTime tx.nTime.toNat) acc ≤ t ↔
      acc ≤ t ∧ ∀ tx ∈ vtx, (tx.nTime.toNat : Int) ≤ t := by
  induction vtx generalizing acc with
  | nil => simp
  | cons tx vtx ih => simp [ih, and_assoc]

/-- `GetMaxTransactionTime` is the latest time of a transaction, or `0`. -/
theorem getMaxTransactionTime_le_iff (vtx : List CTransaction) (t : Int) :
    getMaxTransactionTime vtx ≤ t ↔ 0 ≤ t ∧ ∀ tx ∈ vtx, (tx.nTime.toNat : Int) ≤ t :=
  foldl_maxTime_le_iff vtx 0 t

theorem le_getMaxTransactionTime {vtx : List CTransaction} {tx : CTransaction} (htx : tx ∈ vtx) :
    (tx.nTime.toNat : Int) ≤ getMaxTransactionTime vtx :=
  ((getMaxTransactionTime_le_iff vtx _).mp le_rfl).2 tx htx

theorem getMaxTransactionTime_lt (vtx : List CTransaction) : getMaxTransactionTime vtx < 2 ^ 32 := by
  have h := (getMaxTransactionTime_le_iff vtx (2 ^ 32 - 1)).mpr
    ⟨by norm_num, fun tx _ => by have := tx.nTime.toNat_lt; omega⟩
  omega

section Template
variable {m : BlockMap} {fRegtest : Bool} {params : Params} {options : Options}
  {pool : CTxMemPool} {pindexPrev : CBlockIndex} {nVersion : Int32} {fIncludeWitness : Bool}
  {clock : Nat → Int} {createCoinStake : CreateCoinStake} {nLastCoinStakeSearchTime nLast : Int}
  {B : CBlock}

/-- A template of `CreateNewBlock`: the coinbase and the coinstake, both stamped with the masked
coinstake time at or after `MTP + 1`, then the selected transactions, under the header time
`max(MTP + 1, GetMaxTransactionTime)`. -/
theorem createNewBlock_eq_some
    (h : createNewBlock m fRegtest params options pool pindexPrev nVersion fIncludeWitness clock
      createCoinStake nLastCoinStakeSearchTime = .ok (some B, nLast)) :
    ∃ asm cb cs, addPackageTxs pool ⟨clampOptions options, pindexPrev.nHeight + 1,
        getMedianTimePast m params pindexPrev, fIncludeWitness, clock⟩ (toUInt32 (clock 0))
        (resetBlock 1) = .ok asm ∧
      B.vtx = cb :: cs :: asm.vtx ∧ cb.nTime = cs.nTime ∧
      getMedianTimePast m params pindexPrev + 1 ≤ cs.nTime.toNat ∧
      B.nTime = toUInt32 (max (getMedianTimePast m params pindexPrev + 1) (getMaxTransactionTime B.vtx)) := by
  unfold createNewBlock at h
  obtain ⟨asm, hasm, h⟩ := ExceptFold.bind_eq_ok h
  obtain ⟨nBits, -, h⟩ := ExceptFold.bind_eq_ok h
  dsimp only at h
  split at h
  · cases (Prod.mk.inj (Except.ok.inj h)).1
  · rename_i txCoinStake hcs
    obtain rfl := Option.some.inj (Prod.mk.inj (Except.ok.inj h)).1
    exact ⟨asm, _, _, hasm, rfl, rfl, (makeCoinStake_eq_some hcs).2, rfl⟩

/-- The header time of a staked template is the latest time of its transactions, which is at
least the coinstake's. -/
theorem createNewBlock_nTime
    (h : createNewBlock m fRegtest params options pool pindexPrev nVersion fIncludeWitness clock
      createCoinStake nLastCoinStakeSearchTime = .ok (some B, nLast)) :
    ∃ cs, B.vtx[1]? = some cs ∧ getMedianTimePast m params pindexPrev + 1 ≤ cs.nTime.toNat ∧
      (B.nTime.toNat : Int) = getMaxTransactionTime B.vtx := by
  obtain ⟨asm, cb, cs, -, hvtx, -, hmtp, htime⟩ := createNewBlock_eq_some h
  have hcs : (cs.nTime.toNat : Int) ≤ getMaxTransactionTime B.vtx :=
    le_getMaxTransactionTime (by simp [hvtx])
  refine ⟨cs, by simp [hvtx], hmtp, ?_⟩
  rw [htime, max_eq_right (hmtp.trans hcs)]
  exact toNat_toUInt32 (by omega) (getMaxTransactionTime_lt _)

/-- A staked template carries the coinstake's time in its header exactly when no transaction of
it is stamped later than the coinstake. -/
theorem createNewBlock_nTime_eq_coinstake_iff
    (h : createNewBlock m fRegtest params options pool pindexPrev nVersion fIncludeWitness clock
      createCoinStake nLastCoinStakeSearchTime = .ok (some B, nLast)) :
    ∃ cs, B.vtx[1]? = some cs ∧ (B.nTime = cs.nTime ↔ ∀ tx ∈ B.vtx, tx.nTime ≤ cs.nTime) := by
  obtain ⟨cs, hcs, -, htime⟩ := createNewBlock_nTime h
  have hmem : cs ∈ B.vtx := List.mem_of_getElem? hcs
  refine ⟨cs, hcs, ⟨fun heq tx htx => ?_, fun hle => ?_⟩⟩
  · have := le_getMaxTransactionTime htx
    rw [UInt32.le_iff_toNat_le, ← heq]
    omega
  · have hmax := (getMaxTransactionTime_le_iff B.vtx cs.nTime.toNat).mpr
      ⟨by omega, fun tx htx => by exact_mod_cast (UInt32.le_iff_toNat_le.mp (hle tx htx))⟩
    have := le_getMaxTransactionTime hmem
    exact UInt32.toNat_inj.mp (by omega)

end Template

namespace LateTx

/-- The tip: a staked block at height 20000 stamped 1700000000, its median time past under
protocol V2. -/
def pindexPrev : CBlockIndex :=
  { phashBlock := 7, pprev := none, pskip := none, nHeight := 20000, nChainWork := 0, nTx := 1,
    nChainTx := 0, nStatus := 0, nVersion := 7, hashMerkleRoot := 0, nTime := 1700000000,
    nBits := 0x1d00ffff, nNonce := 0, nSequenceId := 0, nFlags := 1 }

/-- A final version-1 transaction stamped 1700000031, the adjusted time of the call. -/
def spend : CTransaction := ⟨[⟨⟨5, 0⟩, [0x51], SEQUENCE_FINAL, []⟩], [⟨1000, [0x51]⟩], 1, 1700000031, 0⟩

/-- The mempool holding `spend` alone, paying 500 satoshis per byte. -/
def pool : CTxMemPool := ⟨[⟨spend, 9, 100000, 100000, 200, 800, 4, 1, 200, 100000, 4, [], []⟩]⟩

/-- A wallet that finds a kernel at every time. -/
def stakeInputs : CreateCoinStake := fun _ _ _ => some ([⟨⟨6, 1⟩, [], SEQUENCE_FINAL, []⟩], [⟨0, []⟩, ⟨500, [0x51]⟩])

/-- The template: the coinbase and the coinstake stamped 1700000016, the clock rounded down to 16
seconds, and then `spend`; the header takes the time of `spend`. -/
def template : CBlock :=
  ⟨⟨7, 7, 0, 1700000031, 0x1b00ffff, 0, BLOCK_PROOF_OF_STAKE⟩,
    [⟨[⟨⟨0, NULL_INDEX⟩, pushHeight 20001 ++ [OP_0], SEQUENCE_FINAL, []⟩], [⟨0, []⟩], CURRENT_VERSION,
        1700000016, 0⟩,
      ⟨[⟨⟨6, 1⟩, [], SEQUENCE_FINAL, []⟩], [⟨0, []⟩, ⟨500, [0x51]⟩], CURRENT_VERSION, 1700000016, 0⟩,
      spend], []⟩

end LateTx

/-- The selection over `LateTx.pool`, limited to the time of `spend`. -/
theorem addPackageTxs_timedBy_lateTx :
    ∃ a, addPackageTxs LateTx.pool ⟨Options.default, 20001, 1700000000, true, fun _ => 1700000031⟩
        1700000031 (resetBlock 1) = .ok a ∧ TimedBy 1700000031 a := by
  have hok : (addPackageTxs LateTx.pool ⟨Options.default, 20001, 1700000000, true, fun _ => 1700000031⟩
      1700000031 (resetBlock 1)).isOk = true := by
    decide +kernel
  cases h : addPackageTxs LateTx.pool ⟨Options.default, 20001, 1700000000, true, fun _ => 1700000031⟩
      1700000031 (resetBlock 1) with
  | error e => simp [h, Except.isOk, Except.toBool] at hok
  | ok a => exact ⟨a, rfl, addPackageTxs_timedBy LateTx.pool _ h⟩

/-- With the clock at 1700000031 throughout, the staking call builds `LateTx.template`. -/
theorem createNewBlock_lateTx :
    createNewBlock (fun _ => none) false Params.main Options.default LateTx.pool LateTx.pindexPrev 7
        true (fun _ => 1700000031) LateTx.stakeInputs 0 = .ok (some LateTx.template, 1700000016) := by
  decide +kernel

/-- With the clock at 1700000031 throughout, `spend` passes the timestamp limit of the selection
while the coinstake is stamped 1700000016: the header time is not the coinstake's and the
template fails `bad-cs-time`. -/
theorem createNewBlock_nTime_eq_coinstake_iff_lateTx :
    createNewBlock (fun _ => none) false Params.main Options.default LateTx.pool LateTx.pindexPrev 7
        true (fun _ => 1700000031) LateTx.stakeInputs 0 = .ok (some LateTx.template, 1700000016) ∧
      ∃ cs, LateTx.template.vtx[1]? = some cs ∧
        (LateTx.template.nTime = cs.nTime ↔ ∀ tx ∈ LateTx.template.vtx, tx.nTime ≤ cs.nTime) ∧
        LateTx.template.nTime ≠ cs.nTime ∧
        checkCoinStakeTimestamp Params.main LateTx.template.getBlockTime cs.nTime.toNat = false := by
  have hrun := createNewBlock_lateTx
  obtain ⟨cs, hcs, hiff⟩ := createNewBlock_nTime_eq_coinstake_iff hrun
  obtain rfl : cs = ⟨[⟨⟨6, 1⟩, [], SEQUENCE_FINAL, []⟩], [⟨0, []⟩, ⟨500, [0x51]⟩], CURRENT_VERSION,
      1700000016, 0⟩ := (Option.some.inj hcs).symm
  exact ⟨hrun, _, hcs, hiff, by decide, by decide +kernel⟩

end BlackcoinMore.Miner
