import BlackcoinMore.BlockChecks
import BlackcoinMore.ExceptFold

/-! `Chainstate::ConnectBlock` of `validation.cpp`: the checks that need the coins view, the
fee and stake-reward tallies, and the view update with its undo data. Script verification,
sigop costs, BIP68 locks and the stake kernel are code this model takes as given
(`ConnectOracles`). Script checks run in the calling thread (no check queue threads), so a
script failure is reported where `CheckInputScripts` runs. -/
namespace BlackcoinMore.ConnectBlock
open Primitives Serialize Coins ChainParams TxVerify BlockChecks ExceptFold

structure ConnectOracles extends Oracles where
  /-- `CheckProofOfStake` (`pos.cpp`) for the block's coinstake against the view. -/
  checkProofOfStake : CBlock → CoinsView → Except BlockResult Unit
  /-- `fScriptChecks`: false when assumevalid lets the block skip script verification. -/
  fScriptChecks : Bool
  /-- `CheckInputScripts` under the block's flags: `none`, or the reject reason. -/
  checkInputScripts : CTransaction → CoinsView → Option String
  /-- `GetTransactionSigOpCost` under the block's flags. -/
  transactionSigOpCost : CTransaction → CoinsView → Nat
  /-- `SequenceLocks` of the transaction at the block being connected, given `prevheights`. -/
  sequenceLocks : CTransaction → List Nat → Bool

/-- What `ConnectBlock` reads besides the block, its index entry and the view. -/
structure Context where
  params : Params
  /-- `CCheckpointData::mapCheckpoints` and `m_options.checkpoints_enabled`. -/
  checkpoints : List (Nat × Uint256)
  checkpointsEnabled : Bool
  /-- `m_chain.Height()`, read by `FutureDrift`. -/
  chainHeight : Int
  /-- `GetAdjustedTimeSeconds()`. -/
  adjustedTime : Int

/-- `CBlockUndo::vtxundo`: the spent coins of each transaction but the coinbase. -/
abbrev CBlockUndo := List (List Coin)

def getProofOfWorkSubsidy : CAmount := 10000 * COIN
def getProofOfStakeSubsidy : CAmount := COIN * 3 / 2

def getBlockSubsidy (fProofOfStake : Bool) : CAmount :=
  if fProofOfStake then getProofOfStakeSubsidy else getProofOfWorkSubsidy

def checkHardened (checkpoints : List (Nat × Uint256)) (nHeight : Nat) (hash : Uint256) : Bool :=
  match checkpoints.lookup nHeight with
  | none => true
  | some h => hash == h

/-- A transaction failure inside `ConnectBlock` is a block consensus failure. -/
def blockFailureOfTx : TxResult → BlockResult
  | .invalid _ reason => .invalid .BLOCK_CONSENSUS reason
  | .error m => .error m
  | .exception w => .exception w

def liftExcept (e : Except String α) : Except BlockResult α :=
  e.mapError .exception

@[simp] theorem liftExcept_eq_ok {e : Except String α} {a : α} : liftExcept e = .ok a ↔ e = .ok a := by
  cases e <;> simp [liftExcept, Except.mapError]

/-- The accumulators of the transaction loop. -/
structure LoopState where
  view : CoinsView
  nFees : CAmount
  nActualStakeReward : CAmount
  nSigOpsCost : Nat
  vtxundo : CBlockUndo

variable (ctx : Context) (orc : ConnectOracles)

/-- The fee of a non-coinbase transaction from `CheckTxInputs`, checked against the running
total; then its BIP68 locks. -/
def tallyInputs (nHeight : Nat) (st : LoopState) (tx : CTransaction) : Except BlockResult LoopState := do
  let txfee ← (checkTxInputs ctx.params ctx.adjustedTime tx st.view nHeight 0).mapError blockFailureOfTx
  let nFees := st.nFees + txfee
  if !moneyRange nFees then throw (.invalid .BLOCK_CONSENSUS "bad-txns-accumulated-fee-outofrange")
  let prevheights := tx.vin.map fun txin => (st.view.accessCoin txin.prevout).nHeight
  if !orc.sequenceLocks tx prevheights then throw (.invalid .BLOCK_CONSENSUS "bad-txns-nonfinal")
  pure { st with nFees }

/-- The second tally of a non-coinbase transaction: the coinstake sets the stake reward, any
other transaction adds its value in minus value out to `nFees` again; then its scripts. -/
def tallyReward (st : LoopState) (tx : CTransaction) : Except BlockResult LoopState := do
  let valueOut ← liftExcept tx.getValueOut
  let st := if tx.isCoinStake then { st with nActualStakeReward := valueOut - st.view.getValueIn tx }
    else { st with nFees := st.nFees + (st.view.getValueIn tx - valueOut) }
  if orc.fScriptChecks then
    if let some reason := orc.checkInputScripts tx st.view then throw (.invalid .BLOCK_CONSENSUS reason)
  pure st

/-- The running sigop cost with `tx` added, against `MAX_BLOCK_SIGOPS_COST`. -/
def tallySigOps (st : LoopState) (tx : CTransaction) : Except BlockResult LoopState :=
  let nSigOpsCost := st.nSigOpsCost + orc.transactionSigOpCost tx st.view
  if MAX_BLOCK_SIGOPS_COST < nSigOpsCost then throw (.invalid .BLOCK_CONSENSUS "bad-blk-sigops")
  else pure { st with nSigOpsCost }

/-- `UpdateCoins` for `vtx[i]`; the coinbase's undo record goes to `undoDummy`. -/
def applyUpdate (nHeight : Nat) (st : LoopState) (tx : CTransaction) (i : Nat) :
    Except BlockResult LoopState := do
  let (view, txundo) ← liftExcept (updateCoins orc.hash256 st.view tx nHeight)
  pure { st with view, vtxundo := if i > 0 then st.vtxundo ++ [txundo] else st.vtxundo }

/-- One iteration of the transaction loop, for `vtx[i]`. -/
def connectTx (nHeight : Nat) (st : LoopState) (txi : CTransaction × Nat) :
    Except BlockResult LoopState := do
  let (tx, i) := txi
  let st ← (if tx.isCoinBase then pure st else tallyInputs ctx orc nHeight st tx)
  let st ← tallySigOps orc st tx
  let st ← (if tx.isCoinBase then pure st else tallyReward orc st tx)
  applyUpdate orc nHeight st tx i

section LoopSteps
variable {ctx orc} {nHeight : Nat} {st st' : LoopState} {tx : CTransaction}

theorem tallyInputs_frame (h : tallyInputs ctx orc nHeight st tx = .ok st') :
    st'.view = st.view ∧ st'.vtxundo = st.vtxundo := by
  unfold tallyInputs at h
  obtain ⟨txfee, -, h⟩ := bind_eq_ok h
  simp only at h
  split at h
  · cases h
  · split at h
    · cases h
    · cases h; exact ⟨rfl, rfl⟩

theorem tallySigOps_frame (h : tallySigOps orc st tx = .ok st') :
    st'.view = st.view ∧ st'.vtxundo = st.vtxundo := by
  unfold tallySigOps at h
  simp only at h
  split at h
  · cases h
  · cases h; exact ⟨rfl, rfl⟩

theorem tallyReward_frame (h : tallyReward orc st tx = .ok st') :
    st'.view = st.view ∧ st'.vtxundo = st.vtxundo := by
  unfold tallyReward at h
  obtain ⟨valueOut, -, h⟩ := bind_eq_ok h
  -- both tallies leave the view alone; only the script check can still fail
  have key : st' = if tx.isCoinStake then { st with nActualStakeReward := valueOut - st.view.getValueIn tx }
      else { st with nFees := st.nFees + (st.view.getValueIn tx - valueOut) } := by
    simp only at h
    split at h
    · split at h
      · cases h
      · cases h; rfl
    · cases h; rfl
  subst key
  split <;> exact ⟨rfl, rfl⟩

/-- One iteration is the `UpdateCoins` of the view before it, and the undo record of a
transaction other than the coinbase is appended to `vtxundo`. -/
theorem connectTx_eq_ok {i : Nat} (h : connectTx ctx orc nHeight st (tx, i) = .ok st') :
    ∃ txundo, updateCoins orc.hash256 st.view tx nHeight = .ok (st'.view, txundo) ∧
      st'.vtxundo = if i > 0 then st.vtxundo ++ [txundo] else st.vtxundo := by
  simp only [connectTx] at h
  obtain ⟨st1, h1, h⟩ := bind_eq_ok h
  obtain ⟨st2, h2, h⟩ := bind_eq_ok h
  obtain ⟨st3, h3, h⟩ := bind_eq_ok h
  have f1 : st1.view = st.view ∧ st1.vtxundo = st.vtxundo := by
    split at h1
    · cases h1; exact ⟨rfl, rfl⟩
    · exact tallyInputs_frame h1
  have f3 : st3.view = st2.view ∧ st3.vtxundo = st2.vtxundo := by
    split at h3
    · cases h3; exact ⟨rfl, rfl⟩
    · exact tallyReward_frame h3
  have f2 := tallySigOps_frame h2
  unfold applyUpdate at h
  obtain ⟨⟨view, txundo⟩, hu, h⟩ := bind_eq_ok h
  cases h
  rw [f3.1, f2.1, f1.1, liftExcept_eq_ok] at hu
  exact ⟨txundo, hu, by rw [f3.2, f2.2, f1.2]⟩

/-- The view after one iteration is the `UpdateCoins` of the view before it. -/
theorem connectTx_view {i : Nat} (h : connectTx ctx orc nHeight st (tx, i) = .ok st') :
    ∃ txundo, updateCoins orc.hash256 st.view tx nHeight = .ok (st'.view, txundo) := by
  obtain ⟨txundo, hu, -⟩ := connectTx_eq_ok h
  exact ⟨txundo, hu⟩

end LoopSteps

/-- BIP30: no output of the block may already exist unspent in the view. -/
def bip30Clean (block : CBlock) (view : CoinsView) : Bool :=
  block.vtx.all fun tx =>
    (List.range tx.vout.length).all fun o => !view.haveCoin ⟨getHash orc.hash256 tx, o.toUInt32⟩

/-- The coinbase and coinstake limits after the loop. -/
def checkRewards (block : CBlock) (st : LoopState) : Except BlockResult Unit := do
  if block.isProofOfWork then
    let blockReward := st.nFees + getBlockSubsidy false
    match block.vtx with
    | tx0 :: _ =>
      if blockReward < (← liftExcept tx0.getValueOut) then
        throw (.invalid .BLOCK_CONSENSUS "bad-cb-amount")
    | [] => pure ()
  if block.isProofOfStake && ctx.params.isProtocolV3 block.getBlockTime then
    let blockReward := st.nFees + getBlockSubsidy true
    if blockReward < st.nActualStakeReward then throw (.invalid .BLOCK_CONSENSUS "bad-cs-amount")

/-- `ConnectBlock(block, state, pindex, view, fJustCheck)`; `pindex` contributes its height and
the hash of its parent. Returns the updated view and the undo data written for the block. -/
def connectBlock (block : CBlock) (nHeight : Nat) (hashPrev : Option Uint256) (view : CoinsView)
    (fJustCheck : Bool := false) : Except BlockResult (CoinsView × CBlockUndo) := do
  let block_hash := CBlockHeader.getHash orc.toOracles block.toCBlockHeader
  if ctx.checkpointsEnabled && !checkHardened ctx.checkpoints nHeight block_hash then
    throw (.invalid .BLOCK_CHECKPOINT "bad-fork-hardened-checkpoint")
  match checkBlock orc.toOracles ctx.params ctx.chainHeight ctx.adjustedTime block
      (!fJustCheck) (!fJustCheck) with
  | .error (.invalid .BLOCK_MUTATED _) =>
    throw (.error "Corrupt block found indicating potential hardware failure; shutting down")
  | .error e => throw e
  | .ok () => pure ()
  -- verify that the view's current state corresponds to the previous block
  if hashPrev.getD 0 != view.hashBlock then
    throw (.exception "Assertion `hashPrevBlock == view.GetBestBlock()' failed.")
  if block.isProofOfStake && ctx.params.isProtocolV3 block.getBlockTime then
    orc.checkProofOfStake block view
  -- Special case for the genesis block, skipping connection of its transactions
  if block_hash == ctx.params.hashGenesisBlock then
    return (if fJustCheck then view else view.setBestBlock block_hash, [])
  if !bip30Clean orc block view then throw (.invalid .BLOCK_CONSENSUS "bad-txns-BIP30")
  let st ← block.vtx.zipIdx.foldlM (connectTx ctx orc nHeight) ⟨view, 0, 0, 0, []⟩
  checkRewards ctx block st
  if fJustCheck then return (st.view, st.vtxundo)
  pure (st.view.setBestBlock block_hash, st.vtxundo)

section Inversion
variable {ctx orc} {block : CBlock} {nHeight : Nat} {hashPrev : Option Uint256} {view : CoinsView}
  {r : CoinsView × CBlockUndo}

/-- What a successful `ConnectBlock` of a block other than the genesis block has checked, and
the loop it ran. -/
theorem connectBlock_eq_ok (h : connectBlock ctx orc block nHeight hashPrev view = .ok r)
    (hgenesis : CBlockHeader.getHash orc.toOracles block.toCBlockHeader ≠ ctx.params.hashGenesisBlock) :
    checkBlock orc.toOracles ctx.params ctx.chainHeight ctx.adjustedTime block true true true = .ok () ∧
      hashPrev.getD 0 = view.hashBlock ∧ bip30Clean orc block view = true ∧
      ∃ st, block.vtx.zipIdx.foldlM (connectTx ctx orc nHeight) ⟨view, 0, 0, 0, []⟩ = .ok st ∧
        r = (st.view.setBestBlock (CBlockHeader.getHash orc.toOracles block.toCBlockHeader), st.vtxundo) := by
  unfold connectBlock at h
  obtain ⟨-, h⟩ := cont_of_ite_throw h
  -- a failed `CheckBlock` is thrown on, reworded or not
  beta_reduce at h
  generalize hc : checkBlock orc.toOracles ctx.params ctx.chainHeight ctx.adjustedTime block
    (!false) (!false) = c at h
  rcases c with (⟨res, _⟩ | _ | _) | ⟨⟩
  · cases res <;> cases h
  · cases h
  · cases h
  simp only at h
  obtain ⟨hprev, h⟩ := cont_of_ite_throw h
  have h := cont_of_ite_bind h rfl
  have h := cont_of_ite h (fun hg _ => absurd (beq_iff_eq.mp hg) hgenesis)
  obtain ⟨hbip30, h⟩ := cont_of_ite_throw h
  obtain ⟨st, hloop, h⟩ := bind_eq_ok h
  obtain ⟨-, -, h⟩ := bind_eq_ok h
  cases h
  refine ⟨hc, by simpa using hprev, by simpa using hbip30, st, hloop, rfl⟩

end Inversion

/-- The value of the coins a transaction spends, read in `view`, as an integer. -/
def txValueIn (view : CoinsView) (tx : CTransaction) : Int :=
  (tx.vin.map fun txin => (view.accessCoin txin.prevout).out.nValue.toInt).sum

def txValueOut (tx : CTransaction) : Int := (tx.vout.map fun out => out.nValue.toInt).sum

/-- The coinstake limit with each ordinary fee counted once: the coinstake's gain is at most
the stake subsidy plus the fees of the transactions after it, valued in `view`. -/
def stakeRewardWithinFees (view : CoinsView) (block : CBlock) : Bool :=
  match block.vtx with
  | _ :: cs :: rest => decide (txValueOut cs - txValueIn view cs ≤
      getProofOfStakeSubsidy.toInt + (rest.map fun tx => txValueIn view tx - txValueOut tx).sum)
  | _ => true

/-- A stand-in for the hashing and script code, for evaluating blocks: a polynomial hash
modulo `2 ^ 256`, every signature, script and lock accepted, one sigop per transaction. -/
def exampleOracles : ConnectOracles where
  hash256 bytes := BitVec.ofNat 256 (bytes.foldl (fun acc b => acc * 257 + b.toNat + 1) 0)
  scrypt bytes := BitVec.ofNat 256 (bytes.foldl (fun acc b => acc * 263 + b.toNat + 1) 0)
  checkStakeSignature _ := true
  legacySigOpCount _ := 1
  checkProofOfStake _ _ := .ok ()
  fScriptChecks := true
  checkInputScripts _ _ := none
  transactionSigOpCost _ _ := 4
  sequenceLocks _ _ := true

/-- Main-network rules at a clock after protocol V3.1, checkpoints off. -/
def exampleContext (adjustedTime : Int) : Context := ⟨Params.main, [], false, 2000, adjustedTime⟩

namespace DoubleFee

def opStake : COutPoint := ⟨7, 0⟩
def opSpend : COutPoint := ⟨8, 0⟩
def fee : CAmount := COIN

def coinbase : CTransaction := ⟨[⟨⟨0, NULL_INDEX⟩, [2, 0xe9, 0x03], 0xffffffff, []⟩], [⟨0, []⟩], 2, 0, 0⟩
/-- Stakes 1000 coins and claims the subsidy plus twice the block's only fee. -/
def coinstake : CTransaction :=
  ⟨[⟨opStake, [], 0xffffffff, []⟩],
    [⟨0, []⟩, ⟨1000 * COIN + getProofOfStakeSubsidy + fee + fee, [0x51]⟩], 2, 0, 0⟩
def payment : CTransaction := ⟨[⟨opSpend, [], 0xffffffff, []⟩], [⟨100 * COIN - fee, [0x51]⟩], 2, 0, 0⟩

def unrooted : CBlock :=
  { nVersion := 7, hashPrevBlock := 5, hashMerkleRoot := 0, nTime := 1759999984,
    nBits := 0x1d00ffff, nNonce := 0, nFlags := 1, vtx := [coinbase, coinstake, payment],
    vchBlockSig := [1] }
def block : CBlock :=
  { unrooted with hashMerkleRoot := (Merkle.blockMerkleRoot exampleOracles.hash256 unrooted).1 }

def view : CoinsView where
  coins o := if o = opStake then ⟨⟨1000 * COIN, [0x51]⟩, false, false, 100, 0⟩
    else if o = opSpend then ⟨⟨100 * COIN, [0x51]⟩, false, false, 100, 0⟩ else Coin.empty
  hashBlock := 5

end DoubleFee

theorem connectBlock_accepts_fee_counted_twice :
    (connectBlock (exampleContext 1760000000) exampleOracles DoubleFee.block 1001 (some 5)
      DoubleFee.view).isOk = true ∧
    stakeRewardWithinFees DoubleFee.view DoubleFee.block = false := by
  decide +kernel

namespace StakedTime

/-- `CreateNewBlock` sets `pblock->nTime = coinbaseTx.nTime = txCoinStake.nTime`. -/
def nTime : UInt32 := 1759999984

def coinbase : CTransaction := { DoubleFee.coinbase with nTime }
def coinstake : CTransaction :=
  ⟨[⟨DoubleFee.opStake, [], 0xffffffff, []⟩], [⟨0, []⟩, ⟨1000 * COIN + getProofOfStakeSubsidy, [0x51]⟩],
    2, nTime, 0⟩

def unrooted : CBlock := { DoubleFee.unrooted with nTime, vtx := [coinbase, coinstake] }
def block : CBlock :=
  { unrooted with hashMerkleRoot := (Merkle.blockMerkleRoot exampleOracles.hash256 unrooted).1 }

/-- The same block as a peer decodes it: version-2 transactions carry no `nTime` on the wire. -/
def received : CBlock :=
  { block with vtx := block.vtx.map fun tx => { tx with nTime := 0 } }

/-- The stake output, at the same outpoint in both blocks since the txid skips `nTime`. -/
def stakeOutput : COutPoint := ⟨getHash exampleOracles.hash256 coinstake, 1⟩

end StakedTime

theorem connectBlock_keeps_unserialized_nTime :
    (unserializeBlock true true).run (serializeBlock StakedTime.block true true) =
      .ok (StakedTime.received, []) ∧
    (connectBlock (exampleContext 1760000000) exampleOracles StakedTime.block 1001 (some 5)
      DoubleFee.view).isOk = true ∧
    (connectBlock (exampleContext 1760000000) exampleOracles StakedTime.received 1001 (some 5)
      DoubleFee.view).isOk = true ∧
    ((connectBlock (exampleContext 1760000000) exampleOracles StakedTime.block 1001 (some 5)
      DoubleFee.view).toOption.map fun r => r.1.accessCoin StakedTime.stakeOutput) ≠
    ((connectBlock (exampleContext 1760000000) exampleOracles StakedTime.received 1001 (some 5)
      DoubleFee.view).toOption.map fun r => r.1.accessCoin StakedTime.stakeOutput) := by
  decide +kernel

end BlackcoinMore.ConnectBlock
