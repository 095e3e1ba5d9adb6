import BlackcoinMore.TxVerify
import BlackcoinMore.Merkle
import BlackcoinMore.ArithUint256
import BlackcoinMore.ExceptFold

/-! The context-free block checks of `validation.cpp` (`CheckBlockHeader`, `CheckBlock`),
`CheckProofOfWork` of `pow.cpp` and the stake timestamp rules of `pos.cpp`. Hashing, block
signatures and sigop counting are code this model does not embed; they are the fields of
`Oracles`. -/
namespace BlackcoinMore.BlockChecks
open Primitives Serialize Coins ChainParams TxVerify ArithUint256

/-- Functions of `src/` that the block checks call and this model takes as given. -/
structure Oracles where
  /-- `Hash`/`HashWriter`: double SHA-256 of a byte string. -/
  hash256 : Bytes → Uint256
  /-- `scrypt_1024_1_1_256` over the 80 header bytes. -/
  scrypt : Bytes → Uint256
  /-- The proof-of-stake branch of `CheckBlockSignature` (`Solver`, `CPubKey::Verify`). -/
  checkStakeSignature : CBlock → Bool
  /-- `GetLegacySigOpCount`. -/
  legacySigOpCount : CTransaction → Nat

def MAX_BLOCK_SIGOPS_COST : Nat := 80000
def NO_WITNESS_COMMITMENT : Int := -1
def MINIMUM_WITNESS_COMMITMENT : Nat := 38

abbrev BlockResult := Failure BlockValidationResult

variable (orc : Oracles) (params : Params)

def CBlockHeader.getPoWHash (h : CBlockHeader) : Uint256 := orc.scrypt (serializeBlockHeader h false)

def CBlockHeader.getHash (h : CBlockHeader) : Uint256 :=
  if 6 < h.nVersion then orc.hash256 (serializeBlockHeader h false) else CBlockHeader.getPoWHash orc h

/-- `FutureDrift`; `chainHeight` is `active_chainstate.m_chain.Height()`. -/
def futureDrift (chainHeight : Int) (nTime : Int) : Int :=
  -- loose policy for FutureDrift in regtest mode
  if params.fPowNoRetargeting && chainHeight ≤ params.nLastPOWBlock then nTime + 24 * 60 * 60
  else if params.isProtocolV2 nTime then nTime + 15 else nTime + 10 * 60

def checkCoinStakeTimestamp (nTimeBlock nTimeTx : Int) : Bool :=
  if params.isProtocolV2 nTimeBlock then
    nTimeBlock == nTimeTx && Int.land nTimeTx params.nStakeTimestampMask == 0
  else nTimeBlock == nTimeTx

def checkStakeBlockTimestamp (nTimeBlock : Int) : Bool := checkCoinStakeTimestamp params nTimeBlock nTimeBlock

def checkProofOfWork (hash : Uint256) (nBits : UInt32) : Bool :=
  let (bnTarget, fNegative, fOverflow) := ArithUint256.setCompact nBits
  !(fNegative || bnTarget == BaseUint.zero || fOverflow ||
      bnTarget.compareTo (uintToArith256 params.powLimit) == .gt) &&
    (uintToArith256 hash).compareTo bnTarget != .gt

/-- `CheckBlockHeader`. Under `fOldClient` a failed proof of work returns `false` without
setting an invalid state. -/
def checkBlockHeader (chainHeight adjustedTime : Int) (block : CBlockHeader)
    (fCheckPOW : Bool := true) (fOldClient : Bool := false) : Except BlockResult Unit := do
  if block.nVersion < 7 && params.isProtocolV2 block.getBlockTime then
    throw (.invalid .BLOCK_INVALID_HEADER "bad-version")
  if fCheckPOW && !checkProofOfWork params (CBlockHeader.getPoWHash orc block) block.nBits then
    if fOldClient then throw (.error "proof of work failed") else
      throw (.invalid .BLOCK_INVALID_HEADER "high-hash")
  if futureDrift params chainHeight adjustedTime < block.getBlockTime then
    throw (.invalid .BLOCK_INVALID_HEADER "time-too-new")

/-- `CheckBlockHeader` as a chain of tests; the version and proof-of-work tests do not read
the clock. -/
theorem checkBlockHeader_eq (chainHeight adjustedTime : Int) (block : CBlockHeader)
    (fCheckPOW fOldClient : Bool) :
    checkBlockHeader orc params chainHeight adjustedTime block fCheckPOW fOldClient =
      if block.nVersion < 7 && params.isProtocolV2 block.getBlockTime then
        .error (.invalid .BLOCK_INVALID_HEADER "bad-version")
      else if fCheckPOW && !checkProofOfWork params (CBlockHeader.getPoWHash orc block) block.nBits then
        (if fOldClient then .error (.error "proof of work failed")
          else .error (.invalid .BLOCK_INVALID_HEADER "high-hash"))
      else if futureDrift params chainHeight adjustedTime < block.getBlockTime then
        .error (.invalid .BLOCK_INVALID_HEADER "time-too-new")
      else .ok () := by
  unfold checkBlockHeader
  split_ifs <;> rfl

def checkMerkleRoot (block : CBlock) : Except BlockResult Unit := do
  let (merkle_root, mutated) := Merkle.blockMerkleRoot orc.hash256 block
  if block.hashMerkleRoot != merkle_root then throw (.invalid .BLOCK_MUTATED "bad-txnmrklroot")
  if mutated then throw (.invalid .BLOCK_MUTATED "bad-txns-duplicate")

def getWitnessCommitmentIndex (block : CBlock) : Int :=
  match block.vtx with
  | [] => NO_WITNESS_COMMITMENT
  | tx0 :: _ => tx0.vout.zipIdx.foldl (fun commitpos (vout, o) =>
      if MINIMUM_WITNESS_COMMITMENT ≤ vout.scriptPubKey.length &&
          vout.scriptPubKey.take 6 == [OP_RETURN, 0x24, 0xaa, 0x21, 0xa9, 0xed] then o
      else commitpos) NO_WITNESS_COMMITMENT

def checkBlockSignature (block : CBlock) : Bool :=
  if block.isProofOfWork then block.vchBlockSig.isEmpty
  else !block.vchBlockSig.isEmpty && orc.checkStakeSignature block

/-- The proof-of-stake coinbase shape: one empty output, or with a witness commitment an
empty output and a zero-valued second one. -/
def coinbaseEmptyForStake (block : CBlock) (tx0 : CTransaction) : Bool :=
  if getWitnessCommitmentIndex block == NO_WITNESS_COMMITMENT then
    match tx0.vout with
    | [out0] => out0.isEmpty
    | _ => false
  else
    match tx0.vout with
    | [out0, out1] => out0.isEmpty && out1.nValue == 0
    | _ => false

/-- `CheckBlock`. The `fChecked` memo of an earlier success is not modelled, nor the signet
solution check (`signet_blocks` is false on every Blackcoin chain). The `bad-tx-time` test of
the source sits after a `return` inside the failure branch of `CheckTransaction`, so it never
runs and is not modelled. -/
def checkBlock (chainHeight adjustedTime : Int) (block : CBlock) (fCheckPOW : Bool := true)
    (fCheckMerkleRoot : Bool := true) (fCheckSig : Bool := true) : Except BlockResult Unit := do
  checkBlockHeader orc params chainHeight adjustedTime block.toCBlockHeader
    (fCheckPOW && block.isProofOfWork)
  if fCheckMerkleRoot then checkMerkleRoot orc block
  if block.vtx.isEmpty || MAX_BLOCK_WEIGHT < block.vtx.length * WITNESS_SCALE_FACTOR ||
      MAX_BLOCK_WEIGHT < (serializeBlock block false false).length * WITNESS_SCALE_FACTOR then
    throw (.invalid .BLOCK_CONSENSUS "bad-blk-length")
  match block.vtx with
  | [] => throw (.invalid .BLOCK_CONSENSUS "bad-cb-missing")
  | tx0 :: rest =>
    if !tx0.isCoinBase then throw (.invalid .BLOCK_CONSENSUS "bad-cb-missing")
    if rest.any CTransaction.isCoinBase then throw (.invalid .BLOCK_CONSENSUS "bad-cb-multiple")
    -- Check coinbase timestamp
    if futureDrift params chainHeight
        (if tx0.nTime != 0 then tx0.nTime.toNat else block.getBlockTime) < block.getBlockTime then
      throw (.invalid .BLOCK_CONSENSUS "bad-cb-time")
    if block.isProofOfStake then
      match rest with
      | [] => throw (.invalid .BLOCK_CONSENSUS "bad-cs-missing")
      | tx1 :: others =>
        if !checkCoinStakeTimestamp params block.getBlockTime
            (if tx1.nTime != 0 then tx1.nTime.toNat else block.getBlockTime) then
          throw (.invalid .BLOCK_CONSENSUS "bad-cs-time")
        -- Coinbase output must be empty if proof-of-stake block
        if !coinbaseEmptyForStake block tx0 then throw (.invalid .BLOCK_CONSENSUS "bad-cb-not-empty")
        if !tx1.isCoinStake then throw (.invalid .BLOCK_CONSENSUS "bad-cs-missing")
        if others.any CTransaction.isCoinStake then throw (.invalid .BLOCK_CONSENSUS "bad-cs-multiple")
  if fCheckSig && !checkBlockSignature orc block then
    throw (.invalid .BLOCK_CONSENSUS "bad-blk-signature")
  for tx in block.vtx do
    match checkTransaction tx with
    | .ok () => pure ()
    | .error (.invalid _ reason) => throw (.invalid .BLOCK_CONSENSUS reason)
    | .error (.error m) => throw (.error m)
    | .error (.exception w) => throw (.exception w)
  if MAX_BLOCK_SIGOPS_COST < (block.vtx.map orc.legacySigOpCount).sum * WITNESS_SCALE_FACTOR then
    throw (.invalid .BLOCK_CONSENSUS "bad-blk-sigops")

/-- What a successful `CheckBlock` guarantees of the transactions: the first is the only
coinbase, and each passes `CheckTransaction`. -/
theorem checkBlock_eq_ok {chainHeight adjustedTime : Int} {block : CBlock}
    {fCheckPOW fCheckMerkleRoot fCheckSig : Bool}
    (h : checkBlock orc params chainHeight adjustedTime block fCheckPOW fCheckMerkleRoot fCheckSig = .ok ()) :
    (∃ tx0 rest, block.vtx = tx0 :: rest ∧ tx0.isCoinBase = true ∧ rest.any CTransaction.isCoinBase = false) ∧
      ∀ tx ∈ block.vtx, checkTransaction tx = .ok () := by
  unfold checkBlock at h
  obtain ⟨_, -, h⟩ := ExceptFold.bind_eq_ok h
  have h := ExceptFold.cont_of_ite_bind h rfl
  obtain ⟨-, h⟩ := ExceptFold.cont_of_ite_throw h
  cases hv : block.vtx with
  | nil =>
    rw [hv] at h
    cases h
  | cons tx0 rest =>
    rw [hv] at h
    obtain ⟨hcb, h⟩ := ExceptFold.cont_of_ite_throw h
    obtain ⟨hmulti, h⟩ := ExceptFold.cont_of_ite_throw h
    obtain ⟨-, h⟩ := ExceptFold.cont_of_ite_throw h
    -- the stake checks, when they run, end in the same signature and transaction checks
    replace h := ExceptFold.cont_of_ite h (fun _ h => by
      cases rest with
      | nil => cases h
      | cons tx1 others =>
        obtain ⟨-, h⟩ := ExceptFold.cont_of_ite_throw h
        obtain ⟨-, h⟩ := ExceptFold.cont_of_ite_throw h
        obtain ⟨-, h⟩ := ExceptFold.cont_of_ite_throw h
        obtain ⟨-, h⟩ := ExceptFold.cont_of_ite_throw h
        exact h)
    obtain ⟨-, h⟩ := ExceptFold.cont_of_ite_throw h
    obtain ⟨_, hfor, -⟩ := ExceptFold.bind_eq_ok h
    refine ⟨⟨tx0, rest, rfl, by simpa using hcb, by simpa using hmulti⟩, fun tx htx => ?_⟩
    have hrun := ExceptFold.forIn_ok (fun tx r hr => by
      split at hr
      · exact (Except.ok.inj hr).symm
      all_goals cases hr) hfor tx htx
    split at hrun
    · assumption
    all_goals cases hrun

end BlackcoinMore.BlockChecks
