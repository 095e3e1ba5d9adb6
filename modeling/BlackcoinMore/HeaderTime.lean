import BlackcoinMore.AcceptBlock

/-! What a block that is ahead of the clock meets. `CheckBlockHeader` rejects a timestamp past
`FutureDrift` of the adjusted time as `BLOCK_INVALID_HEADER`, the result `MaybePunishNodeForBlock`
punishes, while `ContextualCheckBlockHeader` treats the same condition as the transient
`BLOCK_TIME_FUTURE`. -/
namespace BlackcoinMore.HeaderTime
open Primitives ChainParams BlockChecks BlockIndex ConnectBlock ChainState AcceptBlock ExceptFold

section
variable {cc : ChainContext} {orc : Oracles} {s : ChainstateManager} {now now' : Int}

/-- A header that passed at `now'` fails at `now` exactly on its timestamp. -/
theorem checkBlockHeader_time_too_new {params : Params} {chainHeight : Int} {block : CBlockHeader}
    {fCheckPOW : Bool}
    (hok : checkBlockHeader orc params chainHeight now' block fCheckPOW false = .ok ())
    (hfuture : futureDrift params chainHeight now < block.getBlockTime) :
    checkBlockHeader orc params chainHeight now block fCheckPOW false =
      .error (.invalid .BLOCK_INVALID_HEADER "time-too-new") := by
  rw [checkBlockHeader_eq] at hok ⊢
  split_ifs at hok ⊢
  all_goals simp_all

theorem checkBlock_time_too_new {params : Params} {chainHeight : Int} {block : CBlock}
    (hok : checkBlock orc params chainHeight now' block = .ok ())
    (hfuture : futureDrift params chainHeight now < block.getBlockTime) :
    checkBlock orc params chainHeight now block = .error (.invalid .BLOCK_INVALID_HEADER "time-too-new") := by
  unfold checkBlock at hok ⊢
  obtain ⟨u, hheader, -⟩ := bind_eq_ok hok
  rw [checkBlockHeader_time_too_new hheader hfuture]
  rfl

variable {block : CBlockHeader}

theorem headerKind_time_too_new {fSet : Bool} (hok : headerKind cc orc s now' block false = .ok fSet)
    (hfuture : futureDrift cc.params s.height now < block.getBlockTime) :
    headerKind cc orc s now block false = .error (.invalid .BLOCK_INVALID_HEADER "time-too-new") := by
  unfold headerKind at hok ⊢
  dsimp only at hok ⊢
  cases hc : checkBlockHeader orc cc.params s.height now' block
      (!(block.nFlags &&& BLOCK_PROOF_OF_STAKE != 0)) false with
  | error e => simp [hc] at hok
  | ok u =>
    rw [checkBlockHeader_time_too_new hc hfuture]
    rfl

theorem checkNewHeader_time_too_new {r : CBlockIndex × Bool}
    (hok : checkNewHeader cc orc s now' block false = .ok r)
    (hfuture : futureDrift cc.params s.height now < block.getBlockTime) :
    checkNewHeader cc orc s now block false = .error (.invalid .BLOCK_INVALID_HEADER "time-too-new") := by
  unfold checkNewHeader at hok ⊢
  obtain ⟨u, hsync, hok⟩ := bind_eq_ok hok
  obtain ⟨fSet, hkind, -⟩ := bind_eq_ok hok
  rw [hsync]
  show headerKind cc orc s now block false >>= _ = _
  rw [headerKind_time_too_new hkind hfuture]
  rfl

/-- The header path (`ProcessNewBlockHeaders`, and `AcceptBlock` before it reads the block): a
new header accepted at `now'` is rejected at an earlier reading on its timestamp, as an invalid
header, without any entry being marked. -/
theorem acceptBlockHeader_time_too_new {min_pow_checked : Bool}
    (hnew : s.m_block_index (CBlockHeader.getHash orc block) = none)
    (hgen : CBlockHeader.getHash orc block ≠ cc.params.hashGenesisBlock)
    (hok : (acceptBlockHeader cc orc s now' block min_pow_checked false).2.isOk = true)
    (hfuture : futureDrift cc.params s.height now < block.getBlockTime) :
    acceptBlockHeader cc orc s now block min_pow_checked false =
      (s, .error (.invalid .BLOCK_INVALID_HEADER "time-too-new")) := by
  have hne : (CBlockHeader.getHash orc block != cc.params.hashGenesisBlock) = true := by simpa using hgen
  simp only [acceptBlockHeader, hne, hnew, ite_true] at hok ⊢
  cases hc : checkNewHeader cc orc s now' block false with
  | error e => simp [hc, Except.isOk, Except.toBool] at hok
  | ok r => rw [checkNewHeader_time_too_new hc hfuture]

end

/-- A block that `ProcessNewBlock` accepts at `now'` but whose timestamp is past `FutureDrift`
of an earlier reading `now`: at `now` it is rejected as an invalid header, and the peer that
sent it is given the misbehaviour score 100. -/
theorem processNewBlock_punishes_early_block (cc : ChainContext) (orc : Oracles) (s : ChainstateManager)
    (now now' : Int) (block : CBlock) (fCanonicalSig force_processing min_pow_checked is_inbound : Bool)
    (hok : (processNewBlock cc orc s now' block fCanonicalSig force_processing min_pow_checked).2.isOk = true)
    (hfuture : futureDrift cc.params s.height now < block.getBlockTime) :
    processNewBlock cc orc s now block fCanonicalSig force_processing min_pow_checked =
      (s, .error (.invalid .BLOCK_INVALID_HEADER "time-too-new")) ∧
    maybePunishNodeForBlock (.invalid .BLOCK_INVALID_HEADER "time-too-new") false is_inbound = some 100 := by
  refine ⟨?_, rfl⟩
  cases fCanonicalSig with
  | false => simp [processNewBlock, Except.isOk, Except.toBool] at hok
  | true =>
    simp only [processNewBlock, Bool.not_true] at hok ⊢
    cases hc : checkBlock orc cc.params s.height now' block with
    | error e => simp [hc, Except.isOk, Except.toBool] at hok
    | ok u => simp only [Bool.false_eq_true, ite_false, checkBlock_time_too_new hc hfuture]

-- A stake block at height 1, sixteen seconds ahead of the reading 1760000000.
namespace EarlyBlock

def coinbase : CTransaction := ⟨[⟨⟨0, NULL_INDEX⟩, [0x51, 0], 0xffffffff, []⟩], [⟨0, []⟩], 2, 0, 0⟩
def coinstake : CTransaction :=
  ⟨[⟨⟨7, 0⟩, [], 0xffffffff, []⟩], [⟨0, []⟩, ⟨1000 * COIN, [0x51]⟩], 2, 0, 0⟩

def unrooted : CBlock :=
  { nVersion := 7, hashPrevBlock := Params.main.hashGenesisBlock, hashMerkleRoot := 0,
    nTime := 1760000016, nBits := 0x1e0fffff, nNonce := 0, nFlags := 1,
    vtx := [coinbase, coinstake], vchBlockSig := [1] }
def block : CBlock :=
  { unrooted with hashMerkleRoot := (Merkle.blockMerkleRoot exampleOracles.hash256 unrooted).1 }

end EarlyBlock

theorem processNewBlock_punishes_block_one_second_early :
    processNewBlock exampleChainContext exampleOracles.toOracles genesisState 1760000000 EarlyBlock.block
        true true true =
      (genesisState, .error (.invalid .BLOCK_INVALID_HEADER "time-too-new")) ∧
    maybePunishNodeForBlock (.invalid .BLOCK_INVALID_HEADER "time-too-new") false false = some 100 :=
  processNewBlock_punishes_early_block exampleChainContext exampleOracles.toOracles genesisState
    1760000000 1760000001 EarlyBlock.block true true true false (by decide +kernel) (by decide +kernel)

theorem acceptBlockHeader_time_too_new_early :
    acceptBlockHeader exampleChainContext exampleOracles.toOracles genesisState 1760000000
        EarlyBlock.block.toCBlockHeader true false =
      (genesisState, .error (.invalid .BLOCK_INVALID_HEADER "time-too-new")) :=
  @acceptBlockHeader_time_too_new exampleChainContext exampleOracles.toOracles genesisState
    1760000000 1760000001 EarlyBlock.block.toCBlockHeader true
    (by decide +kernel) (by decide +kernel) (by decide +kernel) (by decide +kernel)

-- The stake block of `EarlyBlock` with a payment stamped after the block: `CheckBlock` has no
-- transaction-time rule, since its `bad-tx-time` test sits after a `return`.
namespace LateTx

def payment : CTransaction := ⟨[⟨⟨9, 0⟩, [], 0xffffffff, []⟩], [⟨COIN, [0x51]⟩], 1, 1760001016, 0⟩

def unrooted : CBlock :=
  { EarlyBlock.unrooted with vtx := [EarlyBlock.coinbase, EarlyBlock.coinstake, payment] }
def block : CBlock :=
  { unrooted with hashMerkleRoot := (Merkle.blockMerkleRoot exampleOracles.hash256 unrooted).1 }

end LateTx

theorem checkBlock_accepts_late_tx_time :
    checkBlock exampleOracles.toOracles Params.main 0 1760000001 LateTx.block = .ok () ∧
      ∃ tx ∈ LateTx.block.vtx, tx.nTime ≠ 0 ∧ LateTx.block.nTime < tx.nTime := by
  decide +kernel

end BlackcoinMore.HeaderTime
