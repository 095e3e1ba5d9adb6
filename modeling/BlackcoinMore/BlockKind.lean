import BlackcoinMore.HeaderTime

/-! Which kind of block an index entry records. `AcceptBlockHeader` takes the kind from the
proof-of-stake bit of the header's `nFlags`, a field no hash covers; it picks the target the
header is checked against and the `reject-pow` rule. `CheckBlock` and `ConnectBlock` instead
branch on `IsProofOfStake()`, whether `vtx[1]` is a coinstake. -/
namespace BlackcoinMore.BlockKind
open Primitives Coins ChainParams BlockChecks BlockIndex ConnectBlock ChainState AcceptBlock ExceptFold

section
variable {cc : ChainContext} {orc : Oracles} {s s' : ChainstateManager} {now : Int}

theorem headerKind_eq_ok {block : CBlockHeader} {fSet : Bool}
    (h : headerKind cc orc s now block false = .ok fSet) :
    fSet = (block.nFlags &&& BLOCK_PROOF_OF_STAKE != 0) := by
  unfold headerKind at h
  dsimp only at h
  split at h
  · cases h; rfl
  · simp at h

theorem checkNewHeader_eq_ok {block : CBlockHeader} {pindexPrev : CBlockIndex} {fSet : Bool}
    (h : checkNewHeader cc orc s now block false = .ok (pindexPrev, fSet)) :
    fSet = (block.nFlags &&& BLOCK_PROOF_OF_STAKE != 0) := by
  unfold checkNewHeader at h
  obtain ⟨_, -, h⟩ := bind_eq_ok h
  obtain ⟨fSet', hkind, h⟩ := bind_eq_ok h
  obtain ⟨_, -, h⟩ := bind_eq_ok h
  cases h
  exact headerKind_eq_ok hkind

theorem addHeader_eq_ok {block : CBlockHeader} {hash : Uint256} {min_pow_checked fSet : Bool}
    {pindex : CBlockIndex} (hnew : s.m_block_index hash = none)
    (h : addHeader s block hash min_pow_checked fSet = (s', .ok pindex)) :
    s'.m_block_index hash = some pindex ∧ pindex.phashBlock = hash ∧
      pindex.isProofOfStake = (fSet || block.nFlags &&& BLOCK_PROOF_OF_STAKE != 0) := by
  unfold addHeader at h
  split_ifs at h
  · simp at h
  · cases hc : addToBlockIndex s.m_block_index s.m_best_header block hash fSet with
    | error w => simp [hc] at h
    | ok r =>
      obtain ⟨m, best, p⟩ := r
      simp only [hc, Prod.mk.injEq, Except.ok.injEq] at h
      obtain ⟨rfl, rfl⟩ := h
      exact addToBlockIndex_new s.m_block_index hnew hc

theorem acceptBlockHeader_new_eq_ok {block : CBlockHeader} {min_pow_checked : Bool} {pindex : CBlockIndex}
    (hnew : s.m_block_index (CBlockHeader.getHash orc block) = none)
    (hgen : CBlockHeader.getHash orc block ≠ cc.params.hashGenesisBlock)
    (h : acceptBlockHeader cc orc s now block min_pow_checked false = (s', .ok pindex)) :
    s'.m_block_index (CBlockHeader.getHash orc block) = some pindex ∧
      pindex.phashBlock = CBlockHeader.getHash orc block ∧
      pindex.isProofOfStake = (block.nFlags &&& BLOCK_PROOF_OF_STAKE != 0) := by
  have hne : (CBlockHeader.getHash orc block != cc.params.hashGenesisBlock) = true := by simpa using hgen
  simp only [acceptBlockHeader, hne, hnew, ite_true] at h
  cases hc : checkNewHeader cc orc s now block false with
  | error e => simp [hc] at h
  | ok r =>
    obtain ⟨pindexPrev, fSet⟩ := r
    have hfSet := checkNewHeader_eq_ok hc
    subst hfSet
    simp only [hc] at h
    -- every successful way out stores the header through `addHeader`
    have hadd : addHeader s block (CBlockHeader.getHash orc block) min_pow_checked
        (block.nFlags &&& BLOCK_PROOF_OF_STAKE != 0) = (s', .ok pindex) := by
      split_ifs at h
      · exact h
      · split at h
        · simp at h
        · exact h
        · split_ifs at h <;> simp at h
    obtain ⟨hm, hhash, hkind⟩ := addHeader_eq_ok hnew hadd
    exact ⟨hm, hhash, by simpa using hkind⟩
theorem acceptBlock_new_eq_ok {block : CBlock} {fRequested min_pow_checked : Bool} {pindex : CBlockIndex}
    (hnew : s.m_block_index (CBlockHeader.getHash orc block.toCBlockHeader) = none)
    (hgen : CBlockHeader.getHash orc block.toCBlockHeader ≠ cc.params.hashGenesisBlock)
    (h : acceptBlock cc orc s now block fRequested min_pow_checked = (s', .ok pindex)) :
    s'.flagsOf (CBlockHeader.getHash orc block.toCBlockHeader) = some pindex.nFlags ∧
      pindex.isProofOfStake = (block.nFlags &&& BLOCK_PROOF_OF_STAKE != 0) := by
  unfold acceptBlock at h
  rcases hh : acceptBlockHeader cc orc s now block.toCBlockHeader min_pow_checked false with ⟨s1, _ | p⟩
  · simp [hh] at h
  · obtain ⟨hm, hhash, hkind⟩ := acceptBlockHeader_new_eq_ok hnew hgen hh
    have hflags : s1.flagsOf p.phashBlock = some p.nFlags := by
      simp [ChainstateManager.flagsOf, hhash, hm]
    rw [hh] at h
    simp only at h
    -- the ways to succeed: the data was there, the block is set aside, or it is stored
    have hres : (s' = s1 ∨ s' = receivedBlockTransactions cc.params s1 block p) ∧ pindex = p := by
      split_ifs at h
      · simp only [Prod.mk.injEq, Except.ok.injEq] at h
        exact ⟨.inl h.1.symm, h.2.symm⟩
      · simp only [Prod.mk.injEq, Except.ok.injEq] at h
        exact ⟨.inl h.1.symm, h.2.symm⟩
      · split at h
        · simp at h
        · simp at h
        · simp only [Prod.mk.injEq, Except.ok.injEq] at h
          exact ⟨.inr h.1.symm, h.2.symm⟩
    obtain ⟨hs', rfl⟩ := hres
    refine ⟨?_, hkind⟩
    rw [← hhash]
    rcases hs' with rfl | rfl
    · exact hflags
    · rw [flagsOf_receivedBlockTransactions _ _ _ hflags]
      exact hflags
end

/-- Every new block `AcceptBlock` accepts gets an index entry whose proof-of-stake flag is the
bit of the `nFlags` it arrived with, whatever its transactions are. -/
theorem acceptBlock_records_claimed_kind (cc : ChainContext) (orc : Oracles) (s : ChainstateManager)
    (now : Int) (block : CBlock) (fRequested min_pow_checked : Bool)
    (hnew : s.m_block_index (CBlockHeader.getHash orc block.toCBlockHeader) = none)
    (hgen : CBlockHeader.getHash orc block.toCBlockHeader ≠ cc.params.hashGenesisBlock)
    (hacc : (acceptBlock cc orc s now block fRequested min_pow_checked).2.isOk = true) :
    ((acceptBlock cc orc s now block fRequested min_pow_checked).1.m_block_index
        (CBlockHeader.getHash orc block.toCBlockHeader)).map CBlockIndex.isProofOfStake =
      some (block.nFlags &&& BLOCK_PROOF_OF_STAKE != 0) := by
  rcases h : acceptBlock cc orc s now block fRequested min_pow_checked with ⟨s', _ | pindex⟩
  · simp [h, Except.isOk, Except.toBool] at hacc
  · obtain ⟨hflags, hkind⟩ := acceptBlock_new_eq_ok hnew hgen h
    simp only [ChainstateManager.flagsOf] at hflags
    cases he : s'.m_block_index (CBlockHeader.getHash orc block.toCBlockHeader) with
    | none => simp [he] at hflags
    | some e =>
      -- the kind is read off the flags, which the entry shares with the one returned
      simp only [he, Option.map_some, Option.some.injEq] at hflags ⊢
      rw [← hkind]
      simp [CBlockIndex.isProofOfStake, hflags]

/-- The stand-in hashes, with a proof-of-work hash of 24 leading zero bits: the hash of a header
mined at the target `0x1e0fffff`. -/
def minedOracles : ConnectOracles :=
  { exampleOracles with scrypt := fun bytes => exampleOracles.scrypt bytes >>> 24 }

/-- Main-network rules with the proof-of-work phase over after the genesis block. -/
def stakeOnlyParams : Params := { Params.main with nLastPOWBlock := 0 }

def stakeOnlyContext : ChainContext := ⟨stakeOnlyParams, false, [], false, 0⟩

-- A proof-of-work block at height 1 whose header carries the proof-of-stake bit.
namespace StakeFlaggedPow

def coinbase : CTransaction :=
  ⟨[⟨⟨0, NULL_INDEX⟩, [0x51, 0], 0xffffffff, []⟩], [⟨10000 * COIN, [0x51]⟩], 2, 0, 0⟩

def unrooted : CBlock :=
  { nVersion := 7, hashPrevBlock := Params.main.hashGenesisBlock, hashMerkleRoot := 0,
    nTime := 1760000000, nBits := 0x1e0fffff, nNonce := 0, nFlags := 1, vtx := [coinbase],
    vchBlockSig := [] }
def block : CBlock :=
  { unrooted with hashMerkleRoot := (Merkle.blockMerkleRoot minedOracles.hash256 unrooted).1 }

end StakeFlaggedPow

theorem acceptBlock_records_stake_for_pow_block :
    StakeFlaggedPow.block.isProofOfStake = false ∧
    (connectBlock ⟨stakeOnlyParams, [], false, 0, 1760000000⟩ minedOracles StakeFlaggedPow.block 1
      (some Params.main.hashGenesisBlock) ⟨fun _ => Coin.empty, Params.main.hashGenesisBlock⟩).isOk = true ∧
    ((acceptBlock stakeOnlyContext minedOracles.toOracles genesisState 1760000000 StakeFlaggedPow.block
        true true).1.m_block_index
      (CBlockHeader.getHash minedOracles.toOracles StakeFlaggedPow.block.toCBlockHeader)).map
        CBlockIndex.isProofOfStake = some true :=
  ⟨by decide +kernel, by decide +kernel,
    (acceptBlock_records_claimed_kind stakeOnlyContext minedOracles.toOracles genesisState 1760000000
      StakeFlaggedPow.block true true (by decide +kernel) (by decide +kernel) (by decide +kernel)).trans
      (by decide)⟩

end BlackcoinMore.BlockKind
