import BlackcoinMore.ConnectBlock
import BlackcoinMore.ExceptFold

/-! Which readings of the adjusted clock `ConnectBlock` cannot tell apart. The clock enters
through `CheckTxInputs`, which times a version-2 transaction without `nTime` by it, and
through the future-time test of `CheckBlockHeader`. -/
namespace BlackcoinMore.ConnectClock
open Primitives Serialize Coins ChainParams TxVerify BlockChecks ConnectBlock ExceptFold

/-- Every coin the view reports is timed no later than `bound`. -/
def CoinsTimedBy (view : CoinsView) (bound : Int) : Prop :=
  ∀ o, ((view.coins o).nTime.toNat : Int) ≤ bound

theorem CoinsTimedBy.nonneg {view : CoinsView} {bound : Int} (h : CoinsTimedBy view bound) :
    0 ≤ bound :=
  le_trans (Int.natCast_nonneg _) (h ⟨0, 0⟩)

theorem CoinsTimedBy.setCoin {view : CoinsView} {bound : Int} (h : CoinsTimedBy view bound)
    (o : COutPoint) {coin : Coin} (hc : (coin.nTime.toNat : Int) ≤ bound) :
    CoinsTimedBy (view.setCoin o coin) bound := by
  intro o'
  by_cases ho : o' = o
  · subst ho; simpa using hc
  · simpa [Function.update_of_ne ho] using h o'

section Timed
variable {hash256 : Bytes → Uint256} {view view' : CoinsView} {tx : CTransaction} {b : Int}
  {nHeight : Nat} {undo : List Coin}

/-- Spending leaves spent markers, timed 0. -/
theorem CoinsTimedBy.spendInputs (h : CoinsTimedBy view b)
    (hs : Coins.spendInputs view tx = .ok (view', undo)) : CoinsTimedBy view' b := by
  unfold Coins.spendInputs at hs
  refine foldlM_inv (fun s : CoinsView × List Coin => CoinsTimedBy s.1 b) h ?_ hs
  rintro ⟨v, u⟩ txin ⟨v', u'⟩ - hv hstep
  simp only at hstep
  split at hstep
  next coin v'' hsp =>
    cases hstep
    rw [(CoinsView.spendCoin_eq_some hsp).2.2]
    exact hv.setCoin _ (by simpa [Coin.empty] using hv.nonneg)
  · cases hstep

/-- Every coin `AddCoins` creates carries the transaction's `nTime`. -/
theorem CoinsTimedBy.addCoins (h : CoinsTimedBy view b) (ht : (tx.nTime.toNat : Int) ≤ b)
    (ha : Coins.addCoins hash256 view tx nHeight = .ok view') : CoinsTimedBy view' b := by
  unfold Coins.addCoins at ha
  refine foldlM_inv (fun v => CoinsTimedBy v b) h ?_ ha
  rintro v ⟨out, i⟩ v' - hv hstep
  obtain ⟨-, ⟨-, rfl⟩ | ⟨-, -, rfl⟩⟩ := CoinsView.addCoin_eq_ok hstep
  · exact hv
  · exact hv.setCoin _ ht

theorem CoinsTimedBy.updateCoins (h : CoinsTimedBy view b) (ht : (tx.nTime.toNat : Int) ≤ b)
    (hu : Coins.updateCoins hash256 view tx nHeight = .ok (view', undo)) :
    CoinsTimedBy view' b := by
  unfold Coins.updateCoins at hu
  obtain ⟨⟨mid, u⟩, hs, hu⟩ := bind_eq_ok hu
  obtain ⟨v, ha, hu⟩ := bind_eq_ok hu
  cases hu
  have hmid : CoinsTimedBy mid b := by
    split at hs
    · cases hs; exact h
    · exact h.spendInputs hs
  exact hmid.addCoins ht ha

theorem CoinsTimedBy.connectTx {ctx : Context} {orc : ConnectOracles} {st st' : LoopState} {i : Nat}
    (h : CoinsTimedBy st.view b) (ht : (tx.nTime.toNat : Int) ≤ b)
    (hc : ConnectBlock.connectTx ctx orc nHeight st (tx, i) = .ok st') : CoinsTimedBy st'.view b := by
  obtain ⟨txundo, hu⟩ := connectTx_view hc
  exact h.updateCoins ht hu

end Timed

theorem checkTxInput_congr {params : Params} {inputs : CoinsView} {nSpendHeight n1 n2 : Int}
    {nValueIn : CAmount} {txin : CTxIn}
    (hm : coinbaseMaturity params n1 = coinbaseMaturity params n2)
    (ht : n1 < (inputs.accessCoin txin.prevout).nTime.toNat ↔
      n2 < (inputs.accessCoin txin.prevout).nTime.toNat) :
    checkTxInput params inputs nSpendHeight n1 nValueIn txin =
      checkTxInput params inputs nSpendHeight n2 nValueIn txin := by
  simp only [checkTxInput, hm, ht]

theorem getMinFee_congr {nBytes : Nat} {u1 u2 : UInt32} {params : Params}
    (h : params.isProtocolV3_1 u1.toNat = params.isProtocolV3_1 u2.toNat) :
    getMinFee nBytes u1 params = getMinFee nBytes u2 params := by
  simp only [getMinFee, h]

/-- `GetMinFee` receives the `int64_t` time as `uint32_t`; below `2 ^ 32` nothing is lost. -/
theorem toUInt32_time {t : Int} (h0 : 0 ≤ t) (h1 : t < 2 ^ 32) :
    (((Int.toNat (t % 2 ^ 32)).toUInt32.toNat : Nat) : Int) = t := by
  have hmod : t % 2 ^ 32 = t := Int.emod_eq_of_lt h0 h1
  have hlt : (t % 2 ^ 32).toNat < 2 ^ 32 := by omega
  rw [Nat.toUInt32, UInt32.toNat_ofNat', Nat.mod_eq_of_lt hlt, Int.toNat_of_nonneg (by omega), hmod]

/-- The clock only shifts the future-time bound of `CheckBlockHeader` upwards. -/
theorem le_futureDrift (params : Params) (chainHeight t : Int) :
    t ≤ futureDrift params chainHeight t := by
  unfold futureDrift
  split_ifs <;> omega

section
variable {params : Params} {t1 t2 : Int}

/-- The input checks of one transaction: under two readings on one side of the V3.1
switch, both below `2 ^ 32`, and with every coin timed no later than either, the verdict and
the fee agree. -/
theorem checkTxInputs_clock (hv : params.isProtocolV3_1 t1 = params.isProtocolV3_1 t2)
    (h1 : t1 < 2 ^ 32) (h2 : t2 < 2 ^ 32) (tx : CTransaction) (inputs : CoinsView)
    (nSpendHeight : Int) (txfee : CAmount) (hc : CoinsTimedBy inputs (min t1 t2)) :
    checkTxInputs params t1 tx inputs nSpendHeight txfee =
      checkTxInputs params t2 tx inputs nSpendHeight txfee := by
  have h0 := hc.nonneg
  by_cases hsub : (tx.nTime == 0 && tx.nVersion ≥ 2) = true
  · -- the transaction is timed by the clock: t1 in one run, t2 in the other
    have hn1 : TxVerify.nTimeTx tx t1 = t1 := by simp [TxVerify.nTimeTx, hsub]
    have hn2 : TxVerify.nTimeTx tx t2 = t2 := by simp [TxVerify.nTimeTx, hsub]
    have hstep : checkTxInput params inputs nSpendHeight t1 =
        checkTxInput params inputs nSpendHeight t2 := by
      funext nValueIn txin
      have hcoin := hc txin.prevout
      apply checkTxInput_congr
      · simp only [coinbaseMaturity, hv]
      · simp only [CoinsView.accessCoin]; omega
    have hfee : getMinFee (getVirtualTransactionSize tx) (Int.toNat (t1 % 2 ^ 32)).toUInt32 params =
        getMinFee (getVirtualTransactionSize tx) (Int.toNat (t2 % 2 ^ 32)).toUInt32 params := by
      apply getMinFee_congr
      rw [toUInt32_time (by omega) h1, toUInt32_time (by omega) h2, hv]
    simp only [checkTxInputs, hn1, hn2, hstep, hfee, hv]
  · have hn : TxVerify.nTimeTx tx t1 = TxVerify.nTimeTx tx t2 := by
      simp [TxVerify.nTimeTx, Bool.eq_false_iff.mpr hsub]
    simp only [checkTxInputs, hn]

theorem checkBlock_clock (orc : Oracles) (chainHeight : Int) (block : CBlock)
    (fCheckPOW fCheckMerkleRoot fCheckSig : Bool)
    (hb1 : block.getBlockTime ≤ t1) (hb2 : block.getBlockTime ≤ t2) :
    checkBlock orc params chainHeight t1 block fCheckPOW fCheckMerkleRoot fCheckSig =
      checkBlock orc params chainHeight t2 block fCheckPOW fCheckMerkleRoot fCheckSig := by
  -- the header passes the future-time test under both readings
  have hf1 : ¬futureDrift params chainHeight t1 < block.getBlockTime := by
    have := le_futureDrift params chainHeight t1; omega
  have hf2 : ¬futureDrift params chainHeight t2 < block.getBlockTime := by
    have := le_futureDrift params chainHeight t2; omega
  simp only [checkBlock, checkBlockHeader, hf1, hf2]

section Loop
variable (ctx : Context) (orc : ConnectOracles) (nHeight : Nat)

theorem connectTx_clock (hv : ctx.params.isProtocolV3_1 t1 = ctx.params.isProtocolV3_1 t2)
    (h1 : t1 < 2 ^ 32) (h2 : t2 < 2 ^ 32) (st : LoopState) (tx : CTransaction) (i : Nat)
    (hc : CoinsTimedBy st.view (min t1 t2)) :
    connectTx { ctx with adjustedTime := t1 } orc nHeight st (tx, i) =
      connectTx { ctx with adjustedTime := t2 } orc nHeight st (tx, i) := by
  have htally : tallyInputs { ctx with adjustedTime := t1 } orc nHeight st tx =
      tallyInputs { ctx with adjustedTime := t2 } orc nHeight st tx := by
    simp only [tallyInputs, checkTxInputs_clock hv h1 h2 tx st.view _ 0 hc]
  simp only [connectTx, htally]

/-- Two readings of the clock on one side of the V3.1 switch, below `2 ^ 32`, no earlier than
the block's time and no earlier than any coin of the view or any transaction of the block,
connect the block the same way: every input check gives the same verdict and fee, and
`ConnectBlock` returns the same result. -/
theorem connectBlock_clock_independent (block : CBlock) (hashPrev : Option Uint256)
    (view : CoinsView) (fJustCheck : Bool)
    (hv : ctx.params.isProtocolV3_1 t1 = ctx.params.isProtocolV3_1 t2)
    (h1 : t1 < 2 ^ 32) (h2 : t2 < 2 ^ 32)
    (hb1 : block.getBlockTime ≤ t1) (hb2 : block.getBlockTime ≤ t2)
    (hcoins : CoinsTimedBy view (min t1 t2))
    (htxs : ∀ tx ∈ block.vtx, (tx.nTime.toNat : Int) ≤ min t1 t2) :
    (∀ tx inputs nSpendHeight txfee, CoinsTimedBy inputs (min t1 t2) →
      checkTxInputs ctx.params t1 tx inputs nSpendHeight txfee =
        checkTxInputs ctx.params t2 tx inputs nSpendHeight txfee) ∧
    connectBlock { ctx with adjustedTime := t1 } orc block nHeight hashPrev view fJustCheck =
      connectBlock { ctx with adjustedTime := t2 } orc block nHeight hashPrev view fJustCheck := by
  refine ⟨fun tx inputs nSpendHeight txfee hc => checkTxInputs_clock hv h1 h2 tx inputs nSpendHeight txfee hc, ?_⟩
  have hcheck : checkBlock orc.toOracles ctx.params ctx.chainHeight t1 block (!fJustCheck) (!fJustCheck) =
      checkBlock orc.toOracles ctx.params ctx.chainHeight t2 block (!fJustCheck) (!fJustCheck) :=
    checkBlock_clock orc.toOracles ctx.chainHeight block _ _ _ hb1 hb2
  -- the loop keeps every coin timed by `min t1 t2`, where the two bodies agree
  have hloop : block.vtx.zipIdx.foldlM (connectTx { ctx with adjustedTime := t1 } orc nHeight)
        ⟨view, 0, 0, 0, []⟩ =
      block.vtx.zipIdx.foldlM (connectTx { ctx with adjustedTime := t2 } orc nHeight)
        ⟨view, 0, 0, 0, []⟩ := by
    apply foldlM_congr_inv (fun st : LoopState => CoinsTimedBy st.view (min t1 t2)) hcoins
    · rintro st ⟨tx, i⟩ - hst
      exact connectTx_clock ctx orc nHeight hv h1 h2 st tx i hst
    · rintro st ⟨tx, i⟩ st' hmem hst hstep
      exact hst.connectTx (htxs tx (List.fst_mem_of_mem_zipIdx hmem)) hstep
  -- the reward limits read the parameters only
  have hrewards : ∀ st, checkRewards { ctx with adjustedTime := t1 } block st =
      checkRewards { ctx with adjustedTime := t2 } block st := fun _ => rfl
  simp only [connectBlock, hcheck, hloop, hrewards]

end Loop

end

-- A block of late 2023 whose only payment pays no fee.
namespace ClockSwitch

def coinbase : CTransaction := ⟨[⟨⟨0, NULL_INDEX⟩, [2, 0xe9, 0x03], 0xffffffff, []⟩], [⟨0, []⟩], 2, 0, 0⟩
def coinstake : CTransaction :=
  ⟨[⟨DoubleFee.opStake, [], 0xffffffff, []⟩],
    [⟨0, []⟩, ⟨1000 * COIN + getProofOfStakeSubsidy, [0x51]⟩], 2, 0, 0⟩
def payment : CTransaction := ⟨[⟨DoubleFee.opSpend, [], 0xffffffff, []⟩], [⟨100 * COIN, [0x51]⟩], 2, 0, 0⟩

def unrooted : CBlock :=
  { nVersion := 7, hashPrevBlock := 5, hashMerkleRoot := 0, nTime := 1700000000,
    nBits := 0x1d00ffff, nNonce := 0, nFlags := 1, vtx := [coinbase, coinstake, payment],
    vchBlockSig := [1] }
def block : CBlock :=
  { unrooted with hashMerkleRoot := (Merkle.blockMerkleRoot exampleOracles.hash256 unrooted).1 }

end ClockSwitch

/-- Both readings are past the block's time, yet only the one before protocol V3.1 accepts
the fee-less payment. -/
theorem connectBlock_depends_on_clock :
    ClockSwitch.block.getBlockTime ≤ 1700000000 ∧ ClockSwitch.block.getBlockTime ≤ 1760000000 ∧
    (connectBlock (exampleContext 1700000000) exampleOracles ClockSwitch.block 1001 (some 5)
      DoubleFee.view).isOk = true ∧
    errorOf (connectBlock (exampleContext 1760000000) exampleOracles ClockSwitch.block 1001 (some 5)
      DoubleFee.view) = some (.invalid .BLOCK_CONSENSUS "bad-txns-fee-not-enough") := by
  decide +kernel

theorem connectBlock_clock_independent_after_V3_1 :
    (∀ tx inputs nSpendHeight txfee, CoinsTimedBy inputs (min 1760000000 1770000000) →
      checkTxInputs Params.main 1760000000 tx inputs nSpendHeight txfee =
        checkTxInputs Params.main 1770000000 tx inputs nSpendHeight txfee) ∧
    connectBlock { exampleContext 0 with adjustedTime := 1760000000 } exampleOracles
        ClockSwitch.block 1001 (some 5) DoubleFee.view false =
      connectBlock { exampleContext 0 with adjustedTime := 1770000000 } exampleOracles
        ClockSwitch.block 1001 (some 5) DoubleFee.view false :=
  connectBlock_clock_independent (exampleContext 0) exampleOracles 1001 ClockSwitch.block (some 5)
    DoubleFee.view false (by decide) (by decide) (by decide) (by decide +kernel) (by decide +kernel)
    (fun o => by
      simp only [DoubleFee.view]
      split_ifs <;> decide)
    (by decide +kernel)

end BlackcoinMore.ConnectClock
