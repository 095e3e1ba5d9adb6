import BlackcoinMore.ArithLoops
import BlackcoinMore.Serialize
import BlackcoinMore.ChainParams

/-! The proof-of-stake kernel of `pos.cpp`: `CheckStakeKernelHash` weighs the target by the
staked amount with a 256-bit product, which keeps only the low 256 bits. -/
namespace BlackcoinMore.StakeKernel
open Primitives Serialize ChainParams ArithUint256 BaseUint ArithUint256.ArithUint256 ArithCompact

/-- The stream `CHashWriter` hashes: the stake modifier, the time of the staked output, the
outpoint and the coinstake time. -/
def kernelBytes (nStakeModifier : Uint256) (blockFromTime : UInt32) (prevout : COutPoint) (nTimeTx : UInt32) :
    Bytes :=
  serializeUint256 nStakeModifier ++ serWritedata32 blockFromTime ++ serializeUint256 prevout.hash ++
    serWritedata32 prevout.n ++ serWritedata32 nTimeTx

/-- `CheckStakeKernelHash`, with `nStakeModifier` the `pindexPrev->nStakeModifier` it reads; an
`error(...)` return is `false`. -/
def checkStakeKernelHash (hash256 : Bytes → Uint256) (nStakeModifier : Uint256) (nBits blockFromTime : UInt32)
    (prevoutValue : CAmount) (prevout : COutPoint) (nTimeTx : UInt32) : Bool :=
  if nTimeTx < blockFromTime then false
  else
    let bnTarget : ArithUint256 := (setCompact nBits).1
    let nValueIn := prevoutValue
    if nValueIn == 0 then false
    else
      let bnWeight : ArithUint256 := ofUInt64 nValueIn.toUInt64
      let bnTarget := bnTarget.mulAssign bnWeight
      let hashProofOfStake := hash256 (kernelBytes nStakeModifier blockFromTime prevout nTimeTx)
      if (uintToArith256 hashProofOfStake).compareTo bnTarget == .gt then false else true

/-- What `CheckStakeKernelHash` decides, for every input: the kernel hash against the weighted
target cut to 256 bits. -/
theorem checkStakeKernelHash_eq (hash256 : Bytes → Uint256) (nStakeModifier : Uint256)
    (nBits blockFromTime : UInt32) (prevoutValue : CAmount) (prevout : COutPoint) (nTimeTx : UInt32) :
    checkStakeKernelHash hash256 nStakeModifier nBits blockFromTime prevoutValue prevout nTimeTx =
      decide (blockFromTime ≤ nTimeTx ∧ prevoutValue ≠ 0 ∧
        (hash256 (kernelBytes nStakeModifier blockFromTime prevout nTimeTx)).toNat ≤
          (setCompact nBits).1.toNat * prevoutValue.toUInt64.toNat % 2 ^ 256) := by
  unfold checkStakeKernelHash
  by_cases htime : nTimeTx < blockFromTime
  · rw [if_pos htime]
    simp [UInt32.not_le.mpr htime]
  rw [if_neg htime]
  by_cases hv : prevoutValue = 0
  · simp [hv]
  dsimp only
  rw [if_neg (by simpa using hv), compareTo_eq, toNat_mulAssign, toNat_uintToArith256,
    toNat_ofUInt64 _ (by norm_num), show (2 : Nat) ^ (32 * 8) = 2 ^ 256 from rfl]
  generalize (hash256 (kernelBytes nStakeModifier blockFromTime prevout nTimeTx)).toNat = H
  generalize (setCompact nBits).1.toNat * prevoutValue.toUInt64.toNat % 2 ^ 256 = W
  by_cases hle : H ≤ W
  · simp [Nat.compare_eq_gt, UInt32.not_lt.mp htime, hv, hle]
  · simp [Nat.compare_eq_gt, Nat.lt_of_not_le hle, hle]

/-- Where the product fits in 256 bits, the kernel test is the one over unbounded naturals. -/
theorem checkStakeKernelHash_of_lt (hash256 : Bytes → Uint256) (nStakeModifier : Uint256)
    (nBits blockFromTime : UInt32) {prevoutValue : CAmount} (prevout : COutPoint) (nTimeTx : UInt32)
    (hv : 0 < prevoutValue) (hfit : (setCompact nBits).1.toNat * prevoutValue.toNatClampNeg < 2 ^ 256) :
    checkStakeKernelHash hash256 nStakeModifier nBits blockFromTime prevoutValue prevout nTimeTx =
      decide (blockFromTime ≤ nTimeTx ∧ (hash256 (kernelBytes nStakeModifier blockFromTime prevout nTimeTx)).toNat ≤
        (setCompact nBits).1.toNat * prevoutValue.toNatClampNeg) := by
  rw [checkStakeKernelHash_eq, Int64.toNat_toUInt64_of_le (Int64.le_of_lt hv), Nat.mod_eq_of_lt hfit]
  simp [Ne.symm (Int64.ne_of_lt hv)]

theorem toNat_posLimitV2_main : (uintToArith256 Params.main.posLimitV2).toNat = 2 ^ 208 - 1 := by
  rw [toNat_uintToArith256]
  decide

/-- Against the main network's proof-of-stake limit, stakes below `2 ^ 48` satoshi keep the
product in 256 bits: the kernel test is exact there. -/
theorem checkStakeKernelHash_of_le_posLimitV2 (hash256 : Bytes → Uint256) (nStakeModifier : Uint256)
    {nBits : UInt32} (blockFromTime : UInt32) {prevoutValue : CAmount} (prevout : COutPoint) (nTimeTx : UInt32)
    (hT : (setCompact nBits).1.toNat ≤ (uintToArith256 Params.main.posLimitV2).toNat)
    (hv : 0 < prevoutValue) (hv48 : prevoutValue.toNatClampNeg < 2 ^ 48) :
    checkStakeKernelHash hash256 nStakeModifier nBits blockFromTime prevoutValue prevout nTimeTx =
      decide (blockFromTime ≤ nTimeTx ∧ (hash256 (kernelBytes nStakeModifier blockFromTime prevout nTimeTx)).toNat ≤
        (setCompact nBits).1.toNat * prevoutValue.toNatClampNeg) := by
  rw [toNat_posLimitV2_main] at hT
  apply checkStakeKernelHash_of_lt _ _ _ _ _ _ hv
  calc (setCompact nBits).1.toNat * prevoutValue.toNatClampNeg
      ≤ (2 ^ 208 - 1) * prevoutValue.toNatClampNeg := Nat.mul_le_mul_right _ hT
    _ < 2 ^ 208 * 2 ^ 48 := Nat.mul_lt_mul_of_le_of_lt (Nat.sub_le _ _) hv48 (Nat.two_pow_pos _)
    _ = 2 ^ 256 := by norm_num

theorem setCompact_0x1a010000 : setCompact 0x1a010000 = (BaseUint.ofNat (2 ^ 200), false, false) := by
  decide

/-- A stake of 1000 coins at the target `2 ^ 200`: the kernel test is the exact comparison. -/
theorem checkStakeKernelHash_of_le_posLimitV2_thousand :
    (setCompact 0x1a010000).1.toNat ≤ (uintToArith256 Params.main.posLimitV2).toNat ∧
      checkStakeKernelHash (fun _ => 1) 0 0x1a010000 0 (1000 * COIN) ⟨0, 0⟩ 0 =
        decide ((0 : UInt32) ≤ 0 ∧ ((fun _ => (1 : Uint256)) (kernelBytes 0 0 ⟨0, 0⟩ 0)).toNat ≤
          (setCompact 0x1a010000).1.toNat * (1000 * COIN : CAmount).toNatClampNeg) := by
  have hT : (setCompact 0x1a010000).1.toNat ≤ (uintToArith256 Params.main.posLimitV2).toNat := by
    rw [setCompact_0x1a010000, toNat_posLimitV2_main]
    decide
  exact ⟨hT, checkStakeKernelHash_of_le_posLimitV2 _ 0 0 ⟨0, 0⟩ 0 hT (by decide) (by decide)⟩

/-- At the target `2 ^ 200`, below the main network's limit, a stake of `2 ^ 56` satoshi makes the
weighted target `2 ^ 256`, which the 256-bit product turns into `0`: only a zero kernel hash passes. -/
theorem checkStakeKernelHash_weight_wraps (hash256 : Bytes → Uint256) (nStakeModifier : Uint256)
    (blockFromTime nTimeTx : UInt32) (prevout : COutPoint) (htime : blockFromTime ≤ nTimeTx) :
    (setCompact 0x1a010000).1.toNat = 2 ^ 200 ∧ 2 ^ 200 ≤ (uintToArith256 Params.main.posLimitV2).toNat ∧
      (0 : CAmount) < 2 ^ 56 ∧ (2 ^ 56 : CAmount) ≤ MAX_MONEY ∧
      (checkStakeKernelHash hash256 nStakeModifier 0x1a010000 blockFromTime (2 ^ 56) prevout nTimeTx = true ↔
        hash256 (kernelBytes nStakeModifier blockFromTime prevout nTimeTx) = 0) := by
  have hT : (setCompact 0x1a010000).1.toNat = 2 ^ 200 := by
    rw [setCompact_0x1a010000, toNat_ofNat]
    norm_num
  have hv : (2 ^ 56 : CAmount).toUInt64.toNat = 2 ^ 56 := by decide
  refine ⟨hT, by rw [toNat_posLimitV2_main]; norm_num, by decide, by decide, ?_⟩
  rw [checkStakeKernelHash_eq, hT, hv, show 2 ^ 200 * 2 ^ 56 % 2 ^ 256 = 0 by norm_num, BitVec.toNat_eq]
  simp [htime, show (2 ^ 56 : CAmount) ≠ 0 by decide]

theorem checkStakeKernelHash_weight_wraps_at_one : (0 : UInt32) ≤ 0 ∧
    checkStakeKernelHash (fun _ => 1) 0 0x1a010000 0 (2 ^ 56) ⟨0, 0⟩ 0 = false := by
  refine ⟨by decide, ?_⟩
  have h := (checkStakeKernelHash_weight_wraps (fun _ => 1) 0 0 0 ⟨0, 0⟩ (by decide)).2.2.2.2
  simpa using h

end BlackcoinMore.StakeKernel
