import BlackcoinMore.ArithLoops
import BlackcoinMore.BlockIndex

/-! `GetBlockProof` on the limb operations: `~bnTarget / (bnTarget + 1) + 1` is the expected
number of hashes, `2 ^ 256 / (bnTarget + 1)`, for every `nBits`, and it is the work the value
model of `BlockIndex` adds to `nChainWork`. -/
namespace BlackcoinMore.BlockProof
open Primitives ArithUint256 BaseUint ArithUint256.ArithUint256 ArithCompact Limbs BlockIndex

/-- `GetBlockProof(block)`: `(~bnTarget / (bnTarget + 1)) + 1` on the limbs, zero for a target
that is negative, overflows or is zero. -/
def getBlockProof (block : CBlockIndex) : Except String ArithUint256 :=
  let (bnTarget, fNegative, fOverflow) := setCompact block.nBits
  if fNegative || fOverflow || bnTarget == BaseUint.zero then pure BaseUint.zero
  else do
    let q ← bnTarget.complement.divAssign (bnTarget.addAssign (BaseUint.ofUInt64 1))
    pure (q.addAssign (BaseUint.ofUInt64 1))

theorem beq_zero (a : ArithUint256) : (a == BaseUint.zero) = decide (a.toNat = 0) := by
  rw [Bool.eq_iff_iff, beq_iff_eq, decide_eq_true_iff]
  exact ⟨fun h => by rw [h, toNat_zero], fun h => eq_of_toNat_eq (by rw [h, toNat_zero])⟩

/-- The quotient and the increments of `GetBlockProof` stay below `2 ^ 256`: for a target
`T ≥ 1` the result is `(2 ^ 256 - 1 - T) / (T + 1) + 1`. -/
theorem getBlockProof_of_pos (block : CBlockIndex) {T : ArithUint256} {fNegative fOverflow : Bool}
    (h : setCompact block.nBits = (T, fNegative, fOverflow)) (hflags : (fNegative || fOverflow) = false)
    (hT : T.toNat ≠ 0) :
    getBlockProof block = .ok (BaseUint.ofNat ((2 ^ 256 - 1 - T.toNat) / (T.toNat + 1) + 1)) := by
  have hmax : T.toNat < 2 ^ 256 - 1 := by simpa [h] using toNat_setCompact_lt block.nBits
  have hone : (BaseUint.ofUInt64 1 : ArithUint256).toNat = 1 := toNat_ofUInt64 1 (by norm_num)
  have h256 : (2 : Nat) ^ (32 * 8) = 2 ^ 256 := rfl
  have hadd : (T.addAssign (BaseUint.ofUInt64 1)).toNat = T.toNat + 1 := by
    rw [toNat_addAssign, hone, Nat.mod_eq_of_lt (by omega)]
  have hq : (2 ^ 256 - 1 - T.toNat) / (T.toNat + 1) < 2 ^ 256 - 1 :=
    Nat.lt_of_le_of_lt (Nat.div_le_self _ _) (by omega)
  unfold getBlockProof
  rw [h]
  dsimp only
  rw [hflags, beq_zero, decide_eq_false hT, Bool.false_or, if_neg Bool.false_ne_true,
    divAssign_eq_div (by norm_num), BaseUint.div, hadd, if_neg (Nat.succ_ne_zero _), toNat_complement]
  refine congrArg Except.ok (eq_of_toNat_eq ?_)
  rw [toNat_addAssign, toNat_ofNat, toNat_ofNat, hone, h256,
    Nat.mod_eq_of_lt (Nat.lt_trans hq (Nat.sub_lt (Nat.two_pow_pos 256) Nat.one_pos))]

/-- The limb-level `GetBlockProof` computes the work of the value model in `BlockIndex`. -/
theorem getBlockProof_eq_ofNat (block : CBlockIndex) :
    getBlockProof block = .ok (BaseUint.ofNat (BlockIndex.getBlockProof block)) := by
  rcases h : setCompact block.nBits with ⟨T, fNegative, fOverflow⟩
  by_cases hflags : (fNegative || fOverflow || T == BaseUint.zero) = true
  · have hv : BlockIndex.getBlockProof block = 0 := by
      simp only [BlockIndex.getBlockProof, h, hflags, if_true]
    unfold getBlockProof
    rw [h, hv]
    dsimp only
    rw [if_pos hflags]
    refine congrArg Except.ok (eq_of_toNat_eq ?_)
    rw [toNat_zero, toNat_ofNat, Nat.zero_mod]
  · have hf : (fNegative || fOverflow) = false := by simp_all
    have hT : T.toNat ≠ 0 := by simp_all [beq_zero]
    rw [getBlockProof_of_pos block h hf hT]
    simp only [BlockIndex.getBlockProof, h, if_neg hflags]

/-- `GetBlockProof` is `2 ^ 256 / (T + 1)` for every target `T` that is not negative, does not
overflow and is not zero, and zero for every other `nBits`. -/
theorem getBlockProof_eq_work (block : CBlockIndex) :
    ∃ proof, getBlockProof block = .ok proof ∧
      proof.toNat = if (setCompact block.nBits).2.1 || (setCompact block.nBits).2.2 ||
          (setCompact block.nBits).1.toNat = 0 then 0
        else 2 ^ 256 / ((setCompact block.nBits).1.toNat + 1) := by
  rcases h : setCompact block.nBits with ⟨T, fNegative, fOverflow⟩
  dsimp only
  by_cases hzero : (fNegative || fOverflow || decide (T.toNat = 0)) = true
  · refine ⟨BaseUint.zero, ?_, by rw [if_pos hzero, toNat_zero]⟩
    unfold getBlockProof
    rw [h]
    dsimp only
    rw [beq_zero, if_pos hzero]
    rfl
  · have hf : (fNegative || fOverflow) = false := by simp_all
    have hT : T.toNat ≠ 0 := by simp_all
    have hmax : T.toNat < 2 ^ 256 - 1 := by simpa [h] using toNat_setCompact_lt block.nBits
    refine ⟨_, getBlockProof_of_pos block h hf hT, ?_⟩
    -- `(2 ^ 256 - (T + 1)) / (T + 1) + 1 = 2 ^ 256 / (T + 1)`
    have hsub : 2 ^ 256 - 1 - T.toNat = 2 ^ 256 - (T.toNat + 1) := by omega
    rw [if_neg hzero, toNat_ofNat, hsub, Nat.mod_eq_of_lt, ← Nat.add_div_right _ (Nat.succ_pos _),
      Nat.sub_add_cancel (by omega)]
    calc (2 ^ 256 - (T.toNat + 1)) / (T.toNat + 1) + 1 ≤ (2 ^ 256 - (T.toNat + 1)) + 1 :=
          Nat.add_le_add_right (Nat.div_le_self _ _) 1
      _ < 2 ^ (32 * 8) := by omega

end BlackcoinMore.BlockProof
