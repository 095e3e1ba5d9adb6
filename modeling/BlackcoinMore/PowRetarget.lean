import BlackcoinMore.Pow
import BlackcoinMore.ArithLoops

/-! The arithmetic of `CalculateNextTargetRequired`: the factor reaches `operator*=(uint32_t)`
and the divisor `base_uint(uint64_t)`, and the product keeps 256 bits. Where none of these cuts
bites the retarget is the one over unbounded integers, as on the main network after protocol V3. -/
namespace BlackcoinMore.PowRetarget
open Primitives ArithUint256 BaseUint ArithUint256.ArithUint256 ArithCompact ChainParams BlockIndex BlackcoinMore.Pow

section Spacing
variable (params : Params) (nTime nFirstBlockTime : Int)

/-- `S`, the spacing the retarget moves toward. -/
def targetSpacing : Int :=
  if params.isProtocolV2 nTime then params.nTargetSpacing else params.nTargetSpacingV1

/-- `A`, the actual spacing after the two clamps. -/
def actualSpacing : Int :=
  let S := targetSpacing params nTime
  let A := nTime - nFirstBlockTime
  let A := if params.isProtocolV1RetargetingFixed nTime && A < 0 then S else A
  if params.isProtocolV3 nTime && S * 10 < A then S * 10 else A

/-- `m = (N - 1) S + 2 A`, with `N = nTargetTimespan / S`. -/
def retargetFactor : Int :=
  (params.nTargetTimespan.tdiv (targetSpacing params nTime) - 1) * targetSpacing params nTime +
    actualSpacing params nTime nFirstBlockTime + actualSpacing params nTime nFirstBlockTime

/-- `d = (N + 1) S`. -/
def retargetDivisor : Int :=
  (params.nTargetTimespan.tdiv (targetSpacing params nTime) + 1) * targetSpacing params nTime

end Spacing

/-- The retarget over unbounded integers: `T * m / d`, or the limit `L` when `m ≤ 0` or the
quotient leaves `(0, L]`. -/
def exactNextTarget (pindexLast : CBlockIndex) (nFirstBlockTime : Int) (params : Params)
    (fProofOfStake : Bool) : UInt32 :=
  let L := getTargetLimit pindexLast.getBlockTime params fProofOfStake
  let m := retargetFactor params pindexLast.getBlockTime nFirstBlockTime
  let q := (setCompact pindexLast.nBits).1.toNat * m.toNat / (retargetDivisor params pindexLast.getBlockTime).toNat
  if m ≤ 0 ∨ q = 0 ∨ L.toNat < q then L.getCompact else getCompact (BaseUint.ofNat q)

/-- The quotient the code forms: the factor cut to 32 bits, the product to 256, the divisor to 64. -/
def wrappedQuotient (T : Nat) (m d : Int) : Nat := T * (m % 2 ^ 32).toNat % 2 ^ 256 / (d % 2 ^ 64).toNat

theorem toNat_emod_two_pow_lt (x : Int) (k : Nat) : (x % 2 ^ k).toNat < 2 ^ k := by
  have h0 : 0 ≤ x % 2 ^ k := Int.emod_nonneg x (by positivity)
  have h1 : x % 2 ^ k < 2 ^ k := Int.emod_lt_of_pos x (by positivity)
  exact (Int.toNat_lt' (by positivity)).mpr (by exact_mod_cast h1)

/-- What `CalculateNextTargetRequired` computes whenever it retargets and the divisor does not
cut to zero: the wrapped quotient, clamped to `(0, L]`. -/
theorem calculateNextTargetRequired_eq (pindexLast : CBlockIndex) (nFirstBlockTime : Int) (params : Params)
    (fProofOfStake : Bool) (hpos : (fProofOfStake && params.fPoSNoRetargeting) = false)
    (hpow : (!fProofOfStake && params.fPowNoRetargeting) = false)
    (hd : (retargetDivisor params pindexLast.getBlockTime % 2 ^ 64).toNat ≠ 0) :
    calculateNextTargetRequired pindexLast nFirstBlockTime params fProofOfStake =
      let L := getTargetLimit pindexLast.getBlockTime params fProofOfStake
      let q := wrappedQuotient (setCompact pindexLast.nBits).1.toNat
        (retargetFactor params pindexLast.getBlockTime nFirstBlockTime)
        (retargetDivisor params pindexLast.getBlockTime)
      .ok (if q = 0 ∨ L.toNat < q then L.getCompact else getCompact (BaseUint.ofNat q)) := by
  set m := retargetFactor params pindexLast.getBlockTime nFirstBlockTime
  set d := retargetDivisor params pindexLast.getBlockTime
  set T := (setCompact pindexLast.nBits).1
  set L := getTargetLimit pindexLast.getBlockTime params fProofOfStake
  set q := wrappedQuotient T.toNat m d
  have hm : (m % 2 ^ 32).toNat < 2 ^ 32 := toNat_emod_two_pow_lt m 32
  have hdlt : (d % 2 ^ 64).toNat < 2 ^ (32 * 8) :=
    lt_of_lt_of_le (toNat_emod_two_pow_lt d 64) (Nat.pow_le_pow_right (by norm_num) (by norm_num))
  have hqlt : q < 2 ^ (32 * 8) := lt_of_le_of_lt (Nat.div_le_self _ _) (Nat.mod_lt _ (Nat.two_pow_pos _))
  -- the body with the spacing arithmetic named as `m` and `d`
  have hbody : calculateNextTargetRequired pindexLast nFirstBlockTime params fProofOfStake =
      (do
        let bnNew ← (mulUInt32 T (m % 2 ^ 32).toNat.toUInt32).div (BaseUint.ofNat (d % 2 ^ 64).toNat)
        let bnNew := if bnNew.compareTo BaseUint.zero != .gt || bnNew.compareTo L == .gt then L else bnNew
        pure bnNew.getCompact) := by
    unfold calculateNextTargetRequired
    rw [hpos, hpow]
    rfl
  have hdiv : (mulUInt32 T (m % 2 ^ 32).toNat.toUInt32).div (BaseUint.ofNat (d % 2 ^ 64).toNat) =
      .ok (BaseUint.ofNat q) := by
    rw [BaseUint.div, toNat_ofNat, Nat.mod_eq_of_lt hdlt, if_neg hd, mulUInt32, toNat_ofNat,
      toNat_toUInt32_of_lt hm]
    rfl
  have hcond : (compare q 0 != .gt || compare q L.toNat == .gt) = decide (q = 0 ∨ L.toNat < q) := by
    by_cases h0 : q = 0
    · simp [h0]
    · have hgt : compare q 0 = .gt := Nat.compare_eq_gt.mpr (Nat.pos_of_ne_zero h0)
      by_cases hL : L.toNat < q
      · simp [h0, hgt, Nat.compare_eq_gt.mpr hL, hL]
      · simp [h0, hgt, Nat.compare_eq_gt, hL]
  rw [hbody, hdiv]
  refine congrArg Except.ok ?_
  rw [compareTo_eq, compareTo_eq, toNat_ofNat, toNat_zero, Nat.mod_eq_of_lt hqlt, hcond]
  simp only [decide_eq_true_eq]
  split_ifs <;> rfl

theorem wrappedQuotient_of_lt {T : Nat} {m d : Int} (hm0 : 0 < m) (hm : m < 2 ^ 32) (hd0 : 0 < d)
    (hd : d < 2 ^ 64) (hT : T * m.toNat < 2 ^ 256) : wrappedQuotient T m d = T * m.toNat / d.toNat := by
  unfold wrappedQuotient
  rw [Int.emod_eq_of_lt hm0.le hm, Int.emod_eq_of_lt hd0.le hd, Nat.mod_eq_of_lt hT]

/-- Where the factor is positive and fits 32 bits, the divisor fits 64 and the product 256, the
retarget is the one over unbounded integers. -/
theorem calculateNextTargetRequired_eq_exact (pindexLast : CBlockIndex) (nFirstBlockTime : Int)
    (params : Params) (fProofOfStake : Bool) (hpos : (fProofOfStake && params.fPoSNoRetargeting) = false)
    (hpow : (!fProofOfStake && params.fPowNoRetargeting) = false)
    (hm0 : 0 < retargetFactor params pindexLast.getBlockTime nFirstBlockTime)
    (hm : retargetFactor params pindexLast.getBlockTime nFirstBlockTime < 2 ^ 32)
    (hd0 : 0 < retargetDivisor params pindexLast.getBlockTime)
    (hd : retargetDivisor params pindexLast.getBlockTime < 2 ^ 64)
    (hT : (setCompact pindexLast.nBits).1.toNat *
      (retargetFactor params pindexLast.getBlockTime nFirstBlockTime).toNat < 2 ^ 256) :
    calculateNextTargetRequired pindexLast nFirstBlockTime params fProofOfStake =
      .ok (exactNextTarget pindexLast nFirstBlockTime params fProofOfStake) := by
  have hdne : (retargetDivisor params pindexLast.getBlockTime % 2 ^ 64).toNat ≠ 0 := by
    rw [Int.emod_eq_of_lt hd0.le hd]
    omega
  rw [calculateNextTargetRequired_eq pindexLast nFirstBlockTime params fProofOfStake hpos hpow hdne]
  dsimp only
  rw [wrappedQuotient_of_lt hm0 hm hd0 hd hT]
  simp only [exactNextTarget, not_le.mpr hm0, false_or]

theorem setCompact_getCompact_mem (x : ArithUint256) (hx : 0 < x.toNat) :
    (setCompact (getCompact x)).2 = (false, false) ∧ 0 < (setCompact (getCompact x)).1.toNat ∧
      (setCompact (getCompact x)).1.toNat ≤ x.toNat := by
  obtain ⟨hflags, hround, hle, -⟩ := setCompact_getCompact x
  exact ⟨hflags, hround ▸ compactRound_pos hx, hle⟩

/-- A proof-of-work block index for the retarget: it reads only the time and `nBits`. -/
def retargetIndex (nTime nBits : UInt32) : CBlockIndex :=
  { phashBlock := 0, pprev := none, pskip := none, nHeight := 0, nChainWork := 0, nTx := 0, nChainTx := 0,
    nStatus := 0, nVersion := 1, hashMerkleRoot := 0, nTime := nTime, nBits := nBits, nNonce := 0,
    nSequenceId := 0, nFlags := 0 }

/-- Whatever the factor and the cuts do, the target the retarget returns decodes, without sign
or overflow, to a value in `(0, L]`. -/
theorem calculateNextTargetRequired_mem_range (pindexLast : CBlockIndex) (nFirstBlockTime : Int)
    (params : Params) (fProofOfStake : Bool) (hpos : (fProofOfStake && params.fPoSNoRetargeting) = false)
    (hpow : (!fProofOfStake && params.fPowNoRetargeting) = false)
    (hd : (retargetDivisor params pindexLast.getBlockTime % 2 ^ 64).toNat ≠ 0)
    (hL : 0 < (getTargetLimit pindexLast.getBlockTime params fProofOfStake).toNat) :
    ∃ nBits, calculateNextTargetRequired pindexLast nFirstBlockTime params fProofOfStake = .ok nBits ∧
      (setCompact nBits).2 = (false, false) ∧ 0 < (setCompact nBits).1.toNat ∧
      (setCompact nBits).1.toNat ≤ (getTargetLimit pindexLast.getBlockTime params fProofOfStake).toNat := by
  rw [calculateNextTargetRequired_eq pindexLast nFirstBlockTime params fProofOfStake hpos hpow hd]
  refine ⟨_, rfl, ?_⟩
  set q := wrappedQuotient (setCompact pindexLast.nBits).1.toNat
    (retargetFactor params pindexLast.getBlockTime nFirstBlockTime) (retargetDivisor params pindexLast.getBlockTime)
  split_ifs with hq
  · exact setCompact_getCompact_mem _ hL
  · -- the quotient itself, nonzero and at most the limit
    rw [not_or, not_lt] at hq
    have hval : (BaseUint.ofNat q : ArithUint256).toNat = q := by
      rw [toNat_ofNat]
      exact Nat.mod_eq_of_lt (lt_of_le_of_lt hq.2 (toNat_lt _))
    have hq0 : 0 < (BaseUint.ofNat q : ArithUint256).toNat := by
      rw [hval]
      exact Nat.pos_of_ne_zero hq.1
    obtain ⟨hflags, hpos', hle⟩ := setCompact_getCompact_mem _ hq0
    rw [hval] at hle
    exact ⟨hflags, hpos', hle.trans hq.2⟩

/-- A proof-of-stake retarget on the main network after protocol V3, from the proof-of-work limit
and a block spaced 1000 s after the one before. -/
theorem calculateNextTargetRequired_mem_range_V3 :
    (retargetDivisor Params.main (retargetIndex 1700000000 0x1e0fffff).getBlockTime % 2 ^ 64).toNat ≠ 0 ∧
      ∃ nBits, calculateNextTargetRequired (retargetIndex 1700000000 0x1e0fffff) 1699999000 Params.main true =
        .ok nBits ∧ (setCompact nBits).2 = (false, false) ∧ 0 < (setCompact nBits).1.toNat ∧
        (setCompact nBits).1.toNat ≤ (getTargetLimit (retargetIndex 1700000000 0x1e0fffff).getBlockTime Params.main true).toNat :=
  ⟨by decide +kernel, calculateNextTargetRequired_mem_range _ _ _ _ (by decide) (by decide) (by decide +kernel)
    (by decide +kernel)⟩

section MainV3
variable {t : Int} (hV3 : Params.main.isProtocolV3 t = true)
include hV3

theorem lt_of_isProtocolV3_main : 1444028400 < t := by
  have h := hV3
  simp only [Params.isProtocolV3, Bool.and_eq_true, decide_eq_true_eq] at h
  exact h.1

theorem targetSpacing_main_of_V3 : targetSpacing Params.main t = 64 := by
  have ht := lt_of_isProtocolV3_main hV3
  have hV2 : Params.main.isProtocolV2 t = true := by
    simp only [Params.isProtocolV2, Bool.and_eq_true, decide_eq_true_eq, bne_iff_ne, ne_eq]
    exact ⟨by show (1407053625 : Int) < t; omega, by omega⟩
  rw [targetSpacing, hV2]
  rfl

/-- After V3 the clamps hold the actual spacing in `[0, 10 S]`. -/
theorem actualSpacing_main_of_V3 (nFirstBlockTime : Int) :
    0 ≤ actualSpacing Params.main t nFirstBlockTime ∧ actualSpacing Params.main t nFirstBlockTime ≤ 640 := by
  have ht := lt_of_isProtocolV3_main hV3
  have hV1 : Params.main.isProtocolV1RetargetingFixed t = true := by
    simp only [Params.isProtocolV1RetargetingFixed, Bool.and_eq_true, decide_eq_true_eq, bne_iff_ne, ne_eq]
    exact ⟨by show (1395631999 : Int) < t; omega, by omega⟩
  unfold actualSpacing
  rw [targetSpacing_main_of_V3 hV3, hV1, hV3]
  simp only [Bool.true_and, decide_eq_true_eq]
  split_ifs <;> omega

theorem retargetFactor_main_of_V3 (nFirstBlockTime : Int) :
    896 ≤ retargetFactor Params.main t nFirstBlockTime ∧ retargetFactor Params.main t nFirstBlockTime ≤ 2176 := by
  have hA := actualSpacing_main_of_V3 hV3 nFirstBlockTime
  unfold retargetFactor
  rw [targetSpacing_main_of_V3 hV3, show Params.main.nTargetTimespan.tdiv 64 = 15 from rfl]
  omega

theorem retargetDivisor_main_of_V3 : retargetDivisor Params.main t = 1024 := by
  unfold retargetDivisor
  rw [targetSpacing_main_of_V3 hV3]
  rfl

end MainV3

theorem toNat_getTargetLimit_main_lt (nTime : Int) (fProofOfStake : Bool) :
    (getTargetLimit nTime Params.main fProofOfStake).toNat < 2 ^ 236 := by
  unfold getTargetLimit
  rw [toNat_uintToArith256]
  split_ifs <;> decide

/-- On the main network after protocol V3 the retarget is exact integer arithmetic for every
target within the limit: the factor is at most `2176` and the limit below `2 ^ 236`. -/
theorem calculateNextTargetRequired_main_of_V3 (pindexLast : CBlockIndex) (nFirstBlockTime : Int)
    (fProofOfStake : Bool) (hV3 : Params.main.isProtocolV3 pindexLast.getBlockTime = true)
    (hT : (setCompact pindexLast.nBits).1.toNat ≤
      (getTargetLimit pindexLast.getBlockTime Params.main fProofOfStake).toNat) :
    calculateNextTargetRequired pindexLast nFirstBlockTime Params.main fProofOfStake =
      .ok (exactNextTarget pindexLast nFirstBlockTime Params.main fProofOfStake) := by
  obtain ⟨hm0, hm⟩ := retargetFactor_main_of_V3 hV3 nFirstBlockTime
  have hd := retargetDivisor_main_of_V3 hV3
  have hL := toNat_getTargetLimit_main_lt pindexLast.getBlockTime fProofOfStake
  have hfit : (setCompact pindexLast.nBits).1.toNat *
      (retargetFactor Params.main pindexLast.getBlockTime nFirstBlockTime).toNat < 2 ^ 256 :=
    calc (setCompact pindexLast.nBits).1.toNat *
          (retargetFactor Params.main pindexLast.getBlockTime nFirstBlockTime).toNat
        ≤ (setCompact pindexLast.nBits).1.toNat * 2176 := Nat.mul_le_mul_left _ (by omega)
      _ < 2 ^ 236 * 2176 := Nat.mul_lt_mul_of_pos_right (lt_of_le_of_lt hT hL) (by norm_num)
      _ < 2 ^ 256 := by norm_num
  exact calculateNextTargetRequired_eq_exact pindexLast nFirstBlockTime Params.main fProofOfStake
    (by cases fProofOfStake <;> rfl) (by cases fProofOfStake <;> rfl) (by omega) (by omega) (by omega)
    (by omega) hfit

theorem calculateNextTargetRequired_main_of_V3_stake :
    Params.main.isProtocolV3 (retargetIndex 1700000000 0x1a00ffff).getBlockTime = true ∧
      calculateNextTargetRequired (retargetIndex 1700000000 0x1a00ffff) 1699999000 Params.main true =
        .ok (exactNextTarget (retargetIndex 1700000000 0x1a00ffff) 1699999000 Params.main true) :=
  ⟨by decide, calculateNextTargetRequired_main_of_V3 _ _ true (by decide) (by decide +kernel)⟩

/-- Two main-network retargets where the code leaves the integer retarget. Before the V1
retargeting fix a previous block stamped 1000 s later makes `m = -1100`, which the
`uint32_t` factor turns into `2 ^ 32 - 1100`. Between the fix and V3 six days of spacing make
`T * m` pass `2 ^ 256`, and the product wraps. -/
theorem calculateNextTargetRequired_truncates :
    ((setCompact 0x1b0404cb).2 = (false, false) ∧
      (setCompact 0x1b0404cb).1.toNat ≤ (getTargetLimit 1395000000 Params.main false).toNat ∧
      retargetFactor Params.main 1395000000 1395001000 = -1100 ∧
      calculateNextTargetRequired (retargetIndex 1395000000 0x1b0404cb) 1395001000 Params.main false =
        .ok 0x1e010234 ∧
      exactNextTarget (retargetIndex 1395000000 0x1b0404cb) 1395001000 Params.main false = 0x1e0fffff) ∧
    ((setCompact 0x1e0fffff).2 = (false, false) ∧
      (setCompact 0x1e0fffff).1.toNat ≤ (getTargetLimit 1400000000 Params.main false).toNat ∧
      2 ^ 256 ≤ (setCompact 0x1e0fffff).1.toNat * (retargetFactor Params.main 1400000000 1399476161).toNat ∧
      calculateNextTargetRequired (retargetIndex 1400000000 0x1e0fffff) 1399476161 Params.main false =
        .ok 0x1d040403 ∧
      exactNextTarget (retargetIndex 1400000000 0x1e0fffff) 1399476161 Params.main false = 0x1e0fffff) := by
  decide +kernel

end BlackcoinMore.PowRetarget
