import BlackcoinMore.BlockIndex

/-! Target retargeting of `pow.cpp` (`CheckProofOfWork` is in `BlockChecks`). -/
namespace BlackcoinMore.Pow
open Primitives ArithUint256 ChainParams BlockIndex

def getTargetLimit (nTime : Int) (params : Params) (fProofOfStake : Bool) : ArithUint256 :=
  uintToArith256 <|
    if fProofOfStake then (if params.isProtocolV2 nTime then params.posLimitV2 else params.posLimit)
    else params.powLimit

/-- `CalculateNextTargetRequired`. The `int64_t` factor meets `operator*=(uint32_t)` and is
truncated to 32 bits; the divisor becomes an `arith_uint256` through `uint64_t`. -/
def calculateNextTargetRequired (pindexLast : CBlockIndex) (nFirstBlockTime : Int) (params : Params)
    (fProofOfStake : Bool) : Except String UInt32 := do
  if fProofOfStake && params.fPoSNoRetargeting then return pindexLast.nBits
  if !fProofOfStake && params.fPowNoRetargeting then return pindexLast.nBits
  let nTargetSpacing :=
    if params.isProtocolV2 pindexLast.getBlockTime then params.nTargetSpacing else params.nTargetSpacingV1
  let nActualSpacing := pindexLast.getBlockTime - nFirstBlockTime
  -- Limit adjustment step
  let nActualSpacing :=
    if params.isProtocolV1RetargetingFixed pindexLast.getBlockTime && nActualSpacing < 0 then
      nTargetSpacing else nActualSpacing
  let nActualSpacing :=
    if params.isProtocolV3 pindexLast.getBlockTime && nTargetSpacing * 10 < nActualSpacing then
      nTargetSpacing * 10 else nActualSpacing
  -- retarget with exponential moving toward target spacing
  let bnTargetLimit := getTargetLimit pindexLast.getBlockTime params fProofOfStake
  let bnNew := (ArithUint256.setCompact pindexLast.nBits).1
  let nInterval := params.nTargetTimespan.tdiv nTargetSpacing
  let bnNew := bnNew.mulUInt32
    (Int.toNat (((nInterval - 1) * nTargetSpacing + nActualSpacing + nActualSpacing) % 2 ^ 32)).toUInt32
  let bnNew ← bnNew.div (BaseUint.ofNat (Int.toNat (((nInterval + 1) * nTargetSpacing) % 2 ^ 64)))
  let bnNew :=
    if bnNew.compareTo BaseUint.zero != .gt || bnNew.compareTo bnTargetLimit == .gt then bnTargetLimit
    else bnNew
  pure bnNew.getCompact

/-- `GetNextTargetRequired(pindexLast, params, fProofOfStake)`; `fRegtest` is
`Params().GetChainType() == ChainType::REGTEST`. -/
def getNextTargetRequired (m : BlockMap) (fRegtest : Bool) (pindexLast : Option CBlockIndex)
    (params : Params) (fProofOfStake : Bool) : Except String UInt32 :=
  match pindexLast with
  -- Genesis block
  | none => pure (uintToArith256 params.powLimit).getCompact
  | some pindexLast =>
    let pindexPrev := getLastBlockIndex m pindexLast fProofOfStake
    let nTargetLimit := (getTargetLimit pindexLast.getBlockTime params fProofOfStake).getCompact
    match pindexPrev.pprev.bind m with
    | none => pure nTargetLimit -- first block
    | some pprev =>
      let pindexPrevPrev := getLastBlockIndex m pprev fProofOfStake
      if (pindexPrevPrev.pprev.bind m).isNone then pure nTargetLimit -- second block
      -- Mindiff for regtest
      else if fRegtest then pure (ArithUint256.setCompact 0x207fffff).1.getCompact
      else calculateNextTargetRequired pindexPrev pindexPrevPrev.getBlockTime params fProofOfStake

end BlackcoinMore.Pow
