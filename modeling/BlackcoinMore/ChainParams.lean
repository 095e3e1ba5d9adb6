import BlackcoinMore.Primitives

/-! Consensus parameters (`consensus/params.h`, the main network and regtest values of
`kernel/chainparams.cpp`) and the outcome types of validation (`consensus/validation.h`). -/
namespace BlackcoinMore.ChainParams
open Primitives

/-- `Consensus::Params`, the fields this development reads. -/
structure Params where
  hashGenesisBlock : Uint256
  nMaxReorganizationDepth : Int
  powLimit : Uint256
  posLimit : Uint256
  posLimitV2 : Uint256
  nTargetSpacingV1 : Int
  fPowNoRetargeting : Bool
  fPoSNoRetargeting : Bool
  nTargetSpacing : Int
  nTargetTimespan : Int
  nProtocolV1RetargetingFixedTime : Int
  nProtocolV2Time : Int
  nProtocolV3Time : Int
  nProtocolV3_1Time : Int
  nLastPOWBlock : Int
  nStakeTimestampMask : Int
  nCoinbaseMaturity : Int
  /-- The buried deployment heights of BIP68/112/113 (CSV) and of segwit. -/
  CSVHeight : Int
  SegwitHeight : Int
  deriving Repr

namespace Params

/-- `Consensus::Params()`, a value-initialized temporary: every field is zero. -/
def valueInit : Params := ⟨0, 0, 0, 0, 0, 0, false, false, 0, 0, 0, 0, 0, 0, 0, 0, 0, 0, 0⟩

def isProtocolV1RetargetingFixed (p : Params) (nTime : Int) : Bool :=
  nTime > p.nProtocolV1RetargetingFixedTime && nTime != 1395631999
def isProtocolV2 (p : Params) (nTime : Int) : Bool :=
  nTime > p.nProtocolV2Time && nTime != 1407053678
def isProtocolV3 (p : Params) (nTime : Int) : Bool :=
  nTime > p.nProtocolV3Time && nTime != 1444028400
def isProtocolV3_1 (p : Params) (nTime : Int) : Bool :=
  nTime > p.nProtocolV3_1Time && nTime != 1713938400

/-- `CMainParams`. -/
def main : Params where
  hashGenesisBlock := 0x000001faef25dec4fbcf906e6242621df2c183bf232f263d0ba5b101911e4563#256
  nMaxReorganizationDepth := 500
  powLimit := 0x00000fffffffffffffffffffffffffffffffffffffffffffffffffffffffffff#256
  posLimit := 0x00000fffffffffffffffffffffffffffffffffffffffffffffffffffffffffff#256
  posLimitV2 := 0x000000000000ffffffffffffffffffffffffffffffffffffffffffffffffffff#256
  nTargetSpacingV1 := 60
  fPowNoRetargeting := false
  fPoSNoRetargeting := false
  nTargetSpacing := 64
  nTargetTimespan := 16 * 60
  nProtocolV1RetargetingFixedTime := 1395631999
  nProtocolV2Time := 1407053625
  nProtocolV3Time := 1444028400
  nProtocolV3_1Time := 1713938400
  nLastPOWBlock := 10000
  nStakeTimestampMask := 0xf
  nCoinbaseMaturity := 500
  CSVHeight := 4908715
  SegwitHeight := 2147483647

/-- `CRegTestParams` with no activation-height options. -/
def regtest : Params where
  hashGenesisBlock := 0x0000724595fb3b9609d441cbfb9577615c292abf07d996d3edabc48de843642d#256
  nMaxReorganizationDepth := 50
  powLimit := 0x7fffffffffffffffffffffffffffffffffffffffffffffffffffffffffffffff#256
  posLimit := 0x00000fffffffffffffffffffffffffffffffffffffffffffffffffffffffffff#256
  posLimitV2 := 0x000000000000ffffffffffffffffffffffffffffffffffffffffffffffffffff#256
  nTargetSpacingV1 := 64
  fPowNoRetargeting := true
  fPoSNoRetargeting := true
  nTargetSpacing := 64
  nTargetTimespan := 16 * 60
  nProtocolV1RetargetingFixedTime := 1395631999
  nProtocolV2Time := 1407053625
  nProtocolV3Time := 1444028400
  nProtocolV3_1Time := 1713938400
  nLastPOWBlock := 0x7fffffff
  nStakeTimestampMask := 0xf
  nCoinbaseMaturity := 10
  CSVHeight := 1
  SegwitHeight := 1

end Params

inductive TxValidationResult
  | TX_RESULT_UNSET | TX_CONSENSUS | TX_RECENT_CONSENSUS_CHANGE | TX_INPUTS_NOT_STANDARD
  | TX_NOT_STANDARD | TX_MISSING_INPUTS | TX_PREMATURE_SPEND | TX_WITNESS_MUTATED
  | TX_WITNESS_STRIPPED | TX_CONFLICT | TX_MEMPOOL_POLICY | TX_NO_MEMPOOL
  deriving DecidableEq, Repr

inductive BlockValidationResult
  | BLOCK_RESULT_UNSET | BLOCK_CONSENSUS | BLOCK_RECENT_CONSENSUS_CHANGE | BLOCK_CACHED_INVALID
  | BLOCK_INVALID_HEADER | BLOCK_MUTATED | BLOCK_MISSING_PREV | BLOCK_INVALID_PREV
  | BLOCK_TIME_FUTURE | BLOCK_CHECKPOINT | BLOCK_HEADER_SPAM | BLOCK_HEADER_REJECT
  | BLOCK_HEADER_SYNC | BLOCK_HEADER_LOW_WORK
  deriving DecidableEq, Repr

/-- How a validation call ends when it does not succeed: `state.Invalid` with a result and
reject reason; a `false` return that sets no invalid state (`state.Error`, `error(...)`);
or a thrown exception or failed assertion. -/
inductive Failure (ρ : Type)
  | invalid (result : ρ) (reason : String)
  | error (message : String)
  | exception (what : String)
  deriving DecidableEq, Repr

end BlackcoinMore.ChainParams
