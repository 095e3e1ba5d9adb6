import BlackcoinMore.Coins
import BlackcoinMore.ChainParams
import BlackcoinMore.ExceptFold

/-! Context-free and input checks of a transaction: `consensus/tx_check.cpp`,
`consensus/tx_verify.cpp` and the size and fee helpers they call. -/
namespace BlackcoinMore.TxVerify
open Primitives Serialize Coins ChainParams ExceptFold

def LOCKTIME_THRESHOLD : Nat := 500000000
def SEQUENCE_FINAL : UInt32 := 0xffffffff
def MIN_TX_FEE : CAmount := 10000
def TX_FEE_PER_KB : CAmount := 100000
def DEFAULT_MIN_RELAY_TX_FEE : CAmount := 100000

/-- `GetTransactionWeight`: three times the witness-free size plus the full size. -/
def getTransactionWeight (tx : CTransaction) : Nat :=
  (serializeTransaction tx false).length * (WITNESS_SCALE_FACTOR - 1) +
    (serializeTransaction tx true).length

/-- `GetVirtualTransactionSize(tx)`, with no sigop cost. -/
def getVirtualTransactionSize (tx : CTransaction) : Nat :=
  (getTransactionWeight tx + WITNESS_SCALE_FACTOR - 1) / WITNESS_SCALE_FACTOR

/-- `CFeeRate::GetFee` for a non-negative rate. The source rounds `rate * size / 1000.0` up
in `double`; for the two constant rates of `GetMinFee` that quotient is an exact integer. -/
def getFee (nSatoshisPerK : CAmount) (nSize : Nat) : CAmount :=
  let nFee := Int64.ofInt ((nSatoshisPerK.toInt * nSize + 999) / 1000)
  if nFee == 0 && nSize != 0 && 0 < nSatoshisPerK then 1 else nFee

def getMinFee (nBytes : Nat) (nTime : UInt32) (params : Params) : CAmount :=
  let nMinFee :=
    if params.isProtocolV3_1 nTime.toNat then
      if nBytes ≤ 100 then MIN_TX_FEE else getFee TX_FEE_PER_KB nBytes
    else getFee DEFAULT_MIN_RELAY_TX_FEE nBytes
  if !moneyRange nMinFee then MAX_MONEY else nMinFee

abbrev TxResult := Failure TxValidationResult

def checkTransaction (tx : CTransaction) : Except TxResult Unit := do
  if tx.vin.isEmpty then throw (.invalid .TX_CONSENSUS "bad-txns-vin-empty")
  if tx.vout.isEmpty then throw (.invalid .TX_CONSENSUS "bad-txns-vout-empty")
  if MAX_BLOCK_WEIGHT < (serializeTransaction tx false).length * WITNESS_SCALE_FACTOR then
    throw (.invalid .TX_CONSENSUS "bad-txns-oversize")
  let _ ← tx.vout.foldlM (fun (nValueOut : CAmount) txout => do
    if txout.isEmpty && !tx.isCoinBase && !tx.isCoinStake then
      throw (.invalid .TX_CONSENSUS "bad-txns-vout-empty")
    if txout.nValue < 0 then throw (.invalid .TX_CONSENSUS "bad-txns-vout-negative")
    if MAX_MONEY < txout.nValue then throw (.invalid .TX_CONSENSUS "bad-txns-vout-toolarge")
    let nValueOut := nValueOut + txout.nValue
    if !moneyRange nValueOut then throw (.invalid .TX_CONSENSUS "bad-txns-txouttotal-toolarge")
    pure nValueOut) 0
  if !(tx.vin.map CTxIn.prevout).Nodup then
    throw (.invalid .TX_CONSENSUS "bad-txns-inputs-duplicate")
  if tx.isCoinBase then
    match tx.vin with
    | txin :: _ =>
      if txin.scriptSig.length < 2 || 100 < txin.scriptSig.length then
        throw (.invalid .TX_CONSENSUS "bad-cb-length")
    | [] => pure ()
  else if tx.vin.any (·.prevout.isNull) then
    throw (.invalid .TX_CONSENSUS "bad-txns-prevout-null")

/-- A transaction that passes `CheckTransaction` fits in a block. -/
theorem checkTransaction_weight {tx : CTransaction} (h : checkTransaction tx = .ok ()) :
    (serializeTransaction tx false).length * WITNESS_SCALE_FACTOR ≤ MAX_BLOCK_WEIGHT := by
  unfold checkTransaction at h
  obtain ⟨-, h⟩ := cont_of_ite_throw h
  obtain ⟨-, h⟩ := cont_of_ite_throw h
  obtain ⟨hw, -⟩ := cont_of_ite_throw h
  exact Nat.le_of_not_lt hw

def isFinalTx (tx : CTransaction) (nBlockHeight : Int) (nBlockTime : Int) : Bool :=
  tx.nLockTime == 0 ||
  decide ((tx.nLockTime.toNat : Int) <
    (if tx.nLockTime.toNat < LOCKTIME_THRESHOLD then nBlockHeight else nBlockTime)) ||
  tx.vin.all (·.nSequence == SEQUENCE_FINAL)

/-- Blackcoin: a version-2 transaction without a timestamp is timed by the adjusted clock. -/
def nTimeTx (tx : CTransaction) (adjustedTime : Int) : Int :=
  if tx.nTime == 0 && tx.nVersion ≥ 2 then adjustedTime else tx.nTime.toNat

/-- The maturity `CheckTxInputs` demands. Before protocol V3.1 its unqualified
`Params().nCoinbaseMaturity` names a value-initialized `Consensus::Params`. -/
def coinbaseMaturity (params : Params) (nTimeTx : Int) : Int :=
  if params.isProtocolV3_1 nTimeTx then params.nCoinbaseMaturity else Params.valueInit.nCoinbaseMaturity

/-- One input of `CheckTxInputs`: maturity, timestamp and value range; returns `nValueIn`. -/
def checkTxInput (params : Params) (inputs : CoinsView) (nSpendHeight nTimeTx : Int)
    (nValueIn : CAmount) (txin : CTxIn) : Except TxResult CAmount := do
  let coin := inputs.accessCoin txin.prevout
  if coin.isSpent then throw (.exception "Assertion `!coin.IsSpent()' failed.")
  -- If prev is coinbase or coinstake, check that it's matured
  if (coin.fCoinBase || coin.fCoinStake) &&
      nSpendHeight - coin.nHeight < coinbaseMaturity params nTimeTx then
    throw (.invalid .TX_PREMATURE_SPEND "bad-txns-premature-spend-of-coinbase")
  if nTimeTx < coin.nTime.toNat then
    throw (.invalid .TX_CONSENSUS "bad-txns-time-earlier-than-input")
  let nValueIn := nValueIn + coin.out.nValue
  if !moneyRange coin.out.nValue || !moneyRange nValueIn then
    throw (.invalid .TX_CONSENSUS "bad-txns-inputvalues-outofrange")
  pure nValueIn

/-- `Consensus::CheckTxInputs`. The out-parameter `txfee` is returned; a coinstake leaves it
as it was. `GetMinFee` takes the time as `uint32_t`. -/
def checkTxInputs (params : Params) (adjustedTime : Int) (tx : CTransaction) (inputs : CoinsView)
    (nSpendHeight : Int) (txfee : CAmount) : Except TxResult CAmount := do
  if !inputs.haveInputs tx then
    throw (.invalid .TX_MISSING_INPUTS "bad-txns-inputs-missingorspent")
  let nTimeTx := nTimeTx tx adjustedTime
  let nValueIn ← tx.vin.foldlM (checkTxInput params inputs nSpendHeight nTimeTx) 0
  if tx.isCoinStake then return txfee
  let value_out ← match tx.getValueOut with
    | .ok v => pure v
    | .error what => throw (.exception what)
  if nValueIn < value_out then throw (.invalid .TX_CONSENSUS "bad-txns-in-belowout")
  let txfee_aux := nValueIn - value_out
  if !moneyRange txfee_aux then throw (.invalid .TX_CONSENSUS "bad-txns-fee-outofrange")
  if params.isProtocolV3_1 nTimeTx &&
      txfee_aux < getMinFee (getVirtualTransactionSize tx) (Int.toNat (nTimeTx % 2 ^ 32)).toUInt32 params then
    throw (.invalid .TX_CONSENSUS "bad-txns-fee-not-enough")
  pure txfee_aux

end BlackcoinMore.TxVerify
