import BlackcoinMore.Serialize
import BlackcoinMore.ExceptFold

/-! Unspent outputs (`Coin`, `coins.h`) and the coins view that validation reads and
updates. The view is the map the cache stack of `coins.cpp` presents to its user: every
outpoint reports a coin, the spent marker `coinEmpty` where there is none. Transaction ids
are the double SHA-256 of the witness-free serialization; the hash function is a
parameter. -/
namespace BlackcoinMore.Coins
open Primitives Serialize

structure Coin where
  out : CTxOut
  fCoinBase : Bool
  fCoinStake : Bool
  /-- A 31-bit field; every height the node stores is a non-negative `int`, which fits. -/
  nHeight : Nat
  nTime : UInt32
  deriving DecidableEq, Repr

namespace Coin

/-- `Coin()` and `Coin::Clear()`: the spent (or never existing) coin. -/
def empty : Coin := ⟨CTxOut.null, false, false, 0, 0⟩

/-- Either this coin never existed, or it did exist and has been spent. -/
def isSpent (c : Coin) : Bool := c.out.isNull

@[simp] theorem isSpent_empty : empty.isSpent = true := rfl

end Coin

/-- `Txid`: the hash of the serialization without witnesses (`CTransaction::ComputeHash`). -/
def getHash (hash256 : Bytes → Uint256) (tx : CTransaction) : Uint256 :=
  hash256 (serializeTransaction tx false)

/-- The coins view: the coin reported for each outpoint and the best block. -/
structure CoinsView where
  coins : COutPoint → Coin
  hashBlock : Uint256

namespace CoinsView

def accessCoin (view : CoinsView) (outpoint : COutPoint) : Coin := view.coins outpoint

def haveCoin (view : CoinsView) (outpoint : COutPoint) : Bool := !(view.coins outpoint).isSpent

def setCoin (view : CoinsView) (outpoint : COutPoint) (coin : Coin) : CoinsView :=
  { view with coins := Function.update view.coins outpoint coin }

/-- `CCoinsViewCache::AddCoin`; outputs with an unspendable script are not stored. -/
def addCoin (view : CoinsView) (outpoint : COutPoint) (coin : Coin) (possible_overwrite : Bool) :
    Except String CoinsView :=
  if coin.isSpent then .error "Assertion `!coin.IsSpent()' failed."
  else if isUnspendable coin.out.scriptPubKey then .ok view
  else if !possible_overwrite && view.haveCoin outpoint then
    .error "Attempted to overwrite an unspent coin (when possible_overwrite is false)"
  else .ok (view.setCoin outpoint coin)

/-- `CCoinsViewCache::SpendCoin` with a `moveout`: the coin it moves out, if one was unspent. -/
def spendCoin (view : CoinsView) (outpoint : COutPoint) : Option (Coin × CoinsView) :=
  if view.haveCoin outpoint then some (view.coins outpoint, view.setCoin outpoint Coin.empty)
  else none

def getValueIn (view : CoinsView) (tx : CTransaction) : CAmount :=
  if tx.isCoinBase then 0
  else tx.vin.foldl (fun nResult txin => nResult + (view.accessCoin txin.prevout).out.nValue) 0

def haveInputs (view : CoinsView) (tx : CTransaction) : Bool :=
  tx.isCoinBase || tx.vin.all fun txin => view.haveCoin txin.prevout

def setBestBlock (view : CoinsView) (hashBlockIn : Uint256) : CoinsView :=
  { view with hashBlock := hashBlockIn }

@[simp] theorem coins_setCoin (view : CoinsView) (o : COutPoint) (c : Coin) :
    (view.setCoin o c).coins = Function.update view.coins o c := rfl

@[simp] theorem hashBlock_setCoin (view : CoinsView) (o : COutPoint) (c : Coin) :
    (view.setCoin o c).hashBlock = view.hashBlock := rfl

@[simp] theorem coins_setBestBlock (view : CoinsView) (h : Uint256) :
    (view.setBestBlock h).coins = view.coins := rfl

@[simp] theorem hashBlock_setBestBlock (view : CoinsView) (h : Uint256) :
    (view.setBestBlock h).hashBlock = h := rfl

/-- What a successful `SpendCoin` does: the coin was unspent, is moved out, and a spent
marker takes its place. -/
theorem spendCoin_eq_some {view view' : CoinsView} {o : COutPoint} {coin : Coin}
    (h : view.spendCoin o = some (coin, view')) :
    view.haveCoin o = true ∧ coin = view.coins o ∧ view' = view.setCoin o Coin.empty := by
  unfold spendCoin at h
  split at h
  · cases h
    exact ⟨‹_›, rfl, rfl⟩
  · cases h

/-- What a successful `AddCoin` does: an unspendable output is dropped, any other coin is
stored, over an unspent one only when overwriting is allowed. -/
theorem addCoin_eq_ok {view view' : CoinsView} {o : COutPoint} {coin : Coin} {p : Bool}
    (h : view.addCoin o coin p = .ok view') :
    coin.isSpent = false ∧
      (isUnspendable coin.out.scriptPubKey = true ∧ view' = view ∨
        isUnspendable coin.out.scriptPubKey = false ∧ (p = true ∨ view.haveCoin o = false) ∧
          view' = view.setCoin o coin) := by
  unfold addCoin at h
  split at h
  · cases h
  next hs =>
    split at h
    next hu =>
      cases h
      exact ⟨by simpa using hs, .inl ⟨hu, rfl⟩⟩
    next hu =>
      split at h
      · cases h
      next ho =>
        cases h
        refine ⟨by simpa using hs, .inr ⟨by simpa using hu, ?_, rfl⟩⟩
        revert ho
        cases p <;> simp

end CoinsView

def MAX_BLOCK_WEIGHT : Nat := 4000000
def WITNESS_SCALE_FACTOR : Nat := 4
/-- `WITNESS_SCALE_FACTOR * GetSerializeSize(CTxOut())`: a null output serializes to 9 bytes. -/
def MIN_TRANSACTION_OUTPUT_WEIGHT : Nat := WITNESS_SCALE_FACTOR * (serializeTxOut CTxOut.null).length
def MAX_OUTPUTS_PER_BLOCK : Nat := MAX_BLOCK_WEIGHT / MIN_TRANSACTION_OUTPUT_WEIGHT

/-- `AccessByTxid`: the first unspent output of `txid` below `MAX_OUTPUTS_PER_BLOCK`. -/
def accessByTxid (view : CoinsView) (txid : Uint256) : Coin :=
  ((List.range MAX_OUTPUTS_PER_BLOCK).map (fun n => view.accessCoin ⟨txid, n.toUInt32⟩)).find?
    (fun c => !c.isSpent) |>.getD Coin.empty

section
variable (hash256 : Bytes → Uint256)

/-- `AddCoins` with `check = false`: only a coinbase may overwrite. -/
def addCoins (view : CoinsView) (tx : CTransaction) (nHeight : Nat) : Except String CoinsView :=
  let txid := getHash hash256 tx
  (tx.vout.zipIdx).foldlM (fun view (out, i) =>
    view.addCoin ⟨txid, i.toUInt32⟩ ⟨out, tx.isCoinBase, tx.isCoinStake, nHeight, tx.nTime⟩
      tx.isCoinBase) view

/-- The input loop of `UpdateCoins`: spend every input, moving its coin into the undo record.
A missing input is the failed `assert(is_spent)`. -/
def spendInputs (view : CoinsView) (tx : CTransaction) : Except String (CoinsView × List Coin) :=
  tx.vin.foldlM (fun (view, txundo) txin =>
    match view.spendCoin txin.prevout with
    | some (coin, view) => .ok (view, txundo ++ [coin])
    | none => .error "Assertion `is_spent' failed.") (view, [])

/-- `UpdateCoins`: spend the inputs of any transaction but a coinbase, then add the outputs. -/
def updateCoins (view : CoinsView) (tx : CTransaction) (nHeight : Nat) :
    Except String (CoinsView × List Coin) := do
  let (view, txundo) ← (if tx.isCoinBase then pure (view, []) else spendInputs view tx)
  let view ← addCoins hash256 view tx nHeight
  pure (view, txundo)

/-- What a successful `UpdateCoins` ran: the input loop (none for a coinbase), then `AddCoins`. -/
theorem updateCoins_eq_ok {view view' : CoinsView} {tx : CTransaction} {nHeight : Nat} {txundo : List Coin}
    (h : updateCoins hash256 view tx nHeight = .ok (view', txundo)) :
    ∃ mid, (tx.isCoinBase = true ∧ mid = view ∧ txundo = [] ∨
        tx.isCoinBase = false ∧ spendInputs view tx = .ok (mid, txundo)) ∧
      addCoins hash256 mid tx nHeight = .ok view' := by
  unfold updateCoins at h
  obtain ⟨⟨mid, u⟩, hs, h⟩ := ExceptFold.bind_eq_ok h
  obtain ⟨v, ha, h⟩ := ExceptFold.bind_eq_ok h
  cases h
  refine ⟨mid, ?_, ha⟩
  split at hs
  next hcb =>
    cases hs
    exact .inl ⟨hcb, rfl, rfl⟩
  next hcb => exact .inr ⟨by simpa using hcb, hs⟩

end

end BlackcoinMore.Coins
