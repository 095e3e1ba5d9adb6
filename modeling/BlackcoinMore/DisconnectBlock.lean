import BlackcoinMore.ConnectBlock

/-! `ApplyTxInUndo` and `Chainstate::DisconnectBlock` of `validation.cpp`: the coins view is
taken back over a block with the undo data `ConnectBlock` wrote for it. -/
namespace BlackcoinMore.DisconnectBlock
open Primitives Coins ConnectBlock

inductive DisconnectResult
  | DISCONNECT_OK
  | DISCONNECT_UNCLEAN
  | DISCONNECT_FAILED
  deriving DecidableEq, Repr

open DisconnectResult

/-- The undo coin with the metadata an old undo record left out (height zero) taken from
another unspent output of the same transaction; `none` when there is none. -/
def recoverUndoMetadata (undo : Coin) (view : CoinsView) (out : COutPoint) : Option Coin :=
  if undo.nHeight = 0 then
    let alternate := accessByTxid view out.hash
    if !alternate.isSpent then
      some { undo with nHeight := alternate.nHeight, fCoinBase := alternate.fCoinBase,
                       fCoinStake := alternate.fCoinStake, nTime := alternate.nTime }
    else none
  else some undo

/-- `ApplyTxInUndo(undo, view, out)`: the result and the view it leaves. The exception is a
failed assertion in `AddCoin`. -/
def applyTxInUndo (undo : Coin) (view : CoinsView) (out : COutPoint) :
    Except String (DisconnectResult × CoinsView) :=
  -- overwriting transaction output
  let fClean := !view.haveCoin out
  match recoverUndoMetadata undo view out with
  | none => pure (DISCONNECT_FAILED, view)
  | some undo => do
    let view ← view.addCoin out undo (!fClean)
    pure (if fClean then DISCONNECT_OK else DISCONNECT_UNCLEAN, view)

/-- Spend the output `o` of a transaction being disconnected: is what was there exactly the
coin `AddCoins` made of it at height `nHeight`? A missing coin leaves the view as it is. -/
def spendOutput (hash : Uint256) (tx : CTransaction) (nHeight : Nat) (view : CoinsView)
    (outo : CTxOut × Nat) : Bool × CoinsView :=
  let (txout, o) := outo
  match view.spendCoin ⟨hash, o.toUInt32⟩ with
  | some (coin, view) =>
    (txout == coin.out && nHeight == coin.nHeight && tx.isCoinBase == coin.fCoinBase &&
      tx.isCoinStake == coin.fCoinStake, view)
  | none => (false, view)

/-- The output loop of `DisconnectBlock` for one transaction: every spendable output is
spent; `false` when one of them did not match. -/
def spendOutputs (hash256 : Bytes → Uint256) (nHeight : Nat) (view : CoinsView) (tx : CTransaction) :
    Bool × CoinsView :=
  tx.vout.zipIdx.foldl (fun (fClean, view) outo =>
    if isUnspendable outo.1.scriptPubKey then (fClean, view)
    else
      let (matched, view) := spendOutput (getHash hash256 tx) tx nHeight view outo
      (fClean && matched, view)) (true, view)

/-- The input loop of `DisconnectBlock` for one transaction, from the last input to the first:
each spent coin is put back from the undo record. -/
def restoreInputs (view : CoinsView) (ins : List (CTxIn × Coin)) :
    Except String (DisconnectResult × CoinsView) :=
  ins.foldrM (fun (txin, undo) (res, view) =>
    match res with
    | DISCONNECT_FAILED => pure (DISCONNECT_FAILED, view)
    | _ => do
      let (r, view) ← applyTxInUndo undo view txin.prevout
      pure (match r with
        | DISCONNECT_FAILED => DISCONNECT_FAILED
        | DISCONNECT_UNCLEAN => DISCONNECT_UNCLEAN
        | DISCONNECT_OK => res, view)) (DISCONNECT_OK, view)

/-- One iteration of the reverse transaction loop, for `vtx[i]`, with the block's undo records.
`fClean` is carried in the result: `DISCONNECT_UNCLEAN` once some step was unclean. -/
def disconnectTx (hash256 : Bytes → Uint256) (nHeight : Nat) (blockUndo : CBlockUndo)
    (txi : CTransaction × Nat) (acc : DisconnectResult × CoinsView) :
    Except String (DisconnectResult × CoinsView) := do
  let (tx, i) := txi
  match acc with
  | (DISCONNECT_FAILED, view) => pure (DISCONNECT_FAILED, view)
  | (res, view) =>
    let (outsClean, view) := spendOutputs hash256 nHeight view tx
    let res := if outsClean then res else DISCONNECT_UNCLEAN
    -- restore inputs; the coinbase has none
    if i = 0 then pure (res, view)
    else
      let txundo := blockUndo.getD (i - 1) []
      if txundo.length != tx.vin.length then pure (DISCONNECT_FAILED, view)
      else
        let (r, view) ← restoreInputs view (tx.vin.zip txundo)
        pure (match r with
          | DISCONNECT_FAILED => DISCONNECT_FAILED
          | DISCONNECT_UNCLEAN => DISCONNECT_UNCLEAN
          | DISCONNECT_OK => res, view)

/-- `DisconnectBlock(block, pindex, view)`, with `pindex`'s height and the hash of its parent,
and the undo data `UndoReadFromDisk` finds (`none` when it cannot be read). The view is
returned also when the result is `DISCONNECT_FAILED`, where the source calls it
indeterminate. -/
def disconnectBlock (hash256 : Bytes → Uint256) (block : CBlock) (nHeight : Nat) (hashPrev : Uint256)
    (blockUndo : Option CBlockUndo) (view : CoinsView) : Except String (DisconnectResult × CoinsView) :=
  match blockUndo with
  | none => pure (DISCONNECT_FAILED, view)
  | some blockUndo =>
    if blockUndo.length + 1 != block.vtx.length then pure (DISCONNECT_FAILED, view)
    else do
      -- undo transactions in reverse order
      let (res, view) ← block.vtx.zipIdx.foldrM (disconnectTx hash256 nHeight blockUndo)
        (DISCONNECT_OK, view)
      match res with
      | DISCONNECT_FAILED => pure (DISCONNECT_FAILED, view)
      | res => pure (res, view.setBestBlock hashPrev)

end BlackcoinMore.DisconnectBlock
