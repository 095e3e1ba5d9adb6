import Mathlib

/-! Transactions, blocks and amounts of `primitives/transaction.h`, `primitives/block.h`
and `consensus/amount.h`. A `uint256` blob is kept as the little-endian number of its
32 bytes, which is how `UintToArith256` and the serializer read it. -/
namespace BlackcoinMore.Primitives

abbrev Bytes := List UInt8

/-- `CAmount`: satoshis, a signed 64-bit integer. -/
abbrev CAmount := Int64

def COIN : CAmount := 100000000
def CENT : CAmount := 1000000
/-- This fork sets `MAX_MONEY` to `std::numeric_limits<int64_t>::max()`. -/
def MAX_MONEY : CAmount := 9223372036854775807

def moneyRange (nValue : CAmount) : Bool := 0 ≤ nValue && nValue ≤ MAX_MONEY

/-- A `uint256` blob, read as the little-endian number of its bytes. -/
abbrev Uint256 := BitVec 256

/-- Membership tests on lists of hashes (the block index's sets, the mempool's maps) use this
equality; naming it keeps one proof term for all of them. -/
instance instLawfulBEqUint256 : LawfulBEq Uint256 := inferInstance

def NULL_INDEX : UInt32 := 0xffffffff

structure COutPoint where
  hash : Uint256
  n : UInt32
  deriving DecidableEq, Repr

def COutPoint.isNull (o : COutPoint) : Bool := o.hash == 0 && o.n == NULL_INDEX

abbrev CScript := Bytes

def OP_RETURN : UInt8 := 0x6a
def MAX_SCRIPT_SIZE : Nat := 10000

def isUnspendable (script : CScript) : Bool :=
  (match script with
    | op :: _ => op == OP_RETURN
    | [] => false) || decide (MAX_SCRIPT_SIZE < script.length)

structure CTxIn where
  prevout : COutPoint
  scriptSig : CScript
  nSequence : UInt32
  /-- `CScriptWitness::stack`. -/
  scriptWitness : List Bytes
  deriving DecidableEq, Repr

structure CTxOut where
  nValue : CAmount
  scriptPubKey : CScript
  deriving DecidableEq, Repr

/-- `CTxOut::SetNull`: the marker of a spent or absent output. -/
def CTxOut.null : CTxOut := ⟨-1, []⟩

def CTxOut.isNull (out : CTxOut) : Bool := out.nValue == -1

def CTxOut.isEmpty (out : CTxOut) : Bool := out.nValue == 0 && out.scriptPubKey.isEmpty

/-- `CTransaction` and `CMutableTransaction` carry the same data; the hashes are computed. -/
structure CTransaction where
  vin : List CTxIn
  vout : List CTxOut
  nVersion : Int32
  nTime : UInt32
  nLockTime : UInt32
  deriving DecidableEq, Repr

namespace CTransaction

def isCoinBase (tx : CTransaction) : Bool :=
  match tx.vin with
  | [txin] => txin.prevout.isNull
  | _ => false

/-- The coin stake transaction is marked with the first output empty. -/
def isCoinStake (tx : CTransaction) : Bool :=
  match tx.vin, tx.vout with
  | txin :: _, out0 :: _ :: _ => !txin.prevout.isNull && out0.isEmpty
  | _, _ => false

def hasWitness (tx : CTransaction) : Bool := tx.vin.any fun txin => !txin.scriptWitness.isEmpty

/-- `CTransaction::GetValueOut`, whose range failures throw `std::runtime_error`. -/
def getValueOut (tx : CTransaction) : Except String CAmount :=
  tx.vout.foldlM (fun nValueOut txOut =>
    if !moneyRange txOut.nValue || !moneyRange (nValueOut + txOut.nValue) then
      .error "GetValueOut: value out of range"
    else .ok (nValueOut + txOut.nValue)) 0

end CTransaction

structure CBlockHeader where
  nVersion : Int32
  hashPrevBlock : Uint256
  hashMerkleRoot : Uint256
  nTime : UInt32
  nBits : UInt32
  nNonce : UInt32
  /-- The peer's copy of `CBlockIndex::nFlags`; not covered by the block hash. -/
  nFlags : UInt32
  deriving DecidableEq, Repr

def CBlockHeader.getBlockTime (h : CBlockHeader) : Int := h.nTime.toNat

structure CBlock extends CBlockHeader where
  vtx : List CTransaction
  vchBlockSig : Bytes
  deriving DecidableEq, Repr

namespace CBlock

/-- Two types of block: proof-of-work or proof-of-stake, decided by `vtx[1]`. -/
def isProofOfStake (b : CBlock) : Bool :=
  match b.vtx with
  | _ :: tx1 :: _ => tx1.isCoinStake
  | _ => false

def isProofOfWork (b : CBlock) : Bool := !b.isProofOfStake

end CBlock

end BlackcoinMore.Primitives
