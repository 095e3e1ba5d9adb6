import BlackcoinMore.Primitives
import BlackcoinMore.ByteCodec

/-! The wire format of `serialize.h` and `primitives/transaction.h`: little-endian
fixed-width integers, CompactSize lengths, vectors, and Blackcoin's transaction layout
whose `nTime` field is present only for `nVersion < 2`. -/
namespace BlackcoinMore.Serialize
open Primitives ByteCodec

def MAX_SIZE : Nat := 0x02000000

def endOfData : String := "DataStream::read(): end of data"

def serWritedata8 (v : UInt8) : Bytes := [v]
def serWritedata16 (v : Nat) : Bytes := encodeLE 2 v
def serWritedata32 (v : UInt32) : Bytes := encodeLE 4 v.toNat
def serWritedata64 (v : UInt64) : Bytes := encodeLE 8 v.toNat

def serReaddata8 : Reader UInt8 := readByte endOfData
def serReaddata16 : Reader Nat := do return decodeLE (← readBytes endOfData 2)
def serReaddata32 : Reader UInt32 := do return (decodeLE (← readBytes endOfData 4)).toUInt32
def serReaddata64 : Reader UInt64 := do return (decodeLE (← readBytes endOfData 8)).toUInt64

/-- `GetSizeOfCompactSize(nSize)`. -/
def getSizeOfCompactSize (nSize : Nat) : Nat :=
  if nSize < 253 then 1
  else if nSize ≤ 0xffff then 1 + 2
  else if nSize ≤ 0xffffffff then 1 + 4
  else 1 + 8

def writeCompactSize (nSize : Nat) : Bytes :=
  if nSize < 253 then serWritedata8 nSize.toUInt8
  else if nSize ≤ 0xffff then serWritedata8 253 ++ serWritedata16 nSize
  else if nSize ≤ 0xffffffff then serWritedata8 254 ++ serWritedata32 nSize.toUInt32
  else serWritedata8 255 ++ serWritedata64 nSize.toUInt64

def readCompactSize (range_check : Bool := true) : Reader Nat := do
  let chSize ← serReaddata8
  let nSizeRet ←
    if chSize < 253 then pure chSize.toNat
    else if chSize == 253 then do
      let v ← serReaddata16
      if v < 253 then throw "non-canonical ReadCompactSize()" else pure v
    else if chSize == 254 then do
      let v ← serReaddata32
      if v.toNat < 0x10000 then throw "non-canonical ReadCompactSize()" else pure v.toNat
    else do
      let v ← serReaddata64
      if v.toNat < 0x100000000 then throw "non-canonical ReadCompactSize()" else pure v.toNat
  if range_check && MAX_SIZE < nSizeRet then throw "ReadCompactSize(): size too large"
  pure nSizeRet

/-- A vector of bytes (`std::vector<unsigned char>`, `prevector`): a length, then the bytes. -/
def serializeBytes (v : Bytes) : Bytes := writeCompactSize v.length ++ v

def unserializeBytes : Reader Bytes := do
  let nSize ← readCompactSize
  readBytes endOfData nSize

/-- A vector of non-byte elements through `VectorFormatter<DefaultFormatter>`. -/
def serializeVector (ser : α → Bytes) (v : List α) : Bytes :=
  writeCompactSize v.length ++ (v.map ser).flatten

def unserializeVector (unser : Reader α) : Reader (List α) := do
  let nSize ← readCompactSize
  readCount unser nSize

def serializeUint256 (h : Uint256) : Bytes := encodeLE 32 h.toNat

def unserializeUint256 : Reader Uint256 := do
  return BitVec.ofNat 256 (decodeLE (← readBytes endOfData 32))

def serializeOutPoint (o : COutPoint) : Bytes := serializeUint256 o.hash ++ serWritedata32 o.n

def unserializeOutPoint : Reader COutPoint := do
  let hash ← unserializeUint256
  let n ← serReaddata32
  pure ⟨hash, n⟩

def serializeTxIn (txin : CTxIn) : Bytes :=
  serializeOutPoint txin.prevout ++ serializeBytes txin.scriptSig ++ serWritedata32 txin.nSequence

def unserializeTxIn : Reader CTxIn := do
  let prevout ← unserializeOutPoint
  let scriptSig ← unserializeBytes
  let nSequence ← serReaddata32
  pure ⟨prevout, scriptSig, nSequence, []⟩

def serializeTxOut (out : CTxOut) : Bytes :=
  serWritedata64 out.nValue.toUInt64 ++ serializeBytes out.scriptPubKey

def unserializeTxOut : Reader CTxOut := do
  let nValue ← serReaddata64
  let scriptPubKey ← unserializeBytes
  pure ⟨nValue.toInt64, scriptPubKey⟩

/-- `TransactionSerParams::allow_witness`: `TX_WITH_WITNESS` is `true`, `TX_NO_WITNESS` `false`. -/
def serializeTransaction (tx : CTransaction) (fAllowWitness : Bool) : Bytes :=
  let flags : UInt8 := if fAllowWitness && tx.hasWitness then 1 else 0
  serWritedata32 tx.nVersion.toUInt32 ++
  (if tx.nVersion < 2 then serWritedata32 tx.nTime else []) ++
  -- the extended format writes an empty dummy vin and the flags byte first
  (if flags != 0 then serializeVector serializeTxIn [] ++ serWritedata8 flags else []) ++
  serializeVector serializeTxIn tx.vin ++
  serializeVector serializeTxOut tx.vout ++
  (if flags &&& 1 != 0 then (tx.vin.map fun txin => serializeVector serializeBytes txin.scriptWitness).flatten
    else []) ++
  serWritedata32 tx.nLockTime

/-- Every output takes at least one byte, so the serialization bounds the number of outputs. -/
theorem length_vout_le (tx : CTransaction) (fAllowWitness : Bool) :
    tx.vout.length ≤ (serializeTransaction tx fAllowWitness).length := by
  have hflat : ∀ outs : List CTxOut, outs.length ≤ (outs.map serializeTxOut).flatten.length := by
    intro outs
    induction outs with
    | nil => simp
    | cons out outs ih =>
      have hout : 0 < (serializeTxOut out).length := by simp [serializeTxOut, serWritedata64]
      simp only [List.map_cons, List.flatten_cons, List.length_append, List.length_cons]
      omega
  have := hflat tx.vout
  simp only [serializeTransaction, serializeVector, List.length_append]
  omega

/-- Read one witness stack into each input, in order. -/
def readWitnesses : List CTxIn → Reader (List CTxIn)
  | [] => pure []
  | txin :: rest => do
    let stack ← unserializeVector unserializeBytes
    let rest' ← readWitnesses rest
    pure ({ txin with scriptWitness := stack } :: rest')

def unserializeTransaction (fAllowWitness : Bool) : Reader CTransaction := do
  let nVersion := (← serReaddata32).toInt32
  let nTime ← if nVersion < 2 then serReaddata32 else pure 0
  let mut flags : UInt8 := 0
  -- Try to read the vin. In case the dummy is there, this will be read as an empty vector.
  let mut vin ← unserializeVector unserializeTxIn
  let mut vout := []
  if vin.isEmpty && fAllowWitness then
    flags ← serReaddata8
    if flags != 0 then
      vin ← unserializeVector unserializeTxIn
      vout ← unserializeVector unserializeTxOut
  else
    vout ← unserializeVector unserializeTxOut
  if flags &&& 1 != 0 && fAllowWitness then
    flags := flags ^^^ 1
    vin ← readWitnesses vin
    if !(vin.any fun txin => !txin.scriptWitness.isEmpty) then
      throw "Superfluous witness record"
  if flags != 0 then throw "Unknown transaction optional data"
  let nLockTime ← serReaddata32
  pure ⟨vin, vout, nVersion, nTime, nLockTime⟩

/-- `CBlockHeader` serialization; `fPosMarker` is a stream with `SER_POSMARKER` and without
`SER_GETHASH`, the only case that carries `nFlags`. -/
def serializeBlockHeader (h : CBlockHeader) (fPosMarker : Bool) : Bytes :=
  serWritedata32 h.nVersion.toUInt32 ++ serializeUint256 h.hashPrevBlock ++
  serializeUint256 h.hashMerkleRoot ++ serWritedata32 h.nTime ++ serWritedata32 h.nBits ++
  serWritedata32 h.nNonce ++ (if fPosMarker then serWritedata32 h.nFlags else [])

def unserializeBlockHeader (fPosMarker : Bool) : Reader CBlockHeader := do
  let nVersion := (← serReaddata32).toInt32
  let hashPrevBlock ← unserializeUint256
  let hashMerkleRoot ← unserializeUint256
  let nTime ← serReaddata32
  let nBits ← serReaddata32
  let nNonce ← serReaddata32
  let nFlags ← if fPosMarker then serReaddata32 else pure 0
  pure ⟨nVersion, hashPrevBlock, hashMerkleRoot, nTime, nBits, nNonce, nFlags⟩

def serializeBlock (b : CBlock) (fPosMarker fAllowWitness : Bool) : Bytes :=
  serializeBlockHeader b.toCBlockHeader fPosMarker ++
  serializeVector (serializeTransaction · fAllowWitness) b.vtx ++ serializeBytes b.vchBlockSig

def unserializeBlock (fPosMarker fAllowWitness : Bool) : Reader CBlock := do
  let header ← unserializeBlockHeader fPosMarker
  let vtx ← unserializeVector (unserializeTransaction fAllowWitness)
  let vchBlockSig ← unserializeBytes
  pure { header with vtx, vchBlockSig }

end BlackcoinMore.Serialize
