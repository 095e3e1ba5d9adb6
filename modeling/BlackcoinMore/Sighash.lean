import BlackcoinMore.ScriptOps

/-! The signature hashes of `script/interpreter.cpp`: the streaming legacy serializer, the BIP143
digest with Blackcoin's `nTime` after `nVersion`, and the BIP341/342 digest of
`SignatureHashSchnorr` with the precomputed data it reads. SHA-256 is an oracle. -/
namespace BlackcoinMore.Sighash
open Primitives ByteCodec Serialize ScriptOps

def SIGHASH_ALL : Int32 := 1
def SIGHASH_NONE : Int32 := 2
def SIGHASH_SINGLE : Int32 := 3
def SIGHASH_ANYONECANPAY : Int32 := 0x80
def SIGHASH_DEFAULT : Int32 := 0
def SIGHASH_OUTPUT_MASK : Int32 := 3
def SIGHASH_INPUT_MASK : Int32 := 0x80

inductive SigVersion where
  | BASE
  | WITNESS_V0
  | TAPROOT
  | TAPSCRIPT
  deriving DecidableEq, Repr

/-- The hash functions of the signature hashes. -/
structure HashOracles where
  /-- `HashWriter::GetHash`: SHA-256 twice. -/
  hash256 : Bytes → Uint256
  /-- `HashWriter::GetSHA256` and `CSHA256`: SHA-256 once. -/
  sha256 : Bytes → Uint256

/-- `uint256::ONE`, as the number its little-endian bytes stand for. -/
def ONE : Uint256 := 1

/-- The input read where `vin[nInput]` is out of range, which the asserts rule out. -/
def absentTxIn : CTxIn := ⟨⟨0, NULL_INDEX⟩, [], 0, []⟩

/-- `CTransactionSignatureSerializer`: the transaction being signed, serialized with the changes
the hash type asks for made as the bytes are written. -/
structure CTransactionSignatureSerializer where
  txTo : CTransaction
  scriptCode : CScript
  nIn : Nat
  fAnyoneCanPay : Bool
  fHashSingle : Bool
  fHashNone : Bool

namespace CTransactionSignatureSerializer

/-- The constructor, which reads the three flags off `nHashType`. -/
def make (txTo : CTransaction) (scriptCode : CScript) (nIn : Nat) (nHashType : Int32) :
    CTransactionSignatureSerializer :=
  ⟨txTo, scriptCode, nIn, (nHashType &&& SIGHASH_ANYONECANPAY) != 0, (nHashType &&& 0x1f) == SIGHASH_SINGLE,
    (nHashType &&& 0x1f) == SIGHASH_NONE⟩

def serializeInput (t : CTransactionSignatureSerializer) (nInput : Nat) : Bytes :=
  -- under SIGHASH_ANYONECANPAY only the input being signed is serialized
  let nInput := if t.fAnyoneCanPay then t.nIn else nInput
  let txin := t.txTo.vin.getD nInput absentTxIn
  serializeOutPoint txin.prevout ++
    (if nInput ≠ t.nIn then serializeBytes [] else serializeScriptCode t.scriptCode) ++
    serWritedata32 (if nInput ≠ t.nIn ∧ (t.fHashSingle || t.fHashNone) then 0 else txin.nSequence)

def serializeOutput (t : CTransactionSignatureSerializer) (nOutput : Nat) : Bytes :=
  if t.fHashSingle ∧ nOutput ≠ t.nIn then serializeTxOut CTxOut.null
  else serializeTxOut (t.txTo.vout.getD nOutput CTxOut.null)

def serialize (t : CTransactionSignatureSerializer) : Bytes :=
  let nInputs := if t.fAnyoneCanPay then 1 else t.txTo.vin.length
  let nOutputs := if t.fHashNone then 0 else if t.fHashSingle then t.nIn + 1 else t.txTo.vout.length
  serWritedata32 t.txTo.nVersion.toUInt32 ++
    (if t.txTo.nVersion < 2 then serWritedata32 t.txTo.nTime else []) ++
    writeCompactSize nInputs ++ ((List.range nInputs).map t.serializeInput).flatten ++
    writeCompactSize nOutputs ++ ((List.range nOutputs).map t.serializeOutput).flatten ++
    serWritedata32 t.txTo.nLockTime

end CTransactionSignatureSerializer

section Digests
variable (orc : HashOracles)

def getPrevoutsSHA256 (txTo : CTransaction) : Uint256 :=
  orc.sha256 (txTo.vin.map fun txin => serializeOutPoint txin.prevout).flatten

def getSequencesSHA256 (txTo : CTransaction) : Uint256 :=
  orc.sha256 (txTo.vin.map fun txin => serWritedata32 txin.nSequence).flatten

def getOutputsSHA256 (txTo : CTransaction) : Uint256 :=
  orc.sha256 (txTo.vout.map serializeTxOut).flatten

def getSpentAmountsSHA256 (outputs_spent : List CTxOut) : Uint256 :=
  orc.sha256 (outputs_spent.map fun txout => serWritedata64 txout.nValue.toUInt64).flatten

def getSpentScriptsSHA256 (outputs_spent : List CTxOut) : Uint256 :=
  orc.sha256 (outputs_spent.map fun txout => serializeBytes txout.scriptPubKey).flatten

def sha256Uint256 (u : Uint256) : Uint256 := orc.sha256 (serializeUint256 u)

end Digests

structure PrecomputedTransactionData where
  m_prevouts_single_hash : Uint256 := 0
  m_sequences_single_hash : Uint256 := 0
  m_outputs_single_hash : Uint256 := 0
  m_spent_amounts_single_hash : Uint256 := 0
  m_spent_scripts_single_hash : Uint256 := 0
  m_bip341_taproot_ready : Bool := false
  hashPrevouts : Uint256 := 0
  hashSequence : Uint256 := 0
  hashOutputs : Uint256 := 0
  m_bip143_segwit_ready : Bool := false
  m_spent_outputs : List CTxOut := []
  m_spent_outputs_ready : Bool := false

def WITNESS_V1_TAPROOT_SIZE : Nat := 32
def OP_1 : UInt8 := 0x51

/-- The scan of `PrecomputedTransactionData::Init`: whether some witness-bearing input is a
Taproot spend, and whether some other one is. The C++ stops once both are set; both stay set,
so scanning on changes nothing. -/
def usesDigests (spent_outputs : List CTxOut) (ready : Bool) (vin : List CTxIn) (force : Bool) : Bool × Bool :=
  vin.zipIdx.foldl (fun (acc : Bool × Bool) (txin, inpos) =>
    if !txin.scriptWitness.isEmpty then
      let spk := (spent_outputs.getD inpos CTxOut.null).scriptPubKey
      if ready && spk.length == 2 + WITNESS_V1_TAPROOT_SIZE && spk.getD 0 0 == OP_1 then (acc.1, true)
      else (true, acc.2)
    else acc) (force, force)

/-- `PrecomputedTransactionData::Init`. -/
def PrecomputedTransactionData.init (orc : HashOracles) (txTo : CTransaction) (spent_outputs : List CTxOut)
    (force : Bool) : PrecomputedTransactionData :=
  let ready := !spent_outputs.isEmpty
  let uses := usesDigests spent_outputs ready txTo.vin force
  let shared := uses.1 || uses.2
  let prevouts := if shared then getPrevoutsSHA256 orc txTo else 0
  let sequences := if shared then getSequencesSHA256 orc txTo else 0
  let outputs := if shared then getOutputsSHA256 orc txTo else 0
  let taproot := uses.2 && ready
  { m_prevouts_single_hash := prevouts
    m_sequences_single_hash := sequences
    m_outputs_single_hash := outputs
    m_spent_amounts_single_hash := if taproot then getSpentAmountsSHA256 orc spent_outputs else 0
    m_spent_scripts_single_hash := if taproot then getSpentScriptsSHA256 orc spent_outputs else 0
    m_bip341_taproot_ready := taproot
    hashPrevouts := if uses.1 then sha256Uint256 orc prevouts else 0
    hashSequence := if uses.1 then sha256Uint256 orc sequences else 0
    hashOutputs := if uses.1 then sha256Uint256 orc outputs else 0
    m_bip143_segwit_ready := uses.1
    m_spent_outputs := spent_outputs
    m_spent_outputs_ready := ready }

/-- The part of `ScriptExecutionData` the Taproot digest reads. -/
structure ScriptExecutionData where
  m_tapleaf_hash_init : Bool := false
  m_tapleaf_hash : Uint256 := 0
  m_codeseparator_pos_init : Bool := false
  m_codeseparator_pos : UInt32 := 0
  m_annex_init : Bool := false
  m_annex_present : Bool := false
  m_annex_hash : Uint256 := 0
  m_output_hash : Option Uint256 := none

/-- `TaggedHash`: the writer fed the tag's SHA-256 twice. -/
def taggedHashPrefix (orc : HashOracles) (tag : Bytes) : Bytes :=
  serializeUint256 (orc.sha256 tag) ++ serializeUint256 (orc.sha256 tag)

def tapSighashTag : Bytes := "TapSighash".toUTF8.toList

/-- The C++ promotion of a `uint8_t` to `int`. -/
def promote (b : UInt8) : Int32 := Int32.ofNat b.toNat

/-- `SignatureHashSchnorr`, with the output hash it may cache into `execdata`. A failed assert
and missing precomputed data give no hash, as the `false` return does. -/
def signatureHashSchnorr (orc : HashOracles) (execdata : ScriptExecutionData) (tx_to : CTransaction)
    (in_pos : Nat) (hash_type : UInt8) (sigversion : SigVersion) (cache : PrecomputedTransactionData) :
    Option (Uint256 × ScriptExecutionData) := do
  let ext_flag : UInt8 ← match sigversion with
    | .TAPROOT => some 0
    | .TAPSCRIPT => some 1
    | _ => none
  let key_version : UInt8 := 0
  guard (in_pos < tx_to.vin.length)
  guard (cache.m_bip341_taproot_ready && cache.m_spent_outputs_ready)
  let EPOCH : UInt8 := 0
  -- the default (no sighash byte) is SIGHASH_ALL
  let output_type := if hash_type == 0 then SIGHASH_ALL else promote hash_type &&& SIGHASH_OUTPUT_MASK
  let input_type := promote hash_type &&& SIGHASH_INPUT_MASK
  guard (hash_type ≤ 0x03 || (0x81 ≤ hash_type && hash_type ≤ 0x83))
  guard execdata.m_annex_init
  let have_annex := execdata.m_annex_present
  let spend_type : UInt8 := (ext_flag <<< 1) + (if have_annex then 1 else 0)
  let txin := tx_to.vin.getD in_pos absentTxIn
  let (outputHash, execdata) ← (if output_type == SIGHASH_SINGLE then do
      guard (in_pos < tx_to.vout.length)
      match execdata.m_output_hash with
      | some h => pure (some h, execdata)
      | none =>
        let h := orc.sha256 (serializeTxOut (tx_to.vout.getD in_pos CTxOut.null))
        pure (some h, { execdata with m_output_hash := some h })
    else pure (none, execdata))
  guard (sigversion != .TAPSCRIPT || (execdata.m_tapleaf_hash_init && execdata.m_codeseparator_pos_init))
  let ss :=
    [EPOCH, hash_type] ++ serWritedata32 tx_to.nVersion.toUInt32 ++ serWritedata32 tx_to.nLockTime ++
    (if input_type != SIGHASH_ANYONECANPAY then
      serializeUint256 cache.m_prevouts_single_hash ++ serializeUint256 cache.m_spent_amounts_single_hash ++
        serializeUint256 cache.m_spent_scripts_single_hash ++ serializeUint256 cache.m_sequences_single_hash
    else []) ++
    (if output_type == SIGHASH_ALL then serializeUint256 cache.m_outputs_single_hash else []) ++
    [spend_type] ++
    (if input_type == SIGHASH_ANYONECANPAY then
      serializeOutPoint txin.prevout ++ serializeTxOut (cache.m_spent_outputs.getD in_pos CTxOut.null) ++
        serWritedata32 txin.nSequence
    else serWritedata32 in_pos.toUInt32) ++
    (if have_annex then serializeUint256 execdata.m_annex_hash else []) ++
    (match outputHash with
      | some h => serializeUint256 h
      | none => []) ++
    (if sigversion == .TAPSCRIPT then
      serializeUint256 execdata.m_tapleaf_hash ++ [key_version] ++ serWritedata32 execdata.m_codeseparator_pos
    else [])
  pure (orc.sha256 (taggedHashPrefix orc tapSighashTag ++ ss), execdata)

/-- `SignatureHash`: the BIP143 digest for witness version 0, the streaming serializer otherwise.
`nIn < txTo.vin.size()` is asserted on entry. -/
def signatureHash (orc : HashOracles) (scriptCode : CScript) (txTo : CTransaction) (nIn : Nat) (nHashType : Int32)
    (amount : CAmount) (sigversion : SigVersion) (cache : Option PrecomputedTransactionData) : Uint256 :=
  if sigversion = .WITNESS_V0 then
    let cacheready := cache.any (·.m_bip143_segwit_ready)
    let c := cache.getD {}
    let anyoneCanPay := (nHashType &&& SIGHASH_ANYONECANPAY) != 0
    let baseType := nHashType &&& 0x1f
    let hashPrevouts := if !anyoneCanPay then
        (if cacheready then c.hashPrevouts else sha256Uint256 orc (getPrevoutsSHA256 orc txTo)) else 0
    let hashSequence := if !anyoneCanPay && baseType != SIGHASH_SINGLE && baseType != SIGHASH_NONE then
        (if cacheready then c.hashSequence else sha256Uint256 orc (getSequencesSHA256 orc txTo)) else 0
    let hashOutputs :=
      if baseType != SIGHASH_SINGLE && baseType != SIGHASH_NONE then
        (if cacheready then c.hashOutputs else sha256Uint256 orc (getOutputsSHA256 orc txTo))
      else if baseType == SIGHASH_SINGLE && nIn < txTo.vout.length then
        orc.hash256 (serializeTxOut (txTo.vout.getD nIn CTxOut.null))
      else 0
    let txin := txTo.vin.getD nIn absentTxIn
    orc.hash256 (serWritedata32 txTo.nVersion.toUInt32 ++
      (if txTo.nVersion < 2 then serWritedata32 txTo.nTime else []) ++
      serializeUint256 hashPrevouts ++ serializeUint256 hashSequence ++
      serializeOutPoint txin.prevout ++ serializeBytes scriptCode ++ serWritedata64 amount.toUInt64 ++
      serWritedata32 txin.nSequence ++ serializeUint256 hashOutputs ++ serWritedata32 txTo.nLockTime ++
      serWritedata32 nHashType.toUInt32)
  else
    -- SIGHASH_SINGLE past the last output signs `uint256::ONE`
    if (nHashType &&& 0x1f) == SIGHASH_SINGLE && txTo.vout.length ≤ nIn then ONE
    else orc.hash256 ((CTransactionSignatureSerializer.make txTo scriptCode nIn nHashType).serialize ++
      serWritedata32 nHashType.toUInt32)

/-- Hash functions to run the digests with: polynomial stand-ins for SHA-256. -/
def exampleHashes : HashOracles where
  hash256 bytes := BitVec.ofNat 256 (bytes.foldl (fun acc b => acc * 257 + b.toNat + 1) 0)
  sha256 bytes := BitVec.ofNat 256 (bytes.foldl (fun acc b => acc * 263 + b.toNat + 1) 0)

/-- The Taproot digest does not read `nTime`. -/
theorem signatureHashSchnorr_nTime (orc : HashOracles) (execdata : ScriptExecutionData) (tx : CTransaction)
    (t : UInt32) (in_pos : Nat) (hash_type : UInt8) (sigversion : SigVersion) (cache : PrecomputedTransactionData) :
    signatureHashSchnorr orc execdata { tx with nTime := t } in_pos hash_type sigversion cache =
      signatureHashSchnorr orc execdata tx in_pos hash_type sigversion cache := rfl

theorem init_nTime (orc : HashOracles) (tx : CTransaction) (t : UInt32) (spent_outputs : List CTxOut) (force : Bool) :
    PrecomputedTransactionData.init orc { tx with nTime := t } spent_outputs force =
      PrecomputedTransactionData.init orc tx spent_outputs force := rfl

/-- A version-1 transaction spending a Taproot output by its key path, signed at `nTime`. -/
def taprootSpend (nTime : UInt32) : CTransaction :=
  ⟨[⟨⟨7, 0⟩, [], 0xffffffff, [List.replicate 64 1]⟩], [⟨COIN, [OP_RETURN]⟩], 1, nTime, 0⟩

def taprootOutput : CTxOut := ⟨COIN, OP_1 :: 0x20 :: List.replicate 32 9⟩

def keyPathData : ScriptExecutionData := { m_annex_init := true }

theorem signatureHashSchnorr_same_for_other_nTime (orc : HashOracles) :
    (signatureHashSchnorr orc keyPathData (taprootSpend 1760000000) 0 0 .TAPROOT
        (PrecomputedTransactionData.init orc (taprootSpend 1760000000) [taprootOutput] false)).isSome = true ∧
      signatureHashSchnorr orc keyPathData (taprootSpend 1760000000) 0 0 .TAPROOT
          (PrecomputedTransactionData.init orc (taprootSpend 1760000000) [taprootOutput] false) =
        signatureHashSchnorr orc keyPathData (taprootSpend 1760000016) 0 0 .TAPROOT
          (PrecomputedTransactionData.init orc (taprootSpend 1760000016) [taprootOutput] false) ∧
      serializeTransaction (taprootSpend 1760000000) false ≠ serializeTransaction (taprootSpend 1760000016) false := by
  refine ⟨rfl, ?_, by decide⟩
  -- the second transaction is the first with another `nTime`, which neither the digest nor
  -- the precomputed data reads
  calc signatureHashSchnorr orc keyPathData (taprootSpend 1760000000) 0 0 .TAPROOT
        (PrecomputedTransactionData.init orc (taprootSpend 1760000000) [taprootOutput] false)
      = signatureHashSchnorr orc keyPathData (taprootSpend 1760000016) 0 0 .TAPROOT
          (PrecomputedTransactionData.init orc (taprootSpend 1760000000) [taprootOutput] false) :=
        (signatureHashSchnorr_nTime orc _ (taprootSpend 1760000000) 1760000016 _ _ _ _).symm
    _ = signatureHashSchnorr orc keyPathData (taprootSpend 1760000016) 0 0 .TAPROOT
          (PrecomputedTransactionData.init orc (taprootSpend 1760000016) [taprootOutput] false) := by
        rw [← init_nTime orc (taprootSpend 1760000000) 1760000016]
        rfl

end BlackcoinMore.Sighash
