import BlackcoinMore.Sighash

/-! `SignatureHashOld` of the sighash tests, the copy-and-modify definition of the legacy
signature hash, and the streaming serializer compared with it: the two agree on every
script code that parses, and differ on one whose last push is cut short. -/
namespace BlackcoinMore.Sighash
open Primitives ByteCodec Serialize ScriptOps

/-- Blank out the other inputs' signatures; the script code signs input `nIn`. -/
def blankScriptSigs (vin : List CTxIn) (nIn : Nat) (scriptCode : CScript) : List CTxIn :=
  (vin.map fun txin => { txin with scriptSig := [] }).set nIn { vin.getD nIn absentTxIn with scriptSig := scriptCode }

/-- Let the others update at will. -/
def zeroOtherSequences (vin : List CTxIn) (nIn : Nat) : List CTxIn :=
  vin.mapIdx fun i txin => if i ≠ nIn then { txin with nSequence := 0 } else txin

/-- Only lock in the output at the index of the input. -/
def singleOutputs (vout : List CTxOut) (nIn : Nat) : List CTxOut :=
  (vout.take (nIn + 1)).mapIdx fun i out => if i < nIn then CTxOut.null else out

/-- `SignatureHashOld` of the sighash tests: the transaction copied, changed as the hash type
asks, and serialized without witness. -/
def signatureHashOld (orc : HashOracles) (scriptCode : CScript) (txTo : CTransaction) (nIn : Nat)
    (nHashType : Int32) : Uint256 :=
  if txTo.vin.length ≤ nIn then ONE
  else
    -- concatenated scripts may hold several separators: drop them all
    let vin := blankScriptSigs txTo.vin nIn (findAndDelete scriptCode [OP_CODESEPARATOR]).2
    let blanked : Option (List CTxIn × List CTxOut) :=
      if (nHashType &&& 0x1f) == SIGHASH_NONE then some (zeroOtherSequences vin nIn, [])
      else if (nHashType &&& 0x1f) == SIGHASH_SINGLE then
        if txTo.vout.length ≤ nIn then none else some (zeroOtherSequences vin nIn, singleOutputs txTo.vout nIn)
      else some (vin, txTo.vout)
    match blanked with
    | none => ONE
    | some (vin, vout) =>
      -- blank out other inputs completely
      let vin := if (nHashType &&& SIGHASH_ANYONECANPAY) != 0 then [vin.getD nIn absentTxIn] else vin
      orc.hash256 (serializeTransaction { txTo with vin, vout } false ++ serWritedata32 nHashType.toUInt32)

section Reference
variable {vin : List CTxIn} {vout : List CTxOut} {nIn i : Nat}

theorem getD_blankScriptSigs {scriptCode : CScript} (d : CTxIn) (hi : i < vin.length) :
    (blankScriptSigs vin nIn scriptCode).getD i d = { vin.getD i d with scriptSig := if i = nIn then scriptCode else [] } := by
  unfold blankScriptSigs
  by_cases h : nIn = i
  · subst h
    simp [List.getD_eq_getElem?_getD, hi]
  · simp [List.getD_eq_getElem?_getD, h, Ne.symm h, hi]

@[simp] theorem length_blankScriptSigs {scriptCode : CScript} : (blankScriptSigs vin nIn scriptCode).length = vin.length := by
  simp [blankScriptSigs]

theorem getD_zeroOtherSequences (d : CTxIn) (hi : i < vin.length) :
    (zeroOtherSequences vin nIn).getD i d = if i ≠ nIn then { vin.getD i d with nSequence := 0 } else vin.getD i d := by
  simp [zeroOtherSequences, List.getD_eq_getElem?_getD, hi]

@[simp] theorem length_zeroOtherSequences : (zeroOtherSequences vin nIn).length = vin.length := by
  simp [zeroOtherSequences]

theorem getD_singleOutputs (d : CTxOut) (hin : nIn < vout.length) (hi : i ≤ nIn) :
    (singleOutputs vout nIn).getD i d = if i < nIn then CTxOut.null else vout.getD i d := by
  simp [singleOutputs, List.getD_eq_getElem?_getD, show i < vout.length by omega, show i < nIn + 1 by omega]

theorem length_singleOutputs (hin : nIn < vout.length) : (singleOutputs vout nIn).length = nIn + 1 := by
  simp [singleOutputs]
  omega

end Reference

/-- Input `i` of the signed copy: the script code at `nIn` and no script elsewhere, the other
sequences zero when the hash type lets them change. -/
def copyInput (vin : List CTxIn) (scriptCode : CScript) (nIn : Nat) (atWill : Bool) (i : Nat) : CTxIn :=
  { vin.getD i absentTxIn with
    scriptSig := if i = nIn then scriptCode else []
    nSequence := if i ≠ nIn ∧ atWill = true then 0 else (vin.getD i absentTxIn).nSequence }

theorem getD_copyInputs {scriptCode : CScript} {nIn i : Nat} {vin : List CTxIn} (atWill : Bool) (d : CTxIn)
    (hi : i < vin.length) :
    (if atWill then zeroOtherSequences (blankScriptSigs vin nIn scriptCode) nIn
      else blankScriptSigs vin nIn scriptCode).getD i d = copyInput vin scriptCode nIn atWill i := by
  have hd : vin.getD i d = vin.getD i absentTxIn := by
    rw [List.getD_eq_getElem _ _ hi, List.getD_eq_getElem _ _ hi]
  unfold copyInput
  cases atWill
  · rw [if_neg (by simp), getD_blankScriptSigs d hi, hd]
    simp
  · rw [if_pos rfl, getD_zeroOtherSequences d (by simpa using hi), getD_blankScriptSigs d hi, hd]
    by_cases h : i = nIn <;> simp [h]

namespace CTransactionSignatureSerializer
variable {txTo : CTransaction} {scriptCode sc : CScript} {nIn : Nat} {nHashType : Int32}

theorem serializeInput_make (hsc : serializeScriptCode scriptCode = serializeBytes sc) (j : Nat) :
    (make txTo scriptCode nIn nHashType).serializeInput j =
      serializeTxIn (copyInput txTo.vin sc nIn ((nHashType &&& 0x1f) == SIGHASH_SINGLE || (nHashType &&& 0x1f) == SIGHASH_NONE)
        (if (nHashType &&& SIGHASH_ANYONECANPAY) != 0 then nIn else j)) := by
  unfold serializeInput make copyInput serializeTxIn
  dsimp only
  generalize (if (nHashType &&& SIGHASH_ANYONECANPAY) != 0 then nIn else j) = i
  by_cases h : i = nIn
  · simp [h, hsc]
  · simp [h]

theorem serializeOutput_make (j : Nat) :
    (make txTo scriptCode nIn nHashType).serializeOutput j =
      serializeTxOut (if (nHashType &&& 0x1f) == SIGHASH_SINGLE ∧ j ≠ nIn then CTxOut.null else txTo.vout.getD j CTxOut.null) := by
  unfold serializeOutput make
  dsimp only
  split_ifs <;> rfl

/-- The serializer writes the basic format of a transaction whose inputs and outputs serialize
as its loops write them. -/
theorem serialize_eq (t : CTransactionSignatureSerializer) {R : List CTxIn} {Q : List CTxOut}
    (hR : (List.range (if t.fAnyoneCanPay then 1 else t.txTo.vin.length)).map t.serializeInput = R.map serializeTxIn)
    (hRlen : (if t.fAnyoneCanPay then 1 else t.txTo.vin.length) = R.length)
    (hQ : (List.range (if t.fHashNone then 0 else if t.fHashSingle then t.nIn + 1 else t.txTo.vout.length)).map
      t.serializeOutput = Q.map serializeTxOut)
    (hQlen : (if t.fHashNone then 0 else if t.fHashSingle then t.nIn + 1 else t.txTo.vout.length) = Q.length) :
    t.serialize = serializeTransaction { t.txTo with vin := R, vout := Q } false := by
  unfold serialize serializeTransaction serializeVector
  dsimp only
  rw [hR, hRlen, hQ, hQlen]
  simp

@[simp] theorem make_txTo : (make txTo scriptCode nIn nHashType).txTo = txTo := rfl
@[simp] theorem make_nIn : (make txTo scriptCode nIn nHashType).nIn = nIn := rfl
@[simp] theorem make_fAnyoneCanPay :
    (make txTo scriptCode nIn nHashType).fAnyoneCanPay = ((nHashType &&& SIGHASH_ANYONECANPAY) != 0) := rfl
@[simp] theorem make_fHashSingle :
    (make txTo scriptCode nIn nHashType).fHashSingle = ((nHashType &&& 0x1f) == SIGHASH_SINGLE) := rfl
@[simp] theorem make_fHashNone :
    (make txTo scriptCode nIn nHashType).fHashNone = ((nHashType &&& 0x1f) == SIGHASH_NONE) := rfl

/-- The input loop writes the inputs of the copy: one, under `SIGHASH_ANYONECANPAY`. -/
theorem serializeInputs_make {P : List CTxIn} (hsc : serializeScriptCode scriptCode = serializeBytes sc)
    (hIn : nIn < txTo.vin.length) (hlen : P.length = txTo.vin.length)
    (hP : ∀ i < txTo.vin.length, P.getD i absentTxIn = copyInput txTo.vin sc nIn
      ((nHashType &&& 0x1f) == SIGHASH_SINGLE || (nHashType &&& 0x1f) == SIGHASH_NONE) i) :
    (List.range (if (nHashType &&& SIGHASH_ANYONECANPAY) != 0 then 1 else txTo.vin.length)).map
        (make txTo scriptCode nIn nHashType).serializeInput =
      (if (nHashType &&& SIGHASH_ANYONECANPAY) != 0 then [P.getD nIn absentTxIn] else P).map serializeTxIn := by
  by_cases hacp : (nHashType &&& SIGHASH_ANYONECANPAY) != 0
  · rw [if_pos hacp, if_pos hacp, List.range_one, List.map_singleton, List.map_singleton, serializeInput_make hsc,
      if_pos hacp, hP nIn hIn]
  · rw [if_neg hacp, if_neg hacp]
    refine map_range_eq_map absentTxIn hlen.symm fun i hi => ?_
    rw [serializeInput_make hsc, if_neg hacp, hP i hi]

/-- The output loop writes the outputs of the copy. -/
theorem serializeOutputs_make {Q : List CTxOut} {n : Nat} (hlen : n = Q.length)
    (hQ : ∀ j < n, Q.getD j CTxOut.null =
      if (nHashType &&& 0x1f) == SIGHASH_SINGLE ∧ j ≠ nIn then CTxOut.null else txTo.vout.getD j CTxOut.null) :
    (List.range n).map (make txTo scriptCode nIn nHashType).serializeOutput = Q.map serializeTxOut :=
  map_range_eq_map CTxOut.null hlen fun j hj => by rw [serializeOutput_make, hQ j hj]

/-- The serializer writes the copy whose inputs and outputs its loops write. -/
theorem serialize_make {P : List CTxIn} {Q : List CTxOut} (hsc : serializeScriptCode scriptCode = serializeBytes sc)
    (hIn : nIn < txTo.vin.length) (hlen : P.length = txTo.vin.length)
    (hP : ∀ i < txTo.vin.length, P.getD i absentTxIn = copyInput txTo.vin sc nIn
      ((nHashType &&& 0x1f) == SIGHASH_SINGLE || (nHashType &&& 0x1f) == SIGHASH_NONE) i)
    (hQlen : (if (nHashType &&& 0x1f) == SIGHASH_NONE then 0
      else if (nHashType &&& 0x1f) == SIGHASH_SINGLE then nIn + 1 else txTo.vout.length) = Q.length)
    (hQ : ∀ j < Q.length, Q.getD j CTxOut.null =
      if (nHashType &&& 0x1f) == SIGHASH_SINGLE ∧ j ≠ nIn then CTxOut.null else txTo.vout.getD j CTxOut.null) :
    (make txTo scriptCode nIn nHashType).serialize = serializeTransaction
      { txTo with vin := if (nHashType &&& SIGHASH_ANYONECANPAY) != 0 then [P.getD nIn absentTxIn] else P,
                  vout := Q } false := by
  apply serialize_eq
  · simpa using serializeInputs_make hsc hIn hlen hP
  · by_cases hacp : (nHashType &&& SIGHASH_ANYONECANPAY != 0) = true
    · have ht : (make txTo scriptCode nIn nHashType).fAnyoneCanPay = true := hacp
      rw [if_pos ht, if_pos hacp]
      rfl
    · have ht : (make txTo scriptCode nIn nHashType).fAnyoneCanPay = false := Bool.eq_false_iff.mpr hacp
      rw [if_neg (ne_true_of_eq_false ht), if_neg hacp, hlen]
      rfl
  · simpa using serializeOutputs_make hQlen fun j hj => hQ j (hQlen ▸ hj)
  · simpa using hQlen

end CTransactionSignatureSerializer

theorem single_of_none {nHashType : Int32} (h : ((nHashType &&& 0x1f) == SIGHASH_NONE) = true) :
    ((nHashType &&& 0x1f) == SIGHASH_SINGLE) = false := by
  rw [beq_iff_eq] at h
  rw [h]
  decide

open CTransactionSignatureSerializer in
theorem signatureHash_eq_signatureHashOld (orc : HashOracles) (scriptCode : CScript) (txTo : CTransaction)
    (nIn : Nat) (nHashType : Int32) (amount : CAmount) (cache : Option PrecomputedTransactionData)
    (hparse : parsesFrom scriptCode 0 = true) (hIn : nIn < txTo.vin.length) :
    signatureHash orc scriptCode txTo nIn nHashType amount .BASE cache =
      signatureHashOld orc scriptCode txTo nIn nHashType := by
  have hsc := serializeScriptCode_eq hparse
  unfold signatureHash signatureHashOld
  rw [if_neg (by decide), if_neg (show ¬txTo.vin.length ≤ nIn by omega), findAndDelete_codeSeparator]
  dsimp only
  have hcopy : ∀ atWill : Bool, ∀ i < txTo.vin.length,
      (if atWill then zeroOtherSequences (blankScriptSigs txTo.vin nIn (dropCodeSeparators scriptCode 0)) nIn
        else blankScriptSigs txTo.vin nIn (dropCodeSeparators scriptCode 0)).getD i absentTxIn =
      copyInput txTo.vin (dropCodeSeparators scriptCode 0) nIn atWill i :=
    fun atWill i hi => getD_copyInputs atWill absentTxIn hi
  by_cases hN : ((nHashType &&& 0x1f) == SIGHASH_NONE) = true
  · -- SIGHASH_NONE: no outputs, the other sequences zero
    have hS := single_of_none hN
    rw [if_neg (by simp [hS]), if_pos hN]
    dsimp only
    congr 2
    exact CTransactionSignatureSerializer.serialize_make hsc hIn (by simp) (by simpa [hS, hN] using hcopy true)
      (by simp [hN]) (by simp)
  · by_cases hS : ((nHashType &&& 0x1f) == SIGHASH_SINGLE) = true
    · by_cases hout : txTo.vout.length ≤ nIn
      · -- SIGHASH_SINGLE without its output signs ONE on both sides
        rw [if_pos (by simp [hS, hout]), if_neg hN, if_pos hS, if_pos hout]
      · -- SIGHASH_SINGLE: the outputs up to the input's, the earlier ones null
        rw [if_neg (by simp [hout]), if_neg hN, if_pos hS, if_neg hout]
        dsimp only
        have hlt : nIn < txTo.vout.length := by omega
        congr 2
        refine CTransactionSignatureSerializer.serialize_make hsc hIn (by simp) (by simpa [hS] using hcopy true)
          (by simp [hN, hS, length_singleOutputs hlt]) fun j hj => ?_
        rw [length_singleOutputs hlt] at hj
        rw [getD_singleOutputs _ hlt (by omega)]
        by_cases hj' : j < nIn
        · simp [hS, hj', Nat.ne_of_lt hj']
        · simp [show j = nIn by omega]
    · -- SIGHASH_ALL and the other types: every output, the sequences kept
      rw [if_neg (by simp [hS]), if_neg hN, if_neg hS]
      dsimp only
      congr 2
      exact CTransactionSignatureSerializer.serialize_make hsc hIn (by simp)
        (by simpa [hS, hN] using hcopy false) (by simp [hN, hS]) (fun j _ => by simp [hS])

/-- A version-1 spend of one output, paying to an `OP_RETURN`. -/
def legacySpend : CTransaction := ⟨[⟨⟨7, 0⟩, [], 0xffffffff, []⟩], [⟨COIN, [OP_RETURN]⟩], 1, 1760000000, 0⟩

/-- A pay-to-pubkey-hash script (DUP HASH160 <20 bytes> EQUALVERIFY CHECKSIG) behind a code
separator. -/
def separatedScript : CScript :=
  OP_CODESEPARATOR :: [0x76, 0xa9, 0x14] ++ List.replicate 20 7 ++ [0x88, 0xac]

/-- A push of two bytes of which only one is there. -/
def truncatedPush : CScript := [0x02, 0xaa]

/-- The legacy digest against `SignatureHashOld`: the two agree on every script code that parses
to its end. On the truncated push `02 aa` the serializer writes the script code's length `2` but
copies only the byte before the failed `GetOp`, while the reference keeps the script whole; so
whatever the hash function, the digest hashes a preimage one byte shorter than the reference's. -/
theorem signatureHash_drops_truncated_push :
    (∀ (orc : HashOracles) (scriptCode : CScript) (txTo : CTransaction) (nIn : Nat) (nHashType : Int32)
      (amount : CAmount) (cache : Option PrecomputedTransactionData), parsesFrom scriptCode 0 = true →
      nIn < txTo.vin.length →
      signatureHash orc scriptCode txTo nIn nHashType amount .BASE cache =
        signatureHashOld orc scriptCode txTo nIn nHashType) ∧
    parsesFrom truncatedPush 0 = false ∧
    ∀ orc : HashOracles, ∃ p q : Bytes,
      signatureHash orc truncatedPush legacySpend 0 SIGHASH_ALL 0 .BASE none = orc.hash256 p ∧
        signatureHashOld orc truncatedPush legacySpend 0 SIGHASH_ALL = orc.hash256 q ∧ p.length + 1 = q.length :=
  ⟨signatureHash_eq_signatureHashOld, by decide +kernel, fun _ => ⟨_, _, rfl, rfl, by decide +kernel⟩⟩

theorem signatureHash_drops_truncated_push_separated :
    parsesFrom separatedScript 0 = true ∧ 0 < legacySpend.vin.length ∧
      signatureHash exampleHashes separatedScript legacySpend 0 SIGHASH_ALL 0 .BASE none =
        signatureHashOld exampleHashes separatedScript legacySpend 0 SIGHASH_ALL :=
  ⟨by decide +kernel, by decide,
    signatureHash_drops_truncated_push.1 exampleHashes separatedScript legacySpend 0 SIGHASH_ALL 0 none
      (by decide +kernel) (by decide)⟩

end BlackcoinMore.Sighash
