import BlackcoinMore.Coins
import BlackcoinMore.Compressor

/-!
# Coin records

`Coin::Serialize` of `coins.h`, the record of an unspent output in the coins database, and
`TxInUndoFormatter` of `undo.h`, the record of a spent one in the undo files. Both pack the
height with Blackcoin's two flags into one `VARINT`; the undo record keeps a dummy byte after
it for coins above height zero.
-/
namespace BlackcoinMore.CoinSerialize
open Primitives ByteCodec Serialize Coins Compressor

/-- The first VARINT of a coin record: height, coinbase bit and coinstake bit, as a `uint32_t`. -/
def coinCode (nHeight : Nat) (fCoinBase fCoinStake : Bool) : Nat :=
  (nHeight * 4 + (if fCoinBase then 1 else 0) + (if fCoinStake then 2 else 0)) % 2 ^ 32

/-- `Coin::Serialize`; a spent coin fails its assertion. -/
def serializeCoin (orc : PubKeyOracle) (c : Coin) : Except String Bytes :=
  if c.isSpent then .error "Assertion `!IsSpent()' failed."
  else .ok (writeVarInt (coinCode c.nHeight c.fCoinBase c.fCoinStake) ++ writeVarInt c.nTime.toNat ++
    txOutCompressionSer orc c.out)

def unserializeCoin (orc : PubKeyOracle) : Reader Coin := do
  let code ← readVarInt UINT32_MAX
  let nHeight := code >>> 2
  let fCoinBase := code &&& 1 != 0
  let fCoinStake := (code >>> 1) &&& 1 != 0
  let nTime ← readVarInt UINT32_MAX
  let out ← txOutCompressionUnser orc
  pure ⟨out, fCoinBase, fCoinStake, nHeight, nTime.toUInt32⟩

/-- `TxInUndoFormatter::Ser`. -/
def txInUndoSer (orc : PubKeyOracle) (txout : Coin) : Bytes :=
  writeVarInt (coinCode txout.nHeight txout.fCoinBase txout.fCoinStake) ++
    -- Required to maintain compatibility with older undo format.
    (if txout.nHeight > 0 then [0] else []) ++
    writeVarInt txout.nTime.toNat ++ txOutCompressionSer orc txout.out

/-- `TxInUndoFormatter::Unser`. -/
def txInUndoUnser (orc : PubKeyOracle) : Reader Coin := do
  let nCode ← readVarInt UINT32_MAX
  let nHeight := nCode >>> 2
  let fCoinBase := nCode &&& 1 != 0
  let fCoinStake := (nCode >>> 1) &&& 1 != 0
  if nHeight > 0 then
    -- Old versions stored the version number for the last spend of a transaction's outputs.
    let _nVersionDummy ← readVarInt UINT32_MAX
  let nTime ← readVarInt UINT32_MAX
  let out ← txOutCompressionUnser orc
  pure ⟨out, fCoinBase, fCoinStake, nHeight, nTime.toUInt32⟩

section RoundTrip
variable {orc : PubKeyOracle}

/-- Below `2 ^ 30` the code keeps the height and both flags apart. -/
theorem coinCode_spec {nHeight : Nat} (h : nHeight < 2 ^ 30) (fCoinBase fCoinStake : Bool) :
    coinCode nHeight fCoinBase fCoinStake ≤ UINT32_MAX ∧
      coinCode nHeight fCoinBase fCoinStake >>> 2 = nHeight ∧
      (coinCode nHeight fCoinBase fCoinStake &&& 1 != 0) = fCoinBase ∧
      ((coinCode nHeight fCoinBase fCoinStake >>> 1) &&& 1 != 0) = fCoinStake := by
  unfold coinCode UINT32_MAX
  rw [Nat.shiftRight_eq_div_pow, Nat.shiftRight_eq_div_pow, Nat.and_one_is_mod, Nat.and_one_is_mod]
  cases fCoinBase <;> cases fCoinStake <;> simp <;> omega

theorem isSpent_of_nonneg {c : Coin} (h0 : 0 ≤ c.out.nValue) : c.isSpent = false := by
  have hne : c.out.nValue ≠ -1 := fun h => absurd (h ▸ h0) (by decide)
  simpa [Coin.isSpent, CTxOut.isNull] using hne

theorem toNat_nTime_le (t : UInt32) : t.toNat ≤ UINT32_MAX := by
  have := t.toNat_lt
  unfold UINT32_MAX
  omega

theorem unserializeCoin_ser (hdec : orc.Decompresses) {c : Coin} (hh : c.nHeight < 2 ^ 30)
    (h0 : 0 ≤ c.out.nValue) (h60 : c.out.nValue.toInt < 2 ^ 60)
    (hs : c.out.scriptPubKey.length ≤ MAX_SCRIPT_SIZE) (rest : Bytes) :
    unserializeCoin orc (writeVarInt (coinCode c.nHeight c.fCoinBase c.fCoinStake) ++
      writeVarInt c.nTime.toNat ++ txOutCompressionSer orc c.out ++ rest) = .ok (c, rest) := by
  obtain ⟨hle, hh', hcb, hcs⟩ := coinCode_spec hh c.fCoinBase c.fCoinStake
  unfold unserializeCoin
  rw [List.append_assoc, List.append_assoc, bind_of_ok (readVarInt_writeVarInt hle _)]
  rw [bind_of_ok (readVarInt_writeVarInt (toNat_nTime_le _) _),
    bind_of_ok (txOutCompressionUnser_ser hdec h0 h60 hs rest), hh', hcb, hcs]
  simp

theorem txInUndoUnser_ser (hdec : orc.Decompresses) {c : Coin} (hh : c.nHeight < 2 ^ 30)
    (h0 : 0 ≤ c.out.nValue) (h60 : c.out.nValue.toInt < 2 ^ 60)
    (hs : c.out.scriptPubKey.length ≤ MAX_SCRIPT_SIZE) (rest : Bytes) :
    txInUndoUnser orc (txInUndoSer orc c ++ rest) = .ok (c, rest) := by
  obtain ⟨hle, hh', hcb, hcs⟩ := coinCode_spec hh c.fCoinBase c.fCoinStake
  unfold txInUndoSer txInUndoUnser
  rw [List.append_assoc, List.append_assoc, List.append_assoc, bind_of_ok (readVarInt_writeVarInt hle _)]
  simp only [hh', hcb, hcs]
  by_cases hpos : c.nHeight > 0
  · -- the dummy byte reads as the VARINT zero
    have hzero : ([0] : Bytes) = writeVarInt 0 := by
      rw [writeVarInt_of_lt (by decide)]
      rfl
    rw [if_pos hpos, if_pos hpos, hzero, bind_of_ok (readVarInt_writeVarInt (Nat.zero_le _) _)]
    rw [bind_of_ok (readVarInt_writeVarInt (toNat_nTime_le _) _),
      bind_of_ok (txOutCompressionUnser_ser hdec h0 h60 hs rest)]
    simp
  · rw [if_neg hpos, if_neg hpos, List.nil_append, bind_of_ok (readVarInt_writeVarInt (toNat_nTime_le _) _),
      bind_of_ok (txOutCompressionUnser_ser hdec h0 h60 hs rest)]
    simp

end RoundTrip

/-- Both records of a coin read back as the coin, consuming exactly their bytes. -/
theorem coinRecords_roundTrip (orc : PubKeyOracle) (hdec : orc.Decompresses) (c : Coin)
    (hh : c.nHeight < 2 ^ 30) (h0 : 0 ≤ c.out.nValue) (h60 : c.out.nValue.toInt < 2 ^ 60)
    (hs : c.out.scriptPubKey.length ≤ MAX_SCRIPT_SIZE) (rest : Bytes) :
    (∃ bytes, serializeCoin orc c = .ok bytes ∧ unserializeCoin orc (bytes ++ rest) = .ok (c, rest)) ∧
      txInUndoUnser orc (txInUndoSer orc c ++ rest) = .ok (c, rest) := by
  refine ⟨⟨_, ?_, unserializeCoin_ser hdec hh h0 h60 hs rest⟩, txInUndoUnser_ser hdec hh h0 h60 hs rest⟩
  simp [serializeCoin, isSpent_of_nonneg h0]

/-- A key oracle that accepts no uncompressed key, so that nothing is asked of `Decompress`. -/
def noFullKeys : PubKeyOracle where
  isFullyValid _ := false
  decompress _ := none
  decompress_length _ _ h := by cases h

/-- A pay-to-pubkey-hash coin of a coinbase at height 100. -/
def p2pkhCoin : Coin :=
  ⟨⟨COIN, [OP_DUP, OP_HASH160, 20] ++ List.replicate 20 7 ++ [OP_EQUALVERIFY, OP_CHECKSIG]⟩, true, false, 100,
    1760000000⟩

theorem coinRecords_roundTrip_p2pkh :
    (∃ bytes, serializeCoin noFullKeys p2pkhCoin = .ok bytes ∧
        unserializeCoin noFullKeys (bytes ++ []) = .ok (p2pkhCoin, [])) ∧
      txInUndoUnser noFullKeys (txInUndoSer noFullKeys p2pkhCoin ++ []) = .ok (p2pkhCoin, []) :=
  coinRecords_roundTrip noFullKeys (fun _ _ _ h => by cases h) p2pkhCoin (by decide) (by decide)
    (by decide) (by decide) []

end BlackcoinMore.CoinSerialize
