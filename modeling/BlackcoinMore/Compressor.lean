import BlackcoinMore.Serialize

/-!
# Compressed amounts and scripts

`VARINT` of `serialize.h`, and the compact forms of `compressor.h` and `compressor.cpp` in which
the coins database and the undo files store outputs: an amount with its trailing decimal zeros
folded into one digit, and a script that matches one of six templates as its hash or key. The
secp256k1 checks and decompression of public keys are a parameter.
-/
namespace BlackcoinMore.Compressor
open Primitives ByteCodec Serialize

def UINT32_MAX : Nat := 2 ^ 32 - 1
def UINT64_MAX : Nat := 2 ^ 64 - 1

/-- The digits `WriteVarInt` puts in `tmp` from `tmp[len]` on: seven bits each, lowest first,
with one subtracted from all but the lowest and the high bit set on them. -/
def varIntTmp (n len : Nat) : List UInt8 :=
  let b := ((n &&& 0x7F) ||| (if len ≠ 0 then 0x80 else 0x00)).toUInt8
  if n ≤ 0x7F then [b] else b :: varIntTmp ((n >>> 7) - 1) (len + 1)
termination_by n
decreasing_by
  rw [Nat.shiftRight_eq_div_pow]
  omega

/-- `WriteVarInt`: the digits, highest first. -/
def writeVarInt (n : Nat) : Bytes := (varIntTmp n 0).reverse

/-- The loop of `ReadVarInt<I>` from the value `n` read so far; `maxI` is the largest `I`. -/
def readVarIntFrom (maxI : Nat) : Nat → Bytes → Except String (Nat × Bytes)
  | _, [] => .error endOfData
  | n, chData :: rest =>
    if n > maxI >>> 7 then .error "ReadVarInt(): size too large"
    else
      let n := (n <<< 7) ||| (chData.toNat &&& 0x7F)
      if chData.toNat &&& 0x80 ≠ 0 then
        if n = maxI then .error "ReadVarInt(): size too large" else readVarIntFrom maxI (n + 1) rest
      else .ok (n, rest)

def readVarInt (maxI : Nat) : Reader Nat := readVarIntFrom maxI 0

section VarInt

theorem digit_bits : ∀ d < 128, d &&& 0x7F = d ∧ d &&& 0x80 = 0 ∧ (d ||| 0x80) &&& 0x7F = d ∧
    (d ||| 0x80) &&& 0x80 = 0x80 ∧ d ||| 0x80 = d + 128 := by
  decide

theorem varIntTmp_succ (m len : Nat) : varIntTmp m (len + 1) = varIntTmp m 1 := by
  induction m using Nat.strong_induction_on generalizing len with
  | _ m ih =>
    rw [varIntTmp.eq_def m (len + 1), varIntTmp.eq_def m 1]
    by_cases hm : m ≤ 0x7F
    · simp [hm]
    · have hlt : (m >>> 7) - 1 < m := by rw [Nat.shiftRight_eq_div_pow]; omega
      simp [hm, ih _ hlt]

theorem shiftLeft_seven_or {a d : Nat} (hd : d < 128) : (a <<< 7) ||| d = a * 128 + d := by
  rw [← @Nat.shiftLeft_add_eq_or_of_lt 7 d hd a, Nat.shiftLeft_eq]

theorem toNat_toUInt8_of_lt {x : Nat} (hx : x < 256) : x.toUInt8.toNat = x :=
  UInt8.toNat_ofNat_of_lt' hx

variable {maxI : Nat}

/-- A continuation digit `d`: the value so far is shifted in, `d` added, and one more. -/
theorem readVarIntFrom_cont {a d : Nat} {rest : Bytes} (ha : a ≤ maxI >>> 7) (hd : d < 128)
    (hne : a * 128 + d ≠ maxI) :
    readVarIntFrom maxI a ((d ||| 0x80).toUInt8 :: rest) = readVarIntFrom maxI (a * 128 + d + 1) rest := by
  obtain ⟨-, -, hlow, hcont, hsum⟩ := digit_bits d hd
  have hb : ((d ||| 0x80).toUInt8).toNat = d ||| 0x80 := toNat_toUInt8_of_lt (by omega)
  simp only [readVarIntFrom, hb, hlow, hcont, shiftLeft_seven_or hd, hne]
  simp [Nat.not_lt.mpr ha]

/-- The last digit `d` ends the number. -/
theorem readVarIntFrom_last {a d : Nat} {rest : Bytes} (ha : a ≤ maxI >>> 7) (hd : d < 128) :
    readVarIntFrom maxI a (d.toUInt8 :: rest) = .ok (a * 128 + d, rest) := by
  obtain ⟨hlow, hcont, -⟩ := digit_bits d hd
  have hb : d.toUInt8.toNat = d := toNat_toUInt8_of_lt (by omega)
  simp only [readVarIntFrom, hb, hlow, hcont, shiftLeft_seven_or hd]
  simp [Nat.not_lt.mpr ha]

/-- The continuation digits of `m`, read from nothing, leave `m + 1`. -/
theorem readVarIntFrom_leading : ∀ m, m + 1 ≤ maxI >>> 7 → ∀ rest : Bytes,
    readVarIntFrom maxI 0 ((varIntTmp m 1).reverse ++ rest) = readVarIntFrom maxI (m + 1) rest := by
  intro m
  induction m using Nat.strong_induction_on with
  | _ m ih =>
    intro hm rest
    have hmax : maxI >>> 7 ≤ maxI := Nat.shiftRight_le maxI 7
    rw [varIntTmp.eq_def]
    by_cases hsmall : m ≤ 0x7F
    · have hlow : m &&& 0x7F = m := (digit_bits m (by omega)).1
      simp only [hsmall, if_true, hlow, ne_eq, one_ne_zero, not_false_eq_true, List.reverse_singleton,
        List.singleton_append]
      rw [readVarIntFrom_cont (Nat.zero_le _) (by omega) (by omega), Nat.zero_mul, Nat.zero_add]
    · -- the digits above the lowest are those of `m / 128 - 1`, read first
      have hshift : m >>> 7 = m / 128 := Nat.shiftRight_eq_div_pow m 7
      have hlt : m / 128 - 1 < m := by omega
      have hlow : m &&& 0x7F = m % 128 := Nat.and_two_pow_sub_one_eq_mod m 7
      simp only [hsmall, if_false, hshift, varIntTmp_succ, List.reverse_cons, List.append_assoc,
        List.singleton_append, hlow, ne_eq, one_ne_zero, not_false_eq_true, if_true]
      rw [ih _ hlt (by omega)]
      have hd : m % 128 < 128 := Nat.mod_lt _ (by omega)
      rw [readVarIntFrom_cont (by omega) hd (by omega)]
      congr 1
      omega

/-- `ReadVarInt` reads back what `WriteVarInt` wrote, for any value its type holds. -/
theorem readVarInt_writeVarInt {n : Nat} (hn : n ≤ maxI) (rest : Bytes) :
    readVarInt maxI (writeVarInt n ++ rest) = .ok (n, rest) := by
  unfold readVarInt writeVarInt
  rw [varIntTmp.eq_def]
  have hmax : maxI >>> 7 = maxI / 128 := Nat.shiftRight_eq_div_pow maxI 7
  by_cases hsmall : n ≤ 0x7F
  · have hlow : n &&& 0x7F = n := (digit_bits n (by omega)).1
    simp only [hsmall, if_true, hlow, ne_eq, not_true_eq_false, if_false, Nat.or_zero,
      List.reverse_singleton, List.singleton_append]
    rw [readVarIntFrom_last (Nat.zero_le _) (by omega), Nat.zero_mul, Nat.zero_add]
  · -- the digits above the lowest are the continuation digits of `n / 128 - 1`
    have hshift : n >>> 7 = n / 128 := Nat.shiftRight_eq_div_pow n 7
    have hlow : n &&& 0x7F = n % 128 := Nat.and_two_pow_sub_one_eq_mod n 7
    simp only [hsmall, if_false, hshift, varIntTmp_succ, List.reverse_cons, List.append_assoc,
      List.singleton_append, hlow, ne_eq, not_true_eq_false, Nat.or_zero]
    rw [readVarIntFrom_leading _ (by omega), readVarIntFrom_last (by omega) (Nat.mod_lt _ (by omega))]
    congr 2
    omega

-- two rows of the table in `serialize.h`
example : writeVarInt 16511 = [0xFF, 0x7F] := by decide +kernel
example : readVarInt UINT64_MAX [0x8E, 0xFE, 0xFE, 0xFF, 0x00] = .ok (2 ^ 32, []) := by decide

theorem writeVarInt_of_lt {n : Nat} (hn : n < 128) : writeVarInt n = [n.toUInt8] := by
  have hlow : n &&& 0x7F = n := (digit_bits n hn).1
  simp [writeVarInt, varIntTmp, Nat.le_of_lt_succ hn, hlow]

end VarInt

/-- The loop of `CompressAmount`: divide out tens, at most nine. -/
def compressAmountLoop (n e : Nat) : Nat × Nat :=
  if n % 10 = 0 ∧ e < 9 then compressAmountLoop (n / 10) (e + 1) else (n, e)
termination_by 9 - e
decreasing_by omega

/-- `CompressAmount` on `uint64_t`. The `assert(d >= 1 && d <= 9)` always holds: the loop
stops below nine tens only at a last digit other than zero. -/
def compressAmount (n : Nat) : Nat :=
  if n = 0 then 0
  else
    let (n, e) := compressAmountLoop n 0
    if e < 9 then
      let d := n % 10
      let n := n / 10
      (1 + (n * 9 + d - 1) * 10 + e) % 2 ^ 64
    else (1 + (n - 1) * 10 + 9) % 2 ^ 64

/-- `while (e) { n *= 10; e--; }` on `uint64_t`. -/
def timesTen : Nat → Nat → Nat
  | n, 0 => n
  | n, e + 1 => timesTen (n * 10 % 2 ^ 64) e

def decompressAmount (x : Nat) : Nat :=
  if x = 0 then 0
  else
    let x := x - 1
    let e := x % 10
    let x := x / 10
    let n := if e < 9 then (x / 9 * 10 + (x % 9 + 1)) % 2 ^ 64 else x + 1
    timesTen n e

section Amount

theorem compressAmountLoop_spec (n e : Nat) (he : e ≤ 9) :
    n * 10 ^ e = (compressAmountLoop n e).1 * 10 ^ (compressAmountLoop n e).2 ∧
      (compressAmountLoop n e).2 ≤ 9 ∧
      ((compressAmountLoop n e).2 < 9 → (compressAmountLoop n e).1 % 10 ≠ 0) ∧
      (n ≠ 0 → (compressAmountLoop n e).1 ≠ 0) := by
  fun_induction compressAmountLoop n e with
  | case1 n e hz ih =>
    obtain ⟨h1, h2, h3, h4⟩ := ih (by omega)
    refine ⟨?_, h2, h3, fun hn => h4 (by omega)⟩
    rw [← h1, Nat.pow_succ]
    have : n = n / 10 * 10 := (Nat.div_mul_cancel (Nat.dvd_of_mod_eq_zero hz.1)).symm
    calc n * 10 ^ e = n / 10 * 10 * 10 ^ e := by rw [← this]
      _ = n / 10 * (10 ^ e * 10) := by ring
  | case2 n e hz =>
    refine ⟨rfl, he, fun h9 => fun h0 => hz ⟨h0, h9⟩, id⟩

theorem timesTen_eq : ∀ (e n : Nat), n * 10 ^ e < 2 ^ 64 → timesTen n e = n * 10 ^ e
  | 0, n, _ => by simp [timesTen]
  | e + 1, n, h => by
    have hlt : n * 10 < 2 ^ 64 := by
      calc n * 10 ≤ n * 10 ^ (e + 1) := Nat.mul_le_mul_left _ (Nat.le_self_pow (by omega) _)
        _ < 2 ^ 64 := h
    rw [timesTen, Nat.mod_eq_of_lt hlt, timesTen_eq e (n * 10) (by rw [Nat.mul_assoc, ← Nat.pow_succ']; exact h),
      Nat.mul_assoc, ← Nat.pow_succ']

/-- Amounts below `2 ^ 60` compress without overflow and decompress to themselves. -/
theorem decompressAmount_compressAmount {n : Nat} (hn : n < 2 ^ 60) :
    decompressAmount (compressAmount n) = n ∧ compressAmount n < 2 ^ 64 := by
  by_cases h0 : n = 0
  · subst h0
    simp [compressAmount, decompressAmount]
  obtain ⟨hm, he9, hmd, hm0⟩ := compressAmountLoop_spec n 0 (by omega)
  rcases hloop : compressAmountLoop n 0 with ⟨m, e⟩
  rw [hloop] at hm he9 hmd hm0
  simp only [pow_zero, Nat.mul_one] at hm he9 hmd hm0
  have hmn : m ≤ n := hm ▸ Nat.le_mul_of_pos_right m (Nat.pow_pos (by omega))
  have hm0 := hm0 h0
  simp only [compressAmount, h0, if_false, hloop]
  by_cases he : e < 9
  · -- `m` ends in a digit `d` other than zero
    have hd := hmd he
    have hc : 1 + (m / 10 * 9 + m % 10 - 1) * 10 + e < 2 ^ 64 := by omega
    have hx1 : (1 + (m / 10 * 9 + m % 10 - 1) * 10 + e - 1) % 10 = e := by omega
    have hx2 : (1 + (m / 10 * 9 + m % 10 - 1) * 10 + e - 1) / 10 = m / 10 * 9 + m % 10 - 1 := by omega
    have hx3 : (m / 10 * 9 + m % 10 - 1) / 9 * 10 + ((m / 10 * 9 + m % 10 - 1) % 9 + 1) = m := by omega
    simp only [he, if_true, Nat.mod_eq_of_lt hc, decompressAmount, hx1, hx2, hx3]
    refine ⟨?_, hc⟩
    rw [if_neg (by omega), Nat.mod_eq_of_lt (by omega), timesTen_eq e m (by omega), hm]
  · -- nine tens were divided out
    have he : e = 9 := by omega
    subst he
    have hc : 1 + (m - 1) * 10 + 9 < 2 ^ 64 := by omega
    have hx1 : (1 + (m - 1) * 10 + 9 - 1) % 10 = 9 := by omega
    have hx2 : (1 + (m - 1) * 10 + 9 - 1) / 10 + 1 = m := by omega
    simp only [lt_irrefl, if_false, Nat.mod_eq_of_lt hc, decompressAmount, hx1, hx2]
    refine ⟨?_, hc⟩
    rw [if_neg (by omega), timesTen_eq 9 m (by omega), hm]

example : compressAmount 50000000 = 48 ∧ decompressAmount 48 = 50000000 := by decide +kernel

/-- From about `2 ^ 64 / 90` on, `1 + (n*9 + d - 1)*10 + e` wraps in `uint64_t`: this amount,
below `MAX_MONEY`, gets the code of `10000` and decompresses to it. -/
theorem compressAmount_wraps_below_MAX_MONEY :
    (2049638230412172403 : Int) ≤ MAX_MONEY.toInt ∧
      compressAmount 2049638230412172403 = compressAmount 10000 ∧
      decompressAmount (compressAmount 2049638230412172403) = 10000 := by
  decide +kernel

end Amount

def OP_DUP : UInt8 := 0x76
def OP_EQUAL : UInt8 := 0x87
def OP_EQUALVERIFY : UInt8 := 0x88
def OP_HASH160 : UInt8 := 0xa9
def OP_CHECKSIG : UInt8 := 0xac

/-- What `compressor.cpp` uses of secp256k1 (`pubkey.cpp`). -/
structure PubKeyOracle where
  /-- `CPubKey::IsFullyValid` of a 65-byte key. -/
  isFullyValid : Bytes → Bool
  /-- `CPubKey::Decompress` of a 33-byte key: the 65-byte key, or `none` when it is not on
  the curve. -/
  decompress : Bytes → Option Bytes
  decompress_length : ∀ b pk, decompress b = some pk → pk.length = 65

/-- `IsToKeyID`: pay to pubkey hash; the hash. -/
def isToKeyID (script : Bytes) : Option Bytes :=
  if script.length = 25 ∧ script.getD 0 0 = OP_DUP ∧ script.getD 1 0 = OP_HASH160 ∧
      script.getD 2 0 = 20 ∧ script.getD 23 0 = OP_EQUALVERIFY ∧ script.getD 24 0 = OP_CHECKSIG then
    some ((script.drop 3).take 20)
  else none

/-- `IsToScriptID`: pay to script hash; the hash. -/
def isToScriptID (script : Bytes) : Option Bytes :=
  if script.length = 23 ∧ script.getD 0 0 = OP_HASH160 ∧ script.getD 1 0 = 20 ∧
      script.getD 22 0 = OP_EQUAL then
    some ((script.drop 2).take 20)
  else none

/-- `IsToPubKey`: pay to a compressed key, or to an uncompressed one that is fully valid;
the key. -/
def isToPubKey (orc : PubKeyOracle) (script : Bytes) : Option Bytes :=
  if script.length = 35 ∧ script.getD 0 0 = 33 ∧ script.getD 34 0 = OP_CHECKSIG ∧
      (script.getD 1 0 = 0x02 ∨ script.getD 1 0 = 0x03) then
    some ((script.drop 1).take 33)
  else if script.length = 67 ∧ script.getD 0 0 = 65 ∧ script.getD 66 0 = OP_CHECKSIG ∧
      script.getD 1 0 = 0x04 then
    -- if not fully valid, a case that would not be compressible
    if orc.isFullyValid ((script.drop 1).take 65) then some ((script.drop 1).take 65) else none
  else none

def compressScript (orc : PubKeyOracle) (script : Bytes) : Option Bytes :=
  match isToKeyID script with
  | some keyID => some (0x00 :: keyID)
  | none =>
    match isToScriptID script with
    | some scriptID => some (0x01 :: scriptID)
    | none =>
      match isToPubKey orc script with
      | some pubkey =>
        if pubkey.getD 0 0 = 0x02 ∨ pubkey.getD 0 0 = 0x03 then
          some (pubkey.getD 0 0 :: (pubkey.drop 1).take 32)
        else if pubkey.getD 0 0 = 0x04 then
          some ((0x04 ||| (pubkey.getD 64 0 &&& 0x01)) :: (pubkey.drop 1).take 32)
        else none
      | none => none

def getSpecialScriptSize (nSize : Nat) : Nat :=
  if nSize = 0 ∨ nSize = 1 then 20
  else if nSize = 2 ∨ nSize = 3 ∨ nSize = 4 ∨ nSize = 5 then 32
  else 0

def decompressScript (orc : PubKeyOracle) (nSize : Nat) (inp : Bytes) : Option Bytes :=
  match nSize with
  | 0x00 => some ([OP_DUP, OP_HASH160, 20] ++ inp.take 20 ++ [OP_EQUALVERIFY, OP_CHECKSIG])
  | 0x01 => some ([OP_HASH160, 20] ++ inp.take 20 ++ [OP_EQUAL])
  | 0x02 | 0x03 => some ([33, nSize.toUInt8] ++ inp.take 32 ++ [OP_CHECKSIG])
  | 0x04 | 0x05 =>
    match orc.decompress ((nSize - 2).toUInt8 :: inp.take 32) with
    | none => none
    -- `assert(pubkey.size() == 65)` holds by `decompress_length`
    | some pubkey => some ([65] ++ pubkey ++ [OP_CHECKSIG])
  | _ => none

section ScriptTemplates
variable {script h : Bytes}

theorem isToKeyID_eq_some (hs : isToKeyID script = some h) :
    h.length = 20 ∧ script = [OP_DUP, OP_HASH160, 20] ++ h ++ [OP_EQUALVERIFY, OP_CHECKSIG] := by
  unfold isToKeyID at hs
  split at hs
  next hc =>
    cases hs
    obtain ⟨hlen, h0, h1, h2, h23, h24⟩ := hc
    refine ⟨by simp [hlen], eq_append_of_getD 0 20 (by simp [hlen]) (fun i hi => ?_) (fun j hj => ?_)⟩
    · simp only [List.length_cons, List.length_nil] at hi
      interval_cases i <;> simpa
    · simp only [List.length_cons, List.length_nil] at hj
      interval_cases j <;> simpa
  next => cases hs

theorem isToScriptID_eq_some (hs : isToScriptID script = some h) :
    h.length = 20 ∧ script = [OP_HASH160, 20] ++ h ++ [OP_EQUAL] := by
  unfold isToScriptID at hs
  split at hs
  next hc =>
    cases hs
    obtain ⟨hlen, h0, h1, h22⟩ := hc
    refine ⟨by simp [hlen], eq_append_of_getD 0 20 (by simp [hlen]) (fun i hi => ?_) (fun j hj => ?_)⟩
    · simp only [List.length_cons, List.length_nil] at hi
      interval_cases i <;> simpa
    · simp only [List.length_cons, List.length_nil] at hj
      interval_cases j
      simpa
  next => cases hs

variable {orc : PubKeyOracle}

theorem isToPubKey_eq_some (hs : isToPubKey orc script = some h) :
    (h.length = 33 ∧ (h.getD 0 0 = 0x02 ∨ h.getD 0 0 = 0x03) ∧ script = [33] ++ h ++ [OP_CHECKSIG]) ∨
      (h.length = 65 ∧ h.getD 0 0 = 0x04 ∧ orc.isFullyValid h = true ∧
        script = [65] ++ h ++ [OP_CHECKSIG]) := by
  unfold isToPubKey at hs
  split at hs
  next hc =>
    cases hs
    obtain ⟨hlen, h0, h34, h1⟩ := hc
    refine .inl ⟨by simp [hlen], by simpa using h1,
      eq_append_of_getD 0 33 (by simp [hlen]) (fun i hi => ?_) (fun j hj => ?_)⟩
    · simp only [List.length_cons, List.length_nil] at hi
      interval_cases i
      simpa
    · simp only [List.length_cons, List.length_nil] at hj
      interval_cases j
      simpa
  next =>
    split at hs
    next hc =>
      obtain ⟨hlen, h0, h66, h1⟩ := hc
      split at hs
      next hv =>
        cases hs
        refine .inr ⟨by simp [hlen], by simpa using h1, hv,
          eq_append_of_getD 0 65 (by simp [hlen]) (fun i hi => ?_) (fun j hj => ?_)⟩
        · simp only [List.length_cons, List.length_nil] at hi
          interval_cases i
          simpa
        · simp only [List.length_cons, List.length_nil] at hj
          interval_cases j
          simpa
      next => cases hs
    next => cases hs

/-- What the round trip assumes of secp256k1: the compressed form of a fully valid uncompressed
key (its x coordinate, with the parity of y in the header) decompresses to that key. -/
def PubKeyOracle.Decompresses (orc : PubKeyOracle) : Prop :=
  ∀ pk : Bytes, pk.length = 65 → pk.getD 0 0 = 0x04 → orc.isFullyValid pk = true →
    orc.decompress ((if (pk.getD 64 0).toNat % 2 = 0 then 0x02 else 0x03) :: (pk.drop 1).take 32) = some pk

theorem toNat_parity_byte (b : UInt8) : (0x04 ||| (b &&& 0x01)).toNat = 4 + b.toNat % 2 := by
  have h4 : UInt8.toNat 4 = 4 := rfl
  have h1 : UInt8.toNat 1 = 1 := rfl
  rw [UInt8.toNat_or, UInt8.toNat_and, h4, h1, Nat.and_one_is_mod]
  rcases Nat.mod_two_eq_zero_or_one b.toNat with hb | hb <;> rw [hb] <;> rfl

/-- A compressed script is a template number below six, then the payload the number's size
says, which `DecompressScript` turns back into the script. -/
theorem compressScript_eq_some (hdec : orc.Decompresses) {compr : Bytes}
    (hc : compressScript orc script = some compr) :
    ∃ t payload, compr = t.toUInt8 :: payload ∧ t < 6 ∧ payload.length = getSpecialScriptSize t ∧
      decompressScript orc t payload = some script := by
  unfold compressScript at hc
  split at hc
  next keyID hk =>
    cases hc
    obtain ⟨hl, hs⟩ := isToKeyID_eq_some hk
    exact ⟨0, keyID, rfl, by decide, by simp [hl, getSpecialScriptSize],
      by simp [decompressScript, hs, List.take_of_length_le (Nat.le_of_eq hl)]⟩
  next =>
    split at hc
    next scriptID hs =>
      cases hc
      obtain ⟨hl, hs⟩ := isToScriptID_eq_some hs
      exact ⟨1, scriptID, rfl, by decide, by simp [hl, getSpecialScriptSize],
        by simp [decompressScript, hs, List.take_of_length_le (Nat.le_of_eq hl)]⟩
    next =>
      split at hc
      next pubkey hp =>
        rcases isToPubKey_eq_some hp with ⟨hl, h23, hs⟩ | ⟨hl, h4, hv, hs⟩
        · -- a compressed key is kept whole, its header as the template number
          obtain ⟨b, tl, rfl⟩ := List.exists_cons_of_length_pos (by omega : 0 < pubkey.length)
          simp only [List.getD_cons_zero, List.drop_one, List.tail_cons, List.length_cons] at hc h23 hl
          have htl : tl.length = 32 := by omega
          rw [if_pos h23, List.take_of_length_le (by omega)] at hc
          cases hc
          refine ⟨b.toNat, tl, by simp, ?_, ?_, ?_⟩ <;> rcases h23 with rfl | rfl
          all_goals simp [getSpecialScriptSize, decompressScript, hs, htl]
        · -- an uncompressed key keeps its x coordinate, the parity of y in the template number
          obtain ⟨b, tl, rfl⟩ := List.exists_cons_of_length_pos (by omega : 0 < pubkey.length)
          simp only [List.getD_cons_zero, List.length_cons] at h4 hl
          subst h4
          simp only [List.getD_cons_zero, List.drop_one, List.tail_cons] at hc
          rw [if_neg (by decide), if_pos trivial] at hc
          cases hc
          have hkey := hdec _ (by simp [hl]) rfl hv
          simp only [List.drop_one, List.tail_cons] at hkey
          -- the template number is 4 or 5, by the parity of y
          generalize (4 :: tl).getD 64 0 = y at hkey ⊢
          have ht := toNat_parity_byte y
          generalize (0x04 ||| (y &&& 0x01)) = c at ht ⊢
          have htl : (tl.take 32).length = 32 := by simp; omega
          refine ⟨c.toNat, tl.take 32, by simp, by omega, ?_, ?_⟩
          · rcases Nat.mod_two_eq_zero_or_one y.toNat with hb | hb <;> rw [ht, hb] <;>
              simp [getSpecialScriptSize, htl]
          · rcases Nat.mod_two_eq_zero_or_one y.toNat with hb | hb <;> rw [ht, hb] <;>
              simp only [hb, Nat.one_ne_zero, if_true, if_false] at hkey <;>
              simp [decompressScript, List.take_take, hkey, hs]
      next => cases hc

end ScriptTemplates

def nSpecialScripts : Nat := 6

/-- `DataStream::ignore`. -/
def ignore (n : Nat) : Reader Unit := fun s =>
  if n ≤ s.length then .ok ((), s.drop n) else .error "DataStream::ignore(): end of data"

/-- `ScriptCompression::Ser`. -/
def scriptCompressionSer (orc : PubKeyOracle) (script : Bytes) : Bytes :=
  match compressScript orc script with
  | some compr => compr
  | none => writeVarInt (script.length + nSpecialScripts) ++ script

/-- `ScriptCompression::Unser`, into a fresh script: one whose key does not decompress is left
empty. -/
def scriptCompressionUnser (orc : PubKeyOracle) : Reader Bytes := do
  let nSize ← readVarInt UINT32_MAX
  if nSize < nSpecialScripts then
    let vch ← readBytes endOfData (getSpecialScriptSize nSize)
    pure ((decompressScript orc nSize vch).getD [])
  else
    let nSize := nSize - nSpecialScripts
    if nSize > MAX_SCRIPT_SIZE then
      -- Overly long script, replace with a short invalid one
      ignore nSize
      pure [OP_RETURN]
    else readBytes endOfData nSize

/-- `AmountCompression::Ser`: the `int64_t` amount is taken as `uint64_t`. -/
def amountCompressionSer (val : CAmount) : Bytes := writeVarInt (compressAmount val.toUInt64.toNat)

def amountCompressionUnser : Reader CAmount := do
  let v ← readVarInt UINT64_MAX
  pure (decompressAmount v).toUInt64.toInt64

def txOutCompressionSer (orc : PubKeyOracle) (out : CTxOut) : Bytes :=
  amountCompressionSer out.nValue ++ scriptCompressionSer orc out.scriptPubKey

def txOutCompressionUnser (orc : PubKeyOracle) : Reader CTxOut := do
  let nValue ← amountCompressionUnser
  let scriptPubKey ← scriptCompressionUnser orc
  pure ⟨nValue, scriptPubKey⟩

section RoundTrip
variable {orc : PubKeyOracle}

theorem scriptCompressionUnser_ser (hdec : orc.Decompresses) {script : Bytes}
    (hs : script.length ≤ MAX_SCRIPT_SIZE) (rest : Bytes) :
    scriptCompressionUnser orc (scriptCompressionSer orc script ++ rest) = .ok (script, rest) := by
  unfold scriptCompressionSer scriptCompressionUnser
  split
  next compr hc =>
    -- a template: its number is one VARINT byte, then the payload
    obtain ⟨t, payload, rfl, ht, hl, hd⟩ := compressScript_eq_some hdec hc
    have hw : t.toUInt8 :: payload ++ rest = writeVarInt t ++ (payload ++ rest) := by
      rw [writeVarInt_of_lt (by omega)]
      rfl
    rw [hw, bind_of_ok (readVarInt_writeVarInt (by unfold UINT32_MAX; omega) _)]
    rw [if_pos (by unfold nSpecialScripts; omega), ← hl, bind_of_ok (readBytes_append _ _), hd]
    rfl
  next hc =>
    -- any other script: its size past the templates, then its bytes
    rw [List.append_assoc, bind_of_ok (readVarInt_writeVarInt (by unfold UINT32_MAX MAX_SCRIPT_SIZE nSpecialScripts at *; omega) _)]
    rw [if_neg (by omega), Nat.add_sub_cancel, if_neg (by omega)]
    exact readBytes_append _ _

theorem amountCompressionUnser_ser {val : CAmount} (h0 : 0 ≤ val) (h60 : val.toInt < 2 ^ 60) (rest : Bytes) :
    amountCompressionUnser (amountCompressionSer val ++ rest) = .ok (val, rest) := by
  have hn : val.toUInt64.toNat < 2 ^ 60 := by
    rw [Int64.toNat_toUInt64_of_le h0]
    have := Int64.toInt_eq_toNatClampNeg h0
    omega
  obtain ⟨hdc, hlt⟩ := decompressAmount_compressAmount hn
  unfold amountCompressionSer amountCompressionUnser
  rw [bind_of_ok (readVarInt_writeVarInt (by unfold UINT64_MAX; omega) rest), hdc]
  show Except.ok ((UInt64.ofNat val.toUInt64.toNat).toInt64, rest) = _
  rw [UInt64.ofNat_toNat, Int64.toInt64_toUInt64]

theorem txOutCompressionUnser_ser (hdec : orc.Decompresses) {out : CTxOut} (h0 : 0 ≤ out.nValue)
    (h60 : out.nValue.toInt < 2 ^ 60) (hs : out.scriptPubKey.length ≤ MAX_SCRIPT_SIZE) (rest : Bytes) :
    txOutCompressionUnser orc (txOutCompressionSer orc out ++ rest) = .ok (out, rest) := by
  unfold txOutCompressionSer txOutCompressionUnser
  rw [List.append_assoc, bind_of_ok (amountCompressionUnser_ser h0 h60 _),
    bind_of_ok (scriptCompressionUnser_ser hdec hs rest)]
  rfl

end RoundTrip

end BlackcoinMore.Compressor
