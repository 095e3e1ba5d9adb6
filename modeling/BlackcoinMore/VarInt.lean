import BlackcoinMore.Compressor

/-! `VARINT` as a code: `WriteVarInt<I>` in the arithmetic of a `w`-bit unsigned `I` writes
what the width-free writer of `Compressor` writes, `GetSizeOfVarInt` counts it, and what
`ReadVarInt<I>` accepts is exactly the encoding of a value of `I`. -/
namespace BlackcoinMore.VarInt
open Primitives ByteCodec Compressor

/-- `GetSizeOfVarInt`. -/
def getSizeOfVarInt (n : Nat) : Nat :=
  if n ≤ 0x7F then 1 else getSizeOfVarInt ((n >>> 7) - 1) + 1
termination_by n
decreasing_by
  rw [Nat.shiftRight_eq_div_pow]
  omega

/-- Past the last digit, the update `n = (n >> 7) - 1` does not wrap in `I`. -/
theorem toNat_shiftRight_sub_one {w : Nat} {n : BitVec w} (h : ¬ n.toNat ≤ 0x7F) :
    ((n >>> 7) - 1).toNat = n.toNat >>> 7 - 1 := by
  have hlt := n.isLt
  have hq : 1 ≤ n.toNat / 128 := by omega
  have hw : 1 < 2 ^ w := by omega
  have hone : (1 : BitVec w).toNat = 1 := by simpa using Nat.mod_eq_of_lt hw
  rw [BitVec.toNat_sub, BitVec.toNat_ushiftRight, hone, Nat.shiftRight_eq_div_pow]
  have hsum : 2 ^ w - 1 + n.toNat / 2 ^ 7 = (n.toNat / 2 ^ 7 - 1) + 2 ^ w := by
    have : n.toNat / 2 ^ 7 = n.toNat / 128 := rfl
    omega
  rw [hsum, Nat.add_mod_right, Nat.mod_eq_of_lt (by have : n.toNat / 2 ^ 7 = n.toNat / 128 := rfl; omega)]

/-- `WriteVarInt<I>`'s digits for a `w`-bit `I`: the comparison and the mask read the value
(a narrow `I` is promoted to `int`), the update is computed in `I`. -/
def varIntTmpOf {w : Nat} (n : BitVec w) (len : Nat) : List UInt8 :=
  let b := ((n.toNat &&& 0x7F) ||| (if len ≠ 0 then 0x80 else 0x00)).toUInt8
  if h : n.toNat ≤ 0x7F then [b] else b :: varIntTmpOf ((n >>> 7) - 1) (len + 1)
termination_by n.toNat
decreasing_by
  rw [toNat_shiftRight_sub_one h, Nat.shiftRight_eq_div_pow]
  omega

def writeVarIntOf {w : Nat} (n : BitVec w) : Bytes := (varIntTmpOf n 0).reverse

theorem varIntTmpOf_eq {w : Nat} (n : BitVec w) (len : Nat) : varIntTmpOf n len = varIntTmp n.toNat len := by
  induction hx : n.toNat using Nat.strong_induction_on generalizing n len with
  | _ x ih =>
    rw [varIntTmpOf, varIntTmp, hx]
    by_cases hs : x ≤ 0x7F
    · simp [hs]
    · have hn : ¬ n.toNat ≤ 0x7F := hx ▸ hs
      have hlt : x >>> 7 - 1 < x := by rw [Nat.shiftRight_eq_div_pow]; omega
      rw [dif_neg hs, if_neg hs, ih _ hlt _ _ (by rw [toNat_shiftRight_sub_one hn, hx])]

/-- The encoding does not depend on `I`. -/
theorem writeVarIntOf_eq {w : Nat} (n : BitVec w) : writeVarIntOf n = writeVarInt n.toNat := by
  rw [writeVarIntOf, writeVarInt, varIntTmpOf_eq]

theorem length_varIntTmp (n len : Nat) : (varIntTmp n len).length = getSizeOfVarInt n := by
  induction n using Nat.strong_induction_on generalizing len with
  | _ n ih =>
    rw [varIntTmp, getSizeOfVarInt]
    by_cases hs : n ≤ 0x7F
    · simp [hs]
    · have hlt : (n >>> 7) - 1 < n := by rw [Nat.shiftRight_eq_div_pow]; omega
      simp only [hs, if_false, List.length_cons, ih _ hlt]

theorem writeVarInt_of_gt {n : Nat} (h : ¬ n ≤ 0x7F) :
    writeVarInt n = (varIntTmp (n / 128 - 1) 1).reverse ++ [(n % 128).toUInt8] := by
  have hshift : n >>> 7 = n / 128 := Nat.shiftRight_eq_div_pow n 7
  have hlow : n &&& 0x7F = n % 128 := Nat.and_two_pow_sub_one_eq_mod n 7
  rw [writeVarInt, varIntTmp]
  simp [h, hshift, hlow]

theorem varIntTmp_one_of_le {m : Nat} (h : m ≤ 0x7F) : (varIntTmp m 1).reverse = [(m ||| 0x80).toUInt8] := by
  have hlow : m &&& 0x7F = m := (digit_bits m (by omega)).1
  rw [varIntTmp]
  simp [h, hlow]

theorem varIntTmp_one_of_gt {m : Nat} (h : ¬ m ≤ 0x7F) :
    (varIntTmp m 1).reverse = (varIntTmp (m / 128 - 1) 1).reverse ++ [((m % 128) ||| 0x80).toUInt8] := by
  have hshift : m >>> 7 = m / 128 := Nat.shiftRight_eq_div_pow m 7
  have hlow : m &&& 0x7F = m % 128 := Nat.and_two_pow_sub_one_eq_mod m 7
  rw [varIntTmp]
  simp [h, hshift, hlow, varIntTmp_succ]

/-- What the reader has consumed when its value so far is `a`: nothing, or the continuation
digits of `a - 1`. -/
def readPrefix : Nat → Bytes
  | 0 => []
  | m + 1 => (varIntTmp m 1).reverse

theorem readPrefix_append_cont (a : Nat) {d : Nat} (hd : d < 128) :
    readPrefix a ++ [(d ||| 0x80).toUInt8] = readPrefix (a * 128 + d + 1) := by
  cases a with
  | zero => simp [readPrefix, varIntTmp_one_of_le (show d ≤ 0x7F by omega)]
  | succ m =>
    rw [readPrefix, readPrefix, varIntTmp_one_of_gt (m := (m + 1) * 128 + d) (by omega)]
    have h1 : ((m + 1) * 128 + d) / 128 - 1 = m := by omega
    have h2 : ((m + 1) * 128 + d) % 128 = d := by omega
    rw [h1, h2]

theorem readPrefix_append_last (a : Nat) {d : Nat} (hd : d < 128) :
    readPrefix a ++ [d.toUInt8] = writeVarInt (a * 128 + d) := by
  cases a with
  | zero => simp [readPrefix, writeVarInt_of_lt (show d < 128 by omega)]
  | succ m =>
    rw [readPrefix, writeVarInt_of_gt (by omega)]
    have h1 : ((m + 1) * 128 + d) / 128 - 1 = m := by omega
    have h2 : ((m + 1) * 128 + d) % 128 = d := by omega
    rw [h1, h2]

/-- Every byte is a last digit or a continuation digit. -/
theorem byte_cases (b : UInt8) : (∃ d < 128, b = d.toUInt8) ∨ ∃ d < 128, b = (d ||| 0x80).toUInt8 := by
  have hlt : b.toNat < 2 ^ 8 := b.toBitVec.isLt
  by_cases hb : b.toNat < 128
  · exact .inl ⟨b.toNat, hb, UInt8.ofNat_toNat.symm⟩
  · refine .inr ⟨b.toNat - 128, by omega, ?_⟩
    rw [(digit_bits _ (by omega)).2.2.2.2, show b.toNat - 128 + 128 = b.toNat by omega]
    exact UInt8.ofNat_toNat.symm

variable {maxI : Nat}

theorem readVarIntFrom_of_gt {a : Nat} (ha : maxI >>> 7 < a) (b : UInt8) (rest : Bytes) :
    readVarIntFrom maxI a (b :: rest) = .error "ReadVarInt(): size too large" := by
  simp [readVarIntFrom, ha]

theorem readVarIntFrom_cont_max {a d : Nat} {rest : Bytes} (ha : a ≤ maxI >>> 7) (hd : d < 128)
    (heq : a * 128 + d = maxI) :
    readVarIntFrom maxI a ((d ||| 0x80).toUInt8 :: rest) = .error "ReadVarInt(): size too large" := by
  obtain ⟨-, -, hlow, hcont, hsum⟩ := digit_bits d hd
  have hb : ((d ||| 0x80).toUInt8).toNat = d ||| 0x80 := toNat_toUInt8_of_lt (by rw [hsum]; omega)
  simp only [readVarIntFrom, hb, hlow, hcont, shiftLeft_seven_or hd, heq]
  simp [Nat.not_lt.mpr ha]

/-- A successful read consumed exactly the encoding of its value, and the value is at most
`(maxI >>> 7) * 128 + 127`. -/
theorem readVarIntFrom_eq_ok : ∀ (bytes : Bytes) (a v : Nat) (rest : Bytes),
    readVarIntFrom maxI a bytes = .ok (v, rest) →
      readPrefix a ++ bytes = writeVarInt v ++ rest ∧ v ≤ (maxI >>> 7) * 128 + 127
  | [], a, v, rest, h => by simp [readVarIntFrom] at h
  | b :: bs, a, v, rest, h => by
    have ha : a ≤ maxI >>> 7 := by
      by_contra hgt
      rw [readVarIntFrom_of_gt (Nat.lt_of_not_le hgt)] at h
      cases h
    rw [← List.singleton_append, ← List.append_assoc]
    rcases byte_cases b with ⟨d, hd, rfl⟩ | ⟨d, hd, rfl⟩
    · -- a last digit ends the number
      rw [readVarIntFrom_last ha hd] at h
      cases h
      exact ⟨by rw [readPrefix_append_last a hd], by omega⟩
    · -- a continuation digit: the value so far becomes `a * 128 + d + 1`
      have hne : a * 128 + d ≠ maxI := fun heq => by
        rw [readVarIntFrom_cont_max ha hd heq] at h
        cases h
      rw [readVarIntFrom_cont ha hd hne] at h
      rw [readPrefix_append_cont a hd]
      exact readVarIntFrom_eq_ok bs _ v rest h

/-- For an `I` of at least seven bits a value ends with `(maxI >>> 7) * 128 + 127 = maxI`. -/
theorem shiftRight_seven_max {w : Nat} (hw : 7 ≤ w) : ((2 ^ w - 1) >>> 7) * 128 + 127 = 2 ^ w - 1 := by
  have hp : 2 ^ w = 2 ^ (w - 7) * 128 := by
    rw [show (128 : Nat) = 2 ^ 7 by rfl, ← Nat.pow_add, Nat.sub_add_cancel hw]
  have hpos : 0 < 2 ^ (w - 7) := Nat.two_pow_pos _
  rw [Nat.shiftRight_eq_div_pow, hp]
  omega

/-- `VARINT` is a bijection between the values of every unsigned `I` and the byte strings
`ReadVarInt<I>` accepts: the encoding is the same for every `I` and has `GetSizeOfVarInt`
bytes, a successful read consumed exactly the encoding of its value, and a value beyond `I`
makes the read throw. -/
theorem varInt_bijective (w : Nat) (hw : 7 ≤ w) :
    (∀ (n : BitVec w) (rest : Bytes),
        writeVarIntOf n = writeVarInt n.toNat ∧
        readVarInt (2 ^ w - 1) (writeVarIntOf n ++ rest) = .ok (n.toNat, rest) ∧
        (writeVarIntOf n).length = getSizeOfVarInt n.toNat) ∧
      (∀ (bytes rest : Bytes) (v : Nat), readVarInt (2 ^ w - 1) bytes = .ok (v, rest) →
        v < 2 ^ w ∧ bytes = writeVarInt v ++ rest) ∧
      ∀ (v : Nat) (rest : Bytes), 2 ^ w ≤ v →
        ∃ e, readVarInt (2 ^ w - 1) (writeVarInt v ++ rest) = .error e := by
  have hpos : 0 < 2 ^ w := Nat.two_pow_pos w
  -- what a read accepts is an encoding of a value of `I`
  have hread : ∀ (bytes rest : Bytes) (v : Nat), readVarInt (2 ^ w - 1) bytes = .ok (v, rest) →
      v < 2 ^ w ∧ bytes = writeVarInt v ++ rest := fun bytes rest v h => by
    obtain ⟨henc, hle⟩ := readVarIntFrom_eq_ok bytes 0 v rest h
    rw [shiftRight_seven_max hw] at hle
    exact ⟨by omega, henc⟩
  refine ⟨fun n rest => ⟨writeVarIntOf_eq n, ?_, ?_⟩, hread, fun v rest hv => ?_⟩
  · rw [writeVarIntOf_eq]
    exact readVarInt_writeVarInt (by have := n.isLt; omega) rest
  · rw [writeVarIntOf_eq, writeVarInt, List.length_reverse, length_varIntTmp]
  · -- a value read from the encoding of `v` would be `v` itself, read by a wider type
    cases hr : readVarInt (2 ^ w - 1) (writeVarInt v ++ rest) with
    | error e => exact ⟨e, rfl⟩
    | ok r =>
      obtain ⟨hlt, henc⟩ := hread _ r.2 r.1 hr
      have hv' := @readVarInt_writeVarInt v v (Nat.le_refl v) rest
      rw [henc, readVarInt_writeVarInt (by omega)] at hv'
      cases hv'
      omega

theorem varInt_bijective_uint32 :
    7 ≤ 32 ∧ ∃ e, readVarInt (2 ^ 32 - 1) (writeVarInt (2 ^ 32) ++ []) = .error e :=
  ⟨by decide, (varInt_bijective 32 (by decide)).2.2 (2 ^ 32) [] le_rfl⟩

end BlackcoinMore.VarInt
