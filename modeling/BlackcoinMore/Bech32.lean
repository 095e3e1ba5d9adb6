import BlackcoinMore.Primitives

/-! `bech32.cpp`: Bech32 and Bech32m strings, a human-readable part, the separator `1`, and
5-bit values with a six-value checksum from `PolyMod`, the BCH code's remainder bit-packed in a
`uint32_t`. Strings are their bytes. -/
namespace BlackcoinMore.Bech32
open Primitives

inductive Encoding where
  | INVALID
  | BECH32
  | BECH32M
  deriving DecidableEq, Repr

/-- The byte of an ASCII character. -/
def charByte (c : Char) : UInt8 := c.toNat.toUInt8

/-- The character set for encoding. -/
def CHARSET : Bytes := "qpzry9x8gf2tvdw0s3jn54khce6mua7l".toList.map charByte

/-- The character set for decoding: the value of each ASCII character, or `-1`. -/
def CHARSET_REV : List Int := [
    -1, -1, -1, -1, -1, -1, -1, -1, -1, -1, -1, -1, -1, -1, -1, -1,
    -1, -1, -1, -1, -1, -1, -1, -1, -1, -1, -1, -1, -1, -1, -1, -1,
    -1, -1, -1, -1, -1, -1, -1, -1, -1, -1, -1, -1, -1, -1, -1, -1,
    15, -1, 10, 17, 21, 20, 26, 30,  7,  5, -1, -1, -1, -1, -1, -1,
    -1, 29, -1, 24, 13, 25,  9,  8, 23, -1, 18, 22, 31, 27, 19, -1,
     1,  0,  3, 16, 11, 28, 12, 14,  6,  4,  2, -1, -1, -1, -1, -1,
    -1, 29, -1, 24, 13, 25,  9,  8, 23, -1, 18, 22, 31, 27, 19, -1,
     1,  0,  3, 16, 11, 28, 12, 14,  6,  4,  2, -1, -1, -1, -1, -1]

/-- `EncodingConstant`; its assertion rules out `INVALID`. -/
def encodingConstant : Encoding → UInt32
  | .BECH32 => 1
  | _ => 0x2bc830a3

/-- One pass of the loop of `PolyMod`: multiply the remainder by `x`, add `v_i`, and reduce the
`x ^ 6` term `c0` by the generator's multiples. -/
def polyModStep (c : UInt32) (v_i : UInt8) : UInt32 :=
  let c0 : UInt8 := (c >>> 25).toUInt8
  let c := ((c &&& 0x1ffffff) <<< 5) ^^^ v_i.toUInt32
  let c := if c0 &&& 1 != 0 then c ^^^ 0x3b6a57b2 else c
  let c := if c0 &&& 2 != 0 then c ^^^ 0x26508e6d else c
  let c := if c0 &&& 4 != 0 then c ^^^ 0x1ea119fa else c
  let c := if c0 &&& 8 != 0 then c ^^^ 0x3d4233dd else c
  if c0 &&& 16 != 0 then c ^^^ 0x2a1462b3 else c

/-- `PolyMod(v)`. -/
def polyMod (v : Bytes) : UInt32 := v.foldl polyModStep 1

/-- `LowerCase(c)`. -/
def lowerCase (c : UInt8) : UInt8 :=
  if charByte 'A' ≤ c ∧ c ≤ charByte 'Z' then c - charByte 'A' + charByte 'a' else c

/-- The loop of `CheckCharacters` from index `i`, with the cases seen so far: the indexes it
refuses, in order. -/
def checkCharactersFrom (lower upper : Bool) (i : Nat) : Bytes → List Nat
  | [] => []
  | c :: rest =>
    if charByte 'a' ≤ c ∧ c ≤ charByte 'z' then
      if upper then i :: checkCharactersFrom lower upper (i + 1) rest
      else checkCharactersFrom true upper (i + 1) rest
    else if charByte 'A' ≤ c ∧ c ≤ charByte 'Z' then
      if lower then i :: checkCharactersFrom lower upper (i + 1) rest
      else checkCharactersFrom lower true (i + 1) rest
    else if c < 33 ∨ c > 126 then i :: checkCharactersFrom lower upper (i + 1) rest
    else checkCharactersFrom lower upper (i + 1) rest

/-- `CheckCharacters(str, errors)` on an empty `errors`. -/
def checkCharacters (str : Bytes) : Bool := (checkCharactersFrom false false 0 str).isEmpty

/-- `ExpandHRP(hrp)`: the high bits of each character, a zero, then the low five bits of each. -/
def expandHRP (hrp : Bytes) : Bytes := hrp.map (fun c : UInt8 => c >>> 5) ++ [0] ++ hrp.map (· &&& 0x1f)

/-- `VerifyChecksum(hrp, values)`. -/
def verifyChecksum (hrp values : Bytes) : Encoding :=
  let check := polyMod (expandHRP hrp ++ values)
  if check = encodingConstant .BECH32 then .BECH32
  else if check = encodingConstant .BECH32M then .BECH32M
  else .INVALID

/-- The 5-bit groups of a 30-bit number, the high ones first. -/
def checksumGroups (mod : UInt32) : Bytes :=
  (List.range 6).map fun i => ((mod >>> (5 * (5 - i)).toUInt32) &&& 31).toUInt8

/-- `CreateChecksum(encoding, hrp, values)`: what to put in place of six zeroes after the values
so that `PolyMod` gives the encoding's constant. -/
def createChecksum (encoding : Encoding) (hrp values : Bytes) : Bytes :=
  let enc := expandHRP hrp ++ values ++ List.replicate 6 0
  checksumGroups (polyMod enc ^^^ encodingConstant encoding)

/-- `Encode(encoding, hrp, values)`. Its assertion that `hrp` has no upper-case letter is a
precondition here. -/
def encode (encoding : Encoding) (hrp values : Bytes) : Bytes :=
  let checksum := createChecksum encoding hrp values
  let combined := values ++ checksum
  hrp ++ [charByte '1'] ++ combined.map fun c => CHARSET.getD c.toNat 0

structure DecodeResult where
  encoding : Encoding
  hrp : Bytes
  data : Bytes
  deriving DecidableEq, Repr

/-- The result `{}`. -/
def DecodeResult.invalid : DecodeResult := ⟨.INVALID, [], []⟩

/-- `str.rfind(c)`: the last index of `c`, or `none` for `npos`. -/
def rfind (str : Bytes) (c : UInt8) : Option Nat := go str 0 none
where
  go : Bytes → Nat → Option Nat → Option Nat
    | [], _, found => found
    | x :: rest, i, found => go rest (i + 1) (if x = c then some i else found)

/-- `Decode(str)`. -/
def decode (str : Bytes) : DecodeResult :=
  if !checkCharacters str then .invalid
  else match rfind str (charByte '1') with
    | none => .invalid
    | some pos =>
      if str.length > 90 ∨ pos = 0 ∨ pos + 7 > str.length then .invalid
      else
        let revs := (str.drop (pos + 1)).map fun c => CHARSET_REV.getD c.toNat (-1)
        if revs.any (· = -1) then .invalid
        else
          let values := revs.map fun rev => rev.toNat.toUInt8
          let hrp := (str.take pos).map lowerCase
          let result := verifyChecksum hrp values
          if result = .INVALID then .invalid
          else ⟨result, hrp, values.take (values.length - 6)⟩

/-- The upper-case form of a character, for the strings `Decode` also accepts. -/
def upperCase (c : UInt8) : UInt8 :=
  if charByte 'a' ≤ c ∧ c ≤ charByte 'z' then c - charByte 'a' + charByte 'A' else c

/-- A character a human-readable part may hold: printable and not upper case. -/
def HrpChar (c : UInt8) : Prop := 33 ≤ c.toNat ∧ c.toNat ≤ 126 ∧ ¬(charByte 'A' ≤ c ∧ c ≤ charByte 'Z')

instance : DecidablePred HrpChar := fun c =>
  inferInstanceAs (Decidable (33 ≤ c.toNat ∧ c.toNat ≤ 126 ∧ ¬(charByte 'A' ≤ c ∧ c ≤ charByte 'Z')))

/-! ### Bits of a `uint32_t` -/

section Bits

theorem xor_and_distrib (a b c : UInt32) : (a ^^^ b) &&& c = (a &&& c) ^^^ (b &&& c) := by
  apply UInt32.toBitVec_inj.mp
  simp only [UInt32.toBitVec_and, UInt32.toBitVec_xor]
  ext i hi
  simp only [BitVec.getElem_and, BitVec.getElem_xor]
  cases a.toBitVec[i] <;> cases b.toBitVec[i] <;> cases c.toBitVec[i] <;> rfl

/-- A multiple of `2 ^ k` and a number below `2 ^ k` share no bit. -/
theorem two_pow_mul_xor_of_lt {a b k : Nat} (hb : b < 2 ^ k) : 2 ^ k * a ^^^ b = 2 ^ k * a + b := by
  apply Nat.eq_of_testBit_eq
  intro i
  have ha : (2 ^ k * a).testBit i = if i < k then false else a.testBit (i - k) := by
    simpa using Nat.testBit_two_pow_mul_add a (Nat.two_pow_pos k) i
  rw [Nat.testBit_xor, ha, Nat.testBit_two_pow_mul_add a hb]
  split_ifs with hi
  · simp
  · rw [Nat.testBit_lt_two_pow (Nat.lt_of_lt_of_le hb (Nat.pow_le_pow_right (by norm_num) (by omega)))]
    simp

/-- Shifting a 5-bit value in under a number of at most 25 bits. -/
theorem toNat_shiftLeft_xor {a : UInt32} {b : UInt8} (ha : a.toNat < 2 ^ 25) (hb : b.toNat < 32) :
    ((a <<< 5) ^^^ b.toUInt32).toNat = a.toNat * 32 + b.toNat := by
  rw [UInt32.toNat_xor, UInt32.toNat_shiftLeft, UInt8.toNat_toUInt32, show (5 : UInt32).toNat % 32 = 5 from rfl,
    Nat.shiftLeft_eq, Nat.mod_eq_of_lt (by omega), Nat.mul_comm, two_pow_mul_xor_of_lt (by omega)]

end Bits

/-! ### The shift register of `PolyMod` -/

section Register

/-- The multiples of the generator that `PolyMod` adds for the coefficient `c0` of `x ^ 6`. -/
def generatorTerm (c0 : UInt8) : UInt32 :=
  (if c0 &&& 1 != 0 then 0x3b6a57b2 else 0) ^^^ (if c0 &&& 2 != 0 then 0x26508e6d else 0) ^^^
    (if c0 &&& 4 != 0 then 0x1ea119fa else 0) ^^^ (if c0 &&& 8 != 0 then 0x3d4233dd else 0) ^^^
    (if c0 &&& 16 != 0 then 0x2a1462b3 else 0)

theorem polyModStep_eq (c : UInt32) (v_i : UInt8) :
    polyModStep c v_i = ((c &&& 0x1ffffff) <<< 5) ^^^ v_i.toUInt32 ^^^ generatorTerm (c >>> 25).toUInt8 := by
  unfold polyModStep generatorTerm
  dsimp only
  split_ifs <;> simp only [UInt32.xor_zero, UInt32.zero_xor, UInt32.xor_assoc]

set_option maxRecDepth 100000 in
theorem generatorTerm_lt (c0 : UInt8) : (generatorTerm c0).toNat < 2 ^ 30 := by
  revert c0
  decide

/-- The value is added last, after the reduction. -/
theorem polyModStep_value (c : UInt32) (v_i : UInt8) : polyModStep c v_i = polyModStep c 0 ^^^ v_i.toUInt32 := by
  rw [polyModStep_eq, polyModStep_eq, show (0 : UInt8).toUInt32 = 0 from rfl, UInt32.xor_zero]
  ac_rfl

/-- A difference in the low 25 bits of the state only moves up by five bits: it never reaches
the coefficient that selects the reduction. -/
theorem polyModStep_xor (c : UInt32) {d : UInt32} (hd : d.toNat < 2 ^ 25) (v_i : UInt8) :
    polyModStep (c ^^^ d) v_i = polyModStep c v_i ^^^ (d <<< 5) := by
  have hhigh : d >>> 25 = 0 := UInt32.toNat_inj.mp (by
    rw [UInt32.toNat_shiftRight, show (25 : UInt32).toNat % 32 = 25 from rfl, Nat.shiftRight_eq_div_pow,
      Nat.div_eq_of_lt hd]
    rfl)
  have hlow : d &&& 0x1ffffff = d := UInt32.toNat_inj.mp (by
    rw [UInt32.toNat_and, show (0x1ffffff : UInt32).toNat = 2 ^ 25 - 1 from rfl, Nat.and_two_pow_sub_one_eq_mod,
      Nat.mod_eq_of_lt hd])
  rw [polyModStep_eq, polyModStep_eq, UInt32.shiftRight_xor, hhigh, UInt32.xor_zero, xor_and_distrib, hlow,
    UInt32.shiftLeft_xor]
  ac_rfl

theorem polyModStep_lt (c : UInt32) {v_i : UInt8} (hv : v_i.toNat < 32) : (polyModStep c v_i).toNat < 2 ^ 30 := by
  have hmask : ((c &&& 0x1ffffff) <<< 5).toNat < 2 ^ 30 := by
    have : (c &&& 0x1ffffff).toNat < 2 ^ 25 := by
      rw [UInt32.toNat_and, show (0x1ffffff : UInt32).toNat = 2 ^ 25 - 1 from rfl, Nat.and_two_pow_sub_one_eq_mod]
      exact Nat.mod_lt _ (by norm_num)
    rw [UInt32.toNat_shiftLeft, show (5 : UInt32).toNat % 32 = 5 from rfl, Nat.shiftLeft_eq]
    omega
  rw [polyModStep_eq, UInt32.toNat_xor, UInt32.toNat_xor, UInt8.toNat_toUInt32]
  exact Nat.xor_lt_two_pow (Nat.xor_lt_two_pow hmask (by omega)) (generatorTerm_lt _)

/-- Five-bit values shifted into a register, the first highest. -/
def pack (P : UInt32) (w : Bytes) : UInt32 := w.foldl (fun acc x => (acc <<< 5) ^^^ x.toUInt32) P

/-- `PolyMod`'s register run on `w` from `s ^^^ P` is its run on zeroes from `s`, plus `P` and `w`
shifted in: `P` is small enough that the `w.length` shifts keep it below `x ^ 6`. -/
theorem foldl_polyModStep_xor : ∀ (w : Bytes) (s P : UInt32), (P.toNat + 1) * 32 ^ w.length ≤ 2 ^ 30 →
    (∀ x ∈ w, x.toNat < 32) →
    w.foldl polyModStep (s ^^^ P) = (List.replicate w.length 0).foldl polyModStep s ^^^ pack P w
  | [], s, P, _, _ => rfl
  | x :: w, s, P, hP, hw => by
    have hx := hw x (by simp)
    have hpow : 32 ≤ 32 ^ (w.length + 1) := Nat.le_self_pow (by omega) 32
    have hP25 : P.toNat < 2 ^ 25 := by
      rw [List.length_cons] at hP
      have := Nat.mul_le_mul_left (P.toNat + 1) hpow
      omega
    -- one step moves the difference up and adds the value to it
    have hstep : polyModStep (s ^^^ P) x = polyModStep s 0 ^^^ ((P <<< 5) ^^^ x.toUInt32) := by
      rw [polyModStep_xor s hP25, polyModStep_value]
      ac_rfl
    have hnext : ((P <<< 5) ^^^ x.toUInt32).toNat = P.toNat * 32 + x.toNat := toNat_shiftLeft_xor hP25 hx
    have hbound : (((P <<< 5) ^^^ x.toUInt32).toNat + 1) * 32 ^ w.length ≤ 2 ^ 30 := by
      rw [hnext]
      calc (P.toNat * 32 + x.toNat + 1) * 32 ^ w.length ≤ (P.toNat + 1) * 32 * 32 ^ w.length :=
            Nat.mul_le_mul_right _ (by omega)
        _ = (P.toNat + 1) * 32 ^ (x :: w).length := by rw [List.length_cons, pow_succ]; ring
        _ ≤ 2 ^ 30 := hP
    rw [List.foldl_cons, hstep, foldl_polyModStep_xor w _ _ hbound (fun y hy => hw y (by simp [hy])),
      List.length_cons, List.replicate_succ, List.foldl_cons]
    rfl

/-- Six values after `u` give `PolyMod` of `u` and six zeroes, plus the values themselves. -/
theorem polyMod_append_six (u w : Bytes) (hw : w.length = 6) (h32 : ∀ x ∈ w, x.toNat < 32) :
    polyMod (u ++ w) = polyMod (u ++ List.replicate 6 0) ^^^ pack 0 w := by
  have h := foldl_polyModStep_xor w (polyMod u) 0 (by rw [hw]; norm_num) h32
  rw [UInt32.xor_zero, hw] at h
  have e₁ : polyMod (u ++ w) = w.foldl polyModStep (polyMod u) := List.foldl_append
  have e₂ : polyMod (u ++ List.replicate 6 0) = (List.replicate 6 0).foldl polyModStep (polyMod u) :=
    List.foldl_append
  rw [e₁, e₂, h]

theorem polyMod_concat_lt (u : Bytes) {v : UInt8} (hv : v.toNat < 32) : (polyMod (u ++ [v])).toNat < 2 ^ 30 := by
  rw [polyMod, List.foldl_append, List.foldl_cons, List.foldl_nil]
  exact polyModStep_lt _ hv

end Register

/-! ### The six checksum values -/

section Groups

theorem toNat_checksumGroups (mod : UInt32) :
    (checksumGroups mod).map UInt8.toNat =
      [mod.toNat / 2 ^ 25 % 32, mod.toNat / 2 ^ 20 % 32, mod.toNat / 2 ^ 15 % 32, mod.toNat / 2 ^ 10 % 32,
        mod.toNat / 2 ^ 5 % 32, mod.toNat % 32] := by
  have hgroup : ∀ k : Nat, k < 32 → (((mod >>> k.toUInt32) &&& 31).toUInt8).toNat = mod.toNat / 2 ^ k % 32 := by
    intro k hk
    rw [UInt32.toNat_toUInt8, UInt32.toNat_and, show (31 : UInt32).toNat = 2 ^ 5 - 1 from rfl,
      Nat.and_two_pow_sub_one_eq_mod, UInt32.toNat_shiftRight, Nat.toUInt32, UInt32.toNat_ofNat',
      Nat.mod_eq_of_lt (by omega : k < 2 ^ 32), Nat.mod_eq_of_lt hk, Nat.shiftRight_eq_div_pow]
    omega
  simp only [checksumGroups, List.range_succ, List.range_zero, List.nil_append, List.map_cons,
    List.map_nil, List.cons_append, List.nil_append]
  rw [hgroup _ (by norm_num), hgroup _ (by norm_num), hgroup _ (by norm_num), hgroup _ (by norm_num),
    hgroup _ (by norm_num), hgroup _ (by norm_num)]
  norm_num

theorem length_checksumGroups (mod : UInt32) : (checksumGroups mod).length = 6 := by
  simp [checksumGroups]

theorem checksumGroups_lt (mod : UInt32) : ∀ x ∈ checksumGroups mod, x.toNat < 32 := by
  intro x hx
  have : x.toNat ∈ (checksumGroups mod).map UInt8.toNat := List.mem_map_of_mem hx
  rw [toNat_checksumGroups] at this
  simp only [List.mem_cons, List.not_mem_nil, or_false] at this
  rcases this with h | h | h | h | h | h <;> omega

/-- The register's number is the values read in base 32, when nothing is shifted out. -/
theorem toNat_pack : ∀ (w : Bytes) (P : UInt32), (P.toNat + 1) * 32 ^ w.length ≤ 2 ^ 30 →
    (∀ x ∈ w, x.toNat < 32) → (pack P w).toNat = (w.map UInt8.toNat).foldl (fun acc x => acc * 32 + x) P.toNat
  | [], _, _, _ => rfl
  | x :: w, P, hP, hw => by
    have hx := hw x (by simp)
    have hpow : 32 ≤ 32 ^ (w.length + 1) := Nat.le_self_pow (by omega) 32
    have hP25 : P.toNat < 2 ^ 25 := by
      rw [List.length_cons] at hP
      have := Nat.mul_le_mul_left (P.toNat + 1) hpow
      omega
    have hnext := toNat_shiftLeft_xor hP25 hx
    have hbound : (((P <<< 5) ^^^ x.toUInt32).toNat + 1) * 32 ^ w.length ≤ 2 ^ 30 := by
      rw [hnext]
      calc (P.toNat * 32 + x.toNat + 1) * 32 ^ w.length ≤ (P.toNat + 1) * 32 * 32 ^ w.length :=
            Nat.mul_le_mul_right _ (by omega)
        _ = (P.toNat + 1) * 32 ^ (x :: w).length := by rw [List.length_cons, pow_succ]; ring
        _ ≤ 2 ^ 30 := hP
    rw [pack, List.foldl_cons, ← pack, toNat_pack w _ hbound (fun y hy => hw y (by simp [hy])), hnext]
    rfl

theorem eq_of_length_six {w : Bytes} (hw : w.length = 6) :
    ∃ w₀ w₁ w₂ w₃ w₄ w₅, w = [w₀, w₁, w₂, w₃, w₄, w₅] := by
  rcases w with _ | ⟨w₀, _ | ⟨w₁, _ | ⟨w₂, _ | ⟨w₃, _ | ⟨w₄, _ | ⟨w₅, _ | ⟨w₆, rest⟩⟩⟩⟩⟩⟩⟩ <;> simp at hw
  exact ⟨w₀, w₁, w₂, w₃, w₄, w₅, rfl⟩

/-- The checksum's groups shifted back into the register give the 30-bit number. -/
theorem pack_checksumGroups {mod : UInt32} (hmod : mod.toNat < 2 ^ 30) : pack 0 (checksumGroups mod) = mod := by
  apply UInt32.toNat_inj.mp
  rw [toNat_pack _ _ (by rw [length_checksumGroups]; norm_num) (checksumGroups_lt mod), toNat_checksumGroups]
  simp only [List.foldl_cons, List.foldl_nil, UInt32.toNat_zero]
  omega

/-- Six 5-bit values are the groups of their register. -/
theorem checksumGroups_pack {w : Bytes} (hw : w.length = 6) (h32 : ∀ x ∈ w, x.toNat < 32) :
    checksumGroups (pack 0 w) = w := by
  have hpack := toNat_pack w 0 (by rw [hw]; norm_num) h32
  obtain ⟨w₀, w₁, w₂, w₃, w₄, w₅, rfl⟩ := eq_of_length_six hw
  apply List.map_injective_iff.mpr (fun a b h => UInt8.toNat_inj.mp h)
  have h₀ := h32 w₀ (by simp)
  have h₁ := h32 w₁ (by simp)
  have h₂ := h32 w₂ (by simp)
  have h₃ := h32 w₃ (by simp)
  have h₄ := h32 w₄ (by simp)
  have h₅ := h32 w₅ (by simp)
  simp only [List.map_cons, List.map_nil, List.foldl_cons, List.foldl_nil, UInt32.toNat_zero] at hpack
  rw [toNat_checksumGroups, hpack]
  simp only [List.map_cons, List.map_nil, List.cons.injEq, and_true]
  omega

end Groups

/-! ### The checksum -/

section Checksum

theorem encodingConstant_lt (encoding : Encoding) : (encodingConstant encoding).toNat < 2 ^ 30 := by
  cases encoding <;> decide

/-- `CreateChecksum` makes `PolyMod` of the whole string the encoding's constant. -/
theorem polyMod_createChecksum (encoding : Encoding) (hrp values : Bytes) :
    polyMod (expandHRP hrp ++ values ++ createChecksum encoding hrp values) = encodingConstant encoding := by
  have hZ : (polyMod (expandHRP hrp ++ values ++ List.replicate 6 0)).toNat < 2 ^ 30 := by
    rw [show expandHRP hrp ++ values ++ List.replicate 6 0 =
      (expandHRP hrp ++ values ++ List.replicate 5 0) ++ [0] by simp]
    exact polyMod_concat_lt _ (by decide)
  have hmod : (polyMod (expandHRP hrp ++ values ++ List.replicate 6 0) ^^^ encodingConstant encoding).toNat <
      2 ^ 30 := by
    rw [UInt32.toNat_xor]
    exact Nat.xor_lt_two_pow hZ (encodingConstant_lt encoding)
  rw [createChecksum, polyMod_append_six _ _ (length_checksumGroups _) (checksumGroups_lt _),
    pack_checksumGroups hmod, ← UInt32.xor_assoc, UInt32.xor_self, UInt32.zero_xor]

/-- And it is the only six 5-bit values that do. -/
theorem eq_createChecksum {encoding : Encoding} {hrp values c : Bytes} (hc : c.length = 6)
    (h32 : ∀ x ∈ c, x.toNat < 32) (h : polyMod (expandHRP hrp ++ values ++ c) = encodingConstant encoding) :
    c = createChecksum encoding hrp values := by
  rw [polyMod_append_six _ _ hc h32] at h
  have hpack : pack 0 c = polyMod (expandHRP hrp ++ values ++ List.replicate 6 0) ^^^ encodingConstant encoding := by
    rw [← h, ← UInt32.xor_assoc, UInt32.xor_self, UInt32.zero_xor]
  rw [createChecksum, ← hpack, checksumGroups_pack hc h32]

theorem verifyChecksum_of_polyMod {encoding : Encoding} (henc : encoding ≠ .INVALID) {hrp values : Bytes}
    (h : polyMod (expandHRP hrp ++ values) = encodingConstant encoding) : verifyChecksum hrp values = encoding := by
  cases encoding with
  | INVALID => exact absurd rfl henc
  | BECH32 => rw [verifyChecksum, if_pos h]
  | BECH32M => rw [verifyChecksum, if_neg (by rw [h]; decide), if_pos h]

theorem polyMod_of_verifyChecksum {hrp values : Bytes} (h : verifyChecksum hrp values ≠ .INVALID) :
    polyMod (expandHRP hrp ++ values) = encodingConstant (verifyChecksum hrp values) := by
  unfold verifyChecksum at h ⊢
  dsimp only at h ⊢
  split_ifs at h ⊢ with h₁ h₂
  · exact h₁
  · exact h₂
  · exact absurd rfl h

end Checksum

/-! ### Characters -/

section Characters

set_option maxRecDepth 100000 in
/-- The facts about single bytes that the round trip uses, checked once over all 256 bytes: the
two tables are inverse up to case, the charset is printable lower case without the separator,
and the case maps undo each other where the code applies them. -/
theorem characterTable : ∀ c : UInt8,
    (c.toNat < 32 →
      CHARSET_REV.getD (CHARSET.getD c.toNat 0).toNat (-1) = c.toNat ∧
      CHARSET_REV.getD (upperCase (CHARSET.getD c.toNat 0)).toNat (-1) = c.toNat ∧
      HrpChar (CHARSET.getD c.toNat 0) ∧ CHARSET.getD c.toNat 0 ≠ charByte '1') ∧
    (CHARSET_REV.getD c.toNat (-1) ≠ -1 →
      CHARSET.getD (CHARSET_REV.getD c.toNat (-1)).toNat.toUInt8.toNat 0 = lowerCase c ∧
      0 ≤ CHARSET_REV.getD c.toNat (-1) ∧ CHARSET_REV.getD c.toNat (-1) < 32) ∧
    (HrpChar c →
      33 ≤ (upperCase c).toNat ∧ (upperCase c).toNat ≤ 126 ∧
      ¬(charByte 'a' ≤ upperCase c ∧ upperCase c ≤ charByte 'z') ∧
      lowerCase (upperCase c) = c ∧ (upperCase c = charByte '1' ↔ c = charByte '1') ∧ lowerCase c = c) ∧
    (¬(charByte 'a' ≤ c ∧ c ≤ charByte 'z') → upperCase (lowerCase c) = c) ∧
    (charByte 'a' ≤ c ∧ c ≤ charByte 'z' → ¬(charByte 'A' ≤ c ∧ c ≤ charByte 'Z')) := by
  decide

theorem charsetRev_charset (v : UInt8) (hv : v.toNat < 32) :
    CHARSET_REV.getD (CHARSET.getD v.toNat 0).toNat (-1) = v.toNat :=
  ((characterTable v).1 hv).1

theorem charsetRev_upperCase_charset (v : UInt8) (hv : v.toNat < 32) :
    CHARSET_REV.getD (upperCase (CHARSET.getD v.toNat 0)).toNat (-1) = v.toNat :=
  ((characterTable v).1 hv).2.1

/-- A character with a value is the character of that value, up to case. -/
theorem charset_charsetRev (c : UInt8) (h : CHARSET_REV.getD c.toNat (-1) ≠ -1) :
    CHARSET.getD (CHARSET_REV.getD c.toNat (-1)).toNat.toUInt8.toNat 0 = lowerCase c :=
  ((characterTable c).2.1 h).1

theorem charsetRev_range (c : UInt8) (h : CHARSET_REV.getD c.toNat (-1) ≠ -1) :
    0 ≤ CHARSET_REV.getD c.toNat (-1) ∧ CHARSET_REV.getD c.toNat (-1) < 32 :=
  ((characterTable c).2.1 h).2

/-- The characters of the values are printable, lower case or digits, and not the separator. -/
theorem charset_char (v : UInt8) (hv : v.toNat < 32) :
    HrpChar (CHARSET.getD v.toNat 0) ∧ CHARSET.getD v.toNat 0 ≠ charByte '1' :=
  ((characterTable v).1 hv).2.2

/-- Upper case keeps a character printable and the separator where it is. -/
theorem upperCase_char (c : UInt8) (h : HrpChar c) :
    33 ≤ (upperCase c).toNat ∧ (upperCase c).toNat ≤ 126 ∧ ¬(charByte 'a' ≤ upperCase c ∧ upperCase c ≤ charByte 'z') ∧
      lowerCase (upperCase c) = c ∧ (upperCase c = charByte '1' ↔ c = charByte '1') := by
  obtain ⟨h33, h126, hlow, hinv, hone, -⟩ := (characterTable c).2.2.1 h
  exact ⟨h33, h126, hlow, hinv, hone⟩

theorem lowerCase_of_hrpChar (c : UInt8) (h : HrpChar c) : lowerCase c = c :=
  ((characterTable c).2.2.1 h).2.2.2.2.2

theorem hrpChar_one : HrpChar (charByte '1') := by decide

theorem upperCase_lowerCase (c : UInt8) (h : ¬(charByte 'a' ≤ c ∧ c ≤ charByte 'z')) :
    upperCase (lowerCase c) = c :=
  (characterTable c).2.2.2.1 h

end Characters

/-! ### Parsing: the character check and the separator -/

section Parse

theorem printable {c : UInt8} (h33 : 33 ≤ c.toNat) (h126 : c.toNat ≤ 126) : ¬(c < 33 ∨ c > 126) := by
  rw [UInt8.lt_iff_toNat_lt, gt_iff_lt, UInt8.lt_iff_toNat_lt]
  simp only [UInt8.toNat_ofNat]
  omega

/-- No upper-case letter: nothing is refused, whatever lower-case letters came before. -/
theorem checkCharactersFrom_lower : ∀ (str : Bytes) (lower : Bool) (i : Nat), (∀ c ∈ str, HrpChar c) →
    checkCharactersFrom lower false i str = []
  | [], _, _, _ => rfl
  | c :: rest, lower, i, h => by
    obtain ⟨h33, h126, hup⟩ := h c (by simp)
    have hrest := fun l => checkCharactersFrom_lower rest l (i + 1) (fun d hd => h d (by simp [hd]))
    rw [checkCharactersFrom]
    by_cases hlow : charByte 'a' ≤ c ∧ c ≤ charByte 'z'
    · rw [if_pos hlow, if_neg Bool.false_ne_true, hrest]
    · rw [if_neg hlow, if_neg hup, if_neg (printable h33 h126), hrest]

/-- No lower-case letter: nothing is refused, whatever upper-case letters came before. -/
theorem checkCharactersFrom_upper : ∀ (str : Bytes) (upper : Bool) (i : Nat),
    (∀ c ∈ str, 33 ≤ c.toNat ∧ c.toNat ≤ 126 ∧ ¬(charByte 'a' ≤ c ∧ c ≤ charByte 'z')) →
    checkCharactersFrom false upper i str = []
  | [], _, _, _ => rfl
  | c :: rest, upper, i, h => by
    obtain ⟨h33, h126, hlow⟩ := h c (by simp)
    have hrest := fun u => checkCharactersFrom_upper rest u (i + 1) (fun d hd => h d (by simp [hd]))
    rw [checkCharactersFrom, if_neg hlow]
    by_cases hup : charByte 'A' ≤ c ∧ c ≤ charByte 'Z'
    · rw [if_pos hup, if_neg Bool.false_ne_true, hrest]
    · rw [if_neg hup, if_neg (printable h33 h126), hrest]

theorem not_upper_of_lower (c : UInt8) (h : charByte 'a' ≤ c ∧ c ≤ charByte 'z') :
    ¬(charByte 'A' ≤ c ∧ c ≤ charByte 'Z') :=
  (characterTable c).2.2.2.2 h

/-- A check that refuses nothing saw one case only: after a lower-case letter no upper-case one,
and after an upper-case letter no lower-case one. -/
theorem checkCharactersFrom_eq_nil : ∀ (str : Bytes) (lower upper : Bool) (i : Nat),
    checkCharactersFrom lower upper i str = [] →
      (lower = true → ∀ c ∈ str, ¬(charByte 'A' ≤ c ∧ c ≤ charByte 'Z')) ∧
      (upper = true → ∀ c ∈ str, ¬(charByte 'a' ≤ c ∧ c ≤ charByte 'z')) ∧
      ((∀ c ∈ str, ¬(charByte 'A' ≤ c ∧ c ≤ charByte 'Z')) ∨ ∀ c ∈ str, ¬(charByte 'a' ≤ c ∧ c ≤ charByte 'z'))
  | [], _, _, _, _ => by simp
  | c :: rest, lower, upper, i, h => by
    rw [checkCharactersFrom] at h
    by_cases hlow : charByte 'a' ≤ c ∧ c ≤ charByte 'z'
    · -- a lower-case letter: refused after an upper-case one, else the rest is read as lower case
      have hnup := not_upper_of_lower c hlow
      cases upper
      · rw [if_pos hlow, if_neg Bool.false_ne_true] at h
        obtain ⟨ih, -, -⟩ := checkCharactersFrom_eq_nil rest true false (i + 1) h
        have hall : ∀ d ∈ c :: rest, ¬(charByte 'A' ≤ d ∧ d ≤ charByte 'Z') :=
          List.forall_mem_cons.mpr ⟨hnup, ih rfl⟩
        exact ⟨fun _ => hall, fun h => absurd h Bool.false_ne_true, Or.inl hall⟩
      · rw [if_pos hlow, if_pos rfl] at h
        exact absurd h (List.cons_ne_nil _ _)
    by_cases hup : charByte 'A' ≤ c ∧ c ≤ charByte 'Z'
    · -- an upper-case letter, symmetrically
      cases lower
      · rw [if_neg hlow, if_pos hup, if_neg Bool.false_ne_true] at h
        obtain ⟨-, ih, -⟩ := checkCharactersFrom_eq_nil rest false true (i + 1) h
        have hall : ∀ d ∈ c :: rest, ¬(charByte 'a' ≤ d ∧ d ≤ charByte 'z') :=
          List.forall_mem_cons.mpr ⟨hlow, ih rfl⟩
        exact ⟨fun h => absurd h Bool.false_ne_true, fun _ => hall, Or.inr hall⟩
      · rw [if_neg hlow, if_pos hup, if_pos rfl] at h
        exact absurd h (List.cons_ne_nil _ _)
    · -- neither: the flags carry over unchanged
      rw [if_neg hlow, if_neg hup] at h
      by_cases hp : c < 33 ∨ c > 126
      · rw [if_pos hp] at h
        exact absurd h (List.cons_ne_nil _ _)
      rw [if_neg hp] at h
      obtain ⟨ih₁, ih₂, ih₃⟩ := checkCharactersFrom_eq_nil rest lower upper (i + 1) h
      refine ⟨fun hl => List.forall_mem_cons.mpr ⟨hup, ih₁ hl⟩, fun hu => List.forall_mem_cons.mpr ⟨hlow, ih₂ hu⟩, ?_⟩
      rcases ih₃ with h₃ | h₃
      · exact Or.inl (List.forall_mem_cons.mpr ⟨hup, h₃⟩)
      · exact Or.inr (List.forall_mem_cons.mpr ⟨hlow, h₃⟩)

theorem rfind_go_append (c : UInt8) : ∀ (l r : Bytes) (i : Nat) (found : Option Nat),
    rfind.go c (l ++ r) i found = rfind.go c r (i + l.length) (rfind.go c l i found)
  | [], r, i, found => rfl
  | x :: l, r, i, found => by
    rw [List.cons_append, rfind.go, rfind.go, rfind_go_append c l r, List.length_cons]
    congr 1
    omega

theorem rfind_go_of_not_mem (c : UInt8) : ∀ (r : Bytes) (i : Nat) (found : Option Nat), c ∉ r →
    rfind.go c r i found = found
  | [], _, _, _ => rfl
  | x :: r, i, found, h => by
    have hx : x ≠ c := fun e => h (e ▸ List.mem_cons_self)
    rw [rfind.go, if_neg hx, rfind_go_of_not_mem c r _ _ (fun hr => h (List.mem_cons_of_mem _ hr))]

/-- The separator is the last `1`: the data part after it has none. -/
theorem rfind_concat (l r : Bytes) (c : UInt8) (hr : c ∉ r) : rfind (l ++ [c] ++ r) c = some l.length := by
  rw [rfind, rfind_go_append, rfind_go_append, rfind_go_of_not_mem c r _ _ hr, rfind.go, rfind.go, if_pos rfl]
  simp

theorem rfind_go_eq_some (c : UInt8) : ∀ (l : Bytes) (i : Nat) (found : Option Nat) (pos : Nat),
    rfind.go c l i found = some pos →
      found = some pos ∨ (i ≤ pos ∧ pos < i + l.length ∧ l.getD (pos - i) 0 = c)
  | [], _, _, _, h => .inl h
  | x :: l, i, found, pos, h => by
    rw [rfind.go] at h
    rcases rfind_go_eq_some c l _ _ pos h with hf | ⟨hlo, hhi, hget⟩
    · -- the last match seen is this character or one before it
      by_cases hx : x = c
      · rw [if_pos hx] at hf
        cases hf
        exact .inr ⟨le_rfl, by simp, by simp [hx]⟩
      · rw [if_neg hx] at hf
        exact .inl hf
    · refine .inr ⟨by omega, by simp; omega, ?_⟩
      rw [show pos - i = pos - (i + 1) + 1 by omega, List.getD_cons_succ]
      exact hget

theorem rfind_eq_some {str : Bytes} {c : UInt8} {pos : Nat} (h : rfind str c = some pos) :
    pos < str.length ∧ str.getD pos 0 = c := by
  rcases rfind_go_eq_some c str 0 none pos h with h | ⟨-, hlt, hget⟩
  · cases h
  · exact ⟨by omega, by simpa using hget⟩

end Parse

/-! ### Decoding -/

section Decode

/-- `Decode` on a string `hrp' 1 data'` whose characters pass the check and whose data characters
all have values. -/
theorem decode_split {hrp' data' vals : Bytes} (hchk : checkCharacters (hrp' ++ [charByte '1'] ++ data') = true)
    (hone : charByte '1' ∉ data') (hne : hrp' ≠ []) (hlen : hrp'.length + 1 + data'.length ≤ 90)
    (h6 : 6 ≤ data'.length)
    (hrev : data'.map (fun c => CHARSET_REV.getD c.toNat (-1)) = vals.map (fun v => (v.toNat : Int))) :
    decode (hrp' ++ [charByte '1'] ++ data') =
      if verifyChecksum (hrp'.map lowerCase) vals = .INVALID then .invalid
      else ⟨verifyChecksum (hrp'.map lowerCase) vals, hrp'.map lowerCase, vals.take (vals.length - 6)⟩ := by
  have hpos : hrp'.length ≠ 0 := fun h => hne (List.length_eq_zero_iff.mp h)
  have hdrop : (hrp' ++ [charByte '1'] ++ data').drop (hrp'.length + 1) = data' := by simp
  have htake : (hrp' ++ [charByte '1'] ++ data').take hrp'.length = hrp' := by simp
  have hany : (vals.map (fun v => (v.toNat : Int))).any (· = -1) = false := by
    rw [List.any_eq_false]
    intro x hx
    obtain ⟨v, -, rfl⟩ := List.mem_map.mp hx
    simp only [decide_eq_true_eq]
    omega
  have hvals : (vals.map (fun v => (v.toNat : Int))).map (fun rev => rev.toNat.toUInt8) = vals := by
    rw [List.map_map]
    conv => rhs; rw [← List.map_id vals]
    refine List.map_congr_left fun v _ => ?_
    simp [Nat.toUInt8, UInt8.ofNat_toNat]
  rw [decode, hchk, if_neg (by decide), rfind_concat _ _ _ hone]
  dsimp only
  rw [if_neg (by simp only [List.length_append, List.length_singleton]; omega), hdrop, hrev, hany, if_neg Bool.false_ne_true, hvals, htake]

/-- The encoding's string, and its upper-case form, have the shape `Decode` reads back. -/
theorem decode_encode {encoding : Encoding} (henc : encoding ≠ .INVALID) {hrp values : Bytes} (hne : hrp ≠ [])
    (hhrp : ∀ c ∈ hrp, HrpChar c) (hvals : ∀ v ∈ values, v.toNat < 32)
    (hlen : hrp.length + 1 + values.length + 6 ≤ 90) :
    decode (encode encoding hrp values) = ⟨encoding, hrp, values⟩ ∧
      decode ((encode encoding hrp values).map upperCase) = ⟨encoding, hrp, values⟩ := by
  -- the values and their checksum, and the characters that spell them
  set vals := values ++ createChecksum encoding hrp values with hvals_def
  have h32 : ∀ v ∈ vals, v.toNat < 32 := by
    intro v hv
    rcases List.mem_append.mp hv with h | h
    · exact hvals v h
    · exact checksumGroups_lt _ v h
  have hlenv : vals.length = values.length + 6 := by
    rw [hvals_def, List.length_append, createChecksum, length_checksumGroups]
  have hverify : verifyChecksum hrp vals = encoding :=
    verifyChecksum_of_polyMod henc (by rw [hvals_def, ← List.append_assoc]; exact polyMod_createChecksum _ _ _)
  have htake : vals.take (vals.length - 6) = values := by
    rw [hlenv, Nat.add_sub_cancel, hvals_def, List.take_left]
  have hlower : hrp.map lowerCase = hrp := by
    conv => rhs; rw [← List.map_id hrp]
    exact List.map_congr_left fun c hc => lowerCase_of_hrpChar c (hhrp c hc)
  set data' := vals.map fun c => CHARSET.getD c.toNat 0 with hdata_def
  have hdata : ∀ c ∈ data', HrpChar c ∧ c ≠ charByte '1' := by
    intro c hc
    obtain ⟨v, hv, rfl⟩ := List.mem_map.mp hc
    exact charset_char v (h32 v hv)
  have hlen' : hrp.length + 1 + data'.length ≤ 90 := by
    rw [hdata_def, List.length_map, hlenv]
    omega
  have h6 : 6 ≤ data'.length := by
    rw [hdata_def, List.length_map, hlenv]
    omega
  have hstr : encode encoding hrp values = hrp ++ [charByte '1'] ++ data' := rfl
  constructor
  · -- the string itself: lower case throughout
    have hchk : checkCharacters (hrp ++ [charByte '1'] ++ data') = true := by
      rw [checkCharacters, checkCharactersFrom_lower _ false 0]
      · rfl
      · intro c hc
        simp only [List.mem_append, List.mem_singleton] at hc
        rcases hc with (h | rfl) | h
        · exact hhrp c h
        · exact hrpChar_one
        · exact (hdata c h).1
    have hrev : data'.map (fun c => CHARSET_REV.getD c.toNat (-1)) = vals.map (fun v => (v.toNat : Int)) := by
      rw [hdata_def, List.map_map]
      exact List.map_congr_left fun v hv => charsetRev_charset v (h32 v hv)
    rw [hstr, decode_split hchk (fun h => (hdata _ h).2 rfl) hne hlen' h6 hrev, hlower, hverify, if_neg henc, htake]
  · -- its upper-case form: `Decode` lowers the human-readable part and reads the values alike
    have hsep : upperCase (charByte '1') = charByte '1' := by decide
    have hup : (hrp ++ [charByte '1'] ++ data').map upperCase =
        hrp.map upperCase ++ [charByte '1'] ++ data'.map upperCase := by
      simp only [List.map_append, List.map_cons, List.map_nil, hsep]
    have hchk : checkCharacters (hrp.map upperCase ++ [charByte '1'] ++ data'.map upperCase) = true := by
      rw [checkCharacters, checkCharactersFrom_upper _ false 0]
      · rfl
      · intro c hc
        simp only [List.mem_append, List.mem_singleton, List.mem_map] at hc
        rcases hc with (⟨d, hd, rfl⟩ | rfl) | ⟨d, hd, rfl⟩
        · obtain ⟨h1, h2, h3, -⟩ := upperCase_char d (hhrp d hd)
          exact ⟨h1, h2, h3⟩
        · exact ⟨by decide, by decide, by decide⟩
        · obtain ⟨h1, h2, h3, -⟩ := upperCase_char d (hdata d hd).1
          exact ⟨h1, h2, h3⟩
    have hone : charByte '1' ∉ data'.map upperCase := by
      intro h
      obtain ⟨d, hd, heq⟩ := List.mem_map.mp h
      exact (hdata d hd).2 ((upperCase_char d (hdata d hd).1).2.2.2.2.mp heq)
    have hlower' : (hrp.map upperCase).map lowerCase = hrp := by
      rw [List.map_map]
      conv => rhs; rw [← List.map_id hrp]
      exact List.map_congr_left fun c hc => (upperCase_char c (hhrp c hc)).2.2.2.1
    have hrev : (data'.map upperCase).map (fun c => CHARSET_REV.getD c.toNat (-1)) =
        vals.map (fun v => (v.toNat : Int)) := by
      rw [hdata_def, List.map_map, List.map_map]
      exact List.map_congr_left fun v hv => charsetRev_upperCase_charset v (h32 v hv)
    rw [hstr, hup, decode_split hchk hone (by simpa using hne) (by simpa using hlen') (by simpa using h6) hrev,
      hlower', hverify, if_neg henc, htake]

/-- What `Decode` accepts: a last separator at `pos`, six or more data characters after it, each
spelling a 5-bit value, and the result read off the human-readable part and those values. -/
theorem decode_accepted {str : Bytes} (h : (decode str).encoding ≠ .INVALID) :
    ∃ pos vals, rfind str (charByte '1') = some pos ∧ 6 ≤ vals.length ∧ (∀ v ∈ vals, v.toNat < 32) ∧
      vals.map (fun v => CHARSET.getD v.toNat 0) = (str.drop (pos + 1)).map lowerCase ∧
      decode str = ⟨verifyChecksum ((str.take pos).map lowerCase) vals, (str.take pos).map lowerCase,
        vals.take (vals.length - 6)⟩ := by
  -- every rejecting branch returns `DecodeResult.invalid`, whose encoding is `INVALID`
  have hinv : DecodeResult.invalid.encoding ≠ .INVALID → False := fun h => h rfl
  by_cases hc : (!checkCharacters str) = true
  · rw [decode, if_pos hc] at h
    exact (hinv h).elim
  rw [decode, if_neg hc] at h ⊢
  cases hpos : rfind str (charByte '1') with
  | none =>
    rw [hpos] at h
    exact (hinv h).elim
  | some pos =>
    rw [hpos] at h
    dsimp only at h ⊢
    by_cases hlen : str.length > 90 ∨ pos = 0 ∨ pos + 7 > str.length
    · rw [if_pos hlen] at h
      exact (hinv h).elim
    rw [if_neg hlen] at h ⊢
    by_cases hany : ((str.drop (pos + 1)).map fun c => CHARSET_REV.getD c.toNat (-1)).any (· = -1) = true
    · rw [if_pos hany] at h
      exact (hinv h).elim
    rw [if_neg hany] at h ⊢
    by_cases hres : verifyChecksum ((str.take pos).map lowerCase)
        (((str.drop (pos + 1)).map fun c => CHARSET_REV.getD c.toNat (-1)).map fun rev => rev.toNat.toUInt8) =
          .INVALID
    · rw [if_pos hres] at h
      exact (hinv h).elim
    rw [if_neg hres]
    -- every data character has a value
    have hrev : ∀ c ∈ str.drop (pos + 1), CHARSET_REV.getD c.toNat (-1) ≠ -1 := by
      intro c hc heq
      exact hany (List.any_eq_true.mpr ⟨_, List.mem_map_of_mem hc, decide_eq_true heq⟩)
    refine ⟨pos, _, rfl, ?_, ?_, ?_, rfl⟩
    · simp only [List.length_map, List.length_drop]
      omega
    · intro v hv
      simp only [List.map_map, List.mem_map, Function.comp_apply] at hv
      obtain ⟨c, hc, rfl⟩ := hv
      obtain ⟨h0, h32⟩ := charsetRev_range c (hrev c hc)
      simp only [Nat.toUInt8, UInt8.toNat_ofNat']
      omega
    · rw [List.map_map, List.map_map]
      exact List.map_congr_left fun c hc => charset_charsetRev c (hrev c hc)

theorem take_append_getD_drop {l : Bytes} {pos : Nat} (h : pos < l.length) :
    l.take pos ++ [l.getD pos 0] ++ l.drop (pos + 1) = l := by
  rw [List.append_assoc, List.singleton_append, List.getD_eq_getElem _ _ h, ← List.drop_eq_getElem_cons h,
    List.take_append_drop]

/-- A string `Decode` accepts is the encoding of its result, up to case: the trailing six values
are the checksum `CreateChecksum` computes, and each character is the one `CHARSET` spells. -/
theorem encode_decode {str : Bytes} (h : (decode str).encoding ≠ .INVALID) :
    encode (decode str).encoding (decode str).hrp (decode str).data = str.map lowerCase := by
  obtain ⟨pos, vals, hpos, h6, h32, hchars, hdec⟩ := decode_accepted h
  rw [hdec] at h ⊢
  dsimp only at h ⊢
  have hchk : vals.drop (vals.length - 6) = createChecksum (verifyChecksum ((str.take pos).map lowerCase) vals)
      ((str.take pos).map lowerCase) (vals.take (vals.length - 6)) := by
    refine eq_createChecksum (by rw [List.length_drop]; omega) (fun x hx => h32 x (List.mem_of_mem_drop hx)) ?_
    rw [List.append_assoc, List.take_append_drop]
    exact polyMod_of_verifyChecksum h
  obtain ⟨hlt, hget⟩ := rfind_eq_some hpos
  have hsep : lowerCase (charByte '1') = charByte '1' := by decide
  rw [encode, ← hchk, List.take_append_drop, hchars]
  conv => rhs; rw [← take_append_getD_drop hlt]
  rw [List.map_append, List.map_append, List.map_singleton, hget, hsep]

theorem checkCharacters_of_decode {str : Bytes} (h : (decode str).encoding ≠ .INVALID) :
    checkCharacters str = true := by
  by_contra hc
  rw [decode, if_pos (by simpa using hc)] at h
  exact h rfl

/-- `Decode` reads back what `Encode` wrote, from its string and from that string in upper case;
and a string `Decode` accepts is `Encode`'s string of what it returns, in lower or in upper case. -/
theorem bech32_roundTrip :
    (∀ (encoding : Encoding) (hrp values : Bytes), encoding ≠ .INVALID → hrp ≠ [] → (∀ c ∈ hrp, HrpChar c) →
      (∀ v ∈ values, v.toNat < 32) → hrp.length + 1 + values.length + 6 ≤ 90 →
      decode (encode encoding hrp values) = ⟨encoding, hrp, values⟩ ∧
        decode ((encode encoding hrp values).map upperCase) = ⟨encoding, hrp, values⟩) ∧
    (∀ str : Bytes, (decode str).encoding ≠ .INVALID →
      str = encode (decode str).encoding (decode str).hrp (decode str).data ∨
        str = (encode (decode str).encoding (decode str).hrp (decode str).data).map upperCase) := by
  refine ⟨fun encoding hrp values henc hne hhrp hvals hlen => decode_encode henc hne hhrp hvals hlen, ?_⟩
  intro str h
  rw [encode_decode h]
  -- the string passed the character check, so it is in one case
  have hnil := List.isEmpty_iff.mp (checkCharacters_of_decode h)
  rcases (checkCharactersFrom_eq_nil str false false 0 hnil).2.2 with hcase | hcase
  · left
    conv => lhs; rw [← List.map_id str]
    exact List.map_congr_left fun c hc => (if_neg (hcase c hc)).symm
  · right
    rw [List.map_map]
    conv => lhs; rw [← List.map_id str]
    exact List.map_congr_left fun c hc => (upperCase_lowerCase c (hcase c hc)).symm

/-- The test vector "a12uel5l": the empty data under the human-readable part "a", read back from
it, and its upper-case form "A12UEL5L" is the upper-case form of that encoding. -/
theorem bech32_roundTrip_a12uel5l :
    encode .BECH32 [charByte 'a'] [] = "a12uel5l".toList.map charByte ∧
      (decode (encode .BECH32 [charByte 'a'] []) = ⟨.BECH32, [charByte 'a'], []⟩ ∧
        decode ((encode .BECH32 [charByte 'a'] []).map upperCase) = ⟨.BECH32, [charByte 'a'], []⟩) ∧
      ("A12UEL5L".toList.map charByte =
          encode (decode ("A12UEL5L".toList.map charByte)).encoding (decode ("A12UEL5L".toList.map charByte)).hrp
            (decode ("A12UEL5L".toList.map charByte)).data ∨
        "A12UEL5L".toList.map charByte =
          (encode (decode ("A12UEL5L".toList.map charByte)).encoding
            (decode ("A12UEL5L".toList.map charByte)).hrp (decode ("A12UEL5L".toList.map charByte)).data).map
            upperCase) :=
  ⟨by decide +kernel,
    bech32_roundTrip.1 .BECH32 [charByte 'a'] [] (by decide) (by simp) (by decide +kernel) (by simp) (by decide),
    bech32_roundTrip.2 _ (by decide +kernel)⟩

end Decode

end BlackcoinMore.Bech32
