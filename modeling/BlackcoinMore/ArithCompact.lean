import BlackcoinMore.ArithUint256
import BlackcoinMore.Limbs

/-! The value of the limb loops of `base_uint` and the compact target encoding. The shifts,
`bits()`, `GetLow64()` and the integer constructors compute what their names say on the
number the limbs stand for; from that, `SetCompact(GetCompact(x))` keeps the top three bytes
of `x`, and `GetCompact` reads its own encodings back. -/
namespace BlackcoinMore.ArithCompact
open ArithUint256 BaseUint ArithUint256.ArithUint256 Limbs

section Value
variable {WIDTH : Nat}

theorem toNat_eq_val (a : BaseUint WIDTH) : a.toNat = val a.pn := by
  unfold BaseUint.toNat
  induction a.pn with
  | nil => rfl
  | cons w l ih => rw [List.foldr_cons, ih, val_cons]

theorem testBit_toNat (a : BaseUint WIDTH) (j : Nat) :
    a.toNat.testBit j = (a.pn.getD (j / 32) 0).toNat.testBit (j % 32) := by
  rw [toNat_eq_val, testBit_val]

theorem toNat_lt (a : BaseUint WIDTH) : a.toNat < 2 ^ (32 * WIDTH) := by
  have h := val_lt a.pn
  rwa [a.length_pn, ← toNat_eq_val] at h

theorem eq_of_toNat_eq {a b : BaseUint WIDTH} (h : a.toNat = b.toNat) : a = b := by
  have hpn : a.pn = b.pn := by
    rw [toNat_eq_val, toNat_eq_val] at h
    exact eq_of_val_eq (by rw [a.length_pn, b.length_pn]) h
  cases a; cases b
  cases hpn
  rfl

theorem toNat_ofNat (n : Nat) : (BaseUint.ofNat n : BaseUint WIDTH).toNat = n % 2 ^ (32 * WIDTH) := by
  apply Nat.eq_of_testBit_eq
  intro j
  rw [testBit_toNat, Nat.testBit_mod_two_pow]
  unfold BaseUint.ofNat
  rw [getD_map_range]
  by_cases hj : j / 32 < WIDTH
  · have hlt : j < 32 * WIDTH := by omega
    rw [if_pos hj, Nat.toUInt32, UInt32.toNat_ofNat', Nat.testBit_mod_two_pow, Nat.testBit_div_two_pow]
    have hj' : j % 32 + 32 * (j / 32) = j := by omega
    simp [Nat.mod_lt j (by norm_num : 0 < 32), hj', hlt]
  · have hlt : ¬ j < 32 * WIDTH := by omega
    simp [hj, hlt]

/-- The low 64 bits, from the first two limbs. -/
theorem toNat_getLow64 (a : BaseUint WIDTH) : a.getLow64.toNat = a.toNat % 2 ^ 64 := by
  apply Nat.eq_of_testBit_eq
  intro j
  unfold getLow64
  rw [UInt64.toNat_or, Nat.testBit_or, UInt64.toNat_shiftLeft, Nat.testBit_mod_two_pow,
    Nat.testBit_mod_two_pow, UInt32.toNat_toUInt64, UInt32.toNat_toUInt64]
  have h32 : (32 : UInt64).toNat % 64 = 32 := rfl
  rw [h32, Nat.testBit_shiftLeft, testBit_toNat]
  by_cases hj : j < 32
  · have hdiv : j / 32 = 0 := by omega
    have hmod : j % 32 = j := by omega
    simp [hj, hdiv, hmod, show j < 64 by omega]
  · by_cases hj' : j < 64
    · have hdiv : j / 32 = 1 := by omega
      have hmod : j % 32 = j - 32 := by omega
      simp [hj', hdiv, hmod, testBit_toNat_of_le _ (show 32 ≤ j by omega), show 32 ≤ j by omega]
    · simp [hj', testBit_toNat_of_le _ (show 32 ≤ j by omega)]

/-- `base_uint(uint64_t)` holds the number. -/
theorem toNat_ofUInt64 (b : UInt64) (hW : 2 ≤ WIDTH) : (ofUInt64 b : BaseUint WIDTH).toNat = b.toNat := by
  apply Nat.eq_of_testBit_eq
  intro j
  rw [testBit_toNat]
  unfold ofUInt64
  rw [getD_map_range]
  have h32 : (32 : UInt64).toNat % 64 = 32 := rfl
  by_cases hj : j < 32
  -- the low limb
  · have hdiv : j / 32 = 0 := by omega
    have hmod : j % 32 = j := by omega
    rw [hdiv, hmod, if_pos (by omega), if_pos rfl, UInt64.toNat_toUInt32, Nat.testBit_mod_two_pow]
    simp [hj]
  · by_cases hj' : j < 64
    -- the high limb
    · have hdiv : j / 32 = 1 := by omega
      rw [hdiv, if_pos (by omega), if_neg (by decide), if_pos rfl, UInt64.toNat_toUInt32,
        Nat.testBit_mod_two_pow, UInt64.toNat_shiftRight, h32, Nat.testBit_shiftRight]
      have hj'' : 32 + j % 32 = j := by omega
      simp [Nat.mod_lt j (by norm_num : 0 < 32), hj'']
    -- no bit of a 64-bit number
    · have hbj : b.toNat.testBit j = false :=
        Nat.testBit_lt_two_pow (Nat.lt_of_lt_of_le b.toNat_lt (Nat.pow_le_pow_right (by norm_num) (by omega)))
      rw [hbj, if_neg (show j / 32 ≠ 0 by omega), if_neg (show j / 32 ≠ 1 by omega)]
      split_ifs <;> simp

end Value

/-! ### The shift loops -/

section Shifts
variable (a : List UInt32) (k s : Nat)

/-- Limb `p` once the `operator<<=` loop has run over the source limbs below `n`: limb `p - k`
shifted up by `s`, and the bits limb `p - k - 1` shifts out. -/
def shlPart (n p : Nat) : UInt32 :=
  (if k ≤ p ∧ p - k < n ∧ p < a.length then a.getD (p - k) 0 <<< s.toUInt32 else 0) |||
  (if k + 1 ≤ p ∧ p - k - 1 < n ∧ p < a.length ∧ s ≠ 0 then
    a.getD (p - k - 1) 0 >>> (32 - s).toUInt32 else 0)

/-- Limb `p` once the `operator>>=` loop has run over the source limbs below `n`. -/
def shrPart (n p : Nat) : UInt32 :=
  (if p + k < n ∧ p < a.length then a.getD (p + k) 0 >>> s.toUInt32 else 0) |||
  (if p + k + 1 < n ∧ p < a.length ∧ s ≠ 0 then a.getD (p + k + 1) 0 <<< (32 - s).toUInt32 else 0)

theorem getD_shlStep (pn : List UInt32) (hlen : pn.length = a.length) (i p : Nat) :
    (shlStep a k s pn i).getD p 0 = pn.getD p 0 |||
      (if p = i + k ∧ p < a.length then a.getD i 0 <<< s.toUInt32 else 0) |||
      (if p = i + k + 1 ∧ p < a.length ∧ s ≠ 0 then a.getD i 0 >>> (32 - s).toUInt32 else 0) := by
  unfold shlStep
  dsimp only
  rw [getD_ite_modify_or, length_ite_modify, getD_ite_modify_or, hlen]
  -- the same two writes, in the other order
  have e1 : ((i + k + 1 < a.length ∧ s ≠ 0) ∧ i + k + 1 = p ∧ p < a.length) ↔
      (p = i + k + 1 ∧ p < a.length ∧ s ≠ 0) := by omega
  have e2 : (i + k < a.length ∧ i + k = p ∧ p < a.length) ↔ (p = i + k ∧ p < a.length) := by omega
  rw [if_congr e1 rfl rfl, if_congr e2 rfl rfl]
  ac_rfl

theorem getD_shrStep (pn : List UInt32) (hlen : pn.length = a.length) (i p : Nat) :
    (shrStep a k s pn i).getD p 0 = pn.getD p 0 |||
      (if p + k = i ∧ p < a.length then a.getD i 0 >>> s.toUInt32 else 0) |||
      (if p + k + 1 = i ∧ p < a.length ∧ s ≠ 0 then a.getD i 0 <<< (32 - s).toUInt32 else 0) := by
  unfold shrStep
  dsimp only
  rw [getD_ite_modify_or, length_ite_modify, getD_ite_modify_or, hlen]
  have e1 : ((k + 1 ≤ i ∧ s ≠ 0) ∧ i - k - 1 = p ∧ p < a.length) ↔
      (p + k + 1 = i ∧ p < a.length ∧ s ≠ 0) := by omega
  have e2 : (k ≤ i ∧ i - k = p ∧ p < a.length) ↔ (p + k = i ∧ p < a.length) := by omega
  rw [if_congr e1 rfl rfl, if_congr e2 rfl rfl]
  ac_rfl

theorem shlPart_succ (n p : Nat) :
    shlPart a k s (n + 1) p = shlPart a k s n p |||
      (if p = n + k ∧ p < a.length then a.getD n 0 <<< s.toUInt32 else 0) |||
      (if p = n + k + 1 ∧ p < a.length ∧ s ≠ 0 then a.getD n 0 >>> (32 - s).toUInt32 else 0) := by
  unfold shlPart
  -- source limb `n` feeds limb `n + k` with its low bits and limb `n + k + 1` with its high bits
  have hlow : (if k ≤ p ∧ p - k < n + 1 ∧ p < a.length then a.getD (p - k) 0 <<< s.toUInt32 else 0) =
      (if k ≤ p ∧ p - k < n ∧ p < a.length then a.getD (p - k) 0 <<< s.toUInt32 else 0) |||
        (if p = n + k ∧ p < a.length then a.getD n 0 <<< s.toUInt32 else 0) := by
    by_cases hp : p = n + k
    · subst hp
      simp
    · have h : (k ≤ p ∧ p - k < n + 1 ∧ p < a.length) ↔ (k ≤ p ∧ p - k < n ∧ p < a.length) := by omega
      simp only [h, hp, false_and, if_false, UInt32.or_zero]
  have hhigh : (if k + 1 ≤ p ∧ p - k - 1 < n + 1 ∧ p < a.length ∧ s ≠ 0 then
        a.getD (p - k - 1) 0 >>> (32 - s).toUInt32 else 0) =
      (if k + 1 ≤ p ∧ p - k - 1 < n ∧ p < a.length ∧ s ≠ 0 then
        a.getD (p - k - 1) 0 >>> (32 - s).toUInt32 else 0) |||
        (if p = n + k + 1 ∧ p < a.length ∧ s ≠ 0 then a.getD n 0 >>> (32 - s).toUInt32 else 0) := by
    by_cases hp : p = n + k + 1
    · subst hp
      have h1 : n + k + 1 - k - 1 = n := by omega
      simp [h1]
    · have h : (k + 1 ≤ p ∧ p - k - 1 < n + 1 ∧ p < a.length ∧ s ≠ 0) ↔
          (k + 1 ≤ p ∧ p - k - 1 < n ∧ p < a.length ∧ s ≠ 0) := by omega
      simp only [h, hp, false_and, if_false, UInt32.or_zero]
  rw [hlow, hhigh]
  ac_rfl

theorem shrPart_succ (n p : Nat) :
    shrPart a k s (n + 1) p = shrPart a k s n p |||
      (if p + k = n ∧ p < a.length then a.getD n 0 >>> s.toUInt32 else 0) |||
      (if p + k + 1 = n ∧ p < a.length ∧ s ≠ 0 then a.getD n 0 <<< (32 - s).toUInt32 else 0) := by
  unfold shrPart
  have hlow : (if p + k < n + 1 ∧ p < a.length then a.getD (p + k) 0 >>> s.toUInt32 else 0) =
      (if p + k < n ∧ p < a.length then a.getD (p + k) 0 >>> s.toUInt32 else 0) |||
        (if p + k = n ∧ p < a.length then a.getD n 0 >>> s.toUInt32 else 0) := by
    by_cases hp : p + k = n
    · subst hp
      simp
    · have h : (p + k < n + 1 ∧ p < a.length) ↔ (p + k < n ∧ p < a.length) := by omega
      simp only [h, hp, false_and, if_false, UInt32.or_zero]
  have hhigh : (if p + k + 1 < n + 1 ∧ p < a.length ∧ s ≠ 0 then
        a.getD (p + k + 1) 0 <<< (32 - s).toUInt32 else 0) =
      (if p + k + 1 < n ∧ p < a.length ∧ s ≠ 0 then a.getD (p + k + 1) 0 <<< (32 - s).toUInt32 else 0) |||
        (if p + k + 1 = n ∧ p < a.length ∧ s ≠ 0 then a.getD n 0 <<< (32 - s).toUInt32 else 0) := by
    by_cases hp : p + k + 1 = n
    · subst hp
      simp
    · have h : (p + k + 1 < n + 1 ∧ p < a.length ∧ s ≠ 0) ↔ (p + k + 1 < n ∧ p < a.length ∧ s ≠ 0) := by
        omega
      simp only [h, hp, false_and, if_false, UInt32.or_zero]
  rw [hlow, hhigh]
  ac_rfl

/-- The `operator<<=` loop over the first `n` source limbs, limb by limb. -/
theorem getD_shlFold (n p : Nat) :
    ((List.range n).foldl (shlStep a k s) (List.replicate a.length 0)).getD p 0 = shlPart a k s n p := by
  induction n with
  | zero => simp [shlPart]
  | succ n ih =>
    rw [List.range_succ, List.foldl_append, List.foldl_cons, List.foldl_nil,
      getD_shlStep a k s _ (by rw [length_foldl_step _ (length_shlStep _ _ _), List.length_replicate]),
      ih, shlPart_succ]

theorem getD_shrFold (n p : Nat) :
    ((List.range n).foldl (shrStep a k s) (List.replicate a.length 0)).getD p 0 = shrPart a k s n p := by
  induction n with
  | zero => simp [shrPart]
  | succ n ih =>
    rw [List.range_succ, List.foldl_append, List.foldl_cons, List.foldl_nil,
      getD_shrStep a k s _ (by rw [length_foldl_step _ (length_shrStep _ _ _), List.length_replicate]),
      ih, shrPart_succ]

end Shifts

section ShiftValue
variable {WIDTH : Nat}

theorem testBit_ite_zero (c : Prop) [Decidable c] (w : UInt32) (b : Nat) :
    (if c then w else 0 : UInt32).toNat.testBit b = (decide c && w.toNat.testBit b) := by
  split_ifs with h <;> simp [h]

/-- `operator<<=`: the number times `2 ^ shift`, cut to `32 * WIDTH` bits. -/
theorem toNat_shiftLeft (a : BaseUint WIDTH) (shift : UInt32) :
    (a.shiftLeft shift).toNat = a.toNat * 2 ^ shift.toNat % 2 ^ (32 * WIDTH) := by
  set k := shift.toNat / 32
  set r := shift.toNat % 32
  have hr : r < 32 := Nat.mod_lt _ (by norm_num)
  have hlimb : ∀ p, (a.shiftLeft shift).pn.getD p 0 = shlPart a.pn k r WIDTH p := by
    intro p
    have h := getD_shlFold a.pn k r a.pn.length p
    rwa [a.length_pn] at h
  apply Nat.eq_of_testBit_eq
  intro j
  rw [testBit_toNat, hlimb, Nat.testBit_mod_two_pow, Nat.testBit_mul_two_pow, testBit_toNat]
  unfold shlPart
  rw [UInt32.toNat_or, Nat.testBit_or, a.length_pn, testBit_ite_zero, testBit_ite_zero]
  by_cases hW : j / 32 < WIDTH
  · have hjW : j < 32 * WIDTH := by omega
    by_cases hb : r ≤ j % 32
    -- bit `j` comes from limb `j / 32 - k`, shifted up by `r`; the carried bits miss it
    · have hhigh : (decide (k + 1 ≤ j / 32 ∧ j / 32 - k - 1 < WIDTH ∧ j / 32 < WIDTH ∧ r ≠ 0) &&
          (a.pn.getD (j / 32 - k - 1) 0 >>> (32 - r).toUInt32).toNat.testBit (j % 32)) = false := by
        by_cases hr0 : r = 0
        · simp [hr0]
        · rw [testBit_toNat_shiftRight _ (by omega), testBit_toNat_of_le _ (by omega), Bool.and_false]
      rw [hhigh, Bool.or_false, testBit_toNat_shiftLeft _ hr]
      by_cases hk : k ≤ j / 32
      · have hc : k ≤ j / 32 ∧ j / 32 - k < WIDTH ∧ j / 32 < WIDTH := ⟨hk, by omega, hW⟩
        have hdiv : (j - shift.toNat) / 32 = j / 32 - k := by omega
        have hmod : (j - shift.toNat) % 32 = j % 32 - r := by omega
        simp [hc, hjW, hb, hdiv, hmod, Nat.mod_lt j (by norm_num : 0 < 32), show shift.toNat ≤ j by omega]
      · simp [hk, show ¬ shift.toNat ≤ j by omega]
    -- bit `j` comes from the top of limb `j / 32 - k - 1`, carried up past the limb boundary
    · have hlow : (a.pn.getD (j / 32 - k) 0 <<< r.toUInt32).toNat.testBit (j % 32) = false := by
        rw [testBit_toNat_shiftLeft _ hr]
        simp [hb]
      rw [hlow, Bool.and_false, Bool.false_or]
      by_cases hk : k + 1 ≤ j / 32
      · have hc : k + 1 ≤ j / 32 ∧ j / 32 - k - 1 < WIDTH ∧ j / 32 < WIDTH ∧ r ≠ 0 :=
          ⟨hk, by omega, hW, by omega⟩
        have hdiv : (j - shift.toNat) / 32 = j / 32 - k - 1 := by omega
        have hmod : (j - shift.toNat) % 32 = 32 - r + j % 32 := by omega
        rw [testBit_toNat_shiftRight _ (by omega)]
        simp [hc, hjW, hdiv, hmod, show shift.toNat ≤ j by omega]
      · simp [hk, show ¬ shift.toNat ≤ j by omega]
  · simp [hW, show ¬ j < 32 * WIDTH by omega]

/-- `operator>>=`: the number divided by `2 ^ shift`. -/
theorem toNat_shiftRight (a : BaseUint WIDTH) (shift : UInt32) :
    (a.shiftRight shift).toNat = a.toNat / 2 ^ shift.toNat := by
  set k := shift.toNat / 32
  set r := shift.toNat % 32
  have hr : r < 32 := Nat.mod_lt _ (by norm_num)
  have hlimb : ∀ p, (a.shiftRight shift).pn.getD p 0 = shrPart a.pn k r WIDTH p := by
    intro p
    have h := getD_shrFold a.pn k r a.pn.length p
    rwa [a.length_pn] at h
  -- a source limb past the top reads as zero
  have hzero : ∀ q, WIDTH ≤ q → a.pn.getD q 0 = 0 := fun q hq =>
    List.getD_eq_default _ _ (by rw [a.length_pn]; exact hq)
  apply Nat.eq_of_testBit_eq
  intro j
  rw [testBit_toNat, hlimb, Nat.testBit_div_two_pow, testBit_toNat]
  unfold shrPart
  rw [UInt32.toNat_or, Nat.testBit_or, a.length_pn, testBit_ite_zero, testBit_ite_zero]
  by_cases hW : j / 32 < WIDTH
  · by_cases hb : j % 32 + r < 32
    -- bit `j` comes from limb `j / 32 + k`, shifted down by `r`
    · have hdiv : (j + shift.toNat) / 32 = j / 32 + k := by omega
      have hmod : (j + shift.toNat) % 32 = r + j % 32 := by omega
      have hhigh : (decide (j / 32 + k + 1 < WIDTH ∧ j / 32 < WIDTH ∧ r ≠ 0) &&
          (a.pn.getD (j / 32 + k + 1) 0 <<< (32 - r).toUInt32).toNat.testBit (j % 32)) = false := by
        by_cases hr0 : r = 0
        · simp [hr0]
        · rw [testBit_toNat_shiftLeft _ (by omega)]
          simp [show ¬ 32 - r ≤ j % 32 by omega]
      rw [hhigh, Bool.or_false, hdiv, hmod, testBit_toNat_shiftRight _ hr]
      by_cases hk : j / 32 + k < WIDTH
      · simp [hk, hW]
      · rw [hzero _ (show WIDTH ≤ j / 32 + k by omega)]
        simp [hk]
    -- bit `j` comes from the bottom of limb `j / 32 + k + 1`, carried down past the boundary
    · have hdiv : (j + shift.toNat) / 32 = j / 32 + k + 1 := by omega
      have hmod : (j + shift.toNat) % 32 = j % 32 - (32 - r) := by omega
      have hlow : (a.pn.getD (j / 32 + k) 0 >>> r.toUInt32).toNat.testBit (j % 32) = false := by
        rw [testBit_toNat_shiftRight _ hr, testBit_toNat_of_le _ (by omega)]
      rw [hlow, Bool.and_false, Bool.false_or, hdiv, hmod, testBit_toNat_shiftLeft _ (by omega)]
      by_cases hk : j / 32 + k + 1 < WIDTH
      · simp [hk, hW, show r ≠ 0 by omega, Nat.mod_lt j (by norm_num : 0 < 32),
          show 32 - r ≤ j % 32 by omega]
      · rw [hzero _ (show WIDTH ≤ j / 32 + k + 1 by omega)]
        simp [hk]
  · have hbig : WIDTH ≤ (j + shift.toNat) / 32 := by omega
    rw [hzero _ hbig]
    simp [hW]

end ShiftValue

/-! ### `bits()` -/

section Bits
variable {WIDTH : Nat}

theorem topBit_eq_some {w : UInt32} {nbits : Nat} (h : topBit w = some nbits) :
    nbits < 32 ∧ w.toNat.testBit nbits = true ∧ ∀ b, nbits < b → w.toNat.testBit b = false := by
  unfold topBit at h
  rw [List.find?_map] at h
  obtain ⟨m, hm, rfl⟩ := Option.map_eq_some_iff.mp h
  obtain ⟨hm31, hpm, habove⟩ := find?_range_reverse_eq_some.mp hm
  simp only [Function.comp, and_shiftLeft_one_ne_zero w (show m + 1 < 32 by omega)] at hpm habove
  refine ⟨by omega, hpm, fun b hb => ?_⟩
  by_cases hb32 : b < 32
  · have := habove (b - 1) (by omega) (by omega)
    rwa [show b - 1 + 1 = b by omega, and_shiftLeft_one_ne_zero w hb32] at this
  · exact testBit_toNat_of_le w (by omega)

theorem topBit_eq_none {w : UInt32} (h : topBit w = none) : ∀ b, 0 < b → w.toNat.testBit b = false := by
  unfold topBit at h
  rw [List.find?_map, Option.map_eq_none_iff] at h
  have hnone := find?_range_reverse_eq_none.mp h
  intro b hb
  by_cases hb32 : b < 32
  · have := hnone (b - 1) (by omega)
    simp only [Function.comp] at this
    rwa [show b - 1 + 1 = b by omega, and_shiftLeft_one_ne_zero w hb32] at this
  · exact testBit_toNat_of_le w (by omega)

/-- A nonzero limb has some bit set. -/
theorem exists_testBit_of_ne_zero {w : UInt32} (hw : w ≠ 0) : ∃ b, w.toNat.testBit b = true := by
  by_contra hall
  apply hw
  apply UInt32.toNat_inj.mp
  apply Nat.eq_of_testBit_eq
  intro i
  have hi : ¬ w.toNat.testBit i = true := fun h => hall ⟨i, h⟩
  simpa using hi

/-- `bits()` is the bit length of the number: every bit from `bits()` on is clear, and the one
below it is set. -/
theorem bits_spec (a : BaseUint WIDTH) :
    a.toNat < 2 ^ a.bits ∧ (0 < a.bits → 2 ^ (a.bits - 1) ≤ a.toNat) := by
  -- a limb at or past the top reads as zero
  have hpast : ∀ q, WIDTH ≤ q → a.pn.getD q 0 = 0 := fun q hq =>
    List.getD_eq_default _ _ (by rw [a.length_pn]; exact hq)
  unfold bits
  split
  · next hnone =>
    have hzero : a.toNat = 0 := Nat.eq_of_testBit_eq fun j => by
      rw [testBit_toNat]
      by_cases hj : j / 32 < WIDTH
      · have := find?_range_reverse_eq_none.mp hnone (j / 32) hj
        simp only [bne_eq_false_iff_eq] at this
        rw [this]
        simp
      · rw [hpast (j / 32) (by omega)]
        simp
    simp [hzero]
  · next pos hpos =>
    obtain ⟨hposW, hne, habove⟩ := find?_range_reverse_eq_some.mp hpos
    have hw : a.pn.getD pos 0 ≠ 0 := by simpa using hne
    -- limbs above `pos` are zero
    have hhigher : ∀ q, pos < q → a.pn.getD q 0 = 0 := by
      intro q hq
      by_cases hqW : q < WIDTH
      · simpa using habove q hq hqW
      · exact hpast q (by omega)
    -- the top bit `nb` of limb `pos` gives the length `32 * pos + nb + 1`
    have key : ∀ nb, (a.pn.getD pos 0).toNat.testBit nb = true →
        (∀ b, nb < b → (a.pn.getD pos 0).toNat.testBit b = false) →
        a.toNat < 2 ^ (32 * pos + nb + 1) ∧ 2 ^ (32 * pos + nb) ≤ a.toNat := by
      intro nb hnb hclear
      have hnb32 : nb < 32 := by
        by_contra h
        rw [testBit_toNat_of_le _ (by omega)] at hnb
        exact Bool.false_ne_true hnb
      refine ⟨Nat.lt_pow_two_of_testBit _ fun i hi => ?_, Nat.ge_two_pow_of_testBit ?_⟩
      · rw [testBit_toNat]
        by_cases hi' : i / 32 = pos
        · rw [hi']
          exact hclear _ (by omega)
        · rw [hhigher _ (by omega)]
          simp
      · rw [testBit_toNat, show (32 * pos + nb) / 32 = pos by omega, show (32 * pos + nb) % 32 = nb by omega]
        exact hnb
    split
    · next nbits hnbits =>
      obtain ⟨-, hset, hclear⟩ := topBit_eq_some hnbits
      obtain ⟨hlt, hge⟩ := key nbits hset hclear
      exact ⟨hlt, fun _ => by simpa using hge⟩
    · next hnbits =>
      have hclear := topBit_eq_none hnbits
      -- only bit 0 can be set
      have hset : (a.pn.getD pos 0).toNat.testBit 0 = true := by
        obtain ⟨b, hb⟩ := exists_testBit_of_ne_zero hw
        by_cases hb0 : b = 0
        · rwa [hb0] at hb
        · rw [hclear b (by omega)] at hb
          exact absurd hb Bool.false_ne_true
      obtain ⟨hlt, hge⟩ := key 0 hset (fun b hb => hclear b hb)
      exact ⟨by simpa using hlt, fun _ => by simpa using hge⟩

theorem bits_eq_size (a : BaseUint WIDTH) : a.bits = a.toNat.size := by
  obtain ⟨hlt, hge⟩ := bits_spec a
  apply le_antisymm
  · by_cases h0 : a.bits = 0
    · omega
    · have := Nat.lt_size.mpr (hge (by omega))
      omega
  · exact Nat.size_le.mpr hlt

end Bits

/-! ### The compact encoding on numbers

What the encoding is meant to do, stated on the number: the exponent is the byte length, one
more when the high bit of the top byte is set (that bit would read as the sign), and the
mantissa is the top three bytes counted from the exponent. -/

section CompactNat
variable {X : Nat}

/-- The length of `X` in bytes. -/
def byteLength (X : Nat) : Nat := (X.size + 7) / 8

/-- The top three bytes of `X` at its byte length, as a 24-bit number. -/
def window (X : Nat) : Nat :=
  if byteLength X ≤ 3 then X * 2 ^ (8 * (3 - byteLength X)) else X / 2 ^ (8 * (byteLength X - 3))

def compactExponent (X : Nat) : Nat :=
  if X.testBit (8 * byteLength X - 1) then byteLength X + 1 else byteLength X

def compactMantissa (X : Nat) : Nat :=
  if X.testBit (8 * byteLength X - 1) then window X / 256 else window X

/-- What the compact form keeps of `X`: every bit below the top three bytes, counted from
`compactExponent X`, cleared. -/
def compactRound (X : Nat) : Nat :=
  X / 2 ^ (8 * (compactExponent X - 3)) * 2 ^ (8 * (compactExponent X - 3))

theorem lt_two_pow_byteLength (X : Nat) : X < 2 ^ (8 * byteLength X) :=
  Nat.size_le.mp (by unfold byteLength; omega)

theorem two_pow_byteLength_le (hX : 0 < X) : 2 ^ (8 * (byteLength X - 1)) ≤ X := by
  have := Nat.size_pos.mpr hX
  exact Nat.lt_size.mp (by unfold byteLength; omega)

theorem byteLength_le {n : Nat} (hX : X < 2 ^ (8 * n)) : byteLength X ≤ n := by
  have := Nat.size_le.mpr hX
  unfold byteLength
  omega

theorem byteLength_pos (hX : 0 < X) : 0 < byteLength X := by
  have := Nat.size_pos.mpr hX
  unfold byteLength
  omega

/-- The top bit of a number in `[2 ^ i, 2 ^ (i + 1))`. -/
theorem testBit_of_le_of_lt {W i : Nat} (hlo : 2 ^ i ≤ W) (hhi : W < 2 ^ (i + 1)) : W.testBit i = true := by
  rw [Nat.testBit_eq_decide_div_mod_eq, decide_eq_true_iff]
  have h1 : 1 ≤ W / 2 ^ i := (Nat.le_div_iff_mul_le (by positivity)).mpr (by simpa using hlo)
  have h2 : W / 2 ^ i < 2 := (Nat.div_lt_iff_lt_mul (by positivity)).mpr (by rw [Nat.pow_succ] at hhi; linarith)
  omega

theorem window_lt (X : Nat) : window X < 2 ^ 24 := by
  have hX := lt_two_pow_byteLength X
  unfold window
  split_ifs with h
  · calc X * 2 ^ (8 * (3 - byteLength X)) < 2 ^ (8 * byteLength X) * 2 ^ (8 * (3 - byteLength X)) :=
          Nat.mul_lt_mul_of_pos_right hX (by positivity)
      _ = 2 ^ 24 := by rw [← Nat.pow_add]; congr 1; omega
  · rw [Nat.div_lt_iff_lt_mul (by positivity), ← Nat.pow_add]
    exact Nat.lt_of_lt_of_le hX (Nat.pow_le_pow_right (by norm_num) (by omega))

theorem le_window (hX : 0 < X) : 2 ^ 16 ≤ window X := by
  have hlo := two_pow_byteLength_le hX
  have hn := byteLength_pos hX
  unfold window
  split_ifs with h
  · calc 2 ^ 16 = 2 ^ (8 * (byteLength X - 1)) * 2 ^ (8 * (3 - byteLength X)) := by
          rw [← Nat.pow_add]; congr 1; omega
      _ ≤ X * 2 ^ (8 * (3 - byteLength X)) := Nat.mul_le_mul_right _ hlo
  · rw [Nat.le_div_iff_mul_le (by positivity), ← Nat.pow_add]
    exact Nat.le_trans (Nat.pow_le_pow_right (by norm_num) (by omega)) hlo

/-- Bit 23 of the window is the high bit of the top byte. -/
theorem testBit_window (X : Nat) : (window X).testBit 23 = X.testBit (8 * byteLength X - 1) := by
  rcases Nat.eq_zero_or_pos X with rfl | hX
  · simp [window]
  · have hn := byteLength_pos hX
    unfold window
    split_ifs with h
    · rw [Nat.testBit_mul_two_pow]
      have h1 : 8 * (3 - byteLength X) ≤ 23 := by omega
      have h2 : 23 - 8 * (3 - byteLength X) = 8 * byteLength X - 1 := by omega
      simp [h1, h2]
    · rw [Nat.testBit_div_two_pow]
      congr 1
      omega

/-- Below `2 ^ 24`, bit 23 says whether the number reaches `2 ^ 23`. -/
theorem testBit_23 {W : Nat} (hW : W < 2 ^ 24) : W.testBit 23 = decide (2 ^ 23 ≤ W) := by
  rw [Nat.testBit_eq_decide_div_mod_eq]
  simp only [decide_eq_decide]
  omega

theorem compactMantissa_lt (X : Nat) : compactMantissa X < 2 ^ 23 := by
  have hw := window_lt X
  unfold compactMantissa
  split_ifs with h
  · omega
  · rw [← testBit_window, testBit_23 hw] at h
    simpa using h

theorem le_compactMantissa (hX : 0 < X) : 2 ^ 15 ≤ compactMantissa X := by
  have hw := le_window hX
  unfold compactMantissa
  split_ifs with h
  · rw [← testBit_window, testBit_23 (window_lt X)] at h
    simp only [decide_eq_true_eq] at h
    omega
  · omega

theorem compactExponent_le (hX : X < 2 ^ 256) : compactExponent X ≤ 33 := by
  have hn := byteLength_le (n := 32) (by simpa using hX)
  unfold compactExponent
  split_ifs <;> omega

/-- Only a 32-byte number whose top bit is set gets the exponent 33, with a two-byte mantissa. -/
theorem compactMantissa_lt_of_exponent (hX : X < 2 ^ 256) (h33 : compactExponent X = 33) :
    compactMantissa X < 2 ^ 16 := by
  have hn := byteLength_le (n := 32) (by simpa using hX)
  have hw := window_lt X
  unfold compactExponent at h33
  unfold compactMantissa
  split_ifs at h33 ⊢ with h
  · omega
  · omega

theorem compactMantissa_of_lt (h : 3 < compactExponent X) :
    compactMantissa X = X / 2 ^ (8 * (compactExponent X - 3)) := by
  unfold compactExponent at h ⊢
  unfold compactMantissa window
  split_ifs at h ⊢ with hb hn
  · -- a three-byte number whose top bit moved it to the fourth byte
    have h3 : byteLength X = 3 := by omega
    rw [h3]
    norm_num
  · rw [Nat.div_div_eq_div_mul, show (256 : Nat) = 2 ^ 8 by norm_num, ← Nat.pow_add]
    congr 2
    omega
  · omega
  · rfl

theorem compactMantissa_of_le (h : compactExponent X ≤ 3) :
    compactMantissa X = X * 2 ^ (8 * (3 - compactExponent X)) := by
  unfold compactExponent at h ⊢
  unfold compactMantissa window
  split_ifs at h ⊢ with hb hn
  · have hpow : 2 ^ (8 * (3 - byteLength X)) = 2 ^ (8 * (3 - (byteLength X + 1))) * 256 := by
      rw [show (256 : Nat) = 2 ^ 8 by norm_num, ← Nat.pow_add]
      congr 1
      omega
    rw [hpow, ← Nat.mul_assoc, Nat.mul_div_cancel _ (by norm_num)]
  · omega
  · rfl

theorem compactRound_le (X : Nat) : compactRound X ≤ X := Nat.div_mul_le_self _ _

/-- The compact form of a 32-bit mantissa shifted by whole bytes, once the mantissa is one
`GetCompact` leaves: two bytes at least, sign bit clear. -/
theorem compact_of_mantissa {M : Nat} (k : Nat) (hlo : 2 ^ 15 ≤ M) (hhi : M < 2 ^ 23) :
    compactExponent (M * 2 ^ (8 * k)) = k + 3 ∧ compactMantissa (M * 2 ^ (8 * k)) = M := by
  have hsize : (M * 2 ^ (8 * k)).size = M.size + 8 * k := by
    rw [← Nat.shiftLeft_eq, Nat.size_shiftLeft (by omega)]
  have h1 : 15 < M.size := Nat.lt_size.mpr hlo
  have h2 : M.size ≤ 23 := Nat.size_le.mpr hhi
  have hbl : byteLength (M * 2 ^ (8 * k)) = k + (M.size + 7) / 8 := by
    unfold byteLength
    omega
  have htop : ∀ j, (M * 2 ^ (8 * k)).testBit (8 * k + j) = M.testBit j := by
    intro j
    rw [Nat.testBit_mul_two_pow]
    simp
  unfold compactExponent compactMantissa window
  by_cases h16 : M.size = 16
  · -- a two-byte mantissa: its top bit is set, so the exponent counts one byte more
    have hM : M < 2 ^ 16 := Nat.size_le.mp (by omega)
    have hb : M.testBit 15 = true := testBit_of_le_of_lt hlo hM
    have hn : byteLength (M * 2 ^ (8 * k)) = k + 2 := by omega
    have hbit : 8 * byteLength (M * 2 ^ (8 * k)) - 1 = 8 * k + 15 := by omega
    rw [hbit, htop, hb, hn]
    simp only [if_true, true_and]
    split_ifs with hk
    · rw [Nat.mul_assoc, ← Nat.pow_add, show 8 * k + 8 * (3 - (k + 2)) = 8 by omega]
      omega
    · rw [show 8 * k = 8 * (k + 2 - 3) + 8 by omega, Nat.pow_add, ← Nat.mul_assoc,
        Nat.mul_right_comm, Nat.mul_div_cancel _ (by positivity)]
      omega
  · -- a three-byte mantissa below the sign bit
    have hn : byteLength (M * 2 ^ (8 * k)) = k + 3 := by omega
    have hbit : 8 * byteLength (M * 2 ^ (8 * k)) - 1 = 8 * k + 23 := by omega
    rw [hbit, htop, Nat.testBit_lt_two_pow hhi, hn]
    simp only [Bool.false_eq_true, if_false, true_and]
    split_ifs with hk
    · have hk0 : k = 0 := by omega
      subst hk0
      simp
    · rw [show k + 3 - 3 = k by omega, Nat.mul_div_cancel _ (by positivity)]

/-- A number whose significant bits fit in 23 bits at a byte boundary survives the round trip. -/
theorem compactRound_of_fits {m : Nat} (k : Nat) (hm : m < 2 ^ 23) :
    compactRound (m * 256 ^ k) = m * 256 ^ k := by
  rcases Nat.eq_zero_or_pos m with rfl | hm0
  · simp [compactRound]
  have hpow : (256 : Nat) ^ k = 2 ^ (8 * k) := by rw [Nat.pow_mul]
  rw [hpow]
  have hsize : (m * 2 ^ (8 * k)).size = m.size + 8 * k := by
    rw [← Nat.shiftLeft_eq, Nat.size_shiftLeft (by omega)]
  have h2 : m.size ≤ 23 := Nat.size_le.mpr hm
  have hbl : byteLength (m * 2 ^ (8 * k)) ≤ k + 3 := by
    unfold byteLength
    omega
  -- the bits cleared all lie below bit `8 * k`
  have he : compactExponent (m * 2 ^ (8 * k)) - 3 ≤ k := by
    unfold compactExponent
    split_ifs with hb
    · have hlt : byteLength (m * 2 ^ (8 * k)) ≠ k + 3 := by
        intro heq
        rw [heq, show 8 * (k + 3) - 1 = 8 * k + 23 by omega, Nat.testBit_mul_two_pow] at hb
        simp [Nat.testBit_lt_two_pow hm] at hb
      omega
    · omega
  unfold compactRound
  exact Nat.div_mul_cancel (Dvd.dvd.mul_left (Nat.pow_dvd_pow 2 (by omega)) m)

end CompactNat

section GetCompact

theorem toNat_toUInt32_of_lt {n : Nat} (h : n < 2 ^ 32) : n.toUInt32.toNat = n := by
  rw [Nat.toUInt32, UInt32.toNat_ofNat']
  exact Nat.mod_eq_of_lt h

/-- The first `nCompact` of `GetCompact`, from `GetLow64` or from the shifted number: the
window of the number. -/
theorem getCompact_window (a : ArithUint256) :
    (if byteLength a.toNat ≤ 3 then (a.getLow64 <<< (8 * (3 - byteLength a.toNat)).toUInt64).toUInt32
      else (a.shiftRight (8 * (byteLength a.toNat - 3)).toUInt32).getLow64.toUInt32).toNat =
      window a.toNat := by
  have hX := lt_two_pow_byteLength a.toNat
  have hw := window_lt a.toNat
  unfold window at hw ⊢
  split_ifs at hw ⊢ with h
  · have ht : (8 * (3 - byteLength a.toNat)).toUInt64.toNat % 64 = 8 * (3 - byteLength a.toNat) := by
      rw [Nat.toUInt64, UInt64.toNat_ofNat']
      omega
    have h64 : a.toNat < 2 ^ 64 :=
      Nat.lt_of_lt_of_le hX (Nat.pow_le_pow_right (by norm_num) (by omega))
    rw [UInt64.toNat_toUInt32, UInt64.toNat_shiftLeft, toNat_getLow64, ht, Nat.mod_eq_of_lt h64,
      Nat.shiftLeft_eq, Nat.mod_eq_of_lt (by omega), Nat.mod_eq_of_lt (by omega)]
  · have hlen := byteLength_le (n := 32) (by simpa using toNat_lt a)
    rw [UInt64.toNat_toUInt32, toNat_getLow64, toNat_shiftRight, toNat_toUInt32_of_lt (by omega),
      Nat.mod_eq_of_lt (lt_trans hw (by norm_num)), Nat.mod_eq_of_lt (lt_trans hw (by norm_num))]

section Normalize
variable {X : Nat} {nc : UInt32} {n : Nat}

/-- The sign-bit test on the window reads the high bit of the top byte. -/
theorem window_and_sign (hnc : nc.toNat = window X) :
    (nc &&& 8388608 != 0) = X.testBit (8 * byteLength X - 1) := by
  rw [show (8388608 : UInt32) = 1 <<< (23 : Nat).toUInt32 from rfl,
    and_shiftLeft_one_ne_zero nc (by norm_num), hnc, testBit_window]

/-- The normalization step of `GetCompact` turns the window and the byte length into the
mantissa and the exponent. The source then asserts that the mantissa has no bit above 22 and
that the exponent is below 256: `compactMantissa_lt` and `compactExponent_le`. -/
theorem getCompact_normalize (hnc : nc.toNat = window X) (hn : n = byteLength X) :
    (if (nc &&& 8388608 != 0) = true then (nc >>> 8, n + 1) else (nc, n)).1.toNat = compactMantissa X ∧
    (if (nc &&& 8388608 != 0) = true then (nc >>> 8, n + 1) else (nc, n)).2 = compactExponent X := by
  rw [window_and_sign hnc, hn]
  unfold compactMantissa compactExponent
  by_cases h : X.testBit (8 * byteLength X - 1)
  · simp only [h, if_true, and_true]
    rw [UInt32.toNat_shiftRight, hnc]
    exact Nat.shiftRight_eq_div_pow _ _
  · simp [h, hnc]

end Normalize

/-- Packing the exponent above a 24-bit mantissa adds it. -/
theorem toNat_or_shiftLeft_24 (m : UInt32) {e : Nat} (hm : m.toNat < 2 ^ 24) (he : e < 2 ^ 8) :
    (m ||| e.toUInt32 <<< 24).toNat = m.toNat + e * 2 ^ 24 := by
  have hshift : (e.toUInt32 <<< 24).toNat = 2 ^ 24 * e := by
    rw [UInt32.toNat_shiftLeft, toNat_toUInt32_of_lt (by omega), Nat.shiftLeft_eq]
    show e * 2 ^ 24 % 2 ^ 32 = 2 ^ 24 * e
    omega
  rw [UInt32.toNat_or, hshift, Nat.lor_comm, ← Nat.two_pow_add_eq_or_of_lt hm]
  ring

theorem getCompact_toNat (a : ArithUint256) :
    (getCompact a).toNat = compactMantissa a.toNat + compactExponent a.toNat * 2 ^ 24 := by
  have hn : (a.bits + 7) / 8 = byteLength a.toNat := by rw [bits_eq_size]; rfl
  have hX : a.toNat < 2 ^ 256 := toNat_lt a
  obtain ⟨hm, he⟩ := getCompact_normalize (getCompact_window a) rfl
  unfold getCompact
  simp only [hn, Bool.false_and, Bool.false_eq_true, if_false, UInt32.or_zero]
  rw [toNat_or_shiftLeft_24 _ (by rw [hm]; have := compactMantissa_lt a.toNat; omega)
      (by rw [he]; have := compactExponent_le hX; omega), hm, he]

end GetCompact

section SetCompact
variable {c : UInt32} {m e : Nat}

theorem setCompact_of_mantissa (hc : c.toNat = m + e * 2 ^ 24) (hm : m < 2 ^ 23) (he : e ≤ 33)
    (h33 : e = 33 → m < 2 ^ 16) :
    (setCompact c).2 = (false, false) ∧
    (setCompact c).1.toNat = if e ≤ 3 then m / 2 ^ (8 * (3 - e)) else m * 2 ^ (8 * (e - 3)) % 2 ^ 256 := by
  have hsize : (c >>> 24).toNat = e := by
    rw [UInt32.toNat_shiftRight, show (24 : UInt32).toNat % 32 = 24 from rfl, Nat.shiftRight_eq_div_pow, hc]
    omega
  have hword : (c &&& 0x007fffff).toNat = m := by
    rw [UInt32.toNat_and, show (0x007fffff : UInt32).toNat = 2 ^ 23 - 1 from rfl,
      Nat.and_two_pow_sub_one_eq_mod, hc]
    omega
  have hsign : (c &&& 8388608 != 0) = false := by
    rw [show (8388608 : UInt32) = 1 <<< (23 : Nat).toUInt32 from rfl,
      and_shiftLeft_one_ne_zero c (by norm_num), Nat.testBit_eq_decide_div_mod_eq, hc]
    simp only [decide_eq_false_iff_not]
    omega
  unfold setCompact
  simp only [hsize, hsign, Bool.and_false]
  have h34 : ¬ 34 < e := by omega
  have h33' : ¬ 33 < e := by omega
  split_ifs with h3
  · -- `nSize <= 3`: the mantissa is shifted down, and no test of the overflow can fire
    have h32 : ¬ 32 < e := by omega
    have hshift : ((c &&& 0x007fffff) >>> (8 * (3 - e)).toUInt32).toNat = m / 2 ^ (8 * (3 - e)) := by
      rw [UInt32.toNat_shiftRight, hword, toNat_toUInt32_of_lt (by omega), Nat.mod_eq_of_lt (by omega),
        Nat.shiftRight_eq_div_pow]
    simp only [h34, h33', h32, decide_false, Bool.and_false, Bool.or_false, true_and]
    rw [toNat_ofUInt64 _ (by norm_num), UInt32.toNat_toUInt64, hshift]
  · -- `nSize > 3`: only a 33-byte exponent could overflow, and then the mantissa has two bytes
    have h16 : ¬ (65535 : UInt32) < c &&& 0x007fffff ∨ ¬ 32 < e := by
      by_cases h32 : 32 < e
      · left
        rw [UInt32.lt_iff_toNat_lt, hword, show (65535 : UInt32).toNat = 65535 from rfl]
        have := h33 (by omega)
        omega
      · exact .inr h32
    refine ⟨?_, ?_⟩
    · rcases h16 with h16 | h16 <;> simp [h34, h33', h16]
    · rw [toNat_shiftLeft, toNat_ofUInt64 _ (by norm_num), UInt32.toNat_toUInt64, hword,
        toNat_toUInt32_of_lt (by omega)]

end SetCompact

section RoundTrip
variable {X : Nat}

theorem compactRound_of_exponent_le (h : compactExponent X ≤ 3) : compactRound X = X := by
  unfold compactRound
  rw [show compactExponent X - 3 = 0 by omega]
  simp

/-- Rounding does not move the compact form. -/
theorem compact_compactRound (X : Nat) :
    compactExponent (compactRound X) = compactExponent X ∧
    compactMantissa (compactRound X) = compactMantissa X := by
  by_cases h : compactExponent X ≤ 3
  · rw [compactRound_of_exponent_le h]
    exact ⟨rfl, rfl⟩
  · have hpos : 0 < X := by
      rcases Nat.eq_zero_or_pos X with rfl | hpos
      · simp [compactExponent, byteLength] at h
      · exact hpos
    have hround : compactRound X = compactMantissa X * 2 ^ (8 * (compactExponent X - 3)) := by
      unfold compactRound
      rw [compactMantissa_of_lt (by omega)]
    obtain ⟨he, hm⟩ := compact_of_mantissa (compactExponent X - 3) (le_compactMantissa hpos)
      (compactMantissa_lt X)
    rw [hround, he, hm]
    exact ⟨by omega, rfl⟩

theorem compactRound_pos (hX : 0 < X) : 0 < compactRound X := by
  by_cases h : compactExponent X ≤ 3
  · rwa [compactRound_of_exponent_le h]
  · have hround : compactRound X = compactMantissa X * 2 ^ (8 * (compactExponent X - 3)) := by
      unfold compactRound
      rw [compactMantissa_of_lt (by omega)]
    rw [hround]
    exact Nat.mul_pos (lt_of_lt_of_le (Nat.two_pow_pos 15) (le_compactMantissa hX)) (Nat.two_pow_pos _)

/-- What `SetCompact` decodes from the mantissa and exponent of `X`. -/
theorem decode_compact (hX : X < 2 ^ 256) :
    (if compactExponent X ≤ 3 then compactMantissa X / 2 ^ (8 * (3 - compactExponent X))
      else compactMantissa X * 2 ^ (8 * (compactExponent X - 3)) % 2 ^ 256) = compactRound X := by
  split_ifs with h
  · rw [compactMantissa_of_le h, Nat.mul_div_cancel _ (by positivity), compactRound_of_exponent_le h]
  · rw [compactMantissa_of_lt (by omega)]
    exact Nat.mod_eq_of_lt (lt_of_le_of_lt (compactRound_le X) hX)

end RoundTrip

theorem setCompact_getCompact (x : ArithUint256) :
    (setCompact (getCompact x)).2 = (false, false) ∧
    (setCompact (getCompact x)).1.toNat = compactRound x.toNat ∧
    (setCompact (getCompact x)).1.toNat ≤ x.toNat ∧
    (∀ m k, m < 2 ^ 23 → x.toNat = m * 256 ^ k → (setCompact (getCompact x)).1 = x) ∧
    getCompact (setCompact (getCompact x)).1 = getCompact x := by
  have hX : x.toNat < 2 ^ 256 := toNat_lt x
  obtain ⟨hflags, hval⟩ := setCompact_of_mantissa (getCompact_toNat x) (compactMantissa_lt _)
    (compactExponent_le hX) (compactMantissa_lt_of_exponent hX)
  have hround : (setCompact (getCompact x)).1.toNat = compactRound x.toNat := by
    rw [hval, decode_compact hX]
  refine ⟨hflags, hround, hround ▸ compactRound_le _, ?_, ?_⟩
  · intro m k hm hx
    apply eq_of_toNat_eq
    rw [hround, hx, compactRound_of_fits k hm]
  · -- re-encoding reads the same mantissa and exponent off the rounded number
    apply UInt32.toNat_inj.mp
    obtain ⟨he, hm⟩ := compact_compactRound x.toNat
    rw [getCompact_toNat, getCompact_toNat, hround, he, hm]

section Decode

theorem toNat_uintToArith256 (a : Primitives.Uint256) : (uintToArith256 a).toNat = a.toNat := by
  change (BaseUint.ofNat a.toNat : ArithUint256).toNat = _
  rw [toNat_ofNat]
  exact Nat.mod_eq_of_lt a.isLt

/-- The value `SetCompact` decodes, whatever its flags: the 23-bit mantissa moved by the exponent. -/
theorem toNat_setCompact (c : UInt32) :
    (setCompact c).1.toNat = if c.toNat / 2 ^ 24 ≤ 3 then c.toNat % 2 ^ 23 / 2 ^ (8 * (3 - c.toNat / 2 ^ 24))
      else c.toNat % 2 ^ 23 * 2 ^ (8 * (c.toNat / 2 ^ 24 - 3)) % 2 ^ 256 := by
  have hc := c.toNat_lt
  have hsize : (c >>> 24).toNat = c.toNat / 2 ^ 24 := by
    rw [UInt32.toNat_shiftRight, show (24 : UInt32).toNat % 32 = 24 from rfl, Nat.shiftRight_eq_div_pow]
  have hword : (c &&& 0x007fffff).toNat = c.toNat % 2 ^ 23 := by
    rw [UInt32.toNat_and, show (0x007fffff : UInt32).toNat = 2 ^ 23 - 1 from rfl, Nat.and_two_pow_sub_one_eq_mod]
  unfold setCompact
  simp only [hsize]
  split_ifs with h3
  · have hshift : ((c &&& 0x007fffff) >>> (8 * (3 - c.toNat / 2 ^ 24)).toUInt32).toNat =
        c.toNat % 2 ^ 23 / 2 ^ (8 * (3 - c.toNat / 2 ^ 24)) := by
      rw [UInt32.toNat_shiftRight, hword, toNat_toUInt32_of_lt (by omega),
        Nat.mod_eq_of_lt (show 8 * (3 - c.toNat / 2 ^ 24) < 32 by omega), Nat.shiftRight_eq_div_pow]
    rw [toNat_ofUInt64 _ (by norm_num), UInt32.toNat_toUInt64, hshift]
  · rw [toNat_shiftLeft, toNat_ofUInt64 _ (by norm_num), UInt32.toNat_toUInt64, hword,
      toNat_toUInt32_of_lt (by omega)]

/-- `SetCompact` never decodes to `2 ^ 256 - 1`: below four bytes it is small, past them the
mantissa moves by whole bytes and the value is even. So `bnTarget + 1` never wraps. -/
theorem toNat_setCompact_lt (c : UInt32) : (setCompact c).1.toNat < 2 ^ 256 - 1 := by
  rw [toNat_setCompact]
  split_ifs with h3
  · have := Nat.div_le_self (c.toNat % 2 ^ 23) (2 ^ (8 * (3 - c.toNat / 2 ^ 24)))
    omega
  · have heven : 2 ∣ c.toNat % 2 ^ 23 * 2 ^ (8 * (c.toNat / 2 ^ 24 - 3)) :=
      Dvd.dvd.mul_left (dvd_pow_self 2 (by omega)) _
    have hmod := (Nat.dvd_mod_iff (dvd_pow_self 2 (by norm_num : 256 ≠ 0))).mpr heven
    have hlt := Nat.mod_lt (c.toNat % 2 ^ 23 * 2 ^ (8 * (c.toNat / 2 ^ 24 - 3))) (Nat.two_pow_pos 256)
    omega

end Decode

end BlackcoinMore.ArithCompact
