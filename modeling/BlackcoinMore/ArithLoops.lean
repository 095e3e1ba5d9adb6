import BlackcoinMore.ArithCompact

/-! The limb loops of `base_uint` that compute with values: `operator~`, `operator+=`, the prefix
`operator++`, `operator-`, the two `operator*=` and the shift-and-subtract `operator/=`, each with
the number it computes. The value-level `mulUInt32` and `div` of `ArithUint256` are these loops. -/
namespace BlackcoinMore.ArithUint256
open Limbs ArithCompact

/-- The `operator+=` loop from a limb on: the low half of `carry + pn[i] + b.pn[i]` is stored
and the high half carried. -/
def addCarry : List UInt32 → List UInt32 → UInt64 → List UInt32
  | x :: xs, y :: ys, carry =>
    let n := carry + x.toUInt64 + y.toUInt64
    (n &&& 0xffffffff).toUInt32 :: addCarry xs ys (n >>> 32)
  | _, _, _ => []

theorem length_addCarry (xs ys : List UInt32) (carry : UInt64) (hlen : xs.length = ys.length) :
    (addCarry xs ys carry).length = xs.length := by
  induction xs generalizing ys carry with
  | nil => rfl
  | cons x xs ih =>
    cases ys with
    | nil => simp at hlen
    | cons y ys => simp [addCarry, ih ys _ (by simpa using hlen)]

theorem val_addCarry (xs ys : List UInt32) (carry : UInt64) (hlen : xs.length = ys.length)
    (hc : carry.toNat < 2 ^ 32) :
    val (addCarry xs ys carry) = (val xs + val ys + carry.toNat) % 2 ^ (32 * xs.length) := by
  induction xs generalizing ys carry with
  | nil => simp [addCarry, Nat.mod_one]
  | cons x xs ih =>
    cases ys with
    | nil => simp at hlen
    | cons y ys =>
      have hx := x.toNat_lt
      have hy := y.toNat_lt
      have hn : (carry + x.toUInt64 + y.toUInt64).toNat = carry.toNat + x.toNat + y.toNat := by
        rw [toNat_add_of_lt, toNat_add_of_lt] <;> simp only [UInt32.toNat_toUInt64] <;>
          first | omega | (rw [toNat_add_of_lt] <;> simp only [UInt32.toNat_toUInt64] <;> omega)
      simp only [addCarry, val_cons, toNat_low, hn]
      rw [ih ys _ (by simpa using hlen) (by rw [toNat_high, hn]; omega), toNat_high, hn,
        List.length_cons, Nat.mul_succ, Nat.pow_add, Nat.mul_comm (2 ^ (32 * xs.length)),
        carry_mod _ _ _ _ (by positivity)]
      congr 1
      ring

/-- The `operator*=(uint32_t)` loop from a limb on. -/
def mulCarry32 (b32 : UInt32) : List UInt32 → UInt64 → List UInt32
  | x :: xs, carry =>
    let n := carry + b32.toUInt64 * x.toUInt64
    (n &&& 0xffffffff).toUInt32 :: mulCarry32 b32 xs (n >>> 32)
  | [], _ => []

theorem length_mulCarry32 (b32 : UInt32) (xs : List UInt32) (carry : UInt64) :
    (mulCarry32 b32 xs carry).length = xs.length := by
  induction xs generalizing carry with
  | nil => rfl
  | cons x xs ih => simp [mulCarry32, ih]

theorem val_mulCarry32 (b32 : UInt32) (xs : List UInt32) (carry : UInt64) (hc : carry.toNat < 2 ^ 32) :
    val (mulCarry32 b32 xs carry) = (val xs * b32.toNat + carry.toNat) % 2 ^ (32 * xs.length) := by
  induction xs generalizing carry with
  | nil => simp [mulCarry32, Nat.mod_one]
  | cons x xs ih =>
    have hp := mul_toNat_le b32 x
    have hn : (carry + b32.toUInt64 * x.toUInt64).toNat = carry.toNat + b32.toNat * x.toNat := by
      rw [toNat_add_of_lt, toNat_mul_toUInt64]
      rw [toNat_mul_toUInt64]
      omega
    simp only [mulCarry32, val_cons, toNat_low, hn]
    rw [ih _ (by rw [toNat_high, hn]; omega), toNat_high, hn,
      List.length_cons, Nat.mul_succ, Nat.pow_add, Nat.mul_comm (2 ^ (32 * xs.length)),
      carry_mod _ _ _ _ (by positivity)]
    congr 1
    ring

/-- The inner loop of `operator*=(const base_uint&)` at limb `j` of the multiplier: `x * b` is
added into the product from limb `j` on, as far as the product reaches. -/
def mulAddCarry (x : UInt32) : List UInt32 → List UInt32 → UInt64 → List UInt32
  | a :: as, b :: bs, carry =>
    let n := carry + a.toUInt64 + x.toUInt64 * b.toUInt64
    (n &&& 0xffffffff).toUInt32 :: mulAddCarry x as bs (n >>> 32)
  | _, _, _ => []

theorem length_mulAddCarry (x : UInt32) (as bs : List UInt32) (carry : UInt64) (hlen : as.length ≤ bs.length) :
    (mulAddCarry x as bs carry).length = as.length := by
  induction as generalizing bs carry with
  | nil => rfl
  | cons a as ih =>
    cases bs with
    | nil => simp at hlen
    | cons b bs => simp [mulAddCarry, ih bs _ (by simpa using hlen)]

theorem val_mulAddCarry (x : UInt32) (as bs : List UInt32) (carry : UInt64) (hlen : as.length ≤ bs.length)
    (hc : carry.toNat < 2 ^ 32) :
    val (mulAddCarry x as bs carry) = (val as + x.toNat * val bs + carry.toNat) % 2 ^ (32 * as.length) := by
  induction as generalizing bs carry with
  | nil => simp [mulAddCarry, Nat.mod_one]
  | cons a as ih =>
    cases bs with
    | nil => simp at hlen
    | cons b bs =>
      have ha := a.toNat_lt
      have hp := mul_toNat_le x b
      have hn : (carry + a.toUInt64 + x.toUInt64 * b.toUInt64).toNat = carry.toNat + a.toNat + x.toNat * b.toNat := by
        rw [toNat_add_of_lt, toNat_add_of_lt, toNat_mul_toUInt64] <;>
          simp only [UInt32.toNat_toUInt64, toNat_mul_toUInt64] <;> try omega
        rw [toNat_add_of_lt] <;> simp only [UInt32.toNat_toUInt64] <;> omega
      simp only [mulAddCarry, val_cons, toNat_low, hn]
      rw [ih bs _ (by simpa using hlen) (by rw [toNat_high, hn]; omega), toNat_high, hn,
        List.length_cons, Nat.mul_succ, Nat.pow_add, Nat.mul_comm (2 ^ (32 * as.length)),
        carry_mod _ _ _ _ (by positivity)]
      congr 1
      ring

/-- Pass `j` of `operator*=(const base_uint&)`: `pn[j] * b` is added into the product from limb
`j` on. -/
def mulStep (pn bs acc : List UInt32) (j : Nat) : List UInt32 :=
  acc.take j ++ mulAddCarry (pn.getD j 0) (acc.drop j) bs 0

theorem length_mulStep (pn bs acc : List UInt32) (j : Nat) (hlen : acc.length ≤ bs.length) :
    (mulStep pn bs acc j).length = acc.length := by
  rw [mulStep, List.length_append, length_mulAddCarry _ _ _ _ (by simp; omega), List.length_take,
    List.length_drop]
  omega

theorem length_foldl_mulStep (pn bs : List UInt32) (js : List Nat) (acc : List UInt32)
    (hlen : acc.length ≤ bs.length) : (js.foldl (mulStep pn bs) acc).length = acc.length := by
  induction js generalizing acc with
  | nil => rfl
  | cons j js ih => rw [List.foldl_cons, ih _ (by rw [length_mulStep _ _ _ _ hlen]; exact hlen), length_mulStep _ _ _ _ hlen]

/-- One pass adds `pn[j] * b * 2 ^ (32 * j)`, modulo the width. -/
theorem val_mulStep (pn bs acc : List UInt32) (j : Nat) (hj : j ≤ acc.length) (hlen : acc.length ≤ bs.length) :
    val (mulStep pn bs acc j) =
      (val acc + 2 ^ (32 * j) * ((pn.getD j 0).toNat * val bs)) % 2 ^ (32 * acc.length) := by
  have hsplit := val_append (acc.take j) (acc.drop j)
  rw [List.take_append_drop, List.length_take_of_le hj] at hsplit
  rw [mulStep, val_append, List.length_take_of_le hj,
    val_mulAddCarry _ _ _ _ (by simp; omega) (by simp), List.length_drop, hsplit,
    show 32 * acc.length = 32 * j + 32 * (acc.length - j) by omega, Nat.pow_add]
  have hT := val_lt_of_take acc j
  generalize val (acc.take j) = T at hT ⊢
  generalize val (acc.drop j) = D
  rw [UInt64.toNat_zero, Nat.add_zero, Nat.add_assoc, ← Nat.mul_add, add_mul_mod_mul hT]

/-- `operator++`: the lowest limb that does not wrap to zero is incremented. -/
def incrementLimbs : List UInt32 → List UInt32
  | x :: xs => if x + 1 = 0 then 0 :: incrementLimbs xs else (x + 1) :: xs
  | [] => []

theorem length_incrementLimbs (xs : List UInt32) : (incrementLimbs xs).length = xs.length := by
  induction xs with
  | nil => rfl
  | cons x xs ih =>
    rw [incrementLimbs]
    split_ifs <;> simp [ih]

theorem val_incrementLimbs (xs : List UInt32) : val (incrementLimbs xs) = (val xs + 1) % 2 ^ (32 * xs.length) := by
  induction xs with
  | nil => simp [incrementLimbs]
  | cons x xs ih =>
    have hx := x.toNat_lt
    have hl := val_lt xs
    rw [incrementLimbs, List.length_cons, Nat.mul_succ, Nat.pow_add]
    split_ifs with h
    · have hmax : x.toNat = 2 ^ 32 - 1 := by
        have := congrArg UInt32.toNat h
        rw [UInt32.toNat_add, UInt32.toNat_one] at this
        simp at this
        omega
      rw [val_cons, val_cons, ih, UInt32.toNat_zero, hmax, Nat.zero_add,
        show 2 ^ 32 - 1 + 2 ^ 32 * val xs + 1 = 2 ^ 32 * (val xs + 1) by omega,
        Nat.mul_comm (2 ^ (32 * xs.length)), Nat.mul_mod_mul_left]
    · have hlt : x.toNat + 1 < 2 ^ 32 := by
        by_contra hge
        apply h
        apply UInt32.toNat_inj.mp
        rw [UInt32.toNat_add, UInt32.toNat_one, UInt32.toNat_zero]
        omega
      have hx1 : (x + 1).toNat = x.toNat + 1 := by
        rw [UInt32.toNat_add, UInt32.toNat_one, Nat.mod_eq_of_lt hlt]
      rw [val_cons, val_cons, hx1]
      generalize 2 ^ (32 * xs.length) = P at hl ⊢
      rw [Nat.mod_eq_of_lt (by omega)]
      omega

namespace BaseUint
variable {WIDTH : Nat}

/-- `operator~`. -/
def complement (a : BaseUint WIDTH) : BaseUint WIDTH :=
  ⟨a.pn.map (~~~ ·), by rw [List.length_map, a.length_pn]⟩

theorem toNat_complement (a : BaseUint WIDTH) : a.complement.toNat = 2 ^ (32 * WIDTH) - 1 - a.toNat := by
  rw [toNat_eq_val, toNat_eq_val, complement, val_map_not, a.length_pn]

/-- `operator+=`. -/
def addAssign (a b : BaseUint WIDTH) : BaseUint WIDTH :=
  ⟨addCarry a.pn b.pn 0, by rw [length_addCarry _ _ _ (by rw [a.length_pn, b.length_pn]), a.length_pn]⟩

theorem toNat_addAssign (a b : BaseUint WIDTH) : (a.addAssign b).toNat = (a.toNat + b.toNat) % 2 ^ (32 * WIDTH) := by
  rw [toNat_eq_val, toNat_eq_val, toNat_eq_val, addAssign,
    val_addCarry _ _ _ (by rw [a.length_pn, b.length_pn]) (by simp), a.length_pn]
  simp

/-- The prefix `operator++`. -/
def increment (a : BaseUint WIDTH) : BaseUint WIDTH :=
  ⟨incrementLimbs a.pn, by rw [length_incrementLimbs, a.length_pn]⟩

theorem toNat_increment (a : BaseUint WIDTH) : a.increment.toNat = (a.toNat + 1) % 2 ^ (32 * WIDTH) := by
  rw [toNat_eq_val, toNat_eq_val, increment, val_incrementLimbs, a.length_pn]

/-- `operator-()`: the complement, incremented. -/
def negate (a : BaseUint WIDTH) : BaseUint WIDTH := a.complement.increment

theorem toNat_negate (a : BaseUint WIDTH) : a.negate.toNat = (2 ^ (32 * WIDTH) - a.toNat) % 2 ^ (32 * WIDTH) := by
  have := toNat_lt a
  rw [negate, toNat_increment, toNat_complement]
  congr 1
  omega

/-- `operator-=`: `*this += -b`. -/
def subAssign (a b : BaseUint WIDTH) : BaseUint WIDTH := a.addAssign b.negate

/-- Subtracting what fits is exact. -/
theorem toNat_subAssign {a b : BaseUint WIDTH} (h : b.toNat ≤ a.toNat) : (a.subAssign b).toNat = a.toNat - b.toNat := by
  have ha := toNat_lt a
  rw [subAssign, toNat_addAssign, toNat_negate]
  by_cases hb : b.toNat = 0
  · rw [hb, Nat.sub_zero, Nat.mod_self, Nat.add_zero, Nat.mod_eq_of_lt ha, Nat.sub_zero]
  · rw [Nat.mod_eq_of_lt (a := 2 ^ (32 * WIDTH) - b.toNat) (by omega), show a.toNat + (2 ^ (32 * WIDTH) - b.toNat) =
      (a.toNat - b.toNat) + 2 ^ (32 * WIDTH) by omega, Nat.add_mod_right, Nat.mod_eq_of_lt (by omega)]

/-- In general `operator-=` is subtraction modulo `2 ^ (32 * WIDTH)`. -/
theorem toNat_subAssign_emod (a b : BaseUint WIDTH) :
    ((a.subAssign b).toNat : Int) = ((a.toNat : Int) - b.toNat) % 2 ^ (32 * WIDTH) := by
  have hb := toNat_lt b
  rw [subAssign, toNat_addAssign, toNat_negate, Nat.add_mod_mod, Int.natCast_mod, Nat.cast_add,
    Nat.cast_sub hb.le, Nat.cast_pow, Nat.cast_ofNat,
    show (a.toNat : Int) + (2 ^ (32 * WIDTH) - b.toNat) = (a.toNat - b.toNat) + 2 ^ (32 * WIDTH) by ring,
    ← Int.emod_eq_add_self_emod]

/-- `operator*=(uint32_t)`. -/
def mulAssign32 (a : BaseUint WIDTH) (b32 : UInt32) : BaseUint WIDTH :=
  ⟨mulCarry32 b32 a.pn 0, by rw [length_mulCarry32, a.length_pn]⟩

theorem toNat_mulAssign32 (a : BaseUint WIDTH) (b32 : UInt32) :
    (a.mulAssign32 b32).toNat = a.toNat * b32.toNat % 2 ^ (32 * WIDTH) := by
  rw [toNat_eq_val, toNat_eq_val, mulAssign32, val_mulCarry32 _ _ _ (by simp), a.length_pn]
  simp

/-- `operator*=(const base_uint&)`: into a zero product, one pass for each limb of `*this`. -/
def mulAssign (a b : BaseUint WIDTH) : BaseUint WIDTH :=
  ⟨(List.range WIDTH).foldl (mulStep a.pn b.pn) (List.replicate WIDTH 0), by
    rw [length_foldl_mulStep _ _ _ _ (by rw [List.length_replicate, b.length_pn]), List.length_replicate]⟩

theorem toNat_mulAssign (a b : BaseUint WIDTH) : (a.mulAssign b).toNat = a.toNat * b.toNat % 2 ^ (32 * WIDTH) := by
  -- after the passes `0, ..., n - 1` the product holds the lowest `n` limbs of `*this` times `b`
  have hpass : ∀ n, n ≤ WIDTH →
      val ((List.range n).foldl (mulStep a.pn b.pn) (List.replicate WIDTH 0)) =
        val (a.pn.take n) * val b.pn % 2 ^ (32 * WIDTH) := by
    intro n hn
    induction n with
    | zero => simp
    | succ n ih =>
      have hlen : ((List.range n).foldl (mulStep a.pn b.pn) (List.replicate WIDTH 0)).length = WIDTH := by
        rw [length_foldl_mulStep _ _ _ _ (by rw [List.length_replicate, b.length_pn]), List.length_replicate]
      rw [List.range_succ, List.foldl_append, List.foldl_cons, List.foldl_nil,
        val_mulStep _ _ _ _ (by omega) (by rw [hlen, b.length_pn]), hlen, ih (by omega), val_take_add_one,
        Nat.add_mul, Nat.mod_add_mod, Nat.mul_assoc]
  rw [toNat_eq_val, toNat_eq_val, toNat_eq_val, mulAssign]
  dsimp only
  rw [hpass WIDTH le_rfl, List.take_of_length_le (le_of_eq a.length_pn)]

/-- `CompareTo` orders by value. -/
theorem compareTo_eq (a b : BaseUint WIDTH) : a.compareTo b = compare a.toNat b.toNat := by
  have h := find?_compare_range_reverse a.pn b.pn WIDTH
  rw [List.take_of_length_le (le_of_eq a.length_pn), List.take_of_length_le (le_of_eq b.length_pn)] at h
  rw [compareTo, toNat_eq_val, toNat_eq_val, ← h]
  cases (((List.range WIDTH).reverse.map fun i => compare (a.pn.getD i 0) (b.pn.getD i 0)).find? (· != .eq)) <;> rfl

theorem toNat_zero : (zero : BaseUint WIDTH).toNat = 0 := by
  rw [toNat_eq_val, zero, val_replicate_zero]

/-- `pn[shift / 32] |= (1U << (shift & 31))`: a bit of the quotient. -/
def setBit (q : BaseUint WIDTH) (shift : Nat) : BaseUint WIDTH :=
  ⟨q.pn.modify (shift / 32) (· ||| (1 <<< (shift &&& 31).toUInt32)), by rw [List.length_modify, q.length_pn]⟩

theorem toNat_setBit (q : BaseUint WIDTH) {shift : Nat} (hs : shift < 32 * WIDTH) :
    (q.setBit shift).toNat = q.toNat ||| 2 ^ shift := by
  have h31 : shift &&& 31 = shift % 32 := Nat.and_two_pow_sub_one_eq_mod shift 5
  apply Nat.eq_of_testBit_eq
  intro j
  rw [testBit_toNat, Nat.testBit_or, testBit_toNat, Nat.testBit_two_pow, setBit]
  dsimp only
  rw [getD_modify_or, h31]
  by_cases hp : shift / 32 = j / 32 ∧ j / 32 < q.pn.length
  · rw [if_pos hp, UInt32.toNat_or, Nat.testBit_or, testBit_toNat_shiftLeft 1 (Nat.mod_lt _ (by omega))]
    congr 1
    by_cases hj : shift = j
    · subst hj
      simpa using Nat.mod_lt shift (by norm_num : 32 > 0)
    · have hmod : shift % 32 ≠ j % 32 := fun h => hj (by omega)
      by_cases hle : shift % 32 ≤ j % 32
      · have hpos : 0 < j % 32 - shift % 32 := by omega
        have h1 : Nat.testBit 1 (j % 32 - shift % 32) = false :=
          Nat.testBit_lt_two_pow (Nat.one_lt_two_pow hpos.ne')
        simp [hj, hle, h1]
      · simp [hj, hle]
  · rw [if_neg hp]
    have hj : shift ≠ j := fun h => hp ⟨by rw [h], by rw [q.length_pn, ← h]; omega⟩
    simp [hj]

/-- The `while (shift >= 0)` loop of `operator/=` for the shifts `steps - 1, ..., 0`: where
`num >= div`, `div` is subtracted and the bit set; then `div` moves one bit right. -/
def divLoop (num div q : BaseUint WIDTH) : Nat → BaseUint WIDTH
  | 0 => q
  | shift + 1 =>
    let (num, q) := if num.compareTo div != .lt then (num.subAssign div, q.setBit shift) else (num, q)
    divLoop num (div.shiftRight 1) q shift

/-- `operator/=`, which throws `uint_error` on a zero divisor. -/
def divAssign (a b : BaseUint WIDTH) : Except String (BaseUint WIDTH) :=
  let num_bits := a.bits
  let div_bits := b.bits
  if div_bits = 0 then .error "Division by zero"
  -- the result is certainly 0
  else if div_bits > num_bits then .ok zero
  else
    -- shift so that div and num align
    let shift := num_bits - div_bits
    .ok (divLoop a (b.shiftLeft shift.toUInt32) zero (shift + 1))

/-- The long division keeps `num + q * B = A`, `num < B * 2 ^ k` and the bits of `q` below `k`
clear, with `div = B * 2 ^ (k - 1)`; at `k = 0` the quotient is `A / B`. -/
theorem toNat_divLoop {A B : Nat} (hB : 0 < B) : ∀ (k : Nat) (num div q : BaseUint WIDTH),
    (0 < k → div.toNat = B * 2 ^ (k - 1)) → num.toNat + q.toNat * B = A → num.toNat < B * 2 ^ k →
      q.toNat % 2 ^ k = 0 → k ≤ 32 * WIDTH → (divLoop num div q k).toNat = A / B := by
  intro k
  induction k with
  | zero =>
    intro num div q _ hA hnum _ _
    rw [divLoop, ← hA, Nat.add_mul_div_right _ _ hB, Nat.div_eq_of_lt (by simpa using hnum), Nat.zero_add]
  | succ k ih =>
    intro num div q hdiv hA hnum hq hk
    set D := B * 2 ^ k with hD
    have hdivD : div.toNat = D := hdiv (Nat.succ_pos k)
    have hnum2 : num.toNat < 2 * D := by rw [hD, ← Nat.mul_assoc, Nat.mul_comm 2 B, Nat.mul_assoc, ← Nat.pow_succ']; exact hnum
    have hdiv' : 0 < k → (div.shiftRight 1).toNat = B * 2 ^ (k - 1) := fun hk0 => by
      rw [toNat_shiftRight, hdivD, hD, show k = (k - 1) + 1 by omega, Nat.pow_succ, ← Nat.mul_assoc]
      simp
    have hqk : q.toNat % 2 ^ k = 0 :=
      Nat.mod_eq_zero_of_dvd (Nat.dvd_trans (Nat.pow_dvd_pow 2 (Nat.le_succ k)) (Nat.dvd_of_mod_eq_zero hq))
    rw [divLoop, compareTo_eq, hdivD]
    by_cases hge : D ≤ num.toNat
    · -- `num >= div`: subtract and set bit `k`
      have hcmp : (compare num.toNat D != Ordering.lt) = true := by
        simp [Nat.compare_eq_lt, Nat.not_lt.mpr hge]
      rw [if_pos hcmp]
      have hsub : (num.subAssign div).toNat = num.toNat - D := by rw [toNat_subAssign (by omega), hdivD]
      have hset : (q.setBit k).toNat = q.toNat + 2 ^ k := by
        have hsplit : q.toNat = 2 ^ (k + 1) * (q.toNat / 2 ^ (k + 1)) :=
          (Nat.mul_div_cancel' (Nat.dvd_of_mod_eq_zero hq)).symm
        rw [toNat_setBit q (by omega), hsplit,
          ← Nat.two_pow_add_eq_or_of_lt (Nat.pow_lt_pow_right (by norm_num) (Nat.lt_succ_self k))]
      have hmul : (q.toNat + 2 ^ k) * B = q.toNat * B + D := by rw [hD]; ring
      apply ih _ _ _ hdiv'
      · rw [hsub, hset, hmul]
        omega
      · rw [hsub]
        omega
      · rw [hset, Nat.add_mod, hqk, Nat.mod_self, Nat.zero_add, Nat.zero_mod]
      · omega
    · -- `num < div`: only `div` moves
      have hcmp : (compare num.toNat D != Ordering.lt) = false := by
        simp [Nat.compare_eq_lt, Nat.lt_of_not_le hge]
      rw [if_neg (by rw [hcmp]; decide)]
      exact ih _ _ _ hdiv' hA (by omega) hqk (by omega)

/-- The shift-and-subtract loop of `operator/=` is the quotient `div` stands for. -/
theorem divAssign_eq_div (hW : 32 * WIDTH < 2 ^ 32) (a b : BaseUint WIDTH) : a.divAssign b = a.div b := by
  have ha := toNat_lt a
  have hb := toNat_lt b
  unfold divAssign BaseUint.div
  rw [bits_eq_size, bits_eq_size]
  by_cases hb0 : b.toNat = 0
  · simp [hb0]
  have hsize : b.toNat.size ≠ 0 := fun h => hb0 (Nat.size_eq_zero.mp h)
  -- `2 ^ (size - 1) ≤ B < 2 ^ size`, and the same for `A`
  have hBlo : 2 ^ (b.toNat.size - 1) ≤ b.toNat := Nat.lt_size.mp (by omega)
  have hAhi : a.toNat < 2 ^ a.toNat.size := Nat.lt_size_self _
  have hAsize : a.toNat.size ≤ 32 * WIDTH := Nat.size_le.mpr ha
  simp only [if_neg hsize, if_neg hb0]
  split_ifs with hgt
  · congr 1
    apply eq_of_toNat_eq
    rw [toNat_zero, toNat_ofNat, Nat.div_eq_of_lt, Nat.zero_mod]
    calc a.toNat < 2 ^ a.toNat.size := hAhi
      _ ≤ 2 ^ (b.toNat.size - 1) := Nat.pow_le_pow_right (by norm_num) (by omega)
      _ ≤ b.toNat := hBlo
  · congr 1
    apply eq_of_toNat_eq
    set s := a.toNat.size - b.toNat.size with hs
    have hs32 : s.toUInt32.toNat = s := by
      rw [Nat.toUInt32, UInt32.toNat_ofNat']
      omega
    have hsplit : 2 ^ a.toNat.size = 2 ^ (b.toNat.size - 1) * 2 ^ (s + 1) := by
      rw [← Nat.pow_add]
      congr 1
      omega
    have hfit : b.toNat * 2 ^ s < 2 ^ (32 * WIDTH) := by
      calc b.toNat * 2 ^ s < 2 ^ b.toNat.size * 2 ^ s :=
            Nat.mul_lt_mul_of_pos_right (Nat.lt_size_self _) (Nat.two_pow_pos s)
        _ = 2 ^ a.toNat.size := by rw [← Nat.pow_add]; congr 1; omega
        _ ≤ 2 ^ (32 * WIDTH) := Nat.pow_le_pow_right (by norm_num) hAsize
    have hnum : a.toNat < b.toNat * 2 ^ (s + 1) := by
      calc a.toNat < 2 ^ a.toNat.size := hAhi
        _ = 2 ^ (b.toNat.size - 1) * 2 ^ (s + 1) := hsplit
        _ ≤ b.toNat * 2 ^ (s + 1) := Nat.mul_le_mul_right _ hBlo
    rw [toNat_ofNat, Nat.mod_eq_of_lt (Nat.lt_of_le_of_lt (Nat.div_le_self _ _) ha)]
    apply toNat_divLoop (Nat.pos_of_ne_zero hb0)
    · intro _
      rw [toNat_shiftLeft, hs32, Nat.mod_eq_of_lt hfit, Nat.add_sub_cancel]
    · rw [toNat_zero, Nat.zero_mul, Nat.add_zero]
    · exact hnum
    · rw [toNat_zero, Nat.zero_mod]
    · omega

end BaseUint

/-! ### `arith_uint256` -/

section Arith256
open BaseUint

/-- A nonzero divisor gives the quotient, and only a zero divisor throws. -/
theorem divAssign_spec (a b : ArithUint256) :
    a.divAssign b = if b.toNat = 0 then .error "Division by zero" else .ok (ofNat (a.toNat / b.toNat)) := by
  rw [divAssign_eq_div (by norm_num)]
  rfl

/-- On 256 bits every limb loop computes its operation modulo `2 ^ 256`, the shifts for every
shift count, `CompareTo` orders by value and `operator/=` divides, throwing on a zero divisor. -/
theorem arithUint256_ops_mod :
    (∀ a b : ArithUint256, (a.addAssign b).toNat = (a.toNat + b.toNat) % 2 ^ 256) ∧
    (∀ a b : ArithUint256, ((a.subAssign b).toNat : Int) = ((a.toNat : Int) - b.toNat) % 2 ^ 256) ∧
    (∀ a b : ArithUint256, (a.mulAssign b).toNat = a.toNat * b.toNat % 2 ^ 256) ∧
    (∀ (a : ArithUint256) (b32 : UInt32), (a.mulAssign32 b32).toNat = a.toNat * b32.toNat % 2 ^ 256) ∧
    (∀ (a : ArithUint256) (shift : UInt32), (a.shiftLeft shift).toNat = a.toNat * 2 ^ shift.toNat % 2 ^ 256) ∧
    (∀ (a : ArithUint256) (shift : UInt32), (a.shiftRight shift).toNat = a.toNat / 2 ^ shift.toNat) ∧
    (∀ a b : ArithUint256, a.compareTo b = compare a.toNat b.toNat) ∧
    (∀ a b : ArithUint256, b.toNat = 0 → a.divAssign b = .error "Division by zero") ∧
    (∀ a b : ArithUint256, b.toNat ≠ 0 → ∃ q, a.divAssign b = .ok q ∧ q.toNat = a.toNat / b.toNat) := by
  refine ⟨toNat_addAssign, toNat_subAssign_emod, toNat_mulAssign, toNat_mulAssign32, toNat_shiftLeft,
    toNat_shiftRight, compareTo_eq, fun a b hb => ?_, fun a b hb => ?_⟩
  · rw [divAssign_spec, if_pos hb]
  · -- the quotient fits, so `ofNat` keeps it
    have hq : a.toNat / b.toNat < 2 ^ (32 * 8) := Nat.lt_of_le_of_lt (Nat.div_le_self _ _) (toNat_lt a)
    exact ⟨_, by rw [divAssign_spec, if_neg hb], by rw [toNat_ofNat, Nat.mod_eq_of_lt hq]⟩

/-- `7 / 0` throws, and `7 / 2 = 3`. -/
theorem arithUint256_ops_mod_seven :
    (ofNat 7 : ArithUint256).divAssign (ofNat 0) = .error "Division by zero" ∧
      ∃ q, (ofNat 7 : ArithUint256).divAssign (ofNat 2) = .ok q ∧ q.toNat = 3 :=
  ⟨arithUint256_ops_mod.2.2.2.2.2.2.2.1 _ _ (by decide),
    arithUint256_ops_mod.2.2.2.2.2.2.2.2 (ofNat 7) (ofNat 2) (by decide)⟩

end Arith256

end BlackcoinMore.ArithUint256
