import Mathlib

/-! Numbers held as lists of 32-bit limbs, least significant limb first: the value of a limb
list, its bits, and the bits of the `UInt32` shifts and limb updates that limb loops are made
of. Every fact about such a loop's value goes through `testBit_val`. -/
namespace BlackcoinMore.Limbs

/-- The number a limb list stands for. -/
def val (l : List UInt32) : Nat := Nat.ofDigits (2 ^ 32) (l.map UInt32.toNat)

@[simp] theorem val_nil : val [] = 0 := rfl

@[simp] theorem val_cons (w : UInt32) (l : List UInt32) : val (w :: l) = w.toNat + 2 ^ 32 * val l := by
  simp [val, Nat.ofDigits_cons]

theorem val_lt (l : List UInt32) : val l < 2 ^ (32 * l.length) := by
  have h := @Nat.ofDigits_lt_base_pow_length (2 ^ 32) (l.map UInt32.toNat) (by norm_num)
    (by simp only [List.mem_map]; rintro _ ⟨w, -, rfl⟩; exact w.toNat_lt)
  rwa [List.length_map, ← Nat.pow_mul] at h

/-- Bit `j` of the value is bit `j % 32` of limb `j / 32`; past the last limb it is clear. -/
theorem testBit_val (l : List UInt32) (j : Nat) :
    (val l).testBit j = (l.getD (j / 32) 0).toNat.testBit (j % 32) := by
  induction l generalizing j with
  | nil => simp
  | cons w l ih =>
    rw [val_cons, Nat.add_comm, Nat.testBit_two_pow_mul_add _ w.toNat_lt]
    by_cases hj : j < 32
    · have hdiv : j / 32 = 0 := Nat.div_eq_of_lt hj
      rw [if_pos hj, hdiv, Nat.mod_eq_of_lt hj]
      rfl
    · have hdiv : j / 32 = (j - 32) / 32 + 1 := by omega
      have hmod : j % 32 = (j - 32) % 32 := by omega
      rw [if_neg hj, ih, hdiv, hmod, List.getD_cons_succ]

/-- The limbs of a value read back by division: limb `i` is `val l / 2 ^ (32 * i)` truncated. -/
theorem toNat_getD_eq (l : List UInt32) (i : Nat) :
    (l.getD i 0).toNat = val l / 2 ^ (32 * i) % 2 ^ 32 := by
  apply Nat.eq_of_testBit_eq
  intro b
  rw [Nat.testBit_mod_two_pow, Nat.testBit_div_two_pow, testBit_val]
  by_cases hb : b < 32
  · have hdiv : (b + 32 * i) / 32 = i := by omega
    have hmod : (b + 32 * i) % 32 = b := by omega
    simp [hb, hdiv, hmod]
  · simp only [hb, decide_false, Bool.false_and]
    exact Nat.testBit_lt_two_pow (Nat.lt_of_lt_of_le (l.getD i 0).toNat_lt
      (Nat.pow_le_pow_right (by norm_num) (by omega)))

/-- Limb lists of one length are equal when their values are. -/
theorem eq_of_val_eq {l l' : List UInt32} (hlen : l.length = l'.length) (h : val l = val l') :
    l = l' := by
  apply List.ext_getElem hlen
  intro i hi hi'
  have hl := toNat_getD_eq l i
  have hl' := toNat_getD_eq l' i
  rw [h, ← hl', List.getD_eq_getElem _ _ hi, List.getD_eq_getElem _ _ hi'] at hl
  exact UInt32.toNat_inj.mp hl

/-- The limbs `f 0, ..., f (n - 1)`. -/
theorem getD_map_range (f : Nat → UInt32) (n p : Nat) :
    ((List.range n).map f).getD p 0 = if p < n then f p else 0 := by
  split_ifs with hp
  · simp [List.getD_eq_getElem?_getD, List.getElem?_range hp]
  · rw [List.getD_eq_default _ _ (by simpa using hp)]

/-- Writing `· ||| v` into limb `p`: only limb `p` changes, and only if it exists. -/
theorem getD_modify_or (l : List UInt32) (p q : Nat) (v : UInt32) :
    (l.modify p (· ||| v)).getD q 0 = if p = q ∧ q < l.length then l.getD q 0 ||| v else l.getD q 0 := by
  simp only [List.getD_eq_getElem?_getD, List.getElem?_modify]
  by_cases hq : q < l.length
  · rw [List.getElem?_eq_getElem hq]
    by_cases hpq : p = q <;> simp [hpq, hq]
  · rw [List.getElem?_eq_none (by omega)]
    simp [hq]

/-- A write `· ||| v` into limb `q` made only when `c` holds. -/
theorem getD_ite_modify_or (l : List UInt32) (c : Prop) [Decidable c] (q p : Nat) (v : UInt32) :
    (if c then l.modify q (· ||| v) else l).getD p 0 =
      l.getD p 0 ||| (if c ∧ q = p ∧ p < l.length then v else 0) := by
  by_cases hc : c
  · rw [if_pos hc, getD_modify_or]
    by_cases h : q = p ∧ p < l.length
    · rw [if_pos h, if_pos ⟨hc, h⟩]
    · rw [if_neg h, if_neg (fun h' => h h'.2), UInt32.or_zero]
  · rw [if_neg hc, if_neg (fun h' => hc h'.1), UInt32.or_zero]

@[simp] theorem length_ite_modify (l : List UInt32) (c : Prop) [Decidable c] (q : Nat)
    (f : UInt32 → UInt32) : (if c then l.modify q f else l).length = l.length := by
  split_ifs <;> simp

@[simp] theorem getD_replicate_zero (n p : Nat) : (List.replicate n (0 : UInt32)).getD p 0 = 0 := by
  simp only [List.getD_eq_getElem?_getD, List.getElem?_replicate]
  split_ifs <;> rfl

theorem testBit_toNat_shiftLeft (w : UInt32) {r : Nat} (hr : r < 32) (b : Nat) :
    (w <<< r.toUInt32).toNat.testBit b = (decide (b < 32) && decide (r ≤ b) && w.toNat.testBit (b - r)) := by
  have hr' : r.toUInt32.toNat % 32 = r := by
    rw [Nat.toUInt32, UInt32.toNat_ofNat']
    omega
  rw [UInt32.toNat_shiftLeft, hr', Nat.testBit_mod_two_pow, Nat.testBit_shiftLeft]
  simp only [ge_iff_le, Bool.and_assoc]

theorem testBit_toNat_shiftRight (w : UInt32) {r : Nat} (hr : r < 32) (b : Nat) :
    (w >>> r.toUInt32).toNat.testBit b = w.toNat.testBit (r + b) := by
  have hr' : r.toUInt32.toNat % 32 = r := by
    rw [Nat.toUInt32, UInt32.toNat_ofNat']
    omega
  rw [UInt32.toNat_shiftRight, hr', Nat.testBit_shiftRight]

/-- A limb has no bit at position 32 or above. -/
theorem testBit_toNat_of_le (w : UInt32) {b : Nat} (hb : 32 ≤ b) : w.toNat.testBit b = false :=
  Nat.testBit_lt_two_pow (Nat.lt_of_lt_of_le w.toNat_lt (Nat.pow_le_pow_right (by norm_num) hb))

/-- A top-down search over `n - 1, ..., 0` finds the highest index that passes. -/
theorem find?_range_reverse_eq_some {p : Nat → Bool} {n i : Nat} :
    (List.range n).reverse.find? p = some i ↔
      i < n ∧ p i = true ∧ ∀ j, i < j → j < n → p j = false := by
  induction n with
  | zero => simp
  | succ n ih =>
    rw [List.range_succ, List.reverse_append, List.reverse_singleton, List.singleton_append]
    by_cases hn : p n = true
    · rw [List.find?_cons_of_pos hn]
      constructor
      · rintro ⟨⟩
        exact ⟨by omega, hn, fun j h1 h2 => by omega⟩
      · rintro ⟨hi, -, hj⟩
        by_cases hin : i = n
        · rw [hin]
        · have := hj n (by omega) (by omega)
          simp_all
    · rw [List.find?_cons_of_neg hn, ih]
      constructor
      · rintro ⟨hi, hpi, hj⟩
        refine ⟨by omega, hpi, fun j h1 h2 => ?_⟩
        by_cases hjn : j = n
        · simpa [hjn] using hn
        · exact hj j h1 (by omega)
      · rintro ⟨hi, hpi, hj⟩
        have hin : i ≠ n := by rintro rfl; exact hn hpi
        exact ⟨by omega, hpi, fun j h1 h2 => hj j h1 (by omega)⟩

theorem find?_range_reverse_eq_none {p : Nat → Bool} {n : Nat} :
    (List.range n).reverse.find? p = none ↔ ∀ j, j < n → p j = false := by
  simp [List.find?_eq_none]

/-- Testing one bit through a mask, as `w & 1U << n` does. -/
theorem and_shiftLeft_one_ne_zero (w : UInt32) {n : Nat} (hn : n < 32) :
    (w &&& (1 <<< n.toUInt32) != 0) = w.toNat.testBit n := by
  have hbits : ∀ i, (w &&& (1 <<< n.toUInt32)).toNat.testBit i = (decide (n = i) && w.toNat.testBit n) := by
    intro i
    rw [UInt32.toNat_and, Nat.testBit_and, testBit_toNat_shiftLeft 1 hn]
    by_cases hi : n = i
    · subst hi
      simp [hn]
    · have hone : Nat.testBit 1 (i - n) = false ∨ ¬ n ≤ i := by
        by_cases hni : n ≤ i
        · exact .inl (Nat.testBit_lt_two_pow (Nat.lt_of_lt_of_le (by norm_num : 1 < 2 ^ 1)
            (Nat.pow_le_pow_right (by norm_num) (by omega))))
        · exact .inr hni
      rcases hone with h | h <;> simp [hi, h]
  cases hb : w.toNat.testBit n
  · have h0 : (w &&& (1 <<< n.toUInt32)) = 0 :=
      UInt32.toNat_inj.mp (Nat.eq_of_testBit_eq fun i => by rw [hbits, hb]; simp)
    simp [h0]
  · have hne : (w &&& (1 <<< n.toUInt32)) ≠ 0 := by
      intro h
      have := hbits n
      rw [h, hb] at this
      simp at this
    simpa using hne

theorem toNat_low (n : UInt64) : (n &&& 0xffffffff).toUInt32.toNat = n.toNat % 2 ^ 32 := by
  rw [UInt64.toNat_toUInt32, UInt64.toNat_and]
  have : (0xffffffff : UInt64).toNat = 2 ^ 32 - 1 := rfl
  rw [this, Nat.and_two_pow_sub_one_eq_mod, Nat.mod_mod_of_dvd _ (by decide)]

theorem toNat_high (n : UInt64) : (n >>> 32).toNat = n.toNat / 2 ^ 32 := by
  rw [UInt64.toNat_shiftRight, Nat.shiftRight_eq_div_pow]
  rfl

theorem carry_mod (n Y B M : Nat) (hB : 0 < B) : n % B + B * ((Y + n / B) % M) = (n + B * Y) % (B * M) := by
  rw [Nat.mod_mul, Nat.add_mul_mod_self_left, Nat.add_mul_div_left _ _ hB, Nat.add_comm Y]

/-- A low part below `B` passes through the reduction modulo `B * M`. -/
theorem add_mul_mod_mul {T B D M : Nat} (hT : T < B) : (T + B * D) % (B * M) = T + B * (D % M) := by
  rw [Nat.mod_mul, Nat.add_mul_mod_self_left, Nat.mod_eq_of_lt hT, Nat.add_mul_div_left _ _ (by omega),
    Nat.div_eq_of_lt hT, Nat.zero_add]

theorem val_append (l₁ l₂ : List UInt32) : val (l₁ ++ l₂) = val l₁ + 2 ^ (32 * l₁.length) * val l₂ := by
  induction l₁ with
  | nil => simp
  | cons w l ih =>
    rw [List.cons_append, val_cons, val_cons, ih, List.length_cons, Nat.mul_succ, Nat.pow_add]
    ring

theorem val_map_not (l : List UInt32) : val (l.map (~~~ ·)) = 2 ^ (32 * l.length) - 1 - val l := by
  induction l with
  | nil => simp
  | cons w l ih =>
    have hw := w.toNat_lt
    have hl := val_lt l
    have hnot : (~~~ w).toNat = 2 ^ 32 - 1 - w.toNat := by
      rw [UInt32.toNat_not]
      rfl
    rw [List.map_cons, val_cons, val_cons, ih, hnot, List.length_cons, Nat.mul_succ, Nat.pow_add]
    generalize 2 ^ (32 * l.length) = P at hl ⊢
    generalize val l = X at hl ⊢
    have : 0 < P := by omega
    rw [Nat.mul_sub, Nat.mul_sub, Nat.mul_one]
    omega

theorem toNat_mul_toUInt64 (x y : UInt32) : (x.toUInt64 * y.toUInt64).toNat = x.toNat * y.toNat := by
  have hx := x.toNat_lt
  have hy := y.toNat_lt
  have hle : x.toNat * y.toNat < 2 ^ 64 := by
    calc x.toNat * y.toNat < 2 ^ 32 * 2 ^ 32 := Nat.mul_lt_mul'' hx hy
      _ = 2 ^ 64 := by norm_num
  rw [UInt64.toNat_mul, UInt32.toNat_toUInt64, UInt32.toNat_toUInt64, Nat.mod_eq_of_lt hle]

theorem mul_toNat_le (x y : UInt32) : x.toNat * y.toNat ≤ (2 ^ 32 - 1) * (2 ^ 32 - 1) :=
  Nat.mul_le_mul (by have := x.toNat_lt; omega) (by have := y.toNat_lt; omega)

theorem toNat_add_of_lt {a b : UInt64} (h : a.toNat + b.toNat < 2 ^ 64) : (a + b).toNat = a.toNat + b.toNat := by
  rw [UInt64.toNat_add, Nat.mod_eq_of_lt h]

theorem val_take_add_one (l : List UInt32) (n : Nat) :
    val (l.take (n + 1)) = val (l.take n) + 2 ^ (32 * n) * (l.getD n 0).toNat := by
  rw [List.take_add_one, val_append]
  by_cases hn : n < l.length
  · rw [List.length_take_of_le (by omega), List.getElem?_eq_getElem hn, List.getD_eq_getElem _ _ hn]
    simp
  · rw [List.getElem?_eq_none (by omega), List.getD_eq_default _ _ (by omega)]
    simp

@[simp] theorem val_replicate_zero (n : Nat) : val (List.replicate n 0) = 0 := by
  induction n with
  | zero => rfl
  | succ n ih => rw [List.replicate_succ, val_cons, ih]; rfl

theorem val_lt_of_take (l : List UInt32) (n : Nat) : val (l.take n) < 2 ^ (32 * n) :=
  Nat.lt_of_lt_of_le (val_lt _) (Nat.pow_le_pow_right (by norm_num) (by simp))

theorem compare_toNat (x y : UInt32) : compare x y = compare x.toNat y.toNat := by
  simp [compare, compareOfLessAndEq, UInt32.lt_iff_toNat_lt, UInt32.toNat_inj]

/-- A comparison decided by the top limb: a lower part below `P` cannot outweigh it. -/
theorem compare_add_mul {L₁ L₂ P x₁ x₂ : Nat} (h₁ : L₁ < P) (h₂ : L₂ < P) :
    compare (L₁ + P * x₁) (L₂ + P * x₂) =
      if x₁ = x₂ then compare L₁ L₂ else compare x₁ x₂ := by
  split_ifs with hx
  · subst hx
    rcases lt_trichotomy L₁ L₂ with h | h | h
    · rw [Nat.compare_eq_lt.mpr h, Nat.compare_eq_lt.mpr (by omega)]
    · rw [h, Nat.compare_eq_eq.mpr rfl, Nat.compare_eq_eq.mpr rfl]
    · rw [Nat.compare_eq_gt.mpr h, Nat.compare_eq_gt.mpr (by omega)]
  · rcases Nat.lt_or_gt_of_ne hx with hlt | hlt
    · have : P * x₁ + P ≤ P * x₂ := by rw [← Nat.mul_succ]; exact Nat.mul_le_mul_left P hlt
      rw [Nat.compare_eq_lt.mpr hlt, Nat.compare_eq_lt.mpr (by omega)]
    · have : P * x₂ + P ≤ P * x₁ := by rw [← Nat.mul_succ]; exact Nat.mul_le_mul_left P hlt
      rw [Nat.compare_eq_gt.mpr hlt, Nat.compare_eq_gt.mpr (by omega)]

/-- A top-down scan for the first differing limb compares the values of the lowest `n` limbs. -/
theorem find?_compare_range_reverse (l₁ l₂ : List UInt32) (n : Nat) :
    (((List.range n).reverse.map fun i => compare (l₁.getD i 0) (l₂.getD i 0)).find? (· != .eq)).getD .eq =
      compare (val (l₁.take n)) (val (l₂.take n)) := by
  induction n with
  | zero => simp
  | succ n ih =>
    rw [List.range_succ, List.reverse_append, List.reverse_singleton, List.singleton_append, List.map_cons,
      List.find?_cons, val_take_add_one, val_take_add_one,
      compare_add_mul (val_lt_of_take l₁ n) (val_lt_of_take l₂ n), compare_toNat]
    by_cases hx : (l₁.getD n 0).toNat = (l₂.getD n 0).toNat
    · rw [if_pos hx, ← ih, hx, Nat.compare_eq_eq.mpr rfl]
      rfl
    · rw [if_neg hx]
      simp only [List.getD_eq_getElem?_getD] at hx ⊢
      have hne : (compare (l₁[n]?.getD 0).toNat (l₂[n]?.getD 0).toNat != Ordering.eq) = true := by
        rw [bne_iff_ne, ne_eq, Nat.compare_eq_eq]
        exact hx
      rw [hne]
      rfl

end BlackcoinMore.Limbs
