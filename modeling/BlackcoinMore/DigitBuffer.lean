import Mathlib

/-! Numbers held in buffers of byte-sized digits of a base up to 256, and the multiply-and-add loop
that an in-place base conversion runs over such a buffer from its least significant digit:
`carry += mul * d; d = carry % base; carry /= base`, continued while the carry is not absorbed or
a count of digits in use is not yet passed. A buffer of `size` digits holding a number below
`base ^ size` is determined by that number (`bufferOf`), and one pass of the loop takes the buffer
of `V` to the buffer of `c + mul * V` when that still fits, with the count of digits in use
becoming the number's digit count. -/
namespace BlackcoinMore.DigitBuffer

/-- The number a list of base-`base` digits stands for, least significant digit first. -/
def val (base : Nat) (ds : List UInt8) : Nat := Nat.ofDigits base (ds.map UInt8.toNat)

@[simp] theorem val_nil (base : Nat) : val base [] = 0 := rfl

@[simp] theorem val_cons (base : Nat) (d : UInt8) (ds : List UInt8) :
    val base (d :: ds) = d.toNat + base * val base ds := by
  simp [val, Nat.ofDigits_cons]

theorem val_lt {base : Nat} (h1 : 1 < base) {ds : List UInt8} (h : ∀ x ∈ ds, x.toNat < base) :
    val base ds < base ^ ds.length := by
  rw [val, ← List.length_map UInt8.toNat]
  exact Nat.ofDigits_lt_base_pow_length h1 (by simpa using h)

/-- Dropping the least significant digit divides the bound by the base. -/
theorem val_tail_lt {base k : Nat} (h0 : 0 < base) {d : UInt8} {v : Nat} (h : d.toNat + base * v < base ^ k) :
    v < base ^ (k - 1) := by
  cases k with
  | zero =>
    have hbv : base * v = 0 := by rw [pow_zero] at h; omega
    rcases Nat.mul_eq_zero.mp hbv with hb | hv
    · omega
    · simp [hv]
  | succ k =>
    rw [Nat.add_sub_cancel, pow_succ'] at *
    exact Nat.lt_of_mul_lt_mul_left (by omega : base * v < base * base ^ k)

theorem toNat_toUInt8_mod {base : Nat} (h0 : 0 < base) (hb : base ≤ 256) (c : Nat) :
    (c % base).toUInt8.toNat = c % base := by
  have : c % base < 256 := by have := Nat.mod_lt c h0; omega
  simp only [Nat.toUInt8, UInt8.toNat_ofNat']
  exact Nat.mod_eq_of_lt this

/-! ### The loop -/

/-- One pass of the loop from the least significant digit: `carry += mul * d; d = carry % base;
carry /= base` while `carry != 0 || i < length` and digits remain. The digits, the carry left and
the count `i` of digits visited. -/
def mulAdd (mul base length : Nat) : (carry i : Nat) → List UInt8 → List UInt8 × Nat × Nat
  | carry, i, [] => ([], carry, i)
  | carry, i, d :: ds =>
    if carry ≠ 0 ∨ i < length then
      let c := carry + mul * d.toNat
      let r := mulAdd mul base length (c / base) (i + 1) ds
      ((c % base).toUInt8 :: r.1, r.2.1, r.2.2)
    else (d :: ds, carry, i)

section Loop

variable {mul base length : Nat}

theorem length_mulAdd : ∀ (carry i : Nat) (ds : List UInt8),
    (mulAdd mul base length carry i ds).1.length = ds.length
  | _, _, [] => rfl
  | carry, i, d :: ds => by
    rw [mulAdd]
    split_ifs
    · simp [length_mulAdd]
    · rfl

theorem lt_of_mem_mulAdd (h0 : 0 < base) (hb : base ≤ 256) : ∀ (carry i : Nat) (ds : List UInt8),
    (∀ x ∈ ds, x.toNat < base) → ∀ x ∈ (mulAdd mul base length carry i ds).1, x.toNat < base
  | _, _, [], _ => by simp [mulAdd]
  | carry, i, d :: ds, h => by
    rw [mulAdd]
    split_ifs
    · intro x hx
      rcases List.mem_cons.mp hx with rfl | hx
      · rw [toNat_toUInt8_mod h0 hb]
        exact Nat.mod_lt _ h0
      · exact lt_of_mem_mulAdd h0 hb _ _ ds (fun y hy => h y (List.mem_cons_of_mem _ hy)) x hx
    · exact h

/-- The loop computes `carry + mul * val`: the digits it leaves, with the carry it could not place
above them. The digits from `length` on must be zero, as the loop may stop before them. -/
theorem val_mulAdd (h0 : 0 < base) (hb : base ≤ 256) : ∀ (carry i : Nat) (ds : List UInt8),
    val base ds < base ^ (length - i) →
      val base (mulAdd mul base length carry i ds).1 + base ^ ds.length * (mulAdd mul base length carry i ds).2.1 =
        carry + mul * val base ds
  | carry, i, [], _ => by simp [mulAdd]
  | carry, i, d :: ds, hV => by
    rw [mulAdd]
    split_ifs with hgo
    · -- the digit is rewritten and the rest of the sum carried into the next one
      have hV' : val base ds < base ^ (length - (i + 1)) := by
        rw [val_cons] at hV
        rw [show length - (i + 1) = length - i - 1 by omega]
        exact val_tail_lt h0 hV
      have ih := val_mulAdd h0 hb ((carry + mul * d.toNat) / base) (i + 1) ds hV'
      simp only [val_cons, List.length_cons, toNat_toUInt8_mod h0 hb]
      calc (carry + mul * d.toNat) % base + base * val base (mulAdd mul base length _ (i + 1) ds).1 +
            base ^ (ds.length + 1) * (mulAdd mul base length _ (i + 1) ds).2.1
          = (carry + mul * d.toNat) % base + base * (val base (mulAdd mul base length _ (i + 1) ds).1 +
            base ^ ds.length * (mulAdd mul base length _ (i + 1) ds).2.1) := by ring
        _ = (carry + mul * d.toNat) % base + base * ((carry + mul * d.toNat) / base + mul * val base ds) := by
          rw [ih]
        _ = carry + mul * (d.toNat + base * val base ds) := by
          rw [mul_add, ← add_assoc, Nat.mod_add_div]
          ring
    · -- the loop stops with no carry, past `length`, where every digit is zero
      have hz : val base (d :: ds) = 0 := by
        rw [show length - i = 0 by omega, pow_zero] at hV
        omega
      simp only [not_or, not_not, not_lt] at hgo
      simp [hgo.1, hz]

/-- Where the loop stops: at the first position from `length` on above which the new number has
no digit. -/
theorem count_mulAdd (h1 : 1 < base) (hb : base ≤ 256) : ∀ (carry i : Nat) (ds : List UInt8),
    val base ds < base ^ (length - i) → length ≤ i + ds.length → carry + mul * val base ds < base ^ ds.length →
      (mulAdd mul base length carry i ds).2.2 = i + max (length - i) (Nat.digits base (carry + mul * val base ds)).length
  | carry, i, [], _, hlen, hfit => by
    have hc : carry = 0 := by simpa using hfit
    simp only [List.length_nil, Nat.add_zero] at hlen
    simp [mulAdd, hc]
    omega
  | carry, i, d :: ds, hV, hlen, hfit => by
    have h0 : 0 < base := by omega
    simp only [List.length_cons] at hlen hfit
    rw [mulAdd]
    split_ifs with hgo
    · -- the new number is the digit `c % base` below the number `W` the rest of the loop sees
      set c := carry + mul * d.toNat with hc
      set W := c / base + mul * val base ds with hW
      have hdiv := Nat.mod_add_div c base
      have hsplit : carry + mul * val base (d :: ds) = c % base + base * W := by
        rw [val_cons, hW, mul_add base, ← add_assoc, hdiv, hc]
        ring
      have hV' : val base ds < base ^ (length - (i + 1)) := by
        rw [val_cons] at hV
        rw [show length - (i + 1) = length - i - 1 by omega]
        exact val_tail_lt h0 hV
      have hfit' : W < base ^ ds.length := by
        rw [hsplit, pow_succ'] at hfit
        exact Nat.lt_of_mul_lt_mul_left (lt_of_le_of_lt (Nat.le_add_left _ _) hfit)
      have ih := count_mulAdd h1 hb (c / base) (i + 1) ds hV' (by omega) hfit'
      simp only
      rw [ih, hsplit, ← hW]
      have hmod := Nat.mod_lt c h0
      rcases Nat.eq_zero_or_pos W with hWz | hWp
      · simp only [hWz, Nat.mul_zero, Nat.add_zero, Nat.digits_zero, List.length_nil]
        have hle : (Nat.digits base (c % base)).length ≤ 1 :=
          (Nat.digits_length_le_iff h1 _).mpr (by simpa using hmod)
        by_cases hi : i < length
        · omega
        · -- past `length` only a carry keeps the loop going, and it is the new last digit
          have hcarry : carry ≠ 0 := hgo.resolve_right hi
          have hd : d.toNat = 0 := by
            rw [show length - i = 0 by omega, pow_zero, val_cons] at hV
            omega
          have hcb : c < base := by
            rw [hW] at hWz
            exact (Nat.div_eq_zero_iff_lt h0).mp (Nat.add_eq_zero_iff.mp hWz).1
          have hcm : c % base = carry := by
            rw [Nat.mod_eq_of_lt hcb, hc, hd, Nat.mul_zero, Nat.add_zero]
          rw [hcm, Nat.digits_of_lt base carry hcarry (by omega), List.length_singleton]
          omega
      · rw [Nat.digits_add base h1 _ _ hmod (Or.inr hWp.ne'), List.length_cons]
        omega
    · -- the loop stops with no carry past `length`: the number is zero
      simp only [not_or, not_not, not_lt] at hgo
      have hz : val base (d :: ds) = 0 := by
        rw [show length - i = 0 by omega, pow_zero] at hV
        omega
      rw [hgo.1, hz]
      simp
      omega

end Loop

/-! ### Buffers determined by their number -/

/-- The big-endian buffer of `size` base-`base` digits holding `V`. -/
def bufferOf (base size V : Nat) : List UInt8 := ((Nat.digitsAppend base size V).map Nat.toUInt8).reverse

section Buffer

variable {base size : Nat}

theorem map_toNat_toUInt8 {l : List Nat} (h : ∀ x ∈ l, x < 256) : (l.map Nat.toUInt8).map UInt8.toNat = l := by
  rw [List.map_map]
  conv => rhs; rw [← List.map_id l]
  refine List.map_congr_left fun x hx => ?_
  simp only [Function.comp_apply, Nat.toUInt8, UInt8.toNat_ofNat', id]
  exact Nat.mod_eq_of_lt (h x hx)

theorem digitsAppend_lt (h1 : 1 < base) (hb : base ≤ 256) (V : Nat) :
    ∀ x ∈ Nat.digitsAppend base size V, x < 256 :=
  fun x hx => by have := Nat.lt_of_mem_digitsAppend h1 size x hx; omega

theorem length_bufferOf (h1 : 1 < base) {V : Nat} (hV : V < base ^ size) : (bufferOf base size V).length = size := by
  rw [bufferOf, List.length_reverse, List.length_map, Nat.length_digitsAppend h1 size hV]

theorem lt_of_mem_bufferOf (h1 : 1 < base) (hb : base ≤ 256) (V : Nat) :
    ∀ x ∈ bufferOf base size V, x.toNat < base := by
  intro x hx
  rw [bufferOf, List.mem_reverse, List.mem_map] at hx
  obtain ⟨y, hy, rfl⟩ := hx
  have hlt := Nat.lt_of_mem_digitsAppend h1 size y hy
  simp only [Nat.toUInt8, UInt8.toNat_ofNat']
  rw [Nat.mod_eq_of_lt (by omega)]
  exact hlt

theorem val_bufferOf (h1 : 1 < base) (hb : base ≤ 256) (V : Nat) : val base (bufferOf base size V).reverse = V := by
  rw [bufferOf, List.reverse_reverse, val, map_toNat_toUInt8 (digitsAppend_lt h1 hb V), Nat.digitsAppend,
    Nat.ofDigits_append_replicate_zero, Nat.ofDigits_digits]

/-- A buffer of digits below the base is the buffer of its number. -/
theorem eq_bufferOf (h1 : 1 < base) {buf : List UInt8} (hlt : ∀ x ∈ buf, x.toNat < base) :
    buf = bufferOf base buf.length (val base buf.reverse) := by
  have hmem : buf.reverse.map UInt8.toNat ∈ {L : List Nat | L.length = buf.length ∧ ∀ x ∈ L, x < base} :=
    ⟨by simp, fun x hx => by
      obtain ⟨y, hy, rfl⟩ := List.mem_map.mp hx
      exact hlt y (List.mem_reverse.mp hy)⟩
  have hinv := (Nat.setInvOn_digitsAppend_ofDigits h1 buf.length).1 hmem
  rw [bufferOf, val, hinv, List.map_map]
  conv => lhs; rw [← List.reverse_reverse buf, ← List.map_id buf.reverse]
  congr 1
  refine List.map_congr_left fun x _ => ?_
  simp

theorem bufferOf_zero : bufferOf base size 0 = List.replicate size 0 := by
  simp [bufferOf, Nat.digitsAppend]

/-- The digits in use, the buffer's last ones, are the number's digits, most significant first. -/
theorem drop_bufferOf {V : Nat} :
    (bufferOf base size V).drop (size - (Nat.digits base V).length) = ((Nat.digits base V).map Nat.toUInt8).reverse := by
  rw [bufferOf, Nat.digitsAppend, List.map_append, List.reverse_append, List.map_replicate, List.reverse_replicate]
  exact List.drop_left' (by simp)

/-- One pass over the buffer of `V`, with the count of digits in use `V`'s digit count, gives
`c + mul * V` in the buffer's digits and the carry above them, stopping at the new digit count
when the number fits. -/
theorem mulAdd_bufferOf (h1 : 1 < base) (hb : base ≤ 256) (hmul : 1 ≤ mul) {V : Nat} (hV : V < base ^ size)
    (c : Nat) :
    let r := mulAdd mul base (Nat.digits base V).length c 0 (bufferOf base size V).reverse
    val base r.1 + base ^ size * r.2.1 = c + mul * V ∧ val base r.1 < base ^ size ∧
      (∀ x ∈ r.1, x.toNat < base) ∧ r.1.length = size ∧
      (c + mul * V < base ^ size → r.2.2 = (Nat.digits base (c + mul * V)).length) := by
  have h0 : 0 < base := by omega
  have hlen : (bufferOf base size V).reverse.length = size := by rw [List.length_reverse, length_bufferOf h1 hV]
  have hval := @val_bufferOf base size h1 hb V
  have hlt : ∀ x ∈ (bufferOf base size V).reverse, x.toNat < base :=
    fun x hx => lt_of_mem_bufferOf h1 hb V x (List.mem_reverse.mp hx)
  have hVL : val base (bufferOf base size V).reverse < base ^ ((Nat.digits base V).length - 0) := by
    rw [hval, Nat.sub_zero]
    exact Nat.lt_base_pow_length_digits h1
  have hlt' := @lt_of_mem_mulAdd mul base (Nat.digits base V).length h0 hb c 0 _ hlt
  have hlen' : (mulAdd mul base (Nat.digits base V).length c 0 (bufferOf base size V).reverse).1.length = size := by
    rw [length_mulAdd, hlen]
  refine ⟨?_, ?_, hlt', hlen', fun hfit => ?_⟩
  · have h := @val_mulAdd mul base _ h0 hb c 0 _ hVL
    rwa [hval, hlen] at h
  · have h := val_lt h1 hlt'
    rwa [hlen'] at h
  · have hdig : (Nat.digits base V).length ≤ 0 + (bufferOf base size V).reverse.length := by
      rw [hlen, Nat.zero_add]
      exact (Nat.digits_length_le_iff h1 V).mpr hV
    rw [count_mulAdd h1 hb c 0 _ hVL hdig (by rw [hval, hlen]; exact hfit), hval, Nat.zero_add, Nat.sub_zero]
    exact max_eq_right (Nat.le_length_digits_le base V _ (by nlinarith))

end Buffer

/-! ### Digit strings and bounds -/

/-- Reading digits most significant first, `V = x + b * V` at each one. -/
theorem foldl_mul_add (b : Nat) : ∀ (xs : List Nat) (V : Nat),
    xs.foldl (fun V x => x + b * V) V = V * b ^ xs.length + Nat.ofDigits b xs.reverse
  | [], V => by simp
  | x :: xs, V => by
    rw [List.foldl_cons, foldl_mul_add b xs, List.reverse_cons, Nat.ofDigits_append, List.length_cons,
      List.length_reverse, Nat.ofDigits_singleton, pow_succ]
    ring

theorem le_foldl_mul_add {b : Nat} (hb : 1 ≤ b) (xs : List Nat) (V : Nat) :
    V ≤ xs.foldl (fun V x => x + b * V) V := by
  rw [foldl_mul_add]
  calc V ≤ V * b ^ xs.length := Nat.le_mul_of_pos_right V (Nat.pow_pos hb)
    _ ≤ V * b ^ xs.length + Nat.ofDigits b xs.reverse := Nat.le_add_right _ _

/-- A bound on powers from a rational bound on the ratio of their logarithms: from `a ^ p < b ^ q`,
every `k` and `m` with `k / m < p / q` have `a ^ k < b ^ m`. -/
theorem pow_lt_pow_of_mul_lt {a b p q k m : Nat} (hb : 1 < b) (hp : 0 < p) (h : a ^ p < b ^ q)
    (hkm : q * k < p * m) : a ^ k < b ^ m := by
  rcases Nat.eq_zero_or_pos k with rfl | hk
  · have hm : m ≠ 0 := by rintro rfl; simp at hkm
    simpa using Nat.one_lt_pow hm hb
  · have hpow : (a ^ k) ^ p < (b ^ m) ^ p :=
      calc (a ^ k) ^ p = (a ^ p) ^ k := by rw [← pow_mul, ← pow_mul, mul_comm]
        _ < (b ^ q) ^ k := Nat.pow_lt_pow_left h hk.ne'
        _ = b ^ (q * k) := by rw [← pow_mul]
        _ ≤ b ^ (p * m) := Nat.pow_le_pow_right (by omega) hkm.le
        _ = (b ^ m) ^ p := by rw [← pow_mul, mul_comm]
    exact (Nat.pow_lt_pow_iff_left hp.ne').mp hpow

end BlackcoinMore.DigitBuffer
