import Mathlib

/-! Numbers as lists of bits, most significant bit first, and bytes as the eight bits they
hold. A bit stream that writes the low `n` bits of a number from the top down produces
`bitsBE n x`; reading `n` bits back folds them with `ofBitsBE`. -/

namespace BlackcoinMore.BitList

/-- The low `n` bits of `x`, most significant first. -/
def bitsBE : Nat → Nat → List Bool
  | 0, _ => []
  | n + 1, x => x.testBit n :: bitsBE n x

/-- The number that a list of bits spells, most significant first. -/
def ofBitsBE (l : List Bool) : Nat := l.foldl (fun acc b => 2 * acc + b.toNat) 0

/-- The eight bits of each byte, in order. -/
def bytesBits (l : List UInt8) : List Bool := l.flatMap fun b => bitsBE 8 b.toNat

@[simp] theorem bitsBE_zero_left (x : Nat) : bitsBE 0 x = [] := rfl

@[simp] theorem length_bitsBE (n x : Nat) : (bitsBE n x).length = n := by
  induction n with
  | zero => rfl
  | succ n ih => simp [bitsBE, ih]

@[simp] theorem bytesBits_nil : bytesBits [] = [] := rfl

@[simp] theorem bytesBits_cons (b : UInt8) (l : List UInt8) :
    bytesBits (b :: l) = bitsBE 8 b.toNat ++ bytesBits l := rfl

@[simp] theorem bytesBits_append (l l' : List UInt8) : bytesBits (l ++ l') = bytesBits l ++ bytesBits l' := by
  simp [bytesBits]

@[simp] theorem length_bytesBits (l : List UInt8) : (bytesBits l).length = 8 * l.length := by
  induction l with
  | nil => rfl
  | cons b l ih => simp [ih]; ring

theorem foldl_ofBitsBE (l : List Bool) (acc : Nat) :
    l.foldl (fun acc b => 2 * acc + b.toNat) acc = acc * 2 ^ l.length + ofBitsBE l := by
  induction l generalizing acc with
  | nil => simp [ofBitsBE]
  | cons b l ih =>
    have hb : ofBitsBE (b :: l) = b.toNat * 2 ^ l.length + ofBitsBE l := by
      show List.foldl _ (2 * 0 + b.toNat) l = _
      rw [ih]
      simp
    rw [List.foldl_cons, ih, hb, List.length_cons, pow_succ]
    ring

@[simp] theorem ofBitsBE_nil : ofBitsBE [] = 0 := rfl

theorem ofBitsBE_append (l l' : List Bool) : ofBitsBE (l ++ l') = ofBitsBE l * 2 ^ l'.length + ofBitsBE l' := by
  rw [ofBitsBE, List.foldl_append, foldl_ofBitsBE]
  rfl

theorem ofBitsBE_cons (b : Bool) (l : List Bool) : ofBitsBE (b :: l) = b.toNat * 2 ^ l.length + ofBitsBE l := by
  rw [← List.singleton_append, ofBitsBE_append]
  simp [ofBitsBE]

theorem ofBitsBE_lt (l : List Bool) : ofBitsBE l < 2 ^ l.length := by
  induction l with
  | nil => simp
  | cons b l ih =>
    rw [ofBitsBE_cons, List.length_cons, pow_succ]
    cases b <;> simp <;> omega

/-- Reading back the low `n` bits. -/
theorem ofBitsBE_bitsBE (n x : Nat) : ofBitsBE (bitsBE n x) = x % 2 ^ n := by
  induction n with
  | zero => simp [bitsBE, Nat.mod_one]
  | succ n ih =>
    rw [bitsBE, ofBitsBE_cons, ih, length_bitsBE, Nat.mod_pow_succ, Nat.testBit_eq_decide_div_mod_eq]
    by_cases h : x / 2 ^ n % 2 = 1
    · simp [h]; ring
    · have h0 : x / 2 ^ n % 2 = 0 := by omega
      simp [h0]

/-- The bits below `m` depend only on the number mod `2 ^ m`. -/
theorem bitsBE_congr {m y z : Nat} (h : y % 2 ^ m = z % 2 ^ m) : bitsBE m y = bitsBE m z := by
  induction m with
  | zero => rfl
  | succ m ih =>
    have hlow : y % 2 ^ m = z % 2 ^ m := by
      rw [← Nat.mod_mod_of_dvd y (pow_dvd_pow 2 (Nat.le_succ m)), h,
        Nat.mod_mod_of_dvd _ (pow_dvd_pow 2 (Nat.le_succ m))]
    rw [bitsBE, bitsBE, ih hlow]
    congr 1
    have hbit := congrArg (fun x => x.testBit m) h
    simpa [Nat.testBit_mod_two_pow] using hbit

theorem bitsBE_mod (n x : Nat) : bitsBE n (x % 2 ^ n) = bitsBE n x := bitsBE_congr (Nat.mod_mod _ _)

/-- The top `m` of `m + n` bits are the bits of `x / 2 ^ n`. -/
theorem bitsBE_add (m n x : Nat) : bitsBE (m + n) x = bitsBE m (x / 2 ^ n) ++ bitsBE n x := by
  induction m with
  | zero => simp [bitsBE]
  | succ m ih =>
    rw [Nat.succ_add, bitsBE, ih, bitsBE, Nat.testBit_div_two_pow]
    rfl

/-- A number made of a high part `a` over `k` low bits `b`. -/
theorem bitsBE_two_pow_mul_add {n k a b : Nat} (hb : b < 2 ^ k) :
    bitsBE (n + k) (2 ^ k * a + b) = bitsBE n a ++ bitsBE k b := by
  rw [bitsBE_add, Nat.add_comm (2 ^ k * a) b, Nat.add_mul_div_left _ _ (Nat.two_pow_pos k), Nat.div_eq_of_lt hb,
    zero_add, bitsBE_congr (m := k) (z := b) (by rw [Nat.add_mul_mod_self_left])]

/-- The low `n` bits of `x` are its top `b` of them, then the rest. -/
theorem bitsBE_split_top {b n : Nat} (x : Nat) (hb : b ≤ n) :
    bitsBE n x = bitsBE b (x % 2 ^ n / 2 ^ (n - b)) ++ bitsBE (n - b) x := by
  have h := bitsBE_add b (n - b) (x % 2 ^ n)
  rw [Nat.add_sub_cancel' hb, bitsBE_mod] at h
  rw [h, bitsBE_congr (m := n - b) (z := x) (Nat.mod_mod_of_dvd x (pow_dvd_pow 2 (Nat.sub_le n b)))]

theorem bitsBE_zero (n : Nat) : bitsBE n 0 = List.replicate n false := by
  induction n with
  | zero => rfl
  | succ n ih => rw [bitsBE, ih, Nat.zero_testBit, List.replicate_succ]

/-- Below `n` the bits of `2 ^ n - 1`, and of any number whose low `n` bits are set, are ones. -/
theorem bitsBE_of_testBit {n x : Nat} (h : ∀ i < n, x.testBit i = true) : bitsBE n x = List.replicate n true := by
  induction n with
  | zero => rfl
  | succ n ih =>
    rw [bitsBE, ih fun i hi => h i (by omega), h n (by omega), List.replicate_succ]

/-- Bytes whose bits start with the bits of `h` start with `h`. -/
theorem exists_of_bytesBits_eq_append {l h : List UInt8} {X : List Bool} (hl : bytesBits l = bytesBits h ++ X) :
    ∃ body, l = h ++ body ∧ bytesBits body = X := by
  induction h generalizing l with
  | nil => exact ⟨l, rfl, hl⟩
  | cons b h ih =>
    cases l with
    | nil =>
      have hlen := congrArg List.length hl
      simp at hlen
      omega
    | cons c l =>
      rw [bytesBits_cons, bytesBits_cons, List.append_assoc] at hl
      obtain ⟨hbyte, hrest⟩ := List.append_inj hl (by simp)
      obtain ⟨body, rfl, hbody⟩ := ih hrest
      -- a byte is its eight bits
      have hcb : c = b := by
        have hval := congrArg ofBitsBE hbyte
        rw [ofBitsBE_bitsBE, ofBitsBE_bitsBE, Nat.mod_eq_of_lt c.toNat_lt, Nat.mod_eq_of_lt b.toNat_lt] at hval
        exact UInt8.toNat_inj.mp hval
      exact ⟨body, by rw [hcb, List.cons_append], hbody⟩

end BlackcoinMore.BitList
