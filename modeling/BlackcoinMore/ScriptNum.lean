import BlackcoinMore.Primitives
import BlackcoinMore.ByteCodec

/-! `CScriptNum` of `script/script.h`: script numbers as little-endian sign-magnitude byte
vectors. `serialize` writes the magnitude's bytes and puts the sign in the top bit, adding a byte
when that bit is taken. The constructor refuses vectors that are too long, or not minimal, and
`set_vch` reads the others back. -/
namespace BlackcoinMore.ScriptNum
open Primitives ByteCodec

def nDefaultMaxNumSize : Nat := 4

/-- The loop of `serialize`: push `absvalue & 0xff`, then `absvalue >>= 8`, until nothing is
left. -/
def pushMagnitude (absvalue : Nat) : Bytes :=
  if absvalue = 0 then [] else (absvalue % 256).toUInt8 :: pushMagnitude (absvalue / 256)
termination_by absvalue
decreasing_by omega

/-- The end of `serialize`: a top byte with its high bit set gets a byte `0x80` or `0` above it,
and otherwise a negative value sets that bit. -/
def pushSign (neg : Bool) (result : Bytes) : Bytes :=
  if result.getLastD 0 &&& 0x80 != 0 then result ++ [if neg then 0x80 else 0]
  else if neg then result.dropLast ++ [result.getLastD 0 ||| 0x80]
  else result

/-- `CScriptNum::serialize(value)`. -/
def serialize (value : Int64) : Bytes :=
  if value = 0 then []
  else
    let neg := value < 0
    let absvalue : UInt64 := if neg then ~~~value.toUInt64 + 1 else value.toUInt64
    pushSign neg (pushMagnitude absvalue.toNat)

/-- `CScriptNum::set_vch(vch)`. The `int64_t` accumulator is kept as the `uint64_t` of its bits:
`|` and `<<` act on the bits alike, and the mask converts it to `uint64_t` anyway. -/
def setVch (vch : Bytes) : Int64 :=
  if vch.isEmpty then 0
  else
    let result : UInt64 := (List.range vch.length).foldl
      (fun result i => result ||| (vch.getD i 0).toUInt64 <<< (8 * i).toUInt64) 0
    if vch.getLastD 0 &&& 0x80 != 0 then
      -(result &&& ~~~((0x80 : UInt64) <<< (8 * (vch.length - 1)).toUInt64)).toInt64
    else result.toInt64

structure CScriptNum where
  m_value : Int64
  deriving DecidableEq, Repr

/-- The minimality test of the constructor: the top byte is zero but for the sign bit, and there
is no byte below it whose high bit the sign would otherwise take. -/
def isNonMinimal (vch : Bytes) : Bool :=
  vch.length > 0 && vch.getLastD 0 &&& 0x7f == 0 &&
    (vch.length ≤ 1 || vch.getD (vch.length - 2) 0 &&& 0x80 == 0)

/-- The constructor `CScriptNum(vch, fRequireMinimal, nMaxNumSize)`, or the message of the
`scriptnum_error` it throws. -/
def CScriptNum.ofVch (vch : Bytes) (fRequireMinimal : Bool) (nMaxNumSize : Nat := nDefaultMaxNumSize) :
    Except String CScriptNum :=
  if vch.length > nMaxNumSize then .error "script number overflow"
  else if fRequireMinimal && isNonMinimal vch then .error "non-minimally encoded script number"
  else .ok ⟨setVch vch⟩

/-! ### The bits of one byte -/

section Byte

set_option maxRecDepth 100000 in
theorem signBit_ne_zero (b : UInt8) : (b &&& 0x80 != 0) = decide (128 ≤ b.toNat) := by
  revert b
  decide

set_option maxRecDepth 100000 in
theorem signBit_eq_zero (b : UInt8) : (b &&& 0x80 == 0) = decide (b.toNat < 128) := by
  revert b
  decide

set_option maxRecDepth 100000 in
theorem lowBits_eq_zero (b : UInt8) : (b &&& 0x7f == 0) = (b == 0 || b == 0x80) := by
  revert b
  decide

set_option maxRecDepth 100000 in
theorem toNat_or_signBit (b : UInt8) (h : b.toNat < 128) : (b ||| 0x80).toNat = b.toNat + 128 := by
  revert b
  decide

set_option maxRecDepth 100000 in
theorem clearSign_or_signBit (b : UInt8) (h : 128 ≤ b.toNat) : (b.toNat - 128).toUInt8 ||| 0x80 = b := by
  revert b
  decide

end Byte

/-! ### The magnitude loop -/

section Magnitude

theorem pushMagnitude_zero : pushMagnitude 0 = [] := by
  rw [pushMagnitude, if_pos rfl]

theorem pushMagnitude_pos {absvalue : Nat} (h : 0 < absvalue) :
    pushMagnitude absvalue = (absvalue % 256).toUInt8 :: pushMagnitude (absvalue / 256) := by
  rw [pushMagnitude, if_neg (by omega)]

theorem decodeLE_pushMagnitude (absvalue : Nat) : decodeLE (pushMagnitude absvalue) = absvalue := by
  induction absvalue using Nat.strong_induction_on with
  | _ n ih =>
    rcases Nat.eq_zero_or_pos n with rfl | hn
    · rw [pushMagnitude_zero]
      rfl
    · rw [pushMagnitude_pos hn, decodeLE, ih _ (by omega)]
      simp only [Nat.toUInt8, UInt8.toNat_ofNat']
      omega

/-- The loop stops at the last non-zero byte. -/
theorem pushMagnitude_eq_concat {absvalue : Nat} (h : 0 < absvalue) :
    ∃ init top, pushMagnitude absvalue = init ++ [top] ∧ top ≠ 0 := by
  induction absvalue using Nat.strong_induction_on with
  | _ n ih =>
    rw [pushMagnitude_pos h]
    rcases Nat.eq_zero_or_pos (n / 256) with h0 | hpos
    · -- the last byte is the whole of what is left
      refine ⟨[], (n % 256).toUInt8, by rw [h0, pushMagnitude_zero]; rfl, fun h' => ?_⟩
      have := congrArg UInt8.toNat h'
      simp only [Nat.toUInt8, UInt8.toNat_ofNat', UInt8.toNat_zero] at this
      omega
    · obtain ⟨init, top, heq, htop⟩ := ih _ (by omega) hpos
      exact ⟨(n % 256).toUInt8 :: init, top, by rw [heq, List.cons_append], htop⟩

theorem toNat_pos_of_ne_zero {b : UInt8} (h : b ≠ 0) : 0 < b.toNat := by
  rcases Nat.eq_zero_or_pos b.toNat with h0 | hpos
  · exact absurd (UInt8.toNat_inj.mp (h0.trans UInt8.toNat_zero.symm)) h
  · exact hpos

theorem decodeLE_concat_pos (init : Bytes) {top : UInt8} (htop : top ≠ 0) : 0 < decodeLE (init ++ [top]) := by
  have h1 : 0 < decodeLE [top] := by
    rw [decodeLE, decodeLE, Nat.mul_zero, Nat.add_zero]
    exact toNat_pos_of_ne_zero htop
  rw [decodeLE_append]
  exact Nat.add_pos_right _ (Nat.mul_pos (by positivity) h1)

/-- Bytes whose last one is not zero are what the loop writes for their number. -/
theorem pushMagnitude_decodeLE : ∀ (init : Bytes) {top : UInt8}, top ≠ 0 →
    pushMagnitude (decodeLE (init ++ [top])) = init ++ [top]
  | [], top, htop => by
    have hlt := top.toNat_lt
    rw [pushMagnitude_pos (decodeLE_concat_pos [] htop), List.nil_append, decodeLE, decodeLE,
      Nat.mul_zero, Nat.add_zero, Nat.div_eq_of_lt hlt, Nat.mod_eq_of_lt hlt, pushMagnitude_zero]
    simp [Nat.toUInt8, UInt8.ofNat_toNat]
  | b :: init, top, htop => by
    have hb := b.toNat_lt
    rw [pushMagnitude_pos (decodeLE_concat_pos _ htop), List.cons_append, decodeLE,
      show (b.toNat + 256 * decodeLE (init ++ [top])) / 256 = decodeLE (init ++ [top]) by omega,
      pushMagnitude_decodeLE init htop,
      show (b.toNat + 256 * decodeLE (init ++ [top])) % 256 = b.toNat by omega]
    simp [Nat.toUInt8, UInt8.ofNat_toNat]

end Magnitude

/-! ### Reading the bytes back -/

section Decode

/-- Bit `j` is the top bit of `n`: clearing it with the 64-bit mask subtracts it. -/
theorem and_not_two_pow {n j : Nat} (hj : j < 64) (hlo : 2 ^ j ≤ n) (hhi : n < 2 ^ (j + 1)) :
    n &&& (2 ^ 64 - 1 - 2 ^ j) = n - 2 ^ j := by
  have hA := Nat.one_le_two_pow (n := j)
  have hB := Nat.one_le_two_pow (n := 63 - j)
  have hsucc : 2 ^ (j + 1) = 2 * 2 ^ j := by ring
  have h64 : 2 ^ 64 = 2 ^ (j + 1) * 2 ^ (63 - j) := by rw [← pow_add]; congr 1; omega
  -- the mask is all ones below bit `j`, a zero there, and ones above
  have hmask : 2 ^ 64 - 1 - 2 ^ j = 2 ^ (j + 1) * (2 ^ (63 - j) - 1) + (2 ^ j - 1) := by
    have hprod : 2 ^ (j + 1) ≤ 2 ^ (j + 1) * 2 ^ (63 - j) := Nat.le_mul_of_pos_right _ hB
    rw [h64, Nat.mul_sub_one]
    omega
  have hrest : n - 2 ^ j = n % 2 ^ j := by
    have := Nat.div_add_mod n (2 ^ j)
    have hdiv : n / 2 ^ j = 1 := by
      apply Nat.div_eq_of_lt_le <;> omega
    rw [hdiv, Nat.mul_one] at this
    omega
  rw [hrest, hmask]
  apply Nat.eq_of_testBit_eq
  intro i
  rw [Nat.testBit_and, Nat.testBit_mod_two_pow, Nat.testBit_two_pow_mul_add _ (by omega),
    Nat.testBit_two_pow_sub_one]
  by_cases hi : i < j + 1
  · rw [if_pos hi, Bool.and_comm]
  · -- above bit `j` the number has no bits
    rw [if_neg hi, Nat.testBit_lt_two_pow (Nat.lt_of_lt_of_le hhi (Nat.pow_le_pow_right (by norm_num) (by omega)))]
    simp only [Bool.false_and, decide_eq_false (by omega : ¬i < j), Bool.false_and]

/-- The mask of `set_vch` on a number whose top byte is byte `s / 8` and has its high bit set. -/
theorem toNat_clearSign {x : UInt64} {s : Nat} (hs : s ≤ 56) (hlo : 2 ^ (s + 7) ≤ x.toNat)
    (hhi : x.toNat < 2 ^ (s + 8)) :
    (x &&& ~~~((0x80 : UInt64) <<< s.toUInt64)).toNat = x.toNat - 2 ^ (s + 7) := by
  have hshift : ((0x80 : UInt64) <<< s.toUInt64).toNat = 2 ^ (s + 7) := by
    rw [UInt64.toNat_shiftLeft, show (0x80 : UInt64).toNat = 2 ^ 7 from rfl, Nat.toUInt64, UInt64.toNat_ofNat',
      Nat.mod_eq_of_lt (by omega : s < 2 ^ 64), Nat.mod_eq_of_lt (by omega : s < 64), Nat.shiftLeft_eq, ← pow_add,
      Nat.mod_eq_of_lt (Nat.pow_lt_pow_right (by norm_num) (by omega)), Nat.add_comm 7 s]
  rw [UInt64.toNat_and, UInt64.toNat_not, hshift, show UInt64.size = 2 ^ 64 from rfl]
  exact and_not_two_pow (by omega) hlo hhi

/-- The loop of `set_vch` over the first `n ≤ 8` bytes reads their little-endian number. -/
theorem toNat_setVchLoop (vch : Bytes) : ∀ n, n ≤ vch.length → n ≤ 8 →
    ((List.range n).foldl (fun result i => result ||| (vch.getD i 0).toUInt64 <<< (8 * i).toUInt64) 0).toNat =
      decodeLE (vch.take n)
  | 0, _, _ => rfl
  | n + 1, hn, h8 => by
    have hb := (vch.getD n 0).toNat_lt
    have hlow : decodeLE (vch.take n) < 2 ^ (8 * n) := by
      have := decodeLE_lt (vch.take n)
      rwa [List.length_take_of_le (by omega), show (256 : Nat) = 2 ^ 8 from rfl, ← pow_mul] at this
    -- the new byte lands above the bits read so far
    have hshift : ((vch.getD n 0).toUInt64 <<< (8 * n).toUInt64).toNat = 2 ^ (8 * n) * (vch.getD n 0).toNat := by
      have hfit : (vch.getD n 0).toNat * 2 ^ (8 * n) < 2 ^ 64 :=
        calc (vch.getD n 0).toNat * 2 ^ (8 * n) < 2 ^ 8 * 2 ^ (8 * n) := by
              exact Nat.mul_lt_mul_of_pos_right hb (by positivity)
          _ = 2 ^ (8 * n + 8) := by ring
          _ ≤ 2 ^ 64 := Nat.pow_le_pow_right (by norm_num) (by omega)
      rw [UInt64.toNat_shiftLeft, UInt8.toNat_toUInt64, Nat.toUInt64, UInt64.toNat_ofNat',
        Nat.mod_eq_of_lt (by omega : 8 * n < 2 ^ 64), Nat.mod_eq_of_lt (by omega : 8 * n < 64), Nat.shiftLeft_eq,
        Nat.mod_eq_of_lt hfit, Nat.mul_comm]
    have htake : vch.take (n + 1) = vch.take n ++ [vch.getD n 0] := by
      rw [List.take_add_one, List.getElem?_eq_getElem (by omega), List.getD_eq_getElem _ _ (by omega)]
      rfl
    rw [List.range_succ, List.foldl_append, List.foldl_cons, List.foldl_nil, UInt64.toNat_or,
      toNat_setVchLoop vch n (by omega) (by omega), hshift, Nat.lor_comm, ← Nat.two_pow_add_eq_or_of_lt hlow,
      htake, decodeLE_append, List.length_take_of_le (by omega), show (256 : Nat) = 2 ^ 8 from rfl, ← pow_mul]
    simp [decodeLE]
    ring

theorem toInt_toInt64_of_lt {x : UInt64} (h : x.toNat < 2 ^ 63) : x.toInt64.toInt = x.toNat := by
  rw [← Int64.toInt_toBitVec, UInt64.toBitVec_toInt64, BitVec.toInt_eq_toNat_cond,
    if_pos (by show 2 * x.toNat < 2 ^ 64; omega)]
  rfl

theorem toInt_neg_toInt64_of_lt {x : UInt64} (h : x.toNat < 2 ^ 63) : (-x.toInt64).toInt = -x.toNat := by
  rw [Int64.toInt_neg, toInt_toInt64_of_lt h, Int.bmod_eq_of_le (by omega) (by omega)]

/-- `set_vch` on at most eight bytes: the number they denote, negated and with the sign bit cleared
when the top byte has it. -/
theorem toInt_setVch_concat (init : Bytes) (top : UInt8) (hk : init.length < 8) :
    (setVch (init ++ [top])).toInt =
      if 128 ≤ top.toNat then -((decodeLE init + 256 ^ init.length * (top.toNat - 128) : Nat) : Int)
      else ((decodeLE init + 256 ^ init.length * top.toNat : Nat) : Int) := by
  rw [setVch, if_neg (by simp)]
  dsimp only
  rw [List.getLastD_concat, signBit_ne_zero, List.length_append, List.length_singleton, Nat.add_sub_cancel]
  have hval := toNat_setVchLoop (init ++ [top]) (init.length + 1) (by simp) (by omega)
  rw [List.take_of_length_le (by simp), decodeLE_append] at hval
  simp only [decodeLE, Nat.mul_zero, Nat.add_zero] at hval
  set result := (List.range (init.length + 1)).foldl
    (fun result i => result ||| ((init ++ [top]).getD i 0).toUInt64 <<< (8 * i).toUInt64) 0
  -- the bytes' number, with `P` the weight of the top byte
  set P := 256 ^ init.length with hP_def
  have hI : decodeLE init < P := decodeLE_lt init
  have ht := top.toNat_lt
  have hP : P ≤ 2 ^ 56 :=
    calc P ≤ 256 ^ 7 := Nat.pow_le_pow_right (by norm_num) (by omega)
      _ = 2 ^ 56 := by norm_num
  have hP7 : 2 ^ (8 * init.length + 7) = P * 128 := by rw [hP_def, pow_add, pow_mul]; norm_num
  have hP8 : 2 ^ (8 * init.length + 8) = P * 256 := by rw [hP_def, pow_add, pow_mul]; norm_num
  have hbound : decodeLE init + P * top.toNat < P * 256 := by nlinarith
  by_cases hsign : 128 ≤ top.toNat
  · -- the sign bit is bit `8 * init.length + 7`, cleared before the negation
    have hlo : P * 128 ≤ decodeLE init + P * top.toNat := by nlinarith
    have hclear := toNat_clearSign (x := result) (s := 8 * init.length) (by omega) (by rw [hval, hP7]; exact hlo)
      (by rw [hval, hP8]; exact hbound)
    have hsub : decodeLE init + P * top.toNat - P * 128 = decodeLE init + P * (top.toNat - 128) := by
      have := Nat.mul_le_mul_left P hsign
      rw [Nat.mul_sub]
      omega
    have hsmall : decodeLE init + P * (top.toNat - 128) < 2 ^ 63 := by
      have h1 : P * (top.toNat - 128) + P ≤ P * 128 := by
        rw [← Nat.mul_succ]
        exact Nat.mul_le_mul_left _ (by omega)
      have h2 : P * 128 ≤ 2 ^ 63 := by omega
      omega
    rw [hval, hP7, hsub] at hclear
    rw [if_pos (decide_eq_true hsign), if_pos hsign, toInt_neg_toInt64_of_lt (by rw [hclear]; exact hsmall),
      hclear]
  · have hsmall : decodeLE init + P * top.toNat < 2 ^ 63 := by
      have h1 : P * top.toNat + P ≤ P * 128 := by
        rw [← Nat.mul_succ]
        exact Nat.mul_le_mul_left _ (by omega)
      omega
    rw [if_neg (by simpa using hsign), if_neg hsign, toInt_toInt64_of_lt (by rw [hval]; exact hsmall), hval]

/-- A number read from at most `n ≤ 8` bytes lies strictly within `2 ^ (8 * n - 1)` of zero: four
bytes give the range of `int` but its minimum. -/
theorem natAbs_setVch_lt {vch : Bytes} {n : Nat} (hlen : vch.length ≤ n) (hn : n ≤ 8) (hpos : 0 < n) :
    (setVch vch).toInt.natAbs < 2 ^ (8 * n - 1) := by
  rcases List.eq_nil_or_concat' vch with rfl | ⟨init, top, rfl⟩
  · exact Nat.two_pow_pos _
  have hk : init.length + 1 ≤ n := by simpa using hlen
  have hI := decodeLE_lt init
  have ht := top.toNat_lt
  -- the top byte without its sign bit is below 128, so the magnitude is below `256 ^ k * 128`
  have hmag : ∀ t, t < 128 → decodeLE init + 256 ^ init.length * t < 2 ^ (8 * n - 1) := by
    intro t htl
    have hpow : 256 ^ init.length * 128 ≤ 2 ^ (8 * n - 1) :=
      calc 256 ^ init.length * 128 = 2 ^ (8 * init.length + 7) := by rw [pow_add, pow_mul]; norm_num
        _ ≤ 2 ^ (8 * n - 1) := Nat.pow_le_pow_right (by norm_num) (by omega)
    have : 256 ^ init.length * t + 256 ^ init.length ≤ 256 ^ init.length * 128 := by
      rw [← Nat.mul_succ]
      exact Nat.mul_le_mul_left _ htl
    omega
  rw [toInt_setVch_concat init top (by omega)]
  split_ifs with hsign
  · rw [Int.natAbs_neg, Int.natAbs_natCast]
    exact hmag _ (by omega)
  · rw [Int.natAbs_natCast]
    exact hmag _ (by omega)

end Decode

/-! ### Writing the bytes -/

section Encode

/-- `absvalue` is the magnitude of the value, `INT64_MIN` included. -/
theorem toNat_absvalue (value : Int64) :
    (if value < 0 then ~~~value.toUInt64 + 1 else value.toUInt64).toNat = value.toInt.natAbs := by
  have hbits := BitVec.toInt_eq_toNat_cond value.toBitVec
  rw [Int64.toInt_toBitVec] at hbits
  have hx : value.toUInt64.toNat = value.toBitVec.toNat := rfl
  have hlt64 := value.toBitVec.isLt
  have hneg : value < 0 ↔ value.toInt < 0 := by rw [Int64.lt_iff_toInt_lt, Int64.toInt_zero]
  split_ifs with h
  · -- two's complement: the bits of a negative value are `2 ^ 64` above it
    rw [UInt64.toNat_add, UInt64.toNat_not, hx, show UInt64.size = 2 ^ 64 from rfl, UInt64.toNat_one]
    have := hneg.mp h
    split_ifs at hbits <;> omega
  · rw [hx]
    have := hneg.not.mp h
    split_ifs at hbits <;> omega

/-- `serialize` through the value's sign and magnitude. -/
theorem serialize_eq (value : Int64) :
    serialize value =
      if value.toInt = 0 then [] else pushSign (decide (value.toInt < 0)) (pushMagnitude value.toInt.natAbs) := by
  have hzero : value = 0 ↔ value.toInt = 0 := by rw [← Int64.toInt_zero, Int64.toInt_inj]
  have hneg : decide (value < 0) = decide (value.toInt < 0) :=
    decide_eq_decide.mpr (by rw [Int64.lt_iff_toInt_lt, Int64.toInt_zero])
  rw [serialize]
  dsimp only
  rw [toNat_absvalue, hneg]
  exact if_congr hzero rfl rfl

theorem pushSign_concat (neg : Bool) (init : Bytes) (top : UInt8) :
    pushSign neg (init ++ [top]) =
      if 128 ≤ top.toNat then init ++ [top, if neg then 0x80 else 0]
      else if neg then init ++ [top ||| 0x80] else init ++ [top] := by
  rw [pushSign, List.getLastD_concat, List.dropLast_concat, signBit_ne_zero]
  by_cases h : 128 ≤ top.toNat
  · rw [if_pos (decide_eq_true h), if_pos h, List.append_assoc]
    rfl
  · rw [if_neg (by simpa using h), if_neg h]

end Encode

/-! ### The minimality test -/

section Minimal

theorem isNonMinimal_singleton (top : UInt8) : isNonMinimal [top] = (top == 0 || top == 0x80) := by
  rw [isNonMinimal, ← lowBits_eq_zero]
  simp

theorem isNonMinimal_concat_concat (init : Bytes) (below top : UInt8) :
    isNonMinimal (init ++ [below, top]) = ((top == 0 || top == 0x80) && decide (below.toNat < 128)) := by
  have hbelow : (init ++ [below, top]).getD ((init ++ [below, top]).length - 2) 0 = below := by
    rw [List.getD_append_right _ _ _ _ (by simp)]
    simp
  have hlast : (init ++ [below, top]).getLastD 0 = top := by
    rw [show init ++ [below, top] = (init ++ [below]) ++ [top] by simp, List.getLastD_concat]
  rw [isNonMinimal, hbelow, hlast, ← lowBits_eq_zero, signBit_eq_zero]
  simp

/-- A top byte other than `0` and `0x80` is minimal whatever lies below it. -/
theorem isNonMinimal_concat_of_ne (init : Bytes) {top : UInt8} (h0 : top ≠ 0) (h80 : top ≠ 0x80) :
    isNonMinimal (init ++ [top]) = false := by
  rcases List.eq_nil_or_concat' init with rfl | ⟨init, below, rfl⟩
  · rw [List.nil_append, isNonMinimal_singleton]
    simp [h0, h80]
  · rw [List.append_assoc, List.singleton_append, isNonMinimal_concat_concat]
    simp [h0, h80]

/-- A vector that passes the test and ends in `0` or `0x80` has a byte below it with its high bit
set. -/
theorem exists_below_of_minimal {init : Bytes} {top : UInt8} (htop : top = 0 ∨ top = 0x80)
    (hmin : isNonMinimal (init ++ [top]) = false) :
    ∃ init' below, init = init' ++ [below] ∧ 128 ≤ below.toNat := by
  rcases List.eq_nil_or_concat' init with rfl | ⟨init', below, rfl⟩
  · rw [List.nil_append, isNonMinimal_singleton] at hmin
    rcases htop with rfl | rfl <;> simp at hmin
  · rw [List.append_assoc, List.singleton_append, isNonMinimal_concat_concat] at hmin
    refine ⟨init', below, rfl, ?_⟩
    rcases htop with rfl | rfl <;> simpa using hmin

end Minimal

/-! ### The round trips -/

section RoundTrip

/-- A magnitude below `2 ^ 63` with either sign is written on at most eight bytes that pass the
minimality test and that `set_vch` reads back. -/
theorem pushSign_roundTrip (neg : Bool) {m : Nat} (hpos : 0 < m) (hlt : m < 2 ^ 63) :
    (pushSign neg (pushMagnitude m)).length ≤ 8 ∧ isNonMinimal (pushSign neg (pushMagnitude m)) = false ∧
      (setVch (pushSign neg (pushMagnitude m))).toInt = if neg then -(m : Int) else m := by
  obtain ⟨init, top, hpush, htop⟩ := pushMagnitude_eq_concat hpos
  have hm : decodeLE (init ++ [top]) = m := by rw [← hpush, decodeLE_pushMagnitude]
  have hsplit : decodeLE (init ++ [top]) = decodeLE init + 256 ^ init.length * top.toNat := by
    simp [decodeLE_append, decodeLE]
  have htop_pos := toNat_pos_of_ne_zero htop
  have ht := top.toNat_lt
  -- the top byte's weight is below `2 ^ 63`, so at most seven bytes lie under it
  have hweight : 256 ^ init.length * top.toNat < 2 ^ 63 := by omega
  have hk : init.length < 8 := by
    by_contra h
    have : 256 ^ 8 ≤ 256 ^ init.length := Nat.pow_le_pow_right (by norm_num) (by omega)
    nlinarith
  rw [hpush, pushSign_concat]
  by_cases hbig : 128 ≤ top.toNat
  · -- the sign takes a byte of its own above the top byte
    have hk7 : init.length < 7 := by
      by_contra h
      have : 256 ^ 7 ≤ 256 ^ init.length := Nat.pow_le_pow_right (by norm_num) (by omega)
      nlinarith
    rw [if_pos hbig]
    refine ⟨by simp; omega, by rw [isNonMinimal_concat_concat]; simp; omega, ?_⟩
    rw [show init ++ [top, if neg then 0x80 else 0] = (init ++ [top]) ++ [if neg then 0x80 else 0] by simp,
      toInt_setVch_concat _ _ (by simp; omega), hm]
    cases neg <;> simp
  · rw [if_neg hbig]
    cases neg with
    | false =>
      -- the top byte keeps its clear high bit
      rw [if_neg Bool.false_ne_true, if_neg Bool.false_ne_true]
      refine ⟨by simp; omega, isNonMinimal_concat_of_ne init htop (fun h => by simp [h] at hbig), ?_⟩
      rw [toInt_setVch_concat _ _ hk, if_neg hbig, ← hsplit, hm]
    | true =>
      -- the sign bit is set in the top byte
      have hor := toNat_or_signBit top (by omega)
      have hne0 : top ||| 0x80 ≠ 0 := fun h => by simp [h] at hor
      have hne80 : top ||| 0x80 ≠ 0x80 := fun h => by rw [h] at hor; simp at hor; omega
      rw [if_pos rfl, if_pos rfl]
      refine ⟨by simp; omega, isNonMinimal_concat_of_ne init hne0 hne80, ?_⟩
      rw [toInt_setVch_concat _ _ hk, if_pos (by omega), hor, Nat.add_sub_cancel, ← hsplit, hm]

/-- At most eight bytes that pass the minimality test are what `serialize` writes for the value
`set_vch` reads from them. -/
theorem serialize_setVch {vch : Bytes} (hlen : vch.length ≤ 8) (hmin : isNonMinimal vch = false) :
    serialize (setVch vch) = vch := by
  rcases List.eq_nil_or_concat' vch with rfl | ⟨init, top, rfl⟩
  · rfl
  have hk : init.length < 8 := by simp at hlen; omega
  have ht := top.toNat_lt
  rw [serialize_eq, toInt_setVch_concat init top hk]
  by_cases hsign : 128 ≤ top.toNat
  · rw [if_pos hsign]
    by_cases h80 : top = 0x80
    · -- a byte `0x80` alone above a byte with its high bit set: the sign's own byte
      subst h80
      obtain ⟨init', below, rfl, hbelow⟩ := exists_below_of_minimal (.inr rfl) hmin
      have hne : below ≠ 0 := fun h => by simp [h] at hbelow
      have hpos := decodeLE_concat_pos init' hne
      rw [show (0x80 : UInt8).toNat - 128 = 0 from rfl, Nat.mul_zero, Nat.add_zero,
        if_neg (by omega), decide_eq_true (by omega), Int.natAbs_neg, Int.natAbs_natCast,
        pushMagnitude_decodeLE init' hne, pushSign_concat, if_pos hbelow]
      simp
    · -- the top byte without its sign bit is the magnitude's top byte
      have hlow : (top.toNat - 128).toUInt8.toNat = top.toNat - 128 := UInt8.toNat_ofNat_of_lt' (by rw [show UInt8.size = 256 from rfl]; omega)
      have hne : (top.toNat - 128).toUInt8 ≠ 0 := fun h => h80 (by
        apply UInt8.toNat_inj.mp
        rw [h, UInt8.toNat_zero] at hlow
        show top.toNat = 128
        omega)
      have hval : decodeLE init + 256 ^ init.length * (top.toNat - 128) = decodeLE (init ++ [(top.toNat - 128).toUInt8]) := by
        simp [decodeLE_append, decodeLE, hlow]
      have hpos := decodeLE_concat_pos init hne
      rw [hval, if_neg (by omega), decide_eq_true (by omega), Int.natAbs_neg, Int.natAbs_natCast,
        pushMagnitude_decodeLE init hne, pushSign_concat, if_neg (by omega), if_pos rfl,
        clearSign_or_signBit top hsign]
  · rw [if_neg hsign]
    by_cases h0 : top = 0
    · -- a byte `0` above a byte with its high bit set: the sign's own byte
      subst h0
      obtain ⟨init', below, rfl, hbelow⟩ := exists_below_of_minimal (.inl rfl) hmin
      have hne : below ≠ 0 := fun h => by simp [h] at hbelow
      have hpos := decodeLE_concat_pos init' hne
      rw [UInt8.toNat_zero, Nat.mul_zero, Nat.add_zero, if_neg (by omega), decide_eq_false (by omega),
        Int.natAbs_natCast, pushMagnitude_decodeLE init' hne, pushSign_concat, if_pos hbelow]
      simp
    · have hval : decodeLE init + 256 ^ init.length * top.toNat = decodeLE (init ++ [top]) := by
        simp [decodeLE_append, decodeLE]
      have hpos := decodeLE_concat_pos init h0
      rw [hval, if_neg (by omega), decide_eq_false (by omega), Int.natAbs_natCast,
        pushMagnitude_decodeLE init h0, pushSign_concat, if_neg hsign, if_neg (by simp)]

end RoundTrip

/-- Script numbers round-trip canonically: every `int64_t` but `INT64_MIN` serializes to at most
nine bytes that the constructor with `fRequireMinimal` and `nMaxNumSize = 9` accepts and reads
back, and every vector of at most `nMaxNumSize ≤ 8` bytes it accepts is the serialization of the
value it reads. -/
theorem scriptNum_roundTrip :
    (∀ value : Int64, value ≠ Int64.minValue →
      (serialize value).length ≤ 9 ∧ CScriptNum.ofVch (serialize value) true 9 = .ok ⟨value⟩) ∧
    (∀ (vch : Bytes) (nMaxNumSize : Nat) (n : CScriptNum), nMaxNumSize ≤ 8 → vch.length ≤ nMaxNumSize →
      CScriptNum.ofVch vch true nMaxNumSize = .ok n → serialize n.m_value = vch) := by
  refine ⟨fun value hmin => ?_, fun vch nMaxNumSize n hmax hlen h => ?_⟩
  · have hlo : -2 ^ 63 < value.toInt := lt_of_le_of_ne (Int64.le_toInt value)
      (fun h => hmin (Int64.toInt_inj.mp (h.symm.trans Int64.toInt_minValue.symm)))
    have hhi := Int64.toInt_lt value
    rw [serialize_eq]
    by_cases h0 : value.toInt = 0
    · -- zero is the empty vector
      have hvalue : value = 0 := Int64.toInt_inj.mp (h0.trans Int64.toInt_zero.symm)
      subst hvalue
      rw [if_pos h0]
      exact ⟨by simp, rfl⟩
    · rw [if_neg h0]
      obtain ⟨hlen8, hnm, hval⟩ :=
        pushSign_roundTrip (decide (value.toInt < 0)) (m := value.toInt.natAbs) (by omega) (by omega)
      refine ⟨by omega, ?_⟩
      rw [CScriptNum.ofVch, if_neg (by omega), hnm, Bool.and_false, if_neg Bool.false_ne_true,
        Except.ok.injEq, CScriptNum.mk.injEq, ← Int64.toInt_inj, hval]
      by_cases hneg : value.toInt < 0
      · rw [if_pos (decide_eq_true hneg)]
        omega
      · rw [if_neg (by simpa using hneg)]
        omega
  · -- the constructor either refuses the vector or reads it with `set_vch`
    rw [CScriptNum.ofVch, if_neg (by omega)] at h
    cases hnm : isNonMinimal vch
    · rw [hnm, Bool.and_false, if_neg Bool.false_ne_true, Except.ok.injEq] at h
      rw [← h]
      exact serialize_setVch (by omega) hnm
    · rw [hnm, Bool.and_true, if_pos rfl] at h
      cases h

/-- `-255` needs a byte of its own for the sign: it is written as `ff 80`, read back, and that
vector is the serialization of what it reads. -/
theorem scriptNum_roundTrip_255 :
    serialize (-255) = [0xff, 0x80] ∧
      ((serialize (-255)).length ≤ 9 ∧ CScriptNum.ofVch (serialize (-255)) true 9 = .ok ⟨-255⟩) ∧
      serialize (CScriptNum.m_value ⟨-255⟩) = [0xff, 0x80] :=
  ⟨by decide +kernel, scriptNum_roundTrip.1 (-255) (by decide),
    scriptNum_roundTrip.2 [0xff, 0x80] 8 ⟨-255⟩ (by decide) (by decide) (by decide +kernel)⟩

/-- Negative zero is refused. -/
example : CScriptNum.ofVch [0x80] true = .error "non-minimally encoded script number" := by decide

end BlackcoinMore.ScriptNum
