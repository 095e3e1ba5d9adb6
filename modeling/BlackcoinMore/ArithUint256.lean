import BlackcoinMore.Primitives

/-! `base_uint<BITS>` of `arith_uint256.{h,cpp}`: `WIDTH` little-endian 32-bit limbs, the
limb loops of its shifts, `bits()`, and the compact target encoding of `arith_uint256`. -/
namespace BlackcoinMore.ArithUint256
open Primitives

/-- `base_uint<32 * WIDTH>`: the limb array `pn`, least significant limb first. -/
structure BaseUint (WIDTH : Nat) where
  pn : List UInt32
  length_pn : pn.length = WIDTH

abbrev ArithUint256 := BaseUint 8

namespace BaseUint

variable {WIDTH : Nat}

instance : DecidableEq (BaseUint WIDTH) := fun a b =>
  decidable_of_iff (a.pn = b.pn) (by cases a; cases b; simp)

/-- `base_uint()`: all limbs zero. -/
def zero : BaseUint WIDTH := ⟨List.replicate WIDTH 0, List.length_replicate⟩

/-- `base_uint(uint64_t)`, for `WIDTH ≥ 2`: the low and high half of `b` in the first two limbs. -/
def ofUInt64 (b : UInt64) : BaseUint WIDTH :=
  ⟨(List.range WIDTH).map fun i =>
      if i = 0 then b.toUInt32 else if i = 1 then (b >>> 32).toUInt32 else 0, by simp⟩

/-- One round of the `operator<<=` loop at source limb `i`. -/
def shlStep (a : List UInt32) (k s : Nat) (pn : List UInt32) (i : Nat) : List UInt32 :=
  let pn := if i + k + 1 < a.length ∧ s ≠ 0 then
      pn.modify (i + k + 1) (· ||| (a.getD i 0 >>> (32 - s).toUInt32)) else pn
  if i + k < a.length then pn.modify (i + k) (· ||| (a.getD i 0 <<< s.toUInt32)) else pn

/-- One round of the `operator>>=` loop at source limb `i`. -/
def shrStep (a : List UInt32) (k s : Nat) (pn : List UInt32) (i : Nat) : List UInt32 :=
  let pn := if k + 1 ≤ i ∧ s ≠ 0 then
      pn.modify (i - k - 1) (· ||| (a.getD i 0 <<< (32 - s).toUInt32)) else pn
  if k ≤ i then pn.modify (i - k) (· ||| (a.getD i 0 >>> s.toUInt32)) else pn

theorem length_shlStep (a : List UInt32) (k s : Nat) (pn : List UInt32) (i : Nat) :
    (shlStep a k s pn i).length = pn.length := by
  unfold shlStep; split_ifs <;> simp

theorem length_shrStep (a : List UInt32) (k s : Nat) (pn : List UInt32) (i : Nat) :
    (shrStep a k s pn i).length = pn.length := by
  unfold shrStep; split_ifs <;> simp

theorem length_foldl_step (f : List UInt32 → Nat → List UInt32)
    (hf : ∀ pn i, (f pn i).length = pn.length) (is : List Nat) (pn : List UInt32) :
    (is.foldl f pn).length = pn.length := by
  induction is generalizing pn with
  | nil => rfl
  | cons i is ih => rw [List.foldl_cons, ih, hf]

/-- `operator<<=(unsigned int shift)`: clear `pn`, then or in both halves of each limb. -/
def shiftLeft (a : BaseUint WIDTH) (shift : UInt32) : BaseUint WIDTH :=
  ⟨(List.range WIDTH).foldl (shlStep a.pn (shift.toNat / 32) (shift.toNat % 32))
      (List.replicate WIDTH 0),
    by rw [length_foldl_step _ (length_shlStep _ _ _), List.length_replicate]⟩

/-- `operator>>=(unsigned int shift)`. -/
def shiftRight (a : BaseUint WIDTH) (shift : UInt32) : BaseUint WIDTH :=
  ⟨(List.range WIDTH).foldl (shrStep a.pn (shift.toNat / 32) (shift.toNat % 32))
      (List.replicate WIDTH 0),
    by rw [length_foldl_step _ (length_shrStep _ _ _), List.length_replicate]⟩

/-- The highest set bit among `31, ..., 1` of a nonzero limb, as `bits()` scans it. -/
def topBit (w : UInt32) : Option Nat :=
  ((List.range 31).reverse.map (· + 1)).find? fun nbits => w &&& (1 <<< nbits.toUInt32) != 0

/-- `bits()`: the position of the highest bit set plus one, or zero if the value is zero. -/
def bits (a : BaseUint WIDTH) : Nat :=
  match (List.range WIDTH).reverse.find? (fun pos => a.pn.getD pos 0 != 0) with
  | none => 0
  | some pos =>
    match topBit (a.pn.getD pos 0) with
    | some nbits => 32 * pos + nbits + 1
    | none => 32 * pos + 1

/-- The number the limbs stand for. -/
def toNat (a : BaseUint WIDTH) : Nat := a.pn.foldr (fun w acc => w.toNat + 2 ^ 32 * acc) 0

/-- The limbs of `n` modulo `2 ^ (32 * WIDTH)`, as the integer constructors and the value-level
operations below produce them. -/
def ofNat (n : Nat) : BaseUint WIDTH :=
  ⟨(List.range WIDTH).map fun i => (n / 2 ^ (32 * i)).toUInt32, by simp⟩

/-- `operator*=(uint32_t)`: the limb loop with a 64-bit carry computes the product modulo
`2 ^ (32 * WIDTH)`. -/
def mulUInt32 (a : BaseUint WIDTH) (b32 : UInt32) : BaseUint WIDTH := ofNat (a.toNat * b32.toNat)

/-- `operator/=`: the shift-and-subtract loop computes the quotient; a zero divisor throws
`uint_error`. -/
def div (a b : BaseUint WIDTH) : Except String (BaseUint WIDTH) :=
  if b.toNat = 0 then .error "Division by zero" else .ok (ofNat (a.toNat / b.toNat))

def getLow64 (a : BaseUint WIDTH) : UInt64 :=
  (a.pn.getD 0 0).toUInt64 ||| ((a.pn.getD 1 0).toUInt64 <<< 32)

/-- `CompareTo`: the first differing limb from the top decides. -/
def compareTo (a b : BaseUint WIDTH) : Ordering :=
  match ((List.range WIDTH).reverse.map fun i => compare (a.pn.getD i 0) (b.pn.getD i 0)).find?
      (· != .eq) with
  | some o => o
  | none => .eq

end BaseUint

/-- `UintToArith256`: the limbs are the little-endian 32-bit words of the blob. -/
def uintToArith256 (a : Uint256) : ArithUint256 :=
  ⟨(List.range 8).map fun x => (a.toNat / 2 ^ (32 * x)).toUInt32, by simp⟩

namespace ArithUint256
open BaseUint

/-- `SetCompact`: the value, `*pfNegative` and `*pfOverflow`. -/
def setCompact (nCompact : UInt32) : ArithUint256 × Bool × Bool :=
  let nSize := (nCompact >>> 24).toNat
  let nWord0 := nCompact &&& 0x007fffff
  let (nWord, value) : UInt32 × ArithUint256 :=
    if nSize ≤ 3 then
      let nWord := nWord0 >>> (8 * (3 - nSize)).toUInt32
      (nWord, ofUInt64 nWord.toUInt64)
    else (nWord0, (ofUInt64 nWord0.toUInt64).shiftLeft (8 * (nSize - 3)).toUInt32)
  let fNegative := nWord != 0 && (nCompact &&& 0x00800000) != 0
  let fOverflow := nWord != 0 &&
    (34 < nSize || (0xff < nWord && 33 < nSize) || (0xffff < nWord && 32 < nSize))
  (value, fNegative, fOverflow)

/-- `GetCompact`, without the two `assert`s, which hold for every input (see `ArithCompact`). -/
def getCompact (a : ArithUint256) (fNegative : Bool := false) : UInt32 :=
  let nSize := (a.bits + 7) / 8
  let nCompact : UInt32 :=
    if nSize ≤ 3 then (a.getLow64 <<< (8 * (3 - nSize)).toUInt64).toUInt32
    else (a.shiftRight (8 * (nSize - 3)).toUInt32).getLow64.toUInt32
  -- The 0x00800000 bit denotes the sign: move the mantissa down a byte and raise the exponent.
  let (nCompact, nSize) :=
    if nCompact &&& 0x00800000 != 0 then (nCompact >>> 8, nSize + 1) else (nCompact, nSize)
  let nCompact := nCompact ||| (nSize.toUInt32 <<< 24)
  nCompact ||| (if fNegative && (nCompact &&& 0x007fffff) != 0 then 0x00800000 else 0)

end ArithUint256

end BlackcoinMore.ArithUint256
