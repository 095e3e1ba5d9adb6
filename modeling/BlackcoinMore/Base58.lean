import BlackcoinMore.Primitives
import BlackcoinMore.ByteCodec
import BlackcoinMore.DigitBuffer

/-! `base58.cpp`: Base58 strings of byte vectors, by an in-place conversion between a big-endian
base-256 buffer and a big-endian base-58 one, each leading zero byte written as a '1'; and
Base58Check, which appends four bytes of the vector's hash. Strings are their bytes; a
`const char*` is its bytes up to the NUL, which the `std::string` entry points exclude. The
buffer sizes are computed in `size_t` and narrowed to `int`, as the source does. -/
namespace BlackcoinMore.Base58
open Primitives ByteCodec DigitBuffer

/-- All alphanumeric characters except for "0", "I", "O", and "l". -/
def pszBase58 : Bytes :=
  "123456789ABCDEFGHJKLMNPQRSTUVWXYZabcdefghijkmnopqrstuvwxyz".toList.map fun c => c.toNat.toUInt8

def mapBase58 : List Int := [
  -1, -1, -1, -1, -1, -1, -1, -1, -1, -1, -1, -1, -1, -1, -1, -1,
  -1, -1, -1, -1, -1, -1, -1, -1, -1, -1, -1, -1, -1, -1, -1, -1,
  -1, -1, -1, -1, -1, -1, -1, -1, -1, -1, -1, -1, -1, -1, -1, -1,
  -1, 0, 1, 2, 3, 4, 5, 6, 7, 8, -1, -1, -1, -1, -1, -1,
  -1, 9, 10, 11, 12, 13, 14, 15, 16, -1, 17, 18, 19, 20, 21, -1,
  22, 23, 24, 25, 26, 27, 28, 29, 30, 31, 32, -1, -1, -1, -1, -1,
  -1, 33, 34, 35, 36, 37, 38, 39, 40, 41, 42, 43, -1, 44, 45, 46,
  47, 48, 49, 50, 51, 52, 53, 54, 55, 56, 57, -1, -1, -1, -1, -1,
  -1, -1, -1, -1, -1, -1, -1, -1, -1, -1, -1, -1, -1, -1, -1, -1,
  -1, -1, -1, -1, -1, -1, -1, -1, -1, -1, -1, -1, -1, -1, -1, -1,
  -1, -1, -1, -1, -1, -1, -1, -1, -1, -1, -1, -1, -1, -1, -1, -1,
  -1, -1, -1, -1, -1, -1, -1, -1, -1, -1, -1, -1, -1, -1, -1, -1,
  -1, -1, -1, -1, -1, -1, -1, -1, -1, -1, -1, -1, -1, -1, -1, -1,
  -1, -1, -1, -1, -1, -1, -1, -1, -1, -1, -1, -1, -1, -1, -1, -1,
  -1, -1, -1, -1, -1, -1, -1, -1, -1, -1, -1, -1, -1, -1, -1, -1,
  -1, -1, -1, -1, -1, -1, -1, -1, -1, -1, -1, -1, -1, -1, -1, -1]

/-- The character '1', the digit zero. -/
def one : UInt8 := '1'.toNat.toUInt8

/-- `IsSpace(c)`: space, form feed, line feed, carriage return, horizontal and vertical tab. -/
def isSpace (c : UInt8) : Bool :=
  c == 0x20 || c == 0x0c || c == 0x0a || c == 0x0d || c == 0x09 || c == 0x0b

/-- `ContainsNoNUL(str)`. -/
def containsNoNUL (str : Bytes) : Bool := str.all (· != 0)

/-- `assert(carry == 0)` failing: the process aborts. -/
def assertCarry : String := "assertion carry == 0 failed"

/-- What the `std::vector` constructor throws for a size above `max_size()`. -/
def lengthError : String := "cannot create std::vector larger than max_size()"

/-- `int size = n * num / den + 1`, computed in `size_t` and narrowed to `int`. -/
def bufferSize (n num den : Nat) : Int := (Int32.ofNat ((n * num % 2 ^ 64) / den + 1)).toInt

/-- `std::vector<unsigned char> b(size)`: a negative `int` converts to a `size_type` above
`max_size()`. -/
def newVector (size : Int) : Except String Bytes :=
  if size < 0 then .error lengthError else .ok (List.replicate size.toNat 0)

/-- One digit into either conversion's buffer: the loop over the big-endian buffer from its least
significant digit, multiplying by `mul` and adding `carry`, then `assert(carry == 0)` and
`length = i`. The state is the buffer and `length`. -/
def addDigit (mul base : Nat) (st : Bytes × Nat) (carry : Nat) : Except String (Bytes × Nat) :=
  let r := mulAdd mul base st.2 carry 0 st.1.reverse
  if r.2.1 = 0 then .ok (r.1.reverse, r.2.2) else .error assertCarry

/-- `EncodeBase58(input)`. -/
def encodeBase58 (input : Bytes) : Except String Bytes := do
  -- Skip & count leading zeroes.
  let zeroes := (input.takeWhile (· == 0)).length
  let input := input.drop zeroes
  -- Allocate enough space in big-endian base58 representation.
  let b58 ← newVector (bufferSize input.length 138 100)
  -- Process the bytes: `b58 = b58 * 256 + ch`, with `length` beside the buffer.
  let st ← input.foldlM (fun st ch => addDigit 256 58 st ch.toNat) (b58, 0)
  -- Skip leading zeroes in base58 result.
  let it := (st.1.drop (st.1.length - st.2)).dropWhile (· == 0)
  -- Translate the result into a string.
  return List.replicate zeroes one ++ it.map fun d => pszBase58.getD d.toNat 0

/-- The loop skipping and counting leading '1's, which refuses once `zeroes > max_ret_len`. The
count and the rest of the string. -/
def skipOnes (max_ret_len : Int) : Nat → Bytes → Option (Nat × Bytes)
  | zeroes, [] => some (zeroes, [])
  | zeroes, c :: rest =>
    if c = one then
      if max_ret_len < zeroes + 1 then none else skipOnes max_ret_len (zeroes + 1) rest
    else some (zeroes, c :: rest)

/-- The loop over the characters up to the end of the string or a space: each one's digit added
into `b256`, and the refusal of an invalid character or of `length + zeroes > max_ret_len`. The
buffer, `length` and the rest of the string. -/
def decodeChars (max_ret_len : Int) (zeroes : Nat) :
    Bytes × Nat → Bytes → Except String (Option (Bytes × Nat × Bytes))
  | st, [] => .ok (some (st.1, st.2, []))
  | st, c :: rest =>
    if isSpace c then .ok (some (st.1, st.2, c :: rest))
    else
      -- Decode base58 character
      let carry := mapBase58.getD c.toNat (-1)
      -- Invalid b58 character
      if carry = -1 then .ok none
      else match addDigit 58 256 st carry.toNat with
        | .error e => .error e
        | .ok st' => if max_ret_len < st'.2 + zeroes then .ok none else decodeChars max_ret_len zeroes st' rest

/-- `DecodeBase58(psz, vch, max_ret_len)`: the vector, or `none` for `false`. -/
def decodeBase58Psz (psz : Bytes) (max_ret_len : Int) : Except String (Option Bytes) :=
  -- Skip leading spaces, then skip and count leading '1's.
  match skipOnes max_ret_len 0 (psz.dropWhile isSpace) with
  | none => .ok none
  | some (zeroes, psz) =>
    -- Allocate enough space in big-endian base256 representation.
    match newVector (bufferSize psz.length 733 1000) with
    | .error e => .error e
    | .ok b256 =>
      -- Process the characters.
      match decodeChars max_ret_len zeroes (b256, 0) psz with
      | .error e => .error e
      | .ok none => .ok none
      | .ok (some (b256, length, psz)) =>
        -- Skip trailing spaces; anything else is refused.
        if psz.dropWhile isSpace ≠ [] then .ok none
        -- Skip leading zeroes in b256, and copy the result into the output vector.
        else .ok (some (List.replicate zeroes 0 ++ b256.drop (b256.length - length)))

/-- `DecodeBase58(str, vchRet, max_ret_len)`. -/
def decodeBase58 (str : Bytes) (max_ret_len : Int32) : Except String (Option Bytes) :=
  if !containsNoNUL str then .ok none else decodeBase58Psz str max_ret_len.toInt

/-- The four check bytes: the first bytes of the `uint256` hash as it is stored. -/
def checkBytes (hash256 : Bytes → Uint256) (vch : Bytes) : Bytes := encodeLE 4 (hash256 vch).toNat

/-- `EncodeBase58Check(input)`. -/
def encodeBase58Check (hash256 : Bytes → Uint256) (input : Bytes) : Except String Bytes :=
  -- add 4-byte hash check to the end
  encodeBase58 (input ++ checkBytes hash256 input)

/-- `DecodeBase58Check(psz, vchRet, max_ret_len)`. -/
def decodeBase58CheckPsz (hash256 : Bytes → Uint256) (psz : Bytes) (max_ret_len : Int32) :
    Except String (Option Bytes) :=
  -- room for the check bytes, kept within `std::numeric_limits<int>::max()`
  let maxLen : Int := if max_ret_len.toInt > (2 ^ 31 - 1) - 4 then 2 ^ 31 - 1 else max_ret_len.toInt + 4
  match decodeBase58Psz psz maxLen with
  | .error e => .error e
  | .ok none => .ok none
  | .ok (some vchRet) =>
    if vchRet.length < 4 then .ok none
    -- re-calculate the checksum, ensure it matches the included 4-byte checksum
    else if checkBytes hash256 (vchRet.take (vchRet.length - 4)) ≠ vchRet.drop (vchRet.length - 4) then .ok none
    else .ok (some (vchRet.take (vchRet.length - 4)))

/-- `DecodeBase58Check(str, vchRet, max_ret)`. -/
def decodeBase58Check (hash256 : Bytes → Uint256) (str : Bytes) (max_ret : Int32) : Except String (Option Bytes) :=
  if !containsNoNUL str then .ok none else decodeBase58CheckPsz hash256 str max_ret

example : encodeBase58 [0, 0, 1, 0] = .ok ("115R".toList.map fun c => c.toNat.toUInt8) := by decide

example : decodeBase58 (" 115R\t".toList.map fun c => c.toNat.toUInt8) 4 = .ok (some [0, 0, 1, 0]) := by decide

/-! ### The alphabet -/

section Alphabet

theorem mapBase58_pszBase58 : ∀ d < 58, mapBase58.getD (pszBase58.getD d 0).toNat (-1) = d := by
  decide

set_option maxRecDepth 100000 in
theorem pszBase58_mapBase58 (c : UInt8) (h : mapBase58.getD c.toNat (-1) ≠ -1) :
    pszBase58.getD (mapBase58.getD c.toNat (-1)).toNat 0 = c := by
  revert c
  decide

set_option maxRecDepth 100000 in
theorem mapBase58_range (c : UInt8) (h : mapBase58.getD c.toNat (-1) ≠ -1) :
    0 ≤ mapBase58.getD c.toNat (-1) ∧ mapBase58.getD c.toNat (-1) < 58 := by
  revert c
  decide

set_option maxRecDepth 100000 in
theorem isSpace_of_mapBase58 (c : UInt8) (h : mapBase58.getD c.toNat (-1) ≠ -1) : isSpace c = false := by
  revert c
  decide

set_option maxRecDepth 100000 in
/-- '1' is the digit zero, and the only character for it. -/
theorem mapBase58_eq_zero (c : UInt8) : mapBase58.getD c.toNat (-1) = 0 ↔ c = one := by
  revert c
  decide

theorem pszBase58_zero : pszBase58.getD 0 0 = one := by decide

theorem one_ne_zero : one ≠ 0 := by decide

end Alphabet

/-! ### Buffer sizes -/

theorem bufferSize_eq {n num den : Nat} (h64 : n * num < 2 ^ 64) (h : n * num / den + 1 < 2 ^ 31) :
    bufferSize n num den = (n * num / den + 1 : Nat) := by
  rw [bufferSize, Nat.mod_eq_of_lt h64, Int32.toInt_ofNat']
  generalize n * num / den + 1 = k at h ⊢
  exact Int.bmod_eq_of_le (by simp [Int32.size]) (by simp [Int32.size]; omega)

theorem newVector_ofNat (size : Nat) : newVector size = .ok (List.replicate size 0) := by
  rw [newVector, if_neg (by omega), Int.toNat_natCast]

/-! ### One digit into a buffer -/

section Digit

variable {mul base : Nat}

/-- One digit into the buffer of `V`: the buffer of `carry + mul * V` if that fits, and the assert
failing otherwise. -/
theorem addDigit_bufferOf (h1 : 1 < base) (hb : base ≤ 256) (hmul : 1 ≤ mul) {size V : Nat}
    (hV : V < base ^ size) (carry : Nat) :
    addDigit mul base (bufferOf base size V, (Nat.digits base V).length) carry =
      if carry + mul * V < base ^ size then
        .ok (bufferOf base size (carry + mul * V), (Nat.digits base (carry + mul * V)).length)
      else .error assertCarry := by
  obtain ⟨hval, hlt, hdig, hlen, hcount⟩ := @mulAdd_bufferOf base size mul h1 hb hmul V hV carry
  rw [addDigit]
  dsimp only
  by_cases hfit : carry + mul * V < base ^ size
  · -- the number fits: no carry is left, and the buffer is the new number's
    have hc : (mulAdd mul base (Nat.digits base V).length carry 0 (bufferOf base size V).reverse).2.1 = 0 := by
      by_contra hc
      have : base ^ size ≤ base ^ size * (mulAdd mul base (Nat.digits base V).length carry 0
          (bufferOf base size V).reverse).2.1 := Nat.le_mul_of_pos_right _ (Nat.pos_of_ne_zero hc)
      omega
    have hr : val base (mulAdd mul base (Nat.digits base V).length carry 0 (bufferOf base size V).reverse).1 =
        carry + mul * V := by rw [← hval, hc, Nat.mul_zero, Nat.add_zero]
    have heq := @eq_bufferOf base h1 ((mulAdd mul base (Nat.digits base V).length carry 0
      (bufferOf base size V).reverse).1.reverse) (fun x hx => hdig x (List.mem_reverse.mp hx))
    rw [List.reverse_reverse, List.length_reverse, hlen, hr] at heq
    rw [if_pos hc, if_pos hfit, heq, hcount hfit]
  · -- it does not: a carry is left for the assert
    have hc : (mulAdd mul base (Nat.digits base V).length carry 0 (bufferOf base size V).reverse).2.1 ≠ 0 := by
      intro hc
      rw [hc, Nat.mul_zero, Nat.add_zero] at hval
      omega
    rw [if_neg hc, if_neg hfit]

/-- The encoder's loop over bytes, or any loop adding a digit per element into the buffer: the
buffer of the number read, when that fits. -/
theorem foldlM_addDigit (h1 : 1 < base) (hb : base ≤ 256) (hmul : 1 ≤ mul) {size : Nat} {α : Type}
    (f : α → Nat) : ∀ (xs : List α) (V : Nat), xs.foldl (fun V x => f x + mul * V) V < base ^ size →
      xs.foldlM (fun st x => addDigit mul base st (f x)) (bufferOf base size V, (Nat.digits base V).length) =
        .ok (bufferOf base size (xs.foldl (fun V x => f x + mul * V) V),
          (Nat.digits base (xs.foldl (fun V x => f x + mul * V) V)).length)
  | [], _, _ => rfl
  | x :: xs, V, hfit => by
    -- every number on the way is at most the last one
    have hle : f x + mul * V ≤ xs.foldl (fun V x => f x + mul * V) (f x + mul * V) := by
      have := le_foldl_mul_add hmul (xs.map f) (f x + mul * V)
      rwa [List.foldl_map] at this
    rw [List.foldl_cons] at hfit ⊢
    have hV : V < base ^ size := by
      have : V ≤ f x + mul * V := by nlinarith
      omega
    rw [List.foldlM_cons, addDigit_bufferOf h1 hb hmul hV, if_pos (by omega)]
    exact foldlM_addDigit h1 hb hmul f xs _ hfit

end Digit

/-! ### Leading '1's -/

section Ones

variable (max_ret_len : Int)

/-- `k` leading '1's are counted, and refused if `k` passes `max_ret_len`. -/
theorem skipOnes_replicate {rest : Bytes} (hrest : rest.head? ≠ some one) : ∀ (k zeroes : Nat),
    skipOnes max_ret_len zeroes (List.replicate k one ++ rest) =
      if k ≠ 0 ∧ max_ret_len < zeroes + k then none else some (zeroes + k, rest)
  | 0, zeroes => by
    cases rest with
    | nil => simp [skipOnes]
    | cons c r =>
      have hc : c ≠ one := fun h => hrest (by simp [h])
      simp [skipOnes, hc]
  | k + 1, zeroes => by
    rw [List.replicate_succ, List.cons_append, skipOnes, if_pos rfl, skipOnes_replicate hrest k (zeroes + 1)]
    -- the count passes `max_ret_len` at this '1' or at a later one
    by_cases h : max_ret_len < zeroes + 1
    · rw [if_pos h, if_pos (by omega)]
    · rw [if_neg h]
      by_cases hk : k ≠ 0 ∧ max_ret_len < ((zeroes + 1 : Nat) : Int) + k
      · rw [if_pos hk, if_pos (by omega)]
      · rw [if_neg hk, if_neg (by omega), show zeroes + 1 + k = zeroes + (k + 1) by omega]

/-- What the loop read: a run of '1's, and a rest that does not start with one. -/
theorem skipOnes_eq_some : ∀ (s : Bytes) (zeroes z : Nat) (rest : Bytes),
    skipOnes max_ret_len zeroes s = some (z, rest) →
      ∃ k, s = List.replicate k one ++ rest ∧ z = zeroes + k ∧ rest.head? ≠ some one
  | [], zeroes, z, rest, h => by
    simp only [skipOnes, Option.some.injEq, Prod.mk.injEq] at h
    obtain ⟨rfl, rfl⟩ := h
    exact ⟨0, rfl, rfl, by simp⟩
  | c :: s, zeroes, z, rest, h => by
    rw [skipOnes] at h
    by_cases hc : c = one
    · rw [if_pos hc] at h
      by_cases hmax : max_ret_len < zeroes + 1
      · rw [if_pos hmax] at h
        cases h
      · rw [if_neg hmax] at h
        obtain ⟨k, rfl, rfl, hrest⟩ := skipOnes_eq_some s (zeroes + 1) z rest h
        exact ⟨k + 1, by rw [hc, List.replicate_succ, List.cons_append], by omega, hrest⟩
    · rw [if_neg hc, Option.some.injEq, Prod.mk.injEq] at h
      obtain ⟨rfl, rfl⟩ := h
      exact ⟨0, rfl, rfl, by simp [hc]⟩

end Ones

/-! ### The character loop -/

section Chars

variable (max_ret_len : Int) (zeroes : Nat) {size : Nat}

/-- Reading the digits `ds`, most significant first, after the number `V`. -/
def readDigits (ds : List Nat) (V : Nat) : Nat := ds.foldl (fun V d => d + 58 * V) V

@[simp] theorem readDigits_nil (V : Nat) : readDigits [] V = V := rfl

@[simp] theorem readDigits_cons (d : Nat) (ds : List Nat) (V : Nat) :
    readDigits (d :: ds) V = readDigits ds (d + 58 * V) := rfl

theorem le_readDigits (ds : List Nat) (V : Nat) : V ≤ readDigits ds V := le_foldl_mul_add (by omega) ds V

theorem pszBase58_not_space {d : Nat} (hd : d < 58) : isSpace (pszBase58.getD d 0) = false :=
  isSpace_of_mapBase58 _ (by rw [mapBase58_pszBase58 d hd]; omega)

/-- The loop over the spelling of digits `ds`, from the buffer of `V`: the buffer of the number
read, refused only when its bytes and the zeroes pass `max_ret_len`. -/
theorem decodeChars_digits {rest : Bytes} (hrest : rest = [] ∨ ∃ c r, rest = c :: r ∧ isSpace c = true) :
    ∀ (ds : List Nat) (V : Nat), (∀ d ∈ ds, d < 58) → readDigits ds V < 256 ^ size →
      decodeChars max_ret_len zeroes (bufferOf 256 size V, (Nat.digits 256 V).length)
          (ds.map (fun d => pszBase58.getD d 0) ++ rest) =
        .ok (if ds ≠ [] ∧ max_ret_len < (Nat.digits 256 (readDigits ds V)).length + zeroes then none
          else some (bufferOf 256 size (readDigits ds V), (Nat.digits 256 (readDigits ds V)).length, rest))
  | [], V, _, _ => by
    rcases hrest with rfl | ⟨c, r, rfl, hc⟩
    · rfl
    · simp [decodeChars, hc]
  | d :: ds, V, hds, hfit => by
    have hd := hds d List.mem_cons_self
    rw [readDigits_cons] at hfit ⊢
    have hle := le_readDigits ds (d + 58 * V)
    have hV : V < 256 ^ size := by omega
    -- the character is not a space, and stands for `d`
    rw [List.map_cons, List.cons_append, decodeChars, if_neg (by rw [pszBase58_not_space hd]; decide),
      mapBase58_pszBase58 d hd, if_neg (by omega), Int.toNat_natCast,
      addDigit_bufferOf (by omega) le_rfl (by omega) hV, if_pos (by omega)]
    dsimp only
    have hlen := Nat.le_length_digits_le 256 (d + 58 * V) (readDigits ds (d + 58 * V)) hle
    -- the refusal comes at this digit or at a later one, as the byte count only grows
    by_cases hmax : max_ret_len < (Nat.digits 256 (d + 58 * V)).length + zeroes
    · rw [if_pos hmax, if_pos ⟨List.cons_ne_nil _ _, by omega⟩]
    · rw [if_neg hmax, decodeChars_digits hrest ds _ (fun x hx => hds x (List.mem_cons_of_mem _ hx)) hfit]
      rcases ds with _ | ⟨d', ds'⟩
      · simp [hmax]
      · simp only [ne_eq, reduceCtorEq, not_false_eq_true, true_and]

/-- The loop never throws or aborts while the buffer has room for every digit left. -/
theorem decodeChars_ok : ∀ (s : Bytes) (V : Nat), (V + 1) * 58 ^ s.length ≤ 256 ^ size →
    ∃ r, decodeChars max_ret_len zeroes (bufferOf 256 size V, (Nat.digits 256 V).length) s = .ok r
  | [], _, _ => ⟨_, rfl⟩
  | c :: s, V, hroom => by
    rw [decodeChars]
    dsimp only
    split_ifs with hsp hinv
    · exact ⟨_, rfl⟩
    · exact ⟨_, rfl⟩
    · -- a digit `d < 58`: the new number still leaves room for the rest
      obtain ⟨h0, h58⟩ := mapBase58_range c hinv
      have hd : (mapBase58.getD c.toNat (-1)).toNat < 58 := by omega
      have hpow : 1 ≤ 58 ^ s.length := Nat.one_le_pow _ _ (by omega)
      rw [List.length_cons, pow_succ] at hroom
      have hroom' : ((mapBase58.getD c.toNat (-1)).toNat + 58 * V + 1) * 58 ^ s.length ≤ 256 ^ size := by
        calc ((mapBase58.getD c.toNat (-1)).toNat + 58 * V + 1) * 58 ^ s.length
            ≤ (58 * (V + 1)) * 58 ^ s.length := Nat.mul_le_mul_right _ (by omega)
          _ = (V + 1) * (58 ^ s.length * 58) := by ring
          _ ≤ 256 ^ size := hroom
      have hV : V < 256 ^ size := by nlinarith
      rw [addDigit_bufferOf (by omega) le_rfl (by omega) hV, if_pos (by nlinarith)]
      dsimp only
      split_ifs
      · exact ⟨_, rfl⟩
      · exact decodeChars_ok s _ hroom'

/-- What the loop accepted: the spelling of digits, up to the end or a space, and the buffer of the
number they make. -/
theorem decodeChars_eq_some : ∀ (s : Bytes) (V : Nat) (buf : Bytes) (length : Nat) (rest : Bytes),
    V < 256 ^ size →
    decodeChars max_ret_len zeroes (bufferOf 256 size V, (Nat.digits 256 V).length) s = .ok (some (buf, length, rest)) →
      ∃ ds : List Nat, (∀ d ∈ ds, d < 58) ∧ s = ds.map (fun d => pszBase58.getD d 0) ++ rest ∧
        (rest = [] ∨ ∃ c r, rest = c :: r ∧ isSpace c = true) ∧ readDigits ds V < 256 ^ size ∧
        buf = bufferOf 256 size (readDigits ds V) ∧ length = (Nat.digits 256 (readDigits ds V)).length
  | [], V, buf, length, rest, hV, h => by
    simp only [decodeChars, Except.ok.injEq, Option.some.injEq, Prod.mk.injEq] at h
    obtain ⟨rfl, rfl, rfl⟩ := h
    exact ⟨[], by simp, rfl, Or.inl rfl, hV, rfl, rfl⟩
  | c :: s, V, buf, length, rest, hV, h => by
    rw [decodeChars] at h
    by_cases hsp : isSpace c = true
    · -- a space ends the loop here
      rw [if_pos hsp] at h
      simp only [Except.ok.injEq, Option.some.injEq, Prod.mk.injEq] at h
      obtain ⟨rfl, rfl, rfl⟩ := h
      exact ⟨[], by simp, rfl, Or.inr ⟨c, s, rfl, hsp⟩, hV, rfl, rfl⟩
    rw [if_neg hsp] at h
    by_cases hinv : mapBase58.getD c.toNat (-1) = -1
    · rw [if_pos hinv] at h
      cases h
    rw [if_neg hinv] at h
    -- a digit: the assert passed, so the new number fits
    obtain ⟨h0, h58⟩ := mapBase58_range c hinv
    rw [addDigit_bufferOf (by omega) le_rfl (by omega) hV] at h
    by_cases hfit : (mapBase58.getD c.toNat (-1)).toNat + 58 * V < 256 ^ size
    · rw [if_pos hfit] at h
      dsimp only at h
      by_cases hmax : max_ret_len < (Nat.digits 256 ((mapBase58.getD c.toNat (-1)).toNat + 58 * V)).length + zeroes
      · rw [if_pos hmax] at h
        cases h
      rw [if_neg hmax] at h
      obtain ⟨ds, hds, rfl, hrest, hfit', hbuf, hlen⟩ := decodeChars_eq_some s _ buf length rest hfit h
      refine ⟨(mapBase58.getD c.toNat (-1)).toNat :: ds, ?_, ?_, hrest, hfit', hbuf, hlen⟩
      · intro d hd
        rcases List.mem_cons.mp hd with rfl | hd
        · omega
        · exact hds d hd
      · rw [List.map_cons, List.cons_append, pszBase58_mapBase58 c hinv]
    · rw [if_neg hfit] at h
      cases h

end Chars

end BlackcoinMore.Base58
