import BlackcoinMore.Base58

/-! What Base58 is for, and that the code does it. A Base58 string is a '1' for each leading zero
byte, then the base-58 digits of the number the other bytes stand for (`base58Spec`).
`EncodeBase58` writes it whenever its buffer size fits an `int`; `DecodeBase58` reads it back
within `max_ret_len`; every string `DecodeBase58` accepts is, between spaces, that of what it
returns; and the narrowing of the buffer size to `int` is the only way either assert can fail. -/
namespace BlackcoinMore.Base58
open Primitives ByteCodec DigitBuffer

/-- The number a big-endian byte string stands for. -/
def valBE (bytes : Bytes) : Nat := Nat.ofDigits 256 (bytes.reverse.map UInt8.toNat)

/-- The count of leading zero bytes. -/
def leadingZeros (v : Bytes) : Nat := (v.takeWhile (· == 0)).length

/-- Base58 as a function: a '1' per leading zero byte, then the base-58 digits of the number the
remaining bytes stand for, most significant first. -/
def base58Spec (v : Bytes) : Bytes :=
  List.replicate (leadingZeros v) one ++
    (Nat.digits 58 (valBE (v.drop (leadingZeros v)))).reverse.map fun d => pszBase58.getD d 0

/-! ### Numbers and their digits -/

section Digits

theorem valBE_lt (bytes : Bytes) : valBE bytes < 256 ^ bytes.length := by
  rw [valBE, ← List.length_reverse, ← List.length_map UInt8.toNat]
  exact Nat.ofDigits_lt_base_pow_length (by omega) (by simp; exact fun a _ => a.toNat_lt)

/-- The encoder's loop reads the bytes as `valBE`. -/
theorem foldl_toNat_eq_valBE (bytes : Bytes) :
    bytes.foldl (fun V x => x.toNat + 256 * V) 0 = valBE bytes := by
  rw [← List.foldl_map (g := fun V x => x + 256 * V), foldl_mul_add, valBE, List.map_reverse]
  simp

theorem readDigits_zero (ds : List Nat) : readDigits ds 0 = Nat.ofDigits 58 ds.reverse := by
  rw [readDigits, foldl_mul_add]
  simp

/-- The digits of a number are those read, when the first one is not zero. -/
theorem digits_readDigits {ds : List Nat} (h58 : ∀ d ∈ ds, d < 58) (hhead : ds.head? ≠ some 0) :
    Nat.digits 58 (readDigits ds 0) = ds.reverse := by
  rw [readDigits_zero]
  refine Nat.digits_ofDigits 58 (by omega) _ (fun d hd => h58 d (List.mem_reverse.mp hd)) fun hne => ?_
  rw [List.getLast_reverse]
  intro h0
  exact hhead (by rw [List.head?_eq_some_head (List.reverse_ne_nil_iff.mp hne), h0])

/-- A byte string with no leading zero is the digits of its number. -/
theorem digits_valBE {bytes : Bytes} (hhead : bytes.head? ≠ some 0) :
    Nat.digits 256 (valBE bytes) = bytes.reverse.map UInt8.toNat := by
  refine Nat.digits_ofDigits 256 (by omega) _ (by simp; exact fun a _ => a.toNat_lt) fun hne => ?_
  rw [List.getLast_map, List.getLast_reverse]
  intro h0
  have hb : bytes ≠ [] := by simpa using hne
  exact hhead (by rw [List.head?_eq_some_head hb, UInt8.toNat_inj.mp (h0.trans UInt8.toNat_zero.symm)])

/-- The digits of a number in a base up to 256, most significant first, have no leading zero. -/
theorem head_digits_ne_zero {b : Nat} (h1 : 1 < b) (hb : b ≤ 256) (N : Nat) :
    ((Nat.digits b N).map Nat.toUInt8).reverse.head? ≠ some 0 := by
  rcases Nat.eq_zero_or_pos N with rfl | hN
  · simp
  · have hne : Nat.digits b N ≠ [] := Nat.digits_ne_nil_iff_ne_zero.mpr hN.ne'
    have hlast := Nat.getLast_digit_ne_zero b hN.ne'
    have hlt := Nat.digits_lt_base h1 (List.getLast_mem hne)
    rw [← List.map_reverse, List.head?_map, List.head?_reverse, List.getLast?_eq_some_getLast hne]
    intro h
    simp only [Option.map_some, Option.some.injEq] at h
    have := congrArg UInt8.toNat h
    simp only [Nat.toUInt8, UInt8.toNat_ofNat', UInt8.toNat_zero] at this
    rw [Nat.mod_eq_of_lt (show (Nat.digits b N).getLast hne < 2 ^ 8 by omega)] at this
    exact hlast this

theorem map_toNat_digits {b : Nat} (h1 : 1 < b) (hb : b ≤ 256) (N : Nat) :
    ((Nat.digits b N).map Nat.toUInt8).map UInt8.toNat = Nat.digits b N :=
  map_toNat_toUInt8 fun x hx => by have := Nat.digits_lt_base h1 hx; omega

end Digits

/-! ### Leading zeros -/

section Zeros

theorem dropWhile_zero_of_head {l : Bytes} (h : l.head? ≠ some 0) : l.dropWhile (· == 0) = l := by
  cases l with
  | nil => rfl
  | cons b l =>
    have hb : b ≠ 0 := fun hb => h (by rw [hb]; rfl)
    simp [hb]

theorem leadingZeros_replicate_append {bytes : Bytes} (hhead : bytes.head? ≠ some 0) :
    ∀ z : Nat, leadingZeros (List.replicate z 0 ++ bytes) = z
  | 0 => by
    cases bytes with
    | nil => rfl
    | cons b bs =>
      have hb : b ≠ 0 := fun hb => hhead (by rw [hb]; rfl)
      simp [leadingZeros, hb]
  | z + 1 => by
    have ih := leadingZeros_replicate_append hhead z
    rw [leadingZeros] at ih ⊢
    rw [List.replicate_succ, List.cons_append, List.takeWhile_cons_of_pos (by decide), List.length_cons, ih]

/-- Every vector is its leading zeros, then a rest that starts with no zero. -/
theorem replicate_leadingZeros : ∀ v : Bytes,
    List.replicate (leadingZeros v) 0 ++ v.drop (leadingZeros v) = v ∧ (v.drop (leadingZeros v)).head? ≠ some 0
  | [] => by simp [leadingZeros]
  | b :: v => by
    by_cases hb : b = 0
    · obtain ⟨ih, hhead⟩ := replicate_leadingZeros v
      have hz : leadingZeros (b :: v) = leadingZeros v + 1 := by simp [leadingZeros, hb]
      rw [hz, List.replicate_succ, List.drop_succ_cons, List.cons_append, ih, hb]
      exact ⟨rfl, hhead⟩
    · have hz : leadingZeros (b :: v) = 0 := by simp [leadingZeros, hb]
      rw [hz]
      simp [hb]

theorem base58Spec_replicate_append {bytes : Bytes} (hhead : bytes.head? ≠ some 0) (z : Nat) :
    base58Spec (List.replicate z 0 ++ bytes) =
      List.replicate z one ++ (Nat.digits 58 (valBE bytes)).reverse.map fun d => pszBase58.getD d 0 := by
  rw [base58Spec, leadingZeros_replicate_append hhead, List.drop_left' (List.length_replicate ..)]

end Zeros

/-! ### The encoder -/

/-- `EncodeBase58` computes `base58Spec` whenever its buffer size fits an `int`: the base-58 buffer
then holds the number, as `256 ^ n < 58 ^ (n * 138 / 100 + 1)`. -/
theorem encodeBase58_eq (input : Bytes) (h : input.length * 138 / 100 + 1 < 2 ^ 31) :
    encodeBase58 input = .ok (base58Spec input) := by
  have hn : (input.drop (leadingZeros input)).length ≤ input.length := by simp
  have hsize : bufferSize (input.drop (leadingZeros input)).length 138 100 =
      ((input.drop (leadingZeros input)).length * 138 / 100 + 1 : Nat) := bufferSize_eq (by omega) (by omega)
  have hfit : valBE (input.drop (leadingZeros input)) < 58 ^ ((input.drop (leadingZeros input)).length * 138 / 100 + 1) :=
    lt_of_lt_of_le (valBE_lt _) (pow_lt_pow_of_mul_lt (a := 256) (b := 58) (p := 100) (q := 138)
      (by omega) (by omega) (by norm_num) (by omega)).le
  have hfold := @foldlM_addDigit 256 58 (by omega) (by omega) (by omega) _ _ UInt8.toNat
    (input.drop (leadingZeros input)) 0 (by rw [foldl_toNat_eq_valBE]; exact hfit)
  rw [foldl_toNat_eq_valBE, Nat.digits_zero, List.length_nil, bufferOf_zero] at hfold
  unfold encodeBase58
  dsimp only
  rw [show (input.takeWhile (· == 0)).length = leadingZeros input from rfl, hsize, newVector_ofNat]
  simp only [bind, Except.bind, hfold, pure, Except.pure]
  rw [length_bufferOf (by omega) hfit, drop_bufferOf, dropWhile_zero_of_head (head_digits_ne_zero (by omega) (by omega) _),
    ← List.map_reverse, List.map_map, base58Spec]
  congr 2
  refine List.map_congr_left fun d hd => ?_
  have := Nat.digits_lt_base (by omega : 1 < 58) (List.mem_reverse.mp hd)
  simp only [Function.comp_apply, Nat.toUInt8, UInt8.toNat_ofNat', Nat.mod_eq_of_lt (by omega : d < 256)]

/-! ### The decoder on Base58 strings -/

section Decode

theorem pszBase58_eq_one {d : Nat} (hd : d < 58) (h : pszBase58.getD d 0 = one) : d = 0 := by
  have := mapBase58_pszBase58 d hd
  rw [h, (mapBase58_eq_zero one).mpr rfl] at this
  omega

/-- The spelling of digits with no leading zero does not start with a '1'. -/
theorem head_spelling {ds : List Nat} (h58 : ∀ d ∈ ds, d < 58) (hhead : ds.head? ≠ some 0) :
    (ds.map fun d => pszBase58.getD d 0).head? ≠ some one := by
  cases ds with
  | nil => simp
  | cons d ds =>
    simp only [List.map_cons, List.head?_cons]
    intro h
    exact hhead (by rw [pszBase58_eq_one (h58 d List.mem_cons_self) (Option.some.inj h)]; rfl)

/-- A Base58 string has no leading space to skip. -/
theorem dropWhile_isSpace_spelling (z : Nat) {ds : List Nat} (h58 : ∀ d ∈ ds, d < 58) :
    (List.replicate z one ++ ds.map fun d => pszBase58.getD d 0).dropWhile isSpace =
      List.replicate z one ++ ds.map fun d => pszBase58.getD d 0 := by
  cases z with
  | succ z => rw [List.replicate_succ, List.cons_append, List.dropWhile_cons_of_neg (by decide)]
  | zero =>
    cases ds with
    | nil => rfl
    | cons d ds =>
      rw [List.replicate_zero, List.nil_append, List.map_cons,
        List.dropWhile_cons_of_neg (by rw [pszBase58_not_space (h58 d List.mem_cons_self)]; decide)]

set_option maxRecDepth 100000 in
/-- The size factor of `DecodeBase58`, `log(58) / log(256)` rounded up to `0.733`, is enough. -/
theorem pow58_lt_pow256 : 58 ^ 1000 < 256 ^ 733 := by
  decide +kernel

/-- `DecodeBase58` on `z` '1's and the spelling of digits `ds` with no leading zero, when its buffer
size fits an `int`: the zero bytes and the bytes of the number, unless a count passes
`max_ret_len`. -/
theorem decodeBase58Psz_spelling (max_ret_len : Int) (z : Nat) {ds : List Nat} (h58 : ∀ d ∈ ds, d < 58)
    (hhead : ds.head? ≠ some 0) (hlen : ds.length * 733 / 1000 + 1 < 2 ^ 31) :
    decodeBase58Psz (List.replicate z one ++ ds.map fun d => pszBase58.getD d 0) max_ret_len =
      .ok (if (z ≠ 0 ∧ max_ret_len < z) ∨ (ds ≠ [] ∧ max_ret_len < (Nat.digits 256 (readDigits ds 0)).length + z)
        then none else some (List.replicate z 0 ++ ((Nat.digits 256 (readDigits ds 0)).map Nat.toUInt8).reverse)) := by
  have hsize : bufferSize (ds.map fun d => pszBase58.getD d 0).length 733 1000 =
      ((ds.length * 733 / 1000 + 1 : Nat) : Int) := by
    rw [List.length_map]
    exact bufferSize_eq (by omega) hlen
  -- the number fits in the base-256 buffer, as `58 ^ k < 256 ^ (k * 733 / 1000 + 1)`
  have hfit : readDigits ds 0 < 256 ^ (ds.length * 733 / 1000 + 1) := by
    rw [readDigits_zero]
    calc Nat.ofDigits 58 ds.reverse < 58 ^ ds.reverse.length :=
          Nat.ofDigits_lt_base_pow_length (by omega) fun d hd => h58 d (List.mem_reverse.mp hd)
      _ ≤ 256 ^ (ds.length * 733 / 1000 + 1) :=
          (pow_lt_pow_of_mul_lt (a := 58) (b := 256) (p := 1000) (q := 733) (by omega) (by omega) pow58_lt_pow256
            (by rw [List.length_reverse]; omega)).le
  have hchars := @decodeChars_digits max_ret_len z _ [] (Or.inl rfl) ds 0 h58 hfit
  rw [List.append_nil, Nat.digits_zero, List.length_nil, bufferOf_zero] at hchars
  unfold decodeBase58Psz
  rw [dropWhile_isSpace_spelling z h58, skipOnes_replicate max_ret_len (head_spelling h58 hhead) z 0, Nat.zero_add,
    Nat.cast_zero, zero_add]
  -- refused among the '1's, or among the digits, or accepted
  by_cases hz : z ≠ 0 ∧ max_ret_len < z
  · rw [if_pos hz, if_pos (Or.inl hz)]
  rw [if_neg hz]
  dsimp only
  rw [hsize, newVector_ofNat]
  dsimp only
  rw [hchars]
  by_cases hd : ds ≠ [] ∧ max_ret_len < (Nat.digits 256 (readDigits ds 0)).length + z
  · rw [if_pos hd, if_pos (Or.inr hd)]
  · rw [if_neg hd, if_neg (by tauto)]
    dsimp only
    rw [List.dropWhile_nil, if_neg (by simp), length_bufferOf (by omega) hfit, drop_bufferOf]

/-- The Base58 digits of a number: below 58, and none leading zero. -/
theorem digits58_lt (N : Nat) : ∀ d ∈ (Nat.digits 58 N).reverse, d < 58 :=
  fun d hd => Nat.digits_lt_base (by omega) (List.mem_reverse.mp hd)

theorem head_digits58 (N : Nat) : (Nat.digits 58 N).reverse.head? ≠ some 0 := by
  rcases Nat.eq_zero_or_pos N with rfl | hN
  · simp
  · have hne : Nat.digits 58 N ≠ [] := Nat.digits_ne_nil_iff_ne_zero.mpr hN.ne'
    rw [List.head?_reverse, List.getLast?_eq_some_getLast hne]
    exact fun h => Nat.getLast_digit_ne_zero 58 hN.ne' (Option.some.inj h)

/-- `DecodeBase58` reads `base58Spec v` back as `v` exactly when `v` fits in `max_ret_len` bytes or is
empty: the empty string is accepted before any count is checked. -/
theorem decodeBase58Psz_base58Spec (v : Bytes) (max_ret_len : Int) (h : v.length * 138 / 100 + 1 < 2 ^ 31) :
    decodeBase58Psz (base58Spec v) max_ret_len = .ok (if v.length ≤ max_ret_len ∨ v = [] then some v else none) := by
  obtain ⟨hv, hhead⟩ := replicate_leadingZeros v
  have hdigits := digits_valBE hhead
  -- the rest's number has as many bytes as the rest, and a base-58 digit count within the buffer
  have hlen256 : (Nat.digits 256 (valBE (v.drop (leadingZeros v)))).length = (v.drop (leadingZeros v)).length := by
    rw [hdigits, List.length_map, List.length_reverse]
  have hk : (Nat.digits 58 (valBE (v.drop (leadingZeros v)))).length ≤ (v.drop (leadingZeros v)).length * 138 / 100 + 1 :=
    (Nat.digits_length_le_iff (by omega) _).mpr (lt_of_lt_of_le (valBE_lt _)
      (pow_lt_pow_of_mul_lt (a := 256) (b := 58) (p := 100) (q := 138) (by omega) (by omega) (by norm_num) (by omega)).le)
  have hn : (v.drop (leadingZeros v)).length ≤ v.length := by simp
  have hread : readDigits (Nat.digits 58 (valBE (v.drop (leadingZeros v)))).reverse 0 = valBE (v.drop (leadingZeros v)) := by
    rw [readDigits_zero, List.reverse_reverse, Nat.ofDigits_digits]
  have hbytes : ((Nat.digits 256 (valBE (v.drop (leadingZeros v)))).map Nat.toUInt8).reverse = v.drop (leadingZeros v) := by
    rw [hdigits, List.map_map, ← List.map_reverse, List.reverse_reverse]
    conv => rhs; rw [← List.map_id (v.drop (leadingZeros v))]
    exact List.map_congr_left fun x _ => by simp
  rw [base58Spec, decodeBase58Psz_spelling max_ret_len _ (digits58_lt _) (head_digits58 _)
    (by rw [List.length_reverse]; omega), hread, hlen256, hbytes, hv]
  -- which counts can pass `max_ret_len`: the vector's length is the zeros and the rest
  have hvlen : v.length = leadingZeros v + (v.drop (leadingZeros v)).length := by
    conv => lhs; rw [← hv]
    rw [List.length_append, List.length_replicate]
  have hds : (Nat.digits 58 (valBE (v.drop (leadingZeros v)))).reverse ≠ [] ↔ (v.drop (leadingZeros v)).length ≠ 0 := by
    rw [ne_eq, List.reverse_eq_nil_iff, Nat.digits_eq_nil_iff_eq_zero, ← hlen256, ne_eq,
      List.length_eq_zero_iff, Nat.digits_eq_nil_iff_eq_zero]
  have hnil : v = [] ↔ v.length = 0 := List.length_eq_zero_iff.symm
  by_cases hacc : v.length ≤ max_ret_len ∨ v = []
  · rw [if_pos hacc, if_neg (by rw [hnil] at hacc; rw [hds]; omega)]
  · rw [if_neg hacc, if_pos (by rw [hnil] at hacc; rw [hds]; omega)]

end Decode

/-! ### What the decoder accepts -/

section Accept

theorem newVector_eq_ok {size : Int} {b : Bytes} (h : newVector size = .ok b) : b = List.replicate size.toNat 0 := by
  rw [newVector] at h
  split_ifs at h
  cases h
  rfl

/-- The fresh buffer is the buffer of zero, with no digit in use. -/
theorem replicate_eq_bufferOf (L : Nat) :
    ((List.replicate L 0 : Bytes), 0) = (bufferOf 256 L 0, (Nat.digits 256 0).length) := by
  rw [bufferOf_zero, Nat.digits_zero, List.length_nil]

/-- Every string `DecodeBase58` accepts is the Base58 string of what it returns, between runs of
spaces. -/
theorem decodeBase58Psz_eq_some {s : Bytes} {max_ret_len : Int} {vch : Bytes}
    (h : decodeBase58Psz s max_ret_len = .ok (some vch)) :
    ∃ lead core trail, s = lead ++ core ++ trail ∧ (∀ c ∈ lead, isSpace c = true) ∧
      (∀ c ∈ trail, isSpace c = true) ∧ core = base58Spec vch := by
  unfold decodeBase58Psz at h
  cases hones : skipOnes max_ret_len 0 (s.dropWhile isSpace) with
  | none =>
    rw [hones] at h
    cases h
  | some r =>
    obtain ⟨z, psz⟩ := r
    rw [hones] at h
    dsimp only at h
    -- the spaces, then `z` '1's, then the characters the loop read
    obtain ⟨k, hs, hz, hnot1⟩ := skipOnes_eq_some max_ret_len _ 0 z psz hones
    cases hvec : newVector (bufferSize psz.length 733 1000) with
    | error e =>
      rw [hvec] at h
      cases h
    | ok b256 =>
      rw [hvec] at h
      dsimp only at h
      rw [newVector_eq_ok hvec, replicate_eq_bufferOf] at h
      cases hdec : decodeChars max_ret_len z (bufferOf 256 (bufferSize psz.length 733 1000).toNat 0,
          (Nat.digits 256 0).length) psz with
      | error e =>
        rw [hdec] at h
        cases h
      | ok r =>
        rw [hdec] at h
        rcases r with _ | ⟨buf, length, rest⟩
        · cases h
        dsimp only at h
        obtain ⟨ds, h58, hpsz, -, hfit, rfl, rfl⟩ :=
          decodeChars_eq_some max_ret_len z psz 0 buf length rest (Nat.pow_pos (by omega)) hdec
        by_cases htrail : rest.dropWhile isSpace ≠ []
        · rw [if_pos htrail] at h
          cases h
        rw [if_neg htrail, length_bufferOf (by omega) hfit, drop_bufferOf, Except.ok.injEq, Option.some.injEq] at h
        subst h
        -- the digits read start with no zero, since the string had no further '1'
        have hhead : ds.head? ≠ some 0 := by
          cases ds with
          | nil => simp
          | cons d ds =>
            intro h0
            cases Option.some.inj h0
            rw [hpsz, List.map_cons, List.cons_append, List.head?_cons, pszBase58_zero] at hnot1
            exact hnot1 rfl
        have hval : valBE ((Nat.digits 256 (readDigits ds 0)).map Nat.toUInt8).reverse = readDigits ds 0 := by
          rw [valBE, List.reverse_reverse, map_toNat_digits (by omega) le_rfl, Nat.ofDigits_digits]
        refine ⟨s.takeWhile isSpace, List.replicate z one ++ ds.map (fun d => pszBase58.getD d 0), rest, ?_,
          fun c hc => List.mem_takeWhile_imp hc, fun c hc => ?_, ?_⟩
        · conv => lhs; rw [← List.takeWhile_append_dropWhile (p := isSpace) (l := s)]
          rw [hs, hpsz, hz, Nat.zero_add]
          simp only [List.append_assoc]
        · exact List.dropWhile_eq_nil_iff.mp (not_not.mp htrail) c hc
        · rw [base58Spec_replicate_append (head_digits_ne_zero (by omega) le_rfl _), hval, digits_readDigits h58 hhead,
            List.reverse_reverse]

set_option maxRecDepth 100000 in
/-- `DecodeBase58` returns, without throwing or aborting, whenever its buffer size fits an `int`:
the buffer then has room for every digit. -/
theorem decodeBase58Psz_ok (s : Bytes) (max_ret_len : Int) (h : s.length * 733 / 1000 + 1 < 2 ^ 31) :
    ∃ r, decodeBase58Psz s max_ret_len = .ok r := by
  unfold decodeBase58Psz
  cases hones : skipOnes max_ret_len 0 (s.dropWhile isSpace) with
  | none => exact ⟨none, rfl⟩
  | some r =>
    obtain ⟨z, psz⟩ := r
    dsimp only
    obtain ⟨k, hs, -, -⟩ := skipOnes_eq_some max_ret_len _ 0 z psz hones
    have hlen : psz.length ≤ s.length := by
      have h₁ := List.length_dropWhile_le isSpace s
      rw [hs, List.length_append] at h₁
      omega
    have h64 : psz.length * 733 < 2 ^ 64 := by omega
    have h31 : psz.length * 733 / 1000 + 1 < 2 ^ 31 :=
      lt_of_le_of_lt (Nat.add_le_add_right (Nat.div_le_div_right (Nat.mul_le_mul_right 733 hlen)) 1) h
    have hsize : bufferSize psz.length 733 1000 = ((psz.length * 733 / 1000 + 1 : Nat) : Int) :=
      bufferSize_eq h64 h31
    rw [hsize, newVector_ofNat]
    dsimp only
    have hroom : (0 + 1) * 58 ^ psz.length ≤ 256 ^ (psz.length * 733 / 1000 + 1) := by
      rw [Nat.zero_add, Nat.one_mul]
      exact (pow_lt_pow_of_mul_lt (a := 58) (b := 256) (p := 1000) (q := 733) (by omega) (by omega)
        pow58_lt_pow256 (by omega)).le
    obtain ⟨r, hr⟩ := decodeChars_ok max_ret_len z psz 0 hroom
    rw [replicate_eq_bufferOf, hr]
    rcases r with _ | ⟨buf, length, rest⟩
    · exact ⟨none, rfl⟩
    · dsimp only
      split_ifs
      · exact ⟨none, rfl⟩
      · exact ⟨_, rfl⟩

end Accept

/-! ### Base58Check -/

section Check

variable (hash256 : Bytes → Uint256)

theorem length_checkBytes (vch : Bytes) : (checkBytes hash256 vch).length = 4 := length_encodeLE 4 _

/-- `DecodeBase58Check` reads the Base58 string of `v` and its check bytes back as `v` exactly when
`v` fits in `max_ret` bytes. -/
theorem decodeBase58CheckPsz_base58Spec (v : Bytes) (max_ret : Int32)
    (h : (v.length + 4) * 138 / 100 + 1 < 2 ^ 31) :
    decodeBase58CheckPsz hash256 (base58Spec (v ++ checkBytes hash256 v)) max_ret =
      .ok (if v.length ≤ max_ret.toInt then some v else none) := by
  have hlen : (v ++ checkBytes hash256 v).length = v.length + 4 := by
    rw [List.length_append, length_checkBytes]
  have hne : v ++ checkBytes hash256 v ≠ [] := fun h0 => by simp [h0] at hlen
  -- the room `max_ret + 4`, or `INT_MAX`, holds the vector and its check bytes exactly when
  -- `max_ret` holds the vector
  have hroom : ((v.length + 4 : Nat) : Int) ≤
      (if max_ret.toInt > (2 ^ 31 - 1) - 4 then 2 ^ 31 - 1 else max_ret.toInt + 4) ↔ (v.length : Int) ≤ max_ret.toInt := by
    split_ifs <;> omega
  unfold decodeBase58CheckPsz
  dsimp only
  rw [decodeBase58Psz_base58Spec _ _ (by rw [hlen]; exact h), hlen]
  by_cases hv : (v.length : Int) ≤ max_ret.toInt
  · rw [if_pos (Or.inl (hroom.mpr hv)), if_pos hv]
    dsimp only
    rw [hlen, if_neg (by omega), show v.length + 4 - 4 = v.length by omega, List.take_left' rfl,
      List.drop_left' rfl, if_neg (not_not.mpr rfl)]
  · rw [if_neg (by rw [or_iff_left hne]; exact fun h => hv (hroom.mp h)), if_neg hv]

end Check

/-! ### The entry points -/

theorem pszBase58_ne_zero : ∀ d < 58, (pszBase58.getD d 0 != 0) = true := by
  decide

theorem containsNoNUL_base58Spec (v : Bytes) : containsNoNUL (base58Spec v) = true := by
  rw [containsNoNUL, List.all_eq_true]
  intro c hc
  rw [base58Spec, List.mem_append] at hc
  rcases hc with hc | hc
  · rw [List.eq_of_mem_replicate hc]
    decide
  · obtain ⟨d, hd, rfl⟩ := List.mem_map.mp hc
    exact pszBase58_ne_zero d (digits58_lt _ d hd)

theorem decodeBase58_base58Spec (v : Bytes) (max_ret_len : Int32) :
    decodeBase58 (base58Spec v) max_ret_len = decodeBase58Psz (base58Spec v) max_ret_len.toInt := by
  rw [decodeBase58, containsNoNUL_base58Spec, Bool.not_true, if_neg Bool.false_ne_true]

/-- Base58 round trips. Within `int`-sized buffers: `DecodeBase58(EncodeBase58(v), max_ret_len)`
returns `v` exactly when `|v| ≤ max_ret_len` or `v` is empty; every NUL-free string it accepts is
the encoding of its result between spaces; neither function throws or aborts; and Base58Check
round trips exactly when `|v| ≤ max_ret`. -/
theorem base58_roundTrip :
    (∀ (v : Bytes) (max_ret_len : Int32), v.length * 138 / 100 + 1 < 2 ^ 31 →
      ∃ s, encodeBase58 v = .ok s ∧
        decodeBase58 s max_ret_len = .ok (if v.length ≤ max_ret_len.toInt ∨ v = [] then some v else none)) ∧
    (∀ (s : Bytes) (max_ret_len : Int32) (vch : Bytes), containsNoNUL s = true →
      decodeBase58 s max_ret_len = .ok (some vch) → vch.length * 138 / 100 + 1 < 2 ^ 31 →
      ∃ lead core trail, s = lead ++ core ++ trail ∧ (∀ c ∈ lead, isSpace c = true) ∧
        (∀ c ∈ trail, isSpace c = true) ∧ encodeBase58 vch = .ok core) ∧
    (∀ v : Bytes, v.length * 138 / 100 + 1 < 2 ^ 31 → ∃ s, encodeBase58 v = .ok s) ∧
    (∀ (s : Bytes) (max_ret_len : Int32), s.length * 733 / 1000 + 1 < 2 ^ 31 →
      ∃ r, decodeBase58 s max_ret_len = .ok r) ∧
    (∀ (hash256 : Bytes → Uint256) (v : Bytes) (max_ret : Int32), (v.length + 4) * 138 / 100 + 1 < 2 ^ 31 →
      ∃ s, encodeBase58Check hash256 v = .ok s ∧
        decodeBase58Check hash256 s max_ret = .ok (if v.length ≤ max_ret.toInt then some v else none)) := by
  refine ⟨fun v max_ret_len h => ?_, fun s max_ret_len vch hnul hdec hb => ?_, fun v h => ⟨_, encodeBase58_eq v h⟩,
    fun s max_ret_len h => ?_, fun hash256 v max_ret h => ?_⟩
  · exact ⟨_, encodeBase58_eq v h, by
      rw [decodeBase58_base58Spec, decodeBase58Psz_base58Spec v _ h]⟩
  · rw [decodeBase58, hnul, Bool.not_true, if_neg Bool.false_ne_true] at hdec
    obtain ⟨lead, core, trail, hs, hlead, htrail, hcore⟩ := decodeBase58Psz_eq_some hdec
    exact ⟨lead, core, trail, hs, hlead, htrail, by rw [encodeBase58_eq vch hb, hcore]⟩
  · rw [decodeBase58]
    split_ifs
    · exact ⟨none, rfl⟩
    · exact decodeBase58Psz_ok s _ h
  · have hlen : (v ++ checkBytes hash256 v).length = v.length + 4 := by
      rw [List.length_append, length_checkBytes]
    refine ⟨_, encodeBase58_eq _ (by rw [hlen]; exact h), ?_⟩
    rw [decodeBase58Check, containsNoNUL_base58Spec, Bool.not_true, if_neg Bool.false_ne_true,
      decodeBase58CheckPsz_base58Spec hash256 v max_ret h]

/-- " 12" is the string of `[0, 1]` after a space: `[0, 1]` encodes to "12", which reads back within
two bytes, and the spaced string is accepted as it. -/
theorem base58_roundTrip_spaced :
    (∃ s, encodeBase58 [0, 1] = .ok s ∧
        decodeBase58 s 2 = .ok (if ([0, 1] : Bytes).length ≤ (2 : Int32).toInt ∨ ([0, 1] : Bytes) = [] then
          some [0, 1] else none)) ∧
      (∃ lead core trail, [0x20, one, pszBase58.getD 1 0] = lead ++ core ++ trail ∧ (∀ c ∈ lead, isSpace c = true) ∧
        (∀ c ∈ trail, isSpace c = true) ∧ encodeBase58 [0, 1] = .ok core) :=
  ⟨base58_roundTrip.1 [0, 1] 2 (by decide),
    base58_roundTrip.2.1 [0x20, one, pszBase58.getD 1 0] 2 [0, 1] (by decide) (by decide) (by decide)⟩

/-- The empty vector's string "" is accepted for every `max_ret_len`, a negative one too, before any
count is checked; and a 3112295142-byte input of ones gets the buffer size
`3112295142 * 138 / 100 + 1 = 2 ^ 32`, narrowed to an `int` of 0, so the first byte's carry is left
for the assert. -/
theorem base58_empty_accepted_size_wraps :
    encodeBase58 [] = .ok [] ∧ decodeBase58 [] (-1) = .ok (some []) ∧
      encodeBase58 (1 :: List.replicate 3112295141 1) = .error assertCarry := by
  refine ⟨by decide, by decide, ?_⟩
  -- only the first byte is read: the fold stops at its failed assert
  have hz : ((1 :: List.replicate 3112295141 (1 : UInt8)).takeWhile (· == 0)).length = 0 := by
    rw [List.takeWhile_cons_of_neg (by decide)]
    rfl
  have hsize : bufferSize (1 :: List.replicate 3112295141 (1 : UInt8)).length 138 100 = ((0 : Nat) : Int) := by
    rw [List.length_cons, List.length_replicate]
    decide
  have hfirst : addDigit 256 58 ([], 0) (1 : UInt8).toNat = .error assertCarry := by decide
  unfold encodeBase58
  dsimp only
  rw [hz, List.drop_zero, hsize, newVector_ofNat, List.replicate_zero]
  simp only [bind, Except.bind, List.foldlM_cons, hfirst]

end BlackcoinMore.Base58
