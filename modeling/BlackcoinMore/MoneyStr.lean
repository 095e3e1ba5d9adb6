import BlackcoinMore.Base58

/-! `util/moneystr.cpp`: `FormatMoney` and `ParseMoney`, with `TrimString` of `util/string.h` and
`LocaleIndependentAtoi<int64_t>` of `util/strencodings.h`. Strings are their bytes, as in
`Base58`. `%d` and `%08d` are `strprintf`'s decimal conversions. The fraction loop of `ParseMoney`
keeps `nUnits` and `nMult` as integers: it reads at most eight digits, so the `int64_t`s stay
below `COIN` and never wrap.

This fork sets `MAX_MONEY` to `INT64_MAX`, whose amounts need eleven integer digits, while
`ParseMoney` refuses more than ten: `FormatMoney` then writes strings `ParseMoney` refuses. -/

namespace BlackcoinMore.MoneyStr
open Primitives Base58 DigitBuffer

def zeroChar : UInt8 := 0x30
def dotChar : UInt8 := 0x2e
def minusChar : UInt8 := 0x2d
def plusChar : UInt8 := 0x2b

/-- `IsDigit(c)`: `c >= '0' && c <= '9'`. -/
def isDigit (c : UInt8) : Bool := 0x30 ≤ c && c ≤ 0x39

/-- `c - '0'`. -/
def digitValue (c : UInt8) : Nat := c.toNat - 0x30

/-- The character of the digit `d < 10`. -/
def digitChar (d : Nat) : UInt8 := (0x30 + d).toUInt8

/-- The decimal digits of `n`, most significant first. -/
def decimal (n : Nat) : Bytes := if n = 0 then [zeroChar] else (Nat.digits 10 n).reverse.map digitChar

/-- `%d` of an `int64_t`. -/
def formatD (v : Int64) : Bytes := if v < 0 then minusChar :: decimal v.toInt.natAbs else decimal v.toInt.natAbs

/-- `%08d`: the sign, then zeros up to eight characters, then the digits. -/
def format08d (v : Int64) : Bytes :=
  let sign := if v < 0 then [minusChar] else []
  let digits := decimal v.toInt.natAbs
  sign ++ List.replicate (8 - sign.length - digits.length) zeroChar ++ digits

/-- The loop `for (int i = str.size()-1; (str[i] == '0' && IsDigit(str[i-2])); --i) ++nTrim;`
from index `i` down. On the strings `FormatMoney` builds the `'.'` stops it two places after
itself, before `str[i-2]` could leave the string. -/
def trimCount (str : Bytes) : Nat → Nat
  | i + 2 => if str.getD (i + 2) 0 == zeroChar && isDigit (str.getD i 0) then trimCount str (i + 1) + 1 else 0
  | _ => 0

def formatMoney (n : CAmount) : Bytes :=
  let quotient := n / COIN
  let remainder := n % COIN
  let (quotient, remainder) := if n < 0 then (-quotient, -remainder) else (quotient, remainder)
  let str := formatD quotient ++ [dotChar] ++ format08d remainder
  -- right-trim excess zeros of the fraction
  let nTrim := trimCount str (str.length - 1)
  let str := if nTrim ≠ 0 then str.take (str.length - nTrim) else str
  if n < 0 then minusChar :: str else str

/-- `TrimString(str)` with the default pattern `" \f\n\r\t\v"`, the characters of `IsSpace`. -/
def trimString (str : Bytes) : Bytes := ((str.dropWhile isSpace).reverse.dropWhile isSpace).reverse

/-- The value of a string of digits, most significant first. -/
def decimalValue (ds : Bytes) : Nat := ds.foldl (fun V c => digitValue c + 10 * V) 0

/-- The error conditions of `std::from_chars` that `LocaleIndependentAtoi` tells apart. -/
inductive Errc where
  | invalid_argument
  | result_out_of_range
  deriving DecidableEq, Repr

/-- `std::from_chars` for `int64_t`: an optional `'-'`, then the digits as far as they go; no
digit is `invalid_argument`, a value outside `int64_t` is `result_out_of_range`. -/
def fromChars (s : Bytes) : Except Errc Int64 :=
  let (neg, t) := if s.head? = some minusChar then (true, s.tail) else (false, s)
  let ds := t.takeWhile isDigit
  if ds.isEmpty then .error .invalid_argument
  else
    let v : Int := if neg then -(decimalValue ds : Int) else decimalValue ds
    if v < Int64.minValue.toInt ∨ Int64.maxValue.toInt < v then .error .result_out_of_range
    else .ok (Int64.ofInt v)

/-- `LocaleIndependentAtoi<int64_t>`: `atoi` under the C locale, saturating out of range. -/
def localeIndependentAtoi (str : Bytes) : Int64 :=
  let s := trimString str
  if s.head? = some plusChar ∧ s.getD 1 0 = minusChar then 0
  else
    let s := if s.head? = some plusChar then s.tail else s
    match fromChars s with
    | .ok result => result
    | .error .result_out_of_range => if s.head? = some minusChar then Int64.minValue else Int64.maxValue
    | .error .invalid_argument => 0

/-- The fraction loop of `ParseMoney` after the `'.'`: digits while `nMult > 0`. -/
def readUnits : Bytes → Int → Int → Int × Bytes
  | c :: p, nMult, nUnits =>
    if isDigit c && decide (nMult > 0) then readUnits p (nMult / 10) (nUnits + nMult * digitValue c)
    else (nUnits, c :: p)
  | [], _, nUnits => (nUnits, [])

/-- The `for (; *p; p++)` loop of `ParseMoney`: the digits before the `'.'` go to `strWhole`; it
returns `strWhole`, `nUnits` and where `p` stopped. -/
def scanMoney : Bytes → Bytes → Option (Bytes × Int × Bytes)
  | [], strWhole => some (strWhole, 0, [])
  | c :: p, strWhole =>
    if c == dotChar then
      let (nUnits, rest) := readUnits p (COIN.toInt / 10) 0
      some (strWhole, nUnits, rest)
    else if isSpace c then none
    else if !isDigit c then none
    else scanMoney p (strWhole ++ [c])

def parseMoney (money_string : Bytes) : Option CAmount :=
  if !containsNoNUL money_string then none
  else
    let str := trimString money_string
    if str.isEmpty then none
    else
      match scanMoney str [] with
      | none => none
      | some (strWhole, nUnits, rest) =>
        if rest ≠ [] then none
        -- guard against 63 bit overflow
        else if strWhole.length > 10 then none
        else if nUnits < 0 ∨ nUnits > COIN.toInt then none
        else
          let nWhole := localeIndependentAtoi strWhole
          let value := nWhole * COIN + Int64.ofInt nUnits
          if !moneyRange value then none else some value

/-! ### Digits -/

section Digits

theorem isDigit_iff (c : UInt8) : isDigit c = true ↔ 48 ≤ c.toNat ∧ c.toNat ≤ 57 := by
  simp [isDigit, UInt8.le_iff_toNat_le]

theorem toNat_digitChar {d : Nat} (hd : d < 10) : (digitChar d).toNat = 48 + d := by
  rw [digitChar, Nat.toUInt8, UInt8.toNat_ofNat', Nat.mod_eq_of_lt (by omega)]

theorem isDigit_digitChar {d : Nat} (hd : d < 10) : isDigit (digitChar d) = true := by
  rw [isDigit_iff, toNat_digitChar hd]
  omega

theorem digitValue_digitChar {d : Nat} (hd : d < 10) : digitValue (digitChar d) = d := by
  rw [digitValue, toNat_digitChar hd]
  omega

theorem digitValue_lt {c : UInt8} (hc : isDigit c = true) : digitValue c < 10 := by
  rw [isDigit_iff] at hc
  rw [digitValue]
  omega

/-- A digit differs from every character that is not one. -/
theorem ne_of_isDigit {c d : UInt8} (hc : isDigit c = true) (hd : isDigit d = false) : c ≠ d := by
  rintro rfl
  rw [hc] at hd
  exact Bool.noConfusion hd

theorem isSpace_of_isDigit {c : UInt8} (hc : isDigit c = true) : isSpace c = false := by
  by_contra h
  simp only [isSpace, Bool.not_eq_false, Bool.or_eq_true, beq_iff_eq] at h
  rcases h with ((((h | h) | h) | h) | h) | h <;> subst h <;> exact Bool.noConfusion hc

theorem isDigit_zeroChar : isDigit zeroChar = true := rfl

end Digits

/-! ### Decimal strings -/

section Decimal

theorem decimal_isDigit (n : Nat) : ∀ c ∈ decimal n, isDigit c = true := by
  unfold decimal
  split_ifs
  · simp [isDigit_zeroChar]
  · intro c hc
    obtain ⟨d, hd, rfl⟩ := List.mem_map.mp hc
    exact isDigit_digitChar (Nat.digits_lt_base (by norm_num) (List.mem_reverse.mp hd))

/-- `%d` of `n` has at most `k ≥ 1` digits exactly when `n < 10 ^ k`. -/
theorem length_decimal_le_iff {k : Nat} (hk : 1 ≤ k) (n : Nat) : (decimal n).length ≤ k ↔ n < 10 ^ k := by
  unfold decimal
  split_ifs with h
  · subst h
    rw [List.length_singleton]
    exact ⟨fun _ => Nat.pow_pos (by norm_num), fun _ => hk⟩
  · rw [List.length_map, List.length_reverse, Nat.digits_length_le_iff (by norm_num)]

theorem decimalValue_eq (ds : Bytes) : decimalValue ds = Nat.ofDigits 10 (ds.map digitValue).reverse := by
  rw [decimalValue, ← List.foldl_map (g := fun V x => x + 10 * V), foldl_mul_add]
  simp

theorem decimalValue_append (as bs : Bytes) :
    decimalValue (as ++ bs) = decimalValue as * 10 ^ bs.length + decimalValue bs := by
  rw [decimalValue, List.foldl_append, ← List.foldl_map (l := bs) (g := fun V x => x + 10 * V), foldl_mul_add,
    List.length_map, decimalValue_eq bs]
  rfl

theorem decimalValue_replicate_zero (k : Nat) : decimalValue (List.replicate k zeroChar) = 0 := by
  induction k with
  | zero => rfl
  | succ k ih =>
    rw [List.replicate_succ', decimalValue_append, ih]
    rfl

theorem decimalValue_lt {ds : Bytes} (h : ∀ c ∈ ds, isDigit c = true) : decimalValue ds < 10 ^ ds.length := by
  rw [decimalValue_eq, ← List.length_map digitValue, ← List.length_reverse]
  refine Nat.ofDigits_lt_base_pow_length (by norm_num) fun x hx => ?_
  obtain ⟨c, hc, rfl⟩ := List.mem_map.mp (List.mem_reverse.mp hx)
  exact digitValue_lt (h c hc)

/-- Reading `%d` of `n` back gives `n`. -/
theorem decimalValue_decimal (n : Nat) : decimalValue (decimal n) = n := by
  unfold decimal
  split_ifs with h
  · subst h
    rfl
  · rw [decimalValue_eq, List.map_map, List.map_reverse, List.reverse_reverse]
    conv_rhs => rw [← Nat.ofDigits_digits 10 n]
    congr 1
    refine (List.map_congr_left fun d hd => ?_).trans (List.map_id _)
    exact digitValue_digitChar (Nat.digits_lt_base (by norm_num) hd)

end Decimal

/-! ### The loops of `ParseMoney` -/

section Parse

/-- The digits the fraction loop reads from `p` when `nMult` starts at `10 ^ j`. -/
def unitDigits (p : Bytes) (j : Nat) : Bytes := (p.takeWhile isDigit).take (j + 1)

theorem readUnits_zero (p : Bytes) (u : Int) : readUnits p 0 u = (u, p) := by
  cases p with
  | nil => rfl
  | cons c p => simp [readUnits]

theorem unitDigits_cons_of_isDigit {c : UInt8} (hc : isDigit c = true) (p : Bytes) (j : Nat) :
    unitDigits (c :: p) j = c :: (p.takeWhile isDigit).take j := by
  rw [unitDigits, List.takeWhile_cons_of_pos hc, List.take_succ_cons]

/-- From `nMult = 10 ^ j` the loop reads up to `j + 1` digits, each at its place value. -/
theorem readUnits_eq : ∀ (p : Bytes) (j : Nat) (u : Int),
    readUnits p (10 ^ j) u =
      (u + 10 ^ (j + 1 - (unitDigits p j).length) * (decimalValue (unitDigits p j) : Int),
        p.drop (unitDigits p j).length)
  | [], j, u => by simp [readUnits, unitDigits, decimalValue]
  | c :: p, j, u => by
    by_cases hc : isDigit c = true
    · have hpos : (10 : Int) ^ j > 0 := by positivity
      rw [readUnits, if_pos (by simp [hc, hpos]), unitDigits_cons_of_isDigit hc]
      cases j with
      | zero =>
        -- `nMult` becomes zero after one digit
        simp [readUnits_zero, decimalValue]
      | succ j =>
        have hdiv : (10 : Int) ^ (j + 1) / 10 = 10 ^ j := by
          rw [pow_succ, Int.mul_ediv_cancel _ (by norm_num)]
        have hlen : ((p.takeWhile isDigit).take (j + 1)).length ≤ j + 1 := List.length_take_le _ _
        rw [hdiv, readUnits_eq p j, unitDigits]
        -- the first digit's place value is that of the rest, shifted by their count
        have hplace : (10 : Int) ^ (j + 1) =
            10 ^ (j + 1 - ((p.takeWhile isDigit).take (j + 1)).length) *
              10 ^ ((p.takeWhile isDigit).take (j + 1)).length := by
          rw [← pow_add, Nat.sub_add_cancel hlen]
        have hcons : decimalValue (c :: (p.takeWhile isDigit).take (j + 1)) =
            digitValue c * 10 ^ ((p.takeWhile isDigit).take (j + 1)).length +
              decimalValue ((p.takeWhile isDigit).take (j + 1)) := by
          rw [← List.singleton_append, decimalValue_append]
          simp [decimalValue]
        rw [hcons, List.length_cons, List.drop_succ_cons,
          show j + 1 + 1 - (((p.takeWhile isDigit).take (j + 1)).length + 1) =
            j + 1 - ((p.takeWhile isDigit).take (j + 1)).length by omega, hplace]
        push_cast
        ring_nf
    · rw [readUnits, if_neg (by simp [hc])]
      have hnil : unitDigits (c :: p) j = [] := by
        rw [unitDigits, List.takeWhile_cons_of_neg hc, List.take_nil]
      simp [hnil, decimalValue]

/-- What the fraction loop reads is below `10 ^ (j + 1)`. -/
theorem readUnits_lt (p : Bytes) (j : Nat) (u : Int) :
    u ≤ (readUnits p (10 ^ j) u).1 ∧ (readUnits p (10 ^ j) u).1 < u + 10 ^ (j + 1) := by
  have hdig : ∀ c ∈ unitDigits p j, isDigit c = true :=
    fun c hc => List.mem_takeWhile_imp (List.mem_of_mem_take hc)
  have hlen : (unitDigits p j).length ≤ j + 1 := List.length_take_le _ _
  have hlt := decimalValue_lt hdig
  have hpow : (10 : Int) ^ (j + 1) = 10 ^ (j + 1 - (unitDigits p j).length) * 10 ^ (unitDigits p j).length := by
    rw [← pow_add, Nat.sub_add_cancel hlen]
  rw [readUnits_eq]
  refine ⟨le_add_of_nonneg_right (by positivity), ?_⟩
  rw [hpow]
  have hlt' : (decimalValue (unitDigits p j) : Int) < 10 ^ (unitDigits p j).length := by exact_mod_cast hlt
  have hpos : (0 : Int) < 10 ^ (j + 1 - (unitDigits p j).length) := by positivity
  nlinarith

theorem scanMoney_digits (rest : Bytes) : ∀ (ds acc : Bytes), (∀ c ∈ ds, isDigit c = true) →
    scanMoney (ds ++ rest) acc = scanMoney rest (acc ++ ds)
  | [], acc, _ => by rw [List.nil_append, List.append_nil]
  | c :: ds, acc, h => by
    have hc := h c List.mem_cons_self
    rw [List.cons_append, scanMoney, if_neg (by simpa using ne_of_isDigit hc rfl),
      if_neg (by rw [isSpace_of_isDigit hc]; exact Bool.false_ne_true), if_neg (by simp [hc]),
      scanMoney_digits rest ds (acc ++ [c]) (fun x hx => h x (List.mem_cons_of_mem c hx)), List.append_assoc,
      List.singleton_append]

theorem scanMoney_dot (p acc : Bytes) : scanMoney (dotChar :: p) acc = some (acc, readUnits p (10 ^ 7) 0) := by
  rw [scanMoney, if_pos (beq_self_eq_true _)]
  rfl

/-- What the loop of `ParseMoney` accepts: digits before the point and fewer units than `COIN`. -/
theorem scanMoney_eq_some : ∀ (p acc w : Bytes) (u : Int) (rest : Bytes), (∀ c ∈ acc, isDigit c = true) →
    scanMoney p acc = some (w, u, rest) → (∀ c ∈ w, isDigit c = true) ∧ 0 ≤ u ∧ u < 10 ^ 8
  | [], acc, w, u, rest, hacc, h => by
    simp only [scanMoney, Option.some.injEq, Prod.mk.injEq] at h
    obtain ⟨rfl, rfl, -⟩ := h
    exact ⟨hacc, le_rfl, by norm_num⟩
  | c :: p, acc, w, u, rest, hacc, h => by
    rw [scanMoney] at h
    by_cases hdot : c = dotChar
    · subst hdot
      rw [if_pos (beq_self_eq_true _)] at h
      obtain ⟨hlo, hhi⟩ := readUnits_lt p 7 0
      simp only [Option.some.injEq, Prod.mk.injEq] at h
      obtain ⟨rfl, h, -⟩ := h
      have hu : (readUnits p (COIN.toInt / 10) 0).1 = u := h
      rw [show COIN.toInt / 10 = 10 ^ 7 from rfl] at hu
      rw [← hu]
      exact ⟨hacc, hlo, by simpa using hhi⟩
    · rw [if_neg (by simpa using hdot)] at h
      split_ifs at h with hsp hdig
      simp only [Bool.not_eq_true', Bool.not_eq_false] at hdig
      exact scanMoney_eq_some p (acc ++ [c]) w u rest
        (fun x hx => (List.mem_append.mp hx).elim (hacc x) (fun hx => by rw [List.mem_singleton.mp hx]; exact hdig)) h

theorem dropWhile_isSpace_of_forall {s : Bytes} (h : ∀ c ∈ s, isSpace c = false) : s.dropWhile isSpace = s := by
  cases s with
  | nil => rfl
  | cons c s => exact List.dropWhile_cons_of_neg (by simp [h c List.mem_cons_self])

/-- `TrimString` keeps a string without white space. -/
theorem trimString_of_forall {s : Bytes} (h : ∀ c ∈ s, isSpace c = false) : trimString s = s := by
  rw [trimString, dropWhile_isSpace_of_forall h,
    dropWhile_isSpace_of_forall (fun c hc => h c (List.mem_reverse.mp hc)), List.reverse_reverse]

/-- `LocaleIndependentAtoi` of a string of up to eighteen digits is its value; of `""` it is `0`. -/
theorem toInt_localeIndependentAtoi {w : Bytes} (hw : ∀ c ∈ w, isDigit c = true) (hlen : w.length ≤ 18) :
    (localeIndependentAtoi w).toInt = decimalValue w := by
  have hsp : ∀ c ∈ w, isSpace c = false := fun c hc => isSpace_of_isDigit (hw c hc)
  cases w with
  | nil => rfl
  | cons c w =>
    have hc := hw c List.mem_cons_self
    have hplus : (c :: w).head? ≠ some plusChar := by simpa using ne_of_isDigit hc rfl
    have hminus : (c :: w).head? ≠ some minusChar := by simpa using ne_of_isDigit hc rfl
    have hval : decimalValue (c :: w) < 10 ^ 18 :=
      (decimalValue_lt hw).trans_le (Nat.pow_le_pow_right (by norm_num) hlen)
    have hfrom : fromChars (c :: w) = .ok (Int64.ofInt (decimalValue (c :: w))) := by
      rw [fromChars, if_neg hminus]
      dsimp only
      rw [List.takeWhile_eq_self_iff.mpr hw, if_neg (by simp)]
      rw [if_neg (by rw [show Int64.minValue.toInt = -2 ^ 63 from rfl, show Int64.maxValue.toInt = 2 ^ 63 - 1 from rfl]; omega)]
      rfl
    rw [localeIndependentAtoi, trimString_of_forall hsp, if_neg (fun h => hplus h.1)]
    dsimp only
    rw [if_neg hplus, hfrom]
    exact Int64.toInt_ofInt_of_le (by omega) (by omega)

end Parse

/-! ### `FormatMoney` of a non-negative amount -/

section Format

theorem toInt_COIN : COIN.toInt = 10 ^ 8 := rfl

/-- The `int64_t` operations below stay in range, so `bmod` leaves them alone. -/
theorem bmod_of_small {x : Int} (h0 : -2 ^ 63 ≤ x) (h1 : x < 2 ^ 63) : x.bmod (2 ^ 64) = x :=
  Int.bmod_eq_of_le (by norm_num; omega) (by norm_num; omega)

theorem toInt_div_COIN {n : CAmount} (h : 0 ≤ n.toInt) : (n / COIN).toInt = n.toInt / 10 ^ 8 := by
  have := Int64.toInt_lt n
  rw [Int64.toInt_div, Int.tdiv_eq_ediv_of_nonneg h, toInt_COIN, bmod_of_small (by omega) (by omega)]

theorem toInt_mod_COIN {n : CAmount} (h : 0 ≤ n.toInt) : (n % COIN).toInt = n.toInt % 10 ^ 8 := by
  rw [Int64.toInt_mod, Int.tmod_eq_emod_of_nonneg h, toInt_COIN]

theorem formatD_of_nonneg {v : Int64} (h : 0 ≤ v.toInt) : formatD v = decimal v.toInt.toNat := by
  rw [formatD, if_neg (by rw [Int64.lt_iff_toInt_lt]; exact not_lt.mpr h)]
  congr 1
  omega

/-- `%08d` of a remainder: eight digits that read back as it. -/
theorem format08d_of_nonneg {v : Int64} (h0 : 0 ≤ v.toInt) (h : v.toInt < 10 ^ 8) :
    (format08d v).length = 8 ∧ (∀ c ∈ format08d v, isDigit c = true) ∧
      decimalValue (format08d v) = v.toInt.toNat := by
  have hnat : v.toInt.natAbs = v.toInt.toNat := by omega
  have hlen : (decimal v.toInt.toNat).length ≤ 8 := (length_decimal_le_iff (by norm_num) _).mpr (by omega)
  rw [format08d, if_neg (by rw [Int64.lt_iff_toInt_lt]; exact not_lt.mpr h0)]
  rw [hnat, List.nil_append]
  refine ⟨by rw [List.length_append, List.length_replicate, List.length_nil]; omega, fun c hc => ?_, ?_⟩
  · rcases List.mem_append.mp hc with hc | hc
    · rw [List.eq_of_mem_replicate hc]
      exact isDigit_zeroChar
    · exact decimal_isDigit _ c hc
  · rw [decimalValue_append, decimalValue_replicate_zero, decimalValue_decimal, Nat.zero_mul, Nat.zero_add]

theorem formatMoney_of_nonneg {n : CAmount} (h : 0 ≤ n.toInt) :
    formatMoney n =
      let str := decimal (n.toInt.toNat / 10 ^ 8) ++ [dotChar] ++ format08d (n % COIN)
      let nTrim := trimCount str (str.length - 1)
      if nTrim ≠ 0 then str.take (str.length - nTrim) else str := by
  have hneg : ¬n < 0 := by rw [Int64.lt_iff_toInt_lt]; exact not_lt.mpr h
  have hq : formatD (n / COIN) = decimal (n.toInt.toNat / 10 ^ 8) := by
    rw [formatD_of_nonneg (by rw [toInt_div_COIN h]; positivity), toInt_div_COIN h]
    congr 1
    omega
  simp only [formatMoney, if_neg hneg, hq]

/-- Each counted position holds a `'0'` two places after a digit. -/
theorem trimCount_spec (str : Bytes) : ∀ (i k : Nat), k < trimCount str i →
    k + 2 ≤ i ∧ str.getD (i - k) 0 = zeroChar ∧ isDigit (str.getD (i - k - 2) 0) = true
  | 0, k, h => absurd h (Nat.not_lt_zero k)
  | 1, k, h => absurd h (Nat.not_lt_zero k)
  | i + 2, k, h => by
    rw [trimCount] at h
    split_ifs at h with hc
    · simp only [Bool.and_eq_true, beq_iff_eq] at hc
      rcases k with _ | k
      · exact ⟨by omega, hc.1, hc.2⟩
      · obtain ⟨h1, h2, h3⟩ := trimCount_spec str (i + 1) k (by omega)
        refine ⟨by omega, ?_, ?_⟩
        · rwa [show i + 2 - (k + 1) = i + 1 - k by omega]
        · rwa [show i + 2 - (k + 1) - 2 = i + 1 - k - 2 by omega]
    · exact absurd h (Nat.not_lt_zero k)

/-- From the last place of `W.f`, with eight fraction digits `f`, the loop counts at most six
trailing zeros of `f`: the `'.'` stops it. -/
theorem trimCount_fraction (W f : Bytes) :
    trimCount (W ++ [dotChar] ++ f) (W.length + 8) ≤ 6 ∧
      ∀ k < trimCount (W ++ [dotChar] ++ f) (W.length + 8), f.getD (7 - k) 0 = zeroChar := by
  have hat : ∀ m, m < 8 → (W ++ [dotChar] ++ f).getD (W.length + 1 + m) 0 = f.getD m 0 := fun m _ => by
    rw [List.getD_append_right _ _ _ _ (by simp)]
    congr 1
    simp
  constructor
  · by_contra hgt
    obtain ⟨-, -, hdig⟩ := trimCount_spec (W ++ [dotChar] ++ f) (W.length + 8) 6 (by omega)
    rw [show W.length + 8 - 6 - 2 = W.length + 0 by omega, List.append_assoc,
      List.getD_append_right _ _ _ _ (by omega), Nat.add_sub_cancel_left] at hdig
    exact Bool.noConfusion hdig
  · intro k hk
    obtain ⟨-, hzero, -⟩ := trimCount_spec (W ++ [dotChar] ++ f) (W.length + 8) k hk
    have hk6 : k < 8 := by
      by_contra hge
      obtain ⟨-, -, hdig⟩ := trimCount_spec (W ++ [dotChar] ++ f) (W.length + 8) 6 (by omega)
      rw [show W.length + 8 - 6 - 2 = W.length + 0 by omega, List.append_assoc,
        List.getD_append_right _ _ _ _ (by omega), Nat.add_sub_cancel_left] at hdig
      exact Bool.noConfusion hdig
    rw [← hat (7 - k) (by omega), show W.length + 1 + (7 - k) = W.length + 8 - k by omega]
    exact hzero

/-- Trailing zeros found at the last `t` places are a block of zeros. -/
theorem drop_eq_replicate_zero {f : Bytes} {t : Nat} (hf : f.length = 8) (ht : t ≤ 8)
    (hz : ∀ k < t, f.getD (7 - k) 0 = zeroChar) : f.drop (8 - t) = List.replicate t zeroChar := by
  rw [List.eq_replicate_iff]
  refine ⟨by rw [List.length_drop, hf]; omega, fun b hb => ?_⟩
  obtain ⟨i, hi, rfl⟩ := List.getElem_of_mem hb
  have hit : i < t := by rw [List.length_drop, hf] at hi; omega
  have h := hz (t - 1 - i) (by omega)
  rw [show 7 - (t - 1 - i) = 8 - t + i by omega, List.getD_eq_getElem _ _ (by omega)] at h
  rw [List.getElem_drop]
  exact h

/-- `FormatMoney` of a non-negative amount: the quotient's digits, the point, and two to eight
digits of the remainder, which read back, at their place values, as the remainder. -/
theorem formatMoney_shape {n : CAmount} (h : 0 ≤ n.toInt) :
    ∃ g, formatMoney n = decimal (n.toInt.toNat / 10 ^ 8) ++ dotChar :: g ∧ (∀ c ∈ g, isDigit c = true) ∧
      g.length ≤ 8 ∧ 10 ^ (8 - g.length) * decimalValue g = n.toInt.toNat % 10 ^ 8 := by
  have hr0 : 0 ≤ (n % COIN).toInt := by rw [toInt_mod_COIN h]; omega
  have hr : (n % COIN).toInt < 10 ^ 8 := by rw [toInt_mod_COIN h]; omega
  obtain ⟨hflen, hfdig, hfval⟩ := format08d_of_nonneg hr0 hr
  have hrval : (n % COIN).toInt.toNat = n.toInt.toNat % 10 ^ 8 := by rw [toInt_mod_COIN h]; omega
  set W := decimal (n.toInt.toNat / 10 ^ 8)
  set f := format08d (n % COIN)
  set t := trimCount (W ++ [dotChar] ++ f) (W.length + 8) with ht
  obtain ⟨ht6, hzero⟩ := trimCount_fraction W f
  have hlenstr : (W ++ [dotChar] ++ f).length - 1 = W.length + 8 := by simp [hflen]
  have hdrop := drop_eq_replicate_zero hflen (by omega) hzero
  refine ⟨f.take (8 - t), ?_, fun c hc => hfdig c (List.mem_of_mem_take hc), by simp, ?_⟩
  · rw [formatMoney_of_nonneg h]
    dsimp only
    rw [hlenstr, ← ht]
    -- with or without trimming, the string is cut after `8 - t` fraction digits
    have hcut : (W ++ [dotChar] ++ f).take ((W ++ [dotChar] ++ f).length - t) = W ++ dotChar :: f.take (8 - t) := by
      rw [List.take_append, List.take_of_length_le (by simp; omega)]
      simp [hflen]
      omega
    split_ifs with h0
    · exact hcut
    · rw [← hcut, not_not.mp h0, Nat.sub_zero, List.take_length]
  · have hsplit := List.take_append_drop (8 - t) f
    rw [hdrop] at hsplit
    have hval := congrArg decimalValue hsplit
    rw [decimalValue_append, decimalValue_replicate_zero, Nat.add_zero, List.length_replicate, hfval, hrval] at hval
    rw [List.length_take, hflen, show 8 - min (8 - t) 8 = t by omega, ← hval, Nat.mul_comm]

end Format

/-! ### The round trip -/

section RoundTrip

/-- `nWhole * COIN + nUnits` does not wrap for up to ten integer digits. -/
theorem toInt_value {nWhole : Int64} {u : Int} (h0 : 0 ≤ nWhole.toInt) (h1 : nWhole.toInt < 10 ^ 10)
    (hu0 : 0 ≤ u) (hu : u < 10 ^ 8) : (nWhole * COIN + Int64.ofInt u).toInt = nWhole.toInt * 10 ^ 8 + u := by
  rw [Int64.toInt_add, Int64.toInt_mul, Int64.toInt_ofInt_of_le (by omega) (by omega), toInt_COIN,
    bmod_of_small (x := nWhole.toInt * 10 ^ 8) (by nlinarith) (by nlinarith),
    bmod_of_small (by nlinarith) (by nlinarith)]

/-- `ParseMoney` of digits, a point and up to eight fraction digits: only the ten-digit guard and
`MoneyRange` can refuse it. -/
theorem parseMoney_decimal_dot {q : Nat} {g : Bytes} (hg : ∀ c ∈ g, isDigit c = true) (hlen : g.length ≤ 8) :
    parseMoney (decimal q ++ dotChar :: g) =
      if 10 ^ 10 ≤ q then none
      else
        let value := localeIndependentAtoi (decimal q) * COIN + Int64.ofInt (10 ^ (8 - g.length) * decimalValue g)
        if moneyRange value then some value else none := by
  have hchars : ∀ c ∈ decimal q ++ dotChar :: g, isDigit c = true ∨ c = dotChar := by
    intro c hc
    rcases List.mem_append.mp hc with hc | hc
    · exact .inl (decimal_isDigit q c hc)
    · rcases List.mem_cons.mp hc with rfl | hc
      · exact .inr rfl
      · exact .inl (hg c hc)
  have hnul : containsNoNUL (decimal q ++ dotChar :: g) = true := by
    rw [containsNoNUL, List.all_eq_true]
    intro c hc
    rcases hchars c hc with hd | rfl
    · simpa using ne_of_isDigit hd rfl
    · rfl
  have hsp : ∀ c ∈ decimal q ++ dotChar :: g, isSpace c = false := by
    intro c hc
    rcases hchars c hc with hd | rfl
    · exact isSpace_of_isDigit hd
    · rfl
  -- the fraction loop reads all of `g`
  have hunits : readUnits g (10 ^ 7) 0 = (((10 ^ (8 - g.length) * decimalValue g : Nat) : Int), []) := by
    have hdig : unitDigits g 7 = g := by
      rw [unitDigits, List.takeWhile_eq_self_iff.mpr hg, List.take_of_length_le hlen]
    rw [readUnits_eq, hdig, List.drop_length]
    push_cast
    ring_nf
  have hlt : 10 ^ (8 - g.length) * decimalValue g < 10 ^ 8 := by
    have hpow : 10 ^ 8 = 10 ^ (8 - g.length) * 10 ^ g.length := by rw [← pow_add, Nat.sub_add_cancel hlen]
    rw [hpow]
    exact Nat.mul_lt_mul_of_pos_left (decimalValue_lt hg) (by positivity)
  have hscan : scanMoney (decimal q ++ dotChar :: g) [] =
      some (decimal q, ((10 ^ (8 - g.length) * decimalValue g : Nat) : Int), []) := by
    rw [scanMoney_digits _ _ _ (decimal_isDigit q), List.nil_append, scanMoney_dot, hunits]
  have hne : (decimal q ++ dotChar :: g).isEmpty = false := by simp
  rw [parseMoney, if_neg (by rw [hnul]; decide)]
  dsimp only
  rw [trimString_of_forall hsp, hne, if_neg Bool.false_ne_true, hscan]
  dsimp only
  rw [if_neg (fun h => h rfl)]
  have hguard : (decimal q).length > 10 ↔ 10 ^ 10 ≤ q := by
    rw [gt_iff_lt, ← not_le, length_decimal_le_iff (by norm_num), not_lt]
  by_cases hq : 10 ^ 10 ≤ q
  · rw [if_pos (hguard.mpr hq), if_pos hq]
  · rw [if_neg (fun h => hq (hguard.mp h)), if_neg hq, if_neg (by rw [toInt_COIN]; omega)]
    push_cast
    cases moneyRange (localeIndependentAtoi (decimal q) * COIN +
      Int64.ofInt (10 ^ (8 - g.length) * (decimalValue g : Int))) <;> rfl

/-- What `ParseMoney` accepts is in the money range and below `10 ^ 18`. -/
theorem parseMoney_eq_some {s : Bytes} {n : CAmount} (h : parseMoney s = some n) :
    moneyRange n = true ∧ n.toInt < 10 ^ 18 := by
  unfold parseMoney at h
  split_ifs at h with hnul
  dsimp only at h
  split_ifs at h with hempty
  split at h
  · cases h
  · rename_i w u rest hscan
    split_ifs at h with hrest hlen hunits hrange
    obtain ⟨hw, hu0, hu⟩ := scanMoney_eq_some _ [] w u rest (by simp) hscan
    simp only [Option.some.injEq] at h
    subst h
    refine ⟨by simpa using hrange, ?_⟩
    have hatoi := toInt_localeIndependentAtoi hw (by omega)
    have hwlt : decimalValue w < 10 ^ 10 :=
      (decimalValue_lt hw).trans_le (Nat.pow_le_pow_right (by norm_num) (by omega))
    rw [toInt_value (by rw [hatoi]; positivity) (by rw [hatoi]; exact_mod_cast hwlt) hu0 hu, hatoi]
    have : (decimalValue w : Int) < 10 ^ 10 := by exact_mod_cast hwlt
    nlinarith

/-- `ParseMoney(FormatMoney(n))` gives back `n` exactly for the amounts of at most ten integer
digits, below `10 ^ 18` satoshis, and refuses the rest of the money range; so every amount
`ParseMoney` accepts round-trips. -/
theorem parseMoney_formatMoney :
    (∀ n : CAmount, moneyRange n = true →
      parseMoney (formatMoney n) = if n.toInt < 10 ^ 18 then some n else none) ∧
    (∀ (s : Bytes) (n : CAmount), parseMoney s = some n → parseMoney (formatMoney n) = some n) := by
  have hround : ∀ n : CAmount, moneyRange n = true →
      parseMoney (formatMoney n) = if n.toInt < 10 ^ 18 then some n else none := by
    intro n hn
    have h0 : 0 ≤ n.toInt := by
      simp only [moneyRange, Bool.and_eq_true, decide_eq_true_eq] at hn
      exact Int64.le_iff_toInt_le.mp hn.1
    obtain ⟨g, hfmt, hg, hglen, hgval⟩ := formatMoney_shape h0
    rw [hfmt, parseMoney_decimal_dot hg hglen]
    by_cases hq : 10 ^ 10 ≤ n.toInt.toNat / 10 ^ 8
    · rw [if_pos hq, if_neg (show ¬n.toInt < 10 ^ 18 by omega)]
    · rw [if_neg hq, if_pos (show n.toInt < 10 ^ 18 by omega)]
      -- the value read is `n` itself
      have hatoi := toInt_localeIndependentAtoi (decimal_isDigit (n.toInt.toNat / 10 ^ 8))
        (by have := (length_decimal_le_iff (k := 10) (by norm_num) (n.toInt.toNat / 10 ^ 8)).mpr (by omega); omega)
      rw [decimalValue_decimal] at hatoi
      have hu : (10 : Int) ^ (8 - g.length) * (decimalValue g : Int) = n.toInt % 10 ^ 8 := by
        have h := congrArg (Nat.cast : Nat → Int) hgval
        push_cast at h
        rw [h]
        omega
      have hvalue : localeIndependentAtoi (decimal (n.toInt.toNat / 10 ^ 8)) * COIN +
          Int64.ofInt ((10 : Int) ^ (8 - g.length) * (decimalValue g : Int)) = n := by
        apply Int64.toInt_inj.mp
        rw [toInt_value (by rw [hatoi]; positivity) (by rw [hatoi]; omega) (by positivity) (by rw [hu]; omega), hatoi,
          hu]
        omega
      dsimp only
      rw [hvalue, if_pos hn]
  refine ⟨hround, fun s n h => ?_⟩
  obtain ⟨hrange, hlt⟩ := parseMoney_eq_some h
  rw [hround n hrange, if_pos hlt]

/-- `MAX_MONEY` is formatted as `"92233720368.54775807"`, which has eleven integer digits and is
refused; `" 1.5\n"` parses to `150000000`, which then round-trips. -/
theorem parseMoney_formatMoney_max :
    parseMoney (formatMoney MAX_MONEY) = none ∧ parseMoney (formatMoney 150000000) = some 150000000 :=
  ⟨(parseMoney_formatMoney.1 MAX_MONEY (by decide)).trans (if_neg (by decide)),
    parseMoney_formatMoney.2 (" 1.5\n".toList.map (·.toNat.toUInt8)) 150000000 (by decide)⟩

example : formatMoney 150000000 = "1.50".toList.map (·.toNat.toUInt8) := by decide +kernel
example : formatMoney MAX_MONEY = "92233720368.54775807".toList.map (·.toNat.toUInt8) := by decide +kernel

end RoundTrip

end BlackcoinMore.MoneyStr
