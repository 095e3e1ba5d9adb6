import BlackcoinMore.GolombRice
import BlackcoinMore.SerializeRoundTrip

/-! `GCSFilter` of `blockfilter.cpp`, the Golomb-coded set behind compact block filters. The
elements are hashed into `[0, F)` and sorted, and the differences of consecutive hashes are
Golomb-Rice coded after the count `N`. `MatchInternal` decodes the hashes in order and walks a
sorted list of query hashes beside them. `CSipHasher` is a parameter, and an `ElementSet` (an
`unordered_set`) is a list in whatever order the set iterates. -/

namespace BlackcoinMore.BlockFilter
open Primitives Serialize BitList GolombRice

/-- `CSipHasher(k0, k1).Write(element).Finalize()`. -/
abbrev SipHash := UInt64 → UInt64 → Bytes → UInt64

abbrev Element := Bytes

structure Params where
  m_siphash_k0 : UInt64
  m_siphash_k1 : UInt64
  m_P : UInt8
  m_M : UInt32
  deriving DecidableEq, Repr

structure GCSFilter where
  m_params : Params
  m_N : UInt32
  m_F : UInt64
  m_encoded : Bytes
  deriving DecidableEq, Repr

/-- `FastRange64(x, n)`: the high half of the 128-bit product. -/
def fastRange64 (x n : UInt64) : UInt64 := (x.toNat * n.toNat / 2 ^ 64).toUInt64

/-- The loop of `GCSFilter(params, elements)`: each hash coded as its distance from the last. -/
def encodeDeltas (P : UInt8) : BitStreamWriter → UInt64 → List UInt64 → Except String BitStreamWriter
  | w, _, [] => .ok w
  | w, last_value, value :: values => do
    let w ← golombRiceEncode w P (value - last_value)
    encodeDeltas P w value values

/-- The decode check of `GCSFilter(params, encoded_filter, false)`: `n` codes read and dropped. -/
def decodeN (P : UInt8) : Nat → BitStreamReader → Except String BitStreamReader
  | 0, r => .ok r
  | n + 1, r => do
    let (_, r) ← golombRiceDecode r P
    decodeN P n r

/-- The inner `while (true)` of `MatchInternal` at one decoded `value`: `.inl b` where it
returns `b`, and `.inr` with the queries left where it breaks. -/
def matchScan (value : UInt64) : List UInt64 → Bool ⊕ List UInt64
  | [] => .inl false
  | h :: hashes =>
    if h = value then .inl true
    else if h > value then .inr (h :: hashes)
    else matchScan value hashes

/-- The loop of `MatchInternal` over the `n` codes still to read; the index into the queries is
the list of those not yet passed. -/
def matchLoop (P : UInt8) : Nat → BitStreamReader → UInt64 → List UInt64 → Except String Bool
  | 0, _, _, _ => .ok false
  | n + 1, r, value, hashes => do
    let (delta, r) ← golombRiceDecode r P
    let value := value + delta
    match matchScan value hashes with
    | .inl b => .ok b
    | .inr hashes => matchLoop P n r value hashes

def assertN : String := "assertion N == m_N failed"

namespace GCSFilter

section Hashing
variable (siphash : SipHash)

def hashToRange (F : GCSFilter) (element : Element) : UInt64 :=
  fastRange64 (siphash F.m_params.m_siphash_k0 F.m_params.m_siphash_k1 element) F.m_F

def buildHashedSet (F : GCSFilter) (elements : List Element) : List UInt64 :=
  (elements.map (F.hashToRange siphash)).insertionSort (· ≤ ·)

/-- `GCSFilter(params)`. -/
def empty (params : Params) : GCSFilter := ⟨params, 0, 0, [0]⟩

/-- `GCSFilter(params, elements)`. -/
def ofElements (params : Params) (elements : List Element) : Except String GCSFilter :=
  let N := elements.length
  let m_N := N.toUInt32
  if m_N.toNat ≠ N then .error "N must be <2^32" else
  let m_F := m_N.toUInt64 * params.m_M.toUInt64
  -- `HashToRange` reads only the parameters and `m_F`, both set before the hashes are built
  let F : GCSFilter := ⟨params, m_N, m_F, writeCompactSize m_N.toNat⟩
  if elements.isEmpty then .ok F else do
    let w ← encodeDeltas params.m_P (BitStreamWriter.make F.m_encoded) 0 (F.buildHashedSet siphash elements)
    pure { F with m_encoded := w.flush.m_ostream }

end Hashing

/-- `GCSFilter(params, encoded_filter, skip_decode_check)`. -/
def ofEncoded (params : Params) (encoded_filter : Bytes) (skip_decode_check : Bool) : Except String GCSFilter := do
  let (N, stream) ← readCompactSize true encoded_filter
  let m_N := N.toUInt32
  if m_N.toNat ≠ N then throw "N must be <2^32"
  let F : GCSFilter := ⟨params, m_N, m_N.toUInt64 * params.m_M.toUInt64, encoded_filter⟩
  if skip_decode_check then return F
  let r ← decodeN params.m_P m_N.toNat (BitStreamReader.make stream)
  if r.m_istream ≠ [] then throw "encoded_filter contains excess data"
  return F

/-- `MatchInternal(element_hashes, size)`, for sorted `element_hashes`. -/
def matchInternal (F : GCSFilter) (element_hashes : List UInt64) : Except String Bool := do
  let (N, stream) ← readCompactSize true F.m_encoded
  if N ≠ F.m_N.toNat then throw assertN
  matchLoop F.m_params.m_P F.m_N.toNat (BitStreamReader.make stream) 0 element_hashes

section Queries
variable (siphash : SipHash)

def «match» (F : GCSFilter) (element : Element) : Except String Bool :=
  F.matchInternal [F.hashToRange siphash element]

def matchAny (F : GCSFilter) (elements : List Element) : Except String Bool :=
  F.matchInternal (F.buildHashedSet siphash elements)

end Queries

end GCSFilter

/-! ## The merge of `MatchInternal`

Over the decoded hashes given as a list, `MatchInternal` is a merge of two sorted lists that
answers whether they meet. -/

section Merge

/-- `MatchInternal` with the decoded hashes given as the list `values`. -/
def mergeMatch : List UInt64 → List UInt64 → Bool
  | [], _ => false
  | value :: values, hashes =>
    match matchScan value hashes with
    | .inl b => b
    | .inr hashes => mergeMatch values hashes

/-- A query below `value` is none of the sorted values from `value` on. -/
theorem not_mem_of_lt {value q : UInt64} {values : List UInt64} (hv : ∀ y ∈ values, value ≤ y)
    (hlt : q < value) : q ∉ value :: values := by
  simp only [List.mem_cons, not_or]
  exact ⟨UInt64.ne_of_lt hlt, fun hmem => absurd (hv q hmem) (UInt64.not_le.mpr hlt)⟩

theorem exists_mem_cons_of_not_mem {α : Type} {q : α} {hashes V : List α} (hq : q ∉ V) :
    (∃ x ∈ q :: hashes, x ∈ V) ↔ ∃ x ∈ hashes, x ∈ V := by
  simp [hq]

/-- A scan that returns has passed only queries below `value`, which no later value reaches. -/
theorem matchScan_inl {value : UInt64} {values : List UInt64} (hv : ∀ y ∈ values, value ≤ y) :
    ∀ {hashes : List UInt64} {b : Bool}, matchScan value hashes = .inl b →
      (b = true ↔ ∃ q ∈ hashes, q ∈ value :: values)
  | [], b, h => by
    rw [matchScan, Sum.inl.injEq] at h
    subst h
    simp
  | q :: hashes, b, h => by
    rw [matchScan] at h
    split_ifs at h with hq hgt
    · rw [Sum.inl.injEq] at h
      subst h hq
      simp
    · have hlt : q < value := UInt64.lt_of_le_of_ne (UInt64.not_lt.mp hgt) hq
      rw [matchScan_inl hv h, exists_mem_cons_of_not_mem (not_mem_of_lt hv hlt)]

/-- A scan that breaks leaves the queries from the first one above `value`; the sorted queries
after it are above `value` too, so they meet the values from `value` on where they meet the
later ones. -/
theorem matchScan_inr {value : UInt64} {values : List UInt64} (hv : ∀ y ∈ values, value ≤ y) :
    ∀ {hashes rest : List UInt64}, hashes.Pairwise (· ≤ ·) → matchScan value hashes = .inr rest →
      rest.Pairwise (· ≤ ·) ∧ ((∃ q ∈ hashes, q ∈ value :: values) ↔ ∃ q ∈ rest, q ∈ values)
  | [], _, _, h => by
    rw [matchScan] at h
    cases h
  | q :: hashes, rest, hs, h => by
    rw [matchScan] at h
    split_ifs at h with hq hgt
    · rw [Sum.inr.injEq] at h
      subst h
      have habove : ∀ x ∈ q :: hashes, value < x := by
        intro x hx
        rcases List.mem_cons.mp hx with rfl | hx
        · exact hgt
        · exact UInt64.lt_of_lt_of_le hgt (List.rel_of_pairwise_cons hs hx)
      refine ⟨hs, exists_congr fun x => ⟨fun ⟨hx, hxv⟩ => ⟨hx, ?_⟩, fun ⟨hx, hxv⟩ => ⟨hx, List.mem_cons_of_mem _ hxv⟩⟩⟩
      rcases List.mem_cons.mp hxv with rfl | hxv
      · exact absurd (habove _ hx) (UInt64.lt_irrefl _)
      · exact hxv
    · have hlt : q < value := UInt64.lt_of_le_of_ne (UInt64.not_lt.mp hgt) hq
      obtain ⟨hrest, hiff⟩ := matchScan_inr hv (List.Pairwise.of_cons hs) h
      rw [exists_mem_cons_of_not_mem (not_mem_of_lt hv hlt)]
      exact ⟨hrest, hiff⟩

/-- The merge answers whether the sorted values and the sorted queries meet. -/
theorem mergeMatch_eq : ∀ {values hashes : List UInt64}, values.Pairwise (· ≤ ·) → hashes.Pairwise (· ≤ ·) →
    mergeMatch values hashes = decide (∃ q ∈ hashes, q ∈ values)
  | [], hashes, _, _ => by simp [mergeMatch]
  | value :: values, hashes, hvs, hh => by
    have hv : ∀ y ∈ values, value ≤ y := fun y hy => List.rel_of_pairwise_cons hvs hy
    rw [mergeMatch]
    cases hs : matchScan value hashes with
    | inl b =>
      have hiff := matchScan_inl hv hs
      cases b <;> simp_all
    | inr rest =>
      obtain ⟨hrest, hiff⟩ := matchScan_inr hv hh hs
      dsimp only
      rw [mergeMatch_eq (List.Pairwise.of_cons hvs) hrest]
      exact decide_eq_decide.mpr hiff.symm

end Merge

/-! ## The coded deltas -/

section Deltas
variable {P : UInt8} (hP : P.toNat < 64)
include hP

/-- The bits that code the sorted hashes `values` as distances, each from the one before,
starting from `last`. -/
def deltaBits (P : Nat) : UInt64 → List UInt64 → List Bool
  | _, [] => []
  | last, value :: values => riceBits P (value - last).toNat ++ deltaBits P value values

theorem encodeDeltas_bits : ∀ (values : List UInt64) (w : BitStreamWriter) (last : UInt64), w.Valid →
    ∃ w', encodeDeltas P w last values = .ok w' ∧ w'.Valid ∧ w'.toBits = w.toBits ++ deltaBits P.toNat last values
  | [], w, _, h => ⟨w, rfl, h, by simp [deltaBits]⟩
  | value :: values, w, last, h => by
    obtain ⟨w₁, hw₁, hv₁, hbits₁⟩ := golombRiceEncode_bits h hP (value - last)
    obtain ⟨w', hw', hv', hbits'⟩ := encodeDeltas_bits values w₁ value hv₁
    refine ⟨w', ?_, hv', ?_⟩
    · simp only [encodeDeltas, bind, Except.bind, hw₁, hw']
    · rw [hbits', hbits₁, deltaBits, List.append_assoc]

theorem decodeN_bits : ∀ (values : List UInt64) (r : BitStreamReader) (last : UInt64) (rest : List Bool), r.Valid →
    r.toBits = deltaBits P.toNat last values ++ rest →
    ∃ r', decodeN P values.length r = .ok r' ∧ r'.Valid ∧ r'.toBits = rest
  | [], r, _, _, h, hbits => ⟨r, rfl, h, by simpa [deltaBits] using hbits⟩
  | value :: values, r, last, rest, h, hbits => by
    rw [deltaBits, List.append_assoc] at hbits
    obtain ⟨r₁, hr₁, hv₁, hbits₁⟩ := golombRiceDecode_bits h hP (value - last) hbits
    obtain ⟨r', hr', hv', hbits'⟩ := decodeN_bits values r₁ value rest hv₁ hbits₁
    refine ⟨r', ?_, hv', hbits'⟩
    simp only [List.length_cons, decodeN, bind, Except.bind, hr₁, hr']

/-- The loop of `MatchInternal` over coded deltas is the merge over the hashes they code:
each decoded delta added to the running value gives back the next hash. -/
theorem matchLoop_eq : ∀ (values : List UInt64) (r : BitStreamReader) (value : UInt64) (hashes : List UInt64)
    (rest : List Bool), r.Valid → r.toBits = deltaBits P.toNat value values ++ rest →
    matchLoop P values.length r value hashes = .ok (mergeMatch values hashes)
  | [], _, _, _, _, _, _ => rfl
  | v :: values, r, value, hashes, rest, h, hbits => by
    rw [deltaBits, List.append_assoc] at hbits
    obtain ⟨r₁, hr₁, hv₁, hbits₁⟩ := golombRiceDecode_bits h hP (v - value) hbits
    rw [List.length_cons, matchLoop]
    simp only [bind, Except.bind, hr₁]
    rw [add_sub_cancel value v, mergeMatch]
    cases hs : matchScan v hashes with
    | inl b => rfl
    | inr hashes' => exact matchLoop_eq values r₁ v hashes' rest hv₁ hbits₁

end Deltas

/-! ## Filters built from elements -/

namespace GCSFilter

/-- What the encoding of a filter holds: the count, then the coded deltas of its sorted
hashes and less than a byte of zero padding. -/
structure Encodes (F : GCSFilter) (values : List UInt64) : Prop where
  range : F.m_F = F.m_N.toUInt64 * F.m_params.m_M.toUInt64
  length : values.length = F.m_N.toNat
  sorted : values.Pairwise (· ≤ ·)
  body : ∃ body k, F.m_encoded = writeCompactSize F.m_N.toNat ++ body ∧ k < 8 ∧
    bytesBits body = deltaBits F.m_params.m_P.toNat 0 values ++ List.replicate k false

theorem buildHashedSet_sorted (siphash : SipHash) (F : GCSFilter) (elements : List Element) :
    (F.buildHashedSet siphash elements).Pairwise (· ≤ ·) :=
  List.pairwise_insertionSort _ _

theorem mem_buildHashedSet (siphash : SipHash) (F : GCSFilter) (elements : List Element) (q : UInt64) :
    q ∈ F.buildHashedSet siphash elements ↔ ∃ s ∈ elements, F.hashToRange siphash s = q := by
  rw [buildHashedSet, (List.perm_insertionSort _ _).mem_iff, List.mem_map]

theorem ofElements_spec (siphash : SipHash) {params : Params} {elements : List Element}
    (hN : elements.length < 2 ^ 32) (hP : params.m_P.toNat < 64) :
    ∃ F, ofElements siphash params elements = .ok F ∧ F.m_params = params ∧ F.m_N.toNat = elements.length ∧
      F.Encodes (F.buildHashedSet siphash elements) := by
  have hNt : elements.length.toUInt32.toNat = elements.length := by simp; omega
  set F₀ : GCSFilter := ⟨params, elements.length.toUInt32, elements.length.toUInt32.toUInt64 * params.m_M.toUInt64,
    writeCompactSize elements.length.toUInt32.toNat⟩ with hF₀
  have hlen : (F₀.buildHashedSet siphash elements).length = F₀.m_N.toNat := by
    rw [buildHashedSet, List.length_insertionSort, List.length_map, hNt]
  by_cases he : elements.isEmpty
  · -- no elements: the count alone
    have hnil : elements = [] := List.isEmpty_iff.mp he
    refine ⟨F₀, ?_, rfl, hNt, rfl, hlen, buildHashedSet_sorted siphash F₀ elements, [], 0, by simp [hF₀], by decide, ?_⟩
    · simp only [ofElements]
      rw [if_neg (not_not.mpr hNt), if_pos he]
    · simp [hnil, buildHashedSet, deltaBits]
  · obtain ⟨w, hw, hv, hbits⟩ := encodeDeltas_bits hP (F₀.buildHashedSet siphash elements)
      (BitStreamWriter.make F₀.m_encoded) 0 (BitStreamWriter.valid_make _)
    have hflush := BitStreamWriter.bytesBits_flush hv
    rw [hbits, BitStreamWriter.toBits_make, List.append_assoc] at hflush
    obtain ⟨body, hbody, hbodybits⟩ := exists_of_bytesBits_eq_append hflush
    refine ⟨{ F₀ with m_encoded := w.flush.m_ostream }, ?_, rfl, hNt,
      ⟨rfl, hlen, buildHashedSet_sorted siphash F₀ elements, body, _, hbody, Nat.mod_lt _ (by decide), hbodybits⟩⟩
    simp only [hF₀] at hw
    simp only [ofElements]
    rw [if_neg (not_not.mpr hNt), if_neg he]
    simp only [bind, Except.bind, hw]
    rfl

/-- The decode check passes on such an encoding, and gives back the filter. -/
theorem ofEncoded_of_encodes {F : GCSFilter} {values : List UInt64} (hE : F.Encodes values)
    (hP : F.m_params.m_P.toNat < 64) (hmax : F.m_N.toNat ≤ MAX_SIZE) :
    ofEncoded F.m_params F.m_encoded false = .ok F := by
  obtain ⟨params, N, m_F, encoded⟩ := F
  obtain ⟨body, k, henc, hk, hbody⟩ := hE.body
  obtain ⟨r', hr', -, hbits'⟩ := decodeN_bits hP values (BitStreamReader.make body) 0 (List.replicate k false)
    (BitStreamReader.valid_make body) (by rw [BitStreamReader.toBits_make, hbody])
  -- less than a byte is left, so the stream itself is used up
  have hempty : r'.m_istream = [] := by
    have hl := congrArg List.length hbits'
    rw [BitStreamReader.length_toBits, List.length_replicate] at hl
    exact List.eq_nil_of_length_eq_zero (by omega)
  have hm : N.toNat.toUInt32 = N := by simp
  have hrange := hE.range
  have hlength := hE.length
  dsimp only at henc hrange hlength hr' hmax ⊢
  subst henc hrange
  rw [hlength] at hr'
  unfold ofEncoded
  rw [readCompactSize_writeCompactSize true (by have := N.toNat_lt; omega) (fun _ => hmax)]
  simp only [bind, Except.bind, hm]
  rw [if_neg (not_not.mpr rfl), if_neg Bool.false_ne_true, hr']
  dsimp only
  rw [if_neg (not_not.mpr hempty)]
  rfl

/-- `MatchInternal` on such an encoding answers whether the sorted queries meet the hashes. -/
theorem matchInternal_of_encodes {F : GCSFilter} {values : List UInt64} (hE : F.Encodes values)
    (hP : F.m_params.m_P.toNat < 64) (hmax : F.m_N.toNat ≤ MAX_SIZE) {hashes : List UInt64}
    (hh : hashes.Pairwise (· ≤ ·)) :
    F.matchInternal hashes = .ok (decide (∃ q ∈ hashes, q ∈ values)) := by
  obtain ⟨body, k, henc, hk, hbody⟩ := hE.body
  have hloop := matchLoop_eq hP values (BitStreamReader.make body) 0 hashes (List.replicate k false)
    (BitStreamReader.valid_make body) (by rw [BitStreamReader.toBits_make, hbody])
  rw [hE.length, mergeMatch_eq hE.sorted hh] at hloop
  unfold matchInternal
  rw [henc, readCompactSize_writeCompactSize true (by have := F.m_N.toNat_lt; omega) (fun _ => hmax)]
  simp only [bind, Except.bind]
  rw [if_neg (not_not.mpr rfl)]
  exact hloop

/-- Past `MAX_SIZE`, the count of an encoding fails the range check of `ReadCompactSize`. -/
theorem readCompactSize_of_encodes {F : GCSFilter} {values : List UInt64} (hE : F.Encodes values)
    (hmax : MAX_SIZE < F.m_N.toNat) :
    ∃ body, F.m_encoded = writeCompactSize F.m_N.toNat ++ body ∧
      readCompactSize true F.m_encoded = .error "ReadCompactSize(): size too large" := by
  obtain ⟨body, k, henc, -, -⟩ := hE.body
  refine ⟨body, henc, ?_⟩
  rw [henc, readCompactSize_writeCompactSize_eq true (by have := F.m_N.toNat_lt; omega) body]
  simp [hmax]

end GCSFilter

/-! ## Exact membership -/

/-- A hash to run the filter with: not SipHash, only something that spreads small inputs. -/
def toySipHash : SipHash := fun k0 _ e => k0 + e.foldl (fun a b => a * 257 + b.toUInt64) 0 * 0x9E3779B97F4A7C15

/-- The parameters of the `BASIC` filter type, with zero keys. -/
def basicParams : Params := ⟨0, 0, 19, 784931⟩

example : (GCSFilter.ofElements toySipHash basicParams [[1], [2, 3], [4]] >>= fun F =>
    F.matchAny toySipHash [[5], [4]]) = .ok true := by decide +kernel

end BlackcoinMore.BlockFilter
