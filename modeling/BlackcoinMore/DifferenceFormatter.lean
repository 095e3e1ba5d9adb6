import BlackcoinMore.SerializeRoundTrip

/-! The indexes of a `BlockTransactionsRequest` (`blockencodings.h`), written through
`VectorFormatter<DifferenceFormatter>`: each `uint16_t` index as a CompactSize, its distance
from one past the index before it. What the encoding means is `decodeDifferences`, the running
sums of the distances; the formatter's two directions are stated against it. -/
namespace BlackcoinMore.DifferenceFormatter
open Primitives ByteCodec Serialize

/-- `std::numeric_limits<uint64_t>::max()`. -/
def UINT64_MAX : Nat := 2 ^ 64 - 1

/-- `std::numeric_limits<uint16_t>::min()` and `max()`. -/
def UINT16_MIN : Nat := 0
def UINT16_MAX : Nat := 65535

def overflow : String := "differential value overflow"

/-! ### The meaning of the encoding -/

/-- The values the distances `ds` denote from the shift `m_shift`: each is the shift plus its
distance, and the next shift is one past it. -/
def decodeDifferences : Nat → List Nat → List Nat
  | _, [] => []
  | m_shift, d :: ds => (m_shift + d) :: decodeDifferences (m_shift + d + 1) ds

/-- The distances of the values `vs` from the shift `m_shift`. -/
def encodeDifferences : Nat → List Nat → List Nat
  | _, [] => []
  | m_shift, v :: vs => (v - m_shift) :: encodeDifferences (v + 1) vs

/-- The values from the shift `m_shift` on, in strictly increasing order. -/
def Ascending : Nat → List Nat → Prop
  | _, [] => True
  | m_shift, v :: vs => m_shift ≤ v ∧ Ascending (v + 1) vs

instance decidableAscending : (m_shift : Nat) → (vs : List Nat) → Decidable (Ascending m_shift vs)
  | _, [] => inferInstanceAs (Decidable True)
  | m_shift, v :: vs =>
    haveI := decidableAscending (v + 1) vs
    inferInstanceAs (Decidable (m_shift ≤ v ∧ Ascending (v + 1) vs))

theorem ascending_iff : ∀ (m_shift : Nat) (vs : List Nat),
    Ascending m_shift vs ↔ (∀ v ∈ vs, m_shift ≤ v) ∧ vs.Pairwise (· < ·)
  | _, [] => by simp [Ascending]
  | m_shift, v :: vs => by
    rw [Ascending, ascending_iff (v + 1) vs, List.pairwise_cons, List.forall_mem_cons]
    constructor
    · rintro ⟨hv, hge, hpw⟩
      exact ⟨⟨hv, fun w hw => by have := hge w hw; omega⟩, fun w hw => hge w hw, hpw⟩
    · rintro ⟨⟨hv, -⟩, hlt, hpw⟩
      exact ⟨hv, fun w hw => hlt w hw, hpw⟩

theorem ascending_decodeDifferences : ∀ (m_shift : Nat) (ds : List Nat),
    Ascending m_shift (decodeDifferences m_shift ds)
  | _, [] => trivial
  | m_shift, d :: ds => ⟨by omega, ascending_decodeDifferences (m_shift + d + 1) ds⟩

/-- Ascending values are the running sums of their distances. -/
theorem decodeDifferences_encodeDifferences : ∀ {m_shift : Nat} {vs : List Nat},
    Ascending m_shift vs → decodeDifferences m_shift (encodeDifferences m_shift vs) = vs
  | _, [], _ => rfl
  | m_shift, v :: vs, ⟨hv, hvs⟩ => by
    rw [encodeDifferences, decodeDifferences, Nat.add_sub_cancel' hv, decodeDifferences_encodeDifferences hvs]

theorem length_decodeDifferences : ∀ (m_shift : Nat) (ds : List Nat),
    (decodeDifferences m_shift ds).length = ds.length
  | _, [] => rfl
  | m_shift, d :: ds => by simp [decodeDifferences, length_decodeDifferences _ ds]

theorem length_encodeDifferences : ∀ (m_shift : Nat) (vs : List Nat),
    (encodeDifferences m_shift vs).length = vs.length
  | _, [] => rfl
  | m_shift, v :: vs => by simp [encodeDifferences, length_encodeDifferences _ vs]

/-- A distance is at most the value it leads to. -/
theorem encodeDifferences_le {bound : Nat} : ∀ (m_shift : Nat) (vs : List Nat), (∀ v ∈ vs, v ≤ bound) →
    ∀ d ∈ encodeDifferences m_shift vs, d ≤ bound
  | _, [], _ => by simp [encodeDifferences]
  | m_shift, v :: vs, h => by
    simp only [encodeDifferences, List.mem_cons, forall_eq_or_imp]
    exact ⟨by have := h v (by simp); omega,
      encodeDifferences_le (v + 1) vs (fun w hw => h w (by simp [hw]))⟩

/-! ### `DifferenceFormatter` -/

/-- `DifferenceFormatter::Ser(s, v)` from the shift `m_shift`: the bytes written and the new
shift. -/
def ser (m_shift : Nat) (v : UInt16) : Except String (Bytes × Nat) :=
  if v.toNat < m_shift || UINT64_MAX ≤ v.toNat then throw overflow
  else pure (writeCompactSize (v.toNat - m_shift), v.toNat + 1)

/-- `DifferenceFormatter::Unser(s, v)` for a `uint16_t`, from the shift `m_shift`: the index
read and the new shift. The shift is a `uint64_t`, so the sum wraps. -/
def unser (m_shift : Nat) : Reader (UInt16 × Nat) := do
  let n ← readCompactSize
  let m_shift := (m_shift + n) % 2 ^ 64
  if m_shift < n || UINT64_MAX ≤ m_shift || m_shift < UINT16_MIN || UINT16_MAX < m_shift then
    throw overflow
  else pure (m_shift.toUInt16, m_shift + 1)

/-- The element loop of `VectorFormatter<DifferenceFormatter>::Ser`, with the formatter's
shift carried from one element to the next. -/
def vectorSer : Nat → List UInt16 → Except String Bytes
  | _, [] => pure []
  | m_shift, v :: vs => do
    let (bytes, m_shift) ← ser m_shift v
    let rest ← vectorSer m_shift vs
    pure (bytes ++ rest)

/-- The element loop of `VectorFormatter<DifferenceFormatter>::Unser`, for `size` elements. The
source reserves room in batches of `MAX_VECTOR_ALLOCATE` bytes; the elements read are the same. -/
def vectorUnser : Nat → Nat → Reader (List UInt16)
  | 0, _ => pure []
  | size + 1, m_shift => do
    let (v, m_shift) ← unser m_shift
    let vs ← vectorUnser size m_shift
    pure (v :: vs)

/-- `Using<VectorFormatter<DifferenceFormatter>>(indexes)` written: the count, then the indexes
with a fresh formatter. -/
def serializeIndexes (indexes : List UInt16) : Except String Bytes := do
  let body ← vectorSer 0 indexes
  pure (writeCompactSize indexes.length ++ body)

def unserializeIndexes : Reader (List UInt16) := do
  let size ← readCompactSize
  vectorUnser size 0

/-- The `j`-th of the distances `ds` read from the shift `m_shift` passes both checks: the range
check of `ReadCompactSize` and the formatter's `uint16_t` bound on the running sum. -/
def DistanceOk (m_shift : Nat) (ds : List Nat) (j : Nat) : Prop :=
  ds.getD j 0 ≤ MAX_SIZE ∧ (decodeDifferences m_shift ds).getD j 0 ≤ UINT16_MAX

instance (m_shift : Nat) (ds : List Nat) (j : Nat) : Decidable (DistanceOk m_shift ds j) :=
  inferInstanceAs (Decidable (_ ∧ _))

/-! ### The two directions -/

theorem ser_of_le {m_shift : Nat} {v : UInt16} (h : m_shift ≤ v.toNat) :
    ser m_shift v = .ok (writeCompactSize (v.toNat - m_shift), v.toNat + 1) := by
  have hv := v.toNat_lt
  have hok : ¬(decide (v.toNat < m_shift) || decide (UINT64_MAX ≤ v.toNat)) = true := by
    simp only [Bool.or_eq_true, decide_eq_true_eq]
    unfold UINT64_MAX
    omega
  rw [ser, if_neg hok]
  rfl

theorem ser_of_lt {m_shift : Nat} {v : UInt16} (h : v.toNat < m_shift) : ser m_shift v = .error overflow := by
  rw [ser, if_pos (by simp [h])]
  rfl

theorem vectorSer_of_ascending : ∀ {m_shift : Nat} {vs : List UInt16},
    Ascending m_shift (vs.map (·.toNat)) →
    vectorSer m_shift vs = .ok ((encodeDifferences m_shift (vs.map (·.toNat))).map writeCompactSize).flatten
  | _, [], _ => rfl
  | m_shift, v :: vs, ⟨hv, hvs⟩ => by
    rw [vectorSer, ser_of_le hv]
    simp only [bind, Except.bind]
    rw [vectorSer_of_ascending hvs]
    rfl

theorem vectorSer_of_not_ascending : ∀ {m_shift : Nat} {vs : List UInt16},
    ¬Ascending m_shift (vs.map (·.toNat)) → vectorSer m_shift vs = .error overflow
  | _, [], h => absurd trivial h
  | m_shift, v :: vs, h => by
    by_cases hv : m_shift ≤ v.toNat
    · have hvs : ¬Ascending (v.toNat + 1) (vs.map (·.toNat)) := fun hvs => h ⟨hv, hvs⟩
      rw [vectorSer, ser_of_le hv]
      simp only [bind, Except.bind]
      rw [vectorSer_of_not_ascending hvs]
    · rw [vectorSer, ser_of_lt (by omega)]
      rfl

theorem unser_eq {m_shift d : Nat} (hd : d ≤ MAX_SIZE) (hm : m_shift ≤ UINT16_MAX + 1) (rest : Bytes) :
    unser m_shift (writeCompactSize d ++ rest) =
      if m_shift + d ≤ UINT16_MAX then .ok (((m_shift + d).toUInt16, m_shift + d + 1), rest)
      else .error overflow := by
  have hfit : (m_shift + d) % 2 ^ 64 = m_shift + d := Nat.mod_eq_of_lt (by unfold MAX_SIZE at hd; unfold UINT16_MAX at hm; omega)
  unfold unser
  rw [bind_of_ok (readCompactSize_ser hd rest)]
  simp only [hfit]
  by_cases hs : m_shift + d ≤ UINT16_MAX
  · have hok : ¬(decide (m_shift + d < d) || decide (UINT64_MAX ≤ m_shift + d) ||
        decide (m_shift + d < UINT16_MIN) || decide (UINT16_MAX < m_shift + d)) = true := by
      simp only [Bool.or_eq_true, decide_eq_true_eq]
      unfold UINT64_MAX UINT16_MIN UINT16_MAX at *
      omega
    rw [if_neg hok, if_pos hs]
    rfl
  · have hbad : (decide (m_shift + d < d) || decide (UINT64_MAX ≤ m_shift + d) ||
        decide (m_shift + d < UINT16_MIN) || decide (UINT16_MAX < m_shift + d)) = true := by
      simp only [Bool.or_eq_true, decide_eq_true_eq]
      exact Or.inr (Nat.lt_of_not_le hs)
    rw [if_pos hbad, if_neg hs]
    rfl

/-- Reading a count of distances, each within `MAX_SIZE`: the running sums when they all fit a
`uint16_t`, an overflow at the first that does not. -/
theorem vectorUnser_flatten : ∀ (ds : List Nat) {m_shift : Nat}, m_shift ≤ UINT16_MAX + 1 →
    (∀ d ∈ ds, d ≤ MAX_SIZE) → ∀ rest : Bytes,
    vectorUnser ds.length m_shift ((ds.map writeCompactSize).flatten ++ rest) =
      if ∀ v ∈ decodeDifferences m_shift ds, v ≤ UINT16_MAX then
        .ok ((decodeDifferences m_shift ds).map Nat.toUInt16, rest)
      else .error overflow
  | [], _, _, _, rest => by simp [decodeDifferences]; rfl
  | d :: ds, m_shift, hm, hds, rest => by
    have hd := hds d (by simp)
    simp only [List.length_cons, List.map_cons, List.flatten_cons, List.append_assoc, vectorUnser]
    have hstep := unser_eq hd hm ((ds.map writeCompactSize).flatten ++ rest)
    simp only [decodeDifferences, List.forall_mem_cons, List.map_cons]
    by_cases hs : m_shift + d ≤ UINT16_MAX
    · rw [if_pos hs] at hstep
      rw [bind_of_ok hstep]
      dsimp only
      have ih := @vectorUnser_flatten ds (m_shift + d + 1) (by omega)
        (fun d' h => hds d' (by simp [h])) rest
      by_cases hall : ∀ v ∈ decodeDifferences (m_shift + d + 1) ds, v ≤ UINT16_MAX
      · rw [if_pos hall] at ih
        rw [bind_of_ok ih, if_pos ⟨hs, hall⟩]
        rfl
      · rw [if_neg hall] at ih
        rw [bind_of_error ih, if_neg (fun h => hall h.2)]
    · rw [if_neg hs] at hstep
      rw [bind_of_error hstep, if_neg (fun h => hs h.1)]

/-- Ascending `uint16_t` indexes from the shift `m_shift` number at most the values left. -/
theorem length_le_of_ascending : ∀ {m_shift : Nat} {vs : List UInt16},
    Ascending m_shift (vs.map (·.toNat)) → vs.length ≤ UINT16_MAX + 1 - m_shift
  | _, [], _ => by simp
  | m_shift, v :: vs, ⟨hv, hvs⟩ => by
    have hlt := v.toNat_lt
    have ih := length_le_of_ascending hvs
    beta_reduce at hv ih
    rw [List.length_cons]
    unfold UINT16_MAX at ih ⊢
    omega

theorem ascending_zero_iff (indexes : List UInt16) :
    Ascending 0 (indexes.map (·.toNat)) ↔ indexes.Pairwise (· < ·) := by
  rw [ascending_iff, List.pairwise_map]
  simp [UInt16.lt_iff_toNat_lt]

theorem serializeIndexes_of_pairwise {indexes : List UInt16} (h : indexes.Pairwise (· < ·)) :
    serializeIndexes indexes = .ok (writeCompactSize indexes.length ++
      ((encodeDifferences 0 (indexes.map (·.toNat))).map writeCompactSize).flatten) := by
  rw [serializeIndexes, vectorSer_of_ascending ((ascending_zero_iff indexes).mpr h)]
  rfl

theorem serializeIndexes_of_not_pairwise {indexes : List UInt16} (h : ¬indexes.Pairwise (· < ·)) :
    serializeIndexes indexes = .error overflow := by
  rw [serializeIndexes, vectorSer_of_not_ascending (fun ha => h ((ascending_zero_iff indexes).mp ha))]
  rfl

/-- A count and distances within `MAX_SIZE` read as the running sums of the distances, or as an
overflow when one of the sums passes the `uint16_t` limit. -/
theorem unserializeIndexes_flatten (ds : List Nat) (hlen : ds.length ≤ MAX_SIZE)
    (hds : ∀ d ∈ ds, d ≤ MAX_SIZE) (rest : Bytes) :
    unserializeIndexes (writeCompactSize ds.length ++ (ds.map writeCompactSize).flatten ++ rest) =
      if ∀ v ∈ decodeDifferences 0 ds, v ≤ UINT16_MAX then
        .ok ((decodeDifferences 0 ds).map Nat.toUInt16, rest)
      else .error overflow := by
  rw [unserializeIndexes, List.append_assoc, bind_of_ok (readCompactSize_ser hlen _)]
  exact vectorUnser_flatten ds (by unfold UINT16_MAX; omega) hds rest

/-- Values that fit a `uint16_t` survive the round trip through it. -/
theorem map_toNat_toUInt16 {vs : List Nat} (h : ∀ v ∈ vs, v ≤ UINT16_MAX) :
    (vs.map Nat.toUInt16).map (·.toNat) = vs := by
  rw [List.map_map]
  conv => rhs; rw [← List.map_id vs]
  refine List.map_congr_left fun v hv => ?_
  have := h v hv
  unfold UINT16_MAX at this
  simp only [Function.comp_apply, id]
  exact UInt16.toNat_ofNat_of_lt' (Nat.lt_of_le_of_lt this (by decide))

/-- A distance above `MAX_SIZE` is refused by the range check of `ReadCompactSize` before the
formatter sees it. -/
theorem unser_of_large {m_shift d : Nat} (hd : MAX_SIZE < d) (hd64 : d < 2 ^ 64) (rest : Bytes) :
    unser m_shift (writeCompactSize d ++ rest) = .error "ReadCompactSize(): size too large" := by
  have h := readCompactSize_writeCompactSize_eq true hd64 rest
  rw [if_pos (by simpa using hd)] at h
  exact bind_of_error h

theorem distanceOk_zero {m_shift d : Nat} {ds : List Nat} :
    DistanceOk m_shift (d :: ds) 0 ↔ d ≤ MAX_SIZE ∧ m_shift + d ≤ UINT16_MAX := by
  simp [DistanceOk, decodeDifferences]

theorem distanceOk_succ {m_shift d j : Nat} {ds : List Nat} :
    DistanceOk m_shift (d :: ds) (j + 1) ↔ DistanceOk (m_shift + d + 1) ds j := by
  simp [DistanceOk, decodeDifferences]

/-- Reading stops at the first distance that fails a check: past `MAX_SIZE` it is refused by
`ReadCompactSize` before the formatter sees it, otherwise its running sum is past `uint16_t`. -/
theorem vectorUnser_first_failure : ∀ (ds : List Nat) {m_shift : Nat} (k : Nat), m_shift ≤ UINT16_MAX + 1 →
    (∀ d ∈ ds, d < 2 ^ 64) → k < ds.length → (∀ j < k, DistanceOk m_shift ds j) → ¬DistanceOk m_shift ds k →
    ∀ rest : Bytes, vectorUnser ds.length m_shift ((ds.map writeCompactSize).flatten ++ rest) =
      .error (if MAX_SIZE < ds.getD k 0 then "ReadCompactSize(): size too large" else overflow)
  | [], _, _, _, _, hk, _, _, _ => absurd hk (Nat.not_lt_zero _)
  | d :: ds, m_shift, 0, hm, h64, _, _, hbad, rest => by
    simp only [List.length_cons, List.map_cons, List.flatten_cons, List.append_assoc, vectorUnser,
      List.getD_cons_zero]
    by_cases hd : MAX_SIZE < d
    · rw [bind_of_error (unser_of_large hd (h64 d List.mem_cons_self) _), if_pos hd]
    · -- the distance is read, and the sum it makes is past `uint16_t`
      have hs : ¬m_shift + d ≤ UINT16_MAX := fun hs => hbad (distanceOk_zero.mpr ⟨Nat.le_of_not_lt hd, hs⟩)
      have hstep := unser_eq (Nat.le_of_not_lt hd) hm ((ds.map writeCompactSize).flatten ++ rest)
      rw [if_neg hs] at hstep
      rw [bind_of_error hstep, if_neg hd]
  | d :: ds, m_shift, k + 1, hm, h64, hk, hpre, hbad, rest => by
    obtain ⟨hd, hs⟩ := distanceOk_zero.mp (hpre 0 (Nat.succ_pos k))
    simp only [List.length_cons, List.map_cons, List.flatten_cons, List.append_assoc, vectorUnser,
      List.getD_cons_succ]
    have hstep := unser_eq hd hm ((ds.map writeCompactSize).flatten ++ rest)
    rw [if_pos hs] at hstep
    rw [bind_of_ok hstep]
    dsimp only
    rw [bind_of_error (vectorUnser_first_failure ds k (by omega) (fun d' h => h64 d' (List.mem_cons_of_mem _ h))
      (by simpa using hk) (fun j hj => distanceOk_succ.mp (hpre (j + 1) (by omega)))
      (fun h => hbad (distanceOk_succ.mpr h)) rest)]

/-- Distances that all pass their checks are each within `MAX_SIZE`, with running sums that fit a
`uint16_t`. -/
theorem forall_mem_of_distanceOk {ds : List Nat} (h : ∀ j < ds.length, DistanceOk 0 ds j) :
    (∀ d ∈ ds, d ≤ MAX_SIZE) ∧ ∀ v ∈ decodeDifferences 0 ds, v ≤ UINT16_MAX := by
  constructor
  · intro d hd
    obtain ⟨j, hj, rfl⟩ := List.getElem_of_mem hd
    have hle := (h j hj).1
    rwa [List.getD_eq_getElem _ _ hj] at hle
  · intro v hv
    obtain ⟨j, hj, rfl⟩ := List.getElem_of_mem hv
    have hle := (h j (length_decodeDifferences 0 ds ▸ hj)).2
    rwa [List.getD_eq_getElem _ _ hj] at hle

/-- One index at the distance `MAX_SIZE + 1`: not an overflow, a refused size. -/
theorem unserializeIndexes_size_too_large :
    unserializeIndexes [1, 0xfe, 0x01, 0x00, 0x00, 0x02] = .error "ReadCompactSize(): size too large" := by
  decide

/-- Differential index encoding: strictly increasing indexes read back as written, and the
writer refuses exactly the indexes that are not strictly increasing. A count and its distances
read as follows: a count past `MAX_SIZE` is refused; otherwise the first distance that fails a
check decides, refused as too large past `MAX_SIZE` and as an overflow when its running sum
passes `uint16_t`; and when none fails they read as the strictly increasing running sums. -/
theorem differenceFormatter_indexes :
    (∀ indexes : List UInt16, indexes.Pairwise (· < ·) → ∃ bytes, serializeIndexes indexes = .ok bytes ∧
      ∀ rest, unserializeIndexes (bytes ++ rest) = .ok (indexes, rest)) ∧
    (∀ indexes : List UInt16, ¬indexes.Pairwise (· < ·) → serializeIndexes indexes = .error overflow) ∧
    (∀ (ds : List Nat) (rest : Bytes), ds.length < 2 ^ 64 → (∀ d ∈ ds, d < 2 ^ 64) →
      (MAX_SIZE < ds.length →
        unserializeIndexes (writeCompactSize ds.length ++ (ds.map writeCompactSize).flatten ++ rest) =
          .error "ReadCompactSize(): size too large") ∧
      (ds.length ≤ MAX_SIZE → ∀ k < ds.length, (∀ j < k, DistanceOk 0 ds j) → ¬DistanceOk 0 ds k →
        unserializeIndexes (writeCompactSize ds.length ++ (ds.map writeCompactSize).flatten ++ rest) =
          .error (if MAX_SIZE < ds.getD k 0 then "ReadCompactSize(): size too large" else overflow)) ∧
      (ds.length ≤ MAX_SIZE → (∀ j < ds.length, DistanceOk 0 ds j) →
        ∃ indexes : List UInt16,
          unserializeIndexes (writeCompactSize ds.length ++ (ds.map writeCompactSize).flatten ++ rest) =
            .ok (indexes, rest) ∧ indexes.Pairwise (· < ·) ∧ indexes.map (·.toNat) = decodeDifferences 0 ds)) := by
  refine ⟨fun indexes h => ?_, fun _ h => serializeIndexes_of_not_pairwise h,
    fun ds rest hlen64 h64 => ⟨fun hlarge => ?_, fun hlen k hk hpre hbad => ?_, fun hlen hall => ?_⟩⟩
  · -- the writer's distances are within `MAX_SIZE` and decode back to the indexes
    have hasc := (ascending_zero_iff indexes).mpr h
    have hfit : ∀ v ∈ indexes.map (·.toNat), v ≤ UINT16_MAX := by
      intro v hv
      obtain ⟨i, -, rfl⟩ := List.mem_map.mp hv
      have := i.toNat_lt
      unfold UINT16_MAX
      omega
    have hlen : (encodeDifferences 0 (indexes.map (·.toNat))).length = indexes.length := by
      rw [length_encodeDifferences, List.length_map]
    have hcount : indexes.length ≤ MAX_SIZE := by
      have := length_le_of_ascending hasc
      unfold UINT16_MAX at this
      unfold MAX_SIZE
      omega
    have hds : ∀ d ∈ encodeDifferences 0 (indexes.map (·.toNat)), d ≤ MAX_SIZE := fun d hd => by
      have := encodeDifferences_le 0 _ hfit d hd
      unfold UINT16_MAX at this
      unfold MAX_SIZE
      omega
    refine ⟨_, serializeIndexes_of_pairwise h, fun rest => ?_⟩
    rw [← hlen, unserializeIndexes_flatten _ (hlen ▸ hcount) hds, decodeDifferences_encodeDifferences hasc,
      if_pos hfit]
    simp [Function.comp_def, Nat.toUInt16]
  · -- the count itself is refused
    have h := readCompactSize_writeCompactSize_eq true hlen64 ((ds.map writeCompactSize).flatten ++ rest)
    rw [if_pos (by simpa using hlarge)] at h
    rw [unserializeIndexes, List.append_assoc]
    exact bind_of_error h
  · rw [unserializeIndexes, List.append_assoc, bind_of_ok (readCompactSize_ser hlen _)]
    exact vectorUnser_first_failure ds k (by unfold UINT16_MAX; omega) h64 hk hpre hbad rest
  · obtain ⟨hds, hfit⟩ := forall_mem_of_distanceOk hall
    rw [unserializeIndexes_flatten ds hlen hds rest, if_pos hfit]
    refine ⟨_, rfl, ?_, map_toNat_toUInt16 hfit⟩
    rw [← ascending_zero_iff, map_toNat_toUInt16 hfit]
    exact ascending_decodeDifferences 0 ds

/-- Indexes `3, 4, 10` go out as the distances `3, 0, 5`; `4, 4` are refused; and the distances
`65536, MAX_SIZE + 1` fail at the first, whose running sum passes `uint16_t`, before the second
is read. -/
theorem differenceFormatter_indexes_three :
    serializeIndexes [3, 4, 10] = .ok [3, 3, 0, 5] ∧ unserializeIndexes [3, 3, 0, 5] = .ok ([3, 4, 10], []) ∧
      serializeIndexes [4, 4] = .error overflow ∧
      unserializeIndexes (writeCompactSize 2 ++ ([65536, MAX_SIZE + 1].map writeCompactSize).flatten ++ []) =
        .error overflow := by
  obtain ⟨bytes, hser, hread⟩ := differenceFormatter_indexes.1 [3, 4, 10] (by decide)
  have hbytes : bytes = [3, 3, 0, 5] := by
    have hval : serializeIndexes [3, 4, 10] = .ok [3, 3, 0, 5] := by decide
    rw [hval] at hser
    exact (Except.ok.inj hser).symm
  subst hbytes
  have hfail := (differenceFormatter_indexes.2.2 [65536, MAX_SIZE + 1] [] (by decide)
    (by simp [MAX_SIZE])).2.1 (by decide) 0 (by decide) (fun j hj => absurd hj (Nat.not_lt_zero j))
    (by simp [DistanceOk, decodeDifferences, UINT16_MAX])
  refine ⟨hser, by simpa using hread [], differenceFormatter_indexes.2.1 [4, 4] (by decide), hfail.trans ?_⟩
  rw [if_neg (by simp [MAX_SIZE])]

end BlackcoinMore.DifferenceFormatter
