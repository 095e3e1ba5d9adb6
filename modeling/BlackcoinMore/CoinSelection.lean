import Mathlib

/-! `wallet/coinselection.{h,cpp}`: output groups, selection results, and the single-random-draw
and knapsack solvers. A group is kept with the fields the solvers read; its `fee` and
`long_term_fee` are the sums `OutputGroup::Insert` accumulates over its coins. Amounts and weights
are exact integers: their `int64_t` and `int` sums leave the machine range only where the C++
behaviour is undefined. `FastRandomContext` is any `Rng`, and the results below hold for every
stream of numbers it draws. -/

namespace BlackcoinMore.CoinSelection

structure OutputGroup where
  m_value : Int
  effective_value : Int
  fee : Int
  long_term_fee : Int
  m_subtract_fee_outputs : Bool
  m_weight : Int
  deriving DecidableEq, Repr, Inhabited

/-- `GetSelectionAmount()`: the real value when the fee is subtracted from the outputs, the
effective value otherwise. -/
def OutputGroup.getSelectionAmount (g : OutputGroup) : Int :=
  if g.m_subtract_fee_outputs then g.m_value else g.effective_value

def CHANGE_LOWER : Int := 50000

inductive SelectionAlgorithm where
  | BNB
  | KNAPSACK
  | SRD
  | MANUAL
  deriving DecidableEq, Repr

/-- A `SelectionResult`; its set of coins is kept as the list of the groups added. -/
structure SelectionResult where
  m_selected_inputs : List OutputGroup
  m_target : Int
  m_algo : SelectionAlgorithm
  m_use_effective : Bool
  m_waste : Option Int
  m_weight : Int
  deriving DecidableEq, Repr

namespace SelectionResult

/-- `SelectionResult(target, algo)`. -/
def make (target : Int) (algo : SelectionAlgorithm) : SelectionResult := ⟨[], target, algo, false, none, 0⟩

def addInput (r : SelectionResult) (group : OutputGroup) : SelectionResult :=
  { r with
    m_selected_inputs := r.m_selected_inputs ++ [group]
    m_use_effective := !group.m_subtract_fee_outputs
    m_weight := r.m_weight + group.m_weight }

def clear (r : SelectionResult) : SelectionResult :=
  { r with m_selected_inputs := [], m_waste := none, m_weight := 0 }

def getWeight (r : SelectionResult) : Int := r.m_weight

/-- The selection amount of the groups selected. -/
def selectedAmount (r : SelectionResult) : Int := (r.m_selected_inputs.map OutputGroup.getSelectionAmount).sum

end SelectionResult

/-- `FastRandomContext` as the solvers use it: `randrange(n)` draws below `n`, `randbool()` a
bit. -/
structure Rng (σ : Type) where
  randrange : σ → Nat → Nat × σ
  randbool : σ → Bool × σ
  randrange_lt : ∀ s n, 0 < n → (randrange s n).1 < n

/-- A generator that always draws `0` and `false`. -/
def zeroRng : Rng Unit := ⟨fun s _ => (0, s), fun s => (false, s), fun _ _ h => h⟩

variable {σ α : Type}

/-- `Shuffle(first, last, rng)` with `n` places left: position `first` is swapped with the one
`randrange(last - first)` after it. -/
def shuffleN (rng : Rng σ) : Nat → List α → σ → List α × σ
  | 0, l, s => (l, s)
  | _ + 1, [], s => ([], s)
  | n + 1, x :: xs, s =>
    let (j, s) := rng.randrange s (xs.length + 1)
    if j = 0 then
      let (t, s) := shuffleN rng n xs s
      (x :: t, s)
    else
      let (t, s) := shuffleN rng n (xs.set (j - 1) x) s
      (xs.getD (j - 1) x :: t, s)

def shuffle (rng : Rng σ) (l : List α) (s : σ) : List α × σ := shuffleN rng l.length l s

/-! ### `SelectCoinsSRD` -/

def ErrorMaxWeightExceeded : String :=
  "The inputs size exceeds the maximum weight. Please try sending a smaller amount or manually consolidating your wallet's UTXOs"

/-- `heap.push(group)` into the `std::priority_queue` under `MinOutputGroupComparator`, whose top
has the least selection amount; the heap is kept as a list in ascending order. -/
def heapPush (heap : List OutputGroup) (group : OutputGroup) : List OutputGroup :=
  heap.orderedInsert (fun a b => a.getSelectionAmount ≤ b.getSelectionAmount) group

/-- `do { ... heap.pop(); } while (!heap.empty() && weight > max_weight);`: the least valuable
groups leave the heap. -/
def evict (max_weight : Int) : List OutputGroup → Int → Int → List OutputGroup × Int × Int
  | top :: heap, selected_eff_value, weight =>
    let selected_eff_value := selected_eff_value - top.getSelectionAmount
    let weight := weight - top.m_weight
    if heap ≠ [] ∧ weight > max_weight then evict max_weight heap selected_eff_value weight
    else (heap, selected_eff_value, weight)
  | [], selected_eff_value, weight => ([], selected_eff_value, weight)

/-- The loop of `SelectCoinsSRD` over the groups in shuffled order; it returns the heap. -/
def srdLoop (target_value max_weight : Int) :
    List OutputGroup → List OutputGroup → Int → Int → Bool → Except String (List OutputGroup)
  | [], _, _, _, max_tx_weight_exceeded => .error (if max_tx_weight_exceeded then ErrorMaxWeightExceeded else "")
  | group :: groups, heap, selected_eff_value, weight, max_tx_weight_exceeded =>
    let heap := heapPush heap group
    let selected_eff_value := selected_eff_value + group.getSelectionAmount
    let weight := weight + group.m_weight
    let (heap, selected_eff_value, weight, max_tx_weight_exceeded) :=
      if weight > max_weight then
        let (heap, selected_eff_value, weight) := evict max_weight heap selected_eff_value weight
        (heap, selected_eff_value, weight, true)
      else (heap, selected_eff_value, weight, max_tx_weight_exceeded)
    if selected_eff_value ≥ target_value then .ok heap
    else srdLoop target_value max_weight groups heap selected_eff_value weight max_tx_weight_exceeded

/-- `SelectCoinsSRD`; `Assume(group.GetSelectionAmount() > 0)` checks nothing in a release build. -/
def selectCoinsSRD (rng : Rng σ) (utxo_pool : List OutputGroup) (target_value change_fee : Int) (s : σ)
    (max_weight : Int) : Except String SelectionResult :=
  let result := SelectionResult.make target_value .SRD
  let target_value := target_value + CHANGE_LOWER + change_fee
  let indexes := (shuffle rng (List.range utxo_pool.length) s).1
  match srdLoop target_value max_weight (indexes.map (utxo_pool.getD · default)) [] 0 0 false with
  | .ok heap => .ok (heap.foldl SelectionResult.addInput result)
  | .error e => .error e

/-! ### `KnapsackSolver` -/

/-- The variables of `ApproximateBestSubset`, with the generator's state. -/
structure SubsetState (σ : Type) where
  vfIncluded : List Bool
  nTotal : Int
  fReachedTarget : Bool
  vfBest : List Bool
  nBest : Int
  rng : σ

/-- Index `i` of pass `nPass`: the first pass draws a bit, the second takes what is left out. -/
def subsetStep (rng : Rng σ) (groups : List OutputGroup) (nTargetValue : Int) (nPass : Nat)
    (st : SubsetState σ) (i : Nat) : SubsetState σ :=
  let (pick, s) := if nPass = 0 then rng.randbool st.rng else (!st.vfIncluded.getD i false, st.rng)
  if pick then
    let amount := (groups.getD i default).getSelectionAmount
    let nTotal := st.nTotal + amount
    let vfIncluded := st.vfIncluded.set i true
    if nTotal ≥ nTargetValue then
      -- a total between `nTargetValue` and `nBest` is the new best approximation
      let (nBest, vfBest) := if nTotal < st.nBest then (nTotal, vfIncluded) else (st.nBest, st.vfBest)
      ⟨vfIncluded.set i false, nTotal - amount, true, vfBest, nBest, s⟩
    else ⟨vfIncluded, nTotal, st.fReachedTarget, st.vfBest, st.nBest, s⟩
  else { st with rng := s }

/-- One repetition: `vfIncluded` cleared, then up to two passes until the target is reached. -/
def subsetRep (rng : Rng σ) (groups : List OutputGroup) (nTargetValue : Int) (st : SubsetState σ) :
    SubsetState σ :=
  [0, 1].foldl (fun st nPass =>
      if st.fReachedTarget then st else (List.range groups.length).foldl (subsetStep rng groups nTargetValue nPass) st)
    { st with vfIncluded := List.replicate groups.length false, nTotal := 0, fReachedTarget := false }

/-- `for (nRep = 0; nRep < iterations && nBest != nTargetValue; nRep++)`. -/
def subsetReps (rng : Rng σ) (groups : List OutputGroup) (nTargetValue : Int) : Nat → SubsetState σ → SubsetState σ
  | 0, st => st
  | k + 1, st => if st.nBest ≠ nTargetValue then subsetReps rng groups nTargetValue k (subsetRep rng groups nTargetValue st) else st

/-- `ApproximateBestSubset`: `vfBest`, `nBest` and the generator's state. The worst case "best"
approximation is all of the groups. -/
def approximateBestSubset (rng : Rng σ) (s : σ) (groups : List OutputGroup) (nTotalLower nTargetValue : Int)
    (iterations : Nat) : List Bool × Int × σ :=
  let st := subsetReps rng groups nTargetValue iterations
    ⟨[], 0, false, List.replicate groups.length true, nTotalLower, s⟩
  (st.vfBest, st.nBest, st.rng)

/-- The scan of `KnapsackSolver`: a group of exactly `nTargetValue` is returned at once; the rest
go to `applicable_groups` below `nTargetValue + change_target`, or are candidates for
`lowest_larger`. -/
def knapsackScan (nTargetValue change_target : Int) :
    List OutputGroup → Option OutputGroup → List OutputGroup → Int →
      OutputGroup ⊕ (Option OutputGroup × List OutputGroup × Int)
  | [], lowest_larger, applicable_groups, nTotalLower => .inr (lowest_larger, applicable_groups, nTotalLower)
  | group :: groups, lowest_larger, applicable_groups, nTotalLower =>
    if group.getSelectionAmount = nTargetValue then .inl group
    else if group.getSelectionAmount < nTargetValue + change_target then
      knapsackScan nTargetValue change_target groups lowest_larger (applicable_groups ++ [group])
        (nTotalLower + group.getSelectionAmount)
    else
      let lowest_larger := match lowest_larger with
        | some l => if group.getSelectionAmount < l.getSelectionAmount then some group else some l
        | none => some group
      knapsackScan nTargetValue change_target groups lowest_larger applicable_groups nTotalLower

/-- `for (i < applicable_groups.size()) if (vfBest[i]) result.AddInput(applicable_groups[i]);` -/
def addBest (applicable_groups : List OutputGroup) (vfBest : List Bool) (result : SelectionResult) :
    SelectionResult :=
  (List.range applicable_groups.length).foldl
    (fun r i => if vfBest.getD i false then r.addInput (applicable_groups.getD i default) else r) result

def knapsackSolver (rng : Rng σ) (groups : List OutputGroup) (nTargetValue change_target : Int) (s : σ)
    (max_weight : Int) : Except String SelectionResult :=
  let result := SelectionResult.make nTargetValue .KNAPSACK
  let (groups, s) := shuffle rng groups s
  match knapsackScan nTargetValue change_target groups none [] 0 with
  | .inl group => .ok (result.addInput group)
  | .inr (lowest_larger, applicable_groups, nTotalLower) =>
    if nTotalLower = nTargetValue then .ok (applicable_groups.foldl SelectionResult.addInput result)
    else if nTotalLower < nTargetValue then
      match lowest_larger with
      | none => .error ""
      | some l => .ok (result.addInput l)
    else
      -- solve subset sum by stochastic approximation
      let applicable_groups := applicable_groups.mergeSort fun a b => a.getSelectionAmount ≥ b.getSelectionAmount
      let (vfBest, nBest, s) := approximateBestSubset rng s applicable_groups nTotalLower nTargetValue 1000
      let (vfBest, nBest) :=
        if nBest ≠ nTargetValue ∧ nTotalLower ≥ nTargetValue + change_target then
          let (vfBest, nBest, _) :=
            approximateBestSubset rng s applicable_groups nTotalLower (nTargetValue + change_target) 1000
          (vfBest, nBest)
        else (vfBest, nBest)
      -- the bigger coin, if the approximation is not good or the bigger coin is closer
      let larger := lowest_larger.filter fun l =>
        decide ((nBest ≠ nTargetValue ∧ nBest < nTargetValue + change_target) ∨ l.getSelectionAmount ≤ nBest)
      match larger with
      | some l => .ok (result.addInput l)
      | none =>
        let result := addBest applicable_groups vfBest result
        -- a result above the maximum weight falls back to the closest group above the target
        if result.getWeight > max_weight then
          match lowest_larger with
          | none => .error ErrorMaxWeightExceeded
          | some l => .ok (result.clear.addInput l)
        else .ok result

/-! ### What the results hold -/

section Sums

/-- The selection amount and the weight of a list of groups. -/
def amountOf (l : List OutputGroup) : Int := (l.map OutputGroup.getSelectionAmount).sum

def weightOf (l : List OutputGroup) : Int := (l.map OutputGroup.m_weight).sum

@[simp] theorem amountOf_nil : amountOf [] = 0 := rfl

@[simp] theorem weightOf_nil : weightOf [] = 0 := rfl

@[simp] theorem amountOf_cons (g : OutputGroup) (l : List OutputGroup) :
    amountOf (g :: l) = g.getSelectionAmount + amountOf l := by simp [amountOf]

@[simp] theorem weightOf_cons (g : OutputGroup) (l : List OutputGroup) :
    weightOf (g :: l) = g.m_weight + weightOf l := by simp [weightOf]

@[simp] theorem amountOf_append (l l' : List OutputGroup) : amountOf (l ++ l') = amountOf l + amountOf l' := by
  simp [amountOf]

@[simp] theorem weightOf_append (l l' : List OutputGroup) : weightOf (l ++ l') = weightOf l + weightOf l' := by
  simp [weightOf]

theorem amountOf_perm {l l' : List OutputGroup} (h : l.Perm l') : amountOf l = amountOf l' := (h.map _).sum_eq

theorem weightOf_perm {l l' : List OutputGroup} (h : l.Perm l') : weightOf l = weightOf l' := (h.map _).sum_eq

/-- Adding groups one by one appends them and adds their weight. -/
theorem foldl_addInput (l : List OutputGroup) (r : SelectionResult) :
    (l.foldl SelectionResult.addInput r).m_selected_inputs = r.m_selected_inputs ++ l ∧
      (l.foldl SelectionResult.addInput r).m_weight = r.m_weight + weightOf l := by
  induction l generalizing r with
  | nil => simp
  | cons g l ih =>
    obtain ⟨h1, h2⟩ := ih (r.addInput g)
    rw [List.foldl_cons, h1, h2]
    refine ⟨by simp [SelectionResult.addInput], ?_⟩
    simp only [SelectionResult.addInput, weightOf_cons]
    ring

theorem selectedAmount_addInput (r : SelectionResult) (g : OutputGroup) :
    (r.addInput g).selectedAmount = r.selectedAmount + g.getSelectionAmount := by
  simp [SelectionResult.addInput, SelectionResult.selectedAmount]

theorem selectedAmount_foldl_addInput (l : List OutputGroup) (r : SelectionResult) :
    (l.foldl SelectionResult.addInput r).selectedAmount = r.selectedAmount + amountOf l := by
  rw [SelectionResult.selectedAmount, (foldl_addInput l r).1, List.map_append, List.sum_append]
  rfl

@[simp] theorem selectedAmount_make (target : Int) (algo : SelectionAlgorithm) :
    (SelectionResult.make target algo).selectedAmount = 0 := rfl

@[simp] theorem selected_inputs_make (target : Int) (algo : SelectionAlgorithm) :
    (SelectionResult.make target algo).m_selected_inputs = [] := rfl

@[simp] theorem selected_inputs_addInput_clear (r : SelectionResult) (g : OutputGroup) :
    (r.clear.addInput g).m_selected_inputs = [g] := rfl

end Sums

section SRD

theorem amountOf_heapPush (heap : List OutputGroup) (g : OutputGroup) :
    amountOf (heapPush heap g) = g.getSelectionAmount + amountOf heap := by
  rw [heapPush, amountOf_perm (List.perm_orderedInsert _ g heap), amountOf_cons]

theorem weightOf_heapPush (heap : List OutputGroup) (g : OutputGroup) :
    weightOf (heapPush heap g) = g.m_weight + weightOf heap := by
  rw [heapPush, weightOf_perm (List.perm_orderedInsert _ g heap), weightOf_cons]

/-- The eviction keeps the running sums equal to the heap's, and ends below `max_weight` or
with an empty heap. -/
theorem evict_spec (max_weight : Int) : ∀ (heap : List OutputGroup) (sel w : Int),
    sel = amountOf heap → w = weightOf heap →
      (evict max_weight heap sel w).2.1 = amountOf (evict max_weight heap sel w).1 ∧
      (evict max_weight heap sel w).2.2 = weightOf (evict max_weight heap sel w).1 ∧
      ((evict max_weight heap sel w).2.2 ≤ max_weight ∨ (evict max_weight heap sel w).1 = [])
  | [], sel, w, hs, hw => by simp [evict, hs, hw]
  | top :: heap, sel, w, hs, hw => by
    have hs' : sel - top.getSelectionAmount = amountOf heap := by rw [hs, amountOf_cons]; ring
    have hw' : w - top.m_weight = weightOf heap := by rw [hw, weightOf_cons]; ring
    rw [evict]
    split_ifs with hmore
    · exact evict_spec max_weight heap _ _ hs' hw'
    · refine ⟨hs', hw', ?_⟩
      by_cases hnil : heap = []
      · exact .inr hnil
      · exact .inl (not_lt.mp fun h => hmore ⟨hnil, h⟩)

/-- The loop returns a heap that reaches the target, and is below `max_weight` or empty. -/
theorem srdLoop_spec (target_value max_weight : Int) : ∀ (groups heap : List OutputGroup) (sel w : Int)
    (exceeded : Bool) (heap' : List OutputGroup), sel = amountOf heap → w = weightOf heap →
    srdLoop target_value max_weight groups heap sel w exceeded = .ok heap' →
      target_value ≤ amountOf heap' ∧ (weightOf heap' ≤ max_weight ∨ heap' = [])
  | [], _, _, _, exceeded, _, _, _, h => by cases exceeded <;> cases h
  | group :: groups, heap, sel, w, exceeded, heap', hs, hw, h => by
    rw [srdLoop] at h
    have hs1 : sel + group.getSelectionAmount = amountOf (heapPush heap group) := by
      rw [amountOf_heapPush, hs]; ring
    have hw1 : w + group.m_weight = weightOf (heapPush heap group) := by
      rw [weightOf_heapPush, hw]; ring
    dsimp only at h
    by_cases hover : w + group.m_weight > max_weight
    · -- too heavy: the least valuable groups leave first
      rw [if_pos hover] at h
      obtain ⟨hs2, hw2, hfit⟩ := evict_spec max_weight _ _ _ hs1 hw1
      dsimp only at h
      split_ifs at h with hreach
      · cases h
        exact ⟨by rw [← hs2]; exact hreach, by rwa [← hw2]⟩
      · exact srdLoop_spec target_value max_weight groups _ _ _ true heap' hs2 hw2 h
    · rw [if_neg hover] at h
      dsimp only at h
      split_ifs at h with hreach
      · cases h
        exact ⟨by rw [← hs1]; exact hreach, .inl (by rw [← hw1]; exact not_lt.mp hover)⟩
      · exact srdLoop_spec target_value max_weight groups _ _ _ exceeded heap' hs1 hw1 h

/-- A result of `SelectCoinsSRD` reaches `target_value + CHANGE_LOWER + change_fee`; its weight
is within `max_weight` unless everything was evicted, which needs a negative `max_weight` and a
target that the empty selection meets. -/
theorem selectCoinsSRD_spec (rng : Rng σ) (utxo_pool : List OutputGroup) (target_value change_fee : Int) (s : σ)
    (max_weight : Int) {r : SelectionResult} (h : selectCoinsSRD rng utxo_pool target_value change_fee s max_weight = .ok r) :
    target_value + CHANGE_LOWER + change_fee ≤ r.selectedAmount ∧
      (r.getWeight ≤ max_weight ∨
        (r.m_selected_inputs = [] ∧ r.getWeight = 0 ∧ target_value + CHANGE_LOWER + change_fee ≤ 0)) := by
  dsimp only [selectCoinsSRD] at h
  split at h
  · rename_i heap hloop
    cases h
    obtain ⟨hsel, hweight⟩ := foldl_addInput heap (SelectionResult.make target_value .SRD)
    obtain ⟨hreach, hfit⟩ := srdLoop_spec _ _ _ [] 0 0 false heap rfl rfl hloop
    rw [selectedAmount_foldl_addInput, selectedAmount_make, zero_add, SelectionResult.getWeight, hweight, hsel]
    refine ⟨hreach, ?_⟩
    rcases hfit with hfit | rfl
    · exact .inl (by simpa [SelectionResult.make] using hfit)
    · exact .inr ⟨rfl, by simp [SelectionResult.make], by simpa using hreach⟩
  · cases h

end SRD

section Shuffle

/-- Swapping `x` into place `i` and taking out what stood there permutes `x :: xs`. -/
theorem getD_cons_set_perm {xs : List α} {i : Nat} (x : α) (hi : i < xs.length) :
    (xs.getD i x :: xs.set i x).Perm (x :: xs) := by
  rw [List.set_eq_take_append_cons_drop, if_pos hi, List.getD_eq_getElem _ _ hi]
  calc (xs[i] :: (xs.take i ++ x :: xs.drop (i + 1))).Perm (xs[i] :: x :: (xs.take i ++ xs.drop (i + 1))) :=
        .cons _ List.perm_middle
    List.Perm _ (x :: xs[i] :: (xs.take i ++ xs.drop (i + 1))) := .swap _ _ _
    List.Perm _ (x :: (xs.take i ++ xs[i] :: xs.drop (i + 1))) := .cons _ List.perm_middle.symm
    _ = x :: xs := by rw [List.getElem_cons_drop, List.take_append_drop]

theorem shuffleN_perm (rng : Rng σ) : ∀ (n : Nat) (l : List α) (s : σ), (shuffleN rng n l s).1.Perm l
  | 0, _, _ => .refl _
  | _ + 1, [], _ => .refl _
  | n + 1, x :: xs, s => by
    have hj := rng.randrange_lt s (xs.length + 1) (Nat.succ_pos _)
    rw [shuffleN]
    generalize rng.randrange s (xs.length + 1) = p at hj ⊢
    obtain ⟨j, s⟩ := p
    dsimp only at hj ⊢
    split_ifs with hj0
    · exact (shuffleN_perm rng n xs s).cons x
    · exact ((shuffleN_perm rng n (xs.set (j - 1) x) s).cons _).trans (getD_cons_set_perm x (by omega))

theorem shuffle_perm (rng : Rng σ) (l : List α) (s : σ) : (shuffle rng l s).1.Perm l :=
  shuffleN_perm rng l.length l s

end Shuffle

section Knapsack

/-- The amount that entry `i` of a choice vector contributes. -/
def chosenTerm (groups : List OutputGroup) (v : List Bool) (i : Nat) : Int :=
  if v.getD i false then (groups.getD i default).getSelectionAmount else 0

/-- The selection amount of the groups that a choice vector marks. -/
def chosenSum (groups : List OutputGroup) (v : List Bool) : Int :=
  ∑ i ∈ Finset.range groups.length, chosenTerm groups v i

theorem chosenTerm_set_of_ne (groups : List OutputGroup) (v : List Bool) {i j : Nat} (b : Bool) (h : j ≠ i) :
    chosenTerm groups (v.set i b) j = chosenTerm groups v j := by
  simp [chosenTerm, List.getD_eq_getElem?_getD, Ne.symm h]

theorem chosenTerm_set_self (groups : List OutputGroup) {v : List Bool} {i : Nat} (b : Bool) (h : i < v.length) :
    chosenTerm groups (v.set i b) i = if b then (groups.getD i default).getSelectionAmount else 0 := by
  simp [chosenTerm, List.getD_eq_getElem?_getD, h]

/-- Setting one entry moves its group into or out of the sum. -/
theorem chosenSum_set (groups : List OutputGroup) (v : List Bool) {i : Nat} (b : Bool) (hi : i < groups.length) :
    chosenSum groups (v.set i b) + chosenTerm groups v i = chosenSum groups v + chosenTerm groups (v.set i b) i := by
  have hmem : i ∈ Finset.range groups.length := Finset.mem_range.mpr hi
  have hrest : ∑ j ∈ (Finset.range groups.length).erase i, chosenTerm groups (v.set i b) j =
      ∑ j ∈ (Finset.range groups.length).erase i, chosenTerm groups v j :=
    Finset.sum_congr rfl fun j hj => chosenTerm_set_of_ne groups v b (Finset.ne_of_mem_erase hj)
  rw [chosenSum, chosenSum, ← Finset.add_sum_erase _ _ hmem, ← Finset.add_sum_erase _ _ hmem, hrest]
  ring

theorem chosenSum_replicate_false (groups : List OutputGroup) (n : Nat) :
    chosenSum groups (List.replicate n false) = 0 := by
  simp [chosenSum, chosenTerm, List.getD_eq_getElem?_getD]

theorem sum_range_getD (l : List OutputGroup) :
    ∑ i ∈ Finset.range l.length, (l.getD i default).getSelectionAmount = amountOf l := by
  induction l with
  | nil => simp
  | cons g l ih =>
    rw [List.length_cons, Finset.sum_range_succ', amountOf_cons, ← ih]
    simp only [List.getD_cons_succ, List.getD_cons_zero]
    ring

/-- The worst case "best" approximation, every group, sums to the whole amount. -/
theorem chosenSum_replicate_true (groups : List OutputGroup) :
    chosenSum groups (List.replicate groups.length true) = amountOf groups := by
  rw [chosenSum, ← sum_range_getD]
  exact Finset.sum_congr rfl fun i hi => by
    rw [chosenTerm, List.getD_replicate _ (Finset.mem_range.mp hi), if_pos rfl]

theorem selectedAmount_addBest_range (groups : List OutputGroup) (v : List Bool) (r : SelectionResult) :
    ∀ k : Nat, ((List.range k).foldl
        (fun r i => if v.getD i false then r.addInput (groups.getD i default) else r) r).selectedAmount =
      r.selectedAmount + ∑ i ∈ Finset.range k, chosenTerm groups v i
  | 0 => by simp
  | k + 1 => by
    rw [List.range_succ, List.foldl_append, List.foldl_cons, List.foldl_nil, Finset.sum_range_succ, chosenTerm,
      ← add_assoc, ← selectedAmount_addBest_range groups v r k]
    split_ifs
    · exact selectedAmount_addInput _ _
    · exact (add_zero _).symm

theorem selectedAmount_addBest (groups : List OutputGroup) (v : List Bool) (r : SelectionResult) :
    (addBest groups v r).selectedAmount = r.selectedAmount + chosenSum groups v :=
  selectedAmount_addBest_range groups v r groups.length

/-- What `ApproximateBestSubset` keeps between repetitions: `vfBest` marks groups summing to
`nBest`, and `nBest` reaches the target. -/
structure BestInv (groups : List OutputGroup) (nTargetValue : Int) (st : SubsetState σ) : Prop where
  best_eq : st.nBest = chosenSum groups st.vfBest
  reach : nTargetValue ≤ st.nBest

/-- Within a repetition `vfIncluded` also marks groups summing to `nTotal`. -/
structure SubsetInv (groups : List OutputGroup) (nTargetValue : Int) (st : SubsetState σ) : Prop
    extends BestInv groups nTargetValue st where
  length_eq : st.vfIncluded.length = groups.length
  total_eq : st.nTotal = chosenSum groups st.vfIncluded

section Passes

variable (rng : Rng σ) (groups : List OutputGroup) (nTargetValue : Int) (nPass : Nat)

/-- One step changes `vfIncluded` at its own index only. -/
theorem vfIncluded_subsetStep_of_ne (st : SubsetState σ) {i j : Nat} (h : j ≠ i) :
    (subsetStep rng groups nTargetValue nPass st i).vfIncluded.getD j false = st.vfIncluded.getD j false := by
  have hset : ∀ (v : List Bool) (b : Bool), (v.set i b).getD j false = v.getD j false := fun v b => by
    simp [List.getD_eq_getElem?_getD, Ne.symm h]
  unfold subsetStep
  split
  dsimp only
  split_ifs <;> simp only [hset]

/-- The step lemma. A group is added only where `vfIncluded` has none: in the first pass every
index is still fresh, in the second the bit drawn is the complement of the entry. -/
theorem subsetStep_inv {st : SubsetState σ} {i : Nat} (hi : i < groups.length)
    (hinv : SubsetInv groups nTargetValue st) (hfresh : nPass = 0 → st.vfIncluded.getD i false = false) :
    SubsetInv groups nTargetValue (subsetStep rng groups nTargetValue nPass st i) := by
  have hv : i < st.vfIncluded.length := hinv.length_eq ▸ hi
  unfold subsetStep
  split
  rename_i pick s hdraw
  have hpick : pick = true → st.vfIncluded.getD i false = false := fun hp => by
    split_ifs at hdraw with h0
    · exact hfresh h0
    · simp only [Prod.mk.injEq] at hdraw
      simpa [hp] using hdraw.1.symm
  cases pick with
  | false => exact { hinv with }
  | true =>
    have hzero : chosenTerm groups st.vfIncluded i = 0 := by
      rw [chosenTerm, hpick rfl, if_neg Bool.false_ne_true]
    -- the group goes in, and comes out again when the target is reached
    have hin : chosenSum groups (st.vfIncluded.set i true) =
        st.nTotal + (groups.getD i default).getSelectionAmount := by
      have h := chosenSum_set groups st.vfIncluded true hi
      rw [hzero, chosenTerm_set_self groups true hv, if_pos rfl] at h
      rw [hinv.total_eq]
      omega
    have hout : chosenSum groups ((st.vfIncluded.set i true).set i false) = st.nTotal := by
      have h := chosenSum_set groups (st.vfIncluded.set i true) false hi
      rw [chosenTerm_set_self groups true hv, chosenTerm_set_self groups false (by rwa [List.length_set]),
        if_pos rfl, if_neg (by simp), hin] at h
      omega
    have hlen : (st.vfIncluded.set i true).length = groups.length := by rw [List.length_set, hinv.length_eq]
    rw [if_pos rfl]
    dsimp only
    split_ifs with hreach hbetter
    · exact ⟨⟨hin.symm, hreach⟩, by rwa [List.length_set], by rw [hout]; ring⟩
    · exact ⟨⟨hinv.best_eq, hinv.reach⟩, by rwa [List.length_set], by rw [hout]; ring⟩
    · exact ⟨⟨hinv.best_eq, hinv.reach⟩, hlen, hin.symm⟩

/-- The run lemma of a pass: after `k` indexes the invariant holds, and in the first pass the
indexes from `k` on are still fresh. -/
theorem pass_inv {st : SubsetState σ} (hinv : SubsetInv groups nTargetValue st)
    (hfresh : nPass = 0 → ∀ j, st.vfIncluded.getD j false = false) :
    ∀ k, k ≤ groups.length →
      SubsetInv groups nTargetValue ((List.range k).foldl (subsetStep rng groups nTargetValue nPass) st) ∧
      (nPass = 0 → ∀ j, k ≤ j →
        ((List.range k).foldl (subsetStep rng groups nTargetValue nPass) st).vfIncluded.getD j false = false)
  | 0, _ => ⟨hinv, fun h0 j _ => hfresh h0 j⟩
  | k + 1, hk => by
    obtain ⟨hinvk, hfreshk⟩ := pass_inv hinv hfresh k (by omega)
    rw [List.range_succ, List.foldl_append, List.foldl_cons, List.foldl_nil]
    refine ⟨subsetStep_inv rng groups nTargetValue nPass (by omega) hinvk fun h0 => hfreshk h0 k le_rfl,
      fun h0 j hj => ?_⟩
    rw [vfIncluded_subsetStep_of_ne rng groups nTargetValue nPass _ (by omega : j ≠ k)]
    exact hfreshk h0 j (by omega)

end Passes

section Reps

variable (rng : Rng σ) (groups : List OutputGroup) (nTargetValue : Int)

theorem subsetRep_inv {st : SubsetState σ} (h : BestInv groups nTargetValue st) :
    BestInv groups nTargetValue (subsetRep rng groups nTargetValue st) := by
  have hreset : SubsetInv groups nTargetValue
      { st with vfIncluded := List.replicate groups.length false, nTotal := 0, fReachedTarget := false } :=
    { h with length_eq := List.length_replicate, total_eq := (chosenSum_replicate_false groups _).symm }
  have hpass : ∀ (nPass : Nat) (st' : SubsetState σ), SubsetInv groups nTargetValue st' →
      (nPass = 0 → ∀ j, st'.vfIncluded.getD j false = false) →
      SubsetInv groups nTargetValue (if st'.fReachedTarget then st'
        else (List.range groups.length).foldl (subsetStep rng groups nTargetValue nPass) st') :=
    fun nPass st' hinv hfresh => by
      split_ifs
      · exact hinv
      · exact (pass_inv rng groups nTargetValue nPass hinv hfresh groups.length le_rfl).1
  -- the cleared vector leaves every index fresh for the first pass
  have h0 := hpass 0 _ hreset fun _ j => by simp [List.getD_eq_getElem?_getD]
  have h1 := hpass 1 _ h0 fun h => absurd h one_ne_zero
  rw [subsetRep, List.foldl_cons, List.foldl_cons, List.foldl_nil]
  exact h1.toBestInv

theorem subsetReps_inv : ∀ (iterations : Nat) (st : SubsetState σ), BestInv groups nTargetValue st →
    BestInv groups nTargetValue (subsetReps rng groups nTargetValue iterations st)
  | 0, _, h => h
  | k + 1, st, h => by
    rw [subsetReps]
    split_ifs
    · exact subsetReps_inv k _ (subsetRep_inv rng groups nTargetValue h)
    · exact h

/-- `ApproximateBestSubset` returns a vector whose groups sum to `nBest`, at least the target,
when all the groups together reach it. -/
theorem approximateBestSubset_spec (s : σ) {nTotalLower : Int} (iterations : Nat)
    (htotal : nTotalLower = amountOf groups) (hreach : nTargetValue ≤ nTotalLower) :
    (approximateBestSubset rng s groups nTotalLower nTargetValue iterations).2.1 =
        chosenSum groups (approximateBestSubset rng s groups nTotalLower nTargetValue iterations).1 ∧
      nTargetValue ≤ (approximateBestSubset rng s groups nTotalLower nTargetValue iterations).2.1 := by
  have hinit : BestInv groups nTargetValue
      (⟨[], 0, false, List.replicate groups.length true, nTotalLower, s⟩ : SubsetState σ) :=
    ⟨by rw [chosenSum_replicate_true]; exact htotal, hreach⟩
  have h := subsetReps_inv rng groups nTargetValue iterations _ hinit
  exact ⟨h.best_eq, h.reach⟩

end Reps

section Scan

variable (nTargetValue change_target : Int)

theorem knapsackScan_inl : ∀ (groups : List OutputGroup) (lowest_larger : Option OutputGroup)
    (applicable_groups : List OutputGroup) (nTotalLower : Int) (g : OutputGroup),
    knapsackScan nTargetValue change_target groups lowest_larger applicable_groups nTotalLower = .inl g →
      g.getSelectionAmount = nTargetValue ∧ g ∈ groups
  | [], _, _, _, _, h => by cases h
  | group :: groups, lowest_larger, applicable_groups, nTotalLower, g, h => by
    unfold knapsackScan at h
    split_ifs at h with hexact hsmall
    · cases h
      exact ⟨hexact, List.mem_cons_self⟩
    · obtain ⟨hg, hmem⟩ := knapsackScan_inl groups _ _ _ g h
      exact ⟨hg, List.mem_cons_of_mem _ hmem⟩
    · obtain ⟨hg, hmem⟩ := knapsackScan_inl groups _ _ _ g h
      exact ⟨hg, List.mem_cons_of_mem _ hmem⟩

/-- The scan's run lemma: `nTotalLower` sums `applicable_groups`, and `lowest_larger` reaches
`nTargetValue + change_target` and is one of the groups. -/
theorem knapsackScan_inr : ∀ (groups : List OutputGroup) (lowest_larger : Option OutputGroup)
    (applicable_groups : List OutputGroup) (nTotalLower : Int) (ll : Option OutputGroup)
    (applicable : List OutputGroup) (total : Int),
    (∀ l, lowest_larger = some l → nTargetValue + change_target ≤ l.getSelectionAmount) →
    nTotalLower = amountOf applicable_groups →
    knapsackScan nTargetValue change_target groups lowest_larger applicable_groups nTotalLower =
      .inr (ll, applicable, total) →
      total = amountOf applicable ∧
        ∀ l, ll = some l → nTargetValue + change_target ≤ l.getSelectionAmount ∧ (lowest_larger = some l ∨ l ∈ groups)
  | [], _, _, _, _, _, _, hll, htotal, h => by
    cases h
    exact ⟨htotal, fun l hl => ⟨hll l hl, .inl hl⟩⟩
  | group :: groups, lowest_larger, applicable_groups, nTotalLower, ll, applicable, total, hll, htotal, h => by
    unfold knapsackScan at h
    split_ifs at h with hexact hsmall
    · obtain ⟨ht, hl⟩ := knapsackScan_inr groups _ _ _ ll applicable total hll
        (by rw [amountOf_append, ← htotal]; simp) h
      exact ⟨ht, fun l h' => ⟨(hl l h').1, (hl l h').2.imp_right (List.mem_cons_of_mem _)⟩⟩
    · -- the candidate for `lowest_larger` is this group or the one before
      have hnew : ∀ l, (match lowest_larger with
          | some l => if group.getSelectionAmount < l.getSelectionAmount then some group else some l
          | none => some group) = some l →
          nTargetValue + change_target ≤ l.getSelectionAmount ∧ (lowest_larger = some l ∨ l = group) := by
        intro l hl
        cases hlow : lowest_larger with
        | none =>
          rw [hlow] at hl
          cases hl
          exact ⟨not_lt.mp hsmall, .inr rfl⟩
        | some l' =>
          rw [hlow] at hl
          dsimp only at hl
          split_ifs at hl
          · cases hl
            exact ⟨not_lt.mp hsmall, .inr rfl⟩
          · cases hl
            exact ⟨hll l hlow, .inl rfl⟩
      obtain ⟨ht, hl⟩ := knapsackScan_inr groups _ _ _ ll applicable total (fun l h' => (hnew l h').1) htotal h
      refine ⟨ht, fun l h' => ⟨(hl l h').1, ?_⟩⟩
      rcases (hl l h').2 with hprev | hmem
      · rcases (hnew l hprev).2 with hlow | rfl
        · exact .inl hlow
        · exact .inr List.mem_cons_self
      · exact .inr (List.mem_cons_of_mem _ hmem)

end Scan

/-- A result of `KnapsackSolver` reaches `nTargetValue`. Its weight is within `max_weight`
unless it is one group of exactly `nTargetValue`, the applicable groups summing to exactly
`nTargetValue`, or the single group of the pool that `lowest_larger` found. -/
theorem knapsackSolver_spec (rng : Rng σ) (groups : List OutputGroup) (nTargetValue change_target : Int) (s : σ)
    (max_weight : Int) (hchange : 0 ≤ change_target) {r : SelectionResult}
    (h : knapsackSolver rng groups nTargetValue change_target s max_weight = .ok r) :
    nTargetValue ≤ r.selectedAmount ∧
      (r.getWeight ≤ max_weight ∨ r.selectedAmount = nTargetValue ∨
        ∃ g ∈ groups, r.m_selected_inputs = [g] ∧ nTargetValue + change_target ≤ g.getSelectionAmount) := by
  dsimp only [knapsackSolver] at h
  have hperm := shuffle_perm rng groups s
  generalize (shuffle rng groups s).1 = shuffled at h hperm
  split at h
  · -- a group of exactly the target
    rename_i g hscan
    cases h
    have hg := (knapsackScan_inl nTargetValue change_target _ _ _ _ g hscan).1
    have hamount : ((SelectionResult.make nTargetValue .KNAPSACK).addInput g).selectedAmount = nTargetValue := by
      rw [selectedAmount_addInput, selectedAmount_make, zero_add, hg]
    exact ⟨hamount.ge, .inr (.inl hamount)⟩
  · rename_i lowest_larger applicable_groups nTotalLower hscan
    obtain ⟨htotal, hlarger⟩ := knapsackScan_inr nTargetValue change_target _ _ _ _ _ _ _
      (fun _ h => absurd h (Option.some_ne_none _).symm) rfl hscan
    -- the single `lowest_larger` group meets the third alternative
    have hsingle : ∀ l, lowest_larger = some l → ∀ r₀ : SelectionResult, r₀.m_selected_inputs = [l] →
        nTargetValue ≤ r₀.selectedAmount ∧ (r₀.getWeight ≤ max_weight ∨ r₀.selectedAmount = nTargetValue ∨
          ∃ g ∈ groups, r₀.m_selected_inputs = [g] ∧ nTargetValue + change_target ≤ g.getSelectionAmount) := by
      intro l hl r₀ hr₀
      obtain ⟨hreach, hmem⟩ := hlarger l hl
      have hmem' : l ∈ groups := hperm.mem_iff.mp (hmem.resolve_left (Option.some_ne_none _).symm)
      have hamount : r₀.selectedAmount = l.getSelectionAmount := by simp [SelectionResult.selectedAmount, hr₀]
      exact ⟨by omega, .inr (.inr ⟨l, hmem', hr₀, hreach⟩)⟩
    by_cases hexact : nTotalLower = nTargetValue
    · -- the applicable groups sum to the target exactly
      rw [if_pos hexact] at h
      cases h
      have hamount := selectedAmount_foldl_addInput applicable_groups (SelectionResult.make nTargetValue .KNAPSACK)
      rw [selectedAmount_make, zero_add, ← htotal, hexact] at hamount
      exact ⟨hamount.ge, .inr (.inl hamount)⟩
    by_cases hbelow : nTotalLower < nTargetValue
    · rw [if_neg hexact, if_pos hbelow] at h
      split at h
      · cases h
      · rename_i _ l
        cases h
        exact hsingle l rfl _ (by simp [SelectionResult.addInput])
    rw [if_neg hexact, if_neg hbelow] at h
    -- the stochastic approximation over the groups in descending order
    set sorted := applicable_groups.mergeSort fun a b => decide (a.getSelectionAmount ≥ b.getSelectionAmount)
    have hsortedTotal : nTotalLower = amountOf sorted := by
      rw [htotal]
      exact amountOf_perm (List.mergeSort_perm _ _).symm
    set A1 := approximateBestSubset rng (shuffle rng groups s).2 sorted nTotalLower nTargetValue 1000
    set best : List Bool × Int := if A1.2.1 ≠ nTargetValue ∧ nTotalLower ≥ nTargetValue + change_target then
        ((approximateBestSubset rng A1.2.2 sorted nTotalLower (nTargetValue + change_target) 1000).1,
          (approximateBestSubset rng A1.2.2 sorted nTotalLower (nTargetValue + change_target) 1000).2.1)
      else (A1.1, A1.2.1) with hbest
    -- both approximations reach `nTargetValue`: the second aims at `nTargetValue + change_target`
    have hbestSpec : best.2 = chosenSum sorted best.1 ∧ nTargetValue ≤ best.2 := by
      rw [hbest]
      split_ifs with hsecond
      · have h2 := approximateBestSubset_spec rng sorted (nTargetValue + change_target) A1.2.2 1000 hsortedTotal
          hsecond.2
        exact ⟨h2.1, by linarith [h2.2]⟩
      · exact approximateBestSubset_spec rng sorted nTargetValue _ 1000 hsortedTotal (by omega)
    clear_value best
    obtain ⟨vfBest, nBest⟩ := best
    dsimp only at h hbestSpec
    split at h
    · -- the bigger coin
      rename_i l hl
      cases h
      exact hsingle l (Option.filter_eq_some_iff.mp hl).1 _ (by simp [SelectionResult.addInput])
    · split_ifs at h with hheavy
      · -- above the maximum weight: the bigger coin instead, if there is one
        split at h
        · cases h
        · rename_i l _
          cases h
          exact hsingle l rfl _ (by simp)
      · cases h
        have hamount : (addBest sorted vfBest (SelectionResult.make nTargetValue .KNAPSACK)).selectedAmount = nBest := by
          rw [selectedAmount_addBest, selectedAmount_make, zero_add, hbestSpec.1]
        exact ⟨hamount ▸ hbestSpec.2, .inl (not_lt.mp hheavy)⟩

end Knapsack

/-! ### The targets of both solvers -/

section Targets

/-- Over every pool and every random stream: a result of `SelectCoinsSRD` reaches
`target_value + CHANGE_LOWER + change_fee` and, when `max_weight` is not negative or that target
is positive, keeps to `max_weight`; a result of `KnapsackSolver` (with `change_target ≥ 0`)
reaches `nTargetValue` and keeps to `max_weight` unless it sums to exactly `nTargetValue` or is
one group of the pool at or above `nTargetValue + change_target`. -/
theorem selectCoins_meet_target (rng : Rng σ) (utxo_pool : List OutputGroup) :
    (∀ (target_value change_fee : Int) (s : σ) (max_weight : Int) (r : SelectionResult),
      selectCoinsSRD rng utxo_pool target_value change_fee s max_weight = .ok r →
        target_value + CHANGE_LOWER + change_fee ≤ r.selectedAmount ∧
          (0 ≤ max_weight ∨ 0 < target_value + CHANGE_LOWER + change_fee → r.getWeight ≤ max_weight)) ∧
    (∀ (nTargetValue change_target : Int) (s : σ) (max_weight : Int) (r : SelectionResult), 0 ≤ change_target →
      knapsackSolver rng utxo_pool nTargetValue change_target s max_weight = .ok r →
        nTargetValue ≤ r.selectedAmount ∧
          (r.getWeight ≤ max_weight ∨ r.selectedAmount = nTargetValue ∨
            ∃ g ∈ utxo_pool, r.m_selected_inputs = [g] ∧ nTargetValue + change_target ≤ g.getSelectionAmount)) := by
  refine ⟨fun target_value change_fee s max_weight r h => ?_,
    fun nTargetValue change_target s max_weight r hchange h => knapsackSolver_spec rng utxo_pool _ _ s _ hchange h⟩
  obtain ⟨hreach, hweight⟩ := selectCoinsSRD_spec rng utxo_pool target_value change_fee s max_weight h
  refine ⟨hreach, fun hcase => ?_⟩
  -- only an empty selection can be over `max_weight`, and it weighs nothing
  rcases hweight with hfit | ⟨-, hzero, htarget⟩
  · exact hfit
  · rcases hcase with hmax | hpos
    · rwa [hzero]
    · omega

/-- A shuffle of copies of one group leaves them as they are. -/
theorem shuffle_replicate (rng : Rng σ) (n : Nat) (g : OutputGroup) (s : σ) :
    (shuffle rng (List.replicate n g) s).1 = List.replicate n g :=
  List.perm_replicate.mp (shuffle_perm rng _ s)

/-- `KnapsackSolver` returns the applicable groups unchecked when they sum to exactly the
target, where its best-subset path checks their weight: for every random stream, two groups of
`50`, each of weight 1000, are returned for the target `100` under a maximum weight of `10`. -/
theorem knapsackSolver_exact_sum_over_max_weight (rng : Rng σ) (s : σ) :
    ∃ r, knapsackSolver rng (List.replicate 2 ⟨50, 50, 0, 0, false, 1000⟩) 100 50 s 10 = .ok r ∧
      r.m_selected_inputs = List.replicate 2 ⟨50, 50, 0, 0, false, 1000⟩ ∧ 10 < r.getWeight := by
  dsimp only [knapsackSolver]
  rw [shuffle_replicate]
  exact ⟨_, rfl, rfl, by decide⟩

/-- The selections meet their targets and keep to `max_weight` up to the exceptions of
`selectCoins_meet_target`, of which an exact sum of several applicable groups is a slip: the
best-subset path checks the weight of what it returns, this one does not. -/
theorem knapsackSolver_exact_sum_unchecked :
    (∀ (rng : Rng σ) (utxo_pool : List OutputGroup),
      (∀ (target_value change_fee : Int) (s : σ) (max_weight : Int) (r : SelectionResult),
        selectCoinsSRD rng utxo_pool target_value change_fee s max_weight = .ok r →
          target_value + CHANGE_LOWER + change_fee ≤ r.selectedAmount ∧
            (0 ≤ max_weight ∨ 0 < target_value + CHANGE_LOWER + change_fee → r.getWeight ≤ max_weight)) ∧
      (∀ (nTargetValue change_target : Int) (s : σ) (max_weight : Int) (r : SelectionResult), 0 ≤ change_target →
        knapsackSolver rng utxo_pool nTargetValue change_target s max_weight = .ok r →
          nTargetValue ≤ r.selectedAmount ∧
            (r.getWeight ≤ max_weight ∨ r.selectedAmount = nTargetValue ∨
              ∃ g ∈ utxo_pool, r.m_selected_inputs = [g] ∧ nTargetValue + change_target ≤ g.getSelectionAmount))) ∧
    ∀ (rng : Rng σ) (s : σ), ∃ r, knapsackSolver rng (List.replicate 2 ⟨50, 50, 0, 0, false, 1000⟩) 100 50 s 10 = .ok r ∧
      r.m_selected_inputs = List.replicate 2 ⟨50, 50, 0, 0, false, 1000⟩ ∧ 10 < r.getWeight :=
  ⟨selectCoins_meet_target, knapsackSolver_exact_sum_over_max_weight⟩

theorem knapsackSolver_exact_sum_unchecked_small :
    (60000 ≤ (SelectionResult.mk [⟨60000, 60000, 0, 0, false, 5⟩] 10000 .SRD true none 5).selectedAmount ∧
      (0 ≤ (100 : Int) ∨ 0 < 10000 + CHANGE_LOWER + 0 →
        (SelectionResult.mk [⟨60000, 60000, 0, 0, false, 5⟩] 10000 .SRD true none 5).getWeight ≤ 100)) ∧
    (100 ≤ (SelectionResult.mk [⟨100, 100, 0, 0, false, 1000⟩] 100 .KNAPSACK true none 1000).selectedAmount ∧
      ((SelectionResult.mk [⟨100, 100, 0, 0, false, 1000⟩] 100 .KNAPSACK true none 1000).getWeight ≤ 10 ∨
        (SelectionResult.mk [⟨100, 100, 0, 0, false, 1000⟩] 100 .KNAPSACK true none 1000).selectedAmount = 100 ∨
        ∃ g ∈ [(⟨100, 100, 0, 0, false, 1000⟩ : OutputGroup)],
          (SelectionResult.mk [⟨100, 100, 0, 0, false, 1000⟩] 100 .KNAPSACK true none 1000).m_selected_inputs = [g] ∧
            100 + 50 ≤ g.getSelectionAmount)) :=
  ⟨(knapsackSolver_exact_sum_unchecked.1 zeroRng [⟨60000, 60000, 0, 0, false, 5⟩]).1 10000 0 () 100 _ rfl,
    (knapsackSolver_exact_sum_unchecked.1 zeroRng [⟨100, 100, 0, 0, false, 1000⟩]).2 100 50 () 10 _ (by decide) rfl⟩

end Targets

end BlackcoinMore.CoinSelection
