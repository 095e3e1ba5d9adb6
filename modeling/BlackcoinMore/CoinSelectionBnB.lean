import BlackcoinMore.CoinSelection
import BlackcoinMore.Primitives

/-! `SelectCoinsBnB` of `wallet/coinselection.cpp`, the depth-first branch-and-bound search, and
the waste of a `SelectionResult` (`GetChange`, `GetSelectionWaste`, `ComputeAndSetWaste`). The
waste term `fee - long_term_fee` of a group is the sum of its coins' terms, as
`OutputGroup::Insert` records them; `bump_fee_group_discount` is `0` in every result here. -/

namespace BlackcoinMore.CoinSelection

namespace SelectionResult

def getSelectedValue (r : SelectionResult) : Int := (r.m_selected_inputs.map OutputGroup.m_value).sum

def getSelectedEffectiveValue (r : SelectionResult) : Int :=
  (r.m_selected_inputs.map OutputGroup.effective_value).sum

/-- `GetSelectionWaste(change_cost, target, use_effective_value)`: spending the inputs now rather
than later, plus the cost of change or, without change, the excess over the target. -/
def getSelectionWaste (r : SelectionResult) (change_cost target : Int) (use_effective_value : Bool) : Int :=
  let waste := (r.m_selected_inputs.map fun g => g.fee - g.long_term_fee).sum
  if change_cost ≠ 0 then waste + change_cost
  else
    let selected_effective_value := if use_effective_value then r.getSelectedEffectiveValue else r.getSelectedValue
    waste + (selected_effective_value - target)

def getChange (r : SelectionResult) (min_viable_change change_fee : Int) : Int :=
  let change :=
    if r.m_use_effective then r.getSelectedEffectiveValue - r.m_target - change_fee
    else r.getSelectedValue - r.m_target
  if change < min_viable_change then 0 else change

def computeAndSetWaste (r : SelectionResult) (min_viable_change change_cost change_fee : Int) : SelectionResult :=
  let change := r.getChange min_viable_change change_fee
  { r with
    m_waste := some (if change > 0 then r.getSelectionWaste change_cost r.m_target r.m_use_effective
      else r.getSelectionWaste 0 r.m_target r.m_use_effective) }

end SelectionResult

def TOTAL_TRIES : Nat := 100000

/-- `std::sort(utxo_pool.begin(), utxo_pool.end(), descending)`, with equal groups in their
order: the insertion sort that libstdc++ runs on at most 16 elements. -/
def sortDescending (utxo_pool : List OutputGroup) : List OutputGroup :=
  utxo_pool.insertionSort fun a b => a.getSelectionAmount ≥ b.getSelectionAmount

/-- The first loop of `SelectCoinsBnB`: the value of the whole pool. -/
def availableValue (utxo_pool : List OutputGroup) : Int :=
  utxo_pool.foldl (fun curr_available_value utxo => curr_available_value + utxo.getSelectionAmount) 0

/-- The variables of the search. `curr_selection` and `best_selection` hold indexes into the
sorted pool, the last one pushed first. -/
structure BnBState where
  curr_value : Int
  curr_available_value : Int
  curr_selection : List Nat
  curr_selection_weight : Int
  curr_waste : Int
  best_selection : List Nat
  best_waste : Int
  max_tx_weight_exceeded : Bool
  utxo_pool_index : Nat
  deriving DecidableEq, Repr

/-- `for (--utxo_pool_index; utxo_pool_index > curr_selection.back(); --utxo_pool_index)`: the `n`
groups omitted after `back` go back to the lookahead, the last one first. -/
def addOmitted (utxo_pool : List OutputGroup) (back : Nat) : Nat → Int → Int
  | 0, curr_available_value => curr_available_value
  | n + 1, curr_available_value =>
    addOmitted utxo_pool back n (curr_available_value + (utxo_pool.getD (back + 1 + n) default).getSelectionAmount)

/-- One iteration of the search loop, with its `++utxo_pool_index`; `.inl` is the `break` when
the backtrack has nothing left to deselect. -/
def bnbStep (utxo_pool : List OutputGroup) (selection_target cost_of_change max_weight : Int)
    (is_feerate_high : Bool) (st : BnBState) : BnBState ⊕ BnBState :=
  let (backtrack, st) :=
    if st.curr_value + st.curr_available_value < selection_target ∨
        st.curr_value > selection_target + cost_of_change ∨
        (st.curr_waste > st.best_waste ∧ is_feerate_high = true) then (true, st)
    else if st.curr_selection_weight > max_weight then (true, { st with max_tx_weight_exceeded := true })
    else if st.curr_value ≥ selection_target then
      -- the excess counts as waste for the comparison only
      let curr_waste := st.curr_waste + (st.curr_value - selection_target)
      let st := if curr_waste ≤ st.best_waste then
          { st with best_selection := st.curr_selection, best_waste := curr_waste }
        else st
      (true, { st with curr_waste := curr_waste - (st.curr_value - selection_target) })
    else (false, st)
  if backtrack then
    match st.curr_selection with
    | [] => .inl st
    | back :: curr_selection =>
      -- the last included group is excluded now
      let utxo := utxo_pool.getD back default
      .inr { st with
        curr_available_value := addOmitted utxo_pool back (st.utxo_pool_index - 1 - back) st.curr_available_value
        curr_value := st.curr_value - utxo.getSelectionAmount
        curr_waste := st.curr_waste - (utxo.fee - utxo.long_term_fee)
        curr_selection_weight := st.curr_selection_weight - utxo.m_weight
        curr_selection
        utxo_pool_index := back + 1 }
  else
    let utxo := utxo_pool.getD st.utxo_pool_index default
    let curr_available_value := st.curr_available_value - utxo.getSelectionAmount
    let previous := utxo_pool.getD (st.utxo_pool_index - 1) default
    -- a group equal in amount and fee to an excluded predecessor is not tried again
    if st.curr_selection = [] ∨ st.curr_selection.head? = some (st.utxo_pool_index - 1) ∨
        utxo.getSelectionAmount ≠ previous.getSelectionAmount ∨ utxo.fee ≠ previous.fee then
      .inr { st with
        curr_available_value
        curr_selection := st.utxo_pool_index :: st.curr_selection
        curr_value := st.curr_value + utxo.getSelectionAmount
        curr_waste := st.curr_waste + (utxo.fee - utxo.long_term_fee)
        curr_selection_weight := st.curr_selection_weight + utxo.m_weight
        utxo_pool_index := st.utxo_pool_index + 1 }
    else .inr { st with curr_available_value, utxo_pool_index := st.utxo_pool_index + 1 }

/-- `for (size_t curr_try = 0, ...; curr_try < TOTAL_TRIES; ++curr_try, ...)`, with `fuel` tries
left; it returns the last state and `curr_try`. -/
def bnbLoop (utxo_pool : List OutputGroup) (selection_target cost_of_change max_weight : Int)
    (is_feerate_high : Bool) : Nat → Nat → BnBState → BnBState × Nat
  | 0, curr_try, st => (st, curr_try)
  | fuel + 1, curr_try, st =>
    match bnbStep utxo_pool selection_target cost_of_change max_weight is_feerate_high st with
    | .inl st => (st, curr_try)
    | .inr st => bnbLoop utxo_pool selection_target cost_of_change max_weight is_feerate_high fuel (curr_try + 1) st

/-- The search over the sorted pool, from the state `SelectCoinsBnB` sets up. -/
def bnbSearch (utxo_pool : List OutputGroup) (curr_available_value selection_target cost_of_change max_weight : Int) :
    BnBState × Nat :=
  let is_feerate_high := decide ((utxo_pool.getD 0 default).fee > (utxo_pool.getD 0 default).long_term_fee)
  bnbLoop utxo_pool selection_target cost_of_change max_weight is_feerate_high TOTAL_TRIES 0
    ⟨0, curr_available_value, [], 0, 0, [], Primitives.MAX_MONEY.toInt, false, 0⟩

def selectCoinsBnB (utxo_pool : List OutputGroup) (selection_target cost_of_change max_weight : Int) :
    Except String SelectionResult :=
  let result := SelectionResult.make selection_target .BNB
  let curr_available_value := availableValue utxo_pool
  if curr_available_value < selection_target then .error ""
  else
    let utxo_pool := sortDescending utxo_pool
    let st := (bnbSearch utxo_pool curr_available_value selection_target cost_of_change max_weight).1
    if st.best_selection = [] then .error (if st.max_tx_weight_exceeded then ErrorMaxWeightExceeded else "")
    else
      let result := st.best_selection.reverse.foldl (fun r i => r.addInput (utxo_pool.getD i default)) result
      .ok (result.computeAndSetWaste cost_of_change cost_of_change 0)

/-! ### Soundness of the search -/

section Sums

/-- The sum of `f` over the groups at the indexes `is` of the pool. -/
def indexSum (f : OutputGroup → Int) (utxo_pool : List OutputGroup) (is : List Nat) : Int :=
  (is.map fun i => f (utxo_pool.getD i default)).sum

@[simp] theorem indexSum_nil (f : OutputGroup → Int) (utxo_pool : List OutputGroup) : indexSum f utxo_pool [] = 0 := rfl

@[simp] theorem indexSum_cons (f : OutputGroup → Int) (utxo_pool : List OutputGroup) (i : Nat) (is : List Nat) :
    indexSum f utxo_pool (i :: is) = f (utxo_pool.getD i default) + indexSum f utxo_pool is := by
  simp [indexSum]

theorem sum_map_reverse_getD (f : OutputGroup → Int) (utxo_pool : List OutputGroup) (is : List Nat) :
    ((is.reverse.map (utxo_pool.getD · default)).map f).sum = indexSum f utxo_pool is := by
  rw [List.map_map, List.map_reverse, List.sum_reverse]
  rfl

/-- The lookahead from index `i`: the value of the groups not visited yet. -/
def lookahead (utxo_pool : List OutputGroup) (i : Nat) : Int :=
  ∑ j ∈ Finset.Ico i utxo_pool.length, (utxo_pool.getD j default).getSelectionAmount

theorem addOmitted_eq (utxo_pool : List OutputGroup) (back : Nat) : ∀ (n : Nat) (curr_available_value : Int),
    addOmitted utxo_pool back n curr_available_value = curr_available_value +
      ∑ j ∈ Finset.Ico (back + 1) (back + 1 + n), (utxo_pool.getD j default).getSelectionAmount
  | 0, _ => by simp [addOmitted]
  | n + 1, curr_available_value => by
    rw [addOmitted, addOmitted_eq utxo_pool back n, ← add_assoc (back + 1) n 1,
      Finset.sum_Ico_succ_top (by omega)]
    ring

/-- Backtracking from `utxo_pool_index` to `back + 1` gives back the groups in between. -/
theorem lookahead_addOmitted {utxo_pool : List OutputGroup} {back i : Nat} (hback : back < i)
    (hi : i ≤ utxo_pool.length) :
    addOmitted utxo_pool back (i - 1 - back) (lookahead utxo_pool i) = lookahead utxo_pool (back + 1) := by
  rw [addOmitted_eq, show back + 1 + (i - 1 - back) = i by omega, lookahead, lookahead, add_comm,
    Finset.sum_Ico_consecutive _ (by omega) hi]

theorem lookahead_succ {utxo_pool : List OutputGroup} {i : Nat} (hi : i < utxo_pool.length) :
    lookahead utxo_pool i = (utxo_pool.getD i default).getSelectionAmount + lookahead utxo_pool (i + 1) :=
  Finset.sum_eq_sum_Ico_succ_bot hi _

theorem lookahead_of_le {utxo_pool : List OutputGroup} {i : Nat} (hi : utxo_pool.length ≤ i) :
    lookahead utxo_pool i = 0 := by
  rw [lookahead, Finset.Ico_eq_empty_of_le hi, Finset.sum_empty]

theorem lookahead_zero (utxo_pool : List OutputGroup) : lookahead utxo_pool 0 = amountOf utxo_pool := by
  rw [lookahead, ← Finset.range_eq_Ico, sum_range_getD]

theorem availableValue_eq (utxo_pool : List OutputGroup) : availableValue utxo_pool = amountOf utxo_pool := by
  have h : ∀ (l : List OutputGroup) (acc : Int),
      l.foldl (fun curr_available_value utxo => curr_available_value + utxo.getSelectionAmount) acc =
        acc + amountOf l := by
    intro l
    induction l with
    | nil => simp
    | cons g l ih => intro acc; rw [List.foldl_cons, ih, amountOf_cons]; ring
  rw [availableValue, h, zero_add]

theorem amountOf_sortDescending (utxo_pool : List OutputGroup) :
    amountOf (sortDescending utxo_pool) = amountOf utxo_pool :=
  amountOf_perm (List.perm_insertionSort _ _)

end Sums

section Invariant

variable (utxo_pool : List OutputGroup) (selection_target cost_of_change max_weight : Int)

/-- A selection the search may return: indexes of the pool, in range and within the weight, with
`best_waste` its waste. -/
structure BestOk (best_selection : List Nat) (best_waste : Int) : Prop where
  lt_length : ∀ i ∈ best_selection, i < utxo_pool.length
  reach : selection_target ≤ indexSum OutputGroup.getSelectionAmount utxo_pool best_selection
  within : indexSum OutputGroup.getSelectionAmount utxo_pool best_selection ≤ selection_target + cost_of_change
  weight_le : indexSum OutputGroup.m_weight utxo_pool best_selection ≤ max_weight
  waste_eq : best_waste = indexSum (fun g => g.fee - g.long_term_fee) utxo_pool best_selection +
    (indexSum OutputGroup.getSelectionAmount utxo_pool best_selection - selection_target)

/-- The loop invariant: the running sums are those of `curr_selection`, whose indexes fall
below `utxo_pool_index` and decrease from its head; the lookahead is the value from
`utxo_pool_index` on; a recorded best selection is one the search may return. -/
structure SearchInv (st : BnBState) : Prop where
  index_le : st.utxo_pool_index ≤ utxo_pool.length
  lt_index : ∀ i ∈ st.curr_selection, i < st.utxo_pool_index
  sorted : st.curr_selection.Pairwise (· > ·)
  value_eq : st.curr_value = indexSum OutputGroup.getSelectionAmount utxo_pool st.curr_selection
  waste_eq : st.curr_waste = indexSum (fun g => g.fee - g.long_term_fee) utxo_pool st.curr_selection
  weight_eq : st.curr_selection_weight = indexSum OutputGroup.m_weight utxo_pool st.curr_selection
  available_eq : st.curr_available_value = lookahead utxo_pool st.utxo_pool_index
  best : st.best_selection ≠ [] →
    BestOk utxo_pool selection_target cost_of_change max_weight st.best_selection st.best_waste

/-- What one iteration keeps: the invariant when the loop goes on, the best selection at the
`break`. -/
def StepInv : BnBState ⊕ BnBState → Prop
  | .inl st => st.best_selection ≠ [] →
      BestOk utxo_pool selection_target cost_of_change max_weight st.best_selection st.best_waste
  | .inr st => SearchInv utxo_pool selection_target cost_of_change max_weight st

variable {utxo_pool selection_target cost_of_change max_weight}

theorem searchInv_init (curr_available_value : Int) (h : curr_available_value = lookahead utxo_pool 0) :
    SearchInv utxo_pool selection_target cost_of_change max_weight
      ⟨0, curr_available_value, [], 0, 0, [], Primitives.MAX_MONEY.toInt, false, 0⟩ :=
  ⟨Nat.zero_le _, by simp, List.Pairwise.nil, rfl, rfl, rfl, h, fun h => absurd rfl h⟩

/-- Recording the current selection, in range and within the weight, as the best. -/
theorem SearchInv.record {st : BnBState} (h : SearchInv utxo_pool selection_target cost_of_change max_weight st)
    (hreach : selection_target ≤ st.curr_value) (hwithin : st.curr_value ≤ selection_target + cost_of_change)
    (hweight : st.curr_selection_weight ≤ max_weight) :
    SearchInv utxo_pool selection_target cost_of_change max_weight
      { st with best_selection := st.curr_selection, best_waste := st.curr_waste + (st.curr_value - selection_target) } :=
  { h with
    best := fun _ =>
      ⟨fun i hi => lt_of_lt_of_le (h.lt_index i hi) h.index_le, h.value_eq ▸ hreach, h.value_eq ▸ hwithin,
        h.weight_eq ▸ hweight, by rw [h.waste_eq, h.value_eq]⟩ }

/-- The backtrack: the last included group is excluded, and the groups after it return to the
lookahead. -/
theorem SearchInv.pop {st : BnBState} {back : Nat} {rest : List Nat}
    (h : SearchInv utxo_pool selection_target cost_of_change max_weight st) (hsel : st.curr_selection = back :: rest) :
    SearchInv utxo_pool selection_target cost_of_change max_weight { st with
      curr_available_value := addOmitted utxo_pool back (st.utxo_pool_index - 1 - back) st.curr_available_value
      curr_value := st.curr_value - (utxo_pool.getD back default).getSelectionAmount
      curr_waste := st.curr_waste - ((utxo_pool.getD back default).fee - (utxo_pool.getD back default).long_term_fee)
      curr_selection_weight := st.curr_selection_weight - (utxo_pool.getD back default).m_weight
      curr_selection := rest
      utxo_pool_index := back + 1 } := by
  have hback : back < st.utxo_pool_index := h.lt_index back (by simp [hsel])
  have hsorted := h.sorted
  rw [hsel, List.pairwise_cons] at hsorted
  have hle := h.index_le
  refine ⟨by dsimp only; omega, fun i hi => by have := hsorted.1 i hi; dsimp only; omega, hsorted.2, ?_, ?_, ?_, ?_,
    h.best⟩ <;> dsimp only
  · rw [h.value_eq, hsel, indexSum_cons]; ring
  · rw [h.waste_eq, hsel, indexSum_cons]; ring
  · rw [h.weight_eq, hsel, indexSum_cons]; ring
  · rw [h.available_eq]
    exact lookahead_addOmitted hback hle

/-- Moving forwards with the group at `utxo_pool_index` included. -/
theorem SearchInv.include {st : BnBState} (h : SearchInv utxo_pool selection_target cost_of_change max_weight st)
    (hidx : st.utxo_pool_index < utxo_pool.length) :
    SearchInv utxo_pool selection_target cost_of_change max_weight { st with
      curr_available_value := st.curr_available_value - (utxo_pool.getD st.utxo_pool_index default).getSelectionAmount
      curr_selection := st.utxo_pool_index :: st.curr_selection
      curr_value := st.curr_value + (utxo_pool.getD st.utxo_pool_index default).getSelectionAmount
      curr_waste := st.curr_waste +
        ((utxo_pool.getD st.utxo_pool_index default).fee - (utxo_pool.getD st.utxo_pool_index default).long_term_fee)
      curr_selection_weight := st.curr_selection_weight + (utxo_pool.getD st.utxo_pool_index default).m_weight
      utxo_pool_index := st.utxo_pool_index + 1 } := by
  refine ⟨by dsimp only; omega, fun i hi => ?_, List.pairwise_cons.mpr ⟨h.lt_index, h.sorted⟩, ?_, ?_, ?_, ?_,
    h.best⟩ <;> dsimp only
  · rcases List.mem_cons.mp hi with rfl | hi
    · omega
    · have := h.lt_index i hi; omega
  · rw [h.value_eq, indexSum_cons]; ring
  · rw [h.waste_eq, indexSum_cons]; ring
  · rw [h.weight_eq, indexSum_cons]; ring
  · rw [h.available_eq, lookahead_succ hidx]; ring

/-- Moving forwards with the group at `utxo_pool_index` left out. -/
theorem SearchInv.exclude {st : BnBState} (h : SearchInv utxo_pool selection_target cost_of_change max_weight st)
    (hidx : st.utxo_pool_index < utxo_pool.length) :
    SearchInv utxo_pool selection_target cost_of_change max_weight { st with
      curr_available_value := st.curr_available_value - (utxo_pool.getD st.utxo_pool_index default).getSelectionAmount
      utxo_pool_index := st.utxo_pool_index + 1 } := by
  refine ⟨by dsimp only; omega, fun i hi => by have := h.lt_index i hi; dsimp only; omega, h.sorted, h.value_eq,
    h.waste_eq, h.weight_eq, ?_, h.best⟩
  dsimp only
  rw [h.available_eq, lookahead_succ hidx]
  ring

/-- The step lemma. Only a state that does not backtrack moves forwards, and then the
lookahead is not empty, so `utxo_pool_index` is inside the pool. -/
theorem bnbStep_inv (is_feerate_high : Bool) {st : BnBState}
    (h : SearchInv utxo_pool selection_target cost_of_change max_weight st) :
    StepInv utxo_pool selection_target cost_of_change max_weight
      (bnbStep utxo_pool selection_target cost_of_change max_weight is_feerate_high st) := by
  unfold bnbStep
  split
  rename_i backtrack st₁ hcheck
  have hchecked : SearchInv utxo_pool selection_target cost_of_change max_weight st₁ ∧
      (backtrack = false → st₁ = st ∧ st.curr_value < selection_target ∧
        selection_target ≤ st.curr_value + st.curr_available_value) := by
    split_ifs at hcheck with hout hheavy hreach
    · cases hcheck
      exact ⟨h, fun h => by cases h⟩
    · cases hcheck
      exact ⟨{ h with }, fun h => by cases h⟩
    · -- in range: the current selection may become the best, and `curr_waste` is restored
      cases hcheck
      refine ⟨?_, fun h => by cases h⟩
      have hrestore : st.curr_waste + (st.curr_value - selection_target) - (st.curr_value - selection_target) =
          st.curr_waste := by ring
      split_ifs
      · have hrec := h.record hreach (not_lt.mp fun h' => hout (.inr (.inl h'))) (not_lt.mp hheavy)
        exact { hrec with waste_eq := by rw [← h.waste_eq]; exact hrestore }
      · exact { h with waste_eq := by dsimp only; rw [hrestore]; exact h.waste_eq }
    · cases hcheck
      exact ⟨h, fun _ => ⟨rfl, lt_of_not_ge hreach, not_lt.mp fun h' => hout (.inl h')⟩⟩
  obtain ⟨hinv, hforward⟩ := hchecked
  cases backtrack with
  | true =>
    rw [if_pos rfl]
    split
    · exact hinv.best
    · rename_i back rest hsel
      exact hinv.pop hsel
  | false =>
    obtain ⟨rfl, hbelow, hreach⟩ := hforward rfl
    have hidx : st₁.utxo_pool_index < utxo_pool.length := by
      by_contra hend
      have := h.available_eq
      rw [lookahead_of_le (not_lt.mp hend)] at this
      omega
    rw [if_neg Bool.false_ne_true]
    dsimp only
    split_ifs
    · exact hinv.include hidx
    · exact hinv.exclude hidx

/-- The run lemma: from the invariant, whatever the loop ends with is a best selection the search
may return. -/
theorem bnbLoop_best (is_feerate_high : Bool) : ∀ (fuel curr_try : Nat) (st : BnBState),
    SearchInv utxo_pool selection_target cost_of_change max_weight st →
      (bnbLoop utxo_pool selection_target cost_of_change max_weight is_feerate_high fuel curr_try st).1.best_selection ≠ [] →
      BestOk utxo_pool selection_target cost_of_change max_weight
        (bnbLoop utxo_pool selection_target cost_of_change max_weight is_feerate_high fuel curr_try st).1.best_selection
        (bnbLoop utxo_pool selection_target cost_of_change max_weight is_feerate_high fuel curr_try st).1.best_waste
  | 0, _, _, h => h.best
  | fuel + 1, curr_try, st, h => by
    have hstep := bnbStep_inv is_feerate_high h
    rw [bnbLoop]
    split
    · rename_i st' heq
      rw [heq] at hstep
      exact hstep
    · rename_i st' heq
      rw [heq] at hstep
      exact bnbLoop_best is_feerate_high fuel (curr_try + 1) st' hstep

end Invariant

section Waste

theorem use_effective_foldl_addInput {f : Bool} : ∀ (l : List OutputGroup) (r : SelectionResult),
    (∀ g ∈ l, g.m_subtract_fee_outputs = f) → l ≠ [] → (l.foldl SelectionResult.addInput r).m_use_effective = !f
  | [], _, _, hne => absurd rfl hne
  | [g], r, hf, _ => by simp [SelectionResult.addInput, hf g List.mem_cons_self]
  | g :: g' :: l, r, hf, _ =>
    use_effective_foldl_addInput (g' :: l) (r.addInput g) (fun x hx => hf x (List.mem_cons_of_mem _ hx)) (by simp)

theorem target_foldl_addInput : ∀ (l : List OutputGroup) (r : SelectionResult),
    (l.foldl SelectionResult.addInput r).m_target = r.m_target
  | [], _ => rfl
  | g :: l, r => target_foldl_addInput l (r.addInput g)

/-- With one flag for every group, the value `GetChange` reads is the selection amount. -/
theorem selectedValue_of_uniform {r : SelectionResult} {f : Bool}
    (hf : ∀ g ∈ r.m_selected_inputs, g.m_subtract_fee_outputs = f) (huse : r.m_use_effective = !f) :
    (if r.m_use_effective then r.getSelectedEffectiveValue else r.getSelectedValue) = r.selectedAmount := by
  rw [huse, SelectionResult.selectedAmount]
  cases f with
  | false =>
    refine congrArg List.sum (List.map_congr_left fun g hg => ?_)
    simp [OutputGroup.getSelectionAmount, hf g hg]
  | true =>
    refine congrArg List.sum (List.map_congr_left fun g hg => ?_)
    simp [OutputGroup.getSelectionAmount, hf g hg]

/-- `ComputeAndSetWaste(cost_of_change, cost_of_change, 0)` on a selection in range: with or
without change, the waste is the inputs' term plus the excess over the target. -/
theorem computeAndSetWaste_of_uniform {r : SelectionResult} {f : Bool} (cost_of_change : Int)
    (hf : ∀ g ∈ r.m_selected_inputs, g.m_subtract_fee_outputs = f) (huse : r.m_use_effective = !f)
    (hreach : r.m_target ≤ r.selectedAmount) (hwithin : r.selectedAmount ≤ r.m_target + cost_of_change) :
    (r.computeAndSetWaste cost_of_change cost_of_change 0).m_waste =
      some ((r.m_selected_inputs.map fun g => g.fee - g.long_term_fee).sum + (r.selectedAmount - r.m_target)) := by
  have hval := selectedValue_of_uniform hf huse
  have hexcess : (if r.m_use_effective then r.getSelectedEffectiveValue - r.m_target - 0
      else r.getSelectedValue - r.m_target) = r.selectedAmount - r.m_target := by
    rw [← hval]
    split_ifs <;> ring
  have hchange : r.getChange cost_of_change 0 =
      if r.selectedAmount - r.m_target < cost_of_change then 0 else r.selectedAmount - r.m_target := by
    simp only [SelectionResult.getChange, hexcess]
  simp only [SelectionResult.computeAndSetWaste, hchange, SelectionResult.getSelectionWaste, hval, Option.some.injEq]
  -- change only when the excess is exactly `cost_of_change`, which is then the cost of change
  split_ifs <;> omega

end Waste

/-- A result of `SelectCoinsBnB` selects groups of the pool whose amount lies in
`[selection_target, selection_target + cost_of_change]` and whose weight is within `max_weight`.
When every group of the pool has the same `m_subtract_fee_outputs`, its waste as
`ComputeAndSetWaste` sets it is the `best_waste` of the search: the groups' `fee - long_term_fee`
plus the excess over the target. -/
theorem selectCoinsBnB_sound (utxo_pool : List OutputGroup) (selection_target cost_of_change max_weight : Int)
    {r : SelectionResult} (h : selectCoinsBnB utxo_pool selection_target cost_of_change max_weight = .ok r) :
    (∀ g ∈ r.m_selected_inputs, g ∈ utxo_pool) ∧
      selection_target ≤ r.selectedAmount ∧ r.selectedAmount ≤ selection_target + cost_of_change ∧
      r.getWeight ≤ max_weight ∧
      ((∃ f, ∀ g ∈ utxo_pool, g.m_subtract_fee_outputs = f) →
        r.m_waste = some (bnbSearch (sortDescending utxo_pool) (availableValue utxo_pool) selection_target
          cost_of_change max_weight).1.best_waste ∧
        r.m_waste = some ((r.m_selected_inputs.map fun g => g.fee - g.long_term_fee).sum +
          (r.selectedAmount - selection_target))) := by
  dsimp only [selectCoinsBnB] at h
  split_ifs at h with hlow hempty
  cases h
  have hbest : BestOk (sortDescending utxo_pool) selection_target cost_of_change max_weight
      (bnbSearch (sortDescending utxo_pool) (availableValue utxo_pool) selection_target cost_of_change
        max_weight).1.best_selection
      (bnbSearch (sortDescending utxo_pool) (availableValue utxo_pool) selection_target cost_of_change
        max_weight).1.best_waste :=
    bnbLoop_best _ TOTAL_TRIES 0 _
      (searchInv_init _ (by rw [lookahead_zero, amountOf_sortDescending, availableValue_eq])) hempty
  set best := (bnbSearch (sortDescending utxo_pool) (availableValue utxo_pool) selection_target cost_of_change
    max_weight).1.best_selection with hbest_def
  -- the result holds the groups at the best indexes, in the order they were pushed
  set groups := best.reverse.map ((sortDescending utxo_pool).getD · default) with hgroups
  rw [← List.foldl_map]
  obtain ⟨hsel, hweight⟩ := foldl_addInput groups (SelectionResult.make selection_target .BNB)
  rw [selected_inputs_make, List.nil_append] at hsel
  have hamount : (groups.foldl SelectionResult.addInput (SelectionResult.make selection_target .BNB)).selectedAmount =
      indexSum OutputGroup.getSelectionAmount (sortDescending utxo_pool) best := by
    rw [SelectionResult.selectedAmount, hsel, hgroups, sum_map_reverse_getD]
  have hmem : ∀ g ∈ groups, g ∈ utxo_pool := fun g hg => by
    obtain ⟨i, hi, rfl⟩ := List.mem_map.mp hg
    have hlt := hbest.lt_length i (List.mem_reverse.mp hi)
    rw [List.getD_eq_getElem _ _ hlt]
    exact (List.perm_insertionSort _ _).mem_iff.mp (List.getElem_mem hlt)
  refine ⟨fun g hg => hmem g (hsel ▸ hg), hamount ▸ hbest.reach, hamount ▸ hbest.within, ?_, ?_⟩
  · change (groups.foldl SelectionResult.addInput (SelectionResult.make selection_target .BNB)).m_weight ≤ max_weight
    rw [hweight, weightOf, hgroups, sum_map_reverse_getD]
    exact (zero_add _).trans_le hbest.weight_le
  · rintro ⟨f, hf⟩
    have hflag : ∀ g ∈ groups, g.m_subtract_fee_outputs = f := fun g hg => hf g (hmem g hg)
    have hne : groups ≠ [] := by simpa [hgroups] using hempty
    have hwaste := computeAndSetWaste_of_uniform (r := groups.foldl SelectionResult.addInput
        (SelectionResult.make selection_target .BNB)) cost_of_change (by rw [hsel]; exact hflag)
      (use_effective_foldl_addInput groups _ hflag hne)
      (by rw [target_foldl_addInput, hamount]; exact hbest.reach)
      (by rw [target_foldl_addInput, hamount]; exact hbest.within)
    rw [target_foldl_addInput] at hwaste
    refine ⟨?_, hwaste⟩
    rw [hwaste, hbest.waste_eq, hamount, hsel, hgroups, sum_map_reverse_getD]
    rfl

/-- `SelectCoinsBnB` is sound, but the shortcut past a group equal in amount and fee to an
excluded predecessor ignores the group's weight. From `20` of weight 1 and two `10`s, the first
of weight 100, it reports the maximum weight exceeded after a few tries, though `20` and the
light `10` reach the target `30` exactly within the maximum weight `60`. And the waste the search
tracks is the result's only for a pool of one `m_subtract_fee_outputs`: with mixed flags the
assertion this fork disabled fails. -/
theorem selectCoinsBnB_skips_equal_groups_by_weight :
    (∀ (utxo_pool : List OutputGroup) (selection_target cost_of_change max_weight : Int) (r : SelectionResult),
      selectCoinsBnB utxo_pool selection_target cost_of_change max_weight = .ok r →
      (∀ g ∈ r.m_selected_inputs, g ∈ utxo_pool) ∧
        selection_target ≤ r.selectedAmount ∧ r.selectedAmount ≤ selection_target + cost_of_change ∧
        r.getWeight ≤ max_weight ∧
        ((∃ f, ∀ g ∈ utxo_pool, g.m_subtract_fee_outputs = f) →
          r.m_waste = some (bnbSearch (sortDescending utxo_pool) (availableValue utxo_pool) selection_target
            cost_of_change max_weight).1.best_waste ∧
          r.m_waste = some ((r.m_selected_inputs.map fun g => g.fee - g.long_term_fee).sum +
            (r.selectedAmount - selection_target)))) ∧
    (selectCoinsBnB [⟨20, 20, 1, 1, false, 1⟩, ⟨10, 10, 1, 1, false, 100⟩, ⟨10, 10, 1, 1, false, 1⟩] 30 0 60 =
        .error ErrorMaxWeightExceeded ∧
      (bnbSearch (sortDescending [⟨20, 20, 1, 1, false, 1⟩, ⟨10, 10, 1, 1, false, 100⟩, ⟨10, 10, 1, 1, false, 1⟩])
        40 30 0 60).2 < TOTAL_TRIES ∧
      amountOf [⟨20, 20, 1, 1, false, 1⟩, ⟨10, 10, 1, 1, false, 1⟩] = 30 ∧
      weightOf [⟨20, 20, 1, 1, false, 1⟩, ⟨10, 10, 1, 1, false, 1⟩] ≤ 60) ∧
    (selectCoinsBnB [⟨11, 10, 1, 1, false, 4⟩, ⟨5, 4, 1, 1, true, 4⟩] 15 0 100 =
        .ok ⟨[⟨11, 10, 1, 1, false, 4⟩, ⟨5, 4, 1, 1, true, 4⟩], 15, .BNB, false, some 1, 8⟩ ∧
      (bnbSearch (sortDescending [⟨11, 10, 1, 1, false, 4⟩, ⟨5, 4, 1, 1, true, 4⟩]) 15 15 0 100).1.best_waste = 0) :=
  ⟨fun utxo_pool selection_target cost_of_change max_weight _ h =>
      selectCoinsBnB_sound utxo_pool selection_target cost_of_change max_weight h,
    ⟨by decide +kernel, by decide +kernel, by decide, by decide⟩, ⟨by decide +kernel, by decide +kernel⟩⟩

theorem selectCoinsBnB_skips_equal_groups_by_weight_pair :
    (SelectionResult.mk [⟨10, 10, 1, 5, false, 4⟩] 10 .BNB true (some (-4)) 4).getWeight ≤ 100 ∧
      (SelectionResult.mk [⟨10, 10, 1, 5, false, 4⟩] 10 .BNB true (some (-4)) 4).m_waste =
        some (bnbSearch (sortDescending [⟨10, 10, 1, 5, false, 4⟩, ⟨2, 2, 1, 5, false, 4⟩])
          (availableValue [⟨10, 10, 1, 5, false, 4⟩, ⟨2, 2, 1, 5, false, 4⟩]) 10 5 100).1.best_waste :=
  have h := selectCoinsBnB_skips_equal_groups_by_weight.1 [⟨10, 10, 1, 5, false, 4⟩, ⟨2, 2, 1, 5, false, 4⟩] 10 5 100
    _ (by decide +kernel)
  ⟨h.2.2.2.1, (h.2.2.2.2 ⟨false, by decide⟩).1⟩

end BlackcoinMore.CoinSelection
