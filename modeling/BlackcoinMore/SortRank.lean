import Mathlib

/-! Order statistics of a sorted list, by counting: the `k`-th of an ascending list is at least
`M` exactly when at most `k` of its elements lie below `M`. A median read off `List.mergeSort`
therefore depends only on how many values lie below a bound, which gives how a median moves
when its window slides. -/

namespace BlackcoinMore.SortRank

variable {α : Type} [LinearOrder α]

/-- The `k`-th of an ascending list is at least `M` exactly when at most `k` of its elements are
below `M`. -/
theorem le_getElem_iff_countP {s : List α} (hs : s.Pairwise (· ≤ ·)) {k : Nat} (hk : k < s.length) (M : α) :
    M ≤ s[k] ↔ s.countP (fun x => decide (x < M)) ≤ k := by
  constructor
  · intro hM
    -- from the `k`-th on, nothing is below `M`
    have hdrop : (s.drop k).countP (fun x => decide (x < M)) = 0 := by
      rw [List.countP_eq_zero, List.drop_eq_getElem_cons hk]
      have hsorted := hs.sublist (List.drop_sublist k s)
      rw [List.drop_eq_getElem_cons hk, List.pairwise_cons] at hsorted
      intro x hx
      simp only [decide_eq_true_eq, not_lt]
      rcases List.mem_cons.mp hx with rfl | hx
      · exact hM
      · exact hM.trans (hsorted.1 x hx)
    have htake : (s.take k).countP (fun x => decide (x < M)) ≤ k :=
      Nat.le_trans List.countP_le_length (List.length_take_le k s)
    rw [← List.take_append_drop k s, List.countP_append, hdrop]
    exact htake
  · intro hcount
    by_contra hlt
    rw [not_le] at hlt
    -- the first `k + 1` are all at most the `k`-th, so all below `M`
    have hsorted := hs.sublist (List.take_sublist (k + 1) s)
    rw [List.take_add_one, List.getElem?_eq_getElem hk, Option.toList_some, List.pairwise_append] at hsorted
    have hall : (s.take (k + 1)).countP (fun x => decide (x < M)) = k + 1 := by
      rw [List.countP_eq_length.mpr, List.length_take, Nat.min_eq_left (by omega)]
      intro x hx
      rw [List.take_add_one, List.getElem?_eq_getElem hk, Option.toList_some] at hx
      rcases List.mem_append.mp hx with hx | hx
      · exact decide_eq_true ((hsorted.2.2 x hx s[k] (by simp)).trans_lt hlt)
      · rw [List.mem_singleton.mp hx]
        exact decide_eq_true hlt
    have hle : (s.take (k + 1)).countP (fun x => decide (x < M)) ≤ s.countP (fun x => decide (x < M)) :=
      (List.take_sublist (k + 1) s).countP_le
    omega

/-- The `k`-th of a list sorted by `mergeSort`, by counting in the list itself. -/
theorem le_getD_mergeSort_iff (l : List α) {k : Nat} (hk : k < l.length) (M d : α) :
    M ≤ (l.mergeSort fun a b => decide (a ≤ b)).getD k d ↔ l.countP (fun x => decide (x < M)) ≤ k := by
  have hlen : k < (l.mergeSort fun a b => decide (a ≤ b)).length := by rw [List.length_mergeSort]; exact hk
  have hsorted := @List.pairwise_mergeSort α (fun a b => decide (a ≤ b))
    (fun a b c hab hbc => by simp only [decide_eq_true_eq] at *; exact hab.trans hbc)
    (fun a b => by simp only [Bool.or_eq_true, decide_eq_true_eq]; exact le_total a b) l
  simp only [decide_eq_true_eq] at hsorted
  rw [List.getD_eq_getElem _ _ hlen, le_getElem_iff_countP hsorted hlen,
    (List.mergeSort_perm l _).countP_eq]

/-- The middle of `l` sorted: `l.mergeSort`'s entry at half its length. -/
def middle (l : List α) (d : α) : α :=
  (l.mergeSort fun a b => decide (a ≤ b)).getD ((l.mergeSort fun a b => decide (a ≤ b)).length / 2) d

theorem middle_eq (l : List α) (d : α) :
    middle l d = (l.mergeSort fun a b => decide (a ≤ b)).getD (l.length / 2) d := by
  rw [middle, List.length_mergeSort]

/-- A window that drops what is past its `n + 1` newest values and takes a new value at least its
middle keeps a middle at least as high. -/
theorem middle_le_middle_cons_take {l : List α} (hl : l ≠ []) {n : Nat} (hn : l.length ≤ n + 1) (d : α) {a : α}
    (ha : middle l d ≤ a) : middle l d ≤ middle (a :: l.take n) d := by
  have hpos : 0 < l.length := List.length_pos_iff.mpr hl
  -- at most half of `l` is below its own middle
  have hl_half : l.countP (fun x => decide (x < middle l d)) ≤ l.length / 2 :=
    (le_getD_mergeSort_iff l (by omega) (middle l d) d).mp (by rw [← middle_eq])
  have htake : (l.take n).countP (fun x => decide (x < middle l d)) ≤ l.countP (fun x => decide (x < middle l d)) :=
    (List.take_sublist n l).countP_le
  have hlen : (a :: l.take n).length = min n l.length + 1 := by simp
  have hnot : ¬a < middle l d := not_lt.mpr ha
  rw [middle_eq (a :: l.take n), le_getD_mergeSort_iff _ (by rw [hlen]; omega), List.countP_cons,
    if_neg (by simpa using hnot), hlen]
  omega

end BlackcoinMore.SortRank
