import BlackcoinMore.SerializeRoundTrip
import BlackcoinMore.Merkle

/-! `CPartialMerkleTree` of `merkleblock.cpp`: the depth-first encoding of a block's merkle tree
that `TraverseAndBuild` writes for a set of matched txids (a flag bit per visited node, a hash
per subtree it does not enter), and `ExtractMatches`, which walks the same tree over the stored
bits and hashes to recover the root and the matches. Hashing is a parameter. -/
namespace BlackcoinMore.PartialMerkle
open Primitives ByteCodec Serialize Coins Merkle

/-- `MIN_TRANSACTION_WEIGHT`: 60 bytes, the least a valid transaction serializes to. -/
def MIN_TRANSACTION_WEIGHT : Nat := WITNESS_SCALE_FACTOR * 60

section
variable (hash256 : Bytes → Uint256)

/-- `Hash(left, right)`: double SHA-256 of the two hashes, 64 bytes. -/
def hashNode (left right : Uint256) : Uint256 :=
  hash256 (serializeUint256 left ++ serializeUint256 right)

/-- `CalcTreeWidth`: the number of nodes at `height` of the tree over `nTransactions` leaves. -/
def calcTreeWidth (nTransactions height : Nat) : Nat :=
  (nTransactions + (1 <<< height) - 1) >>> height

/-- The loop of the constructor and of `ExtractMatches` that finds the height of the root. -/
def treeHeightFrom (nTransactions nHeight : Nat) : Nat :=
  if h : calcTreeWidth nTransactions nHeight > 1 then treeHeightFrom nTransactions (nHeight + 1)
  else nHeight
termination_by nTransactions - 2 ^ nHeight
decreasing_by
  simp only [calcTreeWidth, Nat.shiftLeft_eq, one_mul, Nat.shiftRight_eq_div_pow] at h
  have h2 : 2 * 2 ^ nHeight ≤ nTransactions + 2 ^ nHeight - 1 :=
    (Nat.le_div_iff_mul_le (Nat.two_pow_pos nHeight)).mp h
  have := Nat.two_pow_pos nHeight
  rw [Nat.pow_succ]
  omega

def treeHeight (nTransactions : Nat) : Nat := treeHeightFrom nTransactions 0

/-- `CalcHash`: the hash of node `pos` at `height`, the txids themselves at height 0; a node
without a right child hashes its left child with itself. -/
def calcHash (nTransactions : Nat) (vTxid : List Uint256) : Nat → Nat → Uint256
  | 0, pos => vTxid.getD pos 0
  | height + 1, pos =>
    let left := calcHash nTransactions vTxid height (pos * 2)
    let right :=
      if pos * 2 + 1 < calcTreeWidth nTransactions height then calcHash nTransactions vTxid height (pos * 2 + 1)
      else left
    hashNode hash256 left right

/-- The loop of `TraverseAndBuild` that sets `fParentOfMatch`. The source stops at the first
position past `nTransactions`; every later one is past it too, so the fold skips them. -/
def parentOfMatch (nTransactions : Nat) (vMatch : List Bool) (height pos : Nat) : Bool :=
  (List.range' (pos <<< height) ((pos + 1) <<< height - pos <<< height)).foldl
    (fun fParentOfMatch p => fParentOfMatch || (decide (p < nTransactions) && vMatch.getD p false)) false

/-- `TraverseAndBuild`: the flag bits and the hashes it appends to `vBits` and `vHash` for the
subtree of node `pos` at `height`. -/
def traverseAndBuild (nTransactions : Nat) (vTxid : List Uint256) (vMatch : List Bool) :
    Nat → Nat → List Bool × List Uint256
  | 0, pos => ([parentOfMatch nTransactions vMatch 0 pos], [calcHash hash256 nTransactions vTxid 0 pos])
  | height + 1, pos =>
    let fParentOfMatch := parentOfMatch nTransactions vMatch (height + 1) pos
    if !fParentOfMatch then ([fParentOfMatch], [calcHash hash256 nTransactions vTxid (height + 1) pos])
    else
      let left := traverseAndBuild nTransactions vTxid vMatch height (pos * 2)
      let right :=
        if pos * 2 + 1 < calcTreeWidth nTransactions height then
          traverseAndBuild nTransactions vTxid vMatch height (pos * 2 + 1)
        else ([], [])
      (fParentOfMatch :: (left.1 ++ right.1), left.2 ++ right.2)

end

structure CPartialMerkleTree where
  nTransactions : Nat
  vBits : List Bool
  vHash : List Uint256
  fBad : Bool
  deriving DecidableEq, Repr

/-- The constructor `CPartialMerkleTree(vTxid, vMatch)`. -/
def CPartialMerkleTree.make (hash256 : Bytes → Uint256) (vTxid : List Uint256) (vMatch : List Bool) :
    CPartialMerkleTree :=
  let nHeight := treeHeight vTxid.length
  let built := traverseAndBuild hash256 vTxid.length vTxid vMatch nHeight 0
  ⟨vTxid.length, built.1, built.2, false⟩

/-- What `TraverseAndExtract` updates: its two cursors, the two output vectors and the tree's
`fBad`. -/
structure ExtractState where
  nBitsUsed : Nat
  nHashUsed : Nat
  vMatch : List Uint256
  vnIndex : List Nat
  fBad : Bool
  deriving DecidableEq, Repr

section
variable (hash256 : Bytes → Uint256)

/-- The branch of `TraverseAndExtract` that takes the next stored hash, a match when the node
is a leaf with its bit set. -/
def useStoredHash (t : CPartialMerkleTree) (height pos : Nat) (fParentOfMatch : Bool) (s : ExtractState) :
    Uint256 × ExtractState :=
  if t.vHash.length ≤ s.nHashUsed then (0, { s with fBad := true })
  else
    let hash := t.vHash.getD s.nHashUsed 0
    let s := { s with nHashUsed := s.nHashUsed + 1 }
    if height = 0 ∧ fParentOfMatch = true then
      (hash, { s with vMatch := s.vMatch ++ [hash], vnIndex := s.vnIndex ++ [pos] })
    else (hash, s)

/-- `TraverseAndExtract`: the hash of node `pos` at `height` from the bits and hashes under the
cursors. A failure sets `fBad` and the walk goes on. -/
def traverseAndExtract (t : CPartialMerkleTree) : Nat → Nat → ExtractState → Uint256 × ExtractState
  | height, pos, s =>
    if t.vBits.length ≤ s.nBitsUsed then (0, { s with fBad := true })
    else
      let fParentOfMatch := t.vBits.getD s.nBitsUsed false
      let s := { s with nBitsUsed := s.nBitsUsed + 1 }
      match height with
      | 0 => useStoredHash t 0 pos fParentOfMatch s
      | height + 1 =>
        if !fParentOfMatch then useStoredHash t (height + 1) pos fParentOfMatch s
        else
          let left := traverseAndExtract t height (pos * 2) s
          if pos * 2 + 1 < calcTreeWidth t.nTransactions height then
            let right := traverseAndExtract t height (pos * 2 + 1) left.2
            -- the two branches cover distinct txids, so equal hashes mean a forged tree
            (hashNode hash256 left.1 right.1, if right.1 = left.1 then { right.2 with fBad := true } else right.2)
          else (hashNode hash256 left.1 left.1, left.2)

/-- `ExtractMatches`: the merkle root, or 0 on failure, with the state the walk leaves. It
clears `vMatch` but appends to the `vnIndex` it is given. -/
def extractMatches (t : CPartialMerkleTree) (vnIndex : List Nat) : Uint256 × ExtractState :=
  let s₀ : ExtractState := ⟨0, 0, [], vnIndex, t.fBad⟩
  if t.nTransactions = 0 then (0, s₀)
  else if t.nTransactions > MAX_BLOCK_WEIGHT / MIN_TRANSACTION_WEIGHT then (0, s₀)
  else if t.vHash.length > t.nTransactions then (0, s₀)
  else if t.vBits.length < t.vHash.length then (0, s₀)
  else
    let nHeight := treeHeight t.nTransactions
    let r := traverseAndExtract hash256 t nHeight 0 s₀
    if r.2.fBad then (0, r.2)
    else if (r.2.nBitsUsed + 7) / 8 ≠ (t.vBits.length + 7) / 8 then (0, r.2)
    else if r.2.nHashUsed ≠ t.vHash.length then (0, r.2)
    else r

end


/-- One pass of the loop of `BitsToBytes`: `ret[p / 8] |= bits[p] << (p % 8)`. -/
def orBitInto (bits : List Bool) (ret : List UInt8) (p : Nat) : List UInt8 :=
  ret.modify (p / 8) (· ||| ((if bits.getD p false then 1 else 0) <<< (p % 8).toUInt8))

/-- `BitsToBytes`: eight flags to a byte, the first in the least significant bit. -/
def bitsToBytes (bits : List Bool) : List UInt8 :=
  (List.range bits.length).foldl (orBitInto bits) (List.replicate ((bits.length + 7) / 8) 0)

/-- `BytesToBits`. -/
def bytesToBits (bytes : List UInt8) : List Bool :=
  (List.range (bytes.length * 8)).map fun p => (bytes.getD (p / 8) 0 &&& (1 <<< (p % 8).toUInt8)) != 0

section Widths
variable {n : Nat}

theorem calcTreeWidth_eq (h : Nat) : calcTreeWidth n h = (n + 2 ^ h - 1) / 2 ^ h := by
  simp [calcTreeWidth, Nat.shiftLeft_eq, Nat.shiftRight_eq_div_pow]

@[simp] theorem calcTreeWidth_zero : calcTreeWidth n 0 = n := by simp [calcTreeWidth_eq]

/-- Node `p` exists at `h` exactly when its first leaf does. -/
theorem lt_calcTreeWidth {p h : Nat} : p < calcTreeWidth n h ↔ p * 2 ^ h < n := by
  have := Nat.two_pow_pos h
  rw [calcTreeWidth_eq, ← Nat.succ_le_iff, Nat.le_div_iff_mul_le this, Nat.succ_mul]
  omega

/-- A node exists exactly when its left child does. -/
theorem mul_two_lt_calcTreeWidth {p h : Nat} : p * 2 < calcTreeWidth n h ↔ p < calcTreeWidth n (h + 1) := by
  rw [lt_calcTreeWidth, lt_calcTreeWidth, Nat.pow_succ, Nat.mul_assoc, Nat.mul_comm 2]

theorem calcTreeWidth_succ (h : Nat) : calcTreeWidth n (h + 1) = (calcTreeWidth n h + 1) / 2 := by
  apply le_antisymm
  · apply le_of_forall_lt
    intro c hc
    have := mul_two_lt_calcTreeWidth.mpr hc
    omega
  · apply le_of_forall_lt
    intro c hc
    exact mul_two_lt_calcTreeWidth.mp (by omega)

theorem treeHeightFrom_spec (h : Nat) :
    ¬ 1 < calcTreeWidth n (treeHeightFrom n h) ∧
      ∀ k, h ≤ k → k < treeHeightFrom n h → 1 < calcTreeWidth n k := by
  fun_induction treeHeightFrom n h with
  | case1 h hw ih =>
    refine ⟨ih.1, fun k hk hlt => ?_⟩
    rcases Nat.eq_or_lt_of_le hk with rfl | hk
    · exact hw
    · exact ih.2 k hk hlt
  | case2 h hw => exact ⟨hw, fun k hk hlt => absurd hlt (by omega)⟩

/-- The loop stops at the first height with at most one node. -/
theorem treeHeight_spec :
    ¬ 1 < calcTreeWidth n (treeHeight n) ∧ ∀ k < treeHeight n, 1 < calcTreeWidth n k :=
  ⟨(treeHeightFrom_spec 0).1, fun k hk => (treeHeightFrom_spec 0).2 k (Nat.zero_le k) hk⟩

theorem le_two_pow_treeHeight : n ≤ 2 ^ treeHeight n := by
  have h := (treeHeight_spec (n := n)).1
  rw [lt_calcTreeWidth, one_mul] at h
  omega

theorem calcTreeWidth_treeHeight (hn : 0 < n) : calcTreeWidth n (treeHeight n) = 1 := by
  have h1 := (treeHeight_spec (n := n)).1
  have h0 : 0 < calcTreeWidth n (treeHeight n) := lt_calcTreeWidth.mpr (by simpa using hn)
  omega

end Widths

section Leaves
variable {n : Nat}

/-- The leaves below node `pos` at `height`, in increasing order. -/
def leavesBelow (n height pos : Nat) : List Nat :=
  (List.range' (pos * 2 ^ height) (2 ^ height)).filter (· < n)

theorem leavesBelow_succ (h p : Nat) :
    leavesBelow n (h + 1) p = leavesBelow n h (p * 2) ++ leavesBelow n h (p * 2 + 1) := by
  unfold leavesBelow
  rw [← List.filter_append, show (p * 2 + 1) * 2 ^ h = p * 2 * 2 ^ h + 2 ^ h by ring, List.range'_append_1]
  congr 2 <;> ring

theorem leavesBelow_zero (p : Nat) : leavesBelow n 0 p = if p < n then [p] else [] := by
  by_cases hp : p < n <;> simp [leavesBelow, hp]

theorem leavesBelow_eq_nil {h p : Nat} (hp : ¬ p < calcTreeWidth n h) : leavesBelow n h p = [] := by
  rw [lt_calcTreeWidth] at hp
  rw [leavesBelow, List.filter_eq_nil_iff]
  intro a ha
  simp only [List.mem_range'_1] at ha
  simp only [decide_eq_true_eq]
  omega

theorem leavesBelow_ne_nil {h p : Nat} (hp : p < calcTreeWidth n h) : leavesBelow n h p ≠ [] := by
  rw [lt_calcTreeWidth] at hp
  intro hnil
  have hmem : p * 2 ^ h ∈ leavesBelow n h p := by
    simp [leavesBelow, hp]
  simp [hnil] at hmem

theorem leavesBelow_root {H : Nat} (hn : n ≤ 2 ^ H) : leavesBelow n H 0 = List.range n := by
  have h1 : (List.range' 0 n).filter (· < n) = List.range n := by
    rw [List.filter_eq_self.mpr (by simp), List.range_eq_range']
  have h2 : (List.range' (0 + n) (2 ^ H - n)).filter (· < n) = [] := by
    rw [List.filter_eq_nil_iff]
    intro a ha
    simp only [List.mem_range'_1] at ha
    simp only [decide_eq_true_eq]
    omega
  rw [leavesBelow, Nat.zero_mul, show 2 ^ H = n + (2 ^ H - n) by omega, ← List.range'_append_1,
    List.filter_append, h1, h2, List.append_nil]

/-- The matched leaves below node `pos` at `height`, in increasing order. -/
def matchesBelow (n : Nat) (vMatch : List Bool) (height pos : Nat) : List Nat :=
  (leavesBelow n height pos).filter (vMatch.getD · false)

variable {vMatch : List Bool}

theorem parentOfMatch_eq (h p : Nat) :
    parentOfMatch n vMatch h p = (leavesBelow n h p).any (vMatch.getD · false) := by
  unfold parentOfMatch leavesBelow
  rw [foldl_or_eq_any, Bool.false_or, List.any_filter, Nat.shiftLeft_eq, Nat.shiftLeft_eq, Nat.add_mul,
    one_mul, Nat.add_sub_cancel_left]

theorem matchesBelow_eq_nil {h p : Nat} (hf : parentOfMatch n vMatch h p = false) :
    matchesBelow n vMatch h p = [] := by
  rw [parentOfMatch_eq, List.any_eq_false] at hf
  rw [matchesBelow, List.filter_eq_nil_iff]
  exact hf

theorem matchesBelow_succ (h p : Nat) :
    matchesBelow n vMatch (h + 1) p = matchesBelow n vMatch h (p * 2) ++ matchesBelow n vMatch h (p * 2 + 1) := by
  simp only [matchesBelow, leavesBelow_succ, List.filter_append]

theorem matchesBelow_zero {p : Nat} (hp : p < n) :
    matchesBelow n vMatch 0 p = if parentOfMatch n vMatch 0 p then [p] else [] := by
  rw [matchesBelow, parentOfMatch_eq, leavesBelow_zero, if_pos hp, List.any_cons, List.any_nil, Bool.or_false,
    List.filter_cons, List.filter_nil]

end Leaves

section Build
variable (hash256 : Bytes → Uint256) {n : Nat} {vTxid : List Uint256} {vMatch : List Bool}

/-- A node with no match below stores one bit and its own hash. -/
theorem traverseAndBuild_succ_of_false {h p : Nat} (hf : parentOfMatch n vMatch (h + 1) p = false) :
    traverseAndBuild hash256 n vTxid vMatch (h + 1) p = ([false], [calcHash hash256 n vTxid (h + 1) p]) := by
  simp [traverseAndBuild, hf]

/-- A node with a match below stores a set bit and then its children's streams. -/
theorem traverseAndBuild_succ_of_true {h p : Nat} (hf : parentOfMatch n vMatch (h + 1) p = true) :
    traverseAndBuild hash256 n vTxid vMatch (h + 1) p =
      let left := traverseAndBuild hash256 n vTxid vMatch h (p * 2)
      let right := if p * 2 + 1 < calcTreeWidth n h then traverseAndBuild hash256 n vTxid vMatch h (p * 2 + 1)
        else ([], [])
      (true :: (left.1 ++ right.1), left.2 ++ right.2) := by
  simp [traverseAndBuild, hf]

/-- Every stored hash has its own flag bit. -/
theorem length_traverseAndBuild_le : ∀ h p : Nat,
    (traverseAndBuild hash256 n vTxid vMatch h p).2.length ≤ (traverseAndBuild hash256 n vTxid vMatch h p).1.length
  | 0, p => by simp [traverseAndBuild]
  | h + 1, p => by
    cases hf : parentOfMatch n vMatch (h + 1) p
    · simp [traverseAndBuild_succ_of_false hash256 hf]
    · have hl := length_traverseAndBuild_le h (p * 2)
      have hr := length_traverseAndBuild_le h (p * 2 + 1)
      rw [traverseAndBuild_succ_of_true hash256 hf]
      split_ifs <;> simp <;> omega

/-- At most one hash is stored per leaf. -/
theorem length_traverseAndBuild_hashes : ∀ h p : Nat, p < calcTreeWidth n h →
    (traverseAndBuild hash256 n vTxid vMatch h p).2.length ≤ (leavesBelow n h p).length
  | 0, p, hp => by
    rw [calcTreeWidth_zero] at hp
    simp [traverseAndBuild, leavesBelow_zero, hp]
  | h + 1, p, hp => by
    have hne := List.length_pos_of_ne_nil (leavesBelow_ne_nil hp)
    cases hf : parentOfMatch n vMatch (h + 1) p
    · rw [traverseAndBuild_succ_of_false hash256 hf]
      exact hne
    · have hl := length_traverseAndBuild_hashes h (p * 2) (mul_two_lt_calcTreeWidth.mpr hp)
      rw [traverseAndBuild_succ_of_true hash256 hf, leavesBelow_succ]
      split_ifs with hq
      · have hr := length_traverseAndBuild_hashes h (p * 2 + 1) hq
        simp only [List.length_append]
        omega
      · simp only [List.length_append, List.length_nil]
        omega

end Build

section Root
variable (hash256 : Bytes → Uint256) {n : Nat} {vTxid : List Uint256}

/-- One round of `ComputeMerkleRoot` turns the row of `CalcHash` at `h` into the row at `h + 1`. -/
theorem hashPairs_padRow_calcHash (h : Nat) :
    hashPairs hash256 (padRow ((List.range (calcTreeWidth n h)).map (calcHash hash256 n vTxid h))) =
      (List.range (calcTreeWidth n (h + 1))).map (calcHash hash256 n vTxid (h + 1)) := by
  set w := calcTreeWidth n h with hw
  have hlen : calcTreeWidth n (h + 1) =
      (hashPairs hash256 (padRow ((List.range w).map (calcHash hash256 n vTxid h)))).length := by
    rw [length_hashPairs, length_padRow, List.length_map, List.length_range, calcTreeWidth_succ]
    omega
  refine ((@map_range_eq_map _ _ _ (calcHash hash256 n vTxid (h + 1)) id 0 _ hlen fun p hp => ?_).trans
    (List.map_id _)).symm
  have hl : p * 2 < w := mul_two_lt_calcTreeWidth.mpr hp
  rw [id, getD_hashPairs _ _ p (by rw [length_padRow]; simp only [List.length_map, List.length_range]; omega),
    getD_padRow_map_range _ (by omega), getD_padRow_map_range _ (by omega), Nat.min_eq_left (by omega)]
  simp only [calcHash, hashNode, ← hw]
  split_ifs with hr
  · rw [Nat.min_eq_left (by omega)]
  · rw [show min (p * 2 + 1) (w - 1) = p * 2 by omega]

theorem computeMerkleRoot_row (hn : 0 < n) : ∀ d k : Nat, k + d = treeHeight n →
    (computeMerkleRoot hash256 ((List.range (calcTreeWidth n k)).map (calcHash hash256 n vTxid k))).1 =
      calcHash hash256 n vTxid (treeHeight n) 0
  | 0, k, hk => by
    rw [Nat.add_zero] at hk
    subst hk
    rw [calcTreeWidth_treeHeight hn, List.range_one, List.map_singleton, computeMerkleRoot_singleton]
  | d + 1, k, hk => by
    have hw : 1 < calcTreeWidth n k := treeHeight_spec.2 k (by omega)
    rw [computeMerkleRoot_fst_of_one_lt hash256 (by simpa using hw), hashPairs_padRow_calcHash]
    exact computeMerkleRoot_row hn d (k + 1) (by omega)

/-- The root `CalcHash` reaches is the root `ComputeMerkleRoot` computes. -/
theorem calcHash_treeHeight (hne : vTxid ≠ []) :
    calcHash hash256 vTxid.length vTxid (treeHeight vTxid.length) 0 = (computeMerkleRoot hash256 vTxid).1 := by
  have hrow : (List.range (calcTreeWidth vTxid.length 0)).map (calcHash hash256 vTxid.length vTxid 0) = vTxid := by
    rw [calcTreeWidth_zero]
    exact (@map_range_eq_map _ _ vTxid _ id 0 _ rfl fun i _ => rfl).trans (List.map_id vTxid)
  rw [← computeMerkleRoot_row hash256 (List.length_pos_of_ne_nil hne) (treeHeight vTxid.length) 0
    (Nat.zero_add _), hrow]

end Root

section Collision
variable (hash256 : Bytes → Uint256)

/-- The two hashes `CalcHash` combines at node `pos` of level `height + 1`. -/
def childHashes (n : Nat) (vTxid : List Uint256) (height pos : Nat) : Uint256 × Uint256 :=
  (calcHash hash256 n vTxid height (pos * 2),
    if pos * 2 + 1 < calcTreeWidth n height then calcHash hash256 n vTxid height (pos * 2 + 1)
    else calcHash hash256 n vTxid height (pos * 2))

/-- `Hash` does not collide inside the tree over `vTxid`: two nodes of one level with the same
hash combine the same two hashes. -/
def NoNodeCollision (vTxid : List Uint256) : Prop :=
  ∀ h < treeHeight vTxid.length, ∀ p < calcTreeWidth vTxid.length (h + 1), ∀ q < calcTreeWidth vTxid.length (h + 1),
    calcHash hash256 vTxid.length vTxid (h + 1) p = calcHash hash256 vTxid.length vTxid (h + 1) q →
      childHashes hash256 vTxid.length vTxid h p = childHashes hash256 vTxid.length vTxid h q

instance (vTxid : List Uint256) : Decidable (NoNodeCollision hash256 vTxid) :=
  inferInstanceAs (Decidable (∀ h < treeHeight vTxid.length, ∀ p < calcTreeWidth vTxid.length (h + 1),
    ∀ q < calcTreeWidth vTxid.length (h + 1),
      calcHash hash256 vTxid.length vTxid (h + 1) p = calcHash hash256 vTxid.length vTxid (h + 1) q →
        childHashes hash256 vTxid.length vTxid h p = childHashes hash256 vTxid.length vTxid h q))

variable {hash256} {vTxid : List Uint256}

/-- Distinct txids and no collision give distinct hashes on every level up to the root. -/
theorem calcHash_inj (hdist : vTxid.Nodup) (hcoll : NoNodeCollision hash256 vTxid) :
    ∀ h ≤ treeHeight vTxid.length, ∀ p < calcTreeWidth vTxid.length h, ∀ q < calcTreeWidth vTxid.length h,
      calcHash hash256 vTxid.length vTxid h p = calcHash hash256 vTxid.length vTxid h q → p = q
  | 0, _, p, hp, q, hq, he => by
    rw [calcTreeWidth_zero] at hp hq
    rw [calcHash, calcHash, List.getD_eq_getElem _ _ hp, List.getD_eq_getElem _ _ hq] at he
    exact hdist.getElem_inj_iff.mp he
  | h + 1, hh, p, hp, q, hq, he => by
    have hc := congrArg Prod.fst (hcoll h (by omega) p hp q hq he)
    have := calcHash_inj hdist hcoll h (by omega) (p * 2) (mul_two_lt_calcTreeWidth.mpr hp) (q * 2)
      (mul_two_lt_calcTreeWidth.mpr hq) hc
    omega

theorem calcHash_sibling_ne (hdist : vTxid.Nodup) (hcoll : NoNodeCollision hash256 vTxid) {k q : Nat}
    (hk : k < treeHeight vTxid.length) (hq : q * 2 + 1 < calcTreeWidth vTxid.length k) :
    calcHash hash256 vTxid.length vTxid k (q * 2) ≠ calcHash hash256 vTxid.length vTxid k (q * 2 + 1) :=
  fun he => by
    have := calcHash_inj hdist hcoll k (Nat.le_of_lt hk) (q * 2) (by omega) (q * 2 + 1) hq he
    omega

end Collision

section Extract
variable (hash256 : Bytes → Uint256) (t : CPartialMerkleTree)

theorem useStoredHash_of_prefix (s : ExtractState) {hash : Uint256} {rest : List Uint256}
    (hh : hash :: rest <+: t.vHash.drop s.nHashUsed) (height pos : Nat) (f : Bool) :
    useStoredHash t height pos f s =
      (hash, if height = 0 ∧ f = true then
          { s with nHashUsed := s.nHashUsed + 1, vMatch := s.vMatch ++ [hash], vnIndex := s.vnIndex ++ [pos] }
        else { s with nHashUsed := s.nHashUsed + 1 }) := by
  obtain ⟨hlt, hget⟩ := getD_of_cons_prefix_drop 0 hh
  unfold useStoredHash
  rw [if_neg (by omega), hget]
  split_ifs <;> rfl

@[simp] theorem useStoredHash_nBitsUsed (height pos : Nat) (f : Bool) (s : ExtractState) :
    (useStoredHash t height pos f s).2.nBitsUsed = s.nBitsUsed := by
  unfold useStoredHash
  split_ifs <;> rfl

theorem traverseAndExtract_zero {pos : Nat} {s : ExtractState} (hs : s.nBitsUsed < t.vBits.length) :
    traverseAndExtract hash256 t 0 pos s =
      useStoredHash t 0 pos (t.vBits.getD s.nBitsUsed false) { s with nBitsUsed := s.nBitsUsed + 1 } := by
  rw [traverseAndExtract, if_neg (by omega)]

theorem traverseAndExtract_succ_of_false {h pos : Nat} {s : ExtractState} (hs : s.nBitsUsed < t.vBits.length)
    (hf : t.vBits.getD s.nBitsUsed false = false) :
    traverseAndExtract hash256 t (h + 1) pos s =
      useStoredHash t (h + 1) pos false { s with nBitsUsed := s.nBitsUsed + 1 } := by
  rw [traverseAndExtract, if_neg (by omega)]
  dsimp only
  rw [hf]
  rfl

theorem traverseAndExtract_succ_of_true {h pos : Nat} {s : ExtractState} (hs : s.nBitsUsed < t.vBits.length)
    (hf : t.vBits.getD s.nBitsUsed false = true) :
    traverseAndExtract hash256 t (h + 1) pos s =
      let left := traverseAndExtract hash256 t h (pos * 2) { s with nBitsUsed := s.nBitsUsed + 1 }
      if pos * 2 + 1 < calcTreeWidth t.nTransactions h then
        let right := traverseAndExtract hash256 t h (pos * 2 + 1) left.2
        (hashNode hash256 left.1 right.1, if right.1 = left.1 then { right.2 with fBad := true } else right.2)
      else (hashNode hash256 left.1 left.1, left.2) := by
  rw [traverseAndExtract, if_neg (by omega)]
  dsimp only
  rw [hf]
  rfl

variable {n : Nat} {vTxid : List Uint256} {vMatch : List Bool}

/-- Walking the stored stream of a subtree gives back the node's hash, advances the cursors past
the subtree's bits and hashes, and appends its matches in order, provided no two siblings below
have equal hashes. -/
theorem traverseAndExtract_traverseAndBuild (ht : t.nTransactions = n) :
    ∀ (h p : Nat) (s : ExtractState), p < calcTreeWidth n h →
      (∀ k < h, ∀ q, q * 2 + 1 < calcTreeWidth n k →
        calcHash hash256 n vTxid k (q * 2) ≠ calcHash hash256 n vTxid k (q * 2 + 1)) →
      (traverseAndBuild hash256 n vTxid vMatch h p).1 <+: t.vBits.drop s.nBitsUsed →
      (traverseAndBuild hash256 n vTxid vMatch h p).2 <+: t.vHash.drop s.nHashUsed →
      traverseAndExtract hash256 t h p s =
        (calcHash hash256 n vTxid h p,
          { s with nBitsUsed := s.nBitsUsed + (traverseAndBuild hash256 n vTxid vMatch h p).1.length,
                   nHashUsed := s.nHashUsed + (traverseAndBuild hash256 n vTxid vMatch h p).2.length,
                   vMatch := s.vMatch ++ (matchesBelow n vMatch h p).map (vTxid.getD · 0),
                   vnIndex := s.vnIndex ++ matchesBelow n vMatch h p })
  | 0, p, s, hp, _, hb, hh => by
    rw [calcTreeWidth_zero] at hp
    obtain ⟨hlt, hbit⟩ := getD_of_cons_prefix_drop false hb
    rw [traverseAndExtract_zero hash256 t hlt, hbit, useStoredHash_of_prefix t { s with nBitsUsed := s.nBitsUsed + 1 } hh, matchesBelow_zero hp]
    cases parentOfMatch n vMatch 0 p <;> simp [traverseAndBuild, calcHash]
  | h + 1, p, s, hp, hsib, hb, hh => by
    cases hf : parentOfMatch n vMatch (h + 1) p
    · -- nothing matched below: one clear bit and the node's own hash
      rw [traverseAndBuild_succ_of_false hash256 hf] at hb hh ⊢
      obtain ⟨hlt, hbit⟩ := getD_of_cons_prefix_drop false hb
      rw [traverseAndExtract_succ_of_false hash256 t hlt hbit, useStoredHash_of_prefix t { s with nBitsUsed := s.nBitsUsed + 1 } hh, matchesBelow_eq_nil hf]
      simp
    · -- a set bit, then the left subtree's stream and, if the right child exists, its stream
      rw [traverseAndBuild_succ_of_true hash256 hf] at hb hh ⊢
      dsimp only at hb hh ⊢
      obtain ⟨hlt, hbit⟩ := getD_of_cons_prefix_drop false hb
      have hsibL : ∀ k < h, ∀ q, q * 2 + 1 < calcTreeWidth n k →
          calcHash hash256 n vTxid k (q * 2) ≠ calcHash hash256 n vTxid k (q * 2 + 1) :=
        fun k hk => hsib k (by omega)
      rw [traverseAndExtract_succ_of_true hash256 t hlt hbit,
        traverseAndExtract_traverseAndBuild ht h (p * 2) _ (mul_two_lt_calcTreeWidth.mpr hp) hsibL ?hbL ?hhL, ht,
        matchesBelow_succ]
      case hbL => exact prefix_drop_append_left (prefix_drop_tail hb)
      case hhL => exact prefix_drop_append_left hh
      dsimp only
      by_cases hq : p * 2 + 1 < calcTreeWidth n h
      · rw [if_pos hq] at hb hh ⊢
        rw [traverseAndExtract_traverseAndBuild ht h (p * 2 + 1) _ hq hsibL ?hbR ?hhR,
          if_neg (Ne.symm (hsib h (by omega) p hq))]
        case hbR => exact prefix_drop_append_right (prefix_drop_tail hb)
        case hhR => exact prefix_drop_append_right hh
        simp [calcHash, hq]
        omega
      · rw [if_neg hq] at hb hh ⊢
        rw [@matchesBelow_eq_nil n vMatch h (p * 2 + 1) (by rw [parentOfMatch_eq, leavesBelow_eq_nil hq]; rfl)]
        simp [calcHash, hq]
        omega

/-- The cursor over the bits never passes their end. -/
theorem traverseAndExtract_nBitsUsed_le : ∀ (h p : Nat) (s : ExtractState), s.nBitsUsed ≤ t.vBits.length →
    (traverseAndExtract hash256 t h p s).2.nBitsUsed ≤ t.vBits.length
  | h, p, s, hs => by
    by_cases hlt : s.nBitsUsed < t.vBits.length
    · cases h with
      | zero =>
        rw [traverseAndExtract_zero hash256 t hlt, useStoredHash_nBitsUsed]
        exact hlt
      | succ h =>
        cases hbit : t.vBits.getD s.nBitsUsed false
        · rw [traverseAndExtract_succ_of_false hash256 t hlt hbit, useStoredHash_nBitsUsed]
          exact hlt
        · have hl := traverseAndExtract_nBitsUsed_le h (p * 2) { s with nBitsUsed := s.nBitsUsed + 1 } hlt
          rw [traverseAndExtract_succ_of_true hash256 t hlt hbit]
          dsimp only
          split_ifs
          · exact traverseAndExtract_nBitsUsed_le h (p * 2 + 1) _ hl
          · exact traverseAndExtract_nBitsUsed_le h (p * 2 + 1) _ hl
          · exact hl
    · rw [traverseAndExtract, if_pos (by omega)]
      exact hs

end Extract

section ExtractMatches
variable (hash256 : Bytes → Uint256)

/-- `ExtractMatches` returns the null hash unless its walk ended with `fBad` clear, every hash
used and the unused bits within the last byte. -/
theorem extractMatches_eq_zero_or (t : CPartialMerkleTree) (vnIndex : List Nat) :
    let r := extractMatches hash256 t vnIndex
    r.1 = 0 ∨ (r.2.fBad = false ∧ r.2.nHashUsed = t.vHash.length ∧ r.2.nBitsUsed ≤ t.vBits.length ∧
      (r.2.nBitsUsed + 7) / 8 = (t.vBits.length + 7) / 8) := by
  have hle := traverseAndExtract_nBitsUsed_le hash256 t (treeHeight t.nTransactions) 0
    ⟨0, 0, [], vnIndex, t.fBad⟩ (Nat.zero_le _)
  unfold extractMatches
  dsimp only
  split_ifs with h0 h1 h2 h3 h4 h5 h6
  all_goals try exact Or.inl rfl
  simp only [Bool.not_eq_true] at h4
  exact Or.inr ⟨h4, by omega, hle, by omega⟩

variable {vTxid : List Uint256} {vMatch : List Bool}

/-- The tree built from `vTxid`, with any bits after its own that stay within its last byte,
gives back the merkle root, the matched txids and their positions. -/
theorem extractMatches_make (hne : vTxid ≠ []) (hdist : vTxid.Nodup)
    (hmax : vTxid.length ≤ MAX_BLOCK_WEIGHT / MIN_TRANSACTION_WEIGHT) (hcoll : NoNodeCollision hash256 vTxid)
    (pad : List Bool)
    (hpad : ((CPartialMerkleTree.make hash256 vTxid vMatch).vBits.length + 7) / 8 =
      ((CPartialMerkleTree.make hash256 vTxid vMatch).vBits.length + pad.length + 7) / 8)
    (vnIndex : List Nat) :
    let T := CPartialMerkleTree.make hash256 vTxid vMatch
    let matched := (List.range vTxid.length).filter (vMatch.getD · false)
    extractMatches hash256 { T with vBits := T.vBits ++ pad } vnIndex =
      ((computeMerkleRoot hash256 vTxid).1,
        ⟨T.vBits.length, T.vHash.length, matched.map (vTxid.getD · 0), vnIndex ++ matched, false⟩) := by
  dsimp only
  obtain ⟨B, hB⟩ : ∃ B, traverseAndBuild hash256 vTxid.length vTxid vMatch (treeHeight vTxid.length) 0 = B :=
    ⟨_, rfl⟩
  have hT : CPartialMerkleTree.make hash256 vTxid vMatch = ⟨vTxid.length, B.1, B.2, false⟩ := by
    rw [CPartialMerkleTree.make, hB]
  rw [hT] at hpad ⊢
  dsimp only at hpad ⊢
  have hpos : 0 < vTxid.length := List.length_pos_of_ne_nil hne
  have hroot : 0 < calcTreeWidth vTxid.length (treeHeight vTxid.length) :=
    lt_calcTreeWidth.mpr (by simpa using hpos)
  have hleaves := leavesBelow_root (le_two_pow_treeHeight (n := vTxid.length))
  have hhashes : B.2.length ≤ vTxid.length := by
    have := @length_traverseAndBuild_hashes hash256 vTxid.length vTxid vMatch _ 0 hroot
    rwa [hB, hleaves, List.length_range] at this
  have hbits : B.2.length ≤ B.1.length := hB ▸ length_traverseAndBuild_le hash256 _ 0
  -- the walk over the whole tree from empty cursors
  have hwalk := @traverseAndExtract_traverseAndBuild hash256 ⟨vTxid.length, B.1 ++ pad, B.2, false⟩
    vTxid.length vTxid vMatch rfl (treeHeight vTxid.length) 0 ⟨0, 0, [], vnIndex, false⟩ hroot
    (fun k hk q hq => calcHash_sibling_ne hdist hcoll hk hq)
    (by rw [hB]; exact List.prefix_append B.1 pad) (by rw [hB]; exact List.prefix_refl B.2)
  rw [hB] at hwalk
  unfold extractMatches
  dsimp only
  rw [if_neg (by omega), if_neg (by omega), if_neg (by omega), if_neg (by simp; omega), hwalk]
  dsimp only
  rw [if_neg (by decide), if_neg (by simpa using hpad), if_neg (by simp), calcHash_treeHeight hash256 hne]
  simp [matchesBelow, hleaves]

end ExtractMatches

section Bytes

theorem toNat_flag_shiftLeft (b : Bool) {m : Nat} (hm : m < 8) :
    (((if b then 1 else 0 : UInt8)) <<< m.toUInt8).toNat = if b then 2 ^ m else 0 := by
  cases b <;> interval_cases m <;> rfl

/-- Testing one bit through a mask, as `bytes[p / 8] & (1 << (p % 8))` does. -/
theorem and_one_shiftLeft_ne_zero (b : UInt8) {m : Nat} (hm : m < 8) :
    ((b &&& (1 <<< m.toUInt8)) != 0) = b.toNat.testBit m := by
  have hone := toNat_flag_shiftLeft true hm
  simp only [if_true] at hone
  have hbits : ∀ i, (b &&& (1 <<< m.toUInt8)).toNat.testBit i = (decide (m = i) && b.toNat.testBit m) := by
    intro i
    rw [UInt8.toNat_and, hone, Nat.testBit_and, Nat.testBit_two_pow]
    by_cases hi : m = i
    · subst hi
      simp
    · simp [hi]
  cases ht : b.toNat.testBit m
  · have h0 : (b &&& (1 <<< m.toUInt8)) = 0 := by
      apply UInt8.toNat_inj.mp
      apply Nat.eq_of_testBit_eq
      intro i
      rw [hbits, ht]
      simp
    simp [h0]
  · have h0 : (b &&& (1 <<< m.toUInt8)) ≠ 0 := fun h0 => by
      have := hbits m
      rw [h0, ht] at this
      simp at this
    simpa using h0

theorem length_foldl_orBitInto (bits : List Bool) :
    ∀ (ps : List Nat) (ret : List UInt8), (ps.foldl (orBitInto bits) ret).length = ret.length
  | [], _ => rfl
  | p :: ps, ret => by
    rw [List.foldl_cons, length_foldl_orBitInto bits ps, orBitInto, List.length_modify]

theorem testBit_orBitInto (bits : List Bool) (ret : List UInt8) {p j : Nat} (i : Nat) (hj : j < 8)
    (hp : p / 8 < ret.length) :
    ((orBitInto bits ret p).getD i 0).toNat.testBit j =
      ((ret.getD i 0).toNat.testBit j || (decide (i * 8 + j = p) && bits.getD p false)) := by
  rw [orBitInto, getD_modify]
  by_cases hi : p / 8 = i
  · subst hi
    rw [if_pos ⟨rfl, hp⟩, UInt8.toNat_or, Nat.testBit_or,
      toNat_flag_shiftLeft _ (Nat.mod_lt p (by norm_num))]
    have hpos : (p / 8 * 8 + j = p) = (p % 8 = j) := propext ⟨fun h => by omega, fun h => by omega⟩
    cases bits.getD p false <;> simp [Nat.testBit_two_pow, hpos]
  · rw [if_neg (fun h => hi h.1), decide_eq_false (show i * 8 + j ≠ p by omega)]
    simp

/-- After the first `k` passes, bit `j` of byte `i` is flag `i * 8 + j` if that flag is below `k`. -/
theorem testBit_bitsToBytes_loop (bits : List Bool) {j : Nat} (i : Nat) (hj : j < 8) :
    ∀ k ≤ bits.length,
      (((List.range k).foldl (orBitInto bits) (List.replicate ((bits.length + 7) / 8) 0)).getD i 0).toNat.testBit j =
        (decide (i * 8 + j < k) && bits.getD (i * 8 + j) false)
  | 0, _ => by
    simp only [List.range_zero, List.foldl_nil, List.getD_eq_getElem?_getD, List.getElem?_replicate]
    split_ifs <;> simp
  | k + 1, hk => by
    have hlen := length_foldl_orBitInto bits (List.range k) (List.replicate ((bits.length + 7) / 8) 0)
    rw [List.length_replicate] at hlen
    rw [List.range_succ, List.foldl_append, List.foldl_cons, List.foldl_nil,
      testBit_orBitInto bits _ i hj (by rw [hlen]; omega), testBit_bitsToBytes_loop bits i hj k (by omega)]
    by_cases hik : i * 8 + j = k
    · rw [hik]; simp
    · have : (i * 8 + j < k + 1) = (i * 8 + j < k) := propext ⟨fun h => by omega, fun h => by omega⟩
      simp [hik, this]

theorem length_bitsToBytes (bits : List Bool) : (bitsToBytes bits).length = (bits.length + 7) / 8 := by
  rw [bitsToBytes, length_foldl_orBitInto, List.length_replicate]

/-- The flags come back from their bytes, followed by clear flags up to a whole byte. -/
theorem bytesToBits_bitsToBytes (bits : List Bool) :
    bytesToBits (bitsToBytes bits) = bits ++ List.replicate ((bits.length + 7) / 8 * 8 - bits.length) false := by
  apply List.ext_getElem
  · simp only [bytesToBits, List.length_map, List.length_range, length_bitsToBytes, List.length_append,
      List.length_replicate]
    omega
  · intro p h1 h2
    simp only [bytesToBits, List.getElem_map, List.getElem_range]
    rw [and_one_shiftLeft_ne_zero _ (Nat.mod_lt p (by norm_num)), bitsToBytes,
      testBit_bitsToBytes_loop bits (p / 8) (Nat.mod_lt p (by norm_num)) bits.length le_rfl,
      show p / 8 * 8 + p % 8 = p by omega]
    by_cases hp : p < bits.length
    · rw [List.getElem_append_left hp, List.getD_eq_getElem _ _ hp]
      simp [hp]
    · rw [List.getElem_append_right (by omega)]
      simp [hp]

end Bytes

/-- `SERIALIZE_METHODS(CPartialMerkleTree)` writing: the flags go out as `BitsToBytes`. -/
def serializePartialMerkleTree (t : CPartialMerkleTree) : Bytes :=
  serWritedata32 t.nTransactions.toUInt32 ++ serializeVector serializeUint256 t.vHash ++
    serializeBytes (bitsToBytes t.vBits)

/-- Reading: the flag bytes come back through `BytesToBits`, and `fBad` is cleared. -/
def unserializePartialMerkleTree : Reader CPartialMerkleTree := do
  let nTransactions ← serReaddata32
  let vHash ← unserializeVector unserializeUint256
  let bytes ← unserializeBytes
  return ⟨nTransactions.toNat, bytesToBits bytes, vHash, false⟩

/-- A tree read back from its bytes is the tree sent, with its flags padded to whole bytes. -/
theorem unserializePartialMerkleTree_ser (t : CPartialMerkleTree) (hn : t.nTransactions < 2 ^ 32)
    (hh : t.vHash.length ≤ MAX_SIZE) (hb : t.vBits.length ≤ MAX_SIZE) (rest : Bytes) :
    unserializePartialMerkleTree (serializePartialMerkleTree t ++ rest) =
      .ok ({ t with vBits := bytesToBits (bitsToBytes t.vBits), fBad := false }, rest) := by
  have hbytes : (bitsToBytes t.vBits).length ≤ MAX_SIZE := by
    rw [length_bitsToBytes]
    omega
  unfold unserializePartialMerkleTree serializePartialMerkleTree
  rw [List.append_assoc, List.append_assoc, bind_of_ok (serReaddata32_ser _ _),
    bind_of_ok (unserializeVector_ser id hh (fun h _ rest => unserializeUint256_ser h rest) _),
    bind_of_ok (unserializeBytes_ser hbytes rest), List.map_id]
  simp [UInt32.toNat_ofNat_of_lt' hn]

theorem unserializePartialMerkleTree_ser_threeBits :
    unserializePartialMerkleTree (serializePartialMerkleTree ⟨4, [true, false, true], [1, 2], true⟩ ++ []) =
      .ok (⟨4, [true, false, true, false, false, false, false, false], [1, 2], false⟩, []) :=
  unserializePartialMerkleTree_ser ⟨4, [true, false, true], [1, 2], true⟩ (by decide) (by decide)
    (by decide) []

/-- The tree built over distinct txids, with the hash colliding nowhere inside it, extracts the
root and the matched txids in order, also after its flags go through bytes; and any tree either
extracts the null hash or ends with `fBad` clear, every hash used and the bits used within the
last byte. -/
theorem partialMerkleTree_roundTrip (hash256 : Bytes → Uint256) (vTxid : List Uint256) (vMatch : List Bool)
    (hne : vTxid ≠ []) (hdist : vTxid.Nodup) (hmax : vTxid.length ≤ MAX_BLOCK_WEIGHT / MIN_TRANSACTION_WEIGHT)
    (hcoll : NoNodeCollision hash256 vTxid) :
    let T := CPartialMerkleTree.make hash256 vTxid vMatch
    let matched := (List.range vTxid.length).filter (vMatch.getD · false)
    (∀ t ∈ [T, { T with vBits := bytesToBits (bitsToBytes T.vBits) }], ∀ vnIndex : List Nat,
      let r := extractMatches hash256 t vnIndex
      r.1 = (computeMerkleRoot hash256 vTxid).1 ∧ r.2.vMatch = matched.map (vTxid.getD · 0) ∧
        r.2.vnIndex = vnIndex ++ matched ∧ r.2.fBad = false) ∧
    ∀ (t : CPartialMerkleTree) (vnIndex : List Nat),
      let r := extractMatches hash256 t vnIndex
      r.1 = 0 ∨ (r.2.fBad = false ∧ r.2.nHashUsed = t.vHash.length ∧ r.2.nBitsUsed ≤ t.vBits.length ∧
        (r.2.nBitsUsed + 7) / 8 = (t.vBits.length + 7) / 8) := by
  intro T matched
  refine ⟨fun t ht vnIndex => ?_, extractMatches_eq_zero_or hash256⟩
  -- either tree is `T` with clear flags after its bits, within its last byte
  obtain ⟨pad, hpad, rfl⟩ : ∃ pad : List Bool, (T.vBits.length + 7) / 8 = (T.vBits.length + pad.length + 7) / 8 ∧
      t = { T with vBits := T.vBits ++ pad } := by
    simp only [List.mem_cons, List.not_mem_nil, or_false] at ht
    rcases ht with rfl | rfl
    · exact ⟨[], by simp, by simp⟩
    · refine ⟨_, ?_, by rw [bytesToBits_bitsToBytes]⟩
      rw [List.length_replicate]
      omega
  rw [extractMatches_make hash256 hne hdist hmax hcoll pad hpad vnIndex]
  exact ⟨rfl, rfl, rfl, rfl⟩

/-- A stand-in hash that adds the two halves of its input: two pairs with the same sum collide. -/
def sumHash (b : Bytes) : Uint256 := BitVec.ofNat 256 (decodeLE (b.take 32) + decodeLE (b.drop 32))

theorem partialMerkleTree_roundTrip_fourTxids :
    NoNodeCollision sumHash [1, 6, 3, 5] ∧
      (extractMatches sumHash (CPartialMerkleTree.make sumHash [1, 6, 3, 5] [true, false, false, true]) []).1 =
        (computeMerkleRoot sumHash [1, 6, 3, 5]).1 :=
  ⟨by decide +kernel,
    ((partialMerkleTree_roundTrip sumHash [1, 6, 3, 5] [true, false, false, true] (by decide) (by decide)
      (by decide) (by decide +kernel)).1 _ (by simp) []).1⟩

end BlackcoinMore.PartialMerkle
