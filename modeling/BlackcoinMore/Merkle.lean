import BlackcoinMore.Coins

/-! `ComputeMerkleRoot` and `BlockMerkleRoot` of `consensus/merkle.cpp`. Each level pads an
odd row with its last hash and replaces every pair by `SHA256D64` of the two hashes. -/
namespace BlackcoinMore.Merkle
open Primitives Serialize Coins

section
variable (hash256 : Bytes → Uint256)

/-- One `SHA256D64` round over a row that has been padded to even length. -/
def hashPairs : List Uint256 → List Uint256
  | a :: b :: rest => hash256 (serializeUint256 a ++ serializeUint256 b) :: hashPairs rest
  | _ => []

/-- `mutation` is set when some pair of the row holds two equal hashes. -/
def rowMutated : List Uint256 → Bool
  | a :: b :: rest => a == b || rowMutated rest
  | _ => false

def padRow (hashes : List Uint256) : List Uint256 :=
  if hashes.length % 2 = 1 then hashes ++ hashes.getLast?.toList else hashes

theorem length_hashPairs : ∀ hashes : List Uint256,
    (hashPairs hash256 hashes).length = hashes.length / 2
  | a :: b :: rest => by simp [hashPairs, length_hashPairs rest]; omega
  | [] => rfl
  | [_] => by simp [hashPairs]

theorem length_padRow_le (hashes : List Uint256) : (padRow hashes).length ≤ hashes.length + 1 := by
  unfold padRow
  split_ifs
  · cases hashes.getLast? <;> simp
  · omega

/-- The root and the `mutated` flag. -/
def computeMerkleRoot (hashes : List Uint256) : Uint256 × Bool :=
  if hashes.length ≤ 1 then (hashes.head?.getD 0, false)
  else
    let (root, mutation) := computeMerkleRoot (hashPairs hash256 (padRow hashes))
    (root, rowMutated hashes || mutation)
termination_by hashes.length
decreasing_by
  have := length_padRow_le hashes
  rw [length_hashPairs]
  omega

def blockMerkleRoot (block : CBlock) : Uint256 × Bool :=
  computeMerkleRoot hash256 (block.vtx.map (getHash hash256))

theorem getD_hashPairs : ∀ (hashes : List Uint256) (p : Nat), p < hashes.length / 2 →
    (hashPairs hash256 hashes).getD p 0 =
      hash256 (serializeUint256 (hashes.getD (p * 2) 0) ++ serializeUint256 (hashes.getD (p * 2 + 1) 0))
  | a :: b :: rest, 0, _ => by simp [hashPairs]
  | a :: b :: rest, p + 1, hp => by
    have hp' : p < rest.length / 2 := by simp at hp; omega
    rw [hashPairs, List.getD_cons_succ, getD_hashPairs rest p hp', show (p + 1) * 2 = p * 2 + 1 + 1 by ring,
      List.getD_cons_succ, List.getD_cons_succ, List.getD_cons_succ, List.getD_cons_succ]
  | [], _, hp => by simp at hp
  | [_], _, hp => by simp at hp

theorem length_padRow (hashes : List Uint256) :
    (padRow hashes).length = hashes.length + hashes.length % 2 := by
  unfold padRow
  split_ifs with h
  · cases hl : hashes.getLast? with
    | none => simp_all
    | some x => simp [h]
  · omega

/-- The padded row of `f 0, ..., f (w - 1)` repeats `f (w - 1)`. -/
theorem getD_padRow_map_range (f : Nat → Uint256) {w i : Nat} (hi : i < w + w % 2) :
    (padRow ((List.range w).map f)).getD i 0 = f (min i (w - 1)) := by
  have hrow : ∀ k < w, ((List.range w).map f).getD k 0 = f k := fun k hk => by
    simp [List.getD_eq_getElem?_getD, hk]
  unfold padRow
  simp only [List.length_map, List.length_range]
  split_ifs with hodd
  · have hlast : ((List.range w).map f).getLast? = some (f (w - 1)) := by
      rw [List.getLast?_map, List.getLast?_range, if_neg (by omega)]
      rfl
    rw [hlast, Option.toList_some]
    by_cases hiw : i < w
    · rw [List.getD_append _ _ _ _ (by simpa using hiw), hrow i hiw, Nat.min_eq_left (by omega)]
    · rw [List.getD_append_right _ _ _ _ (by simp; omega), List.length_map, List.length_range,
        show i - w = 0 by omega, Nat.min_eq_right (by omega)]
      rfl
  · rw [hrow i (by omega), Nat.min_eq_left (by omega)]

theorem computeMerkleRoot_fst_of_one_lt {hashes : List Uint256} (h : 1 < hashes.length) :
    (computeMerkleRoot hash256 hashes).1 = (computeMerkleRoot hash256 (hashPairs hash256 (padRow hashes))).1 := by
  rw [computeMerkleRoot, if_neg (by omega)]

theorem computeMerkleRoot_snd_of_one_lt {hashes : List Uint256} (h : 1 < hashes.length) :
    (computeMerkleRoot hash256 hashes).2 =
      (rowMutated hashes || (computeMerkleRoot hash256 (hashPairs hash256 (padRow hashes))).2) := by
  rw [computeMerkleRoot, if_neg (by omega)]

theorem computeMerkleRoot_singleton (x : Uint256) : computeMerkleRoot hash256 [x] = (x, false) := by
  rw [computeMerkleRoot]
  simp

end

end BlackcoinMore.Merkle
