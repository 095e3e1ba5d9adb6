import BlackcoinMore.PartialMerkle

/-! What `CheckMerkleRoot` relies on in `ComputeMerkleRoot` of `consensus/merkle.cpp`. Its level
loop computes the tree that splits the leaves at a power of two, with a missing right subtree
replaced by a copy of its left sibling. And its `mutated` flag catches every two distinct leaf
lists of one depth with one root, unless two of the pairs the loop hashes collide. -/
namespace BlackcoinMore.MerkleMutation
open Primitives ByteCodec Serialize Merkle PartialMerkle

section
variable (hash256 : Bytes → Uint256)

/-- One round of the loop of `ComputeMerkleRoot`: pad an odd row with its last hash, then hash
adjacent pairs. -/
def nextLevel (hashes : List Uint256) : List Uint256 := hashPairs hash256 (padRow hashes)

/-- The tree of depth `depth` over at most `2 ^ depth` leaves: the first `2 ^ (depth - 1)` leaves
on the left, the others on the right, and a right subtree without leaves replaced by its left
sibling, as the loop's rule for odd rows does. -/
def treeRoot : Nat → List Uint256 → Uint256
  | 0, leaves => leaves.headD 0
  | depth + 1, leaves =>
    let left := treeRoot depth (leaves.take (2 ^ depth))
    let right := if 2 ^ depth < leaves.length then treeRoot depth (leaves.drop (2 ^ depth)) else left
    hashNode hash256 left right

/-- The recursion read with leaf padding: the right half is filled up to the left half's length
with copies of its last leaf before it is hashed. -/
def paddedHalvesRoot : Nat → List Uint256 → Uint256
  | 0, leaves => leaves.headD 0
  | depth + 1, leaves =>
    let right := leaves.drop (2 ^ depth)
    hashNode hash256 (paddedHalvesRoot depth (leaves.take (2 ^ depth)))
      (paddedHalvesRoot depth (right ++ List.replicate (2 ^ depth - right.length) (right.getLastD 0)))

/-- The 64-byte inputs of one `SHA256D64` round: the pairs of a row padded to even length. -/
def pairInputs : List Uint256 → List Bytes
  | a :: b :: rest => (serializeUint256 a ++ serializeUint256 b) :: pairInputs rest
  | _ => []

/-- Every input `ComputeMerkleRoot` hashes on its way to the root of `hashes`, level by level. -/
def hashedInputs (hashes : List Uint256) : List Bytes :=
  if hashes.length ≤ 1 then []
  else pairInputs (padRow hashes) ++ hashedInputs (hashPairs hash256 (padRow hashes))
termination_by hashes.length
decreasing_by
  have := length_padRow_le hashes
  rw [length_hashPairs]
  omega

/-- Two distinct inputs with one hash, the first from `xs` and the second from `ys`: a
collision among the pairs two computations actually hash. -/
def Collides (xs ys : List Bytes) : Prop :=
  ∃ x ∈ xs, ∃ y ∈ ys, x ≠ y ∧ hash256 x = hash256 y

end

/-! ### One round of the loop commutes with splitting the row at an even position -/

section Round
variable (hash256 : Bytes → Uint256)

theorem hashPairs_take : ∀ (k : Nat) (row : List Uint256),
    hashPairs hash256 (row.take (2 * k)) = (hashPairs hash256 row).take k
  | 0, row => by simp [hashPairs]
  | k + 1, a :: b :: rest => by
    rw [show 2 * (k + 1) = 2 * k + 1 + 1 by ring, List.take_succ_cons, List.take_succ_cons, hashPairs,
      hashPairs, List.take_succ_cons, hashPairs_take k rest]
  | k + 1, [a] => by
    rw [List.take_of_length_le (by simp; omega)]
    rfl
  | k + 1, [] => by simp [hashPairs]

theorem hashPairs_drop : ∀ (k : Nat) (row : List Uint256),
    hashPairs hash256 (row.drop (2 * k)) = (hashPairs hash256 row).drop k
  | 0, row => by simp
  | k + 1, a :: b :: rest => by
    rw [show 2 * (k + 1) = 2 * k + 1 + 1 by ring, List.drop_succ_cons, List.drop_succ_cons, hashPairs,
      List.drop_succ_cons, hashPairs_drop k rest]
  | k + 1, [a] => by
    rw [List.drop_eq_nil_of_le (by simp; omega)]
    rfl
  | k + 1, [] => by simp [hashPairs]

theorem padRow_take (k : Nat) (row : List Uint256) : padRow (row.take (2 * k)) = (padRow row).take (2 * k) := by
  by_cases hk : 2 * k ≤ row.length
  · -- a prefix of even length is not padded, and the padding of the row lies past it
    have heven : ¬(row.take (2 * k)).length % 2 = 1 := by rw [List.length_take]; omega
    rw [padRow, if_neg heven, padRow]
    split_ifs
    · rw [List.take_append_of_le_length hk]
    · rfl
  · -- the whole row is kept, padding included
    have hlen := length_padRow row
    rw [List.take_of_length_le (by omega), List.take_of_length_le (by omega)]

theorem padRow_drop (k : Nat) (row : List Uint256) : padRow (row.drop (2 * k)) = (padRow row).drop (2 * k) := by
  by_cases hk : 2 * k < row.length
  · -- the suffix has the row's parity and its last hash
    have hpar : (row.drop (2 * k)).length % 2 = row.length % 2 := by rw [List.length_drop]; omega
    have hlast : (row.drop (2 * k)).getLast? = row.getLast? := by
      rw [List.getLast?_drop, if_neg (by omega)]
    unfold padRow
    rw [hpar, hlast]
    split_ifs
    · rw [List.drop_append_of_le_length (by omega)]
    · rfl
  · -- nothing is left of the row, padded or not
    have hlen := length_padRow row
    rw [List.drop_eq_nil_of_le (by omega), List.drop_eq_nil_of_le (by omega)]
    rfl

theorem nextLevel_take (k : Nat) (row : List Uint256) :
    nextLevel hash256 (row.take (2 * k)) = (nextLevel hash256 row).take k := by
  rw [nextLevel, nextLevel, padRow_take, hashPairs_take]

theorem nextLevel_drop (k : Nat) (row : List Uint256) :
    nextLevel hash256 (row.drop (2 * k)) = (nextLevel hash256 row).drop k := by
  rw [nextLevel, nextLevel, padRow_drop, hashPairs_drop]

theorem length_nextLevel (row : List Uint256) : (nextLevel hash256 row).length = (row.length + 1) / 2 := by
  rw [nextLevel, length_hashPairs, length_padRow]
  omega

end Round

/-! ### The loop computes the recursive tree -/

section Tree
variable (hash256 : Bytes → Uint256)

/-- One round of the loop takes the tree of depth `depth + 1` over a row to the tree of depth
`depth` over the next row. -/
theorem treeRoot_nextLevel : ∀ (depth : Nat) (row : List Uint256), row ≠ [] → row.length ≤ 2 ^ (depth + 1) →
    treeRoot hash256 (depth + 1) row = treeRoot hash256 depth (nextLevel hash256 row)
  | 0, [a], _, _ => by simp [treeRoot, nextLevel, padRow, hashPairs, hashNode, List.take_one]
  | 0, [a, b], _, _ => by simp [treeRoot, nextLevel, padRow, hashPairs, hashNode, List.take_one]
  | 0, [], hne, _ => absurd rfl hne
  | 0, _ :: _ :: _ :: _, _, hlen => by simp at hlen
  | depth + 1, row, hne, hlen => by
    have hpow : 2 ^ (depth + 1) = 2 * 2 ^ depth := by ring
    have hpos := Nat.two_pow_pos depth
    -- the left subtree is the loop's tree over the first half of the row
    have hleft : treeRoot hash256 (depth + 1) (row.take (2 ^ (depth + 1))) =
        treeRoot hash256 depth ((nextLevel hash256 row).take (2 ^ depth)) := by
      rw [treeRoot_nextLevel depth _ (by simpa [List.take_eq_nil_iff] using hne) (by simp),
        hpow, nextLevel_take]
    -- the right subtree exists on both sides at once
    have hcond : 2 ^ (depth + 1) < row.length ↔ 2 ^ depth < (nextLevel hash256 row).length := by
      rw [length_nextLevel, hpow]
      omega
    have hright : 2 ^ (depth + 1) < row.length → treeRoot hash256 (depth + 1) (row.drop (2 ^ (depth + 1))) =
        treeRoot hash256 depth ((nextLevel hash256 row).drop (2 ^ depth)) := fun h => by
      have hdrop : row.drop (2 ^ (depth + 1)) ≠ [] := fun hnil => by
        rw [List.drop_eq_nil_iff] at hnil
        omega
      rw [treeRoot_nextLevel depth _ hdrop (by rw [List.length_drop]; omega), hpow, nextLevel_drop]
    rw [treeRoot.eq_2 hash256 row (depth + 1), treeRoot.eq_2 hash256 (nextLevel hash256 row) depth, hleft]
    by_cases h : 2 ^ (depth + 1) < row.length
    · rw [if_pos h, if_pos (hcond.mp h), hright h]
    · rw [if_neg h, if_neg (fun h' => h (hcond.mpr h'))]

/-- A row of more than one hash is one level above the next row. -/
theorem clog_length_nextLevel {row : List Uint256} (h : 1 < row.length) :
    Nat.clog 2 row.length = Nat.clog 2 (nextLevel hash256 row).length + 1 := by
  rw [length_nextLevel, Nat.clog_of_two_le (by norm_num) (by omega), Nat.add_sub_assoc (by norm_num)]

theorem nextLevel_ne_nil {row : List Uint256} (h : row ≠ []) : nextLevel hash256 row ≠ [] := by
  rw [← List.length_pos_iff, length_nextLevel]
  have := List.length_pos_of_ne_nil h
  omega

/-- `ComputeMerkleRoot` returns the tree of depth `⌈log₂ n⌉` over its `n` leaves. -/
theorem computeMerkleRoot_fst_eq_treeRoot (hashes : List Uint256) (hne : hashes ≠ []) :
    (computeMerkleRoot hash256 hashes).1 = treeRoot hash256 (Nat.clog 2 hashes.length) hashes := by
  -- strong induction on the row's length, one round of the loop at a time
  induction hn : hashes.length using Nat.strong_induction_on generalizing hashes with
  | _ n ih =>
    have hpos : 0 < n := hn ▸ List.length_pos_of_ne_nil hne
    by_cases h1 : n = 1
    · obtain ⟨x, rfl⟩ := List.length_eq_one_iff.mp (hn.trans h1)
      rw [computeMerkleRoot_singleton, ← hn, List.length_singleton, Nat.clog_one_right]
      rfl
    · have hlt : 1 < hashes.length := by omega
      have hclog := clog_length_nextLevel hash256 hlt
      have hfit : hashes.length ≤ 2 ^ (Nat.clog 2 (nextLevel hash256 hashes).length + 1) :=
        hclog ▸ Nat.le_pow_clog (by norm_num) _
      rw [computeMerkleRoot_fst_of_one_lt hash256 hlt, ← nextLevel,
        ih _ (by rw [length_nextLevel]; omega) _ (nextLevel_ne_nil hash256 hne) rfl, ← hn, hclog,
        treeRoot_nextLevel hash256 _ _ hne hfit]

end Tree

/-! ### What the `mutated` flag sees -/

section Mutation
variable (hash256 : Bytes → Uint256)

/-- The 32 bytes of a `uint256` determine it. -/
theorem serializeUint256_inj {a b : Uint256} (h : serializeUint256 a = serializeUint256 b) : a = b := by
  have hlt : ∀ v : Uint256, v.toNat < 256 ^ 32 := fun v => by simpa using v.isLt
  have hdec := congrArg decodeLE h
  rw [serializeUint256, serializeUint256, decodeLE_encodeLE, decodeLE_encodeLE,
    Nat.mod_eq_of_lt (hlt a), Nat.mod_eq_of_lt (hlt b)] at hdec
  exact BitVec.eq_of_toNat_eq hdec

theorem Collides.mono {xs ys xs' ys' : List Bytes} (h : Collides hash256 xs ys) (hx : xs ⊆ xs')
    (hy : ys ⊆ ys') : Collides hash256 xs' ys' := by
  obtain ⟨x, hxs, y, hys, hne, heq⟩ := h
  exact ⟨x, hx hxs, y, hy hys, hne, heq⟩

/-- Two pairs with one `Hash(left, right)` are one pair, or their two inputs collide. -/
theorem hashNode_eq {a b c d : Uint256} (h : hashNode hash256 a b = hashNode hash256 c d) :
    (a = c ∧ b = d) ∨
      Collides hash256 [serializeUint256 a ++ serializeUint256 b] [serializeUint256 c ++ serializeUint256 d] := by
  by_cases hin : serializeUint256 a ++ serializeUint256 b = serializeUint256 c ++ serializeUint256 d
  · obtain ⟨hac, hbd⟩ := List.append_inj hin (by simp [serializeUint256])
    exact .inl ⟨serializeUint256_inj hac, serializeUint256_inj hbd⟩
  · exact .inr ⟨_, List.mem_singleton_self _, _, List.mem_singleton_self _, hin, h⟩

/-- Two rows of even length with one round of hashes are one row, or a pair of the one collides
with the pair of the other at the same place. -/
theorem hashPairs_eq : ∀ (P Q : List Uint256), P.length % 2 = 0 → Q.length % 2 = 0 →
    hashPairs hash256 P = hashPairs hash256 Q → P = Q ∨ Collides hash256 (pairInputs P) (pairInputs Q)
  | [], [], _, _, _ => .inl rfl
  | a :: b :: P, c :: d :: Q, hP, hQ, h => by
    rw [hashPairs, hashPairs, List.cons.injEq] at h
    rw [pairInputs, pairInputs]
    rcases hashNode_eq hash256 (a := a) (b := b) (c := c) (d := d) h.1 with ⟨rfl, rfl⟩ | hcoll
    · have hP' : P.length % 2 = 0 := by simp at hP; omega
      have hQ' : Q.length % 2 = 0 := by simp at hQ; omega
      rcases hashPairs_eq P Q hP' hQ' h.2 with rfl | hcoll
      · exact .inl rfl
      · exact .inr (hcoll.mono hash256 (List.subset_cons_self _ _) (List.subset_cons_self _ _))
    · exact .inr (hcoll.mono hash256 (by simp) (by simp))
  | [], _ :: _ :: _, _, _, h => by simp [hashPairs] at h
  | _ :: _ :: _, [], _, _, h => by simp [hashPairs] at h
  | [_], _, hP, _, _ => by simp at hP
  | _, [_], _, hQ, _ => by simp at hQ

/-- A row of even length followed by two equal hashes has a mutated pair. -/
theorem rowMutated_append_pair : ∀ (row : List Uint256) (x : Uint256), row.length % 2 = 0 →
    rowMutated (row ++ [x, x]) = true
  | [], x, _ => by simp [rowMutated]
  | a :: b :: rest, x, h => by
    rw [List.cons_append, List.cons_append, rowMutated,
      rowMutated_append_pair rest x (by simp at h; omega), Bool.or_true]
  | [_], _, h => by simp at h

theorem padRow_of_even {row : List Uint256} (h : ¬row.length % 2 = 1) : padRow row = row := if_neg h

/-- An odd row is an even row and one hash, which the padding repeats. -/
theorem padRow_of_odd {row : List Uint256} (h : row.length % 2 = 1) :
    ∃ init x, row = init ++ [x] ∧ init.length % 2 = 0 ∧ padRow row = init ++ [x, x] := by
  obtain ⟨init, x, rfl⟩ := (List.eq_nil_or_concat' row).resolve_left (by rintro rfl; simp at h)
  refine ⟨init, x, rfl, by simp at h; omega, ?_⟩
  rw [padRow, if_pos h, List.getLast?_concat]
  simp

/-- Rows with one padded row are one row, or the even one of them ends in the hash the padding
repeats in the other, a pair that `mutated` sees. -/
theorem padRow_eq {L₁ L₂ : List Uint256} (h : padRow L₁ = padRow L₂) :
    L₁ = L₂ ∨ rowMutated L₁ = true ∨ rowMutated L₂ = true := by
  by_cases h₁ : L₁.length % 2 = 1 <;> by_cases h₂ : L₂.length % 2 = 1
  · -- both odd: the rows before their padding have one length
    obtain ⟨M₁, x₁, rfl, -, hp₁⟩ := padRow_of_odd h₁
    obtain ⟨M₂, x₂, rfl, -, hp₂⟩ := padRow_of_odd h₂
    rw [hp₁, hp₂] at h
    have hlen : M₁.length = M₂.length := by simpa using congrArg List.length h
    obtain ⟨rfl, hx⟩ := List.append_inj h hlen
    simp only [List.cons.injEq, and_true] at hx
    exact .inl (by rw [hx.1])
  · obtain ⟨M₁, x₁, rfl, hM, hp₁⟩ := padRow_of_odd h₁
    rw [hp₁, padRow_of_even h₂] at h
    exact .inr (.inr (h ▸ rowMutated_append_pair M₁ x₁ hM))
  · obtain ⟨M₂, x₂, rfl, hM, hp₂⟩ := padRow_of_odd h₂
    rw [hp₂, padRow_of_even h₁] at h
    exact .inr (.inl (h ▸ rowMutated_append_pair M₂ x₂ hM))
  · rw [padRow_of_even h₁, padRow_of_even h₂] at h
    exact .inl h

/-- Rows with one next row are one row, or one of them has a mutated pair, or the pairs the
round hashes collide. -/
theorem nextLevel_eq {L₁ L₂ : List Uint256} (h : nextLevel hash256 L₁ = nextLevel hash256 L₂) :
    L₁ = L₂ ∨ rowMutated L₁ = true ∨ rowMutated L₂ = true ∨
      Collides hash256 (pairInputs (padRow L₁)) (pairInputs (padRow L₂)) := by
  have heven : ∀ row : List Uint256, (padRow row).length % 2 = 0 := fun row => by
    rw [length_padRow]
    omega
  rcases hashPairs_eq hash256 _ _ (heven L₁) (heven L₂) h with hpad | hcoll
  · rcases padRow_eq hpad with heq | hm | hm
    · exact .inl heq
    · exact .inr (.inl hm)
    · exact .inr (.inr (.inl hm))
  · exact .inr (.inr (.inr hcoll))

theorem one_lt_length_of_clog {row : List Uint256} {depth : Nat} (h : Nat.clog 2 row.length = depth + 1) :
    1 < row.length := by
  by_contra hle
  rw [Nat.clog_of_right_le_one (by omega)] at h
  omega

theorem length_eq_one_of_clog {row : List Uint256} (hne : row ≠ []) (h : Nat.clog 2 row.length = 0) :
    row.length = 1 := by
  have hle := (Nat.clog_le_iff_le_pow (by norm_num)).mp h.le
  have := List.length_pos_of_ne_nil hne
  rw [pow_zero] at hle
  omega

/-- A round takes a row one level nearer the root. -/
theorem clog_nextLevel_of_clog {row : List Uint256} {depth : Nat} (h : Nat.clog 2 row.length = depth + 1) :
    Nat.clog 2 (nextLevel hash256 row).length = depth := by
  have := clog_length_nextLevel hash256 (one_lt_length_of_clog h)
  omega

/-- Above the leaves, the inputs hashed are this round's pairs and those of the rounds after. -/
theorem hashedInputs_of_one_lt {hashes : List Uint256} (h : 1 < hashes.length) :
    hashedInputs hash256 hashes = pairInputs (padRow hashes) ++ hashedInputs hash256 (nextLevel hash256 hashes) := by
  rw [hashedInputs, if_neg (by omega), nextLevel]

/-- Two leaf lists of one depth with one root are one list, or one of them raises `mutated`,
or two inputs hashed on the way to the two roots collide. The induction runs down the levels
from the root: equal rows above give equal rows below unless the round between them saw a
mutated pair or a collision. -/
theorem eq_or_mutated_of_root_eq : ∀ (depth : Nat) (L₁ L₂ : List Uint256), L₁ ≠ [] → L₂ ≠ [] →
    Nat.clog 2 L₁.length = depth → Nat.clog 2 L₂.length = depth →
    (computeMerkleRoot hash256 L₁).1 = (computeMerkleRoot hash256 L₂).1 →
    L₁ = L₂ ∨ (computeMerkleRoot hash256 L₁).2 = true ∨ (computeMerkleRoot hash256 L₂).2 = true ∨
      Collides hash256 (hashedInputs hash256 L₁) (hashedInputs hash256 L₂)
  | 0, L₁, L₂, hne₁, hne₂, hd₁, hd₂, hroot => by
    -- depth zero: each list is its own root
    obtain ⟨x₁, rfl⟩ := List.length_eq_one_iff.mp (length_eq_one_of_clog hne₁ hd₁)
    obtain ⟨x₂, rfl⟩ := List.length_eq_one_iff.mp (length_eq_one_of_clog hne₂ hd₂)
    rw [computeMerkleRoot_singleton, computeMerkleRoot_singleton] at hroot
    exact .inl (by rw [show x₁ = x₂ from hroot])
  | depth + 1, L₁, L₂, hne₁, hne₂, hd₁, hd₂, hroot => by
    have hlt₁ := one_lt_length_of_clog hd₁
    have hlt₂ := one_lt_length_of_clog hd₂
    have hsnd₁ := computeMerkleRoot_snd_of_one_lt hash256 hlt₁
    have hsnd₂ := computeMerkleRoot_snd_of_one_lt hash256 hlt₂
    rw [computeMerkleRoot_fst_of_one_lt hash256 hlt₁, computeMerkleRoot_fst_of_one_lt hash256 hlt₂] at hroot
    rw [← nextLevel] at hroot hsnd₁ hsnd₂
    rw [hashedInputs_of_one_lt hash256 hlt₁, hashedInputs_of_one_lt hash256 hlt₂]
    rcases eq_or_mutated_of_root_eq depth _ _ (nextLevel_ne_nil hash256 hne₁) (nextLevel_ne_nil hash256 hne₂)
      (clog_nextLevel_of_clog hash256 hd₁) (clog_nextLevel_of_clog hash256 hd₂) hroot with heq | hm₁ | hm₂ | hcoll
    · -- the next rows agree: this round decides
      rcases nextLevel_eq hash256 heq with rfl | hr₁ | hr₂ | hcoll
      · exact .inl rfl
      · exact .inr (.inl (by rw [hsnd₁, hr₁, Bool.true_or]))
      · exact .inr (.inr (.inl (by rw [hsnd₂, hr₂, Bool.true_or])))
      · exact .inr (.inr (.inr (hcoll.mono hash256 (List.subset_append_left _ _) (List.subset_append_left _ _))))
    · exact .inr (.inl (by rw [hsnd₁, hm₁, Bool.or_true]))
    · exact .inr (.inr (.inl (by rw [hsnd₂, hm₂, Bool.or_true])))
    · exact .inr (.inr (.inr (hcoll.mono hash256 (List.subset_append_right _ _) (List.subset_append_right _ _))))

end Mutation

/-- `ComputeMerkleRoot` detects mutation on trees of one depth: two distinct non-empty leaf lists
with `⌈log₂⌉` of their lengths equal and one root have a mutated pair on some level of one of
them, or a 64-byte input hashed on the way to the one root collides with a different one hashed
on the way to the other. And the root is the recursive tree split at a power of two, a missing
right subtree replaced by its left sibling. -/
theorem computeMerkleRoot_detects_mutation :
    (∀ (hash256 : Bytes → Uint256) (L₁ L₂ : List Uint256), L₁ ≠ [] → L₂ ≠ [] → L₁ ≠ L₂ →
      Nat.clog 2 L₁.length = Nat.clog 2 L₂.length →
      (computeMerkleRoot hash256 L₁).1 = (computeMerkleRoot hash256 L₂).1 →
      (computeMerkleRoot hash256 L₁).2 = true ∨ (computeMerkleRoot hash256 L₂).2 = true ∨
        Collides hash256 (hashedInputs hash256 L₁) (hashedInputs hash256 L₂)) ∧
    (∀ (hash256 : Bytes → Uint256) (hashes : List Uint256), hashes ≠ [] →
      (computeMerkleRoot hash256 hashes).1 = treeRoot hash256 (Nat.clog 2 hashes.length) hashes) := by
  refine ⟨fun hash256 L₁ L₂ hne₁ hne₂ hne hd hroot => ?_, computeMerkleRoot_fst_eq_treeRoot⟩
  rcases eq_or_mutated_of_root_eq hash256 _ L₁ L₂ hne₁ hne₂ rfl hd.symm hroot with heq | h
  · exact absurd heq hne
  · exact h

/-- Three leaves and the same three with the last repeated share their root and their depth;
the second raises `mutated`. -/
theorem computeMerkleRoot_detects_mutation_repeated_leaf :
    (computeMerkleRoot sumHash [1, 2, 3]).2 = true ∨ (computeMerkleRoot sumHash [1, 2, 3, 3]).2 = true ∨
      Collides sumHash (hashedInputs sumHash [1, 2, 3]) (hashedInputs sumHash [1, 2, 3, 3]) :=
  computeMerkleRoot_detects_mutation.1 sumHash [1, 2, 3] [1, 2, 3, 3] (by simp) (by simp) (by decide)
    (by decide) (by decide +kernel)

/-- Six leaves: the loop hashes the pair `5, 6` and then that pair's hash with itself, while
filling the right half with copies of its last leaf hashes `5, 6` with `6, 6`. -/
theorem computeMerkleRoot_ne_paddedHalvesRoot :
    Nat.clog 2 6 = 3 ∧
      (computeMerkleRoot sumHash [1, 2, 3, 4, 5, 6]).1 ≠ paddedHalvesRoot sumHash 3 [1, 2, 3, 4, 5, 6] := by
  decide +kernel

end BlackcoinMore.MerkleMutation
