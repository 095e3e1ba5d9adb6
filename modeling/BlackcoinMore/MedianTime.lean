import BlackcoinMore.VersionBitsCache
import BlackcoinMore.SortRank

/-! The median time past along the block index. Before protocol V2 it is the middle of the last
eleven block times, and `ContextualCheckBlockHeader` accepts a header only with a time above
its parent's median time past ("time-too-old"): the child's window loses the oldest time and
gains one above the old middle, so its middle does not fall. From protocol V2 on it is the
block's own time, above the parent's by the same rule. `IsProtocolV2` leaves out the single
time `1407053678`; a header at that time after a V2 parent goes back to the median, which may
lie below the parent's time, so the rule for a new header below names that case. -/

namespace BlackcoinMore.SkipList
open Primitives ChainParams BlockIndex

section Window
variable {m : BlockMap}

@[simp] theorem recentTimes_none (n : Nat) : recentTimes m n none = [] := by
  cases n <;> rfl

/-- The shorter window is a prefix of the longer one. -/
theorem recentTimes_take : ∀ (n k : Nat) (p : Option CBlockIndex), recentTimes m n p = (recentTimes m (n + k) p).take n
  | 0, _, _ => rfl
  | n + 1, k, none => by simp
  | n + 1, k, some b => by
    rw [show n + 1 + k = (n + k) + 1 by omega]
    simp only [recentTimes, List.take_succ_cons]
    rw [← recentTimes_take n k]

theorem length_recentTimes_le : ∀ (n : Nat) (p : Option CBlockIndex), (recentTimes m n p).length ≤ n
  | 0, _ => le_rfl
  | n + 1, none => by simp
  | n + 1, some b => by
    simp only [recentTimes, List.length_cons, Nat.add_le_add_iff_right]
    exact length_recentTimes_le n _

theorem getMedianTimePast_eq (params : Params) (p : CBlockIndex) :
    getMedianTimePast m params p =
      if params.isProtocolV2 p.getBlockTime then p.getBlockTime
      else SortRank.middle (recentTimes m nMedianTimeSpan (some p)) 0 := rfl

/-- A block whose time is above its parent's median time past, and that stays in protocol V2
when its parent is in it, has a median time past at least its parent's. -/
theorem getMedianTimePast_parent_le (params : Params) {b bp : CBlockIndex} (hpar : parent m b = some bp)
    (htime : getMedianTimePast m params bp < b.getBlockTime)
    (hv2 : params.isProtocolV2 bp.getBlockTime → params.isProtocolV2 b.getBlockTime) :
    getMedianTimePast m params bp ≤ getMedianTimePast m params b := by
  by_cases hb : params.isProtocolV2 b.getBlockTime
  · rw [getMedianTimePast_eq params b, if_pos hb]
    exact htime.le
  · -- both windows are medians: the child's is the parent's without its oldest time, and its own
    have hbp : ¬params.isProtocolV2 bp.getBlockTime := fun h => hb (hv2 h)
    have hwin : recentTimes m nMedianTimeSpan (some b) =
        b.getBlockTime :: (recentTimes m nMedianTimeSpan (some bp)).take 10 := by
      rw [nMedianTimeSpan, recentTimes, ← recentTimes_take 10 1]
      congr 2
    have hne : recentTimes m nMedianTimeSpan (some bp) ≠ [] := by simp [nMedianTimeSpan, recentTimes]
    rw [getMedianTimePast_eq params bp, if_neg hbp] at htime ⊢
    rw [getMedianTimePast_eq params b, if_neg hb, hwin]
    exact SortRank.middle_le_middle_cons_take hne (length_recentTimes_le _ _) 0 htime.le

end Window

section Frame
variable {m : BlockMap} {hash : Uint256} {e : CBlockIndex} (hL : Linked m) (hnew : m hash = none)
include hL hnew

/-- A new entry at a fresh hash leaves the window of a stored block as it was. -/
theorem recentTimes_update : ∀ (n : Nat) {b : CBlockIndex}, m b.phashBlock = some b →
    recentTimes (Function.update m hash (some e)) n (some b) = recentTimes m n (some b)
  | 0, _, _ => rfl
  | n + 1, b, hb => by
    have hpar : parent (Function.update m hash (some e)) b = parent m b := parent_update hnew (hL.resolves hb)
    change b.getBlockTime :: recentTimes _ n (parent _ b) = b.getBlockTime :: recentTimes m n (parent m b)
    rw [hpar]
    cases hp : parent m b with
    | none => simp
    | some bp => rw [recentTimes_update n (hL.parent_mem hp)]

theorem getMedianTimePast_update (params : Params) {b : CBlockIndex} (hb : m b.phashBlock = some b) :
    getMedianTimePast (Function.update m hash (some e)) params b = getMedianTimePast m params b := by
  simp only [getMedianTimePast_eq, recentTimes_update hL hnew _ hb]

end Frame

/-- The entry `AddToBlockIndex` makes for a new header keeps the header's time and version. -/
theorem addToBlockIndex_header {m : BlockMap} {best best' : Option Uint256} {block : CBlockHeader} {hash : Uint256}
    {fSetAsProofOfStake : Bool} {m' : BlockMap} {e : CBlockIndex} (hnew : m hash = none)
    (h : addToBlockIndex m best block hash fSetAsProofOfStake = .ok (m', best', e)) :
    e.nTime = block.nTime ∧ e.nVersion = block.nVersion := by
  unfold addToBlockIndex at h
  simp only [hnew] at h
  obtain ⟨q, hq, h⟩ := ExceptFold.bind_eq_ok h
  cases h
  -- `BuildSkip` sets the skip pointer only
  have hq' : q.nTime = block.nTime ∧ q.nVersion = block.nVersion := by
    split at hq
    · obtain ⟨_, rfl⟩ := buildSkip_eq_ok m hq
      exact ⟨rfl, rfl⟩
    · cases hq
      exact ⟨rfl, rfl⟩
  obtain ⟨_, hr⟩ := CBlockIndex.raiseValidity_snd
    { (if fSetAsProofOfStake then q.setProofOfStake else q) with
      nChainWork := ((((if fSetAsProofOfStake then q.setProofOfStake else q).pprev.bind m).map (·.nChainWork)).getD 0) +
        getBlockProof (if fSetAsProofOfStake then q.setProofOfStake else q) } BLOCK_VALID_TREE
  rw [hr]
  cases fSetAsProofOfStake <;> exact hq'

/-- What `AddToBlockIndex` does to the index: nothing for a known header, and otherwise it stores
the new entry at the fresh hash. -/
theorem addToBlockIndex_index {m : BlockMap} {best best' : Option Uint256} {block : CBlockHeader} {hash : Uint256}
    {fSetAsProofOfStake : Bool} {m' : BlockMap} {e : CBlockIndex}
    (h : addToBlockIndex m best block hash fSetAsProofOfStake = .ok (m', best', e)) :
    m' = m ∨ (m hash = none ∧ m' = Function.update m hash (some e)) := by
  cases hnew : m hash with
  | some pindex =>
    unfold addToBlockIndex at h
    simp only [hnew] at h
    cases h
    exact .inl rfl
  | none => exact .inr ⟨rfl, (addToBlockIndex_entry hnew h).1⟩

end BlackcoinMore.SkipList

namespace BlackcoinMore.VersionBits
open Primitives ChainParams BlockIndex SkipList

/-- What `ContextualCheckBlockHeader` asks of a header's time against its stored parent, and
that it does not leave protocol V2 at the excluded time. -/
def HeaderTimeOk (m : BlockMap) (params : Params) (block : CBlockHeader) : Prop :=
  ∀ prev, m block.hashPrevBlock = some prev →
    getMedianTimePast m params prev < block.getBlockTime ∧
      (params.isProtocolV2 prev.getBlockTime → params.isProtocolV2 block.getBlockTime)

instance instDecidableHeaderTimeOk (m : BlockMap) (params : Params) (block : CBlockHeader) :
    Decidable (HeaderTimeOk m params block) :=
  decidable_of_iff ((m block.hashPrevBlock).all fun prev => decide (getMedianTimePast m params prev < block.getBlockTime ∧
      (params.isProtocolV2 prev.getBlockTime → params.isProtocolV2 block.getBlockTime)))
    (by simp only [HeaderTimeOk, Option.all_eq_true, decide_eq_true_eq])

/-- Adding a header that meets the time rule keeps the median time past growing along the index. -/
theorem MonotoneMTP.of_addToBlockIndex {m : BlockMap} {params : Params} (hL : Linked m) (hmono : MonotoneMTP m params)
    {best best' : Option Uint256} {block : CBlockHeader} {hash : Uint256} {fSetAsProofOfStake : Bool}
    {m' : BlockMap} {e : CBlockIndex} (h : addToBlockIndex m best block hash fSetAsProofOfStake = .ok (m', best', e))
    (htime : HeaderTimeOk m params block) : MonotoneMTP m' params := by
  rcases addToBlockIndex_index h with rfl | ⟨hnew, -⟩
  · -- a known header leaves the index as it is
    exact hmono
  · obtain ⟨rfl, he, hshape⟩ := addToBlockIndex_entry hnew h
    have hetime : e.getBlockTime = block.getBlockTime := by
      simp only [CBlockIndex.getBlockTime, CBlockHeader.getBlockTime, (addToBlockIndex_header hnew h).1]
    intro b bp hb hpar
    by_cases hbe : b.phashBlock = hash
    · -- the new entry: its parent is the stored `pprev` the time rule was checked against
      rw [hbe, Function.update_self, Option.some_inj] at hb
      subst hb
      rcases hshape with ⟨hn, -, -⟩ | ⟨pprev, pskip, hpp, hprev, -, -, -⟩
      · simp [parent, hn] at hpar
      · have hppne : block.hashPrevBlock ≠ hash := fun h' => by rw [h', hnew] at hpp; cases hpp
        have hpar' : parent (Function.update m hash (some e)) e = some pprev := by
          simp only [parent, hprev, Option.bind_some, Function.update_of_ne hppne, hpp]
        rw [hpar', Option.some_inj] at hpar
        subst hpar
        obtain ⟨hlt, hv2⟩ := htime pprev hpp
        have hbpm : m pprev.phashBlock = some pprev := hL.parent_mem (show parent m e = some pprev by
          simp only [parent, hprev, Option.bind_some, hpp])
        refine getMedianTimePast_parent_le params hpar' ?_ ?_
        · rw [getMedianTimePast_update hL hnew params hbpm, hetime]
          exact hlt
        · rw [hetime]
          exact hv2
    · -- an old entry: its parent and both windows are the old ones
      rw [Function.update_of_ne hbe] at hb
      rw [parent_update hnew (hL.resolves hb)] at hpar
      rw [getMedianTimePast_update hL hnew params hb, getMedianTimePast_update hL hnew params (hL.parent_mem hpar)]
      exact hmono hb hpar

end BlackcoinMore.VersionBits
