import BlackcoinMore.BlockIndex

/-! The skip list of `chain.cpp`. `BuildSkip` points a new entry's `pskip` at its ancestor at
`GetSkipHeight(nHeight)`, which `GetAncestor` finds from the parent; `GetAncestor` walks down
by `pskip` or by `pprev`. `Linked` is what `AddToBlockIndex` keeps of the block index: every
entry is stored under its own hash, is a root at height 0 or has a stored parent one height
below, and its `pskip` names its ancestor at the skip height. Under it the walk returns the
entry that following `pprev` reaches, within the rounds it is given, and never meets a
missing parent. -/
namespace BlackcoinMore.SkipList
open Primitives BlockIndex

section SkipHeight

theorem invertLowestOne_le (n : Nat) : invertLowestOne n ≤ n := Nat.and_le_left

theorem invertLowestOne_lt {n : Nat} (hn : 0 < n) : invertLowestOne n < n := by
  have h : n &&& (n - 1) ≤ n - 1 := Nat.and_le_right
  unfold invertLowestOne
  omega

/-- Every skip height is below the height: each skip makes progress. -/
theorem getSkipHeight_lt {n : Nat} (hn : 0 < n) : getSkipHeight n < n := by
  unfold getSkipHeight
  split_ifs with h2 hodd
  · omega
  · have h1 := invertLowestOne_le (invertLowestOne (n - 1))
    have h2 : invertLowestOne (n - 1) < n - 1 := invertLowestOne_lt (by omega)
    omega
  · exact invertLowestOne_lt hn

theorem getSkipHeight_le_pred (n : Nat) : getSkipHeight (n + 1) ≤ n :=
  Nat.le_of_lt_succ (getSkipHeight_lt (Nat.succ_pos n))

end SkipHeight

section Ancestors
variable (m : BlockMap)

/-- `pprev`, read through the block index. -/
def parent (b : CBlockIndex) : Option CBlockIndex := b.pprev.bind m

/-- The entry reached from `b` by following `pprev` `k` times. -/
def prevIter : Nat → CBlockIndex → Option CBlockIndex
  | 0, b => some b
  | k + 1, b => (parent m b).bind (prevIter k)

@[simp] theorem prevIter_zero (b : CBlockIndex) : prevIter m 0 b = some b := rfl

theorem prevIter_succ (k : Nat) (b : CBlockIndex) :
    prevIter m (k + 1) b = (parent m b).bind (prevIter m k) := rfl

theorem prevIter_add (j k : Nat) (b : CBlockIndex) :
    prevIter m (j + k) b = (prevIter m k b).bind (prevIter m j) := by
  induction k generalizing b with
  | zero => rfl
  | succ k ih =>
    rw [← Nat.add_assoc, prevIter_succ, prevIter_succ, Option.bind_assoc]
    simp only [ih]

/-- The shape `AddToBlockIndex` gives the block index. -/
structure Linked : Prop where
  key : ∀ {h b}, m h = some b → b.phashBlock = h
  prev : ∀ {h b}, m h = some b →
    (b.pprev = none ∧ b.nHeight = 0) ∨ ∃ bp, parent m b = some bp ∧ b.nHeight = bp.nHeight + 1
  skip : ∀ {h b hs}, m h = some b → b.pskip = some hs →
    (prevIter m (b.nHeight - getSkipHeight b.nHeight) b).map (·.phashBlock) = some hs

variable {m}

theorem Linked.mem (hL : Linked m) {h : Uint256} {b : CBlockIndex} (hb : m h = some b) :
    m b.phashBlock = some b := by
  rw [hL.key hb]
  exact hb

theorem Linked.parent_mem (hL : Linked m) {b bp : CBlockIndex} (h : parent m b = some bp) :
    m bp.phashBlock = some bp := by
  unfold parent at h
  obtain ⟨hp, -, hbp⟩ := Option.bind_eq_some_iff.mp h
  exact hL.mem hbp

/-- A stored entry above height 0 has a stored parent, one height below. -/
theorem Linked.parent_of_pos (hL : Linked m) {b : CBlockIndex} (hb : m b.phashBlock = some b)
    (hpos : 0 < b.nHeight) : ∃ bp, parent m b = some bp ∧ b.nHeight = bp.nHeight + 1 := by
  rcases hL.prev hb with ⟨-, h0⟩ | hbp
  · omega
  · exact hbp

/-- Following `pprev` `k ≤ nHeight` times from a stored entry reaches a stored entry `k`
heights below. -/
theorem Linked.prevIter_spec (hL : Linked m) {k : Nat} :
    ∀ {b : CBlockIndex}, m b.phashBlock = some b → k ≤ b.nHeight →
      ∃ a, prevIter m k b = some a ∧ a.nHeight = b.nHeight - k ∧ m a.phashBlock = some a := by
  induction k with
  | zero =>
    intro b hb _
    exact ⟨b, rfl, by omega, hb⟩
  | succ k ih =>
    intro b hb hk
    obtain ⟨bp, hbp, hh⟩ := hL.parent_of_pos hb (by omega)
    obtain ⟨a, ha, hah, ham⟩ := ih (hL.parent_mem hbp) (by omega)
    refine ⟨a, ?_, by omega, ham⟩
    rw [prevIter_succ, hbp]
    exact ha

/-- The `pskip` of a stored entry, read through the index, is its ancestor at the skip height. -/
theorem Linked.skip_spec (hL : Linked m) {b s : CBlockIndex} (hb : m b.phashBlock = some b)
    (hs : b.pskip.bind m = some s) :
    prevIter m (b.nHeight - getSkipHeight b.nHeight) b = some s ∧ s.nHeight = getSkipHeight b.nHeight := by
  obtain ⟨hsk, hpskip, hms⟩ := Option.bind_eq_some_iff.mp hs
  have hle : getSkipHeight b.nHeight ≤ b.nHeight := by
    rcases Nat.eq_zero_or_pos b.nHeight with h0 | hpos
    · simp [h0, getSkipHeight]
    · exact (getSkipHeight_lt hpos).le
  obtain ⟨a, ha, hah, ham⟩ := hL.prevIter_spec hb (Nat.sub_le b.nHeight (getSkipHeight b.nHeight))
  have hkey := hL.skip hb hpskip
  rw [ha, Option.map_some, Option.some_inj] at hkey
  -- the pointer names `a`, and the index holds `a` under that name
  have has : a = s := by
    rw [hkey, hms] at ham
    exact (Option.some_inj.mp ham).symm
  subst has
  exact ⟨ha, by omega⟩

end Ancestors

section Walk
variable {m : BlockMap} (hL : Linked m)
include hL

/-- The loop of `GetAncestor`: from a stored entry at `heightWalk`, with as many rounds as
heights are left, it returns the entry following `pprev` reaches at `height`. -/
theorem ancestorWalk_spec {height : Nat} (fuel : Nat) :
    ∀ {w : CBlockIndex} {heightWalk : Nat}, m w.phashBlock = some w → w.nHeight = heightWalk →
      height ≤ heightWalk → heightWalk - height ≤ fuel →
      ∃ a, ancestorWalk m height fuel w heightWalk = .ok a ∧
        prevIter m (heightWalk - height) w = some a := by
  -- induction on the rounds left; `pindexWalk` stays the entry at `heightWalk`
  induction fuel with
  | zero =>
    intro w heightWalk _ _ hle hfuel
    have hh : heightWalk - height = 0 := by omega
    exact ⟨w, rfl, by rw [hh]; rfl⟩
  | succ fuel ih =>
    intro w heightWalk hw hwh hle hfuel
    by_cases hlt : height < heightWalk
    · simp only [ancestorWalk, if_pos hlt]
      split
      · -- follow `pskip` to the skip height
        rename_i s hs hfollow
        obtain ⟨hsw, hsh⟩ := hL.skip_spec hw hs
        have hge : height ≤ getSkipHeight heightWalk := by
          simp only [Bool.or_eq_true, beq_iff_eq, Bool.and_eq_true, decide_eq_true_eq] at hfollow
          omega
        have hskip : getSkipHeight heightWalk < heightWalk := getSkipHeight_lt (by omega)
        obtain ⟨_, _, hms⟩ := Option.bind_eq_some_iff.mp hs
        have hsm : m s.phashBlock = some s := hL.mem hms
        obtain ⟨a, ha, hpa⟩ := @ih s (getSkipHeight heightWalk) hsm (by rw [hsh, hwh]) hge (by omega)
        refine ⟨a, ha, ?_⟩
        have hsplit : heightWalk - height =
            (getSkipHeight heightWalk - height) + (heightWalk - getSkipHeight heightWalk) := by omega
        rw [hsplit, prevIter_add, ← hwh, hsw, Option.bind_some, hwh]
        exact hpa
      · -- follow `pprev` one height down
        obtain ⟨bp, hbp, hh⟩ := hL.parent_of_pos hw (by omega)
        have hprev : w.pprev.bind m = some bp := hbp
        simp only [hprev]
        obtain ⟨a, ha, hpa⟩ := @ih bp (heightWalk - 1) (hL.parent_mem hbp) (by omega) (by omega) (by omega)
        refine ⟨a, ha, ?_⟩
        rw [show heightWalk - height = (heightWalk - 1 - height) + 1 by omega, prevIter_succ, hbp,
          Option.bind_some]
        exact hpa
    · have hh : heightWalk - height = 0 := by omega
      simp only [ancestorWalk, if_neg hlt]
      exact ⟨w, rfl, by rw [hh]; rfl⟩

/-- `GetAncestor` on a stored entry: `nullptr` outside `[0, nHeight]`, and otherwise the
entry `nHeight - height` parents up, which sits at `height`. -/
theorem getAncestor_spec {hash : Uint256} {p : CBlockIndex} (hp : m hash = some p) (height : Int) :
    (height < 0 ∨ p.nHeight < height → getAncestor m p height = .ok none) ∧
    (0 ≤ height → height ≤ p.nHeight → ∃ a, prevIter m (p.nHeight - height.toNat) p = some a ∧
      (a.nHeight : Int) = height ∧ m a.phashBlock = some a ∧ getAncestor m p height = .ok (some a)) := by
  refine ⟨fun hout => ?_, fun h0 hle => ?_⟩
  · unfold getAncestor
    rw [if_pos (by omega)]
  · have hpm := hL.mem hp
    obtain ⟨a, ha, hah, ham⟩ := hL.prevIter_spec hpm (Nat.sub_le p.nHeight height.toNat)
    obtain ⟨a', hwalk, ha'⟩ := @ancestorWalk_spec m hL height.toNat p.nHeight p p.nHeight hpm rfl
      (by omega) (Nat.sub_le _ _)
    rw [ha, Option.some_inj] at ha'
    subst ha'
    refine ⟨a, ha, by omega, ham, ?_⟩
    unfold getAncestor
    rw [if_neg (by omega), hwalk]
    rfl

end Walk

section Insert
variable {m : BlockMap} {hash : Uint256} {e : CBlockIndex} (hL : Linked m) (hnew : m hash = none)

/-- A `pprev` that is null or names a stored entry. -/
def Resolves (m : BlockMap) (b : CBlockIndex) : Prop := b.pprev = none ∨ ∃ bp, parent m b = some bp

theorem resolves_of_prev {b : CBlockIndex}
    (h : (b.pprev = none ∧ b.nHeight = 0) ∨ ∃ bp, parent m b = some bp ∧ b.nHeight = bp.nHeight + 1) :
    Resolves m b := by
  rcases h with ⟨hn, -⟩ | ⟨bp, hbp, -⟩
  · exact .inl hn
  · exact .inr ⟨bp, hbp⟩

theorem Linked.resolves (hL : Linked m) {h : Uint256} {b : CBlockIndex} (hb : m h = some b) :
    Resolves m b :=
  resolves_of_prev (hL.prev hb)

include hnew

/-- Storing a new entry at a fresh hash does not move the parent of an entry that resolves. -/
theorem parent_update {b : CBlockIndex} (hb : Resolves m b) :
    parent (Function.update m hash (some e)) b = parent m b := by
  rcases hb with hn | ⟨bp, hbp⟩
  · simp [parent, hn]
  · obtain ⟨hp, hpp, hm⟩ := Option.bind_eq_some_iff.mp hbp
    have hne : hp ≠ hash := by
      rintro rfl
      rw [hnew] at hm
      cases hm
    simp only [parent, hpp, Option.bind_some, Function.update_of_ne hne]

include hL

theorem prevIter_update (k : Nat) :
    ∀ {b : CBlockIndex}, Resolves m b → prevIter (Function.update m hash (some e)) k b = prevIter m k b := by
  induction k with
  | zero => intro b _; rfl
  | succ k ih =>
    intro b hb
    rw [prevIter_succ, prevIter_succ, parent_update hnew hb]
    rcases hb with hn | ⟨bp, hbp⟩
    · simp [parent, hn]
    · rw [hbp, Option.bind_some, Option.bind_some]
      exact ih (hL.resolves (hL.parent_mem hbp))

/-- A new entry at a fresh hash keeps the index `Linked` when it is stored under its hash,
resolves its parent and names its ancestor at the skip height. -/
theorem Linked.update (he : e.phashBlock = hash)
    (hprev : (e.pprev = none ∧ e.nHeight = 0) ∨ ∃ bp, parent m e = some bp ∧ e.nHeight = bp.nHeight + 1)
    (hskip : ∀ {hs}, e.pskip = some hs →
      (prevIter m (e.nHeight - getSkipHeight e.nHeight) e).map (·.phashBlock) = some hs) :
    Linked (Function.update m hash (some e)) := by
  have heres : Resolves m e := resolves_of_prev hprev
  -- every entry is either the new one or an old one, whose walks stay inside the old index
  have hcases : ∀ {h b}, Function.update m hash (some e) h = some b → (h = hash ∧ b = e) ∨ m h = some b := by
    intro h b hb
    by_cases hh : h = hash
    · subst hh
      simp only [Function.update_self, Option.some_inj] at hb
      exact .inl ⟨rfl, hb.symm⟩
    · rw [Function.update_of_ne hh] at hb
      exact .inr hb
  refine ⟨fun hb => ?_, fun hb => ?_, fun hb hs => ?_⟩
  · rcases hcases hb with ⟨rfl, rfl⟩ | hb
    · exact he
    · exact hL.key hb
  · rcases hcases hb with ⟨rfl, rfl⟩ | hb
    · rw [parent_update hnew heres]
      exact hprev
    · rw [parent_update hnew (hL.resolves hb)]
      exact hL.prev hb
  · rcases hcases hb with ⟨rfl, rfl⟩ | hb
    · rw [prevIter_update hL hnew _ heres]
      exact hskip hs
    · rw [prevIter_update hL hnew _ (hL.resolves hb)]
      exact hL.skip hb hs

end Insert

section AddToBlockIndex
variable {m : BlockMap}

-- The links of an entry, which the flag and the validity level leave alone.
@[simp] theorem pprev_raiseValidity (b : CBlockIndex) (nUpTo : UInt32) :
    (b.raiseValidity nUpTo).2.pprev = b.pprev := by
  obtain ⟨_, h⟩ := CBlockIndex.raiseValidity_snd b nUpTo
  rw [h]

@[simp] theorem pskip_raiseValidity (b : CBlockIndex) (nUpTo : UInt32) :
    (b.raiseValidity nUpTo).2.pskip = b.pskip := by
  obtain ⟨_, h⟩ := CBlockIndex.raiseValidity_snd b nUpTo
  rw [h]

@[simp] theorem nHeight_raiseValidity (b : CBlockIndex) (nUpTo : UInt32) :
    (b.raiseValidity nUpTo).2.nHeight = b.nHeight := by
  obtain ⟨_, h⟩ := CBlockIndex.raiseValidity_snd b nUpTo
  rw [h]

/-- What `AddToBlockIndex` stores for a header it has not seen: an entry under the hash, either
a root at height 0 with no `pskip`, or linked to the stored parent one height below with the
`pskip` that `BuildSkip` got from `GetAncestor`. -/
theorem addToBlockIndex_entry {best best' : Option Uint256} {block : CBlockHeader} {hash : Uint256}
    {fSetAsProofOfStake : Bool} {m' : BlockMap} {e : CBlockIndex} (hnew : m hash = none)
    (h : addToBlockIndex m best block hash fSetAsProofOfStake = .ok (m', best', e)) :
    m' = Function.update m hash (some e) ∧ e.phashBlock = hash ∧
      ((e.pprev = none ∧ e.nHeight = 0 ∧ e.pskip = none) ∨
        ∃ pprev pskip, m block.hashPrevBlock = some pprev ∧ e.pprev = some block.hashPrevBlock ∧
          e.nHeight = pprev.nHeight + 1 ∧
          getAncestor m pprev (getSkipHeight (pprev.nHeight + 1)) = .ok pskip ∧
          e.pskip = pskip.map (·.phashBlock)) := by
  unfold addToBlockIndex at h
  simp only [hnew] at h
  obtain ⟨q, hq, h⟩ := ExceptFold.bind_eq_ok h
  cases h
  refine ⟨rfl, ?_⟩
  simp only [CBlockIndex.phashBlock_raiseValidity, pprev_raiseValidity, pskip_raiseValidity,
    nHeight_raiseValidity, apply_ite CBlockIndex.pprev, apply_ite CBlockIndex.pskip,
    apply_ite CBlockIndex.nHeight, apply_ite CBlockIndex.phashBlock, CBlockIndex.setProofOfStake, ite_self]
  split at hq
  · -- the parent is stored: `BuildSkip` asks `GetAncestor` of the parent
    rename_i pprev hpp
    unfold buildSkip at hq
    simp only [Option.bind_some, hpp] at hq
    obtain ⟨pskip, hanc, hq⟩ := ExceptFold.bind_eq_ok hq
    cases hq
    exact ⟨rfl, .inr ⟨pprev, pskip, hpp, rfl, rfl, hanc, rfl⟩⟩
  · cases hq
    exact ⟨rfl, .inl ⟨rfl, rfl, rfl⟩⟩

/-- `AddToBlockIndex` keeps the index `Linked`: the `pskip` it gives a new entry is the parent's
ancestor at the skip height, one `pprev` further from the new entry. -/
theorem Linked.of_addToBlockIndex (hL : Linked m) {best best' : Option Uint256} {block : CBlockHeader}
    {hash : Uint256} {fSetAsProofOfStake : Bool} {m' : BlockMap} {e : CBlockIndex}
    (h : addToBlockIndex m best block hash fSetAsProofOfStake = .ok (m', best', e)) : Linked m' := by
  cases hnew : m hash with
  | some pindex =>
    -- a known header leaves the index as it is
    unfold addToBlockIndex at h
    simp only [hnew] at h
    cases h
    exact hL
  | none =>
    obtain ⟨rfl, he, hlink⟩ := addToBlockIndex_entry hnew h
    rcases hlink with ⟨hn, h0, hs⟩ | ⟨pprev, pskip, hpp, hprev, hh, hanc, hs⟩
    · refine hL.update hnew he (.inl ⟨hn, h0⟩) (fun hsome => ?_)
      rw [hs] at hsome
      cases hsome
    · have hpar : parent m e = some pprev := by
        simp only [parent, hprev, Option.bind_some, hpp]
      refine hL.update hnew he (.inr ⟨pprev, hpar, hh⟩) (fun hsome => ?_)
      -- `GetAncestor` of the parent answered with the entry `nHeight - skip` parents up
      have hsk := getSkipHeight_le_pred pprev.nHeight
      obtain ⟨a, ha, -, -, hga⟩ := (getAncestor_spec hL hpp (getSkipHeight (pprev.nHeight + 1))).2
        (by omega) (by omega)
      rw [hanc, Except.ok.injEq] at hga
      subst hga
      have hk : e.nHeight - getSkipHeight e.nHeight =
          (pprev.nHeight - (getSkipHeight (pprev.nHeight + 1) : Int).toNat) + 1 := by
        rw [hh, Int.toNat_natCast]
        omega
      rw [hk, prevIter_succ, hpar, Option.bind_some, ha]
      rw [hs] at hsome
      exact hsome

end AddToBlockIndex

/-- The block indexes that `AddToBlockIndex` builds from the empty one, header by header: each
new entry gets its `pprev`, the height one above it, and `BuildSkip`. -/
inductive Built : BlockMap → Prop
  | empty : Built fun _ => none
  | addToBlockIndex {m : BlockMap} {best : Option Uint256} {block : CBlockHeader} {hash : Uint256}
      {fSetAsProofOfStake : Bool} {m' : BlockMap} {best' : Option Uint256} {pindex : CBlockIndex} :
      Built m → addToBlockIndex m best block hash fSetAsProofOfStake = .ok (m', best', pindex) → Built m'

theorem linked_empty : Linked fun _ => none where
  key h := by cases h
  prev h := by cases h
  skip h := by cases h

theorem Built.linked {m : BlockMap} (hm : Built m) : Linked m := by
  induction hm with
  | empty => exact linked_empty
  | addToBlockIndex _ h ih => exact ih.of_addToBlockIndex h

theorem getAncestor_eq_prevIter {m : BlockMap} (hm : Built m) {hash : Uint256} {p : CBlockIndex}
    (hp : m hash = some p) (height : Int) :
    (height < 0 ∨ p.nHeight < height → getAncestor m p height = .ok none) ∧
    (0 ≤ height → height ≤ p.nHeight → ∃ a, prevIter m (p.nHeight - height.toNat) p = some a ∧
      (a.nHeight : Int) = height ∧ m a.phashBlock = some a ∧ getAncestor m p height = .ok (some a)) :=
  getAncestor_spec hm.linked hp height

/-- Headers added one after another under their hashes, as header sync adds them. -/
def addHeaders : BlockMap → List (CBlockHeader × Uint256) → BlockMap
  | m, [] => m
  | m, (block, hash) :: rest =>
    match BlockIndex.addToBlockIndex m none block hash false with
    | .ok (m', _, _) => addHeaders m' rest
    | .error _ => m

theorem Built.addHeaders {m : BlockMap} (hm : Built m) (l : List (CBlockHeader × Uint256)) :
    Built (addHeaders m l) := by
  induction l generalizing m with
  | nil => exact hm
  | cons x rest ih =>
    obtain ⟨block, hash⟩ := x
    simp only [SkipList.addHeaders]
    split
    · rename_i h
      exact ih (hm.addToBlockIndex h)
    · exact hm

namespace TwentyHeaders

def header (i : Nat) : CBlockHeader := ⟨1, BitVec.ofNat 256 i, 0, 0, 0x1e0fffff, 0, 0⟩

/-- Twenty headers in a row, the first a root. -/
def index : BlockMap :=
  addHeaders (fun _ => none) ((List.range 20).map fun i => (header i, BitVec.ofNat 256 (i + 1)))

def tip : CBlockIndex := (index (BitVec.ofNat 256 20)).getD (CBlockIndex.ofHeader (header 0) 0)

theorem index_tip : index (BitVec.ofNat 256 20) = some tip := by decide

theorem nHeight_tip : tip.nHeight = 19 := by decide

end TwentyHeaders

theorem getAncestor_twenty_headers :
    ∃ a, prevIter TwentyHeaders.index 14 TwentyHeaders.tip = some a ∧ a.nHeight = 5 ∧
      getAncestor TwentyHeaders.index TwentyHeaders.tip 5 = .ok (some a) := by
  have hb : Built TwentyHeaders.index := Built.empty.addHeaders _
  obtain ⟨a, ha, hah, -, hga⟩ := (getAncestor_eq_prevIter hb TwentyHeaders.index_tip 5).2 (by decide)
    (by rw [TwentyHeaders.nHeight_tip]; decide)
  rw [TwentyHeaders.nHeight_tip] at ha
  exact ⟨a, ha, by omega, hga⟩

end BlackcoinMore.SkipList
