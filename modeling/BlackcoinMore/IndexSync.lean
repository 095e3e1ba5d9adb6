import BlackcoinMore.ActivateChain
import BlackcoinMore.SkipList

/-! The block indexes of `index/base.cpp` (`txindex`, `blockfilterindex`, `coinstatsindex`):
`BaseIndex::Init` with its locator fallback, `NextSyncBlock`, `ThreadSync`, `Commit`, `Rewind`
and `BlockConnected`. A derived index is seen through the calls the base class makes of it,
`CustomAppend` and `CustomRewind`; each of them succeeds. One start of the node is modelled:
`Init`, a `ThreadSync` that runs to its end, and then the queued notifications, each with the
chainstate it was sent from. -/
namespace BlackcoinMore.IndexSync
open Primitives BlockIndex ChainState ActivateChain SkipList

/-- The calls of `BaseIndex` on its derived index, with the `interfaces::BlockKey`s they pass. -/
inductive IndexCall
  | customAppend (hash : Uint256) (height : Nat)
  | customRewind (currentTip newTip : Uint256 × Nat)
  deriving DecidableEq, Repr

structure BaseIndex where
  m_best_block_index : Option CBlockIndex
  m_synced : Bool
  /-- The locator of the last `WriteBestBlock`, which `ReadBestBlock` returns at the next start. -/
  bestLocator : List Uint256
  calls : List IndexCall

/-- The blocks a derived index holds after `calls`, from the blocks `indexed` it held before:
an append adds its block, a rewind keeps the blocks up to the new tip's height. -/
def applyCall (indexed : List Uint256) : IndexCall → List Uint256
  | .customAppend hash _ => indexed ++ [hash]
  | .customRewind _ newTip => indexed.take (newTip.2 + 1)

def indexedAfter (indexed : List Uint256) (calls : List IndexCall) : List Uint256 :=
  calls.foldl applyCall indexed

/-! ### The chain, as the index reads it -/

section Chain
variable (s : ChainstateManager)

/-- `CChain::Genesis()`. -/
def genesis : Option CBlockIndex := s.m_chain.head?.bind s.m_block_index

/-- `CChain::Next(pindex)`. -/
def next (pindex : CBlockIndex) : Option CBlockIndex :=
  if contains s pindex then s.m_chain[pindex.nHeight + 1]?.bind s.m_block_index else none

/-- The loop of `LocatorEntries`, from `index` with the step `step` after the hashes `vHave`;
each round lowers the height, so `fuel` above the height suffices. -/
def locatorWalk : Nat → Nat → List Uint256 → CBlockIndex → Except String (List Uint256)
  | 0, _, vHave, _ => pure vHave
  | fuel + 1, step, vHave, index => do
    let vHave := vHave ++ [index.phashBlock]
    if index.nHeight = 0 then pure vHave
    else
      -- Exponentially larger steps back, plus the genesis block.
      let next ← getAncestor s.m_block_index index (index.nHeight - step : Nat)
      let step := if 10 < vHave.length then step * 2 else step
      match next with
      | none => pure vHave
      | some index => locatorWalk fuel step vHave index

/-- The index's `GetLocator(chain, block_hash)`: `LocatorEntries` of the block under the hash. -/
def getLocator (block_hash : Uint256) : Except String (List Uint256) :=
  match s.m_block_index block_hash with
  | none => throw "Assertion `found' failed."
  | some index => locatorWalk s (index.nHeight + 1) 1 [] index

/-- `NextSyncBlock(pindex_prev, chain)`. -/
def nextSyncBlock : Option CBlockIndex → Except String (Option CBlockIndex)
  | none => pure (genesis s)
  | some pindex_prev =>
    match next s pindex_prev with
    | some pindex => pure (some pindex)
    | none => do
      match ← findFork s (some pindex_prev) with
      | some fork => pure (next s fork)
      | none => throw "CChain::Next of a null block"

end Chain

/-! ### `BaseIndex` -/

section Index
variable (s : ChainstateManager)

/-- `BaseIndex::Commit()`, whose `CustomCommit` and batch write succeed: `false` when no block
has been indexed yet. -/
def commit (idx : BaseIndex) : Except String (Bool × BaseIndex) :=
  match idx.m_best_block_index with
  | none => pure (false, idx)
  | some best => do
    let locator ← getLocator s best.phashBlock
    pure (true, { idx with bestLocator := locator })

/-- `BaseIndex::Rewind(current_tip, new_tip)`. -/
def rewind (idx : BaseIndex) (current_tip new_tip : CBlockIndex) :
    Except String (Bool × BaseIndex) := do
  if idx.m_best_block_index.map (·.phashBlock) != some current_tip.phashBlock then
    throw "Assertion `current_tip == m_best_block_index' failed."
  let ancestor ← getAncestor s.m_block_index current_tip new_tip.nHeight
  if ancestor.map (·.phashBlock) != some new_tip.phashBlock then
    throw "Assertion `current_tip->GetAncestor(new_tip->nHeight) == new_tip' failed."
  let call := IndexCall.customRewind (current_tip.phashBlock, current_tip.nHeight)
    (new_tip.phashBlock, new_tip.nHeight)
  let (ok, idx) ← commit s { idx with calls := idx.calls ++ [call], m_best_block_index := some new_tip }
  -- If commit fails, revert the best block index to avoid corruption.
  if ok then pure (true, idx) else pure (false, { idx with m_best_block_index := some current_tip })

/-- The rewind of `ThreadSync` and `BlockConnected` from `current` to the block under
`new_tip`, a fatal error when it fails. -/
def rewindTo (idx : BaseIndex) (current : Option CBlockIndex) (new_tip : Option Uint256) :
    Except String BaseIndex :=
  match current, new_tip.bind s.m_block_index with
  | some current_tip, some new_tip => do
    let (ok, idx) ← rewind s idx current_tip new_tip
    if ok then pure idx else throw "Failed to rewind index to a previous chain tip"
  | _, _ => throw "Rewind of a null block"

def appendCall (idx : BaseIndex) (pindex : CBlockIndex) : BaseIndex :=
  { idx with calls := idx.calls ++ [.customAppend pindex.phashBlock pindex.nHeight] }

/-- `BaseIndex::Init()` from the locator `ReadBestBlock` returned (`[]` when it is null), with
`CustomInit` succeeding. A locator whose top block is not in the block index falls back to the
tip of the active chain. -/
def init (locator : List Uint256) : Except String BaseIndex := do
  let start_block ← match locator with
    | [] => pure none
    | top :: _ =>
      match s.m_block_index top, s.tip with
      | some locator_index, _ => pure (some locator_index)
      | none, some best_header => pure (some best_header)
      | none, none => throw "best block of the index not found. Please rebuild the index."
  pure { m_best_block_index := start_block,
         m_synced := start_block.map (·.phashBlock) == s.tip.map (·.phashBlock),
         bestLocator := locator, calls := [] }

/-- The loop of `ThreadSync` from `pindex`, for at most `fuel` rounds, with no interruption and
every block readable from disk; the interim locator writes are left out. -/
def syncLoop : Nat → BaseIndex → Option CBlockIndex → Except String BaseIndex
  | 0, idx, _ => pure idx
  | fuel + 1, idx, pindex => do
    match ← nextSyncBlock s pindex with
    | none =>
      let (_, idx) ← commit s { idx with m_best_block_index := pindex }
      pure { idx with m_synced := true }
    | some pindex_next =>
      let idx ← if pindex_next.pprev != pindex.map (·.phashBlock) then
          rewindTo s idx pindex pindex_next.pprev
        else pure idx
      syncLoop fuel (appendCall idx pindex_next) (some pindex_next)

/-- `BaseIndex::ThreadSync()`: a round per block of the active chain and a last one. -/
def threadSync (idx : BaseIndex) : Except String BaseIndex :=
  if idx.m_synced then pure idx
  else syncLoop s (s.m_chain.length + 1) idx idx.m_best_block_index

/-- `BaseIndex::BlockConnected(role, block, pindex)` for the normal chainstate `s` that sent it. -/
def blockConnected (idx : BaseIndex) (pindex : CBlockIndex) : Except String BaseIndex := do
  -- Ignore BlockConnected signals until we have fully indexed the chain.
  if !idx.m_synced then pure idx
  else
    match idx.m_best_block_index with
    | none =>
      if pindex.nHeight ≠ 0 then throw "First block connected is not the genesis block"
      else pure { appendCall idx pindex with m_best_block_index := some pindex }
    | some best_block_index => do
      let ancestor ← getAncestor s.m_block_index best_block_index (pindex.nHeight - 1 : Int)
      -- A block that does not connect to an ancestor of the best block is skipped.
      if ancestor.map (·.phashBlock) != pindex.pprev then pure idx
      else
        let idx ← if some best_block_index.phashBlock != pindex.pprev then
            rewindTo s idx (some best_block_index) pindex.pprev
          else pure idx
        pure { appendCall idx pindex with m_best_block_index := some pindex }

end Index

/-- One start: `Init` from the persisted locator, `ThreadSync`, and then the queued
`BlockConnected` notifications, each with the chainstate that sent it. -/
def startup (s : ChainstateManager) (locator : List Uint256)
    (notifications : List (ChainstateManager × CBlockIndex)) : Except String BaseIndex := do
  let idx ← init s locator
  let idx ← threadSync s idx
  notifications.foldlM (fun idx n => blockConnected n.1 idx n.2) idx

/-! ### The index's calls -/

@[simp] theorem indexedAfter_nil (indexed : List Uint256) : indexedAfter indexed [] = indexed := rfl

theorem indexedAfter_appendCall (indexed : List Uint256) (idx : BaseIndex) (b : CBlockIndex) :
    indexedAfter indexed (appendCall idx b).calls = indexedAfter indexed idx.calls ++ [b.phashBlock] := by
  simp [indexedAfter, appendCall, List.foldl_append, applyCall]

/-! ### Locators are always written -/

section Locator
variable (s : ChainstateManager)

theorem locatorWalk_ok (hL : Linked s.m_block_index) (fuel : Nat) :
    ∀ (step : Nat) (vHave : List Uint256) (index : CBlockIndex),
      s.m_block_index index.phashBlock = some index →
      ∃ r, locatorWalk s fuel step vHave index = .ok r := by
  induction fuel with
  | zero => exact fun _ _ _ _ => ⟨_, rfl⟩
  | succ fuel ih =>
    intro step vHave index hi
    rw [locatorWalk]
    dsimp only
    by_cases h0 : index.nHeight = 0
    · rw [if_pos h0]
      exact ⟨_, rfl⟩
    · -- the step back lands inside `[0, nHeight]`, on a stored entry
      obtain ⟨a, -, -, ham, hanc⟩ :=
        (getAncestor_spec hL hi (index.nHeight - step : Nat)).2 (by omega) (by omega)
      rw [if_neg h0, hanc]
      exact ih _ _ a ham

/-- `Commit` of an index whose best block is in the block index writes a locator. -/
theorem commit_ok (hL : Linked s.m_block_index) (idx : BaseIndex)
    (hb : ∀ b, idx.m_best_block_index = some b → s.m_block_index b.phashBlock = some b) :
    ∃ ok locator, commit s idx = .ok (ok, { idx with bestLocator := locator }) := by
  unfold commit
  split
  · exact ⟨false, idx.bestLocator, rfl⟩
  · rename_i best hbest
    have hm := hb best hbest
    obtain ⟨r, hr⟩ := locatorWalk_ok s hL (best.nHeight + 1) 1 [] best hm
    refine ⟨true, r, ?_⟩
    simp only [getLocator, hm, hr]
    rfl

end Locator

/-! ### Syncing along a well-formed active chain -/

/-- The entry of the block the active chain holds at height `i`. -/
def entryAt (s : ChainstateManager) (i : Nat) : Option CBlockIndex := s.m_chain[i]?.bind s.m_block_index

/-- Where `ThreadSync` stands once the first `n` blocks of the active chain are indexed. -/
def syncPos (s : ChainstateManager) : Nat → Option CBlockIndex
  | 0 => none
  | n + 1 => entryAt s n

/-- The active chain as `CChain::SetTip` keeps it over a well-formed block index: the block at
height `i` is in the index, at height `i`, on the block at `i - 1`. -/
structure ChainOk (s : ChainstateManager) : Prop where
  tree : Linked s.m_block_index
  active : ∀ i (hi : i < s.m_chain.length), ∃ b, s.m_block_index s.m_chain[i] = some b ∧
    b.nHeight = i ∧ b.pprev = (if i = 0 then none else s.m_chain[i - 1]?)

section Active
variable {s : ChainstateManager}

theorem ChainOk.of_entryAt (hc : ChainOk s) {i : Nat} {b : CBlockIndex} (hb : entryAt s i = some b) :
    ∃ hi : i < s.m_chain.length, b.phashBlock = s.m_chain[i] ∧ b.nHeight = i ∧
      b.pprev = (if i = 0 then none else s.m_chain[i - 1]?) := by
  obtain ⟨h, hh, hm⟩ := Option.bind_eq_some_iff.mp hb
  obtain ⟨hi, rfl⟩ := List.getElem?_eq_some_iff.mp hh
  obtain ⟨b', hb', hheight, hprev⟩ := hc.active i hi
  obtain rfl : b = b' := Option.some.inj (hm.symm.trans hb')
  exact ⟨hi, hc.tree.key hm, hheight, hprev⟩

theorem ChainOk.entryAt_isSome (hc : ChainOk s) {i : Nat} (hi : i < s.m_chain.length) :
    (entryAt s i).isSome := by
  obtain ⟨b, hb, -⟩ := hc.active i hi
  simp [entryAt, List.getElem?_eq_getElem hi, hb]

theorem ChainOk.entryAt_mem (hc : ChainOk s) {i : Nat} {b : CBlockIndex}
    (hb : entryAt s i = some b) : s.m_block_index b.phashBlock = some b := by
  obtain ⟨h, -, hm⟩ := Option.bind_eq_some_iff.mp hb
  exact hc.tree.mem hm

theorem contains_of_entryAt (hc : ChainOk s) {i : Nat} {b : CBlockIndex}
    (hb : entryAt s i = some b) : contains s b = true := by
  obtain ⟨hi, hhash, hheight, -⟩ := hc.of_entryAt hb
  simp [contains, hheight, hhash, List.getElem?_eq_getElem hi]

theorem next_of_entryAt (hc : ChainOk s) {i : Nat} {b : CBlockIndex}
    (hb : entryAt s i = some b) : next s b = entryAt s (i + 1) := by
  obtain ⟨-, -, hheight, -⟩ := hc.of_entryAt hb
  rw [next, if_pos (contains_of_entryAt hc hb), hheight]
  rfl

/-- A round of `ThreadSync` inside the active chain: the next block is the chain's next one,
on top of the block the index stands at, so nothing is rewound. -/
theorem nextSyncBlock_syncPos_of_lt (hc : ChainOk s) {n : Nat} (hn : n < s.m_chain.length) :
    ∃ b, nextSyncBlock s (syncPos s n) = .ok (some b) ∧ syncPos s (n + 1) = some b ∧
      b.pprev = (syncPos s n).map (·.phashBlock) := by
  obtain ⟨b, hb⟩ := Option.isSome_iff_exists.mp (hc.entryAt_isSome hn)
  obtain ⟨-, -, -, hprev⟩ := hc.of_entryAt hb
  refine ⟨b, ?_, hb, ?_⟩
  · cases n with
    | zero =>
      simp only [syncPos, nextSyncBlock, genesis, List.head?_eq_getElem?]
      rw [← hb]
      rfl
    | succ k =>
      obtain ⟨bk, hbk⟩ := Option.isSome_iff_exists.mp (hc.entryAt_isSome (by omega : k < _))
      simp only [syncPos, hbk, nextSyncBlock, next_of_entryAt hc hbk, hb]
      rfl
  · cases n with
    | zero => simpa [syncPos] using hprev
    | succ k =>
      obtain ⟨bk, hbk⟩ := Option.isSome_iff_exists.mp (hc.entryAt_isSome (by omega : k < _))
      obtain ⟨hk, hhash, -⟩ := hc.of_entryAt hbk
      simp [syncPos, hbk, hprev, hhash, List.getElem?_eq_getElem hk]

/-- The last round of `ThreadSync`: past the tip, `NextSyncBlock` finds no block. -/
theorem nextSyncBlock_syncPos_length (hc : ChainOk s) :
    nextSyncBlock s (syncPos s s.m_chain.length) = .ok none := by
  cases hlen : s.m_chain.length with
  | zero =>
    simp only [syncPos, nextSyncBlock, genesis, List.length_eq_zero_iff.mp hlen]
    rfl
  | succ k =>
    obtain ⟨tip, htip⟩ := Option.isSome_iff_exists.mp (hc.entryAt_isSome (by omega : k < _))
    obtain ⟨-, -, hheight, -⟩ := hc.of_entryAt htip
    have hnext : ∀ i, k ≤ i → entryAt s (i + 1) = none := fun i hi => by
      simp [entryAt, List.getElem?_eq_none (by omega : s.m_chain.length ≤ i + 1)]
    have hfork : findFork s (some tip) = .ok (some tip) := by
      simp only [findFork, ChainstateManager.height, hlen, hheight]
      simp [forkWalk, contains_of_entryAt hc htip]
      rfl
    simp only [syncPos, htip, nextSyncBlock, next_of_entryAt hc htip, hnext k le_rfl, hfork]
    show (pure (next s tip) : Except String _) = _
    rw [next_of_entryAt hc htip, hnext k le_rfl]
    rfl

theorem syncPos_entry (hc : ChainOk s) {n : Nat} {b : CBlockIndex} (hb : syncPos s n = some b) :
    s.m_block_index b.phashBlock = some b := by
  cases n with
  | zero => cases hb
  | succ k => exact hc.entryAt_mem hb

end Active

section Loop
variable (s : ChainstateManager) {idx : BaseIndex} {pindex : Option CBlockIndex} {fuel : Nat}

theorem syncLoop_of_next_none (h : nextSyncBlock s pindex = .ok none) :
    syncLoop s (fuel + 1) idx pindex = (do
      let (_, idx) ← commit s { idx with m_best_block_index := pindex }
      pure { idx with m_synced := true }) := by
  rw [syncLoop, h]
  rfl

theorem syncLoop_of_next_some {b : CBlockIndex} (h : nextSyncBlock s pindex = .ok (some b))
    (hprev : b.pprev = pindex.map (·.phashBlock)) :
    syncLoop s (fuel + 1) idx pindex = syncLoop s fuel (appendCall idx b) (some b) := by
  rw [syncLoop, h]
  simp only [bind, Except.bind, hprev, bne_self_eq_false, Bool.false_eq_true, if_false]
  rfl

end Loop

section Run
variable {s : ChainstateManager}

/-- `ThreadSync` from the first `n` blocks of a well-formed active chain appends the rest of the
chain in order, rewinds nothing and ends synced, given a round per block left and a last one. -/
theorem syncLoop_syncPos (hc : ChainOk s) (fuel : Nat) :
    ∀ (n : Nat) (idx : BaseIndex), n ≤ s.m_chain.length → s.m_chain.length - n < fuel →
      ∃ idx', syncLoop s fuel idx (syncPos s n) = .ok idx' ∧ idx'.m_synced = true ∧
        idx'.m_best_block_index = syncPos s s.m_chain.length ∧ ∀ indexed, indexedAfter indexed idx'.calls =
          indexedAfter indexed idx.calls ++ s.m_chain.drop n := by
  induction fuel with
  | zero => intro n idx _ hfuel; omega
  | succ fuel ih =>
    intro n idx hn hfuel
    rcases Nat.lt_or_ge n s.m_chain.length with hlt | hge
    · -- the round appends the chain's block at height `n`
      obtain ⟨b, hnext, hpos, hprev⟩ := nextSyncBlock_syncPos_of_lt hc hlt
      obtain ⟨_, hhash, -⟩ := hc.of_entryAt (show entryAt s n = some b from hpos)
      obtain ⟨idx', hrun, hsynced, hbest, hcalls⟩ := ih (n + 1) (appendCall idx b) hlt (by omega)
      refine ⟨idx', ?_, hsynced, hbest, fun indexed => ?_⟩
      · rw [syncLoop_of_next_some s hnext hprev, ← hpos, hrun]
      · rw [hcalls, indexedAfter_appendCall, List.append_assoc, List.drop_eq_getElem_cons hlt,
          hhash]
        rfl
    · -- past the tip the loop commits and stops
      obtain rfl : n = s.m_chain.length := by omega
      obtain ⟨ok, locator, hcommit⟩ := commit_ok s hc.tree
        { idx with m_best_block_index := syncPos s s.m_chain.length }
        (fun b hb => syncPos_entry hc hb)
      refine ⟨{ idx with m_best_block_index := syncPos s s.m_chain.length
                         bestLocator := locator, m_synced := true }, ?_, rfl, rfl, fun indexed => ?_⟩
      · rw [syncLoop_of_next_none s (nextSyncBlock_syncPos_length hc), hcommit]
        rfl
      · simp [indexedAfter]

theorem threadSync_syncPos (hc : ChainOk s) {n : Nat} (hn : n ≤ s.m_chain.length) (idx : BaseIndex)
    (hbest : idx.m_best_block_index = syncPos s n)
    (hsynced : idx.m_synced = true → n = s.m_chain.length) :
    ∃ idx', threadSync s idx = .ok idx' ∧ idx'.m_synced = true ∧
      idx'.m_best_block_index = syncPos s s.m_chain.length ∧ ∀ indexed, indexedAfter indexed idx'.calls =
        indexedAfter indexed idx.calls ++ s.m_chain.drop n := by
  unfold threadSync
  cases h : idx.m_synced with
  | true =>
    obtain rfl := hsynced h
    exact ⟨idx, rfl, h, hbest, by simp⟩
  | false =>
    rw [hbest]
    exact syncLoop_syncPos hc _ n idx hn (by omega)

end Run

/-! ### Notifications that extend the active chain -/

theorem ancestorWalk_self (m : BlockMap) (height fuel : Nat) (b : CBlockIndex) :
    ancestorWalk m height fuel b height = .ok b := by
  cases fuel with
  | zero => rfl
  | succ fuel => simp [ancestorWalk]

theorem getAncestor_self (m : BlockMap) (b : CBlockIndex) {height : Int}
    (h : (b.nHeight : Int) = height) : getAncestor m b height = .ok (some b) := by
  subst h
  simp only [getAncestor, lt_self_iff_false, Int.natCast_nonneg, not_lt.mpr, false_or, if_false,
    Int.toNat_natCast, ancestorWalk_self]
  rfl

theorem tip_eq_syncPos (s : ChainstateManager) : s.tip = syncPos s s.m_chain.length := by
  cases hlen : s.m_chain.length with
  | zero => simp [ChainstateManager.tip, List.length_eq_zero_iff.mp hlen, syncPos]
  | succ k => simp [ChainstateManager.tip, syncPos, entryAt, List.getLast?_eq_getElem?, hlen]

/-- Notifications that each connect one block on the tip of the chain before, from `s` on. -/
def Extends : ChainstateManager → List (ChainstateManager × CBlockIndex) → Prop
  | _, [] => True
  | s, (s', p) :: rest => ChainOk s' ∧ s'.m_chain = s.m_chain ++ [p.phashBlock] ∧
      s'.m_block_index p.phashBlock = some p ∧ Extends s' rest

section Connect
variable {s s' : ChainstateManager} {p : CBlockIndex}

/-- The block `BlockConnected` is sent for, on top of the chain before it. -/
theorem ChainOk.of_extend (hc' : ChainOk s') (hchain : s'.m_chain = s.m_chain ++ [p.phashBlock])
    (hp : s'.m_block_index p.phashBlock = some p) :
    p.nHeight = s.m_chain.length ∧ p.pprev = s.m_chain.getLast? ∧
      syncPos s' s'.m_chain.length = some p := by
  have hlen : s'.m_chain.length = s.m_chain.length + 1 := by simp [hchain]
  have hget : s'.m_chain[s.m_chain.length]? = some p.phashBlock := by simp [hchain]
  have hentry : entryAt s' s.m_chain.length = some p := by simp [entryAt, hget, hp]
  obtain ⟨_, -, hheight, hprev⟩ := hc'.of_entryAt hentry
  refine ⟨hheight, ?_, by rw [hlen]; exact hentry⟩
  rw [hprev, List.getLast?_eq_getElem?]
  split_ifs with h0
  · simp [List.length_eq_zero_iff.mp h0]
  · rw [hchain, List.getElem?_append_left (by omega)]

/-- `BlockConnected` for a block on the tip the index stands at appends it and nothing else. -/
theorem blockConnected_extend (hc : ChainOk s) (hc' : ChainOk s')
    (hchain : s'.m_chain = s.m_chain ++ [p.phashBlock]) (hp : s'.m_block_index p.phashBlock = some p)
    {idx : BaseIndex} (hsynced : idx.m_synced = true)
    (hbest : idx.m_best_block_index = syncPos s s.m_chain.length) :
    blockConnected s' idx p =
      .ok { appendCall idx p with m_best_block_index := syncPos s' s'.m_chain.length } := by
  obtain ⟨hheight, hprev, hpos⟩ := hc'.of_extend hchain hp
  rw [hpos]
  cases hlen : s.m_chain.length with
  | zero =>
    rw [hlen] at hbest hheight
    simp [blockConnected, hsynced, hbest, hheight]
    rfl
  | succ k =>
    obtain ⟨bk, hbk⟩ := Option.isSome_iff_exists.mp (hc.entryAt_isSome (by omega : k < _))
    obtain ⟨hk, hhash, hbkh, -⟩ := hc.of_entryAt hbk
    have hanc : getAncestor s'.m_block_index bk (p.nHeight - 1 : Int) = .ok (some bk) :=
      getAncestor_self _ bk (by omega)
    have hlast : s.m_chain.getLast? = some bk.phashBlock := by
      rw [List.getLast?_eq_getElem?, hhash, hlen]
      simp [List.getElem?_eq_getElem hk]
    rw [hlen] at hbest
    simp only [blockConnected, hsynced, bne_self_eq_false, Bool.not_true, Bool.false_eq_true,
      if_false, hbest, syncPos, hbk, hanc, bind, Except.bind, Option.map_some, hprev, hlast]
    rfl

theorem foldlM_blockConnected (notifications : List (ChainstateManager × CBlockIndex)) :
    ∀ (s : ChainstateManager) (idx : BaseIndex), ChainOk s → Extends s notifications →
      idx.m_synced = true → idx.m_best_block_index = syncPos s s.m_chain.length →
      ∃ idx', notifications.foldlM (fun idx n => blockConnected n.1 idx n.2) idx = .ok idx' ∧
        idx'.m_synced = true ∧ ∀ indexed, indexedAfter indexed idx'.calls =
          indexedAfter indexed idx.calls ++ notifications.map (·.2.phashBlock) := by
  induction notifications with
  | nil => exact fun _ idx _ _ hsynced _ => ⟨idx, rfl, hsynced, by simp⟩
  | cons n rest ih =>
    obtain ⟨s', p⟩ := n
    intro s idx hc hext hsynced hbest
    obtain ⟨hc', hchain, hp, hrest⟩ := hext
    obtain ⟨idx', hrun, hsynced', hcalls⟩ :=
      ih s' { appendCall idx p with m_best_block_index := syncPos s' s'.m_chain.length } hc' hrest
        hsynced rfl
    refine ⟨idx', ?_, hsynced', fun indexed => ?_⟩
    · rw [List.foldlM_cons, blockConnected_extend hc hc' hchain hp hsynced hbest]
      exact hrun
    · rw [hcalls]
      simp [appendCall, indexedAfter, List.foldl_append, applyCall]

end Connect

/-! ### One start of the node -/

section Startup
variable {s : ChainstateManager}

theorem ChainOk.getElem_inj (hc : ChainOk s) {i j : Nat} (hi : i < s.m_chain.length)
    (hj : j < s.m_chain.length) (h : s.m_chain[i] = s.m_chain[j]) : i = j := by
  obtain ⟨b, hb, hbi, -⟩ := hc.active i hi
  obtain ⟨b', hb', hbj, -⟩ := hc.active j hj
  obtain rfl : b = b' := Option.some.inj ((h ▸ hb).symm.trans hb')
  omega

theorem init_of_lookup {top : Uint256} {b : CBlockIndex} (rest : List Uint256)
    (hb : s.m_block_index top = some b) :
    init s (top :: rest) =
      .ok { m_best_block_index := some b
            m_synced := some b.phashBlock == s.tip.map (·.phashBlock)
            bestLocator := top :: rest
            calls := [] } := by
  simp only [init, hb]
  rfl

/-- A start whose `Init` leaves the index at the first `n` blocks of the active chain, and reports
it synced only at the tip, ends up holding the rest of the chain and every block connected after. -/
theorem startup_of_init (hc : ChainOk s) {notifications : List (ChainstateManager × CBlockIndex)}
    (hext : Extends s notifications) {n : Nat} (hn : n ≤ s.m_chain.length) {locator : List Uint256}
    {idx : BaseIndex} (hinit : init s locator = .ok idx) (hbest : idx.m_best_block_index = syncPos s n)
    (hsynced : idx.m_synced = true → n = s.m_chain.length) (hcalls : idx.calls = []) :
    ∃ idx', startup s locator notifications = .ok idx' ∧ idx'.m_synced = true ∧
      ∀ indexed, indexedAfter indexed idx'.calls =
        indexed ++ s.m_chain.drop n ++ notifications.map (·.2.phashBlock) := by
  obtain ⟨idx₁, hsync, hsynced₁, hbest₁, hcalls₁⟩ := threadSync_syncPos hc hn idx hbest hsynced
  obtain ⟨idx₂, hrun, hsynced₂, hcalls₂⟩ :=
    foldlM_blockConnected notifications s idx₁ hc hext hsynced₁ hbest₁
  refine ⟨idx₂, ?_, hsynced₂, fun indexed => ?_⟩
  · rw [startup, hinit]
    simp only [bind, Except.bind, hsync]
    exact hrun
  · rw [hcalls₂, hcalls₁, hcalls, indexedAfter_nil]

namespace MissingTop

/-- A block under `hash` at `height` on `pprev`, every other field zero. -/
def blockAt (hash : Uint256) (height : Nat) (pprev : Option Uint256) : CBlockIndex :=
  { phashBlock := hash, pprev := pprev, pskip := none, nHeight := height, nChainWork := 0,
    nTx := 0, nChainTx := 0, nStatus := 0, nVersion := 0, hashMerkleRoot := 0, nTime := 0,
    nBits := 0, nNonce := 0, nSequenceId := 0, nFlags := 0 }

/-- The active chain `1`, `2`, `3`; the block `9` the index last committed is not in the block
index. -/
def chainstate : ChainstateManager :=
  { m_block_index := fun h =>
      if h = 1 then some (blockAt 1 0 none)
      else if h = 2 then some (blockAt 2 1 (some 1))
      else if h = 3 then some (blockAt 3 2 (some 2)) else none
    m_best_header := some 3, m_chain := [1, 2, 3], m_failed_blocks := []
    setBlockIndexCandidates := [3], m_blocks_unlinked := [], nBlockSequenceId := 0 }


/-- The active chain of `chainstate` is well formed. -/
theorem chainOk_chainstate : ChainOk chainstate where
  tree :=
    { key := by
        intro h b hb
        simp only [chainstate] at hb
        split_ifs at hb with h1 h2 h3 <;> cases hb <;> simp_all [blockAt]
      prev := by
        intro h b hb
        simp only [chainstate] at hb
        split_ifs at hb with h1 h2 h3 <;> cases hb
        · exact Or.inl ⟨rfl, rfl⟩
        · exact Or.inr ⟨blockAt 1 0 none, by decide +kernel, rfl⟩
        · exact Or.inr ⟨blockAt 2 1 (some 1), by decide +kernel, rfl⟩
      skip := by
        intro h b hs hb hskip
        simp only [chainstate] at hb
        split_ifs at hb <;> cases hb <;> cases hskip }
  active := by
    intro i hi
    simp only [chainstate, List.length_cons, List.length_nil] at hi
    interval_cases i <;> exact ⟨_, rfl, rfl, rfl⟩

end MissingTop

/-- An index whose persisted locator's top block is the active chain's block at height `k`,
holding the chain up to it, ends up holding the active chain and every block connected after,
once per block and in order. -/
theorem startup_of_top_on_chain (hc : ChainOk s) {k : Nat} (hk : k < s.m_chain.length)
    (rest : List Uint256) (notifications : List (ChainstateManager × CBlockIndex))
    (hext : Extends s notifications) :
    ∃ idx, startup s (s.m_chain[k] :: rest) notifications = .ok idx ∧ idx.m_synced = true ∧
      indexedAfter (s.m_chain.take (k + 1)) idx.calls =
        s.m_chain ++ notifications.map (·.2.phashBlock) := by
  obtain ⟨b, hb⟩ := Option.isSome_iff_exists.mp (hc.entryAt_isSome hk)
  obtain ⟨_, hhash, -⟩ := hc.of_entryAt hb
  have hlookup : s.m_block_index s.m_chain[k] = some b := by
    simpa [entryAt, List.getElem?_eq_getElem hk] using hb
  -- `Init` reports the index synced only when the locator's top block is the tip
  have hsynced : (some b.phashBlock == s.tip.map (·.phashBlock)) = true → k + 1 = s.m_chain.length := by
    intro h
    cases ht : s.tip with
    | none => simp [ht] at h
    | some t =>
    have htk : b.phashBlock = t.phashBlock := by simpa [ht] using h
    rw [tip_eq_syncPos] at ht
    cases hlen : s.m_chain.length with
    | zero => omega
    | succ j =>
      rw [hlen] at ht
      obtain ⟨hj, hthash, -⟩ := hc.of_entryAt (show entryAt s j = some t from ht)
      have := hc.getElem_inj hk hj (by rw [← hhash, htk, hthash])
      omega
  obtain ⟨idx, hrun, hsynced', hcalls⟩ :=
    startup_of_init hc hext hk (init_of_lookup rest hlookup) hb.symm hsynced rfl
  refine ⟨idx, hrun, hsynced', ?_⟩
  rw [hcalls, List.take_append_drop]

theorem startup_of_top_on_chain_tip :
    ∃ idx, startup MissingTop.chainstate [3] [] = .ok idx ∧ idx.m_synced = true ∧
      indexedAfter [1, 2, 3] idx.calls = [1, 2, 3] :=
  @startup_of_top_on_chain MissingTop.chainstate MissingTop.chainOk_chainstate 2 (by decide) [] []
    trivial

/-- A fresh index (no locator) ends up holding the active chain and every block connected after. -/
theorem startup_of_null_locator (hc : ChainOk s)
    (notifications : List (ChainstateManager × CBlockIndex)) (hext : Extends s notifications) :
    ∃ idx, startup s [] notifications = .ok idx ∧ idx.m_synced = true ∧
      indexedAfter [] idx.calls = s.m_chain ++ notifications.map (·.2.phashBlock) := by
  have hsynced : ((none : Option Uint256) == s.tip.map (·.phashBlock)) = true →
      0 = s.m_chain.length := by
    intro h
    rw [tip_eq_syncPos] at h
    cases hlen : s.m_chain.length with
    | zero => rfl
    | succ j =>
      obtain ⟨b, hb⟩ := Option.isSome_iff_exists.mp (hc.entryAt_isSome (by omega : j < _))
      simp [hlen, syncPos, hb] at h
  obtain ⟨idx, hrun, hsynced', hcalls⟩ :=
    startup_of_init hc hext (Nat.zero_le _) (show init s [] = .ok _ from rfl) rfl hsynced rfl
  exact ⟨idx, hrun, hsynced', by rw [hcalls]; rfl⟩

theorem startup_of_null_locator_fresh :
    ∃ idx, startup MissingTop.chainstate [] [] = .ok idx ∧ idx.m_synced = true ∧
      indexedAfter [] idx.calls = [1, 2, 3] :=
  startup_of_null_locator MissingTop.chainOk_chainstate [] trivial

theorem init_of_missing_top {top : Uint256} (rest : List Uint256)
    (hmiss : s.m_block_index top = none) {t : CBlockIndex} (htip : s.tip = some t) :
    init s (top :: rest) =
      .ok { m_best_block_index := some t, m_synced := true, bestLocator := top :: rest
            calls := [] } := by
  simp only [init, hmiss, htip, bind, Except.bind, pure, Except.pure, Option.map_some,
    beq_self_eq_true]

/-- Where the persisted locator's top block is missing from the block index, `Init` falls back
to the tip and reports the index synced, so `ThreadSync` appends nothing: the index keeps the
blocks it held, which are not the active chain. -/
theorem startup_skips_blocks_of_missing_top (indexed rest : List Uint256) (top : Uint256)
    (hlast : indexed.getLast? = some top) (hmiss : s.m_block_index top = none)
    (hchain : ∀ h ∈ s.m_chain, (s.m_block_index h).isSome) (htip : s.tip.isSome) :
    ∃ idx, startup s (top :: rest) [] = .ok idx ∧ idx.m_synced = true ∧
      indexedAfter indexed idx.calls = indexed ∧ indexed ≠ s.m_chain := by
  obtain ⟨t, ht⟩ := Option.isSome_iff_exists.mp htip
  refine ⟨{ m_best_block_index := some t, m_synced := true, bestLocator := top :: rest
            calls := [] }, ?_, rfl, rfl, ?_⟩
  · rw [startup, init_of_missing_top rest hmiss ht]
    rfl
  · rintro rfl
    have htop := hchain top (List.mem_of_getLast? hlast)
    rw [hmiss] at htop
    cases htop


open MissingTop in
/-- The index held genesis and the stale block `9`, with the locator `[9, 1]` its last `Commit`
wrote: after the start it still holds `[1, 9]`, and the blocks `2` and `3` are never indexed. -/
theorem startup_skips_blocks_of_missing_top_stale :
    ([1, 9] : List Uint256).getLast? = some 9 ∧ chainstate.m_block_index 9 = none ∧
      (∀ h ∈ chainstate.m_chain, (chainstate.m_block_index h).isSome) ∧ chainstate.tip.isSome ∧
      ∃ idx, startup chainstate [9, 1] [] = .ok idx ∧ idx.m_synced = true ∧
        indexedAfter [1, 9] idx.calls = [1, 9] ∧ [1, 9] ≠ chainstate.m_chain := by
  have hchain : ∀ h ∈ chainstate.m_chain, (chainstate.m_block_index h).isSome := by
    intro h hh
    simp only [chainstate, List.mem_cons, List.not_mem_nil, or_false] at hh
    rcases hh with rfl | rfl | rfl <;> decide +kernel
  exact ⟨rfl, by decide +kernel, hchain, by decide +kernel,
    startup_skips_blocks_of_missing_top [1, 9] [1] 9 rfl (by decide +kernel) hchain
      (by decide +kernel)⟩

end Startup

end BlackcoinMore.IndexSync
