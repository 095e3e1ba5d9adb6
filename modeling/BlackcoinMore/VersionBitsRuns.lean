import BlackcoinMore.MedianTime

/-! The version-bits caches of a node over whole runs. The block index grows by `AddToBlockIndex`
for headers that meet the time rule, and `VersionBitsCache`'s `State`, `StateSinceHeight`,
`ComputeBlockVersion` and `Clear` are called on it in any order. At every state the node
reaches, each cached entry is BIP9's plain state of a stored period end, so every answer is the
one the plain recursion gives on the index of that moment: neither the cache nor the index
growing under it changes an answer. -/

namespace BlackcoinMore.VersionBits
open Primitives ChainParams BlockIndex SkipList

/-! ### The index growing under the cache -/

section Frame
variable {m : BlockMap} {hash : Uint256} {e : CBlockIndex} (hL : Linked m) (hnew : m hash = none)
include hL hnew

theorem countLoop_update (c : ThresholdConditionChecker) :
    ∀ (n : Nat) (p : Option CBlockIndex) (count : Nat), (∀ b, p = some b → m b.phashBlock = some b) →
      countLoop (Function.update m hash (some e)) c n p count = countLoop m c n p count
  | 0, _, _, _ => rfl
  | _ + 1, none, _, _ => rfl
  | n + 1, some b, count, hp => by
    have hb := hp b rfl
    have hpar : parent (Function.update m hash (some e)) b = parent m b := parent_update hnew (hL.resolves hb)
    change countLoop _ c n (parent _ b) _ = countLoop m c n (parent m b) _
    rw [hpar]
    exact countLoop_update c n _ _ fun a ha => hL.parent_mem ha

theorem nextState_update (params : Params) (c : ThresholdConditionChecker) {b : CBlockIndex}
    (hb : m b.phashBlock = some b) (state : ThresholdState) :
    nextState (Function.update m hash (some e)) params c state b = nextState m params c state b := by
  cases state <;>
    simp only [nextState, getMedianTimePast_update hL hnew params hb,
      countLoop_update hL hnew c _ (some b) 0 fun a ha => Option.some_inj.mp ha ▸ hb]

/-- The plain recursion on a stored block reads only the block and its ancestors. The induction
is on the rounds, one period down each. -/
theorem stateAfter_update (params : Params) (c : ThresholdConditionChecker) :
    ∀ (fuel : Nat) (p : Option CBlockIndex), (∀ b, p = some b → m b.phashBlock = some b) →
      stateAfter (Function.update m hash (some e)) params c fuel p = stateAfter m params c fuel p
  | _, none, _ => by simp
  | 0, some _, _ => rfl
  | fuel + 1, some b, hp => by
    have hb := hp b rfl
    rw [stateAfter, stateAfter, prevIter_update hL hnew _ (hL.resolves hb),
      stateAfter_update params c fuel _ fun a ha => (hL.prevIter_mem hb ha).1]
    simp only [nextState_update hL hnew params c hb]

theorem naiveState_update (params : Params) (c : ThresholdConditionChecker) {p : Option CBlockIndex}
    (hp : ∀ b, p = some b → m b.phashBlock = some b) :
    naiveState (Function.update m hash (some e)) params c p = naiveState m params c p :=
  stateAfter_update hL hnew params c _ p hp

omit hL in
/-- A stored entry stays stored when a new one comes at a fresh hash. -/
theorem update_of_stored {h : Uint256} {b : CBlockIndex} (hb : m h = some b) :
    Function.update m hash (some e) h = some b := by
  have hne : h ≠ hash := fun h' => by rw [h', hnew] at hb; cases hb
  rw [Function.update_of_ne hne, hb]

omit hL in
theorem Aligned.index_update {c : ThresholdConditionChecker} {p : Option CBlockIndex} (hp : Aligned m c p) :
    Aligned (Function.update m hash (some e)) c p := by
  intro b hb
  obtain ⟨hbm, hmod⟩ := hp b hb
  exact ⟨update_of_stored hnew hbm, hmod⟩

/-- A new entry at a fresh hash keeps every cached state plain: what is cached is about stored
period ends, whose plain states the new entry does not move. -/
theorem CacheOk.index_update {params : Params} {c : ThresholdConditionChecker} {cache : ThresholdConditionCache}
    (hc : CacheOk m params c cache) : CacheOk (Function.update m hash (some e)) params c cache := by
  intro k state h
  obtain ⟨p, hk, ha, hs⟩ := hc k state h
  refine ⟨p, hk, ha.index_update hnew, ?_⟩
  rw [naiveState_update hL hnew params c fun b hb => (ha b hb).1]
  exact hs

end Frame

theorem CacheOk.of_addToBlockIndex {m : BlockMap} {params : Params} {c : ThresholdConditionChecker}
    {cache : ThresholdConditionCache} (hL : Linked m) (hc : CacheOk m params c cache)
    {best best' : Option Uint256} {block : CBlockHeader} {hash : Uint256} {fSetAsProofOfStake : Bool}
    {m' : BlockMap} {e : CBlockIndex} (h : addToBlockIndex m best block hash fSetAsProofOfStake = .ok (m', best', e)) :
    CacheOk m' params c cache := by
  rcases addToBlockIndex_index h with rfl | ⟨hnew, rfl⟩
  · exact hc
  · exact hc.index_update hL hnew

/-! ### BIP9's answers -/

section Answers
variable (m : BlockMap) (params : Params) (c : ThresholdConditionChecker)

/-- The state BIP9 gives the block after `pindexPrev`: `ACTIVE` or `FAILED` for a deployment that
is always or never active, and otherwise the plain state of the period the block is in. -/
def bip9State (pindexPrev : Option CBlockIndex) : Except String ThresholdState :=
  if c.beginTime = ALWAYS_ACTIVE then .ok .ACTIVE
  else if c.beginTime = NEVER_ACTIVE then .ok .FAILED
  else naiveState m params c (periodEnd m c pindexPrev)

/-- What `GetStateSinceHeightFor` answers: `0` for a deployment that is always or never active or
in a `DEFINED` period, and otherwise the first height of the run of periods in the state of
`pindexPrev`'s child. -/
def SinceHeight (pindexPrev : Option CBlockIndex) (height : Int) : Prop :=
  if c.beginTime = ALWAYS_ACTIVE ∨ c.beginTime = NEVER_ACTIVE then height = 0
  else (naiveState m params c (periodEnd m c pindexPrev) = .ok .DEFINED ∧ height = 0) ∨
    ∃ p0 r state, periodEnd m c pindexPrev = some p0 ∧ naiveState m params c (some p0) = .ok state ∧
      state ≠ .DEFINED ∧ RunStart m params c p0 r state ∧ height = r.nHeight + 1

variable {m params c}

theorem bip9State_of_begin (hbegin : c.beginTime ≠ ALWAYS_ACTIVE ∧ c.beginTime ≠ NEVER_ACTIVE)
    (pindexPrev : Option CBlockIndex) :
    bip9State m params c pindexPrev = naiveState m params c (periodEnd m c pindexPrev) := by
  simp only [bip9State, if_neg hbegin.1, if_neg hbegin.2]

variable (hL : Linked m) (hP : 0 < c.period) (hmono : MonotoneMTP m params)
include hL hP hmono

/-- `GetStateFor` from a plain cache, whatever the start time: BIP9's state and a plain cache. -/
theorem getStateFor_bip9State {pindexPrev : Option CBlockIndex} (hp : ∀ b, pindexPrev = some b → m b.phashBlock = some b)
    {cache : ThresholdConditionCache} (hc : CacheOk m params c cache) :
    ∃ state cache', getStateFor m params c pindexPrev cache = .ok (state, cache') ∧
      bip9State m params c pindexPrev = .ok state ∧ CacheOk m params c cache' := by
  by_cases halways : c.beginTime = ALWAYS_ACTIVE
  · exact ⟨.ACTIVE, cache, by simp [getStateFor, halways], by simp [bip9State, halways], hc⟩
  by_cases hnever : c.beginTime = NEVER_ACTIVE
  · exact ⟨.FAILED, cache, by rw [getStateFor, if_neg halways, if_pos hnever],
      by rw [bip9State, if_neg halways, if_pos hnever], hc⟩
  obtain ⟨state, cache', hget, hstate, hc'⟩ := getStateFor_spec hL hP hmono ⟨halways, hnever⟩ hp hc
  exact ⟨state, cache', hget, by rw [bip9State_of_begin ⟨halways, hnever⟩]; exact hstate, hc'⟩

/-- `GetStateSinceHeightFor` from a plain cache, whatever the start time. -/
theorem getStateSinceHeightFor_sinceHeight {pindexPrev : Option CBlockIndex}
    (hp : ∀ b, pindexPrev = some b → m b.phashBlock = some b) {cache : ThresholdConditionCache}
    (hc : CacheOk m params c cache) :
    ∃ height cache', getStateSinceHeightFor m params c pindexPrev cache = .ok (height, cache') ∧
      SinceHeight m params c pindexPrev height ∧ CacheOk m params c cache' := by
  by_cases hbegin : c.beginTime = ALWAYS_ACTIVE ∨ c.beginTime = NEVER_ACTIVE
  · exact ⟨0, cache, by rw [getStateSinceHeightFor, if_pos hbegin], by rw [SinceHeight, if_pos hbegin], hc⟩
  · have hreal : c.beginTime ≠ ALWAYS_ACTIVE ∧ c.beginTime ≠ NEVER_ACTIVE := not_or.mp hbegin
    obtain ⟨height, cache', hget, hc', hspec⟩ := getStateSinceHeightFor_spec hL hP hmono hreal hp hc
    exact ⟨height, cache', hget, by rw [SinceHeight, if_neg hbegin]; exact hspec, hc'⟩

end Answers

/-! ### The caches of all deployments -/

section Caches
variable (m : BlockMap) (params : Params) (vbparams : VersionBitsParams)

/-- Every deployment's cache holds plain states only. -/
def CachesOk (vbc : VersionBitsCache) : Prop :=
  ∀ pos, CacheOk m params (versionBitsConditionChecker vbparams pos) (vbc.m_caches pos)

variable {m params vbparams}

theorem cachesOk_empty : CachesOk m params vbparams VersionBitsCache.empty :=
  fun _ => cacheOk_empty

theorem CachesOk.setCache {vbc : VersionBitsCache} (h : CachesOk m params vbparams vbc) {pos : DeploymentPos}
    {cache : ThresholdConditionCache} (hc : CacheOk m params (versionBitsConditionChecker vbparams pos) cache) :
    CachesOk m params vbparams (vbc.setCache pos cache) := by
  intro pos'
  by_cases hpos : pos' = pos
  · subst hpos
    simpa [VersionBitsCache.setCache] using hc
  · simpa [VersionBitsCache.setCache, Function.update_of_ne hpos] using h pos'

variable (hL : Linked m) (hP : 0 < vbparams.nMinerConfirmationWindow) (hmono : MonotoneMTP m params)
include hL hP hmono

/-- `VersionBitsCache::State` from plain caches: BIP9's state, and plain caches. -/
theorem VersionBitsCache.state_spec {vbc : VersionBitsCache} (h : CachesOk m params vbparams vbc)
    {pindexPrev : Option CBlockIndex} (hp : ∀ b, pindexPrev = some b → m b.phashBlock = some b) (pos : DeploymentPos) :
    ∃ state vbc', vbc.state m params vbparams pindexPrev pos = .ok (state, vbc') ∧
      bip9State m params (versionBitsConditionChecker vbparams pos) pindexPrev = .ok state ∧
      CachesOk m params vbparams vbc' := by
  obtain ⟨state, cache', hget, hstate, hc'⟩ := getStateFor_bip9State hL hP hmono hp (h pos)
  refine ⟨state, vbc.setCache pos cache', ?_, hstate, h.setCache hc'⟩
  simp only [VersionBitsCache.state, hget, bind, Except.bind, pure, Except.pure]

/-- `VersionBitsCache::StateSinceHeight` from plain caches: the height BIP9 gives, and plain caches. -/
theorem VersionBitsCache.stateSinceHeight_spec {vbc : VersionBitsCache} (h : CachesOk m params vbparams vbc)
    {pindexPrev : Option CBlockIndex} (hp : ∀ b, pindexPrev = some b → m b.phashBlock = some b) (pos : DeploymentPos) :
    ∃ height vbc', vbc.stateSinceHeight m params vbparams pindexPrev pos = .ok (height, vbc') ∧
      SinceHeight m params (versionBitsConditionChecker vbparams pos) pindexPrev height ∧
      CachesOk m params vbparams vbc' := by
  obtain ⟨height, cache', hget, hheight, hc'⟩ := getStateSinceHeightFor_sinceHeight hL hP hmono hp (h pos)
  refine ⟨height, vbc.setCache pos cache', ?_, hheight, h.setCache hc'⟩
  simp only [VersionBitsCache.stateSinceHeight, hget, bind, Except.bind, pure, Except.pure]

end Caches

/-! ### The block version -/

section MaskBits

/-- The bits of a one-bit mask: the shift is taken modulo the width. -/
theorem getLsbD_one_shiftLeft (k i : Nat) :
    ((1 : UInt32) <<< k.toUInt32).toBitVec.getLsbD i = decide (i = k % 32) := by
  have hk : (k.toUInt32.toBitVec % 32).toNat = k % 32 := by
    simp [Nat.toUInt32, BitVec.toNat_umod]
  have hlt : k % 32 < 32 := Nat.mod_lt k (by norm_num)
  rw [UInt32.toBitVec_shiftLeft, BitVec.shiftLeft_eq', hk, BitVec.getLsbD_shiftLeft]
  by_cases hik : i = k % 32
  · subst hik
    simp [hlt]
  · by_cases hlo : i < k % 32
    · simp [hlo, hik]
    · simp [hlo, hik, BitVec.getLsbD_one, show i - k % 32 ≠ 0 by omega]

/-- A value and a one-bit mask meet exactly when the value has the mask's bit. -/
theorem and_one_shiftLeft_ne_zero_iff (v : UInt32) (k : Nat) :
    (v &&& (1 : UInt32) <<< k.toUInt32) ≠ 0 ↔ v.toBitVec.getLsbD (k % 32) = true := by
  rw [UInt32.ne_iff_toBitVec_ne, UInt32.toBitVec_and]
  constructor
  · intro hne
    by_contra hbit
    apply hne
    apply BitVec.eq_of_getLsbD_eq
    intro i _
    rw [BitVec.getLsbD_and, getLsbD_one_shiftLeft]
    by_cases hik : i = k % 32
    · subst hik
      simp_all
    · simp [hik]
  · intro hbit h0
    have hk0 := congrArg (fun x : BitVec 32 => x.getLsbD (k % 32)) h0
    simp only [BitVec.getLsbD_and, getLsbD_one_shiftLeft, hbit, decide_true, Bool.and_self] at hk0
    simp at hk0

end MaskBits

theorem topMask_getLsbD : ∀ i < 32, VERSIONBITS_TOP_MASK.toBitVec.getLsbD i = decide (29 ≤ i) := by
  decide

theorem topBits_getLsbD : ∀ i < 32, VERSIONBITS_TOP_BITS.toBitVec.getLsbD i = decide (i = 29) := by
  decide

/-- A version whose top three bits are `001` passes the version-bits top check. -/
theorem topBits_of_bits {v : UInt32} (hv : ∀ i, 29 ≤ i → i < 32 → (v.toBitVec.getLsbD i = true ↔ i = 29)) :
    (v.toInt32 &&& VERSIONBITS_TOP_MASK) == VERSIONBITS_TOP_BITS := by
  rw [beq_iff_eq, ← Int32.toBitVec_inj, Int32.toBitVec_and, UInt32.toBitVec_toInt32]
  apply BitVec.eq_of_getLsbD_eq
  intro i hi
  rw [BitVec.getLsbD_and, topMask_getLsbD i hi, topBits_getLsbD i hi]
  by_cases h29 : 29 ≤ i
  · simp only [h29, decide_true, Bool.and_true]
    rw [Bool.eq_iff_iff, hv i h29 hi, decide_eq_true_iff]
  · simp only [h29, decide_false, Bool.and_false]
    exact (decide_eq_false (by omega)).symm

section Version
variable (m : BlockMap) (params : Params) (vbparams : VersionBitsParams) (pindexPrev : Option CBlockIndex)

/-- `ComputeBlockVersion` sets the bit of `pos`: BIP9 has it `LOCKED_IN` or `STARTED`. -/
def Signalling (pos : DeploymentPos) : Prop :=
  bip9State m params (versionBitsConditionChecker vbparams pos) pindexPrev = .ok .LOCKED_IN ∨
    bip9State m params (versionBitsConditionChecker vbparams pos) pindexPrev = .ok .STARTED

variable {m params vbparams pindexPrev}
variable (hL : Linked m) (hP : 0 < vbparams.nMinerConfirmationWindow) (hmono : MonotoneMTP m params)
  (hp : ∀ b, pindexPrev = some b → m b.phashBlock = some b)
include hL hP hmono hp

/-- The loop of `ComputeBlockVersion` from plain caches: it adds the bit of each deployment it
visits that BIP9 has signalling, and keeps the caches plain. The induction is on the deployments. -/
theorem versionLoop_spec :
    ∀ (poss : List DeploymentPos) (nVersion : UInt32) {vbc : VersionBitsCache}, CachesOk m params vbparams vbc →
      ∃ nVersion' vbc', VersionBitsCache.versionLoop m params vbparams pindexPrev poss nVersion vbc = .ok (nVersion', vbc') ∧
        CachesOk m params vbparams vbc' ∧
        ∀ i, nVersion'.toBitVec.getLsbD i = true ↔ (nVersion.toBitVec.getLsbD i = true ∨
          ∃ pos ∈ poss, Signalling m params vbparams pindexPrev pos ∧ (vbparams.vDeployments pos).bit % 32 = i)
  | [], nVersion, vbc, h => ⟨nVersion, vbc, rfl, h, fun i => by simp⟩
  | pos :: poss, nVersion, vbc, h => by
    obtain ⟨state, vbc₁, hstate, hbip, h₁⟩ := VersionBitsCache.state_spec hL hP hmono h hp pos
    obtain ⟨nVersion', vbc', hloop, h', hbits'⟩ :=
      versionLoop_spec poss (if state = .LOCKED_IN ∨ state = .STARTED then nVersion ||| mask vbparams pos else nVersion) h₁
    refine ⟨nVersion', vbc', ?_, h', fun i => ?_⟩
    · simp only [VersionBitsCache.versionLoop, hstate, bind, Except.bind]
      exact hloop
    -- the bit of `pos` is added exactly when BIP9 has it signalling
    have hsig : Signalling m params vbparams pindexPrev pos ↔ state = .LOCKED_IN ∨ state = .STARTED := by
      simp only [Signalling, hbip, Except.ok.injEq]
    rw [hbits' i]
    simp only [List.mem_cons, or_and_right, exists_or, exists_eq_left]
    by_cases hset : state = .LOCKED_IN ∨ state = .STARTED
    · rw [if_pos hset, UInt32.toBitVec_or, BitVec.getLsbD_or, Bool.or_eq_true, mask,
        getLsbD_one_shiftLeft, decide_eq_true_iff]
      constructor
      · rintro ((hv | hi) | hrest)
        · exact .inl hv
        · exact .inr (.inl ⟨hsig.mpr hset, hi.symm⟩)
        · exact .inr (.inr hrest)
      · rintro (hv | ⟨-, hi⟩ | hrest)
        · exact .inl (.inl hv)
        · exact .inl (.inr hi.symm)
        · exact .inr hrest
    · rw [if_neg hset]
      constructor
      · rintro (hv | hrest)
        · exact .inl hv
        · exact .inr (.inr hrest)
      · rintro (hv | ⟨hs, -⟩ | hrest)
        · exact .inl hv
        · exact absurd (hsig.mp hs) hset
        · exact .inr hrest

/-- `ComputeBlockVersion` from plain caches returns and keeps them plain. -/
theorem VersionBitsCache.computeBlockVersion_ok {vbc : VersionBitsCache} (h : CachesOk m params vbparams vbc) :
    ∃ nVersion vbc', vbc.computeBlockVersion m params vbparams pindexPrev = .ok (nVersion, vbc') ∧
      CachesOk m params vbparams vbc' := by
  obtain ⟨v, vbc', hloop, h', -⟩ := versionLoop_spec hL hP hmono hp allDeployments VERSIONBITS_TOP_BITS.toUInt32 h
  refine ⟨v.toInt32, vbc', ?_, h'⟩
  simp only [VersionBitsCache.computeBlockVersion, hloop, bind, Except.bind, pure, Except.pure]

/-- `ComputeBlockVersion` from plain caches, with every deployment's bit below the top three: a
block carrying the version it returns passes the top check and signals for `pos` exactly when
BIP9 has some deployment of the same bit `LOCKED_IN` or `STARTED`. -/
theorem computeBlockVersion_spec (hbits : ∀ pos, (vbparams.vDeployments pos).bit < 29) {vbc : VersionBitsCache}
    (h : CachesOk m params vbparams vbc) :
    ∃ nVersion vbc', vbc.computeBlockVersion m params vbparams pindexPrev = .ok (nVersion, vbc') ∧
      CachesOk m params vbparams vbc' ∧ (nVersion &&& VERSIONBITS_TOP_MASK) == VERSIONBITS_TOP_BITS ∧
      ∀ (pos : DeploymentPos) (b : CBlockIndex), b.nVersion = nVersion →
        ((versionBitsConditionChecker vbparams pos).condition b = true ↔
          ∃ pos', (vbparams.vDeployments pos').bit = (vbparams.vDeployments pos).bit ∧
            Signalling m params vbparams pindexPrev pos') := by
  obtain ⟨v, vbc', hloop, h', hv⟩ := versionLoop_spec hL hP hmono hp allDeployments VERSIONBITS_TOP_BITS.toUInt32 h
  have hmod : ∀ pos, (vbparams.vDeployments pos).bit % 32 = (vbparams.vDeployments pos).bit :=
    fun pos => Nat.mod_eq_of_lt (by have := hbits pos; omega)
  have hall : ∀ pos, pos ∈ allDeployments := fun pos => by cases pos <;> simp [allDeployments]
  have htop : ∀ i < 32, VERSIONBITS_TOP_BITS.toUInt32.toBitVec.getLsbD i = decide (i = 29) := by
    intro i hi
    rw [Int32.toBitVec_toUInt32]
    exact topBits_getLsbD i hi
  -- the top three bits are the start value's, as every deployment's bit is lower
  have hhigh : ∀ i, 29 ≤ i → i < 32 → (v.toBitVec.getLsbD i = true ↔ i = 29) := by
    intro i h29 hi
    rw [hv i, htop i hi, decide_eq_true_iff]
    constructor
    · rintro (h | ⟨pos', -, -, hbit⟩)
      · exact h
      · have := hbits pos'
        rw [hmod] at hbit
        omega
    · exact .inl
  refine ⟨v.toInt32, vbc', ?_, h', topBits_of_bits hhigh, fun pos b hb => ?_⟩
  · simp only [VersionBitsCache.computeBlockVersion, hloop, bind, Except.bind, pure, Except.pure]
  have hlow : v.toBitVec.getLsbD (vbparams.vDeployments pos).bit = true ↔
      ∃ pos', (vbparams.vDeployments pos').bit = (vbparams.vDeployments pos).bit ∧
        Signalling m params vbparams pindexPrev pos' := by
    have hb29 := hbits pos
    rw [hv, htop _ (by omega), decide_eq_true_iff]
    constructor
    · rintro (h | ⟨pos', -, hs, hbit⟩)
      · omega
      · rw [hmod] at hbit
        exact ⟨pos', hbit, hs⟩
    · rintro ⟨pos', hbit, hs⟩
      exact .inr ⟨pos', hall pos', hs, by rw [hmod, hbit]⟩
  have hmask : ((v.toInt32.toUInt32 &&& mask vbparams pos) != 0) = true ↔
      v.toBitVec.getLsbD (vbparams.vDeployments pos).bit = true := by
    rw [bne_iff_ne, mask, and_one_shiftLeft_ne_zero_iff, hmod]
    rfl
  simp only [versionBitsConditionChecker, hb, topBits_of_bits hhigh, Bool.true_and, hmask, hlow]

end Version

/-! ### The node -/

/-- What a node keeps for the version bits: the block index, its best header and the caches of
`ChainstateManager::m_versionbitscache`. -/
structure VersionBitsNode where
  m_block_index : BlockMap
  m_best_header : Option Uint256
  m_versionbitscache : VersionBitsCache

/-- A node that has loaded nothing. -/
def VersionBitsNode.init : VersionBitsNode := ⟨fun _ => none, none, VersionBitsCache.empty⟩

section Node
variable (params : Params) (vbparams : VersionBitsParams)

/-- One thing the node does: accept a header that meets the time rule (`AcceptBlockHeader` after
`ContextualCheckBlockHeader`), or ask its caches for a state, a height or a block version about a
stored block or `nullptr`, or clear them (`UnloadBlockIndex`). -/
inductive Step : VersionBitsNode → VersionBitsNode → Prop
  | addHeader {n : VersionBitsNode} {block : CBlockHeader} {hash : Uint256} {fSetAsProofOfStake : Bool}
      {m' : BlockMap} {best' : Option Uint256} {pindex : CBlockIndex}
      (htime : HeaderTimeOk n.m_block_index params block)
      (h : addToBlockIndex n.m_block_index n.m_best_header block hash fSetAsProofOfStake = .ok (m', best', pindex)) :
      Step n { n with m_block_index := m', m_best_header := best' }
  | state {n : VersionBitsNode} {pindexPrev : Option CBlockIndex} {pos : DeploymentPos} {state : ThresholdState}
      {vbc : VersionBitsCache} (hp : ∀ b, pindexPrev = some b → n.m_block_index b.phashBlock = some b)
      (h : n.m_versionbitscache.state n.m_block_index params vbparams pindexPrev pos = .ok (state, vbc)) :
      Step n { n with m_versionbitscache := vbc }
  | stateSinceHeight {n : VersionBitsNode} {pindexPrev : Option CBlockIndex} {pos : DeploymentPos} {height : Int}
      {vbc : VersionBitsCache} (hp : ∀ b, pindexPrev = some b → n.m_block_index b.phashBlock = some b)
      (h : n.m_versionbitscache.stateSinceHeight n.m_block_index params vbparams pindexPrev pos = .ok (height, vbc)) :
      Step n { n with m_versionbitscache := vbc }
  | computeBlockVersion {n : VersionBitsNode} {pindexPrev : Option CBlockIndex} {nVersion : Int32}
      {vbc : VersionBitsCache} (hp : ∀ b, pindexPrev = some b → n.m_block_index b.phashBlock = some b)
      (h : n.m_versionbitscache.computeBlockVersion n.m_block_index params vbparams pindexPrev = .ok (nVersion, vbc)) :
      Step n { n with m_versionbitscache := vbc }
  | clear {n : VersionBitsNode} : Step n { n with m_versionbitscache := n.m_versionbitscache.clear }

/-- The states a node reaches from `init`. -/
def Reachable (n : VersionBitsNode) : Prop := Relation.ReflTransGen (Step params vbparams) VersionBitsNode.init n

/-- What holds at every reachable state: the index is linked, its median time past grows, and
every cache holds plain states only. -/
structure Inv (n : VersionBitsNode) : Prop where
  linked : Linked n.m_block_index
  mono : MonotoneMTP n.m_block_index params
  caches : CachesOk n.m_block_index params vbparams n.m_versionbitscache

variable {params vbparams}

theorem inv_init : Inv params vbparams VersionBitsNode.init where
  linked := linked_empty
  mono := fun hb => by cases hb
  caches := cachesOk_empty

section Answer
variable (hP : 0 < vbparams.nMinerConfirmationWindow) {n : VersionBitsNode} (hi : Inv params vbparams n)
  {pindexPrev : Option CBlockIndex} (hp : ∀ b, pindexPrev = some b → n.m_block_index b.phashBlock = some b)
  {pos : DeploymentPos}
include hP hi hp

/-- At a node that keeps the invariant, what `State` answers is BIP9's state, and the caches it
leaves are plain. -/
theorem Inv.state_eq {state : ThresholdState} {vbc : VersionBitsCache}
    (hs : n.m_versionbitscache.state n.m_block_index params vbparams pindexPrev pos = .ok (state, vbc)) :
    bip9State n.m_block_index params (versionBitsConditionChecker vbparams pos) pindexPrev = .ok state ∧
      CachesOk n.m_block_index params vbparams vbc := by
  obtain ⟨s, vbc', hq, hbip, hc'⟩ := VersionBitsCache.state_spec hi.linked hP hi.mono hi.caches hp pos
  rw [hq, Except.ok.injEq, Prod.mk.injEq] at hs
  obtain ⟨rfl, rfl⟩ := hs
  exact ⟨hbip, hc'⟩

/-- At a node that keeps the invariant, `State` answers BIP9's state. -/
theorem Inv.state_of_bip9State {state : ThresholdState}
    (hstate : bip9State n.m_block_index params (versionBitsConditionChecker vbparams pos) pindexPrev = .ok state) :
    ∃ vbc, n.m_versionbitscache.state n.m_block_index params vbparams pindexPrev pos = .ok (state, vbc) := by
  obtain ⟨s, vbc, hq, hbip, -⟩ := VersionBitsCache.state_spec hi.linked hP hi.mono hi.caches hp pos
  rw [hstate, Except.ok.injEq] at hbip
  exact ⟨vbc, hbip ▸ hq⟩

end Answer

/-- Every step keeps the invariant. The cases are the node's steps. -/
theorem Inv.step (hP : 0 < vbparams.nMinerConfirmationWindow) {n n' : VersionBitsNode} (hi : Inv params vbparams n)
    (hstep : Step params vbparams n n') : Inv params vbparams n' := by
  cases hstep with
  | addHeader htime h =>
    exact ⟨hi.linked.of_addToBlockIndex h, MonotoneMTP.of_addToBlockIndex hi.linked hi.mono h htime,
      fun pos => (hi.caches pos).of_addToBlockIndex hi.linked h⟩
  | state hp h => exact ⟨hi.linked, hi.mono, (hi.state_eq hP hp h).2⟩
  | stateSinceHeight hp h =>
    obtain ⟨_, vbc', hq, -, hc'⟩ := VersionBitsCache.stateSinceHeight_spec hi.linked hP hi.mono hi.caches hp _
    rw [hq, Except.ok.injEq, Prod.mk.injEq] at h
    obtain ⟨-, rfl⟩ := h
    exact ⟨hi.linked, hi.mono, hc'⟩
  | computeBlockVersion hp h =>
    obtain ⟨_, vbc', hq, hc'⟩ := VersionBitsCache.computeBlockVersion_ok hi.linked hP hi.mono hp hi.caches
    rw [hq, Except.ok.injEq, Prod.mk.injEq] at h
    obtain ⟨-, rfl⟩ := h
    exact ⟨hi.linked, hi.mono, hc'⟩
  | clear => exact ⟨hi.linked, hi.mono, cachesOk_empty⟩

theorem Reachable.inv (hP : 0 < vbparams.nMinerConfirmationWindow) {n : VersionBitsNode}
    (h : Reachable params vbparams n) : Inv params vbparams n := by
  induction h with
  | refl => exact inv_init
  | tail _ hstep ih => exact ih.step hP hstep

/-- A step keeps the block index, or adds a header that meets the time rule. -/
theorem Step.index_cases {n n' : VersionBitsNode} (h : Step params vbparams n n') :
    n'.m_block_index = n.m_block_index ∨
      ∃ block hash fSetAsProofOfStake best' pindex, HeaderTimeOk n.m_block_index params block ∧
        addToBlockIndex n.m_block_index n.m_best_header block hash fSetAsProofOfStake =
          .ok (n'.m_block_index, best', pindex) := by
  cases h with
  | addHeader htime h => exact .inr ⟨_, _, _, _, _, htime, h⟩
  | state => exact .inl rfl
  | stateSinceHeight => exact .inl rfl
  | computeBlockVersion => exact .inl rfl
  | clear => exact .inl rfl

/-- The index of a reachable node is linked and its median time past grows, whatever the period. -/
theorem Reachable.index {n : VersionBitsNode} (h : Reachable params vbparams n) :
    Linked n.m_block_index ∧ MonotoneMTP n.m_block_index params := by
  induction h with
  | refl => exact ⟨linked_empty, fun hb => by cases hb⟩
  | tail _ hstep ih =>
    rcases hstep.index_cases with heq | ⟨block, hash, f, best', pindex, htime, hadd⟩
    · rw [heq]
      exact ih
    · exact ⟨ih.1.of_addToBlockIndex hadd, MonotoneMTP.of_addToBlockIndex ih.1 ih.2 hadd htime⟩

/-- The index `AddToBlockIndex` builds does not depend on the best header it is given. -/
theorem addToBlockIndex_best (m : BlockMap) (best : Option Uint256) (block : CBlockHeader) (hash : Uint256)
    (fSetAsProofOfStake : Bool) :
    (addToBlockIndex m best block hash fSetAsProofOfStake).map (fun r => (r.1, r.2.2)) =
      (addToBlockIndex m none block hash fSetAsProofOfStake).map (fun r => (r.1, r.2.2)) := by
  unfold addToBlockIndex
  cases m hash with
  | some pindex => rfl
  | none =>
    simp only [bind, Except.bind, pure, Except.pure]
    split <;> rfl

/-- Whether each header of a list meets the time rule on the index the ones before it built,
as `addHeaders` adds them. -/
def headersTimeOk (params : Params) : BlockMap → List (CBlockHeader × Uint256) → Bool
  | _, [] => true
  | m, (block, hash) :: rest =>
    decide (HeaderTimeOk m params block) &&
      match BlockIndex.addToBlockIndex m none block hash false with
      | .ok (m', _, _) => headersTimeOk params m' rest
      | .error _ => true

/-- Headers that meet the time rule one after another take a reachable node to one whose index
is `addHeaders` of them, with the same caches. The induction is on the headers. -/
theorem reachable_addHeaders :
    ∀ (l : List (CBlockHeader × Uint256)) {n : VersionBitsNode}, Reachable params vbparams n →
      headersTimeOk params n.m_block_index l = true →
      ∃ n', Reachable params vbparams n' ∧ n'.m_block_index = addHeaders n.m_block_index l ∧
        n'.m_versionbitscache = n.m_versionbitscache
  | [], n, h, _ => ⟨n, h, rfl, rfl⟩
  | (block, hash) :: rest, n, h, hok => by
    simp only [headersTimeOk, Bool.and_eq_true, decide_eq_true_eq] at hok
    obtain ⟨htime, hrest⟩ := hok
    cases hadd : BlockIndex.addToBlockIndex n.m_block_index none block hash false with
    | error w =>
      -- `addHeaders` stops at a header it cannot add
      exact ⟨n, h, by simp only [SkipList.addHeaders, hadd], rfl⟩
    | ok r =>
      obtain ⟨m', best', e⟩ := r
      rw [hadd] at hrest
      -- the node adds the header with its own best header, which builds the same index
      have hbest := addToBlockIndex_best n.m_block_index n.m_best_header block hash false
      rw [hadd] at hbest
      cases hnode : BlockIndex.addToBlockIndex n.m_block_index n.m_best_header block hash false with
      | error w =>
        rw [hnode] at hbest
        cases hbest
      | ok r' =>
        obtain ⟨m'', best'', e'⟩ := r'
        rw [hnode] at hbest
        simp only [Except.map, Except.ok.injEq, Prod.mk.injEq] at hbest
        obtain ⟨rfl, rfl⟩ := hbest
        obtain ⟨n', hn', hm', hc'⟩ := reachable_addHeaders rest (h.tail (Step.addHeader htime hnode)) hrest
        exact ⟨n', hn', by rw [hm']; simp only [SkipList.addHeaders, hadd], hc'⟩

end Node

/-! ### Answers over time -/

section Frame
variable {m : BlockMap} {hash : Uint256} {e : CBlockIndex} (hL : Linked m) (hnew : m hash = none)
include hL hnew

theorem periodEnd_update (c : ThresholdConditionChecker) {p : Option CBlockIndex}
    (hp : ∀ b, p = some b → m b.phashBlock = some b) :
    periodEnd (Function.update m hash (some e)) c p = periodEnd m c p := by
  cases p with
  | none => rfl
  | some b => simp only [periodEnd, Option.bind_some, prevIter_update hL hnew _ (hL.resolves (hp b rfl))]

theorem bip9State_update (params : Params) (c : ThresholdConditionChecker) {p : Option CBlockIndex}
    (hp : ∀ b, p = some b → m b.phashBlock = some b) :
    bip9State (Function.update m hash (some e)) params c p = bip9State m params c p := by
  -- the period end is stored, and its plain state reads only stored entries
  have hend : ∀ a, periodEnd m c p = some a → m a.phashBlock = some a := by
    intro a ha
    cases p with
    | none => cases ha
    | some b => exact (hL.prevIter_mem (hp b rfl) ha).1
  simp only [bip9State, periodEnd_update hL hnew c hp, naiveState_update hL hnew params c hend]

end Frame

/-- `AddToBlockIndex` keeps BIP9's answer about a stored block, and keeps it stored. -/
theorem bip9State_of_addToBlockIndex {m : BlockMap} (hL : Linked m) {best best' : Option Uint256}
    {block : CBlockHeader} {hash : Uint256} {fSetAsProofOfStake : Bool} {m' : BlockMap} {e : CBlockIndex}
    (h : addToBlockIndex m best block hash fSetAsProofOfStake = .ok (m', best', e)) (params : Params)
    (c : ThresholdConditionChecker) {p : Option CBlockIndex} (hp : ∀ b, p = some b → m b.phashBlock = some b) :
    bip9State m' params c p = bip9State m params c p ∧ ∀ b, p = some b → m' b.phashBlock = some b := by
  rcases addToBlockIndex_index h with rfl | ⟨hnew, rfl⟩
  · exact ⟨rfl, hp⟩
  · exact ⟨bip9State_update hL hnew params c hp, fun b hb => update_of_stored hnew (hp b hb)⟩

section Runs
variable {params : Params} {vbparams : VersionBitsParams}

/-- Along any run from a reachable node, BIP9's answer about a block stored at the start does
not change, and the block stays stored. The induction is on the run. -/
theorem bip9State_of_run {n n' : VersionBitsNode} (hreach : Reachable params vbparams n)
    (hrun : Relation.ReflTransGen (Step params vbparams) n n') (c : ThresholdConditionChecker) {p : Option CBlockIndex}
    (hp : ∀ b, p = some b → n.m_block_index b.phashBlock = some b) :
    bip9State n'.m_block_index params c p = bip9State n.m_block_index params c p ∧
      ∀ b, p = some b → n'.m_block_index b.phashBlock = some b := by
  induction hrun with
  | refl => exact ⟨rfl, hp⟩
  | @tail n₁ n₂ hrun₁ hstep ih =>
    obtain ⟨heq, hp₁⟩ := ih
    have hL₁ : Linked n₁.m_block_index := (Reachable.index (Relation.ReflTransGen.trans hreach hrun₁)).1
    rcases hstep.index_cases with hm | ⟨block, hash, f, best', pindex, -, hadd⟩
    · rw [hm]
      exact ⟨heq, hp₁⟩
    · obtain ⟨h₁, h₂⟩ := bip9State_of_addToBlockIndex hL₁ hadd params c hp₁
      exact ⟨h₁.trans heq, h₂⟩

/-- The period end of a block `k` periods below `b` is `k` periods below `b`'s period end. -/
theorem periodEnd_prevIter {m : BlockMap} {c : ThresholdConditionChecker} (hL : Linked m) {a b : CBlockIndex}
    (hb : m b.phashBlock = some b) (k : Nat) (hab : prevIter m (k * c.period) b = some a) :
    periodEnd m c (some a) = (periodEnd m c (some b)).bind (prevIter m (k * c.period)) := by
  have hh := (hL.prevIter_mem hb hab).2
  have hr : (a.nHeight + 1) % c.period = (b.nHeight + 1) % c.period := by
    rw [← hh, show a.nHeight + k * c.period + 1 = (a.nHeight + 1) + k * c.period by omega, Nat.add_mul_mod_self_right]
  simp only [periodEnd, Option.bind_some, hr]
  rw [← prevIter_add, Nat.add_comm (k * c.period), prevIter_add, hab, Option.bind_some]

/-- The six headers of `SignalChain.signals`, accepted one after another from an empty node. -/
theorem signalChain_reachable : ∃ n, Reachable Params.valueInit SignalChain.vbparams n ∧
    n.m_block_index = SignalChain.index SignalChain.signals ∧ n.m_versionbitscache = VersionBitsCache.empty :=
  reachable_addHeaders _ .refl (by decide)

theorem signalChain_stored : ∀ i < 6, SignalChain.index SignalChain.signals (SignalChain.entry SignalChain.signals i).phashBlock =
    some (SignalChain.entry SignalChain.signals i) := by
  decide

theorem signalChain_some_stored {n : VersionBitsNode} (hm : n.m_block_index = SignalChain.index SignalChain.signals)
    {i : Nat} (hi : i < 6) :
    ∀ b, some (SignalChain.entry SignalChain.signals i) = some b → n.m_block_index b.phashBlock = some b := by
  intro b hb
  cases hb
  rw [hm]
  exact signalChain_stored i hi

/-- The median time past grows along the block index of every reachable node. -/
theorem reachable_medianTimePast_le {n : VersionBitsNode} (h : Reachable params vbparams n) {b bp : CBlockIndex}
    (hb : n.m_block_index b.phashBlock = some b) (hpar : parent n.m_block_index b = some bp) :
    getMedianTimePast n.m_block_index params bp ≤ getMedianTimePast n.m_block_index params b :=
  h.index.2 hb hpar

theorem reachable_medianTimePast_le_signalChain : ∃ n, Reachable Params.valueInit SignalChain.vbparams n ∧
    n.m_block_index = SignalChain.index SignalChain.signals ∧
    getMedianTimePast n.m_block_index Params.valueInit (SignalChain.entry SignalChain.signals 2) ≤
      getMedianTimePast n.m_block_index Params.valueInit (SignalChain.entry SignalChain.signals 3) := by
  obtain ⟨n, hn, hm, -⟩ := signalChain_reachable
  refine ⟨n, hn, hm, reachable_medianTimePast_le hn (by rw [hm]; exact signalChain_stored 3 (by decide)) ?_⟩
  rw [hm]
  decide

/-- At every reachable node, `VersionBitsCache::State` about a stored block or `nullptr` answers,
and answers BIP9's state on the index of the moment: the caches change no answer. -/
theorem reachable_state_eq_bip9State (hP : 0 < vbparams.nMinerConfirmationWindow) {n : VersionBitsNode} (h : Reachable params vbparams n)
    {pindexPrev : Option CBlockIndex} (hp : ∀ b, pindexPrev = some b → n.m_block_index b.phashBlock = some b)
    (pos : DeploymentPos) :
    ∃ state vbc', n.m_versionbitscache.state n.m_block_index params vbparams pindexPrev pos = .ok (state, vbc') ∧
      bip9State n.m_block_index params (versionBitsConditionChecker vbparams pos) pindexPrev = .ok state := by
  have hi := h.inv hP
  obtain ⟨state, vbc', hq, hbip, -⟩ := VersionBitsCache.state_spec hi.linked hP hi.mono hi.caches hp pos
  exact ⟨state, vbc', hq, hbip⟩

/-- On the chain, the period after the signalling one is `LOCKED_IN`, as `State` answers. -/
theorem reachable_state_eq_bip9State_signalChain : ∃ n, Reachable Params.valueInit SignalChain.vbparams n ∧
    n.m_block_index = SignalChain.index SignalChain.signals ∧
    ∃ vbc', n.m_versionbitscache.state n.m_block_index Params.valueInit SignalChain.vbparams
      (some (SignalChain.entry SignalChain.signals 3)) .DEPLOYMENT_TESTDUMMY = .ok (.LOCKED_IN, vbc') := by
  obtain ⟨n, hn, hm, -⟩ := signalChain_reachable
  obtain ⟨state, vbc', hq, hbip⟩ := reachable_state_eq_bip9State (by decide) hn (signalChain_some_stored hm (by decide : 3 < 6))
    .DEPLOYMENT_TESTDUMMY
  have hplain : bip9State n.m_block_index Params.valueInit (versionBitsConditionChecker SignalChain.vbparams .DEPLOYMENT_TESTDUMMY)
      (some (SignalChain.entry SignalChain.signals 3)) = .ok .LOCKED_IN := by
    rw [hm]
    decide
  rw [hplain, Except.ok.injEq] at hbip
  exact ⟨n, hn, hm, vbc', hbip ▸ hq⟩

/-- An answer of `VersionBitsCache::State` never changes: any later node, after more headers and
any queries and clears, answers the same about the same block. -/
theorem reachable_state_stable (hP : 0 < vbparams.nMinerConfirmationWindow) {n n' : VersionBitsNode} (h : Reachable params vbparams n)
    (hrun : Relation.ReflTransGen (Step params vbparams) n n') {pindexPrev : Option CBlockIndex}
    (hp : ∀ b, pindexPrev = some b → n.m_block_index b.phashBlock = some b) (pos : DeploymentPos)
    {state : ThresholdState} {vbc : VersionBitsCache}
    (hs : n.m_versionbitscache.state n.m_block_index params vbparams pindexPrev pos = .ok (state, vbc)) :
    ∃ vbc', n'.m_versionbitscache.state n'.m_block_index params vbparams pindexPrev pos = .ok (state, vbc') := by
  have hbip := ((h.inv hP).state_eq hP hp hs).1
  -- the later node answers BIP9's state on its own index, which is the earlier one's
  obtain ⟨heq, hp'⟩ := bip9State_of_run h hrun (versionBitsConditionChecker vbparams pos) hp
  have hi' := Reachable.inv hP (Relation.ReflTransGen.trans h hrun)
  exact hi'.state_of_bip9State hP hp' (by rw [heq]; exact hbip)

/-- After a `State` query fills the cache, the node answers the same. -/
theorem reachable_state_stable_signalChain : ∃ n n', Reachable Params.valueInit SignalChain.vbparams n ∧
    Relation.ReflTransGen (Step Params.valueInit SignalChain.vbparams) n n' ∧
    n.m_block_index = SignalChain.index SignalChain.signals ∧
    ∃ state vbc vbc', n.m_versionbitscache.state n.m_block_index Params.valueInit SignalChain.vbparams
        (some (SignalChain.entry SignalChain.signals 3)) .DEPLOYMENT_TESTDUMMY = .ok (state, vbc) ∧
      n'.m_versionbitscache.state n'.m_block_index Params.valueInit SignalChain.vbparams
        (some (SignalChain.entry SignalChain.signals 3)) .DEPLOYMENT_TESTDUMMY = .ok (state, vbc') := by
  obtain ⟨n, hn, hm, -⟩ := signalChain_reachable
  have hp := signalChain_some_stored hm (by decide : 3 < 6)
  have hi := hn.inv (by decide)
  obtain ⟨state, vbc, hq, -, -⟩ := VersionBitsCache.state_spec hi.linked (by decide) hi.mono hi.caches hp .DEPLOYMENT_TESTDUMMY
  have hrun : Relation.ReflTransGen (Step Params.valueInit SignalChain.vbparams) n { n with m_versionbitscache := vbc } :=
    .single (Step.state hp hq)
  obtain ⟨vbc', hq'⟩ := reachable_state_stable (by decide) hn hrun hp .DEPLOYMENT_TESTDUMMY hq
  exact ⟨n, _, hn, hrun, hm, state, vbc, vbc', hq, hq'⟩

/-- At every reachable node, `VersionBitsCache::StateSinceHeight` answers the height BIP9 gives. -/
theorem reachable_stateSinceHeight (hP : 0 < vbparams.nMinerConfirmationWindow) {n : VersionBitsNode} (h : Reachable params vbparams n)
    {pindexPrev : Option CBlockIndex} (hp : ∀ b, pindexPrev = some b → n.m_block_index b.phashBlock = some b)
    (pos : DeploymentPos) :
    ∃ height vbc', n.m_versionbitscache.stateSinceHeight n.m_block_index params vbparams pindexPrev pos = .ok (height, vbc') ∧
      SinceHeight n.m_block_index params (versionBitsConditionChecker vbparams pos) pindexPrev height := by
  have hi := h.inv hP
  obtain ⟨height, vbc', hq, hheight, -⟩ := VersionBitsCache.stateSinceHeight_spec hi.linked hP hi.mono hi.caches hp pos
  exact ⟨height, vbc', hq, hheight⟩

theorem reachable_stateSinceHeight_signalChain : ∃ n, Reachable Params.valueInit SignalChain.vbparams n ∧
    n.m_block_index = SignalChain.index SignalChain.signals ∧
    ∃ height vbc', n.m_versionbitscache.stateSinceHeight n.m_block_index Params.valueInit SignalChain.vbparams
        (some (SignalChain.entry SignalChain.signals 5)) .DEPLOYMENT_TESTDUMMY = .ok (height, vbc') ∧
      SinceHeight n.m_block_index Params.valueInit (versionBitsConditionChecker SignalChain.vbparams .DEPLOYMENT_TESTDUMMY)
        (some (SignalChain.entry SignalChain.signals 5)) height := by
  obtain ⟨n, hn, hm, -⟩ := signalChain_reachable
  exact ⟨n, hn, hm, reachable_stateSinceHeight (by decide) hn (signalChain_some_stored hm (by decide : 5 < 6)) _⟩

/-- At every reachable node, with every deployment's bit below the top three, the version
`ComputeBlockVersion` returns has the top bits `001`, and a block carrying it counts for
deployment `pos` exactly when BIP9 has a deployment of the same bit `LOCKED_IN` or `STARTED`. -/
theorem reachable_computeBlockVersion_signals (hP : 0 < vbparams.nMinerConfirmationWindow) {n : VersionBitsNode} (h : Reachable params vbparams n)
    {pindexPrev : Option CBlockIndex} (hp : ∀ b, pindexPrev = some b → n.m_block_index b.phashBlock = some b)
    (hbits : ∀ pos, (vbparams.vDeployments pos).bit < 29) :
    ∃ nVersion vbc', n.m_versionbitscache.computeBlockVersion n.m_block_index params vbparams pindexPrev = .ok (nVersion, vbc') ∧
      (nVersion &&& VERSIONBITS_TOP_MASK) == VERSIONBITS_TOP_BITS ∧
      ∀ (pos : DeploymentPos) (b : CBlockIndex), b.nVersion = nVersion →
        ((versionBitsConditionChecker vbparams pos).condition b = true ↔
          ∃ pos', (vbparams.vDeployments pos').bit = (vbparams.vDeployments pos).bit ∧
            Signalling n.m_block_index params vbparams pindexPrev pos') := by
  have hi := h.inv hP
  obtain ⟨nVersion, vbc', hq, -, htop, hsig⟩ := computeBlockVersion_spec hi.linked hP hi.mono hp hbits hi.caches
  exact ⟨nVersion, vbc', hq, htop, hsig⟩

theorem reachable_computeBlockVersion_signals_signalChain : ∃ n, Reachable Params.valueInit SignalChain.vbparams n ∧
    n.m_block_index = SignalChain.index SignalChain.signals ∧
    ∃ nVersion vbc', n.m_versionbitscache.computeBlockVersion n.m_block_index Params.valueInit SignalChain.vbparams
        (some (SignalChain.entry SignalChain.signals 3)) = .ok (nVersion, vbc') ∧
      (nVersion &&& VERSIONBITS_TOP_MASK) == VERSIONBITS_TOP_BITS ∧
      ∀ (pos : DeploymentPos) (b : CBlockIndex), b.nVersion = nVersion →
        ((versionBitsConditionChecker SignalChain.vbparams pos).condition b = true ↔
          ∃ pos', (SignalChain.vbparams.vDeployments pos').bit = (SignalChain.vbparams.vDeployments pos).bit ∧
            Signalling n.m_block_index Params.valueInit SignalChain.vbparams (some (SignalChain.entry SignalChain.signals 3)) pos') := by
  obtain ⟨n, hn, hm, -⟩ := signalChain_reachable
  exact ⟨n, hn, hm, reachable_computeBlockVersion_signals (by decide) hn (signalChain_some_stored hm (by decide : 3 < 6))
    fun pos => by cases pos <;> decide⟩

/-- At every reachable node, a deployment that is not always active is answered `LOCKED_IN` or
`ACTIVE` only after a `STARTED` period, at or below the block's own, in which at least
`threshold` of the `period` blocks signalled. -/
theorem reachable_lockedIn_signalled (hP : 0 < vbparams.nMinerConfirmationWindow) {n : VersionBitsNode} (h : Reachable params vbparams n)
    {pindexPrev : Option CBlockIndex} (hp : ∀ b, pindexPrev = some b → n.m_block_index b.phashBlock = some b)
    {pos : DeploymentPos} (halways : (vbparams.vDeployments pos).nStartTime ≠ ALWAYS_ACTIVE)
    {state : ThresholdState} {vbc : VersionBitsCache}
    (hs : n.m_versionbitscache.state n.m_block_index params vbparams pindexPrev pos = .ok (state, vbc))
    (hlock : state = .LOCKED_IN ∨ state = .ACTIVE) :
    ∃ p0 k e, periodEnd n.m_block_index (versionBitsConditionChecker vbparams pos) pindexPrev = some p0 ∧
      prevIter n.m_block_index (k * vbparams.nMinerConfirmationWindow) p0 = some e ∧
      naiveState n.m_block_index params (versionBitsConditionChecker vbparams pos)
        (prevIter n.m_block_index vbparams.nMinerConfirmationWindow e) = .ok .STARTED ∧
      naiveState n.m_block_index params (versionBitsConditionChecker vbparams pos) (some e) = .ok .LOCKED_IN ∧
      vbparams.nRuleChangeActivationThreshold ≤
        (lastBlocks n.m_block_index vbparams.nMinerConfirmationWindow (some e)).countP
          (versionBitsConditionChecker vbparams pos).condition := by
  have hi := h.inv hP
  have hbip := (hi.state_eq hP hp hs).1
  -- a never-active deployment is `FAILED`; otherwise the answer is the plain state of the period end
  have hnever : (vbparams.vDeployments pos).nStartTime ≠ NEVER_ACTIVE := by
    intro hn
    simp only [bip9State, versionBitsConditionChecker, hn, if_true] at hbip
    rcases hlock with rfl | rfl <;> cases hbip
  rw [bip9State_of_begin ⟨halways, hnever⟩] at hbip
  cases hend : periodEnd n.m_block_index (versionBitsConditionChecker vbparams pos) pindexPrev with
  | none =>
    rw [hend, naiveState_none, Except.ok.injEq] at hbip
    rcases hlock with rfl | rfl <;> cases hbip
  | some p0 =>
    rw [hend] at hbip
    have hp0 := (aligned_periodEnd hi.linked hp p0 hend).1
    obtain ⟨k, e, hke, hstart, hlocked, hthr⟩ := naiveState_lockedIn hi.linked hP p0.nHeight rfl hp0 hbip hlock
    exact ⟨p0, k, e, rfl, hke, hstart, hlocked, hthr⟩

/-- On the chain, the `LOCKED_IN` answer after the fourth block goes back to the second period. -/
theorem reachable_lockedIn_signalled_signalChain : ∃ n, Reachable Params.valueInit SignalChain.vbparams n ∧
    n.m_block_index = SignalChain.index SignalChain.signals ∧
    ∃ p0 k e, periodEnd n.m_block_index (versionBitsConditionChecker SignalChain.vbparams .DEPLOYMENT_TESTDUMMY)
        (some (SignalChain.entry SignalChain.signals 3)) = some p0 ∧
      prevIter n.m_block_index (k * 2) p0 = some e ∧
      naiveState n.m_block_index Params.valueInit (versionBitsConditionChecker SignalChain.vbparams .DEPLOYMENT_TESTDUMMY)
        (prevIter n.m_block_index 2 e) = .ok .STARTED ∧
      naiveState n.m_block_index Params.valueInit (versionBitsConditionChecker SignalChain.vbparams .DEPLOYMENT_TESTDUMMY)
        (some e) = .ok .LOCKED_IN ∧
      2 ≤ (lastBlocks n.m_block_index 2 (some e)).countP
        (versionBitsConditionChecker SignalChain.vbparams .DEPLOYMENT_TESTDUMMY).condition := by
  obtain ⟨n, hn, hm, -⟩ := signalChain_reachable
  have hp := signalChain_some_stored hm (by decide : 3 < 6)
  have hplain : bip9State n.m_block_index Params.valueInit (versionBitsConditionChecker SignalChain.vbparams .DEPLOYMENT_TESTDUMMY)
      (some (SignalChain.entry SignalChain.signals 3)) = .ok .LOCKED_IN := by
    rw [hm]
    decide
  obtain ⟨vbc, hq⟩ := (hn.inv (by decide)).state_of_bip9State (by decide) hp hplain
  exact ⟨n, hn, hm, reachable_lockedIn_signalled (by decide) hn hp (by decide) hq (.inl rfl)⟩

/-- At every reachable node, the answers of `VersionBitsCache::State` about a block and about the
block `k` periods below it follow BIP9's transitions, so `ACTIVE` and `FAILED` stay. -/
theorem reachable_state_reaches (hP : 0 < vbparams.nMinerConfirmationWindow) {n : VersionBitsNode} (h : Reachable params vbparams n) {a b : CBlockIndex}
    (hb : n.m_block_index b.phashBlock = some b) (k : Nat)
    (hab : prevIter n.m_block_index (k * vbparams.nMinerConfirmationWindow) b = some a) (pos : DeploymentPos)
    {s t : ThresholdState} {vbc₁ vbc₂ : VersionBitsCache}
    (hs : n.m_versionbitscache.state n.m_block_index params vbparams (some a) pos = .ok (s, vbc₁))
    (ht : n.m_versionbitscache.state n.m_block_index params vbparams (some b) pos = .ok (t, vbc₂)) :
    Reaches s t := by
  have hi := h.inv hP
  have ha : n.m_block_index a.phashBlock = some a := (hi.linked.prevIter_mem hb hab).1
  have hbs := (hi.state_eq hP (fun a' ha' => Option.some_inj.mp ha' ▸ ha) hs).1
  have hbt := (hi.state_eq hP (fun b' hb' => Option.some_inj.mp hb' ▸ hb) ht).1
  by_cases hbegin : (versionBitsConditionChecker vbparams pos).beginTime = ALWAYS_ACTIVE ∨
      (versionBitsConditionChecker vbparams pos).beginTime = NEVER_ACTIVE
  · -- the same fixed answer about both blocks
    have hsame : bip9State n.m_block_index params (versionBitsConditionChecker vbparams pos) (some a) =
        bip9State n.m_block_index params (versionBitsConditionChecker vbparams pos) (some b) := by
      rcases hbegin with hb' | hb' <;> simp [bip9State, hb']
    rw [hsame, hbt, Except.ok.injEq] at hbs
    rw [hbs]
    exact .refl
  · rw [bip9State_of_begin (not_or.mp hbegin), periodEnd_prevIter hi.linked hb k hab] at hbs
    rw [bip9State_of_begin (not_or.mp hbegin)] at hbt
    cases hend : periodEnd n.m_block_index (versionBitsConditionChecker vbparams pos) (some b) with
    | none =>
      -- both blocks are in the first period
      rw [hend, Option.bind_none, naiveState_none, Except.ok.injEq] at hbs
      rw [hend, naiveState_none, Except.ok.injEq] at hbt
      rw [← hbs, ← hbt]
      exact .refl
    | some e =>
      rw [hend, Option.bind_some] at hbs
      rw [hend] at hbt
      have he := (aligned_periodEnd hi.linked (fun b' hb' => Option.some_inj.mp hb' ▸ hb) e hend).1
      exact naiveState_reaches hi.linked hP k he hbs hbt

/-- On the chain, `STARTED` for the second period reaches `ACTIVE` for the fourth. -/
theorem reachable_state_reaches_signalChain : ∃ n, Reachable Params.valueInit SignalChain.vbparams n ∧
    n.m_block_index = SignalChain.index SignalChain.signals ∧
    ∃ vbc₁ vbc₂, n.m_versionbitscache.state n.m_block_index Params.valueInit SignalChain.vbparams
        (some (SignalChain.entry SignalChain.signals 1)) .DEPLOYMENT_TESTDUMMY = .ok (.STARTED, vbc₁) ∧
      n.m_versionbitscache.state n.m_block_index Params.valueInit SignalChain.vbparams
        (some (SignalChain.entry SignalChain.signals 5)) .DEPLOYMENT_TESTDUMMY = .ok (.ACTIVE, vbc₂) ∧
      Reaches .STARTED .ACTIVE := by
  obtain ⟨n, hn, hm, -⟩ := signalChain_reachable
  have hi := hn.inv (by decide)
  -- `State` answers what BIP9 says of the second and the fourth period
  obtain ⟨vbc₁, h₁⟩ := @Inv.state_of_bip9State _ _ (by decide) _ hi _ (signalChain_some_stored hm (by decide : 1 < 6))
    .DEPLOYMENT_TESTDUMMY .STARTED (by rw [hm]; decide)
  obtain ⟨vbc₂, h₂⟩ := @Inv.state_of_bip9State _ _ (by decide) _ hi _ (signalChain_some_stored hm (by decide : 5 < 6))
    .DEPLOYMENT_TESTDUMMY .ACTIVE (by rw [hm]; decide)
  refine ⟨n, hn, hm, vbc₁, vbc₂, h₁, h₂, reachable_state_reaches (by decide) hn ?_ 2 ?_ .DEPLOYMENT_TESTDUMMY h₁ h₂⟩
  · rw [hm]
    exact signalChain_stored 5 (by decide)
  · rw [hm]
    decide

end Runs

end BlackcoinMore.VersionBits
