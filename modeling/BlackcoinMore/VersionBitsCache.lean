import BlackcoinMore.VersionBitsSpec

/-! `GetStateFor` with its cache agrees with the plain recursion `naiveState`: if every cached
state is the plain one, `GetStateFor` returns the plain state of the period and leaves every
cached state plain, so over any sequence of calls from the empty cache the cache and the
start-time shortcut change no answer. The shortcut needs the median time past to grow along
the chain, which the header checks give accepted chains. -/

namespace BlackcoinMore.VersionBits
open Primitives ChainParams BlockIndex SkipList

section Cache
variable (m : BlockMap) (params : Params) (c : ThresholdConditionChecker)

/-- `p` is `nullptr` or a stored block that ends a period: what the cache is keyed by. -/
def Aligned (p : Option CBlockIndex) : Prop :=
  ∀ b, p = some b → m b.phashBlock = some b ∧ (b.nHeight + 1) % c.period = 0

/-- Every cached state is the plain recursion's state of the period end stored under its key. -/
def CacheOk (cache : ThresholdConditionCache) : Prop :=
  ∀ k state, cache k = some state → ∃ p, keyOf p = k ∧ Aligned m c p ∧ naiveState m params c p = .ok state

/-- The median time past grows along the chain. -/
def MonotoneMTP : Prop :=
  ∀ {b bp : CBlockIndex}, m b.phashBlock = some b → parent m b = some bp →
    getMedianTimePast m params bp ≤ getMedianTimePast m params b

/-- The last block of the period before the one `pindexPrev`'s child is in. -/
def periodEnd (pindexPrev : Option CBlockIndex) : Option CBlockIndex :=
  pindexPrev.bind fun b => prevIter m ((b.nHeight + 1) % c.period) b

/-- `vToCompute` from `q` up to `r`: each block's period ancestor is the block before it. -/
inductive PeriodChain : Option CBlockIndex → List CBlockIndex → Option CBlockIndex → Prop
  | nil (q : Option CBlockIndex) : PeriodChain q [] q
  | cons {q r : Option CBlockIndex} {b : CBlockIndex} {l : List CBlockIndex} :
      Aligned m c (some b) → prevIter m c.period b = q → PeriodChain (some b) l r → PeriodChain q (b :: l) r

/-- The period end `r` starts the run of `state` that ends at the period end `p0`: every period
end from `r` up to `p0` has `state`, and the one before `r`, if any, has another. -/
def RunStart (p0 r : CBlockIndex) (state : ThresholdState) : Prop :=
  ∃ k, prevIter m (k * c.period) p0 = some r ∧
    (∀ i ≤ k, ∀ a, prevIter m (i * c.period) p0 = some a → naiveState m params c (some a) = .ok state) ∧
    ∀ a, prevIter m c.period r = some a → naiveState m params c (some a) ≠ .ok state

variable {m params c}

theorem cacheOk_empty : CacheOk m params c fun _ => none := by
  intro k state h
  cases h

/-- One key, one period end: the block index stores one entry per hash. -/
theorem Aligned.keyOf_inj {p p' : Option CBlockIndex} (hp : Aligned m c p) (hp' : Aligned m c p')
    (hkey : keyOf p' = keyOf p) : p' = p := by
  cases p with
  | none => cases p' <;> simp_all [keyOf]
  | some b =>
    cases p' with
    | none => simp [keyOf] at hkey
    | some b' =>
      simp only [keyOf, Option.map_some, Option.some_inj] at hkey
      have h₁ := (hp b rfl).1
      have h₂ := (hp' b' rfl).1
      rw [hkey, h₁, Option.some_inj] at h₂
      rw [h₂]

/-- A cached state of a period end is its plain state. -/
theorem CacheOk.read {cache : ThresholdConditionCache} (hc : CacheOk m params c cache)
    {p : Option CBlockIndex} (hp : Aligned m c p) {state : ThresholdState} (h : cache (keyOf p) = some state) :
    naiveState m params c p = .ok state := by
  obtain ⟨q, hq, hqa, hqs⟩ := hc _ state h
  rw [← hp.keyOf_inj hqa hq]
  exact hqs

theorem CacheOk.update {cache : ThresholdConditionCache} (hc : CacheOk m params c cache)
    {p : Option CBlockIndex} (hp : Aligned m c p) {state : ThresholdState} (hs : naiveState m params c p = .ok state) :
    CacheOk m params c (Function.update cache (keyOf p) (some state)) := by
  intro k state' h
  by_cases hkey : k = keyOf p
  · subst hkey
    rw [Function.update_self, Option.some_inj] at h
    exact ⟨p, rfl, hp, h ▸ hs⟩
  · rw [Function.update_of_ne hkey] at h
    exact hc k state' h

section Walks
variable (hL : Linked m) (hP : 0 < c.period)
include hL hP

omit hP in
theorem MonotoneMTP.prevIter (hmono : MonotoneMTP m params) :
    ∀ (k : Nat) {b a : CBlockIndex}, m b.phashBlock = some b → SkipList.prevIter m k b = some a →
      getMedianTimePast m params a ≤ getMedianTimePast m params b
  | 0, b, a, _, h => by
    rw [prevIter_zero, Option.some_inj] at h
    rw [h]
  | k + 1, b, a, hb, h => by
    rw [prevIter_succ] at h
    obtain ⟨bp, hbp, ha⟩ := Option.bind_eq_some_iff.mp h
    exact (MonotoneMTP.prevIter hmono k (hL.parent_mem hbp) ha).trans (hmono hb hbp)

/-- Before the start time every period is `DEFINED`: the shortcut of the backward walk. With a
growing median time past, every earlier block is before the start time too. -/
theorem naiveState_before_start (hmono : MonotoneMTP m params) :
    ∀ (n : Nat) {b : CBlockIndex}, b.nHeight = n → m b.phashBlock = some b →
      getMedianTimePast m params b < c.beginTime → naiveState m params c (some b) = .ok .DEFINED := by
  intro n
  induction n using Nat.strong_induction_on with
  | _ n ih =>
    intro b hn hb hbefore
    rw [naiveState_some hL hP hb]
    have hdef : naiveState m params c (SkipList.prevIter m c.period b) = .ok .DEFINED := by
      cases hprev : SkipList.prevIter m c.period b with
      | none => rfl
      | some a =>
        obtain ⟨ha, hah⟩ := hL.prevIter_mem hb hprev
        exact ih a.nHeight (by omega) rfl ha
          (lt_of_le_of_lt (MonotoneMTP.prevIter hL hmono c.period hb hprev) hbefore)
    simp only [hdef, bind, Except.bind, nextState, if_neg (not_le.mpr hbefore)]

omit hP in
/-- A period end's period ancestor ends a period too. -/
theorem Aligned.prevIter {b : CBlockIndex} (hb : Aligned m c (some b)) :
    Aligned m c (SkipList.prevIter m c.period b) := by
  intro a ha
  obtain ⟨hbm, hbmod⟩ := hb b rfl
  obtain ⟨ham, hah⟩ := hL.prevIter_mem hbm ha
  refine ⟨ham, ?_⟩
  have hle : c.period ≤ b.nHeight + 1 := by omega
  rw [show a.nHeight + 1 = b.nHeight + 1 - c.period by omega]
  exact Nat.sub_mod_eq_zero_of_mod_eq (by rw [hbmod, Nat.mod_self])

omit hP in
theorem alignToPeriod_eq {p : Option CBlockIndex} (hp : ∀ b, p = some b → m b.phashBlock = some b) :
    alignToPeriod m c p = .ok (periodEnd m c p) := by
  cases p with
  | none => rfl
  | some b =>
    have hb := hp b rfl
    simp only [alignToPeriod, periodEnd, Option.bind_some]
    rw [← getAncestor_sub hL hb]
    congr 1

omit hP in
theorem aligned_periodEnd {p : Option CBlockIndex} (hp : ∀ b, p = some b → m b.phashBlock = some b) :
    Aligned m c (periodEnd m c p) := by
  intro a ha
  cases p with
  | none => cases ha
  | some b =>
    have hb := hp b rfl
    obtain ⟨ham, hah⟩ := hL.prevIter_mem hb ha
    refine ⟨ham, ?_⟩
    rw [show a.nHeight + 1 = b.nHeight + 1 - (b.nHeight + 1) % c.period by omega]
    exact Nat.sub_mod_eq_zero_of_mod_eq (Nat.mod_mod _ _).symm

/-- The backward walk stops at a period end whose state it has cached, plainly, having passed
the blocks of `vToCompute` one period apart. The induction is on the rounds. -/
theorem walkBack_spec (hmono : MonotoneMTP m params) :
    ∀ (fuel : Nat) (q : Option CBlockIndex) (v : List CBlockIndex) (cache : ThresholdConditionCache)
      {r : Option CBlockIndex}, 0 < fuel → (∀ b, q = some b → b.nHeight + 2 ≤ fuel) →
      Aligned m c q → CacheOk m params c cache → PeriodChain m c q v r →
      ∃ q' v' cache' state, walkBack m params c fuel q v cache = .ok (q', v', cache') ∧
        Aligned m c q' ∧ CacheOk m params c cache' ∧ cache' (keyOf q') = some state ∧
        naiveState m params c q' = .ok state ∧ PeriodChain m c q' v' r
  | 0, _, _, _, _, hfuel, _, _, _, _ => absurd hfuel (Nat.lt_irrefl 0)
  | fuel + 1, q, v, cache, r, _, hfuel, hq, hc, hchain => by
    by_cases hcached : (cache (keyOf q)).isSome
    · -- a cached period end
      obtain ⟨state, hstate⟩ := Option.isSome_iff_exists.mp hcached
      refine ⟨q, v, cache, state, ?_, hq, hc, hstate, hc.read hq hstate, hchain⟩
      simp only [walkBack, hcached, if_true]
    · simp only [walkBack, hcached, Bool.false_eq_true, if_false]
      cases q with
      | none =>
        -- `nullptr` is `DEFINED`
        exact ⟨none, v, _, .DEFINED, rfl, hq, hc.update hq rfl, by simp [keyOf], rfl, hchain⟩
      | some p =>
        obtain ⟨hpm, -⟩ := hq p rfl
        simp only
        by_cases hbefore : getMedianTimePast m params p < c.beginTime
        · -- before the start time: `DEFINED` without going further
          have hdef := naiveState_before_start hL hP hmono p.nHeight rfl hpm hbefore
          rw [if_pos hbefore]
          exact ⟨some p, v, _, .DEFINED, rfl, hq, hc.update hq hdef, by simp [keyOf], hdef, hchain⟩
        · -- one period down
          rw [if_neg hbefore, getAncestor_sub hL hpm]
          have hp := hfuel p rfl
          refine walkBack_spec hmono fuel _ (p :: v) cache (by omega) ?_ (hq.prevIter hL) hc (.cons hq rfl hchain)
          intro a ha
          have := (hL.prevIter_mem hpm ha).2
          omega

/-- The forward walk computes the plain states of `vToCompute`'s periods, caching them. The
induction follows the chain. -/
theorem walkForward_spec {q r : Option CBlockIndex} {l : List CBlockIndex} (hchain : PeriodChain m c q l r) :
    ∀ {state : ThresholdState} {cache : ThresholdConditionCache}, CacheOk m params c cache →
      naiveState m params c q = .ok state →
      ∃ state' cache', walkForward m params c state cache l = .ok (state', cache') ∧
        naiveState m params c r = .ok state' ∧ CacheOk m params c cache' := by
  induction hchain with
  | nil q =>
    intro state cache hc hq
    exact ⟨state, cache, rfl, hq, hc⟩
  | @cons q r b l hb hprev _ ih =>
    intro state cache hc hq
    obtain ⟨hbm, -⟩ := hb b rfl
    obtain ⟨sb, hsb⟩ := naiveState_ok hL hP b.nHeight rfl hbm
    -- the walk's step is the plain recursion's at `b`
    have hnext : nextState m params c state b = .ok sb := by
      rw [naiveState_some hL hP hbm, hprev, hq] at hsb
      exact hsb
    obtain ⟨state', cache', hrun, hr, hc'⟩ := ih (hc.update hb hsb) hsb
    refine ⟨state', cache', ?_, hr, hc'⟩
    simp only [walkForward, hnext, bind, Except.bind]
    exact hrun

/-- `GetStateFor` of a deployment with a real start time, from a plain cache: the plain state of
the period, and a plain cache. -/
theorem getStateFor_spec (hmono : MonotoneMTP m params) (hbegin : c.beginTime ≠ ALWAYS_ACTIVE ∧ c.beginTime ≠ NEVER_ACTIVE)
    {pindexPrev : Option CBlockIndex} (hp : ∀ b, pindexPrev = some b → m b.phashBlock = some b)
    {cache : ThresholdConditionCache} (hc : CacheOk m params c cache) :
    ∃ state cache', getStateFor m params c pindexPrev cache = .ok (state, cache') ∧
      naiveState m params c (periodEnd m c pindexPrev) = .ok state ∧ CacheOk m params c cache' := by
  have hq : Aligned m c (periodEnd m c pindexPrev) := aligned_periodEnd hL hp
  obtain ⟨q', v', cache₁, state₁, hback, -, hc₁, hcached, hstate₁, hchain⟩ :=
    walkBack_spec hL hP hmono (heightOf (periodEnd m c pindexPrev) + 2) (periodEnd m c pindexPrev) [] cache
      (by omega) (fun b hb => by simp [heightOf, hb]) hq hc (.nil _)
  obtain ⟨state, cache', hfwd, hstate, hc'⟩ := walkForward_spec hL hP hchain hc₁ hstate₁
  refine ⟨state, cache', ?_, hstate, hc'⟩
  simp only [getStateFor, if_neg hbegin.1, if_neg hbegin.2, alignToPeriod_eq hL hp, hback, cachedState, hcached,
    bind, Except.bind]
  exact hfwd

omit hL hP in
theorem periodEnd_of_aligned {b : CBlockIndex} (hb : Aligned m c (some b)) : periodEnd m c (some b) = some b := by
  simp [periodEnd, (hb b rfl).2]

/-- The loop of `GetStateSinceHeightFor` walks back over the run of `state` from the period
end `cur`, `k` periods below `p0`. The induction is on the rounds. -/
theorem sinceLoop_spec (hmono : MonotoneMTP m params) (hbegin : c.beginTime ≠ ALWAYS_ACTIVE ∧ c.beginTime ≠ NEVER_ACTIVE)
    {p0 : CBlockIndex} {state : ThresholdState} :
    ∀ (fuel : Nat) (cur : CBlockIndex) (k : Nat) (cache : ThresholdConditionCache), Aligned m c (some cur) →
      SkipList.prevIter m (k * c.period) p0 = some cur →
      (∀ i ≤ k, ∀ a, SkipList.prevIter m (i * c.period) p0 = some a → naiveState m params c (some a) = .ok state) →
      CacheOk m params c cache → cur.nHeight + 1 ≤ fuel →
      ∃ h cache' r, sinceLoop m params c state fuel cur (SkipList.prevIter m c.period cur) cache = .ok (h, cache') ∧
        CacheOk m params c cache' ∧ RunStart m params c p0 r state ∧ h = r.nHeight + 1
  | 0, cur, _, _, _, _, _, _, hfuel => absurd hfuel (by omega)
  | fuel + 1, cur, k, cache, hcur, hk, hrun, hc, hfuel => by
    have hcurm := (hcur cur rfl).1
    cases hprev : SkipList.prevIter m c.period cur with
    | none =>
      -- the run reaches back to the first period
      refine ⟨_, cache, cur, rfl, hc, ⟨k, hk, hrun, fun a ha => by rw [hprev] at ha; cases ha⟩, rfl⟩
    | some q =>
      have hq : Aligned m c (some q) := by rw [← hprev]; exact hcur.prevIter hL
      have hqm := (hq q rfl).1
      have hqh := (hL.prevIter_mem hcurm hprev).2
      obtain ⟨sq, cache₁, hget, hsq, hc₁⟩ :=
        getStateFor_spec hL hP hmono hbegin (fun b hb => Option.some_inj.mp hb ▸ hqm) hc
      rw [periodEnd_of_aligned hq] at hsq
      have hkq : SkipList.prevIter m ((k + 1) * c.period) p0 = some q := by
        rw [Nat.succ_mul, Nat.add_comm, prevIter_add, hk, Option.bind_some, hprev]
      simp only [sinceLoop, hget, bind, Except.bind]
      by_cases hsame : sq = state
      · -- one more period of the run
        subst hsame
        rw [if_pos rfl, getAncestor_sub hL hqm]
        refine sinceLoop_spec hmono hbegin fuel q (k + 1) cache₁ hq hkq ?_ hc₁ (by omega)
        intro i hi a ha
        rcases Nat.lt_or_eq_of_le hi with hi | rfl
        · exact hrun i (by omega) a ha
        · rw [hkq, Option.some_inj] at ha
          rw [← ha]
          exact hsq
      · -- the period before has another state
        rw [if_neg hsame]
        refine ⟨_, cache₁, cur, rfl, hc₁, ⟨k, hk, hrun, fun a ha => ?_⟩, rfl⟩
        rw [hprev, Option.some_inj] at ha
        rw [← ha, hsq]
        exact fun h => hsame (Except.ok.inj h)

/-- `GetStateSinceHeightFor` of a deployment with a real start time, from a plain cache: `0` for
a `DEFINED` period, and otherwise the first height of the run of periods that have the state
of `pindexPrev`'s child. -/
theorem getStateSinceHeightFor_spec (hmono : MonotoneMTP m params)
    (hbegin : c.beginTime ≠ ALWAYS_ACTIVE ∧ c.beginTime ≠ NEVER_ACTIVE)
    {pindexPrev : Option CBlockIndex} (hp : ∀ b, pindexPrev = some b → m b.phashBlock = some b)
    {cache : ThresholdConditionCache} (hc : CacheOk m params c cache) :
    ∃ h cache', getStateSinceHeightFor m params c pindexPrev cache = .ok (h, cache') ∧ CacheOk m params c cache' ∧
      ((naiveState m params c (periodEnd m c pindexPrev) = .ok .DEFINED ∧ h = 0) ∨
        ∃ p0 r state, periodEnd m c pindexPrev = some p0 ∧ naiveState m params c (some p0) = .ok state ∧
          state ≠ .DEFINED ∧ RunStart m params c p0 r state ∧ h = r.nHeight + 1) := by
  obtain ⟨state, cache₁, hget, hstate, hc₁⟩ := getStateFor_spec hL hP hmono hbegin hp hc
  have hnot : ¬(c.beginTime = ALWAYS_ACTIVE ∨ c.beginTime = NEVER_ACTIVE) := by
    rintro (h | h)
    · exact hbegin.1 h
    · exact hbegin.2 h
  by_cases hdef : state = .DEFINED
  · subst hdef
    refine ⟨0, cache₁, ?_, hc₁, .inl ⟨hstate, rfl⟩⟩
    simp only [getStateSinceHeightFor, if_neg hnot, hget, bind, Except.bind, if_true]
  · -- a state other than `DEFINED` needs a period end
    cases hend : periodEnd m c pindexPrev with
    | none =>
      rw [hend, naiveState_none, Except.ok.injEq] at hstate
      exact absurd hstate.symm hdef
    | some p0 =>
      have hq : Aligned m c (some p0) := by rw [← hend]; exact aligned_periodEnd hL hp
      have hp0 := (hq p0 rfl).1
      rw [hend] at hstate
      obtain ⟨h, cache', r, hloop, hc', hstart, rfl⟩ :=
        sinceLoop_spec hL hP hmono hbegin (p0.nHeight + 1) p0 0 cache₁ hq (by rw [Nat.zero_mul, prevIter_zero])
          (fun i hi a ha => by
            rw [show i = 0 by omega, Nat.zero_mul, prevIter_zero, Option.some_inj] at ha
            rw [← ha]
            exact hstate) hc₁ le_rfl
      refine ⟨_, cache', ?_, hc', .inr ⟨p0, r, state, rfl, hstate, hdef, hstart, rfl⟩⟩
      simp only [getStateSinceHeightFor, if_neg hnot, hget, bind, Except.bind, if_neg hdef,
        alignToPeriod_eq hL hp, hend, getAncestor_sub hL hp0]
      exact hloop

end Walks

end Cache

end BlackcoinMore.VersionBits
