import BlackcoinMore.VersionBits

/-! What `GetStateFor` computes, stated without its cache and its shortcut: the state of the
period after a block is the state of the period before, moved on by BIP9's transition at the
block, down to `DEFINED` before the genesis (`stateAfter`, following `pprev` alone). Along one
chain the states only move forward along BIP9's transitions, and `ACTIVE` and `FAILED` are
final. -/

namespace BlackcoinMore.SkipList
open Primitives BlockIndex

section Ancestors
variable {m : BlockMap} (hL : Linked m)
include hL

/-- Past the genesis, following `pprev` reaches nothing. -/
theorem Linked.prevIter_eq_none {b : CBlockIndex} (hb : m b.phashBlock = some b) {k : Nat}
    (hk : b.nHeight < k) : prevIter m k b = none := by
  obtain ⟨a, ha, hah, ham⟩ := hL.prevIter_spec hb (Nat.le_refl b.nHeight)
  have hroot : parent m a = none := by
    rcases hL.prev ham with ⟨hnone, -⟩ | ⟨bp, -, hbp⟩
    · simp [parent, hnone]
    · omega
  rw [show k = (k - b.nHeight - 1) + 1 + b.nHeight by omega, prevIter_add, ha, Option.bind_some, prevIter_succ,
    hroot, Option.bind_none]

/-- What following `pprev` reaches from a stored entry is stored, that many heights below. -/
theorem Linked.prevIter_mem {b a : CBlockIndex} (hb : m b.phashBlock = some b) {k : Nat}
    (ha : prevIter m k b = some a) : m a.phashBlock = some a ∧ a.nHeight + k = b.nHeight := by
  by_cases hk : k ≤ b.nHeight
  · obtain ⟨a', ha', hah, ham⟩ := hL.prevIter_spec hb hk
    rw [ha, Option.some_inj] at ha'
    subst ha'
    exact ⟨ham, by omega⟩
  · rw [hL.prevIter_eq_none hb (by omega)] at ha
    cases ha

/-- `GetAncestor(nHeight - k)` is `k` parents up, `nullptr` past the genesis. -/
theorem getAncestor_sub {b : CBlockIndex} (hb : m b.phashBlock = some b) (k : Nat) :
    getAncestor m b (b.nHeight - k) = .ok (prevIter m k b) := by
  obtain ⟨hout, hin⟩ := getAncestor_spec hL hb (b.nHeight - k)
  by_cases hk : k ≤ b.nHeight
  · obtain ⟨a, ha, -, -, hanc⟩ := hin (by omega) (by omega)
    rw [hanc, ← ha]
    congr 3
    omega
  · rw [hout (.inl (by omega)), hL.prevIter_eq_none hb (by omega)]

end Ancestors

end BlackcoinMore.SkipList

namespace BlackcoinMore.VersionBits
open Primitives ChainParams BlockIndex SkipList

section Spec
variable (m : BlockMap) (params : Params) (c : ThresholdConditionChecker)

/-- The `n` blocks from `p` down, newest first, as far as there are any. -/
def lastBlocks : Nat → Option CBlockIndex → List CBlockIndex
  | 0, _ => []
  | _ + 1, none => []
  | n + 1, some b => b :: lastBlocks n (parent m b)

/-- The state of the period after `pindexPrev` by BIP9's rules alone: the state of the period
before, moved on at `pindexPrev`, with no cache and no shortcut, within `fuel` periods. -/
def stateAfter : Nat → Option CBlockIndex → Except String ThresholdState
  | _, none => .ok .DEFINED
  | 0, some _ => .error "out of rounds"
  | fuel + 1, some b => do
    let state ← stateAfter fuel (prevIter m c.period b)
    nextState m params c state b

/-- `stateAfter` with one round per height, which is enough. -/
def naiveState (p : Option CBlockIndex) : Except String ThresholdState :=
  stateAfter m params c (heightOf p + 1) p

@[simp] theorem stateAfter_none (fuel : Nat) : stateAfter m params c fuel none = .ok .DEFINED := by
  cases fuel <;> rfl

@[simp] theorem naiveState_none : naiveState m params c none = .ok .DEFINED := rfl

variable {m params c}

theorem countLoop_spec (hL : Linked m) :
    ∀ (n : Nat) {b : CBlockIndex} (count : Nat), m b.phashBlock = some b → n ≤ b.nHeight + 1 →
      countLoop m c n (some b) count = .ok (count + (lastBlocks m n (some b)).countP c.condition)
  | 0, _, count, _, _ => rfl
  | n + 1, b, count, hb, hn => by
    simp only [countLoop, lastBlocks, List.countP_cons]
    -- the next block exists exactly when more rounds are left
    cases n with
    | zero => split <;> simp [countLoop, lastBlocks]
    | succ n =>
      obtain ⟨bp, hbp, hh⟩ := hL.parent_of_pos hb (by omega)
      have hprev : b.pprev.bind m = some bp := hbp
      rw [hprev, countLoop_spec hL (n + 1) _ (hL.parent_mem hbp) (by omega), hbp]
      split
      · congr 1
        omega
      · rfl

section Naive
variable (hL : Linked m) (hP : 0 < c.period)
include hL hP

/-- Any number of rounds above the height gives the same state. The induction is on the height;
each round goes one period down. -/
theorem stateAfter_fuel :
    ∀ (n : Nat) {b : CBlockIndex} {fuel : Nat}, b.nHeight = n → m b.phashBlock = some b → b.nHeight < fuel →
      stateAfter m params c fuel (some b) = naiveState m params c (some b) := by
  intro n
  induction n using Nat.strong_induction_on with
  | _ n ih =>
    intro b fuel hn hb hfuel
    obtain ⟨fuel, rfl⟩ : ∃ f, fuel = f + 1 := ⟨fuel - 1, by omega⟩
    simp only [naiveState, heightOf, Option.map_some, Option.getD_some, stateAfter]
    -- both runs go on from the same block one period down
    cases hprev : prevIter m c.period b with
    | none => simp only [stateAfter_none]
    | some a =>
      obtain ⟨ha, hah⟩ := hL.prevIter_mem hb hprev
      rw [ih a.nHeight (by omega) rfl ha (by omega), ih a.nHeight (by omega) rfl ha (by omega)]

/-- The plain recursion: the state after `b` is the state one period down moved on at `b`. -/
theorem naiveState_some {b : CBlockIndex} (hb : m b.phashBlock = some b) :
    naiveState m params c (some b) =
      naiveState m params c (prevIter m c.period b) >>= fun state => nextState m params c state b := by
  conv_lhs => simp only [naiveState, heightOf, Option.map_some, Option.getD_some, stateAfter]
  cases hprev : prevIter m c.period b with
  | none => simp only [stateAfter_none, naiveState_none]
  | some a =>
    obtain ⟨ha, hah⟩ := hL.prevIter_mem hb hprev
    rw [stateAfter_fuel hL hP a.nHeight rfl ha (by omega)]

omit hP in
/-- `nextState` fails only by counting past the genesis, which a `STARTED` period never does. -/
theorem nextState_ok {b : CBlockIndex} (hb : m b.phashBlock = some b) (state : ThresholdState)
    (hcount : state = .STARTED → c.period ≤ b.nHeight + 1) :
    ∃ state', nextState m params c state b = .ok state' := by
  cases state with
  | STARTED =>
    simp only [nextState, countLoop_spec hL c.period 0 hb (hcount rfl), bind, Except.bind, pure, Except.pure]
    exact ⟨_, rfl⟩
  | _ => exact ⟨_, rfl⟩

/-- The plain recursion never fails on a stored block. -/
theorem naiveState_ok :
    ∀ (n : Nat) {b : CBlockIndex}, b.nHeight = n → m b.phashBlock = some b →
      ∃ state, naiveState m params c (some b) = .ok state := by
  intro n
  induction n using Nat.strong_induction_on with
  | _ n ih =>
    intro b hn hb
    rw [naiveState_some hL hP hb]
    cases hprev : prevIter m c.period b with
    | none => exact nextState_ok hL hb .DEFINED (by simp)
    | some a =>
      obtain ⟨ha, hah⟩ := hL.prevIter_mem hb hprev
      obtain ⟨state, hstate⟩ := ih a.nHeight (by omega) rfl ha
      simp only [hstate, bind, Except.bind]
      exact nextState_ok hL hb state fun _ => by omega

omit hP in
/-- The `STARTED` case of `nextState`: the count is the signalling blocks of the period. -/
theorem nextState_STARTED {b : CBlockIndex} (hb : m b.phashBlock = some b) (hcount : c.period ≤ b.nHeight + 1) :
    nextState m params c .STARTED b =
      .ok (if c.threshold ≤ (lastBlocks m c.period (some b)).countP c.condition then .LOCKED_IN
        else if c.endTime ≤ getMedianTimePast m params b then .FAILED else .STARTED) := by
  simp only [nextState, countLoop_spec hL c.period 0 hb hcount, Nat.zero_add, bind, Except.bind, pure, Except.pure]

/-- A deployment locks in only after a `STARTED` period in which at least `threshold` of the
`period` blocks signalled; `ACTIVE` comes after such a lock-in. The induction is on the height,
one period at a time. -/
theorem naiveState_lockedIn :
    ∀ (n : Nat) {b : CBlockIndex} {state : ThresholdState}, b.nHeight = n → m b.phashBlock = some b →
      naiveState m params c (some b) = .ok state → (state = .LOCKED_IN ∨ state = .ACTIVE) →
      ∃ k e, prevIter m (k * c.period) b = some e ∧ naiveState m params c (prevIter m c.period e) = .ok .STARTED ∧
        naiveState m params c (some e) = .ok .LOCKED_IN ∧
        c.threshold ≤ (lastBlocks m c.period (some e)).countP c.condition := by
  intro n
  induction n using Nat.strong_induction_on with
  | _ n ih =>
    intro b state hn hb hstate hlock
    have hrec : naiveState m params c (some b) = _ := naiveState_some hL hP hb
    rw [hstate] at hrec
    cases hprev : prevIter m c.period b with
    | none =>
      -- the first period after the genesis is `DEFINED` or `STARTED`
      rw [hprev, naiveState_none] at hrec
      simp only [bind, Except.bind, nextState] at hrec
      split at hrec <;> cases hrec <;> simp at hlock
    | some a =>
      obtain ⟨ha, hah⟩ := hL.prevIter_mem hb hprev
      obtain ⟨sa, hsa⟩ := naiveState_ok hL hP a.nHeight rfl ha
      rw [hprev, hsa] at hrec
      simp only [bind, Except.bind] at hrec
      cases sa with
      | STARTED =>
        -- the lock-in happens at `b` itself
        rw [nextState_STARTED hL hb (by omega)] at hrec
        by_cases hthr : c.threshold ≤ (lastBlocks m c.period (some b)).countP c.condition
        · rw [if_pos hthr, Except.ok.injEq] at hrec
          subst hrec
          exact ⟨0, b, by rw [Nat.zero_mul, prevIter_zero], by rw [hprev, hsa], hstate, hthr⟩
        · rw [if_neg hthr] at hrec
          split_ifs at hrec <;> cases hrec <;> simp at hlock
      | LOCKED_IN | ACTIVE =>
        -- it happened before `a`
        obtain ⟨k, e, hke, he⟩ := ih a.nHeight (by omega) rfl ha hsa (by simp)
        refine ⟨k + 1, e, ?_, he⟩
        rw [Nat.succ_mul, prevIter_add, hprev, Option.bind_some, hke]
      | DEFINED =>
        simp only [nextState] at hrec
        split_ifs at hrec <;> cases hrec <;> simp at hlock
      | FAILED =>
        simp only [nextState] at hrec
        cases hrec
        simp at hlock

end Naive

theorem lastBlocks_none (n : Nat) : lastBlocks m n none = [] := by
  cases n <;> rfl

/-- The blocks of `j + n` from `p` down are the first `j` and then `n` from `j` parents down. -/
theorem lastBlocks_add (n : Nat) :
    ∀ (j : Nat) (p : Option CBlockIndex), lastBlocks m (j + n) p = lastBlocks m j p ++ lastBlocks m n (p.bind (prevIter m j))
  | 0, p => by cases p <;> simp [lastBlocks, lastBlocks_none]
  | j + 1, none => by simp [lastBlocks_none]
  | j + 1, some b => by
    rw [show j + 1 + n = (j + n) + 1 by omega]
    simp only [lastBlocks, lastBlocks_add n j (parent m b), Option.bind_some, prevIter_succ, List.cons_append]

theorem length_lastBlocks (hL : Linked m) :
    ∀ (n : Nat) {b : CBlockIndex}, m b.phashBlock = some b → n ≤ b.nHeight + 1 → (lastBlocks m n (some b)).length = n
  | 0, _, _, _ => rfl
  | n + 1, b, hb, hn => by
    cases n with
    | zero => rfl
    | succ n =>
      obtain ⟨bp, hbp, hh⟩ := hL.parent_of_pos hb (by omega)
      rw [lastBlocks, hbp, List.length_cons, length_lastBlocks hL (n + 1) (hL.parent_mem hbp) (by omega)]

/-- The do-while loop of `GetStateStatisticsFor` over `n` blocks from a stored block: it counts
their signalling blocks and marks them oldest first, in front of the flags it was given. -/
theorem statsLoop_spec (hL : Linked m) :
    ∀ (n : Nat) {b : CBlockIndex} (elapsed count : Nat) (rest : List Bool), m b.phashBlock = some b → n ≤ b.nHeight + 1 →
      statsLoop m c n (some b) elapsed count (List.replicate n false ++ rest) =
        .ok (elapsed + n, count + (lastBlocks m n (some b)).countP c.condition,
          ((lastBlocks m n (some b)).reverse.map c.condition) ++ rest)
  | 0, _, elapsed, count, rest, _, _ => by simp [statsLoop, lastBlocks]
  | n + 1, b, elapsed, count, rest, hb, hn => by
    -- the flag of `b` goes to the last of the `n + 1` places
    have hset : ∀ v, (List.replicate (n + 1) false ++ rest).set n v = List.replicate n false ++ (v :: rest) := by
      intro v
      rw [List.replicate_succ', List.append_assoc, List.singleton_append, List.set_append_right _ _ (by simp)]
      simp
    have hflag : List.replicate (n + 1) false ++ rest = List.replicate n false ++ (false :: rest) := by
      rw [List.replicate_succ', List.append_assoc, List.singleton_append]
    cases n with
    | zero =>
      cases hc : c.condition b <;> simp [statsLoop, lastBlocks, hc]
    | succ n =>
      obtain ⟨bp, hbp, hh⟩ := hL.parent_of_pos hb (by omega)
      have hprev : b.pprev.bind m = some bp := hbp
      have hlast : lastBlocks m (n + 1 + 1) (some b) = b :: lastBlocks m (n + 1) (some bp) := by
        rw [lastBlocks, hbp]
      have ih := fun (v : Bool) (count' : Nat) =>
        statsLoop_spec hL (n + 1) (elapsed + 1) count' (v :: rest) (hL.parent_mem hbp) (by omega)
      rw [statsLoop, hprev]
      split
      · rename_i hc
        rw [hset, ih true, hlast]
        simp only [List.countP_cons, hc, if_true, List.reverse_cons, List.map_append, List.map_cons, List.map_nil,
          List.append_assoc, List.singleton_append, Except.ok.injEq, Prod.mk.injEq]
        exact ⟨by omega, by omega, trivial⟩
      · rename_i hc
        rw [hflag, ih false, hlast]
        simp only [List.countP_cons, hc, Bool.false_eq_true, if_false, List.reverse_cons, List.map_append,
          List.map_cons, List.map_nil, List.append_assoc, List.singleton_append, Except.ok.injEq, Prod.mk.injEq]
        exact ⟨by omega, rfl, trivial⟩

/-- `GetStateStatisticsFor` on a stored block: the `1 + nHeight % period` blocks of its period up
to it, how many of them signal, and their flags oldest first. -/
theorem getStateStatisticsFor_some (hL : Linked m) {p : CBlockIndex} (hp : m p.phashBlock = some p) :
    getStateStatisticsFor m c (some p) =
      .ok (⟨c.period, c.threshold, (1 + p.nHeight % c.period : Nat),
          ((lastBlocks m (1 + p.nHeight % c.period) (some p)).countP c.condition : Nat),
          decide (((1 + p.nHeight % c.period : Nat) : Int) - ((lastBlocks m (1 + p.nHeight % c.period) (some p)).countP c.condition : Nat) ≤
            (c.period : Int) - c.threshold)⟩,
        (lastBlocks m (1 + p.nHeight % c.period) (some p)).reverse.map c.condition) := by
  have hloop := @statsLoop_spec m c hL (1 + p.nHeight % c.period) p 0 0 [] hp (by have := Nat.mod_le p.nHeight c.period; omega)
  rw [List.append_nil] at hloop
  simp only [getStateStatisticsFor, hloop, Nat.zero_add, bind, Except.bind, pure, Except.pure, List.append_nil]

/-- The height `h` and a block `j < period` above it that ends a period: then `j` is what is left
of the period after `h`. -/
theorem period_rest {P h j : Nat} (hj : j < P) (hend : (h + j + 1) % P = 0) : P - j = 1 + h % P := by
  have hr := Nat.mod_lt h (by omega : 0 < P)
  rw [← Nat.div_add_mod h P, Nat.add_assoc, Nat.add_assoc, Nat.mul_add_mod] at hend
  by_cases hlt : h % P + (j + 1) < P
  · rw [Nat.mod_eq_of_lt hlt] at hend
    omega
  · rw [Nat.mod_eq_sub_mod (by omega), Nat.mod_eq_of_lt (by omega)] at hend
    omega

/-- The blocks of the period that ends at `e`, split at the block `p` that is `j` parents down:
the `j` above `p`, then the blocks of the period up to `p`. -/
theorem lastBlocks_period_split (hL : Linked m) {p e : CBlockIndex} (he : m e.phashBlock = some e) {j : Nat}
    (hj : prevIter m j e = some p) (hjP : j < c.period) (hend : (e.nHeight + 1) % c.period = 0) :
    lastBlocks m c.period (some e) = lastBlocks m j (some e) ++ lastBlocks m (1 + p.nHeight % c.period) (some p) := by
  have hh := (hL.prevIter_mem he hj).2
  have hrest : c.period - j = 1 + p.nHeight % c.period := period_rest hjP (by rw [hh]; exact hend)
  have hsplit := lastBlocks_add (m := m) (c.period - j) j (some e)
  rw [Nat.add_sub_cancel' hjP.le, Option.bind_some, hj, hrest] at hsplit
  exact hsplit

/-- When `GetStateStatisticsFor` says the threshold is no longer possible in the period of
`pindex`, the block `e` that ends that period on any chain through `pindex` has fewer than
`threshold` signalling blocks in its period, so a `STARTED` deployment does not lock in there. -/
theorem statistics_not_possible (hL : Linked m) {p e : CBlockIndex} (he : m e.phashBlock = some e) {j : Nat}
    (hj : prevIter m j e = some p) (hjP : j < c.period) (hend : (e.nHeight + 1) % c.period = 0)
    {stats : BIP9Stats} {signalling : List Bool}
    (hs : getStateStatisticsFor m c (some p) = .ok (stats, signalling)) (hno : stats.possible = false) :
    (lastBlocks m c.period (some e)).countP c.condition < c.threshold ∧
      nextState m params c .STARTED e ≠ .ok .LOCKED_IN := by
  obtain ⟨hpm, hh⟩ := hL.prevIter_mem he hj
  rw [getStateStatisticsFor_some hL hpm, Except.ok.injEq, Prod.mk.injEq] at hs
  obtain ⟨rfl, -⟩ := hs
  simp only [decide_eq_false_iff_not, not_le] at hno
  -- the `j` blocks above `p` signal at most `j` times
  have habove : (lastBlocks m j (some e)).countP c.condition ≤ j := by
    calc (lastBlocks m j (some e)).countP c.condition ≤ (lastBlocks m j (some e)).length := List.countP_le_length
      _ = j := length_lastBlocks hL j he (by omega)
  have hrest : c.period - j = 1 + p.nHeight % c.period := period_rest hjP (by rw [hh]; exact hend)
  have hcount : (lastBlocks m c.period (some e)).countP c.condition < c.threshold := by
    rw [lastBlocks_period_split hL he hj hjP hend, List.countP_append]
    push_cast at hno
    omega
  refine ⟨hcount, ?_⟩
  -- a period end is at least one period high
  have hPe : c.period ≤ e.nHeight + 1 := Nat.le_of_dvd (by omega) (Nat.dvd_of_mod_eq_zero hend)
  rw [nextState_STARTED hL he hPe, if_neg (by omega)]
  split_ifs <;> simp

/-- Periods of four blocks with a threshold of three: after two blocks that do not signal, the
period cannot lock in, and indeed its last block sees one signal. -/
theorem statistics_not_possible_signal_chain :
    let signals := [false, false, true, false]
    let c := versionBitsConditionChecker ⟨3, 4, fun _ => ⟨0, 0, NO_TIMEOUT, 0⟩⟩ .DEPLOYMENT_TESTDUMMY
    (lastBlocks (SignalChain.index signals) c.period (some (SignalChain.entry signals 3))).countP c.condition < c.threshold ∧
      nextState (SignalChain.index signals) Params.valueInit c .STARTED (SignalChain.entry signals 3) ≠ .ok .LOCKED_IN :=
  @statistics_not_possible _ Params.valueInit _ (Built.empty.addHeaders _).linked (SignalChain.entry [false, false, true, false] 1)
    _ (by decide) 2 (by decide) (by decide)
    (by decide) ⟨4, 3, 2, 0, false⟩ [false, false] (by decide) rfl

end Spec

/-! ### BIP9's transitions -/

/-- The moves BIP9 allows from the state of one period to the state of the next. -/
inductive Transition : ThresholdState → ThresholdState → Prop
  | stay (s : ThresholdState) : Transition s s
  | start : Transition .DEFINED .STARTED
  | lockIn : Transition .STARTED .LOCKED_IN
  | fail : Transition .STARTED .FAILED
  | activate : Transition .LOCKED_IN .ACTIVE

/-- The states a deployment can move to over any number of periods. -/
def Reaches : ThresholdState → ThresholdState → Prop := Relation.ReflTransGen Transition

theorem reaches_of_DEFINED (t : ThresholdState) : Reaches .DEFINED t := by
  have hlock : Reaches .DEFINED .LOCKED_IN := (Relation.ReflTransGen.single .start).tail .lockIn
  cases t with
  | DEFINED => exact .refl
  | STARTED => exact .single .start
  | LOCKED_IN => exact hlock
  | ACTIVE => exact hlock.tail .activate
  | FAILED => exact (Relation.ReflTransGen.single .start).tail .fail

/-- `ACTIVE` and `FAILED` are final. -/
theorem Reaches.eq_of_final {s t : ThresholdState} (h : Reaches s t) (hs : s = .ACTIVE ∨ s = .FAILED) : t = s := by
  induction h with
  | refl => rfl
  | tail _ hstep ih =>
    rw [← ih] at hs ⊢
    rcases hs with rfl | rfl <;> cases hstep <;> rfl

section Moves
variable {m : BlockMap} {params : Params} {c : ThresholdConditionChecker}

theorem nextState_transition {state state' : ThresholdState} {b : CBlockIndex}
    (h : nextState m params c state b = .ok state') : Transition state state' := by
  cases state with
  | DEFINED =>
    simp only [nextState, Except.ok.injEq] at h
    split_ifs at h <;> subst h
    · exact .start
    · exact .stay _
  | STARTED =>
    obtain ⟨count, -, h⟩ := ExceptFold.bind_eq_ok h
    simp only [pure, Except.pure, Except.ok.injEq] at h
    split_ifs at h <;> subst h
    · exact .lockIn
    · exact .fail
    · exact .stay _
  | LOCKED_IN =>
    simp only [nextState, Except.ok.injEq] at h
    split_ifs at h <;> subst h
    · exact .activate
    · exact .stay _
  | ACTIVE | FAILED =>
    simp only [nextState, Except.ok.injEq] at h
    subst h
    exact .stay _

variable (hL : Linked m) (hP : 0 < c.period)
include hL hP

/-- Along one chain, the state of the period after a block reaches the state `k` periods
later by BIP9's moves. The induction is on `k`. -/
theorem naiveState_reaches :
    ∀ (k : Nat) {b : CBlockIndex} {s t : ThresholdState}, m b.phashBlock = some b →
      naiveState m params c (prevIter m (k * c.period) b) = .ok s → naiveState m params c (some b) = .ok t →
      Reaches s t
  | 0, b, s, t, _, hs, ht => by
    rw [Nat.zero_mul, prevIter_zero, ht, Except.ok.injEq] at hs
    rw [hs]
    exact .refl
  | k + 1, b, s, t, hb, hs, ht => by
    rw [Nat.succ_mul, prevIter_add] at hs
    rw [naiveState_some hL hP hb] at ht
    cases hprev : prevIter m c.period b with
    | none =>
      rw [hprev, Option.bind_none, naiveState_none, Except.ok.injEq] at hs
      rw [← hs]
      exact reaches_of_DEFINED t
    | some a =>
      rw [hprev, Option.bind_some] at hs
      obtain ⟨ha, -⟩ := hL.prevIter_mem hb hprev
      obtain ⟨sa, hsa, hnext⟩ := ExceptFold.bind_eq_ok ht
      rw [hprev] at hsa
      exact (naiveState_reaches k ha hs hsa).tail (nextState_transition hnext)

end Moves

end BlackcoinMore.VersionBits
