import BlackcoinMore.CoinsCacheWrite

/-! The cache stack refines the plain map of coins. A run of calls whose caller keeps the
contract of `coins.h` (`Valid`: `AddCoin` and `SpendCoin` on the top layer, an unspent coin,
overwriting allowed where the view may hold one, a best block before writing the database)
succeeds on the stack, and the top layer then reports at every outpoint what `CoinsView`,
updated by the same `AddCoin`s and `SpendCoin`s, reports. The proof is a step lemma
(`step_refines`) and an induction over the run. -/
namespace BlackcoinMore.CoinsCache
open Primitives Serialize Coins CCoinsViewCache

section Run

/-- `Q` holds of layer `k` of `cache :: below` over `db`, if the stack has such a layer. -/
def AtLayer (Q : CCoinsViewCache → List CCoinsViewCache → CCoinsViewDB → Prop) :
    Nat → CCoinsViewCache → List CCoinsViewCache → CCoinsViewDB → Prop
  | 0, cache, below, db => Q cache below db
  | _ + 1, _, [], _ => True
  | k + 1, _, next :: below, db => AtLayer Q k next below db

theorem atLayer_of_forall {Q : CCoinsViewCache → List CCoinsViewCache → CCoinsViewDB → Prop}
    (hQ : ∀ cache below db, Q cache below db) :
    ∀ k cache below db, AtLayer Q k cache below db
  | 0, cache, below, db => hQ cache below db
  | _ + 1, _, [], _ => trivial
  | k + 1, _, next :: below, db => atLayer_of_forall hQ k next below db

/-- A call that keeps the view of the layer it runs on keeps the view of the whole stack. -/
theorem atLayer_keepsView
    {f : CCoinsViewCache → List CCoinsViewCache → CCoinsViewDB → Except String Layers}
    {Q : CCoinsViewCache → List CCoinsViewCache → CCoinsViewDB → Prop}
    (hf : ∀ cache below db, LayersOk db (cache :: below) → Q cache below db →
      KeepsView db cache below (f cache below db)) :
    ∀ k cache below db, LayersOk db (cache :: below) → AtLayer Q k cache below db →
      KeepsView db cache below (atLayer f k cache below db)
  | 0, cache, below, db, h, hq => hf cache below db h hq
  | _ + 1, cache, [], db, h, _ => ⟨(cache, [], db), rfl, h, rfl⟩
  | k + 1, cache, next :: below, db, ⟨hc, hb⟩, hq => by
    obtain ⟨⟨next', below', db'⟩, hr, hok, hview⟩ := atLayer_keepsView hf k next below db hb hq
    -- the layers above see the same view below them
    exact ⟨(cache, next' :: below', db'), by simp only [atLayer, hr]; rfl,
      ⟨cacheOk_of_view_eq hview hc, hok⟩, funext fun o => viewOf_cons_congr rfl (congrFun hview o)⟩

/-- What the caller of each call promises: `AddCoin` and `SpendCoin` on the top layer, an
unspent coin, overwriting allowed wherever the view may hold an unspent coin, and a best
block for a write into the database. -/
def Valid (s : CoinsStack) : CoinsOp → Prop
  | .addCoin layer outpoint coin possible_overwrite =>
    layer = 0 ∧ coin.isSpent = false ∧
      (possible_overwrite = false → (viewOf s.db (s.top :: s.below) outpoint).isSpent = true)
  | .spendCoin layer _ => layer = 0
  | .flush layer | .sync layer =>
    AtLayer (fun cache below _ => below = [] → cache.hashBlock ≠ 0) layer s.top s.below s.db
  | .accessCoin _ _ | .uncache _ _ | .setBestBlock _ _ => True

/-- Every call of the run is valid in the state the calls before it leave. -/
def ValidRun : CoinsStack → List CoinsOp → Prop
  | _, [] => True
  | s, op :: ops => Valid s op ∧ ∀ s', s.step op = .ok s' → ValidRun s' ops

/-- What a call does to the plain map of coins: only `AddCoin` and `SpendCoin` change it. -/
def flatStep (M : CoinsView) : CoinsOp → Except String CoinsView
  | .addCoin _ outpoint coin possible_overwrite => M.addCoin outpoint coin possible_overwrite
  | .spendCoin _ outpoint => .ok ((M.spendCoin outpoint).elim M Prod.snd)
  | _ => .ok M

def flatRun (M : CoinsView) (ops : List CoinsOp) : Except String CoinsView := ops.foldlM flatStep M

theorem addCoin_flat {M : CoinsView} {o : COutPoint} {coin : Coin} {p : Bool}
    (hcoin : coin.isSpent = false) (hp : p = false → M.haveCoin o = false) :
    M.addCoin o coin p = .ok (if isUnspendable coin.out.scriptPubKey then M else M.setCoin o coin) := by
  unfold CoinsView.addCoin
  rw [if_neg (by simp [hcoin])]
  by_cases hu : isUnspendable coin.out.scriptPubKey = true
  · rw [if_pos hu, if_pos hu]
  · rw [if_neg hu, if_neg hu, if_neg]
    cases p
    · simp [hp rfl]
    · simp

theorem spendCoin_flat {M : CoinsView} {o : COutPoint}
    (hM : (M.coins o).isSpent = true → M.coins o = Coin.empty) :
    ((M.spendCoin o).elim M Prod.snd).coins = Function.update M.coins o Coin.empty := by
  unfold CoinsView.spendCoin
  split_ifs with hh
  · rfl
  · have hs : (M.coins o).isSpent = true := by simpa [CoinsView.haveCoin] using hh
    exact (Function.update_eq_self_iff.mpr (hM hs).symm).symm

section KeepsView
variable {cache : CCoinsViewCache} {below : List CCoinsViewCache} {db : CCoinsViewDB}

theorem accessCoin_keepsView (h : LayersOk db (cache :: below)) (k : Nat) (o : COutPoint) :
    KeepsView db cache below ((CoinsOp.accessCoin k o).apply cache below db) := by
  obtain ⟨-, hok, hview⟩ := @accessCoin_ok db cache below o h
  exact ⟨_, rfl, hok, hview⟩

theorem uncache_keepsView (h : LayersOk db (cache :: below)) (k : Nat) (o : COutPoint) :
    KeepsView db cache below ((CoinsOp.uncache k o).apply cache below db) := by
  obtain ⟨hc, hview⟩ := @uncache_ok db cache below o h.1
  exact ⟨_, rfl, ⟨hc, h.2⟩, hview⟩

theorem setBestBlock_keepsView (h : LayersOk db (cache :: below)) (k : Nat) (hash : Uint256) :
    KeepsView db cache below ((CoinsOp.setBestBlock k hash).apply cache below db) :=
  ⟨_, rfl, ⟨⟨h.1.entries, h.1.usage⟩, h.2⟩, rfl⟩

end KeepsView

/-- A call that keeps the view leaves the plain map as it is. -/
theorem step_of_keepsView {s : CoinsStack} {op : CoinsOp} {M : CoinsView}
    (hk : KeepsView s.db s.top s.below (atLayer op.apply op.layer s.top s.below s.db))
    (hflat : flatStep M op = .ok M) (hv : viewOf s.db (s.top :: s.below) = M.coins) :
    ∃ s', s.step op = .ok s' ∧ ∃ M', flatStep M op = .ok M' ∧
      LayersOk s'.db (s'.top :: s'.below) ∧ viewOf s'.db (s'.top :: s'.below) = M'.coins := by
  obtain ⟨⟨top, below, db⟩, hr, hok, hview⟩ := hk
  exact ⟨⟨top, below, db⟩, by simp only [CoinsStack.step, hr]; rfl, M, hflat, hok, hview.trans hv⟩

/-- One valid call: the stack and the plain map both succeed, the invariant holds, and the
view of the stack is the plain map. -/
theorem step_refines {s : CoinsStack} {M : CoinsView} {op : CoinsOp}
    (h : LayersOk s.db (s.top :: s.below)) (hv : viewOf s.db (s.top :: s.below) = M.coins)
    (hop : Valid s op) :
    ∃ s', s.step op = .ok s' ∧ ∃ M', flatStep M op = .ok M' ∧
      LayersOk s'.db (s'.top :: s'.below) ∧ viewOf s'.db (s'.top :: s'.below) = M'.coins := by
  cases op with
  | addCoin k o coin p =>
    obtain ⟨rfl, hcoin, hp⟩ := hop
    obtain ⟨c', hc', hok, hview⟩ := addCoin_ok h.1 hcoin hp
    have hhave : p = false → M.haveCoin o = false := fun hpf => by
      simp [CoinsView.haveCoin, ← hv, hp hpf]
    refine ⟨⟨c', s.below, s.db⟩, ?_, _, addCoin_flat hcoin hhave, ⟨hok, h.2⟩, ?_⟩
    · simp only [CoinsStack.step, CoinsOp.layer, atLayer, CoinsOp.apply, hc']
      rfl
    · rw [hview, hv]
      split_ifs <;> rfl
  | spendCoin k o =>
    obtain rfl := hop
    obtain ⟨hok, hview⟩ := @spendCoin_ok s.db s.top s.below o h
    refine ⟨⟨(spendCoin s.top s.below s.db o).2.1, (spendCoin s.top s.below s.db o).2.2, s.db⟩, rfl, _,
      rfl, hok, ?_⟩
    rw [hview, spendCoin_flat (fun hs => ?_), hv]
    rw [← hv] at hs ⊢
    exact viewOf_eq_empty h hs
  | accessCoin k o =>
    exact step_of_keepsView (atLayer_keepsView (fun _ _ _ h (_ : True) => accessCoin_keepsView h k o) k
      _ _ _ h (atLayer_of_forall (fun _ _ _ => trivial) _ _ _ _)) rfl hv
  | uncache k o =>
    exact step_of_keepsView (atLayer_keepsView (fun _ _ _ h (_ : True) => uncache_keepsView h k o) k
      _ _ _ h (atLayer_of_forall (fun _ _ _ => trivial) _ _ _ _)) rfl hv
  | setBestBlock k hash =>
    exact step_of_keepsView (atLayer_keepsView (fun _ _ _ h (_ : True) => setBestBlock_keepsView h k hash) k
      _ _ _ h (atLayer_of_forall (fun _ _ _ => trivial) _ _ _ _)) rfl hv
  | flush k => exact step_of_keepsView (atLayer_keepsView (fun _ _ _ h hh => flush_ok h hh) k _ _ _ h hop) rfl hv
  | sync k => exact step_of_keepsView (atLayer_keepsView (fun _ _ _ h hh => sync_ok h hh) k _ _ _ h hop) rfl hv

/-- A valid run of calls on a stack of caches that starts right about its database, with the
plain map its view: both succeed, the top layer's `AccessCoin` answers the plain map at every
outpoint, and every layer still keeps the invariant: allowed flags, a spent entry is
`coinEmpty`, `FRESH` only where the view below is spent, a clean entry equal to the view below,
and `cachedCoinsUsage` the sum of the entries' usage. -/
theorem run_refines_coinsView : ∀ (ops : List CoinsOp) (s : CoinsStack) (M : CoinsView),
    LayersOk s.db (s.top :: s.below) → viewOf s.db (s.top :: s.below) = M.coins → ValidRun s ops →
    ∃ s', s.run ops = .ok s' ∧ ∃ M', flatRun M ops = .ok M' ∧
      (∀ o, (accessCoin s'.top s'.below s'.db o).1 = M'.coins o) ∧ LayersOk s'.db (s'.top :: s'.below)
  | [], s, M, h, hv, _ => ⟨s, rfl, M, rfl, fun o => (accessCoin_ok h).1.trans (congrFun hv o), h⟩
  | op :: ops, s, M, h, hv, ⟨hop, hrest⟩ => by
    obtain ⟨s1, hs1, M1, hM1, h1, hv1⟩ := step_refines h hv hop
    obtain ⟨s', hs', M', hM', hacc, hok⟩ := run_refines_coinsView ops s1 M1 h1 hv1 (hrest s1 hs1)
    refine ⟨s', ?_, M', ?_, hacc, hok⟩
    · simp only [CoinsStack.run, List.foldlM_cons, hs1]
      exact hs'
    · simp only [flatRun, List.foldlM_cons, hM1]
      exact hM'

end Run

namespace CacheRuns

def outpoint : COutPoint := ⟨1, 0⟩

/-- An unspent coin with a spendable (empty) script. -/
def coin : Coin := ⟨⟨5, []⟩, false, false, 1, 0⟩

/-- Two empty caches over a database that stores nothing. -/
def fresh : CoinsStack := ⟨CCoinsViewCache.empty, [CCoinsViewCache.empty], ⟨fun _ => none, 0⟩⟩

def freshView : CoinsView := ⟨viewOf fresh.db (fresh.top :: fresh.below), 0⟩

/-- Add a coin, flush it into the middle layer, give that layer a best block, sync it into the
database, and read the coin back through the top. -/
def addFlushSync : List CoinsOp :=
  [.addCoin 0 outpoint coin false, .flush 0, .setBestBlock 1 1, .sync 1, .accessCoin 0 outpoint]

theorem validRun_addFlushSync : ValidRun fresh addFlushSync := by
  refine ⟨⟨rfl, rfl, fun _ => by decide⟩, fun s1 h1 => ?_⟩
  cases h1
  refine ⟨(fun h => by cases h), fun s2 h2 => ?_⟩
  cases h2
  refine ⟨trivial, fun s3 h3 => ?_⟩
  cases h3
  refine ⟨(fun _ => by decide), fun s4 h4 => ?_⟩
  cases h4
  exact ⟨trivial, fun _ _ => trivial⟩

theorem layersOk_fresh : LayersOk fresh.db (fresh.top :: fresh.below) :=
  ⟨cacheOk_empty _, cacheOk_empty _, fun h => by cases h⟩

theorem run_refines_coinsView_addFlushSync :
    ∃ s', fresh.run addFlushSync = .ok s' ∧ ∃ M', flatRun freshView addFlushSync = .ok M' ∧
      (∀ o, (accessCoin s'.top s'.below s'.db o).1 = M'.coins o) ∧ LayersOk s'.db (s'.top :: s'.below) :=
  run_refines_coinsView addFlushSync fresh freshView layersOk_fresh rfl validRun_addFlushSync

/-- The database stores `coin`, under one or two empty caches. -/
def stored : CCoinsViewDB := ⟨fun o => if o = outpoint then some coin else none, 1⟩

def twoLayers : CoinsStack := ⟨CCoinsViewCache.empty, [CCoinsViewCache.empty], stored⟩

def threeLayers : CoinsStack :=
  ⟨CCoinsViewCache.empty, [CCoinsViewCache.empty, CCoinsViewCache.empty], stored⟩

/-- The plain map of what the stack reports at the start: `coin` at `outpoint`. -/
def storedView : CoinsView := ⟨viewOf stored [], 1⟩

/-- The top caches the coin; then the middle layer spends it under the top. -/
def spendBelowTop : List CoinsOp := [.accessCoin 0 outpoint, .spendCoin 1 outpoint]

/-- Spend the coin at the top and flush the spend into the bottom cache, add the coin again
(`FRESH`, as the view is spent) and flush it into the middle layer, then spend it at the top:
the middle layer's entry is still `FRESH`. -/
def freshOverStored : List CoinsOp :=
  [.spendCoin 0 outpoint, .flush 0, .flush 1, .addCoin 0 outpoint coin false, .flush 0,
    .spendCoin 0 outpoint]

def middleEntry (s : CoinsStack) : Option CCoinsCacheEntry :=
  s.below.head?.bind (·.cacheCoins.lookup outpoint)

end CacheRuns

open CacheRuns in
theorem cacheStack_diverges :
    ((twoLayers.run spendBelowTop).toOption.map fun s => (accessCoin s.top s.below s.db outpoint).1) =
        some coin ∧
      ((flatRun storedView spendBelowTop).toOption.map fun M => M.coins outpoint) = some Coin.empty ∧
    ((threeLayers.run freshOverStored).toOption.map fun s => (middleEntry s).map (·.fresh)) =
        some (some true) ∧
      ((threeLayers.run (freshOverStored ++ [.flush 0])).toOption.map fun s =>
        (middleEntry s, s.db.coins outpoint)) = some (none, some coin) ∧
      coin.isSpent = false := by
  decide +kernel

end BlackcoinMore.CoinsCache
