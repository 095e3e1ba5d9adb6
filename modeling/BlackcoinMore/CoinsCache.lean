import BlackcoinMore.Coins
import BlackcoinMore.KeyedFold

/-! The UTXO cache stack of `coins.{h,cpp}` over the coins database of `txdb.cpp`: layers of
`CCoinsViewCache`, each backed by the one below it, the last by `CCoinsViewDB`. A layer holds
`CCoinsCacheEntry`s flagged `DIRTY` and `FRESH` and counts their memory in
`cachedCoinsUsage`. `FetchCoin` pulls a missing coin up through the layers; `BatchWrite`
merges a layer into its base on `Flush` and `Sync`. The unordered cache map is an association
list, visited in its list order; the database is the map from outpoints to the coins it
stores. -/
namespace BlackcoinMore.CoinsCache
open Primitives Serialize Coins

/-- `CCoinsCacheEntry`: the coin and the flags `DIRTY` (it may differ from the base) and
`FRESH` (the base has no unspent coin here). -/
structure CCoinsCacheEntry where
  coin : Coin
  dirty : Bool
  fresh : Bool
  deriving DecidableEq, Repr

abbrev CCoinsMap := AList fun _ : COutPoint => CCoinsCacheEntry

/-- `memusage::MallocUsage` on a 64-bit platform. -/
def mallocUsage (alloc : Nat) : Nat := if alloc = 0 then 0 else (alloc + 31) >>> 4 <<< 4

/-- `Coin::DynamicMemoryUsage`: the heap block of the script, a `prevector<28>` that moves a
longer script to the heap, taken at the capacity of its length. -/
def dynamicMemoryUsage (coin : Coin) : Nat :=
  mallocUsage (if coin.out.scriptPubKey.length ≤ 28 then 0 else coin.out.scriptPubKey.length)

/-- `CCoinsViewDB`: the coins it stores and the best block. -/
structure CCoinsViewDB where
  coins : COutPoint → Option Coin
  hashBestChain : Uint256

namespace CCoinsViewDB

def getCoin (db : CCoinsViewDB) (outpoint : COutPoint) : Option Coin := db.coins outpoint

/-- One round of the loop of `CCoinsViewDB::BatchWrite`: a dirty entry is written, or erased
when its coin is spent. -/
def batchWriteStep (erase : Bool) (s : CCoinsViewDB × CCoinsMap)
    (x : (_ : COutPoint) × CCoinsCacheEntry) : CCoinsViewDB × CCoinsMap :=
  let (db, mapCoins) := s
  let stored := if x.2.coin.isSpent then none else some x.2.coin
  let db := if x.2.dirty then { db with coins := Function.update db.coins x.1 stored } else db
  (db, if erase then mapCoins.erase x.1 else mapCoins)

/-- `CCoinsViewDB::BatchWrite`. The partial batches and the head-block markers only matter
across a crash. -/
def batchWrite (db : CCoinsViewDB) (mapCoins : CCoinsMap) (hashBlock : Uint256) (erase : Bool) :
    Except String (CCoinsViewDB × CCoinsMap) :=
  if hashBlock = 0 then .error "Assertion `!hashBlock.IsNull()' failed."
  else
    let (db, mapCoins) := mapCoins.entries.foldl (batchWriteStep erase) (db, mapCoins)
    .ok ({ db with hashBestChain := hashBlock }, mapCoins)

end CCoinsViewDB

structure CCoinsViewCache where
  hashBlock : Uint256
  cacheCoins : CCoinsMap
  cachedCoinsUsage : Nat

namespace CCoinsViewCache

/-- `CCoinsViewCache(baseIn)`: no entries and a null best block. -/
def empty : CCoinsViewCache := ⟨0, ∅, 0⟩

/-- `FetchCoin`: the entry for `outpoint`, pulled from the base on a miss. `base` is the
answer of the base's `GetCoin` with the layers below as that call leaves them. -/
def fetchCoin (cache : CCoinsViewCache) (below : List CCoinsViewCache)
    (base : Option Coin × List CCoinsViewCache) (outpoint : COutPoint) :
    Option CCoinsCacheEntry × CCoinsViewCache × List CCoinsViewCache :=
  match cache.cacheCoins.lookup outpoint with
  | some entry => (some entry, cache, below)
  | none =>
    match base with
    | (none, below) => (none, cache, below)
    | (some tmp, below) =>
      -- The parent only has an empty entry for this outpoint; we can consider our version as
      -- fresh.
      let entry : CCoinsCacheEntry := ⟨tmp, false, tmp.isSpent⟩
      (some entry,
        { cache with
          cacheCoins := cache.cacheCoins.insert outpoint entry
          cachedCoinsUsage := cache.cachedCoinsUsage + dynamicMemoryUsage tmp }, below)

def addCoin (cache : CCoinsViewCache) (outpoint : COutPoint) (coin : Coin) (possible_overwrite : Bool) :
    Except String CCoinsViewCache :=
  if coin.isSpent then .error "Assertion `!coin.IsSpent()' failed."
  else if isUnspendable coin.out.scriptPubKey then .ok cache
  else
    -- `emplace` finds the entry, or inserts `Coin()` with no flags
    let (it, inserted) : CCoinsCacheEntry × Bool :=
      match cache.cacheCoins.lookup outpoint with
      | some it => (it, false)
      | none => (⟨Coin.empty, false, false⟩, true)
    let cachedCoinsUsage :=
      if inserted then cache.cachedCoinsUsage else cache.cachedCoinsUsage - dynamicMemoryUsage it.coin
    if !possible_overwrite && !it.coin.isSpent then
      .error "Attempted to overwrite an unspent coin (when possible_overwrite is false)"
    else
      -- A spent DIRTY coin re-added here is not FRESH: its spentness has not reached the parent.
      let fresh := !possible_overwrite && !it.dirty
      .ok { cache with
        cacheCoins := cache.cacheCoins.insert outpoint ⟨coin, true, it.fresh || fresh⟩
        cachedCoinsUsage := cachedCoinsUsage + dynamicMemoryUsage coin }

/-- One round of the `BatchWrite` loop: the child's entry for `outpoint` merged into this
cache. -/
def batchWriteEntry (cache : CCoinsViewCache) (outpoint : COutPoint) (entry : CCoinsCacheEntry) :
    Except String CCoinsViewCache :=
  -- Ignore non-dirty entries (optimization).
  if !entry.dirty then .ok cache
  else
    match cache.cacheCoins.lookup outpoint with
    | none =>
      -- The parent cache does not have an entry, while the child cache does. We can ignore it
      -- if it's both spent and FRESH in the child.
      if entry.fresh && entry.coin.isSpent then .ok cache
      else .ok { cache with
        cacheCoins := cache.cacheCoins.insert outpoint ⟨entry.coin, true, entry.fresh⟩
        cachedCoinsUsage := cache.cachedCoinsUsage + dynamicMemoryUsage entry.coin }
    | some us =>
      if entry.fresh && !us.coin.isSpent then
        .error "FRESH flag misapplied to coin that exists in parent cache"
      else if us.fresh && entry.coin.isSpent then
        -- The grandparent cache does not have an entry, and the coin has been spent.
        .ok { cache with
          cacheCoins := cache.cacheCoins.erase outpoint
          cachedCoinsUsage := cache.cachedCoinsUsage - dynamicMemoryUsage us.coin }
      else .ok { cache with
        cacheCoins := cache.cacheCoins.insert outpoint ⟨entry.coin, true, us.fresh⟩
        cachedCoinsUsage := cache.cachedCoinsUsage - dynamicMemoryUsage us.coin +
          dynamicMemoryUsage entry.coin }

/-- One round of the loop of `BatchWrite`; `erase` removes the entry from the child's map. -/
def batchWriteStep (erase : Bool) (s : CCoinsViewCache × CCoinsMap)
    (x : (_ : COutPoint) × CCoinsCacheEntry) : Except String (CCoinsViewCache × CCoinsMap) := do
  let cache ← s.1.batchWriteEntry x.1 x.2
  pure (cache, if erase then s.2.erase x.1 else s.2)

def batchWrite (cache : CCoinsViewCache) (mapCoins : CCoinsMap) (hashBlockIn : Uint256) (erase : Bool) :
    Except String (CCoinsViewCache × CCoinsMap) := do
  let (cache, mapCoins) ← mapCoins.entries.foldlM (batchWriteStep erase) (cache, mapCoins)
  pure ({ cache with hashBlock := hashBlockIn }, mapCoins)

def uncache (cache : CCoinsViewCache) (outpoint : COutPoint) : CCoinsViewCache :=
  match cache.cacheCoins.lookup outpoint with
  | some it =>
    if !it.dirty && !it.fresh then
      { cache with
        cacheCoins := cache.cacheCoins.erase outpoint
        cachedCoinsUsage := cache.cachedCoinsUsage - dynamicMemoryUsage it.coin }
    else cache
  | none => cache

def setBestBlock (cache : CCoinsViewCache) (hashBlockIn : Uint256) : CCoinsViewCache :=
  { cache with hashBlock := hashBlockIn }

/-- The round of the loop of `Sync` after the write: a spent coin leaves the cache, an unspent
one keeps no flag. -/
def syncEntry (cache : CCoinsViewCache) (outpoint : COutPoint) (entry : CCoinsCacheEntry) :
    CCoinsViewCache :=
  if entry.coin.isSpent then
    { cache with
      cacheCoins := cache.cacheCoins.erase outpoint
      cachedCoinsUsage := cache.cachedCoinsUsage - dynamicMemoryUsage entry.coin }
  else { cache with cacheCoins := cache.cacheCoins.insert outpoint ⟨entry.coin, false, false⟩ }

end CCoinsViewCache

open CCoinsViewCache

/-- `GetCoin` of the view that the layers `caches` over `db` present: the coin when it is
unspent, and the layers as their `FetchCoin`s leave them. -/
def getCoin (db : CCoinsViewDB) : List CCoinsViewCache → COutPoint → Option Coin × List CCoinsViewCache
  | [], outpoint => (db.getCoin outpoint, [])
  | cache :: below, outpoint =>
    let (it, cache, below) := cache.fetchCoin below (getCoin db below outpoint) outpoint
    (it.bind fun entry => if entry.coin.isSpent then none else some entry.coin, cache :: below)

/-- A layer, the layers below it, and the database: what an operation on the layer changes. -/
abbrev Layers := CCoinsViewCache × List CCoinsViewCache × CCoinsViewDB

section LayerOps
variable (cache : CCoinsViewCache) (below : List CCoinsViewCache) (db : CCoinsViewDB)

/-- `SpendCoin` with a `moveout`: the coin moved out when there was an entry. -/
def spendCoin (outpoint : COutPoint) : Option Coin × CCoinsViewCache × List CCoinsViewCache :=
  let (it, cache, below) := cache.fetchCoin below (getCoin db below outpoint) outpoint
  match it with
  | none => (none, cache, below)
  | some it =>
    let cachedCoinsUsage := cache.cachedCoinsUsage - dynamicMemoryUsage it.coin
    if it.fresh then
      (some it.coin, { cache with cacheCoins := cache.cacheCoins.erase outpoint, cachedCoinsUsage }, below)
    else
      (some it.coin,
        { cache with
          cacheCoins := cache.cacheCoins.insert outpoint ⟨Coin.empty, true, it.fresh⟩
          cachedCoinsUsage }, below)

/-- `AccessCoin`: the entry's coin, or `coinEmpty`. -/
def accessCoin (outpoint : COutPoint) : Coin × CCoinsViewCache × List CCoinsViewCache :=
  let (it, cache, below) := cache.fetchCoin below (getCoin db below outpoint) outpoint
  ((it.map (·.coin)).getD Coin.empty, cache, below)

def haveCoin (outpoint : COutPoint) : Bool × CCoinsViewCache × List CCoinsViewCache :=
  let (it, cache, below) := cache.fetchCoin below (getCoin db below outpoint) outpoint
  (it.any fun entry => !entry.coin.isSpent, cache, below)

/-- The `BatchWrite` of the base of a layer: the next layer, or the database. -/
def baseBatchWrite (mapCoins : CCoinsMap) (hashBlock : Uint256) (erase : Bool) :
    Except String (CCoinsMap × List CCoinsViewCache × CCoinsViewDB) :=
  match below with
  | [] => do
    let (db, mapCoins) ← db.batchWrite mapCoins hashBlock erase
    pure (mapCoins, [], db)
  | base :: rest => do
    let (base, mapCoins) ← base.batchWrite mapCoins hashBlock erase
    pure (mapCoins, base :: rest, db)

def flush : Except String Layers := do
  let (cacheCoins, below, db) ← baseBatchWrite below db cache.cacheCoins cache.hashBlock true
  -- BatchWrite must erase all cacheCoins elements when erase=true.
  if !cacheCoins.entries.isEmpty then throw "Not all cached coins were erased"
  pure ({ cache with cacheCoins, cachedCoinsUsage := 0 }, below, db)

/-- `Sync`: write to the base without erasing, then drop the spent coins and clear the flags
of the others. -/
def sync : Except String Layers := do
  let (cacheCoins, below, db) ← baseBatchWrite below db cache.cacheCoins cache.hashBlock false
  let cache := cacheCoins.entries.foldl (fun cache x => cache.syncEntry x.1 x.2) { cache with cacheCoins }
  pure (cache, below, db)

end LayerOps

/-- A stack of caches: the top layer, the layers below it (nearest first), and the
database. -/
structure CoinsStack where
  top : CCoinsViewCache
  below : List CCoinsViewCache
  db : CCoinsViewDB

/-- The calls on one layer of the stack, layer 0 being the top. `accessCoin` stands for
`AccessCoin`, `GetCoin` and `HaveCoin`, which change the layers alike. -/
inductive CoinsOp
  | addCoin (layer : Nat) (outpoint : COutPoint) (coin : Coin) (possible_overwrite : Bool)
  | spendCoin (layer : Nat) (outpoint : COutPoint)
  | accessCoin (layer : Nat) (outpoint : COutPoint)
  | uncache (layer : Nat) (outpoint : COutPoint)
  | setBestBlock (layer : Nat) (hashBlock : Uint256)
  | flush (layer : Nat)
  | sync (layer : Nat)
  deriving Repr

namespace CoinsOp

def layer : CoinsOp → Nat
  | .addCoin k _ _ _ | .spendCoin k _ | .accessCoin k _ | .uncache k _ | .setBestBlock k _
  | .flush k | .sync k => k

/-- What the call does to its layer, the layers below and the database. -/
def apply : CoinsOp → CCoinsViewCache → List CCoinsViewCache → CCoinsViewDB → Except String Layers
  | .addCoin _ outpoint coin possible_overwrite, cache, below, db => do
    let cache ← cache.addCoin outpoint coin possible_overwrite
    pure (cache, below, db)
  | .spendCoin _ outpoint, cache, below, db =>
    let (_, cache, below) := CoinsCache.spendCoin cache below db outpoint
    pure (cache, below, db)
  | .accessCoin _ outpoint, cache, below, db =>
    let (_, cache, below) := CoinsCache.accessCoin cache below db outpoint
    pure (cache, below, db)
  | .uncache _ outpoint, cache, below, db => pure (cache.uncache outpoint, below, db)
  | .setBestBlock _ hashBlock, cache, below, db => pure (cache.setBestBlock hashBlock, below, db)
  | .flush _, cache, below, db => CoinsCache.flush cache below db
  | .sync _, cache, below, db => CoinsCache.sync cache below db

end CoinsOp

/-- Run `f` on layer `k` of `cache :: below`, keeping the layers above it; a layer past the
bottom is not there to call. -/
def atLayer (f : CCoinsViewCache → List CCoinsViewCache → CCoinsViewDB → Except String Layers) :
    Nat → CCoinsViewCache → List CCoinsViewCache → CCoinsViewDB → Except String Layers
  | 0, cache, below, db => f cache below db
  | _ + 1, cache, [], db => .ok (cache, [], db)
  | k + 1, cache, next :: below, db => do
    let (next, below, db) ← atLayer f k next below db
    pure (cache, next :: below, db)

namespace CoinsStack

def step (s : CoinsStack) (op : CoinsOp) : Except String CoinsStack := do
  let (top, below, db) ← atLayer op.apply op.layer s.top s.below s.db
  pure ⟨top, below, db⟩

def run (s : CoinsStack) (ops : List CoinsOp) : Except String CoinsStack := ops.foldlM step s

end CoinsStack

end BlackcoinMore.CoinsCache
