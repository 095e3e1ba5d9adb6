import BlackcoinMore.CoinsCache

/-! What each layer of the cache stack keeps true of the layers below it (`LayersOk`), read
against the view the layers present (`viewOf`): the nearest entry for an outpoint, else the
database. The flag rules of `coins.h` are `EntryOk`: a `FRESH` entry sits over a spent view, a
clean one is a copy of the view below, a spent one is `coinEmpty`; `cachedCoinsUsage` is the
sum of the entries' usage. `FetchCoin`, `GetCoin`, `AccessCoin`, `HaveCoin`, `Uncache`,
`AddCoin` and `SpendCoin` keep the invariant and change the view as the plain map would. -/
namespace BlackcoinMore.CoinsCache
open Primitives Serialize Coins CCoinsViewCache KeyedFold

section View

/-- The coin the layers `caches` over `db` report for an outpoint, read without fetching: the
entry of the nearest layer that has one, else the coin the database stores, else
`coinEmpty`. -/
def viewOf (db : CCoinsViewDB) : List CCoinsViewCache → COutPoint → Coin
  | [], outpoint => (db.coins outpoint).getD Coin.empty
  | cache :: below, outpoint =>
    match cache.cacheCoins.lookup outpoint with
    | some entry => entry.coin
    | none => viewOf db below outpoint

theorem viewOf_cons_some {db : CCoinsViewDB} {cache : CCoinsViewCache} {below : List CCoinsViewCache}
    {o : COutPoint} {e : CCoinsCacheEntry} (h : cache.cacheCoins.lookup o = some e) :
    viewOf db (cache :: below) o = e.coin := by
  simp only [viewOf, h]

theorem viewOf_cons_none {db : CCoinsViewDB} {cache : CCoinsViewCache} {below : List CCoinsViewCache}
    {o : COutPoint} (h : cache.cacheCoins.lookup o = none) :
    viewOf db (cache :: below) o = viewOf db below o := by
  simp only [viewOf, h]

theorem viewOf_cons (db : CCoinsViewDB) (c : CCoinsViewCache) (b : List CCoinsViewCache) (o : COutPoint) :
    viewOf db (c :: b) o = ((c.cacheCoins.lookup o).map (·.coin)).getD (viewOf db b o) := by
  cases hl : c.cacheCoins.lookup o with
  | none => rw [viewOf_cons_none hl]; rfl
  | some e => rw [viewOf_cons_some hl]; rfl

theorem viewOf_cons_congr {db db' : CCoinsViewDB} {c c' : CCoinsViewCache}
    {b b' : List CCoinsViewCache} {o : COutPoint} (hl : c'.cacheCoins.lookup o = c.cacheCoins.lookup o)
    (hb : viewOf db' b' o = viewOf db b o) : viewOf db' (c' :: b') o = viewOf db (c :: b) o := by
  simp only [viewOf, hl, hb]

/-- The (spent, `DIRTY`, `FRESH`) combinations that `coins.h` allows. -/
def allowedFlags : Bool → Bool → Bool → Bool
  | false, true, true | false, true, false | false, false, false | true, false, true
  | true, true, false => true
  | _, _, _ => false

/-- What an entry at `outpoint` says, given the view `low` of the layers below it. -/
structure EntryOk (low : COutPoint → Coin) (outpoint : COutPoint) (entry : CCoinsCacheEntry) :
    Prop where
  flags : allowedFlags entry.coin.isSpent entry.dirty entry.fresh = true
  spent : entry.coin.isSpent = true → entry.coin = Coin.empty
  fresh : entry.fresh = true → (low outpoint).isSpent = true
  clean : entry.dirty = false → entry.coin = low outpoint

def totalUsage (m : CCoinsMap) : Nat := entrySum (fun _ e => dynamicMemoryUsage e.coin) m.entries

structure CacheOk (low : COutPoint → Coin) (cache : CCoinsViewCache) : Prop where
  entries : ∀ {o e}, cache.cacheCoins.lookup o = some e → EntryOk low o e
  usage : cache.cachedCoinsUsage = totalUsage cache.cacheCoins

theorem cacheOk_empty (low : COutPoint → Coin) : CacheOk low CCoinsViewCache.empty :=
  ⟨fun h => by simp [CCoinsViewCache.empty] at h, rfl⟩

/-- The database stores unspent coins only. -/
def DbOk (db : CCoinsViewDB) : Prop := ∀ {o c}, db.coins o = some c → c.isSpent = false

/-- Every layer is right about the view of the layers below it. -/
def LayersOk (db : CCoinsViewDB) : List CCoinsViewCache → Prop
  | [] => DbOk db
  | cache :: below => CacheOk (viewOf db below) cache ∧ LayersOk db below

/-- A spent coin in the view is `coinEmpty`. -/
theorem viewOf_eq_empty {db : CCoinsViewDB} :
    ∀ {l : List CCoinsViewCache} {o : COutPoint}, LayersOk db l → (viewOf db l o).isSpent = true →
      viewOf db l o = Coin.empty
  | [], o, hdb, hs => by
    simp only [viewOf] at hs ⊢
    cases hc : db.coins o with
    | none => rfl
    | some c =>
      rw [hc, Option.getD_some] at hs
      rw [hdb hc] at hs
      cases hs
  | cache :: below, o, ⟨hc, hb⟩, hs => by
    cases hl : cache.cacheCoins.lookup o with
    | none =>
      rw [viewOf_cons_none hl] at hs ⊢
      exact viewOf_eq_empty hb hs
    | some e =>
      rw [viewOf_cons_some hl] at hs ⊢
      exact (hc.entries hl).spent hs

/-- What `GetCoin` answers for the view: the coin when it is unspent. -/
def answer (c : Coin) : Option Coin := if c.isSpent then none else some c

@[simp] theorem dynamicMemoryUsage_empty : dynamicMemoryUsage Coin.empty = 0 := rfl

end View

section Fetch
variable {db : CCoinsViewDB}

/-- The facts about a `FetchCoin` of `outpoint` at a layer over `below`. -/
structure FetchOk (db : CCoinsViewDB) (cache : CCoinsViewCache) (below : List CCoinsViewCache)
    (o : COutPoint) (r : Option CCoinsCacheEntry × CCoinsViewCache × List CCoinsViewCache) : Prop where
  lookup : r.2.1.cacheCoins.lookup o = r.1
  miss : r.1 = none → (viewOf db r.2.2 o).isSpent = true
  frame : ∀ o', o' ≠ o → r.2.1.cacheCoins.lookup o' = cache.cacheCoins.lookup o'
  below_view : viewOf db r.2.2 = viewOf db below
  below_ok : LayersOk db r.2.2
  cache_ok : CacheOk (viewOf db r.2.2) r.2.1
  view : viewOf db (r.2.1 :: r.2.2) = viewOf db (cache :: below)

theorem cacheOk_of_view_eq {low low' : COutPoint → Coin} {cache : CCoinsViewCache}
    (h : low' = low) (hc : CacheOk low cache) : CacheOk low' cache := h ▸ hc

/-- `FetchCoin` over layers whose `GetCoin` answers the view and keeps it. -/
theorem fetchCoin_ok {cache : CCoinsViewCache} {below : List CCoinsViewCache} {o : COutPoint}
    (hc : CacheOk (viewOf db below) cache) (hb : LayersOk db below)
    (hg1 : (getCoin db below o).1 = answer (viewOf db below o))
    (hg2 : viewOf db (getCoin db below o).2 = viewOf db below)
    (hg3 : LayersOk db (getCoin db below o).2) :
    FetchOk db cache below o (cache.fetchCoin below (getCoin db below o) o) := by
  unfold CCoinsViewCache.fetchCoin
  cases hl : cache.cacheCoins.lookup o with
  | some e => exact ⟨hl, (fun h => by cases h), fun _ _ => rfl, rfl, hb, hc, rfl⟩
  | none =>
    generalize getCoin db below o = g at hg1 hg2 hg3 ⊢
    obtain ⟨r, b'⟩ := g
    simp only at hg1 hg2 hg3 ⊢
    have hc' : CacheOk (viewOf db b') cache := cacheOk_of_view_eq hg2 hc
    have hview : viewOf db (cache :: b') = viewOf db (cache :: below) :=
      funext fun o' => viewOf_cons_congr rfl (by rw [hg2])
    cases r with
    | none =>
      -- the base has no unspent coin: nothing is cached
      have hs : (viewOf db below o).isSpent = true := by
        unfold answer at hg1
        split at hg1
        · assumption
        · cases hg1
      exact ⟨hl, fun _ => by rw [hg2]; exact hs, fun _ _ => rfl, hg2, hg3, hc', hview⟩
    | some tmp =>
      -- the base's coin is cached as a clean copy
      have htmp : tmp = viewOf db below o ∧ tmp.isSpent = false := by
        unfold answer at hg1
        split at hg1
        · cases hg1
        · rename_i hns
          have h := Option.some_inj.mp hg1
          exact ⟨h, by rw [h]; simpa using hns⟩
      obtain ⟨htv, hts⟩ := htmp
      simp only [hts]
      refine ⟨AList.lookup_insert _, (fun h => by cases h), fun o' ho' => AList.lookup_insert_ne ho',
        hg2, hg3, ⟨fun {o' e} he => ?_, ?_⟩, ?_⟩
      · by_cases ho : o' = o
        · subst ho
          rw [AList.lookup_insert, Option.some_inj] at he
          subst he
          exact ⟨by simp [hts, allowedFlags], by simp [hts], by simp, fun _ => by rw [hg2]; exact htv⟩
        · rw [AList.lookup_insert_ne ho] at he
          exact hc'.entries he
      · have hsum := entrySum_insert (fun _ e => dynamicMemoryUsage e.coin) cache.cacheCoins o
          ⟨tmp, false, false⟩
        rw [hl] at hsum
        simp only [Option.elim_none, Nat.add_zero] at hsum
        simp only [totalUsage, hsum, hc.usage]
      · funext o'
        by_cases ho : o' = o
        · subst ho
          rw [viewOf_cons_some (AList.lookup_insert _), viewOf_cons_none hl, htv]
        · exact viewOf_cons_congr (AList.lookup_insert_ne ho) (by rw [hg2])

theorem getCoin_ok : ∀ {l : List CCoinsViewCache} {o : COutPoint}, LayersOk db l →
    (getCoin db l o).1 = answer (viewOf db l o) ∧ viewOf db (getCoin db l o).2 = viewOf db l ∧
      LayersOk db (getCoin db l o).2
  | [], o, hdb => by
    refine ⟨?_, rfl, hdb⟩
    simp only [getCoin, CCoinsViewDB.getCoin, viewOf, answer]
    rcases Option.eq_none_or_eq_some (db.coins o) with hc | ⟨c, hc⟩
    · simp [hc]
    · simp [hc, hdb hc]
  | cache :: below, o, ⟨hc, hb⟩ => by
    obtain ⟨hg1, hg2, hg3⟩ := @getCoin_ok below o hb
    have hf := fetchCoin_ok hc hb hg1 hg2 hg3
    simp only [getCoin]
    generalize cache.fetchCoin below (getCoin db below o) o = r at hf ⊢
    obtain ⟨it, c', b'⟩ := r
    refine ⟨?_, hf.view, hf.cache_ok, hf.below_ok⟩
    rw [← hf.view]
    cases it with
    | none =>
      rw [viewOf_cons_none hf.lookup]
      simp [answer, hf.miss rfl]
    | some e =>
      rw [viewOf_cons_some hf.lookup]
      rfl

end Fetch

section Entries
variable {db : CCoinsViewDB} {low : COutPoint → Coin}

theorem totalUsage_insert (m : CCoinsMap) (o : COutPoint) (e : CCoinsCacheEntry) :
    totalUsage (m.insert o e) + (m.lookup o).elim 0 (fun e => dynamicMemoryUsage e.coin) =
      totalUsage m + dynamicMemoryUsage e.coin :=
  entrySum_insert _ m o e

theorem totalUsage_erase (m : CCoinsMap) (o : COutPoint) :
    totalUsage (m.erase o) + (m.lookup o).elim 0 (fun e => dynamicMemoryUsage e.coin) = totalUsage m :=
  entrySum_erase _ m o

-- The usage counts after the writes of the source, from the usage before.
theorem usage_insert_of_none {m : CCoinsMap} {o : COutPoint} {u : Nat} (hu : u = totalUsage m)
    (hl : m.lookup o = none) (e : CCoinsCacheEntry) :
    u + dynamicMemoryUsage e.coin = totalUsage (m.insert o e) := by
  have h := totalUsage_insert m o e
  rw [hl] at h
  simp only [Option.elim_none, Nat.add_zero] at h
  omega

theorem usage_insert_of_some {m : CCoinsMap} {o : COutPoint} {u : Nat} {e₀ : CCoinsCacheEntry}
    (hu : u = totalUsage m) (hl : m.lookup o = some e₀) (e : CCoinsCacheEntry) :
    u - dynamicMemoryUsage e₀.coin + dynamicMemoryUsage e.coin = totalUsage (m.insert o e) := by
  have h := totalUsage_insert m o e
  have h' := totalUsage_erase m o
  rw [hl] at h h'
  simp only [Option.elim_some] at h h'
  omega

theorem usage_erase_of_some {m : CCoinsMap} {o : COutPoint} {u : Nat} {e₀ : CCoinsCacheEntry}
    (hu : u = totalUsage m) (hl : m.lookup o = some e₀) :
    u - dynamicMemoryUsage e₀.coin = totalUsage (m.erase o) := by
  have h' := totalUsage_erase m o
  rw [hl] at h' 
  simp only [Option.elim_some] at h'
  omega

theorem entries_insert {m : CCoinsMap} {o : COutPoint} {e : CCoinsCacheEntry}
    (hm : ∀ {o e}, m.lookup o = some e → EntryOk low o e) (he : EntryOk low o e) :
    ∀ {o' e'}, (m.insert o e).lookup o' = some e' → EntryOk low o' e' := by
  intro o' e' h
  by_cases ho : o' = o
  · subst ho
    rw [AList.lookup_insert, Option.some_inj] at h
    exact h ▸ he
  · rw [AList.lookup_insert_ne ho] at h
    exact hm h

theorem entries_erase {m : CCoinsMap} {o : COutPoint}
    (hm : ∀ {o e}, m.lookup o = some e → EntryOk low o e) :
    ∀ {o' e'}, (m.erase o).lookup o' = some e' → EntryOk low o' e' := by
  intro o' e' h
  by_cases ho : o' = o
  · subst ho
    rw [AList.lookup_erase] at h
    cases h
  · rw [AList.lookup_erase_ne ho] at h
    exact hm h

theorem viewOf_insert {c c' : CCoinsViewCache} {below : List CCoinsViewCache} {o : COutPoint}
    {e : CCoinsCacheEntry} (h : c'.cacheCoins = c.cacheCoins.insert o e) :
    viewOf db (c' :: below) = Function.update (viewOf db (c :: below)) o e.coin := by
  funext o'
  by_cases ho : o' = o
  · subst ho
    rw [Function.update_self, viewOf_cons_some (by rw [h, AList.lookup_insert])]
  · rw [Function.update_of_ne ho]
    exact viewOf_cons_congr (by rw [h, AList.lookup_insert_ne ho]) rfl

theorem viewOf_erase {c c' : CCoinsViewCache} {below : List CCoinsViewCache} {o : COutPoint}
    (h : c'.cacheCoins = c.cacheCoins.erase o) :
    viewOf db (c' :: below) = Function.update (viewOf db (c :: below)) o (viewOf db below o) := by
  funext o'
  by_cases ho : o' = o
  · subst ho
    rw [Function.update_self, viewOf_cons_none (by rw [h, AList.lookup_erase])]
  · rw [Function.update_of_ne ho]
    exact viewOf_cons_congr (by rw [h, AList.lookup_erase_ne ho]) rfl

end Entries

section LayerCalls
variable {db : CCoinsViewDB} {cache : CCoinsViewCache} {below : List CCoinsViewCache} {o : COutPoint}

theorem fetchCoin_ok' (h : LayersOk db (cache :: below)) :
    FetchOk db cache below o (cache.fetchCoin below (getCoin db below o) o) :=
  have hg := @getCoin_ok db below o h.2
  fetchCoin_ok h.1 h.2 hg.1 hg.2.1 hg.2.2

/-- `AccessCoin` reports the view, and fetching keeps the view and the invariant. -/
theorem accessCoin_ok (h : LayersOk db (cache :: below)) :
    (accessCoin cache below db o).1 = viewOf db (cache :: below) o ∧
      LayersOk db ((accessCoin cache below db o).2.1 :: (accessCoin cache below db o).2.2) ∧
      viewOf db ((accessCoin cache below db o).2.1 :: (accessCoin cache below db o).2.2) =
        viewOf db (cache :: below) := by
  have hf := @fetchCoin_ok' db cache below o h
  simp only [accessCoin]
  generalize cache.fetchCoin below (getCoin db below o) o = r at hf ⊢
  obtain ⟨it, c', b'⟩ := r
  refine ⟨?_, ⟨hf.cache_ok, hf.below_ok⟩, hf.view⟩
  rw [← hf.view]
  cases it with
  | none =>
    rw [viewOf_cons_none hf.lookup]
    exact (viewOf_eq_empty hf.below_ok (hf.miss rfl)).symm
  | some e =>
    rw [viewOf_cons_some hf.lookup]
    rfl

theorem uncache_ok (h : CacheOk (viewOf db below) cache) :
    CacheOk (viewOf db below) (cache.uncache o) ∧
      viewOf db (cache.uncache o :: below) = viewOf db (cache :: below) := by
  unfold CCoinsViewCache.uncache
  cases hl : cache.cacheCoins.lookup o with
  | none => exact ⟨h, rfl⟩
  | some e =>
    simp only
    split_ifs with hflags
    · -- an entry with no flag is a copy of the view below it
      have he := h.entries hl
      have hnf : e.dirty = false ∧ e.fresh = false := by simpa using hflags
      have hclean : e.coin = viewOf db below o := he.clean hnf.1
      refine ⟨⟨entries_erase h.entries, usage_erase_of_some h.usage hl⟩, ?_⟩
      rw [viewOf_erase rfl, Function.update_eq_self_iff, viewOf_cons_some hl, hclean]
    · exact ⟨h, rfl⟩

theorem allowedFlags_unspent_dirty (fresh : Bool) : allowedFlags false true fresh = true := by
  cases fresh <;> rfl

/-- `AddCoin` at a layer, under the caller's promise: an unspent coin, and no unspent coin in
the view when overwriting is not allowed. -/
theorem addCoin_ok (h : CacheOk (viewOf db below) cache) {coin : Coin} {p : Bool}
    (hcoin : coin.isSpent = false) (hp : p = false → (viewOf db (cache :: below) o).isSpent = true) :
    ∃ c', cache.addCoin o coin p = .ok c' ∧ CacheOk (viewOf db below) c' ∧
      viewOf db (c' :: below) =
        if isUnspendable coin.out.scriptPubKey then viewOf db (cache :: below)
        else Function.update (viewOf db (cache :: below)) o coin := by
  unfold CCoinsViewCache.addCoin
  rw [if_neg (by simp [hcoin])]
  by_cases hu : isUnspendable coin.out.scriptPubKey = true
  · rw [if_pos hu, if_pos hu]
    exact ⟨cache, rfl, h, rfl⟩
  · rw [if_neg hu, if_neg hu]
    cases hl : cache.cacheCoins.lookup o with
    | none =>
      -- a new entry: `FRESH` unless overwriting was allowed
      have hfresh : (!p && !false) = true → (viewOf db below o).isSpent = true := by
        intro hpf
        rw [← viewOf_cons_none hl]
        exact hp (by simpa using hpf)
      simp only [Coin.isSpent_empty, Bool.not_true, Bool.and_false, Bool.false_eq_true, if_false,
        Bool.false_or, if_true]
      refine ⟨_, rfl, ⟨entries_insert h.entries ⟨?_, ?_, hfresh, ?_⟩,
        usage_insert_of_none h.usage hl ⟨coin, true, _⟩⟩, @viewOf_insert db cache _ below o ⟨coin, true, _⟩ rfl⟩
      · rw [hcoin]
        exact allowedFlags_unspent_dirty _
      · simp [hcoin]
      · intro hd
        cases hd
    | some it =>
      -- overwriting a spent entry, or an unspent one when the caller allows it
      have hne : (!p && !it.coin.isSpent) = false := by
        cases p
        · have := hp rfl
          rw [viewOf_cons_some hl] at this
          simp [this]
        · rfl
      have hfresh : (it.fresh || (!p && !it.dirty)) = true → (viewOf db below o).isSpent = true := by
        intro hf
        rcases Bool.or_eq_true_iff.mp hf with hf | hf
        · exact (h.entries hl).fresh hf
        · have hpd : p = false ∧ it.dirty = false := by simpa using hf
          have hs := hp hpd.1
          rw [viewOf_cons_some hl] at hs
          rw [← (h.entries hl).clean hpd.2]
          exact hs
      simp only [hne, Bool.false_eq_true, if_false]
      refine ⟨_, rfl, ⟨entries_insert h.entries ⟨?_, ?_, hfresh, ?_⟩,
        usage_insert_of_some h.usage hl ⟨coin, true, _⟩⟩, @viewOf_insert db cache _ below o ⟨coin, true, _⟩ rfl⟩
      · rw [hcoin]
        exact allowedFlags_unspent_dirty _
      · simp [hcoin]
      · intro hd
        cases hd

/-- `SpendCoin` at a layer: the view reports the coin spent, and the invariant holds. -/
theorem spendCoin_ok (h : LayersOk db (cache :: below)) :
    LayersOk db ((spendCoin cache below db o).2.1 :: (spendCoin cache below db o).2.2) ∧
      viewOf db ((spendCoin cache below db o).2.1 :: (spendCoin cache below db o).2.2) =
        Function.update (viewOf db (cache :: below)) o Coin.empty := by
  have hf := @fetchCoin_ok' db cache below o h
  simp only [spendCoin]
  generalize cache.fetchCoin below (getCoin db below o) o = r at hf ⊢
  obtain ⟨it, c', b'⟩ := r
  rw [← hf.view]
  cases it with
  | none =>
    -- nothing to spend: the view already reports `coinEmpty`
    refine ⟨⟨hf.cache_ok, hf.below_ok⟩, ?_⟩
    rw [eq_comm, Function.update_eq_self_iff, viewOf_cons_none hf.lookup]
    exact (viewOf_eq_empty hf.below_ok (hf.miss rfl)).symm
  | some e =>
    simp only
    have hc := hf.cache_ok
    split_ifs with hfr
    · -- a FRESH entry goes: the view below has no unspent coin either
      refine ⟨⟨⟨entries_erase hc.entries, usage_erase_of_some hc.usage hf.lookup⟩, hf.below_ok⟩, ?_⟩
      rw [viewOf_erase rfl]
      congr 1
      exact viewOf_eq_empty hf.below_ok ((hc.entries hf.lookup).fresh hfr)
    · have hfr' : e.fresh = false := by simpa using hfr
      refine ⟨⟨⟨entries_insert hc.entries ⟨?_, fun _ => rfl, fun hf' => ?_, fun hd => ?_⟩, ?_⟩,
        hf.below_ok⟩, @viewOf_insert db c' _ b' o ⟨Coin.empty, true, e.fresh⟩ rfl⟩
      · simp only [hfr']
        rfl
      · simp only [hfr'] at hf'
        cases hf'
      · cases hd
      · have hu := usage_insert_of_some hc.usage hf.lookup ⟨Coin.empty, true, e.fresh⟩
        simpa using hu

end LayerCalls

end BlackcoinMore.CoinsCache
