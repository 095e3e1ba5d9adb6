import BlackcoinMore.CoinsCacheInvariant
import BlackcoinMore.ExceptFold

/-! `BatchWrite`, `Flush` and `Sync`. Each round of the `BatchWrite` loop reads and writes the
parent only at its own outpoint, so the loop is taken key by key (`KeyedFold`): at a key of the
child the parent ends as `mergeEntry` of the two entries, which never throws the `FRESH` error
and leaves the parent reporting what the child reported. The database's loop is the same with
`storedAfter`. A flush or a sync then leaves the layer's view where it was. -/
namespace BlackcoinMore.CoinsCache
open Primitives Serialize Coins CCoinsViewCache KeyedFold

section Merge
variable {db : CCoinsViewDB}

/-- What one round of `BatchWrite` leaves in the parent at its key, from the child's entry and
the parent's. -/
def mergeEntry (entry : CCoinsCacheEntry) : Option CCoinsCacheEntry → Except String (Option CCoinsCacheEntry)
  | none =>
    if !entry.dirty || (entry.fresh && entry.coin.isSpent) then .ok none
    else .ok (some ⟨entry.coin, true, entry.fresh⟩)
  | some us =>
    if !entry.dirty then .ok (some us)
    else if entry.fresh && !us.coin.isSpent then
      .error "FRESH flag misapplied to coin that exists in parent cache"
    else if us.fresh && entry.coin.isSpent then .ok none
    else .ok (some ⟨entry.coin, true, us.fresh⟩)

theorem batchWriteEntry_lookup (cache : CCoinsViewCache) (o : COutPoint) (e : CCoinsCacheEntry) :
    (cache.batchWriteEntry o e).map (·.cacheCoins.lookup o) = mergeEntry e (cache.cacheCoins.lookup o) := by
  unfold CCoinsViewCache.batchWriteEntry
  cases hd : e.dirty
  · -- a clean entry leaves the parent alone
    cases hl : cache.cacheCoins.lookup o <;> simp [mergeEntry, hd, hl, Except.map]
  · cases hl : cache.cacheCoins.lookup o with
    | none =>
      by_cases hfs : (e.fresh && e.coin.isSpent) = true <;>
        simp [mergeEntry, hd, hl, hfs, Except.map, AList.lookup_insert]
    | some us =>
      simp only [mergeEntry, hd, Bool.not_true, Bool.false_eq_true, if_false]
      split_ifs <;> simp [Except.map, AList.lookup_insert, AList.lookup_erase]

theorem batchWriteEntry_frame {cache c' : CCoinsViewCache} {o o' : COutPoint} {e : CCoinsCacheEntry}
    (h : cache.batchWriteEntry o e = .ok c') (ho : o' ≠ o) :
    c'.cacheCoins.lookup o' = cache.cacheCoins.lookup o' := by
  unfold CCoinsViewCache.batchWriteEntry at h
  split_ifs at h <;> (try split at h) <;> (try split_ifs at h) <;> cases h <;>
    simp [AList.lookup_insert_ne ho, AList.lookup_erase_ne ho]

theorem batchWriteEntry_usage {cache c' : CCoinsViewCache} {o : COutPoint} {e : CCoinsCacheEntry}
    (hu : cache.cachedCoinsUsage = totalUsage cache.cacheCoins) (h : cache.batchWriteEntry o e = .ok c') :
    c'.cachedCoinsUsage = totalUsage c'.cacheCoins := by
  unfold CCoinsViewCache.batchWriteEntry at h
  cases hd : e.dirty
  · simp only [hd, Bool.not_false, if_true] at h
    cases h
    exact hu
  · cases hl : cache.cacheCoins.lookup o with
    | none =>
      simp only [hd, hl, Bool.not_true, Bool.false_eq_true, if_false] at h
      split_ifs at h
      · cases h
        exact hu
      · cases h
        exact usage_insert_of_none hu hl _
    | some us =>
      simp only [hd, hl, Bool.not_true, Bool.false_eq_true, if_false] at h
      split_ifs at h
      · cases h
        exact usage_erase_of_some hu hl
      · cases h
        exact usage_insert_of_some hu hl _

theorem allowedFlags_dirty (spent fresh : Bool) :
    allowedFlags spent true fresh = true ↔ ¬(spent = true ∧ fresh = true) := by
  cases spent <;> cases fresh <;> decide

/-- One round of `BatchWrite` at its key: it succeeds, what it leaves is right about the view
of the grandparent, and the parent then reports what the child reported. `V` is the view of the
parent, `low` the view below the parent. -/
theorem mergeEntry_ok {low V : COutPoint → Coin} {o : COutPoint} {e : CCoinsCacheEntry}
    {us : Option CCoinsCacheEntry} (he : EntryOk V o e) (hV : V o = (us.map (·.coin)).getD (low o))
    (hus : ∀ u, us = some u → EntryOk low o u) (hlow : (low o).isSpent = true → low o = Coin.empty) :
    ∃ v, mergeEntry e us = .ok v ∧ (∀ u, v = some u → EntryOk low o u) ∧
      (v.map (·.coin)).getD (low o) = e.coin := by
  cases us with
  | none =>
    simp only [Option.map_none, Option.getD_none] at hV
    by_cases hd : e.dirty = true
    · by_cases hfs : e.fresh = true ∧ e.coin.isSpent = true
      · -- spent and FRESH in the child: nothing to write, the grandparent has no coin either
        refine ⟨none, by simp [mergeEntry, hd, hfs], (fun _ h => by cases h), ?_⟩
        rw [Option.map_none, Option.getD_none, he.spent hfs.2]
        exact hlow (hV ▸ he.fresh hfs.1)
      · refine ⟨some ⟨e.coin, true, e.fresh⟩, by simp [mergeEntry, hd, hfs], ?_, rfl⟩
        rintro u ⟨⟩
        exact ⟨(allowedFlags_dirty _ _).mpr (fun h => hfs ⟨h.2, h.1⟩), he.spent,
          fun hf => hV ▸ he.fresh hf, fun h => by cases h⟩
    · have hd' : e.dirty = false := by simpa using hd
      refine ⟨none, by simp [mergeEntry, hd'], (fun _ h => by cases h), ?_⟩
      rw [Option.map_none, Option.getD_none, ← hV, he.clean hd']
  | some u =>
    simp only [Option.map_some, Option.getD_some] at hV
    have hu := hus u rfl
    by_cases hd : e.dirty = true
    · -- a FRESH child entry sees the parent's coin spent
      have hnf : ¬(e.fresh = true ∧ u.coin.isSpent = false) := by
        rintro ⟨hf, hs⟩
        have := he.fresh hf
        rw [hV, hs] at this
        cases this
      by_cases hfs : u.fresh = true ∧ e.coin.isSpent = true
      · refine ⟨none, by simp [mergeEntry, hd, hfs, hnf], (fun _ h => by cases h), ?_⟩
        rw [Option.map_none, Option.getD_none, he.spent hfs.2]
        exact hlow (hu.fresh hfs.1)
      · refine ⟨some ⟨e.coin, true, u.fresh⟩, by simp [mergeEntry, hd, hfs, hnf], ?_, rfl⟩
        rintro u' ⟨⟩
        exact ⟨(allowedFlags_dirty _ _).mpr (fun h => hfs ⟨h.2, h.1⟩), he.spent, hu.fresh,
          fun h => by cases h⟩
    · have hd' : e.dirty = false := by simpa using hd
      refine ⟨some u, by simp [mergeEntry, hd'], fun u' h => Option.some_inj.mp h ▸ hu, ?_⟩
      rw [Option.map_some, Option.getD_some, ← hV, he.clean hd']

end Merge

section BatchWrite
variable {db : CCoinsViewDB}

theorem batchWriteStep_pointwise (erase : Bool) :
    Pointwise (CCoinsViewCache.batchWriteStep erase)
      (fun o (s : CCoinsViewCache × CCoinsMap) => (s.1.cacheCoins.lookup o, s.2.lookup o))
      (fun _ e v => (mergeEntry e v.1).map (·, if erase then none else v.2)) where
  at_key s x := by
    have h := batchWriteEntry_lookup s.1 x.1 x.2
    unfold CCoinsViewCache.batchWriteStep
    cases hb : s.1.batchWriteEntry x.1 x.2 with
    | error msg =>
      rw [hb] at h
      rw [← h]
      rfl
    | ok c =>
      rw [hb] at h
      rw [← h]
      cases erase <;> simp [Except.map, AList.lookup_erase]
  frame s x s' h o ho := by
    unfold CCoinsViewCache.batchWriteStep at h
    obtain ⟨c, hc, h⟩ := ExceptFold.bind_eq_ok h
    cases h
    rw [batchWriteEntry_frame hc ho]
    cases erase <;> simp [AList.lookup_erase_ne ho]

/-- `BatchWrite` of a layer into the layer below it succeeds; the lower layer then reports what
the upper one reported, and is right about the layers below it. With `erase` the child's map
is left empty, without it unchanged. -/
theorem batchWrite_ok {parent child : CCoinsViewCache} {rest : List CCoinsViewCache}
    (hp : CacheOk (viewOf db rest) parent) (hr : LayersOk db rest)
    (hc : CacheOk (viewOf db (parent :: rest)) child) (hashBlockIn : Uint256) (erase : Bool) :
    ∃ parent' m', parent.batchWrite child.cacheCoins hashBlockIn erase = .ok (parent', m') ∧
      CacheOk (viewOf db rest) parent' ∧ viewOf db (parent' :: rest) = viewOf db (child :: parent :: rest) ∧
      (∀ o, m'.lookup o = if erase then none else child.cacheCoins.lookup o) ∧
      (erase = false → m' = child.cacheCoins) := by
  have hP := batchWriteStep_pointwise erase
  -- each round on its own succeeds and is right at its key
  have hround : ∀ o e, child.cacheCoins.lookup o = some e → ∃ v,
      mergeEntry e (parent.cacheCoins.lookup o) = .ok v ∧ (∀ u, v = some u → EntryOk (viewOf db rest) o u) ∧
        (v.map (·.coin)).getD (viewOf db rest o) = e.coin :=
    fun o e he => mergeEntry_ok (hc.entries he) (viewOf_cons db parent rest o) (fun _ hu => hp.entries hu)
      (viewOf_eq_empty hr)
  obtain ⟨⟨p', m'⟩, hfold, hpt⟩ := foldlM_pointwise hP child.cacheCoins.entries child.cacheCoins.nodupKeys
    (parent, child.cacheCoins) (fun o => by
      unfold pointwise
      cases hl : child.cacheCoins.entries.dlookup o with
      | none => exact ⟨_, rfl⟩
      | some e =>
        obtain ⟨v, hv, -⟩ := hround o e hl
        exact ⟨_, by simp only [hv]; rfl⟩)
  -- what the loop left at each key
  have hkey : ∀ o, (child.cacheCoins.lookup o = none ∧ p'.cacheCoins.lookup o = parent.cacheCoins.lookup o) ∨
      ∃ e, child.cacheCoins.lookup o = some e ∧ (∀ u, p'.cacheCoins.lookup o = some u → EntryOk (viewOf db rest) o u) ∧
        ((p'.cacheCoins.lookup o).map (·.coin)).getD (viewOf db rest o) = e.coin := by
    intro o
    have h := hpt o
    unfold pointwise at h
    cases hl : child.cacheCoins.lookup o with
    | none =>
      have hl' : child.cacheCoins.entries.dlookup o = none := hl
      rw [hl'] at h
      exact .inl ⟨rfl, (congrArg Prod.fst (Except.ok.inj h)).symm⟩
    | some e =>
      have hl' : child.cacheCoins.entries.dlookup o = some e := hl
      rw [hl'] at h
      dsimp only at h
      obtain ⟨v, hv, hvok, hvview⟩ := hround o e hl
      rw [hv] at h
      have hpv : p'.cacheCoins.lookup o = v := (congrArg Prod.fst (Except.ok.inj h)).symm
      exact .inr ⟨e, rfl, hpv ▸ hvok, hpv ▸ hvview⟩
  have hm' : ∀ o, m'.lookup o = if erase then none else child.cacheCoins.lookup o := by
    intro o
    have h := hpt o
    unfold pointwise at h
    cases hl : child.cacheCoins.entries.dlookup o with
    | none =>
      rw [hl] at h
      have := (congrArg Prod.snd (Except.ok.inj h)).symm
      simp only at this
      rw [this]
      cases erase
      · rfl
      · exact hl
    | some e =>
      rw [hl] at h
      dsimp only at h
      obtain ⟨v, hv, -⟩ := hround o e hl
      rw [hv] at h
      have := (congrArg Prod.snd (Except.ok.inj h)).symm
      simp only at this
      rw [this]
  have husage : p'.cachedCoinsUsage = totalUsage p'.cacheCoins :=
    ExceptFold.foldlM_inv (fun s : CCoinsViewCache × CCoinsMap => s.1.cachedCoinsUsage = totalUsage s.1.cacheCoins)
      hp.usage (fun s x s' _ hs h => by
        unfold CCoinsViewCache.batchWriteStep at h
        obtain ⟨c, hc, h⟩ := ExceptFold.bind_eq_ok h
        cases h
        exact batchWriteEntry_usage hs hc) hfold
  refine ⟨{ p' with hashBlock := hashBlockIn }, m', by simp only [CCoinsViewCache.batchWrite, hfold]; rfl,
    ⟨fun {o u} hu => ?_, husage⟩, funext fun o => ?_, hm', fun hne => ?_⟩
  · rcases hkey o with ⟨-, hsame⟩ | ⟨e, -, hok, -⟩
    · exact hp.entries (hsame ▸ hu)
    · exact hok u hu
  · rw [viewOf_cons, viewOf_cons db child]
    rcases hkey o with ⟨hnone, hsame⟩ | ⟨e, hsome, -, hview⟩
    · rw [hnone, Option.map_none, Option.getD_none, viewOf_cons db parent]
      exact congrArg (fun v => (Option.map (·.coin) v).getD (viewOf db rest o)) hsame
    · rw [hsome, Option.map_some, Option.getD_some]
      exact hview
  · -- without `erase` the loop leaves the child's map as it is
    subst hne
    exact ExceptFold.foldlM_inv (fun s : CCoinsViewCache × CCoinsMap => s.2 = child.cacheCoins) rfl
      (fun s x s' _ hs h => by
        unfold CCoinsViewCache.batchWriteStep at h
        obtain ⟨c, -, h⟩ := ExceptFold.bind_eq_ok h
        cases h
        exact hs) hfold

end BatchWrite

section DbWrite
variable {db : CCoinsViewDB}

/-- What the database stores at a key after the round of its `BatchWrite` for the entry `e`. -/
def storedAfter (e : CCoinsCacheEntry) (stored : Option Coin) : Option Coin :=
  if e.dirty then (if e.coin.isSpent then none else some e.coin) else stored

theorem dbBatchWriteStep_pointwise (erase : Bool) :
    Pointwise (fun s x => (.ok (CCoinsViewDB.batchWriteStep erase s x) : Except String (CCoinsViewDB × CCoinsMap)))
      (fun o s => (s.1.coins o, s.2.lookup o))
      (fun _ e v => .ok (storedAfter e v.1, if erase then none else v.2)) where
  at_key s x := by
    obtain ⟨d, m⟩ := s
    cases hd : x.2.dirty <;> cases erase <;>
      simp [CCoinsViewDB.batchWriteStep, storedAfter, hd, Except.map, AList.lookup_erase]
  frame s x s' h o ho := by
    obtain ⟨d, m⟩ := s
    cases h
    cases hd : x.2.dirty <;> cases erase <;>
      simp [CCoinsViewDB.batchWriteStep, hd, Function.update_of_ne ho, AList.lookup_erase_ne ho]

/-- `CCoinsViewDB::BatchWrite` of the bottom layer: the database then stores what the layer
reported, and unspent coins only. -/
theorem dbBatchWrite_ok (hdb : DbOk db) {child : CCoinsViewCache} (hc : CacheOk (viewOf db []) child)
    {hashBlock : Uint256} (hh : hashBlock ≠ 0) (erase : Bool) :
    ∃ db' m', db.batchWrite child.cacheCoins hashBlock erase = .ok (db', m') ∧ DbOk db' ∧
      viewOf db' [] = viewOf db [child] ∧
      (∀ o, m'.lookup o = if erase then none else child.cacheCoins.lookup o) ∧
      (erase = false → m' = child.cacheCoins) := by
  have hP := dbBatchWriteStep_pointwise erase
  obtain ⟨⟨d', m'⟩, hfold, hpt⟩ := foldlM_pointwise hP child.cacheCoins.entries
    child.cacheCoins.nodupKeys (db, child.cacheCoins) (fun o => by unfold pointwise; split <;> exact ⟨_, rfl⟩)
  have hfl := Except.ok.inj ((foldlM_ok _ _ _).symm.trans hfold)
  -- what the loop left at each key
  have hkey : ∀ o, (child.cacheCoins.lookup o = none ∧ d'.coins o = db.coins o ∧
        m'.lookup o = child.cacheCoins.lookup o) ∨
      ∃ e, child.cacheCoins.lookup o = some e ∧ d'.coins o = storedAfter e (db.coins o) ∧
        m'.lookup o = if erase then none else some e := by
    intro o
    have h := hpt o
    unfold pointwise at h
    cases hl : child.cacheCoins.lookup o with
    | none =>
      have hl' : child.cacheCoins.entries.dlookup o = none := hl
      rw [hl'] at h
      have h' := Except.ok.inj h
      have hm : m'.lookup o = child.cacheCoins.lookup o := (congrArg Prod.snd h').symm
      exact .inl ⟨rfl, (congrArg Prod.fst h').symm, hm.trans hl⟩
    | some e =>
      have hl' : child.cacheCoins.entries.dlookup o = some e := hl
      rw [hl'] at h
      have h' := Except.ok.inj h
      have hm : m'.lookup o = if erase then none else child.cacheCoins.lookup o :=
        (congrArg Prod.snd h').symm
      exact .inr ⟨e, rfl, (congrArg Prod.fst h').symm, hm.trans (by rw [hl])⟩
  refine ⟨{ d' with hashBestChain := hashBlock }, m', ?_, fun {o c} hc' => ?_, funext fun o => ?_,
    fun o => ?_, ?_⟩
  · simp only [CCoinsViewDB.batchWrite, if_neg hh, hfl]
  · rcases hkey o with ⟨-, hd, -⟩ | ⟨e, -, hd, -⟩
    · exact hdb (hd ▸ hc')
    · change d'.coins o = some c at hc'
      rw [hd, storedAfter] at hc'
      cases hdirty : e.dirty
      · simp only [hdirty, Bool.false_eq_true, if_false] at hc'
        exact hdb hc'
      · cases hspent : e.coin.isSpent
        · simp only [hdirty, hspent, if_true, Bool.false_eq_true, if_false, Option.some_inj] at hc'
          rw [← hc']
          exact hspent
        · simp [hdirty, hspent] at hc'
  · rcases hkey o with ⟨hl, hd, -⟩ | ⟨e, hl, hd, -⟩
    · rw [viewOf_cons_none hl]
      simp only [viewOf, hd]
    · rw [viewOf_cons_some hl]
      have he := hc.entries hl
      change (d'.coins o).getD Coin.empty = e.coin
      rw [hd, storedAfter]
      split_ifs with hdirty hspent
      · exact (he.spent hspent).symm
      · rfl
      · exact (he.clean (by simpa using hdirty)).symm
  · rcases hkey o with ⟨hl, -, hm⟩ | ⟨e, hl, -, hm⟩
    · rw [hm, hl]
      cases erase <;> rfl
    · rw [hm, hl]
  · rintro rfl
    exact ExceptFold.foldlM_inv (fun s : CCoinsViewDB × CCoinsMap => s.2 = child.cacheCoins) rfl
      (fun s x s' _ hs h => by
        cases h
        exact hs) hfold

end DbWrite

section FlushSync
variable {db : CCoinsViewDB} {cache : CCoinsViewCache} {below : List CCoinsViewCache}

/-- A call on a layer that succeeds, keeps the invariant, and leaves the view as it was. -/
def KeepsView (db : CCoinsViewDB) (cache : CCoinsViewCache) (below : List CCoinsViewCache)
    (r : Except String Layers) : Prop :=
  ∃ r', r = .ok r' ∧ LayersOk r'.2.2 (r'.1 :: r'.2.1) ∧
    viewOf r'.2.2 (r'.1 :: r'.2.1) = viewOf db (cache :: below)

/-- The `BatchWrite` of a layer's base, a layer or the database: the base then reports what the
layer reported. The database needs a best block. -/
theorem baseBatchWrite_ok (h : LayersOk db (cache :: below)) {hashBlock : Uint256}
    (hh : below = [] → hashBlock ≠ 0) (erase : Bool) :
    ∃ m' below' db', baseBatchWrite below db cache.cacheCoins hashBlock erase = .ok (m', below', db') ∧
      LayersOk db' below' ∧ viewOf db' below' = viewOf db (cache :: below) ∧
      (∀ o, m'.lookup o = if erase then none else cache.cacheCoins.lookup o) ∧
      (erase = false → m' = cache.cacheCoins) := by
  obtain ⟨hc, hb⟩ := h
  cases below with
  | nil =>
    obtain ⟨db', m', hw, hdb', hview, hm', hkeep⟩ := dbBatchWrite_ok hb hc (hh rfl) erase
    exact ⟨m', [], db', by simp only [baseBatchWrite, hw]; rfl, hdb', hview, hm', hkeep⟩
  | cons base rest =>
    obtain ⟨hbase, hrest⟩ := hb
    obtain ⟨base', m', hw, hbase', hview, hm', hkeep⟩ := batchWrite_ok hbase hrest hc hashBlock erase
    exact ⟨m', base' :: rest, db, by simp only [baseBatchWrite, hw]; rfl, ⟨hbase', hrest⟩, hview, hm', hkeep⟩

/-- An association list in which no key is found has no entries. -/
theorem entries_eq_nil {m : CCoinsMap} (h : ∀ o, m.lookup o = none) : m.entries = [] := by
  cases hm : m.entries with
  | nil => rfl
  | cons s l =>
    have hs := h s.1
    rw [AList.lookup, hm, List.dlookup_cons_eq] at hs
    cases hs

/-- `Flush`: the layer is left empty and the layers below report what it reported. -/
theorem flush_ok (h : LayersOk db (cache :: below)) (hh : below = [] → cache.hashBlock ≠ 0) :
    KeepsView db cache below (flush cache below db) := by
  obtain ⟨m', below', db', hw, hok, hview, hm', -⟩ := baseBatchWrite_ok h hh true
  have hnone : ∀ o, m'.lookup o = none := hm'
  have hnil := entries_eq_nil hnone
  refine ⟨({ cache with cacheCoins := m', cachedCoinsUsage := 0 }, below', db'), ?_,
    ⟨⟨fun {o e} he => ?_, ?_⟩, hok⟩, funext fun o => ?_⟩
  · simp only [flush, hw, bind, Except.bind, hnil, List.isEmpty_nil, Bool.not_true, Bool.false_eq_true,
      if_false]
    rfl
  · rw [hnone o] at he
    cases he
  · simp [totalUsage, hnil]
  · rw [viewOf_cons_none (hnone o), hview]

theorem syncEntry_pointwise :
    Pointwise (fun (s : CCoinsViewCache) (x : (_ : COutPoint) × CCoinsCacheEntry) =>
        (.ok (s.syncEntry x.1 x.2) : Except String CCoinsViewCache))
      (fun o s => s.cacheCoins.lookup o)
      (fun _ (e : CCoinsCacheEntry) _ => .ok (if e.coin.isSpent then none else some ⟨e.coin, false, false⟩)) where
  at_key s x := by
    cases hs : x.2.coin.isSpent <;>
      simp [CCoinsViewCache.syncEntry, hs, Except.map, AList.lookup_erase, AList.lookup_insert]
  frame s x s' h o ho := by
    cases h
    cases hs : x.2.coin.isSpent <;>
      simp [CCoinsViewCache.syncEntry, hs, AList.lookup_erase_ne ho, AList.lookup_insert_ne ho]

theorem usage_insert_same {m : CCoinsMap} {o : COutPoint} {u : Nat} {e₀ e : CCoinsCacheEntry}
    (hu : u = totalUsage m) (hl : m.lookup o = some e₀) (he : e.coin = e₀.coin) :
    u = totalUsage (m.insert o e) := by
  have h := totalUsage_insert m o e
  rw [hl, he] at h
  simp only [Option.elim_some] at h
  omega

/-- `Sync`: the layers below report what the layer reported, and the layer keeps its unspent
coins as clean copies of that. -/
theorem sync_ok (h : LayersOk db (cache :: below)) (hh : below = [] → cache.hashBlock ≠ 0) :
    KeepsView db cache below (sync cache below db) := by
  obtain ⟨m', below', db', hw, hok, hview, -, hkeep⟩ := baseBatchWrite_ok h hh false
  obtain rfl := hkeep rfl
  have hP := syncEntry_pointwise
  have hnd := cache.cacheCoins.nodupKeys
  obtain ⟨c', hfold, hpt⟩ := foldlM_pointwise hP cache.cacheCoins.entries hnd cache
    (fun o => by unfold pointwise; split <;> exact ⟨_, rfl⟩)
  have hfl := Except.ok.inj ((foldlM_ok _ _ _).symm.trans hfold)
  -- each round sees its key as the loop found it, so the usage stays the sum
  have husage : c'.cachedCoinsUsage = totalUsage c'.cacheCoins :=
    foldlM_inv_pointwise hP (fun s => s.cachedCoinsUsage = totalUsage s.cacheCoins) cache _ hnd
      (fun s x s' hx hobs hs hs' => by
        have hlk : s.cacheCoins.lookup x.1 = some x.2 := hobs.trans (AList.mem_lookup_iff.mpr hx)
        cases hs'
        cases hsp : x.2.coin.isSpent
        · simpa [CCoinsViewCache.syncEntry, hsp] using
            @usage_insert_same _ _ _ _ ⟨x.2.coin, false, false⟩ hs hlk rfl
        · simpa [CCoinsViewCache.syncEntry, hsp] using usage_erase_of_some hs hlk)
      cache (fun _ _ => rfl) h.1.usage c' hfold
  have hkey : ∀ o, c'.cacheCoins.lookup o = none ∨ ∃ e, cache.cacheCoins.lookup o = some e ∧
      e.coin.isSpent = false ∧ c'.cacheCoins.lookup o = some ⟨e.coin, false, false⟩ := by
    intro o
    have h := hpt o
    unfold pointwise at h
    cases hl : cache.cacheCoins.lookup o with
    | none =>
      have hl' : cache.cacheCoins.entries.dlookup o = none := hl
      rw [hl'] at h
      exact .inl ((Except.ok.inj h).symm.trans hl)
    | some e =>
      have hl' : cache.cacheCoins.entries.dlookup o = some e := hl
      rw [hl'] at h
      have h' := (Except.ok.inj h).symm
      cases hs : e.coin.isSpent
      · exact .inr ⟨e, rfl, hs, by simpa [hs] using h'⟩
      · exact .inl (by simpa [hs] using h')
  refine ⟨(c', below', db'), ?_, ⟨⟨fun {o u} hu => ?_, husage⟩, hok⟩, funext fun o => ?_⟩
  · simp only [sync, hw]
    rw [← hfl]
    rfl
  · rcases hkey o with hn | ⟨e, hl, hs, hc'⟩
    · rw [hn] at hu
      cases hu
    · rw [hc', Option.some_inj] at hu
      subst hu
      refine ⟨by simp [hs, allowedFlags], (fun h => by simp [hs] at h), (fun h => by cases h), fun _ => ?_⟩
      rw [hview, viewOf_cons_some hl]
  · rcases hkey o with hn | ⟨e, hl, -, hc'⟩
    · rw [viewOf_cons_none hn, hview]
    · rw [viewOf_cons_some hc', viewOf_cons_some hl]

end FlushSync

end BlackcoinMore.CoinsCache
