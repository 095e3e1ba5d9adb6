import BlackcoinMore.Orphanage

/-! The index invariant of the orphanage (`Inv`), and that `AddTx` and `EraseTxNoLock` keep it:
the swap-with-last removal of `EraseTxNoLock` updates the moved entry's `list_pos`, and a prevout
the erased orphan spends twice is found gone the second time. -/
namespace BlackcoinMore.Orphanage
open Primitives Serialize Coins TxVerify BlockEncodings

section Frame
variable (hash256 : Bytes → Uint256)

theorem lookup_setListPos_ne {m : AList (fun _ : Uint256 => OrphanTx)} {k t : Uint256} (pos : Nat)
    (h : t ≠ k) : (setListPos m k pos).lookup t = m.lookup t := by
  unfold setListPos
  split
  · exact AList.lookup_insert_ne h
  · rfl

theorem lookup_setListPos_self (m : AList (fun _ : Uint256 => OrphanTx)) (k : Uint256) (pos : Nat) :
    (setListPos m k pos).lookup k = (m.lookup k).map fun o => { o with list_pos := pos } := by
  unfold setListPos
  split <;> simp_all

theorem info_setListPos (m : AList (fun _ : Uint256 => OrphanTx)) (k t : Uint256) (pos : Nat) :
    ((setListPos m k pos).lookup t).map OrphanTx.info = (m.lookup t).map OrphanTx.info := by
  by_cases h : t = k
  · subst h
    rw [lookup_setListPos_self, Option.map_map]
    rfl
  · rw [lookup_setListPos_ne pos h]

theorem info_moveLastInto (list : List Uint256) (orphans : AList (fun _ : Uint256 => OrphanTx))
    (old_pos : Nat) (t : Uint256) :
    ((moveLastInto list orphans old_pos).2.lookup t).map OrphanTx.info = (orphans.lookup t).map OrphanTx.info := by
  unfold moveLastInto
  split
  · split
    · exact info_setListPos _ _ _ _
    · rfl
  · rfl

theorem eraseTxNoLock_of_lookup {s : TxOrphanage} {txid : Uint256} {it : OrphanTx}
    (h : s.m_orphans.lookup txid = some it) :
    eraseTxNoLock hash256 s txid =
      ({ s with
        m_orphans := (moveLastInto s.m_orphan_list s.m_orphans it.list_pos).2.erase txid
        m_orphan_list := (moveLastInto s.m_orphan_list s.m_orphans it.list_pos).1.dropLast
        m_wtxid_to_orphan_it := s.m_wtxid_to_orphan_it.erase (getWitnessHash hash256 it.tx)
        m_outpoint_to_orphan_it :=
          unlinkPrevouts txid s.m_outpoint_to_orphan_it (it.tx.vin.map (·.prevout)) }, 1) := by
  rw [eraseTxNoLock, h]

theorem eraseTxNoLock_of_none {s : TxOrphanage} {txid : Uint256} (h : s.m_orphans.lookup txid = none) :
    eraseTxNoLock hash256 s txid = (s, 0) := by
  rw [eraseTxNoLock, h]

/-- `EraseTxNoLock` takes out the entry at `txid` and keeps what every other entry carries. -/
theorem info_eraseTxNoLock (s : TxOrphanage) (txid t : Uint256) :
    ((eraseTxNoLock hash256 s txid).1.m_orphans.lookup t).map OrphanTx.info =
      if t = txid then none else (s.m_orphans.lookup t).map OrphanTx.info := by
  cases h : s.m_orphans.lookup txid with
  | none =>
    rw [eraseTxNoLock_of_none hash256 h]
    split_ifs with ht
    · rw [ht, h]
      rfl
    · rfl
  | some it =>
    rw [eraseTxNoLock_of_lookup hash256 h]
    split_ifs with ht
    · rw [ht, AList.lookup_erase]
      rfl
    · dsimp only
      rw [AList.lookup_erase_ne ht, info_moveLastInto]

end Frame

section Prevouts

/-- `t` is in the set `m` holds for `p`. -/
def InSet (m : AList (fun _ : COutPoint => List Uint256)) (p : COutPoint) (t : Uint256) : Prop :=
  ∃ set, m.lookup p = some set ∧ t ∈ set

/-- Every set `m` holds is nonempty and has no repeats. -/
def SetsOk (m : AList (fun _ : COutPoint => List Uint256)) : Prop :=
  ∀ p set, m.lookup p = some set → set ≠ [] ∧ set.Nodup

theorem inSet_insert (m : AList (fun _ : COutPoint => List Uint256)) (q p : COutPoint) (set : List Uint256)
    (t : Uint256) : InSet (m.insert q set) p t ↔ if p = q then t ∈ set else InSet m p t := by
  unfold InSet
  split_ifs with hp
  · subst hp
    simp [AList.lookup_insert]
  · rw [AList.lookup_insert_ne hp]

theorem inSet_erase (m : AList (fun _ : COutPoint => List Uint256)) (q p : COutPoint) (t : Uint256) :
    InSet (m.erase q) p t ↔ p ≠ q ∧ InSet m p t := by
  unfold InSet
  by_cases hp : p = q
  · subst hp
    simp [AList.lookup_erase]
  · rw [AList.lookup_erase_ne hp]
    exact ⟨fun h => ⟨hp, h⟩, fun h => h.2⟩

theorem inSet_linkPrevout (txid : Uint256) (m : AList (fun _ : COutPoint => List Uint256)) (q p : COutPoint)
    (t : Uint256) : InSet (linkPrevout txid m q) p t ↔ InSet m p t ∨ (t = txid ∧ p = q) := by
  rw [linkPrevout, inSet_insert]
  split_ifs with hp
  · subst hp
    cases h : m.lookup p <;> simp [InSet, h, or_comm]
  · simp [hp]

theorem setsOk_linkPrevout (txid : Uint256) {m : AList (fun _ : COutPoint => List Uint256)} (hm : SetsOk m)
    (q : COutPoint) : SetsOk (linkPrevout txid m q) := by
  intro p set hset
  by_cases hp : p = q
  · subst hp
    rw [linkPrevout, AList.lookup_insert, Option.some_inj] at hset
    subst hset
    have hnd : ((m.lookup p).getD []).Nodup := by
      cases h : m.lookup p with
      | none => simp
      | some set => exact (hm p set h).2
    exact ⟨List.ne_nil_of_mem List.mem_insert_self, hnd.insert⟩
  · rw [linkPrevout, AList.lookup_insert_ne hp] at hset
    exact hm p set hset

theorem linkPrevouts_spec (txid : Uint256) (prevouts : List COutPoint) :
    ∀ m, SetsOk m → SetsOk (linkPrevouts txid m prevouts) ∧
      ∀ p t, InSet (linkPrevouts txid m prevouts) p t ↔ InSet m p t ∨ (t = txid ∧ p ∈ prevouts) := by
  induction prevouts with
  | nil => simp [linkPrevouts]
  | cons q prevouts ih =>
    intro m hm
    obtain ⟨hok, hmem⟩ := ih _ (setsOk_linkPrevout txid hm q)
    refine ⟨hok, fun p t => ?_⟩
    rw [linkPrevouts, List.foldl_cons, ← linkPrevouts, hmem, inSet_linkPrevout, List.mem_cons]
    tauto

theorem setsOk_unlinkPrevout (txid : Uint256) {m : AList (fun _ : COutPoint => List Uint256)} (hm : SetsOk m)
    (q : COutPoint) : SetsOk (unlinkPrevout txid m q) := by
  intro p s' hs'
  unfold unlinkPrevout at hs'
  cases hq : m.lookup q with
  | none =>
    rw [hq] at hs'
    exact hm p s' hs'
  | some set =>
    rw [hq] at hs'
    dsimp only at hs'
    by_cases hp : p = q
    · subst hp
      split_ifs at hs' with he
      · rw [AList.lookup_erase] at hs'
        cases hs'
      · rw [AList.lookup_insert, Option.some_inj] at hs'
        subst hs'
        exact ⟨fun h => he (List.isEmpty_iff.mpr h), (hm p set hq).2.erase _⟩
    · split_ifs at hs'
      · rw [AList.lookup_erase_ne hp] at hs'
        exact hm p s' hs'
      · rw [AList.lookup_insert_ne hp] at hs'
        exact hm p s' hs'

theorem inSet_unlinkPrevout (txid : Uint256) {m : AList (fun _ : COutPoint => List Uint256)} (hm : SetsOk m)
    (q p : COutPoint) (t : Uint256) :
    InSet (unlinkPrevout txid m q) p t ↔ InSet m p t ∧ ¬(t = txid ∧ p = q) := by
  unfold unlinkPrevout
  cases hq : m.lookup q with
  | none =>
    by_cases hp : p = q
    · subst hp
      simp [InSet, hq]
    · simp [hp]
  | some set =>
    have hnd := (hm q set hq).2
    dsimp only
    split_ifs with he
    · -- the set was `{txid}` or empty of anything but `txid`: it goes
      have hnil : set.erase txid = [] := List.isEmpty_iff.mp he
      rw [inSet_erase]
      by_cases hp : p = q
      · subst hp
        have hsub : ∀ u ∈ set, u = txid := fun u hu => by
          by_contra hne
          have hmem := hnd.mem_erase_iff.mpr ⟨hne, hu⟩
          rw [hnil] at hmem
          cases hmem
        simp only [InSet, hq, Option.some_inj, exists_eq_left', ne_eq, not_true_eq_false, false_and,
          false_iff, not_and, and_true]
        exact fun ht => not_not.mpr (hsub t ht)
      · simp [hp]
    · rw [inSet_insert]
      split_ifs with hp
      · subst hp
        simp only [InSet, hq, Option.some_inj, exists_eq_left', hnd.mem_erase_iff, and_true]
        tauto
      · simp [hp]

theorem unlinkPrevouts_spec (txid : Uint256) (prevouts : List COutPoint) :
    ∀ m, SetsOk m → SetsOk (unlinkPrevouts txid m prevouts) ∧
      ∀ p t, InSet (unlinkPrevouts txid m prevouts) p t ↔ InSet m p t ∧ ¬(t = txid ∧ p ∈ prevouts) := by
  induction prevouts with
  | nil => simp [unlinkPrevouts]
  | cons q prevouts ih =>
    intro m hm
    obtain ⟨hok, hmem⟩ := ih _ (setsOk_unlinkPrevout txid hm q)
    refine ⟨hok, fun p t => ?_⟩
    rw [unlinkPrevouts, List.foldl_cons, ← unlinkPrevouts, hmem, inSet_unlinkPrevout txid hm, List.mem_cons]
    tauto

end Prevouts

section Slots

/-- `m_orphan_list` against the entries' `list_pos`: every entry's slot holds it, and every slot
holds an entry whose `list_pos` is that slot. -/
structure ListSlots (list : List Uint256) (orphans : AList (fun _ : Uint256 => OrphanTx)) : Prop where
  pos : ∀ t o, orphans.lookup t = some o → list[o.list_pos]? = some t
  slot : ∀ i t, list[i]? = some t → ∃ o, orphans.lookup t = some o ∧ o.list_pos = i

variable {list : List Uint256} {orphans : AList (fun _ : Uint256 => OrphanTx)}

theorem ListSlots.ne_of_pos_ne (h : ListSlots list orphans) {t u : Uint256} {o : OrphanTx}
    (ht : orphans.lookup t = some o) {i : Nat} (hu : list[i]? = some u) (hi : i ≠ o.list_pos) : u ≠ t := by
  rintro rfl
  obtain ⟨o', ho', hpos⟩ := h.slot i u hu
  rw [ht, Option.some_inj] at ho'
  subst ho'
  exact hi hpos.symm

/-- `AddTx`: the new entry takes the slot pushed at the back. -/
theorem ListSlots.push (h : ListSlots list orphans) {k : Uint256} (hk : orphans.lookup k = none)
    (o : OrphanTx) (ho : o.list_pos = list.length) :
    ListSlots (list ++ [k]) (orphans.insert k o) := by
  constructor
  · intro t o' ht
    by_cases htk : t = k
    · subst htk
      rw [AList.lookup_insert, Option.some_inj] at ht
      subst ht
      simp [ho]
    · rw [AList.lookup_insert_ne htk] at ht
      have hp := h.pos t o' ht
      have hlt : o'.list_pos < list.length := (List.getElem?_eq_some_iff.mp hp).1
      rwa [List.getElem?_append_left hlt]
  · intro i t hi
    by_cases hlt : i < list.length
    · rw [List.getElem?_append_left hlt] at hi
      obtain ⟨o', ho', hpos⟩ := h.slot i t hi
      have htk : t ≠ k := by
        rintro rfl
        rw [hk] at ho'
        cases ho'
      exact ⟨o', by rw [AList.lookup_insert_ne htk, ho'], hpos⟩
    · have hi' : i = list.length := by
        have := (List.getElem?_eq_some_iff.mp hi).1
        simp at this
        omega
      subst hi'
      simp only [List.getElem?_append_right (le_refl _), Nat.sub_self, List.getElem?_cons_zero,
        Option.some_inj] at hi
      subst hi
      exact ⟨o, AList.lookup_insert _, ho⟩

/-- `EraseTxNoLock` when the entry sits in the last slot: the slot is popped. -/
theorem ListSlots.pop (h : ListSlots list orphans) {txid : Uint256} {it : OrphanTx}
    (hit : orphans.lookup txid = some it) (hlast : it.list_pos + 1 = list.length) :
    ListSlots list.dropLast (orphans.erase txid) := by
  have hp := h.pos txid it hit
  constructor
  · intro t o ht
    have htx : t ≠ txid := by
      rintro rfl
      rw [AList.lookup_erase] at ht
      cases ht
    rw [AList.lookup_erase_ne htx] at ht
    have hq := h.pos t o ht
    have hlt : o.list_pos < list.length := (List.getElem?_eq_some_iff.mp hq).1
    have hne : o.list_pos ≠ it.list_pos := fun heq => htx (by rw [heq, hp] at hq; exact (Option.some_inj.mp hq).symm)
    rw [List.getElem?_dropLast, if_pos (by omega), hq]
  · intro i t hi
    rw [List.getElem?_dropLast] at hi
    split_ifs at hi with hlt
    · obtain ⟨o, ho, hpos⟩ := h.slot i t hi
      have htx : t ≠ txid := by
        rintro rfl
        rw [hit, Option.some_inj] at ho
        subst ho
        omega
      exact ⟨o, by rw [AList.lookup_erase_ne htx, ho], hpos⟩

/-- `EraseTxNoLock` when the entry is not last: the last entry moves into its slot. -/
theorem ListSlots.moveLast (h : ListSlots list orphans) {txid : Uint256} {it : OrphanTx}
    (hit : orphans.lookup txid = some it) :
    ListSlots (moveLastInto list orphans it.list_pos).1.dropLast
      ((moveLastInto list orphans it.list_pos).2.erase txid) := by
  have hp := h.pos txid it hit
  have hlt : it.list_pos < list.length := (List.getElem?_eq_some_iff.mp hp).1
  unfold moveLastInto
  by_cases hlast : it.list_pos + 1 = list.length
  · rw [if_neg (by simpa using hlast)]
    exact h.pop hit hlast
  rw [if_pos (by simpa using hlast)]
  -- the last slot holds an entry `last` other than `txid`
  have hget : list.getLast? = list[list.length - 1]? := List.getLast?_eq_getElem?
  obtain ⟨last, hl⟩ : ∃ last, list[list.length - 1]? = some last :=
    ⟨_, List.getElem?_eq_getElem (by omega)⟩
  rw [hget, hl]
  obtain ⟨ol, hol, hlpos⟩ := h.slot _ last hl
  have hltx : last ≠ txid := h.ne_of_pos_ne hit hl (by omega)
  dsimp only
  constructor
  · intro t o ht
    have htx : t ≠ txid := by
      rintro rfl
      rw [AList.lookup_erase] at ht
      cases ht
    rw [AList.lookup_erase_ne htx] at ht
    rw [List.getElem?_dropLast, List.length_set]
    by_cases htl : t = last
    · subst htl
      rw [lookup_setListPos_self, hol] at ht
      simp only [Option.map_some, Option.some_inj] at ht
      subst ht
      rw [if_pos (by simp; omega), List.getElem?_set_self hlt]
    · rw [lookup_setListPos_ne _ htl] at ht
      have hq := h.pos t o ht
      have hqlt : o.list_pos < list.length := (List.getElem?_eq_some_iff.mp hq).1
      have hne : o.list_pos ≠ it.list_pos := fun heq => htx (by rw [heq, hp] at hq; exact (Option.some_inj.mp hq).symm)
      have hne' : o.list_pos ≠ list.length - 1 := fun heq => htl (by rw [heq, hl] at hq; exact (Option.some_inj.mp hq).symm)
      rw [if_pos (by omega), List.getElem?_set_ne (Ne.symm hne), hq]
  · intro i t hi
    rw [List.getElem?_dropLast, List.length_set] at hi
    split_ifs at hi with hilt
    by_cases hip : i = it.list_pos
    · subst hip
      rw [List.getElem?_set_self hlt, Option.some_inj] at hi
      subst hi
      refine ⟨{ ol with list_pos := it.list_pos }, ?_, rfl⟩
      rw [AList.lookup_erase_ne hltx, lookup_setListPos_self, hol]
      rfl
    · rw [List.getElem?_set_ne (Ne.symm hip)] at hi
      obtain ⟨o, ho, hpos⟩ := h.slot i t hi
      have htx : t ≠ txid := h.ne_of_pos_ne hit hi hip
      have htl : t ≠ last := fun heq => by
        subst heq
        rw [hol, Option.some_inj] at ho
        subst ho
        omega
      exact ⟨o, by rw [AList.lookup_erase_ne htx, lookup_setListPos_ne _ htl, ho], hpos⟩

end Slots

section Invariant
variable (hash256 : Bytes → Uint256)

/-- The transaction stored under `t`. -/
def txOf (s : TxOrphanage) (t : Uint256) : Option CTransaction := (s.m_orphans.lookup t).map OrphanTx.tx

/-- The consistency of the orphanage's indexes: entries are keyed by their txid, `m_orphan_list`
and the `list_pos` fields agree (`ListSlots`), `m_wtxid_to_orphan_it` maps exactly the wtxids of
the entries to them, and `m_outpoint_to_orphan_it` maps each outpoint to exactly the entries
spending it, with no empty or repeating set. -/
structure Inv (s : TxOrphanage) : Prop where
  key : ∀ t tx, txOf s t = some tx → getHash hash256 tx = t
  slots : ListSlots s.m_orphan_list s.m_orphans
  wtxid : ∀ w t, s.m_wtxid_to_orphan_it.lookup w = some t ↔
    ∃ tx, txOf s t = some tx ∧ getWitnessHash hash256 tx = w
  prevout : ∀ p t, InSet s.m_outpoint_to_orphan_it p t ↔
    ∃ tx, txOf s t = some tx ∧ p ∈ tx.vin.map (·.prevout)
  sets : SetsOk s.m_outpoint_to_orphan_it

theorem inv_empty : Inv hash256 TxOrphanage.empty where
  key t tx h := by simp [txOf, TxOrphanage.empty] at h
  slots := ⟨fun t o h => by simp [TxOrphanage.empty] at h, fun i t h => by simp [TxOrphanage.empty] at h⟩
  wtxid w t := by simp [txOf, TxOrphanage.empty]
  prevout p t := by simp [InSet, txOf, TxOrphanage.empty]
  sets p set h := by simp [TxOrphanage.empty] at h

theorem map_tx_eq_map_info (x : Option OrphanTx) : x.map OrphanTx.tx = (x.map OrphanTx.info).map Prod.fst := by
  cases x <;> rfl

theorem txOf_eraseTxNoLock (s : TxOrphanage) (txid t : Uint256) :
    txOf (eraseTxNoLock hash256 s txid).1 t = if t = txid then none else txOf s t := by
  unfold txOf
  rw [map_tx_eq_map_info, map_tx_eq_map_info, info_eraseTxNoLock]
  split_ifs <;> rfl

/-- `EraseTxNoLock` keeps the invariant, for every `txid`. -/
theorem eraseTxNoLock_inv {s : TxOrphanage} (hs : Inv hash256 s) (txid : Uint256) :
    Inv hash256 (eraseTxNoLock hash256 s txid).1 := by
  cases hit : s.m_orphans.lookup txid with
  | none =>
    rw [eraseTxNoLock_of_none hash256 hit]
    exact hs
  | some it =>
    have htx : txOf s txid = some it.tx := by rw [txOf, hit]; rfl
    have hframe := txOf_eraseTxNoLock hash256 s txid
    obtain ⟨hsets', hin'⟩ := unlinkPrevouts_spec txid (it.tx.vin.map (·.prevout)) _ hs.sets
    rw [eraseTxNoLock_of_lookup hash256 hit] at hframe ⊢
    refine ⟨fun t tx h => ?_, hs.slots.moveLast hit, fun w t => ?_, fun p t => ?_, hsets'⟩
    · rw [hframe] at h
      split_ifs at h
      exact hs.key t tx h
    · -- the wtxid of the erased entry is the only key that goes
      dsimp only
      rw [hframe]
      by_cases hw : w = getWitnessHash hash256 it.tx
      · subst hw
        rw [AList.lookup_erase]
        simp only [reduceCtorEq, false_iff, not_exists, not_and]
        intro tx h hwt
        split_ifs at h with ht
        have hl := (hs.wtxid _ t).mpr ⟨tx, h, hwt⟩
        have hl' := (hs.wtxid _ txid).mpr ⟨it.tx, htx, rfl⟩
        exact ht (Option.some_inj.mp (hl.symm.trans hl'))
      · rw [AList.lookup_erase_ne hw, hs.wtxid]
        constructor
        · rintro ⟨tx, h, hwt⟩
          have ht : t ≠ txid := by
            rintro rfl
            rw [htx, Option.some_inj] at h
            subst h
            exact hw hwt.symm
          exact ⟨tx, by rw [if_neg ht, h], hwt⟩
        · rintro ⟨tx, h, hwt⟩
          split_ifs at h
          exact ⟨tx, h, hwt⟩
    · dsimp only
      rw [hin', hs.prevout, hframe]
      by_cases ht : t = txid
      · subst ht
        simp only [htx, Option.some_inj, exists_eq_left', true_and, and_not_self, if_true, reduceCtorEq,
          false_and, exists_false]
      · simp [ht]

/-- The state `AddTx` builds for a new transaction keeps the invariant when no stored orphan
shares its wtxid. -/
theorem inv_of_addTx_fields {s s' : TxOrphanage} (hs : Inv hash256 s) {tx : CTransaction} {peer : NodeId}
    {nNow : Int} (hmem : getHash hash256 tx ∉ s.m_orphans)
    (hnew : ∀ t tx', txOf s t = some tx' → getWitnessHash hash256 tx' = getWitnessHash hash256 tx →
      getHash hash256 tx' = getHash hash256 tx)
    (hO : s'.m_orphans = s.m_orphans.insert (getHash hash256 tx)
      ⟨tx, peer, nNow + ORPHAN_TX_EXPIRE_TIME, s.m_orphan_list.length⟩)
    (hL : s'.m_orphan_list = s.m_orphan_list ++ [getHash hash256 tx])
    (hW : s'.m_wtxid_to_orphan_it = emplace s.m_wtxid_to_orphan_it (getWitnessHash hash256 tx) (getHash hash256 tx))
    (hM : s'.m_outpoint_to_orphan_it =
      linkPrevouts (getHash hash256 tx) s.m_outpoint_to_orphan_it (tx.vin.map (·.prevout))) :
    Inv hash256 s' := by
  set hash := getHash hash256 tx
  have hnone : s.m_orphans.lookup hash = none := by
    rw [← Option.not_isSome_iff_eq_none, AList.lookup_isSome]
    exact hmem
  have hfresh : ∀ tx', txOf s hash ≠ some tx' := by
    intro tx' h
    simp [txOf, hnone] at h
  -- no stored orphan has the new wtxid, so `emplace` inserts it
  have hw_none : s.m_wtxid_to_orphan_it.lookup (getWitnessHash hash256 tx) = none := by
    rw [← Option.not_isSome_iff_eq_none, Option.isSome_iff_exists]
    rintro ⟨t, ht⟩
    obtain ⟨tx', h, hwt⟩ := (hs.wtxid _ t).mp ht
    have hkey := hs.key t tx' h
    rw [hnew t tx' h hwt] at hkey
    exact hfresh tx' (hkey ▸ h)
  have hemplace : emplace s.m_wtxid_to_orphan_it (getWitnessHash hash256 tx) hash =
      s.m_wtxid_to_orphan_it.insert (getWitnessHash hash256 tx) hash := by
    rw [emplace, if_neg]
    rw [← AList.lookup_isSome, hw_none]
    simp
  have hframe : ∀ t, txOf s' t = if t = hash then some tx else txOf s t := by
    intro t
    unfold txOf
    rw [hO]
    split_ifs with ht
    · rw [ht, AList.lookup_insert]
      rfl
    · rw [AList.lookup_insert_ne ht]
  obtain ⟨hsets', hin'⟩ := linkPrevouts_spec hash (tx.vin.map (·.prevout)) _ hs.sets
  refine ⟨fun t tx' h => ?_, hL ▸ hO ▸ hs.slots.push hnone _ rfl, fun w t => ?_, fun p t => ?_, hM ▸ hsets'⟩
  · rw [hframe] at h
    split_ifs at h with ht
    · rw [ht, ← Option.some_inj.mp h]
    · exact hs.key t tx' h
  · rw [hW, hemplace, hframe]
    by_cases hw : w = getWitnessHash hash256 tx
    · subst hw
      rw [AList.lookup_insert, Option.some_inj]
      constructor
      · rintro rfl
        exact ⟨tx, if_pos rfl, rfl⟩
      · rintro ⟨tx', h, hwt⟩
        split_ifs at h with ht
        · exact ht.symm
        · have hkey := hs.key t tx' h
          rw [hnew t tx' h hwt] at hkey
          exact absurd (hkey ▸ h) (hfresh tx')
    · rw [AList.lookup_insert_ne hw, hs.wtxid]
      constructor
      · rintro ⟨tx', h, hwt⟩
        have ht : t ≠ hash := by
          rintro rfl
          exact hfresh tx' h
        exact ⟨tx', by rw [if_neg ht, h], hwt⟩
      · rintro ⟨tx', h, hwt⟩
        split_ifs at h with ht
        · rw [← Option.some_inj.mp h] at hwt
          exact absurd hwt.symm hw
        · exact ⟨tx', h, hwt⟩
  · rw [hM, hin', hs.prevout, hframe]
    by_cases ht : t = hash
    · subst ht
      simp only [if_true, Option.some_inj, exists_eq_left', true_and]
      constructor
      · rintro (⟨tx', h, -⟩ | hp)
        · exact absurd h (hfresh tx')
        · exact hp
      · exact Or.inr
    · simp [ht]

/-- `AddTx` keeps the invariant when no stored orphan with another txid shares the new wtxid. -/
theorem addTx_inv {s : TxOrphanage} (hs : Inv hash256 s) (tx : CTransaction) (peer : NodeId) (nNow : Int)
    (hnew : ∀ t tx', txOf s t = some tx' → getWitnessHash hash256 tx' = getWitnessHash hash256 tx →
      getHash hash256 tx' = getHash hash256 tx) :
    Inv hash256 (addTx hash256 s tx peer nNow).1 := by
  by_cases hmem : getHash hash256 tx ∈ s.m_orphans
  · simp only [addTx, hmem, if_true]
    exact hs
  by_cases hbig : MAX_STANDARD_TX_WEIGHT < getTransactionWeight tx
  · simp only [addTx, hmem, hbig, if_true, if_false]
    exact hs
  simp only [addTx, hmem, hbig, if_false]
  exact inv_of_addTx_fields hash256 hs hmem hnew rfl rfl rfl rfl

end Invariant

end BlackcoinMore.Orphanage
