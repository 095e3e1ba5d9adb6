import BlackcoinMore.OrphanageInvariant
import BlackcoinMore.SerializeRoundTrip

/-! The loops of the orphanage over the invariant, every run of its calls, and a run that breaks
it: two transactions with one wtxid and different txids. -/
namespace BlackcoinMore.Orphanage
open Primitives Serialize Coins TxVerify BlockEncodings

section Loops
variable (hash256 : Bytes → Uint256)

/-- What is stored under `t`, besides its slot. -/
def infoOf (s : TxOrphanage) (t : Uint256) : Option (CTransaction × NodeId × Int) :=
  (s.m_orphans.lookup t).map OrphanTx.info

/-- The four indexes the invariant reads. -/
def indexes (s : TxOrphanage) :=
  (s.m_orphans, s.m_orphan_list, s.m_wtxid_to_orphan_it, s.m_outpoint_to_orphan_it)

theorem Inv.of_indexes {s s' : TxOrphanage} (hs : Inv hash256 s) (h : indexes s' = indexes s) :
    Inv hash256 s' := by
  obtain ⟨s₁, s₂, s₃, s₄, s₅, s₆⟩ := s
  obtain ⟨t₁, t₂, t₃, t₄, t₅, t₆⟩ := s'
  simp only [indexes, Prod.mk.injEq] at h
  obtain ⟨rfl, rfl, rfl, rfl⟩ := h
  exact ⟨hs.key, hs.slots, hs.wtxid, hs.prevout, hs.sets⟩

theorem indexes_foldl {α : Type} (f : TxOrphanage → α → TxOrphanage) (hf : ∀ s x, indexes (f s x) = indexes s)
    (l : List α) : ∀ s, indexes (l.foldl f s) = indexes s := by
  induction l with
  | nil => exact fun s => rfl
  | cons x l ih => exact fun s => (ih (f s x)).trans (hf s x)

/-- The work-set calls leave the indexes alone. -/
theorem indexes_addChildrenToWorkSet (s : TxOrphanage) (tx : CTransaction) :
    indexes (addChildrenToWorkSet hash256 s tx) = indexes s := by
  unfold addChildrenToWorkSet
  apply indexes_foldl
  intro s i
  split
  · rfl
  · apply indexes_foldl
    intro s elem
    split <;> rfl

theorem indexes_getTxToReconsider (s : TxOrphanage) (peer : NodeId) :
    indexes (getTxToReconsider s peer).1 = indexes s := by
  unfold getTxToReconsider
  split <;> rfl

theorem info_eq_of_indexes {s s' : TxOrphanage} (h : indexes s' = indexes s) (t : Uint256) :
    infoOf s' t = infoOf s t := by
  simp only [indexes, Prod.mk.injEq] at h
  rw [infoOf, infoOf, h.1]

theorem infoOf_eraseTxNoLock (s : TxOrphanage) (txid t : Uint256) :
    infoOf (eraseTxNoLock hash256 s txid).1 t = if t = txid then none else infoOf s t :=
  info_eraseTxNoLock hash256 s txid t

theorem eraseIf_inv {s : TxOrphanage} (hs : Inv hash256 s) (pick : OrphanTx → Bool) (txid : Uint256) :
    Inv hash256 (eraseIf hash256 pick s txid) := by
  unfold eraseIf
  split
  · split
    · exact eraseTxNoLock_inv hash256 hs _
    · exact hs
  · exact hs

/-- A round of the erasing loops takes out the entry at `k` exactly when it is picked. -/
theorem infoOf_eraseIf {s : TxOrphanage} (hs : Inv hash256 s) (q : CTransaction × NodeId × Int → Bool)
    (k t : Uint256) :
    infoOf (eraseIf hash256 (fun o => q o.info) s k) t =
      if t = k ∧ (infoOf s k).map q = some true then none else infoOf s t := by
  unfold eraseIf
  cases hk : s.m_orphans.lookup k with
  | none => simp [infoOf, hk]
  | some o =>
    have hkey : getHash hash256 o.tx = k := hs.key k o.tx (by rw [txOf, hk]; rfl)
    dsimp only
    by_cases hq : q o.info = true
    · rw [if_pos hq, hkey, infoOf_eraseTxNoLock]
      by_cases htk : t = k
      · simp [htk, infoOf, hk, hq]
      · simp [htk]
    · rw [if_neg hq]
      have : ¬((infoOf s k).map q = some true) := by simp [infoOf, hk, hq]
      simp [this]

theorem foldl_eraseIf_inv (pick : OrphanTx → Bool) (ks : List Uint256) :
    ∀ s, Inv hash256 s → Inv hash256 (ks.foldl (eraseIf hash256 pick) s) := by
  induction ks with
  | nil => exact fun s hs => hs
  | cons k ks ih => exact fun s hs => ih _ (eraseIf_inv hash256 hs pick k)

/-- The erasing loops over distinct keys take out exactly the picked entries among them. -/
theorem infoOf_foldl_eraseIf (q : CTransaction × NodeId × Int → Bool) (ks : List Uint256) (hks : ks.Nodup) :
    ∀ s, Inv hash256 s → ∀ t,
      infoOf (ks.foldl (eraseIf hash256 fun o => q o.info) s) t =
        if t ∈ ks ∧ (infoOf s t).map q = some true then none else infoOf s t := by
  induction ks with
  | nil => simp
  | cons k ks ih =>
    intro s hs t
    obtain ⟨hk, hks⟩ := List.nodup_cons.mp hks
    rw [List.foldl_cons, ih hks _ (eraseIf_inv hash256 hs _ k), infoOf_eraseIf hash256 hs q k t]
    by_cases htk : t = k
    · subst htk
      rw [if_neg (fun h => hk h.1)]
      simp only [true_and, List.mem_cons_self]
    · rw [if_neg (show ¬(t = k ∧ (infoOf s k).map q = some true) from fun h => htk h.1)]
      simp only [List.mem_cons, htk, false_or]

theorem mem_orphanKeys (s : TxOrphanage) (t : Uint256) : t ∈ orphanKeys s ↔ t ∈ s.m_orphans.keys :=
  (List.mergeSort_perm _ _).mem_iff

theorem nodup_orphanKeys (s : TxOrphanage) : (orphanKeys s).Nodup :=
  (List.mergeSort_perm _ _).nodup_iff.mpr (AList.keys_nodup _)

theorem infoOf_isSome (s : TxOrphanage) (t : Uint256) : (infoOf s t).isSome ↔ t ∈ s.m_orphans.keys := by
  rw [infoOf, Option.isSome_map, AList.lookup_isSome, AList.mem_keys]

/-- The loops over `m_orphans` take out exactly the picked entries. -/
theorem infoOf_foldl_orphanKeys {s : TxOrphanage} (hs : Inv hash256 s) (q : CTransaction × NodeId × Int → Bool)
    (t : Uint256) :
    infoOf ((orphanKeys s).foldl (eraseIf hash256 fun o => q o.info) s) t =
      if (infoOf s t).map q = some true then none else infoOf s t := by
  rw [infoOf_foldl_eraseIf hash256 q _ (nodup_orphanKeys s) s hs t]
  simp only [mem_orphanKeys]
  by_cases hq : (infoOf s t).map q = some true
  · have hsome : (infoOf s t).isSome := by
      cases h : infoOf s t with
      | none => rw [h] at hq; cases hq
      | some _ => rfl
    rw [if_pos ⟨(infoOf_isSome s t).mp hsome, hq⟩, if_pos hq]
  · rw [if_neg (fun h => hq h.2), if_neg hq]

end Loops

section Operations
variable (hash256 : Bytes → Uint256)

/-- `m_orphan_list` is a permutation of the keys of `m_orphans`. -/
theorem Inv.perm {s : TxOrphanage} (hs : Inv hash256 s) : s.m_orphan_list.Perm s.m_orphans.keys := by
  have hnd : s.m_orphan_list.Nodup := by
    rw [List.nodup_iff_injective_get]
    intro i j hij
    obtain ⟨o, ho, hi⟩ := hs.slots.slot i _ (List.getElem?_eq_getElem i.isLt)
    obtain ⟨o', ho', hj⟩ := hs.slots.slot j _ (List.getElem?_eq_getElem j.isLt)
    simp only [List.get_eq_getElem] at hij
    rw [hij, ho', Option.some_inj] at ho
    subst ho
    exact Fin.ext (hi.symm.trans hj)
  rw [List.perm_ext_iff_of_nodup hnd (AList.keys_nodup _)]
  intro t
  rw [← AList.mem_keys, ← AList.lookup_isSome, Option.isSome_iff_exists]
  constructor
  · intro ht
    obtain ⟨i, hi⟩ := List.getElem?_of_mem ht
    obtain ⟨o, ho, -⟩ := hs.slots.slot i t hi
    exact ⟨o, ho⟩
  · rintro ⟨o, ho⟩
    exact List.mem_of_getElem? (hs.slots.pos t o ho)

theorem Inv.keys_length {s : TxOrphanage} (hs : Inv hash256 s) :
    s.m_orphans.keys.length = s.m_orphan_list.length :=
  (hs.perm hash256).length_eq.symm

theorem length_moveLastInto (list : List Uint256) (orphans : AList (fun _ : Uint256 => OrphanTx)) (old_pos : Nat) :
    (moveLastInto list orphans old_pos).1.length = list.length := by
  unfold moveLastInto
  split
  · split
    · exact List.length_set
    · rfl
  · rfl

theorem length_eraseTxNoLock {s : TxOrphanage} {txid : Uint256} {it : OrphanTx}
    (hit : s.m_orphans.lookup txid = some it) :
    (eraseTxNoLock hash256 s txid).1.m_orphan_list.length = s.m_orphan_list.length - 1 := by
  rw [eraseTxNoLock_of_lookup hash256 hit]
  dsimp only
  rw [List.length_dropLast, length_moveLastInto]

/-- `EraseForPeer` keeps the invariant and takes out exactly the peer's orphans. -/
theorem eraseForPeer_spec {s : TxOrphanage} (hs : Inv hash256 s) (peer : NodeId) :
    Inv hash256 (eraseForPeer hash256 s peer) ∧ ∀ t,
      infoOf (eraseForPeer hash256 s peer) t =
        if (infoOf s t).map (fun i => i.2.1 == peer) = some true then none else infoOf s t := by
  have hs' : Inv hash256 { s with m_peer_work_set := s.m_peer_work_set.erase peer } := hs.of_indexes hash256 rfl
  refine ⟨foldl_eraseIf_inv hash256 _ _ _ hs', fun t => ?_⟩
  exact infoOf_foldl_orphanKeys hash256 hs' (fun i => i.2.1 == peer) t

theorem sweep_fst (nNow : Int) (ks : List Uint256) :
    ∀ (s : TxOrphanage) (m : Int),
      (ks.foldl (fun (acc : TxOrphanage × Int) txid =>
        (eraseIf hash256 (fun o => o.nTimeExpire ≤ nNow) acc.1 txid,
          match acc.1.m_orphans.lookup txid with
          | some o => if o.nTimeExpire ≤ nNow then acc.2 else min o.nTimeExpire acc.2
          | none => acc.2)) (s, m)).1 =
        ks.foldl (eraseIf hash256 fun o => o.nTimeExpire ≤ nNow) s := by
  induction ks with
  | nil => exact fun s m => rfl
  | cons k ks ih => exact fun s m => ih _ _

/-- The sweep keeps the invariant and takes out exactly the entries expired at `nNow`. -/
theorem sweep_spec {s : TxOrphanage} (hs : Inv hash256 s) (nNow : Int) :
    Inv hash256 (sweep hash256 s nNow).1 ∧ ∀ t,
      infoOf (sweep hash256 s nNow).1 t =
        if (infoOf s t).map (fun i => decide (i.2.2 ≤ nNow)) = some true then none else infoOf s t := by
  have hfst : (sweep hash256 s nNow).1 = (orphanKeys s).foldl (eraseIf hash256 fun o => o.nTimeExpire ≤ nNow) s :=
    sweep_fst hash256 nNow _ s _
  rw [hfst]
  exact ⟨foldl_eraseIf_inv hash256 _ _ _ hs, infoOf_foldl_orphanKeys hash256 hs (fun i => decide (i.2.2 ≤ nNow))⟩

/-- Eviction keeps the invariant, only takes entries out, and with enough rounds leaves at most
`max_orphans`: each round erases the orphan in a slot of `m_orphan_list`. -/
theorem evict_spec (max_orphans : Nat) (rand : Nat → Nat) (fuel : Nat) :
    ∀ (k : Nat) (s : TxOrphanage), Inv hash256 s → s.m_orphans.keys.length ≤ max_orphans + fuel →
      Inv hash256 (evict hash256 max_orphans rand k fuel s) ∧
      (evict hash256 max_orphans rand k fuel s).m_orphans.keys.length ≤ max_orphans ∧
      ∀ t i, infoOf (evict hash256 max_orphans rand k fuel s) t = some i → infoOf s t = some i := by
  induction fuel with
  | zero =>
    intro k s hs hsize
    rw [evict]
    exact ⟨hs, by omega, fun t i h => h⟩
  | succ fuel ih =>
    intro k s hs hsize
    rw [evict]
    split_ifs with hmore
    · -- the drawn slot holds a stored orphan, which goes
      have hlen := hs.keys_length hash256
      have hpos : rand k % s.m_orphan_list.length < s.m_orphan_list.length := Nat.mod_lt _ (by omega)
      have hget : s.m_orphan_list[rand k % s.m_orphan_list.length]? =
          some (s.m_orphan_list.getD (rand k % s.m_orphan_list.length) 0) := by
        rw [List.getD_eq_getElem?_getD, List.getElem?_eq_getElem hpos]
        rfl
      obtain ⟨o, ho, -⟩ := hs.slots.slot _ _ hget
      have hs' := eraseTxNoLock_inv hash256 hs (s.m_orphan_list.getD (rand k % s.m_orphan_list.length) 0)
      have hsize' := length_eraseTxNoLock hash256 ho
      have hlen' := hs'.keys_length hash256
      obtain ⟨hinv, hle, hshrink⟩ := ih (k + 1) _ hs' (by omega)
      refine ⟨hinv, hle, fun t i h => ?_⟩
      have h' := hshrink t i h
      rw [infoOf_eraseTxNoLock] at h'
      split_ifs at h'
      exact h'
    · exact ⟨hs, by omega, fun t i h => h⟩

/-- After `LimitOrphans(max_orphans)` the invariant holds, at most `max_orphans` orphans
remain, when the call sweeps none of them expires at or before `nNow`, and no entry was added. -/
theorem limitOrphans_spec {s : TxOrphanage} (hs : Inv hash256 s) (max_orphans : Nat) (nNow : Int)
    (rand : Nat → Nat) :
    Inv hash256 (limitOrphans hash256 s max_orphans nNow rand) ∧
      (limitOrphans hash256 s max_orphans nNow rand).m_orphans.keys.length ≤ max_orphans ∧
      (s.nNextSweep ≤ nNow → ∀ t o, (limitOrphans hash256 s max_orphans nNow rand).m_orphans.lookup t = some o →
        nNow < o.nTimeExpire) ∧
      ∀ t i, infoOf (limitOrphans hash256 s max_orphans nNow rand) t = some i → infoOf s t = some i := by
  unfold limitOrphans
  by_cases hsweep : s.nNextSweep ≤ nNow
  · rw [if_pos hsweep]
    obtain ⟨hinv, hinfo⟩ := sweep_spec hash256 hs nNow
    rcases hsw : sweep hash256 s nNow with ⟨s₁, nMinExpTime⟩
    rw [hsw] at hinv hinfo
    dsimp only at hinv hinfo ⊢
    have hs₁ : Inv hash256 { s₁ with nNextSweep := nMinExpTime + ORPHAN_TX_EXPIRE_INTERVAL } :=
      hinv.of_indexes hash256 rfl
    obtain ⟨hinv', hle, hshrink⟩ := evict_spec hash256 max_orphans rand _ 0 _ hs₁ (Nat.le_add_left _ _)
    refine ⟨hinv', hle, fun _ t o ho => ?_, fun t i hi => ?_⟩
    swap
    · have hi' : infoOf s₁ t = some i := hshrink t i hi
      rw [hinfo] at hi'
      split_ifs at hi'
      exact hi'
    have hi : infoOf s₁ t = some o.info := hshrink t o.info (by rw [infoOf, ho]; rfl)
    rw [hinfo] at hi
    split_ifs at hi with hexp
    rw [hi] at hexp
    simp only [Option.map_some, Option.some_inj, decide_eq_true_eq, not_le] at hexp
    exact hexp
  · rw [if_neg hsweep]
    obtain ⟨hinv', hle, hshrink⟩ := evict_spec hash256 max_orphans rand _ 0 _ hs (Nat.le_add_left _ _)
    exact ⟨hinv', hle, fun h => absurd h hsweep, hshrink⟩

theorem eraseForBlock_inv {s : TxOrphanage} (hs : Inv hash256 s) (block : CBlock) :
    Inv hash256 (eraseForBlock hash256 s block) := by
  unfold eraseForBlock
  dsimp only
  generalize (block.vtx.flatMap _ : List Uint256) = vOrphanErase
  induction vOrphanErase generalizing s with
  | nil => exact hs
  | cons h rest ih => exact ih (eraseTxNoLock_inv hash256 hs h)

end Operations

section Runs
variable (hash256 : Bytes → Uint256)

/-- Every stored transaction is one of `A`. -/
def Stored (A : List CTransaction) (s : TxOrphanage) : Prop := ∀ t i, infoOf s t = some i → i.1 ∈ A

/-- Transactions of `A` with one wtxid have one txid. -/
def WtxidDistinct (A : List CTransaction) : Prop :=
  ∀ tx ∈ A, ∀ tx' ∈ A, getWitnessHash hash256 tx = getWitnessHash hash256 tx' → getHash hash256 tx = getHash hash256 tx'

theorem Stored.of_shrink {A : List CTransaction} {s s' : TxOrphanage} (h : Stored A s)
    (hshrink : ∀ t i, infoOf s' t = some i → infoOf s t = some i) : Stored A s' :=
  fun t i hi => h t i (hshrink t i hi)

theorem infoOf_addTx (s : TxOrphanage) (tx : CTransaction) (peer : NodeId) (nNow : Int) (t : Uint256)
    (i : CTransaction × NodeId × Int) (h : infoOf (addTx hash256 s tx peer nNow).1 t = some i) :
    infoOf s t = some i ∨ i.1 = tx := by
  unfold addTx at h
  simp only at h
  split_ifs at h
  · exact Or.inl h
  · exact Or.inl h
  · unfold infoOf at h ⊢
    by_cases ht : t = getHash hash256 tx
    · rw [ht, AList.lookup_insert] at h
      simp only [Option.map_some, Option.some_inj] at h
      exact Or.inr (by rw [← h]; rfl)
    · rw [AList.lookup_insert_ne ht] at h
      exact Or.inl h

theorem txOf_eq_some {s : TxOrphanage} {t : Uint256} {tx : CTransaction} (h : txOf s t = some tx) :
    ∃ i, infoOf s t = some i ∧ i.1 = tx := by
  rw [txOf, map_tx_eq_map_info, Option.map_eq_some_iff] at h
  obtain ⟨i, hi, rfl⟩ := h
  exact ⟨i, hi, rfl⟩

theorem eraseForBlock_shrink (s : TxOrphanage) (block : CBlock) (t : Uint256) (i : CTransaction × NodeId × Int)
    (h : infoOf (eraseForBlock hash256 s block) t = some i) : infoOf s t = some i := by
  unfold eraseForBlock at h
  dsimp only at h
  generalize (block.vtx.flatMap _ : List Uint256) = vOrphanErase at h
  induction vOrphanErase generalizing s with
  | nil => exact h
  | cons k rest ih =>
    have h' := ih _ h
    rw [infoOf_eraseTxNoLock] at h'
    split_ifs at h'
    exact h'

theorem mem_addedTxs_cons (c : Call) (calls : List Call) (tx : CTransaction) :
    tx ∈ addedTxs (c :: calls) ↔ tx ∈ addedTxs [c] ∨ tx ∈ addedTxs calls := by
  cases c <;> simp [addedTxs]

/-- One call keeps the invariant, and stores only transactions it or earlier calls offered. -/
theorem step_inv {A : List CTransaction} (hA : WtxidDistinct hash256 A) {s : TxOrphanage} (hs : Inv hash256 s)
    (hst : Stored A s) (c : Call) (hc : ∀ tx ∈ addedTxs [c], tx ∈ A) :
    Inv hash256 (step hash256 s c) ∧ Stored A (step hash256 s c) := by
  cases c with
  | addTx tx peer nNow =>
    have htx : tx ∈ A := hc tx (by simp [addedTxs])
    refine ⟨addTx_inv hash256 hs tx peer nNow fun t tx' h hw => ?_, fun t i hi => ?_⟩
    · obtain ⟨i, hi, rfl⟩ := txOf_eq_some h
      exact hA _ (hst t i hi) tx htx hw
    · rcases infoOf_addTx hash256 s tx peer nNow t i hi with h | h
      · exact hst t i h
      · exact h ▸ htx
  | eraseTx txid =>
    refine ⟨eraseTxNoLock_inv hash256 hs txid, hst.of_shrink fun t i hi => ?_⟩
    rw [step, infoOf_eraseTxNoLock] at hi
    split_ifs at hi
    exact hi
  | eraseForPeer peer =>
    obtain ⟨hinv, hinfo⟩ := eraseForPeer_spec hash256 hs peer
    refine ⟨hinv, hst.of_shrink fun t i hi => ?_⟩
    rw [step, hinfo] at hi
    split_ifs at hi
    exact hi
  | eraseForBlock block =>
    exact ⟨eraseForBlock_inv hash256 hs block, hst.of_shrink (eraseForBlock_shrink hash256 s block)⟩
  | limitOrphans max_orphans nNow rand =>
    obtain ⟨hinv, -, -, hshrink⟩ := limitOrphans_spec hash256 hs max_orphans nNow rand
    exact ⟨hinv, hst.of_shrink hshrink⟩
  | addChildrenToWorkSet tx =>
    have h := indexes_addChildrenToWorkSet hash256 s tx
    exact ⟨hs.of_indexes hash256 h, hst.of_shrink fun t i hi => (info_eq_of_indexes h t) ▸ hi⟩
  | getTxToReconsider peer =>
    have h := indexes_getTxToReconsider s peer
    exact ⟨hs.of_indexes hash256 h, hst.of_shrink fun t i hi => (info_eq_of_indexes h t) ▸ hi⟩

theorem run_inv {A : List CTransaction} (hA : WtxidDistinct hash256 A) (calls : List Call) :
    ∀ s, Inv hash256 s → Stored A s → (∀ tx ∈ addedTxs calls, tx ∈ A) →
      Inv hash256 (run hash256 s calls) ∧ Stored A (run hash256 s calls) := by
  induction calls with
  | nil => exact fun s hs hst _ => ⟨hs, hst⟩
  | cons c calls ih =>
    intro s hs hst hcalls
    obtain ⟨hs', hst'⟩ := step_inv hash256 hA hs hst c fun tx h =>
      hcalls tx ((mem_addedTxs_cons c calls tx).mpr (Or.inl h))
    exact ih _ hs' hst' fun tx h => hcalls tx ((mem_addedTxs_cons c calls tx).mpr (Or.inr h))

theorem addedTxs_take (calls : List Call) (n : Nat) (tx : CTransaction) (h : tx ∈ addedTxs (calls.take n)) :
    tx ∈ addedTxs calls := by
  induction calls generalizing n with
  | nil => simpa using h
  | cons c calls ih =>
    cases n with
    | zero => simp [addedTxs] at h
    | succ n =>
      rw [List.take_succ_cons, mem_addedTxs_cons] at h
      rw [mem_addedTxs_cons]
      exact h.imp id (ih n)

/-- The orphanage's indexes are consistent after every call of every sequence from an empty
orphanage in which the transactions offered to `AddTx` that share a wtxid share their txid. -/
theorem orphanage_indexes_consistent (calls : List Call) (hA : WtxidDistinct hash256 (addedTxs calls)) (n : Nat) :
    Inv hash256 (run hash256 TxOrphanage.empty (calls.take n)) :=
  (run_inv hash256 hA (calls.take n) _ (inv_empty hash256) (fun t i h => by simp [infoOf, TxOrphanage.empty] at h)
    (addedTxs_take calls n)).1

/-- The wtxid hashes the witness serialization, which is the plain one when there is no witness. -/
theorem getWitnessHash_eq (tx : CTransaction) :
    getWitnessHash hash256 tx = hash256 (serializeTransaction tx true) := by
  unfold getWitnessHash getHash
  split_ifs with hw
  · rfl
  · simp [serializeTransaction, hw]

/-- Transactions with an input whose witness serializations the hash tells apart have one txid
when they have one wtxid. -/
theorem wtxidDistinct_of_inputs {A : List CTransaction} (hwire : ∀ tx ∈ A, tx.vin ≠ [] ∧ WithinMaxSize tx)
    (hhash : ∀ tx ∈ A, ∀ tx' ∈ A, hash256 (serializeTransaction tx true) = hash256 (serializeTransaction tx' true) →
      serializeTransaction tx true = serializeTransaction tx' true) :
    WtxidDistinct hash256 A := by
  intro tx htx tx' htx' hw
  rw [getWitnessHash_eq, getWitnessHash_eq] at hw
  obtain ⟨hvin, hsize⟩ := hwire tx htx
  obtain ⟨hvin', hsize'⟩ := hwire tx' htx'
  rw [getHash, getHash, serializeTransaction_false_eq hvin hvin' hsize hsize' (hhash tx htx tx' htx' hw)]

/-- A run up to a call and through it: the call steps the state the run left. -/
theorem run_take_succ {calls : List Call} {n : Nat} {c : Call} (hc : calls[n]? = some c) (s : TxOrphanage) :
    run hash256 s (calls.take (n + 1)) = step hash256 (run hash256 s (calls.take n)) c := by
  rw [List.take_add_one, hc, Option.toList_some, run, List.foldl_append]
  rfl

-- A transaction without inputs whose witness-free serialization is the witness serialization of a
-- one-input transaction: the output's value and script spell out that input, the empty output
-- list and the witness.
namespace WtxidCollision

def witnessTx : CTransaction :=
  ⟨[⟨⟨BitVec.ofNat 256 (0x25 * 2 ^ 56), 0⟩, [], 0xffffffff, [[0x01]]⟩], [], 2, 0, 0⟩

def zeroInput : CTransaction :=
  ⟨[], [⟨1, List.replicate 28 0 ++ [0x00, 0xff, 0xff, 0xff, 0xff, 0x00, 0x01, 0x01, 0x01]⟩], 2, 0, 0⟩

theorem serialize_eq : serializeTransaction zeroInput false = serializeTransaction witnessTx true := by
  decide

/-- A stand-in hash that tells the two witness-free serializations apart by their length. -/
def lengthHash (bs : Bytes) : Uint256 := BitVec.ofNat 256 bs.length

end WtxidCollision

/-- The orphanage's indexes stay consistent over every sequence of calls from an empty orphanage
in which each transaction offered to `AddTx` has an input, as `CheckTransaction` requires, and
counts and sizes within `MAX_SIZE`, as every transaction read from the network has, provided the
hash does not collide on their witness serializations; and each `LimitOrphans(max_orphans)`
leaves at most `max_orphans` orphans, none of which expires by `nNow` when the call sweeps. -/
theorem orphanage_consistent_of_inputs (calls : List Call)
    (hwire : ∀ tx ∈ addedTxs calls, tx.vin ≠ [] ∧ WithinMaxSize tx)
    (hhash : ∀ tx ∈ addedTxs calls, ∀ tx' ∈ addedTxs calls,
      hash256 (serializeTransaction tx true) = hash256 (serializeTransaction tx' true) →
        serializeTransaction tx true = serializeTransaction tx' true) (n : Nat) :
    Inv hash256 (run hash256 TxOrphanage.empty (calls.take n)) ∧
      ∀ max_orphans nNow rand, calls[n]? = some (.limitOrphans max_orphans nNow rand) →
        (run hash256 TxOrphanage.empty (calls.take (n + 1))).m_orphans.keys.length ≤ max_orphans ∧
          ((run hash256 TxOrphanage.empty (calls.take n)).nNextSweep ≤ nNow → ∀ t o,
            (run hash256 TxOrphanage.empty (calls.take (n + 1))).m_orphans.lookup t = some o →
              nNow < o.nTimeExpire) := by
  have hinv := fun n => orphanage_indexes_consistent hash256 calls (wtxidDistinct_of_inputs hash256 hwire hhash) n
  refine ⟨hinv n, fun max_orphans nNow rand hc => ?_⟩
  -- the call at `n` is `LimitOrphans` on the state the run left
  rw [run_take_succ hash256 hc]
  obtain ⟨-, hle, hexp, -⟩ := limitOrphans_spec hash256 (hinv n) max_orphans nNow rand
  exact ⟨hle, hexp⟩

open WtxidCollision in
/-- `witnessTx` offered, then `LimitOrphans(0)` sweeping at time `0`: the orphanage is emptied. -/
theorem orphanage_consistent_of_inputs_limit :
    (∀ tx ∈ addedTxs [.addTx witnessTx 0 0, .limitOrphans 0 0 fun _ => 0], tx.vin ≠ [] ∧ WithinMaxSize tx) ∧
      (run lengthHash TxOrphanage.empty ([.addTx witnessTx 0 0, .limitOrphans 0 0 fun _ => 0].take 2)).m_orphans.keys.length
        ≤ 0 := by
  have hwire : ∀ tx ∈ addedTxs [.addTx witnessTx 0 0, .limitOrphans 0 0 fun _ => 0], tx.vin ≠ [] ∧ WithinMaxSize tx := by
    simp only [addedTxs, List.mem_singleton, forall_eq]
    exact ⟨by decide, by decide, by decide, by decide, by decide, by decide, by decide⟩
  refine ⟨hwire, ((orphanage_consistent_of_inputs lengthHash _ hwire (by simp [addedTxs]) 1).2 0 0 _ rfl).1⟩

end Runs

open WtxidCollision in
/-- The two transactions share a wtxid, so `AddTx` keeps the first in `m_wtxid_to_orphan_it`,
and `EraseTx` of the first drops the key the second still needs: afterwards the second is stored
while `HaveTx` by its wtxid fails. -/
theorem eraseTx_drops_shared_wtxid (hash256 : Bytes → Uint256)
    (hne : hash256 (serializeTransaction zeroInput false) ≠ hash256 (serializeTransaction witnessTx false)) :
    getWitnessHash hash256 witnessTx = getWitnessHash hash256 zeroInput ∧
      txOf (run hash256 TxOrphanage.empty
        [.addTx zeroInput 0 0, .addTx witnessTx 0 0, .eraseTx (getHash hash256 zeroInput)])
        (getHash hash256 witnessTx) = some witnessTx ∧
      haveTx (run hash256 TxOrphanage.empty
        [.addTx zeroInput 0 0, .addTx witnessTx 0 0, .eraseTx (getHash hash256 zeroInput)])
        (.wtxid (getWitnessHash hash256 witnessTx)) = false := by
  have hwB : getWitnessHash hash256 witnessTx = getHash hash256 zeroInput := by
    rw [getWitnessHash, if_pos (by decide), getHash, serialize_eq]
  have hwA : getWitnessHash hash256 zeroInput = getHash hash256 zeroInput := by
    rw [getWitnessHash, if_neg (by decide)]
  have hab : getHash hash256 zeroInput ≠ getHash hash256 witnessTx := hne
  have hweightA : ¬MAX_STANDARD_TX_WEIGHT < getTransactionWeight zeroInput := by decide
  have hweightB : ¬MAX_STANDARD_TX_WEIGHT < getTransactionWeight witnessTx := by decide
  have hvinA : zeroInput.vin = [] := rfl
  refine ⟨hwB.trans hwA.symm, ?_⟩
  set s₁ := (addTx hash256 TxOrphanage.empty zeroInput 0 0).1 with hs₁
  set s₂ := (addTx hash256 s₁ witnessTx 0 0).1 with hs₂
  have hrun : run hash256 TxOrphanage.empty
      [.addTx zeroInput 0 0, .addTx witnessTx 0 0, .eraseTx (getHash hash256 zeroInput)] =
      (eraseTxNoLock hash256 s₂ (getHash hash256 zeroInput)).1 := rfl
  -- the first call stores `zeroInput` under its txid, which is also its wtxid
  have h₁ : s₁.m_orphans = AList.insert (getHash hash256 zeroInput) ⟨zeroInput, 0, ORPHAN_TX_EXPIRE_TIME, 0⟩ ∅ ∧
      s₁.m_orphan_list = [getHash hash256 zeroInput] ∧
      s₁.m_wtxid_to_orphan_it = AList.insert (getHash hash256 zeroInput) (getHash hash256 zeroInput) ∅ := by
    simp [hs₁, addTx, hweightA, hwA, emplace, TxOrphanage.empty, -AList.insert_empty]
  -- the second stores `witnessTx`, whose wtxid is taken: `emplace` leaves the map as it was
  have h₂ : txOf s₂ (getHash hash256 witnessTx) = some witnessTx ∧
      s₂.m_orphans.lookup (getHash hash256 zeroInput) = some ⟨zeroInput, 0, ORPHAN_TX_EXPIRE_TIME, 0⟩ ∧
      s₂.m_wtxid_to_orphan_it = s₁.m_wtxid_to_orphan_it := by
    simp [hs₂, addTx, h₁, hweightB, hwB, emplace, txOf, hab, hab.symm, AList.mem_keys, AList.keys_insert,
      AList.lookup_insert_ne, -AList.insert_empty]
  -- erasing `zeroInput` erases the shared wtxid, and `witnessTx` stays
  rw [hrun, txOf_eraseTxNoLock, if_neg hab.symm, eraseTxNoLock_of_lookup hash256 h₂.2.1]
  refine ⟨h₂.1, ?_⟩
  simp [haveTx, h₂.2.2, h₁, hwA, hwB, AList.mem_keys, AList.keys_erase, -AList.insert_empty]

open WtxidCollision in
/-- Under a hash that tells the two txids apart, here by length: `witnessTx` stays stored after
`EraseTx(zeroInput)` while `HaveTx` by its wtxid fails. -/
theorem eraseTx_drops_shared_wtxid_lengthHash :
    getWitnessHash lengthHash witnessTx = getWitnessHash lengthHash zeroInput ∧
      txOf (run lengthHash TxOrphanage.empty
        [.addTx zeroInput 0 0, .addTx witnessTx 0 0, .eraseTx (getHash lengthHash zeroInput)])
        (getHash lengthHash witnessTx) = some witnessTx ∧
      haveTx (run lengthHash TxOrphanage.empty
        [.addTx zeroInput 0 0, .addTx witnessTx 0 0, .eraseTx (getHash lengthHash zeroInput)])
        (.wtxid (getWitnessHash lengthHash witnessTx)) = false :=
  eraseTx_drops_shared_wtxid lengthHash (by decide)

end BlackcoinMore.Orphanage
