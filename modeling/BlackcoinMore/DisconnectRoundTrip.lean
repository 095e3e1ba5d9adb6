import BlackcoinMore.DisconnectBlock

/-!
# Disconnecting a block undoes connecting it

`DisconnectBlock`, given the undo data `ConnectBlock` wrote, gives back the unspent coins of
the view the block was connected to. The argument is local to each transaction: its outputs,
which `AddCoins` stored, are spent again, and the coins `SpendCoin` moved into its undo record
are put back, from the last transaction to the first. `ApplyTxInUndo` takes the metadata of an
undo coin of height zero from another output of the same transaction, so the round trip holds
for views whose coins carry a height.
-/
namespace BlackcoinMore.DisconnectRoundTrip
open Primitives Coins BlockChecks ConnectBlock DisconnectBlock DisconnectResult ExceptFold

/-- The unspent coins of a view, as a partial map: what the round trip gives back. -/
def unspentCoins (view : CoinsView) (o : COutPoint) : Option Coin :=
  if (view.coins o).isSpent then none else some (view.coins o)

/-- What `ApplyTxInUndo` needs of a coin to put it back as it was: a height (an undo coin of
height zero is taken for a legacy record), a coin, and a script `AddCoin` stores. -/
def GoodCoins (u : COutPoint → Option Coin) : Prop :=
  ∀ o c, u o = some c → 0 < c.nHeight ∧ c.isSpent = false ∧ isUnspendable c.out.scriptPubKey = false

section View
variable {view : CoinsView} {o : COutPoint} {c : Coin}

theorem unspentCoins_eq_some : unspentCoins view o = some c ↔ (view.coins o).isSpent = false ∧ view.coins o = c := by
  unfold unspentCoins
  cases (view.coins o).isSpent <;> simp

@[simp] theorem unspentCoins_setBestBlock (h : Uint256) :
    unspentCoins (view.setBestBlock h) = unspentCoins view := rfl

theorem unspentCoins_setCoin (o : COutPoint) (c : Coin) :
    unspentCoins (view.setCoin o c) =
      Function.update (unspentCoins view) o (if c.isSpent then none else some c) := by
  funext o'
  by_cases ho : o' = o
  · subst ho
    simp [unspentCoins]
  · simp [unspentCoins, Function.update_of_ne ho]

@[simp] theorem unspentCoins_setCoin_empty (o : COutPoint) :
    unspentCoins (view.setCoin o Coin.empty) = Function.update (unspentCoins view) o none := by
  simp [unspentCoins_setCoin]

theorem haveCoin_eq_isSome : view.haveCoin o = (unspentCoins view o).isSome := by
  unfold CoinsView.haveCoin unspentCoins
  cases (view.coins o).isSpent <;> rfl

theorem unspentCoins_of_haveCoin (h : view.haveCoin o = true) : unspentCoins view o = some (view.coins o) := by
  simpa [CoinsView.haveCoin, unspentCoins] using h

theorem spendCoin_of_unspentCoins (h : unspentCoins view o = some c) :
    view.spendCoin o = some (c, view.setCoin o Coin.empty) := by
  obtain ⟨hs, rfl⟩ := unspentCoins_eq_some.mp h
  simp [CoinsView.spendCoin, CoinsView.haveCoin, hs]

theorem goodCoins_update_none {u : COutPoint → Option Coin} (h : GoodCoins u) :
    GoodCoins (Function.update u o none) := by
  intro o' c hc
  by_cases ho : o' = o
  · subst ho
    simp at hc
  · rw [Function.update_of_ne ho] at hc
    exact h o' c hc

end View

section Inputs

/-- The inputs of a transaction with the coins they spend, in order: each coin is unspent
once the coins before it are spent, and `u'` is what remains. -/
def Spends : (COutPoint → Option Coin) → List (CTxIn × Coin) → (COutPoint → Option Coin) → Prop
  | u, [], u' => u' = u
  | u, (txin, c) :: ins, u' => u txin.prevout = some c ∧ Spends (Function.update u txin.prevout none) ins u'

theorem Spends.good : ∀ {u u' : COutPoint → Option Coin} {ins : List (CTxIn × Coin)},
    Spends u ins u' → GoodCoins u → GoodCoins u'
  | _, _, [], hs, hg => by
    rw [show _ = _ from hs]
    exact hg
  | _, _, (_, _) :: _, hs, hg => hs.2.good (goodCoins_update_none hg)

variable {F : CoinsView × List Coin → CTxIn → Except String (CoinsView × List Coin)}

/-- The input loop of `UpdateCoins`, for any loop body that spends each input's coin and
appends it to the undo record. -/
theorem spendInputs_loop
    (hF : ∀ V pre txin r, F (V, pre) txin = .ok r →
      ∃ c, unspentCoins V txin.prevout = some c ∧ r = (V.setCoin txin.prevout Coin.empty, pre ++ [c])) :
    ∀ (ins : List CTxIn) (V : CoinsView) (pre : List Coin) (V' : CoinsView) (undo : List Coin),
      ins.foldlM F (V, pre) = .ok (V', undo) →
      ∃ us, undo = pre ++ us ∧ us.length = ins.length ∧ Spends (unspentCoins V) (ins.zip us) (unspentCoins V') := by
  intro ins
  induction ins with
  | nil =>
    intro V pre V' undo h
    cases h
    exact ⟨[], by simp, rfl, rfl⟩
  | cons txin ins ih =>
    intro V pre V' undo h
    rw [List.foldlM_cons] at h
    obtain ⟨r, hr, h⟩ := bind_eq_ok h
    obtain ⟨c, hc, rfl⟩ := hF V pre txin r hr
    obtain ⟨us, rfl, hl, hs⟩ := ih _ _ _ _ h
    rw [unspentCoins_setCoin_empty] at hs
    exact ⟨c :: us, by simp, by simp [hl], hc, hs⟩

/-- `SpendInputs` moves the coin of every input into the undo record, in order. -/
theorem spendInputs_spends {view view' : CoinsView} {tx : CTransaction} {txundo : List Coin}
    (h : spendInputs view tx = .ok (view', txundo)) :
    txundo.length = tx.vin.length ∧ Spends (unspentCoins view) (tx.vin.zip txundo) (unspentCoins view') := by
  unfold spendInputs at h
  -- the step is the source's own lambda, read off h
  have hloop := spendInputs_loop ?_ tx.vin view [] view' txundo h
  · obtain ⟨us, rfl, hl, hs⟩ := hloop
    exact ⟨hl, by simpa using hs⟩
  · intro V pre txin r hr
    simp only at hr
    split at hr
    next coin V1 hsp =>
      cases hr
      obtain ⟨hhave, rfl, rfl⟩ := CoinsView.spendCoin_eq_some hsp
      exact ⟨_, unspentCoins_of_haveCoin hhave, rfl⟩
    next => cases hr

/-- A coin put back at an outpoint that holds no unspent coin is stored as it is. -/
theorem applyTxInUndo_fresh {view : CoinsView} {o : COutPoint} {c : Coin}
    (hfree : unspentCoins view o = none)
    (hc : 0 < c.nHeight ∧ c.isSpent = false ∧ isUnspendable c.out.scriptPubKey = false) :
    applyTxInUndo c view o = .ok (DISCONNECT_OK, view.setCoin o c) := by
  have hhave : view.haveCoin o = false := by simp [haveCoin_eq_isSome, hfree]
  obtain ⟨hh, hs, hu⟩ := hc
  simp [applyTxInUndo, recoverUndoMetadata, hhave, Nat.pos_iff_ne_zero.mp hh, CoinsView.addCoin, hs, hu]

/-- The input loop of `DisconnectBlock` puts back, from the last input to the first, the coins
the input loop of `UpdateCoins` spent. -/
theorem restoreInputs_spends : ∀ {ins : List (CTxIn × Coin)} {u u' : COutPoint → Option Coin}
    {W : CoinsView}, Spends u ins u' → GoodCoins u → unspentCoins W = u' →
    ∃ W0, restoreInputs W ins = .ok (DISCONNECT_OK, W0) ∧ unspentCoins W0 = u := by
  intro ins
  induction ins with
  | nil =>
    intro u u' W hs _ hW
    exact ⟨W, rfl, hW.trans hs⟩
  | cons p ins ih =>
    obtain ⟨txin, c⟩ := p
    intro u u' W hs hg hW
    obtain ⟨hc, hs⟩ := hs
    -- the later inputs come back first, leaving this input's outpoint free
    obtain ⟨Wm, hm, hWm⟩ := ih hs (goodCoins_update_none hg) hW
    have hfree : unspentCoins Wm txin.prevout = none := by simp [hWm]
    refine ⟨Wm.setCoin txin.prevout c, ?_, ?_⟩
    · unfold restoreInputs at hm ⊢
      rw [List.foldrM_cons, hm]
      simp only [bind, Except.bind, applyTxInUndo_fresh hfree (hg _ _ hc)]
      rfl
    · rw [unspentCoins_setCoin, hWm, (hg _ _ hc).2.1, Function.update_idem, if_neg Bool.false_ne_true,
        ← hc, Function.update_eq_self]

end Inputs

section Outputs
variable {txid : Uint256} {tx : CTransaction} {nHeight : Nat}

/-- The coin `AddCoins` makes of an output of `tx` at height `nHeight`. -/
def outputCoin (tx : CTransaction) (nHeight : Nat) (out : CTxOut) : Coin :=
  ⟨out, tx.isCoinBase, tx.isCoinStake, nHeight, tx.nTime⟩

/-- The coins that outputs of the transaction `txid`, with their indices, create: one for
each output but an unspendable one. -/
def created (txid : Uint256) (tx : CTransaction) (nHeight : Nat) :
    List (CTxOut × Nat) → COutPoint → Option Coin
  | [], _ => none
  | (out, j) :: outs, o =>
    if o = ⟨txid, j.toUInt32⟩ ∧ isUnspendable out.scriptPubKey = false then some (outputCoin tx nHeight out)
    else created txid tx nHeight outs o

/-- Below `2 ^ 32` output indices name distinct outpoints. -/
theorem outPoint_ne_of_lt {j n : Nat} (hj : j < 2 ^ 32) (hn : n < 2 ^ 32) (hne : j ≠ n) :
    (⟨txid, j.toUInt32⟩ : COutPoint) ≠ ⟨txid, n.toUInt32⟩ := by
  intro h
  have := congrArg UInt32.toNat (COutPoint.mk.inj h).2
  rw [UInt32.toNat_ofNat_of_lt' hj, UInt32.toNat_ofNat_of_lt' hn] at this
  exact hne this

theorem created_cons_self {out : CTxOut} {n : Nat} {outs : List (CTxOut × Nat)}
    (hun : isUnspendable out.scriptPubKey = false) :
    created txid tx nHeight ((out, n) :: outs) ⟨txid, n.toUInt32⟩ = some (outputCoin tx nHeight out) := by
  simp [created, hun]

theorem created_cons_of_ne {out : CTxOut} {n : Nat} {outs : List (CTxOut × Nat)} {o : COutPoint}
    (ho : o ≠ ⟨txid, n.toUInt32⟩) :
    created txid tx nHeight ((out, n) :: outs) o = created txid tx nHeight outs o := by
  simp [created, ho]

theorem created_cons_unspendable {out : CTxOut} {n : Nat} {outs : List (CTxOut × Nat)} {o : COutPoint}
    (hun : isUnspendable out.scriptPubKey = true) :
    created txid tx nHeight ((out, n) :: outs) o = created txid tx nHeight outs o := by
  simp [created, hun]

theorem created_eq_none {o : COutPoint} : ∀ (l : List CTxOut) (n : Nat),
    (∀ j, n ≤ j → j < n + l.length → o ≠ ⟨txid, j.toUInt32⟩) →
    created txid tx nHeight (l.zipIdx n) o = none := by
  intro l
  induction l with
  | nil => intro n _; rfl
  | cons out l ih =>
    intro n hfar
    rw [List.zipIdx_cons, created_cons_of_ne (hfar n le_rfl (by simp))]
    exact ih (n + 1) fun j h1 h2 => hfar j (by omega) (by simp; omega)

/-- The outputs after output `n` do not create a coin at output `n`'s outpoint. -/
theorem created_succ_self {l : List CTxOut} {n : Nat} (hlen : n + 1 + l.length ≤ 2 ^ 32) :
    created txid tx nHeight (l.zipIdx (n + 1)) ⟨txid, n.toUInt32⟩ = none :=
  created_eq_none l (n + 1) fun j h1 h2 => (outPoint_ne_of_lt (by omega) (by omega) (by omega)).symm

theorem created_eq_some {o : COutPoint} {c : Coin} : ∀ {outs : List (CTxOut × Nat)},
    created txid tx nHeight outs o = some c → c.nHeight = nHeight ∧ isUnspendable c.out.scriptPubKey = false
  | [], h => by cases h
  | (out, j) :: outs, h => by
    unfold created at h
    split at h
    next hm =>
      cases h
      exact ⟨rfl, hm.2⟩
    next => exact created_eq_some h

variable {F : CoinsView → CTxOut × Nat → Except String CoinsView}

/-- The output loop of `AddCoins`: the coins the outputs create are stored at outpoints that
were free, so the unspent coins are those before with the created ones added. -/
theorem addCoins_loop
    (hF : ∀ V out i, F V (out, i) = V.addCoin ⟨txid, i.toUInt32⟩ (outputCoin tx nHeight out) tx.isCoinBase) :
    ∀ (l : List CTxOut) (n : Nat) (V V' : CoinsView), (l.zipIdx n).foldlM F V = .ok V' →
      n + l.length ≤ 2 ^ 32 →
      (tx.isCoinBase = true → ∀ j, n ≤ j → j < n + l.length → unspentCoins V ⟨txid, j.toUInt32⟩ = none) →
      (∀ o, (created txid tx nHeight (l.zipIdx n) o).isSome → unspentCoins V o = none) ∧
        unspentCoins V' = fun o => (created txid tx nHeight (l.zipIdx n) o).or (unspentCoins V o) := by
  intro l
  induction l with
  | nil =>
    intro n V V' h _ _
    cases h
    exact ⟨fun o ho => by simp [created] at ho, by funext o; simp [created]⟩
  | cons out l ih =>
    intro n V V' h hlen hfree
    simp only [List.length_cons] at hlen hfree
    rw [List.zipIdx_cons] at h ⊢
    rw [List.foldlM_cons] at h
    obtain ⟨Va, ha, h⟩ := bind_eq_ok h
    rw [hF] at ha
    obtain ⟨hns, ⟨hun, hva⟩ | ⟨hsp, hp, hva⟩⟩ := CoinsView.addCoin_eq_ok ha <;> rw [hva] at h
    · -- an unspendable output is not stored
      replace hun : isUnspendable out.scriptPubKey = true := hun
      obtain ⟨hfr, heq⟩ := ih (n + 1) V V' h (by omega) fun hcb j h1 h2 => hfree hcb j (by omega) (by omega)
      simp only [created_cons_unspendable hun]
      exact ⟨hfr, heq⟩
    · -- a spendable output is stored at its outpoint, which was free
      replace hsp : isUnspendable out.scriptPubKey = false := hsp
      have hxfree : unspentCoins V ⟨txid, n.toUInt32⟩ = none := by
        cases hcb : tx.isCoinBase
        · rw [hcb] at hp
          simpa [haveCoin_eq_isSome] using hp
        · exact hfree hcb n le_rfl (by omega)
      have hVa : unspentCoins (V.setCoin ⟨txid, n.toUInt32⟩ (outputCoin tx nHeight out)) =
          Function.update (unspentCoins V) ⟨txid, n.toUInt32⟩ (some (outputCoin tx nHeight out)) := by
        rw [unspentCoins_setCoin, hns]
        rfl
      obtain ⟨hfr, heq⟩ := ih (n + 1) _ V' h (by omega) fun hcb j h1 h2 => by
        rw [hVa, Function.update_of_ne (outPoint_ne_of_lt (by omega) (by omega) (by omega))]
        exact hfree hcb j (by omega) (by omega)
      have hx := @created_succ_self txid tx nHeight l n (by omega)
      refine ⟨fun o ho => ?_, ?_⟩
      · by_cases hox : o = ⟨txid, n.toUInt32⟩
        · rw [hox]
          exact hxfree
        · rw [created_cons_of_ne hox] at ho
          have := hfr o ho
          rwa [hVa, Function.update_of_ne hox] at this
      · rw [heq]
        funext o
        by_cases hox : o = ⟨txid, n.toUInt32⟩
        · subst hox
          simp [hx, hVa, created_cons_self hsp]
        · simp [hVa, Function.update_of_ne hox, created_cons_of_ne hox]

variable {G : Bool × CoinsView → CTxOut × Nat → Bool × CoinsView}

/-- The output loop of `DisconnectBlock`, for any loop body that skips unspendable outputs and
spends each other output, finding there the coin it created. -/
theorem spendOutputs_loop
    (hskip : ∀ b W out j, isUnspendable out.scriptPubKey = true → G (b, W) (out, j) = (b, W))
    (hspend : ∀ b W out j, isUnspendable out.scriptPubKey = false →
      unspentCoins W ⟨txid, j.toUInt32⟩ = some (outputCoin tx nHeight out) →
      G (b, W) (out, j) = (b, W.setCoin ⟨txid, j.toUInt32⟩ Coin.empty)) :
    ∀ (l : List CTxOut) (n : Nat) (b : Bool) (W : CoinsView) (u : COutPoint → Option Coin),
      n + l.length ≤ 2 ^ 32 → (∀ o, (created txid tx nHeight (l.zipIdx n) o).isSome → u o = none) →
      unspentCoins W = (fun o => (created txid tx nHeight (l.zipIdx n) o).or (u o)) →
      ∃ W', (l.zipIdx n).foldl G (b, W) = (b, W') ∧ unspentCoins W' = u := by
  intro l
  induction l with
  | nil =>
    intro n b W u _ _ hW
    exact ⟨W, rfl, by rw [hW]; funext o; simp [created]⟩
  | cons out l ih =>
    intro n b W u hlen hfresh hW
    simp only [List.length_cons] at hlen
    rw [List.zipIdx_cons] at hfresh hW ⊢
    rw [List.foldl_cons]
    cases hun : isUnspendable out.scriptPubKey
    · -- the coin this output created is spent
      have hx := @created_succ_self txid tx nHeight l n (by omega)
      have hWx : unspentCoins W ⟨txid, n.toUInt32⟩ = some (outputCoin tx nHeight out) := by
        simp [hW, created_cons_self hun]
      rw [hspend b W out n hun hWx]
      refine ih (n + 1) b _ u (by omega) (fun o ho => ?_) ?_
      · have hox : o ≠ ⟨txid, n.toUInt32⟩ := by
          rintro rfl
          simp [hx] at ho
        exact hfresh o (by rwa [created_cons_of_ne hox])
      · rw [unspentCoins_setCoin_empty, hW]
        funext o
        by_cases hox : o = ⟨txid, n.toUInt32⟩
        · subst hox
          have hu := hfresh ⟨txid, n.toUInt32⟩ (by rw [created_cons_self hun]; rfl)
          simp [hx, hu]
        · simp [Function.update_of_ne hox, created_cons_of_ne hox]
    · -- an unspendable output created no coin
      rw [hskip b W out n hun]
      simp only [created_cons_unspendable hun] at hfresh hW
      exact ih (n + 1) b W u (by omega) hfresh hW

/-- Spending an output finds the coin `AddCoins` made of it. -/
theorem spendOutput_created {hash : Uint256} {W : CoinsView} {out : CTxOut} {j : Nat}
    (hu : unspentCoins W ⟨hash, j.toUInt32⟩ = some (outputCoin tx nHeight out)) :
    spendOutput hash tx nHeight W (out, j) = (true, W.setCoin ⟨hash, j.toUInt32⟩ Coin.empty) := by
  simp [spendOutput, spendCoin_of_unspentCoins hu, outputCoin]

variable {hash256 : Bytes → Uint256}

/-- `AddCoins` adds the coins the outputs create, at outpoints that held no unspent coin. -/
theorem addCoins_created {view view' : CoinsView} (h : addCoins hash256 view tx nHeight = .ok view')
    (hlen : tx.vout.length ≤ 2 ^ 32)
    (hfree : tx.isCoinBase = true → ∀ j < tx.vout.length,
      unspentCoins view ⟨getHash hash256 tx, j.toUInt32⟩ = none) :
    (∀ o, (created (getHash hash256 tx) tx nHeight tx.vout.zipIdx o).isSome → unspentCoins view o = none) ∧
      unspentCoins view' = fun o => (created (getHash hash256 tx) tx nHeight tx.vout.zipIdx o).or (unspentCoins view o) :=
  addCoins_loop (fun _ _ _ => rfl) tx.vout 0 view view' h (by simpa using hlen)
    fun hcb j _ hj => hfree hcb j (by simpa using hj)

/-- The output loop of `DisconnectBlock` spends the coins the outputs created, and finds each
one as it was made. -/
theorem spendOutputs_created {W : CoinsView} {u : COutPoint → Option Coin}
    (hlen : tx.vout.length ≤ 2 ^ 32)
    (hfresh : ∀ o, (created (getHash hash256 tx) tx nHeight tx.vout.zipIdx o).isSome → u o = none)
    (hW : unspentCoins W = fun o => (created (getHash hash256 tx) tx nHeight tx.vout.zipIdx o).or (u o)) :
    ∃ W', spendOutputs hash256 nHeight W tx = (true, W') ∧ unspentCoins W' = u := by
  unfold spendOutputs
  refine spendOutputs_loop (fun b W out j hun => ?_) (fun b W out j hun hu => ?_) tx.vout 0 true W u
    (by simpa using hlen) hfresh hW
  · simp [hun]
  · simp [hun, spendOutput_created hu]

end Outputs

section Transaction
variable {hash256 : Bytes → Uint256} {tx : CTransaction} {nHeight : Nat}

/-- One `UpdateCoins` is undone by the output loop and then, for a transaction other than the
coinbase, the input loop of `DisconnectBlock`, run on any view with the same unspent coins. -/
theorem updateCoins_undone {V V1 : CoinsView} {txundo : List Coin}
    (h : updateCoins hash256 V tx nHeight = .ok (V1, txundo))
    (hg : GoodCoins (unspentCoins V)) (hh : 0 < nHeight) (hlen : tx.vout.length ≤ 2 ^ 32)
    (hfree : tx.isCoinBase = true → ∀ j < tx.vout.length,
      unspentCoins V ⟨getHash hash256 tx, j.toUInt32⟩ = none) :
    GoodCoins (unspentCoins V1) ∧ (tx.isCoinBase = false → txundo.length = tx.vin.length) ∧
      ∀ W1, unspentCoins W1 = unspentCoins V1 → ∃ W, spendOutputs hash256 nHeight W1 tx = (true, W) ∧
        (tx.isCoinBase = true → unspentCoins W = unspentCoins V) ∧
        (tx.isCoinBase = false → ∃ W0, restoreInputs W (tx.vin.zip txundo) = .ok (DISCONNECT_OK, W0) ∧
          unspentCoins W0 = unspentCoins V) := by
  obtain ⟨mid, hs, ha⟩ := updateCoins_eq_ok hash256 h
  have hmid : GoodCoins (unspentCoins mid) ∧ (tx.isCoinBase = true → mid = V) ∧
      (tx.isCoinBase = false → txundo.length = tx.vin.length ∧
        Spends (unspentCoins V) (tx.vin.zip txundo) (unspentCoins mid)) := by
    rcases hs with ⟨hcb, rfl, rfl⟩ | ⟨hcb, hs⟩
    · exact ⟨hg, fun _ => rfl, fun h => by simp [hcb] at h⟩
    · obtain ⟨hl, hsp⟩ := spendInputs_spends hs
      exact ⟨hsp.good hg, fun h => by simp [hcb] at h, fun _ => ⟨hl, hsp⟩⟩
  obtain ⟨hfresh, hV1⟩ := addCoins_created ha hlen fun hcb => hmid.2.1 hcb ▸ hfree hcb
  refine ⟨fun o c hc => ?_, fun hcb => (hmid.2.2 hcb).1, fun W1 hW1 => ?_⟩
  · -- an unspent coin after the update was created by the transaction or was there before
    obtain ⟨hns, rfl⟩ := unspentCoins_eq_some.mp hc
    simp only [hV1] at hc
    cases hco : created (getHash hash256 tx) tx nHeight tx.vout.zipIdx o with
    | some c' =>
      rw [hco, Option.some_or, Option.some_inj] at hc
      obtain ⟨hn, hu⟩ := created_eq_some hco
      subst hc
      exact ⟨hn ▸ hh, hns, hu⟩
    | none =>
      rw [hco, Option.none_or] at hc
      exact hmid.1 o _ hc
  · obtain ⟨W, hW, hWu⟩ := spendOutputs_created hlen hfresh (hW1.trans hV1)
    refine ⟨W, hW, fun hcb => by rw [hWu, hmid.2.1 hcb], fun hcb => ?_⟩
    exact restoreInputs_spends (hmid.2.2 hcb).2 hg hWu

variable {U : CBlockUndo} {W W1 : CoinsView}

theorem disconnectTx_coinbase (h : spendOutputs hash256 nHeight W tx = (true, W1)) :
    disconnectTx hash256 nHeight U (tx, 0) (DISCONNECT_OK, W) = .ok (DISCONNECT_OK, W1) := by
  simp [disconnectTx, h]
  rfl

theorem disconnectTx_restore {i : Nat} {txundo : List Coin} {W0 : CoinsView} (hi : 0 < i)
    (h : spendOutputs hash256 nHeight W tx = (true, W1)) (hu : U.getD (i - 1) [] = txundo)
    (hl : txundo.length = tx.vin.length)
    (hr : restoreInputs W1 (tx.vin.zip txundo) = .ok (DISCONNECT_OK, W0)) :
    disconnectTx hash256 nHeight U (tx, i) (DISCONNECT_OK, W) = .ok (DISCONNECT_OK, W0) := by
  subst hu
  simp only [List.getD_eq_getElem?_getD] at hl hr
  simp [disconnectTx, h, hl, hr, Nat.pos_iff_ne_zero.mp hi]

end Transaction

/-- What the transaction loop of `ConnectBlock` needs from the transaction at index `k` on, for
its run to be undone: the undo records so far, good coins, the coinbase first and only there,
output indices that fit in `uint32_t`, and the coinbase's outpoints free (BIP30). -/
structure LoopPre (hash256 : Bytes → Uint256) (st : LoopState) (txs : List CTransaction) (k : Nat) :
    Prop where
  undo_length : st.vtxundo.length = k - 1
  good : GoodCoins (unspentCoins st.view)
  coinbase_iff : ∀ p ∈ txs.zipIdx k, p.1.isCoinBase = true ↔ p.2 = 0
  outputs_le : ∀ tx ∈ txs, tx.vout.length ≤ 2 ^ 32
  coinbase_fresh : ∀ p ∈ txs.zipIdx k, p.2 = 0 → ∀ j < p.1.vout.length,
    unspentCoins st.view ⟨getHash hash256 p.1, j.toUInt32⟩ = none

section Loop
variable {ctx : Context} {orc : ConnectOracles} {nHeight : Nat}

/-- One iteration keeps the loop's precondition, extends the undo data, and is undone by the
iteration of `DisconnectBlock` for the same transaction. -/
theorem connectTx_undone {st st' : LoopState} {tx : CTransaction} {txs : List CTransaction} {k : Nat}
    (h : connectTx ctx orc nHeight st (tx, k) = .ok st') (hpre : LoopPre orc.hash256 st (tx :: txs) k)
    (hh : 0 < nHeight) :
    LoopPre orc.hash256 st' txs (k + 1) ∧ st.vtxundo <+: st'.vtxundo ∧
      ∀ U W', st'.vtxundo <+: U → unspentCoins W' = unspentCoins st'.view →
        ∃ W, disconnectTx orc.hash256 nHeight U (tx, k) (DISCONNECT_OK, W') = .ok (DISCONNECT_OK, W) ∧
          unspentCoins W = unspentCoins st.view := by
  obtain ⟨txundo, hu, hundo⟩ := connectTx_eq_ok h
  have hmem : (tx, k) ∈ (tx :: txs).zipIdx k := by simp
  have hcb := hpre.coinbase_iff _ hmem
  obtain ⟨hgood, hlen, hround⟩ := updateCoins_undone hu hpre.good hh (hpre.outputs_le tx (by simp))
    fun hc => hpre.coinbase_fresh _ hmem (hcb.mp hc)
  have htail : ∀ p ∈ txs.zipIdx (k + 1), p ∈ (tx :: txs).zipIdx k := fun p hp => by
    rw [List.zipIdx_cons]
    exact List.mem_cons_of_mem _ hp
  refine ⟨⟨?_, hgood, fun p hp => hpre.coinbase_iff p (htail p hp),
    fun tx' htx => hpre.outputs_le tx' (List.mem_cons_of_mem _ htx), fun p hp hp0 => ?_⟩, ?_, ?_⟩
  · rw [hundo]
    split <;> simp [hpre.undo_length] <;> omega
  · -- the transactions after the first are not at index 0
    have := List.le_snd_of_mem_zipIdx hp
    omega
  · rw [hundo]
    split
    · exact List.prefix_append _ _
    · exact List.prefix_refl _
  · intro U W' hU hW'
    obtain ⟨W, hW, hcbW, hrest⟩ := hround W' hW'
    rcases Nat.eq_zero_or_pos k with rfl | hk
    · exact ⟨W, disconnectTx_coinbase hW, hcbW (hcb.mpr rfl)⟩
    · have hc : tx.isCoinBase = false := by
        cases h' : tx.isCoinBase
        · rfl
        · exact absurd (hcb.mp h') (by omega)
      obtain ⟨W0, hr, hW0⟩ := hrest hc
      -- the record this iteration appended is the one at index `k - 1`
      have hget : U.getD (k - 1) [] = txundo := by
        rw [hundo, if_pos hk] at hU
        obtain ⟨t, rfl⟩ := hU
        rw [List.append_assoc, List.getD_append_right _ _ _ _ (by rw [hpre.undo_length]),
          hpre.undo_length, Nat.sub_self]
        rfl
      exact ⟨W0, disconnectTx_restore hk hW hget (hlen hc) hr, hW0⟩

/-- The transaction loop from index `k`, run by `ConnectBlock`, is undone by the reverse loop of
`DisconnectBlock` with any undo data that extends the records it wrote. -/
theorem connectTxs_undone (hh : 0 < nHeight) : ∀ (txs : List CTransaction) (k : Nat) (st st' : LoopState),
    (txs.zipIdx k).foldlM (connectTx ctx orc nHeight) st = .ok st' → LoopPre orc.hash256 st txs k →
    st.vtxundo <+: st'.vtxundo ∧ st'.vtxundo.length = k + txs.length - 1 ∧
      ∀ U W', st'.vtxundo <+: U → unspentCoins W' = unspentCoins st'.view →
        ∃ W, (txs.zipIdx k).foldrM (disconnectTx orc.hash256 nHeight U) (DISCONNECT_OK, W') =
          .ok (DISCONNECT_OK, W) ∧ unspentCoins W = unspentCoins st.view := by
  intro txs
  induction txs with
  | nil =>
    intro k st st' h hpre
    cases h
    exact ⟨List.prefix_refl _, by simpa using hpre.undo_length, fun U W' _ hW' => ⟨W', rfl, hW'⟩⟩
  | cons tx txs ih =>
    intro k st st' h hpre
    rw [List.zipIdx_cons, List.foldlM_cons] at h
    obtain ⟨st1, h1, h⟩ := bind_eq_ok h
    obtain ⟨hpre1, hpfx1, hstep⟩ := connectTx_undone h1 hpre hh
    obtain ⟨hpfx, hlen, hrun⟩ := ih (k + 1) st1 st' h hpre1
    refine ⟨hpfx1.trans hpfx, by simp only [List.length_cons] at hlen ⊢; omega, fun U W' hU hW' => ?_⟩
    -- the later transactions are undone first
    obtain ⟨W1, hW1, hu1⟩ := hrun U W' hU hW'
    obtain ⟨W, hW, hu⟩ := hstep U W1 (hpfx.trans hU) hu1
    refine ⟨W, ?_, hu⟩
    rw [List.zipIdx_cons, List.foldrM_cons, hW1]
    exact hW

end Loop

section Block
variable {ctx : Context} {orc : ConnectOracles} {block : CBlock} {view : CoinsView}

/-- A block `CheckBlock` and BIP30 accepted meets the loop's precondition at its start. -/
theorem loopPre_block {tx0 : CTransaction} {rest : List CTransaction}
    (hvtx : block.vtx = tx0 :: rest) (hcb0 : tx0.isCoinBase = true)
    (hrest : rest.any CTransaction.isCoinBase = false)
    (htxs : ∀ tx ∈ block.vtx, TxVerify.checkTransaction tx = .ok ())
    (hbip30 : bip30Clean orc block view = true) (hg : GoodCoins (unspentCoins view)) :
    LoopPre orc.hash256 ⟨view, 0, 0, 0, []⟩ block.vtx 0 where
  undo_length := rfl
  good := hg
  coinbase_iff := by
    rw [hvtx, List.zipIdx_cons]
    rintro ⟨tx, i⟩ hp
    rcases List.mem_cons.mp hp with hp | hp
    · cases hp
      simp [hcb0]
    · have hi := List.le_snd_of_mem_zipIdx hp
      have hcb : tx.isCoinBase = false := by
        simpa using List.any_eq_false.mp hrest tx (List.fst_mem_of_mem_zipIdx hp)
      rw [hcb]
      simp only [Bool.false_eq_true, false_iff]
      simp only at hi
      omega
  outputs_le tx htx := by
    have hw := TxVerify.checkTransaction_weight (htxs tx htx)
    have hv := Serialize.length_vout_le tx false
    unfold WITNESS_SCALE_FACTOR MAX_BLOCK_WEIGHT at hw
    omega
  coinbase_fresh p hp _ j hj := by
    have hall := List.all_eq_true.mp hbip30 p.1 (List.fst_mem_of_mem_zipIdx hp)
    have hfree := List.all_eq_true.mp hall j (List.mem_range.mpr hj)
    simpa [haveCoin_eq_isSome] using hfree

theorem disconnectBlock_connectBlock {nHeight : Nat} {hashPrev : Uint256} {view' : CoinsView}
    {blockUndo : CBlockUndo}
    (hconnect : connectBlock ctx orc block nHeight (some hashPrev) view = .ok (view', blockUndo))
    (hgenesis : CBlockHeader.getHash orc.toOracles block.toCBlockHeader ≠ ctx.params.hashGenesisBlock)
    (hheight : 0 < nHeight)
    (hcoins : ∀ o c, unspentCoins view o = some c → 0 < c.nHeight ∧ isUnspendable c.out.scriptPubKey = false) :
    ∃ view'', disconnectBlock orc.hash256 block nHeight hashPrev (some blockUndo) view' =
        .ok (DISCONNECT_OK, view'') ∧
      unspentCoins view'' = unspentCoins view ∧ view''.hashBlock = hashPrev ∧ view.hashBlock = hashPrev := by
  obtain ⟨hcheck, hprev, hbip30, st, hloop, hr⟩ := connectBlock_eq_ok hconnect hgenesis
  obtain ⟨rfl, rfl⟩ := Prod.mk.inj hr
  obtain ⟨⟨tx0, rest, hvtx, hcb0, hrest⟩, htxs⟩ := checkBlock_eq_ok _ _ hcheck
  have hg : GoodCoins (unspentCoins view) := fun o c hc =>
    ⟨(hcoins o c hc).1, (unspentCoins_eq_some.mp hc).2 ▸ (unspentCoins_eq_some.mp hc).1, (hcoins o c hc).2⟩
  obtain ⟨-, hlen, hrun⟩ := connectTxs_undone hheight block.vtx 0 _ st hloop
    (loopPre_block hvtx hcb0 hrest htxs hbip30 hg)
  obtain ⟨W, hW, hWu⟩ := hrun st.vtxundo (st.view.setBestBlock (CBlockHeader.getHash orc.toOracles block.toCBlockHeader))
    (List.prefix_refl _) (unspentCoins_setBestBlock _)
  -- one undo record for each transaction but the coinbase
  have hlen' : st.vtxundo.length + 1 = block.vtx.length := by
    rw [hvtx] at hlen ⊢
    simp only [List.length_cons] at hlen ⊢
    omega
  refine ⟨W.setBestBlock hashPrev, ?_, by simpa using hWu, rfl, by simpa using hprev.symm⟩
  simp [disconnectBlock, hlen', hW]
  rfl

theorem disconnectBlock_connectBlock_doubleFee :
    ∃ view' blockUndo, connectBlock (exampleContext 1760000000) exampleOracles DoubleFee.block 1001 (some 5)
        DoubleFee.view = .ok (view', blockUndo) ∧
      ∃ view'', disconnectBlock exampleOracles.hash256 DoubleFee.block 1001 5 (some blockUndo) view' =
          .ok (DISCONNECT_OK, view'') ∧
        unspentCoins view'' = unspentCoins DoubleFee.view ∧ view''.hashBlock = 5 ∧ DoubleFee.view.hashBlock = 5 := by
  have hok : (connectBlock (exampleContext 1760000000) exampleOracles DoubleFee.block 1001 (some 5)
      DoubleFee.view).isOk = true := by decide +kernel
  cases h : connectBlock (exampleContext 1760000000) exampleOracles DoubleFee.block 1001 (some 5) DoubleFee.view with
  | error e =>
    rw [h] at hok
    cases hok
  | ok r =>
    refine ⟨r.1, r.2, rfl, disconnectBlock_connectBlock h (by decide +kernel) (by decide) ?_⟩
    intro o c hc
    obtain ⟨hs, rfl⟩ := unspentCoins_eq_some.mp hc
    simp only [DoubleFee.view] at hs ⊢
    split_ifs at hs ⊢
    · decide
    · decide
    · simp at hs

end Block

namespace LegacyUndo

/-- An unspent coin with no height, as an undo record from before heights were stored reads. -/
def heightless : Coin := ⟨⟨100 * COIN, [0x51]⟩, false, false, 0, 0⟩

/-- Another output of the transaction `8`, from a coinbase at height 100. -/
def sibling : COutPoint := ⟨8, 1⟩

def view : CoinsView where
  coins o := if o = DoubleFee.opStake then ⟨⟨1000 * COIN, [0x51]⟩, false, false, 100, 0⟩
    else if o = DoubleFee.opSpend then heightless
    else if o = sibling then ⟨⟨COIN, [0x51]⟩, true, false, 100, 0⟩ else Coin.empty
  hashBlock := 5

end LegacyUndo

/-- The round trip reports `DISCONNECT_OK`, but the coin the payment spent comes back with the
height and coinbase flag of its sibling. -/
theorem disconnectBlock_rewrites_heightless_coin :
    unspentCoins LegacyUndo.view DoubleFee.opSpend = some LegacyUndo.heightless ∧
    ((connectBlock (exampleContext 1760000000) exampleOracles DoubleFee.block 1001 (some 5)
        LegacyUndo.view).toOption.bind fun r =>
          (disconnectBlock exampleOracles.hash256 DoubleFee.block 1001 5 (some r.2) r.1).toOption).map
      (fun r => (r.1, unspentCoins r.2 DoubleFee.opSpend)) =
      some (DISCONNECT_OK, some { LegacyUndo.heightless with fCoinBase := true, nHeight := 100 }) := by
  decide +kernel

end BlackcoinMore.DisconnectRoundTrip
