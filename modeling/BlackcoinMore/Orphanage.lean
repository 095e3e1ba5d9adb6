import BlackcoinMore.BlockEncodings
import BlackcoinMore.TxVerify

/-! `TxOrphanage` of `txorphanage.cpp`. An iterator into `m_orphans` stays valid until its entry
is erased and is named here by its key, the txid; so `m_orphan_list` is a list of txids, and the
sets of `m_outpoint_to_orphan_it` are duplicate-free lists of txids, in the order of insertion
(the address order of `IteratorComparator` is not observable). The clock and the random draws of
`LimitOrphans` are arguments. -/
namespace BlackcoinMore.Orphanage
open Primitives Serialize Coins TxVerify BlockEncodings

abbrev NodeId := Int

def ORPHAN_TX_EXPIRE_TIME : Int := 20 * 60
def ORPHAN_TX_EXPIRE_INTERVAL : Int := 5 * 60
def MAX_STANDARD_TX_WEIGHT : Nat := 400000

/-- `base_blob::Compare`, a `memcmp` of the little-endian bytes: the order in which a
`std::map` or `std::set` of `uint256` keys is walked. -/
def blobLe (a b : Uint256) : Bool := decide (serializeUint256 a ≤ serializeUint256 b)

/-- `std::set<uint256>::insert`. -/
def setInsert (x : Uint256) (set : List Uint256) : List Uint256 :=
  if x ∈ set then set else set.orderedInsert (fun a b => blobLe a b = true) x

structure OrphanTx where
  tx : CTransaction
  fromPeer : NodeId
  nTimeExpire : Int
  list_pos : Nat
  deriving DecidableEq, Repr

/-- What an entry carries besides its slot in `m_orphan_list`. -/
def OrphanTx.info (o : OrphanTx) : CTransaction × NodeId × Int := (o.tx, o.fromPeer, o.nTimeExpire)

structure TxOrphanage where
  m_orphans : AList (fun _ : Uint256 => OrphanTx)
  m_peer_work_set : AList (fun _ : NodeId => List Uint256)
  m_outpoint_to_orphan_it : AList (fun _ : COutPoint => List Uint256)
  m_orphan_list : List Uint256
  m_wtxid_to_orphan_it : AList (fun _ : Uint256 => Uint256)
  /-- The `static int64_t nNextSweep` of `LimitOrphans`. -/
  nNextSweep : Int

def TxOrphanage.empty : TxOrphanage := ⟨∅, ∅, ∅, [], ∅, 0⟩

/-- `std::map::emplace`: no effect when the key is present. -/
def emplace {β : Type} (m : AList (fun _ : Uint256 => β)) (k : Uint256) (v : β) :
    AList (fun _ : Uint256 => β) :=
  if k ∈ m then m else m.insert k v

/-- `m_outpoint_to_orphan_it[prevout].insert(it)`, the body of the input loop of `AddTx`. -/
def linkPrevout (txid : Uint256) (m : AList (fun _ : COutPoint => List Uint256)) (prevout : COutPoint) :
    AList (fun _ : COutPoint => List Uint256) :=
  m.insert prevout (((m.lookup prevout).getD []).insert txid)

def linkPrevouts (txid : Uint256) (m : AList (fun _ : COutPoint => List Uint256))
    (prevouts : List COutPoint) : AList (fun _ : COutPoint => List Uint256) :=
  prevouts.foldl (linkPrevout txid) m

/-- The body of the input loop of `EraseTxNoLock`: drop the orphan from the prevout's set, and the
set when it becomes empty. A prevout listed twice is found gone the second time. -/
def unlinkPrevout (txid : Uint256) (m : AList (fun _ : COutPoint => List Uint256)) (prevout : COutPoint) :
    AList (fun _ : COutPoint => List Uint256) :=
  match m.lookup prevout with
  | none => m
  | some set =>
    let set := set.erase txid
    if set.isEmpty then m.erase prevout else m.insert prevout set

def unlinkPrevouts (txid : Uint256) (m : AList (fun _ : COutPoint => List Uint256))
    (prevouts : List COutPoint) : AList (fun _ : COutPoint => List Uint256) :=
  prevouts.foldl (unlinkPrevout txid) m

/-- `it_last->second.list_pos = old_pos`. -/
def setListPos (m : AList (fun _ : Uint256 => OrphanTx)) (k : Uint256) (pos : Nat) :
    AList (fun _ : Uint256 => OrphanTx) :=
  match m.lookup k with
  | some o => m.insert k { o with list_pos := pos }
  | none => m

section Operations
variable (hash256 : Bytes → Uint256)

/-- `AddTx(tx, peer)` at `GetTime() = nNow`. -/
def addTx (s : TxOrphanage) (tx : CTransaction) (peer : NodeId) (nNow : Int) : TxOrphanage × Bool :=
  let hash := getHash hash256 tx
  if hash ∈ s.m_orphans then (s, false)
  -- ignore big transactions
  else if MAX_STANDARD_TX_WEIGHT < getTransactionWeight tx then (s, false)
  else
    ({ s with
      m_orphans := s.m_orphans.insert hash ⟨tx, peer, nNow + ORPHAN_TX_EXPIRE_TIME, s.m_orphan_list.length⟩
      m_orphan_list := s.m_orphan_list ++ [hash]
      m_wtxid_to_orphan_it := emplace s.m_wtxid_to_orphan_it (getWitnessHash hash256 tx) hash
      m_outpoint_to_orphan_it := linkPrevouts hash s.m_outpoint_to_orphan_it (tx.vin.map (·.prevout)) },
      true)

/-- The slot move of `EraseTxNoLock`: unless `old_pos` is the last slot of `m_orphan_list`, the
last entry moves into it (`m_orphan_list[old_pos] = it_last; it_last->second.list_pos = old_pos`). -/
def moveLastInto (list : List Uint256) (orphans : AList (fun _ : Uint256 => OrphanTx)) (old_pos : Nat) :
    List Uint256 × AList (fun _ : Uint256 => OrphanTx) :=
  if old_pos + 1 != list.length then
    match list.getLast? with
    | some it_last => (list.set old_pos it_last, setListPos orphans it_last old_pos)
    | none => (list, orphans)
  else (list, orphans)

/-- `EraseTxNoLock(txid)`, with the number of entries erased. The `assert` that the entry's
`list_pos` slot holds it is left out; `Inv` makes it true. -/
def eraseTxNoLock (s : TxOrphanage) (txid : Uint256) : TxOrphanage × Nat :=
  match s.m_orphans.lookup txid with
  | none => (s, 0)
  | some it =>
    let (list, orphans) := moveLastInto s.m_orphan_list s.m_orphans it.list_pos
    ({ s with
      m_orphans := orphans.erase txid
      m_orphan_list := list.dropLast
      m_wtxid_to_orphan_it := s.m_wtxid_to_orphan_it.erase (getWitnessHash hash256 it.tx)
      m_outpoint_to_orphan_it :=
        unlinkPrevouts txid s.m_outpoint_to_orphan_it (it.tx.vin.map (·.prevout)) }, 1)

/-- The keys of `m_orphans` in the map's order. -/
def orphanKeys (s : TxOrphanage) : List Uint256 := s.m_orphans.keys.mergeSort blobLe

/-- One round of the erasing loops of `EraseForPeer` and of the `LimitOrphans` sweep: the entry
at `txid`, if `pick` chooses it, is erased through its transaction's hash. The loops advance
`iter` before erasing, so they visit the keys present when they start. -/
def eraseIf (pick : OrphanTx → Bool) (s : TxOrphanage) (txid : Uint256) : TxOrphanage :=
  match s.m_orphans.lookup txid with
  | some o => if pick o then (eraseTxNoLock hash256 s (getHash hash256 o.tx)).1 else s
  | none => s

/-- `EraseForPeer(peer)`. -/
def eraseForPeer (s : TxOrphanage) (peer : NodeId) : TxOrphanage :=
  let s := { s with m_peer_work_set := s.m_peer_work_set.erase peer }
  (orphanKeys s).foldl (eraseIf hash256 fun o => o.fromPeer == peer) s

/-- The sweep of `LimitOrphans` at `nNow`: the expired entries go, and `nMinExpTime` is the earliest
expiry among the rest, at most `nNow + ORPHAN_TX_EXPIRE_TIME - ORPHAN_TX_EXPIRE_INTERVAL`. -/
def sweep (s : TxOrphanage) (nNow : Int) : TxOrphanage × Int :=
  (orphanKeys s).foldl (fun (s, nMinExpTime) txid =>
    (eraseIf hash256 (fun o => o.nTimeExpire ≤ nNow) s txid,
      match s.m_orphans.lookup txid with
      | some o => if o.nTimeExpire ≤ nNow then nMinExpTime else min o.nTimeExpire nMinExpTime
      | none => nMinExpTime))
    (s, nNow + ORPHAN_TX_EXPIRE_TIME - ORPHAN_TX_EXPIRE_INTERVAL)

/-- The eviction loop of `LimitOrphans`: `rng.randrange(m_orphan_list.size())` is the `k`-th draw
of `rand` cut to the list. Each round erases an orphan, so `fuel = m_orphans.size()` rounds suffice. -/
def evict (max_orphans : Nat) (rand : Nat → Nat) : Nat → Nat → TxOrphanage → TxOrphanage
  | _, 0, s => s
  | k, fuel + 1, s =>
    if max_orphans < s.m_orphans.keys.length then
      let randompos := rand k % s.m_orphan_list.length
      evict max_orphans rand (k + 1) fuel (eraseTxNoLock hash256 s (s.m_orphan_list.getD randompos 0)).1
    else s

/-- `LimitOrphans(max_orphans)` at `GetTime() = nNow`, with the draws `rand` of its
`FastRandomContext`. -/
def limitOrphans (s : TxOrphanage) (max_orphans : Nat) (nNow : Int) (rand : Nat → Nat) : TxOrphanage :=
  let s :=
    if s.nNextSweep ≤ nNow then
      let (s, nMinExpTime) := sweep hash256 s nNow
      -- sweep again 5 minutes after the next entry that expires
      { s with nNextSweep := nMinExpTime + ORPHAN_TX_EXPIRE_INTERVAL }
    else s
  evict hash256 max_orphans rand 0 s.m_orphans.keys.length s

/-- `AddChildrenToWorkSet(tx)`: each orphan spending an output of `tx` joins its peer's work set. -/
def addChildrenToWorkSet (s : TxOrphanage) (tx : CTransaction) : TxOrphanage :=
  (List.range tx.vout.length).foldl (fun s i =>
    match s.m_outpoint_to_orphan_it.lookup ⟨getHash hash256 tx, i.toUInt32⟩ with
    | none => s
    | some set => set.foldl (fun s elem =>
        match s.m_orphans.lookup elem with
        | none => s
        | some o =>
          -- the peer's work set, emplacing an empty one if there is none
          let orphan_work_set := (s.m_peer_work_set.lookup o.fromPeer).getD []
          { s with m_peer_work_set := s.m_peer_work_set.insert o.fromPeer (setInsert elem orphan_work_set) }) s) s

end Operations

/-- The `while (!work_set.empty())` loop of `GetTxToReconsider`: the work set left and the first
transaction still stored. -/
def takeWork (orphans : AList (fun _ : Uint256 => OrphanTx)) : List Uint256 → List Uint256 × Option CTransaction
  | [] => ([], none)
  | txid :: rest =>
    match orphans.lookup txid with
    | some o => (rest, some o.tx)
    | none => takeWork orphans rest

/-- `GetTxToReconsider(peer)`. -/
def getTxToReconsider (s : TxOrphanage) (peer : NodeId) : TxOrphanage × Option CTransaction :=
  match s.m_peer_work_set.lookup peer with
  | none => (s, none)
  | some work_set =>
    let (work_set, tx) := takeWork s.m_orphans work_set
    ({ s with m_peer_work_set := s.m_peer_work_set.insert peer work_set }, tx)

/-- `GenTxid`: a txid or a wtxid. -/
inductive GenTxid
  | txid (hash : Uint256)
  | wtxid (hash : Uint256)

/-- `HaveTx(gtxid)`. -/
def haveTx (s : TxOrphanage) : GenTxid → Bool
  | .wtxid hash => decide (hash ∈ s.m_wtxid_to_orphan_it)
  | .txid hash => decide (hash ∈ s.m_orphans)

section Block
variable (hash256 : Bytes → Uint256)

/-- `EraseForBlock(block)`: the orphans spending a prevout of the block's transactions, collected
first and then erased. -/
def eraseForBlock (s : TxOrphanage) (block : CBlock) : TxOrphanage :=
  let vOrphanErase := block.vtx.flatMap fun tx => tx.vin.flatMap fun txin =>
    match s.m_outpoint_to_orphan_it.lookup txin.prevout with
    | none => []
    | some set => set.filterMap fun elem => (s.m_orphans.lookup elem).map fun o => getHash hash256 o.tx
  vOrphanErase.foldl (fun s orphanHash => (eraseTxNoLock hash256 s orphanHash).1) s

/-- The calls `PeerManager` makes on its `TxOrphanage`. -/
inductive Call
  | addTx (tx : CTransaction) (peer : NodeId) (nNow : Int)
  | eraseTx (txid : Uint256)
  | eraseForPeer (peer : NodeId)
  | eraseForBlock (block : CBlock)
  | limitOrphans (max_orphans : Nat) (nNow : Int) (rand : Nat → Nat)
  | addChildrenToWorkSet (tx : CTransaction)
  | getTxToReconsider (peer : NodeId)

def step (s : TxOrphanage) : Call → TxOrphanage
  | .addTx tx peer nNow => (addTx hash256 s tx peer nNow).1
  | .eraseTx txid => (eraseTxNoLock hash256 s txid).1
  | .eraseForPeer peer => eraseForPeer hash256 s peer
  | .eraseForBlock block => eraseForBlock hash256 s block
  | .limitOrphans max_orphans nNow rand => limitOrphans hash256 s max_orphans nNow rand
  | .addChildrenToWorkSet tx => addChildrenToWorkSet hash256 s tx
  | .getTxToReconsider peer => (getTxToReconsider s peer).1

def run (s : TxOrphanage) (calls : List Call) : TxOrphanage := calls.foldl (step hash256) s

end Block

/-- The transactions a sequence of calls offers to `AddTx`. -/
def addedTxs : List Call → List CTransaction
  | [] => []
  | .addTx tx _ _ :: calls => tx :: addedTxs calls
  | _ :: calls => addedTxs calls

end BlackcoinMore.Orphanage
