import BlackcoinMore.Serialize

/-! Script parsing as `GetScriptOp` does it, over byte positions, and the two ways the code
removes `OP_CODESEPARATOR`s from a script: `FindAndDelete` and the streaming
`SerializeScriptCode` of the signature serializer. Both are compared with
`dropCodeSeparators`, which removes the separator opcodes and keeps the bytes from an opcode
that does not parse. -/
namespace BlackcoinMore.ScriptOps
open Primitives ByteCodec Serialize

def OP_PUSHDATA1 : UInt8 := 0x4c
def OP_PUSHDATA2 : UInt8 := 0x4d
def OP_PUSHDATA4 : UInt8 := 0x4e
def OP_CODESEPARATOR : UInt8 := 0xab
def OP_INVALIDOPCODE : UInt8 := 0xff

/-- What `GetScriptOp` leaves: whether it read an opcode, where the iterator stands, the opcode. -/
structure OpRead where
  ok : Bool
  pc : Nat
  opcode : UInt8
  deriving DecidableEq, Repr

/-- The immediate operand of a push, `nSize` bytes from `pc`. -/
def readOperand (script : Bytes) (opcode : UInt8) (nSize pc : Nat) : OpRead :=
  if script.length - pc < nSize then ⟨false, pc, OP_INVALIDOPCODE⟩ else ⟨true, pc + nSize, opcode⟩

/-- `GetScriptOp` at position `pc`. A failed read leaves the iterator where the C++ leaves it:
past the opcode, and past the size of a push whose data is missing. -/
def getScriptOp (script : Bytes) (pc : Nat) : OpRead :=
  if script.length ≤ pc then ⟨false, pc, OP_INVALIDOPCODE⟩
  else if script.getD pc 0 ≤ OP_PUSHDATA4 then
    if script.getD pc 0 < OP_PUSHDATA1 then readOperand script (script.getD pc 0) (script.getD pc 0).toNat (pc + 1)
    else if script.getD pc 0 == OP_PUSHDATA1 then
      if script.length - (pc + 1) < 1 then ⟨false, pc + 1, OP_INVALIDOPCODE⟩
      else readOperand script (script.getD pc 0) (script.getD (pc + 1) 0).toNat (pc + 2)
    else if script.getD pc 0 == OP_PUSHDATA2 then
      if script.length - (pc + 1) < 2 then ⟨false, pc + 1, OP_INVALIDOPCODE⟩
      else readOperand script (script.getD pc 0) (decodeLE (slice script (pc + 1) (pc + 3))) (pc + 3)
    else
      -- `OP_PUSHDATA4`, the one opcode left at or below it
      if script.length - (pc + 1) < 4 then ⟨false, pc + 1, OP_INVALIDOPCODE⟩
      else readOperand script (script.getD pc 0) (decodeLE (slice script (pc + 1) (pc + 5))) (pc + 5)
  else ⟨true, pc + 1, script.getD pc 0⟩

section GetOp
variable {script : Bytes} {pc : Nat}

theorem readOperand_ok {opcode : UInt8} {nSize pc : Nat} (hpc : pc ≤ script.length)
    (h : (readOperand script opcode nSize pc).ok = true) :
    (readOperand script opcode nSize pc).pc = pc + nSize ∧ pc + nSize ≤ script.length ∧
      (readOperand script opcode nSize pc).opcode = opcode := by
  unfold readOperand at h ⊢
  split_ifs at h ⊢ with hs
  exact ⟨rfl, by omega, rfl⟩

theorem getScriptOp_ok (h : (getScriptOp script pc).ok = true) :
    pc < (getScriptOp script pc).pc ∧ (getScriptOp script pc).pc ≤ script.length ∧
      (getScriptOp script pc).opcode = script.getD pc 0 := by
  unfold getScriptOp at h ⊢
  split_ifs at h ⊢ with h1 h2 h3 h4 h5 h6 h7 h8
  all_goals first
    | (obtain ⟨hpc, hle, hop⟩ := readOperand_ok (by omega) h; exact ⟨by omega, by omega, hop⟩)
    | exact ⟨Nat.lt_succ_self pc, Nat.succ_le_of_lt (by omega), rfl⟩

/-- `OP_CODESEPARATOR` is one byte with no operand. -/
theorem getScriptOp_separator (hpc : pc < script.length) (hsep : script.getD pc 0 = OP_CODESEPARATOR) :
    getScriptOp script pc = ⟨true, pc + 1, OP_CODESEPARATOR⟩ := by
  unfold getScriptOp
  rw [if_neg (by omega), hsep, if_neg (by decide)]

end GetOp

/-- The inner `while` of `FindAndDelete`: step over the copies of `b` at `pc`, counting them. -/
def skipMatches (script b : Bytes) (hb : 0 < b.length) (pc nFound : Nat) : Nat × Nat :=
  if h : b.length ≤ script.length - pc ∧ slice script pc (pc + b.length) = b then
    skipMatches script b hb (pc + b.length) (nFound + 1)
  else (pc, nFound)
termination_by script.length - pc
decreasing_by omega

theorem le_skipMatches (script b : Bytes) (hb : 0 < b.length) (pc nFound : Nat) :
    pc ≤ (skipMatches script b hb pc nFound).1 := by
  fun_induction skipMatches script b hb pc nFound with
  | case1 pc nFound h ih => omega
  | case2 pc nFound h => exact le_refl pc

/-- The `do ... while (script.GetOp(pc, opcode))` loop of `FindAndDelete`, from the top of its
body: the result so far, the iterators `pc` and `pc2`, and the count. -/
def findAndDeleteLoop (script b : Bytes) (hb : 0 < b.length) (result : Bytes) (pc pc2 nFound : Nat) :
    Bytes × Nat × Nat :=
  match _hs : skipMatches script b hb pc nFound with
  | (pcS, nFoundS) =>
    if _h : (getScriptOp script pcS).ok then
      findAndDeleteLoop script b hb (result ++ slice script pc2 pc) (getScriptOp script pcS).pc pcS nFoundS
    else (result ++ slice script pc2 pc, pcS, nFoundS)
termination_by script.length - pc
decreasing_by
  have := getScriptOp_ok _h
  have := le_skipMatches script b hb pc nFound
  rw [_hs] at this
  omega

/-- `FindAndDelete`: the number of copies of `b` removed, and the script after the call. -/
def findAndDelete (script b : Bytes) : Nat × Bytes :=
  if hb : b.length = 0 then (0, script)
  else
    let r := findAndDeleteLoop script b (Nat.pos_of_ne_zero hb) [] 0 0 0
    if r.2.2 > 0 then (r.2.2, r.1 ++ slice script r.2.1 script.length) else (r.2.2, script)

/-- The first loop of `SerializeScriptCode`: the `OP_CODESEPARATOR`s `GetOp` reads from `it`. -/
def countCodeSeparators (script : Bytes) (it : Nat) : Nat :=
  let r := getScriptOp script it
  if _h : r.ok then (if r.opcode == OP_CODESEPARATOR then 1 else 0) + countCodeSeparators script r.pc
  else 0
termination_by script.length - it
decreasing_by
  have := getScriptOp_ok _h
  omega

/-- The second loop of `SerializeScriptCode` and its last write: the bytes between the
separators, `itBegin` being the start of the run not yet written. -/
def serializeScriptCodeFrom (script : Bytes) (itBegin it : Nat) : Bytes :=
  let r := getScriptOp script it
  if _h : r.ok then
    if r.opcode == OP_CODESEPARATOR then slice script itBegin (r.pc - 1) ++ serializeScriptCodeFrom script r.pc r.pc
    else serializeScriptCodeFrom script itBegin r.pc
  else if itBegin ≠ script.length then slice script itBegin r.pc else []
termination_by script.length - it
decreasing_by
  all_goals have := getScriptOp_ok _h
  all_goals omega

/-- `CTransactionSignatureSerializer::SerializeScriptCode`. -/
def serializeScriptCode (scriptCode : Bytes) : Bytes :=
  writeCompactSize (scriptCode.length - countCodeSeparators scriptCode 0) ++
    serializeScriptCodeFrom scriptCode 0 0

/-- What both constructions mean to write: the script from `pc` without the `OP_CODESEPARATOR`
opcodes, from an opcode that does not parse on kept as it is. -/
def dropCodeSeparators (script : Bytes) (pc : Nat) : Bytes :=
  let r := getScriptOp script pc
  if _h : r.ok then
    (if r.opcode == OP_CODESEPARATOR then [] else slice script pc r.pc) ++ dropCodeSeparators script r.pc
  else slice script pc script.length
termination_by script.length - pc
decreasing_by
  have := getScriptOp_ok _h
  omega

/-- `GetOp` reads the script from `pc` to its end, one opcode after another. -/
def parsesFrom (script : Bytes) (pc : Nat) : Bool :=
  let r := getScriptOp script pc
  if _h : r.ok then parsesFrom script r.pc else decide (script.length ≤ pc)
termination_by script.length - pc
decreasing_by
  have := getScriptOp_ok _h
  omega

section Separators
variable {script : Bytes}

/-- A separator `GetOp` reads is the one byte at `pc`. -/
theorem pc_of_separator {pc : Nat} (h : (getScriptOp script pc).ok = true)
    (hsep : (getScriptOp script pc).opcode = OP_CODESEPARATOR) : (getScriptOp script pc).pc = pc + 1 := by
  obtain ⟨hlt, hle, hop⟩ := getScriptOp_ok h
  rw [getScriptOp_separator (by omega) (hop.symm.trans hsep)]

theorem dropCodeSeparators_ok {pc : Nat} (h : (getScriptOp script pc).ok = true) :
    dropCodeSeparators script pc =
      (if (getScriptOp script pc).opcode == OP_CODESEPARATOR then [] else slice script pc (getScriptOp script pc).pc) ++
        dropCodeSeparators script (getScriptOp script pc).pc := by
  rw [dropCodeSeparators, dif_pos h]

theorem dropCodeSeparators_fail {pc : Nat} (h : (getScriptOp script pc).ok = false) :
    dropCodeSeparators script pc = slice script pc script.length := by
  rw [dropCodeSeparators, dif_neg (by simp [h])]

theorem countCodeSeparators_ok {pc : Nat} (h : (getScriptOp script pc).ok = true) :
    countCodeSeparators script pc =
      (if (getScriptOp script pc).opcode == OP_CODESEPARATOR then 1 else 0) +
        countCodeSeparators script (getScriptOp script pc).pc := by
  rw [countCodeSeparators, dif_pos h]

theorem countCodeSeparators_fail {pc : Nat} (h : (getScriptOp script pc).ok = false) :
    countCodeSeparators script pc = 0 := by
  rw [countCodeSeparators, dif_neg (by simp [h])]

/-- The removed opcodes are one byte each, so the lengths add up to the script's. -/
theorem length_dropCodeSeparators {pc : Nat} (hpc : pc ≤ script.length) :
    (dropCodeSeparators script pc).length + countCodeSeparators script pc = script.length - pc := by
  fun_induction dropCodeSeparators script pc with
  | case1 pc r h ih =>
    dsimp only [r] at h ih ⊢
    obtain ⟨hlt, hle, -⟩ := getScriptOp_ok h
    have := ih hle
    rw [countCodeSeparators_ok h]
    by_cases hsep : (getScriptOp script pc).opcode = OP_CODESEPARATOR
    · have := pc_of_separator h hsep
      simp [hsep]
      omega
    · simp [hsep]
      omega
  | case2 pc r h =>
    dsimp only [r] at h
    rw [countCodeSeparators_fail (by simpa using h)]
    simp

theorem getScriptOp_end {pc : Nat} (h : script.length ≤ pc) :
    getScriptOp script pc = ⟨false, pc, OP_INVALIDOPCODE⟩ := by
  rw [getScriptOp, if_pos h]

theorem parsesFrom_ok {pc : Nat} (h : (getScriptOp script pc).ok = true) :
    parsesFrom script pc = parsesFrom script (getScriptOp script pc).pc := by
  rw [parsesFrom, dif_pos h]

theorem parsesFrom_fail {pc : Nat} (h : (getScriptOp script pc).ok = false) :
    parsesFrom script pc = decide (script.length ≤ pc) := by
  rw [parsesFrom, dif_neg (by simp [h])]

/-- Over a script that parses, the second loop writes what `dropCodeSeparators` keeps. -/
theorem serializeScriptCodeFrom_eq {itBegin it : Nat} (hparse : parsesFrom script it = true)
    (hle : itBegin ≤ it) :
    serializeScriptCodeFrom script itBegin it = slice script itBegin it ++ dropCodeSeparators script it := by
  fun_induction serializeScriptCodeFrom script itBegin it with
  | case1 itBegin it r h hsep ih =>
    -- a separator: the run before it is written, the next run starts after it
    dsimp only [r] at h hsep ih ⊢
    have hsep : (getScriptOp script it).opcode = OP_CODESEPARATOR := by simpa using hsep
    rw [parsesFrom_ok h] at hparse
    rw [ih hparse le_rfl, dropCodeSeparators_ok h, if_pos (by simpa using hsep), pc_of_separator h hsep]
    simp
  | case2 itBegin it r h hsep ih =>
    dsimp only [r] at h hsep ih ⊢
    obtain ⟨hlt, -, -⟩ := getScriptOp_ok h
    rw [parsesFrom_ok h] at hparse
    rw [ih hparse (by omega), dropCodeSeparators_ok h, if_neg hsep, ← List.append_assoc,
      slice_append_slice _ hle hlt.le]
  | case3 itBegin it r h hbegin =>
    dsimp only [r] at h ⊢
    have hend : script.length ≤ it := by simpa [parsesFrom_fail (by simpa using h)] using hparse
    rw [getScriptOp_end hend, dropCodeSeparators_fail (by simpa using h), slice_of_length_le _ _ hend]
    simp
  | case4 itBegin it r h hbegin =>
    dsimp only [r] at h ⊢
    have hend : script.length ≤ it := by simpa [parsesFrom_fail (by simpa using h)] using hparse
    rw [dropCodeSeparators_fail (by simpa using h), slice_of_length_le _ _ hend,
      slice_of_length_le _ _ (by omega)]
    simp

/-- `SerializeScriptCode` of a script that parses: the length, then the script without its
separators. -/
theorem serializeScriptCode_eq (h : parsesFrom script 0 = true) :
    serializeScriptCode script = serializeBytes (dropCodeSeparators script 0) := by
  have hlen := length_dropCodeSeparators (Nat.zero_le script.length)
  unfold serializeScriptCode serializeBytes
  rw [serializeScriptCodeFrom_eq h le_rfl, slice_self, List.nil_append]
  congr 2
  omega

/-- A push whose data is cut short: the length still counts the whole script. -/
example : serializeScriptCode [0x02, 0xaa] = [2, 0x02] ∧ parsesFrom [0x02, 0xaa] 0 = false := by
  decide +kernel

theorem dropCodeSeparators_of_count {pc : Nat} (hpc : pc ≤ script.length)
    (h : countCodeSeparators script pc = 0) : dropCodeSeparators script pc = slice script pc script.length := by
  fun_induction dropCodeSeparators script pc with
  | case1 pc r h' ih =>
    dsimp only [r] at h' ih ⊢
    obtain ⟨hlt, hle, -⟩ := getScriptOp_ok h'
    rw [countCodeSeparators_ok h'] at h
    have hsep : ¬(getScriptOp script pc).opcode = OP_CODESEPARATOR := fun hsep => by simp [hsep] at h
    rw [if_neg (by simpa using hsep), ih hle (by simpa [hsep] using h), slice_append_slice _ hlt.le hle]
  | case2 pc r h' => rfl

/-- The `while` of `FindAndDelete` over separators steps over separator opcodes only. -/
theorem skipMatches_separators (hb : 0 < [OP_CODESEPARATOR].length) {pc n : Nat} (hpc : pc ≤ script.length) :
    (skipMatches script [OP_CODESEPARATOR] hb pc n).1 ≤ script.length ∧
      dropCodeSeparators script pc = dropCodeSeparators script (skipMatches script [OP_CODESEPARATOR] hb pc n).1 ∧
      n + countCodeSeparators script pc =
        (skipMatches script [OP_CODESEPARATOR] hb pc n).2 +
          countCodeSeparators script (skipMatches script [OP_CODESEPARATOR] hb pc n).1 ∧
      ((getScriptOp script (skipMatches script [OP_CODESEPARATOR] hb pc n).1).ok = true →
        (getScriptOp script (skipMatches script [OP_CODESEPARATOR] hb pc n).1).opcode ≠ OP_CODESEPARATOR) := by
  fun_induction skipMatches script [OP_CODESEPARATOR] hb pc n with
  | case1 pc n h ih =>
    -- a separator at `pc`: one opcode of one byte
    have hlt : pc < script.length := by simp at h; omega
    have hsep : script.getD pc 0 = OP_CODESEPARATOR := by
      have := h.2
      rw [List.length_singleton, slice_succ _ 0 hlt] at this
      exact List.singleton_inj.mp this
    have hop := getScriptOp_separator hlt hsep
    obtain ⟨h1, h2, h3, h4⟩ := ih (by simp; omega)
    refine ⟨h1, ?_, ?_, h4⟩
    · rw [dropCodeSeparators_ok (by simp [hop]), hop]
      simpa using h2
    · rw [countCodeSeparators_ok (by simp [hop]), hop]
      simp only [List.length_singleton] at h3
      simp
      omega
  | case2 pc n h =>
    refine ⟨hpc, rfl, rfl, fun hok hsep => h ⟨?_, ?_⟩⟩ <;> dsimp only at hok hsep
    · obtain ⟨hlt, hle, -⟩ := getScriptOp_ok hok
      rw [List.length_singleton]
      omega
    · obtain ⟨hlt, hle, hop⟩ := getScriptOp_ok hok
      rw [List.length_singleton, slice_succ _ 0 (by omega), ← hop, hsep]

/-- The loop of `FindAndDelete` over separators: what it has kept, with the tail from `pc2`,
is what it kept before, the opcode just read, and the script from `pc` without separators. -/
theorem findAndDeleteLoop_separators (hb : 0 < [OP_CODESEPARATOR].length) {result : Bytes}
    {pc pc2 n : Nat} (hpc : pc ≤ script.length) (hpc2 : pc2 ≤ pc) :
    (findAndDeleteLoop script [OP_CODESEPARATOR] hb result pc pc2 n).1 ++
        slice script (findAndDeleteLoop script [OP_CODESEPARATOR] hb result pc pc2 n).2.1 script.length =
      result ++ slice script pc2 pc ++ dropCodeSeparators script pc ∧
      (findAndDeleteLoop script [OP_CODESEPARATOR] hb result pc pc2 n).2.2 = n + countCodeSeparators script pc := by
  fun_induction findAndDeleteLoop script [OP_CODESEPARATOR] hb result pc pc2 n with
  | case1 result pc pc2 n pcS nS hs h ih =>
    obtain ⟨hle, hdrop, hcount, hnotsep⟩ := @skipMatches_separators script hb pc n hpc
    rw [hs] at hle hdrop hcount hnotsep
    dsimp only at hle hdrop hcount hnotsep
    obtain ⟨hlt, hle', -⟩ := getScriptOp_ok h
    obtain ⟨ih1, ih2⟩ := ih hle' hlt.le
    -- `GetOp` stopped the skipping at an opcode that is not a separator
    have hsep : ((getScriptOp script pcS).opcode == OP_CODESEPARATOR) = false := by simpa using hnotsep h
    rw [countCodeSeparators_ok h, hsep] at hcount
    rw [hs]
    dsimp only
    rw [dif_pos h, ih1, ih2, hdrop, dropCodeSeparators_ok h, hsep]
    exact ⟨by simp only [Bool.false_eq_true, if_false, List.append_assoc], by simp at hcount; omega⟩
  | case2 result pc pc2 n pcS nS hs h =>
    obtain ⟨hle, hdrop, hcount, -⟩ := @skipMatches_separators script hb pc n hpc
    rw [hs] at hle hdrop hcount
    dsimp only at hle hdrop hcount
    have hfail : (getScriptOp script pcS).ok = false := by simpa using h
    rw [countCodeSeparators_fail hfail] at hcount
    rw [hs]
    dsimp only
    rw [dif_neg h]
    dsimp only
    rw [hdrop, dropCodeSeparators_fail hfail]
    exact ⟨by simp only [List.append_assoc], by omega⟩

/-- `FindAndDelete(script, CScript(OP_CODESEPARATOR))` removes the separator opcodes, as many as
`SerializeScriptCode` counts. -/
theorem findAndDelete_codeSeparator :
    findAndDelete script [OP_CODESEPARATOR] = (countCodeSeparators script 0, dropCodeSeparators script 0) := by
  have hb : 0 < [OP_CODESEPARATOR].length := by simp
  obtain ⟨hkept, hcount⟩ := @findAndDeleteLoop_separators script hb [] 0 0 0 (Nat.zero_le _) le_rfl
  simp only [slice_self, List.append_nil, List.nil_append, Nat.zero_add] at hkept hcount
  unfold findAndDelete
  rw [dif_neg (by simp)]
  dsimp only
  split_ifs with hn
  · rw [hkept, hcount]
  · -- nothing found: the script is left as it is, which is all `dropCodeSeparators` keeps
    have hzero : countCodeSeparators script 0 = 0 := by omega
    rw [hcount, hzero, dropCodeSeparators_of_count (Nat.zero_le _) hzero, slice_zero_length]

/-- A `0xab` inside a push is data, not a separator. -/
example : findAndDelete [0x51, OP_CODESEPARATOR, 0x02, OP_CODESEPARATOR, 0x00, OP_CODESEPARATOR]
    [OP_CODESEPARATOR] = (2, [0x51, 0x02, OP_CODESEPARATOR, 0x00]) := by decide +kernel

end Separators

end BlackcoinMore.ScriptOps
