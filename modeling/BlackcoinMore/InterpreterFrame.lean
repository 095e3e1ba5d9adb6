import BlackcoinMore.Interpreter
import BlackcoinMore.ExceptSpec

/-! What one round of the loop of `EvalScript` changes. A case block leaves the iterator and the
opcode position alone, and of `execdata` it changes the code separator position and the
validation weight budget, the budget only by the cost of one signature check and not below zero.
The round itself moves the iterator past the opcode `GetOp` reads, so `script.size()` rounds reach
the end of the script, and the budget of a whole run falls fifty at a time and stays at or above
zero. -/

namespace BlackcoinMore.Interpreter
open Primitives ByteCodec ScriptNum ScriptOps ExceptSpec
open Sighash (SigVersion)

theorem spec_scriptNum {Q : CScriptNum → Prop} {E : Exit → Prop} (vch : Bytes) (f : Bool) (n : Nat) :
    Spec Q E (scriptNum vch f n) ↔
      (∀ bn, CScriptNum.ofVch vch f n = .ok bn → Q bn) ∧
        (∀ what, CScriptNum.ofVch vch f n = .error what → E (.throw what)) := by
  unfold scriptNum
  split <;> simp_all

theorem getOp_some {script : Bytes} {pc pc' : Nat} {opcode : UInt8} {v : Bytes}
    (h : getOp script pc = some (pc', opcode, v)) :
    pc < pc' ∧ pc' ≤ script.length ∧ opcode = script.getD pc 0 := by
  dsimp only [getOp] at h
  split_ifs at h with hok
  all_goals
    simp only [Option.some.injEq, Prod.mk.injEq] at h
    obtain ⟨rfl, rfl, -⟩ := h
    exact getScriptOp_ok hok

/-- How one statement may change the validation weight budget: not at all, or by the cost of a
signature check to a value that is not negative. `m_validation_weight_left_init` stays. -/
def WeightStep (e e' : ScriptExecutionData) : Prop :=
  e'.m_validation_weight_left_init = e.m_validation_weight_left_init ∧
    (e'.m_validation_weight_left = e.m_validation_weight_left ∨
      (e'.m_validation_weight_left = e.m_validation_weight_left - VALIDATION_WEIGHT_PER_SIGOP_PASSED ∧
        0 ≤ e'.m_validation_weight_left))

theorem weightStep_refl (e : ScriptExecutionData) : WeightStep e e := ⟨rfl, .inl rfl⟩

/-- What a case block leaves of the machine. -/
@[mk_iff]
structure BlockFrame (m m' : Machine) : Prop where
  pc : m'.pc = m.pc
  opcode_pos : m'.opcode_pos = m.opcode_pos
  weight : WeightStep m.execdata m'.execdata

attribute [simp] blockFrame_iff

section Frame
variable {σ : Type} (cs : CondStack σ) (orc : Oracles) (checker : BaseSignatureChecker)
  (script : Bytes) (flags : UInt32) (sigversion : SigVersion)

theorem evalChecksig_frame (sig pubkey : Bytes) (pbegincodehash : Nat) (execdata : ScriptExecutionData) :
    Spec (fun r => WeightStep execdata r.2) (fun _ => True)
      (evalChecksig orc checker script flags sigversion sig pubkey pbegincodehash execdata) := by
  -- only Tapscript spends the budget; the rest of `execdata` is handed back as it came
  cases sigversion <;> simp +contextual [evalChecksig, evalChecksigTapscript, WeightStep]

theorem opCheckMultiSig_frame (opcode : UInt8) (m : Machine) :
    Spec (fun m' => m'.pc = m.pc ∧ m'.opcode_pos = m.opcode_pos ∧ m'.execdata = m.execdata) (fun _ => True)
      (opCheckMultiSig orc checker script flags sigversion opcode m) := by
  simp [opCheckMultiSig, stacktop, popstack]

theorem evalBlock_frame (h : Handler) (opcode : UInt8) (m : Machine) :
    Spec (BlockFrame m) (fun _ => True) (evalBlock orc checker script flags sigversion h opcode m) := by
  cases h
  case checkSig | checkSigAdd =>
    -- the signature check hands back the budget, the rest of the block the machine
    have hsig := fun sig pubkey => evalChecksig_frame orc checker script flags sigversion sig pubkey
      m.pbegincodehash m.execdata
    simp [evalBlock, requireDepth, stacktop, popstack, spec_scriptNum]
    intros
    exact (hsig _ _).mono (fun _ hw => by simp [hw]) (fun _ _ => trivial)
  case checkMultiSig =>
    exact (opCheckMultiSig_frame orc checker script flags sigversion opcode m).mono
      (fun m' ⟨hpc, hpos, he⟩ => ⟨hpc, hpos, he ▸ weightStep_refl _⟩) (fun _ _ => trivial)
  all_goals simp [evalBlock, stacktop, popstack, requireDepth, swapTop, WeightStep]

theorem opIf_frame (opcode : UInt8) (fExec : Bool) (m : Machine) (vfExec : σ) :
    Spec (fun r => BlockFrame m r.1) (fun _ => True) (opIf cs flags sigversion opcode fExec m vfExec) := by
  simp [opIf, ifValue, stacktop, popstack, weightStep_refl]

/-- A case block other than the conditionals leaves `vfExec` alone. -/
theorem evalHandler_of_block {h : Handler} (hif : h ≠ .ifNotIf) (helse : h ≠ .else_) (hend : h ≠ .endif)
    (opcode : UInt8) (fExec : Bool) (m : Machine) (vfExec : σ) :
    evalHandler cs orc checker script flags sigversion h opcode fExec m vfExec =
      evalBlock orc checker script flags sigversion h opcode m >>= fun m => pure (m, vfExec) := by
  cases h <;> first | contradiction | rfl

theorem evalHandler_frame (h : Handler) (opcode : UInt8) (fExec : Bool) (m : Machine) (vfExec : σ) :
    Spec (fun r => BlockFrame m r.1) (fun _ => True)
      (evalHandler cs orc checker script flags sigversion h opcode fExec m vfExec) := by
  by_cases hcond : h = .ifNotIf ∨ h = .else_ ∨ h = .endif
  · rcases hcond with rfl | rfl | rfl
    · exact opIf_frame cs flags sigversion opcode fExec m vfExec
    all_goals simp [evalHandler, weightStep_refl]
  · push Not at hcond
    rw [evalHandler_of_block cs orc checker script flags sigversion hcond.1 hcond.2.1 hcond.2.2, spec_bind]
    exact (evalBlock_frame orc checker script flags sigversion h opcode m).mono (fun _ h => h) (fun _ _ => trivial)

/-- `GetOp` moves the iterator past the opcode and stays within the script. -/
theorem readInstruction_spec (pc nOpCount : Nat) :
    Spec (fun r => pc < r.1 ∧ r.1 ≤ script.length) (fun _ => True)
      (readInstruction script flags sigversion pc nOpCount) := by
  cases hg : getOp script pc with
  | none => simp [readInstruction, hg]
  | some r =>
    obtain ⟨pc', opcode, v⟩ := r
    obtain ⟨hlt, hle, -⟩ := getOp_some hg
    simp [readInstruction, hg, hlt, hle]

theorem execInstruction_frame (fExec : Bool) (opcode : UInt8) (vch : Bytes) (m : Machine) (vfExec : σ) :
    Spec (fun r => BlockFrame m r.1) (fun _ => True)
      (execInstruction cs orc checker script flags sigversion fExec opcode vch m vfExec) := by
  unfold execInstruction
  split_ifs
  · simp [weightStep_refl]
  · exact evalHandler_frame cs orc checker script flags sigversion _ opcode fExec m vfExec
  · simp [weightStep_refl]

theorem evalStep_frame (m : Machine) (vfExec : σ) :
    Spec (fun r => m.pc < r.1.pc ∧ r.1.pc ≤ script.length ∧ WeightStep m.execdata r.1.execdata) (fun _ => True)
      (evalStep cs orc checker script flags sigversion m vfExec) := by
  simp only [evalStep, spec_bind]
  refine (readInstruction_spec script flags sigversion m.pc m.nOpCount).mono ?_ (fun _ _ => trivial)
  rintro ⟨pc, opcode, vch, nOpCount⟩ ⟨hlt, hle⟩
  -- the instruction keeps the iterator `GetOp` moved and changes the budget by one step at most
  refine (execInstruction_frame cs orc checker script flags sigversion _ opcode vch _ vfExec).mono ?_
    (fun _ _ => trivial)
  rintro ⟨m', vfExec'⟩ ⟨hpc, -, hw⟩
  simp only at hpc hw
  simp [hpc, hlt, hle, hw]

/-- `for (; pc < pend; ++opcode_pos)`: every round moves `pc` on, so once the fuel covers what is
left of the script, more fuel runs the same loop. -/
theorem evalLoop_add (k : Nat) : ∀ (fuel : Nat) (m : Machine) (vfExec : σ), script.length - m.pc ≤ fuel →
    evalLoop cs orc checker script flags sigversion (fuel + k) m vfExec =
      evalLoop cs orc checker script flags sigversion fuel m vfExec
  | 0, m, vfExec, hfuel => by
    cases k with
    | zero => rfl
    | succ k => simp [evalLoop, show ¬m.pc < script.length by omega]
  | fuel + 1, m, vfExec, hfuel => by
    rw [show fuel + 1 + k = (fuel + k) + 1 by omega]
    simp only [evalLoop]
    split_ifs with hpc
    · refine (evalStep_frame cs orc checker script flags sigversion m vfExec).bind_congr ?_
      rintro ⟨m', vfExec'⟩ ⟨hlt, -, -⟩
      have hlt : m.pc < m'.pc := hlt
      exact evalLoop_add k fuel m' vfExec' (by omega)
    · rfl

theorem evalLoop_add_push :
    evalLoop conditionStack ⟨id, id, id, fun _ => true⟩
        ⟨fun _ _ _ _ => true, fun _ _ _ _ => .ok (), fun _ => true, fun _ => true⟩ [0x51] 0 .BASE (1 + 5)
        (initMachine [] {}) conditionStack.init =
      evalLoop conditionStack ⟨id, id, id, fun _ => true⟩
        ⟨fun _ _ _ _ => true, fun _ _ _ _ => .ok (), fun _ => true, fun _ => true⟩ [0x51] 0 .BASE 1
        (initMachine [] {}) conditionStack.init :=
  evalLoop_add conditionStack _ _ [0x51] 0 .BASE 5 1 _ _ (by decide)

theorem evalResult_eq_ok {r : Except Exit (Machine × σ)} {stack' : List Bytes} {execdata' : ScriptExecutionData}
    (h : evalResult cs r = .ok (stack', execdata')) :
    ∃ m vfExec, r = .ok (m, vfExec) ∧ cs.empty vfExec = true ∧ stack' = m.stack ∧ execdata' = m.execdata := by
  unfold evalResult at h
  split at h
  · cases h
  · cases h
  · rename_i m vfExec
    split_ifs at h with hempty
    cases h
    exact ⟨m, vfExec, rfl, by simpa using hempty, rfl, rfl⟩

/-- A successful `EvalScript` ran its loop to the end from the fresh machine and left `vfExec` empty. -/
theorem evalScript_eq_ok {stack stack' : List Bytes} {execdata execdata' : ScriptExecutionData}
    (h : evalScript cs orc checker script flags sigversion stack execdata = .ok (stack', execdata')) :
    ∃ m vfExec, evalLoop cs orc checker script flags sigversion script.length (initMachine stack execdata)
        cs.init = .ok (m, vfExec) ∧
      cs.empty vfExec = true ∧ stack' = m.stack ∧ execdata' = m.execdata := by
  have hspec : Spec (fun r => evalResult cs (evalLoop cs orc checker script flags sigversion script.length
      (initMachine stack execdata) cs.init) = .ok r) (fun _ => True)
      (evalScript cs orc checker script flags sigversion stack execdata) := by
    simp only [evalScript, spec_bind, spec_ite, spec_throw]
    exact ⟨fun _ => trivial, fun _ => ⟨fun _ => trivial, fun _ => spec_of_ok (fun _ => trivial) fun _ h => h⟩⟩
  exact evalResult_eq_ok cs (hspec.of_ok h)

end Frame

/-! ### The validation weight budget over a run -/

/-- From a budget that is not negative, a step leaves it or takes fifty from it, never below zero. -/
theorem WeightStep.toInt {e e' : ScriptExecutionData} (h : WeightStep e e')
    (hw : 0 ≤ e.m_validation_weight_left.toInt) :
    (e'.m_validation_weight_left.toInt = e.m_validation_weight_left.toInt ∨
      e'.m_validation_weight_left.toInt = e.m_validation_weight_left.toInt - VALIDATION_WEIGHT_PER_SIGOP_PASSED.toInt) ∧
      0 ≤ e'.m_validation_weight_left.toInt := by
  rcases h.2 with heq | ⟨heq, hnonneg⟩
  · rw [heq]
    exact ⟨.inl rfl, hw⟩
  · have hcost : VALIDATION_WEIGHT_PER_SIGOP_PASSED.toInt = 50 := rfl
    have hlt := Int64.toInt_lt e.m_validation_weight_left
    -- a budget that is not negative does not wrap when the cost is taken from it
    have hsub : e'.m_validation_weight_left.toInt = e.m_validation_weight_left.toInt - 50 := by
      rw [heq, Int64.toInt_sub, hcost, Int.bmod_eq_of_le] <;> omega
    rw [Int64.le_iff_toInt_le, Int64.toInt_zero] at hnonneg
    exact ⟨.inr (hcost ▸ hsub), hnonneg⟩

/-- The budget a run leaves: what it started with, less fifty for each signature check that
spent it, and not negative. -/
def BudgetSpent (w : Int) (e : ScriptExecutionData) : Prop :=
  ∃ k : Nat, e.m_validation_weight_left.toInt = w - VALIDATION_WEIGHT_PER_SIGOP_PASSED.toInt * k ∧
    0 ≤ e.m_validation_weight_left.toInt

theorem BudgetSpent.step {w : Int} {e e' : ScriptExecutionData} (h : BudgetSpent w e) (hs : WeightStep e e') :
    BudgetSpent w e' := by
  obtain ⟨k, hk, hnonneg⟩ := h
  obtain ⟨heq | hsub, hnonneg'⟩ := hs.toInt hnonneg
  · exact ⟨k, heq ▸ hk, hnonneg'⟩
  · refine ⟨k + 1, ?_, hnonneg'⟩
    rw [hsub, hk]
    push_cast
    ring

section Budget
variable {σ : Type} (cs : CondStack σ) (orc : Oracles) (checker : BaseSignatureChecker)
  (script : Bytes) (flags : UInt32) (sigversion : SigVersion)

theorem evalLoop_budget {w : Int} : ∀ (fuel : Nat) (m : Machine) (vfExec : σ), BudgetSpent w m.execdata →
    Spec (fun r => BudgetSpent w r.1.execdata) (fun _ => True)
      (evalLoop cs orc checker script flags sigversion fuel m vfExec)
  | 0, m, vfExec, hb => hb
  | fuel + 1, m, vfExec, hb => by
    simp only [evalLoop]
    split_ifs with hpc
    · rw [spec_bind]
      refine (evalStep_frame cs orc checker script flags sigversion m vfExec).mono ?_ (fun _ _ => trivial)
      rintro ⟨m', vfExec'⟩ ⟨-, -, hw⟩
      exact evalLoop_budget fuel m' vfExec' (hb.step hw)
    · exact hb

/-- A script run never spends more validation weight than it is given: from a budget that is not
negative, `EvalScript` leaves it less fifty for each signature check it counted, and not negative. -/
theorem evalScript_budget {stack stack' : List Bytes} {execdata execdata' : ScriptExecutionData}
    (h : evalScript cs orc checker script flags sigversion stack execdata = .ok (stack', execdata'))
    (hw : 0 ≤ execdata.m_validation_weight_left.toInt) :
    ∃ k : Nat, execdata'.m_validation_weight_left.toInt =
        execdata.m_validation_weight_left.toInt - VALIDATION_WEIGHT_PER_SIGOP_PASSED.toInt * k ∧
      0 ≤ execdata'.m_validation_weight_left.toInt := by
  obtain ⟨m, vfExec, hloop, -, -, rfl⟩ := evalScript_eq_ok cs orc checker script flags sigversion h
  exact (evalLoop_budget cs orc checker script flags sigversion _ _ _ ⟨0, by simp [initMachine], hw⟩).of_ok hloop

/-- An `OP_CHECKSIG` in Tapscript with a non-empty signature and a 32-byte key spends fifty. -/
theorem evalScript_budget_checksig :
    evalScript conditionStack ⟨id, id, id, fun _ => true⟩
        ⟨fun _ _ _ _ => true, fun _ _ _ _ => .ok (), fun _ => true, fun _ => true⟩ [0xac] 0 .TAPSCRIPT
        [[1], List.replicate 32 2] { m_validation_weight_left_init := true, m_validation_weight_left := 100 } =
      .ok ([[1]], { m_codeseparator_pos_init := true, m_codeseparator_pos := 0xFFFFFFFF,
                    m_validation_weight_left_init := true, m_validation_weight_left := 50 }) ∧
      0 ≤ (100 : Int64).toInt ∧
      ∃ k : Nat, (50 : Int64).toInt = (100 : Int64).toInt - VALIDATION_WEIGHT_PER_SIGOP_PASSED.toInt * k ∧
        0 ≤ (50 : Int64).toInt := by
  have hrun : evalScript conditionStack ⟨id, id, id, fun _ => true⟩
      ⟨fun _ _ _ _ => true, fun _ _ _ _ => .ok (), fun _ => true, fun _ => true⟩ [0xac] 0 .TAPSCRIPT
      [[1], List.replicate 32 2] { m_validation_weight_left_init := true, m_validation_weight_left := 100 } =
    .ok ([[1]], { m_codeseparator_pos_init := true, m_codeseparator_pos := 0xFFFFFFFF,
                  m_validation_weight_left_init := true, m_validation_weight_left := 50 }) := rfl
  exact ⟨hrun, by decide, evalScript_budget conditionStack _ _ _ _ _ hrun (by decide)⟩

end Budget

end BlackcoinMore.Interpreter
