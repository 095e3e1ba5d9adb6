import BlackcoinMore.InterpreterFrame

/-! No `assert` of `EvalScript` fails. The asserts guard things the interpreter itself ensures: the
opcode of a push passed to `CheckMinimalPush`, the opcode groups of the numeric switches, the
signature version of the checksig helpers, a non-empty condition stack for `OP_ELSE` and
`OP_ENDIF`, and no overflow in `OP_1ADD`, `OP_1SUB`, `OP_NEGATE` and `OP_ABS`, whose operands are
at most four bytes. Only two preconditions come from the caller: a signature version that runs a
script, and a Tapscript budget that has been set up, as `ExecuteWitnessScript` does. -/

namespace BlackcoinMore.Interpreter
open Primitives ByteCodec ScriptNum ScriptOps ExceptSpec
open Sighash (SigVersion)

/-- An error that is not a failed `assert`. -/
def NoAbort (e : Exit) : Prop := e.isAbort = false

@[simp] theorem noAbort_fail (e : ScriptError) : NoAbort (.fail e) := rfl

@[simp] theorem noAbort_throw (what : String) : NoAbort (.throw what) := rfl

/-! ### The opcode groups -/

theorem handlerOf_numeric1 {opcode : UInt8} (h : handlerOf opcode = .numeric1) :
    opcode = OP_1ADD ∨ opcode = OP_1SUB ∨ opcode = OP_NEGATE ∨ opcode = OP_ABS ∨ opcode = OP_NOT ∨
      opcode = OP_0NOTEQUAL := by
  unfold handlerOf at h
  split at h <;> cases h <;> rename_i hop <;>
    simp [OP_1ADD, OP_1SUB, OP_NEGATE, OP_ABS, OP_NOT, OP_0NOTEQUAL, ← UInt8.toNat_inj, hop]

theorem handlerOf_numeric2 {opcode : UInt8} (h : handlerOf opcode = .numeric2) :
    opcode = OP_ADD ∨ opcode = OP_SUB ∨ opcode = OP_BOOLAND ∨ opcode = OP_BOOLOR ∨ opcode = OP_NUMEQUAL ∨
      opcode = OP_NUMEQUALVERIFY ∨ opcode = OP_NUMNOTEQUAL ∨ opcode = OP_LESSTHAN ∨ opcode = OP_GREATERTHAN ∨
      opcode = OP_LESSTHANOREQUAL ∨ opcode = OP_GREATERTHANOREQUAL ∨ opcode = OP_MIN ∨ opcode = OP_MAX := by
  unfold handlerOf at h
  split at h <;> cases h <;> rename_i hop <;>
    simp [OP_ADD, OP_SUB, OP_BOOLAND, OP_BOOLOR, OP_NUMEQUAL, OP_NUMEQUALVERIFY, OP_NUMNOTEQUAL, OP_LESSTHAN,
      OP_GREATERTHAN, OP_LESSTHANOREQUAL, OP_GREATERTHANOREQUAL, OP_MIN, OP_MAX, ← UInt8.toNat_inj, hop]

/-! ### Arithmetic on four-byte operands -/

/-- An operand read with the default size is at most four bytes, so below `2 ^ 31` in magnitude. -/
theorem ofVch_natAbs_lt {vch : Bytes} {f : Bool} {bn : CScriptNum}
    (h : CScriptNum.ofVch vch f = .ok bn) : bn.m_value.toInt.natAbs < 2 ^ 31 := by
  unfold CScriptNum.ofVch at h
  split_ifs at h with hlen
  cases h
  exact natAbs_setVch_lt (n := 4) (by simpa [nDefaultMaxNumSize] using hlen) (by norm_num) (by norm_num)

section Small
variable {bn : CScriptNum} (h : bn.m_value.toInt.natAbs < 2 ^ 31)
include h

theorem addAssign_one : addAssign bn 1 = pure ⟨bn.m_value + 1⟩ := by
  have hle : bn.m_value ≤ INT64_MAX - 1 := by
    rw [Int64.le_iff_toInt_le, show (INT64_MAX - 1).toInt = 2 ^ 63 - 2 by decide]
    omega
  simp [addAssign, hle]

theorem subAssign_one : subAssign bn 1 = pure ⟨bn.m_value - 1⟩ := by
  have hle : INT64_MIN + 1 ≤ bn.m_value := by
    rw [Int64.le_iff_toInt_le, show (INT64_MIN + 1).toInt = -2 ^ 63 + 1 by decide]
    omega
  simp [subAssign, hle]

theorem negate_small : negate bn = pure ⟨-bn.m_value⟩ := by
  have hne : bn.m_value ≠ INT64_MIN := fun heq => by
    rw [heq, show INT64_MIN.toInt = -2 ^ 63 by decide] at h
    omega
  simp [negate, hne]

end Small

theorem numeric1Op_noAbort {opcode : UInt8} {bn : CScriptNum} (hop : handlerOf opcode = .numeric1)
    (hbn : bn.m_value.toInt.natAbs < 2 ^ 31) : Spec (fun _ => True) NoAbort (numeric1Op opcode bn) := by
  rcases handlerOf_numeric1 hop with rfl | rfl | rfl | rfl | rfl | rfl <;>
    simp [numeric1Op, addAssign_one hbn, subAssign_one hbn, negate_small hbn]

theorem numeric2Op_noAbort {opcode : UInt8} (hop : handlerOf opcode = .numeric2) (bn1 bn2 : CScriptNum) :
    Spec (fun _ => True) NoAbort (numeric2Op opcode bn1 bn2) := by
  rcases handlerOf_numeric2 hop with rfl | rfl | rfl | rfl | rfl | rfl | rfl | rfl | rfl | rfl | rfl | rfl | rfl <;>
    simp [numeric2Op]

/-! ### The case blocks -/

section Blocks
variable (orc : Oracles) (checker : BaseSignatureChecker) (script : Bytes) (flags : UInt32)
  (sigversion : SigVersion)

theorem evalChecksig_noAbort (hsig : sigversion ≠ .TAPROOT) (sig pubkey : Bytes) (pbegincodehash : Nat)
    {execdata : ScriptExecutionData} (hinit : sigversion = .TAPSCRIPT → execdata.m_validation_weight_left_init = true) :
    Spec (fun _ => True) NoAbort (evalChecksig orc checker script flags sigversion sig pubkey pbegincodehash execdata) := by
  cases sigversion
  case TAPROOT => exact absurd rfl hsig
  case TAPSCRIPT =>
    simp [evalChecksig, evalChecksigTapscript, hinit rfl]
  all_goals simp [evalChecksig, evalChecksigPreTapscript, checkSignatureEncoding, isLowDERSignature,
    checkPubKeyEncoding]

theorem multisigLoop_noAbort (stack : List Bytes) (scriptCode : Bytes) :
    ∀ nKeysCount isig ikey nSigsCount,
      Spec (fun _ => True) NoAbort (multisigLoop orc checker flags sigversion stack scriptCode nKeysCount isig ikey nSigsCount)
  | _, _, _, 0 => by simp [multisigLoop]
  | 0, _, _, _ + 1 => by simp [multisigLoop]
  | nKeysCount + 1, isig, ikey, nSigsCount + 1 => by
    simp [multisigLoop, stacktop, checkSignatureEncoding, isLowDERSignature, checkPubKeyEncoding,
      multisigLoop_noAbort stack scriptCode nKeysCount]

theorem multisigCleanup_noAbort (fSuccess : Bool) :
    ∀ n ikey2 stack, Spec (fun _ => True) NoAbort (multisigCleanup flags fSuccess n ikey2 stack)
  | 0, _, _ => by simp [multisigCleanup]
  | n + 1, ikey2, stack => by
    simp [multisigCleanup, stacktop, popstack, multisigCleanup_noAbort fSuccess n]

theorem opCheckMultiSig_noAbort (opcode : UInt8) (m : Machine) :
    Spec (fun _ => True) NoAbort (opCheckMultiSig orc checker script flags sigversion opcode m) := by
  simp [opCheckMultiSig, stacktop, popstack, spec_scriptNum, multisigLoop_noAbort, multisigCleanup_noAbort,
    spec_foldlM_errors]

theorem evalBlock_noAbort (hsig : sigversion ≠ .TAPROOT) {h : Handler} {opcode : UInt8} (hh : handlerOf opcode = h)
    {m : Machine} (hinit : sigversion = .TAPSCRIPT → m.execdata.m_validation_weight_left_init = true) :
    Spec (fun _ => True) NoAbort (evalBlock orc checker script flags sigversion h opcode m) := by
  have hsig' := fun sig pubkey => evalChecksig_noAbort orc checker script flags sigversion hsig sig pubkey
    m.pbegincodehash hinit
  cases h
  case numeric1 =>
    -- the operand is at most four bytes, so `OP_1ADD` ... `OP_ABS` do not overflow
    simp [evalBlock, requireDepth, stacktop, popstack, spec_scriptNum]
    intro _ _ bn hbn
    exact numeric1Op_noAbort hh (ofVch_natAbs_lt hbn)
  case numeric2 =>
    simp [evalBlock, requireDepth, stacktop, popstack, spec_scriptNum, numeric2Op_noAbort hh]
  case checkSig | checkSigAdd =>
    simp [evalBlock, requireDepth, stacktop, popstack, spec_scriptNum, hsig']
  case checkMultiSig => exact opCheckMultiSig_noAbort orc checker script flags sigversion opcode m
  all_goals simp [evalBlock, stacktop, popstack, requireDepth, swapTop, spec_scriptNum]

/-- `OP_ELSE` and `OP_ENDIF` test `vfExec.empty()` before they touch it. -/
theorem evalHandler_noAbort (hsig : sigversion ≠ .TAPROOT) {h : Handler} {opcode : UInt8} (hh : handlerOf opcode = h)
    (fExec : Bool) {m : Machine} (hinit : sigversion = .TAPSCRIPT → m.execdata.m_validation_weight_left_init = true)
    (vfExec : ConditionStack) :
    Spec (fun _ => True) NoAbort (evalHandler conditionStack orc checker script flags sigversion h opcode fExec m vfExec) := by
  by_cases hcond : h = .ifNotIf ∨ h = .else_ ∨ h = .endif
  · rcases hcond with rfl | rfl | rfl
    · simp [evalHandler, opIf, ifValue, stacktop, popstack]
    -- a non-empty `ConditionStack` passes the `assert` of `toggle_top` and `pop_back`
    all_goals simp +contextual [evalHandler, conditionStack, ConditionStack.empty, ConditionStack.toggle_top,
      ConditionStack.pop_back, UInt32.pos_iff_ne_zero]
  · push Not at hcond
    rw [evalHandler_of_block conditionStack orc checker script flags sigversion hcond.1 hcond.2.1 hcond.2.2, spec_bind]
    exact (evalBlock_noAbort orc checker script flags sigversion hsig hh hinit).mono (fun _ _ => trivial)
      (fun _ he => he)

theorem readInstruction_noAbort (pc nOpCount : Nat) :
    Spec (fun _ => True) NoAbort (readInstruction script flags sigversion pc nOpCount) := by
  cases hg : getOp script pc with
  | none => simp [readInstruction, hg]
  | some r => simp [readInstruction, hg]

theorem execInstruction_noAbort (hsig : sigversion ≠ .TAPROOT) (fExec : Bool) (opcode : UInt8) (vch : Bytes)
    {m : Machine} (hinit : sigversion = .TAPSCRIPT → m.execdata.m_validation_weight_left_init = true)
    (vfExec : ConditionStack) :
    Spec (fun _ => True) NoAbort
      (execInstruction conditionStack orc checker script flags sigversion fExec opcode vch m vfExec) := by
  unfold execInstruction
  split_ifs with hpush
  · -- `CheckMinimalPush` is called on push opcodes only
    have hop : opcode ≤ OP_PUSHDATA4 := by simpa using (Bool.and_eq_true _ _).mp hpush |>.2
    simp [checkMinimalPush, hop]
  · exact evalHandler_noAbort orc checker script flags sigversion hsig rfl fExec hinit vfExec
  · trivial

theorem evalStep_noAbort (hsig : sigversion ≠ .TAPROOT) {m : Machine}
    (hinit : sigversion = .TAPSCRIPT → m.execdata.m_validation_weight_left_init = true) (vfExec : ConditionStack) :
    Spec (fun _ => True) NoAbort (evalStep conditionStack orc checker script flags sigversion m vfExec) := by
  simp only [evalStep, spec_bind]
  refine (readInstruction_noAbort script flags sigversion m.pc m.nOpCount).mono ?_ (fun _ he => he)
  rintro ⟨pc, opcode, vch, nOpCount⟩ -
  refine (execInstruction_noAbort orc checker script flags sigversion hsig _ opcode vch (m := { m with pc, nOpCount })
    hinit vfExec).mono ?_ (fun _ he => he)
  rintro ⟨m', vfExec'⟩ -
  simp

/-- Every round keeps the budget's `init` flag, so the precondition of the signature checks holds
all along the run. -/
theorem evalLoop_noAbort (hsig : sigversion ≠ .TAPROOT) : ∀ (fuel : Nat) (m : Machine) (vfExec : ConditionStack),
    (sigversion = .TAPSCRIPT → m.execdata.m_validation_weight_left_init = true) →
    Spec (fun _ => True) NoAbort (evalLoop conditionStack orc checker script flags sigversion fuel m vfExec)
  | 0, _, _, _ => trivial
  | fuel + 1, m, vfExec, hinit => by
    simp only [evalLoop]
    split_ifs with hpc
    · rw [spec_bind]
      refine ((evalStep_noAbort orc checker script flags sigversion hsig hinit vfExec).and
        (evalStep_frame conditionStack orc checker script flags sigversion m vfExec)).mono ?_ (fun _ he => he.1)
      rintro ⟨m', vfExec'⟩ ⟨-, -, -, hw⟩
      exact evalLoop_noAbort hsig fuel m' vfExec' (fun ht => hw.1.trans (hinit ht))
    · trivial

/-- No `assert` of `EvalScript` fails, for a signature version that runs a script and, in
Tapscript, a validation weight budget that has been set up. -/
theorem evalScript_noAbort (hsig : sigversion ≠ .TAPROOT) (stack : List Bytes) {execdata : ScriptExecutionData}
    (hinit : sigversion = .TAPSCRIPT → execdata.m_validation_weight_left_init = true) (what : String) :
    evalScript conditionStack orc checker script flags sigversion stack execdata ≠ .error (.abort what) := by
  have hloop := evalLoop_noAbort orc checker script flags sigversion hsig script.length (initMachine stack execdata)
    conditionStack.init hinit
  have hresult : Spec (fun _ => True) NoAbort (evalResult conditionStack
      (evalLoop conditionStack orc checker script flags sigversion script.length (initMachine stack execdata)
        conditionStack.init)) := by
    unfold evalResult
    -- the `catch` turns an exception into an error code; what else the loop fails with, it passes on
    split
    · rfl
    · exact hloop.of_error ‹_›
    · simp
  have hspec : Spec (fun _ => True) NoAbort (evalScript conditionStack orc checker script flags sigversion stack execdata) := by
    simp only [evalScript, spec_bind, spec_ite, spec_throw]
    exact ⟨fun h => absurd (beq_iff_eq.mp h) hsig, fun _ => ⟨fun _ => rfl, fun _ => hresult⟩⟩
  intro h
  exact absurd (hspec.of_error h) (by simp [NoAbort, Exit.isAbort])

/-- An `OP_CHECKSIG` in Tapscript, with the budget set up. -/
theorem evalScript_noAbort_checksig :
    SigVersion.TAPSCRIPT ≠ .TAPROOT ∧
      evalScript conditionStack ⟨id, id, id, fun _ => true⟩
        ⟨fun _ _ _ _ => true, fun _ _ _ _ => .ok (), fun _ => true, fun _ => true⟩ [0xac] 0 .TAPSCRIPT
        [[1], List.replicate 32 2] { m_validation_weight_left_init := true, m_validation_weight_left := 100 } ≠
        .error (.abort "") :=
  ⟨by decide, evalScript_noAbort _ _ _ _ _ (by decide) _ (fun _ => rfl) _⟩

end Blocks

end BlackcoinMore.Interpreter
