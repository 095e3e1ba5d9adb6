import BlackcoinMore.InterpreterFrame

/-! `EvalScript` with `ConditionStack` against `EvalScript` with the `std::vector<bool>` it
replaced: on every script shorter than `NO_FALSE` they return the same, error or result. The
loop keeps the condition stack standing for the vector (`Represents`), and the vector no deeper
than the iterator is far into the script, since each `OP_IF` and `OP_NOTIF` that pushes is read at
its own position; so the `uint32_t` fields never wrap, and `OP_ELSE` and `OP_ENDIF` only run on a
non-empty stack, which `EvalScript` tests first. -/

namespace BlackcoinMore.Interpreter
open Primitives ByteCodec ScriptNum ScriptOps ExceptSpec
open Sighash (SigVersion)

/-- The two condition stacks at iterator position `pc`. -/
def CondRel (pc : Nat) (s : ConditionStack) (v : List Bool) : Prop :=
  Represents s v ∧ v.length ≤ pc

section Answers
variable {s : ConditionStack} {v : List Bool} (h : Represents s v)
include h

theorem all_true_conditionStack : conditionStack.all_true s = vectorStack.all_true v := by
  simp [conditionStack, vectorStack, all_true_eq h]

theorem empty_conditionStack : conditionStack.empty s = vectorStack.empty v := empty_eq h

/-- `OP_ELSE` on a non-empty vector: both stacks toggle their top and stay related. -/
theorem toggle_top_conditionStack (hne : v ≠ []) :
    ∃ s', conditionStack.toggle_top s = pure s' ∧ vectorStack.toggle_top v = pure (vectorStep v .toggle_top) ∧
      Represents s' (vectorStep v .toggle_top) := by
  obtain ⟨s', hs', hrep'⟩ := condStep_represents h .toggle_top (by simpa [allowed] using hne)
  refine ⟨s', ?_, by simp [vectorStack, hne], hrep'⟩
  simp only [conditionStack, show s.toggle_top = some s' from hs']

/-- `OP_ENDIF` on a non-empty vector: both stacks pop and stay related. -/
theorem pop_back_conditionStack (hne : v ≠ []) :
    ∃ s', conditionStack.pop_back s = pure s' ∧ vectorStack.pop_back v = pure (vectorStep v .pop_back) ∧
      Represents s' (vectorStep v .pop_back) := by
  obtain ⟨s', hs', hrep'⟩ := condStep_represents h .pop_back (by simpa [allowed] using hne)
  refine ⟨s', ?_, by simp [vectorStack, hne], hrep'⟩
  simp only [conditionStack, show s.pop_back = some s' from hs']

end Answers

section Step
variable (orc : Oracles) (checker : BaseSignatureChecker) (script : Bytes) (flags : UInt32)
  (sigversion : SigVersion)

/-- A case block on both condition stacks: the same machine, and the stacks still related, one
entry deeper at most. -/
theorem evalHandler_rel {s : ConditionStack} {v : List Bool} (hrep : Represents s v)
    (hroom : v.length + 1 < NO_FALSE.toNat) (h : Handler) (opcode : UInt8) (fExec : Bool) (m : Machine) :
    Lockstep (fun r₁ r₂ => r₁.1 = r₂.1 ∧ Represents r₁.2 r₂.2 ∧ r₂.2.length ≤ v.length + 1)
      (evalHandler conditionStack orc checker script flags sigversion h opcode fExec m s)
      (evalHandler vectorStack orc checker script flags sigversion h opcode fExec m v) := by
  by_cases hcond : h = .ifNotIf ∨ h = .else_ ∨ h = .endif
  · rcases hcond with rfl | rfl | rfl
    · -- `OP_IF`: both push the value read from the same stack
      simp only [evalHandler, opIf]
      refine Lockstep.bind_left fun r _ => ?_
      obtain ⟨fValue, stack⟩ := r
      exact ⟨rfl, push_back_represents hrep fValue hroom, by simp [vectorStack, vectorStep]⟩
    · -- `OP_ELSE` on a non-empty stack: `toggle_top` on both
      simp only [evalHandler]
      rw [empty_conditionStack hrep]
      split_ifs with hempty
      · rfl
      · have hne : v ≠ [] := by simpa [vectorStack] using hempty
        obtain ⟨s', h1, h2, hrep'⟩ := toggle_top_conditionStack hrep hne
        rw [h1, h2]
        -- toggling keeps the depth
        obtain ⟨w, b, rfl⟩ := List.eq_nil_or_concat v |>.resolve_left hne
        exact ⟨rfl, hrep', by simp [vectorStep, List.modifyLast_concat]⟩
    · -- `OP_ENDIF` on a non-empty stack: `pop_back` on both
      simp only [evalHandler]
      rw [empty_conditionStack hrep]
      split_ifs with hempty
      · rfl
      · obtain ⟨s', h1, h2, hrep'⟩ := pop_back_conditionStack hrep (by simpa [vectorStack] using hempty)
        rw [h1, h2]
        exact ⟨rfl, hrep', by simp [vectorStep]; omega⟩
  · push Not at hcond
    rw [evalHandler_of_block conditionStack orc checker script flags sigversion hcond.1 hcond.2.1 hcond.2.2,
      evalHandler_of_block vectorStack orc checker script flags sigversion hcond.1 hcond.2.1 hcond.2.2]
    exact Lockstep.bind_left fun m' _ => ⟨rfl, hrep, Nat.le_succ _⟩

theorem execInstruction_rel {s : ConditionStack} {v : List Bool} (hrep : Represents s v)
    (hroom : v.length + 1 < NO_FALSE.toNat) (fExec : Bool) (opcode : UInt8) (vch : Bytes) (m : Machine) :
    Lockstep (fun r₁ r₂ => r₁.1 = r₂.1 ∧ Represents r₁.2 r₂.2 ∧ r₂.2.length ≤ v.length + 1)
      (execInstruction conditionStack orc checker script flags sigversion fExec opcode vch m s)
      (execInstruction vectorStack orc checker script flags sigversion fExec opcode vch m v) := by
  unfold execInstruction
  split_ifs
  · refine Lockstep.bind_left fun fMinimal _ => ?_
    split_ifs
    · rfl
    · exact ⟨rfl, hrep, Nat.le_succ _⟩
  · exact evalHandler_rel orc checker script flags sigversion hrep hroom _ opcode fExec m
  · exact ⟨rfl, hrep, Nat.le_succ _⟩

/-- One round on both condition stacks: the same machine, and the vector still no deeper than the
iterator, which moved past the opcode that may have pushed. -/
theorem evalStep_rel (hlen : script.length < NO_FALSE.toNat) {m : Machine} {s : ConditionStack} {v : List Bool}
    (h : CondRel m.pc s v) :
    Lockstep (fun r₁ r₂ => r₁.1 = r₂.1 ∧ CondRel r₁.1.pc r₁.2 r₂.2)
      (evalStep conditionStack orc checker script flags sigversion m s)
      (evalStep vectorStack orc checker script flags sigversion m v) := by
  obtain ⟨hrep, hdepth⟩ := h
  simp only [evalStep]
  rw [all_true_conditionStack hrep]
  refine Lockstep.bind_left fun r hread => ?_
  obtain ⟨pc, opcode, vch, nOpCount⟩ := r
  obtain ⟨hlt, hle⟩ := (readInstruction_spec script flags sigversion m.pc m.nOpCount).of_ok hread
  refine Lockstep.bind ((execInstruction_rel orc checker script flags sigversion hrep (by omega) _ opcode vch _).and_spec
    (execInstruction_frame conditionStack orc checker script flags sigversion _ opcode vch _ s)) ?_
  rintro ⟨m₁, s₁⟩ ⟨m₂, v₂⟩ ⟨⟨rfl, hrep', hdeeper⟩, hframe⟩
  have hpc : m₁.pc = pc := hframe.pc
  -- the rest of the round reads the machine only
  simp only
  split_ifs
  · rfl
  · exact ⟨rfl, hrep', by simp only at hdeeper ⊢; omega⟩

/-- The run lemma: from related condition stacks, the two loops fail alike or end with the same
machine and related stacks. -/
theorem evalLoop_rel (hlen : script.length < NO_FALSE.toNat) : ∀ (fuel : Nat) (m : Machine) (s : ConditionStack)
    (v : List Bool), CondRel m.pc s v →
    Lockstep (fun r₁ r₂ => r₁.1 = r₂.1 ∧ CondRel r₁.1.pc r₁.2 r₂.2)
      (evalLoop conditionStack orc checker script flags sigversion fuel m s)
      (evalLoop vectorStack orc checker script flags sigversion fuel m v)
  | 0, _, _, _, h => ⟨rfl, h⟩
  | fuel + 1, m, s, v, h => by
    simp only [evalLoop]
    split_ifs
    · refine Lockstep.bind (evalStep_rel orc checker script flags sigversion hlen h) ?_
      rintro ⟨m₁, s₁⟩ ⟨m₂, v₂⟩ ⟨rfl, h'⟩
      exact evalLoop_rel hlen fuel m₁ s₁ v₂ h'
    · exact ⟨rfl, h⟩

/-- The end of `EvalScript` reads the two loops' results alike. -/
theorem evalResult_rel {r₁ : Except Exit (Machine × ConditionStack)} {r₂ : Except Exit (Machine × List Bool)}
    {R : Machine × ConditionStack → Machine × List Bool → Prop} (h : Lockstep R r₁ r₂)
    (hR : ∀ a b, R a b → a.1 = b.1 ∧ Represents a.2 b.2) :
    evalResult conditionStack r₁ = evalResult vectorStack r₂ := by
  rcases r₁ with e₁ | ⟨m₁, s₁⟩ <;> rcases r₂ with e₂ | ⟨m₂, v₂⟩ <;> simp only [Lockstep] at h
  · subst h
    cases e₁ <;> rfl
  · obtain ⟨rfl, hrep⟩ := hR _ _ h
    simp only [evalResult, empty_conditionStack hrep]

/-- `EvalScript` with `ConditionStack` returns what it returns with the `std::vector<bool>` it
replaced, error or result, on every script shorter than `NO_FALSE`. -/
theorem evalScript_conditionStack_eq_vector (hlen : script.length < NO_FALSE.toNat) (stack : List Bytes)
    (execdata : ScriptExecutionData) :
    evalScript conditionStack orc checker script flags sigversion stack execdata =
      evalScript vectorStack orc checker script flags sigversion stack execdata := by
  have hloop := evalLoop_rel orc checker script flags sigversion hlen script.length (initMachine stack execdata)
    conditionStack.init vectorStack.init ⟨represents_init, le_refl _⟩
  simp only [evalScript, evalResult_rel hloop fun _ _ h => ⟨h.1, h.2.1⟩]

/-- `OP_1 OP_IF OP_0 OP_ELSE OP_1 OP_ENDIF`. -/
theorem evalScript_conditionStack_eq_vector_ifElse :
    [0x51, 0x63, 0x00, 0x67, 0x51, 0x68].length < NO_FALSE.toNat ∧
      evalScript conditionStack ⟨id, id, id, fun _ => true⟩
          ⟨fun _ _ _ _ => true, fun _ _ _ _ => .ok (), fun _ => true, fun _ => true⟩
          [0x51, 0x63, 0x00, 0x67, 0x51, 0x68] 0 .BASE [] {} =
        evalScript vectorStack ⟨id, id, id, fun _ => true⟩
          ⟨fun _ _ _ _ => true, fun _ _ _ _ => .ok (), fun _ => true, fun _ => true⟩
          [0x51, 0x63, 0x00, 0x67, 0x51, 0x68] 0 .BASE [] {} :=
  ⟨by decide, evalScript_conditionStack_eq_vector _ _ _ _ _ (by decide) _ _⟩

end Step

end BlackcoinMore.Interpreter
