import BlackcoinMore.Simulation

/-! `interpreter.cpp`: `ConditionStack`, the stack of `OP_IF` branches that `EvalScript` keeps in
`vfExec`. It stands for a vector of booleans but stores only the vector's size and the position
of its first false value, in two `uint32_t`s. Its `assert`s fail as `none`.

The stack refines `std::vector<bool>`: the state after any run is the one that the vector's size
and first false position determine (`Represents`), as long as `pop_back` and `toggle_top` see a
non-empty stack and the depth stays below `NO_FALSE`. So `empty()` and `all_true()` answer as the
vector does after every step. -/

namespace BlackcoinMore.Interpreter
open Simulation

/-- `NO_FALSE`, `std::numeric_limits<uint32_t>::max()`. -/
def NO_FALSE : UInt32 := 0xFFFFFFFF

structure ConditionStack where
  m_stack_size : UInt32 := 0
  m_first_false_pos : UInt32 := NO_FALSE
  deriving DecidableEq, Repr

namespace ConditionStack

def empty (s : ConditionStack) : Bool := s.m_stack_size == 0

def all_true (s : ConditionStack) : Bool := s.m_first_false_pos == NO_FALSE

def push_back (s : ConditionStack) (f : Bool) : ConditionStack :=
  -- the first false of an all-true stack appears at the current size
  { m_stack_size := s.m_stack_size + 1
    m_first_false_pos := if s.m_first_false_pos == NO_FALSE && !f then s.m_stack_size else s.m_first_false_pos }

def pop_back (s : ConditionStack) : Option ConditionStack :=
  if s.m_stack_size > 0 then
    let m_stack_size := s.m_stack_size - 1
    some { m_stack_size
           m_first_false_pos := if s.m_first_false_pos == m_stack_size then NO_FALSE else s.m_first_false_pos }
  else none

def toggle_top (s : ConditionStack) : Option ConditionStack :=
  if s.m_stack_size > 0 then
    -- a false below the first false one is not observable, so only the top is looked at
    some { s with
      m_first_false_pos :=
        if s.m_first_false_pos == NO_FALSE then s.m_stack_size - 1
        else if s.m_first_false_pos == s.m_stack_size - 1 then NO_FALSE
        else s.m_first_false_pos }
  else none

end ConditionStack

/-- The three modifiers of `ConditionStack`. -/
inductive CondOp where
  | push_back (f : Bool)
  | pop_back
  | toggle_top
  deriving DecidableEq, Repr

def condStep (s : ConditionStack) : CondOp → Option ConditionStack
  | .push_back f => some (s.push_back f)
  | .pop_back => s.pop_back
  | .toggle_top => s.toggle_top

/-! ### The vector it stands for -/

/-- The same operation on `std::vector<bool>`; `toggle_top` negates the last element. -/
def vectorStep (v : List Bool) : CondOp → List Bool
  | .push_back f => v ++ [f]
  | .pop_back => v.dropLast
  | .toggle_top => v.modifyLast not

/-- What the caller keeps: `pop_back` and `toggle_top` on a non-empty vector, and a depth below
`NO_FALSE` after each step. -/
def allowed (v : List Bool) : CondOp → Bool
  | .push_back _ => decide (v.length + 1 < NO_FALSE.toNat)
  | .pop_back | .toggle_top => !v.isEmpty

/-- The position of the first false value, or `NO_FALSE` if there is none. -/
def firstFalse (v : List Bool) : Nat := if false ∈ v then v.idxOf false else NO_FALSE.toNat

/-- The state that stands for `v`: its size and its first false position. -/
structure Represents (s : ConditionStack) (v : List Bool) : Prop where
  size_eq : s.m_stack_size.toNat = v.length
  firstFalse_eq : s.m_first_false_pos.toNat = firstFalse v
  room : v.length < NO_FALSE.toNat

section FirstFalse

theorem toNat_NO_FALSE : NO_FALSE.toNat = 2 ^ 32 - 1 := rfl

theorem firstFalse_lt {v : List Bool} (h : false ∈ v) : firstFalse v < v.length := by
  rw [firstFalse, if_pos h]
  exact List.idxOf_lt_length_iff.mpr h

theorem firstFalse_of_not_mem {v : List Bool} (h : false ∉ v) : firstFalse v = NO_FALSE.toNat := by
  rw [firstFalse, if_neg h]

theorem firstFalse_concat_of_mem {v : List Bool} (h : false ∈ v) (b : Bool) :
    firstFalse (v ++ [b]) = firstFalse v := by
  rw [firstFalse, if_pos (List.mem_append_left _ h), List.idxOf_append_of_mem h, firstFalse, if_pos h]

theorem firstFalse_concat_of_not_mem {v : List Bool} (h : false ∉ v) (b : Bool) :
    firstFalse (v ++ [b]) = if b then NO_FALSE.toNat else v.length := by
  cases b with
  | true =>
    have : false ∉ v ++ [true] := by simpa using h
    rw [firstFalse_of_not_mem this, if_pos rfl]
  | false =>
    rw [firstFalse, if_pos (by simp), List.idxOf_append_of_notMem h]
    simp

/-- A stack below `NO_FALSE` keeps its first false position apart from `NO_FALSE`. -/
theorem firstFalse_eq_NO_FALSE_iff {v : List Bool} (hroom : v.length < NO_FALSE.toNat) :
    firstFalse v = NO_FALSE.toNat ↔ false ∉ v := by
  constructor
  · intro h hmem
    have := firstFalse_lt hmem
    omega
  · exact firstFalse_of_not_mem

end FirstFalse

section Steps

variable {s : ConditionStack} {v : List Bool}

theorem eq_of_toNat {a b : UInt32} : a = b ↔ a.toNat = b.toNat := UInt32.toNat_inj.symm

/-- `empty()` is the vector's emptiness. -/
theorem empty_eq (h : Represents s v) : s.empty = v.isEmpty := by
  rw [ConditionStack.empty, Bool.eq_iff_iff, beq_iff_eq, eq_of_toNat, h.size_eq, List.isEmpty_iff_length_eq_zero]
  rfl

/-- `all_true()` says that the vector holds no false value. -/
theorem all_true_eq (h : Represents s v) : s.all_true = decide (false ∉ v) := by
  rw [ConditionStack.all_true, Bool.eq_iff_iff, beq_iff_eq, eq_of_toNat, h.firstFalse_eq, decide_eq_true_iff,
    firstFalse_eq_NO_FALSE_iff h.room]

theorem represents_init : Represents {} [] := ⟨rfl, rfl, by decide⟩

theorem push_back_represents (h : Represents s v) (f : Bool) (hroom : v.length + 1 < NO_FALSE.toNat) :
    Represents (s.push_back f) (v ++ [f]) := by
  have hsize : (s.m_stack_size + 1).toNat = v.length + 1 := by
    rw [UInt32.toNat_add, h.size_eq, UInt32.toNat_one, Nat.mod_eq_of_lt (by rw [toNat_NO_FALSE] at hroom; omega)]
  refine ⟨by rw [List.length_append, List.length_singleton]; exact hsize, ?_, by simpa using hroom⟩
  simp only [ConditionStack.push_back, Bool.and_eq_true, beq_iff_eq, Bool.not_eq_true']
  by_cases hmem : false ∈ v
  · -- an earlier false stays the first one
    have hne : s.m_first_false_pos ≠ NO_FALSE := by
      rw [Ne, eq_of_toNat, h.firstFalse_eq, firstFalse_eq_NO_FALSE_iff h.room]
      exact not_not.mpr hmem
    rw [if_neg (fun hc => hne hc.1), h.firstFalse_eq, firstFalse_concat_of_mem hmem]
  · have hnf : s.m_first_false_pos = NO_FALSE := by rw [eq_of_toNat, h.firstFalse_eq, firstFalse_of_not_mem hmem]
    rw [firstFalse_concat_of_not_mem hmem]
    cases f with
    | true => simp [hnf]
    | false => simp [hnf, h.size_eq]

/-- A non-empty stack passes the `assert`, and its size less one is the size below the top. -/
theorem size_of_concat (h : Represents s (v ++ [b])) :
    s.m_stack_size > 0 ∧ (s.m_stack_size - 1).toNat = v.length := by
  have hsize : s.m_stack_size.toNat = v.length + 1 := by simpa using h.size_eq
  have hpos : s.m_stack_size > 0 := by
    rw [gt_iff_lt, UInt32.lt_iff_toNat_lt, hsize]
    exact Nat.succ_pos _
  refine ⟨hpos, ?_⟩
  rw [UInt32.toNat_sub_of_le _ _ (by rw [UInt32.le_iff_toNat_le, hsize, UInt32.toNat_one]; omega), hsize,
    UInt32.toNat_one, Nat.add_sub_cancel]

theorem pop_back_represents (h : Represents s (v ++ [b])) :
    ∃ s', s.pop_back = some s' ∧ Represents s' v := by
  have hroom : v.length + 1 < NO_FALSE.toNat := by simpa using h.room
  obtain ⟨hpos, hsub⟩ := size_of_concat h
  refine ⟨_, if_pos hpos, ⟨hsub, ?_, by omega⟩⟩
  dsimp only
  by_cases hmem : false ∈ v
  · -- the first false is below the top, and stays
    have hlt := firstFalse_lt hmem
    have hne : s.m_first_false_pos ≠ s.m_stack_size - 1 := by
      rw [Ne, eq_of_toNat, h.firstFalse_eq, firstFalse_concat_of_mem hmem, hsub]
      omega
    rw [if_neg (by simpa using hne), h.firstFalse_eq, firstFalse_concat_of_mem hmem]
  · -- without a false below the top, the popped value was the first false or there was none
    rw [firstFalse_of_not_mem hmem]
    have hff := h.firstFalse_eq
    rw [firstFalse_concat_of_not_mem hmem] at hff
    cases b with
    | true =>
      have hnf : s.m_first_false_pos = NO_FALSE := by rw [eq_of_toNat, hff, if_pos rfl]
      split <;> simp [hnf]
    | false =>
      have htop : s.m_first_false_pos = s.m_stack_size - 1 := by
        rw [eq_of_toNat, hff, hsub]
        rfl
      rw [if_pos (by simpa using htop)]

theorem toggle_top_represents (h : Represents s (v ++ [b])) :
    ∃ s', s.toggle_top = some s' ∧ Represents s' (v ++ [!b]) := by
  have hroom : v.length + 1 < NO_FALSE.toNat := by simpa using h.room
  obtain ⟨hpos, hsub⟩ := size_of_concat h
  refine ⟨_, if_pos hpos, ⟨by simpa using h.size_eq, ?_, by simpa using hroom⟩⟩
  dsimp only
  by_cases hmem : false ∈ v
  · -- a false below the top: toggling the top is not observable
    have hlt := firstFalse_lt hmem
    have hnf : s.m_first_false_pos ≠ NO_FALSE := by
      rw [Ne, eq_of_toNat, h.firstFalse_eq, firstFalse_concat_of_mem hmem]
      rw [toNat_NO_FALSE] at hroom ⊢
      omega
    have hne : s.m_first_false_pos ≠ s.m_stack_size - 1 := by
      rw [Ne, eq_of_toNat, h.firstFalse_eq, firstFalse_concat_of_mem hmem, hsub]
      omega
    rw [if_neg (by simpa using hnf), if_neg (by simpa using hne), h.firstFalse_eq,
      firstFalse_concat_of_mem hmem, firstFalse_concat_of_mem hmem]
  · have hff := h.firstFalse_eq
    rw [firstFalse_concat_of_not_mem hmem] at hff
    rw [firstFalse_concat_of_not_mem hmem]
    cases b with
    | true =>
      -- all true: the top becomes the first false
      have hnf : s.m_first_false_pos = NO_FALSE := by rw [eq_of_toNat, hff, if_pos rfl]
      rw [if_pos (by simpa using hnf), hsub]
      rfl
    | false =>
      -- the top was the first false: all true again
      have htop : s.m_first_false_pos = s.m_stack_size - 1 := by
        rw [eq_of_toNat, hff, hsub]
        rfl
      have hnf : s.m_first_false_pos ≠ NO_FALSE := by
        rw [Ne, eq_of_toNat, hff]
        rw [toNat_NO_FALSE] at hroom ⊢
        simp only [Bool.false_eq_true, if_false]
        omega
      rw [if_neg (by simpa using hnf), if_pos (by simpa using htop)]
      rfl

/-- One allowed step keeps the representation. -/
theorem condStep_represents (h : Represents s v) (op : CondOp) (hok : allowed v op = true) :
    ∃ s', condStep s op = some s' ∧ Represents s' (vectorStep v op) := by
  cases op with
  | push_back f =>
    exact ⟨_, rfl, push_back_represents h f (by simpa [allowed] using hok)⟩
  | pop_back =>
    obtain ⟨w, b, rfl⟩ := List.eq_nil_or_concat v |>.resolve_left (by simpa [allowed] using hok)
    rw [List.concat_eq_append] at h
    obtain ⟨s', hs', hr⟩ := pop_back_represents h
    exact ⟨s', hs', by rwa [List.concat_eq_append, vectorStep, List.dropLast_concat]⟩
  | toggle_top =>
    obtain ⟨w, b, rfl⟩ := List.eq_nil_or_concat v |>.resolve_left (by simpa [allowed] using hok)
    rw [List.concat_eq_append] at h
    obtain ⟨s', hs', hr⟩ := toggle_top_represents h
    exact ⟨s', hs', by rwa [List.concat_eq_append, vectorStep, List.modifyLast_concat]⟩

end Steps

/-- From the empty stack, after every prefix of an allowed run the stack succeeds and answers
`empty()` and `all_true()` as the vector under the same operations does. -/
theorem conditionStack_refines_vector (ops : List CondOp) (hok : Admissible allowed vectorStep [] ops = true)
    (k : Nat) :
    ∃ s, (ops.take k).foldlM condStep {} = some s ∧
      s.empty = ((ops.take k).foldl vectorStep []).isEmpty ∧
      s.all_true = decide (false ∉ (ops.take k).foldl vectorStep []) := by
  obtain ⟨s, hrun, hrep⟩ := @prefix_simulates _ _ _ condStep vectorStep allowed Represents
    (fun _ _ op h hok => condStep_represents h op hok) ops {} [] represents_init hok k
  exact ⟨s, hrun, empty_eq hrep, all_true_eq hrep⟩

/-- An `OP_IF` that is taken, an `OP_IF` that is not, its `OP_ELSE`, and the two `OP_ENDIF`s. -/
theorem conditionStack_refines_vector_nested :
    Admissible allowed vectorStep [] [.push_back true, .push_back false, .toggle_top, .pop_back, .pop_back] = true ∧
      ∃ s, ([CondOp.push_back true, .push_back false, .toggle_top, .pop_back, .pop_back].take 2).foldlM condStep {} =
          some s ∧ s.empty = false ∧ s.all_true = false :=
  ⟨by decide, conditionStack_refines_vector [.push_back true, .push_back false, .toggle_top, .pop_back, .pop_back]
    (by decide) 2⟩

end BlackcoinMore.Interpreter
