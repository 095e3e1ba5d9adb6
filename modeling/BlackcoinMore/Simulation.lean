import Mathlib

/-! Forward simulation of a machine whose operations may fail (`σ → ω → Option σ`) by a total
abstract machine (`α → ω → α`). A run is admissible when each operation is allowed, by a test on
the abstract state, where it is applied. If one allowed step keeps a relation between the two
states, then every admissible run succeeds and keeps the relation, after every prefix. -/

namespace BlackcoinMore.Simulation

variable {σ α ω : Type}

/-- Each operation of the run is allowed in the abstract state the operations before it leave. -/
def Admissible (ok : α → ω → Bool) (absStep : α → ω → α) : α → List ω → Bool
  | _, [] => true
  | a, op :: ops => ok a op && Admissible ok absStep (absStep a op) ops

@[simp] theorem admissible_nil (ok : α → ω → Bool) (absStep : α → ω → α) (a : α) :
    Admissible ok absStep a [] = true := rfl

@[simp] theorem admissible_cons (ok : α → ω → Bool) (absStep : α → ω → α) (a : α) (op : ω) (ops : List ω) :
    Admissible ok absStep a (op :: ops) = (ok a op && Admissible ok absStep (absStep a op) ops) := rfl

theorem admissible_take (ok : α → ω → Bool) (absStep : α → ω → α) :
    ∀ (ops : List ω) (a : α) (k : Nat), Admissible ok absStep a ops = true →
      Admissible ok absStep a (ops.take k) = true
  | [], _, _, _ => by rw [List.take_nil]; rfl
  | _ :: _, _, 0, _ => rfl
  | op :: ops, a, k + 1, h => by
    simp only [admissible_cons, Bool.and_eq_true] at h
    simp only [List.take_succ_cons, admissible_cons, Bool.and_eq_true]
    exact ⟨h.1, admissible_take ok absStep ops (absStep a op) k h.2⟩

section Run

variable {step : σ → ω → Option σ} {absStep : α → ω → α} {ok : α → ω → Bool} {R : σ → α → Prop}

/-- The run lemma: from related states, an admissible run succeeds and ends in related states. -/
theorem run_simulates
    (hstep : ∀ s a op, R s a → ok a op = true → ∃ s', step s op = some s' ∧ R s' (absStep a op)) :
    ∀ (ops : List ω) (s : σ) (a : α), R s a → Admissible ok absStep a ops = true →
      ∃ s', ops.foldlM step s = some s' ∧ R s' (ops.foldl absStep a)
  | [], s, _, hR, _ => ⟨s, rfl, hR⟩
  | op :: ops, s, a, hR, hadm => by
    simp only [admissible_cons, Bool.and_eq_true] at hadm
    obtain ⟨s₁, hs₁, hR₁⟩ := hstep s a op hR hadm.1
    obtain ⟨s', hrun, hR'⟩ := run_simulates hstep ops s₁ (absStep a op) hR₁ hadm.2
    exact ⟨s', by rw [List.foldlM_cons, hs₁, Option.bind_eq_bind, Option.bind_some, hrun], hR'⟩

/-- The relation holds after every prefix of an admissible run. -/
theorem prefix_simulates
    (hstep : ∀ s a op, R s a → ok a op = true → ∃ s', step s op = some s' ∧ R s' (absStep a op))
    {ops : List ω} {s : σ} {a : α} (hR : R s a) (hadm : Admissible ok absStep a ops = true) (k : Nat) :
    ∃ s', (ops.take k).foldlM step s = some s' ∧ R s' ((ops.take k).foldl absStep a) :=
  run_simulates hstep (ops.take k) s a hR (admissible_take ok absStep ops a k hadm)

end Run

end BlackcoinMore.Simulation
