import Mathlib

/-! Loops that may fail: `List.foldlM` in `Except ε`. The invariant rule, and the rule that
two loop bodies agreeing on every state an invariant admits give the same loop. -/
namespace BlackcoinMore.ExceptFold

variable {ε σ α : Type}

/-- The error a computation fails with, if it fails. -/
def errorOf : Except ε α → Option ε
  | .error e => some e
  | .ok _ => none

theorem bind_eq_ok {x : Except ε σ} {f : σ → Except ε α} {a : α} (h : x >>= f = .ok a) :
    ∃ s, x = .ok s ∧ f s = .ok a := by
  cases x with
  | error e => cases h
  | ok s => exact ⟨s, rfl, h⟩

/-- A property every successful step preserves holds after every successful loop. -/
theorem foldlM_inv (P : σ → Prop) {f : σ → α → Except ε σ} {xs : List α} {s s' : σ}
    (hs : P s) (step : ∀ s x s', x ∈ xs → P s → f s x = .ok s' → P s')
    (h : xs.foldlM f s = .ok s') : P s' := by
  induction xs generalizing s with
  | nil =>
    cases h
    exact hs
  | cons x xs ih =>
    rw [List.foldlM_cons] at h
    obtain ⟨t, ht, hrest⟩ := bind_eq_ok h
    exact ih (step s x t (by simp) hs ht) (fun s y s' hy => step s y s' (by simp [hy])) hrest

/-- Two bodies that agree on the states an invariant admits, where the first body keeps the
invariant, run the same loop. -/
theorem foldlM_congr_inv (P : σ → Prop) {f g : σ → α → Except ε σ} {xs : List α} {s : σ}
    (hs : P s) (agree : ∀ s x, x ∈ xs → P s → f s x = g s x)
    (step : ∀ s x s', x ∈ xs → P s → f s x = .ok s' → P s') :
    xs.foldlM f s = xs.foldlM g s := by
  induction xs generalizing s with
  | nil => rfl
  | cons x xs ih =>
    rw [List.foldlM_cons, List.foldlM_cons, ← agree s x (by simp) hs]
    cases hx : f s x with
    | error e => rfl
    | ok t =>
      exact ih (step s x t (by simp) hs hx) (fun s y hy => agree s y (by simp [hy]))
        (fun s y s' hy => step s y s' (by simp [hy]))

/-! The `do` notation joins the code after an `if` into both branches; these read a successful
run back through one such `if`, `k` being the joined code. -/

theorem cont_of_ite_bind {c : Prop} [Decidable c] {m : Except ε Unit} {f : Unit → Except ε α}
    {k : Except ε α} {a : α} (h : (if c then m >>= f else k) = .ok a) (hf : f () = k) : k = .ok a := by
  split at h
  · obtain ⟨_, -, h⟩ := bind_eq_ok h
    exact hf ▸ h
  · exact h

theorem cont_of_ite_throw {c : Prop} [Decidable c] {e : ε} {f : Unit → Except ε α} {k : Except ε α}
    {a : α} (h : (if c then throw e >>= f else k) = .ok a) : ¬c ∧ k = .ok a := by
  split at h
  · cases h
  · exact ⟨‹_›, h⟩

/-- An `if` whose `then` branch, when it succeeds, also ends in the joined code. -/
theorem cont_of_ite {c : Prop} [Decidable c] {t k : Except ε α} {a : α}
    (h : (if c then t else k) = .ok a) (ht : c → t = .ok a → k = .ok a) : k = .ok a := by
  split at h
  · exact ht ‹_› h
  · exact h

/-- A `for` loop whose body only yields or fails ran its body successfully on every element. -/
theorem forIn_ok {f : α → Unit → Except ε (ForInStep Unit)}
    (hf : ∀ a r, f a () = .ok r → r = .yield ()) :
    ∀ {xs : List α}, forIn xs () f = .ok () → ∀ a ∈ xs, f a () = .ok (.yield ())
  | [], _, a, ha => by cases ha
  | x :: xs, h, a, ha => by
    rw [List.forIn_cons] at h
    obtain ⟨r, hr, h⟩ := bind_eq_ok h
    obtain rfl := hf x r hr
    rcases List.mem_cons.mp ha with rfl | ha
    · exact hr
    · exact forIn_ok hf h a ha

end BlackcoinMore.ExceptFold
