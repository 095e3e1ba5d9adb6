import Mathlib

/-! Specifications of computations that may fail. `Spec Q E x` says what holds of the value `x`
succeeds with and of the error it fails with; through `bind` it becomes a specification of the
first statement whose success condition is that of the rest, so that `simp` reads a `do` block
statement by statement. `Lockstep R x y` relates two computations that fail alike or succeed with
values related by `R`, and `bind` keeps it. -/
namespace BlackcoinMore.ExceptSpec

variable {ε α β γ δ : Type}

/-- `Q` of the value the computation succeeds with, `E` of the error it fails with. -/
def Spec (Q : α → Prop) (E : ε → Prop) : Except ε α → Prop
  | .ok a => Q a
  | .error e => E e

section Spec
variable {Q Q' : α → Prop} {E E' : ε → Prop}

@[simp] theorem spec_ok (a : α) : Spec Q E (.ok a) ↔ Q a := Iff.rfl

@[simp] theorem spec_error (e : ε) : Spec Q E (.error e : Except ε α) ↔ E e := Iff.rfl

@[simp] theorem spec_pure (a : α) : Spec Q E (pure a : Except ε α) ↔ Q a := Iff.rfl

@[simp] theorem spec_throw (e : ε) : Spec Q E (throw e : Except ε α) ↔ E e := Iff.rfl

@[simp] theorem spec_bind {Q : β → Prop} (x : Except ε α) (f : α → Except ε β) :
    Spec Q E (x >>= f) ↔ Spec (fun a => Spec Q E (f a)) E x := by
  cases x <;> rfl

@[simp] theorem spec_map {Q : β → Prop} (f : α → β) (x : Except ε α) :
    Spec Q E (f <$> x) ↔ Spec (fun a => Q (f a)) E x := by
  cases x <;> rfl

@[simp] theorem spec_mapError {ε' : Type} {E : ε' → Prop} (f : ε → ε') (x : Except ε α) :
    Spec Q E (x.mapError f) ↔ Spec Q (fun e => E (f e)) x := by
  cases x <;> rfl

@[simp] theorem spec_ite (c : Prop) [Decidable c] (t e : Except ε α) :
    Spec Q E (if c then t else e) ↔ (c → Spec Q E t) ∧ (¬c → Spec Q E e) := by
  split_ifs with h <;> simp [h]

@[simp] theorem spec_true (x : Except ε α) : Spec (fun _ => True) (fun _ => True) x := by
  cases x <;> trivial

theorem Spec.mono {x : Except ε α} (h : Spec Q E x) (hQ : ∀ a, Q a → Q' a) (hE : ∀ e, E e → E' e) :
    Spec Q' E' x := by
  cases x with
  | ok a => exact hQ a h
  | error e => exact hE e h

theorem Spec.of_ok {x : Except ε α} {a : α} (h : Spec Q E x) (hx : x = .ok a) : Q a := by
  subst hx
  exact h

theorem Spec.of_error {x : Except ε α} {e : ε} (h : Spec Q E x) (hx : x = .error e) : E e := by
  subst hx
  exact h

theorem Spec.and {x : Except ε α} (h : Spec Q E x) (h' : Spec Q' E' x) :
    Spec (fun a => Q a ∧ Q' a) (fun e => E e ∧ E' e) x := by
  cases x with
  | ok a => exact ⟨h, h'⟩
  | error e => exact ⟨h, h'⟩

/-- A specification whose error condition holds of every error says only what a success gives. -/
theorem spec_of_ok {x : Except ε α} (hE : ∀ e, E e) (h : ∀ a, x = .ok a → Q a) : Spec Q E x := by
  cases x with
  | ok a => exact h a rfl
  | error e => exact hE e

/-- The invariant rule of a loop whose body keeps `I` and fails only with errors `E` admits. -/
theorem spec_foldlM {I : β → Prop} {f : β → α → Except ε β} :
    ∀ (l : List α) (b : β), I b → (∀ b a, a ∈ l → I b → Spec I E (f b a)) → Spec I E (l.foldlM f b)
  | [], b, hb, _ => hb
  | a :: l, b, hb, hf => by
    rw [List.foldlM_cons, spec_bind]
    exact (hf b a (by simp) hb).mono (fun b' hb' => spec_foldlM l b' hb' (fun b a ha => hf b a (by simp [ha])))
      (fun _ he => he)

/-- A loop whose body fails only with errors `E` admits. -/
theorem spec_foldlM_errors {f : β → α → Except ε β} (l : List α) (b : β)
    (hf : ∀ b a, a ∈ l → Spec (fun _ => True) E (f b a)) : Spec (fun _ => True) E (l.foldlM f b) :=
  spec_foldlM l b trivial fun b a ha _ => hf b a ha

/-- Two continuations that agree on every value the specification admits. -/
theorem Spec.bind_congr {x : Except ε α} {f g : α → Except ε β} (h : Spec Q E x) (hfg : ∀ a, Q a → f a = g a) :
    x >>= f = x >>= g := by
  cases x with
  | ok a => exact hfg a h
  | error e => rfl

end Spec

/-! ### Two computations in step -/

/-- Both fail with the same error, or both succeed with values related by `R`. -/
def Lockstep (R : α → β → Prop) : Except ε α → Except ε β → Prop
  | .ok a, .ok b => R a b
  | .error e, .error e' => e = e'
  | _, _ => False

section Lockstep
variable {R : α → β → Prop} {S : γ → δ → Prop}

@[simp] theorem lockstep_ok_ok (a : α) (b : β) : Lockstep (ε := ε) R (.ok a) (.ok b) ↔ R a b := Iff.rfl

theorem Lockstep.pure {a : α} {b : β} (h : R a b) : Lockstep (ε := ε) R (pure a) (pure b) := h

theorem Lockstep.refl {R : α → α → Prop} {x : Except ε α} (hR : ∀ a, x = .ok a → R a a) : Lockstep R x x := by
  cases x with
  | ok a => exact hR a rfl
  | error e => rfl

theorem Lockstep.bind {x : Except ε α} {y : Except ε β} {f : α → Except ε γ} {g : β → Except ε δ}
    (h : Lockstep R x y) (hf : ∀ a b, R a b → Lockstep S (f a) (g b)) : Lockstep S (x >>= f) (y >>= g) := by
  cases x <;> cases y <;> simp only [Lockstep] at h
  · subst h
    rfl
  · exact hf _ _ h

/-- The first statement run alike in both, the rest related from each of its values. -/
theorem Lockstep.bind_left {x : Except ε α} {f : α → Except ε γ} {g : α → Except ε δ}
    (hf : ∀ a, x = .ok a → Lockstep S (f a) (g a)) : Lockstep S (x >>= f) (x >>= g) := by
  cases x with
  | ok a => exact hf a rfl
  | error e => rfl

/-- A specification of the first computation carried along the relation. -/
theorem Lockstep.and_spec {x : Except ε α} {y : Except ε β} {Q : α → Prop} {E : ε → Prop} (h : Lockstep R x y)
    (hx : Spec Q E x) : Lockstep (fun a b => R a b ∧ Q a) x y := by
  cases x <;> cases y <;> simp only [Lockstep, Spec] at h hx ⊢
  · exact h
  · exact ⟨h, hx⟩

theorem Lockstep.mono {x : Except ε α} {y : Except ε β} {R' : α → β → Prop} (h : Lockstep R x y)
    (hR : ∀ a b, R a b → R' a b) : Lockstep R' x y := by
  cases x <;> cases y <;> simp only [Lockstep] at h ⊢
  · exact h
  · exact hR _ _ h

end Lockstep

end BlackcoinMore.ExceptSpec
