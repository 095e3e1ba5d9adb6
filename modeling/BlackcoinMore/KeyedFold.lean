import Mathlib

/-! Maps held as association lists, and loops over their entries. A loop whose round for
key `a` reads and writes only what sits at `a` ends, key by key, where that one round would
take it (`foldlM_pointwise`); a sum over the entries moves by the old and the new value when
one key is written (`entrySum_insert`, `entrySum_erase`). -/
namespace BlackcoinMore.KeyedFold

section Sum
variable {α : Type*} {β : α → Type*} (f : ∀ a, β a → Nat)

/-- The sum of `f` over the entries of a list. -/
def entrySum (l : List (Sigma β)) : Nat := (l.map fun s => f s.1 s.2).sum

@[simp] theorem entrySum_nil : entrySum f ([] : List (Sigma β)) = 0 := rfl

theorem entrySum_kerase [DecidableEq α] (a : α) (l : List (Sigma β)) :
    entrySum f l = entrySum f (l.kerase a) + (l.dlookup a).elim 0 (f a) := by
  induction l with
  | nil => simp
  | cons s l ih =>
    by_cases h : a = s.1
    · obtain ⟨k, b⟩ := s
      simp only at h
      subst h
      simp [entrySum, List.kerase_cons_eq, List.dlookup_cons_eq, Nat.add_comm]
    · rw [List.kerase_cons_ne h, List.dlookup_cons_ne _ s h]
      simp only [entrySum, List.map_cons, List.sum_cons] at ih ⊢
      omega

theorem entrySum_insert [DecidableEq α] (m : AList β) (a : α) (b : β a) :
    entrySum f (m.insert a b).entries + (m.lookup a).elim 0 (f a) = entrySum f m.entries + f a b := by
  rw [AList.entries_insert, entrySum_kerase f a m.entries]
  simp only [entrySum, List.map_cons, List.sum_cons, AList.lookup]
  omega

theorem entrySum_erase [DecidableEq α] (m : AList β) (a : α) :
    entrySum f (m.erase a).entries + (m.lookup a).elim 0 (f a) = entrySum f m.entries :=
  (entrySum_kerase f a m.entries).symm

end Sum

/-- A loop in `Except` whose rounds cannot fail is the plain loop. -/
theorem foldlM_ok {σ δ ε : Type*} (f : σ → δ → σ) (l : List δ) (s : σ) :
    l.foldlM (fun s x => (.ok (f s x) : Except ε σ)) s = .ok (l.foldl f s) := by
  induction l generalizing s with
  | nil => rfl
  | cons x t ih => exact ih (f s x)

section Pointwise
variable {α : Type*} {β : α → Type*} {σ γ ε : Type*}
  {F : σ → Sigma β → Except ε σ} {obs : α → σ → γ} {g : ∀ a, β a → γ → Except ε γ}

/-- A round at key `x.1` answers, at that key, what `g` answers from the value there, and
leaves every other key as it was. -/
structure Pointwise (F : σ → Sigma β → Except ε σ) (obs : α → σ → γ)
    (g : ∀ a, β a → γ → Except ε γ) : Prop where
  at_key : ∀ s x, (F s x).map (obs x.1) = g x.1 x.2 (obs x.1 s)
  frame : ∀ s x s', F s x = .ok s' → ∀ a, a ≠ x.1 → obs a s' = obs a s

/-- What a loop over `l` leaves at `a`: the round for `a` applied to the start, if `a` is a
key of `l`. -/
def pointwise [DecidableEq α] (obs : α → σ → γ) (g : ∀ a, β a → γ → Except ε γ)
    (l : List (Sigma β)) (s : σ) (a : α) : Except ε γ :=
  match l.dlookup a with
  | some b => g a b (obs a s)
  | none => .ok (obs a s)

theorem Pointwise.step_ok (hP : Pointwise F obs g) {s : σ} {x : Sigma β} {v : γ}
    (h : g x.1 x.2 (obs x.1 s) = .ok v) : ∃ s', F s x = .ok s' ∧ obs x.1 s' = v := by
  have hk := hP.at_key s x
  rw [h] at hk
  cases hF : F s x with
  | error e =>
    rw [hF] at hk
    cases hk
  | ok s' =>
    rw [hF] at hk
    exact ⟨s', rfl, Except.ok.inj hk⟩

/-- A loop over distinct keys whose every round succeeds on its own succeeds, and ends at each
key where its own round goes. -/
theorem foldlM_pointwise [DecidableEq α] (hP : Pointwise F obs g) (l : List (Sigma β))
    (hl : l.NodupKeys) :
    ∀ s, (∀ a, ∃ v, pointwise obs g l s a = .ok v) →
      ∃ s', l.foldlM F s = .ok s' ∧ ∀ a, pointwise obs g l s a = .ok (obs a s') := by
  induction l with
  | nil =>
    intro s _
    exact ⟨s, rfl, fun a => rfl⟩
  | cons x t ih =>
    intro s hall
    obtain ⟨hxt, ht⟩ := List.nodupKeys_cons.mp hl
    -- the round for the first key
    obtain ⟨v, hv⟩ := hall x.1
    have hx : g x.1 x.2 (obs x.1 s) = .ok v := by
      rw [← hv, pointwise, List.dlookup_cons_eq]
    obtain ⟨s1, hs1, hobs1⟩ := hP.step_ok hx
    -- the other keys see `s1` as they saw `s`
    have hrest : ∀ a, a ≠ x.1 → pointwise obs g t s1 a = pointwise obs g (x :: t) s a := by
      intro a ha
      rw [pointwise, pointwise, List.dlookup_cons_ne _ x ha, hP.frame s x s1 hs1 a ha]
    have hfirst : pointwise obs g t s1 x.1 = .ok (obs x.1 s1) := by
      rw [pointwise, List.dlookup_eq_none.mpr hxt]
    obtain ⟨s', hs', hpt⟩ := ih ht s1 (fun a => by
      by_cases ha : a = x.1
      · exact ⟨_, ha ▸ hfirst⟩
      · rw [hrest a ha]
        exact hall a)
    refine ⟨s', by rw [List.foldlM_cons, hs1]; exact hs', fun a => ?_⟩
    by_cases ha : a = x.1
    · subst ha
      have h' := hpt x.1
      rw [hfirst] at h'
      rw [hv, ← hobs1, ← Except.ok.inj h']
    · rw [← hrest a ha]
      exact hpt a

/-- An invariant of a loop over distinct keys whose rounds keep it, each seeing its own key as
the loop found it. -/
theorem foldlM_inv_pointwise [DecidableEq α] (hP : Pointwise F obs g) (P : σ → Prop) (s₀ : σ)
    (l : List (Sigma β)) (hl : l.NodupKeys)
    (step : ∀ s x s', x ∈ l → obs x.1 s = obs x.1 s₀ → P s → F s x = .ok s' → P s') :
    ∀ s, (∀ a, a ∈ l.keys → obs a s = obs a s₀) → P s → ∀ s', l.foldlM F s = .ok s' → P s' := by
  induction l with
  | nil =>
    intro s _ hs s' h
    cases h
    exact hs
  | cons x t ih =>
    intro s hseen hs s' h
    obtain ⟨hxt, ht⟩ := List.nodupKeys_cons.mp hl
    rw [List.foldlM_cons] at h
    cases hF : F s x with
    | error e =>
      rw [hF] at h
      cases h
    | ok s1 =>
      rw [hF] at h
      have hx : obs x.1 s = obs x.1 s₀ := hseen x.1 (by rw [List.keys_cons]; exact List.mem_cons_self ..)
      refine ih ht (fun s x s' hx hobs => step s x s' (List.mem_cons_of_mem _ hx) hobs) s1
        (fun a ha => ?_) (step s x s1 (by simp) hx hs hF) s' h
      -- a key still to come is not the one this round wrote
      have hne : a ≠ x.1 := by
        rintro rfl
        exact hxt ha
      rw [hP.frame s x s1 hF a hne]
      exact hseen a (by rw [List.keys_cons]; exact List.mem_cons_of_mem _ ha)

end Pointwise

end BlackcoinMore.KeyedFold
