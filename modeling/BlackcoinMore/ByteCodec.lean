import Mathlib

/-! Byte-stream readers and little-endian numbers: a reader consumes a prefix of its
input and returns the rest, or fails with a message. Nothing here is specific to one
wire format. -/
namespace BlackcoinMore.ByteCodec

abbrev Reader (α : Type) := StateT (List UInt8) (Except String) α

/-- The `width`-byte little-endian encoding of `v`, keeping `v % 256 ^ width`. -/
def encodeLE : Nat → Nat → List UInt8
  | 0, _ => []
  | width + 1, v => (v % 256).toUInt8 :: encodeLE width (v / 256)

def decodeLE : List UInt8 → Nat
  | [] => 0
  | b :: bs => b.toNat + 256 * decodeLE bs

def readByte (eof : String) : Reader UInt8 := fun s =>
  match s with
  | b :: rest => .ok (b, rest)
  | [] => .error eof

/-- Read exactly `n` bytes. -/
def readBytes (eof : String) : Nat → Reader (List UInt8)
  | 0 => pure []
  | n + 1 => do
    let b ← readByte eof
    let bs ← readBytes eof n
    pure (b :: bs)

/-- Run `r` exactly `n` times, collecting the results in order. -/
def readCount (r : Reader α) : Nat → Reader (List α)
  | 0 => pure []
  | n + 1 => do
    let a ← r
    let as ← readCount r n
    pure (a :: as)

@[simp] theorem length_encodeLE (width v : Nat) : (encodeLE width v).length = width := by
  induction width generalizing v with
  | zero => rfl
  | succ width ih => simp [encodeLE, ih]

theorem decodeLE_encodeLE (width v : Nat) : decodeLE (encodeLE width v) = v % 256 ^ width := by
  induction width generalizing v with
  | zero => simp [encodeLE, decodeLE, Nat.mod_one]
  | succ width ih =>
    have hb : ((v % 256).toUInt8).toNat = v % 256 := by
      simp [Nat.toUInt8, Nat.mod_mod_of_dvd]
    simp only [encodeLE, decodeLE, hb, ih]
    rw [Nat.pow_succ, Nat.mul_comm (256 ^ width) 256, Nat.mod_mul]

section Run
variable {α β : Type} {eof : String}

theorem bind_of_ok {r : Reader α} {f : α → Reader β} {s s' : List UInt8} {a : α}
    (h : r s = .ok (a, s')) : (r >>= f) s = f a s' := by
  show StateT.bind r f s = _
  simp only [StateT.bind, h]
  rfl

theorem bind_of_error {r : Reader α} {f : α → Reader β} {s : List UInt8} {e : String}
    (h : r s = .error e) : (r >>= f) s = .error e := by
  show StateT.bind r f s = _
  simp only [StateT.bind, h]
  rfl

theorem readBytes_append : ∀ (l rest : List UInt8), readBytes eof l.length (l ++ rest) = .ok (l, rest)
  | [], _ => rfl
  | b :: l, rest => by
    simp only [List.length_cons, readBytes]
    rw [bind_of_ok rfl, List.append_eq, bind_of_ok (readBytes_append l rest)]
    rfl

theorem readBytes_encodeLE (width v : Nat) (rest : List UInt8) :
    readBytes eof width (encodeLE width v ++ rest) = .ok (encodeLE width v, rest) := by
  have h := @readBytes_append eof (encodeLE width v) rest
  rwa [length_encodeLE] at h

/-- Reading `n` values off their concatenated encodings, each read back through `g`. -/
theorem readCount_flatten {r : Reader β} {ser : α → List UInt8} (g : α → β) :
    ∀ (v : List α), (∀ a ∈ v, ∀ rest, r (ser a ++ rest) = .ok (g a, rest)) →
      ∀ rest, readCount r v.length ((v.map ser).flatten ++ rest) = .ok (v.map g, rest)
  | [], _, _ => rfl
  | a :: v, hr, rest => by
    simp only [List.length_cons, readCount, List.map_cons, List.flatten_cons, List.append_assoc]
    rw [bind_of_ok (hr a (by simp) _), bind_of_ok (readCount_flatten g v (fun b hb => hr b (by simp [hb])) rest)]
    rfl

@[simp] theorem run_pure (a : α) (s : List UInt8) : (pure a : Reader α) s = .ok (a, s) := rfl

/-- A successful run of `r >>= f` is a successful run of `r`, then of `f` on what is left. -/
theorem run_bind_eq_ok {r : Reader α} {f : α → Reader β} {s s' : List UInt8} {b : β}
    (h : (r >>= f) s = .ok (b, s')) : ∃ a t, r s = .ok (a, t) ∧ f a t = .ok (b, s') := by
  change StateT.bind r f s = _ at h
  simp only [StateT.bind] at h
  cases hr : r s with
  | error e =>
    rw [hr] at h
    cases h
  | ok p =>
    rw [hr] at h
    exact ⟨p.1, p.2, rfl, h⟩

theorem readByte_eq_ok {s t : List UInt8} {b : UInt8} (h : readByte eof s = .ok (b, t)) : s = b :: t := by
  cases s with
  | nil => cases h
  | cons c s =>
    cases h
    rfl

/-- What `readBytes` accepts is the bytes it returns, then what it leaves. -/
theorem readBytes_eq_ok : ∀ {n : Nat} {s t bs : List UInt8}, readBytes eof n s = .ok (bs, t) →
    s = bs ++ t ∧ bs.length = n
  | 0, s, t, bs, h => by
    cases h
    exact ⟨rfl, rfl⟩
  | n + 1, s, t, bs, h => by
    obtain ⟨b, s₁, hb, h⟩ := run_bind_eq_ok h
    obtain ⟨bs', s₂, hbs, h⟩ := run_bind_eq_ok h
    cases h
    obtain ⟨rfl, hlen⟩ := readBytes_eq_ok hbs
    exact ⟨by rw [readByte_eq_ok hb]; rfl, by simp [hlen]⟩

end Run

theorem decodeLE_lt : ∀ l : List UInt8, decodeLE l < 256 ^ l.length
  | [] => by simp [decodeLE]
  | b :: l => by
    have hb := b.toNat_lt
    have hl := decodeLE_lt l
    rw [decodeLE, List.length_cons, Nat.pow_succ]
    omega

theorem decodeLE_append : ∀ l₁ l₂ : List UInt8,
    decodeLE (l₁ ++ l₂) = decodeLE l₁ + 256 ^ l₁.length * decodeLE l₂
  | [], l₂ => by simp [decodeLE]
  | b :: l₁, l₂ => by
    rw [List.cons_append, decodeLE, decodeLE, decodeLE_append l₁ l₂, List.length_cons, pow_succ]
    ring

/-- Decoding loses nothing: the bytes are the encoding of their number at their width. -/
theorem encodeLE_decodeLE : ∀ l : List UInt8, encodeLE l.length (decodeLE l) = l
  | [] => rfl
  | b :: l => by
    have hb := b.toNat_lt
    have hlow : (b.toNat + 256 * decodeLE l) % 256 = b.toNat := by omega
    have hhigh : (b.toNat + 256 * decodeLE l) / 256 = decodeLE l := by omega
    simp only [List.length_cons, decodeLE, encodeLE, hlow, hhigh, encodeLE_decodeLE l]
    simp [Nat.toUInt8, UInt8.ofNat_toNat]

/-- A list whose bytes at the front and at the back are those of `p` and `q` is `p`, its
middle, and `q`. -/
theorem eq_append_of_getD {α : Type} {l p q : List α} (d : α) (m : Nat)
    (hlen : l.length = p.length + m + q.length)
    (hp : ∀ i < p.length, l.getD i d = p.getD i d)
    (hq : ∀ j < q.length, l.getD (p.length + m + j) d = q.getD j d) :
    l = p ++ (l.drop p.length).take m ++ q := by
  have htake : l.take p.length = p := by
    apply List.ext_getElem (by simp; omega)
    intro i h1 h2
    have := hp i h2
    rw [List.getD_eq_getElem _ _ (by omega), List.getD_eq_getElem _ _ h2] at this
    rw [List.getElem_take, this]
  have hdrop : l.drop (p.length + m) = q := by
    apply List.ext_getElem (by simp; omega)
    intro j h1 h2
    have := hq j h2
    rw [List.getD_eq_getElem _ _ (by omega), List.getD_eq_getElem _ _ h2] at this
    rw [List.getElem_drop, this]
  calc l = l.take p.length ++ ((l.drop p.length).take m ++ (l.drop p.length).drop m) := by
        rw [List.take_append_drop, List.take_append_drop]
    _ = p ++ (l.drop p.length).take m ++ q := by
        rw [htake, List.drop_drop, hdrop, List.append_assoc]

/-- The elements of `l` from position `a` up to `b`. -/
def slice {α : Type} (l : List α) (a b : Nat) : List α := (l.drop a).take (b - a)

section Slice
variable {α : Type} (l : List α)

@[simp] theorem slice_self (a : Nat) : slice l a a = [] := by simp [slice]

theorem slice_append_slice {a b c : Nat} (hab : a ≤ b) (hbc : b ≤ c) :
    slice l a b ++ slice l b c = slice l a c := by
  unfold slice
  rw [show c - a = (b - a) + (c - b) by omega, List.take_add, List.drop_drop, Nat.add_sub_cancel' hab]

@[simp] theorem length_slice (a b : Nat) : (slice l a b).length = min (b - a) (l.length - a) := by
  simp [slice]

@[simp] theorem slice_zero_length : slice l 0 l.length = l := by simp [slice]

theorem slice_of_length_le {a : Nat} (b : Nat) (h : l.length ≤ a) : slice l a b = [] := by
  simp [slice, List.drop_eq_nil_of_le h]

theorem slice_succ {a : Nat} (d : α) (h : a < l.length) : slice l a (a + 1) = [l.getD a d] := by
  simp [slice, List.take_one, List.head?_drop, List.getElem?_eq_getElem h]

/-- A list built index by index from `range` is a `map` over `l` when each index's entry is
the image of `l`'s element there. -/
theorem map_range_eq_map {α β : Type} {l : List α} {F : Nat → β} {G : α → β} (d : α) {n : Nat}
    (hn : n = l.length) (h : ∀ i < n, F i = G (l.getD i d)) : (List.range n).map F = l.map G := by
  subst hn
  apply List.ext_getElem (by simp)
  intro i h1 h2
  simp only [List.getElem_map, List.getElem_range]
  rw [h i (by simpa using h1), List.getD_eq_getElem _ _ (by simpa using h2)]

end Slice


section Cursor
variable {α : Type} {l l₁ l₂ : List α} {n : Nat}

/-- The element under a cursor is the head of what the cursor still has to read. -/
theorem getD_of_cons_prefix_drop {a : α} (d : α) (h : a :: l₁ <+: l.drop n) :
    n < l.length ∧ l.getD n d = a := by
  obtain ⟨t, ht⟩ := h
  have hlt : n < l.length := by
    have := congrArg List.length ht
    simp at this
    omega
  refine ⟨hlt, ?_⟩
  have := congrArg List.head? ht
  rw [List.head?_drop, List.head?_append, List.head?_cons] at this
  rw [List.getD_eq_getElem _ _ hlt]
  simp only [List.getElem?_eq_getElem hlt, Option.some_or, Option.some.injEq] at this
  exact this.symm

theorem prefix_drop_tail {a : α} (h : a :: l₁ <+: l.drop n) : l₁ <+: l.drop (n + 1) := by
  obtain ⟨t, ht⟩ := h
  refine ⟨t, ?_⟩
  rw [← List.drop_drop, ← ht]
  rfl

theorem prefix_drop_append_left (h : l₁ ++ l₂ <+: l.drop n) : l₁ <+: l.drop n :=
  (List.prefix_append l₁ l₂).trans h

theorem prefix_drop_append_right (h : l₁ ++ l₂ <+: l.drop n) : l₂ <+: l.drop (n + l₁.length) := by
  obtain ⟨t, ht⟩ := h
  refine ⟨t, ?_⟩
  rw [← List.drop_drop, ← ht, List.append_assoc, List.drop_left]

end Cursor

theorem foldl_or_eq_any {α : Type} (g : α → Bool) : ∀ (l : List α) (b : Bool),
    l.foldl (fun acc x => acc || g x) b = (b || l.any g)
  | [], b => by simp
  | x :: l, b => by simp [foldl_or_eq_any g l, Bool.or_assoc]

theorem getD_modify {α : Type} (f : α → α) (l : List α) (q i : Nat) (d : α) :
    (l.modify q f).getD i d = if q = i ∧ i < l.length then f (l.getD i d) else l.getD i d := by
  simp only [List.getD_eq_getElem?_getD, List.getElem?_modify]
  by_cases hi : i < l.length
  · rw [List.getElem?_eq_getElem hi]
    by_cases hqi : q = i <;> simp [hqi, hi]
  · rw [List.getElem?_eq_none (by omega)]
    simp [hi]

end BlackcoinMore.ByteCodec
