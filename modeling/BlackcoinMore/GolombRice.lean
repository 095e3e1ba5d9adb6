import BlackcoinMore.BitList
import BlackcoinMore.Primitives

/-! `BitStreamWriter` and `BitStreamReader` of `streams.h`, and `GolombRiceEncode` and
`GolombRiceDecode` of `util/golombrice.h`. The state is the source's: the bytes written (or
still to read), a buffered byte and the offset into it. Each state is read as the bits it
holds, most significant first (`toBits`), and `Write`, `Read` and the two codes are proved to
append, or take off, the bits they should. A loop that the source runs until a count reaches
zero takes that count as fuel. `nbits` is an `int` in the source; no caller passes a negative
one, and the model takes a `Nat`. -/

namespace BlackcoinMore.GolombRice
open Primitives BitList

structure BitStreamWriter where
  m_ostream : Bytes
  m_buffer : UInt8
  m_offset : Nat
  deriving DecidableEq, Repr

namespace BitStreamWriter

/-- `BitStreamWriter(ostream)`: nothing buffered. -/
def make (ostream : Bytes) : BitStreamWriter := ⟨ostream, 0, 0⟩

/-- `Flush()`: the buffered bits go out, padded with zeros to a byte. -/
def flush (w : BitStreamWriter) : BitStreamWriter :=
  if w.m_offset = 0 then w else ⟨w.m_ostream ++ [w.m_buffer], 0, 0⟩

/-- The loop of `Write(data, nbits)`, for at most `fuel` rounds: each round moves the next
`min(8 - m_offset, nbits)` bits of the field into the buffer. -/
def writeLoop (data : UInt64) : Nat → Nat → BitStreamWriter → BitStreamWriter
  | 0, _, w => w
  | fuel + 1, nbits, w =>
    if nbits > 0 then
      let bits := min (8 - w.m_offset) nbits
      let w := { w with
        m_buffer := w.m_buffer ||| ((data <<< (64 - nbits).toUInt64) >>> (64 - 8 + w.m_offset).toUInt64).toUInt8
        m_offset := w.m_offset + bits }
      writeLoop data fuel (nbits - bits) (if w.m_offset = 8 then w.flush else w)
    else w

/-- `Write(data, nbits)`: the `nbits` least significant bits of `data`. -/
def write (w : BitStreamWriter) (data : UInt64) (nbits : Nat) : Except String BitStreamWriter :=
  if nbits > 64 then .error "nbits must be between 0 and 64" else .ok (writeLoop data nbits nbits w)

/-- The bits written so far: the output bytes, then the first `m_offset` bits of the buffer. -/
def toBits (w : BitStreamWriter) : List Bool :=
  bytesBits w.m_ostream ++ (bitsBE 8 w.m_buffer.toNat).take w.m_offset

/-- The buffer holds fewer than eight bits, with zeros below them. -/
structure Valid (w : BitStreamWriter) : Prop where
  offset_lt : w.m_offset < 8
  low_zero : w.m_buffer.toNat % 2 ^ (8 - w.m_offset) = 0

theorem valid_make (ostream : Bytes) : (make ostream).Valid := ⟨show 0 < 8 by decide, rfl⟩

@[simp] theorem toBits_make (ostream : Bytes) : (make ostream).toBits = bytesBits ostream := by
  simp [make, toBits]

/-- The eight bits of the buffer: the `m_offset` bits written, over the rest. -/
theorem bitsBE_buffer (w : BitStreamWriter) (h : w.Valid) :
    bitsBE 8 w.m_buffer.toNat =
      bitsBE w.m_offset (w.m_buffer.toNat / 2 ^ (8 - w.m_offset)) ++ bitsBE (8 - w.m_offset) w.m_buffer.toNat := by
  rw [← bitsBE_add, Nat.add_sub_cancel' h.offset_lt.le]

theorem toBits_eq (w : BitStreamWriter) (h : w.Valid) :
    w.toBits = bytesBits w.m_ostream ++ bitsBE w.m_offset (w.m_buffer.toNat / 2 ^ (8 - w.m_offset)) := by
  rw [toBits, bitsBE_buffer w h, List.take_left' (length_bitsBE _ _)]

/-- The byte that one round ORs into the buffer: the next `bits` bits of the field, placed
below the `m_offset` bits already there. -/
theorem chunk_toNat (data : UInt64) {nbits o : Nat} (hn : 0 < nbits) (h64 : nbits ≤ 64) (ho : o < 8) :
    (((data <<< (64 - nbits).toUInt64) >>> (64 - 8 + o).toUInt64).toUInt8).toNat =
      data.toNat % 2 ^ nbits / 2 ^ (nbits - min (8 - o) nbits) * 2 ^ (8 - o - min (8 - o) nbits) := by
  have hs : (64 - nbits).toUInt64.toNat % 64 = 64 - nbits := by simp; omega
  have ht : (64 - 8 + o).toUInt64.toNat % 64 = 56 + o := by simp; omega
  have hfield : data.toNat * 2 ^ (64 - nbits) % 2 ^ 64 = data.toNat % 2 ^ nbits * 2 ^ (64 - nbits) := by
    rw [show (2 : Nat) ^ 64 = 2 ^ nbits * 2 ^ (64 - nbits) by rw [← pow_add]; congr 1; omega,
      Nat.mul_mod_mul_right]
  have hv : data.toNat % 2 ^ nbits < 2 ^ nbits := Nat.mod_lt _ (Nat.two_pow_pos _)
  rw [UInt64.toNat_toUInt8, UInt64.toNat_shiftRight, UInt64.toNat_shiftLeft, hs, ht, Nat.shiftLeft_eq,
    Nat.shiftRight_eq_div_pow, hfield]
  by_cases hfit : nbits ≤ 8 - o
  · -- the whole field fits: it lands above `8 - o - nbits` zeros
    rw [min_eq_right hfit, Nat.sub_self, pow_zero, Nat.div_one,
      show 64 - nbits = (8 - o - nbits) + (56 + o) by omega, pow_add, ← mul_assoc,
      Nat.mul_div_cancel _ (Nat.two_pow_pos _)]
    apply Nat.mod_eq_of_lt
    calc data.toNat % 2 ^ nbits * 2 ^ (8 - o - nbits) < 2 ^ nbits * 2 ^ (8 - o - nbits) :=
          Nat.mul_lt_mul_of_pos_right hv (Nat.two_pow_pos _)
      _ = 2 ^ (8 - o) := by rw [← pow_add]; congr 1; omega
      _ ≤ 2 ^ 8 := Nat.pow_le_pow_right (by decide) (by omega)
  · -- only the top `8 - o` bits of the field fit
    rw [min_eq_left (by omega), Nat.sub_self, pow_zero, mul_one,
      show 56 + o = (64 - nbits) + (nbits - (8 - o)) by omega, pow_add, Nat.mul_comm _ (2 ^ (64 - nbits)),
      Nat.mul_div_mul_left _ _ (Nat.two_pow_pos _)]
    apply Nat.mod_eq_of_lt
    calc data.toNat % 2 ^ nbits / 2 ^ (nbits - (8 - o)) < 2 ^ (8 - o) := by
          apply Nat.div_lt_of_lt_mul
          rw [← pow_add, show nbits - (8 - o) + (8 - o) = nbits by omega]
          exact hv
      _ ≤ 2 ^ 8 := Nat.pow_le_pow_right (by decide) (by omega)

/-- One round of `Write`: the top `bits` bits of the field are written, and the buffer is
flushed when it is full. -/
theorem writeRound (data : UInt64) {nbits : Nat} {w : BitStreamWriter} (h : w.Valid) (hn : 0 < nbits)
    (h64 : nbits ≤ 64) :
    let w' : BitStreamWriter := { w with
      m_buffer := w.m_buffer ||| ((data <<< (64 - nbits).toUInt64) >>> (64 - 8 + w.m_offset).toUInt64).toUInt8
      m_offset := w.m_offset + min (8 - w.m_offset) nbits }
    (if w'.m_offset = 8 then w'.flush else w').Valid ∧
      (if w'.m_offset = 8 then w'.flush else w').toBits = w.toBits ++
        bitsBE (min (8 - w.m_offset) nbits) (data.toNat % 2 ^ nbits / 2 ^ (nbits - min (8 - w.m_offset) nbits)) := by
  intro w'
  have ho := h.offset_lt
  set bits := min (8 - w.m_offset) nbits with hbits
  set F := data.toNat % 2 ^ nbits / 2 ^ (nbits - bits)
  set B := w.m_buffer.toNat / 2 ^ (8 - w.m_offset)
  have hoff : w'.m_offset = w.m_offset + bits := rfl
  have hF : F < 2 ^ bits := by
    apply Nat.div_lt_of_lt_mul
    rw [← pow_add, show nbits - bits + bits = nbits by omega]
    exact Nat.mod_lt _ (Nat.two_pow_pos _)
  have hX : 2 ^ (8 - w.m_offset - bits) * F < 2 ^ (8 - w.m_offset) := by
    calc 2 ^ (8 - w.m_offset - bits) * F < 2 ^ (8 - w.m_offset - bits) * 2 ^ bits :=
          Nat.mul_lt_mul_of_pos_left hF (Nat.two_pow_pos _)
      _ = 2 ^ (8 - w.m_offset) := by rw [← pow_add]; congr 1; omega
  have hB : w.m_buffer.toNat = 2 ^ (8 - w.m_offset) * B := by
    have hsplit := Nat.div_add_mod w.m_buffer.toNat (2 ^ (8 - w.m_offset))
    rw [h.low_zero, Nat.add_zero] at hsplit
    exact hsplit.symm
  -- the new buffer: the old bits, the chunk below them, zeros below that
  have hbuf : w'.m_buffer.toNat = 2 ^ (8 - w.m_offset) * B + 2 ^ (8 - w.m_offset - bits) * F := by
    have hchunk := chunk_toNat data hn h64 ho
    rw [← hbits] at hchunk
    change _ = F * 2 ^ (8 - w.m_offset - bits) at hchunk
    show (w.m_buffer ||| _).toNat = _
    rw [UInt8.toNat_or, hchunk, hB, Nat.mul_comm F, ← Nat.two_pow_add_eq_or_of_lt hX]
  have hbits8 : bitsBE 8 w'.m_buffer.toNat =
      bitsBE w.m_offset B ++ (bitsBE bits F ++ bitsBE (8 - w.m_offset - bits) 0) := by
    have h8 : bitsBE 8 = bitsBE (w.m_offset + (8 - w.m_offset)) := by rw [Nat.add_sub_cancel' ho.le]
    have hlow : bitsBE (8 - w.m_offset) = bitsBE (bits + (8 - w.m_offset - bits)) := by congr 1; omega
    rw [hbuf, h8, bitsBE_two_pow_mul_add hX, hlow, ← Nat.add_zero (2 ^ (8 - w.m_offset - bits) * F),
      bitsBE_two_pow_mul_add (Nat.two_pow_pos _)]
  have hold : w.toBits = bytesBits w.m_ostream ++ bitsBE w.m_offset B := toBits_eq w h
  by_cases hfull : w'.m_offset = 8
  · -- a full buffer goes out whole
    rw [if_pos hfull]
    have hflush : w'.flush = ⟨w.m_ostream ++ [w'.m_buffer], 0, 0⟩ := by
      rw [flush, if_neg (by omega)]
    have hzero : 8 - w.m_offset - bits = 0 := by omega
    refine ⟨by rw [hflush]; exact ⟨show 0 < 8 by decide, rfl⟩, ?_⟩
    rw [hflush, toBits, hold]
    simp only [bytesBits_append, bytesBits_cons, bytesBits_nil, List.append_nil, List.take_zero,
      List.append_assoc, hbits8, hzero, bitsBE_zero_left]
  · rw [if_neg hfull]
    have hlt : w.m_offset + bits < 8 := by omega
    refine ⟨⟨hlt, ?_⟩, ?_⟩
    · show w'.m_buffer.toNat % 2 ^ (8 - (w.m_offset + bits)) = 0
      rw [hbuf, show 8 - w.m_offset = (8 - (w.m_offset + bits)) + bits by omega, pow_add,
        show 8 - (w.m_offset + bits) + bits - bits = 8 - (w.m_offset + bits) by omega]
      simp [Nat.mul_assoc, Nat.add_mod]
    · show bytesBits w.m_ostream ++ (bitsBE 8 w'.m_buffer.toNat).take (w.m_offset + bits) = _
      rw [hbits8, hold, ← List.append_assoc (bitsBE w.m_offset B), List.take_left' (by simp), List.append_assoc]

/-- The loop of `Write` writes the whole field. Each round takes at least one bit, because the
buffer always has room for one, so `nbits` rounds are enough. -/
theorem writeLoop_bits (data : UInt64) : ∀ (fuel nbits : Nat) (w : BitStreamWriter), w.Valid → nbits ≤ fuel →
    nbits ≤ 64 → (writeLoop data fuel nbits w).Valid ∧
      (writeLoop data fuel nbits w).toBits = w.toBits ++ bitsBE nbits data.toNat
  | 0, nbits, w, h, hfuel, _ => by
    obtain rfl : nbits = 0 := by omega
    exact ⟨h, by simp [writeLoop]⟩
  | fuel + 1, nbits, w, h, hfuel, h64 => by
    have ho := h.offset_lt
    rw [writeLoop]
    split_ifs with hn
    · have hround := writeRound data h hn h64
      dsimp only at hround
      obtain ⟨hv, hbits⟩ := hround
      have hmin : min (8 - w.m_offset) nbits ≤ nbits := min_le_right _ _
      have hrest : nbits - min (8 - w.m_offset) nbits ≤ fuel := by omega
      obtain ⟨hv', hbits'⟩ := writeLoop_bits data fuel _ _ hv hrest (by omega)
      refine ⟨hv', ?_⟩
      rw [hbits', hbits, List.append_assoc, bitsBE_split_top (n := nbits) data.toNat hmin]
    · obtain rfl : nbits = 0 := by omega
      exact ⟨h, by simp⟩

theorem write_bits {w : BitStreamWriter} (h : w.Valid) (data : UInt64) {nbits : Nat} (h64 : nbits ≤ 64) :
    ∃ w', w.write data nbits = .ok w' ∧ w'.Valid ∧ w'.toBits = w.toBits ++ bitsBE nbits data.toNat :=
  ⟨_, by rw [write, if_neg (by omega)], writeLoop_data_bits⟩
where
  writeLoop_data_bits := writeLoop_bits data nbits nbits w h le_rfl h64

/-- `Flush()` pads the bits written with zeros to a whole byte. -/
theorem flush_bits {w : BitStreamWriter} (h : w.Valid) :
    w.flush.Valid ∧ w.flush.m_offset = 0 ∧ w.flush.toBits = w.toBits ++ List.replicate ((8 - w.m_offset) % 8) false := by
  have ho := h.offset_lt
  by_cases h0 : w.m_offset = 0
  · rw [flush, if_pos h0]
    exact ⟨h, h0, by simp [h0]⟩
  · rw [flush, if_neg h0]
    refine ⟨⟨show 0 < 8 by decide, rfl⟩, rfl, ?_⟩
    -- the bits below the offset are the zeros `Valid` keeps
    have hpad : bitsBE (8 - w.m_offset) w.m_buffer.toNat = List.replicate ((8 - w.m_offset) % 8) false := by
      rw [Nat.mod_eq_of_lt (by omega), ← bitsBE_zero, bitsBE_congr (z := 0) (by rw [h.low_zero, Nat.zero_mod])]
    rw [toBits_eq w h]
    simp only [toBits, bytesBits_append, bytesBits_cons, bytesBits_nil, List.append_nil, List.take_zero,
      bitsBE_buffer w h, hpad, List.append_assoc]

/-- The bytes out after `Flush()`: every bit written, then the padding. -/
theorem bytesBits_flush {w : BitStreamWriter} (h : w.Valid) :
    bytesBits w.flush.m_ostream = w.toBits ++ List.replicate ((8 - w.m_offset) % 8) false := by
  obtain ⟨_, hoff, hbits⟩ := flush_bits h
  rw [← hbits, toBits, hoff, List.take_zero, List.append_nil]

end BitStreamWriter

structure BitStreamReader where
  m_istream : Bytes
  m_buffer : UInt8
  m_offset : Nat
  deriving DecidableEq, Repr

namespace BitStreamReader

/-- `BitStreamReader(istream)`: the buffer is used up, so the first read takes a byte. -/
def make (istream : Bytes) : BitStreamReader := ⟨istream, 0, 8⟩

def endOfData : String := "SpanReader::read(): end of data"

/-- The top of each round of `Read`: once the buffered byte is used up, `m_istream >> m_buffer`
takes the next one. -/
def refill (r : BitStreamReader) : Except String BitStreamReader :=
  if r.m_offset = 8 then
    match r.m_istream with
    | b :: rest => .ok ⟨rest, b, 0⟩
    | [] => .error endOfData
  else .ok r

/-- The loop of `Read(nbits)`, for at most `fuel` rounds, accumulating into `data`. -/
def readLoop : Nat → Nat → UInt64 → BitStreamReader → Except String (UInt64 × BitStreamReader)
  | 0, _, data, r => .ok (data, r)
  | fuel + 1, nbits, data, r =>
    if nbits > 0 then do
      let r ← refill r
      let bits := min (8 - r.m_offset) nbits
      readLoop fuel (nbits - bits)
        ((data <<< bits.toUInt64) ||| ((r.m_buffer <<< r.m_offset.toUInt8) >>> (8 - bits).toUInt8).toUInt64)
        { r with m_offset := r.m_offset + bits }
    else pure (data, r)

/-- `Read(nbits)`: the next `nbits` bits, in the low bits of the result. -/
def read (r : BitStreamReader) (nbits : Nat) : Except String (UInt64 × BitStreamReader) :=
  if nbits > 64 then throw "nbits must be between 0 and 64" else readLoop nbits nbits 0 r

/-- The bits still to read: the rest of the buffer, then the stream. -/
def toBits (r : BitStreamReader) : List Bool := (bitsBE 8 r.m_buffer.toNat).drop r.m_offset ++ bytesBits r.m_istream

structure Valid (r : BitStreamReader) : Prop where
  offset_le : r.m_offset ≤ 8

theorem valid_make (istream : Bytes) : (make istream).Valid := ⟨le_rfl⟩

@[simp] theorem toBits_make (istream : Bytes) : (make istream).toBits = bytesBits istream := by
  simp [make, toBits]

@[simp] theorem length_toBits (r : BitStreamReader) : r.toBits.length = 8 - r.m_offset + 8 * r.m_istream.length := by
  simp [toBits]

/-- The refill at the top of a round leaves the bits to read as they were. -/
theorem refill_bits {r : BitStreamReader} (h : r.Valid) (hne : r.toBits ≠ []) :
    ∃ r₁, r.refill = .ok r₁ ∧ r₁.m_offset < 8 ∧ r₁.toBits = r.toBits := by
  by_cases h8 : r.m_offset = 8
  · rw [refill, if_pos h8]
    cases hs : r.m_istream with
    | nil =>
      exact absurd (by simp [toBits, h8, hs]) hne
    | cons b rest =>
      refine ⟨⟨rest, b, 0⟩, rfl, Nat.zero_lt_succ 7, ?_⟩
      simp [toBits, h8, hs]
  · rw [refill, if_neg h8]
    exact ⟨r, rfl, by have := h.offset_le; omega, rfl⟩

/-- The bits that one round reads from the buffer at offset `o`. -/
theorem chunk_read_toNat (buffer : UInt8) {o bits : Nat} (ho : o < 8) (hb : 0 < bits) (hbo : bits ≤ 8 - o) :
    ((buffer <<< o.toUInt8) >>> (8 - bits).toUInt8).toNat = buffer.toNat % 2 ^ (8 - o) / 2 ^ (8 - o - bits) := by
  have hs : o.toUInt8.toNat % 8 = o := by simp; omega
  have ht : (8 - bits).toUInt8.toNat % 8 = 8 - bits := by simp; omega
  rw [UInt8.toNat_shiftRight, UInt8.toNat_shiftLeft, hs, ht, Nat.shiftLeft_eq, Nat.shiftRight_eq_div_pow,
    show (2 : Nat) ^ 8 = 2 ^ (8 - o) * 2 ^ o by rw [← pow_add]; congr 1; omega, Nat.mul_mod_mul_right,
    show 8 - bits = o + (8 - o - bits) by omega, pow_add, Nat.mul_comm _ (2 ^ o),
    Nat.mul_div_mul_left _ _ (Nat.two_pow_pos _)]

theorem take_toBits {r : BitStreamReader} (ho : r.m_offset < 8) {bits : Nat} (hbo : bits ≤ 8 - r.m_offset) :
    r.toBits.take bits = bitsBE bits (r.m_buffer.toNat % 2 ^ (8 - r.m_offset) / 2 ^ (8 - r.m_offset - bits)) := by
  have hdrop : (bitsBE 8 r.m_buffer.toNat).drop r.m_offset = bitsBE (8 - r.m_offset) r.m_buffer.toNat := by
    rw [show bitsBE 8 = bitsBE (r.m_offset + (8 - r.m_offset)) by rw [Nat.add_sub_cancel' ho.le], bitsBE_add,
      List.drop_left' (length_bitsBE _ _)]
  rw [toBits, hdrop, bitsBE_split_top (b := bits) _ hbo, List.append_assoc, List.take_left' (length_bitsBE _ _)]

/-- One round of `Read` after the refill: the next `bits` bits join `data` at the bottom. -/
theorem readRound {r : BitStreamReader} (ho : r.m_offset < 8) {nbits : Nat} (hn : 0 < nbits) (D : List Bool)
    (h64 : D.length + nbits ≤ 64) :
    ((ofBitsBE D).toUInt64 <<< (min (8 - r.m_offset) nbits).toUInt64) |||
        ((r.m_buffer <<< r.m_offset.toUInt8) >>> (8 - min (8 - r.m_offset) nbits).toUInt8).toUInt64 =
      (ofBitsBE (D ++ r.toBits.take (min (8 - r.m_offset) nbits))).toUInt64 ∧
      ({ r with m_offset := r.m_offset + min (8 - r.m_offset) nbits } : BitStreamReader).toBits =
        r.toBits.drop (min (8 - r.m_offset) nbits) := by
  set bits := min (8 - r.m_offset) nbits
  have hbo : bits ≤ 8 - r.m_offset := min_le_left _ _
  have hb : 0 < bits := by omega
  set Y := r.m_buffer.toNat % 2 ^ (8 - r.m_offset) / 2 ^ (8 - r.m_offset - bits)
  have hY : Y < 2 ^ bits := by
    apply Nat.div_lt_of_lt_mul
    rw [← pow_add, show 8 - r.m_offset - bits + bits = 8 - r.m_offset by omega]
    exact Nat.mod_lt _ (Nat.two_pow_pos _)
  have hD : ofBitsBE D < 2 ^ D.length := ofBitsBE_lt D
  have hDb : ofBitsBE D * 2 ^ bits < 2 ^ 64 := by
    calc ofBitsBE D * 2 ^ bits < 2 ^ D.length * 2 ^ bits := Nat.mul_lt_mul_of_pos_right hD (Nat.two_pow_pos _)
      _ = 2 ^ (D.length + bits) := (pow_add _ _ _).symm
      _ ≤ 2 ^ 64 := Nat.pow_le_pow_right (by decide) (by omega)
  have htake := take_toBits ho hbo
  refine ⟨?_, ?_⟩
  · apply UInt64.toNat_inj.mp
    have hbits64 : bits.toUInt64.toNat % 64 = bits := by simp; omega
    rw [UInt64.toNat_or, UInt64.toNat_shiftLeft, UInt8.toNat_toUInt64, chunk_read_toNat _ ho hb hbo, hbits64,
      Nat.toUInt64_eq, UInt64.toNat_ofNat', Nat.mod_eq_of_lt (hD.trans_le (Nat.pow_le_pow_right (by decide) (by omega))),
      Nat.shiftLeft_eq, Nat.mod_eq_of_lt hDb, Nat.mul_comm, ← Nat.two_pow_add_eq_or_of_lt hY, htake,
      ofBitsBE_append, length_bitsBE, ofBitsBE_bitsBE, Nat.mod_eq_of_lt hY, Nat.toUInt64_eq, UInt64.toNat_ofNat',
      Nat.mul_comm]
    refine (Nat.mod_eq_of_lt ?_).symm
    calc ofBitsBE D * 2 ^ bits + Y < ofBitsBE D * 2 ^ bits + 2 ^ bits := by omega
      _ = (ofBitsBE D + 1) * 2 ^ bits := by ring
      _ ≤ 2 ^ D.length * 2 ^ bits := Nat.mul_le_mul_right _ hD
      _ = 2 ^ (D.length + bits) := (pow_add _ _ _).symm
      _ ≤ 2 ^ 64 := Nat.pow_le_pow_right (by decide) (by omega)
  · have hdrop : ∀ k, k ≤ 8 - r.m_offset →
        (bitsBE 8 r.m_buffer.toNat).drop (r.m_offset + k) = ((bitsBE 8 r.m_buffer.toNat).drop r.m_offset).drop k := by
      intro k _
      rw [List.drop_drop, Nat.add_comm]
    simp only [toBits]
    rw [hdrop bits hbo, List.drop_append_of_le_length (by simp; omega)]

/-- The loop of `Read` takes the next `n` bits off the stream and appends them to `data`, here
the number spelt by `D`. Each round takes at least one bit, so `n` rounds are enough. -/
theorem readLoop_bits : ∀ (fuel n : Nat) (D : List Bool) (r : BitStreamReader), r.Valid → n ≤ fuel →
    D.length + n ≤ 64 → n ≤ r.toBits.length →
    ∃ r', readLoop fuel n (ofBitsBE D).toUInt64 r = .ok ((ofBitsBE (D ++ r.toBits.take n)).toUInt64, r') ∧
      r'.Valid ∧ r'.toBits = r.toBits.drop n
  | 0, n, D, r, h, hfuel, _, _ => by
    obtain rfl : n = 0 := by omega
    exact ⟨r, by simp [readLoop], h, by simp⟩
  | fuel + 1, n, D, r, h, hfuel, h64, hlen => by
    by_cases hn : 0 < n
    · have hne : r.toBits ≠ [] := fun he => by rw [he, List.length_nil] at hlen; omega
      obtain ⟨r₁, hr₁, ho₁, hbits₁⟩ := refill_bits h hne
      obtain ⟨hdata, hdrop⟩ := readRound ho₁ hn D h64
      set bits := min (8 - r₁.m_offset) n with hbits_def
      have hbn : bits ≤ n := min_le_right _ _
      have hb : 0 < bits := by omega
      have htake : (r₁.toBits.take bits).length = bits := by rw [List.length_take, hbits₁]; omega
      -- the rest of the field, from the next round on
      obtain ⟨r', hrun, hv', hbits'⟩ := readLoop_bits fuel (n - bits) (D ++ r₁.toBits.take bits)
        { r₁ with m_offset := r₁.m_offset + bits } ⟨by dsimp only; omega⟩ (by omega)
        (by rw [List.length_append, htake]; omega)
        (by rw [hdrop, List.length_drop, hbits₁]; omega)
      refine ⟨r', ?_, hv', ?_⟩
      · rw [readLoop, if_pos hn, hr₁]
        simp only [bind, Except.bind]
        rw [← hbits_def, hdata, hrun, hdrop, List.append_assoc, ← List.take_add, hbits₁,
          Nat.add_sub_cancel' hbn]
      · rw [hbits', hdrop, List.drop_drop, hbits₁, Nat.add_sub_cancel' hbn]
    · obtain rfl : n = 0 := by omega
      exact ⟨r, by rw [readLoop, if_neg hn, List.take_zero, List.append_nil]; rfl, h, by simp⟩

theorem read_bits {r : BitStreamReader} (h : r.Valid) {n : Nat} (h64 : n ≤ 64) (hlen : n ≤ r.toBits.length) :
    ∃ r', r.read n = .ok ((ofBitsBE (r.toBits.take n)).toUInt64, r') ∧ r'.Valid ∧ r'.toBits = r.toBits.drop n := by
  obtain ⟨r', hrun, hv', hbits'⟩ := readLoop_bits n n [] r h le_rfl (by simpa using h64) hlen
  exact ⟨r', by rw [read, if_neg (by omega)]; exact hrun, hv', hbits'⟩

end BitStreamReader

section Rice

/-- The Golomb-Rice code of `x` with parameter `P`, as bits: the quotient `x / 2 ^ P` in
unary (that many ones, then a zero), then the low `P` bits of `x`. -/
def riceBits (P x : Nat) : List Bool := List.replicate (x / 2 ^ P) true ++ false :: bitsBE P x

/-- The unary loop of `GolombRiceEncode`: ones in chunks of at most 64 until `q` is used up.
Every round takes at least one off `q`, so `q` rounds are enough. -/
def writeUnary : Nat → UInt64 → BitStreamWriter → Except String BitStreamWriter
  | 0, _, w => .ok w
  | fuel + 1, q, w =>
    if q > 0 then do
      let nbits := if q ≤ 64 then q.toNat else 64
      let w ← w.write (~~~0) nbits
      writeUnary fuel (q - nbits.toUInt64) w
    else .ok w

def golombRiceEncode (w : BitStreamWriter) (P : UInt8) (x : UInt64) : Except String BitStreamWriter := do
  let q := x >>> P.toUInt64
  let w ← writeUnary q.toNat q w
  let w ← w.write 0 1
  w.write x P.toNat

/-- The unary loop of `GolombRiceDecode`: one bit at a time until a zero. Every round reads a
bit, so it stops, with the zero or at the end of the stream, within one round more than there
are bits left; that is the fuel `golombRiceDecode` gives it. -/
def readUnary : Nat → UInt64 → BitStreamReader → Except String (UInt64 × BitStreamReader)
  | 0, _, _ => .error BitStreamReader.endOfData
  | fuel + 1, q, r => do
    let (bit, r) ← r.read 1
    if bit = 1 then readUnary fuel (q + 1) r else pure (q, r)

def golombRiceDecode (r : BitStreamReader) (P : UInt8) : Except String (UInt64 × BitStreamReader) := do
  let (q, r) ← readUnary (r.toBits.length + 1) 0 r
  let (rem, r) ← r.read P.toNat
  pure ((q <<< P.toUInt64) + rem, r)

theorem bitsBE_allOnes {n : Nat} (hn : n ≤ 64) : bitsBE n (~~~(0 : UInt64)).toNat = List.replicate n true := by
  have hones : (~~~(0 : UInt64)).toNat = 2 ^ 64 - 1 := rfl
  exact bitsBE_of_testBit fun i hi => by rw [hones, Nat.testBit_two_pow_sub_one]; simp; omega

theorem writeUnary_bits : ∀ (fuel : Nat) (q : UInt64) (w : BitStreamWriter), w.Valid → q.toNat ≤ fuel →
    ∃ w', writeUnary fuel q w = .ok w' ∧ w'.Valid ∧ w'.toBits = w.toBits ++ List.replicate q.toNat true
  | 0, q, w, h, hq => by
    have hq0 : q.toNat = 0 := by omega
    exact ⟨w, rfl, h, by simp [hq0]⟩
  | fuel + 1, q, w, h, hq => by
    by_cases hpos : q > 0
    · have hq1 : 0 < q.toNat := UInt64.lt_iff_toNat_lt.mp hpos
      set nbits := if q ≤ 64 then q.toNat else 64 with hnbits
      -- the chunk is all of `q`, or 64 of it
      have hchunk : nbits = min q.toNat 64 := by
        rw [hnbits]
        split_ifs with h64
        · have := UInt64.le_iff_toNat_le.mp h64; simp at this; omega
        · have := UInt64.le_iff_toNat_le.not.mp h64; simp at this; omega
      have hn64 : nbits ≤ 64 := by omega
      have hnq : nbits ≤ q.toNat := by omega
      obtain ⟨w₁, hw₁, hv₁, hbits₁⟩ := BitStreamWriter.write_bits h (~~~0) hn64
      have hsub : (q - nbits.toUInt64).toNat = q.toNat - nbits := by
        have hn : nbits.toUInt64.toNat = nbits := by simp; omega
        rw [UInt64.toNat_sub_of_le _ _ (UInt64.le_iff_toNat_le.mpr (by omega)), hn]
      obtain ⟨w', hrun, hv', hbits'⟩ := writeUnary_bits fuel (q - nbits.toUInt64) w₁ hv₁ (by omega)
      refine ⟨w', ?_, hv', ?_⟩
      · rw [writeUnary, if_pos hpos]
        simp only [bind, Except.bind]
        rw [← hnbits, hw₁]
        exact hrun
      · rw [hbits', hbits₁, hsub, List.append_assoc, bitsBE_allOnes hn64, ← List.replicate_add,
          Nat.add_sub_cancel' hnq]
    · have hq0 : q.toNat = 0 := by
        have := UInt64.lt_iff_toNat_lt.not.mp hpos; simp at this; omega
      exact ⟨w, by rw [writeUnary, if_neg hpos], h, by simp [hq0]⟩

/-- `GolombRiceEncode` appends the code of `x`. -/
theorem golombRiceEncode_bits {w : BitStreamWriter} (h : w.Valid) {P : UInt8} (hP : P.toNat < 64) (x : UInt64) :
    ∃ w', golombRiceEncode w P x = .ok w' ∧ w'.Valid ∧ w'.toBits = w.toBits ++ riceBits P.toNat x.toNat := by
  have hq : (x >>> P.toUInt64).toNat = x.toNat / 2 ^ P.toNat := by
    rw [UInt64.toNat_shiftRight, UInt8.toNat_toUInt64, Nat.mod_eq_of_lt hP, Nat.shiftRight_eq_div_pow]
  obtain ⟨w₁, hw₁, hv₁, hbits₁⟩ := writeUnary_bits _ (x >>> P.toUInt64) w h le_rfl
  obtain ⟨w₂, hw₂, hv₂, hbits₂⟩ := BitStreamWriter.write_bits hv₁ 0 (show 1 ≤ 64 by decide)
  obtain ⟨w₃, hw₃, hv₃, hbits₃⟩ := BitStreamWriter.write_bits hv₂ x hP.le
  refine ⟨w₃, ?_, hv₃, ?_⟩
  · simp only [golombRiceEncode, bind, Except.bind, hw₁, hw₂, hw₃]
  · rw [hbits₃, hbits₂, hbits₁, hq, riceBits]
    simp [bitsBE]

theorem readUnary_bits : ∀ (fuel k : Nat) (q : UInt64) (r : BitStreamReader) (rest : List Bool), r.Valid →
    k < fuel → q.toNat + k < 2 ^ 64 → r.toBits = List.replicate k true ++ false :: rest →
    ∃ r', readUnary fuel q r = .ok (q + k.toUInt64, r') ∧ r'.Valid ∧ r'.toBits = rest
  | 0, k, _, _, _, _, hk, _, _ => absurd hk (Nat.not_lt_zero k)
  | fuel + 1, k, q, r, rest, h, hk, hq, hbits => by
    have hlen : 1 ≤ r.toBits.length := by
      rw [hbits, List.length_append, List.length_replicate, List.length_cons]; omega
    obtain ⟨r₁, hr₁, hv₁, hbits₁⟩ := BitStreamReader.read_bits h (show 1 ≤ 64 by decide) hlen
    cases k with
    | zero =>
      -- the zero that ends the run
      rw [hbits] at hr₁ hbits₁
      refine ⟨r₁, ?_, hv₁, by simpa using hbits₁⟩
      have hbit : (ofBitsBE (List.take 1 (List.replicate 0 true ++ false :: rest))).toUInt64 = 0 := rfl
      rw [readUnary, hr₁]
      simp only [bind, Except.bind]
      rw [hbit, if_neg (by decide), show Nat.toUInt64 0 = 0 from rfl, UInt64.add_zero]
      rfl
    | succ k =>
      rw [hbits, List.replicate_succ, List.cons_append] at hr₁ hbits₁
      obtain ⟨r', hrun, hv', hbits'⟩ := readUnary_bits fuel k (q + 1) r₁ rest hv₁ (by omega)
        (by rw [UInt64.toNat_add]; simp; omega) (by simpa using hbits₁)
      refine ⟨r', ?_, hv', hbits'⟩
      have hbit : (ofBitsBE (List.take 1 (true :: (List.replicate k true ++ false :: rest)))).toUInt64 = 1 := rfl
      rw [readUnary, hr₁]
      simp only [bind, Except.bind]
      rw [hbit, if_pos rfl, hrun, UInt64.add_assoc]
      congr 2
      apply UInt64.toNat_inj.mp
      simp only [UInt64.toNat_add, Nat.toUInt64_eq, UInt64.toNat_ofNat', UInt64.toNat_one]
      omega

/-- The value `GolombRiceDecode` puts together from the quotient and the low bits. -/
theorem decode_value (x : UInt64) {P : UInt8} (hP : P.toNat < 64) :
    ((0 + (x.toNat / 2 ^ P.toNat).toUInt64) <<< P.toUInt64) + (x.toNat % 2 ^ P.toNat).toUInt64 = x := by
  have hx := x.toNat_lt
  set k := x.toNat / 2 ^ P.toNat with hk_def
  have hk : k * 2 ^ P.toNat ≤ x.toNat := Nat.div_mul_le_self _ _
  have hkx : k ≤ x.toNat := Nat.div_le_self _ _
  have hkn : (0 + k.toUInt64).toNat = k := by
    rw [UInt64.zero_add, Nat.toUInt64_eq, UInt64.toNat_ofNat', Nat.mod_eq_of_lt (by omega)]
  have hshift : ((0 + k.toUInt64) <<< P.toUInt64).toNat = k * 2 ^ P.toNat := by
    rw [UInt64.toNat_shiftLeft, hkn, UInt8.toNat_toUInt64, Nat.mod_eq_of_lt hP, Nat.shiftLeft_eq,
      Nat.mod_eq_of_lt (by omega)]
  have hrem : (x.toNat % 2 ^ P.toNat).toUInt64.toNat = x.toNat % 2 ^ P.toNat := by
    rw [Nat.toUInt64_eq, UInt64.toNat_ofNat', Nat.mod_eq_of_lt ((Nat.mod_le _ _).trans_lt hx)]
  apply UInt64.toNat_inj.mp
  rw [UInt64.toNat_add, hshift, hrem, hk_def, Nat.div_add_mod', Nat.mod_eq_of_lt hx]

/-- `GolombRiceDecode` takes the code of `x` off the stream and returns `x`. -/
theorem golombRiceDecode_bits {r : BitStreamReader} (h : r.Valid) {P : UInt8} (hP : P.toNat < 64) (x : UInt64)
    {rest : List Bool} (hbits : r.toBits = riceBits P.toNat x.toNat ++ rest) :
    ∃ r', golombRiceDecode r P = .ok (x, r') ∧ r'.Valid ∧ r'.toBits = rest := by
  have hx := x.toNat_lt
  have hk : x.toNat / 2 ^ P.toNat ≤ x.toNat := Nat.div_le_self _ _
  have hlen : r.toBits.length = x.toNat / 2 ^ P.toNat + 1 + P.toNat + rest.length := by
    rw [hbits, riceBits]; simp; omega
  obtain ⟨r₁, hr₁, hv₁, hbits₁⟩ := readUnary_bits (r.toBits.length + 1) (x.toNat / 2 ^ P.toNat) 0 r
    (bitsBE P.toNat x.toNat ++ rest) h (by omega) (by simp; omega) (by rw [hbits, riceBits]; simp)
  obtain ⟨r₂, hr₂, hv₂, hbits₂⟩ := BitStreamReader.read_bits hv₁ hP.le (by rw [hbits₁]; simp)
  rw [hbits₁, List.take_left' (length_bitsBE _ _), ofBitsBE_bitsBE] at hr₂
  rw [hbits₁, List.drop_left' (length_bitsBE _ _)] at hbits₂
  refine ⟨r₂, ?_, hv₂, hbits₂⟩
  simp only [golombRiceDecode, bind, Except.bind]
  rw [hr₁]
  dsimp only
  rw [hr₂]
  dsimp only
  rw [decode_value x hP]
  rfl

/-- A code written after any content and flushed is read back as the value written, by a
reader that has read that content; only the padding of the flush is left. -/
theorem golombRice_roundTrip {w : BitStreamWriter} (h : w.Valid) {P : UInt8} (hP : P.toNat < 64) (x : UInt64) :
    ∃ w', golombRiceEncode w P x = .ok w' ∧ ∀ r : BitStreamReader, r.Valid →
      r.toBits = (bytesBits w'.flush.m_ostream).drop w.toBits.length →
      ∃ r', golombRiceDecode r P = .ok (x, r') ∧ r'.toBits = List.replicate ((8 - w'.m_offset) % 8) false := by
  obtain ⟨w', hw', hv', hbits'⟩ := golombRiceEncode_bits h hP x
  refine ⟨w', hw', fun r hr hpos => ?_⟩
  rw [BitStreamWriter.bytesBits_flush hv', hbits', List.append_assoc, List.drop_left] at hpos
  obtain ⟨r', hr', -, hrest⟩ := golombRiceDecode_bits hr hP x hpos
  exact ⟨r', hr', hrest⟩

end Rice

end BlackcoinMore.GolombRice
