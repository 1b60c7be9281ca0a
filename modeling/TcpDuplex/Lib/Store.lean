import TcpDuplex.Lib.Bytes

/-!
# Random-access byte stores

A `Store` holds a byte at every offset. `read` and `write` are the two operations of a random-access
file; `damage` is what a write that failed half-way may leave behind: arbitrary bytes inside the range
it was asked to write, and nothing outside it.
-/

/-- A byte at every offset. -/
abbrev Store := ℤ → UInt8

namespace Store

variable {σ τ : Store} {off off' : ℤ} {n m : ℕ} {data : Bytes}

/-- The `n` bytes from offset `off` on. -/
def read (σ : Store) (off : ℤ) (n : ℕ) : Bytes := (List.range n).map fun j : ℕ => σ (off + (j : ℤ))

/-- `data` stored from offset `off` on. -/
def write (σ : Store) (off : ℤ) (data : Bytes) : Store := fun i =>
  if off ≤ i ∧ i < off + data.length then (data[(i - off).toNat]?).getD 0 else σ i

/-- Arbitrary bytes in the `n` places from offset `off` on. -/
def damage (σ : Store) (off : ℤ) (n : ℕ) (junk : Store) : Store := fun i =>
  if off ≤ i ∧ i < off + n then junk i else σ i

@[simp]
theorem length_read (σ : Store) (off : ℤ) (n : ℕ) : (σ.read off n).length = n := by
  simp [read]

/-- Two reads that meet are one read. -/
theorem read_add (σ : Store) (off : ℤ) (m n : ℕ) :
    σ.read off (m + n) = σ.read off m ++ σ.read (off + m) n := by
  simp only [read, List.range_add, List.map_append, List.map_map]
  congr 1
  refine List.map_congr_left fun j _ => ?_
  simp only [Function.comp_apply, Nat.cast_add]
  congr 1
  omega

theorem read_congr (h : ∀ i, off ≤ i → i < off + n → σ i = τ i) : σ.read off n = τ.read off n := by
  refine List.map_congr_left fun j hj => ?_
  have hj' := List.mem_range.mp hj
  exact h _ (by omega) (by omega)

/-- A shorter read is a prefix of a longer one. -/
theorem take_read (σ : Store) (off : ℤ) (h : m ≤ n) : (σ.read off n).take m = σ.read off m := by
  obtain ⟨k, rfl⟩ := Nat.exists_eq_add_of_le h
  rw [read_add, List.take_left' (length_read σ off m)]

/-- Writing nothing. -/
@[simp]
theorem write_nil (σ : Store) (off : ℤ) : σ.write off [] = σ := by
  funext i
  rw [write, List.length_nil, if_neg (by omega)]

/-- A write leaves what lies below it. -/
theorem read_write_below (h : off' + n ≤ off) : (σ.write off data).read off' n = σ.read off' n := by
  refine read_congr fun i _ hi => ?_
  rw [write, if_neg (by omega)]

/-- Reading back what was written. -/
theorem read_write_self : (σ.write off data).read off data.length = data := by
  refine List.ext_getElem (length_read _ _ _) fun j hj hj' => ?_
  have hrange : off ≤ off + (j : ℤ) ∧ off + (j : ℤ) < off + data.length := by omega
  have hidx : (off + (j : ℤ) - off).toNat = j := by omega
  simp only [read, List.getElem_map, List.getElem_range, write, hrange, and_self, if_true, hidx,
    List.getElem?_eq_getElem hj', Option.getD_some]

/-- What lies below, then what was written. -/
theorem read_write_append (h : off = off' + n) :
    (σ.write off data).read off' (n + data.length) = σ.read off' n ++ data := by
  rw [read_add, read_write_below (by omega), ← h, read_write_self]

/-! ## Agreement below a point -/

/-- The two stores hold the same bytes below `n`. -/
def Agree (σ τ : Store) (n : ℤ) : Prop := ∀ i, 0 ≤ i → i < n → σ i = τ i

theorem agree_zero (σ τ : Store) : Agree σ τ 0 := fun _ h0 hlt => absurd hlt (not_lt.mpr h0)

theorem Agree.mono {n n' : ℤ} (h : Agree σ τ n) (hle : n' ≤ n) : Agree σ τ n' :=
  fun i h0 hlt => h i h0 (lt_of_lt_of_le hlt hle)

theorem Agree.read_eq {n : ℤ} (h : Agree σ τ n) : σ.read 0 n.toNat = τ.read 0 n.toNat :=
  read_congr fun i h0 hlt => h i h0 (by omega)

/-- Copying the next bytes extends the agreement. -/
theorem Agree.write {n : ℤ} (h : Agree σ τ n) (hdata : data = τ.read n data.length) :
    Agree (σ.write n data) τ (n + data.length) := by
  intro i h0 hlt
  unfold Store.write
  split
  · rename_i hin
    have hidx : (i - n).toNat < data.length := by omega
    have hget : data[(i - n).toNat]? = some (τ (n + ((i - n).toNat : ℤ))) := by
      rw [hdata, read, List.getElem?_map, List.getElem?_range hidx]
      rfl
    have hi : n + ((i - n).toNat : ℤ) = i := by omega
    rw [hget, hi, Option.getD_some]
  · exact h i h0 (by omega)

/-- A failed write behind the point leaves the agreement. -/
theorem Agree.damage {n : ℤ} {junk : Store} (h : Agree σ τ n) (hle : n ≤ off) :
    Agree (σ.damage off m junk) τ n := by
  intro i h0 hlt
  rw [Store.damage, if_neg (by omega)]
  exact h i h0 hlt

end Store
