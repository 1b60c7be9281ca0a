import Mathlib.Data.List.Induction
import Mathlib.Data.Nat.ModEq
import Mathlib.Tactic.Positivity
import Mathlib.Tactic.Ring
import Mathlib.Tactic.Zify

/-!
# Byte strings and big-endian numerals

`putBe w v` writes the low `w` bytes of `v` most significant first, and `getBe` reads a byte string
as a base-256 numeral. The two invert each other on `w`-byte strings: `getBe_putBe` (up to the
truncation to `w` bytes) and `putBe_getBe`. A two's complement number of `w` bytes is written by
`putBeInt` and read by `getBeInt`.

`sub? b i n` is a bounds-checked slice: it fails if any of the `n` bytes from index `i` on lies
outside `b`. `Block n` is a byte string of exactly `n` bytes.
-/

/-- A byte string. -/
abbrev Bytes := List UInt8

namespace Bytes

/-- The low `w` bytes of `v`, most significant first. -/
def putBe : ℕ → ℕ → Bytes
  | 0, _ => []
  | w + 1, v => putBe w (v / 256) ++ [UInt8.ofNat v]

/-- A byte string read as a base-256 numeral, most significant byte first. -/
def getBe (b : Bytes) : ℕ :=
  b.foldl (fun v x => v * 256 + x.toNat) 0

@[simp]
theorem length_putBe (w v : ℕ) : (putBe w v).length = w := by
  induction w generalizing v with
  | zero => rfl
  | succ w ih => simp [putBe, ih]

@[simp]
theorem getBe_nil : getBe [] = 0 := rfl

theorem getBe_append_singleton (b : Bytes) (x : UInt8) :
    getBe (b ++ [x]) = getBe b * 256 + x.toNat := by
  simp [getBe]

theorem getBe_putBe (w v : ℕ) : getBe (putBe w v) = v % 256 ^ w := by
  induction w generalizing v with
  | zero => simp [putBe, Nat.mod_one]
  | succ w ih =>
      have hlow : (UInt8.ofNat v).toNat = v % 256 := by simp
      rw [putBe, getBe_append_singleton, ih, hlow, pow_succ', Nat.mod_mul]
      ring

/-- Within `w` bytes the numeral survives the round trip. -/
theorem getBe_putBe_of_lt {w v : ℕ} (h : v < 256 ^ w) : getBe (putBe w v) = v := by
  rw [getBe_putBe, Nat.mod_eq_of_lt h]

/-- Reading a byte string and writing it back at its own width gives the same bytes. -/
theorem putBe_getBe (b : Bytes) : putBe b.length (getBe b) = b := by
  induction b using List.reverseRecOn with
  | nil => rfl
  | append_singleton b x ih =>
      have hx : x.toNat < 256 := x.toNat_lt
      have hdiv : (getBe b * 256 + x.toNat) / 256 = getBe b := by omega
      have hbyte : UInt8.ofNat (getBe b * 256 + x.toNat) = x := by
        apply UInt8.toNat_inj.mp
        simp only [UInt8.toNat_ofNat']
        omega
      rw [List.length_append, List.length_singleton, putBe, getBe_append_singleton, hdiv, ih, hbyte]

theorem getBe_lt (b : Bytes) : getBe b < 256 ^ b.length := by
  have hround := getBe_putBe b.length (getBe b)
  rw [putBe_getBe] at hround
  rw [hround]
  exact Nat.mod_lt _ (by positivity)

theorem getBe_append (a b : Bytes) : getBe (a ++ b) = getBe a * 256 ^ b.length + getBe b := by
  induction b using List.reverseRecOn with
  | nil => simp
  | append_singleton b x ih =>
      rw [← List.append_assoc, getBe_append_singleton, ih, getBe_append_singleton,
        List.length_append, List.length_singleton, pow_succ]
      ring

/-! ## Signed numerals -/

/-- The `w` bytes of `v` in two's complement, most significant first. -/
def putBeInt (w : ℕ) (v : ℤ) : Bytes := putBe w (v % 256 ^ w).toNat

/-- A byte string read as a number in two's complement. -/
def getBeInt (b : Bytes) : ℤ := (getBe b : ℤ).bmod (256 ^ b.length)

@[simp]
theorem length_putBeInt (w : ℕ) (v : ℤ) : (putBeInt w v).length = w := length_putBe w _

/-- A number in the signed range of `w` bytes survives the round trip. -/
theorem getBeInt_putBeInt {w : ℕ} {v : ℤ} (hlo : -(256 ^ w : ℤ) ≤ 2 * v)
    (hhi : 2 * v < 256 ^ w) : getBeInt (putBeInt w v) = v := by
  have hpos : (0 : ℤ) < 256 ^ w := by positivity
  have hnonneg : 0 ≤ v % 256 ^ w := Int.emod_nonneg _ hpos.ne'
  have hlt : (v % 256 ^ w).toNat < 256 ^ w := by
    have := Int.emod_lt_of_pos v hpos
    zify
    rw [Int.toNat_of_nonneg hnonneg]
    exact this
  rw [getBeInt, length_putBeInt, putBeInt, getBe_putBe_of_lt hlt, Int.toNat_of_nonneg hnonneg]
  have hcast : (256 ^ w : ℤ) = ((256 ^ w : ℕ) : ℤ) := by norm_cast
  rw [hcast, Int.emod_bmod]
  exact Int.bmod_eq_of_le_mul_two (by push_cast; omega) (by push_cast; omega)

/-- Only the low `w` bytes of a number are written. -/
theorem putBe_mod (w v : ℕ) : putBe w (v % 256 ^ w) = putBe w v := by
  have hround := putBe_getBe (putBe w v)
  rwa [length_putBe, getBe_putBe] at hround

/-- Reading a byte string in two's complement and writing it back gives the same bytes. -/
theorem putBeInt_getBeInt (b : Bytes) : putBeInt b.length (getBeInt b) = b := by
  have hcast : (256 ^ b.length : ℤ) = ((256 ^ b.length : ℕ) : ℤ) := by norm_cast
  have hmod : getBeInt b % 256 ^ b.length = ((getBe b % 256 ^ b.length : ℕ) : ℤ) := by
    rw [getBeInt, hcast, Int.bmod_emod, Int.natCast_emod]
  rw [putBeInt, hmod, Int.toNat_natCast, putBe_mod, putBe_getBe]

/-- A number in two's complement lies in the signed range of its width. -/
theorem getBeInt_range (b : Bytes) :
    -(256 ^ b.length : ℤ) ≤ 2 * getBeInt b ∧ 2 * getBeInt b < 256 ^ b.length := by
  have hpos : 0 < 256 ^ b.length := by positivity
  have hle := Int.le_bmod (x := getBe b) hpos
  have hlt := Int.bmod_lt (x := getBe b) hpos
  rw [getBeInt]
  push_cast at hle hlt ⊢
  omega

/-- The top bit of a number in two's complement is its sign. -/
theorem getBeInt_neg_iff (x : UInt8) (b : Bytes) : getBeInt (x :: b) < 0 ↔ 128 ≤ x.toNat := by
  have hval : getBe (x :: b) = x.toNat * 256 ^ b.length + getBe b := by
    have happ := getBe_append [x] b
    simpa [getBe] using happ
  have hlt := getBe_lt b
  have hlt' := getBe_lt (x :: b)
  have hmod : (256 ^ (x :: b).length : ℕ) = 256 * 256 ^ b.length := by
    rw [List.length_cons, pow_succ, mul_comm]
  rw [hmod] at hlt'
  rw [getBeInt, hmod, Int.bmod_neg_iff (by omega) (by exact_mod_cast hlt'), hval]
  generalize 256 ^ b.length = m at *
  constructor
  · rintro (⟨-, h⟩ | h)
    · omega
    · by_contra hsmall
      have hle : x.toNat * m ≤ 127 * m := Nat.mul_le_mul_right m (by omega)
      push_cast at h
      omega
  · intro hbig
    have hle : 128 * m ≤ x.toNat * m := Nat.mul_le_mul_right m hbig
    push_cast
    omega

/-! ## Bounds-checked slices -/

/-- The `n` bytes from index `i` on, if they all lie inside `b`. -/
def sub? (b : Bytes) (i n : ℕ) : Option Bytes :=
  if i + n ≤ b.length then some ((b.drop i).take n) else none

theorem sub?_of_le {b : Bytes} {i n : ℕ} (h : i + n ≤ b.length) :
    sub? b i n = some ((b.drop i).take n) := if_pos h

theorem length_of_sub? {b x : Bytes} {i n : ℕ} (h : sub? b i n = some x) : x.length = n := by
  unfold sub? at h
  split at h
  · rename_i hle
    obtain rfl := Option.some_inj.mp h
    rw [List.length_take, List.length_drop]
    omega
  · cases h

/-- Reading behind a known front. -/
theorem sub?_append_right (a b : Bytes) (i n : ℕ) : sub? (a ++ b) (a.length + i) n = sub? b i n := by
  have hiff : a.length + i + n ≤ (a ++ b).length ↔ i + n ≤ b.length := by
    rw [List.length_append]
    omega
  simp only [sub?, hiff, List.drop_append, Nat.add_sub_cancel_left]
  rw [List.drop_eq_nil_of_le (by omega), List.nil_append]

/-- Reading a known front. -/
theorem sub?_append_left (a b : Bytes) : sub? (a ++ b) 0 a.length = some a := by
  rw [sub?_of_le (by simp), List.drop_zero, List.take_left]

end Bytes

/-- A byte string of exactly `n` bytes. -/
abbrev Block (n : ℕ) := { b : Bytes // b.length = n }

namespace Block

/-- `n` zero bytes. -/
def zero (n : ℕ) : Block n := ⟨List.replicate n 0, List.length_replicate⟩

/-- The block of `n` bytes at index `i`, if it lies inside `b`. -/
def at? (n : ℕ) (b : Bytes) (i : ℕ) : Option (Block n) :=
  match h : Bytes.sub? b i n with
  | some x => some ⟨x, Bytes.length_of_sub? h⟩
  | none => none

theorem at?_of_sub? {n : ℕ} {b : Bytes} {i : ℕ} {x : Block n} (h : Bytes.sub? b i n = some x.1) :
    at? n b i = some x := by
  unfold at?
  split
  · rename_i y hy
    rw [h] at hy
    exact congrArg some (Subtype.ext (Option.some_inj.mp hy).symm)
  · rename_i hn
    rw [h] at hn
    cases hn

end Block
