import TcpDuplex.Lib.Store

/-!
# Files behind a buffered stream

A stream keeps writes back and brings them to the file later: some of them with any operation, all of
them when it is closed. Bringing them there can fail, and then the stream refuses everything that
follows. `view` is the file as it would be with all pending writes done, which is what a stream that has
not failed shows to its user; `disk` is the file as it is.

A file has a length, a `Store` has none: `Store.ofBytes` forgets it, and reading the store gives the file
cut or filled with zeros to the length of the read (`read_ofBytes`).
-/

namespace Bytes

/-- The file cut to `n` bytes, or filled up with zeros. -/
def resize (l : Bytes) (n : ℕ) : Bytes := l.take n ++ List.replicate (n - l.length) 0

/-- The file behind a write of `data` at `off`; a gap before it is filled with zeros. -/
def writeAt (l : Bytes) (off : ℕ) (data : Bytes) : Bytes :=
  if data = [] then l else l.resize off ++ data ++ l.drop (off + data.length)

@[simp]
theorem length_resize (l : Bytes) (n : ℕ) : (l.resize n).length = n := by
  rw [resize, List.length_append, List.length_take, List.length_replicate]
  omega

theorem resize_zero (l : Bytes) : l.resize 0 = [] := by
  simp [resize]

theorem resize_self (l : Bytes) : l.resize l.length = l := by
  simp [resize]

theorem getElem?_resize (l : Bytes) {n i : ℕ} (h : i < n) :
    ((l.resize n)[i]?).getD 0 = (l[i]?).getD 0 := by
  rw [resize, List.getElem?_append, List.length_take, List.getElem?_replicate]
  split
  · rw [List.getElem?_take_of_lt h]
  · rename_i hlen
    have hnone : l[i]? = none := List.getElem?_eq_none (by omega)
    rw [hnone]
    split <;> rfl

/-- Writing back what the file holds. -/
theorem writeAt_self {l : Bytes} {off n : ℕ} (h : off + n ≤ l.length) :
    l.writeAt off ((l.drop off).take n) = l := by
  have hlen : ((l.drop off).take n).length = n := by
    rw [List.length_take, List.length_drop]
    omega
  have hresize : l.resize off = l.take off := by
    have hzero : off - l.length = 0 := by omega
    rw [resize, hzero, List.replicate_zero, List.append_nil]
  unfold writeAt
  split
  · rfl
  · rw [hlen, hresize, ← List.drop_drop, List.append_assoc, List.take_append_drop,
      List.take_append_drop]

/-- A write that begins inside the file or right behind it reaches the end of the data. -/
theorem le_length_writeAt {l : Bytes} {off : ℕ} (h : off ≤ l.length) (data : Bytes) :
    off + data.length ≤ (l.writeAt off data).length := by
  unfold writeAt
  split
  · rename_i hnil
    rwa [hnil]
  · rw [List.length_append, List.length_append, length_resize]
    omega

/-- **Copying in place.** A file that is a prefix of `c` stays one when a piece of `c` is written to its
own place, inside the file or right behind it. -/
theorem writeAt_prefix {l c : Bytes} (h : l <+: c) {off n : ℕ} (hoff : off ≤ l.length)
    (hin : off + n ≤ c.length) : l.writeAt off ((c.drop off).take n) <+: c := by
  obtain ⟨rest, rfl⟩ := h
  rw [List.length_append] at hin
  have hlen : (((l ++ rest).drop off).take n).length = n := by
    rw [List.length_take, List.length_drop, List.length_append]
    omega
  rw [List.drop_append_of_le_length hoff] at hlen ⊢
  by_cases hend : off + n ≤ l.length
  · -- the bytes are there already
    rw [List.take_append_of_le_length (by rw [List.length_drop]; omega), writeAt_self hend]
    exact List.prefix_append _ _
  · -- the write reaches the end of the file
    have hresize : l.resize off = l.take off := by
      rw [resize, Nat.sub_eq_zero_of_le hoff, List.replicate_zero, List.append_nil]
    have hdrop : l.drop (off + n) = [] := List.drop_eq_nil_of_le (by omega)
    have htake : (l.drop off).take n = l.drop off :=
      List.take_of_length_le (by rw [List.length_drop]; omega)
    unfold writeAt
    split
    · exact List.prefix_append _ _
    · rw [hlen, hresize, hdrop, List.append_nil, List.take_append, htake, ← List.append_assoc,
        List.take_append_drop]
      exact (List.prefix_append_right_inj l).mpr (List.take_prefix _ _)

end Bytes

namespace Store

/-- The bytes of a file, and zeros around them. -/
def ofBytes (l : Bytes) : Store := fun i => if 0 ≤ i then (l[i.toNat]?).getD 0 else 0

/-- Reading a file from its beginning. -/
theorem read_ofBytes (l : Bytes) (n : ℕ) : (ofBytes l).read 0 n = l.resize n := by
  apply List.ext_getElem
  · rw [length_read, Bytes.length_resize]
  · intro i hi hi'
    rw [length_read] at hi
    have hget := Bytes.getElem?_resize l hi
    rw [List.getElem?_eq_getElem hi', Option.getD_some] at hget
    rw [hget]
    simp [read, ofBytes]

/-- Reading inside a file. -/
theorem read_ofBytes_eq {l : Bytes} {off n : ℕ} (h : off + n ≤ l.length) :
    (ofBytes l).read off n = (l.drop off).take n := by
  have hwhole : (ofBytes l).read 0 (off + n) = l.take (off + n) := by
    rw [read_ofBytes, Bytes.resize, Nat.sub_eq_zero_of_le h, List.replicate_zero, List.append_nil]
  rw [read_add, read_ofBytes, Bytes.resize, Nat.sub_eq_zero_of_le (by omega : off ≤ l.length),
    List.replicate_zero, List.append_nil, Int.zero_add, List.take_add] at hwhole
  exact List.append_cancel_left hwhole

/-- Writing to a file is writing to its bytes. -/
theorem ofBytes_writeAt (l : Bytes) (off : ℕ) (data : Bytes) :
    ofBytes (l.writeAt off data) = (ofBytes l).write off data := by
  unfold Bytes.writeAt
  split
  · rename_i hnil
    rw [hnil, write_nil]
  · funext i
    by_cases hi : 0 ≤ i
    · obtain ⟨k, rfl⟩ := Int.eq_ofNat_of_zero_le hi
      rw [write, ofBytes, if_pos hi, Int.toNat_natCast, List.append_assoc, List.getElem?_append,
        Bytes.length_resize]
      by_cases hbelow : k < off
      · rw [if_pos hbelow, if_neg (by omega), Bytes.getElem?_resize l hbelow, ofBytes, if_pos hi,
          Int.toNat_natCast]
      · rw [if_neg hbelow, List.getElem?_append]
        by_cases hin : k - off < data.length
        · have hidx : ((k : ℤ) - off).toNat = k - off := by omega
          rw [if_pos hin, if_pos (by omega), hidx]
        · have hidx : off + data.length + (k - off - data.length) = k := by omega
          rw [if_neg hin, if_neg (by omega), List.getElem?_drop, hidx, ofBytes, if_pos hi,
            Int.toNat_natCast]
    · rw [write, if_neg (by omega), ofBytes, ofBytes, if_neg hi, if_neg hi]

end Store

/-- A file behind a buffered stream. -/
structure BufferedFile where
  disk : Bytes
  /-- The writes kept back, the oldest first. -/
  pending : List (ℕ × Bytes) := []
  failed : Bool := false

namespace BufferedFile

/-- What a stream does with its pending writes on the way: nothing, bring the first `k` to the file, or
fail and leave the file with some content. -/
inductive Flush where
  | deferred
  | wrote (k : ℕ)
  | failed (disk : Bytes)

/-- Writes done one after the other. -/
def settle (l : Bytes) (writes : List (ℕ × Bytes)) : Bytes :=
  writes.foldl (fun l w => l.writeAt w.1 w.2) l

/-- The file with all pending writes done. -/
def view (f : BufferedFile) : Bytes := settle f.disk f.pending

/-- The stream behind a flush. -/
def flush (f : BufferedFile) : Flush → BufferedFile
  | .deferred => f
  | .wrote k => { f with disk := settle f.disk (f.pending.take k), pending := f.pending.drop k }
  | .failed disk => { disk := disk, pending := [], failed := true }

/-- Write `data` at `off`. The stream may flush in front of the write and behind it; one that has failed
does nothing. -/
def write (f : BufferedFile) (off : ℕ) (data : Bytes) (before after : Flush) : BufferedFile :=
  if f.failed then f
  else
    let g := f.flush before
    if g.failed then g else BufferedFile.flush { g with pending := g.pending ++ [(off, data)] } after

/-- Read `n` bytes at `off`, with a flush in front. The bytes are there if they lie inside the file and
no error occurs; else the stream has failed. -/
def read (f : BufferedFile) (off n : ℕ) (before : Flush) (ok : Bool) : BufferedFile × Option Bytes :=
  if f.failed then (f, none)
  else
    let g := f.flush before
    if g.failed then (g, none)
    else if ok ∧ off + n ≤ g.view.length then (g, some ((g.view.drop off).take n))
    else ({ g with failed := true }, none)

/-- The file behind a close: with all pending writes done, or with some content when that failed. -/
def close (f : BufferedFile) (lost : Option Bytes) : Bytes := lost.getD f.view

variable {f : BufferedFile}

/-- A flush that does not fail changes nothing in the view. -/
theorem view_flush {r : Flush} (h : (f.flush r).failed = false) :
    f.failed = false ∧ (f.flush r).view = f.view := by
  cases r with
  | deferred => exact ⟨h, rfl⟩
  | wrote k =>
      refine ⟨h, ?_⟩
      rw [view, view, flush, settle, settle, settle, ← List.foldl_append, List.take_append_drop]
  | failed disk => cases h

/-- A stream that has not failed behind a write shows it. -/
theorem view_write {off : ℕ} {data : Bytes} {before after : Flush}
    (h : (f.write off data before after).failed = false) :
    f.failed = false ∧ (f.write off data before after).view = f.view.writeAt off data := by
  unfold write at h ⊢
  dsimp only at h ⊢
  split_ifs at h ⊢ with hf hg
  · rw [hf] at h
    cases h
  · rw [hg] at h
    cases h
  · obtain ⟨-, hview⟩ := view_flush h
    obtain ⟨-, hview'⟩ := view_flush (Bool.eq_false_iff.mpr hg)
    refine ⟨Bool.eq_false_iff.mpr hf, ?_⟩
    rw [hview, ← hview']
    simp only [view, settle, List.foldl_append]
    rfl

/-- What a read can be: it delivers a part of the view and leaves it, or it leaves a stream that has
failed. -/
theorem read_cases (f : BufferedFile) (off n : ℕ) (before : Flush) (ok : Bool) :
    (∃ data, (f.read off n before ok).2 = some data ∧ f.failed = false ∧
      (f.read off n before ok).1.failed = false ∧ (f.read off n before ok).1.view = f.view ∧
      data = (f.view.drop off).take n ∧ off + n ≤ f.view.length) ∨
      (f.read off n before ok).2 = none ∧ (f.read off n before ok).1.failed = true := by
  unfold read
  dsimp only
  split_ifs with hf hg hin
  · exact .inr ⟨rfl, hf⟩
  · exact .inr ⟨rfl, hg⟩
  · obtain ⟨-, hview⟩ := view_flush (Bool.eq_false_iff.mpr hg)
    rw [hview] at hin
    exact .inl ⟨_, rfl, Bool.eq_false_iff.mpr hf, Bool.eq_false_iff.mpr hg, hview, by rw [hview], hin.2⟩
  · exact .inr ⟨rfl, rfl⟩

end BufferedFile
