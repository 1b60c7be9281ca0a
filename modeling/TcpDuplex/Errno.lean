import Mathlib.Algebra.BigOperators.Intervals
import TcpDuplex.Socket

/-!
# What `read_exact` and `write_all` report on any kernel

`Socket` says what the two loops do when the system calls keep to their rules. Here nothing is assumed
about the calls: each may move any part of what it was asked to, nothing at all, or fail, with any value
in `errno`.

Both loops take their error code from `errno` when they stop early, and a stopped loop is an error to the
caller only if `errno` was set then. `write_all` also stops at a `send` that moved nothing, which sets no
`errno`; `read_exact` knows that case by itself. `transfersExactly_iff` is the exact condition.
-/

namespace TcpDuplex

open StreamProg

/-- The error code of a call is an error if and only if `errno` is set. -/
theorem failed_lastSocketError (e : Int32) : (lastSocketError e).failed = true ↔ e ≠ 0 := by
  refine ⟨fun h hzero => ?_, fun h => (socketError_lastSocketError h).1⟩
  rw [hzero] at h
  exact absurd h (by decide)

/-! ## How far the calls go -/

/-- How many bytes the call with this number moves at most. -/
def amount (k : Kernel Int32) (i : ℕ) : ℕ := (k.ready i).count.getD 0

/-- How many bytes the first `i` calls move together at most. -/
def total (k : Kernel Int32) (i : ℕ) : ℕ := ∑ j ∈ Finset.range i, amount k j

/-- Of the calls of `send` that hand over `len` bytes, one that moves nothing leaves `errno` set. -/
def SendsSayWhy (k : Kernel Int32) (len : ℕ) : Prop :=
  ∀ i, (∀ j < i, 0 < amount k j) → total k i < len → amount k i = 0 → (k.ready i).errno ≠ 0

/-- Of the calls of `recv` that fill a buffer of `len` bytes, or reach the end of the stream, one that
fails leaves `errno` set. -/
def RecvsSayWhy (k : Kernel Int32) (len : ℕ) : Prop :=
  ∀ i, (∀ j < i, 0 < amount k j ∧ total k j < k.input.length) →
    min (total k i) k.input.length < len → (k.ready i).count = none → (k.ready i).errno ≠ 0

variable {k k' : Kernel Int32} {len n : ℕ}

@[simp]
theorem total_zero (k : Kernel Int32) : total k 0 = 0 := rfl

/-- The calls behind the first one. -/
theorem total_succ (h : ∀ i, k'.ready i = k.ready (i + 1)) (i : ℕ) :
    total k (i + 1) = amount k 0 + total k' i := by
  rw [total, Finset.sum_range_succ', add_comm]
  simp only [total, amount, h]

theorem amount_succ (h : ∀ i, k'.ready i = k.ready (i + 1)) (i : ℕ) :
    amount k (i + 1) = amount k' i := by
  simp only [amount, h]

/-! ### Sending -/

theorem sendsSayWhy_zero (k : Kernel Int32) : SendsSayWhy k 0 :=
  fun _ _ hlt => absurd hlt (Nat.not_lt_zero _)

/-- The first call moves nothing: it is the one that has to say why. -/
theorem sendsSayWhy_stop (hlen : 0 < len) (h : amount k 0 = 0) :
    SendsSayWhy k len ↔ (k.ready 0).errno ≠ 0 := by
  refine ⟨fun hsay => hsay 0 (fun j hj => absurd hj (Nat.not_lt_zero j)) hlen h, ?_⟩
  intro herrno i hbefore _ _
  cases i with
  | zero => exact herrno
  | succ i => exact absurd (hbefore 0 (by omega)) (by omega)

/-- The first call moves something: the rest is up to the others. -/
theorem sendsSayWhy_go (hready : ∀ i, k'.ready i = k.ready (i + 1)) (h : 0 < amount k 0) :
    SendsSayWhy k len ↔ SendsSayWhy k' (len - min (amount k 0) len) := by
  constructor
  · intro hsay i hbefore hlt hstop
    rw [hready]
    refine hsay (i + 1) (Nat.forall_lt_succ_left.mpr ⟨h, fun j hj => ?_⟩) ?_ ?_
    · rw [amount_succ hready]
      exact hbefore j hj
    · rw [total_succ hready]
      omega
    · rw [amount_succ hready]
      exact hstop
  · intro hsay i hbefore hlt hstop
    cases i with
    | zero => omega
    | succ i =>
        rw [total_succ hready] at hlt
        rw [amount_succ hready] at hstop
        rw [← hready]
        refine hsay i (fun j hj => ?_) (by omega) hstop
        rw [← amount_succ hready]
        exact hbefore (j + 1) (by omega)

/-! ### Receiving -/

theorem recvsSayWhy_zero (k : Kernel Int32) : RecvsSayWhy k 0 :=
  fun _ _ hlt => absurd hlt (Nat.not_lt_zero _)

/-- The first call fails: it is the one that has to say why. -/
theorem recvsSayWhy_fail (hlen : 0 < len) (h : (k.ready 0).count = none) :
    RecvsSayWhy k len ↔ (k.ready 0).errno ≠ 0 := by
  have hnone : amount k 0 = 0 := by rw [amount, h]; rfl
  constructor
  · intro hsay
    exact hsay 0 (fun j hj => absurd hj (Nat.not_lt_zero j)) (by rw [total_zero]; omega) h
  · intro herrno i hbefore _ _
    cases i with
    | zero => exact herrno
    | succ i => exact absurd (hbefore 0 (by omega)).1 (by omega)

/-- The first call reports the end of the stream. -/
theorem recvsSayWhy_end (hcount : (k.ready 0).count = some n) (h : n = 0 ∨ k.input = []) :
    RecvsSayWhy k len := by
  intro i hbefore _ hnone
  cases i with
  | zero =>
      rw [hcount] at hnone
      cases hnone
  | succ i =>
      obtain ⟨hmoved, hmore⟩ := hbefore 0 (by omega)
      rw [amount, hcount, Option.getD_some] at hmoved
      rcases h with hzero | hempty
      · omega
      · rw [hempty] at hmore
        exact absurd hmore (by simp)

/-- The first call moves something: the rest is up to the others. -/
theorem recvsSayWhy_go (hready : ∀ i, k'.ready i = k.ready (i + 1)) (hn : amount k 0 = n)
    (hpos : 0 < n) (hinput : 0 < k.input.length)
    (hleft : k'.input.length = k.input.length - min (min n len) k.input.length) :
    RecvsSayWhy k len ↔ RecvsSayWhy k' (len - min (min n len) k.input.length) := by
  constructor
  · intro hsay i hbefore hlt hfail
    rw [hready] at hfail ⊢
    rw [hleft] at hlt
    refine hsay (i + 1)
      (Nat.forall_lt_succ_left.mpr ⟨⟨by omega, by simpa using hinput⟩, fun j hj => ?_⟩) ?_ hfail
    · obtain ⟨hmoved, hmore⟩ := hbefore j hj
      rw [amount_succ hready, total_succ hready, hn]
      rw [hleft] at hmore
      exact ⟨hmoved, by omega⟩
    · rw [total_succ hready, hn]
      omega
  · intro hsay i hbefore hlt hfail
    cases i with
    | zero =>
        have hnone : amount k 0 = 0 := by rw [amount, hfail]; rfl
        omega
    | succ i =>
        rw [total_succ hready, hn] at hlt
        rw [← hready] at hfail ⊢
        refine hsay i (fun j hj => ?_) (by rw [hleft]; omega) hfail
        obtain ⟨hmoved, hmore⟩ := hbefore (j + 1) (by omega)
        rw [amount_succ hready] at hmoved
        rw [total_succ hready, hn] at hmore
        exact ⟨hmoved, by rw [hleft]; omega⟩

namespace TcpSocket

/-! ## The loops -/

/-- `write_all` hands over the front of the buffer. It reports that something is left if and only if the
call that stopped it says why. -/
theorem run_writeAll_cases (k : Kernel Int32) (rest : Bytes) :
    ((writeAll rest).run k).2.input = k.input ∧
      ∃ o, o <+: rest ∧ ((writeAll rest).run k).2.output = k.output ++ o ∧
        (o = rest ∧ ((writeAll rest).run k).1.failed = false ∧ SendsSayWhy k rest.length ∨
          o ≠ rest ∧ (((writeAll rest).run k).1.failed = true ↔ SendsSayWhy k rest.length)) := by
  induction hlength : rest.length using Nat.strong_induction_on generalizing rest k with
  | _ m ih =>
    subst hlength
    unfold writeAll
    by_cases hrest : rest = []
    · rw [if_pos hrest, run_ret]
      refine ⟨rfl, [], List.nil_prefix, by simp, .inl ⟨hrest.symm, rfl, ?_⟩⟩
      rw [hrest]
      exact sendsSayWhy_zero k
    · have hpos := List.length_pos_of_ne_nil hrest
      rw [if_neg hrest, run]
      -- a call that moves nothing ends the loop, whether it failed or not
      have hstop : amount k 0 = 0 → (k.send rest).bytes = [] →
          ∃ o, o <+: rest ∧ (k.sent (k.send rest)).output = k.output ++ o ∧
            (o = rest ∧ (lastSocketError (k.send rest).errno).failed = false ∧
                SendsSayWhy k rest.length ∨
              o ≠ rest ∧ ((lastSocketError (k.send rest).errno).failed = true ↔
                SendsSayWhy k rest.length)) := by
        intro hzero hbytes
        refine ⟨[], List.nil_prefix, by rw [Kernel.sent, hbytes], .inr ⟨Ne.symm hrest, ?_⟩⟩
        exact (failed_lastSocketError _).trans (sendsSayWhy_stop hpos hzero).symm
      cases hcount : (k.ready 0).count with
      | none =>
          have hmoved : (k.send rest).moved = none := by rw [Kernel.send, hcount]; rfl
          simp only [hmoved]
          exact ⟨rfl, hstop (by rw [amount, hcount]; rfl) (by rw [Answer.bytes, hmoved]; rfl)⟩
      | some n =>
          have hmoved : (k.send rest).moved = some (rest.take n) := by rw [Kernel.send, hcount]; rfl
          have hbytes : (k.send rest).bytes = rest.take n := by rw [Answer.bytes, hmoved]; rfl
          have hamount : amount k 0 = n := by rw [amount, hcount]; rfl
          simp only [hmoved]
          by_cases hzero : n = 0
          · have hempty : rest.take n = [] := by rw [hzero, List.take_zero]
            rw [if_pos hempty]
            exact ⟨rfl, hstop (hamount.trans hzero) (hbytes.trans hempty)⟩
          · have hsome : rest.take n ≠ [] := by
              rw [ne_eq, List.take_eq_nil_iff]
              exact not_or.mpr ⟨hzero, hrest⟩
            rw [if_neg hsome]
            obtain ⟨hin, o, hfront, hout, hcases⟩ :=
              ih (rest.drop (rest.take n).length).length (length_drop_lt hrest hsome)
                (k.sent (k.send rest)) (rest.drop (rest.take n).length) rfl
            have hgo : SendsSayWhy k rest.length ↔
                SendsSayWhy (k.sent (k.send rest)) (rest.drop (rest.take n).length).length := by
              have hshift : ∀ i, (k.sent (k.send rest)).ready i = k.ready (i + 1) := fun _ => rfl
              rw [sendsSayWhy_go hshift (by omega), hamount, List.length_drop, List.length_take]
            have hsplit : rest.take n ++ rest.drop (rest.take n).length = rest :=
              List.prefix_iff_eq_append.mp (List.take_prefix n rest)
            refine ⟨hin, rest.take n ++ o, ?_, ?_, ?_⟩
            · have hboth := (List.prefix_append_right_inj (rest.take n)).mpr hfront
              rwa [hsplit] at hboth
            · rw [hout, Kernel.sent, hbytes, List.append_assoc]
            · have hwhole : rest.take n ++ o = rest ↔ o = rest.drop (rest.take n).length :=
                ⟨fun h => List.append_cancel_left (h.trans hsplit.symm), fun h => by rw [h, hsplit]⟩
              rw [hgo, ne_eq, hwhole]
              exact hcases

/-- `read_exact` takes the front of the input and puts it into the front of the buffer. It reports that
the buffer is not full if and only if the call that stopped it says why, or the stream has ended. -/
theorem run_readLoop_cases (k : Kernel Int32) (got rest : Bytes) :
    ((readLoop got rest).run k).2.output = k.output ∧
      ∃ c, c.length ≤ rest.length ∧ k.input = c ++ ((readLoop got rest).run k).2.input ∧
        ((readLoop got rest).run k).1.2 = got ++ c ++ rest.drop c.length ∧
        (c.length = rest.length ∧ ((readLoop got rest).run k).1.1.failed = false ∧
            RecvsSayWhy k rest.length ∨
          c.length < rest.length ∧
            (((readLoop got rest).run k).1.1.failed = true ↔ RecvsSayWhy k rest.length)) := by
  induction hlength : rest.length using Nat.strong_induction_on generalizing got rest k with
  | _ m ih =>
    subst hlength
    unfold readLoop
    by_cases hrest : rest = []
    · rw [if_pos hrest, run_ret]
      refine ⟨rfl, [], by simp, rfl, by simp [hrest], .inl ⟨by simp [hrest], rfl, ?_⟩⟩
      rw [hrest]
      exact recvsSayWhy_zero k
    · have hpos := List.length_pos_of_ne_nil hrest
      rw [if_neg hrest, run]
      have hinput := k.input_eq_recv rest.length
      cases hcount : (k.ready 0).count with
      | none =>
          have hmoved : (k.recv rest.length).moved = none := by rw [Kernel.recv, hcount]; rfl
          have hbytes : (k.recv rest.length).bytes = [] := by rw [Answer.bytes, hmoved]; rfl
          simp only [hmoved, run_ret]
          rw [hbytes] at hinput
          refine ⟨rfl, [], by simp, hinput, by simp, .inr ⟨by simpa using hpos, ?_⟩⟩
          exact (failed_lastSocketError _).trans (recvsSayWhy_fail hpos hcount).symm
      | some n =>
          have hmoved : (k.recv rest.length).moved = some (k.input.take (min n rest.length)) := by
            rw [Kernel.recv, hcount]
            rfl
          have hbytes : (k.recv rest.length).bytes = k.input.take (min n rest.length) := by
            rw [Answer.bytes, hmoved]
            rfl
          rw [hbytes] at hinput
          simp only [hmoved]
          by_cases hempty : k.input.take (min n rest.length) = []
          · rw [if_pos hempty, run_ret]
            rw [hempty] at hinput
            refine ⟨rfl, [], by simp, hinput, by simp, .inr ⟨by simpa using hpos, ?_⟩⟩
            have hended : n = 0 ∨ k.input = [] := by
              rw [List.take_eq_nil_iff] at hempty
              exact hempty.imp_left fun hmin => by omega
            exact iff_of_true rfl (recvsSayWhy_end hcount hended)
          · rw [if_neg hempty]
            have hlen : (k.input.take (min n rest.length)).length =
                min (min n rest.length) k.input.length := List.length_take
            have hmore := List.length_pos_of_ne_nil hempty
            obtain ⟨hout, c, hle, hin, hbuf, hcases⟩ :=
              ih (rest.drop (k.input.take (min n rest.length)).length).length
                (length_drop_lt hrest hempty) (k.received (k.recv rest.length))
                (got ++ k.input.take (min n rest.length))
                (rest.drop (k.input.take (min n rest.length)).length) rfl
            have hgo : RecvsSayWhy k rest.length ↔ RecvsSayWhy (k.received (k.recv rest.length))
                (rest.drop (k.input.take (min n rest.length)).length).length := by
              have hshift : ∀ i, (k.received (k.recv rest.length)).ready i = k.ready (i + 1) :=
                fun _ => rfl
              have hamount : amount k 0 = n := by rw [amount, hcount]; rfl
              rw [recvsSayWhy_go hshift hamount (by omega) (by omega), List.length_drop, hlen]
              rw [Kernel.received, hbytes, List.length_drop, hlen]
            rw [List.length_drop] at hle hcases hgo
            refine ⟨hout, k.input.take (min n rest.length) ++ c, ?_, ?_, ?_, ?_⟩
            · rw [List.length_append]
              omega
            · rw [List.append_assoc, ← hin]
              exact hinput
            · rw [hbuf, List.drop_drop, List.length_append, List.append_assoc got]
            · rw [hgo, List.length_append]
              rcases hcases with ⟨hfull, hcases⟩ | ⟨hshort, hcases⟩
              · exact .inl ⟨by omega, hcases⟩
              · exact .inr ⟨by omega, hcases⟩

/-! ## What the callers rely on -/

/-- `write_all(buf)` succeeds with the whole buffer handed over, or reports an error and has handed over
a part of it, from the front. -/
def WritesExactly (k : Kernel Int32) (buf : Bytes) : Prop :=
  let ec := ((writeAll buf).run k).1
  let k' := ((writeAll buf).run k).2
  k'.input = k.input ∧
    (ec.failed = false ∧ k'.output = k.output ++ buf ∨
      ec.failed = true ∧ ∃ o, o <+: buf ∧ o ≠ buf ∧ k'.output = k.output ++ o)

/-- `read_exact(buf)` succeeds with the buffer filled with the next bytes of the input, or reports an
error and has taken fewer bytes than the buffer holds, into its front. -/
def ReadsExactly (k : Kernel Int32) (buf : Bytes) : Prop :=
  let ec := ((readExact buf).run k).1.1
  let buf' := ((readExact buf).run k).1.2
  let k' := ((readExact buf).run k).2
  k'.output = k.output ∧ buf'.length = buf.length ∧
    (ec.failed = false ∧ k.input = buf' ++ k'.input ∨
      ec.failed = true ∧ ∃ c, c.length < buf.length ∧ c <+: buf' ∧ k.input = c ++ k'.input)

theorem writesExactly_iff (k : Kernel Int32) (buf : Bytes) :
    WritesExactly k buf ↔ SendsSayWhy k buf.length := by
  obtain ⟨hin, o, hfront, hout, hcases⟩ := run_writeAll_cases k buf
  constructor
  · rintro ⟨-, hexact⟩
    rcases hcases with ⟨-, -, hsay⟩ | ⟨hpart, hiff⟩
    · exact hsay
    · rcases hexact with ⟨-, hwhole⟩ | ⟨hfailed, -⟩
      · exact absurd (List.append_cancel_left (hout.symm.trans hwhole)) hpart
      · exact hiff.mp hfailed
  · intro hsay
    refine ⟨hin, ?_⟩
    rcases hcases with ⟨hwhole, hec, -⟩ | ⟨hpart, hiff⟩
    · rw [hwhole] at hout
      exact .inl ⟨hec, hout⟩
    · exact .inr ⟨hiff.mpr hsay, o, hfront, hpart, hout⟩

theorem readsExactly_iff (k : Kernel Int32) (buf : Bytes) :
    ReadsExactly k buf ↔ RecvsSayWhy k buf.length := by
  obtain ⟨hout, c, hle, hin, hbuf, hcases⟩ := run_readLoop_cases k [] buf
  rw [List.nil_append] at hbuf
  constructor
  · rintro ⟨-, hlen, hexact⟩
    rcases hcases with ⟨-, -, hsay⟩ | ⟨hshort, hiff⟩
    · exact hsay
    · rcases hexact with ⟨-, hwhole⟩ | ⟨hfailed, -⟩
      · -- the input cannot have lost a part of the buffer only and all of it
        have hsame := congrArg List.length (hin.symm.trans hwhole)
        rw [List.length_append, List.length_append] at hsame
        exact absurd hlen (by rw [readExact] at *; omega)
      · exact hiff.mp hfailed
  · intro hsay
    have hlen : ((readLoop [] buf).run k).1.2.length = buf.length := by
      rw [hbuf, List.length_append, List.length_drop]
      omega
    refine ⟨hout, hlen, ?_⟩
    rcases hcases with ⟨hfull, hec, -⟩ | ⟨hshort, hiff⟩
    · rw [hfull, List.drop_length, List.append_nil] at hbuf
      rw [← hbuf] at hin
      exact .inl ⟨hec, hin⟩
    · refine .inr ⟨hiff.mpr hsay, c, hshort, ?_, hin⟩
      show c <+: ((readLoop [] buf).run k).1.2
      rw [hbuf]
      exact List.prefix_append c _

/-- On any kernel, `write_all` is exact if and only if the `send` that moves nothing before the buffer is
handed over leaves `errno` set, and `read_exact` is exact if and only if the `recv` that fails before the
buffer is full does. -/
theorem transfersExactly_iff (k : Kernel Int32) (buf : Bytes) :
    (WritesExactly k buf ↔ SendsSayWhy k buf.length) ∧
      (ReadsExactly k buf ↔ RecvsSayWhy k buf.length) :=
  ⟨writesExactly_iff k buf, readsExactly_iff k buf⟩

/-- The first `send` moves nothing and no call has ever set `errno`: `write_all` returns a code that is
no error, and the byte is not handed over. -/
theorem writeAll_stale_errno :
    let k : Kernel Int32 := { input := [], ready := fun _ => ⟨some 0, 0⟩ }
    ((writeAll [7]).run k).1.failed = false ∧ ((writeAll [7]).run k).2.output = [] ∧
      ¬WritesExactly k [7] := by
  intro k
  have hsend : (k.send [7]).moved = some [] := rfl
  have hrun : (writeAll [7]).run k = (lastSocketError 0, k.sent (k.send [7])) := by
    rw [writeAll, if_neg (by simp), run, hsend]
    simp only [↓reduceIte, run_ret]
    rfl
  refine ⟨by rw [hrun]; rfl, by rw [hrun]; rfl, fun hexact => ?_⟩
  have hsay := (writesExactly_iff k [7]).mp hexact
  exact hsay 0 (fun j hj => absurd hj (Nat.not_lt_zero j)) (by simp) rfl rfl

end TcpSocket

end TcpDuplex
