import TcpDuplex.Errors
import TcpDuplex.Lib.StreamProg

/-!
# The blocking socket (`socket.cpp`)

`TcpSocket::read_exact` and `TcpSocket::write_all` repeat `recv` and `send` until the buffer is filled
or handed over. Both turn a call that failed into an error code by looking at `errno`. The constants
are those of Linux.

`posix` is what the callers may rely on: a call moves no more than it was asked to, one that fails sets
`errno`, and a blocking `send` of something takes at least one byte.
-/

namespace TcpDuplex

open StreamProg

/-! ## `last_socket_error` -/

/-- `ETIMEDOUT`. -/
def eTimedOut : Int32 := 110
/-- `EAGAIN`. -/
def eAgain : Int32 := 11
/-- `EWOULDBLOCK`. -/
def eWouldBlock : Int32 := 11
/-- `ECONNRESET`. -/
def eConnReset : Int32 := 104
/-- `EPIPE`. -/
def ePipe : Int32 := 32

/-- `last_socket_error`, with this value in `errno`. -/
def lastSocketError (e : Int32) : ErrorCode :=
  if e = eTimedOut ∨ e = eAgain ∨ e = eWouldBlock then Errc.timedOut.code
  else if e = eConnReset ∨ e = ePipe then Errc.closed.code
  else ⟨e.toInt, .generic⟩

/-- The error codes that `read_exact` and `write_all` return when the socket fails. -/
def SocketError (ec : ErrorCode) : Prop :=
  ec.failed = true ∧ (ec = Errc.timedOut.code ∨ ec = Errc.closed.code ∨ ec.category = .generic)

theorem socketError_closed : SocketError Errc.closed.code := ⟨rfl, .inr (.inl rfl)⟩

/-- A call that failed with `errno` set is an error to the callers. -/
theorem socketError_lastSocketError {e : Int32} (h : e ≠ 0) : SocketError (lastSocketError e) := by
  unfold lastSocketError
  split_ifs
  · exact ⟨rfl, .inl rfl⟩
  · exact ⟨rfl, .inr (.inl rfl)⟩
  · refine ⟨?_, .inr (.inr rfl)⟩
    have hvalue : e.toInt ≠ 0 := by
      intro hzero
      apply h
      exact Int32.toInt_inj.mp (hzero.trans Int32.toInt_zero.symm)
    simpa [ErrorCode.failed] using hvalue

/-- The rules of the system calls. -/
def posix : Rules Int32 where
  recv len ans := ans.bytes.length ≤ len ∧ (ans.moved = none → ans.errno ≠ 0)
  send data ans :=
    ans.bytes <+: data ∧ (ans.moved = none → ans.errno ≠ 0) ∧ (ans.moved = some [] → data = [])

/-- A kernel that moves something with every call, or fails and says why. -/
theorem obeys_posix {k : Kernel Int32}
    (h : ∀ i, (k.ready i).count ≠ some 0 ∧ ((k.ready i).count = none → (k.ready i).errno ≠ 0)) :
    k.Obeys posix := by
  intro i k' hk'
  obtain ⟨hpos, herrno⟩ := h i
  rw [← hk'] at hpos herrno
  cases hcount : (k'.ready 0).count with
  | none =>
      have hset := herrno hcount
      refine ⟨fun len => ?_, fun data => ?_⟩
      · exact ⟨by simp [Kernel.recv, Answer.bytes, hcount], fun _ => hset⟩
      · refine ⟨by simp [Kernel.send, Answer.bytes, hcount], fun _ => hset, ?_⟩
        simp [Kernel.send, hcount]
  | some n =>
      refine ⟨fun len => ?_, fun data => ?_⟩
      · refine ⟨?_, by simp [Kernel.recv, hcount]⟩
        simp only [Kernel.recv, Answer.bytes, hcount, Option.map_some, Option.getD_some,
          List.length_take]
        omega
      · have hn : n ≠ 0 := fun hzero => hpos (by rw [hcount, hzero])
        refine ⟨?_, by simp [Kernel.send, hcount], fun hnone => ?_⟩
        · simp only [Kernel.send, Answer.bytes, hcount, Option.map_some, Option.getD_some]
          exact List.take_prefix _ _
        · simp only [Kernel.send, hcount, Option.map_some, Option.some.injEq,
            List.take_eq_nil_iff] at hnone
          exact hnone.resolve_left hn

theorem Flowing.obeys {k : Kernel Int32} (h : k.Flowing) : k.Obeys posix := by
  apply obeys_posix
  intro i
  obtain ⟨n, hn, hpos⟩ := h i
  rw [hn]
  exact ⟨by simp; omega, by simp⟩

namespace TcpSocket

/-- A call that moved something leaves less to do. -/
theorem length_drop_lt {rest d : Bytes} (hrest : rest ≠ []) (hd : d ≠ []) :
    (rest.drop d.length).length < rest.length := by
  have hpos := List.length_pos_of_ne_nil hrest
  have hmoved := List.length_pos_of_ne_nil hd
  rw [List.length_drop]
  omega

/-! ## `read_exact` -/

/-- The loop of `read_exact`: `got` is the filled part of the buffer, `rest` what it still holds behind
it. -/
def readLoop (got rest : Bytes) : StreamProg Int32 (ErrorCode × Bytes) :=
  if rest = [] then .ret (.success, got)
  else .recv rest.length fun ans =>
    match ans.moved with
    | none => .ret (lastSocketError ans.errno, got ++ rest)
    | some d =>
      if d = [] then .ret (Errc.closed.code, got ++ rest)
      else readLoop (got ++ d) (rest.drop d.length)
  termination_by rest.length
  decreasing_by exact length_drop_lt ‹¬rest = []› ‹¬d = []›

/-- `read_exact(buf)`: the error code, and the buffer afterwards. -/
def readExact (buf : Bytes) : StreamProg Int32 (ErrorCode × Bytes) := readLoop [] buf

/-! ## `write_all` -/

/-- `write_all(buf)`, from the part not yet sent on. -/
def writeAll (rest : Bytes) : StreamProg Int32 ErrorCode :=
  if rest = [] then .ret .success
  else .send rest fun ans =>
    match ans.moved with
    | none => .ret (lastSocketError ans.errno)
    | some d =>
      if d = [] then .ret (lastSocketError ans.errno)
      else writeAll (rest.drop d.length)
  termination_by rest.length
  decreasing_by exact length_drop_lt ‹¬rest = []› ‹¬d = []›

/-! ## What the loops do, whatever the answers -/

variable {got rest c o : Bytes}

/-- `read_exact` receives no more than fits into the buffer, fills it from the front, and sends
nothing. It succeeds exactly when the buffer is full. -/
theorem reaches_readLoop {q : StreamProg Int32 (ErrorCode × Bytes)}
    (h : Reaches posix (readLoop got rest) c o q) :
    o = [] ∧ c.length ≤ rest.length ∧
      ∀ ec buf, q = .ret (ec, buf) →
        ec = .success ∧ c.length = rest.length ∧ buf = got ++ c ∨
          SocketError ec ∧ c.length < rest.length := by
  -- the induction follows the loop: each round shortens the empty part of the buffer
  induction hn : rest.length using Nat.strong_induction_on generalizing got rest c o with
  | _ n ih =>
    subst hn
    unfold readLoop at h
    split at h
    · rename_i hrest
      obtain ⟨rfl, rfl, rfl⟩ := h.of_ret
      refine ⟨rfl, by simp, fun ec buf hret => .inl ?_⟩
      cases hret
      exact ⟨rfl, by simp [hrest], by simp⟩
    · rename_i hrest
      have hpos := List.length_pos_of_ne_nil hrest
      cases h with
      | refl => exact ⟨rfl, by simp, fun ec buf hret => by cases hret⟩
      | @recv _ _ ans c o _ hans h =>
        obtain ⟨hlen, herrno⟩ := hans
        dsimp only at h
        split at h
        · rename_i hmoved
          obtain ⟨rfl, rfl, rfl⟩ := h.of_ret
          have hnone : ans.bytes = [] := by rw [Answer.bytes, hmoved]; rfl
          refine ⟨rfl, by simp [hnone], fun ec buf hret => .inr ?_⟩
          cases hret
          exact ⟨socketError_lastSocketError (herrno hmoved), by simpa [hnone] using hpos⟩
        · rename_i d hmoved
          have hd : ans.bytes = d := by rw [Answer.bytes, hmoved]; rfl
          rw [hd] at hlen ⊢
          split at h
          · rename_i hempty
            obtain ⟨rfl, rfl, rfl⟩ := h.of_ret
            refine ⟨rfl, by simp [hempty], fun ec buf hret => .inr ?_⟩
            cases hret
            exact ⟨socketError_closed, by simpa [hempty] using hpos⟩
          · rename_i hsome
            have hdrop : (rest.drop d.length).length = rest.length - d.length := List.length_drop
            obtain ⟨rfl, hle, hret⟩ := ih _ (length_drop_lt hrest hsome) h rfl
            rw [List.length_append]
            refine ⟨rfl, by omega, fun ec buf hq => ?_⟩
            rcases hret ec buf hq with ⟨hec, hfull, hbuf⟩ | ⟨hec, hshort⟩
            · exact .inl ⟨hec, by omega, by rw [hbuf, List.append_assoc]⟩
            · exact .inr ⟨hec, by omega⟩

/-- `write_all` sends the buffer from the front, and receives nothing. It succeeds exactly when all of
the buffer was handed over. -/
theorem reaches_writeAll {q : StreamProg Int32 ErrorCode}
    (h : Reaches posix (writeAll rest) c o q) :
    c = [] ∧ o <+: rest ∧ ∀ ec, q = .ret ec → ec = .success ∧ o = rest ∨ SocketError ec := by
  induction hn : rest.length using Nat.strong_induction_on generalizing rest c o with
  | _ n ih =>
    subst hn
    unfold writeAll at h
    split at h
    · rename_i hrest
      obtain ⟨rfl, rfl, rfl⟩ := h.of_ret
      refine ⟨rfl, List.nil_prefix, fun ec hret => .inl ?_⟩
      cases hret
      exact ⟨rfl, hrest.symm⟩
    · rename_i hrest
      cases h with
      | refl => exact ⟨rfl, List.nil_prefix, fun ec hret => by cases hret⟩
      | @send _ _ ans c o _ hans h =>
        obtain ⟨hfront, herrno, hsome⟩ := hans
        dsimp only at h
        split at h
        · rename_i hmoved
          obtain ⟨rfl, rfl, rfl⟩ := h.of_ret
          refine ⟨rfl, by simpa using hfront, fun ec hret => .inr ?_⟩
          cases hret
          exact socketError_lastSocketError (herrno hmoved)
        · rename_i d hmoved
          have hd : ans.bytes = d := by rw [Answer.bytes, hmoved]; rfl
          rw [hd] at hfront ⊢
          split at h
          · rename_i hempty
            rw [hempty] at hmoved
            exact absurd (hsome hmoved) hrest
          · rename_i hne
            have hdpos := List.length_pos_of_ne_nil hne
            obtain ⟨tail, rfl⟩ := hfront
            rw [List.drop_left] at h
            have hshorter : tail.length < (d ++ tail).length := by
              rw [List.length_append]
              omega
            obtain ⟨rfl, hrest', hret⟩ := ih _ hshorter h rfl
            refine ⟨rfl, (List.prefix_append_right_inj d).mpr hrest', fun ec hq => ?_⟩
            rcases hret ec hq with ⟨hec, rfl⟩ | hec
            · exact .inl ⟨hec, rfl⟩
            · exact .inr hec

/-! ## What the loops do on a kernel that moves something with every call -/

variable {k : Kernel Int32}

theorem moved_recv (hk : k.Flowing) {len : ℕ} (hlen : 0 < len) :
    ∃ n, 0 < n ∧ n ≤ len ∧ (k.recv len).moved = some (k.input.take n) := by
  obtain ⟨n, hn, hpos⟩ := hk 0
  exact ⟨min n len, by omega, by omega, by rw [Kernel.recv, hn]; rfl⟩

theorem moved_send (hk : k.Flowing) (data : Bytes) :
    ∃ n, 0 < n ∧ (k.send data).moved = some (data.take n) := by
  obtain ⟨n, hn, hpos⟩ := hk 0
  exact ⟨n, hpos, by rw [Kernel.send, hn]; rfl⟩

/-- `read_exact` takes the next bytes of the input, however they are cut, or all of it and reports the
end of the stream. -/
theorem run_readLoop (hk : k.Flowing) (got rest : Bytes) :
    ((readLoop got rest).run k).2.output = k.output ∧ ((readLoop got rest).run k).2.Flowing ∧
      (rest.length ≤ k.input.length →
        ((readLoop got rest).run k).1 = (.success, got ++ k.input.take rest.length) ∧
          ((readLoop got rest).run k).2.input = k.input.drop rest.length) ∧
      (k.input.length < rest.length →
        ((readLoop got rest).run k).1.1 = Errc.closed.code ∧
          ((readLoop got rest).run k).2.input = []) := by
  induction hlength : rest.length using Nat.strong_induction_on generalizing got rest k with
  | _ m ih =>
    subst hlength
    unfold readLoop
    by_cases hrest : rest = []
    · rw [if_pos hrest]
      exact ⟨rfl, hk, fun _ => ⟨by simp [run, hrest], by simp [run, hrest]⟩, by simp [hrest]⟩
    · have hpos := List.length_pos_of_ne_nil hrest
      obtain ⟨n, hn, hle, hmoved⟩ := moved_recv hk hpos
      have hbytes : (k.recv rest.length).bytes = k.input.take n := by
        rw [Answer.bytes, hmoved]
        rfl
      rw [if_neg hrest, run]
      simp only [hmoved]
      by_cases hempty : k.input = []
      · -- the stream has ended
        have hnone : k.input.take n = [] := by rw [hempty, List.take_nil]
        rw [if_pos hnone]
        refine ⟨rfl, hk.received _, fun hle' => ?_, fun _ => ⟨rfl, ?_⟩⟩
        · rw [hempty, List.length_nil] at hle'
          omega
        · simp [run, Kernel.received, hempty]
      · have hinput := List.length_pos_of_ne_nil hempty
        have hsome : k.input.take n ≠ [] := by
          rw [ne_eq, List.take_eq_nil_iff]
          exact not_or.mpr ⟨by omega, hempty⟩
        have htake : (k.input.take n).length = min n k.input.length := List.length_take
        rw [if_neg hsome]
        obtain ⟨hout, hflow, hall, hshort⟩ :=
          ih (rest.drop (k.input.take n).length).length (length_drop_lt hrest hsome)
            (hk.received (k.recv rest.length)) (got ++ k.input.take n)
            (rest.drop (k.input.take n).length) rfl
        have hleft : (k.received (k.recv rest.length)).input =
            k.input.drop (k.input.take n).length := by
          rw [Kernel.received, hbytes]
        rw [hleft, List.length_drop, List.length_drop] at hall hshort
        refine ⟨hout, hflow, fun hle' => ?_, fun hlt => hshort (by omega)⟩
        have hn' : (k.input.take n).length = n := by omega
        obtain ⟨hret, hin⟩ := hall (by omega)
        rw [hn'] at hret hin ⊢
        refine ⟨?_, ?_⟩
        · rw [hret, List.append_assoc, ← List.take_add, Nat.add_sub_cancel' hle]
        · rw [hin, List.drop_drop, Nat.add_sub_cancel' hle]

/-- `write_all` hands all of the buffer over, however it is cut. -/
theorem run_writeAll (hk : k.Flowing) (rest : Bytes) :
    ((writeAll rest).run k).1 = .success ∧ ((writeAll rest).run k).2.input = k.input ∧
      ((writeAll rest).run k).2.output = k.output ++ rest ∧ ((writeAll rest).run k).2.Flowing := by
  induction hlength : rest.length using Nat.strong_induction_on generalizing rest k with
  | _ m ih =>
    subst hlength
    unfold writeAll
    by_cases hrest : rest = []
    · rw [if_pos hrest]
      exact ⟨rfl, rfl, by simp [run, hrest], hk⟩
    · obtain ⟨n, hn, hmoved⟩ := moved_send hk rest
      have hbytes : (k.send rest).bytes = rest.take n := by
        rw [Answer.bytes, hmoved]
        rfl
      have hsome : rest.take n ≠ [] := by
        rw [ne_eq, List.take_eq_nil_iff]
        exact not_or.mpr ⟨by omega, hrest⟩
      rw [if_neg hrest, run]
      simp only [hmoved]
      rw [if_neg hsome]
      obtain ⟨hret, hin, hout, hflow⟩ :=
        ih (rest.drop (rest.take n).length).length (length_drop_lt hrest hsome)
          (hk.sent (k.send rest)) (rest.drop (rest.take n).length) rfl
      refine ⟨hret, hin, ?_, hflow⟩
      rw [hout, Kernel.sent, hbytes, List.append_assoc,
        List.prefix_iff_eq_append.mp (List.take_prefix n rest)]

end TcpSocket

end TcpDuplex
