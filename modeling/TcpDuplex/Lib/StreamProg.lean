import TcpDuplex.Lib.Bytes

/-!
# Programs that talk to a byte stream

A program is a tree of system calls. `recv len` asks for up to `len` bytes of the stream and
`send data` hands bytes over; the outside answers each call with the bytes it moved or with a failure,
and the program goes on from the answer.

A program can be run in two ways. `Reaches R p c o q` says that some answers, all of them allowed by the
rules `R`, take `p` to `q`, and that `c` was received and `o` sent on the way: this is the view of a
party whose peer moves at the same time. `run` plays the program against a `Kernel` that holds the whole
input and decides for each call how many bytes it moves at most. `reaches_run` leads from the second
to the first.
-/

/-- The answer to a system call: the bytes moved, or none of a call that failed, and the error number
that stands at that moment. -/
structure Answer (ε : Type) where
  moved : Option Bytes
  errno : ε

/-- The bytes moved; a call that failed moved none. -/
def Answer.bytes {ε : Type} (ans : Answer ε) : Bytes := ans.moved.getD []

/-- A program over a byte stream that returns a value of type `α`. -/
inductive StreamProg (ε α : Type) where
  | ret (a : α)
  | recv (len : ℕ) (next : Answer ε → StreamProg ε α)
  | send (data : Bytes) (next : Answer ε → StreamProg ε α)

namespace StreamProg

variable {ε α β : Type}

/-- Run one program, then another on what it returned. -/
def bind : StreamProg ε α → (α → StreamProg ε β) → StreamProg ε β
  | .ret a, f => f a
  | .recv len next, f => .recv len fun ans => (next ans).bind f
  | .send data next, f => .send data fun ans => (next ans).bind f

/-! ## Some run of a program -/

/-- Which answers a call may get. -/
structure Rules (ε : Type) where
  recv : ℕ → Answer ε → Prop
  send : Bytes → Answer ε → Prop

variable {R : Rules ε} {p q r : StreamProg ε α} {f : α → StreamProg ε β} {c c' o o' : Bytes}

/-- Some answers take the first program to the second; `c` was received and `o` sent. -/
inductive Reaches (R : Rules ε) : StreamProg ε α → Bytes → Bytes → StreamProg ε α → Prop
  | refl (p : StreamProg ε α) : Reaches R p [] [] p
  | recv {len : ℕ} {next : Answer ε → StreamProg ε α} {ans : Answer ε} {c o : Bytes}
      {q : StreamProg ε α} (hans : R.recv len ans) (h : Reaches R (next ans) c o q) :
      Reaches R (.recv len next) (ans.bytes ++ c) o q
  | send {data : Bytes} {next : Answer ε → StreamProg ε α} {ans : Answer ε} {c o : Bytes}
      {q : StreamProg ε α} (hans : R.send data ans) (h : Reaches R (next ans) c o q) :
      Reaches R (.send data next) c (ans.bytes ++ o) q

theorem Reaches.trans (h : Reaches R p c o q) (h' : Reaches R q c' o' r) :
    Reaches R p (c ++ c') (o ++ o') r := by
  induction h with
  | refl p => exact h'
  | recv hans _ ih =>
      rw [List.append_assoc]
      exact .recv hans (ih h')
  | send hans _ ih =>
      rw [List.append_assoc]
      exact .send hans (ih h')

/-- A run of one program behind another is within the first, or has it behind. -/
theorem Reaches.of_bind {q : StreamProg ε β} (h : Reaches R (p.bind f) c o q) :
    (∃ p', Reaches R p c o p' ∧ q = p'.bind f ∧ ∀ b, q ≠ .ret b) ∨
      ∃ a c₁ c₂ o₁ o₂, Reaches R p c₁ o₁ (.ret a) ∧ Reaches R (f a) c₂ o₂ q ∧ c = c₁ ++ c₂ ∧
        o = o₁ ++ o₂ := by
  induction p generalizing c o with
  | ret a => exact .inr ⟨a, [], c, [], o, .refl _, h, rfl, rfl⟩
  | recv len next ih =>
      cases h with
      | refl => exact .inl ⟨_, .refl _, rfl, fun b hb => by cases hb⟩
      | recv hans h =>
          rcases ih _ h with ⟨p', hp', hq⟩ | ⟨a, c₁, c₂, o₁, o₂, hp', hf, rfl, rfl⟩
          · exact .inl ⟨p', .recv hans hp', hq⟩
          · refine .inr ⟨a, _, c₂, o₁, o₂, .recv hans hp', hf, ?_, rfl⟩
            rw [List.append_assoc]
  | send data next ih =>
      cases h with
      | refl => exact .inl ⟨_, .refl _, rfl, fun b hb => by cases hb⟩
      | send hans h =>
          rcases ih _ h with ⟨p', hp', hq⟩ | ⟨a, c₁, c₂, o₁, o₂, hp', hf, rfl, rfl⟩
          · exact .inl ⟨p', .send hans hp', hq⟩
          · refine .inr ⟨a, c₁, c₂, _, o₂, .send hans hp', hf, rfl, ?_⟩
            rw [List.append_assoc]

/-- What returned has both parts behind. -/
theorem Reaches.of_bind_ret {b : β} (h : Reaches R (p.bind f) c o (.ret b)) :
    ∃ a c₁ c₂ o₁ o₂, Reaches R p c₁ o₁ (.ret a) ∧ Reaches R (f a) c₂ o₂ (.ret b) ∧ c = c₁ ++ c₂ ∧
      o = o₁ ++ o₂ := by
  rcases h.of_bind with ⟨p', -, -, hne⟩ | hdone
  · exact absurd rfl (hne b)
  · exact hdone

theorem Reaches.of_ret {a : α} (h : Reaches R (.ret a) c o q) : c = [] ∧ o = [] ∧ q = .ret a := by
  cases h
  exact ⟨rfl, rfl, rfl⟩

theorem Reaches.bind_left {a : α} (h : Reaches R p c o (.ret a)) : Reaches R (p.bind f) c o (f a) := by
  generalize hq : StreamProg.ret a = q at h
  induction h with
  | refl p =>
      subst hq
      exact .refl _
  | recv hans _ ih => exact .recv hans (ih hq)
  | send hans _ ih => exact .send hans (ih hq)

/-- A program that only receives. -/
def Silent (R : Rules ε) (p : StreamProg ε α) : Prop := ∀ c o q, Reaches R p c o q → o = []

theorem silent_ret (a : α) : Silent R (.ret a : StreamProg ε α) := fun _ _ _ h => h.of_ret.2.1

theorem Silent.bind (hp : Silent R p) (hf : ∀ a, Silent R (f a)) : Silent R (p.bind f) := by
  intro c o q h
  rcases h.of_bind with ⟨p', hp', -⟩ | ⟨a, c₁, c₂, o₁, o₂, hp', hnext, rfl, rfl⟩
  · exact hp _ _ _ hp'
  · rw [hp _ _ _ hp', hf a _ _ _ hnext, List.append_nil]

/-! ## The run against a kernel -/

/-- How far the kernel goes with a call: at most `count` bytes, or a failure. -/
structure Ready (ε : Type) where
  count : Option ℕ
  errno : ε

/-- The other side of the system calls: what there is to receive, what was sent, and how far each of
the calls to come will go. -/
structure Kernel (ε : Type) where
  input : Bytes
  output : Bytes := []
  ready : ℕ → Ready ε

namespace Kernel

/-- The answer to `recv len`: the next bytes of the input, as far as the kernel goes. -/
def recv (k : Kernel ε) (len : ℕ) : Answer ε where
  moved := (k.ready 0).count.map fun n => k.input.take (min n len)
  errno := (k.ready 0).errno

/-- The answer to `send data`: the first bytes of the data, as far as the kernel goes. -/
def send (k : Kernel ε) (data : Bytes) : Answer ε where
  moved := (k.ready 0).count.map fun n => data.take n
  errno := (k.ready 0).errno

/-- Behind a call of `recv` with this answer. -/
def received (k : Kernel ε) (ans : Answer ε) : Kernel ε :=
  { k with input := k.input.drop ans.bytes.length, ready := fun i => k.ready (i + 1) }

/-- Behind a call of `send` with this answer. -/
def sent (k : Kernel ε) (ans : Answer ε) : Kernel ε :=
  { k with output := k.output ++ ans.bytes, ready := fun i => k.ready (i + 1) }

/-- No call fails, and each one moves a byte if there is one. -/
def Flowing (k : Kernel ε) : Prop := ∀ i, ∃ n, (k.ready i).count = some n ∧ 0 < n

theorem Flowing.received {k : Kernel ε} (h : k.Flowing) (ans : Answer ε) :
    (k.received ans).Flowing := fun i => h (i + 1)

theorem Flowing.sent {k : Kernel ε} (h : k.Flowing) (ans : Answer ε) : (k.sent ans).Flowing :=
  fun i => h (i + 1)

/-- Every answer that the kernel will give, whatever there is to move then, is allowed by the rules. -/
def Obeys (R : Rules ε) (k : Kernel ε) : Prop :=
  ∀ (i : ℕ) (k' : Kernel ε), k'.ready 0 = k.ready i →
    (∀ len, R.recv len (k'.recv len)) ∧ ∀ data, R.send data (k'.send data)

/-- What `recv` delivers is the front of the input. -/
theorem input_eq_recv (k : Kernel ε) (len : ℕ) :
    k.input = (k.recv len).bytes ++ (k.received (k.recv len)).input := by
  refine (List.prefix_iff_eq_append.mp ?_).symm
  cases hcount : (k.ready 0).count with
  | none => simp [recv, Answer.bytes, hcount]
  | some n =>
      simp only [recv, Answer.bytes, hcount, Option.map_some, Option.getD_some]
      exact List.take_prefix _ _

end Kernel

/-- Play the program against a kernel. -/
def run : StreamProg ε α → Kernel ε → α × Kernel ε
  | .ret a, k => (a, k)
  | .recv len next, k => run (next (k.recv len)) (k.received (k.recv len))
  | .send data next, k => run (next (k.send data)) (k.sent (k.send data))

@[simp]
theorem run_ret (a : α) (k : Kernel ε) : (.ret a : StreamProg ε α).run k = (a, k) := rfl

theorem run_bind (p : StreamProg ε α) (f : α → StreamProg ε β) (k : Kernel ε) :
    (p.bind f).run k = (f (p.run k).1).run (p.run k).2 := by
  induction p generalizing k with
  | ret a => rfl
  | recv len next ih => exact ih _ _
  | send data next ih => exact ih _ _

/-- The run against a kernel is some run: it received the front of the input, and its output grew by
what it sent. -/
theorem reaches_run (p : StreamProg ε α) {k : Kernel ε} (hk : k.Obeys R) :
    ∃ c o, Reaches R p c o (.ret (p.run k).1) ∧ k.input = c ++ (p.run k).2.input ∧
      (p.run k).2.output = k.output ++ o := by
  induction p generalizing k with
  | ret a => exact ⟨[], [], .refl _, rfl, by simp [run]⟩
  | recv len next ih =>
      obtain ⟨c, o, hreach, hin, hout⟩ :=
        ih (k.recv len) (k := k.received (k.recv len)) fun i k' hk' => hk (i + 1) k' hk'
      refine ⟨_, o, .recv ((hk 0 k rfl).1 len) hreach, ?_, hout⟩
      rw [List.append_assoc, run, ← hin]
      exact k.input_eq_recv len
  | send data next ih =>
      obtain ⟨c, o, hreach, hin, hout⟩ :=
        ih (k.send data) (k := k.sent (k.send data)) fun i k' hk' => hk (i + 1) k' hk'
      refine ⟨c, _, .send ((hk 0 k rfl).2 data) hreach, hin, ?_⟩
      rw [run, hout, Kernel.sent, List.append_assoc]

/-- The run of a program whose ends are known. -/
theorem reaches_of_run {a : α} {k k' : Kernel ε} (hk : k.Obeys R) (hrun : p.run k = (a, k'))
    (hin : k.input = c ++ k'.input) (hout : k'.output = k.output ++ o) :
    Reaches R p c o (.ret a) := by
  obtain ⟨c', o', hreach, hin', hout'⟩ := reaches_run p hk
  rw [hrun] at hreach hin' hout'
  obtain rfl : c = c' := List.append_cancel_right (hin.symm.trans hin')
  obtain rfl : o = o' := List.append_cancel_left (hout.symm.trans hout')
  exact hreach

end StreamProg
