import TcpDuplex.Lib.Runs
import TcpDuplex.Lib.StreamProg

/-!
# Two programs that talk to each other

A `Duplex` is two stream programs and the bytes under way in each direction. A step answers the call
that one of the two waits for: a `recv` takes bytes from the front of what is under way to this side, a
`send` puts bytes behind what is under way to the other. The streams are reliable in this sense only:
which side moves next, how many bytes a call moves and whether it fails is left to the run, within the
rules.

A program that returned with a value in `done` may go on to send other things. These bytes are kept
apart from its own in `behind`.

`Ran` and `Conserved` are what every run keeps (`ran_of_grun`), and `grun_left`, `grun_right` turn a
run of one program alone into a run of the two.
-/

namespace StreamProg

open Machine

variable {ε α β : Type}

/-- One side: its program, what it received and sent so far, and what it sent after its program. -/
structure Endpoint (ε α : Type) where
  prog : StreamProg ε α
  consumed : Bytes := []
  produced : Bytes := []
  behind : Bytes := []

/-- What happens at one side: its call is answered, or it sends more behind its program. -/
inductive Move (ε : Type) where
  | answer (ans : Answer ε)
  | more (data : Bytes)

namespace Endpoint

/-- The side after a move, what is then still under way to it, and what it sent. -/
def step (done : α → Bool) (e : Endpoint ε α) (inbox : Bytes) :
    Move ε → Option (Endpoint ε α × Bytes × Bytes)
  | .answer ans =>
    match e.prog with
    | .ret _ => none
    | .recv _ next =>
      if ans.bytes <+: inbox then
        some ({ e with prog := next ans, consumed := e.consumed ++ ans.bytes },
          inbox.drop ans.bytes.length, [])
      else none
    | .send _ next =>
      some ({ e with prog := next ans, produced := e.produced ++ ans.bytes }, inbox, ans.bytes)
  | .more data =>
    match e.prog with
    | .ret a => if done a then some ({ e with behind := e.behind ++ data }, inbox, data) else none
    | .recv _ _ => none
    | .send _ _ => none

/-- The rules allow the move. -/
def Allows (R : Rules ε) (e : Endpoint ε α) : Move ε → Prop
  | .answer ans =>
    match e.prog with
    | .ret _ => True
    | .recv len _ => R.recv len ans
    | .send data _ => R.send data ans
  | .more _ => True

/-- The side has run its program from `p` on, and sent nothing more before that returned. -/
structure Ran (R : Rules ε) (done : α → Bool) (p : StreamProg ε α) (e : Endpoint ε α) : Prop where
  reaches : Reaches R p e.consumed e.produced e.prog
  behind : e.behind = [] ∨ ∃ a, e.prog = .ret a ∧ done a = true

variable {R : Rules ε} {done : α → Bool} {p : StreamProg ε α} {e e' : Endpoint ε α}
  {m : Move ε} {inbox inbox' sent : Bytes}

/-- **One move**: the side has run one call further, it took what it received from the front of the
inbox, and what it sent came behind all that it had sent before. -/
theorem Ran.step (h : e.Ran R done p) (hm : e.Allows R m)
    (hstep : e.step done inbox m = some (e', inbox', sent)) :
    e'.Ran R done p ∧ e'.consumed ++ inbox' = e.consumed ++ inbox ∧
      e'.produced ++ e'.behind = e.produced ++ e.behind ++ sent := by
  obtain ⟨hreach, hbehind⟩ := h
  cases m with
  | answer ans =>
      cases hprog : e.prog with
      | ret a => simp [Endpoint.step, hprog] at hstep
      | recv len next =>
          simp only [Endpoint.step, hprog, Option.ite_none_right_eq_some, Option.some.injEq,
            Prod.mk.injEq] at hstep
          obtain ⟨hfront, rfl, rfl, rfl⟩ := hstep
          simp only [Allows, hprog] at hm
          rw [hprog] at hreach hbehind
          have hnext := hreach.trans (.recv hm (.refl _))
          rw [List.append_nil, List.append_nil] at hnext
          refine ⟨⟨hnext, .inl ?_⟩, ?_, by simp⟩
          · exact hbehind.resolve_right fun ⟨a, hret, _⟩ => by cases hret
          · rw [List.append_assoc, List.prefix_iff_eq_append.mp hfront]
      | send data next =>
          simp only [Endpoint.step, hprog, Option.some.injEq, Prod.mk.injEq] at hstep
          obtain ⟨rfl, rfl, rfl⟩ := hstep
          simp only [Allows, hprog] at hm
          rw [hprog] at hreach hbehind
          have hnext := hreach.trans (.send hm (.refl _))
          rw [List.append_nil, List.append_nil] at hnext
          have hnone : e.behind = [] :=
            hbehind.resolve_right fun ⟨a, hret, _⟩ => by cases hret
          exact ⟨⟨hnext, .inl hnone⟩, rfl, by simp [hnone]⟩
  | more data =>
      cases hprog : e.prog with
      | ret a =>
          simp only [Endpoint.step, hprog, Option.ite_none_right_eq_some, Option.some.injEq,
            Prod.mk.injEq] at hstep
          obtain ⟨hdone, rfl, rfl, rfl⟩ := hstep
          rw [hprog] at hreach
          exact ⟨⟨hreach, .inr ⟨a, rfl, hdone⟩⟩, rfl, by simp⟩
      | recv len next => simp [Endpoint.step, hprog] at hstep
      | send data next => simp [Endpoint.step, hprog] at hstep

end Endpoint

/-- Two sides, and what is under way to each of them. -/
structure Duplex (ε α β : Type) where
  left : Endpoint ε α
  right : Endpoint ε β
  toLeft : Bytes := []
  toRight : Bytes := []

/-- A move of one of the sides. -/
inductive Event (ε : Type) where
  | left (m : Move ε)
  | right (m : Move ε)

namespace Duplex

/-- The move of one side; what it sent is under way to the other. -/
def step (doneL : α → Bool) (doneR : β → Bool) (s : Duplex ε α β) :
    Event ε → Option (Duplex ε α β)
  | .left m =>
    (s.left.step doneL s.toLeft m).map fun r =>
      { left := r.1, right := s.right, toLeft := r.2.1, toRight := s.toRight ++ r.2.2 }
  | .right m =>
    (s.right.step doneR s.toRight m).map fun r =>
      { left := s.left, right := r.1, toLeft := s.toLeft ++ r.2.2, toRight := r.2.1 }

/-- The rules allow the move. -/
def Allows (R : Rules ε) (s : Duplex ε α β) : Event ε → Prop
  | .left m => s.left.Allows R m
  | .right m => s.right.Allows R m

/-- Both sides at the start of their programs. -/
def start (p : StreamProg ε α) (q : StreamProg ε β) : Duplex ε α β where
  left := { prog := p }
  right := { prog := q }

/-- What a side received and what is still under way to it is what the other side sent. -/
structure Conserved (s : Duplex ε α β) : Prop where
  left : s.left.consumed ++ s.toLeft = s.right.produced ++ s.right.behind
  right : s.right.consumed ++ s.toRight = s.left.produced ++ s.left.behind

variable {R : Rules ε} {doneL : α → Bool} {doneR : β → Bool} {p : StreamProg ε α}
  {q : StreamProg ε β} {s t : Duplex ε α β} {ev : Event ε}

theorem ran_of_step (hev : s.Allows R ev) (hstep : s.step doneL doneR ev = some t)
    (hleft : s.left.Ran R doneL p) (hright : s.right.Ran R doneR q) (hcons : s.Conserved) :
    t.left.Ran R doneL p ∧ t.right.Ran R doneR q ∧ t.Conserved := by
  obtain ⟨hcl, hcr⟩ := hcons
  cases ev with
  | left m =>
      obtain ⟨⟨e', inbox', sent⟩, hmove, rfl⟩ := Option.map_eq_some_iff.mp hstep
      obtain ⟨hran, hin, hout⟩ := hleft.step hev hmove
      refine ⟨hran, hright, hin.trans hcl, ?_⟩
      dsimp only
      rw [hout, ← List.append_assoc, hcr]
  | right m =>
      obtain ⟨⟨e', inbox', sent⟩, hmove, rfl⟩ := Option.map_eq_some_iff.mp hstep
      obtain ⟨hran, hin, hout⟩ := hright.step hev hmove
      refine ⟨hleft, hran, ?_, hin.trans hcr⟩
      dsimp only
      rw [hout, ← List.append_assoc, hcl]

/-- **Every run** of the two is a run of each of them, and loses no byte between them. -/
theorem ran_of_grun (h : GRun (step doneL doneR) (Allows R) (start p q) s) :
    s.left.Ran R doneL p ∧ s.right.Ran R doneR q ∧ s.Conserved := by
  refine GRun.invariant (I := fun s => s.left.Ran R doneL p ∧ s.right.Ran R doneR q ∧ s.Conserved)
    ?_ h ⟨⟨.refl _, .inl rfl⟩, ⟨.refl _, .inl rfl⟩, rfl, rfl⟩
  intro s ev t ⟨hleft, hright, hcons⟩ hev hstep
  exact ran_of_step hev hstep hleft hright hcons

/-! ## Runs of one side -/

variable {c o rest : Bytes}

/-- A run of the left program, for which everything that it receives is under way. -/
theorem grun_left {p p' : StreamProg ε α} (h : Reaches R p c o p') {s : Duplex ε α β}
    (hprog : s.left.prog = p) (hbox : s.toLeft = c ++ rest) :
    GRun (step doneL doneR) (Allows R) s
      { left := { s.left with
          prog := p', consumed := s.left.consumed ++ c, produced := s.left.produced ++ o },
        right := s.right, toLeft := rest, toRight := s.toRight ++ o } := by
  induction h generalizing s with
  | refl p =>
      subst hprog hbox
      simp only [List.append_nil]
      exact GRun.refl _
  | @recv len next ans c o p' hans _ ih =>
      rw [List.append_assoc] at hbox
      have hfirst : s.step doneL doneR (.left (.answer ans)) = some
          { left := { s.left with prog := next ans, consumed := s.left.consumed ++ ans.bytes },
            right := s.right, toLeft := c ++ rest, toRight := s.toRight } := by
        simp [step, Endpoint.step, hprog, hbox]
      have hallowed : Allows R s (.left (.answer ans)) := by
        simpa only [Allows, Endpoint.Allows, hprog] using hans
      have hlater := ((GRun.refl s).snoc hallowed hfirst).trans (ih rfl rfl)
      simpa only [List.append_assoc] using hlater
  | @send data next ans c o p' hans _ ih =>
      have hfirst : s.step doneL doneR (.left (.answer ans)) = some
          { left := { s.left with prog := next ans, produced := s.left.produced ++ ans.bytes },
            right := s.right, toLeft := c ++ rest, toRight := s.toRight ++ ans.bytes } := by
        simp [step, Endpoint.step, hprog, hbox]
      have hallowed : Allows R s (.left (.answer ans)) := by
        simpa only [Allows, Endpoint.Allows, hprog] using hans
      have hlater := ((GRun.refl s).snoc hallowed hfirst).trans (ih rfl rfl)
      simpa only [List.append_assoc] using hlater

/-- The same two sides, seen from the other end. -/
def swap (s : Duplex ε α β) : Duplex ε β α where
  left := s.right
  right := s.left
  toLeft := s.toRight
  toRight := s.toLeft

theorem grun_swap (h : GRun (step doneL doneR) (Allows R) s t) :
    GRun (step doneR doneL) (Allows R) s.swap t.swap := by
  induction h with
  | refl => exact GRun.refl _
  | tail _ hlast ih =>
      obtain ⟨ev, hev, hstep⟩ := hlast
      cases ev with
      | left m =>
          obtain ⟨r, hmove, rfl⟩ := Option.map_eq_some_iff.mp hstep
          exact ih.snoc (a := .right m) hev (Option.map_eq_some_iff.mpr ⟨r, hmove, rfl⟩)
      | right m =>
          obtain ⟨r, hmove, rfl⟩ := Option.map_eq_some_iff.mp hstep
          exact ih.snoc (a := .left m) hev (Option.map_eq_some_iff.mpr ⟨r, hmove, rfl⟩)

/-- A run of the right program, for which everything that it receives is under way. -/
theorem grun_right {q q' : StreamProg ε β} (h : Reaches R q c o q') {s : Duplex ε α β}
    (hprog : s.right.prog = q) (hbox : s.toRight = c ++ rest) :
    GRun (step doneL doneR) (Allows R) s
      { left := s.left,
        right := { s.right with
          prog := q', consumed := s.right.consumed ++ c, produced := s.right.produced ++ o },
        toLeft := s.toLeft ++ o, toRight := rest } :=
  grun_swap (grun_left (s := s.swap) h hprog hbox)

end Duplex

end StreamProg
