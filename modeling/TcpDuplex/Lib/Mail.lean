import TcpDuplex.Lib.Runs

/-!
# Two programs that exchange messages

A `User` is a program that has nothing to do with its peer but to send and to receive whole messages. Its
state says which call comes next, and it goes on with what the call returned.

`Posts` is two users with a queue of messages in each direction. A message that was sent is received in its
turn or not at all, and a call may fail at any time. This is all that a user needs to know of a connection.
-/

namespace Mail

open Machine

variable {α ε σ τ ι κ : Type}

/-- A program that sends and receives messages of type `α`; a failed call returns an `ε`. -/
structure User (α ε σ ι : Type) where
  /-- What the next call sends, if it is a `send`. -/
  outgoing : σ → Option α
  /-- Is `receive` the next call? -/
  waiting : σ → Bool
  sent : σ → Option ε → σ
  received : σ → Except ε α → σ
  /-- A step that is not a call. -/
  own : σ → ι → Option σ

/-- One side: the user, the messages under way to it, and what its failed calls returned. -/
structure Post (α ε σ : Type) where
  user : σ
  inbox : List α := []
  errors : List ε := []

/-- What a side does next. -/
inductive Move (ε ι : Type) where
  | own (i : ι)
  | send
  | sendFails (ec : ε)
  | receive
  | receiveFails (ec : ε)

/-- The side after a move, and the messages it sent. -/
def Post.step (U : User α ε σ ι) (p : Post α ε σ) : Move ε ι → Option (Post α ε σ × List α)
  | .own i => (U.own p.user i).map fun u => ({ p with user := u }, [])
  | .send => (U.outgoing p.user).map fun msg => ({ p with user := U.sent p.user none }, [msg])
  | .sendFails ec =>
    (U.outgoing p.user).map fun _ =>
      ({ p with user := U.sent p.user (some ec), errors := p.errors ++ [ec] }, [])
  | .receive =>
    match p.inbox with
    | [] => none
    | msg :: rest =>
      if U.waiting p.user then
        some ({ p with user := U.received p.user (.ok msg), inbox := rest }, [])
      else none
  | .receiveFails ec =>
    if U.waiting p.user then
      some ({ p with user := U.received p.user (.error ec), errors := p.errors ++ [ec] }, [])
    else none

/-- More messages are under way. -/
def Post.deliver (p : Post α ε σ) (msgs : List α) : Post α ε σ := { p with inbox := p.inbox ++ msgs }

/-- The two sides. -/
structure Posts (α ε σ τ : Type) where
  left : Post α ε σ
  right : Post α ε τ

/-- A move of one side; what it sent is under way to the other. -/
def step (U : User α ε σ ι) (V : User α ε τ κ) (m : Posts α ε σ τ) :
    Move ε ι ⊕ Move ε κ → Option (Posts α ε σ τ)
  | .inl a => (m.left.step U a).map fun r => ⟨r.1, m.right.deliver r.2⟩
  | .inr a => (m.right.step V a).map fun r => ⟨m.left.deliver r.2, r.1⟩

/-- Both users at their start, with nothing under way. -/
def start (u : σ) (v : τ) : Posts α ε σ τ := ⟨{ user := u }, { user := v }⟩

/-- The moves of a side. -/
inductive PostTrans (U : User α ε σ ι) (p : Post α ε σ) : Post α ε σ → List α → Prop where
  | own {i u} (hown : U.own p.user i = some u) : PostTrans U p { p with user := u } []
  | send {msg} (hout : U.outgoing p.user = some msg) :
      PostTrans U p { p with user := U.sent p.user none } [msg]
  | sendFails {msg} (ec : ε) (hout : U.outgoing p.user = some msg) :
      PostTrans U p { p with user := U.sent p.user (some ec), errors := p.errors ++ [ec] } []
  | receive {msg rest} (hin : p.inbox = msg :: rest) (hwait : U.waiting p.user = true) :
      PostTrans U p { p with user := U.received p.user (.ok msg), inbox := rest } []
  | receiveFails (ec : ε) (hwait : U.waiting p.user = true) :
      PostTrans U p { p with user := U.received p.user (.error ec), errors := p.errors ++ [ec] } []

variable {U : User α ε σ ι} {V : User α ε τ κ}

theorem postTrans_of_step {p q : Post α ε σ} {a : Move ε ι} {msgs : List α}
    (h : p.step U a = some (q, msgs)) : PostTrans U p q msgs := by
  cases a with
  | own i =>
    obtain ⟨u, hown, hq⟩ := Option.map_eq_some_iff.mp h
    cases hq
    exact .own hown
  | send =>
    obtain ⟨msg, hout, hq⟩ := Option.map_eq_some_iff.mp h
    cases hq
    exact .send hout
  | sendFails ec =>
    obtain ⟨msg, hout, hq⟩ := Option.map_eq_some_iff.mp h
    cases hq
    exact .sendFails ec hout
  | receive =>
    simp only [Post.step] at h
    split at h
    · cases h
    · rename_i msg rest hin
      split at h
      · rename_i hwait
        cases h
        exact .receive hin hwait
      · cases h
  | receiveFails ec =>
    simp only [Post.step] at h
    split at h
    · rename_i hwait
      cases h
      exact .receiveFails ec hwait
    · cases h

theorem PostTrans.errors_subset {p q : Post α ε σ} {msgs : List α} (h : PostTrans U p q msgs) :
    p.errors ⊆ q.errors := by
  cases h with
  | sendFails _ _ => exact List.subset_append_left _ _
  | receiveFails _ _ => exact List.subset_append_left _ _
  | _ => exact List.Subset.refl _

/-- A step of the two is a move of one of them. -/
theorem step_cases {m m' : Posts α ε σ τ} {a : Move ε ι ⊕ Move ε κ} (h : step U V m a = some m') :
    (∃ p msgs, PostTrans U m.left p msgs ∧ m' = ⟨p, m.right.deliver msgs⟩) ∨
      ∃ p msgs, PostTrans V m.right p msgs ∧ m' = ⟨m.left.deliver msgs, p⟩ := by
  cases a with
  | inl a =>
    obtain ⟨⟨p, msgs⟩, hp, rfl⟩ := Option.map_eq_some_iff.mp h
    exact .inl ⟨p, msgs, postTrans_of_step hp, rfl⟩
  | inr a =>
    obtain ⟨⟨p, msgs⟩, hp, rfl⟩ := Option.map_eq_some_iff.mp h
    exact .inr ⟨p, msgs, postTrans_of_step hp, rfl⟩

/-- What a side does next: nothing, or one move. -/
def Moves (U : User α ε σ ι) (p p' : Post α ε σ) (msgs : List α) : Prop :=
  (p' = p ∧ msgs = []) ∨ ∃ a, p.step U a = some (p', msgs)

theorem deliver_nil (p : Post α ε σ) : p.deliver [] = p := by
  rw [Post.deliver, List.append_nil]

theorem run_of_moves_left {m : Posts α ε σ τ} {p : Post α ε σ} {msgs : List α}
    (h : Moves U m.left p msgs) : Run (step U V) m ⟨p, m.right.deliver msgs⟩ := by
  rcases h with ⟨rfl, rfl⟩ | ⟨a, ha⟩
  · rw [deliver_nil]
    exact Run.refl m
  · exact (Run.refl m).snoc (a := .inl a) (Option.map_eq_some_iff.mpr ⟨_, ha, rfl⟩)

theorem run_of_moves_right {m : Posts α ε σ τ} {p : Post α ε τ} {msgs : List α}
    (h : Moves V m.right p msgs) : Run (step U V) m ⟨m.left.deliver msgs, p⟩ := by
  rcases h with ⟨rfl, rfl⟩ | ⟨a, ha⟩
  · rw [deliver_nil]
    exact Run.refl m
  · exact (Run.refl m).snoc (a := .inr a) (Option.map_eq_some_iff.mpr ⟨_, ha, rfl⟩)

end Mail
