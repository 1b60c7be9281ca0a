import TcpDuplex.Conn.Incoming

/-!
# Two connections over one byte stream

`A` writes and `B` reads: the bytes that `A`'s socket took, in order, are what `B`'s `read_record`
works on. The stream can be cut at any byte, which `A` sees as a failing write and `B` as a failing
read, both possible at any moment. What arrives at `A` is not constrained, so pings may reach it.

The records that `B` has taken are the first records that `A` wrote (`Arrived`). With the invariants
of the two sides this gives the end-to-end order of delivery and the meaning of a graceful close.
-/

namespace TcpDuplex.Conn

open Protocol

/-- Two connections that share a session. -/
structure Link where
  cfgA : FrozenConfig
  cfgB : FrozenConfig
  gcm : Gcm
  sess : Session

/-- The environment of the sending side. -/
def Link.envA (l : Link) : Env := ⟨l.cfgA, l.gcm, l.sess⟩

/-- The environment of the receiving side. -/
def Link.envB (l : Link) : Env := ⟨l.cfgB, l.gcm, l.sess⟩

/-- The two connections, and how many bytes of the stream `B` has read. -/
structure Pair where
  a : State
  b : State
  read : ℕ

/-- What `A`'s socket took and `B` has not read. -/
def Pair.unread (p : Pair) : Bytes := p.a.hist.wire.drop p.read

/-- A step of `A`, a step of `B` that reads no record, or the next record arriving at `B`. -/
inductive PairAct where
  | a (act : Act)
  | b (act : Act)
  | arrive

/-- The result of `read_record`, which only the stream decides. -/
def Act.isRecord : Act → Bool
  | .reader (.record _ _) => true
  | _ => false

/-- One step of the two connections. -/
def pairStep (l : Link) (p : Pair) : PairAct → Option Pair
  | .a act => (step l.envA p.a act).map fun a => { p with a := a }
  | .b act => if act.isRecord then none else (step l.envB p.b act).map fun b => { p with b := b }
  | .arrive =>
    match readRecord p.unread with
    | (.ok (typ, sealed), rest) =>
      (step l.envB p.b (.reader (.record typ sealed))).map fun b =>
        { p with b := b, read := p.read + (p.unread.length - rest.length) }
    | (.error _, _) => none

/-- Both connections as constructed. -/
def Link.init (l : Link) : Pair := ⟨Conn.init l.cfgA, Conn.init l.cfgB, 0⟩

variable {l : Link} {p q : Pair}

/-! ## The two sides by themselves -/

/-- The steps of the pair: at `A`, at `B` without a record, or the next record at `B`. -/
theorem pairStep_inv {a : PairAct} (h : pairStep l p a = some q) :
    (∃ act a', step l.envA p.a act = some a' ∧ q = { p with a := a' }) ∨
    (∃ act b', step l.envB p.b act = some b' ∧
      (∀ typ sealed, act ≠ .reader (.record typ sealed)) ∧ q = { p with b := b' }) ∨
    ∃ typ sealed rest b', readRecord p.unread = (.ok (typ, sealed), rest) ∧
      step l.envB p.b (.reader (.record typ sealed)) = some b' ∧
      q = { p with b := b', read := p.read + (p.unread.length - rest.length) } := by
  cases a with
  | a act =>
      obtain ⟨a', ha, rfl⟩ := Option.map_eq_some_iff.mp h
      exact Or.inl ⟨act, a', ha, rfl⟩
  | b act =>
      simp only [pairStep] at h
      split at h
      · cases h
      · rename_i hrec
        obtain ⟨b', hb, rfl⟩ := Option.map_eq_some_iff.mp h
        refine Or.inr (Or.inl ⟨act, b', hb, fun typ sealed hact => hrec ?_, rfl⟩)
        rw [hact]
        rfl
  | arrive =>
      simp only [pairStep] at h
      split at h
      · rename_i typ sealed rest hread
        obtain ⟨b', hb, rfl⟩ := Option.map_eq_some_iff.mp h
        exact Or.inr (Or.inr ⟨typ, sealed, rest, b', hread, hb, rfl⟩)
      · cases h

/-- A run of the pair is a run of each side. -/
theorem runs_of_pairRun (h : Machine.Run (pairStep l) p q) :
    Machine.Run (step l.envA) p.a q.a ∧ Machine.Run (step l.envB) p.b q.b := by
  refine Machine.Run.invariant (I := fun q =>
    Machine.Run (step l.envA) p.a q.a ∧ Machine.Run (step l.envB) p.b q.b) ?_ h
    ⟨Machine.Run.refl _, Machine.Run.refl _⟩
  rintro q a r ⟨hA, hB⟩ hstep
  obtain ⟨act, a', ha, rfl⟩ | ⟨act, b', hb, -, rfl⟩ | ⟨typ, sealed, rest, b', -, hb, rfl⟩ :=
    pairStep_inv hstep
  · exact ⟨hA.snoc ha, hB⟩
  · exact ⟨hA, hB.snoc hb⟩
  · exact ⟨hA, hB.snoc hb⟩

/-- `A` only adds to its records and to the wire. -/
theorem hist_prefix_of_step {e : Env} {s t : State} {a : Act} (h : step e s a = some t) :
    s.hist.records <+: t.hist.records ∧ s.hist.wire <+: t.hist.wire := by
  cases step_inv h with
  | writer h =>
      cases h with
      | begin _ _ _ => exact ⟨List.prefix_append _ _, List.prefix_rfl⟩
      | sent _ _ _ => exact ⟨List.prefix_rfl, List.prefix_append _ _⟩
      | sentAll _ _ => exact ⟨List.prefix_rfl, List.prefix_append _ _⟩
      | _ => exact ⟨List.prefix_rfl, List.prefix_rfl⟩
  | sender h => cases h <;> exact ⟨List.prefix_rfl, List.prefix_rfl⟩
  | receiver h => cases h <;> exact ⟨List.prefix_rfl, List.prefix_rfl⟩
  | shutdown h => cases h <;> exact ⟨List.prefix_rfl, List.prefix_rfl⟩
  | reader h =>
      cases h with
      | @leave held _ => cases held <;> exact ⟨List.prefix_rfl, List.prefix_rfl⟩
      | _ => exact ⟨List.prefix_rfl, List.prefix_rfl⟩
  | deliver h => cases h <;> exact ⟨List.prefix_rfl, List.prefix_rfl⟩
  | _ => exact ⟨List.prefix_rfl, List.prefix_rfl⟩

/-! ## The records that have arrived -/

/-- `B` has taken exactly the first `k` records that `A` wrote. -/
structure Arrived (l : Link) (p : Pair) (k : ℕ) : Prop where
  le : k ≤ p.a.hist.records.length
  read : p.read = (streamOf (p.a.hist.records.take k)).length
  received : Received p.b (texts ((emitted l.envA p.a).take k))
  close : p.b.hist.sawClose = true →
    ∃ out ∈ (emitted l.envA p.a).take k, out.typ = kMsgClose

/-- What the stream delivers next is the next record that `A` wrote. -/
theorem next_record {k : ℕ} {typ : UInt8} {sealed rest : Bytes} (hO : Outgoing l.envA p.a)
    (hread : p.read = (streamOf (p.a.hist.records.take k)).length)
    (hnext : readRecord p.unread = (.ok (typ, sealed), rest)) :
    p.a.hist.records[k]? = some (typ, sealed) ∧
      p.unread = recordBytes typ sealed ++ rest := by
  obtain ⟨hbytes, hsize⟩ := readRecord_ok hnext
  refine ⟨?_, hbytes⟩
  have hlt : p.read < p.a.hist.wire.length := by
    have hlen := congrArg List.length hbytes
    rw [Pair.unread, List.length_drop, List.length_append, length_recordBytes] at hlen
    omega
  -- the unread bytes are a prefix of the bytes of the records from `k` on
  obtain ⟨more, hmore⟩ := hO.wire
  have hsplit : p.unread ++ more = streamOf (p.a.hist.records.drop k) := by
    have hall : streamOf (p.a.hist.records.take k) ++ streamOf (p.a.hist.records.drop k) =
        p.a.hist.wire ++ more := by
      rw [← streamOf_append, List.take_append_drop, hmore]
    calc p.unread ++ more = (p.a.hist.wire ++ more).drop p.read :=
          (List.drop_append_of_le_length hlt.le).symm
      _ = streamOf (p.a.hist.records.drop k) := by rw [← hall, hread, List.drop_left]
  cases hdrop : p.a.hist.records.drop k with
  | nil =>
      rw [hdrop, hbytes] at hsplit
      have := congrArg List.length hsplit
      simp [length_recordBytes, streamOf] at this
  | cons r rs =>
      have hr : p.a.hist.records[k]? = some r := by
        rw [← List.head?_drop, hdrop]
        rfl
      have hmem : r ∈ p.a.hist.records := List.mem_of_getElem? hr
      rw [hdrop, streamOf_cons, hbytes, List.append_assoc] at hsplit
      have hfst := readRecord_recordBytes_append typ (rest ++ more) hsize
      rw [hsplit, readRecord_recordBytes_append r.1 _ (hO.readable r hmem).1] at hfst
      rw [hr]
      simp only [Prod.mk.injEq, Except.ok.injEq] at hfst
      exact congrArg some (Prod.ext hfst.1.1 hfst.1.2)

/-- `A` moves: the first `k` records stay what they are. -/
theorem Arrived.stepA {k : ℕ} {act : Act} {a' : State} (hA : Arrived l p k)
    (h : step l.envA p.a act = some a') : Arrived l { p with a := a' } k := by
  obtain ⟨⟨more, hmore⟩, -⟩ := hist_prefix_of_step h
  have htake : a'.hist.records.take k = p.a.hist.records.take k := by
    rw [← hmore, List.take_append_of_le_length hA.le]
  have hemit : (emitted l.envA a').take k = (emitted l.envA p.a).take k := by
    rw [emitted, emitted, ← List.map_take, ← List.map_take, htake]
  refine ⟨?_, ?_, ?_, ?_⟩
  · have hle := hA.le
    have hlen := congrArg List.length hmore
    rw [List.length_append] at hlen
    exact le_trans hle (by simp only; omega)
  · rw [htake]
    exact hA.read
  · rw [hemit]
    exact hA.received
  · rw [hemit]
    exact hA.close

/-- `B` moves without a record. -/
theorem Arrived.stepB {k : ℕ} {act : Act} {b' : State} (hA : Arrived l p k) (hI : Incoming p.b)
    (hact : ∀ typ sealed, act ≠ .reader (.record typ sealed))
    (h : step l.envB p.b act = some b') : Arrived l { p with b := b' } k := by
  have hsaw : b'.hist.sawClose = p.b.hist.sawClose := sawClose_eq_of_step h hact
  exact { hA with
    received := hA.received.step hI hact h
    close := fun h' => hA.close (by rw [← hsaw]; exact h') }

/-- The next record arrives. -/
theorem Arrived.arrive {k : ℕ} {typ : UInt8} {sealed rest : Bytes} {b' : State}
    (hcb : l.cfgB.onMessage = false) (hA : Arrived l p k) (hO : Outgoing l.envA p.a)
    (hI : Incoming p.b) (hnext : readRecord p.unread = (.ok (typ, sealed), rest))
    (h : step l.envB p.b (.reader (.record typ sealed)) = some b') :
    Arrived l { p with b := b', read := p.read + (p.unread.length - rest.length) } (k + 1) := by
  obtain ⟨hget, hbytes⟩ := next_record hO hA.read hnext
  obtain ⟨hlt, -⟩ := List.getElem?_eq_some_iff.mp hget
  have htake : p.a.hist.records.take (k + 1) = p.a.hist.records.take k ++ [(typ, sealed)] := by
    rw [List.take_add_one, hget]
    rfl
  -- the message in the record, as `A` emitted it and as `B` opens it
  set out := openRecord l.envA (typ, sealed) with hout
  have hemit : (emitted l.envA p.a).take (k + 1) = (emitted l.envA p.a).take k ++ [out] := by
    rw [emitted, ← List.map_take, ← List.map_take, htake, List.map_append, List.map_singleton]
  have hopen : l.envB.sess.openSealed l.envB.gcm sealed = .ok out.pt :=
    (hO.readable (typ, sealed) (List.mem_of_getElem? hget)).2
  have hreader : ReaderTrans l.envB p.b (.record typ sealed) b' := readerStep_inv h
  refine ⟨hlt, ?_, ?_, ?_⟩
  · rw [htake, streamOf_append, List.length_append, ← hA.read, hbytes, List.length_append]
    simp [streamOf]
  · rw [hemit, texts_append]
    exact hA.received.record hI hcb hopen hreader
  · intro hsaw
    rw [hemit]
    cases hreader with
    | gotClose _ _ => exact ⟨out, List.mem_append_right _ (List.mem_singleton_self _), rfl⟩
    | _ =>
        obtain ⟨o, ho, htyp⟩ := hA.close hsaw
        exact ⟨o, List.mem_append_left _ ho, htyp⟩

/-- Both sides, and the records between them. -/
structure PairInv (l : Link) (p : Pair) : Prop where
  reachA : Reachable l.envA p.a
  reachB : Reachable l.envB p.b
  arrived : ∃ k, Arrived l p k

theorem PairInv.step {a : PairAct} (hg : l.gcm.Lawful) (hcb : l.cfgB.onMessage = false)
    (hP : PairInv l p) (h : pairStep l p a = some q) : PairInv l q := by
  obtain ⟨k, hA⟩ := hP.arrived
  have hI := incoming_reachable hP.reachB
  obtain ⟨act, a', ha, rfl⟩ | ⟨act, b', hb, hact, rfl⟩ | ⟨typ, sealed, rest, b', hnext, hb, rfl⟩ :=
    pairStep_inv h
  · exact ⟨hP.reachA.snoc ha, hP.reachB, k, hA.stepA ha⟩
  · exact ⟨hP.reachA, hP.reachB.snoc hb, k, hA.stepB hI hact hb⟩
  · exact ⟨hP.reachA, hP.reachB.snoc hb, k + 1,
      hA.arrive hcb (outgoing_reachable hg hP.reachA) hI hnext hb⟩

theorem pairInv_init (l : Link) : PairInv l l.init where
  reachA := Machine.Run.refl _
  reachB := Machine.Run.refl _
  arrived := ⟨0, Nat.zero_le _, rfl, ⟨fun _ => rfl, List.prefix_rfl, fun _ => rfl⟩, nofun⟩

theorem pairInv_run (hg : l.gcm.Lawful) (hcb : l.cfgB.onMessage = false)
    (h : Machine.Run (pairStep l) l.init p) : PairInv l p :=
  Machine.Run.invariant (I := PairInv l) (fun _ _ _ hI ha => hI.step hg hcb ha) h (pairInv_init l)

/-! ## Ordered delivery -/

/-- The text payloads of what `A` has emitted were accepted, in that order. -/
theorem Outgoing.isPrefix_texts_emitted {e : Env} {s : State} (hO : Outgoing e s) :
    texts (emitted e s) <+: s.hist.accepted := by
  rw [hO.accepted, texts_append]
  rcases hO.written.prefix_or_closing with h | h
  · exact (isPrefix_texts h).trans (List.prefix_append _ _)
  · rw [h.last, texts_append, texts_of_ne (show kMsgClose ≠ kMsgText by decide), List.append_nil]
    exact List.prefix_append _ _

/-- **Ordered, loss-free, duplicate-free delivery**: what `B`'s calls have popped and what is still
queued is a prefix of what `A` accepted. -/
theorem received_prefix_accepted (hg : l.gcm.Lawful) (hcb : l.cfgB.onMessage = false)
    (h : Machine.Run (pairStep l) l.init p) :
    p.b.hist.popped ++ p.b.recvQ <+: p.a.hist.accepted := by
  obtain ⟨hreachA, hreachB, k, hA⟩ := pairInv_run hg hcb h
  have htaken : p.b.hist.pushed <+: texts ((emitted l.envA p.a).take k) := hA.received.pushed
  have hall : texts ((emitted l.envA p.a).take k) <+: texts (emitted l.envA p.a) :=
    isPrefix_texts (List.take_prefix _ _)
  rw [(incoming_reachable hreachB).queue]
  exact (htaken.trans hall).trans (outgoing_reachable hg hreachA).isPrefix_texts_emitted

/-- A link with the default configurations. -/
def shortLink : Link where
  cfgA := freezeConfig none
  cfgB := freezeConfig none
  gcm := shortGcm
  sess := ⟨List.replicate 32 0⟩

/-- The message `[k]`, of call `i` of `send_for` at `A`, goes to `recv_q_` at `B`. -/
def message (i : ℕ) (k : UInt8) : List PairAct :=
  [.a (.callSend i [k] false), .a (.sender i), .a (.sender i), .a (.writer .none),
    .a (.writer (.nonce (some (nonceEndingIn k)))), .a (.writer (.sent 34)), .arrive,
    .b (.reader .none), .b (.reader .none)]

/-- Two messages, and a call of `receive_for` that takes the first one. -/
def twoMessages : List PairAct :=
  message 0 7 ++ message 1 8 ++ [.b (.callReceive 0 false), .b (.receiver 0), .b (.receiver 0)]

theorem two_messages_received :
    ∃ p, Machine.Run (pairStep shortLink) shortLink.init p ∧ p.b.hist.popped = [[7]] ∧
      p.b.recvQ = [[8]] ∧ p.b.hist.popped ++ p.b.recvQ <+: p.a.hist.accepted := by
  obtain ⟨p, hrun, hpopped, hq⟩ : ∃ p, Machine.Run (pairStep shortLink) shortLink.init p ∧
      p.b.hist.popped = [[7]] ∧ p.b.recvQ = [[8]] :=
    Machine.exists_run_of_exec twoMessages ⟨_, rfl, rfl, rfl⟩
  exact ⟨p, hrun, hpopped, hq, received_prefix_accepted shortGcm_lawful rfl hrun⟩

/-! ## Graceful close -/

/-- A message that ends the sequence of emitted ones is Close, and everything accepted was
emitted. -/
theorem Outgoing.closing_of_mem {e : Env} {s : State} {out : Outbound} (hO : Outgoing e s)
    (hmem : out ∈ emitted e s) (htyp : out.typ = kMsgClose) : Closing s (emitted e s) := by
  rcases hO.written.prefix_or_closing with h | h
  · exact absurd htyp (hO.noClose out (List.mem_append_left _ (h.subset hmem)))
  · exact h

/-- Close is written at most once, and last. -/
theorem Outgoing.close_last {e : Env} {s : State} (hO : Outgoing e s) {l₁ l₂ : List (UInt8 × Bytes)}
    {r : UInt8 × Bytes} (hrec : s.hist.records = l₁ ++ r :: l₂) (hr : r.1 = kMsgClose) :
    l₂ = [] ∧ ∀ r' ∈ l₁, r'.1 ≠ kMsgClose := by
  have hmap : emitted e s = l₁.map (openRecord e) ++ openRecord e r :: l₂.map (openRecord e) := by
    rw [emitted, hrec, List.map_append, List.map_cons]
  have hclosing := hO.closing_of_mem (show openRecord e r ∈ emitted e s by simp [hmap]) hr
  have hne : ∀ o ∈ s.hist.taken, o.typ ≠ kMsgClose := fun o ho =>
    hO.noClose o (List.mem_append_left _ ho)
  have hsplit := hclosing.last.symm.trans hmap
  rcases List.eq_nil_or_concat (l₂.map (openRecord e)) with hnil | ⟨init, last, hconcat⟩
  · rw [hnil] at hsplit
    obtain ⟨htaken, -⟩ := List.append_inj' hsplit rfl
    refine ⟨List.map_eq_nil_iff.mp hnil, fun r' hr' => ?_⟩
    exact hne (openRecord e r') (htaken ▸ List.mem_map_of_mem hr')
  · -- a record behind Close would make Close one of the messages taken
    rw [hconcat, List.concat_eq_append, ← List.cons_append, ← List.append_assoc] at hsplit
    obtain ⟨htaken, -⟩ := List.append_inj' hsplit rfl
    exact absurd hr (hne (openRecord e r) (by simp [htaken]))

/-- With `stop_send_` set nothing more is accepted. -/
theorem accepted_of_run {e : Env} {s t : State} (hstop : s.stopSend = true)
    (h : Machine.Run (step e) s t) : t.hist.accepted = s.hist.accepted := by
  have hinv : t.stopSend = true ∧ t.hist.accepted = s.hist.accepted := by
    refine Machine.Run.invariant (I := fun t =>
      t.stopSend = true ∧ t.hist.accepted = s.hist.accepted) ?_ h ⟨hstop, rfl⟩
    rintro t a u ⟨ht, hacc⟩ ha
    cases step_inv ha with
    | sender h =>
        cases h with
        | push _ _ hopen _ =>
            rw [ht] at hopen
            cases hopen
        | _ => exact ⟨ht, hacc⟩
    | receiver h => cases h <;> exact ⟨ht, hacc⟩
    | shutdown h =>
        cases h with
        | setStop _ _ => exact ⟨rfl, hacc⟩
        | _ => exact ⟨ht, hacc⟩
    | writer h => cases h <;> exact ⟨ht, hacc⟩
    | reader h =>
        cases h with
        | @leave held _ => cases held <;> exact ⟨ht, hacc⟩
        | _ => exact ⟨ht, hacc⟩
    | deliver h => cases h <;> exact ⟨ht, hacc⟩
    | _ => exact ⟨ht, hacc⟩
  exact hinv.2

/-- When `B` has seen Close, it has appended everything that `A` accepted, and `A` accepts nothing
more. -/
theorem Arrived.complete {k : ℕ} (hA : Arrived l p k) (hO : Outgoing l.envA p.a)
    (hsaw : p.b.hist.sawClose = true) :
    p.b.hist.pushed = p.a.hist.accepted ∧ p.a.stopSend = true := by
  obtain ⟨out, hmem, htyp⟩ := hA.close hsaw
  have hclosing := hO.closing_of_mem (List.mem_of_mem_take hmem) htyp
  -- Close is the last message, so all of them have arrived
  have hall : (emitted l.envA p.a).take k = emitted l.envA p.a := by
    refine List.take_of_length_le ?_
    rw [hclosing.last, List.length_append, List.length_singleton]
    by_contra hlt
    rw [hclosing.last, List.take_append_of_le_length (by omega)] at hmem
    exact hO.noClose out (List.mem_append_left _ (List.mem_of_mem_take hmem)) htyp
  refine ⟨?_, hclosing.stopped⟩
  rw [hA.received.close hsaw, hall, hclosing.last, hO.accepted, hclosing.drained, List.append_nil,
    texts_append, texts_of_ne (show kMsgClose ≠ kMsgText by decide), List.append_nil]

/-- **A graceful close loses nothing**: `A` writes at most one Close record, as its last; once `B`
has taken it, what `B` has appended is exactly what `A` ever accepts, and from then on `B`'s calls
return what is queued, in order, and then fail with the one error `abort_recv` recorded. -/
theorem graceful_close (hg : l.gcm.Lawful) (hcb : l.cfgB.onMessage = false)
    (h : Machine.Run (pairStep l) l.init p) :
    (∀ l₁ r l₂, p.a.hist.records = l₁ ++ r :: l₂ → r.1 = kMsgClose →
      l₂ = [] ∧ ∀ r' ∈ l₁, r'.1 ≠ kMsgClose) ∧
    (p.b.hist.sawClose = true → ∀ q, Machine.Run (pairStep l) p q →
      p.b.hist.popped ++ p.b.recvQ = q.a.hist.accepted ∧
        ∃ payloads m n, Drained p.b q.b payloads m n) := by
  obtain ⟨hreachA, hreachB, k, hA⟩ := pairInv_run hg hcb h
  have hO := outgoing_reachable hg hreachA
  have hI := incoming_reachable hreachB
  refine ⟨fun l₁ r l₂ hrec hr => hO.close_last hrec hr, fun hsaw q hpq => ?_⟩
  obtain ⟨hrunA, hrunB⟩ := runs_of_pairRun hpq
  obtain ⟨hpushed, hstop⟩ := hA.complete hO hsaw
  refine ⟨?_, drained_of_run hcb hI hsaw hrunB⟩
  rw [hI.queue, hpushed, accepted_of_run hstop hrunA]

/-- Behind the messages `A` shuts down and its Close record arrives. -/
def closeMessage : List PairAct :=
  [.a (.callShutdown false), .a .shutdown, .a .shutdown, .a .shutdown, .a (.writer .none),
    .a (.writer .none), .a (.writer (.nonce (some (nonceEndingIn 0)))),
    .a (.writer (.sent 33)), .arrive]

theorem close_after_two_messages :
    ∃ p, Machine.Run (pairStep shortLink) shortLink.init p ∧ p.b.hist.sawClose = true ∧
      p.a.hist.accepted = [[7], [8]] ∧ p.b.hist.popped ++ p.b.recvQ = [[7], [8]] := by
  obtain ⟨p, hrun, hsaw, hacc⟩ : ∃ p, Machine.Run (pairStep shortLink) shortLink.init p ∧
      p.b.hist.sawClose = true ∧ p.a.hist.accepted = [[7], [8]] :=
    Machine.exists_run_of_exec (twoMessages ++ closeMessage) ⟨_, rfl, rfl, rfl⟩
  have hclose := (graceful_close shortGcm_lawful rfl hrun).2 hsaw p (Machine.Run.refl p)
  exact ⟨p, hrun, hsaw, hacc, by rw [hclose.1, hacc]⟩

end TcpDuplex.Conn
