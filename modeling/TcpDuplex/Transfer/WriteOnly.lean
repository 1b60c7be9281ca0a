import TcpDuplex.Transfer.Verified

/-!
# A fresh receive and the sink's `ReaderAt`

With `resume_offset` 0 there is nothing to read back, so it should not matter whether the sink can be
read. The two attempts run in lock step, on the same results of the same calls, until an empty offer
is accepted: then `resume_offset == meta.size`, the digest is computed only if the sink is a `ReaderAt`
and is left all zero otherwise, and the two replies to the peer's Done differ.
-/

namespace TcpDuplex.Transfer

open Machine

variable {e : RecvEnv}

/-- The attempt on a sink that is, or is not, a `ReaderAt`. -/
def RecvEnv.onSink (e : RecvEnv) (readable : Bool) : RecvEnv := { e with readable := readable }

/-- What an attempt returned: error code, metadata and `written_out`. -/
def RecvPc.result : RecvPc → Option (ErrorCode × Meta × ℤ)
  | .ret err out written => some (err, out, written)
  | _ => none

/-- What can be seen of an attempt: the reply frames, the writes and the result. -/
def RecvState.observed (s : RecvState) :
    List Bytes × List (ℤ × Bytes) × Option (ErrorCode × Meta × ℤ) :=
  (s.sent, s.writes, s.pc.result)

/-- What can be seen when, from `s` on, the calls return `evs`; `none` if the attempt does not make
these calls. -/
def observe (e : RecvEnv) (s : RecvState) (evs : List RecvEv) :
    Option (List Bytes × List (ℤ × Bytes) × Option (ErrorCode × Meta × ℤ)) :=
  (exec (recvStep e) s evs).map RecvState.observed

/-- The calls of an attempt that accepts an empty offer and answers the Done for it. -/
def AnswersEmpty (e : RecvEnv) (evs : List RecvEv) : Prop :=
  ∃ offer m ec done dec ec',
    evs = [.received (.ok offer), .sent ec, .received (.ok done), .sent ec'] ∧
      onOffer e offer = .accept m ∧ m.size = 0 ∧ ec.failed = false ∧
      decodeFrame done = .ok dec ∧ dec.typ = kTypeDone ∧ dec.id = m.id ∧ ec'.failed = false

/-! ## In lock step -/

/-- The answer to the Offer is out. -/
def RecvPc.Begun : RecvPc → Prop
  | .offer | .accept _ => False
  | _ => True

theorem Onward.begun {m : Meta} {w : ℤ} {pc : RecvPc} (h : Onward e m w pc) : pc.Begun := by
  cases h <;> trivial

theorem begun_onDone (m : Meta) (written : ℤ) (sum : Hash) (msg : Bytes) :
    (onDone m written sum msg).Begun := by
  have h := onDone_outcome m written sum msg
  generalize onDone m written sum msg = pc at h ⊢
  cases h <;> trivial

theorem begun_onChunk (m : Meta) (hw : HashingWriter) (written : ℤ) (since : ℕ) (msg : Bytes) :
    (onChunk e m hw written since msg).Begun := by
  have h := onChunk_outcome e m hw written since msg
  generalize onChunk e m hw written since msg = pc at h ⊢
  cases h <;> trivial

theorem RecvPc.Begun.step {s t : RecvState} {ev : RecvEv} (h : s.pc.Begun)
    (hstep : recvStep e s ev = some t) : t.pc.Begun := by
  cases recvTrans_of_step hstep with
  | lost => trivial
  | message msg hpc =>
    generalize s.pc = pc at h hpc ⊢
    cases pc with
    | offer => cases h
    | doneAll => exact begun_onDone ..
    | chunk => exact begun_onChunk ..
    | done => exact begun_onDone ..
    | _ => cases hpc
  | sendFailed msg ec hpc _ =>
    generalize s.pc = pc at h hpc ⊢
    cases pc with
    | reject => trivial
    | accept => cases h
    | abort => trivial
    | ack => trivial
    | reply => trivial
    | _ => cases hpc
  | sent msg ec hpc _ =>
    generalize s.pc = pc at h hpc ⊢
    cases pc with
    | reject => trivial
    | accept => cases h
    | abort => trivial
    | ack m hw written => exact (onward_chunkHead e m hw written 0).begun
    | reply => trivial
    | _ => cases hpc
  | hashAllFailed => trivial
  | hashAll m => exact (onward_hashAllHead e m _ _).begun
  | hashPrefixFailed => trivial
  | hashPrefix m => exact (onward_hashPrefixHead e m _ _).begun
  | writeFailed => trivial
  | wrote m =>
    rw [RecvState.report_pc]
    exact (onward_afterWrite e m _ _ _).begun

/-- Behind the answer to the Offer the code does not ask for the `ReaderAt` again. -/
theorem recvStep_onSink_of_begun {s : RecvState} (h : s.pc.Begun) (b b' : Bool) (ev : RecvEv) :
    recvStep (e.onSink b) s ev = recvStep (e.onSink b') s ev := by
  obtain ⟨pc, store, received, sent, writes, hashed, progress⟩ := s
  cases pc with
  | offer => cases h
  | accept m => cases h
  | _ =>
    cases ev with
    | received r => cases r <;> rfl
    | _ => rfl

theorem observe_cons (s : RecvState) (ev : RecvEv) (evs : List RecvEv) :
    observe e s (ev :: evs) = (recvStep e s ev).bind fun t => observe e t evs := by
  rw [observe, exec]
  cases recvStep e s ev <;> rfl

theorem observe_onSink_of_begun (evs : List RecvEv) {s : RecvState} (h : s.pc.Begun) (b b' : Bool) :
    observe (e.onSink b) s evs = observe (e.onSink b') s evs := by
  induction evs generalizing s with
  | nil => rfl
  | cons ev evs ih =>
    rw [observe_cons, observe_cons, recvStep_onSink_of_begun h b b']
    cases hstep : recvStep (e.onSink b') s ev with
    | none => rfl
    | some t => exact ih (h.step hstep)

/-- An attempt that does not wait takes no message. -/
theorem recvStep_received_of_not_waiting {s : RecvState} {r : Except ErrorCode Bytes}
    (h : s.pc.waiting e = none) : recvStep e s (.received r) = none := by
  cases r <;> simp [recvStep, h]

/-- A returned attempt shows nothing more. -/
theorem observe_ret_cons {s : RecvState} {err : ErrorCode} {out : Meta} {w : ℤ}
    (h : s.pc = .ret err out w) (ev : RecvEv) (evs : List RecvEv) :
    observe e s (ev :: evs) = none := by
  rw [observe_cons]
  cases hstep : recvStep e s ev with
  | none => rfl
  | some t => exact absurd h (not_ret_of_step hstep err out w)

/-! ## The reply to the Done -/

section Empty

variable (s : RecvState) (m : Meta) (b b' : Bool) (evs : List RecvEv)

/-- Two replies with different digests show as soon as they are sent. -/
theorem observe_reply (written : ℤ) (ok ok' : Bool) {sum sum' : Hash} (theirs : Hash)
    (hsum : sum ≠ sum') :
    observe (e.onSink b) { s with pc := .reply m written ok sum theirs } evs =
        observe (e.onSink b') { s with pc := .reply m written ok' sum' theirs } evs ↔
      ¬∃ ec, evs = [.sent ec] ∧ ec.failed = false := by
  cases evs with
  | nil => exact iff_of_true rfl (by simp)
  | cons ev evs =>
    rw [observe_cons, observe_cons]
    cases ev with
    | sent ec =>
      cases hec : ec.failed with
      | true =>
        simp only [recvStep, RecvPc.outgoing, hec, if_true, Option.bind_some]
        refine iff_of_true ?_ (by simp [hec])
        exact observe_onSink_of_begun (s := { s with pc := .ret (mapConnErr ec) m written }) evs
          trivial b b'
      | false =>
        simp only [recvStep, RecvPc.outgoing, hec, Bool.false_eq_true, if_false, Option.bind_some]
        cases evs with
        | nil =>
          refine iff_of_false (fun h => ?_) (by simp [hec])
          have hsent : s.sent ++ [encodeDone m.id ok sum] = s.sent ++ [encodeDone m.id ok' sum'] :=
            congrArg Prod.fst (Option.some.inj h)
          have hframe := List.singleton_inj.mp (List.append_cancel_left hsent)
          exact hsum (encodeDone_inj hframe).2.2
        | cons ev' evs =>
          rw [observe_ret_cons rfl, observe_ret_cons rfl]
          exact iff_of_true rfl (by simp)
    | received r =>
      rw [recvStep_received_of_not_waiting rfl, recvStep_received_of_not_waiting rfl]
      exact iff_of_true rfl (by simp)
    | read ec => exact iff_of_true rfl (by simp)
    | wrote ec junk => exact iff_of_true rfl (by simp)

/-- The Done, and what it leads to with two different digests. -/
theorem observe_doneAll {sum sum' : Hash} (hsum : sum ≠ sum') :
    observe (e.onSink b) { s with pc := .doneAll m sum } evs =
        observe (e.onSink b') { s with pc := .doneAll m sum' } evs ↔
      ¬∃ done dec ec, evs = [.received (.ok done), .sent ec] ∧ decodeFrame done = .ok dec ∧
        dec.typ = kTypeDone ∧ dec.id = m.id ∧ ec.failed = false := by
  cases evs with
  | nil => exact iff_of_true rfl (by simp)
  | cons ev evs =>
    rw [observe_cons, observe_cons]
    cases ev with
    | received r =>
      cases r with
      | error ec =>
        cases hec : ec.failed with
        | true =>
          simp only [recvStep, RecvPc.waiting, hec, if_true, Option.bind_some]
          refine iff_of_true ?_ (by simp)
          exact observe_onSink_of_begun
            (s := { s with pc := .ret (mapConnErr ec) m e.resumeOffset }) evs trivial b b'
        | false =>
          simp only [recvStep, RecvPc.waiting, hec, Bool.false_eq_true, if_false, Option.bind_none]
          exact iff_of_true trivial (by simp)
      | ok done =>
        simp only [recvStep, RecvPc.waiting, RecvPc.onMessage, onDone, Option.bind_some]
        cases hdec : decodeFrame done with
        | error err =>
          refine iff_of_true ?_ (by simp [hdec])
          exact observe_onSink_of_begun (s := { s with
            pc := .ret err m e.resumeOffset, received := s.received ++ [done] }) evs trivial b b'
        | ok dec =>
          by_cases hbad : dec.typ ≠ kTypeDone ∨ dec.id ≠ m.id
          · simp only [if_pos hbad]
            refine iff_of_true ?_ ?_
            · exact observe_onSink_of_begun (s := { s with
                pc := .ret Errc.badFrame.code m e.resumeOffset,
                received := s.received ++ [done] }) evs trivial b b'
            · rintro ⟨done', dec', ec, hevs, hdec', htyp, hid, -⟩
              cases hevs
              rw [hdec] at hdec'
              cases hdec'
              exact hbad.elim (fun h => h htyp) fun h => h hid
          · simp only [if_neg hbad, verifyAndAckDone]
            simp only [not_or, not_not] at hbad
            refine (observe_reply { s with received := s.received ++ [done] } m b b' evs
              e.resumeOffset _ _ dec.hash hsum).trans (not_congr ?_)
            constructor
            · rintro ⟨ec, rfl, hec⟩
              exact ⟨done, dec, ec, rfl, hdec, hbad.1, hbad.2, hec⟩
            · rintro ⟨done', dec', ec, hevs, -, -, -, hec⟩
              cases hevs
              exact ⟨ec, rfl, hec⟩
    | sent ec => exact iff_of_true rfl (by simp)
    | read ec => exact iff_of_true rfl (by simp)
    | wrote ec junk => exact iff_of_true rfl (by simp)

/-- An accepted empty offer: the one place where the code asks for the `ReaderAt`. -/
theorem observe_accept_empty (hres : e.resumeOffset = 0) (hsize : m.size = 0)
    (hsha : e.sha256 [] ≠ Block.zero 32) :
    observe (e.onSink false) { s with pc := .accept m } evs =
        observe (e.onSink true) { s with pc := .accept m } evs ↔
      ¬∃ ec done dec ec', evs = [.sent ec, .received (.ok done), .sent ec'] ∧ ec.failed = false ∧
        decodeFrame done = .ok dec ∧ dec.typ = kTypeDone ∧ dec.id = m.id ∧ ec'.failed = false := by
  cases evs with
  | nil => exact iff_of_true rfl (by simp)
  | cons ev evs =>
    rw [observe_cons, observe_cons]
    cases ev with
    | sent ec =>
      cases hec : ec.failed with
      | true =>
        simp only [recvStep, RecvPc.outgoing, hec, if_true, Option.bind_some]
        refine iff_of_true ?_ (by simp [hec])
        exact observe_onSink_of_begun
          (s := { s with pc := .ret (mapConnErr ec) m e.resumeOffset }) evs trivial false true
      | false =>
        have hall : e.resumeOffset = m.size := hres.trans hsize.symm
        have hwriteOnly : afterAccept (e.onSink false) m = .doneAll m (Block.zero 32) := by
          simp [afterAccept, RecvEnv.onSink, hall]
        have hreadable : afterAccept (e.onSink true) m = .doneAll m (e.sha256 []) := by
          simp [afterAccept, RecvEnv.onSink, hall, hashAllHead, hsize]
        simp only [recvStep, RecvPc.outgoing, hec, Bool.false_eq_true, if_false, Option.bind_some,
          RecvPc.onSent, hwriteOnly, hreadable]
        refine (observe_doneAll { RecvState.reportSent e { s with pc := .accept m } with
          sent := s.sent ++ [encodeAccept m.id e.resumeOffset] } m false true evs
          hsha.symm).trans (not_congr ?_)
        constructor
        · rintro ⟨done, dec, ec', rfl, hdone⟩
          exact ⟨ec, done, dec, ec', rfl, hec, hdone⟩
        · rintro ⟨_, done, dec, ec', hevs, -, hdone⟩
          cases hevs
          exact ⟨done, dec, ec', rfl, hdone⟩
    | received r =>
      rw [recvStep_received_of_not_waiting rfl, recvStep_received_of_not_waiting rfl]
      exact iff_of_true rfl (by simp)
    | read ec => exact iff_of_true rfl (by simp)
    | wrote ec junk => exact iff_of_true rfl (by simp)

/-- An accepted offer of a size that is not zero. -/
theorem observe_accept_nonempty (hres : e.resumeOffset = 0) (hsize : m.size ≠ 0) :
    observe (e.onSink b) { s with pc := .accept m } evs =
      observe (e.onSink b') { s with pc := .accept m } evs := by
  cases evs with
  | nil => rfl
  | cons ev evs =>
    have hafter : ∀ b, afterAccept (e.onSink b) m =
        chunkHead m ⟨e.resumeOffset, []⟩ e.resumeOffset 0 := by
      intro b
      have hne : ¬e.resumeOffset = m.size := by
        rw [hres]
        exact Ne.symm hsize
      have hle : ¬e.resumeOffset > 0 := by omega
      simp [afterAccept, RecvEnv.onSink, hne, hle]
    have hstep : recvStep (e.onSink b) { s with pc := .accept m } ev =
        recvStep (e.onSink b') { s with pc := .accept m } ev := by
      cases ev with
      | sent ec =>
        simp only [recvStep, RecvPc.outgoing, RecvPc.onSent, hafter]
        rfl
      | received r => cases r <;> rfl
      | _ => rfl
    rw [observe_cons, observe_cons, hstep]
    cases hnext : recvStep (e.onSink b') { s with pc := .accept m } ev with
    | none => rfl
    | some t =>
      refine observe_onSink_of_begun evs ?_ b b'
      cases recvTrans_of_step hnext with
      | lost => trivial
      | message msg hpc => cases hpc
      | sendFailed => trivial
      | sent =>
        simp only [RecvPc.onSent, hafter]
        exact (onward_chunkHead e _ _ _ _).begun
      | hashAllFailed => trivial
      | hashAll _ _ _ _ _ hpc => cases hpc
      | hashPrefixFailed => trivial
      | hashPrefix _ _ _ _ _ hpc => cases hpc
      | writeFailed => trivial
      | wrote _ _ _ _ _ _ _ _ hpc => cases hpc

end Empty

/-! ## From the first message on -/

theorem begun_or_accept_onOffer (msg : Bytes) :
    (onOffer e msg).Begun ∨ ∃ m, onOffer e msg = .accept m := by
  have h := onOffer_outcome e msg
  generalize onOffer e msg = pc at h ⊢
  cases h with
  | failed => exact .inl trivial
  | refused => exact .inl trivial
  | taken dec => exact .inr ⟨dec.info, rfl⟩

/-- **A fresh receive does not depend on the sink being readable**, except for one kind of run: where
an empty offer is accepted and its Done answered, the reply of the write-only sink carries a digest of
zeros in place of the digest of nothing. The only fact about SHA-256 used is that these differ. -/
theorem write_only_alike_iff (e : RecvEnv) (hres : e.resumeOffset = 0)
    (hsha : e.sha256 [] ≠ Block.zero 32) (store : Store) (evs : List RecvEv) :
    observe (e.onSink false) (RecvState.start store) evs =
        observe (e.onSink true) (RecvState.start store) evs ↔ ¬AnswersEmpty e evs := by
  cases evs with
  | nil => exact iff_of_true rfl (by simp [AnswersEmpty])
  | cons ev evs =>
    rw [observe_cons, observe_cons]
    cases ev with
    | received r =>
      cases r with
      | error ec =>
        refine iff_of_true ?_ (by simp [AnswersEmpty])
        cases hec : ec.failed with
        | true =>
          simp only [recvStep, RecvState.start, RecvPc.waiting, hec, if_true, Option.bind_some]
          exact observe_onSink_of_begun
            (s := { RecvState.start store with pc := .ret (mapConnErr ec) {} e.resumeOffset }) evs
            trivial false true
        | false =>
          simp [recvStep, RecvState.start, RecvPc.waiting, hec]
      | ok offer =>
        have hstep : ∀ b, recvStep (e.onSink b) (RecvState.start store) (.received (.ok offer)) =
            some { RecvState.start store with pc := onOffer e offer, received := [offer] } :=
          fun _ => rfl
        rw [hstep, hstep, Option.bind_some, Option.bind_some]
        rcases begun_or_accept_onOffer (e := e) offer with hbegun | ⟨m, hm⟩
        · refine iff_of_true (observe_onSink_of_begun evs hbegun false true) ?_
          rintro ⟨offer', m, ec, done, dec, ec', hevs, haccept, -⟩
          cases hevs
          rw [haccept] at hbegun
          exact hbegun
        · rw [hm]
          by_cases hsize : m.size = 0
          · refine (observe_accept_empty { RecvState.start store with received := [offer] } m evs
              hres hsize hsha).trans (not_congr ?_)
            constructor
            · rintro ⟨ec, done, dec, ec', rfl, hec, hdone⟩
              exact ⟨offer, m, ec, done, dec, ec', rfl, hm, hsize, hec, hdone⟩
            · rintro ⟨offer', m', ec, done, dec, ec', hevs, haccept, -, hec, hdone⟩
              cases hevs
              rw [hm] at haccept
              cases haccept
              exact ⟨ec, done, dec, ec', rfl, hec, hdone⟩
          · refine iff_of_true (observe_accept_nonempty
              { RecvState.start store with received := [offer] } m false true evs hres hsize) ?_
            rintro ⟨offer', m', ec, done, dec, ec', hevs, haccept, hzero, -⟩
            cases hevs
            rw [hm] at haccept
            cases haccept
            exact hsize hzero
    | sent ec => exact iff_of_true rfl (by simp [AnswersEmpty])
    | read ec => exact iff_of_true rfl (by simp [AnswersEmpty])
    | wrote ec junk => exact iff_of_true rfl (by simp [AnswersEmpty])

/-! ### With and without content -/

/-- The SHA-256 of nothing. -/
def emptyDigest : Hash :=
  ⟨[0xe3, 0xb0, 0xc4, 0x42, 0x98, 0xfc, 0x1c, 0x14, 0x9a, 0xfb, 0xf4, 0xc8, 0x99, 0x6f, 0xb9, 0x24,
    0x27, 0xae, 0x41, 0xe4, 0x64, 0x9b, 0x93, 0x4c, 0xa4, 0x95, 0x99, 0x1b, 0x78, 0x52, 0xb8, 0x55],
    rfl⟩

/-- A fresh attempt to receive `abc` or nothing. -/
def freshRecvEnv : RecvEnv :=
  { sampleRecvEnv with sha256 := fun b => if b = [] then emptyDigest else sampleSha256 b }

theorem abc_write_only_alike :
    observe (freshRecvEnv.onSink false) (RecvState.start fun _ => 0) sampleRecvTrace =
      observe (freshRecvEnv.onSink true) (RecvState.start fun _ => 0) sampleRecvTrace := by
  refine (write_only_alike_iff freshRecvEnv rfl (by decide) _ sampleRecvTrace).mpr ?_
  rintro ⟨_, _, _, _, _, _, hevs, -⟩
  cases hevs

/-- An empty offer. -/
def emptyMeta : Meta where
  id := sampleMeta.id
  hash := emptyDigest

/-- Offer, Accept, Done and the reply to it. -/
def emptyTrace : List RecvEv :=
  [.received (encodeOffer emptyMeta), .sent .success,
    .received (.ok (encodeDone emptyMeta.id true emptyDigest)), .sent .success]

/-- The same empty transfer succeeds on a readable sink and ends in `hash_mismatch` on a write-only
one. -/
theorem empty_receive_differs :
    (observe (freshRecvEnv.onSink true) (RecvState.start fun _ => 0) emptyTrace).map (·.2.2) =
        some (some (.success, emptyMeta, 0)) ∧
      (observe (freshRecvEnv.onSink false) (RecvState.start fun _ => 0) emptyTrace).map (·.2.2) =
        some (some (Errc.hashMismatch.code, emptyMeta, 0)) ∧
      ¬∀ (e : RecvEnv) (store : Store) (evs : List RecvEv), e.resumeOffset = 0 →
        e.sha256 [] ≠ Block.zero 32 →
        observe (e.onSink false) (RecvState.start store) evs =
          observe (e.onSink true) (RecvState.start store) evs := by
  refine ⟨rfl, rfl, fun hall => ?_⟩
  have hsame := congrArg (Option.map (·.2.2)) (hall freshRecvEnv (fun _ => 0) emptyTrace rfl (by decide))
  cases hsame

end TcpDuplex.Transfer
