import TcpDuplex.Conn.Trans

/-!
# Records altered on the way

A record travels as a length, a type byte and a sealed blob. The seal covers the blob: `seal` and `open`
pass no additional data to AES-GCM, so that the type byte stands in front of it in the clear, as the
wire format has it.

Under an ideal AEAD a record with another blob stops `read_loop` with `bad_frame`, whatever its type
byte is now (`Refuses`), and from then on `read_loop` does nothing but leave (`GivenUp`). A record with
another type byte in front of the same blob opens, and is taken for a message of that type.
-/

namespace TcpDuplex.Conn

open Protocol

variable {e : Env} {s t u : State}

/-- An ideal AEAD: `session` lists what was sealed under the key, and nothing else opens. -/
structure IdealAead (e : Env) (session : List (Bytes × Bytes)) : Prop where
  sealed_of_mem : ∀ {pt b}, (pt, b) ∈ session →
    ∃ nonce, e.sess.sealPlaintext e.gcm (some nonce) pt = .ok b
  mem_of_open : ∀ {pt b}, e.sess.openSealed e.gcm b = .ok pt → (pt, b) ∈ session

/-- `read_loop` stops with an error in front of the record, and nothing else changes. -/
def Refuses (e : Env) (s : State) (msgType : UInt8) (sealed : Bytes) : Prop :=
  ∃ ec, ec.failed = true ∧
    step e s (.reader (.record msgType sealed)) = some { s with reader := .abort ec .nothing }

/-! ## The record as it arrives -/

/-- The type byte of a record. -/
def typeByte (record : Bytes) : UInt8 := (record.drop 4).headD 0

/-- The sealed part of a record. -/
def sealedPart (record : Bytes) : Bytes := record.drop 5

/-- Bytes of the length of a record, behind the same length field, are a record again. -/
theorem eq_recordBytes {b sealed : Bytes} {typ : UInt8}
    (hlen : b.length = (recordBytes typ sealed).length)
    (hhead : b.take 4 = (recordBytes typ sealed).take 4) :
    b = recordBytes (typeByte b) (sealedPart b) ∧ (sealedPart b).length = sealed.length := by
  rw [length_recordBytes] at hlen
  have hfield : (recordBytes typ sealed).take 4 = putBe32 (1 + sealed.length) := by
    rw [recordBytes, List.append_assoc]
    exact List.take_left' (Bytes.length_putBe 4 _)
  obtain ⟨x, rest, hrest⟩ : ∃ x rest, b.drop 4 = x :: rest := by
    apply List.exists_cons_of_length_pos
    rw [List.length_drop]
    omega
  have hsealed : sealedPart b = rest := by
    show b.drop (4 + 1) = rest
    rw [← List.drop_drop, hrest]
    rfl
  have hsize : rest.length = sealed.length := by
    rw [← hsealed, sealedPart, List.length_drop]
    omega
  constructor
  · calc
      b = b.take 4 ++ b.drop 4 := (List.take_append_drop 4 b).symm
      _ = putBe32 (1 + sealed.length) ++ (x :: rest) := by rw [hhead, hfield, hrest]
      _ = recordBytes (typeByte b) (sealedPart b) := by
          rw [hsealed, recordBytes, typeByte, hrest, hsize]
          simp
  · rw [hsealed, hsize]

/-! ## Giving up -/

/-- Between `s` and `u` `read_loop` has delivered, dropped and echoed nothing, and taken up no Close. -/
structure Quiet (s u : State) : Prop where
  pushed : u.hist.pushed = s.hist.pushed
  texts : u.hist.texts = s.hist.texts
  dropped : u.callbackDropped = s.callbackDropped
  sawClose : u.hist.sawClose = s.hist.sawClose
  pongs : ∀ out ∈ u.sendQ, out.typ = kMsgPong → out ∈ s.sendQ

theorem Quiet.trans (h : Quiet s t) (h' : Quiet t u) : Quiet s u where
  pushed := h'.pushed.trans h.pushed
  texts := h'.texts.trans h.texts
  dropped := h'.dropped.trans h.dropped
  sawClose := h'.sawClose.trans h.sawClose
  pongs out hout hpong := h.pongs out (h'.pongs out hout hpong) hpong

/-- Where nothing of this changes, and the queue stays as it is. -/
theorem Quiet.of_eq (hpushed : u.hist.pushed = s.hist.pushed) (htexts : u.hist.texts = s.hist.texts)
    (hdropped : u.callbackDropped = s.callbackDropped)
    (hsawClose : u.hist.sawClose = s.hist.sawClose) (hq : u.sendQ = s.sendQ) : Quiet s u where
  pushed := hpushed
  texts := htexts
  dropped := hdropped
  sawClose := hsawClose
  pongs out hout _ := by rwa [hq] at hout

/-- The steps of the other threads: they wake `read_loop` at most, and do none of its work. -/
theorem other_of_step {a : Act} (h : step e s a = some t) (hne : ∀ io, a ≠ .reader io) :
    Quiet s t ∧ t.recvClosed = s.recvClosed ∧ t.recvErr = s.recvErr ∧
      (t.reader = s.reader ∨ t.reader = s.reader.wakeSend) := by
  cases step_inv h with
  | sender h =>
      cases h with
      | push =>
          refine ⟨⟨rfl, rfl, rfl, rfl, fun out hout hpong => ?_⟩, rfl, rfl, .inr rfl⟩
          -- what `send_for` appends is no pong
          rcases List.mem_append.mp hout with hold | hnew
          · exact hold
          · rw [List.mem_singleton.mp hnew] at hpong
            cases hpong
      | _ => exact ⟨.of_eq rfl rfl rfl rfl rfl, rfl, rfl, .inl rfl⟩
  | receiver h =>
      cases h <;> exact ⟨.of_eq rfl rfl rfl rfl rfl, rfl, rfl, .inl rfl⟩
  | shutdown h =>
      cases h with
      | notifySend => exact ⟨.of_eq rfl rfl rfl rfl rfl, rfl, rfl, .inr rfl⟩
      | _ => exact ⟨.of_eq rfl rfl rfl rfl rfl, rfl, rfl, .inl rfl⟩
  | writer h =>
      cases h with
      | pop _ _ hq =>
          refine ⟨⟨rfl, rfl, rfl, rfl, fun out hout _ => ?_⟩, rfl, rfl, .inr rfl⟩
          rw [hq]
          exact List.mem_cons_of_mem _ hout
      | drainPop _ _ hq =>
          refine ⟨⟨rfl, rfl, rfl, rfl, fun out hout _ => ?_⟩, rfl, rfl, .inl rfl⟩
          rw [hq]
          exact List.mem_cons_of_mem _ hout
      | _ => exact ⟨.of_eq rfl rfl rfl rfl rfl, rfl, rfl, .inl rfl⟩
  | @reader io _ _ => exact absurd rfl (hne io)
  | deliver h =>
      cases h <;> exact ⟨.of_eq rfl rfl rfl rfl rfl, rfl, rfl, .inl rfl⟩
  | _ => exact ⟨.of_eq rfl rfl rfl rfl rfl, rfl, rfl, .inl rfl⟩

/-- `read_loop` is on its way out, behind `abort_recv`. -/
def ReaderPc.Leaving : ReaderPc → Prop
  | .storeDone held | .notifyDone held | .leave held => held = .nothing
  | .exited => True
  | _ => False

/-- `read_loop` has given up with `err` in state `s`: it does nothing but leave, and `err` is what
`receive_for` will report. -/
structure GivenUp (err : ErrorCode) (s u : State) : Prop where
  quiet : Quiet s u
  counter : u.reader = .abort err .nothing ∧ u.recvClosed = s.recvClosed ∨
    u.reader.Leaving ∧ u.recvClosed = true ∧ (s.recvClosed = false → u.recvErr = err)

theorem ReaderPc.Leaving.wakeSend {pc : ReaderPc} (h : pc.Leaving) : pc.wakeSend = pc := by
  cases pc with
  | pingParked pt => cases h
  | _ => rfl

/-- From `abort_recv` on there is one way: `err` is stored, unless `recv_closed_` was set before. -/
theorem reader_of_abort {err : ErrorCode} {held : Held} {io : ReadIo}
    (hpc : u.reader = .abort err held) (h : readerStep e u io = some t) : t = abortRecv u err held := by
  cases io with
  | none =>
      simp only [readerStep, hpc] at h
      split at h
      · exact (Option.some.inj h).symm
      · cases h
  | record => simp [readerStep, hpc] at h
  | error => simp [readerStep, hpc] at h

theorem reader_of_leaving {io : ReadIo} (hpc : u.reader.Leaving) (h : readerStep e u io = some t) :
    t.reader.Leaving ∧ Quiet u t ∧ t.recvClosed = u.recvClosed ∧ t.recvErr = u.recvErr := by
  generalize hreader : u.reader = pc at hpc
  cases pc with
  | storeDone held =>
      cases io <;> simp only [readerStep, hreader, Option.some.injEq, reduceCtorEq] at h
      subst h
      exact ⟨hpc, .of_eq rfl rfl rfl rfl rfl, rfl, rfl⟩
  | notifyDone held =>
      cases io <;> simp only [readerStep, hreader, Option.some.injEq, reduceCtorEq] at h
      subst h
      exact ⟨hpc, .of_eq rfl rfl rfl rfl rfl, rfl, rfl⟩
  | leave held =>
      obtain rfl : held = .nothing := hpc
      cases io <;> simp only [readerStep, hreader, Option.some.injEq, reduceCtorEq] at h
      subst h
      exact ⟨trivial, .of_eq rfl rfl rfl rfl rfl, rfl, rfl⟩
  | exited => cases io <;> simp [readerStep, hreader] at h
  | _ => cases hpc

theorem GivenUp.step {err : ErrorCode} (hfailed : err.failed = true) {a : Act}
    (hG : GivenUp err s u) (h : step e u a = some t) : GivenUp err s t := by
  by_cases hreader : ∃ io, a = .reader io
  · obtain ⟨io, rfl⟩ := hreader
    rcases hG.counter with ⟨hpc, hclosed⟩ | ⟨hleaving, hclosed, herr⟩
    · obtain rfl := reader_of_abort hpc h
      unfold abortRecv
      split
      · rename_i hset
        refine ⟨hG.quiet.trans (.of_eq rfl rfl rfl rfl rfl), .inr ⟨rfl, hset, ?_⟩⟩
        intro hopen
        rw [hclosed, hopen] at hset
        cases hset
      · refine ⟨hG.quiet.trans (.of_eq rfl rfl rfl rfl rfl), .inr ⟨rfl, rfl, ?_⟩⟩
        exact fun _ => rfl
    · obtain ⟨hpc, hquiet, hclosed', herr'⟩ := reader_of_leaving hleaving h
      refine ⟨hG.quiet.trans hquiet, .inr ⟨hpc, hclosed'.trans hclosed, fun hopen => ?_⟩⟩
      exact herr'.trans (herr hopen)
  · obtain ⟨hquiet, hclosed, herr, hpc⟩ := other_of_step h (fun io hio => hreader ⟨io, hio⟩)
    refine ⟨hG.quiet.trans hquiet, ?_⟩
    rw [hclosed, herr]
    refine hG.counter.imp (fun hold => ⟨?_, hold.2⟩) (fun hold => ⟨?_, hold.2⟩)
    · rcases hpc with hpc | hpc
      · rw [hpc, hold.1]
      · rw [hpc, hold.1]
        rfl
    · rcases hpc with hpc | hpc
      · rw [hpc]
        exact hold.1
      · rw [hpc, hold.1.wakeSend]
        exact hold.1

theorem givenUp_run {err : ErrorCode} (hfailed : err.failed = true)
    (h : Machine.Run (step e) { s with reader := .abort err .nothing } u) : GivenUp err s u :=
  Machine.Run.invariant (I := GivenUp err s) (fun _ _ _ hI hstep => hI.step hfailed hstep) h
    ⟨.of_eq rfl rfl rfl rfl rfl, .inl ⟨rfl, rfl⟩⟩

/-! ## Altered records -/

/-- `read_loop` takes up a record. -/
theorem step_record (hpc : s.reader = .recv) (typ : UInt8) (sealed : Bytes) :
    step e s (.reader (.record typ sealed)) = some (readRecordDone e s typ sealed) := by
  simp only [step, readerStep, hpc]

/-- A blob that was never sealed under the key stops `read_loop`, behind any type byte. -/
theorem step_record_of_not_sealed {session : List (Bytes × Bytes)} (hideal : IdealAead e session)
    (hkey : e.gcm.setkey e.sess.key = true) (hpc : s.reader = .recv)
    {sealed : Bytes} (hnone : ∀ pt, (pt, sealed) ∉ session) (typ : UInt8) :
    step e s (.reader (.record typ sealed)) =
      some { s with reader := .abort Errc.badFrame.code .nothing } := by
  have hopen : e.sess.openSealed e.gcm sealed = .error Errc.badFrame.code := by
    apply Session.openSealed_badFrame hkey
    intro pt hok
    exact hnone pt (hideal.mem_of_open hok)
  rw [step_record hpc, readRecordDone, hopen]

/-- **The sealed part of a record is authentic, and its type byte is not.** Take a record that
`write_out` makes, and any bytes of its length behind the same length field. `read_record` takes them
for a record. If its sealed part is another one, and none that was sealed in the session, `read_loop`
stops with `bad_frame`, whatever the type byte: it delivers, drops and echoes nothing, takes up no
Close, and `bad_frame` is the error it leaves. If the sealed part is unchanged the record opens, and is
handled as a message of the type it carries now. -/
theorem altered_seal_refused (e : Env) (hg : e.gcm.Lawful) (session : List (Bytes × Bytes))
    (hideal : IdealAead e session) (out : Outbound) (nonce : Nonce) (sealed record : Bytes)
    (hseal : e.sess.sealPlaintext e.gcm (some nonce) out.pt = .ok sealed)
    (hrecord : writeRecord out.typ sealed = .ok record) (b more : Bytes)
    (hlen : b.length = record.length) (hhead : b.take 4 = record.take 4) (s : State)
    (hpc : s.reader = .recv) :
    readRecord (b ++ more) = (.ok (typeByte b, sealedPart b), more) ∧
      (sealedPart b ≠ sealed → (∀ pt, (pt, sealedPart b) ∉ session) →
        Refuses e s (typeByte b) (sealedPart b) ∧
          ∀ t u, step e s (.reader (.record (typeByte b) (sealedPart b))) = some t →
            Machine.Run (step e) t u → GivenUp Errc.badFrame.code s u) ∧
      (sealedPart b = sealed →
        step e s (.reader (.record (typeByte b) (sealedPart b))) =
          some (dispatch e s (typeByte b) out.pt)) := by
  obtain ⟨hok, rfl⟩ : sealedOk sealed.length = true ∧ recordBytes out.typ sealed = record := by
    unfold writeRecord at hrecord
    split_ifs at hrecord with hsize
    exact ⟨hsize, Except.ok.inj hrecord⟩
  obtain ⟨hb, hsize⟩ := eq_recordBytes hlen hhead
  obtain ⟨_, hkey, _⟩ := Session.sealPlaintext_ok hseal
  refine ⟨?_, fun _ hnone => ⟨?_, fun t u hstep hrun => ?_⟩, fun hsame => ?_⟩
  · have hread := readRecord_recordBytes_append (typeByte b) more (hsize ▸ hok)
    rwa [← hb] at hread
  · exact ⟨_, rfl, step_record_of_not_sealed hideal hkey hpc hnone _⟩
  · rw [step_record_of_not_sealed hideal hkey hpc hnone] at hstep
    obtain rfl := Option.some.inj hstep
    exact givenUp_run rfl hrun
  · rw [step_record hpc, readRecordDone, hsame, Session.openSealed_of_sealPlaintext hg hseal]

/-! ### One record -/

/-- Both ends of the sample connection. -/
def sampleEnv : Env where
  cfg := freezeConfig none
  gcm := sampleGcm
  sess := ⟨List.replicate 32 0⟩

theorem sampleEnv_ideal : IdealAead sampleEnv [([0x68, 0x69], sampleSealed)] where
  sealed_of_mem h := by
    obtain ⟨rfl, rfl⟩ := Prod.mk.inj (List.mem_singleton.mp h)
    exact ⟨sampleNonce, rfl⟩
  mem_of_open hopen := by
    obtain ⟨nonce, c, t, rfl, hdec⟩ := Session.openSealed_ok hopen
    simp only [sampleEnv, sampleGcm, Option.ite_none_right_eq_some] at hdec
    obtain ⟨⟨_, rfl, rfl, rfl⟩, hdec⟩ := hdec
    cases hdec
    exact List.mem_singleton.mpr rfl

/-- The record of `hi` with the last bit of the tag flipped, and its type turned into Close. -/
def flippedRecord : Bytes := recordBytes kMsgClose (sampleSealed.dropLast ++ [0xe4])

theorem flipped_tag_refused :
    typeByte flippedRecord = kMsgClose ∧
      Refuses sampleEnv (init sampleEnv.cfg) (typeByte flippedRecord) (sealedPart flippedRecord) := by
  have hne : sealedPart flippedRecord ≠ sampleSealed := by decide
  have hnone : ∀ pt : Bytes, (pt, sealedPart flippedRecord) ∉ [([0x68, 0x69], sampleSealed)] := by
    intro pt h
    exact hne (Prod.mk.inj (List.mem_singleton.mp h)).2
  have hrefused := altered_seal_refused sampleEnv sampleGcm_lawful _ sampleEnv_ideal
    ⟨kMsgText, [0x68, 0x69]⟩ sampleNonce sampleSealed (recordBytes kMsgText sampleSealed) rfl rfl
    flippedRecord [] (by decide) (by decide) (init sampleEnv.cfg) rfl
  exact ⟨by decide, (hrefused.2.1 hne hnone).1⟩

/-- A change of the type byte alone is not: the text `hi` becomes a ping. -/
theorem type_byte_not_covered :
    ¬∀ (e : Env) (session : List (Bytes × Bytes)), e.gcm.Lawful → IdealAead e session →
      ∀ (out : Outbound) (nonce : Nonce) (sealed record b : Bytes),
        e.sess.sealPlaintext e.gcm (some nonce) out.pt = .ok sealed →
        writeRecord out.typ sealed = .ok record → b.length = record.length →
        b.take 4 = record.take 4 → b.drop 4 ≠ record.drop 4 →
        (∀ pt, (pt, sealedPart b) ∈ session → sealedPart b = sealed) →
        ∀ s, s.reader = .recv → s.sockClosed = false →
          Refuses e s (typeByte b) (sealedPart b) := by
  intro h
  obtain ⟨ec, _, hstep⟩ := h sampleEnv _ sampleGcm_lawful sampleEnv_ideal
    ⟨kMsgText, [0x68, 0x69]⟩ sampleNonce sampleSealed (recordBytes kMsgText sampleSealed)
    (recordBytes kMsgPing sampleSealed) rfl rfl rfl rfl (by decide) (fun _ _ => rfl)
    (init sampleEnv.cfg) rfl rfl
  have hreader := congrArg (Option.map State.reader) hstep
  have hping : Option.map State.reader (step sampleEnv (init sampleEnv.cfg)
      (.reader (.record kMsgPing sampleSealed))) = some (.ping [0x68, 0x69]) := rfl
  cases hping.symm.trans hreader

end TcpDuplex.Conn
