import TcpDuplex.Transfer.Int64

/-!
# A chunk behind the end of the range

`receive_once` tests `dec.offset + dec.data.size() > meta.size`. A chunk that ends behind the range of
`std::int64_t` passes the test, and the attempt goes on from a negative offset. Up to such a chunk the steps
are exact. Behind it the attempt has hashed more bytes than any offer can announce, so what it hashes is not
the content of the sink any more.
-/

namespace TcpDuplex.Transfer

open Machine

variable {e : RecvEnv} {s t : RecvState} {ev : RecvEv}

/-! ## What a success promises -/

/-- A success stands on the bytes of the sink below the offered size, and a Done with `ok` is sent on
success. -/
structure RecvState.Content (e : RecvEnv) (s : RecvState) : Prop where
  verified : ∀ err m written, s.pc = .ret err m written → err.failed = false →
    s.hashed = s.store.read 0 m.size.toNat ∧
      ∃ theirs, Verified e s.store s.hashed s.received m (e.sha256 s.hashed) theirs
  done_sent : ∀ id sum, encodeDone id true sum ∈ s.sent →
    ∃ m written, s.pc = .ret .success m written ∧ id = m.id

theorem DoneSentOnSuccess.step64 (h : DoneSentOnSuccess s) (hstep : recvStep64 e s ev = some t) :
    DoneSentOnSuccess t := by
  rcases recvStep64_cases hstep with hexact | ⟨m, hw, written, since, msg, hpc, -, rfl⟩ |
    ⟨m, hw, written, since, off, data, ec, junk, hpc, -, rfl⟩
  · exact h.step hexact
  · intro id sum hmem
    obtain ⟨m', written', hret, -⟩ := h id sum hmem
    rw [hpc] at hret
    cases hret
  · intro id sum hmem
    have hsent : (s.wrote64 e m hw written since off data ec junk).sent = s.sent := by
      unfold RecvState.wrote64 RecvState.wroteWith
      split
      · rfl
      · exact RecvState.report_sent _ _ _ _
    obtain ⟨m', written', hret, -⟩ := h id sum (hsent ▸ hmem)
    rw [hpc] at hret
    cases hret

theorem RecvState.Sound.content (h : s.Sound e) (hreadable : e.readable = true)
    (hdone : DoneSentOnSuccess s) : s.Content e := by
  refine ⟨fun err m written hret hok => ?_, hdone⟩
  rw [RecvState.Sound, hret] at h
  obtain ⟨_, sum, theirs, hver⟩ := h hok
  obtain ⟨hcov, rfl⟩ := hver.digest hreadable
  exact ⟨hcov.hashed_eq, theirs, hver⟩

/-! ## The steps around the sum -/

/-- A chunk that ends behind the range. -/
def PastRange (c : ℤ × Bytes) : Prop := 2 ^ 63 ≤ c.1 + c.2.length

instance (c : ℤ × Bytes) : Decidable (PastRange c) := inferInstanceAs (Decidable (_ ≤ _))

/-- A message for which the sum leaves the range: a chunk that ends behind it is written, or refused for its
size. -/
theorem onChunk64_of_overflow {m : Meta} {hw : HashingWriter} {written : ℤ} {since : ℕ} {msg : Bytes}
    (hoff : hw.offset = written) (hnonneg : 0 ≤ written)
    (hadds : ¬(RecvPc.chunk m hw written since).AddsInRange msg) :
    (∃ dec, decodeFrame msg = .ok dec ∧ dec.typ = kTypeChunk ∧ PastRange (written, dec.data) ∧
        onChunk64 e m hw written since msg = .write m hw written since written dec.data) ∨
      onChunk64 e m hw written since msg = .ret Errc.badFrame.code m written := by
  simp only [RecvPc.AddsInRange, not_forall] at hadds
  obtain ⟨dec, hdec, htyp, hid, rfl, hover⟩ := hadds
  have hpast : PastRange (dec.offset, dec.data) := by
    by_contra hfits
    exact hover ⟨by omega, not_le.mp hfits⟩
  simp only [onChunk64, onChunkWith, hdec, htyp, if_true]
  split_ifs with hbad hnext
  · exact .inr rfl
  · exact absurd hoff.symm hnext
  · exact .inl ⟨dec, rfl, htyp, hpast, rfl⟩

/-- In front of a write there is one step, and its sums wrap. -/
theorem wrote_of_step64 {m : Meta} {hw : HashingWriter} {written : ℤ} {since : ℕ} {off : ℤ} {data : Bytes}
    (hpc : s.pc = .write m hw written since off data) (hstep : recvStep64 e s ev = some t) :
    ∃ ec junk, ev = .wrote ec junk ∧
      (ec.failed = true ∧
          t = { s with pc := .abort m written ec, store := s.store.damage off data.length junk } ∨
        ec.failed = false ∧ t.hashed = s.hashed ++ data ∧ t.writes = s.writes ++ [(off, data)] ∧
          t.pc = afterWrite e m ⟨addInt64 hw.offset data.length, hw.ctx ++ data⟩ (addInt64 off data.length)
            (since + 1)) := by
  cases ev with
  | received r => cases r <;> simp [recvStep64, recvStep, hpc, RecvPc.waiting] at hstep
  | sent ec => simp [recvStep64, recvStep, hpc, RecvPc.outgoing] at hstep
  | read ec => simp [recvStep64, recvStep, hpc] at hstep
  | wrote ec junk =>
    simp only [recvStep64, hpc, RecvState.wrote64, RecvState.wroteWith] at hstep
    refine ⟨ec, junk, rfl, ?_⟩
    split at hstep
    · rename_i hec
      exact .inl ⟨hec, (Option.some.inj hstep).symm⟩
    · rename_i hec
      obtain rfl := Option.some.inj hstep
      exact .inr ⟨Bool.eq_false_iff.mpr hec, RecvState.report_hashed _ _ _ _,
        RecvState.report_writes _ _ _ _, RecvState.report_pc _ _ _ _⟩

/-- Hashed bytes stay hashed, and writes stay written. -/
theorem grows_of_step64 (hstep : recvStep64 e s ev = some t) :
    s.hashed.length ≤ t.hashed.length ∧ ∀ c ∈ s.writes, c ∈ t.writes := by
  rcases recvStep64_cases hstep with hexact | ⟨m, hw, written, since, msg, hpc, -, rfl⟩ |
    ⟨m, hw, written, since, off, data, ec, junk, hpc, -, rfl⟩
  · cases recvTrans_of_step hexact with
    | sent msg ec hpc _ =>
      rw [RecvState.reportSent_hashed, RecvState.reportSent_writes]
      exact ⟨le_rfl, fun _ hc => hc⟩
    | hashAll => exact ⟨by simp, fun _ hc => hc⟩
    | hashPrefix => exact ⟨by simp, fun _ hc => hc⟩
    | wrote =>
      rw [RecvState.report_hashed, RecvState.report_writes]
      exact ⟨by simp, fun _ hc => List.mem_append_left _ hc⟩
    | _ => exact ⟨le_rfl, fun _ hc => hc⟩
  · exact ⟨le_rfl, fun _ hc => hc⟩
  · unfold RecvState.wrote64 RecvState.wroteWith
    split
    · exact ⟨le_rfl, fun _ hc => hc⟩
    · rw [RecvState.report_hashed, RecvState.report_writes]
      exact ⟨by simp, fun _ hc => List.mem_append_left _ hc⟩

/-- Up to the sum that does not fit, a step writes only what ends within the offered size. -/
theorem writes_of_sound (h : s.Sound e) (hwrites : ∀ c ∈ s.writes, ¬PastRange c)
    (hstep : recvStep e s ev = some t) : ∀ c ∈ t.writes, ¬PastRange c := by
  cases recvTrans_of_step hstep with
  | wrote m hw written since off data ec junk hpc _ =>
    simp only [RecvState.Sound, hpc] at h
    obtain ⟨hoff, -, -, hfit⟩ := h
    have hsize := size_lt_of_offered hoff
    rw [RecvState.report_writes]
    intro c hc
    rcases List.mem_append.mp hc with hold | hnew
    · exact hwrites c hold
    · rw [List.mem_singleton.mp hnew]
      exact fun hpast => absurd hpast (not_le.mpr (hfit.trans_lt hsize))
  | sent => rwa [RecvState.reportSent_writes]
  | _ => exact hwrites

/-! ## Every run -/

/-- What a run comes to: the steps have been exact; or the attempt is in front of its first write of a chunk
that ends behind the range; or it has written one. -/
inductive RecvState.Course (e : RecvEnv) (s : RecvState) : Prop where
  | exact (hsound : s.Sound e) (hwrites : ∀ c ∈ s.writes, ¬PastRange c)
  | beyond (m : Meta) (hw : HashingWriter) (written : ℤ) (since : ℕ) (data : Bytes)
      (hpc : s.pc = .write m hw written since written data) (hle : written ≤ m.size)
      (hpast : PastRange (written, data)) (hcov : Covers s.store s.hashed written)
      (hwrites : ∀ c ∈ s.writes, ¬PastRange c)
  | past (hlen : 2 ^ 63 ≤ s.hashed.length) (hwrites : ∃ c ∈ s.writes, PastRange c)

/-- The step at which a sum leaves the range. -/
theorem over_of_overflow (h : s.Sound e) {msg : Bytes} (hadds : ¬s.pc.AddsInRange msg)
    (hstep : recvStep64 e s (.received (.ok msg)) = some t) :
    t.Sound e ∨ ∃ m hw written since dec, decodeFrame msg = .ok dec ∧ dec.typ = kTypeChunk ∧
      Offered s.received m ∧ 0 ≤ written ∧ written < m.size ∧ PastRange (written, dec.data) ∧
      Covers s.store s.hashed written ∧
      t = { s with pc := .write m hw written since written dec.data, received := s.received ++ [msg] } := by
  cases hpc : s.pc with
  | chunk m hw written since =>
    rw [hpc] at hadds
    simp only [RecvState.Sound, hpc] at h
    obtain ⟨hoff, hfol, hlt⟩ := h
    simp only [recvStep64, hpc] at hstep
    obtain rfl := Option.some.inj hstep
    rcases onChunk64_of_overflow (e := e) hfol.offset_eq hfol.covers.nonneg hadds with
      ⟨dec, hdec, htyp, hpast, heq⟩ | heq
    · right
      refine ⟨m, hw, written, since, dec, hdec, htyp, hoff, hfol.covers.nonneg, hlt, hpast, hfol.covers, ?_⟩
      rw [heq]
    · left
      rw [RecvState.Sound, heq]
      exact sound_ret rfl written
  | _ =>
    rw [hpc] at hadds
    exact absurd trivial hadds

theorem RecvState.Course.step (hres : 0 ≤ e.resumeOffset) (h : s.Course e)
    (hstep : recvStep64 e s ev = some t) : t.Course e := by
  cases h with
  | exact hsound hwrites =>
    by_cases hadds : ∀ msg, ev = .received (.ok msg) → s.pc.AddsInRange msg
    · rw [recvStep64_eq hsound hadds] at hstep
      exact .exact (hsound.step hres hstep) (writes_of_sound hsound hwrites hstep)
    · simp only [not_forall] at hadds
      obtain ⟨msg, rfl, hover⟩ := hadds
      have hwrites' : t.writes = s.writes := by
        rcases recvStep64_cases hstep with
          hexact | ⟨_, _, _, _, _, _, -, rfl⟩ | ⟨_, _, _, _, _, _, _, _, _, hev, -⟩
        · cases recvTrans_of_step hexact with
          | message => rfl
        · rfl
        · cases hev
      rcases over_of_overflow hsound hover hstep with hsound' |
        ⟨m, hw, written, since, dec, -, -, -, -, hlt, hpast, hcov, rfl⟩
      · exact .exact hsound' (by rwa [hwrites'])
      · exact .beyond m hw written since dec.data rfl hlt.le hpast hcov hwrites
  | beyond m hw written since data hpc hle hpast hcov hwrites =>
    obtain ⟨ec, junk, -, hcase⟩ := wrote_of_step64 hpc hstep
    rcases hcase with ⟨hec, rfl⟩ | ⟨-, hhashed, hwrites', -⟩
    · exact .exact ⟨hec, hle⟩ hwrites
    · refine .past ?_ ⟨(written, data), by rw [hwrites']; simp, hpast⟩
      have hlen := hcov.nonneg
      have hcount : s.hashed.length = written.toNat := by rw [hcov.hashed_eq, Store.length_read]
      have hpast : 2 ^ 63 ≤ written + data.length := hpast
      rw [hhashed, List.length_append]
      omega
  | past hlen hwrites =>
    obtain ⟨hgrow, hkeep⟩ := grows_of_step64 hstep
    obtain ⟨c, hc, hpast⟩ := hwrites
    exact .past (hlen.trans hgrow) ⟨c, hkeep c hc, hpast⟩

theorem course_reachable (hres : 0 ≤ e.resumeOffset) {store : Store}
    (h : Run (recvStep64 e) (RecvState.start store) s) : s.Course e ∧ DoneSentOnSuccess s :=
  ⟨Run.invariant (I := RecvState.Course e) (fun _ _ _ hI hstep => hI.step hres hstep) h
      (.exact ⟨rfl, rfl⟩ nofun),
    Run.invariant (I := DoneSentOnSuccess) (fun _ _ _ hI hstep => hI.step64 hstep) h nofun⟩

/-- What was hashed behind such a write is longer than any content. -/
theorem not_content_of_past {err : ErrorCode} {m : Meta} {written : ℤ} (hret : s.pc = .ret err m written)
    (hok : err.failed = false) (hlen : 2 ^ 63 ≤ s.hashed.length) : ¬s.Content e := by
  intro hcontent
  obtain ⟨hhashed, theirs, hver⟩ := hcontent.verified err m written hret hok
  have hsize := size_lt_of_offered hver.offered
  rw [hhashed, Store.length_read] at hlen
  omega

theorem RecvState.Course.content_iff (hreadable : e.readable = true) (hdone : DoneSentOnSuccess s)
    (h : s.Course e) :
    s.Content e ↔ ((∃ err m written, s.pc = .ret err m written ∧ err.failed = false) →
      ∀ c ∈ s.writes, ¬PastRange c) := by
  cases h with
  | exact hsound hwrites =>
    exact iff_of_true (hsound.content hreadable hdone) fun _ => hwrites
  | beyond m hw written since data hpc =>
    refine iff_of_true ⟨fun err m' written' hret _ => ?_, hdone⟩ ?_
    · rw [hpc] at hret
      cases hret
    · rintro ⟨err, m', written', hret, -⟩
      rw [hpc] at hret
      cases hret
  | past hlen hwrites =>
    obtain ⟨c, hc, hpast⟩ := hwrites
    by_cases hsuccess : ∃ err m written, s.pc = .ret err m written ∧ err.failed = false
    · obtain ⟨err, m, written, hret, hok⟩ := hsuccess
      refine iff_of_false (not_content_of_past hret hok hlen) fun hall => ?_
      exact hall ⟨err, m, written, hret, hok⟩ c hc hpast
    · refine iff_of_true ⟨fun err m written hret hok => ?_, hdone⟩ fun hret => absurd hret hsuccess
      exact absurd ⟨err, m, written, hret, hok⟩ hsuccess

/-! ## Sinks without bytes below zero -/

/-- No message is longer than a `std::vector` can be, and a sink that starts at offset zero takes no data below
it. -/
structure FromZero (s : RecvState) (ev : RecvEv) : Prop where
  length_lt : ∀ msg, ev = .received (.ok msg) → msg.length < 2 ^ 63
  refused : ∀ m hw written since off data ec junk, s.pc = .write m hw written since off data →
    ev = .wrote ec junk → off < 0 → data ≠ [] → ec.failed = true

/-- Behind the wrap: the attempt stands below zero, or has failed. -/
def RecvPc.Below : RecvPc → Prop
  | .chunk m _ written _ => 0 ≤ m.size ∧ -2 ^ 63 ≤ written ∧ written < 0
  | .ack m _ written => 0 ≤ m.size ∧ -2 ^ 63 ≤ written ∧ written < 0
  | .write m _ _ _ off data =>
    0 ≤ m.size ∧ (-2 ^ 63 ≤ off ∧ off < 0 ∨
      off < 2 ^ 63 ∧ PastRange (off, data) ∧ data.length < 2 ^ 63)
  | .abort _ _ err => err.failed = true
  | .ret err _ _ => err.failed = true
  | _ => False

theorem below_chunkHead {m : Meta} {written : ℤ} (hsize : 0 ≤ m.size) (hlo : -2 ^ 63 ≤ written)
    (hneg : written < 0) (hw : HashingWriter) (since : ℕ) : (chunkHead m hw written since).Below := by
  rw [chunkHead, if_pos (by omega)]
  exact ⟨hsize, hlo, hneg⟩

theorem below_afterWrite {m : Meta} {written : ℤ} (hsize : 0 ≤ m.size) (hlo : -2 ^ 63 ≤ written)
    (hneg : written < 0) (hw : HashingWriter) (since : ℕ) : (afterWrite e m hw written since).Below := by
  unfold afterWrite
  split
  · exact ⟨hsize, hlo, hneg⟩
  · exact below_chunkHead hsize hlo hneg hw since

theorem below_onChunk64 {m : Meta} {written : ℤ} (hsize : 0 ≤ m.size) (hlo : -2 ^ 63 ≤ written)
    (hneg : written < 0) (hw : HashingWriter) (since : ℕ) (msg : Bytes) :
    (onChunk64 e m hw written since msg).Below := by
  simp only [onChunk64, onChunkWith]
  split
  · rename_i err herr
    exact failed_of_decodeFrame herr
  · split_ifs with hchunk hbad hnext hdone hdiff
    · rfl
    · rfl
    · rw [not_or, not_or, not_not, not_not] at hbad
      exact ⟨hsize, .inl (by rw [hbad.2.1]; exact ⟨hlo, hneg⟩)⟩
    · rfl
    · rw [not_or, not_not, not_not] at hdiff
      exact absurd hdiff.2 (by omega)
    · rfl
    · rfl

/-- A sum that leaves the range comes out below zero. -/
theorem addInt64_neg {off : ℤ} {n : ℕ} (hoff : off < 2 ^ 63) (hn : n < 2 ^ 63) (h : 2 ^ 63 ≤ off + n) :
    -2 ^ 63 ≤ addInt64 off n ∧ addInt64 off n < 0 := by
  rw [addInt64_of_ge h (by omega)]
  omega

/-- Behind the wrap an attempt without data to write stays below zero until it fails. -/
theorem RecvPc.Below.step (h : s.pc.Below) (hzero : FromZero s ev) (hstep : recvStep64 e s ev = some t) :
    t.pc.Below := by
  cases hpc : s.pc with
  | chunk m hw written since =>
    rw [hpc] at h
    obtain ⟨hsize, hlo, hneg⟩ := h
    cases ev with
    | received r =>
      cases r with
      | error ec =>
        simp only [recvStep64, recvStep, hpc, RecvPc.waiting, Option.ite_none_right_eq_some] at hstep
        obtain ⟨hec, hstep⟩ := hstep
        cases hstep
        exact failed_mapConnErr hec
      | ok msg =>
        simp only [recvStep64, hpc] at hstep
        cases hstep
        exact below_onChunk64 hsize hlo hneg hw since msg
    | sent ec => simp [recvStep64, recvStep, hpc, RecvPc.outgoing] at hstep
    | read ec => simp [recvStep64, recvStep, hpc] at hstep
    | wrote ec junk => simp [recvStep64, hpc] at hstep
  | ack m hw written =>
    rw [hpc] at h
    obtain ⟨hsize, hlo, hneg⟩ := h
    cases ev with
    | sent ec =>
      simp only [recvStep64, recvStep, hpc, RecvPc.outgoing, RecvPc.onSendFailed, RecvPc.onSent] at hstep
      split at hstep
      · rename_i hec
        cases hstep
        exact failed_mapConnErr hec
      · cases hstep
        exact below_chunkHead hsize hlo hneg hw 0
    | received r => cases r <;> simp [recvStep64, recvStep, hpc, RecvPc.waiting] at hstep
    | read ec => simp [recvStep64, recvStep, hpc] at hstep
    | wrote ec junk => simp [recvStep64, hpc] at hstep
  | write m hw written since off data =>
    rw [hpc] at h
    obtain ⟨hsize, hoff⟩ := h
    obtain ⟨ec, junk, rfl, hcase⟩ := wrote_of_step64 hpc hstep
    rcases hcase with ⟨hec, rfl⟩ | ⟨hec, -, -, hnext⟩
    · exact hec
    · rw [hnext]
      rcases hoff with ⟨hlo, hneg⟩ | ⟨hlt, hpast, hlen⟩
      · have hempty : data = [] := by
          by_contra hne
          rw [hzero.refused m hw written since off data ec junk hpc rfl hneg hne] at hec
          cases hec
        have hsame : addInt64 off data.length = off := by
          rw [hempty, addInt64_of_inInt64 ⟨by simp; omega, by simp; omega⟩]
          simp
        rw [hsame]
        exact below_afterWrite hsize hlo hneg _ _
      · obtain ⟨hlo, hneg⟩ := addInt64_neg hlt hlen hpast
        exact below_afterWrite hsize hlo hneg _ _
  | abort m written err =>
    rw [hpc] at h
    have hfailed : err.failed = true := h
    cases ev with
    | sent ec =>
      simp only [recvStep64, recvStep, hpc, RecvPc.outgoing, RecvPc.onSendFailed, RecvPc.onSent] at hstep
      split at hstep
      · cases hstep
        exact hfailed
      · cases hstep
        exact hfailed
    | received r => cases r <;> simp [recvStep64, recvStep, hpc, RecvPc.waiting] at hstep
    | read ec => simp [recvStep64, recvStep, hpc] at hstep
    | wrote ec junk => simp [recvStep64, hpc] at hstep
  | ret err m written =>
    rcases ev with (_ | _) | _ | _ | _ <;>
      simp [recvStep64, recvStep, hpc, RecvPc.waiting, RecvPc.outgoing] at hstep
  | _ =>
    rw [hpc] at h
    exact h.elim

/-- On such a sink an attempt has been exact so far, or it fails. -/
theorem sound_or_below (hres : 0 ≤ e.resumeOffset) (h : s.Sound e ∨ s.pc.Below) (hzero : FromZero s ev)
    (hstep : recvStep64 e s ev = some t) : t.Sound e ∨ t.pc.Below := by
  rcases h with hsound | hbelow
  · by_cases hadds : ∀ msg, ev = .received (.ok msg) → s.pc.AddsInRange msg
    · rw [recvStep64_eq hsound hadds] at hstep
      exact .inl (hsound.step hres hstep)
    · simp only [not_forall] at hadds
      obtain ⟨msg, rfl, hover⟩ := hadds
      rcases over_of_overflow hsound hover hstep with hsound' |
        ⟨m, hw, written, since, dec, hdec, htyp, hoff, hnonneg, hlt, hpast, -, rfl⟩
      · exact .inl hsound'
      · have hlen := (length_of_decodeFrame hdec).2 htyp
        have hmsg := hzero.length_lt msg rfl
        have hsize := size_lt_of_offered hoff
        exact .inr ⟨by omega, .inr ⟨by omega, hpast, by omega⟩⟩
  · exact .inr (hbelow.step hzero hstep)

/-! ## The claim -/

/-- **Received content is verified content, up to the range.** Against any peer, an attempt on a sink that can
be read returns success only if it has hashed exactly the sink's bytes below the offered size, each once and in
order, and their digest agrees with the offer's hash and with the hash of the peer's Done, where these are not
all zero, and has sent a Done with `ok` only in that case: if and only if no chunk that it has written ends
behind the range of `std::int64_t`. On a sink that takes no data below offset zero that is so in every run. -/
theorem received_content_verified_iff (e : RecvEnv) (hreadable : e.readable = true)
    (hres : 0 ≤ e.resumeOffset) (store : Store) :
    (∀ s, Run (recvStep64 e) (RecvState.start store) s →
      (s.Content e ↔ ((∃ err m written, s.pc = .ret err m written ∧ err.failed = false) →
        ∀ c ∈ s.writes, ¬PastRange c))) ∧
      ∀ s, GRun (recvStep64 e) FromZero (RecvState.start store) s → s.Content e := by
  refine ⟨fun s h => ?_, fun s h => ?_⟩
  · obtain ⟨hcourse, hdone⟩ := course_reachable hres h
    exact hcourse.content_iff hreadable hdone
  · have hdone := (course_reachable hres h.run).2
    have hor : s.Sound e ∨ s.pc.Below :=
      GRun.invariant (I := fun s : RecvState => s.Sound e ∨ s.pc.Below)
        (fun _ _ _ hI hG hstep => sound_or_below hres hI hG hstep) h (.inl ⟨rfl, rfl⟩)
    rcases hor with hsound | hbelow
    · exact hsound.content hreadable hdone
    · refine ⟨fun err m written hret hok => ?_, hdone⟩
      rw [hret] at hbelow
      have hfailed : err.failed = true := hbelow
      rw [hfailed] at hok
      cases hok

theorem abc_received_verified :
    ∃ s, Run (recvStep64 sampleRecvEnv) (RecvState.start fun _ => 0) s ∧
      s.pc = .ret .success sampleMeta 3 ∧ s.hashed = s.store.read 0 3 ∧
      sampleSha256 s.hashed = sampleDigest := by
  obtain ⟨s, hrun, hret, hwrites⟩ :
      ∃ s, Run (recvStep64 sampleRecvEnv) (RecvState.start fun _ => 0) s ∧
        s.pc = .ret .success sampleMeta 3 ∧ s.writes = [(0, sampleContent)] :=
    exists_run_of_exec sampleRecvTrace ⟨_, rfl, rfl, rfl⟩
  have hcontent : s.Content sampleRecvEnv := by
    refine ((received_content_verified_iff sampleRecvEnv rfl le_rfl _).1 s hrun).mpr fun _ => ?_
    rw [hwrites]
    decide
  obtain ⟨hhashed, theirs, hver⟩ := hcontent.verified _ _ _ hret rfl
  exact ⟨s, hrun, hret, hhashed, hver.meta_hash rfl⟩

/-! ### A run once around the range -/

/-- The attempt stands in its loop at offset `n`. -/
structure StandsAt (e : RecvEnv) (store : Store) (m : Meta) (n : ℤ) (s : RecvState) : Prop where
  run : Run (recvStep64 e) (RecvState.start store) s
  chunk : ∃ hw since, s.pc = .chunk m hw n since ∧ hw.offset = n

variable {store : Store} {m : Meta} {n : ℤ}

theorem recvStep64_sent {msg : Bytes} (hout : s.pc.outgoing e = some msg) :
    recvStep64 e s (.sent .success) =
      some { s.reportSent e with pc := s.pc.onSent e, sent := s.sent ++ [msg] } :=
  recvStep_sent hout

/-- It takes a chunk that passes the test, writes it and acknowledges it. -/
theorem StandsAt.take (h : StandsAt e store m n s) (hn : InInt64 n) {data : Bytes}
    (hle : addInt64 n data.length ≤ m.size) :
    ∃ t hw since, Run (recvStep64 e) (RecvState.start store) t ∧
      t.pc = chunkHead m hw (addInt64 n data.length) since ∧ hw.offset = addInt64 n data.length ∧
      t.writes = s.writes ++ [(n, data)] := by
  obtain ⟨hrun, hw, since, hpc, hoff⟩ := h
  have hdec := decodeFrame_encodeChunk m.id (v := n) hn.1 hn.2 data
  have hchunk : onChunk64 e m hw n since (encodeChunk m.id n data) = .write m hw n since n data := by
    simp only [onChunk64, onChunkWith, hdec, if_true]
    rw [if_neg (by simpa using hle), if_neg (not_not.mpr hoff.symm)]
  obtain ⟨s₁, hrun₁, hpc₁, hwrites₁⟩ : ∃ s₁, Run (recvStep64 e) (RecvState.start store) s₁ ∧
      s₁.pc = .write m hw n since n data ∧ s₁.writes = s.writes := by
    have hstep : recvStep64 e s (.received (.ok (encodeChunk m.id n data))) =
        some { s with
          pc := onChunk64 e m hw n since (encodeChunk m.id n data)
          received := s.received ++ [encodeChunk m.id n data] } := by simp only [recvStep64, hpc]
    exact ⟨_, hrun.snoc hstep, hchunk, rfl⟩
  obtain ⟨s₂, hstep₂⟩ : ∃ s₂, recvStep64 e s₁ (.wrote .success fun _ => 0) = some s₂ :=
    ⟨s₁.wrote64 e m hw n since n data .success fun _ => 0, by simp only [recvStep64, hpc₁]⟩
  obtain ⟨ec, junk, hev, hcase⟩ := wrote_of_step64 hpc₁ hstep₂
  cases hev
  rcases hcase with ⟨hec, -⟩ | ⟨-, -, hwrites₂, hpc₂⟩
  · cases hec
  rw [hoff, hwrites₁] at *
  have hrun₂ := hrun₁.snoc hstep₂
  rw [afterWrite] at hpc₂
  split at hpc₂
  · have hout : s₂.pc.outgoing e = some (encodeAck m.id (addInt64 n data.length)) := by rw [hpc₂]; rfl
    refine ⟨_, _, _, hrun₂.snoc (recvStep64_sent hout), by rw [hpc₂]; rfl, rfl, ?_⟩
    rw [← hwrites₂]
    exact RecvState.reportSent_writes _ _
  · exact ⟨s₂, _, _, hrun₂, hpc₂, rfl, hwrites₂⟩

/-- Not at the end yet, it goes on behind the chunk. -/
theorem StandsAt.next (h : StandsAt e store m n s) (hn : InInt64 n) (data : Bytes) {n' : ℤ}
    (hn' : addInt64 n data.length = n') (hlt : n' < m.size) :
    ∃ t, StandsAt e store m n' t ∧ t.writes = s.writes ++ [(n, data)] := by
  subst hn'
  obtain ⟨t, hw, since, hrun, hpc, hoff, hwrites⟩ := h.take hn hlt.le
  rw [chunkHead, if_pos hlt] at hpc
  exact ⟨t, ⟨hrun, hw, since, hpc, hoff⟩, hwrites⟩

/-- Chunks of one byte lead to any offset before the end. -/
theorem StandsAt.chunks (hsize : m.size < 2 ^ 63) (hlo : -2 ^ 63 ≤ n) (k : ℕ) (hlt : n + k < m.size)
    (h : StandsAt e store m n s) :
    ∃ t, StandsAt e store m (n + k) t ∧ ∀ c ∈ s.writes, c ∈ t.writes := by
  induction k generalizing n s with
  | zero => exact ⟨s, by simpa using h, fun _ hc => hc⟩
  | succ k ih =>
    have hstep : addInt64 n ([0] : Bytes).length = n + 1 :=
      addInt64_of_inInt64 ⟨by simp; omega, by simp; omega⟩
    obtain ⟨u, hu, hwrites⟩ := h.next ⟨hlo, by omega⟩ [0] hstep (by omega)
    obtain ⟨t, ht, hkeep⟩ := ih (by omega) (by omega) hu
    have hsum : n + 1 + (k : ℤ) = n + ((k + 1 : ℕ) : ℤ) := by push_cast; ring
    refine ⟨t, hsum ▸ ht, fun c hc => hkeep c ?_⟩
    rw [hwrites]
    exact List.mem_append_left _ hc

/-- In front of the last byte, it takes that byte and a Done without a hash, and returns success. -/
theorem StandsAt.success (h : StandsAt e store longestMeta (2 ^ 63 - 2) s) :
    ∃ t written, Run (recvStep64 e) (RecvState.start store) t ∧
      t.pc = .ret .success longestMeta written ∧ ∀ c ∈ s.writes, c ∈ t.writes := by
  have hlast : addInt64 (2 ^ 63 - 2) ([0] : Bytes).length = 2 ^ 63 - 1 :=
    addInt64_of_inInt64 ⟨by simp, by simp⟩
  have hfits : addInt64 (2 ^ 63 - 2) ([0] : Bytes).length ≤ longestMeta.size := hlast.le
  obtain ⟨u, hw, since, hrun, hpc, -, hwrites⟩ := h.take ⟨by simp, by simp⟩ hfits
  have hdone : u.pc = .done longestMeta hw (2 ^ 63 - 1) := by
    rw [hpc, hlast]
    rfl
  have hreply : onDone longestMeta (2 ^ 63 - 1) (e.sha256 hw.ctx)
      (encodeDone longestMeta.id true (Block.zero 32)) =
        .reply longestMeta (2 ^ 63 - 1) true (e.sha256 hw.ctx) (Block.zero 32) := by
    simp only [onDone, decodeFrame_encodeDone]
    rfl
  have hstep₁ : recvStep64 e u (.received (.ok (encodeDone longestMeta.id true (Block.zero 32)))) =
      some { u with
        pc := .reply longestMeta (2 ^ 63 - 1) true (e.sha256 hw.ctx) (Block.zero 32)
        received := u.received ++ [encodeDone longestMeta.id true (Block.zero 32)] } := by
    simp only [recvStep64, recvStep, hdone, RecvPc.waiting, RecvPc.onMessage, hreply]
  refine ⟨_, 2 ^ 63 - 1, (hrun.snoc hstep₁).snoc (recvStep64_sent rfl), rfl, fun c hc => ?_⟩
  have hmem : c ∈ u.writes := by
    rw [hwrites]
    exact List.mem_append_left _ hc
  exact (RecvState.reportSent_writes e _).symm ▸ hmem

theorem standsAt_start : ∃ s, StandsAt sampleRecvEnv (fun _ => 0) longestMeta 0 s := by
  obtain ⟨s, hrun, hpc⟩ : ∃ s, Run (recvStep64 sampleRecvEnv) (RecvState.start fun _ => 0) s ∧
      s.pc = .chunk longestMeta ⟨0, []⟩ 0 0 :=
    exists_run_of_exec [.received (encodeOffer longestMeta), .sent .success] ⟨_, rfl, rfl⟩
  exact ⟨s, hrun, _, _, hpc, rfl⟩

/-- A chunk of two bytes at `2 ^ 63 - 2` ends at `-2 ^ 63`. From there the attempt takes `2 ^ 64 - 1` bytes
more, returns success, and has hashed more than the offer announces. -/
theorem success_once_around :
    ∃ s written, Run (recvStep64 sampleRecvEnv) (RecvState.start fun _ => 0) s ∧
      s.pc = .ret .success longestMeta written ∧ ¬s.Content sampleRecvEnv := by
  obtain ⟨s₀, h₀⟩ := standsAt_start
  obtain ⟨s₁, h₁, -⟩ := h₀.chunks (by decide) (by decide) (2 ^ 63 - 2) (by decide)
  have hstart : (0 : ℤ) + ((2 ^ 63 - 2 : ℕ) : ℤ) = 2 ^ 63 - 2 := by norm_num
  rw [hstart] at h₁
  have hwrap : addInt64 (2 ^ 63 - 2) ([0, 0] : Bytes).length = -2 ^ 63 := by decide
  obtain ⟨s₂, h₂, hwrites⟩ := h₁.next ⟨by decide, by decide⟩ [0, 0] hwrap (by decide)
  obtain ⟨s₃, h₃, hkeep⟩ := h₂.chunks (by decide) (by decide) (2 ^ 64 - 2) (by decide)
  have hend : (-2 ^ 63 : ℤ) + ((2 ^ 64 - 2 : ℕ) : ℤ) = 2 ^ 63 - 2 := by norm_num
  rw [hend] at h₃
  obtain ⟨s, written, hrun, hret, hkeep'⟩ := h₃.success
  have hmem : ((2 ^ 63 - 2, [0, 0]) : ℤ × Bytes) ∈ s.writes :=
    hkeep' _ (hkeep _ (by rw [hwrites]; simp))
  refine ⟨s, written, hrun, hret, fun hcontent => ?_⟩
  obtain ⟨hcourse, hdone⟩ := course_reachable le_rfl hrun
  exact (hcourse.content_iff rfl hdone).mp hcontent ⟨_, _, _, hret, rfl⟩ _ hmem (by decide)

end TcpDuplex.Transfer
