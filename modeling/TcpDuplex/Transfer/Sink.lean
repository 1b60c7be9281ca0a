import TcpDuplex.Transfer.Verified

/-!
# The sink against any sender

Offsets, sizes and ids come from the peer. Whatever it sends, `receive_once` calls `write_at` of the
sink for contiguous pieces only, from the resume offset on and never past the offered size, each of
them the data of a Chunk frame of this transfer. The calls are logged next to the attempt, whether they
succeed or not.
-/

namespace TcpDuplex.Transfer

open Machine

variable {e : RecvEnv}

/-- An attempt, and the calls of `write_at` it has made. -/
structure Logged where
  state : RecvState
  calls : List (ℤ × Bytes) := []

/-- The call of `write_at` that comes next. -/
def RecvPc.writeCall : RecvPc → Option (ℤ × Bytes)
  | .write _ _ _ _ off data => some (off, data)
  | _ => none

/-- One step of `receive_once`, which logs a call of `write_at` that returned. -/
def loggedStep (e : RecvEnv) (l : Logged) (ev : RecvEv) : Option Logged :=
  (recvStep e l.state ev).map fun t =>
    match ev with
    | .wrote _ _ => { state := t, calls := l.calls ++ l.state.pc.writeCall.toList }
    | _ => { state := t, calls := l.calls }

/-- Pieces that follow one another from `lo` to `hi`. -/
inductive Contiguous (lo : ℤ) : ℤ → List (ℤ × Bytes) → Prop where
  | nil : Contiguous lo lo []
  | snoc {hi : ℤ} {l : List (ℤ × Bytes)} (h : Contiguous lo hi l) (data : Bytes) :
      Contiguous lo (hi + data.length) (l ++ [(hi, data)])

/-- The piece is the content of a received Chunk frame that carries this id. -/
def FromChunk (received : List Bytes) (id : ID) (piece : ℤ × Bytes) : Prop :=
  ∃ msg ∈ received, ∃ dec, decodeFrame msg = .ok dec ∧ dec.typ = kTypeChunk ∧ dec.id = id ∧
    dec.offset = piece.1 ∧ dec.data = piece.2

/-- The progress calls do not decrease and stay between `lo` and `hi`, with this total. -/
structure ProgressWithin (progress : List (ℤ × ℤ)) (lo hi total : ℤ) : Prop where
  sorted : (progress.map Prod.fst).Pairwise (· ≤ ·)
  within : ∀ p ∈ progress, lo ≤ p.1 ∧ p.1 ≤ hi ∧ p.2 = total

/-- Nothing has been accepted, written or reported. -/
structure Untouched (s : RecvState) (calls : List (ℤ × Bytes)) : Prop where
  writes_nil : s.writes = []
  calls_nil : calls = []
  progress_nil : s.progress = []

/-- The offer `m` has been accepted and the content written up to `written`. -/
structure Filled (e : RecvEnv) (s : RecvState) (m : Meta) (written : ℤ) : Prop where
  offered : Offered s.received m
  accepted : encodeAccept m.id e.resumeOffset ∈ s.sent
  le_size : written ≤ m.size
  contiguous : Contiguous e.resumeOffset written s.writes
  from_chunks : ∀ c ∈ s.writes, FromChunk s.received m.id c
  progress : ProgressWithin s.progress e.resumeOffset written m.size

/-- The calls made: the writes that succeeded, and at most one behind them that did not. -/
def Called (s : RecvState) (calls : List (ℤ × Bytes)) (m : Meta) (written : ℤ) : Prop :=
  calls = s.writes ∨ ∃ data : Bytes, calls = s.writes ++ [(written, data)] ∧
    written + data.length ≤ m.size ∧ FromChunk s.received m.id (written, data)

/-- What holds in front of each call of `receive_once`. -/
def Placed (e : RecvEnv) (s : RecvState) (calls : List (ℤ × Bytes)) : Prop :=
  match s.pc with
  | .offer => s.received = [] ∧ Untouched s calls
  | .reject .. => Untouched s calls
  | .accept m => Offered s.received m ∧ e.resumeOffset ≤ m.size ∧ Untouched s calls
  | .hashAll m _ _ | .doneAll m _ | .hashPrefix m _ _ =>
    Filled e s m e.resumeOffset ∧ calls = s.writes
  | .chunk m _ written _ | .ack m _ written | .done m _ written | .reply m written _ _ _ =>
    Filled e s m written ∧ calls = s.writes
  | .write m _ written _ off data =>
    Filled e s m written ∧ calls = s.writes ∧ off = written ∧ written + data.length ≤ m.size ∧
      FromChunk s.received m.id (off, data)
  | .abort m written _ => Filled e s m written ∧ Called s calls m written
  | .ret _ _ written =>
    Untouched s calls ∧ written = e.resumeOffset ∨
      ∃ m, Filled e s m written ∧ Called s calls m written

/-! ## Between the calls -/

variable {s : RecvState} {calls : List (ℤ × Bytes)} {m : Meta} {written : ℤ}

theorem Untouched.setPc (h : Untouched s calls) (pc : RecvPc) :
    Untouched { s with pc := pc } calls := ⟨h.writes_nil, h.calls_nil, h.progress_nil⟩

theorem Filled.setPc (h : Filled e s m written) (pc : RecvPc) :
    Filled e { s with pc := pc } m written :=
  ⟨h.offered, h.accepted, h.le_size, h.contiguous, h.from_chunks, h.progress⟩

theorem FromChunk.append {received : List Bytes} {id : ID} {piece : ℤ × Bytes}
    (h : FromChunk received id piece) (msg : Bytes) : FromChunk (received ++ [msg]) id piece := by
  obtain ⟨msg', hmem, hdec⟩ := h
  exact ⟨msg', List.mem_append_left _ hmem, hdec⟩

/-- The state with one more frame received. -/
def RecvState.took (s : RecvState) (pc : RecvPc) (msg : Bytes) : RecvState :=
  { s with pc := pc, received := s.received ++ [msg] }

theorem Filled.took (h : Filled e s m written) (pc : RecvPc) (msg : Bytes) :
    Filled e (s.took pc msg) m written where
  offered := h.offered.snoc msg
  accepted := h.accepted
  le_size := h.le_size
  contiguous := h.contiguous
  from_chunks c hc := (h.from_chunks c hc).append msg
  progress := h.progress

theorem placed_hashAllHead (h : Filled e s m e.resumeOffset) (hcalls : calls = s.writes) (off : ℤ)
    (ctx : Bytes) : Placed e { s with pc := hashAllHead e m off ctx } calls := by
  unfold hashAllHead
  split
  · exact ⟨h.setPc _, hcalls⟩
  · exact ⟨h.setPc _, hcalls⟩

theorem placed_chunkHead (h : Filled e s m written) (hcalls : calls = s.writes) (hw : HashingWriter)
    (since : ℕ) : Placed e { s with pc := chunkHead m hw written since } calls := by
  unfold chunkHead
  split
  · exact ⟨h.setPc _, hcalls⟩
  · exact ⟨h.setPc _, hcalls⟩

theorem placed_hashPrefixHead (h : Filled e s m e.resumeOffset) (hcalls : calls = s.writes)
    (off : ℤ) (ctx : Bytes) : Placed e { s with pc := hashPrefixHead e m off ctx } calls := by
  unfold hashPrefixHead
  split
  · exact ⟨h.setPc _, hcalls⟩
  · exact placed_chunkHead h hcalls _ _

theorem placed_afterAccept (h : Filled e s m e.resumeOffset) (hcalls : calls = s.writes) :
    Placed e { s with pc := afterAccept e m } calls := by
  unfold afterAccept
  split_ifs
  · exact placed_hashAllHead h hcalls _ _
  · exact ⟨h.setPc _, hcalls⟩
  · exact placed_hashPrefixHead h hcalls _ _
  · exact ⟨h.setPc _, .inl hcalls⟩
  · exact placed_chunkHead h hcalls _ _

theorem placed_afterWrite (h : Filled e s m written) (hcalls : calls = s.writes)
    (hw : HashingWriter) (since : ℕ) :
    Placed e { s with pc := afterWrite e m hw written since } calls := by
  unfold afterWrite
  split
  · exact ⟨h.setPc _, hcalls⟩
  · exact placed_chunkHead h hcalls _ _

/-! ## Messages -/

theorem placed_onOffer (h : Untouched s calls) (hrecv : s.received = []) (msg : Bytes) :
    Placed e (s.took (onOffer e msg) msg) calls := by
  have hnone : ∀ pc, Untouched (s.took pc msg) calls :=
    fun _ => ⟨h.writes_nil, h.calls_nil, h.progress_nil⟩
  have hout := onOffer_outcome e msg
  generalize onOffer e msg = pc at hout ⊢
  cases hout with
  | failed err _ => exact .inl ⟨hnone _, rfl⟩
  | refused m reason err out _ _ => exact hnone _
  | taken dec hdec htyp _ hle _ =>
    exact ⟨⟨msg, dec, by simp [RecvState.took, hrecv], hdec, htyp, rfl⟩, hle, hnone _⟩

/-- Returning from behind the Accept. -/
theorem placed_took_ret (h : Filled e s m written) (hcalls : calls = s.writes) (msg : Bytes)
    (err : ErrorCode) (out : Meta) : Placed e (s.took (.ret err out written) msg) calls :=
  .inr ⟨m, h.took _ msg, .inl hcalls⟩

theorem placed_onDone (h : Filled e s m written) (hcalls : calls = s.writes) (sum : Hash)
    (msg : Bytes) : Placed e (s.took (onDone m written sum msg) msg) calls := by
  have hout := onDone_outcome m written sum msg
  generalize onDone m written sum msg = pc at hout ⊢
  cases hout with
  | failed err _ => exact placed_took_ret h hcalls msg _ _
  | replies dec => exact ⟨h.took _ msg, hcalls⟩

theorem placed_onChunk (h : Filled e s m written) (hcalls : calls = s.writes) (hw : HashingWriter)
    (since : ℕ) (msg : Bytes) : Placed e (s.took (onChunk e m hw written since msg) msg) calls := by
  have hout := onChunk_outcome e m hw written since msg
  generalize onChunk e m hw written since msg = pc at hout ⊢
  cases hout with
  | failed err _ => exact placed_took_ret h hcalls msg _ _
  | misplaced => exact ⟨h.took _ msg, .inl hcalls⟩
  | writes dec hdec htyp hid hoff hfit =>
    refine ⟨h.took _ msg, hcalls, hoff, hoff ▸ hfit, ?_⟩
    exact ⟨msg, by simp [RecvState.took], dec, hdec, htyp, hid, rfl, rfl⟩
  | replies dec => exact ⟨h.took _ msg, hcalls⟩

theorem Placed.onMessage (h : Placed e s calls) (hwait : (s.pc.waiting e).isSome = true)
    (msg : Bytes) : Placed e (s.took (s.pc.onMessage e msg) msg) calls := by
  obtain ⟨pc, store, received, sent, writes, hashed, progress⟩ := s
  cases pc with
  | offer => exact placed_onOffer h.2 h.1 msg
  | doneAll m sum => exact placed_onDone h.1 h.2 sum msg
  | chunk m hw written since => exact placed_onChunk h.1 h.2 hw since msg
  | done m hw written => exact placed_onDone h.1 h.2 _ msg
  | _ => cases hwait

/-! ## Sends -/

theorem ProgressWithin.snoc {progress : List (ℤ × ℤ)} {lo hi hi' total : ℤ}
    (h : ProgressWithin progress lo hi total) (hlo : lo ≤ hi') (hle : hi ≤ hi') :
    ProgressWithin (progress ++ [(hi', total)]) lo hi' total := by
  constructor
  · simp only [List.map_append, List.map_cons, List.map_nil, List.pairwise_append, h.sorted,
      List.pairwise_singleton, true_and, List.mem_singleton, forall_eq]
    intro x hx
    obtain ⟨p, hp, rfl⟩ := List.mem_map.mp hx
    exact (h.within p hp).2.1.trans hle
  · intro p hp
    rcases List.mem_append.mp hp with hold | hnew
    · obtain ⟨h1, h2, h3⟩ := h.within p hold
      exact ⟨h1, h2.trans hle, h3⟩
    · rw [List.mem_singleton.mp hnew]
      exact ⟨hlo, le_rfl, rfl⟩

theorem ProgressWithin.mono {progress : List (ℤ × ℤ)} {lo hi hi' total : ℤ}
    (h : ProgressWithin progress lo hi total) (hle : hi ≤ hi') :
    ProgressWithin progress lo hi' total :=
  ⟨h.sorted, fun p hp => ⟨(h.within p hp).1, (h.within p hp).2.1.trans hle, (h.within p hp).2.2⟩⟩

theorem Contiguous.le {lo hi : ℤ} {l : List (ℤ × Bytes)} (h : Contiguous lo hi l) : lo ≤ hi := by
  induction h with
  | nil => exact le_rfl
  | snoc _ data ih => omega

/-- A progress call at a point that has just been reached. -/
theorem ProgressWithin.report {s : RecvState} {hi hi' total : ℤ}
    (h : ProgressWithin s.progress e.resumeOffset hi total) (hlo : e.resumeOffset ≤ hi')
    (hle : hi ≤ hi') :
    ProgressWithin (s.report e hi' total).progress e.resumeOffset hi' total := by
  unfold RecvState.report
  split
  · exact h.snoc hlo hle
  · exact h.mono hle

/-- A progress call does not look at the counter. -/
theorem RecvState.report_setPc (s : RecvState) (pc : RecvPc) (i n : ℤ) :
    RecvState.report e { s with pc := pc } i n = { s.report e i n with pc := pc } := by
  unfold report
  split <;> rfl

/-- The Accept is out: the attempt is at its start. -/
theorem filled_of_accept (hpc : s.pc = .accept m) (hoff : Offered s.received m)
    (hle : e.resumeOffset ≤ m.size) (h : Untouched s calls) (pc : RecvPc) :
    Filled e { s.reportSent e with pc := pc, sent := s.sent ++ [encodeAccept m.id e.resumeOffset] } m
      e.resumeOffset where
  offered := by rwa [RecvState.reportSent_received]
  accepted := List.mem_append_right _ (List.mem_singleton_self _)
  le_size := hle
  contiguous := by
    simp only [RecvState.reportSent, hpc, RecvState.report_writes, h.writes_nil]
    exact .nil
  from_chunks := by
    simp only [RecvState.reportSent, hpc, RecvState.report_writes, h.writes_nil]
    exact nofun
  progress := by
    have hnone : ProgressWithin s.progress e.resumeOffset e.resumeOffset m.size := by
      rw [h.progress_nil]
      exact ⟨List.Pairwise.nil, nofun⟩
    simp only [RecvState.reportSent, hpc]
    exact hnone.report le_rfl le_rfl

/-- A frame sent behind the Accept changes nothing that is kept. -/
theorem Filled.sent (h : Filled e s m written) (pc : RecvPc) (msg : Bytes) :
    Filled e { s with pc := pc, sent := s.sent ++ [msg] } m written :=
  ⟨h.offered, List.mem_append_left _ h.accepted, h.le_size, h.contiguous, h.from_chunks, h.progress⟩

theorem Placed.onSent (h : Placed e s calls) {msg : Bytes} (hout : s.pc.outgoing e = some msg) :
    Placed e { s.reportSent e with pc := s.pc.onSent e, sent := s.sent ++ [msg] } calls := by
  cases hpc : s.pc with
  | reject m reason err out =>
    simp only [Placed, hpc] at h
    simp only [RecvState.reportSent, hpc]
    exact .inl ⟨⟨h.writes_nil, h.calls_nil, h.progress_nil⟩, rfl⟩
  | accept m =>
    simp only [Placed, hpc] at h
    obtain ⟨hoff, hle, hnone⟩ := h
    rw [hpc] at hout
    cases hout
    refine placed_afterAccept (s := { s.reportSent e with
      sent := s.sent ++ [encodeAccept m.id e.resumeOffset] })
      (filled_of_accept hpc hoff hle hnone _) ?_
    simp only [RecvState.reportSent, hpc, RecvState.report_writes, hnone.writes_nil, hnone.calls_nil]
  | abort m written err =>
    simp only [Placed, hpc] at h
    simp only [RecvState.reportSent, hpc]
    exact .inr ⟨m, h.1.sent _ msg, h.2⟩
  | ack m hw written =>
    simp only [Placed, hpc] at h
    simp only [RecvState.reportSent, hpc]
    exact placed_chunkHead (h.1.sent (.ack m hw written) msg) h.2 hw 0
  | reply m written ok sum theirs =>
    simp only [Placed, hpc] at h
    simp only [RecvState.reportSent, hpc]
    exact .inr ⟨m, h.1.sent _ msg, .inl h.2⟩
  | _ =>
    rw [hpc] at hout
    cases hout

theorem Placed.onSendFailed (h : Placed e s calls) {msg : Bytes}
    (hout : s.pc.outgoing e = some msg) (ec : ErrorCode) :
    Placed e { s with pc := s.pc.onSendFailed e ec } calls := by
  obtain ⟨pc, store, received, sent, writes, hashed, progress⟩ := s
  cases pc with
  | reject m reason err out => exact .inl ⟨h.setPc _, rfl⟩
  | accept m => exact .inl ⟨h.2.2.setPc _, rfl⟩
  | abort m written err => exact .inr ⟨m, h.1.setPc _, h.2⟩
  | ack m hw written => exact .inr ⟨m, h.1.setPc _, .inl h.2⟩
  | reply m written ok sum theirs => exact .inr ⟨m, h.1.setPc _, .inl h.2⟩
  | _ => cases hout

theorem Placed.lost (h : Placed e s calls) {out : Meta} {written : ℤ}
    (hwait : s.pc.waiting e = some (out, written)) (err : ErrorCode) :
    Placed e { s with pc := .ret err out written } calls := by
  obtain ⟨pc, store, received, sent, writes, hashed, progress⟩ := s
  cases pc with
  | offer =>
    cases hwait
    exact .inl ⟨h.2.setPc _, rfl⟩
  | doneAll m sum =>
    cases hwait
    exact .inr ⟨_, h.1.setPc _, .inl h.2⟩
  | chunk m hw written' since =>
    cases hwait
    exact .inr ⟨_, h.1.setPc _, .inl h.2⟩
  | done m hw written' =>
    cases hwait
    exact .inr ⟨_, h.1.setPc _, .inl h.2⟩
  | _ => cases hwait

/-! ## Writes -/

/-- A chunk is written where the last one ended. -/
theorem Filled.wrote {data : Bytes} (h : Filled e s m written)
    (hfit : written + data.length ≤ m.size) (hchunk : FromChunk s.received m.id (written, data))
    (pc : RecvPc) (store : Store) (hashed : Bytes) :
    Filled e
      (RecvState.report e
        { s with
          pc := pc
          store := store
          writes := s.writes ++ [(written, data)]
          hashed := hashed }
        (written + data.length) m.size) m (written + data.length) where
  offered := by
    rw [RecvState.report_received]
    exact h.offered
  accepted := by
    rw [RecvState.report_sent]
    exact h.accepted
  le_size := hfit
  contiguous := by
    rw [RecvState.report_writes]
    exact h.contiguous.snoc data
  from_chunks := by
    intro c hc
    rw [RecvState.report_writes] at hc
    rw [RecvState.report_received]
    rcases List.mem_append.mp hc with hold | hnew
    · exact h.from_chunks c hold
    · rw [List.mem_singleton.mp hnew]
      exact hchunk
  progress := by
    have hlo := h.contiguous.le
    refine ProgressWithin.report (s := { s with
      pc := pc, store := store, writes := s.writes ++ [(written, data)], hashed := hashed })
      h.progress ?_ ?_
    · omega
    · omega

/-- Every frame a peer can send, and every failure of the connection and of the sink, leaves the
writes in place. -/
theorem Placed.step {l l' : Logged} {ev : RecvEv} (h : Placed e l.state l.calls)
    (hstep : loggedStep e l ev = some l') : Placed e l'.state l'.calls := by
  obtain ⟨t, ht, rfl⟩ := Option.map_eq_some_iff.mp hstep
  cases recvTrans_of_step ht with
  | lost m written ec hwait _ => exact h.lost hwait _
  | message msg hwait => exact h.onMessage hwait msg
  | sendFailed msg ec hout _ => exact h.onSendFailed hout ec
  | sent msg ec hout _ => exact h.onSent hout
  | hashAllFailed m off ctx ec hpc _ =>
    simp only [Placed, hpc] at h
    exact .inr ⟨m, h.1.setPc _, .inl h.2⟩
  | hashAll m off ctx block ec hpc _ _ =>
    simp only [Placed, hpc] at h
    exact placed_hashAllHead (s := { l.state with hashed := l.state.hashed ++ block })
      ⟨h.1.offered, h.1.accepted, h.1.le_size, h.1.contiguous, h.1.from_chunks, h.1.progress⟩ h.2 _ _
  | hashPrefixFailed m off ctx ec hpc _ =>
    simp only [Placed, hpc] at h
    exact ⟨h.1.setPc _, .inl h.2⟩
  | hashPrefix m off ctx block ec hpc _ _ =>
    simp only [Placed, hpc] at h
    exact placed_hashPrefixHead (s := { l.state with hashed := l.state.hashed ++ block })
      ⟨h.1.offered, h.1.accepted, h.1.le_size, h.1.contiguous, h.1.from_chunks, h.1.progress⟩ h.2 _ _
  | writeFailed m hw written since off data ec junk hpc _ =>
    simp only [Placed, hpc] at h
    obtain ⟨hfilled, hcalls, rfl, hfit, hchunk⟩ := h
    simp only [hpc, RecvPc.writeCall, Option.toList_some, hcalls]
    exact ⟨⟨hfilled.offered, hfilled.accepted, hfilled.le_size, hfilled.contiguous,
      hfilled.from_chunks, hfilled.progress⟩, .inr ⟨data, rfl, hfit, hchunk⟩⟩
  | wrote m hw written since off data ec junk hpc _ =>
    simp only [Placed, hpc] at h
    obtain ⟨hfilled, hcalls, rfl, hfit, hchunk⟩ := h
    simp only [hpc, RecvPc.writeCall, Option.toList_some, hcalls]
    have hnext := hfilled.wrote hfit hchunk l.state.pc (l.state.store.write off data)
      (l.state.hashed ++ data)
    have hcalls' := RecvState.report_writes e { l.state with
      store := l.state.store.write off data, writes := l.state.writes ++ [(off, data)],
      hashed := l.state.hashed ++ data } (off + data.length) m.size
    have hplaced := placed_afterWrite hnext hcalls'.symm
      ⟨hw.offset + data.length, hw.ctx ++ data⟩ (since + 1)
    rwa [← RecvState.report_setPc] at hplaced

theorem placed_reachable {l : Logged} {store : Store}
    (h : Run (loggedStep e) { state := RecvState.start store } l) : Placed e l.state l.calls :=
  Run.invariant (I := fun l : Logged => Placed e l.state l.calls)
    (fun _ _ _ hI hstep => hI.step hstep) h ⟨rfl, rfl, rfl, rfl⟩

/-! ## Every state of an attempt -/

/-- The attempt has touched nothing, or has filled the sink up to where it stands. -/
theorem Placed.cases (h : Placed e s calls) :
    Untouched s calls ∨ ∃ m written, Filled e s m written ∧ Called s calls m written := by
  unfold Placed at h
  split at h
  · exact .inl h.2
  · exact .inl h
  · exact .inl h.2.2
  · exact .inr ⟨_, _, h.1, .inl h.2⟩
  · exact .inr ⟨_, _, h.1, .inl h.2⟩
  · exact .inr ⟨_, _, h.1, .inl h.2⟩
  · exact .inr ⟨_, _, h.1, .inl h.2⟩
  · exact .inr ⟨_, _, h.1, .inl h.2⟩
  · exact .inr ⟨_, _, h.1, .inl h.2⟩
  · exact .inr ⟨_, _, h.1, .inl h.2⟩
  · exact .inr ⟨_, _, h.1, .inl h.2.1⟩
  · exact .inr ⟨_, _, h.1, h.2⟩
  · rcases h with hnone | ⟨m, hfilled⟩
    · exact .inl hnone.1
    · exact .inr ⟨m, _, hfilled⟩

theorem Contiguous.eq_sum {lo hi : ℤ} {l : List (ℤ × Bytes)} (h : Contiguous lo hi l) :
    hi = lo + (l.map fun c => c.2.length).sum := by
  induction h with
  | nil => simp
  | snoc _ data ih =>
    rw [List.map_append, List.sum_append, ih]
    simp
    omega

/-- The calls, all of them, are contiguous and come from Chunk frames of the offer. -/
theorem Called.contiguous (h : Filled e s m written) (hcalled : Called s calls m written) :
    (∃ hi, Contiguous e.resumeOffset hi calls ∧ hi ≤ m.size) ∧
      ∀ c ∈ calls, FromChunk s.received m.id c := by
  rcases hcalled with rfl | ⟨data, rfl, hfit, hchunk⟩
  · exact ⟨⟨written, h.contiguous, h.le_size⟩, h.from_chunks⟩
  · refine ⟨⟨_, h.contiguous.snoc data, hfit⟩, fun c hc => ?_⟩
    rcases List.mem_append.mp hc with hold | hnew
    · exact h.from_chunks c hold
    · rw [List.mem_singleton.mp hnew]
      exact hchunk

theorem Placed.writtenOut (h : Placed e s calls) {err : ErrorCode} {out : Meta} {w : ℤ}
    (hret : s.pc = .ret err out w) :
    w = e.resumeOffset + (s.writes.map fun c => c.2.length).sum := by
  simp only [Placed, hret] at h
  rcases h with ⟨hnone, rfl⟩ | ⟨m, hfilled, _⟩
  · simp [hnone.writes_nil]
  · exact hfilled.contiguous.eq_sum

/-- **The sink is written in place, against any sender.** The calls of `write_at` are contiguous from
the resume offset on, stay within the offered size and carry the data of Chunk frames of the offer;
only the last one may have failed. `written_out` counts the bytes written, the progress does not
decrease and stays between the resume offset and the size, and before an Accept is sent nothing is
written. -/
theorem sink_written_in_place (e : RecvEnv) (store : Store) (l : Logged)
    (h : Run (loggedStep e) { state := RecvState.start store } l) :
    (l.calls = [] ∨ ∃ m, Offered l.state.received m ∧
      (∃ hi, Contiguous e.resumeOffset hi l.calls ∧ hi ≤ m.size) ∧
      ∀ c ∈ l.calls, FromChunk l.state.received m.id c) ∧
    (l.calls = l.state.writes ∨ ∃ c, l.calls = l.state.writes ++ [c]) ∧
    (∀ err out w, l.state.pc = .ret err out w →
      w = e.resumeOffset + (l.state.writes.map fun c => c.2.length).sum) ∧
    ((l.state.progress.map Prod.fst).Pairwise (· ≤ ·) ∧ ∀ p ∈ l.state.progress,
      ∃ m, Offered l.state.received m ∧ e.resumeOffset ≤ p.1 ∧ p.1 ≤ m.size) ∧
    ((∀ id v, encodeAccept id v ∉ l.state.sent) → l.calls = [] ∧
      ∀ err out w, l.state.pc = .ret err out w → w = e.resumeOffset) := by
  have hplaced := placed_reachable h
  rcases hplaced.cases with hnone | ⟨m, written, hfilled, hcalled⟩
  · refine ⟨.inl hnone.calls_nil, .inl (hnone.calls_nil.trans hnone.writes_nil.symm),
      fun err out w hret => hplaced.writtenOut hret, ?_, fun _ => ⟨hnone.calls_nil, ?_⟩⟩
    · rw [hnone.progress_nil]
      exact ⟨List.Pairwise.nil, nofun⟩
    · intro err out w hret
      rw [hplaced.writtenOut hret, hnone.writes_nil]
      simp
  · obtain ⟨hcontig, hchunks⟩ := Called.contiguous hfilled hcalled
    refine ⟨.inr ⟨m, hfilled.offered, hcontig, hchunks⟩, ?_,
      fun err out w hret => hplaced.writtenOut hret, ⟨hfilled.progress.sorted, ?_⟩, ?_⟩
    · rcases hcalled with hcalls | ⟨data, hcalls, _⟩
      · exact .inl hcalls
      · exact .inr ⟨_, hcalls⟩
    · intro p hp
      obtain ⟨hlo, hhi, _⟩ := hfilled.progress.within p hp
      exact ⟨m, hfilled.offered, hlo, hhi.trans hfilled.le_size⟩
    · intro hno
      exact absurd hfilled.accepted (hno _ _)

/-- The three bytes of `abc` go to the offsets 0 to 2, in one call. -/
theorem abc_written_in_place :
    ∃ l, Run (loggedStep sampleRecvEnv) { state := RecvState.start fun _ => 0 } l ∧
      l.state.pc = .ret .success sampleMeta 3 ∧
      ∃ m, Offered l.state.received m ∧
        (∃ hi, Contiguous 0 hi l.calls ∧ hi ≤ m.size) ∧
        ∀ c ∈ l.calls, FromChunk l.state.received m.id c := by
  obtain ⟨l, hrun, hret, hcalls⟩ :
      ∃ l, Run (loggedStep sampleRecvEnv) { state := RecvState.start fun _ => 0 } l ∧
        l.state.pc = .ret .success sampleMeta 3 ∧ l.calls = [(0, sampleContent)] :=
    exists_run_of_exec sampleRecvTrace ⟨_, rfl, rfl, rfl⟩
  refine ⟨l, hrun, hret, ?_⟩
  rcases (sink_written_in_place sampleRecvEnv _ l hrun).1 with hnone | hsome
  · rw [hcalls] at hnone
    cases hnone
  · exact hsome

end TcpDuplex.Transfer
