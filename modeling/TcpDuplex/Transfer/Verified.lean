import TcpDuplex.Transfer.ReceiveOnce

/-!
# Received content is verified content

The digest of `receive_once` is fed along three routes: the whole sink when nothing is left to
receive, the resumed prefix block by block, and each chunk behind its write. `RecvPc.Sound` says what
all three have in common: at every call the bytes hashed are exactly the bytes of the sink below the
point the attempt has reached. The peer is arbitrary.
-/

namespace TcpDuplex.Transfer

open Machine

/-! ## The bytes below a point -/

/-- The digest was fed the sink's bytes below `n`, each once and in order. -/
structure Covers (σ : Store) (hashed : Bytes) (n : ℤ) : Prop where
  nonneg : 0 ≤ n
  hashed_eq : hashed = σ.read 0 n.toNat

theorem covers_zero (σ : Store) : Covers σ [] 0 := ⟨le_rfl, rfl⟩

/-- Hashing the next block of the sink. -/
theorem Covers.read {σ : Store} {hashed : Bytes} {n : ℤ} (h : Covers σ hashed n) (k : ℕ) :
    Covers σ (hashed ++ σ.read n k) (n + k) := by
  have hn := h.nonneg
  refine ⟨by omega, ?_⟩
  have hadd : (n + k).toNat = n.toNat + k := by omega
  have hstart : (0 : ℤ) + (n.toNat : ℤ) = n := by omega
  rw [hadd, Store.read_add, hstart, ← h.hashed_eq]

/-- Hashing the next block on the way to `size`. -/
theorem Covers.block {σ : Store} {hashed block : Bytes} {off size : ℤ} (h : Covers σ hashed off)
    (hlt : off < size) (hblock : block = σ.read off (blockLength off size)) :
    off + block.length ≤ size ∧ Covers σ (hashed ++ block) (off + block.length) := by
  have hlen : block.length = blockLength off size := by rw [hblock, Store.length_read]
  have hfit := blockLength_le hlt
  have hnext := h.read (blockLength off size)
  rw [← hblock, ← hlen] at hnext
  exact ⟨by omega, hnext⟩

/-- Writing a chunk at the point reached, and hashing it. -/
theorem Covers.write {σ : Store} {hashed : Bytes} {n : ℤ} (h : Covers σ hashed n) (data : Bytes) :
    Covers (σ.write n data) (hashed ++ data) (n + data.length) := by
  have hn := h.nonneg
  refine ⟨by omega, ?_⟩
  have hadd : (n + data.length).toNat = n.toNat + data.length := by omega
  rw [hadd, Store.read_write_append (by omega), ← h.hashed_eq]

/-- The `HashingWriter` stands at `written` and has hashed everything below it. -/
structure Follows (σ : Store) (hashed : Bytes) (hw : HashingWriter) (written : ℤ) : Prop where
  covers : Covers σ hashed written
  offset_eq : hw.offset = written
  ctx_eq : hw.ctx = hashed

/-! ## What a success stands on -/

/-- The first frame was an Offer of `m`. -/
def Offered (received : List Bytes) (m : Meta) : Prop :=
  ∃ msg dec, received.head? = some msg ∧ decodeFrame msg = .ok dec ∧ dec.typ = kTypeOffer ∧
    dec.info = m

/-- The last frame was a Done for `m`, with this hash. -/
def SaidDone (received : List Bytes) (m : Meta) (theirs : Hash) : Prop :=
  ∃ msg dec, received.getLast? = some msg ∧ decodeFrame msg = .ok dec ∧ dec.typ = kTypeDone ∧
    dec.id = m.id ∧ dec.hash = theirs

/-- A digest that is compared with the peer's: of the whole sink, if the sink can be read. -/
def Digest (e : RecvEnv) (σ : Store) (hashed : Bytes) (m : Meta) (sum : Hash) : Prop :=
  e.readable = true → Covers σ hashed m.size ∧ sum = e.sha256 hashed

/-- The digest `sum` of the sink agrees with the offer `m` and with the peer's Done, where these
carry a hash. -/
structure Verified (e : RecvEnv) (σ : Store) (hashed : Bytes) (received : List Bytes) (m : Meta)
    (sum theirs : Hash) : Prop where
  offered : Offered received m
  saidDone : SaidDone received m theirs
  digest : Digest e σ hashed m sum
  meta_hash : isZeroHash m.hash = false → sum = m.hash
  done_hash : isZeroHash theirs = false → sum = theirs

theorem Offered.snoc {received : List Bytes} {m : Meta} (h : Offered received m) (msg : Bytes) :
    Offered (received ++ [msg]) m := by
  obtain ⟨first, dec, hhead, hdec⟩ := h
  exact ⟨first, dec, by rw [List.head?_append, hhead]; rfl, hdec⟩

theorem hash_eq_of_verify {m : Meta} {theirs sum : Hash} (h : verify m theirs sum = true) :
    (isZeroHash m.hash = false → sum = m.hash) ∧ (isZeroHash theirs = false → sum = theirs) := by
  simp only [verify, Bool.and_eq_true, Bool.not_eq_true', Bool.and_eq_false_iff,
    Bool.not_eq_false', bne_eq_false_iff_eq] at h
  obtain ⟨hexpect, htheirs⟩ := h
  constructor
  · intro hm
    simp only [hm, Bool.false_eq_true, if_false, false_or] at hexpect
    exact hexpect
  · intro ht
    simp only [ht, Bool.false_eq_true, false_or] at htheirs
    exact htheirs.symm

/-! ## The invariant of one attempt -/

/-- What holds in front of each call: of the sink, the bytes hashed and the frames received. -/
def RecvPc.Sound (e : RecvEnv) (σ : Store) (hashed : Bytes) (received : List Bytes) : RecvPc → Prop
  | .offer => hashed = [] ∧ received = []
  | .reject _ _ err _ => err.failed = true
  | .accept m => Offered received m ∧ hashed = [] ∧ e.resumeOffset ≤ m.size
  | .hashAll m off ctx =>
    Offered received m ∧ e.resumeOffset = m.size ∧ off < m.size ∧ ctx = hashed ∧
      Covers σ hashed off
  | .doneAll m sum => Offered received m ∧ e.resumeOffset = m.size ∧ Digest e σ hashed m sum
  | .hashPrefix m off ctx =>
    Offered received m ∧ e.resumeOffset < m.size ∧ off < e.resumeOffset ∧ ctx = hashed ∧
      Covers σ hashed off
  | .abort m written err => err.failed = true ∧ written ≤ m.size
  | .chunk m hw written _ => Offered received m ∧ Follows σ hashed hw written ∧ written < m.size
  | .write m hw written _ off data =>
    Offered received m ∧ Follows σ hashed hw written ∧ off = written ∧ off + data.length ≤ m.size
  | .ack m hw written => Offered received m ∧ Follows σ hashed hw written ∧ written ≤ m.size
  | .done m hw written => Offered received m ∧ Follows σ hashed hw written ∧ written = m.size
  | .reply m written ok sum theirs =>
    written = m.size ∧ (ok = true → Verified e σ hashed received m sum theirs)
  | .ret err m written =>
    err.failed = false →
      written = m.size ∧ ∃ sum theirs, Verified e σ hashed received m sum theirs

/-- The invariant of an attempt. -/
def RecvState.Sound (e : RecvEnv) (s : RecvState) : Prop :=
  s.pc.Sound e s.store s.hashed s.received

variable {e : RecvEnv} {σ : Store} {hashed : Bytes} {received : List Bytes} {m : Meta}

/-- Returning an error. -/
theorem sound_ret {err : ErrorCode} (herr : err.failed = true) (written : ℤ) :
    (RecvPc.ret err m written).Sound e σ hashed received := by
  intro hok
  rw [herr] at hok
  cases hok

/-! ### The heads of the loops -/

theorem sound_hashAllHead (hoff : Offered received m) (hres : e.resumeOffset = m.size) {off : ℤ}
    (hle : off ≤ m.size) (hcov : Covers σ hashed off) :
    (hashAllHead e m off hashed).Sound e σ hashed received := by
  unfold hashAllHead
  split
  · rename_i hlt
    exact ⟨hoff, hres, hlt, rfl, hcov⟩
  · rename_i hge
    obtain rfl : off = m.size := by omega
    exact ⟨hoff, hres, fun _ => ⟨hcov, rfl⟩⟩

theorem sound_chunkHead (hoff : Offered received m) {hw : HashingWriter} {written : ℤ}
    (hfol : Follows σ hashed hw written) (hle : written ≤ m.size) (since : ℕ) :
    (chunkHead m hw written since).Sound e σ hashed received := by
  unfold chunkHead
  split
  · rename_i hlt
    exact ⟨hoff, hfol, hlt⟩
  · exact ⟨hoff, hfol, by omega⟩

theorem sound_hashPrefixHead (hoff : Offered received m) (hres : e.resumeOffset < m.size) {off : ℤ}
    (hle : off ≤ e.resumeOffset) (hcov : Covers σ hashed off) :
    (hashPrefixHead e m off hashed).Sound e σ hashed received := by
  unfold hashPrefixHead
  split
  · rename_i hlt
    exact ⟨hoff, hres, hlt, rfl, hcov⟩
  · rename_i hge
    obtain rfl : off = e.resumeOffset := by omega
    exact sound_chunkHead hoff ⟨hcov, rfl, rfl⟩ hres.le 0

theorem sound_afterAccept (hoff : Offered received m) (hres : 0 ≤ e.resumeOffset)
    (hle : e.resumeOffset ≤ m.size) : (afterAccept e m).Sound e σ [] received := by
  unfold afterAccept
  split_ifs with hall hread hpos hread'
  · exact sound_hashAllHead hoff hall (by omega) (covers_zero σ)
  · exact ⟨hoff, hall, fun h => absurd h hread⟩
  · exact sound_hashPrefixHead hoff (by omega) hpos.le (covers_zero σ)
  · exact ⟨rfl, hle⟩
  · have hzero : e.resumeOffset = 0 := by omega
    rw [hzero]
    exact sound_chunkHead hoff ⟨covers_zero σ, rfl, rfl⟩ (by omega) 0

theorem sound_afterWrite (hoff : Offered received m) {hw : HashingWriter} {written : ℤ}
    (h : Follows σ hashed hw written) (hle : written ≤ m.size) (since : ℕ) :
    (afterWrite e m hw written since).Sound e σ hashed received := by
  unfold afterWrite
  split
  · exact ⟨hoff, h, hle⟩
  · exact sound_chunkHead hoff h hle since

/-! ### Messages -/

theorem sound_onOffer (msg : Bytes) : (onOffer e msg).Sound e σ [] [msg] := by
  have h := onOffer_outcome e msg
  generalize onOffer e msg = pc at h ⊢
  cases h with
  | failed err herr => exact sound_ret herr _
  | refused m reason err out herr _ => exact herr
  | taken dec hdec htyp _ hle _ => exact ⟨⟨msg, dec, rfl, hdec, htyp, rfl⟩, rfl, hle⟩

/-- A Done, wherever it is accepted, leads to a reply that is `true` only for verified content. -/
theorem sound_verifyAndAckDone (hoff : Offered received m) {written : ℤ} (hw : written = m.size)
    {sum : Hash} (hsum : Digest e σ hashed m sum) {msg : Bytes} {dec : Decoded}
    (hdec : decodeFrame msg = .ok dec) (htyp : dec.typ = kTypeDone) (hid : dec.id = m.id) :
    (verifyAndAckDone m written dec.hash sum).Sound e σ hashed (received ++ [msg]) := by
  refine ⟨hw, fun hok => ?_⟩
  obtain ⟨hmeta, htheirs⟩ := hash_eq_of_verify hok
  exact ⟨hoff.snoc msg, ⟨msg, dec, List.getLast?_concat, hdec, htyp, hid, rfl⟩, hsum, hmeta, htheirs⟩

theorem sound_onDone (hoff : Offered received m) {sum : Hash} (hsum : Digest e σ hashed m sum)
    {written : ℤ} (hw : written = m.size) (msg : Bytes) :
    (onDone m written sum msg).Sound e σ hashed (received ++ [msg]) := by
  have h := onDone_outcome m written sum msg
  generalize onDone m written sum msg = pc at h ⊢
  cases h with
  | failed err herr => exact sound_ret herr _
  | replies dec hdec htyp hid => exact sound_verifyAndAckDone hoff hw hsum hdec htyp hid

theorem digest_of_follows {hw : HashingWriter} {written : ℤ} (h : Follows σ hashed hw written)
    (hsize : written = m.size) : Digest e σ hashed m (e.sha256 hw.ctx) := by
  intro _
  rw [h.ctx_eq, ← hsize]
  exact ⟨h.covers, rfl⟩

theorem sound_onChunk (hoff : Offered received m) {hw : HashingWriter} {written : ℤ}
    (h : Follows σ hashed hw written) (hlt : written < m.size) (since : ℕ) (msg : Bytes) :
    (onChunk e m hw written since msg).Sound e σ hashed (received ++ [msg]) := by
  have hout := onChunk_outcome e m hw written since msg
  generalize onChunk e m hw written since msg = pc at hout ⊢
  cases hout with
  | failed err herr => exact sound_ret herr _
  | misplaced => exact ⟨rfl, hlt.le⟩
  | writes dec hdec htyp hid hat hfit => exact ⟨hoff.snoc msg, h, hat, hfit⟩
  | replies dec hdec htyp hid hsize =>
    exact sound_verifyAndAckDone hoff hsize (digest_of_follows h hsize) hdec htyp hid

theorem sound_onMessage {pc : RecvPc} (h : pc.Sound e σ hashed received)
    (hpc : (pc.waiting e).isSome = true) (msg : Bytes) :
    (pc.onMessage e msg).Sound e σ hashed (received ++ [msg]) := by
  cases pc with
  | offer =>
    obtain ⟨rfl, rfl⟩ := h
    exact sound_onOffer msg
  | doneAll m sum => exact sound_onDone h.1 h.2.2 h.2.1 msg
  | chunk m hw written since => exact sound_onChunk h.1 h.2.1 h.2.2 since msg
  | done m hw written => exact sound_onDone h.1 (digest_of_follows h.2.1 h.2.2) h.2.2 msg
  | _ => cases hpc

/-! ### Sends -/

theorem sound_onSendFailed {pc : RecvPc} (h : pc.Sound e σ hashed received) {ec : ErrorCode}
    (hec : ec.failed = true) {out : Bytes} (hpc : pc.outgoing e = some out) :
    (pc.onSendFailed e ec).Sound e σ hashed received := by
  cases pc with
  | reject m reason err m' => exact sound_ret h _
  | accept m => exact sound_ret (failed_mapConnErr hec) _
  | abort m written err => exact sound_ret h.1 _
  | ack m hw written => exact sound_ret (failed_mapConnErr hec) _
  | reply m written ok sum theirs => exact sound_ret (failed_mapConnErr hec) _
  | _ => cases hpc

theorem sound_onSent (hres : 0 ≤ e.resumeOffset) {pc : RecvPc} (h : pc.Sound e σ hashed received)
    {out : Bytes} (hpc : pc.outgoing e = some out) : (pc.onSent e).Sound e σ hashed received := by
  cases pc with
  | reject m reason err m' => exact sound_ret h _
  | accept m =>
    obtain ⟨hoff, rfl, hle⟩ := h
    exact sound_afterAccept hoff hres hle
  | abort m written err => exact sound_ret h.1 _
  | ack m hw written => exact sound_chunkHead h.1 h.2.1 h.2.2 0
  | reply m written ok sum theirs =>
    cases ok with
    | true => exact fun _ => ⟨h.1, sum, theirs, h.2 rfl⟩
    | false => exact sound_ret rfl _
  | _ => cases hpc

/-- Every step of `receive_once` keeps the digest in line with the sink. -/
theorem RecvState.Sound.step (hres : 0 ≤ e.resumeOffset) {s t : RecvState} {ev : RecvEv}
    (h : s.Sound e) (hstep : recvStep e s ev = some t) : t.Sound e := by
  cases recvTrans_of_step hstep with
  | lost m written ec _ hec => exact sound_ret (failed_mapConnErr hec) _
  | message msg hpc => exact sound_onMessage h hpc msg
  | sendFailed msg ec hpc hec => exact sound_onSendFailed h hec hpc
  | sent msg ec hpc _ =>
    simp only [RecvState.Sound, RecvState.reportSent_store, RecvState.reportSent_hashed,
      RecvState.reportSent_received]
    exact sound_onSent hres h hpc
  | hashAllFailed m off ctx ec _ hec => exact sound_ret hec _
  | hashAll m off ctx block ec hpc _ hblock =>
    simp only [RecvState.Sound, hpc] at h
    obtain ⟨hoff, hall, hlt, rfl, hcov⟩ := h
    obtain ⟨hle, hnext⟩ := hcov.block hlt hblock
    exact sound_hashAllHead hoff hall hle hnext
  | hashPrefixFailed m off ctx ec hpc hec =>
    simp only [RecvState.Sound, hpc] at h
    exact ⟨hec, h.2.1.le⟩
  | hashPrefix m off ctx block ec hpc _ hblock =>
    simp only [RecvState.Sound, hpc] at h
    obtain ⟨hoff, hlt, hres', rfl, hcov⟩ := h
    obtain ⟨hle, hnext⟩ := hcov.block hres' hblock
    exact sound_hashPrefixHead hoff hlt hle hnext
  | writeFailed m hw written since off data ec junk hpc hec =>
    simp only [RecvState.Sound, hpc] at h
    obtain ⟨_, _, rfl, hfit⟩ := h
    exact ⟨hec, by omega⟩
  | wrote m hw written since off data ec junk hpc _ =>
    simp only [RecvState.Sound, hpc] at h
    obtain ⟨hoff, hfol, rfl, hfit⟩ := h
    simp only [RecvState.Sound, RecvState.report_pc, RecvState.report_store,
      RecvState.report_hashed, RecvState.report_received]
    refine sound_afterWrite hoff ⟨hfol.covers.write data, ?_, ?_⟩ hfit _
    · rw [hfol.offset_eq]
    · rw [hfol.ctx_eq]

theorem sound_reachable (hres : 0 ≤ e.resumeOffset) {s : RecvState}
    (h : Run (recvStep e) (RecvState.start σ) s) : s.Sound e :=
  Run.invariant (I := RecvState.Sound e) (fun _ _ _ hI hstep => hI.step hres hstep) h ⟨rfl, rfl⟩

/-! ## The reply -/

/-- Only `verify_and_ack_done` sends a Done. -/
theorem eq_reply_of_outgoing {pc : RecvPc} {id : ID} {ok : Bool} {sum : Hash}
    (h : pc.outgoing e = some (encodeDone id ok sum)) :
    ∃ m written theirs, pc = .reply m written ok sum theirs ∧ id = m.id := by
  cases pc with
  | reject m reason err out => cases type_eq_of_frame_eq (Option.some.inj h)
  | accept m => cases type_eq_of_frame_eq (Option.some.inj h)
  | abort m written err => cases type_eq_of_frame_eq (Option.some.inj h)
  | ack m hw written => cases type_eq_of_frame_eq (Option.some.inj h)
  | reply m written ok' sum' theirs =>
    obtain ⟨rfl, rfl, rfl⟩ := encodeDone_inj (Option.some.inj h)
    exact ⟨m, written, theirs, rfl, rfl⟩
  | _ => cases h

/-- A returned attempt makes no further step. -/
theorem not_ret_of_step {s t : RecvState} {ev : RecvEv} (hstep : recvStep e s ev = some t)
    (err : ErrorCode) (m : Meta) (written : ℤ) : s.pc ≠ .ret err m written := by
  intro hret
  cases ev with
  | received r => cases r <;> simp [recvStep, hret, RecvPc.waiting] at hstep
  | sent ec => simp [recvStep, hret, RecvPc.outgoing] at hstep
  | read ec => simp [recvStep, hret] at hstep
  | wrote ec junk => simp [recvStep, hret] at hstep

/-- What a step adds to the frames sent. -/
theorem sent_of_step {s t : RecvState} {ev : RecvEv} (hstep : recvStep e s ev = some t) :
    t.sent = s.sent ∨
      ∃ msg, s.pc.outgoing e = some msg ∧ t.sent = s.sent ++ [msg] ∧ t.pc = s.pc.onSent e := by
  cases recvTrans_of_step hstep with
  | sent msg ec hpc _ => exact .inr ⟨msg, hpc, rfl, rfl⟩
  | wrote => exact .inl (RecvState.report_sent _ _ _ _)
  | _ => exact .inl rfl

/-- A Done with `ok` was sent only by an attempt that has decided success. -/
def DoneSentOnSuccess (s : RecvState) : Prop :=
  ∀ id sum, encodeDone id true sum ∈ s.sent → ∃ m written, s.pc = .ret .success m written ∧ id = m.id

theorem DoneSentOnSuccess.step {s t : RecvState} {ev : RecvEv} (h : DoneSentOnSuccess s)
    (hstep : recvStep e s ev = some t) : DoneSentOnSuccess t := by
  intro id sum hmem
  have hold : encodeDone id true sum ∉ s.sent := by
    intro hs
    obtain ⟨m, written, hret, _⟩ := h id sum hs
    exact not_ret_of_step hstep _ _ _ hret
  rcases sent_of_step hstep with heq | ⟨msg, hout, heq, hpc⟩
  · exact absurd (heq ▸ hmem) hold
  · rw [heq, List.mem_append, List.mem_singleton] at hmem
    rcases hmem with hs | rfl
    · exact absurd hs hold
    · obtain ⟨m, written, theirs, hreply, hid⟩ := eq_reply_of_outgoing hout
      rw [hreply] at hpc
      exact ⟨m, written, hpc, hid⟩

/-! ### A sample -/

/-- The bytes `abc`. -/
def sampleContent : Bytes := [0x61, 0x62, 0x63]

/-- The SHA-256 of `abc`. -/
def sampleDigest : Hash :=
  ⟨[0xba, 0x78, 0x16, 0xbf, 0x8f, 0x01, 0xcf, 0xea, 0x41, 0x41, 0x40, 0xde, 0x5d, 0xae, 0x22, 0x23,
    0xb0, 0x03, 0x61, 0xa3, 0x96, 0x17, 0x7a, 0x9c, 0xb4, 0x10, 0xff, 0x61, 0xf2, 0x00, 0x15, 0xad],
    rfl⟩

/-- An offer of `abc`. -/
def sampleMeta : Meta where
  id := ⟨List.replicate 16 7, rfl⟩
  name := []
  size := 3
  hash := sampleDigest

/-- The digest of `abc`; nothing else is hashed in the samples. -/
def sampleSha256 (b : Bytes) : Hash := if b = sampleContent then sampleDigest else Block.zero 32

/-- A fresh attempt to receive, with the default options. -/
def sampleRecvEnv : RecvEnv where
  opts := normalize none
  readable := true
  resumeOffset := 0
  expectMeta := false
  want := {}
  sha256 := sampleSha256
  ext := fun _ => ""

/-- Offer, one chunk with the whole content, and Done. -/
def sampleRecvTrace : List RecvEv :=
  [.received (encodeOffer sampleMeta), .sent .success,
    .received (.ok (encodeChunk sampleMeta.id 0 sampleContent)), .wrote .success fun _ => 0,
    .sent .success, .received (.ok (encodeDone sampleMeta.id true sampleDigest)), .sent .success]

end TcpDuplex.Transfer
