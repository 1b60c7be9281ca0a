import TcpDuplex.Session
import TcpDuplex.Socket

/-!
# Records over a socket (`protocol.cpp`)

`read_record` and `write_record` on a `ByteStream` over a `TcpSocket`, call by call.
`Protocol.readRecord` and `Protocol.recordBytes` say the same of a stream that is there as a whole:
`run_readRecord` and `run_writeRecord` show that the way in which the socket cuts the stream makes no
difference.
-/

namespace TcpDuplex.ByteStream

open StreamProg TcpSocket

/-- `std::vector<std::uint8_t>(n)`. -/
def buffer (n : ℕ) : Bytes := List.replicate n 0

/-- `read_record`: the message type and the sealed blob. -/
def readRecord : StreamProg Int32 (Except ErrorCode (UInt8 × Bytes)) :=
  (readExact (buffer 4)).bind fun head =>
    if head.1.failed then .ret (.error head.1)
    else if Protocol.lengthOk (Protocol.getBe32 head.2) then
      (readExact (buffer (Protocol.getBe32 head.2))).bind fun body =>
        if body.1.failed then .ret (.error body.1)
        else .ret (.ok (body.2.headD 0, body.2.tail))
    else .ret (.error Errc.badFrame.code)

/-- `write_record`. -/
def writeRecord (msgType : UInt8) (sealed : Bytes) : StreamProg Int32 ErrorCode :=
  if Protocol.sealedOk sealed.length then
    (writeAll (Protocol.putBe32 (1 + sealed.length))).bind fun ec =>
      if ec.failed then .ret ec
      else (writeAll [msgType]).bind fun ec =>
        if ec.failed then .ret ec
        else writeAll sealed
  else .ret Errc.badFrame.code

/-! ## Reading, whatever the socket does -/

variable {c o : Bytes}

/-- A call of `read_exact` that returned has filled the buffer with what it received, or failed
before. -/
theorem reaches_readExact {n : ℕ} {ret : ErrorCode × Bytes}
    (h : Reaches posix (readExact (buffer n)) c o (.ret ret)) :
    o = [] ∧ (ret = (.success, c) ∧ c.length = n ∨ SocketError ret.1 ∧ c.length < n) := by
  obtain ⟨ho, -, hret⟩ := reaches_readLoop h
  have hbuffer : (buffer n).length = n := List.length_replicate
  rw [hbuffer] at hret
  rcases hret ret.1 ret.2 rfl with ⟨hec, hlen, hbuf⟩ | hfail
  · exact ⟨ho, .inl ⟨Prod.ext hec hbuf, hlen⟩⟩
  · exact ⟨ho, .inr hfail⟩

/-- The ways in which `read_record` returns: the socket failed within the length, the length was
refused, the socket failed within the payload, or the payload was there. -/
theorem reaches_readRecord {r : Except ErrorCode (UInt8 × Bytes)}
    (h : Reaches posix readRecord c o (.ret r)) :
    o = [] ∧
      ((∃ ec, r = .error ec ∧ SocketError ec ∧ c.length < 4) ∨
        r = .error Errc.badFrame.code ∧ c.length = 4 ∧
          Protocol.lengthOk (Protocol.getBe32 c) = false ∨
        ∃ head body, c = head ++ body ∧ head.length = 4 ∧
          Protocol.lengthOk (Protocol.getBe32 head) = true ∧
          ((∃ ec, r = .error ec ∧ SocketError ec ∧ body.length < Protocol.getBe32 head) ∨
            r = .ok (body.headD 0, body.tail) ∧ body.length = Protocol.getBe32 head)) := by
  obtain ⟨head, c₁, c₂, o₁, o₂, hhead, hnext, rfl, rfl⟩ := h.of_bind_ret
  obtain ⟨rfl, ⟨rfl, hlen⟩ | ⟨hfail, hshort⟩⟩ := reaches_readExact hhead
  · rw [if_neg (by simp)] at hnext
    split at hnext
    · rename_i hok
      obtain ⟨body, c₃, c₄, o₃, o₄, hbody, hlast, rfl, rfl⟩ := hnext.of_bind_ret
      obtain ⟨rfl, ⟨rfl, hfull⟩ | ⟨hfail, hshort⟩⟩ := reaches_readExact hbody
      · rw [if_neg (by simp)] at hlast
        obtain ⟨rfl, rfl, hr⟩ := hlast.of_ret
        cases hr
        exact ⟨rfl, .inr (.inr ⟨c₁, c₃, by simp, hlen, hok, .inr ⟨rfl, hfull⟩⟩)⟩
      · rw [if_pos hfail.1] at hlast
        obtain ⟨rfl, rfl, hr⟩ := hlast.of_ret
        cases hr
        exact ⟨rfl, .inr (.inr ⟨c₁, c₃, by simp, hlen, hok, .inl ⟨_, rfl, hfail, hshort⟩⟩)⟩
    · rename_i hbad
      obtain ⟨rfl, rfl, hr⟩ := hnext.of_ret
      cases hr
      rw [List.append_nil c₁]
      exact ⟨rfl, .inr (.inl ⟨rfl, hlen, by simpa using hbad⟩)⟩
  · rw [if_pos hfail.1] at hnext
    obtain ⟨rfl, rfl, hr⟩ := hnext.of_ret
    cases hr
    rw [List.append_nil c₁]
    exact ⟨rfl, .inl ⟨_, rfl, hfail, hshort⟩⟩

/-- **What a successful `read_record` consumed** are the bytes that `write_record` makes of its
result. -/
theorem recordBytes_of_reaches {t : UInt8} {sealed : Bytes}
    (h : Reaches posix readRecord c o (.ret (.ok (t, sealed)))) :
    c = Protocol.recordBytes t sealed ∧ Protocol.sealedOk sealed.length = true := by
  obtain ⟨-, ⟨ec, hr, -⟩ | ⟨hr, -⟩ | ⟨head, body, rfl, hlen, hok, hbody⟩⟩ := reaches_readRecord h
  · cases hr
  · cases hr
  · obtain ⟨ec, hr, -⟩ | ⟨hr, hfull⟩ := hbody
    · cases hr
    -- a stream of exactly these bytes is read to its end
    · have hhead : Protocol.readExact 4 (head ++ body) = (.ok head, body) := by
        rw [← hlen]
        exact Protocol.readExact_append head body
      have hpayload : Protocol.readExact (Protocol.getBe32 head) body = (.ok body, []) := by
        have := Protocol.readExact_append body []
        rwa [List.append_nil, hfull] at this
      have hread : Protocol.readRecord (head ++ body) = (.ok (t, sealed), []) := by
        rw [Except.ok.inj hr]
        simp only [Protocol.readRecord, hhead, hok, if_true, hpayload]
      obtain ⟨hbytes, hsealed⟩ := Protocol.readRecord_ok hread
      exact ⟨by rw [hbytes, List.append_nil], hsealed⟩

/-- A length that is refused is the last thing that `read_record` consumes. -/
theorem badFrame_of_reaches {r : Except ErrorCode (UInt8 × Bytes)}
    (h : Reaches posix readRecord c o (.ret r)) (hc : 4 ≤ c.length)
    (hbad : Protocol.lengthOk (Protocol.getBe32 (c.take 4)) = false) :
    r = .error Errc.badFrame.code ∧ c.length = 4 := by
  obtain ⟨-, ⟨ec, -, -, hshort⟩ | ⟨hr, hlen, -⟩ | ⟨head, body, rfl, hlen, hok, -⟩⟩ :=
    reaches_readRecord h
  · omega
  · exact ⟨hr, hlen⟩
  · rw [List.take_left' hlen, hok] at hbad
    cases hbad

/-! ## The stream as a whole -/

variable {k : Kernel Int32}

/-- `read_exact` returns what the whole stream holds. -/
theorem run_readExact (hk : k.Flowing) (n : ℕ) :
    ((readExact (buffer n)).run k).2.Flowing ∧
      ((readExact (buffer n)).run k).2.input = (Protocol.readExact n k.input).2 ∧
      (∀ b, (Protocol.readExact n k.input).1 = .ok b →
        ((readExact (buffer n)).run k).1 = (.success, b)) ∧
      ∀ ec, (Protocol.readExact n k.input).1 = .error ec →
        ((readExact (buffer n)).run k).1.1 = ec ∧ ec.failed = true := by
  obtain ⟨-, hflow, hall, hshort⟩ := run_readLoop hk [] (buffer n)
  have hbuffer : (buffer n).length = n := List.length_replicate
  rw [hbuffer] at hall hshort
  refine ⟨hflow, ?_⟩
  unfold Protocol.readExact
  split
  · rename_i hle
    obtain ⟨hret, hin⟩ := hall hle
    refine ⟨hin, fun b hb => ?_, fun ec hec => (by cases hec)⟩
    rw [← Except.ok.inj hb]
    exact hret
  · rename_i hlt
    obtain ⟨hret, hin⟩ := hshort (by omega)
    refine ⟨hin, fun b hb => (by cases hb), fun ec hec => ?_⟩
    rw [← Except.error.inj hec]
    exact ⟨hret, rfl⟩

/-- **`read_record` does not depend on how the stream is cut.** -/
theorem run_readRecord (hk : k.Flowing) :
    (readRecord.run k).1 = (Protocol.readRecord k.input).1 ∧
      (readRecord.run k).2.input = (Protocol.readRecord k.input).2 ∧
      (readRecord.run k).2.Flowing := by
  obtain ⟨hflow, hin, hok, herr⟩ := run_readExact hk 4
  rw [readRecord, run_bind, Protocol.readRecord]
  generalize (readExact (buffer 4)).run k = first at *
  obtain ⟨ret, k₁⟩ := first
  rcases hhead : Protocol.readExact 4 k.input with ⟨ec | lenBuf, rest⟩
  · rw [hhead] at hin herr
    obtain ⟨hret, hfailed⟩ := herr ec rfl
    dsimp only at hret hin ⊢
    rw [hret, if_pos hfailed]
    exact ⟨rfl, hin, hflow⟩
  · rw [hhead] at hin hok
    cases hok lenBuf rfl
    dsimp only at hin ⊢
    rw [if_neg (by simp)]
    split
    · obtain ⟨hflow', hin', hok', herr'⟩ := run_readExact hflow (Protocol.getBe32 lenBuf)
      rw [run_bind]
      dsimp only at hin' hok' herr' ⊢
      rw [hin] at hin' hok' herr'
      generalize (readExact (buffer (Protocol.getBe32 lenBuf))).run k₁ = second at *
      obtain ⟨ret', k₂⟩ := second
      rcases hbody : Protocol.readExact (Protocol.getBe32 lenBuf) rest with ⟨ec | payload, rest'⟩
      · rw [hbody] at hin' herr'
        obtain ⟨hret, hfailed⟩ := herr' ec rfl
        dsimp only at hret hin' ⊢
        rw [hret, if_pos hfailed]
        exact ⟨rfl, hin', hflow'⟩
      · rw [hbody] at hin' hok'
        cases hok' payload rfl
        dsimp only at hin' ⊢
        rw [if_neg (by simp)]
        exact ⟨rfl, hin', hflow'⟩
    · exact ⟨rfl, hin, hflow⟩

/-- `write_record` hands over the bytes of the record, however the socket cuts them. -/
theorem run_writeRecord (hk : k.Flowing) (t : UInt8) {sealed : Bytes}
    (hsealed : Protocol.sealedOk sealed.length = true) :
    ((writeRecord t sealed).run k).1 = .success ∧
      ((writeRecord t sealed).run k).2.output = k.output ++ Protocol.recordBytes t sealed ∧
      ((writeRecord t sealed).run k).2.Flowing := by
  obtain ⟨hret₁, -, hout₁, hflow₁⟩ := run_writeAll hk (Protocol.putBe32 (1 + sealed.length))
  obtain ⟨hret₂, -, hout₂, hflow₂⟩ := run_writeAll hflow₁ [t]
  obtain ⟨hret₃, -, hout₃, hflow₃⟩ := run_writeAll hflow₂ sealed
  rw [writeRecord, if_pos hsealed, run_bind, hret₁, if_neg (by simp), run_bind, hret₂,
    if_neg (by simp)]
  refine ⟨hret₃, ?_, hflow₃⟩
  rw [hout₃, hout₂, hout₁, Protocol.recordBytes]
  simp only [List.append_assoc]

/-! ## Lists of records -/

/-- A record to be sent: its type, its plaintext, and the nonce that `random_bytes` delivers for it. -/
structure PlainRecord where
  msgType : UInt8
  plaintext : Bytes
  nonce : Nonce

/-- `seal` and `write_record` for one record after the other. -/
def writeRecords (g : Gcm) (s : Session) : List PlainRecord → StreamProg Int32 ErrorCode
  | [] => .ret .success
  | r :: records =>
    match s.sealPlaintext g (some r.nonce) r.plaintext with
    | .error ec => .ret ec
    | .ok sealed =>
      (writeRecord r.msgType sealed).bind fun ec =>
        if ec.failed then .ret ec else writeRecords g s records

/-- `read_record` and `open`, this many times. -/
def readRecords (g : Gcm) (s : Session) :
    ℕ → StreamProg Int32 (Except ErrorCode (List (UInt8 × Bytes)))
  | 0 => .ret (.ok [])
  | n + 1 =>
    readRecord.bind fun read =>
      match read with
      | .error ec => .ret (.error ec)
      | .ok (t, sealed) =>
        match s.openSealed g sealed with
        | .error ec => .ret (.error ec)
        | .ok plaintext =>
          (readRecords g s n).bind fun more => .ret (more.map fun l => (t, plaintext) :: l)

variable {g : Gcm} {s : Session} {records : List PlainRecord}

/-- `seal` accepts all of them. -/
def Accepted (g : Gcm) (s : Session) (records : List PlainRecord) : Prop :=
  ∀ r ∈ records, ∃ sealed, s.sealPlaintext g (some r.nonce) r.plaintext = .ok sealed

/-- What a list of records becomes on the wire. -/
def wireBytes (g : Gcm) (s : Session) : List PlainRecord → Bytes
  | [] => []
  | r :: records =>
    match s.sealPlaintext g (some r.nonce) r.plaintext with
    | .error _ => wireBytes g s records
    | .ok sealed => Protocol.recordBytes r.msgType sealed ++ wireBytes g s records

/-- A blob that `seal` made passes the size check of `write_record`. -/
theorem sealedOk_of_sealPlaintext (hg : g.Lawful) {nonce : Option Nonce} {p sealed : Bytes}
    (h : s.sealPlaintext g nonce p = .ok sealed) : Protocol.sealedOk sealed.length = true := by
  rw [Session.length_of_sealPlaintext hg h]
  exact Session.sealedOk_of_plaintextOk (Session.sealPlaintext_ok h).1

theorem run_writeRecords (hg : g.Lawful) (haccept : Accepted g s records) (hk : k.Flowing) :
    ((writeRecords g s records).run k).1 = .success ∧
      ((writeRecords g s records).run k).2.output = k.output ++ wireBytes g s records := by
  induction records generalizing k with
  | nil => exact ⟨rfl, by simp [writeRecords, wireBytes]⟩
  | cons r records ih =>
      obtain ⟨sealed, hseal⟩ := haccept r List.mem_cons_self
      obtain ⟨hret, hout, hflow⟩ :=
        run_writeRecord hk r.msgType (sealedOk_of_sealPlaintext hg hseal)
      obtain ⟨hret', hout'⟩ := ih (fun r' hr' => haccept r' (List.mem_cons_of_mem r hr')) hflow
      rw [writeRecords, wireBytes, hseal]
      dsimp only
      rw [run_bind, hret, if_neg (by simp)]
      refine ⟨hret', ?_⟩
      rw [hout', hout, List.append_assoc]

theorem run_readRecords (hg : g.Lawful) (haccept : Accepted g s records) (hk : k.Flowing)
    {suffix : Bytes} (hinput : k.input = wireBytes g s records ++ suffix) :
    ((readRecords g s records.length).run k).1 =
        .ok (records.map fun r => (r.msgType, r.plaintext)) ∧
      ((readRecords g s records.length).run k).2.input = suffix := by
  induction records generalizing k with
  | nil => exact ⟨rfl, hinput⟩
  | cons r records ih =>
      obtain ⟨sealed, hseal⟩ := haccept r List.mem_cons_self
      -- the stream starts with the record of `r`
      have hread : Protocol.readRecord k.input =
          (.ok (r.msgType, sealed), wireBytes g s records ++ suffix) := by
        rw [hinput, wireBytes, hseal]
        dsimp only
        rw [List.append_assoc]
        exact Protocol.readRecord_recordBytes_append r.msgType _ (sealedOk_of_sealPlaintext hg hseal)
      obtain ⟨hret, hin, hflow⟩ := run_readRecord hk
      rw [hread] at hret hin
      obtain ⟨hret', hin'⟩ :=
        ih (fun r' hr' => haccept r' (List.mem_cons_of_mem r hr')) hflow hin
      rw [List.length_cons, readRecords, run_bind, hret]
      dsimp only
      rw [Session.openSealed_of_sealPlaintext hg hseal]
      dsimp only
      rw [run_bind, hret']
      exact ⟨rfl, hin'⟩

/-- **Records survive the stream**: what `seal` and `write_record` wrote is read back by `read_record`
and `open`, whatever nonces were drawn and however the stream was cut on both sides, and what follows
is left where it is. And no stream of any other kind is read: a record that is returned stands for
exactly the bytes consumed, and a length outside the limits ends the reading behind its four bytes. -/
theorem records_round_trip (hg : g.Lawful) (s : Session) :
    (∀ (records : List PlainRecord) (suffix : Bytes) (w k : Kernel Int32), Accepted g s records →
      w.Flowing → k.Flowing → w.output = [] →
      k.input = ((writeRecords g s records).run w).2.output ++ suffix →
      ((writeRecords g s records).run w).1 = .success ∧
        ((readRecords g s records.length).run k).1 =
          .ok (records.map fun r => (r.msgType, r.plaintext)) ∧
        ((readRecords g s records.length).run k).2.input = suffix) ∧
    (∀ k : Kernel Int32, k.Obeys posix → ∀ t sealed, (readRecord.run k).1 = .ok (t, sealed) →
      ∃ consumed, k.input = consumed ++ (readRecord.run k).2.input ∧
        ∀ w : Kernel Int32, w.Flowing → ((writeRecord t sealed).run w).1 = .success ∧
          ((writeRecord t sealed).run w).2.output = w.output ++ consumed) ∧
    ∀ k : Kernel Int32, 4 ≤ k.input.length →
      (Protocol.getBe32 (k.input.take 4) = 0 ∨
        Protocol.getBe32 (k.input.take 4) > Protocol.kMaxRecordPayload) →
      (k.Flowing → (readRecord.run k).1 = .error Errc.badFrame.code ∧
        (readRecord.run k).2.input = k.input.drop 4) ∧
      (k.Obeys posix → (readRecord.run k).2.input.length + 4 ≤ k.input.length →
        (readRecord.run k).1 = .error Errc.badFrame.code ∧
          (readRecord.run k).2.input = k.input.drop 4) := by
  refine ⟨fun records suffix w k haccept hw hk hfresh hinput => ?_, fun k hk t sealed hret => ?_,
    fun k hlen hbad => ?_⟩
  · obtain ⟨hsent, hout⟩ := run_writeRecords hg haccept hw
    rw [hout, hfresh, List.nil_append] at hinput
    exact ⟨hsent, run_readRecords hg haccept hk hinput⟩
  · obtain ⟨consumed, o, hreach, hin, -⟩ := reaches_run readRecord hk
    rw [hret] at hreach
    obtain ⟨rfl, hsealed⟩ := recordBytes_of_reaches hreach
    refine ⟨_, hin, fun w hw => ?_⟩
    obtain ⟨hsent, hout, -⟩ := run_writeRecord hw t hsealed
    exact ⟨hsent, hout⟩
  · have hrefused : Protocol.lengthOk (Protocol.getBe32 (k.input.take 4)) = false := by
      rcases hbad with hzero | hlarge
      · rw [hzero]
        rfl
      · simp [Protocol.lengthOk, hlarge]
    -- a run that got as far as the four bytes stops there
    have hstop (hk : k.Obeys posix) (hfour : (readRecord.run k).2.input.length + 4 ≤ k.input.length) :
        (readRecord.run k).1 = .error Errc.badFrame.code ∧
          (readRecord.run k).2.input = k.input.drop 4 := by
      obtain ⟨consumed, o, hreach, hin, -⟩ := reaches_run readRecord hk
      have hcount := congrArg List.length hin
      rw [List.length_append] at hcount
      have hle : 4 ≤ consumed.length := by omega
      rw [hin, List.take_append_of_le_length hle] at hrefused
      obtain ⟨hret, hexact⟩ := badFrame_of_reaches hreach hle hrefused
      refine ⟨hret, ?_⟩
      conv_rhs => rw [hin]
      rw [List.drop_left' hexact]
    refine ⟨fun hk => ?_, hstop⟩
    apply hstop (Flowing.obeys hk)
    obtain ⟨-, hin, -⟩ := run_readRecord hk
    have hhead : Protocol.readExact 4 k.input = (.ok (k.input.take 4), k.input.drop 4) :=
      if_pos hlen
    simp only [Protocol.readRecord, hhead, hrefused] at hin
    rw [hin]
    simp only [Bool.false_eq_true, if_false, List.length_drop]
    omega

/-! ### Two records, byte by byte -/

/-- The key of the sample. -/
def sampleSession : Session := ⟨List.replicate 32 0⟩

/-- A text and a ping. -/
def sampleRecords : List PlainRecord :=
  [⟨Protocol.kMsgText, [0x68, 0x69], sampleNonce⟩, ⟨Protocol.kMsgPing, [0x68, 0x69], sampleNonce⟩]

/-- A socket that moves one byte with each call. -/
def byteByByte (input : Bytes) : Kernel Int32 where
  input := input
  ready _ := ⟨some 1, 0⟩

theorem flowing_byteByByte (input : Bytes) : (byteByByte input).Flowing :=
  fun _ => ⟨1, rfl, Nat.one_pos⟩

theorem accepted_sampleRecords : Accepted sampleGcm sampleSession sampleRecords := by
  intro r hr
  refine ⟨sampleSealed, ?_⟩
  rcases List.mem_pair.mp hr with rfl | rfl <;> rfl

/-- What the sample is on the wire, with one more byte behind it. -/
def sampleWire : Bytes :=
  ((writeRecords sampleGcm sampleSession sampleRecords).run (byteByByte [])).2.output ++ [0x07]

theorem sampleRecords_read_back :
    ((readRecords sampleGcm sampleSession 2).run (byteByByte sampleWire)).1 =
        .ok [(Protocol.kMsgText, [0x68, 0x69]), (Protocol.kMsgPing, [0x68, 0x69])] ∧
      ((readRecords sampleGcm sampleSession 2).run (byteByByte sampleWire)).2.input = [0x07] ∧
      ((writeRecord Protocol.kMsgPong [0x01]).run (byteByByte [])).2.output = [0, 0, 0, 2, 3, 1] ∧
      (readRecord.run (byteByByte [0, 0x10, 0, 1, 0x07])).1 = .error Errc.badFrame.code ∧
      (readRecord.run (byteByByte [0, 0x10, 0, 1, 0x07])).2.input = [0x07] := by
  obtain ⟨hround, hback, hrefused⟩ := records_round_trip sampleGcm_lawful sampleSession
  have hpong := (run_readRecord (flowing_byteByByte [0, 0, 0, 2, 3, 1])).1
  have hrest := (run_readRecord (flowing_byteByByte [0, 0, 0, 2, 3, 1])).2.1
  obtain ⟨consumed, hconsumed, hwrite⟩ := hback _ (Flowing.obeys (flowing_byteByByte _)) 3 [1] hpong
  refine ⟨?_, ?_, ?_, ?_⟩
  · exact (hround sampleRecords [0x07] (byteByByte []) _ accepted_sampleRecords
      (flowing_byteByByte _) (flowing_byteByByte _) rfl rfl).2.1
  · exact (hround sampleRecords [0x07] (byteByByte []) _ accepted_sampleRecords
      (flowing_byteByByte _) (flowing_byteByByte _) rfl rfl).2.2
  · rw [hrest] at hconsumed
    have hall : consumed = [0, 0, 0, 2, 3, 1] := by
      rw [← List.append_nil consumed]
      exact hconsumed.symm
    have hwritten := (hwrite (byteByByte []) (flowing_byteByByte _)).2
    rwa [hall] at hwritten
  · exact (hrefused (byteByByte [0, 0x10, 0, 1, 0x07]) (by decide) (by decide)).1
      (flowing_byteByByte _)

end TcpDuplex.ByteStream
