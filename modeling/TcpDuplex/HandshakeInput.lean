import TcpDuplex.Agreement

/-!
# What the handshake makes of any input

`Header` is the grammar of the peer's bytes with its errors: which of them `read_handshake` reports for
which input, and how much of the stream it has taken by then. Every input has a reading, and the two
procedures follow it however the stream is cut.

The server does not send a byte before it has accepted the client's header. The client has sent its own
header before it reads.
-/

namespace TcpDuplex

open StreamProg TcpSocket Protocol

/-- The peer's key or the error that `read_handshake` reports, and what is left of the stream. -/
inductive Header : Bytes → Except Errc Bytes → Bytes → Prop where
  | shortMagic {b : Bytes} (hlen : b.length < 4) : Header b (.error .closed) []
  | badMagic {magic : Bytes} (rest : Bytes) (hlen : magic.length = 4) (hne : magic ≠ kMagic) :
      Header (magic ++ rest) (.error .badHandshake) rest
  | shortVersion {b : Bytes} (hlen : b.length < 2) : Header (kMagic ++ b) (.error .closed) []
  | unsupported {v : UInt16} (rest : Bytes) (hversion : supportsVersion v = false) :
      Header (kMagic ++ (putBe16 v ++ rest)) (.error .unsupportedProtocol) rest
  | shortKey {b : Bytes} (hlen : b.length < kX25519PubKeyLen) :
      Header (handshakeBytes kCurrentProtocolVersion b) (.error .closed) []
  | header {pub : Bytes} (rest : Bytes) (hlen : pub.length = kX25519PubKeyLen) :
      Header (handshakeBytes kCurrentProtocolVersion pub ++ rest) (.ok pub) rest

/-- Every input has a reading. -/
theorem exists_header (input : Bytes) : ∃ reading rest, Header input reading rest := by
  by_cases hmagic : input.length < 4
  · exact ⟨_, _, .shortMagic hmagic⟩
  obtain ⟨magic, rest, rfl, hlen⟩ : ∃ magic rest, input = magic ++ rest ∧ magic.length = 4 :=
    ⟨input.take 4, input.drop 4, (List.take_append_drop 4 input).symm, by
      rw [List.length_take]
      omega⟩
  by_cases hne : magic = kMagic
  · subst hne
    by_cases hver : rest.length < 2
    · exact ⟨_, _, .shortVersion hver⟩
    obtain ⟨ver, key, rfl, hlen'⟩ : ∃ ver key, rest = ver ++ key ∧ ver.length = 2 :=
      ⟨rest.take 2, rest.drop 2, (List.take_append_drop 2 rest).symm, by
        rw [List.length_take]
        omega⟩
    rw [← putBe16_getBe16 hlen']
    by_cases hsupported : supportsVersion (getBe16 ver) = true
    · rw [supportsVersion_iff.mp hsupported, ← List.append_assoc]
      by_cases hkey : key.length < kX25519PubKeyLen
      · exact ⟨_, _, .shortKey hkey⟩
      · refine ⟨.ok (key.take kX25519PubKeyLen), key.drop kX25519PubKeyLen, ?_⟩
        have hlen : (key.take kX25519PubKeyLen).length = kX25519PubKeyLen := by
          rw [List.length_take]
          omega
        have hsplit := Header.header (key.drop kX25519PubKeyLen) hlen
        rwa [handshakeBytes, List.append_assoc, List.take_append_drop] at hsplit
    · exact ⟨_, _, .unsupported key (Bool.eq_false_iff.mpr hsupported)⟩
  · exact ⟨_, _, .badMagic rest hlen hne⟩

theorem Header.failed {input rest : Bytes} {e : Errc} (h : Header input (.error e) rest) :
    e.code.failed = true := by
  cases h <;> rfl

theorem Header.length_key {input rest pub : Bytes} (h : Header input (.ok pub) rest) :
    pub.length = 32 := by
  cases h with
  | header _ hlen => exact hlen

namespace ByteStream

variable {k : Kernel Int32} {n : ℕ}

/-- A stream that ends too early. -/
theorem run_readExact_short (hk : k.Flowing) (hlt : k.input.length < n) :
    ((readExact (buffer n)).run k).1.1 = Errc.closed.code ∧
      ((readExact (buffer n)).run k).2.input = [] ∧
      ((readExact (buffer n)).run k).2.output = k.output ∧
      ((readExact (buffer n)).run k).2.Flowing := by
  obtain ⟨hout, hflow, -, hshort⟩ := run_readLoop hk [] (buffer n)
  have hbuffer : (buffer n).length = n := List.length_replicate
  rw [hbuffer] at hshort
  obtain ⟨hret, hin⟩ := hshort hlt
  exact ⟨hret, hin, hout, hflow⟩

/-- What `read_handshake` returns for a reading. -/
def Follows (reading : Except Errc Bytes) (peer : PeerHandshake) : Prop :=
  match reading with
  | .error e => peer.ec = e.code
  | .ok pub => peer = ⟨.success, kCurrentProtocolVersion, pub⟩

/-- `read_handshake` follows the grammar, however the stream is cut. -/
theorem run_readHandshake_of_header {reading : Except Errc Bytes} {rest : Bytes} (hk : k.Flowing)
    (h : Header k.input reading rest) (v₀ : UInt16) (pub₀ : Bytes) :
    Follows reading ((readHandshake v₀ pub₀).run k).1 ∧
      ((readHandshake v₀ pub₀).run k).2.input = rest ∧
      ((readHandshake v₀ pub₀).run k).2.output = k.output ∧
      ((readHandshake v₀ pub₀).run k).2.Flowing := by
  have hver : ∀ v : UInt16, (putBe16 v).length = 2 := fun v => Bytes.length_putBe _ _
  generalize hinput : k.input = input at h
  cases h with
  | shortMagic hlen =>
    obtain ⟨hret, hin, hout, hflow⟩ := run_readExact_short (n := 4) hk (by rwa [hinput])
    rw [readHandshake, run_bind, if_pos (by rw [hret]; rfl), run_ret]
    exact ⟨hret, hin, hout, hflow⟩
  | badMagic rest hlen hne =>
    obtain ⟨hret, hin, hout, hflow⟩ := run_readExact_append hk hlen hinput
    rw [readHandshake, run_bind, hret, if_neg (by simp), if_neg hne, run_ret]
    exact ⟨rfl, hin, hout, hflow⟩
  | shortVersion hlen =>
    obtain ⟨hret, hin, hout, hflow⟩ := run_readExact_append (n := 4) hk rfl hinput
    obtain ⟨hret₁, hin₁, hout₁, hflow₁⟩ := run_readExact_short (n := 2) hflow (by rwa [hin])
    rw [readHandshake, run_bind, hret, if_neg (by simp), if_pos rfl, run_bind,
      if_pos (by rw [hret₁]; rfl), run_ret]
    exact ⟨hret₁, hin₁, hout₁.trans hout, hflow₁⟩
  | @unsupported v rest hversion =>
    obtain ⟨hret, hin, hout, hflow⟩ := run_readExact_append (n := 4) hk rfl hinput
    obtain ⟨hret₁, hin₁, hout₁, hflow₁⟩ := run_readExact_append hflow (hver v) hin
    rw [readHandshake, run_bind, hret, if_neg (by simp), if_pos rfl, run_bind, hret₁, if_neg (by simp)]
    dsimp only
    rw [getBe16_putBe16, if_neg (by rw [hversion]; exact Bool.false_ne_true), run_ret]
    exact ⟨rfl, hin₁, hout₁.trans hout, hflow₁⟩
  | shortKey hlen =>
    rw [handshakeBytes, List.append_assoc] at hinput
    obtain ⟨hret, hin, hout, hflow⟩ := run_readExact_append (n := 4) hk rfl hinput
    obtain ⟨hret₁, hin₁, hout₁, hflow₁⟩ := run_readExact_append hflow (hver _) hin
    obtain ⟨hret₂, hin₂, hout₂, hflow₂⟩ := run_readExact_short hflow₁ (by rwa [hin₁])
    rw [readHandshake, run_bind, hret, if_neg (by simp), if_pos rfl, run_bind, hret₁, if_neg (by simp)]
    dsimp only
    rw [getBe16_putBe16, if_pos (by decide), run_bind, run_ret]
    exact ⟨hret₂, hin₂, hout₂.trans (hout₁.trans hout), hflow₂⟩
  | header rest hlen => exact run_readHandshake hk (by decide) hlen hinput v₀ pub₀

end ByteStream

/-! ## The server -/

variable {k : Kernel Int32}

/-- **What `server_handshake` makes of any input.** Every input has a reading, and the server follows it,
however the stream is cut: an error of the header is its result, before anything is sent and with the
session as it was; a key that is not the pinned one is refused in the same way; and otherwise the server
sends its header, takes nothing behind the client's, and has the session of the shared secret. -/
theorem serverHandshake_verdict (cr : Crypto) (priv : Block 32) (opts : Option HandshakeOpts)
    (out : Session) (v₀ : UInt16) (k : Kernel Int32) (hk : k.Flowing) :
    let r := (serverHandshake cr (some priv) opts out v₀).run k
    (∃ reading rest, Header k.input reading rest) ∧
      ∀ reading rest, Header k.input reading rest → r.2.input = rest ∧
        match reading with
        | .error e => r.1.1 = e.code ∧ r.1.2.1 = out ∧ r.2.output = k.output
        | .ok pub =>
          if fingerprintOk cr opts pub then
            (∃ key : Block 32, key.1 = pub ∧ r.1 = (.success,
              ⟨deriveSessionKey cr (cr.sharedSecret priv key).1 (psk opts)⟩, kCurrentProtocolVersion)) ∧
              r.2.output = k.output ++
                handshakeBytes kCurrentProtocolVersion (cr.publicFromPrivate priv).1
          else r.1.1 = Errc.peerFingerprintMismatch.code ∧ r.1.2.1 = out ∧ r.2.output = k.output := by
  intro r
  refine ⟨exists_header k.input, fun reading rest h => ?_⟩
  obtain ⟨hfollows, hin, hout, hflow⟩ := ByteStream.run_readHandshake_of_header hk h v₀ []
  simp only [r, serverHandshake, run_bind]
  generalize (ByteStream.readHandshake v₀ []).run k = read at *
  obtain ⟨peer, k₁⟩ := read
  dsimp only at *
  cases reading with
  | error e =>
    have hec : peer.ec = e.code := hfollows
    rw [if_pos (by rw [hec]; exact h.failed), run_ret]
    exact ⟨hin, hec, rfl, hout⟩
  | ok pub =>
    obtain rfl : peer = ⟨.success, kCurrentProtocolVersion, pub⟩ := hfollows
    dsimp only
    rw [if_neg (by simp), dif_pos h.length_key]
    by_cases hpin : fingerprintOk cr opts pub = true
    · obtain ⟨hret, hin₁, hout₁, -⟩ :=
        ByteStream.run_writeHandshake hflow supportsVersion_current (cr.publicFromPrivate priv).2
      rw [if_pos hpin, if_pos hpin, run_bind, hret, if_neg (by simp), run_ret]
      refine ⟨hin₁.trans hin, ⟨⟨pub, h.length_key⟩, rfl, rfl⟩, ?_⟩
      rw [hout₁, hout]
    · rw [if_neg hpin, if_neg hpin, run_ret]
      exact ⟨hin, rfl, rfl, hout⟩

/-- A client that speaks a later version, in pieces of one byte. -/
theorem later_version_unanswered :
    let k := ByteStream.byteByByte (handshakeBytes 2 (List.replicate 32 9))
    let r := (serverHandshake sampleCrypto (some sampleServerPriv) none ⟨[]⟩ 0).run k
    r.1.1 = Errc.unsupportedProtocol.code ∧ r.2.output = [] ∧ r.2.input = List.replicate 32 9 := by
  intro k r
  have hread : Header k.input (.error .unsupportedProtocol) (List.replicate 32 9) :=
    .unsupported (v := 2) (List.replicate 32 9) rfl
  obtain ⟨hin, hec, -, hout⟩ := (serverHandshake_verdict sampleCrypto sampleServerPriv none ⟨[]⟩ 0 k
    (ByteStream.flowing_byteByByte _)).2 _ _ hread
  exact ⟨hec, hout, hin⟩

/-! ## The client -/

/-- What `client_handshake` returns for a reading. -/
def ClientResult (cr : Crypto) (priv : Block 32) (opts : Option HandshakeOpts) (out : Session)
    (reading : Except Errc Bytes) (r : ErrorCode × Session) : Prop :=
  match reading with
  | .error e => r = (e.code, out)
  | .ok pub =>
    if fingerprintOk cr opts pub then
      ∃ key : Block 32, key.1 = pub ∧
        r = (.success, ⟨deriveSessionKey cr (cr.sharedSecret priv key).1 (psk opts)⟩)
    else r = (Errc.peerFingerprintMismatch.code, out)

theorem ClientResult.ne_authentication {cr : Crypto} {priv : Block 32} {opts : Option HandshakeOpts}
    {out : Session} {reading : Except Errc Bytes} {r : ErrorCode × Session} {input rest : Bytes}
    (hr : ClientResult cr priv opts out reading r) (h : Header input reading rest) :
    r.1 ≠ Errc.handshakeAuthentication.code := by
  cases reading with
  | error e =>
    rw [show r.1 = e.code from congrArg Prod.fst hr]
    cases h <;> decide
  | ok pub =>
    rw [ClientResult] at hr
    split at hr
    · obtain ⟨key, -, hkey⟩ := hr
      rw [show r.1 = .success from congrArg Prod.fst hkey]
      decide
    · rw [show r.1 = Errc.peerFingerprintMismatch.code from congrArg Prod.fst hr]
      decide

theorem run_clientHandshake_of_header (cr : Crypto) (priv : Block 32) {version : UInt16}
    (opts : Option HandshakeOpts) (out : Session) {reading : Except Errc Bytes} {rest : Bytes}
    (hk : k.Flowing) (hversion : supportsVersion version = true) (h : Header k.input reading rest) :
    let r := (clientHandshake cr (some priv) version opts out).run k
    r.2.output = k.output ++ handshakeBytes version (cr.publicFromPrivate priv).1 ∧
      r.2.input = rest ∧ ClientResult cr priv opts out reading r.1 := by
  intro r
  obtain ⟨hret, hin, hout, hflow⟩ :=
    ByteStream.run_writeHandshake hk hversion (cr.publicFromPrivate priv).2
  rw [← hin] at h
  obtain ⟨hfollows, hin₁, hout₁, -⟩ := ByteStream.run_readHandshake_of_header hflow h 0 []
  simp only [r, clientHandshake, run_bind, hret, ErrorCode.failed_success, Bool.false_eq_true,
    if_false]
  rw [hout] at hout₁
  generalize (ByteStream.readHandshake 0 []).run _ = read at *
  obtain ⟨peer, k₁⟩ := read
  dsimp only at *
  cases reading with
  | error e =>
    have hec : peer.ec = e.code := hfollows
    rw [if_pos (by rw [hec]; exact h.failed), run_ret]
    exact ⟨hout₁, hin₁, Prod.ext hec rfl⟩
  | ok pub =>
    obtain rfl : peer = ⟨.success, kCurrentProtocolVersion, pub⟩ := hfollows
    have hsame : kCurrentProtocolVersion = version := (supportsVersion_iff.mp hversion).symm
    dsimp only
    rw [if_neg (by simp), dif_pos ⟨hsame, h.length_key⟩, ClientResult]
    by_cases hpin : fingerprintOk cr opts pub = true
    · rw [if_pos hpin, if_pos hpin, run_ret]
      exact ⟨hout₁, hin₁, ⟨pub, h.length_key⟩, rfl, rfl⟩
    · rw [if_neg hpin, if_neg hpin, run_ret]
      exact ⟨hout₁, hin₁, rfl⟩

/-- **What `client_handshake` makes of any input.** A version that is not supported is refused before
anything is sent. Otherwise the client sends its header whatever the server does, and follows the reading
of the input as the server does; that the two versions differ (`handshake_authentication`) does not
happen. -/
theorem clientHandshake_verdict (cr : Crypto) (priv : Block 32) (version : UInt16)
    (opts : Option HandshakeOpts) (out : Session) (k : Kernel Int32) (hk : k.Flowing) :
    let r := (clientHandshake cr (some priv) version opts out).run k
    r.1.1 ≠ Errc.handshakeAuthentication.code ∧
      (supportsVersion version = false →
        r.1 = (Errc.unsupportedProtocol.code, out) ∧ r.2.input = k.input ∧ r.2.output = k.output) ∧
      (supportsVersion version = true →
        r.2.output = k.output ++ handshakeBytes version (cr.publicFromPrivate priv).1 ∧
        ∀ reading rest, Header k.input reading rest →
          r.2.input = rest ∧ ClientResult cr priv opts out reading r.1) := by
  intro r
  cases hversion : supportsVersion version with
  | false =>
    have hr : r = ((Errc.unsupportedProtocol.code, out), k) := by
      simp only [r, clientHandshake, ByteStream.writeHandshake, hversion, run_bind]
      rfl
    rw [hr]
    have hne : Errc.unsupportedProtocol.code ≠ Errc.handshakeAuthentication.code := by decide
    exact ⟨hne, fun _ => ⟨rfl, rfl, rfl⟩, fun hbad => absurd hbad Bool.false_ne_true⟩
  | true =>
    obtain ⟨reading, rest, h⟩ := exists_header k.input
    obtain ⟨hout, -, hresult⟩ := run_clientHandshake_of_header cr priv opts out hk hversion h
    refine ⟨?_, fun hbad => absurd hbad.symm Bool.false_ne_true,
      fun _ => ⟨hout, fun reading rest h => ?_⟩⟩
    · exact hresult.ne_authentication h
    · exact (run_clientHandshake_of_header cr priv opts out hk hversion h).2

/-- A server that hangs up in the middle of its key. -/
theorem cut_key_closed :
    let k := ByteStream.byteByByte (handshakeBytes kCurrentProtocolVersion [1, 2, 3])
    let r := (clientHandshake sampleCrypto (some sampleClientPriv) kCurrentProtocolVersion none ⟨[]⟩).run k
    r.1.1 = Errc.closed.code ∧ r.2.output.length = 38 := by
  intro k r
  have hread : Header k.input (.error .closed) [] := .shortKey (by decide)
  obtain ⟨-, -, hsupported⟩ := clientHandshake_verdict sampleCrypto sampleClientPriv kCurrentProtocolVersion
    none ⟨[]⟩ k (ByteStream.flowing_byteByByte _)
  obtain ⟨hout, hverdict⟩ := hsupported rfl
  have hresult : r.1 = (Errc.closed.code, ⟨[]⟩) := (hverdict _ _ hread).2
  refine ⟨congrArg Prod.fst hresult, ?_⟩
  rw [hout]
  exact (length_handshakeBytes _ _).trans (by rw [(sampleCrypto.publicFromPrivate sampleClientPriv).2])

end TcpDuplex
