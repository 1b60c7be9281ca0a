import TcpDuplex.ByteStream

/-!
# The handshake (`handshake.hpp`, `handshake.cpp`, and its parts of `protocol.cpp` and `session.cpp`)

Both sides send a header of 38 bytes: a magic word, the protocol version and a fresh X25519 public key.
The client writes first; the server answers a header that it accepts. From the peer's public key and
its own private key each side derives the session key, into which a pre-shared key may be mixed.

X25519 (the vendored Monocypher) and SHA-256 (the vendored mbedTLS) are the parameter `Crypto`. The
private key is what the generator delivered, if it did.
-/

namespace TcpDuplex

open StreamProg TcpSocket

/-! ## The header -/

namespace Protocol

/-- `kMagic`: `TDX1`. -/
def kMagic : Bytes := [0x54, 0x44, 0x58, 0x31]

/-- `kCurrentProtocolVersion`. -/
def kCurrentProtocolVersion : UInt16 := 1
/-- `kX25519PubKeyLen`. -/
def kX25519PubKeyLen : ℕ := 32

/-- `put_be16`. -/
def putBe16 (v : UInt16) : Bytes := Bytes.putBe 2 v.toNat

/-- `get_be16`. -/
def getBe16 (b : Bytes) : UInt16 := UInt16.ofNat (Bytes.getBe b)

/-- `supports_version`. -/
def supportsVersion (v : UInt16) : Bool := v == 1

/-- The header in the order in which `write_handshake` hands it over. -/
def handshakeBytes (version : UInt16) (pubKey : Bytes) : Bytes := kMagic ++ putBe16 version ++ pubKey

theorem length_handshakeBytes (v : UInt16) (pub : Bytes) :
    (handshakeBytes v pub).length = 6 + pub.length := by
  simp only [handshakeBytes, putBe16, kMagic, List.length_append, Bytes.length_putBe,
    List.length_cons, List.length_nil]

theorem supportsVersion_iff {v : UInt16} : supportsVersion v = true ↔ v = kCurrentProtocolVersion :=
  beq_iff_eq

/-- Two bytes survive the trip through the version. -/
theorem putBe16_getBe16 {b : Bytes} (h : b.length = 2) : putBe16 (getBe16 b) = b := by
  have hlt := Bytes.getBe_lt b
  have hround := Bytes.putBe_getBe b
  rw [h] at hlt hround
  have hvalue : (UInt16.ofNat (Bytes.getBe b)).toNat = Bytes.getBe b := by
    rw [UInt16.toNat_ofNat']
    exact Nat.mod_eq_of_lt hlt
  rw [putBe16, getBe16, hvalue, hround]

/-- The version survives the trip through its two bytes. -/
theorem getBe16_putBe16 (v : UInt16) : getBe16 (putBe16 v) = v := by
  rw [getBe16, putBe16, Bytes.getBe_putBe_of_lt v.toNat_lt, UInt16.ofNat_toNat]

end Protocol

namespace ByteStream

/-- `write_handshake`. -/
def writeHandshake (negotiatedVersion : UInt16) (pubKey : Bytes) : StreamProg Int32 ErrorCode :=
  if Protocol.supportsVersion negotiatedVersion then
    if pubKey.length = Protocol.kX25519PubKeyLen then
      (writeAll (Protocol.kMagic ++ Protocol.putBe16 negotiatedVersion)).bind fun ec =>
        if ec.failed then .ret ec
        else writeAll pubKey
    else .ret Errc.badHandshake.code
  else .ret Errc.unsupportedProtocol.code

/-- The error code of `read_handshake` and the values of its two output parameters behind it. -/
structure PeerHandshake where
  ec : ErrorCode
  protocolVersion : UInt16
  pubKey : Bytes

/-- `read_handshake`, with these values in its output parameters before it. -/
def readHandshake (protocolVersion : UInt16) (pubKey : Bytes) : StreamProg Int32 PeerHandshake :=
  (readExact (buffer 4)).bind fun magic =>
    if magic.1.failed then .ret ⟨magic.1, protocolVersion, pubKey⟩
    else if magic.2 = Protocol.kMagic then
      (readExact (buffer 2)).bind fun ver =>
        if ver.1.failed then .ret ⟨ver.1, protocolVersion, pubKey⟩
        else if Protocol.supportsVersion (Protocol.getBe16 ver.2) then
          (readExact (buffer Protocol.kX25519PubKeyLen)).bind fun key =>
            .ret ⟨key.1, Protocol.getBe16 ver.2, key.2⟩
        else .ret ⟨Errc.unsupportedProtocol.code, Protocol.getBe16 ver.2, pubKey⟩
    else .ret ⟨Errc.badHandshake.code, protocolVersion, pubKey⟩

end ByteStream

/-! ## The two procedures -/

/-- The calls of Monocypher and mbedTLS: `x25519_public_from_private`, `x25519_shared_secret` and
`mbedtls_sha256`. -/
structure Crypto where
  publicFromPrivate : (priv : Block 32) → Block 32
  sharedSecret : (priv peerPub : Block 32) → Block 32
  sha256 : Bytes → Block 32

/-- `fingerprint_sha256`. -/
def fingerprintSha256 (cr : Crypto) (pubKey : Bytes) : Block 32 := cr.sha256 pubKey

/-- What `derive_session_key` feeds to SHA-256. -/
def keyMaterial (sharedSecret psk : Bytes) : Bytes :=
  if psk.isEmpty then sharedSecret
  else sharedSecret ++ [0] ++ Protocol.putBe32 psk.length ++ psk

/-- `derive_session_key`. -/
def deriveSessionKey (cr : Crypto) (sharedSecret psk : Bytes) : Bytes :=
  (cr.sha256 (keyMaterial sharedSecret psk)).1

/-- `Session::create`: the error code and the session. -/
def Session.create (cr : Crypto) (sharedSecret psk : Bytes) : ErrorCode × Session :=
  (.success, ⟨deriveSessionKey cr sharedSecret psk⟩)

/-- `HandshakeOpts`. -/
structure HandshakeOpts where
  preSharedKey : Bytes := []
  expectedPeerPubkeySha256 : Option (Block 32) := none

/-- The pre-shared key that a side mixes in; without options there is none, which is the empty one. -/
def psk (opts : Option HandshakeOpts) : Bytes := (opts.map HandshakeOpts.preSharedKey).getD []

/-- The fingerprint that a side has pinned. -/
def pinned (opts : Option HandshakeOpts) : Option (Block 32) :=
  opts.bind HandshakeOpts.expectedPeerPubkeySha256

/-- The fingerprint check of both procedures. -/
def fingerprintOk (cr : Crypto) (opts : Option HandshakeOpts) (peerPub : Bytes) : Bool :=
  match pinned opts with
  | none => true
  | some fp => fingerprintSha256 cr peerPub == fp

/-- `client_handshake`: the error code, and `out` afterwards. -/
def clientHandshake (cr : Crypto) (priv : Option (Block 32)) (negotiatedVersion : UInt16)
    (opts : Option HandshakeOpts) (out : Session) : StreamProg Int32 (ErrorCode × Session) :=
  match priv with
  | none => .ret (Errc.ioError.code, out)
  | some priv =>
    (ByteStream.writeHandshake negotiatedVersion (cr.publicFromPrivate priv).1).bind fun ec =>
      if ec.failed then .ret (ec, out)
      else (ByteStream.readHandshake 0 []).bind fun peer =>
        if peer.ec.failed then .ret (peer.ec, out)
        else if h : peer.protocolVersion = negotiatedVersion ∧ peer.pubKey.length = 32 then
          if fingerprintOk cr opts peer.pubKey then
            .ret (Session.create cr (cr.sharedSecret priv ⟨peer.pubKey, h.2⟩).1 (psk opts))
          else .ret (Errc.peerFingerprintMismatch.code, out)
        else .ret (Errc.handshakeAuthentication.code, out)

/-- `server_handshake`: the error code, and `out` and `negotiated_version` afterwards. -/
def serverHandshake (cr : Crypto) (priv : Option (Block 32)) (opts : Option HandshakeOpts)
    (out : Session) (negotiatedVersion : UInt16) :
    StreamProg Int32 (ErrorCode × Session × UInt16) :=
  match priv with
  | none => .ret (Errc.ioError.code, out, negotiatedVersion)
  | some priv =>
    (ByteStream.readHandshake negotiatedVersion []).bind fun peer =>
      if peer.ec.failed then .ret (peer.ec, out, peer.protocolVersion)
      else if h : peer.pubKey.length = 32 then
        if fingerprintOk cr opts peer.pubKey then
          let shared := cr.sharedSecret priv ⟨peer.pubKey, h⟩
          (ByteStream.writeHandshake peer.protocolVersion (cr.publicFromPrivate priv).1).bind fun ec =>
            if ec.failed then .ret (ec, out, peer.protocolVersion)
            else
              let created := Session.create cr shared.1 (psk opts)
              .ret (created.1, created.2, peer.protocolVersion)
        else .ret (Errc.peerFingerprintMismatch.code, out, peer.protocolVersion)
      else .ret (Errc.badHandshake.code, out, peer.protocolVersion)

/-! ## The header on the stream -/

namespace ByteStream

variable {c o : Bytes} {v : UInt16} {pub : Bytes}

theorem silent_readExact (buf : Bytes) : Silent posix (readExact buf) :=
  fun _ _ _ h => (reaches_readLoop h).1

/-- `write_handshake` receives nothing and sends the header from its front on; it succeeds only with
all of it. -/
theorem reaches_writeHandshake {q : StreamProg Int32 ErrorCode}
    (h : Reaches posix (writeHandshake v pub) c o q) :
    c = [] ∧ o <+: Protocol.handshakeBytes v pub ∧
      (Protocol.supportsVersion v = false → o = []) ∧
      ∀ ec, q = .ret ec →
        ec = .success ∧ Protocol.supportsVersion v = true ∧ o = Protocol.handshakeBytes v pub ∨
        ec.failed = true ∧ (Protocol.supportsVersion v = true →
          pub.length = Protocol.kX25519PubKeyLen → SocketError ec) := by
  unfold writeHandshake at h
  split at h
  · rename_i hversion
    split at h
    · rename_i hlen
      rcases h.of_bind with ⟨p', hhead, rfl, hne⟩ | ⟨ec, c₁, c₂, o₁, o₂, hhead, hnext, rfl, rfl⟩
      · obtain ⟨rfl, hfront, -⟩ := reaches_writeAll hhead
        exact ⟨rfl, hfront.trans (List.prefix_append _ _), by simp [hversion],
          fun ec hret => absurd hret (hne ec)⟩
      · obtain ⟨rfl, hfront, hret⟩ := reaches_writeAll hhead
        rcases hret ec rfl with ⟨rfl, rfl⟩ | hfail
        · rw [if_neg (by simp)] at hnext
          obtain ⟨rfl, hrest, hret'⟩ := reaches_writeAll hnext
          refine ⟨rfl, (List.prefix_append_right_inj _).mpr hrest, by simp [hversion],
            fun ec hq => ?_⟩
          rcases hret' ec hq with ⟨hec, rfl⟩ | hfail
          · exact .inl ⟨hec, hversion, rfl⟩
          · exact .inr ⟨hfail.1, fun _ _ => hfail⟩
        · rw [if_pos hfail.1] at hnext
          obtain ⟨rfl, rfl, rfl⟩ := hnext.of_ret
          rw [List.append_nil o₁]
          refine ⟨rfl, hfront.trans (List.prefix_append _ _), by simp [hversion], fun ec' hq => ?_⟩
          cases hq
          exact .inr ⟨hfail.1, fun _ _ => hfail⟩
    · rename_i hlen
      obtain ⟨rfl, rfl, rfl⟩ := h.of_ret
      refine ⟨rfl, List.nil_prefix, fun _ => rfl, fun ec hq => ?_⟩
      cases hq
      exact .inr ⟨rfl, fun _ hlen' => absurd hlen' hlen⟩
  · rename_i hversion
    obtain ⟨rfl, rfl, rfl⟩ := h.of_ret
    refine ⟨rfl, List.nil_prefix, fun _ => rfl, fun ec hq => ?_⟩
    cases hq
    exact .inr ⟨rfl, fun hversion' => absurd hversion' hversion⟩

/-- `read_handshake` sends nothing. -/
theorem silent_readHandshake (v : UInt16) (pub : Bytes) : Silent posix (readHandshake v pub) := by
  refine (silent_readExact _).bind fun magic => ?_
  split_ifs
  · exact silent_ret _
  · refine (silent_readExact _).bind fun ver => ?_
    split_ifs
    · exact silent_ret _
    · exact (silent_readExact _).bind fun key => silent_ret _
    · exact silent_ret _
  · exact silent_ret _

/-- The codes with which `read_handshake` refuses a header. -/
def FormatError (ec : ErrorCode) : Prop :=
  ec = Errc.badHandshake.code ∨ ec = Errc.unsupportedProtocol.code

/-- `read_handshake` succeeds only on a header of a version that is supported, and has consumed
exactly this header then. -/
theorem reaches_readHandshake {peer : PeerHandshake}
    (h : Reaches posix (readHandshake v pub) c o (.ret peer)) :
    peer.ec = .success ∧ Protocol.supportsVersion peer.protocolVersion = true ∧
        peer.pubKey.length = 32 ∧ c = Protocol.handshakeBytes peer.protocolVersion peer.pubKey ∨
      peer.ec.failed = true ∧ (SocketError peer.ec ∨ FormatError peer.ec) := by
  obtain ⟨magic, c₁, c₂, o₁, o₂, hmagic, hnext, rfl, rfl⟩ := h.of_bind_ret
  obtain ⟨-, ⟨rfl, hlen⟩ | ⟨hfail, -⟩⟩ := reaches_readExact hmagic
  · rw [if_neg (by simp)] at hnext
    split at hnext
    · rename_i hword
      obtain ⟨ver, c₃, c₄, o₃, o₄, hver, hnext', rfl, rfl⟩ := hnext.of_bind_ret
      obtain ⟨-, ⟨rfl, hlen'⟩ | ⟨hfail, -⟩⟩ := reaches_readExact hver
      · rw [if_neg (by simp)] at hnext'
        split at hnext'
        · rename_i hversion
          obtain ⟨key, c₅, c₆, o₅, o₆, hkey, hlast, rfl, rfl⟩ := hnext'.of_bind_ret
          obtain ⟨rfl, -, hpeer⟩ := hlast.of_ret
          cases hpeer
          obtain ⟨-, ⟨rfl, hlen''⟩ | ⟨hfail, -⟩⟩ := reaches_readExact hkey
          · refine .inl ⟨rfl, hversion, hlen'', ?_⟩
            dsimp only at hword ⊢
            rw [Protocol.handshakeBytes, Protocol.putBe16_getBe16 hlen', ← hword, List.append_nil,
              List.append_assoc]
          · exact .inr ⟨hfail.1, .inl hfail⟩
        · obtain ⟨-, -, hpeer⟩ := hnext'.of_ret
          cases hpeer
          exact .inr ⟨rfl, .inr (.inr rfl)⟩
      · rw [if_pos hfail.1] at hnext'
        obtain ⟨-, -, hpeer⟩ := hnext'.of_ret
        cases hpeer
        exact .inr ⟨hfail.1, .inl hfail⟩
    · obtain ⟨-, -, hpeer⟩ := hnext.of_ret
      cases hpeer
      exact .inr ⟨rfl, .inr (.inl rfl)⟩
  · rw [if_pos hfail.1] at hnext
    obtain ⟨-, -, hpeer⟩ := hnext.of_ret
    cases hpeer
    exact .inr ⟨hfail.1, .inl hfail⟩

/-! ## The header on a stream that flows -/

variable {k : Kernel Int32} {rest : Bytes}

theorem run_readExact_append (hk : k.Flowing) {a : Bytes} {n : ℕ} (ha : a.length = n)
    (hin : k.input = a ++ rest) :
    ((readExact (buffer n)).run k).1 = (.success, a) ∧
      ((readExact (buffer n)).run k).2.input = rest ∧
      ((readExact (buffer n)).run k).2.output = k.output ∧
      ((readExact (buffer n)).run k).2.Flowing := by
  obtain ⟨hout, hflow, hall, -⟩ := run_readLoop hk [] (buffer n)
  have hbuffer : (buffer n).length = n := List.length_replicate
  rw [hbuffer, hin, List.take_left' ha, List.drop_left' ha] at hall
  obtain ⟨hret, hrest⟩ := hall (by rw [List.length_append]; omega)
  exact ⟨hret, hrest, hout, hflow⟩

theorem run_writeHandshake (hk : k.Flowing) (hversion : Protocol.supportsVersion v = true)
    (hpub : pub.length = Protocol.kX25519PubKeyLen) :
    ((writeHandshake v pub).run k).1 = .success ∧
      ((writeHandshake v pub).run k).2.input = k.input ∧
      ((writeHandshake v pub).run k).2.output = k.output ++ Protocol.handshakeBytes v pub ∧
      ((writeHandshake v pub).run k).2.Flowing := by
  obtain ⟨hret₁, hin₁, hout₁, hflow₁⟩ := run_writeAll hk (Protocol.kMagic ++ Protocol.putBe16 v)
  obtain ⟨hret₂, hin₂, hout₂, hflow₂⟩ := run_writeAll hflow₁ pub
  rw [writeHandshake, if_pos hversion, if_pos hpub, run_bind, hret₁, if_neg (by simp)]
  refine ⟨hret₂, hin₂.trans hin₁, ?_, hflow₂⟩
  rw [hout₂, hout₁, Protocol.handshakeBytes, List.append_assoc]

/-- What `write_handshake` sent is read back. -/
theorem run_readHandshake (hk : k.Flowing) (hversion : Protocol.supportsVersion v = true)
    (hpub : pub.length = Protocol.kX25519PubKeyLen)
    (hin : k.input = Protocol.handshakeBytes v pub ++ rest) (v₀ : UInt16) (pub₀ : Bytes) :
    ((readHandshake v₀ pub₀).run k).1 = ⟨.success, v, pub⟩ ∧
      ((readHandshake v₀ pub₀).run k).2.input = rest ∧
      ((readHandshake v₀ pub₀).run k).2.output = k.output ∧
      ((readHandshake v₀ pub₀).run k).2.Flowing := by
  rw [Protocol.handshakeBytes, List.append_assoc, List.append_assoc] at hin
  have hlen : (Protocol.putBe16 v).length = 2 := Bytes.length_putBe _ _
  obtain ⟨hret₁, hin₁, hout₁, hflow₁⟩ := run_readExact_append (n := 4) hk rfl hin
  obtain ⟨hret₂, hin₂, hout₂, hflow₂⟩ := run_readExact_append hflow₁ hlen hin₁
  obtain ⟨hret₃, hin₃, hout₃, hflow₃⟩ := run_readExact_append hflow₂ hpub hin₂
  rw [readHandshake, run_bind, hret₁, if_neg (by simp), if_pos rfl, run_bind, hret₂,
    if_neg (by simp)]
  dsimp only
  rw [Protocol.getBe16_putBe16, if_pos hversion, run_bind, hret₃, run_ret]
  exact ⟨rfl, hin₃, hout₃.trans (hout₂.trans hout₁), hflow₃⟩

end ByteStream

/-! ## What a side has done -/

variable {cr : Crypto} {priv : Option (Block 32)} {opts : Option HandshakeOpts} {out : Session}
  {c o : Bytes} {v : UInt16}

/-- The header that a side sends; without a private key there is none. -/
def ownHeader (cr : Crypto) : Option (Block 32) → Bytes
  | none => []
  | some priv =>
    Protocol.handshakeBytes Protocol.kCurrentProtocolVersion (cr.publicFromPrivate priv).1

/-- What a side has done when it succeeds: it received the header of `peerPub` and sent its own, its
key comes from the shared secret with `peerPub`, and a fingerprint that it has pinned is the one of
`peerPub`. -/
def Established (cr : Crypto) (priv : Option (Block 32)) (opts : Option HandshakeOpts) (c o : Bytes)
    (session : Session) : Prop :=
  ∃ a peerPub : Block 32, priv = some a ∧
    c = Protocol.handshakeBytes Protocol.kCurrentProtocolVersion peerPub.1 ∧ o = ownHeader cr priv ∧
    session.key = deriveSessionKey cr (cr.sharedSecret a peerPub).1 (psk opts) ∧
    ∀ fp, pinned opts = some fp → fp = fingerprintSha256 cr peerPub.1

/-- What can be said of a side that received `c` and sent `o`, and of what it `returned`. -/
structure SideSpec (cr : Crypto) (priv : Option (Block 32)) (opts : Option HandshakeOpts)
    (out : Session) (c o : Bytes) (returned : ErrorCode → Session → Prop) : Prop where
  sent : o <+: ownHeader cr priv
  established : ∀ session, returned .success session → Established cr priv opts c o session
  unchanged : ∀ ec session, returned ec session → ec = .success ∨ ec.failed = true ∧ session = out

/-- A side that is still at work, or has failed. -/
theorem SideSpec.of_failed {returned : ErrorCode → Session → Prop} (hsent : o <+: ownHeader cr priv)
    (hfailed : ∀ ec session, returned ec session → ec.failed = true ∧ session = out) :
    SideSpec cr priv opts out c o returned where
  sent := hsent
  established session hret := by
    have hsuccess := (hfailed _ _ hret).1
    rw [ErrorCode.failed_success] at hsuccess
    cases hsuccess
  unchanged ec session hret := .inr (hfailed ec session hret)

/-- The part of a header that `write_handshake` sends under a version of its own choice. -/
theorem isPrefix_ownHeader {a : Block 32} {q : StreamProg Int32 ErrorCode}
    (h : Reaches posix (ByteStream.writeHandshake v (cr.publicFromPrivate a).1) c o q) :
    o <+: ownHeader cr (some a) := by
  obtain ⟨-, hfront, hnone, -⟩ := ByteStream.reaches_writeHandshake h
  cases hversion : Protocol.supportsVersion v with
  | true => rwa [Protocol.supportsVersion_iff.mp hversion] at hfront
  | false =>
      rw [hnone hversion]
      exact List.nil_prefix

theorem pinned_of_fingerprintOk {peerPub : Bytes} (h : fingerprintOk cr opts peerPub = true) :
    ∀ fp, pinned opts = some fp → fp = fingerprintSha256 cr peerPub := by
  intro fp hfp
  rw [fingerprintOk, hfp] at h
  exact (beq_iff_eq.mp h).symm

/-- A client that returns an error leaves `out` as it was. -/
theorem SideSpec.of_client_failed {c' o' : Bytes} {ec : ErrorCode}
    {q : StreamProg Int32 (ErrorCode × Session)} (hsent : o <+: ownHeader cr priv)
    (hfailed : ec.failed = true) (h : Reaches posix (.ret (ec, out)) c' o' q) :
    SideSpec cr priv opts out (c ++ c') (o ++ o') fun ec session => q = .ret (ec, session) := by
  obtain ⟨rfl, rfl, rfl⟩ := h.of_ret
  rw [List.append_nil o]
  refine .of_failed hsent fun ec session hret => ?_
  cases hret
  exact ⟨hfailed, rfl⟩

/-- **The client**, at any point of any run. -/
theorem reaches_clientHandshake {q : StreamProg Int32 (ErrorCode × Session)}
    (h : Reaches posix (clientHandshake cr priv v opts out) c o q) :
    SideSpec cr priv opts out c o fun ec session => q = .ret (ec, session) := by
  cases priv with
  | none => exact .of_client_failed (c := []) (o := []) List.nil_prefix rfl h
  | some a =>
      rcases h.of_bind with ⟨p', hwrite, -, hne⟩ | ⟨ec, c₁, c₂, o₁, o₂, hwrite, hnext, rfl, rfl⟩
      · exact .of_failed (isPrefix_ownHeader hwrite) fun ec session hret => absurd hret (hne _)
      have hsent := isPrefix_ownHeader hwrite
      obtain ⟨rfl, -, -, hret⟩ := ByteStream.reaches_writeHandshake hwrite
      rcases hret ec rfl with ⟨rfl, hversion, hheader⟩ | ⟨hfailed, -⟩
      swap
      · rw [if_pos hfailed] at hnext
        exact .of_client_failed hsent hfailed hnext
      -- the header is out, and the rest only receives
      rw [if_neg (by simp)] at hnext
      rcases hnext.of_bind with ⟨p', hread, -, hne⟩ | ⟨peer, c₃, c₄, o₃, o₄, hread, hlast, rfl, rfl⟩
      · rw [ByteStream.silent_readHandshake _ _ _ _ _ hread, List.append_nil]
        exact .of_failed hsent fun ec session hret => absurd hret (hne _)
      obtain rfl := ByteStream.silent_readHandshake _ _ _ _ _ hread
      simp only [List.nil_append]
      rcases ByteStream.reaches_readHandshake hread with ⟨hec, -, hlen, rfl⟩ | ⟨hfailed, -⟩
      swap
      · rw [if_pos hfailed] at hlast
        exact .of_client_failed hsent hfailed hlast
      rw [hec, if_neg (by simp)] at hlast
      split at hlast
      · rename_i hmatch
        split at hlast
        · rename_i hpin
          obtain ⟨rfl, rfl, rfl⟩ := hlast.of_ret
          have hcurrent := Protocol.supportsVersion_iff.mp hversion
          refine ⟨by simpa using hsent, fun session hret => ?_, fun ec session hret => ?_⟩
          · cases hret
            refine ⟨a, ⟨peer.pubKey, hlen⟩, rfl, ?_, ?_, rfl, pinned_of_fingerprintOk hpin⟩
            · rw [hmatch.1, hcurrent]
              simp
            · rw [hheader, hcurrent]
              simp [ownHeader]
          · cases hret
            exact .inl rfl
        · exact .of_client_failed hsent rfl hlast
      · exact .of_client_failed hsent rfl hlast

/-- The codes with which a server refuses a client: the format of the header and its fingerprint. -/
def Refusal (ec : ErrorCode) : Prop :=
  ByteStream.FormatError ec ∨ ec = Errc.peerFingerprintMismatch.code

theorem SocketError.not_refusal {ec : ErrorCode} (h : SocketError ec) : ¬Refusal ec := by
  obtain ⟨-, rfl | rfl | hgeneric⟩ := h
  · rintro ((h | h) | h) <;> cases h
  · rintro ((h | h) | h) <;> cases h
  · rintro ((rfl | rfl) | rfl) <;> cases hgeneric

/-- What can be said of a server: in addition, nothing goes out before the client is accepted. -/
structure ServerSpec (cr : Crypto) (priv : Option (Block 32)) (opts : Option HandshakeOpts)
    (out : Session) (c o : Bytes) (q : StreamProg Int32 (ErrorCode × Session × UInt16)) : Prop
    extends SideSpec cr priv opts out c o fun ec session => ∃ ver, q = .ret (ec, session, ver) where
  refused : ∀ ec session ver, q = .ret (ec, session, ver) → Refusal ec → o = []

/-- A server that returns an error leaves `out` as it was. -/
theorem ServerSpec.of_failed {c' o' : Bytes} {ec : ErrorCode} {ver : UInt16}
    {q : StreamProg Int32 (ErrorCode × Session × UInt16)} (hsent : o <+: ownHeader cr priv)
    (hfailed : ec.failed = true) (hquiet : Refusal ec → o = [])
    (h : Reaches posix (.ret (ec, out, ver)) c' o' q) :
    ServerSpec cr priv opts out (c ++ c') (o ++ o') q := by
  obtain ⟨rfl, rfl, rfl⟩ := h.of_ret
  rw [List.append_nil o]
  refine ⟨.of_failed hsent fun ec session hret => ?_, fun ec session ver hret hrefusal => ?_⟩
  · obtain ⟨ver, hret⟩ := hret
    cases hret
    exact ⟨hfailed, rfl⟩
  · cases hret
    exact hquiet hrefusal

/-- A server that has not returned. -/
theorem ServerSpec.of_running {q : StreamProg Int32 (ErrorCode × Session × UInt16)}
    (hsent : o <+: ownHeader cr priv) (hne : ∀ r, q ≠ .ret r) :
    ServerSpec cr priv opts out c o q where
  toSideSpec := .of_failed hsent fun _ _ ⟨_, hret⟩ => absurd hret (hne _)
  refused _ _ _ hret := absurd hret (hne _)

/-- **The server**, at any point of any run. -/
theorem reaches_serverHandshake {q : StreamProg Int32 (ErrorCode × Session × UInt16)}
    (h : Reaches posix (serverHandshake cr priv opts out v) c o q) :
    ServerSpec cr priv opts out c o q := by
  cases priv with
  | none => exact .of_failed (c := []) (o := []) List.nil_prefix rfl (fun _ => rfl) h
  | some a =>
      rcases h.of_bind with ⟨p', hread, -, hne⟩ | ⟨peer, c₁, c₂, o₁, o₂, hread, hnext, rfl, rfl⟩
      · rw [ByteStream.silent_readHandshake _ _ _ _ _ hread]
        exact .of_running List.nil_prefix hne
      obtain rfl := ByteStream.silent_readHandshake _ _ _ _ _ hread
      rcases ByteStream.reaches_readHandshake hread with ⟨hec, hversion, hlen, rfl⟩ | ⟨hfailed, -⟩
      swap
      · rw [if_pos hfailed] at hnext
        exact .of_failed List.nil_prefix hfailed (fun _ => rfl) hnext
      rw [hec, if_neg (by simp), dif_pos hlen] at hnext
      split at hnext
      swap
      · exact .of_failed List.nil_prefix rfl (fun _ => rfl) hnext
      rename_i hpin
      -- the client is accepted: from here on only the socket can fail
      rcases hnext.of_bind with ⟨p', hwrite, -, hne⟩ | ⟨ec, c₃, c₄, o₃, o₄, hwrite, hlast, rfl, rfl⟩
      · exact .of_running (isPrefix_ownHeader hwrite) hne
      have hsent := isPrefix_ownHeader hwrite
      have hcurrent := Protocol.supportsVersion_iff.mp hversion
      obtain ⟨rfl, -, -, hret⟩ := ByteStream.reaches_writeHandshake hwrite
      simp only [List.nil_append]
      rcases hret ec rfl with ⟨rfl, -, hheader⟩ | ⟨hfailed, hsocket⟩
      swap
      · rw [if_pos hfailed] at hlast
        have hkey : (cr.publicFromPrivate a).1.length = Protocol.kX25519PubKeyLen :=
          (cr.publicFromPrivate a).2
        exact .of_failed hsent hfailed
          (fun hrefusal => absurd hrefusal (hsocket hversion hkey).not_refusal) hlast
      rw [if_neg (by simp)] at hlast
      obtain ⟨rfl, rfl, rfl⟩ := hlast.of_ret
      refine ⟨⟨by simpa using hsent, fun session hret => ?_, fun ec session hret => ?_⟩,
        fun ec session ver hret hrefusal => ?_⟩
      · obtain ⟨ver, hret⟩ := hret
        cases hret
        refine ⟨a, ⟨peer.pubKey, hlen⟩, rfl, ?_, ?_, rfl, pinned_of_fingerprintOk hpin⟩
        · rw [hcurrent, List.append_nil]
        · rw [hheader, hcurrent, List.append_nil]
          rfl
      · obtain ⟨ver, hret⟩ := hret
        cases hret
        exact .inl rfl
      · cases hret
        obtain (h | h) | h := hrefusal <;> cases h

end TcpDuplex
