import TcpDuplex.Handshake
import TcpDuplex.Lib.Duplex

/-!
# Agreement of the handshake

A client and a server run the handshake over two reliable streams: `Parties.Reachable` are the states
that some interleaving and some way of cutting the streams lead to. A side that succeeded may go on to
write records; these bytes are its `behind`.

Everything is said of one side first (`reaches_clientHandshake`, `reaches_serverHandshake`). What
brings the two together is that a side which has received 38 bytes has received the header of the
other, no more and no less (`eq_of_header`).
-/

namespace TcpDuplex

open StreamProg Machine

/-- The parameters of both sides: what they draw, what they are called with, and what stands in their
output parameters. -/
structure Parties where
  cr : Crypto
  clientPriv : Option (Block 32)
  serverPriv : Option (Block 32)
  version : UInt16
  clientOpts : Option HandshakeOpts
  serverOpts : Option HandshakeOpts
  clientOut : Session
  serverOut : Session
  serverVersion : UInt16

/-- The client on the left, the server on the right. -/
abbrev Pair := Duplex Int32 (ErrorCode × Session) (ErrorCode × Session × UInt16)

namespace Parties

def client (P : Parties) : StreamProg Int32 (ErrorCode × Session) :=
  clientHandshake P.cr P.clientPriv P.version P.clientOpts P.clientOut

def server (P : Parties) : StreamProg Int32 (ErrorCode × Session × UInt16) :=
  serverHandshake P.cr P.serverPriv P.serverOpts P.serverOut P.serverVersion

/-- Some run of the two leads here; a side sends records only when its handshake has succeeded. -/
def Reachable (P : Parties) (s : Pair) : Prop :=
  GRun (Duplex.step (fun r => !r.1.failed) (fun r => !r.1.failed)) (Duplex.Allows posix)
    (Duplex.start P.client P.server) s

end Parties

/-- The client has returned with these values. -/
def ClientReturned (s : Pair) (ec : ErrorCode) (session : Session) : Prop :=
  s.left.prog = .ret (ec, session)

/-- The server has returned with these values. -/
def ServerReturned (s : Pair) (ec : ErrorCode) (session : Session) : Prop :=
  ∃ ver, s.right.prog = .ret (ec, session, ver)

/-- `X25519(a, X25519(b, 9)) = X25519(b, X25519(a, 9))`. -/
def Crypto.Commutes (cr : Crypto) : Prop :=
  ∀ a b, cr.sharedSecret a (cr.publicFromPrivate b) = cr.sharedSecret b (cr.publicFromPrivate a)

/-- SHA-256 keeps apart what the two sides feed to it for their keys. -/
def Parties.HashSeparates (P : Parties) : Prop :=
  ∀ a b, P.clientPriv = some a → P.serverPriv = some b →
    let shared := (P.cr.sharedSecret a (P.cr.publicFromPrivate b)).1
    Set.InjOn P.cr.sha256
      {keyMaterial shared (psk P.clientOpts), keyMaterial shared (psk P.serverOpts)}

/-! ## Headers -/

variable {cr : Crypto} {priv : Option (Block 32)}

theorem length_header (pub : Block 32) :
    (Protocol.handshakeBytes Protocol.kCurrentProtocolVersion pub.1).length = 38 := by
  rw [Protocol.length_handshakeBytes, pub.2]

theorem length_ownHeader_le : (ownHeader cr priv).length ≤ 38 := by
  cases priv with
  | none => exact Nat.zero_le _
  | some a => exact (length_header _).le

theorem Established.length {opts : Option HandshakeOpts} {c o : Bytes} {session : Session}
    (h : Established cr priv opts c o session) : c.length = 38 ∧ o.length = 38 := by
  obtain ⟨a, peerPub, rfl, rfl, rfl, -, -⟩ := h
  exact ⟨length_header _, length_header _⟩

/-- A header names one key. -/
theorem header_injective {pub pub' : Block 32}
    (h : Protocol.handshakeBytes Protocol.kCurrentProtocolVersion pub.1 =
      Protocol.handshakeBytes Protocol.kCurrentProtocolVersion pub'.1) : pub = pub' :=
  Subtype.ext (List.append_cancel_left h)

/-- **Nothing else fits**: 38 bytes received from a side that sends its header, and other things only
behind all of it, are this header. -/
theorem eq_of_header {c inbox o behind header : Bytes} (hc : c.length = 38)
    (hcons : c ++ inbox = o ++ behind) (hsent : o <+: header) (hheader : header.length ≤ 38)
    (hbehind : behind = [] ∨ o.length = 38) : c = o ∧ inbox = behind ∧ o = header := by
  have hle := hsent.length_le
  have hcount := congrArg List.length hcons
  rw [List.length_append, List.length_append] at hcount
  have ho : o.length = 38 := by
    rcases hbehind with rfl | ho
    · rw [List.length_nil] at hcount
      omega
    · exact ho
  obtain ⟨hsame, hrest⟩ := List.append_inj hcons (by omega)
  exact ⟨hsame, hrest, hsent.eq_of_length (by omega)⟩

/-- What goes into the key determines the pre-shared key: an empty one adds nothing, and any other one
comes behind a fixed number of bytes. -/
theorem keyMaterial_inj {shared p p' : Bytes} (h : keyMaterial shared p = keyMaterial shared p') :
    p = p' := by
  have hlength := congrArg List.length h
  unfold keyMaterial at h hlength
  cases p with
  | nil =>
      cases p' with
      | nil => rfl
      | cons x xs => simp at hlength
  | cons x xs =>
      cases p' with
      | nil => simp at hlength
      | cons y ys =>
          refine (List.append_inj h ?_).2
          simp [Protocol.putBe32]

/-! ## The two sides -/

variable {P : Parties} {s : Pair}

/-- Whoever sends records has sent all of its header before. -/
theorem SideSpec.length_of_behind {opts : Option HandshakeOpts} {out : Session}
    {c o behind : Bytes} {returned : ErrorCode → Session → Prop}
    (h : SideSpec cr priv opts out c o returned)
    (hbehind : behind = [] ∨ ∃ ec session, returned ec session ∧ ec.failed = false) :
    behind = [] ∨ o.length = 38 := by
  refine hbehind.imp_right ?_
  rintro ⟨ec, session, hret, hok⟩
  rcases h.unchanged ec session hret with rfl | ⟨hfailed, -⟩
  · exact (h.established session hret).length.2
  · rw [hok] at hfailed
    cases hfailed

/-- What holds in every state that the two reach. -/
structure Handshaking (P : Parties) (s : Pair) : Prop where
  client : SideSpec P.cr P.clientPriv P.clientOpts P.clientOut s.left.consumed s.left.produced
    (ClientReturned s)
  server : ServerSpec P.cr P.serverPriv P.serverOpts P.serverOut s.right.consumed s.right.produced
    s.right.prog
  clientBehind : s.left.behind = [] ∨ s.left.produced.length = 38
  serverBehind : s.right.behind = [] ∨ s.right.produced.length = 38
  conserved : s.Conserved

theorem handshaking_of_reachable (h : P.Reachable s) : Handshaking P s := by
  obtain ⟨hclient, hserver, hcons⟩ := Duplex.ran_of_grun h
  have hc := reaches_clientHandshake hclient.reaches
  have hs := reaches_serverHandshake hserver.reaches
  refine ⟨hc, hs, hc.length_of_behind ?_, hs.length_of_behind ?_, hcons⟩
  · refine hclient.behind.imp_right ?_
    rintro ⟨⟨ec, session⟩, hret, hdone⟩
    exact ⟨ec, session, hret, by simpa using hdone⟩
  · refine hserver.behind.imp_right ?_
    rintro ⟨⟨ec, session, ver⟩, hret, hdone⟩
    exact ⟨ec, session, ⟨ver, hret⟩, by simpa using hdone⟩

namespace Handshaking

variable {session session' : Session}

/-- A client that succeeded has received the server's header, and next comes the first record. -/
theorem client_received (h : Handshaking P s) (hret : ClientReturned s .success session) :
    s.left.consumed = s.right.produced ∧ s.toLeft = s.right.behind ∧
      s.right.produced = ownHeader P.cr P.serverPriv :=
  eq_of_header (h.client.established session hret).length.1 h.conserved.left h.server.sent
    length_ownHeader_le h.serverBehind

/-- A server that succeeded has received the client's header, and next comes the first record. -/
theorem server_received (h : Handshaking P s) (hret : ServerReturned s .success session) :
    s.right.consumed = s.left.produced ∧ s.toRight = s.left.behind ∧
      s.left.produced = ownHeader P.cr P.clientPriv :=
  eq_of_header (h.server.established session hret).length.1 h.conserved.right h.client.sent
    length_ownHeader_le h.clientBehind

/-- **The keys agree exactly when the pre-shared keys do.** -/
theorem key_eq_iff (h : Handshaking P s) (hdh : P.cr.Commutes) (hsha : P.HashSeparates)
    (hclient : ClientReturned s .success session) (hserver : ServerReturned s .success session') :
    session.key = session'.key ↔ psk P.clientOpts = psk P.serverOpts := by
  obtain ⟨a, serverPub, ha, hcin, hcout, hckey, -⟩ := h.client.established _ hclient
  obtain ⟨b, clientPub, hb, hsin, hsout, hskey, -⟩ := h.server.established _ hserver
  -- each of them used the key that the other one sent
  have hserverPub : serverPub = P.cr.publicFromPrivate b := by
    apply header_injective
    rw [← hcin, (h.client_received hclient).1, hsout, hb]
    rfl
  have hclientPub : clientPub = P.cr.publicFromPrivate a := by
    apply header_injective
    rw [← hsin, (h.server_received hserver).1, hcout, ha]
    rfl
  rw [hckey, hskey, hserverPub, hclientPub, hdh b a]
  unfold deriveSessionKey
  constructor
  · intro hkey
    have hmaterial := hsha a b ha hb (.inl rfl) (.inr rfl) (Subtype.ext hkey)
    exact keyMaterial_inj hmaterial
  · intro hpsk
    rw [hpsk]

end Handshaking

/-- **Agreement**, in every state that a client and a server reach, for all keys and options, and
however their steps interleave and the streams are cut.

A side that succeeds has received and sent 38 bytes, the header of the other side and its own, so that
next comes the first record. If both succeed, their keys are equal exactly when their pre-shared keys
are. A fingerprint that is pinned is that of the key behind the shared secret. A side that fails leaves
its session as it was, and a server that refuses its peer, whoever that is, has sent it nothing. -/
theorem handshake_agreement (P : Parties) (hdh : P.cr.Commutes) (hsha : P.HashSeparates) (s : Pair)
    (hs : P.Reachable s) :
    (∀ session, ClientReturned s .success session →
      s.left.consumed.length = 38 ∧ s.left.produced.length = 38 ∧
        s.left.consumed = s.right.produced ∧ s.toLeft = s.right.behind) ∧
    (∀ session, ServerReturned s .success session →
      s.right.consumed.length = 38 ∧ s.right.produced.length = 38 ∧
        s.right.consumed = s.left.produced ∧ s.toRight = s.left.behind) ∧
    (∀ session session', ClientReturned s .success session → ServerReturned s .success session' →
      (session.key = session'.key ↔ psk P.clientOpts = psk P.serverOpts)) ∧
    (∀ session fp, ClientReturned s .success session → pinned P.clientOpts = some fp →
      ∃ a peerPub, P.clientPriv = some a ∧ fp = fingerprintSha256 P.cr peerPub.1 ∧
        s.left.consumed = Protocol.handshakeBytes Protocol.kCurrentProtocolVersion peerPub.1 ∧
        session.key = deriveSessionKey P.cr (P.cr.sharedSecret a peerPub).1 (psk P.clientOpts)) ∧
    (∀ session fp, ServerReturned s .success session → pinned P.serverOpts = some fp →
      ∃ b peerPub, P.serverPriv = some b ∧ fp = fingerprintSha256 P.cr peerPub.1 ∧
        s.right.consumed = Protocol.handshakeBytes Protocol.kCurrentProtocolVersion peerPub.1 ∧
        session.key = deriveSessionKey P.cr (P.cr.sharedSecret b peerPub).1 (psk P.serverOpts)) ∧
    (∀ ec session, ClientReturned s ec session → ec ≠ .success → session = P.clientOut) ∧
    (∀ ec session, ServerReturned s ec session → ec ≠ .success → session = P.serverOut) ∧
    (∀ ec session, ServerReturned s ec session → Refusal ec → s.right.produced = []) ∧
    ∀ c o ec session ver, Reaches posix P.server c o (.ret (ec, session, ver)) → Refusal ec →
      o = [] := by
  have h := handshaking_of_reachable hs
  refine ⟨fun session hret => ?_, fun session hret => ?_, fun session session' hc hs => ?_,
    fun session fp hret hpin => ?_, fun session fp hret hpin => ?_, fun ec session hret hne => ?_,
    fun ec session hret hne => ?_, fun ec session hret hrefusal => ?_,
    fun c o ec session ver hrun hrefusal => ?_⟩
  · obtain ⟨hin, hout⟩ := (h.client.established session hret).length
    obtain ⟨hsame, hnext, -⟩ := h.client_received hret
    exact ⟨hin, hout, hsame, hnext⟩
  · obtain ⟨hin, hout⟩ := (h.server.established session hret).length
    obtain ⟨hsame, hnext, -⟩ := h.server_received hret
    exact ⟨hin, hout, hsame, hnext⟩
  · exact h.key_eq_iff hdh hsha hc hs
  · obtain ⟨a, peerPub, ha, hin, -, hkey, hfp⟩ := h.client.established session hret
    exact ⟨a, peerPub, ha, hfp fp hpin, hin, hkey⟩
  · obtain ⟨b, peerPub, hb, hin, -, hkey, hfp⟩ := h.server.established session hret
    exact ⟨b, peerPub, hb, hfp fp hpin, hin, hkey⟩
  · exact ((h.client.unchanged ec session hret).resolve_left hne).2
  · exact ((h.server.unchanged ec session hret).resolve_left hne).2
  · obtain ⟨ver, hret⟩ := hret
    exact h.server.refused ec session ver hret hrefusal
  · exact (reaches_serverHandshake hrun).refused ec session ver rfl hrefusal

/-! ## A run in which both succeed -/

open ByteStream

variable {a b : Block 32}

theorem supportsVersion_current :
    Protocol.supportsVersion Protocol.kCurrentProtocolVersion = true := rfl

/-- The server, given the header of a client that it accepts. -/
theorem reaches_server (hpriv : P.serverPriv = some b)
    (hpin : fingerprintOk P.cr P.serverOpts (P.cr.publicFromPrivate a).1 = true) :
    ∃ session, Reaches posix P.server (ownHeader P.cr (some a)) (ownHeader P.cr (some b))
      (.ret (.success, session, Protocol.kCurrentProtocolVersion)) := by
  have hkey := (P.cr.publicFromPrivate a).2
  have hflow := flowing_byteByByte (ownHeader P.cr (some a))
  obtain ⟨hret, hin, hout, hflow₁⟩ :=
    run_readHandshake hflow supportsVersion_current hkey (List.append_nil _).symm
      P.serverVersion []
  obtain ⟨hret₁, hin₁, hout₁, -⟩ :=
    run_writeHandshake hflow₁ supportsVersion_current (P.cr.publicFromPrivate b).2
  rw [Parties.server, hpriv]
  refine ⟨⟨deriveSessionKey P.cr (P.cr.sharedSecret b (P.cr.publicFromPrivate a)).1
    (psk P.serverOpts)⟩, ?_⟩
  apply reaches_of_run (Flowing.obeys hflow)
  · rw [serverHandshake, run_bind, hret]
    dsimp only
    rw [if_neg (by simp), dif_pos hkey, if_pos hpin, run_bind, hret₁, if_neg (by simp), run_ret]
    rfl
  · rw [hin₁, hin, List.append_nil]
    rfl
  · rw [hout₁, hout]
    rfl

/-- The client: it sends its header, and then takes the one of a server that it accepts. -/
theorem reaches_client (hpriv : P.clientPriv = some a)
    (hversion : P.version = Protocol.kCurrentProtocolVersion)
    (hpin : fingerprintOk P.cr P.clientOpts (P.cr.publicFromPrivate b).1 = true) :
    ∃ q session, Reaches posix P.client [] (ownHeader P.cr (some a)) q ∧
      Reaches posix q (ownHeader P.cr (some b)) [] (.ret (.success, session)) := by
  have hkey := (P.cr.publicFromPrivate b).2
  obtain ⟨hret, hin, hout, -⟩ :=
    run_writeHandshake (flowing_byteByByte []) supportsVersion_current (P.cr.publicFromPrivate a).2
  have hwrite : Reaches posix
      (writeHandshake Protocol.kCurrentProtocolVersion (P.cr.publicFromPrivate a).1) []
      (ownHeader P.cr (some a)) (.ret .success) :=
    reaches_of_run (Flowing.obeys (flowing_byteByByte [])) (Prod.ext hret rfl) (by rw [hin]; rfl) hout
  have hflow := flowing_byteByByte (ownHeader P.cr (some b))
  obtain ⟨hret₁, hin₁, hout₁, -⟩ :=
    run_readHandshake hflow supportsVersion_current hkey (List.append_nil _).symm 0 []
  rw [Parties.client, hpriv, hversion]
  refine ⟨_, ⟨deriveSessionKey P.cr (P.cr.sharedSecret a (P.cr.publicFromPrivate b)).1
    (psk P.clientOpts)⟩, hwrite.bind_left, ?_⟩
  rw [if_neg (by simp)]
  apply reaches_of_run (Flowing.obeys hflow)
  · rw [run_bind, hret₁]
    dsimp only
    rw [if_neg (by simp), dif_pos ⟨rfl, hkey⟩, if_pos hpin, run_ret]
    rfl
  · rw [hin₁, List.append_nil]
    rfl
  · rw [hout₁]
    rfl

/-- **Both can succeed**, whatever their pre-shared keys, if each is the peer that the other one has
pinned. -/
theorem exists_both_succeed (hclient : P.clientPriv = some a) (hserver : P.serverPriv = some b)
    (hversion : P.version = Protocol.kCurrentProtocolVersion)
    (hclientPin : fingerprintOk P.cr P.clientOpts (P.cr.publicFromPrivate b).1 = true)
    (hserverPin : fingerprintOk P.cr P.serverOpts (P.cr.publicFromPrivate a).1 = true) :
    ∃ s session session', P.Reachable s ∧ ClientReturned s .success session ∧
      ServerReturned s .success session' := by
  obtain ⟨q, session, hfirst, hlast⟩ := reaches_client hclient hversion hclientPin
  obtain ⟨session', hreply⟩ := reaches_server hserver hserverPin
  -- the client's header, then all of the server, then the rest of the client
  have hrun₁ : P.Reachable _ := Duplex.grun_left hfirst rfl (List.append_nil []).symm
  have hrun₂ : P.Reachable _ :=
    hrun₁.trans (Duplex.grun_right hreply rfl (List.append_nil _).symm)
  have hrun₃ : P.Reachable _ :=
    hrun₂.trans (Duplex.grun_left hlast rfl (List.append_nil _).symm)
  exact ⟨_, session, session', hrun₃, rfl, _, rfl⟩

/-! ### A pre-shared key on one side only -/

def sampleClientPriv : Block 32 := ⟨List.replicate 32 1, rfl⟩

def sampleServerPriv : Block 32 := ⟨List.replicate 32 2, rfl⟩

/-- The X25519 public key of the client. -/
def sampleClientPub : Block 32 :=
  ⟨[0xa4, 0xe0, 0x92, 0x92, 0xb6, 0x51, 0xc2, 0x78, 0xb9, 0x77, 0x2c, 0x56, 0x9f, 0x5f, 0xa9, 0xbb,
    0x13, 0xd9, 0x06, 0xb4, 0x6a, 0xb6, 0x8c, 0x9d, 0xf9, 0xdc, 0x2b, 0x44, 0x09, 0xf8, 0xa2, 0x09],
    rfl⟩

/-- The X25519 public key of the server. -/
def sampleServerPub : Block 32 :=
  ⟨[0xce, 0x8d, 0x3a, 0xd1, 0xcc, 0xb6, 0x33, 0xec, 0x7b, 0x70, 0xc1, 0x78, 0x14, 0xa5, 0xc7, 0x6e,
    0xcd, 0x02, 0x96, 0x85, 0x05, 0x0d, 0x34, 0x47, 0x45, 0xba, 0x05, 0x87, 0x0e, 0x58, 0x7d, 0x59],
    rfl⟩

/-- Their shared secret. -/
def sampleShared : Block 32 :=
  ⟨[0x2e, 0xd7, 0x6a, 0xb5, 0x49, 0xb1, 0xe7, 0x3c, 0x03, 0x1e, 0xb4, 0x9c, 0x94, 0x48, 0xf0, 0x79,
    0x8a, 0xea, 0x81, 0xb6, 0x98, 0x27, 0x9a, 0x0c, 0x3d, 0xc3, 0xe4, 0x9f, 0xbf, 0xc4, 0xb9, 0x53],
    rfl⟩

/-- The SHA-256 of the server's public key. -/
def sampleFingerprint : Block 32 :=
  ⟨[0xcf, 0xa5, 0x70, 0xc6, 0x53, 0xbd, 0x21, 0x2b, 0x10, 0xa9, 0xcb, 0x55, 0x1f, 0xd7, 0xa1, 0xb4,
    0x78, 0x98, 0x55, 0xee, 0x17, 0xe9, 0x9e, 0xf2, 0xb3, 0xa2, 0x03, 0x7f, 0xeb, 0x33, 0x7a, 0x08],
    rfl⟩

/-- The key that the client derives with the pre-shared key `k`. -/
def sampleClientKey : Block 32 :=
  ⟨[0x65, 0x41, 0xfa, 0x63, 0x34, 0x5d, 0xb8, 0x38, 0xd3, 0x4f, 0x3f, 0x8e, 0x48, 0xf3, 0x81, 0x4c,
    0x04, 0xce, 0x34, 0x4e, 0x18, 0x43, 0x99, 0x26, 0xf3, 0x95, 0xd3, 0xee, 0xe1, 0x40, 0x69, 0x24],
    rfl⟩

/-- The key that the server derives without one. -/
def sampleServerKey : Block 32 :=
  ⟨[0x6d, 0xef, 0xca, 0xe7, 0x08, 0xa9, 0x59, 0x5a, 0xe5, 0x8d, 0x71, 0x6a, 0xc6, 0x50, 0xdf, 0x5a,
    0x0e, 0xe3, 0xd8, 0xb3, 0x29, 0xe6, 0xd5, 0x4d, 0x03, 0x57, 0x1c, 0x87, 0xa9, 0x6f, 0xda, 0x5f],
    rfl⟩

/-- X25519 and SHA-256 on what the sample asks for; zeros elsewhere. -/
def sampleCrypto : Crypto where
  publicFromPrivate priv :=
    if priv = sampleClientPriv then sampleClientPub
    else if priv = sampleServerPriv then sampleServerPub
    else Block.zero 32
  sharedSecret priv peerPub :=
    if priv = sampleClientPriv ∧ peerPub = sampleServerPub ∨
        priv = sampleServerPriv ∧ peerPub = sampleClientPub then sampleShared
    else Block.zero 32
  sha256 b :=
    if b = sampleServerPub.1 then sampleFingerprint
    else if b = keyMaterial sampleShared.1 [0x6b] then sampleClientKey
    else if b = keyMaterial sampleShared.1 [] then sampleServerKey
    else Block.zero 32

/-- The client has pinned the server and uses a pre-shared key that the server does not. -/
def sampleParties : Parties where
  cr := sampleCrypto
  clientPriv := some sampleClientPriv
  serverPriv := some sampleServerPriv
  version := Protocol.kCurrentProtocolVersion
  clientOpts := some ⟨[0x6b], some sampleFingerprint⟩
  serverOpts := none
  clientOut := ⟨[]⟩
  serverOut := ⟨[]⟩
  serverVersion := 0

theorem sampleCrypto_commutes : sampleCrypto.Commutes := by
  have hclient : ∀ x, sampleCrypto.publicFromPrivate x = sampleClientPub ↔ x = sampleClientPriv := by
    intro x
    simp only [sampleCrypto]
    split_ifs with h h'
    · exact iff_of_true rfl h
    · exact iff_of_false (by decide) h
    · exact iff_of_false (by decide) h
  have hserver : ∀ x, sampleCrypto.publicFromPrivate x = sampleServerPub ↔ x = sampleServerPriv := by
    intro x
    simp only [sampleCrypto]
    split_ifs with h h'
    · subst h
      exact iff_of_false (by decide) (by decide)
    · exact iff_of_true rfl h'
    · exact iff_of_false (by decide) h'
  intro x y
  have hcomm (x y : Block 32) : sampleCrypto.sharedSecret x (sampleCrypto.publicFromPrivate y) =
      if x = sampleClientPriv ∧ y = sampleServerPriv ∨ x = sampleServerPriv ∧ y = sampleClientPriv
      then sampleShared else Block.zero 32 := by
    apply if_congr _ rfl rfl
    rw [hclient, hserver]
  rw [hcomm, hcomm]
  exact if_congr (by tauto) rfl rfl

theorem sampleParties_separates : sampleParties.HashSeparates := by
  intro a b ha hb
  obtain rfl := Option.some.inj ha
  obtain rfl := Option.some.inj hb
  show Set.InjOn sampleCrypto.sha256
    {keyMaterial sampleShared.1 [0x6b], keyMaterial sampleShared.1 []}
  intro x hx y hy hxy
  rcases hx with rfl | rfl <;> rcases hy with rfl | rfl
  · rfl
  · exact absurd hxy (by decide)
  · exact absurd hxy (by decide)
  · rfl

theorem psk_on_one_side :
    ∃ s session session', sampleParties.Reachable s ∧ ClientReturned s .success session ∧
      ServerReturned s .success session' ∧ session.key ≠ session'.key ∧
      s.left.consumed.length = 38 ∧ s.right.consumed.length = 38 := by
  obtain ⟨s, session, session', hs, hclient, hserver⟩ :=
    exists_both_succeed (P := sampleParties) rfl rfl rfl (by decide) rfl
  obtain ⟨hleft, hright, hkey, -⟩ :=
    handshake_agreement sampleParties sampleCrypto_commutes sampleParties_separates s hs
  refine ⟨s, session, session', hs, hclient, hserver, ?_, (hleft _ hclient).1, (hright _ hserver).1⟩
  rw [ne_eq, hkey _ _ hclient hserver]
  decide

end TcpDuplex
