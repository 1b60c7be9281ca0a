import TcpDuplex.Agreement
import TcpDuplex.Config
import TcpDuplex.Descriptors

/-!
# From a socket to a connection (`dial.cpp`, and the rest of `config.cpp`)

`dial_for` connects and `serve_conn_for` gets an accepted socket; both run the handshake under a deadline,
take the deadline away again, and make a `Conn` of the socket and the session, or close the socket.

`dialFor_spec` and `serveConnFor_spec` say what is left of it in either case: an error code and no
descriptor, or success and one descriptor without a deadline, whose session comes from a handshake
that used the configured secrets.
-/

namespace TcpDuplex.Dial

open StreamProg

/-! ## Configuration -/

/-- `HandshakeAuth`. -/
structure HandshakeAuth where
  preSharedKey : Bytes := []
  expectedPeerPubkeySha256 : Option (Block 32) := none

/-- `Config`, with the fields that are read before a `Conn` exists. The timeouts are in milliseconds. -/
structure Config extends TcpDuplex.Config where
  dialTimeout : ℤ
  handshakeTimeout : ℤ
  protocolVersion : UInt16
  handshake : HandshakeAuth

/-- `default_config()`. -/
def defaultConfig : Config where
  toConfig := TcpDuplex.defaultConfig
  dialTimeout := 30000
  handshakeTimeout := 15000
  protocolVersion := Protocol.kCurrentProtocolVersion
  handshake := {}

/-- `FrozenConfig`: there are a dial and a handshake timeout, and a version. -/
structure FrozenConfig extends TcpDuplex.FrozenConfig where
  dialTimeout : ℤ
  handshakeTimeout : ℤ
  protocolVersion : UInt16
  handshake : HandshakeAuth
  dialTimeout_pos : 0 < dialTimeout
  handshakeTimeout_pos : 0 < handshakeTimeout
  protocolVersion_ne : protocolVersion ≠ 0

/-- `freeze_config(cfg)`; a null pointer means the defaults. -/
def freezeConfig (cfg : Option Config) : FrozenConfig :=
  let d := defaultConfig
  let src := cfg.getD d
  { toFrozenConfig := TcpDuplex.freezeConfig (some src.toConfig)
    dialTimeout := if src.dialTimeout ≤ 0 then d.dialTimeout else src.dialTimeout
    handshakeTimeout := if src.handshakeTimeout ≤ 0 then d.handshakeTimeout else src.handshakeTimeout
    protocolVersion := if src.protocolVersion = 0 then d.protocolVersion else src.protocolVersion
    handshake := src.handshake
    dialTimeout_pos := by
      split
      · decide
      · omega
    handshakeTimeout_pos := by
      split
      · decide
      · omega
    protocolVersion_ne := by
      split
      · decide
      · assumption }

/-- `handshake_opts`. -/
def handshakeOpts (f : FrozenConfig) : HandshakeOpts where
  preSharedKey := f.handshake.preSharedKey
  expectedPeerPubkeySha256 := f.handshake.expectedPeerPubkeySha256

/-- `opts_ptr`: a null pointer when there is nothing to say. -/
def optsPtr (hops : HandshakeOpts) : Option HandshakeOpts :=
  if hops.preSharedKey.isEmpty && hops.expectedPeerPubkeySha256.isNone then none else some hops

/-! ## The two functions -/

/-- What the system and the peers do. -/
structure Net where
  getaddrinfo : Bytes → Bytes → Option (List AddrInfo)
  /-- The stream behind a descriptor. -/
  stream : ℕ → Kernel Int32

/-- A `Conn` as it is made. -/
structure Conn where
  sock : ℕ
  sess : Session
  cfg : FrozenConfig

/-- What both functions do with a socket: the handshake under its deadline, and a `Conn` or the socket
closed. The destructor of the `unique_ptr` closes once more. -/
def establish (fc : FrozenConfig) (net : Net) (handshake : Option HandshakeOpts → Session →
    StreamProg Int32 (ErrorCode × Session)) (fd : ℕ) (s : Sys) : (ErrorCode × Option Conn) × Sys :=
  let s := if 0 < fc.handshakeTimeout then TcpSocket.setDeadline s (some fd) fc.handshakeTimeout else s
  let done := ((handshake (optsPtr (handshakeOpts fc)) ⟨[]⟩).run (net.stream fd)).1
  let s := TcpSocket.clearDeadline (s.handshake fd) (some fd)
  if done.1.failed then
    let closed := TcpSocket.close s (some fd)
    ((done.1, none), (TcpSocket.close closed.1 closed.2).1)
  else ((.success, some ⟨fd, done.2, fc⟩), s)

/-- `dial_for`. -/
def dialFor (cr : Crypto) (priv : Option (Block 32)) (net : Net) (address : Bytes) (cfg : Option Config)
    (s : Sys) : (ErrorCode × Option Conn) × Sys :=
  let fc := freezeConfig cfg
  if Protocol.supportsVersion fc.protocolVersion then
    match TcpSocket.connect net.getaddrinfo address fc.dialTimeout s with
    | ((ec, none), s) => ((ec, none), s)
    | ((_, some fd), s) => establish fc net (clientHandshake cr priv fc.protocolVersion) fd s
  else ((Errc.unsupportedProtocol.code, none), s)

/-- `serve_conn_for`. The version that was agreed on is not used. -/
def serveConnFor (cr : Crypto) (priv : Option (Block 32)) (net : Net) (sock : Option ℕ)
    (cfg : Option Config) (s : Sys) : (ErrorCode × Option Conn) × Sys :=
  match sock with
  | none => ((Errc.other.code, none), s)
  | some fd =>
    establish (freezeConfig cfg) net
      (fun opts sess => (serverHandshake cr priv opts sess 0).bind fun r => .ret (r.1, r.2.1)) fd s

/-! ## What is left behind -/

variable {cr : Crypto} {priv : Option (Block 32)} {net : Net} {s : Sys} {fd : ℕ} {hops : HandshakeOpts}

/-- The shortcut with the null pointer changes nothing. -/
theorem psk_optsPtr (hops : HandshakeOpts) : psk (optsPtr hops) = hops.preSharedKey := by
  unfold optsPtr
  split
  · rename_i h
    have hempty : hops.preSharedKey.isEmpty = true := (Bool.and_eq_true_iff.mp h).1
    rw [List.isEmpty_iff.mp hempty]
    rfl
  · rfl

theorem pinned_optsPtr (hops : HandshakeOpts) : pinned (optsPtr hops) = hops.expectedPeerPubkeySha256 := by
  unfold optsPtr
  split
  · rename_i h
    rw [Option.isNone_iff_eq_none.mp (Bool.and_eq_true_iff.mp h).2]
    rfl
  · rfl

theorem established_optsPtr {c o : Bytes} {session : Session}
    (h : Established cr priv (optsPtr hops) c o session) :
    Established cr priv (some hops) c o session := by
  obtain ⟨a, peerPub, hpriv, hc, ho, hkey, hpin⟩ := h
  refine ⟨a, peerPub, hpriv, hc, ho, ?_, ?_⟩
  · rw [hkey, psk_optsPtr]
    rfl
  · intro fp hfp
    apply hpin
    rw [pinned_optsPtr]
    exact hfp

/-- A handshake procedure: it succeeds with a session that was established, or says that it failed. -/
def Handshakes (cr : Crypto) (priv : Option (Block 32)) (handshake : Option HandshakeOpts → Session →
    StreamProg Int32 (ErrorCode × Session)) : Prop :=
  ∀ opts out c o ec session, Reaches posix (handshake opts out) c o (.ret (ec, session)) →
    ec = .success ∧ Established cr priv opts c o session ∨ ec.failed = true

theorem handshakes_client (cr : Crypto) (priv : Option (Block 32)) (v : UInt16) :
    Handshakes cr priv (clientHandshake cr priv v) := by
  intro opts out c o ec session h
  have hspec := reaches_clientHandshake h
  rcases hspec.unchanged ec session rfl with rfl | hfailed
  · exact .inl ⟨rfl, hspec.established session rfl⟩
  · exact .inr hfailed.1

theorem handshakes_server (cr : Crypto) (priv : Option (Block 32)) : Handshakes cr priv fun opts sess =>
    (serverHandshake cr priv opts sess 0).bind fun r => .ret (r.1, r.2.1) := by
  intro opts out c o ec session h
  obtain ⟨⟨ec', session', ver⟩, c₁, c₂, o₁, o₂, hserver, hret, rfl, rfl⟩ := h.of_bind_ret
  obtain ⟨rfl, rfl, hsame⟩ := hret.of_ret
  cases hsame
  have hspec := reaches_serverHandshake hserver
  rw [List.append_nil, List.append_nil]
  rcases hspec.unchanged ec' session' ⟨ver, rfl⟩ with rfl | hfailed
  · exact .inl ⟨rfl, hspec.established session' ⟨ver, rfl⟩⟩
  · exact .inr hfailed.1

/-- The session was established over the stream behind the descriptor, with the secrets of the
configuration. -/
def Authentic (cr : Crypto) (priv : Option (Block 32)) (net : Net) (conn : Conn) : Prop :=
  ∃ c o rest, (net.stream conn.sock).input = c ++ rest ∧
    Established cr priv (some (handshakeOpts conn.cfg)) c o conn.sess

/-- An open descriptor goes into `establish`; it comes out in a `Conn` and without a deadline, or closed.
The handshake ran under the deadline of the configuration. -/
theorem establish_spec (fc : FrozenConfig)
    {handshake : Option HandshakeOpts → Session → StreamProg Int32 (ErrorCode × Session)}
    (hhand : Handshakes cr priv handshake) (hobeys : (net.stream fd).Obeys posix) {tv : Timeval}
    (hopen : s.fds fd = some tv) :
    (establish fc net handshake fd s).2.misused = s.misused ∧
      (establish fc net handshake fd s).2.ran =
        s.ran ++ [(fd, some (Timeval.ofMillis fc.handshakeTimeout))] ∧
      ((∃ ec, (establish fc net handshake fd s).1 = (ec, none) ∧ ec.failed = true ∧
          (establish fc net handshake fd s).2.fds = Function.update s.fds fd none) ∨
        ∃ conn, (establish fc net handshake fd s).1 = (.success, some conn) ∧ conn.sock = fd ∧
          conn.cfg = fc ∧ Authentic cr priv net conn ∧
          (establish fc net handshake fd s).2.fds = Function.update s.fds fd (some {})) := by
  have hclear : Timeval.ofMillis 0 = {} := rfl
  obtain ⟨c, o, hreach, hin, -⟩ := reaches_run (handshake (optsPtr (handshakeOpts fc)) ⟨[]⟩) hobeys
  have hdone := hhand _ _ _ _ _ _ hreach
  simp only [establish, if_pos fc.handshakeTimeout_pos, TcpSocket.setDeadline, TcpSocket.clearDeadline,
    Sys.setTimeout, Sys.handshake, hopen, Option.isSome_some, if_true, Function.update_self,
    Function.update_idem, hclear]
  rcases hdone with ⟨hok, hest⟩ | hfailed
  · rw [hok]
    refine ⟨rfl, rfl, .inr ⟨_, rfl, rfl, rfl, ?_, rfl⟩⟩
    exact ⟨c, o, _, hin, established_optsPtr hest⟩
  · rw [if_pos hfailed]
    refine ⟨?_, ?_, .inl ⟨_, rfl, hfailed, ?_⟩⟩
    · simp [TcpSocket.close, Sys.close]
    · simp [TcpSocket.close, Sys.close]
    · simp [TcpSocket.close, Sys.close]

/-- `dial_for` returns an error and leaves the descriptors as they were, or success and a connection over
one descriptor more: that of the first address that could be connected, without a deadline, with a session
from the configured secrets. No descriptor is closed twice; a handshake runs once at most, and under the
handshake's deadline, which is there whatever the configuration says; and an unsupported version fails before
a socket is opened. -/
theorem dialFor_spec (cr : Crypto) (priv : Option (Block 32)) (net : Net) (address : Bytes)
    (cfg : Option Config) (s : Sys)
    (hfresh : ∀ host port res, net.getaddrinfo host port = some res → Fresh s res)
    (hobeys : ∀ fd, (net.stream fd).Obeys posix) :
    let r := dialFor cr priv net address cfg s
    let deadline := Timeval.ofMillis (freezeConfig cfg).handshakeTimeout
    r.2.misused = s.misused ∧ deadline ≠ {} ∧
      (r.2.ran = s.ran ∨ ∃ fd, s.fds fd = none ∧ r.2.ran = s.ran ++ [(fd, some deadline)]) ∧
      (Protocol.supportsVersion (freezeConfig cfg).protocolVersion = false →
        r = ((Errc.unsupportedProtocol.code, none), s)) ∧
      ((∃ ec, r.1 = (ec, none) ∧ ec.failed = true ∧ r.2.fds = s.fds) ∨
        ∃ conn host port res, r.1 = (.success, some conn) ∧
          Address.parseHostPort address = some (host, port) ∧ net.getaddrinfo host port = some res ∧
          FirstReady res conn.sock ∧ s.fds conn.sock = none ∧
          r.2.fds = Function.update s.fds conn.sock (some {}) ∧
          conn.cfg = freezeConfig cfg ∧ Authentic cr priv net conn) := by
  intro r deadline
  have hdeadline : deadline ≠ {} :=
    (Timeval.ofMillis_exact (freezeConfig cfg).handshakeTimeout_pos).2.2.2.2
  cases hversion : Protocol.supportsVersion (freezeConfig cfg).protocolVersion with
  | false =>
    have hr : r = ((Errc.unsupportedProtocol.code, none), s) := by
      simp only [r, dialFor, hversion]
      rfl
    rw [hr]
    exact ⟨rfl, hdeadline, .inl rfl, fun _ => rfl, .inl ⟨_, rfl, rfl, rfl⟩⟩
  | true =>
    rcases connect_spec address (freezeConfig cfg).dialTimeout hfresh with
      ⟨ec, hconn, hec⟩ | ⟨fd, host, port, res, hconn, hparse, hres, hfree, hfirst⟩
    · have hr : r = ((ec, none), s) := by
        simp only [r, dialFor, hversion, if_true, hconn]
      have hfailed : ec.failed = true := by
        rcases hec with ⟨rfl, -⟩ | ⟨rfl, -⟩ <;> rfl
      rw [hr]
      exact ⟨rfl, hdeadline, .inl rfl, nofun, .inl ⟨ec, rfl, hfailed, rfl⟩⟩
    · have hr : r = establish (freezeConfig cfg) net
          (clientHandshake cr priv (freezeConfig cfg).protocolVersion) fd
          { s with fds := Function.update s.fds fd (some {}) } := by
        simp only [r, dialFor, hversion, if_true, hconn]
      obtain ⟨hmis, hran, hresult⟩ := establish_spec (freezeConfig cfg)
        (s := { s with fds := Function.update s.fds fd (some {}) })
        (handshakes_client cr priv (freezeConfig cfg).protocolVersion) (hobeys fd)
        (Function.update_self fd (some {}) s.fds)
      rw [← hr] at hmis hran hresult
      refine ⟨hmis, hdeadline, .inr ⟨fd, hfree, hran⟩, nofun, ?_⟩
      rcases hresult with ⟨ec, hret, hfailed, hfds⟩ | ⟨conn, hret, hsock, hcfg, hauth, hfds⟩
      · refine .inl ⟨ec, hret, hfailed, ?_⟩
        rw [hfds]
        show Function.update (Function.update s.fds fd (some {})) fd none = s.fds
        rw [Function.update_idem]
        exact Function.update_eq_self_iff.mpr hfree.symm
      · subst hsock
        refine .inr ⟨conn, host, port, res, hret, hparse, hres, hfirst, hfree, ?_, hcfg, hauth⟩
        rw [hfds]
        exact Function.update_idem _ _ _

/-- Two addresses for the host: the first one refuses, and behind the second one there is a server. -/
def sampleNet : Net where
  getaddrinfo _ _ := some [⟨none, false⟩, ⟨some 3, false⟩, ⟨some 4, true⟩]
  stream _ := ByteStream.byteByByte (ownHeader sampleCrypto (some sampleServerPriv))

theorem run_clientHandshake {k : Kernel Int32} (hk : k.Flowing) {a b : Block 32}
    (hin : k.input = ownHeader cr (some b)) {opts : Option HandshakeOpts} {out : Session}
    (hpin : fingerprintOk cr opts (cr.publicFromPrivate b).1 = true) :
    ((clientHandshake cr (some a) Protocol.kCurrentProtocolVersion opts out).run k).1 =
      (.success, ⟨deriveSessionKey cr (cr.sharedSecret a (cr.publicFromPrivate b)).1 (psk opts)⟩) := by
  have hkey := (cr.publicFromPrivate b).2
  obtain ⟨hret, hleft, -, hflow⟩ :=
    ByteStream.run_writeHandshake hk supportsVersion_current (cr.publicFromPrivate a).2
  have hhead := hleft.trans (hin.trans (List.append_nil _).symm)
  obtain ⟨hret₁, -, -, -⟩ := ByteStream.run_readHandshake hflow supportsVersion_current hkey hhead 0 []
  rw [clientHandshake, run_bind, hret, if_neg (by simp), run_bind, hret₁]
  dsimp only
  rw [if_neg (by simp), dif_pos ⟨rfl, hkey⟩, if_pos hpin, run_ret]
  rfl

theorem establish_of_success {fc : FrozenConfig} {sess : Session}
    {handshake : Option HandshakeOpts → Session → StreamProg Int32 (ErrorCode × Session)}
    (h : ((handshake (optsPtr (handshakeOpts fc)) ⟨[]⟩).run (net.stream fd)).1 = (.success, sess)) :
    (establish fc net handshake fd s).1 = (.success, some ⟨fd, sess, fc⟩) := by
  simp only [establish, h]
  rfl

/-- `dial("s:1")`. -/
def sampleDial : (ErrorCode × Option Conn) × Sys :=
  dialFor sampleCrypto (some sampleClientPriv) sampleNet (['s', ':', '1'].map Char.toUInt8) none
    { fds := fun _ => none }

theorem sampleDial_connects : ∃ conn, sampleDial.1 = (.success, some conn) ∧ conn.sock = 4 ∧
    sampleDial.2.misused = false ∧ sampleDial.2.fds 3 = none ∧ sampleDial.2.fds 4 = some {} := by
  have hobeys : ∀ fd, (sampleNet.stream fd).Obeys posix :=
    fun _ => Flowing.obeys (ByteStream.flowing_byteByByte _)
  have hret : sampleDial.1 = (.success, some ⟨4, ⟨_⟩, freezeConfig none⟩) :=
    establish_of_success (run_clientHandshake (ByteStream.flowing_byteByByte _) rfl rfl)
  obtain ⟨hmis, -, -, -, hresult⟩ := dialFor_spec sampleCrypto (some sampleClientPriv) sampleNet
    (['s', ':', '1'].map Char.toUInt8) none { fds := fun _ => none } (fun _ _ _ _ _ _ _ _ => rfl) hobeys
  refine ⟨_, hret, rfl, hmis, ?_⟩
  rcases hresult with ⟨ec, hfail, -⟩ | ⟨conn, -, -, -, hconn, -, -, -, -, hfds, -⟩
  · exact absurd (congrArg Prod.snd (hret.symm.trans hfail)) nofun
  · obtain rfl := Option.some.inj (congrArg Prod.snd (hconn.symm.trans hret))
    refine ⟨(congrFun hfds 3).trans ?_, (congrFun hfds 4).trans ?_⟩
    · rw [Function.update_of_ne (by decide)]
    · rw [Function.update_self]

/-- `serve_conn_for` gets a socket and returns it in a connection without a deadline, or closes it: nobody
else has to. Its handshake runs under the deadline of the configuration, which is there whatever the
configuration says. -/
theorem serveConnFor_spec (cr : Crypto) (priv : Option (Block 32)) (net : Net) (fd : ℕ)
    (cfg : Option Config) (s : Sys) (hopen : (s.fds fd).isSome = true)
    (hobeys : (net.stream fd).Obeys posix) :
    let r := serveConnFor cr priv net (some fd) cfg s
    let deadline := Timeval.ofMillis (freezeConfig cfg).handshakeTimeout
    r.2.misused = s.misused ∧ deadline ≠ {} ∧ r.2.ran = s.ran ++ [(fd, some deadline)] ∧
      ((∃ ec, r.1 = (ec, none) ∧ ec.failed = true ∧ r.2.fds = Function.update s.fds fd none) ∨
        ∃ conn, r.1 = (.success, some conn) ∧ conn.sock = fd ∧
          r.2.fds = Function.update s.fds fd (some {}) ∧ conn.cfg = freezeConfig cfg ∧
          Authentic cr priv net conn) := by
  intro r deadline
  obtain ⟨tv, htv⟩ := Option.isSome_iff_exists.mp hopen
  have hdeadline : deadline ≠ {} :=
    (Timeval.ofMillis_exact (freezeConfig cfg).handshakeTimeout_pos).2.2.2.2
  obtain ⟨hmis, hran, hresult⟩ :=
    establish_spec (freezeConfig cfg) (handshakes_server cr priv) hobeys htv
  refine ⟨hmis, hdeadline, hran, ?_⟩
  rcases hresult with hfail | ⟨conn, hret, hsock, hcfg, hauth, hfds⟩
  · exact .inl hfail
  · exact .inr ⟨conn, hret, hsock, hfds, hcfg, hauth⟩

/-- A client that speaks version 2 of the protocol. -/
def laterClient : Net where
  getaddrinfo _ _ := none
  stream _ := ByteStream.byteByByte (Protocol.handshakeBytes 2 sampleClientPub.1)

theorem laterClient_not_leaked :
    let r := serveConnFor sampleCrypto (some sampleServerPriv) laterClient (some 7) none
      { fds := fun fd => if fd = 7 then some {} else none }
    r.2.ran = [(7, some ⟨15, 0⟩)] ∧ r.2.misused = false ∧ (r.2.fds 7).isSome = r.1.2.isSome := by
  intro r
  obtain ⟨hmis, -, hran, hresult⟩ :=
    serveConnFor_spec sampleCrypto (some sampleServerPriv) laterClient 7 none
    { fds := fun fd => if fd = 7 then some {} else none } rfl
    (Flowing.obeys (ByteStream.flowing_byteByByte _))
  refine ⟨hran, hmis, ?_⟩
  rcases hresult with ⟨ec, hret, -, hfds⟩ | ⟨conn, hret, -, hfds, -⟩
  · rw [congrArg Prod.snd hret, congrFun hfds 7, Function.update_self]
    rfl
  · rw [congrArg Prod.snd hret, congrFun hfds 7, Function.update_self]
    rfl

end TcpDuplex.Dial
