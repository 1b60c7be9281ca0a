import TcpDuplex.Lib.Bytes
import TcpDuplex.Lib.Search

/-!
# Addresses (`parse_host_port` and `sockaddr_to_string` of `socket.cpp`)

An address is a host and a port with a colon between them. A host in brackets may hold any character but
the closing bracket. Without brackets the last colon counts, so that the host may hold colons and the port
may not, and an empty host stands for `0.0.0.0`. `HostPort` is the grammar; `parseHostPort_decides` says that
`parse_host_port` is a parser for it, and `parseHostPort_sockaddrToString` when it reads back what
`sockaddr_to_string` has printed.
-/

namespace TcpDuplex.Address

def openBracket : UInt8 := '['.toUInt8
def closeBracket : UInt8 := ']'.toUInt8
def colon : UInt8 := ':'.toUInt8

/-- `"0.0.0.0"`. -/
def anyHost : Bytes := ['0', '.', '0', '.', '0', '.', '0'].map Char.toUInt8

/-- `parse_host_port`: the host and the port, if it returns `true`. -/
def parseHostPort (address : Bytes) : Option (Bytes × Bytes) :=
  if address = [] then none
  else if address[0]? = some openBracket then
    match address.findIdx? (· == closeBracket) with
    | none => none
    | some stop =>
      if stop + 1 ≥ address.length ∨ address[stop + 1]? ≠ some colon then none
      else
        let host := (address.drop 1).take (stop - 1)
        let port := address.drop (stop + 2)
        if !host.isEmpty && !port.isEmpty then some (host, port) else none
  else
    match findLast (· == colon) address with
    | none => none
    | some pos =>
      let host := address.take pos
      let port := address.drop (pos + 1)
      let host := if host.isEmpty then anyHost else host
      if !port.isEmpty then some (host, port) else none

/-- The address stands for this host and this port. -/
inductive HostPort : Bytes → Bytes → Bytes → Prop
  | bracketed {host port : Bytes} (hhost : host ≠ []) (hclose : closeBracket ∉ host) (hport : port ≠ []) :
      HostPort (openBracket :: host ++ closeBracket :: colon :: port) host port
  | plain {host port : Bytes} (hhost : host ≠ []) (hopen : host[0]? ≠ some openBracket) (hport : port ≠ [])
      (hcolon : colon ∉ port) : HostPort (host ++ colon :: port) host port
  | anyHost {port : Bytes} (hport : port ≠ []) (hcolon : colon ∉ port) :
      HostPort (colon :: port) anyHost port

variable {address host port : Bytes}

theorem forall_beq_false {c : UInt8} {l : Bytes} (h : c ∉ l) : ∀ y ∈ l, (y == c) = false := by
  intro y hy
  rw [beq_eq_false_iff_ne]
  rintro rfl
  exact h hy

theorem not_mem_of_beq_false {c : UInt8} {l : Bytes} (h : ∀ y ∈ l, (y == c) = false) : c ∉ l := by
  intro hc
  have := h c hc
  simp at this

/-! ## Behind a bracket -/

theorem parseHostPort_bracketed (hhost : host ≠ []) (hclose : closeBracket ∉ host) (hport : port ≠ []) :
    parseHostPort (openBracket :: host ++ closeBracket :: colon :: port) = some (host, port) := by
  have hno : ∀ y ∈ openBracket :: host, (y == closeBracket) = false := by
    refine forall_beq_false ?_
    rw [List.mem_cons, not_or]
    exact ⟨by decide, hclose⟩
  have hfind : (openBracket :: host ++ closeBracket :: colon :: port).findIdx? (· == closeBracket) =
      some (host.length + 1) := findIdx?_split hno (beq_self_eq_true _)
  have hlen : (openBracket :: host ++ closeBracket :: colon :: port).length =
      host.length + port.length + 3 := by
    simp only [List.length_append, List.length_cons]
    omega
  have hat : (openBracket :: host ++ closeBracket :: colon :: port)[host.length + 1 + 1]? = some colon := by
    rw [List.getElem?_append_right (by simp)]
    simp
  have hleft : ((openBracket :: host ++ closeBracket :: colon :: port).drop 1).take (host.length + 1 - 1) =
      host := by simp
  have hright : (openBracket :: host ++ closeBracket :: colon :: port).drop (host.length + 1 + 2) = port := by
    rw [List.drop_append]
    simp
  rw [parseHostPort, if_neg (by simp), if_pos (by simp), hfind]
  simp only [hat, hlen, hleft, hright]
  rw [if_neg (not_or.mpr ⟨by omega, not_not.mpr rfl⟩), if_pos (by simp [hhost, hport])]

theorem hostPort_of_bracket (hopen : address[0]? = some openBracket)
    (h : parseHostPort address = some (host, port)) : HostPort address host port := by
  unfold parseHostPort at h
  rw [if_neg (by rintro rfl; cases hopen), if_pos hopen] at h
  split at h
  · cases h
  · rename_i stop hstop
    obtain ⟨a, x, b, rfl, hx, ha, rfl⟩ := exists_of_findIdx? hstop
    obtain rfl : x = closeBracket := by simpa using hx
    split at h
    · cases h
    · rename_i hnot
      simp only [not_or, not_le, not_not] at hnot
      -- the bracket at the front is not the closing one
      obtain ⟨c, a, rfl⟩ : ∃ c a', a = c :: a' := by
        cases a with
        | nil =>
            have hsame : closeBracket = openBracket := Option.some.inj hopen
            exact absurd hsame (by decide)
        | cons c a' => exact ⟨c, a', rfl⟩
      obtain rfl : c = openBracket := by simpa using hopen
      obtain ⟨port', rfl⟩ : ∃ port', b = colon :: port' := by
        cases b with
        | nil => simp at hnot
        | cons d b' =>
            have hd := hnot.2
            rw [List.getElem?_append_right (by simp)] at hd
            exact ⟨b', by rw [show d = colon by simpa using hd]⟩
      have hleft : ((openBracket :: a ++ closeBracket :: colon :: port').drop 1).take
          ((openBracket :: a).length - 1) = a := by simp
      have hright : (openBracket :: a ++ closeBracket :: colon :: port').drop
          ((openBracket :: a).length + 2) = port' := by
        rw [List.drop_append]
        simp
      simp only [hleft, hright] at h
      split at h
      · rename_i hboth
        obtain ⟨rfl, rfl⟩ : a = host ∧ port' = port := by simpa using h
        simp only [Bool.and_eq_true, Bool.not_eq_true', List.isEmpty_eq_false_iff] at hboth
        refine .bracketed hboth.1 ?_ hboth.2
        exact fun hmem => not_mem_of_beq_false ha (List.mem_cons_of_mem _ hmem)
      · cases h

/-! ## Before the last colon -/

theorem parseHostPort_plain (hopen : (host ++ colon :: port)[0]? ≠ some openBracket) (hport : port ≠ [])
    (hcolon : colon ∉ port) :
    parseHostPort (host ++ colon :: port) = some (if host.isEmpty then anyHost else host, port) := by
  have hfind : findLast (· == colon) (host ++ colon :: port) = some host.length :=
    findLast_append (beq_self_eq_true _) (forall_beq_false hcolon)
  have hright : (host ++ colon :: port).drop (host.length + 1) = port := by
    rw [List.drop_append]
    simp
  rw [parseHostPort, if_neg (by simp), if_neg hopen, hfind]
  simp only [List.take_left, hright]
  rw [if_pos (by simp [hport])]

theorem hostPort_of_no_bracket (hopen : address[0]? ≠ some openBracket)
    (h : parseHostPort address = some (host, port)) : HostPort address host port := by
  unfold parseHostPort at h
  rw [if_neg hopen] at h
  split at h
  · cases h
  · split at h
    · cases h
    · rename_i pos hpos
      obtain ⟨a, x, b, rfl, hx, hb, rfl⟩ := exists_of_findLast hpos
      obtain rfl : x = colon := by simpa using hx
      have hright : (a ++ colon :: b).drop (a.length + 1) = b := by
        rw [List.drop_append]
        simp
      simp only [List.take_left, hright] at h
      split at h
      · rename_i hport
        obtain ⟨hhost, rfl⟩ : (if a.isEmpty then anyHost else a) = host ∧ b = port := by
          simpa using h
        have hport' : b ≠ [] := by simpa using hport
        have hcolon := not_mem_of_beq_false hb
        by_cases ha : a = []
        · subst ha
          obtain rfl : anyHost = host := by simpa using hhost
          exact .anyHost hport' hcolon
        · obtain rfl : a = host := by simpa [ha] using hhost
          refine .plain ha (fun hbad => hopen ?_) hport' hcolon
          rwa [List.getElem?_append_left (List.length_pos_of_ne_nil ha)]
      · cases h

theorem parseHostPort_iff_hostPort (address host port : Bytes) :
    parseHostPort address = some (host, port) ↔ HostPort address host port := by
  constructor
  · intro h
    by_cases hopen : address[0]? = some openBracket
    · exact hostPort_of_bracket hopen h
    · exact hostPort_of_no_bracket hopen h
  · rintro (⟨hhost, hclose, hport⟩ | ⟨hhost, hopen, hport, hcolon⟩ | ⟨hport, hcolon⟩)
    · exact parseHostPort_bracketed hhost hclose hport
    · rw [parseHostPort_plain ?_ hport hcolon]
      · simp [hhost]
      · rwa [List.getElem?_append_left (List.length_pos_of_ne_nil hhost)]
    · have hopen : (([] : Bytes) ++ colon :: port)[0]? ≠ some openBracket := by
        intro hbad
        have hsame : colon = openBracket := Option.some.inj hbad
        exact absurd hsame (by decide)
      exact parseHostPort_plain hopen hport hcolon

/-- `parse_host_port` accepts exactly the addresses of the grammar and splits each as the grammar does, so
no address of the grammar stands for two hosts or for two ports. -/
theorem parseHostPort_decides (address : Bytes) :
    (parseHostPort address = none ↔ ∀ host port, ¬HostPort address host port) ∧
      (∀ host port, parseHostPort address = some (host, port) ↔ HostPort address host port) ∧
      ∀ host port host' port', HostPort address host port → HostPort address host' port' →
        host = host' ∧ port = port' := by
  refine ⟨⟨fun hnone host port h => ?_, fun hno => ?_⟩, parseHostPort_iff_hostPort address, ?_⟩
  · rw [← parseHostPort_iff_hostPort, hnone] at h
    cases h
  · by_contra hsome
    obtain ⟨⟨host, port⟩, hparse⟩ := Option.ne_none_iff_exists'.mp hsome
    exact hno host port ((parseHostPort_iff_hostPort ..).mp hparse)
  · intro host port host' port' h h'
    rw [← parseHostPort_iff_hostPort] at h h'
    simpa using h.symm.trans h'

/-! ## What is printed is read back -/

/-- `sockaddr_to_string`, with what `getnameinfo` delivered. -/
def sockaddrToString (inet6 : Bool) : Option (Bytes × Bytes) → Bytes
  | none => []
  | some (host, serv) =>
    if inet6 then openBracket :: host ++ closeBracket :: colon :: serv else host ++ colon :: serv

def isDigit (c : UInt8) : Bool := decide ('0'.toUInt8 ≤ c ∧ c ≤ '9'.toUInt8)

/-- What `getnameinfo` delivers with `NI_NUMERICHOST` and `NI_NUMERICSERV`: a port number, and digits and
dots for a host of IPv4. A host of IPv6 may end in a scope, which is the name of an interface. -/
structure Numeric (inet6 : Bool) (host serv : Bytes) : Prop where
  host_ne : host ≠ []
  serv_ne : serv ≠ []
  serv : ∀ c ∈ serv, isDigit c = true
  inet : inet6 = false → ∀ c ∈ host, isDigit c = true ∨ c = '.'.toUInt8

theorem Numeric.hostPort {inet6 : Bool} (h : Numeric inet6 host port)
    (hscope : inet6 = true → closeBracket ∉ host) :
    HostPort (sockaddrToString inet6 (some (host, port))) host port := by
  cases inet6 with
  | true => exact .bracketed h.host_ne (hscope rfl) h.serv_ne
  | false =>
      refine .plain h.host_ne ?_ h.serv_ne ?_
      · intro hopen
        rcases h.inet rfl openBracket (List.mem_of_getElem? hopen) with hdigit | hdot
        · exact absurd hdigit (by decide)
        · exact absurd hdot (by decide)
      · intro hcolon
        exact absurd (h.serv colon hcolon) (by decide)

/-- A host that stands between brackets does not hold the closing one. -/
theorem not_mem_of_hostPort
    (h : HostPort (openBracket :: host ++ closeBracket :: colon :: port) host port) :
    closeBracket ∉ host := by
  generalize haddr : openBracket :: host ++ closeBracket :: colon :: port = address at h
  cases h with
  | bracketed _ hclose _ => exact hclose
  | plain =>
      have hlen := congrArg List.length haddr
      simp only [List.length_append, List.length_cons] at hlen
      omega
  | anyHost =>
      have hfirst : openBracket = colon := (List.cons.inj haddr).1
      exact absurd hfirst (by decide)

/-- What `addr`, `local_addr` and `remote_addr` print is read back as the host and the port it was printed
from, unless it is an address of IPv6 with a closing bracket in its scope; so two other socket addresses
that differ in host or port print differently. When `getnameinfo` failed, the text is refused. -/
theorem parseHostPort_sockaddrToString (inet6 : Bool) (info : Option (Bytes × Bytes))
    (hnum : ∀ host serv, info = some (host, serv) → Numeric inet6 host serv) :
    parseHostPort (sockaddrToString inet6 info) = info ↔
      ∀ host serv, info = some (host, serv) → inet6 = true → closeBracket ∉ host := by
  match info with
  | none => exact ⟨fun _ => nofun, fun _ => rfl⟩
  | some (host, serv) =>
      constructor
      · rintro hread host' serv' ⟨rfl, rfl⟩ rfl
        exact not_mem_of_hostPort ((parseHostPort_iff_hostPort ..).mp hread)
      · intro hscope
        exact (parseHostPort_iff_hostPort ..).mpr
          ((hnum host serv rfl).hostPort (hscope host serv rfl))

/-- `[fe80::1%eth0]:7000`. -/
def linkLocal : Bytes × Bytes :=
  (['f', 'e', '8', '0', ':', ':', '1', '%', 'e', 't', 'h', '0'].map Char.toUInt8,
    ['7', '0', '0', '0'].map Char.toUInt8)

theorem linkLocal_read_back :
    parseHostPort (sockaddrToString true (some linkLocal)) = some linkLocal := by
  refine (parseHostPort_sockaddrToString true (some linkLocal) ?_).mpr ?_
  · intro host serv h
    obtain ⟨rfl, rfl⟩ : linkLocal.1 = host ∧ linkLocal.2 = serv := by
      rw [← Prod.mk.injEq]
      exact Option.some.inj h
    exact ⟨by decide, by decide, List.all_eq_true.mp rfl, fun hinet6 => by cases hinet6⟩
  · intro host serv h _
    obtain ⟨rfl, rfl⟩ : linkLocal.1 = host ∧ linkLocal.2 = serv := by
      rw [← Prod.mk.injEq]
      exact Option.some.inj h
    decide

end TcpDuplex.Address
