import TcpDuplex.Protocol

/-!
# Sealing (`session.hpp`, `session.cpp`)

`Session::seal` turns a plaintext into `nonce ‖ ciphertext ‖ tag` and `Session::open` takes such a
blob apart again. The AES-GCM calls of the vendored mbedTLS are the parameter `Gcm`; `Gcm.Lawful`
names what the code relies on. The nonce comes from `random_bytes`, which may fail.
-/

namespace TcpDuplex

/-- `kNonceSize`. -/
def kNonceSize : ℕ := 12
/-- `kTagSize`. -/
def kTagSize : ℕ := 16

/-- `std::uint8_t nonce[kNonceSize]`. -/
abbrev Nonce := Vector UInt8 kNonceSize

/-- The mbedTLS GCM calls: `mbedtls_gcm_setkey`, `mbedtls_gcm_crypt_and_tag` (ciphertext and tag) and
`mbedtls_gcm_auth_decrypt`. -/
structure Gcm where
  setkey : Bytes → Bool
  cryptAndTag : (key nonce plaintext : Bytes) → Option (Bytes × Bytes)
  authDecrypt : (key nonce ciphertext tag : Bytes) → Option Bytes

/-- What the code relies on: the ciphertext is as long as the plaintext, the tag fills its buffer,
and decryption under the same key and nonce inverts encryption. -/
structure Gcm.Lawful (g : Gcm) : Prop where
  length_ciphertext : ∀ {k n p c t}, g.cryptAndTag k n p = some (c, t) → c.length = p.length
  length_tag : ∀ {k n p c t}, g.cryptAndTag k n p = some (c, t) → t.length = kTagSize
  decrypt_crypt : ∀ {k n p c t}, g.cryptAndTag k n p = some (c, t) →
    g.authDecrypt k n c t = some p

/-- `Session`: the key. -/
structure Session where
  key : Bytes

namespace Session

/-- The size check of `seal`. -/
def plaintextOk (n : ℕ) : Bool :=
  !decide (kNonceSize + kTagSize + n > Protocol.kMaxRecordPayload - 1)

/-- `out.resize(kNonceSize + plaintext.size() + kTagSize)`: the length of a sealed blob. -/
def sealedLength (n : ℕ) : ℕ := kNonceSize + n + kTagSize

/-- `Session::seal`; `nonce` is what `random_bytes` delivered, if it did. -/
def sealPlaintext (g : Gcm) (s : Session) (nonce : Option Nonce) (plaintext : Bytes) :
    Except ErrorCode Bytes :=
  if plaintextOk plaintext.length then
    match nonce with
    | none => .error Errc.ioError.code
    | some nonce =>
      if g.setkey s.key then
        match g.cryptAndTag s.key nonce.toList plaintext with
        | none => .error Errc.other.code
        | some (ciphertext, tag) => .ok (nonce.toList ++ ciphertext ++ tag)
      else .error Errc.other.code
  else .error Errc.badFrame.code

/-- `Session::open`. -/
def openSealed (g : Gcm) (s : Session) (sealed : Bytes) : Except ErrorCode Bytes :=
  if sealed.length < kNonceSize + kTagSize then .error Errc.badFrame.code
  else
    let ctLen := sealed.length - kNonceSize - kTagSize
    let nonce := sealed.take kNonceSize
    let ciphertext := (sealed.drop kNonceSize).take ctLen
    let tag := sealed.drop (kNonceSize + ctLen)
    if g.setkey s.key then
      match g.authDecrypt s.key nonce ciphertext tag with
      | none => .error Errc.badFrame.code
      | some plaintext => .ok plaintext
    else .error Errc.other.code

/-- What a successful `seal` produced, and the checks it passed on the way. -/
theorem sealPlaintext_ok {g : Gcm} {s : Session} {nonce : Option Nonce} {p sealed : Bytes}
    (h : sealPlaintext g s nonce p = .ok sealed) :
    plaintextOk p.length = true ∧ g.setkey s.key = true ∧
      ∃ (n : Nonce) (c t : Bytes), nonce = some n ∧
        g.cryptAndTag s.key n.toList p = some (c, t) ∧ sealed = n.toList ++ c ++ t := by
  unfold sealPlaintext at h
  split at h
  · rename_i hsize
    cases nonce with
    | none => simp at h
    | some n =>
        simp only at h
        split at h
        · rename_i hkey
          cases hc : g.cryptAndTag s.key n.toList p with
          | none => simp [hc] at h
          | some ct =>
              obtain ⟨c, t⟩ := ct
              simp only [hc, Except.ok.injEq] at h
              exact ⟨hsize, hkey, n, c, t, rfl, hc, h.symm⟩
        · simp at h
  · simp at h

/-- A sealed blob has the length the code reserves for it. -/
theorem length_of_sealPlaintext {g : Gcm} (hg : g.Lawful) {s : Session} {nonce : Option Nonce}
    {p sealed : Bytes} (h : sealPlaintext g s nonce p = .ok sealed) :
    sealed.length = sealedLength p.length := by
  obtain ⟨-, -, n, c, t, -, hc, rfl⟩ := sealPlaintext_ok h
  simp only [List.length_append, Vector.length_toList, hg.length_ciphertext hc, hg.length_tag hc,
    sealedLength]

/-- `open` cuts a blob at the two fixed widths: it decrypts exactly the middle part. -/
theorem openSealed_append {g : Gcm} {s : Session} {nonce c t : Bytes}
    (hn : nonce.length = kNonceSize) (ht : t.length = kTagSize) (hkey : g.setkey s.key = true) :
    s.openSealed g (nonce ++ c ++ t) =
      match g.authDecrypt s.key nonce c t with
      | none => .error Errc.badFrame.code
      | some plaintext => .ok plaintext := by
  have hlen : (nonce ++ c ++ t).length = kNonceSize + c.length + kTagSize := by
    rw [List.length_append, List.length_append, hn, ht]
  have hctLen : (nonce ++ c ++ t).length - kNonceSize - kTagSize = c.length := by omega
  have hnonce : (nonce ++ c ++ t).take kNonceSize = nonce := by
    rw [List.append_assoc, List.take_left' hn]
  have hciph : ((nonce ++ c ++ t).drop kNonceSize).take c.length = c := by
    rw [List.append_assoc, List.drop_left' hn, List.take_left]
  have htag : (nonce ++ c ++ t).drop (kNonceSize + c.length) = t :=
    List.drop_left' (by rw [List.length_append, hn])
  rw [openSealed, if_neg (by omega)]
  simp only [hctLen, hnonce, hciph, htag, hkey, if_true]

/-- What `open` has decrypted when it succeeds: the middle part of the whole blob. -/
theorem openSealed_ok {g : Gcm} {s : Session} {sealed p : Bytes}
    (h : s.openSealed g sealed = .ok p) :
    ∃ nonce c t : Bytes, sealed = nonce ++ c ++ t ∧ g.authDecrypt s.key nonce c t = some p := by
  unfold openSealed at h
  split_ifs at h with hshort hkey
  · cases hc : g.authDecrypt s.key (sealed.take kNonceSize)
        ((sealed.drop kNonceSize).take (sealed.length - kNonceSize - kTagSize))
        (sealed.drop (kNonceSize + (sealed.length - kNonceSize - kTagSize))) with
    | none => simp [hc] at h
    | some q =>
        simp only [hc, Except.ok.injEq] at h
        refine ⟨_, _, _, ?_, h ▸ hc⟩
        rw [← List.drop_drop, List.append_assoc, List.take_append_drop, List.take_append_drop]

/-- A blob that does not open under a key that is admitted is a bad frame. -/
theorem openSealed_badFrame {g : Gcm} {s : Session} {sealed : Bytes} (hkey : g.setkey s.key = true)
    (h : ∀ p, s.openSealed g sealed ≠ .ok p) :
    s.openSealed g sealed = .error Errc.badFrame.code := by
  cases hopen : s.openSealed g sealed with
  | ok p => exact absurd hopen (h p)
  | error ec =>
      unfold openSealed at hopen
      split_ifs at hopen
      · rw [Except.error.inj hopen]
      · dsimp only at hopen
        split at hopen
        · rw [Except.error.inj hopen]
        · cases hopen

/-- **`open` inverts `seal`** under the same key. -/
theorem openSealed_of_sealPlaintext {g : Gcm} (hg : g.Lawful) {s : Session}
    {nonce : Option Nonce} {p sealed : Bytes} (h : sealPlaintext g s nonce p = .ok sealed) :
    s.openSealed g sealed = .ok p := by
  obtain ⟨-, hkey, n, c, t, -, hc, rfl⟩ := sealPlaintext_ok h
  rw [openSealed_append (Vector.length_toList) (hg.length_tag hc) hkey, hg.decrypt_crypt hc]

theorem plaintextOk_iff {n : ℕ} : plaintextOk n = true ↔ n ≤ 1048547 := by
  simp [plaintextOk, Protocol.kMaxRecordPayload, kNonceSize, kTagSize]
  omega

/-- A plaintext that `seal` admits fits the record checks behind it. -/
theorem sealedOk_of_plaintextOk {n : ℕ} (h : plaintextOk n = true) :
    Protocol.sealedOk (sealedLength n) = true := by
  have hn := plaintextOk_iff.mp h
  simp [Protocol.sealedOk, sealedLength, Protocol.kMaxRecordPayload, kNonceSize, kTagSize]
  omega

end Session

/-! ### One sealed blob -/

/-- The nonce of the sample. -/
def sampleNonce : Nonce := Vector.replicate kNonceSize 0

/-- The AES-256-GCM tag of `hi` under a key and a nonce of zeros, without additional data. -/
def sampleTag : Bytes :=
  [0xad, 0x14, 0x5c, 0xef, 0x3e, 0x9e, 0xeb, 0x28, 0xf8, 0xda, 0x02, 0x39, 0xae, 0xf5, 0x38, 0xe5]

/-- AES-256-GCM on that one input; nothing else is sealed in the sample. -/
def sampleGcm : Gcm where
  setkey key := key.length = 32
  cryptAndTag key nonce p :=
    if key = List.replicate 32 0 ∧ nonce = sampleNonce.toList ∧ p = [0x68, 0x69] then
      some ([0xa6, 0xce], sampleTag)
    else none
  authDecrypt key nonce c t :=
    if key = List.replicate 32 0 ∧ nonce = sampleNonce.toList ∧ c = [0xa6, 0xce] ∧ t = sampleTag then
      some [0x68, 0x69]
    else none

/-- What was sealed in the sample: one `hi`. -/
def sampleSealed : Bytes := sampleNonce.toList ++ [0xa6, 0xce] ++ sampleTag

theorem sampleGcm_lawful : sampleGcm.Lawful := by
  constructor <;>
  · intro k n p c t h
    simp only [sampleGcm, Option.ite_none_right_eq_some] at h
    obtain ⟨⟨rfl, rfl, rfl⟩, h⟩ := h
    cases h
    rfl

/-- One call of `mbedtls_gcm_crypt_and_tag` under a key of 32 zeros. -/
structure Sealing where
  nonce : Nonce
  plaintext : Bytes
  ciphertext : Bytes
  tag : Bytes
  length_ciphertext : ciphertext.length = plaintext.length
  length_tag : tag.length = kTagSize

/-- What `seal` makes of that call. -/
def Sealing.blob (r : Sealing) : Bytes := r.nonce.toList ++ r.ciphertext ++ r.tag

/-- AES-256-GCM on the calls of a table, and on no others. -/
def tableGcm (table : List Sealing) : Gcm where
  setkey key := key.length = 32
  cryptAndTag key nonce p :=
    if key = List.replicate 32 0 then
      (table.find? fun r => r.nonce.toList = nonce && r.plaintext = p).map fun r => (r.ciphertext, r.tag)
    else none
  authDecrypt key nonce c t :=
    if key = List.replicate 32 0 then
      (table.find? fun r => r.nonce.toList = nonce && r.ciphertext = c && r.tag = t).map Sealing.plaintext
    else none

/-- A table that uses no nonce twice obeys the laws. -/
theorem tableGcm_lawful {table : List Sealing} (honce : (table.map Sealing.nonce).Nodup) :
    (tableGcm table).Lawful := by
  have hrow : ∀ {k n p c t}, (tableGcm table).cryptAndTag k n p = some (c, t) →
      k = List.replicate 32 0 ∧ ∃ r ∈ table, r.nonce.toList = n ∧ r.plaintext = p ∧ r.ciphertext = c ∧
        r.tag = t := by
    intro k n p c t h
    simp only [tableGcm, Option.ite_none_right_eq_some, Option.map_eq_some_iff] at h
    obtain ⟨hkey, r, hfind, heq⟩ := h
    obtain ⟨rfl, rfl⟩ := Prod.mk.inj heq
    have hsome := List.find?_some hfind
    simp only [Bool.and_eq_true, decide_eq_true_eq] at hsome
    exact ⟨hkey, r, List.mem_of_find?_eq_some hfind, hsome.1, hsome.2, rfl, rfl⟩
  refine ⟨fun {k n p c t} h => ?_, fun {k n p c t} h => ?_, fun {k n p c t} h => ?_⟩
  all_goals obtain ⟨rfl, r, hmem, rfl, rfl, rfl, rfl⟩ := hrow h
  · exact r.length_ciphertext
  · exact r.length_tag
  · -- the row is the only one with its nonce
    have hfind : table.find? (fun r' => r'.nonce.toList = r.nonce.toList && r'.ciphertext = r.ciphertext &&
        r'.tag = r.tag) = some r := by
      obtain ⟨r', hr'⟩ : ∃ r', table.find? (fun r' => r'.nonce.toList = r.nonce.toList &&
          r'.ciphertext = r.ciphertext && r'.tag = r.tag) = some r' :=
        Option.isSome_iff_exists.mp (List.find?_isSome.mpr ⟨r, hmem, by simp⟩)
      have hsome := List.find?_some hr'
      simp only [Bool.and_eq_true, decide_eq_true_eq] at hsome
      have hnonce : r'.nonce = r.nonce := Vector.toList_inj.mp hsome.1.1
      rw [hr', List.inj_on_of_nodup_map honce (List.mem_of_find?_eq_some hr') hmem hnonce]
    simp only [tableGcm, if_true, hfind, Option.map_some]

/-- A nonce that ends in `k`. -/
def nonceEndingIn (k : UInt8) : Nonce := Vector.set sampleNonce 11 k

/-- The empty message, and some of one byte. -/
def shortSealings : List Sealing :=
  [⟨nonceEndingIn 0, [], [],
      [0x53, 0x0f, 0x8a, 0xfb, 0xc7, 0x45, 0x36, 0xb9, 0xa9, 0x63, 0xb4, 0xf1, 0xc4, 0xcb, 0x73, 0x8b],
      rfl, rfl⟩,
    ⟨nonceEndingIn 1, [1], [0x28],
      [0x4b, 0x9d, 0x33, 0xa5, 0x84, 0x30, 0x19, 0x7e, 0x00, 0xaa, 0x17, 0x8b, 0xbe, 0x59, 0xdf, 0xa8],
      rfl, rfl⟩,
    ⟨nonceEndingIn 2, [2], [0xbc],
      [0x75, 0x1d, 0x1d, 0x9a, 0x54, 0xc6, 0x33, 0x72, 0xfd, 0xad, 0x1e, 0x0c, 0x8f, 0x4f, 0x47, 0x5b],
      rfl, rfl⟩,
    ⟨nonceEndingIn 3, [3], [0xa8],
      [0xc0, 0xeb, 0x43, 0x72, 0x1f, 0x46, 0xd9, 0x36, 0xfa, 0xc3, 0xa4, 0x02, 0x69, 0x85, 0xd6, 0x4c],
      rfl, rfl⟩,
    ⟨nonceEndingIn 7, [7], [0x62],
      [0x6e, 0xda, 0x56, 0x6f, 0xee, 0x10, 0x9a, 0xed, 0x65, 0x57, 0x95, 0x55, 0xb4, 0xca, 0xf2, 0x64],
      rfl, rfl⟩,
    ⟨nonceEndingIn 8, [8], [0x73],
      [0xba, 0x10, 0xc3, 0xd0, 0xa6, 0xbb, 0xbe, 0xc6, 0x84, 0x23, 0x89, 0xbe, 0xbe, 0xbb, 0x25, 0x70],
      rfl, rfl⟩]

/-- AES-256-GCM on these messages. -/
def shortGcm : Gcm := tableGcm shortSealings

theorem shortGcm_lawful : shortGcm.Lawful := tableGcm_lawful (by decide)

/-- A sealed message of the table. -/
def shortSealed (plaintext : Bytes) : Bytes :=
  ((shortSealings.find? fun r => r.plaintext = plaintext).map Sealing.blob).getD []

end TcpDuplex
