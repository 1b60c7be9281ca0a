import TcpDuplex.Conn.Step

/-!
# The size limits along the path of a message

A payload passes five checks between `send_for` and the peer's `recv_q_`, each written on its own:
the admission check of `send_for`, the limit of `seal`, the limit of `write_record`, the length check
of `read_record` and the plaintext check of `read_loop`. `max_message_bytes` is not clamped to what a
record can carry, and the two checks of `conn.cpp` compare a length cast to `int`.
-/

namespace TcpDuplex.Conn

open Protocol

/-- The four checks behind the admission check of `send_for` pass on the payload. -/
structure Transmittable (cfg : FrozenConfig) (p : Bytes) : Prop where
  sealable : Session.plaintextOk p.length = true
  writable : sealedOk (Session.sealedLength p.length) = true
  readable : lengthOk (1 + Session.sealedLength p.length) = true
  admitted : sizeOk cfg p.length = true

/-- The largest plaintext a record can carry: `kMaxRecordPayload` less the type byte, the nonce and
the tag. -/
def maxPlaintext : ℕ := kMaxRecordPayload - 1 - kNonceSize - kTagSize

theorem plaintextOk_iff_le_max {n : ℕ} : Session.plaintextOk n = true ↔ n ≤ maxPlaintext := by
  rw [Session.plaintextOk_iff]
  rfl

/-- The admission check compares the low 32 bits of the length, read as a signed number. -/
theorem sizeOk_iff {cfg : FrozenConfig} {n : ℕ} :
    sizeOk cfg n = true ↔ (n : ℤ).bmod (2 ^ 32) ≤ cfg.maxMessageBytes.toInt := by
  rw [sizeOk, Bool.not_eq_true', decide_eq_false_iff_not, gt_iff_lt, Int32.not_lt,
    Int32.le_iff_toInt_le, castInt_toInt]

/-- `seal`'s limit is the only one of the write and read path that decides. -/
theorem transmittable_iff {cfg : FrozenConfig} {p : Bytes} :
    Transmittable cfg p ↔ Session.plaintextOk p.length = true ∧ sizeOk cfg p.length = true := by
  constructor
  · intro h
    exact ⟨h.sealable, h.admitted⟩
  · rintro ⟨hseal, hadmit⟩
    have hwrite := Session.sealedOk_of_plaintextOk hseal
    exact ⟨hseal, hwrite, lengthOk_of_sealedOk hwrite, hadmit⟩

/-- What the checks are for: once they pass and the cipher works, the record is written, read back
and opened to the same payload, and `read_loop` does not refuse it. -/
theorem Transmittable.arrives {e : Env} (hg : e.gcm.Lawful) {p sealed : Bytes} {nonce : Option Nonce}
    (h : Transmittable e.cfg p) (hseal : e.sess.sealPlaintext e.gcm nonce p = .ok sealed)
    (more : Bytes) (s : State) :
    ∃ bytes, writeRecord kMsgText sealed = .ok bytes ∧
      readRecord (bytes ++ more) = (.ok (kMsgText, sealed), more) ∧
      readRecordDone e s kMsgText sealed =
        { s with reader := if e.cfg.onMessage then .jobs p else .text p } := by
  have hlen := Session.length_of_sealPlaintext hg hseal
  have hok : sealedOk sealed.length = true := by
    rw [hlen]
    exact h.writable
  refine ⟨recordBytes kMsgText sealed, ?_, readRecord_recordBytes_append kMsgText more hok, ?_⟩
  · rw [writeRecord, if_pos hok]
  · simp only [readRecordDone, Session.openSealed_of_sealPlaintext hg hseal, dispatch, if_true,
      h.admitted]

/-- **Admission implies transmission, exactly** for the payloads a record can carry and for those
`send_for` refuses: those whose length, cast to `int`, exceeds the limit. For every other payload
`send_for` reports success and `write_loop` dies on it. -/
theorem accepted_transmittable_iff (cfg : Option Config) (p : Bytes) :
    (sizeOk (freezeConfig cfg) p.length = true → Transmittable (freezeConfig cfg) p) ↔
      p.length ≤ maxPlaintext ∨
        (freezeConfig cfg).maxMessageBytes.toInt < (p.length : ℤ).bmod (2 ^ 32) := by
  rw [transmittable_iff, plaintextOk_iff_le_max]
  constructor
  · intro h
    by_cases hsize : sizeOk (freezeConfig cfg) p.length = true
    · exact Or.inl (h hsize).1
    · rw [sizeOk_iff, not_le] at hsize
      exact Or.inr hsize
  · rintro (hle | hlt) hsize
    · exact ⟨hle, hsize⟩
    · rw [sizeOk_iff] at hsize
      omega

/-- With `max_message_bytes` at the record limit, a payload of one byte more than a record can carry
passes `send_for` and fails `seal`. -/
theorem oversized_payload_accepted :
    ¬ ∀ (cfg : Option Config) (p : Bytes), sizeOk (freezeConfig cfg) p.length = true →
      Transmittable (freezeConfig cfg) p := by
  intro h
  have hbad := h (some { defaultConfig with maxMessageBytes := 1048576 })
    (List.replicate 1048548 0) (by rw [List.length_replicate]; decide)
  have hseal := hbad.sealable
  rw [List.length_replicate, plaintextOk_iff_le_max] at hseal
  revert hseal
  decide

end TcpDuplex.Conn
