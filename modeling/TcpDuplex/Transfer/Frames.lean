import TcpDuplex.Transfer.Codec

/-!
# The frame codec as a whole

The seven encoders and `decode_frame` are written with separate offsets. `Frame` collects what can be
encoded and `Tfx1` what is accepted. Decoding inverts encoding, so that two frames with one encoding
are one frame (up to the cut of an overlong reason), and `decode_frame` accepts the grammar `Tfx1`
and nothing else. What it accepts is what an encoder writes, but for two fields in which the decoder
is more liberal: the `ok` byte of a Done and the sign of an Offer's size.
-/

namespace TcpDuplex.Transfer

/-- A frame, with the arguments of its encoder. -/
inductive Frame where
  | offer (m : Meta)
  | accept (id : ID) (resume : ℤ)
  | reject (id : ID) (reason : Bytes)
  | chunk (id : ID) (offset : ℤ) (data : Bytes)
  | ack (id : ID) (cum : ℤ)
  | done (id : ID) (ok : Bool) (hash : Hash)
  | abort (id : ID) (reason : Bytes)
  deriving DecidableEq

namespace Frame

/-- The encoder of the frame. -/
def encode : Frame → Except ErrorCode Bytes
  | .offer m => encodeOffer m
  | .accept id resume => .ok (encodeAccept id resume)
  | .reject id reason => .ok (encodeReject id reason)
  | .chunk id offset data => .ok (encodeChunk id offset data)
  | .ack id cum => .ok (encodeAck id cum)
  | .done id ok hash => .ok (encodeDone id ok hash)
  | .abort id reason => .ok (encodeAbort id reason)

/-- The `std::int64_t` of the frame is one. -/
def InRange : Frame → Prop
  | .offer m => -2 ^ 63 ≤ m.size ∧ m.size < 2 ^ 63
  | .accept _ v | .chunk _ v _ | .ack _ v => -2 ^ 63 ≤ v ∧ v < 2 ^ 63
  | _ => True

/-- The frame as it is sent: a reason is cut to what its length field can say. -/
def cut : Frame → Frame
  | .reject id reason => .reject id (reason.take 0xffff)
  | .abort id reason => .abort id (reason.take 0xffff)
  | f => f

/-- The type and the fields of the frame, as `decode_frame` is to return them. -/
def fields : Frame → Decoded
  | .offer m => { typ := kTypeOffer, id := m.id, info := m }
  | .accept id resume => { typ := kTypeAccept, id := id, offset := resume }
  | .reject id reason => { typ := kTypeReject, id := id, reason := reason }
  | .chunk id offset data => { typ := kTypeChunk, id := id, offset := offset, data := data }
  | .ack id cum => { typ := kTypeAck, id := id, offset := cum }
  | .done id ok hash => { typ := kTypeDone, id := id, ok := ok, hash := hash }
  | .abort id reason => { typ := kTypeAbort, id := id, reason := reason }

/-- What `encode_offer` refuses. -/
def Refused : Frame → Prop
  | .offer m => m.size < 0 ∨ 0xffff < m.name.length
  | _ => False

/-! ## Decoding what was encoded -/

theorem fields_injective : Function.Injective fields := by
  intro f g h
  cases f <;> cases g <;> simp_all [fields, kTypeOffer, kTypeAccept, kTypeReject, kTypeChunk,
    kTypeAck, kTypeDone, kTypeAbort]

theorem decodeFrame_encode {f : Frame} (hf : f.InRange) {b : Bytes} (h : f.encode = .ok b) :
    decodeFrame b = .ok f.cut.fields := by
  cases f with
  | offer m => exact decodeFrame_encodeOffer hf.2 h
  | accept id resume =>
    obtain rfl := Except.ok.inj h
    exact decodeFrame_encodeAccept id hf.1 hf.2
  | reject id reason =>
    obtain rfl := Except.ok.inj h
    exact decodeFrame_encodeReject id reason
  | chunk id offset data =>
    obtain rfl := Except.ok.inj h
    exact decodeFrame_encodeChunk id hf.1 hf.2 data
  | ack id cum =>
    obtain rfl := Except.ok.inj h
    exact decodeFrame_encodeAck id hf.1 hf.2
  | done id ok hash =>
    obtain rfl := Except.ok.inj h
    exact decodeFrame_encodeDone id ok hash
  | abort id reason =>
    obtain rfl := Except.ok.inj h
    exact decodeFrame_encodeAbort id reason

theorem encode_error_iff (f : Frame) : (∃ err, f.encode = .error err) ↔ f.Refused := by
  cases f with
  | offer m =>
    simp only [encode, encodeOffer, Refused]
    split_ifs with hsize hname
    · exact ⟨fun _ => .inl hsize, fun _ => ⟨_, rfl⟩⟩
    · exact ⟨fun _ => .inr hname, fun _ => ⟨_, rfl⟩⟩
    · constructor
      · rintro ⟨err, herr⟩
        cases herr
      · rintro (h | h)
        · exact absurd h hsize
        · exact absurd h hname
  | _ =>
    constructor
    · rintro ⟨err, herr⟩
      cases herr
    · exact False.elim

/-- **The codec round trip.** An encoder fails only where `encode_offer` is to refuse; otherwise
`decode_frame` returns the type and the fields of the frame, with an overlong reason cut, and no other
frame has the same encoding. -/
theorem decode_encode_round_trip (f : Frame) (hf : f.InRange) :
    ((∃ err, f.encode = .error err) ↔ f.Refused) ∧
      ∀ b, f.encode = .ok b →
        decodeFrame b = .ok f.cut.fields ∧
          ∀ g : Frame, g.InRange → g.encode = .ok b → g.cut = f.cut := by
  refine ⟨encode_error_iff f, fun b hb => ⟨decodeFrame_encode hf hb, ?_⟩⟩
  intro g hg hgb
  have hdec := decodeFrame_encode hg hgb
  rw [decodeFrame_encode hf hb] at hdec
  exact fields_injective (Except.ok.inj hdec).symm

/-- A chunk at the last offset an `std::int64_t` can hold. -/
theorem last_chunk_round_trip :
    decodeFrame (encodeChunk (Block.zero _) (2 ^ 63 - 1) [0xff]) =
      .ok { typ := kTypeChunk, id := Block.zero _, offset := 2 ^ 63 - 1, data := [0xff] } :=
  ((decode_encode_round_trip (.chunk (Block.zero _) (2 ^ 63 - 1) [0xff])
    ⟨by omega, by omega⟩).2 _ rfl).1

end Frame

/-! ## What is accepted -/

/-- The 16-bit length field at offset `i`. -/
def lengthField (b : Bytes) (i : ℕ) : ℕ := getBe16 ((b.drop i).take 2)

/-- The TFX1 grammar: the magic, a type byte, and the length that the layout of the type asks for. -/
def Tfx1 (b : Bytes) : Prop :=
  b.take 4 = kMagic ∧
    (b[4]? = some kTypeOffer ∧ b.length = 63 + lengthField b 61 ∨
      (b[4]? = some kTypeAccept ∨ b[4]? = some kTypeAck) ∧ b.length = 29 ∨
      (b[4]? = some kTypeReject ∨ b[4]? = some kTypeAbort) ∧ b.length = 23 + lengthField b 21 ∨
      b[4]? = some kTypeChunk ∧ 29 ≤ b.length ∨
      b[4]? = some kTypeDone ∧ b.length = 54)

/-- Encode the decoded fields again, with the encoder of the type. -/
def reencode (d : Decoded) : Except ErrorCode Bytes :=
  if d.typ = kTypeOffer then encodeOffer d.info
  else if d.typ = kTypeAccept then .ok (encodeAccept d.id d.offset)
  else if d.typ = kTypeReject then .ok (encodeReject d.id d.reason)
  else if d.typ = kTypeAbort then .ok (encodeAbort d.id d.reason)
  else if d.typ = kTypeChunk then .ok (encodeChunk d.id d.offset d.data)
  else if d.typ = kTypeAck then .ok (encodeAck d.id d.offset)
  else .ok (encodeDone d.id d.ok d.hash)

/-- What encoding an accepted frame again gives: the frame itself, but for an `ok` byte that is
neither 0 nor 1 and for a size with its top bit set. -/
def reencoded (b : Bytes) : Except ErrorCode Bytes :=
  if b[4]? = some kTypeDone ∧ b[21]? ≠ some 0 ∧ b[21]? ≠ some 1 then .ok (b.set 21 1)
  else if b[4]? = some kTypeOffer ∧ b[21]?.any (128 ≤ ·.toNat) = true then
    .error Errc.sizeMismatch.code
  else .ok b

/-! ### From the grammar to the fields -/

/-- The accepted byte strings, field by field, with what they decode to. -/
inductive Parses : Bytes → Decoded → Prop where
  | offer (id : ID) {size : ℤ} (hlo : -2 ^ 63 ≤ size) (hhi : size < 2 ^ 63) (hash : Hash)
      {name : Bytes} (hname : name.length ≤ 0xffff) :
      Parses (frame kTypeOffer id (offerBody size hash name))
        { typ := kTypeOffer, id := id, info := ⟨id, name, size, hash⟩ }
  | accept (id : ID) {v : ℤ} (hlo : -2 ^ 63 ≤ v) (hhi : v < 2 ^ 63) :
      Parses (encodeAccept id v) { typ := kTypeAccept, id := id, offset := v }
  | reject (id : ID) {reason : Bytes} (hle : reason.length ≤ 0xffff) :
      Parses (encodeReject id reason) { typ := kTypeReject, id := id, reason := reason }
  | chunk (id : ID) {v : ℤ} (hlo : -2 ^ 63 ≤ v) (hhi : v < 2 ^ 63) (data : Bytes) :
      Parses (encodeChunk id v data) { typ := kTypeChunk, id := id, offset := v, data := data }
  | ack (id : ID) {v : ℤ} (hlo : -2 ^ 63 ≤ v) (hhi : v < 2 ^ 63) :
      Parses (encodeAck id v) { typ := kTypeAck, id := id, offset := v }
  | done (id : ID) (x : UInt8) (hash : Hash) :
      Parses (frame kTypeDone id ([x] ++ hash.1))
        { typ := kTypeDone, id := id, ok := x != 0, hash := hash }
  | abort (id : ID) {reason : Bytes} (hle : reason.length ≤ 0xffff) :
      Parses (encodeAbort id reason) { typ := kTypeAbort, id := id, reason := reason }

theorem Parses.decodeFrame_eq {b : Bytes} {d : Decoded} (h : Parses b d) :
    decodeFrame b = .ok d := by
  cases h with
  | offer id hlo hhi hash hname => exact decodeFrame_offer id hlo hhi hash hname
  | accept id hlo hhi => exact decodeFrame_encodeAccept id hlo hhi
  | reject id hle => rw [decodeFrame_encodeReject, List.take_of_length_le hle]
  | chunk id hlo hhi data => exact decodeFrame_encodeChunk id hlo hhi data
  | ack id hlo hhi => exact decodeFrame_encodeAck id hlo hhi
  | done id x hash => exact decodeFrame_done id x hash
  | abort id hle => rw [decodeFrame_encodeAbort, List.take_of_length_le hle]

/-- Anything long enough with the magic in front has a type, an id and a body. -/
theorem exists_frame {b : Bytes} {typ : UInt8} (hmagic : b.take 4 = kMagic)
    (htyp : b[4]? = some typ) (hlen : 21 ≤ b.length) : ∃ id body, b = frame typ id body := by
  have hid : ((b.drop 5).take 16).length = kIdLen := by
    rw [List.length_take, List.length_drop, kIdLen]
    omega
  refine ⟨⟨(b.drop 5).take 16, hid⟩, b.drop 21, ?_⟩
  have hfour : b.drop 4 = typ :: b.drop 5 := List.drop_eq_getElem?_toList_append.trans (by rw [htyp]; rfl)
  have hrest : b.drop 5 = (b.drop 5).take 16 ++ b.drop 21 := by
    conv_lhs => rw [← List.take_append_drop 16 (b.drop 5), List.drop_drop]
  calc b = b.take 4 ++ b.drop 4 := (List.take_append_drop 4 b).symm
    _ = kMagic ++ (typ :: ((b.drop 5).take 16 ++ b.drop 21)) := by rw [hmagic, hfour, ← hrest]
    _ = _ := by simp [frame]

theorem lengthField_frame (typ : UInt8) (id : ID) (body : Bytes) (i : ℕ) :
    lengthField (frame typ id body) (21 + i) = lengthField body i := by
  have hlen : ((kMagic ++ [typ]) ++ id.1).length = 21 := by
    simp [kMagic, id.2, kIdLen]
  rw [lengthField, frame, ← hlen, List.drop_append, Nat.add_sub_cancel_left,
    List.drop_eq_nil_of_le (by omega), List.nil_append, lengthField]

/-- The 64-bit field in front of a body. -/
theorem exists_putBe64 {body : Bytes} (hlen : 8 ≤ body.length) :
    ∃ v : ℤ, -2 ^ 63 ≤ v ∧ v < 2 ^ 63 ∧ body = putBe64 v ++ body.drop 8 := by
  have htake : (body.take 8).length = 8 := by
    rw [List.length_take]
    omega
  have hround := Bytes.putBeInt_getBeInt (body.take 8)
  have hrange := Bytes.getBeInt_range (body.take 8)
  rw [htake] at hround hrange
  refine ⟨Bytes.getBeInt (body.take 8), by omega, by omega, ?_⟩
  rw [putBe64, hround, List.take_append_drop]

/-- A 16-bit length field in front of a body that has exactly the length it says. -/
theorem exists_putBe16 {body : Bytes} (hlen : body.length = 2 + lengthField body 0) :
    ∃ x : Bytes, x.length ≤ 0xffff ∧ body = putBe16 x.length ++ x := by
  have htake : (body.take 2).length = 2 := by
    rw [List.length_take]
    omega
  have hround := Bytes.putBe_getBe (body.take 2)
  have hlt := Bytes.getBe_lt (body.take 2)
  rw [htake] at hround hlt
  have hdrop : (body.drop 2).length = Bytes.getBe (body.take 2) := by
    rw [List.length_drop, hlen]
    simp [lengthField, getBe16]
  refine ⟨body.drop 2, by omega, ?_⟩
  rw [putBe16, hdrop, hround, List.take_append_drop]

theorem exists_offerBody {body : Bytes} (hlen : body.length = 42 + lengthField body 40) :
    ∃ (size : ℤ) (hash : Hash) (name : Bytes), -2 ^ 63 ≤ size ∧ size < 2 ^ 63 ∧
      name.length ≤ 0xffff ∧ body = offerBody size hash name := by
  obtain ⟨size, hlo, hhi, hsize⟩ := exists_putBe64 (show 8 ≤ body.length by omega)
  have hhash : ((body.drop 8).take 32).length = 32 := by
    rw [List.length_take, List.length_drop]
    omega
  have hdrop : (body.drop 40).length = 2 + lengthField (body.drop 40) 0 := by
    rw [List.length_drop, hlen, lengthField, lengthField, List.drop_zero]
    omega
  obtain ⟨name, hname, hrest⟩ := exists_putBe16 hdrop
  refine ⟨size, ⟨(body.drop 8).take 32, hhash⟩, name, hlo, hhi, hname, ?_⟩
  have hmid : body.drop 8 = (body.drop 8).take 32 ++ body.drop 40 := by
    conv_lhs => rw [← List.take_append_drop 32 (body.drop 8), List.drop_drop]
  calc body = putBe64 size ++ ((body.drop 8).take 32 ++ (putBe16 name.length ++ name)) := by
        rw [← hrest, ← hmid]
        exact hsize
    _ = _ := by simp [offerBody]

theorem exists_parses_of_tfx1 {b : Bytes} (h : Tfx1 b) : ∃ d, Parses b d := by
  obtain ⟨hmagic, hlayout⟩ := h
  rcases hlayout with ⟨htyp, hlen⟩ | ⟨htyp, hlen⟩ | ⟨htyp, hlen⟩ | ⟨htyp, hlen⟩ | ⟨htyp, hlen⟩
  · obtain ⟨id, body, rfl⟩ := exists_frame hmagic htyp (by omega)
    rw [length_frame, lengthField_frame _ _ _ 40] at hlen
    obtain ⟨size, hash, name, hlo, hhi, hname, rfl⟩ := exists_offerBody
      (show body.length = 42 + lengthField body 40 by omega)
    exact ⟨_, .offer id hlo hhi hash hname⟩
  · have hbody : ∀ {typ : UInt8}, b[4]? = some typ →
        ∃ id v, -2 ^ 63 ≤ v ∧ v < 2 ^ 63 ∧ b = frame typ id (putBe64 v) := by
      intro typ htyp
      obtain ⟨id, body, rfl⟩ := exists_frame hmagic htyp (by omega)
      rw [length_frame] at hlen
      obtain ⟨v, hlo, hhi, hv⟩ := exists_putBe64 (show 8 ≤ body.length by omega)
      rw [List.drop_eq_nil_of_le (by omega), List.append_nil] at hv
      exact ⟨id, v, hlo, hhi, by rw [← hv]⟩
    rcases htyp with htyp | htyp
    · obtain ⟨id, v, hlo, hhi, rfl⟩ := hbody htyp
      exact ⟨_, .accept id hlo hhi⟩
    · obtain ⟨id, v, hlo, hhi, rfl⟩ := hbody htyp
      exact ⟨_, .ack id hlo hhi⟩
  · have hbody : ∀ {typ : UInt8}, b[4]? = some typ →
        ∃ id r, r.length ≤ 0xffff ∧ b = frame typ id (encodeReason r) := by
      intro typ htyp
      obtain ⟨id, body, rfl⟩ := exists_frame hmagic htyp (by omega)
      rw [length_frame, lengthField_frame _ _ _ 0] at hlen
      obtain ⟨r, hr, rfl⟩ := exists_putBe16 (show body.length = 2 + lengthField body 0 by omega)
      exact ⟨id, r, hr, by rw [encodeReason, List.take_of_length_le hr]⟩
    rcases htyp with htyp | htyp
    · obtain ⟨id, r, hr, rfl⟩ := hbody htyp
      exact ⟨_, .reject id hr⟩
    · obtain ⟨id, r, hr, rfl⟩ := hbody htyp
      exact ⟨_, .abort id hr⟩
  · obtain ⟨id, body, rfl⟩ := exists_frame hmagic htyp (by omega)
    rw [length_frame] at hlen
    obtain ⟨v, hlo, hhi, hv⟩ := exists_putBe64 (show 8 ≤ body.length by omega)
    rw [hv]
    exact ⟨_, .chunk id hlo hhi (body.drop 8)⟩
  · obtain ⟨id, body, rfl⟩ := exists_frame hmagic htyp (by omega)
    rw [length_frame] at hlen
    obtain ⟨x, hash, rfl⟩ := List.exists_cons_of_length_pos (show 0 < body.length by omega)
    have hhash : hash.length = 32 := by
      rw [List.length_cons] at hlen
      omega
    exact ⟨_, .done id x ⟨hash, hhash⟩⟩

/-! ### From success to the grammar -/

theorem eq_of_sub? {b x : Bytes} {i n : ℕ} (h : b.sub? i n = some x) : x = (b.drop i).take n := by
  unfold Bytes.sub? at h
  split at h
  · exact (Option.some.inj h).symm
  · cases h

theorem length_of_decodeOffer? {b : Bytes} {d : Decoded} (h : decodeOffer? b = some (.ok d)) :
    b.length = 63 + lengthField b 61 := by
  unfold decodeOffer? at h
  split at h
  · cases h
  · obtain ⟨id, -, h⟩ := Option.bind_eq_some_iff.mp h
    obtain ⟨size, -, h⟩ := Option.bind_eq_some_iff.mp h
    obtain ⟨hash, -, h⟩ := Option.bind_eq_some_iff.mp h
    obtain ⟨nlen, hnlen, h⟩ := Option.bind_eq_some_iff.mp h
    split at h
    · cases h
    · rename_i hlen
      obtain rfl := eq_of_sub? hnlen
      exact not_not.mp hlen

theorem length_of_decodeOffset? {typ : UInt8} {len : ℕ} {b : Bytes} {d : Decoded}
    (h : decodeOffset? typ len b = some (.ok d)) : b.length = len := by
  unfold decodeOffset? at h
  split at h
  · cases h
  · rename_i hlen
    exact not_not.mp hlen

theorem length_of_decodeReason? {typ : UInt8} {fixed : ℕ} {b : Bytes} {d : Decoded}
    (h : decodeReason? typ fixed b = some (.ok d)) : b.length = fixed + lengthField b 21 := by
  unfold decodeReason? at h
  split at h
  · cases h
  · obtain ⟨id, -, h⟩ := Option.bind_eq_some_iff.mp h
    obtain ⟨nlen, hnlen, h⟩ := Option.bind_eq_some_iff.mp h
    split at h
    · cases h
    · rename_i hlen
      obtain rfl := eq_of_sub? hnlen
      exact not_not.mp hlen

theorem length_of_decodeChunk? {b : Bytes} {d : Decoded} (h : decodeChunk? b = some (.ok d)) :
    29 ≤ b.length := by
  unfold decodeChunk? at h
  split at h
  · cases h
  · rename_i hlen
    exact Nat.le_of_not_lt hlen

theorem length_of_decodeDone? {b : Bytes} {d : Decoded} (h : decodeDone? b = some (.ok d)) :
    b.length = 54 := by
  unfold decodeDone? at h
  split at h
  · cases h
  · rename_i hlen
    exact not_not.mp hlen

theorem tfx1_of_decodeFrame {b : Bytes} {d : Decoded} (h : decodeFrame b = .ok d) : Tfx1 b := by
  obtain ⟨r, hr, -, -⟩ := answers_decodeFrame? b
  rw [decodeFrame_of_decodeFrame? hr] at h
  subst h
  unfold decodeFrame? at hr
  split at hr
  · cases hr
  · obtain ⟨magic, hmagic, hr⟩ := Option.bind_eq_some_iff.mp hr
    split at hr
    · cases hr
    · rename_i heq
      obtain rfl := eq_of_sub? hmagic
      refine ⟨not_not.mp heq, ?_⟩
      obtain ⟨typ, htyp, hr⟩ := Option.bind_eq_some_iff.mp hr
      split_ifs at hr with hoffer haccept hreject habort hchunk hack hdone
      · exact .inl ⟨hoffer ▸ htyp, length_of_decodeOffer? hr⟩
      · exact .inr (.inl ⟨.inl (haccept ▸ htyp), length_of_decodeOffset? hr⟩)
      · exact .inr (.inr (.inl ⟨.inl (hreject ▸ htyp), length_of_decodeReason? hr⟩))
      · exact .inr (.inr (.inl ⟨.inr (habort ▸ htyp), length_of_decodeReason? hr⟩))
      · exact .inr (.inr (.inr (.inl ⟨hchunk ▸ htyp, length_of_decodeChunk? hr⟩)))
      · exact .inr (.inl ⟨.inr (hack ▸ htyp), length_of_decodeOffset? hr⟩)
      · exact .inr (.inr (.inr (.inr ⟨hdone ▸ htyp, length_of_decodeDone? hr⟩)))
      · cases hr

/-! ### Encoding again -/

theorem getElem?_frame_body (typ : UInt8) (id : ID) (x : UInt8) (body : Bytes) :
    (frame typ id (x :: body))[21]? = some x := by
  have hlen : ((kMagic ++ [typ]) ++ id.1).length = 21 := by
    simp [kMagic, id.2, kIdLen]
  rw [frame, List.getElem?_append_right (by omega), hlen]
  rfl

theorem set_frame_body (typ : UInt8) (id : ID) (x y : UInt8) (body : Bytes) :
    (frame typ id (x :: body)).set 21 y = frame typ id (y :: body) := by
  have hlen : ((kMagic ++ [typ]) ++ id.1).length = 21 := by
    simp [kMagic, id.2, kIdLen]
  rw [frame, List.set_append_right _ _ (by omega), hlen]
  rfl

/-- A frame of another type than Done and Offer encodes to itself again. -/
theorem reencoded_frame {typ : UInt8} (hdone : typ ≠ kTypeDone) (hoffer : typ ≠ kTypeOffer) (id : ID)
    (body : Bytes) : reencoded (frame typ id body) = .ok (frame typ id body) := by
  have hd : some typ ≠ some kTypeDone := fun h => hdone (Option.some.inj h)
  have ho : some typ ≠ some kTypeOffer := fun h => hoffer (Option.some.inj h)
  rw [reencoded, getElem?_frame_type, if_neg fun h => hd h.1, if_neg fun h => ho h.1]

theorem Parses.reencode_eq {b : Bytes} {d : Decoded} (h : Parses b d) :
    reencode d = reencoded b := by
  cases h with
  | @offer id size hlo hhi hash name hname =>
    -- the first byte of the size field holds its sign
    obtain ⟨x, rest, hsize⟩ := List.exists_cons_of_length_pos
      (show 0 < (putBe64 size).length by rw [putBe64, Bytes.length_putBeInt]; decide)
    have hsign : size < 0 ↔ 128 ≤ x.toNat := by
      rw [← Bytes.getBeInt_neg_iff x rest, ← hsize]
      exact iff_of_eq (congrArg (· < 0) (getBe64_putBe64 hlo hhi).symm)
    have hbody : offerBody size hash name = x :: (rest ++ hash.1 ++ putBe16 name.length ++ name) := by
      rw [offerBody, hsize]
      rfl
    have hbyte : (frame kTypeOffer id (offerBody size hash name))[21]? = some x := by
      rw [hbody, getElem?_frame_body]
    rw [reencoded, getElem?_frame_type, hbyte, if_neg fun h => absurd h.1 (by decide)]
    simp only [reencode, encodeOffer, if_true, Option.any_some, true_and, decide_eq_true_eq, ← hsign]
    by_cases hneg : size < 0
    · rw [if_pos hneg, if_pos hneg]
    · rw [if_neg hneg, if_neg hneg, if_neg (Nat.not_lt.mpr hname)]
      rfl
  | accept id => exact (reencoded_frame (by decide) (by decide) id _).symm
  | reject id => exact (reencoded_frame (by decide) (by decide) id _).symm
  | chunk id => exact (reencoded_frame (by decide) (by decide) id _).symm
  | ack id => exact (reencoded_frame (by decide) (by decide) id _).symm
  | done id x hash =>
    have hbyte : (frame kTypeDone id ([x] ++ hash.1))[21]? = some x := getElem?_frame_body ..
    have hset : (frame kTypeDone id ([x] ++ hash.1)).set 21 1 = encodeDone id true hash :=
      set_frame_body ..
    have hagain : reencode { typ := kTypeDone, id := id, ok := x != 0, hash := hash } =
        .ok (encodeDone id (x != 0) hash) := rfl
    rw [hagain, reencoded, getElem?_frame_type, hbyte, hset]
    by_cases hzero : x = 0
    · subst hzero
      rfl
    · rw [bne_iff_ne.mpr hzero]
      by_cases hone : x = 1
      · subst hone
        rfl
      · rw [if_pos ⟨rfl, by simpa using hzero, by simpa using hone⟩]
  | abort id => exact (reencoded_frame (by decide) (by decide) id _).symm

/-- **`decode_frame` accepts exactly the TFX1 grammar.** It reads no byte outside its input, succeeds
on the frames of the grammar and on nothing else, and what it returns encodes to the same bytes again,
up to an `ok` byte that is neither 0 nor 1 and a size with its top bit set. -/
theorem decodeFrame_accepts_exactly (b : Bytes) :
    (decodeFrame? b).isSome = true ∧ ((∃ d, decodeFrame b = .ok d) ↔ Tfx1 b) ∧
      ∀ d, decodeFrame b = .ok d → reencode d = reencoded b := by
  refine ⟨decodeFrame?_isSome b, ⟨?_, ?_⟩, ?_⟩
  · rintro ⟨d, hd⟩
    exact tfx1_of_decodeFrame hd
  · intro htfx
    obtain ⟨d, hparse⟩ := exists_parses_of_tfx1 htfx
    exact ⟨d, hparse.decodeFrame_eq⟩
  · intro d hd
    obtain ⟨d', hparse⟩ := exists_parses_of_tfx1 (tfx1_of_decodeFrame hd)
    obtain rfl : d' = d := Except.ok.inj (hparse.decodeFrame_eq.symm.trans hd)
    exact hparse.reencode_eq

end TcpDuplex.Transfer
