import TcpDuplex.Errors

/-!
# The frames of a transfer (`transfer.cpp`)

Every frame starts with the magic `TFX1`, a type byte and the transfer id; what follows depends on the
type. `decode_frame` reads at fixed indices, so its model `decodeFrame?` reads through bounds-checked
slices and is `none` where the code would read outside its input. It never does
(`decodeFrame?_isSome`), and `decodeFrame` is the function that remains.

`std::int64_t` fields are integers: they are written modulo `2 ^ 64` and read in two's complement.
-/

namespace TcpDuplex.Transfer

/-- `kTypeOffer`. -/
def kTypeOffer : UInt8 := 1
/-- `kTypeAccept`. -/
def kTypeAccept : UInt8 := 2
/-- `kTypeReject`. -/
def kTypeReject : UInt8 := 3
/-- `kTypeChunk`. -/
def kTypeChunk : UInt8 := 4
/-- `kTypeAck`. -/
def kTypeAck : UInt8 := 5
/-- `kTypeDone`. -/
def kTypeDone : UInt8 := 6
/-- `kTypeAbort`. -/
def kTypeAbort : UInt8 := 7

/-- `kMagic`: the bytes of `TFX1`. -/
def kMagic : Bytes := [0x54, 0x46, 0x58, 0x31]

/-- `kHeaderLen`. -/
def kHeaderLen : ℕ := 5
/-- `kIdLen`. -/
def kIdLen : ℕ := 16
/-- `kOfferFixedLen`. -/
def kOfferFixedLen : ℕ := kHeaderLen + kIdLen + 8 + 32 + 2
/-- `kAcceptLen`. -/
def kAcceptLen : ℕ := kHeaderLen + kIdLen + 8
/-- `kChunkFixedLen`, which is also `kChunkOverhead`. -/
def kChunkFixedLen : ℕ := kHeaderLen + kIdLen + 8
/-- `kAckLen`. -/
def kAckLen : ℕ := kHeaderLen + kIdLen + 8
/-- `kDoneLen`. -/
def kDoneLen : ℕ := kHeaderLen + kIdLen + 1 + 32
/-- `kRejectFixedLen`. -/
def kRejectFixedLen : ℕ := kHeaderLen + kIdLen + 2
/-- `kAbortFixedLen`. -/
def kAbortFixedLen : ℕ := kHeaderLen + kIdLen + 2

/-- `ID`. -/
abbrev ID := Block kIdLen

/-- A SHA-256 digest. -/
abbrev Hash := Block 32

/-- `Meta`. The name is a string of arbitrary bytes. -/
structure Meta where
  id : ID := Block.zero _
  name : Bytes := []
  size : ℤ := 0
  hash : Hash := Block.zero _
  deriving DecidableEq

/-- `Decoded`. -/
structure Decoded where
  typ : UInt8
  id : ID := Block.zero _
  info : Meta := {}
  offset : ℤ := 0
  data : Bytes := []
  ok : Bool := false
  hash : Hash := Block.zero _
  reason : Bytes := []
  deriving DecidableEq

/-- `is_zero_hash`. -/
def isZeroHash (h : Hash) : Bool := h.1.all (· == 0)

/-- `put_be16`. -/
def putBe16 (v : ℕ) : Bytes := Bytes.putBe 2 v
/-- `get_be16`. -/
def getBe16 (b : Bytes) : ℕ := Bytes.getBe b
/-- `put_be64` of an `std::int64_t`. -/
def putBe64 (v : ℤ) : Bytes := Bytes.putBeInt 8 v
/-- `get_be64`, cast to `std::int64_t`. -/
def getBe64 (b : Bytes) : ℤ := Bytes.getBeInt b

/-! ## Decoding -/

/-- `return make_error_code(errc::bad_frame)`. -/
def badFrame : Except ErrorCode Decoded := .error Errc.badFrame.code

/-- `case kTypeOffer`. -/
def decodeOffer? (b : Bytes) : Option (Except ErrorCode Decoded) :=
  if b.length < kOfferFixedLen then some badFrame
  else do
    let id ← Block.at? kIdLen b 5
    let size ← b.sub? 21 8
    let hash ← Block.at? 32 b 29
    let nlen ← b.sub? 61 2
    if b.length ≠ kOfferFixedLen + getBe16 nlen then some badFrame
    else do
      let name ← b.sub? 63 (getBe16 nlen)
      some (.ok { typ := kTypeOffer, id := id, info := ⟨id, name, getBe64 size, hash⟩ })

/-- `case kTypeAccept` and `case kTypeAck`: an id and an offset, of a fixed length. -/
def decodeOffset? (typ : UInt8) (len : ℕ) (b : Bytes) : Option (Except ErrorCode Decoded) :=
  if b.length ≠ len then some badFrame
  else do
    let id ← Block.at? kIdLen b 5
    let offset ← b.sub? 21 8
    some (.ok { typ := typ, id := id, offset := getBe64 offset })

/-- `case kTypeReject` and `case kTypeAbort`: an id and a reason. -/
def decodeReason? (typ : UInt8) (fixed : ℕ) (b : Bytes) : Option (Except ErrorCode Decoded) :=
  if b.length < fixed then some badFrame
  else do
    let id ← Block.at? kIdLen b 5
    let nlen ← b.sub? 21 2
    if b.length ≠ fixed + getBe16 nlen then some badFrame
    else do
      let reason ← b.sub? 23 (getBe16 nlen)
      some (.ok { typ := typ, id := id, reason := reason })

/-- `case kTypeChunk`. -/
def decodeChunk? (b : Bytes) : Option (Except ErrorCode Decoded) :=
  if b.length < kChunkFixedLen then some badFrame
  else do
    let id ← Block.at? kIdLen b 5
    let offset ← b.sub? 21 8
    let data ← b.sub? 29 (b.length - 29)
    some (.ok { typ := kTypeChunk, id := id, offset := getBe64 offset, data := data })

/-- `case kTypeDone`. -/
def decodeDone? (b : Bytes) : Option (Except ErrorCode Decoded) :=
  if b.length ≠ kDoneLen then some badFrame
  else do
    let id ← Block.at? kIdLen b 5
    let ok : UInt8 ← b[21]?
    let hash ← Block.at? 32 b 22
    some (.ok { typ := kTypeDone, id := id, ok := ok != 0, hash := hash })

/-- `decode_frame`, with `none` for a read outside the input. -/
def decodeFrame? (b : Bytes) : Option (Except ErrorCode Decoded) :=
  if b.length < kHeaderLen then some badFrame
  else do
    let magic ← b.sub? 0 4
    if magic ≠ kMagic then some badFrame
    else do
      let typ : UInt8 ← b[4]?
      if typ = kTypeOffer then decodeOffer? b
      else if typ = kTypeAccept then decodeOffset? kTypeAccept kAcceptLen b
      else if typ = kTypeReject then decodeReason? kTypeReject kRejectFixedLen b
      else if typ = kTypeAbort then decodeReason? kTypeAbort kAbortFixedLen b
      else if typ = kTypeChunk then decodeChunk? b
      else if typ = kTypeAck then decodeOffset? kTypeAck kAckLen b
      else if typ = kTypeDone then decodeDone? b
      else some badFrame

/-! ### No read outside the input -/

/-- A decoder that reads only inside its input, whose only error is `bad_frame`, and whose result has
the type `typ`. -/
def Answers (typ : Option UInt8) (x : Option (Except ErrorCode Decoded)) : Prop :=
  ∃ r, x = some r ∧ (∀ err, r = .error err → err = Errc.badFrame.code) ∧
    ∀ d, r = .ok d → typ = some d.typ

theorem answers_badFrame {typ : Option UInt8} : Answers typ (some badFrame) := by
  refine ⟨_, rfl, fun err h => ?_, nofun⟩
  cases h
  rfl

theorem answers_ok {typ : Option UInt8} {d : Decoded} (h : typ = some d.typ) :
    Answers typ (some (.ok d)) := by
  refine ⟨_, rfl, nofun, fun d' h' => ?_⟩
  cases h'
  exact h

theorem answers_bind {typ : Option UInt8} {α : Type} {x : Option α}
    {f : α → Option (Except ErrorCode Decoded)} (hx : x.isSome = true)
    (hf : ∀ a, x = some a → Answers typ (f a)) : Answers typ (x >>= f) := by
  obtain ⟨a, rfl⟩ := Option.isSome_iff_exists.mp hx
  exact hf a rfl

theorem at?_isSome {n i : ℕ} {b : Bytes} (h : i + n ≤ b.length) :
    (Block.at? n b i).isSome = true := by
  have hlen : ((b.drop i).take n).length = n := by
    rw [List.length_take, List.length_drop]
    omega
  rw [Block.at?_of_sub? (x := ⟨(b.drop i).take n, hlen⟩) (Bytes.sub?_of_le h)]
  rfl

theorem sub?_isSome {n i : ℕ} {b : Bytes} (h : i + n ≤ b.length) : (b.sub? i n).isSome = true := by
  rw [Bytes.sub?_of_le h]
  rfl

theorem answers_decodeOffer? {t : Option UInt8} (h : t = some kTypeOffer) (b : Bytes) :
    Answers t (decodeOffer? b) := by
  unfold decodeOffer?
  split
  · exact answers_badFrame
  · rename_i hlen
    simp only [kOfferFixedLen, kHeaderLen, kIdLen] at hlen
    refine answers_bind (at?_isSome (by simp only [kIdLen]; omega)) fun id _ => ?_
    refine answers_bind (sub?_isSome (by omega)) fun size _ => ?_
    refine answers_bind (at?_isSome (by omega)) fun hash _ => ?_
    refine answers_bind (sub?_isSome (by omega)) fun nlen _ => ?_
    split
    · exact answers_badFrame
    · rename_i hfit
      simp only [kOfferFixedLen, kHeaderLen, kIdLen] at hfit
      exact answers_bind (sub?_isSome (by omega)) fun name _ => answers_ok h

theorem answers_decodeOffset? {t : Option UInt8} {typ : UInt8} (h : t = some typ) {len : ℕ}
    (hlen : 29 ≤ len) (b : Bytes) : Answers t (decodeOffset? typ len b) := by
  unfold decodeOffset?
  split
  · exact answers_badFrame
  · refine answers_bind (at?_isSome (by simp only [kIdLen]; omega)) fun id _ => ?_
    exact answers_bind (sub?_isSome (by omega)) fun offset _ => answers_ok h

theorem answers_decodeReason? {t : Option UInt8} {typ : UInt8} (h : t = some typ) {fixed : ℕ}
    (hfixed : 23 ≤ fixed) (b : Bytes) : Answers t (decodeReason? typ fixed b) := by
  unfold decodeReason?
  split
  · exact answers_badFrame
  · refine answers_bind (at?_isSome (by simp only [kIdLen]; omega)) fun id _ => ?_
    refine answers_bind (sub?_isSome (by omega)) fun nlen _ => ?_
    split
    · exact answers_badFrame
    · exact answers_bind (sub?_isSome (by omega)) fun reason _ => answers_ok h

theorem answers_decodeChunk? {t : Option UInt8} (h : t = some kTypeChunk) (b : Bytes) :
    Answers t (decodeChunk? b) := by
  unfold decodeChunk?
  split
  · exact answers_badFrame
  · rename_i hlen
    simp only [kChunkFixedLen, kHeaderLen, kIdLen] at hlen
    refine answers_bind (at?_isSome (by simp only [kIdLen]; omega)) fun id _ => ?_
    refine answers_bind (sub?_isSome (by omega)) fun offset _ => ?_
    exact answers_bind (sub?_isSome (by omega)) fun data _ => answers_ok h

theorem answers_decodeDone? {t : Option UInt8} (h : t = some kTypeDone) (b : Bytes) :
    Answers t (decodeDone? b) := by
  unfold decodeDone?
  split
  · exact answers_badFrame
  · rename_i hlen
    simp only [kDoneLen, kHeaderLen, kIdLen] at hlen
    refine answers_bind (at?_isSome (by simp only [kIdLen]; omega)) fun id _ => ?_
    refine answers_bind (by simp; omega) fun ok _ => ?_
    exact answers_bind (at?_isSome (by omega)) fun hash _ => answers_ok h

theorem answers_decodeFrame? (b : Bytes) : Answers b[4]? (decodeFrame? b) := by
  unfold decodeFrame?
  split
  · exact answers_badFrame
  · rename_i hlen
    simp only [kHeaderLen] at hlen
    refine answers_bind (sub?_isSome (by omega)) fun magic _ => ?_
    split
    · exact answers_badFrame
    · refine answers_bind (by simp; omega) fun typ htyp => ?_
      split_ifs with hoffer haccept hreject habort hchunk hack hdone
      · exact answers_decodeOffer? (hoffer ▸ htyp) b
      · exact answers_decodeOffset? (haccept ▸ htyp) (by decide) b
      · exact answers_decodeReason? (hreject ▸ htyp) (by decide) b
      · exact answers_decodeReason? (habort ▸ htyp) (by decide) b
      · exact answers_decodeChunk? (hchunk ▸ htyp) b
      · exact answers_decodeOffset? (hack ▸ htyp) (by decide) b
      · exact answers_decodeDone? (hdone ▸ htyp) b
      · exact answers_badFrame

/-- `decode_frame` never reads outside its input. -/
theorem decodeFrame?_isSome (b : Bytes) : (decodeFrame? b).isSome = true := by
  obtain ⟨r, hr, _⟩ := answers_decodeFrame? b
  rw [hr]
  rfl

/-- `decode_frame`. -/
def decodeFrame (b : Bytes) : Except ErrorCode Decoded :=
  (decodeFrame? b).get (decodeFrame?_isSome b)

theorem decodeFrame_of_decodeFrame? {b : Bytes} {r : Except ErrorCode Decoded}
    (h : decodeFrame? b = some r) : decodeFrame b = r := by
  simp only [decodeFrame, h, Option.get_some]

/-- The only error of `decode_frame` is `bad_frame`. -/
theorem eq_badFrame_of_decodeFrame {b : Bytes} {err : ErrorCode} (h : decodeFrame b = .error err) :
    err = Errc.badFrame.code := by
  obtain ⟨r, hr, hbad, _⟩ := answers_decodeFrame? b
  exact hbad err ((decodeFrame_of_decodeFrame? hr).symm.trans h)

/-- `bad_frame`, however it was reached, is a failure. -/
theorem failed_of_decodeFrame {msg : Bytes} {err : ErrorCode} (h : decodeFrame msg = .error err) :
    err.failed = true := by
  rw [eq_badFrame_of_decodeFrame h]
  rfl

/-- The type of a decoded frame is its fifth byte. -/
theorem type_of_decodeFrame {b : Bytes} {d : Decoded} (h : decodeFrame b = .ok d) :
    b[4]? = some d.typ := by
  obtain ⟨r, hr, _, htyp⟩ := answers_decodeFrame? b
  exact htyp d ((decodeFrame_of_decodeFrame? hr).symm.trans h)

/-! ## Encoding -/

/-- What every encoder starts with: the magic, the type and the id. -/
def frame (typ : UInt8) (id : ID) (body : Bytes) : Bytes := (kMagic ++ [typ]) ++ id.1 ++ body

/-- `encode_offer`. -/
def encodeOffer (m : Meta) : Except ErrorCode Bytes :=
  if m.size < 0 then .error Errc.sizeMismatch.code
  else if m.name.length > 0xffff then .error Errc.badFrame.code
  else .ok (frame kTypeOffer m.id (putBe64 m.size ++ m.hash.1 ++ putBe16 m.name.length ++ m.name))

/-- `encode_accept`. -/
def encodeAccept (id : ID) (resume : ℤ) : Bytes := frame kTypeAccept id (putBe64 resume)

/-- The cut reason of `encode_reject` and `encode_abort`, with its length in front. -/
def encodeReason (reason : Bytes) : Bytes :=
  let r := reason.take 0xffff
  putBe16 r.length ++ r

/-- `encode_reject`. -/
def encodeReject (id : ID) (reason : Bytes) : Bytes := frame kTypeReject id (encodeReason reason)

/-- `encode_chunk`. -/
def encodeChunk (id : ID) (offset : ℤ) (data : Bytes) : Bytes :=
  frame kTypeChunk id (putBe64 offset ++ data)

/-- `encode_ack`. -/
def encodeAck (id : ID) (cum : ℤ) : Bytes := frame kTypeAck id (putBe64 cum)

/-- `encode_done`. -/
def encodeDone (id : ID) (ok : Bool) (hash : Hash) : Bytes :=
  frame kTypeDone id ([if ok then 1 else 0] ++ hash.1)

/-- `encode_abort`. -/
def encodeAbort (id : ID) (reason : Bytes) : Bytes := frame kTypeAbort id (encodeReason reason)

/-! ## Decoding what was encoded -/

theorem length_frame (typ : UInt8) (id : ID) (body : Bytes) :
    (frame typ id body).length = 21 + body.length := by
  simp [frame, kMagic, id.2, kIdLen]
  omega

theorem sub?_frame_magic (typ : UInt8) (id : ID) (body : Bytes) :
    (frame typ id body).sub? 0 4 = some kMagic := by
  rw [frame, List.append_assoc, List.append_assoc]
  exact Bytes.sub?_append_left kMagic _

theorem getElem?_frame_type (typ : UInt8) (id : ID) (body : Bytes) :
    (frame typ id body)[4]? = some typ := rfl

theorem type_of_decodeFrame_frame {typ : UInt8} {id : ID} {body : Bytes} {d : Decoded}
    (h : decodeFrame (frame typ id body) = .ok d) : d.typ = typ := by
  have hbyte := type_of_decodeFrame h
  rw [getElem?_frame_type] at hbyte
  exact (Option.some.inj hbyte).symm

theorem type_eq_of_frame_eq {typ typ' : UInt8} {id id' : ID} {body body' : Bytes}
    (h : frame typ id body = frame typ' id' body') : typ = typ' := by
  have hbyte := getElem?_frame_type typ id body
  rw [h, getElem?_frame_type] at hbyte
  exact (Option.some.inj hbyte).symm

theorem at?_frame_id (typ : UInt8) (id : ID) (body : Bytes) :
    Block.at? kIdLen (frame typ id body) 5 = some id := by
  refine Block.at?_of_sub? ?_
  have hread := Bytes.sub?_append_right (kMagic ++ [typ]) (id.1 ++ body) 0 id.1.length
  rw [Bytes.sub?_append_left, id.2] at hread
  rw [frame, List.append_assoc]
  exact hread

/-- Behind the id a frame is its body. -/
theorem sub?_frame_body (typ : UInt8) (id : ID) (body : Bytes) (i n : ℕ) :
    (frame typ id body).sub? (21 + i) n = body.sub? i n := by
  have hlen : ((kMagic ++ [typ]) ++ id.1).length = 21 := by
    simp [kMagic, id.2, kIdLen]
  have hread := Bytes.sub?_append_right ((kMagic ++ [typ]) ++ id.1) body i n
  rwa [hlen] at hread

theorem getBe64_putBe64 {v : ℤ} (hlo : -2 ^ 63 ≤ v) (hhi : v < 2 ^ 63) :
    getBe64 (putBe64 v) = v :=
  Bytes.getBeInt_putBeInt (by norm_num; omega) (by norm_num; omega)

theorem getBe16_putBe16 {n : ℕ} (h : n ≤ 0xffff) : getBe16 (putBe16 n) = n :=
  Bytes.getBe_putBe_of_lt (by norm_num; omega)

/-- A well-formed header leads to the decoder of its type. -/
theorem decodeFrame?_frame (typ : UInt8) (id : ID) (body : Bytes) :
    decodeFrame? (frame typ id body) =
      if typ = kTypeOffer then decodeOffer? (frame typ id body)
      else if typ = kTypeAccept then decodeOffset? kTypeAccept kAcceptLen (frame typ id body)
      else if typ = kTypeReject then decodeReason? kTypeReject kRejectFixedLen (frame typ id body)
      else if typ = kTypeAbort then decodeReason? kTypeAbort kAbortFixedLen (frame typ id body)
      else if typ = kTypeChunk then decodeChunk? (frame typ id body)
      else if typ = kTypeAck then decodeOffset? kTypeAck kAckLen (frame typ id body)
      else if typ = kTypeDone then decodeDone? (frame typ id body)
      else some badFrame := by
  have hlen := length_frame typ id body
  rw [decodeFrame?, if_neg (by rw [hlen]; simp only [kHeaderLen]; omega)]
  simp only [sub?_frame_magic, getElem?_frame_type, Option.bind_eq_bind, Option.bind_some, ne_eq,
    not_true_eq_false, if_false]

/-- An id and an offset, in both frames that carry just these. -/
theorem decodeOffset?_frame (typ : UInt8) (id : ID) {v : ℤ} (hlo : -2 ^ 63 ≤ v)
    (hhi : v < 2 ^ 63) :
    decodeOffset? typ kAcceptLen (frame typ id (putBe64 v)) =
      some (.ok { typ := typ, id := id, offset := v }) := by
  have hlen : (frame typ id (putBe64 v)).length = kAcceptLen := by
    rw [length_frame]
    rfl
  have hoff : (frame typ id (putBe64 v)).sub? 21 8 = some (putBe64 v) := by
    have hbody := Bytes.sub?_append_left (putBe64 v) []
    rw [List.append_nil] at hbody
    exact (sub?_frame_body typ id (putBe64 v) 0 8).trans hbody
  rw [decodeOffset?, if_neg (by simp [hlen])]
  simp only [at?_frame_id, hoff, Option.bind_eq_bind, Option.bind_some, getBe64_putBe64 hlo hhi]

theorem decodeFrame_encodeAccept (id : ID) {v : ℤ} (hlo : -2 ^ 63 ≤ v) (hhi : v < 2 ^ 63) :
    decodeFrame (encodeAccept id v) = .ok { typ := kTypeAccept, id := id, offset := v } := by
  refine decodeFrame_of_decodeFrame? ?_
  rw [encodeAccept, decodeFrame?_frame]
  exact decodeOffset?_frame kTypeAccept id hlo hhi

theorem decodeFrame_encodeAck (id : ID) {v : ℤ} (hlo : -2 ^ 63 ≤ v) (hhi : v < 2 ^ 63) :
    decodeFrame (encodeAck id v) = .ok { typ := kTypeAck, id := id, offset := v } := by
  refine decodeFrame_of_decodeFrame? ?_
  rw [encodeAck, decodeFrame?_frame]
  exact decodeOffset?_frame kTypeAck id hlo hhi

theorem decodeFrame_encodeChunk (id : ID) {v : ℤ} (hlo : -2 ^ 63 ≤ v) (hhi : v < 2 ^ 63)
    (data : Bytes) :
    decodeFrame (encodeChunk id v data) =
      .ok { typ := kTypeChunk, id := id, offset := v, data := data } := by
  refine decodeFrame_of_decodeFrame? ?_
  have hlen : (encodeChunk id v data).length = 29 + data.length := by
    rw [encodeChunk, length_frame, List.length_append, putBe64, Bytes.length_putBeInt]
    omega
  have hoff : (encodeChunk id v data).sub? 21 8 = some (putBe64 v) :=
    (sub?_frame_body kTypeChunk id _ 0 8).trans (Bytes.sub?_append_left (putBe64 v) data)
  have hdata : (encodeChunk id v data).sub? 29 data.length = some data := by
    have hbody := Bytes.sub?_append_right (putBe64 v) data 0 data.length
    have hfront := Bytes.sub?_append_left data []
    rw [List.append_nil] at hfront
    exact (sub?_frame_body kTypeChunk id _ 8 data.length).trans (hbody.trans hfront)
  have hid : Block.at? kIdLen (encodeChunk id v data) 5 = some id := at?_frame_id ..
  rw [encodeChunk, decodeFrame?_frame]
  change decodeChunk? (encodeChunk id v data) = _
  rw [decodeChunk?, if_neg (by rw [hlen]; simp only [kChunkFixedLen, kHeaderLen, kIdLen]; omega)]
  simp only [hid, hoff, hlen, Nat.add_sub_cancel_left, hdata, Option.bind_eq_bind,
    Option.bind_some, getBe64_putBe64 hlo hhi]

/-- The reason of a Reject or an Abort, cut to what its length field can say. -/
theorem decodeReason?_frame (typ : UInt8) (id : ID) (reason : Bytes) :
    decodeReason? typ kRejectFixedLen (frame typ id (encodeReason reason)) =
      some (.ok { typ := typ, id := id, reason := reason.take 0xffff }) := by
  set r := reason.take 0xffff with hr
  have hle : r.length ≤ 0xffff := List.length_take_le _ _
  have hlen : (frame typ id (putBe16 r.length ++ r)).length = 23 + r.length := by
    rw [length_frame, List.length_append, putBe16, Bytes.length_putBe]
    omega
  have hnlen : (frame typ id (putBe16 r.length ++ r)).sub? 21 2 = some (putBe16 r.length) :=
    (sub?_frame_body typ id _ 0 2).trans (Bytes.sub?_append_left (putBe16 r.length) r)
  have hreason : (frame typ id (putBe16 r.length ++ r)).sub? 23 r.length = some r := by
    have hbody := Bytes.sub?_append_right (putBe16 r.length) r 0 r.length
    have hfront := Bytes.sub?_append_left r []
    rw [List.append_nil] at hfront
    exact (sub?_frame_body typ id _ 2 r.length).trans (hbody.trans hfront)
  have hfixed : kRejectFixedLen = 23 := rfl
  rw [show encodeReason reason = putBe16 r.length ++ r from rfl, decodeReason?, hfixed,
    if_neg (by omega)]
  simp only [at?_frame_id, hnlen, getBe16_putBe16 hle, hlen, hreason, Option.bind_eq_bind,
    Option.bind_some, ne_eq, not_true_eq_false, if_false]

theorem decodeFrame_encodeReject (id : ID) (reason : Bytes) :
    decodeFrame (encodeReject id reason) =
      .ok { typ := kTypeReject, id := id, reason := reason.take 0xffff } := by
  refine decodeFrame_of_decodeFrame? ?_
  rw [encodeReject, decodeFrame?_frame]
  exact decodeReason?_frame kTypeReject id reason

theorem decodeFrame_encodeAbort (id : ID) (reason : Bytes) :
    decodeFrame (encodeAbort id reason) =
      .ok { typ := kTypeAbort, id := id, reason := reason.take 0xffff } := by
  refine decodeFrame_of_decodeFrame? ?_
  rw [encodeAbort, decodeFrame?_frame]
  exact decodeReason?_frame kTypeAbort id reason

/-- A Done frame with any `ok` byte: everything but zero means yes. -/
theorem decodeFrame_done (id : ID) (x : UInt8) (hash : Hash) :
    decodeFrame (frame kTypeDone id ([x] ++ hash.1)) =
      .ok { typ := kTypeDone, id := id, ok := x != 0, hash := hash } := by
  refine decodeFrame_of_decodeFrame? ?_
  set b := frame kTypeDone id ([x] ++ hash.1) with hb
  have hlen : b.length = kDoneLen := by
    rw [hb, length_frame, List.length_append, hash.2]
    rfl
  have hhash : Block.at? 32 b 22 = some hash := by
    refine Block.at?_of_sub? ?_
    have hbody := Bytes.sub?_append_right [x] hash.1 0 32
    have hfront := Bytes.sub?_append_left hash.1 []
    rw [List.append_nil, hash.2] at hfront
    exact (sub?_frame_body kTypeDone id _ 1 32).trans (hbody.trans hfront)
  have hok : b[21]? = some x := by
    have hpre : ((kMagic ++ [kTypeDone]) ++ id.1).length = 21 := by
      simp [kMagic, id.2, kIdLen]
    rw [hb, frame, List.getElem?_append_right (by omega), hpre]
    rfl
  have hid : Block.at? kIdLen b 5 = some id := at?_frame_id ..
  rw [hb, decodeFrame?_frame, ← hb]
  change decodeDone? b = _
  rw [decodeDone?, if_neg (by simp [hlen])]
  simp only [hid, hok, hhash, Option.bind_eq_bind, Option.bind_some]

theorem decodeFrame_encodeDone (id : ID) (ok : Bool) (hash : Hash) :
    decodeFrame (encodeDone id ok hash) =
      .ok { typ := kTypeDone, id := id, ok := ok, hash := hash } := by
  rw [encodeDone, decodeFrame_done]
  cases ok <;> rfl

theorem encodeDone_inj {id id' : ID} {ok ok' : Bool} {hash hash' : Hash}
    (h : encodeDone id ok hash = encodeDone id' ok' hash') : id = id' ∧ ok = ok' ∧ hash = hash' := by
  have hdec := decodeFrame_encodeDone id ok hash
  rw [h, decodeFrame_encodeDone] at hdec
  have hdec' := Except.ok.inj hdec
  exact ⟨(congrArg Decoded.id hdec').symm, (congrArg Decoded.ok hdec').symm,
    (congrArg Decoded.hash hdec').symm⟩

/-- The body of an Offer: size, hash and name. -/
def offerBody (size : ℤ) (hash : Hash) (name : Bytes) : Bytes :=
  putBe64 size ++ hash.1 ++ putBe16 name.length ++ name

/-- An Offer frame with any size field, also one that `encode_offer` refuses. -/
theorem decodeFrame_offer (id : ID) {size : ℤ} (hlo : -2 ^ 63 ≤ size) (hhi : size < 2 ^ 63)
    (hash : Hash) {name : Bytes} (hname : name.length ≤ 0xffff) :
    decodeFrame (frame kTypeOffer id (offerBody size hash name)) =
      .ok { typ := kTypeOffer, id := id, info := ⟨id, name, size, hash⟩ } := by
  refine decodeFrame_of_decodeFrame? ?_
  set body := offerBody size hash name with hbody
  have hbodylen : body.length = 42 + name.length := by
    simp only [hbody, offerBody, List.length_append, putBe64, putBe16, Bytes.length_putBeInt,
      Bytes.length_putBe, hash.2]
  have hlen : (frame kTypeOffer id body).length = 63 + name.length := by
    rw [length_frame, hbodylen]
    omega
  -- the field `x` behind the fields `pre` of the body
  have hsub : ∀ (pre x post : Bytes) (i n : ℕ), body = pre ++ (x ++ post) → pre.length = i →
      x.length = n → (frame kTypeOffer id body).sub? (21 + i) n = some x := by
    rintro pre x post i n hb rfl rfl
    rw [sub?_frame_body, hb]
    exact (Bytes.sub?_append_right pre (x ++ post) 0 x.length).trans (Bytes.sub?_append_left x post)
  have hsz : (frame kTypeOffer id body).sub? 21 8 = some (putBe64 size) :=
    hsub [] (putBe64 size) (hash.1 ++ putBe16 name.length ++ name) 0 8 (by simp [hbody, offerBody])
      rfl rfl
  have hhash : Block.at? 32 (frame kTypeOffer id body) 29 = some hash :=
    Block.at?_of_sub? (hsub (putBe64 size) hash.1 (putBe16 name.length ++ name) 8 32
      (by simp [hbody, offerBody]) rfl hash.2)
  have hnlen : (frame kTypeOffer id body).sub? 61 2 = some (putBe16 name.length) :=
    hsub (putBe64 size ++ hash.1) (putBe16 name.length) name 40 2 (by simp [hbody, offerBody])
      (by simp [putBe64, hash.2]) rfl
  have hnm : (frame kTypeOffer id body).sub? 63 name.length = some name :=
    hsub (putBe64 size ++ hash.1 ++ putBe16 name.length) name [] 42 _ (by simp [hbody, offerBody])
      (by simp [putBe64, putBe16, hash.2]) rfl
  have hfixed : kOfferFixedLen = 63 := rfl
  rw [decodeFrame?_frame]
  change decodeOffer? (frame kTypeOffer id body) = _
  rw [decodeOffer?, hfixed, if_neg (by omega)]
  simp only [at?_frame_id, hsz, hhash, hnlen, getBe16_putBe16 hname, hlen, hnm,
    Option.bind_eq_bind, Option.bind_some, ne_eq, not_true_eq_false, if_false,
    getBe64_putBe64 hlo hhi]

/-- What `encode_offer` lets through, and what it makes of it. -/
theorem encodeOffer_ok {m : Meta} {b : Bytes} (h : encodeOffer m = .ok b) :
    0 ≤ m.size ∧ m.name.length ≤ 0xffff ∧
      b = frame kTypeOffer m.id (offerBody m.size m.hash m.name) := by
  unfold encodeOffer at h
  split at h
  · cases h
  · rename_i hsize
    split at h
    · cases h
    · rename_i hname
      exact ⟨not_lt.mp hsize, Nat.le_of_not_lt hname, (Except.ok.inj h).symm⟩

/-- What `encode_offer` takes. -/
theorem exists_encodeOffer {m : Meta} (hsize : 0 ≤ m.size) (hname : m.name.length ≤ 0xffff) :
    ∃ b, encodeOffer m = .ok b := by
  rw [encodeOffer, if_neg (not_lt.mpr hsize), if_neg (not_lt.mpr hname)]
  exact ⟨_, rfl⟩

theorem decodeFrame_encodeOffer {m : Meta} {b : Bytes} (hhi : m.size < 2 ^ 63)
    (h : encodeOffer m = .ok b) :
    decodeFrame b = .ok { typ := kTypeOffer, id := m.id, info := m } := by
  obtain ⟨hsize, hname, rfl⟩ := encodeOffer_ok h
  exact decodeFrame_offer m.id (by omega) hhi m.hash hname

end TcpDuplex.Transfer
