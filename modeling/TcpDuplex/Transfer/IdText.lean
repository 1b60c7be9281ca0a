import TcpDuplex.Transfer.Codec
import Mathlib.Data.Nat.Digits.Defs

/-!
# The text form of a transfer id (`id_to_string`, `parse_id`)

An id is written through an `std::ostringstream`, byte after byte as a hexadecimal integer of width two.
It is read back two characters at a time. A string is a byte string; a `char` is signed, so a byte of
`0x80` or above is a negative one.

`parseId_text` is the whole relation between the two: reading undoes writing, exactly the strings of 32
hexadecimal digits are read, and writing what was read lower-cases its letters.
-/

namespace TcpDuplex.Transfer

/-! ## `std::ostringstream` -/

/-- The base of the integers that a stream writes. -/
inductive Base where
  | dec
  | hex
  deriving DecidableEq

/-- An `std::ostringstream`: what was written, and the settings of the formatted output. -/
structure OStringStream where
  str : Bytes := []
  base : Base := .dec
  fill : UInt8 := ' '.toUInt8
  width : ℕ := 0

namespace OStringStream

/-- The characters of an `int`: with its sign in base ten, as an `unsigned int` in base sixteen. -/
def digits (base : Base) (v : Int32) : Bytes :=
  match base with
  | .hex => (Nat.toDigits 16 v.toUInt32.toNat).map Char.toUInt8
  | .dec =>
    (if v < 0 then ['-'.toUInt8] else []) ++ (Nat.toDigits 10 v.toInt.natAbs).map Char.toUInt8

/-- `oss << std::hex`. -/
def hex (oss : OStringStream) : OStringStream := { oss with base := .hex }

/-- `oss << std::setfill(c)`. -/
def setfill (oss : OStringStream) (c : UInt8) : OStringStream := { oss with fill := c }

/-- `oss << std::setw(n)`. -/
def setw (oss : OStringStream) (n : ℕ) : OStringStream := { oss with width := n }

/-- `oss << v` for an `int`. The width holds for this one output. -/
def putInt (oss : OStringStream) (v : Int32) : OStringStream :=
  { oss with str := oss.str ++ (digits oss.base v).leftpad oss.width oss.fill, width := 0 }

end OStringStream

/-! ## The two functions -/

/-- `id_to_string`. -/
def idToString (id : ID) : Bytes :=
  let oss : OStringStream := {}
  let oss := oss.hex.setfill '0'.toUInt8
  (id.1.foldl (fun oss b => (oss.setw 2).putInt b.toUInt32.toInt32) oss).str

/-- The lambda `hex` of `parse_id`. -/
def hex (c : Int8) : Int32 :=
  if '0'.toUInt8.toInt8 ≤ c ∧ c ≤ '9'.toUInt8.toInt8 then
    c.toInt32 - '0'.toUInt8.toInt8.toInt32
  else if 'a'.toUInt8.toInt8 ≤ c ∧ c ≤ 'f'.toUInt8.toInt8 then
    c.toInt32 - 'a'.toUInt8.toInt8.toInt32 + 10
  else if 'A'.toUInt8.toInt8 ≤ c ∧ c ≤ 'F'.toUInt8.toInt8 then
    c.toInt32 - 'A'.toUInt8.toInt8.toInt32 + 10
  else -1

/-- One round of the loop of `parse_id`: the byte of two characters. -/
def parseByte (c d : UInt8) : Option UInt8 :=
  let hi := hex c.toInt8
  let lo := hex d.toInt8
  if hi < 0 ∨ lo < 0 then none else some ((hi <<< 4) ||| lo).toUInt32.toUInt8

/-- The loop of `parse_id`, two characters a round. -/
def parseBytes : Bytes → Option Bytes
  | c :: d :: s => do
    let b ← parseByte c d
    let rest ← parseBytes s
    return b :: rest
  | _ => some []

theorem length_of_parseBytes {s b : Bytes} (h : parseBytes s = some b) : b.length = s.length / 2 := by
  fun_induction parseBytes s generalizing b with
  | case1 c d s ih =>
      simp only [Option.bind_eq_bind, Option.bind_eq_some_iff, Option.pure_def, Option.some_inj] at h
      obtain ⟨x, -, rest, hrest, rfl⟩ := h
      rw [List.length_cons, ih hrest, List.length_cons, List.length_cons]
      omega
  | case2 s hshort =>
      obtain rfl := Option.some_inj.mp h
      match s, hshort with
      | [], _ => rfl
      | [_], _ => simp
      | c :: d :: s, hshort => exact absurd rfl (hshort c d s)

/-- `parse_id`. -/
def parseId (s : Bytes) : Option ID :=
  if hlen : s.length ≠ 32 then none
  else
    match hbytes : parseBytes s with
    | none => none
    | some b => some ⟨b, by rw [length_of_parseBytes hbytes, not_not.mp hlen]; rfl⟩

/-! ## Digits -/

/-- A hexadecimal digit of either case. -/
def IsHexDigit (c : UInt8) : Prop :=
  '0'.toUInt8 ≤ c ∧ c ≤ '9'.toUInt8 ∨ 'a'.toUInt8 ≤ c ∧ c ≤ 'f'.toUInt8 ∨
    'A'.toUInt8 ≤ c ∧ c ≤ 'F'.toUInt8

instance : DecidablePred IsHexDigit := fun _ =>
  inferInstanceAs (Decidable (_ ∧ _ ∨ _ ∧ _ ∨ _ ∧ _))

/-- A character with the letters lower-cased. -/
def toLower (c : UInt8) : UInt8 := if 'A'.toUInt8 ≤ c ∧ c ≤ 'Z'.toUInt8 then c + 32 else c

/-- The digit that a stream writes for a number below sixteen. -/
def hexDigit (n : ℕ) : UInt8 := (Nat.digitChar n).toUInt8

/-- `hex` gives the value of a digit, and a negative number for any other character. -/
theorem hex_spec (c : UInt8) :
    (IsHexDigit c ∧ ∃ n < 16, hex c.toInt8 = Int32.ofNat n ∧ hexDigit n = toLower c) ∨
      ¬IsHexDigit c ∧ hex c.toInt8 < 0 := by
  have hall : ∀ i : Fin 256,
      (IsHexDigit (UInt8.ofFin i) ∧ ∃ n < 16, hex (UInt8.ofFin i).toInt8 = Int32.ofNat n ∧
          hexDigit n = toLower (UInt8.ofFin i)) ∨
        ¬IsHexDigit (UInt8.ofFin i) ∧ hex (UInt8.ofFin i).toInt8 < 0 := by
    decide +kernel
  exact hall c.toFin

/-- What a digit below sixteen is read as. -/
theorem hex_hexDigit {n : ℕ} (h : n < 16) : hex (hexDigit n).toInt8 = Int32.ofNat n := by
  have hall : ∀ n < 16, hex (hexDigit n).toInt8 = Int32.ofNat n := by decide +kernel
  exact hall n h

/-- The two halves put together. -/
theorem join_halves {m n : ℕ} (hm : m < 16) (hn : n < 16) :
    ¬(Int32.ofNat m < 0 ∨ Int32.ofNat n < 0) ∧
      ((Int32.ofNat m <<< 4) ||| Int32.ofNat n).toUInt32.toUInt8 = UInt8.ofNat (16 * m + n) := by
  have hall : ∀ m < 16, ∀ n < 16, ¬(Int32.ofNat m < 0 ∨ Int32.ofNat n < 0) ∧
      ((Int32.ofNat m <<< 4) ||| Int32.ofNat n).toUInt32.toUInt8 = UInt8.ofNat (16 * m + n) := by
    decide +kernel
  exact hall m hm n hn

theorem parseByte_hexDigit {m n : ℕ} (hm : m < 16) (hn : n < 16) :
    parseByte (hexDigit m) (hexDigit n) = some (UInt8.ofNat (16 * m + n)) := by
  obtain ⟨hpos, hjoin⟩ := join_halves hm hn
  simp only [parseByte, hex_hexDigit hm, hex_hexDigit hn]
  rw [if_neg hpos, hjoin]

/-- Two characters are a byte if and only if both are digits, and the digits of that byte are the
characters in lower case. -/
theorem parseByte_cases (c d : UInt8) :
    (IsHexDigit c ∧ IsHexDigit d ∧ ∃ m n, m < 16 ∧ n < 16 ∧
        parseByte c d = some (UInt8.ofNat (16 * m + n)) ∧ hexDigit m = toLower c ∧
        hexDigit n = toLower d) ∨
      ¬(IsHexDigit c ∧ IsHexDigit d) ∧ parseByte c d = none := by
  rcases hex_spec c with ⟨hc, m, hm, hvalm, hlowm⟩ | ⟨hc, hneg⟩
  · rcases hex_spec d with ⟨hd, n, hn, hvaln, hlown⟩ | ⟨hd, hneg⟩
    · left
      refine ⟨hc, hd, m, n, hm, hn, ?_, hlowm, hlown⟩
      obtain ⟨hpos, hjoin⟩ := join_halves hm hn
      simp only [parseByte, hvalm, hvaln]
      rw [if_neg hpos, hjoin]
    · right
      exact ⟨fun h => hd h.2, if_pos (.inr hneg)⟩
  · right
    exact ⟨fun h => hc h.1, if_pos (.inl hneg)⟩

/-! ## What the stream writes -/

/-- A byte is written as its two digits: the width fills up what is missing in front. -/
theorem leftpad_digits (b : UInt8) :
    (OStringStream.digits .hex b.toUInt32.toInt32).leftpad 2 '0'.toUInt8 =
      [hexDigit (b.toNat / 16), hexDigit (b.toNat % 16)] := by
  have hb : b.toNat < 256 := b.toNat_lt
  have hval : b.toUInt32.toInt32.toUInt32.toNat = b.toNat := by simp
  rw [OStringStream.digits, hval]
  by_cases hsmall : b.toNat < 16
  · rw [Nat.toDigits_of_lt_base hsmall, Nat.div_eq_of_lt hsmall, Nat.mod_eq_of_lt hsmall]
    rfl
  · have hsplit : 16 * (b.toNat / 16) + b.toNat % 16 = b.toNat := by omega
    have hdigits := Nat.toDigits_append_toDigits (b := 16) (n := b.toNat / 16) (d := b.toNat % 16)
      (by omega) (by omega) (by omega)
    rw [hsplit, Nat.toDigits_of_lt_base (by omega), Nat.toDigits_of_lt_base (by omega)] at hdigits
    rw [← hdigits]
    rfl

/-- The digits of a byte string. -/
def hexText (b : Bytes) : Bytes := b.flatMap fun x => [hexDigit (x.toNat / 16), hexDigit (x.toNat % 16)]

/-- The loop of `id_to_string`: no byte sees the width that another one was written with. -/
theorem foldl_putInt (b : Bytes) (oss : OStringStream) (hbase : oss.base = .hex)
    (hfill : oss.fill = '0'.toUInt8) :
    (b.foldl (fun oss b => (oss.setw 2).putInt b.toUInt32.toInt32) oss).str = oss.str ++ hexText b := by
  induction b generalizing oss with
  | nil => simp [hexText]
  | cons x b ih =>
      rw [List.foldl_cons, ih ((oss.setw 2).putInt x.toUInt32.toInt32) hbase hfill]
      have hstr : ((oss.setw 2).putInt x.toUInt32.toInt32).str =
          oss.str ++ [hexDigit (x.toNat / 16), hexDigit (x.toNat % 16)] := by
        rw [← leftpad_digits, ← hbase, ← hfill]
        rfl
      rw [hstr, List.append_assoc]
      rfl

theorem idToString_eq (id : ID) : idToString id = hexText id.1 :=
  (foldl_putInt id.1 _ rfl rfl).trans (List.nil_append _)

theorem length_hexText (b : Bytes) : (hexText b).length = 2 * b.length := by
  simp [hexText, Nat.mul_comm]

/-! ## Reading it back -/

theorem parseBytes_hexText (b : Bytes) : parseBytes (hexText b) = some b := by
  induction b with
  | nil => rfl
  | cons x b ih =>
      have hx : x.toNat < 256 := x.toNat_lt
      have hjoin : UInt8.ofNat (16 * (x.toNat / 16) + x.toNat % 16) = x := by
        rw [Nat.div_add_mod, UInt8.ofNat_toNat]
      have hbyte := parseByte_hexDigit (m := x.toNat / 16) (n := x.toNat % 16) (by omega) (by omega)
      show parseBytes (hexDigit (x.toNat / 16) :: hexDigit (x.toNat % 16) :: hexText b) = _
      rw [parseBytes, hbyte, ih, hjoin]
      rfl

/-- A text of even length is read if and only if it consists of digits. What it is read as has the same
digits, in lower case. -/
theorem parseBytes_cases {s : Bytes} (heven : s.length % 2 = 0) :
    ((∀ c ∈ s, IsHexDigit c) ∧ ∃ b, parseBytes s = some b ∧ hexText b = s.map toLower) ∨
      (¬∀ c ∈ s, IsHexDigit c) ∧ parseBytes s = none := by
  fun_induction parseBytes s with
  | case1 c d s ih =>
      have heven' : s.length % 2 = 0 := by
        rw [List.length_cons, List.length_cons] at heven
        omega
      rcases parseByte_cases c d with ⟨hc, hd, m, n, hm, hn, hbyte, hlowm, hlown⟩ | ⟨hbad, hbyte⟩
      · rcases ih heven' with ⟨hall, b, hb, htext⟩ | ⟨hbad, hb⟩
        · left
          refine ⟨by simpa using ⟨hc, hd, hall⟩, UInt8.ofNat (16 * m + n) :: b, ?_, ?_⟩
          · rw [hbyte, hb]
            rfl
          · have hval : (UInt8.ofNat (16 * m + n)).toNat = 16 * m + n := by
              rw [UInt8.toNat_ofNat']
              omega
            have hdiv : (16 * m + n) / 16 = m := by omega
            have hmod : (16 * m + n) % 16 = n := by omega
            rw [List.map_cons, List.map_cons, ← hlowm, ← hlown, ← htext]
            simp only [hexText, List.flatMap_cons, hval, hdiv, hmod]
            rfl
        · right
          refine ⟨fun hall => hbad fun x hx => hall x (by simp [hx]), ?_⟩
          rw [hbyte, hb]
          rfl
      · right
        refine ⟨fun hall => hbad ⟨hall c (by simp), hall d (by simp)⟩, ?_⟩
        rw [hbyte]
        rfl
  | case2 s hshort =>
      match s, hshort with
      | [], _ => exact .inl ⟨by simp, [], rfl, rfl⟩
      | [_], _ => exact absurd heven (by simp)
      | c :: d :: s, hshort => exact absurd rfl (hshort c d s)

theorem parseId_of_parseBytes {s b : Bytes} (hlen : s.length = 32) (h : parseBytes s = some b) :
    ∃ hb : b.length = kIdLen, parseId s = some ⟨b, hb⟩ := by
  refine ⟨by rw [length_of_parseBytes h, hlen]; rfl, ?_⟩
  unfold parseId
  rw [dif_neg (not_not.mpr hlen)]
  split
  · rename_i hnone
    rw [h] at hnone
    cases hnone
  · rename_i b' hb'
    rw [h] at hb'
    obtain rfl := Option.some_inj.mp hb'
    rfl

theorem parseId_of_parseBytes_none {s : Bytes} (h : parseBytes s = none) : parseId s = none := by
  unfold parseId
  split_ifs
  · rfl
  · split
    · rfl
    · rename_i b hb
      rw [h] at hb
      cases hb

/-- Every id is read back from its text. A string is the text of an id if and only if it consists of 32
hexadecimal digits, of either case, and the text of that id is the string in lower case. -/
theorem parseId_text :
    (∀ id : ID, parseId (idToString id) = some id) ∧
      ∀ s : Bytes,
        ((∃ id, parseId s = some id) ↔ s.length = 32 ∧ ∀ c ∈ s, IsHexDigit c) ∧
          ∀ id, parseId s = some id → idToString id = s.map toLower := by
  refine ⟨fun id => ?_, fun s => ?_⟩
  · have hlen : (idToString id).length = 32 := by
      rw [idToString_eq, length_hexText, id.2]
      rfl
    have hbytes : parseBytes (idToString id) = some id.1 := by
      rw [idToString_eq, parseBytes_hexText]
    obtain ⟨_, hid⟩ := parseId_of_parseBytes hlen hbytes
    exact hid
  · by_cases hlen : s.length = 32
    · rcases parseBytes_cases (s := s) (by rw [hlen]) with ⟨hall, b, hb, htext⟩ | ⟨hbad, hb⟩
      · obtain ⟨hblen, hid⟩ := parseId_of_parseBytes hlen hb
        refine ⟨⟨fun _ => ⟨hlen, hall⟩, fun _ => ⟨_, hid⟩⟩, fun id hid' => ?_⟩
        rw [hid] at hid'
        obtain rfl := Option.some_inj.mp hid'
        rw [idToString_eq, htext]
      · have hnone := parseId_of_parseBytes_none hb
        refine ⟨⟨fun ⟨id, hid⟩ => ?_, fun h => absurd h.2 hbad⟩, fun id hid => ?_⟩
        all_goals
          rw [hnone] at hid
          cases hid
    · have hnone : parseId s = none := dif_pos hlen
      refine ⟨⟨fun ⟨id, hid⟩ => ?_, fun h => absurd h.1 hlen⟩, fun id hid => ?_⟩
      all_goals
        rw [hnone] at hid
        cases hid

end TcpDuplex.Transfer
