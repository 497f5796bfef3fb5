import Mathlib.Data.List.Basic
import DitaTopic.Proofs.Text.ByteOrder
import DitaTopic.Topic.Settings

/-!
# Escapes in link targets

Since the percent sign is kept, an encoded target is not decoded to the target it came from but to
what that target itself stands for. No byte that is written as an escape is a hexadecimal digit, and
an escape begins with a percent sign, which is no digit either: so behind a percent sign of the
target there are two digits after the encoding exactly if there were two before it.
-/

namespace DitaTopic

namespace Text

/-- Reading bytes one after the other from a position on gives those behind it. -/
theorem toList_loop (bytes : ByteArray) (i : Nat) (read : List UInt8) :
    ByteArray.toList.loop bytes i read = read.reverse ++ bytes.data.toList.drop i := by
  fun_induction ByteArray.toList.loop bytes i read with
  | case1 i read h ih =>
    have hi : i < bytes.data.toList.length := h
    have hbyte : bytes.get! i = bytes.data.toList[i] := by
      rw [ByteArray.get!, getElem!_pos bytes.data i h, Array.getElem_toList]
    rw [ih, List.drop_eq_getElem_cons hi, List.reverse_cons, List.append_assoc, hbyte]
    rfl
  | case2 i read h =>
    have hi : bytes.data.toList.length ≤ i := Nat.le_of_not_lt h
    rw [List.drop_eq_nil_of_le hi, List.append_nil]

theorem toList_toUTF8 (text : String) : text.toUTF8.toList = utf8 text := by
  rw [ByteArray.toList, toList_loop]
  rfl

/-- An ASCII character has one byte, which is its number. -/
theorem encodeChar_of_lt {c : Char} (h : c.toNat < 0x80) :
    String.utf8EncodeChar c = [UInt8.ofNat c.toNat] := by
  have hle : c.val.toNat ≤ 127 := Nat.le_of_lt_succ h
  rw [String.utf8EncodeChar]
  exact if_pos hle

namespace Percent

/-- Printable ASCII that may not stand in a URL. -/
def barred : List Char := " \"<>\x7b\x7d|\\^`".toList

/-- Printable ASCII, apart from what may not stand in a URL. -/
def MayStand (c : Char) : Prop := ' ' ≤ c ∧ c ≤ '~' ∧ c ∉ barred

instance : DecidablePred MayStand := fun c =>
  inferInstanceAs (Decidable (' ' ≤ c ∧ c ≤ '~' ∧ c ∉ barred))

theorem MayStand.lt {c : Char} (h : MayStand c) : c.toNat < 0x7F := Nat.lt_succ_of_le h.2.1

theorem lt_of_isKept {b : UInt8} (h : isKept b = true) : b.toNat < 0x7F := by
  simp only [isKept, Bool.and_eq_true, decide_eq_true_eq] at h
  exact h.1.2

theorem mayStand_iff : ∀ n < 0x7F, MayStand (Char.ofNat n) ↔ isKept (UInt8.ofNat n) = true := by
  decide +kernel

theorem hexDigit_mayStand : ∀ n < 16, MayStand (hexDigit n) := by decide

theorem encodeByte_mayStand (b : UInt8) : ∀ c ∈ encodeByte b, MayStand c := by
  intro c hc
  have hsize := b.toNat_lt
  rw [encodeByte] at hc
  split at hc
  · next hkept =>
    rw [List.mem_singleton.mp hc, mayStand_iff _ (lt_of_isKept hkept), UInt8.ofNat_toNat]
    exact hkept
  · simp only [List.mem_cons, List.not_mem_nil, or_false] at hc
    rcases hc with rfl | rfl | rfl
    · decide
    · exact hexDigit_mayStand _ (by omega)
    · exact hexDigit_mayStand _ (by omega)

theorem encode_mayStand (url : String) : ∀ c ∈ (encode url).toList, MayStand c := by
  intro c hc
  rw [encode, String.toList_ofList] at hc
  obtain ⟨b, -, hc⟩ := List.mem_flatMap.mp hc
  exact encodeByte_mayStand b c hc

/-- A character that may stand is written as it is. -/
theorem encodeByte_of_mayStand {c : Char} (h : MayStand c) :
    encodeByte (UInt8.ofNat c.toNat) = [c] := by
  have hlt := h.lt
  have hbyte : (UInt8.ofNat c.toNat).toNat = c.toNat := by
    rw [UInt8.toNat_ofNat']
    exact Nat.mod_eq_of_lt (by omega)
  have hkept : isKept (UInt8.ofNat c.toNat) = true := by
    rwa [← mayStand_iff _ hlt, Char.ofNat_toNat]
  rw [encodeByte, if_pos hkept, hbyte, Char.ofNat_toNat]

/-- A text in which all characters may stand is its own encoding. -/
theorem encode_of_mayStand {text : String} (h : ∀ c ∈ text.toList, MayStand c) :
    encode text = text := by
  have hchars : ∀ c ∈ text.toList, (String.utf8EncodeChar c).flatMap encodeByte = [c] := by
    intro c hc
    have hlt := (h c hc).lt
    rw [encodeChar_of_lt (by omega), List.flatMap_singleton, encodeByte_of_mayStand (h c hc)]
  rw [encode, toList_toUTF8, utf8_eq, List.flatMap_assoc, List.flatMap_congr hchars,
    List.flatMap_singleton', String.ofList_toList]

/-! ## Bytes that are decoded -/

/-- The value of a hexadecimal digit, upper or lower case. -/
def hexValue? (b : UInt8) : Option Nat :=
  if 0x30 ≤ b ∧ b ≤ 0x39 then some (b.toNat - 0x30)
  else if 0x41 ≤ b ∧ b ≤ 0x46 then some (b.toNat - 0x37)
  else if 0x61 ≤ b ∧ b ≤ 0x66 then some (b.toNat - 0x57)
  else none

/-- The byte that two bytes stand for if both are hexadecimal digits. -/
def hexPair? (high low : UInt8) : Option UInt8 :=
  (hexValue? high).bind fun h => (hexValue? low).map fun l => UInt8.ofNat (16 * h + l)

def percent : UInt8 := 0x25

/-- The byte that three bytes stand for if they are an escape. -/
def escaped? (first high low : UInt8) : Option UInt8 :=
  if first = percent then hexPair? high low else none

theorem escaped?_eq_some {first high low b : UInt8} :
    escaped? first high low = some b ↔ first = percent ∧ hexPair? high low = some b := by
  rw [escaped?]
  exact Option.ite_none_right_eq_some

/-- Bytes with every escape replaced by the byte it stands for, and all else kept. -/
def decode : List UInt8 → List UInt8
  | first :: high :: low :: rest =>
    match escaped? first high low with
    | some b => b :: decode rest
    | none => first :: decode (high :: low :: rest)
  | bytes => bytes

/-- Whether two hexadecimal digits come first. -/
def BeginsWithPair (bytes : List UInt8) : Prop :=
  ∃ high low rest b, bytes = high :: low :: rest ∧ hexPair? high low = some b

theorem not_beginsWithPair_of_length {bytes : List UInt8} (h : bytes.length < 2) :
    ¬ BeginsWithPair bytes := by
  rintro ⟨high, low, rest, b, rfl, -⟩
  simp only [List.length_cons] at h
  omega

theorem decode_escape {high low b : UInt8} (h : hexPair? high low = some b) (rest : List UInt8) :
    decode (percent :: high :: low :: rest) = b :: decode rest := by
  rw [decode, escaped?, if_pos rfl, h]

/-- A byte that begins no escape stands for itself. -/
theorem decode_cons {first : UInt8} {rest : List UInt8}
    (h : first = percent → ¬ BeginsWithPair rest) :
    decode (first :: rest) = first :: decode rest := by
  rcases rest with - | ⟨high, - | ⟨low, rest⟩⟩
  · rfl
  · rfl
  · have hnone : escaped? first high low = none := by
      rw [Option.eq_none_iff_forall_ne_some]
      intro b hescaped
      obtain ⟨hpercent, hpair⟩ := escaped?_eq_some.mp hescaped
      exact h hpercent ⟨high, low, rest, b, rfl, hpair⟩
    rw [decode, hnone]

/-! ## What is written, decoded -/

/-- The bytes of what is written for bytes. -/
def written (bytes : List UInt8) : List UInt8 :=
  bytes.flatMap fun b => (encodeByte b).map fun c => UInt8.ofNat c.toNat

theorem utf8_encode (url : String) : utf8 (encode url) = written (utf8 url) := by
  rw [encode, toList_toUTF8, utf8_eq, String.toList_ofList, List.flatMap_assoc, written]
  apply List.flatMap_congr
  intro b _
  rw [List.map_eq_flatMap]
  apply List.flatMap_congr
  intro c hc
  have hlt := (encodeByte_mayStand b c hc).lt
  exact encodeChar_of_lt (by omega)

theorem written_kept {b : UInt8} (h : isKept b = true) (rest : List UInt8) :
    written (b :: rest) = b :: written rest := by
  have hlt := lt_of_isKept h
  have hchar : (Char.ofNat b.toNat).toNat = b.toNat := by
    have hvalid : b.toNat.isValidChar := .inl (by omega)
    rw [Char.ofNat, dif_pos hvalid]
    rfl
  rw [written, List.flatMap_cons, encodeByte, if_pos h, List.map_singleton, hchar,
    UInt8.ofNat_toNat, ← written]
  rfl

/-- What is written as an escape is two digits behind a percent sign. -/
theorem written_escape {b : UInt8} (h : isKept b = false) (rest : List UInt8) :
    ∃ high low, hexPair? high low = some b ∧
      written (b :: rest) = percent :: high :: low :: written rest := by
  have hvalue : ∀ n < 16, hexValue? (UInt8.ofNat (hexDigit n).toNat) = some n := by decide
  have hsize := b.toNat_lt
  refine ⟨UInt8.ofNat (hexDigit (b.toNat / 16)).toNat, UInt8.ofNat (hexDigit (b.toNat % 16)).toNat,
    ?_, ?_⟩
  · rw [hexPair?, hvalue _ (by omega), hvalue _ (by omega), Option.bind_some, Option.map_some,
      Nat.div_add_mod, UInt8.ofNat_toNat]
  · rw [written, List.flatMap_cons, encodeByte, h]
    rfl

theorem isKept_of_hexValue? {b : UInt8} {value : Nat} (h : hexValue? b = some value) :
    isKept b = true := by
  have hall : ∀ n < 256, (hexValue? (UInt8.ofNat n)).isSome = true →
      isKept (UInt8.ofNat n) = true := by decide +kernel
  have hkept := hall b.toNat b.toNat_lt
  rw [UInt8.ofNat_toNat, h] at hkept
  exact hkept rfl

/-- A digit in front of what is written was there before. -/
theorem exists_of_written_eq {bytes rest : List UInt8} {digit : UInt8} {value : Nat}
    (h : written bytes = digit :: rest) (hdigit : hexValue? digit = some value) :
    ∃ rest', bytes = digit :: rest' ∧ written rest' = rest := by
  cases bytes with
  | nil => cases h
  | cons b bytes =>
    cases hkept : isKept b with
    | true =>
      rw [written_kept hkept] at h
      obtain ⟨rfl, hrest⟩ := List.cons.inj h
      exact ⟨bytes, rfl, hrest⟩
    | false =>
      obtain ⟨high, low, -, hwritten⟩ := written_escape hkept bytes
      rw [hwritten] at h
      obtain ⟨rfl, -⟩ := List.cons.inj h
      cases hdigit

theorem hexPair?_eq_some {high low b : UInt8} (h : hexPair? high low = some b) :
    ∃ highValue lowValue, hexValue? high = some highValue ∧ hexValue? low = some lowValue := by
  obtain ⟨highValue, hhigh, hlow⟩ := Option.bind_eq_some_iff.mp h
  obtain ⟨lowValue, hlow, -⟩ := Option.map_eq_some_iff.mp hlow
  exact ⟨highValue, lowValue, hhigh, hlow⟩

theorem beginsWithPair_of_written {bytes : List UInt8} (h : BeginsWithPair (written bytes)) :
    BeginsWithPair bytes := by
  obtain ⟨high, low, rest, b, hwritten, hpair⟩ := h
  obtain ⟨highValue, lowValue, hhigh, hlow⟩ := hexPair?_eq_some hpair
  obtain ⟨bytes, rfl, hbytes⟩ := exists_of_written_eq hwritten hhigh
  obtain ⟨bytes, rfl, -⟩ := exists_of_written_eq hbytes hlow
  exact ⟨high, low, bytes, b, rfl, hpair⟩

theorem isKept_percent : isKept percent = true := by decide

/-- What is written for a byte that begins no escape is decoded to that byte. -/
theorem decode_written_cons {first : UInt8} {rest : List UInt8}
    (h : first = percent → ¬ BeginsWithPair rest) :
    decode (written (first :: rest)) = first :: decode (written rest) := by
  cases hkept : isKept first with
  | false =>
    obtain ⟨high, low, hpair, hwritten⟩ := written_escape hkept rest
    rw [hwritten, decode_escape hpair]
  | true =>
    rw [written_kept hkept]
    exact decode_cons fun hpercent => mt beginsWithPair_of_written (h hpercent)

/-- What is written for bytes is decoded as the bytes themselves are. -/
theorem decode_written (bytes : List UInt8) : decode (written bytes) = decode bytes := by
  fun_induction decode bytes with
  | case1 first high low rest b hescaped ih =>
    obtain ⟨rfl, hpair⟩ := escaped?_eq_some.mp hescaped
    obtain ⟨highValue, lowValue, hhigh, hlow⟩ := hexPair?_eq_some hpair
    rw [written_kept isKept_percent, written_kept (isKept_of_hexValue? hhigh),
      written_kept (isKept_of_hexValue? hlow), decode_escape hpair, ih]
  | case2 first high low rest hescaped ih =>
    have hstray : first = percent → ¬ BeginsWithPair (high :: low :: rest) := by
      rintro hpercent ⟨_, _, _, b, hrest, hpair⟩
      cases hrest
      rw [escaped?_eq_some.mpr ⟨hpercent, hpair⟩] at hescaped
      cases hescaped
    rw [decode_written_cons hstray, ih]
  | case3 bytes hbytes =>
    have hnil : ¬ BeginsWithPair [] := not_beginsWithPair_of_length Nat.zero_lt_two
    rcases bytes with - | ⟨first, - | ⟨second, - | ⟨third, rest⟩⟩⟩
    · rfl
    · rw [decode_written_cons fun _ => hnil]
      rfl
    · have hone : ¬ BeginsWithPair [second] := not_beginsWithPair_of_length (Nat.lt_succ_self 1)
      rw [decode_written_cons fun _ => hone, decode_written_cons fun _ => hnil]
      rfl
    · exact absurd rfl (hbytes first second third rest)

end Percent

end Text

namespace Topic

open DitaTopic.Options
open DitaTopic.Text (utf8)
open DitaTopic.Text.Percent (MayStand decode)

/-- With encoding asked for, all characters of a target may stand in a URL. The target is decoded to
the same bytes as the URL it was made of, stray percent signs of the URL included, and to encode it
once more does not change it. -/
theorem encoded_target_stable {view : OptionView}
    (hencode : Key.percentEncodeUrls.resolve view = true) (url : String) :
    let target := (Settings.ofView view).href url
    (∀ c ∈ target.toList, MayStand c) ∧ decode (utf8 target) = decode (utf8 url) ∧
      (Settings.ofView view).href target = target := by
  have hhref : ∀ text, (Settings.ofView view).href text = Text.Percent.encode text :=
    fun _ => if_pos hencode
  simp only [hhref]
  have hstand := Text.Percent.encode_mayStand url
  refine ⟨hstand, ?_, Text.Percent.encode_of_mayStand hstand⟩
  rw [Text.Percent.utf8_encode, Text.Percent.decode_written]

def encoding : OptionView :=
  .ofSet (KeyedList.empty.insert "PERCENT_ENCODE_URLS" (.bool true))

/-- A percent sign with one digit behind it gets no second one from the escape that follows, and one
in front of an escape stays in front of it. -/
theorem encoded_target_stable_stray :
    let target := (Settings.ofView encoding).href "a b%4é%%41|"
    Key.percentEncodeUrls.resolve encoding = true ∧ target = "a%20b%4%C3%A9%%41%7C" ∧
      decode (utf8 target) = "a b%4é%A|".toList.flatMap String.utf8EncodeChar ∧
      decode (utf8 "a b%4é%%41|") = decode (utf8 target) ∧
      (Settings.ofView encoding).href target = target := by
  intro target
  have hencode : Key.percentEncodeUrls.resolve encoding = true := rfl
  obtain ⟨-, hsame, hstable⟩ := encoded_target_stable hencode "a b%4é%%41|"
  have htarget : target = "a%20b%4%C3%A9%%41%7C" := by decide +kernel
  have hbytes : decode (utf8 target) = "a b%4é%A|".toList.flatMap String.utf8EncodeChar := by
    decide +kernel
  exact ⟨hencode, htarget, hbytes, hsame.symm, hstable⟩

end Topic

end DitaTopic
