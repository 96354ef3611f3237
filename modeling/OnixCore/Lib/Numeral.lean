import Mathlib.Data.Nat.Digits.Lemmas
import OnixCore.Lib.Bytes
import OnixCore.Lib.Steps

/-!
# Numbers and bytes as text

Unsigned numbers written in a base up to ten, most significant digit first, and bytes written as
two hexadecimal digits. Both are read back as they were written (`parseUnsigned_numeral`,
`hexPairs_hexEncode`), and both are words.
-/

namespace OnixCore

namespace Numeral

def zero : UInt8 := 48

def plus : UInt8 := 43

def digitByte (d : ℕ) : UInt8 := UInt8.ofNat (48 + d)

def numeral (base n : ℕ) : Bytes :=
  if n = 0 then [zero] else (base.digits n).reverse.map digitByte

def digitValue (base : ℕ) (b : UInt8) : Option ℕ :=
  if 48 ≤ b.toNat ∧ b.toNat < 48 + base then some (b.toNat - 48) else none

def parseDigits (base : ℕ) (digits : Bytes) : Option ℕ :=
  digits.foldlM (fun value b => (digitValue base b).map (value * base + ·)) 0

/-- An unsigned number of `bits` bits. A plus sign may stand before its digits. -/
def parseUnsigned (base bits : ℕ) (text : Bytes) : Option ℕ :=
  let digits := if text.head? = some plus then text.tail else text
  if digits = [] then none else (parseDigits base digits).filter (· < 2 ^ bits)

section Numerals

variable {base n : ℕ}

theorem toNat_digitByte {d : ℕ} (h : d < 10) : (digitByte d).toNat = 48 + d := by
  rw [digitByte, UInt8.toNat_ofNat']
  omega

theorem digitValue_digitByte {d : ℕ} (hbase : base ≤ 10) (h : d < base) :
    digitValue base (digitByte d) = some d := by
  rw [digitValue, toNat_digitByte (by omega), if_pos (by omega)]
  simp

theorem foldlM_digits (hbase : base ≤ 10) : ∀ {ds : List ℕ}, (∀ d ∈ ds, d < base) → ∀ value : ℕ,
    (ds.map digitByte).foldlM (fun value b => (digitValue base b).map (value * base + ·)) value
      = some (ds.foldl (fun value d => value * base + d) value)
  | [], _, _ => rfl
  | d :: ds, h, value => by
    have hd := digitValue_digitByte hbase (h d List.mem_cons_self)
    rw [List.map_cons, List.foldlM_cons, hd]
    exact foldlM_digits hbase (fun e he => h e (List.mem_cons_of_mem _ he)) _

theorem foldl_digits (base : ℕ) : ∀ ds : List ℕ,
    ds.reverse.foldl (fun value d => value * base + d) 0 = Nat.ofDigits base ds
  | [] => rfl
  | d :: ds => by
    rw [List.reverse_cons, List.foldl_append, foldl_digits base ds, Nat.ofDigits_cons]
    simp [Nat.mul_comm, Nat.add_comm]

theorem parseDigits_numeral (hb : 1 < base) (hbase : base ≤ 10) :
    parseDigits base (numeral base n) = some n := by
  unfold numeral
  split_ifs with h
  · have hz : digitValue base zero = some 0 :=
      digitValue_digitByte (d := 0) hbase (by omega)
    simp [parseDigits, hz, h]
  · rw [parseDigits, foldlM_digits hbase, foldl_digits, Nat.ofDigits_digits]
    intro d hd
    exact Nat.digits_lt_base hb (List.mem_reverse.1 hd)

theorem digit_of_mem_numeral (hb : 1 < base) (hbase : base ≤ 10) {b : UInt8}
    (h : b ∈ numeral base n) : 48 ≤ b.toNat ∧ b.toNat < 58 := by
  unfold numeral at h
  split_ifs at h with hn
  · obtain rfl := List.mem_singleton.1 h
    decide
  · obtain ⟨d, hd, rfl⟩ := List.mem_map.1 h
    have hlt := Nat.digits_lt_base hb (List.mem_reverse.1 hd)
    rw [toNat_digitByte (by omega)]
    omega

theorem numeral_ne_nil : numeral base n ≠ [] := by
  unfold numeral
  split_ifs with h
  · simp
  · simpa using Nat.digits_ne_nil_iff_ne_zero.2 h

theorem parseUnsigned_numeral {bits : ℕ} (hb : 1 < base) (hbase : base ≤ 10) (h : n < 2 ^ bits) :
    parseUnsigned base bits (numeral base n) = some n := by
  have hplus : (numeral base n).head? ≠ some plus := by
    intro hhead
    have := digit_of_mem_numeral hb hbase (List.mem_of_head? hhead)
    exact absurd this (by decide)
  simp [parseUnsigned, hplus, numeral_ne_nil, parseDigits_numeral hb hbase, Option.filter, h]

theorem word_numeral (hb : 1 < base) (hbase : base ≤ 10) : (numeral base n).Word := by
  intro b h
  have := digit_of_mem_numeral hb hbase h
  rw [UInt8.lt_iff_toNat_lt, UInt8.lt_iff_toNat_lt]
  exact ⟨by simp; omega, by simp; omega⟩

/-- A number without a plus sign or a leading zero before its digits. -/
def Unpadded (text : Bytes) : Prop :=
  text.head? ≠ some plus ∧ (text.head? = some zero → text = [zero])

instance (text : Bytes) : Decidable (Unpadded text) :=
  inferInstanceAs (Decidable (_ ∧ _))

theorem digitByte_of_digitValue {b : UInt8} {d : ℕ} (h : digitValue base b = some d) :
    b = digitByte d ∧ d < base := by
  unfold digitValue at h
  split_ifs at h with hb
  rw [Option.some.injEq] at h
  subst h
  refine ⟨?_, by omega⟩
  rw [digitByte, show 48 + (b.toNat - 48) = b.toNat by omega, UInt8.ofNat_toNat]

/-- A text that is read as a number is made of digits. -/
theorem digits_of_foldlM : ∀ {text : Bytes} {start n : ℕ},
    text.foldlM (fun value b => (digitValue base b).map (value * base + ·)) start = some n →
      ∃ ds : List ℕ, text = ds.map digitByte ∧ (∀ d ∈ ds, d < base)
        ∧ n = ds.foldl (fun value d => value * base + d) start
  | [], start, n, h => ⟨[], rfl, nofun, (Option.some.inj h).symm⟩
  | b :: text, start, n, h => by
    rw [List.foldlM_cons] at h
    obtain ⟨value, hvalue, hrest⟩ := Option.bind_eq_some_iff.1 h
    obtain ⟨d, hd, rfl⟩ := Option.map_eq_some_iff.1 hvalue
    obtain ⟨rfl, hlt⟩ := digitByte_of_digitValue hd
    obtain ⟨ds, rfl, hall, rfl⟩ := digits_of_foldlM hrest
    exact ⟨d :: ds, rfl, List.forall_mem_cons.2 ⟨hlt, hall⟩, rfl⟩

theorem digitByte_inj {d e : ℕ} (hd : d < 10) (he : e < 10) (h : digitByte d = digitByte e) :
    d = e := by
  have htoNat := congrArg UInt8.toNat h
  rw [toNat_digitByte hd, toNat_digitByte he] at htoNat
  omega

/-- Without padding, the digits are those the number is written with. -/
theorem numeral_of_parseDigits (hb : 1 < base) {text : Bytes}
    (h : parseDigits base text = some n) (hne : text ≠ []) (hunpadded : Unpadded text) :
    numeral base n = text := by
  obtain ⟨ds, rfl, hall, rfl⟩ := digits_of_foldlM h
  rcases ds with _ | ⟨d, ds⟩
  · exact absurd rfl hne
  · have hd : d < base := hall d List.mem_cons_self
    by_cases hzero : d = 0
    · subst hzero
      have hsingle := hunpadded.2 rfl
      rw [List.map_cons, List.cons.injEq, List.map_eq_nil_iff] at hsingle
      rw [hsingle.2, List.foldl_cons, List.foldl_nil, Nat.zero_mul]
      rfl
    · have hdigits : base.digits (Nat.ofDigits base (d :: ds).reverse) = (d :: ds).reverse := by
        refine Nat.digits_ofDigits base hb _ (fun e he => hall e (List.mem_reverse.1 he)) fun _ => ?_
        simpa using hzero
      have hne0 : Nat.ofDigits base (d :: ds).reverse ≠ 0 := by
        intro heq
        rw [heq] at hdigits
        simp at hdigits
      have hfold := foldl_digits base (d :: ds).reverse
      rw [List.reverse_reverse] at hfold
      rw [hfold, numeral, if_neg hne0, hdigits, List.reverse_reverse]

theorem unpadded_numeral (hb : 1 < base) (hbase : base ≤ 10) : Unpadded (numeral base n) := by
  refine ⟨fun hplus => ?_, fun hzero => ?_⟩
  · exact absurd (digit_of_mem_numeral hb hbase (List.mem_of_head? hplus)) (by decide)
  · unfold numeral at hzero ⊢
    split_ifs at hzero ⊢ with hn
    · rfl
    · rw [List.head?_map, List.head?_reverse, Option.map_eq_some_iff] at hzero
      obtain ⟨d, hd, hbyte⟩ := hzero
      have hlt := Nat.digits_lt_base hb (List.mem_of_getLast? hd)
      have hd0 : d = 0 := digitByte_inj (by omega) (by omega) hbyte
      have hlast := Nat.getLast_digit_ne_zero base hn
      rw [List.getLast?_eq_some_getLast (Nat.digits_ne_nil_iff_ne_zero.2 hn), Option.some.injEq]
        at hd
      exact absurd (hd.trans hd0) hlast

/-- A number that is read is written as it was exactly when it was not padded. -/
theorem numeral_eq_iff {bits : ℕ} (hb : 1 < base) (hbase : base ≤ 10) {text : Bytes}
    (h : parseUnsigned base bits text = some n) : numeral base n = text ↔ Unpadded text := by
  constructor
  · rintro rfl
    exact unpadded_numeral hb hbase
  · intro hunpadded
    rw [parseUnsigned, if_neg hunpadded.1] at h
    split_ifs at h with hne
    obtain ⟨hdigits, -⟩ := Option.filter_eq_some_iff.1 h
    exact numeral_of_parseDigits hb hdigits hne hunpadded

theorem lt_of_parseUnsigned {bits : ℕ} {text : Bytes} (h : parseUnsigned base bits text = some n) :
    n < 2 ^ bits := by
  rw [parseUnsigned] at h
  split_ifs at h
  · simpa using (Option.filter_eq_some_iff.1 h).2
  · simpa using (Option.filter_eq_some_iff.1 h).2

end Numerals

section Hex

def hexDigits : Bytes := Bytes.ascii "0123456789abcdef"

def hexDigit (d : UInt8) : UInt8 := hexDigits.getD d.toNat 0

def hexPair (b : UInt8) : Bytes := [hexDigit (b >>> 4), hexDigit (b &&& 15)]

def hexEncode (bytes : Bytes) : Bytes := bytes.flatMap hexPair

def hexValue (value : UInt8) : Option UInt8 :=
  if 48 ≤ value ∧ value ≤ 57 then some (value - 48)
  else if 97 ≤ value ∧ value ≤ 102 then some (value - 97 + 10)
  else none

/-- The byte of each pair of digits. An odd digit at the end is left out. -/
def hexPairs : Bytes → Option Bytes
  | high :: low :: rest => do
    let high ← hexValue high
    let low ← hexValue low
    let bytes ← hexPairs rest
    return ((high <<< 4) ||| low) :: bytes
  | _ => some []

theorem byte_halves (b : UInt8) : hexValue (hexDigit (b >>> 4)) = some (b >>> 4)
    ∧ hexValue (hexDigit (b &&& 15)) = some (b &&& 15) ∧ (b >>> 4) <<< 4 ||| (b &&& 15) = b
    ∧ ((hexPair b).all fun x => 0x20 < x && x < 0x80) = true := by
  -- There are 256 bytes.
  rcases b with ⟨⟨n, hn⟩⟩
  revert n
  decide +kernel

theorem hexPairs_hexEncode : ∀ bytes : Bytes, hexPairs (hexEncode bytes) = some bytes
  | [] => rfl
  | b :: bytes => by
    obtain ⟨hhigh, hlow, hb, -⟩ := byte_halves b
    have ih := hexPairs_hexEncode bytes
    rw [hexEncode] at ih ⊢
    simp [hexPair, hexPairs, hhigh, hlow, hb, ih]

theorem length_hexEncode : ∀ bytes : Bytes, (hexEncode bytes).length = 2 * bytes.length
  | [] => rfl
  | b :: bytes => by
    have ih := length_hexEncode bytes
    rw [hexEncode] at ih ⊢
    simp [hexPair, ih, Nat.mul_add]

theorem word_hexEncode (bytes : Bytes) : (hexEncode bytes).Word := by
  intro x hx
  obtain ⟨b, -, hb⟩ := List.mem_flatMap.1 hx
  exact Bytes.word_of_all (byte_halves b).2.2.2 x hb

theorem hexDigit_of_hexValue {x v : UInt8} (h : hexValue x = some v) : hexDigit v = x ∧ v < 16 := by
  unfold hexValue at h
  split_ifs at h with hdigit hletter
  · rw [Option.some.injEq] at h
    subst h
    revert hdigit
    rcases x with ⟨⟨n, hn⟩⟩
    revert n
    decide +kernel
  · rw [Option.some.injEq] at h
    subst h
    revert hletter
    rcases x with ⟨⟨n, hn⟩⟩
    revert n
    decide +kernel

theorem halves_of_digits {high low : UInt8} (hhigh : high < 16) (hlow : low < 16) :
    (high <<< 4 ||| low) >>> 4 = high ∧ (high <<< 4 ||| low) &&& 15 = low := by
  have hall : ∀ m < 16, ∀ n < 16,
      (UInt8.ofNat m <<< 4 ||| UInt8.ofNat n) >>> 4 = UInt8.ofNat m
        ∧ (UInt8.ofNat m <<< 4 ||| UInt8.ofNat n) &&& 15 = UInt8.ofNat n := by decide +kernel
  have hvalues := hall high.toNat (UInt8.lt_iff_toNat_lt.1 hhigh) low.toNat
    (UInt8.lt_iff_toNat_lt.1 hlow)
  rwa [UInt8.ofNat_toNat, UInt8.ofNat_toNat] at hvalues

/-- Digits that are read, two for each byte, are the ones the bytes are written with. -/
theorem hexEncode_of_hexPairs : ∀ {text bytes : Bytes}, text.length % 2 = 0 →
    hexPairs text = some bytes → hexEncode bytes = text
  | [], bytes, _, h => by
    cases h
    rfl
  | [x], bytes, hlength, h => by simp at hlength
  | high :: low :: text, bytes, hlength, h => by
    rw [hexPairs] at h
    obtain ⟨v, hv, h⟩ := Option.bind_eq_some_iff.1 h
    obtain ⟨w, hw, h⟩ := Option.bind_eq_some_iff.1 h
    obtain ⟨rest, hrest, h⟩ := Option.bind_eq_some_iff.1 h
    cases h
    obtain ⟨hdigit, hv16⟩ := hexDigit_of_hexValue hv
    obtain ⟨hdigit', hw16⟩ := hexDigit_of_hexValue hw
    obtain ⟨hhigh, hlow⟩ := halves_of_digits hv16 hw16
    have hlength' : text.length % 2 = 0 := by
      rw [List.length_cons, List.length_cons] at hlength
      omega
    have ih := hexEncode_of_hexPairs hlength' hrest
    rw [hexEncode] at ih ⊢
    rw [List.flatMap_cons, ih, hexPair, hhigh, hlow, hdigit, hdigit']
    rfl

end Hex

end Numeral

end OnixCore
