import OnixCore.Lib.Bytes
import OnixCore.Lib.Text

/-!
# Percent escapes

A percent sign and two hexadecimal digits stand for a byte, and any other character stands for its
UTF-8 bytes. A percent sign without two digits after it is an error, or stands for itself where the
reader keeps it. A text is read as it stands exactly when nothing of it is read as an escape
(`percentDecode_eq_utf8_iff`).
-/

namespace OnixCore

def hexDigit? (c : Char) : Option Nat :=
  if c.isDigit then some (c.toNat - '0'.toNat)
  else if 'a' ≤ c ∧ c ≤ 'f' then some (c.toNat - 'a'.toNat + 10)
  else if 'A' ≤ c ∧ c ≤ 'F' then some (c.toNat - 'A'.toNat + 10)
  else none

namespace Text

def toUtf8 (t : Text) : Bytes := t.flatMap String.utf8EncodeChar

/-- The byte that an escape at the start of the text stands for. -/
def escape? : Text → Option UInt8
  | '%' :: high :: low :: _ => do
    let high ← hexDigit? high
    let low ← hexDigit? low
    return UInt8.ofNat (16 * high + low)
  | _ => none

/-- The bytes of a text, the first characters of which belong to the escape before. -/
def percentDecodeFrom (keepsStray : Bool) : Nat → Text → Option Bytes
  | _, [] => some []
  | skip + 1, _ :: t => percentDecodeFrom keepsStray skip t
  | 0, c :: t => match escape? (c :: t) with
    | some b => (percentDecodeFrom keepsStray 2 t).map (b :: ·)
    | none => if c = '%' ∧ keepsStray = false then none
      else (percentDecodeFrom keepsStray 0 t).map (String.utf8EncodeChar c ++ ·)

def percentDecode (keepsStray : Bool) (t : Text) : Option Bytes := percentDecodeFrom keepsStray 0 t

/-- Nothing of the text is read as an escape. -/
def Verbatim (keepsStray : Bool) (t : Text) : Prop :=
  ∀ u, u <:+ t → escape? u = none ∧ (u.head? = some '%' → keepsStray = true)

variable {keepsStray : Bool} {t : Text}

theorem toUtf8_cons (c : Char) (t : Text) : toUtf8 (c :: t) = String.utf8EncodeChar c ++ toUtf8 t :=
  rfl

theorem length_utf8EncodeChar_pos (c : Char) : 0 < (String.utf8EncodeChar c).length := by
  rw [String.length_utf8EncodeChar]
  exact c.utf8Size_pos

theorem length_toUtf8_drop : ∀ (n : Nat) (t : Text),
    (toUtf8 (t.drop n)).length + min n t.length ≤ (toUtf8 t).length
  | 0, t => by simp
  | n + 1, [] => by simp
  | n + 1, c :: t => by
    have hpos := length_utf8EncodeChar_pos c
    have ih := length_toUtf8_drop n t
    rw [List.drop_succ_cons, toUtf8_cons, List.length_append, List.length_cons]
    omega

theorem two_le_of_escape? {c : Char} {t : Text} {b : UInt8} (h : escape? (c :: t) = some b) :
    2 ≤ t.length := by
  unfold escape? at h
  split at h
  next heq =>
    obtain ⟨-, rfl⟩ := List.cons.inj heq
    exact Nat.le_add_left 2 _
  next => cases h

/-- An escape stands for less than the bytes it is written in. -/
theorem length_percentDecodeFrom : ∀ {t : Text} {skip : Nat} {bytes : Bytes},
    percentDecodeFrom keepsStray skip t = some bytes → bytes.length ≤ (toUtf8 (t.drop skip)).length
  | [], skip, bytes, h => by
    obtain rfl : [] = bytes := by
      cases skip <;> exact Option.some.inj h
    exact Nat.zero_le _
  | c :: t, skip + 1, bytes, h => length_percentDecodeFrom (t := t) h
  | c :: t, 0, bytes, h => by
    have hpos := length_utf8EncodeChar_pos c
    rw [percentDecodeFrom] at h
    rw [List.drop_zero, toUtf8_cons, List.length_append]
    split at h
    · obtain ⟨rest, hrest, rfl⟩ := Option.map_eq_some_iff.1 h
      have ih := length_percentDecodeFrom hrest
      have hdrop := length_toUtf8_drop 2 t
      rw [List.length_cons]
      omega
    · split at h
      · cases h
      · obtain ⟨rest, hrest, rfl⟩ := Option.map_eq_some_iff.1 h
        have ih := length_percentDecodeFrom hrest
        rw [List.drop_zero] at ih
        rw [List.length_append]
        omega

theorem verbatim_cons {c : Char} : Verbatim keepsStray (c :: t)
    ↔ (escape? (c :: t) = none ∧ (c = '%' → keepsStray = true)) ∧ Verbatim keepsStray t := by
  constructor
  · intro h
    obtain ⟨hescape, hstray⟩ := h (c :: t) List.suffix_rfl
    exact ⟨⟨hescape, fun hc => hstray (by rw [hc]; rfl)⟩,
      fun u hu => h u (hu.trans (List.suffix_cons c t))⟩
  · rintro ⟨⟨hescape, hstray⟩, hrest⟩ u hu
    rcases List.suffix_cons_iff.1 hu with rfl | hu
    · exact ⟨hescape, fun hc => hstray (Option.some.inj hc)⟩
    · exact hrest u hu

theorem percentDecode_eq_utf8_iff : ∀ {t : Text},
    percentDecode keepsStray t = some (toUtf8 t) ↔ Verbatim keepsStray t
  | [] => by
    refine ⟨fun _ u hu => ?_, fun _ => rfl⟩
    obtain rfl := List.suffix_nil.1 hu
    exact ⟨rfl, nofun⟩
  | c :: t => by
    rw [verbatim_cons, ← percentDecode_eq_utf8_iff, percentDecode, percentDecodeFrom]
    split
    next b hescape =>
      refine ⟨fun h => ?_, fun h => absurd (h.1.1.symm.trans hescape) nofun⟩
      obtain ⟨rest, hrest, heq⟩ := Option.map_eq_some_iff.1 h
      have hpos := length_utf8EncodeChar_pos c
      have htwo := two_le_of_escape? hescape
      have hlen := length_percentDecodeFrom hrest
      have hdrop := length_toUtf8_drop 2 t
      have heq := congrArg List.length heq
      rw [List.length_cons, toUtf8_cons, List.length_append] at heq
      omega
    next hescape =>
      rw [percentDecode]
      split_ifs with hstray
      · refine ⟨nofun, fun h => ?_⟩
        rw [h.1.2 hstray.1] at hstray
        exact absurd hstray.2 nofun
      · rw [Option.map_eq_some_iff, and_iff_right]
        · constructor
          · rintro ⟨rest, hrest, heq⟩
            obtain rfl := List.append_cancel_left heq
            exact hrest
          · exact fun h => ⟨_, h, rfl⟩
        · exact ⟨hescape, fun hc => by simpa [hc] using hstray⟩

/-- What is read of a text has at most as many bytes as the text. -/
theorem length_percentDecode {bytes : Bytes} (h : percentDecode keepsStray t = some bytes) :
    bytes.length ≤ (toUtf8 t).length := length_percentDecodeFrom h

theorem length_toUtf8_sublist {s t : Text} (h : s.Sublist t) :
    (toUtf8 s).length ≤ (toUtf8 t).length := by
  induction h with
  | slnil => exact le_rfl
  | cons c _ ih =>
    rw [toUtf8_cons, List.length_append]
    omega
  | cons_cons c _ ih =>
    rw [toUtf8_cons, toUtf8_cons, List.length_append, List.length_append]
    omega

/-- A part of a text that has as many bytes is the text. -/
theorem eq_of_sublist_of_length {s t : Text} (h : s.Sublist t)
    (hlen : (toUtf8 t).length ≤ (toUtf8 s).length) : s = t := by
  induction h with
  | slnil => rfl
  | cons c hsub ih =>
    have hpos := length_utf8EncodeChar_pos c
    have hle := length_toUtf8_sublist hsub
    rw [toUtf8_cons, List.length_append] at hlen
    omega
  | cons_cons c _ ih =>
    rw [toUtf8_cons, toUtf8_cons, List.length_append, List.length_append] at hlen
    rw [ih (by omega)]

end Text

end OnixCore
