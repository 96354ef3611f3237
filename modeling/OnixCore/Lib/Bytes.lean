import Mathlib.Data.List.Basic
import Mathlib.Tactic.Common

/-!
# Bytes, line by line

The contents of a file are a list of bytes. A reader of text splits it into lines and refuses a
line that is not UTF-8.

A line written with a line feed after it is read back as it was written, unless it holds a line
feed of its own or ends in a carriage return (`lines_line`).
-/

namespace OnixCore

abbrev Bytes := List UInt8

namespace Bytes

def lineFeed : UInt8 := 10

def carriageReturn : UInt8 := 13

def space : UInt8 := 32

/-- A byte string literal. -/
def ascii (s : String) : Bytes := s.toList.map fun c => UInt8.ofNat c.toNat

/-- The bytes of a text. -/
def utf8 (s : String) : Bytes := s.toByteArray.data.toList

theorem length_utf8 (s : String) : (utf8 s).length = s.utf8ByteSize := rfl

/-- A byte of a longer UTF-8 sequence, after its first. -/
def isContinuation (b : UInt8) : Bool := 0x80 ≤ b && b ≤ 0xBF

/-- The table of well-formed UTF-8 byte sequences. -/
def isUtf8 : Bytes → Bool
  | [] => true
  | a :: as =>
    if a < 0x80 then isUtf8 as
    else
      match as with
      | [] => false
      | b :: bs =>
        if 0xC2 ≤ a && a ≤ 0xDF then isContinuation b && isUtf8 bs
        else
          match bs with
          | [] => false
          | c :: cs =>
            if 0xE0 ≤ a && a ≤ 0xEF then
              (if a == 0xE0 then 0xA0 ≤ b && b ≤ 0xBF
                else if a == 0xED then 0x80 ≤ b && b ≤ 0x9F
                else isContinuation b) && isContinuation c && isUtf8 cs
            else
              match cs with
              | [] => false
              | d :: ds =>
                (if a == 0xF0 then 0x90 ≤ b && b ≤ 0xBF
                  else if a == 0xF4 then 0x80 ≤ b && b ≤ 0x8F
                  else 0xF1 ≤ a && a ≤ 0xF3 && isContinuation b)
                && isContinuation c && isContinuation d && isUtf8 ds

def stripCarriageReturn (line : Bytes) : Bytes :=
  if line.getLast? = some carriageReturn then line.dropLast else line

/-- The lines made of the pieces between line feeds. The last piece has none after it. -/
def linesOf : List Bytes → List Bytes
  | [] => []
  | [last] => if last = [] then [] else [last]
  | piece :: pieces => stripCarriageReturn piece :: linesOf pieces

/-- A line ends at a line feed, or at a carriage return and a line feed. -/
def lines (content : Bytes) : List Bytes := linesOf (content.splitOn lineFeed)

theorem lines_nil : lines [] = [] := by
  simp [lines, linesOf]

theorem linesOf_cons {piece : Bytes} {pieces : List Bytes} (h : pieces ≠ []) :
    linesOf (piece :: pieces) = stripCarriageReturn piece :: linesOf pieces := by
  cases pieces with
  | nil => exact absurd rfl h
  | cons => rfl

/-- A line that holds no line feed and does not end in a carriage return is read back whole. -/
theorem lines_line {line : Bytes} (rest : Bytes) (h : lineFeed ∉ line)
    (hr : line.getLast? ≠ some carriageReturn) :
    lines (line ++ lineFeed :: rest) = line :: lines rest := by
  rw [lines, List.splitOn_append_cons_self_of_not_mem h, linesOf_cons (List.splitOn_ne_nil _ _),
    stripCarriageReturn, if_neg hr, lines]

/-- A line of printable ASCII. -/
def Plain (line : Bytes) : Prop := ∀ b ∈ line, 0x20 ≤ b ∧ b < 0x80

theorem plain_of_all {line : Bytes} (h : (line.all fun b => 0x20 ≤ b && b < 0x80) = true) :
    Plain line := fun b hb => by simpa using List.all_eq_true.1 h b hb

theorem Plain.append {a b : Bytes} (ha : Plain a) (hb : Plain b) : Plain (a ++ b) := by
  intro x hx
  rcases List.mem_append.1 hx with h | h
  · exact ha x h
  · exact hb x h

theorem Plain.isUtf8 : ∀ {line : Bytes}, Plain line → isUtf8 line = true
  | [], _ => rfl
  | a :: as, h => by
    rw [Bytes.isUtf8.eq_def]
    have ha : a < 0x80 := (h a List.mem_cons_self).2
    simp only [ha, if_true]
    exact Plain.isUtf8 fun b hb => h b (List.mem_cons_of_mem _ hb)

theorem Plain.notMem {line : Bytes} (h : Plain line) {b : UInt8} (hb : b < 0x20) : b ∉ line :=
  fun hmem => absurd (h b hmem).1 (UInt8.not_le.2 hb)

/-- Printable ASCII without a space. -/
def Word (text : Bytes) : Prop := ∀ b ∈ text, 0x20 < b ∧ b < 0x80

theorem word_of_all {text : Bytes} (h : (text.all fun b => 0x20 < b && b < 0x80) = true) :
    Word text := fun b hb => by simpa using List.all_eq_true.1 h b hb

theorem Word.plain {text : Bytes} (h : Word text) : Plain text := fun b hb =>
  ⟨UInt8.le_of_lt (h b hb).1, (h b hb).2⟩

theorem Word.space_notMem {text : Bytes} (h : Word text) : space ∉ text := fun hmem =>
  absurd (h _ hmem).1 (by decide)

/-- Words with a space between them are split back into the words. -/
theorem splitOn_words {words : List Bytes} (h : ∀ word ∈ words, Word word) (hne : words ≠ []) :
    ([space].intercalate words).splitOn space = words :=
  List.splitOn_intercalate space (fun word hword => (h word hword).space_notMem) hne

theorem plain_words : ∀ {words : List Bytes}, (∀ word ∈ words, Word word) →
    Plain ([space].intercalate words)
  | [], _ => by simp [Plain]
  | [word], h => by
    rw [List.intercalate_singleton]
    exact (h word List.mem_cons_self).plain
  | word :: next :: words, h => by
    have hspace : Plain [space] := plain_of_all (by decide)
    rw [List.intercalate_cons_cons]
    exact ((h word List.mem_cons_self).plain.append hspace).append
      (plain_words fun w hw => h w (List.mem_cons_of_mem _ hw))

/-- Lines of printable ASCII are read back as they were written. -/
theorem lines_flatMap : ∀ {ls : List Bytes}, (∀ l ∈ ls, Plain l) →
    lines (ls.flatMap (· ++ [lineFeed])) = ls
  | [], _ => lines_nil
  | l :: ls, h => by
    have hl := h l List.mem_cons_self
    have hcr : l.getLast? ≠ some carriageReturn := fun hlast =>
      hl.notMem (by decide) (List.mem_of_getLast? hlast)
    rw [List.flatMap_cons, List.append_assoc, List.singleton_append,
      lines_line _ (hl.notMem (by decide)) hcr,
      lines_flatMap fun l' hl' => h l' (List.mem_cons_of_mem _ hl')]

section Joined

variable {pieces : List Bytes} {content : Bytes}

theorem linesOf_terminated : ∀ pieces : List Bytes,
    linesOf (pieces ++ [[]]) = pieces.map stripCarriageReturn
  | [] => rfl
  | piece :: pieces => by
    rw [List.cons_append, linesOf_cons (by simp), linesOf_terminated pieces, List.map_cons]

theorem flatMap_lineFeed : ∀ {pieces : List Bytes}, pieces ≠ [] →
    pieces.flatMap (· ++ [lineFeed]) = [lineFeed].intercalate pieces ++ [lineFeed]
  | [piece], _ => by simp
  | piece :: next :: pieces, _ => by
    rw [List.flatMap_cons, flatMap_lineFeed (List.cons_ne_nil next pieces),
      List.intercalate_cons_cons]
    simp

theorem mem_intercalate {sep b : UInt8} {piece : Bytes} : ∀ {pieces : List Bytes},
    piece ∈ pieces → b ∈ piece → b ∈ [sep].intercalate pieces
  | [_], hpiece, hb => by
    rw [List.mem_singleton] at hpiece
    rwa [List.intercalate_singleton, ← hpiece]
  | first :: next :: pieces, hpiece, hb => by
    rw [List.intercalate_cons_cons]
    rcases List.mem_cons.1 hpiece with rfl | hrest
    · simp [hb]
    · exact List.mem_append_right _ (mem_intercalate hrest hb)

/-- A file that ends in a line feed and holds no carriage return is its lines, each with a line
feed after it. -/
theorem flatMap_lines (hlast : content.getLast? = some lineFeed) (hreturn : carriageReturn ∉ content) :
    content.lines.flatMap (· ++ [lineFeed]) = content := by
  obtain ⟨start, rfl⟩ := List.getLast?_eq_some_iff.1 hlast
  have hpieces : (start ++ [lineFeed]).splitOn lineFeed = start.splitOn lineFeed ++ [[]] := by
    rw [List.splitOn_append_cons_self, List.splitOn_nil]
  have hstrip : (start.splitOn lineFeed).map stripCarriageReturn = start.splitOn lineFeed := by
    refine (List.map_congr_left fun piece hpiece => ?_).trans (List.map_id _)
    rw [stripCarriageReturn, if_neg, id]
    intro hend
    have hmem : carriageReturn ∈ [lineFeed].intercalate (start.splitOn lineFeed) :=
      mem_intercalate hpiece (List.mem_of_getLast? hend)
    rw [List.intercalate_splitOn] at hmem
    exact hreturn (List.mem_append_left _ hmem)
  rw [lines, hpieces, linesOf_terminated, hstrip, flatMap_lineFeed (List.splitOn_ne_nil _ _),
    List.intercalate_splitOn]

end Joined

end Bytes

end OnixCore
