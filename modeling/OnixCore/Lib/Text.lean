import Mathlib.Data.List.DropRight
import Mathlib.Data.List.TakeWhile
import Mathlib.Tactic.Common

/-!
# Text, line by line

The operations on strings that line-based formats are written and read with: splitting a text
into its lines, trimming white space, and taking a prefix or the last character off. A text is
its list of characters.

A line written with a line feed after it is read back as it was written, unless it holds a line
feed of its own or ends in a carriage return (`lines_line`).
-/

namespace OnixCore

abbrev Text := List Char

namespace Text

/-- The Unicode property `White_Space`. -/
def isWhitespace (c : Char) : Bool :=
  (9 ≤ c.toNat ∧ c.toNat ≤ 13) ∨ c.toNat = 32 ∨ c.toNat = 0x85 ∨ c.toNat = 0xA0 ∨ c.toNat = 0x1680
    ∨ (0x2000 ≤ c.toNat ∧ c.toNat ≤ 0x200A) ∨ c.toNat = 0x2028 ∨ c.toNat = 0x2029
    ∨ c.toNat = 0x202F ∨ c.toNat = 0x205F ∨ c.toNat = 0x3000

/-- The Unicode general category `Cc`. -/
def isControl (c : Char) : Bool := c.toNat < 0x20 ∨ (0x7F ≤ c.toNat ∧ c.toNat ≤ 0x9F)

def trimStart (t : Text) : Text := t.dropWhile isWhitespace

def trimEnd (t : Text) : Text := t.rdropWhile isWhitespace

def trim (t : Text) : Text := trimEnd (trimStart t)

def stripPrefix (p t : Text) : Option Text := p.isPrefixOf? t

def stripSuffix (c : Char) (t : Text) : Option Text :=
  if t.getLast? = some c then some t.dropLast else none

/-- The words of a text: what is left between white space. -/
def words (t : Text) : List Text := (t.splitOnP isWhitespace).filter (· ≠ [])

/-- The text cut after each line feed: each piece without it, and whether it had one. -/
def splitInclusive : Text → List (Text × Bool)
  | [] => []
  | c :: cs =>
    if c = '\n' then ([], true) :: splitInclusive cs
    else
      match splitInclusive cs with
      | [] => [([c], false)]
      | (l, terminated) :: rest => (c :: l, terminated) :: rest

/-- A line ends at a line feed, or at a carriage return and a line feed. -/
def lines (t : Text) : List Text :=
  (splitInclusive t).map fun (l, terminated) =>
    if terminated then (stripSuffix '\r' l).getD l else l

/-- The components a path is compared by: empty ones and `.` do not count, but for a leading `.`
of a relative path. -/
def pathComponents (t : Text) : Bool × List Text :=
  let absolute := t.head? = some '/'
  let parts := t.splitOn '/'
  (absolute,
    (if !absolute ∧ parts.head? = some ['.'] then [['.']] else [])
      ++ parts.filter fun p => p ≠ [] ∧ p ≠ ['.'])

@[simp] theorem stripPrefix_append (p t : Text) : stripPrefix p (p ++ t) = some t := by
  simp [stripPrefix, List.isPrefixOf?_eq_some_iff_append_eq]

theorem stripPrefix_eq_some {p t r : Text} : stripPrefix p t = some r ↔ p ++ r = t := by
  simp [stripPrefix, List.isPrefixOf?_eq_some_iff_append_eq]

theorem stripSuffix_append (c : Char) (t : Text) : stripSuffix c (t ++ [c]) = some t := by
  simp [stripSuffix]

theorem stripSuffix_eq_none {c : Char} {t : Text} (h : t.getLast? ≠ some c) :
    stripSuffix c t = none := by
  simp [stripSuffix, h]

theorem stripSuffix_eq_some {c : Char} {t r : Text} (h : stripSuffix c t = some r) :
    t = r ++ [c] := by
  unfold stripSuffix at h
  split_ifs at h with hl
  simp only [Option.some.injEq] at h
  rw [← h]
  exact (List.dropLast_append_getLast? c hl).symm

theorem splitInclusive_line : ∀ {l : Text} (rest : Text), '\n' ∉ l →
    splitInclusive (l ++ '\n' :: rest) = (l, true) :: splitInclusive rest
  | [], rest, _ => by simp [splitInclusive]
  | c :: l, rest, h => by
    have hc : c ≠ '\n' := fun e => h (by simp [e])
    have hl : '\n' ∉ l := fun e => h (List.mem_cons_of_mem _ e)
    simp only [List.cons_append, splitInclusive, hc, ↓reduceIte, splitInclusive_line rest hl]

/-- A text without a line feed is cut nowhere. -/
theorem splitInclusive_last : ∀ {l : Text}, l ≠ [] → '\n' ∉ l → splitInclusive l = [(l, false)]
  | [c], _, h => by
    have hc : c ≠ '\n' := fun e => h (by simp [e])
    simp [splitInclusive, hc]
  | c :: d :: l, _, h => by
    have hc : c ≠ '\n' := fun e => h (by simp [e])
    have hl : '\n' ∉ d :: l := fun e => h (List.mem_cons_of_mem _ e)
    rw [splitInclusive, if_neg hc, splitInclusive_last (List.cons_ne_nil _ _) hl]

/-- The last line may lack its line feed. -/
theorem lines_last {l : Text} (hne : l ≠ []) (h : '\n' ∉ l) : lines l = [l] := by
  simp [lines, splitInclusive_last hne h]

theorem lines_line_eq {l : Text} (rest : Text) (h : '\n' ∉ l) :
    lines (l ++ '\n' :: rest) = (stripSuffix '\r' l).getD l :: lines rest := by
  simp [lines, splitInclusive_line rest h]

/-- A line that holds no line feed and does not end in a carriage return is read back whole. -/
theorem lines_line {l : Text} (rest : Text) (h : '\n' ∉ l) (hr : l.getLast? ≠ some '\r') :
    lines (l ++ '\n' :: rest) = l :: lines rest := by
  rw [lines_line_eq rest h, stripSuffix_eq_none hr]
  rfl

theorem splitInclusive_ne_nil {t : Text} (h : t ≠ []) : splitInclusive t ≠ [] := by
  rcases t with _ | ⟨c, cs⟩
  · exact absurd rfl h
  · unfold splitInclusive
    split_ifs
    · exact List.cons_ne_nil _ _
    · split <;> exact List.cons_ne_nil _ _

theorem splitInclusive_feed : ∀ t rest : Text,
    splitInclusive (t ++ '\n' :: rest) = splitInclusive (t ++ ['\n']) ++ splitInclusive rest
  | [], rest => by simp [splitInclusive]
  | c :: t, rest => by
    rw [List.cons_append, List.cons_append, splitInclusive, splitInclusive,
      splitInclusive_feed t rest]
    split_ifs
    · rfl
    · rcases hs : splitInclusive (t ++ ['\n']) with _ | ⟨⟨l, terminated⟩, more⟩
      · exact absurd hs (splitInclusive_ne_nil (by simp))
      · rfl

/-- The lines before a line feed do not depend on what comes after it. -/
theorem lines_feed (t rest : Text) :
    lines (t ++ '\n' :: rest) = lines (t ++ ['\n']) ++ lines rest := by
  rw [lines, splitInclusive_feed, List.map_append]
  rfl

/-- Lines written one after the other are read back. -/
theorem lines_flatMap : ∀ {ls : List Text},
    (∀ l ∈ ls, '\n' ∉ l ∧ l.getLast? ≠ some '\r') → lines (ls.flatMap (· ++ ['\n'])) = ls
  | [], _ => rfl
  | l :: ls, h => by
    obtain ⟨⟨hfeed, hreturn⟩, hls⟩ := List.forall_mem_cons.1 h
    rw [List.flatMap_cons, List.append_assoc, List.singleton_append, lines_line _ hfeed hreturn,
      lines_flatMap hls]

theorem notMem_splitInclusive : ∀ {t : Text} {p : Text × Bool}, p ∈ splitInclusive t → '\n' ∉ p.1
  | [], p, h => by simp [splitInclusive] at h
  | c :: cs, p, h => by
    simp only [splitInclusive] at h
    split_ifs at h with hc
    · rcases List.mem_cons.1 h with rfl | h
      · simp
      · exact notMem_splitInclusive h
    · rcases hs : splitInclusive cs with _ | ⟨⟨l, b⟩, rest⟩
      · rw [hs] at h
        simp only [List.mem_singleton] at h
        subst h
        simpa using fun e => hc e.symm
      · rw [hs] at h
        rcases List.mem_cons.1 h with rfl | h
        · have := notMem_splitInclusive (t := cs) (p := (l, b)) (by rw [hs]; exact List.mem_cons_self)
          simp only [List.mem_cons, not_or]
          exact ⟨fun e => hc e.symm, this⟩
        · exact notMem_splitInclusive (t := cs) (by rw [hs]; exact List.mem_cons_of_mem _ h)

/-- No line holds a line feed. -/
theorem notMem_of_mem_lines {t l : Text} (h : l ∈ lines t) : '\n' ∉ l := by
  obtain ⟨⟨p, b⟩, hp, rfl⟩ := List.mem_map.1 h
  have hn := notMem_splitInclusive hp
  simp only []
  split_ifs
  · rcases hs : stripSuffix '\r' p with _ | r
    · exact hn
    · rw [stripSuffix_eq_some hs] at hn
      simp only [List.mem_append, not_or] at hn
      exact hn.1
  · exact hn

theorem mem_of_mem_splitInclusive : ∀ {t : Text} {p : Text × Bool} {c : Char},
    p ∈ splitInclusive t → c ∈ p.1 → c ∈ t
  | [], p, c, h, _ => by simp [splitInclusive] at h
  | d :: ds, p, c, h, hc => by
    simp only [splitInclusive] at h
    split_ifs at h
    · rcases List.mem_cons.1 h with rfl | h
      · simp at hc
      · exact List.mem_cons_of_mem _ (mem_of_mem_splitInclusive h hc)
    · rcases hs : splitInclusive ds with _ | ⟨q, rest⟩
      · rw [hs, List.mem_singleton] at h
        subst h
        rw [List.mem_singleton.1 hc]
        exact List.mem_cons_self
      · rw [hs] at h
        have hq : q ∈ splitInclusive ds := by rw [hs]; exact List.mem_cons_self
        rcases List.mem_cons.1 h with rfl | h
        · rcases List.mem_cons.1 hc with rfl | hc
          · exact List.mem_cons_self
          · exact List.mem_cons_of_mem _ (mem_of_mem_splitInclusive hq hc)
        · have hp : p ∈ splitInclusive ds := by rw [hs]; exact List.mem_cons_of_mem _ h
          exact List.mem_cons_of_mem _ (mem_of_mem_splitInclusive hp hc)

/-- The characters of a line are of the text. -/
theorem mem_of_mem_lines {t l : Text} {c : Char} (h : l ∈ lines t) (hc : c ∈ l) : c ∈ t := by
  obtain ⟨⟨p, b⟩, hp, rfl⟩ := List.mem_map.1 h
  refine mem_of_mem_splitInclusive hp ?_
  simp only [] at hc
  split_ifs at hc
  · rcases hs : stripSuffix '\r' p with _ | r
    · simpa [hs] using hc
    · rw [hs] at hc
      rw [stripSuffix_eq_some hs]
      exact List.mem_append_left _ hc
  · exact hc

theorem words_append {c : Char} (hc : isWhitespace c = true) (x y : Text) :
    words (x ++ c :: y) = words x ++ words y := by
  rw [words, List.splitOnP_append_cons x y hc, List.filter_append]
  rfl

/-- A text without white space is one word. -/
theorem words_word {w : Text} (hne : w ≠ []) (h : ∀ c ∈ w, isWhitespace c = false) :
    words w = [w] := by
  rw [words, List.splitOnP_eq_singleton h]
  simp [hne]

theorem mem_of_mem_splitOnP {p : Char → Bool} {c : Char} : ∀ {t w : Text}, w ∈ t.splitOnP p →
    c ∈ w → c ∈ t
  | [], w, hw, hc => by
    rw [List.splitOnP_nil, List.mem_singleton] at hw
    rwa [hw] at hc
  | d :: t, w, hw, hc => by
    rw [List.splitOnP_cons_eq_if_modifyHead] at hw
    split_ifs at hw
    · rcases List.mem_cons.1 hw with rfl | hw
      · cases hc
      · exact List.mem_cons_of_mem _ (mem_of_mem_splitOnP hw hc)
    · obtain ⟨first, rest, hpieces⟩ := List.exists_cons_of_ne_nil (List.splitOnP_ne_nil p t)
      rw [hpieces, List.modifyHead_cons] at hw
      rcases List.mem_cons.1 hw with rfl | hw
      · rcases List.mem_cons.1 hc with rfl | hc
        · exact List.mem_cons_self
        · have hfirst : first ∈ t.splitOnP p := by rw [hpieces]; exact List.mem_cons_self
          exact List.mem_cons_of_mem _ (mem_of_mem_splitOnP hfirst hc)
      · have hrest : w ∈ t.splitOnP p := by rw [hpieces]; exact List.mem_cons_of_mem _ hw
        exact List.mem_cons_of_mem _ (mem_of_mem_splitOnP hrest hc)

/-- Each character but white space is in one of the words. -/
theorem exists_word {t : Text} {c : Char} (h : c ∈ t) (hc : isWhitespace c = false) :
    ∃ w ∈ words t, c ∈ w := by
  have hpiece : ∃ w ∈ t.splitOnP isWhitespace, c ∈ w := by
    induction t with
    | nil => cases h
    | cons d t ih =>
      rw [List.splitOnP_cons_eq_if_modifyHead]
      split_ifs with hd
      · rcases List.mem_cons.1 h with rfl | h
        · rw [hc] at hd
          cases hd
        · obtain ⟨w, hw, hcw⟩ := ih h
          exact ⟨w, List.mem_cons_of_mem _ hw, hcw⟩
      · obtain ⟨first, rest, hpieces⟩ := List.exists_cons_of_ne_nil
          (List.splitOnP_ne_nil isWhitespace t)
        rw [hpieces, List.modifyHead_cons]
        rcases List.mem_cons.1 h with rfl | h
        · exact ⟨_, List.mem_cons_self, List.mem_cons_self⟩
        · obtain ⟨w, hw, hcw⟩ := ih h
          rw [hpieces] at hw
          rcases List.mem_cons.1 hw with rfl | hw
          · exact ⟨_, List.mem_cons_self, List.mem_cons_of_mem _ hcw⟩
          · exact ⟨w, List.mem_cons_of_mem _ hw, hcw⟩
  obtain ⟨w, hw, hcw⟩ := hpiece
  exact ⟨w, List.mem_filter.2 ⟨hw, by simpa using List.ne_nil_of_mem hcw⟩, hcw⟩

theorem notMem_intercalate {c : Char} {sep : Text} (hsep : c ∉ sep) : ∀ {parts : List Text},
    (∀ p ∈ parts, c ∉ p) → c ∉ sep.intercalate parts
  | [], _ => by simp
  | [p], h => by simpa using h
  | p :: q :: parts, h => by
    obtain ⟨hp, hrest⟩ := List.forall_mem_cons.1 h
    rw [List.intercalate_cons_cons, List.mem_append, List.mem_append, not_or, not_or]
    exact ⟨⟨hp, hsep⟩, notMem_intercalate hsep hrest⟩

theorem mem_trimStart {t : Text} {c : Char} (h : c ∈ trimStart t) : c ∈ t :=
  (List.dropWhile_sublist _).mem h

theorem trim_sublist (t : Text) : (trim t).Sublist t :=
  List.rdropWhile_prefix _ _ |>.sublist.trans (List.dropWhile_sublist _)

/-- A text that neither begins nor ends in white space is trimmed. -/
theorem trim_eq_self {t : Text} (hfirst : ∀ c, t.head? = some c → isWhitespace c = false)
    (hlast : ∀ c, t.getLast? = some c → isWhitespace c = false) : trim t = t := by
  have hstart : trimStart t = t := by
    rcases t with _ | ⟨c, cs⟩
    · rfl
    · exact List.dropWhile_cons_of_neg (by simpa using hfirst c rfl)
  rw [trim, hstart, trimEnd, List.rdropWhile_eq_self_iff]
  intro hne
  rw [hlast _ (List.getLast?_eq_some_getLast hne)]
  simp

theorem head_trim {t : Text} {c : Char} (hc : (trim t).head? = some c) : isWhitespace c = false := by
  obtain ⟨rest, hrest⟩ := List.rdropWhile_prefix isWhitespace (trimStart t)
  have hhead : (t.dropWhile isWhitespace).head? = some c := by
    change (trimStart t).head? = some c
    rw [← hrest, List.head?_append]
    change (trim t).head?.or rest.head? = some c
    rw [hc]
    rfl
  have hd := List.head?_dropWhile_not isWhitespace t
  rw [hhead] at hd
  simpa using hd

theorem last_trim {t : Text} {c : Char} (hc : (trim t).getLast? = some c) :
    isWhitespace c = false := by
  have hne : (trimStart t).rdropWhile isWhitespace ≠ [] := by
    intro he
    rw [trim, trimEnd, he] at hc
    cases hc
  have hl := List.rdropWhile_last_not isWhitespace (trimStart t) hne
  rw [trim, trimEnd, List.getLast?_eq_some_getLast hne, Option.some.injEq] at hc
  rw [hc] at hl
  simpa using hl

theorem trim_trim (t : Text) : trim (trim t) = trim t :=
  trim_eq_self (fun _ => head_trim) fun _ => last_trim

/-- A text trims to nothing exactly when it is all white space. -/
theorem trim_eq_nil {t : Text} : trim t = [] ↔ ∀ c ∈ t, isWhitespace c = true := by
  simp only [trim, trimEnd, List.rdropWhile_eq_nil_iff]
  constructor
  · intro h
    rw [← List.dropWhile_eq_nil_iff]
    rcases hs : trimStart t with _ | ⟨c, cs⟩
    · exact hs
    · have hw := h c (by rw [hs]; exact List.mem_cons_self)
      have hd := List.head?_dropWhile_not isWhitespace t
      rw [show t.dropWhile isWhitespace = c :: cs from hs] at hd
      simp [hw] at hd
  · exact fun h c hc => h c (mem_trimStart hc)

/-- A trimmed text does not end in white space. -/
theorem getLast_trim {t : Text} (h : t = trim t) {c : Char} (hc : t.getLast? = some c) :
    isWhitespace c = false := by
  have hne : (trimStart t).rdropWhile isWhitespace ≠ [] := by
    intro he
    rw [h, trim, trimEnd, he] at hc
    simp at hc
  have hl := List.rdropWhile_last_not isWhitespace (trimStart t) hne
  rw [h, trim, trimEnd, List.getLast?_eq_some_getLast hne, Option.some.injEq] at hc
  rw [hc] at hl
  simpa using hl

/-- Each character but the separator and the dot is counted in the components. -/
theorem count_pathComponents {c : Char} (hslash : c ≠ '/') (hdot : c ≠ '.') (t : Text) :
    (pathComponents t).2.flatten.count c = t.count c := by
  have hjoin : ∀ parts : List Text, (['/'].intercalate parts).count c = parts.flatten.count c := by
    intro parts
    induction parts with
    | nil => rfl
    | cons p rest ih =>
      rcases rest with _ | ⟨q, rest⟩
      · simp
      · rw [List.intercalate_cons_cons, List.count_append, List.count_append, ih,
          List.flatten_cons, List.count_append, List.count_cons_of_ne (Ne.symm hslash)]
        simp
  have hfilter : ∀ parts : List Text,
      (parts.filter fun p => p ≠ [] ∧ p ≠ ['.']).flatten.count c = parts.flatten.count c := by
    intro parts
    induction parts with
    | nil => rfl
    | cons p rest ih =>
      by_cases hp : p ≠ [] ∧ p ≠ ['.']
      · rw [List.filter_cons_of_pos (by simpa using hp), List.flatten_cons, List.flatten_cons,
          List.count_append, List.count_append, ih]
      · have hp0 : p.count c = 0 := by
          rw [not_and_or, not_ne_iff, not_ne_iff] at hp
          rcases hp with rfl | rfl
          · rfl
          · simp [Ne.symm hdot]
        rw [List.filter_cons_of_neg (by simpa using hp), ih, List.flatten_cons, List.count_append,
          hp0, Nat.zero_add]
  have hlead : ∀ b : Prop, [Decidable b] →
      (if b then [['.']] else ([] : List Text)).flatten.count c = 0 := by
    intro b _
    split_ifs <;> simp [Ne.symm hdot]
  have hparts : (['/'].intercalate (t.splitOn '/')).count c = t.count c := by
    rw [List.intercalate_splitOn]
  simp only [pathComponents, List.flatten_append, List.count_append]
  rw [hlead, hfilter, ← hjoin, hparts, Nat.zero_add]

end Text

end OnixCore
