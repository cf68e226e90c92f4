import TypeScribe.Naming
import TypeScribe.Text.Blank
import TypeScribe.Text.Lines
import Mathlib.Data.List.Basic

/-!
# Characters of names

The characters of a text of declarations are of four kinds: **blank**, **quote**, **mark** (the
punctuation of type expressions) and **plain**, which is every other character. What is shown here is
that names are plain:

* word characters are plain (`isPlain_of_isWord`), and their upper-case forms are plain and begin with
  a word character (`upper_nameLike`). Both are facts about the tables of spans and of upper-case forms;
* so the type name of a title is plain, and begins with a word character unless it is empty
  (`Naming.nameLike_typeName?`);
* an identifier is plain, with at most one line feed behind it (`Naming.isIdentifier_split`).
-/

namespace TypeScribe.Text

/-- The quotes: double, single and back. -/
def isQuote (c : Char) : Bool := [0x22, 0x27, 0x60].contains c.toNat

/-- The punctuation of type expressions. -/
def marks : List Char := ['\x7b', '\x7d', '(', ')', '[', ']', '|', '&', ';', ':', '?', '=']

@[inherit_doc marks]
def isMark (c : Char) : Bool := marks.contains c

/-- **Plain** characters: neither blank nor quote nor mark. -/
def isPlain (c : Char) : Bool := !(isBlank c || isQuote c || isMark c)

/-- **Like a name**: plain characters, the first of which is a word character. -/
structure NameLike (cs : List Char) : Prop where
  plain : ∀ c ∈ cs, isPlain c = true
  begins : ∀ c, cs.head? = some c → isWord c = true

variable {c : Char} {cs : List Char} {n low high : Nat} {spans : List Span}

/-! ## Spans -/

namespace Span

/-- Whether all code points from `low` to `high` lie in the span. -/
def includes (low high : Nat) (s : Span) : Bool := s.first.ble low && high.ble s.last

/-- Whether no code point from `low` to `high` lies in the span. -/
def excludes (low high : Nat) (s : Span) : Bool := high.blt s.first || s.last.blt low

/-- A span that includes a range covers each number of it. -/
theorem covers_of_includes {s : Span} (h : s.includes low high = true) (hlow : low ≤ n)
    (hhigh : n ≤ high) : s.covers n = true := by
  simp only [includes, Bool.and_eq_true, Nat.ble_eq] at h
  simp only [covers, Bool.and_eq_true, decide_eq_true_eq]
  omega

/-- A span that excludes a range covers no number of it. -/
theorem not_covers_of_excludes {s : Span} (h : s.excludes low high = true) (hlow : low ≤ n)
    (hhigh : n ≤ high) : s.covers n = false := by
  simp only [excludes, Bool.or_eq_true, Nat.blt_eq] at h
  simp only [covers, Bool.and_eq_false_iff, decide_eq_false_iff_not]
  omega

end Span

theorem covered_eq_false (spans : List Span) (low high : Nat)
    (h : spans.all (·.excludes low high) = true) (hlow : low ≤ c.toNat) (hhigh : c.toNat ≤ high) :
    covered spans c = false := by
  rw [covered, List.any_eq_false]
  intro s hs
  rw [Span.not_covers_of_excludes (List.all_eq_true.mp h s hs) hlow hhigh]
  exact Bool.false_ne_true

/-- The spans of word characters, all in one list. -/
def wordSpans : List Span := wordSpansLow ++ wordSpansMid ++ wordSpansHigh

theorem toNat_le (c : Char) : c.toNat ≤ 0x10FFFF := by
  have hvalid := c.valid
  simp only [UInt32.isValidChar, Nat.isValidChar] at hvalid
  simp only [Char.toNat]
  omega

theorem toList_ne_nil {w : String} (h : w ≠ "") : w.toList ≠ [] :=
  fun hnil => h (String.toList_eq_nil_iff.mp hnil)

theorem toNat_ofNat (h : n.isValidChar) : (Char.ofNat n).toNat = n := by
  rw [Char.ofNat, dif_pos h]
  rfl

/-- What is checked of every character in a list. Stated this way nothing is checked of other
characters. -/
theorem forall_mem {P : Char → Prop} [DecidablePred P] (h : cs.all (fun c => decide (P c)) = true) :
    ∀ c ∈ cs, P c :=
  fun c hc => of_decide_eq_true (List.all_eq_true.mp h c hc)

/-- What holds of the first code points holds of the ASCII characters. -/
theorem forall_ascii {P : Char → Bool} (h : (List.range 0x80).all (fun n => P (Char.ofNat n)) = true)
    (hc : c.toNat < 0x80) : P c = true := by
  have hn := List.all_eq_true.mp h c.toNat (List.mem_range.mpr hc)
  rwa [Char.ofNat_toNat] at hn

/-- **Word characters beyond ASCII** are those of the spans, since each list of spans keeps to its own
range. -/
theorem isWord_eq_covered (hc : 0x80 ≤ c.toNat) : isWord c = covered wordSpans c := by
  have hunderscore : (c == '_') = false := by
    rw [beq_eq_false_iff_ne]
    rintro rfl
    exact absurd hc (by decide)
  have hmax := toNat_le c
  have hlow : 0x1000 ≤ c.toNat → covered wordSpansLow c = false := fun h =>
    covered_eq_false _ 0x1000 0x10FFFF (by decide +kernel) h hmax
  have hmid : c.toNat < 0x1000 → covered wordSpansMid c = false := fun h =>
    covered_eq_false _ 0 0xFFF (by decide +kernel) (Nat.zero_le _) (by omega)
  have hmid' : 0x10000 ≤ c.toNat → covered wordSpansMid c = false := fun h =>
    covered_eq_false _ 0x10000 0x10FFFF (by decide +kernel) h hmax
  have hhigh : c.toNat < 0x10000 → covered wordSpansHigh c = false := fun h =>
    covered_eq_false _ 0 0xFFFF (by decide +kernel) (Nat.zero_le _) (by omega)
  have hall : covered wordSpans c =
      (covered wordSpansLow c || covered wordSpansMid c || covered wordSpansHigh c) := by
    simp only [covered, wordSpans, List.any_append]
  rw [isWord, hunderscore, Bool.false_or, isAlphanumeric, if_neg (Nat.not_lt.mpr hc), hall]
  split
  · rw [hmid (by omega), hhigh (by omega), Bool.or_false, Bool.or_false]
  · split
    · rw [hlow (by omega), hhigh (by omega), Bool.false_or, Bool.or_false]
    · rw [hlow (by omega), hmid' (by omega), Bool.false_or, Bool.false_or]

/-- The code points of a span of word characters are word characters. -/
theorem isWord_ofNat {s : Span} (hs : s ∈ wordSpans) (h : s.covers n = true) :
    isWord (Char.ofNat n) = true := by
  have hout : ∀ low high, wordSpans.all (·.excludes low high) = true → ¬ (low ≤ n ∧ n ≤ high) := by
    rintro low high hall ⟨hlow, hhigh⟩
    rw [Span.not_covers_of_excludes (List.all_eq_true.mp hall s hs) hlow hhigh] at h
    exact Bool.false_ne_true h
  have hascii := hout 0 0x7F (by decide +kernel)
  have hsurrogate := hout 0xD800 0xDFFF (by decide +kernel)
  have hlast : s.last ≤ 0x10FFFF :=
    Nat.le_of_ble_eq_true (List.all_eq_true.mp
      (by decide +kernel : wordSpans.all (fun s => s.last.ble 0x10FFFF) = true) s hs)
  have hvalid : n.isValidChar := by
    simp only [Span.covers, Bool.and_eq_true, decide_eq_true_eq] at h
    simp only [Nat.isValidChar]
    omega
  rw [isWord_eq_covered (by rw [toNat_ofNat hvalid]; omega), covered, List.any_eq_true]
  exact ⟨s, hs, by rwa [toNat_ofNat hvalid]⟩

/-! ## Kinds of characters -/

theorem isPlain_iff : isPlain c = true ↔ isBlank c = false ∧ isQuote c = false ∧ isMark c = false := by
  simp only [isPlain, Bool.not_eq_true', Bool.or_eq_false_iff, and_assoc]

/-- Every line break is a blank. -/
theorem isBlank_of_isLineBreak (h : isLineBreak c = true) : isBlank c = true := by
  rw [isLineBreak] at h
  split at h
  · simp only [Bool.or_eq_true, Bool.and_eq_true, decide_eq_true_eq] at h
    rw [isBlank, if_pos (by omega)]
    simp only [Bool.or_eq_true, Bool.and_eq_true, decide_eq_true_eq]
    omega
  · have hcase : c.toNat = 0x85 ∨ c.toNat = 0x2028 ∨ c.toNat = 0x2029 := by
      simpa [or_assoc] using h
    rcases hcase with hn | hn | hn <;> rw [isBlank, covered, hn] <;> decide

theorem isLineBreak_of_isPlain (h : isPlain c = true) : isLineBreak c = false := by
  by_contra hbreak
  have hblank := isBlank_of_isLineBreak (by simpa using hbreak)
  rw [(isPlain_iff.mp h).1] at hblank
  exact Bool.false_ne_true hblank

/-- What holds of all marks holds of a mark. -/
theorem forall_mark {P : Char → Bool} (h : marks.all P = true) (hc : isMark c = true) : P c = true :=
  List.all_eq_true.mp h c (by simpa [isMark] using hc)

theorem isLineBreak_of_isMark (h : isMark c = true) : isLineBreak c = false := by
  simpa using forall_mark (P := fun c => !isLineBreak c) (by decide) h

/-- No quote and no mark is beyond ASCII. -/
theorem isPlain_eq_of_beyond (hc : 0x80 ≤ c.toNat) : isPlain c = !covered blankSpans c := by
  have hquote : isQuote c = false := by
    rw [isQuote, List.contains_eq_mem, decide_eq_false_iff_not]
    intro hmem
    have hascii : ∀ n ∈ [0x22, 0x27, 0x60], n < 0x80 := by decide
    exact absurd hc (Nat.not_le.mpr (hascii c.toNat hmem))
  have hmark : isMark c = false := by
    by_contra hmark
    have hascii : (c.toNat.blt 0x80) = true :=
      forall_mark (P := fun c => c.toNat.blt 0x80) (by decide) (by simpa using hmark)
    exact absurd hc (Nat.not_le.mpr (Nat.blt_eq.mp hascii))
  rw [isPlain, hquote, hmark, Bool.or_false, Bool.or_false, isBlank, if_neg (Nat.not_lt.mpr hc)]

/-- **Word characters are plain.** -/
theorem isPlain_of_isWord (h : isWord c = true) : isPlain c = true := by
  by_cases hc : c.toNat < 0x80
  · have hascii : (!isWord c || isPlain c) = true :=
      forall_ascii (P := fun c => !isWord c || isPlain c) (by decide +kernel) hc
    simpa [h] using hascii
  · have hbeyond : 0x80 ≤ c.toNat := Nat.not_lt.mp hc
    rw [isWord_eq_covered hbeyond, covered, List.any_eq_true] at h
    obtain ⟨s, hs, hcovers⟩ := h
    have hapart : wordSpans.all (fun s => blankSpans.all (·.excludes s.first s.last)) = true := by
      decide +kernel
    simp only [Span.covers, Bool.and_eq_true, decide_eq_true_eq] at hcovers
    rw [isPlain_eq_of_beyond hbeyond, covered_eq_false blankSpans s.first s.last
      (List.all_eq_true.mp hapart s hs) hcovers.1 hcovers.2, Bool.not_false]

namespace NameLike

theorem nil : NameLike [] := ⟨by simp, by simp⟩

theorem cons (hc : isWord c = true) (hcs : ∀ d ∈ cs, isPlain d = true) : NameLike (c :: cs) := by
  refine ⟨?_, ?_⟩
  · intro d hd
    rcases List.mem_cons.mp hd with rfl | hd
    · exact isPlain_of_isWord hc
    · exact hcs d hd
  · intro d hd
    obtain rfl : c = d := by simpa using hd
    exact hc

/-- Plain characters may follow. -/
theorem append {ds : List Char} (h : NameLike cs) (hne : cs ≠ []) (hds : ∀ d ∈ ds, isPlain d = true) :
    NameLike (cs ++ ds) := by
  obtain ⟨c, rest, rfl⟩ := List.exists_cons_of_ne_nil hne
  refine .cons (h.begins c rfl) ?_
  intro d hd
  rcases List.mem_append.mp hd with hd | hd
  · exact h.plain d (List.mem_cons_of_mem _ hd)
  · exact hds d hd

end NameLike

/-! ## Upper case -/

/-- What the table has to say of a run: its capitals lie in one span of word characters, or no member is
a word character, or the capitals are word characters one by one. -/
def CaseRun.raisesWords (r : CaseRun) : Bool :=
  wordSpans.any (·.includes r.capital (r.capital + (r.last - r.first))) ||
    wordSpans.all (·.excludes r.first r.last) ||
    (List.range (r.last - r.first + 1)).all fun k =>
      k % r.stride != 0 || isWord (Char.ofNat (r.capital + k))

/-- Raising a letter beyond ASCII gives a letter. -/
theorem isWord_raise {r : CaseRun} (hr : r ∈ caseRuns) (hc : 0x80 ≤ c.toNat) (h : isWord c = true)
    (hholds : r.holds c.toNat = true) : isWord (r.raise c.toNat) = true := by
  have hraises : r.raisesWords = true :=
    List.all_eq_true.mp (by decide +kernel : caseRuns.all CaseRun.raisesWords = true) r hr
  simp only [CaseRun.holds, Bool.and_eq_true, decide_eq_true_eq, beq_iff_eq] at hholds
  obtain ⟨⟨hfirst, hlast⟩, hstride⟩ := hholds
  rw [CaseRun.raisesWords, Bool.or_eq_true, Bool.or_eq_true] at hraises
  rcases hraises with (hspan | hnone) | hall
  · obtain ⟨s, hs, hincludes⟩ := List.any_eq_true.mp hspan
    exact isWord_ofNat hs (Span.covers_of_includes hincludes (by omega) (by omega))
  · rw [isWord_eq_covered hc, covered_eq_false _ _ _ hnone hfirst hlast] at h
    exact absurd h Bool.false_ne_true
  · have hk := List.all_eq_true.mp hall (c.toNat - r.first) (List.mem_range.mpr (by omega))
    simpa [hstride, CaseRun.raise] using hk

/-- The expansions of a letter, such as the two capitals of a sharp s, read like names. -/
theorem nameLike_expansion {e : Nat × List Nat} (he : e ∈ caseExpansions) :
    e.2.map Char.ofNat ≠ [] ∧ NameLike (e.2.map Char.ofNat) := by
  have hall : (caseExpansions.all fun e => (e.2.map Char.ofNat).all isPlain &&
      (e.2.map Char.ofNat).head?.any isWord) = true := by decide +kernel
  have hform := List.all_eq_true.mp hall e he
  rw [Bool.and_eq_true, List.all_eq_true] at hform
  obtain ⟨hplain, hhead⟩ := hform
  refine ⟨?_, hplain, ?_⟩
  · intro hnil
    rw [hnil] at hhead
    exact absurd hhead (by simp)
  · intro d hd
    simpa [hd] using hhead

/-- **The upper-case form of a word character** begins with a word character and is plain. -/
theorem upper_nameLike (h : isWord c = true) : upper c ≠ [] ∧ NameLike (upper c) := by
  rw [upper]
  split
  · rename_i hc
    have hascii : (!isWord c || isWord c.toUpper) = true :=
      forall_ascii (P := fun c => !isWord c || isWord c.toUpper) (by decide +kernel) hc
    refine ⟨by simp, .cons ?_ (by simp)⟩
    simpa [h] using hascii
  · rename_i hc
    rw [upperBeyondAscii]
    split
    · rename_i run hrun
      have hholds : run.holds c.toNat = true := by simpa using List.find?_some hrun
      have hmem : run ∈ caseRuns := List.mem_of_find?_eq_some hrun
      exact ⟨by simp, .cons (isWord_raise hmem (Nat.not_lt.mp hc) h hholds) (by simp)⟩
    · split
      · rename_i e hfind
        exact nameLike_expansion (List.mem_of_find?_eq_some hfind)
      · exact ⟨by simp, .cons h (by simp)⟩

end TypeScribe.Text

namespace TypeScribe.Naming

open Text

variable {cs : List Char}

/-! ## Type names -/

/-- What is left of a title consists of word characters and spaces. -/
theorem isWord_of_mem_cleaned {c : Char} (h : c ∈ cleaned cs) (hspace : c ≠ ' ') : isWord c = true := by
  obtain ⟨d, hd, rfl⟩ := List.mem_map.mp h
  have hkept := (List.mem_filter.mp hd).2
  split at hspace
  · exact absurd rfl hspace
  · rename_i hne
    rw [if_neg hne]
    simpa [hspace] using hkept

/-- Words put together are like a name. The induction goes along the characters, and every one of them
stands for a part that could begin a name. -/
theorem nameLike_joined : ∀ (cs : List Char) (raised : Bool),
    (∀ c ∈ cs, c ≠ ' ' → isWord c = true) → NameLike (joined raised cs)
  | [], _, _ => .nil
  | c :: rest, raised, h => by
    have hrest : ∀ d ∈ rest, d ≠ ' ' → isWord d = true := fun d hd => h d (List.mem_cons_of_mem _ hd)
    rw [joined]
    split
    · exact nameLike_joined rest true hrest
    · rename_i hspace
      have hword := h c (List.mem_cons_self ..) hspace
      have hpart : (if raised then upper c else [c]) ≠ [] ∧
          NameLike (if raised then upper c else [c]) := by
        split
        · exact upper_nameLike hword
        · exact ⟨by simp, .cons hword (by simp)⟩
      exact hpart.2.append hpart.1 (nameLike_joined rest false hrest).plain

/-- Capitals keep a text like a name. -/
theorem nameLike_capitalized (h : NameLike cs) : NameLike (capitalized cs) := by
  cases cs with
  | nil => exact .nil
  | cons c rest =>
    obtain ⟨hne, hupper⟩ := upper_nameLike (h.begins c rfl)
    exact hupper.append hne fun d hd => h.plain d (List.mem_cons_of_mem _ hd)

/-- **A type name is like a name**, whatever the title. -/
theorem nameLike_typeName? (title : Option String) : NameLike (typeName? title).toList := by
  cases title with
  | none => exact .nil
  | some title =>
    simp only [typeName?, Option.map_some, Option.getD_some, typeName, String.toList_ofList]
    exact nameLike_capitalized (nameLike_joined _ _ fun c hc => isWord_of_mem_cleaned hc)

/-! ## Identifiers -/

theorem isPlain_of_isNamePart {c : Char} (h : isNamePart c = true) : isPlain c = true := by
  rw [isNamePart, Bool.or_eq_true] at h
  rcases h with h | h
  · exact isPlain_of_isWord h
  · rw [beq_iff_eq.mp h]
    decide

theorem ascii_of_isAlphanum {c : Char} (h : c.isAlphanum = true) : c.toNat < 0x80 := by
  unfold Char.isAlphanum Char.isAlpha Char.isUpper Char.isLower Char.isDigit at h
  simp only [Bool.or_eq_true, Bool.and_eq_true, decide_eq_true_eq, UInt32.le_iff_toNat_le] at h
  have hchar : c.toNat = c.val.toNat := rfl
  rcases h with (⟨-, h⟩ | ⟨-, h⟩) | ⟨-, h⟩ <;> simp at h <;> omega

theorem isPlain_of_isNameStart {c : Char} (h : isNameStart c = true) : isPlain c = true := by
  refine isPlain_of_isNamePart ?_
  rw [isNameStart, Bool.or_assoc, Bool.or_eq_true] at h
  rcases h with halpha | hother
  · have hascii : c.toNat < 0x80 := ascii_of_isAlphanum (by rw [Char.isAlphanum, halpha, Bool.true_or])
    rw [isNamePart, isWord, isAlphanumeric, if_pos hascii, Char.isAlphanum, halpha, Bool.true_or,
      Bool.or_true, Bool.true_or]
  · rw [isNamePart, isWord, Bool.or_assoc, Bool.or_comm (isAlphanumeric c), ← Bool.or_assoc, hother,
      Bool.true_or]

/-- A name that can stand without quotes is not empty, and has no blanks, quotes or marks. -/
theorem isPlain_of_isBareName (h : isBareName cs = true) : cs ≠ [] ∧ ∀ c ∈ cs, isPlain c = true := by
  cases cs with
  | nil => exact absurd h (by simp [isBareName])
  | cons c rest =>
    rw [isBareName, Bool.and_eq_true, List.all_eq_true] at h
    refine ⟨by simp, ?_⟩
    intro d hd
    rcases List.mem_cons.mp hd with rfl | hd
    · exact isPlain_of_isNameStart h.1
    · exact isPlain_of_isNamePart (h.2 d hd)

/-- An identifier without the line feed that may stand behind it. -/
def bareName (name : String) : String := String.ofList (name.toList.takeWhile isPlain)

/-- **An identifier** is made of plain characters, with at most one line feed behind them. -/
theorem isIdentifier_split {name : String} (h : isIdentifier name = true) :
    bareName name ≠ "" ∧ (∀ c ∈ (bareName name).toList, isPlain c = true) ∧
      ∃ behind, name.toList = (bareName name).toList ++ behind ∧ (behind = [] ∨ behind = ['\n']) := by
  have hbare : ∃ bare behind, name.toList = bare ++ behind ∧ (behind = [] ∨ behind = ['\n']) ∧
      isBareName bare = true := by
    rw [isIdentifier, Bool.or_eq_true, Bool.and_eq_true, beq_iff_eq] at h
    rcases h with h | ⟨hlast, h⟩
    · exact ⟨_, [], (List.append_nil _).symm, Or.inl rfl, h⟩
    · exact ⟨_, ['\n'], (List.dropLast_append_getLast? _ hlast).symm, Or.inr rfl, h⟩
  obtain ⟨bare, behind, hname, hbehind, hbare⟩ := hbare
  obtain ⟨hne, hplain⟩ := isPlain_of_isBareName hbare
  have htake : (bareName name).toList = bare := by
    rw [bareName, String.toList_ofList, hname, List.takeWhile_append_of_pos hplain]
    rcases hbehind with rfl | rfl
    · exact List.append_nil _
    · rw [List.takeWhile_cons_of_neg (by decide), List.append_nil]
  refine ⟨?_, htake ▸ hplain, behind, by rw [htake, hname], hbehind⟩
  intro hempty
  rw [hempty] at htake
  exact hne htake.symm

end TypeScribe.Naming
