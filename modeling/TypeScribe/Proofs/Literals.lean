import TypeScribe.Json.Reader
import TypeScribe.Output.Check
import TypeScribe.Proofs.Characters

/-!
# String literals

A quoted text is a string literal, and three readers agree on where it ends. Each of them is followed
from one character of the text to the next: behind what a character is written as, the reader goes on
as it did before.

* The **JSON reader** gives back the text (`Json.Reader.string_quoted`).
* The **check** of the output skips the literal as a whole (`Output.withoutLiterals_quoted`).
* A literal stands on one line: its characters are **printable** (`Text.isPrintable_of_mem_quoted`).
-/

namespace TypeScribe

namespace Text

/-! ## Digits -/

/-- Printable ASCII. -/
def isPrintableAscii (c : Char) : Bool := 0x20 ≤ c.toNat && c.toNat ≤ 0x7E

theorem hexValue?_hexDigit {d : Nat} (h : d < 16) : hexValue? (hexDigit d) = some d := by
  have hall : (List.range 16).all (fun d => hexValue? (hexDigit d) == some d) = true := by decide
  simpa using List.all_eq_true.mp hall d (List.mem_range.mpr h)

/-- A digit is printable, and neither quote nor backslash. -/
theorem hexDigit_printable {d : Nat} (h : d < 16) : isPrintableAscii (hexDigit d) = true ∧
    hexDigit d ≠ '"' ∧ hexDigit d ≠ '\\' := by
  have hall : (List.range 16).all (fun d => decide (isPrintableAscii (hexDigit d) = true ∧
    hexDigit d ≠ '"' ∧ hexDigit d ≠ '\\')) = true := by decide
  simpa using List.all_eq_true.mp hall d (List.mem_range.mpr h)

/-- Hexadecimal numerals consist of hexadecimal digits. -/
theorem mem_hex {c : Char} : ∀ {width n : Nat}, c ∈ hex width n → ∃ d < 16, c = hexDigit d
  | width + 1, n, h => by
    rw [hex, List.mem_append] at h
    rcases h with h | h
    · exact mem_hex h
    · exact ⟨n % 16, Nat.mod_lt _ (by decide), by simpa using h⟩

theorem length_hex : ∀ width n : Nat, (hex width n).length = width
  | 0, _ => rfl
  | width + 1, n => by
    rw [hex, List.length_append, length_hex width (n / 16), List.length_singleton]

/-! ## Quoted characters -/

/-- **What a character is written as**: an escape of one letter, the character itself, or one or two
escaped units. -/
inductive Quotes : Char → List Char → Prop where
  | short {c e : Char} (escape : Json.Reader.shortEscape? e = some c) (other : e ≠ 'u')
      (printable : isPrintableAscii e = true) : Quotes c ['\\', e]
  | self {c : Char} (printable : isPrintableAscii c = true) (noQuote : c ≠ '"')
      (noBackslash : c ≠ '\\') : Quotes c [c]
  | unit {c : Char} (small : c.toNat < 0x10000) : Quotes c (unitEscape c.toNat)
  | pair {c : Char} (large : 0x10000 ≤ c.toNat) :
      Quotes c (unitEscape (0xD800 + (c.toNat - 0x10000) / 0x400) ++
        unitEscape (0xDC00 + (c.toNat - 0x10000) % 0x400))

/-- Every character is written in one of these ways. -/
theorem quotes_quotedChar (c : Char) : Quotes c (quotedChar c) := by
  have hofNat : ∀ {n : Nat}, c.toNat = n → c = Char.ofNat n := by
    rintro n rfl
    exact (Char.ofNat_toNat c).symm
  rw [quotedChar]
  split_ifs with hquote hbackslash hfeed hreturn htab hform hback hprintable hsmall
  · subst hquote
    exact .short rfl (by decide) (by decide)
  · subst hbackslash
    exact .short rfl (by decide) (by decide)
  · subst hfeed
    exact .short rfl (by decide) (by decide)
  · subst hreturn
    exact .short rfl (by decide) (by decide)
  · subst htab
    exact .short rfl (by decide) (by decide)
  · obtain rfl := hofNat hform
    exact .short rfl (by decide) (by decide)
  · obtain rfl := hofNat hback
    exact .short rfl (by decide) (by decide)
  · exact .self (by simpa [isPrintableAscii] using hprintable) hquote hbackslash
  · exact .unit hsmall
  · exact .pair (Nat.not_lt.mp hsmall)

theorem isPrintable_of_mem_unitEscape {d : Char} {n : Nat} (h : d ∈ unitEscape n) :
    isPrintableAscii d = true := by
  rw [unitEscape, List.mem_cons, List.mem_cons] at h
  rcases h with rfl | rfl | h
  · decide
  · decide
  · obtain ⟨k, hk, rfl⟩ := mem_hex h
    exact (hexDigit_printable hk).1

/-- What a character is written as is printable ASCII. -/
theorem Quotes.printable {c : Char} {cs : List Char} (h : Quotes c cs) :
    ∀ d ∈ cs, isPrintableAscii d = true := by
  intro d hd
  cases h with
  | short _ _ hprintable =>
    rcases List.mem_cons.mp hd with rfl | hd
    · decide
    · rwa [List.mem_singleton.mp hd]
  | self hprintable => rwa [List.mem_singleton.mp hd]
  | unit => exact isPrintable_of_mem_unitEscape hd
  | pair =>
    rcases List.mem_append.mp hd with hd | hd
    · exact isPrintable_of_mem_unitEscape hd
    · exact isPrintable_of_mem_unitEscape hd

theorem Quotes.ne_nil {c : Char} {cs : List Char} (h : Quotes c cs) : cs ≠ [] := by
  cases h <;> simp [unitEscape]

theorem length_le_flatMap_quotedChar : ∀ cs : List Char, cs.length ≤ (cs.flatMap quotedChar).length
  | [] => Nat.le_refl _
  | c :: cs => by
    have hpos := List.length_pos_of_ne_nil (quotes_quotedChar c).ne_nil
    have hrest := length_le_flatMap_quotedChar cs
    rw [List.flatMap_cons, List.length_append, List.length_cons]
    omega

/-- A quoted text is its characters one by one, as they are written, between two quotes. -/
theorem toList_quoted (s : String) :
    (quoted s).toList = '"' :: (s.toList.flatMap quotedChar ++ ['"']) := by
  rw [quoted, String.toList_ofList]

/-- **A literal is printable.** -/
theorem isPrintable_of_mem_quoted {s : String} {d : Char} (h : d ∈ (quoted s).toList) :
    isPrintableAscii d = true := by
  rw [toList_quoted, List.mem_cons, List.mem_append, List.mem_singleton, List.mem_flatMap] at h
  rcases h with rfl | ⟨c, -, hd⟩ | rfl
  · decide
  · exact (quotes_quotedChar c).printable d hd
  · decide

theorem isLineBreak_of_isPrintable {c : Char} (h : isPrintableAscii c = true) :
    isLineBreak c = false := by
  simp only [isPrintableAscii, Bool.and_eq_true, decide_eq_true_eq] at h
  rw [isLineBreak, if_neg (by omega)]
  simp only [Bool.or_eq_false_iff, beq_eq_false_iff_ne]
  omega

end Text

/-! ## Reading a literal -/

namespace Json.Reader

open Text

variable {n : Nat} {start done tail : List Char} {fuel : Nat}

/-- Four digits are read as the number they were written for. -/
theorem fourHex?_hex (h : n < 0x10000) (tail : List Char) :
    fourHex? (hex 4 n ++ tail) = some (n, tail) := by
  have hd : ∀ k, hexValue? (hexDigit (k % 16)) = some (k % 16) := fun k =>
    hexValue?_hexDigit (Nat.mod_lt _ (by decide))
  simp only [hex, List.nil_append, List.cons_append, fourHex?, hd, Option.bind_eq_bind,
    Option.bind_some, Option.pure_def, Option.some.injEq, Prod.mk.injEq, and_true]
  omega

/-- An escaped unit that is no part of a pair is a character of its own. -/
theorem unitEscape_single {c : Char} (h : c.toNat < 0x10000) (htail : tail ≠ []) :
    unitEscape start (hex 4 c.toNat ++ tail) = .ok (c, tail) := by
  have hhigh : isHigh c.toNat = false := by
    have hvalid := c.valid
    simp only [UInt32.isValidChar, Nat.isValidChar] at hvalid
    simp only [isHigh, Bool.and_eq_false_iff, decide_eq_false_iff_not, Char.toNat]
    omega
  obtain ⟨d, rest, rfl⟩ := List.exists_cons_of_ne_nil htail
  simp only [unitEscape, fourHex?_hex h, hhigh, Char.ofNat_toNat]

/-- Two escaped units that make a pair are one character. -/
theorem unitEscape_pair {high low : Nat} (hhigh : isHigh high = true) (hlow : isLow low = true)
    (htail : tail ≠ []) : unitEscape start (hex 4 high ++ (Text.unitEscape low ++ tail)) =
      .ok (paired high low, tail) := by
  have hsmall : high < 0x10000 ∧ low < 0x10000 := by
    simp only [isHigh, isLow, Bool.and_eq_true, decide_eq_true_eq] at hhigh hlow
    omega
  have hlength : ¬ (hex 4 low ++ tail).length ≤ 4 := by
    rw [List.length_append, length_hex]
    have := List.length_pos_of_ne_nil htail
    omega
  rw [unitEscape, fourHex?_hex hsmall.1, Text.unitEscape, List.cons_append, List.cons_append]
  simp only [hhigh, if_neg hlength, fourHex?_hex hsmall.2, hlow, if_true]

/-- The units of a character beyond the first plane. -/
theorem paired_units {c : Char} (h : 0x10000 ≤ c.toNat) :
    isHigh (0xD800 + (c.toNat - 0x10000) / 0x400) = true ∧
      isLow (0xDC00 + (c.toNat - 0x10000) % 0x400) = true ∧
      paired (0xD800 + (c.toNat - 0x10000) / 0x400) (0xDC00 + (c.toNat - 0x10000) % 0x400) = c := by
  have hmax := toNat_le c
  refine ⟨?_, ?_, ?_⟩
  · simp only [isHigh, Bool.and_eq_true, decide_eq_true_eq]
    omega
  · simp only [isLow, Bool.and_eq_true, decide_eq_true_eq]
    omega
  · have hsum : 0x10000 + (0xD800 + (c.toNat - 0x10000) / 0x400 - 0xD800) * 0x400 +
        (0xDC00 + (c.toNat - 0x10000) % 0x400 - 0xDC00) = c.toNat := by omega
    rw [paired, hsum, Char.ofNat_toNat]

/-- A unit escape inside a string. -/
theorem string_unitEscape {c : Char} {behind : List Char}
    (h : unitEscape ('u' :: behind) behind = .ok (c, tail)) :
    string start (fuel + 1) done ('\\' :: 'u' :: behind) = string start fuel (c :: done) tail := by
  rw [string, if_neg (by decide), if_pos rfl]
  simp only [h]

/-- An escape of one letter inside a string. -/
theorem string_shortEscape {c e : Char} (hescape : shortEscape? e = some c) (hother : e ≠ 'u') :
    string start (fuel + 1) done ('\\' :: e :: tail) = string start fuel (c :: done) tail := by
  rw [string.eq_def]
  simp only [if_neg (by decide : ¬ '\\' = '"'), if_true, hescape]

/-- A character of a string that stands for itself. -/
theorem string_self {c : Char} (hprintable : isPrintableAscii c = true) (hquote : c ≠ '"')
    (hbackslash : c ≠ '\\') :
    string start (fuel + 1) done (c :: tail) = string start fuel (c :: done) tail := by
  have hcontrol : ¬ c.toNat ≤ 0x1F := by
    simp only [isPrintableAscii, Bool.and_eq_true, decide_eq_true_eq] at hprintable
    omega
  rw [string.eq_def]
  simp only [if_neg hquote, if_neg hbackslash, if_neg hcontrol]

/-- **One character of a string.** Behind what it is written as the reader has it, and goes on. -/
theorem string_of_quotes {c : Char} {cs : List Char} (h : Quotes c cs) (htail : tail ≠ []) :
    string start (fuel + 1) done (cs ++ tail) = string start fuel (c :: done) tail := by
  cases h with
  | short hescape hother => exact string_shortEscape hescape hother
  | self hprintable hquote hbackslash => exact string_self hprintable hquote hbackslash
  | unit hsmall => exact string_unitEscape (unitEscape_single hsmall htail)
  | pair hlarge =>
    obtain ⟨hhigh, hlow, hpaired⟩ := paired_units hlarge
    rw [List.append_assoc]
    exact string_unitEscape ((unitEscape_pair hhigh hlow htail).trans (by rw [hpaired]))

/-- **A quoted text is read back.** -/
theorem string_quoted (rest : List Char) : ∀ (cs : List Char) {fuel : Nat} {done : List Char},
    cs.length < fuel → string start fuel done (cs.flatMap quotedChar ++ '"' :: rest) =
      .ok (String.ofList (done.reverse ++ cs), rest)
  | [], fuel + 1, done, _ => by
    rw [List.flatMap_nil, List.nil_append, string.eq_def, List.append_nil]
    rfl
  | c :: cs, fuel + 1, done, hfuel => by
    rw [List.flatMap_cons, List.append_assoc, string_of_quotes (quotes_quotedChar c) (by simp),
      string_quoted rest cs (by simpa using hfuel), List.reverse_cons, List.append_assoc,
      List.singleton_append]

end Json.Reader

/-! ## Skipping a literal -/

namespace Output

open Text

/-- Characters **inside a literal**: the literal goes on behind them. -/
def Inside (cs : List Char) : Prop :=
  ∀ tail, literalLength? (cs ++ tail) = (literalLength? tail).map (· + cs.length)

namespace Inside

theorem nil : Inside [] := fun tail => by simp

theorem append {as bs : List Char} (ha : Inside as) (hb : Inside bs) : Inside (as ++ bs) := by
  intro tail
  rw [List.append_assoc, ha, hb, Option.map_map, List.length_append]
  cases literalLength? tail with
  | none => rfl
  | some k =>
    rw [Option.map_some, Option.map_some, Function.comp_apply, Nat.add_assoc,
      Nat.add_comm bs.length]

theorem self {c : Char} (hquote : c ≠ '"') (hbackslash : c ≠ '\\') : Inside [c] := by
  intro tail
  rw [List.singleton_append, literalLength?.eq_def]
  split <;> simp_all

theorem escape {e : Char} (h : isPrintableAscii e = true) : Inside ['\\', e] := by
  intro tail
  have hfeed : e ≠ '\n' := by
    rintro rfl
    exact absurd h (by decide)
  rw [List.cons_append, List.singleton_append, literalLength?, if_neg hfeed]
  rfl

theorem hex : ∀ width n : Nat, Inside (Text.hex width n)
  | 0, _ => nil
  | width + 1, n => by
    obtain ⟨-, hquote, hbackslash⟩ := hexDigit_printable (Nat.mod_lt n (by decide : 16 > 0))
    exact (hex width (n / 16)).append (self hquote hbackslash)

theorem unitEscape (n : Nat) : Inside (Text.unitEscape n) :=
  (escape (by decide : isPrintableAscii 'u' = true)).append (hex 4 n)

/-- None of the ways to write a character ends the literal that it stands in. -/
theorem ofQuotes {c : Char} {cs : List Char} (h : Quotes c cs) : Inside cs := by
  cases h with
  | short _ _ hprintable => exact escape hprintable
  | self _ hquote hbackslash => exact self hquote hbackslash
  | unit => exact unitEscape _
  | pair => exact (unitEscape _).append (unitEscape _)

theorem flatMap_quotedChar : ∀ cs : List Char, Inside (cs.flatMap quotedChar)
  | [] => nil
  | c :: cs => (ofQuotes (quotes_quotedChar c)).append (flatMap_quotedChar cs)

end Inside

/-- As many characters as are to be skipped are skipped. -/
theorem withoutLiterals_skip (rest : List Char) : ∀ cs : List Char,
    withoutLiterals cs.length (cs ++ rest) = withoutLiterals 0 rest
  | [] => rfl
  | _ :: cs => by
    rw [List.cons_append, List.length_cons, withoutLiterals]
    exact withoutLiterals_skip rest cs

/-- **A literal is left out as a whole.** -/
theorem withoutLiterals_quoted (s : String) (rest : List Char) :
    withoutLiterals 0 ((quoted s).toList ++ rest) = withoutLiterals 0 rest := by
  have hlength : literalLength? (s.toList.flatMap quotedChar ++ '"' :: rest) =
      some (s.toList.flatMap quotedChar ++ ['"']).length := by
    rw [Inside.flatMap_quotedChar, literalLength?, Option.map_some, List.length_append,
      List.length_singleton, Nat.add_comm]
  have hskip := withoutLiterals_skip rest (s.toList.flatMap quotedChar ++ ['"'])
  rw [List.append_assoc, List.singleton_append] at hskip
  rw [toList_quoted, List.cons_append, List.append_assoc, List.singleton_append, withoutLiterals,
    if_pos rfl, hlength]
  exact hskip

theorem withoutLiterals_cons {c : Char} (h : c ≠ '"') (rest : List Char) :
    withoutLiterals 0 (c :: rest) = c :: withoutLiterals 0 rest := by
  rw [withoutLiterals, if_neg h]

end Output

end TypeScribe
