import TypeScribe.Proofs.Yield

/-!
# Property names

A property name is written **faithfully** (`Faithful`) if it stands as it is and is one identifier with
nothing around it, or if it is a JSON literal on one line of ASCII that is read back as the name.

* What is quoted is faithful: `ofText_quoted` reads a whole literal back.
* What stands as it is need not be. The test for an identifier lets one line feed stand behind a bare
  name (`isIdentifier_iff`), and a reader passes over that line feed (`named?_propertyName_iff`).

So a bare name and the same name with a line feed behind it are written as one property, and no other
two names are (`propertyName_faithful_iff`).
-/

namespace TypeScribe.Naming

open Text

variable {name bare w : String}

/-- **One identifier**: a letter, underscore or dollar sign, then word characters and dollar signs. -/
def IsBare (name : String) : Prop :=
  ∃ c rest, name.toList = c :: rest ∧ (c.isAlpha = true ∨ c = '_' ∨ c = '$') ∧
    ∀ d ∈ rest, isWord d = true ∨ d = '$'

/-- One identifier with one line feed behind it. -/
def IsFed (name : String) : Prop := ∃ bare, IsBare bare ∧ name = bare ++ "\n"

/-- **Faithful** texts of a property name. -/
inductive Faithful (name text : String) : Prop where
  | bare (same : text = name) (ident : IsBare name)
      (solid : ∀ c ∈ text.toList, isBlank c = false ∧ isLineBreak c = false)
  | literal (ascii : ∀ c ∈ text.toList, c.toNat < 0x80)
      (line : ∀ c ∈ text.toList, isLineBreak c = false)
      (read : Json.ofText text.toList = .ok (.str name))

/-- **The property that a text names**: a word names itself, and a literal the text it is read as. -/
def named? (text : String) : Option String :=
  match Token.read text.toList with
  | some [.word w] => some w
  | some [.literal s] => some s
  | _ => none

/-! ## Identifiers -/

theorem isBareName_iff : isBareName name.toList = true ↔ IsBare name := by
  rw [IsBare]
  cases name.toList with
  | nil => simp [isBareName]
  | cons c rest =>
    simp only [isBareName, isNameStart, isNamePart, Bool.and_eq_true, Bool.or_eq_true, beq_iff_eq,
      List.all_eq_true, or_assoc]
    refine ⟨fun h => ⟨c, rest, rfl, h⟩, ?_⟩
    rintro ⟨d, more, heq, h⟩
    obtain ⟨rfl, rfl⟩ := List.cons.inj heq
    exact h

theorem IsBare.plain (h : IsBare name) : ∀ c ∈ name.toList, isPlain c = true :=
  (isPlain_of_isBareName (isBareName_iff.mpr h)).2

theorem IsFed.mem_feed (h : IsFed name) : '\n' ∈ name.toList := by
  obtain ⟨bare, -, rfl⟩ := h
  simp [String.toList_append]

theorem IsFed.not_isBare (h : IsFed name) : ¬ IsBare name :=
  fun hbare => absurd (hbare.plain _ h.mem_feed) (by decide)

/-- **The test for an identifier** takes one identifier, alone or with a line feed behind it. -/
theorem isIdentifier_iff : isIdentifier name = true ↔ IsBare name ∨ IsFed name := by
  rw [isIdentifier, Bool.or_eq_true, Bool.and_eq_true, beq_iff_eq, isBareName_iff]
  refine or_congr_right ⟨?_, ?_⟩
  · rintro ⟨hlast, hbare⟩
    refine ⟨String.ofList name.toList.dropLast, ?_, ?_⟩
    · rwa [← isBareName_iff, String.toList_ofList]
    · rw [← String.toList_inj, String.toList_append, String.toList_ofList]
      exact (List.dropLast_append_getLast? _ hlast).symm
  · rintro ⟨bare, hbare, rfl⟩
    have hchars : (bare ++ "\n").toList = bare.toList ++ ['\n'] := String.toList_append ..
    rw [hchars]
    exact ⟨List.getLast?_concat .., by rwa [List.dropLast_concat, isBareName_iff]⟩

instance (name : String) : Decidable (IsFed name) :=
  decidable_of_iff (isIdentifier name = true ∧ ¬ isBareName name.toList = true) <| by
    rw [isIdentifier_iff, isBareName_iff]
    exact ⟨fun h => h.1.resolve_left h.2, fun h => ⟨.inr h, h.not_isBare⟩⟩

/-- An identifier, or what passes for one because of the line break behind it, stands without
quotes. -/
theorem propertyName_of_identifier (h : IsBare name ∨ IsFed name) : propertyName name = name := by
  rw [propertyName, if_pos (isIdentifier_iff.mpr h)]

/-- Any other name is quoted. -/
theorem propertyName_of_other (h : ¬ (IsBare name ∨ IsFed name)) : propertyName name = quoted name := by
  rw [propertyName, if_neg (mt isIdentifier_iff.mp h)]

/-! ## Faithful texts -/

/-- **A literal is a whole JSON text** for the name that was quoted. -/
theorem ofText_quoted (name : String) : Json.ofText (quoted name).toList = .ok (.str name) := by
  have hfuel : name.toList.length < 2 * (quoted name).toList.length + 1 := by
    have hle := length_le_flatMap_quotedChar name.toList
    rw [toList_quoted, List.length_cons, List.length_append]
    omega
  have hvalue : Json.Reader.value (2 * (quoted name).toList.length + 2) (quoted name).toList =
      .ok (.str name, []) := by
    rw [toList_quoted] at hfuel ⊢
    rw [Json.Reader.value, Json.Reader.string_quoted [] name.toList hfuel]
    simp only [Except.map, List.reverse_nil, List.nil_append, String.ofList_toList]
  have hskip : Json.Reader.skip (quoted name).toList = (quoted name).toList := by
    rw [toList_quoted]
    exact List.dropWhile_cons_of_neg (by decide)
  have hmark : (quoted name).toList.head? ≠ some (Char.ofNat 0xFEFF) := by
    rw [toList_quoted, List.head?_cons, ne_eq, Option.some_inj]
    decide
  rw [Json.ofText, Json.Reader.document, if_neg hmark, hskip, hvalue]
  rfl

theorem faithful_of_isBare (h : IsBare name) : Faithful name name := by
  refine .bare rfl h ?_
  intro c hc
  exact ⟨(isPlain_iff.mp (h.plain c hc)).1, isLineBreak_of_isPlain (h.plain c hc)⟩

/-- A quoted name says which name it is. -/
theorem faithful_quoted (name : String) : Faithful name (quoted name) := by
  refine .literal ?_ (fun c hc => isLineBreak_of_isPrintable (isPrintable_of_mem_quoted hc))
    (ofText_quoted name)
  intro c hc
  have hprintable := isPrintable_of_mem_quoted hc
  simp only [isPrintableAscii, Bool.and_eq_true, decide_eq_true_eq] at hprintable
  omega

/-- A name with a line feed in it is not faithful to itself. -/
theorem Faithful.not_isFed (h : Faithful name name) : ¬ IsFed name := by
  intro hfed
  cases h with
  | bare _ hbare => exact hfed.not_isBare hbare
  | literal _ hline => exact absurd (hline _ hfed.mem_feed) (by decide)

/-! ## Reading names -/

/-- However it is written, the name of a property is one token. -/
theorem read_propertyName (name : String) :
    Token.read (propertyName name).toList = some [.key name] := by
  have hlaid : Laid .strict [.key name] ((propertyName name).toList ++ []) := .key name .nil .nil
  rw [List.append_nil] at hlaid
  exact hlaid.read

theorem named?_propertyName (name : String) :
    named? (propertyName name) = some (if isIdentifier name then bareName name else name) := by
  rw [named?, read_propertyName, Token.key]
  split_ifs <;> rfl

theorem bareName_append (h : IsBare bare) {behind : String}
    (hbehind : behind.toList.takeWhile isPlain = []) : bareName (bare ++ behind) = bare := by
  rw [bareName, String.toList_append, List.takeWhile_append_of_pos h.plain, hbehind, List.append_nil,
    String.ofList_toList]

/-- A name is read back from what it is written as, unless a line break stands behind a bare name.
-/
theorem named?_of_not_isFed (h : ¬ IsFed name) : named? (propertyName name) = some name := by
  rw [named?_propertyName]
  split_ifs with hident
  · have hbare := (isIdentifier_iff.mp hident).resolve_right h
    rw [← String.append_empty (s := name), bareName_append hbare rfl, String.append_empty]
  · rfl

/-- A line break behind a bare name is lost. -/
theorem named?_feed (h : IsBare bare) : named? (propertyName (bare ++ "\n")) = some bare := by
  rw [named?_propertyName, if_pos (isIdentifier_iff.mpr (.inr ⟨bare, h, rfl⟩)), bareName_append h rfl]

/-- **What a written name is read as**: itself, unless a line feed behind an identifier is lost. -/
theorem named?_propertyName_iff : named? (propertyName name) = some w ↔
    (w = name ∧ ¬ IsFed name) ∨ (IsBare w ∧ name = w ++ "\n") := by
  by_cases hfed : IsFed name
  · obtain ⟨bare, hbare, rfl⟩ := id hfed
    rw [named?_feed hbare, Option.some_inj]
    refine ⟨?_, ?_⟩
    · rintro rfl
      exact .inr ⟨hbare, rfl⟩
    · rintro (⟨-, hnot⟩ | ⟨-, heq⟩)
      · exact absurd hfed hnot
      · exact (String.append_left_inj _).mp heq
  · rw [named?_of_not_isFed hfed, Option.some_inj, eq_comm]
    refine ⟨fun h => .inl ⟨h, hfed⟩, ?_⟩
    rintro (⟨h, -⟩ | ⟨hbare, rfl⟩)
    · exact h
    · exact absurd ⟨w, hbare, rfl⟩ hfed

/-- **Property names survive, up to one line feed.** A name is written faithfully unless it is an identifier with a
line feed behind it, and two names are written as one property just if they are equal or differ by that line feed. -/
theorem propertyName_faithful_iff (name other : String) :
    (Faithful name (propertyName name) ↔ ¬ ∃ bare, IsBare bare ∧ name = bare ++ "\n") ∧
      ((∃ property, named? (propertyName name) = some property ∧
          named? (propertyName other) = some property) ↔
        name = other ∨ (IsBare name ∧ other = name ++ "\n") ∨ (IsBare other ∧ name = other ++ "\n")) := by
  refine ⟨⟨?_, ?_⟩, ?_, ?_⟩
  · intro h hfed
    rw [propertyName_of_identifier (.inr hfed)] at h
    exact h.not_isFed hfed
  · intro hfed
    by_cases hident : IsBare name ∨ IsFed name
    · rw [propertyName_of_identifier hident]
      exact faithful_of_isBare (hident.resolve_right hfed)
    · rw [propertyName_of_other hident]
      exact faithful_quoted name
  · rintro ⟨property, hname, hother⟩
    rcases named?_propertyName_iff.mp hname with ⟨rfl, -⟩ | ⟨hbare, rfl⟩ <;>
      rcases named?_propertyName_iff.mp hother with ⟨heq, -⟩ | ⟨hbare', rfl⟩
    · exact .inl heq
    · exact .inr (.inl ⟨hbare', rfl⟩)
    · subst heq
      exact .inr (.inr ⟨hbare, rfl⟩)
    · exact .inl rfl
  · rintro (rfl | ⟨hbare, rfl⟩ | ⟨hbare, rfl⟩)
    · by_cases hfed : IsFed name
      · obtain ⟨bare, hbare, rfl⟩ := hfed
        exact ⟨bare, named?_feed hbare, named?_feed hbare⟩
      · exact ⟨name, named?_of_not_isFed hfed, named?_of_not_isFed hfed⟩
    · exact ⟨name, named?_of_not_isFed fun hfed => hfed.not_isBare hbare, named?_feed hbare⟩
    · exact ⟨other, named?_feed hbare, named?_of_not_isFed fun hfed => hfed.not_isBare hbare⟩

end TypeScribe.Naming
