import TypeScribe.Proofs.Literals

/-!
# Tokens

A text of declarations is read as a list of **tokens**: words, string literals and marks. A word is a
longest run of plain characters, a literal is a JSON string, and blanks only separate.

The other direction is a relation: a text is **laid out** as a list of tokens (`Laid`) if it is made of
their characters in that order, with gaps in between, and no word runs into what follows it. Two things
are shown of it.

* Moving the lines of a text to the right keeps its tokens (`Laid.shifted`).
* A text is read as the tokens it is laid out as (`Laid.read`).

What a gap is, and what may follow a word, is left to a **spacing**, since less is known of a text if
its margin is not blank.
-/

namespace TypeScribe

open Text

/-- **Tokens** of a text of declarations. -/
inductive Token where
  | word (text : String)
  | literal (text : String)
  | mark (mark : Char)
  deriving Repr, DecidableEq

namespace Token

/-! ## Reading -/

/-- The token that leads a text, and the rest behind it. -/
def next? : List Char → Option (Token × List Char)
  | [] => none
  | c :: rest =>
    if c = '"' then
      match Json.Reader.string (c :: rest) rest.length [] rest with
      | .ok (text, behind) => some (.literal text, behind)
      | .error _ => none
    else if isMark c then some (.mark c, rest)
    else if isPlain c then
      some (.word (String.ofList ((c :: rest).takeWhile isPlain)), (c :: rest).dropWhile isPlain)
    else none

/-- The tokens of a text, if there are fewer of them than the fuel. -/
def readWithin : (fuel : Nat) → List Char → Option (List Token)
  | 0, _ => none
  | fuel + 1, cs =>
    match cs.dropWhile isBlank with
    | [] => some []
    | rest => do
      let (token, behind) ← next? rest
      let tokens ← readWithin fuel behind
      return token :: tokens

/-- **The tokens of a text.** -/
def read (cs : List Char) : Option (List Token) := readWithin (cs.length + 1) cs

end Token

/-! ## Laying out -/

/-- **Spacing**: the characters that may stand between tokens, the words there may be, and the characters
that a word would go on with. -/
structure Spacing where
  gap : Char → Prop
  word : String → Prop
  clings : Char → Prop
  feed : gap '\n'
  space : gap ' '
  plain : ∀ {w : String}, word w → ∀ c ∈ w.toList, isPlain c = true
  words : ∀ {w : String}, w ≠ "" → (∀ c ∈ w.toList, isPlain c = true) → word w
  gapApart : ∀ {c : Char}, gap c → ¬ clings c
  markApart : ∀ {c : Char}, isMark c = true → ¬ clings c

variable {s : Spacing} {ts us : List Token} {cs ds margin : List Char} {fresh : Bool}

/-- A text that no word goes on with. -/
def Spacing.Apart (s : Spacing) (cs : List Char) : Prop := ∀ c, cs.head? = some c → ¬ s.clings c

/-- **A text is laid out** as a list of tokens. -/
inductive Laid (s : Spacing) : List Token → List Char → Prop where
  | nil : Laid s [] []
  | gap {ts : List Token} {c : Char} {cs : List Char} (gap : s.gap c) (rest : Laid s ts cs) :
      Laid s ts (c :: cs)
  | word {ts : List Token} {w : String} {cs : List Char} (word : s.word w) (apart : s.Apart cs)
      (rest : Laid s ts cs) : Laid s (.word w :: ts) (w.toList ++ cs)
  | literal {ts : List Token} (text : String) {cs : List Char} (rest : Laid s ts cs) :
      Laid s (.literal text :: ts) ((quoted text).toList ++ cs)
  | mark {ts : List Token} {c : Char} {cs : List Char} (mark : isMark c = true) (rest : Laid s ts cs) :
      Laid s (.mark c :: ts) (c :: cs)

namespace Spacing.Apart

theorem nil : s.Apart [] := fun _ h => absurd h (by simp)

theorem gap {c : Char} (h : s.gap c) : s.Apart (c :: cs) := by
  intro d hd
  obtain rfl : c = d := by simpa using hd
  exact s.gapApart h

theorem mark {c : Char} (h : isMark c = true) : s.Apart (c :: cs) := by
  intro d hd
  obtain rfl : c = d := by simpa using hd
  exact s.markApart h

theorem append (h : s.Apart cs) (h' : s.Apart ds) : s.Apart (cs ++ ds) := by
  cases cs with
  | nil => exact h'
  | cons c cs => exact h

end Spacing.Apart

namespace Laid

/-- Gaps may stand in front. -/
theorem gaps {g : List Char} (hg : ∀ c ∈ g, s.gap c) (h : Laid s ts cs) : Laid s ts (g ++ cs) := by
  induction g with
  | nil => exact h
  | cons c g ih =>
    exact .gap (hg c (List.mem_cons_self ..)) (ih fun d hd => hg d (List.mem_cons_of_mem _ hd))

/-- **Texts one after the other**, if the second does not go on with a word. -/
theorem append (h : Laid s ts cs) (hapart : s.Apart ds) (h' : Laid s us ds) :
    Laid s (ts ++ us) (cs ++ ds) := by
  induction h with
  | nil => exact h'
  | gap hgap _ ih => exact .gap hgap ih
  | word hword hends _ ih =>
    rw [List.append_assoc]
    exact .word hword (hends.append hapart) ih
  | literal text _ ih =>
    rw [List.append_assoc]
    exact .literal text ih
  | mark hmark _ ih => exact .mark hmark ih

end Laid

/-! ## Moving lines -/

namespace Text

theorem shifted_cons_of_not_break {c : Char} (h : isLineBreak c = false) (margin : List Char)
    (fresh : Bool) (rest : List Char) : shifted margin fresh (c :: rest) =
      (if fresh then margin else []) ++ c :: shifted margin false rest := by
  have hreturn : c ≠ '\r' := by
    rintro rfl
    exact absurd h (by decide)
  rw [shifted]
  · rw [if_neg (by simp [h])]
    cases fresh <;> rfl
  · intro hc
    exact absurd hc hreturn
  · intro _ hc
    exact absurd hc hreturn

theorem shifted_feed (margin : List Char) (fresh : Bool) (rest : List Char) :
    shifted margin fresh ('\n' :: rest) = '\n' :: shifted margin true rest := by
  rw [shifted]
  · rw [if_pos (by decide)]
  · simp
  · simp

/-- A line break stays one, as a line feed. It is dropped at the very end, and in front of a line feed
that belongs to it. -/
theorem shifted_cons_of_break {c : Char} (h : isLineBreak c = true) (margin : List Char)
    (fresh : Bool) (rest : List Char) :
    shifted margin fresh (c :: rest) = '\n' :: shifted margin true rest ∨
      shifted margin fresh (c :: rest) = shifted margin true rest ∧
        (rest = [] ∨ ∃ more, rest = '\n' :: more) := by
  rw [shifted.eq_def]
  split
  · contradiction
  · rename_i heq
    obtain ⟨rfl, rfl⟩ := List.cons.inj heq
    exact Or.inr ⟨rfl, Or.inl rfl⟩
  · rename_i more heq
    obtain ⟨rfl, rfl⟩ := List.cons.inj heq
    exact Or.inr ⟨(shifted_feed margin true more).symm, Or.inr ⟨more, rfl⟩⟩
  · rename_i heq
    obtain ⟨rfl, rfl⟩ := List.cons.inj heq
    rw [if_pos h]
    exact Or.inl rfl

/-- A row of characters without line breaks stays together. -/
theorem shifted_append (margin : List Char) (fresh : Bool) (rest : List Char) : ∀ {cs : List Char},
    cs ≠ [] → (∀ c ∈ cs, isLineBreak c = false) →
      shifted margin fresh (cs ++ rest) =
        (if fresh then margin else []) ++ (cs ++ shifted margin false rest)
  | [c], _, h => by
    exact shifted_cons_of_not_break (h c (List.mem_cons_self ..)) margin fresh rest
  | c :: d :: cs, _, h => by
    rw [List.cons_append, shifted_cons_of_not_break (h c (List.mem_cons_self ..)),
      shifted_append margin false rest (List.cons_ne_nil d cs)
        (fun e he => h e (List.mem_cons_of_mem _ he))]
    rfl

end Text

section

variable (hmargin : ∀ c ∈ margin, s.gap c)

include hmargin

theorem Spacing.gap_of_mem_margin {c : Char} (hc : c ∈ if fresh then margin else []) : s.gap c := by
  split at hc
  · exact hmargin c hc
  · exact absurd hc (by simp)

/-- Moving a text to the right keeps apart what was apart. -/
theorem Spacing.Apart.shifted (h : s.Apart cs) : s.Apart (shifted margin fresh cs) := by
  cases cs with
  | nil =>
    rw [Text.shifted]
    exact .nil
  | cons c rest =>
    cases hbreak : isLineBreak c with
    | false =>
      rw [shifted_cons_of_not_break hbreak]
      refine append ?_ h
      intro d hd
      exact s.gapApart (s.gap_of_mem_margin hmargin (List.mem_of_mem_head? hd))
    | true =>
      rcases shifted_cons_of_break hbreak margin fresh rest with heq | ⟨heq, rfl | ⟨more, rfl⟩⟩
      · rw [heq]
        exact .gap s.feed
      · rw [heq, Text.shifted]
        exact .nil
      · rw [heq, shifted_feed]
        exact .gap s.feed

namespace Laid

/-- A token is moved as a whole: the margin stands in front of it if it begins a line. -/
theorem shifted_token (token : List Char) (hbreak : ∀ c ∈ token, isLineBreak c = false)
    (hput : ∀ fresh, Laid s ts (token ++ Text.shifted margin fresh cs)) :
    Laid s ts (Text.shifted margin fresh (token ++ cs)) := by
  by_cases hempty : token = []
  · subst hempty
    exact hput fresh
  · rw [shifted_append margin fresh cs hempty hbreak]
    exact gaps (fun c hc => s.gap_of_mem_margin hmargin hc) (hput false)

/-- **Moving the lines of a text keeps its tokens**, if the margin is a gap. -/
theorem shifted (h : Laid s ts cs) (fresh : Bool) : Laid s ts (Text.shifted margin fresh cs) := by
  induction h generalizing fresh with
  | nil =>
    rw [Text.shifted]
    exact .nil
  | @gap ts c cs hgap _ ih =>
    cases hbreak : isLineBreak c with
    | false =>
      rw [shifted_cons_of_not_break hbreak]
      exact gaps (fun d hd => s.gap_of_mem_margin hmargin hd) (.gap hgap (ih false))
    | true =>
      rcases shifted_cons_of_break hbreak margin fresh cs with heq | ⟨heq, -⟩
      · rw [heq]
        exact .gap s.feed (ih true)
      · rw [heq]
        exact ih true
  | word hword hapart _ ih =>
    refine shifted_token hmargin _ ?_ fun fresh => .word hword (hapart.shifted hmargin) (ih fresh)
    exact fun c hc => isLineBreak_of_isPlain (s.plain hword c hc)
  | literal text _ ih =>
    refine shifted_token hmargin _ ?_ fun fresh => .literal text (ih fresh)
    exact fun c hc => isLineBreak_of_isPrintable (isPrintable_of_mem_quoted hc)
  | @mark ts c cs hmark _ ih =>
    refine shifted_token hmargin [c] ?_ fun fresh => .mark hmark (ih fresh)
    intro d hd
    rw [List.mem_singleton.mp hd]
    exact isLineBreak_of_isMark hmark

end Laid

end

/-! ## Reading what is laid out -/

/-- **Strict spacing**: gaps are spaces, tabs and line feeds, and words are longest runs of plain
characters. -/
def Spacing.strict : Spacing where
  gap c := c = ' ' ∨ c = '\t' ∨ c = '\n'
  word w := w ≠ "" ∧ ∀ c ∈ w.toList, isPlain c = true
  clings c := isPlain c = true
  feed := Or.inr (Or.inr rfl)
  space := Or.inl rfl
  plain h := h.2
  words hne h := ⟨hne, h⟩
  gapApart := by
    rintro c (rfl | rfl | rfl) <;> decide
  markApart {c} h := by
    rw [Bool.not_eq_true]
    simpa using forall_mark (P := fun c => !isPlain c) (by decide) h

theorem Spacing.strict_blank {c : Char} (h : Spacing.strict.gap c) : isBlank c = true := by
  rcases h with rfl | rfl | rfl <;> decide

namespace Token

/-- A word is a longest run of plain characters. -/
theorem next?_word {w : String} (h : Spacing.strict.word w) (hapart : Spacing.strict.Apart cs) :
    next? (w.toList ++ cs) = some (.word w, cs) := by
  obtain ⟨hne, hplain⟩ := h
  have hstop : cs.takeWhile isPlain = [] ∧ cs.dropWhile isPlain = cs := by
    cases cs with
    | nil => exact ⟨rfl, rfl⟩
    | cons d rest =>
      have hd : ¬ isPlain d = true := hapart d rfl
      exact ⟨List.takeWhile_cons_of_neg hd, List.dropWhile_cons_of_neg hd⟩
  have htake : (w.toList ++ cs).takeWhile isPlain = w.toList := by
    rw [List.takeWhile_append_of_pos hplain, hstop.1, List.append_nil]
  have hdrop : (w.toList ++ cs).dropWhile isPlain = cs := by
    rw [List.dropWhile_append_of_pos hplain, hstop.2]
  obtain ⟨c, rest, hw⟩ := List.exists_cons_of_ne_nil (toList_ne_nil hne)
  have hc : isPlain c = true := hplain c (by rw [hw]; exact List.mem_cons_self ..)
  have hquote : c ≠ '"' := by
    rintro rfl
    exact absurd hc (by decide)
  have hmark : isMark c = false := (isPlain_iff.mp hc).2.2
  rw [hw, List.cons_append] at htake hdrop ⊢
  rw [next?, if_neg hquote, if_neg (by simp [hmark]), if_pos hc, htake, hdrop, ← hw,
    String.ofList_toList]

theorem next?_literal (text : String) :
    next? ((quoted text).toList ++ cs) = some (.literal text, cs) := by
  have hlength : text.toList.length < (text.toList.flatMap quotedChar ++ '"' :: cs).length := by
    rw [List.length_append, List.length_cons]
    have hle := length_le_flatMap_quotedChar text.toList
    omega
  rw [toList_quoted, List.cons_append, List.append_assoc, List.singleton_append, next?, if_pos rfl,
    Json.Reader.string_quoted cs text.toList hlength]
  simp only [List.reverse_nil, List.nil_append, String.ofList_toList]

theorem next?_mark {c : Char} (h : isMark c = true) : next? (c :: cs) = some (.mark c, cs) := by
  have hquote : c ≠ '"' := by
    rintro rfl
    exact absurd h (by decide)
  rw [next?, if_neg hquote, if_pos h]

/-- Blanks in front are passed over. -/
theorem readWithin_blank {c : Char} (h : isBlank c = true) (fuel : Nat) :
    readWithin fuel (c :: cs) = readWithin fuel cs := by
  cases fuel with
  | zero => rfl
  | succ fuel => rw [readWithin, readWithin, List.dropWhile_cons_of_pos h]

/-- A token that begins with no blank is the first, and the rest is read with less fuel. -/
theorem readWithin_token {token : Token} {lead : List Char} {fuel : Nat} (hne : lead ≠ [])
    (hblank : ∀ c ∈ lead.head?, isBlank c = false) (hnext : next? (lead ++ cs) = some (token, cs))
    (hrest : ∀ {fuel : Nat}, cs.length < fuel → readWithin fuel cs = some ts)
    (hfuel : (lead ++ cs).length < fuel) : readWithin fuel (lead ++ cs) = some (token :: ts) := by
  obtain ⟨c, lead, rfl⟩ := List.exists_cons_of_ne_nil hne
  have hc : isBlank c = false := hblank c rfl
  obtain ⟨fuel, rfl⟩ : ∃ k, fuel = k + 1 := ⟨fuel - 1, by omega⟩
  have hless : cs.length < fuel := by
    simp only [List.cons_append, List.length_cons, List.length_append] at hfuel
    omega
  rw [List.cons_append] at hnext ⊢
  rw [readWithin, List.dropWhile_cons_of_neg (by simp [hc])]
  simp only [hnext, hrest hless, Option.bind_eq_bind, Option.bind_some, Option.pure_def]

/-- A text that lays out tokens is read as those tokens, given enough fuel. -/
theorem readWithin_laid (h : Laid .strict ts cs) : ∀ {fuel : Nat}, cs.length < fuel →
    readWithin fuel cs = some ts := by
  induction h with
  | nil =>
    intro fuel hfuel
    obtain ⟨fuel, rfl⟩ := Nat.exists_eq_add_of_lt hfuel
    rfl
  | gap hgap _ ih =>
    intro fuel hfuel
    rw [readWithin_blank (Spacing.strict_blank hgap)]
    exact ih (Nat.lt_of_succ_lt hfuel)
  | word hword hapart _ ih =>
    intro fuel hfuel
    refine readWithin_token (toList_ne_nil hword.1) ?_ (next?_word hword hapart) ih hfuel
    intro c hc
    exact (isPlain_iff.mp (hword.2 c (List.mem_of_mem_head? hc))).1
  | literal text _ ih =>
    intro fuel hfuel
    refine readWithin_token (by simp [toList_quoted]) ?_ (next?_literal text) ih hfuel
    intro c hc
    obtain rfl : '"' = c := by simpa [toList_quoted] using hc
    decide
  | @mark ts c cs hmark _ ih =>
    intro fuel hfuel
    refine readWithin_token (List.cons_ne_nil c []) ?_ (next?_mark hmark) ih hfuel
    intro d hd
    obtain rfl : c = d := by simpa using hd
    simpa using forall_mark (P := fun c => !isBlank c) (by decide) hmark

end Token

/-- **A text is read as the tokens it is laid out as.** -/
theorem Laid.read (h : Laid .strict ts cs) : Token.read cs = some ts :=
  Token.readWithin_laid h (Nat.lt_succ_self _)

end TypeScribe
