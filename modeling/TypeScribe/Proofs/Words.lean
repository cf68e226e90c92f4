import TypeScribe.Proofs.Names

/-!
# Type names word by word

A type name is made by walking along the characters of a title. What comes out can be said without any
walk: the title has **words** (`Naming.words`), and its type name is these words with capital first letters,
one behind the other (`Naming.typeName_words`).

* **Pieces.** Between two separators stands a piece, which may be empty. The walk raises the first character
  of every piece but the first one (`Naming.joined_pieces`), and raises that at the end.
* **Capitals.** The character that is raised at the end may have been raised before. It makes no difference,
  because an upper-case form begins with a character that is its own upper-case form
  (`Text.upper_of_head_upper`). This is a fact about the tables of upper-case forms.
-/

namespace TypeScribe

/-! ## Capitals stay as they are -/

namespace Text

/-- Whether no capital of a run is a member of another run: they are apart, or lie in between. -/
def CaseRun.isClearOf (r s : CaseRun) : Bool :=
  (r.capital + (r.last - r.first)).blt s.first || s.last.blt r.capital ||
    ((r.first.beq r.last || r.stride.beq 2) && s.stride.beq 2 && r.capital % 2 != s.first % 2)

/-- What the table has to say of the capitals of a run: there is one, in ASCII, or none of them has an
upper-case form of its own. -/
def CaseRun.isFinal (r : CaseRun) : Bool :=
  if r.capital.blt 0x80 then
    r.first.beq r.last && (Char.ofNat r.capital).toUpper == Char.ofNat r.capital
  else
    caseRuns.all r.isClearOf &&
      caseExpansions.all fun e => e.1.blt r.capital || (r.capital + (r.last - r.first)).blt e.1

variable {c d : Char} {n : Nat} {r s : CaseRun}

theorem CaseRun.not_holds_of_isClearOf (h : r.isClearOf s = true) (hr : r.holds n = true) :
    s.holds (r.capital + (n - r.first)) = false := by
  simp only [isClearOf, Bool.or_eq_true, Bool.and_eq_true, Nat.blt_eq, Nat.beq_eq, bne_iff_ne] at h
  simp only [holds, Bool.and_eq_true, decide_eq_true_eq, beq_iff_eq] at hr
  obtain ⟨⟨hfirst, hlast⟩, hstride⟩ := hr
  by_contra hs
  rw [Bool.not_eq_false] at hs
  simp only [holds, Bool.and_eq_true, decide_eq_true_eq, beq_iff_eq] at hs
  obtain ⟨⟨hsfirst, hslast⟩, hsstride⟩ := hs
  rcases h with (h | h) | ⟨⟨hsteps, hspaced⟩, hodd⟩
  · omega
  · omega
  · rw [hspaced] at hsstride
    have heven : (n - r.first) % 2 = 0 := by
      rcases hsteps with hone | htwo
      · have hzero : n - r.first = 0 := by omega
        rw [hzero]
      · rwa [htwo] at hstride
    omega

/-- A code point beyond ASCII that is in no table is its own upper-case form. -/
theorem upper_of_untabled (hbeyond : 0x80 ≤ c.toNat)
    (hruns : ∀ s ∈ caseRuns, s.holds c.toNat = false)
    (hforms : ∀ e ∈ caseExpansions, e.1 ≠ c.toNat) : upper c = [c] := by
  have hnoRun : caseRuns.find? (·.holds c.toNat) = none := by
    rw [List.find?_eq_none]
    intro s hs
    rw [hruns s hs]
    exact Bool.false_ne_true
  have hnoForm : caseExpansions.find? (·.1 == c.toNat) = none := by
    rw [List.find?_eq_none]
    intro e he
    rw [beq_iff_eq]
    exact hforms e he
  rw [upper, if_neg (Nat.not_lt.mpr hbeyond), upperBeyondAscii, hnoRun, hnoForm]

theorem upper_of_toUpper (hascii : c.toNat < 0x80) (h : c.toUpper = c) : upper c = [c] := by
  rw [upper, if_pos hascii, h]

/-- **The capitals of a run** stay as they are. -/
theorem upper_raise (hr : r ∈ caseRuns) (hn : r.holds n = true) :
    upper (r.raise n) = [r.raise n] := by
  have hfinal : r.isFinal = true :=
    List.all_eq_true.mp (by decide +kernel : caseRuns.all CaseRun.isFinal = true) r hr
  have hlimits : r.capital + (r.last - r.first) < 0xD800 ∨
      0xE000 ≤ r.capital ∧ r.capital + (r.last - r.first) < 0x110000 := by
    have hall : (caseRuns.all fun r => (r.capital + (r.last - r.first)).blt 0xD800 ||
        Nat.ble 0xE000 r.capital && (r.capital + (r.last - r.first)).blt 0x110000) = true := by
      decide +kernel
    simpa [Nat.blt_eq, Nat.ble_eq] using List.all_eq_true.mp hall r hr
  have hmember : r.first ≤ n ∧ n ≤ r.last := by
    simp only [CaseRun.holds, Bool.and_eq_true, decide_eq_true_eq] at hn
    exact hn.1
  have hpoint : (r.raise n).toNat = r.capital + (n - r.first) := by
    refine toNat_ofNat ?_
    simp only [Nat.isValidChar]
    omega
  rw [CaseRun.isFinal] at hfinal
  split at hfinal
  case isTrue hlow =>
    rw [Bool.and_eq_true, Nat.beq_eq, beq_iff_eq] at hfinal
    rw [Nat.blt_eq] at hlow
    have hone : n - r.first = 0 := by omega
    rw [hone, Nat.add_zero] at hpoint
    refine upper_of_toUpper (by omega) ?_
    rw [CaseRun.raise, hone]
    exact hfinal.2
  case isFalse hhigh =>
    rw [Nat.blt_eq, Nat.not_lt] at hhigh
    rw [Bool.and_eq_true, List.all_eq_true, List.all_eq_true] at hfinal
    obtain ⟨hruns, hforms⟩ := hfinal
    refine upper_of_untabled (by omega) ?_ ?_
    · intro s hs
      rw [hpoint]
      exact CaseRun.not_holds_of_isClearOf (hruns s hs) hn
    · intro e he
      have hapart := hforms e he
      simp only [Bool.or_eq_true, Nat.blt_eq] at hapart
      omega

/-- **An upper-case form begins with a character that stays as it is.** -/
theorem upper_of_head_upper (h : (upper c).head? = some d) : upper d = [d] := by
  rw [upper] at h
  split at h
  case isTrue hascii =>
    obtain rfl : c.toUpper = d := by simpa using h
    have hall : (c.toUpper.toNat.blt 0x80 && c.toUpper.toUpper == c.toUpper) = true :=
      forall_ascii (P := fun c => c.toUpper.toNat.blt 0x80 && c.toUpper.toUpper == c.toUpper)
        (by decide +kernel) hascii
    rw [Bool.and_eq_true, Nat.blt_eq, beq_iff_eq] at hall
    exact upper_of_toUpper hall.1 hall.2
  case isFalse hbeyond =>
    rw [upperBeyondAscii] at h
    split at h
    case h_1 run hrun =>
      obtain rfl : run.raise c.toNat = d := by simpa using h
      exact upper_raise (List.mem_of_find?_eq_some hrun) (by simpa using List.find?_some hrun)
    case h_2 hnoRun =>
      split at h
      case h_1 point form hform =>
        have hall : (caseExpansions.all fun e =>
            (e.2.map Char.ofNat).head?.all fun d => decide (upper d = [d])) = true := by
          decide +kernel
        have hhead := List.all_eq_true.mp hall _ (List.mem_of_find?_eq_some hform)
        rw [h] at hhead
        simpa using hhead
      case h_2 hnoForm =>
        obtain rfl : c = d := by simpa using h
        rw [upper, if_neg hbeyond, upperBeyondAscii, hnoRun, hnoForm]

theorem upper_ne_nil (c : Char) : upper c ≠ [] := by
  rw [upper]
  split
  · simp
  · rw [upperBeyondAscii]
    split
    · simp
    · split
      · rename_i hform
        exact (nameLike_expansion (List.mem_of_find?_eq_some hform)).1
      · simp

end Text

namespace Naming

open Text

/-! ## Words -/

/-- The characters that stand between words. -/
def isSeparator (c : Char) : Bool := c == ' ' || c == '_'

/-- What lies between separators, of the word characters and spaces of a text. -/
def pieces (cs : List Char) : List (List Char) :=
  (cs.filter fun c => isWord c || c == ' ').splitOnP isSeparator

/-- **The words of a title.** Whatever is neither a word character nor a space is deleted, the rest is cut at
runs of spaces and underscores, and what is not empty is a word. -/
def words (title : String) : List (List Char) := (pieces title.toList).filter fun piece => !piece.isEmpty

/-- What is cut is the text without its separators. -/
theorem flatten_splitOnP {α : Type} (p : α → Bool) (xs : List α) :
    (xs.splitOnP p).flatten = xs.filter fun x => !p x := by
  induction xs with
  | nil => rfl
  | cons x xs ih =>
    obtain ⟨first, more, hpieces⟩ := List.exists_cons_of_ne_nil (List.splitOnP_ne_nil p xs)
    rw [List.splitOnP_cons_eq_if_modifyHead, List.filter_cons]
    rw [hpieces] at ih ⊢
    by_cases hx : p x = true
    · simpa [hx] using ih
    · simpa [hx] using ih

/-- **The words of a title** have its word characters but for underscores, in order. -/
theorem flatten_words (title : String) :
    (words title).flatten = title.toList.filter fun c => isWord c && c != '_' := by
  rw [words, List.flatten_filter_not_isEmpty, pieces, flatten_splitOnP, List.filter_filter]
  refine List.filter_congr fun c _ => ?_
  have hspace : isWord ' ' = false := by decide +kernel
  by_cases hc : c = ' '
  · subst hc
    simp [isSeparator, hspace]
  · have hother : (c == ' ') = false := beq_eq_false_iff_ne.mpr hc
    simp [isSeparator, hother, bne, Bool.and_comm]

theorem ne_nil_of_mem_words {title : String} {w : List Char} (h : w ∈ words title) : w ≠ [] := by
  have hfilled := (List.mem_filter.mp h).2
  rintro rfl
  exact absurd hfilled (by simp)

/-- Where every word leaves something, nothing is left just if there are no words. -/
theorem flatMap_words_eq_nil_iff {title : String} {f : List Char → List Char}
    (hf : ∀ w, w ≠ [] → f w ≠ []) : (words title).flatMap f = [] ↔ words title = [] := by
  rw [List.flatMap_eq_nil_iff]
  constructor
  · intro h
    rw [List.eq_nil_iff_forall_not_mem]
    intro w hw
    exact hf w (ne_nil_of_mem_words hw) (h w hw)
  · intro h w hw
    rw [h] at hw
    cases hw

/-- There are no words just if the title has no word characters but underscores. -/
theorem words_eq_nil_iff (title : String) :
    words title = [] ↔ ∀ c ∈ title.toList, isWord c = true → c = '_' := by
  rw [← flatMap_words_eq_nil_iff (f := id) fun _ h => h, List.flatMap_id, flatten_words,
    List.filter_eq_nil_iff]
  simp

/-! ## Capital first letters -/

theorem capitalized_ne_nil {w : List Char} (h : w ≠ []) : capitalized w ≠ [] := by
  cases w with
  | nil => exact absurd rfl h
  | cons c rest => simp [capitalized, upper_ne_nil]

/-- What is raised already stays as it is. -/
theorem capitalized_upper_append (c : Char) (rest : List Char) :
    capitalized (upper c ++ rest) = upper c ++ rest := by
  obtain ⟨d, more, hform⟩ := List.exists_cons_of_ne_nil (upper_ne_nil c)
  have hstays : upper d = [d] := upper_of_head_upper (by rw [hform]; rfl)
  rw [hform, List.cons_append, capitalized, hstays, List.singleton_append]

/-- **Words with capital first letters** begin with a capital, so that raising the first character of all
makes no difference. -/
theorem capitalized_flatMap (ws : List (List Char)) :
    capitalized (ws.flatMap capitalized) = ws.flatMap capitalized := by
  induction ws with
  | nil => rfl
  | cons w ws ih =>
    cases w with
    | nil => exact ih
    | cons c rest =>
      rw [List.flatMap_cons, capitalized, List.append_assoc]
      exact capitalized_upper_append c _

/-- **The walk along a text** keeps its first piece as it is, unless it starts behind a separator, and raises
the first characters of all others. -/
theorem joined_pieces (cs : List Char) : ∀ (raised : Bool) {first : List Char} {more : List (List Char)},
    cs.splitOnP isSeparator = first :: more →
    joined raised (cs.map fun c => if c = '_' then ' ' else c) =
      (if raised then capitalized first else first) ++ more.flatMap capitalized := by
  induction cs with
  | nil =>
    intro raised first more h
    obtain ⟨rfl, rfl⟩ : [] = first ∧ [] = more := by simpa using h
    cases raised <;> rfl
  | cons c cs ih =>
    intro raised first more h
    obtain ⟨piece, others, hpieces⟩ := List.exists_cons_of_ne_nil (List.splitOnP_ne_nil isSeparator cs)
    rw [List.splitOnP_cons_eq_if_modifyHead, hpieces] at h
    rw [List.map_cons, joined]
    by_cases hc : isSeparator c = true
    · rw [if_pos hc] at h
      obtain ⟨rfl, rfl⟩ : [] = first ∧ piece :: others = more := by simpa using h
      have hspace : (if c = '_' then ' ' else c) = ' ' := by
        by_cases hu : c = '_'
        · exact if_pos hu
        · simpa [isSeparator, hu] using hc
      rw [if_pos hspace, ih true hpieces]
      cases raised <;> rfl
    · rw [if_neg hc, List.modifyHead_cons] at h
      obtain ⟨rfl, rfl⟩ : c :: piece = first ∧ others = more := by simpa using h
      obtain ⟨hspace, hunderscore⟩ : c ≠ ' ' ∧ c ≠ '_' := by simpa [isSeparator] using hc
      rw [if_neg hunderscore, if_neg hspace, ih false hpieces]
      cases raised <;> simp [capitalized]

/-- The characters of a type name are those of the pieces, with capital first letters. -/
theorem typeNameChars_pieces (cs : List Char) : typeNameChars cs = (pieces cs).flatMap capitalized := by
  obtain ⟨first, more, hpieces⟩ := List.exists_cons_of_ne_nil
    (List.splitOnP_ne_nil isSeparator (cs.filter fun c => isWord c || c == ' '))
  rw [typeNameChars, cleaned, joined_pieces _ false hpieces, pieces, hpieces, List.flatMap_cons]
  cases first with
  | nil => exact capitalized_flatMap more
  | cons c rest => simp [capitalized]

theorem flatMap_words (title : String) :
    (words title).flatMap capitalized = (pieces title.toList).flatMap capitalized := by
  rw [words]
  induction pieces title.toList with
  | nil => rfl
  | cons piece rest ih => cases piece <;> simp [capitalized, ih]

/-- The name made of a title is its words, each with a capital in front. -/
theorem toList_typeName (title : String) :
    (typeName title).toList = (words title).flatMap capitalized := by
  rw [typeName, String.toList_ofList, typeNameChars_pieces, flatMap_words]

/-- A type name is empty just if there are no words. -/
theorem typeName_eq_empty_iff (title : String) : typeName title = "" ↔ words title = [] := by
  rw [← String.toList_eq_nil_iff, toList_typeName]
  exact flatMap_words_eq_nil_iff fun _ => capitalized_ne_nil

/-- **Type names word by word.** The type name of a title is its words with capital first letters, one behind
the other. So it has no space and no underscore, it is empty just if the title has no word character but
underscores, and titles with the same words have the same type name. -/
theorem typeName_words (title : String) :
    typeName title = String.ofList ((words title).flatMap capitalized) ∧
    (' ' ∉ (typeName title).toList ∧ '_' ∉ (typeName title).toList) ∧
    (typeName title = "" ↔ ∀ c ∈ title.toList, isWord c = true → c = '_') ∧
    ∀ other, words other = words title → typeName other = typeName title := by
  have hchars : ∀ title, typeName title = String.ofList ((words title).flatMap capitalized) := by
    intro title
    rw [← toList_typeName, String.ofList_toList]
  refine ⟨hchars title, ⟨?_, underscore_not_mem_typeName? (some title)⟩, ?_, ?_⟩
  · intro hspace
    exact absurd ((nameLike_typeName? (some title)).plain ' ' hspace) (by decide)
  · rw [typeName_eq_empty_iff, words_eq_nil_iff]
  · intro other hwords
    rw [hchars other, hchars title, hwords]

example : typeName "user_profile data!" = "UserProfileData" := by decide +kernel

example : words "_ straße__ßtra!e  3d " =
    [['s', 't', 'r', 'a', 'ß', 'e'], ['ß', 't', 'r', 'a', 'e'], ['3', 'd']] := by
  decide +kernel

end Naming

end TypeScribe
