import TypeScribe.Proofs.Pieces
import TypeScribe.Proofs.Yield

/-!
# What is compiled is accepted

The check in front of the output knows nothing of trees: it looks for a line that opens a declaration,
and counts the braces outside string literals. It accepts what a compilation has written
(`parse_accepted`), whatever the names of properties and the titles are.

* **Braces.** A text that is laid out as some tokens has, outside its literals, the braces among the
  marks (`Laid.nested`). The marks of an expression are **balanced**, so braces are even well nested.
* **Declarations.** The first root has a name, a declaration of that name is kept, and every
  declaration begins a line (`Declaration.exists_lead`).
-/

namespace TypeScribe

open Text

/-! ## Nesting -/

/-- Whether the braces of a text are **well nested**, if `depth` of them are open before it: none is
closed that is not open, and none is open at the end. -/
def nested : (depth : Nat) → List Char → Bool
  | depth, [] => depth == 0
  | depth, c :: rest =>
    if c = '\x7b' then nested (depth + 1) rest
    else if c = '\x7d' then depth != 0 && nested (depth - 1) rest
    else nested depth rest

/-- A character that is no brace. -/
def NoBrace (c : Char) : Prop := c ≠ '\x7b' ∧ c ≠ '\x7d'

instance (c : Char) : Decidable (NoBrace c) := inferInstanceAs (Decidable (_ ∧ _))

/-- A character that is no brace leaves the depth as it is. -/
theorem nested_cons {c : Char} (h : NoBrace c) (depth : Nat) (rest : List Char) :
    nested depth (c :: rest) = nested depth rest := by
  rw [nested, if_neg h.1, if_neg h.2]

/-- Nesting is read character by character. -/
theorem nested_congr {cs ds : List Char} (c : Char) (h : ∀ depth, nested depth cs = nested depth ds)
    (depth : Nat) : nested depth (c :: cs) = nested depth (c :: ds) := by
  simp only [nested, h]

/-- Braces that are well nested are as many of each kind. -/
theorem count_of_nested : ∀ (cs : List Char) (depth : Nat), nested depth cs = true →
    cs.count '\x7d' = cs.count '\x7b' + depth
  | [], depth, h => by
    have hdepth : depth = 0 := by simpa [nested] using h
    simp [hdepth]
  | c :: cs, depth, h => by
    rw [nested] at h
    split at h
    · rename_i hc
      have hrest := count_of_nested cs (depth + 1) h
      rw [hc, List.count_cons_self, List.count_cons_of_ne (by decide), hrest]
      omega
    · rename_i hopen
      split at h
      · rename_i hc
        rw [Bool.and_eq_true, bne_iff_ne] at h
        have hrest := count_of_nested cs (depth - 1) h.2
        rw [hc, List.count_cons_self, List.count_cons_of_ne (by decide), hrest]
        omega
      · rename_i hclose
        rw [List.count_cons_of_ne hopen, List.count_cons_of_ne hclose]
        exact count_of_nested cs depth h

/-- Characters are **balanced** if they keep the depth and close nothing opened before them. -/
def Balanced (cs : List Char) : Prop := ∀ depth rest, nested depth (cs ++ rest) = nested depth rest

namespace Balanced

variable {as bs : List Char}

theorem nil : Balanced [] := fun _ _ => rfl

theorem append (ha : Balanced as) (hb : Balanced bs) : Balanced (as ++ bs) := by
  intro depth rest
  rw [List.append_assoc, ha, hb]

/-- Characters that are no braces do not count. -/
theorem other {c : Char} (h : NoBrace c) (ha : Balanced as) : Balanced (c :: as) := by
  intro depth rest
  rw [List.cons_append, nested_cons h, ha]

/-- A pair of braces around a balanced text is balanced. -/
theorem braces (ha : Balanced as) : Balanced ('\x7b' :: (as ++ ['\x7d'])) := by
  intro depth rest
  rw [List.cons_append, List.append_assoc, nested, if_pos rfl, ha, List.singleton_append, nested,
    if_neg (by decide), if_pos rfl]
  simp

end Balanced

/-! ## The marks of a tree -/

/-- The marks among some tokens. -/
def Token.marks (ts : List Token) : List Char :=
  ts.filterMap fun
    | .mark c => some c
    | _ => none

@[simp]
theorem Token.marks_nil : marks [] = [] := rfl

@[simp]
theorem Token.marks_append (ts us : List Token) : marks (ts ++ us) = marks ts ++ marks us :=
  List.filterMap_append ..

@[simp]
theorem Token.marks_mark (c : Char) (ts : List Token) : marks (.mark c :: ts) = c :: marks ts := rfl

@[simp]
theorem Token.marks_word (w : String) (ts : List Token) : marks (.word w :: ts) = marks ts := rfl

@[simp]
theorem Token.marks_literal (text : String) (ts : List Token) :
    marks (.literal text :: ts) = marks ts := rfl

@[simp]
theorem Token.marks_key (name : String) (ts : List Token) : marks (.key name :: ts) = marks ts := by
  rw [Token.key]
  split <;> rfl

theorem Token.balanced_optional (required : Bool) : Balanced (marks (Token.optional required)) := by
  cases required with
  | false => exact .other (by decide) .nil
  | true => exact .nil

namespace Expr

mutual

/-- **The marks of an expression are balanced.** -/
theorem balanced : ∀ e : Expr, Balanced (Token.marks e.tokens)
  | .scalar _ => .nil
  | .name _ => .nil
  | .object properties => by
    have hfields := balancedOfAll properties
    simpa [tokens] using hfields.braces
  | .parens e => by
    have hinner := (balanced e).append (.other (by decide : NoBrace ')') .nil)
    simpa [tokens] using hinner.other (by decide : NoBrace '(')
  | .array e => by
    have hbrackets : Balanced ['[', ']'] := .other (by decide) (.other (by decide) .nil)
    simpa [tokens] using (balanced e).append hbrackets
  | .union l r => by
    simpa [tokens] using (balanced l).append ((balanced r).other (by decide : NoBrace '|'))
  | .intersection l r => by
    simpa [tokens] using (balanced l).append ((balanced r).other (by decide : NoBrace '&'))

/-- Every property of an object type closes the braces it opens. -/
theorem balancedOfAll : ∀ properties : List Property, Balanced (Token.marks (tokensOfAll properties))
  | [] => .nil
  | ⟨key, required, type⟩ :: rest => by
    have hrest := (balancedOfAll rest).other (by decide : NoBrace ';')
    have htype := ((balanced type).append hrest).other (by decide : NoBrace ':')
    simpa [tokensOfAll] using (Token.balanced_optional required).append htype

end

end Expr

/-- A declaration closes the braces it opens, whichever of the two kinds it is. -/
theorem Declaration.balanced : ∀ d : Declaration, Balanced (Token.marks d.tokens)
  | .interface _ properties => (Expr.object properties).balanced
  | .alias _ type => by
    have htype := type.balanced.append (.other (by decide : NoBrace ';') .nil)
    simpa [tokens] using htype.other (by decide : NoBrace '=')

/-! ## Braces outside literals -/

/-- **Loose spacing**: whatever is neither quote nor brace may stand between tokens, and words may be
empty. -/
def Spacing.loose : Spacing where
  gap c := c ≠ '"' ∧ NoBrace c
  word w := ∀ c ∈ w.toList, isPlain c = true
  clings _ := False
  feed := by decide
  space := by decide
  plain h := h
  words _ h := h
  gapApart _ h := h
  markApart _ h := h

theorem Spacing.loose_plain {c : Char} (h : isPlain c = true) : Spacing.loose.gap c := by
  refine ⟨?_, ?_, ?_⟩ <;> (rintro rfl; exact absurd h (by decide))

variable {ts : List Token} {cs : List Char}

/-- Characters that are neither quote nor brace change nothing. -/
theorem nested_withoutLiterals_append {g : List Char} (hg : ∀ c ∈ g, Spacing.loose.gap c)
    (depth : Nat) (rest : List Char) : nested depth (Output.withoutLiterals 0 (g ++ rest)) =
      nested depth (Output.withoutLiterals 0 rest) := by
  induction g with
  | nil => rfl
  | cons c g ih =>
    obtain ⟨hquote, hbrace⟩ := hg c (List.mem_cons_self ..)
    rw [List.cons_append, Output.withoutLiterals_cons hquote, nested_cons hbrace]
    exact ih fun d hd => hg d (List.mem_cons_of_mem _ hd)

/-- **The braces outside literals are those among the marks.** -/
theorem Laid.nested (h : Laid .loose ts cs) (depth : Nat) :
    nested depth (Output.withoutLiterals 0 cs) = nested depth (Token.marks ts) := by
  induction h generalizing depth with
  | nil => rfl
  | gap hgap _ ih =>
    rw [Output.withoutLiterals_cons hgap.1, nested_cons hgap.2]
    exact ih depth
  | word hword _ _ ih =>
    rw [nested_withoutLiterals_append fun c hc => Spacing.loose_plain (hword c hc), Token.marks_word]
    exact ih depth
  | literal text _ ih =>
    rw [Output.withoutLiterals_quoted, Token.marks_literal]
    exact ih depth
  | @mark ts c cs hmark _ ih =>
    have hquote : c ≠ '"' := by
      rintro rfl
      exact absurd hmark (by decide)
    rw [Output.withoutLiterals_cons hquote, Token.marks_mark]
    exact nested_congr c ih depth

/-- Texts laid out one after the other, with an empty line in between. -/
theorem Laid.intercalate {s : Spacing} {indent : Indent} : ∀ {ds : List Declaration},
    (∀ d ∈ ds, Laid s d.tokens (d.text indent).toList) →
      Laid s (ds.flatMap Declaration.tokens)
        ("\n\n".intercalate (ds.map (Declaration.text indent))).toList
  | [], _ => .nil
  | [d], h => by
    have hd := h d (List.mem_singleton_self d)
    rw [List.flatMap_singleton, List.map_singleton, String.intercalate_singleton]
    exact hd
  | d :: e :: ds, h => by
    have hd := h d (List.mem_cons_self ..)
    have hrest := Laid.intercalate fun f hf => h f (List.mem_cons_of_mem d hf)
    rw [List.map_cons] at hrest
    rw [List.flatMap_cons, List.map_cons, List.map_cons, String.intercalate_cons_cons,
      String.toList_append, String.toList_append, List.append_assoc]
    exact hd.append (.gap s.feed) (.gap s.feed (.gap s.feed hrest))

theorem balanced_flatMap : ∀ ds : List Declaration,
    Balanced (Token.marks (ds.flatMap Declaration.tokens))
  | [] => .nil
  | d :: ds => by
    rw [List.flatMap_cons, Token.marks_append]
    exact d.balanced.append (balanced_flatMap ds)

/-! ## Lines that open a declaration -/

/-- The keyword of a declaration. -/
def Declaration.keyword : Declaration → String
  | .interface _ _ => "interface"
  | .alias _ _ => "type"

/-- The text of a declaration begins with its keyword, a space and the name it declares. -/
theorem Declaration.toList_text (indent : Indent) : ∀ d : Declaration, ∃ more,
    (d.text indent).toList = d.keyword.toList ++ ' ' :: (d.declared.toList ++ more)
  | .interface _ properties =>
    ⟨' ' :: (Layout.objectType indent (Expr.fields indent properties)).toList, by
      simp [text, Layout.interfaceDecl, keyword, declared]⟩
  | .alias _ type => ⟨' ' :: '=' :: ' ' :: ((type.text indent).toList ++ [';']), by
      simp [text, Layout.aliasDecl, keyword, declared]⟩

/-- The keyword of a declaration opens a declaration, if a word stands behind it. -/
theorem Declaration.opens_keyword (d : Declaration) {c : Char} (hc : isWord c = true)
    (tail : List Char) :
    Output.opensDeclaration (d.keyword.toList ++ ' ' :: c :: tail) = true := by
  have hleads : Output.leads d.keyword (d.keyword.toList ++ ' ' :: c :: tail) = true := by
    have hlead : d.keyword.toList.isPrefixOf (d.keyword.toList ++ ' ' :: c :: tail) = true :=
      List.isPrefixOf_iff_prefix.mpr (List.prefix_append ..)
    rw [Output.leads, hlead, Bool.true_and, List.drop_left]
    exact hc
  rw [Output.opensDeclaration, Bool.or_eq_true]
  match d with
  | .interface _ _ => exact Or.inl hleads
  | .alias _ _ => exact Or.inr hleads

/-- **A declaration opens its first line**, if its name begins with a word character. -/
theorem Declaration.exists_lead (indent : Indent) (d : Declaration) {c : Char} {rest : List Char}
    (hc : isWord c = true) (hname : d.declared.toList = c :: rest) :
    ∃ lead more, (d.text indent).toList = lead ++ more ∧ '\n' ∉ lead ∧
      ∀ tail, Output.opensDeclaration (lead ++ tail) = true := by
  obtain ⟨more, htext⟩ := d.toList_text indent
  have hfeed : '\n' ≠ c := by
    rintro rfl
    exact absurd hc (by decide)
  have hkeyword : '\n' ∉ d.keyword.toList := by
    match d with
    | .interface _ _ => exact (by decide : '\n' ∉ "interface".toList)
    | .alias _ _ => exact (by decide : '\n' ∉ "type".toList)
  refine ⟨d.keyword.toList ++ [' ', c], rest ++ more, ?_, ?_, ?_⟩
  · rw [htext, hname, List.append_assoc]
    rfl
  · simp [hkeyword, hfeed]
  · intro tail
    rw [List.append_assoc]
    exact d.opens_keyword hc tail

/-- A text **opens a declaration** if it does at the beginning of a line. -/
theorem Output.declares_of_lead {before lead : List Char} (hfeed : '\n' ∉ lead)
    (hopens : ∀ tail, Output.opensDeclaration (lead ++ tail) = true)
    (hbefore : before = [] ∨ ∃ b, before = b ++ ['\n']) (more : List Char) :
    Output.declares (before ++ (lead ++ more)) = true := by
  obtain ⟨first, others, hpieces⟩ := piecesAt_lead hfeed more
  have hmem : lead ++ first ∈ piecesAt '\n' (before ++ (lead ++ more)) := by
    rcases hbefore with rfl | ⟨b, rfl⟩
    · rw [List.nil_append, hpieces]
      exact List.mem_cons_self ..
    · rw [List.append_assoc, List.singleton_append, piecesAt_append, hpieces]
      exact List.mem_append_right _ (List.mem_cons_self ..)
  exact List.any_eq_true.mpr ⟨_, hmem, hopens first⟩

/-- What is put together with empty lines in between begins a line each. -/
theorem exists_intercalate {texts : List String} {t : String} (ht : t ∈ texts) :
    ∃ before after, ("\n\n".intercalate texts).toList = before ++ (t.toList ++ after) ∧
      (before = [] ∨ ∃ b, before = b ++ ['\n']) := by
  obtain ⟨l₁, l₂, rfl⟩ := List.append_of_mem ht
  have hafter : ∃ after, ("\n\n".intercalate (t :: l₂)).toList = t.toList ++ after := by
    cases l₂ with
    | nil => exact ⟨[], by rw [String.intercalate_singleton, List.append_nil]⟩
    | cons u l₂ =>
      rw [String.intercalate_cons_cons, String.append_assoc, String.toList_append]
      exact ⟨_, rfl⟩
  obtain ⟨after, hafter⟩ := hafter
  by_cases hl : l₁ = []
  · exact ⟨[], after, by rw [hl, List.nil_append, hafter, List.nil_append], Or.inl rfl⟩
  · refine ⟨("\n\n".intercalate l₁).toList ++ ['\n', '\n'], after, ?_,
      Or.inr ⟨("\n\n".intercalate l₁).toList ++ ['\n'], by simp⟩⟩
    rw [intercalate_append _ (List.cons_ne_nil t l₂) hl, String.toList_append, String.toList_append,
      hafter]
    rfl

/-! ## Acceptance -/

/-- The check accepts what opens a declaration and is well nested. -/
theorem Output.check_of_nested {text : String} (hdeclares : Output.declares text.toList = true)
    (hnested : nested 0 (Output.withoutLiterals 0 text.toList) = true) :
    Output.check text = .ok () := by
  have hcount := count_of_nested _ 0 hnested
  rw [Output.check, hdeclares]
  simp [hcount]

/-- Among the declarations of a node is one of its name. -/
theorem Declares.exists_declared {named : String → Prop} {name : String} {ds : List Declaration}
    (h : Declares named name ds) : ∃ d ∈ ds, d.declared = name := by
  cases h with
  | plain hdeclared _ => exact ⟨_, List.mem_singleton_self _, hdeclared⟩
  | split _ _ => exact ⟨_, List.mem_cons_of_mem _ (List.mem_singleton_self _), rfl⟩

section

variable {σ : Type} [Source σ] {r₀ r : Registry σ} {ids : List NodeId} {text margin : String}

namespace Written

variable {blocks : List (List Declaration)}

/-- **The name of a root that is declared** is the name of a declaration. -/
theorem exists_declaration (h : Written r text blocks) (hcompiled : r₀.Compiled r ids text) {n : NodeId}
    (hn : n ∈ ids) (hdecl : r.graph.isDeclared n = true) :
    ∃ ds ∈ blocks, ∃ d ∈ ds, d.declared = r.graph.nameOf n := by
  have hmet : n ∈ r.draft.emission.toList := (hcompiled.mem_emission n).mpr ⟨⟨n, hn, .refl⟩, hdecl⟩
  -- the root itself may have been dropped, but then for another node of its name
  obtain ⟨k, hk, hkname⟩ := hcompiled.exists_kept hmet
  obtain ⟨ds, hds, hdeclares, -⟩ := exists_of_forall₂ h.declares.flip hk
  obtain ⟨d, hd, hdeclared⟩ := hdeclares.exists_declared
  exact ⟨ds, hds, d, hd, hdeclared.trans hkname⟩

/-- **The name of the first root is declared.** -/
theorem exists_root (h : Written r text blocks) (hcompiled : r₀.Compiled r ids text) (hf : r₀.Fresh)
    (hpending : r₀.pending ≠ []) :
    ∃ d ∈ blocks.flatten, ∃ c rest, d.declared.toList = c :: rest ∧ isWord c = true := by
  obtain ⟨more, rfl, hdecl, hname⟩ := hcompiled.first_root hf hpending
  obtain ⟨ds, hds, d, hd, hdeclared⟩ := h.exists_declaration hcompiled (List.mem_cons_self ..) hdecl
  have hlike : NameLike d.declared.toList := by
    rw [hdeclared]
    exact hcompiled.nameLike_nameOf hf 0
  have hne : d.declared ≠ "" := by rwa [hdeclared]
  obtain ⟨c, rest, hcons⟩ := List.exists_cons_of_ne_nil (toList_ne_nil hne)
  exact ⟨d, List.mem_flatten.mpr ⟨ds, hds, hd⟩, c, rest, hcons, hlike.begins c (by rw [hcons]; rfl)⟩

/-- **Some line of what is written opens a declaration.** -/
theorem declares_append (h : Written r text blocks) (hcompiled : r₀.Compiled r ids text)
    (hf : r₀.Fresh) (hpending : r₀.pending ≠ []) (hcomment : r.settings.comment.isVacant = true)
    (tail : String) : Output.declares (text ++ tail).toList = true := by
  obtain ⟨d, hd, c, rest, hname, hc⟩ := h.exists_root hcompiled hf hpending
  obtain ⟨lead, more, hlead, hfeed, hopens⟩ := d.exists_lead (.orBlank r.settings.indent) hc hname
  obtain ⟨before, after, hsplit, hbefore⟩ := exists_intercalate
    (List.mem_map_of_mem (f := Declaration.text (.orBlank r.settings.indent)) hd)
  rw [String.toList_append, h.text_eq hcomment, hsplit, hlead]
  simpa only [List.append_assoc] using
    Output.declares_of_lead hfeed hopens hbefore (more ++ (after ++ tail.toList))

/-- **The braces of what is written are well nested**, outside of literals. -/
theorem nested_text (h : Written r text blocks) (hcompiled : r₀.Compiled r ids text) (hf : r₀.Fresh)
    (hcomment : r.settings.comment.isVacant = true)
    (hfits : (Indent.orBlank r.settings.indent).Fits .loose) :
    nested 0 (Output.withoutLiterals 0 (text ++ "\n").toList) = true := by
  have hnames : ∀ n ∈ r.draft.emission.toList, Spacing.loose.word (r.graph.nameOf n) :=
    fun n _ => (hcompiled.nameLike_nameOf hf n).plain
  have hlaid := Laid.intercalate fun d hd => (h.laid hcompiled hfits hnames d hd).2
  rw [← h.text_eq hcomment] at hlaid
  have hend : Laid .loose [] ['\n'] := .gap Spacing.loose.feed .nil
  have hall := hlaid.append (fun _ _ hclings => hclings) hend
  have hmarks := balanced_flatMap blocks.flatten 0 []
  rw [List.append_nil] at hmarks
  rw [String.toList_append]
  refine (hall.nested 0).trans ?_
  rw [List.append_nil, hmarks]
  rfl

end Written

/-- **What is compiled is accepted.** If there is a root and no comment, and the indent has neither quote
nor brace, then the check accepts the output with a line feed behind it: some line of it opens a
declaration, and without its string literals its braces are well nested. -/
theorem parse_accepted (hf : r₀.Fresh) (hpending : r₀.pending ≠ [])
    (hcomment : r₀.settings.comment.isVacant = true) (hindent : r₀.settings.indent = .str margin)
    (hmargin : ∀ c ∈ margin.toList, c ≠ '"' ∧ c ≠ '\x7b' ∧ c ≠ '\x7d')
    (h : Registry.parse r₀ = .ok text r) :
    Output.check (text ++ "\n") = .ok () ∧ Output.declares (text ++ "\n").toList = true ∧
      nested 0 (Output.withoutLiterals 0 (text ++ "\n").toList) = true := by
  obtain ⟨ids, hcompiled⟩ := Registry.parse_compiled hf h
  obtain ⟨blocks, hwritten⟩ := hcompiled.written
  have hvacant : r.settings.comment.isVacant = true := hcompiled.settings ▸ hcomment
  have hfits : (Indent.orBlank r.settings.indent).Fits .loose := by
    rw [hcompiled.settings, hindent]
    exact ⟨hmargin, hmargin⟩
  have hdeclares := hwritten.declares_append hcompiled hf hpending hvacant "\n"
  have hnested := hwritten.nested_text hcompiled hf hvacant hfits
  exact ⟨Output.check_of_nested hdeclares hnested, hdeclares, hnested⟩

/-- Names with braces, quotes, a backslash, line feeds and characters beyond ASCII, under an indent with
a line feed of its own. -/
def outlandish : Registry Catalog := .queued { indent := .str "-\n\t" } ⟨[]⟩ "" [
  .obj [("title", .str "ß \x7b\"é_x\n"), ("properties", .obj [
      ("\x7b\"\\\n😀", .obj [("properties", .obj [
        ("\x7d", .obj [("type", .str "string")]),
        ("a\n", .obj [("type", .str "null")])])])]),
    ("oneOf", .arr [.obj [("title", .str "\x7b"), ("type", .str "object")],
      .obj [("type", .str "null")]])]]

theorem parse_accepted_outlandish :
    ∃ text r, outlandish.Fresh ∧ outlandish.pending ≠ [] ∧
      outlandish.settings.comment.isVacant = true ∧ outlandish.settings.indent = .str "-\n\t" ∧
      (∀ c ∈ "-\n\t".toList, c ≠ '"' ∧ c ≠ '\x7b' ∧ c ≠ '\x7d') ∧
      Registry.parse outlandish = .ok text r ∧
      text = "interface _SSÉX \x7b\n-\n\t\"\x7b\\\"\\\\\\n\\ud83d\\ude00\"?: \x7b\n" ++
        "-\n\t-\n-\n\t\t\"\x7d\"?: string;\n-\n\t-\n-\n\t\ta\n-\n\t?: null;\n-\n\t\x7d;\n\x7d\n\n" ++
        "type SSÉX = _SSÉX & (\x7b\n\x7d);" ∧
      Output.check (text ++ "\n") = .ok () ∧ Output.declares (text ++ "\n").toList = true ∧
      nested 0 (Output.withoutLiterals 0 (text ++ "\n").toList) = true := by
  have hfresh : outlandish.Fresh := Registry.fresh_queued _ _ _ _
  obtain ⟨text, r, hparse, htest⟩ := exists_of_succeeds (Registry.parse outlandish)
    (fun text _ => decide (
      text = "interface _SSÉX \x7b\n-\n\t\"\x7b\\\"\\\\\\n\\ud83d\\ude00\"?: \x7b\n" ++
        "-\n\t-\n-\n\t\t\"\x7d\"?: string;\n-\n\t-\n-\n\t\ta\n-\n\t?: null;\n-\n\t\x7d;\n\x7d\n\n" ++
        "type SSÉX = _SSÉX & (\x7b\n\x7d);")) (by decide +kernel)
  have hmargin : ∀ c ∈ "-\n\t".toList, c ≠ '"' ∧ c ≠ '\x7b' ∧ c ≠ '\x7d' :=
    forall_mem (by decide)
  exact ⟨text, r, hfresh, List.cons_ne_nil _ _, rfl, rfl, hmargin, hparse, of_decide_eq_true htest,
    parse_accepted hfresh (List.cons_ne_nil _ _) rfl rfl hmargin hparse⟩

end

end TypeScribe
