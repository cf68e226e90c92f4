import TypeScribe.Proofs.Pieces
import TypeScribe.Proofs.Yield

/-!
# Lines that are not blank

No line of a declaration is blank: each has **ink**, a character that is not blank. A text is followed
from left to right with one bit, whether the line that is being read has ink already (`inked`). Texts
that leave ink on their last line, whatever line they begin on, are **solid**, and all parts of a
declaration are.

Moving lines to the right adds blanks only, so it changes nothing here (`inked_shifted`).
-/

namespace TypeScribe

namespace Text

variable {cs ds margin : List Char}

/-- Whether every line of a text has ink; `ink` says whether its first line has some already. -/
def inked : (ink : Bool) → List Char → Bool
  | ink, [] => ink
  | ink, c :: rest => if c = '\n' then ink && inked false rest else inked (ink || !isBlank c) rest

/-- A line break asks that the line before it has ink. -/
theorem inked_feed (ink : Bool) (rest : List Char) :
    inked ink ('\n' :: rest) = (ink && inked false rest) := by
  rw [inked, if_pos rfl]

/-- Any other character adds its ink to the line. -/
theorem inked_cons {c : Char} (h : c ≠ '\n') (ink : Bool) (rest : List Char) :
    inked ink (c :: rest) = inked (ink || !isBlank c) rest := by
  rw [inked, if_neg h]

/-- What `inked` says, line by line. -/
theorem exists_of_inked : ∀ (cs : List Char) {ink : Bool}, inked ink cs = true →
    ∃ first more, piecesAt '\n' cs = first :: more ∧
      (ink = true ∨ ∃ c ∈ first, isBlank c = false) ∧ ∀ line ∈ more, ∃ c ∈ line, isBlank c = false
  | [], ink, h => ⟨[], [], rfl, Or.inl h, by simp⟩
  | c :: cs, ink, h => by
    by_cases hc : c = '\n'
    · subst hc
      rw [inked_feed, Bool.and_eq_true] at h
      obtain ⟨first, more, hpieces, hfirst, hmore⟩ := exists_of_inked cs h.2
      refine ⟨[], first :: more, by rw [piecesAt, if_pos rfl, hpieces], Or.inl h.1, ?_⟩
      intro line hline
      rcases List.mem_cons.mp hline with rfl | hline
      · exact hfirst.resolve_left Bool.false_ne_true
      · exact hmore line hline
    · rw [inked_cons hc] at h
      obtain ⟨first, more, hpieces, hfirst, hmore⟩ := exists_of_inked cs h
      refine ⟨c :: first, more, piecesAt_cons_of_ne hc hpieces, ?_, hmore⟩
      rcases hfirst with hink | ⟨d, hd, hblank⟩
      · rw [Bool.or_eq_true, Bool.not_eq_true'] at hink
        exact hink.imp_right fun hblank => ⟨c, List.mem_cons_self .., hblank⟩
      · exact Or.inr ⟨d, List.mem_cons_of_mem _ hd, hblank⟩

/-- **Every line has ink** if a text is inked from its beginning. -/
theorem forall_line_of_inked (h : inked false cs = true) :
    ∀ line ∈ piecesAt '\n' cs, ∃ c ∈ line, isBlank c = false := by
  obtain ⟨first, more, hpieces, hfirst, hmore⟩ := exists_of_inked cs h
  rw [hpieces]
  intro line hline
  rcases List.mem_cons.mp hline with rfl | hline
  · exact hfirst.resolve_left Bool.false_ne_true
  · exact hmore line hline

/-- **Solid** texts have ink on every line, and none of what comes before them is needed for that. -/
def Solid (cs : List Char) : Prop := ∀ ink rest, inked ink (cs ++ rest) = inked true rest

namespace Solid

theorem inked (h : Solid cs) : inked false cs = true := by
  have hall := h false []
  rwa [List.append_nil] at hall

/-- Solid texts side by side are solid. -/
theorem append (h : Solid cs) (h' : Solid ds) : Solid (cs ++ ds) := by
  intro ink rest
  rw [List.append_assoc, h, h']

/-- A line feed may stand between solid texts. -/
theorem feed (h : Solid cs) (h' : Solid ds) : Solid (cs ++ '\n' :: ds) := by
  intro ink rest
  rw [List.append_assoc, h, List.cons_append, inked_feed, Bool.true_and, h']

/-- Anything but a line feed may stand in front. -/
theorem cons {c : Char} (hc : c ≠ '\n') (h : Solid cs) : Solid (c :: cs) := by
  intro ink rest
  rw [List.cons_append, inked_cons hc, h]

/-- A solid text may be led by characters of the same line. -/
theorem lead {g : List Char} (hg : ∀ c ∈ g, c ≠ '\n') (h : Solid cs) : Solid (g ++ cs) := by
  induction g with
  | nil => exact h
  | cons c g ih =>
    exact (ih fun d hd => hg d (List.mem_cons_of_mem _ hd)).cons (hg c (List.mem_cons_self ..))

/-- One character that is not blank. -/
theorem ofInk {c : Char} (h : isBlank c = false) : Solid [c] := by
  have hc : c ≠ '\n' := by
    rintro rfl
    exact absurd h (by decide)
  intro ink rest
  rw [List.singleton_append, inked_cons hc, h, Bool.not_false, Bool.or_true]

theorem ofPlain : ∀ {cs : List Char}, cs ≠ [] → (∀ c ∈ cs, isPlain c = true) → Solid cs
  | [c], _, h => ofInk (isPlain_iff.mp (h c (List.mem_singleton_self c))).1
  | c :: d :: cs, _, h => by
    have hc : c ≠ '\n' := by
      rintro rfl
      exact absurd (h _ (List.mem_cons_self ..)) (by decide)
    exact (ofPlain (List.cons_ne_nil d cs) fun e he => h e (List.mem_cons_of_mem c he)).cons hc

/-- A literal begins and ends with ink. -/
theorem literal (text : String) : Solid (quoted text).toList := by
  have hline : ∀ c ∈ '"' :: text.toList.flatMap quotedChar, c ≠ '\n' := by
    rintro c hc rfl
    have hmem : '\n' ∈ (quoted text).toList := by
      rw [toList_quoted, ← List.cons_append]
      exact List.mem_append_left _ hc
    exact absurd (isPrintable_of_mem_quoted hmem) (by decide)
  rw [toList_quoted, ← List.cons_append]
  exact lead hline (ofInk (by decide))

end Solid

/-! ## Moving lines -/

theorem inked_append {g : List Char} (hg : ∀ c ∈ g, c = ' ' ∨ c = '\t') (ink : Bool)
    (rest : List Char) : inked ink (g ++ rest) = inked ink rest := by
  induction g with
  | nil => rfl
  | cons c g ih =>
    have hc : c ≠ '\n' ∧ isBlank c = true := by
      rcases hg c (List.mem_cons_self ..) with rfl | rfl <;> decide
    rw [List.cons_append, inked_cons hc.1, hc.2, Bool.not_true, Bool.or_false]
    exact ih fun d hd => hg d (List.mem_cons_of_mem _ hd)

/-- **Moving lines** that end in line feeds changes nothing. -/
theorem inked_shifted (hmargin : ∀ c ∈ margin, c = ' ' ∨ c = '\t') (rest : List Char) :
    ∀ {cs : List Char}, (∀ c ∈ cs, isLineBreak c = true → c = '\n') → ∀ ink fresh : Bool,
      inked ink (shifted margin fresh cs ++ rest) = inked ink (cs ++ rest)
  | [], _, ink, fresh => by rw [shifted]
  | c :: cs, h, ink, fresh => by
    have ih := fun ink fresh =>
      inked_shifted hmargin rest (fun d hd => h d (List.mem_cons_of_mem c hd)) ink fresh
    cases hbreak : isLineBreak c with
    | true =>
      obtain rfl := h c (List.mem_cons_self ..) hbreak
      rw [shifted_feed, List.cons_append, List.cons_append, inked_feed, inked_feed, ih]
    | false =>
      have hc : c ≠ '\n' := by
        rintro rfl
        exact absurd hbreak (by decide)
      have hg : ∀ d ∈ if fresh then margin else [], d = ' ' ∨ d = '\t' := by
        intro d hd
        split at hd
        · exact hmargin d hd
        · exact absurd hd (by simp)
      rw [shifted_cons_of_not_break hbreak, List.append_assoc, inked_append hg, List.cons_append,
        List.cons_append, inked_cons hc, inked_cons hc, ih]

end Text

open Text Naming

/-- In strict spacing lines end in line feeds only. -/
theorem Laid.eq_feed {ts : List Token} {cs : List Char} (h : Laid .strict ts cs) :
    ∀ c ∈ cs, isLineBreak c = true → c = '\n' := by
  have hnone : ∀ {token : List Char} {d : Char}, (∀ c ∈ token, isLineBreak c = false) →
      d ∈ token → isLineBreak d = true → d = '\n' := by
    intro token d htoken hd hbreak
    rw [htoken d hd] at hbreak
    exact absurd hbreak Bool.false_ne_true
  induction h with
  | nil => simp
  | gap hgap _ ih =>
    intro d hd hbreak
    rcases List.mem_cons.mp hd with rfl | hd
    · rcases hgap with rfl | rfl | rfl
      · exact absurd hbreak (by decide)
      · exact absurd hbreak (by decide)
      · rfl
    · exact ih d hd hbreak
  | word hword _ _ ih =>
    intro d hd hbreak
    rcases List.mem_append.mp hd with hd | hd
    · exact hnone (fun c hc => isLineBreak_of_isPlain (hword.2 c hc)) hd hbreak
    · exact ih d hd hbreak
  | literal text _ ih =>
    intro d hd hbreak
    rcases List.mem_append.mp hd with hd | hd
    · exact hnone (fun c hc => isLineBreak_of_isPrintable (isPrintable_of_mem_quoted hc)) hd hbreak
    · exact ih d hd hbreak
  | @mark ts c cs hmark _ ih =>
    intro d hd hbreak
    rcases List.mem_cons.mp hd with rfl | hd
    · rw [isLineBreak_of_isMark hmark] at hbreak
      exact absurd hbreak Bool.false_ne_true
    · exact ih d hd hbreak

/-! ## Expressions -/

/-- A **level** indent is made of spaces and tabs. -/
structure Indent.Level (indent : Indent) : Prop where
  shown : ∀ c ∈ indent.shown.toList, c = ' ' ∨ c = '\t'
  margin : ∀ c ∈ indent.margin, c = ' ' ∨ c = '\t'

variable {indent : Indent} {cs : List Char}

theorem Indent.Level.fits (h : indent.Level) : indent.Fits .strict where
  shown c hc := (h.shown c hc).imp_right Or.inl
  margin c hc := (h.margin c hc).imp_right Or.inl

namespace Text.Solid

/-- Moving a solid text to the right by a level indent leaves no line empty. -/
theorem moved (hlevel : indent.Level) (hbreak : ∀ c ∈ cs, isLineBreak c = true → c = '\n')
    (h : Solid cs) : Solid (Layout.moved indent cs) := by
  rw [Layout.moved]
  split
  · intro ink rest
    rw [reindent, inked_shifted hlevel.margin rest hbreak, h]
  · exact h

/-- A property name with what follows it on its line, or on the next. -/
theorem key (name : String) (h : Solid cs) : Solid ((propertyName name).toList ++ cs) := by
  rw [propertyName]
  split
  · rename_i hident
    obtain ⟨hne, hplain, behind, hname, hbehind⟩ := isIdentifier_split hident
    have hbare : Solid (bareName name).toList := ofPlain (toList_ne_nil hne) hplain
    rw [hname, List.append_assoc]
    rcases hbehind with rfl | rfl
    · exact hbare.append h
    · exact hbare.feed h
  · exact (literal name).append h

/-- **A field** ends its line, and another line may follow. -/
theorem field (hlevel : indent.Level) (key : String) (required : Bool) {type : String}
    (htype : Solid (Layout.moved indent type.toList)) (h : Solid cs) :
    Solid ((Layout.fieldText indent ⟨key, type, required⟩).toList ++ cs) := by
  have hshown : ∀ c ∈ indent.shown.toList, c ≠ '\n' := by
    rintro c hc rfl
    exact absurd (hlevel.shown _ hc) (by decide)
  have hcolon : Solid (':' :: ' ' :: (Layout.moved indent type.toList ++ ';' :: '\n' :: cs)) :=
    ((htype.append ((ofInk (by decide : isBlank ';' = false)).feed h)).cons (by decide)).cons
      (by decide)
  rw [Layout.toList_fieldText]
  refine lead hshown (.key key ?_)
  cases required with
  | false => exact hcolon.cons (by decide)
  | true => exact hcolon

end Text.Solid

namespace Expr

mutual

/-- **The text of an expression is solid.** -/
theorem solid (hlevel : indent.Level) : ∀ e : Expr, (∀ x ∈ e.names, Spacing.strict.word x) →
    Solid (e.text indent).toList
  | .scalar kind, _ => by
    rw [text]
    refine .ofPlain ?_ ?_
    · cases kind <;> decide
    · cases kind <;> exact forall_mem (by decide)
  | .name n, h => by
    obtain ⟨hne, hplain⟩ := h n (List.mem_singleton_self n)
    exact .ofPlain (toList_ne_nil hne) hplain
  | .object properties, h => by
    have hclose : Solid ['\x7d'] := .ofInk (by decide)
    have hfields := solidOfAll hlevel properties h hclose
    rw [text, Layout.objectType, String.toList_append, String.toList_append, List.append_assoc]
    exact (Solid.ofInk (by decide : isBlank '\x7b' = false)).feed hfields
  | .parens e, h => by
    have hinner := (solid hlevel e h).append (.ofInk (by decide : isBlank ')' = false))
    rw [text, Layout.parens, String.toList_append, String.toList_append, List.append_assoc]
    exact hinner.cons (by decide)
  | .array e, h => by
    have hbrackets : Solid ['[', ']'] := (Solid.ofInk (by decide)).cons (by decide)
    rw [text, String.toList_append]
    exact (solid hlevel e h).append hbrackets
  | .union l r, h => by
    have hl := solid hlevel l fun x hx => h x (List.mem_append_left _ hx)
    have hr := solid hlevel r fun x hx => h x (List.mem_append_right _ hx)
    rw [text, String.toList_append, String.toList_append, List.append_assoc]
    exact hl.append (hr.lead (forall_mem (by decide)))
  | .intersection l r, h => by
    have hl := solid hlevel l fun x hx => h x (List.mem_append_left _ hx)
    have hr := solid hlevel r fun x hx => h x (List.mem_append_right _ hx)
    rw [text, String.toList_append, String.toList_append, List.append_assoc]
    exact hl.append (hr.lead (forall_mem (by decide)))

@[inherit_doc solid]
theorem solidOfAll (hlevel : indent.Level) : ∀ properties : List Property,
    (∀ x ∈ namesOfAll properties, Spacing.strict.word x) → ∀ {cs : List Char}, Solid cs →
      Solid ((String.join ((fields indent properties).map (Layout.fieldText indent))).toList ++ cs)
  | [], _, _, hrest => hrest
  | ⟨key, required, type⟩ :: rest, h, cs, hrest => by
    have hnames : ∀ x ∈ type.names, Spacing.strict.word x := fun x hx =>
      h x (List.mem_append_left _ hx)
    have hothers := solidOfAll hlevel rest (fun x hx => h x (List.mem_append_right _ hx)) hrest
    have hmoved := (solid hlevel type hnames).moved hlevel (type.laid hlevel.fits hnames).eq_feed
    rw [fields, List.map_cons, String.join_cons, String.toList_append, List.append_assoc]
    exact .field hlevel key required hmoved hothers

end

end Expr

/-- **The text of a declaration is solid.** -/
theorem Declaration.solid (hlevel : indent.Level) (d : Declaration)
    (hdeclared : Spacing.strict.word d.declared) (hnames : ∀ x ∈ d.names, Spacing.strict.word x) :
    Solid (d.text indent).toList := by
  have hname : ∀ c ∈ d.declared.toList, c ≠ '\n' := by
    rintro c hc rfl
    exact absurd (hdeclared.2 _ hc) (by decide)
  match d, hname, hnames with
  | .interface name properties, hname, hnames =>
    have hobject := (Expr.object properties).solid hlevel hnames
    rw [text, Layout.interfaceDecl]
    simp only [String.toList_append, List.append_assoc]
    exact ((hobject.lead (forall_mem (by decide))).lead hname).lead (forall_mem (by decide))
  | .alias name type, hname, hnames =>
    have htype := (type.solid hlevel hnames).append (.ofInk (by decide : isBlank ';' = false))
    rw [text, Layout.aliasDecl]
    simp only [String.toList_append, List.append_assoc]
    exact ((htype.lead (forall_mem (by decide))).lead hname).lead (forall_mem (by decide))

end TypeScribe
