import TypeScribe.Proofs.Senses

/-!
# The operands of an intersection

A node with composing keywords is meant to be the **intersection** of its base and of one type for each keyword:
the intersection of the members of `allOf`, and the union of those of `anyOf` and `oneOf`. What is written for it
is read by precedence, and then an operand that is a union at the top, and not in parentheses, comes apart.

Exactly this can go wrong (`parse_operands`): the text of a base with something behind it has a **bar** at its
top, or one of several members of `allOf` has. In every other case, and in each of the forms that an expression is
written in, the text says what is meant.
-/

namespace TypeScribe

/-! ## Sums joined by operators -/

namespace Sum

variable {s t : Sum}

/-- The operands of the alternative that a sum ends with. -/
def operands (s : Sum) : List Sense := s.factors ++ [s.last]

theorem operands_ne_nil (s : Sum) : s.operands ≠ [] := by
  simp [operands]

theorem products_bar (s t : Sum) : (s.bar.add t).products = s.products ++ t.products := by
  obtain ⟨⟨closed, factors⟩, last⟩ := t
  cases closed <;> simp [Stem.add, bar, products]

/-- A bar at the top of an operand stays at the top. -/
theorem closed_and : (s.and.add t).closed = [] ↔ s.closed = [] ∧ t.closed = [] := by
  obtain ⟨⟨closed, factors⟩, last⟩ := t
  cases closed <;> simp [Stem.add, and]

/-- Intersecting two products puts their operands side by side. -/
theorem operands_and (ht : t.closed = []) : (s.and.add t).operands = s.operands ++ t.operands := by
  obtain ⟨⟨closed, factors⟩, last⟩ := t
  obtain rfl : closed = [] := ht
  simp [Stem.add, and, operands]

/-- Without a bar at the top a sum is an intersection. -/
theorem sense_of_closed (h : s.closed = []) : s.sense = .joined .intersection s.operands := by
  rw [sense, products, h, List.nil_append, List.map_singleton, Sense.joined_singleton]
  rfl

/-- With a bar at the top it is a union. -/
theorem sense_of_bar (h : s.closed ≠ []) :
    ∃ first second rest, s.sense = .join .union first second rest := by
  obtain ⟨first, rest, hclosed⟩ := List.exists_cons_of_ne_nil h
  rw [sense, products, hclosed]
  cases rest with
  | nil => exact Sense.joined_cons_cons ..
  | cons second rest => exact Sense.joined_cons_cons ..

end Sum

/-! ## What texts say -/

/-- **A text says** a sum if it is the text of a tree with that sum. -/
def Says (indent : Indent) (text : String) (s : Sum) : Prop :=
  ∃ e : Expr, text = e.text indent ∧ (∀ x ∈ e.names, Spacing.strict.word x) ∧ e.sum = s

/-- What a text says; a text that cannot be read says nothing. -/
def Sense.ofText (text : String) : Sense := (ofText? text).getD (.word "")

/-- Whether a bar stands at the top of a text, outside of all parentheses and braces. -/
def barred (text : String) : Bool := (Sum.ofText? text).any fun s => !s.closed.isEmpty

section

variable {indent : Indent} {text text' : String} {s s' : Sum}

/-- Every expression says something. -/
theorem Expressed.exists_sum (h : Expressed indent Spacing.strict.word text) : ∃ s, Says indent text s := by
  obtain ⟨e, htext, hnames⟩ := h
  exact ⟨e.sum, e, htext, hnames, rfl⟩

namespace Says

/-- What a text says can be read back from it. -/
theorem ofText? (h : Says indent text s) (hfits : indent.Fits .strict) : Sum.ofText? text = some s := by
  obtain ⟨e, rfl, hnames, rfl⟩ := h
  exact Expr.ofText?_text hfits hnames

theorem sense? (h : Says indent text s) (hfits : indent.Fits .strict) : Sense.ofText? text = some s.sense := by
  rw [Sense.ofText?, h.ofText? hfits]
  rfl

theorem sense (h : Says indent text s) (hfits : indent.Fits .strict) : Sense.ofText text = s.sense := by
  rw [Sense.ofText, h.sense? hfits]
  rfl

/-- The test for a bar at the top finds whether there is more than one product. -/
theorem barred (h : Says indent text s) (hfits : indent.Fits .strict) :
    TypeScribe.barred text = !s.closed.isEmpty := by
  rw [TypeScribe.barred, h.ofText? hfits]
  rfl

theorem parens (h : Says indent text s) : Says indent (Layout.parens text) (.single s.sense) := by
  obtain ⟨e, rfl, hnames, rfl⟩ := h
  exact ⟨.parens e, rfl, hnames, rfl⟩

theorem bar (h : Says indent text s) (h' : Says indent text' s') :
    Says indent (text ++ " | " ++ text') (s.bar.add s') := by
  obtain ⟨e, rfl, hnames, rfl⟩ := h
  obtain ⟨e', rfl, hnames', rfl⟩ := h'
  refine ⟨.union e e', rfl, ?_, rfl⟩
  intro x hx
  exact (List.mem_append.mp hx).elim (hnames x) (hnames' x)

theorem and (h : Says indent text s) (h' : Says indent text' s') :
    Says indent (text ++ " & " ++ text') (s.and.add s') := by
  obtain ⟨e, rfl, hnames, rfl⟩ := h
  obtain ⟨e', rfl, hnames', rfl⟩ := h'
  refine ⟨.intersection e e', rfl, ?_, rfl⟩
  intro x hx
  exact (List.mem_append.mp hx).elim (hnames x) (hnames' x)

end Says

/-- Texts that each say something. -/
theorem Expressed.exists_sums {texts : List String} (h : ∀ t ∈ texts, Expressed indent Spacing.strict.word t) :
    ∃ sums, List.Forall₂ (Says indent) texts sums := by
  induction texts with
  | nil => exact ⟨[], .nil⟩
  | cons t rest ih =>
    obtain ⟨s, hs⟩ := (h t (List.mem_cons_self ..)).exists_sum
    obtain ⟨sums, hsums⟩ := ih fun t ht => h t (List.mem_cons_of_mem _ ht)
    exact ⟨s :: sums, .cons hs hsums⟩

/-- A union says the products of its texts, one after the other. -/
theorem Says.products_union : ∀ {texts : List String} {sums : List Sum},
    List.Forall₂ (Says indent) texts sums → texts ≠ [] →
    ∃ s, Says indent (" | ".intercalate texts) s ∧ s.products = sums.flatMap Sum.products
  | [text], [s], .cons h .nil, _ => ⟨s, by rwa [String.intercalate_singleton], by simp⟩
  | text :: text' :: texts, s :: sums, .cons h hrest, _ => by
    obtain ⟨s', hs', hproducts⟩ := Says.products_union hrest (List.cons_ne_nil _ _)
    refine ⟨s.bar.add s', ?_, ?_⟩
    · rw [String.intercalate_cons_cons]
      exact h.bar hs'
    · rw [Sum.products_bar, hproducts, List.flatMap_cons]

/-- **Texts with bars in between** say the union of what they say. -/
theorem Says.union {texts : List String} {sums : List Sum} (h : List.Forall₂ (Says indent) texts sums)
    (hne : texts ≠ []) :
    ∃ s, Says indent (" | ".intercalate texts) s ∧ s.sense = .joined .union (sums.map Sum.sense) := by
  obtain ⟨s, hs, hproducts⟩ := Says.products_union h hne
  refine ⟨s, hs, ?_⟩
  let lots := sums.map fun s => s.products.map (Sense.joined .intersection)
  have hlots : ∀ lot ∈ lots, lot ≠ [] := by
    intro lot hlot
    obtain ⟨s, -, rfl⟩ := List.mem_map.mp hlot
    simp [Sum.products]
  calc s.sense
      = .joined .union lots.flatten := by
        rw [Sum.sense, hproducts, List.map_flatMap, List.flatMap_def]
    _ = .joined .union (lots.map (Sense.joined .union)) := (Sense.joined_map_joined hlots).symm
    _ = .joined .union (sums.map Sum.sense) := by
        rw [List.map_map]
        rfl

/-- An intersection of texts is one product just if none of the texts has a bar at the top, and then
its operands are theirs. -/
theorem Says.operands_intersection : ∀ {texts : List String} {sums : List Sum},
    List.Forall₂ (Says indent) texts sums → texts ≠ [] → ∃ s, Says indent (" & ".intercalate texts) s ∧
      (s.closed = [] ↔ ∀ s ∈ sums, s.closed = []) ∧
      ((∀ s ∈ sums, s.closed = []) → s.operands = sums.flatMap Sum.operands)
  | [text], [s], .cons h .nil, _ => ⟨s, by rwa [String.intercalate_singleton], by simp, by simp⟩
  | text :: text' :: texts, s :: sums, .cons h hrest, _ => by
    obtain ⟨s', hs', hclosed, hoperands⟩ := Says.operands_intersection hrest (List.cons_ne_nil _ _)
    refine ⟨s.and.add s', ?_, ?_, ?_⟩
    · rw [String.intercalate_cons_cons]
      exact h.and hs'
    · rw [Sum.closed_and, hclosed, List.forall_mem_cons]
    · intro hall
      have hrest := (List.forall_mem_cons.mp hall).2
      rw [Sum.operands_and (hclosed.mpr hrest), hoperands hrest, List.flatMap_cons]

/-- **Texts with ampersands in between** say the intersection of what they say, if none of them has a bar at its
top; otherwise there is one at the top of all. -/
theorem Says.intersection {texts : List String} {sums : List Sum} (h : List.Forall₂ (Says indent) texts sums)
    (hne : texts ≠ []) : ∃ s, Says indent (" & ".intercalate texts) s ∧
      (s.closed = [] ↔ ∀ s ∈ sums, s.closed = []) ∧
      ((∀ s ∈ sums, s.closed = []) → s.sense = .joined .intersection (sums.map Sum.sense)) := by
  obtain ⟨s, hs, hclosed, hoperands⟩ := Says.operands_intersection h hne
  refine ⟨s, hs, hclosed, fun hall => ?_⟩
  have hlots : ∀ lot ∈ sums.map Sum.operands, lot ≠ [] := by
    intro lot hlot
    obtain ⟨s, -, rfl⟩ := List.mem_map.mp hlot
    exact s.operands_ne_nil
  calc s.sense
      = .joined .intersection (sums.map Sum.operands).flatten := by
        rw [Sum.sense_of_closed (hclosed.mpr hall), hoperands hall, List.flatMap_def]
    _ = .joined .intersection ((sums.map Sum.operands).map (Sense.joined .intersection)) :=
        (Sense.joined_map_joined hlots).symm
    _ = .joined .intersection (sums.map Sum.sense) := by
        rw [List.map_map]
        congr 1
        exact List.map_congr_left fun s hs => (Sum.sense_of_closed (hall s hs)).symm

end

/-! ## Base and keywords -/

/-- What a keyword makes of its members. -/
def Keyword.joint : Keyword → Joint
  | .allOf => .intersection
  | .anyOf => .union
  | .oneOf => .union

/-- **A composing keyword** with the texts of its members, less the empty ones. -/
structure Lot where
  keyword : Keyword
  texts : List String

namespace Lot

/-- What is written for a keyword. -/
def text (lot : Lot) : String := (" " ++ lot.keyword.operator ++ " ").intercalate lot.texts

/-- **What is meant by a keyword**: the types of its members, joined. -/
def meant (lot : Lot) : Sense := .joined lot.keyword.joint (lot.texts.map Sense.ofText)

/-- No bar at the top of a member stands beside an ampersand. -/
def intact (lot : Lot) : Bool :=
  lot.keyword != .allOf || decide (lot.texts.length < 2) || lot.texts.all fun t => !barred t

end Lot

/-- The types that a base and keywords are meant to be the intersection of. A base may be missing. -/
def operandsMeant (base : String) (lots : List Lot) : List Sense :=
  (if base = "" then [] else [Sense.ofText base]) ++ lots.map Lot.meant

/-- **What is meant by a base with keywords**: their intersection. -/
def meant (base : String) (lots : List Lot) : Sense := .joined .intersection (operandsMeant base lots)

/-- **No operand comes apart**: no bar stands at the top of a base that something follows, or of a member of `allOf`
that has others beside it. -/
def intact (base : String) (lots : List Lot) : Bool :=
  (decide (base = "") || lots.isEmpty || !barred base) && lots.all Lot.intact

section

variable {indent : Indent} {base : String} {lots : List Lot} (hfits : indent.Fits .strict)

include hfits

/-- The senses of texts, by their sums. -/
theorem Says.map_sense {texts : List String} {sums : List Sum} (h : List.Forall₂ (Says indent) texts sums) :
    texts.map Sense.ofText = sums.map Sum.sense := by
  induction h with
  | nil => rfl
  | cons hs _ ih => rw [List.map_cons, List.map_cons, hs.sense hfits, ih]

/-- Texts have no bar at the top if none of them says more than one product. -/
theorem Says.all_unbarred {texts : List String} {sums : List Sum} (h : List.Forall₂ (Says indent) texts sums) :
    (texts.all fun t => !TypeScribe.barred t) = true ↔ ∀ s ∈ sums, s.closed = [] := by
  induction h with
  | nil => simp
  | cons hs _ ih =>
    rw [List.all_cons, Bool.and_eq_true, ih, List.forall_mem_cons, hs.barred hfits]
    simp

/-- **A keyword says what it means**, or it is `allOf` and a bar has come to the top. -/
theorem Lot.exists_sum {lot : Lot} (hne : lot.texts ≠ [])
    (h : ∀ t ∈ lot.texts, Expressed indent Spacing.strict.word t) :
    ∃ s, Says indent lot.text s ∧
      ((lot.intact = true ∧ s.sense = lot.meant) ∨
        (lot.intact = false ∧ s.closed ≠ [] ∧ 1 < (lot.meant.parts .intersection).length)) := by
  obtain ⟨sums, hsums⟩ := Expressed.exists_sums h
  have hsenses := Says.map_sense hfits hsums
  obtain ⟨keyword, texts⟩ := lot
  cases keyword with
  | anyOf =>
    obtain ⟨s, hs, hsense⟩ := Says.union hsums hne
    exact ⟨s, hs, Or.inl ⟨rfl, by rw [hsense, meant, hsenses]; rfl⟩⟩
  | oneOf =>
    obtain ⟨s, hs, hsense⟩ := Says.union hsums hne
    exact ⟨s, hs, Or.inl ⟨rfl, by rw [hsense, meant, hsenses]; rfl⟩⟩
  | allOf =>
    obtain ⟨s, hs, hclosed, hsense⟩ := Says.intersection hsums hne
    refine ⟨s, hs, ?_⟩
    by_cases hall : ∀ s ∈ sums, s.closed = []
    · refine Or.inl ⟨?_, by rw [hsense hall, meant, hsenses]; rfl⟩
      rw [intact, (Says.all_unbarred hfits hsums).mpr hall, Bool.or_true]
    · have hbarred : (texts.all fun t => !barred t) = false := by
        rw [Bool.eq_false_iff]
        exact fun hall' => hall ((Says.all_unbarred hfits hsums).mp hall')
      match texts, sums, hsums with
      | [t], [s₁], .cons hs₁ .nil =>
        refine Or.inl ⟨rfl, ?_⟩
        have hsame : Sum.ofText? t = some s := by simpa [text] using hs.ofText? hfits
        obtain rfl := Option.some.inj (hsame.symm.trans (hs₁.ofText? hfits))
        rw [meant, List.map_singleton, Sense.joined_singleton, hs₁.sense hfits]
      | t :: t' :: rest, s₁ :: sums, .cons _ _ =>
        refine Or.inr ⟨?_, fun hempty => hall (hclosed.mp hempty), ?_⟩
        · rw [intact, hbarred]
          simp
        · obtain ⟨first, second, more, hjoin⟩ :=
            Sense.joined_cons_cons .intersection (.ofText t) (.ofText t') (rest.map .ofText)
          rw [meant, List.map_cons, List.map_cons, Keyword.joint, hjoin]
          simp [Sense.parts]

omit hfits in
theorem Sum.sense_single (x : Sense) : (Sum.single x).sense = x :=
  (Sum.sense_of_closed rfl).trans (Sense.joined_singleton .intersection x)

omit hfits in
/-- Texts in parentheses say what they say, as one operand. -/
theorem Says.map_parens {texts : List String} {sums : List Sum} (h : List.Forall₂ (Says indent) texts sums) :
    List.Forall₂ (Says indent) (texts.map Layout.parens) (sums.map fun s => .single s.sense) := by
  induction h with
  | nil => exact .nil
  | cons hs _ ih => exact .cons hs.parens ih

omit hfits in
/-- **Keywords side by side** are the intersection of what is written for them. -/
theorem Says.intersected {texts : List String} {sums : List Sum} (h : List.Forall₂ (Says indent) texts sums)
    (hne : texts ≠ []) : ∃ s, Says indent (Layout.intersected texts) s ∧
      s.sense = .joined .intersection (sums.map Sum.sense) := by
  match texts, sums, h with
  | [t], [s], .cons hs .nil => exact ⟨s, hs, (Sense.joined_singleton ..).symm⟩
  | t :: t' :: rest, s :: s' :: sums, h =>
    obtain ⟨a, ha, -, hsense⟩ := Says.intersection (Says.map_parens h) (by simp)
    refine ⟨a, ha, ?_⟩
    rw [hsense fun s hs => ?_, List.map_map]
    · congr 1
      exact List.map_congr_left fun s _ => Sum.sense_single s.sense
    · obtain ⟨s, -, rfl⟩ := List.mem_map.mp hs
      rfl

theorem Says.ne_empty {text : String} {s : Sum} (h : Says indent text s) : text ≠ "" := by
  rintro rfl
  have hnone : Sum.ofText? "" = none := rfl
  cases hnone.symm.trans (h.ofText? hfits)

/-- **What is written for keywords, held against what is meant**: it is the same if all are intact, and otherwise
there are fewer operands than are meant. -/
inductive Lot.Compared (lots : List Lot) (senses : List Sense) : Prop where
  | same (intact : lots.all Lot.intact = true) (eq : senses = lots.map Lot.meant)
  | fewer (broken : lots.all Lot.intact = false) (lt : (senses.flatMap (Sense.parts .intersection)).length <
      ((lots.map Lot.meant).flatMap (Sense.parts .intersection)).length)

/-- Each lot says what its texts say, compared by the keyword of the lot. -/
theorem Lot.exists_sums (h : ∀ lot ∈ lots, lot.texts ≠ [] ∧
    ∀ t ∈ lot.texts, Expressed indent Spacing.strict.word t) :
    ∃ sums, List.Forall₂ (Says indent) (lots.map Lot.text) sums ∧ Lot.Compared lots (sums.map Sum.sense) := by
  induction lots with
  | nil => exact ⟨[], .nil, .same rfl rfl⟩
  | cons lot rest ih =>
    obtain ⟨hlot, hrest⟩ := List.forall_mem_cons.mp h
    obtain ⟨s, hs, hone⟩ := Lot.exists_sum hfits hlot.1 hlot.2
    obtain ⟨sums, hsums, hmore⟩ := ih hrest
    refine ⟨s :: sums, .cons hs hsums, ?_⟩
    rcases hone with ⟨hintact, hsense⟩ | ⟨hbroken, hbar, hmeant⟩
    · cases hmore with
      | same hall hsame => exact .same (by simp [hintact, hall]) (by simp [hsense, hsame])
      | fewer hnot hless => exact .fewer (by simp [hintact, hnot]) (by simpa [hsense] using hless)
    · obtain ⟨first, second, others, hunion⟩ := Sum.sense_of_bar hbar
      have hone : (s.sense.parts .intersection).length = 1 := by
        rw [hunion, Sense.parts_join (by decide)]
        rfl
      refine .fewer (by simp [hbroken]) ?_
      rw [List.map_cons, List.flatMap_cons, List.map_cons, List.flatMap_cons, List.length_append,
        List.length_append]
      cases hmore with
      | same _ hsame =>
        rw [hsame]
        omega
      | fewer _ hless => omega

omit hfits in
/-- Next to other operands, the same. -/
theorem Lot.Compared.joined_eq_iff {senses : List Sense} (h : Lot.Compared lots senses) (bases : List Sense)
    (hne : bases ++ senses ≠ []) :
    Sense.joined .intersection (bases ++ senses) = .joined .intersection (bases ++ lots.map Lot.meant) ↔
      lots.all Lot.intact = true := by
  cases h with
  | same hall hsame =>
    rw [hsame]
    exact ⟨fun _ => hall, fun _ => rfl⟩
  | fewer hnot hless =>
    refine ⟨fun heq => ?_, fun hall => absurd (hnot.symm.trans hall) (by decide)⟩
    have hmeant : bases ++ lots.map Lot.meant ≠ [] := by
      intro hempty
      rw [(List.append_eq_nil_iff.mp hempty).2] at hless
      exact absurd hless (Nat.not_lt_zero _)
    have hparts := congrArg (Sense.parts .intersection) heq
    rw [Sense.parts_joined hne, Sense.parts_joined hmeant, List.flatMap_append, List.flatMap_append] at hparts
    have hlength := congrArg List.length hparts
    rw [List.length_append, List.length_append] at hlength
    omega

omit hfits in
/-- An intersection in parentheses behind a sum without a bar: all are operands of one intersection. -/
theorem Sum.sense_and_single {b : Sum} {senses : List Sense} (hbar : b.closed = []) (hne : senses ≠ []) :
    (b.and.add (.single (.joined .intersection senses))).sense = .joined .intersection ([b.sense] ++ senses) := by
  have hclosed : (b.and.add (.single (.joined .intersection senses))).closed = [] :=
    Sum.closed_and.mpr ⟨hbar, rfl⟩
  have hlast : (Sum.single (.joined .intersection senses)).operands = [.joined .intersection senses] := rfl
  rw [Sum.sense_of_closed hclosed, Sum.operands_and rfl, Sum.sense_of_closed hbar, hlast]
  refine congrArg (Sense.ofParts .intersection) ?_
  rw [List.flatMap_append, List.flatMap_append, List.flatMap_singleton, List.flatMap_singleton,
    Sense.parts_joined hne, Sense.parts_joined b.operands_ne_nil]

/-- **A base with keywords says what is meant by it** exactly if no operand comes apart. -/
theorem exists_sense (hbase : Worded indent Spacing.strict.word base)
    (hlots : ∀ lot ∈ lots, lot.texts ≠ [] ∧ ∀ t ∈ lot.texts, Expressed indent Spacing.strict.word t)
    (hne : base ≠ "" ∨ lots ≠ []) :
    ∃ s, Sense.ofText? (Layout.augmented base (Layout.intersected (lots.map Lot.text))) = some s ∧
      (s = meant base lots ↔ intact base lots = true) := by
  obtain ⟨sums, hsums, hcompared⟩ := Lot.exists_sums hfits hlots
  by_cases hlots? : lots = []
  · have hbase? : base ≠ "" := hne.resolve_right (not_not_intro hlots?)
    obtain ⟨b, hb⟩ := (hbase.expressed hbase?).exists_sum
    subst hlots?
    refine ⟨b.sense, hb.sense? hfits, ?_⟩
    rw [meant, operandsMeant, if_neg hbase?, hb.sense hfits, List.map_nil, List.append_nil,
      Sense.joined_singleton]
    simp [intact]
  obtain ⟨a, ha, hsense⟩ := Says.intersected hsums (by simpa using hlots?)
  have hsumsne : sums.map Sum.sense ≠ [] := by
    have hlength := hsums.length_eq
    intro hempty
    simp_all
  by_cases hbase? : base = ""
  · refine ⟨a.sense, ?_, ?_⟩
    · rw [Layout.augmented, if_neg (ha.ne_empty hfits), if_pos hbase?]
      exact ha.sense? hfits
    · have hiff := hcompared.joined_eq_iff [] hsumsne
      rw [List.nil_append, ← hsense] at hiff
      rw [meant, operandsMeant, if_pos hbase?, hiff]
      simp [intact, hbase?]
  obtain ⟨b, hb⟩ := (hbase.expressed hbase?).exists_sum
  have hwhole := hb.and ha.parens
  refine ⟨(b.and.add (.single a.sense)).sense, ?_, ?_⟩
  · rw [Layout.augmented, if_neg (ha.ne_empty hfits), if_neg hbase?]
    exact hwhole.sense? hfits
  rw [meant, operandsMeant, if_neg hbase?, hb.sense hfits, intact, hb.barred hfits]
  by_cases hbar : b.closed = []
  · have hiff := hcompared.joined_eq_iff [b.sense] (by simp)
    rw [hsense, Sum.sense_and_single hbar hsumsne, hiff]
    simp [hbar]
  · have hbroken : (b.and.add (.single a.sense)).closed ≠ [] := fun hempty => hbar (Sum.closed_and.mp hempty).1
    obtain ⟨first, second, rest, hunion⟩ := Sum.sense_of_bar hbroken
    obtain ⟨lot, others, rfl⟩ := List.exists_cons_of_ne_nil hlots?
    obtain ⟨x, y, more, hjoin⟩ :=
      Sense.joined_cons_cons .intersection b.sense lot.meant (others.map Lot.meant)
    rw [hunion, List.singleton_append, List.map_cons, hjoin]
    simp [hbase?, hbar]

end

/-! ## Nodes -/

namespace Spelling

variable (text : NodeId → String)

/-- The composing keywords that have a member with a text. -/
def lots (augmentations : List Augmentation) : List Lot :=
  (augmentations.filter fun a => !(texts text a.members).isEmpty).map fun a => ⟨a.keyword, texts text a.members⟩

variable {text} {node : Node}

/-- The members of a keyword with texts are expressed, if those of the node are worded. -/
theorem lots_expressed {indent : Indent} {named : String → Prop}
    (h : ∀ m ∈ node.members, Worded indent named (text m)) :
    ∀ lot ∈ lots text node.augmentations, lot.texts ≠ [] ∧ ∀ t ∈ lot.texts, Expressed indent named t := by
  intro lot hlot
  obtain ⟨a, ha, rfl⟩ := List.mem_map.mp hlot
  obtain ⟨ha, hne⟩ := List.mem_filter.mp ha
  exact ⟨by simpa using hne, texts_expressed fun m hm => h m (Node.mem_members.mpr ⟨a, ha, hm⟩)⟩

/-- The augmentation of a node is the intersection of its lots. -/
theorem augmentation_eq : augmentation text node =
    Layout.intersected ((lots text node.augmentations).map Lot.text) := by
  rw [augmentation, groups, lots, List.map_map]
  rfl

end Spelling

/-- **A page shows an expression** of a node: as it is, as an alias, as an interface, or in two parts, of which the
first is what the node expresses on its own. -/
inductive Page.Shows (page : Page) (node : Node) (own : String) : String → Prop where
  | inline {text : String} (undeclared : node.declared = false) (inline : page.inline = some text) :
      Page.Shows page node own text
  | alias {text : String} (declared : node.declared = true)
      (block : page.block = some (Layout.aliasDecl node.name (Layout.orNull text))) :
      Page.Shows page node own text
  | interface {text : String} (declared : node.declared = true)
      (block : page.block = some (Layout.interfaceDecl node.name text)) : Page.Shows page node own text
  | split {text : String} (declared : node.declared = true)
      (block : page.block = some (Layout.interfaceDecl ("_" ++ node.name) own ++ "\n\n" ++
        Layout.aliasDecl node.name text)) : Page.Shows page node own text

/-- **The page of a closed node shows its whole expression.** -/
theorem Spelled.shows {g : Graph} {setting : Json} {d : Draft} {before : List NodeId} {n : NodeId} {node : Node}
    (h : Spelled g setting d before n node) :
    (d.page n).Shows node (Spelling.expression (d.known g before) g (.orBlank setting) node)
      (Spelling.whole (d.known g before) g (.orBlank setting) node) := by
  cases hdecl : node.declared with
  | false => exact .inline hdecl ((h.inline hdecl).trans (congrArg some (Spelling.inline_eq hdecl)))
  | true =>
    have hblock := h.block hdecl
    rw [Spelling.block, Spelling.declaration] at hblock
    split at hblock
    · rename_i fields hshape
      split at hblock
      · rename_i hempty
        refine .interface hdecl ?_
        rw [hblock, Spelling.whole_other (by simp [hshape]) fun _ _ => Or.inr hempty, Layout.augmented,
          if_pos hempty]
      · rename_i hne
        rw [Layout.splitDecl, ← Spelling.whole_split hshape hdecl hne] at hblock
        exact .split hdecl hblock
    · rename_i hshape
      refine .alias hdecl (hblock.trans ?_)
      rw [Spelling.whole_composite hshape]
      simp only [Spelling.expression, hshape]
    · rename_i hobject hcomposite
      refine .alias hdecl (hblock.trans ?_)
      rw [Spelling.whole_other hcomposite fun fields hshape => absurd hshape (hobject fields)]

/-! ## Output -/

section

variable {σ : Type} [Source σ] {r₀ r : Registry σ} {text : String}

/-- What a closed node reads is worded, with words for names. -/
theorem Registry.Compiled.known_worded {ids : List NodeId} (h : r₀.Compiled r ids text) (hf : r₀.Fresh)
    {before after : List NodeId} {n : NodeId} (hsplit : (r.graph.walk ids).closed = before ++ n :: after) :
    ∀ a ∈ r.graph.arrows n,
      Worded (.orBlank r.settings.indent) Spacing.strict.word (r.draft.known r.graph before a.target) := by
  refine h.tracks.known_worded_of h.valid (fun _ => Spacing.strict.word) (fun {_ m} _ _ => ?_)
    (fun _ _ hword => hword) before.length rfl hsplit
  by_cases hempty : r.graph.nameOf m = ""
  · exact Or.inl hempty
  · exact Or.inr ⟨hempty, (h.nameLike_nameOf hf m).plain⟩

/-- The private name of a shape is a word. -/
theorem Spacing.word_private {name : String} (h : ∀ c ∈ name.toList, Text.isPlain c = true) :
    Spacing.strict.word ("_" ++ name) := by
  refine ⟨by simp, ?_⟩
  intro c hc
  rw [String.toList_append, List.mem_append] at hc
  rcases hc with hc | hc
  · obtain rfl : c = '_' := by simpa using hc
    decide
  · exact h c hc

/-- The base of a closed node is worded. -/
theorem Spelling.base_worded {g : Graph} {indent : Indent} {known : NodeId → String} {n : NodeId} {node : Node}
    (hnode : g.node? n = some node) (hname : ∀ c ∈ node.name.toList, Text.isPlain c = true)
    (h : ∀ a ∈ g.arrows n, Worded indent Spacing.strict.word (known a.target)) :
    Worded indent Spacing.strict.word (Spelling.base known g indent node) := by
  have hexpression := Spelling.expression_worded hnode h
  rw [Spelling.base]
  split
  · exact Or.inl rfl
  · split
    · exact Or.inr (.ofName (Spacing.word_private hname))
    · exact hexpression
  · exact hexpression

/-- **Operands come apart exactly where a bar meets an ampersand.** If a compilation succeeds, with an indent of
spaces and tabs, the page of every node that was met shows its whole expression, whose base and whose members can be
read. The expression, read by precedence, is the intersection of its base and its keywords if and only if no bar
stands at the top of a base that keywords follow, or of one among several members of `allOf`. -/
theorem parse_operands (hf : r₀.Fresh) (hfits : (Indent.orBlank r₀.settings.indent).Fits .strict)
    (h : Registry.parse r₀ = .ok text r) :
    ∃ ids, r₀.Compiled r ids text ∧ ∀ n, r.graph.Reachable ids n → ∃ node before after,
      r.graph.node? n = some node ∧ (r.graph.walk ids).closed = before ++ n :: after ∧
      let known := r.draft.known r.graph before
      let base := Spelling.base known r.graph (.orBlank r.settings.indent) node
      let lots := Spelling.lots known node.augmentations
      let own := Spelling.expression known r.graph (.orBlank r.settings.indent) node
      let whole := Spelling.whole known r.graph (.orBlank r.settings.indent) node
      (r.draft.page n).Shows node own whole ∧
        (∀ t, t = base ∨ (∃ lot ∈ lots, t ∈ lot.texts) → t ≠ "" → Sense.ofText? t = some (.ofText t)) ∧
        (base ≠ "" ∨ lots ≠ [] → ∃ s, Sense.ofText? whole = some s ∧
          (s = meant base lots ↔ intact base lots = true)) := by
  obtain ⟨ids, hcompiled⟩ := Registry.parse_compiled hf h
  refine ⟨ids, hcompiled, ?_⟩
  intro n hreach
  have hclosed := hcompiled.mem_closed hreach
  obtain ⟨before, after, hsplit⟩ := List.append_of_mem hclosed
  obtain ⟨node, hnode⟩ := Graph.exists_node
    (hcompiled.valid.bounded n ((hcompiled.valid.mem_seen_iff n).mpr (Or.inr hclosed)))
  refine ⟨node, before, after, hnode, hsplit, ?_⟩
  intro known base lots own whole
  rw [← hcompiled.settings] at hfits
  have hworded := hcompiled.known_worded hf hsplit
  have hname : ∀ c ∈ node.name.toList, Text.isPlain c = true := by
    have hlike := hcompiled.nameLike_nameOf hf n
    rw [Graph.nameOf_of_node hnode] at hlike
    exact hlike.plain
  have hbase : Worded (.orBlank r.settings.indent) Spacing.strict.word base :=
    Spelling.base_worded hnode hname hworded
  have hlots : ∀ lot ∈ lots, lot.texts ≠ [] ∧
      ∀ t ∈ lot.texts, Expressed (.orBlank r.settings.indent) Spacing.strict.word t :=
    Spelling.lots_expressed fun m hm => hworded _ (Graph.arrow_of_member hnode hm)
  have hread : ∀ t, Expressed (.orBlank r.settings.indent) Spacing.strict.word t →
      Sense.ofText? t = some (.ofText t) := by
    intro t ht
    obtain ⟨s, hs⟩ := ht.exists_sum
    rw [hs.sense? hfits, hs.sense hfits]
  refine ⟨(hcompiled.tracks.spelled before n after hsplit node hnode).shows, ?_, ?_⟩
  · rintro t (rfl | ⟨lot, hlot, ht⟩) hne
    · exact hread _ (hbase.expressed hne)
    · exact hread t ((hlots lot hlot).2 t ht)
  · intro hne
    obtain ⟨s, hs, hiff⟩ := exists_sense hfits hbase hlots hne
    refine ⟨s, ?_, hiff⟩
    rw [← hs]
    exact congrArg (fun a => Sense.ofText? (Layout.augmented base a)) Spelling.augmentation_eq

/-- The indent by default is made of spaces. -/
theorem Settings.fits_default : (Indent.orBlank ({} : Settings).indent).Fits .strict := by
  have hspaces : ∀ c ∈ "  ".toList, c = ' ' := Text.forall_mem (by decide)
  exact ⟨fun c hc => Or.inl (hspaces c hc), fun c hc => Or.inl (hspaces c hc)⟩

/-- A type and a choice under `allOf`, and the same choice as a base. -/
def barAmongOperands : Registry Catalog := .queued {} ⟨[]⟩ "" [
  .obj [("title", .str "Blend"), ("allOf", .arr [
    .obj [("title", .str "Tea"), ("type", .str "object")],
    .obj [("type", .arr [.str "string", .str "number"])]])],
  .obj [("title", .str "Mix"), ("type", .arr [.str "string", .str "number"]), ("anyOf", .arr [
    .obj [("title", .str "Tea"), ("type", .str "object")]])]]

theorem parse_operands_barAmongOperands :
    ∃ text r, barAmongOperands.Fresh ∧ (Indent.orBlank barAmongOperands.settings.indent).Fits .strict ∧
      Registry.parse barAmongOperands = .ok text r ∧
      text = "type Blend = Tea & string | number;\n\ninterface Tea \x7b\n\x7d\n\n" ++
        "type Mix = string | number & (Tea);" ∧
      (∃ s, Sense.ofText? "Tea & string | number" = some s ∧
        s ≠ meant "" [⟨.allOf, ["Tea", "string | number"]⟩] ∧
        intact "" [⟨.allOf, ["Tea", "string | number"]⟩] = false) ∧
      ∃ ids, barAmongOperands.Compiled r ids text ∧ ∀ n, r.graph.Reachable ids n → ∃ node before after,
        r.graph.node? n = some node ∧ (r.graph.walk ids).closed = before ++ n :: after ∧
        let known := r.draft.known r.graph before
        let base := Spelling.base known r.graph (.orBlank r.settings.indent) node
        let lots := Spelling.lots known node.augmentations
        let own := Spelling.expression known r.graph (.orBlank r.settings.indent) node
        let whole := Spelling.whole known r.graph (.orBlank r.settings.indent) node
        (r.draft.page n).Shows node own whole ∧
          (∀ t, t = base ∨ (∃ lot ∈ lots, t ∈ lot.texts) → t ≠ "" → Sense.ofText? t = some (.ofText t)) ∧
          (base ≠ "" ∨ lots ≠ [] → ∃ s, Sense.ofText? whole = some s ∧
            (s = meant base lots ↔ intact base lots = true)) := by
  have hfresh : barAmongOperands.Fresh := Registry.fresh_queued _ _ _ _
  have hfits : (Indent.orBlank barAmongOperands.settings.indent).Fits .strict := Settings.fits_default
  obtain ⟨text, r, hparse, htest⟩ := exists_of_succeeds (Registry.parse barAmongOperands)
    (fun text _ => decide (text = "type Blend = Tea & string | number;\n\ninterface Tea \x7b\n\x7d\n\n" ++
      "type Mix = string | number & (Tea);")) (by decide +kernel)
  refine ⟨text, r, hfresh, hfits, hparse, of_decide_eq_true htest, ?_, parse_operands hfresh hfits hparse⟩
  have hread : Sense.ofText? "Tea & string | number" =
      some (.join .union (.join .intersection (.word "Tea") (.word "string") []) (.word "number") []) := by rfl
  have hmeant : meant "" [⟨.allOf, ["Tea", "string | number"]⟩] =
      .join .intersection (.word "Tea") (.join .union (.word "string") (.word "number") []) [] := by rfl
  refine ⟨_, hread, ?_, by decide +kernel⟩
  rw [hmeant]
  rintro ⟨⟩

end

end TypeScribe
