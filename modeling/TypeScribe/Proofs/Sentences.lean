import TypeScribe.Proofs.FullLines

/-!
# What is compiled are sentences

The grammar of declarations over tokens is given by rules (`IsType`, `IsShape`, `IsFields`,
`IsDeclaration`). What a compilation writes are declarations of this grammar with one empty line in
between, and no blank line inside of them (`parse_sentences`).

Whatever was empty on the way has been left out, or has become null: behind every mark that asks for a
type there is one (`Token.answered`).
-/

namespace TypeScribe

open Text

/-! ## The grammar -/

/-- Whether a token can be the name of a property. -/
def Token.isKey : Token → Bool
  | .word _ => true
  | .literal _ => true
  | .mark _ => false

mutual

/-- **Types.** A name, or the keyword of a scalar, is a word. -/
inductive IsType : List Token → Prop where
  | word (w : String) : IsType [.word w]
  | shape {ts : List Token} (shape : IsShape ts) : IsType ts
  | parens {ts : List Token} (inner : IsType ts) : IsType (.mark '(' :: (ts ++ [.mark ')']))
  | array {ts : List Token} (item : IsType ts) : IsType (ts ++ [.mark '[', .mark ']'])
  | union {ts us : List Token} (left : IsType ts) (right : IsType us) : IsType (ts ++ .mark '|' :: us)
  | intersection {ts us : List Token} (left : IsType ts) (right : IsType us) :
      IsType (ts ++ .mark '&' :: us)

/-- **Object types.** -/
inductive IsShape : List Token → Prop where
  | braces {ts : List Token} (fields : IsFields ts) : IsShape (.mark '\x7b' :: (ts ++ [.mark '\x7d']))

/-- **Fields** of an object type. -/
inductive IsFields : List Token → Prop where
  | nil : IsFields []
  | required {key : Token} {ts us : List Token} (isKey : key.isKey = true) (type : IsType ts)
      (rest : IsFields us) : IsFields (key :: .mark ':' :: (ts ++ .mark ';' :: us))
  | optional {key : Token} {ts us : List Token} (isKey : key.isKey = true) (type : IsType ts)
      (rest : IsFields us) : IsFields (key :: .mark '?' :: .mark ':' :: (ts ++ .mark ';' :: us))

end

/-- **Declarations.** -/
inductive IsDeclaration : List Token → Prop where
  | interface (name : String) {ts : List Token} (shape : IsShape ts) :
      IsDeclaration (.word "interface" :: .word name :: ts)
  | alias (name : String) {ts : List Token} (type : IsType ts) :
      IsDeclaration (.word "type" :: .word name :: .mark '=' :: (ts ++ [.mark ';']))

/-! ## Trees are derivations -/

theorem Token.isKey_key (name : String) : (Token.key name).isKey = true := by
  rw [Token.key]
  split <;> rfl

namespace Expr

mutual

/-- **The tokens of an expression are a type.** -/
theorem isType : ∀ e : Expr, IsType e.tokens
  | .scalar _ => .word _
  | .name _ => .word _
  | .object properties => .shape (.braces (isFields properties))
  | .parens e => .parens (isType e)
  | .array e => .array (isType e)
  | .union l r => .union (isType l) (isType r)
  | .intersection l r => .intersection (isType l) (isType r)

/-- The properties of an object type are written as fields. -/
theorem isFields : ∀ properties : List Property, IsFields (tokensOfAll properties)
  | [] => .nil
  | ⟨key, true, type⟩ :: rest => .required (Token.isKey_key key) (isType type) (isFields rest)
  | ⟨key, false, type⟩ :: rest => .optional (Token.isKey_key key) (isType type) (isFields rest)

end

end Expr

/-- Every declaration reads as one. -/
theorem Declaration.isDeclaration : ∀ d : Declaration, IsDeclaration d.tokens
  | .interface name properties => .interface name (.braces (Expr.isFields properties))
  | .alias name type => .alias name type.isType

/-! ## No type is missing -/

/-- Whether a token asks for a type behind it. -/
def Token.asks : Token → Bool
  | .mark c => ['=', ':', '(', '|', '&'].contains c
  | _ => false

/-- Whether a type can begin with a token. -/
def Token.opens : Token → Bool
  | .word _ => true
  | .literal _ => false
  | .mark c => ['\x7b', '('].contains c

/-- Whether every token that asks for a type has one behind it. -/
def Token.answered : List Token → Bool
  | [] => true
  | token :: rest => (!token.asks || rest.head?.any opens) && answered rest

namespace Token

variable {token : Token} {ts us : List Token}

theorem answered_cons (h : token.asks = true → ts.head?.any opens = true)
    (hrest : answered ts = true) : answered (token :: ts) = true := by
  rw [answered, hrest, Bool.and_true, Bool.or_eq_true, Bool.not_eq_true']
  cases hasks : token.asks with
  | false => exact Or.inl rfl
  | true => exact Or.inr (h hasks)

theorem answered_other (h : token.asks = false) (hrest : answered ts = true) :
    answered (token :: ts) = true := by
  rw [answered, h, hrest]
  rfl

theorem asks_of_isKey (h : token.isKey = true) : token.asks = false := by
  cases token with
  | word _ => rfl
  | literal _ => rfl
  | mark _ => exact absurd h Bool.false_ne_true

theorem opens_append (h : ts.head?.any opens = true) : (ts ++ us).head?.any opens = true := by
  cases ts with
  | nil => exact absurd h (by simp)
  | cons token ts => exact h

/-- Where every question is answered on both sides, it is answered in the whole. -/
theorem answered_append (h : answered ts = true) (h' : answered us = true) :
    answered (ts ++ us) = true := by
  induction ts with
  | nil => exact h'
  | cons token ts ih =>
    rw [answered, Bool.and_eq_true, Bool.or_eq_true, Bool.not_eq_true'] at h
    refine answered_cons ?_ (ih h.2)
    intro hasks
    rcases h.1 with hnot | hopens
    · rw [hnot] at hasks
      exact absurd hasks Bool.false_ne_true
    · exact opens_append hopens

end Token

/-- Tokens that a type can begin with, and in which no type is missing. -/
structure Answers (ts : List Token) : Prop where
  opens : ts.head?.any Token.opens = true
  answered : Token.answered ts = true

namespace Answers

variable {ts us : List Token}

theorem append (h : Answers ts) (h' : Token.answered us = true) : Answers (ts ++ us) :=
  ⟨Token.opens_append h.opens, Token.answered_append h.answered h'⟩

/-- A mark that asks for a type is answered by one. -/
theorem mark (c : Char) (h : Answers ts) : Token.answered (.mark c :: ts) = true :=
  Token.answered_cons (fun _ => h.opens) h.answered

/-- The part of a field behind its name. -/
theorem colon (h : Answers ts) (h' : Token.answered us = true) :
    Token.answered (.mark ':' :: (ts ++ .mark ';' :: us)) = true :=
  (h.append (Token.answered_other rfl h')).mark ':'

end Answers

mutual

/-- A type begins like one, and answers every question inside it. -/
theorem IsType.answers {ts : List Token} : IsType ts → Answers ts
  | .word _ => ⟨rfl, rfl⟩
  | .shape hshape => hshape.answers
  | .parens hinner => ⟨rfl, (hinner.answers.append (Token.answered_other rfl rfl)).mark '('⟩
  | .array hitem => hitem.answers.append (Token.answered_other rfl (Token.answered_other rfl rfl))
  | .union hleft hright => hleft.answers.append (hright.answers.mark '|')
  | .intersection hleft hright => hleft.answers.append (hright.answers.mark '&')

theorem IsShape.answers {ts : List Token} : IsShape ts → Answers ts
  | .braces hfields =>
    ⟨rfl, Token.answered_other rfl
      (Token.answered_append hfields.answered (Token.answered_other rfl rfl))⟩

theorem IsFields.answered {ts : List Token} : IsFields ts → Token.answered ts = true
  | .nil => rfl
  | .required hkey htype hrest =>
    Token.answered_other (Token.asks_of_isKey hkey) (htype.answers.colon hrest.answered)
  | .optional hkey htype hrest =>
    Token.answered_other (Token.asks_of_isKey hkey)
      (Token.answered_other rfl (htype.answers.colon hrest.answered))

end

/-- **In a declaration no type is missing.** -/
theorem IsDeclaration.answered {ts : List Token} (h : IsDeclaration ts) :
    Token.answered ts = true := by
  cases h with
  | interface _ hshape =>
    exact Token.answered_other rfl (Token.answered_other rfl hshape.answers.answered)
  | «alias» _ htype =>
    exact Token.answered_other rfl (Token.answered_other rfl
      ((htype.answers.append (Token.answered_other rfl rfl)).mark '='))

/-! ## Sentences -/

section

variable {σ : Type} [Source σ] {r₀ r : Registry σ} {text margin : String}

/-- **What is compiled are sentences.** Without a comment, with an indent of spaces and tabs and if every
node met has a name, the output is a row of declarations with one empty line in between. No line of a
declaration is blank, and its tokens are derived by the grammar. -/
theorem parse_sentences (hf : r₀.Fresh) (hcomment : r₀.settings.comment.isVacant = true)
    (hindent : r₀.settings.indent = .str margin)
    (hmargin : ∀ c ∈ margin.toList, c = ' ' ∨ c = '\t') (h : Registry.parse r₀ = .ok text r)
    (hnamed : ∀ n ∈ r.draft.emission.toList, r.graph.nameOf n ≠ "") :
    ∃ declarations : List String, text = "\n\n".intercalate declarations ∧
      ∀ d ∈ declarations, (∀ line ∈ piecesAt '\n' d.toList, ∃ c ∈ line, isBlank c = false) ∧
        ∃ tokens, Token.read d.toList = some tokens ∧ IsDeclaration tokens ∧
          Token.answered tokens = true := by
  obtain ⟨ids, hcompiled⟩ := Registry.parse_compiled hf h
  obtain ⟨blocks, hwritten⟩ := hcompiled.written
  have hlevel : (Indent.orBlank r.settings.indent).Level := by
    rw [hcompiled.settings, hindent]
    exact ⟨hmargin, hmargin⟩
  have hnames : ∀ n ∈ r.draft.emission.toList, Spacing.strict.word (r.graph.nameOf n) :=
    fun n hn => ⟨hnamed n hn, (hcompiled.nameLike_nameOf hf n).plain⟩
  refine ⟨_, hwritten.text_eq (hcompiled.settings ▸ hcomment), ?_⟩
  intro t ht
  obtain ⟨d, hd, rfl⟩ := List.mem_map.mp ht
  obtain ⟨⟨hdeclared, huses⟩, hlaid⟩ := hwritten.laid hcompiled hlevel.fits hnames d hd
  exact ⟨forall_line_of_inked (d.solid hlevel hdeclared huses).inked, d.tokens, hlaid.read,
    d.isDeclaration, d.isDeclaration.answered⟩

/-- Null among the types and in lists of lists, empty composing keywords, an object inside a field, and
names that are quoted or end in a line feed. -/
def patchwork : Registry Catalog := .queued { indent := .str " \t" } ⟨[]⟩ "" [
  .obj [("title", .str "a b"), ("properties", .obj [
      ("none", .obj [("type", .arr [.str "null", .arr [.str "null", .str "null"]])]),
      ("=;\n\"", .obj [("properties", .obj [("x\n", .obj [("anyOf", .arr [])])])])]),
    ("allOf", .arr [.obj [("type", .str "null")], .obj [
      ("oneOf", .arr [.obj [("type", .str "null")], .obj [("type", .str "string")]]),
      ("anyOf", .arr [])]])],
  .obj [("title", .str "c"), ("anyOf", .arr [])]]

theorem parse_sentences_patchwork :
    ∃ text r, patchwork.Fresh ∧ patchwork.settings.comment.isVacant = true ∧
      patchwork.settings.indent = .str " \t" ∧ (∀ c ∈ " \t".toList, c = ' ' ∨ c = '\t') ∧
      Registry.parse patchwork = .ok text r ∧
      text = "interface _AB \x7b\n \tnone?: null;\n \t\"=;\\n\\\"\"?: \x7b\n \t \tx\n \t?: X;\n" ++
        " \t\x7d;\n\x7d\n\ntype AB = _AB & (string);\n\ntype X = null;\n\ntype C = null;" ∧
      r.draft.emission.toList.map r.graph.nameOf = ["AB", "X", "C"] ∧
      ∃ declarations : List String, text = "\n\n".intercalate declarations ∧
        ∀ d ∈ declarations, (∀ line ∈ piecesAt '\n' d.toList, ∃ c ∈ line, isBlank c = false) ∧
          ∃ tokens, Token.read d.toList = some tokens ∧ IsDeclaration tokens ∧
            Token.answered tokens = true := by
  have hfresh : patchwork.Fresh := Registry.fresh_queued _ _ _ _
  obtain ⟨text, r, hparse, htest⟩ := exists_of_succeeds (Registry.parse patchwork)
    (fun text (r : Registry Catalog) => decide (
      text = "interface _AB \x7b\n \tnone?: null;\n \t\"=;\\n\\\"\"?: \x7b\n \t \tx\n \t?: X;\n" ++
        " \t\x7d;\n\x7d\n\ntype AB = _AB & (string);\n\ntype X = null;\n\ntype C = null;" ∧
      r.draft.emission.toList.map r.graph.nameOf = ["AB", "X", "C"])) (by decide +kernel)
  obtain ⟨htext, hnames⟩ := of_decide_eq_true htest
  have hmargin : ∀ c ∈ " \t".toList, c = ' ' ∨ c = '\t' := forall_mem (by decide)
  have hnamed : ∀ n ∈ r.draft.emission.toList, r.graph.nameOf n ≠ "" := by
    intro n hn
    have hname : r.graph.nameOf n ∈ ["AB", "X", "C"] := hnames ▸ List.mem_map_of_mem hn
    rintro hempty
    rw [hempty] at hname
    exact absurd hname (by decide)
  exact ⟨text, r, hfresh, rfl, rfl, hmargin, hparse, htext, hnames,
    parse_sentences hfresh rfl rfl hmargin hparse hnamed⟩

end

end TypeScribe
