import TypeScribe.Proofs.Closure
import TypeScribe.Proofs.Labels
import TypeScribe.Proofs.Tokens

/-!
# The tokens of declarations

The **yield** of a tree is the list of its tokens (`Expr.tokens`, `Declaration.tokens`), and its text is
laid out as its yield (`Expr.laid`, `Declaration.laid`). Nothing depends on where the lines break: an
object type inside a field is moved to the right, and that keeps its tokens.
-/

namespace TypeScribe

open Text Naming

/-- The token of a property name. -/
def Token.key (name : String) : Token :=
  if isIdentifier name then .word (bareName name) else .literal name

/-- The mark of a property that may be missing. -/
def Token.optional (required : Bool) : List Token := if required then [] else [.mark '?']

namespace Expr

mutual

/-- **The tokens of an expression.** -/
def tokens : Expr → List Token
  | .scalar s => [.word (Layout.orNull s.text)]
  | .name n => [.word n]
  | .object properties => .mark '\x7b' :: (tokensOfAll properties ++ [.mark '\x7d'])
  | .parens e => .mark '(' :: (e.tokens ++ [.mark ')'])
  | .array e => e.tokens ++ [.mark '[', .mark ']']
  | .union l r => l.tokens ++ .mark '|' :: r.tokens
  | .intersection l r => l.tokens ++ .mark '&' :: r.tokens

@[inherit_doc tokens]
def tokensOfAll : List Property → List Token
  | [] => []
  | ⟨key, required, type⟩ :: rest =>
    .key key :: (Token.optional required ++
      .mark ':' :: (type.tokens ++ .mark ';' :: tokensOfAll rest))

end

end Expr

/-- **The tokens of a declaration.** -/
def Declaration.tokens : Declaration → List Token
  | .interface name properties => .word "interface" :: .word name :: (Expr.object properties).tokens
  | .alias name type => .word "type" :: .word name :: .mark '=' :: (type.tokens ++ [.mark ';'])

/-- **An indent fits a spacing** if all of its characters are gaps. -/
structure Indent.Fits (indent : Indent) (s : Spacing) : Prop where
  shown : ∀ c ∈ indent.shown.toList, s.gap c
  margin : ∀ c ∈ indent.margin, s.gap c

variable {s : Spacing} {indent : Indent} {ts us : List Token} {cs ds : List Char}

/-! ## Fields -/

/-- A field from left to right, with what follows it. -/
theorem Layout.toList_fieldText (indent : Indent) (key type : String) (required : Bool)
    (rest : List Char) : (fieldText indent ⟨key, type, required⟩).toList ++ rest =
      indent.shown.toList ++ ((propertyName key).toList ++ ((if required then [] else ['?']) ++
        ':' :: ' ' :: (moved indent type.toList ++ ';' :: '\n' :: rest))) := by
  cases required <;> simp [fieldText, String.toList_append]

namespace Laid

theorem singleton {w : String} (h : s.word w) : Laid s [.word w] w.toList := by
  have hword : Laid s [.word w] (w.toList ++ []) := .word h .nil .nil
  rwa [List.append_nil] at hword

/-- A property name is one token, in whichever way it is written. -/
theorem key (name : String) (hapart : s.Apart cs) (h : Laid s ts cs) :
    Laid s (.key name :: ts) ((propertyName name).toList ++ cs) := by
  rw [Token.key, propertyName]
  split
  · rename_i hident
    obtain ⟨hne, hplain, behind, hname, hbehind⟩ := isIdentifier_split hident
    rw [hname, List.append_assoc]
    rcases hbehind with rfl | rfl
    · exact .word (s.words hne hplain) hapart h
    · exact .word (s.words hne hplain) (.gap s.feed) (.gap s.feed h)
  · exact .literal name h

/-- Moving a text to the right keeps the tokens that it lays out. -/
theorem moved (hfits : indent.Fits s) (h : Laid s ts cs) : Laid s ts (Layout.moved indent cs) := by
  rw [Layout.moved]
  split
  · exact h.shifted hfits.margin false
  · exact h

/-- The colon of a field, with what follows it. -/
theorem colon (hfits : indent.Fits s) (h : Laid s ts cs) (hrest : Laid s us ds) :
    Laid s (.mark ':' :: (ts ++ .mark ';' :: us))
      (':' :: ' ' :: (Layout.moved indent cs ++ ';' :: '\n' :: ds)) :=
  .mark rfl (.gap s.space ((h.moved hfits).append (.mark rfl) (.mark rfl (.gap s.feed hrest))))

/-- **A field** is laid out as its tokens. -/
theorem field (hfits : indent.Fits s) (key : String) (required : Bool) {type : String}
    (h : Laid s ts type.toList) (hrest : Laid s us ds) :
    Laid s (.key key :: (Token.optional required ++ .mark ':' :: (ts ++ .mark ';' :: us)))
      ((Layout.fieldText indent ⟨key, type, required⟩).toList ++ ds) := by
  rw [Layout.toList_fieldText]
  have hcolon := h.colon hfits hrest
  refine gaps hfits.shown ?_
  cases required with
  | false => exact .key key (.mark rfl) (.mark rfl hcolon)
  | true => exact .key key (.mark rfl) hcolon

/-- Two operands of an operator. -/
theorem operator {op : Char} (hop : isMark op = true) (h : Laid s ts cs) (h' : Laid s us ds) :
    Laid s (ts ++ .mark op :: us) (cs ++ ' ' :: op :: ' ' :: ds) :=
  h.append (.gap s.space) (.gap s.space (.mark hop (.gap s.space h')))

end Laid

/-! ## Expressions -/

namespace Expr

mutual

/-- **The text of an expression is laid out as its tokens.** -/
theorem laid (hfits : indent.Fits s) : ∀ e : Expr, (∀ x ∈ e.names, s.word x) →
    Laid s e.tokens (e.text indent).toList
  | .scalar kind, _ => by
    rw [tokens, text]
    refine .singleton (s.words ?_ ?_)
    · cases kind <;> decide
    · cases kind <;> exact forall_mem (by decide)
  | .name n, h => .singleton (h n (List.mem_singleton_self n))
  | .object properties, h => by
    have hclose : Laid s [.mark '\x7d'] ['\x7d'] := .mark rfl .nil
    have hfields := laidOfAll hfits properties h hclose
    rw [tokens, text, Layout.objectType, String.toList_append, String.toList_append, List.append_assoc]
    exact .mark rfl (.gap s.feed hfields)
  | .parens e, h => by
    have hclose : Laid s [.mark ')'] [')'] := .mark rfl .nil
    have hinner := (laid hfits e h).append (.mark rfl) hclose
    rw [tokens, text, Layout.parens, String.toList_append, String.toList_append, List.append_assoc]
    exact .mark rfl hinner
  | .array e, h => by
    have hbrackets : Laid s [.mark '[', .mark ']'] ['[', ']'] := .mark rfl (.mark rfl .nil)
    rw [tokens, text, String.toList_append]
    exact (laid hfits e h).append (.mark rfl) hbrackets
  | .union l r, h => by
    have hl := laid hfits l fun x hx => h x (List.mem_append_left _ hx)
    have hr := laid hfits r fun x hx => h x (List.mem_append_right _ hx)
    rw [tokens, text, String.toList_append, String.toList_append, List.append_assoc]
    exact hl.operator rfl hr
  | .intersection l r, h => by
    have hl := laid hfits l fun x hx => h x (List.mem_append_left _ hx)
    have hr := laid hfits r fun x hx => h x (List.mem_append_right _ hx)
    rw [tokens, text, String.toList_append, String.toList_append, List.append_assoc]
    exact hl.operator rfl hr

@[inherit_doc laid]
theorem laidOfAll (hfits : indent.Fits s) : ∀ properties : List Property,
    (∀ x ∈ namesOfAll properties, s.word x) → ∀ {us : List Token} {ds : List Char}, Laid s us ds →
      Laid s (tokensOfAll properties ++ us)
        ((String.join ((fields indent properties).map (Layout.fieldText indent))).toList ++ ds)
  | [], _, _, _, hrest => hrest
  | ⟨key, required, type⟩ :: rest, h, us, ds, hrest => by
    have htype := laid hfits type fun x hx => h x (List.mem_append_left _ hx)
    have hothers := laidOfAll hfits rest (fun x hx => h x (List.mem_append_right _ hx)) hrest
    have hfield := Laid.field hfits key required htype hothers
    rw [tokensOfAll, fields, List.map_cons, String.join_cons, String.toList_append, List.append_assoc]
    simpa only [List.cons_append, List.append_assoc] using hfield

end

end Expr

/-- **The text of a declaration is laid out as its tokens.** -/
theorem Declaration.laid (hfits : indent.Fits s) : ∀ d : Declaration, s.word d.declared →
    (∀ x ∈ d.names, s.word x) → Laid s d.tokens (d.text indent).toList
  | .interface name properties, hname, hnames => by
    have hobject := (Expr.object properties).laid hfits hnames
    rw [tokens, text, Layout.interfaceDecl]
    simp only [String.toList_append, List.append_assoc]
    exact .word (s.words (by decide) (forall_mem (by decide))) (.gap s.space)
      (.gap s.space (.word hname (.gap s.space) (.gap s.space hobject)))
  | .alias name type, hname, hnames => by
    have hend : Laid s [.mark ';'] [';'] := .mark rfl .nil
    have htype := (type.laid hfits hnames).append (.mark rfl) hend
    rw [tokens, text, Layout.aliasDecl]
    simp only [String.toList_append, List.append_assoc]
    exact .word (s.words (by decide) (forall_mem (by decide))) (.gap s.space)
      (.gap s.space (.word hname (.gap s.space)
        (.gap s.space (.mark rfl (.gap s.space htype)))))

/-! ## Output -/

namespace Declares

variable {named : String → Prop} {name : String} {ds : List Declaration}

theorem ne_nil (h : Declares named name ds) : ds ≠ [] := by
  cases h <;> simp

/-- All names in the declarations of a node are words, if its own and those it uses are. -/
theorem words (h : Declares named name ds) (hname : s.word name) (huses : ∀ x, named x → s.word x) :
    ∀ d ∈ ds, s.word d.declared ∧ ∀ x ∈ d.names, s.word x := by
  have hprivate : s.word ("_" ++ name) := by
    refine s.words (by simp) ?_
    intro c hc
    rw [String.toList_append, List.mem_append] at hc
    rcases hc with hc | hc
    · obtain rfl : c = '_' := by simpa using hc
      decide
    · exact s.plain hname c hc
  intro d hd
  cases h with
  | plain hdeclared hnames =>
    obtain rfl := List.mem_singleton.mp hd
    exact ⟨hdeclared ▸ hname, fun x hx => huses x (hnames x hx)⟩
  | split hshape hnames =>
    rcases List.mem_cons.mp hd with rfl | hd
    · exact ⟨hprivate, fun x hx => huses x (hshape x hx)⟩
    · obtain rfl := List.mem_singleton.mp hd
      refine ⟨hname, ?_⟩
      intro x hx
      rcases List.mem_cons.mp hx with rfl | hx
      · exact hprivate
      · exact huses x (hnames x hx)

end Declares

/-- Texts in blocks, with the same between blocks as inside them. -/
theorem Declaration.intercalate_block (indent : Indent) : ∀ {blocks : List (List Declaration)},
    (∀ ds ∈ blocks, ds ≠ []) → "\n\n".intercalate (blocks.map (block indent)) =
      "\n\n".intercalate (blocks.flatten.map (text indent))
  | [], _ => rfl
  | [ds], _ => by
    rw [List.map_singleton, String.intercalate_singleton, List.flatten_singleton, block]
  | ds :: es :: blocks, h => by
    have hrest := intercalate_block indent fun fs hfs => h fs (List.mem_cons_of_mem ds hfs)
    have hds : ds.map (text indent) ≠ [] := by simpa using h ds (List.mem_cons_self ..)
    have hes : (es :: blocks).flatten.map (text indent) ≠ [] := by
      have hne := h es (List.mem_cons_of_mem ds (List.mem_cons_self ..))
      simp [hne]
    have hflat : (ds :: es :: blocks).flatten = ds ++ (es :: blocks).flatten := List.flatten_cons
    rw [List.map_cons] at hrest
    rw [List.map_cons, List.map_cons, String.intercalate_cons_cons, hrest, hflat, List.map_append,
      intercalate_append _ hes hds, block]

section

variable {σ : Type} [Source σ] {r₀ r : Registry σ} {ids : List NodeId} {text : String}
  {blocks : List (List Declaration)}

omit [Source σ] in
/-- **What is written without a comment** are declarations, with an empty line in between. -/
theorem Written.text_eq (h : Written r text blocks) (hcomment : r.settings.comment.isVacant = true) :
    text = "\n\n".intercalate (blocks.flatten.map (Declaration.text (.orBlank r.settings.indent))) := by
  rw [h.text, if_pos hcomment, List.nil_append, Declaration.intercalate_block]
  intro ds hds
  obtain ⟨n, -, hdeclares⟩ := h.exists_node hds
  exact hdeclares.ne_nil

/-- The names of all nodes are like names, or empty. -/
theorem Registry.Compiled.nameLike_nameOf (h : r₀.Compiled r ids text) (hf : r₀.Fresh) (n : NodeId) :
    NameLike (r.graph.nameOf n).toList := by
  obtain ⟨title, htitle⟩ := h.exists_typeName hf n
  rw [htitle]
  exact nameLike_typeName? title

/-- **Every declaration that is written is laid out as its tokens**, if the names of the nodes met are
words. -/
theorem Written.laid (h : Written r text blocks) (hcompiled : r₀.Compiled r ids text)
    (hfits : (Indent.orBlank r.settings.indent).Fits s)
    (hnames : ∀ n ∈ r.draft.emission.toList, s.word (r.graph.nameOf n)) :
    ∀ d ∈ blocks.flatten, (s.word d.declared ∧ ∀ x ∈ d.names, s.word x) ∧
      Laid s d.tokens (d.text (.orBlank r.settings.indent)).toList := by
  intro d hd
  obtain ⟨ds, hds, hd⟩ := List.mem_flatten.mp hd
  obtain ⟨n, hn, hdeclares⟩ := h.exists_node hds
  have huses : ∀ x, r.graph.Names n x → s.word x := by
    rintro x ⟨m, hm, rfl⟩
    exact hnames m (hcompiled.mem_emission_of_mentions hn hm)
  have hname := hnames n ((Draft.keep_sublist r.graph _ _).subset hn)
  obtain ⟨hdeclared, hall⟩ := hdeclares.words hname huses d hd
  exact ⟨⟨hdeclared, hall⟩, d.laid hfits hdeclared hall⟩

end

end TypeScribe
