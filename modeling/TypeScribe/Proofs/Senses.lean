import TypeScribe.Proofs.Yield

/-!
# How a type expression is read

An expression is written from a tree (`Expr`), but what its text says is a matter of **precedence**: brackets
bind closer than `&`, and `&` closer than `|`, from whatever tree the text was written. A `Sense` is what is read:
it knows no parentheses, and a union has no unions among its alternatives, nor an intersection intersections
among its operands.

* **Reading** is a machine that takes one token after the other (`Sense.step`), with a stack for what stands
  around it. What it has read on one level is a **sum**: alternatives that are over, the operands of the one that
  is not, and its last operand, which brackets would apply to.
* **Trees.** The sum of a tree can be told without its text (`Expr.sum`), and it is what is read
  (`Expr.ofText?_text`).
-/

namespace TypeScribe

/-! ## Senses -/

/-- The two ways to join types. -/
inductive Joint where
  | union
  | intersection
  deriving Repr, DecidableEq

mutual

/-- **The sense of a type expression.** Joined are two types at least. -/
inductive Sense where
  | word (text : String)
  | object (members : List Member)
  | array (item : Sense)
  | join (joint : Joint) (first second : Sense) (rest : List Sense)

/-- A member of an object type: its key, whether it must be there, and the sense of its type. -/
inductive Member where
  | mk (key : Token) (required : Bool) (type : Sense)

end

namespace Sense

/-- What a type is joined of; a type that is not joined in this way is all there is. -/
def parts (joint : Joint) : Sense → List Sense
  | .join joint' first second rest =>
    if joint' = joint then first :: second :: rest else [.join joint' first second rest]
  | s => [s]

/-- A joined type of parts. Nothing joined is every type there is, or none. -/
def ofParts (joint : Joint) : List Sense → Sense
  | [] => .word (match joint with | .union => "never" | .intersection => "unknown")
  | [s] => s
  | first :: second :: rest => .join joint first second rest

/-- **Types joined**, less the joints inside of them. -/
def joined (joint : Joint) (senses : List Sense) : Sense := ofParts joint (senses.flatMap (parts joint))

variable {joint : Joint} {s t : Sense} {senses : List Sense}

/-- A type is joined in this way, or is all there is. -/
theorem parts_eq (joint : Joint) (s : Sense) :
    s.parts joint = [s] ∨ ∃ first second rest, s = .join joint first second rest ∧
      s.parts joint = first :: second :: rest := by
  cases s with
  | join joint' first second rest =>
    by_cases hjoint : joint' = joint
    · subst hjoint
      exact Or.inr ⟨first, second, rest, rfl, if_pos rfl⟩
    · exact Or.inl (if_neg hjoint)
  | word text => exact Or.inl rfl
  | object members => exact Or.inl rfl
  | array item => exact Or.inl rfl

theorem parts_ne_nil (joint : Joint) (s : Sense) : s.parts joint ≠ [] := by
  rcases parts_eq joint s with h | ⟨first, second, rest, -, h⟩ <;> simp [h]

theorem flatMap_parts_ne_nil (h : senses ≠ []) : senses.flatMap (parts joint) ≠ [] := by
  obtain ⟨s, rest, rfl⟩ := List.exists_cons_of_ne_nil h
  simp [parts_ne_nil]

/-- A part is all there is of itself, if it is the only one. -/
theorem parts_of_flatMap (h : senses.flatMap (parts joint) = [t]) : t.parts joint = [t] := by
  match senses with
  | [] => cases h
  | s :: rest =>
    rw [List.flatMap_cons] at h
    rcases parts_eq joint s with hs | ⟨first, second, more, -, hs⟩
    · rw [hs] at h
      obtain ⟨rfl, -⟩ := List.cons.inj h
      exact hs
    · rw [hs] at h
      cases h

/-- **The parts of joined types** are the parts of each. -/
theorem parts_joined (h : senses ≠ []) : (joined joint senses).parts joint = senses.flatMap (parts joint) := by
  rw [joined]
  match hparts : senses.flatMap (parts joint) with
  | [] => exact absurd hparts (flatMap_parts_ne_nil h)
  | [t] => exact parts_of_flatMap hparts
  | first :: second :: rest => exact if_pos rfl

theorem joined_singleton (joint : Joint) (s : Sense) : joined joint [s] = s := by
  rw [joined, List.flatMap_singleton]
  rcases parts_eq joint s with h | ⟨first, second, rest, rfl, h⟩ <;> rw [h] <;> rfl

/-- Types may be joined in lots first. -/
theorem joined_map_joined {lots : List (List Sense)} (h : ∀ lot ∈ lots, lot ≠ []) :
    joined joint (lots.map (joined joint)) = joined joint lots.flatten := by
  rw [joined, joined, List.flatMap_map, ← List.flatMap_id, List.flatMap_assoc]
  congr 1
  exact List.flatMap_congr fun lot hlot => parts_joined (h lot hlot)

/-- Two types, or more, make a joined type. -/
theorem joined_cons_cons (joint : Joint) (s t : Sense) (senses : List Sense) :
    ∃ first second rest, joined joint (s :: t :: senses) = .join joint first second rest := by
  obtain ⟨x, xs, hs⟩ := List.exists_cons_of_ne_nil (parts_ne_nil joint s)
  obtain ⟨y, ys, ht⟩ := List.exists_cons_of_ne_nil (parts_ne_nil joint t)
  rw [joined, List.flatMap_cons, List.flatMap_cons, hs, ht]
  cases xs with
  | nil => exact ⟨x, y, _, rfl⟩
  | cons z zs => exact ⟨x, z, _, rfl⟩

/-- Types joined in another way are all there is. -/
theorem parts_join {joint' : Joint} (hne : joint' ≠ joint) (first second : Sense) (rest : List Sense) :
    (Sense.join joint' first second rest).parts joint = [.join joint' first second rest] :=
  if_neg hne

end Sense

/-! ## Sums -/

/-- The beginning of a **sum**: the alternatives that are over, each with its operands, and the operands so far of
the one that is not. -/
structure Stem where
  closed : List (List Sense) := []
  factors : List Sense := []

/-- **A sum**: what has been read of a type on one level, up to the end of an operand. -/
structure Sum extends Stem where
  last : Sense

namespace Sum

/-- A sum of one operand. -/
def single (s : Sense) : Sum := ⟨{}, s⟩

/-- The alternatives of a sum, each with its operands. -/
def products (s : Sum) : List (List Sense) := s.closed ++ [s.factors ++ [s.last]]

/-- **What a sum says**: `&` binds closer than `|`. -/
def sense (s : Sum) : Sense := .joined .union (s.products.map (.joined .intersection))

/-- A bar behind a sum: another alternative is to come. -/
def bar (s : Sum) : Stem := ⟨s.products, []⟩

/-- An ampersand behind a sum: another operand is to come. -/
def and (s : Sum) : Stem := ⟨s.closed, s.factors ++ [s.last]⟩

/-- Brackets behind a sum apply to its last operand. -/
def brackets (s : Sum) : Sum := { s with last := .array s.last }

end Sum

/-- **A sum behind the beginning of another**: its first alternative goes on with the operands that are there. -/
def Stem.add (stem : Stem) (s : Sum) : Sum :=
  match s.closed with
  | [] => ⟨⟨stem.closed, stem.factors ++ s.factors⟩, s.last⟩
  | first :: rest => ⟨⟨stem.closed ++ (stem.factors ++ first) :: rest, s.factors⟩, s.last⟩

namespace Stem

variable (stem : Stem) (s t : Sum)

theorem add_single (x : Sense) : stem.add (.single x) = ⟨stem, x⟩ := by
  simp [add, Sum.single]

theorem empty_add : ({} : Stem).add s = s := by
  obtain ⟨⟨closed, factors⟩, last⟩ := s
  cases closed <;> simp [add]

theorem brackets_add : (stem.add s).brackets = stem.add s.brackets := by
  obtain ⟨⟨closed, factors⟩, last⟩ := s
  cases closed <;> rfl

/-- What stands in front of a union stands in front of its first part. -/
theorem bar_add : (stem.add s).bar.add t = stem.add (s.bar.add t) := by
  obtain ⟨⟨closed, factors⟩, last⟩ := s
  obtain ⟨⟨closed', factors'⟩, last'⟩ := t
  cases closed <;> cases closed' <;> simp [add, Sum.bar, Sum.products]

theorem and_add : (stem.add s).and.add t = stem.add (s.and.add t) := by
  obtain ⟨⟨closed, factors⟩, last⟩ := s
  obtain ⟨⟨closed', factors'⟩, last'⟩ := t
  cases closed <;> cases closed' <;> simp [add, Sum.and]

end Stem

/-! ## Reading -/

namespace Sense

/-- What stands around the type that is being read. -/
inductive Context where
  | parens (stem : Stem)
  | member (stem : Stem) (members : List Member) (key : Token) (required : Bool)

/-- How far reading has come on the level that it is on. -/
inductive Stage where
  /-- An operand is due. -/
  | due (stem : Stem)
  /-- An operand is over. -/
  | done (sum : Sum)
  /-- A bracket is open. -/
  | bracket (sum : Sum)
  /-- Inside braces, a key or the end is due. -/
  | braces (stem : Stem) (members : List Member)
  /-- Behind a key. -/
  | keyed (stem : Stem) (members : List Member) (key : Token) (required : Bool)

/-- **One token** is read. -/
def step : Stage → List Context → Token → Option (Stage × List Context)
  | .due stem, around, .word w => some (.done ⟨stem, .word w⟩, around)
  | .due stem, around, .mark '(' => some (.due {}, .parens stem :: around)
  | .due stem, around, .mark '\x7b' => some (.braces stem [], around)
  | .done sum, around, .mark '|' => some (.due sum.bar, around)
  | .done sum, around, .mark '&' => some (.due sum.and, around)
  | .done sum, around, .mark '[' => some (.bracket sum, around)
  | .bracket sum, around, .mark ']' => some (.done sum.brackets, around)
  | .done sum, .parens stem :: around, .mark ')' => some (.done ⟨stem, sum.sense⟩, around)
  | .done sum, .member stem members key required :: around, .mark ';' =>
    some (.braces stem (members ++ [⟨key, required, sum.sense⟩]), around)
  | .braces stem members, around, .mark '\x7d' => some (.done ⟨stem, .object members⟩, around)
  | .braces stem members, around, .word w => some (.keyed stem members (.word w) true, around)
  | .braces stem members, around, .literal text => some (.keyed stem members (.literal text) true, around)
  | .keyed stem members key true, around, .mark '?' => some (.keyed stem members key false, around)
  | .keyed stem members key required, around, .mark ':' =>
    some (.due {}, .member stem members key required :: around)
  | _, _, _ => none

/-- Reads tokens in turn. All that was opened has to be closed in the end. -/
def run : Stage → List Context → List Token → Option Sum
  | .done sum, [], [] => some sum
  | _, _, [] => none
  | stage, around, token :: rest => do
    let (stage, around) ← step stage around token
    run stage around rest

section

variable (sum : Sum) (around : List Context) (rest : List Token)

theorem run_bar : run (.done sum) around (.mark '|' :: rest) = run (.due sum.bar) around rest := by
  match around with
  | [] => rfl
  | .parens _ :: _ => rfl
  | .member .. :: _ => rfl

theorem run_and : run (.done sum) around (.mark '&' :: rest) = run (.due sum.and) around rest := by
  match around with
  | [] => rfl
  | .parens _ :: _ => rfl
  | .member .. :: _ => rfl

theorem run_brackets :
    run (.done sum) around (.mark '[' :: .mark ']' :: rest) = run (.done sum.brackets) around rest := by
  match around with
  | [] => rfl
  | .parens _ :: _ => rfl
  | .member .. :: _ => rfl

end

end Sense

/-- **The sum of a text.** -/
def Sum.ofText? (text : String) : Option Sum := do
  Sense.run (.due {}) [] (← Token.read text.toList)

/-- **The sense of a text**, read by precedence. -/
def Sense.ofText? (text : String) : Option Sense := (Sum.ofText? text).map Sum.sense

/-! ## Trees -/

namespace Expr

mutual

/-- **The sum of an expression**, by the tree that it is written from. -/
def sum : Expr → Sum
  | .scalar s => .single (.word (Layout.orNull s.text))
  | .name n => .single (.word n)
  | .object properties => .single (.object (members properties))
  | .parens e => .single e.sum.sense
  | .array e => e.sum.brackets
  | .union l r => l.sum.bar.add r.sum
  | .intersection l r => l.sum.and.add r.sum

/-- The members of an object type. -/
def members : List Property → List Member
  | [] => []
  | ⟨key, required, type⟩ :: rest => ⟨.key key, required, type.sum.sense⟩ :: members rest

end

open Sense

mutual

/-- **The tokens of a tree are read as its sum**, whatever comes behind them. -/
theorem run_tokens : ∀ (e : Expr) (stem : Stem) (around : List Context) (rest : List Token),
    run (.due stem) around (e.tokens ++ rest) = run (.done (stem.add e.sum)) around rest
  | .scalar s, stem, around, rest => by
    rw [sum, Stem.add_single]
    rfl
  | .name n, stem, around, rest => by
    rw [sum, Stem.add_single]
    rfl
  | .object properties, stem, around, rest => by
    have hmembers := run_tokensOfAll properties stem [] around (.mark '\x7d' :: rest)
    rw [sum, Stem.add_single, tokens, List.cons_append, List.append_assoc]
    exact hmembers
  | .parens e, stem, around, rest => by
    have hinner := run_tokens e {} (.parens stem :: around) (.mark ')' :: rest)
    rw [Stem.empty_add] at hinner
    rw [sum, Stem.add_single, tokens, List.cons_append, List.append_assoc]
    exact hinner
  | .array e, stem, around, rest => by
    have hitem := run_tokens e stem around (.mark '[' :: .mark ']' :: rest)
    rw [run_brackets, Stem.brackets_add] at hitem
    rw [sum, tokens, List.append_assoc]
    exact hitem
  | .union l r, stem, around, rest => by
    have hleft := run_tokens l stem around (.mark '|' :: (r.tokens ++ rest))
    have hright := run_tokens r (stem.add l.sum).bar around rest
    rw [run_bar] at hleft
    rw [Stem.bar_add] at hright
    rw [sum, tokens, List.append_assoc]
    exact hleft.trans hright
  | .intersection l r, stem, around, rest => by
    have hleft := run_tokens l stem around (.mark '&' :: (r.tokens ++ rest))
    have hright := run_tokens r (stem.add l.sum).and around rest
    rw [run_and] at hleft
    rw [Stem.and_add] at hright
    rw [sum, tokens, List.append_assoc]
    exact hleft.trans hright

/-- Reading the properties of an object type adds its members to those already read. -/
theorem run_tokensOfAll : ∀ (properties : List Property) (stem : Stem) (before : List Member)
    (around : List Context) (rest : List Token),
    run (.braces stem before) around (tokensOfAll properties ++ rest) =
      run (.braces stem (before ++ members properties)) around rest
  | [], stem, before, around, rest => by
    rw [members, List.append_nil]
    rfl
  | ⟨key, required, type⟩ :: others, stem, before, around, rest => by
    have htype := run_tokens type {} (.member stem before (.key key) required :: around)
      (.mark ';' :: (tokensOfAll others ++ rest))
    have hothers := run_tokensOfAll others stem (before ++ [⟨.key key, required, type.sum.sense⟩]) around rest
    rw [Stem.empty_add] at htype
    rw [List.append_assoc, List.singleton_append] at hothers
    have hkey : run (.braces stem before) around (.key key :: (Token.optional required ++
        .mark ':' :: (type.tokens ++ .mark ';' :: (tokensOfAll others ++ rest)))) =
        run (.due {}) (.member stem before (.key key) required :: around)
          (type.tokens ++ .mark ';' :: (tokensOfAll others ++ rest)) := by
      rw [Token.key]
      cases required <;> split <;> rfl
    rw [members, tokensOfAll]
    simp only [List.cons_append, List.append_assoc]
    exact hkey.trans (htype.trans hothers)

end

variable {indent : Indent}

/-- **The text of a tree is read as its sum.** -/
theorem ofText?_text (hfits : indent.Fits .strict) {e : Expr} (hnames : ∀ x ∈ e.names, Spacing.strict.word x) :
    Sum.ofText? (e.text indent) = some e.sum := by
  have hrun := run_tokens e {} [] []
  rw [List.append_nil, Stem.empty_add] at hrun
  rw [Sum.ofText?, (e.laid hfits hnames).read]
  exact hrun

end Expr

end TypeScribe
