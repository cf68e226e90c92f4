import TypeScribe.Layout
import TypeScribe.Schema.Kind

/-!
# Type expressions as trees

What is written about a graph is made of **type expressions**, and every declaration has one. Here
both are trees (`Expr`, `Declaration`), so that it can be said of a text which expression it is the
text of, and which names that expression **uses**.

A tree says nothing about line breaks: the text of an object type is laid out when its fields are, and
moved to the right when the object type stands inside a field.
-/

namespace TypeScribe

mutual

/-- **Type expressions.** -/
inductive Expr where
  | scalar (scalar : Scalar)
  | name (name : String)
  | object (properties : List Property)
  | parens (inner : Expr)
  | array (item : Expr)
  | union (left right : Expr)
  | intersection (left right : Expr)

/-- A property of an object type. -/
inductive Property where
  | mk (key : String) (required : Bool) (type : Expr)

end

namespace Expr

mutual

/-- **The text of an expression.** -/
def text (indent : Indent) : Expr → String
  | .scalar s => Layout.orNull s.text
  | .name n => n
  | .object properties => Layout.objectType indent (fields indent properties)
  | .parens e => Layout.parens (e.text indent)
  | .array e => e.text indent ++ "[]"
  | .union l r => l.text indent ++ " | " ++ r.text indent
  | .intersection l r => l.text indent ++ " & " ++ r.text indent

/-- Properties with the texts of their types. -/
def fields (indent : Indent) : List Property → List Layout.FieldText
  | [] => []
  | ⟨key, required, type⟩ :: rest => ⟨key, type.text indent, required⟩ :: fields indent rest

end

mutual

/-- **The names an expression uses.** -/
def names : Expr → List String
  | .scalar _ => []
  | .name n => [n]
  | .object properties => namesOfAll properties
  | .parens e => e.names
  | .array e => e.names
  | .union l r => l.names ++ r.names
  | .intersection l r => l.names ++ r.names

@[inherit_doc names]
def namesOfAll : List Property → List String
  | [] => []
  | ⟨_, _, type⟩ :: rest => type.names ++ namesOfAll rest

end

/-- Expressions combined from the right. -/
def joined (combine : Expr → Expr → Expr) : Expr → List Expr → Expr
  | e, [] => e
  | e, f :: rest => combine e (joined combine f rest)

variable {indent : Indent} {combine : Expr → Expr → Expr} {separator : String}

/-- Joined texts are the text of joined expressions. -/
theorem text_joined (hc : ∀ l r, (combine l r).text indent = l.text indent ++ separator ++ r.text indent)
    (rest : List Expr) : ∀ e : Expr, (joined combine e rest).text indent =
      separator.intercalate ((e :: rest).map (text indent)) := by
  induction rest with
  | nil =>
    intro e
    rw [joined, List.map_singleton, String.intercalate_singleton]
  | cons f rest ih =>
    intro e
    simp only [joined, hc, ih f, List.map_cons, String.intercalate_cons_cons]

theorem mem_names_joined {x : String} (hc : ∀ l r, (combine l r).names = l.names ++ r.names)
    (rest : List Expr) : ∀ e : Expr, x ∈ (joined combine e rest).names →
      ∃ f ∈ e :: rest, x ∈ f.names := by
  induction rest with
  | nil =>
    intro e hx
    exact ⟨e, List.mem_singleton_self e, hx⟩
  | cons f rest ih =>
    intro e hx
    rw [joined, hc] at hx
    rcases List.mem_append.mp hx with hx | hx
    · exact ⟨e, List.mem_cons_self .., hx⟩
    · obtain ⟨k, hk, hx⟩ := ih f hx
      exact ⟨k, List.mem_cons_of_mem _ hk, hx⟩

end Expr

/-- What the operator of a keyword makes of two expressions. -/
def Keyword.combine : Keyword → Expr → Expr → Expr
  | .allOf => .intersection
  | .anyOf => .union
  | .oneOf => .union

theorem Keyword.text_combine (keyword : Keyword) (indent : Indent) (l r : Expr) :
    (keyword.combine l r).text indent =
      l.text indent ++ (" " ++ keyword.operator ++ " ") ++ r.text indent := by
  cases keyword <;> rfl

theorem Keyword.names_combine (keyword : Keyword) (l r : Expr) :
    (keyword.combine l r).names = l.names ++ r.names := by
  cases keyword <;> rfl

/-- **Declarations.** -/
inductive Declaration where
  | interface (name : String) (properties : List Property)
  | alias (name : String) (type : Expr)

namespace Declaration

/-- **The text of a declaration.** -/
def text (indent : Indent) : Declaration → String
  | .interface name properties =>
    Layout.interfaceDecl name (Layout.objectType indent (Expr.fields indent properties))
  | .alias name type => Layout.aliasDecl name (type.text indent)

/-- The name that is declared. -/
def declared : Declaration → String
  | .interface name _ => name
  | .alias name _ => name

/-- **The names a declaration uses.** -/
def names : Declaration → List String
  | .interface _ properties => Expr.namesOfAll properties
  | .alias _ type => type.names

/-- The text of several declarations, with an empty line in between. -/
def block (indent : Indent) (declarations : List Declaration) : String :=
  "\n\n".intercalate (declarations.map (text indent))

end Declaration

end TypeScribe
