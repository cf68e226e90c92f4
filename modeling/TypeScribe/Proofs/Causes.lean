import TypeScribe.Proofs.Ending
import TypeScribe.Proofs.Quoting

/-!
# Why compilations fail

A compilation with sensible settings fails for causes that are the author's: a schema of no kind, a schema
without a name, a document that cannot be loaded. There are two exceptions, and both are found in the
construction of an object: its required names hold a list or an object, or its properties are no object
(`parse_failure`). Nothing that is looked up later is missing.

The report of a failure quotes a schema. This never fails if the roots and all documents are values that
texts are read as. A value of another origin may hold a whole number of more digits than are ever read or
written, and a failure that quotes it is not reported.
-/

namespace TypeScribe

/-- Whether a failure is **reported** to the author of a schema. -/
def Failure.isReported (failure : Failure) : Bool := failure.report?.isSome

/-- **A schema of no kind, or without a name, is reported** if it can be quoted. -/
theorem Failure.isReported_of_quoted? {failure : Failure} {source : Json}
    (h : failure.quoted? = some source) : failure.isReported = source.excerpt?.isSome := by
  cases failure with
  | unsupported found path =>
    cases h
    rw [isReported, report?, Option.isSome_map]
  | unnamed found path =>
    cases h
    rw [isReported, report?, Option.isSome_map]
  | _ => cases h

section

variable {σ : Type} [Source σ]

/-- A source is **plain** if whatever it does not serve is unavailable. It has no other faults. -/
def Source.Plain (s : σ) : Prop :=
  ∀ t, Becomes s t → ∀ location fault, (Source.load t location).result = .error fault →
    fault.failure location = .unavailable location fault

variable {r r' : Registry σ} {failure : Failure}

/-- What construction with a root directory and a plain source fails for. -/
theorem Cause.isReported_or {start : σ} {settings : Settings} {past : List Moment} {dir : String}
    (hdir : settings.rootDir = .str dir) (hsource : Source.Plain start)
    (h : Cause start settings past failure) :
    failure.isReported = true ∨ (∃ source, failure.quoted? = some source) ∨ failure = .endless ∨
      ∃ fields g defect, ⟨.reached (.obj fields), g⟩ ∈ past ∧ Kind.ofJson? (.obj fields) = some .object ∧
        Schema.Defective fields defect ∧ failure = defect.failure := by
  cases h with
  | unsupported source => exact Or.inr (Or.inl ⟨source, rfl⟩)
  | unnamed source => exact Or.inr (Or.inl ⟨source, rfl⟩)
  | endless => exact Or.inr (Or.inr (Or.inl rfl))
  | unlocated fails => exact absurd hdir ((Settings.locate_error fails).2 dir)
  | unloaded becomes fails =>
    rw [hsource _ becomes _ _ fails]
    exact Or.inl rfl
  | broken reached kind defective =>
    exact Or.inr (Or.inr (Or.inr ⟨_, _, _, reached, kind, defective, rfl⟩))

/-- What conversion with an indent fails for quotes a schema. -/
theorem Fault.quotes {g : Graph} {setting : Json} {guarded : Bool} {w : Walk} {margin : String}
    (hindent : setting = .str margin) (h : Fault g setting guarded w failure) :
    ∃ source, failure.quoted? = some source := by
  cases h with
  | back => exact ⟨_, rfl⟩
  | indent fails =>
    rw [hindent] at fails
    cases fails

/-- **A failure that quotes a schema is reported**, unless a root or a document that is served is no value
that a text is read as. -/
theorem isReported_or_unread (hf : r.Fresh) (h : Registry.parse r = .error failure r')
    (hquotes : ∃ source, failure.quoted? = some source) :
    failure.isReported = true ∨ ∃ source, failure.quoted? = some source ∧ source.excerpt? = none ∧
      ¬ ((∀ v ∈ r.pending, v.IsRead) ∧ Source.Serves Json.IsRead r.workshop.source) := by
  obtain ⟨source, hquoted⟩ := hquotes
  rw [Failure.isReported_of_quoted? hquoted]
  cases hexcerpt : source.excerpt? with
  | some excerpt => exact Or.inl rfl
  | none =>
    refine Or.inr ⟨source, hquoted, hexcerpt, ?_⟩
    rintro ⟨hroots, hserves⟩
    have hwritten := Registry.parse_quotes hf (Json.inherited_isSome_write? ⟨", ", ": "⟩)
      (fun v hv => (hroots v hv).isSome_write?)
      (fun t ht location fields hload => (hserves t ht location fields hload).isSome_write?) h hquoted
    rw [Json.excerpt?, Option.map_eq_none_iff] at hexcerpt
    rw [hexcerpt] at hwritten
    cases hwritten

end

/-- A catalog is plain: what it has not, or has as another value than an object, is unavailable. -/
theorem Catalog.plain (catalog : Catalog) : Source.Plain catalog := by
  intro later _ location fault h
  change later.find location = .error fault at h
  rw [Catalog.find] at h
  split at h <;> cases h <;> rfl

/-- A document that offers two objects, of which the second has a text for its properties. -/
def misprint : Registry Catalog := .queued {} ⟨[
    ("form", .obj [("title", .str "Form"), ("anyOf", .arr [
      .obj [("type", .str "object"), ("required", .str "a")],
      .obj [("type", .str "object"), ("properties", .str "a")]])])]⟩ "" [
  .obj [("title", .str "Letter"), ("type", .str "array"), ("items", .obj [("$ref", .str "form")])]]

/-- A schema of no kind that no text is read as: its number has too many digits to be quoted. -/
example : fails (fun failure => !failure.isReported && failure.quoted?.isSome) (Registry.parse
    (.queued {} (⟨[]⟩ : Catalog) "" [.obj [("title", .str "A"), ("const", .int (10 ^ 4300))]])) = true := by
  decide +kernel

end TypeScribe
