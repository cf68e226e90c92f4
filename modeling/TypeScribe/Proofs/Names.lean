import TypeScribe.Proofs.Characters
import TypeScribe.Proofs.Labels
import TypeScribe.Proofs.Wording

/-!
# Declared names are distinct

Rendering drops declarations by their public names, and knows nothing of the **private** names that stand
inside the blocks of objects with an augmentation. That is enough:

* a type name has no underscore in it, whatever the title (`Naming.underscore_not_mem_typeName?`): a title
  loses its underscores before words are joined, and no upper-case form brings one back;
* so a private name is no public name, and it determines the public name it goes with
  (`eq_of_mem_nameForms`);
* of the declarations of one public name the first is kept (`Draft.kept_names_nodup`).
-/

namespace TypeScribe

/-! ## No underscore in a type name -/

namespace Text

/-- Characters that **upper-casing spares**: no upper-case form of another character has them. -/
def isSpared (x : Char) : Bool :=
  x.toNat != 0 && (List.range 0x80).all (fun n => Char.ofNat n == x || (Char.ofNat n).toUpper != x) &&
    caseRuns.all (fun r =>
      (⟨r.capital, r.capital + (r.last - r.first)⟩ : Span).excludes x.toNat x.toNat) &&
    caseExpansions.all fun e => !(e.2.map Char.ofNat).contains x

theorem ofNat_ne {x : Char} {n : Nat} (hzero : x.toNat ≠ 0) (h : n ≠ x.toNat) : Char.ofNat n ≠ x := by
  intro heq
  by_cases hvalid : n.isValidChar
  · exact h ((toNat_ofNat hvalid).symm.trans (congrArg Char.toNat heq))
  · rw [Char.ofNat, dif_neg hvalid] at heq
    exact hzero (congrArg Char.toNat heq).symm

/-- **No upper-case form has a spared character**, but that of the character itself. -/
theorem not_mem_upper {x c : Char} (hx : isSpared x = true) (hc : c ≠ x) : x ∉ upper c := by
  simp only [isSpared, Bool.and_eq_true, bne_iff_ne] at hx
  obtain ⟨⟨⟨hzero, hascii⟩, hruns⟩, hforms⟩ := hx
  rw [upper]
  split
  case isTrue hlow =>
    have hform : (c == x || c.toUpper != x) = true :=
      forall_ascii (P := fun c => c == x || c.toUpper != x) hascii hlow
    have hne : c.toUpper ≠ x := by simpa [hc] using hform
    simpa using hne.symm
  case isFalse =>
    rw [upperBeyondAscii]
    split
    case h_1 run hrun =>
      have hexcludes := List.all_eq_true.mp hruns run (List.mem_of_find?_eq_some hrun)
      have hholds : run.holds c.toNat = true := by simpa using List.find?_some hrun
      simp only [Span.excludes, Bool.or_eq_true, Nat.blt_eq] at hexcludes
      simp only [CaseRun.holds, Bool.and_eq_true, decide_eq_true_eq] at hholds
      have hne : run.raise c.toNat ≠ x := ofNat_ne hzero (by omega)
      simpa using hne.symm
    case h_2 =>
      split
      case h_1 point form hfind =>
        have hform := List.all_eq_true.mp hforms _ (List.mem_of_find?_eq_some hfind)
        simpa using hform
      case h_2 => simpa using hc.symm

/-- Raising a letter makes no underscore. -/
theorem underscore_not_mem_upper {c : Char} (hc : c ≠ '_') : '_' ∉ upper c :=
  not_mem_upper (by decide +kernel) hc

end Text

namespace Naming

open Text

theorem underscore_not_mem_cleaned (cs : List Char) : '_' ∉ cleaned cs := by
  intro hmem
  obtain ⟨c, -, hc⟩ := List.mem_map.mp hmem
  split at hc
  · exact absurd hc (by decide)
  · contradiction

/-- Joining words makes no underscore. -/
theorem underscore_not_mem_joined : ∀ (cs : List Char) (raised : Bool), '_' ∉ cs → '_' ∉ joined raised cs
  | [], _, _ => List.not_mem_nil
  | c :: rest, raised, h => by
    obtain ⟨hc, hrest⟩ := List.ne_and_not_mem_of_not_mem_cons h
    rw [joined]
    split
    · exact underscore_not_mem_joined rest true hrest
    · refine List.not_mem_append ?_ (underscore_not_mem_joined rest false hrest)
      split
      · exact underscore_not_mem_upper (Ne.symm hc)
      · simpa using hc

/-- **A type name has no underscore**, whatever the title. -/
theorem underscore_not_mem_typeName? (title : Option String) : '_' ∉ (typeName? title).toList := by
  cases title with
  | none => exact List.not_mem_nil
  | some title =>
    have hjoined := underscore_not_mem_joined _ false (underscore_not_mem_cleaned title.toList)
    simp only [typeName?, Option.map_some, Option.getD_some, typeName, String.toList_ofList, typeNameChars]
    cases hchars : joined false (cleaned title.toList) with
    | nil => exact List.not_mem_nil
    | cons c rest =>
      rw [hchars] at hjoined
      obtain ⟨hc, hrest⟩ := List.ne_and_not_mem_of_not_mem_cons hjoined
      exact List.not_mem_append (underscore_not_mem_upper (Ne.symm hc)) hrest

end Naming

/-! ## Names in two forms -/

/-- The forms of a name: private and public. -/
def nameForms (name : String) : List String := ["_" ++ name, name]

/-- **A form belongs to one name**, among names without an underscore. -/
theorem eq_of_mem_nameForms {a b x : String} (ha : '_' ∉ a.toList) (hb : '_' ∉ b.toList)
    (hxa : x ∈ nameForms a) (hxb : x ∈ nameForms b) : a = b := by
  simp only [nameForms, List.mem_cons, List.not_mem_nil, or_false] at hxa hxb
  rcases hxa with rfl | rfl <;> rcases hxb with h | h
  · exact (String.append_right_inj "_").mp h
  · exact absurd (by simp [← h]) hb
  · exact absurd (by simp [h]) ha
  · exact h

/-- The declarations of a node have forms of its name, each once. -/
theorem Declares.declared_forms {named : String → Prop} {name : String} {ds : List Declaration}
    (h : Declares named name ds) :
    (ds.map Declaration.declared).Nodup ∧ ∀ x ∈ ds.map Declaration.declared, x ∈ nameForms name := by
  cases h with
  | plain hdeclared => simp [hdeclared, nameForms]
  | split =>
    have hne : "_" ++ name ≠ name := by
      intro h
      simpa using congrArg (fun s : String => s.toList.length) h
    simp [Declaration.declared, nameForms, hne]

/-! ## Kept declarations -/

namespace Draft

/-- What is kept has distinct names, none of which was seen before. -/
theorem keep_names_nodup (g : Graph) (order : List NodeId) : ∀ seen : List String,
    ((keep g seen order).1.map g.nameOf).Nodup ∧ ∀ n ∈ (keep g seen order).1, g.nameOf n ∉ seen := by
  induction order with
  | nil => exact fun seen => ⟨List.nodup_nil, by simp [keep]⟩
  | cons id rest ih =>
    intro seen
    rw [keep_cons]
    split
    · exact ih seen
    · rename_i hnew
      obtain ⟨hnodup, hfresh⟩ := ih (g.nameOf id :: seen)
      refine ⟨?_, ?_⟩
      · rw [List.map_cons, List.nodup_cons]
        refine ⟨?_, hnodup⟩
        intro hmem
        obtain ⟨n, hn, hname⟩ := List.mem_map.mp hmem
        exact hfresh n hn (hname ▸ List.mem_cons_self ..)
      · intro n hn
        rcases List.mem_cons.mp hn with rfl | hn
        · exact hnew
        · exact (List.ne_and_not_mem_of_not_mem_cons (hfresh n hn)).2

/-- **Kept declarations have distinct names.** -/
theorem kept_names_nodup (d : Draft) (g : Graph) : ((d.kept g).map g.nameOf).Nodup :=
  (keep_names_nodup g _ []).1

end Draft

/-- **Distinct names have distinct forms**: what nodes with distinct names declare is distinct. -/
theorem declared_nodup {g : Graph} {named : NodeId → String → Prop} {ids : List NodeId}
    {blocks : List (List Declaration)}
    (h : List.Forall₂ (fun n ds => Declares (named n) (g.nameOf n) ds) ids blocks)
    (hnodup : (ids.map g.nameOf).Nodup) (hplain : ∀ n, '_' ∉ (g.nameOf n).toList) :
    (blocks.flatten.map Declaration.declared).Nodup := by
  induction h with
  | nil => exact List.nodup_nil
  | @cons id ds ids blocks hds hrest ih =>
    obtain ⟨hid, hnodup⟩ := List.nodup_cons.mp hnodup
    obtain ⟨hown, hforms⟩ := hds.declared_forms
    rw [List.flatten_cons, List.map_append]
    refine hown.append (ih hnodup) ?_
    intro x hx hlater
    obtain ⟨d, hd, rfl⟩ := List.mem_map.mp hlater
    obtain ⟨later, hmem, hd⟩ := List.mem_flatten.mp hd
    obtain ⟨n, hn, hdeclares⟩ := exists_of_forall₂ hrest hmem
    have hsame := eq_of_mem_nameForms (hplain id) (hplain n) (hforms _ hx)
      (hdeclares.declared_forms.2 _ (List.mem_map_of_mem hd))
    exact hid (hsame ▸ List.mem_map_of_mem hn)

section

variable {σ : Type} [Source σ] {r₀ r : Registry σ} {text : String}

/-- **All declared names are distinct.** What is written are declarations of the nodes that are kept. Each
of these declares its name, and an object with an augmentation also the private name of its shape, and
no name is declared twice. -/
theorem parse_declared_nodup (hf : r₀.Fresh) (h : Registry.parse r₀ = .ok text r) :
    ∃ blocks, Written r text blocks ∧
      List.Forall₂ (r.draft.Declares r.graph (.orBlank r.settings.indent)) (r.draft.kept r.graph) blocks ∧
      (blocks.flatten.map Declaration.declared).Nodup := by
  obtain ⟨ids, hcompiled⟩ := Registry.parse_compiled hf h
  obtain ⟨blocks, hwritten, hdeclares, -⟩ := hcompiled.written_declares
  refine ⟨blocks, hwritten, hdeclares, ?_⟩
  refine declared_nodup (hwritten.declares.imp fun _ _ h => h.1) (r.draft.kept_names_nodup r.graph) ?_
  intro n
  obtain ⟨title, hname⟩ := hcompiled.exists_typeName hf n
  rw [hname]
  exact Naming.underscore_not_mem_typeName? title

/-- Titles that come to the private name of another one, or to a name that is taken. -/
def underscores : Registry Catalog := .queued {} ⟨[]⟩ "" [
  .obj [("title", .str "street"), ("properties", .obj [
      ("shape", .obj [("title", .str "_Street"), ("type", .str "string")]),
      ("other", .obj [("title", .str "_stra\u00dfe"), ("properties", .obj []),
        ("anyOf", .arr [.obj [("title", .str "stra_\u00dfe"), ("type", .str "string")]])])]),
    ("allOf", .arr [.obj [("$ref", .str "#")]]), ("id", .str "#")]]

/-- Three nodes are kept of four, and five names are declared. -/
theorem parse_declared_underscores :
    ∃ text r, underscores.Fresh ∧ Registry.parse underscores = .ok text r ∧
      text = "interface _Street \x7b\n  shape?: Street;\n  other?: Stra\u00dfe;\n\x7d\n\n" ++
        "type Street = _Street & (Street);\n\ninterface _Stra\u00dfe \x7b\n\x7d\n\n" ++
        "type Stra\u00dfe = _Stra\u00dfe & (StraSSe);\n\ntype StraSSe = string;" ∧
      r.draft.kept r.graph = [0, 2, 3] ∧
      ∃ blocks, Written r text blocks ∧
        List.Forall₂ (r.draft.Declares r.graph (.orBlank r.settings.indent)) (r.draft.kept r.graph) blocks ∧
        (blocks.flatten.map Declaration.declared).Nodup := by
  have hfresh : underscores.Fresh := Registry.fresh_queued _ _ _ _
  obtain ⟨text, r, hparse, htest⟩ := exists_of_succeeds (Registry.parse underscores)
    (fun text (r : Registry Catalog) => decide (
      text = "interface _Street \x7b\n  shape?: Street;\n  other?: Stra\u00dfe;\n\x7d\n\n" ++
        "type Street = _Street & (Street);\n\ninterface _Stra\u00dfe \x7b\n\x7d\n\n" ++
        "type Stra\u00dfe = _Stra\u00dfe & (StraSSe);\n\ntype StraSSe = string;" ∧
      r.draft.kept r.graph = [0, 2, 3])) (by decide +kernel)
  obtain ⟨htext, hkept⟩ := of_decide_eq_true htest
  exact ⟨text, r, hfresh, hparse, htext, hkept, parse_declared_nodup hfresh hparse⟩

end

end TypeScribe
