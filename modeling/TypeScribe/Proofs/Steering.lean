import TypeScribe.Proofs.Characters
import TypeScribe.Text.Plain
import Mathlib.Data.List.Infix

/-!
# Texts that steer a terminal

A text is plain already just if no steering sequence occurs in it (`Text.plain_eq_self_iff`). The scan that
makes a text plain looks at each character in turn, and where a sequence begins it drops at least one
character, so that what it leaves is shorter.
-/

namespace TypeScribe.Text

/-- **Steering sequences**: an escape character, an opening bracket, parameters, and a letter. -/
def IsSteering (sequence : List Char) : Prop :=
  ∃ parameters letter, (∀ c ∈ parameters, isParameter c = true) ∧ letter.isAlpha = true ∧
    sequence = escapeChar :: '[' :: (parameters ++ [letter])

/-- A text **steers** a terminal if a steering sequence occurs in it. -/
def Steers (text : List Char) : Prop := ∃ sequence, IsSteering sequence ∧ sequence <:+: text

/-- No letter is a parameter. -/
theorem not_isParameter {c : Char} (h : c.isAlpha = true) : isParameter c = false := by
  have hascii : c.toNat < 0x80 := Naming.ascii_of_isAlphanum (by rw [Char.isAlphanum, h, Bool.true_or])
  have hall : (!c.isAlpha || !isParameter c) = true :=
    forall_ascii (P := fun c => !c.isAlpha || !isParameter c) (by decide +kernel) hascii
  simpa [h] using hall

/-- The rest of a steering sequence: parameters and a letter. -/
theorem isSome_parametersLength? (cs : List Char) : (parametersLength? cs).isSome = true ↔
    ∃ parameters letter, (∀ c ∈ parameters, isParameter c = true) ∧ letter.isAlpha = true ∧
      parameters ++ [letter] <+: cs := by
  induction cs with
  | nil => simp [parametersLength?]
  | cons c rest ih =>
    rw [parametersLength?]
    by_cases hparameter : isParameter c = true
    · rw [if_pos hparameter, Option.isSome_map, ih]
      constructor
      · rintro ⟨parameters, letter, hparameters, hletter, hbegins⟩
        exact ⟨c :: parameters, letter, by simpa [hparameter] using hparameters, hletter,
          List.cons_prefix_cons.mpr ⟨rfl, hbegins⟩⟩
      · rintro ⟨parameters, letter, hparameters, hletter, hbegins⟩
        cases parameters with
        | nil =>
          obtain ⟨rfl, -⟩ := List.cons_prefix_cons.mp hbegins
          rw [not_isParameter hletter] at hparameter
          cases hparameter
        | cons p parameters =>
          obtain ⟨-, hbegins⟩ := List.cons_prefix_cons.mp hbegins
          exact ⟨parameters, letter, fun c hc => hparameters c (List.mem_cons_of_mem _ hc), hletter, hbegins⟩
    · rw [if_neg hparameter]
      constructor
      · intro h
        split at h
        · rename_i hletter
          exact ⟨[], c, by simp, hletter, List.cons_prefix_cons.mpr ⟨rfl, List.nil_prefix⟩⟩
        · cases h
      · rintro ⟨parameters, letter, hparameters, hletter, hbegins⟩
        cases parameters with
        | nil =>
          obtain ⟨rfl, -⟩ := List.cons_prefix_cons.mp hbegins
          rw [if_pos hletter]
          rfl
        | cons p parameters =>
          obtain ⟨rfl, -⟩ := List.cons_prefix_cons.mp hbegins
          exact absurd (hparameters p (List.mem_cons_self ..)) hparameter

/-- **Where a steering sequence begins.** -/
theorem isSome_steeringLength? (c : Char) (rest : List Char) : (steeringLength? c rest).isSome = true ↔
    ∃ sequence, IsSteering sequence ∧ sequence <+: c :: rest := by
  unfold steeringLength?
  constructor
  · intro h
    split at h
    · rename_i hescape
      subst hescape
      split at h
      · rename_i more
        rw [Option.isSome_map, isSome_parametersLength?] at h
        obtain ⟨parameters, letter, hparameters, hletter, hbegins⟩ := h
        exact ⟨_, ⟨parameters, letter, hparameters, hletter, rfl⟩,
          List.cons_prefix_cons.mpr ⟨rfl, List.cons_prefix_cons.mpr ⟨rfl, hbegins⟩⟩⟩
      · cases h
    · cases h
  · rintro ⟨_, ⟨parameters, letter, hparameters, hletter, rfl⟩, hbegins⟩
    obtain ⟨rfl, hmore⟩ := List.cons_prefix_cons.mp hbegins
    rw [if_pos rfl]
    cases rest with
    | nil => simp at hmore
    | cons d more =>
      obtain ⟨rfl, hrest⟩ := List.cons_prefix_cons.mp hmore
      change ((parametersLength? more).map (· + 1)).isSome = true
      rw [Option.isSome_map, isSome_parametersLength?]
      exact ⟨parameters, letter, hparameters, hletter, hrest⟩

/-- A text steers a terminal from its first character on, or later. -/
theorem steers_cons (c : Char) (rest : List Char) :
    Steers (c :: rest) ↔ (steeringLength? c rest).isSome = true ∨ Steers rest := by
  rw [isSome_steeringLength?]
  simp only [Steers, List.infix_cons_iff, and_or_left, exists_or]

/-- What is left of a text is no longer than the text. -/
theorem length_plainFrom_le (skip : Nat) (cs : List Char) : (plainFrom skip cs).length ≤ cs.length := by
  fun_induction plainFrom skip cs with
  | case1 => exact Nat.le_refl _
  | case2 skip c rest ih => exact Nat.le_succ_of_le ih
  | case3 c rest length hlength ih => exact Nat.le_succ_of_le ih
  | case4 c rest hnone ih => exact Nat.succ_le_succ ih

/-- A text stays as it is if nothing in it steers a terminal, and only then. -/
theorem plainFrom_eq_self_iff (cs : List Char) : plainFrom 0 cs = cs ↔ ¬ Steers cs := by
  induction cs with
  | nil => simp [plainFrom, Steers, IsSteering]
  | cons c rest ih =>
    rw [plainFrom, steers_cons]
    cases hlength : steeringLength? c rest with
    | none => simp [ih]
    | some length =>
      have hshorter : (plainFrom length rest).length < (c :: rest).length :=
        Nat.lt_succ_of_le (length_plainFrom_le length rest)
      simp only [Option.isSome_some, true_or, not_true_eq_false, iff_false]
      exact fun heq => absurd (congrArg List.length heq) (Nat.ne_of_lt hshorter)

/-- **A text is plain** just if it does not steer a terminal. -/
theorem plain_eq_self_iff (text : String) : plain text = text ↔ ¬ Steers text.toList := by
  rw [← plainFrom_eq_self_iff, plain]
  constructor
  · intro h
    rw [← String.toList_ofList (l := plainFrom 0 text.toList), h]
  · intro h
    rw [h, String.ofList_toList]

/-- A line break behind a text steers no terminal. -/
theorem steers_append_newline (cs : List Char) : Steers (cs ++ ['\n']) ↔ Steers cs := by
  constructor
  · rintro ⟨sequence, hsteering, before, after, heq⟩
    obtain ⟨parameters, letter, hparameters, hletter, rfl⟩ := hsteering
    rcases List.eq_nil_or_concat' after with rfl | ⟨after, last, rfl⟩
    · rw [List.append_nil, ← List.cons_append, ← List.cons_append, ← List.append_assoc] at heq
      obtain ⟨-, hlast⟩ := List.append_inj' heq rfl
      obtain rfl : letter = '\n' := by simpa using hlast
      cases hletter
    · rw [← List.append_assoc] at heq
      obtain ⟨hcs, -⟩ := List.append_inj' heq rfl
      exact ⟨_, ⟨parameters, letter, hparameters, hletter, rfl⟩, before, after, hcs⟩
  · rintro ⟨sequence, hsteering, hoccurs⟩
    exact ⟨sequence, hsteering, hoccurs.trans (List.prefix_append cs _).isInfix⟩

end TypeScribe.Text
