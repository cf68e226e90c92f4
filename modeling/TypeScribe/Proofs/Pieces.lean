import TypeScribe.Text.Split
import Mathlib.Data.List.Basic

/-!
# Pieces between marks

A text cut at a mark has pieces without the mark, and a text that is put together of such pieces, with
the mark in between, is cut into the same pieces.
-/

namespace TypeScribe.Text

variable {mark : Char} {cs rest : List Char}

theorem piecesAt_ne_nil (mark : Char) (cs : List Char) : piecesAt mark cs ≠ [] := by
  cases cs with
  | nil => simp [piecesAt]
  | cons c rest =>
    rw [piecesAt]
    split
    · simp
    · split <;> simp

/-- A character that is no mark belongs to the first piece. -/
theorem piecesAt_cons_of_ne {c : Char} (hc : c ≠ mark) {piece : List Char} {more : List (List Char)}
    (h : piecesAt mark rest = piece :: more) : piecesAt mark (c :: rest) = (c :: piece) :: more := by
  rw [piecesAt, if_neg hc, h]

theorem piecesAt_of_not_mem (h : mark ∉ cs) : piecesAt mark cs = [cs] := by
  induction cs with
  | nil => rfl
  | cons c rest ih =>
    rw [List.mem_cons, not_or] at h
    exact piecesAt_cons_of_ne (Ne.symm h.1) (ih h.2)

/-- A mark parts the pieces before it from those behind it. -/
theorem piecesAt_append (mark : Char) (cs rest : List Char) :
    piecesAt mark (cs ++ mark :: rest) = piecesAt mark cs ++ piecesAt mark rest := by
  induction cs with
  | nil => simp [piecesAt]
  | cons c cs ih =>
    rw [List.cons_append]
    by_cases hc : c = mark
    · rw [piecesAt, if_pos hc, ih, piecesAt, if_pos hc, List.cons_append]
    · obtain ⟨piece, more, hpieces⟩ := List.exists_cons_of_ne_nil (piecesAt_ne_nil mark cs)
      rw [hpieces, List.cons_append] at ih
      rw [piecesAt_cons_of_ne hc ih, piecesAt_cons_of_ne hc hpieces, List.cons_append]

/-- A text up to its first mark is its first piece. -/
theorem piecesAt_append_cons (h : mark ∉ cs) (rest : List Char) :
    piecesAt mark (cs ++ mark :: rest) = cs :: piecesAt mark rest := by
  rw [piecesAt_append, piecesAt_of_not_mem h, List.singleton_append]

/-- Characters without a mark lead the first piece. -/
theorem piecesAt_lead (h : mark ∉ cs) (rest : List Char) :
    ∃ first more, piecesAt mark (cs ++ rest) = (cs ++ first) :: more := by
  induction cs with
  | nil => exact List.exists_cons_of_ne_nil (piecesAt_ne_nil mark rest)
  | cons c cs ih =>
    rw [List.mem_cons, not_or] at h
    obtain ⟨first, more, hpieces⟩ := ih h.2
    exact ⟨first, more, piecesAt_cons_of_ne (Ne.symm h.1) hpieces⟩

/-- No piece holds the mark at which the text was cut. -/
theorem not_mem_of_mem_piecesAt (mark : Char) (cs : List Char) :
    ∀ piece ∈ piecesAt mark cs, mark ∉ piece := by
  induction cs with
  | nil => simp [piecesAt]
  | cons c rest ih =>
    intro piece hpiece
    rw [piecesAt] at hpiece
    split at hpiece
    · rcases List.mem_cons.mp hpiece with rfl | hpiece
      · simp
      · exact ih piece hpiece
    · rename_i hc
      split at hpiece
      · rename_i hnil
        exact absurd hnil (piecesAt_ne_nil mark rest)
      · rename_i first more hfirst
        rw [hfirst] at ih
        rcases List.mem_cons.mp hpiece with rfl | hpiece
        · rw [List.mem_cons, not_or]
          exact ⟨Ne.symm hc, ih first (List.mem_cons_self ..)⟩
        · exact ih piece (List.mem_cons_of_mem _ hpiece)

end TypeScribe.Text
