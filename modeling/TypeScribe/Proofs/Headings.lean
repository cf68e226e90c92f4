import TypeScribe.Layout
import TypeScribe.Proofs.Literals
import TypeScribe.Proofs.Pieces

/-!
# The comment in front of the check

The check of the output does not know comments. It reads a comment as it reads declarations, with all the quotes,
backslashes and braces that stand in a command line.

* **Literals.** A quote may begin a literal that ends nowhere in a text. Such a text **leaves a literal open**
  (`leavesOpen`), and what follows is read differently behind it. Otherwise texts are read one by one
  (`withoutLiterals_append`).
* **Accepted as before.** A text in front changes the outcome for no accepted text just if it leaves no literal
  open, and its braces outside of literals are even (`check_heading_iff`). The quote that tells the difference
  is the one of a property name behind it.
* **Lines.** A line break in a command line begins a line of the comment that is no comment, unless two slashes
  follow (`headerComment_lines_iff`).
-/

namespace TypeScribe.Output

open Text

/-! ## Open literals -/

/-- Whether a literal that is open before some characters **runs on** behind them. -/
def runsOn : List Char → Bool
  | [] => true
  | '"' :: _ => false
  | '\\' :: c :: rest => c != '\n' && runsOn rest
  | ['\\'] => true
  | _ :: rest => runsOn rest

/-- Whether a text **leaves a literal open**; the first `skip` characters belong to one that is closed. -/
def leavesOpen : (skip : Nat) → List Char → Bool
  | _, [] => false
  | skip + 1, _ :: rest => leavesOpen skip rest
  | 0, c :: rest =>
    if c = '"' then runsOn rest || leavesOpen ((literalLength? rest).getD 0) rest else leavesOpen 0 rest

/-- **What becomes of a literal** that is open before a text, whatever follows: it ends in the text, or it ends
nowhere, or it goes on. -/
inductive Fate (text : List Char) : Prop where
  | closed {n : Nat} (within : n ≤ text.length) (length : ∀ rest, literalLength? (text ++ rest) = some n)
      (off : runsOn text = false)
  | broken (length : ∀ rest, literalLength? (text ++ rest) = none) (off : runsOn text = false)
  | goesOn (inside : Inside text) (on : runsOn text = true)

/-- Characters inside the literal make no difference. -/
theorem Fate.prepend {front text : List Char} (hfront : Inside front)
    (hon : runsOn (front ++ text) = runsOn text) (h : Fate text) : Fate (front ++ text) := by
  cases h with
  | @closed n within length off =>
    refine .closed (n := n + front.length) ?_ ?_ (hon.trans off)
    · rw [List.length_append]
      omega
    · intro rest
      rw [List.append_assoc, hfront, length, Option.map_some]
  | broken length off =>
    refine .broken ?_ (hon.trans off)
    intro rest
    rw [List.append_assoc, hfront, length, Option.map_none]
  | goesOn inside on => exact .goesOn (hfront.append inside) (hon.trans on)

/-- An escape takes the next character with it, unless that is a line feed. -/
theorem Inside.pair {c : Char} (h : c ≠ '\n') : Inside ['\\', c] := by
  intro rest
  rw [List.cons_append, List.singleton_append, literalLength?, if_neg h]
  rfl

theorem getLast?_ne_of_cons {c x : Char} {rest : List Char} (h : (c :: rest).getLast? ≠ some x) :
    rest.getLast? ≠ some x := by
  intro hlast
  rw [List.getLast?_cons, hlast] at h
  exact h rfl

/-- **Every text has one of the fates**, if it does not end with a backslash, which would take a character of
what follows with it. -/
theorem fate (text : List Char) (hlast : text.getLast? ≠ some '\\') : Fate text := by
  fun_induction runsOn text with
  | case1 => exact .goesOn .nil rfl
  | case2 rest => exact .closed (n := 1) (by simp) (fun _ => rfl) rfl
  | case3 c rest ih =>
    have hrest := ih (getLast?_ne_of_cons (getLast?_ne_of_cons hlast))
    by_cases hc : c = '\n'
    · subst hc
      exact .broken (fun _ => rfl) rfl
    · exact hrest.prepend (.pair hc) (by simp [runsOn, hc])
  | case4 => exact absurd rfl hlast
  | case5 c rest hquote hescape hlone ih =>
    have hbackslash : c ≠ '\\' := by
      cases rest with
      | nil => exact fun hc => hlone hc rfl
      | cons d more => exact fun hc => hescape d more hc rfl
    refine (ih (getLast?_ne_of_cons hlast)).prepend (.self hquote hbackslash) ?_
    rw [List.singleton_append, runsOn.eq_def]
    split <;> simp_all

/-- A quote opens a literal if another one closes it, and stands for itself otherwise. -/
theorem withoutLiterals_quote (rest : List Char) : withoutLiterals 0 ('"' :: rest) =
    match literalLength? rest with
    | some length => withoutLiterals length rest
    | none => '"' :: withoutLiterals 0 rest := by
  cases hlength : literalLength? rest <;> simp [withoutLiterals, hlength]

/-- **Behind a text that leaves no literal open**, all is read as if it stood alone. -/
theorem withoutLiterals_append (text : List Char) : ∀ (skip : Nat), text.getLast? ≠ some '\\' →
    skip ≤ text.length → leavesOpen skip text = false → ∀ rest,
      withoutLiterals skip (text ++ rest) = withoutLiterals skip text ++ withoutLiterals 0 rest := by
  induction text with
  | nil =>
    intro skip _ hskip _ rest
    obtain rfl : skip = 0 := by simpa using hskip
    rfl
  | cons c text ih =>
    intro skip hlast hskip hopen rest
    have hlast' := getLast?_ne_of_cons hlast
    match skip with
    | skip + 1 => exact ih skip hlast' (by simpa using hskip) hopen rest
    | 0 =>
      rw [leavesOpen] at hopen
      by_cases hc : c = '"'
      · subst hc
        rw [if_pos rfl, Bool.or_eq_false_iff] at hopen
        obtain ⟨hoff, hopen⟩ := hopen
        rw [List.cons_append, withoutLiterals_quote, withoutLiterals_quote]
        cases fate text hlast' with
        | @closed n within length _ =>
          have halone : literalLength? text = some n := by simpa using length []
          rw [halone] at hopen ⊢
          rw [length]
          exact ih n hlast' within hopen rest
        | broken length _ =>
          have halone : literalLength? text = none := by simpa using length []
          rw [halone] at hopen ⊢
          rw [length]
          exact congrArg ('"' :: ·) (ih 0 hlast' (Nat.zero_le _) hopen rest)
        | goesOn _ on =>
          rw [on] at hoff
          cases hoff
      · rw [if_neg hc] at hopen
        rw [List.cons_append, withoutLiterals_cons hc, withoutLiterals_cons hc,
          ih 0 hlast' (Nat.zero_le _) hopen rest, List.cons_append]

/-- **A text that leaves a literal open** is read up to the quote of that literal, and what follows decides on the
rest. -/
theorem withoutLiterals_open (text : List Char) : ∀ (skip : Nat), text.getLast? ≠ some '\\' →
    leavesOpen skip text = true → ∃ done inside, Inside inside ∧ ∀ rest,
      withoutLiterals skip (text ++ rest) = done ++ withoutLiterals 0 ('"' :: (inside ++ rest)) := by
  induction text with
  | nil =>
    intro skip _ hopen
    cases skip <;> cases hopen
  | cons c text ih =>
    intro skip hlast hopen
    have hlast' := getLast?_ne_of_cons hlast
    match skip with
    | skip + 1 => exact ih skip hlast' hopen
    | 0 =>
      rw [leavesOpen] at hopen
      by_cases hc : c = '"'
      · subst hc
        rw [if_pos rfl] at hopen
        cases fate text hlast' with
        | @closed n within length off =>
          have halone : literalLength? text = some n := by simpa using length []
          rw [off, halone, Bool.false_or] at hopen
          obtain ⟨done, inside, hinside, hread⟩ := ih n hlast' hopen
          refine ⟨done, inside, hinside, fun rest => ?_⟩
          rw [List.cons_append, withoutLiterals_quote, length]
          exact hread rest
        | broken length off =>
          have halone : literalLength? text = none := by simpa using length []
          rw [off, halone, Bool.false_or] at hopen
          obtain ⟨done, inside, hinside, hread⟩ := ih 0 hlast' hopen
          refine ⟨'"' :: done, inside, hinside, fun rest => ?_⟩
          rw [List.cons_append, withoutLiterals_quote, length]
          exact congrArg ('"' :: ·) (hread rest)
        | goesOn inside _ => exact ⟨[], text, inside, fun rest => rfl⟩
      · rw [if_neg hc] at hopen
        obtain ⟨done, inside, hinside, hread⟩ := ih 0 hlast' hopen
        refine ⟨c :: done, inside, hinside, fun rest => ?_⟩
        rw [List.cons_append, withoutLiterals_cons hc, hread, List.cons_append]

/-- The next quote behind an open literal closes it. -/
theorem withoutLiterals_close {inside front : List Char} (hinside : Inside inside)
    (hfront : ∀ c ∈ front, c ≠ '"' ∧ c ≠ '\\') (rest : List Char) :
    withoutLiterals 0 ('"' :: (inside ++ (front ++ '"' :: rest))) = withoutLiterals 0 rest := by
  have hplain : Inside front := by
    clear hinside
    induction front with
    | nil => exact .nil
    | cons c front ih =>
      obtain ⟨hquote, hbackslash⟩ := hfront c (List.mem_cons_self ..)
      exact (Inside.self hquote hbackslash).append (ih fun d hd => hfront d (List.mem_cons_of_mem _ hd))
  have hlength : literalLength? (inside ++ front ++ '"' :: rest) = some (inside ++ front ++ ['"']).length := by
    rw [hinside.append hplain, literalLength?, Option.map_some, Nat.add_comm]
    simp [Nat.add_assoc]
  have hskip := withoutLiterals_skip rest (inside ++ front ++ ['"'])
  rw [List.append_assoc _ ['"'], List.singleton_append] at hskip
  rw [← List.append_assoc, withoutLiterals_quote, hlength]
  exact hskip

/-! ## Texts in front -/

/-- Whether there are as many opening as closing braces, outside of literals. -/
def isEven (text : List Char) : Bool :=
  (withoutLiterals 0 text).count '\x7b' == (withoutLiterals 0 text).count '\x7d'

/-- The check passes a text that opens a declaration somewhere and whose braces come out even. -/
theorem check_eq_ok_iff (text : String) :
    check text = .ok () ↔ declares text.toList = true ∧ isEven text.toList = true := by
  rw [check, isEven, beq_iff_eq]
  cases declares text.toList with
  | false => simp
  | true =>
    simp only [Bool.not_true, Bool.false_eq_true, if_false, true_and]
    split <;> simp_all

/-- Lines in front open declarations of their own. -/
theorem declares_append (front rest : List Char) :
    declares (front ++ '\n' :: rest) = (declares front || declares rest) := by
  rw [declares, piecesAt_append, List.any_append]
  rfl

/-- **A text in front of accepted texts**, up to the end of a line, makes no difference just if it leaves no
literal open, and its braces are even. -/
theorem check_front_iff (front : String) (hlast : front.toList.getLast? = some '\n') :
    (∀ content, check content = .ok () → check (front ++ content) = .ok ()) ↔
      leavesOpen 0 front.toList = false ∧ isEven front.toList = true := by
  have hbackslash : front.toList.getLast? ≠ some '\\' := by
    rw [hlast]
    decide
  constructor
  · intro h
    have hclosed : leavesOpen 0 front.toList = false := by
      by_contra hopen
      rw [Bool.not_eq_false] at hopen
      obtain ⟨done, inside, hinside, hread⟩ := withoutLiterals_open front.toList 0 hbackslash hopen
      have hfront : ∀ c ∈ "type A = ".toList, c ≠ '"' ∧ c ≠ '\\' := forall_mem (by decide)
      have hempty := ((check_eq_ok_iff _).mp (h ("type A = " ++ "\"" ++ "\";") (by decide +kernel))).2
      have hbrace := ((check_eq_ok_iff _).mp (h ("type A = " ++ "\"" ++ "\x7b\";") (by decide +kernel))).2
      have hchars : ∀ rest : String, ("type A = " ++ "\"" ++ rest).toList =
          "type A = ".toList ++ '"' :: rest.toList := by
        intro rest
        simp
      rw [isEven, String.toList_append, hread, hchars, withoutLiterals_close hinside hfront, beq_iff_eq,
        List.count_append, List.count_append] at hempty hbrace
      have hnone : withoutLiterals 0 "\";".toList = ['"', ';'] := by decide +kernel
      have hsome : withoutLiterals 0 "\x7b\";".toList = ['\x7b', '"', ';'] := by decide +kernel
      rw [hnone] at hempty
      rw [hsome] at hbrace
      simp at hempty hbrace
      omega
    refine ⟨hclosed, ?_⟩
    have hplain := ((check_eq_ok_iff _).mp (h "type A = string;" (by decide +kernel))).2
    rw [isEven, String.toList_append, withoutLiterals_append _ 0 hbackslash (Nat.zero_le _) hclosed,
      beq_iff_eq, List.count_append, List.count_append] at hplain
    have hnone : withoutLiterals 0 "type A = string;".toList = "type A = string;".toList := by decide +kernel
    rw [hnone] at hplain
    rw [isEven, beq_iff_eq]
    simpa using hplain
  · rintro ⟨hclosed, heven⟩ content hcontent
    rw [check_eq_ok_iff] at hcontent ⊢
    obtain ⟨hdeclares, hcontent⟩ := hcontent
    rw [isEven, beq_iff_eq] at heven hcontent ⊢
    rw [String.toList_append, withoutLiterals_append _ 0 hbackslash (Nat.zero_le _) hclosed, List.count_append,
      List.count_append, heven, hcontent]
    refine ⟨?_, rfl⟩
    obtain ⟨init, hinit⟩ := List.getLast?_eq_some_iff.mp hlast
    rw [hinit, List.append_assoc, List.singleton_append, declares_append, hdeclares, Bool.or_true]

/-! ## The comment -/

/-- The first line of the comment, up to the command line. -/
def firstLine : String := "// Generated by json_schema_to_ts"

/-- The last line of the comment. -/
def lastLine : String := "// Do not edit by hand; regenerate from the source schemas."

/-- The command line as the comment shows it. -/
def shown (commandLine : String) : String := if commandLine = "" then "" else ": " ++ commandLine

theorem headerComment_eq (commandLine : String) :
    Layout.headerComment commandLine = firstLine ++ shown commandLine ++ ("\n" ++ lastLine) :=
  congrArg (firstLine ++ shown commandLine ++ ·) (by decide +kernel)

theorem toList_headerComment (commandLine : String) : (Layout.headerComment commandLine).toList =
    firstLine.toList ++ (shown commandLine).toList ++ '\n' :: lastLine.toList := by
  rw [headerComment_eq, String.toList_append, String.toList_append, String.toList_append]
  rfl

/-- The comment with an empty line behind it. -/
def heading (commandLine : String) : String := Layout.headerComment commandLine ++ "\n\n"

theorem toList_heading (commandLine : String) :
    (heading commandLine).toList = (Layout.headerComment commandLine).toList ++ ['\n'] ++ ['\n'] := by
  rw [heading, String.toList_append, List.append_assoc]
  rfl

/-- **Harmless command lines**: the comment leaves no literal open, and its braces are even. -/
def isHarmless (commandLine : String) : Bool :=
  !leavesOpen 0 (heading commandLine).toList && isEven (heading commandLine).toList

/-- **The comment is accepted with every text** just if its command line is harmless. -/
theorem check_heading_iff (commandLine : String) :
    (∀ content, check content = .ok () → check (heading commandLine ++ content) = .ok ()) ↔
      isHarmless commandLine = true := by
  have hlast : (heading commandLine).toList.getLast? = some '\n' := by
    rw [toList_heading, List.getLast?_concat]
  rw [check_front_iff _ hlast, isHarmless]
  simp

/-- A brace in a literal does no harm, and a quote does that stands alone. -/
example : isHarmless "\"\x7b\" \x7b\x7d" = true ∧ isHarmless "\" \x7b\x7d" = false := by decide +kernel

/-- Without a quote there are no literals. -/
theorem withoutLiterals_of_not_mem {text : List Char} (h : '"' ∉ text) :
    withoutLiterals 0 text = text ∧ leavesOpen 0 text = false := by
  induction text with
  | nil => exact ⟨rfl, rfl⟩
  | cons c text ih =>
    obtain ⟨hc, htext⟩ := not_or.mp (List.mem_cons.not.mp h)
    obtain ⟨hread, hclosed⟩ := ih htext
    rw [withoutLiterals_cons (Ne.symm hc), hread, leavesOpen, if_neg (Ne.symm hc)]
    exact ⟨rfl, hclosed⟩

/-- **The characters of the comment** are those of its fixed texts and those of the command line. -/
theorem not_mem_heading {commandLine : String} {c : Char} (h : c ∉ commandLine.toList)
    (hfirst : c ∉ firstLine.toList) (hlast : c ∉ lastLine.toList) (hmarks : c ∉ [':', ' ', '\n']) :
    c ∉ (heading commandLine).toList := by
  simp only [List.mem_cons, List.not_mem_nil, or_false, not_or] at hmarks
  obtain ⟨hcolon, hblank, hbreak⟩ := hmarks
  have hshown : c ∉ (shown commandLine).toList := by
    rw [shown]
    split
    · exact List.not_mem_nil
    · have hmark : ": ".toList = [':', ' '] := rfl
      rw [String.toList_append, hmark]
      simp [hcolon, hblank, h]
  rw [toList_heading, toList_headerComment]
  simp [hfirst, hlast, hshown, hbreak]

/-- **A command line without quotes and braces** is harmless. -/
theorem isHarmless_of_not_mem {commandLine : String} (hquote : '"' ∉ commandLine.toList)
    (hopening : '\x7b' ∉ commandLine.toList) (hclosing : '\x7d' ∉ commandLine.toList) :
    isHarmless commandLine = true := by
  have hquote := not_mem_heading hquote (by decide +kernel) (by decide +kernel) (by decide)
  have hopening := not_mem_heading hopening (by decide +kernel) (by decide +kernel) (by decide)
  have hclosing := not_mem_heading hclosing (by decide +kernel) (by decide +kernel) (by decide)
  obtain ⟨hread, hclosed⟩ := withoutLiterals_of_not_mem hquote
  rw [isHarmless, hclosed, isEven, hread, List.count_eq_zero.mpr hopening, List.count_eq_zero.mpr hclosing]
  rfl

/-- Characters without a mark come before the first piece. -/
theorem piecesAt_prepend {mark : Char} {front rest piece : List Char} {more : List (List Char)}
    (hfront : mark ∉ front) (h : piecesAt mark rest = piece :: more) :
    piecesAt mark (front ++ rest) = (front ++ piece) :: more := by
  induction front with
  | nil => exact h
  | cons c front ih =>
    rw [List.mem_cons, not_or] at hfront
    exact piecesAt_cons_of_ne (Ne.symm hfront.1) (ih hfront.2)

/-- **The lines of the comment** begin with two slashes just if those of the command line do, from the second
on. -/
theorem headerComment_lines_iff (commandLine : String) :
    (∀ line ∈ piecesAt '\n' (Layout.headerComment commandLine).toList, ['/', '/'] <+: line) ↔
      ∀ line ∈ (piecesAt '\n' commandLine.toList).tail, ['/', '/'] <+: line := by
  obtain ⟨piece, more, hpieces⟩ := List.exists_cons_of_ne_nil (piecesAt_ne_nil '\n' commandLine.toList)
  have hbreak : '\n' ∉ firstLine.toList := by decide +kernel
  have hslashes : ['/', '/'] <+: firstLine.toList := by decide +kernel
  have hlines : ∃ first, ['/', '/'] <+: first ∧
      piecesAt '\n' (firstLine.toList ++ (shown commandLine).toList) =
        first :: (piecesAt '\n' commandLine.toList).tail := by
    rw [shown, hpieces]
    by_cases hempty : commandLine = ""
    · subst hempty
      obtain ⟨rfl, rfl⟩ : piece = [] ∧ more = [] := by simpa [piecesAt] using hpieces
      exact ⟨firstLine.toList ++ [], hslashes.trans (List.prefix_append _ _), piecesAt_prepend hbreak rfl⟩
    · rw [if_neg hempty, String.toList_append]
      exact ⟨_, hslashes.trans (List.prefix_append _ _),
        piecesAt_prepend hbreak (piecesAt_prepend (by decide) hpieces)⟩
  obtain ⟨first, hfirst, hlines⟩ := hlines
  have hlast : piecesAt '\n' lastLine.toList = [lastLine.toList] := piecesAt_of_not_mem (by decide +kernel)
  have hall : piecesAt '\n' (Layout.headerComment commandLine).toList =
      first :: ((piecesAt '\n' commandLine.toList).tail ++ [lastLine.toList]) := by
    rw [toList_headerComment, piecesAt_append, hlines, hlast, List.cons_append]
  rw [hall]
  constructor
  · exact fun h line hline => h line (List.mem_cons_of_mem _ (List.mem_append_left _ hline))
  · intro h line hline
    rcases List.mem_cons.mp hline with rfl | hline
    · exact hfirst
    · rcases List.mem_append.mp hline with hline | hline
      · exact h line hline
      · rw [List.mem_singleton.mp hline]
        decide +kernel

end TypeScribe.Output
