import BoardFarm.Matching.Expression
import Mathlib.Data.List.Basic

/-!
# Where expressions are found

An expression is found in a text where its parts stand one behind the other: an anchor only at
its end of the text, a repeated part any number of times. The matcher computes, for one part
more at a time, at which places that is so.

* `Expression.Spans`: what an expression stands for between two pieces of a text.
* `Expression.isMatch_iff`: the matcher finds an expression just where it stands.
-/

namespace BoardFarm.Expression

/-- An expression stands for a word between what is before it and what is after it. -/
inductive Spans : Expression → (before word after : List Char) → Prop where
  | nil {before after : List Char} : Spans [] before [] after
  | start {e : Expression} {word after : List Char} (rest : Spans e [] word after) :
      Spans (.start :: e) [] word after
  | finish {e : Expression} {before : List Char} (rest : Spans e before [] []) :
      Spans (.finish :: e) before [] []
  | once {e : Expression} {a : Atom} {c : Char} {before word after : List Char}
      (accepts : a.accepts c = true) (rest : Spans e (before ++ [c]) word after) :
      Spans (.once a :: e) before (c :: word) after
  | leave {e : Expression} {a : Atom} {before word after : List Char}
      (rest : Spans e before word after) : Spans (.repeated a :: e) before word after
  | again {e : Expression} {a : Atom} {c : Char} {before word after : List Char}
      (accepts : a.accepts c = true)
      (rest : Spans (.repeated a :: e) (before ++ [c]) word after) :
      Spans (.repeated a :: e) before (c :: word) after

/-- An expression is found at the head of a text, behind what is before it. -/
def FoundAt (e : Expression) (before cs : List Char) : Prop :=
  ∃ word after, cs = word ++ after ∧ Spans e before word after

/-- An expression is found somewhere in a text. -/
def OccursIn (e : Expression) (cs : List Char) : Prop :=
  ∃ before rest, cs = before ++ rest ∧ FoundAt e before rest

variable {e : Expression} {a : Atom} {before cs : List Char} {c : Char}

/-! ## One part more -/

theorem foundAt_nil (before cs : List Char) : FoundAt [] before cs := ⟨[], cs, rfl, .nil⟩

theorem foundAt_start_iff :
    FoundAt (.start :: e) before cs ↔ before = [] ∧ FoundAt e before cs := by
  constructor
  · rintro ⟨word, after, rfl, hspans⟩
    cases hspans with
    | start rest => exact ⟨rfl, word, after, rfl, rest⟩
  · rintro ⟨rfl, word, after, rfl, rest⟩
    exact ⟨word, after, rfl, .start rest⟩

theorem foundAt_finish_iff : FoundAt (.finish :: e) before cs ↔ cs = [] ∧ FoundAt e before cs := by
  constructor
  · rintro ⟨word, after, rfl, hspans⟩
    cases hspans with
    | finish rest => exact ⟨rfl, [], [], rfl, rest⟩
  · rintro ⟨rfl, word, after, hcs, rest⟩
    obtain ⟨rfl, rfl⟩ := List.append_eq_nil_iff.mp hcs.symm
    exact ⟨[], [], rfl, .finish rest⟩

theorem not_foundAt_once_nil : ¬ FoundAt (.once a :: e) before [] := by
  rintro ⟨word, after, hcs, hspans⟩
  cases hspans with
  | once accepts rest => cases hcs

theorem foundAt_once_iff : FoundAt (.once a :: e) before (c :: cs) ↔
    a.accepts c = true ∧ FoundAt e (before ++ [c]) cs := by
  constructor
  · rintro ⟨word, after, hcs, hspans⟩
    cases hspans with
    | once accepts rest =>
      obtain ⟨rfl, rfl⟩ := List.cons.inj hcs
      exact ⟨accepts, _, after, rfl, rest⟩
  · rintro ⟨accepts, word, after, rfl, rest⟩
    exact ⟨c :: word, after, rfl, .once accepts rest⟩

theorem foundAt_repeated_nil_iff : FoundAt (.repeated a :: e) before [] ↔ FoundAt e before [] := by
  constructor
  · rintro ⟨word, after, hcs, hspans⟩
    cases hspans with
    | leave rest => exact ⟨word, after, hcs, rest⟩
    | again accepts rest => cases hcs
  · rintro ⟨word, after, hcs, rest⟩
    exact ⟨word, after, hcs, .leave rest⟩

theorem foundAt_repeated_iff : FoundAt (.repeated a :: e) before (c :: cs) ↔
    FoundAt e before (c :: cs) ∨
      (a.accepts c = true ∧ FoundAt (.repeated a :: e) (before ++ [c]) cs) := by
  constructor
  · rintro ⟨word, after, hcs, hspans⟩
    cases hspans with
    | leave rest => exact .inl ⟨word, after, hcs, rest⟩
    | again accepts rest =>
      obtain ⟨rfl, rfl⟩ := List.cons.inj hcs
      exact .inr ⟨accepts, _, after, rfl, rest⟩
  · rintro (⟨word, after, hcs, rest⟩ | ⟨accepts, word, after, rfl, rest⟩)
    · exact ⟨word, after, hcs, .leave rest⟩
    · exact ⟨c :: word, after, rfl, .again accepts rest⟩

/-- A part that stands for one character stands for one that it accepts. -/
theorem spans_once_iff {word after : List Char} :
    Spans (.once a :: e) before word after ↔ ∃ c rest, word = c :: rest ∧ a.accepts c = true ∧
      Spans e (before ++ [c]) rest after := by
  constructor
  · intro h
    cases h with
    | once accepts rest => exact ⟨_, _, rfl, accepts, rest⟩
  · rintro ⟨c, rest, rfl, accepts, hrest⟩
    exact .once accepts hrest

/-- A repeated part stands for any number of characters that it accepts. -/
theorem spans_repeated_iff {word after : List Char} :
    Spans (.repeated a :: e) before word after ↔ ∃ passed rest, word = passed ++ rest ∧
      (∀ c ∈ passed, a.accepts c = true) ∧ Spans e (before ++ passed) rest after := by
  constructor
  · intro h
    generalize he : ExpressionPart.repeated a :: e = whole at h
    induction h with
    | nil | start | finish | once => cases he
    | @leave e' a' before word after rest =>
      obtain ⟨ha, rfl⟩ := List.cons.inj he
      exact ⟨[], word, rfl, by simp, by rwa [List.append_nil]⟩
    | @again e' a' c before word after accepts rest ih =>
      obtain ⟨ha, rfl⟩ := List.cons.inj he
      obtain rfl := ExpressionPart.repeated.inj ha
      obtain ⟨passed, behind, rfl, hpassed, hbehind⟩ := ih rfl
      refine ⟨c :: passed, behind, rfl, ?_, by rwa [List.append_cons]⟩
      exact List.forall_mem_cons.mpr ⟨accepts, hpassed⟩
  · rintro ⟨passed, rest, rfl, hpassed, hrest⟩
    induction passed generalizing before with
    | nil => exact .leave (by rwa [List.append_nil] at hrest)
    | cons c passed ih =>
      obtain ⟨hc, hpassed⟩ := List.forall_mem_cons.mp hpassed
      exact .again hc (ih hpassed (by rwa [← List.append_cons]))

/-! ## Rows of places -/

/-- The entries of a row tell for each suffix of a text whether an expression is found at its
head. -/
inductive IsRow (e : Expression) : (before cs : List Char) → List Bool → Prop where
  | nil {before : List Char} {b : Bool} (here : b = true ↔ FoundAt e before []) :
      IsRow e before [] [b]
  | cons {before cs : List Char} {c : Char} {b : Bool} {row : List Bool}
      (here : b = true ↔ FoundAt e before (c :: cs)) (later : IsRow e (before ++ [c]) cs row) :
      IsRow e before (c :: cs) (b :: row)

namespace IsRow

variable {row : List Bool}

theorem headD (h : IsRow e before cs row) : row.headD false = true ↔ FoundAt e before cs := by
  cases h with
  | nil here => exact here
  | cons here _ => exact here

theorem any (h : IsRow e before cs row) :
    row.any id = true ↔ ∃ passed rest, cs = passed ++ rest ∧ FoundAt e (before ++ passed) rest := by
  induction h with
  | @nil before b here =>
    rw [List.any_cons, List.any_nil, Bool.or_false, id, here]
    constructor
    · intro hfound
      exact ⟨[], [], rfl, by rwa [List.append_nil]⟩
    · rintro ⟨passed, rest, hcs, hfound⟩
      obtain ⟨rfl, rfl⟩ := List.append_eq_nil_iff.mp hcs.symm
      rwa [List.append_nil] at hfound
  | @cons before cs c b row here later ih =>
    rw [List.any_cons, Bool.or_eq_true, id, here, ih]
    constructor
    · rintro (hfound | ⟨passed, rest, rfl, hfound⟩)
      · exact ⟨[], c :: cs, rfl, by rwa [List.append_nil]⟩
      · exact ⟨c :: passed, rest, rfl, by rwa [List.append_cons]⟩
    · rintro ⟨passed, rest, hcs, hfound⟩
      cases passed with
      | nil =>
        obtain rfl : c :: cs = rest := hcs
        exact .inl (by rwa [List.append_nil] at hfound)
      | cons d passed =>
        obtain ⟨rfl, rfl⟩ := List.cons.inj hcs
        exact .inr ⟨passed, rest, rfl, by rwa [← List.append_cons]⟩

end IsRow

theorem isRow_replicate (before cs : List Char) :
    IsRow [] before cs (List.replicate (cs.length + 1) true) := by
  induction cs generalizing before with
  | nil => exact .nil (iff_of_true rfl (foundAt_nil before []))
  | cons c cs ih => exact .cons (iff_of_true rfl (foundAt_nil before (c :: cs))) (ih _)

/-- Each entry of an extended row follows from the entry behind it and from the old row. -/
theorem isRow_extend {p : ExpressionPart} {whole : Bool} {row : List Bool}
    (hwhole : whole = true ↔ before = []) (h : IsRow e before cs row) :
    IsRow (p :: e) before cs (extend p whole cs row) := by
  induction h generalizing whole with
  | @nil before b here =>
    cases p with
    | start => exact .nil (by rw [Bool.and_eq_true, hwhole, here, foundAt_start_iff])
    | finish => exact .nil (by rw [here, foundAt_finish_iff, and_iff_right rfl])
    | once a => exact .nil (iff_of_false Bool.false_ne_true not_foundAt_once_nil)
    | repeated a => exact .nil (by rw [here, foundAt_repeated_nil_iff])
  | @cons before cs c b row here later ih =>
    have hlater := @ih false (iff_of_false Bool.false_ne_true (by simp))
    refine .cons ?_ hlater
    cases p with
    | start =>
      show (whole && b) = true ↔ _
      rw [Bool.and_eq_true, hwhole, here, foundAt_start_iff]
    | finish =>
      rw [foundAt_finish_iff]
      exact iff_of_false Bool.false_ne_true (fun h => List.cons_ne_nil _ _ h.1)
    | once a =>
      show (a.accepts c && row.headD false) = true ↔ _
      rw [Bool.and_eq_true, later.headD, foundAt_once_iff]
    | repeated a =>
      show (b || (a.accepts c && (extend (.repeated a) false cs row).headD false)) = true ↔ _
      rw [Bool.or_eq_true, Bool.and_eq_true, here, hlater.headD, foundAt_repeated_iff]

theorem isRow_foundAt (e : Expression) (cs : List Char) : IsRow e [] cs (foundAt e cs) := by
  induction e with
  | nil => exact isRow_replicate [] cs
  | cons p e ih => exact isRow_extend (iff_of_true rfl rfl) ih

/-- The matcher finds an expression just where it stands. -/
theorem isMatch_iff (e : Expression) (s : String) : e.isMatch s = true ↔ e.OccursIn s.toList :=
  (isRow_foundAt e s.toList).any

end BoardFarm.Expression
