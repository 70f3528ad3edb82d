import BoardFarm.Matching.ResourceMatch
import BoardFarm.Proofs.Occurrences
import Mathlib.Data.List.Infix
import Mathlib.Data.List.TakeWhile

/-!
# What glob components describe

A component is read from left to right: `*`, `?`, bracket sets with a closing bracket, and
characters that stand for themselves. It stands for the texts that its elements stand for, one
behind the other.

* `Glob.Reads`: the elements of a component.
* `Glob.Describes`: the texts for which a component stands.
* `Glob.read?_of_setText`: the sets of a component are those that the translation finds.
* `Glob.exists_reads`, `Glob.Reads.unique`: a component has one reading.
-/

namespace BoardFarm

namespace Glob

/-- One element of a component. -/
inductive Element where
  | anyText
  | anyChar
  | literal (c : Char)
  | set (negated : Bool) (content : List Char)

/-- What stands behind the opening bracket of a set: the mark of a complement, the members, of
which only the first may be a closing bracket, and the closing bracket. -/
inductive SetText : (negated : Bool) → (content text : List Char) → Prop where
  | members {first : Char} {more : List Char} (hfirst : first ≠ '!') (hmore : ']' ∉ more) :
      SetText false (first :: more) (first :: more ++ [']'])
  | complement {first : Char} {more : List Char} (hmore : ']' ∉ more) :
      SetText true (first :: more) ('!' :: first :: more ++ [']'])

/-- A component is a row of elements; a bracket that opens no set stands for itself. -/
inductive Reads : List Char → List Element → Prop where
  | nil : Reads [] []
  | anyText {cs : List Char} {es : List Element} (rest : Reads cs es) :
      Reads ('*' :: cs) (.anyText :: es)
  | anyChar {cs : List Char} {es : List Element} (rest : Reads cs es) :
      Reads ('?' :: cs) (.anyChar :: es)
  | set {negated : Bool} {content text cs behind : List Char} {es : List Element}
      (hset : SetText negated content text) (hcs : cs = text ++ behind) (rest : Reads behind es) :
      Reads ('[' :: cs) (.set negated content :: es)
  | bracket {cs : List Char} {es : List Element}
      (hopen : ∀ negated content text, SetText negated content text → ¬ text <+: cs)
      (rest : Reads cs es) : Reads ('[' :: cs) (.literal '[' :: es)
  | literal {c : Char} {cs : List Char} {es : List Element} (htext : c ≠ '*') (hchar : c ≠ '?')
      (hset : c ≠ '[') (rest : Reads cs es) : Reads (c :: cs) (.literal c :: es)

/-- The ranges of a set from left to right: two characters with a hyphen between them, or one
character alone. -/
def ranges : List Char → List CharRange
  | first :: '-' :: last :: rest => ⟨first, last⟩ :: ranges rest
  | c :: rest => ⟨c, c⟩ :: ranges rest
  | [] => []

/-- A character is a member of a set, or lies in one of its ranges. -/
def Member (content : List Char) (c : Char) : Prop :=
  ∃ r ∈ ranges content, r.first ≤ c ∧ c ≤ r.last

/-- No range of a set descends. -/
def Ascending (content : List Char) : Prop := ∀ r ∈ ranges content, r.first ≤ r.last

instance (content : List Char) : Decidable (Ascending content) :=
  inferInstanceAs (Decidable (∀ r ∈ ranges content, r.first ≤ r.last))

/-- Elements stand for a text. -/
inductive Stands : List Element → List Char → Prop where
  | nil : Stands [] []
  | anyText {es : List Element} {cs : List Char} (word : List Char) (rest : Stands es cs) :
      Stands (.anyText :: es) (word ++ cs)
  | anyChar {es : List Element} {cs : List Char} (c : Char) (rest : Stands es cs) :
      Stands (.anyChar :: es) (c :: cs)
  | literal {es : List Element} {cs : List Char} (c : Char) (rest : Stands es cs) :
      Stands (.literal c :: es) (c :: cs)
  | set {es : List Element} {cs : List Char} {negated : Bool} {content : List Char} {c : Char}
      (hmember : Member content c ↔ negated = false) (rest : Stands es cs) :
      Stands (.set negated content :: es) (c :: cs)

/-- A component stands for a text. -/
def Describes (pattern value : List Char) : Prop := ∃ es, Reads pattern es ∧ Stands es value

/-- A component has a set with something between its brackets. -/
def HasSet (pattern content : List Char) : Prop :=
  ∃ es negated, Reads pattern es ∧ .set negated content ∈ es

/-! ## Sets in a component -/

theorem takeWhile_of_not_mem {α : Type} [DecidableEq α] {d : α} {more : List α} (hmore : d ∉ more)
    (rest : List α) : (more ++ d :: rest).takeWhile (· ≠ d) = more := by
  rw [List.takeWhile_append_of_pos, List.takeWhile_cons_of_neg (by simp), List.append_nil]
  intro c hc
  exact decide_eq_true (fun he => hmore (he ▸ hc))

theorem closeAt?_of_not_mem {negated : Bool} {before : Nat} {first : Char} {more : List Char}
    (hmore : ']' ∉ more) (rest : List Char) :
    SetSpan.closeAt? negated before (first :: more ++ ']' :: rest) =
      some ⟨negated, first :: more, before + more.length + 2⟩ := by
  simp only [List.cons_append, SetSpan.closeAt?]
  rw [takeWhile_of_not_mem hmore, if_pos (by simp)]

theorem read?_of_setText {negated : Bool} {content text : List Char}
    (h : SetText negated content text) (rest : List Char) :
    SetSpan.read? (text ++ rest) = some ⟨negated, content, text.length⟩ := by
  cases h with
  | @members first more hfirst hmore =>
    have hread : SetSpan.read? (first :: more ++ [']'] ++ rest) =
        SetSpan.closeAt? false 0 (first :: more ++ ']' :: rest) := by
      rw [List.append_assoc]
      exact SetSpan.read?.eq_2 _ (fun cs he => hfirst (List.cons.inj he).1)
    rw [hread, closeAt?_of_not_mem hmore]
    simp
  | @complement first more hmore =>
    have hread : SetSpan.read? ('!' :: first :: more ++ [']'] ++ rest) =
        SetSpan.closeAt? true 1 (first :: more ++ ']' :: rest) := by
      rw [List.append_assoc]
      rfl
    rw [hread, closeAt?_of_not_mem hmore]
    simp
    omega

theorem of_closeAt? {negated : Bool} {before : Nat} {cs : List Char} {span : SetSpan}
    (h : SetSpan.closeAt? negated before cs = some span) :
    ∃ first more rest, cs = first :: more ++ ']' :: rest ∧ ']' ∉ more ∧
      span = ⟨negated, first :: more, before + more.length + 2⟩ := by
  cases cs with
  | nil => cases h
  | cons first cs =>
    simp only [SetSpan.closeAt?] at h
    split at h
    · rename_i hlt
      cases h
      have hsplit := List.takeWhile_append_dropWhile (p := (· ≠ ']')) (l := cs)
      cases hrest : cs.dropWhile (· ≠ ']') with
      | nil =>
        rw [hrest, List.append_nil] at hsplit
        rw [hsplit] at hlt
        omega
      | cons d rest =>
        have hd : d = ']' := by
          have := List.head?_dropWhile_not (· ≠ ']') cs
          rw [hrest] at this
          simpa using this
        subst hd
        refine ⟨first, _, rest, ?_, ?_, rfl⟩
        · rw [List.cons_append, ← hrest, hsplit]
        · intro hmem
          simpa using List.mem_takeWhile_imp hmem
    · cases h

/-- The set that opens just before a text, if there is one. -/
theorem setText_of_read? {cs : List Char} {span : SetSpan} (h : SetSpan.read? cs = some span) :
    ∃ text rest, SetText span.negated span.content text ∧ cs = text ++ rest := by
  unfold SetSpan.read? at h
  split at h
  · obtain ⟨first, more, rest, rfl, hmore, rfl⟩ := of_closeAt? h
    exact ⟨'!' :: first :: more ++ [']'], rest, .complement hmore, by simp⟩
  · rename_i hmark
    obtain ⟨first, more, rest, rfl, hmore, rfl⟩ := of_closeAt? h
    refine ⟨first :: more ++ [']'], rest, .members ?_ hmore, by simp⟩
    rintro rfl
    exact hmark _ rfl

theorem read?_eq_none {cs : List Char}
    (hopen : ∀ negated content text, SetText negated content text → ¬ text <+: cs) :
    SetSpan.read? cs = none := by
  cases h : SetSpan.read? cs with
  | none => rfl
  | some span =>
    obtain ⟨text, rest, hset, rfl⟩ := setText_of_read? h
    exact absurd (List.prefix_append text rest) (hopen _ _ _ hset)

theorem not_prefix_of_read? {cs : List Char} (h : SetSpan.read? cs = none) (negated : Bool)
    (content text : List Char) (hset : SetText negated content text) : ¬ text <+: cs := by
  rintro ⟨rest, rfl⟩
  rw [read?_of_setText hset rest] at h
  cases h

/-! ## Readings -/

/-- Every component can be read. -/
theorem exists_reads (cs : List Char) : ∃ es, Reads cs es := by
  induction hlength : cs.length using Nat.strongRecOn generalizing cs with
  | ind length ih =>
    cases cs with
    | nil => exact ⟨[], .nil⟩
    | cons c cs =>
      subst hlength
      obtain ⟨es, hes⟩ := ih cs.length (Nat.lt_succ_self _) cs rfl
      by_cases htext : c = '*'
      · exact ⟨.anyText :: es, htext ▸ .anyText hes⟩
      by_cases hchar : c = '?'
      · exact ⟨.anyChar :: es, hchar ▸ .anyChar hes⟩
      by_cases hset : c = '['
      · subst hset
        by_cases hopen : ∃ negated content text, SetText negated content text ∧ text <+: cs
        · obtain ⟨negated, content, text, htext, behind, rfl⟩ := hopen
          have hshorter : behind.length < ('[' :: (text ++ behind)).length := by
            rw [List.length_cons, List.length_append]
            omega
          obtain ⟨es, hes⟩ := ih behind.length hshorter behind rfl
          exact ⟨.set negated content :: es, .set htext rfl hes⟩
        · refine ⟨.literal '[' :: es, .bracket ?_ hes⟩
          intro negated content text htext hprefix
          exact hopen ⟨negated, content, text, htext, hprefix⟩
      · exact ⟨.literal c :: es, .literal htext hchar hset hes⟩

/-- A component has one reading. -/
theorem Reads.unique {cs : List Char} {es es' : List Element} (h : Reads cs es)
    (h' : Reads cs es') : es = es' := by
  induction h generalizing es' with
  | nil =>
    cases h'
    rfl
  | anyText rest ih =>
    cases h' with
    | anyText rest' => rw [ih rest']
    | literal htext => exact absurd rfl htext
  | anyChar rest ih =>
    cases h' with
    | anyChar rest' => rw [ih rest']
    | literal _ hchar => exact absurd rfl hchar
  | @set negated content text cs behind es hset hcs rest ih =>
    cases h' with
    | @set negated' content' text' _ behind' es' hset' hcs' rest' =>
      have hread := read?_of_setText hset behind
      rw [← hcs, hcs', read?_of_setText hset' behind'] at hread
      obtain ⟨rfl, rfl, hlength⟩ := SetSpan.mk.inj (Option.some.inj hread)
      obtain ⟨rfl, rfl⟩ := List.append_inj (hcs'.symm.trans hcs) hlength
      rw [ih rest']
    | bracket hopen => exact absurd (hcs ▸ List.prefix_append text behind) (hopen _ _ _ hset)
    | literal _ _ hbracket => exact absurd rfl hbracket
  | bracket hopen rest ih =>
    cases h' with
    | @set _ _ text _ behind _ hset hcs =>
      exact absurd (hcs ▸ List.prefix_append text behind) (hopen _ _ _ hset)
    | bracket _ rest' => rw [ih rest']
    | literal _ _ hbracket => exact absurd rfl hbracket
  | literal htext hchar hset rest ih =>
    cases h' with
    | anyText => exact absurd rfl htext
    | anyChar => exact absurd rfl hchar
    | set => exact absurd rfl hset
    | bracket => exact absurd rfl hset
    | literal _ _ _ rest' => rw [ih rest']

/-- Something stands between the brackets of a set. -/
theorem content_ne_nil {cs : List Char} {es : List Element} {negated : Bool} {content : List Char}
    (h : Reads cs es) (hmem : .set negated content ∈ es) : content ≠ [] := by
  induction h with
  | nil => cases hmem
  | set hset _ rest ih =>
    rcases List.mem_cons.mp hmem with he | hmem
    · obtain ⟨-, rfl⟩ := Element.set.inj he
      cases hset with
      | members | complement => exact List.cons_ne_nil _ _
    · exact ih hmem
  | anyText rest ih | anyChar rest ih | bracket _ rest ih | literal _ _ _ rest ih =>
    rcases List.mem_cons.mp hmem with he | hmem
    · cases he
    · exact ih hmem

end Glob

end BoardFarm
