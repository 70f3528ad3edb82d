import BoardFarm.Proofs.GlobComponents

/-!
# Expressions of glob components

The translation of a component goes element by element, and so does the reading of the written
expression: each character that has a meaning in expressions, but none in components, is
escaped. A set becomes a class with the same ranges, as long as it has no double hyphen, which
has another meaning in a class.

* `Glob.Written`: how a piece of text is read, whatever follows.
* `Glob.compile_of_reads`: the expression of a component.
* `Component.ofText?_describes`: a component can be compiled unless a range of a set descends, and
  then it matches what it describes.
-/

namespace BoardFarm

namespace Glob

/-! ## Written signs -/

/-- A text is read as some signs, whatever follows. -/
def Written (text : List Char) (signs : List Sign) : Prop :=
  ∀ cs, Sign.ofText? (text ++ cs) = (Sign.ofText? cs).map (signs ++ ·)

namespace Written

theorem nil : Written [] [] := by
  intro cs
  cases h : Sign.ofText? cs <;> simp [h]

theorem append {text text' : List Char} {signs signs' : List Sign} (h : Written text signs)
    (h' : Written text' signs') : Written (text ++ text') (signs ++ signs') := by
  intro cs
  rw [List.append_assoc, h, h', Option.map_map]
  congr 1
  funext rest
  exact (List.append_assoc signs signs' rest).symm

theorem plain {c : Char} (hc : c ≠ '\\') : Written [c] [.plain c] := by
  intro cs
  have hread : Sign.ofText? (c :: cs) =
      if c = '\\' then none else (Sign.ofText? cs).map (.plain c :: ·) :=
    Sign.ofText?.eq_3 c cs (fun _ _ he _ => hc he)
  exact hread.trans (if_neg hc)

theorem escaped {c : Char} (hc : c ∈ Sign.marks) : Written ['\\', c] [.escaped c] :=
  fun _ => if_pos hc

theorem flatMap {α : Type} {f : α → List Char} {g : α → List Sign} {xs : List α}
    (h : ∀ x ∈ xs, Written (f x) (g x)) : Written (xs.flatMap f) (xs.flatMap g) := by
  induction xs with
  | nil => exact nil
  | cons x xs ih =>
    exact (h x List.mem_cons_self).append (ih fun y hy => h y (List.mem_cons_of_mem x hy))

theorem ofText? {text : List Char} {signs : List Sign} (h : Written text signs) :
    Sign.ofText? text = some signs := by
  have := h []
  simpa [Sign.ofText?] using this

end Written

/-- The sign of a character that stands for itself. -/
def sign (c : Char) : Sign := if c ∈ Sign.marks then .escaped c else .plain c

/-- The sign of a character within a class. -/
def memberSign (c : Char) : Sign :=
  if c ∈ ['\\', '[', ']', '^', '&', '~'] then .escaped c else .plain c

theorem written_escape (c : Char) : Written (escape c) [sign c] := by
  unfold escape sign
  split
  · rename_i hmark
    exact .escaped hmark
  · rename_i hmark
    exact .plain fun he => hmark (by rw [he]; decide)

theorem written_escapeMember (c : Char) : Written (escapeMember c) [memberSign c] := by
  unfold escapeMember memberSign
  split
  · rename_i hmark
    exact .escaped ((by decide : ['\\', '[', ']', '^', '&', '~'] ⊆ Sign.marks) hmark)
  · rename_i hmark
    exact .plain fun he => hmark (by rw [he]; decide)

theorem char_memberSign (c : Char) : (memberSign c).char = c := by
  unfold memberSign
  split <;> rfl

theorem char_sign (c : Char) : (sign c).char = c := by
  unfold sign
  split <;> rfl

theorem memberSign_eq_plain_iff {c d : Char} :
    memberSign c = .plain d ↔ c = d ∧ d ∉ ['\\', '[', ']', '^', '&', '~'] := by
  unfold memberSign
  split
  · rename_i hmark
    simp only [reduceCtorEq, false_iff, not_and, not_not]
    rintro rfl
    exact hmark
  · rename_i hmark
    rw [Sign.plain.injEq]
    constructor
    · rintro rfl
      exact ⟨rfl, hmark⟩
    · exact And.left

theorem sign_ne_plain {c d : Char} (hd : d ∈ Sign.marks) : sign c ≠ .plain d := by
  unfold sign
  split
  · exact Sign.noConfusion
  · rename_i hmark
    rintro ⟨⟩
    exact hmark hd

namespace Element

/-- The signs of a set behind its opening bracket. -/
def setSigns (negated : Bool) (content : List Char) : List Sign :=
  (if negated then [.plain '^'] else []) ++ content.map memberSign ++ [.plain ']']

/-- The written form of an element. -/
def text : Element → List Char
  | anyText => ['.', '*']
  | anyChar => ['.']
  | literal c => escape c
  | set negated content => classText negated content

/-- The signs of an element. -/
def signs : Element → List Sign
  | anyText => [.plain '.', .plain '*']
  | anyChar => [.plain '.']
  | literal c => [sign c]
  | set negated content => .plain '[' :: setSigns negated content

/-- The part of an expression that an element becomes. -/
def part : Element → ExpressionPart
  | anyText => .repeated .dot
  | anyChar => .once .dot
  | literal c => .once (.literal c)
  | set negated content => .once (.charClass ⟨negated, ranges content, []⟩)

theorem written (e : Element) : Written e.text e.signs := by
  cases e with
  | anyText => exact (Written.plain (by decide)).append (.plain (by decide))
  | anyChar => exact .plain (by decide)
  | literal c => exact written_escape c
  | set negated content =>
    have hmark :
        Written (if negated then ['^'] else []) (if negated then [.plain '^'] else []) := by
      cases negated with
      | false => exact .nil
      | true => exact .plain (by decide)
    have hcontent : Written (content.flatMap escapeMember) (content.map memberSign) := by
      rw [← List.flatMap_singleton' (content.map memberSign), List.flatMap_map]
      exact .flatMap fun c _ => written_escapeMember c
    have hopen : Written ['['] [.plain '['] := .plain (by decide)
    exact ((hopen.append hmark).append hcontent).append (.plain (by decide))

end Element

/-! ## Translation -/

theorem translateFrom_append (text behind : List Char) :
    translateFrom text.length (text ++ behind) = translateFrom 0 behind := by
  induction text with
  | nil => rfl
  | cons c text ih => exact ih

/-- The translation goes element by element. -/
theorem translateFrom_of_reads {cs : List Char} {es : List Element} (h : Reads cs es) :
    translateFrom 0 cs = es.flatMap Element.text := by
  induction h with
  | nil => rfl
  | anyText rest ih => exact congrArg (['.', '*'] ++ ·) ih
  | anyChar rest ih => exact congrArg ('.' :: ·) ih
  | @set negated content text cs behind es hset hcs rest ih =>
    subst hcs
    have hread := read?_of_setText hset behind
    simp only [translateFrom, hread, List.flatMap_cons]
    rw [translateFrom_append, ih]
    rfl
  | bracket hopen rest ih =>
    simp only [translateFrom, read?_eq_none hopen, List.flatMap_cons, ih]
    rfl
  | literal htext hchar hset rest ih =>
    simp only [translateFrom, if_neg htext, if_neg hchar, if_neg hset, List.flatMap_cons, ih]
    rfl

theorem ofText?_translate {cs : List Char} {es : List Element} (h : Reads cs es) :
    Sign.ofText? (translate cs) =
      some (.plain '^' :: es.flatMap Element.signs ++ [.plain '$']) := by
  have hstart : Written ['^'] [.plain '^'] := .plain (by decide)
  have hparts : Written (es.flatMap Element.text) (es.flatMap Element.signs) :=
    .flatMap fun e _ => e.written
  have hwhole := (hstart.append hparts).append (.plain (by decide : '$' ≠ '\\'))
  unfold translate
  rw [translateFrom_of_reads h]
  exact hwhole.ofText?

/-! ## Classes -/

/-- A set with two hyphens side by side. -/
def HasDoubleHyphen (content : List Char) : Prop := ['-', '-'] <:+: content

theorem ascending_cons_iff {r : CharRange} {content rest : List Char}
    (h : ranges content = r :: ranges rest) :
    Ascending content ↔ r.first ≤ r.last ∧ Ascending rest := by
  unfold Ascending
  rw [h, List.forall_mem_cons]

theorem hasDoubleHyphen_head (rest : List Char) : HasDoubleHyphen ('-' :: '-' :: rest) :=
  (List.prefix_append ['-', '-'] rest).isInfix

theorem HasDoubleHyphen.cons {content : List Char} (h : HasDoubleHyphen content) (c : Char) :
    HasDoubleHyphen (c :: content) :=
  List.IsInfix.trans h (List.suffix_cons c content).isInfix

/-- A set is read range by range. -/
theorem readParts?_memberSigns {content : List Char} (h : ¬ HasDoubleHyphen content) :
    CharClass.readParts? 0 (content.map memberSign) =
      if Ascending content then some (ranges content, []) else none := by
  induction content using ranges.induct with
  | case1 first last rest ih =>
    have hrest : ¬ HasDoubleHyphen rest := fun hd => h (((hd.cons _).cons _).cons _)
    have hfirst : memberSign first ≠ .plain '-' := by
      intro he
      obtain ⟨rfl, -⟩ := memberSign_eq_plain_iff.mp he
      exact h (hasDoubleHyphen_head _)
    have hlast : memberSign last ≠ .plain '-' := by
      intro he
      obtain ⟨rfl, -⟩ := memberSign_eq_plain_iff.mp he
      exact h ((hasDoubleHyphen_head _).cons _)
    have hend : CharClass.rangeEnd? (memberSign '-' :: memberSign last :: rest.map memberSign) =
        some last := by
      have hmarks : memberSign '-' = .plain '-' ∧ memberSign last ≠ .plain '-' :=
        ⟨by decide, hlast⟩
      exact (if_pos hmarks).trans (congrArg some (char_memberSign last))
    have hranges : ranges (first :: '-' :: last :: rest) = ⟨first, last⟩ :: ranges rest := rfl
    simp only [List.map_cons, CharClass.readParts?, hend, char_memberSign,
      if_neg (fun hdouble => hfirst (And.left hdouble)), ih hrest, ascending_cons_iff hranges]
    by_cases hle : first ≤ last
    · by_cases hasc : Ascending rest
      · simp [hle, hasc, hranges, CharClass.consMember]
      · simp [hle, hasc]
    · simp [hle]
  | case2 c rest hsingle ih =>
    have hrest : ¬ HasDoubleHyphen rest := fun hd => h (hd.cons _)
    have hranges : ranges (c :: rest) = ⟨c, c⟩ :: ranges rest := ranges.eq_2 c rest hsingle
    have hdouble : ¬ (memberSign c = .plain '-' ∧
        (rest.map memberSign).head? = some (.plain '-')) := by
      rintro ⟨hc, hhead⟩
      obtain ⟨rfl, -⟩ := memberSign_eq_plain_iff.mp hc
      cases rest with
      | nil => cases hhead
      | cons d rest =>
        obtain ⟨rfl, -⟩ := memberSign_eq_plain_iff.mp (Option.some.inj hhead)
        exact h (hasDoubleHyphen_head _)
    have hend : CharClass.rangeEnd? (rest.map memberSign) = none := by
      match rest, hsingle with
      | [], _ => rfl
      | [_], _ => rfl
      | d :: last :: rest, hsingle =>
        refine if_neg fun hhyphen => ?_
        obtain ⟨rfl, -⟩ := memberSign_eq_plain_iff.mp hhyphen.1
        exact hsingle last rest rfl
    simp only [List.map_cons, CharClass.readParts?, hend, char_memberSign, if_neg hdouble,
      ih hrest, ascending_cons_iff hranges]
    by_cases hasc : Ascending rest
    · simp [hasc, hranges, CharClass.consMember]
    · simp [hasc]
  | case3 =>
    have hasc : Ascending [] := by decide
    exact (if_pos hasc).symm

/-- Nothing is set aside as leading hyphens of a set that starts with another character. -/
theorem hyphens_of_head_ne {content : List Char} (h : content.head? ≠ some '-') :
    (content.map memberSign).takeWhile (· = .plain '-') = [] ∧
      (content.map memberSign).dropWhile (· = .plain '-') = content.map memberSign := by
  have htake : (content.map memberSign).takeWhile (· = .plain '-') = [] := by
    cases content with
    | nil => rfl
    | cons d rest =>
      refine List.takeWhile_cons_of_neg fun hd => h ?_
      exact congrArg some (memberSign_eq_plain_iff.mp (of_decide_eq_true hd)).1
  have hsplit := List.takeWhile_append_dropWhile (p := (· = Sign.plain '-'))
    (l := content.map memberSign)
  rw [htake] at hsplit
  exact ⟨htake, hsplit⟩

theorem ofBody?_memberSigns {negated : Bool} {content : List Char}
    (h : ¬ HasDoubleHyphen content) :
    CharClass.ofBody? negated (content.map memberSign) =
      if Ascending content then some ⟨negated, ranges content, []⟩ else none := by
  have hoperator : (content.map memberSign).any Sign.isClassOperator = false := by
    rw [List.any_eq_false]
    intro s hs
    obtain ⟨c, -, rfl⟩ := List.mem_map.mp hs
    simp [Sign.isClassOperator, memberSign_eq_plain_iff]
  unfold CharClass.ofBody?
  rw [hoperator]
  by_cases hhead : content.head? = some '-'
  · -- the leading hyphen is a member, and what is behind it is read as usual
    obtain ⟨rest, rfl⟩ := List.head?_eq_some_iff.mp hhead
    have hrest : ¬ HasDoubleHyphen rest := fun hd => h (hd.cons _)
    have hnext : rest.head? ≠ some '-' := by
      intro he
      obtain ⟨rest, rfl⟩ := List.head?_eq_some_iff.mp he
      exact h (hasDoubleHyphen_head rest)
    have hranges : ranges ('-' :: rest) = ⟨'-', '-'⟩ :: ranges rest :=
      ranges.eq_2 '-' rest (fun last rest' he => hnext (he ▸ rfl))
    have hmember : memberSign '-' = .plain '-' := rfl
    obtain ⟨htake, hdrop⟩ := hyphens_of_head_ne hnext
    simp only [List.map_cons, hmember, decide_true, List.takeWhile_cons_of_pos,
      List.dropWhile_cons_of_pos, htake, hdrop, readParts?_memberSigns hrest,
      ascending_cons_iff hranges]
    by_cases hasc : Ascending rest
    · simp [hasc, hranges]
    · simp [hasc]
  · obtain ⟨htake, hdrop⟩ := hyphens_of_head_ne hhead
    simp only [htake, hdrop, readParts?_memberSigns h]
    by_cases hasc : Ascending content
    · simp [hasc]
    · simp [hasc]

theorem closeAt?_memberSigns {negated : Bool} {before : Nat} {content : List Char}
    (hfull : content ≠ []) (h : ¬ HasDoubleHyphen content) (rest : List Sign) :
    CharClass.closeAt? negated before (content.map memberSign ++ .plain ']' :: rest) =
      if Ascending content then
        some (⟨negated, ranges content, []⟩, before + content.length + 1)
      else none := by
  have hclose : Sign.plain ']' ∉ content.map memberSign := by
    intro hmem
    obtain ⟨c, -, hc⟩ := List.mem_map.mp hmem
    exact (memberSign_eq_plain_iff.mp hc).2 (by decide)
  have hbody : ¬ (content.map memberSign = [] ∨ (content.map memberSign).length =
      (content.map memberSign ++ .plain ']' :: rest).length) := by
    rintro (hempty | hlength)
    · exact hfull (List.map_eq_nil_iff.mp hempty)
    · simp at hlength
  simp only [CharClass.closeAt?, takeWhile_of_not_mem hclose, if_neg hbody,
    ofBody?_memberSigns h]
  by_cases hasc : Ascending content
  · simp [hasc]
  · simp [hasc]

/-- The class of a set. -/
theorem read?_setSigns (negated : Bool) {content : List Char} (hfull : content ≠ [])
    (h : ¬ HasDoubleHyphen content) (rest : List Sign) :
    CharClass.read? (Element.setSigns negated content ++ rest) =
      if Ascending content then
        some (⟨negated, ranges content, []⟩, (Element.setSigns negated content).length)
      else none := by
  cases negated with
  | true =>
    have hsigns : Element.setSigns true content ++ rest =
        .plain '^' :: (content.map memberSign ++ .plain ']' :: rest) := by
      simp [Element.setSigns]
    rw [hsigns]
    refine (if_pos rfl).trans ?_
    rw [List.tail_cons, closeAt?_memberSigns hfull h]
    simp [Element.setSigns, Nat.add_comm, Nat.add_left_comm]
  | false =>
    have hsigns : Element.setSigns false content ++ rest =
        content.map memberSign ++ .plain ']' :: rest := by
      simp [Element.setSigns]
    rw [hsigns]
    have hhead : (content.map memberSign ++ .plain ']' :: rest).head? ≠ some (.plain '^') := by
      cases content with
      | nil => exact absurd rfl hfull
      | cons c content =>
        intro he
        exact (memberSign_eq_plain_iff.mp (Option.some.inj he)).2 (by decide)
    refine (if_neg hhead).trans ?_
    rw [closeAt?_memberSigns hfull h]
    simp [Element.setSigns]

/-! ## Parts -/

theorem readFrom_append (signs rest : List Sign) :
    Expression.readFrom signs.length (signs ++ rest) = Expression.readFrom 0 rest := by
  induction signs with
  | nil => rfl
  | cons s signs ih => exact ih

/-- An atom that nothing repeats is one part. -/
theorem readFrom_atom {s : Sign} (signs : List Sign) {rest : List Sign} {a : Atom}
    (hstart : s ≠ .plain '^') (hfinish : s ≠ .plain '$')
    (hread : Atom.read? s (signs ++ rest) = some (a, signs.length))
    (hrest : rest.head? ≠ some (.plain '*')) :
    Expression.readFrom 0 (s :: signs ++ rest) =
      (Expression.readFrom 0 rest).map (.once a :: ·) := by
  simp only [List.cons_append, Expression.readFrom, if_neg hstart, if_neg hfinish, hread,
    List.drop_left, if_neg hrest, readFrom_append]

/-- A set that has a descending range can not be read. -/
theorem readFrom_atom_eq_none {s : Sign} {rest : List Sign} (hstart : s ≠ .plain '^')
    (hfinish : s ≠ .plain '$') (hread : Atom.read? s rest = none) :
    Expression.readFrom 0 (s :: rest) = none := by
  simp only [Expression.readFrom, if_neg hstart, if_neg hfinish, hread]

/-- The signs of a component behind the start of the text. -/
def signsOf (es : List Element) : List Sign := es.flatMap Element.signs ++ [.plain '$']

theorem signsOf_cons (e : Element) (es : List Element) :
    signsOf (e :: es) = e.signs ++ signsOf es := by
  simp [signsOf]

/-- What is written for a component never starts with a repetition. -/
theorem head?_signsOf (es : List Element) : (signsOf es).head? ≠ some (.plain '*') := by
  cases es with
  | nil => decide
  | cons e es =>
    rw [signsOf_cons]
    cases e with
    | anyText => simp [Element.signs]
    | anyChar => simp [Element.signs]
    | literal c =>
      intro he
      exact sign_ne_plain (by decide) (Option.some.inj he)
    | set negated content => simp [Element.signs]

/-- Whether an element has no descending range. -/
def Element.ascends : Element → Bool
  | .set _ content => Ascending content
  | _ => true

theorem read?_sign (c : Char) (rest : List Sign) :
    Atom.read? (sign c) rest = some (.literal c, 0) := by
  have hoperator : (sign c).isOperator = false := by
    simp only [Sign.isOperator, List.any_eq_false, decide_eq_true_eq]
    intro d hd
    exact sign_ne_plain ((by decide : ['*', '+', '?', '(', ')', '|', '{'] ⊆ Sign.marks) hd)
  have hdot : sign c ≠ .plain '.' := sign_ne_plain (by decide)
  have hopen : sign c ≠ .plain '[' := sign_ne_plain (by decide)
  simp only [Atom.read?, if_neg hdot, if_neg hopen, hoperator, char_sign]
  rfl

/-- The expression of a component, part by part. -/
theorem readFrom_signsOf {es : List Element}
    (hsets : ∀ negated content, .set negated content ∈ es →
      content ≠ [] ∧ ¬ HasDoubleHyphen content) :
    Expression.readFrom 0 (signsOf es) =
      if es.all Element.ascends then some (es.map Element.part ++ [.finish]) else none := by
  induction es with
  | nil => rfl
  | cons e es ih =>
    have hbehind := ih fun negated content hmem => hsets _ _ (List.mem_cons_of_mem e hmem)
    have hhead := head?_signsOf es
    rw [signsOf_cons]
    -- a part is put in front of what the other elements become
    have hcons : ∀ {part : ExpressionPart}, e.ascends = true → e.part = part →
        Expression.readFrom 0 (e.signs ++ signsOf es) =
          (Expression.readFrom 0 (signsOf es)).map (part :: ·) →
        Expression.readFrom 0 (e.signs ++ signsOf es) =
          if (e :: es).all Element.ascends then some ((e :: es).map Element.part ++ [.finish])
          else none := by
      rintro part hasc rfl hread
      rw [hread, hbehind, List.all_cons, hasc, Bool.true_and]
      split
      · rfl
      · rfl
    cases e with
    | anyText => exact hcons rfl rfl rfl
    | anyChar =>
      refine hcons rfl rfl ?_
      exact readFrom_atom [] (by decide) (by decide) rfl hhead
    | literal c =>
      refine hcons rfl rfl ?_
      exact readFrom_atom [] (sign_ne_plain (by decide)) (sign_ne_plain (by decide))
        (read?_sign c _) hhead
    | set negated content =>
      obtain ⟨hfull, hhyphen⟩ := hsets negated content List.mem_cons_self
      have hclass := read?_setSigns negated hfull hhyphen (signsOf es)
      by_cases hasc : Ascending content
      · rw [if_pos hasc] at hclass
        refine hcons (decide_eq_true hasc) rfl ?_
        refine readFrom_atom (Element.setSigns negated content) (by decide) (by decide)
          ?_ hhead
        exact congrArg (Option.map _) hclass
      · rw [if_neg hasc] at hclass
        have hnone : Atom.read? (.plain '[') (Element.setSigns negated content ++ signsOf es) =
            none := congrArg (Option.map _) hclass
        have hfalse : (Element.set negated content).ascends = false := decide_eq_false hasc
        rw [List.all_cons, hfalse, Bool.false_and]
        exact readFrom_atom_eq_none (by decide) (by decide) hnone

/-- The expression of a component, unless a range of a set descends. -/
theorem compile_of_reads {cs : List Char} {es : List Element} (h : Reads cs es)
    (hhyphens : ∀ content, HasSet cs content → ¬ HasDoubleHyphen content) :
    compile cs =
      if es.all Element.ascends then some (.start :: es.map Element.part ++ [.finish])
      else none := by
  have hsets : ∀ negated content, .set negated content ∈ es →
      content ≠ [] ∧ ¬ HasDoubleHyphen content := fun negated content hmem =>
    ⟨content_ne_nil h hmem, hhyphens content ⟨es, negated, h, hmem⟩⟩
  unfold compile Expression.read?
  rw [ofText?_translate h, Option.bind_some]
  show (Expression.readFrom 0 (signsOf es)).map (.start :: ·) = _
  rw [readFrom_signsOf hsets]
  split
  · rfl
  · rfl

/-! ## Descriptions -/

theorem accepts_part_iff {negated : Bool} {content : List Char} {c : Char} :
    (Atom.charClass ⟨negated, ranges content, []⟩).accepts c = true ↔
      (Member content c ↔ negated = false) := by
  have hmember : (ranges content).any (·.has c) = true ↔ Member content c := by
    simp [Member, CharRange.has]
  simp only [Atom.accepts, CharClass.has, List.all_nil, Bool.and_true, ← hmember]
  cases negated with
  | false => simp
  | true => simp

/-- On one line, an element that becomes a part for one character stands for those that the part
accepts. -/
theorem stands_once_iff {e : Element} {es : List Element} {a : Atom} {word : List Char}
    (hpart : e.part = .once a) (hline : '\n' ∉ word) :
    Stands (e :: es) word ↔ ∃ c rest, word = c :: rest ∧ a.accepts c = true ∧ Stands es rest := by
  cases e with
  | anyText => cases hpart
  | anyChar =>
    cases hpart
    constructor
    · intro h
      cases h with
      | anyChar c hrest =>
        have hne : c ≠ '\n' := fun he => hline (he ▸ List.mem_cons_self)
        exact ⟨c, _, rfl, bne_iff_ne.mpr hne, hrest⟩
    · rintro ⟨c, rest, rfl, -, hrest⟩
      exact .anyChar c hrest
  | literal d =>
    cases hpart
    constructor
    · intro h
      cases h with
      | literal _ hrest => exact ⟨d, _, rfl, beq_self_eq_true d, hrest⟩
    · rintro ⟨c, rest, rfl, haccepts, hrest⟩
      obtain rfl : c = d := eq_of_beq haccepts
      exact .literal c hrest
  | set negated content =>
    cases hpart
    constructor
    · intro h
      cases h with
      | set hmember hrest => exact ⟨_, _, rfl, accepts_part_iff.mpr hmember, hrest⟩
    · rintro ⟨c, rest, rfl, haccepts, hrest⟩
      exact .set (accepts_part_iff.mp haccepts) hrest

/-- On one line, the parts of a component stand for what its elements stand for. -/
theorem spans_parts_iff {es : List Element} {before word after : List Char}
    (hline : '\n' ∉ word) :
    Expression.Spans (es.map Element.part ++ [.finish]) before word after ↔
      Stands es word ∧ after = [] := by
  induction es generalizing before word with
  | nil =>
    constructor
    · intro h
      cases h with
      | finish rest => exact ⟨.nil, rfl⟩
    · rintro ⟨⟨⟩, rfl⟩
      exact .finish .nil
  | cons e es ih =>
    -- an element stands for one character, unless it stands for any text
    have hone : ∀ {a : Atom}, e.part = .once a →
        (Expression.Spans ((e :: es).map Element.part ++ [.finish]) before word after ↔
          Stands (e :: es) word ∧ after = []) := by
      intro a hpart
      rw [List.map_cons, List.cons_append, hpart, Expression.spans_once_iff,
        stands_once_iff hpart hline]
      constructor
      · rintro ⟨c, rest, rfl, haccepts, hrest⟩
        obtain ⟨hstands, hafter⟩ := (ih (List.not_mem_of_not_mem_cons hline)).mp hrest
        exact ⟨⟨c, rest, rfl, haccepts, hstands⟩, hafter⟩
      · rintro ⟨⟨c, rest, rfl, haccepts, hstands⟩, hafter⟩
        refine ⟨c, rest, rfl, haccepts, ?_⟩
        exact (ih (List.not_mem_of_not_mem_cons hline)).mpr ⟨hstands, hafter⟩
    cases e with
    | anyText =>
      rw [List.map_cons, List.cons_append, Element.part, Expression.spans_repeated_iff]
      constructor
      · rintro ⟨passed, rest, rfl, -, hrest⟩
        have hrestLine : '\n' ∉ rest := fun hmem => hline (List.mem_append_right _ hmem)
        obtain ⟨hstands, hafter⟩ := (ih hrestLine).mp hrest
        exact ⟨.anyText passed hstands, hafter⟩
      · rintro ⟨hstands, hafter⟩
        cases hstands with
        | @anyText _ rest passed hrest =>
          have hrestLine : '\n' ∉ rest := fun hmem => hline (List.mem_append_right _ hmem)
          refine ⟨passed, rest, rfl, ?_, (ih hrestLine).mpr ⟨hrest, hafter⟩⟩
          intro c hc
          have hne : c ≠ '\n' := fun he => hline (List.mem_append_left _ (he ▸ hc))
          exact bne_iff_ne.mpr hne
    | anyChar | literal | set => exact hone rfl

/-- The expression of a component is found in a line just if the elements stand for it. -/
theorem occursIn_parts_iff {es : List Element} {value : List Char} (hline : '\n' ∉ value) :
    Expression.OccursIn (.start :: es.map Element.part ++ [.finish]) value ↔ Stands es value := by
  constructor
  · rintro ⟨before, rest, rfl, word, after, rfl, hspans⟩
    cases hspans with
    | start hparts =>
      have hword : '\n' ∉ word := fun hmem => hline (by simp [hmem])
      obtain ⟨hstands, rfl⟩ := (spans_parts_iff hword).mp hparts
      simpa using hstands
  · intro hstands
    refine ⟨[], value, rfl, value, [], (List.append_nil value).symm, ?_⟩
    exact .start ((spans_parts_iff hline).mpr ⟨hstands, rfl⟩)

end Glob

namespace Component

theorem ofText?_eq_none_iff {text : String} :
    ofText? text = none ↔ Glob.compile text.toList = none := by
  unfold ofText?
  split
  · rename_i expression h
    simp [h]
  · rename_i h
    simp [h]

/-- A component can be compiled unless a range of a set descends, and then it matches what it
describes. -/
theorem ofText?_describes (text : String)
    (hhyphens : ∀ content, Glob.HasSet text.toList content → ¬ Glob.HasDoubleHyphen content) :
    (ofText? text = none ↔ ∃ content, Glob.HasSet text.toList content ∧
      ∃ r ∈ Glob.ranges content, r.last < r.first) ∧
    ∀ c, ofText? text = some c → ∀ value : String, '\n' ∉ value.toList →
      (c.isMatch value = true ↔ Glob.Describes text.toList value.toList) := by
  obtain ⟨es, hes⟩ := Glob.exists_reads text.toList
  have hcompile := Glob.compile_of_reads hes hhyphens
  constructor
  · rw [ofText?_eq_none_iff, hcompile]
    constructor
    · intro hnone
      have hsome : ∃ e ∈ es, e.ascends = false := by
        simpa using hnone
      obtain ⟨e, he, hdescends⟩ := hsome
      cases e with
      | anyText | anyChar | literal => cases hdescends
      | set negated content =>
        have hnot : ¬ Glob.Ascending content := of_decide_eq_false hdescends
        simp only [Glob.Ascending, not_forall, exists_prop, Char.not_le] at hnot
        exact ⟨content, ⟨es, negated, hes, he⟩, hnot⟩
    · rintro ⟨content, ⟨es', negated, hes', hmem⟩, r, hr, hlt⟩
      obtain rfl := hes.unique hes'
      have hnot : ¬ Glob.Ascending content := fun hasc => Char.not_le.mpr hlt (hasc r hr)
      have hall : es.all Glob.Element.ascends = false :=
        List.all_eq_false.mpr ⟨_, hmem, by simpa [Glob.Element.ascends] using hnot⟩
      rw [hall]
      rfl
  · intro c hc value hline
    have hexpression : Glob.compile text.toList = some c.expression := by
      rw [← text_of_ofText? hc]
      exact c.compiled
    rw [hcompile] at hexpression
    split at hexpression
    · have hfound : c.isMatch value = true ↔ Glob.Stands es value.toList := by
        unfold isMatch
        rw [Expression.isMatch_iff, ← Option.some.inj hexpression]
        exact Glob.occursIn_parts_iff hline
      rw [hfound]
      constructor
      · intro hstands
        exact ⟨es, hes, hstands⟩
      · rintro ⟨es', hes', hstands⟩
        rwa [hes.unique hes']
    · cases hexpression

/-- A component with two sets, of which one is a hyphen, and a bracket that opens no set. -/
def relayText : String := "relay[!0-3]*[-]?[x"

theorem reads_relayText : Glob.Reads relayText.toList
    [.literal 'r', .literal 'e', .literal 'l', .literal 'a', .literal 'y',
      .set true ['0', '-', '3'], .anyText, .set false ['-'], .anyChar, .literal '[',
      .literal 'x'] := by
  have hopen : SetSpan.read? ['x'] = none := rfl
  have hend : Glob.Reads ['[', 'x'] [.literal '[', .literal 'x'] :=
    .bracket (Glob.not_prefix_of_read? hopen)
      (.literal (by decide) (by decide) (by decide) .nil)
  have hhyphen : Glob.Reads "[-]?[x".toList
      [.set false ['-'], .anyChar, .literal '[', .literal 'x'] :=
    .set (.members (by decide) (by decide)) rfl (.anyChar hend)
  have hdigits : Glob.Reads "[!0-3]*[-]?[x".toList
      [.set true ['0', '-', '3'], .anyText, .set false ['-'], .anyChar, .literal '[',
        .literal 'x'] :=
    .set (.complement (by decide)) rfl (.anyText hhyphen)
  exact .literal (by decide) (by decide) (by decide) <|
    .literal (by decide) (by decide) (by decide) <|
    .literal (by decide) (by decide) (by decide) <|
    .literal (by decide) (by decide) (by decide) <|
    .literal (by decide) (by decide) (by decide) hdigits

theorem hyphens_relayText (content : List Char) (h : Glob.HasSet relayText.toList content) :
    ¬ Glob.HasDoubleHyphen content := by
  obtain ⟨es, negated, hes, hmem⟩ := h
  obtain rfl := hes.unique reads_relayText
  simp only [List.mem_cons, reduceCtorEq, Glob.Element.set.injEq, List.not_mem_nil, or_false,
    false_or] at hmem
  unfold Glob.HasDoubleHyphen
  obtain ⟨-, rfl⟩ | ⟨-, rfl⟩ := hmem
  · decide
  · decide

theorem ofText?_describes_relay :
    (∀ content, Glob.HasSet relayText.toList content → ¬ Glob.HasDoubleHyphen content) ∧
    ofText? relayText ≠ none ∧
    Glob.Describes relayText.toList "relay7-west-1[x".toList ∧
    ¬ Glob.Describes relayText.toList "relay2-west-1[x".toList := by
  have hfound : (ofText? relayText).map (·.isMatch "relay7-west-1[x") = some true := by decide
  have hmissed : (ofText? relayText).map (·.isMatch "relay2-west-1[x") = some false := by decide
  obtain ⟨c, hc, htrue⟩ := Option.map_eq_some_iff.mp hfound
  rw [hc] at hmissed
  have hfalse : c.isMatch "relay2-west-1[x" = false := Option.some.inj hmissed
  obtain ⟨-, hdescribes⟩ := ofText?_describes relayText hyphens_relayText
  refine ⟨hyphens_relayText, by simp [hc], ?_, ?_⟩
  · exact (hdescribes c hc _ (by decide)).mp htrue
  · rw [← hdescribes c hc _ (by decide), hfalse]
    exact Bool.false_ne_true

end Component

end BoardFarm
