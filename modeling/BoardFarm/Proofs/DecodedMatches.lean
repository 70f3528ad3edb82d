import BoardFarm.Proofs.StoredPlaces

/-!
# Decoded matches

A match that is given part by part is decoded through one pattern, the parts joined by slashes.
The parts come back as they are unless one of them has a slash. A match without a name whose
parts have one slash between them is still decoded: the piece behind the slash takes the place
of the next part, and the class that of the name.

* `splitSlashes_join`: a joined text is split into the pieces of its parts.
* `ResourceMatch.parse_eq_ok_iff`: the patterns of a match.
* `ResourceMatch.decoded_views`: what a match becomes, on its own and in a stored place.
-/

namespace BoardFarm

/-! ## Pieces -/

/-- A slash ends the pieces of what is in front of it. -/
theorem splitSlashes_join (l rest : List Char) :
    splitSlashes (l ++ '/' :: rest) = splitSlashes l ++ splitSlashes rest := by
  induction l with
  | nil => rfl
  | cons c l ih =>
    by_cases hc : c = '/'
    · simp [splitSlashes, hc, ih]
    · obtain ⟨part, parts, hsplit⟩ := List.exists_cons_of_ne_nil (splitSlashes_ne_nil l)
      simp [splitSlashes, hc, ih, hsplit]

theorem splitSlashes_of_not_mem {l : List Char} (h : '/' ∉ l) : splitSlashes l = [l] := by
  induction l with
  | nil => rfl
  | cons c l ih =>
    obtain ⟨hc, hl⟩ := not_or.mp (mt List.mem_cons.mpr h)
    simp [splitSlashes, Ne.symm hc, ih hl]

theorem not_mem_of_mem_splitSlashes {l part : List Char} (h : part ∈ splitSlashes l) :
    '/' ∉ part := by
  induction l generalizing part with
  | nil =>
    rw [List.mem_singleton.mp h]
    exact List.not_mem_nil
  | cons c l ih =>
    obtain ⟨first, parts, hsplit⟩ := List.exists_cons_of_ne_nil (splitSlashes_ne_nil l)
    rw [hsplit] at ih
    unfold splitSlashes at h
    rw [hsplit] at h
    split at h
    · rcases List.mem_cons.mp h with rfl | hrest
      · exact List.not_mem_nil
      · exact ih hrest
    · rename_i hc
      rcases List.mem_cons.mp h with rfl | hrest
      · intro hmem
        rcases List.mem_cons.mp hmem with he | hmem
        · exact hc he.symm
        · exact ih List.mem_cons_self hmem
      · exact ih (List.mem_cons_of_mem first hrest)

/-- The pieces of parts that have no slash are the parts. -/
theorem splitSlashes_intercalate {parts : List (List Char)} (hparts : parts ≠ [])
    (h : ∀ part ∈ parts, '/' ∉ part) : splitSlashes (['/'].intercalate parts) = parts := by
  induction parts with
  | nil => exact absurd rfl hparts
  | cons part parts ih =>
    obtain ⟨hpart, hrest⟩ := List.forall_mem_cons.mp h
    cases parts with
    | nil => simpa [List.intercalate] using splitSlashes_of_not_mem hpart
    | cons next more =>
      rw [List.intercalate_cons_cons, List.append_assoc, List.singleton_append,
        splitSlashes_join, splitSlashes_of_not_mem hpart, ih (List.cons_ne_nil next more) hrest]
      rfl

/-- The pieces of a text between its slashes. -/
def pieces (s : String) : List String := (splitSlashes s.toList).map String.ofList

theorem pieces_join (s t : String) : pieces (s ++ "/" ++ t) = pieces s ++ pieces t := by
  have htext : (s ++ "/" ++ t).toList = s.toList ++ '/' :: t.toList := by simp
  rw [pieces, htext, splitSlashes_join, List.map_append]
  rfl

theorem length_pieces_pos (s : String) : 0 < (pieces s).length := by
  rw [pieces, List.length_map]
  exact List.length_pos_iff.mpr (splitSlashes_ne_nil s.toList)

theorem intercalate_pieces (s : String) : "/".intercalate (pieces s) = s := by
  apply String.toList_injective
  rw [String.toList_intercalate]
  simpa [pieces, Function.comp_def] using intercalate_splitSlashes s.toList

theorem pieces_of_length_eq_one {s : String} (h : (pieces s).length = 1) : pieces s = [s] := by
  obtain ⟨x, hx⟩ := List.length_eq_one_iff.mp h
  have hjoin := intercalate_pieces s
  rw [hx] at hjoin
  obtain rfl : x = s := by simpa using hjoin
  exact hx

theorem pieces_of_length_eq_two {s : String} (h : (pieces s).length = 2) :
    ∃ x y, pieces s = [x, y] ∧ s = x ++ "/" ++ y := by
  obtain ⟨x, y, hxy⟩ := List.length_eq_two.mp h
  have hjoin := intercalate_pieces s
  rw [hxy] at hjoin
  exact ⟨x, y, hxy, by simpa using hjoin.symm⟩

theorem three_le_length_pieces (e g c : String) :
    3 ≤ (pieces e ++ pieces g ++ pieces c).length := by
  have he := length_pieces_pos e
  have hg := length_pieces_pos g
  have hc := length_pieces_pos c
  rw [List.length_append, List.length_append]
  omega

/-- Three texts with three pieces have no slash. -/
theorem eq_of_three_pieces {e g c w x y : String}
    (h : pieces e ++ pieces g ++ pieces c = [w, x, y]) : e = w ∧ g = x ∧ c = y := by
  have he := length_pieces_pos e
  have hg := length_pieces_pos g
  have hc := length_pieces_pos c
  have hlength := congrArg List.length h
  simp only [List.length_append, List.length_cons, List.length_nil] at hlength
  rw [pieces_of_length_eq_one (s := e) (by omega), pieces_of_length_eq_one (s := g) (by omega),
    pieces_of_length_eq_one (s := c) (by omega)] at h
  simpa using h

/-- Three texts with four pieces have one slash. -/
theorem eq_of_four_pieces {e g c w x y z : String}
    (h : pieces e ++ pieces g ++ pieces c = [w, x, y, z]) :
    (e = w ++ "/" ++ x ∧ g = y ∧ c = z) ∨ (e = w ∧ g = x ++ "/" ++ y ∧ c = z) ∨
      (e = w ∧ g = x ∧ c = y ++ "/" ++ z) := by
  have he := length_pieces_pos e
  have hg := length_pieces_pos g
  have hc := length_pieces_pos c
  have hlength := congrArg List.length h
  simp only [List.length_append, List.length_cons, List.length_nil] at hlength
  have htwo : ((pieces e).length = 2 ∧ (pieces g).length = 1 ∧ (pieces c).length = 1) ∨
      ((pieces e).length = 1 ∧ (pieces g).length = 2 ∧ (pieces c).length = 1) ∨
      ((pieces e).length = 1 ∧ (pieces g).length = 1 ∧ (pieces c).length = 2) := by omega
  obtain ⟨he, hg, hc⟩ | ⟨he, hg, hc⟩ | ⟨he, hg, hc⟩ := htwo
  · obtain ⟨e₁, e₂, he, rfl⟩ := pieces_of_length_eq_two he
    rw [he, pieces_of_length_eq_one hg, pieces_of_length_eq_one hc] at h
    obtain ⟨rfl, rfl, rfl, rfl⟩ : e₁ = w ∧ e₂ = x ∧ g = y ∧ c = z := by simpa using h
    exact .inl ⟨rfl, rfl, rfl⟩
  · obtain ⟨g₁, g₂, hg, rfl⟩ := pieces_of_length_eq_two hg
    rw [pieces_of_length_eq_one he, hg, pieces_of_length_eq_one hc] at h
    obtain ⟨rfl, rfl, rfl, rfl⟩ : e = w ∧ g₁ = x ∧ g₂ = y ∧ c = z := by simpa using h
    exact .inr (.inl ⟨rfl, rfl, rfl⟩)
  · obtain ⟨c₁, c₂, hc, rfl⟩ := pieces_of_length_eq_two hc
    rw [pieces_of_length_eq_one he, pieces_of_length_eq_one hg, hc] at h
    obtain ⟨rfl, rfl, rfl, rfl⟩ : e = w ∧ g = x ∧ c₁ = y ∧ c₂ = z := by simpa using h
    exact .inr (.inr ⟨rfl, rfl, rfl⟩)

/-! ## Patterns of a match -/

namespace Component

theorem ofText?_text (c : Component) : ofText? c.text = some c := by
  unfold ofText?
  split
  · exact congrArg some (ext_text rfl)
  · rename_i h
    rw [c.compiled] at h
    cases h

end Component

namespace ResourceMatch

/-- No part of a match is empty, and none has a slash. -/
def Proper (m : ResourceMatch) : Prop :=
  ∀ part ∈ m.parts, part.isEmpty = false ∧ '/' ∉ part.toList

theorem ofComponents?_parts (m : ResourceMatch) : ofComponents? m.parts m.rename = some m := by
  obtain ⟨e, g, c, name, rename⟩ := m
  cases name with
  | none => simp [ofComponents?, parts, Component.ofText?_text]
  | some n => simp [ofComponents?, parts, Component.ofText?_text]

theorem proper_of_parse {pattern : String} {rename : Option String} {m : ResourceMatch}
    (h : parse pattern rename = .ok m) : m.Proper := by
  unfold parse at h
  dsimp only at h
  split at h
  · cases h
  · split at h
    · cases h
    · rename_i hfull
      split at h
      · rename_i hm
        cases h
        obtain ⟨hparts, -⟩ := ofComponents?_eq_some hm
        intro part hpart
        rw [← hparts] at hpart
        obtain ⟨piece, hpiece, rfl⟩ := List.mem_map.mp hpart
        constructor
        · have hne : piece.isEmpty = false := by
            simpa using fun he => hfull (List.any_eq_true.mpr ⟨piece, hpiece, he⟩)
          simpa using hne
        · rw [String.toList_ofList]
          exact not_mem_of_mem_splitSlashes hpiece
      · cases h

theorem splitSlashes_text {m : ResourceMatch} (h : m.Proper) :
    splitSlashes m.text.toList = m.parts.map String.toList := by
  rw [toList_text]
  refine splitSlashes_intercalate (by simp [parts]) ?_
  intro part hpart
  obtain ⟨text, htext, rfl⟩ := List.mem_map.mp hpart
  exact (h text htext).2

/-- A pattern is that of a match just if it is the text of the match. -/
theorem parse_eq_ok_iff {pattern : String} {rename : Option String} {m : ResourceMatch} :
    parse pattern rename = .ok m ↔
      m.Proper ∧ m.text = pattern ∧ m.rename = nonEmpty? rename := by
  constructor
  · intro h
    exact ⟨proper_of_parse h, parse_ok h⟩
  · rintro ⟨hproper, rfl, hrename⟩
    have hsplit := splitSlashes_text hproper
    have hlength : ¬ ((m.parts.map String.toList).length ≠ 3 ∧
        (m.parts.map String.toList).length ≠ 4) := by
      cases hname : m.name <;> simp [parts, hname]
    have hfull : (m.parts.map String.toList).any (·.isEmpty) = false := by
      rw [List.any_eq_false]
      intro part hpart
      obtain ⟨text, htext, rfl⟩ := List.mem_map.mp hpart
      simpa using (hproper text htext).1
    have htexts : (m.parts.map String.toList).map String.ofList = m.parts := by simp
    unfold parse
    simp only [hsplit, if_neg hlength, hfull, htexts, ← hrename, ofComponents?_parts]
    rfl

end ResourceMatch

/-! ## Decoding -/

namespace MatchView

/-- What decoding is meant to give: the same parts, and an empty client name as none. -/
def kept (v : MatchView) : MatchView := { v with rename := nonEmpty? v.rename }

/-- The parts of a match without a name, and what they become where one of them has a slash: the
piece behind it takes the place of the next part. -/
inductive Shifted : MatchView → MatchView → Prop where
  | exporter (e f g c : String) (rename : Option String) :
      Shifted ⟨e ++ "/" ++ f, g, c, none, rename⟩ ⟨e, f, g, some c, nonEmpty? rename⟩
  | group (e g h c : String) (rename : Option String) :
      Shifted ⟨e, g ++ "/" ++ h, c, none, rename⟩ ⟨e, g, h, some c, nonEmpty? rename⟩
  | cls (e g c n : String) (rename : Option String) :
      Shifted ⟨e, g, c ++ "/" ++ n, none, rename⟩ ⟨e, g, c, some n, nonEmpty? rename⟩

theorem Shifted.pattern {v w : MatchView} (h : v.Shifted w) : w.pattern = v.pattern := by
  cases h with
  | exporter | group | cls => simp [MatchView.pattern, String.append_assoc]

theorem Shifted.rename {v w : MatchView} (h : v.Shifted w) : w.rename = nonEmpty? v.rename := by
  cases h with
  | exporter | group | cls => rfl

/-- A shifted match has a name, which the given one has not. -/
theorem Shifted.name {v w : MatchView} (h : v.Shifted w) : v.name = none ∧ w.name ≠ none := by
  cases h with
  | exporter | group | cls => exact ⟨rfl, Option.some_ne_none _⟩

theorem not_shifted_kept (v : MatchView) : ¬ v.Shifted v.kept :=
  fun h => h.name.2 h.name.1

theorem pieces_pattern (v : MatchView) : pieces v.pattern =
    pieces v.exporter ++ pieces v.group ++ pieces v.cls ++ (v.name.map pieces).getD [] := by
  cases hname : v.name with
  | none => simp [pattern, hname, pieces_join]
  | some n => simp [pattern, hname, pieces_join]

end MatchView

namespace ResourceMatch

theorem Proper.pieces_text {m : ResourceMatch} (h : m.Proper) : pieces m.text = m.parts := by
  have hsplit := splitSlashes_text h
  rw [pieces, hsplit]
  simp

/-- A match whose text is the pattern of some parts has just these parts, or the parts have one
slash and no name. -/
theorem view_of_text {v : MatchView} {m : ResourceMatch} (h : m.Proper)
    (htext : m.text = v.pattern) (hrename : m.rename = nonEmpty? v.rename) :
    m.view = v.kept ∨ v.Shifted m.view := by
  have hpieces : pieces v.pattern = m.parts := by rw [← htext, h.pieces_text]
  rw [v.pieces_pattern] at hpieces
  obtain ⟨me, mg, mc, mname, mrename⟩ := m
  obtain ⟨e, g, c, name, rename⟩ := v
  obtain rfl : mrename = nonEmpty? rename := hrename
  cases name with
  | none =>
    simp only [Option.map_none, Option.getD_none, List.append_nil] at hpieces
    cases mname with
    | none =>
      obtain ⟨rfl, rfl, rfl⟩ := eq_of_three_pieces hpieces
      exact .inl rfl
    | some n =>
      right
      obtain ⟨rfl, rfl, rfl⟩ | ⟨rfl, rfl, rfl⟩ | ⟨rfl, rfl, rfl⟩ := eq_of_four_pieces hpieces
      · exact .exporter ..
      · exact .group ..
      · exact .cls ..
  | some n =>
    -- with a name there are four parts already, and none is left for a slash
    simp only [Option.map_some, Option.getD_some] at hpieces
    have hlength := congrArg List.length hpieces
    have hfront := three_le_length_pieces e g c
    have hname := length_pieces_pos n
    rw [List.length_append] at hlength
    cases mname with
    | none =>
      have hthree : (parts ⟨me, mg, mc, none, nonEmpty? rename⟩).length = 3 := rfl
      omega
    | some mn =>
      have hfour : (parts ⟨me, mg, mc, some mn, nonEmpty? rename⟩).length = 4 := rfl
      have hthree : (pieces e ++ pieces g ++ pieces c).length =
          [me.text, mg.text, mc.text].length := by
        rw [List.length_cons, List.length_cons, List.length_singleton]
        omega
      obtain ⟨hparts, hlast⟩ := List.append_inj hpieces hthree
      obtain ⟨rfl, rfl, rfl⟩ := eq_of_three_pieces hparts
      have hone : (pieces n).length = 1 := congrArg List.length hlast
      rw [pieces_of_length_eq_one hone] at hlast
      obtain rfl : n = mn.text := List.singleton_inj.mp hlast
      exact .inl rfl

/-- The matches to which parts are decoded. -/
theorem ofView_eq_ok_iff {v : MatchView} {m : ResourceMatch} :
    ofView v = .ok m ↔ m.Proper ∧ (m.view = v.kept ∨ v.Shifted m.view) := by
  unfold ofView
  rw [parse_eq_ok_iff]
  constructor
  · rintro ⟨hproper, htext, hrename⟩
    exact ⟨hproper, view_of_text hproper htext hrename⟩
  · rintro ⟨hproper, hview | hshifted⟩
    · have htext : m.view.pattern = v.kept.pattern := congrArg MatchView.pattern hview
      exact ⟨hproper, htext, congrArg MatchView.rename hview⟩
    · exact ⟨hproper, hshifted.pattern, hshifted.rename⟩

end ResourceMatch

/-! ## Stored matches -/

namespace PlaceDocument

theorem toPatterns_eq_ok_iff {views : List MatchView} {ms : List ResourceMatch} :
    toPatterns views = .ok ms ↔
      List.Forall₂ (fun v m => ResourceMatch.ofView v = .ok m) views ms := by
  induction views generalizing ms with
  | nil =>
    rw [List.forall₂_nil_left_iff]
    exact ⟨fun h => (Except.ok.inj h).symm, fun h => h ▸ rfl⟩
  | cons v rest ih =>
    rw [List.forall₂_cons_left_iff, toPatterns]
    constructor
    · intro h
      split at h
      · cases h
      · rename_i m hm
        split at h
        · cases h
        · rename_i ms' hms
          cases h
          exact ⟨m, ms', hm, ih.mp hms, rfl⟩
    · rintro ⟨m, ms', hm, hms, rfl⟩
      rw [hm, ih.mpr hms]

/-- A stored place is read just if each of its matches is decoded. -/
theorem exists_toPlace_iff {name : String} {d : PlaceDocument} {ms : List ResourceMatch} :
    (∃ p, d.toPlace name = .ok p ∧ p.patterns = ms) ↔
      List.Forall₂ (fun v m => ResourceMatch.ofView v = .ok m) d.patterns ms := by
  rw [← toPatterns_eq_ok_iff]
  unfold toPlace
  constructor
  · rintro ⟨p, hp, rfl⟩
    split at hp
    · cases hp
    · rename_i ms hms
      cases hp
      exact hms
  · intro h
    rw [h]
    exact ⟨_, rfl, rfl⟩

end PlaceDocument

namespace ResourceMatch

/-- Decoding keeps what is given just if the given parts can not be shifted. -/
theorem kept_iff {v : MatchView} :
    (∀ m, ofView v = .ok m → m.view = v.kept) ↔
      ∀ m : ResourceMatch, m.Proper → ¬ v.Shifted m.view := by
  constructor
  · intro hkept m hproper hshifted
    have hview := hkept m (ofView_eq_ok_iff.mpr ⟨hproper, .inr hshifted⟩)
    exact v.not_shifted_kept (hview ▸ hshifted)
  · intro hnot m hm
    obtain ⟨hproper, hview | hshifted⟩ := ofView_eq_ok_iff.mp hm
    · exact hview
    · exact absurd hshifted (hnot m hproper)

/-- On its own and in a stored place, a match is decoded to one with its parts, unless it has no
name and one slash in its parts, when the piece behind the slash moves on to the next part. -/
theorem decoded_views (v : MatchView) (name : String) (d : PlaceDocument) :
    (∀ m, ofView v = .ok m ↔ m.Proper ∧ (m.view = v.kept ∨ v.Shifted m.view)) ∧
    ((∀ m, ofView v = .ok m → m.view = v.kept) ↔
      ∀ m : ResourceMatch, m.Proper → ¬ v.Shifted m.view) ∧
    ∀ ms, (∃ p, d.toPlace name = .ok p ∧ p.patterns = ms) ↔
      List.Forall₂ (fun v m => m.Proper ∧ (m.view = v.kept ∨ v.Shifted m.view)) d.patterns ms := by
  refine ⟨fun _ => ofView_eq_ok_iff, kept_iff, fun ms => ?_⟩
  rw [PlaceDocument.exists_toPlace_iff]
  simp only [ofView_eq_ok_iff]

/-- A match of all network services of a group, at an exporter with a slash in its name. -/
def rackView : MatchView := ⟨"lab/rack", "1", "NetworkService", none, none⟩

def rackDocument : PlaceDocument :=
  ⟨SortedMap.empty, "", SortedMap.empty, [rackView], ⟨0, 0⟩, ⟨0, 0⟩⟩

/-- It is decoded to a match of one resource that is called like the class. -/
theorem decoded_rack :
    (¬ ∀ v m, ofView v = .ok m → m.view = v.kept) ∧
    ¬ ∀ name (d : PlaceDocument) p, d.toPlace name = .ok p →
      p.patterns.map view = d.patterns.map MatchView.kept := by
  have hview : (ofView rackView).map view =
      .ok ⟨"lab", "rack", "1", some "NetworkService", none⟩ := by decide
  have hplace : (rackDocument.toPlace "bench").map (fun p => p.patterns.map view) =
      .ok [⟨"lab", "rack", "1", some "NetworkService", none⟩] := by decide
  constructor
  · intro h
    cases hm : ofView rackView with
    | error e => simp [hm, Except.map] at hview
    | ok m =>
      rw [hm] at hview
      exact absurd ((Except.ok.inj hview).symm.trans (h rackView m hm)) (by decide)
  · intro h
    cases hp : rackDocument.toPlace "bench" with
    | error e => simp [hp, Except.map] at hplace
    | ok p =>
      rw [hp] at hplace
      exact absurd ((Except.ok.inj hplace).symm.trans (h "bench" rackDocument p hp)) (by decide)

end ResourceMatch

end BoardFarm
