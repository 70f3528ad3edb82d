import BoardFarm.Proofs.IdentifierText
import Mathlib.Data.List.Induction

/-!
# Spellings of identifiers

An identifier is read from more texts than its own. Its digits may be of either letter case, and
twenty-six digits write two bits more than an identifier has: four numbers are read as the same
identifier, and their texts differ in the first digit by a multiple of eight. A text is that of the
identifier that is read from it, but for letter case, just if its first digit is less than eight.

* `SameButCase`: texts that differ only in the letter case of their digits.
* `Base32.decode_eq_some_iff`: the digits from which a number is read.
* `Identifier.SpelledBy`, `Identifier.parse_eq_ok_iff`: the texts of an identifier.
* `Identifier.sameButCase_text_iff`: which of them are its own text.
-/

namespace BoardFarm

/-- A character takes up one byte if its upper case does. -/
theorem ascii_of_toUpper {c : Char} (h : c.toUpper.val ≤ 127) : c.val ≤ 127 := by
  by_cases hlower : 'a'.val ≤ c.val ∧ c.val ≤ 'z'.val
  · exact UInt32.le_trans hlower.2 (by decide)
  · unfold Char.toUpper at h
    rw [dif_neg hlower] at h
    exact h

/-- Two texts are the same but for the letter case of what follows their first underscore. -/
def SameButCase (s t : String) : Prop :=
  ∃ mark ds es : List Char, '_' ∉ mark ∧ s.toList = mark ++ '_' :: ds ∧
    t.toList = mark ++ '_' :: es ∧ ds.map Char.toUpper = es.map Char.toUpper

theorem SameButCase.map_toUpper {s t : String} (h : SameButCase s t) :
    s.toList.map Char.toUpper = t.toList.map Char.toUpper := by
  obtain ⟨mark, ds, es, _, hs, ht, hcase⟩ := h
  rw [hs, ht, List.map_append, List.map_append, List.map_cons, List.map_cons, hcase]

namespace Base32

theorem toUpper_digit (d : Nat) : (digit d).toUpper = digit d := by
  have h : ∀ k : Fin 32, (digit k.val).toUpper = digit k.val := by decide
  have := h ⟨d % 32, Nat.mod_lt _ (by decide)⟩
  simpa [digit] using this

theorem map_toUpper_encode (count n : Nat) :
    (encode count n).map Char.toUpper = encode count n := by
  induction count generalizing n with
  | zero => rfl
  | succ count ih => simp [encode, ih, toUpper_digit]

theorem getElem?_of_position {c : Char} {l : List Char} {i : Nat} (h : position c l = some i) :
    l[i]? = some c := by
  induction l generalizing i with
  | nil => cases h
  | cons a rest ih =>
    rw [position] at h
    split at h
    · rename_i ha
      cases h
      exact congrArg some ha
    · obtain ⟨j, hj, rfl⟩ := Option.map_eq_some_iff.mp h
      exact ih hj

/-- A digit is read from its character, in either letter case, and from no other. -/
theorem digitValue?_eq_some_iff {c : Char} {d : Nat} :
    digitValue? c = some d ↔ d < 32 ∧ c.toUpper = digit d := by
  constructor
  · intro h
    have hget := getElem?_of_position h
    obtain ⟨hd, _⟩ := List.getElem?_eq_some_iff.mp hget
    have hsmall : d < 32 := hd
    refine ⟨hsmall, ?_⟩
    unfold digit
    rw [Nat.mod_eq_of_lt hsmall, List.getD_eq_getElem?_getD, hget]
    rfl
  · rintro ⟨hsmall, hc⟩
    have hread : digitValue? c = digitValue? (digit d) := by
      unfold digitValue?
      rw [hc, toUpper_digit]
    rw [hread, digitValue?_digit, Nat.mod_eq_of_lt hsmall]

theorem digit_mod (n : Nat) : digit (n % 32) = digit n := by
  unfold digit
  rw [Nat.mod_mod]

theorem decode_append_singleton (cs : List Char) (c : Char) :
    decode (cs ++ [c]) = (decode cs).bind (fun n => (digitValue? c).map (n * 32 + ·)) := by
  unfold decode
  rw [decodeFrom_append]
  congr 1
  funext n
  rw [decodeFrom]
  cases digitValue? c <;> rfl

/-- Digits write a number just if, in upper case, they are the digits of that number. -/
theorem decode_eq_some_iff {cs : List Char} {n : Nat} :
    decode cs = some n ↔
      n < 1 <<< (5 * cs.length) ∧ cs.map Char.toUpper = encode cs.length n := by
  -- the last digit is split off, for `encode` writes it last
  induction cs using List.reverseRecOn generalizing n with
  | nil =>
    constructor
    · intro h
      cases h
      exact ⟨by decide, rfl⟩
    · rintro ⟨hfits, _⟩
      have hzero : n < 1 := hfits
      obtain rfl : n = 0 := by omega
      rfl
  | append_singleton cs c ih =>
    have hfits : n < 1 <<< (5 * (cs.length + 1)) ↔ n / 32 < 1 <<< (5 * cs.length) := by
      rw [Nat.mul_succ, Nat.shiftLeft_add]
      omega
    rw [decode_append_singleton, List.length_append, List.length_singleton, encode, List.map_append,
      List.map_singleton, hfits, Option.bind_eq_some_iff]
    constructor
    · rintro ⟨m, hm, hlast⟩
      obtain ⟨d, hd, rfl⟩ := Option.map_eq_some_iff.mp hlast
      obtain ⟨hsmall, hc⟩ := digitValue?_eq_some_iff.mp hd
      have hquot : (m * 32 + d) / 32 = m := by omega
      have hrest : (m * 32 + d) % 32 = d := by omega
      obtain ⟨hm, hfront⟩ := ih.mp hm
      rw [hquot, hfront, ← digit_mod, hrest, hc]
      exact ⟨hm, rfl⟩
    · rintro ⟨hm, hdigits⟩
      obtain ⟨hfront, hlast⟩ := List.append_inj' hdigits rfl
      have hc : c.toUpper = digit (n % 32) := by
        rw [digit_mod]
        exact List.singleton_inj.mp hlast
      refine ⟨n / 32, ih.mpr ⟨hm, hfront⟩, ?_⟩
      rw [digitValue?_eq_some_iff.mpr ⟨Nat.mod_lt _ (by decide), hc⟩, Option.map_some,
        Nat.div_add_mod']

/-- The most significant digit comes first. -/
theorem encode_succ (count n : Nat) :
    encode (count + 1) n = digit (n >>> (5 * count)) :: encode count n := by
  induction count generalizing n with
  | zero => rfl
  | succ count ih =>
    have hlead : (n / 32) >>> (5 * count) = n >>> (5 * (count + 1)) := by
      rw [Nat.mul_succ, Nat.add_comm, Nat.shiftRight_add, Nat.shiftRight_eq_div_pow n 5]
    rw [encode, ih, hlead, List.cons_append, encode]

end Base32

/-! ## Texts of identifiers -/

namespace Identifier

variable {kind : IdKind}

/-- Digits in either case take up one byte each. -/
theorem size_of_encode {ds : List Char} {count n : Nat}
    (h : ds.map Char.toUpper = Base32.encode count n) :
    (String.ofList ds).utf8ByteSize = ds.length := by
  have hascii : ∀ c ∈ ds, c.val ≤ 127 := by
    intro c hc
    have hmem : c.toUpper ∈ Base32.encode count n := h ▸ List.mem_map_of_mem hc
    exact ascii_of_toUpper (Base32.encode_ascii _ _ _ hmem)
  rw [utf8ByteSize_eq, bytes_of_ascii hascii, List.length_map]

/-- A number that the digits can write is an identifier with a surplus of two bits. -/
theorem surplus_ofNat (kind : IdKind) {n : Nat} (h : n < 1 <<< (5 * digitCount)) :
    n >>> 128 < 4 ∧ (n >>> 128) <<< 128 + (ofNat kind n).value.val = n := by
  have hwide : n < 1 <<< 130 := h
  have hvalue : (ofNat kind n).value.val = n % 2 ^ 128 := rfl
  omega

theorem ofNat_surplus (id : Identifier kind) (surplus : Nat) :
    ofNat kind (surplus <<< 128 + id.value.val) = id := by
  have hfits := id.value.isLt
  have hvalue : ∀ n, (ofNat kind n).value.val = n % 2 ^ 128 := fun _ => rfl
  refine congrArg Identifier.mk (Fin.ext ((hvalue _).trans ?_))
  omega

/-- With a surplus of two bits an identifier takes up all that its digits can write. -/
theorem surplus_fits (id : Identifier kind) {surplus : Nat} (h : surplus < 4) :
    surplus <<< 128 + id.value.val < 1 <<< (5 * digitCount) := by
  have hfits := id.value.isLt
  have hwide : 1 <<< (5 * digitCount) = 1 <<< 130 := rfl
  omega

/-- Digits are read as an identifier just if they write it with a surplus of two bits. -/
theorem parseDigits_eq_ok_iff {ds : List Char} {id : Identifier kind} :
    parseDigits kind ds = .ok id ↔
      ∃ surplus < 4,
        ds.map Char.toUpper = Base32.encode digitCount (surplus <<< 128 + id.value.val) := by
  constructor
  · intro h
    unfold parseDigits at h
    split at h
    · cases h
    · rename_i hsize
      split at h
      · cases h
      · rename_i n hn
        cases h
        -- the length is checked in bytes, but what has been decoded is ASCII
        obtain ⟨hfits, hdigits⟩ := Base32.decode_eq_some_iff.mp hn
        have hlength : ds.length = digitCount := by
          rw [← size_of_encode hdigits]
          exact not_not.mp hsize
        rw [hlength] at hfits hdigits
        obtain ⟨hsurplus, hnumber⟩ := surplus_ofNat kind hfits
        refine ⟨n >>> 128, hsurplus, ?_⟩
        rw [hnumber]
        exact hdigits
  · rintro ⟨surplus, hsurplus, hdigits⟩
    have hlength : ds.length = digitCount := by
      rw [← List.length_map, hdigits, Base32.length_encode]
    have hread := Base32.decode_eq_some_iff.mpr
      ⟨hlength ▸ id.surplus_fits hsurplus, hlength ▸ hdigits⟩
    have hsize : (String.ofList ds).utf8ByteSize = digitCount :=
      (size_of_encode hdigits).trans hlength
    unfold parseDigits
    rw [if_neg (not_not.mpr hsize), hread]
    exact congrArg Except.ok (id.ofNat_surplus surplus)

/-- The value of the first digit behind the underscore. -/
def leadingDigit (s : String) : Option Nat :=
  (splitAtUnderscore s.toList).bind (fun p => p.2.head?.bind Base32.digitValue?)

theorem leadingDigit_eq {s : String} {mark ds : List Char} (hmark : '_' ∉ mark)
    (hs : s.toList = mark ++ '_' :: ds) :
    leadingDigit s = (ds.map Char.toUpper).head?.bind (Base32.position · Base32.alphabet) := by
  unfold leadingDigit
  rw [hs, splitAtUnderscore_append hmark]
  cases ds <;> rfl

end Identifier

/-- The text of a number, written like an identifier. -/
def IdKind.numeral (kind : IdKind) (n : Nat) : String :=
  kind.mark ++ "_" ++ String.ofList (Base32.encode Identifier.digitCount n)

namespace Identifier

variable {kind : IdKind} {id : Identifier kind} {surplus : Nat} {s t : String}

/-- But for letter case, a text is that of an identifier with a surplus in front of its bits. -/
def SpelledBy (id : Identifier kind) (surplus : Nat) (s : String) : Prop :=
  SameButCase s (kind.numeral (surplus <<< 128 + id.value.val))

theorem spelledBy_zero_iff : id.SpelledBy 0 s ↔ SameButCase s id.text := by
  unfold SpelledBy
  rw [Nat.zero_shiftLeft, Nat.zero_add]
  rfl

theorem spelledBy_iff :
    id.SpelledBy surplus s ↔ ∃ ds, s.toList = kind.mark.toList ++ '_' :: ds ∧
      ds.map Char.toUpper = Base32.encode digitCount (surplus <<< 128 + id.value.val) := by
  have htext : (kind.numeral (surplus <<< 128 + id.value.val)).toList =
      kind.mark.toList ++ '_' :: Base32.encode digitCount (surplus <<< 128 + id.value.val) := by
    simp [IdKind.numeral]
  constructor
  · rintro ⟨mark, ds, es, hmark, hs, ht, hcase⟩
    have hsplit := splitAtUnderscore_append hmark es
    rw [← ht, htext, splitAtUnderscore_append (underscore_notMem_mark kind)] at hsplit
    cases hsplit
    exact ⟨ds, hs, hcase.trans (Base32.map_toUpper_encode _ _)⟩
  · rintro ⟨ds, hs, hdigits⟩
    exact ⟨_, ds, _, underscore_notMem_mark kind, hs, htext,
      hdigits.trans (Base32.map_toUpper_encode _ _).symm⟩

/-- A text is read as an identifier just if it spells it with a surplus of two bits. -/
theorem parse_eq_ok_iff : parse kind s = .ok id ↔ ∃ surplus < 4, id.SpelledBy surplus s := by
  rw [parse_ok_iff_parseDigits]
  constructor
  · rintro ⟨ds, hs, hread⟩
    obtain ⟨surplus, hsurplus, hdigits⟩ := parseDigits_eq_ok_iff.mp hread
    exact ⟨surplus, hsurplus, spelledBy_iff.mpr ⟨ds, hs, hdigits⟩⟩
  · rintro ⟨surplus, hsurplus, hspelled⟩
    obtain ⟨ds, hs, hdigits⟩ := spelledBy_iff.mp hspelled
    exact ⟨ds, hs, parseDigits_eq_ok_iff.mpr ⟨surplus, hsurplus, hdigits⟩⟩

/-- The two bits of a surplus are the most significant ones of the first digit. -/
theorem SpelledBy.leadingDigit (h : id.SpelledBy surplus s) (hsurplus : surplus < 4) :
    leadingDigit s = some (8 * surplus + id.value.val >>> 125) := by
  obtain ⟨ds, hs, hdigits⟩ := spelledBy_iff.mp h
  have hlead : (surplus <<< 128 + id.value.val) >>> (5 * 25) =
      8 * surplus + id.value.val >>> 125 := by
    omega
  have hsmall : 8 * surplus + id.value.val >>> 125 < 32 := by
    have hfits := id.value.isLt
    omega
  have hread := Base32.digitValue?_digit (8 * surplus + id.value.val >>> 125)
  unfold Base32.digitValue? at hread
  rw [Base32.toUpper_digit, Nat.mod_eq_of_lt hsmall] at hread
  rw [leadingDigit_eq (underscore_notMem_mark kind) hs, hdigits]
  unfold digitCount
  rw [Base32.encode_succ, hlead]
  exact hread

theorem leadingDigit_eq_of_sameButCase (h : SameButCase s t) : leadingDigit s = leadingDigit t := by
  obtain ⟨mark, ds, es, hmark, hs, ht, hcase⟩ := h
  rw [leadingDigit_eq hmark hs, leadingDigit_eq hmark ht, hcase]

theorem SpelledBy.sameButCase (hs : id.SpelledBy surplus s) (ht : id.SpelledBy surplus t) :
    SameButCase s t := by
  obtain ⟨ds, hds, hdigits⟩ := spelledBy_iff.mp hs
  obtain ⟨es, hes, hdigits'⟩ := spelledBy_iff.mp ht
  exact ⟨_, ds, es, underscore_notMem_mark kind, hds, hes, hdigits.trans hdigits'.symm⟩

/-- Texts that are read as one identifier are the same but for letter case just if their first
digits are. -/
theorem sameButCase_iff (hs : parse kind s = .ok id) (ht : parse kind t = .ok id) :
    SameButCase s t ↔ leadingDigit s = leadingDigit t := by
  refine ⟨leadingDigit_eq_of_sameButCase, fun hlead => ?_⟩
  obtain ⟨surplus, hsurplus, hspelled⟩ := parse_eq_ok_iff.mp hs
  obtain ⟨surplus', hsurplus', hspelled'⟩ := parse_eq_ok_iff.mp ht
  rw [hspelled.leadingDigit hsurplus, hspelled'.leadingDigit hsurplus'] at hlead
  have hvalue := Option.some.inj hlead
  obtain rfl : surplus = surplus' := by omega
  exact hspelled.sameButCase hspelled'

/-- What is read from a text is written as this text, but for letter case, just if its first digit
is less than eight. -/
theorem sameButCase_text_iff (h : parse kind s = .ok id) :
    SameButCase s id.text ↔ ∃ d < 8, leadingDigit s = some d := by
  obtain ⟨surplus, hsurplus, hspelled⟩ := parse_eq_ok_iff.mp h
  have hlead := hspelled.leadingDigit hsurplus
  have hfits := id.value.isLt
  have hsmall : id.value.val >>> 125 < 8 := by omega
  rw [← spelledBy_zero_iff]
  constructor
  · intro hplain
    exact ⟨_, by omega, hplain.leadingDigit (by decide)⟩
  · rintro ⟨d, hd, he⟩
    rw [hlead] at he
    have hvalue := Option.some.inj he
    obtain rfl : surplus = 0 := by omega
    exact hspelled

end Identifier

end BoardFarm
