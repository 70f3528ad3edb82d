import BoardFarm.Identifier
import Mathlib.Data.List.Basic

/-!
# Identifiers as text

The digits of base 32 increase with their values, byte for byte, and numbers of one length are
written with the more significant digits first. So an identifier is read back from its text, and
identifiers of one kind are ordered like the bytes of their texts.

* `Base32.decode_encode`: numbers that fit are read back.
* `Base32.codes_lt`: smaller numbers are written with smaller bytes.
* `Identifier.text_faithful`: reading what has been written, and the order of texts.
-/

namespace BoardFarm

/-- The bytes of a text in UTF-8. -/
def bytes (s : String) : List UInt8 := s.toByteArray.data.toList

/-- The byte of a character that takes up one byte. -/
def code (c : Char) : UInt8 := c.val.toUInt8

theorem bytes_of_ascii {cs : List Char} (h : ∀ c ∈ cs, c.val ≤ 127) :
    bytes (String.ofList cs) = cs.map code := by
  unfold bytes
  rw [String.toByteArray_ofList]
  show (cs.flatMap String.utf8EncodeChar).toByteArray.data.toList = _
  rw [List.toList_data_toByteArray]
  induction cs with
  | nil => rfl
  | cons c cs ih =>
    obtain ⟨hc, hcs⟩ := List.forall_mem_cons.mp h
    have hone : String.utf8EncodeChar c = [code c] :=
      String.utf8EncodeChar_eq_singleton (Char.utf8Size_eq_one_iff.mpr hc)
    rw [List.flatMap_cons, ih hcs, hone]
    rfl

theorem bytes_append (s t : String) : bytes (s ++ t) = bytes s ++ bytes t := by
  unfold bytes
  rw [String.toByteArray_append]
  simp

theorem utf8ByteSize_eq (s : String) : s.utf8ByteSize = (bytes s).length := by
  unfold bytes
  rw [← String.size_toByteArray, Array.length_toList]
  rfl

/-- Of lists of one length, the order is decided where they differ first. -/
theorem append_lt_append {α : Type} [LT α] {xs ys : List α} (h : xs < ys)
    (hlength : xs.length = ys.length) (zs ws : List α) : xs ++ zs < ys ++ ws := by
  induction xs generalizing ys with
  | nil =>
    obtain rfl := List.length_eq_zero_iff.mp hlength.symm
    exact absurd h (List.not_lt_nil [])
  | cons x xs ih =>
    cases ys with
    | nil => cases hlength
    | cons y ys =>
      rcases List.cons_lt_cons_iff.mp h with hlt | ⟨rfl, hrest⟩
      · exact List.cons_lt_cons_iff.mpr (.inl hlt)
      · exact List.cons_lt_cons_iff.mpr (.inr ⟨rfl, ih hrest (Nat.succ.inj hlength)⟩)

namespace Base32

theorem digit_ascii (d : Nat) : (digit d).val ≤ 127 := by
  have h : ∀ k : Fin 32, (digit k.val).val ≤ 127 := by decide
  have := h ⟨d % 32, Nat.mod_lt _ (by decide)⟩
  simpa [digit] using this

theorem code_digit_lt {d e : Nat} (h : d % 32 < e % 32) : code (digit d) < code (digit e) := by
  have hall : ∀ j k : Fin 32, j < k → code (digit j.val) < code (digit k.val) := by decide
  have := hall ⟨d % 32, Nat.mod_lt _ (by decide)⟩ ⟨e % 32, Nat.mod_lt _ (by decide)⟩ h
  simpa [digit] using this

theorem encode_ascii (count n : Nat) : ∀ c ∈ encode count n, c.val ≤ 127 := by
  induction count generalizing n with
  | zero => exact fun c hc => absurd hc List.not_mem_nil
  | succ count ih =>
    intro c hc
    rcases List.mem_append.mp hc with hfront | hlast
    · exact ih _ c hfront
    · rw [List.mem_singleton.mp hlast]
      exact digit_ascii n

theorem decodeFrom_append (read : Nat) (cs ds : List Char) :
    decodeFrom read (cs ++ ds) = (decodeFrom read cs).bind (decodeFrom · ds) := by
  induction cs generalizing read with
  | nil => rfl
  | cons c cs ih =>
    rw [List.cons_append, decodeFrom, decodeFrom]
    cases digitValue? c with
    | none => rfl
    | some d => exact ih _

/-- Numbers that fit are read back from their digits. -/
theorem decode_encode {count n : Nat} (h : n < 1 <<< (5 * count)) :
    decode (encode count n) = some n := by
  induction count generalizing n with
  | zero =>
    have hzero : n < 1 := h
    obtain rfl : n = 0 := by omega
    rfl
  | succ count ih =>
    rw [Nat.mul_succ, Nat.shiftLeft_add] at h
    have hfront := ih (n := n / 32) (Nat.div_lt_of_lt_mul (by omega))
    unfold decode at hfront ⊢
    rw [encode, decodeFrom_append, hfront, Option.bind_some, decodeFrom, digitValue?_digit]
    show some (n / 32 * 32 + n % 32) = some n
    rw [Nat.div_add_mod' n 32]

/-- Smaller numbers are written with smaller bytes. -/
theorem codes_lt {count n m : Nat} (hm : m < 1 <<< (5 * count)) (h : n < m) :
    (encode count n).map code < (encode count m).map code := by
  induction count generalizing n m with
  | zero =>
    have hzero : m < 1 := hm
    omega
  | succ count ih =>
    rw [Nat.mul_succ, Nat.shiftLeft_add] at hm
    rw [encode, encode, List.map_append, List.map_append]
    by_cases hfront : n / 32 < m / 32
    · refine append_lt_append (ih (Nat.div_lt_of_lt_mul (by omega)) hfront) ?_ _ _
      rw [List.length_map, List.length_map, length_encode, length_encode]
    · -- the same leading digits, so the last one decides
      have hquot : n / 32 = m / 32 := by omega
      have hlast : n % 32 < m % 32 := by omega
      rw [hquot]
      exact List.append_left_lt (List.cons_lt_cons_iff.mpr (.inl (code_digit_lt hlast)))

end Base32

namespace Identifier

/-- A text without an underscore, one, and a rest are taken apart again. -/
theorem splitAtUnderscore_append {mark : List Char} (h : '_' ∉ mark) (rest : List Char) :
    splitAtUnderscore (mark ++ '_' :: rest) = some (mark, rest) := by
  induction mark with
  | nil => rfl
  | cons c mark ih =>
    obtain ⟨hc, hmark⟩ := not_or.mp (mt List.mem_cons.mpr h)
    rw [List.cons_append, splitAtUnderscore, if_neg (Ne.symm hc), ih hmark]
    rfl

theorem toList_of_splitAtUnderscore {cs mark rest : List Char}
    (h : splitAtUnderscore cs = some (mark, rest)) : cs = mark ++ '_' :: rest := by
  induction cs generalizing mark with
  | nil => cases h
  | cons c cs ih =>
    rw [splitAtUnderscore] at h
    split at h
    · rename_i hc
      cases h
      rw [hc, List.nil_append]
    · obtain ⟨⟨front, back⟩, hsplit, he⟩ := Option.map_eq_some_iff.mp h
      cases he
      rw [ih hsplit, List.cons_append]

theorem isEmpty_of_toList {s : String} {mark rest : List Char}
    (h : s.toList = mark ++ '_' :: rest) : s.isEmpty = false := by
  rw [Bool.eq_false_iff, ne_eq, String.isEmpty_iff, ← String.toList_eq_nil_iff, h]
  exact List.append_ne_nil_of_right_ne_nil _ (List.cons_ne_nil _ _)

theorem underscore_notMem_mark (kind : IdKind) : '_' ∉ kind.mark.toList := by
  cases kind <;> decide

theorem mark_inj {kind other : IdKind} (h : kind.mark = other.mark) : kind = other := by
  revert h
  cases kind <;> cases other <;> decide

variable {kind : IdKind}

/-- An identifier has fewer values than its digits could write. -/
theorem value_fits (id : Identifier kind) : id.value.val < 1 <<< (5 * digitCount) :=
  Nat.lt_trans id.value.isLt (by decide)

/-- The low bits of an identifier are all of it. -/
theorem ofNat_value (id : Identifier kind) : ofNat kind id.value.val = id :=
  congrArg Identifier.mk (Fin.ext (Nat.mod_eq_of_lt id.value.isLt))

theorem toList_text (id : Identifier kind) :
    id.text.toList = kind.mark.toList ++ '_' :: Base32.encode digitCount id.value.val := by
  simp [text]

/-- The bytes of a text begin with those of the mark and the underscore. -/
theorem bytes_text (id : Identifier kind) :
    bytes id.text
      = bytes (kind.mark ++ "_") ++ (Base32.encode digitCount id.value.val).map code := by
  unfold text
  rw [bytes_append, bytes_of_ascii (Base32.encode_ascii _ _)]

theorem parseDigits_encode (id : Identifier kind) :
    parseDigits kind (Base32.encode digitCount id.value.val) = .ok id := by
  have hsize : (String.ofList (Base32.encode digitCount id.value.val)).utf8ByteSize
      = digitCount := by
    rw [utf8ByteSize_eq, bytes_of_ascii (Base32.encode_ascii _ _), List.length_map,
      Base32.length_encode]
  unfold parseDigits
  rw [if_neg (not_not.mpr hsize), Base32.decode_encode id.value_fits]
  show Except.ok (ofNat kind id.value.val) = .ok id
  rw [ofNat_value]

/-- A text is read as an identifier just if what follows the mark is. -/
theorem parse_ok_iff_parseDigits {s : String} {id : Identifier kind} :
    parse kind s = .ok id ↔
      ∃ ds, s.toList = kind.mark.toList ++ '_' :: ds ∧ parseDigits kind ds = .ok id := by
  constructor
  · intro h
    unfold parse at h
    split at h
    · cases h
    · split at h
      · cases h
      · rename_i mark ds hsplit
        split at h
        · cases h
        · rename_i hmark
          split at h
          · cases h
          · rename_i hdigits
            cases h
            rw [← not_not.mp hmark]
            exact ⟨ds, toList_of_splitAtUnderscore hsplit, hdigits⟩
  · rintro ⟨ds, hs, hdigits⟩
    unfold parse
    simp only [isEmpty_of_toList hs, hs, splitAtUnderscore_append (underscore_notMem_mark kind),
      hdigits, ne_eq, not_true_eq_false, Bool.false_eq_true, if_false]

theorem splitAtUnderscore_text (id : Identifier kind) :
    splitAtUnderscore id.text.toList
      = some (kind.mark.toList, Base32.encode digitCount id.value.val) := by
  rw [toList_text, splitAtUnderscore_append (underscore_notMem_mark kind)]

theorem parse_text (id : Identifier kind) : parse kind id.text = .ok id :=
  parse_ok_iff_parseDigits.mpr ⟨_, toList_text id, parseDigits_encode id⟩

/-- The marks are compared before the digits are looked at. -/
theorem parse_text_of_ne {other : IdKind} (h : other ≠ kind) (id : Identifier kind) :
    parse other id.text = .error (.wrongKind other kind.mark) := by
  have hmark : kind.mark.toList ≠ other.mark.toList := fun hsame =>
    h (mark_inj (String.toList_inj.mp hsame)).symm
  unfold parse
  simp only [isEmpty_of_toList (toList_text id), splitAtUnderscore_text, hmark, ne_eq,
    not_false_eq_true, Bool.false_eq_true, if_true, if_false, String.ofList_toList]

theorem bytes_text_lt {a b : Identifier kind} (h : a < b) : bytes a.text < bytes b.text := by
  rw [bytes_text, bytes_text]
  exact List.append_left_lt (Base32.codes_lt b.value_fits h)

/-- The order of the identifiers of a kind is the order of the bytes of their texts. -/
theorem lt_iff_bytes_text_lt {a b : Identifier kind} : a < b ↔ bytes a.text < bytes b.text := by
  refine ⟨bytes_text_lt, fun h => ?_⟩
  rcases Nat.lt_trichotomy a.value.val b.value.val with hlt | heq | hgt
  · exact hlt
  · have hab : a = b := by
      cases a
      cases b
      exact congrArg Identifier.mk (Fin.ext heq)
    exact absurd (hab ▸ h) (List.lt_irrefl _)
  · exact absurd h (List.lt_asymm (bytes_text_lt hgt))

/-- An identifier is read back from its text as its own kind and refused as any other for its
mark; and identifiers of one kind are ordered like the bytes of their texts. -/
theorem text_faithful (kind : IdKind) :
    (∀ id : Identifier kind,
      parse kind id.text = .ok id ∧
      ∀ other, other ≠ kind → parse other id.text = .error (.wrongKind other kind.mark)) ∧
    ∀ a b : Identifier kind, a < b ↔ bytes a.text < bytes b.text := by
  exact ⟨fun id => ⟨parse_text id, fun _ hother => parse_text_of_ne hother id⟩,
    fun _ _ => lt_iff_bytes_text_lt⟩

/-- A reservation token is not read as the identifier of a session. -/
theorem text_faithful_token :
    IdKind.session ≠ IdKind.reservation ∧
    parse .session (ofNat .reservation 33).text
      = .error (.wrongKind .session (IdKind.mark .reservation)) :=
  ⟨by decide, ((text_faithful .reservation).1 (ofNat .reservation 33)).2 .session (by decide)⟩

end Identifier

end BoardFarm
