import BoardFarm.Order

/-!
# Finite maps with sorted keys

A map is the list of its entries, with strictly increasing keys. Two maps with the same
look-ups are equal, and every traversal runs in key order.

* `SortedMap.get?_insert`, `SortedMap.get?_erase`, `SortedMap.get?_filter`,
  `SortedMap.get?_mapValues`: what each operation does to a look-up.
* `SortedMap.mem_toList_iff`: the entries are exactly the successful look-ups.
* `SortedMap.ext_get?`: extensionality.
* `SortedMap.get?_ofList_iff`: the map of a list without contradictions.
* `SortedMap.Numbered`: maps whose size is the next free key.
-/

namespace BoardFarm

/-- A finite map, held as its entries in strictly increasing order of keys. -/
structure SortedMap (κ ν : Type) [LT κ] where
  /-- The entries in key order. -/
  toList : List (κ × ν)
  sorted : toList.Pairwise (fun a b => a.1 < b.1)

namespace SortedMap

variable {κ ν μ : Type}

/-! ## Operations on entry lists -/

/-- The value of the first entry with key `k`. -/
def lookup [DecidableEq κ] (k : κ) : List (κ × ν) → Option ν
  | [] => none
  | e :: rest => if e.1 = k then some e.2 else lookup k rest

/-- Puts an entry where its key belongs, in place of an entry with the same key. -/
def insertEntry [LT κ] [DecidableLT κ] (k : κ) (v : ν) : List (κ × ν) → List (κ × ν)
  | [] => [(k, v)]
  | e :: rest =>
    if k < e.1 then (k, v) :: e :: rest
    else if e.1 < k then e :: insertEntry k v rest
    else (k, v) :: rest

theorem mem_insertEntry [LT κ] [DecidableLT κ] {k : κ} {v : ν} {l : List (κ × ν)} {e : κ × ν}
    (h : e ∈ insertEntry k v l) : e = (k, v) ∨ e ∈ l := by
  induction l with
  | nil => simpa [insertEntry] using h
  | cons d rest ih =>
    simp only [insertEntry] at h
    split at h
    · simpa using h
    · split at h
      · rcases List.mem_cons.mp h with rfl | h
        · simp
        · rcases ih h with rfl | h
          · simp
          · simp [h]
      · rcases List.mem_cons.mp h with rfl | h
        · simp
        · simp [h]

theorem insertEntry_sorted [LT κ] [DecidableLT κ] [KeyOrder κ] (k : κ) (v : ν)
    {l : List (κ × ν)} (h : l.Pairwise (fun a b => a.1 < b.1)) :
    (insertEntry k v l).Pairwise (fun a b => a.1 < b.1) := by
  induction l with
  | nil => simp [insertEntry]
  | cons e rest ih =>
    obtain ⟨he, hr⟩ := List.pairwise_cons.mp h
    simp only [insertEntry]
    split
    · rename_i hk
      refine List.pairwise_cons.mpr ⟨?_, h⟩
      intro a ha
      rcases List.mem_cons.mp ha with rfl | ha
      · exact hk
      · exact KeyOrder.trans hk (he a ha)
    · split
      · rename_i hk
        refine List.pairwise_cons.mpr ⟨?_, ih hr⟩
        intro a ha
        rcases mem_insertEntry ha with rfl | ha
        · exact hk
        · exact he a ha
      · rename_i h₁ h₂
        have hke : k = e.1 := KeyOrder.connected h₁ h₂
        refine List.pairwise_cons.mpr ⟨?_, hr⟩
        intro a ha
        rw [hke]
        exact he a ha

theorem lookup_insertEntry [DecidableEq κ] [LT κ] [DecidableLT κ] [KeyOrder κ] (k k' : κ) (v : ν)
    (l : List (κ × ν)) :
    lookup k' (insertEntry k v l) = if k = k' then some v else lookup k' l := by
  induction l with
  | nil => rfl
  | cons e rest ih =>
    simp only [insertEntry]
    split
    · rfl
    · rename_i h₁
      split
      · rename_i h₂
        simp only [lookup, ih]
        by_cases he : e.1 = k'
        · have hk : k ≠ k' := fun hk => KeyOrder.irrefl e.1 (by rw [hk, ← he] at h₂; exact h₂)
          simp [he, hk]
        · simp [he]
      · rename_i h₂
        have hke : k = e.1 := KeyOrder.connected h₁ h₂
        simp only [lookup, ← hke]
        by_cases hk : k = k' <;> simp [hk]

theorem mem_of_lookup [DecidableEq κ] {k : κ} {v : ν} {l : List (κ × ν)}
    (h : lookup k l = some v) : (k, v) ∈ l := by
  induction l with
  | nil => simp [lookup] at h
  | cons e rest ih =>
    simp only [lookup] at h
    split at h
    · rename_i he
      simp only [Option.some.injEq] at h
      obtain ⟨a, b⟩ := e
      simp_all
    · exact List.mem_cons_of_mem _ (ih h)

theorem lookup_of_mem [DecidableEq κ] [LT κ] [KeyOrder κ] {k : κ} {v : ν} {l : List (κ × ν)}
    (hs : l.Pairwise (fun a b => a.1 < b.1)) (h : (k, v) ∈ l) : lookup k l = some v := by
  induction l with
  | nil => simp at h
  | cons e rest ih =>
    obtain ⟨he, hr⟩ := List.pairwise_cons.mp hs
    simp only [lookup]
    rcases List.mem_cons.mp h with rfl | h
    · simp
    · rw [if_neg (KeyOrder.ne_of_lt (he _ h))]
      exact ih hr h

theorem lookup_map [DecidableEq κ] (f : κ → ν → μ) (k : κ) (l : List (κ × ν)) :
    lookup k (l.map (fun e => (e.1, f e.1 e.2))) = (lookup k l).map (f k) := by
  induction l with
  | nil => rfl
  | cons e rest ih =>
    simp only [List.map_cons, lookup, ih]
    by_cases h : e.1 = k
    · subst h
      simp
    · simp [h]

/-! ## Operations on maps -/

variable [LT κ]

instance [DecidableEq κ] [DecidableEq ν] : DecidableEq (SortedMap κ ν) := fun a b =>
  if h : a.toList = b.toList then
    isTrue (by cases a; cases b; simp_all)
  else
    isFalse (fun he => h (by rw [he]))

instance [Repr κ] [Repr ν] : Repr (SortedMap κ ν) where
  reprPrec m n := reprPrec m.toList n

def empty : SortedMap κ ν := ⟨[], List.Pairwise.nil⟩

instance : EmptyCollection (SortedMap κ ν) := ⟨empty⟩

instance : Inhabited (SortedMap κ ν) := ⟨empty⟩

/-- The value stored under a key. -/
def get? [DecidableEq κ] (m : SortedMap κ ν) (k : κ) : Option ν := lookup k m.toList

/-- Whether a key has a value. -/
def contains [DecidableEq κ] (m : SortedMap κ ν) (k : κ) : Bool := (m.get? k).isSome

/-- Stores a value under a key, replacing the value it had. -/
def insert [DecidableLT κ] [KeyOrder κ] (m : SortedMap κ ν) (k : κ) (v : ν) : SortedMap κ ν :=
  ⟨insertEntry k v m.toList, insertEntry_sorted k v m.sorted⟩

/-- The map of the entries that satisfy a test. -/
def filter (m : SortedMap κ ν) (p : κ → ν → Bool) : SortedMap κ ν :=
  ⟨m.toList.filter (fun e => p e.1 e.2), m.sorted.filter _⟩

/-- The map without the entry of a key. -/
def erase [DecidableEq κ] (m : SortedMap κ ν) (k : κ) : SortedMap κ ν :=
  m.filter (fun k' _ => k' ≠ k)

/-- Applies a function to every value. -/
def mapValues (m : SortedMap κ ν) (f : κ → ν → μ) : SortedMap κ μ :=
  ⟨m.toList.map (fun e => (e.1, f e.1 e.2)), List.pairwise_map.mpr m.sorted⟩

/-- Applies a function to the value of one key. -/
def modify [DecidableEq κ] (m : SortedMap κ ν) (k : κ) (f : ν → ν) : SortedMap κ ν :=
  m.mapValues (fun k' v => if k' = k then f v else v)

def keys (m : SortedMap κ ν) : List κ := m.toList.map (·.1)

/-- The values in the order of their keys. -/
def values (m : SortedMap κ ν) : List ν := m.toList.map (·.2)

def size (m : SortedMap κ ν) : Nat := m.toList.length

def isEmpty (m : SortedMap κ ν) : Bool := m.toList.isEmpty

/-- The map of a list of entries; of two entries with one key the later counts. -/
def ofList [DecidableLT κ] [KeyOrder κ] (l : List (κ × ν)) : SortedMap κ ν :=
  l.foldl (fun m e => m.insert e.1 e.2) empty

/-- Applies a function that may fail to the values of a list of entries, in order. -/
def checkEntries {ε : Type} (f : κ → ν → Except ε μ) : List (κ × ν) → Except ε (List (κ × μ))
  | [] => .ok []
  | (k, v) :: rest =>
    match f k v with
    | .error e => .error e
    | .ok w =>
      match checkEntries f rest with
      | .error e => .error e
      | .ok ws => .ok ((k, w) :: ws)

/-- Applies a function that may fail to every value; the first error is reported. -/
def checkValues {ε : Type} [DecidableLT κ] [KeyOrder κ] (f : κ → ν → Except ε μ)
    (m : SortedMap κ ν) : Except ε (SortedMap κ μ) :=
  (checkEntries f m.toList).map ofList

/-! ## Look-ups -/

theorem ext_toList {a b : SortedMap κ ν} (h : a.toList = b.toList) : a = b := by
  cases a
  cases b
  simp_all

@[simp] theorem get?_empty [DecidableEq κ] (k : κ) : (empty : SortedMap κ ν).get? k = none := rfl

@[simp] theorem toList_empty : (empty : SortedMap κ ν).toList = [] := rfl

theorem get?_insert [DecidableEq κ] [DecidableLT κ] [KeyOrder κ] (m : SortedMap κ ν) (k k' : κ)
    (v : ν) : (m.insert k v).get? k' = if k = k' then some v else m.get? k' :=
  lookup_insertEntry k k' v m.toList

theorem get?_insert_eq_some_iff [DecidableEq κ] [DecidableLT κ] [KeyOrder κ] {m : SortedMap κ ν}
    {k k' : κ} {v w : ν} :
    (m.insert k v).get? k' = some w ↔ k' = k ∧ w = v ∨ k' ≠ k ∧ m.get? k' = some w := by
  rw [get?_insert]
  by_cases h : k' = k
  · subst h
    simp [eq_comm]
  · have h' : ¬ k = k' := fun he => h he.symm
    simp [h, h']

theorem mem_toList_iff [DecidableEq κ] [KeyOrder κ] {m : SortedMap κ ν} {k : κ} {v : ν} :
    (k, v) ∈ m.toList ↔ m.get? k = some v :=
  ⟨fun h => lookup_of_mem m.sorted h, fun h => mem_of_lookup h⟩

theorem get?_filter [DecidableEq κ] [KeyOrder κ] (m : SortedMap κ ν) (p : κ → ν → Bool) (k : κ) :
    (m.filter p).get? k = (m.get? k).filter (p k) := by
  apply Option.ext
  intro v
  rw [← mem_toList_iff, Option.filter_eq_some_iff, ← mem_toList_iff]
  simp [filter, List.mem_filter]

theorem get?_erase [DecidableEq κ] [KeyOrder κ] (m : SortedMap κ ν) (k k' : κ) :
    (m.erase k).get? k' = if k = k' then none else m.get? k' := by
  rw [erase, get?_filter]
  by_cases h : k = k'
  · subst h
    cases m.get? k <;> simp [Option.filter]
  · have h' : ¬ k' = k := fun he => h he.symm
    cases m.get? k' <;> simp [Option.filter, h, h']

theorem get?_erase_eq_some_iff [DecidableEq κ] [KeyOrder κ] {m : SortedMap κ ν} {k k' : κ}
    {v : ν} : (m.erase k).get? k' = some v ↔ k' ≠ k ∧ m.get? k' = some v := by
  rw [get?_erase]
  by_cases h : k' = k
  · subst h
    simp
  · have h' : ¬ k = k' := fun he => h he.symm
    simp [h, h']

theorem get?_mapValues [DecidableEq κ] (m : SortedMap κ ν) (f : κ → ν → μ) (k : κ) :
    (m.mapValues f).get? k = (m.get? k).map (f k) :=
  lookup_map f k m.toList

theorem get?_mapValues_eq_some_iff [DecidableEq κ] {m : SortedMap κ ν} {f : κ → ν → μ} {k : κ}
    {w : μ} : (m.mapValues f).get? k = some w ↔ ∃ v, m.get? k = some v ∧ f k v = w := by
  rw [get?_mapValues, Option.map_eq_some_iff]

theorem get?_modify [DecidableEq κ] (m : SortedMap κ ν) (k k' : κ) (f : ν → ν) :
    (m.modify k f).get? k' = if k = k' then (m.get? k').map f else m.get? k' := by
  rw [modify, get?_mapValues]
  by_cases h : k = k'
  · subst h
    simp
  · have h' : ¬ k' = k := fun he => h he.symm
    simp [h, h']

theorem mem_keys_iff [DecidableEq κ] [KeyOrder κ] {m : SortedMap κ ν} {k : κ} :
    k ∈ m.keys ↔ (m.get? k).isSome := by
  rw [Option.isSome_iff_exists]
  constructor
  · intro h
    obtain ⟨⟨a, v⟩, he, rfl⟩ := List.mem_map.mp h
    exact ⟨v, mem_toList_iff.mp he⟩
  · rintro ⟨v, hv⟩
    exact List.mem_map.mpr ⟨(k, v), mem_toList_iff.mpr hv, rfl⟩

theorem mem_values_iff [DecidableEq κ] [KeyOrder κ] {m : SortedMap κ ν} {v : ν} :
    v ∈ m.values ↔ ∃ k, m.get? k = some v := by
  constructor
  · intro h
    obtain ⟨⟨k, w⟩, he, rfl⟩ := List.mem_map.mp h
    exact ⟨k, mem_toList_iff.mp he⟩
  · rintro ⟨k, hk⟩
    exact List.mem_map.mpr ⟨(k, v), mem_toList_iff.mpr hk, rfl⟩

theorem keys_sorted (m : SortedMap κ ν) : m.keys.Pairwise (· < ·) :=
  List.pairwise_map.mpr m.sorted

theorem keys_nodup [KeyOrder κ] (m : SortedMap κ ν) : m.keys.Nodup :=
  m.keys_sorted.imp KeyOrder.ne_of_lt

/-- The entries of a sorted list are determined by their members. -/
theorem eq_of_mem_iff [KeyOrder κ] {l₁ l₂ : List (κ × ν)}
    (h₁ : l₁.Pairwise (fun a b => a.1 < b.1)) (h₂ : l₂.Pairwise (fun a b => a.1 < b.1))
    (h : ∀ e, e ∈ l₁ ↔ e ∈ l₂) : l₁ = l₂ := by
  induction l₁ generalizing l₂ with
  | nil =>
    cases l₂ with
    | nil => rfl
    | cons e _ => exact absurd ((h e).mpr (List.mem_cons_self ..)) (by simp)
  | cons a r₁ ih =>
    cases l₂ with
    | nil => exact absurd ((h a).mp (List.mem_cons_self ..)) (by simp)
    | cons b r₂ =>
      obtain ⟨ha, hr₁⟩ := List.pairwise_cons.mp h₁
      obtain ⟨hb, hr₂⟩ := List.pairwise_cons.mp h₂
      have hab : a = b := by
        rcases List.mem_cons.mp ((h a).mp (List.mem_cons_self ..)) with he | hm
        · exact he
        · rcases List.mem_cons.mp ((h b).mpr (List.mem_cons_self ..)) with he | hm'
          · exact he.symm
          · exact absurd (ha b hm') (KeyOrder.asymm (hb a hm))
      subst hab
      congr 1
      refine ih hr₁ hr₂ (fun e => ⟨fun he => ?_, fun he => ?_⟩)
      · rcases List.mem_cons.mp ((h e).mp (List.mem_cons_of_mem _ he)) with rfl | hm
        · exact absurd (ha e he) (KeyOrder.irrefl _)
        · exact hm
      · rcases List.mem_cons.mp ((h e).mpr (List.mem_cons_of_mem _ he)) with rfl | hm
        · exact absurd (hb e he) (KeyOrder.irrefl _)
        · exact hm

/-- Two maps with the same look-ups are equal. -/
theorem ext_get? [DecidableEq κ] [KeyOrder κ] {a b : SortedMap κ ν}
    (h : ∀ k, a.get? k = b.get? k) : a = b := by
  apply ext_toList
  apply eq_of_mem_iff a.sorted b.sorted
  rintro ⟨k, v⟩
  rw [mem_toList_iff, mem_toList_iff, h]

theorem isEmpty_eq_false [DecidableEq κ] [KeyOrder κ] {m : SortedMap κ ν} {k : κ} {v : ν}
    (h : m.get? k = some v) : m.isEmpty = false := by
  unfold isEmpty
  rw [List.isEmpty_eq_false_iff]
  exact List.ne_nil_of_mem (mem_toList_iff.mpr h)

theorem contains_eq_true_iff [DecidableEq κ] {m : SortedMap κ ν} {k : κ} :
    m.contains k = true ↔ ∃ v, m.get? k = some v :=
  Option.isSome_iff_exists

theorem mapValues_insert [DecidableEq κ] [DecidableLT κ] [KeyOrder κ] (m : SortedMap κ ν) (k : κ)
    (v : ν) (f : κ → ν → μ) :
    (m.insert k v).mapValues f = (m.mapValues f).insert k (f k v) := by
  apply ext_get?
  intro k'
  simp only [get?_mapValues, get?_insert]
  by_cases h : k = k'
  · subst h
    simp
  · simp [h]

theorem mapValues_erase [DecidableEq κ] [KeyOrder κ] (m : SortedMap κ ν) (k : κ)
    (f : κ → ν → μ) : (m.erase k).mapValues f = (m.mapValues f).erase k := by
  apply ext_get?
  intro k'
  simp only [get?_mapValues, get?_erase]
  by_cases h : k = k' <;> simp [h]

theorem insert_eq_self [DecidableEq κ] [DecidableLT κ] [KeyOrder κ] {m : SortedMap κ ν} {k : κ}
    {v : ν} (h : m.get? k = some v) : m.insert k v = m := by
  apply ext_get?
  intro k'
  rw [get?_insert]
  split
  · rename_i hk
    rw [← hk, h]
  · rfl

/-! ## Maps of lists -/

theorem get?_foldl_insert [DecidableEq κ] [DecidableLT κ] [KeyOrder κ] {l : List (κ × ν)}
    {m : SortedMap κ ν} {k : κ} {v : ν}
    (h : (l.foldl (fun m e => m.insert e.1 e.2) m).get? k = some v) :
    (k, v) ∈ l ∨ m.get? k = some v := by
  induction l generalizing m with
  | nil => exact Or.inr h
  | cons e rest ih =>
    rcases ih h with hr | hm
    · exact Or.inl (List.mem_cons_of_mem _ hr)
    · rw [get?_insert] at hm
      split at hm
      · rename_i hk
        cases hm
        exact Or.inl (by subst hk; exact List.mem_cons_self ..)
      · exact Or.inr hm

theorem isSome_get?_foldl_insert [DecidableEq κ] [DecidableLT κ] [KeyOrder κ] {l : List (κ × ν)}
    {m : SortedMap κ ν} {k : κ} (h : (∃ v, (k, v) ∈ l) ∨ (m.get? k).isSome) :
    ((l.foldl (fun m e => m.insert e.1 e.2) m).get? k).isSome := by
  induction l generalizing m with
  | nil =>
    rcases h with ⟨v, hv⟩ | h
    · simp at hv
    · exact h
  | cons e rest ih =>
    apply ih
    rw [get?_insert]
    rcases h with ⟨v, hv⟩ | h
    · rcases List.mem_cons.mp hv with rfl | hv
      · simp
      · exact Or.inl ⟨v, hv⟩
    · right
      split
      · rfl
      · exact h

theorem mem_of_get?_ofList [DecidableEq κ] [DecidableLT κ] [KeyOrder κ] {l : List (κ × ν)} {k : κ}
    {v : ν} (h : (ofList l).get? k = some v) : (k, v) ∈ l := by
  rcases get?_foldl_insert h with hl | he
  · exact hl
  · simp at he

/-- Where no key has two values, the entries of a list are the look-ups of its map. -/
theorem get?_ofList_iff [DecidableEq κ] [DecidableLT κ] [KeyOrder κ] {l : List (κ × ν)}
    (hl : ∀ k v w, (k, v) ∈ l → (k, w) ∈ l → v = w) {k : κ} {v : ν} :
    (ofList l).get? k = some v ↔ (k, v) ∈ l := by
  refine ⟨mem_of_get?_ofList, fun h => ?_⟩
  obtain ⟨w, hw⟩ := Option.isSome_iff_exists.mp
    (isSome_get?_foldl_insert (m := empty) (Or.inl ⟨v, h⟩))
  rw [hl k v w h (mem_of_get?_ofList hw)]
  exact hw

omit [LT κ] in
theorem mem_of_checkEntries {ε : Type} {f : κ → ν → Except ε μ} {l : List (κ × ν)}
    {l' : List (κ × μ)} (h : checkEntries f l = .ok l') {k : κ} {w : μ} (hw : (k, w) ∈ l') :
    ∃ v, (k, v) ∈ l ∧ f k v = .ok w := by
  induction l generalizing l' with
  | nil =>
    cases h
    simp at hw
  | cons e rest ih =>
    simp only [checkEntries] at h
    split at h
    · cases h
    · rename_i u hu
      split at h
      · cases h
      · rename_i us hus
        cases h
        rcases List.mem_cons.mp hw with he | hw
        · cases he
          exact ⟨e.2, List.mem_cons_self .., hu⟩
        · obtain ⟨v, hv, hf⟩ := ih hus hw
          exact ⟨v, List.mem_cons_of_mem _ hv, hf⟩

/-- The values of a checked map come from the map under the same keys. -/
theorem get?_of_checkValues {ε : Type} [DecidableEq κ] [DecidableLT κ] [KeyOrder κ]
    {f : κ → ν → Except ε μ} {m : SortedMap κ ν} {m' : SortedMap κ μ}
    (h : m.checkValues f = .ok m') {k : κ} {w : μ} (hw : m'.get? k = some w) :
    ∃ v, m.get? k = some v ∧ f k v = .ok w := by
  unfold checkValues at h
  cases hc : checkEntries f m.toList with
  | error e =>
    rw [hc] at h
    cases h
  | ok l' =>
    rw [hc] at h
    cases h
    obtain ⟨v, hv, hf⟩ := mem_of_checkEntries hc (mem_of_get?_ofList hw)
    exact ⟨v, mem_toList_iff.mp hv, hf⟩

/-- The entries of a map make the map. -/
theorem ofList_toList [DecidableEq κ] [DecidableLT κ] [KeyOrder κ] (m : SortedMap κ ν) :
    ofList m.toList = m := by
  have huse : ∀ k v w, (k, v) ∈ m.toList → (k, w) ∈ m.toList → v = w := by
    intro k v w hv hw
    exact Option.some.inj ((mem_toList_iff.mp hv).symm.trans (mem_toList_iff.mp hw))
  apply ext_get?
  intro k
  apply Option.ext
  intro v
  exact (get?_ofList_iff huse).trans mem_toList_iff

omit [LT κ] in
theorem checkEntries_map {ε ρ : Type} {f : κ → μ → Except ε ρ} {g : κ → ν → μ} {r : κ → ν → ρ}
    {l : List (κ × ν)} (hf : ∀ e ∈ l, f e.1 (g e.1 e.2) = .ok (r e.1 e.2)) :
    checkEntries f (l.map (fun e => (e.1, g e.1 e.2))) =
      .ok (l.map (fun e => (e.1, r e.1 e.2))) := by
  induction l with
  | nil => rfl
  | cons e rest ih =>
    have hrest := ih (fun e' he => hf e' (List.mem_cons_of_mem _ he))
    simp only [List.map_cons, checkEntries]
    rw [hf e (List.mem_cons_self ..), hrest]

/-- A check succeeds if it does so for every value. -/
theorem checkValues_mapValues {ε ρ : Type} [DecidableEq κ] [DecidableLT κ] [KeyOrder κ]
    {f : κ → μ → Except ε ρ} {g : κ → ν → μ} {r : κ → ν → ρ} {m : SortedMap κ ν}
    (hf : ∀ k v, m.get? k = some v → f k (g k v) = .ok (r k v)) :
    (m.mapValues g).checkValues f = .ok (m.mapValues r) := by
  have hentries : checkEntries f (m.mapValues g).toList = .ok (m.mapValues r).toList :=
    checkEntries_map (fun e he => hf e.1 e.2 (mem_toList_iff.mp he))
  unfold checkValues
  rw [hentries]
  exact congrArg Except.ok (ofList_toList _)

/-! ## Maps numbered from zero -/

/-- The keys are the numbers below the size, so the size is the next free key. -/
def Numbered (m : SortedMap Nat ν) : Prop := ∀ k, (m.get? k).isSome ↔ k < m.size

theorem length_insertEntry [DecidableEq κ] [DecidableLT κ] {k : κ} {v : ν} {l : List (κ × ν)}
    (h : lookup k l = none) (hc : ∀ a b : κ, ¬ a < b → ¬ b < a → a = b) :
    (insertEntry k v l).length = l.length + 1 := by
  induction l with
  | nil => rfl
  | cons e rest ih =>
    simp only [lookup] at h
    split at h
    · cases h
    · rename_i hne
      simp only [insertEntry]
      split
      · rfl
      · split
        · simp only [List.length_cons, ih h]
        · rename_i h₁ h₂
          exact absurd (hc e.1 k h₂ h₁) hne

theorem size_insert [DecidableEq κ] [DecidableLT κ] [KeyOrder κ] {m : SortedMap κ ν} {k : κ}
    (v : ν) (h : m.get? k = none) : (m.insert k v).size = m.size + 1 :=
  length_insertEntry h (fun _ _ => KeyOrder.connected)

theorem size_mapValues (m : SortedMap κ ν) (f : κ → ν → μ) : (m.mapValues f).size = m.size := by
  simp [size, mapValues]

theorem numbered_empty : Numbered (empty : SortedMap Nat ν) := by
  intro k
  simp [size]

theorem Numbered.get?_size {m : SortedMap Nat ν} (h : m.Numbered) : m.get? m.size = none := by
  have := h m.size
  cases hm : m.get? m.size with
  | none => rfl
  | some v => simp [hm] at this

theorem Numbered.insert {m : SortedMap Nat ν} (h : m.Numbered) (v : ν) :
    (m.insert m.size v).Numbered := by
  intro k
  have hk := h k
  rw [size_insert v h.get?_size, get?_insert]
  by_cases he : m.size = k
  · subst he
    simp
  · simp only [he, if_false, hk]
    omega

theorem Numbered.mapValues {m : SortedMap Nat ν} (h : m.Numbered) (f : Nat → ν → μ) :
    (m.mapValues f).Numbered := by
  intro k
  rw [size_mapValues, get?_mapValues, Option.isSome_map]
  exact h k

end SortedMap

end BoardFarm
