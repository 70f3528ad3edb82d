/-!
# Strict orders on keys

The sorted collections of the library hold their keys in strictly increasing order, so a
collection has one representation. Text is ordered by code points, which is also the order
of its UTF-8 bytes.

* `KeyOrder`: the three laws of a strict total order.
* `KeyOrder.ofInjective`: an order pulled back along an injective map.
-/

namespace BoardFarm

/-- The laws of a strict total order. -/
class KeyOrder (κ : Type) [LT κ] : Prop where
  irrefl : ∀ a : κ, ¬ a < a
  trans : ∀ {a b c : κ}, a < b → b < c → a < c
  connected : ∀ {a b : κ}, ¬ a < b → ¬ b < a → a = b

namespace KeyOrder

theorem asymm {κ : Type} [LT κ] [KeyOrder κ] {a b : κ} (h : a < b) : ¬ b < a :=
  fun h' => irrefl a (trans h h')

theorem ne_of_lt {κ : Type} [LT κ] [KeyOrder κ] {a b : κ} (h : a < b) : a ≠ b := by
  intro he
  subst he
  exact irrefl a h

/-- A strict total order is pulled back along an injective map. -/
theorem ofInjective {κ ι : Type} [LT κ] [KeyOrder κ] [LT ι] (f : ι → κ)
    (hlt : ∀ a b : ι, a < b ↔ f a < f b) (hinj : ∀ a b : ι, f a = f b → a = b) :
    KeyOrder ι where
  irrefl a h := irrefl (f a) ((hlt a a).mp h)
  trans {a b c} h₁ h₂ := (hlt a c).mpr (trans ((hlt a b).mp h₁) ((hlt b c).mp h₂))
  connected {a b} h₁ h₂ :=
    hinj a b (connected (fun h => h₁ ((hlt a b).mpr h)) (fun h => h₂ ((hlt b a).mpr h)))

end KeyOrder

instance : KeyOrder Nat where
  irrefl a := Nat.lt_irrefl a
  trans h₁ h₂ := Nat.lt_trans h₁ h₂
  connected h₁ h₂ := Nat.le_antisymm (Nat.le_of_not_lt h₂) (Nat.le_of_not_lt h₁)

instance : KeyOrder String where
  irrefl a := String.lt_irrefl a
  trans h₁ h₂ := String.lt_trans h₁ h₂
  connected h₁ h₂ := String.le_antisymm (String.not_lt.mp h₂) (String.not_lt.mp h₁)

instance : KeyOrder (List String) where
  irrefl a := List.lt_irrefl a
  trans h₁ h₂ := List.lt_trans h₁ h₂
  connected h₁ h₂ := List.le_antisymm (List.not_lt.mp h₂) (List.not_lt.mp h₁)

end BoardFarm
