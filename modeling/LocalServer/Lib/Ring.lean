import Mathlib

/-! A circular buffer. The items it holds are numbered from the first one ever
stored, and the item of number `k` lies in slot `k` modulo the number of slots;
storing is safe as long as fewer items than slots are live. -/
namespace LocalServer.Ring

variable {α : Type*}

/-- The live items, the oldest of them being number `first`, lie in the slots
their numbers select. -/
def Holds (slots : List α) (first : Nat) (items : List α) : Prop :=
  ∀ k item, items[k]? = some item → slots[(first + k) % slots.length]? = some item

theorem holds_nil (slots : List α) (first : Nat) : Holds slots first [] := by
  intro k item found
  simp at found

/-- Two live items never share a slot. -/
theorem slot_injective {n first j k : Nat} (jBound : j < n) (kBound : k < n)
    (same : (first + j) % n = (first + k) % n) : j = k := by
  have congruent : j ≡ k [MOD n] := Nat.ModEq.add_left_cancel' first same
  exact Nat.ModEq.eq_of_lt_of_lt congruent jBound kBound

/-- Storing behind the live items appends the item and overwrites none. -/
theorem holds_push {slots : List α} {first : Nat} {items : List α} (item : α)
    (held : Holds slots first items) (room : items.length < slots.length) :
    Holds (slots.set ((first + items.length) % slots.length) item) first (items ++ [item]) := by
  intro k found lookup
  have slotBound (m : Nat) : m % slots.length < slots.length := Nat.mod_lt _ (by omega)
  rw [List.length_set]
  rcases Nat.lt_trichotomy k items.length with before | rfl | after
  · have kept : items[k]? = some found := by
      rwa [List.getElem?_append_left before] at lookup
    have apart : (first + items.length) % slots.length ≠ (first + k) % slots.length :=
      fun same => by
        have := slot_injective room (by omega) same
        omega
    rw [List.getElem?_set_ne apart]
    exact held k found kept
  · have stored : found = item := by simpa using lookup.symm
    rw [List.getElem?_set_self (slotBound _), stored]
  · rw [List.getElem?_eq_none (by simp; omega)] at lookup
    cases lookup

/-- The oldest live item lies in the slot of its own number. -/
theorem holds_head {slots : List α} {first : Nat} {item : α} {items : List α}
    (held : Holds slots first (item :: items)) : slots[first % slots.length]? = some item := by
  simpa using held 0 item (by simp)

/-- Giving up the oldest item leaves the others where they are. -/
theorem holds_tail {slots : List α} {first : Nat} {item : α} {items : List α}
    (held : Holds slots first (item :: items)) : Holds slots (first + 1) items := by
  intro k found lookup
  have shifted := held (k + 1) found (by simpa using lookup)
  rwa [show first + (k + 1) = first + 1 + k by omega] at shifted

end LocalServer.Ring
