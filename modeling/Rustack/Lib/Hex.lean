import Mathlib.Data.List.GetD
import Mathlib.Data.Char
import Mathlib.Tactic.Common

/-!
# Hexadecimal digits

The digits of a byte in lower and in upper case, and the values of digits in either.
-/

namespace Hex

def lower (n : ℕ) : Char := "0123456789abcdef".toList.getD n '0'

def upper (n : ℕ) : Char := "0123456789ABCDEF".toList.getD n '0'

def value (c : Char) : Option ℕ :=
  if '0' ≤ c ∧ c ≤ '9' then some (c.toNat - 48)
  else if 'a' ≤ c ∧ c ≤ 'f' then some (c.toNat - 87)
  else if 'A' ≤ c ∧ c ≤ 'F' then some (c.toNat - 55)
  else none

/-- Two digits in lower case for each byte. -/
def encode (bytes : List UInt8) : List Char :=
  bytes.flatMap fun b => [lower (b.toNat / 16), lower (b.toNat % 16)]

theorem value_lower {n : ℕ} (h : n < 16) : value (lower n) = some n := by
  have hall : ∀ n < 16, value (lower n) = some n := by decide
  exact hall n h

theorem value_upper {n : ℕ} (h : n < 16) : value (upper n) = some n := by
  have hall : ∀ n < 16, value (upper n) = some n := by decide
  exact hall n h

theorem lower_injective {n m : ℕ} (hn : n < 16) (hm : m < 16) (h : lower n = lower m) : n = m := by
  have hvalue := value_lower hn
  rw [h, value_lower hm] at hvalue
  exact (Option.some.inj hvalue).symm

theorem div_lt (b : UInt8) : b.toNat / 16 < 16 := by
  have := b.toNat_lt
  omega

theorem mod_lt (b : UInt8) : b.toNat % 16 < 16 := Nat.mod_lt _ (by decide)

@[simp] theorem encode_cons (b : UInt8) (bytes : List UInt8) :
    encode (b :: bytes) = lower (b.toNat / 16) :: lower (b.toNat % 16) :: encode bytes := rfl

theorem encode_injective : Function.Injective encode := by
  intro bytes
  induction bytes with
  | nil =>
      intro others h
      cases others with
      | nil => rfl
      | cons c others => cases h
  | cons b bytes ih =>
      intro others h
      cases others with
      | nil => cases h
      | cons c others =>
          rw [encode_cons, encode_cons, List.cons.injEq, List.cons.injEq] at h
          obtain ⟨hhigh, hlow, hrest⟩ := h
          have hdiv := lower_injective (div_lt b) (div_lt c) hhigh
          have hmod := lower_injective (mod_lt b) (mod_lt c) hlow
          have hbyte : b = c := by
            apply UInt8.toNat_inj.mp
            omega
          rw [hbyte, ih hrest]

theorem lower_mem (n : ℕ) : lower n ∈ "0123456789abcdef".toList := by
  unfold lower
  rcases Nat.lt_or_ge n "0123456789abcdef".toList.length with hlt | hge
  · rw [List.getD_eq_getElem _ _ hlt]
    exact List.getElem_mem hlt
  · rw [List.getD_eq_default _ _ hge]
    decide

theorem mem_encode {c : Char} {bytes : List UInt8} (h : c ∈ encode bytes) :
    c ∈ "0123456789abcdef".toList := by
  obtain ⟨b, -, hc⟩ := List.mem_flatMap.mp h
  rcases List.mem_cons.mp hc with rfl | hc
  · exact lower_mem _
  · rw [List.mem_singleton.mp hc]
    exact lower_mem _

end Hex
