import Rustack.Lib.Positional

/-!
# Numbers as bytes

A number in so many bytes, with the highest or with the lowest first, is read back as its
remainder by the power, and bytes are those of the number that they are read as.
-/

namespace Rustack.Bytes

open List

/-! ## The highest byte first -/

/-- The number that bytes are read as. -/
def ofBe (bytes : List UInt8) : ℕ := Positional.value 256 (bytes.map UInt8.toNat)

/-- The last bytes of a number. -/
def be : ℕ → ℕ → List UInt8
  | 0, _ => []
  | width + 1, n => UInt8.ofNat (n / 256 ^ width) :: be width n

@[simp] theorem ofBe_nil : ofBe [] = 0 := rfl

theorem ofBe_cons (b : UInt8) (bytes : List UInt8) :
    ofBe (b :: bytes) = b.toNat * 256 ^ bytes.length + ofBe bytes := by
  unfold ofBe
  rw [map_cons, Positional.value_cons, length_map]

@[simp] theorem length_be (width n : ℕ) : (be width n).length = width := by
  induction width with
  | zero => rfl
  | succ width ih => rw [be, length_cons, ih]

theorem ofBe_lt (bytes : List UInt8) : ofBe bytes < 256 ^ bytes.length := by
  have hlt : ∀ d ∈ bytes.map UInt8.toNat, d < 256 := by
    intro d hd
    obtain ⟨b, -, rfl⟩ := mem_map.mp hd
    exact b.toNat_lt
  have h := Positional.value_lt hlt
  rwa [length_map] at h

@[simp] theorem ofBe_be (width n : ℕ) : ofBe (be width n) = n % 256 ^ width := by
  induction width with
  | zero => rw [be, ofBe_nil, pow_zero, Nat.mod_one]
  | succ width ih =>
      rw [be, ofBe_cons, ih, length_be, Nat.mod_pow_succ, UInt8.toNat_ofNat']
      ring

theorem be_add_mul (width a n : ℕ) : be width (a * 256 ^ width + n) = be width n := by
  induction width generalizing a with
  | zero => rfl
  | succ width ih =>
      have hsplit : a * 256 ^ (width + 1) + n = a * 256 * 256 ^ width + n := by ring
      rw [be, be, hsplit, ih]
      congr 1
      refine UInt8.toNat_inj.mp ?_
      rw [UInt8.toNat_ofNat', UInt8.toNat_ofNat', Nat.add_comm,
        Nat.add_mul_div_right _ _ (Nat.pow_pos (by decide)), Nat.add_mul_mod_self_right]

@[simp] theorem be_ofBe (bytes : List UInt8) : be bytes.length (ofBe bytes) = bytes := by
  induction bytes with
  | nil => rfl
  | cons b bytes ih =>
      rw [length_cons, be, ofBe_cons, be_add_mul, ih, Nat.add_comm,
        Nat.add_mul_div_right _ _ (Nat.pow_pos (by decide)), Nat.div_eq_of_lt (ofBe_lt bytes),
        Nat.zero_add]
      congr 1
      exact UInt8.toNat_inj.mp (by
        rw [UInt8.toNat_ofNat', Nat.mod_eq_of_lt b.toNat_lt])

/-! ## The lowest byte first -/

def ofLe (bytes : List UInt8) : ℕ := ofBe bytes.reverse

def le (width n : ℕ) : List UInt8 := (be width n).reverse

@[simp] theorem length_le (width n : ℕ) : (le width n).length = width := by
  rw [le, length_reverse, length_be]

@[simp] theorem ofLe_le (width n : ℕ) : ofLe (le width n) = n % 256 ^ width := by
  rw [ofLe, le, reverse_reverse, ofBe_be]

/-! ## Ranges -/

/-- The bytes of a range, if it lies within. -/
def slice (bytes : List UInt8) (start stop : ℕ) : Option (List UInt8) :=
  if start ≤ stop ∧ stop ≤ bytes.length then some ((bytes.take stop).drop start) else none

theorem slice_eq_some {bytes part : List UInt8} {start stop : ℕ} :
    slice bytes start stop = some part ↔
      (start ≤ stop ∧ stop ≤ bytes.length) ∧ part = (bytes.take stop).drop start := by
  unfold slice
  rw [Option.ite_none_right_eq_some, Option.some.injEq, eq_comm (a := part)]

theorem slice_append (front part rest : List UInt8) :
    slice (front ++ (part ++ rest)) front.length (front.length + part.length) = some part := by
  refine slice_eq_some.mpr ⟨⟨Nat.le_add_right _ _, ?_⟩, ?_⟩
  · rw [length_append, length_append]
    omega
  · rw [← append_assoc, ← length_append, take_left, drop_left]

end Rustack.Bytes
