import Mathlib.Data.List.Forall2
import Mathlib.Order.Fin.Basic
import Rustack.Lib.Decimal
import Rustack.Lib.Tiling

/-!
# Hash keys of Kinesis shards

Records are routed by a hash key of 128 bits, and a shard takes the keys of a closed range.
The ranges of a new stream divide the keys evenly, and they tile them.
-/

namespace Rustack.Kinesis

open List

def KEY_SPACE : ℕ := 2 ^ 128

abbrev HashKey := Fin KEY_SPACE

theorem KEY_SPACE_pos : 0 < KEY_SPACE := by decide

/-- The value, where it has 128 bits. -/
def u128 (value : ℕ) : Option HashKey := if h : value < KEY_SPACE then some ⟨value, h⟩ else none

theorem u128_of_lt {value : ℕ} (h : value < KEY_SPACE) : u128 value = some ⟨value, h⟩ := dif_pos h

namespace HashKey

def MIN : HashKey := ⟨0, KEY_SPACE_pos⟩

def MAX : HashKey := ⟨KEY_SPACE - 1, Nat.sub_lt KEY_SPACE_pos Nat.one_pos⟩

def fromDecimalStr (text : String) : Except Decimal.ParseIntError HashKey :=
  match h : Decimal.parse KEY_SPACE text with
  | .error error => .error error
  | .ok value => .ok ⟨value, Decimal.parse_lt KEY_SPACE_pos h⟩

def toDecimalString (key : HashKey) : String := Decimal.padded 0 key.val

def checkedAdd (key : HashKey) (n : ℕ) : Option HashKey := u128 (key.val + n)

def checkedSub (key : HashKey) (n : ℕ) : Option HashKey :=
  if n ≤ key.val then u128 (key.val - n) else none

theorem fromDecimalStr_toDecimalString (key : HashKey) :
    fromDecimalStr (toDecimalString key) = .ok key := by
  have hparse : Decimal.parse KEY_SPACE (toDecimalString key) = .ok key.val :=
    Decimal.parse_padded 0 key.isLt
  unfold fromDecimalStr
  split
  · next error herror => cases herror.symm.trans hparse
  · next value hvalue =>
      cases hvalue.symm.trans hparse
      rfl

theorem MIN_le (key : HashKey) : MIN ≤ key := Nat.zero_le key.val

theorem le_MAX (key : HashKey) : key ≤ MAX := Nat.le_sub_one_of_lt key.isLt

end HashKey

structure HashKeyRange where
  start : HashKey
  «end» : HashKey
deriving DecidableEq

namespace HashKeyRange

def contains (range : HashKeyRange) (key : HashKey) : Bool := range.start ≤ key && key ≤ range.end

def interval (range : HashKeyRange) : HashKey × HashKey := (range.start, range.end)

theorem contains_iff {range : HashKeyRange} {key : HashKey} :
    range.contains key = true ↔ range.start ≤ key ∧ key ≤ range.end := by
  unfold contains
  rw [Bool.and_eq_true, decide_eq_true_iff, decide_eq_true_iff]

/-- Where a range begins, computed with 128 bits.  A value with more bits is an overflow. -/
def evenStart (n i : ℕ) : Option HashKey :=
  if i = 0 then some HashKey.MIN
  else (u128 (HashKey.MAX.val / n * i)).bind (·.checkedAdd i)

def evenEnd (n i : ℕ) : Option HashKey :=
  if i = n - 1 then some HashKey.MAX
  else ((u128 (HashKey.MAX.val / n * (i + 1))).bind (·.checkedAdd (i + 1))).bind (·.checkedSub 1)

def evenRange (n i : ℕ) : Option HashKeyRange := do
  let start ← evenStart n i
  let «end» ← evenEnd n i
  pure ⟨start, «end»⟩

/-- Divide all keys into even ranges. -/
def divideEvenly (n : ℕ) : Option (List HashKeyRange) :=
  if n = 0 then some []
  else if n = 1 then some [⟨HashKey.MIN, HashKey.MAX⟩]
  else (List.range n).mapM (evenRange n)

/-! ## The ranges tile the keys -/

/-- The width of all ranges but the last. -/
def width (n : ℕ) : ℕ := HashKey.MAX.val / n + 1

/-- The last range begins before the keys end. -/
theorem width_mul_lt {n : ℕ} (hpos : 0 < n) (hlt : n < 2 ^ 32) : width n * (n - 1) < KEY_SPACE := by
  have hmul : HashKey.MAX.val / n * n ≤ HashKey.MAX.val := Nat.div_mul_le_self _ _
  have hquotient : n - 1 ≤ HashKey.MAX.val / n := by
    rw [Nat.le_div_iff_mul_le hpos]
    calc (n - 1) * n ≤ 2 ^ 32 * 2 ^ 32 :=
          Nat.mul_le_mul ((Nat.sub_le n 1).trans hlt.le) hlt.le
      _ ≤ HashKey.MAX.val := by decide
  have hsum : width n * (n - 1) ≤ HashKey.MAX.val := by
    unfold width
    calc (HashKey.MAX.val / n + 1) * (n - 1)
        = HashKey.MAX.val / n * (n - 1) + (n - 1) := by rw [Nat.add_one_mul]
      _ ≤ HashKey.MAX.val / n * (n - 1) + HashKey.MAX.val / n := Nat.add_le_add_left hquotient _
      _ = HashKey.MAX.val / n * n := by
          rw [← Nat.mul_add_one, Nat.sub_add_cancel hpos]
      _ ≤ HashKey.MAX.val := hmul
  exact Nat.lt_of_le_sub_one KEY_SPACE_pos hsum

/-- All keys lie before the end of the last range. -/
theorem lt_width_mul {n : ℕ} (hpos : 0 < n) (key : HashKey) : key.val < width n * n := by
  have hle : key.val ≤ HashKey.MAX.val := HashKey.le_MAX key
  unfold width
  rw [Nat.add_one_mul]
  exact Nat.lt_of_le_of_lt hle (Nat.lt_div_mul_add hpos)

theorem product_add (n i : ℕ) : HashKey.MAX.val / n * i + i = width n * i := by
  unfold width
  rw [Nat.add_one_mul]

/-- What the computation of a range gives, without an overflow. -/
theorem evenRange_eq {n i : ℕ} (hlt : n < 2 ^ 32) (hi : i < n) :
    ∃ range, evenRange n i = some range ∧ range.start.val = width n * i ∧
      range.end.val = if i = n - 1 then HashKey.MAX.val else width n * (i + 1) - 1 := by
  have hpos : 0 < n := Nat.zero_lt_of_lt hi
  have hbound : ∀ j ≤ n - 1, width n * j < KEY_SPACE := fun j hj =>
    Nat.lt_of_le_of_lt (Nat.mul_le_mul_left _ hj) (width_mul_lt hpos hlt)
  have hproduct : ∀ j ≤ n - 1, (u128 (HashKey.MAX.val / n * j)).bind (·.checkedAdd j) =
      u128 (width n * j) := fun j hj => by
    have hle : HashKey.MAX.val / n * j < KEY_SPACE :=
      Nat.lt_of_le_of_lt (Nat.le_add_right _ j) (by rw [product_add]; exact hbound j hj)
    rw [u128_of_lt hle]
    exact congrArg u128 (product_add n j)
  have hle : i ≤ n - 1 := Nat.le_sub_one_of_lt hi
  have hstart : evenStart n i = some ⟨width n * i, hbound i hle⟩ := by
    unfold evenStart
    split
    · next hzero =>
        subst hzero
        rfl
    · rw [hproduct i hle, u128_of_lt (hbound i hle)]
  unfold evenRange
  rw [hstart]
  unfold evenEnd
  by_cases hlast : i = n - 1
  · rw [if_pos hlast, if_pos hlast]
    exact ⟨_, rfl, rfl, rfl⟩
  · have hnext : i + 1 ≤ n - 1 := Nat.lt_of_le_of_ne hle hlast
    have hone : 1 ≤ width n * (i + 1) := Nat.mul_pos (Nat.succ_pos _) (Nat.succ_pos _)
    have hbefore : width n * (i + 1) - 1 < KEY_SPACE :=
      Nat.lt_of_le_of_lt (Nat.sub_le _ _) (hbound (i + 1) hnext)
    have hend : (u128 (width n * (i + 1))).bind (·.checkedSub 1) =
        some ⟨width n * (i + 1) - 1, hbefore⟩ := by
      rw [u128_of_lt (hbound (i + 1) hnext), Option.bind_some]
      unfold HashKey.checkedSub
      rw [if_pos hone, u128_of_lt hbefore]
    rw [if_neg hlast, if_neg hlast, hproduct (i + 1) hnext, hend]
    exact ⟨_, rfl, rfl, rfl⟩

theorem exists_mapM {α β : Type} (f : α → Option β) (xs : List α)
    (h : ∀ x ∈ xs, ∃ y, f x = some y) :
    ∃ ys, xs.mapM f = some ys ∧ List.Forall₂ (fun x y => f x = some y) xs ys := by
  induction xs with
  | nil => exact ⟨[], rfl, .nil⟩
  | cons x xs ih =>
      obtain ⟨y, hy⟩ := h x (.head _)
      obtain ⟨ys, hys, hall⟩ := ih fun x hx => h x (.tail _ hx)
      refine ⟨y :: ys, ?_, .cons hy hall⟩
      rw [mapM_cons, hy, hys]
      rfl

/-- The ranges of a new stream tile the keys, and no step of the division overflows. -/
theorem divideEvenly_tiles {n : ℕ} (hpos : 0 < n) (hlt : n < 2 ^ 32) :
    ∃ ranges, divideEvenly n = some ranges ∧ ranges.length = n ∧
      Tiles (ranges.map interval) := by
  unfold divideEvenly
  rw [if_neg hpos.ne']
  by_cases hone : n = 1
  · rw [if_pos hone]
    exact ⟨_, rfl, hone.symm, Tiles.single HashKey.MIN_le HashKey.le_MAX⟩
  · rw [if_neg hone]
    obtain ⟨ranges, hranges, hall⟩ := exists_mapM (evenRange n) (range n)
      fun i hi => (evenRange_eq hlt (mem_range.mp hi)).imp fun _ h => h.1
    have hlength : ranges.length = n := hall.length_eq.symm.trans length_range
    have hget : ∀ i (hi : i < ranges.length), (ranges[i]).start.val = width n * i ∧
        (ranges[i]).end.val = if i = n - 1 then HashKey.MAX.val else width n * (i + 1) - 1 := by
      intro i hi
      have hin : i < n := hlength ▸ hi
      have hsome := forall₂_iff_get.mp hall |>.2 i (by rw [length_range]; exact hin) hi
      obtain ⟨range, hrange, hstart, hend⟩ := evenRange_eq hlt hin
      simp only [get_eq_getElem, getElem_range] at hsome
      rw [hrange] at hsome
      rw [← Option.some.inj hsome]
      exact ⟨hstart, hend⟩
    have hwidth : ∀ i, width n * (i + 1) - 1 + 1 = width n * (i + 1) := fun i =>
      Nat.sub_add_cancel (Nat.mul_pos (Nat.succ_pos _) (Nat.succ_pos _))
    refine ⟨ranges, hranges, hlength, ?_, ?_, fun key => ?_⟩
    · intro r hr
      obtain ⟨range, hmem, rfl⟩ := mem_map.mp hr
      obtain ⟨i, hi, rfl⟩ := getElem_of_mem hmem
      obtain ⟨hstart, hend⟩ := hget i hi
      change (ranges[i]).start.val ≤ (ranges[i]).end.val
      rw [hend]
      split
      · exact HashKey.le_MAX (ranges[i]).start
      · rw [hstart, Nat.mul_succ]
        have hwide : 1 ≤ width n := Nat.succ_pos _
        omega
    · rw [pairwise_map, pairwise_iff_getElem]
      intro i j hi hj hij
      obtain ⟨-, hend⟩ := hget i hi
      obtain ⟨hstart, -⟩ := hget j hj
      refine .inl ?_
      change (ranges[i]).end.val < (ranges[j]).start.val
      have hnot : i ≠ n - 1 := by omega
      rw [hend, hstart, if_neg hnot]
      have hle : width n * (i + 1) ≤ width n * j := Nat.mul_le_mul_left _ hij
      have hsucc := hwidth i
      omega
    · -- the range is found by division, and the last one takes the rest
      have hwide : 0 < width n := Nat.succ_pos _
      have hdiv : key.val / width n < n := Nat.div_lt_of_lt_mul (lt_width_mul hpos key)
      have hi : key.val / width n < ranges.length := hlength.symm ▸ hdiv
      obtain ⟨hstart, hend⟩ := hget _ hi
      refine ⟨interval ranges[key.val / width n], mem_map_of_mem (getElem_mem hi), ?_, ?_⟩
      · change (ranges[key.val / width n]).start.val ≤ key.val
        rw [hstart]
        exact Nat.mul_div_le _ _
      · change key.val ≤ (ranges[key.val / width n]).end.val
        rw [hend]
        split
        · exact HashKey.le_MAX key
        · exact Nat.le_sub_one_of_lt (Nat.lt_mul_div_succ _ hwide)

end HashKeyRange

end Rustack.Kinesis
