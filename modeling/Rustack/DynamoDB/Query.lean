import Rustack.DynamoDB.Storage

/-!
# The range query against the plain filter

A query with a sort condition never looks at every item: it turns the condition
and the start key into two bounds and asks the tree for what lies between.  Here
the bounds are compared with the filter they stand for.  They agree whenever the
tree can be asked at all, and `WalkOpen` says when that is.
-/

namespace Rustack.DynamoDB

open SortableAttributeValue (cmp_ne_gt cmp_ne_lt)
open SortableAttributeValue renaming cmp → cmpKey
open List SortableAttributeValue Bound Utf8

variable {esk : Option SortableAttributeValue} {low high : Bound SortableAttributeValue}
  {scanForward : Bool} {pre : String} {x y : SortableAttributeValue}

/-! ## What a query stands for -/

/-- The key lies strictly after the start key in the direction of the walk. -/
def isAfter (scanForward : Bool) (exclusiveStartKey : Option SortableAttributeValue)
    (key : SortableAttributeValue) : Bool :=
  match exclusiveStartKey with
  | none => true
  | some start => if scanForward then cmpKey start key == .lt else cmpKey key start == .lt

def satisfies (sortCondition : Option SortKeyCondition) (key : SortableAttributeValue) : Bool :=
  match sortCondition with
  | none => true
  | some condition => condition.matchesValue key

def inDirection {α : Type} (scanForward : Bool) (entries : List α) : List α :=
  if scanForward then entries else entries.reverse

/-- The items of the partition in order, filtered by the condition and the start key. -/
def plainItems (partition : Partition) (sortCondition : Option SortKeyCondition)
    (scanForward : Bool) (exclusiveStartKey : Option SortableAttributeValue) : List Item :=
  ((inDirection scanForward partition.entries).filter fun e =>
    satisfies sortCondition e.1 && isAfter scanForward exclusiveStartKey e.1).map Prod.snd

/-- The page of the plain filter. -/
def plainQuery (t : TableStorage) (partitionKey : AttributeValue)
    (sortCondition : Option SortKeyCondition) (scanForward : Bool) (limit : Option ℕ)
    (exclusiveStartKey : Option SortableAttributeValue) : List Item :=
  (Paging.page calculateItemSize maxResponseBytes limit
    (plainItems (t.partition partitionKey) sortCondition scanForward exclusiveStartKey)).1

/-! ## When the tree can be asked -/

/-- The start key lies on the near side of the far end of the range. -/
def startBefore (exclusiveStartKey : Option SortableAttributeValue)
    (p : SortableAttributeValue → Prop) : Prop :=
  ∀ start ∈ exclusiveStartKey, p start

/-- The incremented prefix sorts above the prefix: its last character is not one of those
from U+FFFF on whose last byte is full. -/
def prefixIncrements (pre : String) : Prop :=
  ∀ c ∈ pre.toList.getLast?, ¬ (0xFFFF ≤ c.toNat ∧ c.toNat % 64 = 63)

/-- The condition, the direction and the start key leave a range the tree can be asked
for, and for `Eq`, which does not look at the start key, there is nothing at or before it. -/
def WalkOpen (partition : Partition) (sortCondition : Option SortKeyCondition)
    (scanForward : Bool) (exclusiveStartKey : Option SortableAttributeValue) : Prop :=
  match sortCondition with
  | none => True
  | some (.eq val) => isAfter scanForward exclusiveStartKey val = true ∨ partition.get? val = none
  | some (.lt val) => scanForward = true → startBefore exclusiveStartKey (· < val)
  | some (.le val) => scanForward = true → startBefore exclusiveStartKey (· ≤ val)
  | some (.gt val) => scanForward = false → startBefore exclusiveStartKey (val < ·)
  | some (.ge val) => scanForward = false → startBefore exclusiveStartKey (val ≤ ·)
  | some (.between low high) =>
    low ≤ high ∧
      startBefore exclusiveStartKey fun start => if scanForward then start ≤ high else low ≤ start
  | some (.beginsWithStr pre) =>
    prefixIncrements pre ∧
      startBefore exclusiveStartKey fun start =>
        if scanForward then ∀ ub ∈ computeStrPrefixUpperBound pre, start < ub else .s pre ≤ start
  | some (.beginsWithBytes pre) =>
    startBefore exclusiveStartKey fun start =>
      if scanForward then ∀ ub ∈ computeBytesPrefixUpperBound pre, start < ub else .b pre ≤ start

/-! ## Bounds and filters -/

@[simp] theorem bne_gt_iff {x y : SortableAttributeValue} : (cmpKey x y != .gt) = true ↔ x ≤ y := by
  rw [bne_iff_ne, cmp_ne_gt]

theorem isAfter_true_iff {key : SortableAttributeValue} :
    isAfter true esk key = true ↔ ∀ start ∈ esk, start < key := by
  cases esk <;> simp [isAfter]

theorem isAfter_false_iff {key : SortableAttributeValue} :
    isAfter false esk key = true ↔ ∀ start ∈ esk, key < start := by
  cases esk <;> simp [isAfter]

/-- The lower end a forward walk starts from. -/
def effectiveLow (low : Bound SortableAttributeValue)
    (exclusiveStartKey : Option SortableAttributeValue) : Bound SortableAttributeValue :=
  match exclusiveStartKey with
  | some start =>
    match low with
    | .unbounded => .excluded start
    | .included l | .excluded l => if cmpKey start l != .lt then .excluded start else low
  | none => low

/-- The upper end a backward walk starts from. -/
def effectiveHigh (high : Bound SortableAttributeValue)
    (exclusiveStartKey : Option SortableAttributeValue) : Bound SortableAttributeValue :=
  match exclusiveStartKey with
  | some start =>
    match high with
    | .unbounded => .excluded start
    | .included u | .excluded u => if cmpKey start u != .gt then .excluded start else high
  | none => high

theorem admitsAbove_effectiveLow (low : Bound SortableAttributeValue)
    (esk : Option SortableAttributeValue) (key : SortableAttributeValue) :
    (effectiveLow low esk).admitsAbove cmpKey key =
      (low.admitsAbove cmpKey key && isAfter true esk key) := by
  rw [Bool.eq_iff_iff, Bool.and_eq_true, isAfter_true_iff]
  cases esk with
  | none => simp [effectiveLow]
  | some start =>
      cases low with
      | unbounded => simp [effectiveLow, admitsAbove]
      | included | excluded =>
          simp only [effectiveLow]
          split <;> simp_all [admitsAbove] <;> grind

theorem admitsBelow_effectiveHigh (high : Bound SortableAttributeValue)
    (esk : Option SortableAttributeValue) (key : SortableAttributeValue) :
    (effectiveHigh high esk).admitsBelow cmpKey key =
      (high.admitsBelow cmpKey key && isAfter false esk key) := by
  rw [Bool.eq_iff_iff, Bool.and_eq_true, isAfter_false_iff]
  cases esk with
  | none => simp [effectiveHigh]
  | some start =>
      cases high with
      | unbounded => simp [effectiveHigh, admitsBelow]
      | included | excluded =>
          simp only [effectiveHigh]
          split <;> simp_all [admitsBelow] <;> grind

theorem filter_inDirection {α : Type} (scanForward : Bool) (p : α → Bool) (entries : List α) :
    inDirection scanForward (entries.filter p) = (inDirection scanForward entries).filter p := by
  cases scanForward <;> simp [inDirection, filter_reverse]

/-- The walk between two ends, one of them moved up to the start key. -/
def walkFrom (partition : Partition) (low high : Bound SortableAttributeValue)
    (scanForward : Bool) (esk : Option SortableAttributeValue) :
    Option (List (SortableAttributeValue × Item)) :=
  if scanForward then walkRange partition (effectiveLow low esk) high true
  else walkRange partition low (effectiveHigh high esk) false

def walkInverted (low high : Bound SortableAttributeValue) (scanForward : Bool)
    (esk : Option SortableAttributeValue) : Bool :=
  if scanForward then Bound.inverted cmpKey (effectiveLow low esk) high
  else Bound.inverted cmpKey low (effectiveHigh high esk)

theorem walkFrom_of_inverted (partition : Partition)
    (h : walkInverted low high scanForward esk = true) :
    walkFrom partition low high scanForward esk = none := by
  cases scanForward <;>
    simpa [walkFrom, walkRange, SortedMap.range_eq_none, walkInverted] using h

theorem walkFrom_of_not_inverted (partition : Partition)
    (h : walkInverted low high scanForward esk = false) :
    walkFrom partition low high scanForward esk =
      some ((inDirection scanForward partition.entries).filter fun e =>
        (low.admitsAbove cmpKey e.1 && high.admitsBelow cmpKey e.1) &&
          isAfter scanForward esk e.1) := by
  rw [← filter_inDirection]
  cases scanForward with
  | true =>
      simp only [walkInverted, if_true] at h
      simp only [walkFrom, if_true, walkRange, SortedMap.range_eq_some h, Option.map_some,
        inDirection, admitsAbove_effectiveLow]
      congr 2
      funext e
      rw [Bool.and_right_comm]
  | false =>
      simp only [walkInverted, Bool.false_eq_true, if_false] at h
      simp only [walkFrom, Bool.false_eq_true, if_false, walkRange, SortedMap.range_eq_some h,
        Option.map_some, inDirection, admitsBelow_effectiveHigh, Bool.and_assoc]

theorem collectRange_eq (partition : Partition) (low high : Bound SortableAttributeValue)
    (scanForward : Bool) (esk : Option SortableAttributeValue) :
    collectRange partition low high scanForward esk =
      (walkFrom partition low high scanForward esk).map (·.map Prod.snd) := by
  cases scanForward <;> rfl

theorem collectBeginsWith_eq (partition : Partition) (start : SortableAttributeValue)
    (upper : Option SortableAttributeValue) (hasPrefix : SortableAttributeValue → Bool)
    (scanForward : Bool) (esk : Option SortableAttributeValue) :
    collectBeginsWith partition start upper hasPrefix scanForward esk =
      (walkFrom partition (.included start) (upper.elim .unbounded .excluded) scanForward esk).map
        fun entries => (entries.filter fun e => hasPrefix e.1).map Prod.snd := by
  cases scanForward <;> cases esk <;> cases upper <;> rfl

/-! ## Prefixes and their upper bounds -/

theorem startsWith_iff {text : String} :
    startsWith text pre = true ↔ ∃ rest, text.toList = pre.toList ++ rest := by
  rw [startsWith, isPrefixOf_iff_prefix]
  exact ⟨fun ⟨rest, h⟩ => ⟨rest, h.symm⟩, fun ⟨rest, h⟩ => ⟨rest, h.symm⟩⟩

theorem computeStrPrefixUpperBound_empty : computeStrPrefixUpperBound "" = none := rfl

/-- The bound keeps everything but the last character, and goes on with what the
incremented last character decodes to. -/
theorem computeStrPrefixUpperBound_eq {front : List Char} {c : Char}
    (h : pre.toList = front ++ [c]) : ∃ tail, computeStrPrefixUpperBound pre =
      some (.s (String.ofList (front ++ incremented c :: tail))) := by
  have hne := encodeChar_ne_nil c
  have hbytes : asBytes pre = encode front ++ String.utf8EncodeChar c := by
    rw [asBytes, h, encode_append, encode_cons, encode_nil, append_nil]
  have hne' : asBytes pre ≠ [] := by
    rw [hbytes]
    exact append_ne_nil_of_right_ne_nil _ hne
  have hkeep : (asBytes pre).rdropWhile (· = 0xFF) = asBytes pre := by
    rw [rdropWhile_eq_self_iff]
    intro _
    have hlast : (asBytes pre).getLast hne' = (String.utf8EncodeChar c).getLast hne := by
      simp only [hbytes, getLast_append_of_right_ne_nil _ _ hne]
    rw [hlast]
    simpa using ne_of_mem_encodeChar (getLast_mem hne)
  obtain ⟨tail, htail⟩ := decodeLossy_incrementLast c
  refine ⟨tail, ?_⟩
  simp only [computeStrPrefixUpperBound, hkeep]
  rw [if_neg (by simpa using hne'), hbytes, incrementLast_append hne,
    decodeLossy_encode_append, htail]

theorem le_of_startsWith {text : String} (h : startsWith text pre = true) : s pre ≤ .s text := by
  obtain ⟨rest, hrest⟩ := startsWith_iff.mp h
  change (cmp (.s pre) (.s text)).isLE = true
  rw [cmp_s, hrest]
  exact isLE_compareLex_append _ _

theorem cmp_upperBound {front : List Char} {c : Char} (h : pre.toList = front ++ [c])
    (rest tail : List Char) :
    SortableAttributeValue.cmp (.s (String.ofList (pre.toList ++ rest)))
        (.s (String.ofList (front ++ incremented c :: tail))) =
      if 0xFFFF ≤ c.toNat ∧ c.toNat % 64 = 63 then .gt else .lt := by
  rw [SortableAttributeValue.cmp_s, h]
  simp only [String.toList_ofList, List.append_assoc]
  rw [compareChars, compareLex_append_self, cons_append,
    List.compareLex_cons_cons, compare_incremented]
  split_ifs <;> rfl

/-- Empty, or ending in a character that decides where the upper bound lies. -/
theorem prefix_cases (pre : String) :
    pre = "" ∨ ∃ front c, pre.toList = front ++ [c] ∧
      (prefixIncrements pre ↔ ¬ (0xFFFF ≤ c.toNat ∧ c.toNat % 64 = 63)) := by
  rcases eq_nil_or_concat pre.toList with hnil | ⟨front, c, hconcat⟩
  · exact Or.inl (String.toList_eq_nil_iff.mp hnil)
  · rw [concat_eq_append] at hconcat
    refine Or.inr ⟨front, c, hconcat, ?_⟩
    simp [prefixIncrements, hconcat]

theorem lt_upperBound_of_startsWith {text : String} (hinc : prefixIncrements pre)
    (h : startsWith text pre = true) {ub : SortableAttributeValue}
    (hub : ub ∈ computeStrPrefixUpperBound pre) : .s text < ub := by
  rcases prefix_cases pre with rfl | ⟨front, c, hpre, hiff⟩
  · simp [computeStrPrefixUpperBound_empty] at hub
  · obtain ⟨tail, htail⟩ := computeStrPrefixUpperBound_eq hpre
    obtain rfl : _ = ub := Option.some.inj (htail.symm.trans hub)
    obtain ⟨rest, hrest⟩ := startsWith_iff.mp h
    have hcmp := cmp_upperBound hpre rest tail
    rw [if_neg (hiff.mp hinc), ← hrest, String.ofList_toList] at hcmp
    exact hcmp

/-- Where incrementing fails, the bound lies below the prefix itself. -/
theorem upperBound_lt_of_not_increments (hinc : ¬ prefixIncrements pre) :
    ∃ ub, computeStrPrefixUpperBound pre = some ub ∧ ub < .s pre := by
  rcases prefix_cases pre with rfl | ⟨front, c, hpre, hiff⟩
  · exact absurd (fun c hc => by simp at hc) hinc
  · obtain ⟨tail, htail⟩ := computeStrPrefixUpperBound_eq hpre
    have hcmp := cmp_upperBound hpre [] tail
    rw [if_pos (not_not.mp (mt hiff.mpr hinc)), append_nil, String.ofList_toList] at hcmp
    exact ⟨_, htail, SortableAttributeValue.cmp_eq_gt.mp hcmp⟩

theorem le_of_isPrefixOf {bytes pre : List UInt8} (h : pre.isPrefixOf bytes = true) :
    b pre ≤ .b bytes := by
  obtain ⟨rest, rfl⟩ := isPrefixOf_iff_prefix.mp h
  exact isLE_compareLex_append _ _

theorem compare_add_one {byte : UInt8} (h : byte ≠ 0xFF) : compare byte (byte + 1) = .lt := by
  have hne : byte.toNat ≠ 0xFF := fun heq => h (UInt8.toNat_inj.mp heq)
  have hbound := byte.toNat_lt
  refine compareOfLessAndEq_eq_lt.mpr ?_
  rw [UInt8.lt_iff_toNat_lt, UInt8.toNat_add]
  simp only [UInt8.reduceToNat]
  omega

theorem lt_upperBound_of_isPrefixOf {bytes pre : List UInt8} (h : pre.isPrefixOf bytes = true)
    {ub : SortableAttributeValue} (hub : ub ∈ computeBytesPrefixUpperBound pre) :
    .b bytes < ub := by
  obtain ⟨rest, rfl⟩ := isPrefixOf_iff_prefix.mp h
  simp only [computeBytesPrefixUpperBound] at hub
  rcases eq_nil_or_concat (pre.rdropWhile (· = 0xFF)) with hnil | ⟨front, last, hkept⟩
  · simp [hnil] at hub
  · rw [concat_eq_append] at hkept
    have hne : pre.rdropWhile (· = 0xFF) ≠ [] := by simp [hkept]
    have hlast := rdropWhile_last_not (· = 0xFF) pre hne
    simp only [hkept, getLast_concat, decide_eq_true_eq] at hlast
    have hsplit : pre = front ++ last :: pre.rtakeWhile (· = 0xFF) := by
      conv_lhs => rw [← rdropWhile_append_rtakeWhile (p := (· = 0xFF)) (l := pre)]
      rw [hkept, append_assoc, singleton_append]
    obtain rfl : b (front ++ [last + 1]) = ub := by
      simpa [hkept, incrementLast] using hub
    change compareBytes _ _ = .lt
    rw [hsplit, compareBytes, append_assoc, compareLex_append_self,
      List.cons_append, List.compareLex_cons_cons, compare_add_one hlast, Ordering.lt_then]

/-! ## The walk is open exactly when the range is not inverted -/

theorem inverted_excluded_excluded :
    inverted cmpKey (.excluded x) (.excluded y) = true ↔ y ≤ x := by
  rw [inverted, bne_iff_ne, cmp_ne_lt]

theorem inverted_included_included :
    inverted cmpKey (.included x) (.included y) = true ↔ y < x := by
  simp [inverted]

theorem inverted_included_excluded :
    inverted cmpKey (.included x) (.excluded y) = true ↔ y < x := by
  simp [inverted]

theorem inverted_excluded_included :
    inverted cmpKey (.excluded x) (.included y) = true ↔ y < x := by
  simp [inverted]

@[simp] theorem inverted_unbounded_left (high : Bound SortableAttributeValue) :
    inverted cmpKey .unbounded high = false := by
  cases high <;> rfl

@[simp] theorem inverted_unbounded_right (low : Bound SortableAttributeValue) :
    inverted cmpKey low .unbounded = false := by
  cases low <;> rfl

theorem walkInverted_unbounded (scanForward : Bool) (esk : Option SortableAttributeValue) :
    walkInverted .unbounded .unbounded scanForward esk = false := by
  cases scanForward <;> simp [walkInverted]

/-- Whatever the ends are, the start key inverts the range exactly when it passes the
far end or the ends are inverted by themselves. -/
theorem walkInverted_iff (low high : Bound SortableAttributeValue) (scanForward : Bool)
    (esk : Option SortableAttributeValue) :
    walkInverted low high scanForward esk = true ↔
      inverted cmpKey low high = true ∨
        ∃ start ∈ esk, if scanForward then inverted cmpKey (.excluded start) high = true
          else inverted cmpKey low (.excluded start) = true := by
  cases esk with
  | none => cases scanForward <;> simp [walkInverted, effectiveLow, effectiveHigh]
  | some start =>
      cases scanForward <;> cases low <;> cases high <;>
        simp only [walkInverted, effectiveLow, effectiveHigh, Option.mem_some_iff,
          exists_eq_left', if_true, Bool.false_eq_true, if_false, inverted_unbounded_left,
          inverted_unbounded_right, or_false, false_or] <;>
        first
          | done
          | split <;> simp_all [inverted_excluded_excluded, inverted_included_included,
              inverted_included_excluded, inverted_excluded_included] <;> grind

theorem collectRange_of_matches {condition : SortKeyCondition}
    (hmatches : ∀ key, condition.matchesValue key =
      (low.admitsAbove cmpKey key && high.admitsBelow cmpKey key)) (partition : Partition)
    (h : walkInverted low high scanForward esk = false) :
    collectRange partition low high scanForward esk =
      some (plainItems partition (some condition) scanForward esk) := by
  rw [collectRange_eq, walkFrom_of_not_inverted partition h]
  simp only [Option.map_some, plainItems, satisfies, hmatches]

theorem collectRange_of_inverted (partition : Partition)
    (h : walkInverted low high scanForward esk = true) :
    collectRange partition low high scanForward esk = none := by
  rw [collectRange_eq, walkFrom_of_inverted partition h, Option.map_none]

theorem collectBeginsWith_of_inverted (partition : Partition) {start : SortableAttributeValue}
    {upper : Option SortableAttributeValue} (hasPrefix : SortableAttributeValue → Bool)
    (h : walkInverted (.included start) (upper.elim .unbounded .excluded) scanForward esk = true) :
    collectBeginsWith partition start upper hasPrefix scanForward esk = none := by
  rw [collectBeginsWith_eq, walkFrom_of_inverted partition h, Option.map_none]

theorem collectBeginsWith_of_matches (condition : SortKeyCondition) {start : SortableAttributeValue}
    {upper : Option SortableAttributeValue}
    (hlow : ∀ key, condition.matchesValue key = true → start ≤ key)
    (hhigh : ∀ key, condition.matchesValue key = true → ∀ ub ∈ upper, key < ub)
    (partition : Partition)
    (h : walkInverted (.included start) (upper.elim .unbounded .excluded) scanForward esk = false) :
    collectBeginsWith partition start upper condition.matchesValue scanForward esk =
      some (plainItems partition (some condition) scanForward esk) := by
  rw [collectBeginsWith_eq, walkFrom_of_not_inverted partition h]
  simp only [Option.map_some, plainItems, satisfies, filter_filter]
  congr 3
  funext e
  rw [Bool.eq_iff_iff]
  simp only [Bool.and_eq_true]
  refine ⟨fun ⟨hm, _, ha⟩ => ⟨hm, ha⟩, fun ⟨hm, ha⟩ => ⟨hm, ⟨?_, ?_⟩, ha⟩⟩
  · exact bne_gt_iff.mpr (hlow _ hm)
  · cases upper with
    | none => rfl
    | some ub => exact beq_iff_eq.mpr (hhigh _ hm ub rfl)

/-- In a sorted partition at most one entry equals a key, and it is the one `get` finds. -/
theorem filter_eq_get? (partition : Partition) (val : SortableAttributeValue) :
    (partition.entries.filter fun e => cmpKey e.1 val == .eq).map Prod.snd =
      (partition.get? val).toList := by
  obtain ⟨entries, hsorted⟩ := partition
  simp only [SortedMap.get?]
  induction entries with
  | nil => rfl
  | cons e es ih =>
      obtain ⟨hhead, htail⟩ := pairwise_cons.mp hsorted
      by_cases heq : cmpKey e.1 val = .eq
      · have hrest : es.filter (fun e => cmpKey e.1 val == .eq) = [] := by
          rw [filter_eq_nil_iff]
          intro x hx
          have hlt : e.1 < x.1 := hhead x hx
          rw [beq_iff_eq]
          grind
        simp [heq, hrest]
      · have hne : (cmpKey e.1 val == .eq) = false := by simpa using heq
        simpa [filter_cons, find?_cons, hne] using ih htail

theorem isAfter_congr (h : cmpKey x y = .eq) :
    isAfter scanForward esk x = isAfter scanForward esk y := by
  rw [cmp_eq_eq] at h
  rw [Bool.eq_iff_iff]
  cases scanForward with
  | true =>
      rw [isAfter_true_iff, isAfter_true_iff]
      exact ⟨fun hx s hs => by grind, fun hx s hs => by grind⟩
  | false =>
      rw [isAfter_false_iff, isAfter_false_iff]
      exact ⟨fun hx s hs => by grind, fun hx s hs => by grind⟩

theorem plainItems_eq (partition : Partition) (val : SortableAttributeValue) (scanForward : Bool)
    (esk : Option SortableAttributeValue) :
    plainItems partition (some (.eq val)) scanForward esk =
      if isAfter scanForward esk val then (partition.get? val).toList else [] := by
  have hfilter : plainItems partition (some (.eq val)) scanForward esk =
      (inDirection scanForward ((partition.entries.filter fun e => cmpKey e.1 val == .eq).map
        Prod.snd)).filter fun _ => isAfter scanForward esk val := by
    have hdir : ∀ l : List (SortableAttributeValue × Item),
        inDirection scanForward (l.map Prod.snd) = (inDirection scanForward l).map Prod.snd := by
      intro l
      cases scanForward <;> simp [inDirection]
    rw [plainItems, hdir, filter_inDirection, filter_map, filter_filter]
    congr 1
    apply filter_congr
    intro e _
    simp only [satisfies, SortKeyCondition.matchesValue, Function.comp_apply]
    by_cases heq : cmpKey e.1 val = .eq
    · rw [isAfter_congr heq, Bool.and_comm]
    · rw [beq_eq_false_iff_ne.mpr heq, Bool.false_and, Bool.and_false]
  rw [hfilter, filter_eq_get?]
  cases partition.get? val <;> cases scanForward <;> cases isAfter _ esk val <;> rfl

/-- The two ends a condition other than `Eq` asks the tree for. -/
def conditionBounds :
    SortKeyCondition → Bound SortableAttributeValue × Bound SortableAttributeValue
  | .eq val => (.included val, .included val)
  | .lt val => (.unbounded, .excluded val)
  | .le val => (.unbounded, .included val)
  | .gt val => (.excluded val, .unbounded)
  | .ge val => (.included val, .unbounded)
  | .between low high => (.included low, .included high)
  | .beginsWithStr pre =>
    (.included (.s pre), (computeStrPrefixUpperBound pre).elim .unbounded .excluded)
  | .beginsWithBytes pre =>
    (.included (.b pre), (computeBytesPrefixUpperBound pre).elim .unbounded .excluded)

def conditionInverted (condition : SortKeyCondition) (scanForward : Bool)
    (esk : Option SortableAttributeValue) : Bool :=
  walkInverted (conditionBounds condition).1 (conditionBounds condition).2 scanForward esk

theorem prefixIncrements_of_not_inverted
    (h : conditionInverted (.beginsWithStr pre) scanForward esk = false) :
    prefixIncrements pre := by
  by_contra hinc
  obtain ⟨ub, hub, hlt⟩ := upperBound_lt_of_not_increments hinc
  have hinv : conditionInverted (.beginsWithStr pre) scanForward esk = true := by
    rw [conditionInverted, walkInverted_iff]
    simp only [conditionBounds, hub, Option.elim_some]
    exact Or.inl (inverted_included_excluded.mpr hlt)
  rw [h] at hinv
  exact Bool.noConfusion hinv

/-- A condition other than `Eq` answers with the plain filter or not at all. -/
theorem collectWithCondition_eq {condition : SortKeyCondition} (hne : ∀ val, condition ≠ .eq val)
    (partition : Partition) (scanForward : Bool) (esk : Option SortableAttributeValue) :
    collectWithCondition partition condition scanForward esk =
      if conditionInverted condition scanForward esk then none
      else some (plainItems partition (some condition) scanForward esk) := by
  split
  · next h =>
      cases condition with
      | eq val => exact absurd rfl (hne val)
      | lt val | le val | gt val | ge val | between low high =>
          exact collectRange_of_inverted partition h
      | beginsWithStr pre | beginsWithBytes pre =>
          simp only [collectWithCondition, collectBeginsWithStr, collectBeginsWithBytes]
          exact collectBeginsWith_of_inverted partition _ h
  · next h =>
      rw [Bool.not_eq_true] at h
      cases condition with
      | eq val => exact absurd rfl (hne val)
      | lt | le =>
          exact collectRange_of_matches (fun key => (Bool.true_and _).symm) partition h
      | gt | ge | between =>
          refine collectRange_of_matches (fun key => ?_) partition h
          rw [Bool.eq_iff_iff]
          simp [SortKeyCondition.matchesValue, conditionBounds, admitsAbove,
            admitsBelow]
      | beginsWithStr pre =>
          have hinc := prefixIncrements_of_not_inverted h
          refine collectBeginsWith_of_matches (.beginsWithStr pre)
            (fun key hkey => ?_) (fun key hkey ub hub => ?_) partition h
          · cases key with
            | s text => exact le_of_startsWith hkey
            | n _ | b _ | sentinel => exact Bool.noConfusion hkey
          · cases key with
            | s text => exact lt_upperBound_of_startsWith hinc hkey hub
            | n _ | b _ | sentinel => exact Bool.noConfusion hkey
      | beginsWithBytes pre =>
          refine collectBeginsWith_of_matches (.beginsWithBytes pre)
            (fun key hkey => ?_) (fun key hkey ub hub => ?_) partition h
          · cases key with
            | b bytes => exact le_of_isPrefixOf hkey
            | n _ | s _ | sentinel => exact Bool.noConfusion hkey
          · cases key with
            | b bytes => exact lt_upperBound_of_isPrefixOf hkey hub
            | n _ | s _ | sentinel => exact Bool.noConfusion hkey

theorem walkOpen_iff {condition : SortKeyCondition} (hne : ∀ val, condition ≠ .eq val)
    (partition : Partition) (scanForward : Bool) (esk : Option SortableAttributeValue) :
    WalkOpen partition (some condition) scanForward esk ↔
      conditionInverted condition scanForward esk = false := by
  rw [← Bool.not_eq_true, conditionInverted, walkInverted_iff]
  cases condition with
  | eq val => exact absurd rfl (hne val)
  | lt val | le val | gt val | ge val =>
      cases scanForward <;>
        simp [WalkOpen, startBefore, conditionBounds, inverted_excluded_excluded,
          inverted_excluded_included, inverted_included_excluded]
      all_goals grind
  | between low high =>
      cases scanForward <;>
        (simp [WalkOpen, startBefore, conditionBounds, inverted_excluded_included,
          inverted_included_excluded, inverted_included_included]; grind)
  | beginsWithStr pre =>
      have hinc : prefixIncrements pre ↔ ∀ ub ∈ computeStrPrefixUpperBound pre, .s pre ≤ ub := by
        refine ⟨fun h ub hub => ?_, fun h => ?_⟩
        · have hself : startsWith pre pre = true := startsWith_iff.mpr ⟨[], by simp⟩
          have hlt := lt_upperBound_of_startsWith h hself hub
          grind
        · by_contra hinc
          obtain ⟨ub, hub, hlt⟩ := upperBound_lt_of_not_increments hinc
          have hle := h ub hub
          grind
      simp only [WalkOpen, hinc, startBefore, conditionBounds]
      cases computeStrPrefixUpperBound pre <;> cases scanForward <;>
        simp [inverted_excluded_excluded, inverted_included_excluded] <;> grind
  | beginsWithBytes pre =>
      have hinc : ∀ ub ∈ computeBytesPrefixUpperBound pre, .b pre ≤ ub := fun ub hub => by
        have hlt := lt_upperBound_of_isPrefixOf
          ( isPrefixOf_iff_prefix.mpr (prefix_refl pre)) hub
        grind
      simp only [WalkOpen, startBefore, conditionBounds]
      revert hinc
      cases computeBytesPrefixUpperBound pre <;> cases scanForward <;>
        simp [inverted_excluded_excluded, inverted_included_excluded] <;> grind

/-! ## The query -/

/-- An open walk collects what the plain filter selects; a walk that is not open panics,
or is an `Eq` that returns an item the start key rules out. -/
theorem collectMatchingItems_eq_iff (partition : Partition)
    (sortCondition : Option SortKeyCondition) (scanForward : Bool)
    (esk : Option SortableAttributeValue) :
    collectMatchingItems partition sortCondition scanForward esk =
        some (plainItems partition sortCondition scanForward esk) ↔
      WalkOpen partition sortCondition scanForward esk := by
  rcases sortCondition with _ | condition
  · have hwalk := walkFrom_of_not_inverted partition (walkInverted_unbounded scanForward esk)
    have hcollect : collectAllInOrder partition scanForward esk =
        (walkFrom partition .unbounded .unbounded scanForward esk).map (·.map Prod.snd) := by
      cases scanForward <;> cases esk <;>
        simp [collectAllInOrder, walkFrom, walkRange, effectiveLow, effectiveHigh,
          SortedMap.range, admitsAbove, admitsBelow]
    refine iff_of_true ?_ trivial
    rw [collectMatchingItems, hcollect, hwalk]
    rfl
  · by_cases heq : ∃ val, condition = .eq val
    · obtain ⟨val, rfl⟩ := heq
      simp only [collectMatchingItems, collectWithCondition, plainItems_eq, WalkOpen]
      cases isAfter scanForward esk val <;> cases partition.get? val <;> simp
    · have hne : ∀ val, condition ≠ .eq val := fun val h => heq ⟨val, h⟩
      rw [walkOpen_iff hne, collectMatchingItems, collectWithCondition_eq hne]
      cases conditionInverted condition scanForward esk <;> simp

theorem query_of_lookup {t : TableStorage} {partitionKey : AttributeValue} {partition : Partition}
    (h : t.data.lookup partitionKey = some partition) (sortCondition : Option SortKeyCondition)
    (scanForward : Bool) (limit : Option ℕ) (esk : Option SortableAttributeValue) :
    (t.query partitionKey sortCondition scanForward limit esk).map Prod.fst =
      (collectMatchingItems partition sortCondition scanForward esk).map fun items =>
        (Paging.page calculateItemSize maxResponseBytes limit items).1 := by
  simp only [TableStorage.query, h]
  cases collectMatchingItems partition sortCondition scanForward esk <;> rfl

/-- What a walk that is not open collects gives a page the plain filter does not give. -/
theorem page_ne_of_not_open {partition : Partition} {sortCondition : Option SortKeyCondition}
    {limit : Option ℕ} (hlimit : limit ≠ some 0) {items : List Item}
    (hcollect : collectMatchingItems partition sortCondition scanForward esk = some items)
    (hopen : ¬ WalkOpen partition sortCondition scanForward esk) :
    (Paging.page calculateItemSize maxResponseBytes limit items).1 ≠
      (Paging.page calculateItemSize maxResponseBytes limit
        (plainItems partition sortCondition scanForward esk)).1 := by
  rcases sortCondition with _ | condition
  · exact absurd trivial hopen
  · by_cases heq : ∃ val, condition = .eq val
    · obtain ⟨val, rfl⟩ := heq
      simp only [WalkOpen, not_or] at hopen
      obtain ⟨item, hitem⟩ := Option.ne_none_iff_exists'.mp hopen.2
      obtain rfl : [item] = items := by
        simpa [collectMatchingItems, collectWithCondition, hitem] using hcollect
      have hplain : plainItems partition (some (.eq val)) scanForward esk = [] := by
        rw [plainItems_eq, if_neg hopen.1]
      have hnil : (Paging.page calculateItemSize maxResponseBytes limit ([] : List Item)).1 = [] :=
        prefix_nil.mp (Paging.page_isPrefix _ _ limit [])
      rw [hplain, hnil]
      exact Paging.page_ne_nil _ _ hlimit (cons_ne_nil _ _)
    · have hne : ∀ val, condition ≠ .eq val := fun val h => heq ⟨val, h⟩
      rw [walkOpen_iff hne, Bool.not_eq_false] at hopen
      rw [collectMatchingItems, collectWithCondition_eq hne, if_pos hopen] at hcollect
      exact absurd hcollect (Option.some_ne_none items).symm

/-- The query returns the page of the plain filter exactly when there is no such
partition or the walk over it is open. -/
theorem query_eq_plainQuery_iff (t : TableStorage) (partitionKey : AttributeValue)
    (sortCondition : Option SortKeyCondition) (scanForward : Bool) (limit : Option ℕ)
    (exclusiveStartKey : Option SortableAttributeValue) (hlimit : limit ≠ some 0) :
    (∃ lastKey, t.query partitionKey sortCondition scanForward limit exclusiveStartKey =
        some (plainQuery t partitionKey sortCondition scanForward limit exclusiveStartKey,
          lastKey)) ↔
      partitionKey ∉ t.data ∨
        WalkOpen (t.partition partitionKey) sortCondition scanForward exclusiveStartKey := by
  have hfst : ∀ {result : Option (List Item × Option PrimaryKey)} {items : List Item},
      (∃ lastKey, result = some (items, lastKey)) ↔ result.map Prod.fst = some items := by
    intro result items
    cases result with
    | none => simp
    | some r => simp [Prod.ext_iff]
  rw [hfst]
  cases hlookup : t.data.lookup partitionKey with
  | none =>
      have hpartition : t.partition partitionKey = .empty := by
        simp [TableStorage.partition, hlookup]
      refine iff_of_true ?_ (Or.inl (AList.lookup_eq_none.mp hlookup))
      have hplain : plainItems .empty sortCondition scanForward exclusiveStartKey = [] := by
        cases scanForward <;> rfl
      have hnil : (Paging.page calculateItemSize maxResponseBytes limit ([] : List Item)).1 = [] :=
        prefix_nil.mp (Paging.page_isPrefix _ _ limit [])
      simp only [TableStorage.query, hlookup, Option.map_some, plainQuery, hpartition, hplain,
        hnil]
  | some partition =>
      have hpartition : t.partition partitionKey = partition := by
        simp [TableStorage.partition, hlookup]
      have hmem : partitionKey ∈ t.data := AList.lookup_isSome.mp (by rw [hlookup]; rfl)
      rw [query_of_lookup hlookup, plainQuery, hpartition, or_iff_right (not_not.mpr hmem),
        ← collectMatchingItems_eq_iff]
      refine ⟨fun h => ?_, fun h => by rw [h, Option.map_some]⟩
      obtain ⟨items, hcollect, hpage⟩ := Option.map_eq_some_iff.mp h
      by_contra hne
      rw [collectMatchingItems_eq_iff] at hne
      exact page_ne_of_not_open hlimit hcollect hne hpage

/-- Four items under `"p"`, put out of order. -/
def fourItemTable : TableStorage :=
  let keySchema : KeySchema := { partitionKey := ⟨"pk", .s⟩, sortKey := some ⟨"sk", .s⟩ }
  ["t", "b", "z", "m"].foldl (fun t sk =>
    (t.putPrepared ⟨.s "p", some (.s sk)⟩ [("pk", .s "p"), ("sk", .s sk)]).1) (.new keySchema)

/-- The page goes on behind `"m"` and is cut before `"z"`. -/
theorem query_eq_plainQuery_iff_fourItemTable :
    (∃ lastKey, fourItemTable.query (.s "p") (some (.ge (.s "a"))) true (some 1) (some (.s "m")) =
        some (plainQuery fourItemTable (.s "p") (some (.ge (.s "a"))) true (some 1)
          (some (.s "m")), lastKey)) ↔
      (.s "p") ∉ fourItemTable.data ∨
        WalkOpen (fourItemTable.partition (.s "p")) (some (.ge (.s "a"))) true (some (.s "m")) :=
  query_eq_plainQuery_iff fourItemTable (.s "p") (some (.ge (.s "a"))) true (some 1)
    (some (.s "m")) (by decide)

example : fourItemTable.query (.s "p") (some (.ge (.s "a"))) true (some 1) (some (.s "m")) =
    some ([[("pk", .s "p"), ("sk", .s "t")]], some ⟨.s "p", some (.s "t")⟩) := by decide

/-- `BETWEEN` with the operands the wrong way round matches nothing, and panics. -/
theorem query_between_inverted :
    ¬ ∃ lastKey, fourItemTable.query (.s "p") (some (.between (.s "z") (.s "a"))) true (some 1)
        none =
      some (plainQuery fourItemTable (.s "p") (some (.between (.s "z") (.s "a"))) true (some 1)
        none, lastKey) := by
  have hpanic : fourItemTable.query (.s "p") (some (.between (.s "z") (.s "a"))) true (some 1)
      none = none := by decide
  rintro ⟨lastKey, h⟩
  rw [hpanic] at h
  exact Option.some_ne_none _ h.symm

end Rustack.DynamoDB
