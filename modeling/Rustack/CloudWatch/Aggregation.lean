import Rustack.CloudWatch.MetricStore
import Rustack.Lib.Outcome

/-!
# Statistics over periods

The points of a range are put into buckets by the period, and each bucket is summed up.  Nothing
checks the range and the period of a request, so a call panics for some of them.  For the others
the buckets share out the points in the range.
-/

namespace Rustack.CloudWatch

open Lib (Binary64)

inductive Statistic where
  | average | maximum | minimum | sampleCount | sum
  deriving DecidableEq

structure AggregatedDatapoint where
  timestamp : ℤ
  sum : Option Binary64
  average : Option Binary64
  minimum : Option Binary64
  maximum : Option Binary64
  sampleCount : Option Binary64
  unit : Option StandardUnit

/-! ## One bucket -/

/-- The four running values. -/
structure Tally where
  sum : Binary64 := .finite 0
  min : Binary64 := .infinite false
  max : Binary64 := .infinite true
  sampleCount : Binary64 := .finite 0

namespace Tally

/-- One turn of the loops: two sums, `if low < min` and `if high > max`. -/
def sample (t : Tally) (total low high count : Binary64) : Tally where
  sum := t.sum.add total
  min := if low.lt t.min then low else t.min
  max := if t.max.lt high then high else t.max
  sampleCount := t.sampleCount.add count

def add (t : Tally) (p : DataPoint) : Tally :=
  match p.statisticValues with
  | some ss => t.sample ss.sum ss.minimum ss.maximum ss.sampleCount
  | none =>
    if p.values ≠ [] then
      p.values.zipIdx.foldl (fun t entry =>
        let count := (p.counts[entry.2]?).getD (.finite 1)
        t.sample (entry.1.mul count) entry.1 entry.1 count) t
    else
      match p.value with
      | some val => t.sample val val val (.finite 1)
      | none => t

end Tally

def computeBucketStatistics (timestamp : ℤ) (points : List DataPoint)
    (statistics : List Statistic) : AggregatedDatapoint :=
  let t := points.foldl Tally.add {}
  let unit := points.head?.bind DataPoint.unit
  if t.sampleCount = .finite 0 then ⟨timestamp, none, none, none, none, none, unit⟩
  else
    { timestamp
      sum := if .sum ∈ statistics then some t.sum else none
      average := if .average ∈ statistics then some (t.sum.div t.sampleCount) else none
      minimum := if .minimum ∈ statistics then some t.min else none
      maximum := if .maximum ∈ statistics then some t.max else none
      sampleCount := if .sampleCount ∈ statistics then some t.sampleCount else none
      unit }

/-! ## All buckets -/

/-- An integer of 64 bits, or an overflow. -/
def i64 (n : ℤ) : Outcome CloudWatchError ℤ :=
  if -2 ^ 63 ≤ n ∧ n < 2 ^ 63 then .ok n else .panic

/-- `(t / period) * period`, with the division that rounds to zero. -/
def bucketStart (t period : ℤ) : Outcome CloudWatchError ℤ :=
  if period = 0 then .panic else do
    let quotient ← i64 (t.tdiv period)
    i64 (quotient * period)

def groupPoints (period : ℤ) : Groups ℤ DataPoint → List DataPoint →
    Outcome CloudWatchError (Groups ℤ DataPoint)
  | buckets, [] => .ok buckets
  | buckets, p :: ps => do
    let start ← bucketStart p.time period
    groupPoints period (buckets.push start p) ps

def aggregateStatistics (dataPoints : Groups ℤ DataPoint) (startTime endTime period : ℤ)
    (statistics : List Statistic) : Outcome CloudWatchError (List AggregatedDatapoint) := do
  let startMs ← i64 (startTime * 1000)
  let endMs ← i64 (endTime * 1000)
  let periodMs ← i64 (period * 1000)
  if endMs < startMs then .panic
  else if dataPoints.between startMs endMs = [] then .ok []
  else do
    let buckets ← groupPoints periodMs .empty (dataPoints.between startMs endMs)
    .ok (buckets.entries.map fun b => computeBucketStatistics (b.1.tdiv 1000) b.2 statistics)

/-- An integer of 32 bits. -/
structure I32 where
  val : ℤ
  min_le : -2 ^ 31 ≤ val
  lt_max : val < 2 ^ 31

structure GetMetricStatisticsInput where
  namespace_ : String
  metricName : String
  dimensions : List Dimension
  startTime : DateTime
  endTime : DateTime
  period : I32
  statistics : List Statistic

namespace GetMetricStatisticsInput

variable (input : GetMetricStatisticsInput)

def validate : Except CloudWatchError Unit := do
  validateNamespace input.namespace_
  validateMetricName input.metricName
  validateDimensions input.dimensions
  if input.statistics = [] then
    throw ⟨.missingRequiredParameterException, "Statistics must not be empty."⟩

def key : MetricKey := .new input.namespace_ input.metricName (normalizeDimensions input.dimensions)

end GetMetricStatisticsInput

/-- The data points of the answer. -/
def MetricStore.getMetricStatistics (store : MetricStore) (input : GetMetricStatisticsInput) :
    Outcome CloudWatchError (List AggregatedDatapoint) :=
  match input.validate with
  | .error e => .err e
  | .ok _ =>
    match store.get input.key with
    | none => .ok []
    | some series => aggregateStatistics series.dataPoints input.startTime.secs input.endTime.secs
        input.period.val input.statistics

/-! ## When a call panics, and what it answers -/

/-- The range of a request, in whole seconds. -/
def GetMetricStatisticsInput.Covers (input : GetMetricStatisticsInput) (p : DataPoint) : Prop :=
  input.startTime.secs * 1000 ≤ p.time ∧ p.time < input.endTime.secs * 1000

instance (input : GetMetricStatisticsInput) (p : DataPoint) : Decidable (input.Covers p) :=
  inferInstanceAs (Decidable (_ ∧ _))

/-- The multiple of the period next to a time, on the side of 1970. -/
def truncated (period : ℤ) (p : DataPoint) : ℤ := p.time.tdiv period * period

/-- The points shared out: each in the bucket of its own multiple of the period. -/
structure Shares (period : ℤ) (points : List DataPoint) (buckets : List (ℤ × List DataPoint)) :
    Prop where
  sorted : buckets.Pairwise fun b b' => b.1 < b'.1
  mem_iff : ∀ key ps, (key, ps) ∈ buckets ↔
    ps ≠ [] ∧ ps = points.filter fun p => truncated period p = key

theorem i64_eq_ok {n : ℤ} (h : -2 ^ 63 ≤ n ∧ n < 2 ^ 63) : i64 n = .ok n := if_pos h

theorem abs_tdiv_mul_le (t period : ℤ) : |t.tdiv period * period| ≤ |t| := by
  rw [abs_mul, Int.abs_eq_natAbs, Int.abs_eq_natAbs, Int.abs_eq_natAbs, Int.natAbs_tdiv]
  exact_mod_cast Nat.div_mul_le_self _ _

theorem bucketStart_eq {period : ℤ} (hperiod : period ≠ 0) (p : DataPoint) :
    bucketStart p.time period = .ok (truncated period p) := by
  have hmin := p.timestampMs.min_le
  have hmax := p.timestampMs.lt_max
  have htime : |p.time| < 2 ^ 62 := by
    unfold DataPoint.time MIN_SECS MAX_SECS at *
    rw [abs_lt]
    omega
  have hproduct := (abs_tdiv_mul_le p.time period).trans_lt htime
  have hquotient : |p.time.tdiv period| < 2 ^ 62 := by
    rw [Int.abs_eq_natAbs, Int.natAbs_tdiv] at *
    have hle : p.time.natAbs.div period.natAbs ≤ p.time.natAbs := Nat.div_le_self _ _
    omega
  rw [abs_lt] at hproduct hquotient
  rw [bucketStart, if_neg hperiod, i64_eq_ok (by omega)]
  exact i64_eq_ok (by omega)

theorem groupPoints_eq {period : ℤ} (hperiod : period ≠ 0) {buckets : Groups ℤ DataPoint}
    (hkeyed : buckets.Keyed (truncated period)) (ps : List DataPoint) :
    ∃ grouped : Groups ℤ DataPoint, groupPoints period buckets ps = .ok grouped ∧
      grouped.Keyed (truncated period) ∧ grouped.values =
        ps.foldl (fun placed p => Groups.place (truncated period) p placed) buckets.values := by
  induction ps generalizing buckets with
  | nil => exact ⟨buckets, rfl, hkeyed, rfl⟩
  | cons p ps ih =>
      obtain ⟨grouped, heq, hgrouped, hvalues⟩ := ih (hkeyed.push p)
      refine ⟨grouped, ?_, hgrouped, ?_⟩
      · rw [groupPoints, bucketStart_eq hperiod]
        exact heq
      · rw [hvalues, hkeyed.values_push]
        rfl

theorem shares_of_values {period : ℤ} {points : List DataPoint} {grouped : Groups ℤ DataPoint}
    (hkeyed : grouped.Keyed (truncated period))
    (hvalues : grouped.values = Groups.arrange (truncated period) points) :
    Shares period points grouped.entries where
  sorted := grouped.sorted
  mem_iff key ps := by rw [hkeyed.mem_entries_iff, hvalues, Groups.filter_arrange]

/-- What a call comes to once its request is accepted and its metric is there. -/
theorem aggregateStatistics_eq (series : MetricSeries) (input : GetMetricStatisticsInput) :
    let result := aggregateStatistics series.dataPoints input.startTime.secs input.endTime.secs
      input.period.val input.statistics
    let points := series.points.filter fun p => input.Covers p
    (input.endTime.secs < input.startTime.secs ∨ input.period.val = 0 ∧ points ≠ []) ∧
        result = .panic ∨
      (input.startTime.secs ≤ input.endTime.secs ∧ (input.period.val = 0 → points = [])) ∧
        ∃ buckets, Shares (input.period.val * 1000) points buckets ∧
          result = .ok (buckets.map fun b =>
          computeBucketStatistics (b.1.tdiv 1000) b.2 input.statistics) := by
  have hbound : ∀ t : DateTime, i64 (t.secs * 1000) = .ok (t.secs * 1000) := by
    intro t
    have hmin := t.min_le
    have hmax := t.le_max
    unfold MIN_SECS MAX_SECS at *
    exact i64_eq_ok (by omega)
  have hperiod : i64 (input.period.val * 1000) = .ok (input.period.val * 1000) := by
    have hmin := input.period.min_le
    have hmax := input.period.lt_max
    exact i64_eq_ok (by omega)
  have hpoints : series.dataPoints.between (input.startTime.secs * 1000)
      (input.endTime.secs * 1000) = series.points.filter fun p => input.Covers p :=
    series.keyed.between_eq _ _
  dsimp only
  unfold aggregateStatistics
  rw [hbound, hbound, hperiod]
  dsimp only [Outcome.ok_bind]
  rw [hpoints]
  by_cases hinverted : input.endTime.secs < input.startTime.secs
  · rw [if_pos (by omega)]
    exact .inl ⟨.inl hinverted, rfl⟩
  rw [if_neg (by omega)]
  by_cases hnone : series.points.filter (fun p => input.Covers p) = []
  · rw [if_pos hnone, hnone]
    refine .inr ⟨⟨not_lt.mp hinverted, fun _ => rfl⟩, [], ⟨.nil, fun key ps => ?_⟩, rfl⟩
    exact iff_of_false List.not_mem_nil fun h => h.1 h.2
  rw [if_neg hnone]
  by_cases hzero : input.period.val = 0
  · refine .inl ⟨.inr ⟨hzero, hnone⟩, ?_⟩
    rw [hzero]
    cases hps : series.points.filter (fun p => input.Covers p) with
    | nil => exact absurd hps hnone
    | cons p ps => rfl
  · obtain ⟨grouped, heq, hkeyed, hvalues⟩ := groupPoints_eq (by omega :
      input.period.val * 1000 ≠ 0) Groups.keyed_empty
        (series.points.filter fun p => input.Covers p)
    refine .inr ⟨⟨not_lt.mp hinverted, fun h => absurd h hzero⟩, grouped.entries,
      shares_of_values hkeyed hvalues, ?_⟩
    rw [heq]
    rfl

/-- A call panics exactly for an accepted request on a metric that is there, with its range turned
round or with no period for the points in it.  Every other accepted request is answered, and an
answer has a data point for each bucket of the points in the range. -/
theorem getMetricStatistics_spec (store : MetricStore) (input : GetMetricStatisticsInput) :
    let points := (store.stored input.key).filter fun p => input.Covers p
    (store.getMetricStatistics input = .panic ↔
      input.validate = .ok () ∧ (store.get input.key).isSome ∧
        (input.endTime.secs < input.startTime.secs ∨ input.period.val = 0 ∧ points ≠ [])) ∧
    (input.validate = .ok () → store.getMetricStatistics input ≠ .panic →
      ∃ answer, store.getMetricStatistics input = .ok answer) ∧
    ∀ answer, store.getMetricStatistics input = .ok answer →
      ∃ buckets, Shares (input.period.val * 1000) points buckets ∧ answer = buckets.map fun b =>
        computeBucketStatistics (b.1.tdiv 1000) b.2 input.statistics := by
  unfold MetricStore.getMetricStatistics MetricStore.stored
  cases hvalid : input.validate with
  | error e => exact ⟨iff_of_false nofun nofun, nofun, nofun⟩
  | ok u =>
      dsimp only
      cases store.get input.key with
      | none =>
          refine ⟨iff_of_false nofun fun h => (by cases h.2.1), fun _ _ => ⟨[], rfl⟩,
            fun answer h => ?_⟩
          cases h
          exact ⟨[], ⟨.nil, fun key ps => iff_of_false List.not_mem_nil fun h => h.1 h.2⟩, rfl⟩
      | some series =>
          dsimp only [Option.map_some, Option.getD_some]
          obtain ⟨hcause, hpanic⟩ | ⟨⟨hordered, hempty⟩, buckets, hshares, hok⟩ :=
            aggregateStatistics_eq series input
          · rw [hpanic]
            exact ⟨iff_of_true rfl ⟨rfl, rfl, hcause⟩, fun _ h => absurd rfl h, nofun⟩
          · rw [hok]
            refine ⟨iff_of_false nofun ?_, fun _ _ => ⟨_, rfl⟩,
              fun answer h => ⟨buckets, hshares, ?_⟩⟩
            · rintro ⟨-, -, hinverted | ⟨hzero, hpoints⟩⟩
              · omega
              · exact hpoints (hempty hzero)
            · cases h
              rfl

end Rustack.CloudWatch
