import Mathlib.Data.List.AList
import Mathlib.Data.List.Destutter
import Mathlib.Data.String.Basic
import Rustack.Lib.Binary64
import Rustack.Lib.Groups

/-!
# Metrics and their points

A series keeps its points by their times, and beyond its limit the oldest go.  What is left after
any run of calls is the newest part of all that was put.
-/

namespace Rustack.CloudWatch

open Lib (Binary64)
open Groups

/-! ## Times -/

def MIN_SECS : ℤ := -8334601228800
def MAX_SECS : ℤ := 8210266876799

/-- A time within the range of the calendar, with room for a leap second. -/
structure DateTime where
  secs : ℤ
  nanos : ℕ
  min_le : MIN_SECS ≤ secs
  le_max : secs ≤ MAX_SECS
  nanos_lt : nanos < 2 * 10 ^ 9

/-- Milliseconds since 1970 of such a time. -/
structure Millis where
  val : ℤ
  min_le : MIN_SECS * 1000 ≤ val
  lt_max : val < (MAX_SECS + 2) * 1000

def DateTime.timestampMillis (t : DateTime) : Millis where
  val := t.secs * 1000 + t.nanos / 1000000
  min_le := by
    have := t.min_le
    omega
  lt_max := by
    have := t.le_max
    have := t.nanos_lt
    omega

/-! ## Metrics -/

structure Dimension where
  name : String
  value : String
  deriving DecidableEq

structure MetricKey where
  namespace_ : String
  metricName : String
  dimensions : List Dimension
  deriving DecidableEq

def sortByName (dimensions : List Dimension) : List Dimension :=
  dimensions.mergeSort fun a b => a.name ≤ b.name

/-- Of dimensions next to each other with one name the first stays. -/
def normalizeDimensions (dimensions : List Dimension) : List Dimension :=
  (sortByName dimensions).destutter fun a b => a.name ≠ b.name

def MetricKey.new (namespace_ metricName : String) (dimensions : List Dimension) : MetricKey :=
  ⟨namespace_, metricName, sortByName dimensions⟩

inductive StandardUnit where
  | bits | bitsSecond | bytes | bytesSecond | count | countSecond | gigabits | gigabitsSecond
  | gigabytes | gigabytesSecond | kilobits | kilobitsSecond | kilobytes | kilobytesSecond
  | megabits | megabitsSecond | megabytes | megabytesSecond | microseconds | milliseconds | none
  | percent | seconds | terabits | terabitsSecond | terabytes | terabytesSecond
  deriving DecidableEq

structure StatisticSet where
  sampleCount : Binary64
  sum : Binary64
  minimum : Binary64
  maximum : Binary64

structure DataPoint where
  timestampMs : Millis
  value : Option Binary64
  statisticValues : Option StatisticSet
  values : List Binary64
  counts : List Binary64
  unit : Option StandardUnit

def DataPoint.time (p : DataPoint) : ℤ := p.timestampMs.val

open DataPoint (time)

/-! ## Series -/

structure MetricSeries where
  dataPoints : Groups ℤ DataPoint
  unit : Option StandardUnit
  keyed : dataPoints.Keyed DataPoint.time

namespace MetricSeries

def empty : MetricSeries := ⟨.empty, none, Groups.keyed_empty⟩

/-- The points above the limit, counted from the oldest, go. -/
def trim (limit : ℕ) (points : Groups ℤ DataPoint) : Groups ℤ DataPoint :=
  if limit < points.values.length then points.drain (points.values.length - limit) else points

def insert (limit : ℕ) (s : MetricSeries) (p : DataPoint) : MetricSeries where
  dataPoints := trim limit (s.dataPoints.push p.time p)
  unit := s.unit <|> p.unit
  keyed := by
    unfold trim
    split
    · exact (s.keyed.push p).drain _
    · exact s.keyed.push p

def points (s : MetricSeries) : List DataPoint := s.dataPoints.values

end MetricSeries

/-- The last points, as many as the limit allows. -/
def newest (limit : ℕ) (ps : List DataPoint) : List DataPoint := ps.drop (ps.length - limit)

theorem newest_place (limit : ℕ) (p : DataPoint) {ps : List DataPoint}
    (h : ps.Pairwise fun q r => q.time ≤ r.time) :
    newest limit (place time p (newest limit ps)) =
      newest limit (place time p ps) := by
  unfold newest
  rw [(perm_place p _).length_eq, (perm_place p ps).length_eq, List.length_cons,
    List.length_cons, List.length_drop]
  rcases Nat.lt_or_ge ps.length limit with hlt | hge
  · rw [Nat.sub_eq_zero_of_le hlt.le]
    rfl
  · have hone : ps.length - (ps.length - limit) + 1 - limit = 1 := by omega
    have hmore : ps.length + 1 - limit = ps.length - limit + 1 := by omega
    rw [hone, hmore]
    exact drop_place p _ h

theorem foldl_newest (limit : ℕ) (ps : List DataPoint) :
    ps.foldl (fun points p => newest limit (place time p points)) [] =
      newest limit (arrange time ps) := by
  induction ps using List.reverseRecOn with
  | nil => exact List.drop_nil.symm
  | append_singleton ps p ih =>
      rw [List.foldl_concat, ih, newest_place limit p (pairwise_arrange ps),
        arrange_concat]

theorem MetricSeries.points_insert (limit : ℕ) (s : MetricSeries) (p : DataPoint) :
    (s.insert limit p).points = newest limit (place time p s.points) := by
  change (trim limit (s.dataPoints.push p.time p)).values = newest limit _
  unfold trim newest points
  rw [← s.keyed.values_push]
  split
  · rw [values_drain]
  · rw [Nat.sub_eq_zero_of_le (by omega)]
    rfl

/-! ## The store -/

structure MetricStore where
  series : AList fun _ : MetricKey => MetricSeries
  maxPointsPerSeries : ℕ

namespace MetricStore

def new (maxPointsPerSeries : ℕ) : MetricStore := ⟨∅, maxPointsPerSeries⟩

def insert (store : MetricStore) (key : MetricKey) (p : DataPoint) : MetricStore :=
  { store with
    series := store.series.insert key
      (((store.series.lookup key).getD .empty).insert store.maxPointsPerSeries p) }

def get (store : MetricStore) (key : MetricKey) : Option MetricSeries := store.series.lookup key

end MetricStore

/-! ## Puts -/

inductive CloudWatchErrorCode where
  | invalidParameterValueException | missingRequiredParameterException
  deriving DecidableEq

structure CloudWatchError where
  code : CloudWatchErrorCode
  message : String
  deriving DecidableEq

def check (ok : Bool) (message : String) : Except CloudWatchError Unit :=
  if ok then .ok () else .error ⟨.invalidParameterValueException, message⟩

def within (text : String) (limit : ℕ) : Bool := !text.isEmpty && text.utf8ByteSize ≤ limit

def validateNamespace (text : String) : Except CloudWatchError Unit :=
  check (within text 255) "Namespace must be between 1 and 255 characters."

def validateMetricName (name : String) : Except CloudWatchError Unit :=
  check (within name 255) "MetricName must be between 1 and 255 characters."

def validateDimensions (dims : List Dimension) : Except CloudWatchError Unit := do
  check (dims.length ≤ 30) "Maximum number of dimensions per metric is 30."
  dims.forM fun d => do
    check (within d.name 255) "Dimension name must be between 1 and 255 characters."
    check (within d.value 1024) "Dimension value must be between 1 and 1024 characters."

structure MetricDatum where
  metricName : String
  dimensions : List Dimension
  timestamp : Option DateTime
  value : Option Binary64
  statisticValues : Option StatisticSet
  values : List Binary64
  counts : List Binary64
  unit : Option StandardUnit

structure PutMetricDataInput where
  namespace_ : String
  metricData : List MetricDatum

def MetricDatum.key (namespace_ : String) (datum : MetricDatum) : MetricKey :=
  .new namespace_ datum.metricName (normalizeDimensions datum.dimensions)

def MetricDatum.point (now : DateTime) (datum : MetricDatum) : DataPoint where
  timestampMs := (datum.timestamp.getD now).timestampMillis
  value := datum.value
  statisticValues := datum.statisticValues
  values := datum.values
  counts := datum.counts
  unit := datum.unit

def PutMetricDataInput.validate (input : PutMetricDataInput) : Except CloudWatchError Unit := do
  validateNamespace input.namespace_
  input.metricData.forM fun datum => do
    validateMetricName datum.metricName
    validateDimensions datum.dimensions

/-- The points of a call with the metrics they are for. -/
def PutMetricDataInput.puts (input : PutMetricDataInput) (now : DateTime) :
    List (MetricKey × DataPoint) :=
  input.metricData.map fun datum => (datum.key input.namespace_, datum.point now)

namespace MetricStore

def putMetricData (store : MetricStore) (now : DateTime) (input : PutMetricDataInput) :
    Except CloudWatchError MetricStore := do
  input.validate
  return (input.puts now).foldl (fun store put => store.insert put.1 put.2) store

/-- A call, which changes nothing if it is refused. -/
def put (store : MetricStore) (call : DateTime × PutMetricDataInput) : MetricStore :=
  match store.putMetricData call.1 call.2 with
  | .ok store' => store'
  | .error _ => store

def run (store : MetricStore) (calls : List (DateTime × PutMetricDataInput)) : MetricStore :=
  calls.foldl put store

end MetricStore

/-- What a call puts into one metric. -/
def putOnce (key : MetricKey) (call : DateTime × PutMetricDataInput) : List DataPoint :=
  if call.2.validate = .ok () then
    ((call.2.puts call.1).filter fun put => put.1 = key).map Prod.snd
  else []

/-- All that a run puts into it, call after call. -/
def putInto (key : MetricKey) (calls : List (DateTime × PutMetricDataInput)) : List DataPoint :=
  calls.flatMap (putOnce key)

namespace MetricStore

/-- The points stored for a metric. -/
def stored (store : MetricStore) (key : MetricKey) : List DataPoint :=
  ((store.get key).map MetricSeries.points).getD []

theorem stored_insert (store : MetricStore) (key key' : MetricKey) (p : DataPoint) :
    (store.insert key p).stored key' = if key = key' then
      newest store.maxPointsPerSeries (place time p (store.stored key'))
    else store.stored key' := by
  change (((store.series.insert key _).lookup key').map MetricSeries.points).getD [] = _
  split
  · next hkey =>
      subst hkey
      rw [AList.lookup_insert, Option.map_some, Option.getD_some, MetricSeries.points_insert]
      unfold stored get
      cases store.series.lookup key <;> rfl
  · next hkey =>
      rw [AList.lookup_insert_ne fun h => hkey h.symm]
      rfl

theorem stored_foldl_insert (puts : List (MetricKey × DataPoint)) (store : MetricStore)
    (key : MetricKey) :
    let after := puts.foldl (fun store put => store.insert put.1 put.2) store
    after.maxPointsPerSeries = store.maxPointsPerSeries ∧
      after.stored key = ((puts.filter fun put => put.1 = key).map Prod.snd).foldl (fun points p =>
        newest store.maxPointsPerSeries (place time p points))
          (store.stored key) := by
  induction puts generalizing store with
  | nil => exact ⟨rfl, rfl⟩
  | cons put puts ih =>
      obtain ⟨hlimit, hstored⟩ := ih (store.insert put.1 put.2)
      refine ⟨hlimit, hstored.trans ?_⟩
      rw [stored_insert, List.filter_cons]
      by_cases hkey : put.1 = key
      · rw [if_pos hkey, if_pos (decide_eq_true hkey)]
        rfl
      · rw [if_neg hkey, if_neg (by rwa [decide_eq_true_eq])]
        rfl

theorem stored_put (store : MetricStore) (call : DateTime × PutMetricDataInput)
    (key : MetricKey) :
    (store.put call).maxPointsPerSeries = store.maxPointsPerSeries ∧
      (store.put call).stored key = (putOnce key call).foldl (fun points p =>
        newest store.maxPointsPerSeries (place time p points))
          (store.stored key) := by
  unfold put putMetricData putOnce
  cases call.2.validate with
  | error e => exact ⟨rfl, rfl⟩
  | ok u => exact stored_foldl_insert (call.2.puts call.1) store key

theorem stored_run_eq (store : MetricStore) (calls : List (DateTime × PutMetricDataInput))
    (key : MetricKey) : (store.run calls).stored key = (putInto key calls).foldl (fun points p =>
      newest store.maxPointsPerSeries (place time p points))
        (store.stored key) := by
  induction calls generalizing store with
  | nil => rfl
  | cons call calls ih =>
      obtain ⟨hlimit, hstored⟩ := stored_put store call key
      rw [putInto, List.flatMap_cons, List.foldl_append, ← hstored, ← hlimit]
      exact ih _

/-- After every run of puts a metric has the newest of all points put into it, as many as the limit
allows, in the order of their times, and of their arrival where these agree. -/
theorem stored_run (limit : ℕ) (calls : List (DateTime × PutMetricDataInput)) (key : MetricKey) :
    ∃ arranged : List DataPoint, arranged.Perm (putInto key calls) ∧
      arranged.Pairwise (fun p q => p.time ≤ q.time) ∧
      (∀ t, arranged.filter (fun p => p.time = t) =
        (putInto key calls).filter fun p => p.time = t) ∧
      ((new limit).run calls).stored key =
        arranged.drop ((putInto key calls).length - limit) := by
  refine ⟨arrange time (putInto key calls), perm_arrange _,
    pairwise_arrange _, fun t => filter_arrange t _, ?_⟩
  rw [stored_run_eq, ← (perm_arrange (f := time) (putInto key calls)).length_eq]
  exact foldl_newest limit _

end MetricStore

end Rustack.CloudWatch
