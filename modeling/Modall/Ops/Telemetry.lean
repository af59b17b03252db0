import Mathlib
import Modall.Library.Decimal

/-!
# Process metrics

`MetricsRegistry` and `WorkerLiveness` of `modall/ops/telemetry.py`. Text is a list of code
points. Amounts, values and durations are integers below `2 ^ 53`, which a double holds exactly;
sums of them are rounded as doubles are. A dictionary is an association list without repeated
keys; its order is never seen, since `render` sorts.
-/
namespace Modall
open Library

/-! ## Arguments -/

def isWordChar (c : Char) : Bool := c.isAlphanum || c == '_'

/-- A metric name or a label name. -/
structure Identifier where
  text : List Char
  wellFormed : text ≠ [] ∧ text.all isWordChar
deriving DecidableEq

/-- An integer that a double holds exactly. -/
structure Amount where
  value : Int
  bounded : value.natAbs < 2 ^ 53
deriving DecidableEq

/-- The keyword arguments `**labels`, each already `str(value)`. -/
abbrev LabelArguments := AList fun _ : Identifier => List Char

abbrev Labels := List (Identifier × List Char)

/-- The key of a sample: its name and its sorted labels. -/
structure Series where
  name : Identifier
  labels : Labels
deriving DecidableEq

/-! ## Python's order on the keys -/

def compareLabel (a b : Identifier × List Char) : Ordering :=
  (compare a.1.text b.1.text).then (compare a.2 b.2)

def compareLabels (a b : Labels) : Ordering := List.compareLex compareLabel a b

def compareSeries (a b : Series) : Ordering :=
  (compare a.name.text b.name.text).then (compareLabels a.labels b.labels)

def sortLabels (labels : Labels) : Labels :=
  labels.insertionSort fun a b => (compareLabel a b).isLE

/-- `MetricsRegistry._labels`. -/
def storedLabels (labels : LabelArguments) : Labels :=
  sortLabels (labels.entries.map fun label => (label.1, label.2.take 64))

/-! ## The registry -/

/-- A bucket bound in thousandths of a second, and the bound as `:g` prints it. -/
structure DurationBucket where
  millis : Int
  text : List Char

/-- `_DURATION_BUCKETS`. -/
def durationBuckets : List DurationBucket :=
  [⟨10, "0.01".toList⟩, ⟨25, "0.025".toList⟩, ⟨50, "0.05".toList⟩, ⟨100, "0.1".toList⟩,
    ⟨250, "0.25".toList⟩, ⟨500, "0.5".toList⟩, ⟨1000, "1".toList⟩, ⟨2500, "2.5".toList⟩,
    ⟨5000, "5".toList⟩]

/-- The list of floats kept for one label set: the buckets, the sum and the count. -/
structure Histogram where
  buckets : List Int
  sum : Int
  count : Int
  sized : buckets.length = durationBuckets.length
deriving DecidableEq

def Histogram.zero : Histogram where
  buckets := List.replicate durationBuckets.length 0
  sum := 0
  count := 0
  sized := List.length_replicate

/-- `a + b` on doubles that are integers. -/
def addDoubles (a b : Int) : Int := Decimal.roundedInt 2 53 (a + b)

def Histogram.observe (h : Histogram) (duration : Amount) : Histogram where
  buckets := durationBuckets.zipWith
    (fun bucket count =>
      if duration.value * 1000 ≤ bucket.millis then addDoubles count 1 else count) h.buckets
  sum := addDoubles h.sum duration.value
  count := addDoubles h.count 1
  sized := by simp [h.sized]

structure MetricsRegistry where
  counters : AList fun _ : Series => Int := ∅
  gauges : AList fun _ : Series => Int := ∅
  durations : AList fun _ : Labels => Histogram := ∅

/-- One call of a method that writes. -/
inductive MetricsCall where
  | increment (name : Identifier) (amount : Amount) (labels : LabelArguments)
  | gauge (name : Identifier) (value : Amount) (labels : LabelArguments)
  | observeHttp (durationSeconds : Amount) (labels : LabelArguments)
  | initializeHttp (labels : LabelArguments)

namespace MetricsRegistry
variable (m : MetricsRegistry)

def increment (name : Identifier) (amount : Amount) (labels : LabelArguments) : MetricsRegistry :=
  let key := ⟨name, storedLabels labels⟩
  { m with
    counters := m.counters.insert key
      (addDoubles ((m.counters.lookup key).getD 0) amount.value) }

def gauge (name : Identifier) (value : Amount) (labels : LabelArguments) : MetricsRegistry :=
  { m with gauges := m.gauges.insert ⟨name, storedLabels labels⟩ value.value }

def observeHttp (durationSeconds : Amount) (labels : LabelArguments) : MetricsRegistry :=
  let key := storedLabels labels
  let histogram := (m.durations.lookup key).getD .zero
  { m with durations := m.durations.insert key (histogram.observe durationSeconds) }

def initializeHttp (labels : LabelArguments) : MetricsRegistry :=
  let key := storedLabels labels
  { m with durations := m.durations.insert key ((m.durations.lookup key).getD .zero) }

def call : MetricsCall → MetricsRegistry
  | .increment name amount labels => m.increment name amount labels
  | .gauge name value labels => m.gauge name value labels
  | .observeHttp durationSeconds labels => m.observeHttp durationSeconds labels
  | .initializeHttp labels => m.initializeHttp labels

/-- The registry after some calls on a new one. -/
def run (calls : List MetricsCall) : MetricsRegistry := calls.foldl call {}

end MetricsRegistry

/-! ## Rendering -/

/-- `value.replace("\\", "\\\\").replace("\"", "\\\"")`. -/
def escapeLabelValue (value : List Char) : List Char :=
  (value.flatMap fun c => if c = '\\' then ['\\', '\\'] else [c]).flatMap
    fun c => if c = '"' then ['\\', '"'] else [c]

def formatLabel (label : Identifier × List Char) : List Char :=
  label.1.text ++ '=' :: '"' :: (escapeLabelValue label.2 ++ ['"'])

/-- `MetricsRegistry._format_labels`. -/
def formatLabels (labels : Labels) : List Char :=
  if labels = [] then [] else '\x7b' :: ([','].intercalate (labels.map formatLabel) ++ ['\x7d'])

def typeLine (name kind : List Char) : List Char :=
  "# TYPE ".toList ++ name ++ ' ' :: kind

/-- `f"{name}{self._format_labels(labels)} {value:g}"`. -/
def sampleLine (sample : Series × Int) : List Char :=
  sample.1.name.text ++ formatLabels sample.1.labels ++ ' ' :: Decimal.format 6 sample.2

/-- One loop over sorted items: a `# TYPE` line before a name's first sample. -/
def emitFamily (kind : List Char) :
    List (Series × Int) → List Identifier → List (List Char) × List Identifier
  | [], emittedTypes => ([], emittedTypes)
  | sample :: samples, emittedTypes =>
    let name := sample.1.name
    if name ∈ emittedTypes then
      let (lines, emittedTypes) := emitFamily kind samples emittedTypes
      (sampleLine sample :: lines, emittedTypes)
    else
      let (lines, emittedTypes) := emitFamily kind samples (name :: emittedTypes)
      (typeLine name.text kind :: sampleLine sample :: lines, emittedTypes)

def leLabel : Identifier := ⟨"le".toList, by decide⟩

def durationBucketName : Identifier :=
  ⟨"modall_http_request_duration_seconds_bucket".toList, by decide⟩

def durationSumName : Identifier :=
  ⟨"modall_http_request_duration_seconds_sum".toList, by decide⟩

def durationCountName : Identifier :=
  ⟨"modall_http_request_duration_seconds_count".toList, by decide⟩

def bucketSeries (labels : Labels) (bound : List Char) : Series :=
  ⟨durationBucketName, sortLabels (labels ++ [(leLabel, bound)])⟩

/-- The cumulative counts of one label set, `+Inf` last. -/
def bucketSamples (labels : Labels) (h : Histogram) : List (Series × Int) :=
  durationBuckets.zipWith (fun bucket count => (bucketSeries labels bucket.text, count)) h.buckets ++
    [(bucketSeries labels "+Inf".toList, h.count)]

def histogramSamples (labels : Labels) (h : Histogram) : List (Series × Int) :=
  bucketSamples labels h ++
    [(⟨durationSumName, labels⟩, h.sum), (⟨durationCountName, labels⟩, h.count)]

namespace MetricsRegistry
variable (m : MetricsRegistry)

/-- `dict.items()`. -/
def items {key value : Type} (dict : AList fun _ : key => value) : List (key × value) :=
  dict.entries.map fun item => (item.1, item.2)

/-- `sorted(counters.items())` and `sorted(gauges.items())`: the keys differ, so no two values are
compared. -/
def sortedItems (dict : AList fun _ : Series => Int) : List (Series × Int) :=
  (items dict).insertionSort fun a b => (compareSeries a.1 b.1).isLE

def sortedDurations : List (Labels × Histogram) :=
  (items m.durations).insertionSort fun a b => (compareLabels a.1 b.1).isLE

def renderLines : List (List Char) :=
  let counters := emitFamily "counter".toList (sortedItems m.counters) []
  let gauges := emitFamily "gauge".toList (sortedItems m.gauges) counters.2
  ["# TYPE modall_build_info gauge".toList,
    "modall_build_info\x7bversion=\"0.1.0\"\x7d 1".toList] ++
  counters.1 ++ gauges.1 ++
  (if items m.durations = [] then []
    else ["# TYPE modall_http_request_duration_seconds histogram".toList]) ++
  (m.sortedDurations.flatMap fun item => (histogramSamples item.1 item.2).map sampleLine) ++
  ["# EOF".toList]

def render : List Char := ['\n'].intercalate m.renderLines ++ ['\n']

end MetricsRegistry

/-! ## Worker liveness -/

def livenessTimeoutName : Identifier :=
  ⟨"modall_worker_liveness_timeout_seconds".toList, by decide⟩

def lastProgressName : Identifier :=
  ⟨"modall_worker_last_progress_unixtime_seconds".toList, by decide⟩

/-- What `WorkerLiveness.touch` records at a wall time. -/
def WorkerLiveness.touch (wallTime : Amount) : MetricsCall := .gauge lastProgressName wallTime ∅

/-- What `WorkerLiveness.__init__` records. -/
def WorkerLiveness.init (staleAfterSeconds wallTime : Amount) : List MetricsCall :=
  [.gauge livenessTimeoutName staleAfterSeconds ∅, WorkerLiveness.touch wallTime]

end Modall
