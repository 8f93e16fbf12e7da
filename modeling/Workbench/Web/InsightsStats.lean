import Mathlib.Algebra.Order.Group.Abs
import Mathlib.Data.Rat.Defs
import Workbench.Lib.Grouping
import Workbench.Lib.Tally
import Workbench.Web.AgentDeploy

/-!
The rollup of the runs of the last days.

Each run that is counted lies between the first midnight and now, so its own midnight is one of
those the chart was made from. Clocks that are set in between move a midnight by less than half a
day, and the rounded quotient is still the number of days.
-/

namespace Workbench.Web.InsightsStats

open List Workbench.Lib

structure InsightsRun where
  definitionId : String
  definitionName : String
  routineId : Option String
  routineName : Option String
  status : String
  createdAt : String
  endedAt : Option String
  deriving DecidableEq, Repr

/-- The texts and the calendar of a place. Dates are numbered in a row. -/
structure Locale where
  /-- `Date.parse`, in milliseconds -/
  parse : String → Option ℤ
  localeCompare : String → String → Ordering
  /-- the local date of an instant -/
  dateOf : ℤ → ℤ
  /-- the instant at which a date begins -/
  midnight : ℤ → ℤ
  midnight_le_iff : ∀ date t, midnight date ≤ t ↔ date ≤ dateOf t

def DAY_MS : ℤ := 86400000

/-! ### What a run counts as -/

def isRunFailed (status : String) : Bool := status = "error" || status = "failed"

def runOutcomeStatus (run : InsightsRun) : String :=
  if run.status = "running" then
    if run.endedAt.any (· ≠ "") then "completed" else "running"
  else if run.status = "error" then "failed"
  else run.status

inductive Bucket
  | ok
  | fail
  | other
  deriving DecidableEq, Repr

def bucketOf (run : InsightsRun) : Bucket :=
  let outcome := runOutcomeStatus run
  if outcome = "completed" then .ok else if isRunFailed outcome then .fail else .other

def isAgentDeploySourceAssetName (name : String) : Bool :=
  (agentSlugFromSourceAssetName name).isSome

def purposeRunsForInsights (runs : List InsightsRun) : List InsightsRun :=
  runs.filter fun run => run.definitionName ≠ workerSourceAssetName &&
    !isAgentDeploySourceAssetName run.definitionName

def runDisplayName (run : InsightsRun) : String := run.routineName.getD run.definitionName

def groupKey (run : InsightsRun) : String := run.routineId.getD run.definitionId

def medianMs (values : List ℤ) : Option ℚ :=
  if values = [] then none
  else
    let sorted := values.insertionSort (· ≤ ·)
    let mid := sorted.length / 2
    let hi := (sorted[mid]?).getD 0
    if sorted.length % 2 = 1 then some hi else some (((sorted[mid - 1]?).getD 0 + hi : ℚ) / 2)

structure BenchDay where
  date : ℤ
  ok : ℕ
  fail : ℕ
  other : ℕ
  deriving DecidableEq, Repr

def BenchDay.count (bucket : Bucket) (day : BenchDay) : ℕ :=
  match bucket with
  | .ok => day.ok
  | .fail => day.fail
  | .other => day.other

def BenchDay.add (day : BenchDay) : Bucket → BenchDay
  | .ok => { day with ok := day.ok + 1 }
  | .fail => { day with fail := day.fail + 1 }
  | .other => { day with other := day.other + 1 }

structure BenchWorkflowRow where
  key : String
  name : String
  definitionName : String
  runs : ℕ
  ok : ℕ
  fail : ℕ
  medianMs : Option ℚ
  lastRun : String

structure BenchInsights where
  total : ℕ
  ok : ℕ
  fail : ℕ
  medianMs : Option ℚ
  days : List BenchDay
  workflows : List BenchWorkflowRow
  failures : List InsightsRun

/-- What the loop over the runs writes to. -/
structure Rollup where
  ok : ℕ
  fail : ℕ
  days : List BenchDay
  groups : OrderedMap String (List InsightsRun)

section

variable (L : Locale)

def runDurationMs (run : InsightsRun) : Option ℤ := do
  let ended ← run.endedAt
  let ms := (← L.parse ended) - (← L.parse run.createdAt)
  if ms < 0 then none else some ms

def newestFirst (runs : List InsightsRun) : List InsightsRun :=
  runs.insertionSort fun a b => L.localeCompare b.createdAt a.createdAt ≠ .gt

/-! ### The chart -/

/-- The local midnights of the days that are shown, the oldest first. -/
def dayStarts (range : ℕ) (now : ℤ) : List ℤ :=
  let today := L.midnight (L.dateOf now)
  (List.range range).map fun k : ℕ => L.midnight (L.dateOf today - (range - 1 - k))

def startOf (range : ℕ) (now : ℤ) : ℤ := ((dayStarts L range now)[0]?).getD 0

def inRange (runs : List InsightsRun) (range : ℕ) (now : ℤ) : List InsightsRun :=
  (purposeRunsForInsights runs).filter fun run =>
    (L.parse run.createdAt).any fun t => startOf L range now ≤ t && t ≤ now

/-- `Math.round((midnight - start) / DAY_MS)` where that is an index. The quotient of two instants
stays so far from a half that its own rounding does not matter. -/
def dayIndex (start : ℤ) (run : InsightsRun) : Option ℕ := do
  let t ← L.parse run.createdAt
  let midnight := L.midnight (L.dateOf t)
  ((2 * (midnight - start) + DAY_MS) / (2 * DAY_MS)).toNat?

/-! ### The loop -/

def addToDay (run : InsightsRun) (day : BenchDay) : BenchDay := day.add (bucketOf run)

def addToGroup (group : Option (List InsightsRun)) (run : InsightsRun) : List InsightsRun :=
  group.getD [] ++ [run]

/-- One round of the loop. -/
def Rollup.add (start : ℤ) (rollup : Rollup) (run : InsightsRun) : Rollup where
  ok := if bucketOf run = .ok then rollup.ok + 1 else rollup.ok
  fail := if bucketOf run = .fail then rollup.fail + 1 else rollup.fail
  days := Tally.put (dayIndex L start) addToDay rollup.days run
  groups := Grouping.put groupKey addToGroup rollup.groups run

def durations (runs : List InsightsRun) : List ℤ := runs.filterMap (runDurationMs L)

def countOf (bucket : Bucket) (runs : List InsightsRun) : ℕ :=
  (runs.filter fun run => bucketOf run = bucket).length

def workflowRow (key : String) (runs : List InsightsRun) : BenchWorkflowRow :=
  let newest := newestFirst L runs
  { key
    name := (newest[0]?.map runDisplayName).getD key
    definitionName := (newest[0]?.map (·.definitionName)).getD key
    runs := runs.length
    ok := countOf .ok runs
    fail := countOf .fail runs
    medianMs := medianMs (durations L runs)
    lastRun := (newest[0]?.map (·.createdAt)).getD "" }

def rollupOf (counted : List InsightsRun) (range : ℕ) (now : ℤ) : Rollup :=
  counted.foldl (Rollup.add L (startOf L range now))
    ⟨0, 0, (dayStarts L range now).map (⟨·, 0, 0, 0⟩), .empty⟩

def computeBenchInsights (runs : List InsightsRun) (range : ℕ) (now : ℤ) : BenchInsights :=
  let counted := inRange L runs range now
  let rollup := rollupOf L counted range now
  { total := counted.length
    ok := rollup.ok
    fail := rollup.fail
    medianMs := medianMs (durations L counted)
    days := rollup.days
    workflows :=
      (rollup.groups.entries.map fun group => workflowRow L group.1 group.2).insertionSort
        fun a b => L.localeCompare b.lastRun a.lastRun ≠ .gt
    failures := (newestFirst L (counted.filter fun run => bucketOf run = .fail)).take 5 }

/-! ### What is conserved -/

/-- The local midnight before a run. -/
def midnightOf (run : InsightsRun) : Option ℤ :=
  (L.parse run.createdAt).map fun t => L.midnight (L.dateOf t)

/-- No run is lost and none is counted twice, neither among the days nor among the workflows. -/
structure Conserves (counted : List InsightsRun) (insights : BenchInsights) : Prop where
  total : insights.total = counted.length
  oneDay : ∀ run ∈ counted, (midnightOf L run).isSome ∧
    ∃! k : ℕ, (insights.days[k]?).map BenchDay.date = midnightOf L run
  counts : ∀ day ∈ insights.days, ∀ bucket, day.count bucket =
    countOf bucket (counted.filter fun run => midnightOf L run = some day.date)
  daysTotal : (insights.days.map fun day => day.ok + day.fail + day.other).sum = insights.total
  daysOk : (insights.days.map (·.ok)).sum = insights.ok
  daysFail : (insights.days.map (·.fail)).sum = insights.fail
  rowsTotal : (insights.workflows.map (·.runs)).sum = insights.total
  rowsOk : (insights.workflows.map (·.ok)).sum = insights.ok
  rowsFail : (insights.workflows.map (·.fail)).sum = insights.fail

/-- The date of the first day that is shown. -/
def firstDate (range : ℕ) (now : ℤ) : ℤ := L.dateOf now - (range - 1)

/-- The midnight `k` days after the first lies less than twelve hours from `k` times a day after
it. -/
def NearDays (range : ℕ) (now : ℤ) : Prop :=
  ∀ k : ℕ, k < range →
    |L.midnight (firstDate L range now + k) - L.midnight (firstDate L range now) - k * DAY_MS| <
      12 * 60 * 60 * 1000

end

variable {L : Locale} {counted runs : List InsightsRun} {range k : ℕ} {now start t date : ℤ}
  {run : InsightsRun} {rollup : Rollup} {bucket : Bucket}

/-! ### Dates and their midnights -/

lemma midnight_dateOf_le : L.midnight (L.dateOf t) ≤ t := (L.midnight_le_iff _ _).mpr le_rfl

lemma dateOf_mono {u : ℤ} (h : t ≤ u) : L.dateOf t ≤ L.dateOf u :=
  (L.midnight_le_iff _ _).mp (midnight_dateOf_le.trans h)

/-- The midnight of today is an instant of today. -/
lemma dateOf_midnight_dateOf : L.dateOf (L.midnight (L.dateOf t)) = L.dateOf t :=
  le_antisymm (dateOf_mono midnight_dateOf_le) ((L.midnight_le_iff _ _).mp le_rfl)

lemma getElem?_dayStarts : (dayStarts L range now)[k]? =
    if k < range then some (L.midnight (firstDate L range now + k)) else none := by
  unfold dayStarts firstDate
  rw [List.getElem?_map, dateOf_midnight_dateOf]
  by_cases hk : k < range
  · have hdate : L.dateOf now - (range - 1 - k) = L.dateOf now - (range - 1) + k := by omega
    rw [List.getElem?_range hk, if_pos hk, Option.map_some, hdate]
  · rw [List.getElem?_eq_none (by simpa using hk), if_neg hk, Option.map_none]

lemma startOf_eq (hrange : 0 < range) :
    startOf L range now = L.midnight (firstDate L range now) := by
  rw [startOf, getElem?_dayStarts, if_pos hrange]
  simp

/-- A run that is counted has a date among those that are shown. -/
lemma exists_day (hrange : 0 < range) (h : run ∈ inRange L runs range now) :
    ∃ t, L.parse run.createdAt = some t ∧
      ∃ k < range, L.dateOf t = firstDate L range now + k := by
  obtain ⟨-, hin⟩ := List.mem_filter.mp h
  obtain ⟨t, ht, hbounds⟩ := (Option.any_eq_true _ _).mp hin
  simp only [Bool.and_eq_true, decide_eq_true_eq, startOf_eq hrange] at hbounds
  have hfirst : firstDate L range now ≤ L.dateOf t := (L.midnight_le_iff _ _).mp hbounds.1
  have hlast : L.dateOf t ≤ L.dateOf now := dateOf_mono hbounds.2
  refine ⟨t, ht, (L.dateOf t - firstDate L range now).toNat, ?_, by omega⟩
  unfold firstDate at hfirst ⊢
  omega

/-- Less than half a day away, the quotient is rounded to the number of days. -/
lemma round_days {x : ℤ} (h : |x - k * DAY_MS| < 12 * 60 * 60 * 1000) :
    ((2 * x + DAY_MS) / (2 * DAY_MS)).toNat? = some k := by
  obtain ⟨hlow, hhigh⟩ := abs_lt.mp h
  unfold DAY_MS at hlow hhigh ⊢
  have hquotient : (2 * x + 86400000) / (2 * 86400000) = (k : ℤ) := by omega
  rw [hquotient]
  rfl

lemma dayIndex_eq (hrange : 0 < range) (hnear : NearDays L range now)
    (ht : L.parse run.createdAt = some t) (hk : k < range)
    (hdate : L.dateOf t = firstDate L range now + k) :
    dayIndex L (startOf L range now) run = some k := by
  simp only [dayIndex, ht, Option.bind_eq_bind, Option.bind_some, hdate, startOf_eq hrange]
  exact round_days (hnear k hk)

/-- Two days that are shown do not begin together. -/
lemma midnight_inj (hnear : NearDays L range now) {j : ℕ} (hj : j < range) (hk : k < range)
    (h : L.midnight (firstDate L range now + j) = L.midnight (firstDate L range now + k)) :
    j = k := by
  obtain ⟨hlow, hhigh⟩ := abs_lt.mp (hnear j hj)
  obtain ⟨hlow', hhigh'⟩ := abs_lt.mp (hnear k hk)
  rw [h] at hlow hhigh
  unfold DAY_MS at *
  omega

/-! ### What the loop keeps -/

lemma countOf_cons : countOf bucket (run :: counted) =
    countOf bucket counted + if bucketOf run = bucket then 1 else 0 := by
  unfold countOf
  by_cases h : bucketOf run = bucket <;> simp [h]

lemma length_eq_countOf : counted.length =
    countOf .ok counted + countOf .fail counted + countOf .other counted := by
  induction counted with
  | nil => rfl
  | cons run counted ih =>
    rw [List.length_cons, ih, countOf_cons, countOf_cons, countOf_cons]
    cases bucketOf run <;> simp <;> omega

lemma foldl_add (start : ℤ) : counted.foldl (Rollup.add L start) rollup =
    { ok := rollup.ok + countOf .ok counted
      fail := rollup.fail + countOf .fail counted
      days := Tally.fill (dayIndex L start) addToDay rollup.days counted
      groups := Grouping.collect groupKey addToGroup rollup.groups counted } := by
  induction counted generalizing rollup with
  | nil => rfl
  | cons run counted ih =>
    rw [List.foldl_cons, ih, countOf_cons, countOf_cons]
    simp only [Rollup.add, Rollup.mk.injEq]
    refine ⟨?_, ?_, rfl, rfl⟩ <;> split_ifs <;> omega

/-- What a run adds to the counts of a day. -/
lemma count_addToDay (run : InsightsRun) (day : BenchDay) : (addToDay run day).count bucket =
    day.count bucket + if bucketOf run = bucket then 1 else 0 := by
  unfold addToDay
  cases bucketOf run <;> cases bucket <;> rfl

lemma count_foldl_addToDay (day : BenchDay) :
    (counted.foldl (fun day run => addToDay run day) day).count bucket =
      day.count bucket + countOf bucket counted := by
  induction counted generalizing day with
  | nil => rfl
  | cons run counted ih =>
    rw [List.foldl_cons, ih, count_addToDay, countOf_cons]
    omega

lemma date_foldl_addToDay (day : BenchDay) :
    (counted.foldl (fun day run => addToDay run day) day).date = day.date := by
  induction counted generalizing day with
  | nil => rfl
  | cons run counted ih =>
    rw [List.foldl_cons, ih]
    unfold addToDay
    cases bucketOf run <;> rfl

lemma sum_brought : (counted.map fun run => if bucketOf run = bucket then 1 else 0).sum =
    countOf bucket counted := by
  induction counted with
  | nil => rfl
  | cons run counted ih =>
    rw [List.map_cons, List.sum_cons, ih, countOf_cons]
    omega

/-! ### The days -/

/-- The runs that a day has counted are those of its date. -/
lemma getElem?_days (hrange : 0 < range) (hnear : NearDays L range now) :
    (rollupOf L (inRange L runs range now) range now).days[k]? =
      if k < range then
        let date := L.midnight (firstDate L range now + k)
        some (((inRange L runs range now).filter fun run => midnightOf L run = some date).foldl
          (fun day run => addToDay run day) ⟨date, 0, 0, 0⟩)
      else none := by
  rw [rollupOf, foldl_add]
  simp only [Tally.getElem?_fill, List.getElem?_map, getElem?_dayStarts]
  by_cases hk : k < range
  · have hsame : (inRange L runs range now).filter
        (fun run => dayIndex L (startOf L range now) run = some k) =
          (inRange L runs range now).filter
            (fun run => midnightOf L run = some (L.midnight (firstDate L range now + k))) := by
      refine List.filter_congr fun run hrun => ?_
      obtain ⟨t, ht, j, hj, hdate⟩ := exists_day hrange hrun
      rw [dayIndex_eq hrange hnear ht hj hdate, midnightOf, ht, Option.map_some, hdate,
        decide_eq_decide, Option.some.injEq, Option.some.injEq]
      constructor
      · rintro rfl
        rfl
      · exact midnight_inj hnear hj hk
    simp only [if_pos hk, Option.map_some, hsame]
  · simp only [if_neg hk, Option.map_none]

lemma sum_days (bucket : Bucket) (hrange : 0 < range) (hnear : NearDays L range now) :
    ((rollupOf L (inRange L runs range now) range now).days.map (BenchDay.count bucket)).sum =
      countOf bucket (inRange L runs range now) := by
  have hplace : ∀ run ∈ inRange L runs range now,
      ∃ k < ((dayStarts L range now).map fun date => BenchDay.mk date 0 0 0).length,
        dayIndex L (startOf L range now) run = some k := by
    intro run hrun
    obtain ⟨t, ht, k, hk, hdate⟩ := exists_day hrange hrun
    exact ⟨k, by simpa [dayStarts] using hk, dayIndex_eq hrange hnear ht hk hdate⟩
  have hempty : (((dayStarts L range now).map fun date => BenchDay.mk date 0 0 0).map
      (BenchDay.count bucket)).sum = 0 := by
    cases bucket <;> simp [BenchDay.count, Function.comp_def]
  rw [rollupOf, foldl_add]
  simp only
  rw [Tally.sum_fill hplace count_addToDay, hempty, sum_brought, Nat.zero_add]

/-! ### The workflows -/

/-- What is measured of the groups is measured of all runs. -/
lemma sum_rows {measure : BenchWorkflowRow → ℕ} {p : InsightsRun → Bool}
    (hrow : ∀ key rs, measure (workflowRow L key rs) = rs.countP p) :
    ((computeBenchInsights L runs range now).workflows.map measure).sum =
      (inRange L runs range now).countP p := by
  set counted := inRange L runs range now with hcounted
  set groups := (rollupOf L counted range now).groups with hgroups
  have hrows : (computeBenchInsights L runs range now).workflows ~
      groups.entries.map fun group => workflowRow L group.1 group.2 :=
    List.perm_insertionSort _ _
  have hmeasure : (groups.entries.map fun group => workflowRow L group.1 group.2).map measure =
      groups.values.map (List.countP p) := by
    rw [List.map_map, OrderedMap.values, List.map_map]
    exact List.map_congr_left fun group _ => hrow group.1 group.2
  have hall : groups.values.flatMap id ~ counted := by
    rw [hgroups, rollupOf, foldl_add]
    have hcollect : (Grouping.collect groupKey addToGroup .empty counted).values.flatMap id ~
        counted.flatMap fun run => [run] := Grouping.values_collect_empty fun group run => by
      cases group <;> simp [addToGroup]
    simpa using hcollect
  calc ((computeBenchInsights L runs range now).workflows.map measure).sum
    _ = (groups.values.map (List.countP p)).sum := by rw [(hrows.map measure).sum_eq, hmeasure]
    _ = groups.values.flatten.countP p := List.countP_flatten.symm
    _ = counted.countP p := by rw [← hall.countP_eq, List.flatMap_id]

lemma countOf_eq_countP : countOf bucket counted =
    counted.countP fun run => decide (bucketOf run = bucket) := List.countP_eq_length_filter.symm

/-- A place whose date 2 has twenty-three hours, with a parser that knows the texts of a test. -/
def springLocale (instants : List (String × ℤ)) : Locale where
  parse text := OrderedMap.lookup text instants
  localeCompare a b := compare a b
  dateOf t := if t < 3 * DAY_MS - 3600000 then t / DAY_MS else (t + 3600000) / DAY_MS
  midnight date := if date ≤ 2 then date * DAY_MS else date * DAY_MS - 3600000
  midnight_le_iff date t := by
    unfold DAY_MS
    split_ifs <;> omega

def sampleRun (id status createdAt : String) : InsightsRun :=
  ⟨id, "report", none, none, status, createdAt, none⟩

def sampleRuns : List InsightsRun :=
  [sampleRun "def_1" "completed" "early", sampleRun "def_2" "error" "late",
    sampleRun "def_1" "stopped" "late", sampleRun "def_1" "completed" "never"]

def sampleInstants : List (String × ℤ) := [("early", 1000), ("late", 4 * DAY_MS)]

end Workbench.Web.InsightsStats
