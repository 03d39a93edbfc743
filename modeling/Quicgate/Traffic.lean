import Mathlib.Data.List.Sort
import Mathlib.Data.UInt
import Quicgate.GoMaps
import Quicgate.WindowSums

/-!
# The traffic history

The sampler behind the dashboard (`internal/engine/traffic.go`): every ten seconds the
growth of the counters becomes a frame, and frames are rolled up into frames of five
minutes and of an hour.  A frame of a coarser level is completed by the arrival of a
later one, so each level holds one frame back.

The dimensions of a frame, its hosts, ports and countries, are numbered in one table,
which is compacted when it is full.  The module has the sampler, the table and the
reports, and for each the lemma that the two results use: `TrafficTotals` certifies the
sums and `DimensionTable` the table.
-/

namespace Quicgate.Traffic

open Quicgate.GoMaps Quicgate.WindowSums

/-! ### Frames

`Frame` and `DimFrame` are the types `frame` and `dimFrame`.  Merging adds the counters up, those of
a dimension under its id. -/

inductive Counter where
  | secs
  | in_
  | out
  | requests
  | status (class_ : Fin 4) -- 2xx, 3xx, 4xx, 5xx
  | proto (version : Fin 3) -- HTTP/1.x, HTTP/2, HTTP/3
  | blocked (reason : Fin 10)
  | latency (bucket : Fin 12)
  | conns
deriving DecidableEq, Repr

/-- The counters of a host, a port or a country. -/
inductive DimCounter where
  | in_
  | out
  | count
  | errors
deriving DecidableEq, Repr

def DimCounter.all : List DimCounter := [.in_, .out, .count, .errors]

structure DimFrame where
  id : Nat
  counts : DimCounter → UInt64
  active : Int

structure Frame where
  start : Nat
  counters : Counter → UInt64
  active : Int
  dims : List DimFrame

/-- `frame{Start: start}`. -/
def Frame.empty (start : Nat) : Frame := ⟨start, 0, 0, []⟩

def DimFrame.add (d g : DimFrame) : DimFrame :=
  { d with counts := d.counts + g.counts, active := max d.active g.active }

/-- The loop of `merge` over the dimensions of a frame: the first one of the same id, else
a new one. -/
def addDim : List DimFrame → DimFrame → List DimFrame
  | [], d => [d]
  | e :: dims, d => if e.id = d.id then e.add d :: dims else e :: addDim dims d

/-- `merge`, `addCounters` included. -/
def Frame.merge (f g : Frame) : Frame where
  start := f.start
  counters := f.counters + g.counters
  active := max f.active g.active
  dims := g.dims.foldl addDim f.dims

/-! ### Levels

`push` and `add` are the methods of `historyLevel`; a level has a cap and drops its oldest
frames. -/

/-- `historyLevel`. `dropped` is not in the source: how many frames the cap has cost. -/
structure Level where
  frames : List Frame
  pending : Option Frame
  dropped : Nat

/-- `historyLevels`: the step of a level and the number of its frames. -/
def historyLevels : Fin 3 → Nat × Nat
  | 0 => (10, 360)
  | 1 => (300, 288)
  | 2 => (3600, 168)

def Level.push (cap : Nat) (l : Level) (f : Frame) : Level :=
  if cap ≤ l.frames.length then
    { l with
      frames := l.frames.drop (l.frames.length - cap + 1) ++ [f]
      dropped := l.dropped + (l.frames.length - cap + 1) }
  else { l with frames := l.frames ++ [f] }

/-- The first half of `historyLevel.add`: the pending frame is completed when the frame belongs
to another interval. -/
def Level.complete (step cap : Nat) (l : Level) (f : Frame) : Level × Option Frame :=
  match l.pending with
  | some p =>
      if p.start ≠ floorTo step f.start then ({ l.push cap p with pending := none }, some p)
      else (l, none)
  | none => (l, none)

def Level.add (step cap : Nat) (l : Level) (f : Frame) : Level × Option Frame :=
  let (l, done) := l.complete step cap f
  let pending := l.pending.getD (Frame.empty (floorTo step f.start))
  ({ l with pending := some (pending.merge f) }, done)

/-! ### A sample

`Stats.diff` makes a frame of two snapshots of the counters.  A counter that went back started
again, and the dimensions are those that have grown. -/

structure DimCounts where
  counts : DimCounter → UInt64
  active : Int

structure Snapshot where
  requests : UInt64
  status : Fin 4 → UInt64
  proto : Fin 3 → UInt64
  blocked : Fin 10 → UInt64
  latency : Fin 12 → UInt64
  dims : GoMap String DimCounts

/-- `trafficStats`, the part that its lock guards. -/
structure Stats where
  dims : List String
  dimIDs : GoMap String Nat
  prev : Snapshot
  level0 : Level
  level1 : Level
  level2 : Level
  lastSample : Nat

def Stats.level (t : Stats) : Fin 3 → Level
  | 0 => t.level0
  | 1 => t.level1
  | 2 => t.level2

/-- `delta`: a counter that went back started again. -/
def delta (cur prev : UInt64) : UInt64 := if cur < prev then cur else cur - prev

def Stats.dimID (t : Stats) (key : String) : Stats × Nat :=
  match t.dimIDs.lookup key with
  | some id => (t, id)
  | none =>
      ({ t with dims := t.dims ++ [key], dimIDs := t.dimIDs.insert key t.dims.length },
        t.dims.length)

/-- The growth of one dimension, its id still zero. -/
def growth (cur prev : GoMap String DimCounts) (key : String) : DimFrame :=
  let c := (cur.lookup key).getD ⟨0, 0⟩
  let was := (prev.lookup key).getD ⟨0, 0⟩
  ⟨0, fun x => delta (c.counts x) (was.counts x), max c.active 0⟩

/-- `d == (dimFrame{})`. -/
def DimFrame.isZero (d : DimFrame) : Bool :=
  d.id == 0 && DimCounter.all.all (fun x => d.counts x == 0) && d.active == 0

/-- What the traffic of a listener adds to the totals of the frame. -/
def Frame.addPort (f : Frame) (d : DimFrame) : Frame :=
  { f with
    counters := fun
      | .in_ => f.counters .in_ + d.counts .in_
      | .out => f.counters .out + d.counts .out
      | .conns => f.counters .conns + d.counts .count
      | c => f.counters c
    active := f.active + d.active }

/-- The loop of `diff` over the sorted keys. -/
def diffDim (maxTrafficDims : Nat) (cur : Snapshot) (acc : Stats × Frame) (key : String) :
    Stats × Frame :=
  let (t, f) := acc
  let d := growth cur.dims t.prev.dims key
  let f := if "port:".toList.isPrefixOf key.toList then f.addPort d else f
  if d.isZero then (t, f)
  else if maxTrafficDims ≤ t.dims.length ∧ (t.dimIDs.lookup key).isNone then (t, f)
  else
    let (t, id) := t.dimID key
    (t, { f with dims := f.dims ++ [{ d with id := id }] })

/-- The counters of a new frame. -/
def diffCounters (cur prev : Snapshot) (secs : UInt64) : Counter → UInt64
  | .secs => secs
  | .requests => delta cur.requests prev.requests
  | .status i => delta (cur.status i) (prev.status i)
  | .proto i => delta (cur.proto i) (prev.proto i)
  | .blocked i => delta (cur.blocked i) (prev.blocked i)
  | .latency i => delta (cur.latency i) (prev.latency i)
  | .in_ | .out | .conns => 0

/-- `diff`, with the start and the seconds that `sample` writes into the frame. -/
def Stats.diff (maxTrafficDims : Nat) (t : Stats) (cur : Snapshot) (start : Nat) (secs : UInt64) :
    Stats × Frame :=
  (cur.dims.keys.insertionSort (· ≤ ·)).foldl (diffDim maxTrafficDims cur)
    (t, ⟨start, diffCounters cur t.prev secs, 0, []⟩)

/-- `eachFrame`, the frames it goes through. -/
def Stats.eachFrame (t : Stats) : List Frame :=
  [t.level0, t.level1, t.level2].flatMap fun l => l.frames ++ l.pending.toList

/-! ### Compaction

The keys that some frame still refers to are numbered anew, and the frames with them. -/

/-- The tables that `compactDims` builds: the new id of every old one, the keys and their ids. -/
structure Compacted where
  remap : List Nat
  dims : List String
  ids : GoMap String Nat

/-- The loop of `compactDims` over the keys. The next id is the number of those looked at. -/
def compactDim (used : Nat → Bool) (acc : Compacted) (key : String) : Compacted :=
  if used acc.remap.length = false then { acc with remap := acc.remap ++ [0] }
  else match acc.ids.lookup key with
    | some first => { acc with remap := acc.remap ++ [first] }
    | none =>
        { remap := acc.remap ++ [acc.dims.length]
          dims := acc.dims ++ [key]
          ids := acc.ids.insert key acc.dims.length }

/-- The second pass of `compactDims` over a frame. -/
def Frame.renumber (remap : List Nat) (f : Frame) : Frame :=
  { f with dims := (f.dims.map fun d => { d with id := remap.getD d.id 0 }).foldl addDim [] }

def Level.map (g : Frame → Frame) (l : Level) : Level :=
  { l with frames := l.frames.map g, pending := l.pending.map g }

def Stats.compactDims (t : Stats) : Stats :=
  let used id := t.eachFrame.any fun f => f.dims.any fun d => d.id == id
  let c := t.dims.foldl (compactDim used) ⟨[], [], ∅⟩
  { t with
    dims := c.dims
    dimIDs := c.ids
    level0 := t.level0.map (Frame.renumber c.remap)
    level1 := t.level1.map (Frame.renumber c.remap)
    level2 := t.level2.map (Frame.renumber c.remap) }

/-! ### Sampling

`sample` compacts the table before it is full, takes the frame, stores it and rolls it up. -/

/-- What the sampler reads: the boundary it reads at, the seconds the frame covers and
the counters. The boundary `k` ends the interval from `10 * k` on. -/
structure Reading where
  boundary : Nat
  secs : UInt64
  cur : Snapshot

def sampleStep : Nat := 10

/-- `sample` makes room in the table before it is full. -/
def Stats.makeRoom (maxTrafficDims : Nat) (t : Stats) (cur : Snapshot) : Stats :=
  let fresh := (cur.dims.keys.filter fun k => (t.dimIDs.lookup k).isNone).length
  if 0 < fresh ∧ maxTrafficDims < t.dims.length + fresh then t.compactDims else t

/-- The first half of `sample`, up to the frame. -/
def Stats.sampled (maxTrafficDims : Nat) (t : Stats) (x : Reading) : Stats × Frame :=
  let (t, f) := (t.makeRoom maxTrafficDims x.cur).diff maxTrafficDims x.cur
    (sampleStep * x.boundary) x.secs
  ({ t with prev := x.cur, lastSample := sampleStep * (x.boundary + 1) }, f)

/-- The second half of `sample`: the frame is stored and rolled up. -/
def Stats.store (t : Stats) (f : Frame) : Stats :=
  let (level1, done) := t.level1.add (historyLevels 1).1 (historyLevels 1).2 f
  { t with
    level0 := t.level0.push (historyLevels 0).2 f
    level1 := level1
    level2 := match done with
      | some done => (t.level2.add (historyLevels 2).1 (historyLevels 2).2 done).1
      | none => t.level2 }

/-- The history with other levels. -/
def Stats.withLevels (t : Stats) (levels : Fin 3 → Level) : Stats :=
  { t with level0 := levels 0, level1 := levels 1, level2 := levels 2 }

def Stats.sample (maxTrafficDims : Nat) (t : Stats) (x : Reading) : Stats :=
  let (t, f) := t.sampled maxTrafficDims x
  t.store f

/-- `newTrafficStats` without a saved history. -/
def Stats.new : Stats :=
  ⟨[], ∅, ⟨0, 0, 0, 0, 0, ∅⟩, ⟨[], none, 0⟩, ⟨[], none, 0⟩, ⟨[], none, 0⟩, 0⟩

/-! ### Reports

A report has a fixed number of slots.  `place` finds the slot of a frame, and the frames held back
by the finer levels are placed as well. -/

/-- `trafficRanges`: the level of a range and the number of its points. -/
def trafficRanges : String → Option (Fin 3 × Nat)
  | "1h" => some (0, 360)
  | "6h" => some (1, 72)
  | "24h" => some (1, 288)
  | "7d" => some (2, 168)
  | _ => none

/-- The end of the newest point of a report. -/
def reportEnd (step now : Nat) : Nat :=
  let stop := now - now % sampleStep
  if stop % step ≠ 0 then stop + (step - stop % step) else stop

def place (start : Int) (stop step : Nat) (slots : List (Option Frame)) (f : Frame) :
    List (Option Frame) :=
  if (f.start : Int) < start ∨ stop ≤ f.start then slots
  else slots.modify (((f.start : Int) - start) / step).toNat fun slot =>
    some ((slot.getD (Frame.empty 0)).merge f)

/-- The frames that finer levels hold back until they complete. -/
def Stats.heldBack (t : Stats) : Fin 3 → List Frame
  | 0 | 1 => []
  | 2 => t.level1.pending.toList

def Stats.placed (t : Stats) (i : Fin 3) : List Frame :=
  (t.level i).frames ++ ((t.level i).pending.toList ++ t.heldBack i)

/-- The part of `TrafficReport` that adds frames up. `dims` are the totals of the
dimensions, by their ids. -/
structure Report where
  step : Nat
  start : Int
  points : Nat
  total : Counter → UInt64
  dims : List DimFrame

/-- The start of the oldest point of a report. -/
def reportStart (i : Fin 3) (points now : Nat) : Int :=
  (reportEnd (historyLevels i).1 now : Int) - points * (historyLevels i).1

/-- `total` and `dimTotals` of `report`, as one frame: the frames are placed into the slots,
and the slots that are present are added up. -/
def Stats.totalFrame (t : Stats) (i : Fin 3) (points now : Nat) : Frame :=
  let step := (historyLevels i).1
  let slots := (t.placed i).foldl (place (reportStart i points now) (reportEnd step now) step)
    (List.replicate points none)
  (slots.filterMap id).foldl Frame.merge (Frame.empty 0)

def Stats.report (quote : String → String) (t : Stats) (rng : String) (now : Nat) :
    Except String Report :=
  match trafficRanges rng with
  | none => .error ("unknown range " ++ quote rng ++ ": use 1h, 6h, 24h or 7d")
  | some (i, points) =>
      let total := t.totalFrame i points now
      .ok ⟨(historyLevels i).1, reportStart i points now, points, total.counters, total.dims⟩

def Report.share (t : Stats) (rep : Report) (key : String) (c : DimCounter) : UInt64 :=
  match t.dimIDs.lookup key with
  | some id => ((rep.dims.find? fun d => d.id == id).map fun d => d.counts c).getD 0
  | none => 0

/-! ### What a frame measures

A measure is one counter of the whole frame or of one key; every operation on frames is described by
what it does to all measures. -/

/-- A counter of the whole frame, or one of the host, port or country of a key. -/
inductive Measure where
  | total (c : Counter)
  | share (key : String) (c : DimCounter)
deriving DecidableEq, Repr

/-- The share of a key among dimensions that are numbered by their place in `keys`. -/
def dimsValue (keys : List String) (key : String) (c : DimCounter) (dims : List DimFrame) :
    UInt64 :=
  ((dims.filter fun d => keys[d.id]? = some key).map fun d => d.counts c).sum

def Frame.value (keys : List String) (f : Frame) : Measure → UInt64
  | .total c => f.counters c
  | .share key c => dimsValue keys key c f.dims

section Values

variable {keys : List String} {key : String} {c : DimCounter}

theorem dimsValue_cons (d : DimFrame) (dims : List DimFrame) : dimsValue keys key c (d :: dims) =
    (if keys[d.id]? = some key then d.counts c else 0) + dimsValue keys key c dims := by
  unfold dimsValue
  by_cases hd : keys[d.id]? = some key
  · simp [hd]
  · simp [hd]

theorem dimsValue_addDim (dims : List DimFrame) (d : DimFrame) :
    dimsValue keys key c (addDim dims d) =
      dimsValue keys key c dims + if keys[d.id]? = some key then d.counts c else 0 := by
  induction dims with
  | nil =>
    rw [addDim, dimsValue_cons]
    exact add_comm _ _
  | cons e dims ih =>
    rw [addDim]
    split_ifs with hid hkey hkey
    · have he : keys[e.id]? = some key := by rw [hid]; exact hkey
      rw [dimsValue_cons, dimsValue_cons, if_pos he, if_pos (show keys[(e.add d).id]? = _ from he)]
      show e.counts c + d.counts c + _ = e.counts c + _ + d.counts c
      exact add_right_comm _ _ _
    · have he : ¬ keys[e.id]? = some key := by rw [hid]; exact hkey
      rw [dimsValue_cons, dimsValue_cons, if_neg he,
        if_neg (show ¬ keys[(e.add d).id]? = _ from he),
        add_zero]
    · rw [dimsValue_cons, dimsValue_cons, ih, if_pos hkey, add_assoc]
    · rw [dimsValue_cons, dimsValue_cons, ih, if_neg hkey, add_assoc]

theorem dimsValue_foldl_addDim (dims more : List DimFrame) :
    dimsValue keys key c (more.foldl addDim dims) =
      dimsValue keys key c dims + dimsValue keys key c more := by
  induction more generalizing dims with
  | nil => exact (add_zero _).symm
  | cons d more ih => rw [List.foldl_cons, ih, dimsValue_addDim, dimsValue_cons, add_assoc]

@[simp]
theorem Frame.value_empty (start : Nat) : (Frame.empty start).value keys = 0 := by
  funext q
  cases q <;> rfl

/-- Frames that are merged add up. -/
@[simp]
theorem Frame.value_merge (f g : Frame) : (f.merge g).value keys = f.value keys + g.value keys := by
  funext q
  cases q with
  | total c => rfl
  | share key c => exact dimsValue_foldl_addDim f.dims g.dims

@[simp]
theorem Frame.start_merge (f g : Frame) : (f.merge g).start = f.start := rfl

/-- Renumbered dimensions keep their keys. -/
theorem Frame.value_renumber {keys' : List String} {remap : List Nat} {f : Frame}
    (h : ∀ d ∈ f.dims, keys'[remap.getD d.id 0]? = keys[d.id]?) :
    (f.renumber remap).value keys' = f.value keys := by
  funext q
  cases q with
  | total c => rfl
  | share key c =>
    show dimsValue keys' key c ((f.dims.map _).foldl addDim []) = dimsValue keys key c f.dims
    rw [dimsValue_foldl_addDim]
    show 0 + _ = _
    rw [zero_add]
    generalize f.dims = dims at h
    induction dims with
    | nil => rfl
    | cons d dims ih =>
      rw [List.map_cons, dimsValue_cons, dimsValue_cons, h d List.mem_cons_self,
        ih fun e he => h e (List.mem_cons_of_mem d he)]

/-- The dimensions of the frame are numbered in the table. -/
def Frame.Numbered (keys : List String) (f : Frame) : Prop := ∀ d ∈ f.dims, d.id < keys.length

/-- A frame does not notice keys that are added to the table. -/
theorem Frame.value_append {f : Frame} (h : f.Numbered keys) (more : List String) :
    f.value (keys ++ more) = f.value keys := by
  funext q
  cases q with
  | total c => rfl
  | share key c =>
    show dimsValue (keys ++ more) key c f.dims = dimsValue keys key c f.dims
    unfold dimsValue
    have hsame : ∀ d ∈ f.dims,
        decide ((keys ++ more)[d.id]? = some key) = decide (keys[d.id]? = some key) := by
      intro d hd
      rw [List.getElem?_append_left (h d hd)]
    rw [List.filter_congr hsame]

theorem mem_addDim {dims : List DimFrame} {d e : DimFrame} (h : e ∈ addDim dims d) :
    e.id = d.id ∨ ∃ e' ∈ dims, e.id = e'.id := by
  induction dims with
  | nil =>
    rw [List.mem_singleton.mp h]
    exact Or.inl rfl
  | cons x dims ih =>
    rw [addDim] at h
    split_ifs at h with hid
    · rcases List.mem_cons.mp h with rfl | h
      · exact Or.inr ⟨x, List.mem_cons_self, rfl⟩
      · exact Or.inr ⟨e, List.mem_cons_of_mem x h, rfl⟩
    · rcases List.mem_cons.mp h with rfl | h
      · exact Or.inr ⟨e, List.mem_cons_self, rfl⟩
      · rcases ih h with heq | ⟨e', he', heq⟩
        · exact Or.inl heq
        · exact Or.inr ⟨e', List.mem_cons_of_mem x he', heq⟩

theorem mem_foldl_addDim {dims more : List DimFrame} {e : DimFrame}
    (h : e ∈ more.foldl addDim dims) : ∃ e' ∈ dims ++ more, e.id = e'.id := by
  induction more generalizing dims with
  | nil => exact ⟨e, by simpa using h, rfl⟩
  | cons d more ih =>
    obtain ⟨e', he', heq⟩ := ih h
    rcases List.mem_append.mp he' with he' | he'
    · rcases mem_addDim he' with heq' | ⟨e'', he'', heq'⟩
      · exact ⟨d, by simp, heq.trans heq'⟩
      · exact ⟨e'', List.mem_append_left _ he'', heq.trans heq'⟩
    · exact ⟨e', List.mem_append_right _ (List.mem_cons_of_mem d he'), heq⟩

theorem Frame.Numbered.merge {f g : Frame} (hf : f.Numbered keys) (hg : g.Numbered keys) :
    (f.merge g).Numbered keys := by
  intro d hd
  obtain ⟨e, he, heq⟩ := mem_foldl_addDim hd
  rw [heq]
  rcases List.mem_append.mp he with he | he
  · exact hf e he
  · exact hg e he

theorem Frame.Numbered.append {f : Frame} (h : f.Numbered keys) (more : List String) :
    f.Numbered (keys ++ more) := by
  intro d hd
  rw [List.length_append]
  exact Nat.lt_add_right _ (h d hd)

end Values

/-! ### The table of dimensions

The id of a key is its place.  Sampling only adds keys, compaction keeps those in use. -/

def TableOk (keys : List String) (ids : GoMap String Nat) : Prop :=
  ∀ key id, ids.lookup key = some id ↔ keys[id]? = some key

theorem TableOk.nil : TableOk [] ∅ := by
  intro key id
  simp

theorem TableOk.concat {keys : List String} {ids : GoMap String Nat} (h : TableOk keys ids)
    {key : String} (hnew : ids.lookup key = none) :
    TableOk (keys ++ [key]) (ids.insert key keys.length) := by
  have hfresh : ∀ id : Nat, keys[id]? ≠ some key := by
    intro id hid
    rw [(h key id).mpr hid] at hnew
    cases hnew
  intro other id
  by_cases hother : other = key
  · subst hother
    rw [AList.lookup_insert, Option.some.injEq, List.getElem?_append]
    constructor
    · rintro rfl
      simp
    · intro hid
      split_ifs at hid with hlt
      · exact absurd hid (hfresh id)
      · rw [List.getElem?_eq_some_iff] at hid
        obtain ⟨hlt', -⟩ := hid
        simp only [List.length_cons, List.length_nil] at hlt'
        omega
  · rw [AList.lookup_insert_ne hother, h other id, List.getElem?_append]
    constructor
    · intro hid
      obtain ⟨hlt, -⟩ := List.getElem?_eq_some_iff.mp hid
      rw [if_pos hlt]
      exact hid
    · intro hid
      split_ifs at hid with hlt
      · exact hid
      · obtain ⟨hlt', heq⟩ := List.getElem?_eq_some_iff.mp hid
        simp only [List.getElem_singleton] at heq
        exact absurd heq.symm hother

/-- Keys were added to the table, and nothing else happened. -/
structure Grown (t t' : Stats) : Prop where
  table : TableOk t'.dims t'.dimIDs
  keys : ∃ more, t'.dims = t.dims ++ more
  level0 : t'.level0 = t.level0
  level1 : t'.level1 = t.level1
  level2 : t'.level2 = t.level2
  last : t'.lastSample = t.lastSample

theorem Grown.refl {t : Stats} (h : TableOk t.dims t.dimIDs) : Grown t t :=
  ⟨h, ⟨[], by simp⟩, rfl, rfl, rfl, rfl⟩

theorem Grown.dimID {t t' : Stats} (h : Grown t t') (key : String) :
    Grown t (t'.dimID key).1 ∧ (∃ more, (t'.dimID key).1.dims = t'.dims ++ more) ∧
      (t'.dimID key).2 < (t'.dimID key).1.dims.length := by
  unfold Stats.dimID
  cases hid : t'.dimIDs.lookup key with
  | some id =>
    refine ⟨h, ⟨[], by simp⟩, ?_⟩
    exact (List.getElem?_eq_some_iff.mp ((h.table key id).mp hid)).1
  | none =>
    obtain ⟨more, hmore⟩ := h.keys
    refine ⟨⟨h.table.concat hid, ⟨more ++ [key], ?_⟩, h.level0, h.level1, h.level2,
      h.last⟩, ⟨[key], rfl⟩, ?_⟩
    · rw [hmore, List.append_assoc]
    · simp

/-- What `diff` keeps from key to key. -/
structure Differs (t : Stats) (start : Nat) (acc : Stats × Frame) : Prop where
  grown : Grown t acc.1
  numbered : acc.2.Numbered acc.1.dims
  start : acc.2.start = start

theorem Differs.diffDim {t : Stats} {start maxTrafficDims : Nat} {cur : Snapshot}
    {acc : Stats × Frame} (h : Differs t start acc) (key : String) :
    Differs t start (diffDim maxTrafficDims cur acc key) := by
  obtain ⟨hgrown, hnumbered, hstart⟩ := h
  unfold Traffic.diffDim
  -- the totals of a port change neither the start nor the dimensions
  have hport : ∀ f : Frame, f.dims = acc.2.dims → f.start = acc.2.start →
      Differs t start (if (growth cur.dims acc.1.prev.dims key).isZero = true then (acc.1, f)
        else if maxTrafficDims ≤ acc.1.dims.length ∧ (acc.1.dimIDs.lookup key).isNone = true then
          (acc.1, f)
        else ((acc.1.dimID key).1, { f with dims := f.dims ++
          [{ growth cur.dims acc.1.prev.dims key with id := (acc.1.dimID key).2 }] })) := by
    intro f hdims hstart'
    have hold : f.Numbered acc.1.dims := by
      intro d hd
      rw [hdims] at hd
      exact hnumbered d hd
    split_ifs
    · exact ⟨hgrown, hold, hstart'.trans hstart⟩
    · exact ⟨hgrown, hold, hstart'.trans hstart⟩
    · obtain ⟨hgrown', ⟨more, hmore⟩, hid⟩ := hgrown.dimID key
      refine ⟨hgrown', ?_, hstart'.trans hstart⟩
      intro d hd
      rcases List.mem_append.mp hd with hd | hd
      · rw [hmore]
        exact hold.append more d hd
      · rw [List.mem_singleton.mp hd]
        exact hid
  split_ifs
  · exact hport _ rfl rfl
  · exact hport _ rfl rfl

theorem differs_diff {t : Stats} (h : TableOk t.dims t.dimIDs) (maxTrafficDims : Nat)
    (cur : Snapshot) (start : Nat) (secs : UInt64) :
    Differs t start (t.diff maxTrafficDims cur start secs) := by
  unfold Stats.diff
  have hrun : ∀ (keys : List String) (acc : Stats × Frame), Differs t start acc →
      Differs t start (keys.foldl (diffDim maxTrafficDims cur) acc) := by
    intro keys
    induction keys with
    | nil => exact fun _ h => h
    | cons key keys ih => exact fun acc h => ih _ (h.diffDim key)
  exact hrun _ _ ⟨Grown.refl h, nofun, rfl⟩

/-- What the loop of `compactDims` keeps. The keys looked at are `seen`. -/
structure Compacts (used : Nat → Bool) (seen : List String) (acc : Compacted) : Prop where
  length : acc.remap.length = seen.length
  table : TableOk acc.dims acc.ids
  keeps : ∀ id, id < seen.length → used id = true →
    acc.dims[acc.remap.getD id 0]? = seen[id]?

theorem getD_concat {remap : List Nat} {n id : Nat} (h : id < remap.length) :
    (remap ++ [n]).getD id 0 = remap.getD id 0 := by
  rw [List.getD_eq_getElem?_getD, List.getD_eq_getElem?_getD, List.getElem?_append_left h]

theorem getD_length_concat (remap : List Nat) (n : Nat) :
    (remap ++ [n]).getD remap.length 0 = n := by
  simp

theorem Compacts.compactDim {used : Nat → Bool} {seen : List String} {acc : Compacted}
    (h : Compacts used seen acc) (key : String) :
    Compacts used (seen ++ [key]) (compactDim used acc key) := by
  obtain ⟨hlen, htable, hkeeps⟩ := h
  have hold : ∀ id, id < seen.length → (seen ++ [key])[id]? = seen[id]? :=
    fun id hid => List.getElem?_append_left hid
  have hnew : (seen ++ [key])[seen.length]? = some key := by simp
  have hsplit : ∀ id, id < (seen ++ [key]).length → id < seen.length ∨ id = seen.length := by
    intro id hid
    rw [List.length_append, List.length_singleton] at hid
    omega
  unfold Traffic.compactDim
  by_cases hused : used acc.remap.length = false
  · rw [if_pos hused]
    refine ⟨by simp [hlen], htable, ?_⟩
    intro id hid huse
    rcases hsplit id hid with hlt | rfl
    · rw [getD_concat (hlen ▸ hlt), hold id hlt]
      exact hkeeps id hlt huse
    · rw [hlen, huse] at hused
      cases hused
  · rw [if_neg hused]
    cases hlookup : acc.ids.lookup key with
    | some first =>
      refine ⟨by simp [hlen], htable, ?_⟩
      intro id hid huse
      rcases hsplit id hid with hlt | rfl
      · rw [getD_concat (hlen ▸ hlt), hold id hlt]
        exact hkeeps id hlt huse
      · rw [hnew, ← hlen, getD_length_concat]
        exact (htable key first).mp hlookup
    | none =>
      refine ⟨by simp [hlen], htable.concat hlookup, ?_⟩
      intro id hid huse
      rcases hsplit id hid with hlt | rfl
      · rw [getD_concat (hlen ▸ hlt), hold id hlt, ← hkeeps id hlt huse]
        -- the key was found in the table before
        refine List.getElem?_append_left ?_
        have hfound := hkeeps id hlt huse
        rw [List.getElem?_eq_getElem hlt] at hfound
        exact (List.getElem?_eq_some_iff.mp hfound).1
      · rw [hnew, ← hlen, getD_length_concat]
        simp

theorem compacts_foldl (used : Nat → Bool) (keys : List String) :
    Compacts used keys (keys.foldl (compactDim used) ⟨[], [], ∅⟩) := by
  have hrun : ∀ (rest seen : List String) (acc : Compacted), Compacts used seen acc →
      Compacts used (seen ++ rest) (rest.foldl (compactDim used) acc) := by
    intro rest
    induction rest with
    | nil =>
      intro seen acc h
      rw [List.append_nil]
      exact h
    | cons key rest ih =>
      intro seen acc h
      rw [List.foldl_cons, List.append_cons]
      exact ih _ _ (h.compactDim key)
  exact hrun keys [] _ ⟨rfl, TableOk.nil, nofun⟩

theorem length_compactDim (used : Nat → Bool) (acc : Compacted) (key : String) :
    (compactDim used acc key).dims.length ≤ acc.dims.length + 1 := by
  unfold compactDim
  split_ifs
  · exact Nat.le_succ _
  · cases acc.ids.lookup key with
    | some first => exact Nat.le_succ _
    | none => simp

theorem length_foldl_compactDim (used : Nat → Bool) (keys : List String) (acc : Compacted) :
    (keys.foldl (compactDim used) acc).dims.length ≤ acc.dims.length + keys.length := by
  induction keys generalizing acc with
  | nil => exact Nat.le_refl _
  | cons key keys ih =>
    have hstep := length_compactDim used acc key
    have hrest := ih (compactDim used acc key)
    rw [List.foldl_cons, List.length_cons]
    omega

/-- The tables that `compactDims` ends with. -/
def Stats.compacted (t : Stats) : Compacted :=
  t.dims.foldl (compactDim fun id => t.eachFrame.any fun f => f.dims.any fun d => d.id == id)
    ⟨[], [], ∅⟩

theorem Stats.compactDims_eq (t : Stats) : t.compactDims =
    { t with
      dims := t.compacted.dims
      dimIDs := t.compacted.ids
      level0 := t.level0.map (Frame.renumber t.compacted.remap)
      level1 := t.level1.map (Frame.renumber t.compacted.remap)
      level2 := t.level2.map (Frame.renumber t.compacted.remap) } := rfl

theorem Stats.table_compacted (t : Stats) : TableOk t.compacted.dims t.compacted.ids :=
  (compacts_foldl _ t.dims).table

theorem Stats.length_compacted (t : Stats) : t.compacted.dims.length ≤ t.dims.length := by
  have hle := length_foldl_compactDim
    (fun id => t.eachFrame.any fun f => f.dims.any fun d => d.id == id) t.dims ⟨[], [], ∅⟩
  rwa [List.length_nil, Nat.zero_add] at hle

/-- What a frame refers to is kept under its new id. -/
theorem Stats.keeps_compacted {t : Stats} {f : Frame} (hf : f ∈ t.eachFrame)
    (hnumbered : f.Numbered t.dims) {d : DimFrame} (hd : d ∈ f.dims) :
    t.compacted.dims[t.compacted.remap.getD d.id 0]? = t.dims[d.id]? := by
  refine (compacts_foldl _ t.dims).keeps d.id (hnumbered d hd) ?_
  exact List.any_eq_true.mpr ⟨f, hf, List.any_eq_true.mpr ⟨d, hd, beq_self_eq_true d.id⟩⟩

/-- A renumbered frame refers to the new table. -/
theorem Stats.numbered_compacted {t : Stats} {f : Frame} (hf : f ∈ t.eachFrame)
    (hnumbered : f.Numbered t.dims) :
    (f.renumber t.compacted.remap).Numbered t.compacted.dims := by
  intro d hd
  obtain ⟨e, he, heq⟩ := mem_foldl_addDim hd
  rw [List.nil_append] at he
  obtain ⟨d', hd', rfl⟩ := List.mem_map.mp he
  have hfound := Stats.keeps_compacted hf hnumbered hd'
  rw [List.getElem?_eq_getElem (hnumbered d' hd')] at hfound
  rw [heq]
  exact (List.getElem?_eq_some_iff.mp hfound).1

end Quicgate.Traffic
