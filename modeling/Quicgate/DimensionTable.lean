import Mathlib.Order.WithBot
import Quicgate.TrafficTotals

/-!
# The table of dimensions

Frames name hosts, ports and countries by their place in one table.  The table is renumbered
when it runs full and when a history is read from a file, and every frame is renumbered
with it.  The module has the history file, and what a run of samples, compactions, saves and
restarts keeps of the table and of what the frames say about each key.

`dimensions_kept` is the result.  `Consistent` is the invariant that every act keeps,
including the reading of a file that repeats keys or dimensions, and `Frame.Same` compares
two frames by their keys instead of their numbers.
-/

namespace Quicgate.Traffic

open Quicgate.GoMaps Quicgate.WindowSums

/-! ### The history file

A file is read back by a new process.  `load` checks it as a whole, takes over the frames that are
valid, and compacts the table at once. -/

/-- A `frame` of a file. Its start may be any number. -/
structure SavedFrame where
  start : Int
  counters : Counter → UInt64
  active : Int
  dims : List DimFrame

structure SavedLevel where
  frames : List SavedFrame
  pending : Option SavedFrame

structure TrafficFile where
  bytes : Nat
  version : Int
  dims : List String
  levels : Fin 3 → SavedLevel
  lastSample : Int

def trafficFileVersion : Int := 1

def maxTrafficFile : Nat := 64 * 2 ^ 20

def Frame.saved (f : Frame) : SavedFrame := ⟨f.start, f.counters, f.active, f.dims⟩

def Level.saved (l : Level) : SavedLevel := ⟨l.frames.map Frame.saved, l.pending.map Frame.saved⟩

def Stats.save (t : Stats) (bytes : Nat) : TrafficFile :=
  ⟨bytes, trafficFileVersion, t.dims, fun i => (t.level i).saved, t.lastSample⟩

def SavedFrame.valid (maxTrafficDims step : Nat) (dims : List String) (f : SavedFrame) : Bool :=
  decide (0 < f.start ∧ f.start % step = 0 ∧ f.dims.length ≤ maxTrafficDims) &&
    f.dims.all fun d => decide (d.id < dims.length)

/-- The frame that `load` takes over. -/
def SavedFrame.taken (maxTrafficDims step : Nat) (dims : List String) (f : SavedFrame) :
    Option Frame :=
  if f.valid maxTrafficDims step dims then some ⟨f.start.toNat, f.counters, f.active, f.dims⟩
  else none

/-- The loop of `load` over the levels, for one of them. -/
def Level.load (maxTrafficDims step cap : Nat) (dims : List String) (l : Level)
    (saved : SavedLevel) : Level :=
  let l := (saved.frames.filterMap (SavedFrame.taken maxTrafficDims step dims)).foldl
    (Level.push cap) l
  { l with pending :=
      (saved.pending.bind (SavedFrame.taken maxTrafficDims step dims)).or l.pending }

/-- The levels and the table of a file that passes its checks, before they are compacted. Nothing
reads `lastSample`. -/
def Stats.takeOver (maxTrafficDims : Nat) (t : Stats) (tf : TrafficFile) : Stats :=
  let t := t.withLevels fun i =>
    (t.level i).load maxTrafficDims (historyLevels i).1 (historyLevels i).2 tf.dims (tf.levels i)
  { t with dims := tf.dims, lastSample := tf.lastSample.toNat }

/-- `load`. There is no file, or one that cannot be decoded, or one that is checked. -/
def Stats.load (maxTrafficDims : Nat) (t : Stats) : Option TrafficFile → Stats
  | none => t
  | some tf =>
      if maxTrafficFile < tf.bytes ∨ tf.version ≠ trafficFileVersion ∨
          maxTrafficDims < tf.dims.length then t
      else (t.takeOver maxTrafficDims tf).compactDims

/-- What happens to the history. A new process has the history of a file. -/
inductive Act where
  | sample (x : Reading)
  | compactDims
  | save
  | restart (file : Option TrafficFile)

def Stats.act (maxTrafficDims : Nat) (t : Stats) : Act → Stats
  | .sample x => t.sample maxTrafficDims x
  | .compactDims => t.compactDims
  | .save => t
  | .restart file => Stats.new.load maxTrafficDims file

def runActs (maxTrafficDims : Nat) (acts : List Act) : Stats :=
  acts.foldl (Stats.act maxTrafficDims) Stats.new

/-! ### What a frame says about a key

A frame says the traffic of a key and its peak of open connections. -/

/-- The most connections open under a key; there is none without a dimension of the key. -/
def peak (keys : List String) (key : String) (dims : List DimFrame) : WithBot Int :=
  ((dims.filter fun d => keys[d.id]? = some key).map fun d => (d.active : WithBot Int)).foldr max ⊥

/-- Two frames, numbered in two tables, that say the same about every key. -/
structure Frame.Same (keys keys' : List String) (f f' : Frame) : Prop where
  start : f'.start = f.start
  counters : f'.counters = f.counters
  active : f'.active = f.active
  sums : ∀ key c, dimsValue keys' key c f'.dims = dimsValue keys key c f.dims
  peaks : ∀ key, peak keys' key f'.dims = peak keys key f.dims

structure Level.Same (keys keys' : List String) (l l' : Level) : Prop where
  frames : List.Forall₂ (Frame.Same keys keys') l.frames l'.frames
  pending : Option.Rel (Frame.Same keys keys') l.pending l'.pending

section Peaks

variable {keys keys' : List String} {key : String}

theorem peak_cons (d : DimFrame) (dims : List DimFrame) : peak keys key (d :: dims) =
    max (if keys[d.id]? = some key then (d.active : WithBot Int) else ⊥) (peak keys key dims) := by
  unfold peak
  by_cases hd : keys[d.id]? = some key
  · simp [hd]
  · simp [hd]

theorem peak_addDim (dims : List DimFrame) (d : DimFrame) : peak keys key (addDim dims d) =
    max (peak keys key dims) (if keys[d.id]? = some key then (d.active : WithBot Int) else ⊥) := by
  induction dims with
  | nil =>
    rw [addDim, peak_cons]
    exact max_comm _ _
  | cons e dims ih =>
    rw [addDim]
    by_cases hid : e.id = d.id
    · rw [if_pos hid, peak_cons, peak_cons, show (e.add d).id = e.id from rfl, ← hid]
      by_cases hkey : keys[e.id]? = some key
      · rw [if_pos hkey, if_pos hkey, if_pos hkey]
        have hmax : ((e.add d).active : WithBot Int) = max (e.active : WithBot Int) d.active :=
          WithBot.coe_max _ _
        rw [hmax, max_right_comm]
      · rw [if_neg hkey, if_neg hkey, if_neg hkey, max_bot_right]
    · rw [if_neg hid, peak_cons, peak_cons, ih, max_assoc]

theorem peak_foldl_addDim (dims more : List DimFrame) : peak keys key (more.foldl addDim dims) =
    max (peak keys key dims) (peak keys key more) := by
  induction more generalizing dims with
  | nil => exact (max_bot_right _).symm
  | cons d more ih => rw [List.foldl_cons, ih, peak_addDim, peak_cons, max_assoc]

/-- Renumbered dimensions keep their keys. -/
theorem Frame.same_renumber {remap : List Nat} {f : Frame}
    (h : ∀ d ∈ f.dims, keys'[remap.getD d.id 0]? = keys[d.id]?) :
    f.Same keys keys' (f.renumber remap) where
  start := rfl
  counters := rfl
  active := rfl
  sums key c := congrFun (Frame.value_renumber h) (.share key c)
  peaks key := by
    have hmap : peak keys' key (f.dims.map fun d => { d with id := remap.getD d.id 0 }) =
        peak keys key f.dims := by
      generalize f.dims = dims at h
      induction dims with
      | nil => rfl
      | cons d dims ih =>
        rw [List.map_cons, peak_cons, peak_cons, h d List.mem_cons_self,
          ih fun e he => h e (List.mem_cons_of_mem d he)]
    exact (peak_foldl_addDim [] _).trans ((max_bot_left _).trans hmap)

end Peaks

/-! ### Frames and levels in order

Sound frames have every id at most once, which bounds a frame by the size of the table. -/

/-- The ids of the frame are in the table, each of them once. -/
structure Frame.Sound (keys : List String) (f : Frame) : Prop where
  numbered : f.Numbered keys
  distinct : (f.dims.map DimFrame.id).Nodup

/-- The frames of the level are sound and begin where its intervals begin. -/
structure Level.Sound (step cap : Nat) (keys : List String) (l : Level) : Prop where
  room : l.frames.length ≤ cap
  frames : l.All fun f => f.Sound keys ∧ step ∣ f.start

section Sound

variable {keys : List String} {step cap : Nat} {l : Level} {f g : Frame}

theorem Frame.Sound.merge (hf : f.Sound keys) (hg : g.Sound keys) : (f.merge g).Sound keys where
  numbered := hf.numbered.merge hg.numbered
  distinct := nodup_foldl_addDim hf.distinct g.dims

theorem Frame.sound_empty (start : Nat) : (Frame.empty start).Sound keys where
  numbered := nofun
  distinct := List.nodup_nil

theorem Frame.Sound.append (h : f.Sound keys) (more : List String) : f.Sound (keys ++ more) where
  numbered := h.numbered.append more
  distinct := h.distinct

/-- A frame has no more dimensions than the table has keys. -/
theorem Frame.Sound.length_le (h : f.Sound keys) : f.dims.length ≤ keys.length := by
  have hsub : f.dims.map DimFrame.id ⊆ List.range keys.length := by
    intro id hid
    obtain ⟨d, hd, rfl⟩ := List.mem_map.mp hid
    exact List.mem_range.mpr (h.numbered d hd)
  have hle := (List.subperm_of_subset h.distinct hsub).length_le
  rwa [List.length_map, List.length_range] at hle

theorem Level.length_push (hcap : 0 < cap) (h : l.frames.length ≤ cap) (f : Frame) :
    (l.push cap f).frames.length ≤ cap := by
  unfold Level.push
  split_ifs
  · simp only [List.length_append, List.length_drop, List.length_singleton]
    omega
  · simp only [List.length_append, List.length_singleton]
    omega

theorem Level.length_add (hcap : 0 < cap) (h : l.frames.length ≤ cap) (f : Frame) :
    (l.add step cap f).1.frames.length ≤ cap := by
  rcases l.add_cases step cap f with ⟨-, heq⟩ | ⟨p, -, -, heq⟩ | ⟨p, -, heq, -⟩
  · rw [heq]
    exact h
  · rw [heq]
    exact h
  · rw [heq]
    exact Level.length_push hcap h p

theorem Level.Sound.push (h : l.Sound step cap keys) (hcap : 0 < cap) (hf : f.Sound keys)
    (hstart : step ∣ f.start) : (l.push cap f).Sound step cap keys where
  room := Level.length_push hcap h.room f
  frames := h.frames.push ⟨hf, hstart⟩

theorem Level.Sound.add (h : l.Sound step cap keys) (hcap : 0 < cap) (hf : f.Sound keys) :
    (l.add step cap f).1.Sound step cap keys where
  room := Level.length_add hcap h.room f
  frames := h.frames.add (fun _ hp => ⟨hp.1.merge hf, hp.2⟩)
    ⟨(Frame.sound_empty _).merge hf, dvd_floorTo step f.start⟩

theorem Level.Sound.append (h : l.Sound step cap keys) (more : List String) :
    l.Sound step cap (keys ++ more) where
  room := h.room
  frames f hf := ⟨(h.frames f hf).1.append more, (h.frames f hf).2⟩

end Sound

/-! ### Renumbering the history

A compaction needs less than it establishes: the frames it is given may repeat ids. -/

/-- A level as it is read from a file: a frame may have several dimensions of one id. -/
structure Level.Readable (step cap : Nat) (keys : List String) (l : Level) : Prop where
  room : l.frames.length ≤ cap
  frames : l.All fun f => f.Numbered keys ∧ step ∣ f.start

/-- What holds of the history at all times: the ids of the keys are their places, the table is
within its cap, and the levels are sound. -/
structure Consistent (maxTrafficDims : Nat) (t : Stats) : Prop where
  table : TableOk t.dims t.dimIDs
  capped : t.dims.length ≤ maxTrafficDims
  levels : ∀ i, (t.level i).Sound (historyLevels i).1 (historyLevels i).2 t.dims

section Compaction

variable {maxTrafficDims : Nat} {t : Stats} {f : Frame}

theorem Level.Sound.readable {step cap : Nat} {keys : List String} {l : Level}
    (h : l.Sound step cap keys) : l.Readable step cap keys where
  room := h.room
  frames f hf := ⟨(h.frames f hf).1.numbered, (h.frames f hf).2⟩

theorem Stats.mem_eachFrame_level {t : Stats} {i : Fin 3} {f : Frame}
    (hf : f ∈ (t.level i).frames ++ (t.level i).pending.toList) : f ∈ t.eachFrame := by
  rw [Stats.mem_eachFrame]
  match i with
  | 0 => exact Or.inl hf
  | 1 => exact Or.inr (Or.inl hf)
  | 2 => exact Or.inr (Or.inr hf)

theorem Stats.level_compactDims (t : Stats) (i : Fin 3) :
    t.compactDims.level i = (t.level i).map (Frame.renumber t.compacted.remap) := by
  match i with
  | 0 | 1 | 2 => rfl

/-- A compaction leaves the history consistent, whatever the frames repeated before. -/
theorem consistent_compactDims (hcapped : t.dims.length ≤ maxTrafficDims)
    (hlevels : ∀ i, (t.level i).Readable (historyLevels i).1 (historyLevels i).2 t.dims) :
    Consistent maxTrafficDims t.compactDims where
  table := t.table_compacted
  capped := Nat.le_trans t.length_compacted hcapped
  levels i := by
    rw [Stats.level_compactDims]
    constructor
    · rw [Level.frames_map, List.length_map]
      exact (hlevels i).room
    · apply Level.All.map
      intro f hf
      obtain ⟨hnumbered, hstart⟩ := (hlevels i).frames f hf
      have hnone : (([] : List DimFrame).map DimFrame.id).Nodup := List.nodup_nil
      refine ⟨⟨?_, nodup_foldl_addDim hnone _⟩, hstart⟩
      exact Stats.numbered_compacted (Stats.mem_eachFrame_level hf) hnumbered

theorem same_of_mem (hf : f ∈ t.eachFrame) (hnumbered : f.Numbered t.dims) :
    f.Same t.dims t.compactDims.dims (f.renumber t.compacted.remap) :=
  Frame.same_renumber fun _ hd => Stats.keeps_compacted hf hnumbered hd

/-- A compaction leaves what every frame says about every key. -/
theorem same_compactDims
    (hlevels : ∀ i, (t.level i).Readable (historyLevels i).1 (historyLevels i).2 t.dims)
    (i : Fin 3) :
    (t.level i).Same t.dims t.compactDims.dims (t.compactDims.level i) := by
  have hsame : ∀ f ∈ (t.level i).frames ++ (t.level i).pending.toList,
      f.Same t.dims t.compactDims.dims (f.renumber t.compacted.remap) := fun f hf =>
    same_of_mem (Stats.mem_eachFrame_level hf) ((hlevels i).frames f hf).1
  rw [Stats.level_compactDims]
  constructor
  · rw [Level.frames_map, List.forall₂_map_right_iff, List.forall₂_same]
    exact fun f hf => hsame f (List.mem_append_left _ hf)
  · cases hp : (t.level i).pending with
    | none =>
      rw [Level.map, hp]
      exact .none
    | some p =>
      rw [Level.map, hp]
      exact .some (Level.All.pending hsame hp)

end Compaction

/-! ### A sample

The loop of `diff` adds keys while there is room; what it knows of the keys seen is `Collects`. -/

section Sampling

variable {maxTrafficDims : Nat} {t : Stats} {cur : Snapshot} {acc : Stats × Frame} {key : String}

/-- What `diff` knows after the keys `seen`: the dimensions of the frame are those of some of
them. -/
structure Collects (maxTrafficDims : Nat) (seen : List String) (acc : Stats × Frame) : Prop where
  table : TableOk acc.1.dims acc.1.dimIDs
  capped : acc.1.dims.length ≤ maxTrafficDims
  named : ∀ d ∈ acc.2.dims, ∃ key ∈ seen, acc.1.dims[d.id]? = some key
  distinct : (acc.2.dims.map DimFrame.id).Nodup

/-- A key leaves the dimensions of the frame alone, or adds one under its id, for which there is
room or which it had. -/
theorem diffDim_cases (maxTrafficDims : Nat) (cur : Snapshot) (acc : Stats × Frame) (key : String) :
    ((diffDim maxTrafficDims cur acc key).1 = acc.1 ∧
      (diffDim maxTrafficDims cur acc key).2.dims = acc.2.dims) ∨
    (acc.1.dimIDs.lookup key = none → acc.1.dims.length < maxTrafficDims) ∧
      (diffDim maxTrafficDims cur acc key).1 = (acc.1.dimID key).1 ∧
      ∃ d : DimFrame, d.id = (acc.1.dimID key).2 ∧
        (diffDim maxTrafficDims cur acc key).2.dims = acc.2.dims ++ [d] := by
  have hdims : (if "port:".toList.isPrefixOf key.toList then
      acc.2.addPort (growth cur.dims acc.1.prev.dims key) else acc.2).dims = acc.2.dims := by
    split
    · rfl
    · rfl
  unfold diffDim
  by_cases hzero : (growth cur.dims acc.1.prev.dims key).isZero = true
  · left
    simp only [if_pos hzero]
    exact ⟨trivial, hdims⟩
  · by_cases hfull : maxTrafficDims ≤ acc.1.dims.length ∧ (acc.1.dimIDs.lookup key).isNone = true
    · left
      simp only [if_neg hzero, if_pos hfull]
      exact ⟨trivial, hdims⟩
    · right
      simp only [if_neg hzero, if_neg hfull]
      refine ⟨?_, trivial, _, rfl, by rw [hdims]⟩
      intro hnone
      by_contra hno
      exact hfull ⟨Nat.not_lt.mp hno, by rw [hnone]; rfl⟩

/-- The id of a key in a table that is in order. -/
theorem dimID_spec (h : TableOk t.dims t.dimIDs)
    (hroom : t.dimIDs.lookup key = none → t.dims.length < maxTrafficDims)
    (hcapped : t.dims.length ≤ maxTrafficDims) :
    TableOk (t.dimID key).1.dims (t.dimID key).1.dimIDs ∧
      (t.dimID key).1.dims.length ≤ maxTrafficDims ∧
      (t.dimID key).1.dims[(t.dimID key).2]? = some key ∧
      ∃ more, (t.dimID key).1.dims = t.dims ++ more := by
  unfold Stats.dimID
  cases hid : t.dimIDs.lookup key with
  | some id => exact ⟨h, hcapped, (h key id).mp hid, [], (List.append_nil _).symm⟩
  | none =>
    refine ⟨h.concat hid, ?_, by simp, [key], rfl⟩
    have hlt := hroom hid
    simp only [List.length_append, List.length_singleton]
    omega

theorem Collects.diffDim {seen : List String} (h : Collects maxTrafficDims seen acc)
    (hkey : key ∉ seen) :
    Collects maxTrafficDims (seen ++ [key]) (diffDim maxTrafficDims cur acc key) := by
  rcases diffDim_cases maxTrafficDims cur acc key
    with ⟨hstats, hdims⟩ | ⟨hroom, hstats, d, hd, hdims⟩
  · refine ⟨hstats ▸ h.table, hstats ▸ h.capped, ?_, hdims ▸ h.distinct⟩
    rw [hstats, hdims]
    intro e he
    obtain ⟨k, hk, hname⟩ := h.named e he
    exact ⟨k, List.mem_append_left _ hk, hname⟩
  · obtain ⟨htable, hcapped, hname, more, hmore⟩ := dimID_spec h.table hroom h.capped
    have hold : ∀ e ∈ acc.2.dims, ∃ k ∈ seen, (acc.1.dimID key).1.dims[e.id]? = some k := by
      intro e he
      obtain ⟨k, hk, hname⟩ := h.named e he
      obtain ⟨hlt, -⟩ := List.getElem?_eq_some_iff.mp hname
      exact ⟨k, hk, by rw [hmore, List.getElem?_append_left hlt, hname]⟩
    refine ⟨hstats ▸ htable, hstats ▸ hcapped, ?_, ?_⟩
    · rw [hstats, hdims]
      intro e he
      rcases List.mem_append.mp he with he | he
      · obtain ⟨k, hk, hname⟩ := hold e he
        exact ⟨k, List.mem_append_left _ hk, hname⟩
      · rw [List.mem_singleton.mp he, hd]
        exact ⟨key, List.mem_append_right _ (List.mem_singleton_self key), hname⟩
    · rw [hdims, List.map_append, List.map_cons, List.map_nil]
      refine List.nodup_append.mpr ⟨h.distinct, List.nodup_singleton _, ?_⟩
      -- the dimension of another key has another id
      intro a ha b hb
      rw [List.mem_singleton.mp hb, hd]
      rintro rfl
      obtain ⟨e, he, heid⟩ := List.mem_map.mp ha
      obtain ⟨k, hk, hk'⟩ := hold e he
      rw [heid, hname, Option.some.injEq] at hk'
      exact hkey (hk' ▸ hk)

theorem collects_foldl {keys seen : List String} (h : Collects maxTrafficDims seen acc)
    (hnodup : (seen ++ keys).Nodup) :
    Collects maxTrafficDims (seen ++ keys) (keys.foldl (diffDim maxTrafficDims cur) acc) := by
  induction keys generalizing seen acc with
  | nil =>
    rw [List.append_nil]
    exact h
  | cons key keys ih =>
    have hkey : key ∉ seen := by
      intro hmem
      exact (List.nodup_append.mp hnodup).2.2 key hmem key List.mem_cons_self rfl
    rw [List.append_cons] at hnodup ⊢
    exact ih (h.diffDim hkey) hnodup

/-- The frame of a sample, and the table after it. -/
theorem collects_diff (htable : TableOk t.dims t.dimIDs) (hcapped : t.dims.length ≤ maxTrafficDims)
    (start : Nat) (secs : UInt64) :
    Collects maxTrafficDims (cur.dims.keys.insertionSort (· ≤ ·))
      (t.diff maxTrafficDims cur start secs) := by
  have hnodup : (cur.dims.keys.insertionSort (· ≤ ·)).Nodup :=
    (List.perm_insertionSort _ _).nodup_iff.mpr cur.dims.nodupKeys
  have hrun := @collects_foldl maxTrafficDims cur (t, ⟨start, diffCounters cur t.prev secs, 0, []⟩)
    (cur.dims.keys.insertionSort (· ≤ ·)) [] ⟨htable, hcapped, nofun, List.nodup_nil⟩ hnodup
  rwa [List.nil_append] at hrun

theorem Consistent.makeRoom (h : Consistent maxTrafficDims t) (cur : Snapshot) :
    Consistent maxTrafficDims (t.makeRoom maxTrafficDims cur) := by
  unfold Stats.makeRoom
  simp only
  split
  · exact consistent_compactDims h.capped fun i => (h.levels i).readable
  · exact h

/-- A sound frame is stored and rolled up. -/
theorem Consistent.store (h : Consistent maxTrafficDims t) {f : Frame} (hf : f.Sound t.dims)
    (hstart : sampleStep ∣ f.start) : Consistent maxTrafficDims (t.store f) where
  table := h.table
  capped := h.capped
  levels i := by
    match i with
    | 0 => exact (h.levels 0).push (historyLevels_pos 0).2 hf hstart
    | 1 => exact (h.levels 1).add (historyLevels_pos 1).2 hf
    | 2 =>
      show (nextLevel2 t f).Sound 3600 168 t.dims
      unfold nextLevel2
      cases hdone : (t.level1.add 300 288 f).2 with
      | none => exact h.levels 2
      | some done =>
        have hsound := ((h.levels 1).frames.pending (Level.start_of_add hdone).2).1
        exact (h.levels 2).add (historyLevels_pos 2).2 hsound

theorem Consistent.sample (h : Consistent maxTrafficDims t) (x : Reading) :
    Consistent maxTrafficDims (t.sample maxTrafficDims x) := by
  have hroom := h.makeRoom x.cur
  have hdiff := @collects_diff maxTrafficDims _ x.cur hroom.table hroom.capped
    (sampleStep * x.boundary) x.secs
  obtain ⟨hgrown, hnumbered, hstart⟩ :=
    differs_diff hroom.table maxTrafficDims x.cur (sampleStep * x.boundary) x.secs
  obtain ⟨more, hmore⟩ := hgrown.keys
  have hstats : Consistent maxTrafficDims (t.sampled maxTrafficDims x).1 := by
    refine ⟨hdiff.table, hdiff.capped, fun i => ?_⟩
    have hlevel : (t.sampled maxTrafficDims x).1.level i =
        (t.makeRoom maxTrafficDims x.cur).level i := by
      match i with
      | 0 => exact hgrown.level0
      | 1 => exact hgrown.level1
      | 2 => exact hgrown.level2
    have hkeys : (t.sampled maxTrafficDims x).1.dims =
        (t.makeRoom maxTrafficDims x.cur).dims ++ more := hmore
    have hlevels := (hroom.levels i).append more
    rwa [← hkeys, ← hlevel] at hlevels
  have hborder : sampleStep ∣ (t.sampled maxTrafficDims x).2.start :=
    ⟨x.boundary, hstart⟩
  exact hstats.store ⟨hnumbered, hdiff.distinct⟩ hborder

end Sampling

/-! ### The file and back

What is saved is taken back frame by frame, so a level is read back as it was, but for frames that
`load` refuses by their date. -/

section File

variable {maxTrafficDims step cap : Nat} {keys : List String} {l : Level} {t : Stats}

theorem valid_iff {f : SavedFrame} : f.valid maxTrafficDims step keys = true ↔
    (0 < f.start ∧ f.start % step = 0 ∧ f.dims.length ≤ maxTrafficDims) ∧
      ∀ d ∈ f.dims, d.id < keys.length := by
  simp only [SavedFrame.valid, Bool.and_eq_true, decide_eq_true_eq, List.all_eq_true]

theorem taken_eq_some {f : SavedFrame} {g : Frame}
    (h : f.taken maxTrafficDims step keys = some g) :
    0 < f.start ∧ g.Numbered keys ∧ step ∣ g.start ∧ (g.start : Int) = f.start := by
  unfold SavedFrame.taken at h
  split_ifs at h with hvalid
  obtain rfl := Option.some.inj h
  obtain ⟨⟨hpos, hborder, -⟩, hids⟩ := valid_iff.mp hvalid
  have hstart : (f.start.toNat : Int) = f.start := Int.toNat_of_nonneg (Int.le_of_lt hpos)
  refine ⟨hpos, hids, ?_, hstart⟩
  rw [← Int.natCast_dvd_natCast, hstart]
  exact Int.dvd_of_emod_eq_zero hborder

theorem Level.All.load {P : Frame → Prop} (h : l.All P) {saved : SavedLevel}
    (htaken : ∀ f ∈ saved.frames ++ saved.pending.toList, ∀ g,
      f.taken maxTrafficDims step keys = some g → P g) :
    (l.load maxTrafficDims step cap keys saved).All P := by
  have hframes : ∀ fs : List Frame, (∀ f ∈ fs, P f) → ∀ l : Level, l.All P →
      (fs.foldl (Level.push cap) l).All P := by
    intro fs
    induction fs with
    | nil => exact fun _ _ h => h
    | cons f fs ih =>
      intro hfs l hl
      exact ih (fun g hg => hfs g (List.mem_cons_of_mem f hg)) _
        (hl.push (hfs f List.mem_cons_self))
  have hread := hframes (saved.frames.filterMap (SavedFrame.taken maxTrafficDims step keys))
    (fun g hg => by
      obtain ⟨f, hf, hfg⟩ := List.mem_filterMap.mp hg
      exact htaken f (List.mem_append_left _ hf) g hfg) l h
  intro g hg
  rcases List.mem_append.mp hg with hg | hg
  · exact hread g (List.mem_append_left _ hg)
  · rcases Option.or_eq_some_iff.mp (Option.mem_toList.mp hg) with hp | ⟨-, hold⟩
    · obtain ⟨p, hsome, hp⟩ := Option.bind_eq_some_iff.mp hp
      refine htaken p (List.mem_append_right _ ?_) g hp
      rw [hsome]
      exact List.mem_singleton_self p
    · exact hread.pending hold

theorem length_foldl_push (hcap : 0 < cap) (fs : List Frame) (h : l.frames.length ≤ cap) :
    (fs.foldl (Level.push cap) l).frames.length ≤ cap := by
  induction fs generalizing l with
  | nil => exact h
  | cons f fs ih => exact ih (Level.length_push hcap h f)

theorem Level.Readable.load (h : l.Readable step cap keys) (hcap : 0 < cap) (saved : SavedLevel) :
    (l.load maxTrafficDims step cap keys saved).Readable step cap keys where
  room := length_foldl_push hcap _ h.room
  frames := h.frames.load fun f _ g hg => by
    obtain ⟨-, hnumbered, hborder, -⟩ := taken_eq_some hg
    exact ⟨hnumbered, hborder⟩

theorem consistent_new (maxTrafficDims : Nat) : Consistent maxTrafficDims Stats.new where
  table := TableOk.nil
  capped := Nat.zero_le _
  levels i := by
    match i with
    | 0 | 1 | 2 => exact ⟨Nat.zero_le _, nofun⟩

theorem level_takeOver (maxTrafficDims : Nat) (tf : TrafficFile) (i : Fin 3) :
    (Stats.new.takeOver maxTrafficDims tf).level i = (⟨[], none, 0⟩ : Level).load maxTrafficDims
      (historyLevels i).1 (historyLevels i).2 tf.dims (tf.levels i) := by
  match i with
  | 0 | 1 | 2 => rfl

/-- The levels of a new process are those of the file, as far as they can be read. -/
theorem readable_takeOver (maxTrafficDims : Nat) (tf : TrafficFile) (i : Fin 3) :
    ((Stats.new.takeOver maxTrafficDims tf).level i).Readable (historyLevels i).1
      (historyLevels i).2 tf.dims := by
  have hempty : (⟨[], none, 0⟩ : Level).Readable (historyLevels i).1 (historyLevels i).2 tf.dims :=
    ⟨Nat.zero_le _, nofun⟩
  rw [level_takeOver]
  exact hempty.load (historyLevels_pos i).2 (tf.levels i)

/-- A new process has a consistent history, whatever the file holds. -/
theorem consistent_load (maxTrafficDims : Nat) (file : Option TrafficFile) :
    Consistent maxTrafficDims (Stats.new.load maxTrafficDims file) := by
  cases file with
  | none => exact consistent_new maxTrafficDims
  | some tf =>
    simp only [Stats.load]
    split_ifs with hbad
    · exact consistent_new maxTrafficDims
    · have hcapped : tf.dims.length ≤ maxTrafficDims := by
        by_contra hno
        exact hbad (Or.inr (Or.inr (Nat.not_le.mp hno)))
      exact consistent_compactDims hcapped (readable_takeOver maxTrafficDims tf)

theorem consistent_act (h : Consistent maxTrafficDims t) (act : Act) :
    Consistent maxTrafficDims (t.act maxTrafficDims act) := by
  cases act with
  | sample x => exact h.sample x
  | compactDims => exact consistent_compactDims h.capped fun i => (h.levels i).readable
  | save => exact h
  | restart file => exact consistent_load maxTrafficDims file

/-- A run keeps the history consistent. -/
theorem consistent_runActs (maxTrafficDims : Nat) (acts : List Act) :
    Consistent maxTrafficDims (runActs maxTrafficDims acts) := by
  have hrun : ∀ t : Stats, Consistent maxTrafficDims t →
      Consistent maxTrafficDims (acts.foldl (Stats.act maxTrafficDims) t) := by
    induction acts with
    | nil => exact fun _ h => h
    | cons act acts ih => exact fun t h => ih _ (consistent_act h act)
  exact hrun _ (consistent_new maxTrafficDims)

def Level.dated (l : Level) : Level :=
  { l with
    frames := l.frames.filter fun f => decide (0 < f.start)
    pending := l.pending.filter fun f => decide (0 < f.start) }

/-- A frame of the history is taken back as it was. -/
theorem taken_saved {f : Frame} (hf : f.Sound keys) (hborder : step ∣ f.start)
    (hcapped : keys.length ≤ maxTrafficDims) :
    f.saved.taken maxTrafficDims step keys = if 0 < f.start then some f else none := by
  have hborder' : (f.start : Int) % step = 0 :=
    Int.emod_eq_zero_of_dvd (Int.natCast_dvd_natCast.mpr hborder)
  have hlength := Nat.le_trans hf.length_le hcapped
  by_cases hpos : 0 < f.start
  · have hpos' : 0 < (f.start : Int) := by omega
    have hvalid : f.saved.valid maxTrafficDims step keys = true :=
      valid_iff.mpr ⟨⟨hpos', hborder', hlength⟩, hf.numbered⟩
    rw [SavedFrame.taken, if_pos hvalid, if_pos hpos]
    rfl
  · have hinvalid : ¬ f.saved.valid maxTrafficDims step keys = true := by
      intro hvalid
      have hpos' : 0 < (f.start : Int) := (valid_iff.mp hvalid).1.1
      omega
    rw [SavedFrame.taken, if_neg hinvalid, if_neg hpos]

/-- Frames that there is room for are appended. -/
theorem frames_foldl_push (fs : List Frame) (hroom : l.frames.length + fs.length ≤ cap) :
    fs.foldl (Level.push cap) l = { l with frames := l.frames ++ fs } := by
  induction fs generalizing l with
  | nil => rw [List.append_nil]; rfl
  | cons f fs ih =>
    rw [List.length_cons] at hroom
    have hpush : l.push cap f = { l with frames := l.frames ++ [f] } :=
      if_neg (by omega)
    rw [List.foldl_cons, hpush,
      ih (by simp only [List.length_append, List.length_singleton]; omega)]
    simp

/-- A level is read back from a file as it was, but for frames from the beginning of 1970. -/
theorem load_saved (h : l.Sound step cap keys) (hcapped : keys.length ≤ maxTrafficDims) :
    (⟨[], none, 0⟩ : Level).load maxTrafficDims step cap keys l.saved =
      { l.dated with dropped := 0 } := by
  have htaken : ∀ f ∈ l.frames ++ l.pending.toList, f.saved.taken maxTrafficDims step keys =
      if 0 < f.start then some f else none := fun f hf =>
    taken_saved (h.frames f hf).1 (h.frames f hf).2 hcapped
  have hframes : l.saved.frames.filterMap (SavedFrame.taken maxTrafficDims step keys) =
      l.dated.frames := by
    show (l.frames.map Frame.saved).filterMap _ = l.frames.filter _
    rw [List.filterMap_map, ← List.filterMap_eq_filter]
    apply List.filterMap_congr
    intro f hf
    exact (htaken f (List.mem_append_left _ hf)).trans (by simp [Option.guard])
  have hpending : (l.saved.pending.bind (SavedFrame.taken maxTrafficDims step keys)).or none =
      l.dated.pending := by
    rw [Option.or_none]
    show ((l.pending.map Frame.saved).bind _) = l.pending.filter _
    cases hp : l.pending with
    | none => rfl
    | some p =>
      have hone := htaken p (List.mem_append_right _ (by rw [hp]; exact List.mem_singleton_self p))
      simp only [Option.map_some, Option.bind_some, hone, Option.filter_some, decide_eq_true_eq]
  have hroom : ([] : List Frame).length + l.dated.frames.length ≤ cap := by
    have hle := List.length_filter_le (fun f : Frame => decide (0 < f.start)) l.frames
    have hlen := h.room
    simp only [List.length_nil, Nat.zero_add]
    exact Nat.le_trans hle hlen
  unfold Level.load
  rw [hframes, frames_foldl_push _ hroom]
  simp only [List.nil_append, hpending]

end File

/-! ### Frames of a clock that is set

A clock that was never set writes frames of the first hour of 1970, and only those are lost. -/

def Level.From (bound : Nat) (l : Level) : Prop := l.All fun f => bound ≤ f.start

def Act.From (bound : Nat) : Act → Prop
  | .sample x => bound ≤ sampleStep * x.boundary
  | .restart (some tf) =>
      ∀ i, ∀ f ∈ (tf.levels i).frames ++ (tf.levels i).pending.toList, (bound : Int) ≤ f.start
  | _ => True

section Dates

variable {maxTrafficDims bound step cap : Nat} {keys : List String} {l : Level} {t : Stats}

theorem Level.From.add (h : l.From bound) (hborder : step ∣ bound) {f : Frame}
    (hf : bound ≤ f.start) : (l.add step cap f).1.From bound :=
  Level.All.add h (fun _ hp => hp) ((le_floorTo_iff hborder).mpr hf)

theorem from_compactDims (h : ∀ i, (t.level i).From bound) (i : Fin 3) :
    (t.compactDims.level i).From bound := by
  rw [Stats.level_compactDims]
  exact Level.All.map (h i)

theorem from_sample (hborder : 3600 ∣ bound) (h : ∀ i, (t.level i).From bound) {x : Reading}
    (hx : bound ≤ sampleStep * x.boundary) (htable : TableOk t.dims t.dimIDs) (i : Fin 3) :
    ((t.sample maxTrafficDims x).level i).From bound := by
  have hroom : ∀ i, ((t.makeRoom maxTrafficDims x.cur).level i).From bound := by
    unfold Stats.makeRoom
    simp only
    split
    · exact from_compactDims h
    · exact h
  have htable' : TableOk (t.makeRoom maxTrafficDims x.cur).dims
      (t.makeRoom maxTrafficDims x.cur).dimIDs := by
    unfold Stats.makeRoom
    simp only
    split
    · exact t.table_compacted
    · exact htable
  obtain ⟨hgrown, -, hstart⟩ :=
    differs_diff htable' maxTrafficDims x.cur (sampleStep * x.boundary) x.secs
  have hf : bound ≤ (t.sampled maxTrafficDims x).2.start :=
    Nat.le_trans hx (Nat.le_of_eq hstart.symm)
  have h0 : (t.sampled maxTrafficDims x).1.level0.From bound := by
    rw [show (t.sampled maxTrafficDims x).1.level0 = _ from hgrown.level0]
    exact hroom 0
  have h1 : (t.sampled maxTrafficDims x).1.level1.From bound := by
    rw [show (t.sampled maxTrafficDims x).1.level1 = _ from hgrown.level1]
    exact hroom 1
  have h2 : (t.sampled maxTrafficDims x).1.level2.From bound := by
    rw [show (t.sampled maxTrafficDims x).1.level2 = _ from hgrown.level2]
    exact hroom 2
  have hborder1 : 300 ∣ bound := Nat.dvd_trans (by decide) hborder
  match i with
  | 0 => exact Level.All.push h0 hf
  | 1 => exact h1.add hborder1 hf
  | 2 =>
    show (nextLevel2 (t.sampled maxTrafficDims x).1 (t.sampled maxTrafficDims x).2).From bound
    unfold nextLevel2
    cases hdone : ((t.sampled maxTrafficDims x).1.level1.add 300 288
        (t.sampled maxTrafficDims x).2).2 with
    | none => exact h2
    | some done => exact h2.add hborder (Level.All.pending h1 (Level.start_of_add hdone).2)

theorem from_new (bound : Nat) (i : Fin 3) : (Stats.new.level i).From bound := by
  match i with
  | 0 | 1 | 2 => exact nofun

/-- While the clock shows a later hour than the first one of 1970, so do the frames. -/
theorem from_runActs {acts : List Act} (h : ∀ act ∈ acts, act.From 3600) (i : Fin 3) :
    ((runActs maxTrafficDims acts).level i).From 3600 := by
  have hrun : ∀ t : Stats, Consistent maxTrafficDims t → (∀ i, (t.level i).From 3600) →
      ∀ i, ((acts.foldl (Stats.act maxTrafficDims) t).level i).From 3600 := by
    induction acts with
    | nil => exact fun _ _ h => h
    | cons act acts ih =>
      intro t ht hfrom
      have hact := h act List.mem_cons_self
      refine ih (fun a ha => h a (List.mem_cons_of_mem act ha)) _ ?_ ?_
      · exact consistent_act ht act
      · cases act with
        | sample x => exact from_sample (Nat.dvd_refl _) hfrom hact ht.table
        | compactDims => exact from_compactDims hfrom
        | save => exact hfrom
        | restart file =>
          cases file with
          | none => exact from_new 3600
          | some tf =>
            simp only [Stats.act, Stats.load]
            split_ifs
            · exact from_new 3600
            · apply from_compactDims
              intro i
              rw [level_takeOver]
              refine Level.All.load nofun fun f hf g hg => ?_
              obtain ⟨-, -, -, hstart⟩ := taken_eq_some hg
              have hle := hact i f hf
              omega
  exact hrun _ (consistent_new maxTrafficDims) (from_new 3600) i

theorem Level.From.dated_eq (h : l.From bound) (hpos : 0 < bound) : l.dated = l := by
  have hframes : l.frames.filter (fun f => decide (0 < f.start)) = l.frames :=
    List.filter_eq_self.mpr fun f hf =>
      decide_eq_true (Nat.lt_of_lt_of_le hpos (h f (List.mem_append_left _ hf)))
  have hpending : l.pending.filter (fun f => decide (0 < f.start)) = l.pending := by
    cases hp : l.pending with
    | none => rfl
    | some p =>
      have hp' := Nat.lt_of_lt_of_le hpos (Level.All.pending h hp)
      simp only [Option.filter_some, hp', decide_true, if_true]
  unfold Level.dated
  rw [hframes, hpending]

end Dates

/-! ### The table of a run

The two halves are put together: the invariant along the run, and what a compaction or a way through
the file leaves of each frame. -/

/-- The table is consistent, and neither a compaction nor a way through the file changes what a
frame says about a key. -/
structure TableKept (maxTrafficDims : Nat) (t : Stats) : Prop where
  numbered : ∀ i, (t.level i).All fun f => ∀ d ∈ f.dims, d.id < t.dims.length
  once : ∀ i, (t.level i).All fun f => (f.dims.map DimFrame.id).Nodup
  keys : t.dims.Nodup
  inverse : ∀ key id, t.dimIDs.lookup key = some id ↔ t.dims[id]? = some key
  capped : t.dims.length ≤ maxTrafficDims
  compacted : ∀ i, (t.level i).Same t.dims t.compactDims.dims (t.compactDims.level i)
  reloaded : ∀ bytes ≤ maxTrafficFile, ∀ i, (t.level i).dated.Same t.dims
    (Stats.new.load maxTrafficDims (some (t.save bytes))).dims
    ((Stats.new.load maxTrafficDims (some (t.save bytes))).level i)

theorem TableOk.nodup {keys : List String} {ids : GoMap String Nat} (h : TableOk keys ids) :
    keys.Nodup := by
  rw [List.nodup_iff_getElem?_ne_getElem?]
  intro i j hij hj heq
  have hkey := List.getElem?_eq_getElem hj
  have hi := (h _ i).mpr (heq.trans hkey)
  have hj' := (h _ j).mpr hkey
  rw [hi, Option.some.injEq] at hj'
  omega

/-- A history that was saved comes back with what its frames say. -/
theorem Consistent.reloaded {maxTrafficDims : Nat} {t : Stats} (h : Consistent maxTrafficDims t)
    {bytes : Nat} (hbytes : bytes ≤ maxTrafficFile) (i : Fin 3) :
    (t.level i).dated.Same t.dims (Stats.new.load maxTrafficDims (some (t.save bytes))).dims
      ((Stats.new.load maxTrafficDims (some (t.save bytes))).level i) := by
  have hpasses : ¬ (maxTrafficFile < (t.save bytes).bytes ∨
      (t.save bytes).version ≠ trafficFileVersion ∨
        maxTrafficDims < (t.save bytes).dims.length) := by
    rintro (hlong | hversion | hmany)
    · exact Nat.not_lt.mpr hbytes hlong
    · exact hversion rfl
    · exact Nat.not_lt.mpr h.capped hmany
  have hload : Stats.new.load maxTrafficDims (some (t.save bytes)) =
      (Stats.new.takeOver maxTrafficDims (t.save bytes)).compactDims := if_neg hpasses
  have hsame := @same_compactDims (Stats.new.takeOver maxTrafficDims (t.save bytes))
    (readable_takeOver maxTrafficDims (t.save bytes)) i
  have hlevel : (Stats.new.takeOver maxTrafficDims (t.save bytes)).level i =
      { (t.level i).dated with dropped := 0 } := by
    rw [level_takeOver]
    exact load_saved (h.levels i) h.capped
  rw [hload]
  rw [hlevel] at hsame
  exact ⟨hsame.frames, hsame.pending⟩

/-- Every run keeps the table, and while the clock shows a later hour than the first one of 1970 no
frame is left behind in a file. -/
theorem dimensions_kept (maxTrafficDims : Nat) (acts : List Act) :
    TableKept maxTrafficDims (runActs maxTrafficDims acts) ∧
      ((∀ act ∈ acts, act.From 3600) →
        ∀ i, ((runActs maxTrafficDims acts).level i).dated = (runActs maxTrafficDims acts).level
          i) := by
  have h := consistent_runActs maxTrafficDims acts
  constructor
  · exact {
      numbered := fun i f hf => ((h.levels i).frames f hf).1.numbered
      once := fun i f hf => ((h.levels i).frames f hf).1.distinct
      keys := h.table.nodup
      inverse := h.table
      capped := h.capped
      compacted := same_compactDims fun i => (h.levels i).readable
      reloaded := fun _ hbytes => h.reloaded hbytes }
  · intro hfrom i
    exact (from_runActs hfrom i).dated_eq (by decide)

def hostReading (boundary : Nat) (name : String) : Reading where
  boundary := boundary
  secs := 10
  cur := ⟨1, 0, 0, 0, 0, AList.insert name ⟨fun _ => 1, 0⟩ ∅⟩

/-- A file in which two keys are the same, and two dimensions of a frame. -/
def repeatedFile : TrafficFile where
  bytes := 200
  version := 1
  dims := ["host:a.example", "host:a.example"]
  levels _ := ⟨[⟨3600 * 500000, 0, 0, [⟨0, fun _ => 1, 2⟩, ⟨1, fun _ => 1, 3⟩]⟩], none⟩
  lastSample := 1

/-- A restart on that file, and two samples with room for one key more. -/
def crowdedRun : List Act :=
  [.restart (some repeatedFile), .sample (hostReading 180000001 "host:b.example"), .save,
    .compactDims, .sample (hostReading 180000002 "host:c.example")]

theorem dimensions_kept_crowdedRun : TableKept 2 (runActs 2 crowdedRun) ∧
    (runActs 2 crowdedRun).dims = ["host:a.example", "host:b.example"] ∧
    ((runActs 2 crowdedRun).level 0).dated = (runActs 2 crowdedRun).level 0 := by
  obtain ⟨hkept, hdated⟩ := dimensions_kept 2 crowdedRun
  refine ⟨hkept, by decide +kernel, hdated ?_ 0⟩
  intro act hact
  simp only [crowdedRun, List.mem_cons, List.not_mem_nil, or_false] at hact
  rcases hact with rfl | rfl | rfl | rfl | rfl
  · intro i f hf
    obtain rfl := List.mem_singleton.mp hf
    decide
  · simp [Act.From, hostReading, sampleStep]
  · trivial
  · trivial
  · simp [Act.From, hostReading, sampleStep]

end Quicgate.Traffic
