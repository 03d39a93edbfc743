import Quicgate.Traffic

/-!
# The roll-up adds up

The samples that were taken beside the history that is kept of them.  Every level holds
the samples of a window of whole intervals exactly once, as far back as its cap reaches,
and so does a report.

`Rolled` is the invariant of one level and `Inv` that of the history: the frames of a level,
with those that finer levels hold back, add up to the samples.  `traffic_conserved` reads
the sums of levels and reports off it.
-/

namespace Quicgate.Traffic

open Quicgate.GoMaps Quicgate.WindowSums

structure Sample where
  start : Nat
  value : Measure → UInt64

structure World where
  stats : Stats
  taken : List Sample

def World.sample (maxTrafficDims : Nat) (w : World) (x : Reading) : World :=
  let (t, f) := w.stats.sampled maxTrafficDims x
  ⟨t.store f, w.taken ++ [⟨f.start, f.value t.dims⟩]⟩

def run (maxTrafficDims : Nat) (xs : List Reading) : World :=
  xs.foldl (World.sample maxTrafficDims) ⟨Stats.new, []⟩

/-! ### What a level holds

`Rolled` speaks of windows of whole intervals from `since` on, the time from which the level has not
dropped anything. -/

/-- The frames of a level, with those that are held back behind them, add up to the samples
taken, over every window of whole intervals from `since` on. -/
structure Rolled (step cap : Nat) (keys : List String) (frames : List Frame) (dropped : Nat)
    (behind : List Frame) (next : Nat) (taken : List Sample) : Prop where
  border : ∀ f ∈ frames, step ∣ f.start
  increasing : (frames.map Frame.start).Pairwise (· < ·)
  below : ∀ f ∈ frames, f.start < next
  borderNext : step ∣ next
  short : frames.length ≤ cap
  sums : ∃ since, (dropped = 0 → since = 0) ∧
    (dropped ≠ 0 → frames.length = cap ∧ ∀ f ∈ frames, since ≤ f.start) ∧
    ∀ a b, step ∣ a → step ∣ b → since ≤ a →
      windowSum Frame.start (Frame.value keys) a b (frames ++ behind) =
        windowSum Sample.start Sample.value a b taken

variable {step cap dropped next : Nat} {keys : List String} {frames behind : List Frame}
  {taken : List Sample}

theorem Rolled.init (h : step ∣ next) : Rolled step cap keys [] 0 [] next [] where
  border := nofun
  increasing := List.Pairwise.nil
  below := nofun
  borderNext := h
  short := Nat.zero_le cap
  sums := ⟨0, fun _ => rfl, fun h => absurd rfl h, fun _ _ _ _ _ => rfl⟩

/-- More is held back, and more was taken. -/
theorem Rolled.more (h : Rolled step cap keys frames dropped behind next taken)
    (behind' : List Frame) {fresh : List Sample}
    (hsame : ∀ a b, step ∣ a → step ∣ b →
      windowSum Frame.start (Frame.value keys) a b behind' =
        windowSum Frame.start (Frame.value keys) a b behind +
          windowSum Sample.start Sample.value a b fresh) :
    Rolled step cap keys frames dropped behind' next (taken ++ fresh) := by
  obtain ⟨since, hnone, hfull, hsums⟩ := h.sums
  refine ⟨h.border, h.increasing, h.below, h.borderNext, h.short, since, hnone, hfull, ?_⟩
  intro a b ha hb hsince
  have hold := hsums a b ha hb hsince
  rw [windowSum_append] at hold
  rw [windowSum_append, windowSum_append, hsame a b ha hb, ← add_assoc, hold]

/-- The frames held back are replaced. -/
theorem Rolled.resum (h : Rolled step cap keys frames dropped behind next taken)
    {behind' : List Frame}
    (hsame : ∀ a b, step ∣ a → step ∣ b →
      windowSum Frame.start (Frame.value keys) a b behind' =
        windowSum Frame.start (Frame.value keys) a b behind) :
    Rolled step cap keys frames dropped behind' next taken := by
  have hmore : Rolled step cap keys frames dropped behind' next (taken ++ []) := by
    refine h.more behind' fun a b ha hb => ?_
    rw [hsame a b ha hb, windowSum_nil, add_zero]
  rw [List.append_nil] at hmore
  exact hmore

theorem Rolled.later (h : Rolled step cap keys frames dropped behind next taken) {next' : Nat}
    (hnext : next ≤ next') (hborder : step ∣ next') :
    Rolled step cap keys frames dropped behind next' taken :=
  { h with
    below := fun f hf => Nat.lt_of_lt_of_le (h.below f hf) hnext
    borderNext := hborder }

/-- The frames are renumbered. -/
theorem Rolled.map (h : Rolled step cap keys frames dropped behind next taken)
    {keys' : List String} {g : Frame → Frame} (hstart : ∀ f, (g f).start = f.start)
    (hvalue : ∀ f ∈ frames ++ behind, (g f).value keys' = f.value keys) :
    Rolled step cap keys' (frames.map g) dropped (behind.map g) next taken := by
  obtain ⟨since, hnone, hfull, hsums⟩ := h.sums
  have hstarts : (frames.map g).map Frame.start = frames.map Frame.start := by
    rw [List.map_map]
    exact List.map_congr_left fun f _ => hstart f
  refine ⟨?_, ?_, ?_, h.borderNext, ?_, since, hnone, ?_, ?_⟩
  · intro f hf
    obtain ⟨f', hf', rfl⟩ := List.mem_map.mp hf
    rw [hstart]
    exact h.border f' hf'
  · rw [hstarts]
    exact h.increasing
  · intro f hf
    obtain ⟨f', hf', rfl⟩ := List.mem_map.mp hf
    rw [hstart]
    exact h.below f' hf'
  · rw [List.length_map]
    exact h.short
  · intro hdropped
    obtain ⟨hlen, hsince⟩ := hfull hdropped
    refine ⟨by rw [List.length_map, hlen], ?_⟩
    intro f hf
    obtain ⟨f', hf', rfl⟩ := List.mem_map.mp hf
    rw [hstart]
    exact hsince f' hf'
  · intro a b ha hb hsince
    rw [← List.map_append, ← hsums a b ha hb hsince]
    exact windowSum_map (fun f _ => hstart f) hvalue

/-- The first frame held back is completed. -/
theorem Rolled.push {l : Level} {f : Frame}
    (h : Rolled step cap keys l.frames l.dropped (f :: behind) next taken) (hcap : 0 < cap)
    (hborder : step ∣ f.start) (hlast : ∀ g ∈ l.frames, g.start < f.start) {next' : Nat}
    (hnext : f.start < next') (hborder' : step ∣ next') :
    Rolled step cap keys (l.push cap f).frames (l.push cap f).dropped behind next' taken := by
  obtain ⟨since, hnone, hfull, hsums⟩ := h.sums
  have hborders : ∀ g ∈ l.frames ++ [f], step ∣ g.start := by
    intro g hg
    rcases List.mem_append.mp hg with hg | hg
    · exact h.border g hg
    · rw [List.mem_singleton.mp hg]
      exact hborder
  have hbelow : ∀ g ∈ l.frames ++ [f], g.start < next' := by
    intro g hg
    rcases List.mem_append.mp hg with hg | hg
    · exact Nat.lt_trans (hlast g hg) hnext
    · rw [List.mem_singleton.mp hg]
      exact hnext
  have hincreasing : ((l.frames ++ [f]).map Frame.start).Pairwise (· < ·) := by
    rw [List.map_append, List.pairwise_append]
    refine ⟨h.increasing, List.pairwise_singleton _ _, ?_⟩
    intro s hs s' hs'
    obtain ⟨g, hg, rfl⟩ := List.mem_map.mp hs
    rw [List.map_singleton, List.mem_singleton] at hs'
    rw [hs']
    exact hlast g hg
  unfold Level.push
  by_cases hroom : cap ≤ l.frames.length
  · -- the oldest frame makes room, and the sums hold from behind it on
    have hlen : l.frames.length = cap := Nat.le_antisymm h.short hroom
    rw [if_pos hroom, hlen, Nat.sub_self, Nat.zero_add]
    cases hframes : l.frames with
    | nil =>
      rw [hframes, List.length_nil] at hlen
      omega
    | cons first rest =>
      rw [hframes] at hborders hbelow hincreasing hsums hfull hlen
      rw [List.cons_append, List.map_cons, List.pairwise_cons] at hincreasing
      have hsublist : ∀ g ∈ rest ++ [f], g ∈ first :: rest ++ [f] :=
        fun g hg => List.mem_cons_of_mem first hg
      refine ⟨fun g hg => hborders g (hsublist g hg), hincreasing.2,
        fun g hg => hbelow g (hsublist g hg), hborder', ?_, first.start + 1, ?_, ?_, ?_⟩
      · rw [List.length_cons] at hlen
        simp only [List.drop_succ_cons, List.drop_zero, List.length_append, List.length_singleton]
        omega
      · intro hzero
        exact absurd hzero (Nat.succ_ne_zero _)
      · intro _
        rw [List.length_cons] at hlen
        refine ⟨by simpa using hlen, ?_⟩
        intro g hg
        exact hincreasing.1 g.start (List.mem_map_of_mem hg)
      · intro a b ha hb hsince
        have hold : since ≤ a := by
          by_cases hdropped : l.dropped = 0
          · rw [hnone hdropped]
            exact Nat.zero_le a
          · have := (hfull hdropped).2 first List.mem_cons_self
            omega
        have hout : ¬ (a ≤ first.start ∧ first.start < b) := by omega
        have hsum := hsums a b ha hb hold
        rw [List.cons_append, windowSum_cons, if_neg hout, zero_add, List.append_cons] at hsum
        exact hsum
  · rw [if_neg hroom]
    refine ⟨hborders, hincreasing, hbelow, hborder', ?_, since, hnone, ?_, ?_⟩
    · simp only [List.length_append, List.length_singleton]
      omega
    · intro hdropped
      have := (hfull hdropped).1
      omega
    · intro a b ha hb hsince
      have hsum := hsums a b ha hb hsince
      rw [List.append_cons] at hsum
      exact hsum

/-! ### A frame is added to a level

Either the pending frame takes the new one in, or it is completed and pushed first; in both cases
the sum over whole intervals is what it was with the new frame added. -/

def Level.head (l : Level) : Nat := (l.pending.map Frame.start).getD 0

/-- The pending frame takes the frame in, or is completed first. -/
theorem Level.add_cases (step cap : Nat) (l : Level) (f : Frame) :
    (l.pending = none ∧ l.add step cap f =
      ({ l with pending := some ((Frame.empty (floorTo step f.start)).merge f) }, none)) ∨
    (∃ p, l.pending = some p ∧ p.start = floorTo step f.start ∧ l.add step cap f =
      ({ l with pending := some (p.merge f) }, none)) ∨
    (∃ p, l.pending = some p ∧ l.add step cap f =
      ({ l.push cap p with pending := some ((Frame.empty (floorTo step f.start)).merge f) },
        some p) ∧ p.start ≠ floorTo step f.start) := by
  unfold Level.add Level.complete
  cases hp : l.pending with
  | none => exact Or.inl ⟨rfl, by simp [hp]⟩
  | some p =>
    right
    by_cases hstart : p.start = floorTo step f.start
    · left
      exact ⟨p, rfl, hstart, by simp [hstart, hp]⟩
    · right
      exact ⟨p, rfl, by simp [hstart], hstart⟩

theorem Level.head_add (step cap : Nat) (l : Level) (f : Frame) :
    (l.add step cap f).1.head = floorTo step f.start := by
  rcases l.add_cases step cap f with ⟨-, heq⟩ | ⟨p, -, hstart, heq⟩ | ⟨p, -, heq, -⟩
  · rw [heq]
    rfl
  · rw [heq]
    exact hstart
  · rw [heq]
    rfl

/-- Filed under the beginning of its interval, alone or in a frame of that interval, a frame counts
for what it is. -/
theorem windowSum_merge {a b : Nat} (ha : step ∣ a) (hb : step ∣ b) {p f : Frame}
    (hstart : p.start = floorTo step f.start) :
    windowSum Frame.start (Frame.value keys) a b [p.merge f] =
      windowSum Frame.start (Frame.value keys) a b [p] +
        windowSum Frame.start (Frame.value keys) a b [f] := by
  rw [windowSum_floorTo ha hb (x := p.merge f) hstart, windowSum_floorTo ha hb (x := p) hstart,
    windowSum_singleton]
  split_ifs
  · exact Frame.value_merge p f
  · exact (add_zero 0).symm

theorem windowSum_merge_empty {a b : Nat} (ha : step ∣ a) (hb : step ∣ b) (f : Frame) :
    windowSum Frame.start (Frame.value keys) a b [(Frame.empty (floorTo step f.start)).merge f] =
      windowSum Frame.start (Frame.value keys) a b [f] := by
  rw [windowSum_merge ha hb rfl, windowSum_singleton, Frame.value_empty, ite_self, zero_add]

/-- What was pending and the frame are what is completed and what is pending then. -/
theorem Level.windowSum_add {a b : Nat} (ha : step ∣ a) (hb : step ∣ b) (l : Level) (f : Frame) :
    windowSum Frame.start (Frame.value keys) a b
        ((l.add step cap f).2.toList ++ (l.add step cap f).1.pending.toList) =
      windowSum Frame.start (Frame.value keys) a b (l.pending.toList ++ [f]) := by
  rcases l.add_cases step cap f with ⟨hp, heq⟩ | ⟨p, hp, hstart, heq⟩ | ⟨p, hp, heq, -⟩
  · rw [heq, hp]
    exact windowSum_merge_empty ha hb f
  · rw [heq, hp]
    show windowSum Frame.start _ a b [p.merge f] = windowSum Frame.start _ a b ([p] ++ [f])
    rw [windowSum_merge ha hb hstart, windowSum_append]
  · rw [heq, hp]
    show windowSum Frame.start _ a b ([p] ++ [_]) = windowSum Frame.start _ a b ([p] ++ [f])
    rw [windowSum_append, windowSum_append, windowSum_merge_empty ha hb]

/-- A frame that was held back is added to the level. -/
theorem Rolled.add {l : Level} {f : Frame}
    (h : Rolled step cap keys l.frames l.dropped (l.pending.toList ++ f :: behind) l.head taken)
    (hcap : 0 < cap) (hle : l.head ≤ f.start) :
    Rolled step cap keys (l.add step cap f).1.frames (l.add step cap f).1.dropped
      ((l.add step cap f).1.pending.toList ++ behind) (l.add step cap f).1.head taken := by
  have hhead : l.head ≤ floorTo step f.start := (le_floorTo_iff h.borderNext).mpr hle
  rw [Level.head_add]
  rcases l.add_cases step cap f with ⟨hp, heq⟩ | ⟨p, hp, hstart, heq⟩ | ⟨p, hp, heq, hne⟩
  · rw [heq]
    rw [hp] at h
    refine (h.resum fun a b ha hb => ?_).later hhead (dvd_floorTo step f.start)
    show windowSum Frame.start _ a b ([_] ++ behind) = windowSum Frame.start _ a b ([f] ++ behind)
    rw [windowSum_append, windowSum_append, windowSum_merge_empty ha hb]
  · rw [heq]
    rw [hp] at h
    refine (h.resum fun a b ha hb => ?_).later hhead (dvd_floorTo step f.start)
    show windowSum Frame.start _ a b ([p.merge f] ++ behind) =
      windowSum Frame.start _ a b ([p] ++ ([f] ++ behind))
    rw [windowSum_append, windowSum_append, windowSum_append, windowSum_merge ha hb hstart,
      add_assoc]
  · rw [heq]
    have hhead' : l.head = p.start := by
      unfold Level.head
      rw [hp]
      rfl
    have hborder : step ∣ p.start := hhead' ▸ h.borderNext
    have hlast : ∀ g ∈ l.frames, g.start < p.start := hhead' ▸ h.below
    have hlater : p.start < floorTo step f.start := Nat.lt_of_le_of_ne (hhead' ▸ hhead) hne
    rw [hp] at h
    have hpushed := h.push hcap hborder hlast hlater (dvd_floorTo step f.start)
    refine hpushed.resum fun a b ha hb => ?_
    show windowSum Frame.start _ a b ([_] ++ behind) = windowSum Frame.start _ a b ([f] ++ behind)
    rw [windowSum_append, windowSum_append, windowSum_merge_empty ha hb]

/-! ### The whole history

Storing a frame goes through the three levels, each with what the level below has completed, so the
proof goes level by level (`store0`, `store1`, `store2`). -/

/-- What holds after every sample. -/
structure Inv (w : World) : Prop where
  table : TableOk w.stats.dims w.stats.dimIDs
  numbered : ∀ f ∈ w.stats.eachFrame, f.Numbered w.stats.dims
  border : ∀ x ∈ w.taken, sampleStep ∣ x.start
  level0 : Rolled 10 360 w.stats.dims w.stats.level0.frames w.stats.level0.dropped
    w.stats.level0.pending.toList w.stats.lastSample w.taken
  noPending : w.stats.level0.pending = none
  level1 : Rolled 300 288 w.stats.dims w.stats.level1.frames w.stats.level1.dropped
    w.stats.level1.pending.toList w.stats.level1.head w.taken
  level2 : Rolled 3600 168 w.stats.dims w.stats.level2.frames w.stats.level2.dropped
    (w.stats.level2.pending.toList ++ w.stats.level1.pending.toList) w.stats.level2.head w.taken
  head1 : w.stats.level1.head ≤ w.stats.lastSample
  head2 : w.stats.level2.head ≤ w.stats.level1.head

theorem Inv.init : Inv ⟨Stats.new, []⟩ where
  table := TableOk.nil
  numbered := nofun
  border := nofun
  level0 := Rolled.init (Nat.dvd_zero _)
  noPending := rfl
  level1 := Rolled.init (Nat.dvd_zero _)
  level2 := Rolled.init (Nat.dvd_zero _)
  head1 := Nat.le_refl _
  head2 := Nat.le_refl _

theorem Stats.mem_eachFrame {t : Stats} {f : Frame} : f ∈ t.eachFrame ↔
    f ∈ t.level0.frames ++ t.level0.pending.toList ∨
      f ∈ t.level1.frames ++ t.level1.pending.toList ∨
      f ∈ t.level2.frames ++ t.level2.pending.toList := by
  simp only [Stats.eachFrame, List.flatMap_cons, List.flatMap_nil, List.append_nil, List.mem_append]

@[simp]
theorem Level.head_map {g : Frame → Frame} (hstart : ∀ f, (g f).start = f.start) (l : Level) :
    (l.map g).head = l.head := by
  cases hp : l.pending with
  | none => simp [Level.head, Level.map, hp]
  | some p => simp [Level.head, Level.map, hp, hstart]

@[simp]
theorem Level.frames_map (g : Frame → Frame) (l : Level) :
    (l.map g).frames = l.frames.map g := rfl

@[simp]
theorem Level.toList_map (g : Frame → Frame) (l : Level) :
    (l.map g).pending.toList = l.pending.toList.map g := by
  cases hp : l.pending with
  | none => simp [Level.map, hp]
  | some p => simp [Level.map, hp]

/-- The frames are renumbered after another table. -/
theorem Inv.map {w : World} (h : Inv w) {t : Stats} {g : Frame → Frame}
    (hstart : ∀ f, (g f).start = f.start) (htable : TableOk t.dims t.dimIDs)
    (hvalue : ∀ f ∈ w.stats.eachFrame, (g f).value t.dims = f.value w.stats.dims)
    (hnumbered : ∀ f ∈ w.stats.eachFrame, (g f).Numbered t.dims)
    (h0 : t.level0 = w.stats.level0.map g) (h1 : t.level1 = w.stats.level1.map g)
    (h2 : t.level2 = w.stats.level2.map g) (hlast : t.lastSample = w.stats.lastSample) :
    Inv ⟨t, w.taken⟩ := by
  have hvalue0 := fun f hf => hvalue f (Stats.mem_eachFrame.mpr (Or.inl hf))
  have hvalue1 := fun f hf => hvalue f (Stats.mem_eachFrame.mpr (Or.inr (Or.inl hf)))
  have hvalue2 := fun f hf => hvalue f (Stats.mem_eachFrame.mpr (Or.inr (Or.inr hf)))
  have hvalue21 : ∀ f ∈ w.stats.level2.frames ++
      (w.stats.level2.pending.toList ++ w.stats.level1.pending.toList),
      (g f).value t.dims = f.value w.stats.dims := by
    intro f hf
    rw [← List.append_assoc] at hf
    rcases List.mem_append.mp hf with hf | hf
    · exact hvalue2 f hf
    · exact hvalue1 f (List.mem_append_right _ hf)
  refine ⟨htable, ?_, h.border, ?_, ?_, ?_, ?_, ?_, ?_⟩
  · intro f hf
    have hall : t.eachFrame = w.stats.eachFrame.map g := by
      simp [Stats.eachFrame, h0, h1, h2]
    rw [hall] at hf
    obtain ⟨f', hf', rfl⟩ := List.mem_map.mp hf
    exact hnumbered f' hf'
  · rw [h0, hlast, Level.toList_map]
    exact h.level0.map hstart hvalue0
  · rw [h0]
    simp [Level.map, h.noPending]
  · rw [h1, Level.head_map hstart, Level.toList_map]
    exact h.level1.map hstart hvalue1
  · rw [h2, h1, Level.head_map hstart, Level.toList_map, Level.toList_map, ← List.map_append]
    exact h.level2.map hstart hvalue21
  · rw [h1, Level.head_map hstart, hlast]
    exact h.head1
  · rw [h1, h2, Level.head_map hstart, Level.head_map hstart]
    exact h.head2

theorem Inv.compactDims {w : World} (h : Inv w) : Inv ⟨w.stats.compactDims, w.taken⟩ := by
  rw [Stats.compactDims_eq]
  refine h.map (g := Frame.renumber w.stats.compacted.remap) (fun _ => rfl)
    w.stats.table_compacted ?_ ?_ rfl rfl rfl rfl
  · intro f hf
    exact Frame.value_renumber fun d hd => Stats.keeps_compacted hf (h.numbered f hf) hd
  · intro f hf
    exact Stats.numbered_compacted hf (h.numbered f hf)

theorem Level.map_id (l : Level) : l.map id = l := by
  simp [Level.map]

/-- Keys were added to the table. -/
theorem Inv.grown {w : World} (h : Inv w) {t : Stats} (hgrown : Grown w.stats t) :
    Inv ⟨t, w.taken⟩ := by
  obtain ⟨more, hmore⟩ := hgrown.keys
  refine h.map (g := id) (fun _ => rfl) hgrown.table ?_ ?_ ?_ ?_ ?_ hgrown.last
  · intro f hf
    rw [hmore]
    exact Frame.value_append (h.numbered f hf) more
  · intro f hf
    rw [hmore]
    exact (h.numbered f hf).append more
  · rw [hgrown.level0, Level.map_id]
  · rw [hgrown.level1, Level.map_id]
  · rw [hgrown.level2, Level.map_id]

@[simp]
theorem Level.pending_push (l : Level) (f : Frame) : (l.push cap f).pending = l.pending := by
  unfold Level.push
  split <;> rfl

theorem mem_push {l : Level} {f g : Frame} (h : g ∈ (l.push cap f).frames) :
    g ∈ l.frames ∨ g = f := by
  unfold Level.push at h
  split_ifs at h
  · rcases List.mem_append.mp h with h | h
    · exact Or.inl (List.mem_of_mem_drop h)
    · exact Or.inr (List.mem_singleton.mp h)
  · rcases List.mem_append.mp h with h | h
    · exact Or.inl h
    · exact Or.inr (List.mem_singleton.mp h)

/-! ### The frames of a level

What holds of the frames that come in holds of the frames that are kept: they are numbered in
the table, and begin where the level's intervals begin. -/

def Level.All (P : Frame → Prop) (l : Level) : Prop := ∀ f ∈ l.frames ++ l.pending.toList, P f

section All

variable {P : Frame → Prop} {l : Level} {f : Frame}

theorem Level.All.push (h : l.All P) (hf : P f) : (l.push cap f).All P := by
  intro g hg
  rw [Level.pending_push] at hg
  rcases List.mem_append.mp hg with hg | hg
  · rcases mem_push hg with hg | rfl
    · exact h g (List.mem_append_left _ hg)
    · exact hf
  · exact h g (List.mem_append_right _ hg)

/-- The pending frame is replaced. -/
theorem Level.All.hold (h : l.All P) (hf : P f) : ({ l with pending := some f } : Level).All P := by
  intro g hg
  rcases List.mem_append.mp hg with hg | hg
  · exact h g (List.mem_append_left _ hg)
  · rw [List.mem_singleton.mp hg]
    exact hf

theorem Level.All.pending (h : l.All P) {p : Frame} (hp : l.pending = some p) : P p :=
  h p (List.mem_append_right _ (by rw [hp]; exact List.mem_singleton_self p))

/-- A frame is merged into the pending one, or begins a new one. -/
theorem Level.All.add (h : l.All P) (hmerge : ∀ p, P p → P (p.merge f))
    (hnew : P ((Frame.empty (floorTo step f.start)).merge f)) : (l.add step cap f).1.All P := by
  rcases l.add_cases step cap f with ⟨-, heq⟩ | ⟨p, hp, -, heq⟩ | ⟨p, hp, heq, -⟩
  · rw [heq]
    exact h.hold hnew
  · rw [heq]
    exact h.hold (hmerge p (h.pending hp))
  · rw [heq]
    exact (h.push (h.pending hp)).hold hnew

theorem Level.All.map {Q : Frame → Prop} {g : Frame → Frame}
    (h : ∀ f ∈ l.frames ++ l.pending.toList, Q (g f)) : (l.map g).All Q := by
  intro f hf
  rw [Level.frames_map, Level.toList_map, ← List.map_append] at hf
  obtain ⟨f', hf', rfl⟩ := List.mem_map.mp hf
  exact h f' hf'

end All

/-- Every frame of the level is numbered in the table. -/
def Level.Numbered (keys : List String) (l : Level) : Prop :=
  ∀ f ∈ l.frames ++ l.pending.toList, f.Numbered keys

theorem Level.Numbered.push {l : Level} (h : l.Numbered keys) {f : Frame} (hf : f.Numbered keys) :
    ∀ g ∈ (l.push cap f).frames, g.Numbered keys := fun g hg =>
  Level.All.push h hf g (List.mem_append_left _ hg)

theorem Level.Numbered.add {l : Level} (h : l.Numbered keys) {f : Frame} (hf : f.Numbered keys) :
    (l.add step cap f).1.Numbered keys :=
  Level.All.add h (fun _ hp => hp.merge hf) (Frame.Numbered.merge nofun hf)

/-- The start of what a level completes is that of its pending frame. -/
theorem Level.start_of_add {l : Level} {f done : Frame} (h : (l.add step cap f).2 = some done) :
    done.start = l.head ∧ l.pending = some done := by
  rcases l.add_cases step cap f with ⟨hp, heq⟩ | ⟨p, hp, hstart, heq⟩ | ⟨p, hp, heq, hne⟩
  · rw [heq] at h
    cases h
  · rw [heq] at h
    cases h
  · rw [heq, Option.some.injEq] at h
    subst h
    exact ⟨by simp [Level.head, hp], hp⟩

section Store

variable {w : World} {f : Frame}

def Frame.sample (keys : List String) (f : Frame) : Sample := ⟨f.start, f.value keys⟩

theorem windowSum_sample (a b : Nat) : windowSum Frame.start (Frame.value keys) a b [f] =
    windowSum Sample.start Sample.value a b [f.sample keys] := by
  rw [windowSum_singleton, windowSum_singleton]
  rfl

/-! ### The three levels

A sample goes into the finest level, and what a level completes goes into the next one. -/

theorem Inv.store0 (h : Inv w) (hborder : sampleStep ∣ f.start)
    (hlater : w.stats.lastSample ≤ f.start) :
    Rolled 10 360 w.stats.dims (w.stats.level0.push 360 f).frames
      (w.stats.level0.push 360 f).dropped [] (f.start + sampleStep)
      (w.taken ++ [f.sample w.stats.dims]) := by
  have hmore := h.level0.more [f] fun a b _ _ => by
    rw [h.noPending, windowSum_sample, Option.toList_none, windowSum_nil, zero_add]
  refine hmore.push (by decide) hborder ?_ (Nat.lt_add_of_pos_right (by decide)) ?_
  · intro g hg
    exact Nat.lt_of_lt_of_le (h.level0.below g hg) hlater
  · exact Nat.dvd_add hborder (Nat.dvd_refl _)

theorem Inv.store1 (h : Inv w) (hlater : w.stats.lastSample ≤ f.start) :
    Rolled 300 288 w.stats.dims (w.stats.level1.add 300 288 f).1.frames
      (w.stats.level1.add 300 288 f).1.dropped (w.stats.level1.add 300 288 f).1.pending.toList
      (w.stats.level1.add 300 288 f).1.head (w.taken ++ [f.sample w.stats.dims]) := by
  have hmore := h.level1.more (w.stats.level1.pending.toList ++ [f]) fun a b _ _ => by
    rw [windowSum_append, windowSum_sample]
  have hadd := hmore.add (by decide) (Nat.le_trans h.head1 hlater)
  rw [List.append_nil] at hadd
  exact hadd

/-- What the hourly level becomes when the level below it takes a frame. -/
def nextLevel2 (t : Stats) (f : Frame) : Level :=
  match (t.level1.add 300 288 f).2 with
  | some done => (t.level2.add 3600 168 done).1
  | none => t.level2

theorem Inv.store2 (h : Inv w) :
    Rolled 3600 168 w.stats.dims (nextLevel2 w.stats f).frames (nextLevel2 w.stats f).dropped
      ((nextLevel2 w.stats f).pending.toList ++ (w.stats.level1.add 300 288 f).1.pending.toList)
      (nextLevel2 w.stats f).head (w.taken ++ [f.sample w.stats.dims]) := by
  -- the sample is held back behind the hourly level first, with what it completes
  have hmore := h.level2.more (w.stats.level2.pending.toList ++
      ((w.stats.level1.add 300 288 f).2.toList ++
        (w.stats.level1.add 300 288 f).1.pending.toList)) fun a b ha hb => by
    have ha' : 300 ∣ a := Nat.dvd_trans (by decide) ha
    have hb' : 300 ∣ b := Nat.dvd_trans (by decide) hb
    rw [windowSum_append, Level.windowSum_add ha' hb', windowSum_append, windowSum_append,
      windowSum_sample, add_assoc]
  unfold nextLevel2
  cases hdone : (w.stats.level1.add 300 288 f).2 with
  | none =>
    rw [hdone] at hmore
    exact hmore
  | some done =>
    rw [hdone] at hmore
    refine hmore.add (by decide) ?_
    rw [(Level.start_of_add hdone).1]
    exact h.head2

theorem Inv.head_store2 (h : Inv w) (hlater : w.stats.lastSample ≤ f.start) :
    (nextLevel2 w.stats f).head ≤ (w.stats.level1.add 300 288 f).1.head := by
  have hhead : w.stats.level1.head ≤ (w.stats.level1.add 300 288 f).1.head := by
    rw [Level.head_add]
    exact (le_floorTo_iff h.level1.borderNext).mpr (Nat.le_trans h.head1 hlater)
  unfold nextLevel2
  cases hdone : (w.stats.level1.add 300 288 f).2 with
  | none => exact Nat.le_trans h.head2 hhead
  | some done =>
    rw [Level.head_add]
    have hstart := (Level.start_of_add hdone).1
    exact Nat.le_trans (floorTo_le 3600 done.start) (hstart ▸ hhead)

theorem Inv.numbered_store (h : Inv w) (hf : f.Numbered w.stats.dims) (prev : Snapshot)
    (last : Nat) :
    ∀ g ∈ (Stats.store { w.stats with prev := prev, lastSample := last } f).eachFrame,
      g.Numbered w.stats.dims := by
  have h0 : w.stats.level0.Numbered w.stats.dims :=
    fun g hg => h.numbered g (Stats.mem_eachFrame.mpr (Or.inl hg))
  have h1 : w.stats.level1.Numbered w.stats.dims :=
    fun g hg => h.numbered g (Stats.mem_eachFrame.mpr (Or.inr (Or.inl hg)))
  have h2 : w.stats.level2.Numbered w.stats.dims :=
    fun g hg => h.numbered g (Stats.mem_eachFrame.mpr (Or.inr (Or.inr hg)))
  have hnext2 : (nextLevel2 w.stats f).Numbered w.stats.dims := by
    unfold nextLevel2
    cases hdone : (w.stats.level1.add 300 288 f).2 with
    | none => exact h2
    | some done =>
      refine h2.add (h1 done (List.mem_append_right _ ?_))
      rw [(Level.start_of_add hdone).2]
      exact List.mem_singleton_self done
  intro g hg
  rcases Stats.mem_eachFrame.mp hg with hg | hg | hg
  · rcases List.mem_append.mp hg with hg | hg
    · exact h0.push hf g hg
    · rw [Stats.store, Level.pending_push, h.noPending] at hg
      cases hg
  · exact h1.add hf g hg
  · exact hnext2 g hg

/-- The frame of a sample is stored and rolled up. -/
theorem Inv.store (h : Inv w) (hborder : sampleStep ∣ f.start)
    (hlater : w.stats.lastSample ≤ f.start) (hf : f.Numbered w.stats.dims) (prev : Snapshot) :
    Inv ⟨Stats.store { w.stats with prev := prev, lastSample := f.start + sampleStep } f,
      w.taken ++ [f.sample w.stats.dims]⟩ where
  table := h.table
  numbered := h.numbered_store hf prev _
  border := by
    intro x hx
    rcases List.mem_append.mp hx with hx | hx
    · exact h.border x hx
    · rw [List.mem_singleton.mp hx]
      exact hborder
  level0 := by
    have hpending : (w.stats.level0.push 360 f).pending.toList = [] := by
      rw [Level.pending_push, h.noPending, Option.toList_none]
    have hstored := h.store0 hborder hlater
    rw [← hpending] at hstored
    exact hstored
  noPending := (Level.pending_push _ f).trans h.noPending
  level1 := h.store1 hlater
  level2 := h.store2
  head1 := by
    refine Nat.le_trans ?_ (Nat.le_add_right f.start sampleStep)
    show (w.stats.level1.add 300 288 f).1.head ≤ f.start
    rw [Level.head_add]
    exact floorTo_le 300 f.start
  head2 := h.head_store2 hlater

end Store

theorem Inv.makeRoom {w : World} (h : Inv w) (maxTrafficDims : Nat) (cur : Snapshot) :
    Inv ⟨w.stats.makeRoom maxTrafficDims cur, w.taken⟩ := by
  unfold Stats.makeRoom
  simp only
  split
  · exact h.compactDims
  · exact h

theorem lastSample_makeRoom (maxTrafficDims : Nat) (t : Stats) (cur : Snapshot) :
    (t.makeRoom maxTrafficDims cur).lastSample = t.lastSample := by
  unfold Stats.makeRoom
  simp only
  split
  · rfl
  · rfl

theorem Inv.sample {w : World} (h : Inv w) (maxTrafficDims : Nat) {x : Reading}
    (hlater : w.stats.lastSample ≤ sampleStep * x.boundary) :
    Inv (w.sample maxTrafficDims x) := by
  have hroom := h.makeRoom maxTrafficDims x.cur
  obtain ⟨hgrown, hnumbered, hstart⟩ :=
    differs_diff hroom.table maxTrafficDims x.cur (sampleStep * x.boundary) x.secs
  have hlast := hgrown.last.trans (lastSample_makeRoom maxTrafficDims w.stats x.cur)
  have hstored := (hroom.grown hgrown).store (by rw [hstart]; exact Nat.dvd_mul_right _ _)
    (by rw [hlast, hstart]; exact hlater) hnumbered x.cur
  rw [hstart] at hstored
  exact hstored

theorem lastSample_sample (maxTrafficDims : Nat) (w : World) (x : Reading) :
    (w.sample maxTrafficDims x).stats.lastSample = sampleStep * (x.boundary + 1) := rfl

def Increasing (xs : List Reading) : Prop := xs.Pairwise fun x y => x.boundary < y.boundary

theorem inv_run (maxTrafficDims : Nat) {xs : List Reading} (hincreasing : Increasing xs) :
    Inv (run maxTrafficDims xs) := by
  have hrun : ∀ w : World, Inv w → (∀ x ∈ xs, w.stats.lastSample ≤ sampleStep * x.boundary) →
      Inv (xs.foldl (World.sample maxTrafficDims) w) := by
    induction xs with
    | nil => exact fun w h _ => h
    | cons x xs ih =>
      intro w h hlater
      have hcons := List.pairwise_cons.mp hincreasing
      refine ih hcons.2 _ (h.sample maxTrafficDims (hlater x List.mem_cons_self)) ?_
      intro y hy
      rw [lastSample_sample]
      exact Nat.mul_le_mul_left _ (hcons.1 y hy)
  exact hrun _ Inv.init fun x _ => Nat.zero_le _

/-! ### Reports

A report covers whole intervals of its level.  Each frame of the window finds one slot, and the
total adds the slots up. -/

def slotsValue (keys : List String) (slots : List (Option Frame)) : Measure → UInt64 :=
  (slots.map fun slot => (slot.map (Frame.value keys)).getD 0).sum

theorem slotsValue_modify {slots : List (Option Frame)} {i : Nat} (hi : i < slots.length)
    (f : Frame) :
    slotsValue keys (slots.modify i fun slot => some ((slot.getD (Frame.empty 0)).merge f)) =
      slotsValue keys slots + f.value keys := by
  induction slots generalizing i with
  | nil => exact absurd hi (Nat.not_lt_zero i)
  | cons slot slots ih =>
    cases i with
    | zero =>
      rw [List.modify_zero_cons]
      cases slot with
      | none =>
        simp only [slotsValue, List.map_cons, List.sum_cons, Option.map_some, Option.map_none,
          Option.getD_some, Option.getD_none, Frame.value_merge, Frame.value_empty, zero_add]
        exact add_comm _ _
      | some g =>
        simp only [slotsValue, List.map_cons, List.sum_cons, Option.map_some, Option.getD_some,
          Frame.value_merge]
        exact add_right_comm _ _ _
    | succ i =>
      have hrest := ih (Nat.lt_of_succ_lt_succ hi)
      simp only [slotsValue, List.modify_succ_cons, List.map_cons, List.sum_cons] at hrest ⊢
      rw [hrest, add_assoc]

section Places

variable {start : Int} {stop points : Nat} {slots : List (Option Frame)}

theorem length_place (f : Frame) : (place start stop step slots f).length = slots.length := by
  unfold place
  split
  · rfl
  · exact List.length_modify ..

/-- A frame of the window finds its slot. -/
theorem slotsValue_place (hstep : 0 < step) (hwindow : start + points * step = stop)
    (hslots : slots.length = points) (f : Frame) :
    slotsValue keys (place start stop step slots f) = slotsValue keys slots +
      windowSum Frame.start (Frame.value keys) start.toNat stop [f] := by
  unfold place
  rw [windowSum_singleton]
  by_cases hout : (f.start : Int) < start ∨ stop ≤ f.start
  · have hmem : ¬ (start.toNat ≤ f.start ∧ f.start < stop) := by omega
    rw [if_pos hout, if_neg hmem, add_zero]
  · have hmem : start.toNat ≤ f.start ∧ f.start < stop := by omega
    rw [if_neg hout, if_pos hmem]
    refine slotsValue_modify ?_ f
    rw [hslots]
    have hlt : ((f.start : Int) - start) / step < points := by
      refine Int.ediv_lt_of_lt_mul (by omega) ?_
      omega
    have hnonneg : 0 ≤ ((f.start : Int) - start) / step := Int.ediv_nonneg (by omega) (by omega)
    omega

theorem slotsValue_foldl (hstep : 0 < step) (hwindow : start + points * step = stop)
    (hslots : slots.length = points) (fs : List Frame) :
    slotsValue keys (fs.foldl (place start stop step) slots) = slotsValue keys slots +
      windowSum Frame.start (Frame.value keys) start.toNat stop fs := by
  induction fs generalizing slots with
  | nil => exact (add_zero _).symm
  | cons f fs ih =>
    rw [List.foldl_cons, ih ((length_place f).trans hslots), slotsValue_place hstep hwindow hslots,
      add_assoc, ← windowSum_append, List.singleton_append]

theorem slotsValue_replicate (n : Nat) : slotsValue keys (List.replicate n none) = 0 := by
  induction n with
  | zero => rfl
  | succ n ih =>
    rw [List.replicate_succ]
    exact (zero_add _).trans ih

/-- The total of a report adds its slots up. -/
theorem value_foldl_merge (total : Frame) (slots : List (Option Frame)) :
    ((slots.filterMap id).foldl Frame.merge total).value keys =
      total.value keys + slotsValue keys slots := by
  induction slots generalizing total with
  | nil => exact (add_zero _).symm
  | cons slot slots ih =>
    cases slot with
    | none =>
      rw [List.filterMap_cons_none rfl, ih]
      exact congrArg _ (zero_add _).symm
    | some f =>
      show ((slots.filterMap id).foldl Frame.merge (total.merge f)).value keys =
        total.value keys + (f.value keys + slotsValue keys slots)
      rw [ih, Frame.value_merge, add_assoc]

end Places

/-- A window is whole when the level dropped nothing, or reaches back to its beginning. -/
theorem Rolled.window (h : Rolled step cap keys frames dropped behind next taken) (hcap : 0 < cap)
    {a b : Nat} (ha : step ∣ a) (hb : step ∣ b) (hreach : dropped = 0 ∨ next ≤ a + cap * step) :
    windowSum Frame.start (Frame.value keys) a b (frames ++ behind) =
      windowSum Sample.start Sample.value a b taken := by
  obtain ⟨since, hnone, hfull, hsums⟩ := h.sums
  refine hsums a b ha hb ?_
  by_cases hdropped : dropped = 0
  · rw [hnone hdropped]
    exact Nat.zero_le a
  · obtain ⟨hlen, hsince⟩ := hfull hdropped
    obtain ⟨f, hf⟩ := List.exists_mem_of_length_pos (hlen ▸ hcap)
    have hle : since ≤ next := Nat.le_of_lt (Nat.lt_of_le_of_lt (hsince f hf) (h.below f hf))
    have hspread := length_mul_le h.increasing (List.forall_mem_map.mpr h.border)
      (List.forall_mem_map.mpr hsince) (List.forall_mem_map.mpr h.below) h.borderNext hle
    rw [List.length_map, hlen] at hspread
    have hnext := hreach.resolve_left hdropped
    omega

/-- The sums of a level that dropped nothing. -/
theorem Rolled.sum_eq (h : Rolled step cap keys frames 0 behind next taken) (hstep : 0 < step)
    (hcap : 0 < cap) : ((frames ++ behind).map (Frame.value keys)).sum =
      (taken.map Sample.value).sum := by
  obtain ⟨b, hb, hlt⟩ := exists_border hstep
    ((frames ++ behind).map Frame.start ++ taken.map Sample.start)
  have hframes : ∀ f ∈ frames ++ behind, f.start < b :=
    fun f hf => hlt _ (List.mem_append_left _ (List.mem_map_of_mem hf))
  have htaken : ∀ x ∈ taken, x.start < b :=
    fun x hx => hlt _ (List.mem_append_right _ (List.mem_map_of_mem hx))
  rw [← windowSum_eq_sum hframes, ← windowSum_eq_sum htaken]
  exact h.window hcap (Nat.dvd_zero step) hb (Or.inl rfl)

/-- The frames that a report places are those of a level with what is held back. -/
theorem Inv.placed {w : World} (h : Inv w) (i : Fin 3) : ∃ next ≤ w.stats.lastSample,
    Rolled (historyLevels i).1 (historyLevels i).2 w.stats.dims (w.stats.level i).frames
      (w.stats.level i).dropped ((w.stats.level i).pending.toList ++ w.stats.heldBack i) next
      w.taken := by
  match i with
  | 0 =>
    refine ⟨w.stats.lastSample, Nat.le_refl _, ?_⟩
    rw [show w.stats.heldBack 0 = [] from rfl, List.append_nil]
    exact h.level0
  | 1 =>
    refine ⟨w.stats.level1.head, h.head1, ?_⟩
    rw [show w.stats.heldBack 1 = [] from rfl, List.append_nil]
    exact h.level1
  | 2 => exact ⟨w.stats.level2.head, Nat.le_trans h.head2 h.head1, h.level2⟩

theorem historyLevels_pos (i : Fin 3) : 0 < (historyLevels i).1 ∧ 0 < (historyLevels i).2 := by
  match i with
  | 0 | 1 | 2 => decide

theorem sampleStep_dvd (i : Fin 3) : sampleStep ∣ (historyLevels i).1 := by
  match i with
  | 0 | 1 | 2 => decide

theorem points_le {rng : String} {i : Fin 3} {points : Nat}
    (h : trafficRanges rng = some (i, points)) : points ≤ (historyLevels i).2 := by
  unfold trafficRanges at h
  split at h
  all_goals cases h
  all_goals decide

theorem dvd_reportEnd {step : Nat} (hstep : 0 < step) (now : Nat) : step ∣ reportEnd step now := by
  unfold reportEnd
  simp only
  split_ifs with hborder
  · have hlt := Nat.mod_lt (now - now % sampleStep) hstep
    have hsum : now - now % sampleStep + (step - (now - now % sampleStep) % step) =
        step * ((now - now % sampleStep) / step + 1) := by
      have hdiv := Nat.div_add_mod (now - now % sampleStep) step
      rw [Nat.mul_add, Nat.mul_one]
      omega
    rw [hsum]
    exact Nat.dvd_mul_right _ _
  · exact Nat.dvd_of_mod_eq_zero (by simpa using hborder)

theorem le_reportEnd (step now : Nat) : floorTo sampleStep now ≤ reportEnd step now := by
  unfold reportEnd
  simp only
  split
  · exact Nat.le_add_right _ _
  · exact Nat.le_refl _

/-! ### The dimensions of a report

A report lists the share of a dimension under its id, and a frame has an id at most once. -/

theorem ids_addDim (dims : List DimFrame) (d : DimFrame) : (addDim dims d).map DimFrame.id =
    if d.id ∈ dims.map DimFrame.id then dims.map DimFrame.id
    else dims.map DimFrame.id ++ [d.id] := by
  induction dims with
  | nil => rfl
  | cons e dims ih =>
    rw [addDim]
    by_cases hid : e.id = d.id
    · simp [hid, DimFrame.add]
    · simp only [if_neg hid, List.map_cons, ih, List.mem_cons, Ne.symm hid, false_or]
      split
      · rfl
      · rfl

theorem nodup_foldl_addDim {dims : List DimFrame} (h : (dims.map DimFrame.id).Nodup)
    (more : List DimFrame) : ((more.foldl addDim dims).map DimFrame.id).Nodup := by
  induction more generalizing dims with
  | nil => exact h
  | cons d more ih =>
    refine ih ?_
    rw [ids_addDim]
    split_ifs with hmem
    · exact h
    · exact List.nodup_append.mpr ⟨h, List.nodup_singleton _, by
        intro a ha b hb
        rw [List.mem_singleton.mp hb]
        rintro rfl
        exact hmem ha⟩

theorem nodup_foldl_merge {total : Frame} (h : (total.dims.map DimFrame.id).Nodup)
    (fs : List Frame) : ((fs.foldl Frame.merge total).dims.map DimFrame.id).Nodup := by
  induction fs generalizing total with
  | nil => exact h
  | cons f fs ih => exact ih (nodup_foldl_addDim h f.dims)

/-- With distinct ids the share of a key is what stands under its id. -/
theorem dimsValue_eq_find {ids : GoMap String Nat} (htable : TableOk keys ids)
    {dims : List DimFrame} (hnodup : (dims.map DimFrame.id).Nodup) (key : String) (c : DimCounter) :
    (match ids.lookup key with
      | some id => ((dims.find? fun d => d.id == id).map fun d => d.counts c).getD 0
      | none => 0) = dimsValue keys key c dims := by
  cases hid : ids.lookup key with
  | none =>
    have hnone : ∀ d ∈ dims, ¬ decide (keys[d.id]? = some key) = true := by
      intro d _ hd
      rw [(htable key d.id).mpr (of_decide_eq_true hd)] at hid
      cases hid
    rw [dimsValue, List.filter_eq_nil_iff.mpr hnone]
    rfl
  | some id =>
    have hkey : ∀ d : DimFrame, keys[d.id]? = some key ↔ d.id = id := by
      intro d
      rw [← htable key d.id, hid, Option.some.injEq, eq_comm]
    show ((dims.find? fun d => d.id == id).map fun d => d.counts c).getD 0 = _
    induction dims with
    | nil => rfl
    | cons d dims ih =>
      rw [List.map_cons, List.nodup_cons] at hnodup
      rw [dimsValue_cons, List.find?_cons]
      by_cases hd : d.id = id
      · have hrest : dimsValue keys key c dims = 0 := by
          have hnone : ∀ e ∈ dims, ¬ decide (keys[e.id]? = some key) = true := by
            intro e he hdec
            have heq := (hkey e).mp (of_decide_eq_true hdec)
            exact hnodup.1 (List.mem_map.mpr ⟨e, he, heq.trans hd.symm⟩)
          rw [dimsValue, List.filter_eq_nil_iff.mpr hnone]
          rfl
        rw [if_pos ((hkey d).mpr hd), hrest, add_zero]
        simp [hd]
      · have hskip : (d.id == id) = false := beq_eq_false_iff_ne.mpr hd
        rw [if_neg fun h => hd ((hkey d).mp h), zero_add, ← ih hnodup.2, hskip]

/-! ### Conservation

`framesValue` is what is kept and `takenValue` what was sampled. -/

def takenValue (taken : List Sample) : Measure → UInt64 := (taken.map Sample.value).sum

def framesValue (keys : List String) (frames : List Frame) : Measure → UInt64 :=
  (frames.map (Frame.value keys)).sum

def Report.covers (rep : Report) (x : Sample) : Bool :=
  rep.start ≤ x.start ∧ (x.start + sampleStep : Nat) ≤ rep.start + rep.points * rep.step

/-- The report adds up the samples of its window. -/
def Report.Exact (w : World) (rep : Report) : Prop :=
  (∀ c, rep.total c = takenValue (w.taken.filter rep.covers) (.total c)) ∧
    ∀ key c, rep.share w.stats key c = takenValue (w.taken.filter rep.covers) (.share key c)

/-- At borders of sample intervals a sample lies in a window as soon as its start does. -/
theorem windowSum_taken {w : World} (h : Inv w) (rep : Report) {stop : Nat}
    (hstop : sampleStep ∣ stop) (hwindow : rep.start + rep.points * rep.step = stop) :
    windowSum Sample.start Sample.value rep.start.toNat stop w.taken =
      takenValue (w.taken.filter rep.covers) := by
  unfold windowSum takenValue
  have hsame : ∀ x ∈ w.taken, decide (rep.start.toNat ≤ x.start ∧ x.start < stop) =
      rep.covers x := by
    intro x hx
    have hborder : x.start < stop ↔ x.start + sampleStep ≤ stop := by
      obtain ⟨m, hm⟩ := h.border x hx
      obtain ⟨n, hn⟩ := hstop
      unfold sampleStep at hm hn ⊢
      omega
    refine decide_eq_decide.mpr ?_
    rw [hwindow, hborder]
    omega
  rw [List.filter_congr hsame]

section Reports

variable {w : World} {rng : String} {i : Fin 3} {points : Nat}

theorem reportStart_add (i : Fin 3) (points now : Nat) :
    reportStart i points now + points * (historyLevels i).1 =
      (reportEnd (historyLevels i).1 now : Nat) := by
  unfold reportStart
  omega

/-- The window of a report consists of whole intervals, and begins no earlier than its level
reaches back. -/
theorem toNat_reportStart (hpoints : points ≤ (historyLevels i).2) (now : Nat) :
    (historyLevels i).1 ∣ (reportStart i points now).toNat ∧
      reportEnd (historyLevels i).1 now ≤
        (reportStart i points now).toNat + (historyLevels i).2 * (historyLevels i).1 := by
  have hnat : (reportStart i points now).toNat =
      reportEnd (historyLevels i).1 now - points * (historyLevels i).1 := by
    unfold reportStart
    rw [← Nat.cast_mul]
    exact Int.toNat_sub _ _
  have hmul := Nat.mul_le_mul_right (historyLevels i).1 hpoints
  rw [hnat]
  refine ⟨Nat.dvd_sub (dvd_reportEnd (historyLevels_pos i).1 now) (Nat.dvd_mul_left _ _), ?_⟩
  omega

/-- The total of a report is the sum of the samples in its window. -/
theorem Inv.value_totalFrame (h : Inv w) (hrng : trafficRanges rng = some (i, points)) {now : Nat}
    (hreach : (w.stats.level i).dropped = 0 ∨ w.stats.lastSample ≤ now) :
    (w.stats.totalFrame i points now).value w.stats.dims =
      windowSum Sample.start Sample.value (reportStart i points now).toNat
        (reportEnd (historyLevels i).1 now) w.taken := by
  obtain ⟨hstep, hcap⟩ := historyLevels_pos i
  obtain ⟨next, hnext, hrolled⟩ := h.placed i
  obtain ⟨hstart, hfar⟩ := toNat_reportStart (points_le hrng) now
  have hreach' : (w.stats.level i).dropped = 0 ∨
      next ≤ (reportStart i points now).toNat + (historyLevels i).2 * (historyLevels i).1 := by
    refine hreach.imp_right fun hnow => ?_
    have hlast : w.stats.lastSample ≤ floorTo sampleStep now :=
      (le_floorTo_iff h.level0.borderNext).mpr hnow
    have := le_reportEnd (historyLevels i).1 now
    omega
  rw [Stats.totalFrame, value_foldl_merge, Frame.value_empty, zero_add,
    slotsValue_foldl hstep (reportStart_add i points now) List.length_replicate,
    slotsValue_replicate, zero_add]
  exact hrolled.window hcap hstart (dvd_reportEnd hstep now) hreach'

theorem Inv.report (h : Inv w) (quote : String → String)
    (hrng : trafficRanges rng = some (i, points)) {now : Nat}
    (hreach : (w.stats.level i).dropped = 0 ∨ w.stats.lastSample ≤ now) :
    ∃ rep, w.stats.report quote rng now = .ok rep ∧ rep.Exact w := by
  let total := w.stats.totalFrame i points now
  let rep : Report :=
    ⟨(historyLevels i).1, reportStart i points now, points, total.counters, total.dims⟩
  have hstop : sampleStep ∣ reportEnd (historyLevels i).1 now :=
    Nat.dvd_trans (sampleStep_dvd i) (dvd_reportEnd (historyLevels_pos i).1 now)
  have hvalue : total.value w.stats.dims = takenValue (w.taken.filter rep.covers) :=
    (h.value_totalFrame hrng hreach).trans
      (windowSum_taken h rep hstop (reportStart_add i points now))
  refine ⟨rep, by rw [Stats.report, hrng], ?_, ?_⟩
  · intro c
    exact congrFun hvalue (.total c)
  · intro key c
    refine Eq.trans ?_ (congrFun hvalue (.share key c))
    have hempty : ((Frame.empty 0).dims.map DimFrame.id).Nodup := List.nodup_nil
    exact dimsValue_eq_find h.table (nodup_foldl_merge hempty _) key c

end Reports

/-- **Traffic is conserved by the roll-up.** As long as a level dropped nothing, its frames and what
is held back behind them add up to all samples, for every counter and every key; and a
report adds up the samples of its window, each of them once. -/
theorem traffic_conserved (quote : String → String) (maxTrafficDims : Nat) {xs : List Reading}
    (hincreasing : Increasing xs) {w : World} (hw : run maxTrafficDims xs = w) :
    (w.stats.level1.dropped = 0 →
      framesValue w.stats.dims (w.stats.level1.frames ++ w.stats.level1.pending.toList) =
        takenValue w.taken) ∧
    (w.stats.level2.dropped = 0 →
      framesValue w.stats.dims (w.stats.level2.frames ++
          (w.stats.level2.pending.toList ++ w.stats.level1.pending.toList)) =
        takenValue w.taken) ∧
    ∀ rng i points now, trafficRanges rng = some (i, points) →
      (w.stats.level i).dropped = 0 ∨ w.stats.lastSample ≤ now →
      ∃ rep, w.stats.report quote rng now = .ok rep ∧ rep.Exact w := by
  have hinv := inv_run maxTrafficDims hincreasing
  rw [hw] at hinv
  refine ⟨?_, ?_, ?_⟩
  · intro hdropped
    have hrolled := hinv.level1
    rw [hdropped] at hrolled
    exact hrolled.sum_eq (by decide) (by decide)
  · intro hdropped
    have hrolled := hinv.level2
    rw [hdropped] at hrolled
    exact hrolled.sum_eq (by decide) (by decide)
  · intro rng i points now hrng hreach
    exact hinv.report quote hrng hreach

def listening (conns : UInt64) : Snapshot where
  requests := conns
  status := 0
  proto := 0
  blocked := 0
  latency := 0
  dims := AList.insert "port:tcp:443" ⟨fun _ => conns, 1⟩ ∅

/-- Samples with a gap, in three intervals of five minutes. -/
def gappedRun : List Reading :=
  [⟨28, 10, listening 3⟩, ⟨29, 10, listening 5⟩, ⟨30, 10, listening 5⟩, ⟨400, 7, listening 2⟩]

theorem traffic_conserved_gappedRun :
    framesValue (run 4096 gappedRun).stats.dims ((run 4096 gappedRun).stats.level1.frames ++
        (run 4096 gappedRun).stats.level1.pending.toList) = takenValue (run 4096 gappedRun).taken ∧
      ∃ rep, (run 4096 gappedRun).stats.report id "7d" 4015 = .ok rep ∧
        rep.Exact (run 4096 gappedRun) := by
  have hincreasing : Increasing gappedRun := by simp [Increasing, gappedRun]
  have hall := traffic_conserved id 4096 hincreasing rfl
  exact ⟨hall.1 (by decide +kernel), hall.2.2 "7d" 2 168 4015 rfl (Or.inr (by decide +kernel))⟩

end Quicgate.Traffic
