import Quicgate.CleanPaths
import Quicgate.GoNet
import Quicgate.TransitionSystem

/-!
# Unpacking a restore archive

The loop of `handleRestore` (`internal/admin/backup.go`) that unpacks an uploaded backup
beneath a temporary directory, before the swap of the certificates (`Restore`).  The names
of an archive are any bytes, and every outcome of the file system and of the archive's
reader is a label, so a run is one restore up to some moment.

The names are filtered as they are spelled and the files are written where the names lead.
The two agree for most names; `SpelledApart` is the condition under which they do.

`boxed_iff` certifies the loop at every moment of a restore, and
`two_spellings_leave_the_box` are archives of which the names are not spelled apart.
-/

namespace Quicgate.RestoreArchive

open Quicgate.UrlPaths Quicgate.CleanPaths Quicgate.GoNet Quicgate.TransitionSystem

def maxRestoreExpandedBytes : Int := 2 * 2 ^ 30

def dbName : Bytes := utf8 "quicgate.db"

def certsName : Bytes := utf8 "certs"

/-- `tar.TypeReg` and `tar.TypeDir`. -/
def typeReg : UInt8 := 48
def typeDir : UInt8 := 53

/-- `tar.Header`, as far as the loop reads it. On a Unix system `filepath.ToSlash` leaves the
name as it is. -/
structure Header where
  name : Bytes
  typeflag : UInt8
deriving DecidableEq

/-! ### The checks of a header

The checks of every entry, and those of a file, that is of an entry which is not a directory. -/

def refusal (h : Header) : Option Bytes :=
  if h.name ≠ dbName ∧ ¬ certsName ++ [slash] <+: h.name then
    some (utf8 "unexpected file in archive: " ++ h.name)
  else if dotdot <:+: h.name then some (utf8 "path traversal in archive")
  else if h.typeflag ≠ typeReg ∧ h.typeflag ≠ typeDir then
    some (utf8 "unsupported archive entry: " ++ h.name)
  else none

def fileRefusal (seen : List Bytes) (name : Bytes) : Option Bytes :=
  if [slash] <:+ name then some (utf8 "unsupported archive entry: " ++ name)
  else if name ∈ seen then some (utf8 "duplicate entry in archive: " ++ name)
  else none

/-! ### The loop

A step is what the reader gives next: a header, bytes, or an error.  The state has the names
that were seen, the files that were opened and the room that is left. -/

inductive Phase where
  /-- Before `tr.Next`. -/
  | next
  /-- In `io.Copy`, with the room there was and what has been copied. -/
  | copying (room : Int) (copied : Nat)
  /-- The handler has answered with an error. -/
  | refused (status : Nat) (why : Bytes)
  /-- Behind the loop. -/
  | unpacked
deriving DecidableEq

/-- `seen` holds the keys of the map. `files` are the files that were opened, with the number of
bytes written to each, the latest first. -/
structure State where
  seen : List Bytes
  sawDB : Bool
  sawCerts : Bool
  expanded : Int
  files : List (Bytes × Nat)
  phase : Phase
deriving DecidableEq

def init : State := ⟨[], false, false, 0, [], .next⟩

/-- What the loop meets. The texts are those of the errors. -/
inductive Label where
  /-- The next header, and what `os.MkdirAll` and `os.OpenFile` answer for its file. -/
  | header (h : Header) (mkdir openFile : Option Bytes)
  | badArchive (why : Bytes)
  | eof
  /-- `io.Copy` writes some bytes. -/
  | chunk (n : Nat)
  /-- `io.Copy` meets the end of the entry or of the limit; what `f.Close` answers. -/
  | copied (close : Option Bytes)
  | copyFailed (why : Bytes)

def State.refuse (s : State) (status : Nat) (why : Bytes) : State :=
  { s with phase := .refused status why }

def State.openFile (tmp : Bytes) (s : State) (name : Bytes) (mkdir openFile : Option Bytes) :
    State :=
  let s := { s with
    seen := name :: s.seen
    sawDB := s.sawDB || name == dbName
    sawCerts := s.sawCerts || name != dbName }
  match mkdir, openFile with
  | some why, _ => s.refuse 500 why
  | none, some why => s.refuse 500 why
  | none, none =>
      { s with
        files := (join tmp name, 0) :: s.files
        phase := .copying (maxRestoreExpandedBytes - s.expanded) 0 }

def State.header (tmp : Bytes) (s : State) (h : Header) (mkdir openFile : Option Bytes) : State :=
  match refusal h with
  | some why => s.refuse 400 why
  | none =>
      if h.typeflag = typeDir then s
      else
        match fileRefusal s.seen h.name with
        | some why => s.refuse 400 why
        | none => s.openFile tmp h.name mkdir openFile

/-- The bytes go to the file that was opened last. -/
def grow (n : Nat) : List (Bytes × Nat) → List (Bytes × Nat)
  | [] => []
  | (f, k) :: files => (f, k + n) :: files

/-- The end of the copying, without an error of its own. -/
def State.copied (s : State) (room : Int) (n : Nat) (close : Option Bytes) : State :=
  let s := { s with expanded := s.expanded + n }
  if room < n then s.refuse 400 (utf8 "archive expands beyond the restore size limit")
  else
    match close with
    | some why => s.refuse 500 why
    | none => { s with phase := .next }

/-- `io.LimitReader(tr, room+1)` hands out no more than its limit. -/
def step (tmp : Bytes) (s : State) : Label → Option State
  | .header h mkdir openFile =>
      if s.phase = .next then some (s.header tmp h mkdir openFile) else none
  | .badArchive why =>
      if s.phase = .next then some (s.refuse 400 (utf8 "bad archive: " ++ why)) else none
  | .eof =>
      if s.phase = .next then
        some (if s.sawDB then { s with phase := .unpacked }
          else s.refuse 400 (utf8 "archive contains no quicgate.db"))
      else none
  | .chunk n =>
      match s.phase with
      | .copying room copied =>
          if 0 < n ∧ copied + n ≤ room + 1 then
            some { s with files := grow n s.files, phase := .copying room (copied + n) }
          else none
      | _ => none
  | .copied close =>
      match s.phase with
      | .copying room copied => some (s.copied room copied close)
      | _ => none
  | .copyFailed why =>
      match s.phase with
      | .copying _ copied => some ({ s with expanded := s.expanded + copied }.refuse 500 why)
      | _ => none

/-! ### The box

What has to hold at every moment, and the condition on the names that were opened. -/

def State.paths (s : State) : List Bytes := s.files.map (·.1)

def State.total (s : State) : Nat := (s.files.map (·.2)).sum

/-- The files stay beneath the temporary directory, each is written once, and the bytes written
stay within the budget. -/
structure Boxed (tmp : Bytes) (s : State) : Prop where
  inside : ∀ f ∈ s.paths, f = join tmp dbName ∨ Inside (join tmp certsName) f
  once : s.paths.Nodup
  budget : (s.total : Int) ≤ maxRestoreExpandedBytes + 1

/-- The name of a file that passes the checks and is opened, unless it was seen before. -/
def Label.opens : Label → Option Bytes
  | .header h none none =>
      if refusal h = none ∧ h.typeflag = typeReg ∧ ¬ [slash] <:+ h.name then some h.name else none
  | _ => none

/-- No name leads to the directory of the certificates, and no two lead to one file. -/
structure SpelledApart (names : List Bytes) : Prop where
  notCerts : ∀ name ∈ names, clean name ≠ certsName
  apart : ∀ name ∈ names, ∀ name' ∈ names, clean name = clean name' → name = name'

/-! ### The names that are accepted

An accepted name does not climb, so it leads to a path by its own segments. -/

/-- The checks every entry meets, less that of its type. -/
structure Accepted (name : Bytes) : Prop where
  known : name = dbName ∨ ∃ rest, name = certsName ++ slash :: rest
  dots : ¬ dotdot <:+: name

theorem accepted_of_refusal {h : Header} (hnone : refusal h = none) : Accepted h.name := by
  unfold refusal at hnone
  split_ifs at hnone with hknown hdots
  refine ⟨?_, hdots⟩
  by_cases hdb : h.name = dbName
  · exact Or.inl hdb
  · obtain ⟨rest, hrest⟩ := not_not.mp fun hcerts => hknown ⟨hdb, hcerts⟩
    exact Or.inr ⟨rest, by simpa using hrest.symm⟩

theorem plain_dbName : Plain dbName := ⟨by decide, by decide, by decide⟩

theorem plain_certsName : Plain certsName := ⟨by decide, by decide, by decide⟩

theorem kept_dbName : kept dbName = [dbName] := by decide

theorem kept_certsName : kept certsName = [certsName] := by decide

theorem kept_certs (rest : Bytes) : kept (certsName ++ slash :: rest) = certsName :: kept rest := by
  have hsplit : certsName.splitOn slash = [certsName] := by decide
  have hkeep : certsName ≠ [] ∧ certsName ≠ [dot] := by decide
  rw [kept, List.splitOn_append_cons_self, hsplit, List.singleton_append,
    List.filter_cons_of_pos (by simpa using hkeep), kept]

theorem Accepted.plain {name : Bytes} (h : Accepted name) : Plain name where
  dots := fun hmem => h.dots (infix_of_mem_splitOn hmem)
  ne_nil := by
    rcases h.known with rfl | ⟨rest, rfl⟩
    · decide
    · simp
  relative := by
    rcases h.known with rfl | ⟨rest, rfl⟩
    · decide
    · rw [isRooted, List.head?_append_of_ne_nil _ plain_certsName.ne_nil, ← isRooted]
      exact plain_certsName.relative

theorem Accepted.kept_ne_nil {name : Bytes} (h : Accepted name) : kept name ≠ [] := by
  rcases h.known with rfl | ⟨rest, rfl⟩
  · simp [kept_dbName]
  · simp [kept_certs]

theorem clean_certsName : clean certsName = certsName := by decide

/-- Two files are one exactly when their names clean to one name. -/
theorem Accepted.join_eq_iff {tmp name name' : Bytes} (h : Accepted name) (h' : Accepted name') :
    join tmp name = join tmp name' ↔ clean name = clean name' := by
  rw [clean_eq_iff h.plain h'.plain h.kept_ne_nil h'.kept_ne_nil]
  exact ⟨kept_eq_of_join h.plain h'.plain h.kept_ne_nil h'.kept_ne_nil,
    join_eq_of_kept h.plain h'.plain⟩

/-- A file leaves its place only as the directory of the certificates itself. -/
theorem Accepted.placed_iff {tmp name : Bytes} (h : Accepted name) :
    (join tmp name = join tmp dbName ∨ Inside (join tmp certsName) (join tmp name)) ↔
      clean name ≠ certsName := by
  have hne : kept certsName ≠ [] := by simp [kept_certsName]
  have hcerts : clean name = certsName ↔ kept name = [certsName] := by
    rw [← clean_certsName, clean_eq_iff h.plain plain_certsName h.kept_ne_nil hne, kept_certsName,
      clean_certsName]
  rw [ne_eq, hcerts]
  constructor
  · rintro hplace hkept
    have hjoin : join tmp name = join tmp certsName :=
      join_eq_of_kept h.plain plain_certsName (hkept.trans kept_certsName.symm)
    rcases hplace with hdb | hin
    · have heq := kept_eq_of_join plain_certsName plain_dbName hne (by simp [kept_dbName])
        (hjoin.symm.trans hdb)
      rw [kept_certsName, kept_dbName] at heq
      exact absurd heq (by decide)
    · rw [hjoin] at hin
      exact not_inside_self _ hin
  · intro hkept
    rcases h.known with rfl | ⟨rest, rfl⟩
    · exact Or.inl rfl
    · rw [kept_certs] at hkept
      have hmore : kept rest ≠ [] := fun hnil => hkept (by rw [hnil])
      exact Or.inr (inside_join plain_certsName h.plain hne hmore
        (by rw [kept_certs, kept_certsName, List.singleton_append]))

/-! ### The files that are opened

A name is opened once, as it is spelled. -/

/-- `names` are the names under which the files of a run were opened, the latest first. -/
structure Opened (tmp : Bytes) (past : List Label) (s : State) (names : List Bytes) : Prop where
  paths : s.paths = names.map (join tmp)
  nodup : names.Nodup
  mem : ∀ name, name ∈ names ↔ name ∈ past.filterMap Label.opens
  accepted : ∀ name ∈ names, Accepted name
  seen : (∀ status why, s.phase ≠ .refused status why) → ∀ name, name ∈ s.seen ↔ name ∈ names

theorem mem_opens_concat {past : List Label} {label : Label} {name : Bytes} :
    name ∈ (past ++ [label]).filterMap Label.opens ↔
      name ∈ past.filterMap Label.opens ∨ label.opens = some name := by
  simp only [List.mem_filterMap, List.mem_append, List.mem_singleton]
  constructor
  · rintro ⟨l, hl | rfl, hopens⟩
    · exact Or.inl ⟨l, hl, hopens⟩
    · exact Or.inr hopens
  · rintro (⟨l, hl, hopens⟩ | hopens)
    · exact ⟨l, Or.inl hl, hopens⟩
    · exact ⟨label, Or.inr rfl, hopens⟩

/-- A step that opens no file of a new name. -/
theorem Opened.keep {tmp : Bytes} {past : List Label} {s next : State} {names : List Bytes}
    (h : Opened tmp past s names) {label : Label}
    (hopens : ∀ name, label.opens = some name → name ∈ names) (hpaths : next.paths = s.paths)
    (hseen : (∀ status why, next.phase ≠ .refused status why) →
      next.seen = s.seen ∧ ∀ status why, s.phase ≠ .refused status why) :
    Opened tmp (past ++ [label]) next names where
  paths := hpaths.trans h.paths
  nodup := h.nodup
  mem name := by
    rw [mem_opens_concat, ← h.mem]
    exact ⟨Or.inl, fun hmem => hmem.elim id (hopens name)⟩
  accepted := h.accepted
  seen hlive := by
    obtain ⟨heq, hlive⟩ := hseen hlive
    rw [heq]
    exact h.seen hlive

theorem opens_header {hd : Header} {mkdir openFile : Option Bytes} {name : Bytes}
    (h : (Label.header hd mkdir openFile).opens = some name) :
    mkdir = none ∧ openFile = none ∧ refusal hd = none ∧ hd.typeflag = typeReg ∧
      ¬ [slash] <:+ hd.name ∧ name = hd.name := by
  cases mkdir with
  | some why => cases h
  | none =>
      cases openFile with
      | some why => cases h
      | none =>
          simp only [Label.opens] at h
          split_ifs at h with hopens
          exact ⟨rfl, rfl, hopens.1, hopens.2.1, hopens.2.2, (Option.some.inj h).symm⟩

theorem typeReg_of_refusal {hd : Header} (h : refusal hd = none) (hdir : hd.typeflag ≠ typeDir) :
    hd.typeflag = typeReg := by
  unfold refusal at h
  split_ifs at h with _ _ htype
  by_contra hreg
  exact htype ⟨hreg, hdir⟩

/-- A file whose name is new to the archive. -/
theorem opened_openFile {tmp : Bytes} {past : List Label} {s : State} {names : List Bytes}
    (h : Opened tmp past s names) (hphase : s.phase = .next) {hd : Header}
    (haccepted : refusal hd = none) (htype : hd.typeflag = typeReg)
    (hfile : fileRefusal s.seen hd.name = none) (mkdir openFile : Option Bytes) :
    ∃ names', Opened tmp (past ++ [.header hd mkdir openFile])
      (s.openFile tmp hd.name mkdir openFile) names' := by
  unfold fileRefusal at hfile
  split_ifs at hfile with hslash hseen
  cases mkdir with
  | some why =>
      exact ⟨names,
        h.keep (fun name hopens => absurd (opens_header hopens).1 (Option.some_ne_none why)) rfl
        fun hlive => absurd rfl (hlive _ _)⟩
  | none =>
      cases openFile with
      | some why =>
          exact ⟨names, h.keep
            (fun name hopens => absurd (opens_header hopens).2.1 (Option.some_ne_none why)) rfl
            fun hlive => absurd rfl (hlive _ _)⟩
      | none =>
          have hlive := h.seen (by simp [hphase])
          have hopens : (Label.header hd none none).opens = some hd.name :=
            if_pos ⟨haccepted, htype, hslash⟩
          refine ⟨hd.name :: names, ?_⟩
          constructor
          case paths =>
            have hpaths := h.paths
            simp only [State.paths] at hpaths
            simp [State.openFile, State.paths, hpaths]
          case nodup => exact List.nodup_cons.mpr ⟨fun hmem => hseen ((hlive _).mpr hmem), h.nodup⟩
          case mem =>
            intro name
            rw [mem_opens_concat, hopens, ← h.mem, List.mem_cons, Option.some.injEq, or_comm,
              eq_comm (a := hd.name)]
          case accepted =>
            intro name hmem
            rcases List.mem_cons.mp hmem with rfl | hmem
            · exact accepted_of_refusal haccepted
            · exact h.accepted name hmem
          case seen =>
            intro _ name
            simp [State.openFile, hlive]

theorem opened_header {tmp : Bytes} {past : List Label} {s : State} {names : List Bytes}
    (h : Opened tmp past s names) (hphase : s.phase = .next) (hd : Header)
    (mkdir openFile : Option Bytes) :
    ∃ names', Opened tmp (past ++ [.header hd mkdir openFile]) (s.header tmp hd mkdir openFile)
      names' := by
  unfold State.header
  cases hrefusal : refusal hd with
  | some why =>
      refine ⟨names, h.keep (fun name hopens => ?_) rfl fun hlive => absurd rfl (hlive _ _)⟩
      exact absurd (hrefusal.symm.trans (opens_header hopens).2.2.1) (Option.some_ne_none why)
  | none =>
      simp only
      by_cases hdir : hd.typeflag = typeDir
      · rw [if_pos hdir]
        refine ⟨names, h.keep (fun name hopens => ?_) rfl fun _ => ⟨rfl, by simp [hphase]⟩⟩
        exact absurd (hdir.symm.trans (opens_header hopens).2.2.2.1) (by decide)
      rw [if_neg hdir]
      have htype := typeReg_of_refusal hrefusal hdir
      cases hfile : fileRefusal s.seen hd.name with
      | none => exact opened_openFile h hphase hrefusal htype hfile mkdir openFile
      | some why =>
          refine ⟨names, h.keep (fun name hopens => ?_) rfl fun hlive => absurd rfl (hlive _ _)⟩
          obtain ⟨-, -, -, -, hslash, rfl⟩ := opens_header hopens
          simp only [fileRefusal, if_neg hslash] at hfile
          split_ifs at hfile with hseen
          exact (h.seen (by simp [hphase]) hd.name).mp hseen

theorem paths_grow (n : Nat) (files : List (Bytes × Nat)) :
    (grow n files).map (·.1) = files.map (·.1) := by
  cases files with
  | nil => rfl
  | cons first files => rfl

theorem opened_step {tmp : Bytes} {past : List Label} {s next : State} {label : Label}
    (h : ∃ names, Opened tmp past s names) (hstep : step tmp s label = some next) :
    ∃ names, Opened tmp (past ++ [label]) next names := by
  obtain ⟨names, h⟩ := h
  cases label with
  | header hd mkdir openFile =>
      simp only [step] at hstep
      split_ifs at hstep with hphase
      rw [← Option.some.inj hstep]
      exact opened_header h hphase hd mkdir openFile
  | badArchive why =>
      simp only [step] at hstep
      split_ifs at hstep with hphase
      rw [← Option.some.inj hstep]
      exact ⟨names, h.keep (by simp [Label.opens]) rfl fun hlive => absurd rfl (hlive _ _)⟩
  | eof =>
      simp only [step] at hstep
      split_ifs at hstep with hphase hdb
      · rw [← Option.some.inj hstep]
        exact ⟨names, h.keep (by simp [Label.opens]) rfl fun _ => ⟨rfl, by simp [hphase]⟩⟩
      · rw [← Option.some.inj hstep]
        exact ⟨names, h.keep (by simp [Label.opens]) rfl fun hlive => absurd rfl (hlive _ _)⟩
  | chunk n =>
      cases hphase : s.phase with
      | copying room copied =>
          simp only [step, hphase] at hstep
          split_ifs at hstep with hroom
          rw [← Option.some.inj hstep]
          exact ⟨names,
            h.keep (by simp [Label.opens]) (paths_grow n s.files) fun _ => ⟨rfl, by simp [hphase]⟩⟩
      | _ => simp [step, hphase] at hstep
  | copied close =>
      cases hphase : s.phase with
      | copying room copied =>
          simp only [step, hphase, Option.some.injEq] at hstep
          subst hstep
          have hlive : ∀ status why, s.phase ≠ .refused status why := by simp [hphase]
          unfold State.copied
          split_ifs with hroom
          · exact ⟨names, h.keep (by simp [Label.opens]) rfl fun hlive => absurd rfl (hlive _ _)⟩
          · cases close with
            | none => exact ⟨names, h.keep (by simp [Label.opens]) rfl fun _ => ⟨rfl, hlive⟩⟩
            | some why => exact
                ⟨names, h.keep (by simp [Label.opens]) rfl fun hlive => absurd rfl (hlive _ _)⟩
      | _ => simp [step, hphase] at hstep
  | copyFailed why =>
      cases hphase : s.phase with
      | copying room copied =>
          simp only [step, hphase, Option.some.injEq] at hstep
          subst hstep
          exact ⟨names, h.keep (by simp [Label.opens]) rfl fun hlive => absurd rfl (hlive _ _)⟩
      | _ => simp [step, hphase] at hstep

theorem opened_run {tmp : Bytes} {labels : List Label} {s : State}
    (hrun : run (step tmp) init labels = some s) : ∃ names, Opened tmp labels s names :=
  run_history (P := fun past s => ∃ names, Opened tmp past s names)
    (fun _ _ _ _ h hstep => opened_step h hstep)
    ⟨[], rfl, List.nodup_nil, by simp, by simp, by simp [init]⟩ hrun

/-! ### The bytes that are written

The budget bounds the sum over all files, whatever the headers say of their sizes. -/

/-- What the counters say about the bytes, between two steps. -/
def Counted (s : State) : Prop :=
  match s.phase with
  | .next | .unpacked => (s.total : Int) = s.expanded ∧ s.expanded ≤ maxRestoreExpandedBytes
  | .copying room copied =>
      s.files ≠ [] ∧ (s.total : Int) = s.expanded + copied ∧
        room = maxRestoreExpandedBytes - s.expanded ∧ 0 ≤ room ∧ copied ≤ room + 1
  | .refused _ _ => (s.total : Int) ≤ maxRestoreExpandedBytes + 1

theorem Counted.total_le {s : State} (h : Counted s) :
    (s.total : Int) ≤ maxRestoreExpandedBytes + 1 := by
  unfold Counted at h
  cases hphase : s.phase with
  | next =>
      simp only [hphase] at h
      omega
  | unpacked =>
      simp only [hphase] at h
      omega
  | copying room copied =>
      simp only [hphase] at h
      omega
  | refused status why => simpa only [hphase] using h

theorem Counted.refuse {s next : State} (h : Counted s) (htotal : next.total = s.total)
    {status : Nat} {why : Bytes} (hphase : next.phase = .refused status why) : Counted next := by
  unfold Counted
  simp only [hphase, htotal]
  exact h.total_le

theorem counted_openFile {tmp : Bytes} {s : State} (h : Counted s) (hphase : s.phase = .next)
    (name : Bytes) (mkdir openFile : Option Bytes) :
    Counted (s.openFile tmp name mkdir openFile) := by
  cases mkdir with
  | some why => exact h.refuse rfl rfl
  | none =>
      cases openFile with
      | some why => exact h.refuse rfl rfl
      | none =>
          simp only [Counted, hphase] at h
          have htotal : (s.openFile tmp name none none).total = s.total := by
            simp [State.openFile, State.total]
          refine ⟨List.cons_ne_nil _ _, ?_, rfl, ?_, ?_⟩
          · rw [htotal]
            exact h.1.trans (Int.add_zero _).symm
          · exact Int.sub_nonneg_of_le h.2
          · have hle := Int.sub_nonneg_of_le h.2
            exact Int.le_add_one hle

theorem counted_header {tmp : Bytes} {s : State} (h : Counted s) (hphase : s.phase = .next)
    (hd : Header) (mkdir openFile : Option Bytes) : Counted (s.header tmp hd mkdir openFile) := by
  unfold State.header
  cases hrefusal : refusal hd with
  | some why => exact h.refuse rfl rfl
  | none =>
      simp only
      split_ifs with hdir
      · exact h
      cases hfile : fileRefusal s.seen hd.name with
      | some why => exact h.refuse rfl rfl
      | none => exact counted_openFile h hphase hd.name mkdir openFile

theorem sum_grow {n : Nat} {files : List (Bytes × Nat)} (hne : files ≠ []) :
    ((grow n files).map (·.2)).sum = (files.map (·.2)).sum + n := by
  cases files with
  | nil => exact absurd rfl hne
  | cons first files =>
      simp only [grow, List.map_cons, List.sum_cons]
      omega

theorem counted_copied {s : State} {room : Int} {copied : Nat} (h : Counted s)
    (hphase : s.phase = .copying room copied) (close : Option Bytes) :
    Counted (s.copied room copied close) := by
  have hcounted := h
  simp only [Counted, hphase] at hcounted
  obtain ⟨-, htotal, hroom, -, -⟩ := hcounted
  unfold State.copied
  split_ifs with hover
  · exact h.refuse rfl rfl
  · cases close with
    | some why => exact h.refuse rfl rfl
    | none => exact ⟨htotal, by simp only; omega⟩

theorem counted_step {tmp : Bytes} {s next : State} {label : Label} (h : Counted s)
    (hstep : step tmp s label = some next) : Counted next := by
  cases label with
  | header hd mkdir openFile =>
      simp only [step] at hstep
      split_ifs at hstep with hphase
      rw [← Option.some.inj hstep]
      exact counted_header h hphase hd mkdir openFile
  | badArchive why =>
      simp only [step] at hstep
      split_ifs at hstep with hphase
      rw [← Option.some.inj hstep]
      exact h.refuse rfl rfl
  | eof =>
      simp only [step] at hstep
      split_ifs at hstep with hphase hdb
      · rw [← Option.some.inj hstep]
        simp only [Counted, hphase] at h
        exact h
      · rw [← Option.some.inj hstep]
        exact h.refuse rfl rfl
  | chunk n =>
      cases hphase : s.phase with
      | copying room copied =>
          simp only [step, hphase] at hstep
          split_ifs at hstep with hroom
          rw [← Option.some.inj hstep]
          simp only [Counted, hphase] at h
          obtain ⟨hne, htotal, heq, hnonneg, -⟩ := h
          refine ⟨?_, ?_, heq, hnonneg, by push_cast; exact hroom.2⟩
          · cases hfiles : s.files with
            | nil => exact absurd hfiles hne
            | cons first files => exact List.cons_ne_nil _ _
          · rw [State.total, sum_grow hne, Nat.cast_add]
            simp only [State.total] at htotal ⊢
            omega
      | _ => simp [step, hphase] at hstep
  | copied close =>
      cases hphase : s.phase with
      | copying room copied =>
          simp only [step, hphase, Option.some.injEq] at hstep
          subst hstep
          exact counted_copied h hphase close
      | _ => simp [step, hphase] at hstep
  | copyFailed why =>
      cases hphase : s.phase with
      | copying room copied =>
          simp only [step, hphase, Option.some.injEq] at hstep
          subst hstep
          exact h.refuse rfl rfl
      | _ => simp [step, hphase] at hstep

theorem counted_init : Counted init := ⟨rfl, by decide⟩

theorem counted_run {tmp : Bytes} {labels : List Label} {s : State}
    (hrun : run (step tmp) init labels = some s) : Counted s :=
  run_preserves (P := Counted) (fun _ _ _ h hstep => counted_step h hstep) counted_init hrun

/-! ### The whole restore

Files are in their places exactly when their names lead to different ones. -/

theorem nodup_map_join_iff {tmp : Bytes} {names : List Bytes} (hnodup : names.Nodup)
    (haccepted : ∀ name ∈ names, Accepted name) :
    (names.map (join tmp)).Nodup ↔
      ∀ name ∈ names, ∀ name' ∈ names, clean name = clean name' → name = name' := by
  rw [List.nodup_map_iff_inj_on hnodup]
  constructor
  · intro hinj name hname name' hname' heq
    exact hinj name hname name' hname'
      (((haccepted name hname).join_eq_iff (haccepted name' hname')).mpr heq)
  · intro hinj name hname name' hname' heq
    exact hinj name hname name' hname'
      (((haccepted name hname).join_eq_iff (haccepted name' hname')).mp heq)

/-- At every moment of a restore the files are in their places exactly when the names that were
opened are spelled apart. -/
theorem boxed_iff (tmp : Bytes) {labels : List Label} {s : State}
    (hrun : run (step tmp) init labels = some s) :
    Boxed tmp s ↔ SpelledApart (labels.filterMap Label.opens) := by
  obtain ⟨names, h⟩ := opened_run hrun
  have hcount := (counted_run hrun).total_le
  have hplaced : (∀ f ∈ s.paths, f = join tmp dbName ∨ Inside (join tmp certsName) f) ↔
      ∀ name ∈ names, clean name ≠ certsName := by
    rw [h.paths, List.forall_mem_map]
    exact forall₂_congr fun name hname => (h.accepted name hname).placed_iff
  constructor
  · intro hboxed
    have honce := hboxed.once
    rw [h.paths, nodup_map_join_iff h.nodup h.accepted] at honce
    constructor
    case notCerts => exact fun name hname => hplaced.mp hboxed.inside name ((h.mem name).mpr hname)
    case apart =>
      intro name hname name' hname'
      exact honce name ((h.mem name).mpr hname) name' ((h.mem name').mpr hname')
  · intro hapart
    constructor
    case inside =>
      exact hplaced.mpr fun name hname => hapart.notCerts name ((h.mem name).mp hname)
    case once =>
      rw [h.paths, nodup_map_join_iff h.nodup h.accepted]
      intro name hname name' hname'
      exact hapart.apart name ((h.mem name).mp hname) name' ((h.mem name').mp hname')
    case budget => exact hcount

def fileOf (name : String) (bytes : Nat) : List Label :=
  [.header ⟨utf8 name, typeReg⟩ none none, .chunk bytes, .copied none]

def tmpDir : Bytes := utf8 "/data/.restore-1"

def backup : List Label := fileOf "quicgate.db" 4096 ++ fileOf "certs/a/key" 10 ++ [.eof]

theorem spelledApart_backup : SpelledApart (backup.filterMap Label.opens) where
  notCerts := by decide +kernel
  apart := by decide +kernel

/-- The run of a backup as the server writes one. -/
theorem boxed_iff_backup :
    ∃ s, run (step tmpDir) init backup = some s ∧ s.phase = .unpacked ∧ Boxed tmpDir s := by
  have hrun : (run (step tmpDir) init backup).map State.phase = some .unpacked := by
    decide +kernel
  obtain ⟨s, hs, hphase⟩ := Option.map_eq_some_iff.mp hrun
  exact ⟨s, hs, hphase, (boxed_iff tmpDir hs).mpr spelledApart_backup⟩

def twice : List Label :=
  fileOf "quicgate.db" 1 ++ fileOf "certs/a" 1 ++ fileOf "certs//a" 1 ++ [.eof]

def certsAsFile : List Label := fileOf "quicgate.db" 1 ++ fileOf "certs/." 1 ++ [.eof]

/-- An archive that spells one file in two ways, and one that spells the directory of the
certificates as a file. Both are unpacked to their end. -/
theorem two_spellings_leave_the_box :
    (∃ s, run (step tmpDir) init twice = some s ∧ s.phase = .unpacked ∧ ¬ Boxed tmpDir s) ∧
      ∃ s, run (step tmpDir) init certsAsFile = some s ∧ s.phase = .unpacked ∧
        ¬ Boxed tmpDir s := by
  constructor
  · have hrun : (run (step tmpDir) init twice).map (fun s => (s.phase, decide s.paths.Nodup)) =
        some (.unpacked, false) := by decide +kernel
    obtain ⟨s, hs, hend⟩ := Option.map_eq_some_iff.mp hrun
    obtain ⟨hphase, honce⟩ := Prod.mk.inj hend
    exact ⟨s, hs, hphase, fun hboxed => of_decide_eq_false honce hboxed.once⟩
  · have hrun : (run (step tmpDir) init certsAsFile).map (fun s => (s.phase, s.paths)) =
        some (.unpacked, [join tmpDir certsName, join tmpDir dbName]) := by decide +kernel
    have hne : join tmpDir certsName ≠ join tmpDir dbName := by decide +kernel
    obtain ⟨s, hs, hend⟩ := Option.map_eq_some_iff.mp hrun
    obtain ⟨hphase, hpaths⟩ := Prod.mk.inj hend
    refine ⟨s, hs, hphase, fun hboxed => ?_⟩
    rcases hboxed.inside (join tmpDir certsName) (by simp [hpaths]) with hdb | hin
    · exact hne hdb
    · exact not_inside_self _ hin

end Quicgate.RestoreArchive
