import Quicgate.LoginThrottle

/-!
# Lockouts in long runs

The runs of one `loginThrottle` (`internal/admin/throttle.go`), with any keys and at times
that do not go back.  `lookup_call` says what the other keys, the sweep and the eviction leave
of a counter that stands; the results about lockouts and about the threshold are runs of it.

`lockouts_hold` certifies the throttle for every order of its map: a key that is locked out
stays so until the lockout has passed, unless it succeeds; as many failures within a window as
the threshold says lock a key out, unless its entry was evicted; no call evicts a lockout; and
the table keeps to its cap.
-/

namespace Quicgate.Admin.Throttle

open Quicgate.GoMaps Quicgate.TransitionSystem

def newThrottle (max : Nat) : Throttle := ⟨max, ∅, 0⟩

inductive Call where
  | allow (key : String) (now : Nat)
  | fail (key : String) (now : Nat)
  | succeed (key : String)
deriving DecidableEq, Repr

/-- A throttle, and the time of the last call. -/
structure Timed where
  throttle : Throttle
  clock : Nat

def Call.time (c : Call) (clock : Nat) : Nat :=
  match c with
  | .allow _ now | .fail _ now => now
  | .succeed _ => clock

def answer (range : Range String FailCounter) (t : Throttle) : Call → Throttle
  | .allow key now => (t.allow key now).1
  | .fail key now => t.fail range key now
  | .succeed key => t.succeed key

def call (range : Range String FailCounter) (s : Timed) (c : Call) : Option Timed :=
  if c.time s.clock < s.clock then none
  else some ⟨s.throttle.answer range c, c.time s.clock⟩

def start (max clock : Nat) : Timed := ⟨newThrottle max, clock⟩

def lockedOut (t : Throttle) (key : String) (now : Nat) : Bool :=
  (t.fails.lookup key).any fun f => f.locked now

/-- The end of a lockout that ends at `stop`, after further calls: every failure that is
counted while it lasts moves it. -/
def lockEnd (key : String) (stop : Nat) (calls : List Call) : Nat :=
  calls.foldl (fun stop c =>
    match c with
    | .fail key' now => if key' = key ∧ now < stop then now + loginLockout else stop
    | _ => stop) stop

def failures (key : String) (calls : List Call) : Nat :=
  calls.countP fun c => match c with
    | .fail key' _ => key' = key
    | _ => false

/-- The call makes room by dropping the key's entry. -/
def Evicts (range : Range String FailCounter) (s : Timed) (key : String) : Call → Prop
  | .fail key' now =>
      s.throttle.fails.lookup key' = none ∧
        loginMaxTracked ≤ s.throttle.fails.entries.length ∧ key ≠ "" ∧
          victim now (range.order s.throttle.fails) "" = key
  | _ => False

/-- The lockouts of a throttle with the threshold `max`, along every run. -/
structure LockoutsHold (range : Range String FailCounter) (max : Nat) : Prop where
  /-- A locked key stays locked until the lockout has passed since the last failure that
  was counted meanwhile, unless it succeeds. -/
  lasts : ∀ clock before key t s s' rest s'' now,
    run (call range) (start max clock) before = some s →
    call range s (.fail key t) = some s' → lockedOut s'.throttle key t = true →
      run (call range) s' rest = some s'' → (∀ c ∈ rest, c ≠ .succeed key) → s''.clock ≤ now →
        now < lockEnd key (t + loginLockout) rest → (s''.throttle.allow key now).2 = false
  /-- A locked entry is neither swept nor evicted, and its end never moves earlier. -/
  kept : ∀ clock calls s c s' key f, run (call range) (start max clock) calls = some s →
    call range s c = some s' → s.throttle.fails.lookup key = some f → f.locked s'.clock = true →
      c ≠ .succeed key → ∃ f', s'.throttle.fails.lookup key = some f' ∧
        ∃ stop stop', f.lockedUntil = some stop ∧ f'.lockedUntil = some stop' ∧ stop ≤ stop'
  /-- The table has room for its cap only. -/
  bounded : ∀ clock calls s, run (call range) (start max clock) calls = some s →
    s.throttle.fails.entries.length ≤ loginMaxTracked
  /-- The last of `max` failures within the window of the first one locks the key, unless
  its entry was evicted or it succeeded in between. -/
  locks : ∀ clock before key t s s' rest s'' t' s₃,
    run (call range) (start max clock) before = some s →
    call range s (.fail key t) = some s' → s'.throttle.fails.lookup key = some (.opened t) →
      run (call range) s' rest = some s'' → (∀ c ∈ rest, c ≠ .succeed key) →
        RunMeets (call range) (fun s c => ¬ Evicts range s key c) s' rest →
          failures key rest + 2 = max →
          call range s'' (.fail key t') = some s₃ → t' ≤ t + loginWindow →
            lockedOut s₃.throttle key t' = true

/-! ### One call

A call is about one key.  What it does to the counter of another is nothing, or an eviction. -/

section Call

variable {range : Range String FailCounter} {t : Throttle} {s s' : Timed} {c : Call}
  {key key' : String} {f f' : FailCounter}
  {now max : Nat} {fails fails' : GoMap String FailCounter}

/-- The sweep leaves what stands. -/
theorem lookup_recorded_of_stands (h : fails.lookup key = some f) (hstands : f.stands now = true) :
    (t.recorded fails now).fails.lookup key = some f := by
  have hcounter : (t.recorded fails now).counter key now = some f := by
    rw [counter_recorded, h, Option.filter_some, if_pos hstands]
  exact (counter_eq_some.mp hcounter).1

theorem of_lookup_recorded (h : (t.recorded fails now).fails.lookup key = some f) :
    fails.lookup key = some f := by
  unfold recorded at h
  simp only at h
  split_ifs at h
  · rw [GoMap.lookup_eraseAll] at h
    split_ifs at h
    exact h
  · exact h

/-- The entry that is dropped is not locked out. -/
theorem victim_cases (pairs : List (String × FailCounter)) (found : String) :
    victim now pairs found = found ∨
      ∃ f, (victim now pairs found, f) ∈ pairs ∧ f.locked now = false := by
  induction pairs generalizing found with
  | nil => exact Or.inl rfl
  | cons entry rest ih =>
      obtain ⟨key, f⟩ := entry
      unfold victim
      split_ifs with hlocked hwindow
      · exact (ih found).imp_right fun ⟨g, hg, hopen⟩ => ⟨g, List.mem_cons_of_mem _ hg, hopen⟩
      · exact Or.inr ⟨f, List.mem_cons_self, by simpa using hlocked⟩
      · right
        rcases ih key with hsame | ⟨g, hg, hopen⟩
        · rw [hsame]
          exact ⟨f, List.mem_cons_self, by simpa using hlocked⟩
        · exact ⟨g, List.mem_cons_of_mem _ hg, hopen⟩

/-- Room is made at the cost of one entry that is not locked out, if the table is full. -/
theorem makeRoom_eq_some (h : makeRoom range fails now = some fails') :
    fails' = fails ∧ GoMap.len fails < loginMaxTracked ∨
      loginMaxTracked ≤ GoMap.len fails ∧ victim now (range.order fails) "" ≠ "" ∧
        fails' = fails.erase (victim now (range.order fails) "") ∧
        ∃ f, fails.lookup (victim now (range.order fails) "") = some f ∧ f.locked now = false := by
  have hlen : GoMap.len fails = fails.entries.length := by simp [GoMap.len, GoMap.pairs]
  unfold makeRoom at h
  simp only at h
  split_ifs at h with hroom hfound
  · exact Or.inl ⟨(Option.some.inj h).symm, by omega⟩
  · right
    obtain ⟨f, hf, hopen⟩ := (victim_cases (range.order fails) "").resolve_left hfound
    exact ⟨by omega, hfound, (Option.some.inj h).symm, f, range.mem_order.mp hf, hopen⟩

theorem call_eq_some (h : call range s c = some s') :
    s.clock ≤ s'.clock ∧ s'.clock = c.time s.clock ∧
    s'.throttle = s.throttle.answer range c := by
  unfold call at h
  split_ifs at h with hback
  obtain rfl := Option.some.inj h
  exact ⟨Nat.le_of_not_lt hback, rfl, rfl⟩

/-- What a call makes of the counter of `key`. -/
def moved (f : FailCounter) (max : Nat) (key : String) : Call → FailCounter
  | .fail key' now => if key' = key then f.again max now else f
  | _ => f

/-- A counter that stands stays, unless its key succeeds or it is evicted; and no locked one
is evicted. -/
theorem lookup_call (hcall : call range s c = some s')
    (hlook : s.throttle.fails.lookup key = some f)
    (hstands : f.stands s'.clock = true) (hne : c ≠ .succeed key)
    (hkeep : f.locked s'.clock = true ∨ ¬ Evicts range s key c) :
    s'.throttle.fails.lookup key = some (moved f s.throttle.max key c) := by
  obtain ⟨-, hclock, hthrottle⟩ := call_eq_some hcall
  rw [hthrottle]
  cases c with
  | allow key' now =>
      obtain rfl : s'.clock = now := hclock
      unfold answer allow moved
      by_cases hkey : key' = key
      · subst hkey
        simp only [hlook]
        split_ifs with hlocked hwindow
        · exact hlook
        · simp [FailCounter.stands, hlocked, hwindow] at hstands
        · exact hlook
      · cases hlook' : s.throttle.fails.lookup key' with
        | none => simpa only [hlook'] using hlook
        | some f' =>
            simp only [hlook']
            split_ifs
            · exact hlook
            · rwa [AList.lookup_erase_ne (Ne.symm hkey)]
            · exact hlook
  | fail key' now =>
      obtain rfl : s'.clock = now := hclock
      unfold answer fail moved
      by_cases hkey : key' = key
      · subst hkey
        simp only [hlook, hstands, if_true]
        exact lookup_recorded_of_stands (AList.lookup_insert _) (FailCounter.stands_again hstands)
      · simp only [hkey, if_false]
        have hinsert (fails : GoMap String FailCounter) (g : FailCounter)
            (h : fails.lookup key = some f) : (fails.insert key' g).lookup key = some f := by
          rwa [AList.lookup_insert_ne (Ne.symm hkey)]
        cases hlook' : s.throttle.fails.lookup key' with
        | some f' =>
            dsimp only
            split_ifs
            · exact lookup_recorded_of_stands (hinsert _ _ hlook) hstands
            · exact lookup_recorded_of_stands (hinsert _ _ hlook) hstands
        | none =>
            cases hroom : makeRoom range s.throttle.fails s'.clock with
            | none => simpa only [hlook', hroom] using hlook
            | some fails =>
                dsimp only
                apply lookup_recorded_of_stands (hinsert _ _ _) hstands
                rcases makeRoom_eq_some hroom with ⟨rfl, -⟩ | ⟨hfull, hfound, rfl, g, hg, hopen⟩
                · exact hlook
                · rw [AList.lookup_erase_ne]
                  · exact hlook
                  · intro heq
                    rw [← heq] at hg hfound
                    obtain rfl := Option.some.inj (hlook.symm.trans hg)
                    rcases hkeep with hlocked | hnot
                    · rw [hopen] at hlocked
                      cases hlocked
                    · apply hnot
                      refine ⟨hlook', ?_, hfound, heq.symm⟩
                      simpa [GoMap.len, GoMap.pairs] using hfull
  | succeed key' =>
      have hkey : key ≠ key' := fun heq => hne (by rw [heq])
      unfold answer succeed
      rw [AList.lookup_erase_ne hkey]
      exact hlook

/-- Where the entries after a call come from. -/
theorem of_lookup_call (hcall : call range s c = some s')
    (hlook : s'.throttle.fails.lookup key = some f) :
    s.throttle.fails.lookup key = some f ∨ f = .opened s'.clock ∨
      ∃ f', s.throttle.fails.lookup key = some f' ∧ f = f'.again s.throttle.max s'.clock := by
  obtain ⟨-, hclock, hthrottle⟩ := call_eq_some hcall
  rw [hthrottle] at hlook
  have herase (fails : GoMap String FailCounter) (key' : String)
      (h : (fails.erase key').lookup key = some f) : fails.lookup key = some f := by
    by_cases hkey : key = key'
    · subst hkey
      simp at h
    · rwa [AList.lookup_erase_ne hkey] at h
  cases c with
  | allow key' now =>
      left
      unfold answer allow at hlook
      cases hlook' : s.throttle.fails.lookup key' with
      | none => simpa [hlook'] using hlook
      | some f' =>
          simp only [hlook'] at hlook
          split_ifs at hlook
          · exact hlook
          · exact herase _ _ hlook
          · exact hlook
  | fail key' now =>
      obtain rfl : s'.clock = now := hclock
      have hinsert (fails : GoMap String FailCounter) (g : FailCounter)
          (h : (s.throttle.recorded (fails.insert key' g) s'.clock).fails.lookup key = some f) :
          f = g ∧ key = key' ∨ fails.lookup key = some f := by
        have hold := of_lookup_recorded h
        by_cases hkey : key = key'
        · subst hkey
          rw [AList.lookup_insert] at hold
          exact Or.inl ⟨(Option.some.inj hold).symm, rfl⟩
        · rw [AList.lookup_insert_ne hkey] at hold
          exact Or.inr hold
      unfold answer fail at hlook
      cases hlook' : s.throttle.fails.lookup key' with
      | some f' =>
          simp only [hlook'] at hlook
          split_ifs at hlook
          · rcases hinsert _ _ hlook with ⟨rfl, rfl⟩ | hold
            · exact Or.inr (Or.inr ⟨f', hlook', rfl⟩)
            · exact Or.inl hold
          · rcases hinsert _ _ hlook with ⟨rfl, rfl⟩ | hold
            · exact Or.inr (Or.inl rfl)
            · exact Or.inl hold
      | none =>
          cases hroom : makeRoom range s.throttle.fails s'.clock with
          | none =>
              simp only [hlook', hroom] at hlook
              exact Or.inl hlook
          | some fails =>
              simp only [hlook', hroom] at hlook
              rcases hinsert _ _ hlook with ⟨rfl, rfl⟩ | hold
              · exact Or.inr (Or.inl rfl)
              · rcases makeRoom_eq_some hroom with ⟨rfl, -⟩ | ⟨-, -, rfl, -⟩
                · exact Or.inl hold
                · exact Or.inl (herase _ _ hold)
  | succeed key' => exact Or.inl (herase _ _ hlook)

end Call

/-! ### Runs

`TableInv` bounds the end of a lockout by the clock and the table by its cap; with it a full
counter is a locked one. -/

/-- A locked counter has reached the threshold, and its end is not further away than a new
lockout; the table keeps to its cap. -/
structure TableInv (max : Nat) (s : Timed) : Prop where
  max_eq : s.throttle.max = max
  counted : ∀ key f stop, s.throttle.fails.lookup key = some f → f.lockedUntil = some stop →
    max ≤ f.count ∧ stop ≤ s.clock + loginLockout
  bounded : GoMap.len s.throttle.fails ≤ loginMaxTracked

section Runs

variable {range : Range String FailCounter} {s s' s'' : Timed} {c : Call} {key : String}
  {f : FailCounter}
  {max stop now t clock : Nat} {calls rest : List Call}

theorem len_recorded_le (t : Throttle) (fails : GoMap String FailCounter) (now : Nat) :
    GoMap.len (t.recorded fails now).fails ≤ GoMap.len fails := by
  unfold recorded
  simp only
  split_ifs
  · exact GoMap.len_eraseAll_le _ _
  · exact Nat.le_refl _

theorem len_answer_le (t : Throttle) (c : Call) (h : GoMap.len t.fails ≤ loginMaxTracked) :
    GoMap.len (t.answer range c).fails ≤ loginMaxTracked := by
  cases c with
  | allow key now =>
      unfold answer allow
      cases hlook : t.fails.lookup key with
      | none => simpa only [hlook] using h
      | some f =>
          simp only [hlook]
          split_ifs
          · exact h
          · exact Nat.le_trans (GoMap.len_erase_le _ _) h
          · exact h
  | fail key now =>
      unfold answer fail
      cases hlook : t.fails.lookup key with
      | some f =>
          -- the entry is written again
          have hlen (g : FailCounter) : GoMap.len (t.fails.insert key g) ≤ loginMaxTracked := by
            rw [GoMap.len_insert, GoMap.len_erase_add hlook]
            exact h
          simp only [hlook]
          split_ifs
          · exact Nat.le_trans (len_recorded_le ..) (hlen _)
          · exact Nat.le_trans (len_recorded_le ..) (hlen _)
      | none =>
          cases hroom : makeRoom range t.fails now with
          | none => simpa only [hlook, hroom] using h
          | some fails =>
              simp only [hlook, hroom]
              refine Nat.le_trans (len_recorded_le ..) ?_
              rw [GoMap.len_insert]
              have hle := GoMap.len_erase_le fails key
              rcases makeRoom_eq_some hroom with ⟨rfl, hlt⟩ | ⟨-, -, rfl, f, hf, -⟩
              · omega
              · have hadd := GoMap.len_erase_add hf
                omega
  | succeed key => exact Nat.le_trans (GoMap.len_erase_le _ _) h

theorem max_answer (t : Throttle) (c : Call) : (t.answer range c).max = t.max := by
  cases c with
  | allow key now =>
      unfold answer allow
      cases hlook : t.fails.lookup key with
      | none => simp only [hlook]
      | some f =>
          simp only [hlook]
          split_ifs <;> rfl
  | fail key now =>
      unfold answer fail
      cases hlook : t.fails.lookup key with
      | some f =>
          simp only [hlook]
          split_ifs <;> rfl
      | none =>
          cases hroom : makeRoom range t.fails now with
          | none => simp only [hlook, hroom]
          | some fails =>
              simp only [hlook, hroom]
              rfl
  | succeed key => rfl

theorem tableInv_start (max clock : Nat) : TableInv max (start max clock) where
  max_eq := rfl
  counted := nofun
  bounded := Nat.zero_le _

theorem TableInv.call (h : TableInv max s) (hcall : call range s c = some s') :
    TableInv max s' := by
  obtain ⟨hle, -, hthrottle⟩ := call_eq_some hcall
  refine ⟨?_, ?_, ?_⟩
  · rw [hthrottle, max_answer, h.max_eq]
  · intro key f stop hlook hstop
    rcases of_lookup_call hcall hlook with hold | rfl | ⟨f', hold, rfl⟩
    · obtain ⟨hcount, hend⟩ := h.counted key f stop hold hstop
      exact ⟨hcount, by omega⟩
    · cases hstop
    · unfold FailCounter.again at hstop ⊢
      rw [h.max_eq] at hstop
      simp only at hstop ⊢
      split_ifs at hstop with hreached
      · obtain rfl := Option.some.inj hstop
        exact ⟨hreached, Nat.le_refl _⟩
      · obtain ⟨hcount, hend⟩ := h.counted key f' stop hold hstop
        exact ⟨by omega, by omega⟩
  · rw [hthrottle]
    exact len_answer_le _ _ h.bounded

theorem tableInv_run (hrun : run (call range) (start max clock) calls = some s) : TableInv max s :=
  run_preserves (fun _ _ _ h hcall => h.call hcall) (tableInv_start max clock) hrun

theorem TableInv.run (h : TableInv max s) (hrun : run (Throttle.call range) s rest = some s') :
    TableInv max s' := run_preserves (fun _ _ _ h hcall => h.call hcall) h hrun

/-! ### A lockout along a run

The end of a lockout can be computed from the calls that come after it: every failure that is
counted while it lasts begins a new one. -/

theorem loginLockout_pos : 0 < loginLockout := by
  simp [loginLockout, minute, second]

theorem locked_iff : f.locked now = true ↔ ∃ stop, f.lockedUntil = some stop ∧ now < stop := by
  unfold FailCounter.locked
  cases f.lockedUntil <;> simp

theorem stands_of_locked (h : f.locked now = true) : f.stands now = true := by
  simp [FailCounter.stands, h]

/-- The end of a lockout after one more call. -/
theorem lockedUntil_moved (h : TableInv max s) (hlook : s.throttle.fails.lookup key = some f)
    (hstop : f.lockedUntil = some stop) (hcall : call range s c = some s') (hlt : s'.clock < stop) :
    (moved f s.throttle.max key c).lockedUntil = some (lockEnd key stop [c]) := by
  obtain ⟨-, hclock, -⟩ := call_eq_some hcall
  cases c with
  | allow key' now => exact hstop
  | succeed key' => exact hstop
  | fail key' now =>
      obtain rfl : s'.clock = now := hclock
      have hreached : s.throttle.max ≤ f.count + 1 := by
        rw [h.max_eq]
        exact Nat.le_succ_of_le (h.counted key f stop hlook hstop).1
      by_cases hkey : key' = key
      · simp [moved, lockEnd, hkey, hlt, FailCounter.again, hreached]
      · simp [moved, lockEnd, hkey, hstop]

theorem lockEnd_cons (key : String) (stop : Nat) (c : Call) (rest : List Call) :
    lockEnd key stop (c :: rest) = lockEnd key (lockEnd key stop [c]) rest := rfl

/-- A lockout that is over is not prolonged. -/
theorem lockEnd_of_le (hrun : run (call range) s rest = some s') (hle : stop ≤ s.clock) :
    lockEnd key stop rest = stop := by
  induction rest generalizing s with
  | nil => rfl
  | cons c rest ih =>
      obtain ⟨next, hcall, hrest⟩ := run_cons_eq_some.mp hrun
      obtain ⟨hle', hclock, -⟩ := call_eq_some hcall
      have hsame : lockEnd key stop [c] = stop := by
        cases c with
        | fail key' now =>
            obtain rfl : next.clock = now := hclock
            have hnot : ¬ next.clock < stop := by omega
            simp [lockEnd, hnot]
        | allow key' now => rfl
        | succeed key' => rfl
      rw [lockEnd_cons, hsame]
      exact ih hrest (by omega)

theorem clock_le_of_run (hrun : run (call range) s rest = some s') : s.clock ≤ s'.clock := by
  induction rest generalizing s with
  | nil =>
      obtain rfl : s = s' := by simpa using hrun
      exact Nat.le_refl _
  | cons c rest ih =>
      obtain ⟨next, hcall, hrest⟩ := run_cons_eq_some.mp hrun
      exact Nat.le_trans (call_eq_some hcall).1 (ih hrest)

/-- The lockout is in the table as long as it lasts. -/
theorem lookup_of_locked (h : TableInv max s) (hlook : s.throttle.fails.lookup key = some f)
    (hstop : f.lockedUntil = some stop) (hrun : run (call range) s rest = some s')
    (hne : ∀ c ∈ rest, c ≠ .succeed key) (hlt : s'.clock < lockEnd key stop rest) :
    ∃ f', s'.throttle.fails.lookup key = some f' ∧
      f'.lockedUntil = some (lockEnd key stop rest) := by
  induction rest generalizing s f stop with
  | nil =>
      obtain rfl : s = s' := by simpa using hrun
      exact ⟨f, hlook, hstop⟩
  | cons c rest ih =>
      obtain ⟨next, hcall, hrest⟩ := run_cons_eq_some.mp hrun
      have hlater := clock_le_of_run hrest
      rw [lockEnd_cons] at hlt ⊢
      by_cases hover : next.clock < stop
      · have hlocked : f.locked next.clock = true := locked_iff.mpr ⟨stop, hstop, hover⟩
        have hnext := lookup_call hcall hlook (stands_of_locked hlocked)
          (hne c List.mem_cons_self) (Or.inl hlocked)
        exact ih (h.call hcall) hnext (lockedUntil_moved h hlook hstop hcall hover) hrest
          (fun c hc => hne c (List.mem_cons_of_mem _ hc)) hlt
      · -- the lockout is over, and with it what is claimed
        obtain ⟨-, hclock, -⟩ := call_eq_some hcall
        have hsame : lockEnd key stop [c] = stop := by
          cases c with
          | fail key' now =>
              obtain rfl : next.clock = now := hclock
              simp [lockEnd, hover]
          | allow key' now => rfl
          | succeed key' => rfl
        rw [hsame, lockEnd_of_le hrest (Nat.le_of_not_lt hover)] at hlt
        omega

/-- A failure after which the key is locked has begun a new lockout. -/
theorem lockedUntil_fail (h : TableInv max s) (hcall : call range s (.fail key t) = some s')
    (hlook : s'.throttle.fails.lookup key = some f) (hlocked : f.locked t = true) :
    f.lockedUntil = some (t + loginLockout) := by
  obtain ⟨-, -, hthrottle⟩ := call_eq_some hcall
  have hcounter : (s.throttle.fail range key t).counter key t = some f := by
    rw [counter_eq_some]
    refine ⟨?_, stands_of_locked hlocked⟩
    rw [← hlook, hthrottle]
    rfl
  cases hold : s.throttle.counter key t with
  | none =>
      rw [counter_fail_of_not hold hcounter] at hlocked
      cases hlocked
  | some g =>
      rw [counter_fail_of_stands hold] at hcounter
      obtain rfl := Option.some.inj hcounter
      obtain ⟨hlook', -⟩ := counter_eq_some.mp hold
      obtain ⟨stop, hstop, -⟩ := locked_iff.mp hlocked
      unfold FailCounter.again at hstop ⊢
      rw [h.max_eq] at hstop ⊢
      simp only at hstop ⊢
      split_ifs at hstop ⊢ with hreached
      · rfl
      · exact absurd (Nat.le_succ_of_le (h.counted key g stop hlook' hstop).1) hreached

/-! ### The threshold

Within its window, and as long as it is not evicted, a counter has as many failures as calls
have failed. -/

/-- Within its window a counter that is not evicted counts every failure. -/
theorem count_of_run (hlook : s.throttle.fails.lookup key = some f)
    (hrun : run (call range) s rest = some s')
    (hne : ∀ c ∈ rest, c ≠ .succeed key)
    (hmeets : RunMeets (call range) (fun s c => ¬ Evicts range s key c) s rest)
    (hwindow : s'.clock ≤ f.first + loginWindow) :
    ∃ f', s'.throttle.fails.lookup key = some f' ∧ f'.first = f.first ∧
      f'.count = f.count + failures key rest := by
  induction rest generalizing s f with
  | nil =>
      obtain rfl : s = s' := by simpa using hrun
      exact ⟨f, hlook, rfl, rfl⟩
  | cons c rest ih =>
      obtain ⟨next, hcall, hrest⟩ := run_cons_eq_some.mp hrun
      have hlater := clock_le_of_run hrest
      have hstands : f.stands next.clock = true := by
        have hnot : ¬ loginWindow < next.clock - f.first := by omega
        simp [FailCounter.stands, hnot]
      have hnext := lookup_call hcall hlook hstands (hne c List.mem_cons_self) (Or.inr hmeets.1)
      have hmoved : (moved f s.throttle.max key c).first = f.first ∧
          (moved f s.throttle.max key c).count = f.count + failures key [c] := by
        cases c with
        | allow key' now => exact ⟨rfl, rfl⟩
        | succeed key' => exact ⟨rfl, rfl⟩
        | fail key' now =>
            by_cases hkey : key' = key
            · simp [moved, failures, hkey, FailCounter.again]
            · simp [moved, failures, hkey]
      obtain ⟨f', hlook', hfirst, hcount⟩ := ih hnext hrest
        (fun c hc => hne c (List.mem_cons_of_mem _ hc)) (hmeets.2 next hcall) (by omega)
      refine ⟨f', hlook', hfirst.trans hmoved.1, ?_⟩
      have hcons : failures key (c :: rest) = failures key [c] + failures key rest := by
        rw [failures, failures, failures, ← List.countP_append]
        rfl
      omega

end Runs

/-- Lockouts hold along every run, whatever happens to other keys. -/
theorem lockouts_hold (range : Range String FailCounter) (max : Nat) : LockoutsHold range max where
  lasts := by
    intro clock before key t s s' rest s'' now hbefore hfail hlocked hrun hne hle hlt
    have hinv := tableInv_run hbefore
    obtain ⟨f, hlook, hf⟩ : ∃ f, s'.throttle.fails.lookup key = some f ∧ f.locked t = true := by
      unfold lockedOut at hlocked
      cases hlook : s'.throttle.fails.lookup key with
      | none => simp [hlook] at hlocked
      | some f => exact ⟨f, rfl, by simpa [hlook] using hlocked⟩
    have hstop := lockedUntil_fail hinv hfail hlook hf
    obtain ⟨f', hlook', hstop'⟩ :=
      lookup_of_locked (hinv.call hfail) hlook hstop hrun hne (Nat.lt_of_le_of_lt hle hlt)
    have hlocked' : f'.locked now = true := locked_iff.mpr ⟨_, hstop', hlt⟩
    simp [allow, hlook', hlocked']
  kept := by
    intro clock calls s c s' key f hrun hcall hlook hlocked hne
    have hinv := tableInv_run hrun
    obtain ⟨stop, hstop, hlt⟩ := locked_iff.mp hlocked
    refine ⟨_, lookup_call hcall hlook (stands_of_locked hlocked) hne (Or.inl hlocked), stop, _,
      hstop, lockedUntil_moved hinv hlook hstop hcall hlt, ?_⟩
    obtain ⟨hle, hclock, -⟩ := call_eq_some hcall
    have hend := (hinv.counted key f stop hlook hstop).2
    cases c with
    | fail key' now =>
        obtain rfl : s'.clock = now := hclock
        simp only [lockEnd, List.foldl_cons, List.foldl_nil]
        split_ifs
        · omega
        · exact Nat.le_refl _
    | allow key' now => exact Nat.le_refl _
    | succeed key' => exact Nat.le_refl _
  bounded := by
    intro clock calls s hrun
    have hlen := (tableInv_run hrun).bounded
    simpa [GoMap.len, GoMap.pairs] using hlen
  locks := by
    intro clock before key t s s' rest s'' t' s₃ hbefore hfail hopened hrun hne hmeets hmax hlast
      hwindow
    obtain ⟨hle, hclock, -⟩ := call_eq_some hlast
    obtain rfl : s₃.clock = t' := hclock
    obtain ⟨f, hlook, hfirst, hcount⟩ := count_of_run hopened hrun hne hmeets
      (Nat.le_trans hle hwindow)
    have hmax' : s''.throttle.max = max :=
      (((tableInv_run hbefore).call hfail).run hrun).max_eq
    have hstands : f.stands s₃.clock = true := by
      have hnot : ¬ loginWindow < s₃.clock - f.first := by
        have hfirst' : f.first = t := hfirst
        omega
      simp [FailCounter.stands, hnot]
    have hnot : ¬ Evicts range s'' key (.fail key s₃.clock) := by
      rintro ⟨hnone, -⟩
      rw [hlook] at hnone
      cases hnone
    have hfails : Call.fail key s₃.clock ≠ .succeed key := by
      intro hsame
      cases hsame
    have hnext := lookup_call hlast hlook hstands hfails (Or.inr hnot)
    have hreached : s''.throttle.max ≤ f.count + 1 := by
      have hone : f.count = 1 + failures key rest := hcount
      omega
    have hagain : (f.again s''.throttle.max s₃.clock).lockedUntil =
        some (s₃.clock + loginLockout) := if_pos hreached
    have hmoved : moved f s''.throttle.max key (.fail key s₃.clock) =
        f.again s''.throttle.max s₃.clock := if_pos rfl
    have hlocked : (f.again s''.throttle.max s₃.clock).locked s₃.clock = true :=
      locked_iff.mpr ⟨_, hagain, Nat.lt_add_of_pos_right loginLockout_pos⟩
    rw [lockedOut, hnext, hmoved]
    exact hlocked

/-- Two failures lock a key out of a throttle for two, and another key's failures do not let it
in. -/
theorem lockouts_hold_two : ∃ s s' s'' : Timed,
    run (call (.listed _ _)) (start 2 0) [.fail "a" 0, .fail "b" 1] = some s ∧
      call (.listed _ _) s (.fail "a" 2) = some s' ∧ lockedOut s'.throttle "a" 2 = true ∧
      call (.listed _ _) s' (.fail "b" 3) = some s'' ∧
      (s''.throttle.fails.lookup "a").isSome = true ∧ (s''.throttle.allow "a" 4).2 = false ∧
      s''.throttle.fails.entries.length ≤ loginMaxTracked := by
  have hhold := lockouts_hold (.listed String FailCounter) 2
  have hroom : ¬ Evicts (.listed _ _) ⟨(newThrottle 2).fail (.listed _ _) "a" 0, 0⟩ "a"
    (.fail "b" 1) :=
    fun hevicts => absurd hevicts.2.1 (by decide +kernel)
  have hlocked := hhold.locks 0 [] "a" 0 _ _ [.fail "b" 1] _ 2 _ rfl rfl (by decide +kernel) rfl
    (by decide) ⟨hroom, fun _ _ => trivial⟩ rfl rfl (by decide)
  refine ⟨_, _, _, rfl, rfl, hlocked, rfl, ?_, ?_, ?_⟩
  · obtain ⟨f', hlook, -⟩ :=
      hhold.kept 0 [.fail "a" 0, .fail "b" 1, .fail "a" 2] _ (.fail "b" 3) _ "a" _
      rfl rfl rfl (by decide +kernel) (by decide)
    exact Option.isSome_of_mem hlook
  · exact hhold.lasts 0 [.fail "a" 0, .fail "b" 1] "a" 2 _ _ [.fail "b" 3] _ 4 rfl rfl hlocked rfl
      (by decide) (by decide +kernel) (by decide +kernel)
  · exact hhold.bounded 0 [.fail "a" 0, .fail "b" 1, .fail "a" 2, .fail "b" 3] _ rfl

end Quicgate.Admin.Throttle
