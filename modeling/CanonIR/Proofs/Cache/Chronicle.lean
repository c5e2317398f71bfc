import CanonIR.Cache.Script
import CanonIR.Proofs.Cache.Sweeping

/-!
What a script makes of its cache. A chronicle is kept beside a script: it has the largest number of
entries that were alive at the same time, and the log of all insertions. Whatever the script does,
dead entries are bounded by that peak (`size_bounded_by_peak`), and sweeps are as rare as their
survivors are many (`sweeps_rare_and_paid`).
-/

namespace CanonIR.CacheScript

/-- What a script has done so far. -/
structure Chronicle where
  state : State := {}
  /-- The largest number of entries that were alive at the same time. -/
  peak : Nat := 0
  insertions : SweepLog := []

/-- Whether a step inserts an item, but for the rounds of `Step.churn`. -/
def State.inserts (s : State) : Step → Bool
  | .insert _ slot => (s.slots.get? slot).isSome
  | .getOrInsert key (.item _) _ => (s.cache.lookup s.alive key).isNone
  | _ => false

namespace Chronicle

/-- Goes on to the next state, and counts the entries that live in it. -/
def enter (h : Chronicle) (s : State) : Chronicle :=
  { h with state := s, peak := max h.peak s.liveCount }

/-- Notes what an insertion made now sweeps. -/
def noteInsertion (h : Chronicle) : Chronicle :=
  { h with insertions := h.state.cache.sweep? h.state.alive :: h.insertions }

def churnOne (first keep : Nat) (into : String) (h : Chronicle) (n : Nat) : Chronicle :=
  h.noteInsertion.enter (h.state.churnOne first keep into n)

def advance (h : Chronicle) (x : Step) : Chronicle :=
  (if h.state.inserts x then h.noteInsertion else h).enter (h.state.step x).2

def step (h : Chronicle) : Step → Chronicle
  | .churn first count keep into => (List.range count).foldl (churnOne first keep into) h
  | x => h.advance x

/-- The chronicle of a script. Its end is any moment: a script may be cut short. -/
def of (xs : List Step) : Chronicle := xs.foldl step {}

theorem state_step (h : Chronicle) (x : Step) : (h.step x).state = (h.state.step x).2 := by
  cases x with
  | churn first count keep into =>
    exact (List.foldl_hom Chronicle.state (fun _ _ => rfl)).symm
  | _ => rfl

theorem state_foldl (h : Chronicle) (xs : List Step) :
    (xs.foldl step h).state = (h.state.run xs).2 := by
  induction xs generalizing h with
  | nil => rfl
  | cons x xs ih =>
    rw [List.foldl_cons, ih, state_step]
    rfl

@[simp] theorem state_of (xs : List Step) : (of xs).state = (State.run {} xs).2 :=
  state_foldl {} xs

end Chronicle

/-! ## What a step does to the cache -/

namespace State

@[simp] theorem cache_bind (s : State) (into : Option String) (i : Option Item) :
    (s.bind into i).cache = s.cache := by
  cases into <;> rfl

theorem cache_churnOne (first keep : Nat) (into : String) (s : State) (n : Nat) :
    (s.churnOne first keep into n).cache =
      s.cache.insert s.alive (first + n) (s.nextItem (toString n)) := by
  unfold churnOne
  dsimp only
  split
  · rw [cache_bind]
  · rfl

/-- A step leaves the cache alone, forgets an address or inserts an item, if it does not churn. -/
theorem step_cases (s : State) {x : Step}
    (hx : ∀ first count keep into, x ≠ .churn first count keep into) :
    (s.inserts x = false ∧ (s.step x).2.cache = s.cache) ∨
    (s.inserts x = false ∧ ∃ key, (s.step x).2.cache = s.cache.forget key) ∨
    (s.inserts x = true ∧ ∃ key i, (s.step x).2.cache = s.cache.insert s.alive key i) := by
  cases x with
  | new data into => exact Or.inl ⟨rfl, rfl⟩
  | clone slot into =>
    refine Or.inl ⟨rfl, ?_⟩
    simp only [step, withSlot]
    split <;> rfl
  | drop slot => exact Or.inl ⟨rfl, rfl⟩
  | insert key slot =>
    cases hs : s.slots.get? slot with
    | none => exact Or.inl (by simp [inserts, step, withSlot, hs])
    | some i =>
      refine Or.inr (Or.inr ⟨by simp [inserts, hs], key, i, ?_⟩)
      simp [step, withSlot, hs]
  | lookup key into => exact Or.inl ⟨rfl, cache_bind s into _⟩
  | getOrInsert key make into =>
    cases hl : s.cache.lookup s.alive key with
    | some i => exact Or.inl (by cases make <;> simp [inserts, step, WeakCache.getOrInsert, hl])
    | none =>
      cases make with
      | fail reason => exact Or.inl (by simp [inserts, step, WeakCache.getOrInsert, hl])
      | item data =>
        refine Or.inr (Or.inr ⟨by simp [inserts, hl], key, s.nextItem data, ?_⟩)
        simp [step, WeakCache.getOrInsert, hl]
  | forget key => exact Or.inr (Or.inl ⟨rfl, key, rfl⟩)
  | contains key => exact Or.inl ⟨rfl, rfl⟩
  | liveCount => exact Or.inl ⟨rfl, rfl⟩
  | size => exact Or.inl ⟨rfl, rfl⟩
  | churn first count keep into => exact absurd rfl (hx first count keep into)

end State

/-! ## What a chronicle keeps -/

/-- The peak bounds the cache, and the log accounts for it. -/
structure Kept (h : Chronicle) : Prop where
  live_le : h.state.liveCount ≤ h.peak
  bounded : h.state.cache.Bounded h.peak
  accounted : h.state.cache.Accounted h.insertions

namespace Kept

variable {h : Chronicle}

theorem start : Kept {} := ⟨Nat.le_refl 0, WeakCache.bounded_empty, WeakCache.accounted_empty⟩

theorem enter {s : State} (hb : s.cache.Bounded h.peak) (ha : s.cache.Accounted h.insertions) :
    Kept (h.enter s) :=
  ⟨Nat.le_max_right _ _, hb.mono (Nat.le_max_left _ _), ha⟩

/-- What an insertion sweeps was alive in the state before it, and counts to the peak. -/
theorem enter_insert (k : Kept h) {s : State} {key : Nat} {i : Item}
    (hs : s.cache = h.state.cache.insert h.state.alive key i) :
    Kept (h.noteInsertion.enter s) := by
  refine enter ?_ ?_ <;> rw [hs]
  · exact k.bounded.insert k.live_le key i
  · exact k.accounted.insert key i

theorem churn (k : Kept h) (first keep : Nat) (into : String) (ns : List Nat) :
    Kept (ns.foldl (Chronicle.churnOne first keep into) h) := by
  induction ns generalizing h with
  | nil => exact k
  | cons n ns ih => exact ih (k.enter_insert (State.cache_churnOne first keep into h.state n))

theorem advance (k : Kept h) {x : Step}
    (hx : ∀ first count keep into, x ≠ .churn first count keep into) : Kept (h.advance x) := by
  unfold Chronicle.advance
  rcases h.state.step_cases hx with ⟨hi, hc⟩ | ⟨hi, key, hc⟩ | ⟨hi, key, i, hc⟩
  · rw [hi]
    exact enter (hc ▸ k.bounded) (hc ▸ k.accounted)
  · rw [hi]
    exact enter (hc ▸ k.bounded.forget key) (hc ▸ k.accounted.forget key)
  · rw [hi]
    exact k.enter_insert hc

theorem step (k : Kept h) (x : Step) : Kept (h.step x) := by
  cases x with
  | churn first count keep into => exact k.churn first keep into (List.range count)
  | _ => exact k.advance nofun

theorem of (xs : List Step) : Kept (Chronicle.of xs) := by
  have run {h : Chronicle} (k : Kept h) : Kept (xs.foldl Chronicle.step h) := by
    induction xs generalizing h with
    | nil => exact k
    | cons x xs ih => exact ih (k.step x)
  exact run start

end Kept

/-! ## When nothing dies -/

/-- Holds one item in a slot, and inserts it under the first `n` addresses. -/
def hoard (n : Nat) : List Step :=
  .new "kept" "slot" :: (List.range n).map fun k => .insert k "slot"

/-- The threshold and the log after `n` insertions under new addresses, when nothing dies. -/
def hoardLog : Nat → Nat × SweepLog
  | 0 => (256, [])
  | n + 1 =>
    let before := hoardLog n
    if before.1 ≤ n then (max 256 (2 * n), some ⟨n, n⟩ :: before.2)
    else (before.1, none :: before.2)

/-- What `hoard n` leaves. -/
structure Hoarded (n : Nat) (h : Chronicle) : Prop where
  slot : ∃ i, h.state.slots.get? "slot" = some i ∧ h.state.alive i = true
  size : h.state.cache.size = n
  mem : ∀ e ∈ h.state.cache.entries.entries, e.1 < n ∧ h.state.alive e.2 = true
  sweepAt : h.state.cache.sweepAt = (hoardLog n).1
  insertions : h.insertions = (hoardLog n).2

namespace Hoarded

theorem step {n : Nat} {h : Chronicle} (k : Hoarded n h) :
    Hoarded (n + 1) (h.step (.insert n "slot")) := by
  obtain ⟨⟨i, hi, hlive⟩, hsize, hmem, hat, hlog⟩ := k
  have hstate : (h.state.step (.insert n "slot")).2 =
      { h.state with cache := h.state.cache.insert h.state.alive n i } := by
    simp only [State.step, State.withSlot, hi]
  have hnext : h.step (.insert n "slot") = h.noteInsertion.enter
      { h.state with cache := h.state.cache.insert h.state.alive n i } := by
    rw [← hstate]
    simp only [Chronicle.step, Chronicle.advance, State.inserts, hi, Option.isSome_some, if_pos]
  have hcount : h.state.cache.liveCount h.state.alive = n :=
    (WeakCache.liveCount_of_alive fun e he => (hmem e he).2).trans hsize
  have hentries : (h.state.cache.insert h.state.alive n i).entries.entries =
      (n, i) :: h.state.cache.entries.entries :=
    WeakCache.entries_insert_of_alive fun e he => ⟨Nat.ne_of_lt (hmem e he).1, (hmem e he).2⟩
  have hsweep : (h.state.cache.insert h.state.alive n i).sweepAt = (hoardLog (n + 1)).1 ∧
      h.state.cache.sweep? h.state.alive :: h.insertions = (hoardLog (n + 1)).2 := by
    simp only [hoardLog, ← hat, ← hlog]
    rcases h.state.cache.insert_cases h.state.alive n i with ⟨hlt, hv, hat', -⟩ | ⟨hle, hv, hat', -⟩
    · rw [if_neg (by omega), hat', hv]
      exact ⟨rfl, rfl⟩
    · rw [if_pos (by omega), hat', hv, hcount, hsize]
      exact ⟨rfl, rfl⟩
  rw [hnext]
  refine ⟨⟨i, hi, hlive⟩, ?_, fun e he => ?_, hsweep.1, hsweep.2⟩
  · exact (congrArg List.length hentries).trans (congrArg Nat.succ hsize)
  · rw [Chronicle.enter, hentries] at he
    rcases List.mem_cons.mp he with rfl | he
    · exact ⟨Nat.lt_succ_self n, hlive⟩
    · exact ⟨Nat.lt_succ_of_lt (hmem e he).1, (hmem e he).2⟩

theorem of (n : Nat) : Hoarded n (Chronicle.of (hoard n)) := by
  induction n with
  | zero => exact ⟨⟨⟨0, "kept"⟩, rfl, rfl⟩, rfl, nofun, rfl, rfl⟩
  | succ n ih =>
    have hrun : Chronicle.of (hoard (n + 1)) =
        (Chronicle.of (hoard n)).step (.insert n "slot") := by
      simp [Chronicle.of, hoard, List.range_succ]
    rw [hrun]
    exact ih.step

end Hoarded

/-! ## Bounds -/

/-- The cache of a script never has more entries than its threshold, which is at least 256, and
so no more than 256 or twice the largest number of entries that were alive at the same time. -/
theorem size_bounded_by_peak (xs : List Step) :
    let s := (State.run {} xs).2
    s.cache.size ≤ s.cache.sweepAt ∧ 256 ≤ s.cache.sweepAt ∧
      s.cache.size ≤ max 256 (2 * (Chronicle.of xs).peak) := by
  intro s
  obtain ⟨hsize, hmin, hmax⟩ := (Kept.of xs).bounded
  rw [Chronicle.state_of] at hsize hmin hmax
  exact ⟨hsize, hmin, Nat.le_trans hsize hmax⟩

/-- From a sweep of a script up to the next one there are as many insertions as the sweep left
survivors, and at least 128, and all sweeps together look at no more than two entries for each
insertion. -/
theorem sweeps_rare_and_paid (xs : List Step) :
    let log := (Chronicle.of xs).insertions
    (∀ later w m v earlier, log = later ++ some w :: (List.replicate m none ++ some v :: earlier) →
      max 128 v.survivors ≤ m + 1) ∧
    log.scanned ≤ 2 * log.length := by
  intro log
  obtain ⟨-, -, hspaced, hpaid⟩ := (Kept.of xs).accounted
  constructor
  · intro later w m v earlier hlog
    have h := hspaced w (List.replicate m none ++ some v :: earlier) ⟨later, hlog.symm⟩
    rw [SweepLog.survivors_unswept, SweepLog.since_unswept, WeakCache.minSweepAt] at h
    omega
  · exact Nat.le_trans (Nat.le_add_right _ _) hpaid

/-- The sweeps of `hoard 513` are as close as they can be. -/
theorem sweeps_rare_and_paid_hoard :
    let log := (Chronicle.of (hoard 513)).insertions
    log = [] ++ some ⟨512, 512⟩ ::
        (List.replicate 255 none ++ some ⟨256, 256⟩ :: List.replicate 256 none) ∧
      max 128 256 ≤ 255 + 1 ∧ log.scanned ≤ 2 * log.length := by
  have hlog : (Chronicle.of (hoard 513)).insertions =
      [] ++ some ⟨512, 512⟩ ::
        (List.replicate 255 none ++ some ⟨256, 256⟩ :: List.replicate 256 none) := by
    rw [(Hoarded.of 513).insertions]
    decide +kernel
  obtain ⟨hrare, hpaid⟩ := sweeps_rare_and_paid (hoard 513)
  exact ⟨hlog, hrare _ _ _ _ _ hlog, hpaid⟩

end CanonIR.CacheScript
