import CanonIR.Proofs.Cache.Weak

/-!
What sweeps cost, and what they leave. A cache is never larger than its threshold, which is no more
than twice the largest number of entries that were alive at the same time (`Bounded`). The log of
the insertions says what each of them swept; it accounts for every entry, so a sweep comes after as
many insertions as the threshold asks for, and all sweeps together have looked at no more than two
entries for each insertion (`Accounted`).
-/

namespace CanonIR

namespace Table

variable {κ α : Type}

theorem size_filter_le (t : Table κ α) (p : κ → α → Bool) : (t.filter p).size ≤ t.size :=
  List.length_filter_le _ _

variable [DecidableEq κ]

theorem size_erase_le (t : Table κ α) (k : κ) : (t.erase k).size ≤ t.size :=
  t.size_filter_le _

theorem size_insert_le (t : Table κ α) (k : κ) (a : α) : (t.insert k a).size ≤ t.size + 1 :=
  Nat.succ_le_succ (t.size_erase_le k)

end Table

/-- A sweep: how many entries it looks at, and how many of them it keeps. -/
structure Sweep where
  scanned : Nat
  survivors : Nat
  deriving DecidableEq

/-- Insertions into a cache, newest first: the sweep that each of them began with, if it did. -/
abbrev SweepLog := List (Option Sweep)

namespace SweepLog

/-- The survivors of the last sweep; before the first one there were none. -/
def survivors : SweepLog → Nat
  | [] => 0
  | some v :: _ => v.survivors
  | none :: log => survivors log

/-- The insertions from the one with the last sweep on; before the first sweep, all. -/
def since : SweepLog → Nat
  | [] => 0
  | some _ :: _ => 1
  | none :: log => since log + 1

/-- The entries that all sweeps together have looked at. -/
def scanned : SweepLog → Nat
  | [] => 0
  | some v :: log => v.scanned + scanned log
  | none :: log => scanned log

variable (m : Nat) (v : Sweep) (log : SweepLog)

theorem survivors_unswept : survivors (List.replicate m none ++ some v :: log) = v.survivors := by
  induction m with
  | zero => rfl
  | succ m ih => exact ih

theorem since_unswept : since (List.replicate m none ++ some v :: log) = m + 1 := by
  induction m with
  | zero => rfl
  | succ m ih => exact congrArg Nat.succ ih

end SweepLog

namespace WeakCache

variable {α : Type} {c : WeakCache α} {alive : α → Bool}

/-- The sweep that the next insertion begins with, if it does. -/
def sweep? (c : WeakCache α) (alive : α → Bool) : Option Sweep :=
  if c.sweepDue then some ⟨c.size, (c.sweep alive).size⟩ else none

/-- An insertion adds at most one entry to what it finds, or to what its sweep leaves. -/
theorem insert_cases (c : WeakCache α) (alive : α → Bool) (key : Nat) (a : α) :
    (c.size < c.sweepAt ∧ c.sweep? alive = none ∧ (c.insert alive key a).sweepAt = c.sweepAt ∧
      (c.insert alive key a).size ≤ c.size + 1) ∨
    (c.sweepAt ≤ c.size ∧ c.sweep? alive = some ⟨c.size, c.liveCount alive⟩ ∧
      (c.insert alive key a).sweepAt = max minSweepAt (2 * c.liveCount alive) ∧
      (c.insert alive key a).size ≤ c.liveCount alive + 1) := by
  by_cases hdue : c.sweepAt ≤ c.size
  · have hd : c.sweepDue = true := decide_eq_true hdue
    have hi : c.insert alive key a =
        { c.sweep alive with entries := (c.sweep alive).entries.insert key a } := by
      rw [insert, if_pos hd]
    refine Or.inr ⟨hdue, if_pos hd, ?_, ?_⟩
    · rw [hi]
      rfl
    · rw [hi]
      exact Table.size_insert_le _ key a
  · have hd : ¬ c.sweepDue = true := fun hd => hdue (of_decide_eq_true hd)
    have hi : c.insert alive key a = { c with entries := c.entries.insert key a } := by
      rw [insert, if_neg hd]
    refine Or.inl ⟨Nat.lt_of_not_le hdue, if_neg hd, ?_, ?_⟩
    · rw [hi]
    · rw [hi]
      exact Table.size_insert_le _ key a

/-! ## When nothing is dead -/

theorem liveCount_of_alive (h : ∀ e ∈ c.entries.entries, alive e.2 = true) :
    c.liveCount alive = c.size :=
  congrArg List.length (List.filter_eq_self.mpr h)

/-- No sweep takes anything away. -/
theorem entries_insert_of_alive {key : Nat} {a : α}
    (h : ∀ e ∈ c.entries.entries, e.1 ≠ key ∧ alive e.2 = true) :
    (c.insert alive key a).entries.entries = (key, a) :: c.entries.entries := by
  have hsweep : (c.sweep alive).entries.entries = c.entries.entries :=
    List.filter_eq_self.mpr fun e he => (h e he).2
  have herase {t : Table Nat α} (ht : t.entries = c.entries.entries) :
      (t.insert key a).entries = (key, a) :: c.entries.entries := by
    refine congrArg _ ((List.filter_eq_self.mpr fun e he => ?_).trans ht)
    exact bne_iff_ne.mpr (h e (ht ▸ he)).1
  unfold insert
  split
  · exact herase hsweep
  · exact herase rfl

/-! ## Size -/

/-- A cache of which at most `peak` entries were ever alive at the same time. -/
structure Bounded (peak : Nat) (c : WeakCache α) : Prop where
  size_le : c.size ≤ c.sweepAt
  le_sweepAt : minSweepAt ≤ c.sweepAt
  sweepAt_le : c.sweepAt ≤ max minSweepAt (2 * peak)

theorem bounded_empty : ({} : WeakCache α).Bounded 0 :=
  ⟨Nat.zero_le _, Nat.le_refl _, Nat.le_max_left _ _⟩

namespace Bounded

variable {peak peak' : Nat}

theorem mono (h : c.Bounded peak) (hp : peak ≤ peak') : c.Bounded peak' :=
  { h with sweepAt_le := by have := h.sweepAt_le; omega }

theorem insert (h : c.Bounded peak) (hp : c.liveCount alive ≤ peak) (key : Nat) (a : α) :
    (c.insert alive key a).Bounded peak := by
  have hpos : 0 < minSweepAt := by decide
  obtain ⟨-, hmin, hmax⟩ := h
  rcases c.insert_cases alive key a with ⟨hdue, -, hat, hsize⟩ | ⟨-, -, hat, hsize⟩
  · exact ⟨by omega, by omega, by omega⟩
  · exact ⟨by omega, by omega, by omega⟩

theorem forget (h : c.Bounded peak) (key : Nat) : (c.forget key).Bounded peak :=
  { h with size_le := Nat.le_trans (Table.size_erase_le _ key) h.size_le }

end Bounded

/-! ## Sweeps -/

/-- A cache whose insertions are in a log. -/
structure Accounted (log : SweepLog) (c : WeakCache α) : Prop where
  /-- An entry has survived the last sweep or was inserted since. -/
  size_le : c.size ≤ log.survivors + log.since
  sweepAt_eq : c.sweepAt = max minSweepAt (2 * log.survivors)
  /-- When a sweep was made, the entries before it had reached the threshold. -/
  spaced : ∀ w l, some w :: l <:+ log →
    max minSweepAt (2 * SweepLog.survivors l) ≤ SweepLog.survivors l + SweepLog.since l
  /-- The insertions before the last sweep have paid for all sweeps, with two entries each. -/
  paid : log.scanned + 2 * log.since ≤ 2 * log.length

theorem accounted_empty : ({} : WeakCache α).Accounted [] where
  size_le := Nat.le_refl 0
  sweepAt_eq := rfl
  spaced _ _ h := nomatch List.suffix_nil.mp h
  paid := Nat.le_refl 0

namespace Accounted

variable {log : SweepLog}

/-- The survivors of a sweep are outnumbered by the insertions up to the next one, so these pay for
the next one. -/
theorem insert (h : c.Accounted log) (key : Nat) (a : α) :
    (c.insert alive key a).Accounted (c.sweep? alive :: log) := by
  obtain ⟨hle, heq, hspaced, hpaid⟩ := h
  rcases c.insert_cases alive key a with ⟨-, hv, hat, hsize⟩ | ⟨hdue, hv, hat, hsize⟩
  · rw [hv]
    refine ⟨?_, hat.trans heq, fun w l hl => ?_, ?_⟩
    · simp only [SweepLog.survivors, SweepLog.since]
      omega
    · rcases List.suffix_cons_iff.mp hl with hl | hl
      · exact nomatch hl
      · exact hspaced w l hl
    · rw [SweepLog.scanned, SweepLog.since, List.length_cons]
      omega
  · rw [hv]
    refine ⟨hsize, hat, fun w l hl => ?_, ?_⟩
    · rcases List.suffix_cons_iff.mp hl with hl | hl
      · obtain ⟨-, rfl⟩ := List.cons.inj hl
        omega
      · exact hspaced w l hl
    · rw [SweepLog.scanned, SweepLog.since, List.length_cons]
      dsimp only
      omega

theorem forget (h : c.Accounted log) (key : Nat) : (c.forget key).Accounted log :=
  { h with size_le := Nat.le_trans (Table.size_erase_le _ key) h.size_le }

end Accounted

end WeakCache

end CanonIR
