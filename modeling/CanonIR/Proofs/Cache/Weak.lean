import CanonIR.Cache.Weak
import CanonIR.Proofs.Table

/-!
What insertions, sweeps and forgetting do to the entries of a weak cache, and to what look-ups see.
-/

namespace CanonIR

namespace WeakCache

variable {α : Type} {c : WeakCache α} {alive : α → Bool} {key k : Nat} {a b : α}

theorem get?_of_get?_insert (h : (c.insert alive key b).entries.get? k = some a) :
    (k = key ∧ a = b) ∨ (k ≠ key ∧ c.entries.get? k = some a) := by
  unfold insert at h
  split at h
  · rcases Table.get?_of_get?_insert h with h | ⟨hk, h⟩
    · exact Or.inl h
    · exact Or.inr ⟨hk, (Table.get?_of_get?_filter h).1⟩
  · exact Table.get?_of_get?_insert h

theorem get?_of_get?_forget (h : (c.forget key).entries.get? k = some a) :
    k ≠ key ∧ c.entries.get? k = some a :=
  Table.get?_of_get?_erase h

theorem get?_insert_self : (c.insert alive key b).entries.get? key = some b := by
  unfold insert
  rw [Table.get?_insert, if_pos rfl]

/-- An insertion sweeps no living entry out. -/
theorem get?_insert_of_alive (hk : k ≠ key) (h : c.entries.get? k = some a)
    (ha : alive a = true) : (c.insert alive key b).entries.get? k = some a := by
  unfold insert
  rw [Table.get?_insert, if_neg hk]
  split
  · rw [sweep, Table.get?_filter, h, Option.filter_some_pos ha]
  · exact h

/-- What look-ups see after an insertion and some deaths: the sweep took nothing that still lives. -/
theorem lookup_insert_of_le {alive' : α → Bool}
    (h : ∀ k a, c.entries.get? k = some a → alive' a = true → alive a = true) :
    (c.insert alive key b).lookup alive' k =
      if k = key then (some b).filter alive' else c.lookup alive' k := by
  have hsweep : (c.sweep alive).lookup alive' k = c.lookup alive' k := by
    simp only [lookup, sweep, Table.get?_filter, Option.filter_filter]
    ext a
    simp only [Option.filter_eq_some_iff, Bool.and_eq_true]
    constructor
    · intro ha
      exact ⟨ha.1, ha.2.2⟩
    · intro ha
      exact ⟨ha.1, h k a ha.1 ha.2, ha.2⟩
  have hput (d : WeakCache α) : ((d.entries.insert key b).get? k).filter alive' =
      if k = key then (some b).filter alive' else d.lookup alive' k := by
    rw [Table.get?_insert]
    split <;> rfl
  unfold insert
  split
  · rw [← hsweep]
    exact hput _
  · exact hput _

/-- The number of living entries is the size of what look-ups see. -/
theorem liveCount_eq_of_lookup {t : Table Nat α}
    (h : ∀ k, c.lookup alive k = (t.get? k).filter alive) :
    c.liveCount alive = (t.filter fun _ a => alive a).size := by
  refine Table.size_eq_of_isSome_get? fun k => ?_
  rw [Table.get?_filter, Table.get?_filter]
  exact congrArg Option.isSome (h k)

end WeakCache

end CanonIR
