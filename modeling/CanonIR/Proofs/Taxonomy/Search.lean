import Mathlib.Order.Defs.LinearOrder
import Mathlib.Data.List.Lex
import CanonIR.Proofs.Taxonomy.Position

/-!
The two searches in a forest select the same node. Positions are ordered as lists: a position comes
before those below it, and before those at later siblings, which is the order of a preorder walk.
Whatever probes repeat, `find?` gives the first node in this order that has the probe, and
`parentIn?` names the parent of that very node (`find?_parentIn?_first`).
-/

namespace CanonIR.Forest

/-- The node at a position is the first in preorder with a probe. -/
structure First (target : Probe) (f : Forest) (a : List Nat) (n : ClassNode) : Prop where
  node : f.at? a = some n
  probe : n.probe = target
  earlier : ∀ b m, f.at? b = some m → b < a → m.probe ≠ target

/-- No node has the probe. -/
def Lacks (target : Probe) (f : Forest) : Prop :=
  ∀ a n, f.at? a = some n → n.probe ≠ target

/-- The name of the parent of the node at a position: of the node one level up, or `above` at the
top of the forest. -/
def parentAt {α : Type} (label : Probe → α) (above : α) (f : Forest) (a : List Nat) : α :=
  (f.at? a.dropLast).elim above fun m => label m.probe

variable {p target : Probe} {c r f : Forest} {a a' : List Nat} {n n' : ClassNode} {i : Nat}

theorem ne_nil_of_at? (h : f.at? a = some n) : a ≠ [] := by
  intro heq
  subst heq
  simp at h

/-! ## The first node, tree by tree -/

theorem first_zero : First p (tree p c r) [0] ⟨p, c⟩ where
  node := rfl
  probe := rfl
  earlier b m hm hb := by
    obtain ⟨i, b, rfl⟩ := List.exists_cons_of_ne_nil (ne_nil_of_at? hm)
    rcases List.cons_lt_cons_iff.mp hb with hi | ⟨-, hb⟩
    · exact absurd hi (Nat.not_lt_zero i)
    · exact absurd hb (List.not_lt_nil b)

/-- The first node below the first tree comes before all nodes of the later trees. -/
theorem First.below (hp : p ≠ target) (h : First target c a n) :
    First target (tree p c r) (0 :: a) n where
  node := at?_zero_cons_of_at? h.node
  probe := h.probe
  earlier b m hm hb := by
    rcases at?_tree_cases hm with ⟨-, rfl⟩ | ⟨b, rfl, hc⟩ | ⟨i, b, rfl, -⟩
    · exact hp
    · rcases List.cons_lt_cons_iff.mp hb with h0 | ⟨-, hb⟩
      · exact absurd h0 (Nat.lt_irrefl 0)
      · exact h.earlier b m hc hb
    · rcases List.cons_lt_cons_iff.mp hb with h0 | ⟨h0, -⟩
      · exact absurd h0 (Nat.not_lt_zero _)
      · exact absurd h0 (Nat.succ_ne_zero i)

theorem First.later (hp : p ≠ target) (hc : Lacks target c) (h : First target r (i :: a) n) :
    First target (tree p c r) ((i + 1) :: a) n where
  node := at?_succ.trans h.node
  probe := h.probe
  earlier b m hm hb := by
    rcases at?_tree_cases hm with ⟨-, rfl⟩ | ⟨b, rfl, hb'⟩ | ⟨j, b, rfl, hr⟩
    · exact hp
    · exact hc b m hb'
    · refine h.earlier (j :: b) m hr (List.cons_lt_cons_iff.mpr ?_)
      rcases List.cons_lt_cons_iff.mp hb with hj | ⟨hj, hb⟩
      · exact Or.inl (Nat.lt_of_succ_lt_succ hj)
      · exact Or.inr ⟨Nat.succ.inj hj, hb⟩

theorem lacks_tree (hp : p ≠ target) (hc : Lacks target c) (hr : Lacks target r) :
    Lacks target (tree p c r) := by
  intro b m hm
  rcases at?_tree_cases hm with ⟨-, rfl⟩ | ⟨b, -, hm⟩ | ⟨i, b, -, hm⟩
  · exact hp
  · exact hc b m hm
  · exact hr (i :: b) m hm

/-- There is at most one first node. -/
theorem First.unique (h : First target f a n) (h' : First target f a' n') : a = a' ∧ n = n' := by
  have ha : a = a' := by
    rcases lt_trichotomy a a' with hlt | heq | hlt
    · exact absurd h.probe (h'.earlier a n h.node hlt)
    · exact heq
    · exact absurd h'.probe (h.earlier a' n' h'.node hlt)
  subst ha
  exact ⟨rfl, Option.some.inj (h.node.symm.trans h'.node)⟩

/-! ## Both searches -/

section Searches

variable {α : Type} (label : Probe → α)

/-- Below the first tree, the nodes at the top are its children. -/
theorem parentAt_below (above : α) (h : c.at? a = some n) :
    (tree p c r).parentAt label above (0 :: a) = c.parentAt label (label p) a := by
  obtain ⟨i, t, rfl⟩ := List.exists_cons_of_ne_nil (ne_nil_of_at? h)
  cases t with
  | nil =>
    rw [parentAt, parentAt, List.dropLast_cons_cons, List.dropLast_singleton, at?_zero, at?_nil]
    rfl
  | cons j t =>
    have hpre : i :: (j :: t).dropLast <+: i :: j :: t :=
      List.cons_prefix_cons.mpr ⟨rfl, List.dropLast_prefix _⟩
    obtain ⟨m, hm⟩ := exists_at?_of_prefix h hpre (List.cons_ne_nil _ _)
    have hup : (tree p c r).at? (0 :: i :: (j :: t).dropLast) = some m := at?_zero_cons_of_at? hm
    rw [parentAt, parentAt, List.dropLast_cons_cons, List.dropLast_cons_cons, hup, hm]
    rfl

theorem parentAt_later (above : α) :
    (tree p c r).parentAt label above ((i + 1) :: a) = r.parentAt label above (i :: a) := by
  cases a with
  | nil =>
    rw [parentAt, parentAt, List.dropLast_singleton, List.dropLast_singleton, at?_nil, at?_nil]
  | cons j a =>
    rw [parentAt, parentAt, List.dropLast_cons_cons, List.dropLast_cons_cons, at?_succ]

/-- Both searches stop at the first node with the probe, or find nothing because there is none. -/
theorem searches_cases (target : Probe) (above : α) (f : Forest) :
    (∃ a n, First target f a n ∧ f.find? target = some n ∧
      f.parentIn? label target above = some (f.parentAt label above a)) ∨
    (Lacks target f ∧ f.find? target = none ∧ f.parentIn? label target above = none) := by
  induction f generalizing above with
  | empty => exact Or.inr ⟨nofun, rfl, rfl⟩
  | tree p c r ihc ihr =>
    rw [find?, parentIn?]
    by_cases hp : p = target
    · subst hp
      exact Or.inl ⟨[0], ⟨p, c⟩, first_zero, if_pos rfl, if_pos rfl⟩
    · rw [if_neg hp, if_neg hp]
      rcases ihc (label p) with ⟨a, n, hn, hfind, hparent⟩ | ⟨hc, hfind, hparent⟩
      · rw [hfind, hparent, ← parentAt_below label above hn.node]
        exact Or.inl ⟨0 :: a, n, hn.below hp, rfl, rfl⟩
      · rw [hfind, hparent, Option.none_or, Option.none_or]
        rcases ihr above with ⟨a, n, hn, hfind, hparent⟩ | ⟨hr, hfind, hparent⟩
        · obtain ⟨i, a, rfl⟩ := List.exists_cons_of_ne_nil (ne_nil_of_at? hn.node)
          rw [← parentAt_later] at hparent
          exact Or.inl ⟨(i + 1) :: a, n, hn.later hp hc, hfind, hparent⟩
        · exact Or.inr ⟨lacks_tree hp hc hr, hfind, hparent⟩

/-- In every forest, `find?` gives the first node in preorder with a probe, if there is one, and
`parentIn?` the parent of the same node. -/
theorem find?_parentIn?_first (target : Probe) (above : α) (f : Forest) :
    (∀ n, f.find? target = some n ↔ ∃ a, First target f a n) ∧
      (f.find? target = none ↔ Lacks target f) ∧
      (f.parentIn? label target above = none ↔ f.find? target = none) ∧
      ∀ a n, First target f a n →
        f.parentIn? label target above = some (f.parentAt label above a) := by
  rcases searches_cases label target above f with ⟨a, n, hn, hfind, hparent⟩ | ⟨hf, hfind, hparent⟩
  · rw [hfind, hparent]
    refine ⟨fun m => ⟨?_, ?_⟩, ?_, ?_, ?_⟩
    · rintro ⟨⟩
      exact ⟨a, hn⟩
    · rintro ⟨b, hm⟩
      rw [(hn.unique hm).2]
    · exact ⟨nofun, fun hf => absurd hn.probe (hf a n hn.node)⟩
    · exact ⟨nofun, nofun⟩
    · intro b m hm
      rw [(hn.unique hm).1]
  · rw [hfind, hparent]
    refine ⟨fun n => ⟨nofun, ?_⟩, ⟨fun _ => hf, fun _ => rfl⟩, ⟨fun _ => rfl, fun _ => rfl⟩, ?_⟩
    · rintro ⟨a, hn⟩
      exact absurd hn.probe (hf a n hn.node)
    · intro a n hn
      exact absurd hn.probe (hf a n hn.node)

end Searches

/-- A forest in which one probe stands three times: below the second tree, at its side, and at the
top. -/
def repeated : Forest :=
  tree .argument empty <|
  tree .user (tree .constant (leaves [.function, .undefValue]) <| leaves [.undefValue]) <|
  leaves [.undefValue]

theorem find?_parentIn?_first_repeated :
    First .undefValue repeated [1, 0, 1] ⟨.undefValue, empty⟩ ∧
      repeated.parentIn? ValueKind.ofClass .undefValue .value = some (.ofClass .constant) := by
  have hempty : Lacks .undefValue empty := nofun
  have hn : First .undefValue repeated [1, 0, 1] ⟨.undefValue, empty⟩ :=
    (((first_zero.later (by decide) hempty).below (by decide)).below (by decide)).later
      (by decide) hempty
  exact ⟨hn, (find?_parentIn?_first ValueKind.ofClass .undefValue .value repeated).2.2.2 _ _ hn⟩

end CanonIR.Forest
