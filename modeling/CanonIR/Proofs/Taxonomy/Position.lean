import CanonIR.Kind.Value

/-!
Positions in a forest. A position lists the index of a tree, then the index of a child at each level
below; the positions on the way to a node are the prefixes of its own. Parents and ancestors, which
searches by probe find, are the nodes at these prefixes as long as no probe repeats
(`parentIn?_at?`); so every class that a class of the hierarchy is stands on the way to it (`isA_at?`).
-/

namespace CanonIR.Forest

/-! ## Positions -/

/-- The node at a position; the empty position has none. -/
def at? : Forest → List Nat → Option ClassNode
  | empty, _ => none
  | tree _ _ _, [] => none
  | tree p children _, [0] => some ⟨p, children⟩
  | tree _ children _, 0 :: i :: a => children.at? (i :: a)
  | tree _ _ rest, (i + 1) :: a => rest.at? (i :: a)

/-- The probes of all nodes, in preorder. -/
def probes : Forest → List Probe
  | empty => []
  | tree p children rest => p :: (children.probes ++ rest.probes)

variable {p q : Probe} {c r f : Forest} {a b : List Nat} {n m : ClassNode} {i j : Nat}

@[simp] theorem at?_nil (f : Forest) : f.at? [] = none := by
  cases f <;> rfl

@[simp] theorem at?_empty (a : List Nat) : empty.at? a = none := rfl

@[simp] theorem at?_zero : (tree p c r).at? [0] = some ⟨p, c⟩ := rfl

theorem at?_zero_cons (h : a ≠ []) : (tree p c r).at? (0 :: a) = c.at? a := by
  cases a with
  | nil => exact absurd rfl h
  | cons i a => rfl

@[simp] theorem at?_succ : (tree p c r).at? ((i + 1) :: a) = r.at? (i :: a) := by
  cases a <;> rfl

/-- Below the first tree, positions are those of its children. -/
theorem at?_zero_cons_of_at? (h : c.at? a = some n) : (tree p c r).at? (0 :: a) = some n := by
  have ha : a ≠ [] := by
    intro heq
    subst heq
    simp at h
  rw [at?_zero_cons ha, h]

theorem probe_mem_of_at? (h : f.at? a = some n) : n.probe ∈ f.probes := by
  induction f generalizing a with
  | empty => simp at h
  | tree p c r ihc ihr =>
    rw [probes, List.mem_cons, List.mem_append]
    match a, h with
    | [0], h =>
      have hn : n = ⟨p, c⟩ := (Option.some.inj h).symm
      exact Or.inl (by rw [hn])
    | 0 :: i :: a, h => exact Or.inr (Or.inl (ihc h))
    | (i + 1) :: a, h => exact Or.inr (Or.inr (ihr (at?_succ ▸ h)))

theorem exists_at?_of_mem_probes (h : p ∈ f.probes) : ∃ a n, f.at? a = some n ∧ n.probe = p := by
  induction f with
  | empty => simp [probes] at h
  | tree q c r ihc ihr =>
    rw [probes, List.mem_cons, List.mem_append] at h
    rcases h with rfl | hc | hr
    · exact ⟨[0], ⟨p, c⟩, rfl, rfl⟩
    · obtain ⟨a, n, ha, hn⟩ := ihc hc
      exact ⟨0 :: a, n, at?_zero_cons_of_at? ha, hn⟩
    · obtain ⟨a, n, ha, hn⟩ := ihr hr
      obtain ⟨i, a, rfl⟩ := List.exists_cons_of_ne_nil (l := a) (by rintro rfl; simp at ha)
      exact ⟨(i + 1) :: a, n, at?_succ.trans ha, hn⟩

/-- A position is the first tree itself, below it, or among the later trees. -/
theorem at?_tree_cases (h : (tree p c r).at? a = some n) :
    (a = [0] ∧ n = ⟨p, c⟩) ∨ (∃ a', a = 0 :: a' ∧ c.at? a' = some n) ∨
      ∃ i a', a = (i + 1) :: a' ∧ r.at? (i :: a') = some n := by
  match a, h with
  | [0], h => exact Or.inl ⟨rfl, (Option.some.inj h).symm⟩
  | 0 :: i :: a, h => exact Or.inr (Or.inl ⟨i :: a, rfl, h⟩)
  | (i + 1) :: a, h => exact Or.inr (Or.inr ⟨i, a, rfl, at?_succ ▸ h⟩)

/-- Every position on the way to a node has a node. -/
theorem exists_at?_of_prefix (h : f.at? a = some n) (hb : b <+: a) (hne : b ≠ []) :
    ∃ m, f.at? b = some m := by
  induction f generalizing a b with
  | empty => simp at h
  | tree p c r ihc ihr =>
    match b, hb with
    | 0 :: [], _ => exact ⟨⟨p, c⟩, rfl⟩
    | 0 :: k :: b, hb =>
      obtain ⟨t, rfl⟩ := hb
      exact ihc (b := k :: b) h ⟨t, rfl⟩ (by simp)
    | (k + 1) :: b, hb =>
      obtain ⟨t, rfl⟩ := hb
      rw [List.cons_append, at?_succ] at h
      rw [at?_succ]
      exact ihr (b := k :: b) h ⟨t, rfl⟩ (by simp)

/-! ## Parents -/

section Parents

variable {α : Type} (label : Probe → α)

theorem parentIn?_of_notMem (above : α) (h : p ∉ f.probes) :
    f.parentIn? label p above = none := by
  induction f generalizing above with
  | empty => rfl
  | tree q c r ihc ihr =>
    simp only [probes, List.mem_cons, List.mem_append, not_or] at h
    obtain ⟨hq, hc, hr⟩ := h
    rw [parentIn?, if_neg (Ne.symm hq), ihc _ hc, ihr _ hr]
    rfl

/-- In a forest without repeated probes, the parent that the search finds for the node at a position
is the node one level up. -/
theorem parentIn?_at? (above : α) (hd : f.probes.Nodup) (h : f.at? (b ++ [i]) = some n) :
    (b = [] ∧ f.parentIn? label n.probe above = some above) ∨
      ∃ m, f.at? b = some m ∧ f.parentIn? label n.probe above = some (label m.probe) := by
  induction f generalizing b i above with
  | empty => simp at h
  | tree p c r ihc ihr =>
    simp only [probes, List.nodup_cons, List.mem_append, not_or, List.nodup_append] at hd
    obtain ⟨⟨hpc, hpr⟩, hc, hr, hcr⟩ := hd
    -- The node at a later tree is not below the first one.
    have later {k : Nat} {b : List Nat} (h : r.at? (k :: b) = some n) :
        (tree p c r).parentIn? label n.probe above = r.parentIn? label n.probe above := by
      have hn := probe_mem_of_at? h
      have hp : p ≠ n.probe := fun e => hpr (e ▸ hn)
      have hnc : n.probe ∉ c.probes := fun e => hcr _ e _ hn rfl
      rw [parentIn?, if_neg hp, parentIn?_of_notMem label _ hnc, Option.none_or]
    match b, h with
    | [], h =>
      left
      refine ⟨rfl, ?_⟩
      match i, h with
      | 0, h =>
        obtain rfl : (⟨p, c⟩ : ClassNode) = n := Option.some.inj h
        rw [parentIn?, if_pos rfl]
      | i + 1, h =>
        have h' : r.at? [i] = some n := at?_succ ▸ h
        rw [later h']
        rcases ihr above hr (b := []) h' with h1 | ⟨m, hm, _⟩
        · exact h1.2
        · simp at hm
    | 0 :: b, h =>
      right
      rw [List.cons_append, at?_zero_cons (by simp)] at h
      have hp : p ≠ n.probe := fun e => hpc (e ▸ probe_mem_of_at? h)
      rcases ihc (label p) hc h with ⟨rfl, h1⟩ | ⟨m, hm, h1⟩
      · exact ⟨⟨p, c⟩, rfl, by rw [parentIn?, if_neg hp, h1, Option.some_or]⟩
      · exact ⟨m, at?_zero_cons_of_at? hm, by rw [parentIn?, if_neg hp, h1, Option.some_or]⟩
    | (k + 1) :: b, h =>
      right
      rw [List.cons_append, at?_succ] at h
      rw [later h, at?_succ]
      rcases ihr above hr (b := k :: b) h with ⟨h1, _⟩ | h1
      · simp at h1
      · exact h1

end Parents

end CanonIR.Forest

namespace CanonIR.ValueKind

open Forest

theorem nodup_probes_taxonomy : taxonomy.probes.Nodup := by decide +kernel

/-- The classes above the class at a position are at the prefixes of the position. -/
theorem mem_ancestorsUpTo_at? {limit : Nat} {a : List Nat} {n : ClassNode} {q : Probe}
    (h : taxonomy.at? a = some n) (hq : ofClass q ∈ ancestorsUpTo limit (ofClass n.probe)) :
    ∃ b m, b <+: a ∧ taxonomy.at? b = some m ∧ m.probe = q := by
  induction limit generalizing a n with
  | zero => simp [ancestorsUpTo] at hq
  | succ limit ih =>
    have ha : a ≠ [] := by
      intro heq
      subst heq
      simp at h
    obtain ⟨b, i, rfl⟩ : ∃ b i, a = b ++ [i] :=
      ⟨a.dropLast, a.getLast ha, (List.dropLast_concat_getLast ha).symm⟩
    rcases parentIn?_at? ofClass value nodup_probes_taxonomy h with ⟨_, hp⟩ | ⟨m, hm, hp⟩
    · have hv : ancestorsUpTo limit value = [] := by cases limit <;> rfl
      simp [ancestorsUpTo, parent?, hp, hv] at hq
    · simp only [ancestorsUpTo, parent?, hp, List.mem_cons, ofClass.injEq] at hq
      rcases hq with rfl | hq
      · exact ⟨b, m, List.prefix_append b [i], hm, rfl⟩
      · obtain ⟨b', m', hb, hm', hq'⟩ := ih hm hq
        exact ⟨b', m', hb.trans (List.prefix_append b [i]), hm', hq'⟩

/-- What the class at a position is lies at a prefix of the position. -/
theorem isA_at? {a : List Nat} {n : ClassNode} {q : Probe} (h : taxonomy.at? a = some n)
    (hq : (ofClass n.probe).isA (ofClass q) = true) :
    ∃ b m, b <+: a ∧ taxonomy.at? b = some m ∧ m.probe = q := by
  rw [isA, Bool.or_eq_true, beq_iff_eq, List.contains_iff_mem] at hq
  rcases hq with hq | hq
  · exact ⟨a, n, List.prefix_refl a, h, ofClass.inj hq⟩
  · exact mem_ancestorsUpTo_at? h hq

/-- Classes have fewer ancestors than the hierarchy has levels, so the bound cuts nothing off. -/
theorem ancestors_constExpr (k : ConstExprKind) :
    (constExpr k).ancestors = ofClass .constantExpr :: (ofClass .constantExpr).ancestors := rfl

theorem isA_constantExpr_of_isA_constExpr {k : ConstExprKind} {q : Probe}
    (h : (constExpr k).isA (ofClass q) = true) : (ofClass .constantExpr).isA (ofClass q) = true := by
  rw [isA, ancestors_constExpr, Bool.or_eq_true, beq_iff_eq, List.contains_cons, Bool.or_eq_true,
    beq_iff_eq] at h
  rw [isA, Bool.or_eq_true, beq_iff_eq]
  rcases h with h | h | h
  · cases h
  · exact Or.inl h.symm
  · exact Or.inr h

end CanonIR.ValueKind
