import CanonIR.Proofs.Taxonomy.Position

/-!
The settled node of a set of probes: all nodes on the way to it are in the set, no earlier sibling
of one of them is, and no child of the node is. There is one exactly if the set has a probe at the
top of the forest, and then it is where the descent ends that goes down at the first probe in the
set (`descend`).
-/

namespace CanonIR.Forest

/-- The node at a position is settled for the set `S` of probes. -/
structure Settled (S : Probe → Bool) (f : Forest) (a : List Nat) (n : ClassNode) : Prop where
  node : f.at? a = some n
  /-- The node and all its ancestors are in the set. -/
  mem : ∀ b m, b <+: a → f.at? b = some m → S m.probe = true
  /-- No earlier sibling of any of them is. -/
  earlier : ∀ b i j m, b ++ [i] <+: a → j < i → f.at? (b ++ [j]) = some m → S m.probe = false
  /-- No child of the node is. -/
  child : ∀ i m, f.at? (a ++ [i]) = some m → S m.probe = false

/-- No probe at the top of the forest is in the set. -/
def Misses (S : Probe → Bool) (f : Forest) : Prop :=
  ∀ i m, f.at? [i] = some m → S m.probe = false

/-- The last probe of a descent that goes down at the first probe in the set at each level. -/
def descend (S : Probe → Bool) (above : Option Probe) : Forest → Option Probe
  | empty => above
  | tree p children rest =>
    if S p then children.descend S (some p) else rest.descend S above

variable {S : Probe → Bool} {p : Probe} {c r f : Forest} {a a' : List Nat} {n n' : ClassNode}

/-! ## Settled nodes, tree by tree -/

theorem misses_tree : Misses S (tree p c r) ↔ S p = false ∧ Misses S r := by
  constructor
  · intro h
    exact ⟨h 0 ⟨p, c⟩ rfl, fun i m hm => h (i + 1) m (by rw [at?_succ, hm])⟩
  · rintro ⟨hp, hr⟩ (_ | i) m hm
    · rw [at?_zero, Option.some.injEq] at hm
      rw [← hm]
      exact hp
    · exact hr i m (at?_succ ▸ hm)

/-- The first tree is settled itself if its probe is in the set and no child's is. -/
theorem settled_zero (hp : S p = true) (hc : Misses S c) : Settled S (tree p c r) [0] ⟨p, c⟩ where
  node := rfl
  mem b m hb hm := by
    rcases List.prefix_cons_iff.mp hb with rfl | ⟨t, rfl, ht⟩
    · simp at hm
    · obtain rfl := List.prefix_nil.mp ht
      obtain rfl : (⟨p, c⟩ : ClassNode) = m := Option.some.inj hm
      exact hp
  earlier b i j m hb hj hm := by
    rcases List.prefix_cons_iff.mp hb with hb | ⟨t, hb, ht⟩
    · simp at hb
    · obtain rfl := List.prefix_nil.mp ht
      have hi : i = 0 := by
        cases b with
        | nil => simpa using hb
        | cons k b => simp at hb
      omega
  child i m hm := hc i m hm

/-- A node settled among the children of the first tree is settled, if the first probe is in the
set. -/
theorem Settled.below (hp : S p = true) (h : Settled S c a n) :
    Settled S (tree p c r) (0 :: a) n where
  node := at?_zero_cons_of_at? h.node
  mem b m hb hm := by
    rcases List.prefix_cons_iff.mp hb with rfl | ⟨t, rfl, ht⟩
    · simp at hm
    · by_cases ht0 : t = []
      · subst ht0
        obtain rfl : (⟨p, c⟩ : ClassNode) = m := Option.some.inj hm
        exact hp
      · rw [at?_zero_cons ht0] at hm
        exact h.mem t m ht hm
  earlier b i j m hb hj hm := by
    match b, hb, hm with
    | [], hb, _ =>
      have hi : i = 0 := (List.cons_prefix_cons.mp hb).1
      omega
    | k :: b, hb, hm =>
      obtain ⟨rfl, hb'⟩ := List.cons_prefix_cons.mp hb
      rw [List.cons_append, at?_zero_cons (by simp)] at hm
      exact h.earlier b i j m hb' hj hm
  child i m hm := by
    rw [List.cons_append, at?_zero_cons (by simp)] at hm
    exact h.child i m hm

/-- A node settled among the later trees is settled, if the first probe is not in the set. -/
theorem Settled.later {i : Nat} (hp : S p = false) (h : Settled S r (i :: a) n) :
    Settled S (tree p c r) ((i + 1) :: a) n where
  node := by rw [at?_succ, h.node]
  mem b m hb hm := by
    rcases List.prefix_cons_iff.mp hb with rfl | ⟨t, rfl, ht⟩
    · simp at hm
    · exact h.mem (i :: t) m (List.cons_prefix_cons.mpr ⟨rfl, ht⟩) (at?_succ ▸ hm)
  earlier b k j m hb hj hm := by
    match b, hb, hm with
    | [], hb, hm =>
      have hk : k = i + 1 := (List.cons_prefix_cons.mp hb).1
      match j, hm with
      | 0, hm =>
        obtain rfl : (⟨p, c⟩ : ClassNode) = m := Option.some.inj hm
        exact hp
      | j + 1, hm =>
        exact h.earlier [] i j m (List.cons_prefix_cons.mpr ⟨rfl, List.nil_prefix⟩) (by omega)
          (at?_succ ▸ hm)
    | k' :: b, hb, hm =>
      obtain ⟨rfl, hb'⟩ := List.cons_prefix_cons.mp hb
      rw [List.cons_append, at?_succ] at hm
      exact h.earlier (i :: b) k j m (List.cons_prefix_cons.mpr ⟨rfl, hb'⟩) hj hm
  child k m hm := by
    rw [List.cons_append, at?_succ] at hm
    exact h.child k m hm

/-! ## Existence -/

theorem descend_of_misses (above : Option Probe) (h : Misses S f) : f.descend S above = above := by
  induction f generalizing above with
  | empty => rfl
  | tree p c r _ ihr =>
    obtain ⟨hp, hr⟩ := misses_tree.mp h
    rw [descend, if_neg (by simp [hp]), ihr above hr]

/-- If a probe at the top is in the set, there is a settled node, and the descent ends there. -/
theorem exists_settled (above : Option Probe) (h : ¬ Misses S f) :
    ∃ a n, Settled S f a n ∧ f.descend S above = some n.probe := by
  induction f generalizing above with
  | empty => exact absurd (fun i m hm => by simp at hm) h
  | tree p c r ihc ihr =>
    rw [misses_tree, not_and, Bool.eq_false_iff, ne_eq] at h
    by_cases hp : S p = true
    · rw [descend, if_pos hp]
      by_cases hc : Misses S c
      · exact ⟨[0], ⟨p, c⟩, settled_zero hp hc, descend_of_misses (some p) hc⟩
      · obtain ⟨a, n, hs, hd⟩ := ihc (some p) hc
        exact ⟨0 :: a, n, hs.below hp, hd⟩
    · obtain ⟨a, n, hs, hd⟩ := ihr above (h hp)
      have ha : a ≠ [] := by
        intro heq
        subst heq
        simpa using hs.node
      obtain ⟨i, a, rfl⟩ := List.exists_cons_of_ne_nil ha
      rw [descend, if_neg hp]
      exact ⟨(i + 1) :: a, n, hs.later (by simpa using hp), hd⟩

/-! ## Uniqueness -/

/-- Two settled positions do not part: at the first index where they differ, the smaller one would
be an earlier sibling in the set. -/
theorem Settled.not_lt {b t t' : List Nat} {i j : Nat} (h : Settled S f (b ++ i :: t) n)
    (h' : Settled S f (b ++ j :: t') n') : ¬ j < i := by
  intro hj
  have hpre (k : Nat) (s : List Nat) : b ++ [k] <+: b ++ k :: s := ⟨s, by simp⟩
  have hsome : ∃ m, f.at? (b ++ [j]) = some m := exists_at?_of_prefix h'.node (hpre j t') (by simp)
  obtain ⟨m, hm⟩ := hsome
  have h1 := h.earlier b i j m (hpre i t) hj hm
  have h2 := h'.mem _ m (hpre j t') hm
  rw [h1] at h2
  exact Bool.false_ne_true h2

/-- A settled position does not go on from another one. -/
theorem Settled.not_append {t : List Nat} {i : Nat} (h : Settled S f a n)
    (h' : Settled S f (a ++ i :: t) n') : False := by
  have hpre : a ++ [i] <+: a ++ i :: t := ⟨t, by simp⟩
  obtain ⟨m, hm⟩ := exists_at?_of_prefix h'.node hpre (by simp)
  have h1 := h.child i m hm
  have h2 := h'.mem _ m hpre hm
  rw [h1] at h2
  exact Bool.false_ne_true h2

/-- Two lists are equal, or one goes on from the other, or they part. -/
theorem Settled.unique (h : Settled S f a n) (h' : Settled S f a' n') : a = a' ∧ n = n' := by
  have key : ∀ b t t', a = b ++ t → a' = b ++ t' → t = t' := by
    intro b t
    induction t generalizing b with
    | nil =>
      intro t' ha ha'
      cases t' with
      | nil => rfl
      | cons j t' =>
        rw [List.append_nil] at ha
        rw [ha] at h
        rw [ha'] at h'
        exact (h.not_append h').elim
    | cons i t ih =>
      intro t' ha ha'
      cases t' with
      | nil =>
        rw [List.append_nil] at ha'
        rw [ha] at h
        rw [ha'] at h'
        exact (h'.not_append h).elim
      | cons j t' =>
        have hij : i = j := by
          have h1 := (ha ▸ h).not_lt (ha' ▸ h')
          have h2 := (ha' ▸ h').not_lt (ha ▸ h)
          omega
        subst hij
        have ht := ih (b ++ [i]) t' (by simp [ha]) (by simp [ha'])
        rw [ht]
  have ha : a = a' := key [] a a' rfl rfl
  subst ha
  exact ⟨rfl, Option.some.inj (h.node.symm.trans h'.node)⟩

end CanonIR.Forest
