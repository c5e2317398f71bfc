import CanonIR.Proofs.Memory.Consistent

/-!
Layouts as chains, and moves of blocks in them. A step from a block goes to the one that stands next
to it at a side; which one that is can be read off the layout in the order of the steps
(`Placed.neighbour_of_along`), and steps to the one side and to the other undo each other.

A block is moved by taking it out of the layout of its function and putting it back at a side of
another block of it. The list that comes out is known exactly (`Placed.moveBlock_place`): where the
block went does not depend on where it was, so a move can be repeated without effect, and taken back
by a move to a neighbour that the block had (`Side.place`).
-/

namespace CanonIR.Memory

/-- The sides of a block in a layout. -/
inductive Side where
  | before
  | behind
  deriving DecidableEq

namespace Side

/-- How far behind the place of an element its side is. -/
def offset : Side → Nat
  | before => 0
  | behind => 1

def opposite : Side → Side
  | before => behind
  | behind => before

/-- A list in which `b` stands at the side of `p`, between `pre` and `post`. -/
def place {α : Type} : Side → List α → α → α → List α → List α
  | before, pre, b, p, post => pre ++ b :: p :: post
  | behind, pre, b, p, post => pre ++ p :: b :: post

variable {α : Type} {side : Side} {pre post : List α} {b p : α}

/-- If one element stands at a side of another, the other stands at the opposite side of it. -/
theorem place_opposite (side : Side) (pre : List α) (b p : α) (post : List α) :
    side.opposite.place pre p b post = side.place pre b p post := by
  cases side <;> rfl

/-- The element is put into a list at some point, and nothing else happens. -/
theorem exists_cut (side : Side) (pre : List α) (b p : α) (post : List α) :
    ∃ xs ys, pre ++ p :: post = xs ++ ys ∧ side.place pre b p post = xs ++ b :: ys ∧
      xs.length = pre.length + side.offset := by
  cases side with
  | before => exact ⟨pre, p :: post, rfl, rfl, rfl⟩
  | behind =>
    refine ⟨pre ++ [p], post, List.append_cons pre p post, ?_, ?_⟩
    · exact List.append_cons pre p (b :: post)
    · exact List.length_append

theorem place_perm (side : Side) (pre : List α) (b p : α) (post : List α) :
    (side.place pre b p post).Perm (b :: (pre ++ p :: post)) := by
  obtain ⟨xs, ys, hr, hl, -⟩ := side.exists_cut pre b p post
  rw [hr, hl]
  exact List.perm_middle

theorem insertIdx_eq_place (side : Side) (pre : List α) (b p : α) (post : List α) :
    (pre ++ p :: post).insertIdx (pre.length + side.offset) b = side.place pre b p post := by
  obtain ⟨xs, ys, hr, hl, hlen⟩ := side.exists_cut pre b p post
  rw [hr, hl, ← hlen]
  clear hr hl hlen
  induction xs with
  | nil => rfl
  | cons x xs ih => exact congrArg (x :: ·) ih

/-- Whoever stood around the taken element stands side by side now, unless the element has come
back between them. -/
theorem place_closes {l xs ys : List α} {x y : α} (hl : l = xs ++ x :: b :: y :: ys)
    (hrest : xs ++ x :: y :: ys = pre ++ p :: post) :
    side.place pre b p post = l ∨ [x, y] <:+: side.place pre b p post := by
  obtain ⟨s, t, hr, hplace, -⟩ := side.exists_cut pre b p post
  rw [hplace, hl]
  rw [hr] at hrest
  -- The two neighbours are behind the cut, around it, or in front of it.
  rcases List.append_eq_append_iff.mp hrest with ⟨a, rfl, ha⟩ | ⟨a, rfl, rfl⟩
  · rcases a with _ | ⟨z, _ | ⟨z', a⟩⟩
    · obtain rfl : x :: y :: ys = t := ha
      exact Or.inr ⟨xs ++ [] ++ [b], ys, by simp⟩
    · obtain ⟨rfl, rfl⟩ : x = z ∧ y :: ys = t := List.cons.inj ha
      exact Or.inl (by simp)
    · obtain ⟨rfl, hy⟩ : x = z ∧ y :: ys = z' :: (a ++ t) := List.cons.inj ha
      obtain ⟨rfl, rfl⟩ : y = z' ∧ ys = a ++ t := List.cons.inj hy
      exact Or.inr ⟨xs, a ++ b :: t, by simp⟩
  · exact Or.inr ⟨s ++ b :: a, ys, by simp⟩

section Taken

variable [DecidableEq α]

theorem filter_place (hl : (side.place pre b p post).Nodup) :
    (side.place pre b p post).filter (· != b) = pre ++ p :: post := by
  obtain ⟨hb, -⟩ := List.nodup_cons.mp ((side.place_perm pre b p post).nodup_iff.mp hl)
  obtain ⟨xs, ys, hr, hplace, -⟩ := side.exists_cut pre b p post
  rw [hr] at hb
  rw [hr, hplace, List.filter_append, List.filter_cons_of_neg (by simp), ← List.filter_append,
    List.filter_eq_self]
  intro a ha
  have hne : a ≠ b := fun heq => hb (heq ▸ ha)
  simpa using hne

/-- Wherever an element is put into a list, the others keep their order. -/
theorem filter_insertIdx (l : List α) (i : Nat) (b : α) :
    (l.insertIdx i b).filter (· != b) = l.filter (· != b) := by
  induction l generalizing i with
  | nil => cases i <;> simp
  | cons a l ih => cases i <;> simp [List.filter_cons, ih]

/-- Putting an element back into a list without repetitions permutes the list. -/
theorem place_perm_of_filter {l : List α} (hl : l.Nodup) (hb : b ∈ l)
    (hrest : l.filter (· != b) = pre ++ p :: post) : (side.place pre b p post).Perm l := by
  refine (side.place_perm pre b p post).trans ?_
  rw [← hrest, ← hl.erase_eq_filter]
  exact (List.perm_cons_erase hb).symm

end Taken

/-! ## Steps -/

/-- The neighbour of a block at the side opposite to the one where it was put. -/
def neighbour (side : Side) (g : Graph) (b : BlockRef) : BlockRef :=
  match side with
  | before => g.nextBlock b
  | behind => g.previousBlock b

/-- The elements of a list in the order in which steps pass them. -/
def along {α : Type} : Side → List α → List α
  | before, l => l
  | behind, l => l.reverse

theorem opposite_opposite (side : Side) : side.opposite.opposite = side := by
  cases side <;> rfl

theorem along_opposite (side : Side) (l : List α) :
    side.opposite.along l = (side.along l).reverse := by
  cases side with
  | before => rfl
  | behind => exact l.reverse_reverse.symm

theorem along_perm (side : Side) (l : List α) : (side.along l).Perm l := by
  cases side with
  | before => exact List.Perm.refl l
  | behind => exact l.reverse_perm

theorem along_place (side : Side) (pre : List α) (b p : α) (post : List α) :
    ∃ xs ys, side.along (side.place pre b p post) = xs ++ b :: p :: ys := by
  cases side with
  | before => exact ⟨pre, post, rfl⟩
  | behind => exact ⟨post.reverse, pre.reverse, by simp [along, place]⟩

end Side

namespace Graph

variable {g : Graph} {f : ValueRef} {b p : BlockRef}

theorem layout_insert (g : Graph) (f : ValueRef) (l : List BlockRef) (f' : ValueRef) :
    layout { g with layouts := g.layouts.insert f l } f' = if f' = f then l else g.layout f' := by
  rw [layout, Table.get?_insert]
  split <;> rfl

theorem Placed.blockPosition?_of_split (h : g.Placed) {pre post : List BlockRef}
    (hl : g.layout f = pre ++ b :: post) : g.blockPosition? b = some (f, pre.length) := by
  obtain ⟨e, he, hf⟩ := h.layout_home f b (hl ▸ List.mem_append_right pre List.mem_cons_self)
  refine blockPosition?_eq_some_iff.mpr ⟨e, he, hf, ?_⟩
  have hnodup := h.layout_nodup f
  rw [hl] at hnodup ⊢
  exact idxOf?_append_cons hnodup

/-- The neighbour of a block is the next one in the order of the steps; behind the last one there is
none. -/
theorem Placed.neighbour_of_along (h : g.Placed) {side : Side} {pre post : List BlockRef}
    (hl : side.along (g.layout f) = pre ++ b :: post) : side.neighbour g b = post.headD .null := by
  cases side with
  | before =>
    have hsplit : g.layout f = pre ++ b :: post := hl
    have hp := h.blockPosition?_of_split hsplit
    show g.nextBlock b = _
    rw [nextBlock, blockBeside, hp]
    cases post <;> simp [hsplit]
  | behind =>
    have hsplit : g.layout f = post.reverse ++ b :: pre.reverse := by
      rw [List.reverse_eq_iff.mp hl, List.reverse_append, List.reverse_cons, List.append_assoc]
      rfl
    have hp := h.blockPosition?_of_split hsplit
    show g.previousBlock b = _
    rw [previousBlock, blockBeside, hp]
    cases post <;> simp [hsplit]

/-- Where two blocks stand side by side, each is the neighbour of the other. -/
theorem Placed.neighbour_of_place (h : g.Placed) {side : Side} {pre post : List BlockRef}
    (hl : g.layout f = side.place pre b p post) : side.neighbour g b = p := by
  obtain ⟨xs, ys, hxs⟩ := side.along_place pre b p post
  exact h.neighbour_of_along ((congrArg side.along hl).trans hxs)

/-- A block in no layout has no position, -/
theorem blockPosition?_of_not_mem (hb : ∀ f, b ∉ g.layout f) : g.blockPosition? b = none := by
  rw [Option.eq_none_iff_forall_ne_some]
  rintro ⟨f, i⟩ hi
  obtain ⟨e, -, -, hidx⟩ := blockPosition?_eq_some_iff.mp hi
  obtain ⟨hlt, heq⟩ := List.idxOf?_eq_some_iff.mp hidx
  exact hb f (heq.1 ▸ List.getElem_mem hlt)

/-- and no neighbours. -/
theorem neighbour_of_not_mem (hb : ∀ f, b ∉ g.layout f) (side : Side) :
    side.neighbour g b = .null := by
  have hp := blockPosition?_of_not_mem hb
  cases side <;> simp [Side.neighbour, nextBlock, previousBlock, blockBeside, hp]

/-- Whoever is a neighbour stands next to the block in a layout. -/
theorem Placed.along_of_neighbour (h : g.Placed) {side : Side} (hp : p ≠ .null)
    (hn : side.neighbour g b = p) :
    ∃ f pre post, side.along (g.layout f) = pre ++ b :: p :: post := by
  by_cases hb : ∃ f, b ∈ g.layout f
  · obtain ⟨f, hb⟩ := hb
    obtain ⟨pre, post, hl⟩ := List.append_of_mem ((side.along_perm _).symm.subset hb)
    rw [h.neighbour_of_along hl] at hn
    cases post with
    | nil => exact absurd hn.symm hp
    | cons p' post =>
      obtain rfl : p' = p := hn
      exact ⟨f, pre, post, hl⟩
  · rw [neighbour_of_not_mem (fun f hf => hb ⟨f, hf⟩)] at hn
    exact absurd hn.symm hp

/-- Steps to the one side and to the other undo each other. -/
theorem Placed.neighbour_opposite_iff (h : g.Placed) (side : Side) (hb : b ≠ .null)
    (hp : p ≠ .null) : side.opposite.neighbour g p = b ↔ side.neighbour g b = p := by
  have hturn {side : Side} {b p : BlockRef} (hp : p ≠ .null) (hn : side.neighbour g b = p) :
      side.opposite.neighbour g p = b := by
    obtain ⟨f, pre, post, hl⟩ := h.along_of_neighbour hp hn
    have hback : side.opposite.along (g.layout f) = post.reverse ++ p :: b :: pre.reverse := by
      rw [side.along_opposite, hl]
      simp
    exact h.neighbour_of_along hback
  refine ⟨fun hn => ?_, hturn hp⟩
  have := hturn hb hn
  rwa [side.opposite_opposite] at this

/-- Null is no block. -/
theorem Placed.get?_null (h : g.Placed) : g.blocks.get? .null = none := by
  rw [Option.eq_none_iff_forall_ne_some]
  exact fun e he => (h.block_handed .null e he).ne_zero rfl

/-! ## Moves -/

/-- A block in a layout is in the layout of its function, and in no other one. -/
theorem Placed.mem_layout_iff (h : g.Placed) (hb : b ∈ g.layout f) :
    ∃ e, g.blocks.get? b = some e ∧ ∀ f', b ∈ g.layout f' ↔ f' = e.function := by
  obtain ⟨e, he, rfl⟩ := h.layout_home f b hb
  refine ⟨e, he, fun f' => ⟨fun hm => ?_, fun heq => heq ▸ hb⟩⟩
  obtain ⟨e', he', rfl⟩ := h.layout_home f' b hm
  rw [Option.some.inj (he.symm.trans he')]

theorem Placed.layout_unique (h : g.Placed) {f' : ValueRef} (hb : b ∈ g.layout f)
    (hb' : b ∈ g.layout f') : f = f' := by
  obtain ⟨e, -, hiff⟩ := h.mem_layout_iff hb
  exact ((hiff f).mp hb).trans ((hiff f').mp hb').symm

/-- The graph after a block was taken out of a layout. -/
def without (g : Graph) (f : ValueRef) (b : BlockRef) : Graph :=
  { g with layouts := g.layouts.insert f ((g.layout f).filter (· != b)) }

theorem layout_without (g : Graph) (f : ValueRef) (b : BlockRef) (f' : ValueRef) :
    (g.without f b).layout f' =
      if f' = f then (g.layout f).filter (· != b) else g.layout f' :=
  g.layout_insert f _ f'

theorem Placed.without (h : g.Placed) (f : ValueRef) (b : BlockRef) : (g.without f b).Placed :=
  h.setLayout ((h.layout_nodup f).filter _) fun b' hm =>
    h.layout_home f b' (List.mem_filter.mp hm).1

theorem Placed.not_mem_without (h : g.Placed) (hb : b ∈ g.layout f) (f' : ValueRef) :
    b ∉ (g.without f b).layout f' := by
  rw [layout_without]
  split
  · exact fun hm => by simpa using (List.mem_filter.mp hm).2
  · next hne => exact fun hm => hne (h.layout_unique hm hb)

theorem Placed.detachBlock?_of_mem (h : g.Placed) (hb : b ∈ g.layout f) :
    g.detachBlock? b = some (f, g.without f b) := by
  obtain ⟨xs, ys, hsplit⟩ := List.append_of_mem hb
  have herase : (g.layout f).eraseIdx xs.length = (g.layout f).filter (· != b) := by
    rw [← (h.layout_nodup f).erase_eq_filter, List.erase_eq_eraseIdx]
    have hnodup := h.layout_nodup f
    rw [hsplit] at hnodup ⊢
    rw [idxOf?_append_cons hnodup]
  simp [detachBlock?, h.blockPosition?_of_split hsplit, herase, Graph.without]

/-- A block is taken out of the layout of its function and put into it again, beside the place where
another block stands in its own layout then; if the layout is too short for that, the block stays
out. -/
theorem Placed.moveBlock_of_split (h : g.Placed) (hb : b ∈ g.layout f) {f' : ValueRef}
    {pre post : List BlockRef} (hp : (g.without f b).layout f' = pre ++ p :: post) (offset : Nat) :
    g.moveBlock b p offset =
      if ((g.layout f).filter (· != b)).length < pre.length + offset then
        (.error (insertionTrap (pre.length + offset) ((g.layout f).filter (· != b)).length),
          g.without f b)
      else
        (.ok (), { g.without f b with
          layouts := (g.without f b).layouts.insert f
            (((g.layout f).filter (· != b)).insertIdx (pre.length + offset) b) }) := by
  have hpos := (h.without f b).blockPosition?_of_split hp
  have hself := (g.layout_without f b f).trans (if_pos rfl)
  simp only [Graph.moveBlock, h.detachBlock?_of_mem hb, hpos, hself]

/-- A block is taken out of the layout of its function and put at a side of another block there;
nothing else changes. -/
theorem Placed.moveBlock_place (h : g.Placed) (hb : b ∈ g.layout f) (side : Side)
    {pre post : List BlockRef} (hrest : (g.layout f).filter (· != b) = pre ++ p :: post) :
    ∃ layouts, g.moveBlock b p side.offset = (.ok (), { g with layouts }) ∧
      ∀ f', layout { g with layouts } f' =
        if f' = f then side.place pre b p post else g.layout f' := by
  have hlen : ¬ (pre ++ p :: post).length < pre.length + side.offset := by
    rw [List.length_append, List.length_cons]
    cases side <;> simp only [Side.offset] <;> omega
  have hmove := h.moveBlock_of_split hb (((g.layout_without f b f).trans (if_pos rfl)).trans hrest)
    side.offset
  rw [hrest, if_neg hlen, Side.insertIdx_eq_place] at hmove
  refine ⟨_, hmove, fun f' => ((g.without f b).layout_insert f _ f').trans ?_⟩
  split
  · rfl
  · next hne => exact (g.layout_without f b f').trans (if_neg hne)

/-- A block that is to be moved beside itself has no place any more when that is looked for, and
stays out. -/
theorem Placed.moveBlock_self (h : g.Placed) (hb : b ∈ g.layout f) (offset : Nat) :
    g.moveBlock b b offset = (.ok (), g.without f b) := by
  have hnone := blockPosition?_of_not_mem (h.not_mem_without hb)
  simp only [Graph.moveBlock, h.detachBlock?_of_mem hb, hnone]

end Graph

end CanonIR.Memory
