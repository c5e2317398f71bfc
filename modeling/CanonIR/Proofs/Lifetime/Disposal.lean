import CanonIR.Proofs.Lifetime.Books
import CanonIR.Proofs.Memory.Moves

/-!
Disposal of native contexts. Over in-memory libraries, operations take their steps in any order and
references are given up in any order. In every state the contexts that were created and have no
reference left are disposed, each once and in the order in which they lost their last references,
and nothing else is (`Disposal.Reachable.disposedOnce`).
-/

namespace CanonIR

/-- Operations side by side over in-memory libraries, with the contexts that were created so far,
and those of them that have lost their last references, in that order. -/
structure Disposal where
  machine : Machine Recorders := { world := { native := ∅ } }
  created : List Context := []
  ended : List Context := []

namespace Disposal

def Enabled (u : Disposal) (x : MemoryMove) : Prop :=
  u.machine.Enabled (x.move u.machine.world.native)

instance (u : Disposal) (x : MemoryMove) : Decidable (u.Enabled x) := by
  unfold Enabled
  infer_instance

def next (u : Disposal) (x : MemoryMove) : Disposal :=
  let w := u.machine.world
  let machine := u.machine.next (x.move w.native)
  { machine
    created := ((x.primitive? u.machine).bind (Books.created? · w)).toList ++ u.created
    ended := u.ended ++ World.fallen u.created w machine.world }

/-- The states that can be reached from empty libraries. -/
inductive Reachable : Disposal → Prop where
  | start : Reachable {}
  | move {u : Disposal} (h : Reachable u) (x : MemoryMove) (hx : u.Enabled x) :
      Reachable (u.next x)

/-- The contexts disposed in a library, in order. -/
def disposed (u : Disposal) (lib : LibraryId) : List ContextRef :=
  u.machine.world.native.disposed lib

/-- Contexts are disposed once, and at the right moment. -/
structure DisposedOnce (u : Disposal) : Prop where
  /-- A context that was created is disposed once if no reference to it or to a wrapper of it is
  left, and else it is not. -/
  count : ∀ cx ∈ u.created, (u.disposed cx.library).count cx.raw =
    if ∃ r ∈ u.machine.world.held, r.owner = cx then 0 else 1
  /-- Nothing is disposed that was not created. -/
  created : ∀ lib raw, raw ∈ u.disposed lib → ∃ cx ∈ u.created, cx.key = (lib, raw)
  /-- Contexts are disposed in the order in which they lost their last references. -/
  order : ∀ lib, u.disposed lib = Context.rawsOf lib u.ended
  /-- When no reference is left, what was created is disposed. -/
  all : u.machine.world.held = [] →
    ∀ lib, (u.disposed lib).Perm (Context.rawsOf lib u.created)

/-! ## The invariant -/

/-- The invariant: the machine has come here by itself, and the books are kept. -/
structure Kept (u : Disposal) : Prop where
  machine : u.machine.Reachable
  books : Books u.created u.ended u.machine.world

variable {u : Disposal}

namespace Kept

/-- Libraries that grow past the bindings. -/
theorem books_grow (h : Kept u) {native : Recorders} (hg : u.machine.world.native.Grow native) :
    Books u.created
      (u.ended ++ World.fallen u.created u.machine.world { u.machine.world with native })
      { u.machine.world with native } := by
  have hw : u.machine.world.Works { u.machine.world with native } :=
    { World.Works.refl u.machine.world with }
  exact h.books.works hw hg

theorem books_next (h : Kept u) {x : MemoryMove} (hx : u.Enabled x) :
    Books (u.next x).created (u.next x).ended (u.next x).machine.world := by
  cases x with
  | build lib x => exact h.books_grow (Recorders.grow_build _ lib x)
  | reuse lib dead probes => exact h.books_grow (Recorders.grow_reuse _ lib dead probes)
  | ask q => exact h.books.works (.refl _) (refl_of Recorders.Grow _)
  | release r =>
    obtain ⟨names, hs⟩ := h.machine.accounted.sound
    exact h.books.release hs
      (h.machine.accounted.held.symm.subset (List.mem_append_left _ hx.1))
  | advance i =>
    obtain ⟨names, hs⟩ := h.machine.accounted.sound
    have hw := u.machine.world_advance i
    simp only [next, MemoryMove.move, MemoryMove.primitive?, hw]
    cases hi : u.machine.primitive? i with
    | none => exact h.books.works (.refl _) (refl_of Recorders.Grow _)
    | some a =>
      exact h.books.perform hs (h.machine.accounted.allowed hi) (h.machine.plain hi)

/-- Every move keeps the invariant. -/
theorem next (h : Kept u) (x : MemoryMove) (hx : u.Enabled x) : Kept (u.next x) where
  machine := h.machine.move _ hx
  books := h.books_next hx

end Kept

theorem Reachable.kept (h : Reachable u) : Kept u := by
  induction h with
  | start => exact ⟨.start _, Books.start ∅ (fun _ => rfl) fun _ => rfl⟩
  | move h x hx ih => exact ih.next x hx

/-! ## What the books say -/

end Disposal

namespace Books

variable {created ended : List Context} {w : World Recorders} {cx : Context}

theorem ended_subset (h : Books created ended w) : ended ⊆ created := fun cx hcx =>
  ((h.mem_ended cx).mp hcx).1

/-- Created contexts have handles of their own. -/
theorem nodup_rawsOf (h : Books created ended w) (lib : LibraryId) {l : List Context}
    (hl : l.Nodup) (hs : l ⊆ created) : (Context.rawsOf lib l).Nodup := by
  refine (hl.filter _).map_on fun cx hcx cx' hcx' hraw => ?_
  obtain ⟨hm, hlib⟩ := List.mem_filter.mp hcx
  obtain ⟨hm', hlib'⟩ := List.mem_filter.mp hcx'
  refine h.key cx (hs hm) cx' (hs hm') (Prod.ext ?_ hraw)
  exact (of_decide_eq_true hlib).trans (of_decide_eq_true hlib').symm

theorem mem_rawsOf (h : Books created ended w) {l : List Context} (hs : l ⊆ created)
    (hcx : cx ∈ created) : cx.raw ∈ Context.rawsOf cx.library l ↔ cx ∈ l := by
  rw [Context.rawsOf, List.mem_map]
  constructor
  · intro hx
    obtain ⟨cx', hcx', hraw⟩ := hx
    obtain ⟨hm, hlib⟩ := List.mem_filter.mp hcx'
    rwa [h.key cx hcx cx' (hs hm) (Prod.ext (of_decide_eq_true hlib).symm hraw.symm)]
  · exact fun hm => ⟨cx, List.mem_filter.mpr ⟨hm, decide_eq_true rfl⟩, rfl⟩

/-- A created context lives by the references to it and to its wrappers. -/
theorem alive_iff (h : Books created ended w) (hcx : cx ∈ created) :
    w.contextAlive cx = true ↔ ∃ r ∈ w.held, r.owner = cx := by
  rw [World.contextAlive_iff]
  refine exists_congr fun r => and_congr_right fun hr => ⟨fun hid => ?_, congrArg Context.id⟩
  exact (h.names.eq_owner r hr cx hcx hid.symm).symm

theorem count_disposed (h : Books created ended w) (hcx : cx ∈ created) :
    (w.native.disposed cx.library).count cx.raw =
      if ∃ r ∈ w.held, r.owner = cx then 0 else 1 := by
  rw [h.disposed]
  by_cases hr : ∃ r ∈ w.held, r.owner = cx
  · rw [if_pos hr, List.count_eq_zero, h.mem_rawsOf h.ended_subset hcx, h.mem_ended]
    rw [(h.alive_iff hcx).mpr hr]
    simp
  · rw [if_neg hr]
    have hdead : w.contextAlive cx = false := Bool.eq_false_iff.mpr (mt (h.alive_iff hcx).mp hr)
    refine List.count_eq_one_of_mem (h.nodup_rawsOf _ h.ended_nodup h.ended_subset) ?_
    rw [h.mem_rawsOf h.ended_subset hcx, h.mem_ended]
    exact ⟨hcx, hdead⟩

/-- Without references, every created context has ended. -/
theorem ended_perm (h : Books created ended w) (hw : w.held = []) : ended.Perm created := by
  refine (List.perm_ext_iff_of_nodup h.ended_nodup h.created_nodup).mpr fun cx => ?_
  rw [h.mem_ended]
  refine and_iff_left ?_
  rw [World.contextAlive, hw]
  rfl

end Books

namespace Disposal

variable {u : Disposal}

/-- Whatever operations are under way and whoever gives up the last reference, a native context that
was created is disposed once, at the moment when no reference to it or its wrappers is left. -/
theorem Reachable.disposedOnce (h : Reachable u) : DisposedOnce u where
  count _ hcx := h.kept.books.count_disposed hcx
  created lib raw hraw := by
    obtain ⟨cx, hcx, hk⟩ := h.kept.books.mem_of_disposed hraw
    exact ⟨cx, h.kept.books.ended_subset hcx, hk⟩
  order := h.kept.books.disposed
  all hw lib := by
    refine (List.Perm.of_eq (h.kept.books.disposed lib)).trans ?_
    exact ((h.kept.books.ended_perm hw).filter _).map _

theorem Reachable.moves (h : Reachable u) {xs : List MemoryMove} (hx : Admits Enabled next u xs) :
    Reachable (xs.foldl next u) :=
  hx.foldl (fun _ x hu hx => hu.move x hx) h

/-- A context lives on by a wrapper and by an alias, and its native context is bound once more when
it has been disposed. -/
def outliving : List MemoryMove :=
  let serve := MemoryMove.serve
  let address (n : Nat) : Nat := Memory.Graph.baseAddress + n * Memory.Graph.stride
  let first : Context := ⟨0, ⟨0⟩, ⟨address 2⟩, true, {}⟩
  let second : Context := ⟨1, ⟨0⟩, ⟨address 3⟩, true, {}⟩
  let again : Context := ⟨3, ⟨0⟩, ⟨address 2⟩, false, {}⟩
  let v : ValueWrapper := ⟨2, first, ⟨address 1⟩, .ofClass .argument⟩
  [.build ⟨0⟩ (.newValue { probes := [.argument] })] ++
    serve (.createContext ⟨0⟩ {}) ++ serve (.createContext ⟨0⟩ {}) ++
    serve (.internValue (.context first) v.handle) ++ [.release (.context first)] ++
    serve (.attachContext ⟨0⟩ first.raw {}) ++
    [.release (.value v), .release (.context first)] ++
    serve (.attachContext ⟨0⟩ first.raw {}) ++
    [.release (.context again), .release (.context second)]

theorem disposedOnce_outliving :
    let u : Disposal := outliving.foldl next {}
    u.created.map Context.id = [1, 0] ∧ u.ended.map Context.id = [0, 1] ∧
      u.machine.world.held = [] ∧ DisposedOnce u :=
  ⟨by decide +kernel, by decide +kernel, by decide +kernel,
    (Reachable.start.moves (by decide +kernel)).disposedOnce⟩

end Disposal

end CanonIR
