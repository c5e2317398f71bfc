import CanonIR.Proofs.Walks.Moving

/-!
Moves that go astray. The library takes a block out of its layout before it looks for the place where
the block is to go, and puts it into the layout of its own function whatever place it has found. So a
move is safe exactly between two blocks of one function (`Shapes.Reachable.strays`): a block that is
moved beside itself is lost without a word, and one that is moved beside a block of another function
ends up somewhere in its own function, or is lost in a call that fails.
-/

namespace CanonIR

open Memory (Graph Side)

/-- A move of the block `b` to a side of the block `p` is safe: it returns, whatever was in a layout
is in that of its function and in no other one, and the two stand side by side, unless they are one
block. -/
structure World.Safe (lib : LibraryId) (side : Side) (b p : BlockRef) (w : World Recorders)
    (x : Except Fault Unit) (w' : World Recorders) : Prop where
  returns : x = .ok ()
  housed : ∀ c f, c ∈ (w.graph lib).layout f → ∃ e, (w'.graph lib).blocks.get? c = some e ∧
    ∀ f', c ∈ (w'.graph lib).layout f' ↔ f' = e.function
  beside : b ≠ p → ∃ f pre post, (w'.graph lib).layout f = side.place pre b p post

namespace Shapes

/-- What a move of a block `b` of the function `f` to a side of a block `p` of the function `f'` comes
to, in one go. -/
structure Strayed (lib : LibraryId) (side : Side) (b p : BlockRef) (f f' : ValueRef)
    (w : World Recorders) (x : Except Fault Unit) (w' : World Recorders) : Prop where
  /-- Nothing but the layout of the one function has changed, and there the other blocks keep their
  order. -/
  relaid : w.Relaid lib f w'
  order : ((w'.graph lib).layout f).filter (· != b) = ((w.graph lib).layout f).filter (· != b)
  safe_iff : w.Safe lib side b p x w' ↔ b ≠ p ∧ f = f'
  /-- A block that is moved beside itself is lost. -/
  itself : b = p → x = .ok () ∧ ∀ g, b ∉ (w'.graph lib).layout g
  /-- A block that is moved beside one of another function comes to the index of that one, but in the
  layout of its own function; if that is too short, the call fails and the block is lost. -/
  across : f ≠ f' → ∃ pre post, (w.graph lib).layout f' = pre ++ p :: post ∧
    let rest := ((w.graph lib).layout f).filter (· != b)
    let i := pre.length + side.offset
    (i ≤ rest.length → x = .ok () ∧ (w'.graph lib).layout f = rest.insertIdx i b) ∧
      (rest.length < i → x = .error (.trap (Graph.insertionTrap i rest.length).message) ∧
        ∀ g, b ∉ (w'.graph lib).layout g)

section Cases

variable {lib : LibraryId} {side : Side} {b p : BlockRef} {f f' : ValueRef}
variable {w w' : World Recorders} {x : Except Fault Unit}

/-- A move that loses the block is not safe. -/
theorem not_safe_of_lost (hb : b ∈ (w.graph lib).layout f)
    (hlost : ∀ g, b ∉ (w'.graph lib).layout g) : ¬ w.Safe lib side b p x w' := by
  intro hs
  obtain ⟨e, -, hiff⟩ := hs.housed b f hb
  exact hlost e.function ((hiff _).mpr rfl)

/-- Blocks of two functions are never side by side, so no move between functions is safe. -/
theorem not_safe_of_ne (h : (w.graph lib).Placed) (h' : (w'.graph lib).Placed)
    (hr : w.Relaid lib f w') (hb : b ∈ (w.graph lib).layout f) (hp : p ∈ (w.graph lib).layout f')
    (hne : f ≠ f') : ¬ w.Safe lib side b p x w' := by
  intro hs
  have hbp : b ≠ p := by
    rintro rfl
    exact hne (h.layout_unique hb hp)
  obtain ⟨g, pre, post, hl⟩ := hs.beside hbp
  have hmem (c : BlockRef) (hc : c = b ∨ c = p) : c ∈ (w'.graph lib).layout g := by
    rw [hl]
    exact (side.place_perm pre b p post).symm.subset (by rcases hc with rfl | rfl <;> simp)
  -- The one is still in its own function, and so the other has come to that one.
  have hp' : p ∈ (w'.graph lib).layout f' := hr.layouts f' hne.symm ▸ hp
  obtain rfl : g = f' := h'.layout_unique (hmem p (.inr rfl)) hp'
  have hb' : b ∈ (w.graph lib).layout g := hr.layouts g hne.symm ▸ hmem b (.inl rfl)
  exact hne (h.layout_unique hb hb')

end Cases

section Moves

variable {log : List Forgetting} {w : World Recorders} {bb pos : BasicBlock}
variable {b p : BlockRef} {f f' : ValueRef}

/-- A block that the library leaves out of its layout is lost, and that is all. -/
theorem lost (h : Ready log w) (hbb : .value bb.value ∈ w.held) (hpos : .value pos.value ∈ w.held)
    (hlib : pos.value.context.library = bb.value.context.library) (hb : w.Denotes bb.value b)
    (hp : w.Denotes pos.value p) (hbf : b ∈ (w.graph bb.value.context.library).layout f)
    (side : Side) {x : Except NativeTrap Unit}
    (hm : (w.graph bb.value.context.library).moveBlock b p side.offset =
      (x, (w.graph bb.value.context.library).without f b)) :
    ∃ w', (side.move bb pos).action.apply w = (x.mapError fun t => .trap t.message, w') ∧
      w.Relaid bb.value.context.library f w' ∧
      ((w'.graph bb.value.context.library).layout f).filter (· != b) =
        ((w.graph bb.value.context.library).layout f).filter (· != b) ∧
      ∀ g, b ∉ (w'.graph bb.value.context.library).layout g := by
  have hlayout := (w.graph bb.value.context.library).layout_without f b
  obtain ⟨w', hw', hr, hg, -⟩ := h.request hbb hpos hlib hb hp side hm
    fun g hne => (hlayout g).trans (if_neg hne)
  refine ⟨w', hw', hr, ?_, hg ▸ (h.placed _).not_mem_without hbf⟩
  have hself : (w'.graph bb.value.context.library).layout f =
      ((w.graph bb.value.context.library).layout f).filter (· != b) :=
    hg ▸ (hlayout f).trans (if_pos rfl)
  simp only [hself, List.filter_filter, Bool.and_self]

/-- A block and itself. -/
theorem strayed_self (h : Ready log w) (hbb : .value bb.value ∈ w.held)
    (hpos : .value pos.value ∈ w.held)
    (hlib : pos.value.context.library = bb.value.context.library) (hb : w.Denotes bb.value b)
    (hp : w.Denotes pos.value b) (hbf : b ∈ (w.graph bb.value.context.library).layout f)
    (side : Side) :
    ∃ x w', (side.move bb pos).action.apply w = (x, w') ∧
      Strayed bb.value.context.library side b b f f w x w' := by
  obtain ⟨w', hw', hr, horder, hout⟩ := lost h hbb hpos hlib hb hp hbf side
    ((h.placed _).moveBlock_self hbf side.offset)
  exact ⟨_, w', hw', hr, horder, iff_of_false (not_safe_of_lost hbf hout) fun hne => hne.1 rfl,
    fun _ => ⟨rfl, hout⟩, fun hne => absurd rfl hne⟩

/-- Two blocks of one function. -/
theorem strayed_within (h : Ready log w) (hbb : .value bb.value ∈ w.held)
    (hpos : .value pos.value ∈ w.held)
    (hlib : pos.value.context.library = bb.value.context.library) (hb : w.Denotes bb.value b)
    (hp : w.Denotes pos.value p) (hne : b ≠ p)
    (hbf : b ∈ (w.graph bb.value.context.library).layout f)
    (hpf : p ∈ (w.graph bb.value.context.library).layout f) (side : Side) :
    ∃ x w', (side.move bb pos).action.apply w = (x, w') ∧
      Strayed bb.value.context.library side b p f f w x w' := by
  have hnodup := (h.placed bb.value.context.library).layout_nodup f
  obtain ⟨pre, post, hrest⟩ : ∃ pre post,
      ((w.graph bb.value.context.library).layout f).filter (· != b) = pre ++ p :: post :=
    List.append_of_mem (List.mem_filter.mpr ⟨hpf, by simpa using hne.symm⟩)
  obtain ⟨w', hw', hr, hlayout, h'⟩ := h.move hbb hpos hlib hb hp hbf side hrest
  have hperm : ((w'.graph bb.value.context.library).layout f).Perm
      ((w.graph bb.value.context.library).layout f) :=
    hlayout ▸ Side.place_perm_of_filter hnodup hbf hrest
  refine ⟨_, w', hw', hr, ?_, iff_of_true ⟨rfl, fun c g hc => ?_, fun _ => ⟨f, pre, post, hlayout⟩⟩
    ⟨hne, rfl⟩, fun heq => absurd heq hne, fun hne => absurd rfl hne⟩
  · rw [hrest, hlayout]
    exact Side.filter_place (hlayout ▸ hperm.nodup_iff.mpr hnodup)
  · have hc' : c ∈ (w'.graph bb.value.context.library).layout g := by
      by_cases hgf : g = f
      · subst hgf
        exact hperm.symm.subset hc
      · exact hr.layouts g hgf ▸ hc
    exact (h'.placed _).mem_layout_iff hc'

/-- Two blocks of two functions. -/
theorem strayed_across (h : Ready log w) (hbb : .value bb.value ∈ w.held)
    (hpos : .value pos.value ∈ w.held)
    (hlib : pos.value.context.library = bb.value.context.library) (hb : w.Denotes bb.value b)
    (hp : w.Denotes pos.value p) (hne : f ≠ f')
    (hbf : b ∈ (w.graph bb.value.context.library).layout f)
    (hpf : p ∈ (w.graph bb.value.context.library).layout f') (side : Side) :
    ∃ x w', (side.move bb pos).action.apply w = (x, w') ∧
      Strayed bb.value.context.library side b p f f' w x w' := by
  have hplaced := h.placed bb.value.context.library
  have hlayout := (w.graph bb.value.context.library).layout_without f b
  have hbp : b ≠ p := by
    rintro rfl
    exact hne (hplaced.layout_unique hbf hpf)
  obtain ⟨pre, post, hpre⟩ := List.append_of_mem hpf
  have hmove := hplaced.moveBlock_of_split hbf
    (((hlayout f').trans (if_neg hne.symm)).trans hpre) side.offset
  by_cases hlen : (((w.graph bb.value.context.library).layout f).filter (· != b)).length <
      pre.length + side.offset
  · rw [if_pos hlen] at hmove
    obtain ⟨w', hw', hr, horder, hout⟩ := lost h hbb hpos hlib hb hp hbf side hmove
    exact ⟨_, w', hw', hr, horder, iff_of_false (not_safe_of_lost hbf hout) fun hs => hne hs.2,
      fun heq => absurd heq hbp, fun _ => ⟨pre, post, hpre,
        fun hle => absurd hle (Nat.not_le_of_lt hlen), fun _ => ⟨rfl, hout⟩⟩⟩
  · rw [if_neg hlen] at hmove
    have hput := ((w.graph bb.value.context.library).without f b).layout_insert f
      ((((w.graph bb.value.context.library).layout f).filter (· != b)).insertIdx
        (pre.length + side.offset) b)
    obtain ⟨w', hw', hr, hg, h'⟩ := h.request hbb hpos hlib hb hp side hmove
      fun g hg => ((hput g).trans (if_neg hg)).trans ((hlayout g).trans (if_neg hg))
    have hself := hg ▸ (hput f).trans (if_pos rfl)
    refine ⟨_, w', hw', hr, ?_, ?_, fun heq => absurd heq hbp, fun _ => ⟨pre, post, hpre, ?_, ?_⟩⟩
    · simp only [hself, Side.filter_insertIdx, List.filter_filter, Bool.and_self]
    · exact iff_of_false (not_safe_of_ne hplaced (h'.placed _) hr hbf hpf hne) fun hs => hne hs.2
    · exact fun _ => ⟨rfl, hself⟩
    · exact fun hlt => absurd hlt hlen

end Moves

/-- In every reachable state it is known what comes of a move between any two blocks that are in
layouts, and when it is safe. -/
theorem Reachable.strays {u : Shapes} (h : Reachable u) {lib : LibraryId} {bb pos : BasicBlock}
    {b p : BlockRef} {f f' : ValueRef} (side : Side) (hbb : .value bb.value ∈ u.world.held)
    (hpos : .value pos.value ∈ u.world.held) (hbl : bb.value.context.library = lib)
    (hpl : pos.value.context.library = lib) (hb : u.world.Denotes bb.value b)
    (hp : u.world.Denotes pos.value p) (hbf : b ∈ (u.world.graph lib).layout f)
    (hpf : p ∈ (u.world.graph lib).layout f') :
    ∃ x w', (side.move bb pos).action.apply u.world = (x, w') ∧
      Strayed lib side b p f f' u.world x w' := by
  subst hbl
  by_cases hff : f = f'
  · subst hff
    by_cases hbp : b = p
    · subst hbp
      exact strayed_self h.ready hbb hpos hpl hb hp hbf side
    · exact strayed_within h.ready hbb hpos hpl hb hp hbp hbf hpf side
  · exact strayed_across h.ready hbb hpos hpl hb hp hff hbf hpf side

/-- Two functions with a block each, and wrappers of the blocks. -/
def twoFunctions : List MemoryMove :=
  let address (n : Nat) : Nat := Memory.Graph.baseAddress + n * Memory.Graph.stride
  let cx : Context := ⟨0, ⟨0⟩, ⟨address 7⟩, true, {}⟩
  [.build ⟨0⟩ .function, .build ⟨0⟩ .function, .build ⟨0⟩ (.appendBlock ⟨address 1⟩ "one"),
    .build ⟨0⟩ (.appendBlock ⟨address 2⟩ "two")] ++
    MemoryMove.serve (.createContext ⟨0⟩ {}) ++
    MemoryMove.serve (.internBlock (.context cx) ⟨address 4⟩) ++
    MemoryMove.serve (.internBlock (.context cx) ⟨address 6⟩)

/-- There is no place behind the other block, as its index is past the end of the layout. -/
theorem strays_twoFunctions :
    let address (n : Nat) : Nat := Memory.Graph.baseAddress + n * Memory.Graph.stride
    let cx : Context := ⟨0, ⟨0⟩, ⟨address 7⟩, true, {}⟩
    let block (i n : Nat) : BasicBlock := ⟨⟨i, cx, ⟨address n⟩, .ofClass .basicBlock⟩, rfl⟩
    let u := twoFunctions.foldl next {}
    u.world.held.length = 3 ∧
      ∃ x w', (Side.behind.move (block 1 3) (block 2 5)).action.apply u.world = (x, w') ∧
        Strayed ⟨0⟩ .behind ⟨address 4⟩ ⟨address 6⟩ ⟨address 1⟩ ⟨address 2⟩ u.world x w' :=
  ⟨by decide +kernel,
    (Reachable.start.moves (by decide +kernel)).strays .behind (by decide +kernel)
      (by decide +kernel) rfl rfl
      ⟨⟨⟨Memory.Graph.baseAddress + 3 * Memory.Graph.stride⟩,
        ⟨Memory.Graph.baseAddress + 1 * Memory.Graph.stride⟩, []⟩, by decide +kernel, rfl⟩
      ⟨⟨⟨Memory.Graph.baseAddress + 5 * Memory.Graph.stride⟩,
        ⟨Memory.Graph.baseAddress + 2 * Memory.Graph.stride⟩, []⟩, by decide +kernel, rfl⟩
      (by decide +kernel) (by decide +kernel)⟩

/-- The only block of a function, moved before itself, is lost. -/
theorem not_safe_beside_itself :
    let address (n : Nat) : Nat := Memory.Graph.baseAddress + n * Memory.Graph.stride
    let cx : Context := ⟨0, ⟨0⟩, ⟨address 7⟩, true, {}⟩
    let one : BasicBlock := ⟨⟨1, cx, ⟨address 3⟩, .ofClass .basicBlock⟩, rfl⟩
    let u := twoFunctions.foldl next {}
    Reachable u ∧ .value one.value ∈ u.world.held ∧
      (u.world.graph ⟨0⟩).layout ⟨address 1⟩ = [⟨address 4⟩] ∧
      ∃ w', (Side.before.move one one).action.apply u.world = (.ok (), w') ∧
        (∀ g, ⟨address 4⟩ ∉ (w'.graph ⟨0⟩).layout g) ∧
        ¬ u.world.Safe ⟨0⟩ .before ⟨address 4⟩ ⟨address 4⟩ (.ok ()) w' := by
  intro address cx one u
  have hu : Reachable u := Reachable.start.moves (by decide +kernel)
  have hheld : .value one.value ∈ u.world.held := by decide +kernel
  have hdenotes : u.world.Denotes one.value ⟨address 4⟩ :=
    ⟨⟨⟨address 3⟩, ⟨address 1⟩, []⟩, by decide +kernel, rfl⟩
  have hlayout : (u.world.graph ⟨0⟩).layout ⟨address 1⟩ = [⟨address 4⟩] := by decide +kernel
  have hmem : ⟨address 4⟩ ∈ (u.world.graph ⟨0⟩).layout ⟨address 1⟩ :=
    hlayout ▸ List.mem_singleton_self _
  obtain ⟨w', hw', -, -, hout⟩ := lost hu.ready hheld hheld rfl hdenotes hdenotes hmem .before
    ((hu.ready.placed _).moveBlock_self hmem _)
  exact ⟨hu, hheld, hlayout, w', hw', hout, not_safe_of_lost hmem hout⟩

end Shapes

end CanonIR
