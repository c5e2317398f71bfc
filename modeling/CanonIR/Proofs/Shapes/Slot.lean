import CanonIR.Proofs.Identity.Frame

/-!
Known block shapes. They are noted by the gate of blocks and when a block shape is asked for, and by
nothing else; once one is known of a wrapper it stays (`Sound.blockRefs_perform`).
-/

namespace CanonIR

namespace Primitive

/-- Whether a primitive may note a block shape. -/
def notes : Primitive → Bool
  | internBlock _ _ | blockRef _ => true
  | _ => false

/-- Only the gates of values and blocks bring wrappers of values. -/
theorem mem_of_mem_after {a : Primitive} {has : List Reference} (ha : a.Allowed has)
    (hn : a.notes = false) (hi : ∀ cx h, a ≠ internValue cx h) {x : Except Fault a.Result}
    {v : ValueWrapper} (hv : .value v ∈ a.after x has) : .value v ∈ has := by
  rcases mem_after_cases hv with hv | ⟨y, hy⟩
  · exact hv
  · cases a with
    | internBlock | blockRef => exact nomatch hn
    | internValue cx h => exact absurd rfl (hi cx h)
    | hold r =>
      obtain rfl := List.mem_singleton.mp hy
      exact mem_of_allowed_hold ha nofun
    | internType => simp [references] at hy
    | createContext | attachContext => exact nomatch List.mem_singleton.mp hy
    | _ => exact absurd hy List.not_mem_nil

end Primitive

/-- No block shape is noted. -/
structure World.Unnoted {σ : Type} (w w' : World σ) : Prop where
  nextId_le : w.nextId ≤ w'.nextId
  blockRefs : w'.blockRefs = w.blockRefs

section Unnoted

variable {σ : Type} {names : Nat → Reference} {log : List Forgetting} {w w' : World σ}
variable {cx : Context}

/-- A block shape that is noted where none is known. -/
theorem World.get?_noteBlockRef {bb : BasicBlock} {b : BlockRef}
    (hn : w.blockRefs.get? bb.value.id = none) :
    (w.noteBlockRef bb b).blockRefs.get? bb.value.id = some b := by
  have hc : w.blockRefs.contains bb.value.id = false := by rw [Table.contains, hn]; rfl
  rw [World.noteBlockRef, if_neg (by simp [hc]), Table.get?_insert, if_pos rfl]

theorem World.contains_noteBlockRef (w : World σ) (bb : BasicBlock) (b : BlockRef) :
    (w.noteBlockRef bb b).blockRefs.contains bb.value.id = true := by
  cases hc : w.blockRefs.contains bb.value.id with
  | true => rw [World.noteBlockRef, if_pos hc, hc]
  | false =>
    have hn : w.blockRefs.get? bb.value.id = none := by simpa [Table.contains] using hc
    rw [Table.contains, World.get?_noteBlockRef hn]
    rfl

theorem World.Aside.unnoted (h : w.Aside w') : w.Unnoted w' := by
  obtain ⟨s, e, rfl⟩ := h
  exact ⟨Nat.le_refl _, rfl⟩

theorem World.Aside.unnoted_bound (h : w.Aside w') (cx : Context) : w.Unnoted (w'.bound cx) := by
  obtain ⟨s, e, rfl⟩ := h
  exact ⟨Nat.le_succ _, rfl⟩

theorem Gated.unnoted {p : Place} {x : Option Reference} (h : Gated cx p w x w') :
    w.Unnoted w' := by
  cases h with
  | aside ha => exact ha.unnoted
  | hit hr ha => exact ⟨Nat.le_refl _, rfl⟩
  | miss ha hfree h0 hid ho hp he =>
    obtain ⟨s, e, rfl⟩ := ha
    rw [he.frame]
    exact ⟨Nat.le_succ _, rfl⟩

variable [NativeSystem σ]

theorem World.unnoted_release (w : World σ) (r : Reference) : w.Unnoted (w.release r) := by
  unfold World.release
  split
  · dsimp only
    split
    · exact ⟨Nat.le_refl _, rfl⟩
    · exact ⟨Nat.le_of_eq (World.nextId_retire (w.relinquish r) r.owner).symm,
        World.blockRefs_retire _ _⟩
  · exact ⟨Nat.le_refl _, rfl⟩

theorem unnoted_createContext (lib : LibraryId) (options : ContextOptions) (w : World σ) :
    w.Unnoted ((Action.createContext lib options).apply w).2 := by
  rcases createContext_cases lib options w with ⟨e, w₁, hx, ha⟩ | ⟨cx, w₁, hx, ha, -⟩
  · rw [hx]
    exact ha.unnoted
  · rw [hx]
    exact ha.unnoted_bound cx

omit [NativeSystem σ] in
theorem unnoted_attachContext (lib : LibraryId) (raw : ContextRef) (options : ContextOptions)
    (w : World σ) : w.Unnoted ((Action.attachContext lib raw options).apply w).2 := by
  cases hl : w.registry.living? w.contextAlive (lib, raw) with
  | none =>
    rw [apply_attachContext_fresh options hl]
    exact ⟨Nat.le_succ _, rfl⟩
  | some cx =>
    rw [apply_attachContext_living options hl]
    exact ⟨Nat.le_refl _, rfl⟩

/-- Most primitives note no block shape. -/
theorem unnoted_perform {a : Primitive} (hn : a.notes = false) (w : World σ) :
    w.Unnoted (a.action.apply w).2 := by
  cases a with
  | call lib c => exact (Action.asks_call lib c w).unnoted
  | emit | walkLimit | hold => exact ⟨Nat.le_refl _, rfl⟩
  | createContext lib options => exact unnoted_createContext lib options w
  | attachContext lib raw options => exact unnoted_attachContext lib raw options w
  | internType cx ty =>
    obtain ⟨x, w', hx, hg⟩ := gated_internType cx ty w
    show w.Unnoted ((Action.internType cx ty).apply w).2
    rw [hx]
    exact hg.unnoted
  | internValue cx v =>
    obtain ⟨x, w', hx, hg⟩ := gated_internValue cx v w
    show w.Unnoted ((Action.internValue cx v).apply w).2
    rw [hx]
    exact hg.unnoted
  | internBlock | blockRef => exact nomatch hn
  | forgetValue cx v =>
    obtain ⟨e, hx⟩ := Action.apply_forgetValue cx v w
    show w.Unnoted ((Action.forgetValue cx v).apply w).2
    rw [hx]
    exact ⟨Nat.le_refl _, rfl⟩
  | release r => exact w.unnoted_release r

/-- A block shape that is known stays known. -/
theorem Sound.blockRefs_perform (h : Sound names log w) {a : Primitive} (ha : a.Allowed w.held)
    {i : Nat} {b : BlockRef} (hb : w.blockRefs.get? i = some b) :
    (a.action.apply w).2.blockRefs.get? i = some b := by
  cases hn : a.notes with
  | false =>
    rw [(unnoted_perform hn w).blockRefs]
    exact hb
  | true =>
    cases a with
    | internBlock | blockRef => exact (h.keeps_perform ha rfl rfl rfl).blockRefs i b hb
    | _ => exact nomatch hn

end Unnoted

end CanonIR
