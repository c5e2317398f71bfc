import CanonIR.Binding.World
import CanonIR.Proofs.Cache.Weak

/-!
Places of wrappers. The caches of all contexts are one table from places to references, `occupant?`:
a place is a context, one of its two caches, and an address. What the bindings do to caches is said
here through `occupant?`, in the same words for types and for values.
-/

namespace CanonIR

/-- The two caches of a context. -/
inductive WrapperSort where
  | type
  | value
  deriving DecidableEq

/-- Where a wrapper stands: the identity of its context, and the address of its handle. -/
structure Place where
  context : Nat
  sort : WrapperSort
  address : Nat
  deriving DecidableEq

namespace Reference

/-- The place of a wrapper; a context has none. -/
def place? : Reference → Option Place
  | context _ => none
  | type t => some ⟨t.context.id, .type, t.handle.address⟩
  | value v => some ⟨v.context.id, .value, v.handle.address⟩

theorem owner_id_of_place? {r : Reference} {p : Place} (h : r.place? = some p) :
    r.owner.id = p.context := by
  cases r with
  | context cx => simp [place?] at h
  | type t => obtain rfl := Option.some.inj h; rfl
  | value v => obtain rfl := Option.some.inj h; rfl

end Reference

theorem ValueWrapper.value_of_downcast? {V : View} {v : ValueWrapper} {x : Viewed V}
    (h : v.downcast? V = some x) : x.value = v := by
  unfold downcast? at h
  split at h
  · obtain rfl := Option.some.inj h
    rfl
  · exact nomatch h

namespace Caches

/-- The wrapper in one of the caches under an address, dead or alive. -/
def occupant? (c : Caches) : WrapperSort → Nat → Option Reference
  | .type, a => (c.types.entries.get? a).map .type
  | .value, a => (c.values.entries.get? a).map .value

theorem occupant?_empty (s : WrapperSort) (a : Nat) : occupant? {} s a = none := by
  cases s <;> rfl

end Caches

namespace World

variable {σ : Type}

/-- The wrapper at a place, dead or alive. -/
def occupant? (w : World σ) (p : Place) : Option Reference :=
  ((w.caches.get? p.context).getD {}).occupant? p.sort p.address

variable {w w' : World σ} {p q : Place} {r r' : Reference} {cx : Context}

theorem occupant?_eq (w : World σ) (cx : Context) (s : WrapperSort) (a : Nat) :
    w.occupant? ⟨cx.id, s, a⟩ = (w.cachesOf cx).occupant? s a := rfl

theorem occupant?_setCaches (w : World σ) (cx : Context) (c : Caches) (p : Place) :
    (w.setCaches cx c).occupant? p =
      if p.context = cx.id then c.occupant? p.sort p.address else w.occupant? p := by
  simp only [occupant?, setCaches, Table.get?_insert]
  split <;> rfl

theorem occupant?_start (s : σ) (p : Place) : ({ native := s } : World σ).occupant? p = none :=
  Caches.occupant?_empty p.sort p.address

/-- A context that is retired takes its caches with it. -/
theorem occupant?_retire [NativeSystem σ] (w : World σ) (cx : Context) (p : Place) :
    (w.retire cx).occupant? p = if p.context = cx.id then none else w.occupant? p := by
  have h : (w.retire cx).caches = w.caches.erase cx.id := by
    unfold retire
    dsimp only
    split <;> rfl
  simp only [occupant?, h, Table.get?_erase]
  split
  · exact Caches.occupant?_empty _ _
  · rfl

theorem occupant?_forgetValue (w : World σ) (cx : Context) (h : ValueRef) (p : Place) :
    (w.forgetValue cx h).occupant? p =
      if p = ⟨cx.id, .value, h.address⟩ then none else w.occupant? p := by
  obtain ⟨k, s, a⟩ := p
  rw [forgetValue, occupant?_setCaches]
  by_cases hk : k = cx.id
  · subst hk
    rw [if_pos rfl, occupant?_eq]
    cases s with
    | type =>
      rw [if_neg (by simp)]
      rfl
    | value =>
      simp only [Caches.occupant?, WeakCache.forget, Table.get?_erase, Place.mk.injEq, true_and]
      split <;> rfl
  · rw [if_neg hk, if_neg]
    simp [hk]

/-! ## Look-ups -/

theorem holds_iff {i : Nat} : w.holds i = true ↔ ∃ r ∈ w.held, r.id = i := by
  simp [holds, List.any_eq_true]

theorem holds_of_mem (h : r ∈ w.held) : w.holds r.id = true := holds_iff.mpr ⟨r, h, rfl⟩

theorem contextAlive_iff : w.contextAlive cx = true ↔ ∃ r ∈ w.held, r.owner.id = cx.id := by
  simp [contextAlive, List.any_eq_true]

theorem lookup_types_eq_some_iff {a : Nat} {t : TypeWrapper} :
    (w.cachesOf cx).types.lookup w.typeAlive a = some t ↔
      w.occupant? ⟨cx.id, .type, a⟩ = some (.type t) ∧ w.holds t.id = true := by
  simp only [WeakCache.lookup, Option.filter_eq_some_iff, occupant?_eq, Caches.occupant?, typeAlive,
    Option.map_eq_some_iff, Reference.type.injEq, exists_eq_right]

theorem lookup_values_eq_some_iff {a : Nat} {v : ValueWrapper} :
    (w.cachesOf cx).values.lookup w.valueAlive a = some v ↔
      w.occupant? ⟨cx.id, .value, a⟩ = some (.value v) ∧ w.holds v.id = true := by
  simp only [WeakCache.lookup, Option.filter_eq_some_iff, occupant?_eq, Caches.occupant?, valueAlive,
    Option.map_eq_some_iff, Reference.value.injEq, exists_eq_right]

theorem not_holds_of_lookup_types {a : Nat}
    (h : (w.cachesOf cx).types.lookup w.typeAlive a = none) (r : Reference)
    (hr : w.occupant? ⟨cx.id, .type, a⟩ = some r) : w.holds r.id = false := by
  obtain ⟨t, ht, rfl⟩ := Option.map_eq_some_iff.mp hr
  have ht' : ¬ w.typeAlive t = true := Option.filter_eq_none_iff.mp h t ht
  exact Bool.eq_false_iff.mpr ht'

theorem not_holds_of_lookup_values {a : Nat}
    (h : (w.cachesOf cx).values.lookup w.valueAlive a = none) (r : Reference)
    (hr : w.occupant? ⟨cx.id, .value, a⟩ = some r) : w.holds r.id = false := by
  obtain ⟨v, hv, rfl⟩ := Option.map_eq_some_iff.mp hr
  have hv' : ¬ w.valueAlive v = true := Option.filter_eq_none_iff.mp h v hv
  exact Bool.eq_false_iff.mpr hv'

/-! ## References -/

/-- Gives up one strong reference, and leaves the end of its context to others. -/
def relinquish (r : Reference) (w : World σ) : World σ :=
  { w with held := w.held.eraseP (·.id == r.id) }

/-- The reference that came last is given up first. -/
theorem relinquish_of_held {l : List Reference} (h : w.held = r :: l) :
    w.relinquish r = { w with held := l } := by
  have hl : (r :: l).eraseP (·.id == r.id) = l := List.eraseP_cons_of_pos (by simp)
  rw [relinquish, h, hl]

theorem held_noteBlockRef (w : World σ) (bb : BasicBlock) (b : BlockRef) :
    (w.noteBlockRef bb b).held = w.held := by
  unfold noteBlockRef
  split <;> rfl

theorem native_noteBlockRef (w : World σ) (bb : BasicBlock) (b : BlockRef) :
    (w.noteBlockRef bb b).native = w.native := by
  unfold noteBlockRef
  split <;> rfl

theorem nextId_noteBlockRef (w : World σ) (bb : BasicBlock) (b : BlockRef) :
    (w.noteBlockRef bb b).nextId = w.nextId := by
  unfold noteBlockRef
  split <;> rfl

section Retire

variable [NativeSystem σ]

theorem held_retire (w : World σ) (cx : Context) : (w.retire cx).held = w.held := by
  unfold retire
  dsimp only
  split <;> rfl

theorem nextId_retire (w : World σ) (cx : Context) : (w.retire cx).nextId = w.nextId := by
  unfold retire
  dsimp only
  split <;> rfl

theorem registry_retire (w : World σ) (cx : Context) :
    (w.retire cx).registry = w.registry.retire cx := by
  unfold retire
  dsimp only
  split <;> rfl

theorem blockRefs_retire (w : World σ) (cx : Context) :
    (w.retire cx).blockRefs = w.blockRefs := by
  unfold retire
  dsimp only
  split <;> rfl

/-- A reference that is not the last one to its context is just given up. -/
theorem release_of_alive (hr : w.holds r.id = true)
    (ha : (w.relinquish r).contextAlive r.owner = true) : w.release r = w.relinquish r := by
  unfold release
  rw [if_pos hr]
  exact if_pos ha

/-- With the last reference the context comes to its end. -/
theorem release_of_dead (hr : w.holds r.id = true)
    (ha : (w.relinquish r).contextAlive r.owner = false) :
    w.release r = (w.relinquish r).retire r.owner := by
  unfold release
  rw [if_pos hr]
  exact if_neg (Bool.eq_false_iff.mp ha)

theorem held_release (hr : w.holds r.id = true) :
    (w.release r).held = w.held.eraseP (·.id == r.id) := by
  cases ha : (w.relinquish r).contextAlive r.owner with
  | true => rw [release_of_alive hr ha, relinquish]
  | false =>
    rw [release_of_dead hr ha, held_retire]
    rfl

end Retire

/-! ## New wrappers -/

/-- The world after something new was made, which is held. -/
def made (r : Reference) (w : World σ) : World σ :=
  { w with nextId := w.nextId + 1, held := r :: w.held }

/-- The world after a context was bound. -/
def bound (cx : Context) (w : World σ) : World σ :=
  { (w.made (.context cx)).setCaches cx {} with registry := w.registry.enter cx }

theorem occupant?_bound (cx : Context) (w : World σ) (p : Place) :
    (w.bound cx).occupant? p = if p.context = cx.id then none else w.occupant? p := by
  refine (occupant?_setCaches (w.made (.context cx)) cx {} p).trans ?_
  rw [Caches.occupant?_empty]
  rfl

/-- A wrapper takes a place: it is there, what else lives stays, and nothing else comes. -/
structure Entered (r : Reference) (p : Place) (w w' : World σ) : Prop where
  frame : w' = { w with caches := w'.caches }
  self : w'.occupant? p = some r
  old : ∀ q r', w'.occupant? q = some r' → q = p ∨ w.occupant? q = some r'
  kept : ∀ q r', w.occupant? q = some r' → w.holds r'.id = true → q = p ∨ w'.occupant? q = some r'

theorem entered_setCaches {s : WrapperSort} {a : Nat} {c : Caches}
    (hself : c.occupant? s a = some r)
    (hold : ∀ s' a' r', c.occupant? s' a' = some r' →
      (s' = s ∧ a' = a) ∨ (w.cachesOf cx).occupant? s' a' = some r')
    (hkept : ∀ s' a' r', (w.cachesOf cx).occupant? s' a' = some r' → w.holds r'.id = true →
      (s' = s ∧ a' = a) ∨ c.occupant? s' a' = some r') :
    Entered r ⟨cx.id, s, a⟩ w (w.setCaches cx c) where
  frame := rfl
  self := by rw [occupant?_setCaches, if_pos rfl, hself]
  old := by
    rintro ⟨k, s', a'⟩ r' h
    rw [occupant?_setCaches] at h
    by_cases hk : k = cx.id
    · subst hk
      rw [if_pos rfl] at h
      rcases hold s' a' r' h with ⟨rfl, rfl⟩ | h
      · exact Or.inl rfl
      · exact Or.inr h
    · rw [if_neg hk] at h
      exact Or.inr h
  kept := by
    rintro ⟨k, s', a'⟩ r' h ha
    rw [occupant?_setCaches]
    by_cases hk : k = cx.id
    · subst hk
      rw [if_pos rfl]
      rcases hkept s' a' r' h ha with ⟨rfl, rfl⟩ | h
      · exact Or.inl rfl
      · exact Or.inr h
    · rw [if_neg hk]
      exact Or.inr h

theorem entered_enterType (t : TypeWrapper) (w : World σ) :
    Entered (.type t) ⟨t.context.id, .type, t.handle.address⟩ w (w.enterType t) := by
  refine entered_setCaches ?_ ?_ ?_
  · exact congrArg (Option.map _) WeakCache.get?_insert_self
  · intro s a r h
    cases s with
    | value => exact Or.inr h
    | type =>
      obtain ⟨t', ht', rfl⟩ := Option.map_eq_some_iff.mp h
      rcases WeakCache.get?_of_get?_insert ht' with ⟨rfl, -⟩ | ⟨-, ht'⟩
      · exact Or.inl ⟨rfl, rfl⟩
      · exact Or.inr (congrArg (Option.map _) ht')
  · intro s a r h ha
    cases s with
    | value => exact Or.inr h
    | type =>
      obtain ⟨t', ht', rfl⟩ := Option.map_eq_some_iff.mp h
      by_cases hk : a = t.handle.address
      · exact Or.inl ⟨rfl, hk⟩
      · exact Or.inr (congrArg (Option.map _) (WeakCache.get?_insert_of_alive hk ht' ha))

theorem entered_enterValue (v : ValueWrapper) (w : World σ) :
    Entered (.value v) ⟨v.context.id, .value, v.handle.address⟩ w (w.enterValue v) := by
  refine entered_setCaches ?_ ?_ ?_
  · exact congrArg (Option.map _) WeakCache.get?_insert_self
  · intro s a r h
    cases s with
    | type => exact Or.inr h
    | value =>
      obtain ⟨v', hv', rfl⟩ := Option.map_eq_some_iff.mp h
      rcases WeakCache.get?_of_get?_insert hv' with ⟨rfl, -⟩ | ⟨-, hv'⟩
      · exact Or.inl ⟨rfl, rfl⟩
      · exact Or.inr (congrArg (Option.map _) hv')
  · intro s a r h ha
    cases s with
    | type => exact Or.inr h
    | value =>
      obtain ⟨v', hv', rfl⟩ := Option.map_eq_some_iff.mp h
      by_cases hk : a = v.handle.address
      · exact Or.inl ⟨rfl, hk⟩
      · exact Or.inr (congrArg (Option.map _) (WeakCache.get?_insert_of_alive hk hv' ha))

end World

end CanonIR
