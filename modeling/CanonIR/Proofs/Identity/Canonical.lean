import Mathlib.Data.List.Dedup
import CanonIR.Proofs.Identity.Sound

/-!
Canonical identity. A held wrapper is canonical unless its handle has been forgotten since it was
made. In a sound world a canonical wrapper is the only one of its handle in its context, the gates
return it without a question to the library, and the counts of living wrappers count exactly the
canonical ones.
-/

namespace CanonIR

/-- A wrapper that is held, and whose handle has not been forgotten since it was made. -/
def Reference.Canonical {σ : Type} (log : List Forgetting) (w : World σ) (r : Reference) : Prop :=
  r ∈ w.held ∧ ¬ r.Forgotten log

/-- The different canonical wrappers of a context. -/
def World.canonicals {σ : Type} (log : List Forgetting) (w : World σ) (cx : Context)
    (s : WrapperSort) : List Reference :=
  (w.held.filter fun r =>
    r.place?.any (fun p => p.context = cx.id ∧ p.sort = s) ∧ ¬ r.Forgotten log).dedup

/-- What canonical identity means for the state of the bindings. -/
structure CanonicalIdentity {σ : Type} [NativeSystem σ] (log : List Forgetting) (w : World σ) :
    Prop where
  /-- Canonical wrappers of one type in one context are the same object. -/
  type_unique : ∀ t t' : TypeWrapper,
    (Reference.type t).Canonical log w → (Reference.type t').Canonical log w →
      t.context.id = t'.context.id → t.handle = t'.handle → t = t'
  /-- Canonical wrappers of one value in one context are the same object. -/
  value_unique : ∀ v v' : ValueWrapper,
    (Reference.value v).Canonical log w → (Reference.value v').Canonical log w →
      v.context.id = v'.context.id → v.handle = v'.handle → v = v'
  /-- The gate returns the canonical wrapper of a type, and does nothing but to hold it. -/
  type_gate : ∀ t : TypeWrapper, (Reference.type t).Canonical log w →
    (Action.internType t.context t.handle).apply w = (.ok (some t), w.hold (.type t))
  /-- The gate returns the canonical wrapper of a value, and does nothing but to hold it. -/
  value_gate : ∀ v : ValueWrapper, (Reference.value v).Canonical log w →
    (Action.internValue v.context v.handle).apply w = (.ok (some v), w.hold (.value v))
  /-- A living type in a cache stands under its own address in the cache of its own context. -/
  type_place : ∀ k c a t, w.caches.get? k = some c → c.types.entries.get? a = some t →
    a ≠ 0 ∧ (w.typeAlive t = true → a = t.handle.address ∧ k = t.context.id)
  /-- A living value in a cache stands under its own address in the cache of its own context. -/
  value_place : ∀ k c a v, w.caches.get? k = some c → c.values.entries.get? a = some v →
    a ≠ 0 ∧ (w.valueAlive v = true → a = v.handle.address ∧ k = v.context.id)
  /-- The living types of a context are its canonical ones. -/
  type_count : ∀ cx : Context, w.liveTypes cx = (w.canonicals log cx .type).length
  /-- The living values of a context are its canonical ones. -/
  value_count : ∀ cx : Context, w.liveValues cx = (w.canonicals log cx .value).length

namespace Sound

variable {σ : Type} {names : Nat → Reference} {log : List Forgetting} {w : World σ}
variable {r r' : Reference} {p : Place}

/-- At most one canonical wrapper belongs to a place. -/
theorem eq_of_place (h : Sound names log w) (hr : r.Canonical log w) (hr' : r'.Canonical log w)
    (hp : r.place? = some p) (hp' : r'.place? = some p) : r = r' := by
  have ho := h.stands r hr.1 p hp hr.2
  rw [h.stands r' hr'.1 p hp' hr'.2] at ho
  exact (Option.some.inj ho).symm

/-- The living wrappers in caches are the canonical ones in their places. -/
theorem canonical_iff (h : Sound names log w) :
    w.occupant? p = some r ∧ w.holds r.id = true ↔ r.Canonical log w ∧ r.place? = some p := by
  constructor
  · intro hx
    obtain ⟨ho, ha⟩ := hx
    exact ⟨⟨h.mem_of_holds ho ha, h.fresh p r ho⟩, (h.place p r ho).1⟩
  · intro hx
    obtain ⟨⟨hr, hf⟩, hp⟩ := hx
    exact ⟨h.stands r hr p hp hf, World.holds_of_mem hr⟩

theorem lookup_types (h : Sound names log w) {t : TypeWrapper}
    (ht : (Reference.type t).Canonical log w) :
    (w.cachesOf t.context).types.lookup w.typeAlive t.handle.address = some t :=
  World.lookup_types_eq_some_iff.mpr (h.canonical_iff.mpr ⟨ht, rfl⟩)

theorem lookup_values (h : Sound names log w) {v : ValueWrapper}
    (hv : (Reference.value v).Canonical log w) :
    (w.cachesOf v.context).values.lookup w.valueAlive v.handle.address = some v :=
  World.lookup_values_eq_some_iff.mpr (h.canonical_iff.mpr ⟨hv, rfl⟩)

/-- A canonical wrapper is not one of the null handle. -/
theorem isNull_eq_false (h : Sound names log w) (hr : r.Canonical log w) {k : HandleKind}
    {x : Handle k} (hp : r.place? = some p) (hx : p.address = x.address) : x.isNull = false := by
  have h0 := (h.place p r (h.stands r hr.1 p hp hr.2)).2
  rw [hx] at h0
  exact Handle.isNull_eq_false_iff.mpr h0

/-- The number of entries of a table of wrappers that stand in the places of their addresses. -/
theorem size_eq_length {α : Type} {t : Table Nat α} {f : α → Reference} {l : List Reference}
    {k : Nat} {s : WrapperSort} (hl : l.Nodup)
    (hplace : ∀ a x, t.get? a = some x → (f x).place? = some ⟨k, s, a⟩)
    (hmem : ∀ r, r ∈ l ↔ ∃ a x, t.get? a = some x ∧ f x = r) : t.size = l.length := by
  have hnd : (t.entries.map fun e => f e.2).Nodup := by
    refine List.Nodup.of_map Reference.place? ?_
    rw [List.map_map]
    have hk : t.entries.map (Reference.place? ∘ fun e => f e.2) =
        (t.entries.map Prod.fst).map fun a => some ⟨k, s, a⟩ := by
      rw [List.map_map]
      refine List.map_congr_left fun e he => ?_
      exact hplace e.1 e.2 (Table.get?_eq_some_iff.mpr he)
    rw [hk]
    refine t.nodup.map fun a b hab => ?_
    exact (Place.mk.inj (Option.some.inj hab)).2.2
  have hperm : (t.entries.map fun e => f e.2).Perm l := by
    refine (List.perm_ext_iff_of_nodup hnd hl).mpr fun r => ?_
    rw [hmem, List.mem_map]
    constructor
    · intro hx
      obtain ⟨e, he, rfl⟩ := hx
      exact ⟨e.1, e.2, Table.get?_eq_some_iff.mpr he, rfl⟩
    · intro hx
      obtain ⟨a, x, hx, rfl⟩ := hx
      exact ⟨(a, x), Table.get?_eq_some_iff.mp hx, rfl⟩
  have := hperm.length_eq
  rw [List.length_map] at this
  exact this

theorem mem_canonicals {cx : Context} {s : WrapperSort} :
    r ∈ w.canonicals log cx s ↔ r.Canonical log w ∧ ∃ a, r.place? = some ⟨cx.id, s, a⟩ := by
  simp only [World.canonicals, List.mem_dedup, List.mem_filter, decide_eq_true_eq]
  rw [← and_assoc, and_right_comm]
  refine and_congr Iff.rfl ?_
  cases hp : r.place? with
  | none => simp
  | some p =>
    obtain ⟨k, s', a⟩ := p
    simp only [Option.any_some, decide_eq_true_eq, Option.some.injEq, Place.mk.injEq]
    exact ⟨fun ⟨hk, hs⟩ => ⟨a, hk, hs, rfl⟩, fun ⟨_, hk, hs, _⟩ => ⟨hk, hs⟩⟩

/-- A table that holds the canonical wrappers of one sort under their addresses has as many entries
as there are such wrappers. -/
theorem size_eq_canonicals {α : Type} {t : Table Nat α} {f : α → Reference} {cx : Context}
    {s : WrapperSort} (hsort : ∀ r a, r.place? = some ⟨cx.id, s, a⟩ → ∃ x, f x = r)
    (hget : ∀ a x, t.get? a = some x ↔
      (f x).Canonical log w ∧ (f x).place? = some ⟨cx.id, s, a⟩) :
    t.size = (w.canonicals log cx s).length := by
  refine size_eq_length (List.nodup_dedup _) (fun a x hx => ((hget a x).mp hx).2) fun r => ?_
  rw [mem_canonicals]
  constructor
  · intro hr
    obtain ⟨hr, a, hp⟩ := hr
    obtain ⟨x, rfl⟩ := hsort r a hp
    exact ⟨a, x, (hget a x).mpr ⟨hr, hp⟩, rfl⟩
  · intro hx
    obtain ⟨a, x, hx, rfl⟩ := hx
    obtain ⟨hr, hp⟩ := (hget a x).mp hx
    exact ⟨hr, a, hp⟩

theorem liveTypes_eq (h : Sound names log w) (cx : Context) :
    w.liveTypes cx = (w.canonicals log cx .type).length := by
  refine size_eq_canonicals (f := Reference.type) (fun r a hp => ?_) fun a t => ?_
  · cases r with
    | type t => exact ⟨t, rfl⟩
    | value v => simp [Reference.place?] at hp
    | context cx => simp [Reference.place?] at hp
  · rw [← h.canonical_iff, Table.get?_filter, World.occupant?_eq, Caches.occupant?]
    simp [Option.filter_eq_some_iff, World.typeAlive, Reference.id]

theorem liveValues_eq (h : Sound names log w) (cx : Context) :
    w.liveValues cx = (w.canonicals log cx .value).length := by
  refine size_eq_canonicals (f := Reference.value) (fun r a hp => ?_) fun a v => ?_
  · cases r with
    | value v => exact ⟨v, rfl⟩
    | type t => simp [Reference.place?] at hp
    | context cx => simp [Reference.place?] at hp
  · rw [← h.canonical_iff, Table.get?_filter, World.occupant?_eq, Caches.occupant?]
    simp [Option.filter_eq_some_iff, World.valueAlive, Reference.id]

theorem occupant?_of_get? {k : Nat} {c : Caches} (hk : w.caches.get? k = some c) (s : WrapperSort)
    (a : Nat) : w.occupant? ⟨k, s, a⟩ = c.occupant? s a := by
  rw [World.occupant?, hk]
  rfl

/-- Sound worlds have canonical identity. -/
theorem identity [NativeSystem σ] (h : Sound names log w) : CanonicalIdentity log w where
  type_unique t t' ht ht' hcx hh := by
    have hp : (Reference.type t').place? = some ⟨t.context.id, .type, t.handle.address⟩ := by
      rw [hcx, hh]
      rfl
    exact Reference.type.inj (h.eq_of_place ht ht' rfl hp)
  value_unique v v' hv hv' hcx hh := by
    have hp : (Reference.value v').place? = some ⟨v.context.id, .value, v.handle.address⟩ := by
      rw [hcx, hh]
      rfl
    exact Reference.value.inj (h.eq_of_place hv hv' rfl hp)
  type_gate t ht := Action.apply_internType_hit (h.isNull_eq_false ht rfl rfl) (h.lookup_types ht)
  value_gate v hv :=
    Action.apply_internValue_hit (h.isNull_eq_false hv rfl rfl) (h.lookup_values hv)
  type_place k c a t hk ht := by
    have ho : w.occupant? ⟨k, .type, a⟩ = some (.type t) := by
      rw [occupant?_of_get? hk, Caches.occupant?, ht]
      rfl
    obtain ⟨hp, h0⟩ := h.place _ _ ho
    have hp := Place.mk.inj (Option.some.inj hp)
    exact ⟨h0, fun _ => ⟨hp.2.2.symm, hp.1.symm⟩⟩
  value_place k c a v hk hv := by
    have ho : w.occupant? ⟨k, .value, a⟩ = some (.value v) := by
      rw [occupant?_of_get? hk, Caches.occupant?, hv]
      rfl
    obtain ⟨hp, h0⟩ := h.place _ _ ho
    have hp := Place.mk.inj (Option.some.inj hp)
    exact ⟨h0, fun _ => ⟨hp.2.2.symm, hp.1.symm⟩⟩
  type_count := h.liveTypes_eq
  value_count := h.liveValues_eq

end Sound

end CanonIR
