import CanonIR.Proofs.Binding.Place
import CanonIR.Proofs.Binding.Gate

/-!
The invariant behind canonical identity. `Sound` says that no two objects share an identity, that a
wrapper in a cache stands at the place of its own handle, and that every held wrapper stands there,
unless its handle has been forgotten since it was made. Each change of the bindings keeps it.
-/

namespace CanonIR

/-- A forgetting of a handle in a context. Its time is the identity that the next object gets, so
the objects made before it are those with smaller identities. -/
structure Forgetting where
  context : Nat
  handle : ValueRef
  time : Nat
  deriving DecidableEq

namespace Forgetting

/-- Whether an object is a wrapper of the handle in the context, made before. -/
def Hits (f : Forgetting) : Reference → Prop
  | .value v => v.context.id = f.context ∧ v.handle = f.handle ∧ v.id < f.time
  | _ => False

instance (f : Forgetting) (r : Reference) : Decidable (f.Hits r) := by
  cases r <;> unfold Hits <;> infer_instance

end Forgetting

/-- Whether the handle of a wrapper has been forgotten since the wrapper was made. -/
def Reference.Forgotten (log : List Forgetting) (r : Reference) : Prop := ∃ f ∈ log, f.Hits r

instance (log : List Forgetting) (r : Reference) : Decidable (r.Forgotten log) :=
  inferInstanceAs (Decidable (∃ f ∈ log, f.Hits r))

theorem Reference.forgotten_cons {f : Forgetting} {log : List Forgetting} {r : Reference} :
    r.Forgotten (f :: log) ↔ f.Hits r ∨ r.Forgotten log := by
  simp [Forgotten]

/-- An object, and its context, that had their identities from `names` before the time `n`. -/
structure Named (names : Nat → Reference) (n : Nat) (r : Reference) : Prop where
  lt : r.id < n
  eq : names r.id = r
  owner_lt : r.owner.id < n
  owner_eq : names r.owner.id = .context r.owner

namespace Named

variable {names names' : Nat → Reference} {n n' : Nat} {r r' : Reference}

theorem eq_of_id_eq (h : Named names n r) (h' : Named names n' r') (hid : r.id = r'.id) : r = r' := by
  rw [← h.eq, ← h'.eq, hid]

/-- The context of a named object is named. -/
theorem owner (h : Named names n r) : Named names n (.context r.owner) :=
  ⟨h.owner_lt, h.owner_eq, h.owner_lt, h.owner_eq⟩

/-- Names are given once. -/
theorem update (h : Named names n r) (r' : Reference) :
    Named (Function.update names n r') (n + 1) r where
  lt := Nat.lt_succ_of_lt h.lt
  eq := by rw [Function.update_of_ne (Nat.ne_of_lt h.lt), h.eq]
  owner_lt := Nat.lt_succ_of_lt h.owner_lt
  owner_eq := by rw [Function.update_of_ne (Nat.ne_of_lt h.owner_lt), h.owner_eq]

end Named

/-- The invariant: what is held or noted has a name of its own, and wrappers stand in their places. -/
structure Sound {σ : Type} (names : Nat → Reference) (log : List Forgetting) (w : World σ) :
    Prop where
  held_named : ∀ r ∈ w.held, Named names w.nextId r
  occupant_named : ∀ p r, w.occupant? p = some r → Named names w.nextId r
  registry_named : ∀ k cx, w.registry.get? k = some cx → Named names w.nextId (.context cx)
  place : ∀ p r, w.occupant? p = some r → r.place? = some p ∧ p.address ≠ 0
  fresh : ∀ p r, w.occupant? p = some r → ¬ r.Forgotten log
  stands : ∀ r ∈ w.held, ∀ p, r.place? = some p → ¬ r.Forgotten log → w.occupant? p = some r
  log_le : ∀ f ∈ log, f.time ≤ w.nextId

theorem eraseP_congr {α : Type} {p q : α → Bool} {l : List α} (h : ∀ a ∈ l, p a = q a) :
    l.eraseP p = l.eraseP q := by
  induction l with
  | nil => rfl
  | cons a l ih =>
    rw [List.eraseP_cons, List.eraseP_cons, h a List.mem_cons_self,
      ih fun b hb => h b (List.mem_cons_of_mem a hb)]

namespace Sound

variable {σ : Type} {names : Nat → Reference} {log : List Forgetting} {w w' : World σ}
variable {r : Reference} {cx : Context}

theorem start (names : Nat → Reference) (s : σ) : Sound names [] ({ native := s } : World σ) where
  held_named r hr := nomatch hr
  occupant_named p r h := by
    rw [World.occupant?_start] at h
    exact nomatch h
  registry_named k cx h := nomatch h
  place p r h := by
    rw [World.occupant?_start] at h
    exact nomatch h
  fresh p r _ := by simp [Reference.Forgotten]
  stands r hr := nomatch hr
  log_le f hf := nomatch hf

/-- Only references, caches, the registry and the next identity matter. -/
theorem congr (h : Sound names log w) (hheld : w'.held = w.held) (hc : w'.caches = w.caches)
    (hr : w'.registry = w.registry) (hn : w'.nextId = w.nextId) : Sound names log w' := by
  obtain ⟨h1, h2, h3, h4, h5, h6, h7⟩ := h
  rw [← hheld, ← hn] at h1
  rw [← hr, ← hn] at h3
  rw [← hheld] at h6
  rw [← hn] at h7
  have ho (p : Place) : w'.occupant? p = w.occupant? p := by
    rw [World.occupant?, World.occupant?, hc]
  simp only [← ho, ← hn] at h2 h4 h5 h6
  exact ⟨h1, h2, h3, h4, h5, h6, h7⟩

/-- The order in which handles were forgotten does not matter. -/
theorem congr_log (h : Sound names log w) {log' : List Forgetting}
    (hl : ∀ f, f ∈ log' ↔ f ∈ log) : Sound names log' w := by
  have hf (r : Reference) : r.Forgotten log' ↔ r.Forgotten log :=
    exists_congr fun f => and_congr_left' (hl f)
  exact { h with
    fresh := fun p r hr => mt (hf r).mp (h.fresh p r hr)
    stands := fun r hr p hp hn => h.stands r hr p hp (mt (hf r).mpr hn)
    log_le := fun f hm => h.log_le f ((hl f).mp hm) }

theorem aside (h : Sound names log w) (ha : w.Aside w') : Sound names log w' := by
  obtain ⟨s, e, rfl⟩ := ha
  exact h.congr rfl rfl rfl rfl

/-- Two held objects with one identity are the same. -/
theorem eq_of_id_eq (h : Sound names log w) {r r' : Reference} (hr : r ∈ w.held)
    (hr' : r' ∈ w.held) (hid : r.id = r'.id) : r = r' :=
  (h.held_named r hr).eq_of_id_eq (h.held_named r' hr') hid

/-- A living wrapper in a cache is held. -/
theorem mem_of_holds (h : Sound names log w) {p : Place} (hp : w.occupant? p = some r)
    (hr : w.holds r.id = true) : r ∈ w.held := by
  obtain ⟨r', hr', hid⟩ := World.holds_iff.mp hr
  rw [← (h.held_named r' hr').eq_of_id_eq (h.occupant_named p r hp) hid]
  exact hr'

/-! ## References -/

theorem hold (h : Sound names log w)
    (hr : r ∈ w.held ∨ ∃ r' ∈ w.held, r = .context r'.owner) : Sound names log (w.hold r) := by
  have hn : Named names w.nextId r := by
    rcases hr with hr | ⟨r', hr', rfl⟩
    · exact h.held_named r hr
    · exact (h.held_named r' hr').owner
  refine { h with held_named := ?_, stands := ?_ }
  · intro r' hr'
    rcases List.mem_cons.mp hr' with rfl | hr'
    · exact hn
    · exact h.held_named r' hr'
  · intro r' hr' p hp
    rcases List.mem_cons.mp hr' with rfl | hr'
    · rcases hr with hr | ⟨r'', -, rfl⟩
      · exact h.stands _ hr p hp
      · exact nomatch hp
    · exact h.stands r' hr' p hp

/-- A retired context takes only its own wrappers along, and none of these is held. -/
theorem retire [NativeSystem σ] (h : Sound names log w) (hcx : w.contextAlive cx = false) :
    Sound names log (w.retire cx) := by
  have hheld : (w.retire cx).held = w.held := World.held_retire w cx
  have hn : (w.retire cx).nextId = w.nextId := World.nextId_retire w cx
  have hocc (p : Place) (r : Reference) (hr : (w.retire cx).occupant? p = some r) :
      w.occupant? p = some r := by
    rw [World.occupant?_retire] at hr
    split at hr
    · contradiction
    · exact hr
  refine ⟨?_, ?_, ?_, ?_, ?_, ?_, ?_⟩
  · rw [hheld, hn]
    exact h.held_named
  · rw [hn]
    exact fun p r hr => h.occupant_named p r (hocc p r hr)
  · rw [hn, World.registry_retire]
    intro k cx' hk
    refine h.registry_named k cx' ?_
    unfold Registry.retire at hk
    split at hk
    · exact (Table.get?_of_get?_erase hk).2
    · exact hk
  · exact fun p r hr => h.place p r (hocc p r hr)
  · exact fun p r hr => h.fresh p r (hocc p r hr)
  · rw [hheld]
    intro r hr p hp hf
    rw [World.occupant?_retire, if_neg, h.stands r hr p hp hf]
    intro hpc
    have ha : w.contextAlive cx = true :=
      World.contextAlive_iff.mpr ⟨r, hr, by rw [Reference.owner_id_of_place? hp, hpc]⟩
    rw [hcx] at ha
    contradiction
  · rw [hn]
    exact h.log_le

theorem relinquish (h : Sound names log w) (r : Reference) : Sound names log (w.relinquish r) :=
  { h with
    held_named := fun r' hr' => h.held_named r' (List.mem_of_mem_eraseP hr')
    stands := fun r' hr' => h.stands r' (List.mem_of_mem_eraseP hr') }

theorem release [NativeSystem σ] (h : Sound names log w) (r : Reference) :
    Sound names log (w.release r) := by
  cases hr : w.holds r.id with
  | false =>
    unfold World.release
    rw [if_neg (by simp [hr])]
    exact h
  | true =>
    cases ha : (w.relinquish r).contextAlive r.owner with
    | true =>
      rw [World.release_of_alive hr ha]
      exact h.relinquish r
    | false =>
      rw [World.release_of_dead hr ha]
      exact (h.relinquish r).retire ha

/-- The reference that is given up is the one that is named. -/
theorem held_release [NativeSystem σ] (h : Sound names log w) {r : Reference} (hr : r ∈ w.held) :
    (w.release r).held = w.held.erase r := by
  rw [World.held_release (World.holds_of_mem hr), List.erase_eq_eraseP]
  refine eraseP_congr fun r' hr' => ?_
  rw [Bool.eq_iff_iff, beq_iff_eq, beq_iff_eq]
  exact ⟨fun hid => h.eq_of_id_eq hr hr' hid.symm, fun he => he ▸ rfl⟩

theorem noteBlockRef (h : Sound names log w) (bb : BasicBlock) (b : BlockRef) :
    Sound names log (w.noteBlockRef bb b) := by
  unfold World.noteBlockRef
  split
  · exact h
  · exact h.congr rfl rfl rfl rfl

/-! ## New objects -/

/-- Nothing that was forgotten touches a new object. -/
theorem not_forgotten (h : Sound names log w) (hid : r.id = w.nextId) : ¬ r.Forgotten log := by
  intro hx
  obtain ⟨f, hf, hhit⟩ := hx
  have hle := h.log_le f hf
  cases r with
  | value v =>
    have hlt : v.id < f.time := hhit.2.2
    have hv : v.id = w.nextId := hid
    omega
  | type t => exact hhit
  | context cx => exact hhit

/-- A new wrapper whose place is free, of a context that lives. -/
theorem enter (h : Sound names log w) {p : Place} (hcx : ∃ r₀ ∈ w.held, r₀.owner = r.owner)
    (hid : r.id = w.nextId) (hp : r.place? = some p) (h0 : p.address ≠ 0)
    (hfree : ∀ r', w.occupant? p = some r' → w.holds r'.id = false)
    (he : World.Entered r p (w.made r) w') :
    Sound (Function.update names w.nextId r) log w' := by
  obtain ⟨r₀, hr₀, ho⟩ := hcx
  have hr : Named (Function.update names w.nextId r) (w.nextId + 1) r := by
    have hn := (h.held_named r₀ hr₀).update r
    refine ⟨by omega, by rw [hid, Function.update_self], ?_, ?_⟩
    · exact ho ▸ hn.owner_lt
    · exact ho ▸ hn.owner_eq
  have hheld : w'.held = r :: w.held := by rw [he.frame, World.made]
  have hn : w'.nextId = w.nextId + 1 := by rw [he.frame, World.made]
  have hreg : w'.registry = w.registry := by rw [he.frame, World.made]
  -- Whoever stands at a place either came now or stood there before.
  have hocc {P : Place → Reference → Prop} (hself : P p r)
      (hold : ∀ q r', w.occupant? q = some r' → P q r') (q : Place) (r' : Reference)
      (hq : w'.occupant? q = some r') : P q r' := by
    rcases he.old q r' hq with rfl | hq'
    · obtain rfl := Option.some.inj (he.self.symm.trans hq)
      exact hself
    · exact hold q r' hq'
  refine ⟨?_, ?_, ?_, ?_, ?_, ?_, ?_⟩
  · rw [hheld, hn]
    intro r' hr'
    rcases List.mem_cons.mp hr' with rfl | hr'
    · exact hr
    · exact (h.held_named r' hr').update r
  · rw [hn]
    exact hocc hr fun q r' hq => (h.occupant_named q r' hq).update r
  · rw [hn, hreg]
    exact fun k cx hk => (h.registry_named k cx hk).update r
  · exact hocc ⟨hp, h0⟩ h.place
  · exact hocc (h.not_forgotten hid) h.fresh
  · rw [hheld]
    intro r' hr' q hq hf
    rcases List.mem_cons.mp hr' with rfl | hr'
    · obtain rfl := Option.some.inj (hp.symm.trans hq)
      exact he.self
    · have hw := h.stands r' hr' q hq hf
      rcases he.kept q r' hw (World.holds_of_mem (List.mem_cons_of_mem r hr')) with rfl | hq'
      · have := hfree r' hw
        rw [World.holds_of_mem hr'] at this
        exact nomatch this
      · exact hq'
  · rw [hn]
    exact fun f hf => Nat.le_succ_of_le (h.log_le f hf)

/-- A new context, which starts with empty caches. -/
theorem bind (h : Sound names log w) (hid : cx.id = w.nextId) :
    Sound (Function.update names w.nextId (.context cx)) log (w.bound cx) := by
  have hcx : Named (Function.update names w.nextId (.context cx)) (w.nextId + 1) (.context cx) := by
    have hself : Function.update names w.nextId (.context cx) cx.id = .context cx := by
      rw [hid, Function.update_self]
    exact ⟨Nat.lt_succ_of_le (Nat.le_of_eq hid), hself, Nat.lt_succ_of_le (Nat.le_of_eq hid), hself⟩
  have hold (p : Place) (r : Reference) (hr : (w.bound cx).occupant? p = some r) :
      w.occupant? p = some r := by
    rw [World.occupant?_bound] at hr
    split at hr
    · exact nomatch hr
    · exact hr
  refine ⟨?_, ?_, ?_, ?_, ?_, ?_, ?_⟩
  · intro r hr
    rcases List.mem_cons.mp hr with rfl | hr
    · exact hcx
    · exact (h.held_named r hr).update _
  · exact fun p r hr => (h.occupant_named p r (hold p r hr)).update _
  · intro k cx' hk
    rcases Table.get?_of_get?_insert hk with ⟨-, rfl⟩ | ⟨-, hk⟩
    · exact hcx
    · exact (h.registry_named k cx' hk).update _
  · exact fun p r hr => h.place p r (hold p r hr)
  · exact fun p r hr => h.fresh p r (hold p r hr)
  · intro r hr p hp hf
    rcases List.mem_cons.mp hr with rfl | hr
    · exact nomatch hp
    · rw [World.occupant?_bound, if_neg, h.stands r hr p hp hf]
      have := (h.held_named r hr).owner_lt
      rw [Reference.owner_id_of_place? hp] at this
      omega
  · exact fun f hf => Nat.le_succ_of_le (h.log_le f hf)

/-! ## Forgetting -/

/-- A wrapper of a handle is hit when the handle is forgotten. -/
theorem hits_of_place {names : Nat → Reference} {n : Nat} {h : ValueRef} (hn : Named names n r)
    (hp : r.place? = some ⟨cx.id, .value, h.address⟩) : Forgetting.Hits ⟨cx.id, h, n⟩ r := by
  cases r with
  | context _ => simp [Reference.place?] at hp
  | type _ => simp [Reference.place?] at hp
  | value v =>
    obtain ⟨hc, ha⟩ : v.context.id = cx.id ∧ v.handle.address = h.address := by
      simpa [Reference.place?] using hp
    exact ⟨hc, congrArg Handle.mk ha, hn.lt⟩

theorem place_of_hits {f : Forgetting} {p : Place} (hp : r.place? = some p) (hf : f.Hits r) :
    p = ⟨f.context, .value, f.handle.address⟩ := by
  cases r with
  | context _ => exact hf.elim
  | type _ => exact hf.elim
  | value v =>
    obtain rfl := Option.some.inj hp
    obtain ⟨hc, hh, -⟩ := hf
    rw [hc, hh]

theorem forget (h : Sound names log w) (cx : Context) (v : ValueRef) :
    Sound names (⟨cx.id, v, w.nextId⟩ :: log) (w.forgetValue cx v) := by
  have hold (p : Place) (r : Reference) (hr : (w.forgetValue cx v).occupant? p = some r) :
      p ≠ ⟨cx.id, .value, v.address⟩ ∧ w.occupant? p = some r := by
    rw [World.occupant?_forgetValue] at hr
    split at hr
    · exact nomatch hr
    · next hp => exact ⟨hp, hr⟩
  refine ⟨h.held_named, fun p r hr => h.occupant_named p r (hold p r hr).2, h.registry_named,
    fun p r hr => h.place p r (hold p r hr).2, ?_, ?_, ?_⟩
  · intro p r hr
    obtain ⟨hp, hr⟩ := hold p r hr
    rw [Reference.forgotten_cons]
    rintro (hhit | hf)
    · exact hp (place_of_hits (h.place p r hr).1 hhit)
    · exact h.fresh p r hr hf
  · intro r hr p hp hf
    rw [Reference.forgotten_cons, not_or] at hf
    rw [World.occupant?_forgetValue, if_neg, h.stands r hr p hp hf.2]
    intro heq
    subst heq
    exact hf.1 (hits_of_place (h.held_named r hr) hp)
  · intro f hf
    rcases List.mem_cons.mp hf with rfl | hf
    · exact Nat.le_refl _
    · exact h.log_le f hf

end Sound

end CanonIR
