import CanonIR.Proofs.Identity.Frame

/-!
What primitives do to bindings. A primitive that gives nothing up works on contexts that live, or it
makes one binding, which is new (`Sound.bound_perform`). So a list of the bindings made so far stays
a list of them if each new one is added (`Names`).
-/

namespace CanonIR

namespace World

variable {σ : Type}

theorem cachesOf_bound (cx : Context) (w : World σ) : (w.bound cx).cachesOf cx = {} := by
  have h : (w.bound cx).caches.get? cx.id = some {} :=
    (Table.get?_insert _ _ _ _).trans (if_pos rfl)
  rw [cachesOf, h]
  rfl

theorem get?_registry_bound (cx : Context) (w : World σ) (key : LibraryId × ContextRef) :
    (w.bound cx).registry.get? key = if key = cx.key then some cx else w.registry.get? key :=
  Table.get?_insert _ _ _ _

/-- A new context lives, and no other comes to life. -/
theorem contextAlive_bound {cx cx' : Context} {w : World σ} (hne : cx'.id ≠ cx.id) :
    (w.bound cx).contextAlive cx' = w.contextAlive cx' := by
  have h : (cx.id == cx'.id) = false := beq_false_of_ne hne.symm
  have hany : (w.bound cx).contextAlive cx' = (cx.id == cx'.id || w.contextAlive cx') := rfl
  rw [hany, h, Bool.false_or]

/-- Work brings no context to life, and ends none. -/
theorem Works.contextAlive {w w' : World σ} (h : w.Works w') (cx : Context) :
    w'.contextAlive cx = w.contextAlive cx := by
  rw [Bool.eq_iff_iff, contextAlive_iff, contextAlive_iff]
  constructor
  · intro hx
    obtain ⟨r, hr, hid⟩ := hx
    obtain ⟨r', hr', ho⟩ := h.owner r hr
    exact ⟨r', hr', ho ▸ hid⟩
  · intro hx
    obtain ⟨r, hr, hid⟩ := hx
    exact ⟨r, h.held hr, hid⟩

/-- Giving a reference up brings no context to life. -/
theorem contextAlive_relinquish {r : Reference} {cx : Context} {w : World σ}
    (h : (w.relinquish r).contextAlive cx = true) : w.contextAlive cx = true := by
  obtain ⟨r', hr', hid⟩ := contextAlive_iff.mp h
  exact contextAlive_iff.mpr ⟨r', List.mem_of_mem_eraseP hr', hid⟩

/-- Only the context of the reference may come to its end. -/
theorem contextAlive_relinquish_of_ne {names : Nat → Reference} {log : List Forgetting}
    {w : World σ} (h : Sound names log w) {r : Reference} (hr : r ∈ w.held) {cx : Context}
    (hne : cx.id ≠ r.owner.id) : (w.relinquish r).contextAlive cx = w.contextAlive cx := by
  rw [Bool.eq_iff_iff]
  refine ⟨contextAlive_relinquish, fun ha => ?_⟩
  obtain ⟨r', hr', hid⟩ := contextAlive_iff.mp ha
  refine contextAlive_iff.mpr ⟨r', (List.mem_eraseP_of_neg ?_).mpr hr', hid⟩
  intro hx
  obtain rfl := h.eq_of_id_eq hr' hr (beq_iff_eq.mp hx)
  exact hne hid.symm

end World

/-! ## One primitive -/

namespace Primitive

/-- Whether a primitive makes a native context. -/
def creates : Primitive → Bool
  | createContext _ _ => true
  | _ => false

/-- The context that a primitive returns. -/
def context? : (a : Primitive) → Except Fault a.Result → Option Context
  | createContext _ _, .ok cx => some cx
  | attachContext _ _ _, .ok cx => some cx
  | _, _ => none

end Primitive

/-- What a primitive that gives nothing up does to bindings: it works on contexts that live, and may
return one of these, or it makes one. That one owns its native context if this was made with it, and
else no living binding is known of it. -/
inductive Bound {σ : Type} (creates : Bool) (w : World σ) : Option Context → World σ → Prop where
  | works {x : Option Context} {w' : World σ} (h : w.Works w')
    (hx : ∀ cx, x = some cx → creates = false ∧ ∃ r ∈ w.held, r.owner = cx) : Bound creates w x w'
  | made {w₁ : World σ} {cx : Context} (h : w.Aside w₁) (hid : cx.id = w₁.nextId)
    (ho : cx.owned = creates)
    (hl : creates = false → w.registry.living? w.contextAlive cx.key = none) :
    Bound creates w (some cx) (w₁.bound cx)

section Perform

variable {σ : Type} [NativeSystem σ] {names : Nat → Reference} {log : List Forgetting}
variable {w : World σ}

theorem bound_createContext (lib : LibraryId) (options : ContextOptions) (w : World σ) :
    ∃ x w', (Action.createContext lib options).apply w = (x, w') ∧
      Bound true w x.toOption w' := by
  rcases createContext_cases lib options w with ⟨e, w₁, hx, ha⟩ | ⟨cx, w₁, hx, ha, hid, ho⟩
  · exact ⟨_, _, hx, .works ha.keeps.toWorks nofun⟩
  · exact ⟨_, _, hx, .made ha hid ho nofun⟩

omit [NativeSystem σ] in
theorem Sound.bound_attachContext (h : Sound names log w) (lib : LibraryId) (raw : ContextRef)
    (options : ContextOptions) :
    ∃ x w', (Action.attachContext lib raw options).apply w = (x, w') ∧
      Bound false w x.toOption w' := by
  cases hl : w.registry.living? w.contextAlive (lib, raw) with
  | none =>
    have he := Action.asks_emit (.attachedContext raw options.unknownValues) w
    exact ⟨_, _, apply_attachContext_fresh options hl, .made he rfl rfl fun _ => hl⟩
  | some cx =>
    obtain ⟨r, hr, ho⟩ := h.exists_of_living? hl
    have he := (Action.asks_emit (.reusedBinding raw) w).keeps
    have hk := he.trans (World.keeps_hold (Or.inr ⟨r, he.held hr, by rw [ho]⟩))
    refine ⟨_, _, apply_attachContext_living options hl, .works hk.toWorks ?_⟩
    intro cx' hx
    obtain rfl := Option.some.inj hx
    exact ⟨rfl, r, hr, ho⟩

/-- A primitive that neither binds nor gives anything up. -/
theorem Sound.bound_works (h : Sound names log w) {a : Primitive} (ha : a.Allowed w.held)
    (hr : a.released = []) (hb : a.binds = false) (hc : ∀ x, a.context? x = none) :
    ∃ x w', a.action.apply w = (x, w') ∧ Bound a.creates w (a.context? x) w' := by
  refine ⟨_, _, rfl, .works (h.works_perform ha hb hr) fun cx hx => ?_⟩
  rw [hc] at hx
  exact nomatch hx

/-- A primitive that gives nothing up works on contexts that live, or makes one binding. -/
theorem Sound.bound_perform (h : Sound names log w) {a : Primitive} (ha : a.Allowed w.held)
    (hr : a.released = []) :
    ∃ x w', a.action.apply w = (x, w') ∧ Bound a.creates w (a.context? x) w' := by
  cases a with
  | createContext lib options =>
    obtain ⟨x, w', hx, hb⟩ := bound_createContext lib options w
    refine ⟨x, w', hx, ?_⟩
    cases x <;> exact hb
  | attachContext lib raw options =>
    obtain ⟨x, w', hx, hb⟩ := h.bound_attachContext lib raw options
    refine ⟨x, w', hx, ?_⟩
    cases x <;> exact hb
  | _ => exact h.bound_works ha hr rfl fun _ => rfl

end Perform

/-! ## Lists of bindings -/

/-- The list names bindings that were made, and among them every binding in `P` that is held. No
identity belongs to two bindings of those that are named or held. -/
structure Names {σ : Type} (P : Context → Prop) (l : List Context) (w : World σ) : Prop where
  lt : ∀ cx ∈ l, cx.id < w.nextId
  unique : ∀ cx ∈ l, ∀ cx' ∈ l, cx.id = cx'.id → cx = cx'
  owner : ∀ r ∈ w.held, P r.owner → r.owner ∈ l
  eq_owner : ∀ r ∈ w.held, ∀ cx ∈ l, cx.id = r.owner.id → cx = r.owner

namespace Names

variable {σ : Type} {P : Context → Prop} {l : List Context} {w w' : World σ} {cx : Context}

theorem start (P : Context → Prop) (s : σ) : Names P [] ({ native := s } : World σ) where
  lt _ h := nomatch h
  unique _ h := nomatch h
  owner _ h := nomatch h
  eq_owner _ h := nomatch h

/-- As long as no context comes to life, there is nothing to add. -/
theorem mono (h : Names P l w) (hn : w.nextId ≤ w'.nextId)
    (hh : ∀ r ∈ w'.held, ∃ r' ∈ w.held, r'.owner = r.owner) : Names P l w' where
  lt cx hcx := Nat.lt_of_lt_of_le (h.lt cx hcx) hn
  unique := h.unique
  owner r hr hp := by
    obtain ⟨r', hr', ho⟩ := hh r hr
    exact ho ▸ h.owner r' hr' (ho ▸ hp)
  eq_owner r hr cx hcx hid := by
    obtain ⟨r', hr', ho⟩ := hh r hr
    exact ho ▸ h.eq_owner r' hr' cx hcx (ho ▸ hid)

theorem works (h : Names P l w) (hw : w.Works w') : Names P l w' := h.mono hw.nextId_le hw.owner

/-- Fewer references name no more. -/
theorem subset (h : Names P l w) (hn : w'.nextId = w.nextId) (hh : w'.held ⊆ w.held) :
    Names P l w' :=
  h.mono (Nat.le_of_eq hn.symm) fun r hr => ⟨r, hh hr, rfl⟩

theorem ne_of_new (h : Names P l w) (hid : cx.id = w.nextId) {cx' : Context} (hcx' : cx' ∈ l) :
    cx'.id ≠ cx.id := by
  rw [hid]
  exact Nat.ne_of_lt (h.lt cx' hcx')

/-- A new binding is added. -/
theorem add (h : Names P l w) (hid : cx.id = w.nextId)
    (hlt : ∀ r ∈ w.held, r.owner.id < w.nextId) : Names P (cx :: l) (w.bound cx) where
  lt cx' hcx' := by
    rcases List.mem_cons.mp hcx' with rfl | hcx'
    · exact Nat.lt_succ_of_le (Nat.le_of_eq hid)
    · exact Nat.lt_succ_of_lt (h.lt cx' hcx')
  unique c hc c' hc' heq := by
    rcases List.mem_cons.mp hc with rfl | hl <;> rcases List.mem_cons.mp hc' with rfl | hl'
    · rfl
    · exact absurd heq.symm (h.ne_of_new hid hl')
    · exact absurd heq (h.ne_of_new hid hl)
    · exact h.unique c hl c' hl' heq
  owner r hr hp := by
    rcases List.mem_cons.mp hr with rfl | hr
    · exact List.mem_cons_self
    · exact List.mem_cons_of_mem cx (h.owner r hr hp)
  eq_owner r hr c hc heq := by
    rcases List.mem_cons.mp hr with rfl | hh <;> rcases List.mem_cons.mp hc with rfl | hl
    · rfl
    · exact absurd heq (h.ne_of_new hid hl)
    · exact absurd (hlt r hh) (Nat.not_lt_of_le (Nat.le_of_eq (hid.symm.trans heq)))
    · exact h.eq_owner r hh c hl heq

/-- A new binding that is not in `P` is left out. -/
theorem pass (h : Names P l w) (hid : cx.id = w.nextId) (hcx : ¬ P cx) :
    Names P l (w.bound cx) where
  lt cx' hcx' := Nat.lt_succ_of_lt (h.lt cx' hcx')
  unique := h.unique
  owner r hr hp := by
    rcases List.mem_cons.mp hr with rfl | hr
    · exact absurd hp hcx
    · exact h.owner r hr hp
  eq_owner r hr c hc heq := by
    rcases List.mem_cons.mp hr with rfl | hr
    · exact absurd heq (h.ne_of_new hid hc)
    · exact h.eq_owner r hr c hc heq

end Names

end CanonIR
