import CanonIR.Proofs.Binding.Steps
import CanonIR.Proofs.Identity.Primitive

/-!
What primitives leave alone. A primitive makes the calls that `MayCall` says, so whatever such calls
keep up between the states of the libraries the primitive keeps up (`Persists.perform`). A primitive
that neither binds a context nor gives up a reference works on contexts that are held already
(`World.Works`); unless it forgets a value, no place loses what lives there, and only new wrappers
come (`World.Keeps`).
-/

namespace CanonIR

/-! ## Calls -/

/-- The calls that a primitive may make. -/
def Primitive.MayCall : Primitive → Call → Prop
  | call _ c, c' => c' = c
  | createContext _ _, c => c = .createContext
  | internType _ h, c => c = .typeKind h
  | internValue _ h, c => (∃ p, c = .isA h p) ∨ c = .constOpcode h
  | internBlock _ b, c => c = .blockAsValue b ∨ ∃ h, (∃ p, c = .isA h p) ∨ c = .constOpcode h
  | blockRef bb, c => c = .valueAsBlock bb.value.handle
  | release r, c => c = .disposeContext r.owner.raw
  | emit _, _ | walkLimit _, _ | attachContext _ _ _, _ | forgetValue _ _, _ | hold _, _ => False

/-- The calls that are not plain are made by primitives of their own. -/
theorem Primitive.Plain.mayCall {a : Primitive} (h : a.Plain) {c : Call} (hc : a.MayCall c)
    (hp : c.plain = false) :
    (c = .createContext ∧ ∃ lib options, a = .createContext lib options) ∨
      (∃ r, c = .disposeContext r.owner.raw ∧ a = .release r) ∨
      ∃ bb, c = .valueAsBlock bb.value.handle ∧ a = .blockRef bb := by
  cases a with
  | createContext lib options => exact Or.inl ⟨hc, lib, options, rfl⟩
  | release r => exact Or.inr (Or.inl ⟨r, hc, rfl⟩)
  | blockRef bb => exact Or.inr (Or.inr ⟨bb, hc, rfl⟩)
  | call lib c' =>
    obtain rfl : c = c' := hc
    exact absurd (h.symm.trans hp) Bool.noConfusion
  | internType =>
    obtain rfl := hc
    exact nomatch hp
  | internValue =>
    rcases hc with ⟨p, rfl⟩ | rfl
    · exact nomatch hp
    · exact nomatch hp
  | internBlock =>
    rcases hc with rfl | ⟨v, ⟨p, rfl⟩ | rfl⟩
    · exact nomatch hp
    · exact nomatch hp
    · exact nomatch hp
  | emit | walkLimit | attachContext | forgetValue | hold => exact hc.elim

/-- A relation between states of the libraries that calls of a kind keep up. -/
def Persists {σ : Type} [NativeSystem σ] (R : σ → σ → Prop) (K : Call → Prop) : Prop :=
  ∀ lib c s, K c → R s (NativeSystem.perform lib c s).2

/-- Worlds whose libraries are in a relation. -/
def World.Natively {σ : Type} (R : σ → σ → Prop) (w w' : World σ) : Prop := R w.native w'.native

section Calls

variable {σ : Type} {R : σ → σ → Prop} [IsPreorder σ R] {K : Call → Prop} {α : Type}

instance : IsPreorder (World σ) (World.Natively R) where
  refl w := refl_of R w.native
  trans _ _ _ := trans_of R

/-- A change past the libraries. -/
theorem natively_update {f : World σ → World σ} (hf : ∀ w, (f w).native = w.native) :
    Action.Within (World.Natively R) (Action.update f) := by
  intro w
  rw [Action.apply_update, World.Natively, hf]
  exact refl_of R _

theorem natively_emit (e : Event) : Action.Within (World.Natively R) (Action.emit e) :=
  natively_update fun _ => rfl

theorem natively_hold (r : Reference) : Action.Within (World.Natively R) (Action.hold r) :=
  natively_update fun _ => rfl

theorem natively_wrapType (cx : Context) (h : TypeRef) (kind : TypeKind) :
    Action.Within (World.Natively R) (Action.wrapType cx h kind) :=
  fun w => refl_of R w.native

theorem natively_wrapValue (cx : Context) (h : ValueRef) (kind : ValueKind) :
    Action.Within (World.Natively R) (Action.wrapValue cx h kind) :=
  fun w => refl_of R w.native

theorem natively_bindContext (lib : LibraryId) (raw : ContextRef) (owned : Bool)
    (options : ContextOptions) :
    Action.Within (World.Natively R) (Action.bindContext lib raw owned options) :=
  fun w => refl_of R w.native

variable [NativeSystem σ]

omit [IsPreorder σ R] in
theorem Persists.call (hR : Persists R K) (lib : LibraryId) {c : Call} (hc : K c) :
    Action.Within (World.Natively R) (Action.call lib c) :=
  fun w => hR lib c w.native hc

theorem Persists.internType (hR : Persists R K) (cx : Context) {h : TypeRef}
    (hK : K (.typeKind h)) : Action.Within (World.Natively R) (Action.internType cx h) := by
  unfold Action.internType
  split
  · exact Action.within_pure _
  · refine Action.within_get.bind fun w => ?_
    split
    · exact (natively_hold _).bind fun _ => Action.within_pure _
    · refine (Action.within_classifyType (hR.call _ hK)).bind fun kind => ?_
      refine (natively_emit _).bind fun _ => ?_
      exact (natively_wrapType cx h kind).bind fun _ => Action.within_pure _

theorem Persists.internValue (hR : Persists R K) (cx : Context) {h : ValueRef}
    (hp : ∀ p, K (.isA h p)) (hc : K (.constOpcode h)) :
    Action.Within (World.Natively R) (Action.internValue cx h) := by
  unfold Action.internValue
  split
  · exact Action.within_pure _
  · refine Action.within_get.bind fun w => ?_
    split
    · exact (natively_hold _).bind fun _ => Action.within_pure _
    · refine (Action.within_classifyValue (fun p => hR.call _ (hp p)) (hR.call _ hc)
        natively_emit _).bind fun kind => ?_
      refine (natively_emit _).bind fun _ => ?_
      exact (natively_wrapValue cx h kind).bind fun _ => Action.within_pure _

theorem Persists.retire (hR : Persists R K) {cx : Context} (hK : K (.disposeContext cx.raw))
    (w : World σ) : World.Natively R w (w.retire cx) := by
  unfold World.retire
  dsimp only
  split
  · exact hR cx.library (.disposeContext cx.raw) w.native hK
  · exact refl_of R w.native

theorem Persists.release (hR : Persists R K) {r : Reference} (hK : K (.disposeContext r.owner.raw))
    (w : World σ) : World.Natively R w (w.release r) := by
  unfold World.release
  split
  · dsimp only
    split
    · exact refl_of R w.native
    · exact hR.retire hK { w with held := w.held.eraseP (·.id == r.id) }
  · exact refl_of R w.native

theorem Persists.blockRef (hR : Persists R K) {bb : BasicBlock}
    (hK : K (.valueAsBlock bb.value.handle)) :
    Action.Within (World.Natively R) (Action.blockRef bb) := by
  unfold Action.blockRef
  refine Action.within_get.bind fun w => ?_
  split
  · exact Action.within_pure _
  · refine (hR.call _ hK).bind fun b => (natively_emit _).bind fun _ => ?_
    exact (natively_update fun w => World.native_noteBlockRef w bb b).bind fun _ =>
      Action.within_pure _

/-- The reference that the gate of blocks gives up is not the last one to its context, so nothing
is disposed there. -/
theorem Persists.internBlock (hR : Persists R K) {names : Nat → Reference} {log : List Forgetting}
    {w : World σ} (h : Sound names log w) {cx : Context} (hcx : ∃ r ∈ w.held, r.owner = cx)
    {b : BlockRef} (hb : K (.blockAsValue b)) (hp : ∀ h p, K (.isA h p))
    (hc : ∀ h, K (.constOpcode h)) :
    World.Natively R w ((Action.internBlock cx b).apply w).2 := by
  cases hn : b.isNull with
  | true =>
    rw [Action.apply_internBlock_null hn]
    exact refl_of R w.native
  | false =>
    have hcall := hR.call cx.library hb w
    have ha := Action.asks_call cx.library (.blockAsValue b) w
    rw [Action.apply_internBlock hn]
    generalize (Action.call cx.library (.blockAsValue b)).apply w = r at hcall ha ⊢
    obtain ⟨e | v, w₁⟩ := r
    · exact hcall
    · dsimp only at hcall ha ⊢
      refine trans_of (World.Natively R) hcall ?_
      have hv := hR.internValue cx (hp v) (hc v) w₁
      rw [(h.aside ha).apply_blockOf (ha.held ▸ hcx)]
      generalize (Action.internValue cx v).apply w₁ = r at hv ⊢
      obtain ⟨_ | _ | v, w'⟩ := r
      · exact hv
      · exact hv
      · dsimp only at hv ⊢
        cases v.downcast? .basicBlock with
        | none => exact hv
        | some bb =>
          refine trans_of (World.Natively R) hv ?_
          rw [World.Natively, World.native_noteBlockRef]
          exact refl_of R w'.native

/-- A primitive keeps up what the calls that it may make keep up. -/
theorem Persists.perform (hR : Persists R K) {names : Nat → Reference} {log : List Forgetting}
    {w : World σ} (h : Sound names log w) {a : Primitive} (ha : a.Allowed w.held)
    (hK : ∀ c, a.MayCall c → K c) : World.Natively R w (a.action.apply w).2 := by
  cases a with
  | call lib c => exact hR.call lib (hK c rfl) w
  | emit e => exact refl_of R w.native
  | walkLimit lib => exact refl_of R w.native
  | createContext lib options =>
    exact ((hR.call lib (hK _ rfl)).bind fun raw => (natively_emit _).bind fun _ =>
      natively_bindContext lib raw true options) w
  | attachContext lib raw options =>
    refine (Action.within_get.bind fun w => ?_ : Action.Within _ _) w
    split
    · exact (natively_emit _).bind fun _ => (natively_hold _).bind fun _ => Action.within_pure _
    · exact (natively_emit _).bind fun _ => natively_bindContext lib raw false options
  | internType cx ty => exact hR.internType cx (hK _ rfl) w
  | internValue cx v =>
    exact hR.internValue cx (fun p => hK _ (Or.inl ⟨p, rfl⟩)) (hK _ (Or.inr rfl)) w
  | internBlock cx b =>
    exact hR.internBlock h ha (hK _ (Or.inl rfl)) (fun v p => hK _ (Or.inr ⟨v, Or.inl ⟨p, rfl⟩⟩))
      fun v => hK _ (Or.inr ⟨v, Or.inr rfl⟩)
  | blockRef bb => exact hR.blockRef (hK _ rfl) w
  | forgetValue cx v =>
    obtain ⟨e, hx⟩ := Action.apply_forgetValue cx v w
    show World.Natively R w ((Action.forgetValue cx v).apply w).2
    rw [hx]
    exact refl_of R w.native
  | hold r => exact refl_of R w.native
  | release r => exact hR.release (hK _ rfl) w

end Calls

/-! ## References and places -/

/-- What work on living contexts leaves: the same bindings, all references and all known block
shapes. A new reference belongs to a context that was held. -/
structure World.Works {σ : Type} (w w' : World σ) : Prop where
  registry : w'.registry = w.registry
  nextId_le : w.nextId ≤ w'.nextId
  held : w.held ⊆ w'.held
  owner : ∀ r ∈ w'.held, ∃ r' ∈ w.held, r'.owner = r.owner
  blockRefs : ∀ i b, w.blockRefs.get? i = some b → w'.blockRefs.get? i = some b

/-- Work that forgets nothing: what lives stays in its place, and what comes to a place is new. -/
structure World.Keeps {σ : Type} (w w' : World σ) : Prop extends World.Works w w' where
  kept : ∀ p r, w.occupant? p = some r → w.holds r.id = true → w'.occupant? p = some r
  old : ∀ p r, w'.occupant? p = some r → w.occupant? p = some r ∨ w.nextId ≤ r.id

namespace World

variable {σ : Type} {w w' w'' : World σ} {r : Reference}

theorem Works.refl (w : World σ) : Works w w :=
  ⟨rfl, Nat.le_refl _, List.Subset.refl _, fun r hr => ⟨r, hr, rfl⟩, fun _ _ h => h⟩

theorem Works.trans (h : Works w w') (h' : Works w' w'') : Works w w'' where
  registry := h'.registry.trans h.registry
  nextId_le := Nat.le_trans h.nextId_le h'.nextId_le
  held := List.Subset.trans h.held h'.held
  owner r hr := by
    obtain ⟨r', hr', ho⟩ := h'.owner r hr
    obtain ⟨r'', hr'', ho'⟩ := h.owner r' hr'
    exact ⟨r'', hr'', ho'.trans ho⟩
  blockRefs i b hb := h'.blockRefs i b (h.blockRefs i b hb)

theorem holds_mono (h : w.held ⊆ w'.held) {i : Nat} (hi : w.holds i = true) :
    w'.holds i = true := by
  obtain ⟨r, hr, hid⟩ := holds_iff.mp hi
  exact holds_iff.mpr ⟨r, h hr, hid⟩

theorem Keeps.refl (w : World σ) : Keeps w w :=
  { Works.refl w with kept := fun _ _ h _ => h, old := fun _ _ h => Or.inl h }

theorem Keeps.trans (h : Keeps w w') (h' : Keeps w' w'') : Keeps w w'' where
  toWorks := h.toWorks.trans h'.toWorks
  kept p r hr ha := h'.kept p r (h.kept p r hr ha) (holds_mono h.held ha)
  old p r hr := by
    rcases h'.old p r hr with hr | hr
    · exact h.old p r hr
    · exact Or.inr (Nat.le_trans h.nextId_le hr)

theorem Aside.keeps (h : w.Aside w') : Keeps w w' := by
  obtain ⟨s, e, rfl⟩ := h
  exact { Keeps.refl w with }

theorem keeps_hold (hr : r ∈ w.held ∨ ∃ r' ∈ w.held, r = .context r'.owner) :
    Keeps w (w.hold r) :=
  { Keeps.refl w with
    held := List.subset_cons_self r w.held
    owner := fun r' hr' => by
      rcases List.mem_cons.mp hr' with rfl | hr'
      · rcases hr with hr | ⟨r'', hr'', rfl⟩
        · exact ⟨_, hr, rfl⟩
        · exact ⟨r'', hr'', rfl⟩
      · exact ⟨r', hr', rfl⟩ }

theorem keeps_noteBlockRef (w : World σ) (bb : BasicBlock) (b : BlockRef) :
    Keeps w (w.noteBlockRef bb b) := by
  unfold noteBlockRef
  split
  · exact Keeps.refl w
  · next hc =>
    exact
      { Keeps.refl w with
        blockRefs := fun i b' hi => by
          rw [Table.get?_insert, if_neg]
          · exact hi
          · rintro rfl
            exact hc (Option.isSome_iff_exists.mpr ⟨b', hi⟩) }

/-- A new wrapper in a place where nothing lives, of a context that is held. -/
theorem Entered.keeps {p : Place} (h : Entered r p (w.made r) w')
    (hcx : ∃ r₀ ∈ w.held, r₀.owner = r.owner) (hid : r.id = w.nextId)
    (hfree : ∀ r', w.occupant? p = some r' → w.holds r'.id = false) : Keeps w w' := by
  have hheld : w'.held = r :: w.held := by rw [h.frame, made]
  refine ⟨⟨by rw [h.frame, made], ?_, ?_, ?_, ?_⟩, ?_, ?_⟩
  · rw [h.frame, made]
    exact Nat.le_succ _
  · rw [hheld]
    exact List.subset_cons_self r w.held
  · rw [hheld]
    intro r' hr'
    rcases List.mem_cons.mp hr' with rfl | hr'
    · exact hcx
    · exact ⟨r', hr', rfl⟩
  · rw [h.frame, made]
    exact fun _ _ hi => hi
  · intro q r' hr' ha
    have ha' : (w.made r).holds r'.id = true := holds_mono (List.subset_cons_self r w.held) ha
    rcases h.kept q r' hr' ha' with rfl | hq
    · rw [hfree r' hr'] at ha
      cases ha
    · exact hq
  · intro q r' hr'
    rcases h.old q r' hr' with rfl | hq
    · obtain rfl := Option.some.inj (h.self.symm.trans hr')
      exact Or.inr (Nat.le_of_eq hid.symm)
    · exact Or.inl hq

theorem works_forgetValue (w : World σ) (cx : Context) (v : ValueRef) :
    Works w (w.forgetValue cx v) :=
  { Works.refl w with }

/-- Giving a reference up that was taken on the way. -/
theorem Keeps.relinquish (h : Keeps w w') (hheld : w.held ⊆ (w'.relinquish r).held) :
    Keeps w (w'.relinquish r) :=
  { h with
    held := hheld
    owner := fun r' hr' => h.owner r' (List.mem_of_mem_eraseP hr') }

end World

section Frame

variable {σ : Type} {names : Nat → Reference} {log : List Forgetting} {w w' : World σ}
variable {cx : Context}

theorem Gated.keeps (h : Sound names log w) (hcx : ∃ r ∈ w.held, r.owner = cx) {p : Place}
    {x : Option Reference} (hg : Gated cx p w x w') : w.Keeps w' := by
  cases hg with
  | aside ha => exact ha.keeps
  | hit hr ha => exact World.keeps_hold (Or.inl (h.mem_of_holds hr ha))
  | miss ha hfree h0 hid ho hp he =>
    exact ha.keeps.trans (he.keeps (ho ▸ ha.held ▸ hcx) hid hfree)

theorem GatedBlock.keeps (h : Sound names log w) (hcx : ∃ r ∈ w.held, r.owner = cx) {b : BlockRef}
    {x : Option BasicBlock} (hg : GatedBlock cx b w x w') : w.Keeps w' := by
  cases hg with
  | aside ha => exact ha.keeps
  | found ha hg =>
    have hk := hg.keeps (h.aside ha) (ha.held ▸ hcx)
    exact (ha.keeps.trans hk).trans (World.keeps_noteBlockRef _ _ b)
  | misfit ha hg =>
    have hk := hg.keeps (h.aside ha) (ha.held ▸ hcx)
    refine (ha.keeps.trans hk).relinquish ?_
    rw [hg.held_relinquish, ha.held]
    exact List.Subset.refl _

variable [NativeSystem σ]

theorem keeps_blockRef (bb : BasicBlock) (w : World σ) :
    w.Keeps ((Action.blockRef bb).apply w).2 := by
  cases hb : w.blockRefs.get? bb.value.id with
  | some b =>
    rw [apply_blockRef_known hb]
    exact .refl w
  | none =>
    rcases blockRef_cases hb with ⟨e, w₁, hx, ha⟩ | ⟨b, w₁, hx, ha⟩
    · rw [hx]
      exact ha.keeps
    · rw [hx]
      exact ha.keeps.trans (World.keeps_noteBlockRef w₁ bb b)

/-- Whether a primitive makes or finds a binding. -/
def Primitive.binds : Primitive → Bool
  | createContext _ _ | attachContext _ _ _ => true
  | _ => false

/-- A primitive that binds nothing, gives nothing up and forgets nothing keeps what lives. -/
theorem Sound.keeps_perform (h : Sound names log w) {a : Primitive} (ha : a.Allowed w.held)
    (hb : a.binds = false) (hr : a.released = []) (hf : a.forgets w = []) :
    w.Keeps (a.action.apply w).2 := by
  cases a with
  | call lib c => exact (Action.asks_call lib c w).keeps
  | emit e => exact (Action.asks_emit e w).keeps
  | walkLimit lib => exact .refl w
  | createContext lib options => exact nomatch hb
  | attachContext lib raw options => exact nomatch hb
  | internType cx ty =>
    obtain ⟨x, w', hx, hg⟩ := gated_internType cx ty w
    show w.Keeps ((Action.internType cx ty).apply w).2
    rw [hx]
    exact hg.keeps h ha
  | internValue cx v =>
    obtain ⟨x, w', hx, hg⟩ := gated_internValue cx v w
    show w.Keeps ((Action.internValue cx v).apply w).2
    rw [hx]
    exact hg.keeps h ha
  | internBlock cx b =>
    obtain ⟨x, w', hx, hg⟩ := gated_internBlock h ha b
    show w.Keeps ((Action.internBlock cx b).apply w).2
    rw [hx]
    exact hg.keeps h ha
  | blockRef bb => exact keeps_blockRef bb w
  | forgetValue cx v => exact nomatch hf
  | hold r => exact World.keeps_hold ha
  | release r => exact nomatch hr

/-- A primitive that binds nothing and gives nothing up works on living contexts. -/
theorem Sound.works_perform (h : Sound names log w) {a : Primitive} (ha : a.Allowed w.held)
    (hb : a.binds = false) (hr : a.released = []) : w.Works (a.action.apply w).2 := by
  cases a with
  | forgetValue cx v =>
    obtain ⟨e, hx⟩ := Action.apply_forgetValue cx v w
    show w.Works ((Action.forgetValue cx v).apply w).2
    rw [hx]
    exact { World.works_forgetValue w cx v with }
  | _ => exact (h.keeps_perform ha hb hr rfl).toWorks

end Frame

end CanonIR
