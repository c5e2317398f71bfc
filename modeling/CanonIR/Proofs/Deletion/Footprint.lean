import CanonIR.Binding.Blocks
import CanonIR.Proofs.Binding.Operation
import CanonIR.Proofs.Memory.Deletion
import CanonIR.Proofs.Shapes.Shaped

/-!
The footprint of a walk that forgets. Questions to one library leave nothing but notes of them
(`Recorders.Asked`), and forgetting values of a context takes their entries out of one cache
(`World.Forgot`). Both say exactly what has changed, and are put together along a walk; the walk over
the instructions of a block asks for one instruction after another, and forgets each of them.
-/

namespace CanonIR

open Memory (Graph BlockEntry)

/-! ## Questions -/

/-- Calls were made to one library, the last of them first, and changed no object. -/
structure Recorders.Asked (lib : LibraryId) (calls : List Call) (rs rs' : Recorders) : Prop where
  recorder : rs'.recorder lib =
    { rs.recorder lib with calls := calls ++ (rs.recorder lib).calls }
  others : ∀ lib', lib' ≠ lib → rs'.recorder lib' = rs.recorder lib'

namespace Recorders

variable {lib : LibraryId} {calls calls' : List Call} {rs rs' rs'' : Recorders}

theorem Asked.refl (lib : LibraryId) (rs : Recorders) : Asked lib [] rs rs := ⟨rfl, fun _ _ => rfl⟩

theorem Asked.trans (h : Asked lib calls rs rs') (h' : Asked lib calls' rs' rs'') :
    Asked lib (calls' ++ calls) rs rs'' where
  recorder := by
    rw [h'.recorder, h.recorder, List.append_assoc]
  others lib' hne := (h'.others lib' hne).trans (h.others lib' hne)

/-- A library without forced answers notes a question, and answers it by itself. -/
theorem asked_perform (hf : (rs.recorder lib).forced = ∅) {c : Call} (hc : c.changes = false)
    {a : c.Answer} (ha : ((rs.recorder lib).graph.perform c).1 = .ok a) :
    ∃ rs', NativeSystem.perform lib c rs = (.ok a, rs') ∧ Asked lib [c] rs rs' := by
  obtain ⟨a', ha'⟩ := (rs.recorder lib).graph.perform_eq_of_not_changes hc
  obtain rfl : a' = a := by
    rw [ha'] at ha
    exact Except.ok.inj ha
  refine ⟨_, perform_of_unforced hf ha', ?_, fun lib' hne => ?_⟩
  · rw [recorder_insert, if_pos rfl]
    rfl
  · rw [recorder_insert, if_neg hne]

end Recorders

/-! ## Forgetting -/

/-- Values of a context were forgotten, and nothing else changed in the bindings. -/
structure World.Forgot {σ : Type} (cx : Context) (vs : List ValueRef) (w w' : World σ) : Prop where
  values : ∀ v : ValueRef, (w'.cachesOf cx).values.entries.get? v.address =
    if v ∈ vs then none else (w.cachesOf cx).values.entries.get? v.address
  sweepAt : (w'.cachesOf cx).values.sweepAt = (w.cachesOf cx).values.sweepAt
  types : (w'.cachesOf cx).types = (w.cachesOf cx).types
  caches : ∀ i, i ≠ cx.id → w'.caches.get? i = w.caches.get? i
  held : w'.held = w.held
  nextId : w'.nextId = w.nextId
  registry : w'.registry = w.registry
  /-- A block shape that is known stays known. -/
  blockRefs : ∀ i b, w.blockRefs.get? i = some b → w'.blockRefs.get? i = some b

section Forgot

variable {σ : Type} {cx : Context} {vs vs' : List ValueRef} {w w' w'' : World σ}

/-- Nothing is forgotten, and the caches are as they were. -/
theorem World.Forgot.of_eq (cx : Context) (hc : w'.caches = w.caches) (hh : w'.held = w.held)
    (hn : w'.nextId = w.nextId) (hr : w'.registry = w.registry)
    (hb : ∀ i b, w.blockRefs.get? i = some b → w'.blockRefs.get? i = some b) :
    World.Forgot cx [] w w' where
  values v := by
    rw [World.cachesOf, hc]
    rfl
  sweepAt := by
    rw [World.cachesOf, hc]
    rfl
  types := by
    rw [World.cachesOf, hc]
    rfl
  caches i _ := by rw [hc]
  held := hh
  nextId := hn
  registry := hr
  blockRefs := hb

theorem World.Forgot.trans (h : World.Forgot cx vs w w') (h' : World.Forgot cx vs' w' w'') :
    World.Forgot cx (vs ++ vs') w w'' where
  values v := by
    rw [h'.values, h.values]
    by_cases hv : v ∈ vs <;> by_cases hv' : v ∈ vs' <;> simp [hv, hv']
  sweepAt := h'.sweepAt.trans h.sweepAt
  types := h'.types.trans h.types
  caches i hi := (h'.caches i hi).trans (h.caches i hi)
  held := h'.held.trans h.held
  nextId := h'.nextId.trans h.nextId
  registry := h'.registry.trans h.registry
  blockRefs i b hb := h'.blockRefs i b (h.blockRefs i b hb)

theorem World.forgot_forgetValue (w : World σ) (cx : Context) (v : ValueRef) (e : Array Event) :
    World.Forgot cx [v] w { w.forgetValue cx v with events := e } := by
  have hself : World.cachesOf { w.forgetValue cx v with events := e } cx =
      { w.cachesOf cx with values := (w.cachesOf cx).values.forget v.address } := by
    show ((w.caches.insert cx.id _).get? cx.id).getD {} = _
    rw [Table.get?_insert, if_pos rfl]
    rfl
  refine ⟨fun v' => ?_, ?_, ?_, fun i hi => ?_, rfl, rfl, rfl, fun _ _ => id⟩
  · rw [hself]
    show ((w.cachesOf cx).values.entries.erase v.address).get? v'.address = _
    rw [Table.get?_erase]
    have hiff : v'.address = v.address ↔ v' ∈ [v] := by
      rw [List.mem_singleton]
      exact ⟨fun h => congrArg Handle.mk h, fun h => congrArg Handle.address h⟩
    simp only [hiff]
  · rw [hself]
    rfl
  · rw [hself]
  · show (w.caches.insert cx.id _).get? i = _
    rw [Table.get?_insert, if_neg hi]

/-- Who stands in the places of a context after forgetting. -/
theorem World.Forgot.occupant? (h : World.Forgot cx vs w w') (p : Place) :
    w'.occupant? p =
      if p.context = cx.id ∧ p.sort = .value ∧ (⟨p.address⟩ : ValueRef) ∈ vs then none
      else w.occupant? p := by
  obtain ⟨k, s, a⟩ := p
  by_cases hk : k = cx.id
  · subst hk
    rw [World.occupant?_eq, World.occupant?_eq]
    cases s with
    | type =>
      rw [if_neg (by simp), Caches.occupant?, h.types]
      rfl
    | value =>
      have hv := h.values ⟨a⟩
      simp only [Caches.occupant?, true_and]
      rw [hv]
      split <;> rfl
  · rw [if_neg (by simp [hk]), World.occupant?, World.occupant?, h.caches k hk]

/-- Forgetting keeps a world sound. -/
theorem Sound.forgot {names : Nat → Reference} {log : List Forgetting} (h : Sound names log w)
    (hf : World.Forgot cx vs w w') :
    Sound names (vs.map (fun v => ⟨cx.id, v, w.nextId⟩) ++ log) w' := by
  have hold (p : Place) (r : Reference) (hr : w'.occupant? p = some r) :
      w.occupant? p = some r ∧
        ¬ (p.context = cx.id ∧ p.sort = .value ∧ (⟨p.address⟩ : ValueRef) ∈ vs) := by
    rw [hf.occupant?] at hr
    split at hr
    · contradiction
    · next hp => exact ⟨hr, hp⟩
  refine ⟨?_, ?_, ?_, fun p r hr => h.place p r (hold p r hr).1, ?_, ?_, ?_⟩
  · rw [hf.held, hf.nextId]
    exact h.held_named
  · rw [hf.nextId]
    exact fun p r hr => h.occupant_named p r (hold p r hr).1
  · rw [hf.registry, hf.nextId]
    exact h.registry_named
  · intro p r hr hx
    obtain ⟨hr, hp⟩ := hold p r hr
    obtain ⟨f, hm, hhit⟩ := hx
    rcases List.mem_append.mp hm with hm | hm
    · obtain ⟨v, hv, rfl⟩ := List.mem_map.mp hm
      obtain rfl := Sound.place_of_hits (h.place p r hr).1 hhit
      exact hp ⟨rfl, rfl, hv⟩
    · exact h.fresh p r hr ⟨f, hm, hhit⟩
  · rw [hf.held]
    intro r hr p hp hn
    have hout : ¬ r.Forgotten log := fun hx => by
      obtain ⟨f, hm, hhit⟩ := hx
      exact hn ⟨f, List.mem_append_right _ hm, hhit⟩
    rw [hf.occupant?, if_neg, h.stands r hr p hp hout]
    rintro ⟨hk, hs, hv⟩
    obtain ⟨k, s, a⟩ := p
    obtain rfl : k = cx.id := hk
    obtain rfl : s = .value := hs
    refine hn ⟨⟨cx.id, ⟨a⟩, w.nextId⟩, List.mem_append_left _ (List.mem_map.mpr ⟨⟨a⟩, hv, rfl⟩), ?_⟩
    exact Sound.hits_of_place (h.held_named r hr) hp
  · rw [hf.nextId]
    intro f hm
    rcases List.mem_append.mp hm with hm | hm
    · obtain ⟨v, -, rfl⟩ := List.mem_map.mp hm
      exact Nat.le_refl _
    · exact h.log_le f hm

end Forgot

/-! ## The walk -/

/-- Questions were asked to the library of a context, and values of the context were forgotten. -/
structure Footprint (cx : Context) (calls : List Call) (vs : List ValueRef)
    (w w' : World Recorders) : Prop where
  asked : Recorders.Asked cx.library calls w.native w'.native
  forgot : World.Forgot cx vs w w'

namespace Footprint

variable {cx : Context} {calls calls' : List Call} {vs vs' : List ValueRef}
variable {w w' w'' : World Recorders}

theorem trans (h : Footprint cx calls vs w w') (h' : Footprint cx calls' vs' w' w'') :
    Footprint cx (calls' ++ calls) (vs ++ vs') w w'' :=
  ⟨h.asked.trans h'.asked, h.forgot.trans h'.forgot⟩

theorem refl (cx : Context) (w : World Recorders) : Footprint cx [] [] w w :=
  ⟨.refl _ _, .of_eq cx rfl rfl rfl rfl fun _ _ => id⟩

theorem graph (h : Footprint cx calls vs w w') : w'.graph cx.library = w.graph cx.library := by
  rw [World.graph, h.asked.recorder]
  rfl

theorem forced (h : Footprint cx calls vs w w') :
    (w'.native.recorder cx.library).forced = (w.native.recorder cx.library).forced := by
  rw [h.asked.recorder]

end Footprint

namespace Operation

variable {w : World Recorders} {cx : Context} {bb : BasicBlock}

theorem apply_ask (v : ValueWrapper) (hf : (w.native.recorder v.context.library).forced = ∅)
    {c : Call} (hc : c.changes = false) {a : c.Answer}
    (ha : ((w.graph v.context.library).perform c).1 = .ok a) :
    ∃ w', (ask v c).action.apply w = (.ok a, w') ∧ Footprint v.context [c] [] w w' := by
  obtain ⟨s, hp, hs⟩ := Recorders.asked_perform hf hc ha
  exact ⟨{ w with native := s }, Action.apply_call_of_perform hp, hs, .of_eq _ rfl rfl rfl rfl fun _ _ => id⟩

theorem apply_forgetValue (w : World Recorders) (cx : Context) (v : ValueRef) :
    ∃ w', (forgetValue cx v).action.apply w = (.ok (), w') ∧ Footprint cx [] [v] w w' := by
  obtain ⟨e, he⟩ := Action.apply_forgetValue cx v w
  exact ⟨_, he, .refl _ _, World.forgot_forgetValue w cx v e⟩

/-- The walk from some instruction of a living block on asks for all that follow, and forgets them;
its bound suffices if it is not below their number. -/
theorem apply_forgetInstructions {b : BlockRef} {e : BlockEntry}
    (hw : (w.graph bb.value.context.library).WellFormed)
    (hf : (w.native.recorder bb.value.context.library).forced = ∅)
    (hb : (w.graph bb.value.context.library).blocks.get? b = some e) {pre rest : List ValueRef}
    (hi : e.instructions = pre ++ rest) {limit : Nat} (hl : rest.length ≤ limit) :
    ∃ w', (forgetInstructions bb limit (rest.headD .null)).action.apply w = (.ok (), w') ∧
      Footprint bb.value.context (rest.map Call.nextInstruction).reverse rest w w' := by
  induction rest generalizing w pre limit with
  | nil =>
    refine ⟨w, ?_, .refl _ w⟩
    cases limit <;> rfl
  | cons i rest ih =>
    cases limit with
    | zero => exact absurd hl (Nat.not_succ_le_zero _)
    | succ limit =>
      have hn : i.isNull = false := Graph.isNull_of_mem hw hb (by simp [hi])
      have hnext : ((w.graph bb.value.context.library).perform (.nextInstruction i)).1 =
          .ok (rest.headD .null) := by
        rw [← Graph.nextInstruction_of_mem hw hb hi]
        rfl
      obtain ⟨w₁, hw₁, hp₁⟩ := apply_ask bb.value hf rfl hnext
      obtain ⟨w₂, hw₂, hp₂⟩ := apply_forgetValue w₁ bb.value.context i
      have hp := hp₁.trans hp₂
      have hi' : e.instructions = (pre ++ [i]) ++ rest := by rw [hi, List.append_assoc]; rfl
      obtain ⟨w', hw', hp'⟩ := ih (w := w₂) (hp.graph ▸ hw) (hp.forced.trans hf) (hp.graph ▸ hb) hi'
        (Nat.le_of_succ_le_succ hl)
      refine ⟨w', ?_, ?_⟩
      · rw [List.headD_cons, forgetInstructions, if_neg (by simp [hn])]
        rw [apply_bind_of_ok hw₁, apply_bind_of_ok hw₂]
        exact hw'
      · rw [List.map_cons, List.reverse_cons]
        exact hp.trans hp'

end Operation

end CanonIR
