import CanonIR.Proofs.Binding.Leads
import CanonIR.Proofs.Deletion.Afterwards
import CanonIR.Proofs.Walks.Kinded

/-!
Operations over libraries that are only asked. Many contexts may share a library, and references of
all kinds may be held; what an operation does to all this, as long as it asks questions and passes
gates, is to note the questions, to take references and to give some of them up again (`Asking`).
For each question and each gate there is one rule that says what comes of it.
-/

namespace CanonIR

open Memory (Graph ValueEntry BlockEntry)

/-- A wrapper of a value in a context, whose handle has not been forgotten since it was made. -/
structure ValueWrapper.Shows (log : List Forgetting) (cx : Context) (h : ValueRef)
    (y : ValueWrapper) : Prop where
  context : y.context = cx
  handle : y.handle = h
  unforgotten : ¬ (Reference.value y).Forgotten log

/-- The canonical wrapper of a value in a context. -/
structure World.Presents {σ : Type} (log : List Forgetting) (w : World σ) (cx : Context)
    (h : ValueRef) (y : ValueWrapper) : Prop where
  context : y.context = cx
  handle : y.handle = h
  canonical : (Reference.value y).Canonical log w

/-- A world that operations can work on: the shapes of blocks are as they should be, it is sound, the
kinds of wrappers are up to date, and blocks and instructions are placed. -/
structure Ready (log : List Forgetting) (w : World Recorders) : Prop where
  shaped : Shaped w
  sound : ∃ names, Sound names log w
  kinded : w.Kinded
  placed : ∀ lib, (w.graph lib).Placed

theorem Shapes.Reachable.ready {u : Shapes} (h : Reachable u) : Ready u.machine.log u.world :=
  ⟨h.kept.shaped, h.kept.machine.accounted.sound, h.kinded, h.placed⟩

/-- A primitive that forgets nothing, and leaves the shapes and the kinds as they should be. -/
theorem Ready.settle {log : List Forgetting} {w w' : World Recorders} (h : Ready log w)
    {a : Primitive} (ha : a.Allowed w.held) (hf : a.forgets w = []) {x : Except Fault a.Result}
    (hx : a.action.apply w = (x, w')) (hshaped : Shaped w') (hkinded : w'.Kinded) :
    Ready log w' ∧ w'.held = a.after x w.held := by
  obtain ⟨names, hs⟩ := h.sound
  have hsettles : Recorders.Each Recorder.Settles w.native (a.action.apply w).2.native :=
    (Recorders.persists_each fun r c _ => r.settles_perform c).perform (K := fun _ => True) hs ha
      fun _ _ => trivial
  obtain ⟨x', w'', hx', hs', hheld⟩ := hs.perform a ha
  obtain ⟨rfl, rfl⟩ := Prod.mk.inj (hx.symm.trans hx')
  rw [hx] at hsettles
  rw [hf] at hs'
  exact ⟨⟨hshaped, hs', hkinded, fun lib => hsettles lib (h.placed lib)⟩, hheld⟩

/-- A primitive that forgets nothing. -/
theorem Ready.perform {log : List Forgetting} {w w' : World Recorders} (h : Ready log w)
    {a : Primitive} (ha : a.Allowed w.held) (hg : a.Given w.native) (hf : a.forgets w = [])
    {x : Except Fault a.Result} (hx : a.action.apply w = (x, w')) :
    Ready log w' ∧ w'.held = a.after x w.held := by
  obtain ⟨names, hs⟩ := h.sound
  have hshaped := h.shaped.perform hs ha hg
  have hkinded := h.kinded.perform h.shaped hs ha hg
  rw [hx] at hshaped hkinded
  exact h.settle ha hf hx hshaped hkinded

/-- The libraries have only been asked since they were in the state `s`, nothing was forgotten, and
exactly the references `l` are held. -/
structure Asking (log : List Forgetting) (s : Recorders) (l : List Reference)
    (w : World Recorders) : Prop extends Ready log w where
  noted : s.Noted w.native
  held : w.held.Perm l

theorem Ready.asking {log : List Forgetting} {w : World Recorders} (h : Ready log w) :
    Asking log w.native w.held w :=
  { h with noted := refl_of Recorders.Noted w.native, held := List.Perm.refl _ }

namespace Asking

variable {log : List Forgetting} {s : Recorders} {l l' : List Reference} {w : World Recorders}
variable {cx : Context} {lib : LibraryId}

theorem graph (h : Asking log s l w) (lib : LibraryId) :
    w.graph lib = (s.recorder lib).graph := h.noted.graph lib

theorem mem_held (h : Asking log s l w) {r : Reference} (hr : r ∈ l) : r ∈ w.held :=
  h.held.symm.subset hr

theorem owner (h : Asking log s l w) (ho : ∃ r ∈ l, r.owner = cx) : ∃ r ∈ w.held, r.owner = cx := by
  obtain ⟨r, hr, ho⟩ := ho
  exact ⟨r, h.mem_held hr, ho⟩

/-- A wrapper among the held ones that has not been forgotten is canonical. -/
theorem presents (h : Asking log s l w) {v : ValueRef} {y : ValueWrapper} (hy : y.Shows log cx v)
    (hm : .value y ∈ l) : w.Presents log cx v y :=
  ⟨hy.context, hy.handle, h.mem_held hm, hy.unforgotten⟩

/-- A value has at most one held wrapper in a context that has not been forgotten. -/
theorem eq_of_shows (h : Asking log s l w) {v : ValueRef} {y y' : ValueWrapper}
    (hy : y.Shows log cx v) (hy' : y'.Shows log cx v) (hm : .value y ∈ l) (hm' : .value y' ∈ l) :
    y = y' := by
  obtain ⟨names, hs⟩ := h.sound
  have hcx : y.context.id = y'.context.id := by rw [hy.context, hy'.context]
  have hh : y.handle = y'.handle := hy.handle.trans hy'.handle.symm
  exact hs.identity.value_unique y y' (h.presents hy hm).canonical (h.presents hy' hm').canonical
    hcx hh

/-- Among the held wrappers of a context that have not been forgotten, identities tell as much as
handles. -/
theorem id_eq_iff (h : Asking log s l w) {v v' : ValueRef} {y y' : ValueWrapper}
    (hy : y.Shows log cx v) (hy' : y'.Shows log cx v') (hm : .value y ∈ l) (hm' : .value y' ∈ l) :
    y.id = y'.id ↔ v = v' := by
  constructor
  · intro hid
    obtain ⟨names, hs⟩ := h.sound
    have heq := Reference.value.inj (hs.eq_of_id_eq (h.mem_held hm) (h.mem_held hm') hid)
    rw [← hy.handle, ← hy'.handle, heq]
  · rintro rfl
    rw [h.eq_of_shows hy hy' hm hm']

/-- Questions, and notes of them. -/
theorem aside (h : Asking log s l w) {s' : Recorders} (hn : w.native.Noted s') (e : Array Event) :
    Asking log s l { w with native := s', events := e } where
  placed lib := by
    have hgraph : World.graph { w with native := s', events := e } lib = w.graph lib := hn.graph lib
    rw [hgraph]
    exact h.placed lib
  shaped := h.shaped.aside hn e
  sound := by
    obtain ⟨names, hs⟩ := h.sound
    exact ⟨names, hs.congr rfl rfl rfl rfl⟩
  kinded := by
    refine h.kinded.step h.shaped (fun lib => ?_) fun _ => Or.inl
    exact .of_eq (Nat.le_of_eq (congrArg (·.allocated) (hn.graph lib)).symm)
      (congrArg (·.values) (hn.graph lib))
  noted := trans_of Recorders.Noted h.noted hn
  held := h.held

/-- A primitive that forgets nothing and only asks. -/
theorem perform (h : Asking log s l w) {a : Primitive} (ha : a.Allowed w.held)
    (hg : a.Given w.native) (hf : a.forgets w = []) {x : Except Fault a.Result}
    {w' : World Recorders} (hx : a.action.apply w = (x, w')) (hn : w.native.Noted w'.native)
    (hl : (a.after x w.held).Perm l') : Asking log s l' w' := by
  obtain ⟨hready, hheld⟩ := h.toReady.perform ha hg hf hx
  exact { hready with noted := trans_of Recorders.Noted h.noted hn, held := hheld ▸ hl }

theorem tenable (log : List Forgetting) (s : Recorders) : Tenable (Asking log s) where
  perm h hl := { h with held := h.held.trans hl }
  release := by
    intro r l w h ho
    obtain ⟨names, hs⟩ := h.sound
    have hr : r ∈ w.held := h.mem_held List.mem_cons_self
    have hperm : (w.held.erase r).Perm l := by
      have hp := h.held.erase r
      rwa [List.erase_cons_head] at hp
    have halive : (w.relinquish r).contextAlive r.owner = true := by
      obtain ⟨r', hr', ho⟩ := ho
      refine World.contextAlive_iff.mpr ⟨r', ?_, congrArg Context.id ho⟩
      show r' ∈ w.held.eraseP (·.id == r.id)
      rw [← World.held_release (World.holds_of_mem hr), hs.held_release hr]
      exact hperm.symm.subset hr'
    have hnative : (w.release r).native = w.native := by
      rw [World.release_of_alive (World.holds_of_mem hr) halive]
      rfl
    refine h.perform (a := .release r) hr trivial rfl rfl ?_ hperm
    show w.native.Noted (w.release r).native
    rw [hnative]
    exact refl_of Recorders.Noted _

end Asking

namespace Operation

variable {log : List Forgetting} {s : Recorders} {l : List Reference} {cx : Context}

theorem leads_ask (v : ValueWrapper) {c : Call} (hc : c.changes = false) {a : c.Answer}
    (ha : ((s.recorder v.context.library).graph.perform c).1 = .ok a) :
    Leads (Asking log s) l (ask v c) l (· = a) := by
  intro w hw
  have hw' : ((w.graph v.context.library).perform c).1 = .ok a := by
    rw [hw.graph]
    exact ha
  obtain ⟨s', hask, hn⟩ := hw.shaped.ask v.context.library hc hw'
  exact ⟨a, _, hask, rfl, hw.aside hn w.events⟩

theorem leads_walkLimit (lib : LibraryId) :
    Leads (Asking log s) l (walkLimit lib) l (· = (s.recorder lib).walkLimit) := by
  intro w hw
  obtain ⟨calls, hr⟩ := hw.noted lib
  refine ⟨(w.native.recorder lib).walkLimit, w, rfl, ?_, hw⟩
  rw [hr]
  rfl

theorem leads_internValue_null (cx : Context) {v : ValueRef} (hn : v.isNull = true) :
    Leads (Asking log s) l (internValue cx v) l (· = none) :=
  fun w hw => ⟨none, w, Action.apply_internValue_null hn, rfl, hw⟩

/-- The gate of values returns a wrapper of a value that has a kind, even if the value is gone; if it
stands in a block, the kind of the wrapper is that one. -/
theorem leads_internValue (hcx : ∃ r ∈ l, r.owner = cx) {v : ValueRef} {k : ValueKind}
    (hv : (s.recorder cx.library).graph.Handed v.address)
    (hk : (s.recorder cx.library).graph.valueKind v cx.options.unknownValues = .ok k) :
    Leads (Asking log s) l (internValue cx v) l (fun x => ∃ y, x = some y ∧ y.Shows log cx v ∧
      ∀ ve, (s.recorder cx.library).graph.values.get? v = some ve → ve.parent ≠ .null →
        y.kind = k) := by
  intro w hw
  obtain ⟨names, hs⟩ := hw.sound
  have hcx := hw.owner hcx
  rw [← hw.graph] at hv hk
  obtain ⟨x, w', hx, hshaped, hn, ⟨y, rfl, hy⟩ | ⟨f, rfl, hf⟩⟩ := hw.shaped.value_gate hs hcx hv
  · have hkinded := hw.kinded.internValue hw.shaped hs cx v
    rw [hx] at hkinded
    obtain ⟨hready, hheld⟩ :=
      hw.settle (a := .internValue cx v) hcx rfl hx hshaped hkinded
    have hw' : Asking log s (.value y :: l) w' :=
      { hready with
        noted := trans_of Recorders.Noted hw.noted hn
        held := hheld ▸ hw.held.cons _ }
    obtain ⟨names', hs'⟩ := hw'.sound
    refine ⟨some y, w', hx, ⟨y, rfl, ⟨hy.context, hy.handle, hs'.fresh _ _ hy.place⟩, ?_⟩, hw'⟩
    intro ve hve hp
    have happ := hw'.kinded y hy.held
    rw [World.Apt, hy.context, hy.handle, hw'.graph, ← hw.graph] at happ
    rw [← hw.graph] at hve
    exact (Except.ok.inj (hk.symm.trans (happ ve hve hp))).symm
  · rw [hk] at hf
    cases hf

/-- The gate of values fails on a value that has no kind, unless it finds a wrapper of the value. -/
theorem fails_internValue (hcx : ∃ r ∈ l, r.owner = cx) {v : ValueRef} {f : Fault}
    (hv : (s.recorder cx.library).graph.Handed v.address)
    (hk : (s.recorder cx.library).graph.valueKind v cx.options.unknownValues = .error f)
    (hl : ∀ y, .value y ∈ l → ¬ y.Shows log cx v) :
    Fails (Asking log s) l (internValue cx v) l f := by
  intro w hw
  obtain ⟨names, hs⟩ := hw.sound
  have hcx := hw.owner hcx
  have hn : v.isNull = false := Handle.isNull_eq_false_iff.mpr hv.ne_zero
  rw [← hw.graph] at hk
  rcases internValue_steady (Recorders.steady (hw.shaped.unforced cx.library) v) (w := w)
      (refl_of Recorders.Noted _) hn with
    ⟨y, hlook, ha⟩ | ⟨k, s', ev, hns, hk', ha⟩ | ⟨f', s', ev, hns, hk', ha⟩
  · obtain ⟨ho, hlive⟩ := World.lookup_values_eq_some_iff.mp hlook
    have hhandle : y.handle = v :=
      congrArg Handle.mk (Place.mk.inj (Option.some.inj (hs.place _ _ ho).1)).2.2
    exact absurd ⟨hs.owner_of_gated hcx (.hit ho hlive), hhandle, hs.fresh _ _ ho⟩
      (hl y (hw.held.subset (hs.mem_of_holds ho hlive)))
  · rw [Graph.valueKind, World.graph, hk'] at hk
    cases hk
  · obtain rfl : f' = f := Except.error.inj (hk'.symm.trans hk)
    exact ⟨_, ha, hw.aside hns ev⟩

/-- The gate of blocks returns a wrapper of a living block. -/
theorem leads_internBlock (hcx : ∃ r ∈ l, r.owner = cx) {b : BlockRef} {e : BlockEntry}
    (hb : (s.recorder cx.library).graph.blocks.get? b = some e) :
    Leads (Asking log s) l (internBlock cx b) l
      (fun x => ∃ bb, x = some bb ∧ bb.value.Shows log cx e.value) := by
  intro w hw
  obtain ⟨names, hs⟩ := hw.sound
  have hcx := hw.owner hcx
  rw [← hw.graph] at hb
  obtain ⟨bb, w', -, hblock, hmet, -⟩ := hw.shaped.block_gates hs hcx hb
  have hlive : (w.graph cx.library).blocks.contains b = true :=
    Memory.Graph.contains_iff.mpr ⟨e, hb⟩
  have hn : w.native.Noted (w'.noteBlockRef bb b).native := by
    have hn := Recorders.persists_noted.internBlock hs hcx (b := b) rfl (fun _ _ => rfl) fun _ => rfl
    rw [hblock] at hn
    exact hn
  have hw' : Asking log s (.value bb.value :: l) (w'.noteBlockRef bb b) :=
    hw.perform (a := .internBlock cx b) hcx (Or.inr hlive) rfl hblock hn (hw.held.cons _)
  obtain ⟨names', hs'⟩ := hw'.sound
  have hst := hmet.noteBlockRef.stands
  exact ⟨some bb, _, hblock, ⟨bb, rfl, hst.context, hst.handle, hs'.fresh _ _ hst.place⟩, hw'⟩

/-- The gate of blocks finds nothing where no block lives. -/
theorem leads_internBlock_none (cx : Context) {b : BlockRef}
    (hb : (s.recorder cx.library).graph.blocks.get? b = none) :
    Leads (Asking log s) l (internBlock cx b) l (· = none) := by
  intro w hw
  cases hn : b.isNull with
  | true => exact ⟨none, w, Action.apply_internBlock_null hn, rfl, hw⟩
  | false =>
    have hnull : ((w.graph cx.library).perform (.blockAsValue b)).1 = .ok .null := by
      rw [hw.graph]
      show Except.ok (Graph.blockValue _ b) = _
      rw [Graph.blockValue, hb]
      rfl
    obtain ⟨s', hask, hns⟩ := hw.shaped.ask cx.library (c := .blockAsValue b) rfl hnull
    refine ⟨none, _, ?_, rfl, hw.aside hns w.events⟩
    show (Action.internBlock cx b).apply w = _
    rw [Action.apply_internBlock hn, hask]
    dsimp only
    rw [Action.apply_blockOf, Action.apply_internValue_null rfl]

/-- The block shape of a held wrapper of a living block is that block. -/
theorem leads_blockRef {bb : BasicBlock} (hbb : .value bb.value ∈ l) {b : BlockRef} {e : BlockEntry}
    (hb : (s.recorder bb.value.context.library).graph.blocks.get? b = some e)
    (hv : e.value = bb.value.handle) :
    Leads (Asking log s) l (blockRef bb) l (· = b) := by
  intro w hw
  obtain ⟨names, hs⟩ := hw.sound
  have hm := hw.mem_held hbb
  obtain ⟨b', w', hx, -, -, hval⟩ := hw.shaped.blockRef hs hm
  obtain rfl : b' = b := hval b ⟨e, by rw [hw.graph]; exact hb, hv⟩
  have hn : w.native.Noted ((Action.blockRef bb).apply w).2.native :=
    Recorders.persists_noted.blockRef rfl w
  rw [hx] at hn
  exact ⟨b', w', hx, rfl, hw.perform (a := .blockRef bb) hm trivial rfl hx hn hw.held⟩

end Operation

end CanonIR
