import CanonIR.Proofs.Shapes.InStep

/-!
Deletions under way. A deletion forgets the wrappers of a block one step before it destroys the
block. Over in-memory libraries this is the only time when the wrapper of a living block may be
forgotten: whatever operations take their steps side by side, a held wrapper that denotes a living
block has not been forgotten, unless the next step of some operation is to destroy that very block
(`Shapes.Reachable.unforgotten`).
-/

namespace CanonIR

open Memory (Graph BlockEntry)

/-! ## What stays known about a handle -/

namespace Memory.Graph

/-- A handle was handed out, and `P` holds of every living block whose value shape it is. -/
structure Confines (g : Graph) (v : ValueRef) (P : BlockRef → Prop) : Prop where
  handed : g.Handed v.address
  blocks : ∀ b e, g.blocks.get? b = some e → e.value = v → P b

variable {g g' : Graph} {v : ValueRef} {b : BlockRef} {e : BlockEntry} {P : BlockRef → Prop}

/-- New blocks do not stand at old handles, so what is known stays so. -/
theorem Confines.renew (h : g.Confines v P) (hr : g.Renews g') : g'.Confines v P where
  handed := h.handed.mono hr.allocated_le
  blocks b e' he' hv := by
    rcases hr.blocks b e' he' with ⟨e, he, hval⟩ | hnew
    · exact h.blocks b e he (hval.trans hv)
    · exact absurd (hv ▸ h.handed) hnew

/-- An instruction of a living block is the value shape of none. -/
theorem WellFormed.confines_of_mem (h : g.WellFormed) (hb : g.blocks.get? b = some e)
    (hv : v ∈ e.instructions) : g.Confines v fun _ => False := by
  obtain ⟨ve, hve, hpar⟩ := h.instruction b e hb v hv
  refine ⟨h.value_handed v ve hve, fun b' e' hb' hval => ?_⟩
  obtain ⟨ve', hve', -, hnull⟩ := h.block_value b' e' hb'
  rw [hval, hve] at hve'
  obtain rfl := Option.some.inj hve'
  exact (h.block_handed b e hb).ne_zero (congrArg Handle.address (hpar.symm.trans hnull))

theorem mem_of_after {k : HandleKind} {l : List (Handle k)} {h : Handle k}
    (hn : (after l h).isNull = false) : after l h ∈ l := by
  unfold after at hn ⊢
  cases hi : (l.idxOf? h).bind fun i => l[i + 1]? with
  | none =>
    rw [hi] at hn
    exact nomatch hn
  | some h' =>
    obtain ⟨i, -, hi⟩ := Option.bind_eq_some_iff.mp hi
    exact List.mem_of_getElem? hi

/-- The library leads only to instructions of living blocks. -/
theorem WellFormed.confines_nextInstruction (h : g.WellFormed)
    (hn : (g.nextInstruction v).isNull = false) :
    g.Confines (g.nextInstruction v) fun _ => False := by
  unfold nextInstruction ofValue ofBlock at hn ⊢
  cases hv : g.values.get? v with
  | none =>
    rw [hv] at hn
    exact nomatch hn
  | some ve =>
    rw [hv] at hn
    cases hb : g.blocks.get? ve.parent with
    | none =>
      rw [Option.elim_some, hb] at hn
      exact nomatch hn
    | some e =>
      rw [Option.elim_some, hb] at hn
      rw [Option.elim_some, hb]
      exact h.confines_of_mem hb (mem_of_after hn)

theorem WellFormed.confines_firstInstruction (h : g.WellFormed)
    (hn : (g.ofBlock b .null (·.instructions.headD .null)).isNull = false) :
    g.Confines (g.ofBlock b .null (·.instructions.headD .null)) fun _ => False := by
  unfold ofBlock at hn ⊢
  cases hb : g.blocks.get? b with
  | none =>
    rw [hb] at hn
    exact nomatch hn
  | some e =>
    rw [hb, Option.elim_some] at hn
    rw [Option.elim_some]
    cases hi : e.instructions with
    | nil =>
      rw [hi] at hn
      exact nomatch hn
    | cons i is =>
      refine h.confines_of_mem hb ?_
      rw [hi]
      exact List.mem_cons_self

theorem get?_blocks_deleteBlock_self (g : Graph) (b : BlockRef) :
    (g.deleteBlock b).blocks.get? b = none := by
  cases hb : g.blocks.get? b with
  | none =>
    obtain ⟨layouts, hd⟩ := deleteBlock_of_get?_none hb
    rw [hd]
    exact hb
  | some e => rw [get?_blocks_deleteBlock hb, if_pos rfl]

end Memory.Graph

/-! ## Programs that delete with care -/

namespace Primitive

/-- What the outcome of a primitive tells about handles for good: the library leads only to
instructions, and the block shape of a wrapper is that of the block that it denotes, if any. -/
def Tells (rs : Recorders) : (a : Primitive) → Except Fault a.Result → Prop
  | call lib (.firstInstruction _), .ok v =>
    v.isNull = false → (rs.recorder lib).graph.Confines v fun _ => False
  | call lib (.nextInstruction _), .ok v =>
    v.isNull = false → (rs.recorder lib).graph.Confines v fun _ => False
  | blockRef bb, .ok b =>
    (rs.recorder bb.value.context.library).graph.Confines bb.value.handle (b = ·)
  | _, _ => True

/-- A primitive that forgets the value shape of a living block is followed by the end of the
block. -/
def Heralds (rs : Recorders) : (a : Primitive) → (Except Fault a.Result → Option Primitive) → Prop
  | forgetValue cx v, then? =>
    (rs.recorder cx.library).graph.Confines v fun b =>
      then? (.ok ()) = some (.call cx.library (.deleteBlock b))
  | _, _ => True

variable {rs rs' : Recorders} {a : Primitive}

theorem Heralds.renew {then? : Except Fault a.Result → Option Primitive} (h : a.Heralds rs then?)
    (hr : rs.Renew rs') : a.Heralds rs' then? := by
  cases a with
  | forgetValue cx v => exact Memory.Graph.Confines.renew h (hr cx.library).graph
  | _ => trivial

theorem Looks.heralds (h : a.Looks) (then? : Except Fault a.Result → Option Primitive) :
    a.Heralds rs then? := by
  cases a with
  | forgetValue cx v => exact h.elim
  | _ => trivial

end Primitive

namespace Operation

variable {α β : Type} {op : Operation α} {rs rs' : Recorders}

/-- Whatever the libraries become on the way, as long as outcomes tell the truth, the operation
forgets the value shape of a living block only right before it destroys that block. -/
def Careful : Operation α → Recorders → Prop
  | done _, _ => True
  | step a next, rs =>
    a.Heralds rs (fun x => (next x).first?) ∧
      ∀ x rs', rs.Renew rs' → a.Tells rs' x → (next x).Careful rs'

theorem Careful.renew (h : op.Careful rs) (hr : rs.Renew rs') : op.Careful rs' := by
  cases op with
  | done x => trivial
  | step a next =>
    exact ⟨h.1.renew hr, fun x rs'' hr' ht => h.2 x rs'' (trans_of Recorders.Renew hr hr') ht⟩

theorem Every.careful (h : op.Every Primitive.Looks) : op.Careful rs := by
  induction op generalizing rs with
  | done x => trivial
  | step a next ih => exact ⟨h.1.heralds _, fun x rs' _ _ => ih x (h.2 x)⟩

/-- What comes first stays first. -/
theorem first?_bind {a : Primitive} (h : op.first? = some a) (f : α → Operation β) :
    (op >>= f).first? = some a := by
  cases op with
  | done x => exact nomatch h
  | step b next => exact h

theorem Careful.bind {f : α → Operation β} (h : op.Careful rs)
    (hf : ∀ x rs', rs.Renew rs' → (f x).Careful rs') : (op >>= f).Careful rs := by
  induction op generalizing rs with
  | done x =>
    cases x with
    | ok x => exact hf x rs (refl_of Recorders.Renew rs)
    | error e => trivial
  | step a next ih =>
    refine ⟨?_, fun x rs' hr ht => ih x (h.2 x rs' hr ht) fun y rs'' hr' =>
      hf y rs'' (trans_of Recorders.Renew hr hr')⟩
    have hheralds := h.1
    cases a with
    | forgetValue cx v =>
      exact ⟨hheralds.handed, fun b e he hv => first?_bind (hheralds.blocks b e he hv) f⟩
    | _ => trivial

/-- What comes behind a primitive knows what its outcome tells. -/
theorem careful_perform_bind {a : Primitive} {f : a.Result → Operation β}
    (ha : a.Heralds rs fun x => (done x >>= f).first?)
    (hf : ∀ x rs', rs.Renew rs' → a.Tells rs' (.ok x) → (f x).Careful rs') :
    (perform a >>= f).Careful rs := by
  refine ⟨ha, fun x rs' hr ht => ?_⟩
  cases x with
  | ok x => exact hf x rs' hr ht
  | error e => trivial

theorem careful_ask (v : ValueWrapper) (c : Call) : (ask v c).Careful rs :=
  ⟨trivial, fun _ _ _ _ => trivial⟩

/-- The walk of a deletion forgets instructions only. -/
theorem careful_forgetInstructions (bb : BasicBlock) (limit : Nat) {v : ValueRef}
    (hv : v.isNull = false →
      (rs.recorder bb.value.context.library).graph.Confines v fun _ => False) :
    (forgetInstructions bb limit v).Careful rs := by
  induction limit generalizing v rs with
  | zero =>
    unfold forgetInstructions
    split <;> trivial
  | succ limit ih =>
    unfold forgetInstructions
    split
    · trivial
    · next hn =>
      have hv := hv (Bool.eq_false_iff.mpr hn)
      refine careful_perform_bind trivial fun next rs' hr ht => ?_
      have hv' := hv.renew (hr bb.value.context.library).graph
      refine careful_perform_bind ⟨hv'.handed, fun b e he hval => ?_⟩ fun _ rs'' hr' _ => ?_
      · exact (hv'.blocks b e he hval).elim
      · exact ih fun hn => (ht hn).renew (hr' _).graph

theorem careful_delete (bb : BasicBlock) : (delete bb).Careful rs := by
  refine careful_perform_bind trivial fun b rs' _ hb => ?_
  refine careful_perform_bind trivial fun _ rs' hr _ => ?_
  replace hb := hb.renew (hr _).graph
  refine careful_perform_bind trivial fun first rs' hr hfirst => ?_
  replace hb := hb.renew (hr _).graph
  refine careful_perform_bind trivial fun limit rs' hr _ => ?_
  replace hb := hb.renew (hr _).graph
  refine (careful_forgetInstructions bb limit fun hn =>
    (hfirst hn).renew (hr _).graph).bind fun _ rs' hr => ?_
  replace hb := hb.renew (hr _).graph
  refine careful_perform_bind ⟨hb.handed, fun b' e he hval => ?_⟩ fun _ _ _ _ =>
    careful_ask bb.value _
  rw [← hb.blocks b' e he hval]
  rfl

end Operation

/-- Every request deletes with care. -/
theorem Request.careful (q : Request) (rs : Recorders) : q.operation.Careful rs := by
  have map {α : Type} [Carries α] {op : Operation α} (h : op.Careful rs) :
      (Request.handing op).Careful rs :=
    h.bind fun _ _ _ => trivial
  cases hq : q.changes with
  | false => exact (q.every_looks hq).careful
  | true =>
    cases q with
    | createContext lib options => exact map ⟨trivial, fun _ _ _ _ => trivial⟩
    | attachContext lib raw options => exact map ⟨trivial, fun _ _ _ _ => trivial⟩
    | setName v name => exact map (Operation.careful_ask v _)
    | setVolatile v flag => exact map (Operation.careful_ask v _)
    | moveBefore bb position =>
      exact map ((Operation.looks_blockRef bb).careful.bind fun _ _ _ =>
        (Operation.looks_blockRef position).careful.bind fun _ _ _ => Operation.careful_ask _ _)
    | moveAfter bb position =>
      exact map ((Operation.looks_blockRef bb).careful.bind fun _ _ _ =>
        (Operation.looks_blockRef position).careful.bind fun _ _ _ => Operation.careful_ask _ _)
    | insertBefore bb name =>
      exact map ((Operation.looks_blockRef bb).careful.bind fun _ _ _ =>
        (Operation.careful_ask _ _).bind fun b _ _ => (Operation.looks_internBlock _ b).careful)
    | delete bb => exact map (Operation.careful_delete bb)
    | _ => exact nomatch hq

/-! ## Single steps -/

variable {names : Nat → Reference} {log : List Forgetting} {w w' : World Recorders}

/-- Outcomes tell the truth. -/
theorem Shaped.tells (h : Shaped w) (hs : Sound names log w) {a : Primitive}
    (ha : a.Allowed w.held) {x : Except Fault a.Result} (hx : a.action.apply w = (x, w')) :
    a.Tells w'.native x := by
  have hr : w.native.Renew w'.native := by
    have hr := Recorders.persists_renew.perform hs ha fun _ _ => trivial
    rwa [hx] at hr
  cases a with
  | call lib c =>
    cases c with
    | firstInstruction b =>
      obtain ⟨s, hask, -⟩ := h.ask lib (c := .firstInstruction b) rfl rfl
      obtain ⟨rfl, rfl⟩ := Prod.mk.inj (hx.symm.trans hask)
      exact fun hn => ((h.graph lib).confines_firstInstruction hn).renew (hr lib).graph
    | nextInstruction v =>
      obtain ⟨s, hask, -⟩ := h.ask lib (c := .nextInstruction v) rfl rfl
      obtain ⟨rfl, rfl⟩ := Prod.mk.inj (hx.symm.trans hask)
      exact fun hn => ((h.graph lib).confines_nextInstruction hn).renew (hr lib).graph
    | _ => cases x <;> trivial
  | blockRef bb =>
    obtain ⟨b, w'', hblock, -, -, hval⟩ := h.blockRef hs ha
    obtain ⟨rfl, rfl⟩ := Prod.mk.inj (hx.symm.trans hblock)
    have hh := (h.fits _ ha).handed
    refine ⟨hh.mono (hr _).graph.allocated_le, fun b' e he hv => ?_⟩
    exact hval b' (World.Denotes.of_renew ⟨e, he, hv⟩ hr hh)
  | _ => cases x <;> trivial

/-- A gate returns what was there, or something that nobody has forgotten. -/
theorem Sound.unforgotten_of_gated {σ : Type} {w w' : World σ} (h : Sound names log w)
    {cx : Context} {p : Place} {r : Reference} (hg : Gated cx p w (some r) w')
    (hnew : r ∉ w.held) : ¬ r.Forgotten log := by
  cases hg with
  | hit hr ha => exact absurd (h.mem_of_holds hr ha) hnew
  | miss ha hfree h0 hid ho hp he => exact (h.aside ha).not_forgotten hid

/-- A wrapper that comes to be held in a step has not been forgotten. -/
theorem Sound.unforgotten_of_new {σ : Type} [NativeSystem σ] {w w' : World σ}
    (h : Sound names log w) {a : Primitive} (ha : a.Allowed w.held) {x : Except Fault a.Result}
    (hx : a.action.apply w = (x, w')) {v : ValueWrapper} (hv : .value v ∈ w'.held)
    (hnew : .value v ∉ w.held) : ¬ (Reference.value v).Forgotten log := by
  obtain ⟨x', w'', hx', -, hheld⟩ := h.perform a ha
  obtain ⟨rfl, rfl⟩ := Prod.mk.inj (hx.symm.trans hx')
  have hold (hm : Reference.value v ∈ w.held) : ¬ (Reference.value v).Forgotten log :=
    absurd hm hnew
  cases a with
  | internValue cx y =>
    obtain ⟨x', w'', hx', hg⟩ := gated_internValue cx y w
    obtain ⟨rfl, rfl⟩ := Prod.mk.inj (hx.symm.trans hx')
    rw [hg.held] at hv
    rcases List.mem_append.mp hv with hv | hv
    · rw [Option.mem_toList.mp hv] at hg
      exact h.unforgotten_of_gated hg hnew
    · exact hold hv
  | internBlock cx b =>
    obtain ⟨x', w'', hx', hg⟩ := gated_internBlock h ha b
    obtain ⟨rfl, rfl⟩ := Prod.mk.inj (hx.symm.trans hx')
    rw [hg.held] at hv
    rcases List.mem_append.mp hv with hv | hv
    · obtain ⟨bb, hbb, hv⟩ := List.mem_map.mp hv
      rw [Option.mem_toList.mp hbb] at hg
      cases hg with
      | found hside hg =>
        rw [← hv] at hnew ⊢
        exact (h.aside hside).unforgotten_of_gated hg (hside.held ▸ hnew)
    · exact hold hv
  | blockRef bb =>
    rw [hheld] at hv
    cases x with
    | ok b => exact hold hv
    | error f => exact hold hv
  | _ =>
    exact hold (Primitive.mem_of_mem_after ha rfl (fun _ _ heq => nomatch heq) (hheld ▸ hv))

/-- A library destroys the block that it is told to. -/
theorem World.not_denotes_of_deleteBlock {v : ValueWrapper} {b : BlockRef}
    {x : Except Fault Unit}
    (hx : (Action.call v.context.library (.deleteBlock b)).apply w = (x, w')) :
    ¬ w'.Denotes v b := by
  rintro ⟨e, he, -⟩
  have hgraph : w'.graph v.context.library = (w.graph v.context.library).deleteBlock b := by
    have hw : w' = _ := (congrArg Prod.snd hx).symm
    rw [hw]
    show (Recorders.recorder (Table.insert _ _ _) _).graph = _
    rw [Recorders.recorder_insert, if_pos rfl]
    rfl
  rw [hgraph, Memory.Graph.get?_blocks_deleteBlock_self] at he
  exact nomatch he

/-! ## The invariant -/

namespace Machine

/-- The next step of some operation is to destroy a block. -/
def Deleting {σ : Type} (m : Machine σ) (lib : LibraryId) (b : BlockRef) : Prop :=
  ∃ th ∈ m.threads, th.rest.first? = some (.call lib (.deleteBlock b))

/-- Between operations no block is about to be destroyed. -/
theorem not_deleting {σ : Type} {m : Machine σ} (h : m.threads = []) (lib : LibraryId)
    (b : BlockRef) : ¬ m.Deleting lib b := by
  rintro ⟨th, hth, -⟩
  rw [h] at hth
  exact nomatch hth

/-- The invariant: all operations under way delete with care, and whatever is forgotten of living
blocks is about to go. -/
structure Attended (m : Machine Recorders) : Prop where
  careful : ∀ th ∈ m.threads, th.rest.Careful m.world.native
  announced : ∀ v, .value v ∈ m.world.held → (Reference.value v).Forgotten m.log →
    ∀ b, m.world.Denotes v b → m.Deleting v.context.library b

namespace Attended

variable {m m' : Machine Recorders}

/-- What forgets nothing, brings nothing, and ends no operation before its end. -/
theorem calm (h : m.Attended) (hw : Shaped m.world)
    (hr : m.world.native.Renew m'.world.native) (hlog : m'.log = m.log)
    (hheld : m'.world.held ⊆ m.world.held)
    (hcome : ∀ th ∈ m'.threads, th ∈ m.threads ∨ th.rest.Careful m'.world.native)
    (hgo : ∀ th ∈ m.threads, th ∈ m'.threads ∨ th.rest.first? = none) : m'.Attended where
  careful th hth := (hcome th hth).elim (fun hm => (h.careful th hm).renew hr) id
  announced v hv hf b hd := by
    have hv := hheld hv
    obtain ⟨th, hth, hfirst⟩ :=
      h.announced v hv (hlog ▸ hf) b (hd.of_renew hr (hw.fits v hv).handed)
    rcases hgo th hth with hm | hnone
    · exact ⟨th, hm, hfirst⟩
    · rw [hnone] at hfirst
      exact nomatch hfirst

/-- A primitive of one operation. -/
theorem step (h : m.Attended) (hm : m.Accounted) (hw : Shaped m.world) {i : Nat} {th : Thread}
    {a : Primitive} {next : Except Fault a.Result → Operation (List Reference)}
    (hi : m.threads[i]? = some th) (hth : th.rest = .step a next) : (m.advance i th).Attended := by
  obtain ⟨names, hs⟩ := hm.sound
  have hfirst : m.primitive? i = some a := by
    rw [primitive?, hi, Option.bind_some, hth]
    rfl
  have ha := hm.allowed hfirst
  have hcareful := h.careful th (List.mem_of_getElem? hi)
  rw [hth] at hcareful
  obtain ⟨x, w', hx, -, -⟩ := hs.perform a ha
  have hr : m.world.native.Renew w'.native := by
    have hr := Recorders.persists_renew.perform hs ha fun _ _ => trivial
    rwa [hx] at hr
  let th' : Thread := ⟨th.borrowed, a.after x th.own, next x⟩
  have hadvance : m.advance i th =
      { m with world := w', log := a.forgets m.world ++ m.log, threads := m.threads.set i th' } := by
    rw [Machine.advance, hth]
    simp only [hx]
    rfl
  rw [hadvance]
  have hth' : th' ∈ m.threads.set i th' :=
    List.mem_set (List.getElem?_eq_some_iff.mp hi).1 th'
  refine ⟨fun th₁ hth₁ => ?_, fun v hv hf b hd => ?_⟩
  · rcases List.mem_or_eq_of_mem_set hth₁ with hm | rfl
    · exact (h.careful th₁ hm).renew hr
    · exact hcareful.2 x w'.native hr (hw.tells hs ha hx)
  obtain ⟨f, hmem, hhit⟩ := hf
  rcases List.mem_append.mp hmem with hnow | hbefore
  · -- The step has forgotten the wrapper: the end of the block comes next.
    cases a with
    | forgetValue cx y =>
      obtain ⟨e, hforget⟩ := Action.apply_forgetValue cx y m.world
      obtain ⟨rfl, rfl⟩ := Prod.mk.inj (hx.symm.trans hforget)
      obtain rfl := List.mem_singleton.mp hnow
      obtain ⟨hid, rfl, -⟩ := hhit
      obtain ⟨r, hheld, rfl⟩ := ha
      have hcx : v.context = r.owner := Reference.context.inj
        ((hs.held_named _ hv).owner.eq_of_id_eq (hs.held_named r hheld).owner hid)
      obtain ⟨be, hbe, hval⟩ := hd.of_renew hr (hw.fits v hv).handed
      rw [hcx] at hbe ⊢
      exact ⟨th', hth', hcareful.1.blocks b be hbe hval⟩
    | _ => exact absurd hnow List.not_mem_nil
  · -- It had been forgotten before: whoever is to destroy the block has not done so.
    have hold : .value v ∈ m.world.held := by
      by_contra hnew
      exact hs.unforgotten_of_new ha hx hv hnew ⟨f, hbefore, hhit⟩
    obtain ⟨th₁, hth₁, hfirst₁⟩ :=
      h.announced v hold ⟨f, hbefore, hhit⟩ b (hd.of_renew hr (hw.fits v hold).handed)
    obtain ⟨j, hj⟩ := List.mem_iff_getElem?.mp hth₁
    by_cases hij : i = j
    · subst hij
      obtain rfl := Option.some.inj (hi.symm.trans hj)
      rw [hth] at hfirst₁
      obtain rfl := Option.some.inj hfirst₁
      exact absurd hd (World.not_denotes_of_deleteBlock hx)
    · refine ⟨th₁, List.mem_of_getElem? (i := j) ?_, hfirst₁⟩
      rw [List.getElem?_set_ne hij, hj]

/-- One operation goes on. -/
theorem advance (h : m.Attended) (hm : m.Accounted) (hw : Shaped m.world) {i : Nat} {th : Thread}
    (hi : m.threads[i]? = some th) : (m.advance i th).Attended := by
  cases hth : th.rest with
  | step a next => exact h.step hm hw hi hth
  | done x =>
    rw [Machine.advance, hth]
    refine h.calm hw (refl_of Recorders.Renew _) rfl (List.Subset.refl _)
      (fun th' hth' => Or.inl (List.mem_of_mem_eraseIdx hth')) fun th' hth' => ?_
    obtain ⟨j, hj⟩ := List.mem_iff_getElem?.mp hth'
    by_cases hij : i = j
    · subst hij
      obtain rfl := Option.some.inj (hi.symm.trans hj)
      rw [hth]
      exact Or.inr rfl
    · exact Or.inl (List.mem_eraseIdx_iff_getElem?.mpr ⟨j, Ne.symm hij, hj⟩)

end Attended

end Machine

namespace Shapes

variable {u : Shapes} {x : MemoryMove}

theorem Kept.attended (h : Kept u) (ha : u.machine.Attended) (hx : u.Enabled x) :
    (u.next x).machine.Attended := by
  have hm := h.machine.accounted
  have hsame (th : Thread) (hth : th ∈ u.machine.threads) :
      th ∈ u.machine.threads ∨ th.rest.first? = none := Or.inl hth
  cases x with
  | build lib c =>
    exact ha.calm h.shaped (Recorders.renew_build _ lib c) rfl (List.Subset.refl _)
      (fun _ => Or.inl) hsame
  | reuse lib dead probes =>
    exact ha.calm h.shaped (Recorders.renew_reuse hx.2.2.1 probes) rfl (List.Subset.refl _)
      (fun _ => Or.inl) hsame
  | ask q =>
    refine ha.calm h.shaped (refl_of Recorders.Renew _) rfl (List.Subset.refl _) (fun th hth => ?_)
      fun th hth => Or.inl (List.mem_cons_of_mem _ hth)
    rcases List.mem_cons.mp hth with rfl | hth
    · exact Or.inr (q.careful _)
    · exact Or.inl hth
  | release r =>
    obtain ⟨names, hs⟩ := hm.sound
    have hr : r ∈ u.world.held := hm.held.symm.subset (List.mem_append_left _ hx.1.1)
    refine ha.calm h.shaped
      (Recorders.persists_renew.perform (a := .release r) hs hr fun _ _ => trivial) rfl ?_
      (fun _ => Or.inl) hsame
    show (u.machine.world.release r).held ⊆ u.machine.world.held
    rw [hs.held_release hr]
    exact List.erase_subset
  | advance i =>
    show (u.machine.next (.advance i)).Attended
    rw [Machine.next]
    cases hi : u.machine.threads[i]? with
    | none => exact ha
    | some th => exact ha.advance hm h.shaped hi

theorem Reachable.attended (h : Reachable u) : u.machine.Attended := by
  induction h with
  | start => exact ⟨nofun, nofun⟩
  | move h x hx ih => exact h.kept.attended ih hx

/-- A held wrapper of a living block has not been forgotten, unless some operation is about to
destroy the block. -/
theorem Reachable.unforgotten (h : Reachable u) {v : ValueWrapper} (hv : .value v ∈ u.world.held)
    {b : BlockRef} (hd : u.world.Denotes v b)
    (hb : ¬ u.machine.Deleting v.context.library b) :
    ¬ (Reference.value v).Forgotten u.machine.log :=
  fun hf => hb (h.attended.announced v hv hf b hd)

end Shapes

end CanonIR
