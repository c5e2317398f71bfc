import CanonIR.Proofs.Binding.Steps
import CanonIR.Proofs.Lifetime.Binding
import CanonIR.Proofs.Memory.Recorder

/-!
The books of created contexts. They list the contexts that were created, and those of them that have
come to their ends, in that order; every primitive keeps them in step with the contexts that are
disposed in the libraries (`Books.perform`).
-/

namespace CanonIR

/-- The contexts disposed in a library. -/
def Recorders.disposed (rs : Recorders) (lib : LibraryId) : List ContextRef :=
  (rs.recorder lib).graph.disposed

/-- The handles of the contexts of a library. -/
def Context.rawsOf (lib : LibraryId) (l : List Context) : List ContextRef :=
  (l.filter (·.library = lib)).map Context.raw

/-- The contexts among some that live in one world, and no longer in another. -/
def World.fallen {σ : Type} (l : List Context) (w w' : World σ) : List Context :=
  l.filter fun cx => w.contextAlive cx && !w'.contextAlive cx

/-- The books of the contexts that were created, and of those that have come to their ends, in that
order: handles are handed out once, and disposed as the contexts end. -/
structure Books (created ended : List Context) (w : World Recorders) : Prop where
  unforced : ∀ lib, (w.native.recorder lib).forced = ∅
  names : Names (·.owned = true) created w
  created_nodup : created.Nodup
  owned : ∀ cx ∈ created, cx.owned = true
  handed : ∀ cx ∈ created, (w.native.recorder cx.library).graph.Handed cx.raw.address
  key : ∀ cx ∈ created, ∀ cx' ∈ created, cx.key = cx'.key → cx = cx'
  mem_ended : ∀ cx, cx ∈ ended ↔ cx ∈ created ∧ w.contextAlive cx = false
  ended_nodup : ended.Nodup
  disposed : ∀ lib, w.native.disposed lib = Context.rawsOf lib ended

namespace World

variable {σ : Type} {l : List Context} {w w' : World σ} {cx : Context}

theorem fallen_eq_nil (h : ∀ cx ∈ l, w.contextAlive cx = true → w'.contextAlive cx = true) :
    fallen l w w' = [] := by
  refine List.filter_eq_nil_iff.mpr fun cx hcx => ?_
  cases ha : w.contextAlive cx with
  | false => simp
  | true => simp [h cx hcx ha]

theorem fallen_eq_singleton (hl : l.Nodup) (hcx : cx ∈ l) (ha : w.contextAlive cx = true)
    (hd : w'.contextAlive cx = false)
    (h : ∀ cx' ∈ l, cx' ≠ cx → w'.contextAlive cx' = w.contextAlive cx') :
    fallen l w w' = [cx] := by
  refine List.perm_singleton.mp ?_
  refine (List.perm_ext_iff_of_nodup (hl.filter _) (List.nodup_singleton cx)).mpr fun cx' => ?_
  rw [List.mem_filter, List.mem_singleton]
  constructor
  · intro hx
    obtain ⟨hm, hf⟩ := hx
    by_contra hne
    rw [h cx' hm hne] at hf
    simp at hf
  · rintro rfl
    exact ⟨hcx, by simp [ha, hd]⟩

end World

/-- Only a release may make a call that disposes. -/
theorem Primitive.Plain.ne_disposeContext {a : Primitive} (h : a.Plain) (hr : a.released = [])
    {c : Call} (hc : a.MayCall c) (cx : ContextRef) : c ≠ .disposeContext cx := by
  rintro rfl
  rcases h.mayCall hc rfl with ⟨hx, -⟩ | ⟨r, -, rfl⟩ | ⟨bb, hx, -⟩
  · exact nomatch hx
  · exact nomatch hr
  · exact nomatch hx

namespace Books

variable {created ended : List Context} {w w' : World Recorders} {cx : Context}

theorem start (rs : Recorders) (hf : ∀ lib, (rs.recorder lib).forced = ∅)
    (hd : ∀ lib, rs.disposed lib = []) : Books [] [] { native := rs } where
  unforced := hf
  names := Names.start _ rs
  created_nodup := List.nodup_nil
  owned _ h := nomatch h
  handed _ h := nomatch h
  key _ h := nomatch h
  mem_ended cx := by simp
  ended_nodup := List.nodup_nil
  disposed := hd

/-- Nobody comes to an end, and the libraries grow. -/
theorem calm (h : Books created ended w) (hn : Names (·.owned = true) created w')
    (ha : ∀ cx ∈ created, w'.contextAlive cx = w.contextAlive cx)
    (hg : w.native.Grow w'.native) :
    Books created (ended ++ World.fallen created w w') w' := by
  rw [World.fallen_eq_nil fun cx hcx hl => (ha cx hcx).trans hl, List.append_nil]
  exact
    { h with
      unforced := fun lib => (hg lib).forced.trans (h.unforced lib)
      names := hn
      handed := fun cx hcx => (h.handed cx hcx).mono (hg cx.library).graph.allocated_le
      mem_ended := fun cx => by
        rw [h.mem_ended]
        refine and_congr_right fun hcx => ?_
        rw [ha cx hcx]
      disposed := fun lib => (hg lib).graph.disposed.trans (h.disposed lib) }

theorem works (h : Books created ended w) (hw : w.Works w') (hg : w.native.Grow w'.native) :
    Books created (ended ++ World.fallen created w w') w' :=
  h.calm (h.names.works hw) (fun cx _ => hw.contextAlive cx) hg

/-- A binding that owns nothing is not in the books. -/
theorem attach (h : Books created ended w) {w₁ : World Recorders} (ha : w.Aside w₁)
    (hid : cx.id = w₁.nextId) (ho : cx.owned = false) (hg : w.native.Grow w₁.native) :
    Books created (ended ++ World.fallen created w (w₁.bound cx)) (w₁.bound cx) := by
  have hw := ha.keeps.toWorks
  have hn := h.names.works hw
  refine h.calm (hn.pass hid (by simp [ho])) (fun cx' hcx' => ?_) hg
  exact (World.contextAlive_bound (hn.ne_of_new hid hcx')).trans (hw.contextAlive cx')

/-- A new context comes with a new handle. -/
theorem create (h : Books created ended w) {names : Nat → Reference} {log : List Forgetting}
    (hs : Sound names log w) {w₁ : World Recorders} (ha : w.Aside w₁)
    (hid : cx.id = w₁.nextId) (ho : cx.owned = true) (hg : w.native.Grow w₁.native)
    (hnew : ¬ (w.native.recorder cx.library).graph.Handed cx.raw.address)
    (hraw : (w₁.native.recorder cx.library).graph.Handed cx.raw.address) :
    Books (cx :: created) (ended ++ World.fallen created w (w₁.bound cx)) (w₁.bound cx) := by
  have hw := ha.keeps.toWorks
  have hn := h.names.works hw
  have hne {cx' : Context} (hcx' : cx' ∈ created) : cx' ≠ cx := fun heq =>
    hn.ne_of_new hid hcx' (congrArg Context.id heq)
  have hkey {cx' : Context} (hcx' : cx' ∈ created) : cx'.key ≠ cx.key := by
    intro hk
    obtain ⟨hl, hr⟩ := Prod.mk.inj hk
    exact hnew (hl ▸ hr ▸ h.handed cx' hcx')
  have halive {cx' : Context} (hcx' : cx' ∈ created) :
      (w₁.bound cx).contextAlive cx' = w.contextAlive cx' :=
    (World.contextAlive_bound (hn.ne_of_new hid hcx')).trans (hw.contextAlive cx')
  have hself : (w₁.bound cx).contextAlive cx = true :=
    World.contextAlive_iff.mpr ⟨.context cx, List.mem_cons_self, rfl⟩
  rw [World.fallen_eq_nil fun cx' hcx' hl => (halive hcx').trans hl, List.append_nil]
  exact
    { unforced := fun lib => (hg lib).forced.trans (h.unforced lib)
      names := hn.add hid fun r hr => ((hs.aside ha).held_named r hr).owner_lt
      created_nodup := List.nodup_cons.mpr ⟨fun hm => hne hm rfl, h.created_nodup⟩
      owned := fun cx' hcx' => by
        rcases List.mem_cons.mp hcx' with rfl | hcx'
        · exact ho
        · exact h.owned cx' hcx'
      handed := fun cx' hcx' => by
        rcases List.mem_cons.mp hcx' with rfl | hcx'
        · exact hraw
        · exact (h.handed cx' hcx').mono (hg cx'.library).graph.allocated_le
      key := fun c hc c' hc' hk => by
        rcases List.mem_cons.mp hc with rfl | hm <;> rcases List.mem_cons.mp hc' with rfl | hm'
        · rfl
        · exact absurd hk.symm (hkey hm')
        · exact absurd hk (hkey hm)
        · exact h.key c hm c' hm' hk
      mem_ended := fun cx' => by
        rw [h.mem_ended, List.mem_cons]
        constructor
        · intro hx
          exact ⟨Or.inr hx.1, (halive hx.1).trans hx.2⟩
        · rintro ⟨rfl | hm, hd⟩
          · rw [hself] at hd
            exact nomatch hd
          · exact ⟨hm, (halive hm).symm.trans hd⟩
      ended_nodup := h.ended_nodup
      disposed := fun lib => (hg lib).graph.disposed.trans (h.disposed lib) }

theorem mem_of_disposed (h : Books created ended w) {lib : LibraryId} {raw : ContextRef}
    (hraw : raw ∈ w.native.disposed lib) : ∃ cx ∈ ended, cx.key = (lib, raw) := by
  rw [h.disposed, Context.rawsOf, List.mem_map] at hraw
  obtain ⟨cx, hcx, rfl⟩ := hraw
  obtain ⟨hm, hl⟩ := List.mem_filter.mp hcx
  exact ⟨cx, hm, Prod.ext (of_decide_eq_true hl) rfl⟩

/-- A context in the books ends, and is disposed. -/
theorem finish (h : Books created ended w) (hn : Names (·.owned = true) created w')
    (hcx : cx ∈ created) (hl : w.contextAlive cx = true) (hd : w'.contextAlive cx = false)
    (ha : ∀ cx' ∈ created, cx' ≠ cx → w'.contextAlive cx' = w.contextAlive cx')
    (hnat : w'.native = (NativeSystem.perform cx.library (.disposeContext cx.raw) w.native).2) :
    Books created (ended ++ World.fallen created w w') w' := by
  rw [World.fallen_eq_singleton h.created_nodup hcx hl hd ha]
  have hnot : cx ∉ ended := by
    rw [h.mem_ended, hl]
    simp
  have hrec (lib : LibraryId) : w'.native.recorder lib =
      if lib = cx.library then ((w.native.recorder cx.library).perform (.disposeContext cx.raw)).2
      else w.native.recorder lib := by
    rw [hnat]
    exact Recorders.recorder_insert _ _ _ _
  exact
    { h with
      names := hn
      unforced := fun lib => by
        rw [hrec]
        split
        · exact h.unforced cx.library
        · exact h.unforced lib
      handed := fun cx' hcx' => by
        rw [hrec]
        split
        · next heq => exact heq ▸ h.handed cx' hcx'
        · exact h.handed cx' hcx'
      mem_ended := fun cx' => by
        rw [List.mem_append, List.mem_singleton, h.mem_ended]
        constructor
        · rintro (⟨hm, hdead⟩ | rfl)
          · refine ⟨hm, (ha cx' hm fun heq => ?_).trans hdead⟩
            rw [heq, hl] at hdead
            exact nomatch hdead
          · exact ⟨hcx, hd⟩
        · intro hx
          by_cases heq : cx' = cx
          · exact Or.inr heq
          · exact Or.inl ⟨hx.1, (ha cx' hx.1 heq).symm.trans hx.2⟩
      ended_nodup := by
        rw [← List.concat_eq_append]
        exact h.ended_nodup.concat hnot
      disposed := fun lib => by
        rw [Recorders.disposed, hrec, Context.rawsOf, List.filter_append, List.map_append]
        by_cases hlib : cx.library = lib
        · subst hlib
          have hself : [cx].filter (·.library = cx.library) = [cx] := by simp
          rw [if_pos rfl, hself]
          exact congrArg (· ++ [cx.raw]) (h.disposed cx.library)
        · have hnil : [cx].filter (·.library = lib) = [] := by simp [hlib]
          rw [if_neg (Ne.symm hlib), hnil, List.map_nil, List.append_nil]
          exact h.disposed lib }

/-- The context whose last reference is given up ends, and is disposed if it is in the books. -/
theorem release (h : Books created ended w) {names : Nat → Reference} {log : List Forgetting}
    (hs : Sound names log w) {r : Reference} (hr : r ∈ w.held) :
    Books created (ended ++ World.fallen created w (w.release r)) (w.release r) := by
  have hsub : Names (·.owned = true) created (w.relinquish r) :=
    h.names.subset rfl List.eraseP_subset
  have hother {cx : Context} (hid : cx.id ≠ r.owner.id) :
      (w.relinquish r).contextAlive cx = w.contextAlive cx :=
    World.contextAlive_relinquish_of_ne hs hr hid
  have hself : w.contextAlive r.owner = true := World.contextAlive_iff.mpr ⟨r, hr, rfl⟩
  cases ha : (w.relinquish r).contextAlive r.owner with
  | true =>
    rw [World.release_of_alive (World.holds_of_mem hr) ha]
    refine h.calm hsub (fun cx hcx => ?_) (refl_of Recorders.Grow _)
    by_cases hid : cx.id = r.owner.id
    · rw [World.contextAlive, World.contextAlive, hid]
      exact ha.trans hself.symm
    · exact hother hid
  | false =>
    rw [World.release_of_dead (World.holds_of_mem hr) ha]
    have hheld := World.held_retire (w.relinquish r) r.owner
    have halive (cx : Context) : ((w.relinquish r).retire r.owner).contextAlive cx =
        (w.relinquish r).contextAlive cx := by
      rw [World.contextAlive, hheld]
      rfl
    have hn : Names (·.owned = true) created ((w.relinquish r).retire r.owner) :=
      hsub.subset (World.nextId_retire _ _) fun r' hr' => hheld ▸ hr'
    have hrest {cx : Context} (hcx : cx ∈ created) (hne : cx ≠ r.owner) :
        ((w.relinquish r).retire r.owner).contextAlive cx = w.contextAlive cx :=
      (halive cx).trans (hother fun hid => hne (h.names.eq_owner r hr cx hcx hid))
    cases ho : r.owner.owned with
    | true =>
      refine h.finish hn (h.names.owner r hr ho) hself ((halive _).trans ha)
        (fun cx hcx hne => hrest hcx hne) ?_
      unfold World.retire
      rw [if_pos ho]
      rfl
    | false =>
      have hnot {cx : Context} (hcx : cx ∈ created) : cx ≠ r.owner := by
        rintro rfl
        rw [h.owned _ hcx] at ho
        cases ho
      refine h.calm hn (fun cx hcx => hrest hcx (hnot hcx)) ?_
      have hnat : ((w.relinquish r).retire r.owner).native = w.native := by
        unfold World.retire
        rw [if_neg (by simp [ho])]
        rfl
      rw [hnat]
      exact refl_of Recorders.Grow _

/-- A library without forced answers makes a context with the next address. -/
theorem apply_createContext_unforced {lib : LibraryId} (options : ContextOptions)
    (hf : (w.native.recorder lib).forced = ∅) :
    ∃ w₁ cx, (Action.createContext lib options).apply w = (.ok cx, w₁.bound cx) ∧ w.Aside w₁ ∧
      w₁.native = (NativeSystem.perform lib .createContext w.native).2 ∧ cx.id = w₁.nextId ∧
      cx.library = lib ∧ cx.raw = ⟨(w.native.recorder lib).graph.alloc.1⟩ ∧ cx.owned = true := by
  have ha := Recorders.perform_of_unforced (c := .createContext) hf rfl
  rw [Action.createContext, Action.apply_bind, Action.apply_call_of_perform ha]
  exact ⟨_, _, rfl, ⟨_, _, rfl⟩, congrArg Prod.snd ha.symm, rfl, rfl, rfl, rfl⟩

/-- The context that a primitive creates. -/
def created? (a : Primitive) (w : World Recorders) : Option Context :=
  if a.creates then a.context? (a.action.apply w).1 else none

/-- Every primitive keeps the books. -/
theorem perform (h : Books created ended w) {names : Nat → Reference} {log : List Forgetting}
    (hs : Sound names log w) {a : Primitive} (ha : a.Allowed w.held) (hp : a.Plain) :
    Books ((created? a w).toList ++ created)
      (ended ++ World.fallen created w (a.action.apply w).2) (a.action.apply w).2 := by
  cases hr : a.released with
  | cons r' rs =>
    cases a with
    | release r => exact h.release hs ha
    | _ => exact nomatch hr
  | nil =>
    have hg : w.native.Grow (a.action.apply w).2.native :=
      Recorders.persists_grow.perform hs ha fun c hc => hp.ne_disposeContext hr hc
    cases hc : a.creates with
    | false =>
      have hnone : created? a w = none := by
        unfold created?
        rw [hc]
        rfl
      rw [hnone]
      obtain ⟨x, w', hx, hb⟩ := hs.bound_perform ha hr
      rw [hx] at hg ⊢
      rw [hc] at hb
      generalize a.context? x = c at hb
      cases hb with
      | works hw _ => exact h.works hw hg
      | made hw hid ho _ => exact h.attach hw hid ho hg
    | true =>
      cases a with
      | createContext lib options =>
        obtain ⟨w₁, cx, hx, hw, hn, hid, rfl, hraw, ho⟩ :=
          apply_createContext_unforced options (h.unforced lib)
        have hx' : (Primitive.createContext cx.library options).action.apply w =
            (.ok cx, w₁.bound cx) := hx
        rw [hx'] at hg
        have hgraph : (w₁.native.recorder cx.library).graph =
            (w.native.recorder cx.library).graph.alloc.2 := by
          rw [hn]
          show (Recorders.recorder (Table.insert _ _ _) cx.library).graph = _
          rw [Recorders.recorder_insert, if_pos rfl]
          rfl
        have hbooks := h.create hs hw hid ho hg (hraw ▸ Memory.Graph.not_handed_alloc _)
          (hgraph ▸ hraw ▸ Memory.Graph.handed_alloc _)
        rw [created?, hx']
        exact hbooks
      | _ => exact nomatch hc

end Books

end CanonIR
