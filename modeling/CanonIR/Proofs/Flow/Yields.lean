import CanonIR.Proofs.Binding.Operation
import CanonIR.Proofs.Flow.Grounded
import CanonIR.Proofs.Identity.Navigation

/-!
Operations over a library that stands still. `Yields` says that an operation succeeds wherever some
references are held, what its result is like, and which references are held in the end; it leaves
the library as it is. There is one rule for each way to put operations together.
-/

namespace CanonIR

/-- A wrapper of a living block. -/
structure Memory.Graph.Wraps (g : Memory.Graph) (cx : Context) (b : BlockRef) (bb : BasicBlock) :
    Prop where
  context : bb.value.context = cx
  block : ∃ e, g.blocks.get? b = some e ∧ bb.value.handle = e.value

/-- A grounded world with the graph `g`, in which exactly the references `l` are held. -/
structure Still (cx : Context) (g : Memory.Graph) (l : List Reference) (w : World Memory.Graph) :
    Prop where
  grounded : Grounded cx w
  native : w.native = g
  held : w.held.Perm l

namespace Still

variable {cx : Context} {g : Memory.Graph} {l l' : List Reference} {w : World Memory.Graph}

theorem perm (h : Still cx g l w) (hl : l.Perm l') : Still cx g l' w :=
  ⟨h.grounded, h.native, h.held.trans hl⟩

theorem mem_held (h : Still cx g l w) {r : Reference} (hr : r ∈ l) : r ∈ w.held :=
  h.held.symm.subset hr

/-- Whoever holds anything holds something of the context. -/
theorem exists_owner (h : Still cx g l w) (hl : l ≠ []) : ∃ r ∈ w.held, r.owner = cx := by
  obtain ⟨r, hr⟩ := List.exists_mem_of_ne_nil l hl
  exact ⟨r, h.mem_held hr, h.grounded.current.owner r (h.mem_held hr)⟩

/-- Among the held wrappers identities tell as much as handles. -/
theorem id_eq_iff (h : Still cx g l w) {v v' : ValueWrapper} (hv : .value v ∈ l)
    (hv' : .value v' ∈ l) : v.id = v'.id ↔ v.handle = v'.handle := by
  constructor
  · intro hid
    obtain ⟨names, hs⟩ := h.grounded.current.sound
    rw [Reference.value.inj (hs.eq_of_id_eq (h.mem_held hv) (h.mem_held hv') hid)]
  · intro hh
    rw [h.grounded.eq_of_handle (h.mem_held hv) (h.mem_held hv') hh]

/-- A reference is given up that is not the last one. -/
theorem release (h : Still cx g l w) {r : Reference} (hl : l.Perm (r :: l')) (hne : l' ≠ []) :
    Still cx g l' (w.release r) := by
  obtain ⟨names, hs⟩ := h.grounded.current.sound
  have hr : r ∈ w.held := h.mem_held (hl.symm.subset List.mem_cons_self)
  have hperm : (w.release r).held.Perm l' := by
    rw [hs.held_release hr]
    have hp := (h.held.trans hl).erase r
    rwa [List.erase_cons_head] at hp
  have hgrounded : Grounded cx (w.release r) := h.grounded.perform (a := .release r) hr trivial
  obtain ⟨r', hr'⟩ := List.exists_mem_of_ne_nil l' hne
  have halive : (w.relinquish r).contextAlive r.owner = true := by
    have hm : r' ∈ w.held.eraseP (·.id == r.id) := by
      rw [← World.held_release (World.holds_of_mem hr)]
      exact hperm.symm.subset hr'
    refine World.contextAlive_iff.mpr ⟨r', hm, congrArg Context.id ?_⟩
    rw [h.grounded.current.owner r hr, h.grounded.current.owner r' (List.mem_of_mem_eraseP hm)]
  have hnative : (w.release r).native = w.native := by
    rw [World.release_of_alive (World.holds_of_mem hr) halive]
    rfl
  exact ⟨hgrounded, hnative.trans h.native, hperm⟩

end Still

namespace Operation

open Carries (references)

/-- Where the references `l` are held, the operation returns something of which `Φ` holds; then its
references and `l'` are held. -/
def Yields {α : Type} [Carries α] (cx : Context) (g : Memory.Graph) (l : List Reference)
    (op : Operation α) (l' : List Reference) (Φ : α → Prop) : Prop :=
  ∀ w, Still cx g l w →
    ∃ x w', op.action.apply w = (.ok x, w') ∧ Φ x ∧ Still cx g (references x ++ l') w'

variable {α β : Type} [Carries α] [Carries β] {cx : Context} {g : Memory.Graph}
variable {l l₁ l' : List Reference} {op : Operation α} {r : Reference} {v : ValueWrapper}
variable {Φ : α → Prop} {Ψ : β → Prop}

theorem yields_pure {x : α} (hl : l.Perm (references x ++ l')) (hx : Φ x) :
    Yields cx g l (pure x) l' Φ :=
  fun w hw => ⟨x, w, rfl, hx, hw.perm hl⟩

theorem Yields.bind {f : α → Operation β} (h : Yields cx g l op l₁ Φ)
    (hf : ∀ x, Φ x → Yields cx g (references x ++ l₁) (f x) l' Ψ) :
    Yields cx g l (op >>= f) l' Ψ := by
  intro w hw
  obtain ⟨x, w', hx, hΦ, hw'⟩ := h w hw
  rw [apply_bind_of_ok hx]
  exact hf x hΦ w' hw'

theorem Yields.imp {Φ' : α → Prop} (h : Yields cx g l op l' Φ) (hΦ : ∀ x, Φ x → Φ' x) :
    Yields cx g l op l' Φ' := by
  intro w hw
  obtain ⟨x, w', hx, hx', hw'⟩ := h w hw
  exact ⟨x, w', hx, hΦ x hx', hw'⟩

/-- What is so wherever the references are held can be used. -/
theorem yields_of_still {P : Prop} (hP : ∀ w, Still cx g l w → P)
    (h : P → Yields cx g l op l' Φ) : Yields cx g l op l' Φ :=
  fun w hw => h (hP w hw) w hw

/-! ## Questions and gates -/

/-- A question to the library. -/
theorem yields_ask {c : Call} {a : c.Answer} (hc : g.perform c = (.ok a, g)) :
    Yields cx g l (ask v c) l (· = a) := by
  intro w hw
  have happly : (ask v c).action.apply w = (.ok a, w) := by
    show (Action.call v.context.library c).apply w = (.ok a, w)
    refine Action.apply_call_of_perform ?_
    rw [hw.native]
    exact hc
  exact ⟨a, w, happly, rfl, hw⟩

theorem yields_walkLimit (lib : LibraryId) :
    Yields cx g l (walkLimit lib) l (· = g.allocated + 1) :=
  fun w hw => ⟨_, w, rfl, by rw [← hw.native]; rfl, hw⟩

theorem yields_internValue_null (v : ValueRef) (hn : v.isNull = true) :
    Yields cx g l (internValue cx v) l (· = none) :=
  fun w hw => ⟨none, w, Action.apply_internValue_null hn, rfl, hw⟩

theorem yields_internValue (hl : l ≠ []) {v : ValueRef} {ve : Memory.ValueEntry} {k : ValueKind}
    (hv : g.values.get? v = some ve) (hk : g.valueKind v cx.options.unknownValues = .ok k) :
    Yields cx g l (internValue cx v) l
      (fun x => ∃ y, x = some y ∧ y.context = cx ∧ y.handle = v ∧ y.kind = k) := by
  intro w hw
  obtain ⟨x, w', hx, hy, hw', hnat, hheld⟩ :=
    hw.grounded.value_gate (hw.exists_owner hl) (hw.native ▸ hv) (hw.native ▸ hk)
  exact ⟨some x, w', hx, ⟨x, rfl, hy⟩, hw', hnat.trans hw.native,
    hheld ▸ hw.held.cons (.value x)⟩

theorem yields_internBlock (hl : l ≠ []) {b : BlockRef}
    (hb : ∃ e, g.blocks.get? b = some e) :
    Yields cx g l (internBlock cx b) l (fun x => ∃ bb, x = some bb ∧ g.Wraps cx b bb) := by
  intro w hw
  obtain ⟨e, he⟩ := hb
  obtain ⟨bb, w', hx, ⟨ho, hh⟩, hw', hnat, hheld⟩ :=
    hw.grounded.block_gate (hw.exists_owner hl) (hw.native ▸ he)
  exact ⟨some bb, w', hx, ⟨bb, rfl, ho, e, he, hh⟩, hw', hnat.trans hw.native,
    hheld ▸ hw.held.cons (.value bb.value)⟩

theorem yields_blockRef {bb : BasicBlock} {b : BlockRef} (hbb : .value bb.value ∈ l)
    (hw : g.Wraps cx b bb) : Yields cx g l (blockRef bb) l (· = b) := by
  intro w hs
  obtain ⟨b', w', hx, hw', hnat, hheld, hb⟩ := hs.grounded.blockRef (hs.mem_held hbb)
  obtain ⟨e, he, hh⟩ := hw.block
  exact ⟨b', w', hx, hb b e (hs.native ▸ he) hh.symm, hw', hnat.trans hs.native, hheld ▸ hs.held⟩

/-! ## References taken on the way -/

theorem yields_release (hl : l.Perm (r :: l')) (hne : l' ≠ []) :
    Yields cx g l (release r) l' (fun _ => True) :=
  fun w hw => ⟨(), w.release r, rfl, trivial, hw.release hl hne⟩

theorem Yields.releasing (h : Yields cx g l op (r :: l') Φ) (hne : l' ≠ []) :
    Yields cx g l (releasing r op) l' Φ := by
  intro w hw
  obtain ⟨x, w', hx, hΦ, hw'⟩ := h w hw
  have hne' : references x ++ l' ≠ [] := List.append_ne_nil_of_right_ne_nil _ hne
  refine ⟨x, w'.release r, ?_, hΦ, hw'.release List.perm_middle hne'⟩
  rw [apply_releasing, hx]

/-- A reference is kept for the result, in front of others. -/
theorem Yields.cons {x : α} {op : Operation (List α)} {Φ : List α → Prop}
    (hx : references x = [r]) (h : Yields cx g (r :: l) op (r :: l) Φ) :
    Yields cx g (r :: l) (orRelease r do return x :: (← op)) l
      (fun xs => ∃ ys, xs = x :: ys ∧ Φ ys) := by
  intro w hw
  obtain ⟨ys, w', hys, hΦ, hw'⟩ := h w hw
  have happly : (orRelease r do return x :: (← op)).action.apply w = (.ok (x :: ys), w') := by
    rw [apply_orRelease, apply_bind_of_ok hys]
    rfl
  have hrefs : references (x :: ys) = r :: references ys := by
    have : references (x :: ys) = references x ++ references ys := List.flatMap_cons
    rw [this, hx]
    rfl
  refine ⟨x :: ys, w', happly, ⟨ys, rfl, hΦ⟩, hw'.perm ?_⟩
  rw [hrefs]
  exact List.perm_middle

/-- A wrapper under a view. -/
theorem yields_downcast (V : View) {y : ValueWrapper} (hl : l ≠ []) :
    Yields cx g (.value y :: l) (downcast V (some y)) l
      (fun x => match x with
        | some t => t.value = y
        | none => V.accepts y.kind = false) := by
  unfold downcast Viewed.ofWrapper
  dsimp only
  cases hd : y.downcast? V with
  | some t =>
    have ht : t.value = y := ValueWrapper.value_of_downcast? hd
    exact yields_pure (ht ▸ List.Perm.refl _) ht
  | none =>
    have hno : ¬ V.accepts y.kind = true := fun hk => by
      rw [ValueWrapper.downcast?, dif_pos hk] at hd
      exact nomatch hd
    refine (yields_release (List.Perm.refl _) hl).bind fun _ _ => ?_
    exact yields_pure (List.Perm.refl _) (Bool.eq_false_iff.mpr hno)

end Operation

end CanonIR
