import CanonIR.Proofs.Binding.Steps
import CanonIR.Proofs.Identity.Primitive

/-!
Ownership. An operation works with references that its caller lends it, and with its own, which it
takes on the way. It is safe if it uses nothing else, gives up only its own, and in the end has what
it hands over, and no other. Safety is a property of the program alone: it does not look at the
world, so it holds whatever goes on between the steps.
-/

namespace CanonIR

namespace Operation

open Carries (references)

variable {α β : Type} {borrowed own own' rest rest' : List Reference}
variable {post post' : Except Fault α → List Reference} {op : Operation α} {r : Reference}

/-- With borrowed references and own ones, the operation ends with `post` of its outcome. -/
def Safe (borrowed : List Reference) (post : Except Fault α → List Reference) :
    Operation α → List Reference → Prop
  | done x, own => own.Perm (post x)
  | step a next, own =>
    a.Allowed (borrowed ++ own) ∧ a.released ⊆ own ∧
      ∀ x, (next x).Safe borrowed post (a.after x own)

theorem after_perm {a : Primitive} (h : own.Perm own') (x : Except Fault a.Result) :
    (a.after x own).Perm (a.after x own') := by
  cases a with
  | release r => exact h.erase r
  | _ =>
    cases x with
    | ok y => exact h.append_left _
    | error e => exact h

/-- A primitive leaves the references of others alone. -/
theorem after_append {a : Primitive} (hr : a.released ⊆ own)
    (x : Except Fault a.Result) (rest : List Reference) :
    a.after x (own ++ rest) = a.after x own ++ rest := by
  cases a with
  | release r => exact List.erase_append_left rest (hr List.mem_cons_self)
  | _ =>
    cases x with
    | ok y => exact (List.append_assoc _ own rest).symm
    | error e => rfl

theorem Safe.perm (h : op.Safe borrowed post own) (hp : own.Perm own') :
    op.Safe borrowed post own' := by
  induction op generalizing own own' with
  | done x => exact hp.symm.trans h
  | step a next ih =>
    obtain ⟨ha, hr, hn⟩ := h
    refine ⟨ha.mono (hp.append_left borrowed).subset, ?_, ?_⟩
    · exact List.Subset.trans hr hp.subset
    · exact fun x => ih x (hn x) (after_perm hp x)

theorem Safe.congr (h : op.Safe borrowed post own) (hp : ∀ x, (post x).Perm (post' x)) :
    op.Safe borrowed post' own := by
  induction op generalizing own with
  | done x => exact List.Perm.trans h (hp x)
  | step a next ih => exact ⟨h.1, h.2.1, fun x => ih x (h.2.2 x)⟩

theorem Safe.bind {f : α → Operation β} {post' : Except Fault β → List Reference}
    (h : op.Safe borrowed post own)
    (hf : ∀ x, (f x).Safe borrowed post' (post (.ok x)))
    (he : ∀ e, (post (.error e)).Perm (post' (.error e))) :
    (op >>= f).Safe borrowed post' own := by
  induction op generalizing own with
  | done x =>
    cases x with
    | ok x => exact (hf x).perm (List.Perm.symm h)
    | error e => exact List.Perm.trans h (he e)
  | step a next ih => exact ⟨h.1, h.2.1, fun x => ih x (h.2.2 x)⟩

/-- A step that gives up an own reference leaves the others to the rest. -/
theorem safe_release {next : Except Fault Unit → Operation α} (h : own.Perm (r :: rest))
    (hn : ∀ x, (next x).Safe borrowed post rest) :
    (step (.release r) next).Safe borrowed post own := by
  have hr : r ∈ own := h.symm.subset List.mem_cons_self
  refine ⟨List.mem_append_right borrowed hr, List.cons_subset.mpr ⟨hr, List.nil_subset own⟩,
    fun x => (hn x).perm ?_⟩
  have hp := h.erase r
  rw [List.erase_cons_head] at hp
  exact hp.symm

theorem Safe.releasing (h : op.Safe borrowed (fun x => r :: post x) own) :
    (releasing r op).Safe borrowed post own := by
  induction op generalizing own with
  | done x => exact safe_release h fun _ => List.Perm.refl _
  | step a next ih => exact ⟨h.1, h.2.1, fun x => ih x (h.2.2 x)⟩

theorem Safe.orRelease
    (h : op.Safe borrowed (fun
      | .ok x => post (.ok x)
      | .error e => r :: post (.error e)) own) :
    (orRelease r op).Safe borrowed post own := by
  induction op generalizing own with
  | done x =>
    cases x with
    | ok x => exact h
    | error e => exact safe_release h fun _ => List.Perm.refl _
  | step a next ih => exact ⟨h.1, h.2.1, fun x => ih x (h.2.2 x)⟩

/-- A primitive that uses borrowed references and own ones keeps a sound world sound, changes the
own references, and leaves the others held. -/
theorem perform_own {σ : Type} [NativeSystem σ] {names : Nat → Reference}
    {log : List Forgetting} {w : World σ} {others : List Reference} {a : Primitive}
    (h : Sound names log w) (ha : a.Allowed (borrowed ++ own)) (hr : a.released ⊆ own)
    (hb : borrowed ⊆ others) (hheld : w.held.Perm (own ++ others)) :
    ∃ x w', a.action.apply w = (x, w') ∧ (∃ names, Sound names (a.forgets w ++ log) w') ∧
      w'.held.Perm (a.after x own ++ others) := by
  have hsub : borrowed ++ own ⊆ w.held := by
    refine List.append_subset.mpr ⟨fun r hr => ?_, fun r hr => ?_⟩
    · exact hheld.symm.subset (List.mem_append_right own (hb hr))
    · exact hheld.symm.subset (List.mem_append_left others hr)
  obtain ⟨x, w', hx, hs, hw'⟩ := h.perform a (ha.mono hsub)
  refine ⟨x, w', hx, hs, ?_⟩
  rw [hw', ← after_append hr]
  exact after_perm hheld x

/-- An operation that runs with nothing between its steps keeps what each of its steps keeps, and
ends with what it is to end with, beside the references of others. -/
theorem Safe.run {σ : Type} [NativeSystem σ] {Q : Primitive → Prop} {P : World σ → Prop}
    {others : List Reference}
    (hP : ∀ (a : Primitive) (w : World σ), (∃ names log, Sound names log w) → Q a →
      a.Allowed w.held → others ⊆ (a.action.apply w).2.held → P w → P (a.action.apply w).2)
    (h : op.Safe borrowed post own) (hq : op.Every Q) (hb : borrowed ⊆ others) {w : World σ}
    (hs : ∃ names log, Sound names log w) (hheld : w.held.Perm (own ++ others)) (hw : P w) :
    P (op.action.apply w).2 ∧
      (op.action.apply w).2.held.Perm (post (op.action.apply w).1 ++ others) := by
  induction op generalizing own w with
  | done x => exact ⟨hw, hheld.trans (List.Perm.append_right others h)⟩
  | step a next ih =>
    obtain ⟨ha, hr, hn⟩ := h
    obtain ⟨names, log, hsound⟩ := hs
    obtain ⟨x, w', hx, ⟨names', hs'⟩, hheld'⟩ := perform_own hsound ha hr hb hheld
    have hallowed : a.Allowed w.held := by
      refine ha.mono fun r hr => hheld.symm.subset ?_
      rcases List.mem_append.mp hr with hr | hr
      · exact List.mem_append_right own (hb hr)
      · exact List.mem_append_left others hr
    have hothers : others ⊆ w'.held := fun r hr =>
      hheld'.symm.subset (List.mem_append_right _ hr)
    have hw' : P w' := by
      have hstep := hP a w ⟨names, log, hsound⟩ hq.1 hallowed
      rw [hx] at hstep
      exact hstep hothers hw
    have hrun := ih x (hn x) (hq.2 x) ⟨names', _, hs'⟩ hheld' hw'
    have hact : (step a next).action.apply w = (next x).action.apply w' := by
      show (next (a.action.apply w).1).action.apply (a.action.apply w).2 = _
      rw [hx]
    rw [hact]
    exact hrun

/-! ## Handing results over -/

/-- What is there in the end: what the result brings, and `rest`. -/
def outcome [Carries α] (rest : List Reference) : Except Fault α → List Reference
  | .ok x => references x ++ rest
  | .error _ => rest

/-- The operation turns its own references into those of its result and `rest`, and into `rest`
alone if it fails. -/
def Hands [Carries α] (borrowed own : List Reference) (op : Operation α)
    (rest : List Reference) : Prop :=
  op.Safe borrowed (outcome rest) own

variable [Carries α] [Carries β]

theorem hands_pure {x : α} (h : own.Perm (references x ++ rest)) :
    Hands borrowed own (pure x) rest := h

theorem hands_fail {e : Fault} (h : own.Perm rest) : Hands borrowed own (fail e : Operation α) rest :=
  h

theorem Hands.bind {f : α → Operation β} (h : Hands borrowed own op rest)
    (hf : ∀ x, Hands borrowed (references x ++ rest) (f x) rest) :
    Hands borrowed own (op >>= f) rest :=
  Safe.bind h hf fun _ => List.Perm.refl _

/-! ## Primitives -/

/-- Whoever has a wrapper may use its context. -/
theorem exists_owner {has : List Reference} {v : ValueWrapper} (hv : .value v ∈ has) :
    ∃ r ∈ has, r.owner = v.context :=
  ⟨.value v, hv, rfl⟩

/-- A primitive that gives nothing up adds the references of its result. -/
theorem hands_perform (a : Primitive) [Carries a.Result] (ha : a.Allowed (borrowed ++ own))
    (hr : a.released = []) (href : ∀ y, a.references y = references y) :
    Hands borrowed own (perform a) own := by
  refine ⟨ha, hr ▸ List.nil_subset own, fun x => ?_⟩
  rw [Primitive.after_of_released hr]
  cases x with
  | ok y => exact List.Perm.of_eq (congrArg (· ++ own) (href y))
  | error e => exact List.Perm.refl own

theorem hands_call (lib : LibraryId) (c : Call) : Hands borrowed own (call lib c) own :=
  hands_perform (.call lib c) trivial rfl fun _ => rfl

theorem hands_emit (e : Event) : Hands borrowed own (emit e) own :=
  hands_perform (.emit e) trivial rfl fun _ => rfl

theorem hands_walkLimit (lib : LibraryId) : Hands borrowed own (walkLimit lib) own :=
  hands_perform (.walkLimit lib) trivial rfl fun _ => rfl

theorem hands_createContext (lib : LibraryId) (options : ContextOptions) :
    Hands borrowed own (createContext lib options) own :=
  hands_perform (.createContext lib options) trivial rfl fun _ => rfl

theorem hands_attachContext (lib : LibraryId) (raw : ContextRef) (options : ContextOptions) :
    Hands borrowed own (attachContext lib raw options) own :=
  hands_perform (.attachContext lib raw options) trivial rfl fun _ => rfl

theorem hands_internType {cx : Context} (hcx : ∃ r ∈ borrowed ++ own, r.owner = cx)
    (h : TypeRef) : Hands borrowed own (internType cx h) own :=
  hands_perform (.internType cx h) hcx rfl fun y => by cases y <;> rfl

theorem hands_internValue {cx : Context} (hcx : ∃ r ∈ borrowed ++ own, r.owner = cx)
    (h : ValueRef) : Hands borrowed own (internValue cx h) own :=
  hands_perform (.internValue cx h) hcx rfl fun y => by cases y <;> rfl

theorem hands_internBlock {cx : Context} (hcx : ∃ r ∈ borrowed ++ own, r.owner = cx)
    (b : BlockRef) : Hands borrowed own (internBlock cx b) own :=
  hands_perform (.internBlock cx b) hcx rfl fun y => by cases y <;> rfl

theorem hands_blockRef {bb : BasicBlock} (hb : .value bb.value ∈ borrowed ++ own) :
    Hands borrowed own (blockRef bb) own :=
  hands_perform (.blockRef bb) hb rfl fun _ => rfl

theorem hands_forgetValue {cx : Context} (hcx : ∃ r ∈ borrowed ++ own, r.owner = cx)
    (h : ValueRef) : Hands borrowed own (forgetValue cx h) own :=
  hands_perform (.forgetValue cx h) hcx rfl fun _ => rfl

/-- Taking one more reference, for the result. -/
theorem hands_copy {x : α} (hx : references x = [r])
    (hr : r ∈ borrowed ++ own ∨ ∃ r' ∈ borrowed ++ own, r = .context r'.owner) :
    Hands borrowed own (do hold r; return x) own := by
  refine ⟨hr, List.nil_subset own, fun y => ?_⟩
  cases y with
  | ok y =>
    have hp : (r :: own).Perm (references x ++ own) := by
      rw [hx]
      exact List.Perm.refl _
    exact hp
  | error e => exact List.Perm.refl _

theorem hands_release (h : own.Perm (r :: rest)) : Hands borrowed own (release r) rest :=
  safe_release h fun x => by cases x <;> exact List.Perm.refl rest

theorem hands_downcast (V : View) (v : Option ValueWrapper) :
    Hands borrowed (references v ++ own) (downcast V v) own := by
  cases v with
  | none => exact hands_pure (List.Perm.refl _)
  | some v =>
    unfold downcast Viewed.ofWrapper
    dsimp only
    cases hd : v.downcast? V with
    | some x =>
      obtain rfl := ValueWrapper.value_of_downcast? hd
      exact hands_pure (List.Perm.refl _)
    | none =>
      exact (hands_release (List.Perm.refl _)).bind fun _ => hands_pure (List.Perm.refl _)

end Operation

end CanonIR
