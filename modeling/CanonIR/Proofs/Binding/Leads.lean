import CanonIR.Binding.Request
import CanonIR.Proofs.Binding.Operation
import CanonIR.Proofs.Binding.Place

/-!
Operations that succeed, and operations that fail. `Leads` says of an operation that it succeeds in
every world of a kind in which some references are held, what its result is like, and which
references are held in the end; `Fails` says that it fails, with which fault, and what is held then.
The kind of world is left open; what has to be known of it is that it does not depend on the order
of the references, and that a reference can be given up as long as another one keeps its context
alive (`Tenable`). There is one rule for each way to put operations together.
-/

namespace CanonIR

variable {σ : Type} [NativeSystem σ]

/-- A kind of worlds, by the references that are held, in which references can be given up. -/
structure Tenable (I : List Reference → World σ → Prop) : Prop where
  perm : ∀ {l l' : List Reference} {w : World σ}, I l w → l.Perm l' → I l' w
  release : ∀ {r : Reference} {l : List Reference} {w : World σ}, I (r :: l) w →
    (∃ r' ∈ l, r'.owner = r.owner) → I l (w.release r)

theorem Carries.references_values (xs : List ValueWrapper) : references xs = xs.map .value :=
  List.map_eq_flatMap.symm

theorem Carries.references_views {V : View} (xs : List (Viewed V)) :
    references xs = xs.map fun x => .value x.value :=
  List.map_eq_flatMap.symm

namespace Operation

open Carries (references)

/-- Where the references `l` are held, the operation returns something of which `Φ` holds; then its
references and `l'` are held. -/
def Leads {α : Type} [Carries α] (I : List Reference → World σ → Prop) (l : List Reference)
    (op : Operation α) (l' : List Reference) (Φ : α → Prop) : Prop :=
  ∀ w, I l w → ∃ x w', op.action.apply w = (.ok x, w') ∧ Φ x ∧ I (references x ++ l') w'

variable {α β : Type} [Carries α] [Carries β] {I : List Reference → World σ → Prop}
variable {l l₁ l' : List Reference} {op : Operation α} {r : Reference}
variable {Φ Φ' : α → Prop} {Ψ : β → Prop}

theorem leads_pure (hI : Tenable I) {x : α} (hl : l.Perm (references x ++ l')) (hx : Φ x) :
    Leads I l (pure x) l' Φ :=
  fun w hw => ⟨x, w, rfl, hx, hI.perm hw hl⟩

theorem Leads.bind {f : α → Operation β} (h : Leads I l op l₁ Φ)
    (hf : ∀ x, Φ x → Leads I (references x ++ l₁) (f x) l' Ψ) : Leads I l (op >>= f) l' Ψ := by
  intro w hw
  obtain ⟨x, w', hx, hΦ, hw'⟩ := h w hw
  rw [apply_bind_of_ok hx]
  exact hf x hΦ w' hw'

theorem Leads.imp (h : Leads I l op l' Φ) (hΦ : ∀ x, Φ x → Φ' x) : Leads I l op l' Φ' := by
  intro w hw
  obtain ⟨x, w', hx, hx', hw'⟩ := h w hw
  exact ⟨x, w', hx, hΦ x hx', hw'⟩

/-- What is so wherever the references are held can be used. -/
theorem leads_of {P : Prop} (hP : ∀ w, I l w → P) (h : P → Leads I l op l' Φ) :
    Leads I l op l' Φ :=
  fun w hw => h (hP w hw) w hw

/-! ## References taken on the way -/

theorem leads_release (hI : Tenable I) (ho : ∃ r' ∈ l, r'.owner = r.owner) :
    Leads I (r :: l) (release r) l (fun _ => True) :=
  fun w hw => ⟨(), w.release r, rfl, trivial, hI.release hw ho⟩

theorem Leads.releasing (hI : Tenable I) (h : Leads I l op (r :: l') Φ)
    (ho : ∃ r' ∈ l', r'.owner = r.owner) : Leads I l (releasing r op) l' Φ := by
  intro w hw
  obtain ⟨x, w', hx, hΦ, hw'⟩ := h w hw
  obtain ⟨r', hr', hown⟩ := ho
  refine ⟨x, w'.release r, ?_, hΦ, ?_⟩
  · rw [apply_releasing, hx]
  · exact hI.release (hI.perm hw' List.perm_middle)
      ⟨r', List.mem_append_right (references x) hr', hown⟩

/-- Nothing is given up for a failure that does not come. -/
theorem Leads.orRelease (h : Leads I l op l' Φ) (r : Reference) :
    Leads I l (orRelease r op) l' Φ := by
  intro w hw
  obtain ⟨x, w', hx, hΦ, hw'⟩ := h w hw
  refine ⟨x, w', ?_, hΦ, hw'⟩
  rw [apply_orRelease, hx]

/-- A reference that is held goes into the result, in front of others. -/
theorem Leads.cons (hI : Tenable I) {x : α} {op : Operation (List α)} {Φ : List α → Prop}
    (hx : references x = [r]) (h : Leads I l op (r :: l') Φ) :
    Leads I l (do return x :: (← op)) l' (fun xs => ∃ ys, xs = x :: ys ∧ Φ ys) := by
  refine h.bind fun ys hys => leads_pure hI ?_ ⟨ys, rfl, hys⟩
  have hrefs : references (x :: ys) = references x ++ references ys := List.flatMap_cons
  rw [hrefs, hx]
  exact List.perm_middle

/-- A wrapper under a view; one that does not fit is given up. -/
theorem leads_downcast (hI : Tenable I) (V : View) {x : Option ValueWrapper}
    (ho : ∀ y ∈ x, ∃ r ∈ l, r.owner = y.context) :
    Leads I (references x ++ l) (downcast V x) l
      (fun t => t.map (·.value) = x.filter fun y => V.accepts y.kind) := by
  cases x with
  | none => exact leads_pure hI (List.Perm.refl _) rfl
  | some y =>
    let fits (y : ValueWrapper) : Bool := V.accepts y.kind
    unfold downcast Viewed.ofWrapper
    dsimp only
    cases hacc : fits y with
    | true =>
      have hd : y.downcast? V = some ⟨y, hacc⟩ := dif_pos hacc
      rw [hd]
      exact leads_pure hI (List.Perm.refl _) (Option.filter_some_pos (p := fits) hacc).symm
    | false =>
      have hd : y.downcast? V = none := dif_neg (Bool.eq_false_iff.mp hacc)
      rw [hd]
      refine (leads_release hI (r := .value y) (ho y rfl)).bind fun _ _ => ?_
      exact leads_pure hI (List.Perm.refl _) (Option.filter_some_neg (p := fits) hacc).symm

/-! ## Failures -/

/-- Where the references `l` are held, the operation fails; then `l'` are held. -/
def Fails {α : Type} (I : List Reference → World σ → Prop) (l : List Reference)
    (op : Operation α) (l' : List Reference) (e : Fault) : Prop :=
  ∀ w, I l w → ∃ w', op.action.apply w = (.error e, w') ∧ I l' w'

variable {γ δ : Type} {e : Fault} {op' : Operation γ}

/-- What fails ends all that was to come after it. -/
theorem Fails.bind {f : γ → Operation δ} (h : Fails I l op' l' e) : Fails I l (op' >>= f) l' e := by
  intro w hw
  obtain ⟨w', hx, hw'⟩ := h w hw
  refine ⟨w', ?_, hw'⟩
  rw [apply_bind, hx]

theorem Leads.bind_fails {f : α → Operation γ} (h : Leads I l op l₁ Φ)
    (hf : ∀ x, Φ x → Fails I (references x ++ l₁) (f x) l' e) : Fails I l (op >>= f) l' e := by
  intro w hw
  obtain ⟨x, w', hx, hΦ, hw'⟩ := h w hw
  rw [apply_bind_of_ok hx]
  exact hf x hΦ w' hw'

/-- On a failure the reference is given up. -/
theorem Fails.orRelease (hI : Tenable I) (h : Fails I l op' (r :: l') e)
    (ho : ∃ r' ∈ l', r'.owner = r.owner) : Fails I l (orRelease r op') l' e := by
  intro w hw
  obtain ⟨w', hx, hw'⟩ := h w hw
  refine ⟨w'.release r, ?_, hI.release hw' ho⟩
  rw [apply_orRelease, hx]

end Operation

end CanonIR
