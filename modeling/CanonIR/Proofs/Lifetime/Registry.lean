import CanonIR.Memory.Library
import CanonIR.Proofs.Lifetime.Binding
import CanonIR.Proofs.Moves

/-!
One binding for each native context. Here the end of a context may come late: between the moment
that the last reference to it is gone and its end, others may attach to its native context or make
it anew. In every state the registry knows the binding that was made last, until that one has ended,
and an end takes nobody else out (`Bindings.Reachable.oneBinding`).
-/

namespace CanonIR

theorem Registry.get?_retire (r : Registry) (cx : Context) (key : LibraryId × ContextRef) :
    (r.retire cx).get? key =
      if key = cx.key then (r.get? key).filter (·.id != cx.id) else r.get? key := by
  unfold retire
  by_cases hk : key = cx.key
  · subst hk
    rw [if_pos rfl]
    cases hg : r.get? cx.key with
    | none => simp [hg]
    | some c =>
      by_cases hc : c.id = cx.id
      · simp [hc, Table.get?_erase, Option.filter]
      · simp [hc, hg, Option.filter]
  · rw [if_neg hk]
    split
    · rw [Table.get?_erase, if_neg hk]
    · rfl

/-- The bindings, and the ends of contexts that have not come yet. -/
structure Bindings (σ : Type) where
  world : World σ
  /-- All contexts that were bound, newest first. -/
  made : List Context := []
  /-- The contexts without a reference whose ends are to come. -/
  dying : List Context := []
  /-- The contexts that have come to their ends. -/
  ended : List Context := []
  /-- The contexts that were created with the handle of a living one. -/
  doubled : List Context := []

namespace Bindings

/-- What can happen next. -/
inductive Move (σ : Type) where
  /-- The libraries change by themselves. -/
  | outside (s : σ)
  /-- A step that gives nothing up. -/
  | act (a : Primitive)
  /-- One reference is given up. -/
  | drop (r : Reference)
  /-- A context without a reference comes to its end. -/
  | finish (cx : Context)

variable {σ : Type}

/-- The binding of a native context that was made last. -/
def latest? (u : Bindings σ) (key : LibraryId × ContextRef) : Option Context :=
  u.made.find? (·.key = key)

theorem key_of_latest? {u : Bindings σ} {key : LibraryId × ContextRef} {cx : Context}
    (h : u.latest? key = some cx) : cx.key = key := by
  have hx := List.find?_some h
  exact of_decide_eq_true hx

theorem mem_of_latest? {u : Bindings σ} {key : LibraryId × ContextRef} {cx : Context}
    (h : u.latest? key = some cx) : cx ∈ u.made :=
  List.mem_of_find?_eq_some h

/-- Steps work with what is held, and whoever comes to the end was to. -/
def Enabled (u : Bindings σ) : Move σ → Prop
  | .outside _ => True
  | .act a => a.released = [] ∧ a.Allowed u.world.held
  | .drop r => r ∈ u.world.held
  | .finish cx => cx ∈ u.dying

instance (u : Bindings σ) (x : Move σ) : Decidable (u.Enabled x) := by
  cases x <;> unfold Enabled <;> infer_instance

/-- What is noted of a context that a step returns. -/
def note (u : Bindings σ) (creates : Bool) (cx : Context) : Bindings σ :=
  { u with
    made := u.made.insert cx
    doubled :=
      if creates = true ∧ ∃ r ∈ u.world.held, r.owner.key = cx.key then cx :: u.doubled
      else u.doubled }

theorem latest?_note {u : Bindings σ} {creates : Bool} {cx : Context} (h : cx ∉ u.made)
    (key : LibraryId × ContextRef) :
    (u.note creates cx).latest? key = if cx.key = key then some cx else u.latest? key := by
  rw [latest?, note, List.insert_of_not_mem h, List.find?_cons]
  by_cases hk : cx.key = key
  · simp [hk]
  · simp [hk, latest?]

/-- A context that was not created with the handle of a living one. -/
theorem doubled_note {u : Bindings σ} {creates : Bool} {cx : Context}
    (h : (u.note creates cx).doubled = []) :
    u.doubled = [] ∧ (creates = true → ∀ r ∈ u.world.held, r.owner.key ≠ cx.key) := by
  rw [note] at h
  dsimp only at h
  split at h
  · exact nomatch h
  · next hx => exact ⟨h, fun hc r hr hk => hx ⟨hc, r, hr, hk⟩⟩

variable [NativeSystem σ]

def next (u : Bindings σ) : Move σ → Bindings σ
  | .outside s => { u with world := { u.world with native := s } }
  | .act a =>
    let (x, world) := a.action.apply u.world
    { (a.context? x).elim u (u.note a.creates) with world }
  | .drop r =>
    let world := u.world.relinquish r
    { u with world, dying := if world.contextAlive r.owner then u.dying else r.owner :: u.dying }
  | .finish cx =>
    { u with world := u.world.retire cx, dying := u.dying.erase cx, ended := cx :: u.ended }

/-- The states that can be reached from one without contexts. -/
inductive Reachable : Bindings σ → Prop where
  | start (s : σ) : Reachable { world := { native := s } }
  | move {u : Bindings σ} (h : Reachable u) (x : Move σ) (hx : u.Enabled x) : Reachable (u.next x)

/-- A release is a reference given up with the end, if it is to come, right behind. -/
theorem release_eq (u : Bindings σ) {r : Reference} (hr : r ∈ u.world.held) :
    u.world.release r =
      if (u.next (.drop r)).world.contextAlive r.owner then (u.next (.drop r)).world
      else ((u.next (.drop r)).next (.finish r.owner)).world := by
  cases ha : (u.world.relinquish r).contextAlive r.owner with
  | true =>
    rw [World.release_of_alive (World.holds_of_mem hr) ha]
    exact (if_pos ha).symm
  | false =>
    rw [World.release_of_dead (World.holds_of_mem hr) ha]
    exact (if_neg (Bool.eq_false_iff.mp ha)).symm

/-- One binding for each native context. -/
structure OneBinding (u : Bindings σ) : Prop where
  /-- The registry knows the binding that was made last, until it has ended. -/
  entry : ∀ key, u.world.registry.get? key = (u.latest? key).filter (· ∉ u.ended)
  /-- While that binding lives, attaching returns it, and does nothing but to hold it. -/
  attach_living : ∀ lib raw options cx,
    u.latest? (lib, raw) = some cx → u.world.contextAlive cx = true →
      (Action.attachContext lib raw options).apply u.world =
        (.ok cx, (u.world.emit (.reusedBinding raw)).hold (.context cx))
  /-- Else it makes a new binding, which owns nothing and knows no wrappers, without a call. -/
  attach_fresh : ∀ lib raw options,
    (∀ cx, u.latest? (lib, raw) = some cx → u.world.contextAlive cx = false) →
      ∃ cx w, (Action.attachContext lib raw options).apply u.world = (.ok cx, w) ∧
        cx ∉ u.made ∧ cx.key = (lib, raw) ∧ cx.owned = false ∧ cx.options = options ∧
        w.cachesOf cx = {} ∧ w.registry.get? (lib, raw) = some cx ∧ w.native = u.world.native
  /-- The end of a binding takes every entry of its own out of the registry, and no other. -/
  finish : ∀ cx ∈ u.dying, ∀ key cx',
    (u.next (.finish cx)).world.registry.get? key = some cx' ↔
      cx' ≠ cx ∧ u.world.registry.get? key = some cx'
  /-- If no context is created with the handle of a living one, then no two that live have one
  native context. -/
  unique : u.doubled = [] → ∀ r ∈ u.world.held, ∀ r' ∈ u.world.held,
    r.owner.key = r'.owner.key → r.owner = r'.owner

/-! ## The invariant -/

/-- The invariant: the list of bindings is complete, the registry follows it, only contexts without
a reference end, and without a handle that was created twice a binding that lives is the latest. -/
structure Kept (u : Bindings σ) : Prop where
  sound : ∃ names log, Sound names log u.world
  names : Names (fun _ => True) u.made u.world
  entry : ∀ key, u.world.registry.get? key = (u.latest? key).filter (· ∉ u.ended)
  dying_made : u.dying ⊆ u.made
  ended_made : u.ended ⊆ u.made
  dying_dead : ∀ cx ∈ u.dying, u.world.contextAlive cx = false
  ended_dead : ∀ cx ∈ u.ended, u.world.contextAlive cx = false
  latest : u.doubled = [] → ∀ r ∈ u.world.held, u.latest? r.owner.key = some r.owner

namespace Kept

variable {u : Bindings σ} {cx : Context}

omit [NativeSystem σ] in
theorem start (s : σ) : Kept ({ world := { native := s } } : Bindings σ) where
  sound := ⟨fun _ => .context ⟨0, ⟨0⟩, .null, false, {}⟩, [], Sound.start _ s⟩
  names := Names.start _ s
  entry _ := rfl
  dying_made := List.Subset.refl _
  ended_made := List.Subset.refl _
  dying_dead _ h := nomatch h
  ended_dead _ h := nomatch h
  latest _ _ h := nomatch h

omit [NativeSystem σ] in
/-- A binding that lives is found in the registry exactly if it was made last. -/
theorem living?_eq (h : Kept u) (key : LibraryId × ContextRef) :
    u.world.registry.living? u.world.contextAlive key =
      (u.latest? key).filter u.world.contextAlive := by
  rw [Registry.living?, h.entry, Option.filter_filter]
  refine congrArg (Option.filter · _) (funext fun cx => ?_)
  by_cases hcx : cx ∈ u.ended
  · simp [h.ended_dead cx hcx]
  · simp [hcx]

omit [NativeSystem σ] in
/-- Giving references up, and changes past the bindings, leave what the invariant is about. -/
theorem aside (h : Kept u) {w : World σ} (hs : ∃ names log, Sound names log w)
    (hr : w.registry = u.world.registry) (hn : w.nextId = u.world.nextId)
    (hh : w.held ⊆ u.world.held) : Kept { u with world := w } := by
  have hdead {cx : Context} (hcx : u.world.contextAlive cx = false) :
      w.contextAlive cx = false := by
    rw [Bool.eq_false_iff] at hcx ⊢
    intro ha
    obtain ⟨r, hr, hid⟩ := World.contextAlive_iff.mp ha
    exact hcx (World.contextAlive_iff.mpr ⟨r, hh hr, hid⟩)
  exact
    { sound := hs
      names := h.names.subset hn hh
      entry := fun key => by rw [hr]; exact h.entry key
      dying_made := h.dying_made
      ended_made := h.ended_made
      dying_dead := fun cx hcx => hdead (h.dying_dead cx hcx)
      ended_dead := fun cx hcx => hdead (h.ended_dead cx hcx)
      latest := fun hd r hr => h.latest hd r (hh hr) }

theorem drop (h : Kept u) {r : Reference} (hr : r ∈ u.world.held) : Kept (u.next (.drop r)) := by
  obtain ⟨names, log, hs⟩ := h.sound
  have hk : Kept { u with world := u.world.relinquish r } :=
    h.aside ⟨names, log, hs.relinquish r⟩ rfl rfl List.eraseP_subset
  cases ha : (u.world.relinquish r).contextAlive r.owner with
  | true =>
    simp only [Bindings.next, ha, if_true]
    exact hk
  | false =>
    simp only [Bindings.next, ha]
    refine { hk with dying_made := ?_, dying_dead := ?_ }
    · exact List.cons_subset.mpr ⟨h.names.owner r hr trivial, h.dying_made⟩
    · intro cx hcx
      rcases List.mem_cons.mp hcx with rfl | hcx
      · exact ha
      · exact hk.dying_dead cx hcx

theorem get?_registry_finish (h : Kept u) (hcx : cx ∈ u.dying) (key : LibraryId × ContextRef) :
    (u.next (.finish cx)).world.registry.get? key =
      (u.world.registry.get? key).filter (· ≠ cx) := by
  have hr : (u.next (.finish cx)).world.registry = u.world.registry.retire cx :=
    World.registry_retire u.world cx
  rw [hr, Registry.get?_retire]
  -- An entry under the key of the context is the context itself, or has another identity.
  cases hg : u.world.registry.get? key with
  | none => simp
  | some c =>
    have hl := hg
    rw [h.entry, Option.filter_eq_some_iff] at hl
    have hkey := key_of_latest? hl.1
    have hid : c.id = cx.id ↔ c = cx :=
      ⟨h.names.unique c (mem_of_latest? hl.1) cx (h.dying_made hcx), congrArg Context.id⟩
    by_cases hc : c = cx
    · subst hc
      simp [hkey, Option.filter]
    · have hne : c.id ≠ cx.id := mt hid.mp hc
      simp [hc, hne, Option.filter]

theorem finish (h : Kept u) (hcx : cx ∈ u.dying) : Kept (u.next (.finish cx)) := by
  obtain ⟨names, log, hs⟩ := h.sound
  have hdead := h.dying_dead cx hcx
  have hheld : (u.world.retire cx).held = u.world.held := World.held_retire u.world cx
  have halive (c : Context) : (u.world.retire cx).contextAlive c = u.world.contextAlive c := by
    rw [World.contextAlive, hheld]
    rfl
  exact
    { sound := ⟨names, log, hs.retire hdead⟩
      names := h.names.subset (World.nextId_retire _ _) fun _ hr => hheld ▸ hr
      entry := fun key => by
        rw [h.get?_registry_finish hcx, h.entry, Option.filter_filter]
        refine congrArg (Option.filter · (u.latest? key)) (funext fun c => ?_)
        simp [Bindings.next, Bool.and_comm]
      dying_made := List.Subset.trans List.erase_subset h.dying_made
      ended_made := List.cons_subset.mpr ⟨h.dying_made hcx, h.ended_made⟩
      dying_dead := fun c hc => (halive c).trans (h.dying_dead c (List.mem_of_mem_erase hc))
      ended_dead := fun c hc => by
        rcases List.mem_cons.mp hc with rfl | hc
        · exact (halive c).trans hdead
        · exact (halive c).trans (h.ended_dead c hc)
      latest := fun hd r hr => h.latest hd r (hheld ▸ hr) }

omit [NativeSystem σ] in
/-- A step on contexts that live; a context that it returns has been noted before. -/
theorem works (h : Kept u) {w : World σ} (hs : ∃ names log, Sound names log w)
    (hw : u.world.Works w) : Kept { u with world := w } where
  sound := hs
  names := h.names.works hw
  entry key := by
    rw [hw.registry]
    exact h.entry key
  dying_made := h.dying_made
  ended_made := h.ended_made
  dying_dead c hc := (hw.contextAlive c).trans (h.dying_dead c hc)
  ended_dead c hc := (hw.contextAlive c).trans (h.ended_dead c hc)
  latest hd r hr := by
    obtain ⟨r', hr', ho⟩ := hw.owner r hr
    have hl := h.latest hd r' hr'
    rw [ho] at hl
    exact hl

omit [NativeSystem σ] in
/-- Whoever lives with a native context would have been found. -/
theorem key_ne_of_living?_none (h : Kept u) (hd : u.doubled = []) {key : LibraryId × ContextRef}
    (hl : u.world.registry.living? u.world.contextAlive key = none) {r : Reference}
    (hr : r ∈ u.world.held) : r.owner.key ≠ key := by
  intro hk
  have ha : u.world.contextAlive r.owner = true := World.contextAlive_iff.mpr ⟨r, hr, rfl⟩
  rw [h.living?_eq, ← hk, h.latest hd r hr, Option.filter_some_pos ha] at hl
  exact nomatch hl

omit [NativeSystem σ] in
/-- A new binding. -/
theorem made (h : Kept u) {w : World σ} (ha : u.world.Aside w) (hid : cx.id = w.nextId)
    {creates : Bool}
    (hl : creates = false → u.world.registry.living? u.world.contextAlive cx.key = none) :
    Kept { u.note creates cx with world := w.bound cx } := by
  obtain ⟨names, log, hs⟩ := h.sound
  have hw : Kept { u with world := w } := h.works ⟨names, log, hs.aside ha⟩ ha.keeps.toWorks
  have hnew : cx ∉ u.made := fun hm => hw.names.ne_of_new hid hm rfl
  have hmade : (u.note creates cx).made = cx :: u.made := List.insert_of_not_mem hnew
  have hlatest (key : LibraryId × ContextRef) :
      (u.note creates cx).latest? key = if cx.key = key then some cx else u.latest? key :=
    latest?_note hnew key
  have hsub : u.made ⊆ (u.note creates cx).made := by
    rw [hmade]
    exact List.subset_cons_self cx u.made
  have hdead {c : Context} (hc : c ∈ u.made) (hcd : w.contextAlive c = false) :
      (w.bound cx).contextAlive c = false :=
    (World.contextAlive_bound (hw.names.ne_of_new hid hc)).trans hcd
  exact
    { sound := ⟨_, log, (hs.aside ha).bind hid⟩
      names := by
        rw [hmade]
        exact hw.names.add hid fun r hr => ((hs.aside ha).held_named r hr).owner_lt
      entry := fun key => by
        rw [World.get?_registry_bound]
        refine Eq.trans ?_ (congrArg (Option.filter (· ∉ u.ended)) (hlatest key)).symm
        by_cases hk : key = cx.key
        · subst hk
          rw [if_pos rfl, if_pos rfl, Option.filter_some_pos]
          exact decide_eq_true fun hm => hnew (h.ended_made hm)
        · rw [if_neg hk, if_neg (Ne.symm hk)]
          exact hw.entry key
      dying_made := List.Subset.trans h.dying_made hsub
      ended_made := List.Subset.trans h.ended_made hsub
      dying_dead := fun c hc => hdead (h.dying_made hc) (hw.dying_dead c hc)
      ended_dead := fun c hc => hdead (h.ended_made hc) (hw.ended_dead c hc)
      latest := fun hd r hr => by
        obtain ⟨hd, hne⟩ := doubled_note hd
        refine (hlatest r.owner.key).trans ?_
        rcases List.mem_cons.mp hr with rfl | hr
        · exact if_pos rfl
        have hr' : r ∈ u.world.held := ha.held ▸ hr
        rw [if_neg]
        · exact h.latest hd r hr'
        · cases hc : creates with
          | true => exact (hne hc r hr').symm
          | false => exact (h.key_ne_of_living?_none hd (hl hc) hr').symm }

theorem act (h : Kept u) {a : Primitive} (hr : a.released = []) (ha : a.Allowed u.world.held) :
    Kept (u.next (.act a)) := by
  obtain ⟨names, log, hs⟩ := h.sound
  obtain ⟨x, w, hx, hb⟩ := hs.bound_perform ha hr
  have hs' : ∃ names log, Sound names log w := by
    obtain ⟨x', w', hx', ⟨names', hs'⟩, -⟩ := hs.perform a ha
    obtain ⟨-, rfl⟩ := Prod.mk.inj (hx.symm.trans hx')
    exact ⟨names', _, hs'⟩
  simp only [Bindings.next, hx]
  generalize a.context? x = c at hb ⊢
  cases hb with
  | made ha hid ho hl => exact h.made ha hid hl
  | works hw hc =>
    cases c with
    | none => exact h.works hs' hw
    | some cx =>
      obtain ⟨hcr, r, hr, rfl⟩ := hc cx rfl
      have hu : u.note a.creates r.owner = u := by
        rw [note, List.insert_of_mem (h.names.owner r hr trivial), hcr]
        simp
      rw [Option.elim_some, hu]
      exact h.works hs' hw

/-- Every move keeps the invariant. -/
theorem next (h : Kept u) (x : Move σ) (hx : u.Enabled x) : Kept (u.next x) := by
  cases x with
  | outside s =>
    obtain ⟨names, log, hs⟩ := h.sound
    exact h.aside ⟨names, log, hs.congr rfl rfl rfl rfl⟩ rfl rfl (List.Subset.refl _)
  | act a => exact h.act hx.1 hx.2
  | drop r => exact h.drop hx
  | finish cx => exact h.finish hx

end Kept

theorem Reachable.kept {u : Bindings σ} (h : Reachable u) : Kept u := by
  induction h with
  | start s => exact .start s
  | move h x hx ih => exact ih.next x hx

/-- Whatever handles the libraries hand out, and however late contexts come to their ends, every
native context has one binding. -/
theorem Reachable.oneBinding {u : Bindings σ} (h : Reachable u) : OneBinding u where
  entry := h.kept.entry
  attach_living lib raw options cx hl ha := by
    refine apply_attachContext_living options ?_
    rw [h.kept.living?_eq, hl, Option.filter_some_pos ha]
  attach_fresh lib raw options hl := by
    have hn : u.world.registry.living? u.world.contextAlive (lib, raw) = none := by
      rw [h.kept.living?_eq, Option.filter_eq_none_iff]
      exact fun cx hcx => Bool.eq_false_iff.mp (hl cx hcx)
    refine ⟨_, _, apply_attachContext_fresh options hn, ?_, rfl, rfl, rfl,
      World.cachesOf_bound _ _, ?_, rfl⟩
    · exact fun hm => h.kept.names.ne_of_new rfl hm rfl
    · rw [World.get?_registry_bound]
      exact if_pos rfl
  finish cx hcx key cx' := by
    rw [h.kept.get?_registry_finish hcx, Option.filter_eq_some_iff, decide_eq_true_eq, and_comm]
  unique hd r hr r' hr' hk := by
    have hl := h.kept.latest hd r hr
    rw [hk, h.kept.latest hd r' hr'] at hl
    exact (Option.some.inj hl).symm

theorem Reachable.moves {u : Bindings σ} (h : Reachable u) {xs : List (Move σ)}
    (hx : Admits Enabled next u xs) : Reachable (xs.foldl next u) :=
  hx.foldl (fun _ x hu hx => hu.move x hx) h

/-- A context loses its last reference, its native context is bound again, and only then it comes to
its end. -/
def rebinding : List (Move Memory.Graph) :=
  let raw : ContextRef := ⟨Memory.Graph.baseAddress + Memory.Graph.stride⟩
  let cx : Context := ⟨0, ⟨0⟩, raw, true, {}⟩
  [.act (.createContext ⟨0⟩ {}), .drop (.context cx), .act (.attachContext ⟨0⟩ raw {}), .finish cx]

theorem oneBinding_rebinding :
    let u : Bindings Memory.Graph := rebinding.foldl next { world := { native := {} } }
    u.made.map Context.id = [1, 0] ∧ u.ended.map Context.id = [0] ∧
      u.world.registry.values.map Context.id = [1] ∧ OneBinding u :=
  ⟨by decide +kernel, by decide +kernel, by decide +kernel,
    ((Reachable.start _).moves (by decide +kernel)).oneBinding⟩

end Bindings

end CanonIR
