import CanonIR.Memory.Library
import CanonIR.Proofs.Identity.Canonical
import CanonIR.Proofs.Identity.Navigation
import CanonIR.Proofs.Moves

/-!
Operations side by side. A machine takes requests and advances the operations under way one
primitive at a time, in any order; between any two steps the libraries may change as they like, and
the user may give up references that nothing under way has borrowed. Whatever happens, the state of
the bindings has canonical identity (`Reachable.canonicalIdentity`).
-/

namespace CanonIR

/-! ## The machine -/

/-- The primitive that an operation begins with. -/
def Operation.first? {α : Type} : Operation α → Option Primitive
  | done _ => none
  | step a _ => some a

/-- An operation under way: what its user has lent it, what it has taken, and what is left of it. -/
structure Thread where
  borrowed : List Reference
  own : List Reference
  rest : Operation (List Reference)

/-- The bindings, with the references of their user and the operations under way. -/
structure Machine (σ : Type) where
  world : World σ
  /-- What has been forgotten so far. -/
  log : List Forgetting := []
  user : List Reference := []
  threads : List Thread := []

namespace Machine

/-- What can happen next. -/
inductive Move (σ : Type) where
  /-- The libraries change by themselves. -/
  | outside (s : σ)
  | ask (q : Request)
  /-- One operation takes a step, or hands over if it is done. -/
  | advance (i : Nat)
  | release (r : Reference)

variable {σ : Type} [NativeSystem σ]

/-- The user needs the operands of a request, and keeps what is borrowed. -/
def Enabled (m : Machine σ) : Move σ → Prop
  | .outside _ => True
  | .ask q => q.operands ⊆ m.user
  | .advance _ => True
  | .release r => r ∈ m.user ∧ ∀ th ∈ m.threads, r ∈ th.borrowed → r ∈ m.user.erase r

instance (m : Machine σ) (x : Move σ) : Decidable (m.Enabled x) := by
  cases x <;> unfold Enabled <;> infer_instance

/-- The step of an operation under way. -/
def advance (m : Machine σ) (i : Nat) (th : Thread) : Machine σ :=
  match th.rest with
  | .done x => { m with threads := m.threads.eraseIdx i, user := Request.handed x ++ m.user }
  | .step a next =>
    let (x, w) := a.action.apply m.world
    { m with
      world := w
      log := a.forgets m.world ++ m.log
      threads := m.threads.set i ⟨th.borrowed, a.after x th.own, next x⟩ }

/-- The primitive that comes next in an operation under way. -/
def primitive? (m : Machine σ) (i : Nat) : Option Primitive :=
  (m.threads[i]?).bind (·.rest.first?)

def next (m : Machine σ) : Move σ → Machine σ
  | .outside s => { m with world := { m.world with native := s } }
  | .ask q => { m with threads := ⟨q.operands, [], q.operation⟩ :: m.threads }
  | .advance i => (m.threads[i]?).elim m (m.advance i)
  | .release r => { m with world := m.world.release r, user := m.user.erase r }

/-- The states that a machine can reach from one without contexts. -/
inductive Reachable : Machine σ → Prop where
  | start (s : σ) : Reachable { world := { native := s } }
  | move {m : Machine σ} (h : Reachable m) (x : Move σ) (hx : m.Enabled x) : Reachable (m.next x)

/-- The invariant: the world is sound, every held reference belongs to the user or to an operation
under way, and every operation under way is safe with what it has. -/
structure Accounted (m : Machine σ) : Prop where
  sound : ∃ names, Sound names m.log m.world
  held : m.world.held.Perm (m.user ++ m.threads.flatMap Thread.own)
  borrowed : ∀ th ∈ m.threads, th.borrowed ⊆ m.user
  safe : ∀ th ∈ m.threads, th.rest.Safe th.borrowed Request.handed th.own

namespace Accounted

variable {m : Machine σ}

theorem outside (h : Accounted m) (s : σ) : Accounted (m.next (.outside s)) where
  sound := by
    obtain ⟨names, hs⟩ := h.sound
    exact ⟨names, hs.congr rfl rfl rfl rfl⟩
  held := h.held
  borrowed := h.borrowed
  safe := h.safe

theorem ask (h : Accounted m) {q : Request} (hq : q.operands ⊆ m.user) :
    Accounted (m.next (.ask q)) where
  sound := h.sound
  held := h.held
  borrowed th hth := by
    rcases List.mem_cons.mp hth with rfl | hth
    · exact hq
    · exact h.borrowed th hth
  safe th hth := by
    rcases List.mem_cons.mp hth with rfl | hth
    · exact q.safe
    · exact h.safe th hth

theorem release (h : Accounted m) {r : Reference} (hr : r ∈ m.user)
    (hb : ∀ th ∈ m.threads, r ∈ th.borrowed → r ∈ m.user.erase r) :
    Accounted (m.next (.release r)) where
  sound := by
    obtain ⟨names, hs⟩ := h.sound
    exact ⟨names, hs.release r⟩
  held := by
    obtain ⟨names, hs⟩ := h.sound
    have hm : r ∈ m.world.held := h.held.symm.subset (List.mem_append_left _ hr)
    refine (List.Perm.of_eq (hs.held_release hm)).trans ((h.held.erase r).trans ?_)
    rw [List.erase_append_left _ hr]
    exact List.Perm.refl _
  borrowed th hth r' hr' := by
    by_cases he : r' = r
    · subst he
      exact hb th hth hr'
    · exact (List.mem_erase_of_ne he).mpr (h.borrowed th hth hr')
  safe := h.safe

theorem perm_own {ths : List Thread} {i : Nat} {th : Thread} (hi : ths[i]? = some th) :
    (ths.flatMap Thread.own).Perm (th.own ++ (ths.eraseIdx i).flatMap Thread.own) := by
  obtain ⟨hlt, rfl⟩ := List.getElem?_eq_some_iff.mp hi
  exact ((List.getElem_cons_eraseIdx_perm hlt).symm).flatMap_right Thread.own

theorem perm_own_set {ths : List Thread} {i : Nat} {th : Thread} (hi : ths[i]? = some th)
    (th' : Thread) :
    ((ths.set i th').flatMap Thread.own).Perm
      (th'.own ++ (ths.eraseIdx i).flatMap Thread.own) := by
  obtain ⟨hlt, -⟩ := List.getElem?_eq_some_iff.mp hi
  exact (List.set_perm_cons_eraseIdx hlt th').flatMap_right Thread.own

/-- An operation that is done hands over what it has. -/
theorem finish (h : Accounted m) {i : Nat} {th : Thread} {x : Except Fault (List Reference)}
    (hi : m.threads[i]? = some th) (hx : th.rest = .done x) : Accounted (m.advance i th) := by
  have hth : th ∈ m.threads := List.mem_of_getElem? hi
  have hown : th.own.Perm (Request.handed x) := by
    have := h.safe th hth
    rw [hx] at this
    exact this
  rw [Machine.advance, hx]
  refine ⟨h.sound, ?_, ?_, ?_⟩
  · calc m.world.held
      _ |>.Perm (m.user ++ m.threads.flatMap Thread.own) := h.held
      _ |>.Perm (m.user ++ (th.own ++ (m.threads.eraseIdx i).flatMap Thread.own)) :=
        (perm_own hi).append_left m.user
      _ |>.Perm (m.user ++ (Request.handed x ++ (m.threads.eraseIdx i).flatMap Thread.own)) :=
        (hown.append_right _).append_left m.user
      _ |>.Perm ((Request.handed x ++ m.user) ++ (m.threads.eraseIdx i).flatMap Thread.own) := by
        rw [← List.append_assoc]
        exact List.perm_append_comm.append_right _
  · intro th' hth'
    exact List.Subset.trans (h.borrowed th' (List.mem_of_mem_eraseIdx hth'))
      (List.subset_append_right _ m.user)
  · exact fun th' hth' => h.safe th' (List.mem_of_mem_eraseIdx hth')

/-- A primitive changes what its own operation has, and leaves the others theirs. -/
theorem step (h : Accounted m) {i : Nat} {th : Thread} {a : Primitive}
    {next : Except Fault a.Result → Operation (List Reference)}
    (hi : m.threads[i]? = some th) (hx : th.rest = .step a next) :
    Accounted (m.advance i th) := by
  have hth : th ∈ m.threads := List.mem_of_getElem? hi
  have hsafe := h.safe th hth
  rw [hx] at hsafe
  obtain ⟨ha, hr, hn⟩ := hsafe
  obtain ⟨names, hs⟩ := h.sound
  let others := m.user ++ (m.threads.eraseIdx i).flatMap Thread.own
  have hheld : m.world.held.Perm (th.own ++ others) :=
    (h.held.trans ((perm_own hi).append_left m.user)).trans
      (List.perm_append_comm_assoc _ _ _)
  have hb : th.borrowed ⊆ others :=
    List.Subset.trans (h.borrowed th hth) (List.subset_append_left _ _)
  obtain ⟨x, w, happly, hsound, hw⟩ := Operation.perform_own hs ha hr hb hheld
  let th' : Thread := ⟨th.borrowed, a.after x th.own, next x⟩
  rw [Machine.advance, hx]
  simp only [happly]
  refine ⟨hsound, ?_, ?_, ?_⟩
  · calc w.held
      _ |>.Perm (a.after x th.own ++ others) := hw
      _ |>.Perm (m.user ++ (a.after x th.own ++ (m.threads.eraseIdx i).flatMap Thread.own)) :=
        List.perm_append_comm_assoc _ _ _
      _ |>.Perm (m.user ++ (m.threads.set i th').flatMap Thread.own) :=
        (perm_own_set hi th').symm.append_left m.user
  · intro th' hth'
    rcases List.mem_or_eq_of_mem_set hth' with hth' | rfl
    · exact h.borrowed th' hth'
    · exact h.borrowed th hth
  · intro th' hth'
    rcases List.mem_or_eq_of_mem_set hth' with hth' | rfl
    · exact h.safe th' hth'
    · exact hn x

theorem advance (h : Accounted m) {i : Nat} {th : Thread} (hi : m.threads[i]? = some th) :
    Accounted (m.advance i th) := by
  cases hx : th.rest with
  | done x => exact h.finish hi hx
  | step a next => exact h.step hi hx

theorem next (h : Accounted m) (x : Move σ) (hx : m.Enabled x) : Accounted (m.next x) := by
  cases x with
  | outside s => exact h.outside s
  | ask q => exact h.ask hx
  | release r => exact h.release hx.1 hx.2
  | advance i =>
    rw [Machine.next]
    cases hi : m.threads[i]? with
    | none => exact h
    | some th => exact h.advance hi

end Accounted

theorem Reachable.accounted {m : Machine σ} (h : Reachable m) : Accounted m := by
  induction h with
  | start s =>
    exact ⟨⟨fun _ => .context ⟨0, ⟨0⟩, .null, false, {}⟩, Sound.start _ s⟩, List.Perm.refl _, nofun,
      nofun⟩
  | move h x hx ih => exact ih.next x hx

/-- In every state that the machine reaches, whatever the libraries answer and in whatever order
the operations take their steps, the bindings have canonical identity. -/
theorem Reachable.canonicalIdentity {m : Machine σ} (h : Reachable m) :
    CanonicalIdentity m.log m.world := by
  obtain ⟨names, hs⟩ := h.accounted.sound
  exact hs.identity

/-! ## Single steps -/

/-- What a step of an operation does to the world is what its primitive does. -/
theorem world_advance (m : Machine σ) (i : Nat) :
    (m.next (.advance i)).world =
      (m.primitive? i).elim m.world fun a => (a.action.apply m.world).2 := by
  rw [next, primitive?]
  cases m.threads[i]? with
  | none => rfl
  | some th =>
    obtain ⟨borrowed, own, _ | ⟨a, k⟩⟩ := th <;> rfl

omit [NativeSystem σ] in
theorem exists_of_primitive? {m : Machine σ} {i : Nat} {a : Primitive}
    (h : m.primitive? i = some a) : ∃ th ∈ m.threads, ∃ next, th.rest = .step a next := by
  obtain ⟨th, hi, ha⟩ := Option.bind_eq_some_iff.mp h
  refine ⟨th, List.mem_of_getElem? hi, ?_⟩
  cases hx : th.rest with
  | done x =>
    rw [hx] at ha
    exact nomatch ha
  | step a' k =>
    rw [hx] at ha
    obtain rfl := Option.some.inj ha
    exact ⟨k, rfl⟩

omit [NativeSystem σ] in
/-- An operation under way only uses what is held. -/
theorem Accounted.allowed {m : Machine σ} (h : Accounted m) {i : Nat} {a : Primitive}
    (hi : m.primitive? i = some a) : a.Allowed m.world.held := by
  obtain ⟨th, hth, k, hx⟩ := exists_of_primitive? hi
  have hsafe := h.safe th hth
  rw [hx] at hsafe
  refine hsafe.1.mono (List.append_subset.mpr ⟨fun r hr => ?_, fun r hr => ?_⟩)
  · exact h.held.symm.subset (List.mem_append_left _ (h.borrowed th hth hr))
  · exact h.held.symm.subset (List.mem_append_right _ (List.mem_flatMap.mpr ⟨th, hth, hr⟩))

/-- The calls of the operations under way are plain. -/
theorem Reachable.every_plain {m : Machine σ} (h : Reachable m) :
    ∀ th ∈ m.threads, th.rest.Every Primitive.Plain := by
  induction h with
  | start s => exact nofun
  | @move m h x hx ih =>
    cases x with
    | outside s => exact ih
    | release r => exact ih
    | ask q =>
      intro th hth
      rcases List.mem_cons.mp hth with rfl | hth
      · exact q.every_plain
      · exact ih th hth
    | advance i =>
      rw [Machine.next]
      cases hi : m.threads[i]? with
      | none => exact ih
      | some th =>
        have hth := ih th (List.mem_of_getElem? hi)
        rw [Option.elim_some, Machine.advance]
        cases hr : th.rest with
        | done x => exact fun th' hth' => ih th' (List.mem_of_mem_eraseIdx hth')
        | step a next =>
          rw [hr] at hth
          intro th' hth'
          rcases List.mem_or_eq_of_mem_set hth' with hth' | rfl
          · exact ih th' hth'
          · exact hth.2 _

theorem Reachable.plain {m : Machine σ} (h : Reachable m) {i : Nat} {a : Primitive}
    (hi : m.primitive? i = some a) : a.Plain := by
  obtain ⟨th, hth, k, hx⟩ := exists_of_primitive? hi
  have hplain := h.every_plain th hth
  rw [hx] at hplain
  exact hplain.1

/-! ## Runs -/

theorem Reachable.advance {m : Machine σ} (h : Reachable m) {th : Thread} {ths : List Thread}
    (hth : m.threads = th :: ths) : Reachable (m.advance 0 th) := by
  have hm := h.move (.advance 0) trivial
  rw [next, hth] at hm
  exact hm

/-- An operation can run to its end with nothing between its steps. -/
theorem Reachable.run {m : Machine σ} (h : Reachable m) {b own : List Reference}
    {op : Operation (List Reference)} {ths : List Thread} (hth : m.threads = ⟨b, own, op⟩ :: ths) :
    ∃ log, Reachable
      { world := (op.action.apply m.world).2
        log := log
        user := Request.handed (op.action.apply m.world).1 ++ m.user
        threads := ths } := by
  induction op generalizing m own with
  | done x =>
    refine ⟨m.log, ?_⟩
    have hm := h.advance hth
    rw [Machine.advance, hth] at hm
    exact hm
  | step a next ih =>
    have hm := h.advance hth
    rw [Machine.advance, hth] at hm
    exact ih _ hm rfl

/-- So a request can be served in one go, as sessions do it. -/
theorem Reachable.request {m : Machine σ} (h : Reachable m) (q : Request)
    (hq : q.operands ⊆ m.user) :
    ∃ log, Reachable
      { world := (q.operation.action.apply m.world).2
        log := log
        user := Request.handed (q.operation.action.apply m.world).1 ++ m.user
        threads := m.threads } :=
  (h.move (.ask q) hq).run rfl

theorem Reachable.moves {m : Machine σ} (h : Reachable m) {xs : List (Move σ)}
    (hx : Admits Enabled next m xs) : Reachable (xs.foldl next m) :=
  hx.foldl (fun _ x hm hx => hm.move x hx) h

/-- Moves in which two operations gate one value side by side, over a library with that value. -/
def gateTwice : List (Move Memory.Graph) :=
  let cx : Context := ⟨0, ⟨0⟩, ⟨Memory.Graph.baseAddress + 2 * Memory.Graph.stride⟩, true, {}⟩
  let v : ValueRef := ⟨Memory.Graph.baseAddress + Memory.Graph.stride⟩
  let gate : Move Memory.Graph := .ask (.internValue (.context cx) v)
  [.ask (.createContext ⟨0⟩ {}), .advance 0, .advance 0, gate, gate, .advance 1, .advance 0,
    .advance 1, .advance 0]

theorem canonicalIdentity_gateTwice :
    let m : Machine Memory.Graph :=
      gateTwice.foldl next { world := { native := (Memory.Graph.value {} [.argument]).2 } }
    m.user.length = 3 ∧ CanonicalIdentity m.log m.world :=
  ⟨by decide +kernel, ((Reachable.start _).moves (by decide +kernel)).canonicalIdentity⟩

end Machine

end CanonIR
