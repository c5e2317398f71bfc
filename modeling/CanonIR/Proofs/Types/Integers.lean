import CanonIR.Proofs.Binding.Operation
import CanonIR.Proofs.Identity.Interleaving
import CanonIR.Proofs.Types.Retained

/-!
Integer types are canonical from end to end. Over in-memory libraries, operations take their steps
in any order, libraries are used past the bindings as one likes, and references are given up, so
wrappers die and are made again. The integer type of a context and a width is made by the library
once, and wrapped by the binding once at a time: in every state two held wrappers of integer types
of one context are the same object if and only if their widths are the same
(`Integers.Reachable.canonicalIntegers`).
-/

namespace CanonIR

/-- An integer type that a library has given out for a context of its. -/
structure IntType where
  library : LibraryId
  raw : ContextRef
  width : Nat
  handle : TypeRef
  deriving DecidableEq

/-- A wrapper that a context has returned for an integer type of its own. -/
structure IntWrapper where
  context : Context
  width : Nat
  wrapper : TypeWrapper
  deriving DecidableEq

/-- The integer type that a wrapper was returned for. -/
def IntWrapper.type (a : IntWrapper) : IntType :=
  ⟨a.context.library, a.context.raw, a.width, a.wrapper.handle⟩

/-! ## Integer types of a library -/

namespace IntType

/-- A library has noted an integer type. -/
def Stands (i : IntType) (w : World Recorders) : Prop :=
  (w.graph i.library).intTypes.get? (i.raw, i.width) = some i.handle

variable {i j : IntType} {w w' : World Recorders}

theorem Stands.retain (h : i.Stands w) (hn : w.native.Retain w'.native) : i.Stands w' :=
  (hn i.library).graph.intTypes _ _ h

theorem Stands.get?_types (h : i.Stands w) (hw : TypesStand w) :
    (w.graph i.library).types.get? i.handle = some ⟨TypeKind.integer.number, i.width⟩ :=
  (hw.typed i.library).width _ _ _ h

theorem Stands.hasKind (h : i.Stands w) (hw : TypesStand w) :
    (w.graph i.library).HasKind i.handle .integer :=
  ⟨_, h.get?_types hw, rfl⟩

theorem Stands.kind_eq (h : i.Stands w) (hw : TypesStand w) {k : TypeKind}
    (hk : (w.graph i.library).HasKind i.handle k) : k = .integer := by
  obtain ⟨te, he, hn⟩ := hk
  obtain rfl := Option.some.inj ((h.get?_types hw).symm.trans he)
  exact TypeKind.number_injective hn.symm

theorem Stands.isNull_eq_false (h : i.Stands w) (hw : TypesStand w) : i.handle.isNull = false :=
  Handle.isNull_eq_false_iff.mpr
    ((hw.typed i.library).type_handed _ _ (h.get?_types hw)).ne_zero

theorem Stands.handle_eq_iff (h : i.Stands w) (h' : j.Stands w) (hw : TypesStand w)
    (hlib : i.library = j.library) : i.handle = j.handle ↔ i.raw = j.raw ∧ i.width = j.width := by
  unfold Stands at h h'
  rw [hlib] at h
  constructor
  · intro heq
    rw [heq] at h
    exact Prod.mk.inj ((hw.typed j.library).unique _ _ _ h h')
  · intro hx
    obtain ⟨hraw, hwidth⟩ := hx
    rw [hraw, hwidth, h'] at h
    exact (Option.some.inj h).symm

/-- A wrapper of an integer type tells its width. -/
theorem Stands.intWidth? (h : i.Stands w) (hw : TypesStand w) {t : TypeWrapper}
    (hlib : t.context.library = i.library) (ht : t.handle = i.handle) (hk : t.kind = .integer) :
    ((Operation.intWidth? t).action.apply w).1 = .ok (some i.width) := by
  have ha : ((w.graph i.library).perform (.intTypeWidth i.handle)).1 = .ok i.width := by
    rw [Memory.Graph.perform, h.get?_types hw]
    rfl
  obtain ⟨s, hask, -⟩ := Recorders.apply_call_of_unforced (hw.unforced i.library)
    (c := .intTypeWidth i.handle) rfl ha
  have hcall : (Operation.call t.context.library (.intTypeWidth t.handle)).action.apply w =
      (.ok i.width, { w with native := s }) := by
    rw [hlib, ht]
    exact hask
  rw [Operation.intWidth?, if_pos hk, Operation.apply_bind_of_ok hcall]
  rfl

/-- A gate that is given an integer type returns a wrapper of integer kind, which tells the width. -/
theorem Stands.gate (h : i.Stands w) (hw : TypesStand w) {names : Nat → Reference}
    {log : List Forgetting} (hs : Sound names log w) {cx : Context}
    (hcx : ∃ r ∈ w.held, r.owner = cx) (hlib : cx.library = i.library) :
    ∃ t w', (Action.internType cx i.handle).apply w = (.ok (some t), w') ∧
      t.context = cx ∧ t.handle = i.handle ∧ t.kind = .integer ∧
      ((Operation.intWidth? t).action.apply w').1 = .ok (some i.width) := by
  have hw' := hw.internType hs hcx i.handle
  obtain ⟨x, w', hx, hn, ⟨t, rfl, htcx, hty, hk, -⟩ | ⟨f, -, hf, -⟩⟩ :=
    hw.gate hs hcx (h.isNull_eq_false hw)
  · rw [hx] at hw'
    rw [hlib] at hk
    have h' := h.retain hn
    have hint : t.kind = .integer := h'.kind_eq hw' hk
    exact ⟨t, w', hx, htcx, hty, hint,
      h'.intWidth? hw' ((congrArg Context.library htcx).trans hlib) hty hint⟩
  · have hok := Memory.Graph.hasKind_iff.mp (h.hasKind hw)
    rw [← hlib, hf] at hok
    cases hok

end IntType

/-! ## The machine -/

/-- Operations side by side over in-memory libraries, with the integer types that were given out so
far, and the wrappers that were returned for them. -/
structure Integers where
  machine : Machine Recorders := { world := { native := ∅ } }
  types : List IntType := []
  wrappers : List IntWrapper := []

namespace Integers

def world (u : Integers) : World Recorders := u.machine.world

/-- What can happen next. -/
inductive Move where
  /-- Something is done to a library past the bindings. -/
  | library (lib : LibraryId) (x : Recorder.Move)
  | ask (q : Request)
  | advance (i : Nat)
  | release (r : Reference)

namespace Move

/-- What a move is for a machine over libraries in a state. -/
def move (rs : Recorders) : Move → Machine.Move Recorders
  | library lib x => .outside (rs.insert lib ((rs.recorder lib).next x))
  | ask q => .ask q
  | advance i => .advance i
  | release r => .release r

/-- The integer type that a library gives out in a move. -/
def type? (rs : Recorders) : Move → Option IntType
  | library lib (.setup (.intType raw width)) =>
    some ⟨lib, raw, width, ((rs.recorder lib).graph.intType raw width).1⟩
  | _ => none

/-- The primitive that is performed in a move. -/
def primitive? (m : Machine Recorders) : Move → Option Primitive
  | advance i => m.primitive? i
  | _ => none

end Move

/-- The wrapper that a primitive returns, if it is given an integer type of the context. -/
def returned (types : List IntType) (w : World Recorders) : Primitive → List IntWrapper
  | .internType cx h =>
    match ((Action.internType cx h).apply w).1 with
    | .ok (some t) =>
      (types.filter fun i => (i.library, i.raw) = cx.key ∧ i.handle = h).map fun i =>
        ⟨cx, i.width, t⟩
    | _ => []
  | _ => []

def Enabled (u : Integers) (x : Move) : Prop := u.machine.Enabled (x.move u.world.native)

instance (u : Integers) (x : Move) : Decidable (u.Enabled x) := by
  unfold Enabled
  infer_instance

def next (u : Integers) (x : Move) : Integers where
  machine := u.machine.next (x.move u.world.native)
  types := (x.type? u.world.native).toList ++ u.types
  wrappers := (x.primitive? u.machine).elim [] (returned u.types u.world) ++ u.wrappers

/-- The states that can be reached from empty libraries. -/
inductive Reachable : Integers → Prop where
  | start : Reachable {}
  | move {u : Integers} (h : Reachable u) (x : Move) (hx : u.Enabled x) : Reachable (u.next x)

/-- Integer types, and their wrappers, are told apart by context and width alone. -/
structure Canonical (u : Integers) : Prop where
  /-- A library has one integer type for a context and a width, and no other one of that handle. -/
  type_eq_iff : ∀ i ∈ u.types, ∀ j ∈ u.types, i.library = j.library →
    (i.handle = j.handle ↔ i.raw = j.raw ∧ i.width = j.width)
  /-- A library that is asked for an integer type again gives out the same. -/
  type_again : ∀ i ∈ u.types, ((u.world.graph i.library).intType i.raw i.width).1 = i.handle
  /-- A context that lives returns a wrapper for each integer type of its own. -/
  gate : ∀ i ∈ u.types, ∀ cx, (∃ r ∈ u.world.held, r.owner = cx) → cx.key = (i.library, i.raw) →
    ∃ t w', (Action.internType cx i.handle).apply u.world = (.ok (some t), w') ∧
      t.context = cx ∧ t.handle = i.handle ∧ t.kind = .integer ∧
      ((Operation.intWidth? t).action.apply w').1 = .ok (some i.width)
  /-- Wrappers that a context has returned, whenever that was, are the same object if and only if
  they were returned for the same width, as long as both are held. -/
  wrapper_eq_iff : ∀ a ∈ u.wrappers, ∀ b ∈ u.wrappers, .type a.wrapper ∈ u.world.held →
    .type b.wrapper ∈ u.world.held → a.context = b.context →
      (a.wrapper.id = b.wrapper.id ↔ a.width = b.width)
  /-- A held wrapper is of integer kind and tells the width that it was returned for. -/
  wrapper_width : ∀ a ∈ u.wrappers, .type a.wrapper ∈ u.world.held →
    a.wrapper.kind = .integer ∧
      ((Operation.intWidth? a.wrapper).action.apply u.world).1 = .ok (some a.width)
  /-- Wrappers of contexts with different native handles have different native handles. -/
  wrapper_apart : ∀ a ∈ u.wrappers, ∀ b ∈ u.wrappers, a.context.library = b.context.library →
    a.context.raw ≠ b.context.raw → a.wrapper.handle ≠ b.wrapper.handle

/-! ## The invariant -/

/-- The invariant: the machine has come here by itself, types stand, and so do the integer types
that were given out and wrapped. -/
structure Kept (u : Integers) : Prop where
  machine : u.machine.Reachable
  stand : TypesStand u.world
  types : ∀ i ∈ u.types, i.Stands u.world
  wrappers : ∀ a ∈ u.wrappers, a.wrapper.context = a.context ∧ a.type.Stands u.world

variable {u u' : Integers} {x : Move}

/-- What a primitive returns for an integer type of the context. -/
theorem of_mem_returned {types : List IntType} {w : World Recorders} {p : Primitive}
    {a : IntWrapper} (h : a ∈ returned types w p) :
    ∃ i ∈ types, (i.library, i.raw) = a.context.key ∧ i.width = a.width ∧
      p = .internType a.context i.handle ∧
      ((Action.internType a.context i.handle).apply w).1 = .ok (some a.wrapper) := by
  cases p with
  | internType cx ty =>
    rw [returned] at h
    split at h
    · next t ht =>
      obtain ⟨i, hf, rfl⟩ := List.mem_map.mp h
      obtain ⟨hi, hp⟩ := List.mem_filter.mp hf
      obtain ⟨hkey, rfl⟩ := of_decide_eq_true hp
      exact ⟨i, hi, hkey, rfl, rfl, ht⟩
    · exact absurd h List.not_mem_nil
  | _ => exact absurd h List.not_mem_nil

/-- What a library gives out it has noted. -/
theorem stands_of_type? {i : IntType} (hi : x.type? u.world.native = some i) :
    i.Stands (u.next x).world := by
  unfold Move.type? at hi
  split at hi
  · next lib raw width =>
    obtain rfl := Option.some.inj hi
    unfold IntType.Stands
    show (Recorders.recorder (u.world.native.insert lib _) lib).graph.intTypes.get? _ = _
    rw [Recorders.recorder_insert, if_pos rfl]
    exact Memory.Graph.get?_intType _ raw width
  · exact nomatch hi

namespace Kept

theorem start : Kept {} := ⟨.start _, .start, nofun, nofun⟩

/-- A move that gives out integer types, or returns wrappers for them. -/
theorem step (h : Kept u) (hm : u'.machine.Reachable) (hs : TypesStand u'.world)
    (hn : u.world.native.Retain u'.world.native)
    (ht : ∀ i ∈ u'.types, i ∈ u.types ∨ i.Stands u'.world)
    (hw : ∀ a ∈ u'.wrappers, a ∈ u.wrappers ∨
      a.wrapper.context = a.context ∧ a.type.Stands u'.world) : Kept u' where
  machine := hm
  stand := hs
  types i hi := (ht i hi).elim (fun hi => (h.types i hi).retain hn) id
  wrappers a ha := (hw a ha).elim
    (fun ha => ⟨(h.wrappers a ha).1, (h.wrappers a ha).2.retain hn⟩) id

/-- What a gate returns for an integer type of its context is a wrapper of that type. -/
theorem returned_stands (h : Kept u) {names : Nat → Reference} {log : List Forgetting}
    (hs : Sound names log u.world) {p : Primitive} (hp : p.Allowed u.world.held) {a : IntWrapper}
    (ha : a ∈ returned u.types u.world p) :
    a.wrapper.context = a.context ∧ a.type.Stands u.world := by
  obtain ⟨i, hi, hkey, hwidth, rfl, hok⟩ := of_mem_returned ha
  have hst := h.types i hi
  obtain ⟨hlib, hraw⟩ := Prod.mk.inj hkey
  obtain ⟨t, w', hx, hcx, hty, -⟩ := hst.gate h.stand hs hp hlib.symm
  rw [hx] at hok
  obtain rfl := Option.some.inj (Except.ok.inj hok)
  refine ⟨hcx, ?_⟩
  unfold IntType.Stands IntWrapper.type at *
  rw [← hlib, ← hraw, ← hwidth, hty]
  exact hst

/-- Every primitive keeps the invariant. -/
theorem perform (h : Kept u) {p : Primitive} (hp : p.Allowed u.world.held)
    (hm : u'.machine.Reachable) (hw : u'.world = (p.action.apply u.world).2)
    (ht : u'.types = u.types)
    (hr : ∀ a ∈ u'.wrappers, a ∈ returned u.types u.world p ∨ a ∈ u.wrappers) : Kept u' := by
  obtain ⟨names, hs⟩ := h.machine.accounted.sound
  have hn : u.world.native.Retain u'.world.native := by
    rw [hw]
    exact Recorders.persists_retain.perform hs hp fun _ _ => trivial
  refine h.step hm (hw ▸ h.stand.perform hs hp) hn (fun i hi => Or.inl (ht ▸ hi)) fun a ha => ?_
  rcases hr a ha with ha | ha
  · obtain ⟨hcx, hst⟩ := h.returned_stands hs hp ha
    exact Or.inr ⟨hcx, hst.retain hn⟩
  · exact Or.inl ha

/-- Every move keeps the invariant. -/
theorem next (h : Kept u) (hx : u.Enabled x) : Kept (u.next x) := by
  have hm := h.machine.move _ hx
  cases x with
  | library lib m =>
    have hn : u.world.native.Retain (u.next (.library lib m)).world.native :=
      Recorders.each_insert ((u.world.native.recorder lib).retains_next m)
    refine h.step hm (h.stand.step hn fun _ => Or.inl) hn (fun i hi => ?_) fun a ha => Or.inl ha
    rcases List.mem_append.mp hi with hi | hi
    · exact Or.inr (stands_of_type? (Option.mem_toList.mp hi))
    · exact Or.inl hi
  | ask q =>
    exact h.step hm (h.stand.step (refl_of Recorders.Retain _) fun _ => Or.inl)
      (refl_of Recorders.Retain _) (fun i hi => Or.inl hi) fun a ha => Or.inl ha
  | release r =>
    have hr : r ∈ u.world.held :=
      h.machine.accounted.held.symm.subset (List.mem_append_left _ hx.1)
    exact h.perform (p := .release r) hr hm rfl rfl fun a ha => Or.inr ha
  | advance i =>
    have hw : (u.next (.advance i)).world =
        (u.machine.primitive? i).elim u.world fun a => (a.action.apply u.world).2 :=
      u.machine.world_advance i
    have hr : (u.next (.advance i)).wrappers =
        (u.machine.primitive? i).elim [] (returned u.types u.world) ++ u.wrappers := rfl
    cases hi : u.machine.primitive? i with
    | none =>
      rw [hi] at hw hr
      rw [Option.elim_none, List.nil_append] at hr
      have hn : u.world.native.Retain (u.next (.advance i)).world.native :=
        hw ▸ refl_of Recorders.Retain _
      exact h.step hm (hw ▸ h.stand) hn (fun j hj => Or.inl hj) fun a ha => Or.inl (hr ▸ ha)
    | some a =>
      rw [hi] at hw hr
      exact h.perform (h.machine.accounted.allowed hi) hm hw rfl fun b hb =>
        List.mem_append.mp (hr ▸ hb)

end Kept

theorem Reachable.kept (h : Reachable u) : Kept u := by
  induction h with
  | start => exact .start
  | move h x hx ih => exact ih.next hx

theorem Reachable.moves (h : Reachable u) {xs : List Move}
    (hx : Admits Enabled next u xs) : Reachable (xs.foldl next u) :=
  hx.foldl (fun _ x hu hx => hu.move x hx) h

/-- In every state integer types and their wrappers are told apart by contexts and widths alone,
whatever was allocated, released and made again on the way. -/
theorem Reachable.canonicalIntegers (h : Reachable u) : Canonical u where
  type_eq_iff i hi j hj hlib :=
    (h.kept.types i hi).handle_eq_iff (h.kept.types j hj) h.kept.stand hlib
  type_again i hi := by
    rw [Memory.Graph.intType_of_get? (h.kept.types i hi)]
  gate i hi cx hcx hkey := by
    obtain ⟨names, hs⟩ := h.kept.machine.accounted.sound
    exact (h.kept.types i hi).gate h.kept.stand hs hcx (congrArg Prod.fst hkey)
  wrapper_eq_iff a ha b hb hha hhb hcx := by
    obtain ⟨names, hs⟩ := h.kept.machine.accounted.sound
    obtain ⟨hca, hsa⟩ := h.kept.wrappers a ha
    obtain ⟨hcb, hsb⟩ := h.kept.wrappers b hb
    have hiff := hsa.handle_eq_iff hsb h.kept.stand (congrArg Context.library hcx)
    constructor
    · intro hid
      obtain heq := Reference.type.inj (hs.eq_of_id_eq hha hhb hid)
      exact (hiff.mp (congrArg TypeWrapper.handle heq)).2
    · intro hwidth
      have hhandle := hiff.mpr ⟨congrArg Context.raw hcx, hwidth⟩
      -- Types are never forgotten, so both wrappers are canonical ones.
      have hf (t : TypeWrapper) : ¬ (Reference.type t).Forgotten u.machine.log := fun hx => by
        obtain ⟨f, -, hit⟩ := hx
        exact hit
      have hctx : a.wrapper.context.id = b.wrapper.context.id := by rw [hca, hcb, hcx]
      exact congrArg TypeWrapper.id
        (hs.identity.type_unique a.wrapper b.wrapper ⟨hha, hf _⟩ ⟨hhb, hf _⟩ hctx hhandle)
  wrapper_width a ha hha := by
    obtain ⟨hcx, hst⟩ := h.kept.wrappers a ha
    have hk := h.kept.stand.kind a.wrapper hha
    rw [hcx] at hk
    have hint : a.wrapper.kind = .integer := hst.kind_eq h.kept.stand hk
    exact ⟨hint, hst.intWidth? h.kept.stand (congrArg Context.library hcx) rfl hint⟩
  wrapper_apart a ha b hb hlib hraw heq :=
    hraw (((h.kept.wrappers a ha).2.handle_eq_iff (h.kept.wrappers b hb).2 h.kept.stand hlib).mp
      heq).1

/-- Two contexts with types of width 8. In the first one the wrapper of that type is given up, and
made again after other allocations; meanwhile it holds a wrapper of width 32. -/
def rebuilding : List Move :=
  let address (n : Nat) : Nat := Memory.Graph.baseAddress + n * Memory.Graph.stride
  let cx (id : Nat) : Context := ⟨id, ⟨0⟩, ⟨address (id + 1)⟩, true, {}⟩
  let intType (id width : Nat) : Move :=
    .library ⟨0⟩ (.setup (.intType (cx id).raw width))
  let serve (q : Request) : List Move := [.ask q, .advance 0, .advance 0]
  serve (.createContext ⟨0⟩ {}) ++ serve (.createContext ⟨0⟩ {}) ++
    [intType 0 8] ++ serve (.internType (.context (cx 0)) ⟨address 3⟩) ++
    [intType 0 32] ++ serve (.internType (.context (cx 0)) ⟨address 4⟩) ++
    [.release (.type ⟨2, cx 0, ⟨address 3⟩, .integer⟩)] ++
    [.library ⟨0⟩ (.setup (.value [.argument])), .library ⟨0⟩ (.call .createContext)] ++
    [intType 0 8] ++
    serve (.internType (.context (cx 0)) ⟨address 3⟩) ++
    serve (.internType (.type ⟨3, cx 0, ⟨address 4⟩, .integer⟩) ⟨address 3⟩) ++
    [intType 1 8] ++ serve (.internType (.context (cx 1)) ⟨address 7⟩)

theorem canonicalIntegers_rebuilding :
    let u := rebuilding.foldl next {}
    u.types.length = 4 ∧ u.world.held.length = 6 ∧
      u.wrappers.map (fun a => (a.context.id, a.width, a.wrapper.id)) =
        (1, 8, 5) :: List.replicate 4 (0, 8, 4) ++ [(0, 32, 3), (0, 8, 2)] ∧ Canonical u :=
  ⟨by decide +kernel, by decide +kernel, by decide +kernel,
    (Reachable.start.moves (by decide +kernel)).canonicalIntegers⟩

end Integers

end CanonIR
