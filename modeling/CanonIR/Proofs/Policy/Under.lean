import CanonIR.Binding.Request
import CanonIR.Proofs.Table

/-!
Policies put aside. An object carries the options of its context along, so two runs that differ in
the options alone do not hand out equal objects. Here an object, a cache, a world or a request is
put under one policy (`under`), which replaces the policy in every options and event in it and
leaves all else alone, and whatever a world is asked answers the same under any policy.
-/

namespace CanonIR

/-- Types whose members have policies in them. -/
class Policed (α : Type) where
  /-- The member with every policy in it replaced. -/
  under : UnknownValues → α → α

export Policed (under)

namespace Policed

/-! ## Without a policy -/

instance : Policed Unit := ⟨fun _ => id⟩
instance : Policed Bool := ⟨fun _ => id⟩
instance : Policed Nat := ⟨fun _ => id⟩
instance : Policed String := ⟨fun _ => id⟩
instance {k : HandleKind} : Policed (Handle k) := ⟨fun _ => id⟩
instance : Policed Opcode := ⟨fun _ => id⟩
instance : Policed IntPredicate := ⟨fun _ => id⟩
instance : Policed RealPredicate := ⟨fun _ => id⟩
instance : Policed Probe := ⟨fun _ => id⟩
instance : Policed TypeKind := ⟨fun _ => id⟩
instance : Policed ConstExprKind := ⟨fun _ => id⟩
instance : Policed ValueKind := ⟨fun _ => id⟩
/-- Faults name handles and numbers. -/
instance : Policed Fault := ⟨fun _ => id⟩
/-- Libraries know nothing of policies, and answer in numbers, texts and handles. -/
instance (c : Call) : Policed c.Answer := ⟨fun _ => id⟩

/-! ## Objects -/

/-- The policy is one of the options; whatever else has one in it has it from a context. -/
instance : Policed ContextOptions := ⟨fun p o => { o with unknownValues := p }⟩
instance : Policed Context := ⟨fun p cx => { cx with options := under p cx.options }⟩
instance : Policed TypeWrapper := ⟨fun p t => { t with context := under p t.context }⟩
instance : Policed ValueWrapper := ⟨fun p v => { v with context := under p v.context }⟩
/-- Views go by kinds, so the wrapper goes on to fit. -/
instance {V : View} : Policed (Viewed V) := ⟨fun p x => ⟨under p x.value, x.accepted⟩⟩

instance : Policed Reference where
  under p
    | .context cx => .context (under p cx)
    | .type t => .type (under p t)
    | .value v => .value (under p v)

/-- Only the events about new bindings tell a policy. -/
instance : Policed Event where
  under p
    | .createdContext raw _ => .createdContext raw p
    | .attachedContext raw _ => .attachedContext raw p
    | e => e

/-! ## Compounds -/

variable {α β κ ε : Type} [Policed α] [Policed β]

instance : Policed (Option α) := ⟨fun p => Option.map (under p)⟩
instance : Policed (List α) := ⟨fun p => List.map (under p)⟩
instance : Policed (Array α) := ⟨fun p => Array.map (under p)⟩
instance : Policed (α × β) := ⟨fun p x => (under p x.1, under p x.2)⟩
instance : Policed (Except ε α) := ⟨fun p => Except.map (under p)⟩
instance : Policed (Table κ α) := ⟨fun p => Table.map (under p)⟩
/-- The threshold goes by numbers of entries, not by what they are. -/
instance : Policed (WeakCache α) := ⟨fun p c => { c with entries := under p c.entries }⟩

instance : Policed Caches := ⟨fun p c => { types := under p c.types, values := under p c.values }⟩

/-- The library, the block shapes, which go by identities, and the number that comes next stay as
they are. -/
instance {σ : Type} : Policed (World σ) where
  under p w :=
    { w with
      held := under p w.held
      caches := under p w.caches
      registry := under p w.registry
      events := under p w.events }

end Policed

variable (p q : UnknownValues)

/-! ## Objects under a policy -/

/-- Contexts keep their identities and their keys, so tables that go by these find them. -/
@[simp] theorem Context.under_id (cx : Context) : (under p cx).id = cx.id := rfl

@[simp] theorem Context.under_key (cx : Context) : (under p cx).key = cx.key := rfl

@[simp] theorem Reference.under_id (r : Reference) : (under p r).id = r.id := by cases r <;> rfl

/-- The owner of a reference is put under the policy with it. -/
@[simp] theorem Reference.under_owner (r : Reference) : (under p r).owner = under p r.owner := by
  cases r <;> rfl

/-- A wrapper fits under the views under which it fitted. -/
@[simp] theorem ValueWrapper.under_downcast? (V : View) (v : ValueWrapper) :
    (under p v).downcast? V = under p (v.downcast? V) := by
  unfold ValueWrapper.downcast?
  show (if h : V.accepts v.kind = true then some (⟨under p v, h⟩ : Viewed V) else none) = _
  split <;> rfl

/-! ## Caches under a policy -/

/-- A test that does not look at policies keeps what it kept. -/
theorem Policed.filter_under {α : Type} [Policed α] {t t' : α → Bool} (x : Option α)
    (h : ∀ a, t' (under p a) = t a) : Option.filter t' (under p x) = under p (x.filter t) := by
  cases x with
  | none => rfl
  | some a =>
    show Option.filter t' (some (under p a)) = _
    rw [Option.filter_some, Option.filter_some, h]
    split <;> rfl

namespace WeakCache

variable {α : Type} [Policed α] {alive alive' : α → Bool} (c : WeakCache α) (key : Nat)

/-- A look-up returns what it returned, put under the policy, if the same objects are alive. -/
theorem lookup_under (h : ∀ a, alive' (under p a) = alive a) :
    (under p c).lookup alive' key = under p (c.lookup alive key) := by
  have hget : (under p c).entries.get? key = (c.entries.get? key).map (under p) :=
    Table.get?_map _ _ _
  rw [lookup, lookup, hget]
  exact Policed.filter_under p (c.entries.get? key) h

theorem filter_under (h : ∀ a, alive' (under p a) = alive a) :
    ((under p c).entries.filter fun _ a => alive' a) =
      under p (c.entries.filter fun _ a => alive a) := by
  have hmap := c.entries.filter_map (under p) fun _ a => alive' a
  simp only [h] at hmap
  exact hmap

/-- As many entries are alive. -/
theorem liveCount_under (h : ∀ a, alive' (under p a) = alive a) :
    (under p c).liveCount alive' = c.liveCount alive := by
  rw [liveCount, filter_under p c h]
  exact Table.size_map _ _

theorem size_under : (under p c).size = c.size := Table.size_map _ _

/-- A sweep drops the entries that it dropped, and sets the same threshold. -/
theorem sweep_under (h : ∀ a, alive' (under p a) = alive a) :
    (under p c).sweep alive' = under p (c.sweep alive) := by
  have hsize : (under p (c.entries.filter fun _ a => alive a)).size =
      (c.entries.filter fun _ a => alive a).size := Table.size_map _ _
  simp only [sweep, filter_under p c h, hsize]
  rfl

/-- An insertion sweeps if it did, since the number of entries and the threshold are the same. -/
theorem insert_under (h : ∀ a, alive' (under p a) = alive a) (a : α) :
    (under p c).insert alive' key (under p a) = under p (c.insert alive key a) := by
  have hdue : (under p c).sweepDue = c.sweepDue :=
    congrArg (fun n => decide (c.sweepAt ≤ n)) (Table.size_map _ _)
  have hput (d : WeakCache α) :
      ({ under p d with entries := (under p d).entries.insert key (under p a) } : WeakCache α) =
        under p { d with entries := d.entries.insert key a } :=
    congrArg (fun t => (⟨t, d.sweepAt⟩ : WeakCache α)) (Table.insert_map _ _ _ _)
  rw [insert, insert, hdue]
  by_cases hd : c.sweepDue = true
  · simp only [hd, if_true]
    rw [sweep_under p c h]
    exact hput _
  · simp only [hd]
    exact hput _

theorem forget_under : (under p c).forget key = under p (c.forget key) :=
  congrArg (fun t => (⟨t, c.sweepAt⟩ : WeakCache α)) (Table.erase_map _ _ _)

end WeakCache

/-! ## Worlds under a policy -/

namespace World

variable {σ : Type} (w : World σ) (cx : Context)

@[simp] theorem under_native : (under p w).native = w.native := rfl

@[simp] theorem under_nextId : (under p w).nextId = w.nextId := rfl

@[simp] theorem under_blockRefs : (under p w).blockRefs = w.blockRefs := rfl

@[simp] theorem under_held : (under p w).held = w.held.map (under p) := rfl

@[simp] theorem under_registry : (under p w).registry = under p w.registry := rfl

/-- What is held is told by identities. -/
@[simp] theorem under_holds (id : Nat) : (under p w).holds id = w.holds id := by
  simp only [holds, under_held, List.any_map, Function.comp_def, Reference.under_id]

@[simp] theorem under_contextAlive : (under p w).contextAlive (under p cx) = w.contextAlive cx := by
  simp only [contextAlive, under_held, List.any_map, Function.comp_def, Reference.under_owner,
    Context.under_id]

theorem under_typeAlive (t : TypeWrapper) : (under p w).typeAlive (under p t) = w.typeAlive t :=
  under_holds p w t.id

theorem under_valueAlive (v : ValueWrapper) : (under p w).valueAlive (under p v) = w.valueAlive v :=
  under_holds p w v.id

/-- Caches are found by the identity of their context, so it is all the same whether the context is
put under the policy. -/
theorem under_cachesOf : (under p w).cachesOf cx = under p (w.cachesOf cx) := by
  have hget : (under p w).caches.get? cx.id = (w.caches.get? cx.id).map (under p) :=
    Table.get?_map _ _ _
  rw [cachesOf, cachesOf, hget]
  cases w.caches.get? cx.id <;> rfl

@[simp] theorem under_setCaches (c : Caches) :
    (under p w).setCaches (under p cx) (under p c) = under p (w.setCaches cx c) :=
  congrArg (fun t => { under p w with caches := t }) (Table.insert_map _ _ _ _)

/-- A wrapper takes the same place in the cache of its context, and the cache sweeps first if it
did. -/
@[simp] theorem under_enterType (t : TypeWrapper) :
    (under p w).enterType (under p t) = under p (w.enterType t) := by
  have hc : (under p w).cachesOf (under p t).context = under p (w.cachesOf t.context) :=
    w.under_cachesOf p t.context
  have hi := (w.cachesOf t.context).types.insert_under p t.handle.address (w.under_typeAlive p) t
  rw [enterType, enterType, hc]
  refine Eq.trans ?_ (w.under_setCaches p t.context _)
  exact congrArg (fun c => (under p w).setCaches (under p t.context)
    { under p (w.cachesOf t.context) with types := c }) hi

@[simp] theorem under_enterValue (v : ValueWrapper) :
    (under p w).enterValue (under p v) = under p (w.enterValue v) := by
  have hc : (under p w).cachesOf (under p v).context = under p (w.cachesOf v.context) :=
    w.under_cachesOf p v.context
  have hi := (w.cachesOf v.context).values.insert_under p v.handle.address (w.under_valueAlive p) v
  rw [enterValue, enterValue, hc]
  refine Eq.trans ?_ (w.under_setCaches p v.context _)
  exact congrArg (fun c => (under p w).setCaches (under p v.context)
    { under p (w.cachesOf v.context) with values := c }) hi

/-- The same entry goes, if there is one. -/
@[simp] theorem under_forgetValue (h : ValueRef) :
    (under p w).forgetValue (under p cx) h = under p (w.forgetValue cx h) := by
  have hc : (under p w).cachesOf (under p cx) = under p (w.cachesOf cx) := w.under_cachesOf p cx
  rw [forgetValue, forgetValue, hc]
  refine Eq.trans ?_ (w.under_setCaches p cx _)
  exact congrArg (fun c => (under p w).setCaches (under p cx)
    { under p (w.cachesOf cx) with values := c }) ((w.cachesOf cx).values.forget_under p h.address)

/-- Block shapes are noted under the identities of wrappers. -/
@[simp] theorem under_noteBlockRef (bb : BasicBlock) (b : BlockRef) :
    (under p w).noteBlockRef (under p bb) b = under p (w.noteBlockRef bb b) := by
  have hid : (under p bb).value.id = bb.value.id := rfl
  rw [noteBlockRef, noteBlockRef, under_blockRefs, hid]
  split <;> rfl

@[simp] theorem under_emit (e : Event) : (under p w).emit (under p e) = under p (w.emit e) :=
  congrArg (fun l => { under p w with events := l }) Array.map_push.symm

@[simp] theorem under_hold (r : Reference) : (under p w).hold (under p r) = under p (w.hold r) := rfl

/-! ### What is seen of a world -/

/-- Numbers of wrappers and of entries are the same, and so is what the caches have. -/
theorem under_liveTypes : (under p w).liveTypes cx = w.liveTypes cx := by
  rw [liveTypes, under_cachesOf]
  exact (w.cachesOf cx).types.liveCount_under p (w.under_typeAlive p)

theorem under_liveValues : (under p w).liveValues cx = w.liveValues cx := by
  rw [liveValues, under_cachesOf]
  exact (w.cachesOf cx).values.liveCount_under p (w.under_valueAlive p)

theorem under_cacheEntries : (under p w).cacheEntries cx = w.cacheEntries cx := by
  rw [cacheEntries, under_cachesOf]
  exact congrArg₂ (· + ·) ((w.cachesOf cx).types.size_under p) ((w.cachesOf cx).values.size_under p)

/-- The look-up at a gate: a hit stays a hit, and returns the wrapper put under the policy. -/
theorem under_lookup_types (h : TypeRef) :
    ((under p w).cachesOf cx).types.lookup (under p w).typeAlive h.address =
      under p ((w.cachesOf cx).types.lookup w.typeAlive h.address) := by
  rw [under_cachesOf]
  exact (w.cachesOf cx).types.lookup_under p h.address (w.under_typeAlive p)

theorem under_lookup_values (h : ValueRef) :
    ((under p w).cachesOf cx).values.lookup (under p w).valueAlive h.address =
      under p ((w.cachesOf cx).values.lookup w.valueAlive h.address) := by
  rw [under_cachesOf]
  exact (w.cachesOf cx).values.lookup_under p h.address (w.under_valueAlive p)

theorem under_hasType (h : TypeRef) : (under p w).hasType cx h = w.hasType cx h :=
  (congrArg Option.isSome (w.under_lookup_types p cx h)).trans Option.isSome_map

theorem under_hasValue (h : ValueRef) : (under p w).hasValue cx h = w.hasValue cx h :=
  (congrArg Option.isSome (w.under_lookup_values p cx h)).trans Option.isSome_map

end World

/-! ## Releases under a policy -/

namespace Registry

variable (r : Registry) (cx : Context)

theorem enter_under : Registry.enter (under p r) (under p cx) = under p (r.enter cx) :=
  Table.insert_map _ _ _ _

theorem get?_under (key : LibraryId × ContextRef) : (under p r).get? key = under p (r.get? key) :=
  Table.get?_map _ _ _

/-- The registry has the binding that it had, if the same contexts live. -/
theorem living?_under {alive alive' : Context → Bool} (h : ∀ cx, alive' (under p cx) = alive cx)
    (key : LibraryId × ContextRef) :
    Registry.living? (under p r) alive' key = under p (r.living? alive key) := by
  rw [Registry.living?, Registry.living?, get?_under]
  exact Policed.filter_under p (r.get? key) h

/-- An ended binding leaves the registry unless another one has its place, as identities tell. -/
theorem retire_under : Registry.retire (under p r) (under p cx) = under p (r.retire cx) := by
  rw [Registry.retire, Registry.retire, Context.under_key, get?_under]
  have hany : (under p (r.get? cx.key)).any (·.id == (under p cx).id) =
      (r.get? cx.key).any (·.id == cx.id) := by
    cases r.get? cx.key <;> rfl
  rw [hany]
  split
  · exact Table.erase_map _ _ _
  · rfl

end Registry

namespace World

variable {σ : Type} [NativeSystem σ] (w : World σ)

/-- The end of a context: its entry and its caches go, and the library is called if it was owned. -/
theorem under_retire (cx : Context) : (under p w).retire (under p cx) = under p (w.retire cx) := by
  let w' : World σ := { w with registry := w.registry.retire cx, caches := w.caches.erase cx.id }
  have hout : ({ under p w with
      registry := Registry.retire (under p w).registry (under p cx)
      caches := (under p w).caches.erase (under p cx).id } : World σ) = under p w' :=
    congrArg₂ (fun r t => { under p w with registry := r, caches := t })
      (w.registry.retire_under p cx) (Table.erase_map _ _ _)
  have howned : (under p cx).owned = cx.owned := rfl
  rw [retire, retire, hout, howned]
  dsimp only
  split
  · have hemit := w'.under_emit p (.disposingContext cx.raw)
    exact congrArg (fun w : World σ => { w with
      native := (NativeSystem.perform cx.library (.disposeContext cx.raw) w.native).2 }) hemit
  · rfl

/-- Giving up a reference ends the context of which it was the last one, on both sides. -/
@[simp] theorem under_release (r : Reference) :
    (under p w).release (under p r) = under p (w.release r) := by
  have hdrop : ({ under p w with held := (under p w).held.eraseP (·.id == (under p r).id) } :
      World σ) = under p { w with held := w.held.eraseP (·.id == r.id) } := by
    refine congrArg (fun l => { under p w with held := l }) ?_
    rw [under_held, List.eraseP_map]
    simp only [Function.comp_def, Reference.under_id]
    rfl
  rw [release, release, under_holds, hdrop, Reference.under_owner, Reference.under_id]
  dsimp only
  rw [under_contextAlive, under_retire]
  split
  · split <;> rfl
  · rfl

end World

end CanonIR
