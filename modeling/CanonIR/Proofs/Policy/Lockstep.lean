import CanonIR.Native.Recorder
import CanonIR.Proofs.Policy.Answer

/-!
Two runs in lockstep. The same moves are made twice from the same libraries, once with every option
set to reject and once with every option set to tolerate. As long as no move of the first run fails
on an unknown value, the runs differ in the options that their objects carry and in nothing else;
and where a gate of values then rejects, the same gate of the second run wraps the value, as one of
no class, after the same questions (`Policy.inLockstep`).
-/

namespace CanonIR

open UnknownValues (reject tolerate)

/-! ## Where an unknown value is met -/

namespace Action

variable {σ α β : Type}

/-- An action that does not fail on an unknown value. -/
def Sure (a : Action σ α) : Prop := ∀ w, unclassified (a.apply w).1 = false

theorem Sure.bind {a : Action σ α} {f : α → Action σ β} (ha : Sure a) (hf : ∀ x, Sure (f x)) :
    Sure (a >>= f) := by
  intro w
  have h := ha w
  rw [apply_bind]
  generalize a.apply w = r at h ⊢
  obtain ⟨e | x, w'⟩ := r
  · exact h
  · exact hf x w'

theorem sure_pure (x : α) : Sure (pure x : Action σ α) := fun _ => rfl

theorem sure_emit (e : Event) : Sure (emit e : Action σ Unit) := fun _ => rfl

variable [NativeSystem σ]

theorem sure_call (lib : LibraryId) (c : Call) : Sure (call lib c : Action σ c.Answer) := by
  intro w
  rw [apply_call]
  cases (NativeSystem.perform lib c w.native).1 <;> rfl

theorem sure_settle (lib : LibraryId) (v : ValueRef) (above : Option Probe) (f : Forest) :
    Sure (f.settle (fun p => (call lib (.isA v p) : Action σ Bool)) above) := by
  induction f generalizing above with
  | empty => exact sure_pure above
  | tree p c r ihc ihr =>
    refine (sure_call lib (.isA v p)).bind fun (b : Bool) => ?_
    cases b with
    | true => exact ihc (some p)
    | false => exact ihr above

theorem sure_classifyConstExpr (lib : LibraryId) (v : ValueRef) :
    Sure (classifyConstExpr lib v : Action σ ConstExprKind) := by
  refine (sure_call lib (.constOpcode v)).bind fun n => ?_
  split
  · exact fun _ => rfl
  · split
    · exact sure_pure _
    · exact fun _ => rfl

/-- A classification that fails on an unknown value comes to the kind above all classes with
tolerance, after the same questions. -/
theorem classifyValue_unclassified {lib : LibraryId} {v x : ValueRef} {policy : UnknownValues}
    {w w' : World σ}
    (h : (classifyValue lib v policy).apply w = (.error (.drift (.unclassifiedValue x)), w')) :
    x = v ∧ (classifyValue lib v tolerate).apply (under tolerate w) =
      (.ok .value, (under tolerate w').emit (.unknownValue v)) := by
  have hsettle := sure_settle lib v none taxonomy w
  have hfollow := follows_settle lib v none taxonomy w hsettle
  rw [classifyValue, apply_bind] at h ⊢
  rw [hfollow]
  generalize taxonomy.settle (fun p => (call lib (.isA v p) : Action σ Bool)) none = a at h hsettle ⊢
  generalize a.apply w = r at h hsettle ⊢
  obtain ⟨e | _ | p, w₁⟩ := r
  · obtain rfl : e = .drift (.unclassifiedValue x) := by simpa using (Prod.mk.inj h).1
    exact nomatch hsettle
  · cases policy with
    | reject =>
      obtain ⟨hx, rfl⟩ := Prod.mk.inj h
      exact ⟨by simpa using hx.symm, rfl⟩
    | tolerate => exact nomatch h
  · have hsure : Sure (do
        emit (.chainSettled v p)
        if p = .constantExpr then .constExpr <$> classifyConstExpr lib v
        else pure (.ofClass p) : Action σ ValueKind) := by
      refine (sure_emit _).bind fun _ => ?_
      split
      · rw [← bind_pure_comp]
        exact (sure_classifyConstExpr lib v).bind fun k => sure_pure _
      · exact sure_pure _
    have hw := hsure w₁
    dsimp only at h
    rw [h] at hw
    exact nomatch hw

/-- Where a gate of values rejects an unknown value, it wraps the value with tolerance, as one of no
class, after the same questions. -/
theorem internValue_unclassified {cx : Context} {h x : ValueRef} {w w' : World σ}
    (hf : (internValue cx h).apply w = (.error (.drift (.unclassifiedValue x)), w')) :
    x = h ∧ ∃ w'', (internValue (under tolerate cx) h).apply (under tolerate w) =
      (.ok (some ⟨w.nextId, under tolerate cx, h, .value⟩), w'') ∧ w''.native = w'.native := by
  cases hn : h.isNull with
  | true =>
    rw [apply_internValue_null hn] at hf
    exact nomatch hf
  | false =>
    cases hl : (w.cachesOf cx).values.lookup w.valueAlive h.address with
    | some v =>
      rw [apply_internValue_hit hn hl] at hf
      exact nomatch hf
    | none =>
      have hl' := w.under_lookup_values tolerate (under tolerate cx) h
      rw [show w.cachesOf (under tolerate cx) = w.cachesOf cx from rfl, hl] at hl'
      rw [apply_internValue_miss hn hl] at hf
      have hc : (classifyValue cx.library h cx.options.unknownValues).apply w =
          (.error (.drift (.unclassifiedValue x)), w') := by
        generalize (classifyValue cx.library h cx.options.unknownValues).apply w = r at hf
        obtain ⟨e | kind, w₁⟩ := r
        · obtain ⟨he, rfl⟩ := Prod.mk.inj hf
          rw [Except.error.inj he]
        · exact nomatch hf
      obtain ⟨rfl, ht⟩ := classifyValue_unclassified hc
      obtain ⟨s, e, hw⟩ := asks_classifyValue cx.library x cx.options.unknownValues w
      rw [hc] at hw
      subst hw
      have ht : (classifyValue (under tolerate cx).library x
          (under tolerate cx).options.unknownValues).apply (under tolerate w) = _ := ht
      rw [apply_internValue_miss hn hl', ht]
      exact ⟨rfl, _, rfl, rfl⟩

end Action

/-! ## Runs -/

namespace Policy

variable {σ : Type}

/-- A move: a request is answered, a reference given up, or something is done to the libraries past
the bindings. -/
inductive Move (σ : Type) where
  | request (q : Request)
  | release (r : Reference)
  | outside (f : σ → σ)

instance : Policed (Move σ) where
  under p
    | .request q => .request (under p q)
    | .release r => .release (under p r)
    | .outside f => .outside f

variable [NativeSystem σ]

/-- What a move tells, and what it leaves. -/
def Move.act (w : World σ) : Move σ → Except Fault (List Item) × World σ
  | request q => q.told.action.apply w
  | release r => (.ok [], w.release r)
  | outside f => (.ok [], { w with native := f w.native })

/-- What moves tell, one after the other, and what they leave. -/
def run (w : World σ) : List (Move σ) → List (Except Fault (List Item)) × World σ
  | [] => ([], w)
  | m :: ms => ((m.act w).1 :: (run (m.act w).2 ms).1, (run (m.act w).2 ms).2)

/-- Put under the tolerant policy, a move does the same, unless it fails on an unknown value. -/
theorem Move.act_under (w : World σ) (m : Move σ) (h : unclassified (m.act w).1 = false) :
    (under tolerate m).act (under tolerate w) = under tolerate (m.act w) := by
  cases m with
  | request q => exact q.follows_told σ w h
  | release r => exact congrArg (Prod.mk _) (w.under_release tolerate r)
  | outside f => rfl

theorem run_under (w : World σ) (ms : List (Move σ))
    (h : ∀ a ∈ (run w ms).1, unclassified a = false) :
    run (under tolerate w) (under tolerate ms) = under tolerate (run w ms) := by
  induction ms generalizing w with
  | nil => rfl
  | cons m ms ih =>
    obtain ⟨hm, hms⟩ := List.forall_mem_cons.mp h
    have ha := m.act_under w hm
    have hr := ih (m.act w).2 hms
    show (((under tolerate m).act (under tolerate w)).1 ::
      (run ((under tolerate m).act (under tolerate w)).2 (under tolerate ms)).1,
        (run ((under tolerate m).act (under tolerate w)).2 (under tolerate ms)).2) = _
    rw [ha, show (under tolerate (m.act w)).2 = under tolerate (m.act w).2 from rfl, hr]
    rfl

/-- What can be seen of two worlds is the same, apart from the options that the objects carry. -/
structure Alike (w w' : World σ) : Prop where
  /-- The libraries, with the calls that they have noted. -/
  native : w'.native = w.native
  /-- The objects that the users hold, with their identities, handles and kinds. -/
  held : w'.held = under tolerate w.held
  liveTypes : ∀ cx, w'.liveTypes cx = w.liveTypes cx
  liveValues : ∀ cx, w'.liveValues cx = w.liveValues cx
  cacheEntries : ∀ cx, w'.cacheEntries cx = w.cacheEntries cx
  hasType : ∀ cx h, w'.hasType cx h = w.hasType cx h
  hasValue : ∀ cx h, w'.hasValue cx h = w.hasValue cx h
  events : w'.events = under tolerate w.events

omit [NativeSystem σ] in
theorem alike_under (w : World σ) : Alike w (under tolerate w) where
  native := rfl
  held := rfl
  liveTypes := w.under_liveTypes tolerate
  liveValues := w.under_liveValues tolerate
  cacheEntries := w.under_cacheEntries tolerate
  hasType := w.under_hasType tolerate
  hasValue := w.under_hasValue tolerate
  events := rfl

omit [NativeSystem σ] in
/-- Of two policies that a move is put under, the later counts. -/
theorem Move.under_under (p q : UnknownValues) (m : Move σ) : under p (under q m) = under p m := by
  have hr (r : Reference) : under p (under q r) = under p r := by cases r <;> rfl
  cases m with
  | request x =>
    refine congrArg Move.request ?_
    cases x with
    | internType via h => exact congrArg (Request.internType · h) (hr via)
    | internValue via h => exact congrArg (Request.internValue · h) (hr via)
    | internBlock via b => exact congrArg (Request.internBlock · b) (hr via)
    | copy r => exact congrArg Request.copy (hr r)
    | contextOf r => exact congrArg Request.contextOf (hr r)
    | _ => rfl
  | release r => exact congrArg Move.release (hr r)
  | outside f => rfl

/-- A request for the wrapper of a value tells of what the gate finds. -/
theorem act_internValue (w : World σ) (via : Reference) (h : ValueRef) :
    (Move.request (.internValue via h)).act w =
      (((Action.internValue via.owner h).apply w).1.map Tells.items,
        ((Action.internValue via.owner h).apply w).2) := by
  have hgate : (Operation.internValue via.owner h).action.apply w =
      (Action.internValue via.owner h).apply w := rfl
  show (Tells.items <$> Operation.internValue via.owner h :
    Operation (List Item)).action.apply w = _
  rw [Operation.apply_map, hgate]
  rcases (Action.internValue via.owner h).apply w with ⟨_ | _, _⟩ <;> rfl

theorem act_internValue_unclassified {w w' : World σ} {via : Reference} {h x : ValueRef}
    (hf : (Move.request (.internValue via h)).act w = (.error (.drift (.unclassifiedValue x)), w')) :
    ∃ w'', w''.native = w'.native ∧
      (under tolerate (Move.request (.internValue via h))).act (under tolerate w) =
        (.ok [.object (.value ⟨w.nextId, under tolerate via.owner, h, .value⟩)], w'') := by
  rw [act_internValue] at hf
  have hgate : (Action.internValue via.owner h).apply w =
      (.error (.drift (.unclassifiedValue x)), w') := by
    generalize (Action.internValue via.owner h).apply w = r at hf ⊢
    obtain ⟨e | v, w₁⟩ := r
    · obtain ⟨he, rfl⟩ := Prod.mk.inj hf
      rw [show e = _ from Except.error.inj he]
    · exact nomatch hf
  obtain ⟨-, w'', ht, hnative⟩ := Action.internValue_unclassified hgate
  refine ⟨w'', hnative, ?_⟩
  show (Move.request (.internValue (under tolerate via) h)).act (under tolerate w) = _
  rw [act_internValue, Reference.under_owner, ht]
  rfl

/-- From the same libraries, the same moves are made once with every option set to reject and once
with every option set to tolerate, and no move of the first run fails on an unknown value. Then both
runs tell the same and leave worlds that look alike; and if the next move is a gate of values that
rejects an unknown value, the same gate wraps it with tolerance, as a value of no class, and leaves
the libraries as the failure does, with the same questions asked. -/
theorem inLockstep (s : σ) (ms : List (Move σ))
    (hms : ∀ a ∈ (run { native := s } (under reject ms)).1, unclassified a = false) :
    let r := run { native := s } (under reject ms)
    let t := run { native := s } (under tolerate ms)
    t.1 = under tolerate r.1 ∧ Alike r.2 t.2 ∧
      ∀ via h x w', (under reject (Move.request (.internValue via h))).act r.2 =
          (.error (.drift (.unclassifiedValue x)), w') →
        ∃ v w'', (under tolerate (Move.request (.internValue via h))).act t.2 =
            (.ok [.object (.value v)], w'') ∧
          v.handle = h ∧ v.kind = .value ∧ w''.native = w'.native := by
  have hmoves : under tolerate (under reject ms) = under tolerate ms := by
    show (ms.map (under reject)).map (under tolerate) = ms.map (under tolerate)
    rw [List.map_map]
    exact congrArg ms.map (funext (Move.under_under tolerate reject))
  have hstart : under tolerate ({ native := s } : World σ) = { native := s } :=
    congrArg (fun l => ({ native := s, events := l } : World σ)) Array.map_empty
  have hrun := run_under { native := s } (under reject ms) hms
  rw [hmoves, hstart] at hrun
  intro r t
  have ht : t = under tolerate r := hrun
  rw [ht]
  refine ⟨rfl, alike_under r.2, fun via h x w' hf => ?_⟩
  obtain ⟨w'', hnative, hact⟩ := act_internValue_unclassified hf
  have hmove : under tolerate ((.request (.internValue (under reject via) h)) : Move σ) =
      under tolerate (.request (.internValue via h)) :=
    Move.under_under tolerate reject (.request (.internValue via h))
  rw [hmove] at hact
  exact ⟨_, w'', hact, rfl, rfl, hnative⟩

/-- An argument is wrapped, and its context is attached a second time; beside the argument there is
a value that belongs to no class. -/
def beforeUnknown : List (Move Recorders) :=
  let cx : Context := ⟨0, ⟨0⟩, ⟨Memory.Graph.baseAddress + 3 * Memory.Graph.stride⟩, true, {}⟩
  let argument := Memory.Graph.newValue {} { probes := [.argument] }
  [.outside fun rs => rs.insert ⟨0⟩ { graph := (argument.2.newValue {}).2 },
    .request (.createContext ⟨0⟩ {}),
    .request (.internValue (.context cx) argument.1),
    .request (.attachContext ⟨0⟩ cx.raw {})]

theorem inLockstep_beforeUnknown :
    let cx : Context := ⟨0, ⟨0⟩, ⟨Memory.Graph.baseAddress + 3 * Memory.Graph.stride⟩, true, {}⟩
    let h : ValueRef := ⟨Memory.Graph.baseAddress + 2 * Memory.Graph.stride⟩
    let r := run { native := ∅ } (under reject beforeUnknown)
    let t := run { native := ∅ } (under tolerate beforeUnknown)
    (∀ a ∈ r.1, unclassified a = false) ∧
      ((under reject (Move.request (.internValue (.context cx) h))).act r.2).1 =
        .error (.drift (.unclassifiedValue h)) ∧
      t.1 = under tolerate r.1 ∧ Alike r.2 t.2 ∧
      ∃ v w'', (under tolerate (Move.request (.internValue (.context cx) h))).act t.2 =
        (.ok [.object (.value v)], w'') ∧ v.handle = h ∧ v.kind = .value := by
  intro cx h r t
  have hms : ∀ a ∈ r.1, unclassified a = false := by decide +kernel
  have hf : ((under reject (Move.request (.internValue (.context cx) h))).act r.2).1 =
      .error (.drift (.unclassifiedValue h)) := by decide +kernel
  obtain ⟨hanswers, halike, hgate⟩ := inLockstep ∅ beforeUnknown hms
  have hpair : (under reject (Move.request (.internValue (.context cx) h))).act r.2 =
      (.error (.drift (.unclassifiedValue h)),
        ((under reject (Move.request (.internValue (.context cx) h))).act r.2).2) := by
    rw [← hf]
  obtain ⟨v, w'', hact, hv, hk, -⟩ := hgate (.context cx) h h _ hpair
  exact ⟨hms, hf, hanswers, halike, v, w'', hact, hv, hk⟩

end Policy

end CanonIR
