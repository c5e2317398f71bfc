import CanonIR.Binding.Classify
import CanonIR.Memory.Library
import CanonIR.Proofs.Taxonomy.Settled

/-!
What classification comes to. A library is steady about a value if it answers the questions about
the value in a fixed way; then the classification of the value is a function of the probes that hold
and of the opcode (`kindOf`), and leaves all but the state of the library and the log as it was
(`apply_classifyValue`). The result is read off the settled node of the probes that hold
(`classifyValue_classified`).
-/

namespace CanonIR

variable {σ : Type} [NativeSystem σ]

/-- As long as `I` holds of its state, a library affirms exactly the probes in `S` of a value, and
reports the opcode number `n`. -/
structure Steady (I : σ → Prop) (lib : LibraryId) (v : ValueRef) (S : Probe → Bool) (n : Nat) :
    Prop where
  isA : ∀ s, I s → ∀ p, ∃ s', NativeSystem.perform lib (.isA v p) s = (.ok (S p), s') ∧ I s'
  constOpcode : ∀ s, I s → ∃ s', NativeSystem.perform lib (.constOpcode v) s = (.ok n, s') ∧ I s'

/-- The kind of a constant expression with an opcode number. -/
def constExprOf (v : ValueRef) (n : Nat) : Except Fault ValueKind :=
  match Opcode.ofNumber? n with
  | none => .error (.drift (.unknownOpcode v n))
  | some o =>
    match o.constExpr? with
    | some k => .ok (.constExpr k)
    | none => .error (.drift (.impossibleConstExpr v o))

/-- The kind of a value that belongs to no class. -/
def unknownOf (v : ValueRef) : UnknownValues → Except Fault ValueKind
  | .reject => .error (.drift (.unclassifiedValue v))
  | .tolerate => .ok .value

/-- The kind of a value of which exactly the probes in `S` hold, with an opcode number. -/
def kindOf (S : Probe → Bool) (n : Nat) (v : ValueRef) (policy : UnknownValues) :
    Except Fault ValueKind :=
  match taxonomy.descend S none with
  | none => unknownOf v policy
  | some p => if p = .constantExpr then constExprOf v n else .ok (.ofClass p)

variable {I : σ → Prop} {lib : LibraryId} {v : ValueRef} {S : Probe → Bool} {n : Nat}

/-! ## Classification in a steady library -/

theorem apply_settle (h : Steady I lib v S n) (f : Forest) (above : Option Probe) (w : World σ)
    (hw : I w.native) :
    ∃ s, I s ∧ (f.settle (fun p => Action.call lib (.isA v p)) above).apply w =
      (.ok (f.descend S above), { w with native := s }) := by
  induction f generalizing above w with
  | empty => exact ⟨w.native, hw, rfl⟩
  | tree p c r ihc ihr =>
    obtain ⟨s, hs, hI⟩ := h.isA w.native hw p
    rw [Forest.settle, Action.apply_bind, Action.apply_call_of_perform hs, Forest.descend]
    by_cases hp : S p = true
    · simp only [hp, if_true]
      exact ihc (some p) { w with native := s } hI
    · simp only [hp]
      exact ihr above { w with native := s } hI

theorem apply_classifyConstExpr (h : Steady I lib v S n) (w : World σ) (hw : I w.native) :
    ∃ s, I s ∧ (ValueKind.constExpr <$> Action.classifyConstExpr lib v).apply w =
      (constExprOf v n, { w with native := s }) := by
  obtain ⟨s, hs, hI⟩ := h.constOpcode w.native hw
  refine ⟨s, hI, ?_⟩
  rw [Action.apply_map, Action.classifyConstExpr, Action.apply_bind, Action.apply_call_of_perform hs,
    constExprOf]
  dsimp only
  cases Opcode.ofNumber? n with
  | none => rfl
  | some o =>
    dsimp only
    cases o.constExpr? <;> rfl

/-- In a steady library, classification changes nothing but the state of the library and the log,
and its result is `kindOf`. -/
theorem apply_classifyValue (h : Steady I lib v S n) (policy : UnknownValues) (w : World σ)
    (hw : I w.native) :
    ∃ s e, I s ∧ (Action.classifyValue lib v policy).apply w =
      (kindOf S n v policy, { w with native := s, events := e }) := by
  obtain ⟨s, hI, hs⟩ := apply_settle h taxonomy none w hw
  rw [Action.classifyValue, Action.apply_bind, hs, kindOf]
  cases taxonomy.descend S none with
  | none => cases policy <;> exact ⟨s, _, hI, rfl⟩
  | some p =>
    simp only [Action.apply_bind, Action.apply_emit]
    by_cases hp : p = .constantExpr
    · obtain ⟨s', hI', hs'⟩ :=
        apply_classifyConstExpr h (World.emit (.chainSettled v p) { w with native := s }) hI
      simp only [hp, if_true] at hs' ⊢
      exact ⟨s', _, hI', hs'⟩
    · simp only [hp, if_false]
      exact ⟨s, _, hI, rfl⟩

/-! ## The settled node decides -/

theorem constExprOf_eq_ok_iff {k : ConstExprKind} :
    constExprOf v n = .ok (.constExpr k) ↔ k.opcode.number = n := by
  constructor
  · intro h
    unfold constExprOf at h
    split at h
    · simp at h
    · next o ho =>
      split at h
      · next k' hk =>
        obtain rfl : k' = k := by simpa using h
        rw [ConstExprKind.constExpr?_eq_some_iff.mp hk]
        exact Opcode.ofNumber?_eq_some_iff.mp ho
      · simp at h
  · intro heq
    subst heq
    rw [constExprOf, Opcode.ofNumber?_number]
    simp only [ConstExprKind.constExpr?_opcode]

theorem constExprOf_eq_unknown_iff :
    constExprOf v n = .error (.drift (.unknownOpcode v n)) ↔ ∀ o : Opcode, o.number ≠ n := by
  constructor
  · rintro h o rfl
    rw [constExprOf, Opcode.ofNumber?_number] at h
    dsimp only at h
    split at h <;> simp at h
  · intro h
    have ho : Opcode.ofNumber? n = none := by
      rw [Option.eq_none_iff_forall_ne_some]
      exact fun o ho => h o (Opcode.ofNumber?_eq_some_iff.mp ho)
    rw [constExprOf, ho]

theorem constExprOf_eq_impossible_iff {o : Opcode} :
    constExprOf v n = .error (.drift (.impossibleConstExpr v o)) ↔
      o.number = n ∧ ∀ k : ConstExprKind, k.opcode ≠ o := by
  constructor
  · intro h
    unfold constExprOf at h
    split at h
    · simp at h
    · next o' ho =>
      split at h
      · simp at h
      · next hk =>
        obtain rfl : o' = o := by simpa using h
        refine ⟨Opcode.ofNumber?_eq_some_iff.mp ho, fun k hko => ?_⟩
        rw [ConstExprKind.constExpr?_eq_some_iff.mpr hko] at hk
        simp at hk
  · intro hx
    obtain ⟨rfl, h⟩ := hx
    have hk : o.constExpr? = none := by
      rw [Option.eq_none_iff_forall_ne_some]
      exact fun k hk => h k (ConstExprKind.constExpr?_eq_some_iff.mp hk)
    rw [constExprOf, Opcode.ofNumber?_number]
    simp only [hk]

/-- A constant expression never ends at the class of all of them. -/
theorem constExprOf_eq_ok {k : ValueKind} (h : constExprOf v n = .ok k) :
    ∃ k', k = .constExpr k' := by
  unfold constExprOf at h
  split at h
  · simp at h
  · split at h
    · next k' _ => exact ⟨k', by simpa using h.symm⟩
    · simp at h

theorem kindOf_of_misses (policy : UnknownValues) (h : taxonomy.Misses S) :
    kindOf S n v policy = unknownOf v policy := by
  rw [kindOf, Forest.descend_of_misses none h]

theorem kindOf_of_settled {a : List Nat} {c : ClassNode} (policy : UnknownValues)
    (h : taxonomy.Settled S a c) :
    kindOf S n v policy =
      if c.probe = .constantExpr then constExprOf v n else .ok (.ofClass c.probe) := by
  have hm : ¬ taxonomy.Misses S := fun hm => by
    obtain ⟨i, b, rfl⟩ := List.exists_cons_of_ne_nil (l := a) (by rintro rfl; simpa using h.node)
    have hi : [i] <+: i :: b := ⟨b, rfl⟩
    obtain ⟨m, hn⟩ := Forest.exists_at?_of_prefix h.node hi (by simp)
    have h1 := hm i m hn
    have h2 := h.mem _ m hi hn
    rw [h1] at h2
    exact Bool.false_ne_true h2
  obtain ⟨a', c', h', hd⟩ := Forest.exists_settled none hm
  obtain ⟨-, rfl⟩ := h.unique h'
  rw [kindOf, hd]

/-- Every class that a returned kind lies under has its probe in the set. -/
theorem mem_of_kindOf_isA {policy : UnknownValues} {k : ValueKind} {q : Probe}
    (hk : kindOf S n v policy = .ok k) (hq : k.isA (.ofClass q) = true) : S q = true := by
  by_cases hm : taxonomy.Misses S
  · rw [kindOf_of_misses policy hm] at hk
    cases policy with
    | reject => simp [unknownOf] at hk
    | tolerate =>
      obtain rfl : ValueKind.value = k := by simpa [unknownOf] using hk
      simp [ValueKind.isA, ValueKind.ancestors, ValueKind.ancestorsUpTo, ValueKind.parent?] at hq
  · obtain ⟨a, c, hs, -⟩ := Forest.exists_settled none hm
    -- Both a class and a constant expression lie under what the settled class lies under.
    have hc : (ValueKind.ofClass c.probe).isA (.ofClass q) = true := by
      rw [kindOf_of_settled policy hs] at hk
      split at hk
      · next hce =>
        obtain ⟨k', rfl⟩ := constExprOf_eq_ok hk
        rw [hce]
        exact ValueKind.isA_constantExpr_of_isA_constExpr hq
      · obtain rfl : ValueKind.ofClass c.probe = k := by simpa using hk
        exact hq
    obtain ⟨b, m, hb, hm, rfl⟩ := ValueKind.isA_at? hs.node hc
    exact hs.mem b m hb hm

/-- What a classification of a value may result in, when exactly the probes in `S` hold of the value
and its opcode number is `n`. -/
structure Classified (S : Probe → Bool) (n : Nat) (v : ValueRef) (policy : UnknownValues)
    (out : Except Fault ValueKind) : Prop where
  /-- Without a probe at the top the policy decides. -/
  rejected : taxonomy.Misses S → policy = .reject → out = .error (.drift (.unclassifiedValue v))
  tolerated : taxonomy.Misses S → policy = .tolerate → out = .ok .value
  /-- Else there is exactly one settled node, and the result is its class, or for the class of all
  constant expressions what the opcode says. -/
  settled : ¬ taxonomy.Misses S → ∃ a c, taxonomy.Settled S a c ∧
    (∀ a' c', taxonomy.Settled S a' c' → a' = a ∧ c' = c) ∧
    (c.probe ≠ .constantExpr → out = .ok (.ofClass c.probe)) ∧
    (c.probe = .constantExpr →
      (∀ k : ConstExprKind, out = .ok (.constExpr k) ↔ k.opcode.number = n) ∧
      (out = .error (.drift (.unknownOpcode v n)) ↔ ∀ o : Opcode, o.number ≠ n) ∧
      (∀ o : Opcode, out = .error (.drift (.impossibleConstExpr v o)) ↔
        o.number = n ∧ ∀ k : ConstExprKind, k.opcode ≠ o))
  ne_constantExpr : out ≠ .ok (.ofClass .constantExpr)
  /-- The probe of every class that the resulting kind lies under holds. -/
  mem_of_isA : ∀ k c q, out = .ok k → ValueKind.probe? c = some q → k.isA c = true → S q = true

theorem classified_kindOf (S : Probe → Bool) (n : Nat) (v : ValueRef) (policy : UnknownValues) :
    Classified S n v policy (kindOf S n v policy) where
  rejected hm hp := by rw [kindOf_of_misses policy hm, hp, unknownOf]
  tolerated hm hp := by rw [kindOf_of_misses policy hm, hp, unknownOf]
  settled hm := by
    obtain ⟨a, c, hc, -⟩ := Forest.exists_settled none hm
    refine ⟨a, c, hc, fun a' c' hc' => hc'.unique hc, ?_, ?_⟩
    · intro hne
      rw [kindOf_of_settled policy hc, if_neg hne]
    · intro he
      rw [kindOf_of_settled policy hc, if_pos he]
      exact ⟨fun k => constExprOf_eq_ok_iff, constExprOf_eq_unknown_iff,
        fun o => constExprOf_eq_impossible_iff⟩
  ne_constantExpr hk := by
    by_cases hm : taxonomy.Misses S
    · rw [kindOf_of_misses policy hm] at hk
      cases policy <;> simp [unknownOf] at hk
    · obtain ⟨a, c, hc, -⟩ := Forest.exists_settled none hm
      rw [kindOf_of_settled policy hc] at hk
      split at hk
      · obtain ⟨k', hk'⟩ := constExprOf_eq_ok hk
        simp at hk'
      · next hne => exact hne (by simpa using hk)
  mem_of_isA k c q hk hq hka := by
    obtain rfl : c = .ofClass q := by
      cases c <;> simp_all [ValueKind.probe?]
    exact mem_of_kindOf_isA hk hka

/-- The value classifier, exactly: in a library that answers in a fixed way, whatever it answers, a
classification results in what the settled node of the probes that hold determines. -/
theorem classifyValue_classified (h : Steady I lib v S n) (policy : UnknownValues) (w : World σ)
    (hw : I w.native) :
    Classified S n v policy ((Action.classifyValue lib v policy).apply w).1 := by
  obtain ⟨s, e, -, hs⟩ := apply_classifyValue h policy w hw
  rw [hs]
  exact classified_kindOf S n v policy

/-! ## The in-memory library -/

/-- The in-memory library is steady about every handle. -/
theorem steady_memory (lib : LibraryId) (v : ValueRef) (g : Memory.Graph) :
    Steady (fun s : Memory.Graph => s = g) lib v
      (fun p => g.ofValue v false (·.probes.contains p)) (g.ofValue v 0 (·.opcode)) where
  isA s hs p := by
    subst hs
    exact ⟨s, rfl, rfl⟩
  constOpcode s hs := by
    subst hs
    exact ⟨s, rfl, rfl⟩

/-- A constant expression with the opcode of an addition: the hypotheses hold, and so does the
conclusion. -/
theorem classifyValue_classified_add :
    let r := Memory.Graph.constExpr {} 8
    let S : Probe → Bool := fun p => [Probe.user, .constant, .constantExpr].contains p
    Steady (fun s : Memory.Graph => s = r.2) ⟨0⟩ r.1 S 8 ∧
      Classified S 8 r.1 .reject
        ((Action.classifyValue ⟨0⟩ r.1 .reject).apply ({ native := r.2 } : World Memory.Graph)).1 :=
  have h := steady_memory ⟨0⟩ (Memory.Graph.constExpr {} 8).1 (Memory.Graph.constExpr {} 8).2
  ⟨h, classifyValue_classified h .reject _ rfl⟩

end CanonIR
