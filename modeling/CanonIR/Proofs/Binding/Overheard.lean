import CanonIR.Proofs.Binding.Classify

/-!
Classification overheard. An exchange is a question put to a library with the answer to it, and a
system is overheard by noting its exchanges next to its state. What a classification asks is
described without any library: `Classifies` relates the exchanges of a classification to its
outcome, so that each question is fixed by the answers before it. Every library takes part in just
one such list of exchanges (`exists_classifies`, `Classifies.apply_classifyValue`).
-/

namespace CanonIR

/-! ## Exchanges -/

/-- A question put to a library, and what came of it. -/
structure Exchange where
  lib : LibraryId
  call : Call
  answer : Except NativeTrap call.Answer

/-- A system with all its exchanges noted, oldest first. -/
structure Overheard (σ : Type) where
  native : σ
  exchanges : List Exchange := []

variable {σ : Type} [NativeSystem σ]

instance : NativeSystem (Overheard σ) where
  perform lib c s :=
    let r := NativeSystem.perform lib c s.native
    (r.1, ⟨r.2, s.exchanges ++ [⟨lib, c, r.1⟩]⟩)
  walkLimit lib s := NativeSystem.walkLimit lib s.native

/-- Asked the questions of a list of exchanges in turn, the libraries give the answers noted there,
and get from one state to another. -/
def Replies : List Exchange → σ → σ → Prop
  | [], s, s' => s' = s
  | x :: t, s, s' => ∃ m, NativeSystem.perform x.lib x.call s = (x.answer, m) ∧ Replies t m s'

variable {t t' : List Exchange}

theorem replies_append {s s' : σ} :
    Replies (t ++ t') s s' ↔ ∃ m, Replies t s m ∧ Replies t' m s' := by
  induction t generalizing s with
  | nil => exact ⟨fun h => ⟨s, rfl, h⟩, fun ⟨m, hm, h⟩ => hm ▸ h⟩
  | cons x t ih =>
    constructor
    · rintro ⟨m, hx, h⟩
      obtain ⟨m', h1, h2⟩ := ih.mp h
      exact ⟨m', ⟨m, hx, h1⟩, h2⟩
    · rintro ⟨m', ⟨m, hx, h1⟩, h2⟩
      exact ⟨m, hx, ih.mpr ⟨m', h1, h2⟩⟩

theorem Overheard.perform_eq {o : Overheard σ} {x : Exchange} {m : σ}
    (h : NativeSystem.perform x.lib x.call o.native = (x.answer, m)) :
    NativeSystem.perform x.lib x.call o = (x.answer, ⟨m, o.exchanges ++ [x]⟩) := by
  simp only [NativeSystem.perform] at h ⊢
  simp only [h]

/-- An overheard system answers as the system does, and notes exactly what was exchanged. -/
theorem Replies.overheard {o : Overheard σ} {s : σ} (h : Replies t o.native s) :
    Replies t o ⟨s, o.exchanges ++ t⟩ := by
  induction t generalizing o with
  | nil =>
    obtain rfl : s = o.native := h
    rw [List.append_nil]
    rfl
  | cons x t ih =>
    obtain ⟨m, hx, h⟩ := h
    have hr := ih (o := ⟨m, o.exchanges ++ [x]⟩) h
    rw [List.append_assoc, List.singleton_append] at hr
    exact ⟨_, Overheard.perform_eq hx, hr⟩

/-! ## Going down the hierarchy -/

/-- The exchanges in which a value is led down a forest from the class `above`, and the class at
which it ends up. -/
inductive Forest.Descends (lib : LibraryId) (v : ValueRef) :
    Option Probe → Forest → List Exchange → Except NativeTrap (Option Probe) → Prop
  | bottom (above : Option Probe) : Descends lib v above .empty [] (.ok above)
  | yes {above : Option Probe} {p : Probe} {c r : Forest} {t : List Exchange}
      {out : Except NativeTrap (Option Probe)} (h : Descends lib v (some p) c t out) :
      Descends lib v above (.tree p c r) (⟨lib, .isA v p, .ok true⟩ :: t) out
  | no {above : Option Probe} {p : Probe} {c r : Forest} {t : List Exchange}
      {out : Except NativeTrap (Option Probe)} (h : Descends lib v above r t out) :
      Descends lib v above (.tree p c r) (⟨lib, .isA v p, .ok false⟩ :: t) out
  | trapped (above : Option Probe) (p : Probe) (c r : Forest) (e : NativeTrap) :
      Descends lib v above (.tree p c r) [⟨lib, .isA v p, .error e⟩] (.error e)

variable {lib : LibraryId} {v : ValueRef} {policy : UnknownValues}

theorem Forest.exists_descends (lib : LibraryId) (v : ValueRef) (above : Option Probe) (f : Forest)
    (s : σ) : ∃ t out s', Descends lib v above f t out ∧ Replies t s s' := by
  induction f generalizing above s with
  | empty => exact ⟨[], _, s, .bottom above, rfl⟩
  | tree p c r ihc ihr =>
    rcases h : NativeSystem.perform lib (.isA v p) s with ⟨e | _ | _, m⟩
    · exact ⟨_, _, m, .trapped above p c r e, m, h, rfl⟩
    · obtain ⟨t, out, s', hd, hs⟩ := ihr above m
      exact ⟨_, out, s', .no hd, m, h, hs⟩
    · obtain ⟨t, out, s', hd, hs⟩ := ihc (some p) m
      exact ⟨_, out, s', .yes hd, m, h, hs⟩

/-- The fault that a trap of a library comes out as. -/
def NativeTrap.fault (t : NativeTrap) : Fault := .trap t.message

theorem NativeTrap.mapError_ok {α : Type} (x : α) :
    (Except.ok x : Except NativeTrap α).mapError fault = .ok x :=
  rfl

theorem Action.apply_call_of_reply {c : Call} {a : Except NativeTrap c.Answer} {w : World σ} {s : σ}
    (h : NativeSystem.perform lib c w.native = (a, s)) :
    (Action.call lib c).apply w = (a.mapError NativeTrap.fault, { w with native := s }) := by
  rw [Action.apply_call, h]
  rfl

/-- A library that takes part in a descent leads the value down as the descent says. -/
theorem Forest.Descends.apply_settle {above : Option Probe} {f : Forest}
    {out : Except NativeTrap (Option Probe)} {w : World σ} {s : σ}
    (h : f.Descends lib v above t out) (hs : Replies t w.native s) :
    (f.settle (fun p => Action.call lib (.isA v p)) above).apply w =
      (out.mapError NativeTrap.fault, { w with native := s }) := by
  induction h generalizing w with
  | bottom above =>
    obtain rfl : s = w.native := hs
    rfl
  | yes _ ih =>
    obtain ⟨m, hx, hs⟩ := hs
    rw [Forest.settle, Action.apply_bind, Action.apply_call_of_reply hx]
    exact ih (w := { w with native := m }) hs
  | no _ ih =>
    obtain ⟨m, hx, hs⟩ := hs
    rw [Forest.settle, Action.apply_bind, Action.apply_call_of_reply hx]
    exact ih (w := { w with native := m }) hs
  | trapped above p c r e =>
    obtain ⟨m, hx, hs⟩ := hs
    obtain rfl : s = m := hs
    rw [Forest.settle, Action.apply_bind, Action.apply_call_of_reply hx]
    rfl

/-! ## Whole classifications -/

/-- The exchanges in which a value is classified, and the outcome. -/
inductive Classifies (lib : LibraryId) (v : ValueRef) (policy : UnknownValues) :
    List Exchange → Except Fault ValueKind → Prop
  | trapped {t : List Exchange} {e : NativeTrap}
      (h : taxonomy.Descends lib v none t (.error e)) : Classifies lib v policy t (.error e.fault)
  | unknown {t : List Exchange} (h : taxonomy.Descends lib v none t (.ok none)) :
      Classifies lib v policy t (unknownOf v policy)
  | settled {t : List Exchange} {p : Probe} (h : taxonomy.Descends lib v none t (.ok (some p)))
      (hp : p ≠ .constantExpr) : Classifies lib v policy t (.ok (.ofClass p))
  | opcode {t : List Exchange} {n : Nat}
      (h : taxonomy.Descends lib v none t (.ok (some .constantExpr))) :
      Classifies lib v policy (t ++ [⟨lib, .constOpcode v, .ok n⟩]) (constExprOf v n)
  | opcodeTrapped {t : List Exchange} {e : NativeTrap}
      (h : taxonomy.Descends lib v none t (.ok (some .constantExpr))) :
      Classifies lib v policy (t ++ [⟨lib, .constOpcode v, .error e⟩]) (.error e.fault)

theorem exists_classifies (lib : LibraryId) (v : ValueRef) (policy : UnknownValues) (s : σ) :
    ∃ t out s', Classifies lib v policy t out ∧ Replies t s s' := by
  obtain ⟨t, out, m, h, hs⟩ := taxonomy.exists_descends lib v none s
  match out, h with
  | .error e, h => exact ⟨t, _, m, .trapped h, hs⟩
  | .ok none, h => exact ⟨t, _, m, .unknown h, hs⟩
  | .ok (some p), h =>
    by_cases hp : p = .constantExpr
    · subst hp
      rcases ho : NativeSystem.perform lib (.constOpcode v) m with ⟨e | n, s'⟩
      · exact ⟨_, _, s', .opcodeTrapped h, replies_append.mpr ⟨m, hs, s', ho, rfl⟩⟩
      · exact ⟨_, _, s', .opcode h, replies_append.mpr ⟨m, hs, s', ho, rfl⟩⟩
    · exact ⟨t, _, m, .settled h hp, hs⟩

/-- What becomes of a constant expression once its opcode has been asked for. -/
theorem apply_classifyConstExpr_of_reply {a : Except NativeTrap Nat} {w : World σ} {s : σ}
    (h : NativeSystem.perform lib (.constOpcode v) w.native = (a, s)) :
    (ValueKind.constExpr <$> Action.classifyConstExpr lib v).apply w =
      ((a.mapError NativeTrap.fault).bind (constExprOf v), { w with native := s }) := by
  rw [Action.apply_map, Action.classifyConstExpr, Action.apply_bind, Action.apply_call_of_reply h]
  cases a with
  | error e => rfl
  | ok n =>
    simp only [NativeTrap.mapError_ok, Except.bind, constExprOf]
    cases Opcode.ofNumber? n with
    | none => rfl
    | some o =>
      dsimp only
      cases o.constExpr? <;> rfl

/-- A library that takes part in the exchanges of a classification classifies the value so, and does
nothing else but to grow the log. -/
theorem Classifies.apply_classifyValue {out : Except Fault ValueKind} {w : World σ} {s : σ}
    (h : Classifies lib v policy t out) (hs : Replies t w.native s) :
    ∃ e, (Action.classifyValue lib v policy).apply w =
      (out, { w with native := s, events := e }) := by
  rw [Action.classifyValue, Action.apply_bind]
  cases h with
  | trapped h =>
    rw [h.apply_settle hs]
    exact ⟨_, rfl⟩
  | unknown h =>
    rw [h.apply_settle hs]
    cases policy <;> exact ⟨_, rfl⟩
  | settled h hp =>
    rw [h.apply_settle hs]
    simp only [NativeTrap.mapError_ok, Action.apply_bind, Action.apply_emit, if_neg hp]
    exact ⟨_, rfl⟩
  | opcode h =>
    obtain ⟨m, hs, s', ho, rfl⟩ := replies_append.mp hs
    rw [h.apply_settle hs]
    simp only [NativeTrap.mapError_ok, Action.apply_bind, Action.apply_emit, if_true]
    exact ⟨_, apply_classifyConstExpr_of_reply
      (w := World.emit (.chainSettled v .constantExpr) { w with native := m }) ho⟩
  | opcodeTrapped h =>
    obtain ⟨m, hs, s', ho, rfl⟩ := replies_append.mp hs
    rw [h.apply_settle hs]
    simp only [NativeTrap.mapError_ok, Action.apply_bind, Action.apply_emit, if_true]
    exact ⟨_, apply_classifyConstExpr_of_reply
      (w := World.emit (.chainSettled v .constantExpr) { w with native := m }) ho⟩

end CanonIR
