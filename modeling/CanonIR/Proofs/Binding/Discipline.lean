import Mathlib.Data.List.Nodup
import CanonIR.Proofs.Binding.Overheard

/-!
The discipline of classification. Some questions may only be put to a value once others have been
answered: whether an instruction is a terminator, for one, is undefined for what is no instruction.
`Disciplined` says of a list of exchanges which questions came when; by
`classifyValue_disciplined` it holds of every classification in every library, and what is asked and
found depends on nothing but the answers.
-/

namespace CanonIR

/-- The exchange in which a value was found to be of a class, or not. -/
def Exchange.isA (lib : LibraryId) (v : ValueRef) (p : Probe) (holds : Bool) : Exchange :=
  ⟨lib, .isA v p, .ok holds⟩

/-- In the course of a list of exchanges a call was made right after the exchanges `before`. -/
def AskedAfter (t before : List Exchange) (c : Call) : Prop :=
  ∃ x after, t = before ++ x :: after ∧ x.call = c

variable {t t' before : List Exchange} {c : Call} {x : Exchange}

theorem not_askedAfter_nil : ¬ AskedAfter [] before c := by
  rintro ⟨x, after, h, -⟩
  simp at h

theorem askedAfter_cons :
    AskedAfter (x :: t) before c ↔
      before = [] ∧ x.call = c ∨ ∃ b, before = x :: b ∧ AskedAfter t b c := by
  constructor
  · rintro ⟨y, after, h, hc⟩
    cases before with
    | nil =>
      obtain ⟨rfl, -⟩ := List.cons.inj h
      exact Or.inl ⟨rfl, hc⟩
    | cons z b =>
      obtain ⟨rfl, ht⟩ := List.cons.inj h
      exact Or.inr ⟨b, rfl, y, after, ht, hc⟩
  · rintro (⟨rfl, hc⟩ | ⟨b, rfl, y, after, rfl, hc⟩)
    · exact ⟨x, t, rfl, hc⟩
    · exact ⟨y, after, rfl, hc⟩

theorem AskedAfter.mem (h : AskedAfter t before c) : c ∈ t.map (·.call) := by
  obtain ⟨x, after, rfl, rfl⟩ := h
  exact List.mem_map_of_mem (List.mem_append_right _ List.mem_cons_self)

theorem exists_askedAfter (h : c ∈ t.map (·.call)) : ∃ before, AskedAfter t before c := by
  obtain ⟨x, hx, hc⟩ := List.mem_map.mp h
  obtain ⟨before, after, ht⟩ := List.append_of_mem hx
  exact ⟨before, x, after, ht, hc⟩

theorem AskedAfter.mem_of_mem (h : AskedAfter t before c) (hx : x ∈ before) : x ∈ t := by
  obtain ⟨y, after, rfl, -⟩ := h
  exact List.mem_append_left _ hx

/-- After one more exchange, a call was made before it or is that exchange's own. -/
theorem askedAfter_concat (h : AskedAfter (t ++ [x]) before c) :
    AskedAfter t before c ∨ before = t ∧ x.call = c := by
  induction t generalizing before with
  | nil =>
    rcases askedAfter_cons.mp h with ⟨rfl, hc⟩ | ⟨b, -, hb⟩
    · exact Or.inr ⟨rfl, hc⟩
    · exact absurd hb not_askedAfter_nil
  | cons y t ih =>
    rcases askedAfter_cons.mp h with ⟨rfl, hc⟩ | ⟨b, rfl, hb⟩
    · exact Or.inl (askedAfter_cons.mpr (Or.inl ⟨rfl, hc⟩))
    · rcases ih hb with hb | ⟨rfl, hc⟩
      · exact Or.inl (askedAfter_cons.mpr (Or.inr ⟨b, rfl, hb⟩))
      · exact Or.inr ⟨rfl, hc⟩

/-! ## Walks down a forest -/

namespace Forest

/-- In the course of a list of exchanges a value was led down a forest in good order. -/
structure Walked (lib : LibraryId) (v : ValueRef) (f : Forest) (t : List Exchange) : Prop where
  /-- Only the probes of the forest were asked. -/
  questions : ∀ x ∈ t, x.lib = lib ∧ ∃ p ∈ f.probes, x.call = .isA v p
  once : (t.map (·.call)).Nodup
  /-- The children of a node were asked for after the node had been found to hold. -/
  parent : ∀ a i m n before, f.at? a = some n → f.at? (a ++ [i]) = some m →
    AskedAfter t before (.isA v m.probe) → Exchange.isA lib v n.probe true ∈ before
  /-- Each node was asked for after its earlier siblings had been found not to hold. -/
  earlier : ∀ a i j m n before, f.at? (a ++ [j]) = some n → j < i → f.at? (a ++ [i]) = some m →
    AskedAfter t before (.isA v m.probe) → Exchange.isA lib v n.probe false ∈ before

variable {lib : LibraryId} {v : ValueRef} {f c r : Forest} {p : Probe} {above : Option Probe}
  {out : Except NativeTrap (Option Probe)}

theorem Walked.mem_probes (h : Walked lib v f t) {q : Probe}
    (hq : AskedAfter t before (.isA v q)) : q ∈ f.probes := by
  obtain ⟨x, hx, hc⟩ := List.mem_map.mp hq.mem
  obtain ⟨-, p, hp, hxp⟩ := h.questions x hx
  obtain ⟨-, rfl⟩ := Call.isA.inj (hc.symm.trans hxp)
  exact hp

theorem walked_nil (lib : LibraryId) (v : ValueRef) (f : Forest) : Walked lib v f [] where
  questions x hx := by simp at hx
  once := List.nodup_nil
  parent _ _ _ _ _ _ _ h := absurd h not_askedAfter_nil
  earlier _ _ _ _ _ _ _ _ _ h := absurd h not_askedAfter_nil

/-- A question that is asked after the one for the first tree is for a node on the way that the
answer `b` opened: below the first tree, or among the later trees. -/
theorem Walked.onward {b : Bool} {a : List Nat} {m : ClassNode}
    (hd : (tree p c r).probes.Nodup) (h : Walked lib v (if b then c else r) t)
    (hm : (tree p c r).at? a = some m)
    (hq : AskedAfter (Exchange.isA lib v p b :: t) before (.isA v m.probe)) :
    a = [0] ∨ ∃ s, before = Exchange.isA lib v p b :: s ∧ AskedAfter t s (.isA v m.probe) ∧
      (b = true ∧ (∃ a', a = 0 :: a' ∧ c.at? a' = some m) ∨
        b = false ∧ ∃ i a', a = (i + 1) :: a' ∧ r.at? (i :: a') = some m) := by
  rw [probes, List.nodup_cons, List.mem_append, not_or, List.nodup_append] at hd
  obtain ⟨⟨hpc, hpr⟩, -, -, hcr⟩ := hd
  rcases at?_tree_cases hm with ⟨ha, -⟩ | ⟨a', ha, hc⟩ | ⟨i, a', ha, hr⟩
  · exact Or.inl ha
  · right
    have hmc := probe_mem_of_at? hc
    rcases askedAfter_cons.mp hq with ⟨-, hx⟩ | ⟨s, hs, hqs⟩
    · exact absurd ((Call.isA.inj hx).2 ▸ hmc) hpc
    · cases b with
      | true => exact ⟨s, hs, hqs, Or.inl ⟨rfl, a', ha, hc⟩⟩
      | false => exact absurd rfl (hcr _ hmc _ (h.mem_probes hqs))
  · right
    have hmr := probe_mem_of_at? hr
    rcases askedAfter_cons.mp hq with ⟨-, hx⟩ | ⟨s, hs, hqs⟩
    · exact absurd ((Call.isA.inj hx).2 ▸ hmr) hpr
    · cases b with
      | true => exact absurd rfl (hcr _ (h.mem_probes hqs) _ hmr)
      | false => exact ⟨s, hs, hqs, Or.inr ⟨rfl, i, a', ha, hr⟩⟩

/-- After the question for the first tree a value is led on, down its children or along the later
trees; the whole way is in order if the rest is. -/
theorem Walked.cons {b : Bool} (hd : (tree p c r).probes.Nodup)
    (h : Walked lib v (if b then c else r) t) :
    Walked lib v (tree p c r) (Exchange.isA lib v p b :: t) := by
  have hsub : ∀ q ∈ (if b then c else r).probes, q ∈ c.probes ++ r.probes := by
    cases b
    · exact fun q hq => List.mem_append_right _ hq
    · exact fun q hq => List.mem_append_left _ hq
  constructor
  case questions =>
    intro x hx
    rcases List.mem_cons.mp hx with rfl | hx
    · exact ⟨rfl, p, List.mem_cons_self, rfl⟩
    · obtain ⟨hl, q, hq, hc⟩ := h.questions x hx
      exact ⟨hl, q, List.mem_cons_of_mem _ (hsub q hq), hc⟩
  case once =>
    rw [List.map_cons, List.nodup_cons]
    refine ⟨fun hmem => ?_, h.once⟩
    obtain ⟨x, hx, hc⟩ := List.mem_map.mp hmem
    obtain ⟨-, q, hq, hxq⟩ := h.questions x hx
    obtain ⟨-, rfl⟩ := Call.isA.inj (hc.symm.trans hxq)
    exact (List.nodup_cons.mp hd).1 (hsub p hq)
  case parent =>
    intro a i m n before hn hm hq
    obtain ⟨k, a, rfl⟩ := List.exists_cons_of_ne_nil (l := a) (by rintro rfl; simp at hn)
    rcases h.onward hd hm hq with ha | ⟨s, rfl, hs, ⟨rfl, a', ha, hc⟩ | ⟨rfl, k', a', ha, hr⟩⟩
    · simp at ha
    · obtain ⟨rfl, rfl⟩ := List.cons.inj ha
      cases a with
      | nil =>
        -- The parent is the first tree itself, whose answer led here.
        obtain rfl : (⟨p, c⟩ : ClassNode) = n := Option.some.inj hn
        exact List.mem_cons_self
      | cons k a => exact List.mem_cons_of_mem _ (h.parent (k :: a) i m n s hn hc hs)
    · obtain ⟨rfl, rfl⟩ := List.cons.inj ha
      exact List.mem_cons_of_mem _ (h.parent (k' :: a) i m n s (at?_succ.symm.trans hn) hr hs)
  case earlier =>
    intro a i j m n before hn hj hm hq
    rcases h.onward hd hm hq with ha | ⟨s, rfl, hs, ⟨rfl, a', ha, hc⟩ | ⟨rfl, k', a', ha, hr⟩⟩
    · obtain ⟨rfl, hi⟩ : a = [] ∧ [i] = [0] := List.append_eq_singleton_iff.mp ha |>.resolve_right
        (by simp)
      simp at hi
      omega
    · cases a with
      | nil =>
        have hi : i = 0 := (List.cons.inj ha).1
        omega
      | cons k a =>
        obtain ⟨rfl, rfl⟩ := List.cons.inj ha
        rw [List.cons_append, at?_zero_cons (by simp)] at hn
        exact List.mem_cons_of_mem _ (h.earlier a i j m n s hn hj hc hs)
    · cases a with
      | nil =>
        obtain ⟨rfl, rfl⟩ := List.cons.inj ha
        cases j with
        | zero =>
          -- The earlier sibling is the first tree, whose answer led past it.
          obtain rfl : (⟨p, c⟩ : ClassNode) = n := Option.some.inj hn
          exact List.mem_cons_self
        | succ j =>
          exact List.mem_cons_of_mem _
            (h.earlier [] k' j m n s (at?_succ.symm.trans hn) (by omega) hr hs)
      | cons k a =>
        obtain ⟨rfl, rfl⟩ := List.cons.inj ha
        rw [List.cons_append, at?_succ] at hn
        exact List.mem_cons_of_mem _ (h.earlier (k' :: a) i j m n s hn hj hr hs)

/-- A single question is in order whatever the answer to it. -/
theorem Walked.of_call {x y : Exchange} (h : Walked lib v f [x]) (hl : y.lib = x.lib)
    (hc : y.call = x.call) : Walked lib v f [y] := by
  have hasked {before : List Exchange} {c : Call} (hq : AskedAfter [y] before c) :
      AskedAfter [x] before c := by
    rcases askedAfter_cons.mp hq with ⟨hb, hy⟩ | ⟨s, -, hs⟩
    · exact askedAfter_cons.mpr (Or.inl ⟨hb, hc.symm.trans hy⟩)
    · exact absurd hs not_askedAfter_nil
  constructor
  · intro z hz
    obtain rfl := List.mem_singleton.mp hz
    rw [hl, hc]
    exact h.questions x List.mem_cons_self
  · exact List.nodup_cons.mpr ⟨List.not_mem_nil, List.nodup_nil⟩
  · exact fun a i m n before hn hm hq => h.parent a i m n before hn hm (hasked hq)
  · exact fun a i j m n before hn hj hm hq => h.earlier a i j m n before hn hj hm (hasked hq)

/-- A descent is in order, as long as no probe stands in the forest twice. -/
theorem Descends.walked (h : f.Descends lib v above t out) (hd : f.probes.Nodup) :
    Walked lib v f t := by
  induction h with
  | bottom above => exact walked_nil lib v .empty
  | yes _ ih =>
    exact Walked.cons hd (b := true) (ih (List.nodup_append.mp (List.nodup_cons.mp hd).2).1)
  | no _ ih =>
    exact Walked.cons hd (b := false) (ih (List.nodup_append.mp (List.nodup_cons.mp hd).2).2.1)
  | trapped above p c r e =>
    exact (Walked.cons (b := true) hd (walked_nil lib v c)).of_call rfl rfl

/-- The class where a descent ends was found to hold, unless it is where the descent started. -/
theorem Descends.affirmed {q : Probe} (h : f.Descends lib v above t (.ok (some q))) :
    above = some q ∨ Exchange.isA lib v q true ∈ t := by
  generalize hout : (Except.ok (some q) : Except NativeTrap (Option Probe)) = out at h
  induction h with
  | bottom above => exact Or.inl (Except.ok.inj hout).symm
  | yes _ ih =>
    rcases ih hout with hq | hq
    · obtain rfl := Option.some.inj hq
      exact Or.inr List.mem_cons_self
    · exact Or.inr (List.mem_cons_of_mem _ hq)
  | no _ ih => exact (ih hout).imp_right (List.mem_cons_of_mem _)
  | trapped => simp at hout

end Forest

/-! ## The discipline -/

/-- Which questions are put in the course of a classification, and when. -/
structure Disciplined (lib : LibraryId) (v : ValueRef) (t : List Exchange) : Prop where
  /-- Of the value in question only its classes and its opcode are asked. -/
  questions : ∀ x ∈ t, x.lib = lib ∧
    (x.call = .constOpcode v ∨ ∃ a n, taxonomy.at? a = some n ∧ x.call = .isA v n.probe)
  /-- No probe is asked twice, and neither is the opcode. -/
  once : (t.map (·.call)).Nodup
  /-- A class below another one is asked for after the value was found to be of that one. -/
  parent : ∀ a i m n before, taxonomy.at? a = some n → taxonomy.at? (a ++ [i]) = some m →
    AskedAfter t before (.isA v m.probe) → Exchange.isA lib v n.probe true ∈ before
  /-- A class is asked for after all those before it at its level, to which the value did not
  belong. -/
  earlier : ∀ a i j m n before, taxonomy.at? (a ++ [j]) = some n → j < i →
    taxonomy.at? (a ++ [i]) = some m → AskedAfter t before (.isA v m.probe) →
    Exchange.isA lib v n.probe false ∈ before
  /-- Once the value was found to be of a class, none of the later ones at the level is asked for. -/
  settled : ∀ a i j m n, taxonomy.at? (a ++ [j]) = some n → j < i →
    taxonomy.at? (a ++ [i]) = some m → Exchange.isA lib v n.probe true ∈ t →
    .isA v m.probe ∉ t.map (·.call)
  /-- Only instructions are asked whether they are terminators. -/
  terminator : ∀ before, AskedAfter t before (.isA v .terminatorInst) →
    Exchange.isA lib v .instruction true ∈ before
  /-- Only constant expressions are asked for their opcode. -/
  opcode : ∀ before, AskedAfter t before (.constOpcode v) →
    Exchange.isA lib v .constantExpr true ∈ before

variable {lib : LibraryId} {v : ValueRef} {policy : UnknownValues}

/-- The terminators stand right below the instructions. -/
theorem exists_position_terminatorInst : ∃ a i m n, taxonomy.at? a = some n ∧
    taxonomy.at? (a ++ [i]) = some m ∧ n.probe = .instruction ∧ m.probe = .terminatorInst := by
  have hmem : .terminatorInst ∈ taxonomy.probes := by decide +kernel
  have hparent : taxonomy.parentIn? some .terminatorInst none = some (some .instruction) := by
    decide +kernel
  obtain ⟨a, m, hm, hp⟩ := Forest.exists_at?_of_mem_probes hmem
  have ha : a ≠ [] := by
    rintro rfl
    simp at hm
  rw [← List.dropLast_concat_getLast ha] at hm
  rw [← hp] at hparent
  rcases Forest.parentIn?_at? some none ValueKind.nodup_probes_taxonomy hm with
    ⟨-, h⟩ | ⟨n, hn, h⟩
  · simp [h] at hparent
  · rw [h, Option.some.injEq, Option.some.injEq] at hparent
    exact ⟨_, _, m, n, hn, hm, hparent, hp⟩

theorem Forest.Walked.disciplined (h : Walked lib v taxonomy t) : Disciplined lib v t where
  questions x hx := by
    obtain ⟨hl, p, hp, hc⟩ := h.questions x hx
    obtain ⟨a, n, ha, rfl⟩ := exists_at?_of_mem_probes hp
    exact ⟨hl, Or.inr ⟨a, n, ha, hc⟩⟩
  once := h.once
  parent := h.parent
  earlier := h.earlier
  settled a i j m n hn hj hm htrue hmem := by
    obtain ⟨before, hq⟩ := exists_askedAfter hmem
    have hfalse := hq.mem_of_mem (h.earlier a i j m n before hn hj hm hq)
    have heq := List.inj_on_of_nodup_map h.once htrue hfalse rfl
    simp [Exchange.isA] at heq
  terminator before hq := by
    obtain ⟨a, i, m, n, hn, hm, hi, ht⟩ := exists_position_terminatorInst
    rw [← ht] at hq
    exact hi ▸ h.parent a i m n before hn hm hq
  opcode before hq := by
    obtain ⟨x, hx, hc⟩ := List.mem_map.mp hq.mem
    obtain ⟨-, p, -, hp⟩ := h.questions x hx
    simp [hp] at hc

/-- Once a value was found to be a constant expression, it may be asked for its opcode. -/
theorem Forest.Walked.disciplined_opcode (h : Walked lib v taxonomy t)
    (hx : Exchange.isA lib v .constantExpr true ∈ t) (a : Except NativeTrap Nat) :
    Disciplined lib v (t ++ [⟨lib, .constOpcode v, a⟩]) := by
  have hd := h.disciplined
  have hasked {before : List Exchange} {p : Probe}
      (hq : AskedAfter (t ++ [⟨lib, .constOpcode v, a⟩]) before (.isA v p)) :
      AskedAfter t before (.isA v p) := by
    rcases askedAfter_concat hq with hq | ⟨-, hc⟩
    · exact hq
    · simp at hc
  have hnone {before : List Exchange} : ¬ AskedAfter t before (.constOpcode v) := by
    intro hq
    obtain ⟨x, hx, hc⟩ := List.mem_map.mp hq.mem
    obtain ⟨-, p, -, hp⟩ := h.questions x hx
    simp [hp] at hc
  constructor
  case questions =>
    intro x hx
    rcases List.mem_append.mp hx with hx | hx
    · exact hd.questions x hx
    · obtain rfl := List.mem_singleton.mp hx
      exact ⟨rfl, Or.inl rfl⟩
  case once =>
    rw [List.map_append, List.map_singleton, ← List.concat_eq_append, List.nodup_concat]
    refine ⟨fun hmem => ?_, h.once⟩
    obtain ⟨before, hq⟩ := exists_askedAfter hmem
    exact hnone hq
  case parent => exact fun a i m n before hn hm hq => hd.parent a i m n before hn hm (hasked hq)
  case earlier =>
    exact fun a i j m n before hn hj hm hq => hd.earlier a i j m n before hn hj hm (hasked hq)
  case settled =>
    intro a i j m n hn hj hm htrue hmem
    obtain ⟨before, hq⟩ := exists_askedAfter hmem
    refine hd.settled a i j m n hn hj hm ?_ (hasked hq).mem
    rcases List.mem_append.mp htrue with htrue | htrue
    · exact htrue
    · simp [Exchange.isA] at htrue
  case terminator => exact fun before hq => hd.terminator before (hasked hq)
  case opcode =>
    intro before hq
    rcases askedAfter_concat hq with hq | ⟨rfl, -⟩
    · exact absurd hq hnone
    · exact hx

theorem Classifies.disciplined {out : Except Fault ValueKind} (h : Classifies lib v policy t out) :
    Disciplined lib v t := by
  have hd := ValueKind.nodup_probes_taxonomy
  cases h with
  | trapped h => exact (h.walked hd).disciplined
  | unknown h => exact (h.walked hd).disciplined
  | settled h _ => exact (h.walked hd).disciplined
  | opcode h =>
    exact (h.walked hd).disciplined_opcode (h.affirmed.resolve_left (by simp)) _
  | opcodeTrapped h =>
    exact (h.walked hd).disciplined_opcode (h.affirmed.resolve_left (by simp)) _

/-- A list of exchanges decides a classification: a library that would give the answers noted there
to the questions noted there is asked just these questions, and the value is found to be `out`. -/
structure Decisive (lib : LibraryId) (v : ValueRef) (policy : UnknownValues) (t : List Exchange)
    (out : Except Fault ValueKind) : Prop where
  asked : ∀ (τ : Type) [NativeSystem τ] (u : World (Overheard τ)) (s : τ),
    Replies t u.native.native s →
    ((Action.classifyValue lib v policy).apply u).2.native.exchanges = u.native.exchanges ++ t
  found : ∀ (τ : Type) [NativeSystem τ] (u : World τ) (s : τ), Replies t u.native s →
    ((Action.classifyValue lib v policy).apply u).1 = out

theorem Classifies.decisive {out : Except Fault ValueKind} (h : Classifies lib v policy t out) :
    Decisive lib v policy t out where
  asked τ _ u s hs := by
    obtain ⟨e, he⟩ := h.apply_classifyValue hs.overheard
    rw [he]
  found τ _ u s hs := by
    obtain ⟨e, he⟩ := h.apply_classifyValue hs
    rw [he]

/-- A classification, in whatever library it takes place, asks its questions in good order, and
depends on nothing but the answers to them: another library that answers these questions alike is
asked the same, and the value is found to be the same there. -/
theorem classifyValue_disciplined {σ : Type} [NativeSystem σ] (lib : LibraryId) (v : ValueRef)
    (policy : UnknownValues) (w : World (Overheard σ)) :
    ∃ t, ((Action.classifyValue lib v policy).apply w).2.native.exchanges =
        w.native.exchanges ++ t ∧
      (∃ s, Replies t w.native.native s) ∧
      Disciplined lib v t ∧
      Decisive lib v policy t ((Action.classifyValue lib v policy).apply w).1 := by
  obtain ⟨t, out, s, h, hs⟩ := exists_classifies lib v policy w.native.native
  have hd := h.decisive
  rw [← hd.found _ w _ hs.overheard] at hd
  exact ⟨t, hd.asked σ w s hs, ⟨s, hs⟩, h.disciplined, hd⟩

end CanonIR
