import CanonIR.Proofs.Flow.Routed
import CanonIR.Proofs.Freshness.Current
import CanonIR.Proofs.Identity.Frame
import CanonIR.Proofs.Memory.Growth

/-!
Plans: graphs that are built up with a record of their branches. Steps that are in order keep a plan
laid out (`Laid.next`), which ties the record to what the library answers: the terminator of a block
leads to the targets of its branch (`Laid.blockTerminator`), and the users of a block that are
terminators are the branches to it (`Laid.user`, `Fed`).
-/

namespace CanonIR.Memory

structure Plan where
  graph : Graph := {}
  /-- The branches, in the order in which they were made. -/
  branches : List Branch := []

namespace Plan

/-- The blocks that the branch of a block leads to; none if it has no branch. -/
def targets (p : Plan) (b : BlockRef) : List BlockRef :=
  (p.branches.find? (·.block == b)).elim [] (·.targets)

/-- The blocks whose branches lead to a block, in the order of the branches. -/
def sources (p : Plan) (b : BlockRef) : List BlockRef :=
  (p.branches.filter (b ∈ ·.targets)).map (·.block)

/-! ## Steps -/

inductive Step where
  /-- The library is changed past the bindings. -/
  | build (x : Change)
  | call (c : Call)

instance {ε α : Type} (x : Except ε α) (P : α → Prop) [DecidablePred P] :
    Decidable (∃ a, x = .ok a ∧ P a) :=
  match x with
  | .ok a => decidable_of_iff (P a) ⟨fun h => ⟨a, rfl, h⟩, fun ⟨_, ha, h⟩ => Except.ok.inj ha ▸ h⟩
  | .error _ => .isFalse fun ⟨_, ha, _⟩ => nomatch ha

instance {ε α : Type} (x : Except ε α) : Decidable (∃ a, x = .ok a) :=
  match x with
  | .ok a => .isTrue ⟨a, rfl⟩
  | .error _ => .isFalse fun ⟨_, ha⟩ => nomatch ha

/-- A living block that no branch has ended yet. -/
def Open (p : Plan) (b : BlockRef) : Prop :=
  p.graph.blocks.contains b = true ∧ b ∉ p.branches.map (·.block)

instance (p : Plan) (b : BlockRef) : Decidable (p.Open b) := inferInstanceAs (Decidable (_ ∧ _))

/-- Steps in order. Instructions go to open blocks and can be classified, branches lead from open
blocks to living ones, only branches are terminators that use something, and no block is deleted. -/
def Orderly (policy : UnknownValues) (p : Plan) : Step → Prop
  | .build (.newValue entry) => entry.successors = [] ∧ entry.uses = []
  | .build (.addUse _ user) => p.graph.values.contains user = true ∧
    ∃ k, p.graph.valueKind user policy = .ok k ∧ k.isA (.ofClass .terminatorInst) = false
  | .build (.instruction b probes opcode) => p.Open b ∧
    let i := p.graph.instruction b probes opcode
    ∃ k, i.2.valueKind i.1 policy = .ok k
  | .build (.branch b targets) => p.Open b ∧ ∀ t ∈ targets, p.graph.blocks.contains t = true
  | .build _ => True
  | .call c => c.deletes = false

instance (policy : UnknownValues) (p : Plan) (x : Step) : Decidable (p.Orderly policy x) := by
  cases x with
  | call c => exact inferInstanceAs (Decidable (_ = _))
  | build x => cases x <;> unfold Orderly <;> infer_instance

def next (p : Plan) : Step → Plan
  | .build (.branch b targets) =>
    let (term, graph) := p.graph.branch b targets
    ⟨graph, p.branches ++ [⟨b, targets, term⟩]⟩
  | .build x => { p with graph := x.apply p.graph }
  | .call c => { p with graph := (p.graph.perform c).2 }

theorem graph_next_build (p : Plan) (x : Change) : (p.next (.build x)).graph = x.apply p.graph := by
  cases x <;> rfl

theorem renews_next (p : Plan) (x : Step) : p.graph.Renews (p.next x).graph := by
  cases x with
  | build x =>
    rw [graph_next_build]
    exact (x.grows p.graph).toRenews
  | call c => exact p.graph.renews_perform c

/-- The invariant: branches are where they were put, and their targets know of them. -/
structure Laid (policy : UnknownValues) (p : Plan) : Prop where
  routed : p.graph.Routed policy p.branches
  fed : p.graph.Fed p.branches

variable {policy : UnknownValues} {p : Plan}

theorem laid_empty : Laid policy {} := ⟨Graph.routed_empty, Graph.fed_empty⟩

namespace Laid

theorem quiet (h : Laid policy p) {g : Graph} (hq : p.graph.Quiet g) (he : p.graph.Evolves g) :
    Laid policy { p with graph := g } :=
  ⟨h.routed.quiet hq he, h.fed.quiet h.routed hq⟩

/-- Every call but a deletion keeps the layout. -/
theorem perform (h : Laid policy p) {c : Call} (hc : c.deletes = false) :
    Laid policy { p with graph := (p.graph.perform c).2 } := by
  have hw := h.routed.wellFormed
  exact h.quiet (Graph.quiet_perform hw c (Call.ne_deleteBlock hc))
    (Graph.evolves_perform hw c (Call.ne_deleteBlock hc))

/-- A value comes that no block holds and nothing uses. -/
theorem newValue (h : Laid policy p) {entry : ValueEntry}
    (hx : p.Orderly policy (.build (.newValue entry))) :
    Laid policy { p with graph := (p.graph.newValue entry).2 } :=
  h.quiet (Graph.quiet_newValue h.routed.wellFormed hx.1 hx.2)
    (Graph.evolves_newValue h.routed.wellFormed entry)

theorem instruction (h : Laid policy p) {b : BlockRef} {probes : List Probe} {opcode : Opcode}
    (hx : p.Orderly policy (.build (.instruction b probes opcode))) :
    Laid policy { p with graph := (p.graph.instruction b probes opcode).2 } :=
  have hkept := h.routed.instruction_kept h.fed hx.1.2 hx.2
  ⟨hkept.1, hkept.2⟩

theorem addUse (h : Laid policy p) {used user : ValueRef}
    (hx : p.Orderly policy (.build (.addUse used user))) :
    Laid policy { p with graph := (p.graph.addUse used user).2 } := by
  obtain ⟨hc, k, hk, hi⟩ := hx
  have hhome : Branch.home? p.branches user = none := by
    refine Branch.home?_eq_none_iff.mpr fun hm => ?_
    obtain ⟨br, hbr, rfl⟩ := List.mem_map.mp hm
    rw [h.routed.valueKind_term hbr] at hk
    obtain rfl := Except.ok.inj hk
    exact nomatch hi
  refine ⟨h.routed.addUse hc ⟨k, hk, fun ht => ?_⟩, h.fed.addUse h.routed.listed hhome⟩
  rw [hi] at ht
  exact nomatch ht

theorem branch (h : Laid policy p) {b : BlockRef} {targets : List BlockRef}
    (hx : p.Orderly policy (.build (.branch b targets))) :
    Laid policy (p.next (.build (.branch b targets))) := by
  obtain ⟨⟨hb, hnb⟩, ht⟩ := hx
  have hkept := h.routed.branch h.fed (Graph.contains_iff.mp hb) hnb fun t hm =>
    Graph.contains_iff.mp (ht t hm)
  exact ⟨hkept.1, hkept.2⟩

/-- Every step in order keeps the layout. -/
theorem next (h : Laid policy p) {x : Step} (hx : p.Orderly policy x) : Laid policy (p.next x) := by
  have hw := h.routed.wellFormed
  cases x with
  | call c => exact h.perform hx
  | build x =>
    cases x with
    | newValue entry => exact h.newValue hx
    | instruction b probes opcode => exact h.instruction hx
    | addUse used user => exact h.addUse hx
    | branch b targets => exact h.branch hx
    | newContext | newType => exact h.quiet (Graph.quiet_of_eq rfl rfl rfl) (Change.evolves hw _)
    | intType cx width =>
      refine h.quiet ?_ (Graph.evolves_intType hw cx width)
      show p.graph.Quiet (p.graph.intType cx width).2
      unfold Graph.intType
      split
      · exact .refl _
      · exact Graph.quiet_of_eq rfl rfl rfl
    | function =>
      have hq : p.graph.Quiet p.graph.function.2 :=
        (Graph.quiet_newValue hw rfl rfl).trans (Graph.quiet_of_eq rfl rfl rfl)
      exact h.quiet hq (Graph.evolves_function hw)
    | setType v | setPredicate v =>
      exact h.quiet (p.graph.quiet_modifyValue v fun _ => ⟨rfl, rfl⟩) (Change.evolves hw _)
    | appendBlock f name =>
      exact h.quiet (Graph.quiet_appendBlock hw f name) (Graph.evolves_appendBlock hw f name)

theorem evolves (h : Laid policy p) {x : Step} (hx : p.Orderly policy x) :
    p.graph.Evolves (p.next x).graph := by
  have hw := h.routed.wellFormed
  cases x with
  | build x =>
    rw [graph_next_build]
    exact x.evolves hw
  | call c => exact Graph.evolves_perform hw c (Call.ne_deleteBlock hx)

/-! ## The record and the library -/

theorem targets_of_mem (h : Laid policy p) {br : Branch} (hbr : br ∈ p.branches) :
    p.targets br.block = br.targets := by
  cases hf : p.branches.find? (·.block == br.block) with
  | none => exact absurd (List.find?_eq_none.mp hf br hbr) (by simp)
  | some br' =>
    have hb : br'.block = br.block := by simpa using List.find?_some hf
    rw [targets, hf, Option.elim_some, h.routed.eq_of_block (List.mem_of_find?_eq_some hf) hbr hb]

/-- A block that is ended by a branch leads to what the branch leads to. -/
theorem targets_branch (h : Laid policy p) {b : BlockRef} {targets : List BlockRef}
    (hx : p.Orderly policy (.build (.branch b targets))) :
    (p.next (.build (.branch b targets))).targets b = targets := by
  have hbr : ⟨b, targets, (p.graph.branch b targets).1⟩ ∈
      (p.next (.build (.branch b targets))).branches :=
    List.mem_append_right p.branches (List.mem_singleton_self _)
  exact (h.next hx).targets_of_mem hbr

theorem targets_eq_nil {b : BlockRef} (hb : b ∉ p.branches.map (·.block)) : p.targets b = [] := by
  have hf : p.branches.find? (·.block == b) = none := by
    refine List.find?_eq_none.mpr fun br hbr heq => hb ?_
    exact List.mem_map.mpr ⟨br, hbr, by simpa using heq⟩
  rw [targets, hf, Option.elim_none]

/-- Sources and targets are two readings of one record. -/
theorem mem_sources_iff (h : Laid policy p) {a b : BlockRef} :
    a ∈ p.sources b ↔ b ∈ p.targets a := by
  rw [sources, List.mem_map]
  constructor
  · rintro ⟨br, hbr, rfl⟩
    obtain ⟨hbr, hb⟩ := List.mem_filter.mp hbr
    rw [h.targets_of_mem hbr]
    exact of_decide_eq_true hb
  · intro hb
    by_cases ha : a ∈ p.branches.map (·.block)
    · obtain ⟨br, hbr, rfl⟩ := List.mem_map.mp ha
      rw [h.targets_of_mem hbr] at hb
      exact ⟨br, List.mem_filter.mpr ⟨hbr, decide_eq_true hb⟩, rfl⟩
    · rw [targets_eq_nil ha] at hb
      exact absurd hb List.not_mem_nil

theorem nodup_sources (h : Laid policy p) (b : BlockRef) : (p.sources b).Nodup :=
  h.routed.once.sublist (List.filter_sublist.map _)

/-- Targets live. -/
theorem exists_of_mem_targets (h : Laid policy p) {a b : BlockRef} (hb : b ∈ p.targets a) :
    ∃ e, p.graph.blocks.get? b = some e := by
  obtain ⟨br, hbr, -⟩ := List.mem_map.mp (h.mem_sources_iff.mpr hb)
  obtain ⟨hbr, hb⟩ := List.mem_filter.mp hbr
  exact h.routed.target br hbr b (of_decide_eq_true hb)

/-- The terminator of a block, as the library has it, leads to the targets of the block. -/
theorem blockTerminator (h : Laid policy p) {b : BlockRef} {e : BlockEntry}
    (hb : p.graph.blocks.get? b = some e) :
    (p.graph.blockTerminator b = .null ∧ p.targets b = []) ∨
      ∃ v ve k, p.graph.blockTerminator b = v ∧ p.graph.values.get? v = some ve ∧
        p.graph.valueKind v policy = .ok k ∧ ve.successors = p.targets b ∧
        (k.isA (.ofClass .terminatorInst) = false → p.targets b = []) := by
  -- A block that has a branch ends with it.
  have hlast (br : Branch) (hbr : br ∈ p.branches) (heq : br.block = b) :
      e.instructions.getLast? = some br.term := by
    obtain ⟨e', he', hl⟩ := h.routed.last br hbr
    rw [heq, hb] at he'
    exact Option.some.inj he' ▸ hl
  have hterm : p.graph.blockTerminator b = e.instructions.getLast?.elim .null fun v =>
      if p.graph.ofValue v false (·.probes.contains .terminatorInst) then v else .null := by
    rw [Graph.blockTerminator, Graph.ofBlock_of_get? hb]
    cases e.instructions.getLast? <;> rfl
  by_cases hm : b ∈ p.branches.map (·.block)
  · obtain ⟨br, hbr, rfl⟩ := List.mem_map.mp hm
    obtain ⟨ve, hve, hp, hs⟩ := h.routed.term br hbr
    have hprobe : p.graph.ofValue br.term false (·.probes.contains .terminatorInst) = true := by
      rw [Graph.ofValue_of_get? hve, hp]
      rfl
    rw [hlast br hbr rfl] at hterm
    refine Or.inr ⟨br.term, ve, _, hterm.trans (if_pos hprobe), hve, h.routed.valueKind_term hbr,
      hs.trans (h.targets_of_mem hbr).symm, fun hk => absurd hk (by decide)⟩
  · have hnil := targets_eq_nil hm
    cases hl : e.instructions.getLast? with
    | none => exact Or.inl ⟨by rw [hterm, hl, Option.elim_none], hnil⟩
    | some v =>
      rw [hl, Option.elim_some] at hterm
      split at hterm
      · have hv : v ∈ e.instructions := List.mem_of_getLast? hl
        obtain ⟨ve, hve, hpar⟩ := h.routed.wellFormed.instruction b e hb v hv
        obtain ⟨k, hk⟩ := h.routed.instruction b e hb v hv
        have hno : v ∉ p.branches.map (·.term) := fun hmem => hm <| by
          obtain ⟨br, hbr, rfl⟩ := List.mem_map.mp hmem
          obtain ⟨ve', hve', hpar'⟩ := h.routed.parent hbr
          obtain rfl := Option.some.inj (hve.symm.trans hve')
          exact List.mem_map.mpr ⟨br, hbr, hpar'.symm.trans hpar⟩
        exact Or.inr ⟨v, ve, k, hterm, hve, hk, (h.routed.straight v ve hve hno).trans hnil.symm,
          fun _ => hnil⟩
      · exact Or.inl ⟨hterm, hnil⟩

/-- A user that is a terminator is a branch, in the block that it ends; other users end none. -/
theorem user (h : Laid policy p) {u : UseRef} {ue : UseEntry}
    (hu : p.graph.uses.get? u = some ue) :
    ∃ ve k, p.graph.values.get? ue.user = some ve ∧ p.graph.valueKind ue.user policy = .ok k ∧
      match Branch.home? p.branches ue.user with
      | some b => k = .ofClass .branchInst ∧ ve.parent = b ∧ ∃ e, p.graph.blocks.get? b = some e
      | none => k.isA (.ofClass .terminatorInst) = false := by
  obtain ⟨hc, k, hk, hterm⟩ := h.routed.user u ue hu
  obtain ⟨ve, hve⟩ := Graph.contains_iff.mp hc
  refine ⟨ve, k, hve, hk, ?_⟩
  cases hh : Branch.home? p.branches ue.user with
  | none => exact Bool.eq_false_iff.mpr fun ht => Branch.home?_eq_none_iff.mp hh (hterm ht)
  | some b =>
    obtain ⟨br, hf, rfl⟩ := Option.map_eq_some_iff.mp hh
    have hbr := List.mem_of_find?_eq_some hf
    have heq : br.term = ue.user := by simpa using List.find?_some hf
    rw [← heq] at hve hk
    obtain ⟨ve', hve', hpar⟩ := h.routed.parent hbr
    obtain rfl := Option.some.inj (hve.symm.trans hve')
    obtain ⟨e, he, -⟩ := h.routed.last br hbr
    exact ⟨Except.ok.inj (hk.symm.trans (h.routed.valueKind_term hbr)), hpar, e, he⟩

end Laid

/-- Repetitions of an element that does not come up again count once. -/
theorem eraseDups_replicate_append {α : Type} [DecidableEq α] {x : α} {l : List α} (hx : x ∉ l)
    (n : Nat) :
    (List.replicate n x ++ l).eraseDups = (if n = 0 then [] else [x]) ++ l.eraseDups := by
  cases n with
  | zero => rfl
  | succ n =>
    have hl : l.filter (fun y => !y == x) = l := by
      refine List.filter_eq_self.mpr fun y hy => ?_
      have hne : y ≠ x := fun heq => hx (heq ▸ hy)
      simpa using hne
    rw [List.replicate_succ, List.cons_append, List.eraseDups_cons, List.filter_append, hl]
    simp

/-- An element that comes up first is left out from then on. -/
theorem eraseDups_filter_cons {α : Type} [DecidableEq α] {x : α} {out : List α} (hx : x ∉ out)
    (l : List α) : ((x :: l).filter (· ∉ out)).eraseDups =
      x :: (l.filter (· ∉ out ++ [x])).eraseDups := by
  have hfilter : l.filter (fun a => !a == x && a ∉ out) = l.filter (· ∉ out ++ [x]) := by
    refine List.filter_congr fun a _ => ?_
    by_cases ha : a = x <;> simp [ha]
  rw [List.filter_cons_of_pos (by simpa using hx), List.eraseDups_cons, List.filter_filter, hfilter]

/-- The blocks with edges to a block are its sources, each as often as its branch says. -/
theorem eraseDups_edges {brs : List Branch} (hn : (brs.map (·.block)).Nodup) (b : BlockRef) :
    (Branch.edges brs b).eraseDups = (brs.filter (b ∈ ·.targets)).map (·.block) := by
  induction brs with
  | nil => rfl
  | cons br brs ih =>
    rw [List.map_cons, List.nodup_cons] at hn
    have hnew : br.block ∉ Branch.edges brs b := fun hm => hn.1 <| by
      obtain ⟨br', hbr', hm⟩ := List.mem_flatMap.mp hm
      exact List.mem_map.mpr ⟨br', hbr', (List.eq_of_mem_replicate hm).symm⟩
    have hcons : Branch.edges (br :: brs) b =
        List.replicate (br.targets.count b) br.block ++ Branch.edges brs b := List.flatMap_cons
    rw [hcons, eraseDups_replicate_append hnew, ih hn.2, List.filter_cons]
    by_cases hb : b ∈ br.targets
    · simp [hb, List.count_eq_zero]
    · simp [hb, List.count_eq_zero]

/-! ## Changes by calls -/

/-- A graph that is laid out as another one was, whatever the record and the policy. -/
def Upholds (g g' : Graph) : Prop :=
  ∀ policy brs, Laid policy ⟨g, brs⟩ → Laid policy ⟨g', brs⟩

instance : IsPreorder Graph Upholds where
  refl _ _ _ h := h
  trans _ _ _ h h' policy brs hl := h' policy brs (h policy brs hl)

theorem persists_upholds : Persists Upholds fun c => c.deletes = false :=
  fun _ _ _ hc _ _ h => h.perform hc

end Plan

end CanonIR.Memory

namespace CanonIR

/-- Proper primitives make no call that deletes. -/
theorem Primitive.Proper.deletes {g : Memory.Graph} {a : Primitive} (hp : a.Proper g) {c : Call}
    (hc : a.MayCall c) : c.deletes = false := by
  cases a with
  | call lib c' =>
    obtain rfl : c = c' := hc
    exact hp
  | createContext | internType | blockRef | release =>
    obtain rfl := hc
    rfl
  | internValue =>
    rcases hc with ⟨p, rfl⟩ | rfl
    · rfl
    · rfl
  | internBlock =>
    rcases hc with rfl | ⟨v, ⟨p, rfl⟩ | rfl⟩
    · rfl
    · rfl
    · rfl
  | emit | walkLimit | attachContext | forgetValue | hold => exact hc.elim

end CanonIR
