import CanonIR.Proofs.Memory.Housed
import CanonIR.Proofs.Memory.Uses

/-!
Uses by branches. Where nothing but branches uses anything, and no address is used again, the user of
a use is a branch, if it still lives (`Wired`). A deletion destroys the branches of a block, but the
uses that these have made of other blocks stay in the lists of those; what is gone has no kind, which
one policy takes for an error and the other for a kind of its own (`valueKind_of_get?_none`).
-/

namespace CanonIR.Memory

namespace Graph

variable {g g' : Graph} {v : ValueRef}

/-! ## Branches -/

/-- Whoever has the address, which was handed out, is a branch. -/
structure Branching (g : Graph) (v : ValueRef) : Prop where
  handed : g.Handed v.address
  probes : ∀ ve, g.values.get? v = some ve →
    ve.probes = [.user, .instruction, .terminatorInst, .branchInst]

/-- All users are branches. -/
def Wired (g : Graph) : Prop := ∀ u ue, g.uses.get? u = some ue → g.Branching ue.user

theorem wired_empty : Wired {} := fun _ _ h => nomatch h

theorem Branching.of_abides (h : g.Branching v) (ha : g.Abides g') : g'.Branching v where
  handed := h.handed.mono ha.allocated_le
  probes ve' hve' := by
    rcases ha.values v ve' hve' with ⟨ve, hve, -, hprobes, -⟩ | hn
    · exact hprobes ▸ h.probes ve hve
    · exact absurd h.handed hn

/-- Where no use is recorded, the users stay branches. -/
theorem Wired.of_abides (h : g.Wired) (ha : g.Abides g') (hu : g'.uses = g.uses) : g'.Wired :=
  fun u ue hue => (h u ue (hu ▸ hue)).of_abides ha

theorem Wired.addUse (h : g.Wired) {user : ValueRef} (hb : g.Branching user) (used : ValueRef) :
    (g.addUse used user).2.Wired := by
  have ha := g.abides_addUse used user
  intro u ue hue
  rw [get?_uses_addUse] at hue
  split at hue
  · obtain rfl := Option.some.inj hue
    exact hb.of_abides ha
  · exact (h u ue hue).of_abides ha

theorem Wired.branch (h : g.Wired) (b : BlockRef) (targets : List BlockRef) :
    (g.branch b targets).2.Wired := by
  let i := g.instruction b [.terminatorInst, .branchInst] .br
  let g₁ := { i.2 with values := i.2.values.modify i.1 fun e => { e with successors := targets } }
  have ha : i.2.Abides g₁ := i.2.abides_modifyValue i.1 fun _ => ⟨rfl, rfl, rfl⟩
  have h₁ : g₁.Wired := h.of_abides ((g.abides_instruction b _ _).trans ha) rfl
  have hnew : i.2.Branching i.1 := by
    refine ⟨handed_alloc g, fun ve hve => ?_⟩
    have hget : i.2.values.get? i.1 = some _ := (Table.get?_insert _ _ _ _).trans (if_pos rfl)
    rw [← Option.some.inj (hget.symm.trans hve)]
  -- The branch is one all along, while its edges come.
  have hedges := addEdges_kept (P := fun g => g.Wired ∧ g.Branching i.1)
    (fun g' used hg => ⟨hg.1.addUse hg.2 used, hg.2.of_abides (g'.abides_addUse used i.1)⟩)
    ⟨h₁, hnew.of_abides ha⟩ targets
  exact hedges.1

/-- Calls record no uses. -/
theorem Wired.perform (h : g.Wired) (c : Call) : (g.perform c).2.Wired :=
  h.of_abides (g.abides_perform c) (g.spares_perform c).uses

/-! ## Kinds of users -/

theorem Branching.valueKind (h : g.Branching v) (hv : g.values.contains v = true)
    (policy : UnknownValues) : g.valueKind v policy = .ok (.ofClass .branchInst) := by
  obtain ⟨ve, hve⟩ := contains_iff.mp hv
  simp only [Graph.valueKind, ofValue_of_get? hve, h.probes ve hve]
  rfl

/-- What is gone belongs to no class. -/
theorem valueKind_of_get?_none (hv : g.values.get? v = none) (policy : UnknownValues) :
    g.valueKind v policy =
      match policy with
      | .reject => .error (.drift (.unclassifiedValue v))
      | .tolerate => .ok .value := by
  simp only [Graph.valueKind, ofValue, hv, Option.elim_none]
  cases policy <;> rfl

theorem user?_eq_some {u : UseRef} {x : ValueRef} (hx : g.user? u = some x) :
    ∃ ue, g.uses.get? u = some ue ∧ ue.user = x := by
  obtain ⟨hx, -⟩ := Option.filter_eq_some_iff.mp hx
  exact Option.map_eq_some_iff.mp hx

/-- All users in a list of uses live. -/
def Peopled (g : Graph) (us : List UseRef) : Prop :=
  ∀ y ∈ us.filterMap g.user?, g.values.contains y = true

/-- Where not all users live, there is a first use whose user does not. -/
theorem exists_first_of_not_peopled {us : List UseRef} (h : ¬ g.Peopled us) :
    ∃ pre u post x, us = pre ++ u :: post ∧ g.Peopled pre ∧ g.user? u = some x ∧
      g.values.get? x = none := by
  induction us with
  | nil => exact absurd (fun _ hx => absurd hx List.not_mem_nil) h
  | cons u us ih =>
    by_cases hu : ∃ x, g.user? u = some x ∧ g.values.get? x = none
    · obtain ⟨x, hx, hgone⟩ := hu
      exact ⟨[], u, us, x, rfl, fun _ hx => absurd hx List.not_mem_nil, hx, hgone⟩
    · have hcons {l : List UseRef} (hl : g.Peopled l) : g.Peopled (u :: l) := by
        intro x hx
        obtain ⟨u', hm, hx⟩ := List.mem_filterMap.mp hx
        rcases List.mem_cons.mp hm with heq | hm
        · exact Option.isSome_iff_ne_none.mpr fun hn => hu ⟨x, heq ▸ hx, hn⟩
        · exact hl x (List.mem_filterMap.mpr ⟨u', hm, hx⟩)
      obtain ⟨pre, u', post, x, rfl, hp, hx, hgone⟩ := ih fun hl => h (hcons hl)
      exact ⟨u :: pre, u', post, x, rfl, hcons hp, hx, hgone⟩

/-- Users that live can pass the gate, and where unknown values are tolerated, so can those that are
gone. -/
theorem Wired.passes (h : g.Wired) {policy : UnknownValues} {us : List UseRef}
    (hp : policy = .tolerate ∨ g.Peopled us) : ∀ u ∈ us, g.Passes policy u := by
  intro u hu x hx
  obtain ⟨ue, hue, rfl⟩ := user?_eq_some hx
  have hb := h u ue hue
  refine ⟨hb.handed, ?_⟩
  cases hv : g.values.get? ue.user with
  | some ve => exact ⟨_, hb.valueKind (contains_iff.mpr ⟨ve, hv⟩) policy⟩
  | none =>
    obtain rfl : policy = .tolerate := hp.resolve_right fun hlive => by
      obtain ⟨ve, hve⟩ := contains_iff.mp (hlive _ (List.mem_filterMap.mpr ⟨u, hu, hx⟩))
      exact nomatch hv.symm.trans hve
    exact ⟨_, valueKind_of_get?_none hv _⟩

/-! ## Deletions -/

theorem eraseDups_filter {α : Type} [DecidableEq α] (p : α → Bool) (l : List α) :
    (l.filter p).eraseDups = l.eraseDups.filter p := by
  match l with
  | [] => rfl
  | a :: l =>
    have ih := eraseDups_filter p (l.filter fun b => !b == a)
    rw [List.eraseDups_cons]
    cases ha : p a with
    | true =>
      rw [List.filter_cons_of_pos ha, List.filter_cons_of_pos ha, List.eraseDups_cons, ← ih,
        List.filter_comm]
    | false =>
      have hne : ¬ p a = true := Bool.eq_false_iff.mp ha
      rw [List.filter_cons_of_neg hne, List.filter_cons_of_neg hne, ← ih, List.filter_filter]
      congr 1
      refine List.filter_congr fun b _ => ?_
      by_cases hb : b = a
      · simp [hb, ha]
      · simp [hb]
termination_by l.length
decreasing_by exact Nat.lt_succ_of_le (List.length_filter_le _ l)

variable {b : BlockRef} {e : BlockEntry}

theorem uses_deleteBlock (g : Graph) (b : BlockRef) : (g.deleteBlock b).uses = g.uses := by
  obtain ⟨layouts, blocks, values, hd, -⟩ := deleteBlock_shrinks g b
  rw [hd]

theorem user?_deleteBlock (g : Graph) (b : BlockRef) (u : UseRef) :
    (g.deleteBlock b).user? u = g.user? u := by
  rw [user?, user?, uses_deleteBlock]

/-- What stood in another block still does, and nothing stands in the deleted one. -/
theorem home?_deleteBlock (h : g.WellFormed) (hb : g.blocks.get? b = some e) (x : ValueRef) :
    (g.deleteBlock b).home? x = (g.home? x).filter (· != b) := by
  by_cases hx : x ∈ e.doomed
  · have hgone : (g.deleteBlock b).home? x = none := by
      rw [Option.eq_none_iff_forall_ne_some]
      intro b' hb'
      obtain ⟨ve, hve, -⟩ := exists_of_home? (wellFormed_deleteBlock h hb) hb'
      rw [get?_values_deleteBlock hb, if_pos hx] at hve
      exact nomatch hve
    rw [hgone, eq_comm, Option.filter_eq_none_iff]
    intro b' hb'
    obtain ⟨ve, hve, rfl, hne⟩ := exists_of_home? h hb'
    rcases List.mem_cons.mp hx with rfl | hi
    · obtain ⟨ve', hve', -, hnull⟩ := h.block_value b e hb
      obtain rfl := Option.some.inj (hve.symm.trans hve')
      exact absurd hnull hne
    · obtain ⟨ve', hve', hparent⟩ := h.instruction b e hb x hi
      obtain rfl := Option.some.inj (hve.symm.trans hve')
      simp [hparent]
  · have hof : (g.deleteBlock b).ofValue x .null (·.parent) = g.ofValue x .null (·.parent) := by
      rw [ofValue, get?_values_deleteBlock hb, if_neg hx, ofValue]
    rw [home?, home?, hof, Option.filter_filter]
    congr 1
    funext b'
    rw [Table.contains, get?_blocks_deleteBlock hb]
    by_cases hb' : b' = b
    · simp [hb']
    · simp [hb', Table.contains]

/-- What ended another block still does, and nothing ends the deleted one. -/
theorem ended?_deleteBlock (h : g.WellFormed) (hb : g.blocks.get? b = some e)
    (policy : UnknownValues) (x : ValueRef) :
    (g.deleteBlock b).ended? policy x = (g.ended? policy x).filter (· != b) := by
  have hhome := home?_deleteBlock h hb x
  cases hx : (g.deleteBlock b).home? x with
  | none =>
    rw [hx] at hhome
    have hbefore : (g.ended? policy x).filter (· != b) = none := by
      unfold ended?
      split
      · split
        · exact hhome.symm
        · rfl
      · rfl
    rw [hbefore]
    unfold ended?
    rw [hx]
    split
    · exact ite_self none
    · rfl
  | some b' =>
    -- The value lives, so it has the kind that it had.
    obtain ⟨ve, hve, -⟩ := exists_of_home? (wellFormed_deleteBlock h hb) hx
    have hget : (g.deleteBlock b).values.get? x = g.values.get? x := by
      rw [get?_values_deleteBlock hb] at hve ⊢
      split at hve
      · cases hve
      · next hn => rw [if_neg hn]
    have hkind : (g.deleteBlock b).valueKind x policy = g.valueKind x policy := by
      simp only [Graph.valueKind, ofValue, hget]
    unfold ended?
    rw [hkind]
    split
    · split
      · exact hhome
      · rfl
    · rfl

/-- The blocks that end with users of some uses are those from before without the deleted one. -/
theorem endedBy_deleteBlock (h : g.WellFormed) (hb : g.blocks.get? b = some e)
    (policy : UnknownValues) (us : List UseRef) :
    (g.deleteBlock b).endedBy policy us = (g.endedBy policy us).filter (· != b) := by
  have huser : (g.deleteBlock b).user? = g.user? := funext (g.user?_deleteBlock b)
  have hended : (g.deleteBlock b).ended? policy = fun x => (g.ended? policy x).filter (· != b) :=
    funext (ended?_deleteBlock h hb policy)
  rw [endedBy, endedBy, huser, hended, ← eraseDups_filter, List.filter_filterMap]

end Graph

/-- A change keeps all users branches, if it records no other uses. -/
theorem Change.wired {g : Graph} (h : g.Wired) {x : Change}
    (hx : ∀ used user, x ≠ .addUse used user) : (x.apply g).Wired := by
  cases x with
  | addUse used user => exact absurd rfl (hx used user)
  | branch b targets => exact h.branch b targets
  | newContext | newType | newValue | function | setType | setPredicate | appendBlock
  | instruction => exact h.of_abides (Change.abides g _) rfl
  | intType cx width =>
    refine h.of_abides (Change.abides g (.intType cx width)) ?_
    show (g.intType cx width).2.uses = g.uses
    unfold Graph.intType
    split <;> rfl

end CanonIR.Memory
