import Mathlib.Data.List.Forall2
import CanonIR.Proofs.Flow.Plan
import CanonIR.Proofs.Flow.Yields

/-!
The walks along the edges of a plan. The successors of a block are read from its terminator, the
predecessors from the uses of its value shape; over a graph that is laid out the first are the
targets of the block, as far as the library counts them (`yields_successors`), and the second its
sources (`yields_predecessors`).
-/

namespace CanonIR

/-- Who is on the one side has a partner on the other. -/
theorem exists_mem_of_forall₂ {α β : Type} {R : α → β → Prop} {as : List α} {bs : List β}
    (h : List.Forall₂ R as bs) {a : α} (ha : a ∈ as) : ∃ b ∈ bs, R a b := by
  induction h with
  | nil => exact absurd ha List.not_mem_nil
  | cons hr _ ih =>
    rcases List.mem_cons.mp ha with rfl | ha
    · exact ⟨_, List.mem_cons_self, hr⟩
    · obtain ⟨b, hb, hr⟩ := ih ha
      exact ⟨b, List.mem_cons_of_mem _ hb, hr⟩

/-- Partners can be related anew, knowing that they are there. -/
theorem forall₂_of_mem {α β : Type} {R S : α → β → Prop} {as : List α} {bs : List β}
    (h : List.Forall₂ R as bs) (hS : ∀ a, ∀ b ∈ bs, R a b → S a b) : List.Forall₂ S as bs := by
  induction h with
  | nil => exact .nil
  | cons hr _ ih =>
    refine .cons (hS _ _ List.mem_cons_self hr) (ih fun a b hb => ?_)
    exact hS a b (List.mem_cons_of_mem _ hb)

/-- What partners agree on is the same on both sides. -/
theorem filterMap_eq_of_forall₂ {α β γ : Type} {R : α → β → Prop} {as : List α} {bs : List β}
    (h : List.Forall₂ R as bs) {f : α → Option γ} {f' : β → Option γ}
    (hf : ∀ a b, R a b → f a = f' b) : as.filterMap f = bs.filterMap f' := by
  induction h with
  | nil => rfl
  | cons hr _ ih => rw [List.filterMap_cons, List.filterMap_cons, hf _ _ hr, ih]

/-- What tells partners apart has no repetitions on the other side. -/
theorem nodup_map_of_forall₂ {α β γ : Type} {R : α → β → Prop} {as : List α} {bs : List β}
    (h : List.Forall₂ R as bs) (hn : as.Nodup) (f : β → γ)
    (hf : ∀ a a', ∀ b ∈ bs, ∀ b' ∈ bs, R a b → R a' b' → f b = f b' → a = a') :
    (bs.map f).Nodup := by
  induction h with
  | nil => exact List.nodup_nil
  | @cons a b as bs hr hrs ih =>
    obtain ⟨ha, hn⟩ := List.nodup_cons.mp hn
    refine List.nodup_cons.mpr ⟨fun hm => ?_, ih hn fun a a' b hb b' hb' => ?_⟩
    · obtain ⟨b', hb', heq⟩ := List.mem_map.mp hm
      obtain ⟨a', ha', hr'⟩ := exists_mem_of_forall₂ hrs.flip hb'
      have := hf a' a b' (List.mem_cons_of_mem b hb') b List.mem_cons_self hr' hr heq
      exact ha (this ▸ ha')
    · exact hf a a' b (List.mem_cons_of_mem _ hb) b' (List.mem_cons_of_mem _ hb')

namespace Operation

open Carries (references)
open Memory (Graph Plan Branch)

variable {cx : Context} {p : Plan} {l : List Reference} {bb : BasicBlock} {b : BlockRef}

/-! ## Successors -/

/-- The terminator of a block is one that leads to the targets of the block. -/
theorem yields_terminator (h : p.Laid cx.options.unknownValues) (hbb : .value bb.value ∈ l)
    (hw : p.graph.Wraps cx b bb) :
    Yields cx p.graph l (terminator bb) l
      (fun x => match x with
        | some t => t.value.context = cx ∧
          ∃ ve, p.graph.values.get? t.value.handle = some ve ∧ ve.successors = p.targets b
        | none => p.targets b = []) := by
  have hl : l ≠ [] := List.ne_nil_of_mem hbb
  obtain ⟨e, he, -⟩ := hw.block
  obtain rfl := hw.context
  refine (yields_blockRef hbb hw).bind fun b' hb' => ?_
  obtain rfl : b' = b := hb'
  refine (yields_ask (a := p.graph.blockTerminator b') rfl).bind fun v hv => ?_
  obtain rfl : v = _ := hv
  rcases h.blockTerminator he with ⟨hnull, ht⟩ | ⟨v, ve, k, hv, hve, hk, hs, hno⟩
  · rw [hnull]
    refine (yields_internValue_null .null rfl).bind fun x hx => ?_
    obtain rfl : x = none := hx
    exact yields_pure (List.Perm.refl _) ht
  · rw [hv]
    refine (yields_internValue hl hve hk).bind fun x hx => ?_
    obtain ⟨y, rfl, ho, hh, rfl⟩ := hx
    refine (yields_downcast .terminator hl).imp fun x hx => ?_
    cases x with
    | some t =>
      obtain rfl : t.value = y := hx
      exact ⟨ho, ve, hh ▸ hve, hs⟩
    | none => exact hno hx

theorem yields_successorsAt {g : Graph} {t : Terminator} {ve : Memory.ValueEntry}
    (ht : .value t.value ∈ l) (hcx : t.value.context = cx)
    (hve : g.values.get? t.value.handle = some ve)
    (hlive : ∀ b ∈ ve.successors, ∃ e, g.blocks.get? b = some e) (is : List Nat)
    (his : ∀ i ∈ is, i < ve.successors.length) :
    Yields cx g l (successorsAt t is) l
      (List.Forall₂ (g.Wraps cx) (is.map fun i => ve.successors[i]?.getD .null)) := by
  induction is generalizing l with
  | nil => exact yields_pure (List.Perm.refl _) .nil
  | cons i is ih =>
    have hi := his i List.mem_cons_self
    have hget : ve.successors[i]?.getD .null = ve.successors[i] := by
      rw [List.getElem?_eq_getElem hi, Option.getD_some]
    have hsucc : g.perform (.successor t.value.handle i) = (.ok ve.successors[i], g) := by
      rw [← hget]
      simp only [Graph.perform, Graph.ofValue_of_get? hve]
    obtain rfl := hcx
    refine (yields_ask hsucc).bind fun b hb => ?_
    obtain rfl : b = _ := hb
    refine (yields_internBlock (List.ne_nil_of_mem ht)
      (hlive _ (List.getElem_mem hi))).bind fun x hx => ?_
    obtain ⟨bb, rfl, hw⟩ := hx
    have hrest := ih (List.mem_cons_of_mem (.value bb.value) ht)
      fun j hj => his j (List.mem_cons_of_mem i hj)
    refine (hrest.cons rfl).imp fun xs hxs => ?_
    obtain ⟨ys, rfl, hys⟩ := hxs
    rw [List.map_cons, hget]
    exact .cons hw hys

/-- The successors of a block are the wrappers of its targets, up to the last one that the library
counts. -/
theorem yields_successors (h : p.Laid cx.options.unknownValues) (hbb : .value bb.value ∈ l)
    (hw : p.graph.Wraps cx b bb) :
    Yields cx p.graph l (successors bb) l
      (List.Forall₂ (p.graph.Wraps cx) ((p.targets b).take Graph.maxSuccessors)) := by
  refine (yields_terminator h hbb hw).bind fun x hx => ?_
  cases x with
  | none =>
    have ht : p.targets b = [] := hx
    rw [ht, List.take_nil]
    exact yields_pure (List.Perm.refl _) .nil
  | some t =>
    obtain ⟨ho, ve, hve, hs⟩ := hx
    refine Yields.releasing (r := .value t.value) ?_ (List.ne_nil_of_mem hbb)
    have hcount : p.graph.perform (.successorCount t.value.handle) =
        (.ok (min ve.successors.length Graph.maxSuccessors), p.graph) := by
      simp only [Graph.perform, Graph.ofValue_of_get? hve]
    refine (yields_ask hcount).bind fun n hn => ?_
    have hle : n ≤ ve.successors.length := hn ▸ Nat.min_le_left _ _
    have hall := yields_successorsAt (l := .value t.value :: l) List.mem_cons_self ho hve
      (fun b' hb' => h.exists_of_mem_targets (a := b) (hs ▸ hb')) (List.range n)
      fun i hi => Nat.lt_of_lt_of_le (List.mem_range.mp hi) hle
    have hmap : (List.range n).map (fun i => ve.successors[i]?.getD .null) =
        ve.successors.take Graph.maxSuccessors := by
      refine List.ext_getElem ?_ fun i hi hi' => ?_
      · rw [List.length_map, List.length_range, List.length_take, Nat.min_comm]
        exact hn
      · have hlt : i < ve.successors.length := Nat.lt_of_lt_of_le hi' (List.length_take_le' _ _)
        rw [List.getElem_map, List.getElem_range, List.getElem_take,
          List.getElem?_eq_getElem hlt, Option.getD_some]
    rw [hmap] at hall
    rw [← hs]
    exact hall

/-! ## Predecessors -/

/-- A use leads to the wrapper of its user, and on to the next use. -/
theorem yields_stepUse {g : Graph} {v : ValueWrapper} {u : UseRef} {ue : Memory.UseEntry}
    {ve : Memory.ValueEntry} {k : ValueKind} (hl : l ≠ []) (hcx : v.context = cx)
    (hu : g.uses.get? u = some ue) (hve : g.values.get? ue.user = some ve)
    (hk : g.valueKind ue.user cx.options.unknownValues = .ok k) :
    Yields cx g l (stepUse v u) l (fun x => x.1 = g.nextUse u ∧
      ∃ y, x.2 = some y ∧ y.context = cx ∧ y.handle = ue.user ∧ y.kind = k) := by
  have huser : g.perform (.useUser u) = (.ok ue.user, g) := by
    simp only [Graph.perform, hu, Option.elim_some]
  obtain rfl := hcx
  refine (yields_ask (a := g.nextUse u) rfl).bind fun next hnext => ?_
  refine (yields_ask huser).bind fun h hh => ?_
  obtain rfl : h = _ := hh
  refine (yields_internValue hl hve hk).bind fun x hx => ?_
  exact yields_pure (List.Perm.refl _) ⟨hnext, hx⟩

/-- A user of a use is the branch of a block, whose wrapper comes then, or none. -/
theorem yields_predecessorOf (h : p.Laid cx.options.unknownValues) {u : UseRef}
    {ue : Memory.UseEntry} (hu : p.graph.uses.get? u = some ue) {user : ValueWrapper} (hl : l ≠ [])
    (hcx : user.context = cx) (hh : user.handle = ue.user)
    (hk : p.graph.valueKind ue.user cx.options.unknownValues = .ok user.kind) :
    Yields cx p.graph l (predecessorOf user) l
      (Option.Rel (p.graph.Wraps cx) (Branch.home? p.branches ue.user)) := by
  obtain ⟨ve, k, hve, hk', hhome⟩ := h.user hu
  obtain rfl := Except.ok.inj (hk'.symm.trans hk)
  unfold predecessorOf
  cases hb : Branch.home? p.branches ue.user with
  | none =>
    rw [hb] at hhome
    have hno : ¬ user.isA (.ofClass .terminatorInst) = true := Bool.eq_false_iff.mp hhome
    rw [if_neg hno]
    exact yields_pure (List.Perm.refl _) .none
  | some b =>
    rw [hb] at hhome
    obtain ⟨hkind, hpar, hlive⟩ := hhome
    have hterm : user.isA (.ofClass .terminatorInst) = true := by
      rw [ValueWrapper.isA, hkind]
      rfl
    have hacc : View.instruction.accepts user.kind = true := by
      rw [hkind]
      rfl
    have hd : user.downcast? .instruction = some ⟨user, hacc⟩ := dif_pos hacc
    have hparent : p.graph.perform (.instructionParent user.handle) = (.ok b, p.graph) := by
      simp only [Graph.perform, hh, Graph.ofValue_of_get? hve, hpar]
    rw [if_pos hterm, hd]
    obtain rfl := hcx
    refine (yields_ask hparent).bind fun b' hb' => ?_
    obtain rfl : b' = b := hb'
    refine (yields_internBlock hl hlive).imp fun x hx => ?_
    obtain ⟨bb, rfl, hw⟩ := hx
    exact .some hw

/-- Where identities of wrappers tell as much as handles, a wrapper of a block is among wrappers of
blocks just when the block is among these. -/
theorem any_id_iff_of_handle {g : Graph} (hg : g.WellFormed) {R : BlockRef → BasicBlock → Prop}
    (hR : ∀ b q, R b q → ∃ e, g.blocks.get? b = some e ∧ q.value.handle = e.value)
    {fs : List BlockRef} {found : List BasicBlock} (hfound : List.Forall₂ R fs found)
    (hbb : R b bb)
    (hid : ∀ q ∈ found, q.value.id = bb.value.id ↔ q.value.handle = bb.value.handle) :
    found.any (·.value.id == bb.value.id) = true ↔ b ∈ fs := by
  obtain ⟨e, he, hh⟩ := hR b bb hbb
  rw [List.any_eq_true]
  constructor
  · rintro ⟨q, hq, hqid⟩
    obtain ⟨b', hb', hr⟩ := exists_mem_of_forall₂ hfound.flip hq
    obtain ⟨e', he', hh'⟩ := hR b' q hr
    have hval : q.value.handle = bb.value.handle := (hid q hq).mp (by simpa using hqid)
    have heq : b' = b := hg.block_unique b' e' b e he' he (hh'.symm.trans (hval.trans hh))
    exact heq ▸ hb'
  · intro hb
    obtain ⟨q, hq, hr⟩ := exists_mem_of_forall₂ hfound hb
    obtain ⟨e', he', hh'⟩ := hR b q hr
    obtain rfl := Option.some.inj (he.symm.trans he')
    exact ⟨q, hq, by simpa using (hid q hq).mpr (hh'.trans hh.symm)⟩

/-- A wrapper of a block is among held wrappers of blocks just when the block is among these. -/
theorem any_id_iff {g : Graph} (hg : g.WellFormed) {w : World Graph} (hs : Still cx g l w)
    {fs : List BlockRef} {found : List BasicBlock} (hfound : List.Forall₂ (g.Wraps cx) fs found)
    (hheld : ∀ q ∈ found, .value q.value ∈ l) (hbb : .value bb.value ∈ l)
    (hw : g.Wraps cx b bb) :
    found.any (·.value.id == bb.value.id) = true ↔ b ∈ fs :=
  any_id_iff_of_handle hg (fun _ _ hr => hr.block) hfound hw fun q hq =>
    hs.id_eq_iff (hheld q hq) hbb

/-- The walk from one of the uses of a block on: of the blocks that the users end, it adds each one
that was not found before, where it comes up first. -/
theorem yields_predecessorsFrom (h : p.Laid cx.options.unknownValues)
    (hbb : .value bb.value ∈ l) (hcx : bb.value.context = cx) {ve : Memory.ValueEntry}
    (hve : p.graph.values.get? bb.value.handle = some ve) {pre rest : List UseRef}
    (huses : ve.uses = pre ++ rest) {limit : Nat} (hlimit : rest.length ≤ limit)
    {fs : List BlockRef} {found : List BasicBlock}
    (hfound : List.Forall₂ (p.graph.Wraps cx) fs found)
    (hheld : ∀ q ∈ found, .value q.value ∈ l) :
    Yields cx p.graph l (predecessorsFrom bb limit found (rest.headD .null)) l
      (List.Forall₂ (p.graph.Wraps cx)
        ((p.graph.origins p.branches rest).filter (· ∉ fs)).eraseDups) := by
  induction rest generalizing pre limit fs found l with
  | nil =>
    unfold predecessorsFrom
    exact yields_pure (List.Perm.refl _) .nil
  | cons u rest ih =>
    have hl : l ≠ [] := List.ne_nil_of_mem hbb
    obtain ⟨limit, rfl⟩ := Nat.exists_eq_add_one_of_ne_zero (Nat.ne_zero_of_lt hlimit)
    have hlim : rest.length ≤ limit := Nat.le_of_succ_le_succ hlimit
    have hsplit : ve.uses = (pre ++ [u]) ++ rest := huses.trans (List.append_cons pre u rest)
    have hu : u ∈ ve.uses := huses ▸ List.mem_append_right pre List.mem_cons_self
    obtain ⟨ue, hue, -⟩ := h.routed.listed.used _ ve hve u hu
    obtain ⟨uve, k, huve, hk, -⟩ := h.user hue
    have hnull : u.isNull = false :=
      Handle.isNull_eq_false_iff.mpr (h.routed.listed.handed_of_mem hve hu).ne_zero
    have hnext : p.graph.nextUse u = rest.headD .null := by
      rw [h.routed.listed.nextUse_of_mem hve hu, huses]
      exact Graph.after_append_cons (huses ▸ h.routed.listed.nodup _ ve hve)
    unfold predecessorsFrom
    rw [List.headD_cons, if_neg (Bool.eq_false_iff.mp hnull)]
    refine (yields_stepUse hl hcx hue huve hk).bind fun x hx => ?_
    obtain ⟨next, x⟩ := x
    obtain ⟨hx, user, rfl, ho, hh, rfl⟩ := hx
    obtain rfl : next = rest.headD .null := hx.trans hnext
    have hpred : Yields cx p.graph (.value user :: l)
        (releasing (.value user) (predecessorOf user)) l _ :=
      (yields_predecessorOf h hue (List.cons_ne_nil _ l) ho hh hk).releasing hl
    refine hpred.bind fun y hy => ?_
    rw [Graph.origins_cons hue]
    cases hb : Branch.home? p.branches ue.user with
    | none =>
      rw [hb] at hy
      cases hy
      exact ih hbb hsplit hlim hfound hheld
    | some b =>
      rw [hb] at hy
      cases hy with | some hw =>
      rename_i q
      have hheld' : ∀ q' ∈ found, .value q'.value ∈ Reference.value q.value :: l :=
        fun q' hq' => List.mem_cons_of_mem _ (hheld q' hq')
      refine yields_of_still (fun w hs => any_id_iff h.routed.wellFormed hs hfound hheld'
        List.mem_cons_self hw) fun hiff => ?_
      dsimp only
      rw [Option.toList_some, List.singleton_append]
      by_cases hmem : b ∈ fs
      · rw [if_pos (hiff.mpr hmem), List.filter_cons_of_neg (by simpa using hmem)]
        refine (yields_release (List.Perm.refl _) hl).bind fun _ _ => ?_
        exact ih hbb hsplit hlim hfound hheld
      · rw [if_neg (mt hiff.mp hmem), Plan.eraseDups_filter_cons hmem]
        have hfound' : List.Forall₂ (p.graph.Wraps cx) (fs ++ [b]) (found ++ [q]) :=
          List.rel_append hfound (.cons hw .nil)
        have hrest := ih (l := .value q.value :: l) (List.mem_cons_of_mem _ hbb) hsplit hlim hfound'
          fun q' hq' => by
            rcases List.mem_append.mp hq' with hq' | hq'
            · exact hheld' q' hq'
            · exact List.mem_singleton.mp hq' ▸ List.mem_cons_self
        refine (hrest.cons rfl).imp fun xs hxs => ?_
        obtain ⟨ys, rfl, hys⟩ := hxs
        exact .cons hw hys

/-- The predecessors of a block are the wrappers of its sources. -/
theorem yields_predecessors (h : p.Laid cx.options.unknownValues) (hbb : .value bb.value ∈ l)
    (hw : p.graph.Wraps cx b bb) :
    Yields cx p.graph l (predecessors bb) l (List.Forall₂ (p.graph.Wraps cx) (p.sources b)) := by
  obtain ⟨e, he, hh⟩ := hw.block
  obtain ⟨ve, hve, -⟩ := h.routed.wellFormed.block_value b e he
  rw [← hh] at hve
  have hfirst : p.graph.perform (.firstUse bb.value.handle) =
      (.ok (ve.uses.headD .null), p.graph) := by
    simp only [Graph.perform, Graph.ofValue_of_get? hve]
  have hlimit : ve.uses.length ≤ p.graph.allocated + 1 := by
    have hnodup := h.routed.listed.nodup _ ve hve
    exact Nat.le_succ_of_le
      (Graph.length_le_allocated hnodup fun _ hu => h.routed.listed.handed_of_mem hve hu)
  refine (yields_ask hfirst).bind fun first hf => ?_
  obtain rfl : first = _ := hf
  refine (yields_walkLimit bb.value.context.library).bind fun limit hlim => ?_
  obtain rfl : limit = _ := hlim
  have huses : ve.uses = [] ++ ve.uses := rfl
  have hwalk := yields_predecessorsFrom h hbb hw.context hve huses hlimit .nil
    fun q hq => absurd hq List.not_mem_nil
  have hedges : p.graph.origins p.branches ve.uses = Branch.edges p.branches b :=
    h.fed b e ve he (hh ▸ hve)
  have hall : (Branch.edges p.branches b).filter (fun a => a ∉ ([] : List BlockRef)) =
      Branch.edges p.branches b := List.filter_eq_self.mpr fun a _ => by simp
  rw [hedges, hall, Plan.eraseDups_edges h.routed.once] at hwalk
  exact hwalk

end Operation

end CanonIR
