import CanonIR.Proofs.Memory.Consistent
import CanonIR.Proofs.Shapes.Shaped

/-!
Types stay. Whatever is done to an in-memory library, it keeps its types, and each of its integer
types stays the one of its context and width (`Retains`). So a held wrapper of a type goes on to
have the kind of its type, whatever primitive is performed (`TypesStand.perform`), and a gate that
is given a type of the library returns a wrapper of that kind (`TypesStand.gate`).
-/

namespace CanonIR

namespace Memory

namespace Graph

variable {g g' g'' : Graph} {ty : TypeRef} {k : TypeKind}

/-- All types are kept, and integer types stay what they are. -/
structure Retains (g g' : Graph) : Prop where
  typed : g.Typed → g'.Typed
  types : g.Typed → ∀ ty te, g.types.get? ty = some te → g'.types.get? ty = some te
  intTypes : ∀ k ty, g.intTypes.get? k = some ty → g'.intTypes.get? k = some ty

theorem Retains.refl (g : Graph) : g.Retains g := ⟨id, fun _ _ _ h => h, fun _ _ h => h⟩

theorem Retains.trans (h : g.Retains g') (h' : g'.Retains g'') : g.Retains g'' where
  typed := h'.typed ∘ h.typed
  types ht ty te he := h'.types (h.typed ht) ty te (h.types ht ty te he)
  intTypes k ty he := h'.intTypes k ty (h.intTypes k ty he)

theorem Retains.of_eq (hk : g.Typed → g'.Typed) (ht : g'.types = g.types)
    (hi : g'.intTypes = g.intTypes) : g.Retains g' where
  typed := hk
  types _ _ _ he := ht ▸ he
  intTypes _ _ he := hi ▸ he

/-- A new type takes no address that has been handed out. -/
theorem retains_newType (g : Graph) (te : TypeEntry) : g.Retains (g.newType te).2 where
  typed h := h.newType te
  types h ty te' he := by
    refine (Table.get?_insert _ _ _ _).trans ((if_neg ?_).trans he)
    rintro rfl
    exact not_handed_alloc g (h.type_handed _ te' he)
  intTypes _ _ h := h

/-- A library gives out the integer type that it has noted. -/
theorem get?_intType (g : Graph) (cx : ContextRef) (width : Nat) :
    (g.intType cx width).2.intTypes.get? (cx, width) = some (g.intType cx width).1 := by
  unfold intType
  split
  · next h => exact h
  · exact (Table.get?_insert _ _ _ _).trans (if_pos rfl)

theorem intType_of_get? {cx : ContextRef} {width : Nat}
    (h : g.intTypes.get? (cx, width) = some ty) : g.intType cx width = (ty, g) := by
  rw [intType, h]

theorem retains_intType (g : Graph) (cx : ContextRef) (width : Nat) :
    g.Retains (g.intType cx width).2 := by
  have hn := g.retains_newType ⟨TypeKind.integer.number, width⟩
  refine ⟨fun h => h.intType cx width, fun h ty te he => ?_, fun k ty he => ?_⟩
  · unfold intType
    split
    · exact he
    · exact hn.types h ty te he
  · unfold intType
    split
    · exact he
    · next hnone =>
      refine (Table.get?_insert _ _ _ _).trans ((if_neg ?_).trans he)
      rintro rfl
      exact absurd (he.symm.trans hnone) (Option.some_ne_none _)

theorem retains_branch (g : Graph) (b : BlockRef) (targets : List BlockRef) :
    g.Retains (g.branch b targets).2 := by
  let i := g.instruction b [.terminatorInst, .branchInst] .br
  let g₁ := { i.2 with values := i.2.values.modify i.1 fun e => { e with successors := targets } }
  have h1 : g.Retains g₁ := .of_eq (fun h => h.of_eq (Nat.le_succ _) rfl rfl) rfl rfl
  exact addEdges_kept
    (fun _ _ h => h.trans (.of_eq (fun h => h.of_eq (Nat.le_succ _) rfl rfl) rfl rfl)) h1 targets

/-- No call touches a type. -/
theorem types_perform (g : Graph) (c : Call) :
    (g.perform c).2.types = g.types ∧ (g.perform c).2.intTypes = g.intTypes := by
  have hmove (b position : BlockRef) (offset : Nat) :
      (g.moveBlock b position offset).2.types = g.types ∧
        (g.moveBlock b position offset).2.intTypes = g.intTypes := by
    obtain ⟨layouts, hm⟩ := moveBlock_eq g b position offset
    rw [hm]
    exact ⟨rfl, rfl⟩
  cases c with
  | moveBlockBefore b position => exact hmove b position 0
  | moveBlockAfter b position => exact hmove b position 1
  | insertBlockBefore cx before name =>
    show (g.insertBlockBefore before name).2.types = _ ∧
      (g.insertBlockBefore before name).2.intTypes = _
    unfold insertBlockBefore
    split <;> exact ⟨rfl, rfl⟩
  | deleteBlock b =>
    obtain ⟨layouts, blocks, values, hd, -⟩ := deleteBlock_shrinks g b
    show (g.deleteBlock b).types = _ ∧ (g.deleteBlock b).intTypes = _
    rw [hd]
    exact ⟨rfl, rfl⟩
  | _ => exact ⟨rfl, rfl⟩

theorem retains_perform (g : Graph) (c : Call) : g.Retains (g.perform c).2 :=
  .of_eq (fun h => h.perform c) (g.types_perform c).1 (g.types_perform c).2

/-! ## Kinds -/

/-- A type of the graph has a kind. -/
def HasKind (g : Graph) (ty : TypeRef) (k : TypeKind) : Prop :=
  ∃ te, g.types.get? ty = some te ∧ te.kind = k.number

theorem hasKind_iff : g.HasKind ty k ↔ g.typeKind ty = .ok k := by
  unfold HasKind typeKind
  cases g.types.get? ty with
  | none => exact iff_of_false nofun nofun
  | some te =>
    simp only [Option.some.injEq, exists_eq_left', Option.elim_some]
    rw [eq_comm, ← TypeKind.ofNumber?_eq_some_iff]
    cases TypeKind.ofNumber? te.kind <;> simp

theorem HasKind.retains (h : g.HasKind ty k) (ht : g.Typed) (hr : g.Retains g') :
    g'.HasKind ty k := by
  obtain ⟨te, he, hk⟩ := h
  exact ⟨te, hr.types ht ty te he, hk⟩

end Graph

theorem Setup.retains (g : Graph) (x : Setup) : g.Retains (x.apply g) := by
  cases x with
  | intType cx width => exact g.retains_intType cx width
  | rawType kind => exact g.retains_newType { kind }
  | branch b targets => exact g.retains_branch b targets
  | reuseAddress dead probes =>
    have heq : ((g.reuseAddress dead probes).getD g).types = g.types ∧
        ((g.reuseAddress dead probes).getD g).intTypes = g.intTypes := by
      unfold Graph.reuseAddress
      split <;> exact ⟨rfl, rfl⟩
    exact .of_eq (fun h => Setup.typed h (.reuseAddress dead probes)) heq.1 heq.2
  | _ => exact .of_eq (fun h => Setup.typed h _) rfl rfl

end Memory

/-! ## Libraries -/

namespace Recorder

/-- All types are kept, and answers are forced on the same calls. -/
structure Retains (r r' : Recorder) : Prop where
  graph : r.graph.Retains r'.graph
  forced : r'.forced = r.forced

instance : IsPreorder Recorder Retains where
  refl _ := ⟨.refl _, rfl⟩
  trans _ _ _ h h' := ⟨h.graph.trans h'.graph, h'.forced.trans h.forced⟩

theorem retains_perform (r : Recorder) (c : Call) : r.Retains (r.perform c).2 where
  graph := by
    rw [graph_perform]
    exact r.graph.retains_perform c
  forced := r.forced_perform c

theorem retains_next (r : Recorder) (m : Move) : r.Retains (r.next m) := by
  cases m with
  | setup x => exact ⟨x.retains r.graph, rfl⟩
  | call c => exact r.retains_perform c

end Recorder

namespace Recorders

/-- All libraries have kept their types. -/
abbrev Retain (rs rs' : Recorders) : Prop := Each Recorder.Retains rs rs'

theorem persists_retain : Persists Retain fun _ => True :=
  persists_each fun r c _ => r.retains_perform c

theorem Noted.retain {rs s : Recorders} (hs : rs.Noted s) : rs.Retain s := by
  intro lib
  obtain ⟨calls, hr⟩ := hs lib
  rw [hr]
  exact ⟨.refl _, rfl⟩

/-- A library without forced answers has a type classified by its kind. -/
theorem apply_classifyType {w : World Recorders} {lib : LibraryId}
    (hf : (w.native.recorder lib).forced = ∅) (ty : TypeRef) :
    ∃ s, (Action.classifyType lib ty).apply w =
      ((w.graph lib).typeKind ty, { w with native := s }) ∧ w.native.Noted s := by
  obtain ⟨s, hask, hn⟩ := apply_call_of_unforced hf (c := .typeKind ty) rfl rfl
  refine ⟨s, ?_, hn⟩
  rw [Action.classifyType, Action.apply_bind, hask, Memory.Graph.typeKind, World.graph]
  dsimp only
  generalize ((w.native.recorder lib).graph.types.get? ty).elim _ _ = n
  cases TypeKind.ofNumber? n <;> rfl

end Recorders

/-! ## Wrappers -/

/-- Only the gate of types brings wrappers of types. -/
theorem Primitive.type_of_mem_after {a : Primitive} {has : List Reference} (ha : a.Allowed has)
    (hi : ∀ cx h, a ≠ internType cx h) {x : Except Fault a.Result} {t : TypeWrapper}
    (ht : .type t ∈ a.after x has) : .type t ∈ has := by
  rcases mem_after_cases ht with ht | ⟨y, hy⟩
  · exact ht
  · cases a with
    | internType cx h => exact absurd rfl (hi cx h)
    | hold r =>
      obtain rfl := List.mem_singleton.mp hy
      exact mem_of_allowed_hold ha fun _ => Reference.noConfusion
    | internValue | internBlock => simp [references] at hy
    | createContext | attachContext => cases List.mem_singleton.mp hy
    | _ => exact absurd hy List.not_mem_nil

/-- The invariant: the libraries tell integer types apart and answer by themselves, and whatever
wrapper of a type is held has the kind of its type. -/
structure TypesStand (w : World Recorders) : Prop where
  typed : ∀ lib, (w.graph lib).Typed
  unforced : ∀ lib, (w.native.recorder lib).forced = ∅
  kind : ∀ t, .type t ∈ w.held → (w.graph t.context.library).HasKind t.handle t.kind

namespace TypesStand

variable {names : Nat → Reference} {log : List Forgetting} {w w' : World Recorders}
variable {cx : Context} {ty : TypeRef}

theorem start : TypesStand { native := ∅ } where
  typed _ := Memory.Graph.typed_empty
  unforced _ := rfl
  kind _ h := nomatch h

theorem step (h : TypesStand w) (hn : w.native.Retain w'.native)
    (hheld : ∀ t, .type t ∈ w'.held →
      .type t ∈ w.held ∨ (w'.graph t.context.library).HasKind t.handle t.kind) : TypesStand w' where
  typed lib := (hn lib).graph.typed (h.typed lib)
  unforced lib := (hn lib).forced.trans (h.unforced lib)
  kind t ht := (hheld t ht).elim
    (fun hm => (h.kind t hm).retains (h.typed _) (hn _).graph) id

/-- The gate of types returns a wrapper of its own context and of the handle, whose kind is that of
the type, or fails where the type has no kind. -/
theorem gate (h : TypesStand w) (hs : Sound names log w) (hcx : ∃ r ∈ w.held, r.owner = cx)
    (hnull : ty.isNull = false) :
    ∃ x w', (Action.internType cx ty).apply w = (x, w') ∧ w.native.Retain w'.native ∧
      ((∃ t, x = .ok (some t) ∧ t.context = cx ∧ t.handle = ty ∧
          (w'.graph cx.library).HasKind ty t.kind ∧ w'.held = .type t :: w.held) ∨
        ∃ f, x = .error f ∧ (w.graph cx.library).typeKind ty = .error f ∧ w'.held = w.held) := by
  cases hl : (w.cachesOf cx).types.lookup w.typeAlive ty.address with
  | some t =>
    obtain ⟨ho, hlive⟩ := World.lookup_types_eq_some_iff.mp hl
    have hm := hs.mem_of_holds ho hlive
    have hhandle : t.handle = ty :=
      congrArg Handle.mk (Place.mk.inj (Option.some.inj (hs.place _ _ ho).1)).2.2
    have howner : t.context = cx := hs.owner_of_gated hcx (.hit ho hlive)
    have hk := h.kind t hm
    rw [howner, hhandle] at hk
    exact ⟨_, _, Action.apply_internType_hit hnull hl, refl_of Recorders.Retain _,
      Or.inl ⟨t, rfl, howner, hhandle, hk, rfl⟩⟩
  | none =>
    obtain ⟨s, hx, hn⟩ := Recorders.apply_classifyType (h.unforced cx.library) ty
    have hm := Action.apply_internType_miss hnull hl
    rw [hx] at hm
    cases hk : (w.graph cx.library).typeKind ty with
    | ok kind =>
      rw [hk] at hm
      refine ⟨_, _, hm, hn.retain, Or.inl ⟨_, rfl, rfl, rfl, ?_, rfl⟩⟩
      exact (Memory.Graph.hasKind_iff.mpr hk).retains (h.typed _) (hn.retain _).graph
    | error f =>
      rw [hk] at hm
      exact ⟨_, _, hm, hn.retain, Or.inr ⟨f, rfl, rfl, rfl⟩⟩

theorem internType (h : TypesStand w) (hs : Sound names log w) (hcx : ∃ r ∈ w.held, r.owner = cx)
    (ty : TypeRef) : TypesStand ((Action.internType cx ty).apply w).2 := by
  cases hnull : ty.isNull with
  | true =>
    rw [Action.apply_internType_null hnull]
    exact h
  | false =>
    obtain ⟨x, w', hx, hn, ⟨t, rfl, hcx, hty, hk, hheld⟩ | ⟨f, rfl, -, hheld⟩⟩ :=
      h.gate hs hcx hnull
    · rw [hx]
      refine h.step hn fun t' ht' => ?_
      rw [hheld] at ht'
      rcases List.mem_cons.mp ht' with heq | ht'
      · obtain rfl := Reference.type.inj heq
        rw [hcx, hty]
        exact Or.inr hk
      · exact Or.inl ht'
    · rw [hx]
      exact h.step hn fun t' ht' => Or.inl (hheld ▸ ht')

/-- Every primitive keeps the types, and the kinds of held wrappers. -/
theorem perform (h : TypesStand w) (hs : Sound names log w) {a : Primitive}
    (ha : a.Allowed w.held) : TypesStand (a.action.apply w).2 := by
  by_cases hi : ∃ cx ty, a = .internType cx ty
  · obtain ⟨cx, ty, rfl⟩ := hi
    exact h.internType hs ha ty
  · have hn := Recorders.persists_retain.perform hs ha fun _ _ => trivial
    obtain ⟨x, w', hx, -, hheld⟩ := hs.perform a ha
    rw [hx] at hn ⊢
    refine h.step hn fun t ht => Or.inl ?_
    exact Primitive.type_of_mem_after ha (fun cx ty heq => hi ⟨cx, ty, heq⟩) (hheld ▸ ht)

end TypesStand

end CanonIR
