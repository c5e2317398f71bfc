import CanonIR.Proofs.Shapes.Shaped

/-!
Conversions of values to their block shapes. The library is asked for the block shape of a wrapper
only when it is used and not known; then it is known for ever. So a tally of the wrappers that were
converted, of those whose block shapes were used and of those that came from the gate of blocks
before says that no wrapper is converted twice (`Tally.perform`).
-/

namespace CanonIR

/-- The value that a call converts to its block shape. -/
def Call.converted? : Call → Option ValueRef
  | valueAsBlock v => some v
  | _ => none

namespace Recorder

/-- The values that were converted to their block shapes, newest first. -/
def conversions (r : Recorder) : List ValueRef := r.calls.filterMap Call.converted?

theorem conversionCount_eq (r : Recorder) : r.conversionCount = r.conversions.length := by
  rw [conversions, List.length_filterMap_eq_countP, conversionCount]
  refine congrArg (List.countP · r.calls) (funext fun c => ?_)
  cases c <;> rfl

/-- No value was converted in between. -/
def Unconverted (r r' : Recorder) : Prop := r'.conversions = r.conversions

instance : IsPreorder Recorder Unconverted where
  refl _ := rfl
  trans _ _ _ h h' := Eq.trans h' h

theorem conversions_perform (r : Recorder) {c : Call} (hc : c.converted? = none) :
    r.Unconverted (r.perform c).2 := by
  unfold perform
  generalize r.graph.perform c = x
  obtain ⟨_ | _, g⟩ := x
  · rfl
  · exact List.filterMap_cons_none hc

end Recorder

namespace Recorders

/-- In no library was a value converted in between. -/
abbrev Unconverted (rs rs' : Recorders) : Prop := Each Recorder.Unconverted rs rs'

theorem persists_unconverted : Persists Unconverted fun c => c.converted? = none :=
  persists_each fun r _ hc => r.conversions_perform hc

end Recorders

/-- The wrapper whose block shape is used. -/
def Primitive.uses : Primitive → Option ValueWrapper
  | blockRef bb => some bb.value
  | _ => none

/-- Only the use of a block shape converts a value. -/
theorem Primitive.Plain.converted? {a : Primitive} (h : a.Plain) (hu : a.uses = none) {c : Call}
    (hc : a.MayCall c) : c.converted? = none := by
  cases hp : c.plain with
  | true =>
    cases c with
    | valueAsBlock v => exact nomatch hp
    | _ => rfl
  | false =>
    rcases h.mayCall hc hp with ⟨rfl, -⟩ | ⟨r, rfl, -⟩ | ⟨bb, -, rfl⟩
    · rfl
    · rfl
    · exact nomatch hu

section BlockRef

variable {w : World Recorders} {bb : BasicBlock}

/-- A block shape that is not known is asked for once. -/
theorem conversions_blockRef (hn : w.blockRefs.get? bb.value.id = none) (lib : LibraryId) :
    (((Action.blockRef bb).apply w).2.native.recorder lib).conversions =
      if lib = bb.value.context.library then
        bb.value.handle :: (w.native.recorder lib).conversions
      else (w.native.recorder lib).conversions := by
  let r := w.native.recorder bb.value.context.library
  let c := Call.valueAsBlock bb.value.handle
  have hp : NativeSystem.perform bb.value.context.library c w.native =
      (.ok ((r.forced? c).getD (r.graph.valueAsBlock bb.value.handle)),
        w.native.insert bb.value.context.library { r with calls := c :: r.calls }) := rfl
  rw [Action.apply_blockRef, hn, Action.apply_call_of_perform hp]
  dsimp only
  rw [World.native_noteBlockRef, World.emit, Recorders.recorder_insert]
  split
  · next heq =>
    subst heq
    rfl
  · rfl

theorem contains_blockRef (h : Shaped w) {names : Nat → Reference} {log : List Forgetting}
    (hs : Sound names log w) (hbb : .value bb.value ∈ w.held) :
    ((Action.blockRef bb).apply w).2.blockRefs.contains bb.value.id = true := by
  obtain ⟨b, w', hx, -, hb, -⟩ := h.blockRef hs hbb
  rw [hx]
  exact Memory.Graph.contains_iff.mpr ⟨b, hb⟩

end BlockRef

/-! ## The tally -/

/-- The wrapper that the gate of blocks returns. -/
def Primitive.reaches (w : World Recorders) : Primitive → Option ValueWrapper
  | internBlock cx b => ((Action.internBlock cx b).apply w).1.toOption.join.map (·.value)
  | _ => none

/-- The wrapper for whose block shape a library is asked. -/
def Primitive.converts (w : World Recorders) (a : Primitive) : Option ValueWrapper :=
  a.uses.filter fun v =>
    let count (w : World Recorders) := (w.native.recorder v.context.library).conversionCount
    count w < count (a.action.apply w).2

theorem Primitive.converts_of_known {w : World Recorders} {bb : BasicBlock} {b : BlockRef}
    (hb : w.blockRefs.get? bb.value.id = some b) : (blockRef bb).converts w = none := by
  have hx : ((blockRef bb).action.apply w).2 = w := congrArg Prod.snd (apply_blockRef_known hb)
  rw [converts, hx]
  simp

theorem Primitive.converts_of_unknown {w : World Recorders} {bb : BasicBlock}
    (hn : w.blockRefs.get? bb.value.id = none) : (blockRef bb).converts w = some bb.value := by
  have hc := conversions_blockRef hn bb.value.context.library
  rw [if_pos rfl] at hc
  have hact : ((blockRef bb).action.apply w).2 = ((Action.blockRef bb).apply w).2 := rfl
  rw [converts, hact, uses, Option.filter_some_pos]
  simp only [Recorder.conversionCount_eq, hc, List.length_cons, Nat.lt_succ_self, decide_true]

/-- What has become of wrappers, newest first. -/
structure Tally where
  /-- The wrappers for whose block shapes a library was asked. -/
  converted : List ValueWrapper := []
  /-- The wrappers whose block shapes were used. -/
  used : List ValueWrapper := []
  /-- The wrappers that came from the gate of blocks before their block shapes were used. -/
  reached : List ValueWrapper := []

namespace Tally

/-- The tally after a primitive. -/
def note (t : Tally) (w : World Recorders) (a : Primitive) : Tally where
  converted := (a.converts w).toList ++ t.converted
  used := a.uses.toList ++ t.used
  reached := ((a.reaches w).filter fun v => v.id ∉ t.used.map (·.id)).toList ++ t.reached

/-- The invariant: the tally has all conversions, each of a used wrapper, and whatever was used or
reached is known. -/
structure Kept (t : Tally) (w : World Recorders) : Prop where
  log : ∀ lib, (w.native.recorder lib).conversions =
    (t.converted.filter (·.context.library = lib)).map (·.handle)
  used : t.converted ⊆ t.used
  known_used : ∀ v ∈ t.used, w.blockRefs.contains v.id = true
  known_reached : ∀ v ∈ t.reached, w.blockRefs.contains v.id = true
  once : (t.converted.map (·.id)).Nodup
  apart : ∀ v ∈ t.converted, ∀ v' ∈ t.reached, v.id ≠ v'.id

variable {t : Tally} {names : Nat → Reference} {log : List Forgetting} {w w' : World Recorders}

theorem kept_start (s : Recorders) (hs : ∀ lib, (s.recorder lib).conversions = []) :
    Kept {} { native := s } where
  log := hs
  used := List.nil_subset _
  known_used _ h := nomatch h
  known_reached _ h := nomatch h
  once := List.nodup_nil
  apart _ h := nomatch h

namespace Kept

/-- Nothing is converted, and what is known stays known. -/
theorem calm (h : t.Kept w) (hn : w.native.Unconverted w'.native)
    (hb : ∀ i b, w.blockRefs.get? i = some b → w'.blockRefs.get? i = some b) : t.Kept w' := by
  have hknown {i : Nat} (hi : w.blockRefs.contains i = true) : w'.blockRefs.contains i = true := by
    obtain ⟨b, hi⟩ := Memory.Graph.contains_iff.mp hi
    exact Memory.Graph.contains_iff.mpr ⟨b, hb i b hi⟩
  exact
    { h with
      log := fun lib => Eq.trans (hn lib) (h.log lib)
      known_used := fun v hv => hknown (h.known_used v hv)
      known_reached := fun v hv => hknown (h.known_reached v hv) }

/-- The use of a block shape that is known. -/
theorem use_known (h : t.Kept w) {bb : BasicBlock} {b : BlockRef}
    (hb : w.blockRefs.get? bb.value.id = some b) :
    (t.note w (.blockRef bb)).Kept ((Action.blockRef bb).apply w).2 := by
  have hx : ((Action.blockRef bb).apply w).2 = w := congrArg Prod.snd (apply_blockRef_known hb)
  have hnote : t.note w (.blockRef bb) = { t with used := bb.value :: t.used } := by
    rw [note, Primitive.converts_of_known hb]
    rfl
  rw [hx, hnote]
  refine { h with used := List.subset_cons_of_subset _ h.used, known_used := fun v hv => ?_ }
  rcases List.mem_cons.mp hv with rfl | hv
  · exact Memory.Graph.contains_iff.mpr ⟨b, hb⟩
  · exact h.known_used v hv

/-- The use of a block shape that is not known: the wrapper has been neither used nor reached. -/
theorem use_unknown (h : t.Kept w) (hw : Shaped w) (hs : Sound names log w) {bb : BasicBlock}
    (hbb : .value bb.value ∈ w.held) (hn : w.blockRefs.get? bb.value.id = none) :
    (t.note w (.blockRef bb)).Kept ((Action.blockRef bb).apply w).2 := by
  have hnote : t.note w (.blockRef bb) =
      { t with converted := bb.value :: t.converted, used := bb.value :: t.used } := by
    rw [note, Primitive.converts_of_unknown hn]
    rfl
  have hunknown {v : ValueWrapper} (hv : w.blockRefs.contains v.id = true) :
      v.id ≠ bb.value.id := by
    intro hid
    rw [hid, Table.contains, hn] at hv
    cases hv
  have hmono {i : Nat} (hi : w.blockRefs.contains i = true) :
      ((Action.blockRef bb).apply w).2.blockRefs.contains i = true := by
    obtain ⟨b, hi⟩ := Memory.Graph.contains_iff.mp hi
    exact Memory.Graph.contains_iff.mpr ⟨b, hs.blockRefs_perform (a := .blockRef bb) hbb hi⟩
  rw [hnote]
  refine ⟨fun lib => ?_, List.cons_subset_cons _ h.used, fun v hv => ?_,
    fun v hv => hmono (h.known_reached v hv), ?_, fun v hv v' hv' => ?_⟩
  · rw [conversions_blockRef hn]
    by_cases hlib : bb.value.context.library = lib
    · subst hlib
      rw [if_pos rfl, List.filter_cons_of_pos (by simp), List.map_cons, h.log]
    · rw [if_neg (Ne.symm hlib), List.filter_cons_of_neg (by simpa using hlib), h.log]
  · rcases List.mem_cons.mp hv with rfl | hv
    · exact contains_blockRef hw hs hbb
    · exact hmono (h.known_used v hv)
  · rw [List.map_cons, List.nodup_cons]
    refine ⟨fun hm => ?_, h.once⟩
    obtain ⟨v, hv, hid⟩ := List.mem_map.mp hm
    exact hunknown (h.known_used v (h.used hv)) hid
  · rcases List.mem_cons.mp hv with rfl | hv
    · exact (hunknown (h.known_reached v' hv')).symm
    · exact h.apart v hv v' hv'

/-- A wrapper that comes from the gate of blocks is known, and if it has not been used, it has not
been converted. -/
theorem internBlock (h : t.Kept w) (hs : Sound names log w) {cx : Context}
    (hcx : ∃ r ∈ w.held, r.owner = cx) (b : BlockRef) :
    (t.note w (.internBlock cx b)).Kept ((Action.internBlock cx b).apply w).2 := by
  have hn := Recorders.persists_unconverted.internBlock hs hcx (b := b) rfl (fun _ _ => rfl)
    fun _ => rfl
  have hcalm := h.calm hn fun i b' hi => hs.blockRefs_perform (a := .internBlock cx b) hcx hi
  refine { hcalm with known_reached := fun v hv => ?_, apart := fun v hv v' hv' => ?_ }
  · rcases List.mem_append.mp hv with hv | hv
    · obtain ⟨x, w', hx, hg⟩ := gated_internBlock hs hcx b
      have hv := (Option.filter_eq_some_iff.mp (Option.mem_toList.mp hv)).1
      rw [Primitive.reaches, hx] at hv
      rw [hx]
      obtain ⟨bb, hbb, rfl⟩ := Option.map_eq_some_iff.mp hv
      dsimp only at hbb
      rw [hbb] at hg
      cases hg with
      | found ha hg => exact World.contains_noteBlockRef _ _ b
    · exact hcalm.known_reached v hv
  · rcases List.mem_append.mp hv' with hv' | hv'
    · have hnew := (Option.filter_eq_some_iff.mp (Option.mem_toList.mp hv')).2
      intro hid
      exact of_decide_eq_true hnew (List.mem_map.mpr ⟨v, h.used hv, hid⟩)
    · exact h.apart v hv v' hv'

/-- A primitive that neither uses nor reaches anything. -/
theorem perform_calm (h : t.Kept w) (hs : Sound names log w) {a : Primitive}
    (ha : a.Allowed w.held) (hp : a.Plain) (hu : a.uses = none) (hr : a.reaches w = none) :
    (t.note w a).Kept (a.action.apply w).2 := by
  have hnote : t.note w a = t := by
    rw [note, Primitive.converts, hu, hr]
    rfl
  rw [hnote]
  refine h.calm (Recorders.persists_unconverted.perform hs ha fun c hc => ?_) fun i b hb => ?_
  · exact hp.converted? hu hc
  · exact hs.blockRefs_perform ha hb

/-- Every primitive keeps the tally. -/
theorem perform (h : t.Kept w) (hw : Shaped w) (hs : Sound names log w) {a : Primitive}
    (ha : a.Allowed w.held) (hp : a.Plain) : (t.note w a).Kept (a.action.apply w).2 := by
  cases a with
  | blockRef bb =>
    cases hb : w.blockRefs.get? bb.value.id with
    | some b => exact h.use_known hb
    | none => exact h.use_unknown hw hs ha hb
  | internBlock cx b => exact h.internBlock hs ha b
  | _ => exact h.perform_calm hs ha hp rfl rfl

end Kept

end Tally

end CanonIR
