import CanonIR.Native.Recorder
import CanonIR.Proofs.Binding.Steps
import CanonIR.Proofs.Identity.Frame
import CanonIR.Proofs.Memory.Growth

/-!
Recorders over time. What calls of a kind keep up between a recorder and what it becomes, they keep
up in all libraries (`Recorders.persists_each`): calls that change nothing only leave notes, every
call renews the graph, and every call but a disposal lets it grow.
-/

namespace CanonIR

namespace Recorders

variable {R : Recorder → Recorder → Prop} {rs : Recorders} {lib : LibraryId}

/-- Every library is in a relation to what it has become. -/
def Each (R : Recorder → Recorder → Prop) (rs rs' : Recorders) : Prop :=
  ∀ lib, R (rs.recorder lib) (rs'.recorder lib)

variable [IsPreorder Recorder R]

instance : IsPreorder Recorders (Each R) where
  refl rs lib := refl_of R (rs.recorder lib)
  trans _ _ _ h h' lib := trans_of R (h lib) (h' lib)

/-- A change of one library. -/
theorem each_insert {r : Recorder} (h : R (rs.recorder lib) r) : Each R rs (rs.insert lib r) := by
  intro lib'
  rw [recorder_insert]
  split
  · next heq => exact heq ▸ h
  · exact refl_of R _

theorem persists_each {K : Call → Prop} (hR : ∀ r c, K c → R r (r.perform c).2) :
    Persists (Each R) K :=
  fun lib c rs hc => each_insert (hR (rs.recorder lib) c hc)

end Recorders

/-! ## Notes -/

/-- A call that changes no object leaves the graph as it is. -/
theorem Memory.Graph.perform_eq_of_not_changes (g : Graph) {c : Call} (hc : c.changes = false) :
    ∃ a, g.perform c = (.ok a, g) := by
  cases c with
  | createContext | disposeContext | setValueName | setVolatile | moveBlockBefore | moveBlockAfter
  | insertBlockBefore | deleteBlock => exact nomatch hc
  | _ => exact ⟨_, rfl⟩

namespace Recorder

/-- Nothing has changed but for the calls that were noted. -/
def Noted (r r' : Recorder) : Prop := ∃ calls, r' = { r with calls }

instance : IsPreorder Recorder Noted where
  refl r := ⟨r.calls, rfl⟩
  trans r r' r'' h h' := by
    obtain ⟨calls, rfl⟩ := h
    obtain ⟨calls', rfl⟩ := h'
    exact ⟨calls', rfl⟩

theorem noted_perform (r : Recorder) {c : Call} (hc : c.changes = false) :
    r.Noted (r.perform c).2 := by
  obtain ⟨a, ha⟩ := r.graph.perform_eq_of_not_changes hc
  rw [perform, ha]
  exact ⟨_, rfl⟩

/-! ## Growth -/

theorem graph_perform (r : Recorder) (c : Call) :
    (r.perform c).2.graph = (r.graph.perform c).2 := by
  unfold perform
  generalize r.graph.perform c = x
  obtain ⟨_ | _, g⟩ := x <;> rfl

theorem forced_perform (r : Recorder) (c : Call) : (r.perform c).2.forced = r.forced := by
  unfold perform
  generalize r.graph.perform c = x
  obtain ⟨_ | _, g⟩ := x <;> rfl

/-- The graph has grown, and answers are forced on the same calls. -/
structure Grows (r r' : Recorder) : Prop where
  graph : r.graph.Grows r'.graph
  forced : r'.forced = r.forced

instance : IsPreorder Recorder Grows where
  refl _ := ⟨.refl _, rfl⟩
  trans _ _ _ h h' := ⟨h.graph.trans h'.graph, h'.forced.trans h.forced⟩

theorem grows_perform (r : Recorder) {c : Call} (hc : ∀ cx, c ≠ .disposeContext cx) :
    r.Grows (r.perform c).2 where
  graph := by
    rw [graph_perform]
    exact r.graph.grows_perform hc
  forced := r.forced_perform c

/-- The graph stays well formed, with new value shapes for new blocks, and answers are forced on the
same calls. -/
structure Renews (r r' : Recorder) : Prop where
  graph : r.graph.Renews r'.graph
  wellFormed : r.graph.WellFormed → r'.graph.WellFormed
  forced : r'.forced = r.forced

instance : IsPreorder Recorder Renews where
  refl _ := ⟨.of_blocks (Nat.le_refl _) rfl, id, rfl⟩
  trans _ _ _ h h' :=
    ⟨h.graph.trans h'.graph, h'.wellFormed ∘ h.wellFormed, h'.forced.trans h.forced⟩

theorem renews_perform (r : Recorder) (c : Call) : r.Renews (r.perform c).2 where
  graph := by
    rw [graph_perform]
    exact r.graph.renews_perform c
  wellFormed h := by
    rw [graph_perform]
    exact h.perform c
  forced := r.forced_perform c

end Recorder

/-! ## All libraries -/

namespace Recorders

/-- No library has changed but for the calls that were noted. -/
abbrev Noted (rs rs' : Recorders) : Prop := Each Recorder.Noted rs rs'

/-- All libraries have grown. -/
abbrev Grow (rs rs' : Recorders) : Prop := Each Recorder.Grows rs rs'

/-- All libraries have stayed well formed, with new value shapes for new blocks. -/
abbrev Renew (rs rs' : Recorders) : Prop := Each Recorder.Renews rs rs'

theorem persists_noted : Persists Noted fun c => c.changes = false :=
  persists_each fun r _ hc => r.noted_perform hc

/-- Questions do not change what a library without forced answers says to a question. -/
theorem Noted.perform {rs s : Recorders} (hs : rs.Noted s) {lib : LibraryId}
    (hf : (rs.recorder lib).forced = ∅) {c : Call} (hc : c.changes = false) {a : c.Answer}
    (ha : ((rs.recorder lib).graph.perform c).1 = .ok a) :
    ∃ s', NativeSystem.perform lib c s = (.ok a, s') ∧ rs.Noted s' := by
  obtain ⟨calls, hr⟩ := hs lib
  obtain ⟨a', ha'⟩ := (rs.recorder lib).graph.perform_eq_of_not_changes hc
  obtain rfl : a' = a := by
    rw [ha'] at ha
    exact Except.ok.inj ha
  have hf' : (s.recorder lib).forced = ∅ := by rw [hr]; exact hf
  have hc' : (s.recorder lib).graph.perform c = (.ok a', (rs.recorder lib).graph) := by
    rw [hr]
    exact ha'
  have hp := perform_of_unforced hf' hc'
  have hn := persists_noted lib c s hc
  rw [hp] at hn
  exact ⟨_, hp, trans_of Noted hs hn⟩

/-- A question to a library without forced answers, and its answer. -/
theorem apply_call_of_unforced {w : World Recorders} {lib : LibraryId}
    (hf : (w.native.recorder lib).forced = ∅) {c : Call} (hc : c.changes = false) {a : c.Answer}
    (ha : ((w.native.recorder lib).graph.perform c).1 = .ok a) :
    ∃ s, (Action.call lib c).apply w = (.ok a, { w with native := s }) ∧ w.native.Noted s := by
  obtain ⟨s, hp, hn⟩ := Noted.perform (refl_of Noted w.native) hf hc ha
  exact ⟨s, Action.apply_call_of_perform hp, hn⟩

theorem Noted.graph {rs s : Recorders} (hs : rs.Noted s) (lib : LibraryId) :
    (s.recorder lib).graph = (rs.recorder lib).graph := by
  obtain ⟨calls, hr⟩ := hs lib
  rw [hr]

theorem Noted.renew {rs s : Recorders} (hs : rs.Noted s) : rs.Renew s := by
  intro lib
  obtain ⟨calls, hr⟩ := hs lib
  rw [hr]
  exact ⟨.of_blocks (Nat.le_refl _) rfl, id, rfl⟩

theorem persists_grow : Persists Grow fun c => ∀ cx, c ≠ .disposeContext cx :=
  persists_each fun r _ hc => r.grows_perform hc

theorem persists_renew : Persists Renew fun _ => True :=
  persists_each fun r c _ => r.renews_perform c

end Recorders

end CanonIR
