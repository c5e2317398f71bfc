import CanonIR.Binding.Request

/-!
The steps of operations. The calls of a request are plain: contexts are made and disposed, and
values are converted to blocks, by primitives of their own only. A request that changes nothing
looks: it makes calls that leave the objects of a library alone, and neither binds nor forgets
anything.
-/

namespace CanonIR

namespace Call

/-- Whether a call makes or changes objects of a library. -/
def changes : Call → Bool
  | createContext | disposeContext _ | setValueName _ _ | setVolatile _ _ | moveBlockBefore _ _
  | moveBlockAfter _ _ | insertBlockBefore _ _ _ | deleteBlock _ => true
  | _ => false

/-- Whether a call has no primitive of its own. -/
def plain : Call → Bool
  | createContext | disposeContext _ | valueAsBlock _ => false
  | _ => true

end Call

namespace Primitive

/-- A call as such has no primitive of its own. -/
def Plain : Primitive → Prop
  | call _ c => c.plain = true
  | _ => True

/-- A primitive that changes no object, binds no context and forgets no value. -/
def Looks : Primitive → Prop
  | call _ c => c.changes = false ∧ c.plain = true
  | createContext _ _ | attachContext _ _ _ | forgetValue _ _ => False
  | _ => True

/-- A plain primitive that is no gate. -/
def Ungated : Primitive → Prop
  | call _ c => c.plain = true
  | internType _ _ | internValue _ _ | internBlock _ _ => False
  | _ => True

theorem Looks.plain {a : Primitive} (h : a.Looks) : a.Plain := by
  cases a with
  | call lib c => exact h.2
  | _ => trivial

theorem Ungated.plain {a : Primitive} (h : a.Ungated) : a.Plain := by
  cases a with
  | call lib c => exact h
  | _ => trivial

end Primitive

namespace Operation

variable {α β : Type} {P Q : Primitive → Prop} {op : Operation α}

/-- Every primitive of an operation, whatever the outcomes of those before it. -/
def Every (P : Primitive → Prop) : Operation α → Prop
  | done _ => True
  | step a next => P a ∧ ∀ x, (next x).Every P

theorem Every.mono (h : op.Every P) (hPQ : ∀ a, P a → Q a) : op.Every Q := by
  induction op with
  | done x => trivial
  | step a next ih => exact ⟨hPQ a h.1, fun x => ih x (h.2 x)⟩

theorem every_pure (x : α) : (pure x : Operation α).Every P := trivial

theorem every_fail (e : Fault) : (fail e : Operation α).Every P := trivial

theorem every_perform {a : Primitive} (h : P a) : (perform a).Every P := ⟨h, fun _ => trivial⟩

/-- The steps of both parts, those of the second after any result of the first. -/
theorem Every.bind {f : α → Operation β} (h : op.Every P) (hf : ∀ x, (f x).Every P) :
    (op >>= f).Every P := by
  induction op with
  | done x =>
    cases x with
    | ok x => exact hf x
    | error e => trivial
  | step a next ih => exact ⟨h.1, fun x => ih x (h.2 x)⟩

theorem Every.map (h : op.Every P) (f : α → β) : (f <$> op).Every P :=
  h.bind fun x => every_pure (f x)

theorem Every.followedBy {a : Primitive} (h : op.Every P) (ha : P a) :
    (op.followedBy a).Every P := by
  induction op with
  | done x => exact ⟨ha, fun _ => trivial⟩
  | step b next ih => exact ⟨h.1, fun x => ih x (h.2 x)⟩

theorem Every.onFault {a : Primitive} (h : op.Every P) (ha : P a) : (op.onFault a).Every P := by
  induction op with
  | done x =>
    cases x with
    | ok x => trivial
    | error e => exact ⟨ha, fun _ => trivial⟩
  | step b next ih => exact ⟨h.1, fun x => ih x (h.2 x)⟩

/-- To give up a reference is to look, as far as objects and values go. -/
theorem Every.releasing (h : op.Every Primitive.Looks) (r : Reference) :
    (releasing r op).Every Primitive.Looks :=
  h.followedBy (a := .release r) trivial

theorem Every.orRelease (h : op.Every Primitive.Looks) (r : Reference) :
    (orRelease r op).Every Primitive.Looks :=
  h.onFault (a := .release r) trivial

/-! ## Operations that look -/

theorem looks_call (lib : LibraryId) {c : Call} (hc : c.changes = false) (hp : c.plain = true) :
    (call lib c).Every Primitive.Looks := every_perform ⟨hc, hp⟩

theorem looks_ask (v : ValueWrapper) {c : Call} (hc : c.changes = false) (hp : c.plain = true) :
    (ask v c).Every Primitive.Looks := looks_call v.context.library hc hp

theorem looks_walkLimit (lib : LibraryId) : (walkLimit lib).Every Primitive.Looks :=
  every_perform (a := .walkLimit lib) trivial

theorem looks_internType (cx : Context) (h : TypeRef) : (internType cx h).Every Primitive.Looks :=
  every_perform (a := .internType cx h) trivial

theorem looks_internValue (cx : Context) (h : ValueRef) :
    (internValue cx h).Every Primitive.Looks :=
  every_perform (a := .internValue cx h) trivial

theorem looks_internBlock (cx : Context) (b : BlockRef) :
    (internBlock cx b).Every Primitive.Looks :=
  every_perform (a := .internBlock cx b) trivial

/-- A conversion has a primitive of its own, so it counts as no call. -/
theorem looks_blockRef (bb : BasicBlock) : (blockRef bb).Every Primitive.Looks :=
  every_perform (a := .blockRef bb) trivial

theorem looks_hold (r : Reference) : (hold r).Every Primitive.Looks :=
  every_perform (a := .hold r) trivial

theorem looks_release (r : Reference) : (release r).Every Primitive.Looks :=
  every_perform (a := .release r) trivial

theorem looks_downcast (V : View) (v : Option ValueWrapper) :
    (downcast V v).Every Primitive.Looks := by
  unfold downcast Viewed.ofWrapper
  split
  · exact every_pure _
  · split
    · exact every_pure _
    · exact (looks_release _).bind fun _ => every_pure _

theorem looks_intWidth? (t : TypeWrapper) : (intWidth? t).Every Primitive.Looks := by
  unfold intWidth?
  split
  · exact (looks_call _ rfl rfl).bind fun _ => every_pure _
  · exact every_pure _

theorem looks_typeOf (v : ValueWrapper) : (typeOf v).Every Primitive.Looks :=
  (looks_ask v rfl rfl).bind fun h => looks_internType v.context h

theorem looks_stepUse (v : ValueWrapper) (u : UseRef) : (stepUse v u).Every Primitive.Looks :=
  (looks_ask v rfl rfl).bind fun _ => (looks_ask v rfl rfl).bind fun h =>
    (looks_internValue v.context h).bind fun _ => every_pure _

/-- The induction is on the bound of the walk, here and in the other walks. -/
theorem looks_usersFrom (v : ValueWrapper) (limit : Nat) (u : UseRef) :
    (usersFrom v limit u).Every Primitive.Looks := by
  induction limit generalizing u with
  | zero =>
    unfold usersFrom
    split
    · exact every_pure _
    · exact every_fail _
  | succ limit ih =>
    unfold usersFrom
    split
    · exact every_pure _
    · refine (looks_stepUse v u).bind fun x => ?_
      obtain ⟨next, _ | user⟩ := x
      · exact ih next
      · exact ((ih next).bind fun _ => every_pure _).orRelease _

theorem looks_users (v : ValueWrapper) : (users v).Every Primitive.Looks :=
  (looks_ask v rfl rfl).bind fun first => (looks_walkLimit _).bind fun limit =>
    looks_usersFrom v limit first

theorem looks_opcode? (i : Instruction) : (opcode? i).Every Primitive.Looks :=
  (looks_ask i.value rfl rfl).bind fun _ => every_pure _

theorem looks_parentBlock (i : Instruction) : (parentBlock i).Every Primitive.Looks :=
  (looks_ask i.value rfl rfl).bind fun b => looks_internBlock i.value.context b

theorem looks_nextInstruction (i : Instruction) : (nextInstruction i).Every Primitive.Looks :=
  (looks_ask i.value rfl rfl).bind fun h => looks_internValue i.value.context h

theorem looks_successorsAt (t : Terminator) (is : List Nat) :
    (successorsAt t is).Every Primitive.Looks := by
  induction is with
  | nil => exact every_pure _
  | cons i is ih =>
    unfold successorsAt
    refine (looks_ask t.value rfl rfl).bind fun b => ?_
    refine (looks_internBlock _ b).bind fun x => ?_
    cases x with
    | none => exact ih
    | some bb => exact (ih.bind fun _ => every_pure _).orRelease _

theorem looks_terminatorSuccessors (t : Terminator) :
    (terminatorSuccessors t).Every Primitive.Looks :=
  (looks_ask t.value rfl rfl).bind fun count => looks_successorsAt t (List.range count)

theorem looks_iCmpPredicate? (c : Viewed .iCmp) : (iCmpPredicate? c).Every Primitive.Looks :=
  (looks_ask c.value rfl rfl).bind fun _ => every_pure _

theorem looks_fCmpPredicate? (c : Viewed .fCmp) : (fCmpPredicate? c).Every Primitive.Looks :=
  (looks_ask c.value rfl rfl).bind fun _ => every_pure _

theorem looks_parent (bb : BasicBlock) : (parent bb).Every Primitive.Looks :=
  (looks_blockRef bb).bind fun _ => (looks_ask bb.value rfl rfl).bind fun h =>
    looks_internValue _ h

theorem looks_terminator (bb : BasicBlock) : (terminator bb).Every Primitive.Looks :=
  (looks_blockRef bb).bind fun _ => (looks_ask bb.value rfl rfl).bind fun h =>
    (looks_internValue _ h).bind fun v => looks_downcast .terminator v

theorem looks_successors (bb : BasicBlock) : (successors bb).Every Primitive.Looks := by
  refine (looks_terminator bb).bind fun x => ?_
  cases x with
  | none => exact every_pure _
  | some t => exact (looks_terminatorSuccessors t).releasing _

theorem looks_predecessorOf (user : ValueWrapper) :
    (predecessorOf user).Every Primitive.Looks := by
  unfold predecessorOf
  split
  · split
    · exact looks_parentBlock _
    · exact every_pure _
  · exact every_pure _

theorem looks_predecessorsFrom (bb : BasicBlock) (limit : Nat) (found : List BasicBlock)
    (u : UseRef) : (predecessorsFrom bb limit found u).Every Primitive.Looks := by
  induction limit generalizing found u with
  | zero =>
    unfold predecessorsFrom
    split
    · exact every_pure _
    · exact every_fail _
  | succ limit ih =>
    unfold predecessorsFrom
    split
    · exact every_pure _
    · refine (looks_stepUse bb.value u).bind fun x => ?_
      obtain ⟨next, _ | user⟩ := x
      · exact ih found next
      · refine ((looks_predecessorOf user).releasing _).bind fun p => ?_
        cases p with
        | none => exact ih found next
        | some p =>
          dsimp only
          split
          · exact (looks_release _).bind fun _ => ih found next
          · exact ((ih _ next).bind fun _ => every_pure _).orRelease _

theorem looks_predecessors (bb : BasicBlock) : (predecessors bb).Every Primitive.Looks :=
  (looks_ask bb.value rfl rfl).bind fun first => (looks_walkLimit _).bind fun limit =>
    looks_predecessorsFrom bb limit [] first

theorem looks_next (bb : BasicBlock) : (next bb).Every Primitive.Looks :=
  (looks_blockRef bb).bind fun _ => (looks_ask bb.value rfl rfl).bind fun b' =>
    looks_internBlock _ b'

theorem looks_previous (bb : BasicBlock) : (previous bb).Every Primitive.Looks :=
  (looks_blockRef bb).bind fun _ => (looks_ask bb.value rfl rfl).bind fun b' =>
    looks_internBlock _ b'

theorem looks_firstInstruction (bb : BasicBlock) : (firstInstruction bb).Every Primitive.Looks :=
  (looks_blockRef bb).bind fun _ => (looks_ask bb.value rfl rfl).bind fun h =>
    looks_internValue _ h

theorem looks_lastInstruction (bb : BasicBlock) : (lastInstruction bb).Every Primitive.Looks :=
  (looks_blockRef bb).bind fun _ => (looks_ask bb.value rfl rfl).bind fun h =>
    looks_internValue _ h

theorem looks_instructionsFrom (limit : Nat) (v : ValueWrapper) :
    (instructionsFrom limit v).Every Primitive.Looks := by
  induction limit generalizing v with
  | zero =>
    unfold instructionsFrom
    exact (every_fail _).orRelease _
  | succ limit ih =>
    unfold instructionsFrom
    refine Every.orRelease ?_ _
    dsimp only
    split
    · exact every_pure _
    · refine (looks_nextInstruction _).bind fun x => ?_
      cases x with
      | none => exact every_pure _
      | some next => exact (ih next).bind fun _ => every_pure _

theorem looks_instructions (bb : BasicBlock) : (instructions bb).Every Primitive.Looks := by
  refine (looks_walkLimit _).bind fun limit => (looks_firstInstruction bb).bind fun x => ?_
  cases x with
  | none => exact every_pure _
  | some v => exact looks_instructionsFrom limit v

/-! ## Operations that change something -/

/-- An operation that only looks makes plain calls alone. -/
theorem Every.plain (h : op.Every Primitive.Looks) : op.Every Primitive.Plain :=
  h.mono fun _ => Primitive.Looks.plain

theorem plain_ask (v : ValueWrapper) {c : Call} (hp : c.plain = true) :
    (ask v c).Every Primitive.Plain := every_perform (a := .call v.context.library c) hp

/-- The calls that change something are plain, if they neither make nor dispose of contexts. -/
theorem plain_moveBefore (bb position : BasicBlock) :
    (moveBefore bb position).Every Primitive.Plain :=
  (looks_blockRef bb).plain.bind fun _ => (looks_blockRef position).plain.bind fun _ =>
    plain_ask bb.value rfl

theorem plain_moveAfter (bb position : BasicBlock) :
    (moveAfter bb position).Every Primitive.Plain :=
  (looks_blockRef bb).plain.bind fun _ => (looks_blockRef position).plain.bind fun _ =>
    plain_ask bb.value rfl

theorem plain_insertBefore (bb : BasicBlock) (name : String) :
    (insertBefore bb name).Every Primitive.Plain :=
  (looks_blockRef bb).plain.bind fun _ => (plain_ask bb.value rfl).bind fun b =>
    (looks_internBlock _ b).plain

/-- The walk along the instructions asks for handles, which it does not gate. -/
theorem ungated_forgetInstructions (bb : BasicBlock) (limit : Nat) (h : ValueRef) :
    (forgetInstructions bb limit h).Every Primitive.Ungated := by
  induction limit generalizing h with
  | zero =>
    unfold forgetInstructions
    split
    · exact every_pure _
    · exact every_fail _
  | succ limit ih =>
    unfold forgetInstructions
    split
    · exact every_pure _
    · refine Every.bind (every_perform rfl) fun next => ?_
      exact (every_perform (a := .forgetValue bb.value.context h) trivial).bind fun _ => ih next

/-- A deletion passes no gate. -/
theorem ungated_delete (bb : BasicBlock) : (delete bb).Every Primitive.Ungated := by
  refine (every_perform (a := .blockRef bb) trivial).bind fun b => ?_
  refine (every_perform (a := .emit (.deletingBlock bb.value.handle b)) trivial).bind fun _ => ?_
  refine Every.bind (every_perform rfl) fun first => ?_
  refine (every_perform (a := .walkLimit bb.value.context.library) trivial).bind fun limit => ?_
  refine (ungated_forgetInstructions bb limit first).bind fun _ => ?_
  refine (every_perform (a := .forgetValue bb.value.context bb.value.handle) trivial).bind fun _ => ?_
  exact every_perform rfl

end Operation

/-! ## Requests -/

namespace Request

open Operation

/-- Whether a request binds a context or changes objects of a library. -/
def changes : Request → Bool
  | createContext _ _ | attachContext _ _ _ | setName _ _ | setVolatile _ _ | moveBefore _ _
  | moveAfter _ _ | insertBefore _ _ | delete _ => true
  | _ => false

/-- A request that changes nothing only looks. -/
theorem every_looks {q : Request} (hq : q.changes = false) :
    q.operation.Every Primitive.Looks := by
  cases q with
  | internType via h => exact (looks_internType _ h).map _
  | internValue via h => exact (looks_internValue _ h).map _
  | internBlock via b => exact (looks_internBlock _ b).map _
  | copy r => exact ((looks_hold r).bind fun _ => every_pure _).map _
  | contextOf r => exact ((looks_hold _).bind fun _ => every_pure _).map _
  | intWidth t => exact (looks_intWidth? t).map _
  | typeOf v => exact (looks_typeOf v).map _
  | nameOf v => exact Every.map (looks_ask v rfl rfl) _
  | users v => exact (looks_users v).map _
  | firstUse v => exact Every.map (looks_ask v rfl rfl) _
  | stepUse v u => exact (looks_stepUse v u).map _
  | opcode i => exact (looks_opcode? i).map _
  | parentBlock i => exact (looks_parentBlock i).map _
  | nextInstruction i => exact (looks_nextInstruction i).map _
  | terminatorSuccessors t => exact (looks_terminatorSuccessors t).map _
  | isVolatile v => exact Every.map (looks_ask v rfl rfl) _
  | iCmpPredicate c => exact (looks_iCmpPredicate? c).map _
  | fCmpPredicate c => exact (looks_fCmpPredicate? c).map _
  | blockRef bb => exact (looks_blockRef bb).map _
  | parent bb => exact (looks_parent bb).map _
  | terminator bb => exact (looks_terminator bb).map _
  | successors bb => exact (looks_successors bb).map _
  | predecessors bb => exact (looks_predecessors bb).map _
  | next bb => exact (looks_next bb).map _
  | previous bb => exact (looks_previous bb).map _
  | firstInstruction bb => exact (looks_firstInstruction bb).map _
  | lastInstruction bb => exact (looks_lastInstruction bb).map _
  | instructions bb => exact (looks_instructions bb).map _
  | createContext | attachContext | setName | setVolatile | moveBefore | moveAfter
  | insertBefore | delete => exact nomatch hq

/-- The calls of a request are plain. -/
theorem every_plain (q : Request) : q.operation.Every Primitive.Plain := by
  cases hq : q.changes with
  | false => exact (every_looks hq).plain
  | true =>
    cases q with
    | createContext lib options =>
      exact (every_perform (a := .createContext lib options) trivial).map _
    | attachContext lib raw options =>
      exact (every_perform (a := .attachContext lib raw options) trivial).map _
    | setName v name => exact Every.map (plain_ask v rfl) _
    | setVolatile v flag => exact Every.map (plain_ask v rfl) _
    | moveBefore bb position => exact (plain_moveBefore bb position).map _
    | moveAfter bb position => exact (plain_moveAfter bb position).map _
    | insertBefore bb name => exact (plain_insertBefore bb name).map _
    | delete bb => exact ((ungated_delete bb).mono fun _ ha => ha.plain).map _
    | _ => exact nomatch hq

end Request

end CanonIR
