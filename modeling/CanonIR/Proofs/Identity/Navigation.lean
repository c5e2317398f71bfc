import CanonIR.Proofs.Identity.Ownership

/-!
Every operation on wrapped objects is safe: it needs no more than references to its operands, hands
over references to its results, and keeps nothing, also if it fails on the way.
-/

namespace CanonIR.Operation

open Carries (references)

variable {α : Type} [Carries α] {borrowed own rest : List Reference}

/-! ## Types and values -/

/-- A question goes to the library, and needs no reference to the wrapper. -/
theorem hands_ask (v : ValueWrapper) (c : Call) : Hands borrowed own (ask v c) own :=
  hands_call v.context.library c

theorem hands_intWidth? (t : TypeWrapper) : Hands borrowed own (intWidth? t) own := by
  unfold intWidth?
  split
  · exact (hands_call _ _).bind fun _ => hands_pure (List.Perm.refl _)
  · exact hands_pure (List.Perm.refl _)

variable {v : ValueWrapper}

theorem hands_typeOf (hv : .value v ∈ borrowed ++ own) : Hands borrowed own (typeOf v) own :=
  (hands_ask v _).bind fun h => hands_internType (exists_owner hv) h

theorem hands_nameOf (v : ValueWrapper) : Hands borrowed own (nameOf v) own := hands_ask v _

theorem hands_setName (v : ValueWrapper) (name : String) :
    Hands borrowed own (setName v name) own := hands_ask v _

/-- The user that is gated becomes an own reference of the walk. -/
theorem hands_stepUse (hv : .value v ∈ borrowed ++ own) (u : UseRef) :
    Hands borrowed own (stepUse v u) own := by
  refine (hands_ask v _).bind fun next => (hands_ask v _).bind fun h => ?_
  exact (hands_internValue (exists_owner hv) h).bind fun user => hands_pure (List.Perm.refl _)

/-- What is there stays there when something comes. -/
theorem mem_cons_own {r r' : Reference} (hr : r ∈ borrowed ++ own) : r ∈ borrowed ++ r' :: own :=
  List.mem_append.mpr ((List.mem_append.mp hr).imp_right (List.mem_cons_of_mem r'))

/-- Keeping a reference for the result, ahead of others. -/
theorem hands_cons {x : α} {r : Reference} {op : Operation (List α)} (hx : references x = [r])
    (h : Hands borrowed (r :: own) op (r :: own)) :
    Hands borrowed (r :: own) (orRelease r do return x :: (← op)) own := by
  refine Safe.orRelease (Safe.bind h (fun l => ?_) fun e => List.Perm.refl _)
  have hl : references (x :: l) = r :: references l := by
    have : references (x :: l) = references x ++ references l := List.flatMap_cons
    rw [this, hx]
    rfl
  have hp : (references l ++ r :: own).Perm (references (x :: l) ++ own) := by
    rw [hl]
    exact List.perm_middle
  exact hp

/-- A user that was gated is kept ahead of the rest, and is given up if the rest fails. The
induction is on the bound of the walk. -/
theorem hands_usersFrom (hv : .value v ∈ borrowed ++ own) (limit : Nat) (u : UseRef) :
    Hands borrowed own (usersFrom v limit u) own := by
  induction limit generalizing own u with
  | zero =>
    unfold usersFrom
    split
    · exact hands_pure (List.Perm.refl _)
    · exact hands_fail (List.Perm.refl _)
  | succ limit ih =>
    unfold usersFrom
    split
    · exact hands_pure (List.Perm.refl _)
    · refine (hands_stepUse hv u).bind fun x => ?_
      obtain ⟨next, _ | user⟩ := x
      · exact ih hv next
      · exact hands_cons rfl (ih (mem_cons_own hv) next)

theorem hands_users (hv : .value v ∈ borrowed ++ own) : Hands borrowed own (users v) own :=
  (hands_ask v _).bind fun first => (hands_walkLimit _).bind fun limit =>
    hands_usersFrom hv limit first

/-! ## Instructions and terminators -/

theorem hands_opcode? (i : Instruction) : Hands borrowed own (opcode? i) own :=
  (hands_ask i.value _).bind fun n => hands_pure (by
    cases Opcode.ofNumber? n <;> exact List.Perm.refl _)

theorem hands_parentBlock {i : Instruction} (hi : .value i.value ∈ borrowed ++ own) :
    Hands borrowed own (parentBlock i) own :=
  (hands_ask i.value _).bind fun b => hands_internBlock (exists_owner hi) b

theorem hands_nextInstruction {i : Instruction} (hi : .value i.value ∈ borrowed ++ own) :
    Hands borrowed own (nextInstruction i) own :=
  (hands_ask i.value _).bind fun h => hands_internValue (exists_owner hi) h

/-- Each successor is kept ahead of those at the positions that are left. -/
theorem hands_successorsAt {t : Terminator} (ht : .value t.value ∈ borrowed ++ own)
    (is : List Nat) : Hands borrowed own (successorsAt t is) own := by
  induction is generalizing own with
  | nil => exact hands_pure (List.Perm.refl _)
  | cons i is ih =>
    unfold successorsAt
    refine (hands_ask t.value _).bind fun b => ?_
    refine (hands_internBlock (exists_owner ht) b).bind fun x => ?_
    cases x with
    | none => exact ih ht
    | some bb => exact hands_cons rfl (ih (mem_cons_own ht))

theorem hands_terminatorSuccessors {t : Terminator} (ht : .value t.value ∈ borrowed ++ own) :
    Hands borrowed own (terminatorSuccessors t) own :=
  (hands_ask t.value _).bind fun count => hands_successorsAt ht (List.range count)

theorem hands_iCmpPredicate? (c : Viewed .iCmp) : Hands borrowed own (iCmpPredicate? c) own :=
  (hands_ask c.value _).bind fun n => hands_pure (by
    cases IntPredicate.ofNumber? n <;> exact List.Perm.refl _)

theorem hands_fCmpPredicate? (c : Viewed .fCmp) : Hands borrowed own (fCmpPredicate? c) own :=
  (hands_ask c.value _).bind fun n => hands_pure (by
    cases RealPredicate.ofNumber? n <;> exact List.Perm.refl _)

/-! ## Blocks -/

variable {bb : BasicBlock}

theorem hands_parent (hb : .value bb.value ∈ borrowed ++ own) :
    Hands borrowed own (parent bb) own :=
  (hands_blockRef hb).bind fun _ => (hands_ask bb.value _).bind fun h =>
    hands_internValue (exists_owner hb) h

/-- The gated value becomes the terminator, or is given up if it is none. -/
theorem hands_terminator (hb : .value bb.value ∈ borrowed ++ own) :
    Hands borrowed own (terminator bb) own :=
  (hands_blockRef hb).bind fun _ => (hands_ask bb.value _).bind fun h =>
    (hands_internValue (exists_owner hb) h).bind fun v => hands_downcast .terminator v

/-- An own reference that an operation uses and gives up afterwards. -/
theorem hands_releasing {r : Reference} {op : Operation α}
    (h : Hands borrowed (r :: own) op (r :: own)) :
    Hands borrowed (r :: own) (releasing r op) own := by
  refine Safe.releasing (Safe.congr h fun x => ?_)
  cases x with
  | ok x => exact List.perm_middle
  | error e => exact List.Perm.refl _

/-- The terminator is an own reference until its successors are gated. -/
theorem hands_successors (hb : .value bb.value ∈ borrowed ++ own) :
    Hands borrowed own (successors bb) own := by
  refine (hands_terminator hb).bind fun x => ?_
  cases x with
  | none => exact hands_pure (List.Perm.refl _)
  | some t =>
    exact hands_releasing
      (hands_terminatorSuccessors (List.mem_append_right borrowed List.mem_cons_self))

theorem hands_predecessorOf {user : ValueWrapper} (hu : .value user ∈ borrowed ++ own) :
    Hands borrowed own (predecessorOf user) own := by
  unfold predecessorOf
  split
  · cases hd : user.downcast? .instruction with
    | none => exact hands_pure (List.Perm.refl _)
    | some i =>
      obtain rfl := ValueWrapper.value_of_downcast? hd
      exact hands_parentBlock hu
  · exact hands_pure (List.Perm.refl _)

/-- A block is kept where it is found first, and given up where it was found before; its user is
given up in either case. -/
theorem hands_predecessorsFrom (hb : .value bb.value ∈ borrowed ++ own) (limit : Nat)
    (found : List BasicBlock) (u : UseRef) :
    Hands borrowed own (predecessorsFrom bb limit found u) own := by
  induction limit generalizing own found u with
  | zero =>
    unfold predecessorsFrom
    split
    · exact hands_pure (List.Perm.refl _)
    · exact hands_fail (List.Perm.refl _)
  | succ limit ih =>
    unfold predecessorsFrom
    split
    · exact hands_pure (List.Perm.refl _)
    · refine (hands_stepUse hb u).bind fun x => ?_
      obtain ⟨next, _ | user⟩ := x
      · exact ih hb found next
      · have hu : .value user ∈ borrowed ++ .value user :: own :=
          List.mem_append_right borrowed List.mem_cons_self
        refine (hands_releasing (hands_predecessorOf hu)).bind fun p => ?_
        cases p with
        | none => exact ih hb found next
        | some p =>
          dsimp only
          split
          · exact (hands_release (List.Perm.refl _)).bind fun _ => ih hb found next
          · exact hands_cons rfl (ih (mem_cons_own hb) _ next)

theorem hands_predecessors (hb : .value bb.value ∈ borrowed ++ own) :
    Hands borrowed own (predecessors bb) own :=
  (hands_ask bb.value _).bind fun first => (hands_walkLimit _).bind fun limit =>
    hands_predecessorsFrom hb limit [] first

theorem hands_next (hb : .value bb.value ∈ borrowed ++ own) : Hands borrowed own (next bb) own :=
  (hands_blockRef hb).bind fun _ => (hands_ask bb.value _).bind fun b' =>
    hands_internBlock (exists_owner hb) b'

theorem hands_previous (hb : .value bb.value ∈ borrowed ++ own) :
    Hands borrowed own (previous bb) own :=
  (hands_blockRef hb).bind fun _ => (hands_ask bb.value _).bind fun b' =>
    hands_internBlock (exists_owner hb) b'

theorem hands_firstInstruction (hb : .value bb.value ∈ borrowed ++ own) :
    Hands borrowed own (firstInstruction bb) own :=
  (hands_blockRef hb).bind fun _ => (hands_ask bb.value _).bind fun h =>
    hands_internValue (exists_owner hb) h

theorem hands_lastInstruction (hb : .value bb.value ∈ borrowed ++ own) :
    Hands borrowed own (lastInstruction bb) own :=
  (hands_blockRef hb).bind fun _ => (hands_ask bb.value _).bind fun h =>
    hands_internValue (exists_owner hb) h

/-- The walk owns the wrapper that it starts from, and hands it over or gives it up. -/
theorem hands_instructionsFrom (limit : Nat) (v : ValueWrapper) :
    Hands borrowed (.value v :: own) (instructionsFrom limit v) own := by
  induction limit generalizing own v with
  | zero =>
    unfold instructionsFrom
    exact Safe.orRelease (List.Perm.refl _)
  | succ limit ih =>
    unfold instructionsFrom
    dsimp only
    cases hd : v.downcast? .instruction with
    | none => exact Safe.orRelease (List.Perm.refl _)
    | some i =>
      obtain rfl := ValueWrapper.value_of_downcast? hd
      have hi : .value i.value ∈ borrowed ++ .value i.value :: own :=
        List.mem_append_right borrowed List.mem_cons_self
      refine Safe.orRelease (Safe.bind (hands_nextInstruction hi) (fun x => ?_) fun e => ?_)
      · cases x with
        | none => exact List.Perm.refl _
        | some next =>
          refine Safe.bind (ih next) (fun l => ?_) fun e => List.Perm.refl _
          exact List.perm_middle
      · exact List.Perm.refl _

theorem hands_instructions (hb : .value bb.value ∈ borrowed ++ own) :
    Hands borrowed own (instructions bb) own := by
  refine (hands_walkLimit _).bind fun limit => (hands_firstInstruction hb).bind fun x => ?_
  cases x with
  | none => exact hands_pure (List.Perm.refl _)
  | some v => exact hands_instructionsFrom limit v

/-! ## Changes -/

/-- A move needs both blocks, and hands over nothing. -/
theorem hands_moveBefore {position : BasicBlock} (hb : .value bb.value ∈ borrowed ++ own)
    (hp : .value position.value ∈ borrowed ++ own) :
    Hands borrowed own (moveBefore bb position) own :=
  (hands_blockRef hb).bind fun _ => (hands_blockRef hp).bind fun _ => hands_ask bb.value _

theorem hands_moveAfter {position : BasicBlock} (hb : .value bb.value ∈ borrowed ++ own)
    (hp : .value position.value ∈ borrowed ++ own) :
    Hands borrowed own (moveAfter bb position) own :=
  (hands_blockRef hb).bind fun _ => (hands_blockRef hp).bind fun _ => hands_ask bb.value _

theorem hands_insertBefore (hb : .value bb.value ∈ borrowed ++ own) (name : String) :
    Hands borrowed own (insertBefore bb name) own :=
  (hands_blockRef hb).bind fun _ => (hands_ask bb.value _).bind fun b =>
    hands_internBlock (exists_owner hb) b

/-- To forget an instruction is to take its wrapper out of the cache, not to give up a reference. -/
theorem hands_forgetInstructions (hb : .value bb.value ∈ borrowed ++ own) (limit : Nat)
    (h : ValueRef) : Hands borrowed own (forgetInstructions bb limit h) own := by
  induction limit generalizing h with
  | zero =>
    unfold forgetInstructions
    split
    · exact hands_pure (List.Perm.refl _)
    · exact hands_fail (List.Perm.refl _)
  | succ limit ih =>
    unfold forgetInstructions
    split
    · exact hands_pure (List.Perm.refl _)
    · refine (hands_ask bb.value _).bind fun next => ?_
      exact (hands_forgetValue (exists_owner hb) h).bind fun _ => ih next

theorem hands_delete (hb : .value bb.value ∈ borrowed ++ own) :
    Hands borrowed own (delete bb) own := by
  refine (hands_blockRef hb).bind fun _ => (hands_emit _).bind fun _ => ?_
  refine (hands_ask bb.value _).bind fun first => (hands_walkLimit _).bind fun limit => ?_
  refine (hands_forgetInstructions hb limit first).bind fun _ => ?_
  exact (hands_forgetValue (exists_owner hb) _).bind fun _ => hands_ask bb.value _

end CanonIR.Operation

/-! ## Requests -/

namespace CanonIR.Request

open Operation

/-- What an operation on a request has in the end: the references that it hands over. -/
def handed : Except Fault (List Reference) → List Reference
  | .ok rs => rs
  | .error _ => []

variable {α : Type} [Carries α] {borrowed : List Reference} {op : Operation α}

theorem safe_handing (h : Hands borrowed [] op []) : (handing op).Safe borrowed handed [] := by
  refine Safe.bind h (fun x => ?_) fun e => List.Perm.refl _
  have hp : (Carries.references x ++ []).Perm (Carries.references x) := by
    rw [List.append_nil]
  exact hp

theorem mem_head {r : Reference} {l : List Reference} : r ∈ (r :: l) ++ [] :=
  List.mem_append_left [] List.mem_cons_self

/-- Every request needs its operands only, and hands over all that it takes. -/
theorem safe (q : Request) : q.operation.Safe q.operands handed [] := by
  cases q with
  | createContext lib options => exact safe_handing (hands_createContext lib options)
  | attachContext lib raw options => exact safe_handing (hands_attachContext lib raw options)
  | internType via h => exact safe_handing (hands_internType ⟨via, mem_head, rfl⟩ h)
  | internValue via h => exact safe_handing (hands_internValue ⟨via, mem_head, rfl⟩ h)
  | internBlock via b => exact safe_handing (hands_internBlock ⟨via, mem_head, rfl⟩ b)
  | copy r => exact safe_handing (hands_copy rfl (Or.inl mem_head))
  | contextOf r => exact safe_handing (hands_copy rfl (Or.inr ⟨r, mem_head, rfl⟩))
  | intWidth t => exact safe_handing (hands_intWidth? t)
  | typeOf v => exact safe_handing (hands_typeOf mem_head)
  | nameOf v => exact safe_handing (hands_nameOf v)
  | setName v name => exact safe_handing (hands_setName v name)
  | users v => exact safe_handing (hands_users mem_head)
  | firstUse v => exact safe_handing (hands_ask v _)
  | stepUse v u => exact safe_handing (hands_stepUse mem_head u)
  | opcode i => exact safe_handing (hands_opcode? i)
  | parentBlock i => exact safe_handing (hands_parentBlock mem_head)
  | nextInstruction i => exact safe_handing (hands_nextInstruction mem_head)
  | terminatorSuccessors t => exact safe_handing (hands_terminatorSuccessors mem_head)
  | isVolatile v => exact safe_handing (hands_ask v _)
  | setVolatile v flag => exact safe_handing (hands_ask v _)
  | iCmpPredicate c => exact safe_handing (hands_iCmpPredicate? c)
  | fCmpPredicate c => exact safe_handing (hands_fCmpPredicate? c)
  | blockRef bb => exact safe_handing (hands_blockRef mem_head)
  | parent bb => exact safe_handing (hands_parent mem_head)
  | terminator bb => exact safe_handing (hands_terminator mem_head)
  | successors bb => exact safe_handing (hands_successors mem_head)
  | predecessors bb => exact safe_handing (hands_predecessors mem_head)
  | next bb => exact safe_handing (hands_next mem_head)
  | previous bb => exact safe_handing (hands_previous mem_head)
  | firstInstruction bb => exact safe_handing (hands_firstInstruction mem_head)
  | lastInstruction bb => exact safe_handing (hands_lastInstruction mem_head)
  | instructions bb => exact safe_handing (hands_instructions mem_head)
  | moveBefore bb position =>
    exact safe_handing (hands_moveBefore mem_head (List.mem_cons_of_mem _ mem_head))
  | moveAfter bb position =>
    exact safe_handing (hands_moveAfter mem_head (List.mem_cons_of_mem _ mem_head))
  | insertBefore bb name => exact safe_handing (hands_insertBefore mem_head name)
  | delete bb => exact safe_handing (hands_delete mem_head)

end CanonIR.Request
