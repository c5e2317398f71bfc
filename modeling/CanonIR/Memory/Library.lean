import CanonIR.Memory.Graph
import CanonIR.Native.System

/-!
The in-memory library answers calls from its graph. Handles that it does not know get neutral
answers: zero, false, an empty name, a null handle, and for the kind of a type a number that is no
kind's.
-/

namespace CanonIR.Memory.Graph

/-- The kind number of an unknown type. -/
def unknownTypeKind : Nat := 0xffffffff

/-- The largest number of successors that is answered; further ones are not counted. -/
def maxSuccessors : Nat := 0xffffffff

/-- A property of a value, or the neutral answer for an unknown one. -/
def ofValue {α : Type} (g : Graph) (v : ValueRef) (neutral : α) (f : ValueEntry → α) : α :=
  (g.values.get? v).elim neutral f

/-- A property of a block, or the neutral answer for an unknown one. -/
def ofBlock {α : Type} (g : Graph) (b : BlockRef) (neutral : α) (f : BlockEntry → α) : α :=
  (g.blocks.get? b).elim neutral f

theorem ofValue_of_get? {α : Type} {g : Graph} {v : ValueRef} {e : ValueEntry}
    (he : g.values.get? v = some e) (neutral : α) (f : ValueEntry → α) :
    g.ofValue v neutral f = f e := by
  rw [ofValue, he, Option.elim_some]

theorem ofBlock_of_get? {α : Type} {g : Graph} {b : BlockRef} {e : BlockEntry}
    (he : g.blocks.get? b = some e) (neutral : α) (f : BlockEntry → α) :
    g.ofBlock b neutral f = f e := by
  rw [ofBlock, he, Option.elim_some]

/-- The element behind another one; null behind the last. -/
def after {k : HandleKind} (l : List (Handle k)) (h : Handle k) : Handle k :=
  ((l.idxOf? h).bind fun i => l[i + 1]?).getD .null

/-- The use behind another one in the list of the used value. -/
def nextUse (g : Graph) (u : UseRef) : UseRef :=
  match g.uses.get? u with
  | some e => g.ofValue e.used .null fun v => after v.uses u
  | none => .null

/-- The instruction behind another one in its block. -/
def nextInstruction (g : Graph) (v : ValueRef) : ValueRef :=
  g.ofValue v .null fun e => g.ofBlock e.parent .null fun b => after b.instructions v

/-- The last instruction of a block, if it is a terminator. -/
def blockTerminator (g : Graph) (b : BlockRef) : ValueRef :=
  match g.ofBlock b none (·.instructions.getLast?) with
  | some v => if g.ofValue v false (·.probes.contains .terminatorInst) then v else .null
  | none => .null

/-- The block shape of a value. -/
def valueAsBlock (g : Graph) (v : ValueRef) : BlockRef :=
  (g.blocks.entries.find? (·.2.value == v)).elim .null (·.1)

/-- The neighbour of a block in its layout, where `neighbour` says which position that is. -/
def blockBeside (g : Graph) (b : BlockRef) (neighbour : Nat → Option Nat) : BlockRef :=
  (do
    let (f, index) ← g.blockPosition? b
    let index ← neighbour index
    (g.layout f)[index]?).getD .null

def nextBlock (g : Graph) (b : BlockRef) : BlockRef :=
  g.blockBeside b fun i => some (i + 1)

def previousBlock (g : Graph) (b : BlockRef) : BlockRef :=
  g.blockBeside b fun
    | 0 => none
    | i + 1 => some i

/-- The complaint about a position behind the end of a list. -/
def insertionTrap (index length : Nat) : NativeTrap :=
  ⟨"insertion index (is " ++ toString index ++ ") should be <= len (is " ++ toString length ++ ")"⟩

/-- Takes a block out of its layout and puts it `offset` places behind the index that `position`
then has, in the layout of its own function. The block stays out if `position` has no index then. -/
def moveBlock (g : Graph) (b position : BlockRef) (offset : Nat) : Except NativeTrap Unit × Graph :=
  match g.detachBlock? b with
  | none => (.ok (), g)
  | some (f, g) =>
    match g.blockPosition? position with
    | none => (.ok (), g)
    | some (_, index) =>
      let blocks := g.layout f
      if blocks.length < index + offset then
        (.error (insertionTrap (index + offset) blocks.length), g)
      else
        (.ok (), { g with layouts := g.layouts.insert f (blocks.insertIdx (index + offset) b) })

/-- A new block in front of another one, which must be in a layout. -/
def insertBlockBefore (g : Graph) (before : BlockRef) (name : String) : BlockRef × Graph :=
  match g.blockPosition? before with
  | none => (.null, g)
  | some (f, index) =>
    let (b, g) := g.newBlock f name
    (b, { g with layouts := g.layouts.insert f ((g.layout f).insertIdx index b) })

/-- The graph without a block, its value shape and its instructions. Uses stay. -/
def deleteBlock (g : Graph) (b : BlockRef) : Graph :=
  let g := ((g.detachBlock? b).map (·.2)).getD g
  match g.blocks.get? b with
  | none => g
  | some e =>
    { g with
      blocks := g.blocks.erase b
      values := (e.value :: e.instructions).foldl Table.erase g.values }

/-- Answers a call. -/
def perform (g : Graph) : (c : Call) → Except NativeTrap c.Answer × Graph
  | .createContext => let (cx, g) := g.newContext; (.ok cx, g)
  | .disposeContext cx => (.ok (), { g with disposed := g.disposed ++ [cx] })
  | .typeKind ty => (.ok ((g.types.get? ty).elim unknownTypeKind (·.kind)), g)
  | .intTypeWidth ty => (.ok ((g.types.get? ty).elim 0 (·.width)), g)
  | .isA v p => (.ok (g.ofValue v false (·.probes.contains p)), g)
  | .constOpcode v => (.ok (g.ofValue v 0 (·.opcode)), g)
  | .typeOf v => (.ok (g.ofValue v .null (·.type)), g)
  | .valueName v => (.ok (g.ofValue v "" (·.name)), g)
  | .setValueName v name =>
    (.ok (), { g with values := g.values.modify v fun e => { e with name } })
  | .firstUse v => (.ok (g.ofValue v .null (·.uses.headD .null)), g)
  | .nextUse u => (.ok (g.nextUse u), g)
  | .useUser u => (.ok ((g.uses.get? u).elim .null (·.user)), g)
  | .instructionOpcode v => (.ok (g.ofValue v 0 (·.opcode)), g)
  | .instructionParent v => (.ok (g.ofValue v .null (·.parent)), g)
  | .nextInstruction v => (.ok (g.nextInstruction v), g)
  | .isVolatile v => (.ok (g.ofValue v false (·.isVolatile)), g)
  | .setVolatile v flag =>
    (.ok (), { g with values := g.values.modify v fun e => { e with isVolatile := flag } })
  | .iCmpPredicate v => (.ok (g.ofValue v 0 (·.predicate)), g)
  | .fCmpPredicate v => (.ok (g.ofValue v 0 (·.predicate)), g)
  | .successorCount v => (.ok (g.ofValue v 0 fun e => min e.successors.length maxSuccessors), g)
  | .successor v i => (.ok (g.ofValue v .null fun e => e.successors[i]?.getD .null), g)
  | .valueAsBlock v => (.ok (g.valueAsBlock v), g)
  | .blockAsValue b => (.ok (g.blockValue b), g)
  | .blockParent b => (.ok (g.ofBlock b .null (·.function)), g)
  | .blockTerminator b => (.ok (g.blockTerminator b), g)
  | .nextBlock b => (.ok (g.nextBlock b), g)
  | .previousBlock b => (.ok (g.previousBlock b), g)
  | .firstInstruction b => (.ok (g.ofBlock b .null (·.instructions.headD .null)), g)
  | .lastInstruction b => (.ok (g.ofBlock b .null (·.instructions.getLast?.getD .null)), g)
  | .moveBlockBefore b position => g.moveBlock b position 0
  | .moveBlockAfter b position => g.moveBlock b position 1
  | .insertBlockBefore _ before name => let (b, g) := g.insertBlockBefore before name; (.ok b, g)
  | .deleteBlock b => (.ok (), g.deleteBlock b)

/-- Every walk follows objects that were allocated, or one that took a dead address. -/
instance : NativeSystem Graph where
  perform _ c g := g.perform c
  walkLimit _ g := g.allocated + 1

end CanonIR.Memory.Graph
