import Mathlib.Data.List.Nodup

/-!
# IR — the slice of LLVM IR that `GeneratedCodeBasicInfo` reads

`generatedcodebasicinfo.cpp` looks at a function's basic blocks in layout order, at each block's
instructions and predecessors, at calls to the marker function `newpc` (whose first two operands
are the address and size of the original instruction), and at the module's
`revamb.input.architecture` metadata. This file models exactly that much of the IR.
-/

namespace Hybitor

/-- A `BasicBlock *`: blocks are compared by identity only. -/
abbrev BlockId := Nat

/-- An instruction as the pass sees it. A `call` names its callee when the call is direct
(`getCalledFunction()` is `nullptr` otherwise) and carries the limited values of its first two
operands, which the pass reads from `newpc` calls only. -/
inductive Instruction where
  | call (callee : Option String) (arg0 arg1 : UInt64)
  | other
  deriving DecidableEq, Repr

/-- The two operands of a direct call to `newpc`
(`Callee != nullptr && Callee->getName() == "newpc"`). -/
def Instruction.newpcArgs : Instruction → Option (UInt64 × UInt64)
  | .call (some "newpc") pc size => some (pc, size)
  | _ => none

/-- A basic block: its identity, its instructions in order, and `predecessors(BB)` in the order
LLVM enumerates them (the use-list order of the block). -/
structure BasicBlock where
  id : BlockId
  insts : List Instruction
  preds : List BlockId
  deriving DecidableEq, Repr

/-- A function: its blocks in layout order, the order `for (BasicBlock &BB : F)` visits them.
Two blocks are never the same block. -/
structure Function where
  blocks : List BasicBlock
  ids_nodup : (blocks.map BasicBlock.id).Nodup

/-- The block with identity `b`; an identity that names no block of `F` reads as an empty block
without predecessors. -/
def Function.block (F : Function) (b : BlockId) : BasicBlock :=
  (F.blocks.find? (·.id == b)).getD ⟨b, [], []⟩

/-- An `Instruction *`: the block it sits in and its index there. -/
structure Position where
  block : BlockId
  index : Nat
  deriving DecidableEq, Repr

/-- `p` is an instruction of `F`. -/
def Function.HasInst (F : Function) (p : Position) : Prop :=
  p.index < (F.block p.block).insts.length

instance (F : Function) (p : Position) : Decidable (F.HasInst p) :=
  inferInstanceAs (Decidable (_ < _))

/-- A `BasicBlock::reverse_iterator`: scanning from it visits the first `upTo` instructions of
`block`, the last of them first. -/
structure Cursor where
  block : BlockId
  upTo : Nat
  deriving DecidableEq, Repr

/-- `BB->rbegin()`: a scan of the whole block. -/
def Function.rbegin (F : Function) (b : BlockId) : Cursor := ⟨b, (F.block b).insts.length⟩

@[simp] theorem Function.rbegin_block (F : Function) (b : BlockId) : (F.rbegin b).block = b := rfl

/-- A `CallInst *` to `newpc`: where it sits and its two operands. -/
structure Marker where
  block : BlockId
  index : Nat
  pc : UInt64
  size : UInt64
  deriving DecidableEq, Repr

/-- `enum BlockType` of `revamb.h`. -/
inductive BlockType where
  | untypedBlock
  | dispatcherBlock
  | anyPCBlock
  | unexpectedPCBlock
  | jumpTargetBlock
  deriving DecidableEq, Repr

/-- The function of the specification's example: the Dispatcher `0`, the AnyPC and UnexpectedPC
blocks `1` and `2`, the jump target `3` at `0x1000` entered from the Dispatcher, and the jump
target `4` at `0x1004` entered from `3`. -/
def exampleFunction : Function :=
  ⟨[⟨0, [.other], []⟩, ⟨1, [.other], []⟩, ⟨2, [.other], []⟩,
    ⟨3, [.call (some "newpc") 0x1000 4, .other], [0]⟩,
    ⟨4, [.call (some "newpc") 0x1004 2, .other], [3]⟩], by decide⟩

/-! ## Lookup -/

theorem find?_id_of_mem {l : List BasicBlock} (hnd : (l.map BasicBlock.id).Nodup)
    {B : BasicBlock} (hB : B ∈ l) : l.find? (·.id == B.id) = some B := by
  induction l with
  | nil => cases hB
  | cons C cs ih =>
    rw [List.map_cons, List.nodup_cons] at hnd
    rcases List.mem_cons.mp hB with rfl | hB
    · simp
    · have hne : C.id ≠ B.id := fun h => hnd.1 (h ▸ List.mem_map_of_mem _ hB)
      simp [List.find?_cons, hne, ih hnd.2 hB]

namespace Function

variable (F : Function)

theorem block_mem_or (b : BlockId) : F.block b ∈ F.blocks ∨ F.block b = ⟨b, [], []⟩ := by
  unfold Function.block
  cases h : F.blocks.find? (·.id == b) with
  | none => exact .inr rfl
  | some B => exact .inl (List.mem_of_find?_eq_some h)

theorem block_of_mem {B : BasicBlock} (hB : B ∈ F.blocks) : F.block B.id = B := by
  simp [Function.block, find?_id_of_mem F.ids_nodup hB]

theorem block_of_not_mem {b : BlockId} (hb : b ∉ F.blocks.map BasicBlock.id) :
    F.block b = ⟨b, [], []⟩ := by
  unfold Function.block
  rw [List.find?_eq_none.mpr fun B hB h => hb (List.mem_map.mpr ⟨B, hB, by simpa using h⟩)]
  rfl

@[simp] theorem block_id (b : BlockId) : (F.block b).id = b := by
  unfold Function.block
  cases h : F.blocks.find? (·.id == b) with
  | none => rfl
  | some B => simpa using List.find?_some h

/-- A block with instructions is a block of `F`. -/
theorem block_mem {b : BlockId} (hne : (F.block b).insts ≠ []) : F.block b ∈ F.blocks :=
  (F.block_mem_or b).resolve_right fun h => hne (by rw [h])

/-- A block with predecessors is a block of `F`. -/
theorem block_mem_of_preds {b : BlockId} (hne : (F.block b).preds ≠ []) :
    F.block b ∈ F.blocks :=
  (F.block_mem_or b).resolve_right fun h => hne (by rw [h])

theorem mem_ids_of_ne_nil {b : BlockId} (hne : (F.block b).insts ≠ []) :
    b ∈ F.blocks.map BasicBlock.id :=
  List.mem_map.mpr ⟨_, F.block_mem hne, F.block_id b⟩

end Function

end Hybitor
