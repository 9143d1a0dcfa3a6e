import Hybitor.IR

/-!
# RunOnFunction — the classification pass of `GeneratedCodeBasicInfo`

`runOnFunction` reads the delay-slot size and the name of the PC variable from the module's
`revamb.input.architecture` metadata, then visits the non-empty blocks of the function in layout
order: the Dispatcher, AnyPC and UnexpectedPC blocks fill one slot each, asserting the slot was
empty, and a jump target is recorded in `JumpTargets` under the address of its leading `newpc`
call, without a check. At the end all three slots must be filled.

`getType`, declared in the header `generatedcodebasicinfo.h`, is not part of the sources; it is a
parameter here, and so is the module.
-/

namespace Hybitor

/-! ## 1. The module's metadata -/

/-- A metadata operand, as `QuickMetadata::extract` reads it. -/
inductive Metadata where
  /-- A `ConstantAsMetadata` of a `ConstantInt`, by its limited value. -/
  | constant (value : UInt64)
  /-- An `MDString`. -/
  | string (value : String)
  | other
  deriving DecidableEq, Repr

/-- An operand of a named metadata node: an `MDTuple` and its operands, or another node. -/
inductive MDNode where
  | tuple (operands : List Metadata)
  | other
  deriving DecidableEq, Repr

/-- What the pass reads of the module: its named metadata and its global variables' names. -/
structure Module where
  namedMetadata : List (String × List MDNode)
  globals : List String
  deriving DecidableEq, Repr

/-- Lines 32–39: the first operand of `revamb.input.architecture` as an `MDTuple`, its operand 0
as a `uint32_t` and operand 1 as a string, and the global variable of that name (`nullptr`, here
`none`, when the module has none). `none` when an operand is missing or of the wrong kind, where
`getOperand`, `cast` or `extract` fails. -/
def Module.readArchitecture (M : Module) : Option (UInt32 × Option String) :=
  match ((M.namedMetadata.lookup "revamb.input.architecture").getD []).head? with
  | some (.tuple (.constant delay :: .string name :: _)) =>
    some (delay.toUInt32, if name ∈ M.globals then some name else none)
  | _ => none

/-! ## 2. The pass object -/

/-- The three slots asserted to be filled once. -/
inductive Slot where
  | dispatcher
  | anyPC
  | unexpectedPC
  deriving DecidableEq, Repr

/-- The block type whose block fills a slot. -/
def Slot.type : Slot → BlockType
  | .dispatcher => .dispatcherBlock
  | .anyPC => .anyPCBlock
  | .unexpectedPC => .unexpectedPCBlock

/-- The fields of `GeneratedCodeBasicInfo` that `runOnFunction` writes. `JumpTargets`, a
`std::map<uint64_t, BasicBlock *>`, is read as the function from an address to its entry. -/
@[ext] structure GeneratedCodeBasicInfo where
  delaySlotSize : UInt32
  pc : Option String
  dispatcher : Option BlockId
  anyPC : Option BlockId
  unexpectedPC : Option BlockId
  jumpTargets : UInt64 → Option BlockId

namespace GeneratedCodeBasicInfo

/-- Modelled from the spec: the constructor, in the header `generatedcodebasicinfo.h` that is
not among the sources, leaves the three block references null and `JumpTargets` empty. -/
def fresh : GeneratedCodeBasicInfo := ⟨0, none, none, none, none, fun _ => none⟩

variable (s : GeneratedCodeBasicInfo)

def slot : Slot → Option BlockId
  | .dispatcher => s.dispatcher
  | .anyPC => s.anyPC
  | .unexpectedPC => s.unexpectedPC

def setSlot : Slot → BlockId → GeneratedCodeBasicInfo
  | .dispatcher, b => { s with dispatcher := some b }
  | .anyPC, b => { s with anyPC := some b }
  | .unexpectedPC, b => { s with unexpectedPC := some b }

/-- `assert(Slot == nullptr); Slot = &BB;` -/
def fillSlot (k : Slot) (b : BlockId) : Option GeneratedCodeBasicInfo :=
  if s.slot k = none then some (s.setSlot k b) else none

/-- `JumpTargets[pc] = &BB;` -/
def setJumpTarget (pc : UInt64) (b : BlockId) : GeneratedCodeBasicInfo :=
  { s with jumpTargets := fun a => if a = pc then some b else s.jumpTargets a }

@[simp] theorem slot_setSlot (k k' : Slot) (b : BlockId) :
    (s.setSlot k b).slot k' = if k' = k then some b else s.slot k' := by
  cases k <;> cases k' <;> rfl

@[simp] theorem jumpTargets_setSlot (k : Slot) (b : BlockId) :
    (s.setSlot k b).jumpTargets = s.jumpTargets := by
  cases k <;> rfl

@[simp] theorem slot_setJumpTarget (pc : UInt64) (b : BlockId) (k : Slot) :
    (s.setJumpTarget pc b).slot k = s.slot k := by
  cases k <;> rfl

@[simp] theorem jumpTargets_setJumpTarget (pc : UInt64) (b : BlockId) (a : UInt64) :
    (s.setJumpTarget pc b).jumpTargets a = if a = pc then some b else s.jumpTargets a := rfl

end GeneratedCodeBasicInfo

/-! ## 3. `runOnFunction` -/

section Classify

variable (getType : BasicBlock → BlockType)

/-- One iteration of the loop over the blocks (lines 42–67). A jump target must begin with a
direct call to `newpc`: `cast<CallInst>` fails on another instruction, an indirect call has no
name to read, and the `assert` rejects another callee. -/
def classify (s : GeneratedCodeBasicInfo) (BB : BasicBlock) : Option GeneratedCodeBasicInfo :=
  if BB.insts = [] then some s
  else
    match getType BB with
    | .dispatcherBlock => s.fillSlot .dispatcher BB.id
    | .anyPCBlock => s.fillSlot .anyPC BB.id
    | .unexpectedPCBlock => s.fillSlot .unexpectedPC BB.id
    | .jumpTargetBlock =>
      (BB.insts.head? >>= Instruction.newpcArgs).map fun a => s.setJumpTarget a.1 BB.id
    | .untypedBlock => some s

/-- `for (BasicBlock &BB : F)`. -/
def classifyBlocks : GeneratedCodeBasicInfo → List BasicBlock → Option GeneratedCodeBasicInfo
  | s, [] => some s
  | s, BB :: bbs => (classify getType s BB).bind fun s' => classifyBlocks s' bbs

/-- `GeneratedCodeBasicInfo::runOnFunction` run on the pass object `s`; `none` when an assertion
or a cast fails. -/
def runOnFunction (M : Module) (F : Function) (s : GeneratedCodeBasicInfo) :
    Option GeneratedCodeBasicInfo :=
  match M.readArchitecture with
  | none => none
  | some (delay, pc) =>
    match classifyBlocks getType { s with delaySlotSize := delay, pc := pc } F.blocks with
    | none => none
    | some s => if s.dispatcher.isSome ∧ s.anyPC.isSome ∧ s.unexpectedPC.isSome then some s else none

/-! ## 4. One iteration -/

/-- Non-empty and of type `t`: a block the loop classifies as `t`. -/
def typedAs (t : BlockType) (B : BasicBlock) : Bool := B.insts ≠ [] ∧ getType B = t

/-- The address a jump target is recorded under: the first operand of its leading `newpc`. -/
def jumpTargetAddr (B : BasicBlock) : Option UInt64 :=
  (B.insts.head? >>= Instruction.newpcArgs).map (·.1)

/-- Every non-empty jump target begins with a direct call to `newpc`. -/
def JumpTargetsWellFormed (L : List BasicBlock) : Prop :=
  ∀ B ∈ L, typedAs getType .jumpTargetBlock B → (jumpTargetAddr B).isSome

/-- A jump target of `L` recorded under `a`. -/
def jumpTargetAt (a : UInt64) (B : BasicBlock) : Bool :=
  typedAs getType .jumpTargetBlock B ∧ jumpTargetAddr B = some a

theorem Slot.forall {P : Slot → Prop} : (∀ k, P k) ↔ P .dispatcher ∧ P .anyPC ∧ P .unexpectedPC :=
  ⟨fun h => ⟨h _, h _, h _⟩, fun ⟨h₁, h₂, h₃⟩ k => by cases k <;> assumption⟩

@[simp] theorem Slot.type_inj {k k' : Slot} : k.type = k'.type ↔ k = k' := by
  cases k <;> cases k' <;> decide

@[simp] theorem Slot.type_ne_jumpTargetBlock (k : Slot) : k.type ≠ .jumpTargetBlock := by
  cases k <;> decide

@[simp] theorem Slot.jumpTargetBlock_ne_type (k : Slot) : .jumpTargetBlock ≠ k.type :=
  (k.type_ne_jumpTargetBlock).symm

@[simp] theorem Slot.untypedBlock_ne_type (k : Slot) : .untypedBlock ≠ k.type := by
  cases k <;> decide

/-- Every block type is untyped, a jump target, or the type of a slot. -/
theorem BlockType.cases_slot (t : BlockType) :
    t = .untypedBlock ∨ t = .jumpTargetBlock ∨ ∃ k : Slot, t = k.type := by
  cases t
  exacts [.inl rfl, .inr (.inr ⟨.dispatcher, rfl⟩), .inr (.inr ⟨.anyPC, rfl⟩),
    .inr (.inr ⟨.unexpectedPC, rfl⟩), .inr (.inl rfl)]

variable {getType}

theorem typedAs_of_empty {t : BlockType} {B : BasicBlock} (he : B.insts = []) :
    typedAs getType t B = false := by
  simp [typedAs, he]

theorem typedAs_iff {t : BlockType} {B : BasicBlock} (he : B.insts ≠ []) :
    typedAs getType t B ↔ getType B = t := by
  simp [typedAs, he]

/-! `classify` on each kind of block. -/

theorem classify_of_empty (s : GeneratedCodeBasicInfo) {BB : BasicBlock} (he : BB.insts = []) :
    classify getType s BB = some s := by
  simp [classify, he]

theorem classify_of_slot (s : GeneratedCodeBasicInfo) {BB : BasicBlock} {k : Slot}
    (he : BB.insts ≠ []) (ht : getType BB = k.type) :
    classify getType s BB = s.fillSlot k BB.id := by
  cases k <;> simp [classify, he, ht, Slot.type]

theorem classify_of_jumpTarget (s : GeneratedCodeBasicInfo) {BB : BasicBlock}
    (he : BB.insts ≠ []) (ht : getType BB = .jumpTargetBlock) :
    classify getType s BB = (jumpTargetAddr BB).map (s.setJumpTarget · BB.id) := by
  simp only [classify, he, ht, if_false, jumpTargetAddr, Option.map_map]
  rfl

theorem classify_of_untyped (s : GeneratedCodeBasicInfo) {BB : BasicBlock}
    (he : BB.insts ≠ []) (ht : getType BB = .untypedBlock) :
    classify getType s BB = some s := by
  simp [classify, he, ht]

theorem classify_isSome_iff (s : GeneratedCodeBasicInfo) (BB : BasicBlock) :
    (classify getType s BB).isSome ↔
      (∀ k : Slot, typedAs getType k.type BB → s.slot k = none) ∧
      (typedAs getType .jumpTargetBlock BB → (jumpTargetAddr BB).isSome) := by
  by_cases he : BB.insts = []
  · simp [classify_of_empty s he, typedAs_of_empty he]
  · simp only [typedAs_iff he]
    rcases (getType BB).cases_slot with ht | ht | ⟨k, ht⟩
    · simp [classify_of_untyped s he ht, ht]
    · simp [classify_of_jumpTarget s he ht, ht]
    · simp [classify_of_slot s he ht, ht, GeneratedCodeBasicInfo.fillSlot]

/-- What a successful iteration changes: the slot of the block's type, or the jump target at the
block's address, and nothing else. -/
theorem classify_eq_some {s s' : GeneratedCodeBasicInfo} {BB : BasicBlock}
    (h : classify getType s BB = some s') :
    (∀ k, s'.slot k = if typedAs getType k.type BB then some BB.id else s.slot k) ∧
    (∀ a, s'.jumpTargets a =
      if jumpTargetAt getType a BB then some BB.id else s.jumpTargets a) ∧
    s'.delaySlotSize = s.delaySlotSize ∧ s'.pc = s.pc := by
  by_cases he : BB.insts = []
  · rw [classify_of_empty s he, Option.some.injEq] at h
    subst h
    simp [jumpTargetAt, typedAs_of_empty he]
  · simp only [jumpTargetAt, typedAs_iff he, decide_eq_true_eq]
    rcases (getType BB).cases_slot with ht | ht | ⟨k', ht⟩
    · rw [classify_of_untyped s he ht, Option.some.injEq] at h
      subst h
      simp [ht]
    · rw [classify_of_jumpTarget s he ht] at h
      obtain ⟨a', ha', rfl⟩ := Option.map_eq_some'.mp h
      refine ⟨fun k => by simp [ht], fun a => ?_, rfl, rfl⟩
      by_cases ha : a = a' <;> simp [ht, ha, ha', Ne.symm]
    · rw [classify_of_slot s he ht, GeneratedCodeBasicInfo.fillSlot] at h
      split at h
      · cases h
        refine ⟨fun k => ?_, fun a => by simp [ht], by cases k' <;> rfl, by cases k' <;> rfl⟩
        by_cases hk : k = k'
        · subst hk; simp [ht]
        · simp [ht, hk, Ne.symm hk]
      · cases h

/-! ## 5. The loop over the blocks -/

/-- The loop succeeds exactly when every jump target is well formed and no slot would be filled
twice, counting what the object already holds. -/
theorem classifyBlocks_isSome_iff : ∀ (s : GeneratedCodeBasicInfo) (L : List BasicBlock),
    (classifyBlocks getType s L).isSome ↔ JumpTargetsWellFormed getType L ∧
      ∀ k : Slot, L.countP (typedAs getType k.type) + (if s.slot k = none then 0 else 1) ≤ 1
  | s, [] => by
    simp only [classifyBlocks, Option.isSome_some, JumpTargetsWellFormed, List.not_mem_nil,
      List.countP_nil, true_iff]
    exact ⟨fun _ h => h.elim, fun k => by split <;> omega⟩
  | s, BB :: L => by
    have hc := @classify_isSome_iff getType s BB
    simp only [classifyBlocks]
    cases h : classify getType s BB with
    | none =>
      simp only [h, Option.none_bind, Option.isSome_none, Bool.false_eq_true, false_iff] at hc ⊢
      rintro ⟨hwf, hcnt⟩
      refine hc ⟨fun k hk => ?_, hwf BB (List.mem_cons_self _ _)⟩
      have := hcnt k
      rw [List.countP_cons_of_pos _ _ hk] at this
      split at this
      · assumption
      · omega
    | some s₁ =>
      obtain ⟨hslot, -⟩ := classify_eq_some h
      simp only [h, Option.isSome_some, true_iff] at hc
      simp only [Option.some_bind, classifyBlocks_isSome_iff s₁ L]
      refine and_congr ⟨fun hL => List.forall_mem_cons.mpr ⟨hc.2, hL⟩,
        fun hL => (List.forall_mem_cons.mp hL).2⟩ (forall_congr' fun k => ?_)
      rw [hslot k, List.countP_cons]
      by_cases hk : typedAs getType k.type BB
      · simp [hk, hc.1 k hk]
      · simp [hk]

/-- After the loop, a slot holds the first block of its type, or what it held before. -/
theorem classifyBlocks_slot : ∀ {s s' : GeneratedCodeBasicInfo} {L : List BasicBlock},
    classifyBlocks getType s L = some s' →
      ∀ k, s'.slot k = ((L.find? (typedAs getType k.type)).map (·.id)).or (s.slot k)
  | s, s', [], h, k => by cases h; rfl
  | s, s', BB :: L, h, k => by
    obtain ⟨s₁, h₁, h₂⟩ := Option.bind_eq_some.mp h
    rw [classifyBlocks_slot h₂, (classify_eq_some h₁).1 k, List.find?_cons]
    by_cases hk : typedAs getType k.type BB
    · have hcnt := ((classifyBlocks_isSome_iff s₁ L).mp (Option.isSome_iff_exists.mpr ⟨_, h₂⟩)).2 k
      rw [(classify_eq_some h₁).1 k] at hcnt
      have hnone : L.find? (typedAs getType k.type) = none := by
        rw [List.find?_eq_none]
        intro B hB hBk
        have := List.countP_pos_iff.mpr ⟨B, hB, hBk⟩
        rw [if_pos hk, if_neg (Option.some_ne_none _)] at hcnt
        omega
      simp [hk, hnone]
    · simp [hk]

/-- After the loop, the jump target at `a` is the last block recorded there, or what the object
held before. -/
theorem classifyBlocks_jumpTargets : ∀ {s s' : GeneratedCodeBasicInfo} {L : List BasicBlock},
    classifyBlocks getType s L = some s' → ∀ a, s'.jumpTargets a =
      ((L.reverse.find? (jumpTargetAt getType a)).map (·.id)).or (s.jumpTargets a)
  | s, s', [], h, a => by cases h; rfl
  | s, s', BB :: L, h, a => by
    obtain ⟨s₁, h₁, h₂⟩ := Option.bind_eq_some.mp h
    rw [classifyBlocks_jumpTargets h₂, (classify_eq_some h₁).2.1 a, List.reverse_cons,
      List.find?_append]
    cases L.reverse.find? (jumpTargetAt getType a) <;>
      by_cases ha : jumpTargetAt getType a BB <;> simp [ha]

theorem classifyBlocks_delaySlotSize_pc : ∀ {s s' : GeneratedCodeBasicInfo} {L : List BasicBlock},
    classifyBlocks getType s L = some s' → s'.delaySlotSize = s.delaySlotSize ∧ s'.pc = s.pc
  | s, s', [], h => by cases h; exact ⟨rfl, rfl⟩
  | s, s', BB :: L, h => by
    obtain ⟨s₁, h₁, h₂⟩ := Option.bind_eq_some.mp h
    obtain ⟨-, -, hd, hp⟩ := classify_eq_some h₁
    obtain ⟨hd', hp'⟩ := classifyBlocks_delaySlotSize_pc h₂
    exact ⟨hd'.trans hd, hp'.trans hp⟩

/-- Over permuted lists in which at most one element satisfies `p`, `find?` agrees. -/
theorem find?_perm {l l' : List BasicBlock} {p : BasicBlock → Bool} (h : l.Perm l')
    (hl : (l.filter p).length ≤ 1) : l'.find? p = l.find? p := by
  rw [← List.filter_head?, ← List.filter_head?]
  have hf := (h.filter p).symm
  rcases hfl : l.filter p with _ | ⟨x, _ | ⟨y, t⟩⟩
  · rw [hfl, List.perm_nil] at hf; rw [hf]
  · rw [hfl, List.perm_singleton] at hf; rw [hf]
  · rw [hfl] at hl; simp at hl

/-! ## 6. `runOnFunction` -/

theorem runOnFunction_eq_some {M : Module} {F : Function} {s s' : GeneratedCodeBasicInfo} :
    runOnFunction getType M F s = some s' ↔ ∃ delay pc, M.readArchitecture = some (delay, pc) ∧
      classifyBlocks getType { s with delaySlotSize := delay, pc := pc } F.blocks = some s' ∧
      ∀ k, (s'.slot k).isSome := by
  unfold runOnFunction
  rcases M.readArchitecture with _ | ⟨delay, pc⟩
  · simp
  · rcases hc : classifyBlocks getType { s with delaySlotSize := delay, pc := pc } F.blocks
      with _ | s₁
    · simp [hc]
    · simp only [hc]
      constructor
      · intro h
        split_ifs at h with hs
        cases h
        exact ⟨delay, pc, rfl, hc, Slot.forall.mpr hs⟩
      · rintro ⟨d, p, hdp, hc', hslots⟩
        cases hdp
        rw [hc] at hc'
        cases hc'
        exact if_pos (Slot.forall.mp hslots)

/-- A fresh object's slots are empty, whatever the metadata wrote. -/
theorem slot_fresh (delay : UInt32) (pc : Option String) (k : Slot) :
    ({ GeneratedCodeBasicInfo.fresh with delaySlotSize := delay, pc := pc }).slot k = none := by
  cases k <;> rfl

/-- From a fresh object the loop fills a slot with the first block of its type. -/
theorem classifyBlocks_fresh_slot {delay : UInt32} {pc : Option String} {L : List BasicBlock}
    {s : GeneratedCodeBasicInfo}
    (h : classifyBlocks getType
      { GeneratedCodeBasicInfo.fresh with delaySlotSize := delay, pc := pc } L = some s)
    (k : Slot) : s.slot k = (L.find? (typedAs getType k.type)).map (·.id) := by
  rw [classifyBlocks_slot h k, slot_fresh, Option.or_none]

/-- A run from a fresh object that completes met exactly one block of each slot's type. -/
theorem countP_eq_one_of_fresh {M : Module} {F : Function} {s : GeneratedCodeBasicInfo}
    (h : runOnFunction getType M F .fresh = some s) (k : Slot) :
    F.blocks.countP (typedAs getType k.type) = 1 := by
  obtain ⟨delay, pc, -, hc, hslots⟩ := runOnFunction_eq_some.mp h
  have hle := ((classifyBlocks_isSome_iff _ _).mp (Option.isSome_iff_exists.mpr ⟨_, hc⟩)).2 k
  rw [slot_fresh, if_pos rfl] at hle
  have hpos : 0 < F.blocks.countP (typedAs getType k.type) := by
    have := hslots k
    rw [classifyBlocks_fresh_slot hc, Option.isSome_map', List.find?_isSome] at this
    exact List.countP_pos_iff.mpr this
  omega

theorem jumpTargetsWellFormed_of_fresh {M : Module} {F : Function} {s : GeneratedCodeBasicInfo}
    (h : runOnFunction getType M F .fresh = some s) : JumpTargetsWellFormed getType F.blocks := by
  obtain ⟨_, _, -, hc, -⟩ := runOnFunction_eq_some.mp h
  exact ((classifyBlocks_isSome_iff _ _).mp (Option.isSome_iff_exists.mpr ⟨_, hc⟩)).1

/-- With well-formed metadata, one block of each slot's type and well-formed jump targets, a run
from a fresh object completes. -/
theorem runOnFunction_fresh_of_counts {M : Module} {F : Function} {delay : UInt32}
    {pc : Option String} (hr : M.readArchitecture = some (delay, pc))
    (hcnt : ∀ k : Slot, F.blocks.countP (typedAs getType k.type) = 1)
    (hwf : JumpTargetsWellFormed getType F.blocks) :
    ∃ s, runOnFunction getType M F .fresh = some s ∧ classifyBlocks getType
      { GeneratedCodeBasicInfo.fresh with delaySlotSize := delay, pc := pc } F.blocks = some s := by
  obtain ⟨s, hc⟩ := Option.isSome_iff_exists.mp
    ((@classifyBlocks_isSome_iff getType
      { GeneratedCodeBasicInfo.fresh with delaySlotSize := delay, pc := pc } F.blocks).mpr
      ⟨hwf, fun k => by rw [slot_fresh, hcnt k]; rfl⟩)
  refine ⟨s, runOnFunction_eq_some.mpr ⟨delay, pc, hr, hc, fun k => ?_⟩, hc⟩
  rw [classifyBlocks_fresh_slot hc, Option.isSome_map', List.find?_isSome, ← List.countP_pos_iff,
    hcnt k]
  exact Nat.one_pos

/-! ## 7. The results -/

/-- Block types of the examples: blocks `0`, `1`, `2` are the Dispatcher, AnyPC and
UnexpectedPC blocks, and another block opening with a `newpc` call is a jump target. -/
def exampleType (B : BasicBlock) : BlockType :=
  match B.id with
  | 0 => .dispatcherBlock
  | 1 => .anyPCBlock
  | 2 => .unexpectedPCBlock
  | _ => if (B.insts.head? >>= Instruction.newpcArgs).isSome then .jumpTargetBlock else .untypedBlock

/-- A module whose architecture metadata gives no delay slot and the PC variable `pc`. -/
def exampleModule : Module :=
  ⟨[("revamb.input.architecture", [.tuple [.constant 0, .string "pc"]])], ["pc"]⟩

/-- On a fresh object and well-formed metadata, `runOnFunction` completes exactly when the
function has one non-empty block of each slot's type and every non-empty jump target begins with
a direct call to `newpc`. Empty blocks count for neither, whatever `getType` says of them. -/
theorem runOnFunction_isSome_iff (getType : BasicBlock → BlockType) (M : Module) (F : Function)
    (hM : M.readArchitecture.isSome) :
    (runOnFunction getType M F .fresh).isSome ↔
      (∀ k : Slot, F.blocks.countP (typedAs getType k.type) = 1) ∧
        JumpTargetsWellFormed getType F.blocks := by
  obtain ⟨⟨delay, pc⟩, hr⟩ := Option.isSome_iff_exists.mp hM
  constructor
  · intro h
    obtain ⟨s, hs⟩ := Option.isSome_iff_exists.mp h
    exact ⟨countP_eq_one_of_fresh hs, jumpTargetsWellFormed_of_fresh hs⟩
  · rintro ⟨hcnt, hwf⟩
    obtain ⟨s, hs, -⟩ := runOnFunction_fresh_of_counts hr hcnt hwf
    exact Option.isSome_iff_exists.mpr ⟨s, hs⟩

theorem runOnFunction_isSome_iff_example :
    exampleModule.readArchitecture.isSome ∧
      ((runOnFunction exampleType exampleModule exampleFunction .fresh).isSome ↔
        (∀ k : Slot, exampleFunction.blocks.countP (typedAs exampleType k.type) = 1) ∧
          JumpTargetsWellFormed exampleType exampleFunction.blocks) :=
  ⟨by decide, runOnFunction_isSome_iff exampleType exampleModule exampleFunction (by decide)⟩

/-- After a run from a fresh object: each slot holds the one block of its type; the jump target
at an address is the last jump target in layout order with that address, so the keys are
exactly the jump targets' addresses; a jump target whose address no other one shares is stored
at it; and when no two jump targets share an address, listing the blocks in another order gives
the same object. -/
theorem runOnFunction_fresh_result (getType : BasicBlock → BlockType) (M : Module) (F : Function)
    {s : GeneratedCodeBasicInfo} (h : runOnFunction getType M F .fresh = some s) :
    (∀ k : Slot, ∃ B, F.blocks.filter (typedAs getType k.type) = [B] ∧ s.slot k = some B.id) ∧
    (∀ a, s.jumpTargets a = (F.blocks.reverse.find? (jumpTargetAt getType a)).map (·.id)) ∧
    (∀ B ∈ F.blocks, ∀ a, jumpTargetAt getType a B →
      (∀ B' ∈ F.blocks, jumpTargetAt getType a B' → B' = B) → s.jumpTargets a = some B.id) ∧
    (∀ F' : Function, F'.blocks.Perm F.blocks →
      (∀ a, (F.blocks.filter (jumpTargetAt getType a)).length ≤ 1) →
      runOnFunction getType M F' .fresh = some s) := by
  obtain ⟨delay, pc, hr, hc, -⟩ := runOnFunction_eq_some.mp h
  have hcnt := countP_eq_one_of_fresh h
  have hjt : ∀ a, s.jumpTargets a = (F.blocks.reverse.find? (jumpTargetAt getType a)).map (·.id) :=
    fun a => by rw [classifyBlocks_jumpTargets hc a]; exact Option.or_none
  refine ⟨fun k => ?_, hjt, fun B hB a ha huniq => ?_, fun F' hperm hle => ?_⟩
  · obtain ⟨B, hB⟩ := List.length_eq_one.mp ((List.countP_eq_length_filter _ _).symm.trans (hcnt k))
    exact ⟨B, hB, by rw [classifyBlocks_fresh_slot hc, ← List.filter_head?, hB]; rfl⟩
  · obtain ⟨B', hB'⟩ := Option.isSome_iff_exists.mp
      (List.find?_isSome.mpr ⟨B, List.mem_reverse.mpr hB, ha⟩)
    rw [hjt a, hB', huniq B' (List.mem_reverse.mp (List.mem_of_find?_eq_some hB'))
      (List.find?_some hB')]
    rfl
  · obtain ⟨s', hs', hc'⟩ := runOnFunction_fresh_of_counts hr
      (fun k => by rw [hperm.countP_eq]; exact hcnt k)
      (fun B hB => jumpTargetsWellFormed_of_fresh h B (hperm.mem_iff.mp hB))
    have hslot : ∀ k, s'.slot k = s.slot k := fun k => by
      rw [classifyBlocks_fresh_slot hc', classifyBlocks_fresh_slot hc,
        find?_perm hperm.symm (by rw [← List.countP_eq_length_filter, hcnt k])]
    have hrev : F.blocks.reverse.Perm F'.blocks.reverse :=
      (List.reverse_perm _).trans (hperm.symm.trans (List.reverse_perm _).symm)
    obtain ⟨hd', hp'⟩ := classifyBlocks_delaySlotSize_pc hc'
    obtain ⟨hd, hp⟩ := classifyBlocks_delaySlotSize_pc hc
    rw [hs']
    refine congrArg some (GeneratedCodeBasicInfo.ext (hd'.trans hd.symm) (hp'.trans hp.symm)
      (hslot .dispatcher) (hslot .anyPC) (hslot .unexpectedPC) (funext fun a => ?_))
    rw [classifyBlocks_jumpTargets hc' a, hjt a,
      find?_perm hrev (by rw [List.filter_reverse, List.length_reverse]; exact hle a)]
    exact Option.or_none

theorem runOnFunction_fresh_result_example :
    ∃ s, runOnFunction exampleType exampleModule exampleFunction .fresh = some s ∧
      s.jumpTargets 0x1004 = some 4 := by
  obtain ⟨s, hs⟩ := Option.isSome_iff_exists.mp
    (show (runOnFunction exampleType exampleModule exampleFunction .fresh).isSome by decide)
  exact ⟨s, hs, (runOnFunction_fresh_result exampleType exampleModule exampleFunction hs).2.2.1
    ⟨4, [.call (some "newpc") 0x1004 2, .other], [3]⟩ (by decide) 0x1004 (by decide) (by decide)⟩

/-- Two jump targets at `0x1000`, blocks `3` and `4`; `sharedAddressSwapped` lists them the other
way round. -/
def sharedAddress : Function :=
  ⟨[⟨0, [.other], []⟩, ⟨1, [.other], []⟩, ⟨2, [.other], []⟩,
    ⟨3, [.call (some "newpc") 0x1000 4], [0]⟩, ⟨4, [.call (some "newpc") 0x1000 2], [0]⟩],
    by decide⟩

def sharedAddressSwapped : Function :=
  ⟨[⟨0, [.other], []⟩, ⟨1, [.other], []⟩, ⟨2, [.other], []⟩,
    ⟨4, [.call (some "newpc") 0x1000 2], [0]⟩, ⟨3, [.call (some "newpc") 0x1000 4], [0]⟩],
    by decide⟩

/-- A second jump target at an address overwrites the first. So a completed run need not store
every jump target at its address (block `3` of `sharedAddress` is stored nowhere), and listing
the blocks in another order can give another table. -/
theorem runOnFunction_drops_shared_address :
    ¬ (∀ (getType : BasicBlock → BlockType) (M : Module) (F : Function)
        (s : GeneratedCodeBasicInfo), runOnFunction getType M F .fresh = some s →
          ∀ B ∈ F.blocks, ∀ a, jumpTargetAt getType a B → s.jumpTargets a = some B.id) ∧
    ¬ (∀ (getType : BasicBlock → BlockType) (M : Module) (F F' : Function)
        (s : GeneratedCodeBasicInfo), F'.blocks.Perm F.blocks →
        runOnFunction getType M F .fresh = some s →
          ∃ s', runOnFunction getType M F' .fresh = some s' ∧ s'.jumpTargets = s.jumpTargets) := by
  obtain ⟨s, hs⟩ := Option.isSome_iff_exists.mp
    (show (runOnFunction exampleType exampleModule sharedAddress .fresh).isSome by decide)
  obtain ⟨t, ht⟩ := Option.isSome_iff_exists.mp
    (show (runOnFunction exampleType exampleModule sharedAddressSwapped .fresh).isSome by decide)
  have hs4 : s.jumpTargets 0x1000 = some 4 := by
    simpa [hs] using show (runOnFunction exampleType exampleModule sharedAddress .fresh).map
      (·.jumpTargets 0x1000) = some (some 4) by decide
  have ht3 : t.jumpTargets 0x1000 = some 3 := by
    simpa [ht] using show (runOnFunction exampleType exampleModule sharedAddressSwapped .fresh).map
      (·.jumpTargets 0x1000) = some (some 3) by decide
  refine ⟨fun h => ?_, fun h => ?_⟩
  · have h3 := h exampleType exampleModule sharedAddress s hs
      ⟨3, [.call (some "newpc") 0x1000 4], [0]⟩ (by decide) 0x1000 (by decide)
    exact absurd (hs4.symm.trans h3) (by decide)
  · obtain ⟨t', ht', heq⟩ := h exampleType exampleModule sharedAddress sharedAddressSwapped s
      (by decide) hs
    obtain rfl := Option.some.inj (ht'.symm.trans ht)
    exact absurd (ht3.symm.trans ((congrFun heq 0x1000).trans hs4)) (by decide)

/-- A pass object is not reset between functions: once a run has filled the three slots, a run
on any function that has blocks of the slots' types fails the assertion that the slot is
still null. -/
theorem runOnFunction_twice (getType : BasicBlock → BlockType) (M : Module) (F G : Function)
    (hF : (runOnFunction getType M F .fresh).isSome)
    (hG : (runOnFunction getType M G .fresh).isSome) :
    (runOnFunction getType M F .fresh).bind (runOnFunction getType M G) = none := by
  obtain ⟨s, hs⟩ := Option.isSome_iff_exists.mp hF
  obtain ⟨t, ht⟩ := Option.isSome_iff_exists.mp hG
  obtain ⟨-, -, -, -, hfull⟩ := runOnFunction_eq_some.mp hs
  rw [hs, Option.some_bind]
  cases hr : runOnFunction getType M G s with
  | none => rfl
  | some u =>
    obtain ⟨delay, pc, -, hc, -⟩ := runOnFunction_eq_some.mp hr
    have hle := ((classifyBlocks_isSome_iff _ _).mp (Option.isSome_iff_exists.mpr ⟨_, hc⟩)).2
      .dispatcher
    have hs0 : ({ s with delaySlotSize := delay, pc := pc } : GeneratedCodeBasicInfo).slot
        .dispatcher ≠ none := Option.isSome_iff_ne_none.mp (hfull .dispatcher)
    rw [countP_eq_one_of_fresh ht, if_neg hs0] at hle
    omega

theorem runOnFunction_twice_example :
    (runOnFunction exampleType exampleModule exampleFunction .fresh).bind
      (runOnFunction exampleType exampleModule exampleFunction) = none :=
  runOnFunction_twice exampleType exampleModule exampleFunction exampleFunction
    (by decide) (by decide)

/-- The second run on a reused pass object fails where a fresh run on the same function
succeeds. -/
theorem runOnFunction_reused_fails :
    (runOnFunction exampleType exampleModule exampleFunction .fresh).isSome ∧
      ((runOnFunction exampleType exampleModule exampleFunction .fresh).bind
        (runOnFunction exampleType exampleModule exampleFunction)).isSome = false := by
  decide

/-! ## 8. What the loop reads -/

/-- What the loop reads of a non-empty block: its identity, its type and the address of a
leading `newpc` call. -/
def blockView (getType : BasicBlock → BlockType) (B : BasicBlock) :
    BlockId × BlockType × Option UInt64 :=
  (B.id, getType B, jumpTargetAddr B)

theorem classify_congr (s : GeneratedCodeBasicInfo) {B B' : BasicBlock} (hB : B.insts ≠ [])
    (hB' : B'.insts ≠ []) (h : blockView getType B = blockView getType B') :
    classify getType s B = classify getType s B' := by
  simp only [blockView, Prod.mk.injEq] at h
  obtain ⟨hid, ht, ha⟩ := h
  rcases (getType B).cases_slot with h | h | ⟨k, h⟩
  · rw [classify_of_untyped s hB h, classify_of_untyped s hB' (ht ▸ h)]
  · rw [classify_of_jumpTarget s hB h, classify_of_jumpTarget s hB' (ht ▸ h), hid, ha]
  · rw [classify_of_slot s hB h, classify_of_slot s hB' (ht ▸ h), hid]

/-- The loop skips empty blocks. -/
theorem classifyBlocks_filter : ∀ (s : GeneratedCodeBasicInfo) (L : List BasicBlock),
    classifyBlocks getType s L = classifyBlocks getType s (L.filter (·.insts ≠ []))
  | s, [] => rfl
  | s, B :: L => by
    by_cases hB : B.insts = []
    · simp only [classifyBlocks, classify_of_empty s hB, Option.some_bind, List.filter_cons, hB,
        ne_eq, not_true_eq_false, decide_False, Bool.false_eq_true, ite_false]
      exact classifyBlocks_filter s L
    · simp only [classifyBlocks, List.filter_cons, hB, ne_eq, not_false_eq_true, decide_True,
        ite_true]
      cases classify getType s B with
      | none => rfl
      | some s' => exact classifyBlocks_filter s' L

theorem classifyBlocks_congr : ∀ (s : GeneratedCodeBasicInfo) {L L' : List BasicBlock},
    (∀ B ∈ L, B.insts ≠ []) → (∀ B ∈ L', B.insts ≠ []) →
    L.map (blockView getType) = L'.map (blockView getType) →
    classifyBlocks getType s L = classifyBlocks getType s L'
  | s, [], [], _, _, _ => rfl
  | s, B :: L, B' :: L', hL, hL', h => by
    simp only [List.map_cons, List.cons.injEq] at h
    simp only [classifyBlocks, classify_congr s (hL B (List.mem_cons_self _ _))
      (hL' B' (List.mem_cons_self _ _)) h.1]
    cases classify getType s B' with
    | none => rfl
    | some s' =>
      exact classifyBlocks_congr s' (fun C hC => hL C (List.mem_cons_of_mem _ hC))
        (fun C hC => hL' C (List.mem_cons_of_mem _ hC)) h.2

/-- `runOnFunction` reads of a function only its non-empty blocks, in layout order, and of each
only its identity, its type and the address of a leading `newpc` call: two functions that agree
on these get the same result, from any pass object. Adding empty blocks, editing a block past
its first instruction or changing predecessors changes nothing, as long as the types stay. -/
theorem runOnFunction_congr (getType : BasicBlock → BlockType) (M : Module) (F F' : Function)
    (s : GeneratedCodeBasicInfo)
    (h : (F.blocks.filter (·.insts ≠ [])).map (blockView getType) =
      (F'.blocks.filter (·.insts ≠ [])).map (blockView getType)) :
    runOnFunction getType M F s = runOnFunction getType M F' s := by
  have hne : ∀ (L : List BasicBlock), ∀ B ∈ L.filter (·.insts ≠ []), B.insts ≠ [] :=
    fun L B hB => by simpa using (List.mem_filter.mp hB).2
  simp only [runOnFunction, classifyBlocks_filter _ F.blocks, classifyBlocks_filter _ F'.blocks,
    classifyBlocks_congr _ (hne F.blocks) (hne F'.blocks) h]

/-- `exampleFunction` with an empty block `5` and more code in jump target `4`. -/
def exampleEdited : Function :=
  ⟨[⟨0, [.other], []⟩, ⟨5, [], [0]⟩, ⟨1, [.other], []⟩, ⟨2, [.other], []⟩,
    ⟨3, [.call (some "newpc") 0x1000 4, .other], [0]⟩,
    ⟨4, [.call (some "newpc") 0x1004 2, .call (some "newpc") 0x1006 2, .other], [3, 4]⟩],
    by decide⟩

theorem runOnFunction_congr_example :
    runOnFunction exampleType exampleModule exampleFunction .fresh =
      runOnFunction exampleType exampleModule exampleEdited .fresh :=
  runOnFunction_congr exampleType exampleModule exampleFunction exampleEdited .fresh (by decide)

end Classify

end Hybitor