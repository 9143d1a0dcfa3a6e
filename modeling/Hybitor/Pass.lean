import Hybitor.RunOnFunction
import Hybitor.GetPC.Frame
import Hybitor.GetPC.Results

/-!
# Pass — `GeneratedCodeBasicInfo` as a whole

The pass answers two questions about the translated code. `runOnFunction` fills `JumpTargets`,
the block translated from each original address, and `getPC` recovers the original address of an
instruction, using the `Dispatcher` that `runOnFunction` found. The two answers agree: an
instruction of the block recorded under an address, up to the block's next `newpc` call, is
attributed to that address (`getPC_jumpTargets`). `getPC` needs no more than the block itself for
this: its first scan meets the block's leading marker and nothing is queued after it.
-/

namespace Hybitor

/-- A scan that passes index `m`, a `newpc` call, after no other call stops there. -/
theorem scanFrom_eq_some {b : BlockId} {insts : List Instruction} {m k : Nat}
    {a : UInt64 × UInt64} (hm : (insts.getD m .other).newpcArgs = some a) (hmk : m < k)
    (hnone : ∀ j, m < j → j < k → (insts.getD j .other).newpcArgs = none) :
    scanFrom b insts k = some ⟨b, m, a.1, a.2⟩ := by
  induction k with
  | zero => omega
  | succ k ih =>
    rcases Nat.lt_succ_iff_lt_or_eq.mp hmk with hlt | rfl
    · rw [scanFrom, hnone k hlt (Nat.lt_succ_self k)]
      exact ih hlt fun j hj hjk => hnone j hj (Nat.lt_succ_of_lt hjk)
    · rw [scanFrom, hm]

namespace Function

variable {F : Function} {dispatcher : Option BlockId}

/-- When the first scan meets a marker, `getPC` returns it: nothing was queued before it, and
nothing is queued after. -/
theorem getPC_of_scan_seed {p : Position} {m : Marker} (h : F.scan (seed p) = some m) :
    F.getPC dispatcher p = some (finish (.ok (some m))) :=
  @getPC_of_loop F dispatcher 2 p _ (by simp [loop, start, iterate, h])

end Function

section Pass

variable {getType : BasicBlock → BlockType}

/-- The block recorded under `a` by a run from a fresh object is a block of the function that
opens with a `newpc` call of address `a`. -/
theorem mem_of_jumpTargets {M : Module} {F : Function} {s : GeneratedCodeBasicInfo}
    (h : runOnFunction getType M F .fresh = some s) {a : UInt64} {b : BlockId}
    (hb : s.jumpTargets a = some b) :
    ∃ B ∈ F.blocks, B.id = b ∧
      ∃ size, (B.insts.head? >>= Instruction.newpcArgs) = some (a, size) := by
  obtain ⟨delay, pc, -, hc, -⟩ := runOnFunction_eq_some.mp h
  obtain ⟨B, hB, rfl⟩ := Option.map_eq_some'.mp
    (Option.or_none.symm.trans ((classifyBlocks_jumpTargets hc a).symm.trans hb))
  have ha : jumpTargetAt getType a B := List.find?_some hB
  simp only [jumpTargetAt, decide_eq_true_eq] at ha
  obtain ⟨⟨a', size⟩, hh, rfl⟩ := Option.map_eq_some'.mp ha.2
  exact ⟨B, List.mem_reverse.mp (List.mem_of_find?_eq_some hB), rfl, size, hh⟩

/-- The pass's two answers agree. After a run from a fresh object, the block recorded in
`JumpTargets` under `a` opens with a `newpc` call of address `a`, and `getPC`, asked with the
Dispatcher the run found, attributes `a` and that call's size to every instruction of the block
up to its next `newpc` call. -/
theorem getPC_jumpTargets (getType : BasicBlock → BlockType) (M : Module) (F : Function)
    {s : GeneratedCodeBasicInfo} (h : runOnFunction getType M F .fresh = some s)
    (hsize : F.SizesNonZero) {a : UInt64} {b : BlockId} (hb : s.jumpTargets a = some b) :
    ∃ size, ((F.block b).insts.head? >>= Instruction.newpcArgs) = some (a, size) ∧
      ∀ i, (∀ j, 0 < j → j < i → ((F.block b).insts.getD j .other).newpcArgs = none) →
        F.getPC s.dispatcher ⟨b, i⟩ = some (.ok (a, size)) := by
  obtain ⟨B, hB, rfl, size, hh⟩ := mem_of_jumpTargets h hb
  rw [F.block_of_mem hB]
  refine ⟨size, hh, fun i hnone => ?_⟩
  obtain ⟨x, xs, hx⟩ : ∃ x xs, B.insts = x :: xs := by
    cases hi : B.insts with
    | nil => simp [hi] at hh
    | cons x xs => exact ⟨x, xs, rfl⟩
  have hxa : x.newpcArgs = some (a, size) := by simpa [hx] using hh
  have hsz : size ≠ 0 := hsize B hB x (hx ▸ List.mem_cons_self _ _) _ hxa
  have hscan : F.scan (seed ⟨B.id, i⟩) = some ⟨B.id, 0, a, size⟩ := by
    simp only [Function.scan, seed, F.block_of_mem hB]
    refine @scanFrom_eq_some B.id B.insts 0 _ (a, size) (by simp [hx, hxa]) (by split <;> omega)
      fun j hj hjk => ?_
    split at hjk
    · omega
    · exact hnone j hj hjk
  rw [Function.getPC_of_scan_seed hscan]
  simp [finish, hsz]

theorem getPC_jumpTargets_example :
    ∃ s, runOnFunction exampleType exampleModule exampleFunction .fresh = some s ∧
      s.jumpTargets 0x1004 = some 4 ∧
      exampleFunction.getPC s.dispatcher ⟨4, 1⟩ = some (.ok (0x1004, 2)) := by
  obtain ⟨s, hs⟩ := Option.isSome_iff_exists.mp
    (show (runOnFunction exampleType exampleModule exampleFunction .fresh).isSome by decide)
  have hb : s.jumpTargets 0x1004 = some 4 := by
    simpa [hs] using show (runOnFunction exampleType exampleModule exampleFunction .fresh).map
      (·.jumpTargets 0x1004) = some (some 4) by decide
  obtain ⟨size, hsize, hpc⟩ :=
    getPC_jumpTargets exampleType exampleModule exampleFunction hs (by decide) hb
  rw [show (exampleFunction.block 4).insts.head? >>= Instruction.newpcArgs = some (0x1004, 2)
    by decide, Option.some.injEq, Prod.mk.injEq] at hsize
  exact ⟨s, hs, hb, hsize.2 ▸ hpc 1 fun j hj hj1 => absurd hj1 (by omega)⟩

end Pass

end Hybitor
