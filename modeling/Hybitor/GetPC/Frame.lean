import Hybitor.GetPC.Termination

/-!
# GetPC.Frame — what `getPC` reads, and what it does with the Dispatcher

`getPC` walks backward from the queried instruction, so it reads only the blocks upstream of it:
its own block and, transitively, the predecessors of the blocks it reads. Two functions that agree
on those blocks get the same answer, whatever else they hold (`getPC_frame`), so translation can
go on adding code elsewhere without changing the address recovered for an instruction.

The pass's `Dispatcher` enters the loop only through the assertion of lines 115–121. The comment
there says the search stops at the Dispatcher, but the `continue` is the last statement of the
loop body and skips nothing: the Dispatcher prunes nothing, it can only fail the assertion. A run
either fails the assertion or returns what a search without a Dispatcher returns, and that search
never fails it (`getPC_dispatcher_only_faults`).

Both results compare two runs of the loop in lock step. The fuel `getPC` passes is the number of
blocks plus two, which differs between two functions, so the comparison first shows that fuel
beyond what a run needs changes nothing (`loop_add_fuel`).
-/

namespace Hybitor

namespace Function

variable {F F' : Function} {dispatcher : Option BlockId}

/-! ## 1. Fuel -/

/-- More fuel keeps the result of a run that stopped. -/
theorem loop_add_fuel : ∀ {fuel : Nat} {s : Search} {r : Except Exit (Option Marker)} (k : Nat),
    F.loop dispatcher fuel s = some r → F.loop dispatcher (fuel + k) s = some r
  | 0, _, _, _, h => by cases h
  | fuel + 1, s, r, k, h => by
    rw [Nat.add_right_comm]
    cases hw : s.workList with
    | nil => simpa only [loop, hw] using h
    | cons I rest =>
      rw [loop_cons hw] at h ⊢
      cases hit : F.iterate dispatcher I { s with workList := rest } with
      | error e => simpa only [hit] using h
      | ok q =>
        obtain ⟨s', ps⟩ := q
        simp only [hit] at h ⊢
        exact loop_add_fuel k h

theorem loop_start_isSome (F : Function) (dispatcher : Option BlockId) (p : Position) :
    (F.loop dispatcher (F.blocks.length + 2) (start p)).isSome :=
  loop_isSome _ (start p) ⟨List.nodup_nil, by simp [start]⟩ (by simp [measure, start])

/-- `getPC` is `finish` of any run of the loop from `start p` that stops, whatever its fuel. -/
theorem getPC_of_loop {fuel : Nat} {p : Position} {r : Except Exit (Option Marker)}
    (h : F.loop dispatcher fuel (start p) = some r) : F.getPC dispatcher p = some (finish r) := by
  obtain ⟨r', hr'⟩ := Option.isSome_iff_exists.mp (F.loop_start_isSome dispatcher p)
  have h₁ := loop_add_fuel (F.blocks.length + 2) h
  have h₂ := loop_add_fuel fuel hr'
  rw [Nat.add_comm, h₁] at h₂
  rw [getPC, hr', ← Option.some.inj h₂, Option.map_some']

/-! ## 2. The blocks upstream of an instruction -/

/-- `F.Upstream a b`: `b` is `a`, or a predecessor of a block upstream of `a`. -/
inductive Upstream (F : Function) (a : BlockId) : BlockId → Prop
  | refl : Upstream F a a
  | pred {b q : BlockId} : Upstream F a b → q ∈ (F.block b).preds → Upstream F a q

/-- A set of blocks that holds `a` and the predecessors of its members holds every block upstream
of `a`. -/
theorem Upstream.closed {a b : BlockId} (S : BlockId → Prop) (ha : S a)
    (hS : ∀ b, S b → ∀ q ∈ (F.block b).preds, S q) (h : F.Upstream a b) : S b := by
  induction h with
  | refl => exact ha
  | pred _ hq ih => exact hS _ ih _ hq

theorem newPredecessors_congr (V : List BlockId) {qs : List BlockId}
    (h : ∀ q ∈ qs, F'.block q = F.block q) :
    F'.newPredecessors V qs = F.newPredecessors V qs := by
  induction qs generalizing V with
  | nil => rfl
  | cons q qs ih =>
    have h' : ∀ q' ∈ qs, F'.block q' = F.block q' := fun q' hq' => h q' (List.mem_cons_of_mem _ hq')
    simp only [newPredecessors, h q (List.mem_cons_self _ _), ih (V ++ [q]) h', ih V h']

/-- A pass of the body reads the popped block and its predecessors, nothing else. -/
theorem iterate_congr {I : Cursor} {s : Search} (hI : F'.block I.block = F.block I.block)
    (hp : ∀ q ∈ (F.block I.block).preds, F'.block q = F.block q) :
    F'.iterate dispatcher I s = F.iterate dispatcher I s := by
  have hmap : (F.newPredecessors s.visited (F.block I.block).preds).map F'.rbegin =
      (F.newPredecessors s.visited (F.block I.block).preds).map F.rbegin :=
    List.map_congr_left fun q hq => by simp only [rbegin, hp q (mem_newPredecessors hq).1]
  have hd : F'.HasDispatcherPred dispatcher I.block = F.HasDispatcherPred dispatcher I.block := by
    simp only [HasDispatcherPred, hI]
  simp only [iterate, scan, hI, hd, newPredecessors_congr s.visited hp, hmap]

/-- Two runs of the loop agree while every iterator still to scan is upstream of `a`, if the two
functions agree on the blocks upstream of `a`. -/
theorem loop_congr {a : BlockId} (hagree : ∀ b, F.Upstream a b → F'.block b = F.block b) :
    ∀ (fuel : Nat) (s : Search), (∀ c ∈ s.workList, F.Upstream a c.block) →
      F'.loop dispatcher fuel s = F.loop dispatcher fuel s
  | 0, _, _ => rfl
  | fuel + 1, s, hs => by
    cases hw : s.workList with
    | nil => simp only [loop, hw]
    | cons I rest =>
      have hrest : ∀ c ∈ rest, F.Upstream a c.block := fun c hc =>
        hs c (hw ▸ List.mem_cons_of_mem _ hc)
      have hI : F.Upstream a I.block := hs I (hw ▸ List.mem_cons_self _ _)
      rw [loop_cons hw, loop_cons hw,
        iterate_congr (hagree _ hI) fun q hq => hagree q (hI.pred hq)]
      cases hit : F.iterate dispatcher I { s with workList := rest } with
      | error e => rfl
      | ok q =>
        obtain ⟨s', ps⟩ := q
        refine loop_congr hagree fuel s' fun c hc => ?_
        rcases iterate_ok hit with ⟨m, -, -, rfl, -⟩ | ⟨-, -, rfl, -⟩ | ⟨-, -, -, rfl, rfl⟩
        · exact hrest c hc
        · exact hrest c hc
        · rcases List.mem_append.mp hc with hc | hc
          · exact hrest c hc
          · obtain ⟨q, hq, rfl⟩ := List.mem_map.mp hc
            exact hI.pred (mem_newPredecessors hq).1

/-- `getPC` reads only the blocks upstream of the queried instruction: a function that agrees
with `F` on them, whatever its other blocks, gets the same answer, failed assertions
included. -/
theorem getPC_frame (F F' : Function) (dispatcher : Option BlockId) (p : Position)
    (hagree : ∀ b, F.Upstream p.block b → F'.block b = F.block b) :
    F'.getPC dispatcher p = F.getPC dispatcher p := by
  obtain ⟨r, hr⟩ := Option.isSome_iff_exists.mp (F.loop_start_isSome dispatcher p)
  have hseed : ∀ c ∈ (start p).workList, F.Upstream p.block c.block := by
    simp only [start, List.mem_singleton]
    rintro c rfl
    exact .refl
  rw [getPC_of_loop ((loop_congr hagree _ _ hseed).trans hr), getPC, hr, Option.map_some']

end Function

/-- `exampleFunction` grown by a jump target `5` at `0x1008`, entered from `4`, which is now also
entered from `5`. -/
def exampleGrown : Function :=
  ⟨[⟨0, [.other], []⟩, ⟨1, [.other], []⟩, ⟨2, [.other], []⟩,
    ⟨3, [.call (some "newpc") 0x1000 4, .other], [0]⟩,
    ⟨4, [.call (some "newpc") 0x1004 2, .other], [3, 5]⟩,
    ⟨5, [.call (some "newpc") 0x1008 4, .other], [4]⟩], by decide⟩

/-- Blocks `3` and `0`, upstream of jump target `3`, are the same in both functions. -/
theorem Function.getPC_frame_example :
    (∀ b, exampleFunction.Upstream 3 b → exampleGrown.block b = exampleFunction.block b) ∧
      exampleGrown.getPC (some 0) ⟨3, 1⟩ = exampleFunction.getPC (some 0) ⟨3, 1⟩ :=
  have h : ∀ b, exampleFunction.Upstream 3 b → exampleGrown.block b = exampleFunction.block b :=
    fun b hb => (by decide : ∀ b ∈ [3, 0], exampleGrown.block b = exampleFunction.block b) b
      (hb.closed (· ∈ [3, 0]) (by decide) (by decide))
  ⟨h, Function.getPC_frame exampleFunction exampleGrown (some 0) ⟨3, 1⟩ h⟩

namespace Function

variable {F : Function} {dispatcher : Option BlockId}

/-! ## 3. The Dispatcher is only asserted against -/

theorem not_hasDispatcherPred_none (b : BlockId) : ¬ F.HasDispatcherPred none b :=
  fun ⟨_, h, _⟩ => Option.noConfusion h

/-- A pass of the body either fails the Dispatcher assertion or does what it does with no
Dispatcher. -/
theorem iterate_dispatcher (I : Cursor) (s : Search) :
    F.iterate dispatcher I s = .error .dispatcherReached ∨
      F.iterate dispatcher I s = F.iterate none I s := by
  unfold iterate
  cases F.scan I with
  | some m => exact .inr rfl
  | none =>
    by_cases hn : s.newPCCall.isSome
    · simp only [hn, ite_true, or_true]
    · by_cases hd : F.HasDispatcherPred dispatcher I.block
      · simp only [hn, hd, ite_true, ite_false, Bool.false_eq_true, true_or]
      · simp only [hn, hd, not_hasDispatcherPred_none, ite_false, Bool.false_eq_true, or_true]

/-- The same for whole runs of the loop. -/
theorem loop_dispatcher : ∀ (fuel : Nat) (s : Search),
    F.loop dispatcher fuel s = some (.error .dispatcherReached) ∨
      F.loop dispatcher fuel s = F.loop none fuel s
  | 0, _ => .inr rfl
  | fuel + 1, s => by
    cases hw : s.workList with
    | nil => exact .inr (by simp only [loop, hw])
    | cons I rest =>
      rw [loop_cons hw, loop_cons hw]
      rcases iterate_dispatcher I { s with workList := rest } with h | h
      · exact .inl (by rw [h])
      · rw [h]
        cases F.iterate none I { s with workList := rest } with
        | error e => exact .inr rfl
        | ok q => exact loop_dispatcher fuel q.1

/-- With no Dispatcher the loop never stops on the Dispatcher assertion. -/
theorem loop_none_ne_dispatcherReached {fuel : Nat} {s : Search} :
    F.loop none fuel s ≠ some (.error .dispatcherReached) := fun h =>
  F.loop_induction (fun _ => True) (· ≠ .error .dispatcherReached) (fun _ _ _ => nofun)
    (fun _ _ _ _ _ _ hit hr => by
      rcases iterate_error hit with ⟨rfl, -, -⟩ | ⟨-, -, -, hd⟩
      · cases hr
      · exact not_hasDispatcherPred_none _ hd)
    (fun _ _ _ _ _ _ _ _ => trivial) fuel s _ trivial h rfl

/-- The Dispatcher enters `getPC` only through its assertion: with no Dispatcher the assertion
never fails, and with one a run either fails it or returns what the search with no Dispatcher
returns. The `continue` of line 119 skips nothing. -/
theorem getPC_dispatcher_only_faults (F : Function) (dispatcher : Option BlockId) (p : Position) :
    F.getPC none p ≠ some (.error .dispatcherReached) ∧
      (F.getPC dispatcher p = some (.error .dispatcherReached) ∨
        F.getPC dispatcher p = F.getPC none p) := by
  refine ⟨fun h => ?_, ?_⟩
  · obtain ⟨r, hr⟩ := Option.isSome_iff_exists.mp (F.loop_start_isSome none p)
    rw [getPC, hr, Option.map_some', Option.some.injEq] at h
    rcases r with (_ | _) | (_ | M)
    · cases h
    · exact loop_none_ne_dispatcherReached hr
    · cases h
    · simp only [finish] at h
      split at h <;> cases h
  · rcases @loop_dispatcher F dispatcher (F.blocks.length + 2) (start p) with h | h
    · exact .inl (by simp only [getPC, h, Option.map_some', finish])
    · exact .inr (by simp only [getPC, h])

end Function

end Hybitor
