import Hybitor.IR

/-!
# GetPC.Search — the worklist loop of `GeneratedCodeBasicInfo::getPC`

`getPC` recovers the original address of an instruction by walking the control-flow graph
backward, breadth first, until it meets a call to `newpc`. The search keeps three locals:
`NewPCCall` (the first marker found), `Visited` and the FIFO `WorkList` of reverse iterators.
Once a marker is found no more predecessors are queued, but the rest of the worklist is still
scanned, and a second marker makes the function return `{ 0, 0 }`.

The loop is written with fuel; `Termination` shows the fuel `getPC` passes is never the reason it
stops.
-/

namespace Hybitor

/-- Results of `getPC` are compared by value, so that concrete runs can be checked by `decide`. -/
instance instDecidableEqExcept {ε α : Type} [DecidableEq ε] [DecidableEq α] :
    DecidableEq (Except ε α)
  | .error a, .error b => if h : a = b then isTrue (h ▸ rfl) else isFalse (by rintro ⟨⟩; exact h rfl)
  | .ok a, .ok b => if h : a = b then isTrue (h ▸ rfl) else isFalse (by rintro ⟨⟩; exact h rfl)
  | .error _, .ok _ => isFalse (by rintro ⟨⟩)
  | .ok _, .error _ => isFalse (by rintro ⟨⟩)

/-! ## 1. Scanning one block -/

/-- The inner `for` loop: visit instructions `k - 1, k - 2, …, 0` of block `b` and stop at the
first direct call to `newpc`. -/
def scanFrom (b : BlockId) (insts : List Instruction) : Nat → Option Marker
  | 0 => none
  | k + 1 =>
    match (insts.getD k .other).newpcArgs with
    | some (pc, size) => some ⟨b, k, pc, size⟩
    | none => scanFrom b insts k

/-- Scanning from a reverse iterator. -/
def Function.scan (F : Function) (c : Cursor) : Option Marker :=
  scanFrom c.block (F.block c.block).insts c.upTo

/-! ## 2. The loop -/

/-- The locals of `getPC`. `visited` lists the blocks in the order they were inserted. -/
structure Search where
  newPCCall : Option Marker
  visited : List BlockId
  workList : List Cursor
  deriving DecidableEq, Repr

/-- The blocks the second predecessor loop pushes, in order: every non-empty predecessor not yet
in `Visited`, which grows as the loop goes. -/
def Function.newPredecessors (F : Function) (visited : List BlockId) :
    List BlockId → List BlockId
  | [] => []
  | q :: qs =>
    if (F.block q).insts ≠ [] ∧ q ∉ visited then q :: F.newPredecessors (visited ++ [q]) qs
    else F.newPredecessors visited qs

/-- `Predecessor == Dispatcher` for some predecessor of `b`; a null `Dispatcher` is no block. -/
def Function.HasDispatcherPred (F : Function) (dispatcher : Option BlockId) (b : BlockId) :
    Prop :=
  ∃ d, dispatcher = some d ∧ d ∈ (F.block b).preds

instance (F : Function) (dispatcher : Option BlockId) (b : BlockId) :
    Decidable (F.HasDispatcherPred dispatcher b) :=
  match dispatcher with
  | some d => decidable_of_iff (d ∈ (F.block b).preds) (by simp [Function.HasDispatcherPred])
  | none => isFalse (by simp [Function.HasDispatcherPred])

/-- How the loop stops while its worklist is not empty. -/
inductive Exit where
  /-- `return { 0, 0 }` on a second call to `newpc`. -/
  | ambiguous
  /-- The failed `assert(!(NewPCCall == nullptr && Predecessor == Dispatcher))`. -/
  | dispatcherReached
  deriving DecidableEq, Repr

/-- One pass of the `while` body on the popped iterator `I`, `s` being the locals after the pop.
Besides the new locals it returns the blocks it pushed. -/
def Function.iterate (F : Function) (dispatcher : Option BlockId) (I : Cursor) (s : Search) :
    Except Exit (Search × List BlockId) :=
  match F.scan I with
  | some m => if s.newPCCall.isSome then .error .ambiguous else .ok ({ s with newPCCall := m }, [])
  | none =>
    if s.newPCCall.isSome then .ok (s, [])
    else if F.HasDispatcherPred dispatcher I.block then .error .dispatcherReached
    else
      let ps := F.newPredecessors s.visited (F.block I.block).preds
      .ok ({ s with workList := s.workList ++ ps.map F.rbegin, visited := s.visited ++ ps }, ps)

/-- `while (!WorkList.empty())` for at most `fuel` iterations: `none` if the fuel runs out,
otherwise the early exit or the final `NewPCCall`. -/
def Function.loop (F : Function) (dispatcher : Option BlockId) :
    Nat → Search → Option (Except Exit (Option Marker))
  | 0, _ => none
  | fuel + 1, s =>
    match s.workList with
    | [] => some (.ok s.newPCCall)
    | I :: rest =>
      match F.iterate dispatcher I { s with workList := rest } with
      | .error e => some (.error e)
      | .ok (s', _) => F.loop dispatcher fuel s'

/-- The first iterator: `--rend()`, the first instruction alone, when `p` opens its block, and
`make_reverse_iterator(p)`, the instructions before `p`, otherwise. -/
def seed (p : Position) : Cursor := ⟨p.block, if p.index = 0 then 1 else p.index⟩

/-- The locals when the loop starts. -/
def start (p : Position) : Search := ⟨none, [], [seed p]⟩

/-- A failed assertion of `getPC`. -/
inductive Fault where
  /-- `assert(!(NewPCCall == nullptr && Predecessor == Dispatcher))`. -/
  | dispatcherReached
  /-- `assert(Size != 0)`. -/
  | zeroSize
  deriving DecidableEq, Repr

/-- What `getPC` does once the loop has stopped. -/
def finish : Except Exit (Option Marker) → Except Fault (UInt64 × UInt64)
  | .error .ambiguous => .ok (0, 0)
  | .error .dispatcherReached => .error .dispatcherReached
  | .ok none => .ok (0, 0)
  | .ok (some m) => if m.size ≠ 0 then .ok (m.pc, m.size) else .error .zeroSize

/-- `GeneratedCodeBasicInfo::getPC`, `dispatcher` being the pass's `Dispatcher`. The loop is given
one iteration more than it can take, so the result is never `none` (`getPC_isSome`). -/
def Function.getPC (F : Function) (dispatcher : Option BlockId) (p : Position) :
    Option (Except Fault (UInt64 × UInt64)) :=
  (F.loop dispatcher (F.blocks.length + 2) (start p)).map finish

/-! ## 3. What one pass of the body can do -/

theorem scanFrom_some {b : BlockId} {insts : List Instruction} {k : Nat} {m : Marker}
    (h : scanFrom b insts k = some m) :
    m.block = b ∧ m.index < k ∧ (insts.getD m.index .other).newpcArgs = some (m.pc, m.size) := by
  induction k with
  | zero => cases h
  | succ k ih =>
    simp only [scanFrom] at h
    split at h
    · cases h; exact ⟨rfl, Nat.lt_succ_self k, ‹_›⟩
    · obtain ⟨hb, hk, hi⟩ := ih h
      exact ⟨hb, Nat.lt_succ_of_lt hk, hi⟩

/-- A scan that passes a `newpc` call finds a marker. -/
theorem scanFrom_isSome {b : BlockId} {insts : List Instruction} {j k : Nat}
    (hj : (insts.getD j .other).newpcArgs.isSome) (hjk : j < k) :
    (scanFrom b insts k).isSome := by
  induction k with
  | zero => omega
  | succ k ih =>
    simp only [scanFrom]
    split
    · rfl
    · rcases Nat.lt_succ_iff_lt_or_eq.mp hjk with hlt | rfl
      · exact ih hlt
      · simp_all

namespace Function

variable {F : Function} {dispatcher : Option BlockId}

theorem scan_block {c : Cursor} {m : Marker} (h : F.scan c = some m) : m.block = c.block :=
  (scanFrom_some h).1

/-! The predecessor push: it pushes non-empty predecessors not yet visited, none twice, and
leaves every non-empty predecessor visited. -/

theorem mem_newPredecessors {V qs : List BlockId} {q : BlockId}
    (h : q ∈ F.newPredecessors V qs) : q ∈ qs ∧ (F.block q).insts ≠ [] ∧ q ∉ V := by
  induction qs generalizing V with
  | nil => cases h
  | cons q₀ qs ih =>
    simp only [newPredecessors] at h
    split at h
    · rcases List.mem_cons.mp h with rfl | h
      · exact ⟨List.mem_cons_self _ _, ‹_ ∧ _›.1, ‹_ ∧ _›.2⟩
      · obtain ⟨hq, hne, hV⟩ := ih h
        exact ⟨List.mem_cons_of_mem _ hq, hne, fun h' => hV (List.mem_append_left _ h')⟩
    · obtain ⟨hq, hne, hV⟩ := ih h
      exact ⟨List.mem_cons_of_mem _ hq, hne, hV⟩

theorem nodup_newPredecessors (V qs : List BlockId) : (F.newPredecessors V qs).Nodup := by
  induction qs generalizing V with
  | nil => exact List.nodup_nil
  | cons q₀ qs ih =>
    simp only [newPredecessors]
    split
    · exact List.nodup_cons.mpr
        ⟨fun h => (mem_newPredecessors h).2.2 (List.mem_append_right _ (List.mem_singleton_self _)),
          ih _⟩
    · exact ih V

theorem mem_visited_of_mem_preds {V qs : List BlockId} {q : BlockId} (hq : q ∈ qs)
    (hne : (F.block q).insts ≠ []) : q ∈ V ++ F.newPredecessors V qs := by
  induction qs generalizing V with
  | nil => cases hq
  | cons q₀ qs ih =>
    simp only [newPredecessors]
    split
    · rcases List.mem_cons.mp hq with rfl | hq
      · simp
      · simpa using @ih (V ++ [q₀]) hq
    · rcases List.mem_cons.mp hq with rfl | hq
      · exact List.mem_append_left _ (by tauto)
      · exact ih hq

/-- What a pass of the body that does not stop the loop did. -/
theorem iterate_ok {I : Cursor} {s s' : Search} {ps : List BlockId}
    (h : F.iterate dispatcher I s = .ok (s', ps)) :
    (∃ m, F.scan I = some m ∧ s.newPCCall = none ∧ s' = { s with newPCCall := some m } ∧
      ps = []) ∨
    (F.scan I = none ∧ s.newPCCall.isSome ∧ s' = s ∧ ps = []) ∨
    (F.scan I = none ∧ s.newPCCall = none ∧ ¬ F.HasDispatcherPred dispatcher I.block ∧
      ps = F.newPredecessors s.visited (F.block I.block).preds ∧
      s' = { s with workList := s.workList ++ ps.map F.rbegin, visited := s.visited ++ ps }) := by
  unfold iterate at h
  cases hs : F.scan I with
  | some m =>
    cases hn : s.newPCCall with
    | some _ => simp [hs, hn] at h
    | none =>
      simp only [hs, hn, Option.isSome_none, Bool.false_eq_true, ite_false, Except.ok.injEq,
        Prod.mk.injEq] at h
      exact .inl ⟨m, rfl, rfl, h.1.symm, h.2.symm⟩
  | none =>
    cases hn : s.newPCCall with
    | some _ =>
      simp only [hs, hn, Option.isSome_some, ite_true, Except.ok.injEq, Prod.mk.injEq] at h
      exact .inr (.inl ⟨rfl, rfl, h.1.symm, h.2.symm⟩)
    | none =>
      simp only [hs, hn, Option.isSome_none, Bool.false_eq_true, ite_false] at h
      split at h
      · cases h
      · simp only [Except.ok.injEq, Prod.mk.injEq] at h
        obtain ⟨rfl, rfl⟩ := h
        exact .inr (.inr ⟨rfl, rfl, ‹_›, rfl, rfl⟩)

/-- What a pass of the body that stops the loop saw. -/
theorem iterate_error {I : Cursor} {s : Search} {e : Exit}
    (h : F.iterate dispatcher I s = .error e) :
    (e = .ambiguous ∧ (F.scan I).isSome ∧ s.newPCCall.isSome) ∨
    (e = .dispatcherReached ∧ F.scan I = none ∧ s.newPCCall = none ∧
      F.HasDispatcherPred dispatcher I.block) := by
  unfold iterate at h
  cases hs : F.scan I with
  | some m =>
    cases hn : s.newPCCall with
    | some _ =>
      simp only [hs, hn, Option.isSome_some, ite_true, Except.error.injEq] at h
      exact .inl ⟨h.symm, rfl, rfl⟩
    | none => simp [hs, hn] at h
  | none =>
    cases hn : s.newPCCall with
    | some _ => simp [hs, hn] at h
    | none =>
      simp only [hs, hn, Option.isSome_none, Bool.false_eq_true, ite_false] at h
      split at h
      · cases h; exact .inr ⟨rfl, rfl, rfl, ‹_›⟩
      · cases h

/-- One pass of the loop on a non-empty worklist. -/
theorem loop_cons {s : Search} {I : Cursor} {rest : List Cursor} (hw : s.workList = I :: rest)
    (fuel : Nat) :
    F.loop dispatcher (fuel + 1) s =
      match F.iterate dispatcher I { s with workList := rest } with
      | .error e => some (.error e)
      | .ok (s', _) => F.loop dispatcher fuel s' := by
  simp only [loop, hw]

/-- Induction over a run of the loop: a property of the locals that every pass of the body keeps
holds of the locals the loop stops on. -/
theorem loop_induction (Inv : Search → Prop) (P : Except Exit (Option Marker) → Prop)
    (done : ∀ s, Inv s → s.workList = [] → P (.ok s.newPCCall))
    (stop : ∀ s I rest e, Inv s → s.workList = I :: rest →
      F.iterate dispatcher I { s with workList := rest } = .error e → P (.error e))
    (keep : ∀ s I rest s' ps, Inv s → s.workList = I :: rest →
      F.iterate dispatcher I { s with workList := rest } = .ok (s', ps) → Inv s') :
    ∀ fuel s r, Inv s → F.loop dispatcher fuel s = some r → P r := by
  intro fuel
  induction fuel with
  | zero => intro s r _ h; cases h
  | succ fuel ih =>
    intro s r hs h
    simp only [loop] at h
    split at h
    · cases h; exact done s hs ‹_›
    · split at h
      · cases h; exact stop s _ _ _ hs ‹_› ‹_›
      · exact ih _ r (keep s _ _ _ _ hs ‹_› ‹_›) h

end Function

end Hybitor
