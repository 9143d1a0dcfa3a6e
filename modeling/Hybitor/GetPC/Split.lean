import Mathlib.Data.List.GetD
import Hybitor.GetPC.Search

/-!
# GetPC.Split — `getPC` across a block split

Splitting block `x` before its instruction `p` leaves `x` with the instructions before `p` and an
unconditional branch to a new block `x2`, which holds `p` and the rest of `x` and takes over `x`'s
successors. On the split function `p` opens its block, so `getPC` seeds its search with `p` alone
instead of with the instructions before it.

When `p` is not a call to `newpc` and `x` is not the Dispatcher, the search on the split function
runs one iteration behind the search on the original and in lock step with it: its first
iteration scans `p` and queues `x`; from then on each iteration scans what the original's scans
(`x2` standing for the part of `x` after the split) and queues the blocks the original queues
(`x2` in place of `x`). Both return the same answer. When `p` is a `newpc` call the split
function finds it, and the original never looks at it.
-/

namespace Hybitor

/-! ## 1. Splitting a block -/

/-- A predecessor after the split: the edges that left `x` now leave `x2`. -/
def rename (x x2 q : BlockId) : BlockId := if q = x then x2 else q

/-- The blocks once `x` is split before its `i`-th instruction: `x` keeps the first `i`
instructions and a branch to `x2`, which follows it in the layout with the rest. -/
def splitBlocks (x : BlockId) (i : Nat) (x2 : BlockId) : List BasicBlock → List BasicBlock
  | [] => []
  | B :: Bs =>
    if B.id = x then
      ⟨x, B.insts.take i ++ [.other], B.preds.map (rename x x2)⟩ ::
        ⟨x2, B.insts.drop i, [x]⟩ :: splitBlocks x i x2 Bs
    else ⟨B.id, B.insts, B.preds.map (rename x x2)⟩ :: splitBlocks x i x2 Bs

/-- `b` names no block of `F`, not even as a predecessor. -/
def Function.Fresh (F : Function) (b : BlockId) : Prop :=
  b ∉ F.blocks.map BasicBlock.id ∧ ∀ B ∈ F.blocks, b ∉ B.preds

instance (F : Function) (b : BlockId) : Decidable (F.Fresh b) :=
  inferInstanceAs (Decidable (_ ∧ _))

section SplitBlocks

variable {x x2 : BlockId} {i : Nat}

theorem mem_ids_splitBlocks {L : List BasicBlock} {q : BlockId} :
    q ∈ (splitBlocks x i x2 L).map BasicBlock.id ↔
      q ∈ L.map BasicBlock.id ∨ (q = x2 ∧ x ∈ L.map BasicBlock.id) := by
  induction L with
  | nil => simp [splitBlocks]
  | cons B Bs ih =>
    simp only [splitBlocks]
    split
    · subst x
      simp only [List.map_cons, List.mem_cons, ih, true_or, and_true]
      by_cases hq : q = x2 <;> simp [hq]
    · have hx : x ≠ B.id := Ne.symm ‹_›
      simp only [List.map_cons, List.mem_cons, ih, hx, false_or, or_assoc]

theorem nodup_splitBlocks {L : List BasicBlock} (hnd : (L.map BasicBlock.id).Nodup)
    (hx2 : x2 ∉ L.map BasicBlock.id) : ((splitBlocks x i x2 L).map BasicBlock.id).Nodup := by
  induction L with
  | nil => exact List.nodup_nil
  | cons B Bs ih =>
    rw [List.map_cons, List.nodup_cons] at hnd
    rw [List.map_cons, List.mem_cons, not_or] at hx2
    simp only [splitBlocks]
    split
    · subst x
      simp only [List.map_cons, List.nodup_cons, List.mem_cons, mem_ids_splitBlocks]
      refine ⟨fun h => ?_, fun h => h.elim hx2.2 fun h => hnd.1 h.2, ih hnd.2 hx2.2⟩
      rcases h with h | h | ⟨h, -⟩
      exacts [hx2.1 h.symm, hnd.1 h, hx2.1 h.symm]
    · simp only [List.map_cons, List.nodup_cons, mem_ids_splitBlocks]
      exact ⟨fun h => h.elim hnd.1 fun h => hx2.1 h.1.symm, ih hnd.2 hx2.2⟩

theorem length_splitBlocks {L : List BasicBlock} (hnd : (L.map BasicBlock.id).Nodup) :
    (splitBlocks x i x2 L).length = L.length + if x ∈ L.map BasicBlock.id then 1 else 0 := by
  induction L with
  | nil => simp [splitBlocks]
  | cons B Bs ih =>
    rw [List.map_cons, List.nodup_cons] at hnd
    simp only [splitBlocks]
    split
    · subst x
      simp [ih hnd.2, hnd.1]
    · simp [ih hnd.2, Ne.symm ‹_›]
      omega

theorem mem_splitBlocks {L : List BasicBlock} {B : BasicBlock} (hB : B ∈ L) :
    (B.id = x → ⟨x, B.insts.take i ++ [.other], B.preds.map (rename x x2)⟩ ∈ splitBlocks x i x2 L ∧
      ⟨x2, B.insts.drop i, [x]⟩ ∈ splitBlocks x i x2 L) ∧
    (B.id ≠ x → ⟨B.id, B.insts, B.preds.map (rename x x2)⟩ ∈ splitBlocks x i x2 L) := by
  induction L with
  | nil => cases hB
  | cons C Cs ih =>
    simp only [splitBlocks]
    rcases List.mem_cons.mp hB with rfl | hB
    · split <;> simp [*]
    · have h := ih hB
      split
      · exact ⟨fun hx => ⟨.tail _ (.tail _ (h.1 hx).1), .tail _ (.tail _ (h.1 hx).2)⟩,
          fun hx => .tail _ (.tail _ (h.2 hx))⟩
      · exact ⟨fun hx => ⟨.tail _ (h.1 hx).1, .tail _ (h.1 hx).2⟩, fun hx => .tail _ (h.2 hx)⟩

end SplitBlocks

/-- `F` with block `x` split before its `i`-th instruction into `x` and the new block `x2`. -/
def Function.splitBlock (F : Function) (x : BlockId) (i : Nat) (x2 : BlockId) (h : F.Fresh x2) :
    Function :=
  ⟨splitBlocks x i x2 F.blocks, nodup_splitBlocks F.ids_nodup h.1⟩

/-- What a split does to each block, whatever the layout: `x` keeps its first `i` instructions and
a branch, `x2` holds the rest and has `x` as its one predecessor, and `x2` replaces `x` among every
block's predecessors. -/
structure IsSplit (F F' : Function) (x : BlockId) (i : Nat) (x2 : BlockId) : Prop where
  block_self : F'.block x =
    ⟨x, (F.block x).insts.take i ++ [.other], (F.block x).preds.map (rename x x2)⟩
  block_new : F'.block x2 = ⟨x2, (F.block x).insts.drop i, [x]⟩
  block_other : ∀ q, q ≠ x → q ≠ x2 →
    F'.block q = ⟨q, (F.block q).insts, (F.block q).preds.map (rename x x2)⟩
  length : F'.blocks.length = F.blocks.length + 1

theorem Function.splitBlock_isSplit (F : Function) {x x2 : BlockId} {i : Nat} (h : F.Fresh x2)
    (hx : x ∈ F.blocks.map BasicBlock.id) : IsSplit F (F.splitBlock x i x2 h) x i x2 := by
  obtain ⟨B, hB, rfl⟩ := List.mem_map.mp hx
  have hFB := F.block_of_mem hB
  refine ⟨?_, ?_, fun q hq hq2 => ?_, ?_⟩
  · rw [hFB]
    exact (F.splitBlock B.id i x2 h).block_of_mem ((mem_splitBlocks hB).1 rfl).1
  · rw [hFB]
    exact (F.splitBlock B.id i x2 h).block_of_mem ((mem_splitBlocks hB).1 rfl).2
  · by_cases hq' : q ∈ F.blocks.map BasicBlock.id
    · obtain ⟨C, hC, rfl⟩ := List.mem_map.mp hq'
      rw [F.block_of_mem hC]
      exact (F.splitBlock B.id i x2 h).block_of_mem ((mem_splitBlocks hC).2 hq)
    · rw [F.block_of_not_mem hq', (F.splitBlock B.id i x2 h).block_of_not_mem]
      · rfl
      · simp only [Function.splitBlock, mem_ids_splitBlocks]
        exact fun h' => h'.elim hq' fun h' => hq2 h'.1
  · simp [Function.splitBlock, length_splitBlocks F.ids_nodup, hx]

/-! ## 2. Blocks after a split -/

section Rename

variable {x x2 : BlockId}

@[simp] theorem rename_self : rename x x2 x = x2 := if_pos rfl

@[simp] theorem rename_of_ne {q : BlockId} (h : q ≠ x) : rename x x2 q = q := if_neg h

theorem rename_ne (hx : x ≠ x2) (q : BlockId) : rename x x2 q ≠ x := by
  unfold rename
  split
  exacts [hx.symm, ‹_›]

theorem rename_inj {a b : BlockId} (ha : a ≠ x2) (hb : b ≠ x2) :
    rename x x2 a = rename x x2 b ↔ a = b := by
  unfold rename
  split_ifs <;> subst_vars <;> simp_all [Ne.symm]

/-- Renaming leaves every block other than `x` and `x2` where it was. -/
theorem mem_map_rename {d : BlockId} {l : List BlockId} (hd : d ≠ x) (hd2 : d ≠ x2) :
    d ∈ l.map (rename x x2) ↔ d ∈ l := by
  refine ⟨fun h => ?_, fun h => List.mem_map.mpr ⟨d, h, rename_of_ne hd⟩⟩
  obtain ⟨a, ha, hr⟩ := List.mem_map.mp h
  by_cases hax : a = x
  · subst a
    exact absurd hr.symm (by simpa using hd2)
  · rwa [(rename_of_ne hax).symm.trans hr] at ha

theorem rename_mem_map {q : BlockId} {V : List BlockId} (hq : q ≠ x2) (hV : ∀ r ∈ V, r ≠ x2) :
    rename x x2 q ∈ V.map (rename x x2) ↔ q ∈ V := by
  refine ⟨fun h => ?_, List.mem_map_of_mem _⟩
  obtain ⟨r, hr, he⟩ := List.mem_map.mp h
  rwa [(rename_inj (hV r hr) hq).mp he] at hr

end Rename

namespace Function

variable {F : Function}

theorem Fresh.ne {b q : BlockId} (h : F.Fresh b) (hq : (F.block q).insts ≠ []) : q ≠ b := by
  rintro rfl
  exact h.1 (F.mem_ids_of_ne_nil hq)

theorem Fresh.not_mem_preds {b : BlockId} (h : F.Fresh b) (q : BlockId) :
    b ∉ (F.block q).preds := by
  rcases F.block_mem_or q with hq | hq
  · exact h.2 _ hq
  · rw [hq]
    exact List.not_mem_nil b

/-- Pushing from a block whose non-empty predecessors are all visited pushes nothing. -/
theorem newPredecessors_eq_nil {qs V : List BlockId}
    (h : ∀ q ∈ qs, (F.block q).insts ≠ [] → q ∈ V) : F.newPredecessors V qs = [] := by
  induction qs with
  | nil => rfl
  | cons q qs ih =>
    simp only [Function.newPredecessors]
    rw [if_neg fun h' => h'.2 (h q (List.mem_cons_self _ _) h'.1)]
    exact ih fun r hr => h r (List.mem_cons_of_mem _ hr)

end Function

section Split

variable {F F' : Function} {x x2 : BlockId} {i : Nat} {dispatcher : Option BlockId}

theorem IsSplit.preds (hs : IsSplit F F' x i x2) {q : BlockId} (hq : q ≠ x2) :
    (F'.block q).preds = (F.block q).preds.map (rename x x2) := by
  by_cases hqx : q = x
  · subst q
    rw [hs.block_self]
  · rw [hs.block_other q hqx hq]

theorem IsSplit.insts (hs : IsSplit F F' x i x2) {q : BlockId} (hq : q ≠ x) (hq2 : q ≠ x2) :
    (F'.block q).insts = (F.block q).insts := by
  rw [hs.block_other q hq hq2]

/-- A block is non-empty after the split exactly when the block it stands for was before. -/
theorem IsSplit.insts_rename (hs : IsSplit F F' x i x2) (hi : i < (F.block x).insts.length)
    {q : BlockId} (hq : q ≠ x2) :
    (F'.block (rename x x2 q)).insts ≠ [] ↔ (F.block q).insts ≠ [] := by
  by_cases hqx : q = x
  · subst q
    rw [rename_self, hs.block_new]
    simp only [ne_eq, List.drop_eq_nil_iff]
    exact iff_of_true (by omega) (List.ne_nil_of_length_pos (by omega))
  · rw [rename_of_ne hqx, hs.insts hqx hq]

theorem IsSplit.hasDispatcherPred (hs : IsSplit F F' x i x2)
    (hd : ∀ d ∈ dispatcher, d ≠ x ∧ d ≠ x2) {q : BlockId} (hq : q ≠ x2) :
    F'.HasDispatcherPred dispatcher q ↔ F.HasDispatcherPred dispatcher q := by
  unfold Function.HasDispatcherPred
  rw [hs.preds hq]
  constructor <;> rintro ⟨d, rfl, h⟩ <;> obtain ⟨hdx, hdx2⟩ := hd d rfl
  · exact ⟨d, rfl, (mem_map_rename hdx hdx2).mp h⟩
  · exact ⟨d, rfl, (mem_map_rename hdx hdx2).mpr h⟩

theorem IsSplit.not_hasDispatcherPred_new (hs : IsSplit F F' x i x2)
    (hd : ∀ d ∈ dispatcher, d ≠ x ∧ d ≠ x2) : ¬ F'.HasDispatcherPred dispatcher x2 := by
  rintro ⟨d, rfl, h⟩
  rw [hs.block_new, List.mem_singleton] at h
  exact (hd d rfl).1 h

/-- The predecessor push after the split queues the renamed blocks the original queues, `x`
being visited from the start. -/
theorem IsSplit.newPredecessors (hs : IsSplit F F' x i x2) (hx : x ≠ x2)
    (hi : i < (F.block x).insts.length) {qs V : List BlockId} (hqs : ∀ q ∈ qs, q ≠ x2)
    (hV : ∀ q ∈ V, q ≠ x2) :
    F'.newPredecessors (x :: V.map (rename x x2)) (qs.map (rename x x2)) =
      (F.newPredecessors V qs).map (rename x x2) := by
  induction qs generalizing V with
  | nil => rfl
  | cons q qs ih =>
    have hq := hqs q (List.mem_cons_self _ _)
    have hmem : rename x x2 q ∈ x :: V.map (rename x x2) ↔ q ∈ V := by
      rw [List.mem_cons, rename_mem_map hq hV]
      exact or_iff_right (rename_ne hx q)
    have hV' : ∀ r ∈ V ++ [q], r ≠ x2 := by
      simpa [or_imp, forall_and] using ⟨hV, hq⟩
    have ih' := ih (fun r hr => hqs r (List.mem_cons_of_mem _ hr)) hV'
    simp only [List.map_append, List.map_cons, List.map_nil, List.cons_append] at ih'
    simp only [List.map_cons, Function.newPredecessors, hs.insts_rename hi hq, hmem]
    split
    · rw [List.map_cons, List.cons_append, ih']
    · exact ih (fun r hr => hqs r (List.mem_cons_of_mem _ hr)) hV

/-! ## 3. Scans after a split -/

/-- Where a marker of `F` sits once `x` is split before its `i`-th instruction. -/
def shiftMarker (x : BlockId) (i : Nat) (x2 : BlockId) (m : Marker) : Marker :=
  if m.block = x ∧ i ≤ m.index then ⟨x2, m.index - i, m.pc, m.size⟩ else m

@[simp] theorem shiftMarker_pc (m : Marker) : (shiftMarker x i x2 m).pc = m.pc := by
  unfold shiftMarker
  split <;> rfl

@[simp] theorem shiftMarker_size (m : Marker) : (shiftMarker x i x2 m).size = m.size := by
  unfold shiftMarker
  split <;> rfl

theorem scanFrom_congr {b : BlockId} {L L' : List Instruction} {k : Nat}
    (h : ∀ j < k, L.getD j .other = L'.getD j .other) : scanFrom b L k = scanFrom b L' k := by
  induction k with
  | zero => rfl
  | succ k ih =>
    simp only [scanFrom, h k (Nat.lt_succ_self k), ih fun j hj => h j (Nat.lt_succ_of_lt hj)]

/-- Scanning, as `x2`, the part of `x` from the split on finds what scanning `x` up to the same
point finds, when the part before the split holds no marker. -/
theorem scanFrom_drop {L : List Instruction} (hseed : scanFrom x L i = none) (k : Nat) :
    scanFrom x2 (L.drop i) k = (scanFrom x L (i + k)).map (shiftMarker x i x2) := by
  induction k with
  | zero => rw [Nat.add_zero, hseed]; rfl
  | succ k ih =>
    have hget : (L.drop i).getD k .other = L.getD (i + k) .other := by
      simp only [List.getD_eq_getElem?_getD, List.getElem?_drop]
    rw [← Nat.add_assoc]
    simp only [scanFrom, hget]
    split
    · simp [shiftMarker]
    · exact ih

theorem map_shiftMarker_scan {c : Cursor} (h : c.block ≠ x) :
    (F.scan c).map (shiftMarker x i x2) = F.scan c := by
  cases hc : F.scan c with
  | none => rfl
  | some m => exact congrArg some (if_neg fun h' => h (Function.scan_block hc ▸ h'.1))

/-- The seed after the split, the instructions of `x` before `p` and the branch, finds what the
seed before the split finds. -/
theorem IsSplit.scan_seed (hs : IsSplit F F' x i x2) (hi : i < (F.block x).insts.length) :
    F'.scan ⟨x, i + 1⟩ = (F.scan ⟨x, i⟩).map (shiftMarker x i x2) := by
  have hlen : ((F.block x).insts.take i).length = i := List.length_take_of_le hi.le
  have hbr : ((F.block x).insts.take i ++ [Instruction.other]).getD i .other = .other := by
    rw [List.getD_append_right _ _ _ _ hlen.le, hlen, Nat.sub_self]
    rfl
  have hpre : ∀ j < i,
      ((F.block x).insts.take i ++ [Instruction.other]).getD j .other =
        (F.block x).insts.getD j .other :=
    fun j hj => by
      rw [List.getD_append _ _ _ _ (hlen.symm ▸ hj), List.getD_eq_getElem?_getD,
        List.getElem?_take_of_lt hj, ← List.getD_eq_getElem?_getD]
  have hscan : F'.scan ⟨x, i + 1⟩ = F.scan ⟨x, i⟩ := by
    show scanFrom x (F'.block x).insts (i + 1) = scanFrom x (F.block x).insts i
    rw [hs.block_self]
    simp only [scanFrom, hbr, Instruction.newpcArgs]
    exact scanFrom_congr hpre
  rw [hscan]
  cases hc : F.scan ⟨x, i⟩ with
  | none => rfl
  | some m =>
    exact congrArg some (if_neg fun h' => absurd h'.2 (Nat.not_le.mpr (scanFrom_some hc).2.1)).symm

/-- A whole block after the split finds what the whole block it stands for finds; for `x2`,
standing for `x`, this needs the seed to have found nothing. -/
theorem IsSplit.scan_rbegin (hs : IsSplit F F' x i x2) (hi : i < (F.block x).insts.length)
    (hseed : F.scan ⟨x, i⟩ = none) {q : BlockId} (hq : q ≠ x2) :
    F'.scan (F'.rbegin (rename x x2 q)) = (F.scan (F.rbegin q)).map (shiftMarker x i x2) := by
  by_cases hqx : q = x
  · subst q
    rw [rename_self]
    show scanFrom x2 (F'.block x2).insts (F'.block x2).insts.length =
      (scanFrom x (F.block x).insts (F.block x).insts.length).map _
    rw [hs.block_new, List.length_drop, scanFrom_drop hseed, Nat.add_sub_cancel' hi.le]
  · rw [rename_of_ne hqx, map_shiftMarker_scan hqx]
    show scanFrom q (F'.block q).insts (F'.block q).insts.length = _
    rw [hs.insts hqx hq]
    rfl

/-! ## 4. One iteration, before and after the split -/

/-- The locals of the search on the split function that stand for the locals `s` of the search on
`F`: markers moved, `x` visited from the start, and `x2` in place of `x`. -/
def splitSearch (F' : Function) (x : BlockId) (i : Nat) (x2 : BlockId) (s : Search) : Search :=
  ⟨s.newPCCall.map (shiftMarker x i x2), x :: s.visited.map (rename x x2),
    s.workList.map fun c => F'.rbegin (rename x x2 c.block)⟩

/-- An iteration after the split does what the matching iteration before it does, once their
cursors scan alike, see the Dispatcher alike and push alike. -/
theorem iterate_splitSearch {c c' : Cursor} (t : Search)
    (hscan : F'.scan c' = (F.scan c).map (shiftMarker x i x2))
    (hdisp : F'.HasDispatcherPred dispatcher c'.block ↔ F.HasDispatcherPred dispatcher c.block)
    (hpush : F'.newPredecessors (x :: t.visited.map (rename x x2)) (F'.block c'.block).preds =
      (F.newPredecessors t.visited (F.block c.block).preds).map (rename x x2)) :
    F'.iterate dispatcher c' (splitSearch F' x i x2 t) =
      (F.iterate dispatcher c t).map fun r => (splitSearch F' x i x2 r.1, r.2.map (rename x x2)) := by
  obtain ⟨n, V, W⟩ := t
  unfold Function.iterate
  rw [hscan]
  cases F.scan c with
  | some m => cases n <;> rfl
  | none =>
    cases n with
    | some _ => rfl
    | none =>
      by_cases hD : F.HasDispatcherPred dispatcher c.block
      · simp [splitSearch, hD, hdisp.mpr hD, Except.map]
      · simp only [splitSearch] at hpush
        simp [splitSearch, hD, mt hdisp.mp hD, hpush, Except.map, Function.comp_def]

theorem IsSplit.hasDispatcherPred_rename (hs : IsSplit F F' x i x2)
    (hd : ∀ d ∈ dispatcher, d ≠ x ∧ d ≠ x2) (hdx : ¬ F.HasDispatcherPred dispatcher x)
    {q : BlockId} (hq : q ≠ x2) :
    F'.HasDispatcherPred dispatcher (rename x x2 q) ↔ F.HasDispatcherPred dispatcher q := by
  by_cases hqx : q = x
  · subst q
    rw [rename_self]
    exact iff_of_false (hs.not_hasDispatcherPred_new hd) hdx
  · rw [rename_of_ne hqx]
    exact hs.hasDispatcherPred hd hq

theorem IsSplit.newPredecessors_rename (hs : IsSplit F F' x i x2) (hfresh : F.Fresh x2)
    (hi : i < (F.block x).insts.length) {V : List BlockId}
    (hV : ∀ r ∈ V, (F.block r).insts ≠ [])
    (hpv : ∀ r ∈ (F.block x).preds, (F.block r).insts ≠ [] → r ∈ V) {q : BlockId} (hq : q ≠ x2) :
    F'.newPredecessors (x :: V.map (rename x x2)) (F'.block (rename x x2 q)).preds =
      (F.newPredecessors V (F.block q).preds).map (rename x x2) := by
  have hx : x ≠ x2 := hfresh.ne (List.ne_nil_of_length_pos (by omega))
  by_cases hqx : q = x
  · subst q
    rw [rename_self, hs.block_new, Function.newPredecessors_eq_nil hpv,
      Function.newPredecessors_eq_nil fun r hr _ => List.mem_singleton.mp hr ▸ List.mem_cons_self _ _]
    rfl
  · rw [rename_of_ne hqx, hs.preds hq]
    exact hs.newPredecessors hx hi (fun r hr h => hfresh.not_mem_preds q (h ▸ hr))
      fun r hr => hfresh.ne (hV r hr)

/-! ## 5. The whole search -/

/-- What the simulation needs of the locals of the search on `F`: visited and queued blocks are
non-empty, queued iterators scan whole blocks, and `x`'s non-empty predecessors are visited. -/
structure SplitInv (F : Function) (x : BlockId) (s : Search) : Prop where
  visited : ∀ q ∈ s.visited, (F.block q).insts ≠ []
  workList : ∀ c ∈ s.workList, c = F.rbegin c.block ∧ (F.block c.block).insts ≠ []
  preds : ∀ q ∈ (F.block x).preds, (F.block q).insts ≠ [] → q ∈ s.visited

theorem SplitInv.iterate {s s' : Search} {c : Cursor} {rest : List Cursor} {ps : List BlockId}
    (hinv : SplitInv F x s) (hw : s.workList = c :: rest)
    (h : F.iterate dispatcher c { s with workList := rest } = .ok (s', ps)) : SplitInv F x s' := by
  have hrest : ∀ c ∈ rest, c = F.rbegin c.block ∧ (F.block c.block).insts ≠ [] :=
    fun c hc => hinv.workList c (hw ▸ List.mem_cons_of_mem _ hc)
  rcases Function.iterate_ok h with ⟨m, -, -, rfl, -⟩ | ⟨-, -, rfl, -⟩ | ⟨-, -, -, rfl, rfl⟩
  · exact ⟨hinv.visited, hrest, hinv.preds⟩
  · exact ⟨hinv.visited, hrest, hinv.preds⟩
  · refine ⟨?_, ?_, fun q hq hne => List.mem_append_left _ (hinv.preds q hq hne)⟩
    · simp only [List.mem_append]
      rintro q (hq | hq)
      exacts [hinv.visited q hq, (Function.mem_newPredecessors hq).2.1]
    · simp only [List.mem_append, List.mem_map]
      rintro c (hc | ⟨q, hq, rfl⟩)
      exacts [hrest c hc, ⟨rfl, (Function.mem_newPredecessors hq).2.1⟩]

/-- Once the seed has found nothing and queued `x`'s predecessors, the search after the split
follows the search before it iteration by iteration, to the same end. -/
theorem IsSplit.loop (hs : IsSplit F F' x i x2) (hfresh : F.Fresh x2)
    (hi : i < (F.block x).insts.length) (hd : ∀ d ∈ dispatcher, d ≠ x ∧ d ≠ x2)
    (hseed : F.scan ⟨x, i⟩ = none) (hdx : ¬ F.HasDispatcherPred dispatcher x) :
    ∀ fuel s, SplitInv F x s → F'.loop dispatcher fuel (splitSearch F' x i x2 s) =
      (F.loop dispatcher fuel s).map (Except.map (Option.map (shiftMarker x i x2))) := by
  intro fuel
  induction fuel with
  | zero => intro s _; rfl
  | succ fuel ih =>
    rintro ⟨n, V, W⟩ hinv
    cases W with
    | nil => rfl
    | cons c rest =>
      obtain ⟨hc, hne⟩ := hinv.workList c (List.mem_cons_self _ _)
      generalize c.block = q at hc hne
      subst hc
      have hq := hfresh.ne hne
      have key := iterate_splitSearch ⟨n, V, rest⟩ (hs.scan_rbegin hi hseed hq)
        (hs.hasDispatcherPred_rename hd hdx hq)
        (hs.newPredecessors_rename hfresh hi hinv.visited hinv.preds hq)
      dsimp only [splitSearch] at key ⊢
      simp only [Function.loop, List.map_cons, Function.rbegin_block, key]
      cases h : F.iterate dispatcher (F.rbegin q) ⟨n, V, rest⟩ with
      | error e => rfl
      | ok r => exact ih r.1 (hinv.iterate rfl h)

/-! ## 6. `getPC` before and after a split -/

theorem finish_map_shiftMarker (r : Except Exit (Option Marker)) :
    finish (r.map (Option.map (shiftMarker x i x2))) = finish r := by
  rcases r with e | _ | m
  · rfl
  · rfl
  · simp [finish, Except.map]

/-- The first iteration after the split scans `p` alone, finds no marker, and queues `x`. -/
theorem IsSplit.iterate_first (hs : IsSplit F F' x i x2) (hi : i < (F.block x).insts.length)
    (hnewpc : ((F.block x).insts.getD i .other).newpcArgs = none)
    (hd : ∀ d ∈ dispatcher, d ≠ x ∧ d ≠ x2) :
    F'.iterate dispatcher ⟨x2, 1⟩ ⟨none, [], []⟩ = .ok (⟨none, [x], [⟨x, i + 1⟩]⟩, [x]) := by
  have hp : F'.scan ⟨x2, 1⟩ = none := by
    show scanFrom x2 (F'.block x2).insts 1 = none
    rw [hs.block_new]
    simp only [scanFrom, List.getD_eq_getElem?_getD, List.getElem?_drop, Nat.add_zero]
    rw [← List.getD_eq_getElem?_getD, hnewpc]
  have hlen : (F'.block x).insts.length = i + 1 := by rw [hs.block_self]; simp; omega
  have hps : F'.newPredecessors [] (F'.block x2).preds = [x] := by
    rw [hs.block_new, Function.newPredecessors,
      if_pos ⟨List.ne_nil_of_length_pos (by omega), List.not_mem_nil x⟩]
    rfl
  simp only [Function.iterate, hp, Option.isSome_none, Bool.false_eq_true, if_false,
    if_neg (hs.not_hasDispatcherPred_new hd), hps, List.map_cons, List.map_nil, List.nil_append,
    Function.rbegin, hlen]

/-- Split `x` before `p = ⟨x, i⟩`, neither the first instruction of `x` nor a call to `newpc`,
into `x` and a new block `x2`. When neither is the Dispatcher, `getPC` returns for `p`, now the
first instruction of `x2`, what it returned for `p` before the split. -/
theorem IsSplit.getPC (hs : IsSplit F F' x i x2) (hfresh : F.Fresh x2) (hi0 : 0 < i)
    (hi : i < (F.block x).insts.length)
    (hnewpc : ((F.block x).insts.getD i .other).newpcArgs = none)
    (hd : ∀ d ∈ dispatcher, d ≠ x ∧ d ≠ x2) :
    F'.getPC dispatcher ⟨x2, 0⟩ = F.getPC dispatcher ⟨x, i⟩ := by
  have hx : x ≠ x2 := hfresh.ne (List.ne_nil_of_length_pos (by omega))
  -- the second iteration after the split does what the first does before it
  have hsecond : F'.iterate dispatcher ⟨x, i + 1⟩ ⟨none, [x], []⟩ = _ :=
    iterate_splitSearch ⟨none, [], []⟩ (hs.scan_seed hi) (hs.hasDispatcherPred hd hx)
    (by rw [hs.preds hx]
        exact hs.newPredecessors hx hi (fun r hr h => hfresh.not_mem_preds x (h ▸ hr)) (by simp))
  unfold Function.getPC
  rw [hs.length, @Function.loop_cons F' dispatcher (start ⟨x2, 0⟩) ⟨x2, 1⟩ [] rfl,
    @Function.loop_cons F dispatcher (start ⟨x, i⟩) ⟨x, i⟩ [] (by simp [start, seed, hi0.ne'])]
  simp only [start, hs.iterate_first hi hnewpc hd]
  rw [@Function.loop_cons F' dispatcher _ ⟨x, i + 1⟩ [] rfl]
  dsimp only
  rw [hsecond]
  cases h : F.iterate dispatcher ⟨x, i⟩ ⟨none, [], []⟩ with
  | error e => rfl
  | ok r =>
    obtain ⟨t, ps⟩ := r
    rcases Function.iterate_ok h with ⟨m, -, -, rfl, rfl⟩ | ⟨-, hn, -⟩ | ⟨hseed, -, hdx, rfl, rfl⟩
    · -- the seed found a marker: both searches stop at once
      exact congrArg some (finish_map_shiftMarker (.ok (some m)))
    · cases hn
    · -- the seed found nothing and queued `x`'s predecessors: from here on, lock step
      have hinv : SplitInv F x ⟨none, [] ++ F.newPredecessors [] (F.block x).preds,
          [] ++ (F.newPredecessors [] (F.block x).preds).map F.rbegin⟩ :=
        ⟨fun q hq => (Function.mem_newPredecessors hq).2.1,
          fun c hc => by
            obtain ⟨q, hq, rfl⟩ := List.mem_map.mp hc
            exact ⟨rfl, (Function.mem_newPredecessors hq).2.1⟩,
          fun q hq hne => Function.mem_visited_of_mem_preds hq hne⟩
      show Option.map finish (F'.loop dispatcher _ (splitSearch F' x i x2 _)) = _
      rw [hs.loop hfresh hi hd hseed hdx _ _ hinv, Option.map_map]
      exact congrArg (Option.map · _) (funext finish_map_shiftMarker)

end Split

namespace Function

/-- A block whose second instruction is a `newpc` call. -/
def newpcSecond : Function :=
  ⟨[⟨0, [.other, .call (some "newpc") 0x10 4], []⟩], by decide⟩

/-- A Dispatcher block `0` that opens with a `newpc` call. -/
def dispatcherFirstCall : Function :=
  ⟨[⟨0, [.call (some "newpc") 16 4, .other], []⟩], by decide⟩

/-- Splitting the Dispatcher itself changes what `getPC` returns: before the split the seed meets
the call at the top of `0`, after it the new block `1` has the Dispatcher as its predecessor and
holds no marker, so the assertion fires. -/
theorem getPC_splitBlock_at_dispatcher :
    dispatcherFirstCall.getPC (some 0) ⟨0, 1⟩ = some (.ok (16, 4)) ∧
      (dispatcherFirstCall.splitBlock 0 1 1 (by decide)).getPC (some 0) ⟨1, 0⟩ =
        some (.error .dispatcherReached) := by
  decide

end Function

end Hybitor
