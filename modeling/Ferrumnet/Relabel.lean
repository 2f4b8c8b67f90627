import Ferrumnet.Sack
import Ferrumnet.Reasm

/-
  Sequence numbers moved by a constant: what compares them does not notice, and what
  computes one computes the moved one.

  1. `SeqNumber.shift` — with every operation on sequence numbers.
  2. `Scoreboard.relabel` — with every operation on the scoreboard.
  3. `Reasm.relabel` — with every operation on the reassembly buffer.
-/

namespace Ferrumnet

namespace SeqNumber

variable (s t : SeqNumber) (d : BitVec 32)

/-- `s`, moved by `d`. -/
def shift (s : SeqNumber) (d : BitVec 32) : SeqNumber := ⟨s.raw + d⟩

theorem shift_sub : (s.shift d).raw - (t.shift d).raw = s.raw - t.raw := by
  show s.raw + d - (t.raw + d) = _
  abel

@[simp] theorem shift_zero : s.shift 0 = s := by
  simp [shift]

@[simp] theorem distance_shift : (s.shift d).distance (t.shift d) = s.distance t := by
  rw [distance, Serial.sdist, shift_sub]
  rfl

@[simp] theorem offsetFrom_shift : (s.shift d).offsetFrom (t.shift d) = s.offsetFrom t := by
  rw [offsetFrom, Serial.udist, shift_sub]
  rfl

@[simp] theorem lt_shift : (s.shift d).lt (t.shift d) = s.lt t := by rw [lt, distance_shift, lt]
@[simp] theorem le_shift : (s.shift d).le (t.shift d) = s.le t := by rw [le, distance_shift, le]
@[simp] theorem gt_shift : (s.shift d).gt (t.shift d) = s.gt t := by rw [gt, distance_shift, gt]
@[simp] theorem ge_shift : (s.shift d).ge (t.shift d) = s.ge t := by rw [ge, distance_shift, ge]

@[simp] theorem shift_add (n : Nat) : s.shift d + n = (s + n).shift d := by
  show (⟨s.raw + d + BitVec.ofNat 32 n⟩ : SeqNumber) = ⟨s.raw + BitVec.ofNat 32 n + d⟩
  congr 1
  abel

@[simp] theorem shift_inj : s.shift d = t.shift d ↔ s = t := by
  rw [eq_iff_offsetFrom, offsetFrom_shift, ← eq_iff_offsetFrom]

@[simp] theorem min_shift : (s.shift d).min (t.shift d) = (s.min t).shift d := by
  rw [min, le_shift, min, apply_ite (fun x : SeqNumber => x.shift d)]

@[simp] theorem max_shift : (s.shift d).max (t.shift d) = (s.max t).shift d := by
  rw [max, ge_shift, max, apply_ite (fun x : SeqNumber => x.shift d)]

/-- A range, moved. -/
def shiftRun (d : BitVec 32) (run : SeqNumber × SeqNumber) : SeqNumber × SeqNumber := (run.1.shift d, run.2.shift d)

@[simp] theorem shiftRun_fst (run : SeqNumber × SeqNumber) : (shiftRun d run).1 = run.1.shift d := rfl
@[simp] theorem shiftRun_snd (run : SeqNumber × SeqNumber) : (shiftRun d run).2 = run.2.shift d := rfl

end SeqNumber

open SeqNumber (shiftRun)

/-! ## The scoreboard -/

namespace Scoreboard

variable (s : Scoreboard) (d : BitVec 32) (runs : List Run) (seq una nxt limit l r : SeqNumber)

def relabel (s : Scoreboard) (d : BitVec 32) : Scoreboard :=
  { s with sacked := s.sacked.map (shiftRun d)
           rexmit := s.rexmit.map (shiftRun d)
           recoveryPoint := s.recoveryPoint.map (·.shift d) }

@[simp] theorem relabel_new : new.relabel d = new := rfl

/-- What a scan has collected, moved. -/
def Merge.relabel (m : Merge) (d : BitVec 32) : Merge := { m with left := m.left.shift d, right := m.right.shift d }

theorem mergeStep_relabel (m : Merge) (entry : Run × Nat) :
    mergeStep (m.relabel d) (entry.map (shiftRun d) id) = (mergeStep m entry).relabel d := by
  obtain ⟨⟨rl, rr⟩, i⟩ := entry
  simp only [mergeStep, Merge.relabel, Prod.map_apply, shiftRun, SeqNumber.le_shift, SeqNumber.lt_shift,
    SeqNumber.gt_shift, id_eq]
  split
  · simp only [apply_ite (fun x : SeqNumber => x.shift d)]
    rfl
  · rfl

theorem insertRun_relabel :
    insertRun (runs.map (shiftRun d)) (l.shift d) (r.shift d) = (insertRun runs l r).map (shiftRun d) := by
  have hscan : (runs.map (shiftRun d)).zipIdx.foldl mergeStep
      { left := l.shift d, right := r.shift d, first := (runs.map (shiftRun d)).length, count := 0 } =
      (runs.zipIdx.foldl mergeStep { left := l, right := r, first := runs.length, count := 0 }).relabel d := by
    rw [List.zipIdx_map, List.foldl_map, List.length_map]
    show runs.zipIdx.foldl _ (Merge.relabel ⟨l, r, runs.length, 0⟩ d) = _
    exact List.foldl_hom (fun m : Merge => m.relabel d) fun m entry => mergeStep_relabel d m entry
  simp only [insertRun, hscan]
  generalize runs.zipIdx.foldl mergeStep { left := l, right := r, first := runs.length, count := 0 } = m
  have hrest : (runs.map (shiftRun d)).take m.first ++ (runs.map (shiftRun d)).drop (m.first + m.count) =
      (runs.take m.first ++ runs.drop (m.first + m.count)).map (shiftRun d) := by
    rw [List.map_append, List.map_take, List.map_drop]
  simp only [Merge.relabel, hrest]
  generalize runs.take m.first ++ runs.drop (m.first + m.count) = rest
  rw [List.findIdx?_map, List.length_map]
  have hpos : ((fun run : Run => (m.left.shift d).lt run.1) ∘ shiftRun d) = fun run => m.left.lt run.1 := by
    funext run
    exact SeqNumber.lt_shift _ _ d
  rw [hpos, List.map_append, List.map_append, List.map_take, List.map_drop]
  rfl

theorem trimRuns_relabel : trimRuns (runs.map (shiftRun d)) (una.shift d) = (trimRuns runs una).map (shiftRun d) := by
  have hfilter : ((fun run : Run => run.2.gt (una.shift d)) ∘ shiftRun d) = fun run => run.2.gt una := by
    funext run
    exact SeqNumber.gt_shift _ _ d
  rw [trimRuns, List.filter_map, hfilter, List.map_map, trimRuns, List.map_map]
  apply List.map_congr_left
  intro run _
  simp only [Function.comp_apply, shiftRun, SeqNumber.lt_shift]
  split <;> rfl

theorem updateBlock_relabel (block : Run) :
    updateBlock (una.shift d) (nxt.shift d) (runs.map (shiftRun d)) (shiftRun d block) =
      (updateBlock una nxt runs block).map (shiftRun d) := by
  obtain ⟨l, r⟩ := block
  simp only [updateBlock, shiftRun, SeqNumber.lt_shift, SeqNumber.le_shift, SeqNumber.gt_shift]
  split
  · rfl
  · split
    · rfl
    · split
      · rfl
      · rw [← apply_ite (fun x : SeqNumber => x.shift d), SeqNumber.lt_shift]
        generalize (if l.lt una = true then una else l) = left
        split
        · exact insertRun_relabel d runs left r
        · rfl

theorem update_relabel (blocks : List Run) :
    (s.relabel d).update (una.shift d) (nxt.shift d) (blocks.map (shiftRun d)) = (s.update una nxt blocks).relabel d := by
  have hfold : (blocks.map (shiftRun d)).foldl (updateBlock (una.shift d) (nxt.shift d)) (s.sacked.map (shiftRun d)) =
      (blocks.foldl (updateBlock una nxt) s.sacked).map (shiftRun d) := by
    rw [List.foldl_map]
    exact List.foldl_hom (List.map (shiftRun d)) fun runs block => updateBlock_relabel d runs una nxt block
  simp only [update, relabel, hfold, List.map_take]

theorem trim_relabel : (s.relabel d).trim (una.shift d) = (s.trim una).relabel d := by
  simp only [trim, relabel, trimRuns_relabel]

theorem markRexmit_relabel : (s.relabel d).markRexmit (l.shift d) (r.shift d) = (s.markRexmit l r).relabel d := by
  simp only [markRexmit, SeqNumber.lt_shift]
  split
  · simp only [relabel, insertRun_relabel]
  · rfl

theorem setRescueDone_relabel : (s.relabel d).setRescueDone = s.setRescueDone.relabel d := rfl
theorem onRto_relabel : (s.relabel d).onRto = s.onRto.relabel d := rfl
theorem exitRecovery_relabel : (s.relabel d).exitRecovery = s.exitRecovery.relabel d := rfl
theorem beginRecovery_relabel : (s.relabel d).beginRecovery (seq.shift d) = (s.beginRecovery seq).relabel d := rfl

theorem inRecovery_relabel : (s.relabel d).inRecovery = s.inRecovery := Option.isSome_map

theorem recoveryReached_relabel : (s.relabel d).recoveryReached (una.shift d) = s.recoveryReached una := by
  simp only [recoveryReached, relabel]
  cases s.recoveryPoint with
  | none => rfl
  | some rp => exact SeqNumber.ge_shift una rp d

theorem contains_relabel : contains (runs.map (shiftRun d)) (seq.shift d) = contains runs seq := by
  rw [contains, List.any_map, contains]
  congr 1
  funext run
  simp only [Function.comp_apply, shiftRun, SeqNumber.ge_shift, SeqNumber.lt_shift]

theorem isSacked_relabel : (s.relabel d).isSacked (seq.shift d) = s.isSacked seq := contains_relabel d s.sacked seq
theorem isRexmit_relabel : (s.relabel d).isRexmit (seq.shift d) = s.isRexmit seq := contains_relabel d s.rexmit seq

theorem highestSackedEdge_relabel : (s.relabel d).highestSackedEdge = s.highestSackedEdge.map (·.shift d) := by
  simp only [highestSackedEdge, relabel, List.getLast?_map, Option.map_map]
  rfl

theorem nearer_relabel (b edge : SeqNumber) :
    nearer (seq.shift d) (b.shift d) (edge.shift d) = (nearer seq b edge).shift d := by
  rw [nearer, SeqNumber.gt_shift, SeqNumber.lt_shift, nearer, apply_ite (fun x : SeqNumber => x.shift d)]

theorem nextBoundary_relabel :
    (s.relabel d).nextBoundary (seq.shift d) (limit.shift d) = (s.nextBoundary seq limit).shift d := by
  rw [nextBoundary, nextBoundary]
  show ((s.sacked.map (shiftRun d)) ++ (s.rexmit.map (shiftRun d))).foldl _ _ = _
  rw [← List.map_append, List.foldl_map]
  exact List.foldl_hom (fun x : SeqNumber => x.shift d) fun b run => by
    simp only [shiftRun, nearer_relabel]

theorem unsackedRunLen_relabel :
    (s.relabel d).unsackedRunLen (seq.shift d) (limit.shift d) = s.unsackedRunLen seq limit := by
  have hfold : (s.relabel d).sacked.foldl (fun b run => nearer (seq.shift d) b run.1) (limit.shift d) =
      (s.sacked.foldl (fun b run => nearer seq b run.1) limit).shift d := by
    show (s.sacked.map (shiftRun d)).foldl _ _ = _
    rw [List.foldl_map]
    exact List.foldl_hom (fun x : SeqNumber => x.shift d) fun b run => by
      simp only [shiftRun, nearer_relabel]
  simp only [unsackedRunLen, hfold, SeqNumber.le_shift, SeqNumber.offsetFrom_shift]

theorem isLost_relabel (smss : Nat) : (s.relabel d).isLost (seq.shift d) smss = s.isLost seq smss := by
  have habove : (s.relabel d).sacked.filter (fun run => run.1.gt (seq.shift d)) =
      (s.sacked.filter fun run => run.1.gt seq).map (shiftRun d) := by
    show (s.sacked.map (shiftRun d)).filter _ = _
    rw [List.filter_map]
    congr 2
    funext run
    exact SeqNumber.gt_shift _ _ d
  have hlen : ((fun run : Run => run.2.offsetFrom run.1) ∘ shiftRun d) = fun run => run.2.offsetFrom run.1 := by
    funext run
    exact SeqNumber.offsetFrom_shift _ _ d
  simp only [isLost, habove, List.length_map, List.map_map, hlen]

theorem pipeLoop_relabel (smss fuel pipe : Nat) : (s.relabel d).pipeLoop (nxt.shift d) smss fuel (seq.shift d) pipe =
    s.pipeLoop nxt smss fuel seq pipe := by
  induction fuel generalizing seq pipe with
  | zero => rfl
  | succ fuel ih =>
    simp only [pipeLoop, SeqNumber.lt_shift, nextBoundary_relabel, isSacked_relabel, isRexmit_relabel, isLost_relabel,
      SeqNumber.offsetFrom_shift, ih]

theorem pipe_relabel (smss : Nat) : (s.relabel d).pipe (una.shift d) (nxt.shift d) smss = s.pipe una nxt smss := by
  simp only [pipe, SeqNumber.offsetFrom_shift, pipeLoop_relabel]

theorem findLoop_relabel (good good' : SeqNumber → Bool) (h : ∀ q, good' (q.shift d) = good q) (fuel : Nat) :
    (s.relabel d).findLoop (nxt.shift d) good' fuel (seq.shift d) = (s.findLoop nxt good fuel seq).map (·.shift d) := by
  induction fuel generalizing seq with
  | zero => rfl
  | succ fuel ih =>
    simp only [findLoop, SeqNumber.lt_shift, nextBoundary_relabel, h, ih]
    split
    · split <;> rfl
    · rfl

/-- A number and whether it is a rescue, moved. -/
def shiftSeg (d : BitVec 32) (p : SeqNumber × Bool) : SeqNumber × Bool := (p.1.shift d, p.2)

theorem nextSeg_relabel (smss : Nat) :
    (s.relabel d).nextSeg (una.shift d) (nxt.shift d) smss = (s.nextSeg una nxt smss).map (shiftSeg d) := by
  have hlost := s.findLoop_relabel d una nxt
    (fun seq => !s.isSacked seq && !s.isRexmit seq && s.isLost seq smss)
    (fun seq => !(s.relabel d).isSacked seq && !(s.relabel d).isRexmit seq && (s.relabel d).isLost seq smss)
    (fun q => by rw [isSacked_relabel, isRexmit_relabel, isLost_relabel]) (nxt.offsetFrom una)
  simp only [nextSeg, SeqNumber.offsetFrom_shift, hlost, highestSackedEdge_relabel]
  cases s.findLoop nxt (fun seq => !s.isSacked seq && !s.isRexmit seq && s.isLost seq smss) (nxt.offsetFrom una) una with
  | some q => rfl
  | none =>
    show (if s.rescueDone then none else _) = Option.map (shiftSeg d) (if s.rescueDone then none else _)
    split
    · rfl
    · cases s.highestSackedEdge with
      | none => rfl
      | some high =>
        have hbelow := s.findLoop_relabel d una nxt (fun seq => !s.isSacked seq && !s.isRexmit seq && seq.lt high)
          (fun seq => !(s.relabel d).isSacked seq && !(s.relabel d).isRexmit seq && seq.lt (high.shift d))
          (fun q => by rw [isSacked_relabel, isRexmit_relabel, SeqNumber.lt_shift]) (nxt.offsetFrom una)
        simp only [Option.map_some, hbelow, Option.map_map]
        rfl

end Scoreboard

/-! ## The reassembly buffer -/

namespace Reasm

variable (r : Reasm) (d : BitVec 32) (nxt seq start : SeqNumber) (data : Bytes)

def Segment.relabel (run : Segment) (d : BitVec 32) : Segment := { run with start := run.start.shift d }

def relabel (r : Reasm) (d : BitVec 32) : Reasm := { r with runs := r.runs.map (·.relabel d) }

@[simp] theorem relabel_new : new.relabel d = new := rfl
@[simp] theorem buffered_relabel : (r.relabel d).buffered = r.buffered := rfl
@[simp] theorem isEmpty_relabel : (r.relabel d).isEmpty = r.isEmpty := List.isEmpty_map

@[simp] theorem Segment.stop_relabel (run : Segment) : (run.relabel d).stop = run.stop.shift d :=
  SeqNumber.shift_add run.start d run.data.len

@[simp] theorem Segment.start_relabel (run : Segment) : (run.relabel d).start = run.start.shift d := rfl
@[simp] theorem Segment.data_relabel (run : Segment) : (run.relabel d).data = run.data := rfl
@[simp] theorem Segment.stamp_relabel (run : Segment) : (run.relabel d).stamp = run.stamp := rfl

/-- What a scan has collected, moved. -/
def Merge.relabel (m : Merge) (d : BitVec 32) : Merge := { m with start := m.start.shift d, stop := m.stop.shift d }

theorem mergeStep_relabel (lo newEnd : SeqNumber) (m : Merge) (entry : Segment × Nat) :
    mergeStep (lo.shift d) (newEnd.shift d) (m.relabel d) (entry.map (·.relabel d) id) =
      (mergeStep lo newEnd m entry).relabel d := by
  obtain ⟨run, i⟩ := entry
  simp only [mergeStep, Merge.relabel, Prod.map_apply, Segment.start_relabel, Segment.stop_relabel, SeqNumber.le_shift,
    SeqNumber.lt_shift, SeqNumber.gt_shift, id_eq]
  split
  · simp only [apply_ite (fun x : SeqNumber => x.shift d)]
    rfl
  · rfl

theorem scan_relabel (lo newEnd : SeqNumber) (runs : List Segment) :
    scan (lo.shift d) (newEnd.shift d) (runs.map (·.relabel d)) = (scan lo newEnd runs).relabel d := by
  rw [scan, scan, List.zipIdx_map, List.foldl_map, List.length_map]
  show runs.zipIdx.foldl _ (Merge.relabel ⟨lo, newEnd, runs.length, 0⟩ d) = _
  exact List.foldl_hom (fun m : Merge => m.relabel d) fun m entry => mergeStep_relabel d lo newEnd m entry

theorem insertSorted_relabel (seg : Segment) (runs : List Segment) :
    insertSorted (seg.relabel d) (runs.map (·.relabel d)) = (insertSorted seg runs).map (·.relabel d) := by
  have hpos : ((fun run : Segment => (seg.relabel d).start.lt run.start) ∘ fun run : Segment => run.relabel d) =
      fun run => seg.start.lt run.start := by
    funext run
    exact SeqNumber.lt_shift _ _ d
  simp only [insertSorted, List.findIdx?_map, hpos, List.length_map, List.map_append, List.map_take, List.map_drop,
    List.map_cons, List.map_nil]

theorem fuse_relabel (lo : SeqNumber) : (r.relabel d).fuse (lo.shift d) data = (r.fuse lo data).relabel d := by
  have hruns : (r.relabel d).runs = r.runs.map (·.relabel d) := rfl
  have hscan := scan_relabel d lo (lo + data.len) r.runs
  simp only [fuse, hruns, SeqNumber.shift_add, hscan]
  generalize scan lo (lo + data.len) r.runs = m
  have hblock : ((r.runs.map (·.relabel d)).drop (m.relabel d).firstIdx).take (m.relabel d).count =
      ((r.runs.drop m.firstIdx).take m.count).map (·.relabel d) := by
    rw [List.map_take, List.map_drop]
    rfl
  have hrest : (r.runs.map (·.relabel d)).take (m.relabel d).firstIdx ++
      (r.runs.map (·.relabel d)).drop ((m.relabel d).firstIdx + (m.relabel d).count) =
      (r.runs.take m.firstIdx ++ r.runs.drop (m.firstIdx + m.count)).map (·.relabel d) := by
    rw [List.map_append, List.map_take, List.map_drop]
    rfl
  have hstart : (m.relabel d).start = m.start.shift d := rfl
  have hstop : (m.relabel d).stop = m.stop.shift d := rfl
  simp only [hblock, hrest, hstart, hstop, SeqNumber.offsetFrom_shift, List.foldl_map, List.map_map, Segment.start_relabel,
    Segment.data_relabel]
  simp only [relabel, mk.injEq]
  refine ⟨?_, ?_⟩
  · exact insertSorted_relabel d ⟨m.start, _, _⟩ _
  · trivial

theorem insert_relabel (right : SeqNumber) : (r.relabel d).insert (nxt.shift d) (right.shift d) (seq.shift d) data =
    (r.insert nxt right seq data).relabel d := by
  simp only [insert, SeqNumber.shift_add, SeqNumber.max_shift, SeqNumber.min_shift, SeqNumber.ge_shift,
    SeqNumber.offsetFrom_shift]
  split
  · rfl
  · exact fuse_relabel r d _ _

theorem popContiguous_relabel :
    (r.relabel d).popContiguous (nxt.shift d) = ((r.popContiguous nxt).1.relabel d, (r.popContiguous nxt).2) := by
  obtain ⟨runs, bytes, stamp⟩ := r
  cases runs with
  | nil => rfl
  | cons first rest =>
    simp only [popContiguous, relabel, List.map_cons, Segment.start_relabel, SeqNumber.shift_inj]
    split <;> rfl

theorem discardLoop_relabel (runs : List Segment) (bytes : Nat) :
    discardLoop (nxt.shift d) (runs.map (·.relabel d)) bytes =
      ((discardLoop nxt runs bytes).1.map (·.relabel d), (discardLoop nxt runs bytes).2) := by
  induction runs generalizing bytes with
  | nil => rfl
  | cons first rest ih =>
    simp only [List.map_cons, discardLoop, Segment.stop_relabel, Segment.start_relabel, SeqNumber.le_shift,
      SeqNumber.lt_shift, SeqNumber.offsetFrom_shift, ih]
    split
    · rfl
    · split <;> rfl

theorem discardBelow_relabel : (r.relabel d).discardBelow (nxt.shift d) = (r.discardBelow nxt).relabel d := by
  have hloop := discardLoop_relabel d nxt r.runs r.bytes
  simp only [discardBelow, relabel, hloop]

theorem reinsertFront_relabel : (r.relabel d).reinsertFront (start.shift d) data = (r.reinsertFront start data).relabel d := by
  simp only [reinsertFront]
  split <;> rfl

theorem report_relabel (n : Nat) : (r.relabel d).report n = (r.report n).map (shiftRun d) := by
  have hsort : (r.runs.map (·.relabel d)).insertionSort (fun a b => b.stamp ≤ a.stamp) =
      (r.runs.insertionSort fun a b => b.stamp ≤ a.stamp).map (·.relabel d) :=
    (List.map_insertionSort _ _ (fun run : Segment => run.relabel d) r.runs fun _ _ _ _ => Iff.rfl).symm
  simp only [report, relabel, hsort, ← List.map_take, List.map_map]
  apply List.map_congr_left
  intro run _
  simp only [Function.comp_apply, Segment.start_relabel, Segment.stop_relabel, shiftRun]

end Reasm

end Ferrumnet
