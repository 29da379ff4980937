import Segmentor.PreparedSegments
import Segmentor.StreamJob

/-!
# What a stream sends

However the requested pieces are grouped into reads, the chunks sent are the
requested bytes of the response, in order, none empty and none longer than a
chunk.
-/

namespace Segmentor

open General

variable {source : List UInt8} {chunkSize : ℕ}

/-! ## The requested pieces -/

theorem readRange_eq_stretch (source : List UInt8) (range : ByteRange) :
    readRange source range = stretch source range.offset range.last := by
  unfold readRange ByteRange.last
  rw [stretch_eq_take_drop, Nat.add_sub_cancel_left]

/-- A piece that is not empty and inside the source. -/
structure ByteRange.Within (range : ByteRange) (limit : ℕ) : Prop where
  length_pos : 0 < range.length
  last_le : range.last ≤ limit

theorem requestedPiece_spec {interval : ByteInterval} {virtualOffset : ℕ}
    {range : ByteRange} (hrange : range.last ≤ source.length) :
    (∀ piece ∈ (requestedPiece interval virtualOffset range).toList,
      piece.Within source.length) ∧
    (requestedPiece interval virtualOffset range).toList.flatMap
        (readRange source) =
      stretch (readRange source range) (interval.start - virtualOffset)
        (interval.stop - virtualOffset) := by
  rw [readRange_eq_stretch source range, stretch_stretch]
  unfold requestedPiece ByteInterval.overlap ByteRange.last at *
  dsimp only
  split
  · rename_i hlt
    rw [Option.map_some, Option.toList_some, List.flatMap_singleton,
      readRange_eq_stretch]
    unfold ByteRange.last
    dsimp only
    constructor
    · intro piece hpiece
      rw [List.mem_singleton] at hpiece
      subst hpiece
      constructor
      · dsimp only
        omega
      · unfold ByteRange.last
        dsimp only
        omega
    · congr 1 <;> omega
  · rename_i hge
    rw [Option.map_none, Option.toList_none, List.flatMap_nil,
      stretch_eq_nil (by omega)]
    simp

/-- The pieces are what the interval asks of the ranges. -/
theorem requestedPieces_spec {interval : ByteInterval} {virtualOffset : ℕ}
    {ranges : List ByteRange}
    (hinside : ∀ range ∈ ranges, range.last ≤ source.length) :
    (∀ piece ∈ requestedPieces interval virtualOffset ranges,
      piece.Within source.length) ∧
    (requestedPieces interval virtualOffset ranges).flatMap
        (readRange source) =
      stretch (ranges.flatMap (readRange source))
        (interval.start - virtualOffset) (interval.stop - virtualOffset) := by
  induction ranges generalizing virtualOffset with
  | nil => simp [requestedPieces, stretch]
  | cons range ranges ih =>
      obtain ⟨hrange, hranges⟩ := List.forall_mem_cons.mp hinside
      obtain ⟨hwithin, hbytes⟩ := @ih (virtualOffset + range.length) hranges
      obtain ⟨hpiece, hpieceBytes⟩ :=
        @requestedPiece_spec _ interval virtualOffset _ hrange
      constructor
      · intro piece hmem
        rcases List.mem_append.mp hmem with hmem | hmem
        · exact hpiece piece hmem
        · exact hwithin piece hmem
      · rw [requestedPieces, List.flatMap_append, hbytes, hpieceBytes,
          List.flatMap_cons, stretch_append, length_readRange hrange,
          Nat.sub_sub, Nat.sub_sub]

/-! ## Pieces in one direction -/

/-- Pieces that come one after another in the file. -/
def Forward (pieces : List ByteRange) : Prop :=
  pieces.Pairwise fun piece next => piece.last ≤ next.offset

/-- Pieces in a stretch of the file that come one after another are not
longer than it. -/
theorem Forward.sum_length_le {pieces : List ByteRange} {start stop : ℕ}
    (h : Forward pieces) (hle : start ≤ stop)
    (hmem : ∀ piece ∈ pieces, start ≤ piece.offset ∧ piece.last ≤ stop) :
    (pieces.map ByteRange.length).sum ≤ stop - start := by
  induction pieces generalizing start with
  | nil => exact Nat.zero_le _
  | cons piece pieces ih =>
      obtain ⟨hnext, hrest⟩ := List.pairwise_cons.mp h
      obtain ⟨⟨hstart, hstop⟩, hpieces⟩ := List.forall_mem_cons.mp hmem
      have hsum := @ih piece.last hrest hstop fun other hother =>
        ⟨hnext other hother, (hpieces other hother).2⟩
      unfold ByteRange.last at hsum hstop
      rw [List.map_cons, List.sum_cons]
      omega

theorem length_flatMap_readRange {pieces : List ByteRange}
    (hmem : ∀ piece ∈ pieces, piece.last ≤ source.length) :
    (pieces.flatMap (readRange source)).length =
      (pieces.map ByteRange.length).sum := by
  rw [List.length_flatMap]
  congr 1
  exact List.map_congr_left fun piece hpiece =>
    length_readRange (hmem piece hpiece)

/-- A piece of a span that was read. -/
theorem spanBytes_readRange {start stop : ℕ} {piece : ByteRange}
    (hstart : start ≤ piece.offset) (hlast : piece.last ≤ stop)
    (hstop : stop ≤ source.length) :
    spanBytes (stretch source start stop) (piece.offset - start)
        (piece.offset - start + piece.length) =
      .ok (readRange source piece) := by
  unfold ByteRange.last at hlast
  unfold spanBytes
  rw [length_stretch, if_pos (by omega), stretch_stretch, readRange_eq_stretch]
  unfold ByteRange.last
  congr 2 <;> omega

/-! ## Reads -/

/-- A span that covers its pieces, is inside the source and is no longer than
a chunk. -/
structure OpenRead.Fits (current : OpenRead) (chunkSize limit : ℕ) :
    Prop where
  nonempty : current.pieces ≠ []
  start_le : current.start ≤ current.stop
  room : current.stop - current.start ≤ chunkSize
  stop_le : current.stop ≤ limit
  length_pos : ∀ piece ∈ current.pieces, 0 < piece.length
  covers : ∀ piece ∈ current.pieces,
    current.start ≤ piece.offset ∧ piece.last ≤ current.stop
  forward : Forward current.pieces

namespace Read

def pieces : Read → List ByteRange
  | .split piece => [piece]
  | .span _ _ pieces => pieces

def Fits (chunkSize limit : ℕ) : Read → Prop
  | .split piece => piece.Within limit
  | .span start stop pieces =>
      OpenRead.Fits ⟨start, stop, pieces⟩ chunkSize limit

end Read

theorem OpenRead.Fits.extend {current : OpenRead} {piece : ByteRange}
    {limit : ℕ}
    (h : current.Fits chunkSize limit) (hpiece : piece.Within limit)
    (hgap : current.stop ≤ piece.offset)
    (hroom : piece.last - current.start ≤ chunkSize) :
    OpenRead.Fits
      { current with
        stop := piece.last
        pieces := current.pieces ++ [piece] } chunkSize limit := by
  have hstart := h.start_le
  have hlast : piece.last = piece.offset + piece.length := rfl
  refine
    { nonempty := by simp
      start_le := by dsimp only; omega
      room := hroom
      stop_le := hpiece.last_le
      length_pos := ?_
      covers := ?_
      forward := ?_ }
  · simp only [List.forall_mem_append, List.forall_mem_singleton]
    exact ⟨h.length_pos, hpiece.length_pos⟩
  · simp only [List.forall_mem_append, List.forall_mem_singleton]
    refine ⟨fun other hother => ?_, by omega, Nat.le_refl _⟩
    have := h.covers other hother
    omega
  · refine List.pairwise_append.mpr ⟨h.forward, List.pairwise_singleton _ _,
      fun other hother next hnext => ?_⟩
    rw [List.mem_singleton] at hnext
    subst hnext
    exact (h.covers other hother).2.trans hgap

namespace Coalescing

variable {state : Coalescing} {done : List ByteRange} {piece : ByteRange}
  {limit : ℕ}

/-- The reads so far fit and serve the pieces so far, in order. -/
structure Serves (state : Coalescing) (chunkSize limit : ℕ)
    (done : List ByteRange) : Prop where
  fits : ∀ read ∈ state.closed, read.Fits chunkSize limit
  pieces_eq : state.closed.flatMap Read.pieces = done

theorem Serves.fresh (h : state.Serves chunkSize limit done)
    (hpiece : piece.Within limit) :
    (state.fresh chunkSize piece).Serves chunkSize limit (done ++ [piece]) := by
  have hclosed : ∃ read, (state.fresh chunkSize piece).closed =
      state.closed ++ [read] ∧ read.Fits chunkSize limit ∧
        read.pieces = [piece] := by
    unfold Coalescing.fresh
    split
    · exact ⟨.split piece, by simp [closed], hpiece, rfl⟩
    · rename_i hlength
      refine ⟨.span piece.offset piece.last [piece], by
        simp [closed, OpenRead.close], ?_, rfl⟩
      have hlast : piece.last = piece.offset + piece.length := rfl
      exact
        { nonempty := List.cons_ne_nil _ _
          start_le := by dsimp only; omega
          room := by dsimp only; omega
          stop_le := hpiece.last_le
          length_pos := by simpa using hpiece.length_pos
          covers := by simp
          forward := List.pairwise_singleton _ _ }
  obtain ⟨read, hclosed, hfits, hpieces⟩ := hclosed
  constructor
  · rw [hclosed]
    intro other hother
    rcases List.mem_append.mp hother with hmem | hmem
    · exact h.fits other hmem
    · rw [List.mem_singleton] at hmem
      exact hmem ▸ hfits
  · rw [hclosed, List.flatMap_append, h.pieces_eq, List.flatMap_singleton,
      hpieces]

theorem Serves.step (h : state.Serves chunkSize limit done)
    (hpiece : piece.Within limit) :
    (state.step chunkSize piece).Serves chunkSize limit (done ++ [piece]) := by
  unfold Coalescing.step
  cases hcurrent : state.current with
  | none => exact h.fresh hpiece
  | some current =>
      dsimp only
      split
      · rename_i hfits
        obtain ⟨gap, hgap, hfits⟩ := (Option.any_eq_true _ _).mp hfits
        obtain ⟨hle, -⟩ := checkedSub_eq_some_iff.mp hgap
        unfold Coalescing.fits at hfits
        simp only [decide_eq_true_eq] at hfits
        have hclosed : state.closed = state.reads ++ [current.close] := by
          simp [closed, hcurrent]
        obtain ⟨hreads, hpieces⟩ := h
        rw [hclosed] at hreads hpieces
        have hopen : current.Fits chunkSize limit :=
          hreads current.close (by simp)
        constructor
        · intro read hread
          rcases List.mem_append.mp hread with hmem | hmem
          · exact hreads read (List.mem_append_left _ hmem)
          · simp only [Option.toList_some, List.map_cons, List.map_nil,
              List.mem_singleton] at hmem
            rw [hmem]
            exact hopen.extend hpiece hle hfits.2.2
        · rw [← hpieces]
          simp [closed, OpenRead.close, Read.pieces]
      · exact h.fresh hpiece

theorem Serves.run {pieces : List ByteRange}
    (h : state.Serves chunkSize limit done)
    (hpieces : ∀ piece ∈ pieces, piece.Within limit) :
    (pieces.foldl (Coalescing.step chunkSize) state).Serves chunkSize limit
      (done ++ pieces) := by
  induction pieces generalizing state done with
  | nil => simpa using h
  | cons piece pieces ih =>
      obtain ⟨hpiece, hpieces⟩ := List.forall_mem_cons.mp hpieces
      have hstep := ih (h.step hpiece) hpieces
      rwa [List.append_assoc, List.singleton_append] at hstep

end Coalescing

theorem coalesceReads_spec {pieces : List ByteRange} {limit : ℕ}
    (hpieces : ∀ piece ∈ pieces, piece.Within limit) :
    (∀ read ∈ coalesceReads pieces chunkSize, read.Fits chunkSize limit) ∧
      (coalesceReads pieces chunkSize).flatMap Read.pieces = pieces := by
  have hstart : (⟨[], 0, none⟩ : Coalescing).Serves chunkSize limit [] :=
    ⟨by simp [Coalescing.closed], rfl⟩
  have hfinal := hstart.run hpieces
  exact ⟨hfinal.fits, hfinal.pieces_eq⟩

/-- Chunks that are what they should be: not empty and not too long. -/
def GoodChunks (chunkSize : ℕ) (sent : List (List UInt8)) : Prop :=
  ∀ chunk ∈ sent, chunk ≠ [] ∧ chunk.length ≤ chunkSize

theorem readSource_eq {start stop : ℕ} (hstart : start ≤ stop)
    (hstop : stop ≤ source.length) :
    readSource source ⟨start, stop - start⟩ = .ok (stretch source start stop) := by
  have hlast : start + (stop - start) = stop := by omega
  unfold readSource
  rw [readRange_eq_stretch]
  unfold ByteRange.last
  rw [hlast, if_pos hstop]

theorem spanChunk_eq {current : OpenRead}
    (h : current.Fits chunkSize source.length) :
    spanChunk (stretch source current.start current.stop) current.start
        current.pieces = .ok (current.pieces.flatMap (readRange source)) := by
  have hpiece : ∀ piece ∈ current.pieces,
      spanBytes (stretch source current.start current.stop)
        (piece.offset - current.start)
        (piece.offset - current.start + piece.length) =
          .ok (readRange source piece) := fun piece hpiece =>
    spanBytes_readRange (h.covers piece hpiece).1 (h.covers piece hpiece).2
      h.stop_le
  have hjoin : joinPieces (stretch source current.start current.stop)
      current.start current.pieces =
        .ok (current.pieces.flatMap (readRange source)) := by
    unfold joinPieces
    rw [mapM_eq_ok hpiece, ok_bind, List.flatMap_def]
  unfold spanChunk
  split
  · rename_i piece hpieces
    rw [hpieces] at hjoin
    split
    · rename_i hoffset
      have hlast := (h.covers piece (hpieces ▸ List.mem_singleton_self _)).2
      rw [hpieces, List.flatMap_singleton, stretch_stretch, readRange_eq_stretch,
        ← hoffset, Nat.add_zero]
      congr 2
      unfold ByteRange.last at hlast ⊢
      omega
    · rw [hjoin, hpieces]
  · exact hjoin

/-- A read sends its pieces. -/
theorem sendRead_spec {read : Read} (hchunk : 0 < chunkSize)
    (h : read.Fits chunkSize source.length) :
    ∃ sent, sendRead source chunkSize read = .ok sent ∧
      sent.flatten = read.pieces.flatMap (readRange source) ∧
      GoodChunks chunkSize sent := by
  cases read with
  | split piece =>
      have hlast : piece.offset ≤ piece.last := Nat.le_add_right ..
      have hspans := (chunkSpans_spec hchunk hlast).2
      refine ⟨chunked chunkSize source piece.offset piece.last, ?_, ?_, ?_⟩
      · unfold sendRead chunked
        refine mapM_eq_ok fun span hspan => ?_
        have hbounds := hspans span hspan
        exact readSource_eq hbounds.2.1.le (hbounds.2.2.1.trans h.last_le)
      · rw [flatten_chunked hchunk hlast, Read.pieces, List.flatMap_singleton,
          readRange_eq_stretch]
      · exact fun chunk => mem_chunked hchunk hlast h.last_le
  | span start stop pieces =>
      have hopen : OpenRead.Fits ⟨start, stop, pieces⟩ chunkSize
        source.length := h
      have hcovers := hopen.covers
      have hinside : ∀ piece ∈ pieces, piece.last ≤ source.length :=
        fun piece hpiece => (hcovers piece hpiece).2.trans hopen.stop_le
      refine ⟨[pieces.flatMap (readRange source)], ?_, ?_, ?_⟩
      · have hspan : spanChunk (stretch source start stop) start pieces =
            .ok (pieces.flatMap (readRange source)) := spanChunk_eq hopen
        have hread : readSource source ⟨start, stop - start⟩ =
            .ok (stretch source start stop) :=
          readSource_eq hopen.start_le hopen.stop_le
        unfold sendRead
        dsimp only
        rw [hread, ok_bind, hspan, ok_bind]
      · rw [List.flatten_singleton]
        rfl
      · intro chunk hmem
        rw [List.mem_singleton] at hmem
        subst hmem
        have hsum := hopen.forward.sum_length_le hopen.start_le hcovers
        have hroom := hopen.room
        obtain ⟨piece, hpiece⟩ := List.exists_mem_of_ne_nil _ hopen.nonempty
        have hpos := hopen.length_pos piece hpiece
        have hle := List.le_sum_of_mem (List.mem_map_of_mem hpiece
          (f := ByteRange.length))
        rw [← List.length_pos_iff, length_flatMap_readRange hinside]
        dsimp only at hsum hroom hle
        omega

theorem streamReads_spec {pieces : List ByteRange} (hchunk : 0 < chunkSize)
    (hpieces : ∀ piece ∈ pieces, piece.Within source.length) :
    ∃ body, streamReads source chunkSize pieces = .ok body ∧
      body.flatten = pieces.flatMap (readRange source) ∧
      GoodChunks chunkSize body := by
  obtain ⟨hfits, hall⟩ := @coalesceReads_spec chunkSize _ _ hpieces
  unfold streamReads
  generalize coalesceReads pieces chunkSize = reads at hfits hall
  have hreads : ∃ sent, reads.mapM (sendRead source chunkSize) = .ok sent ∧
      sent.flatten.flatten = (reads.flatMap Read.pieces).flatMap
        (readRange source) ∧ GoodChunks chunkSize sent.flatten := by
    clear hall
    induction reads with
    | nil => exact ⟨[], rfl, rfl, by simp [GoodChunks]⟩
    | cons read reads ih =>
        obtain ⟨hread, hreads⟩ := List.forall_mem_cons.mp hfits
        obtain ⟨first, hfirst, hbytes, hgood⟩ := sendRead_spec hchunk hread
        obtain ⟨sent, hsent, hrest, hgoods⟩ := ih hreads
        refine ⟨first :: sent, ?_, ?_, ?_⟩
        · rw [List.mapM_cons, hfirst, ok_bind, hsent]
          rfl
        · rw [List.flatten_cons, List.flatten_append, hbytes, hrest,
            List.flatMap_cons, List.flatMap_append]
        · rw [List.flatten_cons]
          exact fun chunk hmem => (List.mem_append.mp hmem).elim
            (hgood chunk) (hgoods chunk)
  obtain ⟨sent, hsent, hbytes, hgood⟩ := hreads
  exact ⟨sent.flatten, by rw [hsent, ok_bind], by rw [hbytes, hall], hgood⟩

/-! ## Runs -/

/-- Items of the same run that come one after another in the file. -/
def RunsForward (items : List (ℕ × ByteRange)) : Prop :=
  items.Pairwise fun item next =>
    item.1 = next.1 → item.2.last ≤ next.2.offset

theorem tagRuns_spec {pieces : List ByteRange} (run previousEnd : ℕ) :
    (tagRuns run previousEnd pieces).map Prod.snd = pieces ∧
      (tagRuns run previousEnd pieces).Pairwise
        (fun item next => item.1 ≤ next.1) ∧
      RunsForward (tagRuns run previousEnd pieces) ∧
      ∀ item ∈ tagRuns run previousEnd pieces, run ≤ item.1 ∧
        (item.1 = run → previousEnd ≤ item.2.offset) := by
  induction pieces generalizing run previousEnd with
  | nil => simp [tagRuns, RunsForward]
  | cons piece pieces ih =>
      unfold tagRuns
      dsimp only
      have hlast : piece.offset ≤ piece.last := Nat.le_add_right ..
      generalize hnext : (if piece.offset < previousEnd then run + 1
        else run) = next
      obtain ⟨hmap, hsorted, hforward, hitems⟩ := ih next piece.last
      have hrun : run ≤ next ∧ (next = run → previousEnd ≤ piece.offset) := by
        split at hnext <;> omega
      refine ⟨by rw [List.map_cons, hmap],
        List.pairwise_cons.mpr ⟨fun item hitem => (hitems item hitem).1,
          hsorted⟩,
        List.pairwise_cons.mpr ⟨fun item hitem heq =>
          (hitems item hitem).2 heq.symm, hforward⟩,
        List.forall_mem_cons.mpr ⟨hrun, fun item hitem => ?_⟩⟩
      have := hitems item hitem
      omega

/-- The tagged pieces in file order: `sort_by_key` keeps the order of pieces
that start at the same byte. -/
theorem filter_insertionSort {items : List (ℕ × ByteRange)}
    (h : RunsForward items) (run : ℕ) :
    (items.insertionSort fun a b => a.2.offset ≤ b.2.offset).filter
        (fun item => item.1 = run) =
      items.filter fun item => item.1 = run := by
  have hsorted : (items.filter fun item => decide (item.1 = run)).Pairwise
      fun a b => a.2.offset ≤ b.2.offset := by
    have hfilter := h.filter fun item => decide (item.1 = run)
    refine List.Pairwise.imp_of_mem ?_ hfilter
    intro a b ha hb hab
    have ha' : a.1 = run := by simpa using (List.mem_filter.mp ha).2
    have hb' : b.1 = run := by simpa using (List.mem_filter.mp hb).2
    exact (Nat.le_add_right _ _).trans (hab (ha'.trans hb'.symm))
  have hsub := List.sublist_insertionSort hsorted List.filter_sublist
  have hfilter := hsub.filter fun item => decide (item.1 = run)
  rw [List.filter_filter] at hfilter
  simp only [Bool.and_self] at hfilter
  refine (hfilter.eq_of_length ?_).symm
  exact ((List.perm_insertionSort _ _).filter _).length_eq.symm

/-! ## Windows -/

/-- A window that covers its members, is inside the source and is no longer
than a chunk. -/
structure Window.Fits (window : Window) (chunkSize limit : ℕ) : Prop where
  start_le : window.start ≤ window.stop
  room : window.stop - window.start ≤ chunkSize
  stop_le : window.stop ≤ limit
  covers : ∀ item ∈ window.members,
    window.start ≤ item.2.offset ∧ item.2.last ≤ window.stop

namespace Windows

variable {state : Windows} {done : List (ℕ × ByteRange)}
  {item : ℕ × ByteRange} {limit : ℕ}

/-- The windows so far fit, hold the items so far in order, and start no later
than the last of them. -/
structure Holds (state : Windows) (chunkSize limit : ℕ)
    (done : List (ℕ × ByteRange)) : Prop where
  fits : ∀ window ∈ state.windows, window.Fits chunkSize limit
  members_eq : state.windows.flatMap Window.members = done
  start_le : ∀ window, state.windows.getLast? = some window →
    ∃ last ∈ done, window.start ≤ last.2.offset

theorem Holds.step (h : state.Holds chunkSize limit done)
    (hitem : item.2.Within limit) (hlength : item.2.length ≤ chunkSize)
    (hsorted : ∀ last ∈ done, last.2.offset ≤ item.2.offset) :
    (state.step chunkSize item).Holds chunkSize limit (done ++ [item]) := by
  have hlast : item.2.last = item.2.offset + item.2.length := rfl
  have hopened : Holds
      { state with
        windows := state.windows ++
          [⟨item.2.offset, item.2.last, [item]⟩] } chunkSize limit
      (done ++ [item]) := by
    refine ⟨?_, by simp [h.members_eq], fun window hwindow => ?_⟩
    · simp only [List.forall_mem_append, List.forall_mem_singleton]
      refine ⟨h.fits, ?_⟩
      exact
        { start_le := by dsimp only; omega
          room := by dsimp only; omega
          stop_le := hitem.last_le
          covers := by simp }
    · rw [List.getLast?_concat] at hwindow
      obtain rfl := Option.some.inj hwindow
      exact ⟨item, by simp, Nat.le_refl _⟩
  unfold Windows.step
  dsimp only
  split
  · rename_i window hwindow
    split
    · rename_i hfits
      unfold Windows.fits at hfits
      simp only [decide_eq_true_eq] at hfits
      have hwindows : state.windows = state.windows.dropLast ++ [window] :=
        (List.dropLast_append_getLast? window hwindow).symm
      have hold := h.fits window (List.mem_of_getLast? hwindow)
      obtain ⟨last, hmem, hle⟩ := h.start_le window hwindow
      have hoffset := hsorted last hmem
      have hstart := hold.start_le
      have hstop := hold.stop_le
      have hinside := hitem.last_le
      refine ⟨?_, ?_, fun other hother => ?_⟩
      · simp only [List.forall_mem_append, List.forall_mem_singleton]
        refine ⟨fun other hother =>
          h.fits other (List.dropLast_subset _ hother), ?_⟩
        refine
          { start_le := by dsimp only; omega
            room := by dsimp only; omega
            stop_le := by dsimp only; omega
            covers := ?_ }
        simp only [List.forall_mem_append, List.forall_mem_singleton]
        refine ⟨fun other hother => ?_, by omega, by omega⟩
        have := hold.covers other hother
        omega
      · have hmembers := h.members_eq
        rw [hwindows] at hmembers
        rw [← hmembers]
        simp
      · rw [List.getLast?_concat] at hother
        obtain rfl := Option.some.inj hother
        exact ⟨item, by simp, by dsimp only; omega⟩
    · exact hopened
  · exact hopened

theorem Holds.run {items : List (ℕ × ByteRange)}
    (h : state.Holds chunkSize limit done)
    (hitems : ∀ item ∈ items, item.2.Within limit ∧
      item.2.length ≤ chunkSize)
    (hsorted : (done ++ items).Pairwise fun a b => a.2.offset ≤ b.2.offset) :
    (items.foldl (Windows.step chunkSize) state).Holds chunkSize limit
      (done ++ items) := by
  induction items generalizing state done with
  | nil => simpa using h
  | cons item items ih =>
      obtain ⟨⟨hitem, hlength⟩, hitems⟩ := List.forall_mem_cons.mp hitems
      have hstep := h.step hitem hlength fun last hlast =>
        (List.pairwise_append.mp hsorted).2.2 last hlast item
          List.mem_cons_self
      rw [← List.singleton_append, ← List.append_assoc] at hsorted ⊢
      exact ih hstep hitems hsorted

end Windows

/-! ## Held back bytes -/

/-- The bytes of the items of one run, in order. -/
def runBytes (source : List UInt8) (items : List (ℕ × ByteRange)) (run : ℕ) :
    List UInt8 :=
  (items.filter fun item => item.1 = run).flatMap
    fun item => readRange source item.2

theorem runBytes_append (items others : List (ℕ × ByteRange)) (run : ℕ) :
    runBytes source (items ++ others) run =
      runBytes source items run ++ runBytes source others run := by
  unfold runBytes
  rw [List.filter_append, List.flatMap_append]

theorem runBytes_singleton (item : ℕ × ByteRange) (run : ℕ) :
    runBytes source [item] run =
      if item.1 = run then readRange source item.2 else [] := by
  unfold runBytes
  by_cases hrun : item.1 = run
  · simp [hrun]
  · simp [hrun]

theorem runBytes_eq_nil {items : List (ℕ × ByteRange)} {run : ℕ}
    (h : ∀ item ∈ items, item.1 ≠ run) : runBytes source items run = [] := by
  unfold runBytes
  rw [List.filter_eq_nil_iff.mpr (by simpa using h), List.flatMap_nil]

/-- What is held back of the items: the bytes of each run after the first. -/
structure HeldOf (source : List UInt8) (held : List (List UInt8))
    (items : List (ℕ × ByteRange)) : Prop where
  run_le : ∀ item ∈ items, item.1 ≤ held.length
  held_eq : held = (List.range held.length).map
    fun i => runBytes source items (i + 1)

theorem HeldOf.holdBack {held : List (List UInt8)}
    {items : List (ℕ × ByteRange)} {item : ℕ × ByteRange}
    (h : HeldOf source held items) (hrun : item.1 ≠ 0) :
    HeldOf source (holdBack held item.1 (readRange source item.2))
      (items ++ [item]) := by
  unfold Segmentor.holdBack
  have hlength : ((held ++ List.replicate (item.1 - held.length) []).modify
      (item.1 - 1) (· ++ readRange source item.2)).length =
        max held.length item.1 := by
    rw [List.length_modify, List.length_append, List.length_replicate]
    omega
  constructor
  · rw [hlength]
    simp only [List.forall_mem_append, List.forall_mem_singleton]
    refine ⟨fun other hother => ?_, by omega⟩
    have := h.run_le other hother
    omega
  · refine List.ext_getElem (by simp) fun i hi _ => ?_
    have hgrown : ∀ hi' : i < (held ++ List.replicate
        (item.1 - held.length) []).length,
        (held ++ List.replicate (item.1 - held.length) [])[i] =
          runBytes source items (i + 1) := by
      intro hi'
      by_cases hold : i < held.length
      · rw [List.getElem_append_left hold]
        have hget := List.getElem_of_eq h.held_eq hold
        rw [hget, List.getElem_map, List.getElem_range]
      · rw [List.getElem_append_right (by omega), List.getElem_replicate,
          runBytes_eq_nil]
        intro other hother
        have := h.run_le other hother
        omega
    rw [List.getElem_modify, List.getElem_map, List.getElem_range,
      runBytes_append, runBytes_singleton, hgrown]
    by_cases heq : item.1 = i + 1
    · rw [if_pos (by omega), if_pos heq]
    · rw [if_neg (by omega), if_neg heq, List.append_nil]

theorem HeldOf.flatten {held : List (List UInt8)}
    {items : List (ℕ × ByteRange)} (h : HeldOf source held items) :
    held.flatten = (List.range' 1 held.length).flatMap
      (runBytes source items) := by
  conv_lhs => rw [h.held_eq]
  rw [List.range'_eq_map_range, List.flatMap_def, List.map_map]
  congr 1
  refine List.map_congr_left fun i _ => ?_
  rw [Function.comp_apply, Nat.add_comm]

/-! ## Sending the windows -/

/-- A member goes to the bytes to send now, or to its run's. -/
theorem routeMember_spec {window : Window} {state : WindowBytes}
    {done : List (ℕ × ByteRange)} {member : ℕ × ByteRange}
    (hwindow : window.Fits chunkSize source.length)
    (hmember : member ∈ window.members)
    (hheld : HeldOf source state.held done) :
    ∃ next, routeMember (stretch source window.start window.stop) window.start
        state member = .ok next ∧
      next.ready = state.ready ++ runBytes source [member] 0 ∧
      HeldOf source next.held (done ++ [member]) := by
  obtain ⟨hstart, hlast⟩ := hwindow.covers member hmember
  unfold routeMember
  rw [spanBytes_readRange hstart hlast hwindow.stop_le, ok_bind,
    runBytes_singleton]
  refine ⟨_, rfl, ?_⟩
  by_cases hrun : member.1 = 0
  · rw [if_pos hrun, if_pos hrun]
    refine ⟨rfl, ?_, ?_⟩
    · simp only [List.forall_mem_append, List.forall_mem_singleton]
      exact ⟨hheld.run_le, by omega⟩
    · refine hheld.held_eq.trans (List.map_congr_left fun i _ => ?_)
      rw [runBytes_append, runBytes_singleton, if_neg (by omega),
        List.append_nil]
  · rw [if_neg hrun, if_neg hrun]
    exact ⟨(List.append_nil _).symm, hheld.holdBack hrun⟩

theorem routeMembers_spec {window : Window} {state : WindowBytes}
    {done members : List (ℕ × ByteRange)}
    (hwindow : window.Fits chunkSize source.length)
    (hmembers : ∀ member ∈ members, member ∈ window.members)
    (hheld : HeldOf source state.held done) :
    ∃ next, members.foldlM (routeMember
        (stretch source window.start window.stop) window.start) state =
          .ok next ∧
      next.ready = state.ready ++ runBytes source members 0 ∧
      HeldOf source next.held (done ++ members) := by
  induction members generalizing state done with
  | nil => exact ⟨state, rfl, by simp [runBytes], by simpa using hheld⟩
  | cons member members ih =>
      obtain ⟨hmember, hmembers⟩ := List.forall_mem_cons.mp hmembers
      obtain ⟨middle, hmiddle, hready, hheld⟩ :=
        routeMember_spec hwindow hmember hheld
      obtain ⟨next, hnext, hready', hheld'⟩ := ih hmembers hheld
      refine ⟨next, ?_, ?_, ?_⟩
      · rw [List.foldlM_cons, hmiddle, ok_bind, hnext]
      · rw [hready', hready, List.append_assoc, ← runBytes_append,
          List.singleton_append]
      · rwa [List.append_assoc, List.singleton_append] at hheld'

/-- What has been sent of the items: the bytes of the first run, in good
chunks. -/
structure SentOf (source : List UInt8) (chunkSize : ℕ) (state : Interleaved)
    (items : List (ℕ × ByteRange)) : Prop where
  sent_eq : state.sent.flatten = runBytes source items 0
  good : GoodChunks chunkSize state.sent
  held : HeldOf source state.held items

theorem sendWindow_spec {state : Interleaved} {window : Window}
    {done : List (ℕ × ByteRange)}
    (hwindow : window.Fits chunkSize source.length)
    (hforward : RunsForward window.members)
    (h : SentOf source chunkSize state done) :
    ∃ next, sendWindow source state window = .ok next ∧
      SentOf source chunkSize next (done ++ window.members) := by
  obtain ⟨bytes, hbytes, hready, hheld⟩ :=
    @routeMembers_spec _ _ _ ⟨[], state.held⟩ _ _ hwindow
      (fun member hmember => hmember) h.held
  have hlength : (runBytes source window.members 0).length ≤ chunkSize := by
    have hmem : ∀ piece ∈ (window.members.filter
        fun item => decide (item.1 = 0)).map Prod.snd,
        window.start ≤ piece.offset ∧ piece.last ≤ window.stop := by
      intro piece hpiece
      obtain ⟨item, hitem, rfl⟩ := List.mem_map.mp hpiece
      exact hwindow.covers item (List.mem_filter.mp hitem).1
    have hpieces : Forward ((window.members.filter
        fun item => decide (item.1 = 0)).map Prod.snd) := by
      unfold Forward
      rw [List.pairwise_map]
      refine List.Pairwise.imp_of_mem ?_
        (hforward.filter fun item => decide (item.1 = 0))
      intro a b ha hb hab
      have ha' : a.1 = 0 := by simpa using (List.mem_filter.mp ha).2
      have hb' : b.1 = 0 := by simpa using (List.mem_filter.mp hb).2
      exact hab (ha'.trans hb'.symm)
    have hsum := hpieces.sum_length_le hwindow.start_le hmem
    have hread := @length_flatMap_readRange source _ fun piece hpiece =>
      (hmem piece hpiece).2.trans hwindow.stop_le
    have hroom := hwindow.room
    rw [List.flatMap_map] at hread
    unfold runBytes
    omega
  rw [List.nil_append] at hready
  unfold sendWindow
  rw [readSource_eq hwindow.start_le hwindow.stop_le, ok_bind, hbytes, ok_bind]
  refine ⟨_, rfl, ?_, ?_, hheld⟩
  · rw [runBytes_append, ← h.sent_eq, List.flatten_append, hready]
    cases runBytes source window.members 0 with
    | nil => rfl
    | cons byte rest => simp
  · intro chunk hchunk
    rcases List.mem_append.mp hchunk with hmem | hmem
    · exact h.good chunk hmem
    · split at hmem
      · simp at hmem
      · rename_i hempty
        rw [List.mem_singleton] at hmem
        rw [List.isEmpty_iff] at hempty
        exact hmem ▸ ⟨hempty, hready ▸ hlength⟩

theorem sendWindows_spec {state : Interleaved} {windows : List Window}
    {done : List (ℕ × ByteRange)}
    (hwindows : ∀ window ∈ windows, window.Fits chunkSize source.length ∧
      RunsForward window.members)
    (h : SentOf source chunkSize state done) :
    ∃ next, windows.foldlM (sendWindow source) state = .ok next ∧
      SentOf source chunkSize next
        (done ++ windows.flatMap Window.members) := by
  induction windows generalizing state done with
  | nil => exact ⟨state, rfl, by simpa using h⟩
  | cons window windows ih =>
      obtain ⟨⟨hfits, hforward⟩, hwindows⟩ := List.forall_mem_cons.mp hwindows
      obtain ⟨middle, hmiddle, hsent⟩ := sendWindow_spec hfits hforward h
      obtain ⟨next, hnext, hsent'⟩ := ih hwindows hsent
      refine ⟨next, ?_, ?_⟩
      · rw [List.foldlM_cons, hmiddle, ok_bind, hnext]
      · rwa [List.append_assoc, ← List.flatMap_cons] at hsent'

/-! ## The interleaved plan -/

theorem runsForward_of_filter {items : List (ℕ × ByteRange)}
    (h : ∀ run, RunsForward (items.filter fun item => item.1 = run)) :
    RunsForward items := by
  induction items with
  | nil => exact .nil
  | cons item items ih =>
      refine List.pairwise_cons.mpr ⟨fun next hnext heq => ?_, ih fun run => ?_⟩
      · have hrun := h item.1
        rw [List.filter_cons_of_pos (by simp)] at hrun
        exact (List.pairwise_cons.mp hrun).1 next
          (List.mem_filter.mpr ⟨hnext, by simpa using heq.symm⟩) heq
      · exact (h run).sublist ((List.sublist_cons_self _ _).filter _)

theorem runBytes_insertionSort {items : List (ℕ × ByteRange)}
    (h : RunsForward items) (run : ℕ) :
    runBytes source
        (items.insertionSort fun a b => a.2.offset ≤ b.2.offset) run =
      runBytes source items run := by
  unfold runBytes
  rw [filter_insertionSort h]

/-- The runs, one after the other, are the pieces. -/
theorem flatMap_runBytes_tagRuns {pieces : List ByteRange} {n : ℕ}
    (hruns : ∀ item ∈ tagRuns 0 0 pieces, item.1 ≤ n) :
    (List.range' 0 (n + 1)).flatMap
        (runBytes source (tagRuns 0 0 pieces)) =
      pieces.flatMap (readRange source) := by
  obtain ⟨hmap, hsorted, -, -⟩ := @tagRuns_spec pieces 0 0
  have hgroups := flatMap_filter_eq (k := 0) (n := n + 1) hsorted
    fun item hitem => ⟨Nat.zero_le _, by have := hruns item hitem; omega⟩
  unfold runBytes
  rw [← List.flatMap_assoc, hgroups]
  conv_rhs => rw [← hmap]
  rw [List.flatMap_map]

/-- What the windows are, where they are used. -/
theorem interleavedWindows_spec {pieces : List ByteRange}
    {windows : List Window} {limit : ℕ}
    (hpieces : ∀ piece ∈ pieces, piece.Within limit)
    (h : interleavedWindows pieces chunkSize = some windows) :
    (∀ window ∈ windows, window.Fits chunkSize limit ∧
      RunsForward window.members) ∧
    windows.flatMap Window.members =
      (tagRuns 0 0 pieces).insertionSort
        fun a b => a.2.offset ≤ b.2.offset := by
  obtain ⟨hmap, -, hforward, -⟩ := @tagRuns_spec pieces 0 0
  unfold interleavedWindows at h
  dsimp only at h
  split at h
  · simp at h
  rename_i hruns
  split at h
  · simp at h
  split at h
  · obtain rfl := Option.some.inj h
    rw [not_or, List.any_eq_true] at hruns
    have hitems : ∀ item ∈ (tagRuns 0 0 pieces).insertionSort
        (fun a b => a.2.offset ≤ b.2.offset),
        item.2.Within limit ∧ item.2.length ≤ chunkSize := by
      intro item hitem
      have hmem : item.2 ∈ pieces := by
        rw [← hmap]
        exact List.mem_map_of_mem ((List.mem_insertionSort _).mp hitem)
      refine ⟨hpieces _ hmem, ?_⟩
      by_contra hlong
      exact hruns.2 ⟨item.2, hmem, by simpa using hlong⟩
    have hstart : (⟨[], 0⟩ : Windows).Holds chunkSize limit [] :=
      ⟨by simp, rfl, by simp⟩
    have hfinal := hstart.run hitems (List.pairwise_insertionSort _ _)
    rw [List.nil_append] at hfinal
    have hsorted : RunsForward ((tagRuns 0 0 pieces).insertionSort
        fun a b => a.2.offset ≤ b.2.offset) := by
      refine runsForward_of_filter fun run => ?_
      rw [filter_insertionSort hforward]
      exact hforward.filter _
    refine ⟨fun window hwindow => ⟨hfinal.fits window hwindow, ?_⟩,
      hfinal.members_eq⟩
    rw [← hfinal.members_eq] at hsorted
    exact hsorted.sublist (List.sublist_flatten_of_mem
      (List.mem_map_of_mem hwindow))
  · simp at h

theorem streamInterleaved_spec {pieces : List ByteRange}
    {windows : List Window} (hchunk : 0 < chunkSize)
    (hpieces : ∀ piece ∈ pieces, piece.Within source.length)
    (h : interleavedWindows pieces chunkSize = some windows) :
    ∃ sent, streamInterleaved source chunkSize windows = .ok sent ∧
      sent.flatten = pieces.flatMap (readRange source) ∧
      GoodChunks chunkSize sent := by
  obtain ⟨hwindows, hmembers⟩ := interleavedWindows_spec hpieces h
  obtain ⟨-, -, hforward, -⟩ := @tagRuns_spec pieces 0 0
  have hstart : SentOf source chunkSize ⟨[], []⟩ [] :=
    ⟨rfl, by simp [GoodChunks], by simp, rfl⟩
  obtain ⟨final, hfinal, hsent⟩ := sendWindows_spec hwindows hstart
  rw [List.nil_append, hmembers] at hsent
  have hmax : max chunkSize 1 = chunkSize := by omega
  unfold streamInterleaved
  rw [hfinal, ok_bind, hmax]
  refine ⟨_, rfl, ?_, ?_⟩
  · have hflatten : (final.held.flatMap fun bytes =>
        chunked chunkSize bytes 0 bytes.length).flatten =
          final.held.flatten := by
      simp only [← List.flatMap_id, List.flatMap_assoc]
      refine List.flatMap_congr fun bytes _ => ?_
      rw [List.flatMap_id, flatten_chunked hchunk (Nat.zero_le _), stretch_length]
      rfl
    rw [List.flatten_append, hflatten, hsent.sent_eq, hsent.held.flatten]
    rw [← flatMap_runBytes_tagRuns (n := final.held.length) fun item hitem =>
      hsent.held.run_le item ((List.mem_insertionSort _).mpr hitem)]
    rw [List.range'_succ, List.flatMap_cons, Nat.zero_add]
    congr 1
    · exact runBytes_insertionSort hforward 0
    · exact List.flatMap_congr fun run _ => runBytes_insertionSort hforward run
  · intro chunk hmem
    rcases List.mem_append.mp hmem with hmem | hmem
    · exact hsent.good chunk hmem
    · obtain ⟨bytes, -, hmem⟩ := List.mem_flatMap.mp hmem
      exact mem_chunked hchunk (Nat.zero_le _) (Nat.le_refl _) hmem

/-! ## The whole response -/

theorem StreamJob.headerChunks_spec (job : StreamJob)
    (hchunk : 0 < job.chunkSize) :
    job.headerChunks.flatten =
        stretch job.prepared.header job.interval.start job.interval.stop ∧
      GoodChunks job.chunkSize job.headerChunks := by
  have hmax : max job.chunkSize 1 = job.chunkSize := by omega
  unfold StreamJob.headerChunks ByteInterval.overlap
  dsimp only
  rw [hmax]
  split
  · rename_i overlap hoverlap
    split at hoverlap
    · rename_i hlt
      obtain rfl := Option.some.inj hoverlap
      dsimp only at hlt ⊢
      refine ⟨?_, fun chunk => mem_chunked hchunk hlt.le (by omega)⟩
      rw [flatten_chunked hchunk hlt.le, Nat.max_zero, stretch_min_length]
    · simp at hoverlap
  · rename_i hoverlap
    split at hoverlap
    · simp at hoverlap
    · rename_i hge
      refine ⟨?_, by simp [GoodChunks]⟩
      rw [← stretch_min_length, stretch_eq_nil (by omega), List.flatten_nil]

/-- The chunks sent are the requested bytes of the header and the ranges, in
order; none is empty and none is longer than a chunk. -/
theorem stream_sends_requested_bytes {job : StreamJob}
    (hchunk : 0 < job.chunkSize)
    (hinside : ∀ range ∈ job.prepared.ranges, range.last ≤ source.length) :
    ∃ sent, job.stream source = .ok sent ∧
      sent.flatten = stretch (job.prepared.served source) job.interval.start
        job.interval.stop ∧
      GoodChunks job.chunkSize sent := by
  obtain ⟨hpieces, hbytes⟩ := @requestedPieces_spec _ job.interval
    job.prepared.header.length _ hinside
  obtain ⟨hheader, hheaderGood⟩ := job.headerChunks_spec hchunk
  have hbody : ∃ body, streamPieces source job.chunkSize
      (requestedPieces job.interval job.prepared.header.length
        job.prepared.ranges) = .ok body ∧
      body.flatten = (requestedPieces job.interval job.prepared.header.length
        job.prepared.ranges).flatMap (readRange source) ∧
      GoodChunks job.chunkSize body := by
    unfold streamPieces
    split
    · rename_i windows hwindows
      exact streamInterleaved_spec hchunk hpieces hwindows
    · exact streamReads_spec hchunk hpieces
  obtain ⟨body, hbody, hbodyBytes, hbodyGood⟩ := hbody
  unfold StreamJob.stream
  rw [hbody, ok_bind]
  refine ⟨_, rfl, ?_, ?_⟩
  · unfold PreparedSegment.served
    rw [List.flatten_append, hheader, hbodyBytes, hbytes, stretch_append]
  · exact fun chunk hmem => (List.mem_append.mp hmem).elim
      (hheaderGood chunk) (hbodyGood chunk)

/-- Video and audio samples of a file in turn, and a response that lists the
video first. -/
def interleavedJob : StreamJob where
  prepared :=
    { header := [1, 2, 3]
      ranges := [⟨0, 4⟩, ⟨6, 4⟩, ⟨4, 2⟩, ⟨10, 2⟩]
      contentLength := 15 }
  interval := { start := 1, stop := 14 }
  chunkSize := 12

theorem stream_sends_requested_bytes_interleaved :
    ∃ sent, interleavedJob.stream (List.replicate 12 7) = .ok sent ∧
      sent.flatten = [2, 3] ++ List.replicate 11 7 ∧ GoodChunks 12 sent := by
  obtain ⟨sent, hsent, hbytes, hgood⟩ := @stream_sends_requested_bytes
    (List.replicate 12 7) interleavedJob (by decide) (by decide)
  exact ⟨sent, hsent, hbytes.trans (by decide), hgood⟩

end Segmentor
