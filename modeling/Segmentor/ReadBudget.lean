import Segmentor.StreamBytes

/-!
# The read budget

What the reads of a response take from the source beyond the pieces they
serve.  Both planners fill gaps out of one budget, and nothing else is read
twice or for nothing.
-/

namespace Segmentor

open General

def totalBytes (ranges : List ByteRange) : ℕ :=
  (ranges.map ByteRange.length).sum

/-- A window as a read of the pieces in it. -/
def Window.read (window : Window) : Read :=
  .span window.start window.stop (window.members.map Prod.snd)

/-- The reads planned for the pieces of a response. -/
def plannedReads (pieces : List ByteRange) (chunkSize : ℕ) : List Read :=
  match interleavedWindows pieces chunkSize with
  | some windows => windows.map Window.read
  | none => coalesceReads pieces chunkSize

namespace Read

def start : Read → ℕ
  | .split piece => piece.offset
  | .span start _ _ => start

def stop : Read → ℕ
  | .split piece => piece.last
  | .span _ stop _ => stop

/-- The ranges a read takes from the source. -/
def sourceRanges (chunkSize : ℕ) : Read → List ByteRange
  | .split piece =>
      (chunkSpans chunkSize piece.offset piece.last).map fun span =>
        ⟨span.1, span.2 - span.1⟩
  | .span start stop _ => [⟨start, stop - start⟩]

/-- A read takes the bytes from its start to its end once each, no more than a
chunk at a time, and they cover its pieces. -/
structure Serves (read : Read) (chunkSize : ℕ) : Prop where
  start_le : read.start ≤ read.stop
  tiles : Tiles read.start
    ((read.sourceRanges chunkSize).map fun range => (range.offset, range.last))
    read.stop
  room : ∀ range ∈ read.sourceRanges chunkSize, range.length ≤ chunkSize
  covers : ∀ piece ∈ read.pieces,
    read.start ≤ piece.offset ∧ piece.last ≤ read.stop

end Read

theorem totalBytes_append (ranges others : List ByteRange) :
    totalBytes (ranges ++ others) = totalBytes ranges + totalBytes others := by
  unfold totalBytes
  rw [List.map_append, List.sum_append]

@[simp] theorem totalBytes_singleton (range : ByteRange) :
    totalBytes [range] = range.length := by
  simp [totalBytes]

theorem totalBytes_perm {ranges others : List ByteRange}
    (h : ranges.Perm others) : totalBytes ranges = totalBytes others :=
  (h.map ByteRange.length).sum_eq

namespace Read

variable {chunkSize : ℕ} {read : Read}

theorem Serves.totalBytes_eq (h : read.Serves chunkSize) :
    totalBytes (read.sourceRanges chunkSize) = read.stop - read.start := by
  have hsum := h.tiles.sum_eq
  rw [List.map_map] at hsum
  have hlengths : ((fun span : ℕ × ℕ => span.2 - span.1) ∘
      fun range : ByteRange => (range.offset, range.last)) =
        ByteRange.length := by
    funext range
    exact Nat.add_sub_cancel_left ..
  rw [hlengths] at hsum
  unfold totalBytes
  omega

theorem length_eq (read : Read) : read.length = read.stop - read.start := by
  cases read with
  | split piece => exact (Nat.add_sub_cancel_left ..).symm
  | span start stop pieces => rfl

theorem serves_split (piece : ByteRange) (hchunk : 0 < chunkSize) :
    (Read.split piece).Serves chunkSize := by
  have hle : piece.offset ≤ piece.last := Nat.le_add_right ..
  obtain ⟨htiles, hspans⟩ := chunkSpans_spec hchunk hle
  have hranges : ((Read.split piece).sourceRanges chunkSize).map
      (fun range => (range.offset, range.last)) =
        chunkSpans chunkSize piece.offset piece.last := by
    unfold sourceRanges
    rw [List.map_map]
    conv_rhs => rw [← List.map_id (chunkSpans chunkSize _ _)]
    apply List.map_congr_left
    intro span hspan
    have hbounds := hspans span hspan
    unfold ByteRange.last
    apply Prod.ext
    · rfl
    · dsimp only [Function.comp_apply, id]
      omega
  constructor
  · exact hle
  · rw [hranges]
    exact htiles
  · intro range hrange
    obtain ⟨span, hspan, rfl⟩ := List.mem_map.mp hrange
    exact (hspans span hspan).2.2.2
  · intro other hother
    obtain rfl := List.mem_singleton.mp hother
    exact ⟨Nat.le_refl _, Nat.le_refl _⟩

theorem serves_span {start stop : ℕ} {pieces : List ByteRange}
    (hle : start ≤ stop) (hroom : stop - start ≤ chunkSize)
    (hcovers : ∀ piece ∈ pieces, start ≤ piece.offset ∧ piece.last ≤ stop) :
    (Read.span start stop pieces).Serves chunkSize := by
  constructor
  · exact hle
  · unfold sourceRanges ByteRange.last
    refine tiles_cons.mpr ⟨rfl, Nat.le_add_right .., ?_⟩
    exact Nat.add_sub_cancel' hle
  · intro range hrange
    obtain rfl := List.mem_singleton.mp hrange
    exact hroom
  · exact hcovers

end Read

/-! ## Reads in turn -/

namespace Coalescing

variable {chunkSize : ℕ} {state : Coalescing} {done : List ByteRange}
  {piece : ByteRange}

/-- The reads so far take the pieces so far and the gaps spent on. -/
structure Spends (state : Coalescing) (chunkSize : ℕ)
    (done : List ByteRange) : Prop where
  serves : ∀ read ∈ state.closed, read.Serves chunkSize
  pieces_eq : state.closed.flatMap Read.pieces = done
  total : (state.closed.map Read.length).sum =
    totalBytes done + state.gapSpent
  budget : state.gapSpent ≤ GAP_BUDGET_BYTES

theorem closed_fresh (chunkSize : ℕ) (state : Coalescing)
    (piece : ByteRange) :
    ∃ read : Read, (state.fresh chunkSize piece).closed =
        state.closed ++ [read] ∧ read.pieces = [piece] ∧
      read.length = piece.length ∧
      (0 < chunkSize → read.Serves chunkSize) := by
  unfold fresh
  split
  · refine ⟨.split piece, ?_, rfl, rfl, Read.serves_split piece⟩
    simp [closed]
  · rename_i hlength
    have hlast : piece.last = piece.offset + piece.length := rfl
    refine ⟨.span piece.offset piece.last [piece], ?_, rfl, ?_, fun _ => ?_⟩
    · simp [closed, OpenRead.close]
    · exact Nat.add_sub_cancel_left ..
    · apply Read.serves_span
      · omega
      · omega
      · simp

theorem Spends.fresh (h : state.Spends chunkSize done)
    (hchunk : 0 < chunkSize) :
    (state.fresh chunkSize piece).Spends chunkSize (done ++ [piece]) := by
  obtain ⟨read, hclosed, hpieces, hlength, hserves⟩ :=
    closed_fresh chunkSize state piece
  have hspent : (state.fresh chunkSize piece).gapSpent = state.gapSpent := by
    unfold Coalescing.fresh
    split <;> rfl
  have htotal := h.total
  constructor
  · rw [hclosed, List.forall_mem_append, List.forall_mem_singleton]
    exact ⟨h.serves, hserves hchunk⟩
  · rw [hclosed, List.flatMap_append, h.pieces_eq, List.flatMap_singleton,
      hpieces]
  · rw [hclosed, hspent, totalBytes_append, totalBytes_singleton,
      List.map_append, List.sum_append, List.map_singleton,
      List.sum_singleton, hlength]
    omega
  · rw [hspent]
    exact h.budget

/-- A piece that joins a read adds its bytes and those of the gap. -/
theorem Spends.step (h : state.Spends chunkSize done)
    (hchunk : 0 < chunkSize) (piece : ByteRange) :
    (state.step chunkSize piece).Spends chunkSize (done ++ [piece]) := by
  unfold Coalescing.step
  cases hcurrent : state.current with
  | none => exact h.fresh hchunk
  | some current =>
      dsimp only
      split
      · rename_i hfits
        obtain ⟨gap, hgap, hfits⟩ := (Option.any_eq_true _ _).mp hfits
        rw [hgap, Option.getD_some]
        obtain ⟨hle, rfl⟩ := checkedSub_eq_some_iff.mp hgap
        unfold Coalescing.fits at hfits
        obtain ⟨-, hbudget, hroom⟩ := of_decide_eq_true hfits
        have hlast : piece.last = piece.offset + piece.length := rfl
        have hclosed : state.closed = state.reads ++ [current.close] := by
          simp [closed, hcurrent]
        obtain ⟨hserves, hpieces, htotal, -⟩ := h
        rw [hclosed] at hserves hpieces htotal
        obtain ⟨hreads, hopen⟩ := List.forall_mem_append.mp hserves
        rw [List.forall_mem_singleton] at hopen
        have hstart : current.start ≤ current.stop := hopen.start_le
        constructor
        · refine List.forall_mem_append.mpr ⟨hreads, ?_⟩
          rw [Option.toList_some, List.map_singleton,
            List.forall_mem_singleton]
          apply Read.serves_span
          · dsimp only
            omega
          · exact hroom
          · dsimp only
            rw [List.forall_mem_append, List.forall_mem_singleton]
            refine ⟨fun other hother => ?_, by omega, Nat.le_refl _⟩
            have hcovers := hopen.covers other hother
            dsimp only [OpenRead.close, Read.start, Read.stop] at hcovers
            omega
        · rw [← hpieces]
          simp [closed, OpenRead.close, Read.pieces]
        · rw [totalBytes_append, totalBytes_singleton]
          simp only [List.map_append, List.sum_append, List.map_singleton,
            List.sum_singleton, closed, OpenRead.close, Read.length,
            Option.toList_some] at htotal ⊢
          omega
        · exact hbudget
      · exact h.fresh hchunk

theorem Spends.run {pieces : List ByteRange}
    (h : state.Spends chunkSize done) (hchunk : 0 < chunkSize) :
    (pieces.foldl (Coalescing.step chunkSize) state).Spends chunkSize
      (done ++ pieces) := by
  induction pieces generalizing state done with
  | nil => simpa using h
  | cons piece pieces ih =>
      have hstep := ih (h.step hchunk piece)
      rwa [List.append_assoc, List.singleton_append] at hstep

end Coalescing

theorem coalesceReads_spends (pieces : List ByteRange) {chunkSize : ℕ}
    (hchunk : 0 < chunkSize) :
    ∃ state : Coalescing, state.closed = coalesceReads pieces chunkSize ∧
      state.Spends chunkSize pieces := by
  have hstart : (⟨[], 0, none⟩ : Coalescing).Spends chunkSize [] := by
    constructor
    · simp [Coalescing.closed]
    · rfl
    · rfl
    · exact Nat.zero_le _
  exact ⟨_, rfl, hstart.run hchunk⟩

/-! ## Windows -/

namespace Windows

variable {chunkSize : ℕ} {state : Windows} {done : List (ℕ × ByteRange)}
  {item : ℕ × ByteRange}

/-- The windows so far take no more than the pieces so far and the gaps spent
on, and the last of them starts no later than the last piece. -/
structure Spends (state : Windows) (chunkSize : ℕ)
    (done : List (ℕ × ByteRange)) : Prop where
  serves : ∀ window ∈ state.windows, window.read.Serves chunkSize
  members_eq : state.windows.flatMap Window.members = done
  starts : ∀ window, state.windows.getLast? = some window →
    ∃ last ∈ done, window.start ≤ last.2.offset
  total : (state.windows.map fun window => window.stop - window.start).sum ≤
    totalBytes (done.map Prod.snd) + state.gapSpent
  budget : state.gapSpent ≤ GAP_BUDGET_BYTES

theorem Spends.opened (h : state.Spends chunkSize done)
    (hlength : item.2.length ≤ chunkSize) :
    Spends
      { state with
        windows := state.windows ++
          [⟨item.2.offset, item.2.last, [item]⟩] } chunkSize
      (done ++ [item]) := by
  have hlast : item.2.last = item.2.offset + item.2.length := rfl
  have htotal := h.total
  constructor
  · rw [List.forall_mem_append, List.forall_mem_singleton]
    refine ⟨h.serves, ?_⟩
    apply Read.serves_span
    · dsimp only
      omega
    · dsimp only
      omega
    · simp
  · simp [h.members_eq]
  · intro window hwindow
    rw [List.getLast?_concat] at hwindow
    obtain rfl := Option.some.inj hwindow
    exact ⟨item, by simp, Nat.le_refl _⟩
  · rw [List.map_append, List.sum_append, List.map_append,
      totalBytes_append, List.map_singleton, List.map_singleton,
      List.sum_singleton, totalBytes_singleton]
    dsimp only
    omega
  · exact h.budget

/-- A piece that joins a window adds at most its bytes and those of the gap;
where it overlaps the window there is no gap. -/
theorem Spends.joined {window : Window} (h : state.Spends chunkSize done)
    (hwindow : state.windows.getLast? = some window)
    (hfits : state.fits chunkSize window item.2 = true)
    (hsorted : ∀ last ∈ done, last.2.offset ≤ item.2.offset) :
    Spends
      { windows := state.windows.dropLast ++
          [{ window with
             stop := max window.stop item.2.last
             members := window.members ++ [item] }]
        gapSpent := state.gapSpent + (item.2.offset - window.stop) } chunkSize
      (done ++ [item]) := by
  have hlast : item.2.last = item.2.offset + item.2.length := rfl
  unfold Windows.fits at hfits
  obtain ⟨-, hbudget, hroom⟩ := of_decide_eq_true hfits
  have hwindows : state.windows = state.windows.dropLast ++ [window] :=
    (List.dropLast_append_getLast? window hwindow).symm
  obtain ⟨last, hmem, hle⟩ := h.starts window hwindow
  have hoffset := hsorted last hmem
  have hold := h.serves window (List.mem_of_getLast? hwindow)
  have hstart : window.start ≤ window.stop := hold.start_le
  have hmembers := h.members_eq
  have htotal := h.total
  rw [hwindows] at hmembers htotal
  constructor
  · rw [List.forall_mem_append, List.forall_mem_singleton]
    refine ⟨fun other hother =>
      h.serves other (List.dropLast_subset _ hother), ?_⟩
    apply Read.serves_span
    · dsimp only
      omega
    · dsimp only
      omega
    · dsimp only
      rw [List.map_append, List.map_singleton, List.forall_mem_append,
        List.forall_mem_singleton]
      refine ⟨fun other hother => ?_, by omega, by omega⟩
      have hcovers := hold.covers other hother
      dsimp only [Window.read, Read.start, Read.stop] at hcovers
      omega
  · rw [← hmembers]
    simp
  · intro other hother
    rw [List.getLast?_concat] at hother
    obtain rfl := Option.some.inj hother
    exact ⟨item, by simp, by dsimp only; omega⟩
  · simp only [List.map_append, List.sum_append, List.map_singleton,
      List.sum_singleton, totalBytes_append, totalBytes_singleton]
      at htotal ⊢
    omega
  · exact hbudget

theorem Spends.step (h : state.Spends chunkSize done)
    (hlength : item.2.length ≤ chunkSize)
    (hsorted : ∀ last ∈ done, last.2.offset ≤ item.2.offset) :
    (state.step chunkSize item).Spends chunkSize (done ++ [item]) := by
  unfold Windows.step
  dsimp only
  split
  · rename_i window hwindow
    split
    · rename_i hfits
      exact h.joined hwindow hfits hsorted
    · exact h.opened hlength
  · exact h.opened hlength

theorem Spends.run {items : List (ℕ × ByteRange)}
    (h : state.Spends chunkSize done)
    (hlength : ∀ item ∈ items, item.2.length ≤ chunkSize)
    (hsorted : (done ++ items).Pairwise fun a b => a.2.offset ≤ b.2.offset) :
    (items.foldl (Windows.step chunkSize) state).Spends chunkSize
      (done ++ items) := by
  induction items generalizing state done with
  | nil => simpa using h
  | cons item items ih =>
      obtain ⟨hitem, hlength⟩ := List.forall_mem_cons.mp hlength
      have hstep := h.step hitem fun last hlast =>
        (List.pairwise_append.mp hsorted).2.2 last hlast item
          List.mem_cons_self
      rw [← List.singleton_append, ← List.append_assoc] at hsorted ⊢
      exact ih hstep hlength hsorted

end Windows

theorem map_snd_sorted_perm (pieces : List ByteRange) :
    (((tagRuns 0 0 pieces).insertionSort
      fun a b => a.2.offset ≤ b.2.offset).map Prod.snd).Perm pieces := by
  have hperm := (List.perm_insertionSort
    (fun a b : ℕ × ByteRange => a.2.offset ≤ b.2.offset)
    (tagRuns 0 0 pieces)).map Prod.snd
  rwa [(@tagRuns_spec pieces 0 0).1] at hperm

/-- The windows that are used, and what the reads in turn would take. -/
theorem interleavedWindows_spends {pieces : List ByteRange} {chunkSize : ℕ}
    {windows : List Window}
    (h : interleavedWindows pieces chunkSize = some windows) :
    ∃ state : Windows, state.windows = windows ∧
      state.Spends chunkSize ((tagRuns 0 0 pieces).insertionSort
        fun a b => a.2.offset ≤ b.2.offset) ∧
      (windows.map fun window => window.stop - window.start).sum <
        ((coalesceReads pieces chunkSize).map Read.length).sum := by
  have hmap := (@tagRuns_spec pieces 0 0).1
  unfold interleavedWindows at h
  dsimp only at h
  split at h
  · cases h
  rename_i hruns
  split at h
  · cases h
  split at h
  · rename_i hfewer
    obtain rfl := Option.some.inj h
    rw [not_or, List.any_eq_true] at hruns
    have hlength : ∀ item ∈ (tagRuns 0 0 pieces).insertionSort
        (fun a b => a.2.offset ≤ b.2.offset), item.2.length ≤ chunkSize := by
      intro item hitem
      have hmem : item.2 ∈ pieces := by
        rw [← hmap]
        exact List.mem_map_of_mem ((List.mem_insertionSort _).mp hitem)
      by_contra hlong
      exact hruns.2 ⟨item.2, hmem, by simpa using hlong⟩
    have hstart : (⟨[], 0⟩ : Windows).Spends chunkSize [] := by
      constructor
      · simp
      · rfl
      · simp
      · exact Nat.le_refl _
      · exact Nat.zero_le _
    exact ⟨_, rfl, hstart.run hlength (List.pairwise_insertionSort _ _),
      hfewer⟩
  · cases h

/-! ## The plan -/

theorem totalBytes_sourceRanges {reads : List Read} {chunkSize : ℕ}
    (h : ∀ read ∈ reads, read.Serves chunkSize) :
    totalBytes (reads.flatMap (Read.sourceRanges chunkSize)) =
      (reads.map Read.length).sum := by
  induction reads with
  | nil => rfl
  | cons read reads ih =>
      obtain ⟨hread, hreads⟩ := List.forall_mem_cons.mp h
      rw [List.flatMap_cons, totalBytes_append, ih hreads, List.map_cons,
        List.sum_cons, hread.totalBytes_eq, Read.length_eq]

/-- The reads of a response take at most the gap budget beyond its pieces, a
chunk at a time; one read serves each piece, and windows are used only where
they read less. -/
theorem reads_stay_within_budget (pieces : List ByteRange) {chunkSize : ℕ}
    (hchunk : 1 ≤ chunkSize) :
    totalBytes ((plannedReads pieces chunkSize).flatMap
        (Read.sourceRanges chunkSize)) ≤
      totalBytes pieces + 256 * 1024 ∧
    (∀ read ∈ plannedReads pieces chunkSize, read.Serves chunkSize) ∧
    ((plannedReads pieces chunkSize).flatMap Read.pieces).Perm pieces ∧
    ∀ windows, interleavedWindows pieces chunkSize = some windows →
      totalBytes ((windows.map Window.read).flatMap
          (Read.sourceRanges chunkSize)) <
        totalBytes ((coalesceReads pieces chunkSize).flatMap
          (Read.sourceRanges chunkSize)) := by
  obtain ⟨coalescing, hclosed, hreads⟩ := coalesceReads_spends pieces hchunk
  have hserves := hreads.serves
  rw [hclosed] at hserves
  have hseparate := totalBytes_sourceRanges hserves
  have hwindowReads : ∀ windows,
      interleavedWindows pieces chunkSize = some windows →
      (∀ read ∈ windows.map Window.read, read.Serves chunkSize) ∧
        totalBytes ((windows.map Window.read).flatMap
            (Read.sourceRanges chunkSize)) =
          (windows.map fun window => window.stop - window.start).sum := by
    intro windows hwindows
    obtain ⟨state, rfl, hspends, -⟩ := interleavedWindows_spends hwindows
    have hread : ∀ read ∈ state.windows.map Window.read,
        read.Serves chunkSize := List.forall_mem_map.mpr hspends.serves
    refine ⟨hread, ?_⟩
    rw [totalBytes_sourceRanges hread, List.map_map]
    rfl
  refine ⟨?_, ?_, ?_, fun windows hwindows => ?_⟩
  · unfold plannedReads
    cases hwindows : interleavedWindows pieces chunkSize with
    | some windows =>
        obtain ⟨state, rfl, hspends, -⟩ := interleavedWindows_spends hwindows
        have htotal := hspends.total
        have hbudget := hspends.budget
        rw [totalBytes_perm (map_snd_sorted_perm pieces)] at htotal
        dsimp only
        rw [(hwindowReads _ hwindows).2]
        unfold GAP_BUDGET_BYTES at hbudget
        omega
    | none =>
        have htotal := hreads.total
        have hbudget := hreads.budget
        rw [hclosed] at htotal
        dsimp only
        unfold GAP_BUDGET_BYTES at hbudget
        omega
  · unfold plannedReads
    cases hwindows : interleavedWindows pieces chunkSize with
    | some windows => exact (hwindowReads windows hwindows).1
    | none => exact hserves
  · unfold plannedReads
    cases hwindows : interleavedWindows pieces chunkSize with
    | some windows =>
        obtain ⟨state, rfl, hspends, -⟩ := interleavedWindows_spends hwindows
        have hmembers : (state.windows.map Window.read).flatMap Read.pieces =
            (state.windows.flatMap Window.members).map Prod.snd := by
          rw [List.flatMap_map, List.map_flatMap]
          rfl
        dsimp only
        rw [hmembers, hspends.members_eq]
        exact map_snd_sorted_perm pieces
    | none =>
        have hpieces := hreads.pieces_eq
        rw [hclosed] at hpieces
        dsimp only
        rw [hpieces]
  · obtain ⟨-, -, -, hfewer⟩ := interleavedWindows_spends hwindows
    rw [(hwindowReads windows hwindows).2, hseparate]
    exact hfewer

theorem reads_stay_within_budget_interleaved :
    (plannedReads [⟨0, 10⟩, ⟨20, 10⟩, ⟨10, 10⟩, ⟨30, 10⟩] 64).length = 1 ∧
      totalBytes ((plannedReads [⟨0, 10⟩, ⟨20, 10⟩, ⟨10, 10⟩, ⟨30, 10⟩]
        64).flatMap (Read.sourceRanges 64)) ≤
      totalBytes [⟨0, 10⟩, ⟨20, 10⟩, ⟨10, 10⟩, ⟨30, 10⟩] + 256 * 1024 :=
  ⟨by decide, (reads_stay_within_budget _ (by decide)).1⟩

end Segmentor
