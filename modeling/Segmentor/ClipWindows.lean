import Segmentor.FollowedAudio

/-!
# A clip is the window that was asked for

A video reference is cut by when its frames are shown: from the last keyframe
shown by the start of the window through the shortest run that holds every
later frame shown before its end.  An audio reference is cut by decode times.
Whatever is kept is moved as a whole, late enough that no frame is shown before
the clip starts.
-/

namespace Segmentor.Clip

open General

/-! ## What is kept of a reference -/

/-- When a frame is shown. -/
def shownAt (track : Track) (i : ℕ) : ℤ :=
  presented (track.samples.get i)

/-- The keyframe a window opens with: the last one shown by `time`, or the
first one where none is.  A track without any opens with its first frame. -/
structure OpensAt (track : Track) (time i : ℕ) : Prop where
  lt_len : i < track.samples.len
  sync : (track.samples.get i).isSync = true ∨
    i = 0 ∧ ∀ j < track.samples.len, (track.samples.get j).isSync = false
  last : ∀ j < track.samples.len, (track.samples.get j).isSync = true →
    shownAt track j ≤ time → j ≤ i
  started : shownAt track i ≤ time ∨
    ∀ j < track.samples.len, (track.samples.get j).isSync = true → i ≤ j

/-- The last frame of the shortest run from `first` on that holds every later
frame shown before `stop`. -/
structure LastShownBefore (track : Track) (first : ℕ) (stop : Option ℕ)
    (i : ℕ) : Prop where
  lt_len : i < track.samples.len
  first_le : first ≤ i
  last : ∀ j < track.samples.len,
    (∀ time ∈ stop, shownAt track j < time) → j ≤ i
  shown : (∀ time ∈ stop, shownAt track i < time) ∨ i = first

/-- The frames `first` to `last` are what the window from `start` to `stop`
asks for. -/
def WindowOf (track : Track) (start : ℕ) (stop : Option ℕ) (first last : ℕ) :
    Prop :=
  match track.kind with
  | .video => OpensAt track start first ∧ LastShownBefore track first stop last
  | .audio => PlaysAt track start first ∧ LastBefore track first stop last

theorem le_of_getLast?_eq_some {α : Type} {f : α → ℕ} {l : List α} {a b : α}
    (hsorted : l.Pairwise fun a b => f a < f b) (hlast : l.getLast? = some a)
    (hb : b ∈ l) : f b ≤ f a := by
  obtain ⟨front, rfl⟩ := List.getLast?_eq_some_iff.mp hlast
  rcases List.mem_append.mp hb with hmem | hmem
  · have hlt := (List.pairwise_append.mp hsorted).2.2 b hmem a
      (List.mem_singleton_self a)
    exact hlt.le
  · rw [List.mem_singleton.mp hmem]

theorem le_of_head?_eq_some {l : List ℕ} {a b : ℕ}
    (hsorted : l.Pairwise (· < ·)) (hhead : l.head? = some a) (hb : b ∈ l) :
    a ≤ b := by
  obtain ⟨rest, rfl⟩ := List.head?_eq_some_iff.mp hhead
  rcases List.mem_cons.mp hb with rfl | hmem
  · exact Nat.le_refl _
  · exact ((List.pairwise_cons.mp hsorted).1 b hmem).le

theorem mem_syncIndices_iff (track : Track) {i : ℕ} :
    i ∈ track.samples.syncIndices ↔
      i < track.samples.len ∧ (track.samples.get i).isSync = true :=
  SampleIndex.mem_syncIndices track.samples_valid.readable

theorem videoFirst_opensAt (track : Track) (start : ℕ) :
    OpensAt track start (videoFirst track.samples start) := by
  have hsorted :=
    SampleIndex.syncIndices_pairwise track.samples_valid.readable
  have hlt := videoFirst_lt track.samples_valid track.samples_nonempty start
  have hshown : ∀ j < track.samples.len,
      (track.samples.get j).isSync = true → shownAt track j ≤ start →
        j ∈ track.samples.syncIndices.filter fun index =>
          decide (presented (track.samples.get index) ≤ start) := by
    intro j hj hsync hle
    exact List.mem_filter.mpr
      ⟨(mem_syncIndices_iff track).mpr ⟨hj, hsync⟩, decide_eq_true hle⟩
  unfold videoFirst at hlt ⊢
  cases hlast : (track.samples.syncIndices.filter fun index =>
      decide (presented (track.samples.get index) ≤ start)).getLast? with
  | some index =>
      rw [hlast] at hlt
      obtain ⟨hmem, hle⟩ :=
        List.mem_filter.mp (List.mem_of_getLast? hlast)
      refine ⟨hlt, Or.inl ((mem_syncIndices_iff track).mp hmem).2, ?_,
        Or.inl (of_decide_eq_true hle)⟩
      intro j hj hsync hjle
      exact le_of_getLast?_eq_some (f := id) (hsorted.sublist
        List.filter_sublist) hlast (hshown j hj hsync hjle)
  | none =>
      have hnone := List.getLast?_eq_none_iff.mp hlast
      have hlater : ∀ j < track.samples.len,
          (track.samples.get j).isSync = true → ¬shownAt track j ≤ start := by
        intro j hj hsync hle
        have hmem := hshown j hj hsync hle
        rw [hnone] at hmem
        cases hmem
      rw [hlast] at hlt
      cases hhead : track.samples.syncIndices.head? with
      | some index =>
          rw [hhead] at hlt
          have hmem := List.mem_of_mem_head? hhead
          refine ⟨hlt, Or.inl ((mem_syncIndices_iff track).mp hmem).2,
            fun j hj hsync hle => absurd hle (hlater j hj hsync),
            Or.inr fun j hj hsync => ?_⟩
          exact le_of_head?_eq_some hsorted hhead
            ((mem_syncIndices_iff track).mpr ⟨hj, hsync⟩)
      | none =>
          have hempty := List.head?_eq_none_iff.mp hhead
          have hunsynced : ∀ j < track.samples.len,
              (track.samples.get j).isSync = false := by
            intro j hj
            rw [Bool.eq_false_iff]
            intro hsync
            have hmem := (mem_syncIndices_iff track).mpr ⟨hj, hsync⟩
            rw [hempty] at hmem
            cases hmem
          exact ⟨track.samples_nonempty, Or.inr ⟨rfl, hunsynced⟩,
            fun j hj hsync hle => absurd hle (hlater j hj hsync),
            Or.inr fun j _ _ => Nat.zero_le j⟩

theorem mem_zipIdx_toVec (track : Track) {first : ℕ}
    (hfirst : first ≤ track.samples.len) {shown : Sample × ℕ} :
    shown ∈ (track.samples.toVec first track.samples.len).zipIdx ↔
      first + shown.2 < track.samples.len ∧
        shown.1 = track.samples.get (first + shown.2) := by
  have hlen := track.samples.length_all
  rw [track.samples_valid.toVec_eq hfirst (Nat.le_refl _),
    List.take_of_length_le hlen.le, List.mem_zipIdx_iff_getElem?,
    List.getElem?_drop]
  constructor
  · intro hget
    have hlt : first + shown.2 < track.samples.len := by
      have := (List.getElem?_eq_some_iff.mp hget).1
      omega
    rw [SampleIndex.getElem?_all hlt] at hget
    exact ⟨hlt, (Option.some.inj hget).symm⟩
  · rintro ⟨hlt, hshown⟩
    rw [SampleIndex.getElem?_all hlt, hshown]

theorem videoStop_lastShown (track : Track) {first : ℕ}
    (hfirst : first < track.samples.len) (stop : Option ℕ) :
    LastShownBefore track first stop
      (max (videoStop track.samples first stop) (first + 1) - 1) := by
  cases stop with
  | none =>
      have hall : videoStop track.samples first none = track.samples.len := rfl
      rw [hall]
      exact ⟨by omega, by omega, fun j hj _ => by omega,
        Or.inl fun time htime => by simp at htime⟩
  | some stop =>
      let before := (track.samples.toVec first track.samples.len).zipIdx.filter
        fun shown => decide (presented shown.1 < stop)
      have hmem : ∀ shown : Sample × ℕ, shown ∈ before ↔
          (first + shown.2 < track.samples.len ∧
            shown.1 = track.samples.get (first + shown.2)) ∧
          presented shown.1 < stop := by
        intro shown
        rw [List.mem_filter, mem_zipIdx_toVec track hfirst.le,
          decide_eq_true_iff]
      have hsorted : before.Pairwise fun a b => a.2 < b.2 := by
        apply List.Pairwise.filter
        rw [← List.pairwise_map, List.zipIdx_map_snd]
        exact List.pairwise_lt_range' _
      have hlate : ∀ j < track.samples.len, first ≤ j →
          shownAt track j < stop →
            (track.samples.get j, j - first) ∈ before := by
        intro j hj hle hlt
        rw [hmem]
        have hindex : first + (j - first) = j := Nat.add_sub_cancel' hle
        exact ⟨⟨hindex.symm ▸ hj, by dsimp only; rw [hindex]⟩, hlt⟩
      have hstop : videoStop track.samples first (some stop) =
          before.getLast?.elim (first + 1) fun shown =>
            first + shown.2 + 1 := rfl
      rw [hstop]
      cases hlast : before.getLast? with
      | none =>
          have hnone := List.getLast?_eq_none_iff.mp hlast
          simp only [Option.elim_none, Nat.max_self, Nat.add_sub_cancel]
          refine ⟨hfirst, Nat.le_refl _, fun j hj hlt => ?_, Or.inr rfl⟩
          by_contra hafter
          have hin := hlate j hj (by omega) (hlt stop rfl)
          rw [hnone] at hin
          cases hin
      | some shown =>
          obtain ⟨⟨hlt, hshown⟩, hbefore⟩ :=
            (hmem shown).mp (List.mem_of_getLast? hlast)
          have hmax : max (first + shown.2 + 1) (first + 1) - 1 =
              first + shown.2 := by omega
          simp only [Option.elim_some, hmax]
          refine ⟨hlt, Nat.le_add_right _ _, fun j hj hjlt => ?_,
            Or.inl fun time htime => ?_⟩
          · by_contra hafter
            have hin := hlate j hj (by omega) (hjlt stop rfl)
            have := le_of_getLast?_eq_some (f := Prod.snd) hsorted hlast hin
            dsimp only at this
            omega
          · obtain rfl := Option.some.inj htime
            rw [hshown] at hbefore
            exact hbefore

/-- What the reference window keeps is what was asked for. -/
theorem referenceWindow_windowOf {index : TimedIndex} {reference : Track}
    {window : ClipWindow} {range : SampleRange reference.samples}
    (h : referenceWindow index reference window = .ok range) :
    ∃ start,
      msToTicks (window.fromMs + index.presentationOffsetMs)
        reference.timescale = .ok start ∧
      ∃ stop,
        WindowOf reference start
          (stop.filter fun stop => decide (stop < reference.endTime))
          range.first (range.stop - 1) ∧
        stop = window.toMs.map fun toMs =>
          (toMs + index.presentationOffsetMs) * reference.timescale / 1000 := by
  obtain ⟨start, hstart, hlt, stop, hrange, -, hstop⟩ := referenceWindow_spec h
  refine ⟨start, hstart, stop, ?_, hstop⟩
  have hend : reference.endTime < 2 ^ 64 :=
    reference.samples_valid.sample_end_lt
      (Nat.sub_lt reference.samples_nonempty one_pos)
  unfold WindowOf
  cases hkind : reference.kind with
  | video =>
      rw [hkind] at hrange
      subst hrange
      exact ⟨videoFirst_opensAt reference start,
        videoStop_lastShown reference
          (videoFirst_lt reference.samples_valid reference.samples_nonempty
            start) _⟩
  | audio =>
      rw [hkind] at hrange
      subst hrange
      exact ⟨audioWindow_first (by omega), audioWindow_last⟩

/-! ## How much later a clip starts to decode -/

/-- A sample is shown at most 2^31 ticks before it is decoded. -/
theorem compositionOffset_ge (track : Track) (i : ℕ) :
    -2 ^ 31 ≤ (track.samples.get i).compositionOffset := by
  change -2 ^ 31 ≤ compositionAt track.samples.tables.composition _
  unfold compositionAt
  split
  · norm_num
  · cases hrow : track.samples.tables.composition[runOf CompositionRow.first
        track.samples.tables.composition (track.samples.start + i)]? with
    | none =>
        change -2 ^ 31 ≤ (0 : ℤ)
        norm_num
    | some row =>
        exact (track.samples_valid.tables.composition_range row
          (List.mem_of_getElem? hrow)).1

/-- The lead is the least that lets no kept frame show before the first one is
decoded. -/
structure LeastLead (track : Track) (first stop lead : ℕ) : Prop where
  shown : ∀ i, first ≤ i → i < stop →
    (track.samples.decodeTime first : ℤ) ≤ shownAt track i + lead
  least : lead = 0 ∨ ∃ i, first ≤ i ∧ i < stop ∧
    (track.samples.decodeTime first : ℤ) = shownAt track i + lead

theorem mem_map_presented_iff {track : Track}
    (range : SampleRange track.samples) {time : ℤ} :
    time ∈ range.kept.iter.collect.map presented ↔
      ∃ i, range.first ≤ i ∧ i < range.stop ∧ shownAt track i = time := by
  have hkept : ∀ i, range.kept.get i = track.samples.get (range.first + i) := by
    intro i
    simp only [SampleRange.kept, SampleIndex.window, SampleIndex.get,
      SampleIndex.moved, Nat.add_assoc]
  rw [range.kept_valid.readable.iter_collect, SampleIndex.all, List.map_map,
    List.mem_map, range.len_kept]
  constructor
  · rintro ⟨i, hi, rfl⟩
    have hlt := List.mem_range.mp hi
    refine ⟨range.first + i, Nat.le_add_right _ _, by omega, ?_⟩
    rw [Function.comp_apply, hkept]
    rfl
  · rintro ⟨i, hle, hlt, rfl⟩
    refine ⟨i - range.first, List.mem_range.mpr (by omega), ?_⟩
    rw [Function.comp_apply, hkept, Nat.add_sub_cancel' hle]
    rfl

theorem referenceCut_leastLead {index : TimedIndex} {window : ClipWindow}
    {cut : ReferenceCut} (h : referenceCut index window = .ok cut)
    (hkept : cut.range.first < cut.range.stop) :
    LeastLead cut.reference cut.range.first cut.range.stop cut.lead := by
  unfold referenceCut at h
  obtain ⟨reference, -, h⟩ := bind_eq_ok_iff.mp h
  obtain ⟨range, -, h⟩ := bind_eq_ok_iff.mp h
  obtain ⟨keptEnd, -, h⟩ := bind_eq_ok_iff.mp h
  obtain rfl := Except.ok.inj h
  dsimp only at hkept ⊢
  have hmem := fun time => @mem_map_presented_iff reference range time
  cases hmin : (range.kept.iter.collect.map presented).min? with
  | none =>
      have hnil := List.min?_eq_none_iff.mp hmin
      have hfirst := (hmem (shownAt reference range.first)).mpr
        ⟨range.first, Nat.le_refl _, hkept, rfl⟩
      rw [hnil] at hfirst
      cases hfirst
  | some earliest =>
      obtain ⟨hattained, hleast⟩ := List.min?_eq_some_iff.mp hmin
      obtain ⟨least, hle, hlt, hearliest⟩ := (hmem earliest).mp hattained
      have hdecode := reference.samples_valid.decodeTime_mono hle
        (hlt.trans_le range.stop_le)
      have hoffset := compositionOffset_ge reference least
      have hshown : shownAt reference least =
          reference.samples.decodeTime least +
            (reference.samples.get least).compositionOffset := rfl
      rw [Option.getD_some]
      refine ⟨fun i hi histop => ?_, ?_⟩
      · have hearlier := hleast _ ((hmem _).mpr ⟨i, hi, histop, rfl⟩)
        split_ifs with hlater
        · omega
        · have : ¬(0 ≤ (reference.samples.decodeTime range.first : ℤ) -
              earliest) := by omega
          omega
      · split_ifs with hlater
        · exact Or.inr ⟨least, hle, hlt, by omega⟩
        · exact Or.inl rfl

/-! ## What is kept of each track -/

/-- A track of a clip: some of the file's samples in a row, all moved by as
many ticks, and none of them before the clip starts. -/
structure ClipTrack (start : TimelinePosition) (track : Track)
    (first stop : ℕ) (moved : Track) : Prop where
  id : moved.id = track.id
  kind : moved.kind = track.kind
  timescale : moved.timescale = track.timescale
  first_lt : first < stop
  stop_le : stop ≤ track.samples.len
  len : moved.samples.len = stop - first
  shift : ∃ ticks : ℤ, ∀ i < moved.samples.len,
    (moved.samples.decodeTime i : ℤ) =
      track.samples.decodeTime (first + i) + ticks
  same : ∀ i < moved.samples.len,
    moved.samples.get i =
      { track.samples.get (first + i) with
        decodeTime := moved.samples.decodeTime i }
  started : ∃ ticks, start.inTicks track.timescale = .ok ticks ∧
    ∀ i < moved.samples.len, ticks ≤ moved.samples.decodeTime i

theorem movedTrack_same {track moved : Track}
    {range : SampleRange track.samples} {origin base : ℕ}
    (h : movedTrack track range origin base = .ok moved) (i : ℕ) :
    moved.samples.get i =
      { track.samples.get (range.first + i) with
        decodeTime := moved.samples.decodeTime i } := by
  unfold movedTrack at h
  split at h
  · cases h
  split at h
  · cases h
  split at h
  · cases h
  rename_i samples hmoved
  obtain ⟨stop, -, h⟩ := bind_eq_ok_iff.mp h
  obtain ⟨duration, -, h⟩ := bind_eq_ok_iff.mp h
  obtain rfl := Except.ok.inj h
  change samples.get i = { track.samples.get (range.first + i) with
    decodeTime := samples.decodeTime i }
  obtain rfl := shifted_eq hmoved
  simp only [SampleRange.kept, SampleIndex.window, SampleIndex.get,
    SampleIndex.decodeTime, Nat.add_assoc]

theorem Moved.clipTrack {start : TimelinePosition} {track moved : Track}
    {range : SampleRange track.samples} {origin ticks lead : ℕ}
    (h : Moved track range origin (ticks + lead) moved)
    (hsame : ∀ i, moved.samples.get i =
      { track.samples.get (range.first + i) with
        decodeTime := moved.samples.decodeTime i })
    (hticks : start.inTicks track.timescale = .ok ticks) :
    ClipTrack start track range.first range.stop moved where
  id := h.id
  kind := h.kind
  timescale := h.timescale
  first_lt := h.nonempty
  stop_le := range.stop_le
  len := h.len
  shift := by
    refine ⟨(ticks + lead : ℤ) - origin, fun i hi => ?_⟩
    have := h.decodeTime i hi
    omega
  same i _ := hsame i
  started := by
    refine ⟨ticks, hticks, fun i hi => ?_⟩
    have htime := h.decodeTime i hi
    have hlen := h.len
    have horigin := h.origin_le
    have hstop := range.stop_le
    have hmono := @SampleIndex.Valid.decodeTime_mono _ track.samples_valid
      range.first (range.first + i) (Nat.le_add_right _ _) (by omega)
    omega

theorem trimTrack_same {cut : ReferenceCut} {start : TimelinePosition}
    {toTheEnd : Bool} {track moved : Track} {part : TrackCut} {ticks : ℕ}
    (h : trimTrack cut start toTheEnd track = .ok moved)
    (hplaced : Placed cut start toTheEnd track moved part ticks) (i : ℕ) :
    moved.samples.get i =
      { part.track.samples.get (part.range.first + i) with
        decodeTime := moved.samples.decodeTime i } := by
  unfold trimTrack at h
  rw [hplaced.cut_eq, ok_bind] at h
  obtain ⟨ticks, -, h⟩ := bind_eq_ok_iff.mp h
  obtain ⟨base, -, h⟩ := bind_eq_ok_iff.mp h
  exact movedTrack_same h i

section Trimmed

variable {index : TimedIndex} {window : ClipWindow}
  {start : TimelinePosition} {trailing : Trailing} {trimmed : Trimmed}
  {cut : ReferenceCut} {length : ℕ}

theorem Trims.clipTracks
    (h : Trims index window start trailing trimmed cut length) :
    List.Forall₂
      (fun track moved => ∃ first stop,
        ClipTrack start track first stop moved)
      index.tracks trimmed.index.tracks := by
  apply h.trimmedTracks.imp
  rintro track moved ⟨htrack, hmoved⟩
  obtain ⟨part, ticks, hplaced, rfl⟩ := h.placed_of_trimTrack htrack hmoved
  exact ⟨part.range.first, part.range.stop,
    hplaced.moved.clipTrack (trimTrack_same hmoved hplaced) hplaced.ticks_eq⟩

/-- No frame of the reference is shown before the clip starts. -/
theorem Moved.shownAt_ge {moved : Track} {ticks : ℕ}
    (hmoved : Moved cut.reference cut.range cut.origin (ticks + cut.lead) moved)
    (htrack : ClipTrack start cut.reference cut.range.first cut.range.stop
      moved)
    (horigin : cut.origin = cut.reference.samples.decodeTime cut.range.first)
    (hlead : LeastLead cut.reference cut.range.first cut.range.stop cut.lead)
    {i : ℕ} (hi : i < moved.samples.len) : (ticks : ℤ) ≤ shownAt moved i := by
  have hlen := htrack.len
  have hshown := hlead.shown (cut.range.first + i) (Nat.le_add_right _ _)
    (by omega)
  have htime := hmoved.decodeTime i hi
  have hoffset := congrArg Sample.compositionOffset (htrack.same i hi)
  dsimp only at hoffset
  unfold shownAt presented at hshown ⊢
  rw [SampleIndex.get_decodeTime] at hshown ⊢
  rw [hoffset]
  omega

/-- A clip keeps the window that was asked for and moves it as a whole: each
track by as many ticks, so that nothing decodes and no frame of the reference
shows before the clip starts.  The clip ends as long after its start as the
window is, with its lead. -/
theorem clip_is_window
    (h : trim index window start trailing = .ok trimmed) :
    ∃ reference moved first stop lead,
      index.reference = some reference ∧
      trimmed.index.reference = some moved ∧
      ClipTrack start reference first stop moved ∧
      (∃ opens, msToTicks (window.fromMs + index.presentationOffsetMs)
          reference.timescale = .ok opens ∧
        WindowOf reference opens
          ((window.toMs.map fun toMs =>
              (toMs + index.presentationOffsetMs) * reference.timescale /
                1000).filter fun time => decide (time < reference.endTime))
          first (stop - 1)) ∧
      LeastLead reference first stop lead ∧
      (∃ ticks, start.inTicks reference.timescale = .ok ticks ∧
        ∀ i < moved.samples.len, (ticks : ℤ) ≤ shownAt moved i) ∧
      List.Forall₂
        (fun track moved => ∃ first stop,
          ClipTrack start track first stop moved)
        index.tracks trimmed.index.tracks ∧
      trimmed.stop.nanos = start.nanos +
        (frameEnd reference (stop - 1) - reference.samples.decodeTime first +
          lead) * nanosPerSecond / reference.timescale := by
  obtain ⟨cut, length, htrims⟩ := trim_spec h
  have hreferenced := htrims.referenced
  obtain ⟨moved, hreference, htrim⟩ := htrims.trimmed_reference
  obtain ⟨ticks, hticks, hmoved⟩ := trimTrack_reference htrim
  obtain ⟨part, placedTicks, hplaced⟩ := trimTrack_spec htrim
  have hpart := hplaced.cut_eq
  rw [trackCut, if_pos rfl] at hpart
  obtain rfl := Except.ok.inj hpart
  have htrack := hmoved.clipTrack (trimTrack_same htrim hplaced) hticks
  have hlead := referenceCut_leastLead htrims.cut_eq hmoved.nonempty
  obtain ⟨opens, hopens, stop, hwindow, hstop⟩ :=
    referenceWindow_windowOf hreferenced.window
  obtain ⟨hspan, -, hlength⟩ := length_eq_ok_iff.mp htrims.length_eq
  have hnanos := after_eq_ok htrims.stop
  have hkeptEnd : cut.keptEnd = frameEnd cut.reference (cut.range.stop - 1) := by
    have hlast : cut.range.first + (cut.range.kept.len - 1) =
        cut.range.stop - 1 := by
      have := hmoved.nonempty
      rw [cut.range.len_kept]
      omega
    rw [hreferenced.keptEnd, hlast]
    rfl
  rw [hstop] at hwindow
  refine ⟨cut.reference, moved, cut.range.first, cut.range.stop, cut.lead,
    hreferenced.reference, hreference, htrack, ⟨opens, hopens, hwindow⟩, hlead,
    ⟨ticks, hticks, fun i hi => ?_⟩, htrims.clipTracks, ?_⟩
  · exact hmoved.shownAt_ge htrack hreferenced.origin hlead hi
  · have hsum : length = frameEnd cut.reference (cut.range.stop - 1) -
        cut.reference.samples.decodeTime cut.range.first + cut.lead := by
      rw [← hkeptEnd, ← hreferenced.origin]
      omega
    rw [hnanos, ← hsum]
    rfl

end Trimmed

/-- Fifty milliseconds of a file whose frames show before they decode. -/
theorem reorderedFile_clip_is_window :
    ∃ trimmed, trim reorderedFile ⟨50, some 100⟩ .zero .cut = .ok trimmed ∧
      ∃ moved, trimmed.index.reference = some moved ∧
        ∀ i < moved.samples.len, 0 ≤ shownAt moved i := by
  obtain ⟨trimmed, htrim⟩ := exists_ok_of_isOk
    (show (trim reorderedFile ⟨50, some 100⟩ .zero .cut).isOk = true by
      decide)
  obtain ⟨reference, moved, first, stop, lead, -, hmoved, -, -, -,
    ⟨ticks, -, hshown⟩, -⟩ := clip_is_window htrim
  exact ⟨trimmed, htrim, moved, hmoved, fun i hi =>
    (Int.natCast_nonneg ticks).trans (hshown i hi)⟩

/-- Three audio frames, each shown half a frame after it is decoded. -/
def lateTrack : Track :=
  .checked 1 (.audio 1) 1000
    (.new ⟨[5, 5, 5], [⟨0, 0⟩], [⟨0, 0, 10⟩], [⟨0, 5⟩], none⟩) (by decide)

def lateFile : TimedIndex where
  tracks := [lateTrack]
  ids_unique := by decide
  movieTimescale := 1000
  duration := 30
  presentationOffsetMs := 0

/-- Audio is cut by when it decodes: the first 12 ms keep the frame that
decodes at 10 ms, though it is shown at 15 ms. -/
theorem late_audio_kept_past_window :
    lateFile.reference = some lateTrack ∧
      (∃ trimmed, trim lateFile ⟨0, some 12⟩ .zero .keep = .ok trimmed ∧
        (trimmed.index.reference.map fun moved => moved.samples.len) =
          some 2) ∧
      LastShownBefore lateTrack 0 (some 12) 0 ∧
      ¬LastShownBefore lateTrack 0 (some 12) 1 := by
  have hrun : (trim lateFile ⟨0, some 12⟩ .zero .keep).map (fun trimmed =>
      trimmed.index.reference.map fun moved => moved.samples.len) =
        .ok (some 2) := by
    decide
  refine ⟨rfl, ?_, ⟨by decide, by decide, ?_, Or.inr rfl⟩, ?_⟩
  · cases htrim : trim lateFile ⟨0, some 12⟩ .zero .keep with
    | error error =>
        rw [htrim] at hrun
        cases hrun
    | ok trimmed =>
        rw [htrim] at hrun
        exact ⟨trimmed, rfl, Except.ok.inj hrun⟩
  · intro j hj hlt
    have hshown := hlt 12 rfl
    have hall : ∀ j < 3, shownAt lateTrack j < 12 → j ≤ 0 := by decide
    exact hall j hj hshown
  · intro hlast
    rcases hlast.shown with hshown | hfirst
    · exact absurd (hshown 12 rfl) (by decide)
    · cases hfirst

end Segmentor.Clip
