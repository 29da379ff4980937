import Segmentor.AdaptiveSequence
import Mathlib.Algebra.Order.Group.Unbundled.Int

/-!
# Switching between video renditions

A player may leave one video rendition for another at a segment boundary, so
the renditions of an adaptive asset must cut their segments at the same
instants.  Loading compares each rendition with the first.  What that says of
two others depends on how far, and which way, each of them is from the first.
-/

namespace Segmentor

open General

/-! ## Timetables -/

/-- When the segments of a rendition start, and how long its longest sample
is, in milliseconds. -/
structure Timetable where
  starts : List ℕ
  tolerance : ℕ
  deriving DecidableEq, Repr

namespace Timetable

/-- As many segments, each starting within one sample of the coarser. -/
structure LinesUp (a b : Timetable) : Prop where
  length_eq : a.starts.length = b.starts.length
  near : ∀ (index x y : ℕ), a.starts[index]? = some x →
    b.starts[index]? = some y → |(x : ℤ) - y| ≤ max a.tolerance b.tolerance

/-- Each segment starts within half a sample of where it does in `first`; or
both renditions start it on the same side of that, and the samples of `first`
are no longer than the longer of theirs. -/
def Beside (first a b : Timetable) : Prop :=
  ∀ (index own x y : ℕ), first.starts[index]? = some own →
    a.starts[index]? = some x → b.starts[index]? = some y →
    (2 * |(x : ℤ) - own| ≤ a.tolerance ∧ 2 * |(y : ℤ) - own| ≤ b.tolerance) ∨
      ((own ≤ x ∧ own ≤ y ∨ x ≤ own ∧ y ≤ own) ∧
        first.tolerance ≤ max a.tolerance b.tolerance)

theorem LinesUp.refl (a : Timetable) : a.LinesUp a where
  length_eq := rfl
  near := by
    intro index x y hx hy
    rw [hx] at hy
    obtain rfl := Option.some.inj hy
    simp

theorem LinesUp.symm {a b : Timetable} (h : a.LinesUp b) : b.LinesUp a where
  length_eq := h.length_eq.symm
  near := by
    intro index x y hx hy
    rw [abs_sub_comm, max_comm]
    exact h.near index y x hy hx

/-- Two renditions that line up with the first line up with each other where
they keep beside it. -/
theorem LinesUp.of_beside {first a b : Timetable} (ha : first.LinesUp a)
    (hb : first.LinesUp b) (hbeside : first.Beside a b) : a.LinesUp b where
  length_eq := ha.length_eq.symm.trans hb.length_eq
  near := by
    intro index x y hx hy
    have hlt : index < first.starts.length := by
      rw [ha.length_eq]
      exact (List.getElem?_eq_some_iff.mp hx).1
    have hown := List.getElem?_eq_getElem hlt
    have hnearA := abs_le.mp (ha.near index _ x hown hx)
    have hnearB := abs_le.mp (hb.near index _ y hown hy)
    rw [abs_le]
    rcases hbeside index _ x y hown hx hy with ⟨hhalfA, hhalfB⟩ | ⟨hside, hfine⟩
    · have hboundA := abs_le.mp (show |(x : ℤ) - first.starts[index]| ≤
        a.tolerance / 2 by omega)
      have hboundB := abs_le.mp (show |(y : ℤ) - first.starts[index]| ≤
        b.tolerance / 2 by omega)
      omega
    · omega

/-- The rendition that is as far from the first as `a` is, the other way. -/
def mirrored (first a : Timetable) : Timetable where
  starts := List.zipWith (fun own x => 2 * own - x) first.starts a.starts
  tolerance := a.tolerance

theorem getElem?_mirrored {first a : Timetable} {index own x : ℕ}
    (hown : first.starts[index]? = some own) (hx : a.starts[index]? = some x) :
    (first.mirrored a).starts[index]? = some (2 * own - x) := by
  unfold mirrored
  rw [List.getElem?_zipWith, hown, hx]

/-- More than half a sample is too much to be told by the first alone: the
mirrored rendition lines up with the first as well, and not with the other. -/
theorem mirrored_not_linesUp {first a : Timetable} (ha : first.LinesUp a)
    (hlater : ∀ (index own x : ℕ), first.starts[index]? = some own →
      a.starts[index]? = some x → x ≤ 2 * own)
    {index own x : ℕ} (hown : first.starts[index]? = some own)
    (hx : a.starts[index]? = some x)
    (hfar : (a.tolerance : ℤ) < 2 * |(x : ℤ) - own|) :
    first.LinesUp (first.mirrored a) ∧ ¬ a.LinesUp (first.mirrored a) := by
  constructor
  · constructor
    · unfold mirrored
      rw [List.length_zipWith, ← ha.length_eq, min_self]
    · intro other o m ho hm
      have hlt : other < a.starts.length := by
        rw [← ha.length_eq]
        exact (List.getElem?_eq_some_iff.mp ho).1
      have hy := List.getElem?_eq_getElem hlt
      rw [getElem?_mirrored ho hy] at hm
      obtain rfl := Option.some.inj hm
      have hle := hlater other o _ ho hy
      have hnear := ha.near other o _ ho hy
      have hback : (o : ℤ) - (2 * o - a.starts[other] : ℕ) =
          -((o : ℤ) - a.starts[other]) := by omega
      rw [hback, abs_neg]
      exact hnear
  · intro hlines
    have hnear := hlines.near index x _ hx (getElem?_mirrored hown hx)
    have hle := hlater index own x hown hx
    have hacross : (x : ℤ) - (2 * own - x : ℕ) = 2 * ((x : ℤ) - own) := by omega
    have htolerance : (first.mirrored a).tolerance = a.tolerance := rfl
    rw [hacross, abs_mul, abs_two, htolerance, max_self] at hnear
    omega

end Timetable

/-! ## Checking renditions -/

/-- A length in milliseconds. -/
def milliseconds (track : Track) (ticks : ℕ) : Option ℕ :=
  (checkedMul (2 ^ 127) ticks 1000).bind fun ms => checkedDiv ms track.timescale

namespace RenditionEntry

def videoTrack (entry : RenditionEntry RenditionFile) : Result Track :=
  okOr entry.asset.presentation.video
    (.invalidMedia "rendition has no video track")

def startsMs (entry : RenditionEntry RenditionFile) : Result (List ℕ) := do
  let track ← entry.videoTrack
  (entry.asset.presentation.trackSegments track.id).mapM fun segment =>
    okOr (milliseconds track segment.decodeTime)
      (.invalidMedia "segment timing overflow")

/-- The longest sample of a rendition's video: how far a segment boundary may
be from another rendition's. -/
def sampleToleranceMs (entry : RenditionEntry RenditionFile) : Result ℕ := do
  let track ← entry.videoTrack
  let longest :=
    ((track.samples.iter.collect.map Sample.duration).max?).getD 0
  okOr (milliseconds track longest) (.invalidMedia "sample duration overflow")

def timetable (entry : RenditionEntry RenditionFile) : Result Timetable := do
  let starts ← entry.startsMs
  let tolerance ← entry.sampleToleranceMs
  .ok { starts := starts, tolerance := tolerance }

end RenditionEntry

def diverge (first other : Text) (index a b : ℕ) : Error :=
  .invalidMedia (s!"renditions `{String.ofList first}` and " ++
    s!"`{String.ofList other}` diverge at segment {index} " ++
    s!"({a} ms vs {b} ms)")

/-- Compares one rendition with the first. -/
def checkAgainst (first : Text) (firstStarts : List ℕ) (firstToleranceMs : ℕ)
    (entry : RenditionEntry RenditionFile) : Result Unit := do
  let starts ← entry.startsMs
  let toleranceMs ← entry.sampleToleranceMs
  if starts.length ≠ firstStarts.length then
    .error (.invalidMedia (s!"renditions `{String.ofList first}` and " ++
      s!"`{String.ofList entry.id}` have different segment counts " ++
      s!"({firstStarts.length} vs {starts.length})"))
  else
    match (firstStarts.zip starts).zipIdx.find? fun ((a, b), _) =>
        ((max toleranceMs firstToleranceMs : ℕ) : ℤ) < |(a : ℤ) - b| with
    | some ((a, b), index) => .error (diverge first entry.id index a b)
    | none => .ok ()

/-- Every video rendition must cut its segments where the first does, within
one sample's duration of the coarser. -/
def checkAlignment : List (RenditionEntry RenditionFile) → Result Unit
  | [] => .ok ()
  | first :: rest => do
      let firstStarts ← first.startsMs
      let firstToleranceMs ← first.sampleToleranceMs
      rest.forM (checkAgainst first.id firstStarts firstToleranceMs)

/-! ## What the check accepts -/

theorem RenditionEntry.timetable_eq_ok_iff
    {entry : RenditionEntry RenditionFile} {table : Timetable} :
    entry.timetable = .ok table ↔
      entry.startsMs = .ok table.starts ∧
        entry.sampleToleranceMs = .ok table.tolerance := by
  unfold timetable
  constructor
  · intro h
    obtain ⟨starts, hstarts, h⟩ := bind_eq_ok_iff.mp h
    obtain ⟨tolerance, htolerance, h⟩ := bind_eq_ok_iff.mp h
    obtain rfl := Except.ok.inj h
    exact ⟨hstarts, htolerance⟩
  · rintro ⟨hstarts, htolerance⟩
    rw [hstarts, htolerance]
    rfl

theorem find?_divergence_eq_none_iff {a b : List ℕ} {tolerance : ℕ} :
    ((a.zip b).zipIdx.find? fun ((x, y), _) =>
        (tolerance : ℤ) < |(x : ℤ) - y|) = none ↔
      ∀ (index x y : ℕ), a[index]? = some x → b[index]? = some y →
        |(x : ℤ) - y| ≤ tolerance := by
  rw [List.find?_eq_none]
  constructor
  · intro h index x y hx hy
    have hmem : ((x, y), index) ∈ (a.zip b).zipIdx := by
      rw [List.mem_zipIdx_iff_getElem?, List.getElem?_zip_eq_some]
      exact ⟨hx, hy⟩
    simpa using h _ hmem
  · rintro h ⟨⟨x, y⟩, index⟩ hmem
    rw [List.mem_zipIdx_iff_getElem?, List.getElem?_zip_eq_some] at hmem
    simpa using h index x y hmem.1 hmem.2

theorem checkAgainst_eq_ok_iff {first : Text} {own : Timetable}
    {entry : RenditionEntry RenditionFile} :
    checkAgainst first own.starts own.tolerance entry = .ok () ↔
      ∃ table, entry.timetable = .ok table ∧ own.LinesUp table := by
  constructor
  · intro h
    unfold checkAgainst at h
    obtain ⟨starts, hstarts, h⟩ := bind_eq_ok_iff.mp h
    obtain ⟨tolerance, htolerance, h⟩ := bind_eq_ok_iff.mp h
    refine ⟨⟨starts, tolerance⟩,
      RenditionEntry.timetable_eq_ok_iff.mpr ⟨hstarts, htolerance⟩, ?_⟩
    by_cases hlength : starts.length = own.starts.length
    · rw [if_neg (not_not_intro hlength)] at h
      refine ⟨hlength.symm, ?_⟩
      rw [max_comm, ← find?_divergence_eq_none_iff]
      split at h
      · cases h
      · assumption
    · rw [if_pos hlength] at h
      cases h
  · rintro ⟨table, htable, hlines⟩
    obtain ⟨hstarts, htolerance⟩ :=
      RenditionEntry.timetable_eq_ok_iff.mp htable
    have hnone := hlines.near
    rw [max_comm, ← find?_divergence_eq_none_iff] at hnone
    unfold checkAgainst
    rw [hstarts, htolerance, ok_bind, ok_bind,
      if_neg (not_not_intro hlines.length_eq.symm), hnone]

theorem checkAlignment_cons_eq_ok_iff {first : RenditionEntry RenditionFile}
    {rest : List (RenditionEntry RenditionFile)} :
    checkAlignment (first :: rest) = .ok () ↔
      ∃ own, first.timetable = .ok own ∧
        ∀ entry ∈ rest, ∃ table, entry.timetable = .ok table ∧
          own.LinesUp table := by
  rw [checkAlignment]
  constructor
  · intro h
    obtain ⟨starts, hstarts, h⟩ := bind_eq_ok_iff.mp h
    obtain ⟨tolerance, htolerance, h⟩ := bind_eq_ok_iff.mp h
    refine ⟨⟨starts, tolerance⟩,
      RenditionEntry.timetable_eq_ok_iff.mpr ⟨hstarts, htolerance⟩, ?_⟩
    intro entry hentry
    exact (@checkAgainst_eq_ok_iff first.id ⟨starts, tolerance⟩ entry).mp
      (forM_eq_ok_iff.mp h entry hentry)
  · rintro ⟨own, hown, hrest⟩
    obtain ⟨hstarts, htolerance⟩ := RenditionEntry.timetable_eq_ok_iff.mp hown
    rw [hstarts, htolerance, ok_bind, ok_bind]
    exact forM_eq_ok_iff.mpr fun entry hentry =>
      checkAgainst_eq_ok_iff.mpr (hrest entry hentry)

/-! ## Every pair of renditions -/

/-- When the plan of a rendition starts the segments of its video, and the
longest of its samples. -/
def RenditionEntry.planned (entry : RenditionEntry RenditionFile) : Timetable :=
  match entry.asset.presentation.video with
  | none => ⟨[], 0⟩
  | some track =>
      { starts := (entry.asset.presentation.trackSegments track.id).map
          fun segment => segment.decodeTime * 1000 / track.timescale
        tolerance :=
          ((track.samples.iter.collect.map Sample.duration).max?).getD 0 * 1000 /
            track.timescale }

theorem milliseconds_eq {track : Track} {ticks ms : ℕ}
    (h : milliseconds track ticks = some ms) :
    ticks * 1000 / track.timescale = ms := by
  obtain ⟨product, hproduct, hquotient⟩ := Option.bind_eq_some_iff.mp h
  obtain ⟨-, rfl⟩ := checkedMul_eq_some_iff.mp hproduct
  exact (checkedDiv_eq_some_iff.mp hquotient).2

theorem RenditionEntry.planned_eq {entry : RenditionEntry RenditionFile}
    {table : Timetable} (h : entry.timetable = .ok table) :
    entry.planned = table := by
  obtain ⟨hstarts, htolerance⟩ := timetable_eq_ok_iff.mp h
  obtain ⟨track, htrack, hstarts⟩ := bind_eq_ok_iff.mp hstarts
  obtain ⟨track', htrack', htolerance⟩ := bind_eq_ok_iff.mp htolerance
  obtain rfl := Except.ok.inj (htrack.symm.trans htrack')
  unfold planned
  rw [okOr_eq_ok_iff.mp htrack]
  rw [Timetable.mk.injEq]
  constructor
  · rw [← List.forall₂_eq_eq_eq, List.forall₂_map_left_iff]
    exact (mapM_forall₂ hstarts).imp fun segment ms hms =>
      milliseconds_eq (okOr_eq_ok_iff.mp hms)
  · exact milliseconds_eq (okOr_eq_ok_iff.mp htolerance)

/-- Two renditions between which a player can switch at any boundary. -/
def LineUp (a b : RenditionEntry RenditionFile) : Prop :=
  ∃ tableA tableB, a.timetable = .ok tableA ∧ b.timetable = .ok tableB ∧
    tableA.LinesUp tableB

/-- Any two renditions after the first are planned beside it. -/
def KeepBeside : List (RenditionEntry RenditionFile) → Prop
  | [] => True
  | first :: rest => rest.Pairwise fun a b =>
      first.planned.Beside a.planned b.planned

theorem keepBeside_of_length_le {video : List (RenditionEntry RenditionFile)}
    (h : video.length ≤ 2) : KeepBeside video := by
  rcases video with _ | ⟨_, _ | ⟨_, _ | ⟨_, _⟩⟩⟩
  · trivial
  · exact .nil
  · exact List.pairwise_singleton _ _
  · rw [List.length_cons, List.length_cons, List.length_cons] at h
    omega

theorem LineUp.symm {a b : RenditionEntry RenditionFile} (h : LineUp a b) :
    LineUp b a := by
  obtain ⟨tableA, tableB, htableA, htableB, hlines⟩ := h
  exact ⟨tableB, tableA, htableB, htableA, hlines.symm⟩

instance : Std.Symm LineUp where
  symm _ _ := LineUp.symm

/-- The accepted renditions line up pairwise where any two after the first
keep beside it. -/
theorem renditions_line_up_of_beside
    {video : List (RenditionEntry RenditionFile)}
    (haccepted : checkAlignment video = .ok ()) (hbeside : KeepBeside video) :
    ∀ a ∈ video, ∀ b ∈ video, LineUp a b := by
  cases video with
  | nil => simp
  | cons first rest =>
      obtain ⟨own, hown, hrest⟩ :=
        checkAlignment_cons_eq_ok_iff.mp haccepted
      have hfirst : ∀ entry ∈ rest, LineUp first entry := by
        intro entry hentry
        obtain ⟨table, htable, hlines⟩ := hrest entry hentry
        exact ⟨own, table, hown, htable, hlines⟩
      have hself : ∀ entry ∈ first :: rest, LineUp entry entry := by
        intro entry hentry
        rcases List.mem_cons.mp hentry with rfl | hentry
        · exact ⟨own, own, hown, hown, .refl own⟩
        · obtain ⟨table, htable, -⟩ := hrest entry hentry
          exact ⟨table, table, htable, htable, .refl table⟩
      have hothers : rest.Pairwise LineUp := by
        apply List.Pairwise.imp_of_mem _ hbeside
        intro a b ha hb hbeside
        obtain ⟨tableA, htableA, halong⟩ := hrest a ha
        obtain ⟨tableB, htableB, hblong⟩ := hrest b hb
        rw [RenditionEntry.planned_eq hown, RenditionEntry.planned_eq htableA,
          RenditionEntry.planned_eq htableB] at hbeside
        exact ⟨tableA, tableB, htableA, htableB, halong.of_beside hblong hbeside⟩
      have hall : (first :: rest).Pairwise LineUp :=
        List.pairwise_cons.mpr ⟨hfirst, hothers⟩
      intro a ha b hb
      exact List.Pairwise.forall_of_forall hself hall ha hb

/-- A rendition whose video is H.264. -/
def videoEntry (id : String) (asset : PackagedAsset) :
    RenditionEntry RenditionFile where
  id := id.toList
  asset :=
    { asset := asset
      details := fun _ =>
        { language := "und".toList
          label := none
          duration := 2500
          codec := .avc 640 360 100 0 31 }
      audioDefault := false }

/-- Seven samples, of half a second and of a quarter.  The second keyframe is
at one and a half seconds, or a quarter of a second sooner or later. -/
def besideIndex (late : Fin 3) : MediaIndex where
  tracks :=
    [.checked 1 .video 1000
       (.new ⟨[9, 9, 9, 9, 9, 9, 9], [⟨0, 0⟩],
         [⟨0, 0, 500⟩, ⟨2, 1000, 250⟩, ⟨6, 2000, 500⟩], [],
         some [0, 3 + late]⟩) (by
         revert late
         decide)]
  ids_unique := by
    revert late
    decide

def besidePlan (late : Fin 3) : SegmentPlan where
  segments :=
    [⟨0, [⟨1, 0, 3 + late, 0, 1250 + 250 * late⟩]⟩,
     ⟨1, [⟨1, 3 + late, 7, 1250 + 250 * late, 1250 - 250 * late⟩]⟩]

def besideEntry (id : String) (late : Fin 3) : RenditionEntry RenditionFile :=
  videoEntry id
    { index := besideIndex late
      plan := besidePlan late
      limits := {}
      version := "0123456789abcdef"
      protection := none
      aes128 := none
      decryption := []
      muxed := none
      planned := ⟨1000, by
        revert late
        decide⟩
      protection_built := by simp }

/-- Neither sooner nor later. -/
def onTime : Fin 3 :=
  (Fin.last 1).castSucc

/-- The first rendition cuts at one and a half seconds, the others a quarter of
a second later and a quarter of a second sooner. -/
def besideVideo : List (RenditionEntry RenditionFile) :=
  [besideEntry "720p" onTime, besideEntry "480p" (.last 2),
    besideEntry "360p" (Fin.last 2).rev]

theorem renditions_line_up_of_beside_quarter :
    checkAlignment besideVideo = .ok () ∧ KeepBeside besideVideo ∧
      ∀ a ∈ besideVideo, ∀ b ∈ besideVideo, LineUp a b := by
  have haccepted : checkAlignment besideVideo = .ok () := by decide
  have hbeside : KeepBeside besideVideo := by
    refine List.pairwise_pair.mpr fun index own x y hown hx hy => ?_
    have hfirst : (besideEntry "720p" onTime).planned = ⟨[0, 1500], 500⟩ := by
      decide
    have hlater : (besideEntry "480p" (.last 2)).planned =
        ⟨[0, 1750], 500⟩ := by decide
    have hsooner : (besideEntry "360p" (Fin.last 2).rev).planned =
        ⟨[0, 1250], 500⟩ := by decide
    rw [hfirst] at hown
    rw [hlater] at hx ⊢
    rw [hsooner] at hy ⊢
    left
    match index with
    | 0 =>
        obtain rfl := Option.some.inj hown
        obtain rfl := Option.some.inj hx
        obtain rfl := Option.some.inj hy
        decide
    | 1 =>
        obtain rfl := Option.some.inj hown
        obtain rfl := Option.some.inj hx
        obtain rfl := Option.some.inj hy
        decide
    | _ + 2 => cases hown
  exact ⟨haccepted, hbeside, renditions_line_up_of_beside haccepted hbeside⟩

/-! ## Drifting apart -/

/-- Five samples of half a second.  The second keyframe is the third, fourth
or fifth of them. -/
def driftingIndex (late : Fin 3) : MediaIndex where
  tracks :=
    [.checked 1 .video 1000
       (.new ⟨[9, 9, 9, 9, 9], [⟨0, 0⟩], [⟨0, 0, 500⟩], [], some [0, 2 + late]⟩) (by
         revert late
         decide)]
  ids_unique := by
    revert late
    decide

def driftingPlan (late : Fin 3) : SegmentPlan where
  segments :=
    [⟨0, [⟨1, 0, 2 + late, 0, 1000 + 500 * late⟩]⟩,
     ⟨1, [⟨1, 2 + late, 5, 1000 + 500 * late, 1500 - 500 * late⟩]⟩]

def driftingAsset (late : Fin 3) : PackagedAsset where
  index := driftingIndex late
  plan := driftingPlan late
  limits := {}
  version := "0123456789abcdef"
  protection := none
  aes128 := none
  decryption := []
  muxed := none
  planned := ⟨1000, by
    revert late
    decide⟩
  protection_built := by simp

def driftingEntry (id : String) (late : Fin 3) : RenditionEntry RenditionFile :=
  videoEntry id (driftingAsset late)

/-- The first rendition cuts at one and a half seconds, the others half a
second later and half a second sooner. -/
def driftingVideo : List (RenditionEntry RenditionFile) :=
  [driftingEntry "720p" ⟨1, by decide⟩, driftingEntry "480p" ⟨2, by decide⟩,
    driftingEntry "360p" ⟨0, by decide⟩]

/-- Each is half a second from the first, one sample, and the two are a second
apart. -/
theorem accepted_renditions_a_second_apart :
    checkAlignment driftingVideo = .ok () ∧
      ¬ ∀ a ∈ driftingVideo, ∀ b ∈ driftingVideo, LineUp a b := by
  refine ⟨by decide, fun hall => ?_⟩
  obtain ⟨tableA, tableB, hA, hB, hlines⟩ := hall (driftingEntry "480p" 2)
    (by simp [driftingVideo]) (driftingEntry "360p" 0) (by simp [driftingVideo])
  have htimesA : (driftingEntry "480p" 2).timetable =
      .ok ⟨[0, 2000], 500⟩ := by decide
  have htimesB : (driftingEntry "360p" 0).timetable =
      .ok ⟨[0, 1000], 500⟩ := by decide
  obtain rfl := Except.ok.inj (htimesA.symm.trans hA)
  obtain rfl := Except.ok.inj (htimesB.symm.trans hB)
  have hnear := hlines.near 1 2000 1000 rfl rfl
  norm_num at hnear

end Segmentor
