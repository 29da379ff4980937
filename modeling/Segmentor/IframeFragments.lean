import Segmentor.PreparedSegments
import Segmentor.RenderedTitles
import Segmentor.SampleSlices

/-!
# Keyframes as segments

An I-frame playlist lists the sync samples of the video track, each as a
fragment of its own.  The playlist walks the sync samples and a request looks
one of them up; both see the same samples, so the entries are the fragments
that can be asked for, as far as their payload may be served.
-/

namespace Segmentor

open General

/-! ## Asking for a keyframe -/

/-- Why an asset's keyframes are not served on their own. -/
def PackagedAsset.offersIframes (asset : PackagedAsset) : Result Unit :=
  if asset.aes128.isSome then
    .error (.notFound "an AES-128 asset has no I-frame playlist")
  else if asset.encryption.any Encryption.isRotating then
    .error (.notFound "an asset with key periods has no I-frame playlist")
  else if asset.decryption ≠ [] then
    .error (.notFound "a decrypted source has no I-frame playlist yet")
  else .ok ()

def PackagedAsset.video (asset : PackagedAsset) : Option Track :=
  asset.index.tracks.find? fun track => track.kind == .video

/-- The one sample a keyframe's fragment holds. -/
def iframePart (track : Track) (position : ℕ) : TrackSegment where
  trackId := track.id
  firstSample := position
  endSample := position + 1
  decodeTime := (track.samples.get position).decodeTime
  duration := (track.samples.get position).duration

/-- The fragment holding only keyframe `frameIndex` of the video track. -/
def PackagedAsset.prepareIframe (asset : PackagedAsset) (frameIndex : ℕ) :
    Result PendingSegment := do
  let () ← asset.offersIframes
  let track ← okOr asset.video (.notFound "asset has no video track")
  let position ← okOr (track.samples.nthSync frameIndex)
    (.notFound "keyframe does not exist")
  let sequenceNumber ← okOr (checkedAdd (2 ^ 32) frameIndex 1)
    (.invalidMedia "sequence number overflow")
  let prepared ← Segmentor.prepareMediaSegment track
    (iframePart track position) sequenceNumber asset.limits
  .ok (asset.withEncryption track (iframePart track position) sequenceNumber
    prepared)

namespace Title

def noIframes : Error :=
  .notFound "a sequence has no I-frame playlist"

def hlsIframePlaylist : Title → Result (List TaggedLines.Line)
  | .single file subtitles => do
      let () ← file.asset.offersIframes
      singleIframes (singlePresentation file subtitles)
  | .composite title => title.hlsIframes
  | .sequence _ | .adaptive _ => .error noIframes

/-- The file keyframes are read from. -/
def iframeFile : Title → Result RenditionFile
  | .single file _ => .ok file
  | .composite title => okOr title.iframeSource
      (.invalidMedia "an adaptive asset needs at least one video rendition")
  | .sequence _ | .adaptive _ => .error noIframes

def prepareIframe (title : Title) (frameIndex : ℕ) :
    Result PendingSegment := do
  let file ← title.iframeFile
  file.asset.prepareIframe frameIndex

/-- The version in the playlist's URLs. -/
def version : Title → String
  | .single file _ => file.asset.version
  | .composite title => title.version
  | .sequence title => title.version
  | .adaptive title => title.version

/-- Keys for protected sources are refused for renditions. -/
def PlainRenditions : Title → Prop
  | .composite title =>
      ∀ entry ∈ title.grid.video, entry.asset.asset.decryption = []
  | _ => True

end Title

/-! ## The entries -/

/-- One entry: a duration and the URI of a keyframe's fragment. -/
def iframeEntry (timescale : ℕ) (version : String) (frame : Keyframe)
    (index : ℕ) : List TaggedLines.Line :=
  extinf (frame.interval * 1000 / timescale)
    ("iframes/".toList ++ decimal index ++ "/media.m4s".toList) version

/-- A line that is not the URI of an entry. -/
def IsTagLine : TaggedLines.Line → Prop
  | .tag _ _ => True
  | .text raw => raw.head? = some '#'

/-- The playlist lists an entry for each of the frames, in order. -/
def ListsFrames (timescale : ℕ) (version : String) (frames : List Keyframe)
    (lines : List TaggedLines.Line) : Prop :=
  ∃ opening, (∀ line ∈ opening, IsTagLine line) ∧
    lines = opening ++
      frames.zipIdx.flatMap (fun (frame, index) =>
        iframeEntry timescale version frame index) ++
      [hlsLine "#EXT-X-ENDLIST"]

theorem isTagLine_hlsLine {text : String}
    (h : text.toList.head? = some '#') : IsTagLine (hlsLine text) := h

theorem isTagLine_mediaOpening (target : ℕ) :
    ∀ line ∈ mediaOpening target, IsTagLine line := by
  intro line hline
  simp only [mediaOpening, playlistOpening, List.mem_append, List.mem_cons,
    List.not_mem_nil, or_false] at hline
  rcases hline with (rfl | rfl) | rfl | rfl | rfl
  · exact isTagLine_hlsLine (by decide)
  · exact isTagLine_hlsLine (by decide)
  · rfl
  · exact isTagLine_hlsLine (by decide)
  · exact isTagLine_hlsLine (by decide)

/-- Key lines are tags. -/
theorem isTagLine_keyLines (presentation : Presentation) (track : Track)
    (version : String) :
    ∀ line ∈ playlistLines version (keyLines presentation track),
      IsTagLine line := by
  have hkey : ∀ key : KeyLine, ∀ line ∈ PlaylistLine.lines version (.key key),
      IsTagLine line := by
    intro key line hline
    obtain rfl := List.mem_singleton.mp hline
    cases key <;> trivial
  intro line hline
  obtain ⟨entry, hentry, hline⟩ := List.mem_flatMap.mp hline
  unfold keyLines keyTransitionLines at hentry
  split at hentry
  · obtain ⟨key, -, rfl⟩ := List.mem_map.mp hentry
    exact hkey key line hline
  · simp at hentry

theorem iframePlaylist_eq_some {presentation : MediaPresentation}
    {lines : List TaggedLines.Line}
    (h : Hls.iframePlaylist presentation = .ok (some lines)) :
    presentation.aes128 = none ∧ presentation.rotating = false ∧
      ∃ track frames, presentation.video = some track ∧
        keyframes track = .ok frames ∧
        ListsFrames track.timescale presentation.version frames lines := by
  unfold Hls.iframePlaylist at h
  split at h
  · cases h
  next track hvideo =>
  split at h
  · cases h
  next hoffered =>
  simp only [Bool.or_eq_true, not_or, Bool.not_eq_true,
    Option.isSome_eq_false_iff, Option.isNone_iff_eq_none] at hoffered
  refine ⟨hoffered.1.1, hoffered.1.2, ?_⟩
  obtain ⟨frames, hframes, h⟩ := bind_eq_ok_iff.mp h
  obtain ⟨entries, hentries, h⟩ := bind_eq_ok_iff.mp h
  obtain rfl := Option.some.inj (Except.ok.inj h)
  refine ⟨track, frames, hvideo, hframes,
    mediaOpening (((frames.map fun frame =>
      (frame.interval + track.timescale - 1) / track.timescale).max?).getD 1)
        ++ [hlsLine "#EXT-X-I-FRAMES-ONLY"] ++
      playlistLines presentation.version
        (keyLines presentation.toPresentation track) ++
      [mapLine "init.mp4".toList presentation.version], ?_, ?_⟩
  · intro line hline
    simp only [List.mem_append, List.mem_singleton] at hline
    rcases hline with ((hline | rfl) | hline) | rfl
    · exact isTagLine_mediaOpening _ line hline
    · exact isTagLine_hlsLine (by decide)
    · exact isTagLine_keyLines _ _ _ line hline
    · trivial
  · have hflatten : entries.flatten =
        frames.zipIdx.flatMap fun (frame, index) =>
          iframeEntry track.timescale presentation.version frame index := by
      have hall := mapM_forall₂ hentries
      generalize frames.zipIdx = numbered at hall ⊢
      clear * - hall
      induction hall with
      | nil => rfl
      | cons hentry _ ih =>
          obtain ⟨milliseconds, hmilliseconds, hentry⟩ :=
            bind_eq_ok_iff.mp hentry
          obtain ⟨scaled, hscaled, hdivided⟩ :=
            Option.bind_eq_some_iff.mp (okOr_eq_ok_iff.mp hmilliseconds)
          obtain ⟨-, rfl⟩ := checkedMul_eq_some_iff.mp hscaled
          obtain ⟨-, rfl⟩ := checkedDiv_eq_some_iff.mp hdivided
          obtain rfl := Except.ok.inj hentry
          rw [List.flatten_cons, List.flatMap_cons, ih]
          rfl
    rw [hflatten]

/-! ## Intervals -/

/-- Each element with the next one. -/
def followed {α : Type} (l : List α) : List (α × Option α) :=
  l.zip (((l.drop 1).map some).concat none)

theorem followed_cons {α : Type} (a : α) (l : List α) :
    followed (a :: l) = (a, l.head?) :: followed l := by
  cases l <;> simp [followed]

@[simp] theorem length_followed {α : Type} (l : List α) :
    (followed l).length = l.length := by
  induction l with
  | nil => rfl
  | cons a l ih => rw [followed_cons, List.length_cons, ih, List.length_cons]

/-- The frame stays on screen from its sample to the next one, or to the end
of the track. -/
structure Keyframe.Spans (samples : SampleIndex) (stop : ℕ)
    (entry : ℕ × Option ℕ) (frame : Keyframe) : Prop where
  interval_eq : frame.interval + (samples.get entry.1).decodeTime =
    (entry.2.map fun next => (samples.get next).decodeTime).getD stop
  bytes_eq : frame.bytes = (samples.get entry.1).size

/-- Intervals that reach from each sample to the next add up to the time from
the first to the end. -/
theorem sum_intervals {samples : SampleIndex} {stop : ℕ} {sync : List ℕ}
    {frames : List Keyframe}
    (h : List.Forall₂ (Keyframe.Spans samples stop) (followed sync) frames) :
    ∀ first ∈ sync.head?, (frames.map Keyframe.interval).sum +
      (samples.get first).decodeTime = stop := by
  induction sync generalizing frames with
  | nil => simp
  | cons index sync ih =>
      intro first hfirst
      obtain rfl := Option.some.inj hfirst
      rw [followed_cons] at h
      cases h with
      | @cons _ frame _ frames hframe hrest =>
          have hinterval := hframe.interval_eq
          rw [List.map_cons, List.sum_cons]
          cases hsync : sync.head? with
          | none =>
              obtain rfl := List.head?_eq_none_iff.mp hsync
              cases hrest
              simpa [hsync] using hinterval
          | some next =>
              have hsum := ih hrest next hsync
              rw [hsync] at hinterval
              simp only [Option.map_some, Option.getD_some] at hinterval
              omega

theorem Track.holds_samples (track : Track) :
    track.samples.Holds track.samples.all :=
  ⟨track.samples_valid.readable, rfl⟩

theorem keyframes_eq_ok {track : Track} {frames : List Keyframe}
    (h : keyframes track = .ok frames) :
    ∃ last, track.samples.all.getLast? = some last ∧
      List.Forall₂ (Keyframe.Spans track.samples
          (last.decodeTime + last.duration))
        (followed (syncPositions track.samples.all)) frames := by
  unfold keyframes at h
  obtain ⟨last, hlast, h⟩ := bind_eq_ok_iff.mp h
  obtain ⟨stop, hstop, h⟩ := bind_eq_ok_iff.mp h
  obtain ⟨-, rfl⟩ := checkedAdd_eq_some_iff.mp (okOr_eq_ok_iff.mp hstop)
  rw [track.holds_samples.syncIndices_eq] at h
  refine ⟨last, ?_, (mapM_forall₂ h).imp ?_⟩
  · have hlen := track.samples_nonempty
    rw [SampleIndex.last, checkedSub_eq_some_iff.mpr ⟨hlen, rfl⟩,
      Option.map_some] at hlast
    rw [List.getLast?_eq_getElem?, SampleIndex.length_all,
      SampleIndex.getElem?_all (by omega)]
    exact okOr_eq_ok_iff.mp hlast
  · rintro ⟨index, next⟩ frame hframe
    obtain ⟨interval, hinterval, hframe⟩ := bind_eq_ok_iff.mp hframe
    obtain ⟨hle, rfl⟩ :=
      checkedSub_eq_some_iff.mp (okOr_eq_ok_iff.mp hinterval)
    obtain rfl := Except.ok.inj hframe
    refine ⟨?_, rfl⟩
    cases next <;> exact Nat.sub_add_cancel hle

/-! ## Fragments of one sample -/

/-- The sample is not too large to be sent in a fragment of its own. -/
structure FitsFragment (limits : LimitsConfig) (sample : Sample) : Prop where
  size_le : sample.size ≤ limits.maxSegmentBytes
  box_lt : sample.size + 8 < 2 ^ 32

theorem writeBox_of_lt {name payload : List UInt8}
    (h : payload.length + 8 < 2 ^ 32) :
    writeBox name payload = .ok (boxBytes name payload) :=
  writeBox_eq_ok_iff.mpr ⟨h, rfl⟩

/-- The `moof` of one sample is always written, and always as long. -/
theorem buildMoof_single (track : Track) (sample : Sample)
    (decodeTime sequenceNumber : ℕ) (dataOffset : ℤ) :
    ∃ moof, buildMoof track.id track.kind [sample] decodeTime sequenceNumber
      dataOffset [] [] = .ok moof ∧ moof.length = 104 := by
  have hentry : (trunEntry track.kind sample).length = 16 := by
    simp [trunEntry]
  unfold buildMoof buildTraf moofOf
  dsimp only
  rw [if_neg (by simp), writeBox_of_lt (by simp [writeFullBoxFields]),
    ok_bind, writeBox_of_lt (by simp [writeFullBoxFields]), ok_bind,
    writeBox_of_lt (by simp [writeFullBoxFields, hentry]), ok_bind,
    writeBox_of_lt (by simp [writeFullBoxFields, hentry]), ok_bind,
    writeBox_of_lt (by simp [writeFullBoxFields]), ok_bind,
    writeBox_of_lt (by simp [writeFullBoxFields, hentry])]
  exact ⟨_, rfl, by simp [writeFullBoxFields, hentry]⟩

/-- The part of the keyframe at `position` is that sample. -/
theorem toVec_iframePart {track : Track} {position : ℕ}
    (h : position < track.samples.len) :
    track.samples.toVec (iframePart track position).firstSample
        (iframePart track position).endSample =
      [track.samples.get position] := by
  have hlen : position < track.samples.all.length := by
    rwa [SampleIndex.length_all]
  have hget : track.samples.all[position] = track.samples.get position :=
    Option.some.inj
      ((List.getElem?_eq_getElem hlen).symm.trans (SampleIndex.getElem?_all h))
  change track.samples.toVec position (position + 1) = _
  rw [track.samples_valid.toVec_eq (Nat.le_add_right ..) h, List.drop_take,
    Nat.add_sub_cancel_left, List.drop_eq_getElem_cons hlen, hget]
  rfl

theorem payloadLength_single {sample : Sample} (h : sample.Fits) :
    payloadLength [sample] = .ok sample.size := by
  have hadd : checkedAdd (2 ^ 64) 0 sample.size = some sample.size := by
    have hsize := h.size_lt
    exact checkedAdd_eq_some_iff.mpr ⟨by omega, Nat.zero_add _⟩
  unfold payloadLength
  rw [List.foldlM_cons, hadd]
  rfl

theorem closeHeader_succeeds {moof : List UInt8} {payload : ℕ}
    (hmoof : moof.length < 2 ^ 32) (hbox : payload + 8 < 2 ^ 32) :
    ∃ closed, closeHeader moof payload = .ok closed := by
  unfold closeHeader writeBoxHeader
  rw [if_pos hbox, ok_bind]
  dsimp only
  rw [checkedAdd_eq_some_iff.mpr ⟨by simp [code]; omega, rfl⟩]
  exact ⟨_, rfl⟩

/-- One sample makes a fragment where it is not too large. -/
theorem prepareMediaSegment_single {track : Track} {position : ℕ}
    (h : position < track.samples.len) (sequenceNumber : ℕ)
    (limits : LimitsConfig) :
    (FitsFragment limits (track.samples.get position) →
      ∃ prepared, prepareMediaSegment track (iframePart track position)
        sequenceNumber limits = .ok prepared) ∧
    (¬ FitsFragment limits (track.samples.get position) →
      ∃ message, prepareMediaSegment track (iframePart track position)
        sequenceNumber limits = .error (.invalidMedia message)) := by
  have hrange : ¬ ((iframePart track position).endSample <
      (iframePart track position).firstSample ∨
        track.samples.len < (iframePart track position).endSample) := by
    change ¬ (position + 1 < position ∨ track.samples.len < position + 1)
    omega
  have hfits := track.samples_valid.get_fits h
  obtain ⟨first, hfirst, hlength⟩ := buildMoof_single track
    (track.samples.get position) (iframePart track position).decodeTime
    sequenceNumber 0
  obtain ⟨moof, hmoof, hmoofLength⟩ := buildMoof_single track
    (track.samples.get position) (iframePart track position).decodeTime
    sequenceNumber (104 + 8 : ℕ)
  unfold prepareMediaSegment
  rw [if_neg hrange, toVec_iframePart h]
  dsimp only
  rw [if_neg (by simp), hfirst, ok_bind, hlength, signedOffset,
    if_pos (by decide), ok_bind, hmoof, ok_bind,
    payloadLength_single hfits, ok_bind]
  by_cases hmax : limits.maxSegmentBytes < (track.samples.get position).size
  · rw [if_pos hmax]
    exact ⟨fun hfits => absurd hfits.size_le (by omega), fun _ => ⟨_, rfl⟩⟩
  rw [if_neg hmax]
  by_cases hbox : (track.samples.get position).size + 8 < 2 ^ 32
  · obtain ⟨closed, hclosed⟩ := @closeHeader_succeeds moof _ (by omega) hbox
    rw [hclosed]
    exact ⟨fun _ => ⟨_, rfl⟩, fun hlarge => absurd ⟨by omega, hbox⟩ hlarge⟩
  · unfold closeHeader writeBoxHeader
    rw [if_neg hbox]
    exact ⟨fun hlarge => absurd hlarge.box_lt hbox, fun _ => ⟨_, rfl⟩⟩

/-! ## Entries and fragments -/

/-- The fragment holds one sample of the track, and nothing else: it is read
back as that sample, at its own decode time, wherever its bytes are. -/
structure HoldsKeyframe (track : Track) (position : ℕ)
    (prepared : PreparedSegment) : Prop where
  payload_eq : ∀ source, prepared.ranges.flatMap (readRange source) =
    sampleBytes source (track.samples.get position)
  recovered : ∀ source limits defaults, Loaded source limits track →
    ∃ found,
      trackSamples [⟨0, prepared.header⟩]
        { trackId := track.id
          defaults := defaults
          sourceLen := prepared.contentLength
          limits := limits } = .ok [found] ∧
      found.decodeTime = (track.samples.get position).decodeTime ∧
      SameSample source (prepared.served source) track.kind
        (track.samples.get position) found

theorem holdsKeyframe {track : Track} {position : ℕ}
    (h : position < track.samples.len) {sequenceNumber : ℕ}
    {limits : LimitsConfig} {prepared : PreparedSegment}
    (hprepared : prepareMediaSegment track (iframePart track position)
      sequenceNumber limits = .ok prepared) :
    HoldsKeyframe track position prepared := by
  obtain ⟨hsamples, hend, hwritten, hranges⟩ :=
    prepareMediaSegment_written hprepared
  have hexpand : (expand (track, iframePart track position)).samples =
      [track.samples.get position] := toVec_iframePart h
  constructor
  · intro source
    rw [hranges, hexpand]
    exact List.append_nil _
  · intro source limits defaults hloaded
    have hall := @forall_recovered_iff source limits defaults _
      [(track, iframePart track position)] hwritten (List.nodup_singleton _)
      (by simpa using hranges source) (by simpa using hloaded)
      (by simpa using ⟨Nat.le_succ position, hend⟩)
    obtain ⟨found, hfound, htime, hsame⟩ := hall.2.mpr
      (decodeTimesFit_singleton hsamples hend rfl) _ (List.mem_singleton.mpr rfl)
    rw [toVec_iframePart h] at hsame
    cases hsame with
    | @cons _ sample _ _ hsample hrest =>
        cases hrest
        exact ⟨sample, hfound, Option.some.inj htime, hsample⟩

/-- What a request for entry `index`, the keyframe at `position`, is answered
with. -/
structure AnswersKeyframe (asset : PackagedAsset) (track : Track)
    (index position : ℕ) (answer : Result PendingSegment) : Prop where
  served : index + 1 < 2 ^ 32 →
    FitsFragment asset.limits (track.samples.get position) →
    ∃ prepared, HoldsKeyframe track position prepared ∧
      answer = .ok (asset.withEncryption track (iframePart track position)
        (index + 1) prepared)
  refused : ¬ (index + 1 < 2 ^ 32 ∧
    FitsFragment asset.limits (track.samples.get position)) →
    ∃ message, answer = .error (.invalidMedia message)

theorem nthSync_eq (track : Track) (index : ℕ) :
    track.samples.nthSync index = (syncPositions track.samples.all)[index]? :=
  track.holds_samples.agrees.nthSync_eq index

theorem syncPositions_lt {track : Track} {position : ℕ}
    (h : position ∈ syncPositions track.samples.all) :
    position < track.samples.len := by
  have hrange := List.mem_range.mp (List.mem_of_mem_filter h)
  rwa [SampleIndex.length_all] at hrange

theorem answersKeyframe {asset : PackagedAsset} {track : Track}
    {index position : ℕ} (hoffers : asset.offersIframes = .ok ())
    (hvideo : asset.video = some track)
    (h : (syncPositions track.samples.all)[index]? = some position) :
    AnswersKeyframe asset track index position
      (asset.prepareIframe index) := by
  have hlt := syncPositions_lt (List.mem_of_getElem? h)
  have hprepare : asset.prepareIframe index = (do
      let sequenceNumber ← okOr (checkedAdd (2 ^ 32) index 1)
        (.invalidMedia "sequence number overflow")
      let prepared ← Segmentor.prepareMediaSegment track
        (iframePart track position) sequenceNumber asset.limits
      .ok (asset.withEncryption track (iframePart track position)
        sequenceNumber prepared)) := by
    unfold PackagedAsset.prepareIframe
    rw [hoffers, ok_bind, hvideo, okOr_some, ok_bind, nthSync_eq, h, okOr_some,
      ok_bind]
  obtain ⟨hfits, hlarge⟩ := prepareMediaSegment_single hlt (index + 1)
    asset.limits
  constructor
  · intro hindex hsample
    obtain ⟨prepared, hprepared⟩ := hfits hsample
    refine ⟨prepared, holdsKeyframe hlt hprepared, ?_⟩
    rw [hprepare, checkedAdd_eq_some_iff.mpr ⟨hindex, rfl⟩, okOr_some, ok_bind,
      hprepared, ok_bind]
  · intro hrefused
    rw [hprepare]
    by_cases hindex : index + 1 < 2 ^ 32
    · obtain ⟨message, hmessage⟩ := hlarge fun hsample =>
        hrefused ⟨hindex, hsample⟩
      rw [checkedAdd_eq_some_iff.mpr ⟨hindex, rfl⟩, okOr_some, ok_bind,
        hmessage]
      exact ⟨message, rfl⟩
    · have hadd : checkedAdd (2 ^ 32) index 1 = none := by
        unfold checkedAdd
        exact if_neg hindex
      rw [hadd]
      exact ⟨_, rfl⟩

theorem prepareIframe_beyond {asset : PackagedAsset} {track : Track}
    {index : ℕ} (hoffers : asset.offersIframes = .ok ())
    (hvideo : asset.video = some track)
    (h : (syncPositions track.samples.all).length ≤ index) :
    asset.prepareIframe index =
      .error (.notFound "keyframe does not exist") := by
  unfold PackagedAsset.prepareIframe
  rw [hoffers, ok_bind, hvideo, okOr_some, ok_bind, nthSync_eq,
    List.getElem?_eq_none h]
  rfl

/-- The view an I-frame playlist is written from, and the file its fragments
are read from. -/
theorem hlsIframePlaylist_eq_ok {title : Title} {lines : List TaggedLines.Line}
    (hplain : title.PlainRenditions)
    (h : title.hlsIframePlaylist = .ok lines) :
    ∃ file presentation, title.iframeFile = .ok file ∧
      file.asset.offersIframes = .ok () ∧
      presentation.video = file.asset.video ∧
      presentation.version = title.version ∧
      Hls.iframePlaylist presentation = .ok (some lines) := by
  cases title with
  | single file subtitles =>
      obtain ⟨⟨⟩, hoffers, h⟩ := bind_eq_ok_iff.mp h
      obtain ⟨playlist, hplaylist, h⟩ := bind_eq_ok_iff.mp h
      obtain rfl := okOr_eq_ok_iff.mp h
      exact ⟨file, _, rfl, hoffers, rfl, rfl, hplaylist⟩
  | composite title =>
      obtain ⟨source, hsource, h⟩ := bind_eq_ok_iff.mp h
      obtain ⟨playlist, hplaylist, h⟩ := bind_eq_ok_iff.mp h
      obtain rfl := okOr_eq_ok_iff.mp h
      obtain ⟨file, hfile, rfl⟩ :=
        Option.map_eq_some_iff.mp (okOr_eq_ok_iff.mp hsource)
      obtain ⟨haes128, hrotating, -⟩ := iframePlaylist_eq_some hplaylist
      obtain ⟨entry, hentry, rfl⟩ := List.mem_map.mp (List.argmin_mem hfile)
      refine ⟨entry.asset, _, okOr_eq_ok_iff.mpr hfile, ?_, rfl, rfl,
        hplaylist⟩
      have hclear := hplain entry hentry
      change entry.asset.asset.aes128 = none at haes128
      change entry.asset.asset.encryption.any Encryption.isRotating = false
        at hrotating
      simp [PackagedAsset.offersIframes, haes128, hrotating, hclear]
  | sequence => cases h
  | adaptive => cases h

/-- The I-frame playlist has one entry for each sync sample of the video
track, in order.  Each entry is answered with a fragment of that sample alone,
where the sample may be sent in one, and nothing is found past the last.  The
entries last from the first keyframe to the end of the track. -/
theorem iframe_entries_answered {title : Title}
    {lines : List TaggedLines.Line} (hplain : title.PlainRenditions)
    (h : title.hlsIframePlaylist = .ok lines) :
    ∃ file track last frames, title.iframeFile = .ok file ∧
      file.asset.video = some track ∧
      track.samples.all.getLast? = some last ∧
      ListsFrames track.timescale title.version frames lines ∧
      List.Forall₂ (Keyframe.Spans track.samples
          (last.decodeTime + last.duration))
        (followed (syncPositions track.samples.all)) frames ∧
      frames.length = (syncPositions track.samples.all).length ∧
      (∀ index position,
        (syncPositions track.samples.all)[index]? = some position →
        AnswersKeyframe file.asset track index position
          (title.prepareIframe index)) ∧
      (∀ index, frames.length ≤ index → title.prepareIframe index =
        .error (.notFound "keyframe does not exist")) ∧
      ∀ first ∈ (syncPositions track.samples.all).head?,
        (frames.map Keyframe.interval).sum +
            (track.samples.get first).decodeTime =
          last.decodeTime + last.duration := by
  obtain ⟨file, presentation, hfile, hoffers, hsame, hversion, hplaylist⟩ :=
    hlsIframePlaylist_eq_ok hplain h
  obtain ⟨-, -, track, frames, hvideo, hframes, hlists⟩ :=
    iframePlaylist_eq_some hplaylist
  obtain ⟨last, hlast, hspans⟩ := keyframes_eq_ok hframes
  rw [hsame] at hvideo
  rw [hversion] at hlists
  have hlength := hspans.length_eq
  rw [length_followed] at hlength
  have hprepare : title.prepareIframe = file.asset.prepareIframe := by
    funext index
    unfold Title.prepareIframe
    rw [hfile, ok_bind]
  rw [hprepare]
  exact ⟨file, track, last, frames, hfile, hvideo, hlast, hlists, hspans,
    hlength.symm, fun _ _ => answersKeyframe hoffers hvideo,
    fun index hindex =>
      prepareIframe_beyond hoffers hvideo (hlength ▸ hindex),
    sum_intervals hspans⟩

/-- Four frames a second apart; the third is a keyframe of twelve bytes. -/
def unevenTrack : Track :=
  .checked 1 .video 1000
    (.new ⟨[9, 2, 12, 2], [⟨0, 0⟩], [⟨0, 0, 1000⟩], [], some [0, 2]⟩)
    (by decide)

def unevenIndex : MediaIndex where
  tracks := [unevenTrack]
  ids_unique := by decide

/-- The track with segments of at most ten bytes. -/
def unevenFile : RenditionFile where
  asset :=
    { index := unevenIndex
      plan := ⟨[⟨0, [⟨1, 0, 2, 0, 2000⟩]⟩, ⟨1, [⟨1, 2, 4, 2000, 2000⟩]⟩]⟩
      limits := { maxSegmentBytes := 10 }
      version := "0123456789abcdef"
      protection := none
      aes128 := none
      decryption := []
      muxed := none
      planned := ⟨1000, by decide⟩
      protection_built := by simp }
  details := fun _ =>
    { language := "und".toList
      label := none
      duration := 4000
      codec := .avc 640 360 100 0 31 }
  audioDefault := false

def unevenLines : List TaggedLines.Line :=
  mediaOpening 2 ++ [hlsLine "#EXT-X-I-FRAMES-ONLY",
    mapLine "init.mp4".toList "0123456789abcdef"] ++
    extinf 2000 "iframes/0/media.m4s".toList "0123456789abcdef" ++
    extinf 2000 "iframes/1/media.m4s".toList "0123456789abcdef" ++
    [hlsLine "#EXT-X-ENDLIST"]

theorem hlsIframePlaylist_uneven :
    (Title.single unevenFile []).hlsIframePlaylist = .ok unevenLines := by
  decide +kernel

/-- The second entry is listed and refused for its size. -/
theorem listed_keyframe_refused :
    (Title.single unevenFile []).hlsIframePlaylist = .ok unevenLines ∧
      (syncPositions unevenTrack.samples.all) = [0, 2] ∧
      (Title.single unevenFile []).prepareIframe 1 =
        .error (.invalidMedia "segment payload exceeds configured limit") ∧
      ¬ ∀ title : Title, title.PlainRenditions →
        ∀ lines, title.hlsIframePlaylist = .ok lines →
        ∀ file track, title.iframeFile = .ok file →
          file.asset.video = some track →
        ∀ index position,
          (syncPositions track.samples.all)[index]? = some position →
          ∃ prepared, HoldsKeyframe track position prepared ∧
            title.prepareIframe index = .ok (file.asset.withEncryption track
              (iframePart track position) (index + 1) prepared) := by
  have hrefused : (Title.single unevenFile []).prepareIframe 1 =
      .error (.invalidMedia "segment payload exceeds configured limit") := by
    rfl
  refine ⟨hlsIframePlaylist_uneven, by decide, hrefused,
    fun hall => ?_⟩
  obtain ⟨prepared, -, hserved⟩ := hall (.single unevenFile []) trivial _
    hlsIframePlaylist_uneven unevenFile unevenTrack rfl rfl 1 2
    (by decide)
  rw [hrefused] at hserved
  cases hserved

theorem iframe_entries_answered_uneven :
    ∃ frames, ListsFrames 1000 "0123456789abcdef" frames unevenLines ∧
      frames.length = 2 ∧
      AnswersKeyframe unevenFile.asset unevenTrack 0 0
        ((Title.single unevenFile []).prepareIframe 0) ∧
      ∀ index, 2 ≤ index → (Title.single unevenFile []).prepareIframe index =
        .error (.notFound "keyframe does not exist") := by
  obtain ⟨file, track, last, frames, hfile, hvideo, -, hlists, -, hlength,
      hanswers, hbeyond, -⟩ :=
    @iframe_entries_answered (.single unevenFile []) _ trivial
      hlsIframePlaylist_uneven
  obtain rfl : unevenFile = file := Except.ok.inj hfile
  obtain rfl : unevenTrack = track := Option.some.inj hvideo
  have hsync : syncPositions unevenTrack.samples.all = [0, 2] := by
    decide
  rw [hsync] at hlength hanswers
  exact ⟨frames, hlists, hlength, hanswers 0 0 rfl,
    fun index hindex => hbeyond index (hlength.symm ▸ hindex)⟩

end Segmentor
