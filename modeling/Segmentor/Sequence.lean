import Segmentor.General.Numbering
import Segmentor.ListedSegments

/-!
# Clip sequences and initialization vectors

A sequence plays its clips one after the other.  Its segments are numbered on
from clip to clip by the clips' plans, and its playlists list the segments
each track has, so a number is a position in a playlist only while no earlier
clip's plan has segments the track has no part in.  The number decides the
initialization vector a whole-encrypted segment is served with, the position
the one a player derives.
-/

namespace Segmentor

open General

/-- How many segments a playlist of the asset lists for the track. -/
def PackagedAsset.listedCount (asset : PackagedAsset) (key : TrackKey) : ℕ :=
  match asset.track key with
  | .ok track => (asset.plan.trackSegments track.id).length
  | .error _ => 0

theorem listedCount_eq {asset : PackagedAsset} {key : TrackKey} {track : Track}
    (htrack : asset.presentation.track key = .ok track) :
    asset.listedCount key =
      (asset.presentation.trackSegments track.id).length := by
  unfold PackagedAsset.listedCount PackagedAsset.track
  rw [htrack]
  rfl

def PackagedAsset.segmentCount (asset : PackagedAsset) : ℕ :=
  asset.plan.segments.length

/-! ## Sequences -/

/-- The number of each clip's first segment, the first clip's being `next`. -/
def numberClips : ℕ → List PackagedAsset → Result (List ℕ)
  | _, [] => .ok []
  | next, asset :: rest => do
      let following ← okOr
        (if asset.segmentCount < 2 ^ 32 then
          checkedAdd (2 ^ 32) next asset.segmentCount
        else none)
        (.invalidMedia "a sequence has too many segments")
      let others ← numberClips following rest
      .ok (next :: others)

structure SequenceAsset where
  clips : List PackagedAsset
  firstSegments : List ℕ
  numbered : numberClips 0 clips = .ok firstSegments

namespace SequenceAsset

/-- The clips as the renderers see them. -/
def views (sequence : SequenceAsset) : List SequenceClip :=
  (sequence.clips.zip sequence.firstSegments).map fun (clip, firstSegment) =>
    ⟨clip.presentation, firstSegment⟩

def mediaPlaylist (sequence : SequenceAsset) (key : TrackKey) :
    Result (List PlaylistLine) :=
  match sequence.clips with
  | clip :: _ =>
      if clip.index.tracks.any fun track => track.key == key then
        sequenceMediaPlaylist sequence.views key
      else .error (.notFound "track does not exist")
  | [] => .error (.notFound "track does not exist")

/-- The clip that global segment `segmentIndex` belongs to. -/
def clipOf (sequence : SequenceAsset) (segmentIndex : ℕ) : ℕ :=
  partitionPoint (fun first => decide (first ≤ segmentIndex))
    sequence.firstSegments - 1

/-- The fragment for global segment `segmentIndex`.  The first clip starts at
zero, so the lookups always find a clip. -/
def prepareSegment (sequence : SequenceAsset) (key : TrackKey)
    (segmentIndex : ℕ) : Result PendingSegment :=
  let clip := sequence.clipOf segmentIndex
  match sequence.clips[clip]?, sequence.firstSegments[clip]? with
  | some asset, some first =>
      asset.prepareNumberedSegment key (segmentIndex - first)
        (saturatingAdd (2 ^ 32) segmentIndex 1)
  | _, _ => .error (.notFound "segment does not exist")

end SequenceAsset

/-! ## Numbers of the clips -/

def totalSegments (clips : List PackagedAsset) : ℕ :=
  (clips.map PackagedAsset.segmentCount).sum

def totalListed (key : TrackKey) (clips : List PackagedAsset) : ℕ :=
  (clips.map fun clip => clip.listedCount key).sum

/-- Where each clip's numbers start, the first clip's at `base`. -/
def clipStarts : ℕ → List PackagedAsset → List ℕ
  | _, [] => []
  | base, clip :: rest => base :: clipStarts (base + clip.segmentCount) rest

@[simp] theorem length_clipStarts (base : ℕ) (clips : List PackagedAsset) :
    (clipStarts base clips).length = clips.length := by
  induction clips generalizing base with
  | nil => rfl
  | cons clip clips ih => simp [clipStarts, ih]

theorem clipStarts_eq (base : ℕ) (clips : List PackagedAsset) :
    clipStarts base clips =
      firstNumbers base (clips.map PackagedAsset.segmentCount) := by
  induction clips generalizing base with
  | nil => rfl
  | cons clip clips ih => rw [clipStarts, List.map_cons, firstNumbers, ih]

theorem numberClips_eq_ok {base : ℕ} {clips : List PackagedAsset}
    {starts : List ℕ} (hbase : base < 2 ^ 32)
    (h : numberClips base clips = .ok starts) :
    starts = clipStarts base clips ∧
      base + totalSegments clips < 2 ^ 32 := by
  induction clips generalizing base starts with
  | nil =>
      obtain rfl := Except.ok.inj h
      exact ⟨rfl, hbase⟩
  | cons clip clips ih =>
      unfold numberClips at h
      obtain ⟨following, hfollowing, h⟩ := bind_eq_ok_iff.mp h
      obtain ⟨others, hothers, h⟩ := bind_eq_ok_iff.mp h
      obtain rfl := Except.ok.inj h
      rw [okOr_eq_ok_iff] at hfollowing
      split at hfollowing
      · obtain ⟨hlt, rfl⟩ := checkedAdd_eq_some_iff.mp hfollowing
        obtain ⟨rfl, htotal⟩ := ih hlt hothers
        have hsum : totalSegments (clip :: clips) =
            clip.segmentCount + totalSegments clips := rfl
        exact ⟨rfl, by omega⟩
      · simp at hfollowing

theorem SequenceAsset.prepareSegment_eq {sequence : SequenceAsset}
    {before after : List PackagedAsset} {clip : PackagedAsset}
    (hclips : sequence.clips = before ++ clip :: after) (key : TrackKey)
    {offset : ℕ} (hoffset : offset < clip.segmentCount) :
    sequence.prepareSegment key (totalSegments before + offset) =
      clip.prepareNumberedSegment key offset
        (saturatingAdd (2 ^ 32) (totalSegments before + offset) 1) := by
  set counts := sequence.clips.map PackagedAsset.segmentCount with hcounts
  have hstarts : sequence.firstSegments = firstNumbers 0 counts := by
    rw [(numberClips_eq_ok (by decide) sequence.numbered).1, clipStarts_eq]
  have hbefore : (counts.take before.length).sum = totalSegments before := by
    rw [hcounts, hclips, List.map_append,
      List.take_left' (List.length_map _)]
    rfl
  have hcount : counts[before.length]? = some clip.segmentCount := by
    rw [hcounts, hclips, List.getElem?_map, List.getElem?_append_right le_rfl,
      Nat.sub_self]
    rfl
  have hclip : sequence.clipOf (totalSegments before + offset) =
      before.length := by
    have howner := @groupOf_eq 0 _ offset _ _ hcount hoffset
    rwa [Nat.zero_add, hbefore, ← hstarts] at howner
  have hfirst : sequence.firstSegments[before.length]? =
      some (totalSegments before) := by
    have hnumber := @getElem?_firstNumbers 0 before.length counts
      (List.getElem?_eq_some_iff.mp hcount).1
    rwa [Nat.zero_add, hbefore, ← hstarts] at hnumber
  unfold prepareSegment
  dsimp only
  rw [hclip, hfirst, hclips, List.getElem?_append_right le_rfl,
    Nat.sub_self, List.getElem?_cons_zero]
  dsimp only
  rw [Nat.add_sub_cancel_left]

theorem SequenceAsset.map_fst_zip (sequence : SequenceAsset) :
    (sequence.clips.zip sequence.firstSegments).map Prod.fst =
      sequence.clips := by
  rw [(numberClips_eq_ok (by decide) sequence.numbered).1]
  exact List.map_fst_zip (by simp)

/-! ## The numbers a sequence lists -/

/-- The numbers each clip lists, one clip after the other. -/
def listing (key : TrackKey) : ℕ → List PackagedAsset → List ℕ
  | _, [] => []
  | base, clip :: rest =>
      List.range' base (clip.listedCount key) ++
        listing key (base + clip.segmentCount) rest

theorem listedNumbers_clipLines {key : TrackKey} {base position : ℕ}
    {previous : Option Encryption} {clips : List PackagedAsset}
    {lines : List PlaylistLine}
    (h : clipLines key position previous
      ((clips.zip (clipStarts base clips)).map fun (clip, firstSegment) =>
        ⟨clip.presentation, firstSegment⟩) = .ok lines) :
    listedNumbers lines = listing key base clips := by
  induction clips generalizing base position previous lines with
  | nil =>
      obtain rfl := Except.ok.inj h
      rfl
  | cons clip clips ih =>
      rw [clipStarts, List.zip_cons_cons, List.map_cons] at h
      unfold clipLines at h
      obtain ⟨track, htrack, h⟩ := bind_eq_ok_iff.mp h
      dsimp only at h
      obtain ⟨entries, hentries, h⟩ := bind_eq_ok_iff.mp h
      obtain ⟨others, hothers, h⟩ := bind_eq_ok_iff.mp h
      obtain rfl := Except.ok.inj h
      have hcount := listedCount_eq htrack
      have hnone : ∀ (condition : Prop) [Decidable condition]
          (lines : List PlaylistLine), listedNumbers lines = [] →
          listedNumbers (if condition then lines else []) = [] := by
        intro condition _ lines hlines
        split
        · exact hlines
        · rfl
      simp only [listedNumbers_append, listedNumbers_writeAes128Key,
        listedNumbers_segmentEntries hentries, ih hothers, listing, hcount,
        hnone _ [hlsKeyNone] rfl, hnone _ [.discontinuity] rfl,
        hnone _ _ (listedNumbers_keyTransitionLines ..), List.append_nil,
        List.nil_append, Nat.add_zero]
      rfl

theorem SequenceAsset.mediaPlaylist_eq_ok {sequence : SequenceAsset}
    {key : TrackKey} {lines : List PlaylistLine}
    (h : sequence.mediaPlaylist key = .ok lines) :
    ∃ target clips, clipLines key 0 none sequence.views = .ok clips ∧
      lines = .opening target :: clips ++ [.endList] := by
  have hplaylist : sequenceMediaPlaylist sequence.views key = .ok lines := by
    unfold mediaPlaylist at h
    split at h
    · split at h
      · exact h
      · simp at h
    · simp at h
  unfold sequenceMediaPlaylist at hplaylist
  obtain ⟨target, -, hplaylist⟩ := bind_eq_ok_iff.mp hplaylist
  obtain ⟨clips, hclips, hplaylist⟩ := bind_eq_ok_iff.mp hplaylist
  exact ⟨target, clips, hclips, (Except.ok.inj hplaylist).symm⟩

theorem SequenceAsset.listedNumbers_mediaPlaylist {sequence : SequenceAsset}
    {key : TrackKey} {lines : List PlaylistLine}
    (h : sequence.mediaPlaylist key = .ok lines) :
    listedNumbers lines = listing key 0 sequence.clips := by
  have hnumbered := (numberClips_eq_ok (by decide) sequence.numbered).1
  obtain ⟨target, clips, hclips, rfl⟩ := mediaPlaylist_eq_ok h
  unfold views at hclips
  rw [hnumbered] at hclips
  rw [listedNumbers_append]
  change listedNumbers clips ++ [] = _
  rw [List.append_nil, listedNumbers_clipLines hclips]

/-- What is listed at a position: the segment of some clip, as many numbers
on from the clip's first as its position is from the clip's first entry. -/
theorem getElem?_listing_eq_some_iff {key : TrackKey} {base position : ℕ}
    {number : ℕ} {clips : List PackagedAsset} :
    (listing key base clips)[position]? = some number ↔
      ∃ before clip after offset, clips = before ++ clip :: after ∧
        offset < clip.listedCount key ∧
        position = totalListed key before + offset ∧
        number = base + totalSegments before + offset := by
  induction clips generalizing base position with
  | nil => simp [listing]
  | cons head clips ih =>
      have hsegments : ∀ before, totalSegments (head :: before) =
          head.segmentCount + totalSegments before := fun _ => rfl
      have hlisted : ∀ before, totalListed key (head :: before) =
          head.listedCount key + totalListed key before := fun _ => rfl
      rw [listing]
      constructor
      · intro hget
        by_cases hown : position < head.listedCount key
        · rw [List.getElem?_append_left (by simpa using hown),
            List.getElem?_range' hown] at hget
          refine ⟨[], head, clips, position, rfl, hown, ?_, ?_⟩
          · exact (Nat.zero_add position).symm
          · have := Option.some.inj hget
            change number = base + 0 + position
            omega
        · rw [List.getElem?_append_right (by simpa using hown),
            List.length_range', ih] at hget
          obtain ⟨before, clip, after, offset, rfl, hoffset, hposition, rfl⟩ :=
            hget
          refine ⟨head :: before, clip, after, offset, rfl, hoffset, ?_, ?_⟩
          · rw [hlisted]
            omega
          · rw [hsegments]
            omega
      · rintro ⟨before, clip, after, offset, hclips, hoffset, rfl, rfl⟩
        cases before with
        | nil =>
            obtain ⟨rfl, rfl⟩ := List.cons.inj hclips
            have hposition : totalListed key [] + offset = offset :=
              Nat.zero_add offset
            rw [hposition, List.getElem?_append_left (by simpa using hoffset),
              List.getElem?_range' hoffset]
            change some (base + 1 * offset) = some (base + 0 + offset)
            rw [Nat.one_mul, Nat.add_zero]
        | cons first before =>
            obtain ⟨rfl, rfl⟩ := List.cons.inj hclips
            rw [hlisted, hsegments, List.getElem?_append_right (by
              rw [List.length_range']
              omega), List.length_range']
            refine ih.mpr ⟨before, clip, after, offset, rfl, hoffset, ?_, ?_⟩
            · omega
            · rw [hsegments]
              omega

/-! ## Initialization vectors -/

/-- An asset whose segments are encrypted whole: no content keys protect
it. -/
structure PackagedAsset.EncryptedWhole (asset : PackagedAsset) : Prop where
  aes128 : asset.aes128.isSome = true
  protection : asset.protection = none

/-- The initialization vector a segment is served with. -/
def PendingSegment.iv (pending : PendingSegment) : Option (List UInt8) :=
  pending.encryption.bind PendingEncryption.iv

/-- Every segment is served with the vector a player derives from its position
in the playlist: the position, in sixteen bytes. -/
def IvsMatch (lines : List PlaylistLine)
    (prepare : ℕ → Result PendingSegment) : Prop :=
  ∀ position number, (listedNumbers lines)[position]? = some number →
    ∀ pending, prepare number = .ok pending →
      pending.iv = some (encode 16 position)

theorem Aes128.iv_eq_encode_iff {segmentIndex position : ℕ}
    (hindex : segmentIndex < 2 ^ 32) (hposition : position < 2 ^ 32) :
    Aes128.iv segmentIndex = encode 16 position ↔
      segmentIndex = position := by
  rw [iv_eq hindex]
  constructor
  · intro h
    have hdecode := congrArg decode h
    rwa [decode_encode_of_lt (by omega), decode_encode_of_lt (by omega)]
      at hdecode
  · rintro rfl
    rfl

namespace PackagedAsset

variable {asset : PackagedAsset}

theorem EncryptedWhole.withEncryption_iv (h : asset.EncryptedWhole)
    (track : Track) (segment : TrackSegment) (sequenceNumber : ℕ)
    (prepared : PreparedSegment) :
    (asset.withEncryption track segment sequenceNumber prepared).iv =
      some (Aes128.iv (sequenceNumber - 1)) := by
  obtain ⟨key, hkey⟩ := Option.isSome_iff_exists.mp h.aes128
  unfold withEncryption PendingSegment.iv
  rw [h.protection, hkey]
  dsimp only [Option.bind_none, Option.map_some, wholeSegment]
  split <;> rfl

theorem EncryptedWhole.prepareNumberedSegment_iv (h : asset.EncryptedWhole)
    {key : TrackKey} {segmentIndex sequenceNumber : ℕ}
    {pending : PendingSegment}
    (hrun : asset.prepareNumberedSegment key segmentIndex sequenceNumber =
      .ok pending) :
    pending.iv = some (Aes128.iv (sequenceNumber - 1)) := by
  unfold prepareNumberedSegment at hrun
  obtain ⟨track, -, hrun⟩ := bind_eq_ok_iff.mp hrun
  obtain ⟨segment, -, hrun⟩ := bind_eq_ok_iff.mp hrun
  obtain ⟨part, -, hrun⟩ := bind_eq_ok_iff.mp hrun
  obtain ⟨prepared, -, hrun⟩ := bind_eq_ok_iff.mp hrun
  obtain rfl := Except.ok.inj hrun
  exact h.withEncryption_iv ..

theorem EncryptedWhole.prepareMuxedSegment_iv (h : asset.EncryptedWhole)
    {segmentIndex : ℕ} {pending : PendingSegment}
    (hrun : asset.prepareMuxedSegment segmentIndex = .ok pending) :
    pending.iv = some (Aes128.iv segmentIndex) := by
  obtain ⟨key, hkey⟩ := Option.isSome_iff_exists.mp h.aes128
  unfold prepareMuxedSegment at hrun
  obtain ⟨muxed, -, hrun⟩ := bind_eq_ok_iff.mp hrun
  obtain ⟨segment, -, hrun⟩ := bind_eq_ok_iff.mp hrun
  obtain ⟨found, -, hrun⟩ := bind_eq_ok_iff.mp hrun
  dsimp only at hrun
  split at hrun
  · simp at hrun
  obtain ⟨prepared, -, hrun⟩ := bind_eq_ok_iff.mp hrun
  obtain rfl := Except.ok.inj hrun
  unfold PendingSegment.iv
  rw [hkey]
  rfl

theorem segmentCount_lt (asset : PackagedAsset) :
    asset.segmentCount < 2 ^ 32 := by
  obtain ⟨targetDurationMs, hplan⟩ := asset.planned
  obtain ⟨reference, ticks, h⟩ := plan_spec hplan
  have hcount := h.segments.length_eq
  have hfirsts : (pairs (referenceBoundaries reference ticks)).length =
      (referenceBoundaries reference ticks).dropLast.length := by
    rw [← map_fst_pairs, List.length_map]
  have hnodup : (referenceBoundaries reference ticks).dropLast.Nodup :=
    ((referenceBoundaries_pairwise reference ticks).sublist
      (List.dropLast_sublist _)).imp fun hlt => hlt.ne
  have hsubset : (referenceBoundaries reference ticks).dropLast ⊆
      List.range reference.samples.len := by
    intro cut hcut
    rw [← map_fst_pairs] at hcut
    obtain ⟨pair, hpair, rfl⟩ := List.mem_map.mp hcut
    exact List.mem_range.mpr (mem_pairs_referenceBoundaries hpair).2.1
  have hle := (hnodup.subperm hsubset).length_le
  have hvalid := reference.samples_valid
  have hlen := hvalid.tables.len_lt
  have hstop := hvalid.stop_le
  rw [List.length_zipIdx] at hcount
  rw [List.length_range, SampleIndex.len] at hle
  unfold segmentCount
  omega

theorem listedCount_le (asset : PackagedAsset) (key : TrackKey) :
    asset.listedCount key ≤ asset.segmentCount := by
  unfold listedCount
  split
  · exact List.length_filterMap_le ..
  · exact Nat.zero_le _

end PackagedAsset

/-- A single file's playlist lists its segments at their own numbers. -/
theorem ivsMatch_mediaPlaylist {asset : PackagedAsset} {key : TrackKey}
    {lines : List PlaylistLine} {prepare : ℕ → Result PendingSegment}
    (hlines : mediaPlaylist asset.presentation key = .ok lines)
    (hprepare : ∀ number pending, number + 1 < 2 ^ 32 →
      prepare number = .ok pending →
        pending.iv = some (Aes128.iv number)) :
    IvsMatch lines prepare := by
  intro position number hlisted pending hrun
  obtain ⟨track, htrack, -⟩ := bind_eq_ok_iff.mp hlines
  rw [listedNumbers_mediaPlaylist htrack hlines] at hlisted
  have hposition := (List.getElem?_eq_some_iff.mp hlisted).1
  rw [List.getElem?_range (by simpa using hposition)] at hlisted
  obtain rfl := Option.some.inj hlisted
  have hle := asset.listedCount_le key
  have hlt := asset.segmentCount_lt
  have hcount := listedCount_eq htrack
  rw [List.length_range, ← hcount] at hposition
  rw [hprepare position pending (by omega) hrun,
    Aes128.iv_eq (by omega)]

/-- Each clip before a clip some listed segment of which can be served lists
the track in every segment of its plan. -/
def ListedThroughout (sequence : SequenceAsset) (key : TrackKey) : Prop :=
  ∀ before clip after, sequence.clips = before ++ clip :: after →
    (∃ offset < clip.listedCount key, ∃ pending,
      sequence.prepareSegment key (totalSegments before + offset) =
        .ok pending) →
    ∀ earlier ∈ before,
      earlier.listedCount key = earlier.segmentCount

theorem totalListed_eq_iff {key : TrackKey} {clips : List PackagedAsset} :
    totalSegments clips = totalListed key clips ↔
      ∀ clip ∈ clips, clip.listedCount key = clip.segmentCount := by
  have hle : ∀ clips : List PackagedAsset,
      totalListed key clips ≤ totalSegments clips := by
    intro clips
    exact List.sum_le_sum fun clip _ => clip.listedCount_le key
  induction clips with
  | nil => simp [totalSegments, totalListed]
  | cons clip clips ih =>
      have hsegments : totalSegments (clip :: clips) =
          clip.segmentCount + totalSegments clips := rfl
      have hlisted : totalListed key (clip :: clips) =
          clip.listedCount key + totalListed key clips := rfl
      have hrest := hle clips
      have hclip := clip.listedCount_le key
      rw [hsegments, hlisted, List.forall_mem_cons]
      constructor
      · intro heq
        exact ⟨by omega, ih.mp (by omega)⟩
      · rintro ⟨hfirst, hothers⟩
        have := ih.mpr hothers
        omega

theorem saturatingAdd_one {n : ℕ} (h : n + 1 < 2 ^ 32) :
    saturatingAdd (2 ^ 32) n 1 - 1 = n := by
  unfold saturatingAdd
  omega

/-- The playlist of a sequence matches exactly where every clip that a later
one follows lists the track throughout. -/
theorem SequenceAsset.ivsMatch_iff {sequence : SequenceAsset} {key : TrackKey}
    {lines : List PlaylistLine}
    (hclips : ∀ clip ∈ sequence.clips, clip.EncryptedWhole)
    (hlines : sequence.mediaPlaylist key = .ok lines) :
    IvsMatch lines (sequence.prepareSegment key) ↔
      ListedThroughout sequence key := by
  have htotal := (numberClips_eq_ok (by decide) sequence.numbered).2
  have hiv : ∀ before clip after offset pending,
      sequence.clips = before ++ clip :: after →
      offset < clip.listedCount key →
      sequence.prepareSegment key (totalSegments before + offset) =
        .ok pending →
      totalSegments before + offset < 2 ^ 32 ∧
        pending.iv =
          some (Aes128.iv (totalSegments before + offset)) := by
    intro before clip after offset pending heq hoffset hrun
    have hle := clip.listedCount_le key
    have hsum : totalSegments sequence.clips = totalSegments before +
        (clip.segmentCount + totalSegments after) := by
      rw [heq]
      simp [totalSegments]
    rw [sequence.prepareSegment_eq heq key (by omega)] at hrun
    have hencrypted := hclips clip (heq ▸ by simp)
    rw [hencrypted.prepareNumberedSegment_iv hrun,
      saturatingAdd_one (by omega)]
    exact ⟨by omega, rfl⟩
  have hlisted := fun position number => @getElem?_listing_eq_some_iff key 0
    position number sequence.clips
  simp only [← sequence.listedNumbers_mediaPlaylist hlines] at hlisted
  have hle : ∀ clips : List PackagedAsset,
      totalListed key clips ≤ totalSegments clips := fun clips =>
    List.sum_le_sum fun clip _ => clip.listedCount_le key
  constructor
  · rintro hmatch before clip after heq ⟨offset, hoffset, pending, hrun⟩
    obtain ⟨hlt, hserved⟩ := hiv _ _ _ _ _ heq hoffset hrun
    have hderived := hmatch (totalListed key before + offset)
      (totalSegments before + offset)
      ((hlisted _ _).mpr ⟨before, clip, after, offset, heq, hoffset, rfl,
        by omega⟩) pending hrun
    have hvectors := Option.some.inj (hserved.symm.trans hderived)
    have hbefore := hle before
    rw [Aes128.iv_eq_encode_iff hlt (by omega)] at hvectors
    exact totalListed_eq_iff.mp (by omega)
  · intro hthroughout position number hnumber pending hrun
    obtain ⟨before, clip, after, offset, heq, hoffset, rfl, rfl⟩ :=
      (hlisted _ _).mp hnumber
    rw [Nat.zero_add] at hrun
    obtain ⟨hlt, hserved⟩ := hiv _ _ _ _ _ heq hoffset hrun
    have hsame := totalListed_eq_iff.mpr
      (hthroughout before clip after heq ⟨offset, hoffset, pending, hrun⟩)
    rw [hserved, ← hsame, Aes128.iv_eq hlt]

/-- The segment at each position of a playlist is served with the vector a
player derives from the position: always for a single file and its muxed
stream, and for a sequence exactly where no clip but the last one served
leaves the track out of a segment. -/
theorem served_ivs_match (key : TrackKey) (lines : List PlaylistLine) :
    (∀ asset, PackagedAsset.EncryptedWhole asset →
      mediaPlaylist asset.presentation key = .ok lines →
      IvsMatch lines (asset.prepareMediaSegment key)) ∧
    (∀ asset, PackagedAsset.EncryptedWhole asset →
      asset.hlsMuxedPlaylist = .ok lines →
      IvsMatch lines asset.prepareMuxedSegment) ∧
    ∀ sequence : SequenceAsset,
      (∀ clip ∈ sequence.clips, PackagedAsset.EncryptedWhole clip) →
      sequence.mediaPlaylist key = .ok lines →
      (IvsMatch lines (sequence.prepareSegment key) ↔
        ListedThroughout sequence key) := by
  refine ⟨fun asset hencrypted hlines => ?_,
    fun asset hencrypted hlines => ?_,
    fun sequence => SequenceAsset.ivsMatch_iff⟩
  · refine ivsMatch_mediaPlaylist hlines fun number pending hnumber hrun => ?_
    have hiv := hencrypted.prepareNumberedSegment_iv hrun
    rwa [saturatingAdd_one hnumber] at hiv
  · obtain ⟨muxed, -, hlines⟩ := bind_eq_ok_iff.mp hlines
    exact ivsMatch_mediaPlaylist hlines fun number pending _ hrun =>
      hencrypted.prepareMuxedSegment_iv hrun

/-- Two keyframes a second apart, with audio for the first half second. -/
def shortAudioIndex (shift : Fin 2) : MediaIndex where
  tracks :=
    [.checked 1 .video 1000
       { tables := ⟨[9, 9], [⟨0, 0⟩], [⟨0, 0, 1000⟩], [], none⟩
         start := 0, stop := 2, shift := 2000 * shift } (by
         revert shift
         decide),
     .checked 2 (.audio 1) 1000
       { tables := ⟨[5], [⟨0, 18⟩], [⟨0, 0, 500⟩], [], none⟩
         start := 0, stop := 1, shift := 2000 * shift } (by
         revert shift
         decide)]
  ids_unique := by
    revert shift
    decide

def shortAudioPlan (shift : Fin 2) : SegmentPlan where
  segments :=
    [⟨0, [⟨1, 0, 1, 2000 * shift, 1000⟩, ⟨2, 0, 1, 2000 * shift, 500⟩]⟩,
     ⟨1, [⟨1, 1, 2, 2000 * shift + 1000, 1000⟩]⟩]

def shortAudioAsset (shift : Fin 2) : PackagedAsset where
  index := shortAudioIndex shift
  plan := shortAudioPlan shift
  limits := {}
  version := "0123456789abcdef"
  protection := none
  aes128 := some ⟨List.replicate 16 7, "https://keys.example.com/k1"⟩
  decryption := []
  muxed := none
  planned := ⟨1000, by
    revert shift
    decide +kernel⟩
  protection_built := by simp

theorem shortAudioAsset_encrypted (shift : Fin 2) :
    (shortAudioAsset shift).EncryptedWhole :=
  ⟨rfl, rfl⟩

/-- The samples are shown from zero on. -/
def unshifted : Fin 2 := 0

def shortAudioSequence : SequenceAsset where
  clips := [shortAudioAsset unshifted, shortAudioAsset 1]
  firstSegments := [0, 2]
  numbered := by decide

/-- The second audio segment of the sequence is number two, and is served with
the vector of two. -/
theorem short_audio_served_late :
    (shortAudioSequence.mediaPlaylist (.audio 1)).map listedNumbers =
        .ok [0, 2] ∧
      (shortAudioSequence.prepareSegment (.audio 1) 2).map
        PendingSegment.iv = .ok (some (encode 16 2)) ∧
      ∀ lines, shortAudioSequence.mediaPlaylist (.audio 1) = .ok lines →
        ¬ IvsMatch lines (shortAudioSequence.prepareSegment (.audio 1)) := by
  have hlisted : (shortAudioSequence.mediaPlaylist (.audio 1)).map
      listedNumbers = .ok [0, 2] := by decide
  have hserved : (shortAudioSequence.prepareSegment (.audio 1) 2).map
      PendingSegment.iv = .ok (some (encode 16 2)) := by decide +kernel
  refine ⟨hlisted, hserved, fun lines hlines hmatch => ?_⟩
  rw [hlines] at hlisted
  have hnumbers : listedNumbers lines = [0, 2] := Except.ok.inj hlisted
  cases hrun : shortAudioSequence.prepareSegment (.audio 1) 2 with
  | error e => simp [hrun, Except.map] at hserved
  | ok pending =>
      rw [hrun] at hserved
      have hiv : pending.iv = some (encode 16 2) := Except.ok.inj hserved
      have hderived := hmatch 1 2 (by rw [hnumbers]; rfl) pending hrun
      exact absurd (hiv.symm.trans hderived) (by decide)

theorem served_ivs_match_short_audio :
    ∃ lines, shortAudioSequence.mediaPlaylist .video = .ok lines ∧
      (IvsMatch lines (shortAudioSequence.prepareSegment .video) ↔
        ListedThroughout shortAudioSequence .video) := by
  obtain ⟨lines, hlines⟩ := exists_ok_of_isOk
    (x := shortAudioSequence.mediaPlaylist .video) (by decide)
  refine ⟨lines, hlines, (served_ivs_match .video lines).2.2 _ ?_ hlines⟩
  intro clip hclip
  fin_cases hclip <;> exact shortAudioAsset_encrypted _

end Segmentor
