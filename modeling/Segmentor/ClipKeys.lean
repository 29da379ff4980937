import Segmentor.KeysInForce
import Segmentor.Sequence

/-!
# Keys of clips

The clips of a sequence are clear or encrypted, each with its own keys and
systems.  A playlist gives a clip's key lines when its encryption differs from
the one before.  A line of an earlier clip stays in force until a line of its
format comes, so a player that reads a clip's segments with that clip's lines
alone has every format of the encrypted clips before it named again.
-/

namespace Segmentor

open General

/-! ## Answers -/

/-- What a mapper's answer for a sequence says of keys: its own, and each
clip's. -/
structure ClipKeyAnswer where
  encryption : Option Encryption
  aes128 : Option Aes128
  clips : List (Option Encryption)
  deriving DecidableEq, Repr

/-- A clip's own encryption: a single key set, never a timeline. -/
def interpretClipEncryption (position : ℕ) (encryption : Option Encryption) :
    Except String Unit :=
  if encryption.any Encryption.isRotating then
    .error ("clip " ++ toString position ++
      ": a clip's encryption cannot have periods")
  else .ok ()

namespace ClipKeyAnswer

/-- The mapper's checks of an answer's keys. -/
def interpret (answer : ClipKeyAnswer) : Except String Unit := do
  let _ ← answer.clips.zipIdx.mapM fun (encryption, position) =>
    interpretClipEncryption position encryption
  if answer.encryption.any Encryption.isRotating ∧ answer.clips ≠ [] then
    .error "encryption periods cannot be combined with clips"
  else if answer.aes128.isSome ∧ answer.encryption.isSome then
    .error "hls_aes128 and encryption cannot both be set"
  else if answer.aes128.isSome ∧ answer.clips.any Option.isSome then
    .error "hls_aes128 and a clip's encryption cannot both be set"
  else .ok ()

/-- The encryption of each clip: its own, or else the answer's. -/
def clipEncryptions (answer : ClipKeyAnswer) : List (Option Encryption) :=
  answer.clips.map fun own => own.or answer.encryption

structure Accepted (answer : ClipKeyAnswer) : Prop where
  fixed : ∀ keys, some keys ∈ answer.clipEncryptions →
    keys.isRotating = false
  exclusive : answer.aes128.isSome →
    ∀ keys ∈ answer.clipEncryptions, keys = none

theorem accepted_of_interpret {answer : ClipKeyAnswer}
    (h : answer.interpret = .ok ()) : answer.Accepted := by
  unfold interpret at h
  obtain ⟨checked, hchecked, h⟩ := bind_eq_ok_iff.mp h
  have hown : ∀ own ∈ answer.clips,
      own.any Encryption.isRotating = false := by
    intro own hown
    obtain ⟨position, hposition⟩ := List.mem_iff_getElem?.mp hown
    obtain ⟨result, -, hresult⟩ := exists_ok_of_mem_mapM hchecked
      (@List.mk_mem_zipIdx_iff_getElem? _ position own _ |>.mpr hposition)
    simpa [interpretClipEncryption] using hresult
  split at h
  · simp at h
  · rename_i hfixed
    split at h
    · simp at h
    · rename_i hanswer
      split at h
      · simp at h
      · rename_i hclips
        constructor
        · intro keys hkeys
          obtain ⟨own, hmem, hkeys⟩ := List.mem_map.mp hkeys
          cases own with
          | some own =>
              obtain rfl := Option.some.inj hkeys
              exact hown _ hmem
          | none =>
              rw [Option.none_or] at hkeys
              rw [hkeys] at hfixed
              simpa [List.ne_nil_of_mem hmem] using hfixed
        · intro haes keys hkeys
          obtain ⟨own, hmem, rfl⟩ := List.mem_map.mp hkeys
          have hnone : own = none := by
            by_contra hsome
            exact hclips ⟨haes, List.any_eq_true.mpr
              ⟨own, hmem, Option.isSome_iff_ne_none.mpr hsome⟩⟩
          have hanswer : answer.encryption = none := by
            by_contra hsome
            exact hanswer ⟨haes, Option.isSome_iff_ne_none.mpr hsome⟩
          rw [hnone, hanswer]
          rfl

end ClipKeyAnswer

/-! ## A clip's own lines -/

/-- The lines a clip's segments are to be read with. -/
def PackagedAsset.ownKeyLines (asset : PackagedAsset) (kind : TrackKind) :
    List KeyLine :=
  match asset.encryption with
  | some keys => hlsKeyLines keys.toPeriodKeys (keys.keyFor kind)
  | none => asset.aes128.toList.map fun aes128 => .aes128 aes128.uri

def PackagedAsset.keyStage (asset : PackagedAsset) (kind : TrackKind) :
    Option (List KeyLine) :=
  Segmentor.keyStage kind (asset.encryption.map Encryption.toPeriodKeys)

/-- The numbers a clip that starts at `entry.2` lists for a track. -/
def clipNumbers (key : TrackKey) (entry : PackagedAsset × ℕ) : List ℕ :=
  List.range' entry.2 (entry.1.listedCount key)

/-- Each number a sequence lists for a track, with its own clip's lines. -/
def SequenceAsset.ownKeys (sequence : SequenceAsset) (key : TrackKey) :
    List (ℕ × List KeyLine) :=
  (sequence.clips.zip sequence.firstSegments).flatMap fun entry =>
    (clipNumbers key entry).map fun number =>
      (number, entry.1.ownKeyLines key.kind)

/-- Every encrypted clip that lists segments of the track names each key
format of the encrypted clips right before it, back to the last clear one. -/
def SequenceAsset.NamesFormatsAgain (sequence : SequenceAsset)
    (key : TrackKey) : Prop :=
  ∀ before clip after, sequence.clips = before ++ clip :: after →
    0 < clip.listedCount key → ∀ keys, clip.encryption = some keys →
      ∀ earlier ∈ standing (before.map PackagedAsset.encryption),
        ∀ format ∈ earlier.keyFormats, format ∈ keys.keyFormats

/-- A sequence that is loaded from an answer the mapper's checks accept. -/
structure SequenceAsset.LoadedFrom (sequence : SequenceAsset)
    (answer : ClipKeyAnswer) : Prop where
  interpreted : answer.interpret = .ok ()
  encryption : sequence.clips.map PackagedAsset.encryption =
    answer.clipEncryptions
  aes128 : ∀ clip ∈ sequence.clips, clip.aes128 = answer.aes128

/-! ## Lines in force -/

theorem keySchedule_of_fixed {presentation : Presentation}
    (hfixed : ∀ keys, presentation.encryption = some keys →
      keys.isRotating = false) : presentation.keySchedule = [] := by
  unfold Presentation.keySchedule
  cases hkeys : presentation.encryption with
  | none => rfl
  | some keys =>
      dsimp only
      rw [hfixed keys hkeys]
      rfl

/-- A transition leaves in force what entering the new stage does. -/
theorem readLines_keyTransitionLines {kind : TrackKind}
    {previous current : Option Encryption} {inForce : List KeyLine}
    (hsettled : enterKeys kind inForce
      (previous.map Encryption.toPeriodKeys) = inForce) :
    readLines inForce (keyLinesOf
        (if current ≠ previous then
          keyTransitionLines (previous.map Encryption.toPeriodKeys)
            (current.map Encryption.toPeriodKeys) kind
        else [])) =
      enterKeys kind inForce (current.map Encryption.toPeriodKeys) := by
  by_cases hsame : current = previous
  · rw [if_neg (not_not.mpr hsame), hsame, hsettled]
    rfl
  · rw [if_pos hsame]
    cases current with
    | some keys =>
        change readLines inForce (keyLinesOf
          ((hlsKeyLines keys.toPeriodKeys (keys.keyFor kind)).map .key)) = _
        rw [keyLinesOf_map_key, readLines_hlsKeyLines]
        rfl
    | none =>
        cases previous with
        | none => exact absurd rfl hsame
        | some keys => rfl

/-- What stands before a clip's segments. -/
def clipOpening (presentation : Presentation) (position : ℕ)
    (previous : Option Encryption) (kind : TrackKind) : List PlaylistLine :=
  (if 0 < position then [.discontinuity] else []) ++
    (if presentation.encryption ≠ previous then
      keyTransitionLines (previous.map Encryption.toPeriodKeys)
        (presentation.encryption.map Encryption.toPeriodKeys) kind
    else []) ++
    (if 0 < position ∧ presentation.aes128.isSome then [hlsKeyNone]
    else []) ++
    [.map (some position)] ++ writeAes128Key presentation

theorem clipLines_cons_eq_ok {key : TrackKey} {position first : ℕ}
    {previous : Option Encryption} {presentation : Presentation}
    {rest : List SequenceClip} {lines : List PlaylistLine}
    (h : clipLines key position previous (⟨presentation, first⟩ :: rest) =
      .ok lines) :
    ∃ track written others,
      presentation.track key = .ok track ∧ track.kind = key.kind ∧
      writeSegmentEntries presentation track first = .ok written ∧
      clipLines key (position + 1) presentation.encryption rest =
        .ok others ∧
      lines = clipOpening presentation position previous key.kind ++
        (written ++ others) := by
  unfold clipLines at h
  obtain ⟨track, htrack, h⟩ := bind_eq_ok_iff.mp h
  dsimp only at htrack h
  obtain ⟨written, hwritten, h⟩ := bind_eq_ok_iff.mp h
  obtain ⟨others, hothers, h⟩ := bind_eq_ok_iff.mp h
  have hkind : track.kind = key.kind := by
    rw [← track.key_kind, (Presentation.track_eq_ok htrack).2]
  refine ⟨track, written, others, htrack, hkind, hwritten, hothers, ?_⟩
  obtain rfl := Except.ok.inj h
  rw [hkind, List.append_assoc]
  rfl

theorem listedNumbers_clipOpening (presentation : Presentation)
    (position : ℕ) (previous : Option Encryption) (kind : TrackKind) :
    listedNumbers (clipOpening presentation position previous kind) = [] := by
  have hnone : ∀ (condition : Prop) [Decidable condition]
      (lines : List PlaylistLine), listedNumbers lines = [] →
      listedNumbers (if condition then lines else []) = [] := by
    intro condition _ lines hlines
    split
    · exact hlines
    · rfl
  unfold clipOpening
  simp only [listedNumbers_append, listedNumbers_writeAes128Key,
    hnone _ [hlsKeyNone] rfl, hnone _ [.discontinuity] rfl,
    hnone _ _ (listedNumbers_keyTransitionLines ..), List.append_nil,
    List.nil_append]
  rfl

theorem keyLinesOf_clipOpening (presentation : Presentation) (position : ℕ)
    (previous : Option Encryption) (kind : TrackKind) :
    keyLinesOf (clipOpening presentation position previous kind) =
      keyLinesOf (if presentation.encryption ≠ previous then
        keyTransitionLines (previous.map Encryption.toPeriodKeys)
          (presentation.encryption.map Encryption.toPeriodKeys) kind
      else []) ++
      ((if 0 < position ∧ presentation.aes128.isSome then [.clear] else []) ++
        presentation.aes128.toList.map fun aes128 => .aes128 aes128.uri) := by
  have hdiscontinuity : keyLinesOf
      (if 0 < position then [.discontinuity] else []) = [] := by
    split <;> rfl
  have hclear : keyLinesOf
      (if 0 < position ∧ presentation.aes128.isSome then [hlsKeyNone]
      else []) =
      if 0 < position ∧ presentation.aes128.isSome then [.clear] else [] := by
    split <;> rfl
  have haes : keyLinesOf (writeAes128Key presentation) =
      presentation.aes128.toList.map fun aes128 => .aes128 aes128.uri := by
    unfold writeAes128Key
    cases presentation.aes128 <;> rfl
  unfold clipOpening
  simp only [keyLinesOf_append, hdiscontinuity, hclear, haes,
    List.nil_append, List.append_assoc]
  rfl

theorem keysListed_clip {clip : PackagedAsset} {key : TrackKey}
    {track : Track} {first : ℕ} {written : List PlaylistLine}
    (hfixed : ∀ keys, clip.encryption = some keys → keys.isRotating = false)
    (htrack : clip.presentation.track key = .ok track)
    (hwritten : writeSegmentEntries clip.presentation track first =
      .ok written)
    (inForce : List KeyLine) (others : List PlaylistLine) :
    keysListed inForce (written ++ others) =
      ((clipNumbers key (clip, first)).map fun number => (number, inForce)) ++
        keysListed inForce others := by
  have hperiods : clip.presentation.keySchedule = [] :=
    keySchedule_of_fixed hfixed
  unfold writeSegmentEntries at hwritten
  rw [hperiods] at hwritten
  rw [keysListed_append, keyLinesOf_segmentEntries hwritten,
    keysListed_segmentEntries List.Pairwise.nil (by simp) hwritten,
    clipNumbers, listedCount_eq htrack]
  rfl

/-- Without whole-segment keys, each clip's segments are read with what
entering its stage leaves in force. -/
theorem keysListed_clipLines {key : TrackKey} {position : ℕ}
    {previous : Option Encryption} {entries : List (PackagedAsset × ℕ)}
    {lines : List PlaylistLine} {inForce : List KeyLine}
    (hfixed : ∀ entry ∈ entries, ∀ keys, entry.1.encryption = some keys →
      keys.isRotating = false)
    (haes : ∀ entry ∈ entries, entry.1.aes128 = none)
    (hsettled : enterKeys key.kind inForce
      (previous.map Encryption.toPeriodKeys) = inForce)
    (h : clipLines key position previous
      (entries.map fun (clip, first) => ⟨clip.presentation, first⟩) =
        .ok lines) :
    keysListed inForce lines =
      itemsOfStages KeyLine.keyFormat (fun entry => entry.1.keyStage key.kind)
        (clipNumbers key) inForce entries := by
  induction entries generalizing position previous lines inForce with
  | nil =>
      obtain rfl := Except.ok.inj h
      rfl
  | cons entry entries ih =>
      obtain ⟨clip, first⟩ := entry
      obtain ⟨hclipFixed, hfixed⟩ := List.forall_mem_cons.mp hfixed
      obtain ⟨hclipAes, haes⟩ := List.forall_mem_cons.mp haes
      obtain ⟨track, written, others, htrack, hkind, hwritten, hothers, rfl⟩ :=
        clipLines_cons_eq_ok h
      have hnone : clip.presentation.aes128 = none := hclipAes
      have hopening : readLines inForce (keyLinesOf
          (clipOpening clip.presentation position previous key.kind)) =
          enterKeys key.kind inForce
            (clip.encryption.map Encryption.toPeriodKeys) := by
        rw [keyLinesOf_clipOpening, hnone, readLines_append,
          readLines_keyTransitionLines hsettled]
        rw [if_neg (by simp)]
        rfl
      rw [keysListed_append_of_listedNumbers (listedNumbers_clipOpening ..),
        hopening, keysListed_clip hclipFixed htrack hwritten, itemsOfStages]
      congr 1
      exact ih hfixed haes (enterStage_enterStage ..) hothers

/-- With one whole-segment key for every clip, that key's line is in force at
every segment. -/
theorem keysListed_clipLines_aes128 {key : TrackKey} {position : ℕ}
    {entries : List (PackagedAsset × ℕ)} {lines : List PlaylistLine}
    {inForce : List KeyLine} {aes128 : Aes128}
    (hclear : ∀ entry ∈ entries, entry.1.encryption = none)
    (haes : ∀ entry ∈ entries, entry.1.aes128 = some aes128)
    (hstart : position = 0 → inForce = [])
    (h : clipLines key position none
      (entries.map fun (clip, first) => ⟨clip.presentation, first⟩) =
        .ok lines) :
    keysListed inForce lines = entries.flatMap fun entry =>
      (clipNumbers key entry).map fun number =>
        (number, [.aes128 aes128.uri]) := by
  induction entries generalizing position lines inForce with
  | nil =>
      obtain rfl := Except.ok.inj h
      rfl
  | cons entry entries ih =>
      obtain ⟨clip, first⟩ := entry
      obtain ⟨hclipClear, hclear⟩ := List.forall_mem_cons.mp hclear
      obtain ⟨hclipAes, haes⟩ := List.forall_mem_cons.mp haes
      obtain ⟨track, written, others, htrack, hkind, hwritten, hothers, rfl⟩ :=
        clipLines_cons_eq_ok h
      have hsome : clip.presentation.aes128 = some aes128 := hclipAes
      have hnone : clip.presentation.encryption = none := hclipClear
      have hopening : readLines inForce (keyLinesOf
          (clipOpening clip.presentation position none key.kind)) =
          [.aes128 aes128.uri] := by
        rw [keyLinesOf_clipOpening, hsome, hnone, if_neg (by simp)]
        by_cases hposition : 0 < position
        · rw [if_pos ⟨hposition, rfl⟩]
          rfl
        · rw [if_neg (fun hand => hposition hand.1),
            hstart (by omega)]
          rfl
      have hfixed : ∀ keys, clip.encryption = some keys →
          keys.isRotating = false := by
        intro keys hkeys
        rw [hclipClear] at hkeys
        simp at hkeys
      rw [hnone] at hothers
      rw [keysListed_append_of_listedNumbers (listedNumbers_clipOpening ..),
        hopening, keysListed_clip hfixed htrack hwritten, List.flatMap_cons,
        ih hclear haes (by simp) hothers]

theorem namesFormatsAgain_iff {sequence : SequenceAsset} {key : TrackKey} :
    sequence.NamesFormatsAgain key ↔
      ∀ pre entry post,
        sequence.clips.zip sequence.firstSegments = pre ++ entry :: post →
        ∀ block, entry.1.keyStage key.kind = some block →
          clipNumbers key entry ≠ [] →
          ∀ earlier ∈ standing
              ([] ++ pre.map fun entry => entry.1.keyStage key.kind),
            ∀ format ∈ earlier.map KeyLine.keyFormat,
              format ∈ block.map KeyLine.keyFormat := by
  have hstages : ∀ pre : List (PackagedAsset × ℕ),
      pre.map (fun entry => entry.1.keyStage key.kind) =
        ((pre.map Prod.fst).map PackagedAsset.encryption).map
          (Option.map fun keys =>
            hlsKeyLines keys.toPeriodKeys (keys.keyFor key.kind)) := by
    intro pre
    rw [List.map_map, List.map_map]
    refine List.map_congr_left fun entry _ => ?_
    exact Option.map_map ..
  have hlisted : ∀ entry, clipNumbers key entry ≠ [] ↔
      0 < entry.1.listedCount key := by
    intro entry
    unfold clipNumbers
    rw [ne_eq, List.range'_eq_nil_iff, Nat.pos_iff_ne_zero]
  constructor
  · intro h pre entry post hentries block hblock hnumbers earlier hearlier
    have hclips : sequence.clips =
        pre.map Prod.fst ++ entry.1 :: post.map Prod.fst := by
      rw [← sequence.map_fst_zip, hentries, List.map_append, List.map_cons]
    obtain ⟨keys, hkeys, rfl⟩ := Option.map_eq_some_iff.mp hblock
    obtain ⟨own, hown, rfl⟩ := Option.map_eq_some_iff.mp hkeys
    rw [List.nil_append, hstages, standing_map] at hearlier
    obtain ⟨before, hbefore, rfl⟩ := List.mem_map.mp hearlier
    rw [keyFormat_hlsKeyLines, keyFormat_hlsKeyLines]
    exact h _ _ _ hclips ((hlisted entry).mp hnumbers) own hown before hbefore
  · intro h before clip after hclips hcount keys hkeys earlier hearlier
    rw [← sequence.map_fst_zip, List.map_eq_append_iff] at hclips
    obtain ⟨pre, rest, hentries, rfl, hrest⟩ := hclips
    obtain ⟨entry, post, rfl, rfl, rfl⟩ := List.map_eq_cons_iff.mp hrest
    have hmem : hlsKeyLines earlier.toPeriodKeys (earlier.keyFor key.kind) ∈
        standing ([] ++ pre.map fun entry => entry.1.keyStage key.kind) := by
      rw [List.nil_append, hstages, standing_map]
      exact List.mem_map_of_mem hearlier
    have hnames := h pre entry post hentries
      (hlsKeyLines keys.toPeriodKeys (keys.keyFor key.kind))
      (by
        unfold PackagedAsset.keyStage
        rw [hkeys]
        rfl)
      ((hlisted entry).mpr hcount) _ hmem
    rwa [keyFormat_hlsKeyLines, keyFormat_hlsKeyLines] at hnames

theorem keysListed_mediaPlaylist {sequence : SequenceAsset} {key : TrackKey}
    {lines : List PlaylistLine}
    (h : sequence.mediaPlaylist key = .ok lines) :
    ∃ clips, clipLines key 0 none sequence.views = .ok clips ∧
      keysListed [] lines = keysListed [] clips := by
  obtain ⟨target, clips, hclips, rfl⟩ := SequenceAsset.mediaPlaylist_eq_ok h
  refine ⟨clips, hclips, ?_⟩
  change keysListed [] (clips ++ [.endList]) = _
  rw [keysListed_append]
  exact List.append_nil _

/-- A playlist puts exactly each clip's own key lines in force at its segments
if and only if every encrypted clip names the formats of those before it. -/
theorem own_keys_in_force_iff {sequence : SequenceAsset}
    {answer : ClipKeyAnswer} {key : TrackKey} {lines : List PlaylistLine}
    (hloaded : sequence.LoadedFrom answer)
    (h : sequence.mediaPlaylist key = .ok lines) :
    keysListed [] lines = sequence.ownKeys key ↔
      sequence.NamesFormatsAgain key := by
  have haccepted := ClipKeyAnswer.accepted_of_interpret hloaded.interpreted
  have hentry : ∀ entry ∈ sequence.clips.zip sequence.firstSegments,
      entry.1 ∈ sequence.clips := fun entry hmem =>
    (List.of_mem_zip (b := entry.2) hmem).1
  have hencryption : ∀ clip ∈ sequence.clips,
      clip.encryption ∈ answer.clipEncryptions := fun clip hclip =>
    hloaded.encryption ▸ List.mem_map_of_mem hclip
  obtain ⟨clips, hclips, hlines⟩ := keysListed_mediaPlaylist h
  rw [hlines]
  cases haes : answer.aes128 with
  | none =>
      have hnone : ∀ clip ∈ sequence.clips, clip.aes128 = none :=
        fun clip hclip => (hloaded.aes128 clip hclip).trans haes
      have hown : sequence.ownKeys key =
          (sequence.clips.zip sequence.firstSegments).flatMap fun entry =>
            (clipNumbers key entry).map fun number =>
              (number, (entry.1.keyStage key.kind).getD []) := by
        refine List.flatMap_congr fun entry hmem => ?_
        have hlines : entry.1.ownKeyLines key.kind =
            (entry.1.keyStage key.kind).getD [] := by
          unfold PackagedAsset.ownKeyLines PackagedAsset.keyStage
          rw [hnone _ (hentry entry hmem)]
          cases entry.1.encryption <;> rfl
        rw [hlines]
      rw [keysListed_clipLines
        (fun entry hmem keys hkeys => haccepted.fixed keys
          (hkeys ▸ hencryption _ (hentry entry hmem)))
        (fun entry hmem => hnone _ (hentry entry hmem)) rfl hclips, hown,
        namesFormatsAgain_iff]
      exact @itemsOfStages_eq_iff _ _ _ KeyLine.keyFormat _ _
        (fun entry => entry.1.keyStage key.kind) (clipNumbers key) [] _
  | some aes128 =>
      have hclear : ∀ clip ∈ sequence.clips, clip.encryption = none :=
        fun clip hclip => haccepted.exclusive (by rw [haes]; rfl) _
          (hencryption clip hclip)
      have hsome : ∀ clip ∈ sequence.clips, clip.aes128 = some aes128 :=
        fun clip hclip => (hloaded.aes128 clip hclip).trans haes
      refine iff_of_true ?_ ?_
      · rw [keysListed_clipLines_aes128
          (fun entry hmem => hclear _ (hentry entry hmem))
          (fun entry hmem => hsome _ (hentry entry hmem)) (fun _ => rfl)
          hclips]
        refine List.flatMap_congr fun entry hmem => ?_
        unfold PackagedAsset.ownKeyLines
        rw [hclear _ (hentry entry hmem), hsome _ (hentry entry hmem)]
        rfl
      · intro before clip after hsplit _ keys hkeys
        rw [hclear clip (by rw [hsplit]; simp)] at hkeys
        simp at hkeys

/-! ## Two clips under different systems -/

/-- One key, with Widevine (license URL only) and FairPlay. -/
def sampleEncryption : Encryption :=
  .whole
    { keys := .all ⟨List.replicate 16 0x01, List.replicate 16 0x11,
        List.replicate 16 0xa1⟩
      systems :=
        [⟨DrmSystem.widevine, none, some "https://l.example.net/wv", none, by simp⟩,
         ⟨DrmSystem.fairPlay, none, none, some "skd://a", by simp⟩]
      systems_once := by decide }

/-- Another key, with Clear Key only. -/
def rekeyedEncryption : Encryption :=
  .whole
    { keys := .all ⟨List.replicate 16 0xfe, List.replicate 16 0xff,
        List.replicate 16 0xb2⟩
      systems :=
        [⟨DrmSystem.clearKey, none, some "https://l.example.net/ck", none,
          by simp⟩]
      systems_once := by decide }

def encryptedClip (keys : PeriodKeys) : PackagedAsset :=
  { shortAudioAsset unshifted with
    protection := some
      { encryption := .whole keys
        tracks := trackProtections keys keys
          (shortAudioIndex unshifted).tracks false
        pssh := systemPssh keys
        periods := [] }
    aes128 := none
    protection_built := by
      intro built hbuilt
      obtain rfl := Option.some.inj hbuilt
      rfl }

def rekeyedAnswer : ClipKeyAnswer where
  encryption := none
  aes128 := none
  clips := [some sampleEncryption, some rekeyedEncryption]

def rekeyedSequence : SequenceAsset where
  clips := [encryptedClip sampleEncryption.toPeriodKeys,
    encryptedClip rekeyedEncryption.toPeriodKeys]
  firstSegments := [0, 2]
  numbered := by decide

theorem rekeyedSequence_loadedFrom :
    rekeyedSequence.LoadedFrom rekeyedAnswer where
  interpreted := by decide
  encryption := rfl
  aes128 := by
    intro clip hclip
    fin_cases hclip <;> rfl

/-- The FairPlay line of the first clip stays in force for the second clip,
which has no such line. -/
theorem fairPlay_stays_in_force :
    let fairPlay := KeyLine.sampleAes ⟨"skd://a", none, .fairPlay⟩
      (sampleEncryption.keyFor .video)
    let clearKey := KeyLine.sampleAes
      ⟨"https://l.example.net/ck", none, .clearKey⟩
      (rekeyedEncryption.keyFor .video)
    (rekeyedSequence.mediaPlaylist .video).map (keysListed []) =
        .ok [(0, [fairPlay]), (1, [fairPlay]), (2, [fairPlay, clearKey]),
          (3, [fairPlay, clearKey])] ∧
      rekeyedSequence.ownKeys .video =
        [(0, [fairPlay]), (1, [fairPlay]), (2, [clearKey]), (3, [clearKey])] ∧
      ∀ lines, rekeyedSequence.mediaPlaylist .video = .ok lines →
        keysListed [] lines ≠ rekeyedSequence.ownKeys .video := by
  intro fairPlay clearKey
  have hlisted : (rekeyedSequence.mediaPlaylist .video).map (keysListed []) =
      .ok [(0, [fairPlay]), (1, [fairPlay]), (2, [fairPlay, clearKey]),
        (3, [fairPlay, clearKey])] := by decide
  have hown : rekeyedSequence.ownKeys .video =
      [(0, [fairPlay]), (1, [fairPlay]), (2, [clearKey]), (3, [clearKey])] := by
    decide
  refine ⟨hlisted, hown, fun lines hlines => ?_⟩
  rw [hlines] at hlisted
  rw [Except.ok.inj hlisted, hown]
  decide

theorem own_keys_in_force_iff_rekeyed :
    ∃ lines, rekeyedSequence.mediaPlaylist .video = .ok lines ∧
      (keysListed [] lines = rekeyedSequence.ownKeys .video ↔
        rekeyedSequence.NamesFormatsAgain .video) := by
  obtain ⟨lines, hlines⟩ := exists_ok_of_isOk
    (x := rekeyedSequence.mediaPlaylist .video) (by decide)
  exact ⟨lines, hlines,
    own_keys_in_force_iff rekeyedSequence_loadedFrom hlines⟩

end Segmentor
