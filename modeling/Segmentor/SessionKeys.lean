import Segmentor.ClipKeys
import Segmentor.PlaylistKeys
import Segmentor.RenderedTitles

/-!
# Session keys

A master playlist names every key of its media playlists ahead of time.  Two
lines are the same key where their method, URI, IV and key format are, so a
line is written once, however many clips, periods and tracks it is in.
-/

namespace Segmentor

open General

/-! ## Identity -/

/-- What tells two key lines apart. -/
structure KeyIdentity where
  method : Option TaggedLines.Value
  uri : Option TaggedLines.Value
  iv : Option TaggedLines.Value
  keyFormat : Option TaggedLines.Value
  keyFormatVersions : Option TaggedLines.Value
  deriving DecidableEq, Repr

def KeyIdentity.of (attributes : List TaggedLines.Attribute) :
    KeyIdentity where
  method := attributes.lookup "METHOD".toList
  uri := attributes.lookup "URI".toList
  iv := attributes.lookup "IV".toList
  keyFormat := attributes.lookup "KEYFORMAT".toList
  keyFormatVersions := attributes.lookup "KEYFORMATVERSIONS".toList

/-- The identity a line states with the tag `name`. -/
def lineIdentity (name : String) : TaggedLines.Line → Option KeyIdentity
  | .tag tag attributes =>
      if tag = name.toList then some (.of attributes) else none
  | .text _ => none

/-- The identities of the lines with the tag `name`, in order. -/
def keyIdentities (name : String) (lines : List TaggedLines.Line) :
    List KeyIdentity :=
  lines.filterMap (lineIdentity name)

@[simp] theorem keyIdentities_nil (name : String) :
    keyIdentities name [] = [] := rfl

@[simp] theorem keyIdentities_append (name : String)
    (lines others : List TaggedLines.Line) :
    keyIdentities name (lines ++ others) =
      keyIdentities name lines ++ keyIdentities name others :=
  List.filterMap_append

theorem keyIdentities_eq_nil {name : String} {lines : List TaggedLines.Line}
    (h : ∀ line ∈ lines, lineIdentity name line = none) :
    keyIdentities name lines = [] :=
  List.filterMap_eq_nil_iff.mpr h

theorem lineIdentity_of_ne {name tag : String} (h : tag ≠ name)
    (attributes : List (String × TaggedLines.Value)) :
    lineIdentity name (hlsTag tag attributes) = none :=
  if_neg fun heq => h (String.toList_inj.mp heq)

theorem lineIdentity_self (name : String)
    (attributes : List (String × TaggedLines.Value)) :
    lineIdentity name (hlsTag name attributes) =
      some (.of (attributes.map fun named => (named.1.toList, named.2))) :=
  if_pos rfl

/-- A system's lines are told apart by their URI and their format alone. -/
def KeyAttributes.identity (attributes : KeyAttributes) : KeyIdentity where
  method := some (plainValue "SAMPLE-AES")
  uri := some (quotedValue attributes.uri)
  iv := none
  keyFormat := some (quotedValue attributes.keyFormat.text)
  keyFormatVersions := some (quotedValue "1")

theorem of_list (attributes : KeyAttributes) :
    KeyIdentity.of
        (attributes.list.map fun named => (named.1.toList, named.2)) =
      attributes.identity := by
  obtain ⟨uri, keyId, keyFormat⟩ := attributes
  cases keyId <;>
    simp [KeyIdentity.of, KeyAttributes.list, KeyAttributes.identity,
      List.lookup_cons]

theorem identity_inj {a b : KeyAttributes} (h : a.identity = b.identity) :
    a.uri = b.uri ∧ a.keyFormat.text = b.keyFormat.text := by
  obtain ⟨-, huri, -, hformat, -⟩ := KeyIdentity.mk.inj h
  have hquoted : ∀ {x y : String}, some (quotedValue x) =
      some (quotedValue y) → x = y := fun hxy =>
    String.toList_inj.mp (TaggedLines.Value.quoted.inj (Option.some.inj hxy))
  exact ⟨hquoted huri, hquoted hformat⟩

theorem quote_notMem_text (format : KeyFormat) :
    '"' ∉ format.text.toList := by
  cases format <;> decide

/-- A line without a key ID, read from its end: its format ends at a quote. -/
theorem reverse_text {attributes : KeyAttributes}
    (h : attributes.keyId = none) : attributes.text.toList.reverse =
      "\",KEYFORMATVERSIONS=\"1\"".toList.reverse ++
        (attributes.keyFormat.text.toList.reverse ++ '"' ::
          ("\",KEYFORMAT=".toList.reverse ++
            (attributes.uri.toList.reverse ++ "URI=\"".toList.reverse))) := by
  have hbefore : ",KEYFORMAT=\"".toList.reverse ++ "\"".toList.reverse =
      '"' :: "\",KEYFORMAT=".toList.reverse := by simp
  unfold KeyAttributes.text
  simp only [h, Option.map_none, Option.getD_none, String.toList_append,
    List.reverse_append, String.toList_empty, List.nil_append,
    List.append_assoc]
  rw [← List.append_assoc (",KEYFORMAT=\"".toList.reverse), hbefore]
  rfl

/-- Without key IDs the texts of two lines agree exactly where their
identities do. -/
theorem text_eq_iff {a b : KeyAttributes} (ha : a.keyId = none)
    (hb : b.keyId = none) : a.text = b.text ↔ a.identity = b.identity := by
  constructor
  · intro h
    have hlists := congrArg (fun text : String => text.toList.reverse) h
    rw [reverse_text ha, reverse_text hb] at hlists
    have hrest := List.append_cancel_left hlists
    have hread : ∀ (format : KeyFormat) (tail : List Char), _ :=
      fun format tail => @takeWhile_append_stop _ (· != '"')
        format.text.toList.reverse '"' tail
        (forall_bne_of_not_mem (by simpa using quote_notMem_text format)) rfl
    have hformat := congrArg (List.takeWhile (· != '"')) hrest
    have huri := congrArg (List.dropWhile (· != '"')) hrest
    rw [(hread _ _).1, (hread _ _).1] at hformat
    rw [(hread _ _).2, (hread _ _).2] at huri
    have huris := List.append_cancel_right
      (List.append_cancel_left (List.cons.inj huri).2)
    have hsame : a.uri = b.uri :=
      String.toList_inj.mp (List.reverse_injective huris)
    have hsameFormat : a.keyFormat.text = b.keyFormat.text :=
      String.toList_inj.mp (List.reverse_injective hformat)
    unfold KeyAttributes.identity
    rw [hsame, hsameFormat]
  · intro h
    obtain ⟨huri, hformat⟩ := identity_inj h
    unfold KeyAttributes.text
    rw [ha, hb, huri, hformat]

/-- A key ID does not decide whether a system is named, nor its identity. -/
theorem hlsAttributes_some (system : DrmSystem) (keyId : List UInt8) :
    ∃ kept, hlsAttributes system (some keyId) =
      (hlsAttributes system none).map fun attributes =>
        { attributes with keyId := kept } := by
  unfold hlsAttributes
  split_ifs
  · exact ⟨none, by cases system.hlsUri <;> rfl⟩
  · exact ⟨some keyId, by cases system.pssh <;> rfl⟩
  · exact ⟨none, by cases system.pssh.bind psshData <;> rfl⟩
  · exact ⟨none, by cases system.licenseUrl <;> rfl⟩
  · exact ⟨none, rfl⟩

theorem keyId_hlsAttributes {system : DrmSystem} {attributes : KeyAttributes}
    (h : hlsAttributes system none = some attributes) :
    attributes.keyId = none := by
  unfold hlsAttributes at h
  split_ifs at h
  all_goals
    obtain ⟨-, -, rfl⟩ := Option.map_eq_some_iff.mp h
    rfl

/-- What a system is named by, whichever key it is named for. -/
def systemIdentity (system : DrmSystem) : Option KeyIdentity :=
  (hlsAttributes system none).map KeyAttributes.identity

theorem systemIdentity_eq_some {system : DrmSystem} {keyId : List UInt8}
    {attributes : KeyAttributes}
    (h : hlsAttributes system (some keyId) = some attributes) :
    systemIdentity system = some attributes.identity := by
  obtain ⟨kept, hkept⟩ := hlsAttributes_some system keyId
  rw [hkept, Option.map_eq_some_iff] at h
  obtain ⟨bare, hbare, rfl⟩ := h
  unfold systemIdentity
  rw [hbare]
  rfl

/-! ## The lines of a list of encryptions -/

/-- The lines written are told apart from each other and from those before,
and every named system has one. -/
structure SessionKeys (seen : List String)
    (pairs : List (DrmSystem × ContentKey)) (found : List KeyIdentity) :
    Prop where
  nodup : found.Nodup
  fresh : ∀ attributes : KeyAttributes, attributes.keyId = none →
    attributes.text ∈ seen → attributes.identity ∉ found
  complete : ∀ pair ∈ pairs, ∀ attributes ∈ hlsAttributes pair.1 none,
    attributes.text ∈ seen ∨ attributes.identity ∈ found

theorem SessionKeys.skip {seen : List String}
    {pairs : List (DrmSystem × ContentKey)} {found : List KeyIdentity}
    (h : SessionKeys seen pairs found) {pair : DrmSystem × ContentKey}
    (hpair : ∀ attributes ∈ hlsAttributes pair.1 none,
      attributes.text ∈ seen) :
    SessionKeys seen (pair :: pairs) found where
  nodup := h.nodup
  fresh := h.fresh
  complete := List.forall_mem_cons.mpr
    ⟨fun attributes hnamed => .inl (hpair attributes hnamed), h.complete⟩

theorem SessionKeys.cons {seen : List String}
    {pairs : List (DrmSystem × ContentKey)} {found : List KeyIdentity}
    {bare : KeyAttributes} (h : SessionKeys (bare.text :: seen) pairs found)
    {pair : DrmSystem × ContentKey}
    (hpair : hlsAttributes pair.1 none = some bare)
    (hseen : bare.text ∉ seen) :
    SessionKeys seen (pair :: pairs) (bare.identity :: found) := by
  have hbare := keyId_hlsAttributes hpair
  refine ⟨List.nodup_cons.mpr
    ⟨h.fresh bare hbare (List.mem_cons_self ..), h.nodup⟩, ?_, ?_⟩
  · intro attributes hattributes hmem
    rw [List.mem_cons, not_or]
    refine ⟨fun heq => hseen ?_, h.fresh attributes hattributes
      (List.mem_cons_of_mem _ hmem)⟩
    rwa [← (text_eq_iff hattributes hbare).mpr heq]
  · refine List.forall_mem_cons.mpr ⟨?_, ?_⟩
    · intro attributes hattributes
      obtain rfl := Option.some.inj (hpair.symm.trans hattributes)
      exact .inr (List.mem_cons_self ..)
    · intro other hother attributes hattributes
      rcases h.complete other hother attributes hattributes with hmem | hmem
      · rcases List.mem_cons.mp hmem with heq | hmem
        · have hsame := (text_eq_iff
            (keyId_hlsAttributes hattributes) hbare).mp heq
          exact .inr (hsame ▸ List.mem_cons_self ..)
        · exact .inl hmem
      · exact .inr (List.mem_cons_of_mem _ hmem)

theorem keyIdentities_hlsTag_list (name : String)
    (attributes : KeyAttributes) :
    keyIdentities name [hlsTag name attributes.list] =
      [attributes.identity] := by
  unfold keyIdentities
  rw [List.filterMap_cons, lineIdentity_self, of_list]
  rfl

theorem sessionKeys_sessionKeyLines (seen : List String)
    (pairs : List (DrmSystem × ContentKey)) :
    SessionKeys seen pairs
      (keyIdentities "EXT-X-SESSION-KEY" (sessionKeyLines seen pairs)) := by
  induction pairs generalizing seen with
  | nil => exact ⟨List.nodup_nil, by simp [sessionKeyLines], by simp⟩
  | cons pair rest ih =>
      obtain ⟨system, key⟩ := pair
      unfold sessionKeyLines
      cases hnamed : hlsAttributes system none with
      | none => exact (ih seen).skip (by simp [hnamed])
      | some bare =>
          dsimp only
          split
          · next hseen => exact (ih seen).skip (by simpa [hnamed] using hseen)
          · next hseen =>
              obtain ⟨kept, hkept⟩ := hlsAttributes_some system key.keyId
              rw [hkept, hnamed, Option.map_some, Option.toList_some,
                List.map_singleton, keyIdentities_append,
                keyIdentities_hlsTag_list, List.singleton_append]
              exact (ih (bare.text :: seen)).cons hnamed hseen

/-- A system of one of the encryptions has the identity. -/
def Signalled (encryptions : List Encryption) (identity : KeyIdentity) :
    Prop :=
  ∃ encryption ∈ encryptions, ∃ period ∈ encryption.encryptedPeriods,
    ∃ system ∈ period.systems, systemIdentity system = some identity

theorem nodup_hlsSessionKeys (encryptions : List Encryption) :
    (keyIdentities "EXT-X-SESSION-KEY" (hlsSessionKeys encryptions)).Nodup :=
  (sessionKeys_sessionKeyLines [] _).nodup

theorem distinctKeys_ne_nil (period : PeriodKeys) :
    period.distinctKeys ≠ [] := by
  unfold PeriodKeys.distinctKeys
  split
  · simp
  · split <;> simp

theorem mem_hlsSessionKeys {encryptions : List Encryption}
    {identity : KeyIdentity} (h : Signalled encryptions identity) :
    identity ∈ keyIdentities "EXT-X-SESSION-KEY"
      (hlsSessionKeys encryptions) := by
  obtain ⟨encryption, hencryption, period, hperiod, system, hsystem,
    hidentity⟩ := h
  obtain ⟨attributes, hattributes, rfl⟩ := Option.map_eq_some_iff.mp hidentity
  obtain ⟨key, hkey⟩ := List.exists_mem_of_ne_nil _ (distinctKeys_ne_nil period)
  have hpair : (system, key) ∈
      (encryptions.flatMap Encryption.encryptedPeriods).flatMap fun period =>
        period.distinctKeys.flatMap fun key =>
          period.systems.map fun system => (system, key) :=
    List.mem_flatMap.mpr ⟨period,
      List.mem_flatMap.mpr ⟨encryption, hencryption, hperiod⟩,
      List.mem_flatMap.mpr ⟨key, hkey, List.mem_map_of_mem hsystem⟩⟩
  exact ((sessionKeys_sessionKeyLines [] _).complete _ hpair attributes
    hattributes).resolve_left List.not_mem_nil

/-! ## The key lines of media playlists -/

def KeyLine.identity : KeyLine → KeyIdentity
  | .clear => ⟨some (plainValue "NONE"), none, none, none, none⟩
  | .aes128 uri =>
      ⟨some (plainValue "AES-128"), some (quotedValue uri), none, none, none⟩
  | .sampleAes attributes _ => attributes.identity

theorem lineIdentity_keyLine (line : KeyLine) :
    lineIdentity "EXT-X-KEY" line.line = some line.identity := by
  cases line with
  | clear => decide
  | aes128 uri =>
      rw [KeyLine.line, lineIdentity_self]
      simp [KeyIdentity.of, KeyLine.identity, List.lookup_cons]
  | sampleAes attributes key =>
      rw [KeyLine.line, lineIdentity_self, of_list]
      rfl

/-- A method of a line that says where a key is for whole or no segments. -/
def ofWholeSegments (identity : KeyIdentity) : Prop :=
  identity.method = some (plainValue "NONE") ∨
    identity.method = some (plainValue "AES-128")

/-- Of no system, or of a system of one of the encryptions. -/
def KeyLine.From (encryptions : List Encryption) (line : KeyLine) : Prop :=
  ofWholeSegments line.identity ∨ Signalled encryptions line.identity

theorem Presentation.keysIn_from (presentation : Presentation)
    {encryptions : List Encryption}
    (h : ∀ encryption ∈ presentation.encryption, encryption ∈ encryptions) :
    presentation.KeysIn (KeyLine.From encryptions) where
  clear := .inl (.inl rfl)
  aes128 _ _ := .inl (.inr rfl)
  periods encryption hencryption period hperiod key line hline := by
    obtain ⟨system, hsystem, hnamed⟩ := List.mem_filterMap.mp hline
    obtain ⟨attributes, hattributes, rfl⟩ := Option.map_eq_some_iff.mp hnamed
    exact .inr ⟨encryption, h encryption hencryption, period, hperiod, system,
      hsystem, systemIdentity_eq_some hattributes⟩

/-- The line is no key line of either kind. -/
structure Keyless (line : TaggedLines.Line) : Prop where
  session : lineIdentity "EXT-X-SESSION-KEY" line = none
  key : lineIdentity "EXT-X-KEY" line = none

theorem keyless_text (raw : Text) : Keyless (.text raw) := ⟨rfl, rfl⟩

theorem keyless_hlsTag {tag : String} (hsession : tag ≠ "EXT-X-SESSION-KEY")
    (hkey : tag ≠ "EXT-X-KEY")
    (attributes : List (String × TaggedLines.Value)) :
    Keyless (hlsTag tag attributes) :=
  ⟨lineIdentity_of_ne hsession attributes, lineIdentity_of_ne hkey attributes⟩

theorem keyless_playlistOpening : ∀ line ∈ playlistOpening, Keyless line := by
  simp [playlistOpening, hlsLine, keyless_text]

theorem keyless_mediaOpening (target : ℕ) :
    ∀ line ∈ mediaOpening target, Keyless line := by
  simp [mediaOpening, playlistOpening, hlsLine, keyless_text]

theorem keyless_extinf (milliseconds : ℕ) (path : Text) (version : String) :
    ∀ line ∈ extinf milliseconds path version, Keyless line := by
  simp [extinf, keyless_text]

theorem keyless_mapLine (path : Text) (version : String) :
    Keyless (mapLine path version) :=
  keyless_hlsTag (by decide) (by decide) _

/-- The identities of a playlist's key lines are those of its keys. -/
theorem keyIdentities_playlistLines {version : String}
    {lines : List PlaylistLine} {encryptions : List Encryption}
    (h : ∀ line ∈ lines, line.KeyIn (KeyLine.From encryptions)) :
    ∀ identity ∈ keyIdentities "EXT-X-KEY" (playlistLines version lines),
      ofWholeSegments identity ∨ Signalled encryptions identity := by
  intro identity hidentity
  obtain ⟨written, hwritten, hidentity⟩ := List.mem_filterMap.mp hidentity
  obtain ⟨line, hline, hwritten⟩ := List.mem_flatMap.mp hwritten
  have hfrom := h line hline
  have hsilent : Keyless written → ofWholeSegments identity ∨
      Signalled encryptions identity := fun hkeyless =>
    absurd (hkeyless.key.symm.trans hidentity) (Option.some_ne_none _).symm
  cases line with
  | key line =>
      obtain rfl := List.mem_singleton.mp hwritten
      rw [lineIdentity_keyLine] at hidentity
      exact Option.some.inj hidentity ▸ hfrom
  | opening target =>
      refine hsilent ?_
      rcases List.mem_append.mp hwritten with hwritten | hwritten
      · exact keyless_mediaOpening target written hwritten
      · obtain rfl := List.mem_singleton.mp hwritten
        exact keyless_text _
  | map clip =>
      refine hsilent ?_
      cases clip <;>
        exact List.mem_singleton.mp hwritten ▸ keyless_mapLine _ _
  | segment milliseconds number =>
      exact hsilent (keyless_extinf _ _ _ written hwritten)
  | discontinuity | endList =>
      refine hsilent ?_
      obtain rfl := List.mem_singleton.mp hwritten
      exact keyless_text _

/-! ## The key lines of master playlists -/

/-- The session keys of a master playlist are those of the encryptions. -/
structure MasterKeys (encryptions : List Encryption)
    (lines : List TaggedLines.Line) : Prop where
  session : keyIdentities "EXT-X-SESSION-KEY" lines =
    keyIdentities "EXT-X-SESSION-KEY" (hlsSessionKeys encryptions)
  key : keyIdentities "EXT-X-KEY" lines = []

theorem MasterKeys.append {encryptions : List Encryption}
    {lines rest : List TaggedLines.Line} (h : MasterKeys encryptions lines)
    (hrest : ∀ line ∈ rest, Keyless line) :
    MasterKeys encryptions (lines ++ rest) where
  session := by
    rw [keyIdentities_append, h.session,
      keyIdentities_eq_nil fun line hline => (hrest line hline).session,
      List.append_nil]
  key := by
    rw [keyIdentities_append, h.key,
      keyIdentities_eq_nil fun line hline => (hrest line hline).key,
      List.append_nil]

theorem keyIdentities_sessionKeyLines (seen : List String)
    (pairs : List (DrmSystem × ContentKey)) :
    keyIdentities "EXT-X-KEY" (sessionKeyLines seen pairs) = [] := by
  induction pairs generalizing seen with
  | nil => rfl
  | cons pair rest ih =>
      unfold sessionKeyLines
      split
      · exact ih seen
      split
      · exact ih seen
      rw [keyIdentities_append, ih, List.append_nil]
      apply keyIdentities_eq_nil
      rw [List.forall_mem_map]
      exact fun attributes _ => lineIdentity_of_ne (by decide) _

theorem masterKeys_opening (encryptions : List Encryption) :
    MasterKeys encryptions
      (playlistOpening ++ hlsSessionKeys encryptions) where
  session := by
    rw [keyIdentities_append, keyIdentities_eq_nil fun line hline =>
      (keyless_playlistOpening line hline).session, List.nil_append]
  key := by
    rw [keyIdentities_append, keyIdentities_eq_nil fun line hline =>
      (keyless_playlistOpening line hline).key]
    exact keyIdentities_sessionKeyLines _ _

theorem keyless_streamInf (peak average : ℕ) (codecs : Text)
    (resolution : Option (ℕ × ℕ)) (audio subtitles : Bool) (path : Text)
    (version : String) :
    ∀ line ∈ streamInf peak average codecs resolution audio subtitles path
      version, Keyless line := by
  unfold streamInf
  rw [List.forall_mem_cons, List.forall_mem_singleton]
  exact ⟨keyless_hlsTag (by decide) (by decide) _, keyless_text _⟩

theorem keyless_iframeStream {presentation : MediaPresentation}
    {stream : Option TaggedLines.Line}
    (h : iframeStream presentation = .ok stream) :
    ∀ line ∈ stream.toList, Keyless line := by
  unfold iframeStream at h
  split at h
  · obtain rfl := Except.ok.inj h
    simp
  split at h
  · obtain rfl := Except.ok.inj h
    simp
  obtain ⟨frames, -, h⟩ := bind_eq_ok_iff.mp h
  split at h
  · obtain rfl := Except.ok.inj h
    rw [Option.toList_some, List.forall_mem_singleton]
    exact keyless_hlsTag (by decide) (by decide) _
  · obtain rfl := Except.ok.inj h
    simp

theorem masterKeys_masterPlaylist {presentation : MediaPresentation}
    {lines : List TaggedLines.Line}
    (h : Hls.masterPlaylist presentation = .ok lines) :
    MasterKeys presentation.encryption.toList lines := by
  unfold Hls.masterPlaylist at h
  dsimp only at h
  split at h
  · cases h
  obtain ⟨rates, -, h⟩ := bind_eq_ok_iff.mp h
  obtain ⟨iframes, hiframes, h⟩ := bind_eq_ok_iff.mp h
  obtain rfl := Except.ok.inj h
  refine ((((masterKeys_opening _).append ?_).append ?_).append
    (keyless_iframeStream hiframes)).append
      (keyless_streamInf _ _ _ _ _ _ _ _)
  · intro line hline
    obtain ⟨-, hline⟩ := List.mem_ite_nil_right.mp hline
    obtain ⟨index, hindex, rfl⟩ := List.mem_mapIdx.mp hline
    exact keyless_hlsTag (by decide) (by decide) _
  · rw [List.forall_mem_map]
    exact fun subtitle _ => keyless_hlsTag (by decide) (by decide) _

theorem masterKeys_adaptiveMasterPlaylist {version : String}
    {video : List AdaptiveVideo} {audio : List AdaptiveAudio}
    {subtitles : List Subtitle} {iframes : Option TaggedLines.Line}
    (hiframes : ∀ line ∈ iframes.toList, Keyless line)
    {encryption : Option Encryption} {lines : List TaggedLines.Line}
    (h : adaptiveMasterPlaylist version video audio subtitles iframes
      encryption = .ok lines) :
    MasterKeys encryption.toList lines := by
  unfold adaptiveMasterPlaylist at h
  split at h
  · cases h
  obtain rfl := Except.ok.inj h
  refine ((((masterKeys_opening _).append ?_).append ?_).append
    hiframes).append ?_
  · intro line hline
    obtain ⟨index, hindex, rfl⟩ := List.mem_mapIdx.mp hline
    exact keyless_hlsTag (by decide) (by decide) _
  · rw [List.forall_mem_map]
    exact fun subtitle _ => keyless_hlsTag (by decide) (by decide) _
  · intro line hline
    obtain ⟨entry, -, hline⟩ := List.mem_flatMap.mp hline
    exact keyless_streamInf _ _ _ _ _ _ _ _ line hline

theorem keyless_sequenceAudioRendition {clips : List MediaClip}
    {first : MediaPresentation} {version : String} {entry : TrackKey × ℕ}
    {line : TaggedLines.Line}
    (h : sequenceAudioRendition clips first version entry = .ok line) :
    Keyless line := by
  unfold sequenceAudioRendition at h
  dsimp only at h
  split at h
  · obtain rfl := Except.ok.inj h
    exact keyless_hlsTag (by decide) (by decide) _
  · obtain ⟨track, -, h⟩ := bind_eq_ok_iff.mp h
    obtain rfl := Except.ok.inj h
    exact keyless_hlsTag (by decide) (by decide) _

theorem masterKeys_sequenceMasterPlaylist {clips : List MediaClip}
    {version : String} {lines : List TaggedLines.Line}
    (h : sequenceMasterPlaylist clips version = .ok lines) :
    MasterKeys (clips.filterMap fun clip => clip.presentation.encryption)
      lines := by
  unfold sequenceMasterPlaylist at h
  obtain ⟨first, -, h⟩ := bind_eq_ok_iff.mp h
  dsimp only at h
  obtain ⟨renditions, hrenditions, ⟨variant, average⟩, -, h⟩ :
      ∃ renditions : List TaggedLines.Line,
        (∀ line ∈ renditions, Keyless line) ∧ ∃ found,
          sequenceVariantWith true clips = .ok found ∧ _ = _ := by
    split at h
    · obtain ⟨renditions, hrenditions, h⟩ := bind_eq_ok_iff.mp h
      refine ⟨renditions, ?_, bind_eq_ok_iff.mp h⟩
      intro line hline
      obtain ⟨entry, -, hentry⟩ := exists_of_mem_mapM hrenditions hline
      exact keyless_sequenceAudioRendition hentry
    · exact ⟨[], by simp, bind_eq_ok_iff.mp h⟩
  obtain rfl := Except.ok.inj h
  exact ((masterKeys_opening _).append hrenditions).append
    (keyless_streamInf _ _ _ _ _ _ _ _)

theorem masterKeys_adaptiveSequenceMasterPlaylist {version : String}
    {video : List SequenceVideo} {audio : List SequenceAudio}
    {lines : List TaggedLines.Line}
    (h : adaptiveSequenceMasterPlaylist version video audio = .ok lines) :
    MasterKeys [] lines := by
  unfold adaptiveSequenceMasterPlaylist at h
  obtain ⟨variants, -, h⟩ := bind_eq_ok_iff.mp h
  obtain ⟨renditions, hrenditions, h⟩ := bind_eq_ok_iff.mp h
  obtain ⟨codecs, -, h⟩ := bind_eq_ok_iff.mp h
  obtain rfl := Except.ok.inj h
  have hopening : MasterKeys [] playlistOpening := by
    simpa [hlsSessionKeys, sessionKeyLines] using masterKeys_opening []
  refine (hopening.append ?_).append ?_
  · intro line hline
    obtain ⟨entry, -, hentry⟩ := exists_of_mem_mapM hrenditions hline
    unfold sequenceAudioMedia at hentry
    obtain ⟨tracks, -, hentry⟩ := bind_eq_ok_iff.mp hentry
    obtain ⟨details, -, hentry⟩ := bind_eq_ok_iff.mp hentry
    obtain rfl := Except.ok.inj hentry
    exact keyless_hlsTag (by decide) (by decide) _
  · intro line hline
    obtain ⟨entry, -, hline⟩ := List.mem_flatMap.mp hline
    exact keyless_streamInf _ _ _ _ _ _ _ _ line hline

/-! ## Titles -/

namespace Title

def hlsMaster : Title → Result (List TaggedLines.Line)
  | .single file subtitles =>
      Hls.masterPlaylist (singlePresentation file subtitles)
  | .composite title => title.hlsMaster
  | .sequence title => sequenceMasterPlaylist title.views title.version
  | .adaptive title => title.hlsMaster

/-- The encryptions a title's master playlist is written from. -/
def encryptions : Title → List Encryption
  | .single file _ => file.asset.encryption.toList
  | .composite title => title.encryption.toList
  | .sequence title => title.clips.filterMap fun clip => clip.1.asset.encryption
  | .adaptive _ => []

/-- Renditions are encrypted with the keys of the whole answer, and clips of
renditions with none. -/
def SharesKeys : Title → Prop
  | .composite title =>
      (∀ entry ∈ title.grid.video,
        entry.asset.asset.encryption = title.encryption) ∧
      ∀ entry ∈ title.grid.audio,
        (title.grid.ownerAsset entry.owner).asset.encryption =
          title.encryption
  | .adaptive title => ∀ grid ∈ title.grids,
      (∀ entry ∈ grid.video, entry.asset.asset.encryption = none) ∧
      ∀ entry ∈ grid.audio,
        (grid.ownerAsset entry.owner).asset.encryption = none
  | _ => True

end Title

theorem masterKeys_hlsMaster {title : Title} {lines : List TaggedLines.Line}
    (h : title.hlsMaster = .ok lines) :
    MasterKeys title.encryptions lines := by
  cases title with
  | single file subtitles => exact masterKeys_masterPlaylist h
  | composite title =>
      obtain ⟨video, -, h⟩ := bind_eq_ok_iff.mp h
      obtain ⟨audio, -, h⟩ := bind_eq_ok_iff.mp h
      obtain ⟨source, -, h⟩ := bind_eq_ok_iff.mp h
      obtain ⟨iframes, hiframes, h⟩ := bind_eq_ok_iff.mp h
      exact masterKeys_adaptiveMasterPlaylist (keyless_iframeStream hiframes) h
  | sequence title =>
      have hkeys := masterKeys_sequenceMasterPlaylist h
      unfold SequenceTitle.views at hkeys
      rw [List.filterMap_map] at hkeys
      exact hkeys
  | adaptive title =>
      obtain ⟨video, -, h⟩ := bind_eq_ok_iff.mp h
      obtain ⟨audio, -, h⟩ := bind_eq_ok_iff.mp h
      exact masterKeys_adaptiveSequenceMasterPlaylist h

/-- The key lines of a playlist are of the encryptions' systems, or of no
system. -/
def KeysFrom (encryptions : List Encryption) (lines : List TaggedLines.Line) :
    Prop :=
  ∀ identity ∈ keyIdentities "EXT-X-KEY" lines,
    ofWholeSegments identity ∨ Signalled encryptions identity

theorem MasterKeys.keysFrom {encryptions : List Encryption}
    {lines : List TaggedLines.Line} (h : MasterKeys encryptions lines) :
    KeysFrom encryptions lines := by
  unfold KeysFrom
  rw [h.key]
  simp

theorem keysFrom_keyless {encryptions : List Encryption}
    {lines : List TaggedLines.Line} (h : ∀ line ∈ lines, Keyless line) :
    KeysFrom encryptions lines := by
  unfold KeysFrom
  rw [keyIdentities_eq_nil fun line hline => (h line hline).key]
  simp

theorem KeysFrom.append {encryptions : List Encryption}
    {lines others : List TaggedLines.Line} (h : KeysFrom encryptions lines)
    (hothers : KeysFrom encryptions others) :
    KeysFrom encryptions (lines ++ others) := by
  unfold KeysFrom
  rw [keyIdentities_append, List.forall_mem_append]
  exact ⟨h, hothers⟩

theorem keysFrom_iframePlaylist {presentation : MediaPresentation}
    {encryptions : List Encryption}
    (hkeys : ∀ encryption ∈ presentation.encryption,
      encryption ∈ encryptions) {lines : List TaggedLines.Line}
    (h : Hls.iframePlaylist presentation = .ok (some lines)) :
    KeysFrom encryptions lines := by
  unfold Hls.iframePlaylist at h
  split at h
  · cases h
  split at h
  · cases h
  obtain ⟨frames, -, h⟩ := bind_eq_ok_iff.mp h
  obtain ⟨entries, hentries, h⟩ := bind_eq_ok_iff.mp h
  obtain rfl := Option.some.inj (Except.ok.inj h)
  refine (KeysFrom.append ?_ ?_).append (keysFrom_keyless (by
    rw [List.forall_mem_singleton]
    exact keyless_text _))
  · refine (KeysFrom.append ?_ ?_).append (keysFrom_keyless (by
      rw [List.forall_mem_singleton]
      exact keyless_mapLine _ _))
    · apply keysFrom_keyless
      rw [List.forall_mem_append, List.forall_mem_singleton]
      exact ⟨keyless_mediaOpening _, keyless_text _⟩
    · exact keyIdentities_playlistLines
        (keyIn_keyLines (presentation.keysIn_from hkeys) _)
  · apply keysFrom_keyless
    intro line hline
    obtain ⟨entry, hentry, hline⟩ := List.mem_flatten.mp hline
    obtain ⟨frame, -, hframe⟩ := exists_of_mem_mapM hentries hentry
    obtain ⟨milliseconds, -, hframe⟩ := bind_eq_ok_iff.mp hframe
    obtain rfl := Except.ok.inj hframe
    exact keyless_extinf _ _ _ line hline

theorem keysFrom_subtitlePlaylist (presentation : MediaPresentation)
    (encryptions : List Encryption) :
    KeysFrom encryptions (Hls.subtitlePlaylist presentation) := by
  apply keysFrom_keyless
  unfold Hls.subtitlePlaylist
  simp only [List.forall_mem_append, List.forall_mem_singleton]
  exact ⟨⟨keyless_mediaOpening _, keyless_extinf _ _ _⟩, keyless_text _⟩

theorem keysFrom_tracksOf {encryptions : List Encryption} {version : String}
    {playlists : List (Result (List PlaylistLine))}
    (h : ∀ lines, .ok lines ∈ playlists →
      ∀ line ∈ lines, line.KeyIn (KeyLine.From encryptions)) :
    ∀ lines, .ok lines ∈ Title.tracksOf version playlists →
      KeysFrom encryptions lines := by
  intro lines hlines
  obtain ⟨playlist, hplaylist, hlines⟩ := List.mem_map.mp hlines
  cases playlist with
  | error error => cases hlines
  | ok found =>
      obtain rfl := Except.ok.inj hlines
      exact keyIdentities_playlistLines (h found hplaylist)

theorem keysFrom_rowsOf {encryptions : List Encryption} {version : String}
    {playlists : Result (List (List PlaylistLine))}
    (h : ∀ rows, playlists = .ok rows → ∀ lines ∈ rows,
      ∀ line ∈ lines, line.KeyIn (KeyLine.From encryptions)) :
    ∀ lines, .ok lines ∈ Title.rowsOf version playlists →
      KeysFrom encryptions lines := by
  cases playlists with
  | error error => simp [Title.rowsOf]
  | ok rows =>
      refine keysFrom_tracksOf fun lines hlines => ?_
      obtain ⟨found, hfound, heq⟩ := List.mem_map.mp hlines
      obtain rfl := Except.ok.inj heq
      exact h rows rfl found hfound

/-- The clips of a row of renditions have no keys of their own. -/
theorem AdaptiveSequence.encryption_rowClips {sequence : AdaptiveSequence}
    {file : ClipGrid RenditionFile → Result RenditionFile}
    (hfile : ∀ grid ∈ sequence.grids, ∀ found, file grid = .ok found →
      found.asset.encryption = none)
    {firsts : List ℕ} {clips : List MediaClip}
    (h : sequence.rowClips file firsts = .ok clips) :
    ∀ clip ∈ clips.map MediaClip.toSequenceClip,
      clip.presentation.KeysIn (KeyLine.From []) := by
  rw [List.forall_mem_map]
  intro clip hclip
  obtain ⟨⟨⟨grid, firstSegment⟩, start⟩, hentry, hclip⟩ :=
    exists_of_mem_mapM h hclip
  obtain ⟨found, hfound, hclip⟩ := bind_eq_ok_iff.mp hclip
  obtain rfl := Except.ok.inj hclip
  have hnone := hfile grid
    (List.of_mem_zip (List.of_mem_zip hentry).1).1 found hfound
  refine Presentation.keysIn_from _ fun encryption hencryption => ?_
  change encryption ∈ found.asset.encryption at hencryption
  rw [hnone] at hencryption
  cases hencryption

theorem keysFrom_playlists {title : Title} (hshared : title.SharesKeys) :
    ∀ lines, .ok lines ∈ title.playlists →
      KeysFrom title.encryptions lines := by
  intro lines hlines
  have hmaster : ∀ {lines}, title.hlsMaster = .ok lines →
      KeysFrom title.encryptions lines := fun h =>
    (masterKeys_hlsMaster h).keysFrom
  cases title with
  | single file subtitles =>
      have hkeys : ∀ encryption ∈
          (singlePresentation file subtitles).encryption,
          encryption ∈ (Title.single file subtitles).encryptions :=
        fun encryption hencryption => Option.mem_toList.mpr hencryption
      rcases List.mem_append.mp hlines with hlines | hlines
      · simp only [List.mem_cons, List.not_mem_nil, or_false] at hlines
        rcases hlines with hlines | hiframes | hsubtitle
        · exact hmaster hlines.symm
        · obtain ⟨playlist, hplaylist, hok⟩ := bind_eq_ok_iff.mp hiframes.symm
          obtain rfl := okOr_eq_ok_iff.mp hok
          exact keysFrom_iframePlaylist hkeys hplaylist
        · obtain rfl := Except.ok.inj hsubtitle
          exact keysFrom_subtitlePlaylist _ _
      · refine keysFrom_tracksOf (fun lines hlines => ?_) lines hlines
        obtain ⟨track, -, hmedia⟩ := List.mem_map.mp hlines
        exact keyIn_mediaPlaylist (Presentation.keysIn_from _ hkeys) hmedia
  | composite title =>
      have hkeys : ∀ file : RenditionFile,
          file.asset.encryption = title.encryption →
          ∀ encryption ∈ (title.presentationFor file).encryption,
            encryption ∈ (Title.composite title).encryptions := by
        intro file hfile encryption hencryption
        exact Option.mem_toList.mpr (hfile ▸ hencryption)
      rcases List.mem_append.mp hlines with hlines | hlines
      · simp only [List.mem_cons, List.not_mem_nil, or_false] at hlines
        rcases hlines with hlines | hiframes | hsubtitle
        · exact hmaster hlines.symm
        · obtain ⟨source, hsource, hrest⟩ := bind_eq_ok_iff.mp hiframes.symm
          obtain ⟨playlist, hplaylist, hok⟩ := bind_eq_ok_iff.mp hrest
          obtain rfl := okOr_eq_ok_iff.mp hok
          obtain ⟨file, hfile, rfl⟩ :=
            Option.map_eq_some_iff.mp (okOr_eq_ok_iff.mp hsource)
          obtain ⟨entry, hentry, rfl⟩ :=
            List.mem_map.mp (List.argmin_mem hfile)
          exact keysFrom_iframePlaylist
            (hkeys _ (hshared.1 entry hentry)) hplaylist
        · obtain ⟨source, hsource, hrest⟩ := bind_eq_ok_iff.mp hsubtitle.symm
          obtain rfl := Except.ok.inj hrest
          exact keysFrom_subtitlePlaylist _ _
      · refine keysFrom_tracksOf (fun lines hlines => ?_) lines hlines
        rcases List.mem_append.mp hlines with hlines | hlines
        · obtain ⟨entry, hentry, hmedia⟩ := List.mem_map.mp hlines
          exact keyIn_mediaPlaylist (Presentation.keysIn_from _
            (hkeys _ (hshared.1 entry hentry))) hmedia
        · obtain ⟨entry, hentry, hmedia⟩ := List.mem_map.mp hlines
          exact keyIn_mediaPlaylist (Presentation.keysIn_from _
            (hkeys _ (hshared.2 entry hentry))) hmedia
  | sequence title =>
      rcases List.mem_cons.mp hlines with hlines | hlines
      · exact hmaster hlines.symm
      · refine keysFrom_tracksOf (fun lines hlines => ?_) lines hlines
        obtain ⟨track, -, hmedia⟩ := List.mem_map.mp hlines
        refine keyIn_sequenceMediaPlaylist ?_ hmedia
        unfold SequenceTitle.views
        rw [List.map_map, List.forall_mem_map]
        intro clip hclip
        refine Presentation.keysIn_from _ fun encryption hencryption => ?_
        exact List.mem_filterMap.mpr ⟨clip, hclip, hencryption⟩
  | adaptive title =>
      rcases List.mem_cons.mp hlines with hlines | hlines
      · exact hmaster hlines.symm
      rcases List.mem_append.mp hlines with hlines | hlines
      · refine keysFrom_rowsOf (fun rows hrows found hfound => ?_) lines hlines
        obtain ⟨video, hvideo, hrows⟩ := bind_eq_ok_iff.mp hrows
        obtain ⟨row, hrow, hmedia⟩ := exists_of_mem_mapM hrows hfound
        unfold AdaptiveSequence.video at hvideo
        obtain ⟨entry, -, hrow⟩ := exists_of_mem_mapM hvideo hrow
        obtain ⟨clips, hclips, hrow⟩ := bind_eq_ok_iff.mp hrow
        obtain rfl := Except.ok.inj hrow
        refine keyIn_sequenceMediaPlaylist
          (AdaptiveSequence.encryption_rowClips ?_ hclips) hmedia
        intro grid hgrid file hfile
        obtain ⟨owned, howned, rfl⟩ :=
          Option.map_eq_some_iff.mp (okOr_eq_ok_iff.mp hfile)
        exact (hshared grid hgrid).1 owned (List.mem_of_getElem? howned)
      · refine keysFrom_rowsOf (fun rows hrows found hfound => ?_) lines hlines
        obtain ⟨audio, haudio, hrows⟩ := bind_eq_ok_iff.mp hrows
        obtain ⟨row, hrow, hmedia⟩ := exists_of_mem_mapM hrows hfound
        unfold AdaptiveSequence.audio at haudio
        obtain ⟨entry, -, hrow⟩ := exists_of_mem_mapM haudio hrow
        unfold AdaptiveSequence.audioRow at hrow
        obtain ⟨clips, hclips, hrow⟩ := bind_eq_ok_iff.mp hrow
        obtain ⟨key, -, hrow⟩ := bind_eq_ok_iff.mp hrow
        obtain rfl := Except.ok.inj hrow
        refine keyIn_sequenceMediaPlaylist
          (AdaptiveSequence.encryption_rowClips ?_ hclips) hmedia
        intro grid hgrid file hfile
        obtain ⟨owned, howned, rfl⟩ :=
          Option.map_eq_some_iff.mp (okOr_eq_ok_iff.mp hfile)
        exact (hshared grid hgrid).2 owned (List.mem_of_getElem? howned)

/-- A master playlist has no two session keys of one identity, and one for
every key of a system that a playlist of the title names. -/
theorem session_keys_are_union {title : Title}
    (hshared : title.SharesKeys) {master : List TaggedLines.Line}
    (h : title.hlsMaster = .ok master) :
    (keyIdentities "EXT-X-SESSION-KEY" master).Nodup ∧
      ∀ lines, .ok lines ∈ title.playlists →
        ∀ identity ∈ keyIdentities "EXT-X-KEY" lines,
          identity.method ≠ some (plainValue "NONE") →
          identity.method ≠ some (plainValue "AES-128") →
          identity ∈ keyIdentities "EXT-X-SESSION-KEY" master := by
  rw [(masterKeys_hlsMaster h).session]
  refine ⟨nodup_hlsSessionKeys _, ?_⟩
  intro lines hlines identity hidentity hnone haes128
  rcases keysFrom_playlists hshared lines hlines identity hidentity with
    hwhole | hsignalled
  · exact (hwhole.elim hnone haes128).elim
  · exact mem_hlsSessionKeys hsignalled

/-- A file of video and audio, as it is packaged. -/
def clipFile (asset : PackagedAsset) : RenditionFile where
  asset := asset
  details := fun track =>
    if track = 1 then
      { language := "und".toList
        label := none
        duration := 2000
        codec := .avc 640 360 100 0 31 }
    else
      { language := "eng".toList
        label := none
        duration := 500
        codec := .aac 48000 2 2 }
  audioDefault := false

/-- Three clips: one key with FairPlay, another with Clear Key, and the first
again. -/
def rekeyedTitle : Title :=
  .sequence
    { clips :=
        [(clipFile (encryptedClip sampleEncryption.toPeriodKeys), 0, .zero),
          (clipFile (encryptedClip rekeyedEncryption.toPeriodKeys), 2,
            ⟨2000000000, by decide⟩),
          (clipFile (encryptedClip sampleEncryption.toPeriodKeys), 4,
            ⟨4000000000, by decide⟩)]
      total := ⟨6000000000, by decide⟩
      version := "0123456789abcdef" }

def fairPlayIdentity : KeyIdentity :=
  (KeyAttributes.mk "skd://a" none .fairPlay).identity

def clearKeyIdentity : KeyIdentity :=
  (KeyAttributes.mk "https://l.example.net/ck" none .clearKey).identity

theorem exists_playlist {title : Title} {position : ℕ}
    {found : List KeyIdentity}
    (h : title.playlists[position]?.map (fun playlist =>
      playlist.map (keyIdentities "EXT-X-KEY")) = some (.ok found)) :
    ∃ lines, .ok lines ∈ title.playlists ∧
      keyIdentities "EXT-X-KEY" lines = found := by
  obtain ⟨playlist, hplaylist, hlines⟩ := Option.map_eq_some_iff.mp h
  cases playlist with
  | error error => cases hlines
  | ok lines =>
      exact ⟨lines, List.mem_of_getElem? hplaylist, Except.ok.inj hlines⟩

/-- The playlist of the clips names FairPlay twice and the master once. -/
theorem session_keys_are_union_rekeyed :
    ∃ master lines, rekeyedTitle.hlsMaster = .ok master ∧
      .ok lines ∈ rekeyedTitle.playlists ∧
      keyIdentities "EXT-X-KEY" lines =
        [fairPlayIdentity, clearKeyIdentity, fairPlayIdentity] ∧
      (keyIdentities "EXT-X-SESSION-KEY" master).Nodup ∧
      fairPlayIdentity ∈ keyIdentities "EXT-X-SESSION-KEY" master ∧
      clearKeyIdentity ∈ keyIdentities "EXT-X-SESSION-KEY" master := by
  obtain ⟨master, hmaster⟩ := exists_ok_of_isOk (x := rekeyedTitle.hlsMaster)
    (by decide +kernel)
  obtain ⟨lines, hlines, hidentities⟩ := @exists_playlist rekeyedTitle 1
    [fairPlayIdentity, clearKeyIdentity, fairPlayIdentity] (by decide +kernel)
  obtain ⟨hnodup, hall⟩ :=
    @session_keys_are_union rekeyedTitle trivial master hmaster
  refine ⟨master, lines, hmaster, hlines, hidentities, hnodup, ?_, ?_⟩
  · exact hall lines hlines _ (by simp [hidentities]) (by decide)
      (by decide)
  · exact hall lines hlines _ (by simp [hidentities]) (by decide)
      (by decide)

def wholeIdentity : KeyIdentity where
  method := some (plainValue "AES-128")
  uri := some (quotedValue "https://keys.example.com/k1")
  iv := none
  keyFormat := none
  keyFormatVersions := none

/-- A title encrypted whole names its key in the media playlists alone. -/
theorem whole_key_without_session :
    ∃ master lines,
      (Title.single (clipFile (shortAudioAsset 0)) []).hlsMaster =
        .ok master ∧
      .ok lines ∈
        (Title.single (clipFile (shortAudioAsset 0)) []).playlists ∧
      keyIdentities "EXT-X-KEY" lines = [wholeIdentity] ∧
      keyIdentities "EXT-X-SESSION-KEY" master = [] ∧
      ¬ ∀ title : Title, title.SharesKeys →
        ∀ master, title.hlsMaster = .ok master →
        ∀ lines, .ok lines ∈ title.playlists →
          ∀ identity ∈ keyIdentities "EXT-X-KEY" lines,
            identity.method ≠ some (plainValue "NONE") →
            identity ∈ keyIdentities "EXT-X-SESSION-KEY" master := by
  obtain ⟨master, hmaster⟩ := exists_ok_of_isOk
    (x := (Title.single (clipFile (shortAudioAsset 0)) []).hlsMaster)
    (by decide +kernel)
  obtain ⟨lines, hlines, hidentities⟩ := @exists_playlist
    (.single (clipFile (shortAudioAsset 0)) []) 3 [wholeIdentity]
    (by decide +kernel)
  have hsession : keyIdentities "EXT-X-SESSION-KEY" master = [] :=
    (masterKeys_hlsMaster hmaster).session
  refine ⟨master, lines, hmaster, hlines, hidentities, hsession,
    fun hall => ?_⟩
  have hmem := hall (.single (clipFile (shortAudioAsset 0)) []) trivial master
    hmaster lines hlines wholeIdentity (by simp [hidentities])
    (by decide)
  rw [hsession] at hmem
  cases hmem

end Segmentor
