import Segmentor.InitDescriptions

/-!
# Init segments describe their tracks

Reading `moov` of an init segment gives the tracks that were asked for, in
order, each with the handler, the timescale, the language and the codec of the
source's, with no samples, no duration and no edit.
-/

namespace Segmentor

open General

namespace InitSegment

open MoovReader

/-! ## Sample tables -/

def sampleTableBoxes (described : List UInt8) : List BoxSpec :=
  [(code 's' 't' 's' 'd', described),
    (code 's' 't' 't' 's', List.replicate 8 0),
    (code 's' 't' 's' 'c', List.replicate 8 0),
    (code 's' 't' 's' 'z', List.replicate 12 0),
    (code 's' 't' 'c' 'o', List.replicate 8 0)]

theorem sampleTableBox_eq_ok {sampleTable written : List UInt8} {trackId : ℕ}
    {protection : Option InitProtection}
    (h : sampleTableBox sampleTable trackId protection = .ok written) :
    ∃ description described,
      requiredChild sampleTable (code 's' 't' 's' 'd') = .ok description ∧
        sampleDescription description.payload trackId protection =
          .ok described ∧
        written = boxesBytes (sampleTableBoxes described) ∧
          ∀ box ∈ sampleTableBoxes described, box.Fits := by
  unfold sampleTableBox at h
  obtain ⟨description, hdescription, h⟩ := bind_eq_ok_iff.mp h
  obtain ⟨described, hdescribed, h⟩ := bind_eq_ok_iff.mp h
  obtain ⟨stsd, hstsd, h⟩ := bind_eq_ok_iff.mp h
  obtain ⟨stts, hstts, h⟩ := bind_eq_ok_iff.mp h
  obtain ⟨stsc, hstsc, h⟩ := bind_eq_ok_iff.mp h
  obtain ⟨stsz, hstsz, h⟩ := bind_eq_ok_iff.mp h
  obtain ⟨stco, hstco, h⟩ := bind_eq_ok_iff.mp h
  obtain rfl := Except.ok.inj h
  obtain ⟨hstsdSize, rfl⟩ := writeBox_eq_ok_iff.mp hstsd
  obtain ⟨hsttsSize, rfl⟩ := writeBox_eq_ok_iff.mp hstts
  obtain ⟨hstscSize, rfl⟩ := writeBox_eq_ok_iff.mp hstsc
  obtain ⟨hstszSize, rfl⟩ := writeBox_eq_ok_iff.mp hstsz
  obtain ⟨hstcoSize, rfl⟩ := writeBox_eq_ok_iff.mp hstco
  refine ⟨description, described, hdescription, hdescribed, ?_, ?_⟩
  · simp only [sampleTableBoxes, boxesBytes_cons, boxesBytes_nil,
      List.append_nil]
  · simp only [sampleTableBoxes, List.forall_mem_cons, List.not_mem_nil,
      false_imp_iff, implies_true, and_true]
    exact ⟨⟨rfl, hstsdSize⟩, ⟨rfl, hsttsSize⟩, ⟨rfl, hstscSize⟩,
      ⟨rfl, hstszSize⟩, ⟨rfl, hstcoSize⟩⟩

section

variable {described : List UInt8}

theorem requiredChild_stsd
    (h : ∀ box ∈ sampleTableBoxes described, box.Fits) :
    requiredChild (boxesBytes (sampleTableBoxes described))
      (code 's' 't' 's' 'd') =
        .ok (BoxSpec.raw (code 's' 't' 's' 'd', described)) :=
  requiredChild_boxesBytes h rfl

theorem sampleEntry_written {entry : RawBox}
    (h : ∀ box ∈ sampleTableBoxes described, box.Fits)
    (hentry : describedEntry described = .ok entry) :
    MoovReader.sampleEntry (boxesBytes (sampleTableBoxes described)) =
      .ok entry := by
  unfold MoovReader.sampleEntry
  rw [requiredChild_stsd h, ok_bind]
  exact hentry

/-- The tables that are written hold no samples. -/
theorem sampleCount_written
    (h : ∀ box ∈ sampleTableBoxes described, box.Fits) :
    sampleCount (boxesBytes (sampleTableBoxes described)) = .ok 0 := by
  have hzero : readSampleCount.run' (List.replicate 12 0) = .ok 0 := by
    decide
  unfold sampleCount
  rw [optionalChild_boxesBytes h, ok_bind]
  exact hzero

/-- A track whose entry can be read is packaged. -/
theorem classifySampleDescription_written {kind : TrackKind}
    {handler : List UInt8} {trackId : ℕ} {entry : RawBox}
    {sinf : Option Sinf} {codec : CodecConfig}
    (h : ∀ box ∈ sampleTableBoxes described, box.Fits)
    (hentry : describedEntry described = .ok entry)
    (hdescribes : Describes kind handler trackId entry sinf codec) :
    classifySampleDescription trackId handler
      (boxesBytes (sampleTableBoxes described)) = .ok .package := by
  obtain ⟨head, rest, entries, hhead, hwhole, -, -⟩ :=
    describedEntry_eq_ok_iff.mp hentry
  unfold classifySampleDescription
  rw [requiredChild_stsd h, ok_bind]
  dsimp only [BoxSpec.raw]
  rw [readOnly_eq_ok_iff.mpr ⟨head, hhead, hwhole⟩, ok_bind,
    sampleEntry_written h hentry, ok_bind]
  by_cases hprotected : entry.name ∈ protectedEntries
  · have hsinf := hdescribes.sinf_read
    rw [entrySinf_protected hprotected] at hsinf
    obtain ⟨children, hchildren, hsinf⟩ := bind_eq_ok_iff.mp hsinf
    obtain ⟨info, hinfo, -⟩ := bind_eq_ok_iff.mp hsinf
    obtain ⟨boxes, hboxes, hfind⟩ := requiredChild_eq_ok_iff.mp hinfo
    have hfound : optionalChild children (code 's' 'i' 'n' 'f') =
        .ok (some info) := optionalChild_eq_ok_iff.mpr ⟨boxes, hboxes, hfind⟩
    rw [if_neg fun hin => notMem_protectedEntries hin hprotected,
      if_pos hprotected, hchildren, ok_bind, hfound, ok_bind]
    rfl
  · have hsinf := hdescribes.sinf_read
    have hcodec := hdescribes.codec_read
    rw [entrySinf_clear hprotected] at hsinf
    obtain rfl := Except.ok.inj hsinf
    have hpackaged : entry.name ∈ packagedEntries :=
      mem_packagedEntries_of_parseCodec hcodec
    rw [if_pos hpackaged]

end

/-! ## One track -/

/-- The sample entry of a track that is packaged. -/
def trackEntry (raw : RawTrack) : Result RawBox := do
  let media ← requiredChild raw.trak (code 'm' 'd' 'i' 'a')
  let mediaInfo ← requiredChild media.payload (code 'm' 'i' 'n' 'f')
  let sampleTable ← requiredChild mediaInfo.payload (code 's' 't' 'b' 'l')
  MoovReader.sampleEntry sampleTable.payload

/-- A packaged track whose boxes can be read. -/
structure Packaged (raw : RawTrack) (entry : RawBox)
    (description : TrackDescription) : Prop where
  disposition : raw.disposition = .package
  described : describeTrack raw = .ok description
  entry_read : trackEntry raw = .ok entry
  fits : entry.name ∈ protectedEntries →
    Codec.ProtectedFor (kindOf raw.handler) entry.name

/-- A protected entry is of its track's kind. -/
def EntryFits (raw : RawTrack) : Prop :=
  ∀ entry, trackEntry raw = .ok entry → entry.name ∈ protectedEntries →
    Codec.ProtectedFor (kindOf raw.handler) entry.name

/-- The type of an entry without protection. -/
def formatOf (entry : RawBox) (description : TrackDescription) : List UInt8 :=
  description.sinf.elim entry.name Sinf.originalFormat

/-- A track that can be encrypted.  Where its entry is not protected yet,
another box can be put into it. -/
structure Protectable (protection : InitProtection) (raw : RawTrack)
    (entry : RawBox) (description : TrackDescription) : Prop where
  sound : protection.Sound
  codec : Codec.encryptable description.codec = true
  extensible : entry.name ∉ protectedEntries →
    Extensible (kindOf raw.handler) raw.id entry

/-- What an init segment says of a track. -/
structure Announces (protection : Option InitProtection) (raw : RawTrack)
    (entry : RawBox) (description : TrackDescription)
    (announced : RawTrack) : Prop where
  id : announced.id = raw.id
  handler : announced.handler = raw.handler
  disposition : announced.disposition = .package
  described : ∃ written, describeTrack announced = .ok written ∧
    written.header = { description.header with duration := 0 } ∧
      written.codec = description.codec ∧
        written.sinf = protection.map (fun protection =>
          protection.declared (formatOf entry description)) ∧
          sampleCount written.sampleTable = .ok 0
  edit : ∀ movieTimescale trackTimescale,
    trackEdit announced movieTimescale trackTimescale = .ok .none

theorem sampleDescription_eq_bind (description : List UInt8) (trackId : ℕ)
    (protection : Option InitProtection) :
    sampleDescription description trackId protection =
      (sampleDescription description trackId none >>= fun described =>
        protect described protection) := by
  unfold sampleDescription
  simp only [bind_assoc]
  refine bind_congr fun unprotected => bind_congr fun entry => ?_
  split_ifs
  · rfl
  · rw [bind_assoc]
    refine bind_congr fun iso => ?_
    cases iso with
    | none => rfl
    | some iso =>
        dsimp only
        rw [bind_assoc]
        rfl

section

variable {raw : RawTrack} {entry : RawBox} {description : TrackDescription}

theorem describeTrack_eq_ok
    (h : describeTrack raw = .ok description) :
    ∃ media mdhd mediaInfo sampleTable entry,
      requiredChild raw.trak (code 'm' 'd' 'i' 'a') = .ok media ∧
      requiredChild media.payload (code 'm' 'd' 'h' 'd') = .ok mdhd ∧
      parseMediaHeader mdhd.payload raw.id = .ok description.header ∧
      requiredChild media.payload (code 'm' 'i' 'n' 'f') = .ok mediaInfo ∧
      requiredChild mediaInfo.payload (code 's' 't' 'b' 'l') =
        .ok sampleTable ∧
      MoovReader.sampleEntry sampleTable.payload = .ok entry ∧
      entrySinf entry raw.id = .ok description.sinf ∧
      Codec.parseCodec (formatOf entry description) (kindOf raw.handler)
        entry.payload raw.id raw.handler = .ok description.codec := by
  unfold describeTrack at h
  obtain ⟨media, hmedia, h⟩ := bind_eq_ok_iff.mp h
  obtain ⟨mdhd, hmdhd, h⟩ := bind_eq_ok_iff.mp h
  obtain ⟨header, hheader, h⟩ := bind_eq_ok_iff.mp h
  obtain ⟨mediaInfo, hmediaInfo, h⟩ := bind_eq_ok_iff.mp h
  obtain ⟨sampleTable, hsampleTable, h⟩ := bind_eq_ok_iff.mp h
  obtain ⟨entry, hentry, h⟩ := bind_eq_ok_iff.mp h
  obtain ⟨sinf, hsinf, h⟩ := bind_eq_ok_iff.mp h
  obtain ⟨codec, hcodec, h⟩ := bind_eq_ok_iff.mp h
  obtain rfl := Except.ok.inj h
  exact ⟨media, mdhd, mediaInfo, sampleTable, entry, hmedia, hmdhd, hheader,
    hmediaInfo, hsampleTable, hentry, hsinf, hcodec⟩

/-- A track that was described is packaged. -/
theorem packaged_of_described (hdisposition : raw.disposition = .package)
    (hdescribed : describeTrack raw = .ok description)
    (hfits : EntryFits raw) : ∃ entry, Packaged raw entry description := by
  obtain ⟨media, -, mediaInfo, sampleTable, entry, hmedia, -, -, hmediaInfo,
    hsampleTable, hentry, -, -⟩ := describeTrack_eq_ok hdescribed
  have hread : trackEntry raw = .ok entry := by
    unfold trackEntry
    rw [hmedia, ok_bind, hmediaInfo, ok_bind, hsampleTable, ok_bind, hentry]
  exact ⟨entry, hdisposition, hdescribed, hread, hfits entry hread⟩

/-- The entry is described by what is read of its track. -/
theorem Packaged.describes (h : Packaged raw entry description) :
    Describes (kindOf raw.handler) raw.handler raw.id entry description.sinf
      description.codec := by
  obtain ⟨media, mdhd, mediaInfo, sampleTable, found, hmedia, hmdhd, hheader,
    hmediaInfo, hsampleTable, hfound, hsinf, hcodec⟩ :=
      describeTrack_eq_ok h.described
  have hentry := h.entry_read
  unfold trackEntry at hentry
  rw [hmedia, ok_bind, hmediaInfo, ok_bind, hsampleTable, ok_bind,
    hfound] at hentry
  obtain rfl := Except.ok.inj hentry
  exact ⟨hsinf, hcodec, h.fits⟩

/-- What is written for the entry of a packaged track. -/
theorem sampleDescription_announces {payload described : List UInt8}
    {protection : Option InitProtection}
    (h : Packaged raw entry description)
    (hprotectable : ∀ asked ∈ protection,
      Protectable asked raw entry description)
    (hentry : describedEntry payload = .ok entry)
    (hrun : sampleDescription payload raw.id protection = .ok described) :
    ∃ announced, describedEntry described = .ok announced ∧
      Describes (kindOf raw.handler) raw.handler raw.id announced
        (protection.map fun asked =>
          asked.declared (formatOf entry description))
        description.codec := by
  rw [sampleDescription_eq_bind] at hrun
  obtain ⟨clear, hclear, hrun⟩ := bind_eq_ok_iff.mp hrun
  obtain ⟨announced, hannounced, hname, hcodec, hstands⟩ :=
    sampleDescription_describes hentry h.describes hclear
  have hformat : announced.name = formatOf entry description := hname
  cases protection with
  | none =>
      obtain rfl := Except.ok.inj hrun
      have hplain := notMem_protectedEntries
        (mem_packagedEntries_of_parseCodec hcodec)
      exact ⟨announced, hannounced, entrySinf_clear hplain, hcodec,
        fun hin => absurd hin hplain⟩
  | some asked =>
      have hasked := hprotectable asked rfl
      have hextensible : Extensible (kindOf raw.handler) raw.id announced := by
        rcases hstands with ⟨rfl, hplain⟩ | hextensible
        · exact hasked.extensible hplain
        · exact hextensible
      obtain ⟨marked, hmarked, -, hdescribes⟩ := protect_describes hasked.sound
        hannounced hcodec hasked.codec hextensible hrun
      rw [hformat] at hdescribes
      exact ⟨marked, hmarked, hdescribes⟩

/-! What is found in the boxes that are rewritten. -/

section

variable {payload written : List UInt8} {trackId : ℕ} {child : RawBox}
  {protection : Option InitProtection}

theorem mediaBox_mdhd (h : mediaBox payload trackId protection = .ok written)
    (hchild : requiredChild payload (code 'm' 'd' 'h' 'd') = .ok child) :
    ∃ untimed, withZeroDuration child.payload .MOVIE_OR_MEDIA = .ok untimed ∧
      requiredChild written (code 'm' 'd' 'h' 'd') =
        .ok (BoxSpec.raw (code 'm' 'd' 'h' 'd', untimed)) := by
  obtain ⟨rewritten, hrewrite, hfound⟩ :=
    requiredChild_rewriteChildren h hchild
  rw [if_pos (name_of_requiredChild hchild)] at hrewrite
  exact ⟨rewritten, hrewrite, hfound⟩

theorem mediaBox_minf (h : mediaBox payload trackId protection = .ok written)
    (hchild : requiredChild payload (code 'm' 'i' 'n' 'f') = .ok child) :
    ∃ rewritten, mediaInfoBox child.payload trackId protection =
        .ok rewritten ∧
      requiredChild written (code 'm' 'i' 'n' 'f') =
        .ok (BoxSpec.raw (code 'm' 'i' 'n' 'f', rewritten)) := by
  obtain ⟨rewritten, hrewrite, hfound⟩ :=
    requiredChild_rewriteChildren h hchild
  rw [name_of_requiredChild hchild, if_neg (by decide), if_pos rfl]
    at hrewrite
  exact ⟨rewritten, hrewrite, hfound⟩

/-- Every other box of `mdia` is copied. -/
theorem mediaBox_hdlr (h : mediaBox payload trackId protection = .ok written)
    (hchild : requiredChild payload (code 'h' 'd' 'l' 'r') = .ok child) :
    requiredChild written (code 'h' 'd' 'l' 'r') =
      .ok (BoxSpec.raw (code 'h' 'd' 'l' 'r', child.payload)) := by
  obtain ⟨rewritten, hrewrite, hfound⟩ :=
    requiredChild_rewriteChildren h hchild
  rw [name_of_requiredChild hchild, if_neg (by decide), if_neg (by decide)]
    at hrewrite
  obtain rfl := Except.ok.inj hrewrite
  exact hfound

theorem mediaInfoBox_stbl
    (h : mediaInfoBox payload trackId protection = .ok written)
    (hchild : requiredChild payload (code 's' 't' 'b' 'l') = .ok child) :
    ∃ rewritten, sampleTableBox child.payload trackId protection =
        .ok rewritten ∧
      requiredChild written (code 's' 't' 'b' 'l') =
        .ok (BoxSpec.raw (code 's' 't' 'b' 'l', rewritten)) := by
  obtain ⟨rewritten, hrewrite, hfound⟩ :=
    requiredChild_rewriteChildren h hchild
  rw [if_pos (name_of_requiredChild hchild)] at hrewrite
  exact ⟨rewritten, hrewrite, hfound⟩

theorem mediaInfoBox_dinf
    (h : mediaInfoBox payload trackId protection = .ok written)
    (hchild : requiredChild payload (code 'd' 'i' 'n' 'f') = .ok child) :
    requiredChild written (code 'd' 'i' 'n' 'f') =
      .ok (BoxSpec.raw (code 'd' 'i' 'n' 'f', child.payload)) := by
  obtain ⟨rewritten, hrewrite, hfound⟩ :=
    requiredChild_rewriteChildren h hchild
  rw [name_of_requiredChild hchild, if_neg (by decide)] at hrewrite
  obtain rfl := Except.ok.inj hrewrite
  exact hfound

/-- The media are still in the file. -/
theorem validateDataReference_written
    (h : mediaInfoBox payload trackId protection = .ok written)
    (hvalid : validateDataReference payload = .ok ()) :
    validateDataReference written = .ok () := by
  unfold validateDataReference at hvalid ⊢
  obtain ⟨dinf, hdinf, hvalid⟩ := bind_eq_ok_iff.mp hvalid
  rw [mediaInfoBox_dinf h hdinf, ok_bind]
  exact hvalid

end

theorem readRawTrack_eq_ok {track : RawBox}
    (h : readRawTrack track = .ok raw) :
    ∃ tkhd media hdlr,
      requiredChild track.payload (code 't' 'k' 'h' 'd') = .ok tkhd ∧
      trackId tkhd.payload = .ok raw.id ∧
      requiredChild track.payload (code 'm' 'd' 'i' 'a') = .ok media ∧
      requiredChild media.payload (code 'h' 'd' 'l' 'r') = .ok hdlr ∧
      handlerType hdlr.payload = .ok raw.handler ∧
      MoovReader.disposition raw.id raw.handler media.payload =
        .ok raw.disposition ∧
      raw.trak = track.payload := by
  unfold readRawTrack at h
  obtain ⟨tkhd, htkhd, h⟩ := bind_eq_ok_iff.mp h
  obtain ⟨id, hid, h⟩ := bind_eq_ok_iff.mp h
  obtain ⟨media, hmedia, h⟩ := bind_eq_ok_iff.mp h
  obtain ⟨hdlr, hhdlr, h⟩ := bind_eq_ok_iff.mp h
  obtain ⟨handler, hhandler, h⟩ := bind_eq_ok_iff.mp h
  obtain ⟨disposition, hdisposition, h⟩ := bind_eq_ok_iff.mp h
  obtain rfl := Except.ok.inj h
  exact ⟨tkhd, media, hdlr, htkhd, hid, hmedia, hhdlr, hhandler, hdisposition,
    rfl⟩

/-- A track that is packaged is of sound or pictures, and in its file. -/
theorem disposition_package {handler media : List UInt8} {trackId : ℕ}
    {mediaInfo : RawBox}
    (hmediaInfo : requiredChild media (code 'm' 'i' 'n' 'f') = .ok mediaInfo)
    (h : MoovReader.disposition trackId handler media = .ok .package) :
    (handler = VIDEO_HANDLER ∨ handler = SOUND_HANDLER) ∧
      validateDataReference mediaInfo.payload = .ok () := by
  unfold MoovReader.disposition at h
  split_ifs at h with hhandler
  · rw [hmediaInfo, ok_bind] at h
    obtain ⟨valid, hvalid, -⟩ := bind_eq_ok_iff.mp h
    exact ⟨hhandler, hvalid⟩
  · cases h

def trackBoxes (header media : List UInt8) : List BoxSpec :=
  [(code 't' 'k' 'h' 'd', header), (code 'm' 'd' 'i' 'a', media)]

theorem trackBox_eq_ok {track : RawBox} {written : List UInt8} {trackId : ℕ}
    {protection : Option InitProtection}
    (h : trackBox track trackId protection = .ok written) :
    ∃ header media untimed rewritten,
      requiredChild track.payload (code 't' 'k' 'h' 'd') = .ok header ∧
      requiredChild track.payload (code 'm' 'd' 'i' 'a') = .ok media ∧
      withZeroDuration header.payload .TRACK_HEADER = .ok untimed ∧
      mediaBox media.payload trackId protection = .ok rewritten ∧
      written = boxesBytes (trackBoxes untimed rewritten) ∧
      ∀ box ∈ trackBoxes untimed rewritten, box.Fits := by
  unfold trackBox at h
  obtain ⟨header, hheader, h⟩ := bind_eq_ok_iff.mp h
  obtain ⟨media, hmedia, h⟩ := bind_eq_ok_iff.mp h
  obtain ⟨untimed, huntimed, h⟩ := bind_eq_ok_iff.mp h
  obtain ⟨tkhd, htkhd, h⟩ := bind_eq_ok_iff.mp h
  obtain ⟨rewritten, hrewritten, h⟩ := bind_eq_ok_iff.mp h
  obtain ⟨mdia, hmdia, h⟩ := bind_eq_ok_iff.mp h
  obtain rfl := Except.ok.inj h
  obtain ⟨htkhdSize, rfl⟩ := writeBox_eq_ok_iff.mp htkhd
  obtain ⟨hmdiaSize, rfl⟩ := writeBox_eq_ok_iff.mp hmdia
  refine ⟨header, media, untimed, rewritten, hheader, hmedia, huntimed,
    hrewritten, ?_, ?_⟩
  · simp only [trackBoxes, boxesBytes_cons, boxesBytes_nil, List.append_nil]
  · simp only [trackBoxes, List.forall_mem_cons, List.not_mem_nil,
      false_imp_iff, implies_true, and_true]
    exact ⟨⟨rfl, htkhdSize⟩, ⟨rfl, hmdiaSize⟩⟩

/-- The `trak` that is written is read as the track it announces. -/
theorem trackBox_announces {track : RawBox} {written : List UInt8}
    {protection : Option InitProtection}
    (hraw : readRawTrack track = .ok raw)
    (hpackaged : Packaged raw entry description)
    (hprotectable : ∀ asked ∈ protection,
      Protectable asked raw entry description)
    (h : trackBox track raw.id protection = .ok written) :
    ∃ announced, readRawTrack (BoxSpec.raw (code 't' 'r' 'a' 'k', written)) =
        .ok announced ∧
      Announces protection raw entry description announced := by
  obtain ⟨tkhd, media, hdlr, htkhd, hid, hmedia, hhdlr, hhandler, hdisposition,
    htrak⟩ := readRawTrack_eq_ok hraw
  obtain ⟨media', mdhd, mediaInfo, sampleTable, entry', hmedia', hmdhd,
    hheader, hmediaInfo, hsampleTable, hentry, -, -⟩ :=
      describeTrack_eq_ok hpackaged.described
  rw [htrak] at hmedia'
  obtain rfl := Except.ok.inj (hmedia.symm.trans hmedia')
  have hfound := hpackaged.entry_read
  unfold trackEntry at hfound
  rw [htrak, hmedia, ok_bind, hmediaInfo, ok_bind, hsampleTable, ok_bind,
    hentry] at hfound
  obtain rfl := Except.ok.inj hfound
  rw [hpackaged.disposition] at hdisposition
  obtain ⟨hkind, hvalid⟩ := disposition_package hmediaInfo hdisposition
  -- What is written.
  obtain ⟨tkhd', media', untimed, rewritten, htkhd', hmedia', huntimed,
    hrewritten, rfl, hfits⟩ := trackBox_eq_ok h
  obtain rfl := Except.ok.inj (htkhd.symm.trans htkhd')
  obtain rfl := Except.ok.inj (hmedia.symm.trans hmedia')
  obtain ⟨mdhdWritten, hmdhdWritten, hmdhdFound⟩ :=
    mediaBox_mdhd hrewritten hmdhd
  obtain ⟨infoWritten, hinfoWritten, hinfoFound⟩ :=
    mediaBox_minf hrewritten hmediaInfo
  obtain ⟨tableWritten, htableWritten, htableFound⟩ :=
    mediaInfoBox_stbl hinfoWritten hsampleTable
  obtain ⟨stsd, described, hstsd, hdescribed, rfl, htableFits⟩ :=
    sampleTableBox_eq_ok htableWritten
  unfold MoovReader.sampleEntry at hentry
  rw [hstsd, ok_bind] at hentry
  obtain ⟨announced, hannounced, hdescribes⟩ :=
    sampleDescription_announces hpackaged hprotectable hentry hdescribed
  have htkhdFound : requiredChild (boxesBytes (trackBoxes untimed rewritten))
      (code 't' 'k' 'h' 'd') =
        .ok (BoxSpec.raw (code 't' 'k' 'h' 'd', untimed)) :=
    requiredChild_boxesBytes hfits rfl
  have hmediaFound : requiredChild (boxesBytes (trackBoxes untimed rewritten))
      (code 'm' 'd' 'i' 'a') =
        .ok (BoxSpec.raw (code 'm' 'd' 'i' 'a', rewritten)) :=
    requiredChild_boxesBytes hfits rfl
  -- How it is read.
  refine ⟨⟨raw.id, raw.handler, .package,
    boxesBytes (trackBoxes untimed rewritten)⟩, ?_, rfl, rfl, rfl, ?_, ?_⟩
  · unfold readRawTrack
    dsimp only [BoxSpec.raw] at htkhdFound hmediaFound hinfoFound htableFound ⊢
    rw [htkhdFound, ok_bind, trackId_withZeroDuration hid huntimed, ok_bind,
      hmediaFound, ok_bind, mediaBox_hdlr hrewritten hhdlr, ok_bind]
    dsimp only [BoxSpec.raw]
    rw [hhandler, ok_bind]
    unfold MoovReader.disposition
    rw [if_pos hkind, hinfoFound, ok_bind,
      validateDataReference_written hinfoWritten hvalid, ok_bind,
      htableFound, ok_bind,
      classifySampleDescription_written htableFits hannounced hdescribes]
    rfl
  · refine ⟨⟨{ description.header with duration := 0 },
      boxesBytes (sampleTableBoxes described), _, description.codec⟩, ?_, rfl,
      rfl, rfl, sampleCount_written htableFits⟩
    unfold describeTrack
    dsimp only
    rw [hmediaFound, ok_bind]
    dsimp only [BoxSpec.raw]
    rw [hmdhdFound, ok_bind]
    dsimp only [BoxSpec.raw]
    rw [parseMediaHeader_withZeroDuration hheader hmdhdWritten, ok_bind,
      hinfoFound, ok_bind]
    dsimp only [BoxSpec.raw]
    rw [htableFound, ok_bind]
    dsimp only [BoxSpec.raw]
    rw [sampleEntry_written htableFits hannounced, ok_bind,
      hdescribes.sinf_read, ok_bind, hdescribes.codec_read]
    rfl
  · intro movieTimescale trackTimescale
    unfold trackEdit
    rw [optionalChild_boxesBytes hfits, ok_bind]
    rfl

end

/-! ## The tracks of `moov` -/

theorem pushRawTrack_eq_ok_iff {tracks next : List RawTrack}
    {track : RawBox} :
    pushRawTrack tracks track = .ok next ↔ ∃ raw,
      readRawTrack track = .ok raw ∧ raw.id ∉ tracks.map RawTrack.id ∧
        next = tracks ++ [raw] := by
  unfold pushRawTrack
  rw [bind_eq_ok_iff]
  refine exists_congr fun raw => and_congr_right fun _ => ?_
  have hany : (tracks.any fun existing => existing.id == raw.id) = true ↔
      raw.id ∈ tracks.map RawTrack.id := by
    simp [List.any_eq_true, List.mem_map]
  split_ifs with hin
  · exact iff_of_false (fun h => by cases h) fun h => h.1 (hany.mp hin)
  · rw [Except.ok.injEq, eq_comm]
    exact (and_iff_right (mt hany.mpr hin)).symm

/-- The tracks are read from the `trak` boxes, and no two share their
number. -/
theorem foldlM_pushRawTrack_eq_ok_iff {traks : List RawBox}
    {before tracks : List RawTrack}
    (hbefore : (before.map RawTrack.id).Nodup) :
    traks.foldlM pushRawTrack before = .ok tracks ↔ ∃ after,
      List.Forall₂ (fun trak raw => readRawTrack trak = .ok raw) traks after ∧
        tracks = before ++ after ∧ (tracks.map RawTrack.id).Nodup := by
  induction traks generalizing before with
  | nil =>
      constructor
      · intro h
        obtain rfl := Except.ok.inj h
        exact ⟨[], .nil, (List.append_nil _).symm, hbefore⟩
      · rintro ⟨after, hafter, rfl, -⟩
        cases hafter
        rw [List.append_nil]
        rfl
  | cons trak traks ih =>
      rw [List.foldlM_cons, bind_eq_ok_iff]
      constructor
      · rintro ⟨next, hnext, hrest⟩
        obtain ⟨raw, hraw, hnew, rfl⟩ := pushRawTrack_eq_ok_iff.mp hnext
        have hnodup : ((before ++ [raw]).map RawTrack.id).Nodup := by
          rw [List.map_append, List.nodup_append']
          exact ⟨hbefore, List.nodup_singleton _,
            List.disjoint_singleton.mpr hnew⟩
        obtain ⟨after, hafter, rfl, hall⟩ := (ih hnodup).mp hrest
        exact ⟨raw :: after, .cons hraw hafter, by simp, hall⟩
      · rintro ⟨after, hafter, rfl, hall⟩
        cases hafter with
        | @cons _ raw _ after hraw hafter =>
            have hall' : ((before ++ [raw] ++ after).map RawTrack.id).Nodup := by
              simpa using hall
            have hnodup : ((before ++ [raw]).map RawTrack.id).Nodup := by
              rw [List.map_append] at hall'
              exact (List.nodup_append'.mp hall').1
            have hnew : raw.id ∉ before.map RawTrack.id := by
              rw [List.map_append, List.nodup_append'] at hnodup
              exact List.disjoint_singleton.mp hnodup.2.2
            refine ⟨before ++ [raw],
              pushRawTrack_eq_ok_iff.mpr ⟨raw, hraw, hnew, rfl⟩, ?_⟩
            exact (ih hnodup).mpr ⟨after, hafter, by simp, hall⟩

theorem validateRawMoov_eq_ok_iff {moov : List UInt8} {raw : RawMoov} :
    validateRawMoov moov = .ok raw ↔ ∃ root children defaults header,
      boxPayload moov 0 = .ok root ∧ root.name = code 'm' 'o' 'o' 'v' ∧
      childBoxes root.payload = .ok children ∧
      ((children.find? fun child => child.name == code 'm' 'v' 'e' 'x').elim
        (.ok none) fun mvex => (parseDefaults mvex.payload).map some) =
          .ok defaults ∧
      children.find? (fun child => child.name == code 'm' 'v' 'h' 'd') =
        some header ∧
      readMovieHeader.run' header.payload =
        .ok (raw.movieTimescale, raw.movieDuration) ∧
      raw.movieTimescale ≠ 0 ∧ raw.fragmented = defaults.isSome ∧
      raw.defaults = defaults.getD [] ∧
      (raw.tracks.map RawTrack.id).Nodup ∧
      List.Forall₂ (fun trak raw => readRawTrack trak = .ok raw)
        (children.filter fun child => child.name == code 't' 'r' 'a' 'k')
        raw.tracks := by
  unfold validateRawMoov
  constructor
  · intro h
    obtain ⟨root, hroot, h⟩ := bind_eq_ok_iff.mp h
    split_ifs at h with hname
    obtain ⟨children, hchildren, h⟩ := bind_eq_ok_iff.mp h
    obtain ⟨defaults, hdefaults, h⟩ := bind_eq_ok_iff.mp h
    obtain ⟨header, hheader, h⟩ := bind_eq_ok_iff.mp h
    obtain ⟨⟨timescale, duration⟩, hmovie, h⟩ := bind_eq_ok_iff.mp h
    dsimp only at h
    split_ifs at h with hzero
    obtain ⟨tracks, htracks, h⟩ := bind_eq_ok_iff.mp h
    obtain rfl := Except.ok.inj h
    obtain ⟨after, hafter, rfl, hnodup⟩ :=
      (foldlM_pushRawTrack_eq_ok_iff (by simp)).mp htracks
    exact ⟨root, children, defaults, header, hroot, not_not.mp hname, hchildren,
      hdefaults, okOr_eq_ok_iff.mp hheader, hmovie, hzero, rfl, rfl, hnodup,
      hafter⟩
  · rintro ⟨root, children, defaults, header, hroot, hname, hchildren,
      hdefaults, hheader, hmovie, hzero, hfragmented, hgiven, hnodup, hraws⟩
    have htracks := (@foldlM_pushRawTrack_eq_ok_iff _ [] raw.tracks
      List.nodup_nil).mpr ⟨raw.tracks, hraws, rfl, hnodup⟩
    rw [hroot, ok_bind, if_neg (not_not.mpr hname), hchildren, ok_bind]
    dsimp only
    rw [hdefaults, ok_bind, hheader, okOr_some, ok_bind, hmovie, ok_bind]
    dsimp only
    rw [if_neg hzero, htracks, ok_bind, ← hfragmented, ← hgiven]

theorem id_lt_of_readRawTrack {track : RawBox} {raw : RawTrack}
    (h : readRawTrack track = .ok raw) : raw.id < 2 ^ 32 := by
  obtain ⟨tkhd, -, -, -, hid, -⟩ := readRawTrack_eq_ok h
  obtain ⟨rest, hrun⟩ := Reader.run'_eq_ok_iff.mp hid
  obtain ⟨version, _, -, hrun⟩ := Reader.run_bind_eq_ok hrun
  obtain ⟨_, _, -, hrun⟩ := Reader.run_bind_eq_ok hrun
  exact (Reader.u32_eq_ok_iff.mp hrun).1

theorem findTrack_eq_ok {children : List RawBox} {raws : List RawTrack}
    {trackId : ℕ} {track : RawBox}
    (hraws : List.Forall₂ (fun trak raw => readRawTrack trak = .ok raw)
      (children.filter fun child => child.name == code 't' 'r' 'a' 'k') raws)
    (h : findTrack children trackId = .ok track) :
    ∃ raw ∈ raws, readRawTrack track = .ok raw ∧ raw.id = trackId := by
  unfold findTrack at h
  have hfind := okOr_eq_ok_iff.mp h
  obtain ⟨raw, hraw, hread⟩ :=
    exists_mem_of_forall₂ hraws (List.mem_of_find?_eq_some hfind)
  refine ⟨raw, hraw, hread, ?_⟩
  obtain ⟨tkhd, -, -, htkhd, hid, -⟩ := readRawTrack_eq_ok hread
  have hnumber : trackIdOf track = .ok raw.id := by
    unfold trackIdOf
    rw [htkhd, ok_bind]
    exact hid
  have hmatch := List.find?_some hfind
  simp only [hnumber, beq_iff_eq, Except.ok.injEq] at hmatch
  exact hmatch

/-! ## The whole segment -/

/-- The payload of a `trex`. -/
def trexPayload (trackId : ℕ) : List UInt8 :=
  List.replicate 4 0 ++ (encode 4 trackId ++ (encode 4 1 ++
    List.replicate 12 0))

theorem flatMap_trackExtends (trackIds : List ℕ) :
    trackIds.flatMap trackExtends = boxesBytes (trackIds.map fun trackId =>
      (code 't' 'r' 'e' 'x', trexPayload trackId)) := by
  unfold boxesBytes
  rw [List.flatMap_map]
  rfl

theorem parseTrex_trexPayload {trackId : ℕ} (h : trackId < 2 ^ 32) :
    parseTrex.run' (trexPayload trackId) = .ok (trackId, {}) := by
  refine Reader.run'_eq_ok_iff.mpr ⟨[], ?_⟩
  unfold parseTrex
  refine Reader.run_bind_eq_ok_iff.mpr ⟨0, _,
    Reader.fullBox_eq_ok_iff.mpr ⟨by decide, [0, 0, 0], rfl, rfl⟩, ?_⟩
  refine Reader.run_bind_eq_ok_iff.mpr ⟨trackId, _,
    Reader.u32_append h _, ?_⟩
  exact Reader.run_bind_eq_ok_iff.mpr ⟨(), _,
    Reader.skip_append (length_encode 4 1) _, rfl⟩

/-- Each track has defaults of its own, which are zero. -/
theorem parseDefaults_trackExtends {trackIds : List ℕ}
    (h : ∀ trackId ∈ trackIds, trackId < 2 ^ 32) :
    parseDefaults (trackIds.flatMap trackExtends) =
      .ok (trackIds.map fun trackId => (trackId, {})).reverse := by
  have hfits : ∀ box ∈ trackIds.map fun trackId =>
      (code 't' 'r' 'e' 'x', trexPayload trackId), BoxSpec.Fits box := by
    intro box hbox
    obtain ⟨trackId, -, rfl⟩ := List.mem_map.mp hbox
    exact ⟨rfl, by simp [trexPayload]⟩
  unfold parseDefaults
  rw [flatMap_trackExtends, childBoxes_boxesBytes hfits, ok_bind,
    List.map_map, List.filter_eq_self.mpr]
  · rw [List.mapM_map, mapM_eq_ok (g := fun trackId => (trackId, {}))
      fun trackId htrack => parseTrex_trexPayload (h trackId htrack)]
    rfl
  · intro box hbox
    obtain ⟨trackId, -, rfl⟩ := List.mem_map.mp hbox
    rfl

/-- The boxes of the `moov` that is written. -/
def movieBoxes (header : List UInt8) (tracks : List (List UInt8))
    (trackIds : List ℕ) (pssh : List BoxSpec) : List BoxSpec :=
  (code 'm' 'v' 'h' 'd', header) ::
    (tracks.map (fun track => (code 't' 'r' 'a' 'k', track)) ++
      ((code 'm' 'v' 'e' 'x', trackIds.flatMap trackExtends) :: pssh))

/-- The `pssh` boxes to copy are whole. -/
def InitProtection.Copies (protection : InitProtection)
    (pssh : List BoxSpec) : Prop :=
  protection.pssh = pssh.map (fun box => boxBytes box.1 box.2) ∧
    ∀ box ∈ pssh, box.Fits ∧ box.1 = code 'p' 's' 's' 'h'

theorem mapM_writeTrack {children : List RawBox}
    {protection : Option InitProtection} {trackIds : List ℕ}
    {written : List (List UInt8)}
    (h : trackIds.mapM (writeTrack children protection) = .ok written) :
    ∃ tracks : List (List UInt8),
      written.flatten = boxesBytes (tracks.map fun track =>
        (code 't' 'r' 'a' 'k', track)) ∧
      (∀ track ∈ tracks, track.length + 8 < 2 ^ 32) ∧
      List.Forall₂ (fun trackId bytes => ∃ track,
        findTrack children trackId = .ok track ∧
          trackBox track trackId protection = .ok bytes) trackIds tracks := by
  have hwritten := mapM_forall₂ h
  clear h
  induction hwritten with
  | nil => exact ⟨[], rfl, List.forall_mem_nil _, .nil⟩
  | @cons trackId bytes trackIds written hfirst _ ih =>
      obtain ⟨tracks, hflatten, hsizes, hall⟩ := ih
      unfold writeTrack at hfirst
      obtain ⟨track, htrack, hfirst⟩ := bind_eq_ok_iff.mp hfirst
      obtain ⟨rewritten, hrewritten, hfirst⟩ := bind_eq_ok_iff.mp hfirst
      obtain ⟨hsize, rfl⟩ := writeBox_eq_ok_iff.mp hfirst
      refine ⟨rewritten :: tracks, ?_, List.forall_mem_cons.mpr
        ⟨hsize, hsizes⟩, .cons ⟨track, htrack, hrewritten⟩ hall⟩
      rw [List.flatten_cons, hflatten, List.map_cons, boxesBytes_cons]

theorem writeInit_eq_ok {moov init : List UInt8} {trackIds : List ℕ}
    {protection : Option InitProtection} {pssh : List BoxSpec}
    (hpssh : (protection.elim [] fun asked => asked.pssh.flatten) =
      boxesBytes pssh)
    (hwhole : ∀ box ∈ pssh, box.Fits)
    (h : writeInit moov trackIds protection = .ok init) :
    ∃ root children header untimed tracks,
      boxPayload moov 0 = .ok root ∧ childBoxes root.payload = .ok children ∧
      children.find? (fun child => child.name == code 'm' 'v' 'h' 'd') =
        some header ∧
      withZeroDuration header.payload .MOVIE_OR_MEDIA = .ok untimed ∧
      List.Forall₂ (fun trackId bytes => ∃ track,
        findTrack children trackId = .ok track ∧
          trackBox track trackId protection = .ok bytes) trackIds tracks ∧
      (∀ box ∈ movieBoxes untimed tracks trackIds pssh, box.Fits) ∧
      (boxesBytes (movieBoxes untimed tracks trackIds pssh)).length + 8 <
        2 ^ 32 ∧
      init = FTYP ++ boxBytes (code 'm' 'o' 'o' 'v')
        (boxesBytes (movieBoxes untimed tracks trackIds pssh)) := by
  unfold writeInit at h
  obtain ⟨root, hroot, h⟩ := bind_eq_ok_iff.mp h
  obtain ⟨children, hchildren, h⟩ := bind_eq_ok_iff.mp h
  obtain ⟨header, hheader, h⟩ := bind_eq_ok_iff.mp h
  obtain ⟨untimed, huntimed, h⟩ := bind_eq_ok_iff.mp h
  obtain ⟨mvhd, hmvhd, h⟩ := bind_eq_ok_iff.mp h
  obtain ⟨written, hwritten, h⟩ := bind_eq_ok_iff.mp h
  obtain ⟨mvex, hmvex, h⟩ := bind_eq_ok_iff.mp h
  dsimp only at h
  obtain ⟨movie, hmovie, h⟩ := bind_eq_ok_iff.mp h
  obtain rfl := Except.ok.inj h
  obtain ⟨tracks, hflatten, hsizes, hall⟩ := mapM_writeTrack hwritten
  obtain ⟨hmvhdSize, rfl⟩ := writeBox_eq_ok_iff.mp hmvhd
  obtain ⟨hmvexSize, rfl⟩ := writeBox_eq_ok_iff.mp hmvex
  have hbytes : boxBytes (code 'm' 'v' 'h' 'd') untimed ++ (written.flatten ++
      (boxBytes (code 'm' 'v' 'e' 'x') (trackIds.flatMap trackExtends) ++
        protection.elim [] fun asked => asked.pssh.flatten)) =
      boxesBytes (movieBoxes untimed tracks trackIds pssh) := by
    rw [hflatten, hpssh]
    simp only [movieBoxes, boxesBytes_cons, boxesBytes_append]
  rw [hbytes] at hmovie
  obtain ⟨hsize, rfl⟩ := writeBox_eq_ok_iff.mp hmovie
  refine ⟨root, children, header, untimed, tracks, hroot, hchildren,
    okOr_eq_ok_iff.mp hheader, huntimed, hall, ?_, hsize, rfl⟩
  intro box hbox
  unfold movieBoxes at hbox
  rcases List.mem_cons.mp hbox with rfl | hbox
  · exact ⟨rfl, hmvhdSize⟩
  · rcases List.mem_append.mp hbox with hbox | hbox
    · obtain ⟨track, htrack, rfl⟩ := List.mem_map.mp hbox
      exact ⟨rfl, hsizes track htrack⟩
    · rcases List.mem_cons.mp hbox with rfl | hbox
      · exact ⟨rfl, hmvexSize⟩
      · exact hwhole box hbox

/-- What the `moov` of an init segment says: the tracks asked for, in order,
and the timescale of the movie. -/
structure InitDescribes (protection : Option InitProtection) (raw : RawMoov)
    (trackIds : List ℕ) (written : RawMoov) : Prop where
  movieTimescale : written.movieTimescale = raw.movieTimescale
  movieDuration : written.movieDuration = 0
  fragmented : written.fragmented = true
  defaults : written.defaults =
    (trackIds.map fun trackId => (trackId, {})).reverse
  ids : written.tracks.map RawTrack.id = trackIds
  tracks : ∀ announced ∈ written.tracks, ∃ track ∈ raw.tracks,
    ∃ entry description, Packaged track entry description ∧
      Announces protection track entry description announced

section

variable {untimed : List UInt8} {tracks : List (List UInt8)}
  {trackIds : List ℕ} {pssh : List BoxSpec}

theorem find?_movieBoxes_mvex :
    (movieBoxes untimed tracks trackIds pssh).find? (fun box =>
      box.1 == code 'm' 'v' 'e' 'x') =
        some (code 'm' 'v' 'e' 'x', trackIds.flatMap trackExtends) := by
  have hnone : (tracks.map fun track =>
      ((code 't' 'r' 'a' 'k', track) : BoxSpec)).find? (fun box =>
        box.1 == code 'm' 'v' 'e' 'x') = none := by
    rw [List.find?_eq_none]
    intro box hbox
    obtain ⟨track, -, rfl⟩ := List.mem_map.mp hbox
    exact show ¬(code 't' 'r' 'a' 'k' == code 'm' 'v' 'e' 'x') = true by decide
  have hheader : (code 'm' 'v' 'h' 'd' == code 'm' 'v' 'e' 'x') = false := by
    decide
  unfold movieBoxes
  rw [List.find?_cons, hheader]
  dsimp only
  rw [List.find?_append, hnone, Option.none_or]
  exact List.find?_cons_of_pos rfl

theorem find?_movieBoxes_mvhd :
    (movieBoxes untimed tracks trackIds pssh).find? (fun box =>
      box.1 == code 'm' 'v' 'h' 'd') =
        some (code 'm' 'v' 'h' 'd', untimed) :=
  List.find?_cons_of_pos rfl

theorem filter_movieBoxes {name : List UInt8}
    (hpssh : ∀ box ∈ pssh, box.1 = code 'p' 's' 's' 'h')
    (hheader : name ≠ code 'm' 'v' 'h' 'd')
    (hmvex : name ≠ code 'm' 'v' 'e' 'x') :
    (movieBoxes untimed tracks trackIds pssh).filter (fun box =>
        box.1 == name) =
      (if name = code 't' 'r' 'a' 'k' then
        tracks.map fun track => (code 't' 'r' 'a' 'k', track) else []) ++
      if name = code 'p' 's' 's' 'h' then pssh else [] := by
  have htraks : (tracks.map fun track =>
      ((code 't' 'r' 'a' 'k', track) : BoxSpec)).filter (fun box =>
        box.1 == name) = if name = code 't' 'r' 'a' 'k' then
          tracks.map fun track => (code 't' 'r' 'a' 'k', track) else [] := by
    split_ifs with hname
    · rw [List.filter_eq_self]
      intro box hbox
      obtain ⟨track, -, rfl⟩ := List.mem_map.mp hbox
      exact beq_iff_eq.mpr hname.symm
    · rw [List.filter_eq_nil_iff]
      intro box hbox hmatch
      obtain ⟨track, -, rfl⟩ := List.mem_map.mp hbox
      exact hname (beq_iff_eq.mp hmatch).symm
  have hcopied : pssh.filter (fun box => box.1 == name) =
      if name = code 'p' 's' 's' 'h' then pssh else [] := by
    split_ifs with hname
    · rw [List.filter_eq_self]
      intro box hbox
      exact beq_iff_eq.mpr ((hpssh box hbox).trans hname.symm)
    · rw [List.filter_eq_nil_iff]
      intro box hbox hmatch
      exact hname ((beq_iff_eq.mp hmatch).symm.trans (hpssh box hbox))
  unfold movieBoxes
  rw [List.filter_cons_of_neg (by simpa using hheader.symm),
    List.filter_append, List.filter_cons_of_neg (by simpa using hmvex.symm),
    htraks, hcopied]

theorem filter_map_raw (boxes : List BoxSpec) (name : List UInt8) :
    (boxes.map BoxSpec.raw).filter (fun box => box.name == name) =
      (boxes.filter fun box => box.1 == name).map BoxSpec.raw :=
  List.filter_map

theorem find?_map_raw (boxes : List BoxSpec) (name : List UInt8) :
    (boxes.map BoxSpec.raw).find? (fun box => box.name == name) =
      (boxes.find? fun box => box.1 == name).map BoxSpec.raw :=
  List.find?_map

theorem childBoxes_init
    (hsize : (boxesBytes (movieBoxes untimed tracks trackIds pssh)).length +
      8 < 2 ^ 32) :
    childBoxes (FTYP ++ boxBytes (code 'm' 'o' 'o' 'v')
      (boxesBytes (movieBoxes untimed tracks trackIds pssh))) =
        .ok [BoxSpec.raw (code 'f' 't' 'y' 'p', FTYP.drop 8),
          BoxSpec.raw (code 'm' 'o' 'o' 'v',
            boxesBytes (movieBoxes untimed tracks trackIds pssh))] := by
  have hftyp : FTYP = boxBytes (code 'f' 't' 'y' 'p') (FTYP.drop 8) := by
    decide
  have hboxes := @childBoxes_boxesBytes
    [(code 'f' 't' 'y' 'p', FTYP.drop 8), (code 'm' 'o' 'o' 'v',
      boxesBytes (movieBoxes untimed tracks trackIds pssh))] (by
        simp only [List.forall_mem_cons, List.not_mem_nil, false_imp_iff,
          implies_true, and_true]
        exact ⟨⟨rfl, by decide⟩, ⟨rfl, hsize⟩⟩)
  rw [boxesBytes_cons, boxesBytes_cons, boxesBytes_nil, List.append_nil]
    at hboxes
  rw [hftyp]
  exact hboxes

end

/-- The `moov` that is written is read as the tracks that were asked for. -/
theorem writeInit_describes {moov init : List UInt8} {raw : RawMoov}
    {trackIds : List ℕ} {protection : Option InitProtection}
    {pssh : List BoxSpec} (hmoov : validateRawMoov moov = .ok raw)
    (hunique : trackIds.Nodup)
    (htracks : ∀ track ∈ raw.tracks, track.id ∈ trackIds →
      ∃ entry description, Packaged track entry description ∧
        ∀ asked ∈ protection, Protectable asked track entry description)
    (hpssh : (protection.elim [] fun asked => asked.pssh.flatten) =
      boxesBytes pssh)
    (hwhole : ∀ box ∈ pssh, box.Fits ∧ box.1 = code 'p' 's' 's' 'h')
    (h : writeInit moov trackIds protection = .ok init) :
    ∃ movie written root boxes, init = FTYP ++ movie ∧
      childBoxes init = .ok [BoxSpec.raw (code 'f' 't' 'y' 'p', FTYP.drop 8),
        root] ∧
      boxPayload movie 0 = .ok root ∧ childBoxes root.payload = .ok boxes ∧
      boxes.filter (fun box => box.name == code 'p' 's' 's' 'h') =
        pssh.map BoxSpec.raw ∧
      validateRawMoov movie = .ok written ∧
      InitDescribes protection raw trackIds written := by
  obtain ⟨root, children, defaults, header, hroot, -, hchildren, -, hheader,
    hmovie, htimescale, -, -, -, hraws⟩ := validateRawMoov_eq_ok_iff.mp hmoov
  obtain ⟨root', children', header', untimed, tracks, hroot', hchildren',
    hheader', huntimed, hwritten, hfits, hsize, rfl⟩ :=
      writeInit_eq_ok hpssh (fun box hbox => (hwhole box hbox).1) h
  obtain rfl := Except.ok.inj (hroot.symm.trans hroot')
  obtain rfl := Except.ok.inj (hchildren.symm.trans hchildren')
  obtain rfl := Option.some.inj (hheader.symm.trans hheader')
  -- Each track that is written, as it is read.
  have hread : List.Forall₂ (fun trackId bytes => ∃ announced,
      (announced.id = trackId ∧ trackId < 2 ^ 32 ∧ ∃ track ∈ raw.tracks,
        ∃ entry description, Packaged track entry description ∧
          Announces protection track entry description announced) ∧
      readRawTrack (BoxSpec.raw (code 't' 'r' 'a' 'k', bytes)) =
        .ok announced) trackIds tracks := by
    refine List.Forall₂.imp ?_ ((List.forall₂_and_left _ _).mpr
      ⟨fun _ hmem => hmem, hwritten⟩)
    rintro trackId bytes ⟨hmem, trak, hfound, hbox⟩
    obtain ⟨track, hin, hraw, rfl⟩ := findTrack_eq_ok hraws hfound
    obtain ⟨entry, description, hpackaged, hprotectable⟩ :=
      htracks track hin hmem
    obtain ⟨announced, hannounced, hannounces⟩ :=
      trackBox_announces hraw hpackaged hprotectable hbox
    exact ⟨announced, ⟨hannounces.id, id_lt_of_readRawTrack hraw, track, hin,
      entry, description, hpackaged, hannounces⟩, hannounced⟩
  obtain ⟨announced, hasked, htraks⟩ := exists_forall₂_both hread
  have hids : announced.map RawTrack.id = trackIds := by
    have hsame : List.Forall₂ (fun trackId (announced : RawTrack) =>
        announced.id = trackId) trackIds announced :=
      hasked.imp fun _ _ h => h.1
    exact (List.forall₂_eq_eq_eq ▸
      (List.forall₂_map_left_iff.mpr hsame.flip :
        List.Forall₂ Eq (announced.map RawTrack.id) trackIds))
  have hlt : ∀ trackId ∈ trackIds, trackId < 2 ^ 32 := by
    intro trackId hmem
    obtain ⟨_, -, -, hlt, -⟩ := exists_mem_of_forall₂ hasked hmem
    exact hlt
  have hnames : ∀ box ∈ pssh, box.1 = code 'p' 's' 's' 'h' :=
    fun box hbox => (hwhole box hbox).2
  refine ⟨_, ⟨raw.movieTimescale, 0, true,
    (trackIds.map fun trackId => (trackId, {})).reverse, announced⟩, _, _, rfl,
    childBoxes_init hsize, boxPayload_boxBytes rfl hsize,
    childBoxes_boxesBytes hfits, ?_, ?_, ?_⟩
  · rw [filter_map_raw, filter_movieBoxes hnames (by decide) (by decide),
      if_neg (by decide), if_pos rfl, List.nil_append]
  · refine validateRawMoov_eq_ok_iff.mpr ⟨_, _,
      some (trackIds.map fun trackId => (trackId, {})).reverse, _,
      boxPayload_boxBytes rfl hsize, rfl, childBoxes_boxesBytes hfits, ?_,
      (find?_map_raw _ _).trans (congrArg _ find?_movieBoxes_mvhd),
      readMovieHeader_withZeroDuration hmovie huntimed, htimescale, rfl, rfl,
      hids ▸ hunique, ?_⟩
    · rw [find?_map_raw, find?_movieBoxes_mvex]
      dsimp only [Option.map_some, Option.elim_some, BoxSpec.raw]
      rw [parseDefaults_trackExtends hlt]
      rfl
    · rw [filter_map_raw, filter_movieBoxes hnames (by decide) (by decide),
        if_pos rfl, if_neg (by decide), List.append_nil, List.map_map]
      exact List.forall₂_map_left_iff.mpr htraks
  · refine ⟨rfl, rfl, rfl, rfl, hids, fun found hfound => ?_⟩
    obtain ⟨trackId, -, -, -, hfrom⟩ := exists_mem_of_forall₂ hasked.flip hfound
    exact hfrom

/-- An init segment of tracks that are not encrypted describes exactly these,
in order, as the source does. -/
theorem init_segments_describe_tracks {moov init : List UInt8} {raw : RawMoov}
    {trackIds : List ℕ} (hmoov : validateRawMoov moov = .ok raw)
    (hunique : trackIds.Nodup)
    (htracks : ∀ track ∈ raw.tracks, track.id ∈ trackIds →
      ∃ entry description, Packaged track entry description)
    (h : writeMuxedInitSegment moov trackIds = .ok init) :
    ∃ movie written root, init = FTYP ++ movie ∧
      childBoxes init = .ok [BoxSpec.raw (code 'f' 't' 'y' 'p', FTYP.drop 8),
        root] ∧
      boxPayload movie 0 = .ok root ∧ validateRawMoov movie = .ok written ∧
      InitDescribes none raw trackIds written := by
  obtain ⟨movie, written, root, boxes, hinit, hboxes, hroot, -, -, hwritten,
    hdescribes⟩ := @writeInit_describes _ _ _ _ none [] hmoov hunique
      (fun track hin hasked => by
        obtain ⟨entry, description, hpackaged⟩ := htracks track hin hasked
        exact ⟨entry, description, hpackaged, fun asked hnone => by
          cases hnone⟩)
      rfl (List.forall_mem_nil _) h
  exact ⟨movie, written, root, hinit, hboxes, hroot, hwritten, hdescribes⟩

/-- A sound track of AC-3, with the boxes that are read of it. -/
def soundTrak (id : ℕ) : List UInt8 :=
  boxesBytes [
    (code 't' 'k' 'h' 'd', List.replicate 12 0 ++ (encode 4 id ++
      (List.replicate 4 0 ++ encode 4 7))),
    (code 'e' 'd' 't' 's', []),
    (code 'm' 'd' 'i' 'a', boxesBytes [
      (code 'm' 'd' 'h' 'd', List.replicate 12 0 ++ (encode 4 48000 ++
        (encode 4 7 ++ (encode 2 0x15c7 ++ encode 2 0)))),
      (code 'h' 'd' 'l' 'r', List.replicate 8 0 ++ code 's' 'o' 'u' 'n'),
      (code 'm' 'i' 'n' 'f', boxesBytes [
        (code 'd' 'i' 'n' 'f', boxesBytes [
          (code 'd' 'r' 'e' 'f', List.replicate 4 0 ++ (encode 4 1 ++
            boxBytes (code 'u' 'r' 'l' ' ') [0, 0, 0, 1]))]),
        (code 's' 't' 'b' 'l', boxesBytes [
          (code 's' 't' 's' 'd', List.replicate 4 0 ++ (encode 4 1 ++
            boxBytes (code 'a' 'c' '-' '3') soundEntryPayload)),
          (code 's' 't' 's' 'z', List.replicate 8 0 ++ encode 4 9)])])])]
where
  /-- Two channels at 48 kHz. -/
  soundEntryPayload : List UInt8 :=
    List.replicate 16 0 ++ (encode 2 2 ++ (encode 2 16 ++ (encode 4 0 ++
      (encode 4 (48000 * 2 ^ 16) ++
        boxBytes (code 'd' 'a' 'c' '3') [1, 2, 3]))))

/-- A file of two sound tracks. -/
def soundMoov : List UInt8 :=
  boxBytes (code 'm' 'o' 'o' 'v') (boxesBytes [
    (code 'm' 'v' 'h' 'd', List.replicate 12 0 ++ (encode 4 1000 ++
      encode 4 9)),
    (code 't' 'r' 'a' 'k', soundTrak 1), (code 't' 'r' 'a' 'k', soundTrak 2)])

def soundRaw : RawMoov where
  movieTimescale := 1000
  movieDuration := 9
  fragmented := false
  defaults := []
  tracks := [⟨1, SOUND_HANDLER, .package, soundTrak 1⟩,
    ⟨2, SOUND_HANDLER, .package, soundTrak 2⟩]

theorem soundRaw_packaged {id : ℕ} (hid : id = 1 ∨ id = 2) :
    ∃ entry description,
      Packaged ⟨id, SOUND_HANDLER, .package, soundTrak id⟩ entry
        description := by
  have hdescribed : (describeTrack
      ⟨id, SOUND_HANDLER, .package, soundTrak id⟩).isOk = true := by
    rcases hid with rfl | rfl
    · decide +kernel
    · decide +kernel
  have hentry : trackEntry ⟨id, SOUND_HANDLER, .package, soundTrak id⟩ =
      .ok (BoxSpec.raw (code 'a' 'c' '-' '3',
        soundTrak.soundEntryPayload)) := by
    rcases hid with rfl | rfl
    · decide +kernel
    · decide +kernel
  obtain ⟨description, hdescription⟩ := exists_ok_of_isOk hdescribed
  exact ⟨_, description, rfl, hdescription, hentry, fun hin =>
    absurd hin (by decide)⟩

/-- Both tracks in one segment, the second first. -/
theorem init_segments_describe_tracks_sound :
    ∃ movie written, validateRawMoov movie = .ok written ∧
      InitDescribes none soundRaw [2, 1] written := by
  obtain ⟨init, hinit⟩ := exists_ok_of_isOk (show
    (writeMuxedInitSegment soundMoov [2, 1]).isOk = true by decide +kernel)
  have hmoov : validateRawMoov soundMoov = .ok soundRaw := by decide +kernel
  obtain ⟨movie, written, -, -, -, -, hwritten, hdescribes⟩ :=
    init_segments_describe_tracks hmoov (by decide)
      (fun track hin _ => by
        rcases List.mem_cons.mp hin with rfl | hin
        · exact soundRaw_packaged (.inl rfl)
        · obtain rfl := List.mem_singleton.mp hin
          exact soundRaw_packaged (.inr rfl))
      hinit
  exact ⟨movie, written, hwritten, hdescribes⟩

/-! ## Encrypted tracks -/

/-- An init segment of an encrypted track describes it as the source does, and
declares the key, the vector, the pattern and the systems it was given. -/
theorem protected_init_segments_describe_track {moov init : List UInt8}
    {raw : RawMoov} {trackId : ℕ} {protection : InitProtection}
    {pssh : List BoxSpec} (hmoov : validateRawMoov moov = .ok raw)
    (htrack : ∀ track ∈ raw.tracks, track.id = trackId →
      ∃ entry description, Packaged track entry description ∧
        Protectable protection track entry description)
    (hpssh : protection.Copies pssh)
    (h : writeProtectedInitSegment moov trackId protection = .ok init) :
    ∃ movie written root boxes, init = FTYP ++ movie ∧
      childBoxes init = .ok [BoxSpec.raw (code 'f' 't' 'y' 'p', FTYP.drop 8),
        root] ∧
      boxPayload movie 0 = .ok root ∧ childBoxes root.payload = .ok boxes ∧
      boxes.filter (fun box => box.name == code 'p' 's' 's' 'h') =
        pssh.map BoxSpec.raw ∧
      validateRawMoov movie = .ok written ∧
      InitDescribes (some protection) raw [trackId] written := by
  obtain ⟨hcopied, hwhole⟩ := hpssh
  refine writeInit_describes hmoov (List.nodup_singleton _) ?_ ?_ hwhole h
  · intro track hin hasked
    obtain ⟨entry, description, hpackaged, hprotectable⟩ :=
      htrack track hin (List.mem_singleton.mp hasked)
    refine ⟨entry, description, hpackaged, fun asked hsome => ?_⟩
    obtain rfl := Option.mem_some_iff.mp hsome
    exact hprotectable
  · rw [Option.elim_some, hcopied]
    rfl

/-- A key and a vector for the whole of every sample. -/
def soundKey : InitProtection where
  keyId := List.replicate 16 7
  constantIv := List.replicate 16 3
  cryptByteBlock := 0
  skipByteBlock := 0
  pssh := [boxBytes (code 'p' 's' 's' 'h') [1, 2, 3]]

theorem soundKey_protectable {description : TrackDescription}
    (hdescribed : describeTrack
      ⟨2, SOUND_HANDLER, .package, soundTrak 2⟩ = .ok description) :
    Protectable soundKey ⟨2, SOUND_HANDLER, .package, soundTrak 2⟩
      (BoxSpec.raw (code 'a' 'c' '-' '3', soundTrak.soundEntryPayload))
      description := by
  have hcodec : (describeTrack ⟨2, SOUND_HANDLER, .package, soundTrak 2⟩).map
      TrackDescription.codec = .ok (.ac3 48000 2) := by decide +kernel
  rw [hdescribed] at hcodec
  have hac3 : description.codec = .ac3 48000 2 := Except.ok.inj hcodec
  refine ⟨⟨rfl, rfl, by decide, by decide⟩, by rw [hac3]; rfl, fun _ => ?_⟩
  exact @extensible_of_boxesBytes _ _ _ [(code 'd' 'a' 'c' '3', [1, 2, 3])]
    (by decide +kernel) (List.forall_mem_singleton.mpr ⟨rfl, by decide⟩)
    (List.forall_mem_singleton.mpr (by decide))

theorem protected_init_segments_describe_track_sound :
    ∃ movie written, validateRawMoov movie = .ok written ∧
      InitDescribes (some soundKey) soundRaw [2] written := by
  obtain ⟨init, hinit⟩ := exists_ok_of_isOk (show
    (writeProtectedInitSegment soundMoov 2 soundKey).isOk = true by
      decide +kernel)
  have hmoov : validateRawMoov soundMoov = .ok soundRaw := by decide +kernel
  have hcopies : soundKey.Copies [(code 'p' 's' 's' 'h', [1, 2, 3])] :=
    ⟨rfl, List.forall_mem_singleton.mpr ⟨⟨rfl, by decide⟩, rfl⟩⟩
  obtain ⟨movie, written, -, -, -, -, -, -, -, hwritten, hdescribes⟩ :=
    protected_init_segments_describe_track hmoov
      (fun track hin hasked => by
        rcases List.mem_cons.mp hin with rfl | hin
        · cases hasked
        · obtain rfl := List.mem_singleton.mp hin
          obtain ⟨description, hdescribed⟩ := exists_ok_of_isOk (show
            (describeTrack ⟨2, SOUND_HANDLER, .package, soundTrak 2⟩).isOk =
              true by decide +kernel)
          exact ⟨_, description, ⟨rfl, hdescribed, by decide +kernel,
            fun hin => absurd hin (by decide)⟩,
            soundKey_protectable hdescribed⟩)
      hcopies hinit
  exact ⟨movie, written, hwritten, hdescribes⟩

end InitSegment

end Segmentor
