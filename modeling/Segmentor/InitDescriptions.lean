import Segmentor.InitHeaders

/-!
# The sample description of an init segment

The entry that is written is of the codec that was read: an entry that was
protected is announced as what it was before, one in the layout of QuickTime
files in the standard one.  Marking it as protected again leaves its codec
readable.
-/

namespace Segmentor

open General

namespace Codec

/-! ## An entry is a head and child boxes -/

theorem visualEntry_split {entry : List UInt8} {visual : VisualEntry}
    (h : visualEntry entry = .ok visual) :
    ∃ head, entry = head ++ visual.children ∧ ∀ children,
      visualEntry (head ++ children) =
        .ok { visual with children := children } := by
  obtain ⟨rest, hrun⟩ := Reader.run'_eq_ok_iff.mp h
  unfold readVisualEntry at hrun
  simp only [Reader.run_bind_eq_ok_iff, Reader.skip_eq_ok_iff,
    Reader.u16_eq_ok_iff, Reader.run_pure_eq_ok_iff] at hrun
  obtain ⟨_, _, ⟨before, hbefore, rfl⟩, width, _, ⟨hwidth, rfl⟩, height, _,
    ⟨hheight, rfl⟩, _, _, ⟨after, hafter, rfl⟩, children, _, hrest, rfl, rfl⟩ :=
      hrun
  obtain ⟨rfl, rfl⟩ := Prod.mk.inj (Except.ok.inj hrest)
  refine ⟨before ++ (encode 2 width ++ (encode 2 height ++ after)), ?_, ?_⟩
  · simp only [List.append_assoc]
  · intro children
    simp only [List.append_assoc]
    refine Reader.run'_eq_ok_iff.mpr ⟨children, ?_⟩
    unfold readVisualEntry
    simp only [Reader.run_bind_eq_ok_iff, Reader.skip_eq_ok_iff,
      Reader.u16_eq_ok_iff, Reader.run_pure_eq_ok_iff]
    exact ⟨(), _, ⟨before, hbefore, rfl⟩, width, _, ⟨hwidth, rfl⟩, height, _,
      ⟨hheight, rfl⟩, (), _, ⟨after, hafter, rfl⟩, children, children, rfl,
      rfl, rfl⟩

/-- The bytes that the version adds. -/
theorem skipVersionFields_split {trackId version : ℕ}
    {unread rest : List UInt8} {read : Unit}
    (h : (skipVersionFields trackId version).run unread = .ok (read, rest)) :
    ∃ fields, unread = fields ++ rest ∧ ∀ rest,
      (skipVersionFields trackId version).run (fields ++ rest) =
        .ok ((), rest) := by
  unfold skipVersionFields at h ⊢
  split_ifs at h ⊢
  · obtain ⟨-, rfl⟩ := Reader.run_pure_eq_ok_iff.mp h
    exact ⟨[], rfl, fun rest => rfl⟩
  · obtain ⟨fields, hfields, rfl⟩ := Reader.skip_eq_ok_iff.mp h
    exact ⟨fields, rfl, fun rest => Reader.skip_append hfields rest⟩
  · cases h

theorem audioEntry_split {entry : List UInt8} {trackId : ℕ}
    {audio : AudioEntry} (h : audioEntry entry trackId = .ok audio) :
    ∃ head, entry = head ++ audio.children ∧ ∀ children,
      audioEntry (head ++ children) trackId =
        .ok { audio with children := children } := by
  obtain ⟨rest, hrun⟩ := Reader.run'_eq_ok_iff.mp h
  unfold readAudioEntry at hrun
  simp only [Reader.run_bind_eq_ok_iff, Reader.skip_eq_ok_iff,
    Reader.u16_eq_ok_iff, Reader.u32_eq_ok_iff,
    Reader.run_pure_eq_ok_iff] at hrun
  obtain ⟨_, _, ⟨head, hhead, rfl⟩, version, _, ⟨hversion, rfl⟩, _, _,
    ⟨before, hbefore, rfl⟩, channels, _, ⟨hchannels, rfl⟩, _, _,
    ⟨middle, hmiddle, rfl⟩, rate, _, ⟨hrate, rfl⟩, _, _, hfields, children, _,
    hrest, rfl, rfl⟩ := hrun
  obtain ⟨rfl, rfl⟩ := Prod.mk.inj (Except.ok.inj hrest)
  obtain ⟨fields, rfl, hagain⟩ := skipVersionFields_split hfields
  refine ⟨head ++ (encode 2 version ++ (before ++ (encode 2 channels ++
    (middle ++ (encode 4 rate ++ fields))))), ?_, ?_⟩
  · simp only [List.append_assoc]
  · intro children
    simp only [List.append_assoc]
    refine Reader.run'_eq_ok_iff.mpr ⟨children, ?_⟩
    unfold readAudioEntry
    simp only [Reader.run_bind_eq_ok_iff, Reader.skip_eq_ok_iff,
      Reader.u16_eq_ok_iff, Reader.u32_eq_ok_iff, Reader.run_pure_eq_ok_iff]
    exact ⟨(), _, ⟨head, hhead, rfl⟩, version, _, ⟨hversion, rfl⟩, (), _,
      ⟨before, hbefore, rfl⟩, channels, _, ⟨hchannels, rfl⟩, (), _,
      ⟨middle, hmiddle, rfl⟩, rate, _, ⟨hrate, rfl⟩, (), _, hagain children,
      children, children, rfl, rfl, rfl⟩

/-! ## The codec is in the head and in the boxes by name -/

/-- Both runs of boxes hold the same payloads under every name but `sinf`. -/
def SameBoxes (children other : List UInt8) : Prop :=
  ∀ name, name ≠ code 's' 'i' 'n' 'f' → ∃ found found',
    optionalChild children name = .ok found ∧
      optionalChild other name = .ok found' ∧
        found.map RawBox.payload = found'.map RawBox.payload

/-- What is read of a box that must be there. -/
theorem SameBoxes.configured {children other name : List UInt8}
    (h : SameBoxes children other) (hname : name ≠ code 's' 'i' 'n' 'f')
    {α : Type} {missing : Error} {read : RawBox → Result α}
    (hread : ∀ box box', box.payload = box'.payload → read box = read box') :
    (do
      let config ← optionalChild children name
      let config ← okOr config missing
      read config) =
    (do
      let config ← optionalChild other name
      let config ← okOr config missing
      read config) := by
  obtain ⟨found, found', hfound, hfound', hsame⟩ := h name hname
  rw [hfound, hfound', ok_bind, ok_bind]
  cases found with
  | none =>
      cases found' with
      | none => rfl
      | some box => cases hsame
  | some box =>
      cases found' with
      | none => cases hsame
      | some box' => exact hread box box' (Option.some.inj hsame)

theorem SameBoxes.findEsds {children other : List UInt8}
    (h : SameBoxes children other) (trackId : ℕ) {α : Type}
    {read : RawBox → Result α}
    (hread : ∀ box box', box.payload = box'.payload → read box = read box') :
    (Codec.findEsds children trackId >>= read) =
      (Codec.findEsds other trackId >>= read) := by
  obtain ⟨found, found', hfound, hfound', hsame⟩ :=
    h (code 'e' 's' 'd' 's') (by decide)
  have hwave := @SameBoxes.configured _ _ (code 'w' 'a' 'v' 'e') h (by decide) α
    (aacWithoutEsds trackId)
    (fun wave => do
      let esds ← optionalChild wave.payload (code 'e' 's' 'd' 's')
      let esds ← okOr esds (aacWithoutEsds trackId)
      read esds)
    (fun box box' hbox => by rw [hbox])
  unfold Codec.findEsds
  rw [hfound, hfound', ok_bind, ok_bind]
  cases found with
  | none =>
      cases found' with
      | none =>
          simp only [bind_assoc] at hwave ⊢
          exact hwave
      | some box => cases hsame
  | some box =>
      cases found' with
      | none => cases hsame
      | some box' => exact hread box box' (Option.some.inj hsame)

section

variable {entry rewritten format handler : List UInt8} {trackId : ℕ}

theorem parseCodec_visual {visual : VisualEntry} {children : List UInt8}
    (h : visualEntry entry = .ok visual)
    (hrewritten : visualEntry rewritten =
      .ok { visual with children := children })
    (hsame : SameBoxes visual.children children) :
    parseCodec format .video entry trackId handler =
      parseCodec format .video rewritten trackId handler := by
  have havc : parseAvc entry = parseAvc rewritten := by
    unfold parseAvc
    rw [h, hrewritten, ok_bind, ok_bind]
    exact hsame.configured (by decide) fun box box' hbox => by rw [hbox]
  have hhevc : ∀ tag, parseHevc entry tag = parseHevc rewritten tag := by
    intro tag
    unfold parseHevc
    rw [h, hrewritten, ok_bind, ok_bind]
    exact hsame.configured (by decide) fun box box' hbox => by rw [hbox]
  have hvp9 : parseVp9 entry = parseVp9 rewritten := by
    unfold parseVp9
    rw [h, hrewritten, ok_bind, ok_bind]
    exact hsame.configured (by decide) fun box box' hbox => by rw [hbox]
  have hav1 : parseAv1 entry = parseAv1 rewritten := by
    unfold parseAv1
    rw [h, hrewritten, ok_bind, ok_bind]
    exact hsame.configured (by decide) fun box box' hbox => by rw [hbox]
  unfold parseCodec
  dsimp only
  rw [havc, hhevc, hhevc, hvp9, hav1]

theorem parseDolby_audio {audio : AudioEntry} {children name : List UInt8}
    (hname : name ≠ code 's' 'i' 'n' 'f') (codec : String)
    (config : ℕ → ℕ → CodecConfig)
    (h : audioEntry entry trackId = .ok audio)
    (hrewritten : audioEntry rewritten trackId =
      .ok { audio with children := children })
    (hsame : SameBoxes audio.children children) :
    parseDolby name codec config entry trackId =
      parseDolby name codec config rewritten trackId := by
  unfold parseDolby requireChild
  rw [h, hrewritten, ok_bind, ok_bind]
  simp only [bind_assoc]
  exact hsame.configured hname fun _ _ _ => rfl

theorem parseCodec_audio {audio : AudioEntry} {children : List UInt8}
    (h : audioEntry entry trackId = .ok audio)
    (hrewritten : audioEntry rewritten trackId =
      .ok { audio with children := children })
    (hsame : SameBoxes audio.children children) :
    parseCodec format .audio entry trackId handler =
      parseCodec format .audio rewritten trackId handler := by
  have haac : parseAac entry trackId = parseAac rewritten trackId := by
    unfold parseAac
    rw [h, hrewritten, ok_bind, ok_bind]
    exact hsame.findEsds trackId fun box box' hbox => by rw [hbox]
  have hac3 : parseAc3 entry trackId = parseAc3 rewritten trackId :=
    parseDolby_audio (by decide) _ _ h hrewritten hsame
  have heac3 : parseEac3 entry trackId = parseEac3 rewritten trackId :=
    parseDolby_audio (by decide) _ _ h hrewritten hsame
  have hopus : parseOpus entry trackId = parseOpus rewritten trackId := by
    unfold parseOpus requireChild
    rw [h, hrewritten, ok_bind, ok_bind]
    simp only [bind_assoc]
    exact hsame.configured (by decide) fun box box' hbox => by rw [hbox]
  have hflac : parseFlac entry trackId = parseFlac rewritten trackId := by
    unfold parseFlac requireChild
    rw [h, hrewritten, ok_bind, ok_bind]
    simp only [bind_assoc]
    exact hsame.configured (by decide) fun box box' hbox => by rw [hbox]
  unfold parseCodec
  dsimp only
  rw [haac, hac3, heac3, hopus, hflac]

end

/-- The child boxes of an entry of a track of this kind. -/
def entryChildren (kind : TrackKind) (entry : List UInt8) (trackId : ℕ) :
    Result (List UInt8) :=
  match kind with
  | .video => (visualEntry entry).map VisualEntry.children
  | .audio => (audioEntry entry trackId).map AudioEntry.children

/-- The type of a protected entry is that of its track's kind. -/
def ProtectedFor (kind : TrackKind) (name : List UInt8) : Prop :=
  name = code 'e' 'n' 'c' 'v' ↔ kind = .video

theorem protectedEntryChildren_eq {kind : TrackKind} {name : List UInt8}
    (h : ProtectedFor kind name) (entry : List UInt8) (trackId : ℕ) :
    protectedEntryChildren name entry trackId =
      entryChildren kind entry trackId := by
  unfold protectedEntryChildren entryChildren
  cases kind with
  | video =>
      rw [if_pos (h.mpr rfl)]
      cases visualEntry entry <;> rfl
  | audio =>
      rw [if_neg (fun hname => by cases h.mp hname)]
      cases audioEntry entry trackId <;> rfl

/-- An entry is its head and its child boxes; with other boxes behind the same
head it is of the same codec, where these have the same payloads. -/
theorem entry_split {kind : TrackKind} {entry children : List UInt8}
    {trackId : ℕ} (h : entryChildren kind entry trackId = .ok children) :
    ∃ head, entry = head ++ children ∧ ∀ other,
      entryChildren kind (head ++ other) trackId = .ok other ∧
        (SameBoxes children other → ∀ format handler,
          parseCodec format kind entry trackId handler =
            parseCodec format kind (head ++ other) trackId handler) := by
  cases kind with
  | video =>
      unfold entryChildren at h ⊢
      dsimp only at h ⊢
      cases hvisual : visualEntry entry with
      | error e => rw [hvisual] at h; cases h
      | ok visual =>
          rw [hvisual] at h
          obtain rfl := Except.ok.inj h
          obtain ⟨head, hentry, hother⟩ := visualEntry_split hvisual
          refine ⟨head, hentry, fun other => ⟨?_, fun hsame _ _ => ?_⟩⟩
          · rw [hother]
            rfl
          · exact parseCodec_visual hvisual (hother other) hsame
  | audio =>
      unfold entryChildren at h ⊢
      dsimp only at h ⊢
      cases haudio : audioEntry entry trackId with
      | error e => rw [haudio] at h; cases h
      | ok audio =>
          rw [haudio] at h
          obtain rfl := Except.ok.inj h
          obtain ⟨head, hentry, hother⟩ := audioEntry_split haudio
          refine ⟨head, hentry, fun other => ⟨?_, fun hsame _ _ => ?_⟩⟩
          · rw [hother]
            rfl
          · exact parseCodec_audio haudio (hother other) hsame

/-- The codecs that are encrypted. -/
def encryptable : CodecConfig → Bool
  | .avc .. | .hevc .. | .aac .. | .ac3 .. | .eac3 .. => true
  | _ => false

theorem childBoxes_of_optionalChild {data name : List UInt8}
    {found : Option RawBox} (h : optionalChild data name = .ok found) :
    ∃ boxes, childBoxes data = .ok boxes := by
  obtain ⟨boxes, hboxes, -⟩ := optionalChild_eq_ok_iff.mp h
  exact ⟨boxes, hboxes⟩

/-- Where a codec is read, so are the child boxes of its entry. -/
theorem entryChildren_of_parseCodec {kind : TrackKind}
    {format entry handler : List UInt8} {trackId : ℕ} {codec : CodecConfig}
    (h : parseCodec format kind entry trackId handler = .ok codec) :
    ∃ children boxes, entryChildren kind entry trackId = .ok children ∧
      childBoxes children = .ok boxes := by
  have hvisual : ∀ {name : List UInt8} {next : VisualEntry → Option RawBox →
      Result CodecConfig}, (do
        let visual ← visualEntry entry
        let config ← optionalChild visual.children name
        next visual config) = .ok codec →
      ∃ children boxes, entryChildren .video entry trackId = .ok children ∧
        childBoxes children = .ok boxes := by
    intro name next hparse
    obtain ⟨visual, hvisual, hparse⟩ := bind_eq_ok_iff.mp hparse
    obtain ⟨config, hconfig, -⟩ := bind_eq_ok_iff.mp hparse
    obtain ⟨boxes, hboxes⟩ := childBoxes_of_optionalChild hconfig
    refine ⟨visual.children, boxes, ?_, hboxes⟩
    unfold entryChildren
    rw [hvisual]
    rfl
  have haudio : ∀ {name : List UInt8} {next : AudioEntry → Option RawBox →
      Result CodecConfig}, (do
        let audio ← audioEntry entry trackId
        let config ← optionalChild audio.children name
        next audio config) = .ok codec →
      ∃ children boxes, entryChildren .audio entry trackId = .ok children ∧
        childBoxes children = .ok boxes := by
    intro name next hparse
    obtain ⟨audio, haudio, hparse⟩ := bind_eq_ok_iff.mp hparse
    obtain ⟨config, hconfig, -⟩ := bind_eq_ok_iff.mp hparse
    obtain ⟨boxes, hboxes⟩ := childBoxes_of_optionalChild hconfig
    refine ⟨audio.children, boxes, ?_, hboxes⟩
    unfold entryChildren
    rw [haudio]
    rfl
  unfold parseCodec at h
  cases kind with
  | video =>
      dsimp only at h
      split_ifs at h
      · exact hvisual h
      · exact hvisual h
      · exact hvisual h
      · exact hvisual h
      · exact hvisual h
  | audio =>
      dsimp only at h
      split_ifs at h
      · unfold parseAac findEsds at h
        simp only [bind_assoc] at h
        exact haudio h
      · unfold parseAc3 parseDolby requireChild at h
        simp only [bind_assoc] at h
        exact haudio h
      · unfold parseEac3 parseDolby requireChild at h
        simp only [bind_assoc] at h
        exact haudio h
      · unfold parseOpus requireChild at h
        simp only [bind_assoc] at h
        exact haudio h
      · unfold parseFlac requireChild at h
        simp only [bind_assoc] at h
        exact haudio h

end Codec

namespace MoovReader

/-! ## One entry behind its count -/

/-- The version, flags and count of a description of one entry. -/
def OneEntryHead (head : List UInt8) : Prop :=
  ∃ version flags, version < 2 ^ 8 ∧ flags.length = 3 ∧
    head = encode 1 version ++ (flags ++ encode 4 1)

theorem OneEntryHead.length {head : List UInt8} (h : OneEntryHead head) :
    head.length = 8 := by
  obtain ⟨version, flags, -, hflags, rfl⟩ := h
  simp [hflags]

theorem readOnly_eq_ok_iff {refused : ℕ → Error}
    {payload rest : List UInt8} :
    (readOnly refused).run' payload = .ok rest ↔
      ∃ head, OneEntryHead head ∧ payload = head ++ rest := by
  rw [Reader.run'_eq_ok_iff]
  unfold readOnly
  simp only [Reader.run_bind_eq_ok_iff, Reader.fullBox_eq_ok_iff,
    Reader.u32_eq_ok_iff]
  constructor
  · rintro ⟨_, version, _, ⟨hversion, flags, hflags, rfl⟩, count, behind,
      ⟨hcount, rfl⟩, hrest⟩
    split_ifs at hrest with hother
    · cases hrest
    · obtain ⟨rfl, rfl⟩ := Prod.mk.inj (Except.ok.inj hrest)
      obtain rfl := not_not.mp hother
      exact ⟨_, ⟨version, flags, hversion, hflags, rfl⟩,
        by simp only [List.append_assoc]⟩
  · rintro ⟨head, ⟨version, flags, hversion, hflags, rfl⟩, rfl⟩
    refine ⟨rest, version, _, ⟨hversion, flags, hflags, ?_⟩, 1, rest,
      ⟨by decide, rfl⟩, rfl⟩
    simp only [List.append_assoc]

theorem describedEntry_eq_ok_iff {description : List UInt8}
    {entry : RawBox} :
    describedEntry description = .ok entry ↔ ∃ head rest entries,
      OneEntryHead head ∧ description = head ++ rest ∧
        childBoxes rest = .ok entries ∧ entries.head? = some entry := by
  unfold describedEntry readDescriptions
  simp only [bind_eq_ok_iff, readOnly_eq_ok_iff, okOr_eq_ok_iff]
  constructor
  · rintro ⟨rest, ⟨head, hhead, hwhole⟩, entries, hentries, hfirst⟩
    exact ⟨head, rest, entries, hhead, hwhole, hentries, hfirst⟩
  · rintro ⟨head, rest, entries, hhead, hwhole, hentries, hfirst⟩
    exact ⟨rest, ⟨head, hhead, hwhole⟩, entries, hentries, hfirst⟩

end MoovReader

/-! ## Boxes that state their sizes -/

/-- The bytes are exactly these boxes, one behind the other, and no box goes on
to the end of the bytes, whatever that is. -/
inductive Stated : List UInt8 → List RawBox → Prop
  | nil : Stated [] []
  | cons {form : SizeForm} {box : RawBox} {rest : List UInt8}
      {boxes : List RawBox} (hfits : form.Fits box rest)
      (hform : form ≠ .toEnd) (hrest : Stated rest boxes) :
      Stated (form.bytes box ++ rest) (box :: boxes)

theorem Stated.append {data more : List UInt8} {boxes others : List RawBox}
    (h : Stated data boxes) (hmore : childBoxes more = .ok others) :
    childBoxes (data ++ more) = .ok (boxes ++ others) := by
  rw [childBoxes_eq_ok_iff] at hmore ⊢
  induction h with
  | nil => exact hmore
  | @cons form box rest boxes hfits hform _ ih =>
      rw [List.append_assoc]
      refine .cons ⟨hfits.name, hfits.size, ?_⟩ ih
      have hholds := hfits.holds
      cases form with
      | word => exact hholds
      | long => exact hholds
      | toEnd => exact absurd rfl hform

theorem Stated.childBoxes_eq {data : List UInt8} {boxes : List RawBox}
    (h : Stated data boxes) : childBoxes data = .ok boxes := by
  have happend := h.append childBoxes_nil
  rwa [List.append_nil, List.append_nil] at happend

theorem stated_boxesBytes {boxes : List BoxSpec}
    (h : ∀ box ∈ boxes, box.Fits) :
    Stated (boxesBytes boxes) (boxes.map BoxSpec.raw) := by
  induction boxes with
  | nil => exact .nil
  | cons box boxes ih =>
      obtain ⟨hbox, hboxes⟩ := List.forall_mem_cons.mp h
      have hbytes : boxBytes box.1 box.2 = SizeForm.word.bytes box.raw := by
        simp [boxBytes, SizeForm.bytes, SizeForm.header, SizeForm.first,
          SizeForm.extended, BoxSpec.raw]
      rw [boxesBytes_cons, List.map_cons, hbytes]
      refine .cons ⟨hbox.name, ?_, hbox.size⟩ (by decide) (ih hboxes)
      exact Nat.add_comm _ _

namespace InitSegment

open MoovReader

/-- The writer finds the same entry, whatever the count. -/
theorem firstEntry_of_describedEntry {description : List UInt8}
    {entry : RawBox} (h : describedEntry description = .ok entry) :
    firstEntry description = .ok entry := by
  obtain ⟨_, rest, entries, ⟨version, flags, hversion, hflags, rfl⟩, rfl,
    hentries, hfirst⟩ := describedEntry_eq_ok_iff.mp h
  have hrest : readDescription.run'
      ((encode 1 version ++ (flags ++ encode 4 1)) ++ rest) = .ok rest := by
    simp only [List.append_assoc]
    refine Reader.run'_eq_ok_iff.mpr ⟨rest, ?_⟩
    unfold readDescription
    refine Reader.run_bind_eq_ok_iff.mpr ⟨version, _,
      Reader.fullBox_eq_ok_iff.mpr ⟨hversion, flags, hflags, rfl⟩, ?_⟩
    exact Reader.run_bind_eq_ok_iff.mpr ⟨(), rest,
      Reader.skip_append (length_encode 4 1) rest, rfl⟩
  unfold firstEntry
  rw [hrest, ok_bind, hentries, ok_bind, hfirst]
  rfl

/-- A description whose entry is replaced describes the new one. -/
theorem describedEntry_oneEntry {description name payload written : List UInt8}
    {entry : RawBox} (h : describedEntry description = .ok entry)
    (hname : name.length = 4)
    (hone : oneEntry description name payload = .ok written) :
    describedEntry written = .ok (BoxSpec.raw (name, payload)) := by
  obtain ⟨head, rest, entries, hhead, rfl, -, -⟩ :=
    describedEntry_eq_ok_iff.mp h
  unfold oneEntry at hone
  obtain ⟨bytes, hbytes, hone⟩ := bind_eq_ok_iff.mp hone
  obtain ⟨hsize, rfl⟩ := writeBox_eq_ok_iff.mp hbytes
  obtain rfl := Except.ok.inj hone
  rw [List.take_left' hhead.length]
  have hread := @childBoxes_boxesBytes [(name, payload)]
    (List.forall_mem_singleton.mpr ⟨hname, hsize⟩)
  rw [boxesBytes_cons, boxesBytes_nil, List.append_nil] at hread
  exact describedEntry_eq_ok_iff.mpr
    ⟨head, _, _, hhead, rfl, hread, rfl⟩

/-! ## What was protected -/

theorem copyBox_eq_ok_iff {child : RawBox} {bytes : List UInt8} :
    copyBox child = .ok bytes ↔ child.payload.length + 8 < 2 ^ 32 ∧
      boxBytes child.name child.payload = bytes :=
  writeBox_eq_ok_iff

/-- The boxes that are kept. -/
def keptBoxes (children : List RawBox) : List BoxSpec :=
  (children.filter fun child => child.name != code 's' 'i' 'n' 'f').map
    fun child => (child.name, child.payload)

theorem mapM_copyBox {children : List RawBox} {written : List (List UInt8)}
    (h : children.mapM copyBox = .ok written)
    (hnames : ∀ child ∈ children, child.name.length = 4) :
    written.flatten =
        boxesBytes (children.map fun child => (child.name, child.payload)) ∧
      ∀ child ∈ children,
        BoxSpec.Fits (child.name, child.payload) := by
  have hwritten := mapM_forall₂ h
  clear h
  induction hwritten with
  | nil => exact ⟨rfl, List.forall_mem_nil _⟩
  | @cons child bytes children written hchild _ ih =>
      obtain ⟨hname, hnames⟩ := List.forall_mem_cons.mp hnames
      obtain ⟨hflatten, hfits⟩ := ih hnames
      obtain ⟨hsize, rfl⟩ := copyBox_eq_ok_iff.mp hchild
      refine ⟨?_, List.forall_mem_cons.mpr ⟨⟨hname, hsize⟩, hfits⟩⟩
      rw [List.flatten_cons, hflatten, List.map_cons, boxesBytes_cons]

theorem find?_keptBoxes {children : List RawBox} {name : List UInt8}
    (hname : name ≠ code 's' 'i' 'n' 'f') :
    ((keptBoxes children).find? fun box => box.1 == name).map Prod.snd =
      (children.find? fun child => child.name == name).map RawBox.payload := by
  unfold keptBoxes
  rw [List.find?_map, List.find?_filter, Option.map_map]
  have hsame : ∀ child : RawBox, decide
      ((child.name != code 's' 'i' 'n' 'f') = true ∧
        ((fun box : BoxSpec => box.1 == name) ∘
          fun child => (child.name, child.payload)) child = true) =
      (child.name == name) := by
    intro child
    by_cases hchild : child.name = name
    · simp [hchild, hname]
    · simp [hchild]
  simp only [hsame]
  rfl

/-- The boxes but `sinf`, in a compact form. -/
theorem sameBoxes_keptBoxes {children : List UInt8} {boxes : List RawBox}
    (h : childBoxes children = .ok boxes)
    (hfits : ∀ box ∈ keptBoxes boxes, box.Fits) :
    Codec.SameBoxes children (boxesBytes (keptBoxes boxes)) := by
  intro name hname
  refine ⟨_, _, optionalChild_eq_ok_iff.mpr ⟨boxes, h, rfl⟩,
    optionalChild_boxesBytes hfits name, ?_⟩
  rw [← find?_keptBoxes hname, Option.map_map]
  rfl

theorem parseTenc_originalFormat {tenc original : List UInt8} {trackId : ℕ}
    {scheme : SourceScheme} {parsed : Sinf}
    (h : (parseTenc trackId original scheme).run' tenc = .ok parsed) :
    original = parsed.originalFormat := by
  obtain ⟨rest, hrun⟩ := Reader.run'_eq_ok_iff.mp h
  unfold parseTenc at hrun
  obtain ⟨version, _, -, hrun⟩ := Reader.run_bind_eq_ok hrun
  obtain ⟨_, _, -, hrun⟩ := Reader.run_bind_eq_ok hrun
  obtain ⟨pattern, _, -, hrun⟩ := Reader.run_bind_eq_ok hrun
  obtain ⟨isProtected, _, -, hrun⟩ := Reader.run_bind_eq_ok hrun
  split at hrun
  · cases hrun
  obtain ⟨ivSize, _, -, hrun⟩ := Reader.run_bind_eq_ok hrun
  obtain ⟨keyId, _, -, hrun⟩ := Reader.run_bind_eq_ok hrun
  split at hrun
  · cases hrun
  obtain ⟨constantIv, _, -, hpure⟩ := Reader.run_bind_eq_ok hrun
  obtain ⟨rfl, -⟩ := Reader.run_pure_eq_ok_iff.mp hpure
  rfl

/-- The original format that `sinf` names. -/
theorem parseSinf_originalFormat {sinf original : List UInt8} {trackId : ℕ}
    {frma : RawBox} {parsed : Sinf}
    (hfrma : requiredChild sinf (code 'f' 'r' 'm' 'a') = .ok frma)
    (horiginal : okOr
      (if 4 ≤ frma.payload.length then some (frma.payload.take 4) else none)
      (invalidMedia "frma is truncated") = .ok original)
    (h : parseSinf trackId sinf = .ok parsed) :
    original = parsed.originalFormat ∧ original.length = 4 := by
  rw [okOr_eq_ok_iff] at horiginal
  split_ifs at horiginal with hlength
  obtain rfl := Option.some.inj horiginal
  refine ⟨?_, List.length_take_of_le hlength⟩
  unfold parseSinf at h
  rw [hfrma, ok_bind] at h
  obtain ⟨format, hformat, h⟩ := bind_eq_ok_iff.mp h
  obtain ⟨schm, -, h⟩ := bind_eq_ok_iff.mp h
  obtain ⟨schemeType, -, h⟩ := bind_eq_ok_iff.mp h
  obtain ⟨scheme, -, h⟩ := bind_eq_ok_iff.mp h
  obtain ⟨schi, -, h⟩ := bind_eq_ok_iff.mp h
  obtain ⟨tenc, -, h⟩ := bind_eq_ok_iff.mp h
  obtain rfl := parseTenc_originalFormat h
  rw [okOr_eq_ok_iff] at hformat
  unfold bytesAt stretch at hformat
  rw [if_pos hlength] at hformat
  exact Option.some.inj hformat

/-- An entry that is not protected is left alone. -/
theorem unprotectedDescription_clear {description : List UInt8}
    {entry : RawBox} (trackId : ℕ) (h : describedEntry description = .ok entry)
    (hclear : entry.name ∉ protectedEntries) :
    unprotectedDescription description trackId = .ok none := by
  unfold unprotectedDescription
  rw [firstEntry_of_describedEntry h, ok_bind]
  simp only [protectedEntries, List.mem_cons, List.not_mem_nil, or_false,
    not_or] at hclear
  rw [if_pos hclear]

/-- A protected entry is written with its type and its boxes before
protection. -/
theorem unprotectedDescription_protected {description children : List UInt8}
    {entry : RawBox} {trackId : ℕ} {found : Option (List UInt8)} {sinf : Sinf}
    (hentry : describedEntry description = .ok entry)
    (hprotected : entry.name ∈ protectedEntries)
    (hchildren : Codec.protectedEntryChildren entry.name entry.payload
      trackId = .ok children)
    (hsinf : entrySinf entry trackId = .ok (some sinf))
    (h : unprotectedDescription description trackId = .ok found) :
    ∃ described boxes, found = some described ∧
      childBoxes children = .ok boxes ∧ (∀ box ∈ keptBoxes boxes, box.Fits) ∧
        describedEntry described = .ok (BoxSpec.raw (sinf.originalFormat,
          entry.payload.take (entry.payload.length - children.length) ++
            boxesBytes (keptBoxes boxes))) := by
  unfold unprotectedDescription at h
  unfold entrySinf at hsinf
  rw [firstEntry_of_describedEntry hentry, ok_bind] at h
  rw [if_pos hprotected, hchildren, ok_bind] at hsinf
  have hname : ¬(entry.name ≠ code 'e' 'n' 'c' 'v' ∧
      entry.name ≠ code 'e' 'n' 'c' 'a') := by
    simp only [protectedEntries, List.mem_cons, List.not_mem_nil, or_false]
      at hprotected
    rintro ⟨hvideo, haudio⟩
    exact hprotected.elim hvideo haudio
  rw [if_neg hname, hchildren, ok_bind] at h
  obtain ⟨info, hinfo, h⟩ := bind_eq_ok_iff.mp h
  obtain ⟨frma, hfrma, h⟩ := bind_eq_ok_iff.mp h
  obtain ⟨original, horiginal, h⟩ := bind_eq_ok_iff.mp h
  obtain ⟨boxes, hboxes, h⟩ := bind_eq_ok_iff.mp h
  obtain ⟨kept, hkept, h⟩ := bind_eq_ok_iff.mp h
  obtain ⟨described, hdescribed, h⟩ := bind_eq_ok_iff.mp h
  obtain rfl := Except.ok.inj h
  have hnames : ∀ child ∈ boxes.filter fun child =>
      child.name != code 's' 'i' 'n' 'f', child.name.length = 4 :=
    fun child hchild =>
      length_name_of_mem_childBoxes hboxes (List.mem_of_mem_filter hchild)
  obtain ⟨hflatten, hfits⟩ := mapM_copyBox hkept hnames
  have hformat : original = sinf.originalFormat ∧ original.length = 4 := by
    rw [hinfo, ok_bind] at hsinf
    cases hparse : parseSinf trackId info.payload with
    | error e => rw [hparse] at hsinf; cases hsinf
    | ok parsed =>
        rw [hparse] at hsinf
        obtain rfl := Option.some.inj (Except.ok.inj hsinf)
        exact parseSinf_originalFormat hfrma horiginal hparse
  refine ⟨described, boxes, rfl, hboxes, ?_, ?_⟩
  · intro box hbox
    obtain ⟨child, hchild, rfl⟩ := List.mem_map.mp hbox
    exact hfits child hchild
  · rw [hflatten] at hdescribed
    rw [← hformat.1]
    exact describedEntry_oneEntry hentry hformat.2 hdescribed

/-! ## What is announced -/

/-- An entry, and what is read of it as one of a track. -/
structure Describes (kind : TrackKind) (handler : List UInt8) (trackId : ℕ)
    (entry : RawBox) (sinf : Option Sinf) (codec : CodecConfig) : Prop where
  sinf_read : entrySinf entry trackId = .ok sinf
  codec_read : Codec.parseCodec (sinf.elim entry.name Sinf.originalFormat) kind
    entry.payload trackId handler = .ok codec
  fits : entry.name ∈ protectedEntries → Codec.ProtectedFor kind entry.name

section

variable {kind : TrackKind} {handler description : List UInt8} {trackId : ℕ}
  {entry : RawBox} {sinf : Option Sinf} {codec : CodecConfig}

theorem entrySinf_clear (hclear : entry.name ∉ protectedEntries) :
    entrySinf entry trackId = .ok none := by
  unfold entrySinf
  rw [if_neg hclear]

theorem entrySinf_protected (h : entry.name ∈ protectedEntries) :
    entrySinf entry trackId = (do
      let children ←
        Codec.protectedEntryChildren entry.name entry.payload trackId
      let sinf ← requiredChild children (code 's' 'i' 'n' 'f')
      (parseSinf trackId sinf.payload).map some) :=
  if_pos h

theorem mem_packagedEntries_of_parseCodec {format payload : List UInt8}
    (h : Codec.parseCodec format kind payload trackId handler = .ok codec) :
    format ∈ packagedEntries := by
  unfold Codec.parseCodec at h
  cases kind with
  | video =>
      dsimp only at h
      split_ifs at h with h₁ h₂ h₃ h₄ h₅
      all_goals simp [packagedEntries, *]
  | audio =>
      dsimp only at h
      split_ifs at h with h₁ h₂ h₃ h₄ h₅
      all_goals simp [packagedEntries, *]

theorem notMem_protectedEntries {format : List UInt8}
    (h : format ∈ packagedEntries) : format ∉ protectedEntries := by
  have hapart : ∀ format ∈ packagedEntries, format ∉ protectedEntries := by
    decide
  exact hapart format h

/-- The description before an entry in the layout of QuickTime files is
rewritten: of a protected entry, as it was before. -/
theorem unprotected_describes {found : Option (List UInt8)}
    (hentry : describedEntry description = .ok entry)
    (h : Describes kind handler trackId entry sinf codec)
    (hfound : unprotectedDescription description trackId = .ok found) :
    ∃ clear, describedEntry (found.getD description) = .ok clear ∧
      clear.name = sinf.elim entry.name Sinf.originalFormat ∧
        Codec.parseCodec clear.name kind clear.payload trackId handler =
          .ok codec ∧
        (entry.name ∈ protectedEntries → ∃ children, ∃ boxes : List BoxSpec,
          Codec.entryChildren kind clear.payload trackId = .ok children ∧
            children = boxesBytes boxes ∧ (∀ box ∈ boxes, box.Fits) ∧
              ∀ box ∈ boxes, box.1 ≠ code 's' 'i' 'n' 'f') ∧
        (entry.name ∉ protectedEntries → clear = entry) := by
  have hsinf := h.sinf_read
  have hcodec := h.codec_read
  by_cases hprotected : entry.name ∈ protectedEntries
  · have hall := Codec.protectedEntryChildren_eq (h.fits hprotected)
      entry.payload trackId
    cases sinf with
    | none =>
        unfold entrySinf at hsinf
        rw [if_pos hprotected] at hsinf
        obtain ⟨children, -, hsinf⟩ := bind_eq_ok_iff.mp hsinf
        obtain ⟨info, -, hsinf⟩ := bind_eq_ok_iff.mp hsinf
        cases hparse : parseSinf trackId info.payload with
        | error e => rw [hparse] at hsinf; cases hsinf
        | ok parsed => rw [hparse] at hsinf; cases hsinf
    | some sinf =>
        obtain ⟨children, whole, hchildren, -⟩ :=
          Codec.entryChildren_of_parseCodec hcodec
        obtain ⟨head, hpayload, hother⟩ := Codec.entry_split hchildren
        rw [← hall] at hchildren
        obtain ⟨described, boxes, rfl, hboxes, hfits, hdescribed⟩ :=
          unprotectedDescription_protected hentry hprotected hchildren hsinf
            hfound
        have hhead : entry.payload.take
            (entry.payload.length - children.length) = head := by
          rw [hpayload, List.length_append, Nat.add_sub_cancel,
            List.take_left]
        rw [hhead] at hdescribed
        obtain ⟨hkept, hsame⟩ := hother (boxesBytes (keptBoxes boxes))
        refine ⟨_, hdescribed, rfl, ?_, fun _ => ?_,
          fun hclear => absurd hprotected hclear⟩
        · exact (hsame (sameBoxes_keptBoxes hboxes hfits) _ _).symm.trans hcodec
        · refine ⟨_, keptBoxes boxes, hkept, rfl, hfits, fun box hbox => ?_⟩
          obtain ⟨child, hchild, rfl⟩ := List.mem_map.mp hbox
          exact bne_iff_ne.mp (List.mem_filter.mp hchild).2
  · rw [unprotectedDescription_clear trackId hentry hprotected] at hfound
    obtain rfl := Except.ok.inj hfound
    rw [entrySinf_clear hprotected] at hsinf
    obtain rfl := Except.ok.inj hsinf
    exact ⟨entry, hentry, rfl, hcodec, fun hin => absurd hin hprotected,
      fun _ => rfl⟩

/-- The child boxes all state their sizes, and none is `sinf`: another box can
be put behind them. -/
def Extensible (kind : TrackKind) (trackId : ℕ) (entry : RawBox) : Prop :=
  ∃ children boxes, Codec.entryChildren kind entry.payload trackId =
    .ok children ∧ Stated children boxes ∧
      ∀ box ∈ boxes, box.name ≠ code 's' 'i' 'n' 'f'

theorem extensible_of_boxesBytes {boxes : List BoxSpec}
    (h : Codec.entryChildren kind entry.payload trackId =
      .ok (boxesBytes boxes))
    (hfits : ∀ box ∈ boxes, box.Fits)
    (hnone : ∀ box ∈ boxes, box.1 ≠ code 's' 'i' 'n' 'f') :
    Extensible kind trackId entry := by
  refine ⟨_, _, h, stated_boxesBytes hfits, fun box hbox => ?_⟩
  obtain ⟨spec, hspec, rfl⟩ := List.mem_map.mp hbox
  exact hnone spec hspec

theorem parseCodec_mp4a (payload : List UInt8) :
    Codec.parseCodec (code 'm' 'p' '4' 'a') .audio payload trackId handler =
      Codec.parseAac payload trackId := by
  unfold Codec.parseCodec
  exact if_pos rfl

/-- An AAC entry is one of a sound track. -/
theorem audio_of_mp4a {payload : List UInt8}
    (h : Codec.parseCodec (code 'm' 'p' '4' 'a') kind payload trackId handler =
      .ok codec) :
    kind = .audio ∧ Codec.parseAac payload trackId = .ok codec := by
  cases kind with
  | video =>
      unfold Codec.parseCodec at h
      rw [if_neg (by decide), if_neg (by decide), if_neg (by decide),
        if_neg (by decide), if_neg (by decide)] at h
      cases h
  | audio => exact ⟨rfl, (parseCodec_mp4a payload).symm.trans h⟩

/-- The entry that is announced is of the codec that was read, under the type
it has without protection. -/
theorem sampleDescription_describes {described : List UInt8}
    (hentry : describedEntry description = .ok entry)
    (h : Describes kind handler trackId entry sinf codec)
    (hrun : sampleDescription description trackId none = .ok described) :
    ∃ announced, describedEntry described = .ok announced ∧
      announced.name = sinf.elim entry.name Sinf.originalFormat ∧
        Codec.parseCodec announced.name kind announced.payload trackId handler =
          .ok codec ∧
        (announced = entry ∧ entry.name ∉ protectedEntries ∨
          Extensible kind trackId announced) := by
  unfold sampleDescription at hrun
  obtain ⟨found, hfound, hrun⟩ := bind_eq_ok_iff.mp hrun
  obtain ⟨clear, hclear, hname, hcodec, hkept, hsame⟩ :=
    unprotected_describes hentry h hfound
  dsimp only at hrun
  rw [firstEntry_of_describedEntry hclear, ok_bind] at hrun
  have hstands : clear = entry ∧ entry.name ∉ protectedEntries ∨
      Extensible kind trackId clear := by
    by_cases hprotected : entry.name ∈ protectedEntries
    · obtain ⟨children, boxes, hchildren, rfl, hfits, hnone⟩ :=
        hkept hprotected
      exact .inr (extensible_of_boxesBytes hchildren hfits hnone)
    · exact .inl ⟨hsame hprotected, hprotected⟩
  split_ifs at hrun with haac
  · obtain rfl := Except.ok.inj hrun
    exact ⟨clear, hclear, hname, hcodec, hstands⟩
  · obtain ⟨iso, hiso, hrun⟩ := bind_eq_ok_iff.mp hrun
    cases iso with
    | none =>
        obtain rfl := Except.ok.inj hrun
        exact ⟨clear, hclear, hname, hcodec, hstands⟩
    | some iso =>
        have hmp4a := not_not.mp haac
        dsimp only at hrun
        obtain ⟨rewritten, hrewritten, hrun⟩ := bind_eq_ok_iff.mp hrun
        obtain rfl := Except.ok.inj hrun
        rw [hmp4a] at hcodec
        obtain ⟨rfl, hparse⟩ := audio_of_mp4a hcodec
        refine ⟨_, describedEntry_oneEntry hclear rfl hrewritten,
          hmp4a.symm.trans hname, ?_, .inr ?_⟩
        · have haccepted := Codec.parseAac_isoAudioEntry hiso hparse
          exact (parseCodec_mp4a iso).trans haccepted
        · obtain ⟨quickTime, esds, -, -, hsize, haudio⟩ :=
            Codec.isoAudioEntry_eq_ok_some hiso
          refine @extensible_of_boxesBytes _ _ _
            [(code 'e' 's' 'd' 's', esds.payload)] ?_
            (List.forall_mem_singleton.mpr ⟨rfl, hsize⟩)
            (List.forall_mem_singleton.mpr
              (show code 'e' 's' 'd' 's' ≠ code 's' 'i' 'n' 'f' by decide))
          unfold Codec.entryChildren
          rw [boxesBytes_cons, boxesBytes_nil, List.append_nil]
          dsimp only [BoxSpec.raw]
          rw [haudio]
          rfl

/-! ## What is marked as protected -/

/-- What the types of the fields say. -/
structure InitProtection.Sound (protection : InitProtection) : Prop where
  keyId : protection.keyId.length = 16
  constantIv : protection.constantIv.length = 16
  cryptByteBlock : protection.cryptByteBlock < 2 ^ 4
  skipByteBlock : protection.skipByteBlock < 2 ^ 4

/-- What is read of the `sinf` that is written. -/
def InitProtection.declared (protection : InitProtection)
    (original : List UInt8) : Sinf where
  originalFormat := original
  scheme := .cbcs
  keyId := protection.keyId
  ivSize := 0
  constantIv := some protection.constantIv
  cryptBlocks := protection.cryptByteBlock
  skipBlocks := protection.skipByteBlock
  isProtected := true

/-- The payload of `tenc`. -/
def InitProtection.tenc (protection : InitProtection) : List UInt8 :=
  [1, 0, 0, 0, 0] ++ (encode 1 (protection.cryptByteBlock * 16 +
    protection.skipByteBlock % 16) ++ ([1, 0] ++ (protection.keyId ++
      ([16] ++ protection.constantIv))))

theorem parseTenc_tenc {protection : InitProtection}
    (h : protection.Sound) (original : List UInt8) :
    (parseTenc trackId original .cbcs).run' protection.tenc =
      .ok (protection.declared original) := by
  have hcrypt := h.cryptByteBlock
  have hskip := h.skipByteBlock
  have hpattern : protection.cryptByteBlock * 16 +
      protection.skipByteBlock % 16 < 2 ^ 8 := by omega
  have hconstant : (parseConstantIv trackId true).run
      (encode 1 16 ++ protection.constantIv) =
        .ok (some protection.constantIv, []) := by
    unfold parseConstantIv
    rw [Reader.optional_true_eq_ok_iff]
    refine ⟨protection.constantIv, ?_, rfl⟩
    refine Reader.run_bind_eq_ok_iff.mpr
      ⟨16, protection.constantIv, Reader.u8_append (by decide) _, ?_⟩
    refine Reader.run_bind_eq_ok_iff.mpr ⟨protection.constantIv, [], ?_, ?_⟩
    · exact Reader.take_eq_ok_iff.mpr
        ⟨h.constantIv, (List.append_nil _).symm⟩
    · unfold iv16
      rw [if_pos (.inr h.constantIv), h.constantIv]
      simp
  refine Reader.run'_eq_ok_iff.mpr ⟨[], ?_⟩
  unfold parseTenc InitProtection.tenc
  refine Reader.run_bind_eq_ok_iff.mpr ⟨1, _,
    Reader.fullBox_eq_ok_iff.mpr ⟨by decide, [0, 0, 0], rfl, rfl⟩, ?_⟩
  refine Reader.run_bind_eq_ok_iff.mpr ⟨(), _,
    @Reader.skip_append [0] 1 rfl _, ?_⟩
  refine Reader.run_bind_eq_ok_iff.mpr ⟨_, _,
    Reader.u8_append hpattern _, ?_⟩
  refine Reader.run_bind_eq_ok_iff.mpr ⟨1, _,
    Reader.u8_append (by decide) _, ?_⟩
  rw [if_neg (by decide)]
  refine Reader.run_bind_eq_ok_iff.mpr ⟨0, _,
    Reader.u8_append (by decide) _, ?_⟩
  refine Reader.run_bind_eq_ok_iff.mpr ⟨_, _,
    Reader.take_append h.keyId _, ?_⟩
  rw [if_neg (by decide)]
  refine Reader.run_bind_eq_ok_iff.mpr ⟨_, _, hconstant, ?_⟩
  refine Reader.run_pure_eq_ok_iff.mpr ⟨?_, rfl⟩
  unfold InitProtection.declared
  congr 1
  · rw [if_pos (Nat.le_refl 1)]
    omega
  · rw [if_pos (Nat.le_refl 1)]
    omega

/-- The boxes of a `sinf`. -/
def InitProtection.boxes (protection : InitProtection)
    (original : List UInt8) : List BoxSpec :=
  [(code 'f' 'r' 'm' 'a', original),
    (code 's' 'c' 'h' 'm',
      List.replicate 4 0 ++ (code 'c' 'b' 'c' 's' ++ encode 4 0x00010000)),
    (code 's' 'c' 'h' 'i',
      boxBytes (code 't' 'e' 'n' 'c') protection.tenc)]

theorem protectionInfo_eq_ok {protection : InitProtection}
    {original info : List UInt8}
    (h : protectionInfo original protection = .ok info) :
    info = boxesBytes (protection.boxes original) ∧
      (∀ box ∈ protection.boxes original, box.Fits) ∧
        protection.tenc.length + 8 < 2 ^ 32 := by
  unfold protectionInfo at h
  obtain ⟨frma, hfrma, h⟩ := bind_eq_ok_iff.mp h
  obtain ⟨schm, hschm, h⟩ := bind_eq_ok_iff.mp h
  obtain ⟨tenc, htenc, h⟩ := bind_eq_ok_iff.mp h
  obtain ⟨schi, hschi, h⟩ := bind_eq_ok_iff.mp h
  obtain rfl := Except.ok.inj h
  obtain ⟨hfrmaSize, rfl⟩ := writeBox_eq_ok_iff.mp hfrma
  obtain ⟨hschmSize, rfl⟩ := writeBox_eq_ok_iff.mp hschm
  obtain ⟨htencSize, rfl⟩ := writeBox_eq_ok_iff.mp htenc
  obtain ⟨hschiSize, rfl⟩ := writeBox_eq_ok_iff.mp hschi
  refine ⟨?_, ?_, htencSize⟩
  · simp only [InitProtection.boxes, boxesBytes_cons, boxesBytes_nil,
      List.append_nil]
    rfl
  · simp only [InitProtection.boxes, List.forall_mem_cons, List.not_mem_nil,
      false_imp_iff, implies_true, and_true]
    exact ⟨⟨rfl, hfrmaSize⟩, ⟨rfl, hschmSize⟩, ⟨rfl, hschiSize⟩⟩

/-- The `sinf` that is written says what was asked for. -/
theorem parseSinf_boxes {protection : InitProtection} {original : List UInt8}
    (h : protection.Sound) (horiginal : original.length = 4)
    (hfits : ∀ box ∈ protection.boxes original, box.Fits)
    (htenc : protection.tenc.length + 8 < 2 ^ 32) :
    parseSinf trackId (boxesBytes (protection.boxes original)) =
      .ok (protection.declared original) := by
  have hinside := @requiredChild_boxesBytes
    [(code 't' 'e' 'n' 'c', protection.tenc)] (code 't' 'e' 'n' 'c') _
    (List.forall_mem_singleton.mpr ⟨rfl, htenc⟩) rfl
  rw [boxesBytes_cons, boxesBytes_nil, List.append_nil] at hinside
  have hformat : bytesAt original 0 4 = some original := by
    unfold bytesAt stretch
    rw [if_pos horiginal.ge, List.drop_zero, ← horiginal, List.take_length]
  unfold parseSinf
  rw [requiredChild_boxesBytes hfits rfl, ok_bind]
  dsimp only [BoxSpec.raw]
  rw [hformat, okOr_some, ok_bind, requiredChild_boxesBytes hfits rfl, ok_bind]
  dsimp only [BoxSpec.raw]
  rw [show bytesAt (List.replicate 4 0 ++
      (code 'c' 'b' 'c' 's' ++ encode 4 0x00010000)) 4 8 =
        some (code 'c' 'b' 'c' 's') by decide, okOr_some, ok_bind,
    show SourceScheme.fromFourcc (code 'c' 'b' 'c' 's') = some .cbcs by decide,
    okOr_some, ok_bind, requiredChild_boxesBytes hfits rfl, ok_bind]
  dsimp only [BoxSpec.raw]
  rw [hinside, ok_bind]
  exact parseTenc_tenc h original

theorem length_name_of_describedEntry
    (h : describedEntry description = .ok entry) : entry.name.length = 4 := by
  obtain ⟨_, rest, entries, -, -, hentries, hfirst⟩ :=
    describedEntry_eq_ok_iff.mp h
  exact length_name_of_mem_childBoxes hentries (List.mem_of_head? hfirst)

/-- The type of a protected entry is that of its track's kind, for the codecs
that are encrypted. -/
theorem protectedFor_protectedType {format payload : List UInt8}
    (h : Codec.parseCodec format kind payload trackId handler = .ok codec)
    (hcodec : Codec.encryptable codec = true) :
    Codec.ProtectedFor kind (protectedType format) := by
  unfold Codec.parseCodec at h
  unfold Codec.ProtectedFor
  cases kind with
  | video =>
      refine iff_of_true ?_ rfl
      dsimp only at h
      split_ifs at h with h₁ h₂ h₃ h₄ h₅
      all_goals subst format; decide
  | audio =>
      refine iff_of_false ?_ (by decide)
      dsimp only at h
      split_ifs at h with h₁ h₂ h₃ h₄ h₅
      · subst format
        decide
      · subst format
        decide
      · subst format
        decide
      · obtain ⟨audio, -, h⟩ := bind_eq_ok_iff.mp h
        obtain ⟨config, -, h⟩ := bind_eq_ok_iff.mp h
        obtain ⟨channels, -, h⟩ := bind_eq_ok_iff.mp h
        obtain rfl := Except.ok.inj h
        cases hcodec
      · obtain ⟨audio, -, h⟩ := bind_eq_ok_iff.mp h
        obtain ⟨config, -, h⟩ := bind_eq_ok_iff.mp h
        obtain ⟨⟨rate, channels⟩, -, h⟩ := bind_eq_ok_iff.mp h
        dsimp only at h
        split_ifs at h
        obtain rfl := Except.ok.inj h
        cases hcodec

theorem protectedType_mem (format : List UInt8) :
    protectedType format ∈ protectedEntries := by
  unfold protectedType
  split_ifs
  · decide
  · decide

theorem sameBoxes_append {children : List UInt8} {boxes : List RawBox}
    {box : BoxSpec} (h : Stated children boxes) (hfits : box.Fits)
    (hname : box.1 = code 's' 'i' 'n' 'f') :
    Codec.SameBoxes children (children ++ boxBytes box.1 box.2) := by
  have hone := @childBoxes_boxesBytes [box]
    (List.forall_mem_singleton.mpr hfits)
  rw [boxesBytes_cons, boxesBytes_nil, List.append_nil] at hone
  intro name hother
  refine ⟨_, _, optionalChild_eq_ok_iff.mpr ⟨boxes, h.childBoxes_eq, rfl⟩,
    optionalChild_eq_ok_iff.mpr ⟨_, h.append hone, rfl⟩, ?_⟩
  rw [List.find?_append]
  have hnone : ([box].map BoxSpec.raw).find?
      (fun child => child.name == name) = none := by
    rw [List.find?_eq_none]
    intro child hchild hmatch
    obtain rfl := List.mem_singleton.mp hchild
    exact hother ((beq_iff_eq.mp hmatch).symm.trans hname)
  rw [hnone, Option.or_none]

/-- The entry that is marked as protected is read as the codec it is of, and
its `sinf` as it was asked for. -/
theorem protect_describes {described : List UInt8}
    {protection : InitProtection} (hsound : protection.Sound)
    (hentry : describedEntry description = .ok entry)
    (hcodec : Codec.parseCodec entry.name kind entry.payload trackId handler =
      .ok codec)
    (hencryptable : Codec.encryptable codec = true)
    (hextensible : Extensible kind trackId entry)
    (hrun : protect description (some protection) = .ok described) :
    ∃ marked, describedEntry described = .ok marked ∧
      marked.name ∈ protectedEntries ∧
        Describes kind handler trackId marked
          (some (protection.declared entry.name)) codec := by
  obtain ⟨children, boxes, hchildren, hstated, hnone⟩ := hextensible
  have hname := length_name_of_describedEntry hentry
  have hfor := protectedFor_protectedType hcodec hencryptable
  unfold protect at hrun
  dsimp only at hrun
  rw [firstEntry_of_describedEntry hentry, ok_bind] at hrun
  obtain ⟨info, hinfo, hrun⟩ := bind_eq_ok_iff.mp hrun
  obtain ⟨sinf, hsinf, hrun⟩ := bind_eq_ok_iff.mp hrun
  obtain ⟨hsize, rfl⟩ := writeBox_eq_ok_iff.mp hsinf
  obtain ⟨rfl, hfits, htenc⟩ := protectionInfo_eq_ok hinfo
  have hbox : BoxSpec.Fits (code 's' 'i' 'n' 'f',
      boxesBytes (protection.boxes entry.name)) := ⟨rfl, hsize⟩
  have hone := @childBoxes_boxesBytes [_]
    (List.forall_mem_singleton.mpr hbox)
  rw [boxesBytes_cons, boxesBytes_nil, List.append_nil] at hone
  have hall := hstated.append hone
  have hsame := sameBoxes_append hstated hbox rfl
  obtain ⟨head, hpayload, hother⟩ := Codec.entry_split hchildren
  obtain ⟨hread, hagain⟩ := hother (children ++ boxBytes
    (code 's' 'i' 'n' 'f') (boxesBytes (protection.boxes entry.name)))
  rw [← List.append_assoc, ← hpayload] at hread hagain
  have hfound : requiredChild (children ++ boxBytes (code 's' 'i' 'n' 'f')
      (boxesBytes (protection.boxes entry.name))) (code 's' 'i' 'n' 'f') =
        .ok (BoxSpec.raw (code 's' 'i' 'n' 'f',
          boxesBytes (protection.boxes entry.name))) := by
    refine requiredChild_eq_ok_iff.mpr ⟨_, hall, ?_⟩
    rw [List.find?_append, List.find?_eq_none.mpr, Option.none_or]
    · rfl
    · intro box hbox hmatch
      exact hnone box hbox (beq_iff_eq.mp hmatch)
  refine ⟨_, describedEntry_oneEntry hentry ?_ hrun,
    protectedType_mem entry.name, ?_, ?_, fun _ => hfor⟩
  · unfold protectedType
    split_ifs
    · rfl
    · rfl
  · refine (entrySinf_protected (protectedType_mem entry.name)).trans ?_
    dsimp only [BoxSpec.raw]
    rw [Codec.protectedEntryChildren_eq hfor, hread, ok_bind, hfound, ok_bind]
    dsimp only [BoxSpec.raw]
    rw [parseSinf_boxes hsound hname hfits htenc]
    rfl
  · exact (hagain hsame _ _).symm.trans hcodec

end

end InitSegment

end Segmentor
