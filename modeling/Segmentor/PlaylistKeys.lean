import Segmentor.MediaPlaylists

/-!
# The key lines of media playlists

A media playlist writes key lines where keys begin, change or end.  Whatever
holds of the lines of every key its presentations have holds of every key line
written.
-/

namespace Segmentor

open General

/-! ## Keys and their periods -/

/-- The keys an encryption opens with are of one of its periods. -/
theorem Encryption.toPeriodKeys_mem (encryption : Encryption) :
    encryption.toPeriodKeys ∈ encryption.encryptedPeriods := by
  unfold Encryption.encryptedPeriods
  split
  · exact List.mem_singleton.mpr rfl
  · next hperiods =>
      obtain ⟨period, hperiod, hkeys⟩ :=
        List.exists_of_findSome?_eq_some (encryption.primary hperiods)
      exact List.mem_filterMap.mpr ⟨period, hperiod, hkeys⟩

/-- The keys of a stretch placed on the segments are of one of the
encryption's periods. -/
theorem keys_of_mem_schedule {encryption : Encryption} {tracks : List Track}
    {plan : SegmentPlan} {placed : List ScheduledPeriod}
    (hrotating : encryption.isRotating = true)
    (h : schedule encryption tracks plan = .ok placed) :
    ∀ scheduled ∈ placed, ∀ keys ∈ scheduled.keys,
      keys ∈ encryption.encryptedPeriods := by
  have hperiods : ∀ period ∈ encryption.periods, ∀ keys ∈ period.keys,
      keys ∈ encryption.encryptedPeriods := by
    intro period hperiod keys hkeys
    unfold Encryption.encryptedPeriods
    rw [if_neg (Encryption.isRotating_iff.mp hrotating)]
    exact List.mem_filterMap.mpr ⟨period, hperiod, hkeys⟩
  unfold schedule at h
  rw [if_pos hrotating] at h
  refine (foldlM_invariant (I := fun left placed =>
    (∀ period ∈ left, ∀ keys ∈ period.keys,
        keys ∈ encryption.encryptedPeriods) ∧
      ∀ scheduled ∈ placed, ∀ keys ∈ scheduled.keys,
        keys ∈ encryption.encryptedPeriods) ?_ ⟨hperiods, by simp⟩ h).2
  intro period rest placed next hinvariant hplace
  obtain ⟨hperiod, hrest⟩ := List.forall_mem_cons.mp hinvariant.1
  refine ⟨hrest, ?_⟩
  unfold placePeriod at hplace
  split at hplace
  · obtain rfl := Except.ok.inj hplace
    exact hinvariant.2
  split at hplace
  · cases hplace
  obtain rfl := Except.ok.inj hplace
  rw [List.forall_mem_append, List.forall_mem_singleton]
  exact ⟨hinvariant.2, hperiod⟩

theorem keys_of_mem_keySchedule {presentation : Presentation} :
    ∀ scheduled ∈ presentation.keySchedule, ∀ keys ∈ scheduled.keys,
      ∃ encryption ∈ presentation.encryption,
        keys ∈ encryption.encryptedPeriods := by
  unfold Presentation.keySchedule
  split
  · next encryption hencryption =>
    split
    · next hrotating =>
      split
      · next periods hschedule =>
        intro scheduled hmem keys hkeys
        exact ⟨encryption, hencryption,
          keys_of_mem_schedule hrotating hschedule scheduled hmem keys hkeys⟩
      · simp
    · simp
  · simp

/-! ## Lines -/

/-- The line is not a key line, or one with the property. -/
def PlaylistLine.KeyIn (P : KeyLine → Prop) : PlaylistLine → Prop
  | .key line => P line
  | _ => True

/-- The lines of every key of the presentation have the property. -/
structure Presentation.KeysIn (presentation : Presentation)
    (P : KeyLine → Prop) : Prop where
  clear : P .clear
  aes128 : ∀ key ∈ presentation.aes128, P (.aes128 key.uri)
  periods : ∀ encryption ∈ presentation.encryption,
    ∀ period ∈ encryption.encryptedPeriods,
      ∀ key, ∀ line ∈ hlsKeyLines period key, P line

section Lines

variable {P : KeyLine → Prop} {presentation : Presentation}

theorem keyIn_periodLines (kind : TrackKind) {keys : Option PeriodKeys}
    (hclear : P .clear)
    (h : ∀ period ∈ keys, ∀ key, ∀ line ∈ hlsKeyLines period key, P line) :
    ∀ line ∈ periodLines kind keys, line.KeyIn P := by
  cases keys with
  | none =>
      rw [periodLines, List.forall_mem_singleton]
      exact hclear
  | some keys =>
      rw [periodLines, List.forall_mem_map]
      exact h keys rfl _

theorem keyIn_keyTransitionLines (previous : Option PeriodKeys)
    {current : Option PeriodKeys} (kind : TrackKind) (hclear : P .clear)
    (h : ∀ period ∈ current, ∀ key, ∀ line ∈ hlsKeyLines period key,
      P line) :
    ∀ line ∈ keyTransitionLines previous current kind, line.KeyIn P := by
  cases current with
  | none =>
      change ∀ line ∈ (if previous.isSome then [hlsKeyNone] else []), _
      split
      · rw [List.forall_mem_singleton]
        exact hclear
      · simp
  | some keys =>
      change ∀ line ∈ (hlsKeyLines keys (keys.keyFor kind)).map _, _
      rw [List.forall_mem_map]
      exact h keys rfl _

theorem Presentation.KeysIn.scheduled (h : presentation.KeysIn P) :
    ∀ scheduled ∈ presentation.keySchedule, ∀ keys ∈ scheduled.keys,
      ∀ key, ∀ line ∈ hlsKeyLines keys key, P line := by
  intro scheduled hmem keys hkeys
  obtain ⟨encryption, hencryption, hperiod⟩ :=
    keys_of_mem_keySchedule scheduled hmem keys hkeys
  exact h.periods encryption hencryption keys hperiod

theorem Presentation.KeysIn.opening (h : presentation.KeysIn P) :
    ∀ keys ∈ presentation.encryption.map Encryption.toPeriodKeys,
      ∀ key, ∀ line ∈ hlsKeyLines keys key, P line := by
  intro keys hkeys
  obtain ⟨encryption, hencryption, rfl⟩ := Option.map_eq_some_iff.mp hkeys
  exact h.periods encryption hencryption _ encryption.toPeriodKeys_mem

theorem keyIn_dueLines (kind : TrackKind) (number : ℕ)
    {periods : List ScheduledPeriod} (hclear : P .clear)
    (h : ∀ scheduled ∈ periods, ∀ keys ∈ scheduled.keys,
      ∀ key, ∀ line ∈ hlsKeyLines keys key, P line) :
    (∀ line ∈ (dueLines kind number periods).1, line.KeyIn P) ∧
      ∀ scheduled ∈ (dueLines kind number periods).2,
        ∀ keys ∈ scheduled.keys,
          ∀ key, ∀ line ∈ hlsKeyLines keys key, P line := by
  unfold dueLines
  cases periods with
  | nil => simp
  | cons period later =>
      obtain ⟨hperiod, hlater⟩ := List.forall_mem_cons.mp h
      dsimp only
      split
      · exact ⟨keyIn_periodLines kind hclear hperiod, hlater⟩
      · exact ⟨by simp, h⟩

theorem keyIn_segmentEntries {track : Track} {firstNumber offset : ℕ}
    {periods : List ScheduledPeriod} {segments : List TrackSegment}
    {entries : List PlaylistLine} (hclear : P .clear)
    (hperiods : ∀ scheduled ∈ periods, ∀ keys ∈ scheduled.keys,
      ∀ key, ∀ line ∈ hlsKeyLines keys key, P line)
    (h : segmentEntries track firstNumber offset periods segments =
      .ok entries) :
    ∀ line ∈ entries, line.KeyIn P := by
  induction segments generalizing offset periods entries with
  | nil =>
      obtain rfl := Except.ok.inj h
      simp
  | cons segment rest ih =>
      unfold segmentEntries at h
      obtain ⟨milliseconds, -, h⟩ := bind_eq_ok_iff.mp h
      obtain ⟨number, -, h⟩ := bind_eq_ok_iff.mp h
      obtain ⟨others, hothers, h⟩ := bind_eq_ok_iff.mp h
      obtain rfl := Except.ok.inj h
      obtain ⟨hdue, hlater⟩ := keyIn_dueLines track.kind number hclear hperiods
      rw [List.forall_mem_append, List.forall_mem_cons]
      exact ⟨hdue, trivial, ih hlater hothers⟩

theorem keyIn_writeSegmentEntries (h : presentation.KeysIn P) {track : Track}
    {firstNumber : ℕ} {entries : List PlaylistLine}
    (hentries : writeSegmentEntries presentation track firstNumber =
      .ok entries) :
    ∀ line ∈ entries, line.KeyIn P :=
  keyIn_segmentEntries h.clear (fun scheduled hmem =>
    h.scheduled scheduled (List.mem_of_mem_drop hmem)) hentries

theorem keyIn_writeAes128Key (h : presentation.KeysIn P) :
    ∀ line ∈ writeAes128Key presentation, line.KeyIn P := by
  intro line hline
  obtain ⟨key, hkey, rfl⟩ := List.mem_map.mp hline
  exact h.aes128 key (Option.mem_toList.mp hkey)

theorem keyIn_keyLines (h : presentation.KeysIn P) (track : Track) :
    ∀ line ∈ keyLines presentation track, line.KeyIn P := by
  apply keyIn_keyTransitionLines _ _ h.clear
  cases hhead : presentation.keySchedule.head? with
  | none => exact h.opening
  | some scheduled =>
      exact h.scheduled scheduled (List.mem_of_mem_head? hhead)

theorem keyIn_mediaPlaylist (h : presentation.KeysIn P) {key : TrackKey}
    {lines : List PlaylistLine}
    (hlines : mediaPlaylist presentation key = .ok lines) :
    ∀ line ∈ lines, line.KeyIn P := by
  unfold mediaPlaylist at hlines
  obtain ⟨track, -, hlines⟩ := bind_eq_ok_iff.mp hlines
  obtain ⟨entries, hentries, hlines⟩ := bind_eq_ok_iff.mp hlines
  obtain rfl := Except.ok.inj hlines
  simp only [List.forall_mem_append, List.forall_mem_singleton]
  exact ⟨⟨⟨⟨⟨trivial, keyIn_keyLines h track⟩, trivial⟩,
    keyIn_writeAes128Key h⟩, keyIn_writeSegmentEntries h hentries⟩, trivial⟩

theorem keyIn_clipLines {key : TrackKey} {position : ℕ}
    {previous : Option Encryption} {clips : List SequenceClip}
    (h : ∀ clip ∈ clips, clip.presentation.KeysIn P)
    {lines : List PlaylistLine}
    (hlines : clipLines key position previous clips = .ok lines) :
    ∀ line ∈ lines, line.KeyIn P := by
  induction clips generalizing position previous lines with
  | nil =>
      obtain rfl := Except.ok.inj hlines
      simp
  | cons clip clips ih =>
      obtain ⟨hclip, hclips⟩ := List.forall_mem_cons.mp h
      unfold clipLines at hlines
      obtain ⟨track, -, hlines⟩ := bind_eq_ok_iff.mp hlines
      dsimp only at hlines
      obtain ⟨entries, hentries, hlines⟩ := bind_eq_ok_iff.mp hlines
      obtain ⟨others, hothers, hlines⟩ := bind_eq_ok_iff.mp hlines
      obtain rfl := Except.ok.inj hlines
      simp only [List.forall_mem_append, List.forall_mem_singleton]
      refine ⟨⟨⟨⟨⟨⟨?_, ?_⟩, ?_⟩, trivial⟩, keyIn_writeAes128Key hclip⟩,
        keyIn_writeSegmentEntries hclip hentries⟩, ih hclips hothers⟩
      · intro line hline
        obtain ⟨-, hline⟩ := List.mem_ite_nil_right.mp hline
        obtain rfl := List.mem_singleton.mp hline
        trivial
      · intro line hline
        obtain ⟨-, hline⟩ := List.mem_ite_nil_right.mp hline
        exact keyIn_keyTransitionLines _ _ hclip.clear hclip.opening line hline
      · intro line hline
        obtain ⟨-, hline⟩ := List.mem_ite_nil_right.mp hline
        obtain rfl := List.mem_singleton.mp hline
        exact hclip.clear

theorem keyIn_sequenceMediaPlaylist {clips : List SequenceClip}
    (h : ∀ clip ∈ clips, clip.presentation.KeysIn P) {key : TrackKey}
    {lines : List PlaylistLine}
    (hlines : sequenceMediaPlaylist clips key = .ok lines) :
    ∀ line ∈ lines, line.KeyIn P := by
  unfold sequenceMediaPlaylist at hlines
  obtain ⟨target, -, hlines⟩ := bind_eq_ok_iff.mp hlines
  obtain ⟨entries, hentries, hlines⟩ := bind_eq_ok_iff.mp hlines
  obtain rfl := Except.ok.inj hlines
  simp only [List.forall_mem_append, List.forall_mem_cons]
  exact ⟨⟨trivial, keyIn_clipLines h hentries⟩, trivial, by simp⟩

end Lines

end Segmentor
