import Segmentor.BoxTiling
import Segmentor.InitWriter
import Segmentor.MoovReader

/-!
# What an init segment keeps

A box that is rewritten keeps the names of the boxes in it, so what is found
by name is the rewritten box of what was found before.  A header keeps
everything but its duration.
-/

namespace Segmentor

open General

/-! ## Children -/

theorem length_name_of_mem_childBoxes {data : List UInt8}
    {children : List RawBox} {child : RawBox}
    (h : childBoxes data = .ok children) (hchild : child ∈ children) :
    child.name.length = 4 := by
  have htiled := childBoxes_eq_ok_iff.mp h
  clear h
  induction htiled with
  | nil => cases hchild
  | cons hfits _ ih =>
      rcases List.mem_cons.mp hchild with rfl | hrest
      · exact hfits.name
      · exact ih hrest

theorem optionalChild_eq_ok_iff {data name : List UInt8}
    {found : Option RawBox} :
    optionalChild data name = .ok found ↔ ∃ children,
      childBoxes data = .ok children ∧
        children.find? (fun child => child.name == name) = found := by
  unfold optionalChild
  rw [bind_eq_ok_iff]
  simp only [Except.ok.injEq]

theorem requiredChild_eq_ok_iff {data name : List UInt8} {child : RawBox} :
    requiredChild data name = .ok child ↔ ∃ children,
      childBoxes data = .ok children ∧
        children.find? (fun child => child.name == name) = some child := by
  unfold requiredChild
  rw [bind_eq_ok_iff]
  simp only [optionalChild_eq_ok_iff, okOr_eq_ok_iff]
  constructor
  · rintro ⟨found, ⟨children, hchildren, rfl⟩, hfind⟩
    exact ⟨children, hchildren, hfind⟩
  · rintro ⟨children, hchildren, hfind⟩
    exact ⟨_, ⟨children, hchildren, rfl⟩, hfind⟩

/-- A box is read back on its own. -/
theorem boxPayload_boxBytes {name payload : List UInt8}
    (hname : name.length = 4) (hsize : payload.length + 8 < 2 ^ 32) :
    boxPayload (boxBytes name payload) 0 =
      .ok (BoxSpec.raw (name, payload)) := by
  have hread := boxPayload_append hname hsize []
  rwa [List.append_nil] at hread

namespace InitSegment

theorem writeBox_eq_ok_iff {name payload bytes : List UInt8} :
    writeBox name payload = .ok bytes ↔
      payload.length + 8 < 2 ^ 32 ∧ boxBytes name payload = bytes := by
  unfold writeBox
  by_cases hsize : payload.length + 8 < 2 ^ 32
  · rw [if_pos hsize, Except.ok.injEq, and_iff_right hsize]
  · rw [if_neg hsize]
    exact iff_of_false (fun h => by cases h) fun h => hsize h.1

/-- A child box, and the box written for it. -/
structure Rewrites (rewrite : RawBox → Result (List UInt8)) (child : RawBox)
    (box : BoxSpec) : Prop where
  name : box.1 = child.name
  payload : rewrite child = .ok box.2

theorem mapM_rewrite {rewrite : RawBox → Result (List UInt8)}
    {children : List RawBox} {written : List (List UInt8)}
    (h : (children.mapM fun child => do
      let rewritten ← rewrite child
      writeBox child.name rewritten) = .ok written)
    (hnames : ∀ child ∈ children, child.name.length = 4) :
    ∃ boxes : List BoxSpec, List.Forall₂ (Rewrites rewrite) children boxes ∧
      (∀ box ∈ boxes, box.Fits) ∧ written.flatten = boxesBytes boxes := by
  have hwritten := mapM_forall₂ h
  clear h
  induction hwritten with
  | nil => exact ⟨[], .nil, List.forall_mem_nil _, rfl⟩
  | @cons child bytes children written hchild _ ih =>
      obtain ⟨hname, hnames⟩ := List.forall_mem_cons.mp hnames
      obtain ⟨boxes, hboxes, hfits, hflatten⟩ := ih hnames
      obtain ⟨payload, hpayload, hbox⟩ := bind_eq_ok_iff.mp hchild
      obtain ⟨hsize, rfl⟩ := writeBox_eq_ok_iff.mp hbox
      refine ⟨(child.name, payload) :: boxes, .cons ⟨rfl, hpayload⟩ hboxes,
        List.forall_mem_cons.mpr ⟨⟨hname, hsize⟩, hfits⟩, ?_⟩
      rw [List.flatten_cons, hflatten, boxesBytes_cons]

theorem rewriteChildren_eq_ok {payload written : List UInt8}
    {rewrite : RawBox → Result (List UInt8)}
    (h : rewriteChildren payload rewrite = .ok written) :
    ∃ children, ∃ boxes : List BoxSpec, childBoxes payload = .ok children ∧
      List.Forall₂ (Rewrites rewrite) children boxes ∧
        (∀ box ∈ boxes, box.Fits) ∧ written = boxesBytes boxes := by
  unfold rewriteChildren at h
  obtain ⟨children, hchildren, h⟩ := bind_eq_ok_iff.mp h
  obtain ⟨parts, hparts, h⟩ := bind_eq_ok_iff.mp h
  obtain rfl := Except.ok.inj h
  obtain ⟨boxes, hboxes, hfits, hflatten⟩ := mapM_rewrite hparts
    fun child => length_name_of_mem_childBoxes hchildren
  exact ⟨children, boxes, hchildren, hboxes, hfits, hflatten⟩

/-- What is found by its name is rewritten in its place. -/
theorem find?_rewrites {rewrite : RawBox → Result (List UInt8)}
    {children : List RawBox} {boxes : List BoxSpec} {name : List UInt8}
    {child : RawBox} (h : List.Forall₂ (Rewrites rewrite) children boxes)
    (hfind : children.find? (fun child => child.name == name) = some child) :
    ∃ payload, rewrite child = .ok payload ∧
      boxes.find? (fun box => box.1 == name) = some (name, payload) := by
  induction h with
  | nil => cases hfind
  | @cons first box children boxes hfirst _ ih =>
      rw [List.find?_cons] at hfind ⊢
      rw [hfirst.name]
      by_cases hname : first.name = name
      · rw [hname, beq_self_eq_true] at hfind ⊢
        obtain rfl := Option.some.inj hfind
        refine ⟨box.2, hfirst.payload, ?_⟩
        rw [← hname, ← hfirst.name]
      · rw [beq_eq_false_iff_ne.mpr hname] at hfind ⊢
        exact ih hfind

/-- A box that is required is found with the payload it was given. -/
theorem requiredChild_rewriteChildren {payload written name : List UInt8}
    {rewrite : RawBox → Result (List UInt8)} {child : RawBox}
    (h : rewriteChildren payload rewrite = .ok written)
    (hchild : requiredChild payload name = .ok child) :
    ∃ rewritten, rewrite child = .ok rewritten ∧
      requiredChild written name = .ok (BoxSpec.raw (name, rewritten)) := by
  obtain ⟨children, boxes, hchildren, hboxes, hfits, rfl⟩ :=
    rewriteChildren_eq_ok h
  obtain ⟨found, hfound, hfind⟩ := requiredChild_eq_ok_iff.mp hchild
  obtain rfl := Except.ok.inj (hchildren.symm.trans hfound)
  obtain ⟨rewritten, hrewritten, hbox⟩ := find?_rewrites hboxes hfind
  exact ⟨rewritten, hrewritten, requiredChild_boxesBytes hfits hbox⟩

theorem name_of_requiredChild {payload name : List UInt8} {child : RawBox}
    (h : requiredChild payload name = .ok child) : child.name = name := by
  obtain ⟨_, _, hfind⟩ := requiredChild_eq_ok_iff.mp h
  have hname := List.find?_some hfind
  exact beq_iff_eq.mp hname

/-! ## Headers -/

theorem zeroed_eq_ok {payload written : List UInt8} {offset width : ℕ}
    (h : zeroed payload offset width = .ok written) :
    ∃ before duration after, before.length = offset ∧
      duration.length = width ∧ payload = before ++ (duration ++ after) ∧
        written = before ++ (List.replicate width 0 ++ after) := by
  unfold zeroed at h
  split at h
  · cases h
  · obtain rfl := Except.ok.inj h
    refine ⟨payload.take offset, (payload.drop offset).take width,
      payload.drop (offset + width), ?_, ?_, ?_, rfl⟩
    · rw [List.length_take]
      omega
    · rw [List.length_take, List.length_drop]
      omega
    · rw [← List.drop_drop, List.take_append_drop, List.take_append_drop]

theorem append_eq_append_of_le {a b c d : List UInt8} (h : a ++ b = c ++ d)
    (hle : a.length ≤ c.length) : ∃ middle, c = a ++ middle ∧
      b = middle ++ d := by
  rcases List.append_eq_append_iff.mp h with ⟨middle, hc, hb⟩ | ⟨middle, ha, hd⟩
  · exact ⟨middle, hc, hb⟩
  · have hlength := congrArg List.length ha
    rw [List.length_append] at hlength
    obtain rfl := List.eq_nil_of_length_eq_zero (l := middle) (by omega)
    refine ⟨[], ?_, ?_⟩
    · rw [ha, List.append_nil, List.append_nil]
    · rw [hd, List.nil_append, List.nil_append]

/-- A header that starts with the version is zeroed where the version puts
its duration. -/
theorem withZeroDuration_eq_ok {version : ℕ} {rest written : List UInt8}
    {place : DurationAt} (hversion : version < 2 ^ 8)
    (h : withZeroDuration (encode 1 version ++ rest) place = .ok written) :
    zeroed (encode 1 version ++ rest)
      (if version = 1 then place.version1 else place.version0)
      (if version = 1 then 8 else 4) = .ok written := by
  have hhead : (encode 1 version ++ rest).head? =
      some (UInt8.ofNat version) := by
    simp [encode]
  have hone : UInt8.ofNat version = 1 ↔ version = 1 := by
    rw [← UInt8.toNat_inj, UInt8.toNat_ofNat', UInt8.toNat_one]
    omega
  unfold withZeroDuration at h
  rw [hhead] at h
  simp only [hone] at h
  split_ifs at h ⊢
  · exact h
  · exact h

/-- The bytes a duration takes. -/
def durationWidth (version : ℕ) : ℕ :=
  if version = 1 then 8 else 4

/-- The bytes of the two times in front of the other fields. -/
def timesWidth (version : ℕ) : ℕ :=
  if version = 1 then 16 else 8

open MoovReader in
theorem readTimescaleAndDuration_eq_ok_iff
    {version timescale duration : ℕ} {unread rest : List UInt8} :
    (readTimescaleAndDuration version).run unread =
        .ok ((timescale, duration), rest) ↔
      timescale < 2 ^ 32 ∧ duration < 256 ^ durationWidth version ∧
        ∃ times, times.length = timesWidth version ∧
          unread = times ++ (encode 4 timescale ++
            (encode (durationWidth version) duration ++ rest)) := by
  unfold readTimescaleAndDuration durationWidth timesWidth
  by_cases hversion : version = 1
  · simp only [if_pos hversion, Reader.run_bind_eq_ok_iff,
      Reader.skip_eq_ok_iff, Reader.u32_eq_ok_iff, Reader.u64_eq_ok_iff,
      Reader.run_pure_eq_ok_iff, Prod.mk.injEq]
    constructor
    · rintro ⟨_, _, ⟨times, htimes, rfl⟩, _, _, ⟨htimescale, rfl⟩, _, _,
        ⟨hduration, rfl⟩, ⟨rfl, rfl⟩, rfl⟩
      exact ⟨htimescale, hduration, times, htimes, rfl⟩
    · rintro ⟨htimescale, hduration, times, htimes, rfl⟩
      exact ⟨(), _, ⟨times, htimes, rfl⟩, _, _, ⟨htimescale, rfl⟩, _, _,
        ⟨hduration, rfl⟩, ⟨rfl, rfl⟩, rfl⟩
  · simp only [if_neg hversion, Reader.run_bind_eq_ok_iff,
      Reader.skip_eq_ok_iff, Reader.u32_eq_ok_iff,
      Reader.run_pure_eq_ok_iff, Prod.mk.injEq]
    constructor
    · rintro ⟨_, _, ⟨times, htimes, rfl⟩, _, _, ⟨htimescale, rfl⟩, _, _,
        ⟨hduration, rfl⟩, ⟨rfl, rfl⟩, rfl⟩
      exact ⟨htimescale, hduration, times, htimes, rfl⟩
    · rintro ⟨htimescale, hduration, times, htimes, rfl⟩
      exact ⟨(), _, ⟨times, htimes, rfl⟩, _, _, ⟨htimescale, rfl⟩, _, _,
        ⟨hduration, rfl⟩, ⟨rfl, rfl⟩, rfl⟩

theorem replicate_zero (width : ℕ) :
    List.replicate width (0 : UInt8) = encode width 0 := by
  induction width with
  | zero => rfl
  | succ width ih =>
      rw [List.replicate_succ', ih]
      rfl

/-- A movie or media header: its version and flags, its times and timescale,
and its duration in front of the rest. -/
def headerBytes (version : ℕ) (flags times : List UInt8)
    (timescale duration : ℕ) (rest : List UInt8) : List UInt8 :=
  encode 1 version ++ (flags ++ (times ++ (encode 4 timescale ++
    (encode (durationWidth version) duration ++ rest))))

theorem withZeroDuration_headerBytes {version timescale duration : ℕ}
    {flags times rest written : List UInt8} (hversion : version < 2 ^ 8)
    (hflags : flags.length = 3) (htimes : times.length = timesWidth version)
    (h : withZeroDuration
      (headerBytes version flags times timescale duration rest)
      .MOVIE_OR_MEDIA = .ok written) :
    written = headerBytes version flags times timescale 0 rest := by
  have hzeroed := withZeroDuration_eq_ok hversion h
  obtain ⟨before, cleared, after, hbefore, hcleared, hwhole, rfl⟩ :=
    zeroed_eq_ok hzeroed
  have hfront : headerBytes version flags times timescale duration rest =
      (encode 1 version ++ (flags ++ (times ++ encode 4 timescale))) ++
        (encode (durationWidth version) duration ++ rest) := by
    simp only [headerBytes, List.append_assoc]
  rw [← headerBytes, hfront] at hwhole
  have hcut : (encode 1 version ++
      (flags ++ (times ++ encode 4 timescale))).length = before.length := by
    rw [hbefore]
    simp only [List.length_append, length_encode, hflags, htimes, timesWidth,
      DurationAt.MOVIE_OR_MEDIA]
    split_ifs <;> rfl
  obtain ⟨hfirst, hsecond⟩ := List.append_inj hwhole hcut
  have hwidth : (encode (durationWidth version) duration).length =
      cleared.length := by
    rw [hcleared, length_encode]
    rfl
  obtain ⟨-, rfl⟩ := List.append_inj hsecond hwidth
  rw [← hfirst, replicate_zero]
  simp only [headerBytes, durationWidth, List.append_assoc]

open MoovReader in
/-- The movie keeps its timescale and loses its duration. -/
theorem readMovieHeader_withZeroDuration {payload written : List UInt8}
    {timescale duration : ℕ}
    (hread : readMovieHeader.run' payload = .ok (timescale, duration))
    (h : withZeroDuration payload .MOVIE_OR_MEDIA = .ok written) :
    readMovieHeader.run' written = .ok (timescale, 0) := by
  obtain ⟨rest, hrun⟩ := Reader.run'_eq_ok_iff.mp hread
  obtain ⟨version, unread, hfull, hfields⟩ := Reader.run_bind_eq_ok hrun
  obtain ⟨hversion, flags, hflags, rfl⟩ := Reader.fullBox_eq_ok_iff.mp hfull
  obtain ⟨htimescale, -, times, htimes, rfl⟩ :=
    readTimescaleAndDuration_eq_ok_iff.mp hfields
  obtain rfl := withZeroDuration_headerBytes hversion hflags htimes h
  refine Reader.run'_eq_ok_iff.mpr ⟨rest, ?_⟩
  refine Reader.run_bind_eq_ok_iff.mpr ⟨version, _,
    Reader.fullBox_eq_ok_iff.mpr ⟨hversion, flags, hflags, rfl⟩, ?_⟩
  exact readTimescaleAndDuration_eq_ok_iff.mpr
    ⟨htimescale, by positivity, times, htimes, rfl⟩

open MoovReader in
/-- The media keep their timescale and language and lose their duration. -/
theorem parseMediaHeader_withZeroDuration {payload written : List UInt8}
    {trackId : ℕ} {header : MediaHeader}
    (hread : parseMediaHeader payload trackId = .ok header)
    (h : withZeroDuration payload .MOVIE_OR_MEDIA = .ok written) :
    parseMediaHeader written trackId = .ok { header with duration := 0 } := by
  unfold parseMediaHeader at hread ⊢
  obtain ⟨rest, hrun⟩ := Reader.run'_eq_ok_iff.mp hread
  obtain ⟨version, unread, hfull, hfields⟩ := Reader.run_bind_eq_ok hrun
  obtain ⟨⟨timescale, duration⟩, behind, htwo, hlanguage⟩ :=
    Reader.run_bind_eq_ok hfields
  obtain ⟨hversion, flags, hflags, rfl⟩ := Reader.fullBox_eq_ok_iff.mp hfull
  obtain ⟨htimescale, -, times, htimes, rfl⟩ :=
    readTimescaleAndDuration_eq_ok_iff.mp htwo
  obtain rfl := withZeroDuration_headerBytes hversion hflags htimes h
  refine Reader.run'_eq_ok_iff.mpr ⟨rest, ?_⟩
  refine Reader.run_bind_eq_ok_iff.mpr ⟨version, _,
    Reader.fullBox_eq_ok_iff.mpr ⟨hversion, flags, hflags, rfl⟩, ?_⟩
  refine Reader.run_bind_eq_ok_iff.mpr ⟨(timescale, 0), behind, ?_, ?_⟩
  · exact readTimescaleAndDuration_eq_ok_iff.mpr
      ⟨htimescale, by positivity, times, htimes, rfl⟩
  · dsimp only at hlanguage ⊢
    split at hlanguage
    · cases hlanguage
    · rename_i hpositive
      rw [if_neg hpositive]
      obtain ⟨packed, after, hpacked, hpure⟩ := Reader.run_bind_eq_ok hlanguage
      obtain ⟨rfl, rfl⟩ := Reader.run_pure_eq_ok_iff.mp hpure
      exact Reader.run_bind_eq_ok_iff.mpr ⟨packed, _, hpacked, rfl⟩

open MoovReader in
/-- A track keeps its number. -/
theorem trackId_withZeroDuration {payload written : List UInt8} {id : ℕ}
    (hread : trackId payload = .ok id)
    (h : withZeroDuration payload .TRACK_HEADER = .ok written) :
    trackId written = .ok id := by
  unfold trackId at hread ⊢
  obtain ⟨rest, hrun⟩ := Reader.run'_eq_ok_iff.mp hread
  obtain ⟨version, unread, hfull, hfields⟩ := Reader.run_bind_eq_ok hrun
  obtain ⟨_, behind, hskip, hnumber⟩ := Reader.run_bind_eq_ok hfields
  obtain ⟨hversion, flags, hflags, rfl⟩ := Reader.fullBox_eq_ok_iff.mp hfull
  obtain ⟨times, htimes, rfl⟩ := Reader.skip_eq_ok_iff.mp hskip
  obtain ⟨hid, rfl⟩ := Reader.u32_eq_ok_iff.mp hnumber
  obtain ⟨before, cleared, after, hbefore, -, hwhole, rfl⟩ :=
    zeroed_eq_ok (withZeroDuration_eq_ok hversion h)
  have hfront : encode 1 version ++ (flags ++ (times ++ (encode 4 id ++ rest)))
      = (encode 1 version ++ (flags ++ (times ++ encode 4 id))) ++ rest := by
    simp only [List.append_assoc]
  rw [hfront] at hwhole
  have hle : (encode 1 version ++
      (flags ++ (times ++ encode 4 id))).length ≤ before.length := by
    rw [hbefore]
    simp only [List.length_append, length_encode, hflags, htimes,
      DurationAt.TRACK_HEADER]
    split_ifs <;> decide
  obtain ⟨middle, rfl, -⟩ := append_eq_append_of_le hwhole hle
  simp only [List.append_assoc]
  refine Reader.run'_eq_ok_iff.mpr
    ⟨middle ++ (List.replicate (if version = 1 then 8 else 4) 0 ++ after), ?_⟩
  refine Reader.run_bind_eq_ok_iff.mpr ⟨version, _,
    Reader.fullBox_eq_ok_iff.mpr ⟨hversion, flags, hflags, rfl⟩, ?_⟩
  refine Reader.run_bind_eq_ok_iff.mpr ⟨(), _,
    Reader.skip_eq_ok_iff.mpr ⟨times, htimes, rfl⟩, ?_⟩
  exact Reader.u32_eq_ok_iff.mpr ⟨hid, rfl⟩

end InitSegment

end Segmentor
