import Segmentor.General.Framed
import Segmentor.KeyTexts

/-!
# Fingerprints of encryptions

The hash that a version depends on, of everything the keys, systems and
periods say.  The parts are hashed behind their lengths, without counts or
tags; that an accepted encryption is told from every other rests on which
lengths the parts can have.
-/

namespace Segmentor

open General

/-! ## What is hashed -/

section Parts

variable (sha256 : List UInt8 → List UInt8)

/-- A key's parts; the key itself enters as its hash. -/
def ContentKey.parts (key : ContentKey) : List (List UInt8) :=
  [key.keyId, sha256 key.key, key.iv]

def DrmSystem.parts (system : DrmSystem) : List (List UInt8) :=
  [system.systemId, system.pssh.getD [],
    Wire.utf8 (system.licenseUrl.getD ""), Wire.utf8 (system.hlsUri.getD "")]

def PeriodKeys.parts (content : PeriodKeys) : List (List UInt8) :=
  content.distinctKeys.flatMap (ContentKey.parts sha256) ++
    content.systems.flatMap DrmSystem.parts

/-- The fingerprint of a period's own encryption, which has no periods. -/
def PeriodKeys.fingerprint (content : PeriodKeys) : List UInt8 :=
  sha256 (lengthFramed (content.parts sha256))

def KeyPeriod.parts (period : KeyPeriod) : List (List UInt8) :=
  [encode 8 period.startMs,
    match period.keys with
    | some content => content.fingerprint sha256
    | none => Wire.utf8 "clear"]

def Encryption.parts (encryption : Encryption) : List (List UInt8) :=
  encryption.toPeriodKeys.parts sha256 ++
    encryption.periods.flatMap (KeyPeriod.parts sha256)

/-- Everything the encrypted bytes and the signalling depend on, hashed. -/
def Encryption.fingerprint (encryption : Encryption) : List UInt8 :=
  sha256 (lengthFramed (encryption.parts sha256))

/-- What is fed to the hash for a period's keys and systems. -/
def PeriodKeys.fed (content : PeriodKeys) : List (List UInt8) :=
  lengthFramed (content.parts sha256) :: content.distinctKeys.map ContentKey.key

/-- What is fed to the hash for an encryption. -/
def Encryption.fed (encryption : Encryption) : List (List UInt8) :=
  lengthFramed (encryption.parts sha256) ::
    (encryption.distinctKeys.map ContentKey.key ++
      (encryption.periods.filterMap KeyPeriod.keys).flatMap
        (PeriodKeys.fed sha256))

end Parts

/-! ## Sizes -/

theorem utf8_inj {a b : String} (h : Wire.utf8 a = Wire.utf8 b) : a = b := by
  unfold Wire.utf8 at h
  apply String.toByteArray_inj.mp
  apply ByteArray.ext
  exact Array.toList_inj.mp h

structure ContentKey.Sized (key : ContentKey) : Prop where
  keyId_length : key.keyId.length = 16
  key_length : key.key.length = 16
  iv_length : key.iv.length = 16

/-- What is there is not empty, and no part is longer than a word can say. -/
structure DrmSystem.Sized (system : DrmSystem) : Prop where
  systemId_length : system.systemId.length = 16
  pssh : ∀ bytes ∈ system.pssh, bytes.length < 2 ^ 64
  license : ∀ url ∈ system.licenseUrl, url ≠ "" ∧
    (Wire.utf8 url).length < 2 ^ 64
  hls : ∀ uri ∈ system.hlsUri, uri ≠ "" ∧ (Wire.utf8 uri).length < 2 ^ 64

structure PeriodKeys.Sized (content : PeriodKeys) : Prop where
  keys : ∀ key ∈ content.distinctKeys, ContentKey.Sized key
  systems : ∀ system ∈ content.systems, DrmSystem.Sized system

structure Encryption.Sized (encryption : Encryption) : Prop where
  primary : encryption.toPeriodKeys.Sized
  starts : ∀ period ∈ encryption.periods, period.startMs < 2 ^ 64
  periods : ∀ period ∈ encryption.periods, ∀ content ∈ period.keys,
    PeriodKeys.Sized content

/-- Every hash has 32 bytes. -/
def Digests (sha256 : List UInt8 → List UInt8) : Prop :=
  ∀ bytes, (sha256 bytes).length = 32

section Framable

variable {sha256 : List UInt8 → List UInt8} (hdigests : Digests sha256)

include hdigests

theorem ContentKey.Sized.framable {key : ContentKey} (h : key.Sized) :
    Framable (key.parts sha256) := by
  unfold Framable ContentKey.parts
  simp only [List.forall_mem_cons]
  refine ⟨?_, ?_, ?_, by simp⟩
  · rw [h.keyId_length]
    norm_num
  · rw [hdigests]
    norm_num
  · rw [h.iv_length]
    norm_num

omit hdigests in
theorem DrmSystem.Sized.framable {system : DrmSystem} (h : system.Sized) :
    Framable system.parts := by
  have hempty : (Wire.utf8 "").length < 2 ^ 64 := by decide
  unfold Framable DrmSystem.parts
  simp only [List.forall_mem_cons]
  refine ⟨?_, ?_, ?_, ?_, by simp⟩
  · rw [h.systemId_length]
    norm_num
  · cases hpssh : system.pssh with
    | none => simp
    | some bytes => exact h.pssh bytes hpssh
  · cases hlicense : system.licenseUrl with
    | none => exact hempty
    | some url => exact (h.license url hlicense).2
  · cases hhls : system.hlsUri with
    | none => exact hempty
    | some uri => exact (h.hls uri hhls).2

theorem PeriodKeys.Sized.framable {content : PeriodKeys} (h : content.Sized) :
    Framable (content.parts sha256) := by
  apply Framable.append
  · intro part hpart
    obtain ⟨key, hkey, hmem⟩ := List.mem_flatMap.mp hpart
    exact (h.keys key hkey).framable hdigests part hmem
  · intro part hpart
    obtain ⟨system, hsystem, hmem⟩ := List.mem_flatMap.mp hpart
    exact (h.systems system hsystem).framable part hmem

theorem KeyPeriod.framable (period : KeyPeriod) :
    Framable (period.parts sha256) := by
  unfold Framable KeyPeriod.parts
  simp only [List.forall_mem_cons]
  refine ⟨by simp, ?_, by simp⟩
  cases period.keys with
  | none => exact (by decide : (Wire.utf8 "clear").length < 2 ^ 64)
  | some content =>
      unfold PeriodKeys.fingerprint
      dsimp only
      rw [hdigests]
      norm_num

theorem Encryption.Sized.framable {encryption : Encryption}
    (h : encryption.Sized) : Framable (encryption.parts sha256) := by
  apply Framable.append (h.primary.framable hdigests)
  intro part hpart
  obtain ⟨period, -, hmem⟩ := List.mem_flatMap.mp hpart
  exact period.framable hdigests part hmem

end Framable

/-! ## Parts tell what they are parts of -/

theorem eq_of_getD_eq {α : Type} {o p : Option α} {d : α}
    (h : o.getD d = p.getD d) (ho : ∀ a ∈ o, a ≠ d) (hp : ∀ a ∈ p, a ≠ d) :
    o = p := by
  cases o with
  | none =>
      cases p with
      | none => rfl
      | some a => exact absurd h.symm (hp a rfl)
  | some a =>
      cases p with
      | none => exact absurd h (ho a rfl)
      | some b => exact congrArg some h

theorem DrmSystem.pssh_ne_nil (system : DrmSystem) :
    ∀ bytes ∈ system.pssh, bytes ≠ [] := by
  rintro bytes hbytes rfl
  have hnamed := system.pssh_named [] hbytes
  cases hnamed

theorem DrmSystem.Sized.parts_inj {a b : DrmSystem} (ha : a.Sized)
    (hb : b.Sized) (h : a.parts = b.parts) : a = b := by
  simp only [DrmSystem.parts, List.cons.injEq, and_true] at h
  obtain ⟨hid, hpssh, hlicense, hhls⟩ := h
  have hsamePssh := eq_of_getD_eq hpssh a.pssh_ne_nil b.pssh_ne_nil
  have hsameLicense := eq_of_getD_eq (utf8_inj hlicense)
    (fun url hurl => (ha.license url hurl).1)
    (fun url hurl => (hb.license url hurl).1)
  have hsameHls := eq_of_getD_eq (utf8_inj hhls)
    (fun uri huri => (ha.hls uri huri).1)
    (fun uri huri => (hb.hls uri huri).1)
  cases a
  cases b
  simp only [DrmSystem.mk.injEq]
  exact ⟨hid, hsamePssh, hsameLicense, hsameHls⟩

/-- The first part, if there is one, has eight bytes, as a period's has. -/
def OpensPeriod (parts : List (List UInt8)) : Prop :=
  ∀ part ∈ parts.head?, part.length = 8

theorem opensPeriod (sha256 : List UInt8 → List UInt8)
    (periods : List KeyPeriod) :
    OpensPeriod (periods.flatMap (KeyPeriod.parts sha256)) := by
  cases periods with
  | nil => exact fun part hpart => by cases hpart
  | cons period periods =>
      intro part hpart
      obtain rfl := Option.some.inj hpart
      exact length_encode 8 period.startMs

/-- A system's first part is longer than a period's, so the systems end where
the periods start. -/
theorem systems_parts_inj {systems others : List DrmSystem}
    {rest more : List (List UInt8)}
    (hsystems : ∀ system ∈ systems, DrmSystem.Sized system)
    (hothers : ∀ system ∈ others, DrmSystem.Sized system)
    (hrest : OpensPeriod rest) (hmore : OpensPeriod more)
    (h : systems.flatMap DrmSystem.parts ++ rest =
      others.flatMap DrmSystem.parts ++ more) :
    systems = others ∧ rest = more := by
  induction systems generalizing others with
  | nil =>
      cases others with
      | nil => exact ⟨rfl, h⟩
      | cons other others =>
          have hopens := hrest other.systemId (by
            rw [List.flatMap_nil, List.nil_append] at h
            rw [h]
            rfl)
          rw [(hothers other List.mem_cons_self).systemId_length] at hopens
          cases hopens
  | cons system systems ih =>
      obtain ⟨hsystem, hlater⟩ := List.forall_mem_cons.mp hsystems
      cases others with
      | nil =>
          have hopens := hmore system.systemId (by
            rw [List.flatMap_nil, List.nil_append] at h
            rw [← h]
            rfl)
          rw [hsystem.systemId_length] at hopens
          cases hopens
      | cons other others =>
          obtain ⟨hother, hlaterOthers⟩ := List.forall_mem_cons.mp hothers
          rw [List.flatMap_cons, List.flatMap_cons, List.append_assoc,
            List.append_assoc] at h
          obtain ⟨hhead, htail⟩ := List.append_inj h rfl
          obtain ⟨rfl, hsame⟩ := ih hlater hlaterOthers htail
          rw [hsystem.parts_inj hother hhead]
          exact ⟨rfl, hsame⟩

/-- Keys have three parts, systems four and periods two, and there are one or
two keys: their number decides whether there are an odd number of parts. -/
theorem length_distinctKeys (content : PeriodKeys) :
    content.distinctKeys.length = 1 ∨ content.distinctKeys.length = 2 := by
  unfold PeriodKeys.distinctKeys
  cases content.keys with
  | all key => exact .inl rfl
  | split video audio =>
      dsimp only
      split
      · exact .inl rfl
      · exact .inr rfl

theorem length_flatMap_const {α : Type} {f : α → List (List UInt8)} {n : ℕ}
    (h : ∀ a, (f a).length = n) (l : List α) :
    (l.flatMap f).length = n * l.length := by
  induction l with
  | nil => rfl
  | cons a l ih =>
      rw [List.flatMap_cons, List.length_append, h, ih, List.length_cons]
      ring

variable {sha256 : List UInt8 → List UInt8}

theorem keys_parts_inj {keys others : List ContentKey}
    (hlength : keys.length = others.length)
    (hinj : ∀ key ∈ keys, ∀ other ∈ others,
      sha256 key.key = sha256 other.key → key.key = other.key)
    (h : keys.flatMap (ContentKey.parts sha256) =
      others.flatMap (ContentKey.parts sha256)) : keys = others := by
  induction keys generalizing others with
  | nil => exact (List.length_eq_zero_iff.mp hlength.symm).symm
  | cons key keys ih =>
      obtain ⟨other, others, rfl⟩ := List.exists_of_length_succ others
        hlength.symm
      rw [List.flatMap_cons, List.flatMap_cons] at h
      obtain ⟨hhead, htail⟩ := List.append_inj h rfl
      simp only [ContentKey.parts, List.cons.injEq, and_true] at hhead
      obtain ⟨hid, hhash, hiv⟩ := hhead
      have hkey := hinj key (by simp) other (by simp) hhash
      have hrest := ih (by simpa using hlength)
        (fun a ha b hb => hinj a (by simp [ha]) b (by simp [hb])) htail
      cases key
      cases other
      simp only at hid hiv hkey
      rw [hid, hiv, hkey, hrest]

theorem content_parts_inj {a b : PeriodKeys} {p q : List KeyPeriod}
    (ha : a.Sized) (hb : b.Sized)
    (hinj : ∀ key ∈ a.distinctKeys, ∀ other ∈ b.distinctKeys,
      sha256 key.key = sha256 other.key → key.key = other.key)
    (h : a.parts sha256 ++ p.flatMap (KeyPeriod.parts sha256) =
      b.parts sha256 ++ q.flatMap (KeyPeriod.parts sha256)) :
    a.distinctKeys = b.distinctKeys ∧ a.systems = b.systems ∧
      p.flatMap (KeyPeriod.parts sha256) =
        q.flatMap (KeyPeriod.parts sha256) := by
  have hkeys : ∀ keys : List ContentKey,
      (keys.flatMap (ContentKey.parts sha256)).length = 3 * keys.length :=
    length_flatMap_const fun _ => rfl
  have hsystems : ∀ systems : List DrmSystem,
      (systems.flatMap DrmSystem.parts).length = 4 * systems.length :=
    length_flatMap_const fun _ => rfl
  have hperiods : ∀ periods : List KeyPeriod,
      (periods.flatMap (KeyPeriod.parts sha256)).length =
        2 * periods.length :=
    length_flatMap_const fun _ => rfl
  have hcount : a.distinctKeys.length = b.distinctKeys.length := by
    have hlength := congrArg List.length h
    simp only [PeriodKeys.parts, List.length_append, hkeys, hsystems,
      hperiods] at hlength
    have := length_distinctKeys a
    have := length_distinctKeys b
    omega
  unfold PeriodKeys.parts at h
  rw [List.append_assoc, List.append_assoc] at h
  obtain ⟨hfront, hback⟩ := List.append_inj h (by rw [hkeys, hkeys, hcount])
  obtain ⟨hsame, hrest⟩ := systems_parts_inj ha.systems hb.systems
    (opensPeriod sha256 p) (opensPeriod sha256 q) hback
  exact ⟨keys_parts_inj hcount hinj hfront, hsame, hrest⟩

/-! ## Encryptions that are alike -/

/-- The same keys for each kind of track, and the same systems in order. -/
structure PeriodKeys.Alike (a b : PeriodKeys) : Prop where
  keyFor_eq : ∀ kind, a.keyFor kind = b.keyFor kind
  systems_eq : a.systems = b.systems

structure KeyPeriod.Alike (a b : KeyPeriod) : Prop where
  startMs_eq : a.startMs = b.startMs
  keys : Option.Rel PeriodKeys.Alike a.keys b.keys

structure Encryption.Alike (a b : Encryption) : Prop where
  primary : a.toPeriodKeys.Alike b.toPeriodKeys
  periods : List.Forall₂ KeyPeriod.Alike a.periods b.periods

/-- Split keys that are the same count as one. -/
theorem keyFor_eq_of_distinctKeys {a b : PeriodKeys}
    (h : a.distinctKeys = b.distinctKeys) (kind : TrackKind) :
    a.keyFor kind = b.keyFor kind := by
  have hkeys : ∀ content : PeriodKeys,
      content.distinctKeys = [content.keyFor .video] ∧
          content.keyFor .audio = content.keyFor .video ∨
        content.distinctKeys =
          [content.keyFor .video, content.keyFor .audio] := by
    rintro ⟨keys, systems, honce⟩
    cases keys with
    | all key => exact .inl ⟨rfl, rfl⟩
    | split video audio =>
        by_cases hsame : video = audio
        · exact .inl ⟨if_pos hsame, hsame.symm⟩
        · exact .inr (if_neg hsame)
  rcases hkeys a with ⟨ha, haudio⟩ | ha <;>
    rcases hkeys b with ⟨hb, hother⟩ | hb
  · rw [ha, hb, List.singleton_inj] at h
    cases kind with
    | audio => rw [haudio, hother, h]
    | video => exact h
  · rw [ha, hb] at h
    simp at h
  · rw [ha, hb] at h
    simp at h
  · rw [ha, hb] at h
    simp only [List.cons.injEq, and_true] at h
    cases kind with
    | audio => exact h.2
    | video => exact h.1

/-- No two of the texts have the same hash. -/
def HashedApart (sha256 : List UInt8 → List UInt8)
    (fed : List (List UInt8)) : Prop :=
  ∀ x ∈ fed, ∀ y ∈ fed, sha256 x = sha256 y → x = y

theorem HashedApart.mono {fed others : List (List UInt8)}
    (h : HashedApart sha256 fed) (hsubset : others ⊆ fed) :
    HashedApart sha256 others :=
  fun x hx y hy => h x (hsubset hx) y (hsubset hy)

theorem PeriodKeys.alike_of_fingerprint (hdigests : Digests sha256)
    {a b : PeriodKeys} (ha : a.Sized) (hb : b.Sized)
    (hapart : HashedApart sha256 (a.fed sha256 ++ b.fed sha256))
    (h : a.fingerprint sha256 = b.fingerprint sha256) : a.Alike b := by
  have hfed := hapart _ (by simp [PeriodKeys.fed]) _
    (by simp [PeriodKeys.fed]) h
  have hparts := lengthFramed_inj (ha.framable hdigests) (hb.framable hdigests) hfed
  have hinj : ∀ key ∈ a.distinctKeys, ∀ other ∈ b.distinctKeys,
      sha256 key.key = sha256 other.key → key.key = other.key := by
    intro key hkey other hother
    apply hapart
    · exact List.mem_append_left _
        (List.mem_cons_of_mem _ (List.mem_map_of_mem hkey))
    · exact List.mem_append_right _
        (List.mem_cons_of_mem _ (List.mem_map_of_mem hother))
  obtain ⟨hkeys, hsystems, -⟩ := @content_parts_inj sha256 a b [] [] ha hb hinj
    (by rw [hparts])
  exact ⟨keyFor_eq_of_distinctKeys hkeys, hsystems⟩

/-- A clear period is not taken for an encrypted one: its part is shorter. -/
theorem KeyPeriod.alike_of_parts (hdigests : Digests sha256)
    {p q : KeyPeriod} (hp : p.startMs < 2 ^ 64) (hq : q.startMs < 2 ^ 64)
    (hsized : ∀ content ∈ p.keys, PeriodKeys.Sized content)
    (hother : ∀ content ∈ q.keys, PeriodKeys.Sized content)
    (hapart : ∀ a ∈ p.keys, ∀ b ∈ q.keys,
      HashedApart sha256 (PeriodKeys.fed sha256 a ++ PeriodKeys.fed sha256 b))
    (h : p.parts sha256 = q.parts sha256) : p.Alike q := by
  simp only [KeyPeriod.parts, List.cons.injEq, and_true] at h
  obtain ⟨hstart, hkeys⟩ := h
  refine ⟨encode_inj (by norm_num; omega) (by norm_num; omega) hstart, ?_⟩
  have hclear : ∀ content : PeriodKeys,
      content.fingerprint sha256 ≠ Wire.utf8 "clear" := by
    intro content hsame
    have hlength := congrArg List.length hsame
    unfold PeriodKeys.fingerprint at hlength
    rw [hdigests] at hlength
    exact absurd hlength (by decide)
  cases hpKeys : p.keys with
  | none =>
      cases hqKeys : q.keys with
      | none => exact .none
      | some b =>
          rw [hpKeys, hqKeys] at hkeys
          exact absurd hkeys.symm (hclear b)
  | some a =>
      cases hqKeys : q.keys with
      | none =>
          rw [hpKeys, hqKeys] at hkeys
          exact absurd hkeys (hclear a)
      | some b =>
          rw [hpKeys, hqKeys] at hkeys
          exact .some (PeriodKeys.alike_of_fingerprint hdigests
            (hsized a hpKeys) (hother b hqKeys) (hapart a hpKeys b hqKeys)
            hkeys)

theorem periods_alike_of_parts (hdigests : Digests sha256)
    {p q : List KeyPeriod}
    (hpStarts : ∀ period ∈ p, period.startMs < 2 ^ 64)
    (hqStarts : ∀ period ∈ q, period.startMs < 2 ^ 64)
    (hpSized : ∀ period ∈ p, ∀ content ∈ period.keys,
      PeriodKeys.Sized content)
    (hqSized : ∀ period ∈ q, ∀ content ∈ period.keys,
      PeriodKeys.Sized content)
    (hapart : ∀ period ∈ p, ∀ other ∈ q, ∀ a ∈ period.keys, ∀ b ∈ other.keys,
      HashedApart sha256 (PeriodKeys.fed sha256 a ++ PeriodKeys.fed sha256 b))
    (h : p.flatMap (KeyPeriod.parts sha256) =
      q.flatMap (KeyPeriod.parts sha256)) :
    List.Forall₂ KeyPeriod.Alike p q := by
  induction p generalizing q with
  | nil =>
      cases q with
      | nil => exact .nil
      | cons other q => cases h
  | cons period p ih =>
      cases q with
      | nil => cases h
      | cons other q =>
          rw [List.flatMap_cons, List.flatMap_cons] at h
          obtain ⟨hhead, htail⟩ := List.append_inj h rfl
          obtain ⟨hpStart, hpStarts⟩ := List.forall_mem_cons.mp hpStarts
          obtain ⟨hqStart, hqStarts⟩ := List.forall_mem_cons.mp hqStarts
          obtain ⟨hpHead, hpSized⟩ := List.forall_mem_cons.mp hpSized
          obtain ⟨hqHead, hqSized⟩ := List.forall_mem_cons.mp hqSized
          refine .cons ?_ ?_
          · exact KeyPeriod.alike_of_parts hdigests hpStart hqStart hpHead
              hqHead (hapart period (by simp) other (by simp)) hhead
          · exact ih hpStarts hqStarts hpSized hqSized
              (fun a ha b hb => hapart a (by simp [ha]) b (by simp [hb])) htail

theorem PeriodKeys.fed_subset {encryption : Encryption} {period : KeyPeriod}
    (hperiod : period ∈ encryption.periods) {content : PeriodKeys}
    (hcontent : content ∈ period.keys) :
    content.fed sha256 ⊆ encryption.fed sha256 := by
  intro part hpart
  apply List.mem_cons_of_mem
  apply List.mem_append_right
  exact List.mem_flatMap.mpr
    ⟨content, List.mem_filterMap.mpr ⟨period, hperiod, hcontent⟩, hpart⟩

/-- The fingerprint tells encryptions apart, where the hash does. -/
theorem Encryption.alike_of_fingerprint (hdigests : Digests sha256)
    {a b : Encryption} (ha : a.Sized) (hb : b.Sized)
    (hapart : HashedApart sha256 (a.fed sha256 ++ b.fed sha256))
    (h : a.fingerprint sha256 = b.fingerprint sha256) : a.Alike b := by
  have hfed := hapart _ (by simp [Encryption.fed]) _
    (by simp [Encryption.fed]) h
  have hparts := lengthFramed_inj (ha.framable hdigests) (hb.framable hdigests) hfed
  have hinj : ∀ key ∈ a.distinctKeys, ∀ other ∈ b.distinctKeys,
      sha256 key.key = sha256 other.key → key.key = other.key := by
    intro key hkey other hother
    apply hapart
    · exact List.mem_append_left _ (List.mem_cons_of_mem _
        (List.mem_append_left _ (List.mem_map_of_mem hkey)))
    · exact List.mem_append_right _ (List.mem_cons_of_mem _
        (List.mem_append_left _ (List.mem_map_of_mem hother)))
  obtain ⟨hkeys, hsystems, hperiods⟩ :=
    content_parts_inj ha.primary hb.primary hinj hparts
  refine ⟨⟨keyFor_eq_of_distinctKeys hkeys, hsystems⟩, ?_⟩
  apply periods_alike_of_parts hdigests ha.starts hb.starts ha.periods
    hb.periods _ hperiods
  intro period hperiod other hother content hcontent next hnext
  apply hapart.mono
  apply List.append_subset.mpr
  exact ⟨List.subset_append_of_subset_left _
      (PeriodKeys.fed_subset hperiod hcontent),
    List.subset_append_of_subset_right _ (PeriodKeys.fed_subset hother hnext)⟩

end Segmentor

namespace Segmentor.Wire

open General

/-! ## Accepted texts have these sizes -/

/-- What is relied on: digests of 32 bytes, and URLs that are written with
their scheme in front and fit in memory. -/
structure Crates.Documented (crates : Crates) : Prop where
  digests : Digests crates.sha256
  scheme : ∀ text, ∀ url ∈ crates.parseUrl text,
    url.scheme.toList ++ [':'] <+: url.serialized.toList
  fits : ∀ text, ∀ url ∈ crates.parseUrl text,
    (utf8 url.serialized).length < 2 ^ 64

theorem length_utf8 (text : String) :
    (utf8 text).length = utf8Length text.toList := by
  have hchars : ∀ chars : Text,
      (utf8 (String.ofList chars)).length = utf8Length chars := by
    intro chars
    induction chars with
    | nil => rfl
    | cons c chars ih =>
        have hencode : utf8 (String.ofList (c :: chars)) =
            String.utf8EncodeChar c ++ utf8 (String.ofList chars) := by
          simp [utf8, String.ofList, List.utf8Encode]
        rw [hencode, List.length_append, ih]
        simp [utf8Length]
  rw [← hchars text.toList, String.ofList_toList]

theorem utf8Size_of_hexValue {c : Char} {n : ℕ} (h : hexValue c = some n) :
    c.utf8Size = 1 := by
  rw [Char.utf8Size_eq_one_iff, UInt32.le_iff_toNat_le]
  unfold hexValue at h
  change c.toNat ≤ 127
  split at h
  · next hdigit =>
      simp only [Char.isDigit, Bool.and_eq_true, decide_eq_true_eq,
        UInt32.le_iff_toNat_le] at hdigit
      change _ ∧ c.toNat ≤ 57 at hdigit
      omega
  split at h
  · omega
  split at h
  · omega
  · cases h

theorem hexBytes_length {text : Text} {bytes : List UInt8}
    (h : hexBytes text = some bytes) :
    utf8Length text = 2 * bytes.length := by
  induction text using hexBytes.induct generalizing bytes with
  | case1 =>
      obtain rfl := Option.some.inj h
      rfl
  | case2 => cases h
  | case3 high low rest ih =>
      obtain ⟨a, ha, h⟩ := Option.bind_eq_some_iff.mp h
      obtain ⟨b, hb, h⟩ := Option.bind_eq_some_iff.mp h
      obtain ⟨others, hothers, h⟩ := Option.bind_eq_some_iff.mp h
      obtain rfl := Option.some.inj h
      have hrest := ih hothers
      have hhigh := utf8Size_of_hexValue ha
      have hlow := utf8Size_of_hexValue hb
      simp only [utf8Length, List.map_cons, List.sum_cons,
        List.length_cons] at hrest ⊢
      omega

theorem hex16_length {text field : String} {bytes : List UInt8}
    (h : hex16 text field = .ok bytes) : bytes.length = 16 := by
  unfold hex16 at h
  dsimp only at h
  split at h
  · cases h
  next hlength =>
  have hbytes := hexBytes_length (okOr_eq_ok_iff.mp h)
  omega

theorem uuid_length {text : String} {bytes : List UInt8}
    (h : uuid text = .ok bytes) : bytes.length = 16 := by
  unfold uuid at h
  split at h
  · cases h
  · exact hex16_length h

theorem contentKey_sized {crates : Crates} (hcrates : crates.Documented)
    {wire : Key} {key : ContentKey} (h : contentKey crates wire = .ok key) :
    key.Sized := by
  obtain ⟨keyId, hkeyId, h⟩ := bind_eq_ok_iff.mp h
  obtain ⟨bytes, hbytes, h⟩ := bind_eq_ok_iff.mp h
  obtain ⟨iv, hiv, h⟩ := bind_eq_ok_iff.mp h
  obtain rfl := Except.ok.inj h
  refine ⟨hex16_length hkeyId, hex16_length hbytes, ?_⟩
  unfold ivOf at hiv
  split at hiv
  · exact hex16_length hiv
  · obtain rfl := Except.ok.inj hiv
    change (derivedIv crates keyId).length = 16
    rw [derivedIv, List.length_take, hcrates.digests]
    rfl

theorem keysOf_sized {crates : Crates} (hcrates : crates.Documented)
    {wires : List Key} {content : PeriodKeys}
    (h : keysOf crates wires = .ok content.keys) :
    ∀ key ∈ content.distinctKeys, key.Sized := by
  obtain ⟨slots, hslots, h⟩ := bind_eq_ok_iff.mp h
  have hsized : ∀ key ∈ slots.list, key.Sized := by
    apply foldlM_invariant
      (I := fun _ slots => ∀ key ∈ Slots.list slots, key.Sized) _ _ hslots
    · intro wire rest before after hbefore hadd key hkey
      obtain ⟨added, hadded, hmem⟩ := Slots.mem_list_add hadd
      rcases (hmem key).mp hkey with rfl | hkey
      · exact contentKey_sized hcrates hadded
      · exact hbefore key hkey
    · simp [Slots.list]
  intro key hkey
  exact hsized key ((Slots.mem_list_of_keys h key).mp hkey)

theorem licenseUrl_sized {crates : Crates} (hcrates : crates.Documented)
    {text url : String} (h : Mapper.licenseUrl crates.parseUrl text = .ok url) :
    url ≠ "" ∧ (utf8 url).length < 2 ^ 64 := by
  obtain ⟨parsed, hparsed, h⟩ := bind_eq_ok_iff.mp h
  split at h
  · cases h
  obtain rfl := Except.ok.inj h
  have hparsed := okOr_eq_ok_iff.mp hparsed
  refine ⟨fun hempty => ?_, hcrates.fits text parsed hparsed⟩
  have hscheme := (hcrates.scheme text parsed hparsed).length_le
  rw [hempty] at hscheme
  simp at hscheme

theorem hlsUri_sized {text uri : String}
    (h : Mapper.hlsUri text = .ok uri) :
    uri ≠ "" ∧ (utf8 uri).length < 2 ^ 64 := by
  unfold Mapper.hlsUri at h
  split at h
  · cases h
  next hshape =>
  obtain rfl := Except.ok.inj h
  simp only [not_or, not_lt] at hshape
  obtain ⟨hne, hlength, -⟩ := hshape
  refine ⟨fun hempty => hne (by rw [hempty]; rfl), ?_⟩
  rw [length_utf8]
  exact hlength.trans_lt (by decide)

theorem decodePssh_length {systemId bytes : List UInt8}
    {box : {bytes : List UInt8 //
      (parsePssh bytes).map Prod.fst = some systemId}}
    (h : Mapper.decodePssh systemId bytes = .ok box) :
    box.val.length < 2 ^ 64 := by
  unfold Mapper.decodePssh at h
  split at h
  · cases h
  next hlength =>
  split at h
  · obtain rfl := Except.ok.inj h
    exact (not_lt.mp hlength).trans_lt (by decide)
  · split at h <;> cases h

theorem systemOf_sized {crates : Crates} (hcrates : crates.Documented)
    {known : List (List UInt8)} {wire : System} {system : DrmSystem}
    (h : systemOf crates known wire = .ok system) : system.Sized := by
  obtain ⟨systemId, hid, h⟩ := bind_eq_ok_iff.mp h
  split at h
  · cases h
  obtain ⟨decoded, -, h⟩ := bind_eq_ok_iff.mp h
  unfold Mapper.systemOf at h
  dsimp only at h
  split at h
  · cases h
  obtain ⟨pssh, hpssh, h⟩ := bind_eq_ok_iff.mp h
  obtain ⟨license, hlicense, h⟩ := bind_eq_ok_iff.mp h
  obtain ⟨uri, huri, h⟩ := bind_eq_ok_iff.mp h
  split at h
  · cases h
  obtain rfl := Except.ok.inj h
  refine ⟨uuid_length hid, ?_, ?_, ?_⟩
  · intro bytes hbytes
    obtain ⟨box, hbox, rfl⟩ := Option.map_eq_some_iff.mp hbytes
    obtain ⟨text, -, htext⟩ := exists_of_mem_optionMapM hpssh box hbox
    exact decodePssh_length htext
  · intro url hurl
    obtain ⟨text, -, htext⟩ := exists_of_mem_optionMapM hlicense url hurl
    exact licenseUrl_sized hcrates htext
  · intro url hurl
    obtain ⟨text, -, htext⟩ := exists_of_mem_optionMapM huri url hurl
    exact hlsUri_sized htext

theorem systemsOf_sized {crates : Crates} (hcrates : crates.Documented)
    {known : List (List UInt8)} {wires : List System}
    {systems : List DrmSystem}
    (h : systemsOf crates known wires = .ok systems) :
    ∀ system ∈ systems, system.Sized := by
  induction wires generalizing known systems with
  | nil =>
      obtain rfl := Except.ok.inj h
      simp
  | cons wire wires ih =>
      obtain ⟨system, hsystem, h⟩ := bind_eq_ok_iff.mp h
      obtain ⟨others, hothers, h⟩ := bind_eq_ok_iff.mp h
      obtain rfl := Except.ok.inj h
      exact List.forall_mem_cons.mpr
        ⟨systemOf_sized hcrates hsystem, ih hothers⟩

theorem singlePeriod_sized {crates : Crates} (hcrates : crates.Documented)
    {wireKeys : List Key} {wireSystems : List System} {content : PeriodKeys}
    (h : singlePeriod crates wireKeys wireSystems = .ok content) :
    content.Sized := by
  obtain ⟨hkeys, hsystems⟩ := singlePeriod_eq_ok h
  exact ⟨keysOf_sized hcrates hkeys, systemsOf_sized hcrates hsystems⟩

theorem periodOf_sized {crates : Crates} (hcrates : crates.Documented)
    {wire : Period} {period : KeyPeriod}
    (h : periodOf crates wire = .ok period) :
    period.startMs < 2 ^ 64 ∧
      ∀ content ∈ period.keys, PeriodKeys.Sized content := by
  unfold periodOf at h
  split at h
  · split at h
    · cases h
    obtain rfl := Except.ok.inj h
    exact ⟨wire.startMs.toNat_lt, by simp⟩
  · obtain ⟨content, hcontent, h⟩ := bind_eq_ok_iff.mp h
    obtain rfl := Except.ok.inj h
    refine ⟨wire.startMs.toNat_lt, fun other hother => ?_⟩
    obtain rfl := Option.some.inj hother
    exact singlePeriod_sized hcrates hcontent

/-- The periods an object asks for have their sizes. -/
theorem Asks.sized {crates : Crates} (hcrates : crates.Documented)
    {wire : Encryption} {periods : List KeyPeriod}
    (h : Asks crates wire periods) :
    ∀ period ∈ periods, period.startMs < 2 ^ 64 ∧
      ∀ content ∈ period.keys, PeriodKeys.Sized content := by
  cases h with
  | whole _ _ hprimary =>
      simpa using singlePeriod_sized hcrates hprimary
  | @lead primary lead _ _ _ hprimary =>
      have hlead := lead.toNat_lt
      simpa [hlead] using singlePeriod_sized hcrates hprimary
  | listed _ _ hperiods =>
      intro period hperiod
      obtain ⟨written, -, hwritten⟩ := exists_of_mem_mapM hperiods hperiod
      exact periodOf_sized hcrates hwritten

theorem Encryption.sized_of_validate {crates : Crates}
    (hcrates : crates.Documented) {wire : Encryption}
    {encryption : Segmentor.Encryption}
    (h : wire.validate crates = .ok encryption) : encryption.Sized := by
  obtain ⟨periods, hasks, htimeline⟩ := exists_asks_of_validate h
  have hsized := hasks.sized hcrates
  have hsubset : ∀ period ∈ encryption.periods, period ∈ periods := by
    rw [htimeline.periods_eq]
    split
    · simp
    · exact fun _ hmem => hmem
  obtain ⟨first, hfirst, hprimary⟩ :=
    List.exists_of_findSome?_eq_some htimeline.primary
  exact
    { primary := (hsized first hfirst).2 _ hprimary
      starts := fun period hperiod => (hsized period (hsubset period hperiod)).1
      periods := fun period hperiod =>
        (hsized period (hsubset period hperiod)).2 }

/-- The fingerprint tells accepted encryptions apart. -/
theorem accepted_alike_of_fingerprint {crates : Crates}
    (hcrates : crates.Documented) {wire other : Encryption}
    {a b : Segmentor.Encryption} (ha : wire.validate crates = .ok a)
    (hb : other.validate crates = .ok b)
    (hapart : HashedApart crates.sha256
      (a.fed crates.sha256 ++ b.fed crates.sha256))
    (h : a.fingerprint crates.sha256 = b.fingerprint crates.sha256) :
    a.Alike b :=
  Encryption.alike_of_fingerprint hcrates.digests
    (Encryption.sized_of_validate hcrates ha) (Encryption.sized_of_validate hcrates hb) hapart h

/-! ## One key for all tracks, and one for each -/

/-- A clear second, then keys for one Widevine system. -/
def writtenKeys (keys : List Key) : Encryption where
  scheme := "cbcs"
  keys := keys
  systems :=
    [{ systemId := "edef8ba9-79d6-4ace-a3c8-27dcd51d21ed"
       pssh := none
       licenseUrl := some "https://keys.example/"
       hlsUri := none }]
  clearLeadMs := some 1000
  periods := []

def keyOn (tracks : String) : Key where
  tracks := some tracks
  keyId := "0123456789abcdef0123456789abcdef"
  key := "00112233445566778899aabbccddeeff"
  iv := some "00000000000000000000000000000000"

def readKey : ContentKey where
  keyId := [0x01, 0x23, 0x45, 0x67, 0x89, 0xab, 0xcd, 0xef, 0x01, 0x23, 0x45,
    0x67, 0x89, 0xab, 0xcd, 0xef]
  key := [0x00, 0x11, 0x22, 0x33, 0x44, 0x55, 0x66, 0x77, 0x88, 0x99, 0xaa,
    0xbb, 0xcc, 0xdd, 0xee, 0xff]
  iv := List.replicate 16 0

def readSystem : DrmSystem where
  systemId := DrmSystem.widevine
  pssh := none
  licenseUrl := some "https://keys.example/"
  hlsUri := none
  pssh_named := DrmSystem.no_pssh DrmSystem.widevine

def readContent (keys : Keys) : PeriodKeys where
  keys := keys
  systems := [readSystem]
  systems_once := DrmSystem.once readSystem

def readTimeline (keys : Keys) : Segmentor.Encryption where
  toPeriodKeys := readContent keys
  periods := [⟨0, none⟩, ⟨1000, some (readContent keys)⟩]
  first_start := by simp
  increasing := by simp
  primary := fun _ => rfl

def digestOf (text : String) : List UInt8 :=
  (hexBytes text.toList).getD []

/-- The digests of the key, of the period and of the whole. -/
def digest (bytes : List UInt8) : List UInt8 :=
  if bytes = readKey.key then
    digestOf ("a8faed6abbf35c12a4b26e40f6feb19d" ++
      "736d90045c83b9f9a31f638d323e6811")
  else if bytes.length = 157 then
    digestOf ("91d05fa566fdb401cae555fa9b272b5f" ++
      "d606c97e67baf730476b8351bb55dce8")
  else if bytes.length = 242 then
    digestOf ("df2e72a0a48e71f3e855e9b14899aa5d" ++
      "1e7f2523dc13ac4952581f6e2fe81d0a")
  else List.replicate 32 0

def keyServerCrates : Crates where
  parseUrl text := if text = "https://keys.example/" then
    some ⟨"https", "https://keys.example/"⟩ else none
  decodeBase64 _ := none
  sha256 := digest

theorem keyServerCrates_documented : keyServerCrates.Documented where
  digests := by
    intro bytes
    change (digest bytes).length = 32
    unfold digest
    split_ifs <;> decide +kernel
  scheme := by
    intro text url hurl
    simp only [keyServerCrates, Option.mem_ite_none_right, Option.mem_some_iff]
      at hurl
    obtain ⟨-, rfl⟩ := hurl
    decide +kernel
  fits := by
    intro text url hurl
    simp only [keyServerCrates, Option.mem_ite_none_right, Option.mem_some_iff]
      at hurl
    obtain ⟨-, rfl⟩ := hurl
    decide +kernel

/-- The same key for all tracks and for each kind. -/
theorem accepted_alike_of_fingerprint_split :
    ∃ a b : Segmentor.Encryption, a ≠ b ∧
      (writtenKeys [keyOn "all"]).validate keyServerCrates = .ok a ∧
      (writtenKeys [keyOn "video", keyOn "audio"]).validate keyServerCrates =
        .ok b ∧
      a.Alike b := by
  have hall : (writtenKeys [keyOn "all"]).validate keyServerCrates =
      .ok (readTimeline (.all readKey)) := by decide +kernel
  have hsplit : (writtenKeys [keyOn "video", keyOn "audio"]).validate
      keyServerCrates = .ok (readTimeline (.split readKey readKey)) := by
    decide +kernel
  have hapart : HashedApart digest
      ((readTimeline (.all readKey)).fed digest ++
        (readTimeline (.split readKey readKey)).fed digest) := by
    unfold HashedApart
    decide +kernel
  exact ⟨_, _, by decide, hall, hsplit,
    accepted_alike_of_fingerprint keyServerCrates_documented hall hsplit hapart
      (by decide +kernel)⟩

end Segmentor.Wire
