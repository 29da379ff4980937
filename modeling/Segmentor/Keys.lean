import Segmentor.MediaIndex
import Segmentor.Boxes

/-!
# Content keys

The keys and DRM systems of an asset as the mapper gives them, once checked:
a system's box is whole, a period names a system once, and periods start at
zero and follow one another.
-/

namespace Segmentor

structure ContentKey where
  keyId : List UInt8
  key : List UInt8
  /-- The constant vector, restarted at every protected range. -/
  iv : List UInt8
  deriving DecidableEq, Repr

inductive Keys
  | all (key : ContentKey)
  | split (video audio : ContentKey)
  deriving DecidableEq, Repr

def Keys.isSplit : Keys → Bool
  | .all _ => false
  | .split _ _ => true

/-! ## Systems -/

/-- The system ID and data of a `pssh` box of `length` bytes. -/
def psshBox (length : ℕ) : Reader (List UInt8 × List UInt8) := do
  let size ← Reader.u32
  let name ← Reader.take 4
  if size ≠ length ∨ name ≠ code 'p' 's' 's' 'h' then
    Reader.fail (invalidMedia "pssh")
  let version ← Reader.fullBox
  let systemId ← Reader.take 16
  if version = 1 then
    let kids ← Reader.u32
    Reader.skip (kids * 16)
  else if version ≠ 0 then
    Reader.fail (invalidMedia "pssh")
  let dataSize ← Reader.u32
  let data ← Reader.take dataSize
  let rest ← Reader.remaining
  if rest ≠ 0 then
    Reader.fail (invalidMedia "pssh")
  return (systemId, data)

/-- A `pssh` box's system ID and data, or `none` when it is not exactly one
well-formed box. -/
def parsePssh (bytes : List UInt8) : Option (List UInt8 × List UInt8) :=
  ((psshBox bytes.length).run' bytes).toOption

/-- PlayReady's URI needs the object its box carries. -/
def psshData (pssh : List UInt8) : Option (List UInt8) :=
  (parsePssh pssh).map Prod.snd

structure DrmSystem where
  systemId : List UInt8
  pssh : Option (List UInt8)
  licenseUrl : Option String
  hlsUri : Option String
  /-- The box is whole and names the system. -/
  pssh_named : ∀ bytes ∈ pssh,
    (parsePssh bytes).map Prod.fst = some systemId := by simp
  deriving DecidableEq, Repr

namespace DrmSystem

def widevine : List UInt8 :=
  [0xed, 0xef, 0x8b, 0xa9, 0x79, 0xd6, 0x4a, 0xce, 0xa3, 0xc8, 0x27, 0xdc,
    0xd5, 0x1d, 0x21, 0xed]

def fairPlay : List UInt8 :=
  [0x94, 0xce, 0x86, 0xfb, 0x07, 0xff, 0x4f, 0x43, 0xad, 0xb8, 0x93, 0xd2,
    0xfa, 0x96, 0x8c, 0xa2]

def playReady : List UInt8 :=
  [0x9a, 0x04, 0xf0, 0x79, 0x98, 0x40, 0x42, 0x86, 0xab, 0x92, 0xe6, 0x5b,
    0xe0, 0x88, 0x5f, 0x95]

def clearKey : List UInt8 :=
  [0xe2, 0x71, 0x9d, 0x58, 0xa9, 0x85, 0xb3, 0xc9, 0x78, 0x1a, 0xb0, 0x30,
    0xaf, 0x78, 0xd3, 0x0e]

end DrmSystem

/-! ## One period -/

/-- The keys of a stretch of the timeline, and the systems that license
them. -/
theorem DrmSystem.no_pssh (systemId : List UInt8) :
    ∀ bytes ∈ (none : Option (List UInt8)),
      (parsePssh bytes).map Prod.fst = some systemId := by
  simp

theorem DrmSystem.once (system : DrmSystem) :
    ([system].map DrmSystem.systemId).Nodup :=
  List.nodup_singleton system.systemId

theorem DrmSystem.none_twice :
    (([] : List DrmSystem).map DrmSystem.systemId).Nodup :=
  List.nodup_nil

structure PeriodKeys where
  keys : Keys
  systems : List DrmSystem
  systems_once : (systems.map DrmSystem.systemId).Nodup
  deriving DecidableEq, Repr

def PeriodKeys.keyFor (period : PeriodKeys) (kind : TrackKind) : ContentKey :=
  match period.keys, kind with
  | .all key, _ => key
  | .split video _, .video => video
  | .split _ audio, .audio => audio

/-- Each key once. -/
def PeriodKeys.distinctKeys (period : PeriodKeys) : List ContentKey :=
  match period.keys with
  | .all key => [key]
  | .split video audio => if video = audio then [video] else [video, audio]

def PeriodKeys.keyIds (period : PeriodKeys) : List (List UInt8) :=
  (period.distinctKeys.map ContentKey.keyId).dedup

/-- Checks the systems of one period, after those in `known`. -/
def systemsOf (known : List (List UInt8)) :
    List DrmSystem → Except String Unit
  | [] => .ok ()
  | system :: rest =>
      if system.systemId ∈ known then
        .error "encryption lists a system_id twice"
      else if system.systemId = DrmSystem.fairPlay ∧ system.hlsUri = none then
        .error "FairPlay needs an hls_uri"
      else systemsOf (system.systemId :: known) rest

theorem nodup_of_systemsOf {known : List (List UInt8)}
    {systems : List DrmSystem} (h : systemsOf known systems = .ok ()) :
    (systems.map DrmSystem.systemId).Nodup ∧
      ∀ id ∈ systems.map DrmSystem.systemId, id ∉ known := by
  induction systems generalizing known with
  | nil => simp
  | cons system rest ih =>
      unfold systemsOf at h
      split at h
      · simp at h
      · rename_i hfresh
        split at h
        · simp at h
        · obtain ⟨hnodup, hrest⟩ := ih h
          simp only [List.mem_cons, not_or] at hrest
          rw [List.map_cons, List.nodup_cons, List.forall_mem_cons]
          exact ⟨⟨fun hmem => (hrest _ hmem).1 rfl, hnodup⟩, hfresh,
            fun id hid => (hrest id hid).2⟩

def maxSystems : ℕ := 8

/-- One period's keys and systems. -/
def singlePeriod (keys : Keys) (systems : List DrmSystem) :
    Except String PeriodKeys :=
  if maxSystems < systems.length then
    .error "encryption lists more than 8 systems"
  else
    match h : systemsOf [] systems with
    | .error message => .error message
    | .ok () =>
        -- FairPlay's key line has no key ID, so a player could not tell the
        -- audio key apart.
        if keys.isSplit = true ∧
            DrmSystem.fairPlay ∈ systems.map DrmSystem.systemId then
          .error
            "FairPlay needs one key for all tracks (encryption keys tracks \"all\")"
        else
          .ok
            { keys := keys
              systems := systems
              systems_once := (nodup_of_systemsOf h).1 }

/-! ## The timeline -/

/-- A stretch of the timeline; a clear one has no keys. -/
structure KeyPeriod where
  startMs : ℕ
  keys : Option PeriodKeys
  deriving DecidableEq, Repr

/-- Content encryption: the keys of the first encrypted period, and the whole
timeline, or no periods when one set of keys covers the asset. -/
structure Encryption extends PeriodKeys where
  periods : List KeyPeriod
  first_start : ∀ period ∈ periods.head?, period.startMs = 0
  increasing : (periods.map KeyPeriod.startMs).Pairwise (· < ·)
  primary : periods ≠ [] →
    periods.findSome? KeyPeriod.keys = some toPeriodKeys
  deriving DecidableEq, Repr

/-- One set of keys over the whole asset. -/
def Encryption.whole (keys : PeriodKeys) : Encryption where
  toPeriodKeys := keys
  periods := []
  first_start := by simp
  increasing := List.Pairwise.nil
  primary := fun h => absurd rfl h

/-- Whether the keys change over the timeline. -/
def Encryption.isRotating (encryption : Encryption) : Bool :=
  !encryption.periods.isEmpty

theorem Encryption.isRotating_iff {encryption : Encryption} :
    encryption.isRotating = true ↔ encryption.periods ≠ [] := by
  unfold isRotating
  rw [Bool.not_eq_true', List.isEmpty_eq_false_iff]

/-- Two neighbouring encrypted periods with the same key IDs. -/
def sameNeighbours : List KeyPeriod → Bool
  | before :: after :: rest =>
      (match before.keys, after.keys with
        | some before, some after => before.keyIds == after.keyIds
        | _, _ => false) || sameNeighbours (after :: rest)
  | _ => false

/-- Checks a list of periods.  A list that is one encrypted period from zero
is not rotation at all. -/
def timeline (periods : List KeyPeriod) : Except String Encryption :=
  if hstart : ∀ period ∈ periods.head?, period.startMs = 0 then
    if periods = [] then .error "the first encryption period must start at 0"
    else if hincreasing :
        (periods.map KeyPeriod.startMs).Pairwise (· < ·) then
      match hprimary : periods.findSome? KeyPeriod.keys with
      | none => .error "encryption needs at least one period with keys"
      | some primary =>
          if sameNeighbours periods then
            .error
              "adjacent encryption periods must use different key_id values"
          else if periods.length = 1 then .ok (.whole primary)
          else
            .ok
              { toPeriodKeys := primary
                periods := periods
                first_start := hstart
                increasing := hincreasing
                primary := fun _ => hprimary }
    else .error "encryption period start_ms must increase"
  else .error "the first encryption period must start at 0"

end Segmentor
