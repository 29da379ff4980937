import Segmentor.MapperTexts

/-!
# Encryption as a mapper writes it

The `encryption` object of an answer with all its texts, and what it is
checked for: keys and IDs in hexadecimal, one key for all tracks or one for
each kind, systems by UUID with a box in base64.  Parsing URLs, decoding
base64 and hashing are parameters.
-/

namespace Segmentor.Wire

open General

/-- What is used of other crates. -/
structure Crates where
  parseUrl : String → Option ParsedUrl
  decodeBase64 : String → Option (List UInt8)
  sha256 : List UInt8 → List UInt8

def utf8 (text : String) : List UInt8 :=
  text.toByteArray.data.toList

/-! ## Hexadecimal -/

def hexValue (c : Char) : Option ℕ :=
  if c.isDigit then some (c.toNat - 48)
  else if 97 ≤ c.toNat ∧ c.toNat ≤ 102 then some (c.toNat - 87)
  else if 65 ≤ c.toNat ∧ c.toNat ≤ 70 then some (c.toNat - 55)
  else none

def hexBytes : Text → Option (List UInt8)
  | [] => some []
  | [_] => none
  | high :: low :: rest => do
      let high ← hexValue high
      let low ← hexValue low
      let bytes ← hexBytes rest
      some (UInt8.ofNat (high * 16 + low) :: bytes)

def hex16 (text field : String) : Except String (List UInt8) :=
  let refusal := "encryption " ++ field ++ " must be 32 hex digits"
  if utf8Length text.toList ≠ 32 then .error refusal
  else okOr (hexBytes text.toList) refusal

def uuid (text : String) : Except String (List UInt8) :=
  if (text.toList.splitOn '-').map utf8Length ≠ [8, 4, 4, 4, 12] then
    .error "encryption system_id must be a UUID"
  else
    hex16 (String.ofList (text.toList.filter fun c => c != '-')) "system_id"

/-! ## Keys -/

structure Key where
  tracks : Option String
  keyId : String
  key : String
  iv : Option String
  deriving DecidableEq, Repr

/-- The vector of a key that is given none. -/
def derivedIv (crates : Crates) (keyId : List UInt8) : List UInt8 :=
  (crates.sha256 (utf8 "segmentor cbcs iv" ++ keyId)).take 16

def ivOf (crates : Crates) (keyId : List UInt8) (iv : Option String) :
    Except String (List UInt8) :=
  match iv with
  | some iv => hex16 iv "iv"
  | none => .ok (derivedIv crates keyId)

def contentKey (crates : Crates) (wire : Key) : Except String ContentKey := do
  let keyId ← hex16 wire.keyId "key_id"
  let key ← hex16 wire.key "key"
  let iv ← ivOf crates keyId wire.iv
  .ok { keyId := keyId, key := key, iv := iv }

def shape : String :=
  "encryption keys must be one for all tracks, " ++
    "or one for video and one for audio"

/-- The keys found so far, by the tracks they are for. -/
structure Slots where
  all : Option ContentKey
  video : Option ContentKey
  audio : Option ContentKey

def Slots.add (crates : Crates) (slots : Slots) (wire : Key) :
    Except String Slots := do
  let key ← contentKey crates wire
  let tracks := wire.tracks.getD "all"
  if tracks = "all" then
    if slots.all.isSome then .error shape
    else .ok { slots with all := some key }
  else if tracks = "video" then
    if slots.video.isSome then .error shape
    else .ok { slots with video := some key }
  else if tracks = "audio" then
    if slots.audio.isSome then .error shape
    else .ok { slots with audio := some key }
  else .error "encryption key tracks must be all, video, or audio"

def Slots.keys : Slots → Except String Keys
  | ⟨some key, none, none⟩ => .ok (.all key)
  | ⟨none, some video, some audio⟩ => .ok (.split video audio)
  | _ => .error shape

def keysOf (crates : Crates) (wires : List Key) : Except String Keys := do
  let slots ← wires.foldlM (Slots.add crates) ⟨none, none, none⟩
  slots.keys

/-! ## Systems -/

structure System where
  systemId : String
  pssh : Option String
  licenseUrl : Option String
  hlsUri : Option String
  deriving DecidableEq, Repr

/-- One system of a period, after those in `known`. -/
def systemOf (crates : Crates) (known : List (List UInt8)) (wire : System) :
    Except String DrmSystem := do
  let systemId ← uuid wire.systemId
  if known.contains systemId then .error "encryption lists a system_id twice"
  else
    let pssh ← wire.pssh.mapM fun encoded =>
      okOr (crates.decodeBase64 encoded) "encryption pssh must be base64"
    Mapper.systemOf crates.parseUrl known
      { systemId := systemId
        pssh := pssh
        licenseUrl := wire.licenseUrl
        hlsUri := wire.hlsUri }

def systemsOf (crates : Crates) :
    List (List UInt8) → List System → Except String (List DrmSystem)
  | _, [] => .ok []
  | known, wire :: rest => do
      let system ← systemOf crates known wire
      let others ← systemsOf crates (system.systemId :: known) rest
      .ok (system :: others)

/-- One period's keys and systems. -/
def singlePeriod (crates : Crates) (keys : List Key) (systems : List System) :
    Except String PeriodKeys := do
  let keys ← keysOf crates keys
  if maxSystems < systems.length then
    .error "encryption lists more than 8 systems"
  else
    let systems ← systemsOf crates [] systems
    Segmentor.singlePeriod keys systems

/-! ## Periods -/

structure Period where
  startMs : UInt64
  clear : Bool
  keys : List Key
  systems : List System
  deriving DecidableEq, Repr

structure Encryption where
  scheme : String
  keys : List Key
  systems : List System
  clearLeadMs : Option UInt64
  periods : List Period
  deriving DecidableEq, Repr

def periodOf (crates : Crates) (wire : Period) : Except String KeyPeriod :=
  if wire.clear then
    if wire.keys ≠ [] ∨ wire.systems ≠ [] then
      .error "an encryption period is clear or has keys, not both"
    else .ok ⟨wire.startMs.toNat, none⟩
  else do
    let content ← singlePeriod crates wire.keys wire.systems
    .ok ⟨wire.startMs.toNat, some content⟩

/-- Checks every rule of the wire format. -/
def Encryption.validate (crates : Crates) (wire : Encryption) :
    Except String Segmentor.Encryption :=
  if wire.scheme ≠ "cbcs" then
    .error "encryption scheme is not supported; only cbcs is"
  else if wire.periods = [] then do
    let primary ← singlePeriod crates wire.keys wire.systems
    match wire.clearLeadMs with
    | none => .ok (.whole primary)
    | some lead =>
        if lead = 0 then .ok (.whole primary)
        else timeline [⟨0, none⟩, ⟨lead.toNat, some primary⟩]
  else if wire.keys ≠ [] ∨ wire.systems ≠ [] ∨ wire.clearLeadMs.isSome then
    .error ("encryption periods cannot be combined with keys, systems, " ++
      "or clear_lead_ms")
  else if Mapper.maxPeriods < wire.periods.length then
    .error "encryption lists more than 256 periods"
  else do
    let periods ← wire.periods.mapM (periodOf crates)
    timeline periods

/-! ## Accepted keys -/

variable {crates : Crates}

def Slots.list (slots : Slots) : List ContentKey :=
  slots.all.toList ++ slots.video.toList ++ slots.audio.toList

theorem Slots.add_eq_ok {slots next : Slots} {wire : Key}
    (h : slots.add crates wire = .ok next) :
    ∃ key, contentKey crates wire = .ok key ∧
      (slots.all = none ∧ next = { slots with all := some key } ∨
        slots.video = none ∧ next = { slots with video := some key } ∨
        slots.audio = none ∧ next = { slots with audio := some key }) := by
  unfold Slots.add at h
  obtain ⟨key, hkey, h⟩ := bind_eq_ok_iff.mp h
  refine ⟨key, hkey, ?_⟩
  dsimp only at h
  split at h
  · split at h
    · cases h
    next hempty =>
    exact .inl ⟨by simpa using hempty, (Except.ok.inj h).symm⟩
  split at h
  · split at h
    · cases h
    next hempty =>
    exact .inr (.inl ⟨by simpa using hempty, (Except.ok.inj h).symm⟩)
  split at h
  · split at h
    · cases h
    next hempty =>
    exact .inr (.inr ⟨by simpa using hempty, (Except.ok.inj h).symm⟩)
  · cases h

theorem Slots.mem_list_add {slots next : Slots} {wire : Key}
    (h : slots.add crates wire = .ok next) :
    ∃ key, contentKey crates wire = .ok key ∧
      ∀ found, found ∈ next.list ↔ found = key ∨ found ∈ slots.list := by
  obtain ⟨key, hkey, hnext⟩ := Slots.add_eq_ok h
  refine ⟨key, hkey, fun found => ?_⟩
  unfold Slots.list
  rcases hnext with ⟨hempty, rfl⟩ | ⟨hempty, rfl⟩ | ⟨hempty, rfl⟩
  · simp [hempty, eq_comm]
  · simp only [hempty, Option.toList, List.mem_append]
    simp only [List.mem_singleton, List.not_mem_nil]
    tauto
  · simp only [hempty, Option.toList, List.mem_append]
    simp only [List.mem_singleton, List.not_mem_nil]
    tauto

theorem Slots.mem_list_of_keys {slots : Slots} {content : PeriodKeys}
    (h : slots.keys = .ok content.keys) (key : ContentKey) :
    key ∈ content.distinctKeys ↔ key ∈ slots.list := by
  obtain ⟨keys, systems, honce⟩ := content
  unfold Slots.keys at h
  split at h
  · obtain rfl := Except.ok.inj h
    simp [PeriodKeys.distinctKeys, Slots.list]
  · next video audio =>
      obtain rfl := Except.ok.inj h
      by_cases hsame : video = audio
      · simp [PeriodKeys.distinctKeys, Slots.list, hsame]
      · simp [PeriodKeys.distinctKeys, Slots.list, hsame]
  · cases h

theorem singlePeriod_eq_ok {keys : List Key} {systems : List System}
    {content : PeriodKeys}
    (h : singlePeriod crates keys systems = .ok content) :
    keysOf crates keys = .ok content.keys ∧
      systemsOf crates [] systems = .ok content.systems := by
  unfold singlePeriod at h
  obtain ⟨found, hfound, h⟩ := bind_eq_ok_iff.mp h
  split at h
  · cases h
  obtain ⟨checked, hchecked, h⟩ := bind_eq_ok_iff.mp h
  unfold Segmentor.singlePeriod at h
  split at h
  · cases h
  split at h
  · cases h
  split at h
  · cases h
  obtain rfl := Except.ok.inj h
  exact ⟨hfound, hchecked⟩

/-! ## Accepted objects -/

/-- What a list of periods must be to be a timeline, and the encryption it
makes. -/
structure TimelineOf (periods : List KeyPeriod)
    (encryption : Segmentor.Encryption) : Prop where
  first_start : ∃ first, periods.head? = some first ∧ first.startMs = 0
  increasing : (periods.map KeyPeriod.startMs).Pairwise (· < ·)
  primary : periods.findSome? KeyPeriod.keys = some encryption.toPeriodKeys
  apart : sameNeighbours periods = false
  periods_eq : encryption.periods = if periods.length = 1 then [] else periods

theorem timeline_eq_ok {periods : List KeyPeriod}
    {encryption : Segmentor.Encryption}
    (h : timeline periods = .ok encryption) :
    TimelineOf periods encryption := by
  unfold timeline at h
  split at h
  swap
  · cases h
  next hstart =>
  split at h
  · cases h
  next hne =>
  split at h
  swap
  · cases h
  next hincreasing =>
  obtain ⟨first, rest, rfl⟩ := List.exists_cons_of_ne_nil hne
  split at h
  · cases h
  next primary hprimary =>
  split at h
  · cases h
  next happart =>
  have happart := Bool.eq_false_iff.mpr happart
  split at h
  · next hone =>
      obtain rfl := Except.ok.inj h
      exact ⟨⟨first, rfl, hstart first rfl⟩, hincreasing, hprimary, happart,
        (if_pos hone).symm⟩
  · next hmany =>
      obtain rfl := Except.ok.inj h
      exact ⟨⟨first, rfl, hstart first rfl⟩, hincreasing, hprimary, happart,
        (if_neg hmany).symm⟩

/-- The periods an accepted object asks for, in either spelling. -/
inductive Asks (crates : Crates) (wire : Encryption) : List KeyPeriod → Prop
  | whole {primary : PeriodKeys} (hperiods : wire.periods = [])
      (hlead : wire.clearLeadMs = none ∨ wire.clearLeadMs = some 0)
      (hprimary : singlePeriod crates wire.keys wire.systems = .ok primary) :
      Asks crates wire [⟨0, some primary⟩]
  | lead {primary : PeriodKeys} {lead : UInt64} (hperiods : wire.periods = [])
      (hlead : wire.clearLeadMs = some lead) (hpositive : lead ≠ 0)
      (hprimary : singlePeriod crates wire.keys wire.systems = .ok primary) :
      Asks crates wire [⟨0, none⟩, ⟨lead.toNat, some primary⟩]
  | listed {periods : List KeyPeriod} (hne : wire.periods ≠ [])
      (hlength : wire.periods.length ≤ Mapper.maxPeriods)
      (hperiods : wire.periods.mapM (periodOf crates) = .ok periods) :
      Asks crates wire periods

theorem timelineOf_whole (primary : PeriodKeys) :
    TimelineOf [⟨0, some primary⟩] (.whole primary) where
  first_start := ⟨_, rfl, rfl⟩
  increasing := List.pairwise_singleton _ _
  primary := rfl
  apart := rfl
  periods_eq := rfl

theorem exists_asks_of_validate {crates : Crates} {wire : Encryption}
    {encryption : Segmentor.Encryption}
    (h : wire.validate crates = .ok encryption) :
    ∃ periods, Asks crates wire periods ∧ TimelineOf periods encryption := by
  unfold Encryption.validate at h
  split at h
  · cases h
  split at h
  · next hperiods =>
      obtain ⟨primary, hprimary, h⟩ := bind_eq_ok_iff.mp h
      split at h
      · next hlead =>
          obtain rfl := Except.ok.inj h
          exact ⟨_, .whole hperiods (.inl hlead) hprimary,
            timelineOf_whole primary⟩
      · next lead hlead =>
          split at h
          · next hzero =>
              obtain rfl := Except.ok.inj h
              exact ⟨_, .whole hperiods (.inr (by rw [hlead, hzero])) hprimary,
                timelineOf_whole primary⟩
          · next hpositive =>
              exact ⟨_, .lead hperiods hlead hpositive hprimary,
                timeline_eq_ok h⟩
  · next hne =>
      split at h
      · cases h
      split at h
      · cases h
      next hlength =>
      obtain ⟨periods, hperiods, h⟩ := bind_eq_ok_iff.mp h
      exact ⟨periods, .listed hne (Nat.le_of_not_lt hlength) hperiods,
        timeline_eq_ok h⟩

end Segmentor.Wire
