import Segmentor.Keys
import Segmentor.General.InForce

/-!
# Key lines of playlists

What the `#EXT-X-KEY` lines of a playlist say, the lines each DRM system is
named by, and the lines in force: a line takes the place of the one with its
key format, and `METHOD=NONE` ends them all.
-/

namespace Segmentor

open General

/-! ## Texts -/

def base64Digit (n : ℕ) : Char :=
  if n < 26 then Char.ofNat (65 + n)
  else if n < 52 then Char.ofNat (97 + (n - 26))
  else if n < 62 then Char.ofNat (48 + (n - 52))
  else if n = 62 then '+'
  else '/'

/-- The standard alphabet, padded. -/
def base64Digits : List UInt8 → List Char
  | a :: b :: c :: rest =>
      base64Digit (a.toNat / 4) ::
        base64Digit (a.toNat % 4 * 16 + b.toNat / 16) ::
        base64Digit (b.toNat % 16 * 4 + c.toNat / 64) ::
        base64Digit (c.toNat % 64) :: base64Digits rest
  | [a, b] =>
      [base64Digit (a.toNat / 4),
        base64Digit (a.toNat % 4 * 16 + b.toNat / 16),
        base64Digit (b.toNat % 16 * 4), '=']
  | [a] =>
      [base64Digit (a.toNat / 4), base64Digit (a.toNat % 4 * 16), '=', '=']
  | [] => []

def base64 (bytes : List UInt8) : String :=
  String.ofList (base64Digits bytes)

def hexDigit (n : ℕ) : Char :=
  if n < 10 then Char.ofNat (48 + n) else Char.ofNat (97 + (n - 10))

def hexString (bytes : List UInt8) : String :=
  String.ofList (bytes.flatMap fun byte =>
    [hexDigit (byte.toNat / 16), hexDigit (byte.toNat % 16)])

/-! ## Lines -/

inductive KeyFormat
  /-- The format of a line that names none. -/
  | identity
  | fairPlay
  | widevine
  | playReady
  | clearKey
  deriving DecidableEq, Repr

def KeyFormat.text : KeyFormat → String
  | .identity => "identity"
  | .fairPlay => "com.apple.streamingkeydelivery"
  | .widevine => "urn:uuid:edef8ba9-79d6-4ace-a3c8-27dcd51d21ed"
  | .playReady => "com.microsoft.playready"
  | .clearKey => "org.w3.clearkey"

/-- A line's attributes after its method. -/
structure KeyAttributes where
  uri : String
  keyId : Option (List UInt8)
  keyFormat : KeyFormat
  deriving DecidableEq, Repr

def KeyAttributes.text (attributes : KeyAttributes) : String :=
  "URI=\"" ++ attributes.uri ++ "\"" ++
    ((attributes.keyId.map fun keyId => ",KEYID=0x" ++ hexString keyId).getD
      "") ++
    ",KEYFORMAT=\"" ++ attributes.keyFormat.text ++
    "\",KEYFORMATVERSIONS=\"1\""

inductive KeyLine
  /-- The segments from here on are clear. -/
  | clear
  | aes128 (uri : String)
  /-- A system's line, given for `key`, which the attributes do not spell
  out. -/
  | sampleAes (attributes : KeyAttributes) (key : ContentKey)
  deriving DecidableEq, Repr

/-- How HLS names a system, or `none` if it cannot. -/
def hlsAttributes (system : DrmSystem) (keyId : Option (List UInt8)) :
    Option KeyAttributes :=
  if system.systemId = DrmSystem.fairPlay then
    system.hlsUri.map fun uri => ⟨uri, none, .fairPlay⟩
  else if system.systemId = DrmSystem.widevine then
    system.pssh.map fun pssh =>
      ⟨"data:text/plain;base64," ++ base64 pssh, keyId, .widevine⟩
  else if system.systemId = DrmSystem.playReady then
    (system.pssh.bind psshData).map fun object =>
      ⟨"data:text/plain;charset=UTF-16;base64," ++ base64 object, none,
        .playReady⟩
  else if system.systemId = DrmSystem.clearKey then
    system.licenseUrl.map fun url => ⟨url, none, .clearKey⟩
  else none

/-- One line for each system HLS can name. -/
def hlsKeyLines (period : PeriodKeys) (key : ContentKey) : List KeyLine :=
  period.systems.filterMap fun system =>
    (hlsAttributes system (some key.keyId)).map fun attributes =>
      .sampleAes attributes key

def KeyLine.keyFormat : KeyLine → KeyFormat
  | .sampleAes attributes _ => attributes.keyFormat
  | _ => .identity

/-- The content key a line is given for. -/
def KeyLine.key : KeyLine → Option ContentKey
  | .sampleAes _ key => some key
  | _ => none

theorem key_of_mem_hlsKeyLines {period : PeriodKeys} {key : ContentKey}
    {line : KeyLine} (h : line ∈ hlsKeyLines period key) :
    line.key = some key := by
  obtain ⟨system, -, hsystem⟩ := List.mem_filterMap.mp h
  obtain ⟨attributes, -, rfl⟩ := Option.map_eq_some_iff.mp hsystem
  rfl

/-- The system a format belongs to. -/
def KeyFormat.systemId : KeyFormat → List UInt8
  | .identity => []
  | .fairPlay => DrmSystem.fairPlay
  | .widevine => DrmSystem.widevine
  | .playReady => DrmSystem.playReady
  | .clearKey => DrmSystem.clearKey

theorem systemId_keyFormat {system : DrmSystem} {keyId : Option (List UInt8)}
    {attributes : KeyAttributes}
    (h : hlsAttributes system keyId = some attributes) :
    attributes.keyFormat.systemId = system.systemId := by
  unfold hlsAttributes at h
  split at h
  · rename_i hid
    obtain ⟨uri, -, rfl⟩ := Option.map_eq_some_iff.mp h
    exact hid.symm
  · split at h
    · rename_i hid
      obtain ⟨pssh, -, rfl⟩ := Option.map_eq_some_iff.mp h
      exact hid.symm
    · split at h
      · rename_i hid
        obtain ⟨object, -, rfl⟩ := Option.map_eq_some_iff.mp h
        exact hid.symm
      · split at h
        · rename_i hid
          obtain ⟨url, -, rfl⟩ := Option.map_eq_some_iff.mp h
          exact hid.symm
        · simp at h

theorem nodup_keyFormat_hlsKeyLines (period : PeriodKeys) (key : ContentKey) :
    ((hlsKeyLines period key).map KeyLine.keyFormat).Nodup := by
  apply List.Nodup.of_map KeyFormat.systemId
  rw [List.map_map]
  unfold hlsKeyLines
  generalize period.systems = systems, period.systems_once = honce
  induction systems with
  | nil => simp
  | cons system systems ih =>
      rw [List.map_cons, List.nodup_cons] at honce
      rw [List.filterMap_cons]
      split
      · exact ih honce.2
      · rename_i line hline
        obtain ⟨attributes, hattributes, rfl⟩ :=
          Option.map_eq_some_iff.mp hline
        rw [List.map_cons, List.nodup_cons]
        refine ⟨fun hmem => honce.1 ?_, ih honce.2⟩
        obtain ⟨other, hother, hsame⟩ := List.mem_map.mp hmem
        obtain ⟨known, hknown, hline⟩ := List.mem_filterMap.mp hother
        obtain ⟨others, hothers, rfl⟩ := Option.map_eq_some_iff.mp hline
        have hid : known.systemId = system.systemId := by
          rw [← systemId_keyFormat hattributes, ← systemId_keyFormat hothers]
          exact hsame
        exact hid ▸ List.mem_map_of_mem hknown

/-- The formats HLS can name the period's systems by. -/
def PeriodKeys.keyFormats (period : PeriodKeys) : List KeyFormat :=
  period.systems.filterMap fun system =>
    (hlsAttributes system none).map KeyAttributes.keyFormat

theorem keyFormat_hlsKeyLines (period : PeriodKeys) (key : ContentKey) :
    (hlsKeyLines period key).map KeyLine.keyFormat = period.keyFormats := by
  unfold hlsKeyLines PeriodKeys.keyFormats
  rw [List.map_filterMap]
  congr 1
  funext system
  unfold hlsAttributes
  simp only [Option.map_map]
  split_ifs
  · rfl
  · cases system.pssh <;> rfl
  · rfl
  · rfl
  · rfl

/-! ## Lines in force -/

/-- The lines in force once a line is read. -/
def KeyLine.read (inForce : List KeyLine) : KeyLine → List KeyLine
  | .clear => []
  | line => supersede KeyLine.keyFormat inForce line

/-- The lines in force after `lines`. -/
def readLines (inForce lines : List KeyLine) : List KeyLine :=
  lines.foldl KeyLine.read inForce

theorem readLines_append (inForce lines others : List KeyLine) :
    readLines inForce (lines ++ others) =
      readLines (readLines inForce lines) others :=
  List.foldl_append

theorem readLines_hlsKeyLines (inForce : List KeyLine) (period : PeriodKeys)
    (key : ContentKey) :
    readLines inForce (hlsKeyLines period key) =
      overlay KeyLine.keyFormat inForce (hlsKeyLines period key) := by
  rw [← foldl_supersede (nodup_keyFormat_hlsKeyLines period key)]
  unfold readLines
  apply List.foldl_ext
  intro inForce line hline
  obtain ⟨system, -, hsystem⟩ := List.mem_filterMap.mp hline
  obtain ⟨attributes, -, rfl⟩ := Option.map_eq_some_iff.mp hsystem
  rfl

end Segmentor
