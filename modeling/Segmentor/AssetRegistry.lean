import Mathlib.Data.List.MinMax
import Segmentor.General.Runs
import Segmentor.General.Table
import Segmentor.MapperAnswers

/-!
# The asset registry

Where an asset is, as the mapper answered, and what was loaded of it, each in
a cache of its own.  A request looks in both; one task an asset asks the
mapper and loads.  Each step is one locked section or one wait, time passes
between any two, and instants are nanoseconds of the monotonic clock.
-/

namespace Segmentor

open General

variable {Value : Type}

/-! ## Resolving -/

structure MapperSettings where
  defaultTtlMs : ℕ
  minTtlMs : ℕ
  maxTtlMs : ℕ
  refreshMarginMs : ℕ
  /-- An RFC 3339 time, in nanoseconds of the wall clock. -/
  parseExpiry : Text → Option ℤ

inductive ResolveError
  | notFound
  | unavailable (message : String)
  | rejected (message : String)
  deriving DecidableEq, Repr

/-- A mapper's answer as it arrives; what is checked besides the times it may
be used is a parameter. -/
structure Wire (Value : Type) where
  ttlSeconds : Option ℕ
  expiresAt : Option Text
  content : Except ResolveError (Answer Value)

/-- How asking the resolver ends: with a mapper, or with the catalog. -/
inductive Reply (Value : Type)
  | ok (wire : Wire Value) (maxAge : Option ℕ)
  | notModified (maxAge : Option ℕ)
  | notFound
  | unavailable (message : String)
  | rejected (message : String)
  | catalog (answer : Answer Value)

inductive Resolution (Value : Type)
  | resolved (answer : Answer Value)
  | unchanged (validUntil : ℕ)

def nanosPerMilli : ℕ := 1_000_000

def nanosPerSecond : ℕ := 1_000_000_000

namespace MapperSettings

variable (settings : MapperSettings)

/-- The reuse window: an explicit time, else the maximum age, else the
default, within the configured bounds. -/
def ttl (explicitSeconds maxAgeSeconds : Option ℕ) : ℕ :=
  let requested :=
    match explicitSeconds.or maxAgeSeconds with
    | some seconds => min (seconds * 1000) (2 ^ 64 - 1)
    | none => settings.defaultTtlMs
  max settings.minTtlMs (min requested settings.maxTtlMs) * nanosPerMilli

/-- An answer that arrives at `now`, at `utc` on the wall clock. -/
def interpret (now : ℕ) (utc : ℤ) (wire : Wire Value) (maxAge : Option ℕ) :
    Except ResolveError (Answer Value) := do
  let answer ← wire.content
  let validUntil := now + settings.ttl wire.ttlSeconds maxAge
  match wire.expiresAt with
  | none => .ok { answer with validUntil := validUntil, hardExpiry := none }
  | some text => do
      let deadline ← okOr (settings.parseExpiry text)
        (.rejected "expires_at is not RFC 3339")
      if deadline - utc ≤ 0 then
        .error (.rejected "location has already expired")
      else
        let remaining := (deadline - utc).toNat
        let margin := settings.refreshMarginMs * nanosPerMilli
        let refreshAfter := max (remaining - margin) (remaining / 2)
        .ok
          { answer with
            validUntil := min validUntil (now + refreshAfter)
            hardExpiry := some (now + remaining) }

/-- The catalog's answers never expire. -/
def forever : ℕ := 10 * 365 * 24 * 3600 * nanosPerSecond

/-- Only an asker that named a version is told it is unchanged. -/
def resolve (now : ℕ) (utc : ℤ) (known : Bool) :
    Reply Value → Except ResolveError (Resolution Value)
  | .ok wire maxAge => do
      let answer ← settings.interpret now utc wire maxAge
      .ok (.resolved answer)
  | .notModified maxAge =>
      if known then .ok (.unchanged (now + settings.ttl none maxAge))
      else .error (.rejected "unexpected mapper status 304 Not Modified")
  | .notFound => .error .notFound
  | .unavailable message => .error (.unavailable message)
  | .rejected message => .error (.rejected message)
  | .catalog answer => .ok <| .resolved
      { answer with validUntil := now + forever, hardExpiry := none }

end MapperSettings

/-! ## Loaded assets -/

/-- What was loaded: the answer it was loaded from, and its size. -/
structure LoadedAsset (Value : Type) where
  answer : Answer Value
  indexBytes : ℕ

structure CacheEntry (Value : Type) where
  asset : LoadedAsset Value
  lastUsed : ℕ

/-- Loaded assets by id and version, the least recently used of which go
first. -/
structure LoadedCache (Value : Type) where
  entries : List ((Text × Text) × CacheEntry Value)
  totalWeight : ℕ
  clock : ℕ

namespace LoadedCache

def empty : LoadedCache Value where
  entries := []
  totalWeight := 0
  clock := 0

variable (cache : LoadedCache Value)

def find (id version : Text) : Option (LoadedAsset Value) :=
  (Table.get cache.entries (id, version)).map CacheEntry.asset

/-- The cache once an entry was used. -/
def touch (id version : Text) : LoadedCache Value :=
  { cache with
    clock := cache.clock + 1
    entries := cache.entries.map fun entry =>
      if entry.1 = (id, version) then
        (entry.1, { entry.2 with lastUsed := cache.clock + 1 })
      else entry }

def remove (key : Text × Text) : LoadedCache Value :=
  match Table.get cache.entries key with
  | some entry =>
      { cache with
        entries := Table.erase cache.entries key
        totalWeight := cache.totalWeight - entry.asset.indexBytes }
  | none => cache

/-- Removes the least recently used entries, `count` of them at most, until
`weight` more fits. -/
def makeRoom (budget weight : ℕ) : ℕ → LoadedCache Value → LoadedCache Value
  | 0, cache => cache
  | count + 1, cache =>
      if budget < cache.totalWeight + weight then
        match cache.entries.argmin fun entry => entry.2.lastUsed with
        | some oldest => makeRoom budget weight count (cache.remove oldest.1)
        | none => cache
      else cache

/-- An asset heavier than the whole budget is not kept at all. -/
def insert (budget : ℕ) (id version : Text) (asset : LoadedAsset Value) :
    LoadedCache Value :=
  if budget < asset.indexBytes then cache
  else
    let used := { cache with clock := cache.clock + 1 }.remove (id, version)
    let room := makeRoom budget asset.indexBytes used.entries.length used
    { room with
      totalWeight := room.totalWeight + asset.indexBytes
      entries := Table.put room.entries (id, version)
        { asset := asset, lastUsed := room.clock } }

/-- Drops every version of an asset but the one to keep. -/
def retainOnly (id : Text) (keep : Option Text) : LoadedCache Value :=
  let stale := cache.entries.filter fun entry =>
    entry.1.1 == id && some entry.1.2 != keep
  { cache with
    totalWeight := stale.foldl
      (fun total entry => total - entry.2.asset.indexBytes) cache.totalWeight
    entries := cache.entries.filter fun entry =>
      !(entry.1.1 == id && some entry.1.2 != keep) }

end LoadedCache

/-! ## The registry -/

structure RegistrySettings where
  mapper : MapperSettings
  maxCachedResolutions : ℕ
  negativeTtl : ℕ
  errorTtl : ℕ
  staleIfError : ℕ
  loadedBudgetBytes : ℕ

inductive RegistryError
  | notFound
  | unavailable (message : String)
  | badUpstream (message : String)
  | loadFailed (message : String)
  deriving DecidableEq, Repr

inductive Slot (Value : Type)
  | found (answer : Answer Value) (fetchedAt : ℕ) (backoffUntil : Option ℕ)
  | missing (deadline : ℕ)

/-- A lookup: its instant was sampled, or it has chosen the answer whose
loaded asset it goes on to fetch. -/
inductive Lookup (Value : Type)
  | sampled (id : Text) (now : ℕ)
  | chosen (id : Text) (now : ℕ) (answer : Answer Value)

inductive Purpose
  | load
  | refresh
  deriving DecidableEq, Repr

/-- A task of an asset.  `judged` is the instant at which what it stores was
found to be usable; `stale` is the instant of a task whose mapper did not
answer. -/
inductive RegistryTask (Value : Type)
  | begun (now : ℕ)
  | asking (now : ℕ) (known : Option (Answer Value))
  | answered (now : ℕ) (known : Option (Answer Value)) (arrived : ℕ)
      (resolution : Except ResolveError (Resolution Value))
  | refreshing (old : Answer Value)
  | refreshed (old : Answer Value)
      (arrived : ℕ) (resolution : Except ResolveError (Resolution Value))
  | storing (purpose : Purpose) (answer : Answer Value) (judged : ℕ)
      (stale : Option ℕ)
  | forgetting
  | resolved (answer : Answer Value)
  | loading (answer : Answer Value)

structure AssetRegistry (Value : Type) where
  clock : ℕ
  resolutions : List (Text × Slot Value)
  failures : List (Text × ℕ × RegistryError)
  loaded : LoadedCache Value
  lookups : ℕ → Option (Lookup Value)
  tasks : Text → Option (RegistryTask Value)

/-- One step.  The slot that makes room in a full table is any of them. -/
inductive RegistryStep (Value : Type)
  | tick (elapsed : ℕ)
  | sample (caller : ℕ) (id : Text)
  | read (caller : ℕ)
  | fetch (caller : ℕ)
  | start (id : Text)
  | consult (id : Text)
  | refresh (id : Text) (key : LocationKey)
  | reply (id : Text) (utc : ℤ) (reply : Reply Value)
  | settle (id victim : Text)
  | store (id victim : Text)
  | forget (id : Text)
  | openAsset (id : Text)
  | timeout (id : Text)
  | finish (id : Text) (outcome : Except RegistryError ℕ)

namespace Answer

/-- Whether the location itself is alive. -/
def unexpired (answer : Answer Value) (now : ℕ) : Bool :=
  answer.hardExpiry.all fun expiry => now < expiry

end Answer

namespace AssetRegistry

def initial (clock : ℕ) : AssetRegistry Value where
  clock := clock
  resolutions := []
  failures := []
  loaded := .empty
  lookups _ := none
  tasks _ := none

section

variable (settings : RegistrySettings) (registry : AssetRegistry Value)

def setLookup (caller : ℕ) (lookup : Option (Lookup Value)) :
    AssetRegistry Value :=
  { registry with lookups := Function.update registry.lookups caller lookup }

def setTask (id : Text) (task : Option (RegistryTask Value)) :
    AssetRegistry Value :=
  { registry with tasks := Function.update registry.tasks id task }

def staleUsable (answer : Answer Value) (now : ℕ) : Bool :=
  answer.unexpired now && now < answer.validUntil + settings.staleIfError

/-- Whether a slot of the table may be kept when room is needed. -/
def current (now : ℕ) (slot : Slot Value) : Bool :=
  match slot with
  | .found answer _ _ => now < answer.validUntil
  | .missing deadline => now < deadline

/-- The table with room for one more id, where it is full. -/
def makeRoom (id victim : Text) : List (Text × Slot Value) :=
  if settings.maxCachedResolutions ≤ registry.resolutions.length ∧
      Table.get registry.resolutions id = none then
    let kept := registry.resolutions.filter fun entry =>
      current registry.clock entry.2
    if settings.maxCachedResolutions ≤ kept.length then
      match Table.get kept victim with
      | some _ => Table.erase kept victim
      | none => kept.tail
    else kept
  else registry.resolutions

def putSlot (id victim : Text) (slot : Slot Value) : AssetRegistry Value :=
  { registry with
    resolutions := Table.put (registry.makeRoom settings id victim) id slot
    failures := Table.erase registry.failures id }

def rememberFailure (id : Text) (error : RegistryError) :
    AssetRegistry Value :=
  let failures :=
    if settings.maxCachedResolutions ≤ registry.failures.length then
      registry.failures.filter fun entry => registry.clock < entry.2.1
    else registry.failures
  if failures.length < settings.maxCachedResolutions then
    { registry with
      failures :=
        Table.put failures id (registry.clock + settings.errorTtl, error) }
  else { registry with failures := failures }

/-- What a lookup finds in the table of answers, at the instant it sampled. -/
def readSlot (id : Text) (now : ℕ) : Option (Answer Value) :=
  match Table.get registry.resolutions id with
  | some (.found answer _ backoffUntil) =>
      let fresh := decide (now < answer.validUntil)
      let servingStale := !fresh &&
        backoffUntil.any (fun deadline => now < deadline) &&
        staleUsable settings answer now
      if fresh || servingStale then some answer else none
  | _ => none

/-- The failure a lookup is answered with. -/
def failure (id : Text) (now : ℕ) : Option RegistryError :=
  (Table.get registry.failures id).bind fun remembered =>
    if now < remembered.1 then some remembered.2 else none

def knownAnswer (id : Text) : Option (Answer Value) :=
  match Table.get registry.resolutions id with
  | some (.found answer _ _) => some answer
  | _ => none

end

variable [DecidableEq Value] (settings : RegistrySettings)
  (registry : AssetRegistry Value)

/-- What was loaded from `old` goes if the new answer names other objects. -/
def compareLoaded (id : Text) (old : Option (Answer Value))
    (new : Answer Value) : LoadedCache Value :=
  match old with
  | none => registry.loaded
  | some old =>
      if old.sameObjects new then registry.loaded.touch id new.version
      else registry.loaded.retainOnly id none

/-- What a task does with the answer it waited for. -/
def settleAnswer (id victim : Text) (now : ℕ) (known : Option (Answer Value))
    (arrived : ℕ) :
    Except ResolveError (Resolution Value) → AssetRegistry Value
  | .ok (.resolved new) =>
      { registry with loaded := registry.compareLoaded id known new }.setTask id
        (some (.storing .load new arrived none))
  | .ok (.unchanged validUntil) =>
      registry.setTask id <| known.map fun answer =>
        .storing .load
          { answer with
            validUntil :=
              answer.hardExpiry.elim validUntil fun expiry =>
                min validUntil expiry } now none
  | .error .notFound =>
      (registry.putSlot settings id victim
        (.missing (registry.clock + settings.negativeTtl))).setTask id
          (some .forgetting)
  | .error (.unavailable message) =>
      match known.filter fun answer => staleUsable settings answer now with
      | some answer =>
          registry.setTask id (some (.storing .load answer now (some now)))
      | none =>
          (registry.rememberFailure settings id (.unavailable message)).setTask
            id none
  | .error (.rejected message) =>
      (registry.rememberFailure settings id (.badUpstream message)).setTask
        id none

/-- A mapper that did not answer leaves the entry as one that is old. -/
def storedSlot (answer : Answer Value) (stale : Option ℕ) : Slot Value :=
  match stale with
  | none => .found answer registry.clock none
  | some now =>
      .found answer
        (if 60 * nanosPerSecond ≤ now then now - 60 * nanosPerSecond else now)
        (some (registry.clock + settings.errorTtl))

def step : RegistryStep Value → Option (AssetRegistry Value)
  | .tick elapsed =>
      some { registry with clock := registry.clock + elapsed }
  | .sample caller id =>
      if (registry.lookups caller).isNone then
        some (registry.setLookup caller (some (.sampled id registry.clock)))
      else none
  | .read caller =>
      match registry.lookups caller with
      | some (.sampled id now) =>
          if (registry.failure id now).isSome then
            some (registry.setLookup caller none)
          else
            some
              ({ registry with
                failures := Table.erase registry.failures id }.setLookup caller
                  ((registry.readSlot settings id now).map (.chosen id now)))
      | _ => none
  | .fetch caller =>
      match registry.lookups caller with
      | some (.chosen id _ answer) =>
          some
            ({ registry with
              loaded := registry.loaded.touch id answer.version }.setLookup
                caller none)
      | _ => none
  | .start id =>
      if (registry.tasks id).isNone then
        some (registry.setTask id (some (.begun registry.clock)))
      else none
  | .consult id =>
      match registry.tasks id with
      | some (.begun now) =>
          let known := registry.knownAnswer id
          some <| registry.setTask id <| some <|
            match known.filter fun answer => now < answer.validUntil with
            | some answer => .resolved answer
            | none => .asking now known
      | _ => none
  | .refresh id key =>
      if (registry.tasks id).isNone then
        match Table.get registry.resolutions id with
        | some (.found old fetchedAt _) =>
            if registry.clock - fetchedAt < 2 * nanosPerSecond ∧
                (old.locationFor key).any AssetLocation.isHttp then
              some registry
            else some (registry.setTask id (some (.refreshing old)))
        | _ => some registry
      else none
  | .reply id utc reply =>
      match registry.tasks id with
      | some (.asking now known) =>
          let named := known.any fun answer => answer.unexpired now
          some <| registry.setTask id <| some <|
            .answered now known registry.clock
              (settings.mapper.resolve registry.clock utc named reply)
      | some (.refreshing old) =>
          some <| registry.setTask id <| some <|
            .refreshed old registry.clock
              (settings.mapper.resolve registry.clock utc false reply)
      | _ => none
  | .settle id victim =>
      match registry.tasks id with
      | some (.answered now known arrived resolution) =>
          some
            (registry.settleAnswer settings id victim now known arrived
              resolution)
      | some (.refreshed old arrived (.ok (.resolved new))) =>
          some
            ({ registry with
              loaded := registry.compareLoaded id (some old) new }.setTask id
                (some (.storing .refresh new arrived none)))
      | some (.refreshed _ _ _) => some (registry.setTask id none)
      | _ => none
  | .store id victim =>
      match registry.tasks id with
      | some (.storing purpose answer _ stale) =>
          some
            ((registry.putSlot settings id victim
              (registry.storedSlot settings answer stale)).setTask id
                (match purpose with
                | .load => some (.resolved answer)
                | .refresh => none))
      | _ => none
  | .forget id =>
      match registry.tasks id with
      | some .forgetting =>
          some
            ({ registry with
              loaded := registry.loaded.retainOnly id none }.setTask id none)
      | _ => none
  | .openAsset id =>
      match registry.tasks id with
      | some (.resolved answer) =>
          some
            ({ registry with
              loaded := registry.loaded.touch id answer.version }.setTask id
                (if (registry.loaded.find id answer.version).isSome then none
                  else some (.loading answer)))
      | _ => none
  | .timeout id =>
      match registry.tasks id with
      | some (.loading _) => some (registry.setTask id none)
      | _ => none
  | .finish id outcome =>
      match registry.tasks id, outcome with
      | some (.loading answer), .ok indexBytes =>
          some
            ({ registry with
              loaded :=
                (registry.loaded.retainOnly id (some answer.version)).insert
                  settings.loadedBudgetBytes id answer.version
                  { answer := answer, indexBytes := indexBytes } }.setTask id
                none)
      | some (.loading _), .error error =>
          some ((registry.rememberFailure settings id error).setTask id none)
      | _, _ => none

end AssetRegistry

end Segmentor
