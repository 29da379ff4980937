import Segmentor.CacheBooks
import Segmentor.HeldManifests

/-!
# What the cached assets grow to

An asset is weighed when it is put in the cache; the manifests it makes on
request, and their compressed forms, come later.  The assets held can so grow
past the budget that bounds their weights.
-/

namespace Segmentor

open General

variable {Value : Type}

/-- The loaded cache, and the assets loaded under each key as they stand. -/
structure HeldAssets (Value : Type) where
  cache : LoadedCache Value
  assets : Text × Text → HeldAsset

/-- What happens to a held asset.  A request looks its manifest up, and then
sends it in a coding; anything can happen in between.  What is done to an
asset that is no longer held changes nothing here. -/
inductive HeldStep (Value : Type)
  | get (id version : Text)
  | forget (id : Text)
  | load (id version : Text) (answer : Answer Value) (asset : HeldAsset)
  | request (id version : Text) (name : ManifestName)
  | encode (id version : Text) (name : ManifestName) (encoding : Encoding)

namespace HeldAssets

def initial (assets : Text × Text → HeldAsset) : HeldAssets Value where
  cache := .empty
  assets := assets

def Holds (state : HeldAssets Value) (key : Text × Text) : Prop :=
  ∃ entry ∈ state.cache.entries, entry.1 = key

instance (state : HeldAssets Value) (key : Text × Text) :
    Decidable (state.Holds key) :=
  inferInstanceAs (Decidable (∃ entry ∈ state.cache.entries, _))

/-- The bytes that an entry's asset holds now. -/
def bytes (state : HeldAssets Value)
    (entry : (Text × Text) × CacheEntry Value) : ℕ :=
  (state.assets entry.1).indexBytes

/-- The bytes that the cached assets hold now. -/
def heldBytes (state : HeldAssets Value) : ℕ :=
  (state.cache.entries.map state.bytes).sum

def change (state : HeldAssets Value) (key : Text × Text)
    (f : HeldAsset → HeldAsset) : HeldAssets Value :=
  if state.Holds key then
    { state with
      assets := Function.update state.assets key (f (state.assets key)) }
  else state

variable (budget : ℕ) (compressors : Compressors)

def step (state : HeldAssets Value) : HeldStep Value → HeldAssets Value
  | .get id version => { state with cache := state.cache.touch id version }
  | .forget id => { state with cache := state.cache.retainOnly id none }
  | .load id version answer asset =>
      { cache := (state.cache.retainOnly id (some version)).insert budget id
          version { answer := answer, indexBytes := asset.indexBytes }
        assets :=
          if budget < asset.indexBytes then state.assets
          else Function.update state.assets (id, version) asset }
  | .request id version name =>
      state.change (id, version) (HeldAsset.request name)
  | .encode id version name encoding =>
      state.change (id, version) (HeldAsset.encode compressors name encoding)

/-- The entries of other assets. -/
def others (state : HeldAssets Value) (id : Text) :
    List ((Text × Text) × CacheEntry Value) :=
  state.cache.entries.filter fun entry => entry.1.1 != id

/-- What a step adds fits: a form made for the first time, beside what is held
now, and a loaded asset, beside what the others that stay hold now.  Which of
them stay goes by the weights they were put in with. -/
def Fits (state : HeldAssets Value) : HeldStep Value → Prop
  | .get _ _ | .forget _ => True
  | .load id _ _ asset => asset.indexBytes ≤ budget →
      ∀ gone kept, Evicted LoadedCache.lastUsed LoadedCache.weight
          (budget - asset.indexBytes) (state.others id) gone kept →
        asset.indexBytes + (kept.map state.bytes).sum ≤ budget
  | .request id version name => state.Holds (id, version) →
      state.heldBytes + (state.assets (id, version)).unrendered name ≤ budget
  | .encode id version name encoding => state.Holds (id, version) →
      state.heldBytes + (state.assets (id, version)).uncompressed compressors
        name encoding ≤ budget

variable {budget compressors} {state : HeldAssets Value} {id version : Text}

theorem heldBytes_touch (id version : Text) :
    ({ state with cache := state.cache.touch id version } :
      HeldAssets Value).heldBytes = state.heldBytes := by
  unfold heldBytes
  refine congrArg List.sum ?_
  simp only [LoadedCache.touch, List.map_map]
  apply List.map_congr_left
  intro entry _
  simp only [Function.comp_apply, bytes]
  split <;> rfl

theorem heldBytes_sublist {cache : LoadedCache Value}
    (h : cache.entries.Sublist state.cache.entries) :
    ({ state with cache := cache } : HeldAssets Value).heldBytes ≤
      state.heldBytes :=
  (h.map state.bytes).sum_le_sum fun _ _ => Nat.zero_le _

/-- A held asset that changes alone changes the bytes held. -/
theorem heldBytes_change (hbooks : state.cache.Books budget)
    {key : Text × Text} (hholds : state.Holds key)
    (f : HeldAsset → HeldAsset) :
    (state.change key f).heldBytes + (state.assets key).indexBytes =
      state.heldBytes + (f (state.assets key)).indexBytes := by
  obtain ⟨entry, hmem, rfl⟩ := hholds
  have hperm := Table.perm_cons_erase hbooks.keys hmem
  unfold change
  rw [if_pos ⟨entry, hmem, rfl⟩]
  unfold heldBytes
  rw [(hperm.map _).sum_eq, (hperm.map _).sum_eq]
  simp only [List.map_cons, List.sum_cons, bytes, Function.update_self]
  have hrest : (Table.erase state.cache.entries entry.1).map (fun other =>
        (Function.update state.assets entry.1 (f (state.assets entry.1))
          other.1).indexBytes) =
      (Table.erase state.cache.entries entry.1).map fun other =>
        (state.assets other.1).indexBytes := by
    apply List.map_congr_left
    intro other hother
    rw [Function.update_of_ne (Table.mem_erase.mp hother).2]
  unfold bytes
  dsimp only
  rw [hrest]
  omega

theorem change_of_not_holds {key : Text × Text} (h : ¬state.Holds key)
    (f : HeldAsset → HeldAsset) : state.change key f = state :=
  if_neg h

/-- A load first drops the asset's other versions, and then the one it
replaces. -/
theorem erase_retainOnly (cache : LoadedCache Value) (id version : Text) :
    Table.erase (cache.retainOnly id (some version)).entries (id, version) =
      cache.entries.filter fun entry => entry.1.1 != id := by
  unfold Table.erase LoadedCache.retainOnly
  dsimp only
  rw [List.filter_filter]
  apply List.filter_congr
  rintro ⟨⟨entryId, entryVersion⟩, entry⟩ -
  by_cases hid : entryId = id
  · by_cases hversion : entryVersion = version
    · simp [hid, hversion]
    · simp [hid, hversion]
  · have hbeq : (entryId == id) = false := beq_eq_false_iff_ne.mpr hid
    simp only [bne, hbeq, Bool.false_and, Bool.not_false]
    rw [Bool.and_true, Bool.not_eq_true']
    exact decide_eq_false fun h => hid (Prod.mk.inj h).1

/-- A load leaves the new asset and what stays of the others. -/
theorem heldBytes_load (hbooks : state.cache.Books budget)
    (compressors : Compressors) (id version : Text) (answer : Answer Value)
    {asset : HeldAsset} (hlight : asset.indexBytes ≤ budget) :
    ∃ gone kept, Evicted LoadedCache.lastUsed LoadedCache.weight
        (budget - asset.indexBytes) (state.others id) gone kept ∧
      (state.step budget compressors (.load id version answer asset)).heldBytes
        = asset.indexBytes + (kept.map state.bytes).sum := by
  have hkept := (hbooks.call (.retainOnly id (some version))).2
  obtain ⟨-, -, hinserted⟩ := hkept.insert id version
    { answer := answer, indexBytes := asset.indexBytes }
  obtain ⟨gone, kept, hevicted, hperm⟩ := hinserted.evicts hlight
  rw [LoadedCache.call, erase_retainOnly] at hevicted
  refine ⟨gone, kept, hevicted, ?_⟩
  have hothers : ∀ entry ∈ kept, entry.1 ≠ (id, version) := by
    intro entry hmem hkey
    have hother := hevicted.perm.symm.subset (List.mem_append_right _ hmem)
    have hid := (List.mem_filter.mp hother).2
    rw [hkey] at hid
    simp at hid
  unfold heldBytes
  simp only [step, if_neg (Nat.not_lt.mpr hlight)]
  refine (hperm.map _).sum_eq.trans ?_
  rw [List.map_cons, List.sum_cons]
  simp only [bytes, Function.update_self]
  refine congrArg (fun l => asset.indexBytes + List.sum l) ?_
  apply List.map_congr_left
  intro entry hmem
  unfold bytes
  dsimp only
  rw [Function.update_of_ne (hothers entry hmem)]

theorem books_step (hbooks : state.cache.Books budget)
    (action : HeldStep Value) :
    (state.step budget compressors action).cache.Books budget := by
  have hchange : ∀ key f, (state.change key f).cache = state.cache := by
    intro key f
    unfold change
    split <;> rfl
  cases action with
  | get id version => exact (hbooks.call (.get id version)).2
  | forget id => exact (hbooks.call (.retainOnly id none)).2
  | load id version answer asset =>
      have hkept := (hbooks.call (.retainOnly id (some version))).2
      exact (hkept.call (.insert id version _)).2
  | request id version name =>
      exact (hchange _ _).symm ▸ hbooks
  | encode id version name encoding =>
      exact (hchange _ _).symm ▸ hbooks

/-- One step keeps the bytes held within the budget exactly if what it adds
fits. -/
theorem step_within_iff (hbooks : state.cache.Books budget)
    (hwithin : state.heldBytes ≤ budget) (action : HeldStep Value) :
    (state.step budget compressors action).heldBytes ≤ budget ↔
      state.Fits budget compressors action := by
  cases action with
  | get id version =>
      refine iff_of_true ?_ trivial
      exact (heldBytes_touch id version).trans_le hwithin
  | forget id =>
      refine iff_of_true ?_ trivial
      exact (heldBytes_sublist List.filter_sublist).trans hwithin
  | load id version answer asset =>
      by_cases hheavy : budget < asset.indexBytes
      · refine iff_of_true ?_ fun hle => absurd hheavy (Nat.not_lt.mpr hle)
        simp only [step, LoadedCache.insert, if_pos hheavy]
        exact (heldBytes_sublist List.filter_sublist).trans hwithin
      · have hlight := Nat.not_lt.mp hheavy
        obtain ⟨gone, kept, hevicted, hbytes⟩ :=
          heldBytes_load hbooks compressors id version answer hlight
        rw [hbytes]
        constructor
        · intro hle _ gone' kept' hother
          have hages : ((state.others id).map LoadedCache.lastUsed).Nodup :=
            hbooks.lastUsed.sublist (List.filter_sublist.map _)
          have hkept := (hevicted.unique hages hother).2
          rwa [← (hkept.map state.bytes).sum_eq]
        · exact fun hfits => hfits hlight gone kept hevicted
  | request id version name =>
      by_cases hholds : state.Holds (id, version)
      · have hbytes := heldBytes_change hbooks hholds (HeldAsset.request name)
        rw [HeldAsset.indexBytes_request] at hbytes
        simp only [step, Fits]
        constructor
        · intro hle _
          omega
        · intro hfits
          have := hfits hholds
          omega
      · refine iff_of_true ?_ fun h => absurd h hholds
        exact (congrArg heldBytes (change_of_not_holds hholds _)).trans_le
          hwithin
  | encode id version name encoding =>
      by_cases hholds : state.Holds (id, version)
      · have hbytes := heldBytes_change hbooks hholds
          (HeldAsset.encode compressors name encoding)
        rw [HeldAsset.indexBytes_encode] at hbytes
        simp only [step, Fits]
        constructor
        · intro hle _
          omega
        · intro hfits
          have := hfits hholds
          omega
      · refine iff_of_true ?_ fun h => absurd h hholds
        exact (congrArg heldBytes (change_of_not_holds hholds _)).trans_le
          hwithin

/-- The steps of a history; none is ever refused. -/
def next (budget : ℕ) (compressors : Compressors) (state : HeldAssets Value)
    (action : HeldStep Value) : Option (HeldAssets Value) :=
  some (state.step budget compressors action)

/-- What the cached assets hold stays within the budget throughout a history
exactly if what each of its steps adds fits. -/
theorem held_within_budget_iff (budget : ℕ) (compressors : Compressors)
    (assets : Text × Text → HeldAsset) (actions : List (HeldStep Value)) :
    Throughout (next budget compressors)
        (fun state => state.heldBytes ≤ budget) (initial assets) actions ↔
      EachStep (next budget compressors)
        (fun state action => state.Fits budget compressors action)
        (initial assets) actions := by
  apply @throughout_iff_eachStep _ _ _ _ _
    (fun state : HeldAssets Value => state.cache.Books budget)
  · exact LoadedCache.books_empty budget
  · exact Nat.zero_le _
  · intro state action reached hbooks hstep
    obtain rfl := Option.some.inj hstep
    exact books_step hbooks action
  · intro state action reached hbooks hwithin hstep
    obtain rfl := Option.some.inj hstep
    exact step_within_iff hbooks hwithin action

/-- A file whose sample tables, init segment and master playlist take up a
hundred bytes, and whose media playlist takes up ten more. -/
def smallFile : HeldFile where
  tables := [80]
  decryption := 0
  initSegments := [(.video, List.replicate 15 0)]
  muxedInit := none
  subtitles := []
  manifests :=
    { hlsMaster := .new (List.replicate 5 0)
      hlsMedia := [(.video, none)]
      hlsIframes := none
      hlsSubtitle := none
      hlsMuxed := none
      dash := none
      hlsMedia_nodup := by decide }
  render _ := .ok (List.replicate 10 0)
  renderIframes := .ok none

/-- The file is loaded into a cache it fills, and its media playlist is asked
for. -/
def firstRequest : List (HeldStep ℕ) :=
  [.load "movie".toList "1".toList AssetRegistry.signedAnswer
      (.single smallFile),
    .request "movie".toList "1".toList (.media none .video)]

/-- Compressors that leave a text as it is. -/
def storing : Compressors where
  gzip text := text
  brotli text := text

theorem firstRequest_exceeds_budget :
    ¬Throughout (next 100 storing) (fun state => state.heldBytes ≤ 100)
      (initial fun _ => .single smallFile) firstRequest := by
  intro h
  have hrun : (finalState (next 100 storing)
      (initial fun _ => .single smallFile) firstRequest).map heldBytes =
        some 110 := by
    decide
  obtain ⟨final, hfinal, hbytes⟩ := Option.map_eq_some_iff.mp hrun
  have := h.final hfinal
  omega

end HeldAssets

end Segmentor
