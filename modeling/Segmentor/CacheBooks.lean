import Segmentor.CurrentAssets
import Segmentor.General.Eviction

/-!
# The books of the loaded cache

Whatever is asked of the cache, its total is the weights of what it holds and
stays within the budget, no two entries were last used at the same time, and
an insertion evicts the least recently used others, and no more of them than
it has to.  The clock is a number: no run ticks it to the end of a word.
-/

namespace Segmentor

open General

variable {Value : Type}

/-! ## Calls -/

/-- A call on the cache. -/
inductive CacheCall (Value : Type)
  | get (id version : Text)
  | insert (id version : Text) (asset : LoadedAsset Value)
  | retainOnly (id : Text) (keep : Option Text)

namespace LoadedCache

/-- The weight of an entry, which is fixed when it is put in. -/
def weight (entry : (Text × Text) × CacheEntry Value) : ℕ :=
  entry.2.asset.indexBytes

def lastUsed (entry : (Text × Text) × CacheEntry Value) : ℕ :=
  entry.2.lastUsed

/-- The state after a call. -/
def call (budget : ℕ) (cache : LoadedCache Value) :
    CacheCall Value → LoadedCache Value
  | .get id version => cache.touch id version
  | .insert id version asset => cache.insert budget id version asset
  | .retainOnly id keep => cache.retainOnly id keep

/-! ## The same with every subtraction checked -/

def removeChecked (cache : LoadedCache Value) (key : Text × Text) :
    Option (LoadedCache Value) :=
  match Table.get cache.entries key with
  | some entry => do
      let total ← checkedSub cache.totalWeight entry.asset.indexBytes
      some
        { cache with
          entries := Table.erase cache.entries key
          totalWeight := total }
  | none => some cache

def makeRoomChecked (budget weight : ℕ) :
    ℕ → LoadedCache Value → Option (LoadedCache Value)
  | 0, cache => some cache
  | count + 1, cache =>
      if budget < cache.totalWeight + weight then
        match cache.entries.argmin fun entry => entry.2.lastUsed with
        | some oldest => do
            let rest ← cache.removeChecked oldest.1
            makeRoomChecked budget weight count rest
        | none => some cache
      else some cache

def insertChecked (cache : LoadedCache Value) (budget : ℕ) (id version : Text)
    (asset : LoadedAsset Value) : Option (LoadedCache Value) :=
  if budget < asset.indexBytes then some cache
  else do
    let used ←
      { cache with clock := cache.clock + 1 }.removeChecked (id, version)
    let room ← makeRoomChecked budget asset.indexBytes used.entries.length used
    some
      { room with
        totalWeight := room.totalWeight + asset.indexBytes
        entries := Table.put room.entries (id, version)
          { asset := asset, lastUsed := room.clock } }

def retainOnlyChecked (cache : LoadedCache Value) (id : Text)
    (keep : Option Text) : Option (LoadedCache Value) := do
  let stale := cache.entries.filter fun entry =>
    entry.1.1 == id && some entry.1.2 != keep
  let total ← stale.foldlM
    (fun total entry => checkedSub total entry.2.asset.indexBytes)
    cache.totalWeight
  some
    { cache with
      totalWeight := total
      entries := cache.entries.filter fun entry =>
        !(entry.1.1 == id && some entry.1.2 != keep) }

/-- The state after a call, if no subtraction in it underflows. -/
def callChecked (budget : ℕ) (cache : LoadedCache Value) :
    CacheCall Value → Option (LoadedCache Value)
  | .get id version => some (cache.touch id version)
  | .insert id version asset => cache.insertChecked budget id version asset
  | .retainOnly id keep => cache.retainOnlyChecked id keep

/-! ## The books -/

/-- The total is the entries' weights, and no two entries were last used at
the same time. -/
structure Balanced (cache : LoadedCache Value) : Prop where
  keys : (cache.entries.map Prod.fst).Nodup
  total : cache.totalWeight = (cache.entries.map weight).sum
  lastUsed : (cache.entries.map lastUsed).Nodup
  le_clock : ∀ entry ∈ cache.entries, entry.2.lastUsed ≤ cache.clock

/-- The books are balanced and within the budget. -/
structure Books (budget : ℕ) (cache : LoadedCache Value) : Prop extends
    Balanced cache where
  le_budget : cache.totalWeight ≤ budget

theorem books_empty (budget : ℕ) : Books budget (empty : LoadedCache Value) where
  keys := List.nodup_nil
  total := rfl
  lastUsed := List.nodup_nil
  le_clock _ h := absurd h List.not_mem_nil
  le_budget := Nat.zero_le _

variable {cache : LoadedCache Value} {id version : Text}

theorem Balanced.weight_le (h : cache.Balanced)
    {entry : (Text × Text) × CacheEntry Value} (hmem : entry ∈ cache.entries) :
    weight entry ≤ cache.totalWeight := by
  rw [h.total]
  exact List.le_sum_of_mem (List.mem_map_of_mem hmem)

/-! ## A use -/

theorem Balanced.touch (h : cache.Balanced) (id version : Text) :
    (cache.touch id version).Balanced where
  keys := by
    have hkeys : (cache.touch id version).entries.map Prod.fst =
        cache.entries.map Prod.fst := by
      simp only [LoadedCache.touch, List.map_map]
      apply List.map_congr_left
      intro entry _
      dsimp only [Function.comp_apply]
      split <;> rfl
    rw [hkeys]
    exact h.keys
  total := by
    refine h.total.trans (congrArg List.sum ?_)
    simp only [LoadedCache.touch, List.map_map]
    apply List.map_congr_left
    intro entry _
    unfold weight
    dsimp only [Function.comp_apply]
    split <;> rfl
  lastUsed := by
    have hkeys := List.pairwise_map.mp h.keys
    have hages := List.pairwise_map.mp h.lastUsed
    simp only [LoadedCache.touch]
    refine List.pairwise_map.mpr (List.pairwise_map.mpr ?_)
    apply (hkeys.and hages).imp_of_mem
    rintro a b ha hb ⟨hkey, hage⟩
    have hale := h.le_clock a ha
    have hble := h.le_clock b hb
    unfold LoadedCache.lastUsed at hage ⊢
    split_ifs with htouched htouched'
    · exact absurd (htouched.trans htouched'.symm) hkey
    · dsimp only
      omega
    · dsimp only
      omega
    · exact hage
  le_clock := by
    intro entry hmem
    simp only [LoadedCache.touch] at hmem ⊢
    obtain ⟨old, hold, rfl⟩ := List.mem_map.mp hmem
    have := h.le_clock old hold
    split
    · exact Nat.le_refl _
    · omega

/-! ## Removals -/

/-- Books stay balanced when entries go with their weights. -/
theorem Balanced.keep (h : cache.Balanced)
    {entries gone : List ((Text × Text) × CacheEntry Value)} {total : ℕ}
    (hsub : entries.Sublist cache.entries)
    (hperm : cache.entries.Perm (gone ++ entries))
    (htotal : total + (gone.map weight).sum = cache.totalWeight) :
    ({ cache with entries := entries, totalWeight := total } :
      LoadedCache Value).Balanced where
  keys := h.keys.sublist (hsub.map _)
  total := by
    have hsum := (hperm.map weight).sum_eq
    rw [List.map_append, List.sum_append] at hsum
    have := h.total
    dsimp only
    omega
  lastUsed := h.lastUsed.sublist (hsub.map _)
  le_clock entry hmem := h.le_clock entry (hsub.subset hmem)

theorem remove_entries (cache : LoadedCache Value) (key : Text × Text) :
    (cache.remove key).entries = Table.erase cache.entries key := by
  unfold remove
  split
  · rfl
  · next hnone => rw [Table.erase_of_get_eq_none hnone]

theorem remove_clock (cache : LoadedCache Value) (key : Text × Text) :
    (cache.remove key).clock = cache.clock := by
  unfold remove
  split <;> rfl

theorem Balanced.remove (h : cache.Balanced) (key : Text × Text) :
    (cache.remove key).Balanced := by
  unfold LoadedCache.remove
  split
  · next entry hget =>
      have hmem := Table.mem_of_get hget
      have hle := h.weight_le hmem
      have hperm : cache.entries.Perm
          ([(key, entry)] ++ Table.erase cache.entries key) :=
        Table.perm_cons_erase h.keys hmem
      apply h.keep List.filter_sublist hperm
      unfold weight at hle ⊢
      simp only [List.map_cons, List.map_nil, List.sum_cons, List.sum_nil]
      dsimp only at hle
      omega
  · exact h

theorem Balanced.removeChecked_eq (h : cache.Balanced) (key : Text × Text) :
    cache.removeChecked key = some (cache.remove key) := by
  unfold removeChecked LoadedCache.remove
  cases hget : Table.get cache.entries key with
  | none => rfl
  | some entry =>
      have hle := h.weight_le (Table.mem_of_get hget)
      have hsub : checkedSub cache.totalWeight entry.asset.indexBytes =
          some (cache.totalWeight - entry.asset.indexBytes) := if_pos hle
      dsimp only
      rw [hsub, Option.bind_eq_bind, Option.bind_some]

theorem remove_oldest (h : cache.Balanced)
    {oldest : (Text × Text) × CacheEntry Value}
    (hmem : oldest ∈ cache.entries) :
    cache.entries.Perm (oldest :: (cache.remove oldest.1).entries) := by
  rw [remove_entries]
  exact Table.perm_cons_erase h.keys hmem

/-! ## Making room -/

/-- The loop ends once there is room, having evicted the oldest entries, no
more of them than it had to. -/
theorem makeRoom_spec {budget weight : ℕ} (hweight : weight ≤ budget)
    (count : ℕ) {cache : LoadedCache Value} (h : cache.Balanced)
    (hcount : cache.entries.length ≤ count) :
    makeRoomChecked budget weight count cache =
        some (makeRoom budget weight count cache) ∧
      (makeRoom budget weight count cache).Balanced ∧
      (makeRoom budget weight count cache).clock = cache.clock ∧
      ∃ gone, Evicted lastUsed LoadedCache.weight (budget - weight)
        cache.entries gone (makeRoom budget weight count cache).entries := by
  induction count generalizing cache with
  | zero =>
      have hnil := List.length_eq_zero_iff.mp (Nat.le_zero.mp hcount)
      refine ⟨rfl, h, rfl, [], Evicted.none ?_⟩
      rw [hnil]
      exact Nat.zero_le _
  | succ count ih =>
      have htotal := h.total
      unfold makeRoomChecked makeRoom
      by_cases hover : budget < cache.totalWeight + weight
      · rw [if_pos hover, if_pos hover]
        cases hargmin : cache.entries.argmin fun entry => entry.2.lastUsed with
        | none =>
            rw [List.argmin_eq_none.mp hargmin] at htotal
            simp only [List.map_nil, List.sum_nil] at htotal
            omega
        | some oldest =>
            have hmem := List.argmin_mem hargmin
            have hperm := remove_oldest h hmem
            have hrest := h.remove oldest.1
            obtain ⟨hchecked, hbalanced, hclock, gone, hgone⟩ := ih hrest (by
              have := hperm.length_eq
              rw [List.length_cons] at this
              omega)
            dsimp only
            rw [h.removeChecked_eq, Option.bind_eq_bind, Option.bind_some]
            refine ⟨hchecked, hbalanced, hclock.trans (remove_clock _ _),
              oldest :: gone, hgone.cons hperm ?_ (by omega)⟩
            intro entry hentry
            have hages := (hperm.map lastUsed).nodup_iff.mp h.lastUsed
            rw [List.map_cons, List.nodup_cons] at hages
            have hother : entry ∈ cache.entries :=
              hperm.symm.subset (List.mem_cons_of_mem _ hentry)
            have hle := List.le_of_mem_argmin hother hargmin
            refine Nat.lt_of_le_of_ne hle fun heq => hages.1 ?_
            exact List.mem_map.mpr ⟨entry, hentry, heq.symm⟩
      · rw [if_neg hover, if_neg hover]
        exact ⟨rfl, h, rfl, [], Evicted.none (by omega)⟩

/-! ## Inserting -/

/-- What putting an asset in does: nothing if it is too heavy, and else the
oldest of the others go, no more than have to. -/
structure Inserted (budget : ℕ) (cache : LoadedCache Value) (id version : Text)
    (asset : LoadedAsset Value) (next : LoadedCache Value) : Prop where
  heavy : budget < asset.indexBytes → next = cache
  evicts : asset.indexBytes ≤ budget → ∃ gone kept,
    Evicted lastUsed weight (budget - asset.indexBytes)
      (Table.erase cache.entries (id, version)) gone kept ∧
    next.entries.Perm
      (((id, version), ⟨asset, cache.clock + 1⟩) :: kept)

theorem Balanced.tick (h : cache.Balanced) :
    ({ cache with clock := cache.clock + 1 } : LoadedCache Value).Balanced :=
  { h with le_clock := fun entry hmem => (h.le_clock entry hmem).step }

/-- Putting an entry under a key that is not taken. -/
theorem Balanced.put (h : cache.Balanced)
    (hkey : ∀ entry ∈ cache.entries, entry.1 ≠ (id, version))
    (hnew : ∀ entry ∈ cache.entries, entry.2.lastUsed < cache.clock)
    (asset : LoadedAsset Value) :
    ({ cache with
      totalWeight := cache.totalWeight + asset.indexBytes
      entries := Table.put cache.entries (id, version)
        { asset := asset, lastUsed := cache.clock } } :
      LoadedCache Value).Balanced ∧
    Table.put cache.entries (id, version)
        { asset := asset, lastUsed := cache.clock } =
      ((id, version), ⟨asset, cache.clock⟩) :: cache.entries := by
  have hput : Table.put cache.entries (id, version)
        { asset := asset, lastUsed := cache.clock } =
      ((id, version), ⟨asset, cache.clock⟩) :: cache.entries :=
    congrArg _ (Table.erase_of_get_eq_none (Table.get_eq_none_iff.mpr hkey))
  refine ⟨⟨Table.nodup_put h.keys _ _, ?_, ?_, ?_⟩, hput⟩
  · dsimp only
    rw [hput, h.total, List.map_cons, List.sum_cons, Nat.add_comm]
    rfl
  · dsimp only
    rw [hput, List.map_cons, List.nodup_cons]
    refine ⟨fun hmem => ?_, h.lastUsed⟩
    obtain ⟨entry, hentry, hsame⟩ := List.mem_map.mp hmem
    exact (hnew entry hentry).ne hsame
  · dsimp only
    rw [hput]
    intro entry hmem
    rcases List.mem_cons.mp hmem with rfl | hrest
    · exact Nat.le_refl _
    · exact h.le_clock entry hrest

theorem Books.insert {budget : ℕ} (h : cache.Books budget)
    (id version : Text) (asset : LoadedAsset Value) :
    cache.insertChecked budget id version asset =
        some (cache.insert budget id version asset) ∧
      (cache.insert budget id version asset).Books budget ∧
      Inserted budget cache id version asset
        (cache.insert budget id version asset) := by
  unfold insertChecked LoadedCache.insert
  by_cases hheavy : budget < asset.indexBytes
  · rw [if_pos hheavy, if_pos hheavy]
    exact ⟨rfl, h, fun _ => rfl, fun hle => absurd hheavy (Nat.not_lt.mpr hle)⟩
  · rw [if_neg hheavy, if_neg hheavy]
    have htick := h.toBalanced.tick
    have hused := htick.remove (id, version)
    have hentries := remove_entries { cache with clock := cache.clock + 1 }
      (id, version)
    have hclock := remove_clock { cache with clock := cache.clock + 1 }
      (id, version)
    rw [htick.removeChecked_eq, Option.bind_eq_bind, Option.bind_some]
    generalize ({ cache with clock := cache.clock + 1 } :
      LoadedCache Value).remove (id, version) = used at *
    obtain ⟨hchecked, hroom, hroomClock, gone, hgone⟩ :=
      makeRoom_spec (Nat.not_lt.mp hheavy) used.entries.length hused
        (Nat.le_refl _)
    rw [hchecked, Option.bind_some]
    dsimp only
    generalize makeRoom budget asset.indexBytes used.entries.length used =
      room at *
    rw [hentries] at hgone
    rw [hclock] at hroomClock
    have hkept : ∀ entry ∈ room.entries,
        entry ∈ cache.entries ∧ entry.1 ≠ (id, version) := fun entry hmem =>
      Table.mem_erase.mp
        (hgone.perm.symm.subset (List.mem_append_right _ hmem))
    obtain ⟨hput, hnext⟩ := hroom.put (fun entry hmem => (hkept entry hmem).2)
      (fun entry hmem => by
        have := h.le_clock entry (hkept entry hmem).1
        rw [hroomClock]
        exact Nat.lt_succ_of_le this) asset
    have hfits := hgone.fits
    rw [← hroom.total] at hfits
    refine ⟨rfl, ⟨hput, ?_⟩, fun hlt => absurd hlt hheavy,
      fun _ => ⟨gone, room.entries, hgone, ?_⟩⟩
    · dsimp only
      omega
    · dsimp only
      rw [hnext, hroomClock]

/-! ## Dropping versions -/

theorem foldlM_checkedSub {α : Type} (f : α → ℕ) (l : List α) {total : ℕ}
    (h : (l.map f).sum ≤ total) :
    l.foldlM (fun total a => checkedSub total (f a)) total =
      some (l.foldl (fun total a => total - f a) total) := by
  induction l generalizing total with
  | nil => rfl
  | cons a l ih =>
      rw [List.map_cons, List.sum_cons] at h
      have hsub : checkedSub total (f a) = some (total - f a) :=
        if_pos (by omega)
      rw [List.foldlM_cons, hsub]
      exact ih (by omega)

theorem foldl_sub {α : Type} (f : α → ℕ) (l : List α) (total : ℕ) :
    l.foldl (fun total a => total - f a) total = total - (l.map f).sum := by
  induction l generalizing total with
  | nil => rfl
  | cons a l ih =>
      rw [List.foldl_cons, ih, List.map_cons, List.sum_cons, Nat.sub_sub]

theorem Balanced.retainOnly (h : cache.Balanced) (id : Text)
    (keep : Option Text) :
    cache.retainOnlyChecked id keep = some (cache.retainOnly id keep) ∧
      (cache.retainOnly id keep).Balanced ∧
      (cache.retainOnly id keep).totalWeight ≤ cache.totalWeight := by
  have hperm := List.filter_append_perm
    (fun entry : (Text × Text) × CacheEntry Value =>
      entry.1.1 == id && some entry.1.2 != keep) cache.entries
  have hle : ((cache.entries.filter fun entry =>
      entry.1.1 == id && some entry.1.2 != keep).map weight).sum ≤
        cache.totalWeight := by
    have hsum := (hperm.map weight).sum_eq
    rw [List.map_append, List.sum_append] at hsum
    rw [h.total]
    omega
  refine ⟨?_, h.keep List.filter_sublist hperm.symm ?_, ?_⟩
  · unfold retainOnlyChecked
    dsimp only
    rw [foldlM_checkedSub (fun entry : (Text × Text) × CacheEntry Value =>
      entry.2.asset.indexBytes) _ hle]
    rfl
  · rw [foldl_sub (fun entry : (Text × Text) × CacheEntry Value =>
      entry.2.asset.indexBytes)]
    exact Nat.sub_add_cancel hle
  · unfold LoadedCache.retainOnly
    dsimp only
    rw [foldl_sub (fun entry : (Text × Text) × CacheEntry Value =>
      entry.2.asset.indexBytes)]
    exact Nat.sub_le _ _

/-! ## Whole runs -/

theorem Books.call {budget : ℕ} (h : cache.Books budget)
    (call : CacheCall Value) :
    cache.callChecked budget call = some (cache.call budget call) ∧
      (cache.call budget call).Books budget := by
  cases call with
  | get id version =>
      exact ⟨rfl, h.touch id version, h.le_budget⟩
  | insert id version asset =>
      obtain ⟨hchecked, hbooks, -⟩ := h.insert id version asset
      exact ⟨hchecked, hbooks⟩
  | retainOnly id keep =>
      obtain ⟨hchecked, hbalanced, hle⟩ := h.retainOnly id keep
      exact ⟨hchecked, hbalanced, hle.trans h.le_budget⟩

theorem Books.run {budget : ℕ} (h : cache.Books budget)
    (calls : List (CacheCall Value)) :
    ∃ next, finalState (callChecked budget) cache calls = some next ∧
      next.Books budget := by
  induction calls generalizing cache with
  | nil => exact ⟨cache, rfl, h⟩
  | cons call calls ih =>
      obtain ⟨hchecked, hbooks⟩ := h.call call
      unfold finalState
      rw [hchecked, Option.bind_some]
      exact ih hbooks

/-- No asset is held in two versions. -/
def OneVersion (cache : LoadedCache Value) : Prop :=
  ∀ a ∈ cache.entries, ∀ b ∈ cache.entries, a.1.1 = b.1.1 → a = b

theorem OneVersion.has (h : cache.OneVersion) {version' : Text}
    {asset asset' : LoadedAsset Value} (ha : cache.Has id version asset)
    (hb : cache.Has id version' asset') : version = version' := by
  obtain ⟨a, hmem, hkey, -⟩ := ha
  obtain ⟨b, hmem', hkey', -⟩ := hb
  have hsame := h a hmem b hmem' (by rw [hkey, hkey'])
  rw [hsame, hkey'] at hkey
  exact (Prod.mk.inj hkey).2.symm

end LoadedCache

/-! ## The registry's cache -/

namespace AssetRegistry

variable [DecidableEq Value] {settings : RegistrySettings}
  {registry next : AssetRegistry Value}

end AssetRegistry

end Segmentor
