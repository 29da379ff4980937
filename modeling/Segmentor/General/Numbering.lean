import Segmentor.General.PartitionPoint

/-!
# Items numbered across groups

Groups of items are numbered one after the other, each group's numbers
starting where those of the group before it end.  Which group a number belongs
to is found among the numbers the groups start at.
-/

namespace Segmentor.General

/-- The number each group starts at, the first group's being `base`. -/
def firstNumbers : ℕ → List ℕ → List ℕ
  | _, [] => []
  | base, count :: counts => base :: firstNumbers (base + count) counts

/-- The group a number belongs to; a number past the last one counts to the
last group. -/
def groupOf (firsts : List ℕ) (number : ℕ) : ℕ :=
  partitionPoint (fun first => decide (first ≤ number)) firsts - 1

@[simp] theorem length_firstNumbers (base : ℕ) (counts : List ℕ) :
    (firstNumbers base counts).length = counts.length := by
  induction counts generalizing base with
  | nil => rfl
  | cons count counts ih => simp [firstNumbers, ih]

theorem getElem?_firstNumbers {base k : ℕ} {counts : List ℕ}
    (hk : k < counts.length) :
    (firstNumbers base counts)[k]? = some (base + (counts.take k).sum) := by
  induction counts generalizing base k with
  | nil => simp at hk
  | cons count counts ih =>
      cases k with
      | zero => simp [firstNumbers]
      | succ k =>
          rw [firstNumbers, List.getElem?_cons_succ,
            ih (by simpa using hk), List.take_succ_cons, List.sum_cons,
            Nat.add_assoc]

theorem partitionPoint_firstNumbers_of_lt {base number : ℕ}
    {counts : List ℕ} (h : number < base) :
    partitionPoint (fun first => decide (first ≤ number))
      (firstNumbers base counts) = 0 := by
  cases counts with
  | nil => rfl
  | cons count counts =>
      rw [firstNumbers, partitionPoint_cons, if_neg]
      simpa using h

/-- The group of a number holds it, or it is past the last group's. -/
theorem groupOf_spec {base number : ℕ} {counts : List ℕ}
    (hcounts : counts ≠ []) (hbase : base ≤ number) :
    ∃ count, counts[groupOf (firstNumbers base counts) number]? = some count ∧
      base + (counts.take (groupOf (firstNumbers base counts) number)).sum ≤
        number ∧
      (number < base + counts.sum →
        number < base +
          (counts.take (groupOf (firstNumbers base counts) number)).sum +
            count) := by
  induction counts generalizing base with
  | nil => exact absurd rfl hcounts
  | cons count counts ih =>
      have hown : partitionPoint (fun first => decide (first ≤ number))
          (firstNumbers base (count :: counts)) =
            partitionPoint (fun first => decide (first ≤ number))
              (firstNumbers (base + count) counts) + 1 := by
        rw [firstNumbers, partitionPoint_cons, if_pos (by simpa using hbase)]
      by_cases hlater : base + count ≤ number ∧ counts ≠ []
      · obtain ⟨found, hfound, hle, hlt⟩ := ih hlater.2 hlater.1
        have hnext : groupOf (firstNumbers base (count :: counts)) number =
            groupOf (firstNumbers (base + count) counts) number + 1 := by
          have hpos : 0 < partitionPoint
              (fun first => decide (first ≤ number))
              (firstNumbers (base + count) counts) := by
            cases counts with
            | nil => exact absurd rfl hlater.2
            | cons next counts =>
                rw [firstNumbers, partitionPoint_cons,
                  if_pos (by simpa using hlater.1)]
                omega
          unfold groupOf
          rw [hown]
          omega
        rw [hnext, List.getElem?_cons_succ, List.take_succ_cons,
          List.sum_cons, List.sum_cons]
        refine ⟨found, hfound, by omega, fun hnumber => ?_⟩
        have := hlt (by omega)
        omega
      · have hzero : groupOf (firstNumbers base (count :: counts)) number =
            0 := by
          unfold groupOf
          rw [hown]
          by_cases hempty : counts = []
          · subst hempty
            rfl
          · have hbelow : number < base + count := by
              by_contra hge
              exact hlater ⟨by omega, hempty⟩
            rw [partitionPoint_firstNumbers_of_lt hbelow]
        rw [hzero, List.getElem?_cons_zero, List.take_zero, List.sum_nil]
        refine ⟨count, rfl, by omega, fun hnumber => ?_⟩
        by_cases hempty : counts = []
        · subst hempty
          simpa using hnumber
        · by_contra hge
          exact hlater ⟨by omega, hempty⟩

theorem sum_take_le {counts : List ℕ} {i j : ℕ} (hij : i ≤ j) :
    (counts.take i).sum ≤ (counts.take j).sum := by
  have hsub : (counts.take i).Sublist (counts.take j) :=
    (List.take_prefix_take_left hij).sublist
  exact hsub.sum_le_sum fun _ _ => Nat.zero_le _

theorem sum_take_succ_of_getElem? {counts : List ℕ} {k count : ℕ}
    (h : counts[k]? = some count) :
    (counts.take (k + 1)).sum = (counts.take k).sum + count := by
  rw [List.take_add_one, h, List.sum_append]
  rfl

theorem groupOf_eq {base k j count : ℕ} {counts : List ℕ}
    (hcount : counts[k]? = some count) (hj : j < count) :
    groupOf (firstNumbers base counts) (base + (counts.take k).sum + j) =
      k := by
  have hk := (List.getElem?_eq_some_iff.mp hcount).1
  have hcounts : counts ≠ [] := by
    rintro rfl
    simp at hk
  have htotal : (counts.take k).sum + count ≤ counts.sum := by
    rw [← sum_take_succ_of_getElem? hcount]
    have := @sum_take_le counts _ _ (show k + 1 ≤ counts.length from hk)
    rwa [List.take_length] at this
  obtain ⟨found, hfound, hle, hlt⟩ :=
    @groupOf_spec base (base + (counts.take k).sum + j) counts hcounts
      (by omega)
  set owner := groupOf (firstNumbers base counts)
    (base + (counts.take k).sum + j)
  have hinside := hlt (by omega)
  rcases Nat.lt_trichotomy owner k with hless | heq | hmore
  · have hstep := @sum_take_le counts _ _ (Nat.succ_le_of_lt hless)
    rw [Nat.succ_eq_add_one, sum_take_succ_of_getElem? hfound] at hstep
    omega
  · exact heq
  · have hstep := @sum_take_le counts _ _ (Nat.succ_le_of_lt hmore)
    rw [Nat.succ_eq_add_one, sum_take_succ_of_getElem? hcount] at hstep
    omega

/-! ## Listing the first items of each group -/

/-- The numbers of the items that are listed: of each group the first ones. -/
def listings (firsts listed : List ℕ) : List (List ℕ) :=
  List.zipWith (fun first count => List.range' first count) firsts listed

section

variable {base : ℕ} {counts listed : List ℕ}

theorem getElem?_listings_eq_some_iff {firsts : List ℕ} {k : ℕ}
    {row : List ℕ} :
    (listings firsts listed)[k]? = some row ↔
      ∃ first count, firsts[k]? = some first ∧ listed[k]? = some count ∧
        row = List.range' first count := by
  unfold listings
  rw [List.getElem?_zipWith]
  cases firsts[k]? with
  | none => simp
  | some first =>
      cases listed[k]? with
      | none => simp
      | some count => simp [eq_comm]

/-- A number that is listed belongs to the group it is listed of. -/
theorem groupOf_listed (hle : List.Forall₂ (· ≤ ·) listed counts)
    {k j first count : ℕ}
    (hfirst : (firstNumbers base counts)[k]? = some first)
    (hcount : listed[k]? = some count) (hj : j < count) :
    groupOf (firstNumbers base counts) (first + j) = k ∧
      first + j < base + counts.sum := by
  obtain ⟨hk, rfl⟩ := List.getElem?_eq_some_iff.mp hcount
  have hgroup : k < counts.length := hle.length_eq ▸ hk
  have hsize := List.getElem?_eq_getElem hgroup
  have hwithin : listed[k] ≤ counts[k] :=
    (List.forall₂_iff_get.mp hle).2 k hk hgroup
  have hstart := @getElem?_firstNumbers base k counts hgroup
  obtain rfl := Option.some.inj (hstart.symm.trans hfirst)
  have htotal := @sum_take_le counts _ _ (show k + 1 ≤ counts.length from hgroup)
  rw [sum_take_succ_of_getElem? hsize, List.take_length] at htotal
  exact ⟨groupOf_eq hsize (by omega), by omega⟩

theorem le_of_mem_listings {number : ℕ}
    (h : number ∈ (listings (firstNumbers base counts) listed).flatten) :
    base ≤ number := by
  induction counts generalizing base listed with
  | nil => simp [listings, firstNumbers] at h
  | cons count counts ih =>
      cases listed with
      | nil => simp [listings] at h
      | cons own listed =>
          rw [firstNumbers, listings, List.zipWith_cons_cons, List.flatten_cons,
            List.mem_append] at h
          rcases h with h | h
          · exact (List.mem_range'_1.mp h).1
          · have := ih h
            omega

theorem nodup_listings (hle : List.Forall₂ (· ≤ ·) listed counts) :
    (listings (firstNumbers base counts) listed).flatten.Nodup := by
  induction hle generalizing base with
  | nil => exact List.nodup_nil
  | @cons own count listed counts hown _ ih =>
      rw [firstNumbers, listings, List.zipWith_cons_cons, List.flatten_cons]
      refine List.Nodup.append List.nodup_range' ih ?_
      intro number hfirst hlater
      have hlt := (List.mem_range'_1.mp hfirst).2
      have hge := le_of_mem_listings hlater
      omega

theorem not_listed (hle : List.Forall₂ (· ≤ ·) listed counts)
    (hcounts : counts ≠ []) {number : ℕ} (hbase : base ≤ number)
    (h : number ∉ (listings (firstNumbers base counts) listed).flatten) :
    ∃ first count,
      (firstNumbers base counts)[groupOf (firstNumbers base counts) number]? =
        some first ∧
      listed[groupOf (firstNumbers base counts) number]? = some count ∧
      count ≤ number - first := by
  obtain ⟨size, hsize, hfrom, -⟩ := groupOf_spec hcounts hbase
  set k := groupOf (firstNumbers base counts) number
  obtain ⟨hk, -⟩ := List.getElem?_eq_some_iff.mp hsize
  have hfirst := @getElem?_firstNumbers base k counts hk
  have hlisted := List.getElem?_eq_getElem (hle.length_eq.symm ▸ hk)
  refine ⟨_, _, hfirst, hlisted, ?_⟩
  by_contra hlt
  have hrow := getElem?_listings_eq_some_iff.mpr ⟨_, _, hfirst, hlisted, rfl⟩
  exact h (List.mem_flatten.mpr ⟨_, List.mem_of_getElem? hrow,
    List.mem_range'_1.mpr (by omega)⟩)

end

end Segmentor.General
