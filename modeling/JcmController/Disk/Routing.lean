import JcmController.Disk.Model

/-!
# Routing of requests by `device_make_request`

The virtual disk is meant to be the concatenation of its members: sector `x` is sector `y` of
member `i` where `Concat.locate` says so (`expected`). `Partitioned` says that the fragments a
call submits are that placement, sector by sector.

* `routeLoop_reach`: the loop passes the members that end at or before the request, with
  `before_sector` the sum of their sizes.
* `fitting_requests_routed`: a request inside one member becomes one request to that member at
  its own sector, and disjoint requests stay disjoint.
* `fits_partitioned`: on those requests the driver meets the placement.
* `routeLoop_crosses`: what the loop does with a request that runs past its first member.
* `crossing_never_partitioned`: on those it never meets the placement. `bio_split` is asked for
  `dev_size + before_sector` sectors instead of the sectors left in the member, and of its two
  parts the later one, which starts past the member, is sent to the member.
-/

namespace JcmController.Disk

open JcmController.Lib.Concat

variable {α : Type}

/-! ## The loop up to the member that holds the first sector -/

/-- The loop skips every member that ends at or before the first sector. -/
theorem routeLoop_reach (bio : Bio α) :
    ∀ (members : List BlockDevice) (before : UInt64) (i : Nat), i ≤ members.length →
      before.toNat + (sizes members).sum < 2 ^ 64 →
      before.toNat + base (sizes members) i ≤ bio.biSector.toNat →
      routeLoop (members.map devListOf) before bio =
        routeLoop ((members.drop i).map devListOf)
          (before + UInt64.ofNat (base (sizes members) i)) bio
  | members, before, 0, _, _, _ => by
    rw [base_zero, List.drop_zero, show UInt64.ofNat 0 = 0 from rfl, UInt64.add_zero]
  | [], _, _ + 1, hi, _, _ => absurd hi (by simp)
  | d :: members, before, i + 1, hi, hroom, hlo => by
    rw [sizes_cons, List.sum_cons] at hroom
    rw [sizes_cons, base_cons_succ] at hlo
    have hnext : (before + (devListOf d).devSize).toNat = before.toNat + d.capacity.toNat := by
      simp only [devListOf, getCapacity, UInt64.toNat_add]
      omega
    have hskip : bio.biSector ≥ (devListOf d).devSize + before := by
      rw [UInt64.add_comm, ge_iff_le, UInt64.le_iff_toNat_le, hnext]
      omega
    have ih := routeLoop_reach bio members (before + (devListOf d).devSize) i (by simpa using hi)
      (by omega) (by omega)
    have hbase : before + UInt64.ofNat (base (sizes (d :: members)) (i + 1))
        = before + (devListOf d).devSize + UInt64.ofNat (base (sizes members) i) := by
      rw [sizes_cons, base_cons_succ, UInt64.ofNat_add, ← UInt64.add_assoc]
      simp [devListOf, getCapacity]
    rw [hbase, List.drop_succ_cons, ← ih, List.map_cons, routeLoop, if_pos hskip]

/-- The loop at the member that holds the first sector. -/
theorem routeLoop_member {members : List BlockDevice} {i : Nat} {d : BlockDevice} {bio : Bio α}
    (hd : members[i]? = some d) (htotal : (sizes members).sum < 2 ^ 64)
    (hlo : base (sizes members) i ≤ bio.biSector.toNat) :
    routeLoop (members.map devListOf) 0 bio =
      routeLoop (devListOf d :: (members.drop (i + 1)).map devListOf)
        (UInt64.ofNat (base (sizes members) i)) bio := by
  obtain ⟨hi, rfl⟩ := List.getElem?_eq_some_iff.mp hd
  rw [routeLoop_reach bio members 0 i (Nat.le_of_lt hi) (by simpa using htotal)
    (by simpa using hlo), UInt64.zero_add, List.drop_eq_getElem_cons hi, List.map_cons]

/-- A member's end in sectors, as the loop computes it. -/
theorem member_end {members : List BlockDevice} {i : Nat} {d : BlockDevice}
    (hd : members[i]? = some d) (htotal : (sizes members).sum < 2 ^ 64) :
    ((devListOf d).devSize + UInt64.ofNat (base (sizes members) i)).toNat
      = base (sizes members) i + d.capacity.toNat ∧
    (UInt64.ofNat (base (sizes members) i)).toNat = base (sizes members) i := by
  have hi : i < (sizes members).length := by
    simpa using (List.getElem?_eq_some_iff.mp hd).1
  have hend := end_le_sum (sizes members) i hi
  rw [sizes_getElem hd hi] at hend
  have hb : (UInt64.ofNat (base (sizes members) i)).toNat = base (sizes members) i :=
    UInt64.toNat_ofNat_of_lt' (Nat.lt_of_le_of_lt (base_le_sum _ _) htotal)
  refine ⟨?_, hb⟩
  simp only [devListOf, getCapacity, UInt64.toNat_add, hb]
  omega

/-- The sector at which a fragment is handed on. -/
theorem redirect_toNat {bio : Bio α} {before : UInt64} (lh : DevList)
    (h : before.toNat ≤ bio.biSector.toNat) :
    (bio.redirect lh before).biSector.toNat = bio.biSector.toNat - before.toNat :=
  UInt64.toNat_sub_of_le _ _ (UInt64.le_iff_toNat_le.mpr h)

/-! ## Requests inside one member -/

/-- The request has at least one sector and lies wholly inside member `i`, the device `d`. -/
structure Fits (members : List BlockDevice) (i : Nat) (d : BlockDevice) (bio : Bio α) : Prop where
  member : members[i]? = some d
  nonempty : 512 ≤ bio.biSize.toNat
  start : base (sizes members) i ≤ bio.biSector.toNat
  finish : bio.endByte ≤ 512 * (base (sizes members) i + d.capacity.toNat)

/-- One request was submitted: to member `i`, at the request's sector less the sizes of the
members before it, with the request's length and data, inside the member. -/
structure Routed (members : List BlockDevice) (i : Nat) (d : BlockDevice) (bio f : Bio α)
    (acts : List (Action α)) : Prop where
  only : acts = [.submit f]
  target : f.biBdev = some d
  sector : base (sizes members) i + f.biSector.toNat = bio.biSector.toNat
  size : f.biSize = bio.biSize
  data : f.data = bio.data
  inside : f.endByte ≤ 512 * d.capacity.toNat

theorem fits_routed {members : List BlockDevice} {i : Nat} {d : BlockDevice} {bio : Bio α}
    (htotal : 512 * (sizes members).sum < 2 ^ 32) (h : Fits members i d bio) :
    Routed members i d bio
      (bio.redirect (devListOf d) (UInt64.ofNat (base (sizes members) i)))
      (deviceMakeRequest (initRoot members) bio) := by
  obtain ⟨hd, hne, hlo, hhi⟩ := h
  have hi : i < (sizes members).length := by
    simpa using (List.getElem?_eq_some_iff.mp hd).1
  have hend := end_le_sum (sizes members) i hi
  rw [sizes_getElem hd hi] at hend
  obtain ⟨hme, hb⟩ := member_end hd (by omega)
  have hsec := sectors_toNat bio
  unfold Bio.endByte at hhi
  have hes := endSector_toNat bio (by omega)
  have hsub := redirect_toNat (devListOf d) (hb.trans_le hlo)
  rw [hb] at hsub
  have hguard : bio.endByte ≤ 512 * (sizes members).sum := by
    unfold Bio.endByte
    omega
  refine ⟨?_, rfl, ?_, rfl, rfl, ?_⟩
  · rw [guard_passes htotal hguard, routeLoop_member hd (by omega) hlo, routeLoop, if_neg, if_pos,
      if_neg]
    · rw [gt_iff_lt, UInt64.lt_iff_toNat_lt, hme, hes]
      omega
    · rw [UInt64.lt_iff_toNat_lt, hme]
      omega
    · rw [ge_iff_le, UInt64.le_iff_toNat_le, hme]
      omega
  · omega
  · unfold Bio.endByte
    rw [hsub]
    show 512 * _ + bio.biSize.toNat ≤ _
    omega

/-- **Requests that fit one member** go to that member, whole, at their sector less the sizes of
the members before it; two disjoint ones reach disjoint extents. -/
theorem fitting_requests_routed (members : List BlockDevice)
    (htotal : 512 * (sizes members).sum < 2 ^ 32) :
    (∀ i d (bio : Bio α), Fits members i d bio →
      ∃ f, Routed members i d bio f (deviceMakeRequest (initRoot members) bio)) ∧
    ∀ i j d d' (bio bio' f f' : Bio α), Fits members i d bio → Fits members j d' bio' →
      bio.endByte ≤ 512 * bio'.biSector.toNat ∨ bio'.endByte ≤ 512 * bio.biSector.toNat →
      deviceMakeRequest (initRoot members) bio = [.submit f] →
      deviceMakeRequest (initRoot members) bio' = [.submit f'] →
      i ≠ j ∨ f.endByte ≤ 512 * f'.biSector.toNat ∨ f'.endByte ≤ 512 * f.biSector.toNat := by
  refine ⟨fun i d bio h => ⟨_, fits_routed htotal h⟩, ?_⟩
  intro i j d d' bio bio' f f' h h' hdisj hf hf'
  have hr := fits_routed htotal h
  have hr' := fits_routed htotal h'
  rw [show bio.redirect _ _ = f by simpa using hr.only.symm.trans hf] at hr
  rw [show bio'.redirect _ _ = f' by simpa using hr'.only.symm.trans hf'] at hr'
  by_cases hij : i = j
  · subst hij
    right
    have h1 := hr.sector
    have h2 := hr'.sector
    unfold Bio.endByte at hdisj ⊢
    rw [hr.size, hr'.size]
    omega
  · exact Or.inl hij

/-- A zero-sized member between two others, and a request that ends where its member ends. -/
theorem fitting_requests_routed_three :
    (∃ f, Routed [⟨0, 8⟩, ⟨1, 0⟩, ⟨2, 8⟩] 2 ⟨2, 8⟩ (⟨12, 2048, none, [1, 2, 3, 4]⟩ : Bio Nat) f
      (deviceMakeRequest (initRoot [⟨0, 8⟩, ⟨1, 0⟩, ⟨2, 8⟩]) ⟨12, 2048, none, [1, 2, 3, 4]⟩)) ∧
    ((2 : Nat) ≠ 2 ∨ (⟨4, 2048, some ⟨2, 8⟩, [1, 2, 3, 4]⟩ : Bio Nat).endByte ≤ 512 * 0 ∨
      (⟨0, 512, some ⟨2, 8⟩, [9]⟩ : Bio Nat).endByte ≤ 512 * 4) := by
  have h := @fitting_requests_routed Nat [⟨0, 8⟩, ⟨1, 0⟩, ⟨2, 8⟩] (by decide)
  have hfit : Fits [⟨0, 8⟩, ⟨1, 0⟩, ⟨2, 8⟩] 2 ⟨2, 8⟩
      (⟨12, 2048, none, [1, 2, 3, 4]⟩ : Bio Nat) :=
    ⟨by decide, by decide, by decide, by decide⟩
  have hfit' : Fits [⟨0, 8⟩, ⟨1, 0⟩, ⟨2, 8⟩] 2 ⟨2, 8⟩ (⟨8, 512, none, [9]⟩ : Bio Nat) :=
    ⟨by decide, by decide, by decide, by decide⟩
  exact ⟨h.1 _ _ _ hfit, h.2 _ _ _ _ _ _ ⟨4, 2048, some ⟨2, 8⟩, [1, 2, 3, 4]⟩
    ⟨0, 512, some ⟨2, 8⟩, [9]⟩ hfit hfit' (by decide) (by decide) (by decide)⟩

/-! ## The placement the virtual disk stands for -/

/-- The bios handed to `generic_make_request`. -/
def fragments (acts : List (Action α)) : List (Bio α) :=
  acts.filterMap fun
    | .submit f => some f
    | _ => none

/-- Where a submitted bio puts each of its sectors. -/
def Bio.placement (f : Bio α) : List (Option (BlockDevice × Nat) × α) :=
  f.data.mapIdx fun k a => (f.biBdev.map fun d => (d, f.biSector.toNat + k), a)

/-- Where the concatenation puts each sector of a request. -/
def expected (members : List BlockDevice) (bio : Bio α) : List (Option (BlockDevice × Nat) × α) :=
  bio.data.mapIdx fun k a =>
    ((locate (sizes members) (bio.biSector.toNat + k)).bind fun p =>
      members[p.1]?.map fun d => (d, p.2), a)

/-- **The request is split as a partition**: every `bio_split` is called inside its bounds, every
fragment lies inside the device it goes to, and the fragments put every sector of the request,
with its own data, exactly once where the concatenation has it. -/
structure Partitioned (members : List BlockDevice) (bio : Bio α) (acts : List (Action α)) :
    Prop where
  splits : ∀ b n, .split b n ∈ acts → 0 < n ∧ n < b.sectors.toNat
  inside : ∀ f ∈ fragments acts, ∃ d, f.biBdev = some d ∧
    f.biSector.toNat + f.sectors.toNat ≤ d.capacity.toNat
  exact : ((fragments acts).flatMap Bio.placement).Perm (expected members bio)

/-- A request of whole sectors inside the disk. -/
structure Whole (members : List BlockDevice) (bio : Bio α) : Prop where
  whole : bio.biSize.toNat % 512 = 0
  filled : bio.data.length = bio.sectors.toNat
  inside : bio.endByte ≤ 512 * (sizes members).sum

/-- The request has a member boundary strictly inside it. -/
def Crosses (members : List BlockDevice) (bio : Bio α) : Prop :=
  ∃ j, bio.biSector.toNat < base (sizes members) j ∧ 512 * base (sizes members) j < bio.endByte

/-- **A request inside one member is placed as the concatenation has it.** -/
theorem fits_partitioned {members : List BlockDevice} {i : Nat} {d : BlockDevice} {bio : Bio α}
    (htotal : 512 * (sizes members).sum < 2 ^ 32) (hw : Whole members bio)
    (h : Fits members i d bio) :
    Partitioned members bio (deviceMakeRequest (initRoot members) bio) := by
  obtain ⟨honly, htarget, hsector, hsize, hdata, hinside⟩ := fits_routed htotal h
  generalize bio.redirect _ _ = f at *
  have hsec := sectors_toNat bio
  have hfsec := sectors_toNat f
  have hw' := hw.whole
  have hfill := hw.filled
  rw [honly]
  refine ⟨by simp, ?_, ?_⟩
  · intro g hg
    obtain rfl : g = f := by simpa [fragments] using hg
    refine ⟨d, htarget, ?_⟩
    unfold Bio.endByte at hinside
    omega
  · suffices he : (fragments [Action.submit f]).flatMap Bio.placement = expected members bio by
      rw [he]
    rw [show (fragments [Action.submit f]).flatMap Bio.placement = f.placement by
      simp [fragments]]
    unfold Bio.placement expected
    rw [hdata]
    refine List.ext_getElem (by simp) fun k hk _ => ?_
    have hk' : k < bio.sectors.toNat := by simpa [hfill] using hk
    have hi : i < (sizes members).length := by
      simpa using (List.getElem?_eq_some_iff.mp h.member).1
    have hloc : locate (sizes members) (bio.biSector.toNat + k)
        = some (i, f.biSector.toNat + k) := by
      refine locate_eq_some_iff.mpr ⟨hi, ?_, by omega⟩
      rw [sizes_getElem h.member hi]
      unfold Bio.endByte at hinside
      rw [hsize] at hinside
      omega
    simp [hloc, h.member, htarget]

/-! ## Requests that cross a boundary -/

theorem toInt_of_lt {n : UInt64} (h : n.toNat < 2 ^ 31) : toInt n = n.toNat := by
  unfold toInt
  rw [BitVec.toInt_eq_toNat_of_lt]
  · simp only [BitVec.toNat_setWidth, UInt64.toNat_toBitVec]
    omega
  · simp only [BitVec.toNat_setWidth, UInt64.toNat_toBitVec]
    omega

/-- At the member a request starts in and runs past, the loop asks for a split at the member's
end counted from the start of the disk, and sends the later part to the member. -/
theorem routeLoop_crosses {members : List BlockDevice} {i : Nat} {d : BlockDevice} {bio : Bio α}
    (htotal : 512 * (sizes members).sum < 2 ^ 32) (hd : members[i]? = some d)
    (hlo : base (sizes members) i ≤ bio.biSector.toNat)
    (hin : bio.biSector.toNat < base (sizes members) i + d.capacity.toNat)
    (hpast : base (sizes members) i + d.capacity.toNat < bio.biSector.toNat + bio.sectors.toNat)
    (hend : bio.endByte ≤ 512 * (sizes members).sum) :
    let n : Int := (base (sizes members) i + d.capacity.toNat : Nat)
    (bioSplit bio n = none →
      deviceMakeRequest (initRoot members) bio = [.split bio n, .bug]) ∧
    ∀ split bio', bioSplit bio n = some (split, bio') →
      ∃ rest, deviceMakeRequest (initRoot members) bio = .split bio n ::
        .submit (bio'.redirect (devListOf d) (UInt64.ofNat (base (sizes members) i))) :: rest := by
  have hi : i < (sizes members).length := by
    simpa using (List.getElem?_eq_some_iff.mp hd).1
  have hle := end_le_sum (sizes members) i hi
  rw [sizes_getElem hd hi] at hle
  obtain ⟨hme, -⟩ := member_end hd (by omega)
  have hsec := sectors_lt bio
  have hes := endSector_toNat bio (by omega)
  have hreach : ¬ bio.biSector ≥ (devListOf d).devSize + UInt64.ofNat (base (sizes members) i) := by
    rw [ge_iff_le, UInt64.le_iff_toNat_le, hme]
    omega
  have hhere : bio.biSector < (devListOf d).devSize + UInt64.ofNat (base (sizes members) i) := by
    rw [UInt64.lt_iff_toNat_lt, hme]
    omega
  have hlong : bio.endSector > (devListOf d).devSize + UInt64.ofNat (base (sizes members) i) := by
    rw [gt_iff_lt, UInt64.lt_iff_toNat_lt, hme, hes]
    omega
  rw [guard_passes htotal hend, routeLoop_member hd (by omega) hlo, routeLoop, if_neg hreach,
    if_pos hhere, if_pos hlong]
  have hn := toInt_of_lt (show _ < 2 ^ 31 by rw [hme]; omega)
  rw [hme] at hn
  simp only [hn]
  refine ⟨fun h => ?_, fun split bio' h => ?_⟩
  · rw [h]
  · exact ⟨_, by rw [h]⟩

/-- The part `bio_split` leaves in the original bio. -/
theorem bioSplit_some {bio split bio' : Bio α} {n : Nat} (h : bioSplit bio n = some (split, bio'))
    (hroom : bio.biSector.toNat + bio.sectors.toNat < 2 ^ 64) :
    bio'.biSector.toNat = bio.biSector.toNat + n ∧ 0 < bio'.sectors.toNat := by
  have hsec := sectors_toNat bio
  have hlt := bio.biSize.toNat_lt
  unfold bioSplit at h
  split at h
  · rename_i hn
    obtain ⟨-, rfl⟩ := Prod.mk.inj (Option.some.inj h)
    have hsize : (UInt32.ofNat (n * 512)).toNat = n * 512 :=
      UInt32.toNat_ofNat_of_lt' (by unfold UInt32.size; omega)
    have hsub : (bio.biSize - UInt32.ofNat (n * 512)).toNat = bio.biSize.toNat - n * 512 := by
      rw [UInt32.toNat_sub_of_le _ _ (UInt32.le_iff_toNat_le.mpr (by omega)), hsize]
    refine ⟨?_, ?_⟩
    · simp only [Int.toNat_natCast, UInt64.toNat_add, UInt64.toNat_ofNat']
      omega
    · simp only [Int.toNat_natCast, Bio.sectors, UInt32.toNat_div, hsub, UInt32.reduceToNat]
      omega
  · exact absurd h (by simp)

/-- **A request that crosses a member boundary is never split as a partition.** -/
theorem crossing_never_partitioned (members : List BlockDevice) (bio : Bio α)
    (htotal : 512 * (sizes members).sum < 2 ^ 32) (hw : Whole members bio)
    (hc : Crosses members bio) :
    ¬ Partitioned members bio (deviceMakeRequest (initRoot members) bio) := by
  obtain ⟨j, hj, hje⟩ := hc
  have hw' := hw.whole
  have hend := hw.inside
  have hsec := sectors_toNat bio
  obtain ⟨i, hi, hlo, hin, hpast⟩ := first_boundary hj
    (show base (sizes members) j < bio.biSector.toNat + bio.sectors.toNat by
      unfold Bio.endByte at hje
      omega)
  have hi' : i < members.length := by simpa using hi
  have hd : members[i]? = some members[i] := List.getElem?_eq_getElem hi'
  have hle := end_le_sum (sizes members) i hi
  rw [sizes_getElem hd hi] at hin hpast hle
  obtain ⟨hbug, hsome⟩ := routeLoop_crosses htotal hd hlo hin hpast hend
  have hroom : bio.biSector.toNat + bio.sectors.toNat < 2 ^ 64 := by
    have := sectors_lt bio
    omega
  obtain ⟨-, hb⟩ := member_end hd (show (sizes members).sum < 2 ^ 64 by omega)
  rintro ⟨hsplits, hinside, -⟩
  cases hs : bioSplit bio (base (sizes members) i + members[i].capacity.toNat : Nat) with
  | none =>
    -- the split is out of its bounds: the kernel stops in `BUG_ON`
    rw [hbug hs] at hsplits
    have hn := hsplits bio _ List.mem_cons_self
    rw [bioSplit, if_pos hn] at hs
    exact absurd hs (by simp)
  | some p =>
    -- the fragment sent to the member starts past the member
    obtain ⟨split, bio'⟩ := p
    obtain ⟨rest, hacts⟩ := hsome split bio' hs
    rw [hacts] at hinside
    obtain ⟨hsector, hpos⟩ := bioSplit_some hs hroom
    obtain ⟨d, hd', hfit⟩ := hinside _ (by
      simp only [fragments, List.filterMap_cons]
      exact List.mem_cons_self)
    obtain rfl : members[i] = d := Option.some.inj hd'
    have hlo' : base (sizes members) i ≤ bio'.biSector.toNat := by omega
    have hsub := redirect_toNat (devListOf members[i]) (hb.trans_le hlo')
    rw [hsub, hb] at hfit
    replace hfit : _ + bio'.sectors.toNat ≤ _ := hfit
    omega

/-- Two members of 8 sectors. -/
def twoMembers : List BlockDevice := [⟨0, 8⟩, ⟨1, 8⟩]

/-- A request for sectors 1 to 15 of them. -/
def longRequest : Bio Nat :=
  ⟨1, 7680, none, [1, 2, 3, 4, 5, 6, 7, 8, 9, 10, 11, 12, 13, 14, 15]⟩

/-- `bio_split` is asked for 8 of the 15 sectors, and the last 7 go to the first member at its
sector 9. -/
theorem longRequest_not_partitioned :
    512 * (sizes twoMembers).sum < 2 ^ 32 ∧ Whole twoMembers longRequest ∧
      Crosses twoMembers longRequest ∧
      ¬ Partitioned twoMembers longRequest
        (deviceMakeRequest (initRoot twoMembers) longRequest) := by
  refine ⟨by decide, ⟨by decide, by decide, by decide⟩, ⟨1, by decide, by decide⟩, fun h => ?_⟩
  have hmem : (⟨9, 3584, some ⟨0, 8⟩, [9, 10, 11, 12, 13, 14, 15]⟩ : Bio Nat) ∈
      fragments (deviceMakeRequest (initRoot twoMembers) longRequest) := by decide
  obtain ⟨d, hd, hle⟩ := h.inside _ hmem
  obtain rfl : (⟨0, 8⟩ : BlockDevice) = d := Option.some.inj hd
  exact absurd hle (by decide)

/-- A request for sectors 4 to 11 of the same disk: the split is asked for all 8 of its
sectors. -/
theorem crossing_never_partitioned_eight :
    ¬ Partitioned twoMembers (⟨4, 4096, none, [1, 2, 3, 4, 5, 6, 7, 8]⟩ : Bio Nat)
      (deviceMakeRequest (initRoot twoMembers) ⟨4, 4096, none, [1, 2, 3, 4, 5, 6, 7, 8]⟩) :=
  crossing_never_partitioned _ _ (by decide) ⟨by decide, by decide, by decide⟩
    ⟨1, by decide, by decide⟩

end JcmController.Disk
