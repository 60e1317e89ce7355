import JcmController.Disk.Complete
import JcmController.Disk.Size

/-!
# What becomes of a request in `device_make_request`

A request is settled when the driver fails it, or hands every sector of it to a member and the
bio itself once. The loop does nothing when it runs out of members, and `bio_split` stops the
kernel when it is asked for no sectors, or for all of them.

* `Lands`: the ends of the members that a request, or what is left of it after a split, meets.
* `lands_passed`: a request that lands is submitted whole.
* `not_lands`: one that does not is left over, or ends in `BUG_ON`.
* **`routing_settles_iff`**: a call settles its bio exactly when the guard fails it or it lands.
-/

namespace JcmController.Disk


variable {α : Type}

/-- The ends of the members in sectors, as the loop adds them up. -/
def ends : List BlockDevice → UInt64 → List UInt64
  | [], _ => []
  | d :: members, before => (before + d.capacity) :: ends members (before + d.capacity)

/-- The ends past the first sector of the bio. -/
def Bio.ahead (bio : Bio α) (members : List BlockDevice) : List UInt64 :=
  (ends members 0).filter (bio.biSector < ·)

/-- `n` sectors from `start` on end at or before the next of these ends; or that end, taken as an
`int`, is a number of sectors `bio_split` can be asked for, and so many of them land. -/
def Lands (start : UInt64) : UInt32 → List UInt64 → Prop
  | _, [] => False
  | n, e :: es =>
    start + n.toUInt64 ≤ e ∨
      0 < toInt e ∧ toInt e < n.toNat ∧ Lands start (UInt32.ofNat (toInt e).toNat) es

/-- **The request is settled**: it is failed, once, and nothing else is done; or it is handed to
members, every sector of it and the bio itself once, and no bio is left over. -/
structure Submitted (members : List BlockDevice) (bio : Bio α) : Prop where
  noBug : .bug ∉ deviceMakeRequest (initRoot members) bio
  noError : ∀ b, .ioError b ∉ deviceMakeRequest (initRoot members) bio
  targets : ∀ f ∈ fragments (deviceMakeRequest (initRoot members) bio),
    ∃ d ∈ members, f.biBdev = some d
  itself : (endIos (initRoot members) bio).count true = 1
  sectors : ((fragments (deviceMakeRequest (initRoot members) bio)).map
    fun f => f.sectors.toNat).sum = bio.sectors.toNat
  data : ((fragments (deviceMakeRequest (initRoot members) bio)).flatMap Bio.data).Perm bio.data

/-- The call failed the bio or submitted it. -/
def Settled (members : List BlockDevice) (bio : Bio α) : Prop :=
  deviceMakeRequest (initRoot members) bio = [.ioError bio] ∨ Submitted members bio

/-! ## A split -/

/-- What `bio_split` makes of a bio. -/
structure SplitAt (bio : Bio α) (n : Nat) (split bio' : Bio α) : Prop where
  lower : 0 < n
  upper : n < bio.sectors.toNat
  start : split.biSector = bio.biSector
  first : split.sectors = UInt32.ofNat n
  rest : bio'.sectors.toNat = bio.sectors.toNat - n
  data : bio.data = split.data ++ bio'.data

theorem bioSplit_spec {bio split bio' : Bio α} {z : Int}
    (h : bioSplit bio z = some (split, bio')) : SplitAt bio z.toNat split bio' := by
  have hsec := sectors_toNat bio
  have hlt := bio.biSize.toNat_lt
  unfold bioSplit at h
  by_cases hz : 0 < z ∧ z < bio.sectors.toNat
  · rw [if_pos hz] at h
    obtain ⟨rfl, rfl⟩ := Prod.mk.inj (Option.some.inj h)
    have hsize : (UInt32.ofNat (z.toNat * 512)).toNat = z.toNat * 512 :=
      UInt32.toNat_ofNat_of_lt' (by unfold UInt32.size; omega)
    have hn : (UInt32.ofNat z.toNat).toNat = z.toNat :=
      UInt32.toNat_ofNat_of_lt' (by unfold UInt32.size; omega)
    have hsub : (bio.biSize - UInt32.ofNat (z.toNat * 512)).toNat =
        bio.biSize.toNat - z.toNat * 512 := by
      rw [UInt32.toNat_sub_of_le _ _ (UInt32.le_iff_toNat_le.mpr (by omega)), hsize]
    refine ⟨by omega, by omega, rfl, ?_, ?_, (List.take_append_drop _ _).symm⟩
    · rw [← UInt32.toNat_inj, sectors_toNat, hn]
      show (UInt32.ofNat (z.toNat * 512)).toNat / 512 = z.toNat
      omega
    · rw [sectors_toNat]
      show (bio.biSize - UInt32.ofNat (z.toNat * 512)).toNat / 512 = _
      omega
  · rw [if_neg hz] at h
    cases h

theorem SplitAt.first_toNat {bio split bio' : Bio α} {n : Nat} (h : SplitAt bio n split bio') :
    split.sectors.toNat = n := by
  rw [h.first]
  exact UInt32.toNat_ofNat_of_lt'
    (Nat.lt_trans h.upper (Nat.lt_trans (sectors_lt bio) (by decide)))

/-- `bio_split` stops the kernel when it is asked for no sectors, or for all of them. -/
theorem bioSplit_isSome_iff {bio : Bio α} {z : Int} :
    (∃ p, bioSplit bio z = some p) ↔ 0 < z ∧ z < bio.sectors.toNat := by
  unfold bioSplit
  by_cases hz : 0 < z ∧ z < bio.sectors.toNat
  · rw [if_pos hz]
    exact iff_of_true ⟨_, rfl⟩ hz
  · rw [if_neg hz]
    exact iff_of_false (fun ⟨_, h⟩ => by cases h) hz

/-! ## The loop -/

section Loop

variable {d : BlockDevice} (rest : List BlockDevice) {before : UInt64} {b : Issued α}

theorem devEnd_eq (d : BlockDevice) (before : UInt64) :
    (devListOf d).devSize + before = before + d.capacity := UInt64.add_comm _ _

/-- The loop goes past a member that ends at or before the request. -/
theorem loop_skip (h : ¬ b.bio.biSector < before + d.capacity) :
    routeLoop ((d :: rest).map devListOf) before b.bio =
        routeLoop (rest.map devListOf) (before + d.capacity) b.bio ∧
      submitLoop ((d :: rest).map devListOf) before b =
        submitLoop (rest.map devListOf) (before + d.capacity) b := by
  rw [← devEnd_eq, UInt64.not_lt] at h
  constructor
  · rw [List.map_cons, routeLoop, if_pos h]
    rfl
  · rw [List.map_cons, submitLoop, if_pos h]
    rfl

/-- The member takes the whole request. -/
theorem loop_whole (h : b.bio.biSector < before + d.capacity)
    (hfit : b.bio.endSector ≤ before + d.capacity) :
    routeLoop ((d :: rest).map devListOf) before b.bio =
        [.submit (b.bio.redirect (devListOf d) before)] ∧
      submitLoop ((d :: rest).map devListOf) before b =
        [⟨b.bio.redirect (devListOf d) before, b.endIo⟩] := by
  rw [← devEnd_eq] at h hfit
  constructor
  · rw [List.map_cons, routeLoop, if_neg (UInt64.not_le.mpr h), if_pos h,
      if_neg (UInt64.not_lt.mpr hfit)]
  · rw [List.map_cons, submitLoop, if_neg (UInt64.not_le.mpr h), if_pos h,
      if_neg (UInt64.not_lt.mpr hfit)]

/-- The request runs past the member: `bio_split` is asked for the member's end. -/
theorem loop_split (h : b.bio.biSector < before + d.capacity)
    (hlong : before + d.capacity < b.bio.endSector) :
    (bioSplit b.bio (toInt (before + d.capacity)) = none →
      .bug ∈ routeLoop ((d :: rest).map devListOf) before b.bio) ∧
    ∀ split bio', bioSplit b.bio (toInt (before + d.capacity)) = some (split, bio') →
      (.bug ∈ routeLoop ((d :: rest).map devListOf) before b.bio ↔
        .bug ∈ routeLoop (rest.map devListOf) (before + d.capacity) split) ∧
      submitLoop ((d :: rest).map devListOf) before b =
        ⟨bio'.redirect (devListOf d) before, b.endIo⟩ ::
          submitLoop (rest.map devListOf) (before + d.capacity) ⟨split, false⟩ := by
  rw [← devEnd_eq] at h hlong ⊢
  rw [List.map_cons, routeLoop, if_neg (UInt64.not_le.mpr h), if_pos h, if_pos hlong, submitLoop,
    if_neg (UInt64.not_le.mpr h), if_pos h, if_pos hlong]
  refine ⟨fun hnone => ?_, fun split bio' hsome => ⟨?_, ?_⟩⟩
  · simp only [hnone]
    exact List.mem_cons_of_mem _ List.mem_cons_self
  · simp only [hsome, List.mem_cons, reduceCtorEq, false_or]
    rw [devEnd_eq]
    rfl
  · simp only [hsome]
    rw [devEnd_eq]
    rfl

end Loop

/-- The number of sectors of these bios. -/
def sectorsOf (bs : List (Issued α)) : Nat := (bs.map fun i => i.bio.sectors.toNat).sum

@[simp] theorem sectorsOf_nil : sectorsOf ([] : List (Issued α)) = 0 := rfl

@[simp] theorem sectorsOf_cons (i : Issued α) (bs : List (Issued α)) :
    sectorsOf (i :: bs) = i.bio.sectors.toNat + sectorsOf bs := rfl

/-- What the loop makes of a bio that lands. -/
structure Passed (members : List BlockDevice) (before : UInt64) (b : Issued α) : Prop where
  noBug : .bug ∉ routeLoop (members.map devListOf) before b.bio
  itself : ((submitLoop (members.map devListOf) before b).map Issued.endIo).count true =
    if b.endIo then 1 else 0
  sectors : sectorsOf (submitLoop (members.map devListOf) before b) = b.bio.sectors.toNat
  data : ((submitLoop (members.map devListOf) before b).flatMap fun i => i.bio.data).Perm
    b.bio.data

theorem filter_ends_cons (start : UInt64) (d : BlockDevice) (rest : List BlockDevice)
    (before : UInt64) :
    (ends (d :: rest) before).filter (start < ·) =
      if start < before + d.capacity then
        (before + d.capacity) :: (ends rest (before + d.capacity)).filter (start < ·)
      else (ends rest (before + d.capacity)).filter (start < ·) := by
  rw [ends, List.filter_cons]
  by_cases h : start < before + d.capacity
  · rw [if_pos h, if_pos (decide_eq_true h)]
  · rw [if_neg h, if_neg (by rwa [decide_eq_true_iff])]

/-- **A bio that lands is submitted whole.** -/
theorem lands_passed (members : List BlockDevice) (before : UInt64) (b : Issued α)
    (h : Lands b.bio.biSector b.bio.sectors
      ((ends members before).filter (b.bio.biSector < ·))) : Passed members before b := by
  induction members generalizing before b with
  | nil => exact absurd h (by simp [ends, Lands])
  | cons d rest ih =>
    rw [filter_ends_cons] at h
    by_cases hhere : b.bio.biSector < before + d.capacity
    · rw [if_pos hhere] at h
      by_cases hfit : b.bio.endSector ≤ before + d.capacity
      · obtain ⟨hroute, hsub⟩ := loop_whole rest hhere hfit
        refine ⟨by rw [hroute]; simp, ?_, ?_, ?_⟩
        · rw [hsub]
          cases b.endIo <;> rfl
        · rw [hsub]
          rfl
        · rw [hsub]
          simp [Bio.redirect]
      · -- the later part goes to this member, the first part lands further on
        obtain ⟨hlo, hhi, hrest⟩ := h.resolve_left hfit
        obtain ⟨⟨split, bio'⟩, hs⟩ := bioSplit_isSome_iff.mpr ⟨hlo, hhi⟩
        have hp := bioSplit_spec hs
        obtain ⟨hbug, hsub⟩ := (loop_split rest hhere (UInt64.not_le.mp hfit)).2 _ _ hs
        have hn := hp.first_toNat
        rw [← hp.start, ← hp.first] at hrest
        obtain ⟨hno, hself, hsec, hdata⟩ := ih (before + d.capacity) ⟨split, false⟩ hrest
        refine ⟨fun hb => hno (hbug.mp hb), ?_, ?_, ?_⟩
        · rw [hsub, List.map_cons, List.count_cons, hself]
          cases b.endIo <;> rfl
        · have hlater : (bio'.redirect (devListOf d) before).sectors = bio'.sectors := rfl
          rw [hsub, sectorsOf_cons, hsec, hlater, hp.rest, hn]
          have := hp.upper
          omega
        · rw [hsub, List.flatMap_cons, hp.data]
          exact (List.Perm.append_left _ hdata).trans List.perm_append_comm
    · rw [if_neg hhere] at h
      obtain ⟨hroute, hsub⟩ := loop_skip rest hhere
      obtain ⟨hno, hself, hsec, hdata⟩ := ih (before + d.capacity) b h
      exact ⟨by rwa [hroute], by rwa [hsub], by rwa [hsub], by rwa [hsub]⟩

/-- **A bio that does not land** is left over, whole or in part, or the kernel stops. -/
theorem not_lands (members : List BlockDevice) (before : UInt64) (b : Issued α)
    (h : ¬ Lands b.bio.biSector b.bio.sectors
      ((ends members before).filter (b.bio.biSector < ·))) :
    .bug ∈ routeLoop (members.map devListOf) before b.bio ∨
      submitLoop (members.map devListOf) before b = [] ∨
      sectorsOf (submitLoop (members.map devListOf) before b) < b.bio.sectors.toNat := by
  induction members generalizing before b with
  | nil => exact Or.inr (Or.inl rfl)
  | cons d rest ih =>
    rw [filter_ends_cons] at h
    by_cases hhere : b.bio.biSector < before + d.capacity
    · rw [if_pos hhere, Lands, not_or] at h
      obtain ⟨hlong, hno⟩ := h
      have hsplit := loop_split rest hhere (UInt64.not_le.mp hlong)
      cases hs : bioSplit b.bio (toInt (before + d.capacity)) with
      | none => exact Or.inl (hsplit.1 hs)
      | some p =>
        obtain ⟨split, bio'⟩ := p
        have hp := bioSplit_spec hs
        obtain ⟨hbug, hsub⟩ := hsplit.2 _ _ hs
        have hn := hp.first_toNat
        have hlater : (bio'.redirect (devListOf d) before).sectors = bio'.sectors := rfl
        obtain ⟨hlo, hhi⟩ := bioSplit_isSome_iff.mp ⟨_, hs⟩
        have hrest : ¬ Lands split.biSector split.sectors
            ((ends rest (before + d.capacity)).filter (split.biSector < ·)) := by
          rw [hp.start, hp.first]
          exact fun hl => hno ⟨hlo, hhi, hl⟩
        have hup := hp.upper
        rw [hsub, sectorsOf_cons, hlater, hp.rest]
        rcases ih (before + d.capacity) ⟨split, false⟩ hrest with hb | hnil | hlt
        · exact Or.inl (hbug.mpr hb)
        · rw [hnil, sectorsOf_nil]
          exact Or.inr (Or.inr (by omega))
        · replace hlt : _ < split.sectors.toNat := hlt
          exact Or.inr (Or.inr (by omega))
    · rw [if_neg hhere] at h
      obtain ⟨hroute, hsub⟩ := loop_skip rest hhere
      rw [hroute, hsub]
      exact ih _ b h

/-- Every bio the loop submits goes to a member. -/
theorem submitLoop_target (members : List BlockDevice) (before : UInt64) (b : Issued α) :
    ∀ i ∈ submitLoop (members.map devListOf) before b, ∃ d ∈ members, i.bio.biBdev = some d := by
  induction members generalizing before b with
  | nil => exact fun i hi => absurd hi List.not_mem_nil
  | cons d rest ih =>
    have hrest : ∀ b' : Issued α,
        ∀ i ∈ submitLoop (rest.map devListOf) (before + d.capacity) b',
          ∃ d' ∈ d :: rest, i.bio.biBdev = some d' := fun b' i hi =>
      let ⟨d', hd', hi'⟩ := ih (before + d.capacity) b' i hi
      ⟨d', List.mem_cons_of_mem _ hd', hi'⟩
    by_cases hhere : b.bio.biSector < before + d.capacity
    · by_cases hfit : b.bio.endSector ≤ before + d.capacity
      · rw [(loop_whole rest hhere hfit).2]
        rintro i hi
        obtain rfl := List.mem_singleton.mp hi
        exact ⟨d, List.mem_cons_self, rfl⟩
      · have hsplit := loop_split rest hhere (UInt64.not_le.mp hfit)
        cases hs : bioSplit b.bio (toInt (before + d.capacity)) with
        | none =>
          rw [← devEnd_eq] at hhere hfit hs
          rw [List.map_cons, submitLoop, if_neg (UInt64.not_le.mpr hhere), if_pos hhere,
            if_pos (UInt64.not_le.mp hfit), hs]
          exact fun i hi => absurd hi List.not_mem_nil
        | some p =>
          rw [(hsplit.2 p.1 p.2 hs).2]
          intro i hi
          rcases List.mem_cons.mp hi with rfl | hi
          · exact ⟨d, List.mem_cons_self, rfl⟩
          · exact hrest _ i hi
    · rw [(loop_skip rest hhere).2]
      exact hrest b

/-! ## One call -/

/-- The guard fails the request, or the loop runs. -/
theorem deviceMakeRequest_cases (members : List BlockDevice) (bio : Bio α) :
    (512 * (sizes members).sum % 2 ^ 32 < bio.endByte % 2 ^ 64 ∧
        deviceMakeRequest (initRoot members) bio = [.ioError bio]) ∨
      ¬ 512 * (sizes members).sum % 2 ^ 32 < bio.endByte % 2 ^ 64 ∧
        deviceMakeRequest (initRoot members) bio = routeLoop (members.map devListOf) 0 bio ∧
        deviceSubmits (initRoot members) bio =
          submitLoop (members.map devListOf) 0 ⟨bio, true⟩ := by
  have hguard : bio.biSector * DEVICE_SECTOR_SIZE + bio.biSize.toUInt64 >
      (initRoot members).totalSize.toUInt64 ↔
        512 * (sizes members).sum % 2 ^ 32 < bio.endByte % 2 ^ 64 := by
    rw [gt_iff_lt, UInt64.lt_iff_toNat_lt, guard_toNat, UInt32.toNat_toUInt64, totalSize_toNat]
  unfold deviceMakeRequest deviceSubmits
  by_cases hg : 512 * (sizes members).sum % 2 ^ 32 < bio.endByte % 2 ^ 64
  · exact Or.inl ⟨hg, if_pos (hguard.mpr hg)⟩
  · rw [if_neg (hguard.not.mpr hg), if_neg (hguard.not.mpr hg)]
    exact Or.inr ⟨hg, rfl, rfl⟩

/-- A request the guard lets through is submitted whole exactly when it lands. -/
theorem submitted_iff {members : List BlockDevice} {bio : Bio α}
    (hacts : deviceMakeRequest (initRoot members) bio = routeLoop (members.map devListOf) 0 bio)
    (hsubs : deviceSubmits (initRoot members) bio =
      submitLoop (members.map devListOf) 0 ⟨bio, true⟩) :
    Submitted members bio ↔ Lands bio.biSector bio.sectors (bio.ahead members) := by
  have hfrag := deviceSubmits_bios (initRoot members) bio
  have hsectors : ((fragments (deviceMakeRequest (initRoot members) bio)).map
      fun f => f.sectors.toNat).sum = sectorsOf (deviceSubmits (initRoot members) bio) := by
    rw [← hfrag, List.map_map]
    rfl
  rw [hsubs] at hsectors
  constructor
  · intro h
    by_contra hno
    rcases not_lands members 0 (⟨bio, true⟩ : Issued α) hno with hb | hnil | hlt
    · exact h.noBug (by rwa [hacts])
    · have hself := h.itself
      rw [endIos, hsubs, hnil] at hself
      cases hself
    · rw [← hsectors, h.sectors] at hlt
      exact Nat.lt_irrefl _ hlt
  · intro h
    obtain ⟨hno, hself, hsec, hdata⟩ := lands_passed members 0 (⟨bio, true⟩ : Issued α) h
    refine ⟨by rwa [hacts], ?_, ?_, ?_, ?_, ?_⟩
    · rw [hacts]
      exact fun b => ioError_not_mem_routeLoop b _ _ _
    · rw [← hfrag, hsubs]
      intro f hf
      obtain ⟨i, hi, rfl⟩ := List.mem_map.mp hf
      exact submitLoop_target members 0 _ i hi
    · rw [endIos, hsubs]
      exact hself
    · rw [hsectors]
      exact hsec
    · rw [← hfrag, hsubs, List.flatMap_map]
      exact hdata

/-- **What settles a request.** For every member list and every bio, one call fails the bio and
submits nothing, or submits every sector of it and the bio itself once, exactly when the guard
fails it or it lands. -/
theorem routing_settles_iff (members : List BlockDevice) (bio : Bio α) :
    Settled members bio ↔
      512 * (sizes members).sum % 2 ^ 32 < bio.endByte % 2 ^ 64 ∨
        Lands bio.biSector bio.sectors (bio.ahead members) := by
  rcases deviceMakeRequest_cases members bio with ⟨hg, hfail⟩ | ⟨hg, hacts, hsubs⟩
  · exact iff_of_true (Or.inl hfail) (Or.inl hg)
  · rw [or_iff_right hg, ← submitted_iff hacts hsubs, Settled, or_iff_right]
    intro hfail
    have hmem : Action.ioError bio ∈ routeLoop (members.map devListOf) 0 bio := by
      rw [← hacts, hfail]
      exact List.mem_singleton.mpr rfl
    exact ioError_not_mem_routeLoop bio _ _ _ hmem

/-- An empty request at the end of the disk passes the guard and the loop runs out of members:
nothing is called. -/
theorem routing_settles_end :
    deviceMakeRequest (initRoot twoMembers) (⟨16, 0, none, []⟩ : Bio Nat) = [] ∧
      ¬ Settled twoMembers (⟨16, 0, none, []⟩ : Bio Nat) := by
  have hnone : deviceMakeRequest (initRoot twoMembers) (⟨16, 0, none, []⟩ : Bio Nat) = [] := by
    decide
  refine ⟨hnone, fun h => ?_⟩
  rcases h with hfail | hsub
  · rw [hnone] at hfail
    cases hfail
  · exact absurd hsub.itself (by decide)

end JcmController.Disk
