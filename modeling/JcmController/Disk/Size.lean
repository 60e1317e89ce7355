import JcmController.Disk.Routing

/-!
# Size arithmetic of the virtual disk

`device_init` adds the member sizes in an `unsigned int` and `device_make_request` computes the
end of a request in 64 bits.

* `rejects_iff`: a request is failed exactly when its end modulo 2^64 is past `total_size`.
* `capacity_eq_sum_iff`: the published capacity is the sum of the members exactly below 2^23
  sectors (4 GiB).
* `size_arithmetic_exact_iff`: capacity and rejection are both exact iff the sum is below 2^23
  sectors and the request's end does not wrap back into the disk.
-/

namespace JcmController.Disk

open JcmController.Lib.Concat

variable {α : Type}

/-- The call failed the request with `bio_io_error`. -/
def Rejects (root : RootDevice) (bio : Bio α) : Prop :=
  Action.ioError bio ∈ deviceMakeRequest root bio

/-- The loop never fails a bio. -/
theorem ioError_not_mem_routeLoop (b : Bio α) (members : List DevList) (before : UInt64)
    (bio : Bio α) : Action.ioError b ∉ routeLoop members before bio := by
  fun_induction routeLoop members before bio <;> simp_all

theorem rejects_iff (members : List BlockDevice) (bio : Bio α) :
    Rejects (initRoot members) bio ↔
      512 * (sizes members).sum % 2 ^ 32 < bio.endByte % 2 ^ 64 := by
  rw [← totalSize_toNat, ← guard_toNat, ← UInt32.toNat_toUInt64, ← UInt64.lt_iff_toNat_lt]
  unfold Rejects deviceMakeRequest
  split
  · rename_i h
    exact ⟨fun _ => h, fun _ => List.mem_singleton.mpr rfl⟩
  · rename_i h
    exact ⟨fun hm => absurd hm (ioError_not_mem_routeLoop _ _ _ _), fun h' => absurd h' h⟩

theorem capacity_eq_sum_iff (members : List BlockDevice) :
    (initRoot members).capacity.toNat = (sizes members).sum ↔ (sizes members).sum < 2 ^ 23 := by
  rw [capacity_toNat]
  constructor
  · intro h
    omega
  · intro h
    rw [Nat.mod_eq_of_lt (by omega), Nat.mul_div_cancel_left _ (by decide)]

/-- **The size arithmetic is exact iff** the members sum to less than 2^23 sectors and the
request's end does not wrap past 2^64 back into the disk. -/
theorem size_arithmetic_exact_iff (members : List BlockDevice) (bio : Bio α) :
    ((initRoot members).capacity.toNat = (sizes members).sum ∧
        (Rejects (initRoot members) bio ↔ 512 * (sizes members).sum < bio.endByte)) ↔
      (sizes members).sum < 2 ^ 23 ∧
        (bio.endByte < 2 ^ 64 ∨ 512 * (sizes members).sum < bio.endByte % 2 ^ 64) := by
  rw [capacity_eq_sum_iff, rejects_iff]
  refine and_congr_right fun h => ?_
  have hmod : 512 * (sizes members).sum % 2 ^ 32 = 512 * (sizes members).sum :=
    Nat.mod_eq_of_lt (by omega)
  rw [hmod]
  constructor
  · intro hiff
    by_cases hwrap : bio.endByte < 2 ^ 64
    · exact Or.inl hwrap
    · exact Or.inr (hiff.mpr (by omega))
  · rintro (hlt | hlt)
    · rw [Nat.mod_eq_of_lt hlt]
    · exact ⟨fun _ => by omega, fun _ => hlt⟩

/-- One member of 4 GiB publishes capacity 0; and on a disk of 8 sectors a request at sector
2^55 is not failed. -/
theorem size_arithmetic_wraps :
    (initRoot [⟨0, 8388608⟩]).capacity.toNat ≠ (sizes [⟨0, 8388608⟩]).sum ∧
      512 * (sizes [⟨0, 8⟩]).sum < (⟨36028797018963968, 512, none, [7]⟩ : Bio Nat).endByte ∧
      ¬ Rejects (initRoot [⟨0, 8⟩]) (⟨36028797018963968, 512, none, [7]⟩ : Bio Nat) := by
  refine ⟨by decide, by decide, ?_⟩
  unfold Rejects
  decide

end JcmController.Disk
