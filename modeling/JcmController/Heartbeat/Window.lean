import JcmController.Heartbeat.PingExact
import JcmController.Lib.Narrow
import Mathlib.Algebra.Order.Ring.Abs

/-!
# The window of the gateway ping (`tsdiff_in_bounds`)

Two timestamps are `long`s of seconds and nanoseconds. The milliseconds between them are computed as
a `long`, stored in an `int`, made positive there, and compared as an `unsigned long`.

* `Lp64.tsdiffInBounds` has the source's types; `lp64_tsdiffInBounds` says that it computes what
  `tsdiffInBounds` does. An overflow wraps in both.
* `elapsed`: the exact difference, in nanoseconds.
* `FitsInt`: its milliseconds are no more than an `int` holds.

Results:
* `fitsInt_iff`: that is when nothing is lost in the store.
* **`tsdiff_exact_iff`**: what is stored is the difference, up to a millisecond, exactly as long as
  it fits.
* `days_apart_inside`: 50 days that count as 704 milliseconds, and 25 that count as negative.
* `recvIcmp_window`: a call of `recv_icmp` is left by the clock when the wait is over.
* `punctual_of_readings`: an attempt is punctual whose reply comes in in time after readings that
  are, or late after one that is late.
-/

namespace JcmController.Heartbeat

open JcmController.Lib JcmController.Lib.Narrow

/-! ## The types of the source -/

namespace Lp64

/-- `struct timespec` -/
structure Timespec where
  tvSec : Int64
  tvNsec : Int64

/-- Its numbers. -/
def Timespec.read (ts : Timespec) : Heartbeat.Timespec := ⟨ts.tvSec.toInt, ts.tvNsec.toInt⟩

/-- `tsdiff_in_bounds`: what it stores in `*diff`, and what it returns. -/
def tsdiffInBounds (ts1 ts2 : Timespec) (bounds : UInt64) : Int32 × Bool :=
  let d := ((ts2.tvSec - ts1.tvSec) * 1000 + (ts2.tvNsec - ts1.tvNsec) / 1000000).toInt32
  let diff := if d < 0 then -d else d
  (diff, decide (diff.toInt64.toUInt64 < bounds))

end Lp64

/-- `0 <= tv_nsec < 1000000000` -/
structure Timespec.Normalised (ts : Timespec) : Prop where
  nonneg : 0 ≤ ts.nsec
  lt : ts.nsec < 1000000000

/-- The milliseconds from `ts1` to `ts2` as they are computed, before the store. -/
def millis (ts1 ts2 : Timespec) : Int :=
  (ts2.sec - ts1.sec) * 1000 + (ts2.nsec - ts1.nsec).tdiv 1000000

theorem toNat_toUInt64 (x : Int64) : (x.toUInt64.toNat : Int) = ulong x.toInt := by
  have hbits : x.toInt = Int.bmod x.toUInt64.toNat (2 ^ 64) := BitVec.toInt_eq_toNat_bmod _
  have hlt := x.toUInt64.toNat_lt
  rw [hbits, ulong]
  show _ = Int.bmod x.toUInt64.toNat (2 ^ 64) % (2 ^ 64 : Nat)
  rw [Int.bmod_emod]
  omega

theorem toNat_ofInt (x : Int) : ((UInt64.ofInt x).toNat : Int) = ulong x := by
  have hlt := Int.emod_lt_of_pos x (b := 2 ^ 64) (by decide)
  have hle := Int.emod_nonneg x (b := 2 ^ 64) (by decide)
  rw [UInt64.ofInt, UInt64.toNat_ofNat', Nat.mod_eq_of_lt (by omega), Int.toNat_of_nonneg hle,
    ulong]

/-- The milliseconds as they are stored: what a `long` loses an `int` loses as well. -/
theorem toInt_millis {ts1 ts2 : Lp64.Timespec} (h₁ : ts1.read.Normalised)
    (h₂ : ts2.read.Normalised) :
    ((ts2.tvSec - ts1.tvSec) * 1000 + (ts2.tvNsec - ts1.tvNsec) / 1000000).toInt32.toInt =
      int32 (millis ts1.read ts2.read) := by
  have hnsec : (ts2.tvNsec - ts1.tvNsec).toInt = ts2.tvNsec.toInt - ts1.tvNsec.toInt := by
    obtain ⟨hnonneg₁ : 0 ≤ ts1.tvNsec.toInt, hlt₁ : ts1.tvNsec.toInt < 1000000000⟩ := h₁
    obtain ⟨hnonneg₂ : 0 ≤ ts2.tvNsec.toInt, hlt₂ : ts2.tvNsec.toInt < 1000000000⟩ := h₂
    rw [Int64.toInt_sub]
    exact Int.bmod_eq_of_le (by omega) (by omega)
  have hthousand : (1000 : Int64).toInt = 1000 := rfl
  have hmillion : (1000000 : Int64).toInt = 1000000 := rfl
  rw [Int64.toInt_toInt32, Int64.toInt_add, Int64.toInt_mul, Int64.toInt_sub,
    Int64.toInt_div_of_ne_right _ _ (by decide), hnsec, hthousand, hmillion, Int.bmod_mul_bmod,
    Int.bmod_add_bmod, Int.bmod_bmod_of_dvd (by decide)]
  rfl

/-- **The types of the source** come to the same as their numbers. -/
theorem lp64_tsdiffInBounds {ts1 ts2 : Lp64.Timespec} (h₁ : ts1.read.Normalised)
    (h₂ : ts2.read.Normalised) (bounds : UInt64) :
    tsdiffInBounds ts1.read ts2.read bounds =
      ((Lp64.tsdiffInBounds ts1 ts2 bounds).1.toInt, (Lp64.tsdiffInBounds ts1 ts2 bounds).2) := by
  have hdiff : (tsdiffInBounds ts1.read ts2.read bounds).1 =
      (Lp64.tsdiffInBounds ts1 ts2 bounds).1.toInt := by
    have hmillis := toInt_millis h₁ h₂
    unfold millis at hmillis
    unfold tsdiffInBounds Lp64.tsdiffInBounds
    generalize Int64.toInt32 _ = d at hmillis ⊢
    simp only [← hmillis]
    have hneg : d < 0 ↔ d.toInt < 0 := Int32.lt_iff_toInt_lt
    by_cases h : d < 0
    · rw [if_pos h, if_pos (hneg.mp h), Int32.toInt_neg]
      rfl
    · rw [if_neg h, if_neg (mt hneg.mpr h)]
  have hinside : (tsdiffInBounds ts1.read ts2.read bounds).2 =
      (Lp64.tsdiffInBounds ts1 ts2 bounds).2 := by
    have hulong := toNat_toUInt64 (Lp64.tsdiffInBounds ts1 ts2 bounds).1.toInt64
    rw [Int32.toInt_toInt64, ← hdiff] at hulong
    show decide (ulong (tsdiffInBounds ts1.read ts2.read bounds).1 < bounds.toNat) =
      decide ((Lp64.tsdiffInBounds ts1 ts2 bounds).1.toInt64.toUInt64 < bounds)
    rw [← hulong, decide_eq_decide, UInt64.lt_iff_toNat_lt, Int.ofNat_lt]
  rw [← hdiff, ← hinside]

/-! ## The exact difference -/

/-- The time from `ts1` to `ts2`, in nanoseconds. -/
def elapsed (ts1 ts2 : Timespec) : Int :=
  (ts2.sec - ts1.sec) * 1000000000 + (ts2.nsec - ts1.nsec)

/-- The seconds and the nanoseconds from `ts1` to `ts2` do not go in opposite directions. -/
def SameDirection (ts1 ts2 : Timespec) : Prop :=
  ts1.sec ≤ ts2.sec ∧ ts1.nsec ≤ ts2.nsec ∨ ts2.sec ≤ ts1.sec ∧ ts2.nsec ≤ ts1.nsec

/-- The timestamps are not further apart than an `int` of milliseconds reaches. The last part of a
millisecond is cut off only where seconds and nanoseconds go in one direction. -/
def FitsInt (ts1 ts2 : Timespec) : Prop :=
  |elapsed ts1 ts2| ≤ (2 ^ 31 - 1) * 1000000 ∨
    |elapsed ts1 ts2| < 2 ^ 31 * 1000000 ∧ SameDirection ts1 ts2

instance (ts1 ts2 : Timespec) : Decidable (FitsInt ts1 ts2) :=
  inferInstanceAs (Decidable (_ ∨ _ ∧ (_ ∧ _ ∨ _ ∧ _)))

/-- The milliseconds that are computed are off by less than one. -/
theorem abs_millis_sub_lt (ts1 ts2 : Timespec) :
    |1000000 * millis ts1 ts2 - elapsed ts1 ts2| < 1000000 := by
  have hcut := abs_mul_tdiv_sub_lt (ts2.nsec - ts1.nsec) (b := 1000000) (by decide)
  have hsub : 1000000 * millis ts1 ts2 - elapsed ts1 ts2 =
      1000000 * (ts2.nsec - ts1.nsec).tdiv 1000000 - (ts2.nsec - ts1.nsec) := by
    unfold millis elapsed
    omega
  rw [hsub]
  exact hcut

theorem abs_abs_millis_sub_lt (ts1 ts2 : Timespec) :
    |(1000000 * |millis ts1 ts2| - |elapsed ts1 ts2|)| < 1000000 := by
  have habs : 1000000 * |millis ts1 ts2| = |1000000 * millis ts1 ts2| := by
    rw [abs_mul, abs_of_pos (by decide : (0 : Int) < 1000000)]
  rw [habs]
  exact (abs_abs_sub_abs_le _ _).trans_lt (abs_millis_sub_lt ts1 ts2)

/-- **Nothing is lost in the store** when the difference fits. -/
theorem fitsInt_iff {ts1 ts2 : Timespec} (h₁ : ts1.Normalised) (h₂ : ts2.Normalised) :
    FitsInt ts1 ts2 ↔ |millis ts1 ts2| < 2 ^ 31 := by
  obtain ⟨hnonneg₁, hlt₁⟩ := h₁
  obtain ⟨hnonneg₂, hlt₂⟩ := h₂
  unfold FitsInt SameDirection millis elapsed
  generalize hn : ts2.nsec - ts1.nsec = n
  have hback := Int.mul_tdiv_add_tmod n 1000000
  have hup : 0 ≤ n → 0 ≤ n.tmod 1000000 := Int.tmod_nonneg 1000000
  have hdown : 0 ≤ -n → 0 ≤ -n.tmod 1000000 := fun h => Int.neg_tmod n _ ▸ Int.tmod_nonneg _ h
  have hlt := Int.tmod_lt_of_pos n (b := 1000000) (by decide)
  have hlt' := Int.tmod_lt_of_pos (-n) (b := 1000000) (by decide)
  rw [Int.neg_tmod] at hlt'
  rw [abs_le, abs_lt, abs_lt]
  omega

/-! ## What is stored, and returned -/

/-- The test is symmetric, what it stores is the difference up to a millisecond, and what it returns
is how that compares. -/
structure DiffExact (ts1 ts2 : Timespec) (bounds : UInt64) : Prop where
  symm : tsdiffInBounds ts1 ts2 bounds = tsdiffInBounds ts2 ts1 bounds
  nonneg : 0 ≤ (tsdiffInBounds ts1 ts2 bounds).1
  near : |(1000000 * (tsdiffInBounds ts1 ts2 bounds).1 - |elapsed ts1 ts2|)| ≤ 1000000
  inside : (tsdiffInBounds ts1 ts2 bounds).2 = true ↔
    (tsdiffInBounds ts1 ts2 bounds).1 < bounds.toNat

theorem tsdiffInBounds_fst (ts1 ts2 : Timespec) (bounds : UInt64) :
    (tsdiffInBounds ts1 ts2 bounds).1 = magnitude (2 ^ 31) (millis ts1 ts2) := by
  unfold tsdiffInBounds magnitude millis
  rfl

theorem tsdiffInBounds_snd (ts1 ts2 : Timespec) (bounds : UInt64) :
    (tsdiffInBounds ts1 ts2 bounds).2 = true ↔
      ulong (tsdiffInBounds ts1 ts2 bounds).1 < bounds.toNat := decide_eq_true_iff

/-- The order of the timestamps never matters. -/
theorem tsdiffInBounds_comm (ts1 ts2 : Timespec) (bounds : UInt64) :
    tsdiffInBounds ts1 ts2 bounds = tsdiffInBounds ts2 ts1 bounds := by
  have hneg : millis ts2 ts1 = -millis ts1 ts2 := by
    unfold millis
    rw [← neg_sub ts2.nsec ts1.nsec, Int.neg_tdiv]
    omega
  have hfst : (tsdiffInBounds ts1 ts2 bounds).1 = (tsdiffInBounds ts2 ts1 bounds).1 := by
    rw [tsdiffInBounds_fst, tsdiffInBounds_fst, hneg, magnitude_neg (by decide)]
  refine Prod.ext hfst (Bool.eq_iff_iff.mpr ?_)
  rw [tsdiffInBounds_snd, tsdiffInBounds_snd, hfst]

/-- A difference that is not negative is compared as it is. -/
theorem tsdiffInBounds_inside {ts1 ts2 : Timespec} {bounds : UInt64}
    (h : 0 ≤ (tsdiffInBounds ts1 ts2 bounds).1) :
    (tsdiffInBounds ts1 ts2 bounds).2 = true ↔
      (tsdiffInBounds ts1 ts2 bounds).1 < bounds.toNat := by
  have hlt := magnitude_lt (m := 2 ^ 31) (by decide) (millis ts1 ts2)
  rw [← tsdiffInBounds_fst ts1 ts2 bounds] at hlt
  rw [tsdiffInBounds_snd, ulong, Int.emod_eq_of_lt h (by omega)]

theorem diffExact_of_lt {ts1 ts2 : Timespec} (h : |millis ts1 ts2| < 2 ^ 31) (bounds : UInt64) :
    DiffExact ts1 ts2 bounds := by
  have hfst : (tsdiffInBounds ts1 ts2 bounds).1 = |millis ts1 ts2| := by
    rw [tsdiffInBounds_fst]
    exact magnitude_eq_abs (by exact_mod_cast h)
  have hnonneg : 0 ≤ (tsdiffInBounds ts1 ts2 bounds).1 := by
    rw [hfst]
    exact abs_nonneg _
  refine ⟨tsdiffInBounds_comm ts1 ts2 bounds, hnonneg, ?_, tsdiffInBounds_inside hnonneg⟩
  rw [hfst]
  exact (abs_abs_millis_sub_lt ts1 ts2).le

/-- What does not fit is negative, or at least two milliseconds short of what was computed. -/
theorem lt_of_diffExact {ts1 ts2 : Timespec} {bounds : UInt64} (h : DiffExact ts1 ts2 bounds) :
    |millis ts1 ts2| < 2 ^ 31 := by
  have hnonneg := h.nonneg
  have hnear := h.near
  have hmillis := abs_abs_millis_sub_lt ts1 ts2
  rw [tsdiffInBounds_fst] at hnonneg hnear
  have hlt := magnitude_lt (m := 2 ^ 31) (by decide) (millis ts1 ts2)
  by_contra hge
  rcases (not_lt.mp hge).eq_or_lt with heq | hgt
  · have hbot := magnitude_bot (m := 2 ^ 31) (by decide) (x := millis ts1 ts2) (by omega)
    omega
  · rw [abs_le] at hnear
    rw [abs_lt] at hmillis
    omega

/-! ## The window -/

/-- A turn of `recv_icmp` at this reading of the clock is the last, whatever comes in: the window is
closed. -/
def GivesUp (start now : Timespec) (wait : Int) : Prop :=
  ∀ (dst : UInt32) (id seqn : Int) (i count : Nat) (got : Option Datagram) (ps : List Poll),
    recvIcmp dst id seqn wait i start count (⟨now, got⟩ :: ps) = (some (-1, count), [])

theorem givesUp_iff {start now : Timespec} {wait : Int} :
    GivesUp start now wait ↔ (tsdiffInBounds start now (UInt64.ofInt wait)).2 ≠ true := by
  constructor
  · intro h hopen
    have hlast := h 0 0 0 0 0 none []
    have hp : (Poll.mk now none).Open start wait := hopen
    rw [recvIcmp_cons_on hp fun ⟨_, hgot, _⟩ => nomatch hgot] at hlast
    cases hlast
  · intro hclosed dst id seqn i count got ps
    have hp : ¬ (Poll.mk now got).Open start wait := hclosed
    exact recvIcmp_cons_closed hp ps

/-- The window is closed when the readings are the wait apart, up to a millisecond. -/
structure WindowExact (start now : Timespec) (wait : Int) : Prop where
  apart : GivesUp start now wait → (wait - 1) * 1000000 ≤ |elapsed start now|
  givesUp : (wait + 1) * 1000000 ≤ |elapsed start now| → GivesUp start now wait

theorem windowExact_iff {start now : Timespec} (h : |millis start now| < 2 ^ 31) (wait : Int32) :
    WindowExact start now wait.toInt ↔ 0 ≤ wait.toInt := by
  have hexact := diffExact_of_lt h (UInt64.ofInt wait.toInt)
  have hnear := abs_le.mp hexact.near
  have hdiff := magnitude_lt (m := 2 ^ 31) (by decide) (millis start now)
  rw [← tsdiffInBounds_fst start now (UInt64.ofInt wait.toInt)] at hdiff
  have hle := wait.le_toInt
  have hlt := wait.toInt_lt
  have hclosed : GivesUp start now wait.toInt ↔
      ¬ (tsdiffInBounds start now (UInt64.ofInt wait.toInt)).1 < wait.toInt % 2 ^ 64 := by
    rw [givesUp_iff, ne_eq, hexact.inside, toNat_ofInt, ulong]
  constructor
  · intro hwindow
    by_contra hneg
    have hgives := hwindow.givesUp (le_trans (by omega) (abs_nonneg _))
    rw [hclosed] at hgives
    omega
  · intro hpos
    rw [Int.emod_eq_of_lt hpos (by omega)] at hclosed
    constructor
    · rw [hclosed]
      omega
    · rw [hclosed]
      omega

/-- **The test of the time window** is exact as long as the difference fits an `int`, whatever the
bound, and with it the window of `recv_icmp`, unless the wait is negative. -/
theorem tsdiff_exact_iff (ts1 ts2 : Timespec) (h₁ : ts1.Normalised) (h₂ : ts2.Normalised)
    (bounds : UInt64) (wait : Int32) :
    (DiffExact ts1 ts2 bounds ↔ FitsInt ts1 ts2) ∧
      (DiffExact ts1 ts2 bounds ∧ WindowExact ts1 ts2 wait.toInt ↔
        FitsInt ts1 ts2 ∧ 0 ≤ wait.toInt) := by
  rw [fitsInt_iff h₁ h₂]
  have hdiff : DiffExact ts1 ts2 bounds ↔ |millis ts1 ts2| < 2 ^ 31 :=
    ⟨lt_of_diffExact, fun h => diffExact_of_lt h bounds⟩
  refine ⟨hdiff, ?_⟩
  rw [hdiff]
  exact and_congr_right fun h => windowExact_iff h wait

/-- Two milliseconds over a change of the second, and a wait of one second. -/
theorem tsdiff_exact_second :
    DiffExact ⟨10, 999000000⟩ ⟨11, 1000000⟩ 1000 ∧
      WindowExact ⟨10, 999000000⟩ ⟨11, 1000000⟩ (1000 : Int32).toInt :=
  (tsdiff_exact_iff ⟨10, 999000000⟩ ⟨11, 1000000⟩ ⟨by decide, by decide⟩ ⟨by decide, by decide⟩
    1000 1000).2.mpr ⟨by decide +kernel, by decide +kernel⟩

/-- The clock is set: 4294968 seconds, 50 days, are 704 milliseconds in an `int`, and the window is
still open. After 2147483.648 seconds, 25 days, the difference is negative. -/
theorem days_apart_inside :
    tsdiffInBounds ⟨0, 0⟩ ⟨4294968, 0⟩ 1000 = (704, true) ∧
      tsdiffInBounds ⟨0, 0⟩ ⟨2147483, 648000000⟩ 1000 = (-2147483648, false) ∧
      ¬ DiffExact ⟨0, 0⟩ ⟨4294968, 0⟩ 1000 ∧ ¬ DiffExact ⟨0, 0⟩ ⟨2147483, 648000000⟩ 1000 ∧
      ¬ WindowExact ⟨0, 0⟩ ⟨4294968, 0⟩ 1000 := by
  have hinside : tsdiffInBounds ⟨0, 0⟩ ⟨4294968, 0⟩ 1000 = (704, true) := by decide +kernel
  have hnegative : tsdiffInBounds ⟨0, 0⟩ ⟨2147483, 648000000⟩ 1000 = (-2147483648, false) := by
    decide +kernel
  refine ⟨hinside, hnegative, fun h => ?_, fun h => ?_, fun h => ?_⟩
  · exact absurd (lt_of_diffExact h) (by decide +kernel)
  · exact absurd (lt_of_diffExact h) (by decide +kernel)
  · refine givesUp_iff.mp (h.givesUp (by decide +kernel)) ?_
    show (tsdiffInBounds ⟨0, 0⟩ ⟨4294968, 0⟩ 1000).2 = true
    rw [hinside]

/-! ## A call -/

section Call

variable {dst : UInt32} {id seqn : Int} {i count : Nat} {start : Timespec} {wait : Int32}

/-- **A whole call**, at readings that are not too far from its start: it gives up at a reading that
is the wait away, and goes on at none that is, up to a millisecond. -/
theorem recvIcmp_window (hstart : start.Normalised) (hwait : 0 ≤ wait.toInt) (polls : List Poll)
    (hnow : ∀ p ∈ polls, p.now.Normalised ∧ FitsInt start p.now) :
    ((recvIcmp dst id seqn wait.toInt i start count polls).1 = some (-1, count) →
        ∃ p ∈ polls, (wait.toInt - 1) * 1000000 ≤ |elapsed start p.now|) ∧
      ((recvIcmp dst id seqn wait.toInt i start count polls).1 = none →
        ∀ p ∈ polls, |elapsed start p.now| < (wait.toInt + 1) * 1000000) := by
  induction polls with
  | nil => exact ⟨(nomatch ·), fun _ _ hp => absurd hp List.not_mem_nil⟩
  | cons p ps ih =>
    obtain ⟨⟨hnorm, hfits⟩, hps⟩ := List.forall_mem_cons.mp hnow
    obtain ⟨ihup, ihon⟩ := ih hps
    have hwindow : WindowExact start p.now wait.toInt :=
      (windowExact_iff ((fitsInt_iff hstart hnorm).mp hfits) wait).mpr hwait
    by_cases hopen : p.Open start wait.toInt
    · have hnot : ¬ GivesUp start p.now wait.toInt := fun h => givesUp_iff.mp h hopen
      by_cases hheard : p.Hears dst id seqn
      · rw [recvIcmp_cons_heard hopen hheard]
        exact ⟨(nomatch ·), (nomatch ·)⟩
      · rw [recvIcmp_cons_on hopen hheard]
        refine ⟨fun h => ?_, fun h => List.forall_mem_cons.mpr ⟨?_, ihon h⟩⟩
        · obtain ⟨p', hp', haway⟩ := ihup h
          exact ⟨p', List.mem_cons_of_mem p hp', haway⟩
        · exact not_le.mp (mt hwindow.givesUp hnot)
    · rw [recvIcmp_cons_closed hopen]
      refine ⟨fun _ => ⟨p, List.mem_cons_self, hwindow.apart (givesUp_iff.mpr hopen)⟩, fun h => ?_⟩
      cases h

/-- **The readings of a punctual attempt**, up to a millisecond: as many as come before the first
reply are inside the wait if the reply is, and one of them is outside if the reply is. -/
theorem punctual_of_readings {pid : Int} {c : Course} (hstart : c.start.Normalised)
    (hwait : 0 ≤ wait.toInt)
    (hnow : ∀ k, (c.poll k).now.Normalised ∧ FitsInt c.start (c.poll k).now)
    (hreply : ∀ k, c.FirstReply pid dst i k →
      c.comesIn k < wait.toInt * 1000000 ∧
          (∀ j ≤ k, |elapsed c.start (c.poll j).now| < (wait.toInt - 1) * 1000000) ∨
        wait.toInt * 1000000 ≤ c.comesIn k ∧
          ∃ j ≤ k, (wait.toInt + 1) * 1000000 ≤ |elapsed c.start (c.poll j).now|) :
    c.Punctual pid dst wait.toInt i := by
  have hwindow : ∀ k, WindowExact c.start (c.poll k).now wait.toInt := fun k =>
    (windowExact_iff ((fitsInt_iff hstart (hnow k).1).mp (hnow k).2) wait).mpr hwait
  intro _ k hk
  rcases hreply k hk with ⟨hin, hinside⟩ | ⟨hlate, j, hj, houtside⟩
  · refine iff_of_true (fun j hj => ?_) hin
    by_contra hclosed
    exact absurd ((hwindow j).apart (givesUp_iff.mpr hclosed)) (not_le.mpr (hinside j hj))
  · refine iff_of_false (fun hopen => ?_) (not_lt.mpr hlate)
    exact givesUp_iff.mp ((hwindow j).givesUp houtside) (hopen j hj)

end Call

end JcmController.Heartbeat
