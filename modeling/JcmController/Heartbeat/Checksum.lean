import JcmController.Heartbeat.Ping
import JcmController.Lib.OnesComplement

/-!
# The ICMP checksum (`in_cksum`, `send_icmp`)

`sum` is an `int`, so an addition that leaves its range has no defined result: `none`. `sum >> 16`
and `sum & 0xffff` are the quotient and the remainder, rounded down. A `u_short` is two bytes, the
low one first.

Results:
* `sumWords_eq`: the loop adds the words, and does not overflow up to 65536 bytes.
* `inCksum_eq`: two folds are enough for every carry.
* **`cksum_exact`**: the checksum is the complement of the one's-complement sum, a packet with its
  checksum in place has checksum 0, and so has every echo request.
-/

namespace JcmController.Heartbeat

open JcmController.Lib

/-! ## `in_cksum` -/

/-- `a + b` of two `int`s. -/
def addInt (a b : Int) : Option Int :=
  if -2 ^ 31 ≤ a + b ∧ a + b < 2 ^ 31 then some (a + b) else none

/-- A `u_short` in memory, read. -/
def shortAt (lo hi : UInt8) : Nat := lo.toNat + 256 * hi.toNat

/-- A `u_short` in memory, written. -/
def shortBytes (n : Nat) : Bytes := [UInt8.ofNat n, UInt8.ofNat (n / 256)]

/-- The loop over the words, and the odd byte behind them. -/
def sumWords : Bytes → Int → Option Int
  | [], sum => some sum
  | [b], sum => addInt sum b.toNat
  | lo :: hi :: rest, sum => (addInt sum (shortAt lo hi)).bind (sumWords rest)

/-- `in_cksum(addr, len)` -/
def inCksum (addr : Bytes) : Option Nat :=
  (sumWords addr 0).bind fun sum =>
    (addInt (sum / 2 ^ 16) (sum % 2 ^ 16)).bind fun sum =>
      -- the low 16 bits of ~sum
      (addInt sum (sum / 2 ^ 16)).map fun sum => ushort (-sum - 1)

/-! ## `send_icmp` -/

/-- `ICMP_ECHO` -/
def ICMP_ECHO : UInt8 := 8

/-- `htons` of an `int`, in memory. -/
def htonsBytes (x : Int) : Bytes := [UInt8.ofNat (ushort x / 256), UInt8.ofNat (ushort x)]

/-- `struct icmp` with this `icmp_cksum`; what is not set is zero. -/
def icmpHeader (id seqn : Int) (cksum : Bytes) : Bytes :=
  [ICMP_ECHO, 0] ++ cksum ++ htonsBytes id ++ htonsBytes seqn ++ List.replicate 20 0

/-- What `send_icmp` gives to `sendto`, `data` having room in `buff`. -/
def echoRequest (id seqn : Int) (data : Bytes) : Option Bytes :=
  if 28 + data.length ≤ 1024 then
    (inCksum (icmpHeader id seqn [0, 0] ++ data)).map fun c =>
      icmpHeader id seqn (shortBytes c) ++ data
  else none

/-! ## What it computes -/

/-- The words of a byte sequence; an odd byte at the end is the low byte of one. -/
def shorts : Bytes → List Nat
  | [] => []
  | [b] => [b.toNat]
  | lo :: hi :: rest => shortAt lo hi :: shorts rest

theorem shortAt_le (lo hi : UInt8) : shortAt lo hi ≤ 65535 := by
  have hlo := lo.toNat_lt
  have hhi := hi.toNat_lt
  unfold shortAt
  omega

theorem shorts_le : ∀ addr : Bytes, ∀ w ∈ shorts addr, w ≤ 65535
  | [] => fun _ hw => absurd hw List.not_mem_nil
  | [b] => by
    have hb := b.toNat_lt
    refine List.forall_mem_singleton.mpr ?_
    omega
  | lo :: hi :: rest => List.forall_mem_cons.mpr ⟨shortAt_le lo hi, shorts_le rest⟩

/-- The sum of the words, against the number of bytes. -/
theorem two_mul_sum_le : ∀ addr : Bytes, 2 * (shorts addr).sum ≤ 65535 * addr.length
  | [] => Nat.zero_le _
  | [b] => by
    have hb := b.toNat_lt
    simp only [shorts, List.sum_singleton, List.length_singleton]
    omega
  | lo :: hi :: rest => by
    have hw := shortAt_le lo hi
    have ih := two_mul_sum_le rest
    simp only [shorts, List.sum_cons, List.length_cons]
    omega

theorem addInt_natCast {a b : Nat} (h : a + b < 2 ^ 31) :
    addInt (a : Int) (b : Int) = some ((a + b : Nat) : Int) := by
  unfold addInt
  rw [if_pos (by omega), Nat.cast_add]

/-- **The loop adds the words**, as long as their sum fits an `int`. -/
theorem sumWords_eq :
    ∀ (addr : Bytes) (n : Nat), n + (shorts addr).sum < 2 ^ 31 →
      sumWords addr n = some ((n + (shorts addr).sum : Nat) : Int)
  | [], n, _ => rfl
  | [b], n, h => by
    simp only [shorts, List.sum_singleton] at h ⊢
    exact addInt_natCast h
  | lo :: hi :: rest, n, h => by
    simp only [shorts, List.sum_cons] at h ⊢
    have hstep : n + shortAt lo hi + (shorts rest).sum < 2 ^ 31 := by omega
    rw [sumWords, addInt_natCast (by omega), Option.bind_some,
      sumWords_eq rest (n + shortAt lo hi) hstep, Nat.add_assoc]

/-- The low 16 bits of `~sum`. -/
theorem ushort_not (n : Nat) : ushort (-(n : Int) - 1) = 65535 - n % 65536 := by
  unfold ushort
  omega

/-- **Two folds are enough**: after the first one a carry of at most 1 is left. -/
theorem ushort_folds {n : Nat} (hn : n < 2 ^ 31) :
    65535 - (n / 65536 + n % 65536 + (n / 65536 + n % 65536) / 65536) % 65536 =
      65535 - OnesComplement.reduce 65535 n := by
  have hfold := OnesComplement.reduce_fold (m := 65535) n
  simp only [Nat.reduceAdd] at hfold
  have hbound : n / 65536 + n % 65536 < 2 * 65535 + 1 := by omega
  rw [← hfold]
  generalize n / 65536 + n % 65536 = s at hbound ⊢
  by_cases hs : s ≤ 65535
  · rw [OnesComplement.reduce_of_le hs]
    omega
  · have hsplit : s = s - 65535 + 65535 := by omega
    have hle : s - 65535 ≤ 65535 := by omega
    have hred : OnesComplement.reduce 65535 s = s - 65535 := by
      rw [hsplit, OnesComplement.reduce_add_self (by omega), OnesComplement.reduce_of_le hle,
        Nat.add_sub_cancel]
    rw [hred]
    omega

/-- **The checksum** of up to 65536 bytes. -/
theorem inCksum_eq {addr : Bytes} (h : addr.length ≤ 65536) :
    inCksum addr = some (65535 - OnesComplement.reduce 65535 (shorts addr).sum) := by
  have hsum := two_mul_sum_le addr
  have hlt : (shorts addr).sum < 2 ^ 31 := by omega
  have hloop := sumWords_eq addr 0 (by omega)
  rw [Nat.zero_add, Nat.cast_zero] at hloop
  generalize (shorts addr).sum = n at hlt hloop ⊢
  have hquot : ∀ k : Nat, (k : Int) / 2 ^ 16 = ((k / 65536 : Nat) : Int) := fun k => by omega
  have hrem : ∀ k : Nat, (k : Int) % 2 ^ 16 = ((k % 65536 : Nat) : Int) := fun k => by omega
  rw [inCksum, hloop, Option.bind_some, hquot, hrem, addInt_natCast (by omega), Option.bind_some,
    hquot, addInt_natCast (by omega), Option.map_some, ushort_not, ushort_folds hlt]

/-! ## A packet with its checksum -/

theorem shorts_append : ∀ {pre : Bytes}, pre.length % 2 = 0 → ∀ post : Bytes,
    shorts (pre ++ post) = shorts pre ++ shorts post
  | [], _, _ => rfl
  | [_], h, _ => by
    rw [List.length_singleton] at h
    omega
  | lo :: hi :: rest, h, post => by
    have hrest : rest.length % 2 = 0 := by
      simp only [List.length_cons] at h
      omega
    exact congrArg (shortAt lo hi :: ·) (shorts_append hrest post)

/-- A word in memory is read as it was written. -/
theorem shorts_shortBytes {n : Nat} (h : n ≤ 65535) : shorts (shortBytes n) = [n] := by
  unfold shortBytes shorts shorts shortAt
  rw [UInt8.toNat_ofNat', UInt8.toNat_ofNat']
  refine congrArg (fun w => [w]) ?_
  omega

theorem shortBytes_zero : shortBytes 0 = [0, 0] := rfl

/-- The sum of the words of a packet with this word in one place. -/
theorem sum_with_field {pre post : Bytes} (hpre : pre.length % 2 = 0) {n : Nat} (hn : n ≤ 65535) :
    (shorts (pre ++ shortBytes n ++ post)).sum = (shorts (pre ++ [0, 0] ++ post)).sum + n := by
  have hfield : ∀ k ≤ 65535, (shorts (pre ++ shortBytes k ++ post)).sum =
      (shorts pre).sum + k + (shorts post).sum := by
    intro k hk
    have heven : (pre ++ shortBytes k).length % 2 = 0 := by
      rw [List.length_append, shortBytes, List.length_cons, List.length_singleton]
      omega
    rw [shorts_append heven, shorts_append hpre, shorts_shortBytes hk, List.sum_append,
      List.sum_append, List.sum_singleton]
  rw [hfield n hn, ← shortBytes_zero, hfield 0 (Nat.zero_le _)]
  omega

/-- **A packet with its checksum in place has checksum 0.** -/
theorem inCksum_verifies {pre post : Bytes} (hpre : pre.length % 2 = 0)
    (hlen : (pre ++ [0, 0] ++ post).length ≤ 65536) :
    ∃ c, inCksum (pre ++ [0, 0] ++ post) = some c ∧
      inCksum (pre ++ shortBytes c ++ post) = some 0 := by
  refine ⟨_, inCksum_eq hlen, ?_⟩
  rw [inCksum_eq (by simpa [shortBytes] using hlen), sum_with_field hpre (Nat.sub_le _ _),
    OnesComplement.reduce_add_not (by decide), Nat.sub_self]

theorem icmpHeader_append (id seqn : Int) (cksum data : Bytes) :
    icmpHeader id seqn cksum ++ data = [ICMP_ECHO, 0] ++ cksum ++
      (htonsBytes id ++ htonsBytes seqn ++ List.replicate 20 0 ++ data) := by
  simp only [icmpHeader, List.append_assoc]

/-- **The checksum is correct and verifies itself.** Up to 65536 bytes it does not overflow and is
the complement of the one's-complement sum of the words; stored in a zeroed field at an even offset
it makes the checksum 0; and so every echo request verifies. -/
theorem cksum_exact :
    (∀ addr : Bytes, addr.length ≤ 65536 →
      inCksum addr = some (65535 - OnesComplement.sum 65535 (shorts addr))) ∧
    (∀ pre post : Bytes, pre.length % 2 = 0 → (pre ++ [0, 0] ++ post).length ≤ 65536 →
      ∃ c, inCksum (pre ++ [0, 0] ++ post) = some c ∧
        inCksum (pre ++ shortBytes c ++ post) = some 0) ∧
    ∀ (id seqn : Int) (data : Bytes), 28 + data.length ≤ 1024 →
      ∃ packet, echoRequest id seqn data = some packet ∧ inCksum packet = some 0 := by
  refine ⟨fun addr h => ?_, fun pre post => inCksum_verifies, fun id seqn data h => ?_⟩
  · rw [inCksum_eq h, OnesComplement.sum_eq (by decide) (shorts_le addr)]
  · have hlen : ([ICMP_ECHO, 0] ++ [0, 0] ++ (htonsBytes id ++ htonsBytes seqn ++
        List.replicate 20 0 ++ data)).length ≤ 65536 := by
      simp only [List.length_append, List.length_replicate, htonsBytes, List.length_cons,
        List.length_nil]
      omega
    obtain ⟨c, hc, hzero⟩ := inCksum_verifies (rfl : ([ICMP_ECHO, 0] : Bytes).length % 2 = 0) hlen
    refine ⟨icmpHeader id seqn (shortBytes c) ++ data, ?_, ?_⟩
    · rw [echoRequest, if_pos h, icmpHeader_append, hc, Option.map_some]
    · rw [icmpHeader_append, hzero]

example : inCksum [1, 2, 3] = some 65019 := by decide

end JcmController.Heartbeat
