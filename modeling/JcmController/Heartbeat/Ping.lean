import JcmController.Lib.CString

/-!
# The gateway ping (`tsdiff_in_bounds`, `recv_icmp`, `nu_pinger`)

* `int` and `unsigned long` are `Int` with the wrap written out where it shows: the difference of
  two clock readings is stored in an `int` and compared as an `unsigned long`.
* The buffer of `recvmsg` has 1024 bytes and is zero behind the datagram. The ICMP header stands
  where the datagram's own `ip_hl` says.
* A call learns what the system calls return: `Check`, with one `Attempt` for each echo and one
  `Poll` for each turn of the loop in `recv_icmp`. Where the polls run out the call has not
  returned: `none`.
* `pr_interval` only sets the socket's time limits, so how long a turn takes; it is left out.
* `PingEvent` lists what happened in a call, in order.

Results:
* `recvIcmp_cases`: `recv_icmp` gives up, or has received the reply it waits for.
* **`nuPinger_cases`**: a result that is not negative means an answered echo, or a `socket` that
  failed.
-/

namespace JcmController.Heartbeat

open JcmController.Lib

/-! ## Clock readings -/

/-- The value of an `int` after a store. -/
def int32 (x : Int) : Int := Int.bmod x (2 ^ 32)

/-- The value as an `unsigned long`. -/
def ulong (x : Int) : Int := x % 2 ^ 64

/-- `struct timespec` -/
structure Timespec where
  sec : Int
  nsec : Int
  deriving DecidableEq, Repr

/-- `tsdiff_in_bounds`: what it stores in `*diff`, and what it returns. -/
def tsdiffInBounds (ts1 ts2 : Timespec) (bounds : UInt64) : Int × Bool :=
  let d := int32 ((ts2.sec - ts1.sec) * 1000 + (ts2.nsec - ts1.nsec).tdiv 1000000)
  let diff := if d < 0 then int32 (-d) else d
  (diff, decide (ulong diff < bounds.toNat))

/-! ## Datagrams -/

/-- What `recvmsg` received: `from.sin_addr.s_addr`, and the bytes. -/
structure Datagram where
  source : UInt32
  data : Bytes
  deriving DecidableEq

/-- `ICMP_ECHOREPLY` -/
def ICMP_ECHOREPLY : UInt8 := 0

/-- `sizeof(struct ip) + sizeof(struct icmp) + sizeof(struct timeval)` -/
def msize : Nat := 20 + 28 + 16

/-- `ntohs(htons(x))` -/
def ushort (x : Int) : Nat := (x % 2 ^ 16).toNat

namespace Datagram

/-- `buff`, behind its last byte zero. -/
def byte (d : Datagram) (k : Nat) : UInt8 := (d.data.take 1024).getD k 0

/-- `ip->ip_hl << 2` -/
def icmpAt (d : Datagram) : Nat := (d.byte 0).toNat % 16 * 4

/-- `icmp->icmp_type` -/
def icmpType (d : Datagram) : UInt8 := d.byte d.icmpAt

/-- `icmp->icmp_id`, in host order -/
def icmpId (d : Datagram) : Nat :=
  (d.byte (d.icmpAt + 4)).toNat * 256 + (d.byte (d.icmpAt + 5)).toNat

/-- `icmp->icmp_seq`, in host order -/
def icmpSeq (d : Datagram) : Nat :=
  (d.byte (d.icmpAt + 6)).toNat * 256 + (d.byte (d.icmpAt + 7)).toNat

/-- The datagram passes the tests of `recv_icmp`: it is long enough and an echo reply from `dst`
with this sequence number and this id. -/
def replies (d : Datagram) (dst : UInt32) (id seqn : Int) : Bool :=
  decide (msize ≤ (d.data.take 1024).length) && decide (d.icmpType = ICMP_ECHOREPLY) &&
    decide (d.source = dst) && decide (d.icmpSeq = ushort seqn) && decide (d.icmpId = ushort id)

end Datagram

/-! ## One call -/

/-- One turn of the loop in `recv_icmp`: the clock, and what `recvmsg` returned, `none` a failed
call. -/
structure Poll where
  now : Timespec
  got : Option Datagram

/-- One turn of the loop in `nu_pinger`: the result of `sendto`, and what `recv_icmp` meets. -/
structure Attempt where
  sent : Int
  start : Timespec
  polls : List Poll

/-- What one call of `nu_pinger` meets. -/
structure Check where
  socket : Int
  attempt : Nat → Attempt

/-- The process and its libc: `getpid`, `inet_addr` and `atoi`. -/
structure Process where
  pid : Int
  inetAddr : Bytes → UInt32
  atoi : Bytes → Int

/-- What happens in a call. The number is the attempt's. -/
inductive PingEvent where
  | opened
  | echo (i : Nat) (sent : Bool)
  | received (i : Nat) (d : Datagram)
  deriving DecidableEq

/-- `recv_icmp` in attempt `i`: its result with `*count`. -/
def recvIcmp (dst : UInt32) (id seqn : Int) (wait : Int) (i : Nat) (start : Timespec)
    (count : Nat) : List Poll → Option (Int × Nat) × List PingEvent
  | [] => (none, [])
  | p :: ps =>
    if (tsdiffInBounds start p.now (UInt64.ofInt wait)).2 then
      match p.got with
      | none => recvIcmp dst id seqn wait i start count ps
      | some d =>
        if d.replies dst id seqn then (some (0, count + 1), [.received i d])
        else
          let r := recvIcmp dst id seqn wait i start count ps
          (r.1, .received i d :: r.2)
    else (some (-1, count), [])

/-- The loop of `nu_pinger` from attempt `i` on, with at most this many attempts to go. -/
def pingLoop (pid : Int) (dst : UInt32) (wait : Int) (attempt : Nat → Attempt) :
    Nat → Nat → Nat → Int → Option Int × List PingEvent
  | 0, _, _, ret => (some ret, [])
  | left + 1, i, recvCount, ret =>
    if recvCount ≠ 0 then (some ret, [])
    else if (attempt i).sent = -1 then
      let r := pingLoop pid dst wait attempt left (i + 1) recvCount (-1)
      (r.1, .echo i false :: r.2)
    else
      let a := recvIcmp dst pid (pid + i) wait i (attempt i).start recvCount (attempt i).polls
      match a.1 with
      | none => (none, .echo i true :: a.2)
      | some (ret, recvCount) =>
        let r := pingLoop pid dst wait attempt left (i + 1) recvCount ret
        (r.1, .echo i true :: a.2 ++ r.2)

/-- `nu_pinger(address, count, pr_wait, ..)` -/
def nuPinger (proc : Process) (address : Option Bytes) (count : Nat) (prWait : Int) (k : Check) :
    Option Int × List PingEvent :=
  match address with
  | none => (some (-1), [])
  | some address =>
    let wait := if 0 < prWait then prWait * 1000 else 1000
    if k.socket < 0 then (some 2, [])
    else
      let r := pingLoop proc.pid (proc.inetAddr address) wait k.attempt count 0 0 0
      (r.1, .opened :: r.2)

/-! ## What a result means -/

/-- `recv_icmp` has not returned, or gave up, or received the reply it waits for. -/
theorem recvIcmp_cases (dst : UInt32) (id seqn wait : Int) (i : Nat) (start : Timespec)
    (count : Nat) (ps : List Poll) :
    (recvIcmp dst id seqn wait i start count ps).1 = none ∨
      (recvIcmp dst id seqn wait i start count ps).1 = some (-1, count) ∨
      (recvIcmp dst id seqn wait i start count ps).1 = some (0, count + 1) ∧
        ∃ d, .received i d ∈ (recvIcmp dst id seqn wait i start count ps).2 ∧
          d.replies dst id seqn = true := by
  induction ps with
  | nil => exact Or.inl rfl
  | cons p ps ih =>
    by_cases hin : (tsdiffInBounds start p.now (UInt64.ofInt wait)).2 = true
    · cases hg : p.got with
      | none =>
        have hstep : recvIcmp dst id seqn wait i start count (p :: ps) =
            recvIcmp dst id seqn wait i start count ps := by
          rw [recvIcmp, if_pos hin, hg]
        rw [hstep]
        exact ih
      | some d =>
        by_cases hd : d.replies dst id seqn = true
        · have hstep : recvIcmp dst id seqn wait i start count (p :: ps) =
              (some (0, count + 1), [.received i d]) := by
            rw [recvIcmp, if_pos hin, hg]
            exact if_pos hd
          rw [hstep]
          exact Or.inr (Or.inr ⟨rfl, d, List.mem_singleton_self _, hd⟩)
        · have hstep : recvIcmp dst id seqn wait i start count (p :: ps) =
              ((recvIcmp dst id seqn wait i start count ps).1,
                .received i d :: (recvIcmp dst id seqn wait i start count ps).2) := by
            rw [recvIcmp, if_pos hin, hg]
            exact if_neg hd
          rw [hstep]
          rcases ih with h | h | ⟨h, e, he, hr⟩
          · exact Or.inl h
          · exact Or.inr (Or.inl h)
          · exact Or.inr (Or.inr ⟨h, e, List.mem_cons_of_mem _ he, hr⟩)
    · have hstep : recvIcmp dst id seqn wait i start count (p :: ps) = (some (-1, count), []) := by
        rw [recvIcmp, if_neg hin]
      rw [hstep]
      exact Or.inr (Or.inl rfl)

/-- An echo was sent to `dst` and its reply received. -/
def Answered (pid : Int) (dst : UInt32) (es : List PingEvent) : Prop :=
  ∃ i d, .echo i true ∈ es ∧ .received i d ∈ es ∧ d.replies dst pid (pid + i) = true

theorem Answered.mono {pid : Int} {dst : UInt32} {es es' : List PingEvent}
    (h : Answered pid dst es) (hsub : es ⊆ es') : Answered pid dst es' := by
  obtain ⟨i, d, he, hr, hd⟩ := h
  exact ⟨i, d, hsub he, hsub hr, hd⟩

/-- A reply ends the loop. -/
theorem pingLoop_heard (pid : Int) (dst : UInt32) (wait : Int) (attempt : Nat → Attempt)
    (left i count : Nat) (ret : Int) :
    pingLoop pid dst wait attempt left i (count + 1) ret = (some ret, []) := by
  cases left with
  | zero => rfl
  | succ left => rw [pingLoop, if_pos (Nat.succ_ne_zero count)]

/-- Before a reply the result of the loop is that of the attempts to come. -/
theorem pingLoop_ret (pid : Int) (dst : UInt32) (wait : Int) (attempt : Nat → Attempt)
    (left i : Nat) (ret ret' : Int) :
    pingLoop pid dst wait attempt (left + 1) i 0 ret =
      pingLoop pid dst wait attempt (left + 1) i 0 ret' := by
  simp only [pingLoop, ne_eq, not_true_eq_false, if_false]

/-- The loop of `nu_pinger` after an attempt that went wrong: it has not returned, it returns -1,
or it returns 0 for an answered echo. -/
theorem pingLoop_cases (pid : Int) (dst : UInt32) (wait : Int) (attempt : Nat → Attempt)
    (left i : Nat) :
    (pingLoop pid dst wait attempt left i 0 (-1)).1 = none ∨
      (pingLoop pid dst wait attempt left i 0 (-1)).1 = some (-1) ∨
      (pingLoop pid dst wait attempt left i 0 (-1)).1 = some 0 ∧
        Answered pid dst (pingLoop pid dst wait attempt left i 0 (-1)).2 := by
  induction left generalizing i with
  | zero => exact Or.inr (Or.inl rfl)
  | succ left ih =>
    by_cases hs : (attempt i).sent = -1
    · have hstep : pingLoop pid dst wait attempt (left + 1) i 0 (-1) =
          ((pingLoop pid dst wait attempt left (i + 1) 0 (-1)).1,
            .echo i false :: (pingLoop pid dst wait attempt left (i + 1) 0 (-1)).2) := by
        rw [pingLoop, if_neg (not_not_intro rfl), if_pos hs]
      rw [hstep]
      rcases ih (i + 1) with h | h | ⟨h, ha⟩
      · exact Or.inl h
      · exact Or.inr (Or.inl h)
      · exact Or.inr (Or.inr ⟨h, ha.mono (List.subset_cons_self _ _)⟩)
    · have hstep : pingLoop pid dst wait attempt (left + 1) i 0 (-1) =
          match (recvIcmp dst pid (pid + i) wait i (attempt i).start 0 (attempt i).polls).1 with
          | none => (none, .echo i true ::
              (recvIcmp dst pid (pid + i) wait i (attempt i).start 0 (attempt i).polls).2)
          | some (ret, recvCount) =>
            ((pingLoop pid dst wait attempt left (i + 1) recvCount ret).1, .echo i true ::
              (recvIcmp dst pid (pid + i) wait i (attempt i).start 0 (attempt i).polls).2 ++
                (pingLoop pid dst wait attempt left (i + 1) recvCount ret).2) := by
        rw [pingLoop, if_neg (not_not_intro rfl), if_neg hs]
      rw [hstep]
      rcases recvIcmp_cases dst pid (pid + i) wait i (attempt i).start 0 (attempt i).polls with
        h | h | ⟨h, d, hd, hr⟩
      · rw [h]
        exact Or.inl rfl
      · rw [h]
        rcases ih (i + 1) with h' | h' | ⟨h', ha⟩
        · exact Or.inl h'
        · exact Or.inr (Or.inl h')
        · exact Or.inr (Or.inr ⟨h', ha.mono (List.subset_append_right _ _)⟩)
      · rw [h]
        simp only [pingLoop_heard]
        refine Or.inr (Or.inr ⟨trivial, i, d, List.mem_append_left _ List.mem_cons_self, ?_, hr⟩)
        exact List.mem_append_left _ (List.mem_cons_of_mem _ hd)

/-- **What a result of `nu_pinger` that is not negative means**: the address answered an echo, or
`socket` failed. -/
theorem nuPinger_cases {proc : Process} {address : Option Bytes} {count : Nat} (hcount : 0 < count)
    {prWait : Int} {k : Check} {ret : Int}
    (hret : (nuPinger proc address count prWait k).1 = some ret) (hpos : 0 ≤ ret) :
    ∃ a, address = some a ∧
      (k.socket < 0 ∨
        Answered proc.pid (proc.inetAddr a) (nuPinger proc address count prWait k).2) := by
  cases address with
  | none =>
    have : ret = -1 := (Option.some.inj hret).symm
    omega
  | some a =>
    refine ⟨a, rfl, ?_⟩
    by_cases hs : k.socket < 0
    · exact Or.inl hs
    · refine Or.inr ?_
      obtain ⟨left, rfl⟩ : ∃ left, count = left + 1 := ⟨count - 1, by omega⟩
      simp only [nuPinger, if_neg hs] at hret ⊢
      rw [pingLoop_ret _ _ _ _ _ _ 0 (-1)] at hret ⊢
      rcases pingLoop_cases proc.pid (proc.inetAddr a) (if 0 < prWait then prWait * 1000 else 1000)
        k.attempt (left + 1) 0 with h | h | ⟨_, ha⟩
      · rw [h] at hret
        cases hret
      · rw [h] at hret
        have : ret = -1 := (Option.some.inj hret).symm
        omega
      · exact ha.mono (List.subset_cons_self _ _)

end JcmController.Heartbeat
