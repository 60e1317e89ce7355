import JcmController.Heartbeat.Ping

/-!
# The result of the gateway ping

`recv_icmp` is left by the reply it waits for or by the clock. The clock is read before each
`recvmsg`, which then blocks for up to a second: what it receives may come in when the wait is over,
and is taken all the same.

* A `Course` is what one attempt meets for as long as it takes, turn after turn without end, with
  the time at which each datagram comes in. `Returns` is the result from some number of turns on,
  so that a call that never returns has none.
* `Course.Heard`: the echo was sent, and its reply received in a turn up to which every clock
  reading was inside the window. `Course.Answered`: the reply comes in before the wait is over.
* `recvIcmp_answered`, `recvIcmp_closed`: how the loop of `recv_icmp` is left.
* `pingLoop_made`: the loop of `nu_pinger` after attempts that came to nothing.
* **`ping_exact`**: `nu_pinger` says whether an echo was answered in time exactly when each attempt
  it makes comes to an end and is punctual: the readings up to its first reply are inside the window
  just in case the reply comes in before the wait is over.
* `late_reply_taken`: a reply 0.2 seconds after the end of the wait.
-/

namespace JcmController.Heartbeat

open JcmController.Lib

/-! ## One turn of `recv_icmp` -/

/-- The clock reading is inside the window. -/
def Poll.Open (start : Timespec) (wait : Int) (p : Poll) : Prop :=
  (tsdiffInBounds start p.now (UInt64.ofInt wait)).2 = true

instance (start : Timespec) (wait : Int) (p : Poll) : Decidable (p.Open start wait) :=
  inferInstanceAs (Decidable (_ = true))

/-- The turn receives the reply. -/
def Poll.Hears (dst : UInt32) (id seqn : Int) (p : Poll) : Prop :=
  ∃ d, p.got = some d ∧ d.replies dst id seqn = true

/-- What the turn receives. -/
def Poll.received (i : Nat) (p : Poll) : List PingEvent := p.got.toList.map (PingEvent.received i)

section Recv

variable {dst : UInt32} {id seqn wait : Int} {i : Nat} {start : Timespec} {count : Nat}

theorem recvIcmp_cons_closed {p : Poll} (h : ¬ p.Open start wait) (ps : List Poll) :
    recvIcmp dst id seqn wait i start count (p :: ps) = (some (-1, count), []) := by
  rw [recvIcmp]
  exact if_neg h

theorem recvIcmp_cons_heard {p : Poll} (ho : p.Open start wait) (hd : p.Hears dst id seqn)
    (ps : List Poll) :
    recvIcmp dst id seqn wait i start count (p :: ps) = (some (0, count + 1), p.received i) := by
  obtain ⟨d, hgot, hd⟩ := hd
  rw [recvIcmp, Poll.received, hgot]
  exact (if_pos ho).trans (if_pos hd)

theorem recvIcmp_cons_on {p : Poll} (ho : p.Open start wait) (hd : ¬ p.Hears dst id seqn)
    (ps : List Poll) :
    recvIcmp dst id seqn wait i start count (p :: ps) =
      ((recvIcmp dst id seqn wait i start count ps).1,
        p.received i ++ (recvIcmp dst id seqn wait i start count ps).2) := by
  rw [recvIcmp, Poll.received]
  refine (if_pos ho).trans ?_
  cases hgot : p.got with
  | none => rfl
  | some d => exact if_neg fun h => hd ⟨d, hgot, h⟩

/-- The turns of a course, the first one apart. -/
theorem polls_succ (poll : Nat → Poll) (n : Nat) :
    (List.range (n + 1)).map poll = poll 0 :: (List.range n).map fun k => poll (k + 1) := by
  rw [List.range_succ_eq_map, List.map_cons, List.map_map]
  rfl

/-- **A reply inside the window** is what the loop returns for. -/
theorem recvIcmp_answered (i count : Nat) {poll : Nat → Poll} {k : Nat}
    (ho : ∀ j ≤ k, (poll j).Open start wait) (hd : (poll k).Hears dst id seqn) {n : Nat}
    (hn : k < n) :
    (recvIcmp dst id seqn wait i start count ((List.range n).map poll)).1 =
      some (0, count + 1) := by
  induction k generalizing poll n with
  | zero =>
    obtain ⟨n, rfl⟩ := Nat.exists_eq_add_one_of_ne_zero hn.ne'
    rw [polls_succ, recvIcmp_cons_heard (ho 0 (Nat.le_refl 0)) hd]
  | succ k ih =>
    obtain ⟨n, rfl⟩ := Nat.exists_eq_add_one_of_ne_zero (Nat.zero_lt_of_lt hn).ne'
    have hopen := ho 0 (Nat.zero_le _)
    rw [polls_succ]
    by_cases hfirst : (poll 0).Hears dst id seqn
    · rw [recvIcmp_cons_heard hopen hfirst]
    · rw [recvIcmp_cons_on hopen hfirst]
      exact ih (fun j hj => ho (j + 1) (Nat.succ_le_succ hj)) hd (Nat.lt_of_succ_lt_succ hn)

/-- No turn receives the reply inside the window. -/
def Unheard (dst : UInt32) (id seqn : Int) (start : Timespec) (wait : Int) (poll : Nat → Poll) :
    Prop :=
  ∀ k, (∀ j ≤ k, (poll j).Open start wait) → ¬ (poll k).Hears dst id seqn

theorem Unheard.head {poll : Nat → Poll} (h : Unheard dst id seqn start wait poll)
    (ho : (poll 0).Open start wait) : ¬ (poll 0).Hears dst id seqn :=
  h 0 fun _ hj => Nat.le_zero.mp hj ▸ ho

theorem Unheard.tail {poll : Nat → Poll} (h : Unheard dst id seqn start wait poll)
    (ho : (poll 0).Open start wait) :
    Unheard dst id seqn start wait fun k => poll (k + 1) := by
  intro k hk
  refine h (k + 1) fun j hj => ?_
  cases j with
  | zero => exact ho
  | succ j => exact hk j (Nat.le_of_succ_le_succ hj)

/-- **A closed window** is what the loop gives up for. -/
theorem recvIcmp_closed (i count : Nat) {poll : Nat → Poll}
    (hno : Unheard dst id seqn start wait poll) {k : Nat} (hc : ¬ (poll k).Open start wait)
    {n : Nat} (hn : k < n) :
    (recvIcmp dst id seqn wait i start count ((List.range n).map poll)).1 = some (-1, count) := by
  induction k generalizing poll n with
  | zero =>
    obtain ⟨n, rfl⟩ := Nat.exists_eq_add_one_of_ne_zero hn.ne'
    rw [polls_succ, recvIcmp_cons_closed hc]
  | succ k ih =>
    obtain ⟨n, rfl⟩ := Nat.exists_eq_add_one_of_ne_zero (Nat.zero_lt_of_lt hn).ne'
    rw [polls_succ]
    by_cases hopen : (poll 0).Open start wait
    · rw [recvIcmp_cons_on hopen (hno.head hopen)]
      exact ih (hno.tail hopen) hc (Nat.lt_of_succ_lt_succ hn)
    · rw [recvIcmp_cons_closed hopen]

/-- In a window that stays open, without the reply, the loop does not return. -/
theorem recvIcmp_open (i count : Nat) {poll : Nat → Poll} (ho : ∀ k, (poll k).Open start wait)
    (hd : ∀ k, ¬ (poll k).Hears dst id seqn) (n : Nat) :
    (recvIcmp dst id seqn wait i start count ((List.range n).map poll)).1 = none := by
  induction n generalizing poll with
  | zero => rfl
  | succ n ih =>
    rw [polls_succ, recvIcmp_cons_on (ho 0) (hd 0)]
    exact ih (fun k => ho (k + 1)) fun k => hd (k + 1)

/-- A call that gave up has not heard the reply. -/
theorem recvIcmp_gaveUp (i count : Nat) {poll : Nat → Poll} {n : Nat}
    (h : (recvIcmp dst id seqn wait i start count ((List.range n).map poll)).1 =
      some (-1, count)) :
    ¬ ∃ k, (∀ j ≤ k, (poll j).Open start wait) ∧ (poll k).Hears dst id seqn := by
  rintro ⟨k, ho, hd⟩
  induction n generalizing poll k with
  | zero => cases h
  | succ n ih =>
    have hopen := ho 0 (Nat.zero_le k)
    rw [polls_succ] at h
    by_cases hfirst : (poll 0).Hears dst id seqn
    · rw [recvIcmp_cons_heard hopen hfirst] at h
      cases h
    · rw [recvIcmp_cons_on hopen hfirst] at h
      cases k with
      | zero => exact hfirst hd
      | succ k => exact ih h k (fun j hj => ho (j + 1) (Nat.succ_le_succ hj)) hd

theorem received_of_mem {e : PingEvent} {p : Poll} (he : e ∈ p.received i) :
    ∃ d, p.got = some d ∧ e = .received i d := by
  obtain ⟨d, hd, rfl⟩ := List.mem_map.mp he
  exact ⟨d, Option.mem_toList.mp hd, rfl⟩

/-- Everything `recv_icmp` does is to receive. -/
theorem recvIcmp_events :
    ∀ (ps : List Poll), ∀ e ∈ (recvIcmp dst id seqn wait i start count ps).2,
      ∃ d, e = .received i d
  | [], _, he => absurd he List.not_mem_nil
  | p :: ps, e, he => by
    by_cases hopen : p.Open start wait
    · by_cases hd : p.Hears dst id seqn
      · rw [recvIcmp_cons_heard hopen hd] at he
        obtain ⟨d, _, rfl⟩ := received_of_mem he
        exact ⟨d, rfl⟩
      · rw [recvIcmp_cons_on hopen hd] at he
        rcases List.mem_append.mp he with he | he
        · obtain ⟨d, _, rfl⟩ := received_of_mem he
          exact ⟨d, rfl⟩
        · exact recvIcmp_events ps e he
    · rw [recvIcmp_cons_closed hopen] at he
      exact absurd he List.not_mem_nil

end Recv

/-! ## Attempts -/

/-- What an attempt meets: the result of `sendto`, every turn `recv_icmp` may take, and when what it
receives there comes in, in nanoseconds from the start of the wait. The queue of a socket keeps the
order. -/
structure Course where
  sent : Int
  start : Timespec
  poll : Nat → Poll
  comesIn : Nat → Int
  inOrder : ∀ j k, j ≤ k → comesIn j ≤ comesIn k

namespace Course

/-- Its first turns. -/
def attempt (c : Course) (n : Nat) : Attempt := ⟨c.sent, c.start, (List.range n).map c.poll⟩

/-- The echo of attempt `i` was sent, and its reply is received in a turn up to which every clock
reading is inside the window. -/
def Heard (pid : Int) (dst : UInt32) (wait : Int) (i : Nat) (c : Course) : Prop :=
  c.sent ≠ -1 ∧ ∃ k, (∀ j ≤ k, (c.poll j).Open c.start wait) ∧ (c.poll k).Hears dst pid (pid + i)

/-- The echo of attempt `i` was sent, and its reply comes in before the wait is over. -/
def Answered (pid : Int) (dst : UInt32) (wait : Int) (i : Nat) (c : Course) : Prop :=
  c.sent ≠ -1 ∧ ∃ k, (c.poll k).Hears dst pid (pid + i) ∧ c.comesIn k < wait * 1000000

/-- The attempt comes to an end: `sendto` fails, a clock reading is outside the window, or the reply
is received before one is. -/
def Ends (pid : Int) (dst : UInt32) (wait : Int) (i : Nat) (c : Course) : Prop :=
  c.sent = -1 ∨ (∃ k, ¬ (c.poll k).Open c.start wait) ∨ c.Heard pid dst wait i

/-- The first reply to the echo comes in in turn `k`. -/
def FirstReply (pid : Int) (dst : UInt32) (i : Nat) (c : Course) (k : Nat) : Prop :=
  (c.poll k).Hears dst pid (pid + i) ∧ ∀ j < k, ¬ (c.poll j).Hears dst pid (pid + i)

/-- The readings up to the first reply are inside the window just in case it comes in before the
wait is over. -/
def Punctual (pid : Int) (dst : UInt32) (wait : Int) (i : Nat) (c : Course) : Prop :=
  c.sent ≠ -1 → ∀ k, c.FirstReply pid dst i k →
    ((∀ j ≤ k, (c.poll j).Open c.start wait) ↔ c.comesIn k < wait * 1000000)

section

variable {pid : Int} {dst : UInt32} {wait : Int} {i : Nat} {c : Course}

/-- Where there is a reply there is a first one. -/
theorem exists_firstReply {k : Nat} (hk : (c.poll k).Hears dst pid (pid + i)) :
    ∃ m ≤ k, c.FirstReply pid dst i m := by
  induction k using Nat.strongRecOn with
  | ind k ih =>
    by_cases hfirst : ∀ j < k, ¬ (c.poll j).Hears dst pid (pid + i)
    · exact ⟨k, Nat.le_refl k, hk, hfirst⟩
    · obtain ⟨j, hj⟩ := Classical.not_forall.mp hfirst
      obtain ⟨hlt, hj⟩ := Classical.not_imp.mp hj
      obtain ⟨m, hm, hreply⟩ := ih j hlt (not_not.mp hj)
      exact ⟨m, le_trans hm (Nat.le_of_lt hlt), hreply⟩

theorem FirstReply.unique {k m : Nat} (hk : c.FirstReply pid dst i k)
    (hm : c.FirstReply pid dst i m) : k = m := by
  rcases Nat.lt_trichotomy k m with hlt | heq | hgt
  · exact absurd hk.1 (hm.2 k hlt)
  · exact heq
  · exact absurd hm.1 (hk.2 m hgt)

/-- Only the first reply counts: for the readings, -/
theorem heard_iff : c.Heard pid dst wait i ↔
    c.sent ≠ -1 ∧ ∃ k, c.FirstReply pid dst i k ∧ ∀ j ≤ k, (c.poll j).Open c.start wait := by
  refine and_congr_right fun _ => ⟨?_, ?_⟩
  · rintro ⟨k, ho, hk⟩
    obtain ⟨m, hm, hreply⟩ := exists_firstReply hk
    exact ⟨m, hreply, fun j hj => ho j (le_trans hj hm)⟩
  · rintro ⟨k, hreply, ho⟩
    exact ⟨k, ho, hreply.1⟩

/-- and for the time. -/
theorem answered_iff : c.Answered pid dst wait i ↔
    c.sent ≠ -1 ∧ ∃ k, c.FirstReply pid dst i k ∧ c.comesIn k < wait * 1000000 := by
  refine and_congr_right fun _ => ⟨?_, ?_⟩
  · rintro ⟨k, hk, hin⟩
    obtain ⟨m, hm, hreply⟩ := exists_firstReply hk
    exact ⟨m, hreply, lt_of_le_of_lt (c.inOrder m k hm) hin⟩
  · rintro ⟨k, hreply, hin⟩
    exact ⟨k, hreply.1, hin⟩

/-- **A punctual attempt** is heard when it is answered. -/
theorem punctual_iff : c.Punctual pid dst wait i ↔
    (c.Heard pid dst wait i ↔ c.Answered pid dst wait i) := by
  rw [heard_iff, answered_iff]
  constructor
  · intro hp
    refine and_congr_right fun hs => exists_congr fun k => and_congr_right fun hk => ?_
    exact hp hs k hk
  · intro h hs k hk
    constructor
    · intro ho
      obtain ⟨_, m, hm, hin⟩ := h.mp ⟨hs, k, hk, ho⟩
      rwa [hk.unique hm]
    · intro hin
      obtain ⟨_, m, hm, ho⟩ := h.mpr ⟨hs, k, hk, hin⟩
      rwa [hk.unique hm]

end

end Course

section Loop

variable {pid : Int} {dst : UInt32} {wait : Int} {course : Nat → Course}

theorem unheard_of_not_heard {c : Course} {i : Nat} (hs : c.sent ≠ -1)
    (h : ¬ c.Heard pid dst wait i) : Unheard dst pid (pid + i) c.start wait c.poll :=
  fun k hk hd => h ⟨hs, k, hk, hd⟩

theorem pingLoop_unsent (attempt : Nat → Attempt) {left i : Nat} {ret : Int}
    (hs : (attempt i).sent = -1) :
    pingLoop pid dst wait attempt (left + 1) i 0 ret =
      ((pingLoop pid dst wait attempt left (i + 1) 0 (-1)).1,
        .echo i false :: (pingLoop pid dst wait attempt left (i + 1) 0 (-1)).2) := by
  rw [pingLoop, if_neg (not_not_intro rfl), if_pos hs]

/-- An attempt whose echo was sent, by what `recv_icmp` returns. -/
theorem pingLoop_sent (attempt : Nat → Attempt) {left i : Nat} {ret : Int}
    (hs : (attempt i).sent ≠ -1) :
    pingLoop pid dst wait attempt (left + 1) i 0 ret =
      match (recvIcmp dst pid (pid + i) wait i (attempt i).start 0 (attempt i).polls).1 with
      | none => (none, .echo i true ::
          (recvIcmp dst pid (pid + i) wait i (attempt i).start 0 (attempt i).polls).2)
      | some (ret, recvCount) =>
        ((pingLoop pid dst wait attempt left (i + 1) recvCount ret).1, .echo i true ::
          (recvIcmp dst pid (pid + i) wait i (attempt i).start 0 (attempt i).polls).2 ++
            (pingLoop pid dst wait attempt left (i + 1) recvCount ret).2) := by
  rw [pingLoop, if_neg (not_not_intro rfl)]
  exact if_neg hs

variable (pid dst wait course) in
/-- Attempt `i` is made: those before it come to an end, and are not heard. -/
def Made (i : Nat) : Prop :=
  ∀ j < i, (course j).Ends pid dst wait j ∧ ¬ (course j).Heard pid dst wait j

/-- An attempt that comes to an end and is not heard leaves the result -1, and the rest to the
attempts after it. -/
theorem pingLoop_failed {i : Nat} (hno : ¬ (course i).Heard pid dst wait i)
    (hend : (course i).Ends pid dst wait i) :
    ∃ N, ∀ n ≥ N, ∀ left ret, ∃ pre,
      pingLoop pid dst wait (fun i => (course i).attempt n) (left + 1) i 0 ret =
        ((pingLoop pid dst wait (fun i => (course i).attempt n) left (i + 1) 0 (-1)).1, pre ++
          (pingLoop pid dst wait (fun i => (course i).attempt n) left (i + 1) 0 (-1)).2) := by
  by_cases hs : (course i).sent = -1
  · exact ⟨0, fun n _ left ret => ⟨[.echo i false], pingLoop_unsent _ hs⟩⟩
  · obtain ⟨k, hk⟩ : ∃ k, ¬ ((course i).poll k).Open (course i).start wait := by
      rcases hend with h | h | h
      · exact absurd h hs
      · exact h
      · exact absurd h hno
    refine ⟨k + 1, fun n hn left ret => ?_⟩
    have hrecv := recvIcmp_closed i 0 (unheard_of_not_heard hs hno) hk hn
    rw [pingLoop_sent (fun i => (course i).attempt n) hs]
    simp only [Course.attempt, hrecv]
    exact ⟨_, rfl⟩

/-- **The attempts before one that is made** leave the rest to it. -/
theorem pingLoop_made {i : Nat} (hmade : Made pid dst wait course i) (left : Nat) :
    ∃ N, ∀ n ≥ N, ∃ pre,
      pingLoop pid dst wait (fun i => (course i).attempt n) (i + left) 0 0 (-1) =
        ((pingLoop pid dst wait (fun i => (course i).attempt n) left i 0 (-1)).1,
          pre ++ (pingLoop pid dst wait (fun i => (course i).attempt n) left i 0 (-1)).2) := by
  induction i generalizing left with
  | zero => exact ⟨0, fun n _ => ⟨[], by rw [Nat.zero_add]; rfl⟩⟩
  | succ i ih =>
    obtain ⟨N, hN⟩ := ih (fun j hj => hmade j (Nat.lt_succ_of_lt hj)) (left + 1)
    obtain ⟨hend, hno⟩ := hmade i (Nat.lt_succ_self i)
    obtain ⟨N', hN'⟩ := pingLoop_failed hno hend
    refine ⟨max N N', fun n hn => ?_⟩
    obtain ⟨pre, hpre⟩ := hN n (le_of_max_le_left hn)
    obtain ⟨pre', hpre'⟩ := hN' n (le_of_max_le_right hn) left (-1)
    refine ⟨pre ++ pre', ?_⟩
    rw [Nat.add_right_comm, Nat.add_assoc, hpre, hpre', List.append_assoc]

/-- What an attempt does: it sends its echo and receives, and leaves the rest to the next one only
if it is not heard. -/
theorem mem_pingLoop {n left i : Nat} {ret : Int} {e : PingEvent}
    (he : e ∈ (pingLoop pid dst wait (fun i => (course i).attempt n) (left + 1) i 0 ret).2) :
    (∃ b, e = .echo i b) ∨ (∃ d, e = .received i d) ∨
      ¬ (course i).Heard pid dst wait i ∧
        e ∈ (pingLoop pid dst wait (fun i => (course i).attempt n) left (i + 1) 0 (-1)).2 := by
  by_cases hs : (course i).sent = -1
  · rw [pingLoop_unsent (fun i => (course i).attempt n) hs] at he
    rcases List.mem_cons.mp he with rfl | he
    · exact Or.inl ⟨false, rfl⟩
    · exact Or.inr (Or.inr ⟨fun h => h.1 hs, he⟩)
  · have hrecv := @recvIcmp_events dst pid (pid + i) wait i (course i).start 0
      ((List.range n).map (course i).poll)
    rw [pingLoop_sent (fun i => (course i).attempt n) hs] at he
    simp only [Course.attempt] at he
    -- by what `recv_icmp` returns: nothing yet, -1 or 0
    rcases recvIcmp_cases dst pid (pid + i) wait i (course i).start 0
      ((List.range n).map (course i).poll) with h | h | ⟨h, _⟩
    · simp only [h] at he
      rcases List.mem_cons.mp he with rfl | he
      · exact Or.inl ⟨true, rfl⟩
      · exact Or.inr (Or.inl (hrecv e he))
    · simp only [h] at he
      rcases List.mem_cons.mp he with rfl | he
      · exact Or.inl ⟨true, rfl⟩
      · rcases List.mem_append.mp he with he | he
        · exact Or.inr (Or.inl (hrecv e he))
        · exact Or.inr (Or.inr ⟨fun hheard => recvIcmp_gaveUp i 0 h hheard.2, he⟩)
    · simp only [h, pingLoop_heard, List.append_nil] at he
      rcases List.mem_cons.mp he with rfl | he
      · exact Or.inl ⟨true, rfl⟩
      · exact Or.inr (Or.inl (hrecv e he))

/-- An echo that is sent comes after no attempt that is heard. -/
theorem pingLoop_echo {n j : Nat} {b : Bool} :
    ∀ {left i : Nat} {ret : Int},
      .echo j b ∈ (pingLoop pid dst wait (fun i => (course i).attempt n) left i 0 ret).2 →
        i ≤ j ∧ ∀ m, i ≤ m → m < j → ¬ (course m).Heard pid dst wait m
  | 0, _, _, he => absurd he List.not_mem_nil
  | left + 1, i, ret, he => by
    rcases mem_pingLoop he with ⟨b', heq⟩ | ⟨d, heq⟩ | ⟨hno, he⟩
    · obtain rfl : j = i := (PingEvent.echo.inj heq).1
      exact ⟨Nat.le_refl j, fun m hjm hmj => absurd hmj (Nat.not_lt.mpr hjm)⟩
    · cases heq
    · obtain ⟨hij, hbefore⟩ := pingLoop_echo he
      refine ⟨Nat.le_of_succ_le hij, fun m him hmj => ?_⟩
      rcases Nat.eq_or_lt_of_le him with rfl | him
      · exact hno
      · exact hbefore m him hmj

/-- An attempt that is heard is what the loop returns 0 for. -/
theorem pingLoop_zero {i : Nat} (hheard : (course i).Heard pid dst wait i) (left : Nat) :
    ∃ N, ∀ n ≥ N, ∃ es,
      pingLoop pid dst wait (fun i => (course i).attempt n) (left + 1) i 0 (-1) =
        (some 0, .echo i true :: es) := by
  obtain ⟨hs, k, ho, hd⟩ := hheard
  refine ⟨k + 1, fun n hn => ?_⟩
  have hrecv := recvIcmp_answered i 0 ho hd hn
  rw [pingLoop_sent (fun i => (course i).attempt n) hs]
  simp only [Course.attempt, hrecv, pingLoop_heard]
  exact ⟨_, rfl⟩

/-- In an attempt that does not come to an end the loop does not return. -/
theorem pingLoop_endless {i : Nat} (hend : ¬ (course i).Ends pid dst wait i) (left n : Nat) :
    (pingLoop pid dst wait (fun i => (course i).attempt n) (left + 1) i 0 (-1)).1 = none := by
  obtain ⟨hs, hrest⟩ := not_or.mp hend
  obtain ⟨hopen, hno⟩ := not_or.mp hrest
  have ho : ∀ k, ((course i).poll k).Open (course i).start wait := by
    intro k
    by_contra hc
    exact hopen ⟨k, hc⟩
  have hnone := recvIcmp_open i 0 ho
    (fun k hd => hno ⟨hs, k, fun j _ => ho j, hd⟩ : ∀ k, ¬ ((course i).poll k).Hears dst pid _) n
  rw [pingLoop_sent (fun i => (course i).attempt n) hs]
  simp only [Course.attempt, hnone]

end Loop

/-! ## `nu_pinger` -/

/-- `wait` -/
def waitOf (prWait : Int) : Int := if 0 < prWait then prWait * 1000 else 1000

/-- What the first `n` turns of each attempt leave of the call. -/
def pinged (proc : Process) (address : Bytes) (count : Nat) (prWait socket : Int)
    (course : Nat → Course) (n : Nat) : Option Int × List PingEvent :=
  nuPinger proc (some address) count prWait ⟨socket, fun i => (course i).attempt n⟩

/-- The call returns `ret`. -/
def Returns (proc : Process) (address : Bytes) (count : Nat) (prWait socket : Int)
    (course : Nat → Course) (ret : Int) : Prop :=
  ∃ N, ∀ n ≥ N, (pinged proc address count prWait socket course n).1 = some ret

/-- Some attempt that the call makes is answered. -/
def SomeAnswered (proc : Process) (address : Bytes) (count : Nat) (prWait : Int)
    (course : Nat → Course) : Prop :=
  ∃ i < count, Made proc.pid (proc.inetAddr address) (waitOf prWait) course i ∧
    (course i).Answered proc.pid (proc.inetAddr address) (waitOf prWait) i

/-- The call returns 0 if an echo of it is answered in time and -1 otherwise, and sends no echo
after the one that is. -/
structure PingsExactly (proc : Process) (address : Bytes) (count : Nat) (prWait socket : Int)
    (course : Nat → Course) : Prop where
  zero : Returns proc address count prWait socket course 0 ↔
    SomeAnswered proc address count prWait course
  minusOne : ¬ SomeAnswered proc address count prWait course →
    Returns proc address count prWait socket course (-1)
  last : ∀ i < count, Made proc.pid (proc.inetAddr address) (waitOf prWait) course i →
    (course i).Answered proc.pid (proc.inetAddr address) (waitOf prWait) i →
      ∀ n j, i < j → .echo j true ∉ (pinged proc address count prWait socket course n).2

section Pinger

variable {proc : Process} {address : Bytes} {count : Nat} {prWait socket : Int}
  {course : Nat → Course}

/-- With a socket the call is its loop, from a result that does not matter. -/
theorem pinged_eq (hcount : 0 < count) (hsocket : 0 ≤ socket) (n : Nat) :
    pinged proc address count prWait socket course n =
      ((pingLoop proc.pid (proc.inetAddr address) (waitOf prWait)
          (fun i => (course i).attempt n) count 0 0 (-1)).1,
        .opened :: (pingLoop proc.pid (proc.inetAddr address) (waitOf prWait)
          (fun i => (course i).attempt n) count 0 0 (-1)).2) := by
  obtain ⟨left, rfl⟩ := Nat.exists_eq_add_one_of_ne_zero hcount.ne'
  unfold pinged nuPinger
  simp only [if_neg (not_lt.mpr hsocket)]
  rw [pingLoop_ret _ _ _ _ _ _ 0 (-1)]
  rfl

theorem Returns.unique {ret ret' : Int} (h : Returns proc address count prWait socket course ret)
    (h' : Returns proc address count prWait socket course ret') : ret = ret' := by
  obtain ⟨N, hN⟩ := h
  obtain ⟨N', hN'⟩ := h'
  exact Option.some.inj ((hN _ (le_max_left N N')).symm.trans (hN' _ (le_max_right N N')))

section

variable (hcount : 0 < count) (hsocket : 0 ≤ socket) {i : Nat} (hi : i < count)
  (hmade : Made proc.pid (proc.inetAddr address) (waitOf prWait) course i)
include hcount hsocket hi hmade

/-- An attempt that is made and heard is what the call returns 0 for. -/
theorem returns_zero
    (hheard : (course i).Heard proc.pid (proc.inetAddr address) (waitOf prWait) i) :
    Returns proc address count prWait socket course 0 ∧
      ∃ n, .echo i true ∈ (pinged proc address count prWait socket course n).2 := by
  obtain ⟨left, rfl⟩ := Nat.exists_eq_add_of_lt hi
  obtain ⟨N, hN⟩ := pingLoop_made hmade (left + 1)
  obtain ⟨N', hN'⟩ := pingLoop_zero hheard left
  have hall : ∀ n ≥ max N N', (pinged proc address (i + left + 1) prWait socket course n).1 =
        some 0 ∧ .echo i true ∈ (pinged proc address (i + left + 1) prWait socket course n).2 := by
    intro n hn
    obtain ⟨pre, hpre⟩ := hN n (le_of_max_le_left hn)
    obtain ⟨es, hes⟩ := hN' n (le_of_max_le_right hn)
    rw [hes, ← Nat.add_assoc] at hpre
    rw [pinged_eq hcount hsocket, hpre]
    refine ⟨rfl, List.mem_cons_of_mem _ (List.mem_append_right _ List.mem_cons_self)⟩
  exact ⟨⟨_, fun n hn => (hall n hn).1⟩, _, (hall _ (Nat.le_refl _)).2⟩

/-- In an attempt that is made and does not come to an end the call does not return. -/
theorem not_returns
    (hend : ¬ (course i).Ends proc.pid (proc.inetAddr address) (waitOf prWait) i) (ret : Int) :
    ¬ Returns proc address count prWait socket course ret := by
  rintro ⟨M, hM⟩
  obtain ⟨left, rfl⟩ := Nat.exists_eq_add_of_lt hi
  obtain ⟨N, hN⟩ := pingLoop_made hmade (left + 1)
  obtain ⟨pre, hpre⟩ := hN (max N M) (le_max_left N M)
  have hret := hM (max N M) (le_max_right N M)
  rw [pinged_eq hcount hsocket, Nat.add_assoc, hpre, pingLoop_endless hend] at hret
  cases hret

end

/-- If all attempts come to nothing the call returns -1. -/
theorem returns_minusOne (hcount : 0 < count) (hsocket : 0 ≤ socket)
    (hmade : Made proc.pid (proc.inetAddr address) (waitOf prWait) course count) :
    Returns proc address count prWait socket course (-1) := by
  obtain ⟨N, hN⟩ := pingLoop_made hmade 0
  refine ⟨N, fun n hn => ?_⟩
  obtain ⟨pre, hpre⟩ := hN n hn
  rw [Nat.add_zero] at hpre
  rw [pinged_eq hcount hsocket, hpre]
  rfl

/-- All attempts come to nothing, or one that is made does not. -/
theorem made_count_or (proc : Process) (address : Bytes) (count : Nat) (prWait : Int)
    (course : Nat → Course) :
    Made proc.pid (proc.inetAddr address) (waitOf prWait) course count ∨
      ∃ i < count, Made proc.pid (proc.inetAddr address) (waitOf prWait) course i ∧
        ((course i).Heard proc.pid (proc.inetAddr address) (waitOf prWait) i ∨
          ¬ (course i).Ends proc.pid (proc.inetAddr address) (waitOf prWait) i) := by
  induction count with
  | zero => exact Or.inl fun j hj => absurd hj (Nat.not_lt_zero j)
  | succ count ih =>
    rcases ih with hmade | ⟨i, hi, h⟩
    · by_cases hdone : (course count).Ends proc.pid (proc.inetAddr address) (waitOf prWait) count ∧
        ¬ (course count).Heard proc.pid (proc.inetAddr address) (waitOf prWait) count
      · refine Or.inl fun j hj => ?_
        rcases Nat.lt_succ_iff_lt_or_eq.mp hj with hj | rfl
        · exact hmade j hj
        · exact hdone
      · rcases not_and_or.mp hdone with hend | hheard
        · exact Or.inr ⟨count, Nat.lt_succ_self count, hmade, Or.inr hend⟩
        · exact Or.inr ⟨count, Nat.lt_succ_self count, hmade, Or.inl (not_not.mp hheard)⟩
    · exact Or.inr ⟨i, Nat.lt_succ_of_lt hi, h⟩

theorem echo_of_pinged (hcount : 0 < count) (hsocket : 0 ≤ socket) {n j : Nat} {b : Bool}
    (he : .echo j b ∈ (pinged proc address count prWait socket course n).2) (m : Nat) (hm : m < j) :
    ¬ (course m).Heard proc.pid (proc.inetAddr address) (waitOf prWait) m := by
  rw [pinged_eq hcount hsocket] at he
  rcases List.mem_cons.mp he with he | he
  · cases he
  · exact (pingLoop_echo he).2 m (Nat.zero_le m) hm

section

variable (hcount : 0 < count) (hsocket : 0 ≤ socket)
include hcount hsocket

/-- A call that returns 0 has made an attempt that is heard. -/
theorem heard_of_returns (hzero : Returns proc address count prWait socket course 0) :
    ∃ i < count, Made proc.pid (proc.inetAddr address) (waitOf prWait) course i ∧
      (course i).Heard proc.pid (proc.inetAddr address) (waitOf prWait) i := by
  rcases made_count_or proc address count prWait course with hall | ⟨i, hi, hmade, hi'⟩
  · exact absurd (hzero.unique (returns_minusOne hcount hsocket hall)) (by decide)
  · refine ⟨i, hi, hmade, hi'.resolve_right fun hend => ?_⟩
    exact not_returns hcount hsocket hi hmade hend 0 hzero

/-- **In an exact call** each attempt that is made comes to an end, -/
theorem PingsExactly.ends (h : PingsExactly proc address count prWait socket course) {i : Nat}
    (hi : i < count) (hmade : Made proc.pid (proc.inetAddr address) (waitOf prWait) course i) :
    (course i).Ends proc.pid (proc.inetAddr address) (waitOf prWait) i := by
  by_contra hend
  have hnone := not_returns hcount hsocket hi hmade hend
  exact hnone (-1) (h.minusOne fun hsome => hnone 0 (h.zero.mpr hsome))

/-- is answered if it is heard, for the call returns 0, and no earlier attempt was answered, -/
theorem PingsExactly.answered (h : PingsExactly proc address count prWait socket course) {i : Nat}
    (hi : i < count) (hmade : Made proc.pid (proc.inetAddr address) (waitOf prWait) course i)
    (hheard : (course i).Heard proc.pid (proc.inetAddr address) (waitOf prWait) i) :
    (course i).Answered proc.pid (proc.inetAddr address) (waitOf prWait) i := by
  obtain ⟨hzero, n, hecho⟩ := returns_zero hcount hsocket hi hmade hheard
  obtain ⟨j, hj, hmade', hanswered⟩ := h.zero.mp hzero
  rcases Nat.lt_trichotomy j i with hlt | rfl | hgt
  · exact absurd hecho (h.last j hj hmade' hanswered n i hlt)
  · exact hanswered
  · exact absurd hheard (hmade' i hgt).2

/-- and is heard if it is answered, for the call returns 0, and for no later attempt. -/
theorem PingsExactly.heard (h : PingsExactly proc address count prWait socket course) {i : Nat}
    (hi : i < count) (hmade : Made proc.pid (proc.inetAddr address) (waitOf prWait) course i)
    (hanswered : (course i).Answered proc.pid (proc.inetAddr address) (waitOf prWait) i) :
    (course i).Heard proc.pid (proc.inetAddr address) (waitOf prWait) i := by
  have hzero := h.zero.mpr ⟨i, hi, hmade, hanswered⟩
  obtain ⟨j, hj, hmade', hheard⟩ := heard_of_returns hcount hsocket hzero
  obtain ⟨_, n, hecho⟩ := returns_zero hcount hsocket hj hmade' hheard
  rcases Nat.lt_trichotomy j i with hlt | rfl | hgt
  · exact absurd hheard (hmade j hlt).2
  · exact hheard
  · exact absurd hecho (h.last i hi hmade hanswered n j hgt)

/-- **A call whose attempts all end and are punctual** is exact. -/
theorem pingsExactly_of (hends : ∀ i < count,
      Made proc.pid (proc.inetAddr address) (waitOf prWait) course i →
        (course i).Ends proc.pid (proc.inetAddr address) (waitOf prWait) i)
    (hiff : ∀ i < count, Made proc.pid (proc.inetAddr address) (waitOf prWait) course i →
      ((course i).Heard proc.pid (proc.inetAddr address) (waitOf prWait) i ↔
        (course i).Answered proc.pid (proc.inetAddr address) (waitOf prWait) i)) :
    PingsExactly proc address count prWait socket course := by
  refine ⟨⟨fun hzero => ?_, ?_⟩, fun hno => ?_, ?_⟩
  · obtain ⟨i, hi, hmade, hheard⟩ := heard_of_returns hcount hsocket hzero
    exact ⟨i, hi, hmade, (hiff i hi hmade).mp hheard⟩
  · rintro ⟨i, hi, hmade, hanswered⟩
    exact (returns_zero hcount hsocket hi hmade ((hiff i hi hmade).mpr hanswered)).1
  · rcases made_count_or proc address count prWait course with hall | ⟨i, hi, hmade, hi'⟩
    · exact returns_minusOne hcount hsocket hall
    · have hheard := hi'.resolve_right (not_not_intro (hends i hi hmade))
      exact absurd ⟨i, hi, hmade, (hiff i hi hmade).mp hheard⟩ hno
  · intro i hi hmade hanswered n j hij he
    exact echo_of_pinged hcount hsocket he i hij ((hiff i hi hmade).mpr hanswered)

end

/-- **When the gateway ping is exact.** With a socket, the result of `nu_pinger` says whether some
echo was answered in time, and none is sent after that, if and only if every attempt it makes comes
to an end and is punctual. -/
theorem ping_exact (proc : Process) (address : Bytes) (count : Nat) (hcount : 0 < count)
    (prWait socket : Int) (hsocket : 0 ≤ socket) (course : Nat → Course) :
    PingsExactly proc address count prWait socket course ↔
      ∀ i < count, Made proc.pid (proc.inetAddr address) (waitOf prWait) course i →
        (course i).Ends proc.pid (proc.inetAddr address) (waitOf prWait) i ∧
          (course i).Punctual proc.pid (proc.inetAddr address) (waitOf prWait) i := by
  constructor
  · intro h i hi hmade
    exact ⟨h.ends hcount hsocket hi hmade, Course.punctual_iff.mpr
      ⟨h.answered hcount hsocket hi hmade, h.heard hcount hsocket hi hmade⟩⟩
  · intro h
    exact pingsExactly_of hcount hsocket (fun i hi hmade => (h i hi hmade).1)
      fun i hi hmade => Course.punctual_iff.mp (h i hi hmade).2

end Pinger

/-- A process with the id 7. -/
def pingProcess : Process := ⟨7, fun _ => 1, fun _ => 0⟩

/-- A datagram of its address, to the echo with this sequence number. -/
def pingReply (seqn : UInt8) : Datagram :=
  ⟨1, 0x45 :: List.replicate 19 0 ++ [0, 0, 0, 0, 0, 7, 0, seqn] ++ List.replicate 36 0⟩

/-- The first echo cannot be sent, the second one is answered after a receive that failed. -/
def secondAnswered : Nat → Course
  | 0 => ⟨-1, ⟨0, 0⟩, fun _ => ⟨⟨0, 0⟩, none⟩, fun _ => 0, fun _ _ _ => le_rfl⟩
  | _ =>
    { sent := 44
      start := ⟨0, 0⟩
      poll := fun k => if k = 0 then ⟨⟨0, 0⟩, none⟩ else ⟨⟨0, 500000000⟩, some (pingReply 8)⟩
      comesIn := fun _ => 600000000
      inOrder := fun _ _ _ => le_rfl }

theorem ping_exact_second :
    PingsExactly pingProcess [] 2 0 3 secondAnswered ∧
      Returns pingProcess [] 2 0 3 secondAnswered 0 := by
  have hhears : ∀ k, 0 < k → ((secondAnswered 1).poll k).Hears 1 7 (7 + (1 : Nat)) := by
    intro k hk
    refine ⟨pingReply 8, ?_, by decide +kernel⟩
    simp only [secondAnswered, if_neg (Nat.ne_of_gt hk)]
  have hopen : ∀ k, ((secondAnswered 1).poll k).Open ⟨0, 0⟩ 1000 := by
    intro k
    by_cases hk : k = 0
    · rw [hk]
      decide +kernel
    · have hpoll : (secondAnswered 1).poll k = ⟨⟨0, 500000000⟩, some (pingReply 8)⟩ := if_neg hk
      rw [hpoll]
      decide +kernel
  have hheard : (secondAnswered 1).Heard 7 1 1000 1 :=
    ⟨by decide, 1, fun j _ => hopen j, hhears 1 Nat.one_pos⟩
  have hexact : PingsExactly pingProcess [] 2 0 3 secondAnswered := by
    refine (ping_exact pingProcess [] 2 (by decide) 0 3 (by decide) secondAnswered).mpr ?_
    intro i hi _
    rcases Nat.le_one_iff_eq_zero_or_eq_one.mp (Nat.le_of_lt_succ hi) with rfl | rfl
    · exact ⟨Or.inl rfl, fun hs => absurd rfl hs⟩
    · refine ⟨Or.inr (Or.inr hheard), fun _ k _ => iff_of_true (fun j _ => hopen j) ?_⟩
      show (600000000 : Int) < waitOf 0 * 1000000
      decide
  refine ⟨hexact, hexact.zero.mpr ⟨1, by decide, ?_, hheard.1, 1, hhears 1 Nat.one_pos, ?_⟩⟩
  · intro j hj
    obtain rfl := Nat.lt_one_iff.mp hj
    exact ⟨Or.inl rfl, fun h => h.1 rfl⟩
  · show (600000000 : Int) < waitOf 0 * 1000000
    decide

/-- Another datagram after half a second, and then nothing for 0.7 seconds. -/
def lateReply : Nat → Course := fun _ =>
  { sent := 44
    start := ⟨0, 0⟩
    poll := fun k =>
      if k = 0 then ⟨⟨0, 0⟩, some (pingReply 6)⟩ else ⟨⟨0, 500000000⟩, some (pingReply 7)⟩
    comesIn := fun k => if k = 0 then 500000000 else 1200000000
    inOrder := by
      intro j k hjk
      split_ifs <;> omega }

/-- The wait of the first attempt is over 0.2 seconds before the reply comes in, and the call
returns 0 for it. -/
theorem late_reply_taken :
    Returns pingProcess [] 10 0 3 lateReply 0 ∧ ¬ SomeAnswered pingProcess [] 10 0 lateReply ∧
      ¬ PingsExactly pingProcess [] 10 0 3 lateReply := by
  have hopen : ∀ j ≤ 1, ((lateReply 0).poll j).Open (lateReply 0).start 1000 := by
    intro j hj
    rcases Nat.le_one_iff_eq_zero_or_eq_one.mp hj with rfl | rfl
    · decide +kernel
    · decide +kernel
  have hheard : (lateReply 0).Heard 7 1 1000 0 := by
    exact ⟨by decide, 1, hopen, pingReply 7, rfl, by decide +kernel⟩
  have hzero : Returns pingProcess [] 10 0 3 lateReply 0 :=
    (@returns_zero pingProcess [] 10 0 3 lateReply (by decide) (by decide) 0 (by decide)
      (fun j hj => absurd hj (Nat.not_lt_zero j)) hheard).1
  have hlate : ¬ SomeAnswered pingProcess [] 10 0 lateReply := by
    rintro ⟨i, _, hmade, _, k, ⟨d, hd, hreplies⟩, hin⟩
    -- only the first attempt is made, and its first turn has no reply
    obtain rfl : i = 0 := by
      by_contra hi
      exact (hmade 0 (Nat.pos_of_ne_zero hi)).2 hheard
    by_cases hk : k = 0
    · subst hk
      obtain rfl : pingReply 6 = d := Option.some.inj hd
      exact absurd hreplies (by decide +kernel)
    · have hcomes : (lateReply 0).comesIn k = 1200000000 := if_neg hk
      rw [hcomes] at hin
      exact absurd hin (by decide)
  exact ⟨hzero, hlate, fun h => hlate (h.zero.mp hzero)⟩

end JcmController.Heartbeat
