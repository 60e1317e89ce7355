import JcmController.Heartbeat.Turns
import JcmController.Lib.Balance

/-!
# The descriptors of one heartbeat round

`hb_send` closes its socket and the second loop of `hb_receive` the device and the file it opens;
`nu_pinger` never closes its socket.

* `nuPinger_account`: a check that gets a socket leaves it open.
* `hbSend_account`: the sender leaves the table as it was.
* **`hbReceive_account`**: a round of the receiver that comes to its end does so exactly when none
  of its checks got a socket.
-/

namespace JcmController.Heartbeat

open JcmController.Lib

/-- Where an open descriptor comes from. -/
inductive Origin where
  | pingSocket
  | desc (d : Desc)
  deriving DecidableEq, Repr

/-- What an event does to the number of open descriptors of an origin. -/
def Event.effect : Event → Origin → Int
  | .ping _ .opened, .pingSocket => 1
  | .opened d', .desc d => if d' = d then 1 else 0
  | .closed d', .desc d => if d' = d then -1 else 0
  | _, _ => 0

/-- What these events do to it. -/
def account (es : List Event) (d : Origin) : Int := balance Event.effect es d

theorem account_append (es es' : List Event) (d : Origin) :
    account (es ++ es') d = account es d + account es' d := balance_append es es'

theorem account_opened_closed (d' : Desc) (d : Origin) :
    account [.opened d'] d + account [.closed d'] d = 0 := by
  cases d with
  | pingSocket => rfl
  | desc d =>
    show ((if d' = d then (1 : Int) else 0) + 0) + ((if d' = d then -1 else 0) + 0) = 0
    by_cases hd : d' = d
    · rw [if_pos hd, if_pos hd]
      decide
    · rw [if_neg hd, if_neg hd]
      decide

/-- What is opened and closed again, with something idle in between. -/
theorem account_bracket (d' : Desc) (es : List Event) {d : Origin} (hes : account es d = 0) :
    account ([.opened d'] ++ es ++ [.closed d']) d = 0 := by
  rw [account_append, account_append, hes, Int.add_zero]
  exact account_opened_closed d' d

/-! ## `hb_send` -/

theorem hbSendLoop_account (h : Host) (o : SendRound) (d : Origin) :
    ∀ (nodes : List ServerNode) (i : Nat) (ret : Int),
      account (hbSendLoop h o nodes i ret).2 d = 0
  | [], _, _ => rfl
  | node :: nodes, i, ret => by
    unfold hbSendLoop
    by_cases hme : node.ip = h.myNode.ip
    · rw [if_pos hme]
      exact hbSendLoop_account h o d nodes (i + 1) ret
    · rw [if_neg hme]
      exact (Int.zero_add _).trans (hbSendLoop_account h o d nodes (i + 1) (o.sendto i))

/-- **The sender closes its socket.** -/
theorem hbSend_account (h : Host) (o : SendRound) (nodes : List ServerNode) (d : Origin) :
    account (hbSend h o nodes).2 d = 0 := by
  unfold hbSend
  by_cases hs : o.socket < 0
  · rw [if_pos hs]
    rfl
  · rw [if_neg hs]
    exact account_bracket .sendSocket _ (hbSendLoop_account h o d nodes 0 0)

/-! ## The check -/

theorem recvIcmp_not_opened (dst : UInt32) (id seqn wait : Int) (i : Nat) (start : Timespec)
    (count : Nat) (ps : List Poll) :
    .opened ∉ (recvIcmp dst id seqn wait i start count ps).2 := by
  induction ps with
  | nil => exact List.not_mem_nil
  | cons p ps ih =>
    unfold recvIcmp
    by_cases hin : (tsdiffInBounds start p.now (UInt64.ofInt wait)).2 = true
    · rw [if_pos hin]
      cases p.got with
      | none => exact ih
      | some d =>
        by_cases hd : d.replies dst id seqn = true
        · simp [hd]
        · simpa [hd] using ih
    · rw [if_neg hin]
      exact List.not_mem_nil

theorem pingLoop_not_opened (pid : Int) (dst : UInt32) (wait : Int) (attempt : Nat → Attempt)
    (left i count : Nat) (ret : Int) :
    .opened ∉ (pingLoop pid dst wait attempt left i count ret).2 := by
  induction left generalizing i count ret with
  | zero => exact List.not_mem_nil
  | succ left ih =>
    unfold pingLoop
    by_cases hc : count ≠ 0
    · rw [if_pos hc]
      exact List.not_mem_nil
    · rw [if_neg hc]
      by_cases hs : (attempt i).sent = -1
      · rw [if_pos hs]
        simpa using ih (i + 1) count (-1)
      · rw [if_neg hs]
        have hrecv := recvIcmp_not_opened dst pid (pid + i) wait i (attempt i).start count
          (attempt i).polls
        cases hr : (recvIcmp dst pid (pid + i) wait i (attempt i).start count
            (attempt i).polls).1 with
        | none => simpa [hr] using hrecv
        | some r => simpa [hr] using ⟨hrecv, ih (i + 1) r.2 r.1⟩

theorem account_pings {i : Nat} {ps : List PingEvent} (hps : .opened ∉ ps) (d : Origin) :
    account (ps.map (Event.ping i)) d = 0 := by
  refine balance_eq_zero fun e he => ?_
  obtain ⟨p, hp, rfl⟩ := List.mem_map.mp he
  cases p with
  | opened => exact absurd hp hps
  | _ => rfl

/-- The check of entry `i` gets a socket. -/
def GetsSocket (h : Host) (R : Round) (i : Nat) : Prop :=
  h.myNode.gateway ≠ none ∧ 0 ≤ (R.check i).socket

instance (h : Host) (R : Round) (i : Nat) : Decidable (GetsSocket h R i) :=
  inferInstanceAs (Decidable (_ ∧ _))

/-- Without a gateway, or without a socket, the check does nothing. -/
theorem nuPinger_idle {h : Host} {R : Round} {i : Nat} (hg : ¬ GetsSocket h R i) :
    (nuPinger h.proc h.myNode.gateway 10 0 (R.check i)).2 = [] := by
  rcases not_and_or.mp hg with hgw | hs
  · rw [not_not.mp hgw]
    rfl
  · cases h.myNode.gateway with
    | none => rfl
    | some gw => rw [nuPinger, if_pos (not_le.mp hs)]

/-- **A check that gets a socket leaves it open.** -/
theorem nuPinger_account (h : Host) (R : Round) (i : Nat) (d : Origin) :
    account ((nuPinger h.proc h.myNode.gateway 10 0 (R.check i)).2.map (Event.ping i)) d =
      if GetsSocket h R i ∧ d = .pingSocket then 1 else 0 := by
  by_cases hg : GetsSocket h R i
  · obtain ⟨gw, hgw⟩ := Option.ne_none_iff_exists'.mp hg.1
    have hping : (nuPinger h.proc h.myNode.gateway 10 0 (R.check i)).2 =
        .opened ::
          (pingLoop h.proc.pid (h.proc.inetAddr gw) 1000 (R.check i).attempt 10 0 0 0).2 := by
      rw [hgw, nuPinger, if_neg (not_lt.mpr hg.2)]
      rfl
    have hloop := account_pings (i := i) (pingLoop_not_opened h.proc.pid (h.proc.inetAddr gw) 1000
      (R.check i).attempt 10 0 0 0) d
    rw [hping]
    show Event.effect (.ping i .opened) d + account _ d = _
    rw [hloop, Int.add_zero]
    cases d with
    | pingSocket =>
      rw [if_pos ⟨hg, rfl⟩]
      rfl
    | desc d =>
      rw [if_neg fun hd => Origin.noConfusion hd.2]
      rfl
  · rw [nuPinger_idle hg, if_neg fun hd => hg hd.1]
    rfl

/-- Without a socket, but with a gateway, the check takes the gateway for reachable. -/
theorem gatewayCheck_go {h : Host} {R : Round} {i : Nat} {node : ServerNode} {l : Files}
    {gw : Bytes} (hgw : h.myNode.gateway = some gw) (hs : (R.check i).socket < 0) :
    (gatewayCheck h R i node l).exit = .go := by
  have hp : nuPinger h.proc h.myNode.gateway 10 0 (R.check i) = (some 2, []) := by
    rw [hgw, nuPinger, if_pos hs]
  simp only [gatewayCheck, hp]
  decide

/-! ## One visit -/

section Visit

variable {h : Host} {R : Round} {i : Nat} {node : ServerNode} {l : Files}

/-- A statement without `break` that does not end the process goes on. -/
theorem go_of_ne {r : Done (ServerNode × Files) Event} (hcont : r.exit ≠ .cont)
    (hcrash : r.exit ≠ .crash) : r.exit = .go := by
  cases hr : r.exit with
  | go => rfl
  | cont => exact absurd hr hcont
  | crash => exact absurd hr hcrash

theorem rewrite_ne_cont {st : HbState} : (rewrite R i node st l).exit ≠ .cont := by
  unfold rewrite
  by_cases ho : R.fopen i = true
  · rw [if_pos ho]
    exact Exit.noConfusion
  · rw [if_neg ho]
    exact Exit.noConfusion

theorem withEntry_ne_cont {f : HbState → Bytes → Done (ServerNode × Files) Event}
    (hf : ∀ st entry, (f st entry).exit ≠ .cont) : (withEntry node l f).exit ≠ .cont := by
  unfold withEntry
  cases l.obj with
  | none => exact Exit.noConfusion
  | some st =>
    cases hget : st.get? node.ip with
    | none => simp [hget]
    | some entry =>
      simp only [hget]
      exact hf st entry

theorem notify_ne_cont : (notify R i node l).exit ≠ .cont := by
  unfold notify
  cases node.tengIp with
  | none => exact Exit.noConfusion
  | some teng => exact Exit.noConfusion

theorem markUp_ne_cont : (markUp R i node l).exit ≠ .cont := by
  unfold markUp
  by_cases hd : node.disconnect = DISCONNECT
  · rw [if_pos hd]
    refine withEntry_ne_cont fun st entry => ?_
    by_cases he : entry = ascii "disconnect"
    · rw [if_pos he]
      exact rewrite_ne_cont
    · rw [if_neg he]
      exact Exit.noConfusion
  · rw [if_neg hd]
    exact Exit.noConfusion

theorem markDown_ne_cont : (markDown R i node l).exit ≠ .cont := by
  refine withEntry_ne_cont fun st entry => ?_
  by_cases he : entry = ascii "connect"
  · rw [if_pos he]
    exact Done.andThen_ne_cont notify_ne_cont fun _ => rewrite_ne_cont
  · rw [if_neg he]
    exact Exit.noConfusion

theorem rewrite_account {st : HbState} (hx : (rewrite R i node st l).exit ≠ .crash) (d : Origin) :
    account (rewrite R i node st l).events d = 0 := by
  unfold rewrite at hx ⊢
  by_cases ho : R.fopen i = true
  · rw [if_pos ho]
    exact account_bracket .hbState [.wrote st] rfl
  · rw [if_neg ho] at hx
    exact absurd rfl hx

theorem withEntry_account {f : HbState → Bytes → Done (ServerNode × Files) Event} {d : Origin}
    (hx : (withEntry node l f).exit ≠ .crash)
    (hf : ∀ st entry, (f st entry).exit ≠ .crash → account (f st entry).events d = 0) :
    account (withEntry node l f).events d = 0 := by
  unfold withEntry at hx ⊢
  cases hobj : l.obj with
  | none => simp [hobj] at hx
  | some st =>
    cases hget : st.get? node.ip with
    | none => simp [hobj, hget] at hx
    | some entry =>
      simp only [hobj, hget] at hx
      simp only [hget]
      exact hf st entry hx

theorem markUp_account (hx : (markUp R i node l).exit ≠ .crash) (d : Origin) :
    account (markUp R i node l).events d = 0 := by
  unfold markUp at hx ⊢
  by_cases hd : node.disconnect = DISCONNECT
  · rw [if_pos hd] at hx ⊢
    refine withEntry_account hx fun st entry hx => ?_
    by_cases he : entry = ascii "disconnect"
    · rw [if_pos he] at hx ⊢
      exact rewrite_account hx d
    · rw [if_neg he]
      rfl
  · rw [if_neg hd]
    rfl

/-- The device is closed again. -/
theorem notify_account (hx : (notify R i node l).exit = .go) (d : Origin) :
    account (notify R i node l).events d = 0 := by
  cases ht : node.tengIp with
  | none =>
    rw [notify_none ht] at hx
    cases hx
  | some teng =>
    obtain ⟨addr, hn⟩ := notify_some (R := R) (i := i) (l := l) ht
    rw [hn]
    by_cases hfd : 0 ≤ R.ioctlFd i
    · simp only [if_pos hfd]
      exact account_bracket .ioctl [.hbDown i (R.ioctlFd i) addr] rfl
    · simp only [if_neg hfd]
      rfl

theorem markDown_account (hx : (markDown R i node l).exit ≠ .crash) (d : Origin) :
    account (markDown R i node l).events d = 0 := by
  refine withEntry_account hx fun st entry hx => ?_
  by_cases he : entry = ascii "connect"
  · rw [if_pos he] at hx ⊢
    by_cases hgo : (notify R i (node.mark DISCONNECT) l).exit = .go
    · rw [← ServerNode.mark, Done.andThen_go hgo] at hx ⊢
      rw [account_append, notify_account hgo, rewrite_account hx, Int.add_zero]
    · rw [← ServerNode.mark, Done.andThen_stop hgo] at hx
      exact absurd (go_of_ne notify_ne_cont hx) hgo
  · rw [if_neg he]
    rfl

/-- The visit of an entry makes a check that gets a socket. -/
def Opens (h : Host) (R : Round) (i : Nat) (node : ServerNode) : Prop :=
  node.ip ≠ h.myNode.ip ∧ silent h.wild R.hbC node.hbTime = true ∧ GetsSocket h R i

instance (h : Host) (R : Round) (i : Nat) (node : ServerNode) : Decidable (Opens h R i node) :=
  inferInstanceAs (Decidable (_ ∧ _ ∧ _))

/-- **The descriptors of one visit**: the socket of the check, if it gets one. -/
theorem visit_account (hx : (visit h R i node l).exit ≠ .crash) (d : Origin) :
    account (visit h R i node l).events d =
      if Opens h R i node ∧ d = .pingSocket then 1 else 0 := by
  unfold visit at hx ⊢
  by_cases hme : node.ip = h.myNode.ip
  · rw [if_pos hme, if_neg fun hg => hg.1.1 hme]
    rfl
  · rw [if_neg hme] at hx ⊢
    by_cases hs : silent h.wild R.hbC node.hbTime = true
    · have hcheck : account (gatewayCheck h R i node l).events d =
          if GetsSocket h R i ∧ d = .pingSocket then 1 else 0 := nuPinger_account h R i d
      have hopens : Opens h R i node ↔ GetsSocket h R i :=
        ⟨fun ho => ho.2.2, fun hg => ⟨hme, hs, hg⟩⟩
      rw [if_pos hs] at hx ⊢
      simp only [hopens]
      by_cases hgo : (gatewayCheck h R i node l).exit = .go
      · rw [Done.andThen_go hgo] at hx ⊢
        rw [account_append, hcheck, markDown_account hx, Int.add_zero]
      · rw [Done.andThen_stop hgo, hcheck]
    · rw [if_neg hs] at hx ⊢
      rw [if_neg fun hg => hs hg.1.2.1, markUp_account hx]

/-- With a gateway, a visit that gets no socket goes on. -/
theorem visit_go {gw : Bytes} (hgw : h.myNode.gateway = some gw)
    (hx : (visit h R i node l).exit ≠ .crash) (ho : ¬ Opens h R i node) :
    (visit h R i node l).exit = .go := by
  by_cases hme : node.ip = h.myNode.ip
  · rw [visit, if_pos hme]
    rfl
  · rw [visit, if_neg hme] at hx ⊢
    by_cases hs : silent h.wild R.hbC node.hbTime = true
    · have hsocket : (R.check i).socket < 0 := by
        by_contra hpos
        exact ho ⟨hme, hs, hgw ▸ Option.some_ne_none gw, not_lt.mp hpos⟩
      rw [if_pos hs, Done.andThen_go (gatewayCheck_go hgw hsocket)] at hx ⊢
      exact go_of_ne markDown_ne_cont hx
    · rw [if_neg hs] at hx ⊢
      exact go_of_ne markUp_ne_cont hx

end Visit

/-! ## One round -/

/-- No visit of the second loop, from entry `i` on, makes a check that gets a socket. -/
def NoneOpens (h : Host) (R : Round) (nodes : List ServerNode) (i : Nat) : Prop :=
  ∀ k node, nodes[k]? = some node → ¬ Opens h R (i + k) node

theorem noneOpens_cons {h : Host} {R : Round} {node : ServerNode} {nodes : List ServerNode}
    {i : Nat} :
    NoneOpens h R (node :: nodes) i ↔ ¬ Opens h R i node ∧ NoneOpens h R nodes (i + 1) := by
  constructor
  · intro hn
    refine ⟨hn 0 node rfl, fun k node' hk => ?_⟩
    rw [Nat.add_right_comm]
    exact hn (k + 1) node' hk
  · rintro ⟨hhead, htail⟩ (_ | k) node' hk
    · cases hk
      exact hhead
    · have h' := htail k node' hk
      rwa [Nat.add_right_comm] at h'

section Loop

variable {h : Host} {R : Round}

/-- **The descriptors of the second loop**, which reaches the first entry with a socket. -/
theorem visitLoop_account :
    ∀ (nodes : List ServerNode) (i : Nat) (l : Files), (visitLoop h R nodes i l).exit ≠ .crash →
      (NoneOpens h R nodes i → ∀ d, account (visitLoop h R nodes i l).events d = 0) ∧
        (¬ NoneOpens h R nodes i → 1 ≤ account (visitLoop h R nodes i l).events .pingSocket) ∧
        0 ≤ account (visitLoop h R nodes i l).events .pingSocket
  | [], i, _, _ =>
    ⟨fun _ _ => rfl, fun hn => absurd (fun _ _ hk => nomatch hk) hn, Int.le_refl 0⟩
  | node :: nodes, i, l, hx => by
    rw [noneOpens_cons]
    by_cases hgo : (visit h R i node l).exit = .go
    · rw [visitLoop_go hgo] at hx ⊢
      have hlive : (visit h R i node l).exit ≠ .crash := by
        rw [hgo]
        exact Exit.noConfusion
      obtain ⟨hzero, hone, hpos⟩ := visitLoop_account nodes (i + 1) _ hx
      simp only [account_append, visit_account hlive]
      by_cases ho : Opens h R i node
      · refine ⟨fun hn => absurd ho hn.1, fun _ => ?_, ?_⟩
        · rw [if_pos ⟨ho, trivial⟩]
          omega
        · rw [if_pos ⟨ho, trivial⟩]
          omega
      · refine ⟨fun hn d => ?_, fun hn => ?_, ?_⟩
        · rw [if_neg fun hd => ho hd.1, hzero hn.2, Int.add_zero]
        · rw [if_neg fun hd => ho hd.1, Int.zero_add]
          exact hone fun htail => hn ⟨ho, htail⟩
        · rw [if_neg fun hd => ho hd.1, Int.zero_add]
          exact hpos
    · rw [visitLoop_stop hgo] at hx ⊢
      simp only [visit_account hx]
      by_cases ho : Opens h R i node
      · refine ⟨fun hn => absurd ho hn.1, fun _ => ?_, ?_⟩
        · rw [if_pos ⟨ho, trivial⟩]
        · rw [if_pos ⟨ho, trivial⟩]
          decide
      · refine ⟨fun hn d => if_neg fun hd => ho hd.1, fun hn => ?_, ?_⟩
        · -- the check gave up: there is no gateway, so no later check would get a socket
          cases hgw : h.myNode.gateway with
          | some gw => exact absurd (visit_go hgw hx ho) hgo
          | none => exact absurd ⟨ho, fun _ _ _ hopens => hopens.2.2.1 hgw⟩ hn
        · rw [if_neg fun hd => ho hd.1]

end Loop

/-- **The descriptors of a round** that comes to its end: the table is as before exactly when no
check got a socket. -/
theorem hbReceive_account {h : Host} {R : Round} {s : Hb}
    (hx : (hbReceive h R s).1.running = true) :
    (∀ d, account (hbReceive h R s).2 d = 0) ↔ NoneOpens h R (hear h R s.nodes 0) 0 := by
  obtain ⟨hzero, hone, _⟩ := visitLoop_account (h := h) (R := R) (hear h R s.nodes 0) 0
    ⟨if R.readOk then s.hbState else none, s.hbState⟩ (of_decide_eq_true hx)
  refine ⟨fun hall => ?_, hzero⟩
  by_contra hn
  have hle := hone hn
  have heq : account (visitLoop h R (hear h R s.nodes 0) 0
      ⟨if R.readOk then s.hbState else none, s.hbState⟩).events .pingSocket = 0 := hall .pingSocket
  omega

end JcmController.Heartbeat
