import JcmController.Heartbeat.Descriptors
import JcmController.Heartbeat.Heard
import JcmController.Lib.Detector

/-!
# The receiver is a failure detector

What `hb_receive` keeps in `server_config` and in `hb_state` is the state of a failure detector over
the entries of `server_config`: `hb_time` is when a peer was last heard, `disconnect` and the entry
of `hb_state` say whether it is given up. A round hears the peer whose ip the datagram is; it
suspects the peers that are `silent`, and a suspicion is confirmed by `nu_pinger` of the gateway.

* `receiver`: whom the receiver watches, and what a round learns.
* `visit_judges`, `visitLoop_judges`: what a turn, and the second loop, leave of a peer.
* `hbReceive_tracks`: a round of the receiver is a round of the detector.
* **`receiver_refines_detector`**: after every run the receiver's state is the detector's, and each
  round notifies once for each peer that it newly gives up, and for no other.
* **`peer_down_iff`**: a peer is shown as down exactly when it was silent in the last round that got
  as far as its entry, told from the datagrams, clocks and checks of the run.
* **`outage_notified_once`**: a peer that is up and then silent for good is marked, written as
  "disconnect" and notified once.
* **`heard_peer_stays_up`**: a peer heard often enough is never shown as down nor notified.
-/

namespace JcmController.Heartbeat

open JcmController.Lib

/-! ## What the detector sees -/

/-- Entry `k` is another server. -/
def isPeer (h : Host) (k : Nat) : Bool :=
  h.serverConfig[k]?.any fun node => decide (node.ip ≠ h.myNode.ip)

/-- When the round hears the peer at entry `k`. -/
def heardIn (h : Host) (R : Round) (k : Nat) : Option Int :=
  if isPeer h k = true ∧ h.serverConfig[k]?.map ServerNode.ip = some R.recvData then
    some (R.clock k) else none

/-- `0 > nu_pinger(..)` is false in the check of entry `i`. -/
def Confirmed (h : Host) (R : Round) (i : Nat) : Prop :=
  ∃ ret, checkResult h R i = some ret ∧ 0 ≤ ret

/-- The same, decided. -/
def confirmed (h : Host) (R : Round) (i : Nat) : Bool :=
  (checkResult h R i).any fun ret => decide (0 ≤ ret)

theorem confirmed_iff {h : Host} {R : Round} {i : Nat} :
    confirmed h R i = true ↔ Confirmed h R i := by
  unfold confirmed Confirmed
  rw [Option.any_eq_true]
  simp only [decide_eq_true_eq]

/-- What the receiver watches, and what it learns in a round. -/
def receiver (h : Host) : Watch Round where
  peers := isPeer h
  heard := heardIn h
  late := fun R => silent h.wild R.hbC
  confirmed := confirmed h

/-- What `hb_time` holds before the first round. -/
def startTime (h : Host) (k : Nat) : Int := (h.serverConfig[k]?.map ServerNode.hbTime).getD 0

/-- The detector after these rounds. -/
def detector (h : Host) (Rs : List Round) : Detector :=
  (receiver h).run ⟨startTime h, fun _ => false⟩ Rs

/-! ## One turn -/

/-- The turn at this node does not end the round: the node is the own one, or it is not silent, or
its check succeeds. -/
def Clears (h : Host) (R : Round) (i : Nat) (node : ServerNode) : Prop :=
  node.ip ≠ h.myNode.ip → silent h.wild R.hbC node.hbTime = true → Confirmed h R i

/-- The notifications of entry `n` are those in the list of notices. -/
theorem downs_eq_count (n : Nat) (es : List Event) :
    downs n es = ((notices es).map Prod.fst).count n := by
  induction es with
  | nil => rfl
  | cons e es ih =>
    cases e with
    | hbDown m fd addr =>
      show (if m = n then 1 else 0) + downs n es = (m :: (notices es).map Prod.fst).count n
      rw [List.count_cons, ih, Nat.add_comm]
      simp only [beq_iff_eq]
    | _ => exact ih

/-- What a turn leaves that does not end the process. -/
structure Judges (h : Host) (R : Round) (i : Nat) (node : ServerNode)
    (r : Done (ServerNode × Files) Event) (d : Int) : Prop where
  marks : r.state.1 = node.mark d
  goes : r.exit = .go ↔ Clears h R i node
  judged : node.ip ≠ h.myNode.ip → Clears h R i node →
    (d = DISCONNECT ↔ silent h.wild R.hbC node.hbTime = true)
  kept : node.ip = h.myNode.ip ∨ ¬ Clears h R i node → d = node.disconnect
  once : ∀ n, downs n r.events =
    if n = i ∧ d = DISCONNECT ∧ node.disconnect ≠ DISCONNECT then 1 else 0

section Turn

variable {h : Host} {R : Round} {i : Nat} {node : ServerNode} {l : Files} {st : HbState}

/-- The notifications of a turn, from what was decided. -/
theorem Does.downs {d : Decision} {r : Done (ServerNode × Files) Event} (hd : Does i node l d r)
    (n : Nat) : downs n r.events = if n = i ∧ d.notified.isSome = true then 1 else 0 := by
  rw [downs_eq_count, hd.notices]
  cases d.notified with
  | none => simp
  | some addr =>
    by_cases hn : n = i
    · subst hn
      simp
    · simp [hn, Ne.symm hn]

/-- The silent branch, behind its check, notifies a peer that is not marked. -/
theorem decideDown_notifies {fopen : Bool} (hl : l.Over st) (hv : Valued st)
    (ha : Agrees h st node) (hpeer : node.ip ≠ h.myNode.ip)
    (hgoes : (decideDown fopen node (l.entry node.ip)).goes = true) :
    (decideDown fopen node (l.entry node.ip)).notified.isSome = true ↔
      node.disconnect ≠ DISCONNECT := by
  have hentry : ∀ entry, l.entry node.ip = some entry → st.get? node.ip = some entry := by
    intro entry he
    obtain ⟨st', hobj, hget⟩ := Option.bind_eq_some_iff.mp he
    rwa [hl.obj st' hobj] at hget
  cases he : l.entry node.ip with
  | none =>
    rw [he] at hgoes
    cases hgoes
  | some entry =>
    rw [he] at hgoes
    have hget := hentry entry he
    have hmark : node.disconnect ≠ DISCONNECT ↔ entry ≠ ascii "disconnect" := by
      rw [Ne, ← ha hpeer, hget, Option.some_inj]
    rw [hmark]
    unfold decideDown at hgoes ⊢
    by_cases hc : entry = ascii "connect"
    · simp only [if_pos hc] at hgoes ⊢
      cases ht : node.tengIp with
      | none =>
        rw [ht] at hgoes
        cases hgoes
      | some teng =>
        exact iff_of_true rfl fun hd => connect_ne_disconnect (hc.symm.trans hd)
    · simp only [if_neg hc]
      exact iff_of_false Bool.false_ne_true fun hd => hd ((hv _ _ hget).resolve_left hc)

/-- A turn at a silent peer: the check does not return or fails, or the peer is given up. -/
theorem silent_judges (hl : l.Over st) (hv : Valued st) (ha : Agrees h st node)
    (hpeer : node.ip ≠ h.myNode.ip) (hs : silent h.wild R.hbC node.hbTime = true)
    (hx : (visit h R i node l).exit ≠ .crash) : ∃ d, Judges h R i node (visit h R i node l) d := by
  have hdoes := visit_does h R i node l
  unfold decision at hdoes
  rw [if_neg hpeer, if_pos hs] at hdoes
  have hvisit : visit h R i node l =
      (gatewayCheck h R i node l).andThen fun s => markDown R i s.1 s.2 := by
    unfold visit
    rw [if_neg hpeer, if_pos hs]
  obtain ⟨hnone, hsome⟩ := gatewayCheck_exit h R i node l
  cases hret : checkResult h R i with
  | none =>
    rw [hvisit, Done.andThen_stop (by rw [hnone hret]; exact Exit.noConfusion)] at hx
    exact absurd (hnone hret) hx
  | some ret =>
    have hexit := hsome ret hret
    by_cases hneg : ret < 0
    · have hno : ¬ Clears h R i node := by
        intro hpass
        obtain ⟨ret', hret', hpos⟩ := hpass hpeer hs
        obtain rfl := Option.some.inj (hret.symm.trans hret')
        omega
      simp only [hret, if_pos hneg] at hdoes
      refine ⟨node.disconnect, hdoes.marks,
        iff_of_false (fun hgo => Bool.false_ne_true (hdoes.exit.mp hgo)) hno,
        fun _ hpass => absurd hpass hno, fun _ => rfl, fun n => ?_⟩
      rw [hdoes.downs, if_neg (by simp), if_neg fun ⟨_, hd, hnot⟩ => hnot hd]
    · have hpass : Clears h R i node := fun _ _ => ⟨ret, hret, not_lt.mp hneg⟩
      rw [if_neg hneg] at hexit
      simp only [hret, if_neg hneg] at hdoes
      have hgo : (visit h R i node l).exit = .go := by
        refine go_of_ne ?_ hx
        rw [hvisit, Done.andThen_go hexit]
        exact markDown_ne_cont
      have hmark := (decideDown_shows (R.fopen i) node (l.entry node.ip)).1
      refine ⟨DISCONNECT, hmark ▸ hdoes.marks, iff_of_true hgo hpass,
        fun _ _ => iff_of_true rfl hs,
        fun hor => absurd hor (not_or.mpr ⟨hpeer, not_not.mpr hpass⟩), fun n => ?_⟩
      have hnote := decideDown_notifies hl hv ha hpeer (hdoes.exit.mp hgo)
      rw [hdoes.downs]
      exact if_congr (and_congr_right fun _ => hnote.trans (and_iff_right rfl).symm) rfl rfl

/-- **What a turn leaves of its node**, the copies of its status being in agreement. -/
theorem visit_judges (hl : l.Over st) (hv : Valued st) (ha : Agrees h st node)
    (hx : (visit h R i node l).exit ≠ .crash) : ∃ d, Judges h R i node (visit h R i node l) d := by
  have hdoes := visit_does h R i node l
  unfold decision at hdoes
  by_cases hpeer : node.ip = h.myNode.ip
  · rw [if_pos hpeer] at hdoes
    have hpass : Clears h R i node := fun hne => absurd hpeer hne
    refine ⟨node.disconnect, hdoes.marks, iff_of_true (hdoes.exit.mpr rfl) hpass,
      fun hne => absurd hpeer hne, fun _ => rfl, fun n => ?_⟩
    rw [hdoes.downs, if_neg (by simp), if_neg fun ⟨_, hd, hnot⟩ => hnot hd]
  · rw [if_neg hpeer] at hdoes
    by_cases hs : silent h.wild R.hbC node.hbTime = true
    · exact silent_judges hl hv ha hpeer hs hx
    · rw [if_neg hs] at hdoes
      have hpass : Clears h R i node := fun _ hs' => absurd hs' hs
      have hvisit : visit h R i node l = markUp R i node l := by
        unfold visit
        rw [if_neg hpeer, if_neg hs]
      obtain ⟨hmark, hnote, _⟩ := decideUp_disconnect (R.fopen i) node (l.entry node.ip)
      refine ⟨_, hdoes.marks, iff_of_true (go_of_ne ?_ hx) hpass,
        fun _ _ => iff_of_false hmark hs,
        fun hor => absurd hor (not_or.mpr ⟨hpeer, not_not.mpr hpass⟩), fun n => ?_⟩
      · rw [hvisit]
        exact markUp_ne_cont
      · rw [hdoes.downs, hnote, if_neg (by simp), if_neg fun ⟨_, hd, _⟩ => hmark hd]

end Turn

/-! ## The second loop -/

/-- The loop gets past the first `k + 1` of these nodes. -/
def ClearsAll (h : Host) (R : Round) (nodes : List ServerNode) (i k : Nat) : Prop :=
  ∀ j ≤ k, ∀ node, nodes[j]? = some node → Clears h R (i + j) node

/-- What the loop leaves of the node at place `k`. -/
structure LoopJudges (h : Host) (R : Round) (i : Nat) (nodes nodes' : List ServerNode)
    (es : List Event) (k : Nat) (node : ServerNode) (d : Int) : Prop where
  marks : nodes'[k]? = some (node.mark d)
  judged : node.ip ≠ h.myNode.ip → ClearsAll h R nodes i k →
    (d = DISCONNECT ↔ silent h.wild R.hbC node.hbTime = true)
  kept : node.ip = h.myNode.ip ∨ ¬ ClearsAll h R nodes i k → d = node.disconnect
  once : downs (i + k) es = if d = DISCONNECT ∧ node.disconnect ≠ DISCONNECT then 1 else 0

section Loop

variable {h : Host} {R : Round}

theorem clearsAll_zero {node : ServerNode} {nodes : List ServerNode} {i : Nat} :
    ClearsAll h R (node :: nodes) i 0 ↔ Clears h R i node := by
  constructor
  · intro hall
    exact hall 0 (Nat.le_refl 0) node rfl
  · intro hpass j hj node' hk
    obtain rfl := Nat.le_zero.mp hj
    obtain rfl : node = node' := Option.some.inj hk
    exact hpass

theorem clearsAll_succ {node : ServerNode} {nodes : List ServerNode} {i k : Nat} :
    ClearsAll h R (node :: nodes) i (k + 1) ↔
      Clears h R i node ∧ ClearsAll h R nodes (i + 1) k := by
  constructor
  · intro hall
    refine ⟨hall 0 (Nat.zero_le _) node rfl, fun j hj node' hk => ?_⟩
    rw [show i + 1 + j = i + (j + 1) by omega]
    exact hall (j + 1) (by omega) node' hk
  · rintro ⟨hhead, htail⟩ j hj node' hk
    cases j with
    | zero =>
      obtain rfl : node = node' := Option.some.inj hk
      exact hhead
    | succ j =>
      rw [show i + (j + 1) = i + 1 + j by omega]
      exact htail j (by omega) node' hk

/-- **What the second loop leaves of each node**, where it does not end the process. -/
theorem visitLoop_judges (nodes : List ServerNode) (i : Nat) (l : Files) (st : HbState)
    (hips : (nodes.map ServerNode.ip).Nodup) (hl : l.Over st) (hv : Valued st)
    (ha : ∀ node ∈ nodes, Agrees h st node) (hx : (visitLoop h R nodes i l).exit ≠ .crash) :
    (∀ n, n < i ∨ i + nodes.length ≤ n → downs n (visitLoop h R nodes i l).events = 0) ∧
      ∀ k node, nodes[k]? = some node → ∃ d, LoopJudges h R i nodes
        (visitLoop h R nodes i l).state.1 (visitLoop h R nodes i l).events k node d := by
  induction nodes generalizing i l st with
  | nil => exact ⟨fun _ _ => rfl, fun _ _ hk => by cases hk⟩
  | cons node nodes ih =>
    obtain ⟨hnot, hnodup⟩ := List.nodup_cons.mp hips
    obtain ⟨ha₀, hrest⟩ := List.forall_mem_cons.mp ha
    by_cases hgo : (visit h R i node l).exit = .go
    · rw [visitLoop_go hgo] at hx ⊢
      have hx₀ : (visit h R i node l).exit ≠ .crash := by
        rw [hgo]
        exact Exit.noConfusion
      obtain ⟨d, hd⟩ := visit_judges (R := R) (i := i) hl hv ha₀ hx₀
      obtain ⟨st₁, hl₁, hk₁, _⟩ := visit_agrees hl hv ha₀ hx₀
      have hrest₁ : ∀ node' ∈ nodes, Agrees h st₁ node' := fun node' hn =>
        (hrest node' hn).of_get? (hk₁.others node'.ip (List.mem_singleton.not.mpr fun he =>
          hnot (he ▸ List.mem_map_of_mem hn)))
      obtain ⟨hbefore, hnodes⟩ := ih (i + 1) _ st₁ hnodup hl₁ (hk₁.valued hv) hrest₁ hx
      have hpass := hd.goes.mp hgo
      refine ⟨fun n hn => ?_, fun k node' hk => ?_⟩
      · rw [List.length_cons] at hn
        rw [downs_append, hd.once, if_neg (by omega), hbefore n (by omega)]
      · cases k with
        | zero =>
          obtain rfl : node = node' := Option.some.inj hk
          refine ⟨d, congrArg some hd.marks, fun hpeer _ => hd.judged hpeer hpass,
            fun hor => hd.kept (hor.imp_right fun hno => absurd (clearsAll_zero.mpr hpass) hno), ?_⟩
          rw [Nat.add_zero, downs_append, hd.once, hbefore _ (Or.inl (Nat.lt_succ_self i))]
          simp only [Nat.add_zero, true_and]
        | succ k =>
          obtain ⟨d', hd'⟩ := hnodes k node' hk
          refine ⟨d', hd'.marks, fun hpeer hall => hd'.judged hpeer (clearsAll_succ.mp hall).2,
            fun hor => hd'.kept (hor.imp_right fun hno hall => ?_), ?_⟩
          · exact hno (clearsAll_succ.mpr ⟨hpass, hall⟩)
          rw [downs_append, hd.once, if_neg (by omega), Nat.zero_add,
            show i + (k + 1) = i + 1 + k by omega, hd'.once]
    · rw [visitLoop_stop hgo] at hx ⊢
      obtain ⟨d, hd⟩ := visit_judges (R := R) (i := i) hl hv ha₀ hx
      have hno : ¬ Clears h R i node := fun hpass => hgo (hd.goes.mpr hpass)
      refine ⟨fun n hn => ?_, fun k node' hk => ?_⟩
      · rw [List.length_cons] at hn
        rw [hd.once, if_neg (by omega)]
      · cases k with
        | zero =>
          obtain rfl : node = node' := Option.some.inj hk
          refine ⟨d, congrArg some hd.marks,
            fun hpeer hall => hd.judged hpeer (clearsAll_zero.mp hall),
            fun _ => hd.kept (Or.inr hno), ?_⟩
          rw [Nat.add_zero, hd.once]
          simp only [true_and]
        | succ k =>
          -- the loop has ended before this node
          refine ⟨node'.disconnect, hk, fun _ hall => absurd (clearsAll_succ.mp hall).1 hno,
            fun _ => rfl, ?_⟩
          rw [hd.once, if_neg (by omega), if_neg fun ⟨hd, hnot⟩ => hnot hd]

end Loop

/-! ## Rounds -/

/-- The state of the receiver is the detector's. -/
structure Tracks (h : Host) (s : Hb) (d : Detector) : Prop where
  agreement : InAgreement h s
  times : ∀ k node, s.nodes[k]? = some node → isPeer h k = true → node.hbTime = d.heardAt k
  marks : ∀ k node, s.nodes[k]? = some node → isPeer h k = true →
    (node.disconnect = DISCONNECT ↔ d.down k = true)
  peers : ∀ k, d.down k = true → isPeer h k = true

section Round

variable {h : Host} {s : Hb} {d : Detector} {R : Round}

theorem isPeer_of_getElem? {nodes : List ServerNode}
    (hips : nodes.map ServerNode.ip = h.serverConfig.map ServerNode.ip) {k : Nat}
    {node : ServerNode} (hk : nodes[k]? = some node) :
    isPeer h k = true ↔ node.ip ≠ h.myNode.ip := by
  have hip : (h.serverConfig.map ServerNode.ip)[k]? = some node.ip := by
    rw [← hips, List.getElem?_map, hk]
    rfl
  rw [List.getElem?_map] at hip
  obtain ⟨node', hk', hip'⟩ := Option.map_eq_some_iff.mp hip
  unfold isPeer
  rw [hk', Option.any_some, decide_eq_true_eq, hip']

theorem isPeer_eq_false {nodes : List ServerNode}
    (hips : nodes.map ServerNode.ip = h.serverConfig.map ServerNode.ip) {k : Nat}
    (hk : nodes[k]? = none) : isPeer h k = false := by
  have hlen := congrArg List.length hips
  rw [List.length_map, List.length_map] at hlen
  have hk' : h.serverConfig[k]? = none := by
    rw [List.getElem?_eq_none_iff] at hk ⊢
    omega
  unfold isPeer
  rw [hk']
  rfl

/-- The time of a peer after the first loop. -/
theorem hear_hbTime (ht : Tracks h s d) {k : Nat} {node : ServerNode}
    (hk : (hear h R s.nodes 0)[k]? = some node) (hpeer : isPeer h k = true) :
    node.hbTime = (receiver h).hear d.heardAt R k := by
  obtain ⟨node₀, hk₀, rfl⟩ := heard_node hk
  have hne := (isPeer_of_getElem? ht.agreement.1 hk₀).mp hpeer
  have hip : h.serverConfig[k]?.map ServerNode.ip = some node₀.ip := by
    rw [← List.getElem?_map, ← ht.agreement.1, List.getElem?_map, hk₀]
    rfl
  show _ = (heardIn h R k).getD (d.heardAt k)
  unfold hearNode heardIn
  rw [if_neg hne, hip]
  by_cases hr : node₀.ip = R.recvData
  · rw [if_pos hr, if_pos ⟨hpeer, congrArg some hr⟩]
    rfl
  · rw [if_neg hr, if_neg fun hand => hr (Option.some.inj hand.2)]
    exact ht.times k node₀ hk₀ hpeer

/-- The first loop leaves the marks alone. -/
theorem hear_disconnect {k : Nat} {node node₀ : ServerNode}
    (hk : (hear h R s.nodes 0)[k]? = some node) (hk₀ : s.nodes[k]? = some node₀) :
    node.disconnect = node₀.disconnect := by
  obtain ⟨node', hk', rfl⟩ := heard_node hk
  obtain rfl := Option.some.inj (hk'.symm.trans hk₀)
  obtain ⟨t, ht⟩ := hearNode_eq h R k node'
  rw [ht]

/-- The second loop gets past an entry when the detector judges it. -/
theorem clearsAll_iff (ht : Tracks h s d) (k : Nat) :
    ClearsAll h R (hear h R s.nodes 0) 0 k ↔
      (receiver h).judges ((receiver h).hear d.heardAt R) R k = true := by
  have hips : (hear h R s.nodes 0).map ServerNode.ip = h.serverConfig.map ServerNode.ip :=
    (hear_ips h R s.nodes 0).trans ht.agreement.1
  rw [Watch.judges_iff]
  refine forall₂_congr fun j _ => ?_
  rw [Nat.zero_add]
  cases hj : (hear h R s.nodes 0)[j]? with
  | none =>
    have hno := isPeer_eq_false hips hj
    refine iff_of_true (fun _ h' => by cases h') fun hs => ?_
    exact absurd (hno.symm.trans (Watch.suspects_iff.mp hs).1) Bool.false_ne_true
  | some node =>
    have hpeer := isPeer_of_getElem? hips hj
    constructor
    · intro hclears hs
      obtain ⟨hp, hlate⟩ := Watch.suspects_iff.mp hs
      rw [← hear_hbTime ht hj hp] at hlate
      exact confirmed_iff.mpr (hclears node rfl (hpeer.mp hp) hlate)
    · intro hconf node' hn hne hlate
      obtain rfl := Option.some.inj hn
      refine confirmed_iff.mp (hconf (Watch.suspects_iff.mpr ⟨hpeer.mpr hne, ?_⟩))
      rw [← hear_hbTime ht hj (hpeer.mpr hne)]
      exact hlate

/-- What a round leaves of the node at each place. -/
theorem hbReceive_judges (hips : (h.serverConfig.map ServerNode.ip).Nodup)
    (hs : InAgreement h s) (hrun : (hbReceive h R s).1.running = true) :
    (∀ n, n < 0 ∨ 0 + (hear h R s.nodes 0).length ≤ n → downs n (hbReceive h R s).2 = 0) ∧
      ∀ k node, (hear h R s.nodes 0)[k]? = some node → ∃ e, LoopJudges h R 0 (hear h R s.nodes 0)
        (hbReceive h R s).1.nodes (hbReceive h R s).2 k node e := by
  obtain ⟨hnodes, st, hfile, _, hv, ha⟩ := hs
  have hover : Files.Over ⟨if R.readOk then s.hbState else none, s.hbState⟩ st :=
    ⟨hfile, fun st' hst' => Option.some.inj ((mirrors_start R s st' hst').symm.trans hfile)⟩
  have hagrees : ∀ node ∈ hear h R s.nodes 0, Agrees h st node := by
    intro node hn
    obtain ⟨node', hmem, t, rfl⟩ := mem_hear hn
    exact ha node' hmem
  exact visitLoop_judges (R := R) (hear h R s.nodes 0) 0 _ st
    (by rw [hear_ips, hnodes]; exact hips) hover hv hagrees (of_decide_eq_true hrun)

/-- The mark a round leaves is the detector's verdict. -/
theorem mark_iff (ht : Tracks h s d) {k : Nat} {node : ServerNode} {e : Int}
    {nodes' : List ServerNode} {es : List Event} (hk : (hear h R s.nodes 0)[k]? = some node)
    (hpeer : isPeer h k = true)
    (hj : LoopJudges h R 0 (hear h R s.nodes 0) nodes' es k node e) :
    e = DISCONNECT ↔ ((receiver h).round d R).down k = true := by
  have hips : (hear h R s.nodes 0).map ServerNode.ip = h.serverConfig.map ServerNode.ip :=
    (hear_ips h R s.nodes 0).trans ht.agreement.1
  have hne := (isPeer_of_getElem? hips hk).mp hpeer
  by_cases hall : ClearsAll h R (hear h R s.nodes 0) 0 k
  · rw [hj.judged hne hall, hear_hbTime ht hk hpeer,
      Watch.round_judged ((clearsAll_iff ht k).mp hall), Watch.suspects_iff]
    exact (and_iff_right hpeer).symm
  · obtain ⟨node₀, hk₀, _⟩ := heard_node hk
    rw [hj.kept (Or.inr hall), hear_disconnect hk hk₀,
      Watch.round_unjudged fun hjudged => hall ((clearsAll_iff ht k).mpr hjudged)]
    exact ht.marks k node₀ hk₀ hpeer

/-- Only peers are given up. -/
theorem isPeer_of_down (ht : Tracks h s d) {k : Nat}
    (hk : ((receiver h).round d R).down k = true) : isPeer h k = true := by
  by_cases hj : (receiver h).judges ((receiver h).hear d.heardAt R) R k = true
  · rw [Watch.round_judged hj] at hk
    exact (Watch.suspects_iff.mp hk).1
  · rw [Watch.round_unjudged hj] at hk
    exact ht.peers k hk

/-- **A round of the receiver is a round of the detector.** -/
theorem hbReceive_tracks (hips : (h.serverConfig.map ServerNode.ip).Nodup) (ht : Tracks h s d)
    (hrun : (hbReceive h R s).1.running = true) :
    Tracks h (hbReceive h R s).1 ((receiver h).round d R) := by
  have hagree := hbReceive_agrees hips ht.agreement R hrun
  obtain ⟨_, hloop⟩ := hbReceive_judges hips ht.agreement hrun
  -- a node after the round is the one after the first loop, marked
  have hnode : ∀ k node', (hbReceive h R s).1.nodes[k]? = some node' → ∃ node e,
      (hear h R s.nodes 0)[k]? = some node ∧ node' = node.mark e ∧
        LoopJudges h R 0 (hear h R s.nodes 0) (hbReceive h R s).1.nodes (hbReceive h R s).2 k node
          e := by
    intro k node' hk'
    have hlen := congrArg List.length (hbReceive_ips h R s)
    have hlen₀ := congrArg List.length (hear_ips h R s.nodes 0)
    simp only [List.length_map] at hlen hlen₀
    have hlt : k < (hear h R s.nodes 0).length := by
      have hlt' := (List.getElem?_eq_some_iff.mp hk').1
      omega
    obtain ⟨e, hj⟩ := hloop k _ (List.getElem?_eq_getElem hlt)
    exact ⟨_, e, List.getElem?_eq_getElem hlt, Option.some.inj (hk'.symm.trans hj.marks), hj⟩
  refine ⟨hagree, fun k node' hk' hpeer => ?_, fun k node' hk' hpeer => ?_,
    fun k hk => isPeer_of_down ht hk⟩
  · obtain ⟨node, e, hk, rfl, _⟩ := hnode k node' hk'
    have htime := hear_hbTime ht hk hpeer
    exact htime
  · obtain ⟨node, e, hk, rfl, hj⟩ := hnode k node' hk'
    exact mark_iff ht hk hpeer hj

/-- **It notifies once for each peer that it newly gives up**, and for no other. -/
theorem hbReceive_downs (hips : (h.serverConfig.map ServerNode.ip).Nodup) (ht : Tracks h s d)
    (hrun : (hbReceive h R s).1.running = true) (k : Nat) :
    downs k (hbReceive h R s).2 =
      if ((receiver h).round d R).down k = true ∧ ¬ d.down k = true then 1 else 0 := by
  have hheard : (hear h R s.nodes 0).map ServerNode.ip = h.serverConfig.map ServerNode.ip :=
    (hear_ips h R s.nodes 0).trans ht.agreement.1
  obtain ⟨hout, hloop⟩ := hbReceive_judges hips ht.agreement hrun
  cases hk : (hear h R s.nodes 0)[k]? with
  | none =>
    have hno := isPeer_eq_false hheard hk
    rw [if_neg fun ⟨hd, _⟩ => Bool.false_ne_true (hno.symm.trans (isPeer_of_down ht hd))]
    exact hout k (Or.inr (by rw [Nat.zero_add]; exact List.getElem?_eq_none_iff.mp hk))
  | some node =>
    obtain ⟨e, hj⟩ := hloop k node hk
    obtain ⟨node₀, hk₀, _⟩ := heard_node hk
    have honce := hj.once
    rw [Nat.zero_add] at honce
    refine honce.trans ?_
    by_cases hpeer : isPeer h k = true
    · refine if_congr (and_congr (mark_iff ht hk hpeer hj) (not_congr ?_)) rfl rfl
      rw [hear_disconnect hk hk₀]
      exact ht.marks k node₀ hk₀ hpeer
    · have hown : node.ip = h.myNode.ip :=
        not_not.mp (mt (isPeer_of_getElem? hheard hk).mpr hpeer)
      have hkept := hj.kept (Or.inl hown)
      rw [if_neg fun ⟨hd, hnot⟩ => hnot (hkept ▸ hd),
        if_neg fun ⟨hd, _⟩ => hpeer (isPeer_of_down ht hd)]

end Round

/-! ## Runs -/

section Run

variable {h : Host}

theorem running_before {s : Hb} {R : Round} (hrun : (step h s R).1.running = true) :
    s.running = true := by
  by_contra hnot
  unfold step at hrun
  rw [if_neg hnot] at hrun
  exact hnot hrun

theorem started_tracks (hips : (h.serverConfig.map ServerNode.ip).Nodup)
    (hconn : ∀ node ∈ h.serverConfig, node.disconnect = CONNECT) (before : Option HbState) :
    Tracks h (started h before) (detector h []) := by
  refine ⟨started_agrees hips hconn before, fun k node hk _ => ?_, fun k node hk _ => ?_,
    fun k hk => absurd hk Bool.false_ne_true⟩
  · show node.hbTime = (h.serverConfig[k]?.map ServerNode.hbTime).getD 0
    rw [show h.serverConfig[k]? = some node from hk]
    rfl
  · refine iff_of_false ?_ Bool.false_ne_true
    rw [hconn node (List.mem_of_getElem? hk)]
    decide

theorem detector_concat (Rs : List Round) (R : Round) :
    detector h (Rs ++ [R]) = (receiver h).round (detector h Rs) R := Watch.run_concat _ _ _ _

/-- The state after every part of a run is the detector's. -/
theorem run_tracks (hips : (h.serverConfig.map ServerNode.ip).Nodup)
    (hconn : ∀ node ∈ h.serverConfig, node.disconnect = CONNECT) (before : Option HbState)
    (Rs : List Round) (hrun : (final (step h) (started h before) Rs).running = true) :
    Tracks h (final (step h) (started h before) Rs) (detector h Rs) := by
  induction Rs using List.reverseRecOn with
  | nil => exact started_tracks hips hconn before
  | append_singleton Rs R ih =>
    rw [final_concat] at hrun ⊢
    have hrun₀ := running_before hrun
    have hstep : step h (final (step h) (started h before) Rs) R =
        hbReceive h R (final (step h) (started h before) Rs) := if_pos hrun₀
    rw [hstep] at hrun ⊢
    rw [detector_concat]
    exact hbReceive_tracks hips (ih hrun₀) hrun

/-- A process that runs at the end of a run was running all along. -/
theorem running_of_append {s : Hb} {pre post : List Round}
    (hrun : (final (step h) s (pre ++ post)).running = true) :
    (final (step h) s pre).running = true := by
  induction post using List.reverseRecOn with
  | nil => rwa [List.append_nil] at hrun
  | append_singleton post R ih =>
    rw [← List.append_assoc, final_concat] at hrun
    exact ih (running_before hrun)

/-- The notifications of the last round of a run. -/
theorem run_downs (hips : (h.serverConfig.map ServerNode.ip).Nodup)
    (hconn : ∀ node ∈ h.serverConfig, node.disconnect = CONNECT) (before : Option HbState)
    (Rs : List Round) (R : Round)
    (hrun : (final (step h) (started h before) (Rs ++ [R])).running = true) (k : Nat) :
    downs k (step h (final (step h) (started h before) Rs) R).2 =
      if (detector h (Rs ++ [R])).down k = true ∧ ¬ (detector h Rs).down k = true then 1
      else 0 := by
  rw [final_concat] at hrun
  have hrun₀ := running_before hrun
  have hstep : step h (final (step h) (started h before) Rs) R =
      hbReceive h R (final (step h) (started h before) Rs) := if_pos hrun₀
  rw [hstep] at hrun ⊢
  rw [detector_concat]
  exact hbReceive_downs hips (run_tracks hips hconn before Rs hrun₀) hrun k

/-- What a peer's entry is, from the detector. -/
theorem Tracks.entry {s : Hb} {d : Detector} (ht : Tracks h s d) {k : Nat} {node : ServerNode}
    (hk : s.nodes[k]? = some node) (hpeer : isPeer h k = true) :
    entryIn s.hbState node.ip =
      some (if d.down k = true then ascii "disconnect" else ascii "connect") := by
  obtain ⟨hnodes, st, hfile, hkeys, hv, ha⟩ := ht.agreement
  have hagree := ha node (List.mem_of_getElem? hk) ((isPeer_of_getElem? hnodes hk).mp hpeer)
  rw [ht.marks k node hk hpeer] at hagree
  have hmem : node.ip ∈ st.keys := by
    rw [hkeys.mem_iff, ← hnodes]
    exact List.mem_map_of_mem (List.mem_of_getElem? hk)
  obtain ⟨entry, hget⟩ :=
    Option.ne_none_iff_exists'.mp (mt Assoc.get?_eq_none_iff.mp (not_not.mpr hmem))
  rw [hfile]
  show st.get? node.ip = _
  by_cases hd : d.down k = true
  · rw [if_pos hd]
    exact hagree.mpr hd
  · rw [if_neg hd, hget]
    refine congrArg some ((hv _ _ hget).resolve_right fun he => hd (hagree.mp ?_))
    rw [hget, he]

end Run

/-! ## The refinement -/

/-- **The receiver is the detector**: after every run from `hb_start`, in which the process has not
ended, each peer's `hb_time` is the time at which it was last heard, its mark and its entry of
`hb_state` say whether the detector has given it up, and each round has notified once for each peer
that it newly gave up, and for no other entry. -/
theorem receiver_refines_detector (h : Host) (hips : (h.serverConfig.map ServerNode.ip).Nodup)
    (hconn : ∀ node ∈ h.serverConfig, node.disconnect = CONNECT) (before : Option HbState)
    (Rs : List Round) (hrun : (final (step h) (started h before) Rs).running = true) :
    Tracks h (final (step h) (started h before) Rs) (detector h Rs) ∧
      (∀ k node, h.serverConfig[k]? = some node → node.ip ≠ h.myNode.ip →
        entryIn (final (step h) (started h before) Rs).hbState node.ip = some
          (if (detector h Rs).down k = true then ascii "disconnect" else ascii "connect")) ∧
      ∀ pre R post, Rs = pre ++ R :: post → ∀ k,
        downs k (step h (final (step h) (started h before) pre) R).2 =
          if (detector h (pre ++ [R])).down k = true ∧ ¬ (detector h pre).down k = true then 1
          else 0 := by
  have htracks := run_tracks hips hconn before Rs hrun
  refine ⟨htracks, fun k node hk hne => ?_, fun pre R post hRs k => ?_⟩
  · obtain ⟨node', hk', hip⟩ : ∃ node', (final (step h) (started h before) Rs).nodes[k]? =
        some node' ∧ node'.ip = node.ip := by
      have hget := congrArg (·[k]?) htracks.agreement.1
      simp only [List.getElem?_map, hk, Option.map_some] at hget
      exact Option.map_eq_some_iff.mp hget
    rw [← hip]
    exact htracks.entry hk' ((isPeer_of_getElem? htracks.agreement.1 hk').mpr (hip ▸ hne))
  · rw [hRs, List.append_cons] at hrun
    exact run_downs hips hconn before pre R (running_of_append hrun) k

/-- The peer that was lost, found and lost again. -/
theorem receiver_refines_detector_two :
    Tracks twoHosts (final (step twoHosts) (started twoHosts none) flapping)
      (detector twoHosts flapping) :=
  (receiver_refines_detector twoHosts twoHosts_ips (by decide) none flapping
    (by decide +kernel)).1

/-! ## From the inputs alone -/

/-- When these rounds last heard the peer at entry `k`. -/
def lastHeard (h : Host) (Rs : List Round) (k : Nat) : Int :=
  (Rs.filterMap fun R => heardIn h R k).getLast?.getD (startTime h k)

/-- The peer at entry `k` is silent in the round `R`, which comes after these. -/
def SilentIn (h : Host) (pre : List Round) (R : Round) (k : Nat) : Prop :=
  isPeer h k = true ∧ silent h.wild R.hbC (lastHeard h (pre ++ [R]) k) = true

/-- The round gets as far as entry `k`: the check of every silent peer up to there succeeds. -/
def Reaches (h : Host) (pre : List Round) (R : Round) (k : Nat) : Prop :=
  ∀ j ≤ k, SilentIn h pre R j → Confirmed h R j

/-- The peer was silent in the last round that got as far as its entry. -/
def DownAfter (h : Host) (Rs : List Round) (k : Nat) : Prop :=
  ∃ pre R post, Rs = pre ++ R :: post ∧ Reaches h pre R k ∧ SilentIn h pre R k ∧
    ∀ mid R' rest, post = mid ++ R' :: rest → ¬ Reaches h (pre ++ R :: mid) R' k

section Inputs

variable {h : Host} {pre : List Round} {R : Round} {k : Nat}

theorem suspected_iff :
    (receiver h).Suspected (startTime h) pre R k ↔ SilentIn h pre R k := Watch.suspects_iff

theorem judged_iff : (receiver h).Judged (startTime h) pre R k ↔ Reaches h pre R k := by
  unfold Watch.Judged
  rw [Watch.judges_iff]
  exact forall₂_congr fun j _ => imp_congr suspected_iff confirmed_iff

/-- Whether the detector has given a peer up, from the inputs. -/
theorem detector_down_iff (Rs : List Round) : (detector h Rs).down k = true ↔ DownAfter h Rs k := by
  unfold detector
  rw [Watch.down_run_iff]
  unfold Watch.GivenUp
  rw [or_iff_left fun hno => Bool.false_ne_true hno.1]
  refine exists₃_congr fun pre R post => and_congr_right fun _ => ?_
  refine and_congr judged_iff (and_congr suspected_iff ?_)
  refine forall₃_congr fun mid R' rest => imp_congr_right fun _ => not_congr ?_
  rw [← List.append_cons]
  exact judged_iff

end Inputs

/-- **A peer is shown as down** after a run, by its mark and by its entry of `hb_state`, exactly
when it was silent in the last round that got as far as its entry. -/
theorem peer_down_iff (h : Host) (hips : (h.serverConfig.map ServerNode.ip).Nodup)
    (hconn : ∀ node ∈ h.serverConfig, node.disconnect = CONNECT) (before : Option HbState)
    (Rs : List Round) (hrun : (final (step h) (started h before) Rs).running = true) (k : Nat)
    (node : ServerNode) (hk : (final (step h) (started h before) Rs).nodes[k]? = some node)
    (hpeer : node.ip ≠ h.myNode.ip) :
    (node.disconnect = DISCONNECT ↔ DownAfter h Rs k) ∧
      (entryIn (final (step h) (started h before) Rs).hbState node.ip =
        some (ascii "disconnect") ↔ DownAfter h Rs k) := by
  have htracks := run_tracks hips hconn before Rs hrun
  have hp := (isPeer_of_getElem? htracks.agreement.1 hk).mpr hpeer
  rw [← detector_down_iff, htracks.marks k node hk hp, htracks.entry hk hp]
  refine ⟨Iff.rfl, ?_⟩
  by_cases hd : (detector h Rs).down k = true
  · rw [if_pos hd]
    exact iff_of_true rfl hd
  · rw [if_neg hd]
    exact iff_of_false (fun he => connect_ne_disconnect (Option.some.inj he)) hd

/-- It is down at the end. -/
theorem peer_down_iff_two : DownAfter twoHosts flapping 1 :=
  (peer_down_iff twoHosts twoHosts_ips (by decide) none flapping (by decide +kernel) 1
    { nodeAt "10.0.0.2" with hbTime := 40000, disconnect := DISCONNECT } (by decide +kernel)
    (by decide +kernel)).1.mp rfl

/-! ## One outage -/

section Outage

variable {h : Host} {k : Nat}

theorem runEvents_concat (s : Hb) (Rs : List Round) (R : Round) :
    runEvents h s (Rs ++ [R]) = runEvents h s Rs ++ (step h (final (step h) s Rs) R).2 := by
  induction Rs generalizing s with
  | nil => exact (List.append_nil _)
  | cons R' Rs ih =>
    rw [List.cons_append, runEvents_cons, ih, runEvents_cons, List.append_assoc]
    rfl

/-- A silent peer that was given up stays given up. -/
theorem stays_down {pre : List Round} {R : Round} (hs : SilentIn h pre R k)
    (hd : (detector h pre).down k = true) : (detector h (pre ++ [R])).down k = true := by
  rw [detector_concat]
  have htimes : (receiver h).hear (detector h pre).heardAt R = lastHeard h (pre ++ [R]) :=
    Watch.round_times _ _ _ _
  by_cases hj : (receiver h).judges ((receiver h).hear (detector h pre).heardAt R) R k = true
  · rw [Watch.round_judged hj, htimes]
    exact Watch.suspects_iff.mpr hs
  · rwa [Watch.round_unjudged hj]

/-- The notifications of a run in which a peer stays silent that was not given up before. -/
theorem outage_downs (hips : (h.serverConfig.map ServerNode.ip).Nodup)
    (hconn : ∀ node ∈ h.serverConfig, node.disconnect = CONNECT) (before : Option HbState)
    (pre post : List Round)
    (hrun : (final (step h) (started h before) (pre ++ post)).running = true)
    (hs : ∀ mid R rest, post = mid ++ R :: rest → SilentIn h (pre ++ mid) R k)
    (hup : ¬ (detector h pre).down k = true) :
    downs k (runEvents h (final (step h) (started h before) pre) post) =
      if (detector h (pre ++ post)).down k = true then 1 else 0 := by
  induction post using List.reverseRecOn with
  | nil =>
    rw [List.append_nil, if_neg hup]
    rfl
  | append_singleton post R ih =>
    have hlast := hs post R [] rfl
    rw [← List.append_assoc] at hrun ⊢
    have hround := run_downs hips hconn before (pre ++ post) R hrun k
    rw [runEvents_concat, downs_append, ih (running_of_append hrun), ← final_append, hround]
    · by_cases hd : (detector h (pre ++ post)).down k = true
      · have hd' := stays_down hlast hd
        rw [if_pos hd, if_neg fun hand => hand.2 hd, if_pos hd']
      · rw [if_neg hd, Nat.zero_add]
        exact if_congr (and_iff_left hd) rfl rfl
    · intro mid R' rest hpost
      refine hs mid R' (rest ++ [R]) ?_
      rw [hpost, List.append_assoc]
      rfl

/-- A peer that stays silent from some round on, of which one gets as far as its entry, is given up
at the end. -/
theorem outage_down {pre post : List Round}
    (hsilent : ∀ mid R rest, post = mid ++ R :: rest → SilentIn h (pre ++ mid) R k)
    (hreach : ∃ mid R rest, post = mid ++ R :: rest ∧ Reaches h (pre ++ mid) R k) :
    (detector h (pre ++ post)).down k = true := by
  obtain ⟨mid, R, rest, hpost, hr⟩ := hreach
  have hfirst : (detector h (pre ++ (mid ++ [R]))).down k = true := by
    have hs := hsilent mid R rest hpost
    rw [← List.append_assoc, detector_down_iff]
    exact ⟨pre ++ mid, R, [], rfl, hr, hs, fun mid' R' rest' h' => by
      cases mid' <;> cases h'⟩
  subst hpost
  clear hr
  induction rest using List.reverseRecOn with
  | nil => exact hfirst
  | append_singleton rest R' ih =>
    have hlast : pre ++ (mid ++ R :: (rest ++ [R'])) = pre ++ (mid ++ R :: rest) ++ [R'] := by
      simp only [List.append_assoc, List.cons_append]
    rw [hlast]
    refine stays_down (hsilent (mid ++ R :: rest) R' [] ?_) (ih fun mid' R'' rest' h' => ?_)
    · simp only [List.append_assoc, List.cons_append]
    · refine hsilent mid' R'' (rest' ++ [R']) ?_
      rw [← List.cons_append, ← List.append_assoc, h', List.append_assoc]
      rfl

end Outage

/-- **One notification for each outage**: a peer that is not marked and then silent in every round,
of which one gets as far as its entry, is marked and "disconnect" in `hb_state` at the end, and has
been notified exactly once. -/
theorem outage_notified_once (h : Host) (hips : (h.serverConfig.map ServerNode.ip).Nodup)
    (hconn : ∀ node ∈ h.serverConfig, node.disconnect = CONNECT) (before : Option HbState)
    (pre post : List Round)
    (hrun : (final (step h) (started h before) (pre ++ post)).running = true) (k : Nat)
    (node node' : ServerNode) (hk : (final (step h) (started h before) pre).nodes[k]? = some node)
    (hk' : (final (step h) (started h before) (pre ++ post)).nodes[k]? = some node')
    (hup : node.disconnect ≠ DISCONNECT)
    (hsilent : ∀ mid R rest, post = mid ++ R :: rest → SilentIn h (pre ++ mid) R k)
    (hreach : ∃ mid R rest, post = mid ++ R :: rest ∧ Reaches h (pre ++ mid) R k) :
    node'.disconnect = DISCONNECT ∧
      entryIn (final (step h) (started h before) (pre ++ post)).hbState node'.ip =
        some (ascii "disconnect") ∧
      downs k (runEvents h (final (step h) (started h before) pre) post) = 1 := by
  obtain ⟨mid, R, rest, hpost, -⟩ := id hreach
  have hp := (hsilent mid R rest hpost).1
  have hdown := outage_down hsilent hreach
  have hbefore := run_tracks hips hconn before pre (running_of_append hrun)
  have hafter := run_tracks hips hconn before (pre ++ post) hrun
  refine ⟨(hafter.marks k node' hk' hp).mpr hdown, ?_, ?_⟩
  · rw [hafter.entry hk' hp, if_pos hdown]
  · rw [outage_downs hips hconn before pre post hrun hsilent
      fun hd => hup ((hbefore.marks k node hk hp).mpr hd), if_pos hdown]

/-- Silent in two rounds, and notified in the first. -/
theorem outage_notified_once_two :
    downs 1 (runEvents twoHosts (final (step twoHosts) (started twoHosts none) [heardRound 1000])
      [silentRound 20000, silentRound 30000]) = 1 := by
  have hgone : ∀ pre hbC, pre = [] ∧ hbC = 20000 ∨ pre = [silentRound 20000] ∧ hbC = 30000 →
      SilentIn twoHosts (heardRound 1000 :: pre) (silentRound hbC) 1 := by
    rintro pre hbC (⟨rfl, rfl⟩ | ⟨rfl, rfl⟩) <;> exact ⟨by decide +kernel, by decide +kernel⟩
  refine (outage_notified_once twoHosts twoHosts_ips (by decide) none [heardRound 1000]
    [silentRound 20000, silentRound 30000] (by decide +kernel) 1
    { nodeAt "10.0.0.2" with hbTime := 1000 }
    { nodeAt "10.0.0.2" with hbTime := 1000, disconnect := DISCONNECT } (by decide +kernel)
    (by decide +kernel) (by decide) ?_ ?_).2.2
  · rintro (_ | ⟨_, _ | ⟨_, mid⟩⟩) R rest hpost
    · obtain rfl := (List.cons.inj hpost).1
      exact hgone [] 20000 (Or.inl ⟨rfl, rfl⟩)
    · obtain ⟨rfl, htail⟩ := List.cons.inj hpost
      obtain rfl := (List.cons.inj htail).1
      exact hgone [silentRound 20000] 30000 (Or.inr ⟨rfl, rfl⟩)
    · have hlen := congrArg List.length hpost
      simp at hlen
  · refine ⟨[], silentRound 20000, [silentRound 30000], rfl, fun j hj _ => ?_⟩
    have hret : ∀ j : Fin 2, checkResult twoHosts (silentRound 20000) j = some 0 := by
      decide +kernel
    exact ⟨0, hret ⟨j, Nat.lt_succ_of_le hj⟩, le_refl 0⟩

/-! ## A peer that is heard -/

/-- Where the quotient is an `int`, a peer is silent from 11000 ticks on, in either direction. -/
theorem silent_iff {wild : Int → Bool} {hbC time : Int} (hfit : |hbC - time| < 2 ^ 31 * 1000) :
    silent wild hbC time = true ↔ 11000 ≤ |hbC - time| := by
  have hq : |(hbC - time).tdiv 1000| = |hbC - time| / 1000 := by
    rw [Int.abs_eq_natAbs, Int.natAbs_tdiv, Int.abs_eq_natAbs]
    rfl
  have habs := abs_lt.mp (show |(hbC - time).tdiv 1000| < 2 ^ 31 by omega)
  unfold silent
  simp only [if_pos habs, hq, decide_eq_true_eq, bounds]
  omega

/-- **A peer that is heard often enough** is never shown as down and never notified: in every round
its last heartbeat is less than 11000 ticks from the start of the round. -/
theorem heard_peer_stays_up (h : Host) (hips : (h.serverConfig.map ServerNode.ip).Nodup)
    (hconn : ∀ node ∈ h.serverConfig, node.disconnect = CONNECT) (before : Option HbState)
    (Rs : List Round) (hrun : (final (step h) (started h before) Rs).running = true) (k : Nat)
    (node : ServerNode) (hk : (final (step h) (started h before) Rs).nodes[k]? = some node)
    (hpeer : node.ip ≠ h.myNode.ip)
    (hheard : ∀ pre R post, Rs = pre ++ R :: post →
      |R.hbC - lastHeard h (pre ++ [R]) k| < 11000) :
    node.disconnect ≠ DISCONNECT ∧
      entryIn (final (step h) (started h before) Rs).hbState node.ip = some (ascii "connect") ∧
      downs k (runEvents h (started h before) Rs) = 0 := by
  have hnever : ∀ pre post, Rs = pre ++ post → (detector h pre).down k = false := by
    intro pre post hRs
    refine Watch.never_down _ rfl fun pre' R post' hpre hsus => ?_
    have hs := (suspected_iff.mp hsus).2
    have hclose := hheard pre' R (post' ++ post) (by rw [hRs, hpre, List.append_assoc]; rfl)
    rw [silent_iff (by omega)] at hs
    omega
  have hup := hnever Rs [] (List.append_nil Rs).symm
  have htracks := run_tracks hips hconn before Rs hrun
  have hp := (isPeer_of_getElem? htracks.agreement.1 hk).mpr hpeer
  refine ⟨?_, ?_, ?_⟩
  · rw [Ne, htracks.marks k node hk hp, hup]
    exact Bool.false_ne_true
  · rw [htracks.entry hk hp, hup, if_neg Bool.false_ne_true]
  · clear hk hp htracks hup hheard
    induction Rs using List.reverseRecOn with
    | nil => rfl
    | append_singleton Rs R ih =>
      have hnever' : ∀ pre post, Rs = pre ++ post → (detector h pre).down k = false := by
        intro pre post hRs
        exact hnever pre (post ++ [R]) (by rw [hRs, List.append_assoc])
      rw [runEvents_concat, downs_append, ih (running_of_append hrun) hnever',
        run_downs hips hconn before Rs R hrun k, hnever (Rs ++ [R]) [] (List.append_nil _).symm,
        if_neg fun hand => Bool.false_ne_true hand.1]

/-- Heard in the first of two rounds. -/
theorem heard_peer_stays_up_two :
    downs 1 (runEvents twoHosts (started twoHosts none) [heardRound 1000, silentRound 2000]) =
      0 := by
  refine (heard_peer_stays_up twoHosts twoHosts_ips (by decide) none
    [heardRound 1000, silentRound 2000] (by decide +kernel) 1
    { nodeAt "10.0.0.2" with hbTime := 1000 } (by decide +kernel) (by decide +kernel) ?_).2.2
  rintro (_ | ⟨_, _ | ⟨_, pre⟩⟩) R post hRs
  · obtain rfl := (List.cons.inj hRs).1
    decide +kernel
  · obtain ⟨rfl, htail⟩ := List.cons.inj hRs
    obtain rfl := (List.cons.inj htail).1
    decide +kernel
  · have hlen := congrArg List.length hRs
    simp at hlen

end JcmController.Heartbeat
