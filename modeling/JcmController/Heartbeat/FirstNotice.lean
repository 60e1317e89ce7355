import JcmController.Heartbeat.Edges

/-!
# The first notification of a run

Up to the first notification every entry of `hb_state` is "connect", so that only the ips, the times
of the last heartbeats and the gateway checks decide what a round does.

* `outputs` are the new files and the notifications among events.
* `CheckSucceeds`: in some round with a readable file the check of the first silent peer succeeds,
  and in the rounds before it no such check went so far.
* `checkSucceeds_bare`: neither `teng_ip` nor `disconnect` plays a part in it.
* **`run_quiet`**: without it a run has no output.
* **`run_notifies`**: with it, and no `disconnect` set, it notifies, and the first time the address
  in `teng_ip`.
-/

namespace JcmController.Heartbeat

open JcmController.Lib

/-! ## Outputs -/

/-- A new `hb_state`, or a notification. -/
def Event.isOutput : Event → Bool
  | .hbDown _ _ _ | .wrote _ => true
  | _ => false

/-- The files and the notifications among events. -/
def outputs (es : List Event) : List Event := es.filter Event.isOutput

theorem outputs_append (es es' : List Event) : outputs (es ++ es') = outputs es ++ outputs es' :=
  List.filter_append es es'

theorem outputs_quiet {es : List Event} (h : ∀ e ∈ es, e.Quiet) : outputs es = [] := by
  refine List.filter_eq_nil_iff.mpr fun e he hout => ?_
  cases e with
  | hbDown => exact h _ he
  | wrote => exact h _ he
  | _ => cases hout

/-! ## The first silent peer -/

/-- The first peer that a round finds silent, among these entries from entry `i` on. -/
def firstSilent (h : Host) (R : Round) : List ServerNode → Nat → Option Nat
  | [], _ => none
  | node :: nodes, i =>
    if node.ip ≠ h.myNode.ip ∧ silent h.wild R.hbC node.hbTime = true then some i
    else firstSilent h R nodes (i + 1)

/-- What the gateway check of entry `i` returns, if it does. -/
def checkResult (h : Host) (R : Round) (i : Nat) : Option Int :=
  (nuPinger h.proc h.myNode.gateway 10 0 (R.check i)).1

/-- There is a round with a readable file in which the check of the first silent peer succeeds; in
the rounds before it there is no silent peer, or the check of the first one fails. -/
def CheckSucceeds (h : Host) : List ServerNode → List Round → Prop
  | _, [] => False
  | nodes, R :: Rs =>
    match firstSilent h R (hear h R nodes 0) 0 with
    | none => CheckSucceeds h (hear h R nodes 0) Rs
    | some i =>
      match checkResult h R i with
      | none => False
      | some ret => if ret < 0 then CheckSucceeds h (hear h R nodes 0) Rs else R.readOk = true

/-! ## A round without such a check -/

/-- The node without what no decision before the first notification rests on. -/
def ServerNode.bare (node : ServerNode) : ServerNode :=
  { node with tengIp := none, disconnect := CONNECT }

theorem ip_of_bare {node node' : ServerNode} (hn : node'.bare = node.bare) :
    node'.ip = node.ip := by
  have hip : node'.bare.ip = node.bare.ip := by rw [hn]
  exact hip

theorem hbTime_of_bare {node node' : ServerNode} (hn : node'.bare = node.bare) :
    node'.hbTime = node.hbTime := by
  have htime : node'.bare.hbTime = node.bare.hbTime := by rw [hn]
  exact htime

theorem gateway_of_bare {node node' : ServerNode} (hn : node'.bare = node.bare) :
    node'.gateway = node.gateway := by
  have hgateway : node'.bare.gateway = node.bare.gateway := by rw [hn]
  exact hgateway

/-- The object has "connect" for each of these. -/
def Connected (st : HbState) (nodes : List ServerNode) : Prop :=
  ∀ node ∈ nodes, st.get? node.ip = some (ascii "connect")

theorem firstSilent_cons_some {h : Host} {R : Round} {node : ServerNode}
    (hs : node.ip ≠ h.myNode.ip ∧ silent h.wild R.hbC node.hbTime = true)
    (nodes : List ServerNode) (i : Nat) : firstSilent h R (node :: nodes) i = some i := if_pos hs

theorem firstSilent_cons_none {h : Host} {R : Round} {node : ServerNode}
    (hs : ¬ (node.ip ≠ h.myNode.ip ∧ silent h.wild R.hbC node.hbTime = true))
    (nodes : List ServerNode) (i : Nat) :
    firstSilent h R (node :: nodes) i = firstSilent h R nodes (i + 1) := if_neg hs

/-- How the check of a silent peer ends. -/
theorem gatewayCheck_exit (h : Host) (R : Round) (i : Nat) (node : ServerNode) (l : Files) :
    (checkResult h R i = none → (gatewayCheck h R i node l).exit = .crash) ∧
      ∀ ret, checkResult h R i = some ret →
        (gatewayCheck h R i node l).exit = if ret < 0 then .cont else .go := by
  unfold checkResult gatewayCheck
  constructor
  · intro hnone
    simp only [hnone]
  · intro ret hret
    simp only [hret, gt_iff_lt]

/-- A peer that is alive, its entry being "connect": nothing is written, and the turn only ends the
process if the file cannot be read. -/
theorem markUp_connected {R : Round} {i : Nat} {node : ServerNode} {l : Files}
    (hconn : ∀ st, l.obj = some st → st.get? node.ip = some (ascii "connect")) :
    (∃ d x, markUp R i node l = ⟨(node.mark d, l), [], x⟩ ∧ x ≠ .cont) ∧
      (node.disconnect ≠ DISCONNECT → markUp R i node l = .ok (node, l) []) := by
  unfold markUp
  by_cases hd : node.disconnect = DISCONNECT
  · rw [if_pos hd]
    refine ⟨⟨CONNECT, ?_⟩, fun hne => absurd hd hne⟩
    unfold withEntry
    cases hobj : l.obj with
    | none => exact ⟨.crash, rfl, Exit.noConfusion⟩
    | some st =>
      simp only [hconn st hobj, if_neg connect_ne_disconnect]
      exact ⟨.go, rfl, Exit.noConfusion⟩
  · rw [if_neg hd]
    exact ⟨⟨node.disconnect, .go, rfl, Exit.noConfusion⟩, fun _ => rfl⟩

/-- A turn that neither notifies nor writes: it leaves the files alone, and what it leaves of the
node has the same ip and the same time. -/
structure Passes (node : ServerNode) (l : Files) (r : Done (ServerNode × Files) Event) : Prop where
  quiet : ∀ e ∈ r.events, e.Quiet
  files : r.state.2 = l
  bare : r.state.1.bare = node.bare

theorem visit_passes {h : Host} {R : Round} {i : Nat} {node : ServerNode} {l : Files}
    (hconn : ∀ st, l.obj = some st → st.get? node.ip = some (ascii "connect"))
    (hs : ¬ (node.ip ≠ h.myNode.ip ∧ silent h.wild R.hbC node.hbTime = true)) :
    Passes node l (visit h R i node l) ∧ (visit h R i node l).exit ≠ .cont := by
  unfold visit
  by_cases hme : node.ip = h.myNode.ip
  · rw [if_pos hme]
    exact ⟨⟨fun _ he => absurd he List.not_mem_nil, rfl, rfl⟩, Exit.noConfusion⟩
  · rw [if_neg hme, if_neg fun h => hs ⟨hme, h⟩]
    obtain ⟨d, x, heq, hx⟩ := (markUp_connected (R := R) (i := i) hconn).1
    rw [heq]
    exact ⟨⟨fun _ he => absurd he List.not_mem_nil, rfl, rfl⟩, hx⟩

/-- A silent peer whose check does not succeed, or whose file cannot be read. -/
theorem visit_unchecked {h : Host} {R : Round} {i : Nat} {node : ServerNode} {l : Files}
    (hs : node.ip ≠ h.myNode.ip ∧ silent h.wild R.hbC node.hbTime = true)
    (hcheck : ∀ ret, checkResult h R i = some ret → l.obj.isSome = true → ret < 0) :
    Passes node l (visit h R i node l) ∧ (visit h R i node l).exit ≠ .go ∧
      ((visit h R i node l).exit ≠ .crash → ∃ ret, checkResult h R i = some ret ∧ ret < 0) := by
  obtain ⟨hnone, hsome⟩ := gatewayCheck_exit h R i node l
  have hpings := quiet_pings i (nuPinger h.proc h.myNode.gateway 10 0 (R.check i)).2
  unfold visit
  rw [if_neg hs.1, if_pos hs.2]
  cases hret : checkResult h R i with
  | none =>
    rw [Done.andThen_stop (by rw [hnone hret]; exact Exit.noConfusion), hnone hret]
    exact ⟨⟨hpings, rfl, rfl⟩, Exit.noConfusion, fun hx => absurd rfl hx⟩
  | some ret =>
    have hexit := hsome ret hret
    by_cases hneg : ret < 0
    · rw [if_pos hneg] at hexit
      rw [Done.andThen_stop (by rw [hexit]; exact Exit.noConfusion), hexit]
      exact ⟨⟨hpings, rfl, rfl⟩, Exit.noConfusion, fun _ => ⟨ret, rfl, hneg⟩⟩
    · rw [if_neg hneg] at hexit
      have hobj : l.obj = none := by
        cases hobj : l.obj with
        | none => rfl
        | some st => exact absurd (hcheck ret hret (by rw [hobj]; rfl)) hneg
      have hdown : markDown R i node l = ⟨(node.mark DISCONNECT, l), [], .crash⟩ := by
        unfold markDown withEntry
        rw [hobj]
        rfl
      rw [Done.andThen_go hexit]
      have hdown' : markDown R i (gatewayCheck h R i node l).state.1
          (gatewayCheck h R i node l).state.2 = ⟨(node.mark DISCONNECT, l), [], .crash⟩ := hdown
      rw [hdown']
      refine ⟨⟨?_, rfl, rfl⟩, Exit.noConfusion, fun hx => absurd rfl hx⟩
      exact quiet_append hpings fun _ he => absurd he List.not_mem_nil

theorem map_bare_cons {node node' : ServerNode} {nodes nodes' : List ServerNode}
    (h : node'.bare = node.bare) (hs : nodes'.map ServerNode.bare = nodes.map ServerNode.bare) :
    (node' :: nodes').map ServerNode.bare = (node :: nodes).map ServerNode.bare := by
  rw [List.map_cons, List.map_cons, h, hs]

/-- **A round whose first silent peer has no successful check**, or whose file cannot be read,
notifies nobody and writes nothing. If it does not end the process, the check failed. -/
theorem visitLoop_quiet {h : Host} {R : Round} (nodes : List ServerNode) (i : Nat) (l : Files)
    (hconn : ∀ st, l.obj = some st → Connected st nodes)
    (hcheck : ∀ k ret, firstSilent h R nodes i = some k → checkResult h R k = some ret →
      l.obj.isSome = true → ret < 0) :
    (∀ e ∈ (visitLoop h R nodes i l).events, e.Quiet) ∧
      (visitLoop h R nodes i l).state.2 = l ∧
      (visitLoop h R nodes i l).state.1.map ServerNode.bare = nodes.map ServerNode.bare ∧
      ((visitLoop h R nodes i l).exit ≠ .crash → ∀ k, firstSilent h R nodes i = some k →
        ∃ ret, checkResult h R k = some ret ∧ ret < 0) := by
  induction nodes generalizing i with
  | nil =>
    refine ⟨fun _ he => absurd he List.not_mem_nil, rfl, rfl, fun _ k hk => ?_⟩
    cases hk
  | cons node nodes ih =>
    have hconn₀ : ∀ st, l.obj = some st → st.get? node.ip = some (ascii "connect") :=
      fun st hst => hconn st hst node List.mem_cons_self
    have hconn' : ∀ st, l.obj = some st → Connected st nodes :=
      fun st hst node' hn => hconn st hst node' (List.mem_cons_of_mem _ hn)
    by_cases hs : node.ip ≠ h.myNode.ip ∧ silent h.wild R.hbC node.hbTime = true
    · rw [firstSilent_cons_some hs] at hcheck ⊢
      obtain ⟨hp, hgo, hret⟩ := visit_unchecked hs fun ret => hcheck i ret rfl
      rw [visitLoop_stop hgo]
      refine ⟨hp.quiet, hp.files, map_bare_cons hp.bare rfl, fun hx k hk => ?_⟩
      cases hk
      exact hret hx
    · rw [firstSilent_cons_none hs] at hcheck ⊢
      obtain ⟨hp, hcont⟩ := visit_passes (i := i) hconn₀ hs
      by_cases hgo : (visit h R i node l).exit = .go
      · obtain ⟨hq, hfiles, hbare, hx⟩ := ih (i + 1) hconn' hcheck
        rw [visitLoop_go hgo, hp.files]
        exact ⟨quiet_append hp.quiet hq, hfiles, map_bare_cons hp.bare hbare, hx⟩
      · rw [visitLoop_stop hgo]
        refine ⟨hp.quiet, hp.files, map_bare_cons hp.bare rfl, fun hx => ?_⟩
        cases hexit : (visit h R i node l).exit with
        | go => exact absurd hexit hgo
        | cont => exact absurd hexit hcont
        | crash => exact absurd hexit hx

/-! ## What the decisions rest on -/

/-- The two hosts differ in what `malloc` left at most. -/
structure SameHost (h h' : Host) : Prop where
  proc : h'.proc = h.proc
  wild : h'.wild = h.wild
  ip : h'.myNode.ip = h.myNode.ip
  gateway : h'.myNode.gateway = h.myNode.gateway

theorem SameHost.refl (h : Host) : SameHost h h := ⟨rfl, rfl, rfl, rfl⟩

section Same

variable {h h' : Host} (hh : SameHost h h')

include hh

theorem hearNode_bare (R : Round) (i : Nat) {node node' : ServerNode}
    (hn : node'.bare = node.bare) : (hearNode h' R i node').bare = (hearNode h R i node).bare := by
  have hheard : ∀ t, ({ node' with hbTime := t } : ServerNode).bare =
      ({ node with hbTime := t } : ServerNode).bare :=
    fun t => congrArg (fun n : ServerNode => { n with hbTime := t }) hn
  by_cases hme : node.ip = h.myNode.ip
  · have hme' : node'.ip = h'.myNode.ip := by rw [ip_of_bare hn, hh.ip, hme]
    unfold hearNode
    rwa [if_pos hme, if_pos hme']
  · have hme' : node'.ip ≠ h'.myNode.ip := by rwa [ip_of_bare hn, hh.ip]
    unfold hearNode
    rw [if_neg hme, if_neg hme']
    by_cases hr : node.ip = R.recvData
    · have hr' : node'.ip = R.recvData := (ip_of_bare hn).trans hr
      rw [if_pos hr, if_pos hr']
      exact hheard _
    · have hr' : node'.ip ≠ R.recvData := fun h => hr ((ip_of_bare hn).symm.trans h)
      rwa [if_neg hr, if_neg hr']

theorem hear_bare (R : Round) :
    ∀ {nodes nodes' : List ServerNode} (i : Nat),
      nodes'.map ServerNode.bare = nodes.map ServerNode.bare →
        (hear h' R nodes' i).map ServerNode.bare = (hear h R nodes i).map ServerNode.bare
  | [], [], _, _ => rfl
  | node :: nodes, node' :: nodes', i, hn => by
    obtain ⟨hn₀, hn'⟩ := List.cons.inj hn
    exact map_bare_cons (hearNode_bare hh R i hn₀) (hear_bare R (i + 1) hn')

theorem firstSilent_bare (R : Round) :
    ∀ {nodes nodes' : List ServerNode} (i : Nat),
      nodes'.map ServerNode.bare = nodes.map ServerNode.bare →
        firstSilent h' R nodes' i = firstSilent h R nodes i
  | [], [], _, _ => rfl
  | node :: nodes, node' :: nodes', i, hn => by
    obtain ⟨hn₀, hn'⟩ := List.cons.inj hn
    unfold firstSilent
    rw [hh.ip, hh.wild, ip_of_bare hn₀, hbTime_of_bare hn₀, firstSilent_bare R (i + 1) hn']

theorem checkResult_same (R : Round) (i : Nat) : checkResult h' R i = checkResult h R i := by
  unfold checkResult
  rw [hh.proc, hh.gateway]

/-- Whether a check succeeds is up to the ips and the times. -/
theorem checkSucceeds_bare :
    ∀ (Rs : List Round) {nodes nodes' : List ServerNode},
      nodes'.map ServerNode.bare = nodes.map ServerNode.bare →
        (CheckSucceeds h' nodes' Rs ↔ CheckSucceeds h nodes Rs)
  | [], _, _, _ => Iff.rfl
  | R :: Rs, nodes, nodes', hn => by
    have hheard := hear_bare hh R 0 hn
    have ih := checkSucceeds_bare Rs hheard
    unfold CheckSucceeds
    rw [firstSilent_bare hh R 0 hheard]
    cases firstSilent h R (hear h R nodes 0) 0 with
    | none => exact ih
    | some k =>
      simp only [checkResult_same hh]
      cases checkResult h R k with
      | none => exact Iff.rfl
      | some ret =>
        by_cases hret : ret < 0
        · simp only [if_pos hret]
          exact ih
        · simp only [if_neg hret]

end Same

/-! ## Runs without such a check -/

theorem checkSucceeds_cons {h : Host} {nodes : List ServerNode} {R : Round} {Rs : List Round} :
    CheckSucceeds h nodes (R :: Rs) ↔
      (firstSilent h R (hear h R nodes 0) 0 = none ∧ CheckSucceeds h (hear h R nodes 0) Rs) ∨
      ∃ k ret, firstSilent h R (hear h R nodes 0) 0 = some k ∧ checkResult h R k = some ret ∧
        (ret < 0 ∧ CheckSucceeds h (hear h R nodes 0) Rs ∨ ¬ ret < 0 ∧ R.readOk = true) := by
  rw [CheckSucceeds]
  cases firstSilent h R (hear h R nodes 0) 0 with
  | none => simp
  | some k =>
    cases hret : checkResult h R k with
    | none => simp [hret]
    | some ret =>
      by_cases hneg : ret < 0
      · simp [hret, hneg]
      · simp [hret, hneg, not_lt.mp hneg]

theorem Connected.of_bare {st : HbState} {nodes nodes' : List ServerNode}
    (hc : Connected st nodes) (hn : nodes'.map ServerNode.bare = nodes.map ServerNode.bare) :
    Connected st nodes' := by
  intro node' hmem
  have hmem' : node'.bare ∈ nodes.map ServerNode.bare := hn ▸ List.mem_map_of_mem hmem
  obtain ⟨node, hnode, hbare⟩ := List.mem_map.mp hmem'
  rw [← ip_of_bare hbare]
  exact hc node hnode

theorem Connected.hear {st : HbState} {nodes : List ServerNode} (hc : Connected st nodes)
    (h : Host) (R : Round) : Connected st (hear h R nodes 0) := by
  intro node hn
  obtain ⟨node', hmem, t, rfl⟩ := mem_hear hn
  exact hc node' hmem

theorem runEvents_cons (h : Host) (s : Hb) (R : Round) (Rs : List Round) :
    runEvents h s (R :: Rs) = (step h s R).2 ++ runEvents h (step h s R).1 Rs := rfl

/-- A process that has ended does nothing. -/
theorem runEvents_ended {h : Host} {s : Hb} (hrun : s.running = false) :
    ∀ Rs : List Round, runEvents h s Rs = []
  | [] => rfl
  | R :: Rs => by
    have hstep : step h s R = (s, []) := by
      unfold step
      rw [hrun]
      rfl
    rw [runEvents_cons, hstep, List.nil_append]
    exact runEvents_ended hrun Rs

/-- **Without a check that succeeds there is no output.** -/
theorem run_quiet {h : Host} {st : HbState} :
    ∀ (Rs : List Round) (s : Hb), s.hbState = some st → Connected st s.nodes →
      ¬ CheckSucceeds h s.nodes Rs → ∀ e ∈ runEvents h s Rs, e.Quiet
  | [], _, _, _, _ => fun _ he => absurd he List.not_mem_nil
  | R :: Rs, s, hst, hc, hnot => by
    rw [checkSucceeds_cons, not_or] at hnot
    obtain ⟨hnone, hsome⟩ := hnot
    cases hrun : s.running with
    | false =>
      rw [runEvents_ended hrun]
      exact fun _ he => absurd he List.not_mem_nil
    | true =>
      have hstep : step h s R = hbReceive h R s := by
        unfold step
        rw [hrun]
        rfl
      have hcheck : ∀ k ret, firstSilent h R (hear h R s.nodes 0) 0 = some k →
          checkResult h R k = some ret →
          (if R.readOk then s.hbState else none).isSome = true → ret < 0 := by
        intro k ret hk hret hobj
        by_contra hneg
        have hread : R.readOk = true := by
          by_contra hr
          rw [if_neg hr] at hobj
          cases hobj
        exact hsome ⟨k, ret, hk, hret, Or.inr ⟨hneg, hread⟩⟩
      have hconn : ∀ st', (if R.readOk then s.hbState else none) = some st' →
          Connected st' (hear h R s.nodes 0) := by
        intro st' hobj
        by_cases hr : R.readOk = true
        · rw [if_pos hr, hst] at hobj
          exact Option.some.inj hobj ▸ hc.hear h R
        · rw [if_neg hr] at hobj
          cases hobj
      obtain ⟨hq, hfiles, hbare, hx⟩ := visitLoop_quiet (hear h R s.nodes 0) 0
        ⟨if R.readOk then s.hbState else none, s.hbState⟩ hconn hcheck
      have hfile : (hbReceive h R s).1.hbState = some st := by
        show (visitLoop h R (hear h R s.nodes 0) 0 _).state.2.file = some st
        rw [hfiles]
        exact hst
      rw [runEvents_cons, hstep]
      refine quiet_append hq ?_
      by_cases hcrash : (visitLoop h R (hear h R s.nodes 0) 0
          ⟨if R.readOk then s.hbState else none, s.hbState⟩).exit = .crash
      · rw [runEvents_ended (decide_eq_false (not_not_intro hcrash))]
        exact fun _ he => absurd he List.not_mem_nil
      · refine run_quiet Rs _ hfile ((hc.hear h R).of_bare hbare) fun hlater => ?_
        have hlater' : CheckSucceeds h (hear h R s.nodes 0) Rs :=
          (checkSucceeds_bare (SameHost.refl h) Rs hbare).mp hlater
        cases hk : firstSilent h R (hear h R s.nodes 0) 0 with
        | none => exact hnone ⟨hk, hlater'⟩
        | some k =>
          obtain ⟨ret, hret, hneg⟩ := hx hcrash k hk
          exact hsome ⟨k, ret, hk, hret, Or.inl ⟨hneg, hlater'⟩⟩

/-! ## Runs with such a check -/

/-- `teng_ip` is this text, and `disconnect` is not set. -/
def Ready (t : Bytes) (nodes : List ServerNode) : Prop :=
  ∀ node ∈ nodes, node.tengIp = some t ∧ node.disconnect ≠ DISCONNECT

theorem Ready.hear {t : Bytes} {nodes : List ServerNode} (hr : Ready t nodes) (h : Host)
    (R : Round) : Ready t (hear h R nodes 0) := by
  intro node hn
  obtain ⟨node', hmem, time, rfl⟩ := mem_hear hn
  exact hr node' hmem

theorem andThen_events {σ : Type} (r : Done σ Event) (f : σ → Done σ Event) :
    ∃ es, (r.andThen f).events = r.events ++ es := by
  by_cases hgo : r.exit = .go
  · rw [Done.andThen_go hgo]
    exact ⟨_, rfl⟩
  · rw [Done.andThen_stop hgo]
    exact ⟨[], (List.append_nil _).symm⟩

/-- The notification goes to `teng_ip`. -/
theorem notify_teng {R : Round} {i : Nat} {node : ServerNode} {l : Files} {t : Bytes}
    (ht : node.tengIp = some t) (hne : t ≠ ascii "NULL") :
    ∃ rest, outputs (notify R i node l).events = .hbDown i (R.ioctlFd i) t :: rest := by
  have hopened : outputs (if 0 ≤ R.ioctlFd i then [Event.opened .ioctl] else []) = [] :=
    outputs_quiet (quiet_if trivial)
  unfold notify
  simp only [ht, if_neg hne, Done.ok]
  rw [outputs_append, outputs_append, hopened, List.nil_append]
  exact ⟨_, rfl⟩

theorem visit_notifies {h : Host} {R : Round} {i : Nat} {node : ServerNode} {l : Files}
    {st : HbState} {ret : Int} {t : Bytes}
    (hs : node.ip ≠ h.myNode.ip ∧ silent h.wild R.hbC node.hbTime = true)
    (hret : checkResult h R i = some ret) (hpos : ¬ ret < 0) (hobj : l.obj = some st)
    (hget : st.get? node.ip = some (ascii "connect")) (ht : node.tengIp = some t)
    (hne : t ≠ ascii "NULL") :
    ∃ rest, outputs (visit h R i node l).events = .hbDown i (R.ioctlFd i) t :: rest := by
  have hgo : (gatewayCheck h R i node l).exit = .go := by
    rw [(gatewayCheck_exit h R i node l).2 ret hret, if_neg hpos]
  have hpings : outputs (gatewayCheck h R i node l).events = [] :=
    outputs_quiet (quiet_pings i _)
  have hdown : markDown R i node l = (notify R i (node.mark DISCONNECT) l).andThen fun s =>
      rewrite R i s.1 (setState st node.ip (ascii "disconnect")) s.2 := by
    unfold markDown withEntry
    simp only [hobj, hget, if_true]
    rfl
  obtain ⟨rest, hnotify⟩ := notify_teng (R := R) (i := i) (l := l)
    (show (node.mark DISCONNECT).tengIp = some t from ht) hne
  obtain ⟨es, hes⟩ := andThen_events (notify R i (node.mark DISCONNECT) l) fun s =>
    rewrite R i s.1 (setState st node.ip (ascii "disconnect")) s.2
  refine ⟨rest ++ outputs es, ?_⟩
  unfold visit
  rw [if_neg hs.1, if_pos hs.2, Done.andThen_go hgo, outputs_append, hpings, List.nil_append]
  show outputs (markDown R i node l).events = _
  rw [hdown, hes, outputs_append, hnotify]
  rfl

/-- **A round over ready nodes**: it leaves them alone up to the first silent peer, and notifies if
its check succeeds. -/
theorem visitLoop_ready {h : Host} {R : Round} {t : Bytes} (hne : t ≠ ascii "NULL")
    (nodes : List ServerNode) (i : Nat) (l : Files) (hready : Ready t nodes) :
    (firstSilent h R nodes i = none → visitLoop h R nodes i l = .ok (nodes, l) []) ∧
      ∀ k ret, firstSilent h R nodes i = some k → checkResult h R k = some ret →
        (ret < 0 → (visitLoop h R nodes i l).state = (nodes, l) ∧
          (visitLoop h R nodes i l).exit = .cont ∧
          outputs (visitLoop h R nodes i l).events = []) ∧
        ∀ st, ¬ ret < 0 → l.obj = some st → Connected st nodes →
          ∃ rest, outputs (visitLoop h R nodes i l).events =
            .hbDown k (R.ioctlFd k) t :: rest := by
  induction nodes generalizing i with
  | nil => exact ⟨fun _ => rfl, fun k _ hk => by cases hk⟩
  | cons node nodes ih =>
    obtain ⟨⟨hteng, hdisc⟩, hready'⟩ := List.forall_mem_cons.mp hready
    by_cases hs : node.ip ≠ h.myNode.ip ∧ silent h.wild R.hbC node.hbTime = true
    · rw [firstSilent_cons_some hs]
      refine ⟨fun hk => (by cases hk), fun k ret hk hret => ?_⟩
      cases hk
      have hexit := (gatewayCheck_exit h R i node l).2 ret hret
      constructor
      · intro hneg
        rw [if_pos hneg] at hexit
        have hvisit : visit h R i node l = gatewayCheck h R i node l := by
          unfold visit
          rw [if_neg hs.1, if_pos hs.2,
            Done.andThen_stop (by rw [hexit]; exact Exit.noConfusion)]
        rw [visitLoop_stop (by rw [hvisit, hexit]; exact Exit.noConfusion), hvisit]
        exact ⟨rfl, hexit, outputs_quiet (quiet_pings i _)⟩
      · intro st hpos hobj hconn
        obtain ⟨rest, hrest⟩ := visit_notifies hs hret hpos hobj
          (hconn node List.mem_cons_self) hteng hne
        by_cases hgo : (visit h R i node l).exit = .go
        · rw [visitLoop_go hgo, outputs_append, hrest]
          exact ⟨_, rfl⟩
        · rw [visitLoop_stop hgo, hrest]
          exact ⟨rest, rfl⟩
    · have hvisit : visit h R i node l = .ok (node, l) [] := by
        unfold visit markUp
        by_cases hme : node.ip = h.myNode.ip
        · rw [if_pos hme]
        · rw [if_neg hme, if_neg fun hsil => hs ⟨hme, hsil⟩, if_neg hdisc]
      have hloop : visitLoop h R (node :: nodes) i l =
          ⟨(node :: (visitLoop h R nodes (i + 1) l).state.1,
            (visitLoop h R nodes (i + 1) l).state.2),
            (visitLoop h R nodes (i + 1) l).events, (visitLoop h R nodes (i + 1) l).exit⟩ := by
        rw [visitLoop_go (by rw [hvisit]; rfl), hvisit]
        rfl
      obtain ⟨hnone, hsome⟩ := ih (i + 1) hready'
      rw [firstSilent_cons_none hs, hloop]
      refine ⟨fun hk => by rw [hnone hk]; rfl, fun k ret hk hret => ?_⟩
      obtain ⟨hfail, hdown⟩ := hsome k ret hk hret
      refine ⟨fun hneg => ?_, fun st hpos hobj hconn => hdown st hpos hobj fun node' hn =>
        hconn node' (List.mem_cons_of_mem _ hn)⟩
      obtain ⟨hstate, hexit, hout⟩ := hfail hneg
      exact ⟨by rw [hstate], hexit, hout⟩

/-- **With a check that succeeds there is a notification**, the first one to `teng_ip`. -/
theorem run_notifies {h : Host} {st : HbState} {t : Bytes} (hne : t ≠ ascii "NULL") :
    ∀ (Rs : List Round) (s : Hb), s.running = true → s.hbState = some st →
      Connected st s.nodes → Ready t s.nodes → CheckSucceeds h s.nodes Rs →
        ∃ n fd rest, outputs (runEvents h s Rs) = .hbDown n fd t :: rest
  | [], _, _, _, _, _, hcheck => absurd hcheck id
  | R :: Rs, s, hrun, hst, hc, hready, hcheck => by
    have hstep : step h s R = hbReceive h R s := by
      unfold step
      rw [hrun]
      rfl
    obtain ⟨hnone, hsome⟩ := visitLoop_ready (h := h) (R := R) hne (hear h R s.nodes 0) 0
      ⟨if R.readOk then s.hbState else none, s.hbState⟩ (hready.hear h R)
    -- a round that passes leaves the nodes as they were heard
    have hpass : ∀ es x, x ≠ Exit.crash → outputs es = [] →
        visitLoop h R (hear h R s.nodes 0) 0
          ⟨if R.readOk then s.hbState else none, s.hbState⟩ =
            ⟨(hear h R s.nodes 0, ⟨if R.readOk then s.hbState else none, s.hbState⟩), es, x⟩ →
        CheckSucceeds h (hear h R s.nodes 0) Rs →
          ∃ n fd rest, outputs (runEvents h s (R :: Rs)) = .hbDown n fd t :: rest := by
      intro es x hx hes hloop hlater
      have hreceive : hbReceive h R s = (⟨hear h R s.nodes 0, s.hbState, true⟩, es) := by
        unfold hbReceive
        rw [hloop]
        simp only [decide_eq_true hx]
      rw [runEvents_cons, hstep, hreceive, outputs_append, hes, List.nil_append]
      exact run_notifies hne Rs _ rfl hst (hc.hear h R) (hready.hear h R) hlater
    rcases checkSucceeds_cons.mp hcheck with ⟨hk, hlater⟩ | ⟨k, ret, hk, hret, hend⟩
    · exact hpass [] .go Exit.noConfusion rfl (hnone hk) hlater
    · obtain ⟨hfail, hdown⟩ := hsome k ret hk hret
      rcases hend with ⟨hneg, hlater⟩ | ⟨hpos, hread⟩
      · obtain ⟨hstate, hexit, hout⟩ := hfail hneg
        refine hpass _ .cont Exit.noConfusion hout ?_ hlater
        rw [← hexit, ← hstate]
      · obtain ⟨rest, hrest⟩ := hdown st hpos (by rw [if_pos hread, hst]) (hc.hear h R)
        refine ⟨k, R.ioctlFd k, rest ++ outputs (runEvents h (hbReceive h R s).1 Rs), ?_⟩
        rw [runEvents_cons, hstep, outputs_append]
        show outputs (visitLoop h R (hear h R s.nodes 0) 0 _).events ++ _ = _
        rw [hrest]
        rfl

end JcmController.Heartbeat
