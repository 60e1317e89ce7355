import JcmController.Heartbeat.Model

/-!
# What one visit of the second loop can do

`Visited` lists the ways in which a visit can end, each with what it leaves in memory, in the file
and among the events. An event is `Quiet` if it neither notifies nor writes the file.

Results:
* **`visit_visited`**: every visit ends in one of these ways.
* `Blamed.answered`: the silent branch is entered after an answered echo, or after a `socket` that
  failed.
* `visitLoop_ips`: the second loop leaves the ips alone, and so does the first.
-/

namespace JcmController.Heartbeat

open JcmController.Lib

/-- No notification, and no new file. -/
def Event.Quiet : Event → Prop
  | .hbDown _ _ _ => False
  | .wrote _ => False
  | _ => True

/-- The node with this `disconnect`. -/
def ServerNode.mark (node : ServerNode) (d : Int) : ServerNode := { node with disconnect := d }

/-- The node at entry `i` was silent, and `0 > nu_pinger(..)` false; the events are those of the
check, and others. -/
structure Blamed (h : Host) (R : Round) (i : Nat) (node : ServerNode) (es : List Event) : Prop where
  silent : silent h.wild R.hbC node.hbTime = true
  ret : ∃ ret, (nuPinger h.proc h.myNode.gateway 10 0 (R.check i)).1 = some ret ∧ 0 ≤ ret
  events : (nuPinger h.proc h.myNode.gateway 10 0 (R.check i)).2.map (Event.ping i) ⊆ es

theorem Blamed.mono {h : Host} {R : Round} {i : Nat} {node : ServerNode} {es es' : List Event}
    (hb : Blamed h R i node es) (hsub : es ⊆ es') : Blamed h R i node es' :=
  ⟨hb.silent, hb.ret, fun _ he => hsub (hb.events he)⟩

/-- The ways in which a visit ends. -/
inductive Visited (h : Host) (R : Round) (i : Nat) (node : ServerNode) (l : Files) :
    Done (ServerNode × Files) Event → Prop
  /-- The own entry, or one that is alive and not marked. -/
  | still : Visited h R i node l ⟨(node, l), [], .go⟩
  /-- The gateway did not answer, or has not answered yet. -/
  | unanswered {es : List Event} {x : Exit} (hes : ∀ e ∈ es, e.Quiet) (hx : x ≠ .go) :
      Visited h R i node l ⟨(node, l), es, x⟩
  /-- Marked; there is no entry, or `teng_ip` is no string. -/
  | downStuck {es : List Event} (hpeer : node.ip ≠ h.myNode.ip) (hb : Blamed h R i node es)
      (hes : ∀ e ∈ es, e.Quiet) :
      Visited h R i node l ⟨(node.mark DISCONNECT, l), es, .crash⟩
  /-- Marked; the entry is not "connect". -/
  | downAgain {st : HbState} {entry : Bytes} {es : List Event} (hpeer : node.ip ≠ h.myNode.ip)
      (hb : Blamed h R i node es) (hobj : l.obj = some st) (hget : st.get? node.ip = some entry)
      (hne : entry ≠ ascii "connect") (hes : ∀ e ∈ es, e.Quiet) :
      Visited h R i node l ⟨(node.mark DISCONNECT, l), es, .go⟩
  /-- Marked, notified and written. -/
  | down (fd : Int) (addr : Bytes) {st : HbState} {es es' es'' : List Event}
      (hpeer : node.ip ≠ h.myNode.ip) (hb : Blamed h R i node es) (hobj : l.obj = some st)
      (hget : st.get? node.ip = some (ascii "connect")) (hes : ∀ e ∈ es, e.Quiet)
      (hes' : ∀ e ∈ es', e.Quiet) (hes'' : ∀ e ∈ es'', e.Quiet) :
      Visited h R i node l
        ⟨(node.mark DISCONNECT, ⟨some (setState st node.ip (ascii "disconnect")),
            some (setState st node.ip (ascii "disconnect"))⟩),
          es ++ [.hbDown i fd addr] ++ es' ++
            [.wrote (setState st node.ip (ascii "disconnect"))] ++ es'', .go⟩
  /-- Marked and notified; the file cannot be opened. -/
  | downLost (fd : Int) (addr : Bytes) {st : HbState} {es es' : List Event}
      (hpeer : node.ip ≠ h.myNode.ip) (hb : Blamed h R i node es) (hobj : l.obj = some st)
      (hget : st.get? node.ip = some (ascii "connect")) (hteng : node.tengIp ≠ none)
      (hlost : R.fopen i = false) (hes : ∀ e ∈ es, e.Quiet) (hes' : ∀ e ∈ es', e.Quiet) :
      Visited h R i node l
        ⟨(node.mark DISCONNECT, { l with obj := some (setState st node.ip (ascii "disconnect")) }),
          es ++ [.hbDown i fd addr] ++ es', .crash⟩
  /-- No longer marked; there is no entry. -/
  | upStuck (hpeer : node.ip ≠ h.myNode.ip) :
      Visited h R i node l ⟨(node.mark CONNECT, l), [], .crash⟩
  /-- No longer marked; the entry is not "disconnect". -/
  | upAgain {st : HbState} {entry : Bytes} (hpeer : node.ip ≠ h.myNode.ip)
      (hobj : l.obj = some st) (hget : st.get? node.ip = some entry)
      (hne : entry ≠ ascii "disconnect") :
      Visited h R i node l ⟨(node.mark CONNECT, l), [], .go⟩
  /-- No longer marked, and written. -/
  | up {st : HbState} (hpeer : node.ip ≠ h.myNode.ip) (hobj : l.obj = some st)
      (hget : st.get? node.ip = some (ascii "disconnect")) :
      Visited h R i node l
        ⟨(node.mark CONNECT, ⟨some (setState st node.ip (ascii "connect")),
            some (setState st node.ip (ascii "connect"))⟩),
          [.opened .hbState, .wrote (setState st node.ip (ascii "connect")), .closed .hbState],
          .go⟩
  /-- No longer marked; the file cannot be opened. -/
  | upLost {st : HbState} (hpeer : node.ip ≠ h.myNode.ip) (hobj : l.obj = some st)
      (hlost : R.fopen i = false) :
      Visited h R i node l
        ⟨(node.mark CONNECT, { l with obj := some (setState st node.ip (ascii "connect")) }), [],
          .crash⟩

section Visit

variable {h : Host} {R : Round} {i : Nat} {node : ServerNode} {l : Files}

theorem markUp_visited (hpeer : node.ip ≠ h.myNode.ip) :
    Visited h R i node l (markUp R i node l) := by
  unfold markUp
  by_cases hd : node.disconnect = DISCONNECT
  · rw [if_pos hd]
    unfold withEntry
    cases hobj : l.obj with
    | none => exact .upStuck hpeer
    | some st =>
      cases hget : st.get? node.ip with
      | none =>
        simp only [hget]
        exact .upStuck hpeer
      | some entry =>
        simp only [hget]
        by_cases he : entry = ascii "disconnect"
        · rw [if_pos he]
          unfold rewrite
          by_cases ho : R.fopen i = true
          · rw [if_pos ho]
            exact .up hpeer hobj (he ▸ hget)
          · rw [if_neg ho]
            exact .upLost hpeer hobj (Bool.eq_false_iff.mpr ho)
        · rw [if_neg he]
          exact .upAgain hpeer hobj hget he
  · rw [if_neg hd]
    exact .still

theorem quiet_pings (i : Nat) (ps : List PingEvent) : ∀ e ∈ ps.map (Event.ping i), e.Quiet := by
  intro e he
  obtain ⟨p, _, rfl⟩ := List.mem_map.mp he
  trivial

theorem quiet_append {es es' : List Event} (h : ∀ e ∈ es, e.Quiet) (h' : ∀ e ∈ es', e.Quiet) :
    ∀ e ∈ es ++ es', e.Quiet := by
  intro e he
  rcases List.mem_append.mp he with he | he
  · exact h e he
  · exact h' e he

theorem quiet_if {P : Prop} [Decidable P] {e : Event} (h : e.Quiet) :
    ∀ e' ∈ (if P then [e] else []), e'.Quiet := by
  intro e' he
  by_cases hP : P
  · rw [if_pos hP] at he
    rwa [List.mem_singleton.mp he]
  · rw [if_neg hP] at he
    exact absurd he List.not_mem_nil

theorem notify_none (ht : node.tengIp = none) :
    notify R i node l =
      ⟨(node, l), if 0 ≤ R.ioctlFd i then [Event.opened .ioctl] else [], .crash⟩ := by
  unfold notify
  rw [ht]

theorem notify_some {teng : Bytes} (ht : node.tengIp = some teng) :
    ∃ addr, notify R i node l =
      ⟨(node, l), (if 0 ≤ R.ioctlFd i then [Event.opened .ioctl] else []) ++
        [.hbDown i (R.ioctlFd i) addr] ++
          if 0 ≤ R.ioctlFd i then [Event.closed .ioctl] else [], .go⟩ := by
  refine ⟨if teng = ascii "NULL" then node.ip else teng, ?_⟩
  unfold notify
  rw [ht]
  rfl

/-- The silent branch, after these events of the ping. -/
theorem markDown_visited {ps : List Event} (hpeer : node.ip ≠ h.myNode.ip)
    (hb : Blamed h R i node ps) (hps : ∀ e ∈ ps, e.Quiet) :
    Visited h R i node l ⟨(markDown R i node l).state, ps ++ (markDown R i node l).events,
      (markDown R i node l).exit⟩ := by
  have hnil : ∀ e ∈ ps ++ ([] : List Event), e.Quiet :=
    quiet_append hps fun _ he => absurd he List.not_mem_nil
  have hb' : ∀ es, Blamed h R i node (ps ++ es) := fun es => hb.mono (List.subset_append_left ps es)
  unfold markDown withEntry
  cases hobj : l.obj with
  | none => exact .downStuck hpeer (hb' _) hnil
  | some st =>
    cases hget : st.get? node.ip with
    | none =>
      simp only [hget]
      exact .downStuck hpeer (hb' _) hnil
    | some entry =>
      simp only [hget]
      by_cases he : entry = ascii "connect"
      · have hopened : ∀ e ∈ (if 0 ≤ R.ioctlFd i then [Event.opened .ioctl] else []), e.Quiet :=
          quiet_if trivial
        have hclosed : ∀ e ∈ (if 0 ≤ R.ioctlFd i then [Event.closed .ioctl] else []), e.Quiet :=
          quiet_if trivial
        rw [if_pos he]
        cases ht : (node.mark DISCONNECT).tengIp with
        | none =>
          rw [← ServerNode.mark, notify_none ht, Done.andThen_stop Exit.noConfusion]
          exact .downStuck hpeer (hb' _) (quiet_append hps hopened)
        | some teng =>
          obtain ⟨addr, hn⟩ := notify_some (R := R) (i := i) (l := l) ht
          rw [← ServerNode.mark, hn, Done.andThen_go rfl]
          unfold rewrite
          by_cases ho : R.fopen i = true
          · have hfile : ∀ e ∈ [Event.opened .hbState], e.Quiet :=
              List.forall_mem_singleton.mpr trivial
            have hend : ∀ e ∈ [Event.closed .hbState], e.Quiet :=
              List.forall_mem_singleton.mpr trivial
            have hev := Visited.down (l := l) (R.ioctlFd i) addr hpeer (hb' _) hobj
              (he ▸ hget) (quiet_append hps hopened) (quiet_append hclosed hfile) hend
            rw [if_pos ho]
            simpa only [Done.ok, List.append_assoc, List.cons_append, List.nil_append] using hev
          · have hteng : node.tengIp ≠ none := fun hnone =>
              Option.some_ne_none teng (ht.symm.trans hnone)
            have hev := Visited.downLost (l := l) (R.ioctlFd i) addr hpeer (hb' _) hobj
              (he ▸ hget) hteng (Bool.eq_false_iff.mpr ho) (quiet_append hps hopened) hclosed
            rw [if_neg ho]
            simpa only [List.append_assoc, List.append_nil] using hev
      · rw [if_neg he]
        exact .downAgain hpeer (hb' _) hobj hget he hnil

/-- **What a visit can do.** -/
theorem visit_visited (h : Host) (R : Round) (i : Nat) (node : ServerNode) (l : Files) :
    Visited h R i node l (visit h R i node l) := by
  unfold visit
  by_cases hpeer : node.ip = h.myNode.ip
  · rw [if_pos hpeer]
    exact .still
  · rw [if_neg hpeer]
    by_cases hs : silent h.wild R.hbC node.hbTime = true
    · rw [if_pos hs]
      have hps := quiet_pings i (nuPinger h.proc h.myNode.gateway 10 0 (R.check i)).2
      cases hp : (nuPinger h.proc h.myNode.gateway 10 0 (R.check i)).1 with
      | none =>
        have hx : (gatewayCheck h R i node l).exit = .crash := by simp only [gatewayCheck, hp]
        rw [Done.andThen_stop (by rw [hx]; exact Exit.noConfusion)]
        exact .unanswered hps (by rw [hp]; exact Exit.noConfusion)
      | some ret =>
        by_cases hr : 0 > ret
        · have hx : (gatewayCheck h R i node l).exit = .cont := by
            simp only [gatewayCheck, hp, if_pos hr]
          rw [Done.andThen_stop (by rw [hx]; exact Exit.noConfusion)]
          exact .unanswered hps (by simp only [hp, if_pos hr]; exact Exit.noConfusion)
        · have hx : (gatewayCheck h R i node l).exit = .go := by
            simp only [gatewayCheck, hp, if_neg hr]
          rw [Done.andThen_go hx]
          exact markDown_visited hpeer ⟨hs, ⟨ret, hp, not_lt.mp hr⟩, fun _ he => he⟩ hps
    · rw [if_neg hs]
      exact markUp_visited hpeer

end Visit

/-- The gateway answered an echo sent in the check of entry `n`. -/
def GatewayAnswered (h : Host) (n : Nat) (es : List Event) : Prop :=
  ∃ gw i d, h.myNode.gateway = some gw ∧ .ping n (.echo i true) ∈ es ∧
    .ping n (.received i d) ∈ es ∧
      d.replies (h.proc.inetAddr gw) h.proc.pid (h.proc.pid + i) = true

theorem GatewayAnswered.mono {h : Host} {n : Nat} {es es' : List Event}
    (ha : GatewayAnswered h n es) (hsub : es ⊆ es') : GatewayAnswered h n es' := by
  obtain ⟨gw, i, d, hgw, he, hr, hd⟩ := ha
  exact ⟨gw, i, d, hgw, hsub he, hsub hr, hd⟩

/-- The silent branch needs an answered echo, or a `socket` that failed. -/
theorem Blamed.answered {h : Host} {R : Round} {i : Nat} {node : ServerNode} {es : List Event}
    (hb : Blamed h R i node es) :
    (∃ gw, h.myNode.gateway = some gw ∧ (R.check i).socket < 0) ∨ GatewayAnswered h i es := by
  obtain ⟨ret, hret, hpos⟩ := hb.ret
  obtain ⟨gw, hgw, hs | ⟨k, d, he, hr, hd⟩⟩ := nuPinger_cases (by decide) hret hpos
  · exact Or.inl ⟨gw, hgw, hs⟩
  · exact Or.inr ⟨gw, k, d, hgw, hb.events (List.mem_map_of_mem he),
      hb.events (List.mem_map_of_mem hr), hd⟩

/-! ## The loops -/

theorem hearNode_eq (h : Host) (R : Round) (i : Nat) (node : ServerNode) :
    ∃ t, hearNode h R i node = { node with hbTime := t } := by
  unfold hearNode
  by_cases hme : node.ip = h.myNode.ip
  · rw [if_pos hme]
    exact ⟨node.hbTime, rfl⟩
  · rw [if_neg hme]
    by_cases hr : node.ip = R.recvData
    · rw [if_pos hr]
      exact ⟨R.clock i, rfl⟩
    · rw [if_neg hr]
      exact ⟨node.hbTime, rfl⟩

theorem visit_ip (h : Host) (R : Round) (i : Nat) (node : ServerNode) (l : Files) :
    (visit h R i node l).state.1.ip = node.ip := by
  have hv := visit_visited h R i node l
  generalize visit h R i node l = r at hv ⊢
  cases hv <;> rfl

section Loop

variable {h : Host} {R : Round} {i : Nat} {node : ServerNode} {l : Files}

theorem visitLoop_go (hgo : (visit h R i node l).exit = .go) (nodes : List ServerNode) :
    visitLoop h R (node :: nodes) i l =
      ⟨((visit h R i node l).state.1 ::
          (visitLoop h R nodes (i + 1) (visit h R i node l).state.2).state.1,
        (visitLoop h R nodes (i + 1) (visit h R i node l).state.2).state.2),
        (visit h R i node l).events ++
          (visitLoop h R nodes (i + 1) (visit h R i node l).state.2).events,
        (visitLoop h R nodes (i + 1) (visit h R i node l).state.2).exit⟩ := by
  rw [visitLoop]
  exact if_pos hgo

theorem visitLoop_stop (hgo : (visit h R i node l).exit ≠ .go) (nodes : List ServerNode) :
    visitLoop h R (node :: nodes) i l =
      ⟨((visit h R i node l).state.1 :: nodes, (visit h R i node l).state.2),
        (visit h R i node l).events, (visit h R i node l).exit⟩ := by
  rw [visitLoop]
  exact if_neg hgo

end Loop

end JcmController.Heartbeat
