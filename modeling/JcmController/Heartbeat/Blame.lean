import JcmController.Heartbeat.Edges

/-!
# The own network before a peer

A silent peer is blamed when `nu_pinger` returns no negative number. It returns 0 for an answered
echo and -1 where no echo was answered, but 2 where it got no socket.

* `visit_justified`, `visitLoop_justified`: what is blamed was answered, in one visit and in the
  loop.
* **`blame_justified`**: in every run whose gateway checks get their socket, a peer is marked,
  written as "disconnect" or notified only in a round in which the gateway answered its check.
* `blamed_without_answer`: without a socket it is blamed at once.
-/

namespace JcmController.Heartbeat

open JcmController.Lib

/-- What happens to the entries `nodes`, the first of which has number `i`, is justified: a peer
that is notified, that is marked, or whose entry becomes "disconnect", had its check answered. -/
structure Justified (h : Host) (i : Nat) (nodes nodes' : List ServerNode)
    (f : Option HbState) (es : List Event) (f' : Option HbState) : Prop where
  notified : ∀ n fd addr, .hbDown n fd addr ∈ es → GatewayAnswered h n es
  marked : ∀ k node node', nodes[k]? = some node → nodes'[k]? = some node' →
    node'.disconnect = DISCONNECT → node.disconnect = DISCONNECT ∨ GatewayAnswered h (i + k) es
  written : ∀ ip, entryIn f' ip = some (ascii "disconnect") →
    entryIn f ip = some (ascii "disconnect") ∨
      ∃ k, (nodes.map ServerNode.ip)[k]? = some ip ∧ GatewayAnswered h (i + k) es

section Loop

variable {h : Host} {R : Round} {i : Nat} {node : ServerNode} {l : Files}

theorem not_hbDown_of_quiet {es : List Event} (hes : ∀ e ∈ es, e.Quiet) {n : Nat} {fd : Int}
    {addr : Bytes} : .hbDown n fd addr ∉ es := fun he => hes _ he

/-- A visit that changes nothing. -/
theorem justified_quiet {es : List Event} (hes : ∀ e ∈ es, e.Quiet) (f : Option HbState)
    (nodes : List ServerNode) : Justified h i nodes nodes f es f := by
  refine ⟨fun n fd addr he => absurd he (not_hbDown_of_quiet hes), ?_, fun _ hd => Or.inl hd⟩
  intro k node node' hk hk' hd
  exact Or.inl (Option.some.inj (hk.symm.trans hk') ▸ hd)

/-- A visit that marks an answered peer, and may write its entry and notify for it. -/
theorem justified_answered {es : List Event} {f f' : Option HbState} {node' : ServerNode}
    (ha : GatewayAnswered h i es) (hdown : ∀ n fd addr, .hbDown n fd addr ∈ es → n = i)
    (hwrite : ∀ ip, ip ≠ node.ip → entryIn f' ip = entryIn f ip) :
    Justified h i [node] [node'] f es f' := by
  refine ⟨fun n fd addr he => hdown n fd addr he ▸ ha, ?_, fun ip hd => ?_⟩
  · intro k node₁ node₂ hk _ _
    cases k with
    | zero => exact Or.inr ha
    | succ k => cases hk
  · by_cases hip : ip = node.ip
    · exact Or.inr ⟨0, by rw [hip]; rfl, ha⟩
    · exact Or.inl (hwrite ip hip ▸ hd)

/-- A visit that takes the mark away, and may write "connect". -/
theorem justified_up {es : List Event} {f f' : Option HbState}
    (hdown : ∀ n fd addr, .hbDown n fd addr ∉ es)
    (hwrite : ∀ ip, entryIn f' ip = some (ascii "disconnect") →
      entryIn f ip = some (ascii "disconnect")) :
    Justified h i [node] [node.mark CONNECT] f es f' := by
  refine ⟨fun n fd addr he => absurd he (hdown n fd addr), ?_, fun ip hd => Or.inl (hwrite ip hd)⟩
  intro k node₁ node₂ _ hk' hd
  cases k with
  | zero =>
    obtain rfl : node.mark CONNECT = node₂ := Option.some.inj hk'
    exact absurd hd (by decide : CONNECT ≠ DISCONNECT)
  | succ k => cases hk'

/-- The check of a silent peer gets its socket. -/
def CheckOpens (h : Host) (R : Round) (i : Nat) (node : ServerNode) : Prop :=
  ∀ gw, h.myNode.gateway = some gw → node.ip ≠ h.myNode.ip →
    silent h.wild R.hbC node.hbTime = true → 0 ≤ (R.check i).socket

theorem Blamed.gatewayAnswered {es : List Event} (hb : Blamed h R i node es)
    (hpeer : node.ip ≠ h.myNode.ip) (hopen : CheckOpens h R i node) : GatewayAnswered h i es := by
  rcases hb.answered with ⟨gw, hgw, hs⟩ | ha
  · exact absurd (hopen gw hgw hpeer hb.silent) (not_le.mpr hs)
  · exact ha

theorem entryIn_setState {st : HbState} {k ip status : Bytes} (hip : ip ≠ k) :
    entryIn (some (setState st k status)) ip = entryIn (some st) ip := by
  show (setState st k status).get? ip = st.get? ip
  rw [get?_setState, if_neg hip]

/-- **One visit blames an answered peer only.** -/
theorem visit_justified (hl : Mirrors l) (hopen : CheckOpens h R i node) :
    Justified h i [node] [(visit h R i node l).state.1] l.file (visit h R i node l).events
      (visit h R i node l).state.2.file := by
  have hvis := visit_visited h R i node l
  generalize visit h R i node l = r at hvis ⊢
  cases hvis with
  | still => exact justified_quiet (fun _ he => absurd he List.not_mem_nil) _ _
  | unanswered hes => exact justified_quiet hes _ _
  | downStuck hpeer hb hes =>
    exact justified_answered (hb.gatewayAnswered hpeer hopen)
      (fun n fd addr he => absurd he (not_hbDown_of_quiet hes)) fun _ _ => rfl
  | downAgain hpeer hb hobj hget hne hes =>
    exact justified_answered (hb.gatewayAnswered hpeer hopen)
      (fun n fd addr he => absurd he (not_hbDown_of_quiet hes)) fun _ _ => rfl
  | @down fd addr st es es' es'' hpeer hb hobj hget hes hes' hes'' =>
    refine justified_answered ((hb.gatewayAnswered hpeer hopen).mono ?_) ?_ ?_
    · intro e he
      simp only [List.mem_append]
      exact Or.inl (Or.inl (Or.inl (Or.inl he)))
    · intro n fd' addr' he
      simp only [List.mem_append, List.mem_singleton, Event.hbDown.injEq, reduceCtorEq,
        not_hbDown_of_quiet hes, not_hbDown_of_quiet hes', not_hbDown_of_quiet hes'', or_false,
        false_or] at he
      exact he.1
    · intro ip hip
      rw [hl st hobj]
      exact entryIn_setState hip
  | @downLost fd addr st es es' hpeer hb hobj hget hteng hlost hes hes' =>
    refine justified_answered ((hb.gatewayAnswered hpeer hopen).mono ?_) ?_ fun _ _ => rfl
    · intro e he
      simp only [List.mem_append]
      exact Or.inl (Or.inl he)
    · intro n fd' addr' he
      simp only [List.mem_append, List.mem_singleton, Event.hbDown.injEq,
        not_hbDown_of_quiet hes, not_hbDown_of_quiet hes', or_false, false_or] at he
      exact he.1
  | upStuck => exact justified_up (fun _ _ _ => List.not_mem_nil) fun _ hd => hd
  | upAgain => exact justified_up (fun _ _ _ => List.not_mem_nil) fun _ hd => hd
  | @up st hpeer hobj hget =>
    refine justified_up (fun n fd addr he => ?_) fun ip hd => ?_
    · simp at he
    · rw [hl st hobj]
      by_cases hip : ip = node.ip
      · rw [hip]
        exact hget
      · rwa [entryIn_setState hip] at hd
  | upLost => exact justified_up (fun _ _ _ => List.not_mem_nil) fun _ hd => hd

theorem Justified.cons {nodes nodes' : List ServerNode} {node' : ServerNode}
    {f f' f'' : Option HbState} {es es' : List Event}
    (hj : Justified h i [node] [node'] f es f')
    (hj' : Justified h (i + 1) nodes nodes' f' es' f'') :
    Justified h i (node :: nodes) (node' :: nodes') f (es ++ es') f'' := by
  have hleft := List.subset_append_left es es'
  have hright := List.subset_append_right es es'
  refine ⟨fun n fd addr he => ?_, ?_, fun ip hd => ?_⟩
  · rcases List.mem_append.mp he with he | he
    · exact (hj.notified n fd addr he).mono hleft
    · exact (hj'.notified n fd addr he).mono hright
  · intro k node₁ node₂ hk hk' hd
    cases k with
    | zero => exact (hj.marked 0 node₁ node₂ hk hk' hd).imp_right fun ha => ha.mono hleft
    | succ k =>
      rw [show i + (k + 1) = i + 1 + k by omega]
      exact (hj'.marked k node₁ node₂ hk hk' hd).imp_right fun ha => ha.mono hright
  · rcases hj'.written ip hd with hd | ⟨k, hk, ha⟩
    · rcases hj.written ip hd with hd | ⟨k, hk, ha⟩
      · exact Or.inl hd
      · cases k with
        | zero => exact Or.inr ⟨0, hk, ha.mono hleft⟩
        | succ k => cases hk
    · refine Or.inr ⟨k + 1, hk, ?_⟩
      rw [show i + (k + 1) = i + 1 + k by omega]
      exact ha.mono hright

/-- **The second loop blames answered peers only.** -/
theorem visitLoop_justified (nodes : List ServerNode) (i : Nat) (l : Files) (hl : Mirrors l)
    (hopen : ∀ k node, nodes[k]? = some node → CheckOpens h R (i + k) node) :
    Justified h i nodes (visitLoop h R nodes i l).state.1 l.file
      (visitLoop h R nodes i l).events (visitLoop h R nodes i l).state.2.file := by
  induction nodes generalizing i l with
  | nil => exact justified_quiet (fun _ he => absurd he List.not_mem_nil) _ _
  | cons node nodes ih =>
    have hopen₀ : CheckOpens h R i node := hopen 0 node rfl
    have hhead := visit_justified hl hopen₀
    by_cases hgo : (visit h R i node l).exit = .go
    · rw [visitLoop_go hgo]
      refine hhead.cons (ih (i + 1) _ (visit_mirrors hl hgo) fun k node' hk => ?_)
      rw [show i + 1 + k = i + (k + 1) by omega]
      exact hopen (k + 1) node' hk
    · rw [visitLoop_stop hgo]
      have hrest := justified_quiet (h := h) (i := i + 1)
        (fun e (he : e ∈ ([] : List Event)) => absurd he List.not_mem_nil)
        (visit h R i node l).state.2.file nodes
      simpa only [List.append_nil] using hhead.cons hrest

end Loop

/-! ## Rounds and runs -/

theorem hear_getElem? (h : Host) (R : Round) (nodes : List ServerNode) (i k : Nat) :
    (hear h R nodes i)[k]? = nodes[k]?.map (hearNode h R (i + k)) := by
  induction nodes generalizing i k with
  | nil => rfl
  | cons node nodes ih =>
    cases k with
    | zero => rfl
    | succ k =>
      rw [hear, List.getElem?_cons_succ, List.getElem?_cons_succ, ih,
        show i + 1 + k = i + (k + 1) by omega]

/-- The checks of the silent peers of a round get their sockets. -/
def ChecksOpen (h : Host) (s : Hb) (R : Round) : Prop :=
  ∀ k node, (hear h R s.nodes 0)[k]? = some node → CheckOpens h R k node

/-- **A round blames answered peers only.** -/
theorem step_justified {h : Host} {s : Hb} {R : Round} (hopen : ChecksOpen h s R) :
    Justified h 0 s.nodes (step h s R).1.nodes s.hbState (step h s R).2
      (step h s R).1.hbState := by
  unfold step
  by_cases hrun : s.running = true
  · rw [if_pos hrun]
    have hj := visitLoop_justified (h := h) (R := R) (hear h R s.nodes 0) 0
      ⟨if R.readOk then s.hbState else none, s.hbState⟩ (mirrors_start R s)
      fun k node hk => by
        rw [Nat.zero_add]
        exact hopen k node hk
    refine ⟨hj.notified, fun k node node' hk hk' hd => ?_, fun ip hd => ?_⟩
    · obtain ⟨t, ht⟩ := hearNode_eq h R (0 + k) node
      have hheard : (hear h R s.nodes 0)[k]? = some { node with hbTime := t } := by
        rw [hear_getElem?, hk, Option.map_some, ht]
      have hmarked := hj.marked k _ node' hheard hk' hd
      exact hmarked
    · rcases hj.written ip hd with hd | ⟨k, hk, ha⟩
      · exact Or.inl hd
      · exact Or.inr ⟨k, hear_ips h R s.nodes 0 ▸ hk, ha⟩
  · rw [if_neg hrun]
    exact justified_quiet (fun _ he => absurd he List.not_mem_nil) _ _

/-- **Only answered peers are blamed**, in every run whose gateway checks get their sockets. -/
theorem blame_justified (h : Host) (s : Hb) (Rs : List Round)
    (hopen : ∀ t ∈ trace (step h) s Rs, ChecksOpen h t.before t.input) :
    ∀ t ∈ trace (step h) s Rs,
      Justified h 0 t.before.nodes (step h t.before t.input).1.nodes t.before.hbState t.events
        (step h t.before t.input).1.hbState := by
  have hstep : ∀ s R, True → ChecksOpen h s R → True ∧
      Justified h 0 s.nodes (step h s R).1.nodes s.hbState (step h s R).2
        (step h s R).1.hbState := fun _ _ _ ho => ⟨trivial, step_justified ho⟩
  exact forall_trace (P := fun s R es => Justified h 0 s.nodes (step h s R).1.nodes s.hbState es
    (step h s R).1.hbState) hstep Rs s trivial hopen

/-- The gateway's check gets no socket. -/
def noSocket : Hb × List Event := step twoHosts (started twoHosts none) (roundWith 20000 none (-1))

/-- The peer is marked, written and notified, and no echo was sent. -/
theorem blamed_without_answer :
    .hbDown 1 6 (ascii "10.0.0.2") ∈ noSocket.2 ∧
      noSocket.1.nodes.map ServerNode.disconnect = [CONNECT, DISCONNECT] ∧
      entryIn noSocket.1.hbState (ascii "10.0.0.2") = some (ascii "disconnect") ∧
      ¬ GatewayAnswered twoHosts 1 noSocket.2 := by
  have hdown : noSocket.2[1]? = some (.hbDown 1 6 (ascii "10.0.0.2")) := rfl
  refine ⟨List.mem_of_getElem? hdown, by decide +kernel, by decide +kernel, ?_⟩
  rintro ⟨gw, i, d, -, hecho, -⟩
  have hall : (noSocket.2.all fun | .ping _ _ => false | _ => true) = true := by decide +kernel
  exact absurd (List.all_eq_true.mp hall _ hecho) Bool.false_ne_true

/-- With a socket the gateway has answered before the peer is notified. -/
theorem blame_justified_two :
    GatewayAnswered twoHosts 1 (step twoHosts (started twoHosts none) (silentRound 20000)).2 := by
  have hdown : (step twoHosts (started twoHosts none) (silentRound 20000)).2[4]? =
      some (.hbDown 1 6 (ascii "10.0.0.2")) := rfl
  have hj := blame_justified twoHosts (started twoHosts none) [silentRound 20000]
    (List.forall_mem_singleton.mpr fun _ _ _ _ _ _ _ => Int.natCast_nonneg 5)
    ⟨started twoHosts none, silentRound 20000, _⟩ List.mem_cons_self
  exact hj.notified 1 6 _ (List.mem_of_getElem? hdown)

end JcmController.Heartbeat
