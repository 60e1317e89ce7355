import JcmController.Heartbeat.Decision

/-!
# A peer that was just heard

A round takes its own time, `hb_c`, before the receive, and the time of a heartbeat after it, so
their difference is negative where the peer is alive. `abs` makes it positive: with enough ticks in
between, the peer that was just heard counts as silent.

* `Turn.Takes`: a turn goes into the silent branch behind a check that succeeds, and something comes
  of it.
* `harms_iff`: that is when the turn newly marks the peer, or notifies.
* `silent_ticks`: how many ticks that needs.
* `leftAlone_iff`: a round leaves a peer alone exactly when no turn for it does harm.
* **`heard_not_down_iff`**: a round leaves a peer it has heard alone exactly when none of its turns
  for the peer does this.
* `heard_declared_down`: with 11000 ticks it does.
-/

namespace JcmController.Heartbeat

open JcmController.Lib

/-! ## The clock -/

/-- Readings that do not go back: the heard peer is silent from 11000 ticks on, as long as the
quotient is an `int`. -/
theorem silent_ticks {wild : Int → Bool} {hbC time : Int} (hle : hbC ≤ time)
    (hfit : time < hbC + 2 ^ 31 * 1000) : silent wild hbC time = true ↔ hbC + 11000 ≤ time := by
  have hneg : (hbC - time).tdiv 1000 = -((time - hbC) / 1000) := by
    rw [← neg_sub time hbC, Int.neg_tdiv, Int.tdiv_eq_ediv_of_nonneg (by omega)]
  have habs : |(-((time - hbC) / 1000) : Int)| = (time - hbC) / 1000 := by
    rw [abs_neg, abs_of_nonneg (by omega)]
  unfold silent
  rw [hneg, if_pos (by omega), habs, decide_eq_true_eq, bounds]
  omega

/-! ## Turns that go wrong -/

/-- The turn finds the peer silent at this time of its heartbeat, its check succeeds, and either the
peer is not marked yet, or its entry is "connect" and `teng_ip` a string. -/
structure Turn.Takes (h : Host) (R : Round) (time : Int) (t : Turn) : Prop where
  silent : silent h.wild R.hbC time = true
  check : ∃ ret, checkResult h R t.place = some ret ∧ 0 ≤ ret
  shows : t.node.disconnect ≠ DISCONNECT ∨
    t.files.entry t.node.ip = some (ascii "connect") ∧ t.node.tengIp.isSome = true

/-- The turn newly marks the peer, or notifies. -/
def Turn.Harms (h : Host) (R : Round) (t : Turn) : Prop :=
  (t.decision h R).disconnect = DISCONNECT ∧ t.node.disconnect ≠ DISCONNECT ∨
    (t.decision h R).notified ≠ none

section Decide

variable {h : Host} {R : Round} {t : Turn}

theorem decideUp_disconnect (fopen : Bool) (node : ServerNode) (entry : Option Bytes) :
    (decideUp fopen node entry).disconnect ≠ DISCONNECT ∧
      (decideUp fopen node entry).notified = none ∧
        (decideUp fopen node entry).status ≠ some (ascii "disconnect") := by
  have hne : CONNECT ≠ DISCONNECT := by decide
  unfold decideUp
  by_cases hd : node.disconnect = DISCONNECT
  · rw [if_pos hd]
    cases entry with
    | none => exact ⟨hne, rfl, (Option.some_ne_none _).symm⟩
    | some entry =>
      by_cases he : entry = ascii "disconnect"
      · simp only [if_pos he]
        refine ⟨hne, trivial, ?_⟩
        cases fopen with
        | true => exact fun h => connect_ne_disconnect (Option.some.inj h)
        | false => exact (Option.some_ne_none _).symm
      · simp only [if_neg he]
        exact ⟨hne, trivial, (Option.some_ne_none _).symm⟩
  · rw [if_neg hd]
    exact ⟨hd, rfl, (Option.some_ne_none _).symm⟩

theorem decideDown_shows (fopen : Bool) (node : ServerNode) (entry : Option Bytes) :
    (decideDown fopen node entry).disconnect = DISCONNECT ∧
      ((decideDown fopen node entry).notified ≠ none ↔
        entry = some (ascii "connect") ∧ node.tengIp.isSome = true) ∧
      ((decideDown fopen node entry).status ≠ none →
        (decideDown fopen node entry).notified ≠ none) := by
  unfold decideDown
  cases entry with
  | none => exact ⟨rfl, by simp, fun hs => absurd rfl hs⟩
  | some entry =>
    by_cases he : entry = ascii "connect"
    · simp only [if_pos he]
      cases ht : node.tengIp with
      | none => exact ⟨rfl, by simp, fun hs => absurd rfl hs⟩
      | some teng => exact ⟨rfl, by simp [he], fun _ => Option.some_ne_none _⟩
    · simp only [if_neg he]
      exact ⟨trivial, by simp [he], fun hs => absurd rfl hs⟩

/-- **When a turn for a peer does harm**. -/
theorem harms_iff (hpeer : t.node.ip ≠ h.myNode.ip) :
    t.Harms h R ↔ t.Takes h R t.node.hbTime := by
  unfold Turn.Harms Turn.decision decision
  rw [if_neg hpeer]
  by_cases hs : silent h.wild R.hbC t.node.hbTime = true
  · rw [if_pos hs]
    -- a check that does not succeed leaves the node as it is
    have hfail : (¬ ∃ ret, checkResult h R t.place = some ret ∧ 0 ≤ ret) →
        ((t.node.disconnect = DISCONNECT ∧ t.node.disconnect ≠ DISCONNECT ∨
          (none : Option Bytes) ≠ none) ↔ t.Takes h R t.node.hbTime) := by
      intro hno
      refine iff_of_false ?_ fun ht => hno ht.check
      rintro (⟨hd, hd'⟩ | hne)
      · exact hd' hd
      · exact hne rfl
    cases hret : checkResult h R t.place with
    | none => exact hfail fun ⟨ret, hr, _⟩ => absurd (hret.symm.trans hr) (by simp)
    | some ret =>
      by_cases hneg : ret < 0
      · simp only [if_pos hneg]
        refine hfail fun ⟨ret', hr, hpos⟩ => ?_
        have : ret = ret' := Option.some.inj (hret.symm.trans hr)
        omega
      · obtain ⟨hmark, hnote, _⟩ :=
          decideDown_shows (R.fopen t.place) t.node (t.files.entry t.node.ip)
        simp only [if_neg hneg, hmark, hnote, true_and]
        exact ⟨fun hshow => ⟨hs, ⟨ret, hret, not_lt.mp hneg⟩, hshow⟩, fun ht => ht.shows⟩
  · rw [if_neg hs]
    obtain ⟨hmark, hnote, _⟩ :=
      decideUp_disconnect (R.fopen t.place) t.node (t.files.entry t.node.ip)
    refine iff_of_false ?_ fun ht => hs ht.silent
    rintro (⟨hd, _⟩ | hne)
    · exact hmark hd
    · exact hne hnote

/-- A turn that writes "disconnect" notifies. -/
theorem decision_status (hs : (t.decision h R).status = some (ascii "disconnect")) :
    (t.decision h R).notified ≠ none := by
  unfold Turn.decision decision at hs ⊢
  by_cases hme : t.node.ip = h.myNode.ip
  · rw [if_pos hme] at hs
    cases hs
  · rw [if_neg hme] at hs ⊢
    by_cases hsil : silent h.wild R.hbC t.node.hbTime = true
    · rw [if_pos hsil] at hs ⊢
      cases hret : checkResult h R t.place with
      | none =>
        rw [hret] at hs
        cases hs
      | some ret =>
        by_cases hneg : ret < 0
        · simp only [hret, if_pos hneg] at hs
          cases hs
        · simp only [hret, if_neg hneg] at hs ⊢
          refine (decideDown_shows _ _ _).2.2 ?_
          rw [hs]
          exact Option.some_ne_none _
    · rw [if_neg hsil] at hs
      exact absurd hs (decideUp_disconnect _ _ _).2.2

end Decide

/-! ## A round -/

/-- The turns of a round. -/
def roundTurns (h : Host) (s : Hb) (R : Round) : List Turn :=
  turns h R (hear h R s.nodes 0) 0 ⟨if R.readOk then s.hbState else none, s.hbState⟩

/-- The round does not newly declare the peer down: in no entry of the list, not in the file, and
not to the disk. -/
structure LeftAlone (h : Host) (s : Hb) (R : Round) (ip : Bytes) : Prop where
  status : ∀ (k : Nat) (node node' : ServerNode), s.nodes[k]? = some node →
    (hbReceive h R s).1.nodes[k]? = some node' → node.ip = ip →
      node'.disconnect = DISCONNECT → node.disconnect = DISCONNECT
  entry : entryIn (hbReceive h R s).1.hbState ip = some (ascii "disconnect") →
    entryIn s.hbState ip = some (ascii "disconnect")
  notice : ∀ (k : Nat) (node : ServerNode) (addr : Bytes), s.nodes[k]? = some node → node.ip = ip →
    (k, addr) ∉ notices (hbReceive h R s).2

section Round

variable {h : Host} {s : Hb} {R : Round} {ip : Bytes}

/-- The node of a turn, before the first loop and after it. -/
theorem heard_node {k : Nat} {node : ServerNode} (hk : (hear h R s.nodes 0)[k]? = some node) :
    ∃ node₀, s.nodes[k]? = some node₀ ∧ node = hearNode h R k node₀ := by
  rw [hear_getElem?, Nat.zero_add] at hk
  obtain ⟨node₀, hk₀, rfl⟩ := Option.map_eq_some_iff.mp hk
  exact ⟨node₀, hk₀, rfl⟩

/-- The time in the node of a peer that was heard. -/
theorem hbTime_of_heard (hheard : R.recvData = ip) (hpeer : ip ≠ h.myNode.ip) {t : Turn}
    (ht : t ∈ roundTurns h s R) (hip : t.node.ip = ip) : t.node.hbTime = R.clock t.place := by
  obtain ⟨k, hplace, hk, _⟩ := (visitLoop_marks _ 0 _).1 t ht
  obtain ⟨node₀, _, hnode⟩ := heard_node hk
  obtain ⟨time, htime⟩ := hearNode_eq h R k node₀
  have hip₀ : node₀.ip = ip := by
    rw [← hip, hnode, htime]
  rw [hnode, hplace, Nat.zero_add]
  unfold hearNode
  rw [if_neg (by rw [hip₀]; exact hpeer), if_pos (by rw [hip₀, hheard])]

/-- What the first loop leaves in place of a node. -/
theorem hear_time {k : Nat} {node : ServerNode} (hk : s.nodes[k]? = some node) :
    ∃ time, (hear h R s.nodes 0)[k]? = some { node with hbTime := time } := by
  obtain ⟨time, htime⟩ := hearNode_eq h R k node
  exact ⟨time, by rw [hear_getElem?, hk, Option.map_some, Nat.zero_add, htime]⟩

/-- Where a turn stands: its node is one of the list, with a time of its own. -/
theorem turn_node {t : Turn} (ht : t ∈ roundTurns h s R) :
    ∃ node time, s.nodes[t.place]? = some node ∧ t.node = { node with hbTime := time } ∧
      (hbReceive h R s).1.nodes[t.place]? = some (t.node.mark (t.decision h R).disconnect) := by
  obtain ⟨k, hplace, hk, hk'⟩ := (visitLoop_marks _ 0 _).1 t ht
  rw [Nat.zero_add] at hplace
  obtain ⟨node, hnode, heq⟩ := heard_node hk
  obtain ⟨time, htime⟩ := hearNode_eq h R k node
  rw [hplace]
  exact ⟨node, time, hnode, heq.trans htime, hk'⟩

/-- A turn that does harm shows. -/
theorem not_harms_of_leftAlone (hleft : LeftAlone h s R ip) {t : Turn}
    (ht : t ∈ roundTurns h s R) (hip : t.node.ip = ip) : ¬ t.Harms h R := by
  obtain ⟨node, time, hk, hnode, hk'⟩ := turn_node ht
  have hip' : node.ip = ip := by rw [← hip, hnode]
  rintro (⟨hd, hnot⟩ | hnote)
  · refine hnot ?_
    have hbefore := hleft.status t.place node _ hk hk' hip' hd
    rw [hnode]
    exact hbefore
  · obtain ⟨addr, haddr⟩ := Option.ne_none_iff_exists'.mp hnote
    refine hleft.notice t.place node addr hk hip' ?_
    rw [hbReceive, visitLoop_notices]
    refine List.mem_flatMap.mpr ⟨t, ht, ?_⟩
    rw [Turn.notice, haddr]
    exact List.mem_singleton_self _

/-- No turn for the ip does harm. -/
def Harmless (h : Host) (s : Hb) (R : Round) (ip : Bytes) : Prop :=
  ∀ t ∈ roundTurns h s R, t.node.ip = ip → ¬ t.Harms h R

/-- A mark is an old one. -/
theorem status_of_harmless (hless : Harmless h s R ip) {k : Nat} {node node' : ServerNode}
    (hk : s.nodes[k]? = some node) (hk' : (hbReceive h R s).1.nodes[k]? = some node')
    (hip : node.ip = ip) (hd : node'.disconnect = DISCONNECT) : node.disconnect = DISCONNECT := by
  obtain ⟨time, hheard⟩ := hear_time (h := h) (R := R) hk
  rcases (visitLoop_marks _ 0 _).2 k node' hk' with hsame | ⟨t, ht, _, hkt, rfl⟩
  · obtain rfl := Option.some.inj (hheard.symm.trans hsame)
    exact hd
  · have hnode := Option.some.inj (hheard.symm.trans hkt)
    by_contra hnot
    refine hless t ht (by rw [← hnode]; exact hip) (Or.inl ⟨hd, ?_⟩)
    rw [← hnode]
    exact hnot

/-- An entry "disconnect" is an old one. -/
theorem entry_of_harmless (hless : Harmless h s R ip)
    (hd : entryIn (hbReceive h R s).1.hbState ip = some (ascii "disconnect")) :
    entryIn s.hbState ip = some (ascii "disconnect") := by
  rw [hbReceive, visitLoop_file _ 0 _ (mirrors_start R s)] at hd
  rcases Option.or_eq_some_iff.mp hd with hlast | ⟨_, hd⟩
  · obtain ⟨t, ht, hs⟩ := List.mem_filterMap.mp (List.mem_of_getLast? hlast)
    by_cases hip : t.node.ip = ip
    · rw [if_pos hip] at hs
      exact absurd (Or.inr (decision_status hs)) (hless t ht hip)
    · rw [if_neg hip] at hs
      cases hs
  · exact hd

/-- No notification is for the peer. -/
theorem notice_of_harmless (hless : Harmless h s R ip) {k : Nat} {node : ServerNode}
    {addr : Bytes} (hk : s.nodes[k]? = some node) (hip : node.ip = ip) :
    (k, addr) ∉ notices (hbReceive h R s).2 := by
  intro hn
  rw [hbReceive, visitLoop_notices] at hn
  obtain ⟨t, ht, hn⟩ := List.mem_flatMap.mp hn
  obtain ⟨addr', haddr, heq⟩ := List.mem_map.mp hn
  obtain ⟨node₀, time, hk₀, hnode, _⟩ := turn_node ht
  rw [(Prod.mk.inj heq).1] at hk₀
  obtain rfl := Option.some.inj (hk.symm.trans hk₀)
  refine hless t ht ?_ (Or.inr ?_)
  · rw [hnode]
    exact hip
  · rw [Option.mem_toList.mp haddr]
    exact Option.some_ne_none _

/-- **What a round declares** is what its turns for the peer do. -/
theorem leftAlone_iff : LeftAlone h s R ip ↔ Harmless h s R ip := by
  refine ⟨fun hleft t ht hip => not_harms_of_leftAlone hleft ht hip, fun hless => ?_⟩
  exact ⟨fun _ _ _ hk hk' hip hd => status_of_harmless hless hk hk' hip hd,
    entry_of_harmless hless, fun _ _ _ hk hip => notice_of_harmless hless hk hip⟩

/-- **A peer that was just heard** is left alone by the round exactly when no turn for it finds the
new heartbeat too far from the start of the round, behind a check of the gateway that succeeds, with
the peer not marked yet or its entry "connect". With readings that do not go back this takes at
least 11000 ticks. -/
theorem heard_not_down_iff (h : Host) (s : Hb) (R : Round) (ip : Bytes)
    (hheard : R.recvData = ip) (hpeer : ip ≠ h.myNode.ip) :
    (LeftAlone h s R ip ↔
      ∀ t ∈ roundTurns h s R, t.node.ip = ip → ¬ t.Takes h R (R.clock t.place)) ∧
    ((∀ i, R.hbC ≤ R.clock i ∧ R.clock i < R.hbC + 11000) → LeftAlone h s R ip) := by
  have htakes : ∀ t ∈ roundTurns h s R, t.node.ip = ip →
      (t.Harms h R ↔ t.Takes h R (R.clock t.place)) := by
    intro t ht hip
    rw [harms_iff (by rw [hip]; exact hpeer), hbTime_of_heard hheard hpeer ht hip]
  have hiff : LeftAlone h s R ip ↔
      ∀ t ∈ roundTurns h s R, t.node.ip = ip → ¬ t.Takes h R (R.clock t.place) := by
    rw [leftAlone_iff]
    exact forall₂_congr fun t ht => forall_congr' fun hip => not_congr (htakes t ht hip)
  refine ⟨hiff, fun hclock => hiff.mpr fun t _ _ ht => ?_⟩
  obtain ⟨hle, hlt⟩ := hclock t.place
  have := (silent_ticks hle (by omega)).mp ht.silent
  omega

end Round

/-- The peer is heard 11000 ticks after the start of the round. -/
def lateRound : Round := { heardRound 0 with clock := fun _ => 11000 }

/-- It is marked, written and notified in the round that heard it. -/
theorem heard_declared_down :
    lateRound.recvData = ascii "10.0.0.2" ∧ (∀ i, lateRound.hbC ≤ lateRound.clock i) ∧
      ¬ LeftAlone twoHosts (started twoHosts none) lateRound (ascii "10.0.0.2") := by
  refine ⟨by decide +kernel, fun _ => (by decide : (0 : Int) ≤ 11000), fun hleft => ?_⟩
  have hd := hleft.entry (by decide +kernel)
  exact absurd hd (by decide +kernel)

/-- Heard within 10999 ticks it is left alone. -/
theorem heard_not_down_soon :
    LeftAlone twoHosts (started twoHosts none) { heardRound 0 with clock := fun _ => 10999 }
      (ascii "10.0.0.2") :=
  (heard_not_down_iff twoHosts (started twoHosts none) _ (ascii "10.0.0.2") (by decide +kernel)
    (by decide +kernel)).2 fun _ => (by decide : (0 : Int) ≤ 10999 ∧ (10999 : Int) < 0 + 11000)

end JcmController.Heartbeat
