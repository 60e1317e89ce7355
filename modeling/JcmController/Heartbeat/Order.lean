import JcmController.Heartbeat.Decision
import JcmController.Heartbeat.Descriptors

/-!
# The order of the configuration

With different ips a turn depends on its own node, on the entry its ip had at the start of the round
and on what its peer meets outside (`PeerOutcomes`), and on no other turn. What is left to the order
is which peers have a turn at all: the loop ends with the first one that does not go on.

* `through`: a list up to the first element that does not go on.
* `turns_through`: the turns of a round are those of the nodes up to there.
* `Stops`, `Changes`: the loop ends at a node, and something comes of its turn.
* **`round_order_iff`**: two orders of one list give the same round exactly when the same of the
  nodes that change something have their turn in both.
* `order_shows`: a silent peer before a revived one, and after it, with the gateway away.
-/

namespace JcmController.Heartbeat

open JcmController.Lib

/-! ## Up to the first that does not go on -/

/-- The list up to the first element that does not go on, which is the last one. -/
def through {α : Type} (goes : α → Bool) : List α → List α
  | [] => []
  | x :: xs => x :: if goes x then through goes xs else []

theorem through_subset {α : Type} (goes : α → Bool) : ∀ xs : List α, through goes xs ⊆ xs
  | [] => List.Subset.refl []
  | x :: xs => by
    rw [through]
    refine List.cons_subset_cons x ?_
    by_cases hx : goes x = true
    · rw [if_pos hx]
      exact through_subset goes xs
    · rw [if_neg hx]
      exact List.nil_subset xs

theorem mem_through_iff {α : Type} {goes : α → Bool} {x : α} : ∀ {xs : List α},
    x ∈ through goes xs ↔
      ∃ before after, xs = before ++ x :: after ∧ ∀ y ∈ before, goes y = true
  | [] => by
    refine iff_of_false List.not_mem_nil ?_
    rintro ⟨before, after, h, _⟩
    exact List.append_ne_nil_of_right_ne_nil before (List.cons_ne_nil x after) h.symm
  | y :: ys => by
    rw [through, List.mem_cons]
    constructor
    · rintro (rfl | hx)
      · exact ⟨[], ys, rfl, fun _ h => absurd h List.not_mem_nil⟩
      · by_cases hy : goes y = true
        · rw [if_pos hy] at hx
          obtain ⟨before, after, rfl, hbefore⟩ := mem_through_iff.mp hx
          exact ⟨y :: before, after, rfl, List.forall_mem_cons.mpr ⟨hy, hbefore⟩⟩
        · rw [if_neg hy] at hx
          exact absurd hx List.not_mem_nil
    · rintro ⟨before, after, h, hbefore⟩
      cases before with
      | nil => exact Or.inl (List.cons.inj h).1.symm
      | cons z before =>
        obtain ⟨rfl, rfl⟩ := List.cons.inj h
        obtain ⟨hy, hbefore⟩ := List.forall_mem_cons.mp hbefore
        rw [if_pos hy]
        exact Or.inr (mem_through_iff.mpr ⟨before, after, rfl, hbefore⟩)

/-- An element that is not reached has one before it that does not go on. -/
theorem exists_stop_of_not_mem {α : Type} {goes : α → Bool} {x : α} : ∀ {xs : List α},
    x ∈ xs → x ∉ through goes xs → ∃ y ∈ through goes xs, goes y = false
  | [], hx, _ => absurd hx List.not_mem_nil
  | y :: ys, hx, hnot => by
    rw [through] at hnot ⊢
    obtain ⟨hxy, hnot⟩ := not_or.mp (List.mem_cons.not.mp hnot)
    by_cases hy : goes y = true
    · rw [if_pos hy] at hnot ⊢
      obtain ⟨z, hz, hgoes⟩ := exists_stop_of_not_mem ((List.mem_cons.mp hx).resolve_left hxy) hnot
      exact ⟨z, List.mem_cons_of_mem y hz, hgoes⟩
    · exact ⟨y, List.mem_cons_self, Bool.eq_false_iff.mpr hy⟩

/-! ## What a peer meets -/

/-- What the peers meet in a round, wherever they stand in the list: the clock when the peer is
heard, whether the file can be opened for it, and the gateway, which is one for all. -/
structure PeerOutcomes where
  clock : Bytes → Int
  fopen : Bytes → Bool
  check : Option Int

/-- The round brings these to the peers of the list. -/
structure ByPeer (h : Host) (R : Round) (nodes : List ServerNode) (o : PeerOutcomes) : Prop where
  clock : ∀ (k : Nat) (node : ServerNode), nodes[k]? = some node → R.clock k = o.clock node.ip
  fopen : ∀ (k : Nat) (node : ServerNode), nodes[k]? = some node → R.fopen k = o.fopen node.ip
  check : ∀ k, checkResult h R k = o.check

/-- The node after the first loop. -/
def heardBy (h : Host) (recvData : Bytes) (o : PeerOutcomes) (node : ServerNode) : ServerNode :=
  if node.ip = h.myNode.ip then node
  else if node.ip = recvData then { node with hbTime := o.clock node.ip }
  else node

theorem heardBy_ip (h : Host) (recvData : Bytes) (o : PeerOutcomes) (node : ServerNode) :
    (heardBy h recvData o node).ip = node.ip := by
  unfold heardBy
  by_cases hme : node.ip = h.myNode.ip
  · rw [if_pos hme]
  · rw [if_neg hme]
    by_cases hr : node.ip = recvData
    · rw [if_pos hr]
    · rw [if_neg hr]

/-- The entry of an ip at the start of the second loop. -/
def startEntry (R : Round) (file : Option HbState) (ip : Bytes) : Option Bytes :=
  entryIn (if R.readOk then file else none) ip

/-- The decision of a node's turn. -/
def decisionBy (h : Host) (R : Round) (file : Option HbState) (o : PeerOutcomes)
    (node : ServerNode) : Decision :=
  decision h R.hbC o.check (o.fopen node.ip) node (startEntry R file node.ip)

/-! ## Stopping and changing -/

/-- The gateway check succeeds. -/
def PeerOutcomes.Answered (o : PeerOutcomes) : Prop := ∃ ret, o.check = some ret ∧ 0 ≤ ret

/-- The loop ends at the node. A silent peer ends it where the gateway does not answer; the others
are those whose turn ends the process. -/
def Stops (h : Host) (R : Round) (file : Option HbState) (o : PeerOutcomes) (node : ServerNode) :
    Prop :=
  node.ip ≠ h.myNode.ip ∧
    if silent h.wild R.hbC node.hbTime then
      ¬ o.Answered ∨ startEntry R file node.ip = none ∨
        startEntry R file node.ip = some (ascii "connect") ∧
          (node.tengIp = none ∨ o.fopen node.ip = false)
    else node.disconnect = DISCONNECT ∧
      (startEntry R file node.ip = none ∨
        startEntry R file node.ip = some (ascii "disconnect") ∧ o.fopen node.ip = false)

/-- The turn of the node changes something: a silent peer is marked, written or notified, one that
is alive is no longer marked. -/
def Changes (h : Host) (R : Round) (file : Option HbState) (o : PeerOutcomes) (node : ServerNode) :
    Prop :=
  node.ip ≠ h.myNode.ip ∧
    if silent h.wild R.hbC node.hbTime then
      o.Answered ∧ (node.disconnect ≠ DISCONNECT ∨
        startEntry R file node.ip = some (ascii "connect") ∧ node.tengIp ≠ none)
    else node.disconnect = DISCONNECT

/-- Something comes of the decision. -/
def Acts (node : ServerNode) (d : Decision) : Prop :=
  d.disconnect ≠ node.disconnect ∨ d.status ≠ none ∨ d.notified ≠ none

theorem not_acts_still (node : ServerNode) (goes : Bool) :
    ¬ Acts node ⟨node.disconnect, none, none, goes⟩ := by
  rintro (h | h | h) <;> exact h rfl

theorem decideDown_goes (fopen : Bool) (node : ServerNode) (entry : Option Bytes) :
    (decideDown fopen node entry).goes = true ↔
      ¬ (entry = none ∨ entry = some (ascii "connect") ∧
        (node.tengIp = none ∨ fopen = false)) := by
  cases entry with
  | none => simp [decideDown]
  | some entry =>
    by_cases he : entry = ascii "connect"
    · cases ht : node.tengIp <;> simp [decideDown, he, ht]
    · simp [decideDown, he]

theorem decideDown_acts (fopen : Bool) (node : ServerNode) (entry : Option Bytes) :
    Acts node (decideDown fopen node entry) ↔ node.disconnect ≠ DISCONNECT ∨
      entry = some (ascii "connect") ∧ node.tengIp ≠ none := by
  unfold Acts
  rw [ne_comm (a := node.disconnect)]
  cases entry with
  | none => simp [decideDown]
  | some entry =>
    by_cases he : entry = ascii "connect"
    · cases ht : node.tengIp <;> simp [decideDown, he, ht]
    · simp [decideDown, he]

theorem decideUp_goes (fopen : Bool) (node : ServerNode) (entry : Option Bytes) :
    (decideUp fopen node entry).goes = true ↔
      ¬ (node.disconnect = DISCONNECT ∧
        (entry = none ∨ entry = some (ascii "disconnect") ∧ fopen = false)) := by
  unfold decideUp
  by_cases hd : node.disconnect = DISCONNECT
  · rw [if_pos hd]
    cases entry with
    | none => simp [hd]
    | some entry =>
      by_cases he : entry = ascii "disconnect" <;> simp [hd, he]
  · simp [hd]

theorem decideUp_acts (fopen : Bool) (node : ServerNode) (entry : Option Bytes) :
    Acts node (decideUp fopen node entry) ↔ node.disconnect = DISCONNECT := by
  have hne : CONNECT ≠ DISCONNECT := by decide
  unfold Acts decideUp
  by_cases hd : node.disconnect = DISCONNECT
  · rw [if_pos hd]
    cases entry with
    | none => simp [hd, hne]
    | some entry =>
      by_cases he : entry = ascii "disconnect" <;> simp [hd, he, hne]
  · simp [hd]

/-- "disconnect" is written over "connect". -/
theorem decideDown_status {fopen : Bool} {node : ServerNode} {entry : Option Bytes}
    {status : Bytes} (hs : (decideDown fopen node entry).status = some status) :
    ∃ e, entry = some e ∧ e ≠ status := by
  cases entry with
  | none => cases hs
  | some entry =>
    unfold decideDown at hs
    by_cases he : entry = ascii "connect"
    · simp only [if_pos he] at hs
      cases ht : node.tengIp with
      | none =>
        rw [ht] at hs
        cases hs
      | some teng =>
        rw [ht] at hs
        obtain ⟨_, heq⟩ := Option.ite_none_right_eq_some.mp hs
        exact ⟨entry, rfl, by rw [he, ← Option.some.inj heq]; exact connect_ne_disconnect⟩
    · simp only [if_neg he] at hs
      cases hs

/-- "connect" is written over "disconnect". -/
theorem decideUp_status {fopen : Bool} {node : ServerNode} {entry : Option Bytes}
    {status : Bytes} (hs : (decideUp fopen node entry).status = some status) :
    ∃ e, entry = some e ∧ e ≠ status := by
  unfold decideUp at hs
  by_cases hd : node.disconnect = DISCONNECT
  · rw [if_pos hd] at hs
    cases entry with
    | none => cases hs
    | some entry =>
      by_cases he : entry = ascii "disconnect"
      · simp only [if_pos he] at hs
        obtain ⟨_, heq⟩ := Option.ite_none_right_eq_some.mp hs
        exact ⟨entry, rfl, by rw [he, ← Option.some.inj heq]; exact connect_ne_disconnect.symm⟩
      · simp only [if_neg he] at hs
        cases hs
  · rw [if_neg hd] at hs
    cases hs

section Decided

variable (h : Host) (R : Round) (file : Option HbState) (o : PeerOutcomes) (node : ServerNode)

/-- **The loop goes on** unless it ends at the node. -/
theorem decisionBy_goes :
    (decisionBy h R file o node).goes = true ↔ ¬ Stops h R file o node := by
  unfold decisionBy decision Stops PeerOutcomes.Answered
  by_cases hme : node.ip = h.myNode.ip
  · rw [if_pos hme]
    exact iff_of_true rfl fun hs => hs.1 hme
  · rw [if_neg hme, and_iff_right hme]
    by_cases hs : silent h.wild R.hbC node.hbTime = true
    · rw [if_pos hs, if_pos hs]
      cases hret : o.check with
      | none => simp
      | some ret =>
        by_cases hneg : ret < 0
        · simp [hneg]
        · simp only [if_neg hneg, decideDown_goes, Option.some.injEq, exists_eq_left',
            not_lt.mp hneg, not_true_eq_false, false_or]
    · rw [if_neg hs, if_neg hs]
      exact decideUp_goes _ _ _

/-- **Something comes of the turn** if the node changes something. -/
theorem decisionBy_acts : Acts node (decisionBy h R file o node) ↔ Changes h R file o node := by
  unfold decisionBy decision Changes PeerOutcomes.Answered
  by_cases hme : node.ip = h.myNode.ip
  · rw [if_pos hme]
    exact iff_of_false (not_acts_still node true) fun hc => hc.1 hme
  · rw [if_neg hme, and_iff_right hme]
    by_cases hs : silent h.wild R.hbC node.hbTime = true
    · rw [if_pos hs, if_pos hs]
      cases hret : o.check with
      | none => simp [not_acts_still]
      | some ret =>
        by_cases hneg : ret < 0
        · simp [hneg, not_acts_still]
        · simp only [if_neg hneg, decideDown_acts, Option.some.injEq, exists_eq_left',
            not_lt.mp hneg, true_and]
    · rw [if_neg hs, if_neg hs]
      exact decideUp_acts _ _ _

end Decided

section Turns

variable {h : Host} {R : Round} {nodes : List ServerNode} {o : PeerOutcomes}

/-- The first loop, node by node. -/
theorem hear_map (hR : ByPeer h R nodes o) :
    hear h R nodes 0 = nodes.map (heardBy h R.recvData o) := by
  refine List.ext_getElem? fun k => ?_
  rw [hear_getElem?, List.getElem?_map, Nat.zero_add]
  cases hk : nodes[k]? with
  | none => rfl
  | some node =>
    refine congrArg some ?_
    unfold hearNode heardBy
    rw [hR.clock k node hk]

/-- **The turns are those of the nodes up to the first that does not go on**, each with the decision
that follows from what its peer meets: a turn changes no entry but its own. -/
theorem turns_through {file : Option HbState} (nodes : List ServerNode) (i : Nat) (l : Files)
    (hips : (nodes.map ServerNode.ip).Nodup)
    (hfopen : ∀ (k : Nat) (node : ServerNode), nodes[k]? = some node →
      R.fopen (i + k) = o.fopen node.ip)
    (hcheck : ∀ k, checkResult h R k = o.check)
    (hentry : ∀ node ∈ nodes, l.entry node.ip = startEntry R file node.ip) :
    (turns h R nodes i l).map Turn.node =
        through (fun node => (decisionBy h R file o node).goes) nodes ∧
      ∀ t ∈ turns h R nodes i l, t.decision h R = decisionBy h R file o t.node := by
  induction nodes generalizing i l with
  | nil => exact ⟨rfl, fun _ ht => absurd ht List.not_mem_nil⟩
  | cons node nodes ih =>
    obtain ⟨hnot, hnodup⟩ := List.nodup_cons.mp hips
    obtain ⟨hentry₀, hentry'⟩ := List.forall_mem_cons.mp hentry
    have hdec : (⟨i, node, l⟩ : Turn).decision h R = decisionBy h R file o node := by
      have hopen : R.fopen i = o.fopen node.ip := hfopen 0 node rfl
      show decision h R.hbC (checkResult h R i) (R.fopen i) node (l.entry node.ip) = _
      rw [hcheck, hopen, hentry₀]
      rfl
    have hdoes := visit_does h R i node l
    have hexit : (visit h R i node l).exit = .go ↔
        (decisionBy h R file o node).goes = true := by
      rw [← hdec]
      exact hdoes.exit
    by_cases hgo : (visit h R i node l).exit = .go
    · -- the entries of the others are as they were
      have hother : ∀ node' ∈ nodes,
          (visit h R i node l).state.2.entry node'.ip = startEntry R file node'.ip := by
        intro node' hn
        have hne : node'.ip ≠ node.ip := fun he => hnot (he ▸ List.mem_map_of_mem hn)
        rw [← hentry' node' hn]
        cases hs : (decision h R.hbC (checkResult h R i) (R.fopen i) node
            (l.entry node.ip)).status with
        | none => rw [hdoes.still hs (hdoes.exit.mp hgo)]
        | some status =>
          obtain ⟨st, hobj, hfiles⟩ := hdoes.wrote status hs
          rw [hfiles]
          unfold Files.entry entryIn
          rw [hobj, Option.bind_some, Option.bind_some, get?_setState, if_neg hne]
      obtain ⟨hmap, hdecs⟩ := ih (i + 1) _ hnodup
        (fun k node' hk => by
          rw [show i + 1 + k = i + (k + 1) by omega]
          exact hfopen (k + 1) node' hk)
        hother
      rw [turns_go hgo, List.map_cons, hmap, through, if_pos (hexit.mp hgo)]
      exact ⟨rfl, List.forall_mem_cons.mpr ⟨hdec, hdecs⟩⟩
    · rw [turns_stop hgo, List.map_singleton, through, if_neg fun hg => hgo (hexit.mpr hg)]
      exact ⟨rfl, List.forall_mem_singleton.mpr hdec⟩

end Turns

/-! ## What a round leaves -/

/-- The node with this ip has this status. -/
def HasStatus (nodes : List ServerNode) (ip : Bytes) (d : Int) : Prop :=
  ∃ node ∈ nodes, node.ip = ip ∧ node.disconnect = d

/-- Of this ip, the disk was told that this address is down. -/
def Notified (nodes : List ServerNode) (es : List Event) (ip addr : Bytes) : Prop :=
  ∃ (k : Nat) (node : ServerNode), nodes[k]? = some node ∧ node.ip = ip ∧ (k, addr) ∈ notices es

/-- The two rounds end with the same status for every ip, the same entries and the same
notifications, or both end the process. -/
structure SameResult (s s' : Hb) (r r' : Hb × List Event) : Prop where
  running : r.1.running = r'.1.running
  file : r.1.hbState.isSome = r'.1.hbState.isSome
  status : ∀ ip d, HasStatus r.1.nodes ip d ↔ HasStatus r'.1.nodes ip d
  entries : ∀ ip, entryIn r.1.hbState ip = entryIn r'.1.hbState ip
  notified : ∀ ip addr, Notified s.nodes r.2 ip addr ↔ Notified s'.nodes r'.2 ip addr

theorem SameResult.symm {s s' : Hb} {r r' : Hb × List Event} (hsame : SameResult s s' r r') :
    SameResult s' s r' r where
  running := hsame.running.symm
  file := hsame.file.symm
  status ip d := (hsame.status ip d).symm
  entries ip := (hsame.entries ip).symm
  notified ip addr := (hsame.notified ip addr).symm

/-- The nodes that have a turn. -/
def reached (h : Host) (R : Round) (s : Hb) (o : PeerOutcomes) : List ServerNode :=
  through (fun node => (decisionBy h R s.hbState o node).goes)
    (s.nodes.map (heardBy h R.recvData o))

/-- A peer at which the loop breaks off: it is silent and the check fails. -/
def Breaks (h : Host) (R : Round) (o : PeerOutcomes) (node : ServerNode) : Prop :=
  node.ip ≠ h.myNode.ip ∧ silent h.wild R.hbC node.hbTime = true ∧
    ∃ ret, o.check = some ret ∧ ret < 0

section Break

variable {h : Host} {R : Round} {i : Nat} {node : ServerNode} {l : Files}

/-- A visit that breaks off. -/
theorem visit_cont_iff :
    (visit h R i node l).exit = .cont ↔ node.ip ≠ h.myNode.ip ∧
      silent h.wild R.hbC node.hbTime = true ∧ ∃ ret, checkResult h R i = some ret ∧ ret < 0 := by
  unfold visit
  by_cases hme : node.ip = h.myNode.ip
  · rw [if_pos hme]
    exact iff_of_false Exit.noConfusion fun hb => hb.1 hme
  · rw [if_neg hme, and_iff_right hme]
    by_cases hs : silent h.wild R.hbC node.hbTime = true
    · rw [if_pos hs, and_iff_right hs]
      obtain ⟨hnone, hsome⟩ := gatewayCheck_exit h R i node l
      cases hret : checkResult h R i with
      | none =>
        have hexit := hnone hret
        rw [Done.andThen_stop (by rw [hexit]; exact Exit.noConfusion), hexit]
        refine iff_of_false Exit.noConfusion ?_
        rintro ⟨_, h, _⟩
        cases h
      | some ret =>
        have hexit := hsome ret hret
        by_cases hneg : ret < 0
        · rw [if_pos hneg] at hexit
          rw [Done.andThen_stop (by rw [hexit]; exact Exit.noConfusion), hexit]
          exact iff_of_true rfl ⟨ret, rfl, hneg⟩
        · rw [if_neg hneg] at hexit
          rw [Done.andThen_go hexit]
          refine iff_of_false markDown_ne_cont ?_
          rintro ⟨ret', h, hneg'⟩
          exact hneg (Option.some.inj h ▸ hneg')
    · rw [if_neg hs]
      exact iff_of_false markUp_ne_cont fun hb => hs hb.1

end Break

/-- The loop ends the process if one of its turns does. -/
theorem visitLoop_crash {h : Host} {R : Round} (nodes : List ServerNode) (i : Nat) (l : Files) :
    (visitLoop h R nodes i l).exit ≠ .crash ↔
      ∀ t ∈ turns h R nodes i l, (visit h R t.place t.node t.files).exit ≠ .crash := by
  induction nodes generalizing i l with
  | nil => exact iff_of_true Exit.noConfusion fun _ ht => absurd ht List.not_mem_nil
  | cons node nodes ih =>
    by_cases hgo : (visit h R i node l).exit = .go
    · rw [visitLoop_go hgo, turns_go hgo, List.forall_mem_cons, hgo, ih]
      exact (and_iff_right Exit.noConfusion).symm
    · rw [visitLoop_stop hgo, turns_stop hgo, List.forall_mem_singleton]

/-- The file is there after the loop as before it. -/
theorem visitLoop_isSome {h : Host} {R : Round} (nodes : List ServerNode) (i : Nat) (l : Files)
    (hl : Mirrors l) : (visitLoop h R nodes i l).state.2.file.isSome = l.file.isSome := by
  induction nodes generalizing i l with
  | nil => rfl
  | cons node nodes ih =>
    have hd := visit_does h R i node l
    have hvisit : (visit h R i node l).state.2.file.isSome = l.file.isSome := by
      cases hs : (decision h R.hbC (checkResult h R i) (R.fopen i) node
          (l.entry node.ip)).status with
      | none => rw [hd.file hs]
      | some status =>
        obtain ⟨st, hobj, hfiles⟩ := hd.wrote status hs
        rw [hfiles, hl st hobj]
        rfl
    by_cases hgo : (visit h R i node l).exit = .go
    · rw [visitLoop_go hgo, ih _ _ (visit_mirrors hl hgo), hvisit]
    · rw [visitLoop_stop hgo, hvisit]

section Round

variable {h : Host} {R : Round} {s : Hb} {o : PeerOutcomes}

theorem round_isSome : (hbReceive h R s).1.hbState.isSome = s.hbState.isSome := by
  rw [hbReceive]
  exact visitLoop_isSome _ 0 _ (mirrors_start R s)

/-- A status is written over another one. -/
theorem decisionBy_status {file : Option HbState} {node : ServerNode} {status : Bytes}
    (hs : (decisionBy h R file o node).status = some status) :
    entryIn file node.ip ≠ some status := by
  obtain ⟨entry, hentry, hne⟩ : ∃ entry, startEntry R file node.ip = some entry ∧
      entry ≠ status := by
    unfold decisionBy at hs
    generalize startEntry R file node.ip = entry at hs ⊢
    unfold decision at hs
    by_cases hme : node.ip = h.myNode.ip
    · rw [if_pos hme] at hs
      cases hs
    · rw [if_neg hme] at hs
      by_cases hsil : silent h.wild R.hbC node.hbTime = true
      · rw [if_pos hsil] at hs
        cases hret : o.check with
        | none =>
          rw [hret] at hs
          cases hs
        | some ret =>
          by_cases hneg : ret < 0
          · simp only [hret, if_pos hneg] at hs
            cases hs
          · simp only [hret, if_neg hneg] at hs
            exact decideDown_status hs
      · rw [if_neg hsil] at hs
        exact decideUp_status hs
  unfold startEntry at hentry
  by_cases hr : R.readOk = true
  · rw [if_pos hr] at hentry
    rw [hentry]
    exact fun heq => hne (Option.some.inj heq)
  · rw [if_neg hr] at hentry
    cases hentry

/-- Hearing changes no ip. -/
theorem heard_ips_nodup (hips : (s.nodes.map ServerNode.ip).Nodup) :
    ((s.nodes.map (heardBy h R.recvData o)).map ServerNode.ip).Nodup := by
  have hip : (s.nodes.map (heardBy h R.recvData o)).map ServerNode.ip =
      s.nodes.map ServerNode.ip := by
    rw [List.map_map]
    exact List.map_congr_left fun node _ => heardBy_ip h R.recvData o node
  rwa [hip]

/-- The heard node of a configured ip. -/
theorem exists_heard (h : Host) (R : Round) (o : PeerOutcomes) {ip : Bytes}
    (hip : ip ∈ s.nodes.map ServerNode.ip) :
    ∃ node ∈ s.nodes.map (heardBy h R.recvData o), node.ip = ip := by
  obtain ⟨node, hn, rfl⟩ := List.mem_map.mp hip
  exact ⟨_, List.mem_map_of_mem hn, heardBy_ip h R.recvData o node⟩

/-- Two heard nodes with one ip are one. -/
theorem heard_unique (hips : (s.nodes.map ServerNode.ip).Nodup) {node node' : ServerNode}
    (hn : node ∈ s.nodes.map (heardBy h R.recvData o))
    (hn' : node' ∈ s.nodes.map (heardBy h R.recvData o)) (hip : node.ip = node'.ip) :
    node = node' :=
  List.inj_on_of_nodup_map (heard_ips_nodup hips) hn hn' hip

theorem reached_heard {node : ServerNode} (hn : node ∈ reached h R s o) :
    node ∈ s.nodes.map (heardBy h R.recvData o) := through_subset _ _ hn

variable (hips : (s.nodes.map ServerNode.ip).Nodup) (hR : ByPeer h R s.nodes o)

include hips hR

/-- The turns of the round. -/
theorem round_turns :
    (turns h R (hear h R s.nodes 0) 0 ⟨if R.readOk then s.hbState else none, s.hbState⟩).map
        Turn.node = reached h R s o ∧
      ∀ t ∈ turns h R (hear h R s.nodes 0) 0
          ⟨if R.readOk then s.hbState else none, s.hbState⟩,
        t.decision h R = decisionBy h R s.hbState o t.node := by
  have hfopen : ∀ (k : Nat) (node : ServerNode),
      (s.nodes.map (heardBy h R.recvData o))[k]? = some node →
        R.fopen (0 + k) = o.fopen node.ip := by
    intro k node hk
    rw [List.getElem?_map] at hk
    obtain ⟨node₀, hk₀, rfl⟩ := Option.map_eq_some_iff.mp hk
    rw [Nat.zero_add, heardBy_ip]
    exact hR.fopen k node₀ hk₀
  rw [hear_map hR]
  exact turns_through _ 0 _ (heard_ips_nodup hips) hfopen hR.check fun _ _ => rfl

/-- A node that has a turn, with that turn. -/
theorem turn_of_reached {node : ServerNode} (hn : node ∈ reached h R s o) :
    ∃ t ∈ turns h R (hear h R s.nodes 0) 0 ⟨if R.readOk then s.hbState else none, s.hbState⟩,
      t.node = node ∧ t.decision h R = decisionBy h R s.hbState o node := by
  obtain ⟨hmap, hdec⟩ := round_turns hips hR
  rw [← hmap] at hn
  obtain ⟨t, ht, rfl⟩ := List.mem_map.mp hn
  exact ⟨t, ht, rfl, hdec t ht⟩

/-- The node of a turn has one, and its decision is that of the turn. -/
theorem reached_of_turn {t : Turn} (ht : t ∈ turns h R (hear h R s.nodes 0) 0
    ⟨if R.readOk then s.hbState else none, s.hbState⟩) :
    t.node ∈ reached h R s o ∧ t.decision h R = decisionBy h R s.hbState o t.node := by
  obtain ⟨hmap, hdec⟩ := round_turns hips hR
  rw [← hmap]
  exact ⟨List.mem_map_of_mem ht, hdec t ht⟩

/-- **The nodes after the round**: those that had a turn are marked as it decided. -/
theorem round_nodes :
    (hbReceive h R s).1.nodes = (s.nodes.map (heardBy h R.recvData o)).map fun node =>
      if node ∈ reached h R s o then
        node.mark (decisionBy h R s.hbState o node).disconnect else node := by
  have hheard := hear_map hR
  obtain ⟨hturn, hnode⟩ := visitLoop_marks (h := h) (R := R) (hear h R s.nodes 0) 0
    ⟨if R.readOk then s.hbState else none, s.hbState⟩
  have hlen : (hbReceive h R s).1.nodes.length =
      (s.nodes.map (heardBy h R.recvData o)).length := by
    have hmap := congrArg List.length (hbReceive_ips h R s)
    simpa only [List.length_map] using hmap
  refine List.ext_getElem (hlen.trans (List.length_map _).symm) fun k hk hk' => ?_
  have hkX : k < (s.nodes.map (heardBy h R.recvData o)).length := hlen ▸ hk
  have hget := List.getElem?_eq_getElem hkX
  rw [List.getElem_map]
  generalize hX : (s.nodes.map (heardBy h R.recvData o))[k] = node at hget ⊢
  rcases hnode k _ (List.getElem?_eq_getElem hk) with hsame | ⟨t, ht, _, htk, hmark⟩
  · rw [hheard, hget] at hsame
    obtain rfl := Option.some.inj hsame
    by_cases hr : (hbReceive h R s).1.nodes[k] ∈ reached h R s o
    · obtain ⟨t, ht, htn, hdec⟩ := turn_of_reached hips hR hr
      obtain ⟨k₁, _, hk₁, hres⟩ := hturn t ht
      have hnodup : (s.nodes.map (heardBy h R.recvData o)).Nodup :=
        List.Nodup.of_map ServerNode.ip (heard_ips_nodup hips)
      rw [hheard, htn] at hk₁
      obtain rfl : k = k₁ := (List.getElem?_inj hkX hnodup).mp (hget.trans hk₁.symm)
      rw [if_pos hr, ← hdec, ← htn]
      rw [htn] at hres ⊢
      have hres' := (List.getElem?_eq_getElem hk).symm.trans hres
      exact Option.some.inj hres'
    · rw [if_neg hr]
  · rw [hheard, hget] at htk
    obtain rfl := Option.some.inj htk
    obtain ⟨hr, hdec⟩ := reached_of_turn hips hR ht
    rw [if_pos hr, ← hdec]
    exact hmark

/-- **The status** of an ip after the round. -/
theorem round_status {node : ServerNode} (hn : node ∈ s.nodes.map (heardBy h R.recvData o))
    (d : Int) :
    HasStatus (hbReceive h R s).1.nodes node.ip d ↔
      d = if node ∈ reached h R s o then (decisionBy h R s.hbState o node).disconnect
        else node.disconnect := by
  have hip : ∀ node' : ServerNode, (if node' ∈ reached h R s o then
      node'.mark (decisionBy h R s.hbState o node').disconnect else node').ip = node'.ip := by
    intro node'
    by_cases hr : node' ∈ reached h R s o
    · rw [if_pos hr]
      rfl
    · rw [if_neg hr]
  have hval : (if node ∈ reached h R s o then
      node.mark (decisionBy h R s.hbState o node).disconnect else node).disconnect =
        if node ∈ reached h R s o then (decisionBy h R s.hbState o node).disconnect
          else node.disconnect := by
    by_cases hr : node ∈ reached h R s o
    · rw [if_pos hr, if_pos hr]
      rfl
    · rw [if_neg hr, if_neg hr]
  unfold HasStatus
  rw [round_nodes hips hR]
  constructor
  · rintro ⟨node', hn', hip', rfl⟩
    obtain ⟨node₁, hn₁, rfl⟩ := List.mem_map.mp hn'
    obtain rfl : node₁ = node := heard_unique hips hn₁ hn ((hip node₁).symm.trans hip')
    exact hval
  · rintro rfl
    exact ⟨_, List.mem_map_of_mem hn, hip node, hval⟩

/-- **The entry** of a configured ip after the round. -/
theorem round_entry {node : ServerNode} (hn : node ∈ s.nodes.map (heardBy h R.recvData o)) :
    entryIn (hbReceive h R s).1.hbState node.ip =
      (if node ∈ reached h R s o then (decisionBy h R s.hbState o node).status else none).or
        (entryIn s.hbState node.ip) := by
  rw [hbReceive, visitLoop_file _ 0 _ (mirrors_start R s)]
  refine congrArg (Option.or · (entryIn s.hbState node.ip)) ?_
  have hown : ∀ t ∈ turns h R (hear h R s.nodes 0) 0
      ⟨if R.readOk then s.hbState else none, s.hbState⟩, t.node.ip = node.ip →
        t.node = node := fun t ht hip =>
    heard_unique hips (reached_heard (reached_of_turn hips hR ht).1) hn hip
  by_cases hr : node ∈ reached h R s o
  · rw [if_pos hr]
    obtain ⟨t, ht, htn, hdec⟩ := turn_of_reached hips hR hr
    cases hs : (decisionBy h R s.hbState o node).status with
    | none =>
      refine (congrArg List.getLast? (List.filterMap_eq_nil_iff.mpr fun t' ht' => ?_))
      by_cases hip : t'.node.ip = node.ip
      · rw [if_pos hip, (reached_of_turn hips hR ht').2, hown t' ht' hip, hs]
      · rw [if_neg hip]
    | some status =>
      have hmem : status ∈ written h R node.ip (turns h R (hear h R s.nodes 0) 0
          ⟨if R.readOk then s.hbState else none, s.hbState⟩) :=
        List.mem_filterMap.mpr ⟨t, ht, by rw [if_pos (by rw [htn]), hdec, hs]⟩
      -- every status written for the ip is this one
      obtain ⟨last, hlast⟩ : ∃ last, (written h R node.ip (turns h R (hear h R s.nodes 0) 0
          ⟨if R.readOk then s.hbState else none, s.hbState⟩)).getLast? = some last :=
        Option.isSome_iff_exists.mp (List.getLast?_isSome.mpr (List.ne_nil_of_mem hmem))
      obtain ⟨t', ht', hst'⟩ := List.mem_filterMap.mp (List.mem_of_getLast? hlast)
      rw [hlast]
      by_cases hip : t'.node.ip = node.ip
      · rw [if_pos hip, (reached_of_turn hips hR ht').2, hown t' ht' hip, hs] at hst'
        exact hst'.symm
      · rw [if_neg hip] at hst'
        cases hst'
  · rw [if_neg hr]
    refine (congrArg List.getLast? (List.filterMap_eq_nil_iff.mpr fun t ht => ?_))
    by_cases hip : t.node.ip = node.ip
    · exact absurd (hown t ht hip ▸ (reached_of_turn hips hR ht).1) hr
    · rw [if_neg hip]

/-- No entry of another ip is written. -/
theorem round_entry_other {ip : Bytes} (hip : ip ∉ s.nodes.map ServerNode.ip) :
    entryIn (hbReceive h R s).1.hbState ip = entryIn s.hbState ip := by
  rw [hbReceive, visitLoop_file _ 0 _ (mirrors_start R s)]
  have hnil : written h R ip (turns h R (hear h R s.nodes 0) 0
      ⟨if R.readOk then s.hbState else none, s.hbState⟩) = [] := by
    refine List.filterMap_eq_nil_iff.mpr fun t ht => if_neg fun he => hip ?_
    obtain ⟨node₀, hn₀, hnode⟩ := List.mem_map.mp (reached_heard (reached_of_turn hips hR ht).1)
    rw [← he, ← hnode, heardBy_ip]
    exact List.mem_map_of_mem hn₀
  rw [hnil]
  rfl

/-- **The notification** for a configured ip. -/
theorem round_notified {node : ServerNode} (hn : node ∈ s.nodes.map (heardBy h R.recvData o))
    (addr : Bytes) :
    Notified s.nodes (hbReceive h R s).2 node.ip addr ↔
      node ∈ reached h R s o ∧ (decisionBy h R s.hbState o node).notified = some addr := by
  have hturn := (visitLoop_marks (h := h) (R := R) (hear h R s.nodes 0) 0
    ⟨if R.readOk then s.hbState else none, s.hbState⟩).1
  have hplace : ∀ t ∈ turns h R (hear h R s.nodes 0) 0
      ⟨if R.readOk then s.hbState else none, s.hbState⟩,
      ∃ node₀, s.nodes[t.place]? = some node₀ ∧ node₀.ip = t.node.ip := by
    intro t ht
    obtain ⟨k, hk, hkn, _⟩ := hturn t ht
    rw [hear_map hR, List.getElem?_map] at hkn
    obtain ⟨node₀, hk₀, hnode⟩ := Option.map_eq_some_iff.mp hkn
    rw [hk, Nat.zero_add]
    exact ⟨node₀, hk₀, by rw [← hnode, heardBy_ip]⟩
  unfold Notified
  rw [hbReceive, visitLoop_notices]
  constructor
  · rintro ⟨k, node₀, hk, hip, hnote⟩
    obtain ⟨t, ht, hnote⟩ := List.mem_flatMap.mp hnote
    obtain ⟨addr', haddr, heq⟩ := List.mem_map.mp hnote
    obtain ⟨rfl, rfl⟩ := Prod.mk.inj heq
    obtain ⟨node₁, hk₁, hip₁⟩ := hplace t ht
    obtain rfl := Option.some.inj (hk.symm.trans hk₁)
    obtain ⟨hr, hdec⟩ := reached_of_turn hips hR ht
    have hown := heard_unique hips (reached_heard hr) hn (hip₁.symm.trans hip)
    rw [← hown, ← hdec]
    exact ⟨hr, Option.mem_toList.mp haddr⟩
  · rintro ⟨hr, hnote⟩
    obtain ⟨t, ht, htn, hdec⟩ := turn_of_reached hips hR hr
    obtain ⟨node₀, hk₀, hip₀⟩ := hplace t ht
    refine ⟨t.place, node₀, hk₀, by rw [hip₀, htn], List.mem_flatMap.mpr ⟨t, ht, ?_⟩⟩
    rw [Turn.notice, hdec, hnote]
    exact List.mem_singleton_self _

/-- **The process** goes on unless a node that has a turn ends it, which is then not a silent peer
behind a check that fails. -/
theorem round_running :
    (hbReceive h R s).1.running = true ↔ ∀ node ∈ reached h R s o,
      Stops h R s.hbState o node → Breaks h R o node := by
  have hexit := visitLoop_crash (h := h) (R := R) (hear h R s.nodes 0) 0
    ⟨if R.readOk then s.hbState else none, s.hbState⟩
  rw [hbReceive, decide_eq_true_eq, hexit]
  have hstop : ∀ t ∈ turns h R (hear h R s.nodes 0) 0
      ⟨if R.readOk then s.hbState else none, s.hbState⟩,
      (visit h R t.place t.node t.files).exit = .go ↔ ¬ Stops h R s.hbState o t.node := by
    intro t ht
    rw [← decisionBy_goes, ← (reached_of_turn hips hR ht).2]
    exact (visit_does h R t.place t.node t.files).exit
  have hbreak : ∀ t ∈ turns h R (hear h R s.nodes 0) 0
      ⟨if R.readOk then s.hbState else none, s.hbState⟩,
      (visit h R t.place t.node t.files).exit = .cont ↔ Breaks h R o t.node := by
    intro t _
    rw [visit_cont_iff, Breaks, hR.check]
  constructor
  · intro hall node hn hs
    obtain ⟨t, ht, rfl, _⟩ := turn_of_reached hips hR hn
    refine (hbreak t ht).mp ?_
    cases hx : (visit h R t.place t.node t.files).exit with
    | go => exact absurd hs ((hstop t ht).mp hx)
    | cont => rfl
    | crash => exact absurd hx (hall t ht)
  · intro hall t ht hx
    have hs : Stops h R s.hbState o t.node := by
      by_contra hs
      have := (hstop t ht).mpr hs
      rw [hx] at this
      cases this
    have := (hbreak t ht).mpr (hall t.node (reached_of_turn hips hR ht).1 hs)
    rw [hx] at this
    cases this

end Round

/-! ## Two orders -/

/-- The node has a turn: the loop ends at none before it. -/
def HasTurn (h : Host) (R : Round) (s : Hb) (o : PeerOutcomes) (node : ServerNode) : Prop :=
  ∃ before after, s.nodes.map (heardBy h R.recvData o) = before ++ node :: after ∧
    ∀ node' ∈ before, ¬ Stops h R s.hbState o node'

theorem mem_reached_iff {h : Host} {R : Round} {s : Hb} {o : PeerOutcomes} {node : ServerNode} :
    node ∈ reached h R s o ↔ HasTurn h R s o node := by
  unfold reached HasTurn
  simp only [mem_through_iff, decisionBy_goes]

/-- Where the loop ends at no node, all have a turn. -/
theorem hasTurn_of_goes {h : Host} {R : Round} {s : Hb} {o : PeerOutcomes} {node : ServerNode}
    (hgo : ∀ node' ∈ s.nodes.map (heardBy h R.recvData o), ¬ Stops h R s.hbState o node')
    (hn : node ∈ s.nodes.map (heardBy h R.recvData o)) : HasTurn h R s o node := by
  obtain ⟨before, after, hsplit⟩ := List.append_of_mem hn
  refine ⟨before, after, hsplit, fun node' hn' => hgo node' ?_⟩
  rw [hsplit]
  exact List.mem_append_left _ hn'

/-- The list of `s'` is that of `s` in another order, and the peers meet the same in `R'` and
`R`. -/
structure Reordered (h : Host) (R R' : Round) (s s' : Hb) (o : PeerOutcomes) : Prop where
  nodes : s'.nodes.Perm s.nodes
  ips : (s.nodes.map ServerNode.ip).Nodup
  hbState : s'.hbState = s.hbState
  hbC : R'.hbC = R.hbC
  datagram : R'.datagram = R.datagram
  readOk : R'.readOk = R.readOk
  byPeer : ByPeer h R s.nodes o
  byPeer' : ByPeer h R' s'.nodes o

namespace Reordered

variable {h : Host} {R R' : Round} {s s' : Hb} {o : PeerOutcomes}

theorem ips' (hre : Reordered h R R' s s' o) : (s'.nodes.map ServerNode.ip).Nodup :=
  (hre.nodes.map ServerNode.ip).nodup_iff.mpr hre.ips

theorem symm (hre : Reordered h R R' s s' o) : Reordered h R' R s' s o where
  nodes := hre.nodes.symm
  ips := hre.ips'
  hbState := hre.hbState.symm
  hbC := hre.hbC.symm
  datagram := hre.datagram.symm
  readOk := hre.readOk.symm
  byPeer := hre.byPeer'
  byPeer' := hre.byPeer

theorem recvData (hre : Reordered h R R' s s' o) : R'.recvData = R.recvData := by
  rw [Round.recvData, hre.datagram, Round.recvData]

theorem mem_heard (hre : Reordered h R R' s s' o) {node : ServerNode} :
    node ∈ s'.nodes.map (heardBy h R'.recvData o) ↔
      node ∈ s.nodes.map (heardBy h R.recvData o) := by
  rw [hre.recvData]
  exact (hre.nodes.map _).mem_iff

theorem startEntry_eq (hre : Reordered h R R' s s' o) (ip : Bytes) :
    startEntry R' s'.hbState ip = startEntry R s.hbState ip := by
  rw [startEntry, hre.readOk, hre.hbState, startEntry]

theorem decision_eq (hre : Reordered h R R' s s' o) (node : ServerNode) :
    decisionBy h R' s'.hbState o node = decisionBy h R s.hbState o node := by
  rw [decisionBy, hre.hbC, hre.startEntry_eq, decisionBy]

theorem stops_iff (hre : Reordered h R R' s s' o) (node : ServerNode) :
    Stops h R' s'.hbState o node ↔ Stops h R s.hbState o node := by
  rw [← not_iff_not, ← decisionBy_goes, ← decisionBy_goes, hre.decision_eq]

theorem breaks_iff (hre : Reordered h R R' s s' o) (node : ServerNode) :
    Breaks h R' o node ↔ Breaks h R o node := by
  rw [Breaks, hre.hbC, Breaks]

theorem changes_iff (hre : Reordered h R R' s s' o) (node : ServerNode) :
    Changes h R' s'.hbState o node ↔ Changes h R s.hbState o node := by
  rw [← decisionBy_acts, ← decisionBy_acts, hre.decision_eq]

/-- **What a turn changes shows**: the other order has it too. -/
theorem reached_of_same (hre : Reordered h R R' s s' o)
    (hsame : SameResult s s' (hbReceive h R s) (hbReceive h R' s')) {node : ServerNode}
    (hacts : Acts node (decisionBy h R s.hbState o node)) (hn : node ∈ reached h R s o) :
    node ∈ reached h R' s' o := by
  have hheard := reached_heard hn
  have hheard' := hre.mem_heard.mpr hheard
  by_contra hnot
  rcases hacts with hmark | hstatus | hnote
  · have hhas := (round_status hre.ips hre.byPeer hheard _).mpr rfl
    rw [if_pos hn] at hhas
    have := (round_status hre.ips' hre.byPeer' hheard' _).mp ((hsame.status _ _).mp hhas)
    rw [if_neg hnot] at this
    exact hmark this
  · have hentry := round_entry hre.ips hre.byPeer hheard
    rw [hsame.entries, round_entry hre.ips' hre.byPeer' hheard', if_neg hnot, Option.none_or,
      hre.hbState, if_pos hn] at hentry
    obtain ⟨status, hs⟩ := Option.ne_none_iff_exists'.mp hstatus
    rw [hs, Option.some_or] at hentry
    exact decisionBy_status hs hentry
  · obtain ⟨addr, haddr⟩ := Option.ne_none_iff_exists'.mp hnote
    have hnotified := (round_notified hre.ips hre.byPeer hheard addr).mpr ⟨hn, haddr⟩
    exact hnot ((round_notified hre.ips' hre.byPeer' hheard' addr).mp
      ((hsame.notified _ _).mp hnotified)).1

/-- The process ends in both orders or in neither. -/
theorem running_of (hre : Reordered h R R' s s' o)
    (hboth : ∀ node ∈ reached h R' s' o, Changes h R s.hbState o node → node ∈ reached h R s o)
    (hrun : (hbReceive h R s).1.running = true) : (hbReceive h R' s').1.running = true := by
  rw [round_running hre.ips hre.byPeer] at hrun
  rw [round_running hre.ips' hre.byPeer']
  intro node hn hs
  rw [hre.breaks_iff]
  rw [hre.stops_iff] at hs
  by_cases hr : node ∈ reached h R s o
  · exact hrun node hr hs
  · -- the other order breaks off before it, so the check fails, and nothing changes here
    have hnc : ¬ Changes h R s.hbState o node := fun hc => hr (hboth node hn hc)
    obtain ⟨x, hx, hgoes⟩ := exists_stop_of_not_mem (hre.mem_heard.mp (reached_heard hn)) hr
    have hxs : Stops h R s.hbState o x := by
      by_contra hxs
      have := (decisionBy_goes h R s.hbState o x).mpr hxs
      rw [hgoes] at this
      cases this
    obtain ⟨_, _, hfails⟩ := hrun x hx hxs
    refine ⟨hs.1, ?_, hfails⟩
    by_contra hsil
    refine hnc ⟨hs.1, ?_⟩
    rw [if_neg hsil]
    have := hs.2
    rw [if_neg hsil] at this
    exact this.1

theorem mem_ips (hre : Reordered h R R' s s' o) {ip : Bytes} :
    ip ∈ s'.nodes.map ServerNode.ip ↔ ip ∈ s.nodes.map ServerNode.ip :=
  (hre.nodes.map ServerNode.ip).mem_iff

/-- The nodes whose turn does something have it in both orders or in neither. -/
def SameTurns (h : Host) (R R' : Round) (s s' : Hb) (o : PeerOutcomes) : Prop :=
  ∀ node ∈ s.nodes.map (heardBy h R.recvData o), Acts node (decisionBy h R s.hbState o node) →
    (node ∈ reached h R s o ↔ node ∈ reached h R' s' o)

theorem same_status (hre : Reordered h R R' s s' o) (hboth : SameTurns h R R' s s' o)
    (ip : Bytes) (d : Int) : HasStatus (hbReceive h R s).1.nodes ip d ↔
      HasStatus (hbReceive h R' s').1.nodes ip d := by
  by_cases hip : ip ∈ s.nodes.map ServerNode.ip
  · obtain ⟨node, hn, rfl⟩ := exists_heard h R o hip
    rw [round_status hre.ips hre.byPeer hn,
      round_status hre.ips' hre.byPeer' (hre.mem_heard.mpr hn), hre.decision_eq]
    by_cases hacts : Acts node (decisionBy h R s.hbState o node)
    · simp only [hboth node hn hacts]
    · rw [not_not.mp (not_or.mp hacts).1, ite_self, ite_self]
  · have hnone : ∀ {h : Host} {R : Round} {s : Hb}, ip ∉ s.nodes.map ServerNode.ip →
        ¬ HasStatus (hbReceive h R s).1.nodes ip d := by
      rintro h R s hnot ⟨node, hn, rfl, _⟩
      refine hnot ?_
      rw [← hbReceive_ips h R s]
      exact List.mem_map_of_mem hn
    exact iff_of_false (hnone hip) (hnone fun hip' => hip (hre.mem_ips.mp hip'))

theorem same_entry (hre : Reordered h R R' s s' o) (hboth : SameTurns h R R' s s' o)
    (ip : Bytes) : entryIn (hbReceive h R s).1.hbState ip =
      entryIn (hbReceive h R' s').1.hbState ip := by
  by_cases hip : ip ∈ s.nodes.map ServerNode.ip
  · obtain ⟨node, hn, rfl⟩ := exists_heard h R o hip
    rw [round_entry hre.ips hre.byPeer hn,
      round_entry hre.ips' hre.byPeer' (hre.mem_heard.mpr hn), hre.decision_eq, hre.hbState]
    by_cases hacts : Acts node (decisionBy h R s.hbState o node)
    · simp only [hboth node hn hacts]
    · rw [not_not.mp (not_or.mp (not_or.mp hacts).2).1, ite_self, ite_self]
  · rw [round_entry_other hre.ips hre.byPeer hip, round_entry_other hre.ips' hre.byPeer'
      fun hip' => hip (hre.mem_ips.mp hip'), hre.hbState]

theorem same_notified (hre : Reordered h R R' s s' o) (hboth : SameTurns h R R' s s' o)
    (ip addr : Bytes) : Notified s.nodes (hbReceive h R s).2 ip addr ↔
      Notified s'.nodes (hbReceive h R' s').2 ip addr := by
  by_cases hip : ip ∈ s.nodes.map ServerNode.ip
  · obtain ⟨node, hn, rfl⟩ := exists_heard h R o hip
    rw [round_notified hre.ips hre.byPeer hn,
      round_notified hre.ips' hre.byPeer' (hre.mem_heard.mpr hn), hre.decision_eq]
    by_cases hacts : Acts node (decisionBy h R s.hbState o node)
    · rw [hboth node hn hacts]
    · rw [not_not.mp (not_or.mp (not_or.mp hacts).2).2]
      exact iff_of_false (fun h => nomatch h.2) fun h => nomatch h.2
  · refine iff_of_false ?_ ?_
    · rintro ⟨k, node, hk, rfl, _⟩
      exact hip (List.mem_map_of_mem (List.mem_of_getElem? hk))
    · rintro ⟨k, node, hk, rfl, _⟩
      exact hip (List.mem_map_of_mem (hre.nodes.mem_iff.mp (List.mem_of_getElem? hk)))

end Reordered

/-- **The order of the configuration** does not show exactly when the same of the nodes that change
something have their turn in both orders. -/
theorem round_order_iff (h : Host) (R R' : Round) (s s' : Hb) (o : PeerOutcomes)
    (hre : Reordered h R R' s s' o) :
    SameResult s s' (hbReceive h R s) (hbReceive h R' s') ↔
      ∀ node ∈ s.nodes.map (heardBy h R.recvData o), Changes h R s.hbState o node →
        (HasTurn h R s o node ↔ HasTurn h R' s' o node) := by
  simp only [← mem_reached_iff]
  constructor
  · intro hsame node _ hc
    have hacts := (decisionBy_acts h R s.hbState o node).mpr hc
    refine ⟨hre.reached_of_same hsame hacts, hre.symm.reached_of_same hsame.symm ?_⟩
    rw [hre.decision_eq]
    exact hacts
  · intro hboth
    have hturns : Reordered.SameTurns h R R' s s' o := fun node hn hacts =>
      hboth node hn ((decisionBy_acts h R s.hbState o node).mp hacts)
    refine ⟨?_, ?_, hre.same_status hturns, hre.same_entry hturns, hre.same_notified hturns⟩
    · refine Bool.eq_iff_iff.mpr ⟨hre.running_of fun node hn hc => ?_,
        hre.symm.running_of fun node hn hc => ?_⟩
      · exact (hboth node (hre.mem_heard.mp (reached_heard hn)) hc).mpr hn
      · exact (hboth node (reached_heard hn) (hre.changes_iff node |>.mp hc)).mp hn
    · rw [round_isSome, round_isSome, hre.hbState]

/-! ## A silent peer and a revived one -/

/-- Heard from at `clock()` 0. -/
def quietPeer : ServerNode := nodeAt "10.0.0.2"

/-- Marked in an earlier round. -/
def markedPeer : ServerNode := { nodeAt "10.0.0.3" with disconnect := DISCONNECT }

/-- The first of three servers. -/
def threeHosts : Host where
  proc := twoHosts.proc
  serverConfig := [nodeAt "10.0.0.1", nodeAt "10.0.0.2", nodeAt "10.0.0.3"]
  myNode := nodeAt "10.0.0.1"
  found := List.mem_cons_self
  wild := fun _ => false

/-- The state with the nodes in this order. -/
def oneMarked (peers : List ServerNode) : Hb where
  nodes := nodeAt "10.0.0.1" :: peers
  hbState := some (((Assoc.empty.add (ascii "10.0.0.1") (ascii "connect")).add
    (ascii "10.0.0.2") (ascii "connect")).add (ascii "10.0.0.3") (ascii "disconnect"))
  running := true

/-- The marked peer is heard, and the gateway does not answer in time. -/
def deafRound : Round :=
  { roundWith 20000 (some (ascii "10.0.0.3")) 5 with
    check := fun _ => ⟨5, fun _ => ⟨64, ⟨0, 0⟩, [⟨⟨2, 0⟩, none⟩]⟩⟩ }

/-- The same, and the gateway answers. -/
def answeredRound : Round := roundWith 20000 (some (ascii "10.0.0.3")) 5

/-- What the peers meet in a round that is the same for all of them. -/
def sameForAll (R : Round) : PeerOutcomes :=
  ⟨fun _ => R.clock 0, fun _ => R.fopen 0, checkResult threeHosts R 0⟩

theorem reordered_peers (R : Round) (hclock : ∀ k, R.clock k = R.clock 0)
    (hfopen : ∀ k, R.fopen k = R.fopen 0) (hcheck : ∀ k, R.check k = R.check 0) :
    Reordered threeHosts R R (oneMarked [quietPeer, markedPeer])
      (oneMarked [markedPeer, quietPeer]) (sameForAll R) := by
  have hsame : ∀ k, checkResult threeHosts R k = (sameForAll R).check := by
    intro k
    rw [checkResult, hcheck k]
    rfl
  exact
    { nodes := (List.Perm.swap quietPeer markedPeer []).cons _
      ips := by decide +kernel
      hbState := rfl
      hbC := rfl
      datagram := rfl
      readOk := rfl
      byPeer := ⟨fun k _ _ => hclock k, fun k _ _ => hfopen k, hsame⟩
      byPeer' := ⟨fun k _ _ => hclock k, fun k _ _ => hfopen k, hsame⟩ }

/-- Behind the silent peer the revived one stays "disconnect", before it it becomes "connect". -/
theorem order_shows :
    Reordered threeHosts deafRound deafRound (oneMarked [quietPeer, markedPeer])
        (oneMarked [markedPeer, quietPeer]) (sameForAll deafRound) ∧
      ¬ SameResult (oneMarked [quietPeer, markedPeer]) (oneMarked [markedPeer, quietPeer])
        (hbReceive threeHosts deafRound (oneMarked [quietPeer, markedPeer]))
        (hbReceive threeHosts deafRound (oneMarked [markedPeer, quietPeer])) := by
  refine ⟨reordered_peers deafRound (fun _ => rfl) (fun _ => rfl) fun _ => rfl,
    fun hsame => ?_⟩
  exact absurd (hsame.entries (ascii "10.0.0.3")) (by decide +kernel)

/-- With the gateway there, the two orders give the same. -/
theorem round_order_answered :
    SameResult (oneMarked [quietPeer, markedPeer]) (oneMarked [markedPeer, quietPeer])
      (hbReceive threeHosts answeredRound (oneMarked [quietPeer, markedPeer]))
      (hbReceive threeHosts answeredRound (oneMarked [markedPeer, quietPeer])) := by
  have hre := reordered_peers answeredRound (fun _ => rfl) (fun _ => rfl) fun _ => rfl
  have hgo : ∀ node ∈ (oneMarked [quietPeer, markedPeer]).nodes.map
      (heardBy threeHosts answeredRound.recvData (sameForAll answeredRound)),
      ¬ Stops threeHosts answeredRound (oneMarked [quietPeer, markedPeer]).hbState
        (sameForAll answeredRound) node := by
    have hall : ∀ node ∈ (oneMarked [quietPeer, markedPeer]).nodes.map
        (heardBy threeHosts answeredRound.recvData (sameForAll answeredRound)),
        (decisionBy threeHosts answeredRound (oneMarked [quietPeer, markedPeer]).hbState
          (sameForAll answeredRound) node).goes = true := by
      decide +kernel
    exact fun node hn => (decisionBy_goes _ _ _ _ node).mp (hall node hn)
  refine (round_order_iff threeHosts answeredRound answeredRound _ _ _ hre).mpr fun node hn _ =>
    iff_of_true (hasTurn_of_goes hgo hn) (hasTurn_of_goes (fun node' hn' => ?_) ?_)
  · exact (hre.stops_iff node').not.mpr (hgo node' (hre.mem_heard.mp hn'))
  · exact hre.mem_heard.mpr hn

end JcmController.Heartbeat
