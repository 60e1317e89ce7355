import JcmController.Heartbeat.Blame
import JcmController.Heartbeat.FirstNotice

/-!
# What a turn decides

A turn of the second loop looks at its own node, at the entry of that ip, and at what it learns from
outside: the result of the gateway check and whether `hb_state` can be opened. From these alone
follow the new mark, the new status, the notification, and whether the loop goes on (`decision`).

* **`visit_does`**: a visit does what was decided, and nothing else.
* `turns`: the turns a round takes, each with the files as they stand at its start.
* `visitLoop_notices`, `visitLoop_marks`, `visitLoop_file`: what the loop leaves is what its turns
  decided.
-/

namespace JcmController.Heartbeat

open JcmController.Lib

/-! ## Decisions -/

/-- What comes of a turn: the field `disconnect`, the status written to `hb_state`, the address
notified, and whether the loop goes on. -/
structure Decision where
  disconnect : Int
  status : Option Bytes
  notified : Option Bytes
  goes : Bool

/-- `teng_ip`, or the ip where that is "NULL". -/
def ServerNode.address (node : ServerNode) (teng : Bytes) : Bytes :=
  if teng = ascii "NULL" then node.ip else teng

/-- The silent branch behind the check. -/
def decideDown (fopen : Bool) (node : ServerNode) : Option Bytes → Decision
  | none => ⟨DISCONNECT, none, none, false⟩
  | some entry =>
    if entry = ascii "connect" then
      match node.tengIp with
      | none => ⟨DISCONNECT, none, none, false⟩
      | some teng =>
        ⟨DISCONNECT, if fopen then some (ascii "disconnect") else none, some (node.address teng),
          fopen⟩
    else ⟨DISCONNECT, none, none, true⟩

/-- The alive branch. -/
def decideUp (fopen : Bool) (node : ServerNode) (entry : Option Bytes) : Decision :=
  if node.disconnect = DISCONNECT then
    match entry with
    | none => ⟨CONNECT, none, none, false⟩
    | some entry =>
      if entry = ascii "disconnect" then
        ⟨CONNECT, if fopen then some (ascii "connect") else none, none, fopen⟩
      else ⟨CONNECT, none, none, true⟩
  else ⟨node.disconnect, none, none, true⟩

/-- A turn, from the result of its check. -/
def decision (h : Host) (hbC : Int) (check : Option Int) (fopen : Bool) (node : ServerNode)
    (entry : Option Bytes) : Decision :=
  if node.ip = h.myNode.ip then ⟨node.disconnect, none, none, true⟩
  else if silent h.wild hbC node.hbTime then
    match check with
    | none => ⟨node.disconnect, none, none, false⟩
    | some ret =>
      if ret < 0 then ⟨node.disconnect, none, none, false⟩ else decideDown fopen node entry
  else decideUp fopen node entry

/-- The notifications among events: the entry and the address. -/
def notices (es : List Event) : List (Nat × Bytes) :=
  es.filterMap fun
    | .hbDown n _ addr => some (n, addr)
    | _ => none

theorem notices_append (es es' : List Event) : notices (es ++ es') = notices es ++ notices es' :=
  List.filterMap_append

theorem notices_quiet {es : List Event} (h : ∀ e ∈ es, e.Quiet) : notices es = [] := by
  refine List.filterMap_eq_nil_iff.mpr fun e he => ?_
  cases e with
  | hbDown => exact absurd (h _ he) id
  | _ => rfl

/-- The entry of an ip in the object. -/
def Files.entry (l : Files) (ip : Bytes) : Option Bytes := entryIn l.obj ip

/-- The visit does what was decided. -/
structure Does (i : Nat) (node : ServerNode) (l : Files) (d : Decision)
    (r : Done (ServerNode × Files) Event) : Prop where
  marks : r.state.1 = node.mark d.disconnect
  exit : r.exit = .go ↔ d.goes = true
  file : d.status = none → r.state.2.file = l.file
  still : d.status = none → d.goes = true → r.state.2 = l
  wrote : ∀ status, d.status = some status → ∃ st, l.obj = some st ∧
    r.state.2 = ⟨some (setState st node.ip status), some (setState st node.ip status)⟩
  notices : notices r.events = d.notified.toList.map fun addr => (i, addr)

section Visit

variable {R : Round} {i : Nat} {node : ServerNode} {l : Files}

/-- A turn without status and notification, that left the files as they were. -/
theorem does_still {d : Int} {es : List Event} {x : Exit} {goes : Bool} (hes : ∀ e ∈ es, e.Quiet)
    (hx : x = .go ↔ goes = true) :
    Does i node l ⟨d, none, none, goes⟩ ⟨(node.mark d, l), es, x⟩ where
  marks := rfl
  exit := hx
  file _ := rfl
  still _ _ := rfl
  wrote _ h := absurd h (Option.some_ne_none _).symm
  notices := notices_quiet hes

theorem quiet_nil : ∀ e ∈ ([] : List Event), e.Quiet := fun _ he => absurd he List.not_mem_nil

theorem go_iff_true : Exit.go = .go ↔ true = true := iff_of_true rfl rfl

theorem crash_iff_false : Exit.crash = .go ↔ false = true :=
  iff_of_false Exit.noConfusion Bool.false_ne_true

/-- Writing the file, after events that hold the notification, if any. -/
theorem does_rewrite (node : ServerNode) {st : HbState} (hobj : l.obj = some st) {d : Int}
    {status : Bytes} {addr : Option Bytes} {es : List Event}
    (hes : notices es = addr.toList.map fun addr => (i, addr)) :
    Does i node l ⟨d, if R.fopen i then some status else none, addr, R.fopen i⟩
      ⟨(rewrite R i (node.mark d) (setState st node.ip status) l).state,
        es ++ (rewrite R i (node.mark d) (setState st node.ip status) l).events,
        (rewrite R i (node.mark d) (setState st node.ip status) l).exit⟩ := by
  unfold rewrite
  cases ho : R.fopen i with
  | true =>
    refine ⟨rfl, go_iff_true, fun h => ?_, fun h => ?_, fun s hs => ?_, ?_⟩
    · cases h
    · cases h
    · obtain rfl : status = s := Option.some.inj hs
      exact ⟨st, hobj, rfl⟩
    · rw [notices_append, hes]
      exact List.append_nil _
  | false =>
    refine ⟨rfl, crash_iff_false, fun _ => rfl, fun _ h => ?_, fun s hs => ?_, ?_⟩
    · cases h
    · cases hs
    · rw [notices_append, hes]
      exact List.append_nil _

theorem markUp_does :
    Does i node l (decideUp (R.fopen i) node (l.entry node.ip)) (markUp R i node l) := by
  unfold markUp decideUp
  by_cases hd : node.disconnect = DISCONNECT
  · rw [if_pos hd, if_pos hd]
    unfold withEntry Files.entry entryIn
    cases hobj : l.obj with
    | none => exact does_still quiet_nil crash_iff_false
    | some st =>
      cases hget : st.get? node.ip with
      | none =>
        simp only [Option.bind_some, hget]
        exact does_still quiet_nil crash_iff_false
      | some entry =>
        simp only [Option.bind_some, hget]
        by_cases he : entry = ascii "disconnect"
        · rw [if_pos he, if_pos he]
          have hnone : notices [] = (none : Option Bytes).toList.map fun addr => (i, addr) := rfl
          exact does_rewrite node hobj hnone
        · rw [if_neg he, if_neg he]
          exact does_still quiet_nil go_iff_true
  · rw [if_neg hd, if_neg hd]
    exact does_still quiet_nil go_iff_true

/-- The silent branch, after these events of the ping. -/
theorem markDown_does {ps : List Event} (hps : ∀ e ∈ ps, e.Quiet) :
    Does i node l (decideDown (R.fopen i) node (l.entry node.ip))
      ⟨(markDown R i node l).state, ps ++ (markDown R i node l).events,
        (markDown R i node l).exit⟩ := by
  have hnil : ∀ e ∈ ps ++ ([] : List Event), e.Quiet := quiet_append hps quiet_nil
  unfold markDown withEntry Files.entry entryIn
  cases hobj : l.obj with
  | none => exact does_still hnil crash_iff_false
  | some st =>
    cases hget : st.get? node.ip with
    | none =>
      simp only [Option.bind_some, hget]
      exact does_still hnil crash_iff_false
    | some entry =>
      simp only [Option.bind_some, hget, decideDown]
      by_cases he : entry = ascii "connect"
      · have hopened : ∀ e ∈ (if 0 ≤ R.ioctlFd i then [Event.opened .ioctl] else []), e.Quiet :=
          quiet_if trivial
        have hclosed : ∀ e ∈ (if 0 ≤ R.ioctlFd i then [Event.closed .ioctl] else []), e.Quiet :=
          quiet_if trivial
        rw [if_pos he, if_pos he, ← ServerNode.mark]
        cases ht : node.tengIp with
        | none =>
          have hn := notify_none (R := R) (i := i) (l := l)
            (show (node.mark DISCONNECT).tengIp = none from ht)
          rw [hn, Done.andThen_stop Exit.noConfusion]
          exact does_still (quiet_append hps hopened) crash_iff_false
        | some teng =>
          have hn : notify R i (node.mark DISCONNECT) l = ⟨(node.mark DISCONNECT, l),
              (if 0 ≤ R.ioctlFd i then [Event.opened .ioctl] else []) ++
                [.hbDown i (R.ioctlFd i) (node.address teng)] ++
                  (if 0 ≤ R.ioctlFd i then [Event.closed .ioctl] else []), .go⟩ := by
            unfold notify
            rw [show (node.mark DISCONNECT).tengIp = some teng from ht]
            rfl
          rw [hn, Done.andThen_go rfl]
          simp only [← List.append_assoc]
          refine does_rewrite node hobj ?_
          rw [notices_append, notices_append, notices_append, notices_quiet hps,
            notices_quiet hopened, notices_quiet hclosed]
          rfl
      · rw [if_neg he, if_neg he]
        exact does_still hnil go_iff_true

/-- **A visit does what was decided.** -/
theorem visit_does (h : Host) (R : Round) (i : Nat) (node : ServerNode) (l : Files) :
    Does i node l (decision h R.hbC (checkResult h R i) (R.fopen i) node (l.entry node.ip))
      (visit h R i node l) := by
  unfold visit decision
  by_cases hme : node.ip = h.myNode.ip
  · rw [if_pos hme, if_pos hme]
    exact does_still quiet_nil go_iff_true
  · rw [if_neg hme, if_neg hme]
    by_cases hs : silent h.wild R.hbC node.hbTime = true
    · rw [if_pos hs, if_pos hs]
      have hps := quiet_pings i (nuPinger h.proc h.myNode.gateway 10 0 (R.check i)).2
      obtain ⟨hnone, hsome⟩ := gatewayCheck_exit h R i node l
      have hstop : ∀ {x : Exit}, x ≠ .go → (gatewayCheck h R i node l).exit = x →
          Does i node l ⟨node.disconnect, none, none, false⟩ (gatewayCheck h R i node l) := by
        rintro x hx rfl
        exact does_still hps (iff_of_false hx Bool.false_ne_true)
      cases hret : checkResult h R i with
      | none =>
        have hexit := hnone hret
        rw [Done.andThen_stop (by rw [hexit]; exact Exit.noConfusion)]
        exact hstop Exit.noConfusion hexit
      | some ret =>
        have hexit := hsome ret hret
        by_cases hneg : ret < 0
        · rw [if_pos hneg] at hexit
          rw [Done.andThen_stop (by rw [hexit]; exact Exit.noConfusion)]
          simp only [if_pos hneg]
          exact hstop Exit.noConfusion hexit
        · rw [if_neg hneg] at hexit
          rw [Done.andThen_go hexit]
          simp only [if_neg hneg]
          exact markDown_does hps
    · rw [if_neg hs, if_neg hs]
      exact markUp_does

end Visit

/-! ## The turns of a round -/

/-- A turn of the second loop: its entry, the node there, and the files at its start. -/
structure Turn where
  place : Nat
  node : ServerNode
  files : Files

/-- The turns the second loop takes. -/
def turns (h : Host) (R : Round) : List ServerNode → Nat → Files → List Turn
  | [], _, _ => []
  | node :: nodes, i, l =>
    ⟨i, node, l⟩ :: if (visit h R i node l).exit = .go then
      turns h R nodes (i + 1) (visit h R i node l).state.2 else []

/-- What a turn decides. -/
def Turn.decision (h : Host) (R : Round) (t : Turn) : Decision :=
  Heartbeat.decision h R.hbC (checkResult h R t.place) (R.fopen t.place) t.node
    (t.files.entry t.node.ip)

/-- The notification of a turn. -/
def Turn.notice (h : Host) (R : Round) (t : Turn) : List (Nat × Bytes) :=
  (t.decision h R).notified.toList.map fun addr => (t.place, addr)

/-- What turns write for an ip. -/
def written (h : Host) (R : Round) (ip : Bytes) (ts : List Turn) : List Bytes :=
  ts.filterMap fun t => if t.node.ip = ip then (t.decision h R).status else none

theorem written_cons (h : Host) (R : Round) (ip : Bytes) (t : Turn) (ts : List Turn) :
    written h R ip (t :: ts) = written h R ip [t] ++ written h R ip ts := by
  have happ : ∀ ts ts' : List Turn, written h R ip (ts ++ ts') =
      written h R ip ts ++ written h R ip ts' := fun _ _ => List.filterMap_append
  exact happ [t] ts

section Loop

variable {h : Host} {R : Round} {i : Nat} {node : ServerNode} {nodes : List ServerNode} {l : Files}

theorem turns_go (hgo : (visit h R i node l).exit = .go) :
    turns h R (node :: nodes) i l =
      ⟨i, node, l⟩ :: turns h R nodes (i + 1) (visit h R i node l).state.2 := by
  rw [turns, if_pos hgo]

theorem turns_stop (hgo : (visit h R i node l).exit ≠ .go) :
    turns h R (node :: nodes) i l = [⟨i, node, l⟩] := by
  rw [turns, if_neg hgo]

/-- **The notifications of the loop** are those of its turns. -/
theorem visitLoop_notices (nodes : List ServerNode) (i : Nat) (l : Files) :
    notices (visitLoop h R nodes i l).events = (turns h R nodes i l).flatMap (Turn.notice h R) := by
  induction nodes generalizing i l with
  | nil => rfl
  | cons node nodes ih =>
    have hd := (visit_does h R i node l).notices
    by_cases hgo : (visit h R i node l).exit = .go
    · rw [visitLoop_go hgo, turns_go hgo, notices_append, List.flatMap_cons, hd, ih]
      rfl
    · rw [visitLoop_stop hgo, turns_stop hgo, List.flatMap_singleton, hd]
      rfl

/-- **A turn marks its node**, and the other nodes stay as they are. -/
theorem visitLoop_marks (nodes : List ServerNode) (i : Nat) (l : Files) :
    (∀ t ∈ turns h R nodes i l, ∃ k, t.place = i + k ∧ nodes[k]? = some t.node ∧
      (visitLoop h R nodes i l).state.1[k]? = some (t.node.mark (t.decision h R).disconnect)) ∧
    ∀ k node', (visitLoop h R nodes i l).state.1[k]? = some node' → nodes[k]? = some node' ∨
      ∃ t ∈ turns h R nodes i l, t.place = i + k ∧ nodes[k]? = some t.node ∧
        node' = t.node.mark (t.decision h R).disconnect := by
  induction nodes generalizing i l with
  | nil => exact ⟨fun _ ht => absurd ht List.not_mem_nil, fun _ _ hk => Or.inl hk⟩
  | cons node nodes ih =>
    have hd := (visit_does h R i node l).marks
    by_cases hgo : (visit h R i node l).exit = .go
    · obtain ⟨hturn, hnode⟩ := ih (i + 1) (visit h R i node l).state.2
      rw [visitLoop_go hgo, turns_go hgo]
      refine ⟨List.forall_mem_cons.mpr ⟨⟨0, rfl, rfl, congrArg some hd⟩, fun t ht => ?_⟩, ?_⟩
      · obtain ⟨k, hplace, hk, hk'⟩ := hturn t ht
        exact ⟨k + 1, by omega, hk, hk'⟩
      · intro k node' hk
        cases k with
        | zero =>
          exact Or.inr ⟨_, List.mem_cons_self, rfl, rfl, (Option.some.inj hk).symm.trans hd⟩
        | succ k =>
          refine (hnode k node' hk).imp_right ?_
          rintro ⟨t, ht, hplace, hk, heq⟩
          exact ⟨t, List.mem_cons_of_mem _ ht, by omega, hk, heq⟩
    · rw [visitLoop_stop hgo, turns_stop hgo]
      refine ⟨List.forall_mem_singleton.mpr ⟨0, rfl, rfl, congrArg some hd⟩, fun k node' hk => ?_⟩
      cases k with
      | zero =>
        exact Or.inr ⟨_, List.mem_cons_self, rfl, rfl, (Option.some.inj hk).symm.trans hd⟩
      | succ k => exact Or.inl hk

/-- **A turn writes its own entry.** -/
theorem visit_file (hl : Mirrors l) (ip : Bytes) :
    entryIn (visit h R i node l).state.2.file ip =
      if ip = node.ip then
        ((⟨i, node, l⟩ : Turn).decision h R).status.or (entryIn l.file ip)
      else entryIn l.file ip := by
  have hd := visit_does h R i node l
  show _ = if ip = node.ip then (Heartbeat.decision h R.hbC (checkResult h R i) (R.fopen i) node
    (l.entry node.ip)).status.or (entryIn l.file ip) else entryIn l.file ip
  cases hs : (Heartbeat.decision h R.hbC (checkResult h R i) (R.fopen i) node
      (l.entry node.ip)).status with
  | none =>
    rw [hd.file hs, Option.none_or, ite_self]
  | some status =>
    obtain ⟨st, hobj, hfiles⟩ := hd.wrote status hs
    have hentry : entryIn (visit h R i node l).state.2.file ip =
        (setState st node.ip status).get? ip := by rw [hfiles]; rfl
    have hfile : entryIn l.file ip = st.get? ip := by rw [hl st hobj]; rfl
    rw [hentry, get?_setState, hfile, Option.some_or]

/-- **The entries of the file** after the loop are the last ones its turns wrote. -/
theorem visitLoop_file (nodes : List ServerNode) (i : Nat) (l : Files) (hl : Mirrors l)
    (ip : Bytes) :
    entryIn (visitLoop h R nodes i l).state.2.file ip =
      (written h R ip (turns h R nodes i l)).getLast?.or (entryIn l.file ip) := by
  induction nodes generalizing i l with
  | nil => rfl
  | cons node nodes ih =>
    have hfirst : entryIn (visit h R i node l).state.2.file ip =
        (written h R ip [⟨i, node, l⟩]).getLast?.or (entryIn l.file ip) := by
      rw [visit_file hl]
      by_cases hip : ip = node.ip
      · rw [if_pos hip, written, List.filterMap_cons, if_pos hip.symm]
        cases ((⟨i, node, l⟩ : Turn).decision h R).status with
        | none => rfl
        | some status => rfl
      · rw [if_neg hip, written, List.filterMap_cons, if_neg (Ne.symm hip)]
        rfl
    by_cases hgo : (visit h R i node l).exit = .go
    · rw [visitLoop_go hgo, turns_go hgo, ih _ _ (visit_mirrors hl hgo), hfirst]
      rw [written_cons h R ip _ (turns h R nodes (i + 1) (visit h R i node l).state.2),
        List.getLast?_append, Option.or_assoc]
    · rw [visitLoop_stop hgo, turns_stop hgo, hfirst]

end Loop

end JcmController.Heartbeat
