import JcmController.Heartbeat.Turns

/-!
# The two copies of a peer's status

A peer's status stands in its `server_node` and in `hb_state`. A visit changes the entry of the
peer it is at only, and then to what it has stored in memory.

* `visit_agrees`, `visitLoop_agrees`: what one visit and the second loop keep.
* `started_agrees`: the file `hb_start` writes.
* `hb_state_plain`: where no configured ip has a `%` in it, nothing that is written has, and
  `fprintf` prints it as it is.
* **`hb_state_agrees`**: after every round of every run the file has one entry for each ip, and the
  entries of the peers are those in memory.
-/

namespace JcmController.Heartbeat

open JcmController.Lib

/-- `node` is the file's contents, or NULL. -/
structure Files.Over (l : Files) (st : HbState) : Prop where
  file : l.file = some st
  obj : ∀ st', l.obj = some st' → st' = st

/-- Every entry is one of the two. -/
def Valued (st : HbState) : Prop :=
  ∀ ip entry, st.get? ip = some entry → entry = ascii "connect" ∨ entry = ascii "disconnect"

/-- A peer's entry is the field in memory. -/
def Agrees (h : Host) (st : HbState) (node : ServerNode) : Prop :=
  node.ip ≠ h.myNode.ip →
    (st.get? node.ip = some (ascii "disconnect") ↔ node.disconnect = DISCONNECT)

/-- What a change at these ips keeps of the file. -/
structure Kept (ips : List Bytes) (st st' : HbState) : Prop where
  keys : st'.keys.Perm st.keys
  valued : Valued st → Valued st'
  others : ∀ ip, ip ∉ ips → st'.get? ip = st.get? ip

theorem Kept.refl (ips : List Bytes) (st : HbState) : Kept ips st st :=
  ⟨List.Perm.refl _, id, fun _ _ => rfl⟩

theorem Kept.cons {ip : Bytes} {ips : List Bytes} {st st' st'' : HbState} (h : Kept [ip] st st')
    (h' : Kept ips st' st'') : Kept (ip :: ips) st st'' := by
  refine ⟨h'.keys.trans h.keys, fun hv => h'.valued (h.valued hv), fun k hk => ?_⟩
  obtain ⟨hk₁, hk₂⟩ := not_or.mp (List.mem_cons.not.mp hk)
  exact (h'.others k hk₂).trans (h.others k (List.mem_singleton.not.mpr hk₁))

/-! ## One entry -/

theorem get?_setState (st : HbState) (ip k status : Bytes) :
    (setState st ip status).get? k = if k = ip then some status else st.get? k :=
  Assoc.get?_del_add st ip k status

theorem get?_setState_self (st : HbState) (ip status : Bytes) :
    (setState st ip status).get? ip = some status := by
  rw [get?_setState, if_pos rfl]

/-- A status written over another one. -/
theorem kept_setState {st : HbState} {ip entry status : Bytes} (hget : st.get? ip = some entry)
    (hs : status = ascii "connect" ∨ status = ascii "disconnect") :
    Kept [ip] st (setState st ip status) := by
  refine ⟨Assoc.keys_del_add (Assoc.mem_keys_of_get? hget) status, fun hv k e hk => ?_, ?_⟩
  · rw [get?_setState] at hk
    by_cases hki : k = ip
    · rw [if_pos hki] at hk
      exact Option.some.inj hk ▸ hs
    · rw [if_neg hki] at hk
      exact hv k e hk
  · intro k hk
    rw [get?_setState, if_neg (List.mem_singleton.not.mp hk)]

theorem connect_ne_disconnect : ascii "connect" ≠ ascii "disconnect" := by decide

theorem agrees_down {h : Host} {st : HbState} {node : ServerNode}
    (hget : st.get? node.ip = some (ascii "disconnect")) :
    Agrees h st (node.mark DISCONNECT) := fun _ => iff_of_true hget rfl

theorem agrees_up {h : Host} {st : HbState} {node : ServerNode}
    (hget : st.get? node.ip = some (ascii "connect")) : Agrees h st (node.mark CONNECT) := by
  intro _
  refine iff_of_false (fun hd => ?_) (by decide : CONNECT ≠ DISCONNECT)
  exact connect_ne_disconnect (Option.some.inj (hget.symm.trans hd))

/-- **One visit** that does not end the process changes the entry it is at only, and leaves it equal
to the field. -/
theorem visit_agrees {h : Host} {R : Round} {i : Nat} {node : ServerNode} {l : Files}
    {st : HbState} (hl : l.Over st) (hv : Valued st) (ha : Agrees h st node)
    (hx : (visit h R i node l).exit ≠ .crash) :
    ∃ st', (visit h R i node l).state.2.Over st' ∧ Kept [node.ip] st st' ∧
      Agrees h st' (visit h R i node l).state.1 := by
  have hvis := visit_visited h R i node l
  generalize visit h R i node l = r at hvis hx ⊢
  cases hvis with
  | still => exact ⟨st, hl, Kept.refl _ st, ha⟩
  | unanswered => exact ⟨st, hl, Kept.refl _ st, ha⟩
  | downStuck => exact absurd rfl hx
  | downAgain hpeer hb hobj hget hne =>
    rw [hl.obj _ hobj] at hget
    have hd := (hv _ _ hget).resolve_left hne
    exact ⟨st, hl, Kept.refl _ st, agrees_down (hd ▸ hget)⟩
  | down fd addr hpeer hb hobj hget =>
    rw [hl.obj _ hobj] at hget ⊢
    exact ⟨_, ⟨rfl, fun _ h => (Option.some.inj h).symm⟩, kept_setState hget (Or.inr rfl),
      agrees_down (get?_setState_self _ _ _)⟩
  | downLost => exact absurd rfl hx
  | upStuck => exact absurd rfl hx
  | upAgain hpeer hobj hget hne =>
    rw [hl.obj _ hobj] at hget
    have hc := (hv _ _ hget).resolve_right hne
    exact ⟨st, hl, Kept.refl _ st, agrees_up (hc ▸ hget)⟩
  | up hpeer hobj hget =>
    rw [hl.obj _ hobj] at hget ⊢
    exact ⟨_, ⟨rfl, fun _ h => (Option.some.inj h).symm⟩, kept_setState hget (Or.inl rfl),
      agrees_up (get?_setState_self _ _ _)⟩
  | upLost => exact absurd rfl hx

/-! ## The loops -/

theorem Agrees.of_get? {h : Host} {st st' : HbState} {node : ServerNode}
    (ha : Agrees h st node) (hget : st'.get? node.ip = st.get? node.ip) : Agrees h st' node := by
  intro hpeer
  rw [hget]
  exact ha hpeer

/-- **The second loop**, over entries with different ips. -/
theorem visitLoop_agrees {h : Host} {R : Round} (nodes : List ServerNode) (i : Nat) (l : Files)
    (st : HbState) (hips : (nodes.map ServerNode.ip).Nodup) (hl : l.Over st) (hv : Valued st)
    (ha : ∀ node ∈ nodes, Agrees h st node) (hx : (visitLoop h R nodes i l).exit ≠ .crash) :
    ∃ st', (visitLoop h R nodes i l).state.2.Over st' ∧ Kept (nodes.map ServerNode.ip) st st' ∧
      ∀ node ∈ (visitLoop h R nodes i l).state.1, Agrees h st' node := by
  induction nodes generalizing i l st with
  | nil => exact ⟨st, hl, Kept.refl _ st, fun _ hn => absurd hn List.not_mem_nil⟩
  | cons node nodes ih =>
    obtain ⟨hnot, hnodup⟩ := List.nodup_cons.mp hips
    obtain ⟨ha₀, hrest⟩ := List.forall_mem_cons.mp ha
    by_cases hgo : (visit h R i node l).exit = .go
    · rw [visitLoop_go hgo] at hx ⊢
      obtain ⟨st₁, hl₁, hk₁, ha₁⟩ :=
        visit_agrees hl hv ha₀ (by rw [hgo]; exact Exit.noConfusion)
      have hrest₁ : ∀ node' ∈ nodes, Agrees h st₁ node' := fun node' hn =>
        (hrest node' hn).of_get? (hk₁.others node'.ip (List.mem_singleton.not.mpr fun he =>
          hnot (he ▸ List.mem_map_of_mem hn)))
      obtain ⟨st₂, hl₂, hk₂, ha₂⟩ := ih (i + 1) _ st₁ hnodup hl₁ (hk₁.valued hv) hrest₁ hx
      refine ⟨st₂, hl₂, hk₁.cons hk₂, List.forall_mem_cons.mpr ⟨?_, ha₂⟩⟩
      -- the entries that follow have other ips
      refine ha₁.of_get? (hk₂.others _ ?_)
      rw [visit_ip]
      exact hnot
    · rw [visitLoop_stop hgo] at hx ⊢
      obtain ⟨st₁, hl₁, hk₁, ha₁⟩ := visit_agrees hl hv ha₀ hx
      refine ⟨st₁, hl₁, hk₁.cons (Kept.refl _ st₁), List.forall_mem_cons.mpr ⟨ha₁, ?_⟩⟩
      intro node' hn
      exact (hrest node' hn).of_get? (hk₁.others node'.ip (List.mem_singleton.not.mpr fun he =>
        hnot (he ▸ List.mem_map_of_mem hn)))

theorem visitLoop_ips (h : Host) (R : Round) (nodes : List ServerNode) (i : Nat) (l : Files) :
    (visitLoop h R nodes i l).state.1.map ServerNode.ip = nodes.map ServerNode.ip := by
  induction nodes generalizing i l with
  | nil => rfl
  | cons node nodes ih =>
    unfold visitLoop
    by_cases hgo : (visit h R i node l).exit = .go
    · simp only [if_pos hgo, List.map_cons, visit_ip, ih]
    · simp only [if_neg hgo, List.map_cons, visit_ip]

/-- The first loop sets `hb_time` only. -/
theorem mem_hear {h : Host} {R : Round} {nodes : List ServerNode} {i : Nat} {node : ServerNode}
    (hn : node ∈ hear h R nodes i) : ∃ node' ∈ nodes, ∃ t, node = { node' with hbTime := t } := by
  induction nodes generalizing i with
  | nil => exact absurd hn List.not_mem_nil
  | cons node₀ nodes ih =>
    rcases List.mem_cons.mp hn with rfl | hn
    · exact ⟨node₀, List.mem_cons_self, hearNode_eq h R i node₀⟩
    · obtain ⟨node', hmem, ht⟩ := ih hn
      exact ⟨node', List.mem_cons_of_mem _ hmem, ht⟩

theorem hear_ips (h : Host) (R : Round) (nodes : List ServerNode) (i : Nat) :
    (hear h R nodes i).map ServerNode.ip = nodes.map ServerNode.ip := by
  induction nodes generalizing i with
  | nil => rfl
  | cons node nodes ih =>
    obtain ⟨t, ht⟩ := hearNode_eq h R i node
    rw [hear, List.map_cons, ih, ht]
    rfl

/-! ## Rounds -/

/-- The file has one entry for each configured ip, each one of the two, and a peer's entry is
"disconnect" exactly when its field in memory is `DISCONNECT`. -/
def InAgreement (h : Host) (s : Hb) : Prop :=
  s.nodes.map ServerNode.ip = h.serverConfig.map ServerNode.ip ∧
    ∃ st, s.hbState = some st ∧ st.keys.Perm (h.serverConfig.map ServerNode.ip) ∧ Valued st ∧
      ∀ node ∈ s.nodes, Agrees h st node

theorem hbReceive_agrees {h : Host} (hips : (h.serverConfig.map ServerNode.ip).Nodup) {s : Hb}
    (hs : InAgreement h s) (R : Round) (hrun : (hbReceive h R s).1.running = true) :
    InAgreement h (hbReceive h R s).1 := by
  obtain ⟨hnodes, st, hfile, hkeys, hv, ha⟩ := hs
  have hx := of_decide_eq_true hrun
  have hover : Files.Over ⟨if R.readOk then s.hbState else none, s.hbState⟩ st := by
    refine ⟨hfile, fun st' hst' => ?_⟩
    by_cases hr : R.readOk = true
    · rw [if_pos hr, hfile] at hst'
      exact (Option.some.inj hst').symm
    · rw [if_neg hr] at hst'
      cases hst'
  have hheard : ∀ node ∈ hear h R s.nodes 0, Agrees h st node := by
    intro node hn
    obtain ⟨node', hmem, t, rfl⟩ := mem_hear hn
    exact ha node' hmem
  obtain ⟨st', hover', hkept, ha'⟩ := visitLoop_agrees (hear h R s.nodes 0) 0 _ st
    (by rw [hear_ips, hnodes]; exact hips) hover hv hheard hx
  refine ⟨?_, st', hover'.file, hkept.keys.trans hkeys, hkept.valued hv, ha'⟩
  exact (visitLoop_ips h R _ 0 _).trans ((hear_ips h R s.nodes 0).trans hnodes)

/-! ## `hb_start` -/

/-- What `hb_start` has written after its loop. -/
theorem hbStartLoop_spec (nodes : List ServerNode) (i : Nat) (obj : HbState)
    (file : Option HbState) (hips : (nodes.map ServerNode.ip).Nodup)
    (hnew : ∀ ip ∈ nodes.map ServerNode.ip, ip ∉ obj.keys)
    (hfile : nodes = [] → file = some obj) :
    ∃ st, (hbStartLoop (fun _ => true) nodes i obj file).state = some st ∧
      st.keys = obj.keys ++ nodes.map ServerNode.ip ∧
      ∀ ip entry, st.get? ip = some entry →
        entry = ascii "connect" ∨ obj.get? ip = some entry := by
  induction nodes generalizing i obj file with
  | nil =>
    exact ⟨obj, hfile rfl, (List.append_nil _).symm, fun _ _ h => Or.inr h⟩
  | cons node nodes ih =>
    obtain ⟨hnot, hnodup⟩ := List.nodup_cons.mp hips
    obtain ⟨hnew₀, hnew'⟩ := List.forall_mem_cons.mp hnew
    have hkeys := Assoc.keys_add_of_not_mem hnew₀ (ascii "connect")
    obtain ⟨st, hst, hk, hget⟩ := ih (i + 1) (obj.add node.ip (ascii "connect"))
      (some (obj.add node.ip (ascii "connect"))) hnodup (by
        intro ip hip hmem
        rw [hkeys] at hmem
        rcases List.mem_append.mp hmem with hmem | hmem
        · exact hnew' ip hip hmem
        · exact hnot (List.mem_singleton.mp hmem ▸ hip)) fun _ => rfl
    refine ⟨st, ?_, ?_, fun ip entry he => ?_⟩
    · unfold hbStartLoop
      rw [if_pos rfl, Done.ok_andThen]
      exact hst
    · rw [hk, hkeys, List.append_assoc]
      rfl
    · rcases hget ip entry he with he | he
      · exact Or.inl he
      · rw [Assoc.get?_add] at he
        by_cases hip : ip = node.ip
        · rw [if_pos hip] at he
          exact Or.inl (Option.some.inj he).symm
        · rw [if_neg hip] at he
          exact Or.inr he

/-- The state in which the receiver starts, no field being `DISCONNECT`. -/
theorem started_agrees {h : Host} (hips : (h.serverConfig.map ServerNode.ip).Nodup)
    (hconn : ∀ node ∈ h.serverConfig, node.disconnect = CONNECT) (before : Option HbState) :
    InAgreement h (started h before) := by
  obtain ⟨st, hst, hkeys, hget⟩ := hbStartLoop_spec h.serverConfig 0 Assoc.empty before hips
    (fun _ _ => List.not_mem_nil) fun hnil => absurd (hnil ▸ h.found) List.not_mem_nil
  have hconnect : ∀ ip entry, st.get? ip = some entry → entry = ascii "connect" := by
    intro ip entry he
    rcases hget ip entry he with he | he
    · exact he
    · rw [Assoc.get?_empty] at he
      cases he
  refine ⟨rfl, st, hst, List.Perm.of_eq hkeys, fun ip entry he => Or.inl (hconnect ip entry he),
    fun node hn _ => ?_⟩
  refine iff_of_false (fun hd => connect_ne_disconnect (hconnect _ _ hd).symm) ?_
  rw [hconn node hn]
  decide

theorem step_agrees {h : Host} (hips : (h.serverConfig.map ServerNode.ip).Nodup) (s : Hb)
    (R : Round) (hs : s.running = true → InAgreement h s) :
    (step h s R).1.running = true → InAgreement h (step h s R).1 := by
  unfold step
  by_cases hrun : s.running = true
  · rw [if_pos hrun]
    exact hbReceive_agrees hips (hs hrun) R
  · rw [if_neg hrun]
    exact hs

/-! ## What is printed -/

/-- No configured ip has a `%` in it. -/
def Host.Plain (h : Host) : Prop := ∀ ip ∈ h.serverConfig.map ServerNode.ip, 37 ∉ ip

/-- No ip and no status in the object has: the text of the object is its own format. -/
def PlainText (st : HbState) : Prop :=
  ∀ ip status, st.get? ip = some status → 37 ∉ ip ∧ 37 ∉ status

/-- What the round works on, and the file. -/
structure Files.Plain (l : Files) : Prop where
  obj : ∀ st, l.obj = some st → PlainText st
  file : ∀ st, l.file = some st → PlainText st

/-- What is written, if anything. -/
def Event.Plain : Event → Prop
  | .wrote st => PlainText st
  | _ => True

theorem Event.Quiet.plain {e : Event} (he : e.Quiet) : e.Plain := by
  cases e with
  | wrote => exact he.elim
  | _ => trivial

theorem plain_setState {st : HbState} {ip status : Bytes} (hst : PlainText st) (hip : 37 ∉ ip)
    (hs : 37 ∉ status) : PlainText (setState st ip status) := by
  intro k e hk
  rw [get?_setState] at hk
  by_cases hki : k = ip
  · rw [if_pos hki] at hk
    exact ⟨hki ▸ hip, Option.some.inj hk ▸ hs⟩
  · rw [if_neg hki] at hk
    exact hst k e hk

theorem not_mem_connect : 37 ∉ ascii "connect" := by decide +kernel

theorem not_mem_disconnect : 37 ∉ ascii "disconnect" := by decide +kernel

/-- A new status in an object without `%`. -/
theorem plain_wrote {l : Files} (hl : l.Plain) {st : HbState} (hobj : l.obj = some st)
    {ip status : Bytes} (hip : 37 ∉ ip) (hs : 37 ∉ status) :
    ∀ st', some (setState st ip status) = some st' → PlainText st' := by
  intro st' hst'
  rw [← Option.some.inj hst']
  exact plain_setState (hl.obj st hobj) hip hs

theorem visit_plain {h : Host} {R : Round} {i : Nat} {node : ServerNode} {l : Files}
    (hip : 37 ∉ node.ip) (hl : l.Plain) :
    (visit h R i node l).Keeps (fun s => s.2.Plain) Event.Plain := by
  have hvis := visit_visited h R i node l
  generalize visit h R i node l = r at hvis ⊢
  have hquiet : ∀ {es : List Event}, (∀ e ∈ es, e.Quiet) → ∀ e ∈ es, e.Plain :=
    fun hes e he => (hes e he).plain
  cases hvis with
  | still | upAgain => exact Done.Keeps.nil hl .go
  | upStuck => exact Done.Keeps.nil hl .crash
  | unanswered hes => exact ⟨hl, hquiet hes⟩
  | downStuck _ _ hes => exact ⟨hl, hquiet hes⟩
  | downAgain _ _ _ _ _ hes => exact ⟨hl, hquiet hes⟩
  | @down fd addr st es es' es'' hpeer hb hobj hget hes hes' hes'' =>
    have hnew := plain_wrote hl hobj hip not_mem_disconnect
    refine ⟨⟨hnew, hnew⟩, fun e he => ?_⟩
    simp only [List.mem_append, List.mem_singleton] at he
    rcases he with (((he | rfl) | he) | rfl) | he
    · exact hquiet hes e he
    · trivial
    · exact hquiet hes' e he
    · exact hnew _ rfl
    · exact hquiet hes'' e he
  | @downLost fd addr st es es' hpeer hb hobj hget hteng hlost hes hes' =>
    refine ⟨⟨plain_wrote hl hobj hip not_mem_disconnect, hl.file⟩, fun e he => ?_⟩
    simp only [List.mem_append, List.mem_singleton] at he
    rcases he with (he | rfl) | he
    · exact hquiet hes e he
    · trivial
    · exact hquiet hes' e he
  | up hpeer hobj hget =>
    have hnew := plain_wrote hl hobj hip not_mem_connect
    refine ⟨⟨hnew, hnew⟩, fun e he => ?_⟩
    simp only [List.mem_cons, List.not_mem_nil, or_false] at he
    rcases he with rfl | rfl | rfl
    · trivial
    · exact hnew _ rfl
    · trivial
  | upLost hpeer hobj =>
    exact Done.Keeps.nil ⟨plain_wrote hl hobj hip not_mem_connect, hl.file⟩ .crash

theorem visitLoop_plain {h : Host} {R : Round} (nodes : List ServerNode) (i : Nat) (l : Files)
    (hips : ∀ ip ∈ nodes.map ServerNode.ip, 37 ∉ ip) (hl : l.Plain) :
    (visitLoop h R nodes i l).Keeps (fun s => s.2.Plain) Event.Plain := by
  induction nodes generalizing i l with
  | nil => exact Done.Keeps.nil hl .go
  | cons node nodes ih =>
    obtain ⟨hip, hips'⟩ := List.forall_mem_cons.mp hips
    have hhead := visit_plain (h := h) (R := R) (i := i) hip hl
    by_cases hgo : (visit h R i node l).exit = .go
    · rw [visitLoop_go hgo]
      have hrest := ih (i + 1) _ hips' hhead.1
      refine ⟨hrest.1, fun e he => ?_⟩
      rcases List.mem_append.mp he with he | he
      · exact hhead.2 e he
      · exact hrest.2 e he
    · rw [visitLoop_stop hgo]
      exact hhead

/-- What `hb_start` has written after its loop. -/
theorem hbStartLoop_plain (nodes : List ServerNode) (i : Nat) (obj : HbState)
    (file : Option HbState) (hips : ∀ ip ∈ nodes.map ServerNode.ip, 37 ∉ ip) (hobj : PlainText obj)
    (hfile : nodes = [] → file = some obj) :
    ∀ st, (hbStartLoop (fun _ => true) nodes i obj file).state = some st → PlainText st := by
  induction nodes generalizing i obj file with
  | nil =>
    intro st hst
    rw [← Option.some.inj ((hfile rfl).symm.trans hst)]
    exact hobj
  | cons node nodes ih =>
    obtain ⟨hip, hips'⟩ := List.forall_mem_cons.mp hips
    unfold hbStartLoop
    rw [if_pos rfl, Done.ok_andThen]
    refine ih (i + 1) _ _ hips' (fun k e hk => ?_) fun _ => rfl
    rw [Assoc.get?_add] at hk
    by_cases hki : k = node.ip
    · rw [if_pos hki] at hk
      exact ⟨hki ▸ hip, Option.some.inj hk ▸ not_mem_connect⟩
    · rw [if_neg hki] at hk
      exact hobj k e hk

/-- The list is the configured one, but for what the rounds change, and the text of the file is its
own format. -/
def Printable (h : Host) (s : Hb) : Prop :=
  s.nodes.map ServerNode.ip = h.serverConfig.map ServerNode.ip ∧
    ∀ st, s.hbState = some st → PlainText st

theorem step_plain {h : Host} (hplain : h.Plain) {s : Hb} (hs : Printable h s) (R : Round) :
    Printable h (step h s R).1 ∧ ∀ e ∈ (step h s R).2, e.Plain := by
  unfold step
  by_cases hrun : s.running = true
  · rw [if_pos hrun]
    have hnodes := (hear_ips h R s.nodes 0).trans hs.1
    have hobj : ∀ st, (if R.readOk then s.hbState else none) = some st → PlainText st := by
      intro st hst
      by_cases hr : R.readOk = true
      · rw [if_pos hr] at hst
        exact hs.2 st hst
      · rw [if_neg hr] at hst
        cases hst
    have hloop := visitLoop_plain (h := h) (R := R) (hear h R s.nodes 0) 0
      ⟨if R.readOk then s.hbState else none, s.hbState⟩ (hnodes ▸ hplain) ⟨hobj, hs.2⟩
    exact ⟨⟨(visitLoop_ips h R _ 0 _).trans hnodes, hloop.1.file⟩, hloop.2⟩
  · rw [if_neg hrun]
    exact ⟨hs, fun _ he => absurd he List.not_mem_nil⟩

theorem started_plain {h : Host} (hplain : h.Plain) (before : Option HbState) :
    Printable h (started h before) := by
  refine ⟨rfl, hbStartLoop_plain h.serverConfig 0 Assoc.empty before hplain (fun k e hk => ?_)
    fun hnil => absurd (hnil ▸ h.found) List.not_mem_nil⟩
  rw [Assoc.get?_empty] at hk
  cases hk

/-- **Everything a run writes to `hb_state` is printed as it is**, where no configured ip has a `%`
in it. -/
theorem hb_state_plain (h : Host) (hplain : h.Plain) (before : Option HbState) (Rs : List Round) :
    ∀ t ∈ trace (step h) (started h before) Rs, ∀ e ∈ t.events, Event.Plain e := by
  have hstep : ∀ s R, Printable h s → True →
      Printable h (step h s R).1 ∧ ∀ e ∈ (step h s R).2, e.Plain :=
    fun _ R hs _ => step_plain hplain hs R
  exact forall_trace (P := fun _ _ es => ∀ e ∈ es, Event.Plain e) hstep Rs (started h before)
    (started_plain hplain before) fun _ _ => trivial

/-! ## Two servers -/

/-- An entry with this address; its gateway is 10.0.0.254. -/
def nodeAt (ip : String) : ServerNode :=
  ⟨ascii ip, ascii "5000", some (ascii "10.0.0.254"), some (ascii "NULL"), 0, CONNECT⟩

/-- `inet_addr` of the texts below. -/
def inetOf (s : Bytes) : UInt32 := if s = ascii "10.0.0.254" then 0xFE00000A else 0xFFFFFFFF

/-- The first of two servers. -/
def twoHosts : Host where
  proc := ⟨1, inetOf, fun _ => 5000⟩
  serverConfig := [nodeAt "10.0.0.1", nodeAt "10.0.0.2"]
  myNode := nodeAt "10.0.0.1"
  found := List.mem_cons_self
  wild := fun _ => false

/-- The gateway's reply to the first echo: 20 bytes of IP header, then type, id and number. -/
def gatewayReply : Datagram :=
  ⟨0xFE00000A, [69] ++ List.replicate 23 0 ++ [0, 1, 0, 1] ++ List.replicate 36 0⟩

/-- A check that gets this descriptor, and the reply at once. -/
def checkWith (socket : Int) : Check :=
  ⟨socket, fun _ => ⟨64, ⟨0, 0⟩, [⟨⟨0, 1000000⟩, some gatewayReply⟩]⟩⟩

/-- A round at this `clock()` with this datagram, whose checks get this descriptor. -/
def roundWith (hbC : Int) (datagram : Option Bytes) (socket : Int) : Round where
  hbC := hbC
  datagram := datagram
  readOk := true
  clock := fun _ => hbC
  check := fun _ => checkWith socket
  ioctlFd := fun _ => 6
  fopen := fun _ => true

/-- The peer is silent and the gateway answers. -/
def silentRound (hbC : Int) : Round := roundWith hbC none 5

/-- The peer is heard. -/
def heardRound (hbC : Int) : Round := roundWith hbC (some (ascii "10.0.0.2")) 5

/-- The peer is lost, found and lost again. -/
def flapping : List Round :=
  [silentRound 20000, silentRound 30000, heardRound 40000, silentRound 60000]

theorem twoHosts_ips : (twoHosts.serverConfig.map ServerNode.ip).Nodup := by decide +kernel

/-! ## Agreement over runs -/

/-- **Heartbeat state agreement**: after each round of each run the file has one entry for each
configured ip, and the peers' entries are their fields in memory. -/
theorem hb_state_agrees (h : Host) (hips : (h.serverConfig.map ServerNode.ip).Nodup)
    (hconn : ∀ node ∈ h.serverConfig, node.disconnect = CONNECT) (before : Option HbState)
    (Rs : List Round) (hrun : (final (step h) (started h before) Rs).running = true) :
    InAgreement h (final (step h) (started h before) Rs) := by
  have hstep : ∀ s R, (s.running = true → InAgreement h s) → True →
      ((step h s R).1.running = true → InAgreement h (step h s R).1) :=
    fun s R hs _ => step_agrees hips s R hs
  exact final_inv hstep Rs (started h before) (fun _ => started_agrees hips hconn before)
    (fun _ _ => trivial) hrun

/-- The copies agree after the peer was lost, found and lost again. -/
theorem hb_state_agrees_two :
    (final (step twoHosts) (started twoHosts none) flapping).running = true ∧
      InAgreement twoHosts (final (step twoHosts) (started twoHosts none) flapping) := by
  have hrun : (final (step twoHosts) (started twoHosts none) flapping).running = true := by
    decide +kernel
  exact ⟨hrun, hb_state_agrees twoHosts twoHosts_ips (by decide) none flapping hrun⟩

end JcmController.Heartbeat
