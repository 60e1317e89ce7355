import JcmController.Controller.Verdicts

/-!
# What a "success" stands for

The verdict only looks at `nbd_count`. The results of `insmod` and `nbd-client` in the activation
are printed or dropped, and `nbd_count` lives on from one round to the next.

* `nbdTexts_all`: `nbd_msg_send` counts an acknowledgement of each server only if each sent one.
* `mem_activate`, `launch_of_mem_gates`: the commands of the activation and their results.
* **`success_sound`**: in a run whose rounds start with no acknowledgement left over, hear each
  acknowledgement whole and have no command fail before the disk's module is loaded, a "success"
  means that all commands of its round returned 0 and all other servers acknowledged.
-/

namespace JcmController.Controller

open JcmController.Lib

/-! ## Acknowledgements -/

/-- The read of `nbd_msg_send` from entry `n` returns a string with its NUL. -/
def Net.AckRead (net : Net) (n : Nat) : Prop :=
  ∃ bs, (net.peer n).first = some bs ∧ 0 ∈ bs.take 1024

/-- A string read with its NUL hides what was in the buffer. -/
theorem cstr_overlay {bs : Bytes} (h : 0 ∈ bs) (buf : Bytes) : cstr (overlay buf bs) = cstr bs := by
  obtain ⟨s, t, rfl⟩ := List.append_of_mem h
  show cstr (s ++ 0 :: t ++ _) = _
  rw [List.append_assoc, List.cons_append, cstr_prefix_append, cstr_prefix_append]

theorem nbdTexts_length_le (net : Net) (connected : Bool) (buf : Bytes) (ns : List Nat) :
    (nbdTexts net connected buf ns).length ≤ ns.length := by
  induction ns generalizing connected buf with
  | nil => exact Nat.le_refl 0
  | cons n ns ih =>
    unfold nbdTexts
    by_cases hn : net.connects n connected = true
    · rw [if_pos hn]
      exact Nat.succ_le_succ (ih true _)
    · rw [if_neg hn]
      exact Nat.zero_le _

theorem load_event {net : Net} {n : Nat} (hack : net.AckRead n) {buf : Bytes} {s : Sender}
    (hload : cstr (readInto 1024 s.buffer (net.peer n).first) = ascii "NBD_CLIENT_LOAD") :
    .answer .nbdMsgSend n (ascii "NBD_CLIENT_LOAD") ∈ (nbdBody net buf n s).2 := by
  obtain ⟨bs, hbs, hnul⟩ := hack
  have htext : cstr (bs.take 1024) = ascii "NBD_CLIENT_LOAD" := by
    rw [← hload, hbs]
    exact (cstr_overlay hnul s.buffer).symm
  unfold nbdBody
  refine List.mem_cons_of_mem _ ?_
  rw [hbs, ← htext]
  exact mem_answerEvents _ _ _

/-- **As many acknowledgements as servers** means one from each. -/
theorem nbdTexts_all {net : Net} {buf : Bytes} (ns : List Nat) (s : Sender)
    (hack : ∀ n ∈ ns, net.AckRead n)
    (hall : ns.length ≤ (nbdTexts net s.connected s.buffer ns).count (ascii "NBD_CLIENT_LOAD")) :
    ∀ n ∈ ns, .answer .nbdMsgSend n (ascii "NBD_CLIENT_LOAD") ∈
      (visit .nbdMsgSend net (nbdBody net buf) ns s).2 := by
  induction ns generalizing s with
  | nil => exact fun _ hn => absurd hn List.not_mem_nil
  | cons n ns ih =>
    obtain ⟨hack₀, hack'⟩ := List.forall_mem_cons.mp hack
    by_cases hn : net.connects n s.connected = true
    · have htexts : nbdTexts net s.connected s.buffer (n :: ns) =
          cstr (readInto 1024 s.buffer (net.peer n).first) ::
            nbdTexts net true (readInto 1024 s.buffer (net.peer n).first) ns := by
        rw [nbdTexts, if_pos hn]
      rw [htexts, List.length_cons, List.count_cons] at hall
      have hle : (nbdTexts net true (readInto 1024 s.buffer (net.peer n).first) ns).count
          (ascii "NBD_CLIENT_LOAD") ≤ ns.length :=
        List.count_le_length.trans (nbdTexts_length_le _ _ _ _)
      have hload : cstr (readInto 1024 s.buffer (net.peer n).first) = ascii "NBD_CLIENT_LOAD" := by
        by_contra hne
        rw [if_neg (by simpa using hne)] at hall
        omega
      rw [if_pos (by simpa using hload)] at hall
      unfold visit
      rw [if_pos hn]
      refine List.forall_mem_cons.mpr ⟨?_, fun m hm => ?_⟩
      · exact List.mem_cons_of_mem _ (List.mem_append_left _ (load_event hack₀ hload))
      · exact List.mem_cons_of_mem _ (List.mem_append_right _
          (ih (nbdBody net buf n { s with connected := true }).1 hack'
            (Nat.le_of_succ_le_succ hall) m hm))
    · have htexts : nbdTexts net s.connected s.buffer (n :: ns) = [] := by
        rw [nbdTexts, if_neg hn]
      rw [htexts] at hall
      exact absurd hall (Nat.not_succ_le_zero _)

/-! ## The commands of the activation -/

/-- The command the activation runs at the first of these entries. -/
def activationEvent (c : Setup) (r : DmbdConfigRemote) (rs : List DmbdConfigRemote) (ret : Int) :
    Event :=
  if ipOf (r :: rs) = c.myNode.ip then .launch .goInsmod (bestioCmd c r) ret
  else .launch .nbdClient (nbdClientCmd (r :: rs)) ret

theorem activate_cons (c : Setup) (o : Outcomes) (r : DmbdConfigRemote)
    (rs : List DmbdConfigRemote) (n : Nat) (v : Vars) :
    ∃ w, (activate c o (r :: rs) n v).2 =
      activationEvent c r rs (o.activation n) :: (activate c o rs (n + 1) w).2 := by
  unfold activationEvent
  rw [activate]
  by_cases hip : ipOf (r :: rs) = c.myNode.ip
  · rw [if_pos hip, if_pos hip]
    exact ⟨_, rfl⟩
  · rw [if_neg hip, if_neg hip]
    exact ⟨_, rfl⟩

/-- Where all its commands return 0 the activation is one of them for each entry. -/
theorem mem_activate {c : Setup} {o : Outcomes} (remote : List DmbdConfigRemote) (n : Nat)
    (v : Vars) (hok : ∀ k < remote.length, o.activation (n + k) = 0) (e : Event) :
    e ∈ (activate c o remote n v).2 ↔ ∃ r rs, r :: rs ∈ remote.tails ∧
      e = activationEvent c r rs 0 := by
  induction remote generalizing n v with
  | nil =>
    refine iff_of_false List.not_mem_nil ?_
    rintro ⟨r, rs, h, _⟩
    simp at h
  | cons r₀ rs₀ ih =>
    obtain ⟨w, hw⟩ := activate_cons c o r₀ rs₀ n v
    have hok' : ∀ k < rs₀.length, o.activation (n + 1 + k) = 0 := by
      intro k hk
      rw [show n + 1 + k = n + (k + 1) by omega]
      exact hok (k + 1) (Nat.succ_lt_succ hk)
    have h₀ : o.activation n = 0 := hok 0 (Nat.succ_pos _)
    rw [hw, List.mem_cons, ih (n + 1) w hok', h₀]
    simp only [List.tails_cons, List.mem_cons]
    constructor
    · rintro (rfl | ⟨r, rs, h, rfl⟩)
      · exact ⟨r₀, rs₀, Or.inl rfl, rfl⟩
      · exact ⟨r, rs, Or.inr h, rfl⟩
    · rintro ⟨r, rs, h | h, rfl⟩
      · cases h
        exact Or.inl rfl
      · exact Or.inr ⟨r, rs, h, rfl⟩

/-- The events of an activation that reads `remote`. -/
theorem countGate_events {c : Setup} {o : Outcomes} {v : Vars} {remote : List DmbdConfigRemote}
    (hc : v.count = c.serverLen - 1) (hr : readDMBDRemote c.json v.dmbdConfig = some remote) :
    ∃ cmd, (countGate c o v).events =
      (activate c o remote 0 v).2 ++ (loadDisk c o { v with bestioCmd := cmd }).2 := by
  obtain ⟨cmd, ha⟩ := (activate_keeps c o remote 0 v).1
  refine ⟨cmd, ?_⟩
  unfold countGate withRemote
  rw [if_pos hc, hr, ← ha]
  rfl

/-- What the activation leaves to see, all its commands having returned 0. -/
structure Sound (c : Setup) (remote : List DmbdConfigRemote) (es : List Event) : Prop where
  ownInsmod : ∃ cmd, .launch .goInsmod cmd 0 ∈ es
  clients : ∀ r rs, r :: rs ∈ remote.tails → ipOf (r :: rs) ≠ c.myNode.ip →
    .launch .nbdClient (nbdClientCmd (r :: rs)) 0 ∈ es
  results : ∀ site cmd ret, .launch site cmd ret ∈ es → ret = 0
  vrdInsmod : .launch .vrdInsmod moduleCmd 0 ∈ es
  acknowledged : ∀ n ∈ c.others, .answer .nbdMsgSend n (ascii "NBD_CLIENT_LOAD") ∈ es

/-- `dmbd_config` has an entry for the controller itself. -/
def HasOwnEntry (c : Setup) (remote : List DmbdConfigRemote) : Prop :=
  ∃ r rs, r :: rs ∈ remote.tails ∧ ipOf (r :: rs) = c.myNode.ip

theorem hasOwnEntry_iff {c : Setup} {remote : List DmbdConfigRemote} :
    (∃ rs ∈ remote.tails, rs ≠ [] ∧ ipOf rs = c.myNode.ip) ↔ HasOwnEntry c remote := by
  constructor
  · rintro ⟨_ | ⟨r, rs⟩, hmem, hne, hip⟩
    · exact absurd rfl hne
    · exact ⟨r, rs, hmem, hip⟩
  · rintro ⟨r, rs, hmem, hip⟩
    exact ⟨r :: rs, hmem, List.cons_ne_nil r rs, hip⟩

instance (c : Setup) (remote : List DmbdConfigRemote) : Decidable (HasOwnEntry c remote) :=
  decidable_of_iff _ hasOwnEntry_iff

/-! ## One round -/

theorem launch_of_mem_loadDisk {c : Setup} {o : Outcomes} {v : Vars} {site : Site} {cmd : Bytes}
    {ret : Int} (he : .launch site cmd ret ∈ (loadDisk c o v).2) : ret = o.vrdInsmod := by
  have hlaunch : .launch site cmd ret ∈ [Event.launch .vrdInsmod moduleCmd o.vrdInsmod] →
      ret = o.vrdInsmod := by
    intro h
    exact (Event.launch.inj (List.mem_singleton.mp h)).2.2
  unfold loadDisk at he
  by_cases hl : o.vrdInsmod = 0 ∧ v.count ≠ 0
  · rw [if_pos hl] at he
    rcases List.mem_append.mp he with he | he
    · exact hlaunch he
    · exact absurd ((nbdMsgSend_keeps c o.nbdNet nbdClientMsg v).2 _ he) id
  · rw [if_neg hl] at he
    exact hlaunch he

theorem mem_loadDisk (c : Setup) (o : Outcomes) (v : Vars) :
    .launch .vrdInsmod moduleCmd o.vrdInsmod ∈ (loadDisk c o v).2 := by
  unfold loadDisk
  by_cases hl : o.vrdInsmod = 0 ∧ v.count ≠ 0
  · rw [if_pos hl]
    exact List.mem_cons_self
  · rw [if_neg hl]
    exact List.mem_cons_self

/-- A command run by the gates belongs to the activation. -/
theorem launch_of_mem_gates {c : Setup} {o : Outcomes} {v : Vars} {site : Site} {cmd : Bytes}
    {ret : Int} (he : .launch site cmd ret ∈ (gates c o v).events) :
    .launch site cmd ret ∈ (countGate c o v).events := by
  rcases Done.mem_andThen.mp he with he | ⟨_, he⟩
  · rcases Done.mem_andThen.mp he with he | ⟨_, he⟩
    · exact he
    · cases mem_nbdGate he
  · cases mem_unsuccessGate he

theorem mem_gates_of_mem_countGate {c : Setup} {o : Outcomes} {v : Vars} {e : Event}
    (he : e ∈ (countGate c o v).events) : e ∈ (gates c o v).events :=
  Done.mem_andThen.mpr (Or.inl (Done.mem_andThen.mpr (Or.inl he)))

theorem mem_verdicts {es : List Event} {fd : Int} {msg : Bytes} (h : .verdict fd msg ∈ es) :
    msg ∈ verdicts es := List.mem_filterMap.mpr ⟨_, h, rfl⟩

/-- The gates write "success" only with `nbd_count` complete. -/
theorem loaded_of_success {c : Setup} {o : Outcomes} {v : Vars}
    (h : ascii "success" ∈ verdicts (gates c o v).events) :
    (Asks c o v → Readable c v) ∧ Loaded c o v := by
  rw [gates_verdicts] at h
  by_cases hr : Asks c o v → Readable c v
  · rw [if_pos hr] at h
    refine ⟨hr, ?_⟩
    have hne : ascii "success" ≠ ascii "unsuccess" ++ [0] := by decide
    unfold gateVerdicts at h
    by_contra hl
    by_cases hu : v.unsuccessFlag = 1
    · simp [hl, hu, hne] at h
    · simp [hl, hu] at h
  · rw [if_neg hr] at h
    exact absurd h List.not_mem_nil

/-- What a round needs for its "success" to be sound: no acknowledgement is left over from an
earlier one, each acknowledgement is read whole, and where the disk's module can be loaded, no
other command of the activation fails and one of them is the own `insmod`. A controller alone
needs the module to be loaded. -/
structure CleanRequest (c : Setup) (o : Outcomes) (v : Vars) : Prop where
  fresh : v.nbdCount + c.others.length ≤ c.serverLen - 1
  acks : ∀ n ∈ c.others, o.nbdNet.AckRead n
  commands : o.vrdInsmod = 0 → ∀ remote, readDMBDRemote c.json v.dmbdConfig = some remote →
    HasOwnEntry c remote ∧ ∀ k < remote.length, o.activation k = 0
  alone : ¬ 2 ≤ c.serverLen → o.vrdInsmod = 0

/-- A controller alone never counts a success. -/
def Uncounted (c : Setup) (v : Vars) : Prop := ¬ 2 ≤ c.serverLen → v.count = 0

/-- **A "success" needs the activation**: it is run, the disk's module is loaded, and the other
servers acknowledge as often as there are of them. -/
theorem activated_of_loaded {c : Setup} {o : Outcomes} {v : Vars} (hs : Settled c v)
    (hz : Uncounted c v) (hclean : CleanRequest c o v) (hl : Loaded c o (answered c o v)) :
    (answered c o v).count = c.serverLen - 1 ∧ o.vrdInsmod = 0 ∧
      (c.others ≠ [] → (answered c o v).count ≠ 0 ∧
        c.others.length ≤ (nbdTexts o.nbdNet false o.nbdNet.stack c.others).count
          (ascii "NBD_CLIENT_LOAD")) := by
  have hnbd : (answered c o v).nbdCount = v.nbdCount := rfl
  unfold Loaded loadsHeard at hl
  rw [hnbd] at hl
  by_cases hsend : (answered c o v).count = c.serverLen - 1 ∧ o.vrdInsmod = 0 ∧
      (answered c o v).count ≠ 0
  · rw [if_pos hsend] at hl
    have hfresh := hclean.fresh
    exact ⟨hsend.1, hsend.2.1, fun _ => ⟨hsend.2.2, by omega⟩⟩
  · -- without a broadcast `nbd_count` would have been complete before, so there is no other server
    rw [if_neg hsend] at hl
    have halone : ¬ 2 ≤ c.serverLen := fun hlen => hs.nbdCount hlen (by omega)
    have hnone := others_eq_nil halone
    have hlen := others_length_lt c
    have hpos : (1 : Int) ≤ c.serverLen := by
      unfold Setup.serverLen
      omega
    have hcount : (answered c o v).count = 0 := by
      unfold answered
      rw [hnone]
      show v.count + (0 : Int) = 0
      rw [hz halone, Int.add_zero]
    exact ⟨by omega, hclean.alone halone, fun h => absurd hnone h⟩

/-- **The round of a sound "success".** -/
theorem handle_sound {c : Setup} {o : Outcomes} {i fd : Int} {v : Vars}
    (hcmd : commandOf c (cstr v.buffer) = .userSetConfig) (hs : Settled c v) (hz : Uncounted c v)
    (hclean : CleanRequest c o v) (he : .verdict fd (ascii "success") ∈ (handle c o i v).events) :
    ∃ remote, readDMBDRemote c.json v.dmbdConfig = some remote ∧
      Sound c remote (handle c o i v).events := by
  obtain ⟨hgo, _, hsender⟩ := userSetConfig_spec c o v
  have hevents : (handle c o i v).events =
      (userSetConfig c o v).events ++ (gates c o (answered c o v)).events := by
    rw [handle_user hcmd, Done.andThen_go hgo, userSetConfig_state]
  rw [hevents] at he ⊢
  have hgate : .verdict fd (ascii "success") ∈ (gates c o (answered c o v)).events :=
    (List.mem_append.mp he).resolve_left fun h => (hsender _ h).not_verdict ⟨fd, _, rfl⟩
  obtain ⟨hr, hl⟩ := loaded_of_success (mem_verdicts hgate)
  obtain ⟨hcount, hvrd, hall⟩ := activated_of_loaded hs hz hclean hl
  obtain ⟨remote, hremote⟩ := Option.isSome_iff_exists.mp (hr (Or.inl hcount))
  obtain ⟨⟨r₀, rs₀, hown, hip⟩, hok⟩ := hclean.commands hvrd remote hremote
  have hok' : ∀ k < remote.length, o.activation (0 + k) = 0 := fun k hk =>
    (Nat.zero_add k).symm ▸ hok k hk
  have hact := mem_activate (c := c) remote 0 (answered c o v) hok'
  obtain ⟨cmd, hgates⟩ := countGate_events hcount hremote
  have hmem : ∀ e ∈ (countGate c o (answered c o v)).events,
      e ∈ (userSetConfig c o v).events ++ (gates c o (answered c o v)).events :=
    fun e h => List.mem_append_right _ (mem_gates_of_mem_countGate h)
  rw [hgates] at hmem
  refine ⟨remote, hremote, ⟨bestioCmd c r₀, hmem _ (List.mem_append_left _ ?_)⟩, ?_, ?_, ?_, ?_⟩
  · refine (hact _).mpr ⟨r₀, rs₀, hown, ?_⟩
    unfold activationEvent
    rw [if_pos hip]
  · intro r rs hmemr hipr
    refine hmem _ (List.mem_append_left _ ((hact _).mpr ⟨r, rs, hmemr, ?_⟩))
    unfold activationEvent
    rw [if_neg hipr]
  · intro site cmd' ret h
    rcases List.mem_append.mp h with h | h
    · exact absurd (hsender _ h) id
    · have h := launch_of_mem_gates h
      rw [hgates] at h
      rcases List.mem_append.mp h with h | h
      · obtain ⟨r, rs, _, heq⟩ := (hact _).mp h
        unfold activationEvent at heq
        by_cases hipr : ipOf (r :: rs) = c.myNode.ip
        · rw [if_pos hipr] at heq
          exact (Event.launch.inj heq).2.2
        · rw [if_neg hipr] at heq
          exact (Event.launch.inj heq).2.2
      · exact (launch_of_mem_loadDisk h).trans hvrd
  · have h := mem_loadDisk c o { answered c o v with bestioCmd := cmd }
    rw [hvrd] at h
    exact hmem _ (List.mem_append_right _ h)
  · intro n hn
    obtain ⟨hne, hlen⟩ := hall (List.ne_nil_of_mem hn)
    refine hmem _ (List.mem_append_right _ ?_)
    unfold loadDisk
    rw [if_pos ⟨hvrd, hne⟩]
    refine List.mem_append_right _ ?_
    show _ ∈ (send c .nbdMsgSend o.nbdNet (nbdBody o.nbdNet nbdClientMsg) _).2
    rw [send_eq_visit]
    exact List.mem_append_right _ (nbdTexts_all c.others _ hclean.acks hlen n hn)

/-! ## Runs -/

theorem gates_count (c : Setup) (o : Outcomes) (v : Vars) :
    (gates c o v).state.count = v.count ∨ (gates c o v).state.count = 0 := by
  have hcount : Done.Keeps (fun w => w.count = v.count ∨ w.count = 0) (fun _ => True)
      (countGate c o v) := by
    refine ⟨?_, fun _ _ => trivial⟩
    unfold countGate
    by_cases hc : v.count = c.serverLen - 1
    · rw [if_pos hc]
      unfold withRemote
      cases readDMBDRemote c.json v.dmbdConfig with
      | none => exact Or.inl rfl
      | some remote => exact Or.inr rfl
    · rw [if_neg hc]
      exact Or.inl rfl
  have hnbd : ∀ w : Vars, (w.count = v.count ∨ w.count = 0) →
      Done.Keeps (fun w => w.count = v.count ∨ w.count = 0) (fun _ => True) (nbdGate c w) := by
    refine fun w hw => ⟨?_, fun _ _ => trivial⟩
    unfold nbdGate
    by_cases hc : w.nbdCount = c.serverLen - 1
    · rw [if_pos hc]
      unfold withRemote
      cases readDMBDRemote c.json w.dmbdConfig with
      | none => exact hw
      | some remote => exact hw
    · rw [if_neg hc]
      exact hw
  refine ((hcount.andThen (hnbd _)).andThen fun hw => ⟨?_, fun _ _ => trivial⟩).1
  show (unsuccessGate _).state.count = v.count ∨ (unsuccessGate _).state.count = 0
  rw [(unsuccessGate_spec _).1]
  exact hw

/-- A controller alone counts nothing in a message either. -/
theorem handle_uncounted {c : Setup} {v : Vars} (h : Uncounted c v) (o : Outcomes) (i : Int) :
    Uncounted c (handle c o i v).state := by
  intro halone
  have hhandler : (handler c o i (cstr v.buffer) v).state.count = 0 := by
    by_cases hcmd : commandOf c (cstr v.buffer) = .userSetConfig
    · unfold handler
      rw [hcmd]
      show (userSetConfig c o v).state.count = 0
      rw [userSetConfig_state]
      unfold answered
      rw [others_eq_nil halone]
      show v.count + (0 : Int) = 0
      rw [h halone, Int.add_zero]
    · exact (handler_still hcmd).1.count.trans (h halone)
  have hkeeps : Done.Keeps (fun w => w.count = 0) (fun _ => True) (handle c o i v) := by
    refine Done.Keeps.andThen ⟨hhandler, fun _ _ => trivial⟩ fun h => ⟨?_, fun _ _ => trivial⟩
    rcases gates_count c o (handler c o i (cstr v.buffer) v).state with hg | hg
    · exact hg.trans h
    · exact hg
  exact hkeeps.1

theorem step_uncounted {c : Setup} {v : Vars} (h : Uncounted c v) (inp : Input) :
    Uncounted c (step c v inp).1 := by
  by_cases hrun : v.running = true
  · cases inp with
    | accept fd =>
      unfold step serve
      rw [if_pos hrun]
      by_cases hfd : fd < 0
      · simp only [if_pos hfd]
        exact h
      · simp only [if_neg hfd]
        exact h
    | read i r o =>
      by_cases hr : r = some []
      · unfold step serve
        rw [if_pos hrun]
        simp only [if_pos hr]
        exact h
      · rw [step_message hrun hr]
        exact handle_uncounted (v := afterRead v r) h o i
  · rw [step_dead hrun]
    exact h

/-- Each request is clean, and with no other server no other message comes at all. -/
def CleanStep (c : Setup) (v : Vars) (inp : Input) : Prop :=
  ∀ i r o, inp = .read i r o → v.running = true → r ≠ some [] →
    (commandOf c (textOf v r) = .userSetConfig → CleanRequest c o v) ∧
    (commandOf c (textOf v r) ≠ .userSetConfig → 2 ≤ c.serverLen)

/-- **A "success" is sound**, over every run of clean rounds. -/
theorem success_sound (c : Setup) (v₀ : Vars) (h₀ : v₀.Start c) (is : List Input)
    (hclean : ∀ t ∈ trace (step c) v₀ is, CleanStep c t.before t.input) :
    ∀ t ∈ trace (step c) v₀ is, ∀ fd, .verdict fd (ascii "success") ∈ t.events →
      (∃ i, Requests c t.before i t.input) ∧
        ∃ remote, readDMBDRemote c.json t.before.dmbdConfig = some remote ∧
          Sound c remote t.events := by
  have hstep : ∀ v inp, (Between c v ∧ Uncounted c v) → CleanStep c v inp →
      (Between c (step c v inp).1 ∧ Uncounted c (step c v inp).1) ∧
        ∀ fd, .verdict fd (ascii "success") ∈ (step c v inp).2 →
          (∃ i, Requests c v i inp) ∧ ∃ remote,
            readDMBDRemote c.json v.dmbdConfig = some remote ∧ Sound c remote (step c v inp).2 := by
    rintro v inp ⟨hv, hz⟩ hc
    refine ⟨⟨step_settled hv inp, step_uncounted hz inp⟩, fun fd he => ?_⟩
    obtain ⟨i, r, o, rfl, hrun, hr, he⟩ :=
      notPlain_of_mem_step he fun hp => hp.not_verdict ⟨fd, _, rfl⟩
    obtain ⟨huser, hother⟩ := hc i r o rfl hrun hr
    have hs : Settled c (afterRead v r) := (hv hrun).of_same ⟨rfl, rfl, rfl, rfl⟩
    by_cases hcmd : commandOf c (textOf v r) = .userSetConfig
    · obtain ⟨hfresh, hacks, hcommands, halone⟩ := huser hcmd
      obtain ⟨remote, hremote, hsound⟩ := handle_sound (v := afterRead v r) hcmd hs hz
        ⟨hfresh, hacks, hcommands, halone⟩ he
      rw [step_message hrun hr]
      refine ⟨⟨i, r, o, rfl, hr, hcmd⟩, remote, hremote, ?_⟩
      obtain ⟨⟨cmd, hown⟩, hclients, hresults, hvrd, hack⟩ := hsound
      refine ⟨⟨cmd, List.mem_cons_of_mem _ hown⟩, fun r rs h₁ h₂ =>
        List.mem_cons_of_mem _ (hclients r rs h₁ h₂), fun site cmd ret h => ?_,
        List.mem_cons_of_mem _ hvrd, fun n hn => List.mem_cons_of_mem _ (hack n hn)⟩
      rcases List.mem_cons.mp h with h | h
      · cases h
      · exact hresults site cmd ret h
    · exact absurd (handle_plain (hother hcmd) hs hcmd he) id
  exact forall_trace (P := fun v inp es => ∀ fd, Event.verdict fd (ascii "success") ∈ es →
    (∃ i, Requests c v i inp) ∧ ∃ remote,
      readDMBDRemote c.json v.dmbdConfig = some remote ∧ Sound c remote es)
    hstep is v₀ ⟨h₀.between, fun _ => h₀.count⟩ hclean

/-- Every call succeeds but `nbd-client`. -/
def clientFails : Outcomes := { allOk with activation := fun _ => 1 }

/-- The request of the client of two servers, its `nbd-client` failing. -/
def clientFailed : Vars × List Event :=
  step (twoServers sampleJson) accepted (.read 4 (some (userText ++ [0])) clientFails)

/-- It is answered "success". -/
theorem success_not_sound :
    .verdict 4 (ascii "success") ∈ clientFailed.2 ∧
      .launch .nbdClient (ascii "nbd-client 10.0.0.2 1111 -p /dev/nbd1 -N export") 1 ∈
        clientFailed.2 := by
  constructor
  · decide +kernel
  · decide +kernel

/-- A configuration with an entry for each of two servers. -/
def pairConfig : Bytes := ascii ("\x7b\"remote\":[\x7b\"ip\":\"10.0.0.1\"," ++
  "\"remote_dev\":\"/dev/nbd1\",\"dev_size\":1024,\"nbd_export\":\"export\"," ++
  "\"dmbd_nbd_port\":\"1111\"\x7d,\x7b\"ip\":\"10.0.0.2\",\"remote_dev\":\"/dev/nbd1\"," ++
  "\"dev_size\":1024,\"nbd_export\":\"export\",\"dmbd_nbd_port\":\"1111\"\x7d]\x7d")

/-- Its entry for the first of them. -/
def ownEntry : Json :=
  .obj [(ascii "ip", some (.str (ascii "10.0.0.1"))),
    (ascii "remote_dev", some (.str (ascii "/dev/nbd1"))),
    (ascii "dev_size", some (.num 1024 (ascii "1024"))),
    (ascii "nbd_export", some (.str (ascii "export"))),
    (ascii "dmbd_nbd_port", some (.str (ascii "1111")))]

/-- json-c on this configuration and the client's text. -/
def pairJson : JsonC :=
  jsonOf [(userText, .obj [(ascii "cmd_type", some (.str (ascii "USER_SET_CONFIG")))]),
    (pairConfig, .obj [(ascii "remote", some (.arr [some ownEntry, some sampleEntry]))])]

/-- The controller of two servers with that configuration, after its client was accepted. -/
def pairAccepted : Vars :=
  (step (twoServers pairJson) (startVars (some pairConfig)) (.accept 4)).1

/-- Where every call succeeds its "success" is sound. -/
theorem success_sound_two :
    .verdict 4 (ascii "success") ∈ (step (twoServers pairJson) pairAccepted (userInput 4)).2 ∧
      .launch .vrdInsmod moduleCmd 0 ∈
        (step (twoServers pairJson) pairAccepted (userInput 4)).2 := by
  have hv : .verdict 4 (ascii "success") ∈
      (step (twoServers pairJson) pairAccepted (userInput 4)).2 := by decide +kernel
  refine ⟨hv, ?_⟩
  have hown : ∀ remote, readDMBDRemote pairJson (some pairConfig) = some remote →
      HasOwnEntry (twoServers pairJson) remote := by
    intro remote hr
    have hany : (readDMBDRemote pairJson (some pairConfig)).any
        (fun remote => decide (HasOwnEntry (twoServers pairJson) remote)) = true := by
      decide +kernel
    rw [hr] at hany
    exact of_decide_eq_true hany
  obtain ⟨_, remote, _, hsound⟩ := success_sound (twoServers pairJson)
    (startVars (some pairConfig)) (startVars_start _ _ _ _) [.accept 4, userInput 4] (by
      refine List.forall_mem_cons.mpr ⟨?_, List.forall_mem_cons.mpr ⟨?_, fun _ h => ?_⟩⟩
      · rintro i r o ⟨⟩
      · rintro i r o ⟨⟩ _ _
        exact ⟨fun _ => ⟨by decide, fun _ _ => ⟨_, rfl, by decide⟩,
          fun _ remote hr => ⟨hown remote hr, fun _ _ => rfl⟩, fun _ => rfl⟩, fun _ => by decide⟩
      · exact absurd h List.not_mem_nil)
    ⟨pairAccepted, userInput 4, _⟩ (List.mem_cons_of_mem _ List.mem_cons_self) 4 hv
  exact hsound.vrdInsmod

end JcmController.Controller
