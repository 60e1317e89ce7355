import JcmController.Controller.Cluster
import JcmController.Controller.Mount

/-!
# Who holds the mount

The controllers of a set of servers, and the announcements on their way between them. A handler
that announces is inside `mount_msg_send` until it has sent the last one, and its controller takes
up nothing else until then; an announcement in flight is delivered at any time, each on its own
connection.

* The ips are dotted numbers, no two servers have one in common, and json-c reads back what
  `mount_cmd` says (`ReadsAnnouncement`).
* An announcement is delivered whole. The client's messages are any but announcements.
* A controller that has ended takes what it is sent to no effect.

Results:
* `Spreads`: what holds from a mount on that is the last to go through.
* **`mount_agreement`**: where the last of them was taken up with nothing in flight, and nothing is
  in flight again, its controller and everyone it told have its ip in `mount_file`.
* `concurrent_mounts_disagree`: two mounts at once leave each other's ip.
-/

namespace JcmController.Controller

open JcmController.Lib

/-! ## Texts -/

/-- Dotted numbers. -/
def IpText (ip : Bytes) : Prop := ip.length ≤ 15 ∧ ∀ b ∈ ip, b = 46 ∨ 48 ≤ b ∧ b ≤ 57

instance (ip : Bytes) : Decidable (IpText ip) := inferInstanceAs (Decidable (_ ∧ _))

theorem IpText.not_mem {ip : Bytes} (h : IpText ip) {b : UInt8} (hb : b < 46) : b ∉ ip := by
  intro hmem
  rcases h.2 b hmem with rfl | ⟨hle, _⟩
  · exact UInt8.lt_irrefl 46 hb
  · exact absurd (UInt8.lt_of_le_of_lt hle hb) (by decide)

/-- `mount_file` after `fprintf` of an ip. -/
theorem fprintf_mountMsg {ip : Bytes} (h : IpText ip) (junk : Bytes → Option Bytes) :
    fprintf junk (mountMsg ip) = some (mountMsg ip) := by
  refine fprintf_plain fun hmem => ?_
  rcases List.mem_append.mp hmem with hmem | hmem
  · rcases List.mem_append.mp hmem with hmem | hmem
    · exact absurd hmem (by decide)
    · exact h.not_mem (by decide) hmem
  · exact absurd hmem (by decide)

theorem mountCmd_nulFree {ip : Bytes} (h : IpText ip) : NulFree (mountCmd ip) := by
  intro b hb
  rintro rfl
  rcases List.mem_append.mp hb with hmem | hmem
  · rcases List.mem_append.mp hmem with hmem | hmem
    · exact absurd hmem (by decide)
    · exact h.not_mem (by decide) hmem
  · exact absurd hmem (by decide)

theorem mountCmd_length (ip : Bytes) : (mountCmd ip).length = 43 + ip.length + 2 := by
  unfold mountCmd
  rw [List.length_append, List.length_append]
  rfl

/-- An announcement is read whole. -/
theorem textOf_mountCmd {ip : Bytes} (h : IpText ip) (v : Vars) :
    textOf v (some (mountCmd ip)) = mountCmd ip := by
  unfold textOf
  have hlen := h.1
  rw [cstr_readTerm_some, List.take_of_length_le (by rw [mountCmd_length]; omega),
    cstr_eq_self (mountCmd_nulFree h)]

/-- json-c reads back what an announcement says. -/
structure ReadsAnnouncement (jc : JsonC) (ip : Bytes) : Prop where
  cmdType : jc.getString (objectGetEx (jc.tokenerParse (mountCmd ip)) (ascii "cmd_type")) =
    some (ascii "MOUNT_SET_ON")
  mountIp : jc.getString (objectGetEx (jc.tokenerParse (mountCmd ip)) (ascii "mount_ip")) = some ip

/-! ## The servers -/

/-- What the servers of a set are started with. -/
structure Servers (ι : Type) where
  setup : ι → Setup
  ip_text : ∀ k, IpText (setup k).ip
  ip_injective : Function.Injective fun k => (setup k).ip

variable {ι : Type}

/-- The ip of a server. -/
def Servers.ip (S : Servers ι) (k : ι) : Bytes := (S.setup k).ip

/-- An announcement on its way to the server with this ip. -/
structure Announcement where
  dest : Bytes
  text : Bytes
  deriving DecidableEq, Repr

/-- The announcements among these events. -/
def announcements (c : Setup) (es : List Event) : List Announcement :=
  es.filterMap fun
    | .sent .mountMsgSend n text => c.serverConfig[n]?.map fun node => ⟨node.ip, text⟩
    | _ => none

/-- Every controller's variables, what it is still going to send, and what is in flight. -/
structure World (ι : Type) where
  vars : ι → Vars
  sending : ι → List Announcement
  flight : List Announcement

/-- Nothing is in flight and no handler is running. -/
def World.Quiet (w : World ι) : Prop := w.flight = [] ∧ ∀ k, w.sending k = []

instance [Fintype ι] (w : World ι) : Decidable w.Quiet := inferInstanceAs (Decidable (_ ∧ _))

/-- What happens next: a controller takes up an input of its clients, sends its next announcement,
or takes up the `j`th announcement in flight. -/
inductive Move (ι : Type) where
  | take (k : ι) (inp : Input)
  | send (k : ι)
  | deliver (k : ι) (j : Nat) (i : Int) (o : Outcomes)

/-- The input is an announcement. -/
def Tells (c : Setup) (v : Vars) (inp : Input) : Prop :=
  ∃ i r o, inp = .read i r o ∧ r ≠ some [] ∧ commandOf c (textOf v r) = .mountSetOn

instance (c : Setup) (v : Vars) : (inp : Input) → Decidable (Tells c v inp)
  | .accept _ => isFalse (by rintro ⟨_, _, _, h, _⟩; cases h)
  | .read i r o =>
    if h : r ≠ some [] ∧ commandOf c (textOf v r) = .mountSetOn then isTrue ⟨i, r, o, rfl, h⟩
    else isFalse (by rintro ⟨_, _, _, hin, h'⟩; cases hin; exact h h')

section Servers

variable [DecidableEq ι] (S : Servers ι)

/-- Controller `k` takes up an input. -/
def World.run (w : World ι) (k : ι) (inp : Input) (flight : List Announcement) :
    World ι × List Event :=
  let r := step (S.setup k) (w.vars k) inp
  (⟨Function.update w.vars k r.1,
    Function.update w.sending k (announcements (S.setup k) r.2), flight⟩, r.2)

/-- One move. Nothing happens where a controller is inside a handler, or an announcement is for
another. -/
def move (w : World ι) : Move ι → World ι × List Event
  | .take k inp =>
    if w.sending k = [] ∧ ¬ Tells (S.setup k) (w.vars k) inp then w.run S k inp w.flight
    else (w, [])
  | .send k =>
    match w.sending k with
    | [] => (w, [])
    | a :: as =>
      ({ w with sending := Function.update w.sending k as, flight := w.flight ++ [a] }, [])
  | .deliver k j i o =>
    match w.flight[j]? with
    | none => (w, [])
    | some a =>
      if w.sending k = [] ∧ a.dest = S.ip k then
        w.run S k (.read i (some a.text) o) (w.flight.eraseIdx j)
      else (w, [])

end Servers

/-! ## What one input does -/

theorem announcements_eq_nil {c : Setup} {es : List Event} (h : ∀ e ∈ es, ¬ e.Announces) :
    announcements c es = [] := by
  refine List.filterMap_eq_nil_iff.mpr fun e he => ?_
  split
  · exact absurd ⟨_, _, rfl⟩ (h _ he)
  · rfl

theorem announcements_text {c : Setup} {es : List Event} {text : Bytes}
    (h : ∀ n t, .sent .mountMsgSend n t ∈ es → t = text) :
    ∀ a ∈ announcements c es, a.text = text := by
  intro a ha
  obtain ⟨e, he, hea⟩ := List.mem_filterMap.mp ha
  split at hea
  · obtain ⟨node, _, rfl⟩ := Option.map_eq_some_iff.mp hea
    exact h _ _ he
  · cases hea

/-- A message is a mount that goes through. -/
def InputMounts (c : Setup) (v : Vars) (inp : Input) : Prop :=
  ∃ i r o, inp = .read i r o ∧ v.running = true ∧ r ≠ some [] ∧ GoesThrough c o (textOf v r)

theorem step_mounts {c : Setup} {v : Vars} {inp : Input} (h : InputMounts c v inp) :
    (step c v inp).1.mountFile = fprintf c.junk (mountMsg c.ip) ∧
      ∀ a ∈ announcements c (step c v inp).2, a.text = mountCmd c.ip := by
  obtain ⟨i, r, o, rfl, hrun, hr, hgo⟩ := h
  obtain ⟨hfile, hsent⟩ := handle_mounts (i := i) (v := afterRead v r) hgo
  rw [step_message hrun hr, ← c.myNode_ip]
  refine ⟨hfile, announcements_text fun n t he => ?_⟩
  rcases List.mem_cons.mp he with he | he
  · cases he
  · exact hsent n t he

theorem step_unmounted {c : Setup} {v : Vars} {inp : Input} (hip : IpText c.ip)
    (htells : ¬ Tells c v inp) (hm : ¬ InputMounts c v inp) :
    (step c v inp).1.mountFile = v.mountFile ∧ announcements c (step c v inp).2 = [] ∧
      ((step c v inp).1.running = true → v.running = true) := by
  by_cases hrun : v.running = true
  · suffices h : (step c v inp).1.mountFile = v.mountFile ∧
        ∀ e ∈ (step c v inp).2, ¬ e.Announces from
      ⟨h.1, announcements_eq_nil h.2, fun _ => hrun⟩
    cases inp with
    | accept fd =>
      unfold step serve
      rw [if_pos hrun]
      by_cases hfd : fd < 0
      · simp only [if_pos hfd]
        exact ⟨trivial, fun _ he => absurd he List.not_mem_nil⟩
      · simp only [if_neg hfd]
        refine ⟨trivial, ?_⟩
        rintro e he ⟨n, text, rfl⟩
        cases List.mem_singleton.mp he
    | read i r o =>
      by_cases hr : r = some []
      · unfold step serve
        rw [if_pos hrun]
        simp only [if_pos hr]
        refine ⟨trivial, ?_⟩
        rintro e he ⟨n, text, rfl⟩
        cases List.mem_singleton.mp he
      · have hplain : (fprintf c.junk (mountMsg c.myNode.ip)).isSome := by
          rw [c.myNode_ip, fprintf_mountMsg hip]
          rfl
        obtain ⟨hfile, hnone⟩ := handle_unmounted (o := o) (i := i) (v := afterRead v r) hplain
          (fun hset => htells ⟨i, r, o, rfl, hr, hset⟩)
          (fun hgo => hm ⟨i, r, o, rfl, hrun, hr, hgo⟩)
        rw [step_message hrun hr]
        refine ⟨hfile, ?_⟩
        rintro e he ⟨n, text, rfl⟩
        rcases List.mem_cons.mp he with he | he
        · cases he
        · exact hnone _ he ⟨n, text, rfl⟩
  · rw [step_dead hrun]
    exact ⟨rfl, rfl, id⟩

theorem step_told {c : Setup} {v : Vars} {i : Int} {o : Outcomes} {ip : Bytes} (hip : IpText ip)
    (hjson : ReadsAnnouncement c.json ip) :
    ((step c v (.read i (some (mountCmd ip)) o)).1.mountFile = some (mountMsg ip) ∨
        (step c v (.read i (some (mountCmd ip)) o)).1.mountFile = v.mountFile ∧
          (step c v (.read i (some (mountCmd ip)) o)).1.running = false) ∧
      announcements c (step c v (.read i (some (mountCmd ip)) o)).2 = [] := by
  by_cases hrun : v.running = true
  · have htext : cstr (afterRead v (some (mountCmd ip))).buffer = mountCmd ip :=
      textOf_mountCmd hip v
    have hset : commandOf c (mountCmd ip) = .mountSetOn := by
      unfold commandOf
      rw [hjson.cmdType]
      decide
    have hr : some (mountCmd ip) ≠ some [] := by
      intro h
      have hlen := congrArg List.length (Option.some.inj h)
      rw [mountCmd_length] at hlen
      simp at hlen
    have hfprintf := fprintf_mountMsg hip c.junk
    have hplain : (fprintf c.junk (mountMsg ip)).isSome := by
      rw [hfprintf]
      rfl
    have hset' : commandOf c (cstr (afterRead v (some (mountCmd ip))).buffer) = .mountSetOn := by
      rw [htext]
      exact hset
    have hread : dmbdMountIp c (c.json.tokenerParse
        (cstr (afterRead v (some (mountCmd ip))).buffer)) = some ip := by
      rw [htext]
      exact hjson.mountIp
    obtain ⟨hfile, hnone⟩ := handle_told (o := o) (i := i) hplain hset' hread
    rw [step_message hrun hr]
    rw [hfprintf] at hfile
    refine ⟨hfile.imp id fun h => ⟨h.1, decide_eq_false (not_not_intro h.2)⟩,
      announcements_eq_nil ?_⟩
    rintro e he ⟨n, text, rfl⟩
    rcases List.mem_cons.mp he with he | he
    · cases he
    · exact hnone _ he ⟨n, text, rfl⟩
  · rw [step_dead hrun]
    exact ⟨Or.inr ⟨rfl, Bool.eq_false_iff.mpr hrun⟩, rfl⟩

/-! ## The last mount -/

section Last

variable (S : Servers ι)

/-- Controller `m` takes up a mount that goes through. -/
def MountsAt (w : World ι) (x : Move ι) (m : ι) : Prop :=
  ∃ inp, x = .take m inp ∧ w.sending m = [] ∧ InputMounts (S.setup m) (w.vars m) inp

/-- These events of `m` announce something to `k`. -/
def Told (m : ι) (es : List Event) (k : ι) : Prop :=
  ∃ a ∈ announcements (S.setup m) es, a.dest = S.ip k

/-- The mount of `m` is the last to go through: its file says so, all announcements do, and whoever
is told of it and has not ended has taken it up, or will. -/
structure Spreads (m : ι) (told : ι → Prop) (w : World ι) : Prop where
  own : (w.vars m).mountFile = some (mountMsg (S.ip m))
  flying : ∀ a ∈ w.flight, a.text = mountCmd (S.ip m)
  waiting : ∀ k, ∀ a ∈ w.sending k, a.text = mountCmd (S.ip m)
  heard : ∀ k, told k → (w.vars k).running = true →
    (w.vars k).mountFile = some (mountMsg (S.ip m)) ∨
      ∃ a, a.dest = S.ip k ∧ (a ∈ w.flight ∨ ∃ k', a ∈ w.sending k')

variable {S}

theorem Spreads.done {m : ι} {told : ι → Prop} {w : World ι} (h : Spreads S m told w)
    (hquiet : w.Quiet) {k : ι} (hk : k = m ∨ told k ∧ (w.vars k).running = true) :
    (w.vars k).mountFile = some (mountMsg (S.ip m)) := by
  rcases hk with rfl | ⟨htold, hrun⟩
  · exact h.own
  · rcases h.heard k htold hrun with hfile | ⟨a, _, hfly | ⟨k', hwait⟩⟩
    · exact hfile
    · rw [hquiet.1] at hfly
      exact absurd hfly List.not_mem_nil
    · rw [hquiet.2 k'] at hwait
      exact absurd hwait List.not_mem_nil

variable [DecidableEq ι]

/-- A controller that was inside no handler and announces nothing still is inside none. -/
theorem World.run_sending {w : World ι} {k : ι} {inp : Input} {flight : List Announcement}
    (hidle : w.sending k = [])
    (hnone : announcements (S.setup k) (step (S.setup k) (w.vars k) inp).2 = []) :
    (w.run S k inp flight).1.sending = w.sending := by
  show Function.update w.sending k _ = w.sending
  rw [hnone, ← hidle, Function.update_eq_self]

theorem Spreads.take {m k : ι} {told : ι → Prop} {w : World ι} (h : Spreads S m told w)
    {inp : Input} (hidle : w.sending k = []) (htells : ¬ Tells (S.setup k) (w.vars k) inp)
    (hm : ¬ InputMounts (S.setup k) (w.vars k) inp) :
    Spreads S m told (w.run S k inp w.flight).1 := by
  obtain ⟨hfile, hnone, hrun⟩ := step_unmounted (S.ip_text k) htells hm
  have hsending : (w.run S k inp w.flight).1.sending = w.sending :=
    World.run_sending hidle hnone
  have hvars : ∀ k', ((w.run S k inp w.flight).1.vars k').mountFile = (w.vars k').mountFile ∧
      (((w.run S k inp w.flight).1.vars k').running = true → (w.vars k').running = true) := by
    intro k'
    show (Function.update w.vars k _ k').mountFile = _ ∧
      ((Function.update w.vars k _ k').running = _ → _)
    by_cases hk : k' = k
    · subst hk
      rw [Function.update_self]
      exact ⟨hfile, hrun⟩
    · rw [Function.update_of_ne hk]
      exact ⟨rfl, id⟩
  refine ⟨(hvars m).1.trans h.own, h.flying, ?_, fun k' htold hlive => ?_⟩
  · rw [hsending]
    exact h.waiting
  · rw [hsending, (hvars k').1]
    exact h.heard k' htold ((hvars k').2 hlive)

theorem Spreads.send {m k : ι} {told : ι → Prop} {w : World ι} (h : Spreads S m told w)
    {a : Announcement} {as : List Announcement} (hw : w.sending k = a :: as) :
    Spreads S m told
      { w with sending := Function.update w.sending k as, flight := w.flight ++ [a] } := by
  have hall := hw ▸ h.waiting k
  refine ⟨h.own, fun b hb => ?_, fun k' b hb => ?_, fun k' htold hlive => ?_⟩
  · rcases List.mem_append.mp hb with hb | hb
    · exact h.flying b hb
    · exact hall b (List.mem_singleton.mp hb ▸ List.mem_cons_self)
  · by_cases hk : k' = k
    · subst hk
      replace hb : b ∈ as := by simpa using hb
      exact hall b (List.mem_cons_of_mem a hb)
    · replace hb : b ∈ w.sending k' := by simpa [hk] using hb
      exact h.waiting k' b hb
  · refine (h.heard k' htold hlive).imp id ?_
    rintro ⟨b, hdest, hb | ⟨k'', hb⟩⟩
    · exact ⟨b, hdest, Or.inl (List.mem_append_left _ hb)⟩
    · by_cases hk : k'' = k
      · subst hk
        rw [hw] at hb
        rcases List.mem_cons.mp hb with rfl | hb
        · exact ⟨b, hdest, Or.inl (List.mem_append_right _ (List.mem_singleton_self b))⟩
        · exact ⟨b, hdest, Or.inr ⟨k'', by simpa using hb⟩⟩
      · exact ⟨b, hdest, Or.inr ⟨k'', by simpa [hk] using hb⟩⟩

theorem Spreads.deliver {m k : ι} {told : ι → Prop} {w : World ι} (h : Spreads S m told w)
    (hjson : ReadsAnnouncement (S.setup k).json (S.ip m)) {j : Nat} {i : Int} {o : Outcomes}
    {a : Announcement} (ha : w.flight[j]? = some a) (hidle : w.sending k = [])
    (hdest : a.dest = S.ip k) :
    Spreads S m told (w.run S k (.read i (some a.text) o) (w.flight.eraseIdx j)).1 := by
  have htext := h.flying a (List.mem_of_getElem? ha)
  have hip : IpText (S.ip m) := S.ip_text m
  rw [htext]
  obtain ⟨hfile, hnone⟩ := step_told (v := w.vars k) (i := i) (o := o) hip hjson
  have hsending : (w.run S k (.read i (some (mountCmd (S.ip m))) o)
      (w.flight.eraseIdx j)).1.sending = w.sending := World.run_sending hidle hnone
  refine ⟨?_, fun b hb => h.flying b (List.mem_of_mem_eraseIdx hb), ?_, fun k' htold hlive => ?_⟩
  · show (Function.update w.vars k _ m).mountFile = _
    by_cases hk : m = k
    · subst hk
      rw [Function.update_self]
      exact hfile.elim id fun hf => hf.1.trans h.own
    · rw [Function.update_of_ne hk]
      exact h.own
  · rw [hsending]
    exact h.waiting
  · rw [hsending]
    replace hlive : (Function.update w.vars k _ k').running = true := hlive
    show (Function.update w.vars k _ k').mountFile = _ ∨ _
    by_cases hk : k' = k
    · subst hk
      rw [Function.update_self] at hlive ⊢
      exact Or.inl (hfile.resolve_right fun hf => Bool.false_ne_true (hf.2.symm.trans hlive))
    · rw [Function.update_of_ne hk] at hlive ⊢
      refine (h.heard k' htold hlive).imp id ?_
      rintro ⟨b, hb, hfly | hwait⟩
      · refine ⟨b, hb, Or.inl ?_⟩
        obtain ⟨l, hl⟩ := List.mem_iff_getElem?.mp hfly
        refine List.mem_eraseIdx_iff_getElem?.mpr ⟨l, ?_, hl⟩
        rintro rfl
        have hab : a = b := Option.some.inj (ha.symm.trans hl)
        exact hk (S.ip_injective (hb.symm.trans (hab ▸ hdest)))
      · exact ⟨b, hb, Or.inr hwait⟩

/-- **One move** after the last mount. -/
theorem move_spreads (hjson : ∀ k m, ReadsAnnouncement (S.setup k).json (S.ip m)) {m : ι}
    {told : ι → Prop} {w : World ι} (h : Spreads S m told w) {x : Move ι}
    (hlast : ∀ m', ¬ MountsAt S w x m') : Spreads S m told (move S w x).1 := by
  cases x with
  | take k inp =>
    unfold move
    by_cases hg : w.sending k = [] ∧ ¬ Tells (S.setup k) (w.vars k) inp
    · simp only [if_pos hg]
      exact h.take hg.1 hg.2 fun hm => hlast k ⟨inp, rfl, hg.1, hm⟩
    · simp only [if_neg hg]
      exact h
  | send k =>
    cases hw : w.sending k with
    | nil =>
      simp only [move, hw]
      exact h
    | cons a as =>
      simp only [move, hw]
      exact h.send hw
  | deliver k j i o =>
    cases ha : w.flight[j]? with
    | none =>
      simp only [move, ha]
      exact h
    | some a =>
      by_cases hg : w.sending k = [] ∧ a.dest = S.ip k
      · simp only [move, ha, if_pos hg]
        exact h.deliver (hjson k m) ha hg.1 hg.2
      · simp only [move, ha, if_neg hg]
        exact h

/-- The mount itself, where nothing is in flight. -/
theorem mounts_spreads {m : ι} {w : World ι} {x : Move ι} (hquiet : w.Quiet)
    (hm : MountsAt S w x m) : Spreads S m (Told S m (move S w x).2) (move S w x).1 := by
  obtain ⟨inp, rfl, hidle, hmounts⟩ := hm
  have htells : ¬ Tells (S.setup m) (w.vars m) inp := by
    obtain ⟨i, r, o, rfl, _, _, hgo⟩ := hmounts
    rintro ⟨_, _, _, heq, _, hset⟩
    cases heq
    exact Command.noConfusion (hgo.1.symm.trans hset)
  obtain ⟨hfile, htext⟩ := step_mounts hmounts
  have hmove : move S w (.take m inp) = w.run S m inp w.flight := if_pos ⟨hidle, htells⟩
  rw [hmove]
  refine ⟨?_, fun a ha => ?_, fun k a ha => ?_, fun k htold _ => Or.inr ?_⟩
  · show (Function.update w.vars m _ m).mountFile = _
    rw [Function.update_self, hfile]
    exact fprintf_mountMsg (S.ip_text m) _
  · replace ha : a ∈ w.flight := ha
    rw [hquiet.1] at ha
    exact absurd ha List.not_mem_nil
  · replace ha : a ∈ Function.update w.sending m _ k := ha
    by_cases hk : k = m
    · subst hk
      rw [Function.update_self] at ha
      exact htext a ha
    · rw [Function.update_of_ne hk, hquiet.2 k] at ha
      exact absurd ha List.not_mem_nil
  · obtain ⟨a, ha, hdest⟩ := htold
    refine ⟨a, hdest, Or.inr ⟨m, ?_⟩⟩
    show a ∈ Function.update w.sending m _ m
    rw [Function.update_self]
    exact ha

/-- **Agreement on the mount holder.** The last mount of a run to go through was taken up with
nothing in flight and no handler running, and the same holds at the end of the run. Then its
controller, and everyone told of it that has not ended, have its ip in `mount_file`. -/
theorem mount_agreement (S : Servers ι)
    (hjson : ∀ k m, ReadsAnnouncement (S.setup k).json (S.ip m)) (w₀ : World ι)
    (xs : List (Move ι)) (m : ι) (t : Taken (World ι) (Move ι) Event)
    (pre post : List (Taken (World ι) (Move ι) Event))
    (hrun : trace (move S) w₀ xs = pre ++ t :: post) (hm : MountsAt S t.before t.input m)
    (hlast : ∀ t' ∈ post, ∀ m', ¬ MountsAt S t'.before t'.input m')
    (hbefore : t.before.Quiet) (hafter : (final (move S) w₀ xs).Quiet) :
    ∀ k, (k = m ∨ Told S m t.events k ∧ ((final (move S) w₀ xs).vars k).running = true) →
      ((final (move S) w₀ xs).vars k).mountFile = some (mountMsg (S.ip m)) := by
  obtain ⟨hevents, rest, rfl, hfinal⟩ := trace_split hrun
  have hstep : ∀ w x, Spreads S m (Told S m t.events) w → (∀ m', ¬ MountsAt S w x m') →
      Spreads S m (Told S m t.events) (move S w x).1 := fun _ _ h hx => move_spreads hjson h hx
  have hend := final_inv hstep rest _ (hevents ▸ mounts_spreads hbefore hm) hlast
  rw [hfinal] at hafter ⊢
  exact fun k hk => hend.done hafter hk

end Last

/-! ## Two servers -/

/-- The client's request. -/
def mountText : Bytes :=
  ascii "\x7b\"cmd_type\": \"mount\", \"mount_path\": \"/mnt\", \"mount_fs\": \"ext4\"\x7d"

/-- What json-c makes of an announcement. -/
def announced (ip : String) : Json :=
  .obj [(ascii "cmd_type", some (.str (ascii "MOUNT_SET_ON"))),
    (ascii "mount_ip", some (.str (ascii ip)))]

/-- json-c on these texts. -/
def mountJson : JsonC :=
  jsonOf [(mountText, .obj [(ascii "cmd_type", some (.str (ascii "mount"))),
      (ascii "mount_path", some (.str (ascii "/mnt"))),
      (ascii "mount_fs", some (.str (ascii "ext4")))]),
    (mountCmd (ascii "10.0.0.1"), announced "10.0.0.1"),
    (mountCmd (ascii "10.0.0.2"), announced "10.0.0.2")]

/-- Two servers. -/
def mountServers : Servers (Fin 2) where
  setup k := if k = 0 then twoServers mountJson
    else setupOf mountJson (ascii "10.0.0.2") [ascii "10.0.0.1"]
  ip_text := by decide +kernel
  ip_injective := by decide +kernel

/-- Both have started. -/
def bothStarted : World (Fin 2) := ⟨fun _ => startVars none, fun _ => [], []⟩

/-- The client's request to a server. -/
def mountRequest (k : Fin 2) : Move (Fin 2) :=
  .take k (.read 4 (some (mountText ++ [0])) allOk)

/-- Both are asked at once; then the announcements are delivered. -/
def bothAsked : World (Fin 2) :=
  final (move mountServers) bothStarted
    [mountRequest 0, mountRequest 1, .send 0, .send 1, .deliver 1 0 5 allOk, .deliver 0 0 5 allOk]

/-- Each is left with the other's ip. -/
theorem concurrent_mounts_disagree :
    MountsAt mountServers bothStarted (mountRequest 0) 0 ∧ bothAsked.Quiet ∧
      (∀ k, (bothAsked.vars k).running = true) ∧
      (bothAsked.vars 0).mountFile = some (mountMsg (ascii "10.0.0.2")) ∧
      (bothAsked.vars 1).mountFile = some (mountMsg (ascii "10.0.0.1")) := by
  refine ⟨⟨_, rfl, rfl, 4, _, _, rfl, rfl, by decide, by decide +kernel⟩, ?_⟩
  decide +kernel

/-- One is asked, and its announcement delivered. -/
def oneAsked : List (Move (Fin 2)) := [mountRequest 0, .send 0, .deliver 1 0 5 allOk]

/-- Both have its ip. -/
theorem mount_agreement_two :
    ((final (move mountServers) bothStarted oneAsked).vars 0).mountFile =
        some (mountMsg (ascii "10.0.0.1")) ∧
      ((final (move mountServers) bothStarted oneAsked).vars 1).mountFile =
        some (mountMsg (ascii "10.0.0.1")) := by
  have hjson : ∀ k m, ReadsAnnouncement (mountServers.setup k).json (mountServers.ip m) := by
    intro k m
    have hk : (mountServers.setup k).json = mountJson := by
      show (if k = 0 then _ else _ : Setup).json = mountJson
      by_cases h : k = 0
      · rw [if_pos h]
        rfl
      · rw [if_neg h]
        rfl
    rw [hk]
    match m with
    | 0 => exact ⟨by decide +kernel, by decide +kernel⟩
    | 1 => exact ⟨by decide +kernel, by decide +kernel⟩
  have hholder := mount_agreement mountServers hjson bothStarted oneAsked 0
    ⟨bothStarted, mountRequest 0, _⟩ [] _ rfl
    ⟨_, rfl, rfl, 4, _, _, rfl, rfl, by decide, by decide +kernel⟩
    (fun t' ht' m' hm => by
      obtain ⟨inp, hx, _⟩ := hm
      rcases List.mem_pair.mp ht' with rfl | rfl
      · cases hx
      · cases hx) ⟨rfl, fun _ => rfl⟩ (by decide +kernel)
  refine ⟨hholder 0 (Or.inl rfl), hholder 1 (Or.inr ⟨?_, ?_⟩)⟩
  · exact ⟨⟨ascii "10.0.0.2", mountCmd (ascii "10.0.0.1")⟩,
      List.mem_of_getElem? (i := 0) (by decide +kernel), rfl⟩
  · decide +kernel

end JcmController.Controller
