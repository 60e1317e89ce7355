import Mathlib.Logic.Function.Basic
import JcmController.Controller.Rounds
import JcmController.Lib.WaitFor

/-!
# Several controllers

Each controller of a cluster runs its own loop and is inside one read or handler at a time. While
it handles an input it waits, one read after the other, for the servers its senders are connected
to. Only the loop of such a server can answer; how long that takes is left to the run, so an
answer may come at any time, or never.

* `waits`: the reads inside the handling of one input, by the entry each one waits for.
* `act`: one controller takes up an input, gets an answer, or is done with its input.
* `mem_waits`: only `USER_SET_CONFIG` makes a controller wait, and only for the first other server
  of its list.
* `local_run`: what a controller does in a cluster is a run of its own loop.
* **`no_mutual_blocking`**: no controllers wait for each other in a circle, in a run in which no
  controller takes up a `USER_SET_CONFIG` while a chain of waiting controllers leads from the first
  other server of its list back to it.
-/

namespace JcmController.Controller

open JcmController.Lib Relation

/-! ## What a controller waits for -/

/-- The reads that follow an event: two after the `connect` of `msg_send`, one after that of
`nbd_msg_send`. -/
def readsAfter : Event → List Nat
  | .connect .msgSend n true => [n, n]
  | .connect .nbdMsgSend n true => [n]
  | _ => []

/-- The reads inside the handling of `inp`, by the entry that each waits for. -/
def waits (c : Setup) (v : Vars) (inp : Input) : List Nat := (step c v inp).2.flatMap readsAfter

theorem isWait_of_mem_readsAfter {e : Event} {n : Nat} (h : n ∈ readsAfter e) : e.IsWait n := by
  unfold readsAfter at h
  split at h
  · rcases List.mem_pair.mp h with rfl | rfl
    · exact ⟨_, rfl, SendFn.noConfusion⟩
    · exact ⟨_, rfl, SendFn.noConfusion⟩
  · rw [List.mem_singleton.mp h]
    exact ⟨_, rfl, SendFn.noConfusion⟩
  · exact absurd h List.not_mem_nil

/-- `connect` fails on a socket that is connected. -/
def Net.Eisconn (net : Net) : Prop := ∀ n, net.reconnect n = false

section Senders

variable {f : SendFn} {net : Net} {body : Nat → Sender → Sender × List Event}

/-- A sender that is connected reaches nobody else. -/
theorem visit_connected (heis : net.Eisconn) {s : Sender} (hs : s.connected = true) {e : Event}
    (ns : List Nat) (he : e ∈ (visit f net body ns s).2) (m : Nat) : ¬ e.IsWait m := by
  cases ns with
  | nil => exact absurd he List.not_mem_nil
  | cons n ns =>
    have hn : net.connects n s.connected = false := by simp [Net.connects, hs, heis n]
    unfold visit at he
    rw [hn] at he
    rintro ⟨g, rfl, _⟩
    cases List.mem_singleton.mp he

/-- **A sender waits for the first other server only.** -/
theorem send_wait {c : Setup} (heis : net.Eisconn)
    (hconn : ∀ n s, (body n s).1.connected = s.connected)
    (hbody : ∀ n s, ∀ e ∈ (body n s).2, e.OfBody) {v : Vars} {e : Event} {m : Nat}
    (he : e ∈ (send c f net body v).2) (hw : e.IsWait m) : c.others.head? = some m := by
  rw [send_eq_visit] at he
  rcases List.mem_append.mp he with he | he
  · unfold Net.socketEvents at he
    obtain ⟨g, rfl, _⟩ := hw
    by_cases hs : 0 ≤ net.socket
    · simp [hs] at he
    · simp [hs] at he
  · cases hc : c.others with
    | nil =>
      rw [hc] at he
      exact absurd he List.not_mem_nil
    | cons n ns =>
      rw [hc] at he
      unfold visit at he
      by_cases hn : net.connects n false = true
      · rw [if_pos hn] at he
        rcases List.mem_cons.mp he with rfl | he
        · obtain ⟨g, hg, _⟩ := hw
          cases hg
          rfl
        · rcases List.mem_append.mp he with he | he
          · exact absurd hw ((hbody n _ e he).not_wait m)
          · exact absurd hw (visit_connected heis (hconn n _) ns he m)
      · rw [if_neg hn] at he
        obtain ⟨g, rfl, _⟩ := hw
        cases List.mem_singleton.mp he

end Senders

/-! ## One input -/

/-- `connect` fails on connected sockets while `inp` is handled. -/
def Input.Eisconn : Input → Prop
  | .accept _ => True
  | .read _ _ o => o.msgNet.Eisconn ∧ o.nbdNet.Eisconn

theorem userSetConfig_wait {c : Setup} {o : Outcomes} {v : Vars} (heis : o.msgNet.Eisconn)
    {e : Event} {n : Nat} (he : e ∈ (userSetConfig c o v).events) (hw : e.IsWait n) :
    c.others.head? = some n := by
  unfold userSetConfig at he
  by_cases hl : c.serverLen > 1
  · rw [if_pos hl] at he
    exact send_wait heis (msgBody_connected _ _) (fun _ _ => msgBody_ofBody) he hw
  · rw [if_neg hl] at he
    exact absurd he List.not_mem_nil

theorem gates_wait {c : Setup} {o : Outcomes} {v : Vars} (heis : o.nbdNet.Eisconn) {e : Event}
    {n : Nat} (he : e ∈ (gates c o v).events) (hw : e.IsWait n) : c.others.head? = some n := by
  obtain ⟨f, rfl, hf⟩ := hw
  rcases Done.mem_andThen.mp he with he | ⟨_, he⟩
  · rcases Done.mem_andThen.mp he with he | ⟨_, he⟩
    · by_cases hc : v.count = c.serverLen - 1
      · unfold countGate at he
        rw [if_pos hc] at he
        obtain ⟨remote, he⟩ := mem_withRemote he
        rcases List.mem_append.mp he with he | he
        · obtain ⟨_, _, _, h⟩ := (activate_keeps c o remote 0 v).2 _ he
          cases h
        · unfold loadDisk at he
          by_cases hd : o.vrdInsmod = 0 ∧ (activate c o remote 0 v).1.count ≠ 0
          · rw [if_pos hd] at he
            rcases List.mem_append.mp he with he | he
            · cases List.mem_singleton.mp he
            · exact send_wait heis (nbdBody_connected _ _) (fun _ _ => nbdBody_ofBody) he
                ⟨f, rfl, hf⟩
          · rw [if_neg hd] at he
            cases List.mem_singleton.mp he
      · rw [countGate_ne hc] at he
        exact absurd he List.not_mem_nil
    · cases mem_nbdGate he
  · cases mem_unsuccessGate he

/-- Whatever the message, a controller only waits for the first other server. -/
theorem handle_wait {c : Setup} {o : Outcomes} {i : Int} {v : Vars} (hmsg : o.msgNet.Eisconn)
    (hnbd : o.nbdNet.Eisconn) {e : Event} {n : Nat} (he : e ∈ (handle c o i v).events)
    (hw : e.IsWait n) : c.others.head? = some n := by
  rcases Done.mem_andThen.mp he with he | ⟨_, he⟩
  · by_cases hcmd : commandOf c (cstr v.buffer) = .userSetConfig
    · unfold handler at he
      rw [hcmd] at he
      exact userSetConfig_wait hmsg he hw
    · exact absurd hw (((handler_still hcmd).2 e he).not_wait n)
  · exact gates_wait hnbd he hw

/-- A controller takes up a `USER_SET_CONFIG`. -/
def StartsRound (c : Setup) (v : Vars) (inp : Input) : Prop :=
  v.running = true ∧ ∃ i, Requests c v i inp

/-- **Only a round waits**, and only for the first other server. -/
theorem mem_waits {c : Setup} {v : Vars} {inp : Input} {n : Nat} (hv : Between c v)
    (heis : inp.Eisconn) (hn : n ∈ waits c v inp) :
    StartsRound c v inp ∧ c.others.head? = some n := by
  obtain ⟨e, he, hne⟩ := List.mem_flatMap.mp hn
  have hw := isWait_of_mem_readsAfter hne
  obtain ⟨i, r, o, rfl, hrun, hr, he⟩ := notPlain_of_mem_step he fun hp => hp.not_wait n hw
  have hfirst := handle_wait heis.1 heis.2 he hw
  refine ⟨⟨hrun, i, r, o, rfl, hr, ?_⟩, hfirst⟩
  by_contra hcmd
  have hl : 2 ≤ c.serverLen := by
    by_contra halone
    rw [others_eq_nil halone] at hfirst
    cases hfirst
  have hs : Settled c (afterRead v r) := (hv hrun).of_same ⟨rfl, rfl, rfl, rfl⟩
  exact (handle_plain hl hs hcmd he).not_wait n hw

/-! ## The cluster -/

/-- An input that is being handled, of whose reads the first `answered` have returned. -/
structure Task where
  input : Input
  answered : Nat

/-- One controller: what its loop changes, as it was before the input it handles. -/
structure Process where
  vars : Vars
  task : Option Task

/-- What happens next. What `a` learns while it handles `inp`, the answers it will read among it,
is fixed when it takes it up. -/
inductive Act (ι : Type) where
  | take (a : ι) (inp : Input)
  | answer (a : ι)
  | finish (a : ι)

section Cluster

variable {ι : Type} (c : ι → Setup)

/-- One action. Nothing happens where the controller is not at that point. -/
def act [DecidableEq ι] (s : ι → Process) : Act ι → (ι → Process) × List (ι × Event)
  | .take a inp =>
    match (s a).task with
    | none => (Function.update s a { s a with task := some ⟨inp, 0⟩ }, [])
    | some _ => (s, [])
  | .answer a =>
    match (s a).task with
    | none => (s, [])
    | some t =>
      if t.answered < (waits (c a) (s a).vars t.input).length then
        (Function.update s a { s a with task := some ⟨t.input, t.answered + 1⟩ }, [])
      else (s, [])
  | .finish a =>
    match (s a).task with
    | none => (s, [])
    | some t =>
      if t.answered = (waits (c a) (s a).vars t.input).length then
        let r := step (c a) (s a).vars t.input
        (Function.update s a ⟨r.1, none⟩, r.2.map fun e => (a, e))
      else (s, [])

/-- Every controller is about to enter its loop. -/
def Started (s : ι → Process) : Prop := ∀ a, (s a).vars.Start (c a) ∧ (s a).task = none

/-- Entry `n` of a server list is the server of `c'`. -/
def Setup.At (c : Setup) (n : Nat) (c' : Setup) : Prop :=
  c.serverConfig[n]?.map ServerNode.ip = some c'.ip

instance (c : Setup) (n : Nat) (c' : Setup) : Decidable (c.At n c') :=
  inferInstanceAs (Decidable (_ = _))

/-- No other server's entry is the own one. -/
theorem not_at_self {c : Setup} {n : Nat} (h : n ∈ c.others) : ¬ c.At n c := by
  obtain ⟨node, hnode, hip⟩ := ip_of_mem_othersFrom h
  rw [c.myNode_ip] at hip
  unfold Setup.At
  rw [show c.serverConfig[n]? = some node from hnode]
  exact fun h => hip (Option.some.inj h)

/-- `a` is inside a read from the server of `b`. -/
def WaitsFor (s : ι → Process) (a b : ι) : Prop :=
  ∃ t n, (s a).task = some t ∧ (waits (c a) (s a).vars t.input)[t.answered]? = some n ∧
    (c a).At n (c b)

/-- The first other server of `c`'s list is that of `c'`. -/
def Setup.Calls (c c' : Setup) : Prop := ∃ n, c.others.head? = some n ∧ c.At n c'

/-- A round is not taken up while whoever it will ask waits, directly or not, for the one that
takes it up. -/
def NoneWaitsBack (s : ι → Process) : Act ι → Prop
  | .take a inp => (s a).task = none → StartsRound (c a) (s a).vars inp →
      ∀ b, (c a).Calls (c b) → ¬ ReflTransGen (WaitsFor c s) b a
  | _ => True

/-- `connect` fails on connected sockets. -/
def Act.Eisconn : Act ι → Prop
  | .take _ inp => inp.Eisconn
  | _ => True

/-! ## Who waits for whom -/

variable {c}

/-- A process that handles nothing waits for nobody. -/
theorem not_waitsFor {s : ι → Process} {a b : ι} (h : (s a).task = none) : ¬ WaitsFor c s a b := by
  rintro ⟨t, n, ht, _⟩
  rw [h] at ht
  cases ht

/-- **A controller inside a round's reads waits for whom its list calls first.** -/
theorem waitsFor_iff {s : ι → Process} {a b : ι} {t : Task} (ht : (s a).task = some t)
    (hv : Between (c a) (s a).vars) (heis : t.input.Eisconn) :
    WaitsFor c s a b ↔ StartsRound (c a) (s a).vars t.input ∧
      t.answered < (waits (c a) (s a).vars t.input).length ∧ (c a).Calls (c b) := by
  constructor
  · rintro ⟨t', n, ht', hn, hat⟩
    obtain rfl : t = t' := Option.some.inj (ht.symm.trans ht')
    obtain ⟨hlt, _⟩ := List.getElem?_eq_some_iff.mp hn
    obtain ⟨hround, hfirst⟩ := mem_waits hv heis (List.mem_of_getElem? hn)
    exact ⟨hround, hlt, n, hfirst, hat⟩
  · rintro ⟨_, hlt, n, hfirst, hat⟩
    have hm := List.getElem?_eq_getElem hlt
    have hfirst' := (mem_waits hv heis (List.mem_of_getElem? hm)).2
    rw [Option.some.inj (hfirst'.symm.trans hfirst)] at hm
    exact ⟨t, n, ht, hm, hat⟩

/-- Where nobody waits, any round can be taken up: the other servers of a list have other
addresses. -/
theorem noneWaitsBack_of_none {s : ι → Process} (h : ∀ a b, ¬ WaitsFor c s a b) (x : Act ι) :
    NoneWaitsBack c s x := by
  cases x with
  | take a inp =>
    rintro _ _ b ⟨n, hfirst, hat⟩ hback
    obtain rfl := eq_of_reach h hback
    exact not_at_self (List.mem_of_mem_head? hfirst) hat
  | answer a => trivial
  | finish a => trivial

/-- What each controller does is a run of its own loop. -/
def LocalRuns (c : ι → Setup) (s₀ s : ι → Process) : Prop :=
  ∀ a, ∃ is, (s a).vars = final (step (c a)) (s₀ a).vars is

theorem LocalRuns.between {s₀ s : ι → Process} (h : LocalRuns c s₀ s) (h₀ : Started c s₀) (a : ι) :
    Between (c a) (s a).vars := by
  obtain ⟨is, hvars⟩ := h a
  rw [hvars]
  exact final_between (h₀ a).1.between is

/-- `connect` fails on connected sockets in everything that is being handled. -/
def TasksEisconn (s : ι → Process) : Prop := ∀ a t, (s a).task = some t → t.input.Eisconn

variable [DecidableEq ι]

/-- The same after its task was set. -/
theorem waitsFor_update_iff {s : ι → Process} {a b : ι} {t : Task}
    (hv : Between (c a) (s a).vars) (heis : t.input.Eisconn) :
    WaitsFor c (Function.update s a { s a with task := some t }) a b ↔
      StartsRound (c a) (s a).vars t.input ∧
        t.answered < (waits (c a) (s a).vars t.input).length ∧ (c a).Calls (c b) := by
  have hself : (Function.update s a { s a with task := some t }) a =
      { s a with task := some t } := Function.update_self ..
  rw [waitsFor_iff (t := t) (by rw [hself]) (by rwa [hself]) heis, hself]

/-- The waits of other processes are as they were. -/
theorem waitsFor_update_ne {s : ι → Process} {a x y : ι} {p : Process} (hx : x ≠ a) :
    WaitsFor c (Function.update s a p) x y ↔ WaitsFor c s x y := by
  unfold WaitsFor
  rw [Function.update_of_ne hx]

/-! ## One action -/

/-- An action leaves everything as it is, or changes the process that acts. -/
theorem act_cases (s : ι → Process) (x : Act ι) :
    (act c s x).1 = s ∨
      (∃ a inp, x = .take a inp ∧ (s a).task = none ∧
        (act c s x).1 = Function.update s a { s a with task := some ⟨inp, 0⟩ }) ∨
      (∃ a t, x = .answer a ∧ (s a).task = some t ∧
        t.answered < (waits (c a) (s a).vars t.input).length ∧
        (act c s x).1 = Function.update s a { s a with task := some ⟨t.input, t.answered + 1⟩ }) ∨
      (∃ a t, x = .finish a ∧ (s a).task = some t ∧
        (act c s x).1 = Function.update s a ⟨(step (c a) (s a).vars t.input).1, none⟩) := by
  cases x with
  | take a inp =>
    cases ht : (s a).task with
    | none => exact Or.inr (Or.inl ⟨a, inp, rfl, ht, by simp only [act, ht]⟩)
    | some t => exact Or.inl (by simp only [act, ht])
  | answer a =>
    cases ht : (s a).task with
    | none => exact Or.inl (by simp only [act, ht])
    | some t =>
      by_cases hk : t.answered < (waits (c a) (s a).vars t.input).length
      · exact Or.inr (Or.inr (Or.inl ⟨a, t, rfl, ht, hk, by simp only [act, ht, if_pos hk]⟩))
      · exact Or.inl (by simp only [act, ht, if_neg hk])
  | finish a =>
    cases ht : (s a).task with
    | none => exact Or.inl (by simp only [act, ht])
    | some t =>
      by_cases hk : t.answered = (waits (c a) (s a).vars t.input).length
      · exact Or.inr (Or.inr (Or.inr ⟨a, t, rfl, ht, by simp only [act, ht, if_pos hk]⟩))
      · exact Or.inl (by simp only [act, ht, if_neg hk])

/-- What holds of every process holds of them after one of them changed. -/
theorem forall_update {P : ι → Process → Prop} {s : ι → Process} {a : ι} {p : Process}
    (h : ∀ x, P x (s x)) (hp : P a p) : ∀ x, P x (Function.update s a p x) :=
  (Function.forall_update_iff s P).mpr ⟨hp, fun x _ => h x⟩

theorem act_localRuns {s₀ s : ι → Process} (h : LocalRuns c s₀ s) (x : Act ι) :
    LocalRuns c s₀ (act c s x).1 := by
  have hup : ∀ {a p}, (∃ is, p.vars = final (step (c a)) (s₀ a).vars is) →
      LocalRuns c s₀ (Function.update s a p) :=
    forall_update (P := fun a p => ∃ is, p.vars = final (step (c a)) (s₀ a).vars is) h
  rcases act_cases s x with hs | ⟨a, inp, _, _, hs⟩ | ⟨a, t, _, _, _, hs⟩ | ⟨a, t, _, _, hs⟩
  · rwa [hs]
  · rw [hs]
    exact hup (h a)
  · rw [hs]
    exact hup (h a)
  · rw [hs]
    obtain ⟨is, hvars⟩ := h a
    refine hup ⟨is ++ [t.input], ?_⟩
    rw [final_concat, ← hvars]

theorem act_tasksEisconn {s : ι → Process} (h : TasksEisconn s) {x : Act ι} (heis : x.Eisconn) :
    TasksEisconn (act c s x).1 := by
  have hup : ∀ {a p}, (∀ t, p.task = some t → t.input.Eisconn) →
      TasksEisconn (Function.update s a p) :=
    forall_update (P := fun _ p => ∀ t, p.task = some t → t.input.Eisconn) h
  rcases act_cases (c := c) s x with hs | ⟨a, inp, rfl, _, hs⟩ | ⟨a, t, _, ht, _, hs⟩ |
    ⟨a, t, _, _, hs⟩
  · rwa [hs]
  · rw [hs]
    refine hup ?_
    rintro t ⟨⟩
    exact heis
  · rw [hs]
    refine hup ?_
    rintro t' ⟨⟩
    exact h a t ht
  · rw [hs]
    refine hup ?_
    rintro t' ⟨⟩

/-- The process that acts may begin to wait for whoever does not wait for it. -/
theorem acyclic_update {s : ι → Process} {a : ι} {p : Process} (h : Acyclic (WaitsFor c s))
    {B : ι → Prop} (hB : ∀ b, B b → ¬ ReflTransGen (WaitsFor c s) b a)
    (hwaits : ∀ b, WaitsFor c (Function.update s a p) a b → WaitsFor c s a b ∨ B b) :
    Acyclic (WaitsFor c (Function.update s a p)) := by
  refine h.insert ?_ hB
  intro x y hxy
  by_cases hx : x = a
  · subst hx
    exact (hwaits y hxy).imp id fun hb => ⟨rfl, hb⟩
  · exact Or.inl ((waitsFor_update_ne hx).mp hxy)

/-- **One action closes no circle**: only the start of a round adds waits, all of them for the
first other server, and nobody there waits back. -/
theorem act_acyclic {s : ι → Process} (hv : ∀ a, Between (c a) (s a).vars) (hos : TasksEisconn s)
    (h : Acyclic (WaitsFor c s)) {x : Act ι} (heis : x.Eisconn) (hback : NoneWaitsBack c s x) :
    Acyclic (WaitsFor c (act c s x).1) := by
  rcases act_cases s x with hs | ⟨a, inp, rfl, ht, hs⟩ | ⟨a, t, _, ht, hlt, hs⟩ |
    ⟨a, t, _, _, hs⟩
  · rwa [hs]
  · rw [hs]
    refine acyclic_update h (B := fun b => StartsRound (c a) (s a).vars inp ∧ (c a).Calls (c b))
      (fun b hb => hback ht hb.1 b hb.2) ?_
    intro b hb
    obtain ⟨hround, _, hcalls⟩ := (waitsFor_update_iff (t := ⟨inp, 0⟩) (hv a) heis).mp hb
    exact Or.inr ⟨hround, hcalls⟩
  · rw [hs]
    refine acyclic_update h (B := fun _ => False) (fun _ => False.elim) ?_
    intro b hb
    have heist : t.input.Eisconn := hos a t ht
    obtain ⟨hround, _, hcalls⟩ :=
      (waitsFor_update_iff (t := ⟨t.input, t.answered + 1⟩) (hv a) heist).mp hb
    exact Or.inl ((waitsFor_iff ht (hv a) heist).mpr ⟨hround, hlt, hcalls⟩)
  · rw [hs]
    refine acyclic_update h (B := fun _ => False) (fun _ => False.elim) ?_
    intro b hb
    refine absurd hb (not_waitsFor ?_)
    rw [Function.update_self]

/-! ## Every run -/

/-- **A cluster is its controllers**: what each of them does is a run of its own loop. -/
theorem local_run (c : ι → Setup) (s₀ : ι → Process) (xs : List (Act ι)) :
    LocalRuns c s₀ (final (act c) s₀ xs) := by
  have hstep : ∀ s x, LocalRuns c s₀ s → True → LocalRuns c s₀ (act c s x).1 :=
    fun _ x h _ => act_localRuns h x
  exact final_inv hstep xs s₀ (fun _ => ⟨[], rfl⟩) fun _ _ => trivial

/-- What holds along a run from `s₀` whose rounds start while nobody waits back. -/
structure ClusterInv (c : ι → Setup) (s₀ s : ι → Process) : Prop where
  runs : LocalRuns c s₀ s
  eisconn : TasksEisconn s
  acyclic : Acyclic (WaitsFor c s)

/-- **No mutual blocking**: no controllers wait for each other in a circle, in any state of a run
in which no round is taken up while whoever it asks waits for the one that takes it up. -/
theorem no_mutual_blocking (c : ι → Setup) (s₀ : ι → Process) (h₀ : Started c s₀)
    (xs : List (Act ι)) (heis : ∀ x ∈ xs, x.Eisconn)
    (hback : ∀ t ∈ trace (act c) s₀ xs, NoneWaitsBack c t.before t.input) :
    Acyclic (WaitsFor c (final (act c) s₀ xs)) := by
  have hstart : ClusterInv c s₀ s₀ := by
    refine ⟨fun _ => ⟨[], rfl⟩, ?_, acyclic_of_none fun a _ => not_waitsFor (h₀ a).2⟩
    intro a t ht
    rw [(h₀ a).2] at ht
    cases ht
  have hstep : ∀ s x, ClusterInv c s₀ s → x.Eisconn ∧ NoneWaitsBack c s x →
      ClusterInv c s₀ (act c s x).1 := by
    intro s x h hx
    have hv : ∀ a, Between (c a) (s a).vars := h.runs.between h₀
    exact ⟨act_localRuns h.runs x, act_tasksEisconn h.eisconn hx.1,
      act_acyclic hv h.eisconn h.acyclic hx.1 hx.2⟩
  have hsteps : ∀ t ∈ trace (act c) s₀ xs, t.input.Eisconn ∧ NoneWaitsBack c t.before t.input :=
    fun t ht => ⟨heis _ (input_mem_of_mem_trace ht), hback t ht⟩
  exact (final_inv hstep xs s₀ hstart hsteps).acyclic

/-- **The converse**: a round taken up while whoever it asks first waits back closes a circle. -/
theorem not_acyclic_take {s : ι → Process} {a b : ι} {inp : Input} (ht : (s a).task = none)
    (hv : Between (c a) (s a).vars) (heis : inp.Eisconn) (hcalls : (c a).Calls (c b))
    (hwaits : waits (c a) (s a).vars inp ≠ []) (hback : ReflTransGen (WaitsFor c s) b a) :
    ¬ Acyclic (WaitsFor c (act c s (.take a inp)).1) := by
  have hs : (act c s (.take a inp)).1 =
      Function.update s a { s a with task := some ⟨inp, 0⟩ } := by simp only [act, ht]
  rw [hs]
  intro hacyc
  obtain ⟨n, hn⟩ := List.exists_mem_of_ne_nil _ hwaits
  have hround := (mem_waits hv heis hn).1
  have hab := (waitsFor_update_iff (t := ⟨inp, 0⟩) hv heis).mpr
    ⟨hround, List.length_pos_of_mem hn, hcalls⟩
  -- `a` waits for nobody in `s`, so the chain uses waits of other processes only
  have hchain :
      ReflTransGen (WaitsFor c (Function.update s a { s a with task := some ⟨inp, 0⟩ })) b a := by
    refine ReflTransGen.mono (fun x y hxy => (waitsFor_update_ne fun hx => ?_).mpr hxy) _ _ hback
    subst hx
    exact not_waitsFor ht hxy
  exact hacyc a (TransGen.head' hab hchain)

end Cluster

/-! ## Two controllers -/

/-- The two servers as a cluster. -/
def pair (right : Bool) : Setup := if right then peer else twoServers sampleJson

/-- Both about to enter their loops. -/
def pairStart (_ : Bool) : Process := ⟨startVars (some sampleConfig), none⟩

theorem pair_started : Started pair pairStart := by
  intro a
  cases a with
  | false => exact ⟨startVars_start _ _ _ _, rfl⟩
  | true => exact ⟨startVars_start _ _ _ _, rfl⟩

/-- A client of `a` is accepted. -/
def client (a : Bool) : List (Act Bool) := [.take a (.accept 4), .finish a]

/-- Each has a client; both clients ask. -/
def bothAsk : List (Act Bool) :=
  client false ++ client true ++ [.take false (userInput 4), .take true (userInput 4)]

/-- One client asks. -/
def oneAsks : List (Act Bool) := client false ++ [.take false (userInput 4)]

/-- Two controllers that both took up a `USER_SET_CONFIG` wait for each other. -/
theorem both_wait :
    Started pair pairStart ∧ WaitsFor pair (final (act pair) pairStart bothAsk) false true ∧
      WaitsFor pair (final (act pair) pairStart bothAsk) true false ∧
      ¬ Acyclic (WaitsFor pair (final (act pair) pairStart bothAsk)) := by
  have hleft : WaitsFor pair (final (act pair) pairStart bothAsk) false true :=
    ⟨⟨userInput 4, 0⟩, 1, rfl, by decide +kernel, by decide +kernel⟩
  have hright : WaitsFor pair (final (act pair) pairStart bothAsk) true false :=
    ⟨⟨userInput 4, 0⟩, 1, rfl, by decide +kernel, by decide +kernel⟩
  exact ⟨pair_started, hleft, hright, fun h => h false (.tail (.single hleft) hright)⟩

/-- One that does so alone waits, and is not waited for. -/
theorem no_mutual_blocking_one :
    WaitsFor pair (final (act pair) pairStart oneAsks) false true ∧
      Acyclic (WaitsFor pair (final (act pair) pairStart oneAsks)) := by
  refine ⟨⟨⟨userInput 4, 0⟩, 1, rfl, by decide +kernel, by decide +kernel⟩,
    no_mutual_blocking pair pairStart pair_started oneAsks ?_ ?_⟩
  · refine List.forall_mem_cons.mpr ⟨trivial, List.forall_mem_cons.mpr ⟨trivial,
      List.forall_mem_cons.mpr ⟨⟨fun _ => rfl, fun _ => rfl⟩, fun _ h => ?_⟩⟩⟩
    exact absurd h List.not_mem_nil
  · have hnone : ∀ a, (final (act pair) pairStart (client false) a).task = none := by
      intro a
      cases a with
      | false => rfl
      | true => rfl
    refine List.forall_mem_cons.mpr ⟨?_, List.forall_mem_cons.mpr ⟨trivial,
      List.forall_mem_cons.mpr ⟨?_, fun _ h => ?_⟩⟩⟩
    · exact noneWaitsBack_of_none (fun a _ => not_waitsFor rfl) _
    · exact noneWaitsBack_of_none (fun a _ => not_waitsFor (hnone a)) _
    · exact absurd h List.not_mem_nil

end JcmController.Controller
