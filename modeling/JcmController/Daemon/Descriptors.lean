import JcmController.Controller.Descriptors
import JcmController.Heartbeat.Agreement
import JcmController.Heartbeat.Descriptors

/-!
# The table of open descriptors

The loop of `main`, the receiver and the sender of the heartbeat share a process, and so its table
of open descriptors: how many of each origin are open. A run is any sequence of ready descriptors,
rounds of the receiver and rounds of the sender.

The state does not say when the process ends: it keeps for each thread whether its own last call
came to its end, so a run may go on where another thread has crashed.

* **`descriptors_balanced_iff`**: a message or a round that comes to its end leaves the table as it
  found it, up to connections, exactly when no call in it opened a descriptor that it leaves open.
-/

namespace JcmController.Daemon

open JcmController.Lib

/-! ## The process -/

/-- What is fixed before the threads start. -/
structure Setup where
  controller : Controller.Setup
  host : Heartbeat.Host

/-- Where an open descriptor comes from. -/
inductive Origin where
  | controller (d : Controller.Desc)
  | heartbeat (d : Heartbeat.Origin)
  deriving DecidableEq, Repr

/-- How many descriptors of an origin are open. -/
abbrev Table := Origin → Int

/-- What others see. -/
inductive Event where
  | controller (e : Controller.Event)
  | heartbeat (e : Heartbeat.Event)

/-- What an event does to the number of open descriptors of an origin. -/
def Event.effect : Event → Origin → Int
  | .controller e, .controller d => e.effect d
  | .heartbeat e, .heartbeat d => e.effect d
  | _, _ => 0

/-- The variables of the controller, those of the heartbeat, and the table. -/
structure State where
  vars : Controller.Vars
  hb : Heartbeat.Hb
  table : Table

/-- What happens next: a ready descriptor, a round of the receiver, a round of the sender. -/
inductive Act where
  | input (inp : Controller.Input)
  | receive (R : Heartbeat.Round)
  | send (o : Heartbeat.SendRound)

/-- The table after these events. -/
def Table.after (table : Table) (es : List Event) : Table :=
  fun d => table d + balance Event.effect es d

/-- What a thread does, and what that does to the table. -/
def step (D : Setup) (s : State) : Act → State × List Event
  | .input inp =>
    let r := Controller.step D.controller s.vars inp
    let es := r.2.map Event.controller
    ({ s with vars := r.1, table := s.table.after es }, es)
  | .receive R =>
    let r := Heartbeat.step D.host s.hb R
    let es := r.2.map Event.heartbeat
    ({ s with hb := r.1, table := s.table.after es }, es)
  | .send o =>
    let es := (Heartbeat.hbSend D.host o s.hb.nodes).2.map Event.heartbeat
    ({ s with table := s.table.after es }, es)

/-! ## Balance -/

/-- The connections are the main loop's own business. -/
def Origin.IsConn (d : Origin) : Prop := ∃ fd, d = .controller (.conn fd)

/-- The same descriptors are open, up to connections. -/
def Table.Same (table table' : Table) : Prop := ∀ d, ¬ Origin.IsConn d → table' d = table d

/-- The message or the round came to its end. -/
def Completed (D : Setup) (s : State) : Act → Prop
  | .input inp => (Controller.step D.controller s.vars inp).1.running = true
  | .receive R => (Heartbeat.step D.host s.hb R).1.running = true
  | .send _ => True

/-- No call of it opens a descriptor that it leaves open. -/
def LeavesNone (D : Setup) (s : State) : Act → Prop
  | .input (.accept _) => True
  | .input (.read _ r o) =>
    r = some [] ∨ Controller.LeavesNone D.controller o (Controller.afterRead s.vars r)
  | .receive R => Heartbeat.NoneOpens D.host R (Heartbeat.hear D.host R s.hb.nodes 0) 0
  | .send _ => True

theorem balance_controller (es : List Controller.Event) (d : Origin) :
    balance Event.effect (es.map Event.controller) d =
      match d with
      | .controller d => Controller.account es d
      | .heartbeat _ => 0 := by
  cases d with
  | controller d =>
    have hsame : ∀ e, Event.effect (.controller e) (.controller d) = e.effect d := fun _ => rfl
    exact balance_map hsame es
  | heartbeat d =>
    refine balance_eq_zero fun e he => ?_
    obtain ⟨_, _, rfl⟩ := List.mem_map.mp he
    rfl

theorem balance_heartbeat (es : List Heartbeat.Event) (d : Origin) :
    balance Event.effect (es.map Event.heartbeat) d =
      match d with
      | .controller _ => 0
      | .heartbeat d => Heartbeat.account es d := by
  cases d with
  | controller d =>
    refine balance_eq_zero fun e he => ?_
    obtain ⟨_, _, rfl⟩ := List.mem_map.mp he
    rfl
  | heartbeat d =>
    have hsame : ∀ e, Event.effect (.heartbeat e) (.heartbeat d) = e.effect d := fun _ => rfl
    exact balance_map hsame es

/-- What a controller's events leave of the table. -/
theorem same_controller {table : Table} {es : List Controller.Event} :
    table.Same (table.after (es.map Event.controller)) ↔
      ∀ d, ¬ d.IsConn → Controller.account es d = 0 := by
  constructor
  · intro h d hd
    have hsame := h (.controller d) (fun ⟨fd, hfd⟩ => hd ⟨fd, Origin.controller.inj hfd⟩)
    unfold Table.after at hsame
    rw [balance_controller] at hsame
    exact add_eq_left.mp hsame
  · intro h d hd
    refine add_eq_left.mpr ?_
    rw [balance_controller]
    cases d with
    | controller d => exact h d fun ⟨fd, hfd⟩ => hd ⟨fd, congrArg _ hfd⟩
    | heartbeat d => rfl

/-- What the heartbeat's events leave of it. -/
theorem same_heartbeat {table : Table} {es : List Heartbeat.Event} :
    table.Same (table.after (es.map Event.heartbeat)) ↔ ∀ d, Heartbeat.account es d = 0 := by
  constructor
  · intro h d
    have hsame := h (.heartbeat d) (fun ⟨_, hfd⟩ => Origin.noConfusion hfd)
    unfold Table.after at hsame
    rw [balance_heartbeat] at hsame
    exact add_eq_left.mp hsame
  · intro h d _
    refine add_eq_left.mpr ?_
    rw [balance_heartbeat]
    cases d with
    | controller d => rfl
    | heartbeat d => exact h d

/-! ## One step -/

section Step

variable {D : Setup} {s : State}

/-- A ready descriptor, between two messages. -/
theorem input_balanced_iff {inp : Controller.Input} (hv : Controller.Between D.controller s.vars)
    (hz : Controller.Uncounted D.controller s.vars)
    (hx : (Controller.step D.controller s.vars inp).1.running = true) :
    (∀ d, ¬ d.IsConn →
        Controller.account (Controller.step D.controller s.vars inp).2 d = 0) ↔
      LeavesNone D s (.input inp) := by
  have hrun : s.vars.running = true := by
    by_contra hrun
    unfold Controller.step at hx
    rw [if_neg hrun] at hx
    exact hrun hx
  cases inp with
  | accept fd =>
    refine iff_of_true (fun d hd => ?_) trivial
    unfold Controller.step Controller.serve
    rw [if_pos hrun]
    by_cases hfd : fd < 0
    · simp only [if_pos hfd]
      rfl
    · simp only [if_neg hfd]
      exact (Int.add_zero _).trans (if_neg fun h => hd ⟨fd, h.symm⟩)
  | read i r o =>
    by_cases hr : r = some []
    · refine iff_of_true (fun d hd => ?_) (Or.inl hr)
      unfold Controller.step Controller.serve
      rw [if_pos hrun]
      simp only [if_pos hr]
      exact (Int.add_zero _).trans (if_neg fun h => hd ⟨i, h.symm⟩)
    · have hs : Controller.Settled D.controller (Controller.afterRead s.vars r) :=
        (hv hrun).of_same ⟨rfl, rfl, rfl, rfl⟩
      have hz' : Controller.Uncounted D.controller (Controller.afterRead s.vars r) := hz
      rw [Controller.step_message hrun hr] at hx ⊢
      have hiff := Controller.handle_account (i := i) hs hz' (of_decide_eq_true hx)
      have hmessage : ∀ es d, Controller.account
          (.message i (Controller.textOf s.vars r) :: es) d = Controller.account es d :=
        fun _ _ => Int.zero_add _
      simp only [hmessage]
      exact hiff.trans ⟨Or.inr, fun h => h.resolve_left hr⟩

/-- A round of the receiver. -/
theorem receive_balanced_iff {R : Heartbeat.Round}
    (hx : (Heartbeat.step D.host s.hb R).1.running = true) :
    (∀ d, Heartbeat.account (Heartbeat.step D.host s.hb R).2 d = 0) ↔
      LeavesNone D s (.receive R) := by
  unfold Heartbeat.step at hx ⊢
  by_cases hrun : s.hb.running = true
  · rw [if_pos hrun] at hx ⊢
    exact Heartbeat.hbReceive_account hx
  · rw [if_neg hrun] at hx
    exact absurd hx hrun

/-- What every step of a run starts from. -/
def Ready (D : Setup) (s : State) : Prop :=
  Controller.Between D.controller s.vars ∧ Controller.Uncounted D.controller s.vars

theorem step_ready (hs : Ready D s) (a : Act) : Ready D (step D s a).1 := by
  obtain ⟨hv, hz⟩ := hs
  cases a with
  | input inp => exact ⟨Controller.step_settled hv inp, Controller.step_uncounted hz inp⟩
  | receive R => exact ⟨hv, hz⟩
  | send o => exact ⟨hv, hz⟩

/-- **One message or round**: the table is the same exactly when no call left a descriptor. -/
theorem step_balanced_iff {a : Act} (hs : Ready D s) (hx : Completed D s a) :
    s.table.Same (step D s a).1.table ↔ LeavesNone D s a := by
  cases a with
  | input inp => exact same_controller.trans (input_balanced_iff hs.1 hs.2 hx)
  | receive R => exact same_heartbeat.trans (receive_balanced_iff hx)
  | send o =>
    exact same_heartbeat.trans
      (iff_of_true (fun d => Heartbeat.hbSend_account D.host o s.hb.nodes d) trivial)

end Step

/-! ## Runs -/

/-- **The descriptors balance exactly in the steps that leave none**, over every run. -/
theorem descriptors_balanced_iff (D : Setup) (s₀ : State) (h₀ : s₀.vars.Start D.controller)
    (as : List Act) :
    ∀ t ∈ trace (step D) s₀ as, Completed D t.before t.input →
      (t.before.table.Same (step D t.before t.input).1.table ↔ LeavesNone D t.before t.input) := by
  have hstep : ∀ s a, Ready D s → True → Ready D (step D s a).1 ∧
      (Completed D s a → (s.table.Same (step D s a).1.table ↔ LeavesNone D s a)) :=
    fun s a hs _ => ⟨step_ready hs a, step_balanced_iff hs⟩
  exact forall_trace (P := fun s a _ => Completed D s a →
    (s.table.Same (step D s a).1.table ↔ LeavesNone D s a)) hstep as s₀
      ⟨h₀.between, fun _ => h₀.count⟩ fun _ _ => trivial

/-- Two servers, seen from the first. -/
def twoDaemons : Setup := ⟨Controller.twoServers Controller.sampleJson, Heartbeat.twoHosts⟩

/-- Its process before the first connection. -/
def startedDaemon : State where
  vars := Controller.startVars (some Controller.sampleConfig)
  hb := Heartbeat.started Heartbeat.twoHosts none
  table := fun _ => 0

/-- A client was accepted. -/
def acceptedDaemon : State := (step twoDaemons startedDaemon (.input (.accept 4))).1

/-- It asks; the other server answers. -/
def requestedDaemon : State := (step twoDaemons acceptedDaemon (.input (Controller.userInput 4))).1

/-- The other server is not heard from; the gateway answers. -/
def checkedDaemon : State :=
  (step twoDaemons requestedDaemon (.receive (Heartbeat.silentRound 20000))).1

/-- The request leaves two sockets and the configuration file open, the round a socket. -/
theorem descriptors_left_open :
    requestedDaemon.vars.running = true ∧ checkedDaemon.hb.running = true ∧
      acceptedDaemon.table (.controller .socket) = 0 ∧
      requestedDaemon.table (.controller .socket) = 2 ∧
      requestedDaemon.table (.controller .index) = 1 ∧
      requestedDaemon.table (.heartbeat .pingSocket) = 0 ∧
      checkedDaemon.table (.heartbeat .pingSocket) = 1 := by
  decide +kernel

/-- A round that hears from the other server leaves the table alone. -/
theorem descriptors_balanced_heard :
    acceptedDaemon.table.Same
      (step twoDaemons acceptedDaemon (.receive (Heartbeat.heardRound 20000))).1.table := by
  refine (descriptors_balanced_iff twoDaemons startedDaemon
    (Controller.startVars_start _ _ _ _)
    [.input (.accept 4), .receive (Heartbeat.heardRound 20000)]
    ⟨acceptedDaemon, .receive (Heartbeat.heardRound 20000), _⟩
    (List.mem_cons_of_mem _ List.mem_cons_self) ?_).mpr ?_
  · show (Heartbeat.step twoDaemons.host acceptedDaemon.hb
      (Heartbeat.heardRound 20000)).1.running = true
    decide +kernel
  · rintro (_ | _ | k) node hk
    · cases hk
      decide +kernel
    · cases hk
      decide +kernel
    · cases hk

end JcmController.Daemon
