import Mathlib.Data.Finset.Lattice.Basic
import JcmController.Controller.Stalls

/-!
# The loop around `select`

`round` is one time around `while (1)`: `select`, then the `for` loop over the numbers up to
`maxfd`, which visits those that are set in `copy_fs`. While it goes over that copy, `accept` adds
to `fs_status` and may raise `maxfd`, `close` frees a number for the next `accept` or for the
handlers, and the numbers that the handlers leave open are free to anyone once they are closed.

* `Loop.others` are the descriptors that are open and not of the loop's: it starts with any, and
  each visit may open and close some.
* `Sane`: the kernel hands out no number that is in use.
* `Registered`: what holds of `fs_status` and `maxfd` at any time; `body_spec` is its step lemma.
* `forLoop_scans`, `forLoop_serves`, `forLoop_last`: what the `for` loop visits.
* `round_final`: a run of the loop is a run of `stallStep`.
* **`registration_kept`**: over every run, the registration is kept at any time.
* **`registration_iff`**: and the passes serve what is ready exactly where the loop does not end in
  front of a ready descriptor, at a message that ends the process or a call that does not come back.

`FD_SET` and its kin are the operations of a set, the numbers being below `FD_SETSIZE`. `listen` has
succeeded.
-/

namespace JcmController.Controller

open JcmController.Lib

/-! ## The loop -/

/-- The loop: the variables of `main`, the open descriptors that are not the loop's, and what
has happened so far. -/
structure Loop where
  vars : Vars
  others : Finset Int
  log : List Event

/-- What the calls of one pass return: `accept`, the reads, and what the handlers learn; and which
of the handlers' calls do not. `others` are the descriptors that are open and not the loop's once
the visit is over. -/
structure Answers where
  accepted : Int
  got : Int → Option Bytes
  outcomes : Int → Outcomes
  stalls : Int → Stalls
  others : Int → Finset Int

/-- What `select` returns. Of a result above 0, `set` are the numbers it leaves set. -/
inductive Selected where
  | error
  | timeOver
  | ready (set : Finset Int) (a : Answers)

/-- What the body of the `for` loop does at `i`. -/
def inputAt (c : Setup) (a : Answers) (i : Int) : Input :=
  if i = c.servSock then .accept a.accepted else .read i (a.got i) (a.outcomes i)

/-- The body of the `for` loop at an `i` that is set. -/
def body (c : Setup) (a : Answers) (i : Int) (p : Loop) : Loop :=
  let r := stallServe (a.stalls i) c p.vars (inputAt c a i)
  ⟨r.1, a.others i, p.log ++ r.2⟩

/-- One execution of that body. -/
structure Visit where
  fd : Int
  input : Input
  stalls : Stalls
  before : Loop
  after : Loop

/-- The `for` loop from `i` on, and its visits: `maxfd` is read again each time. The first argument
bounds the number of times around. -/
def forLoop (c : Setup) (a : Answers) (copyFs : Finset Int) :
    Nat → Int → Loop → List Visit × Loop
  | 0, _, p => ([], p)
  | n + 1, i, p =>
    if p.vars.running = true ∧ i < p.vars.maxfd + 1 then
      if i ∈ copyFs then
        let r := forLoop c a copyFs n (i + 1) (body c a i p)
        (⟨i, inputAt c a i, a.stalls i, p, body c a i p⟩ :: r.1, r.2)
      else forLoop c a copyFs n (i + 1) p
    else ([], p)

/-- A bound for it: `accept` is called once in a pass. -/
def times (a : Answers) (p : Loop) : Nat := (max p.vars.maxfd a.accepted + 1).toNat

/-- What a pass was. -/
structure Pass where
  before : Loop
  copyFs : Finset Int
  visits : List Visit
  after : Loop

/-- One time around `while (1)`. -/
def round (c : Setup) (p : Loop) : Selected → Loop × List Pass
  | .error | .timeOver => (p, [])
  | .ready set a =>
    if p.vars.running = true then
      let copyFs := p.vars.fsStatus ∩ set
      let r := forLoop c a copyFs (times a p) 0 p
      (r.2, [⟨p, copyFs, r.1, r.2⟩])
    else (p, [])

/-- The state in which the loop starts, among any other open descriptors. -/
structure Loop.Start (c : Setup) (p : Loop) : Prop where
  vars : p.vars.Start c
  others : c.servSock ∉ p.others
  log : p.log = []

/-! ## Connections -/

/-- What an event does to the set of accepted connections that have not been closed. -/
def connAfter (s : Finset Int) : Event → Finset Int
  | .opened (.conn fd) => insert fd s
  | .closed (.conn fd) => s.erase fd
  | _ => s

/-- The accepted connections that have not been closed. -/
def connections (log : List Event) : Finset Int := log.foldl connAfter ∅

theorem connAfter_off {e : Event} (h : e.OffConn) (s : Finset Int) : connAfter s e = s := by
  cases e with
  | opened d =>
    cases d with
    | conn fd => exact absurd rfl (h fd).1
    | _ => rfl
  | closed d =>
    cases d with
    | conn fd => exact absurd rfl (h fd).2
    | _ => rfl
  | _ => rfl

theorem connections_off {es : List Event} (h : ∀ e ∈ es, e.OffConn) (log : List Event) :
    connections (log ++ es) = connections log := by
  unfold connections
  rw [List.foldl_append]
  induction es generalizing log with
  | nil => rfl
  | cons e es ih =>
    obtain ⟨he, hes⟩ := List.forall_mem_cons.mp h
    rw [List.foldl_cons, connAfter_off he]
    exact ih hes log

theorem connections_concat (log : List Event) (e : Event) :
    connections (log ++ [e]) = connAfter (connections log) e := List.foldl_append

/-- The number belongs to an open descriptor. -/
def InUse (c : Setup) (p : Loop) (fd : Int) : Prop :=
  fd = c.servSock ∨ fd ∈ connections p.log ∨ fd ∈ p.others

instance (c : Setup) (p : Loop) (fd : Int) : Decidable (InUse c p fd) :=
  inferInstanceAs (Decidable (_ ∨ _))

/-- A number that `accept` returns is that of no open descriptor. -/
def AcceptsFree (c : Setup) (p : Loop) (others : Finset Int) : Input → Prop
  | .accept fd => fd < 0 ∨ ¬ InUse c p fd ∧ fd ∉ others
  | .read _ _ _ => True

instance (c : Setup) (p : Loop) (others : Finset Int) : DecidablePred (AcceptsFree c p others)
  | .accept fd => inferInstanceAs (Decidable (fd < 0 ∨ ¬ InUse c p fd ∧ fd ∉ others))
  | .read _ _ _ => isTrue trivial

/-- **What the kernel promises**: a descriptor that is opened gets a number that is not in use. -/
def Sane (c : Setup) (u : Visit) : Prop :=
  AcceptsFree c u.before u.after.others u.input ∧
    ∀ fd ∈ u.after.others, fd ∈ u.before.others ∨ ¬ InUse c u.before fd

instance (c : Setup) (u : Visit) : Decidable (Sane c u) := inferInstanceAs (Decidable (_ ∧ _))

/-! ## The registration -/

/-- **The registration**: `fs_status` is the listening socket and the accepted connections that have
not been closed, all of them numbers up to `maxfd`, and none of them another descriptor's. -/
structure Registered (c : Setup) (p : Loop) : Prop where
  fsStatus : p.vars.fsStatus = insert c.servSock (connections p.log)
  nonneg : ∀ fd ∈ p.vars.fsStatus, 0 ≤ fd
  maxfd : ∀ fd ∈ p.vars.fsStatus, fd ≤ p.vars.maxfd
  others : ∀ fd ∈ p.vars.fsStatus, fd ∉ p.others

theorem Loop.Start.registered {c : Setup} {p : Loop} (hserv : 0 ≤ c.servSock)
    (h : p.Start c) : Registered c p := by
  have hfs := h.vars.fsStatus
  have hmem : ∀ fd ∈ p.vars.fsStatus, fd = c.servSock := fun fd hfd =>
    Finset.mem_singleton.mp (hfs ▸ hfd)
  refine ⟨?_, fun fd hfd => ?_, fun fd hfd => ?_, fun fd hfd => ?_⟩
  · rw [hfs, h.log]
    rfl
  · rw [hmem fd hfd]
    exact hserv
  · rw [hmem fd hfd, h.vars.maxfd]
  · rw [hmem fd hfd]
    exact h.others

theorem Registered.inUse_iff {c : Setup} {p : Loop} (h : Registered c p) {fd : Int} :
    InUse c p fd ↔ fd ∈ p.vars.fsStatus ∨ fd ∈ p.others := by
  unfold InUse
  rw [h.fsStatus, Finset.mem_insert, or_assoc]

/-- The other descriptors stay off the registered ones. -/
theorem Registered.others_after {c : Setup} {u : Visit} (h : Registered c u.before)
    (hos : Sane c u) {fd : Int} (hfd : fd ∈ u.before.vars.fsStatus) : fd ∉ u.after.others := by
  intro hother
  rcases hos.2 fd hother with hb | hfree
  · exact h.others fd hfd hb
  · exact hfree (h.inUse_iff.mpr (Or.inl hfd))

/-! ## One visit -/

/-- What happens at a ready descriptor that is neither an `accept` that succeeds nor the end of a
connection. -/
def Quiet : Input → Prop
  | .accept fd => fd < 0
  | .read _ r _ => r ≠ some []

instance : DecidablePred Quiet
  | .accept fd => inferInstanceAs (Decidable (fd < 0))
  | .read _ r _ => inferInstanceAs (Decidable (r ≠ some []))

theorem serve_quiet {c : Setup} {v : Vars} {inp : Input} (h : Quiet inp) :
    SameFds v (serve c v inp).1 ∧ ∀ e ∈ (serve c v inp).2, e.OffConn := by
  cases inp with
  | accept fd =>
    rw [serve_failed h]
    exact ⟨SameFds.refl v, offConn_nil⟩
  | read i r o =>
    obtain ⟨hfds, hes⟩ := handle_off c o i (afterRead v r)
    rw [serve_message h]
    exact ⟨hfds, List.forall_mem_cons.mpr ⟨fun _ => ⟨Event.noConfusion, Event.noConfusion⟩, hes⟩⟩

/-- Whichever calls do not come back. -/
theorem stallServe_quiet (st : Stalls) {c : Setup} {v : Vars} {inp : Input} (h : Quiet inp) :
    SameFds v (stallServe st c v inp).1 ∧ ∀ e ∈ (stallServe st c v inp).2, e.OffConn := by
  obtain ⟨hfs, hmax, hes⟩ := stallServe_spec st c v inp
  obtain ⟨hfds, hoff⟩ := serve_quiet (c := c) (v := v) h
  exact ⟨⟨hfs.trans hfds.1, hmax.trans hfds.2⟩, fun e he => hoff e (hes e he)⟩

theorem stallServe_accepted {st : Stalls} {c : Setup} {v : Vars} {fd : Int} (h : ¬ fd < 0) :
    stallServe st c v (.accept fd) =
      ({ v with clientSock := fd, fsStatus := insert fd v.fsStatus, maxfd := max v.maxfd fd },
        [.opened (.conn fd)]) := by
  have hnone : ¬ StallsAt st c v (.accept fd) := id
  exact (stallServe_comes_back hnone).trans (serve_accepted h)

theorem stallServe_closed {st : Stalls} {c : Setup} {v : Vars} {i : Int} {r : Option Bytes}
    {o : Outcomes} (h : r = some []) :
    stallServe st c v (.read i r o) =
      ({ afterRead v r with fsStatus := v.fsStatus.erase i }, [.closed (.conn i)]) := by
  have hnone : ¬ StallsAt st c v (.read i r o) := fun hs => hs.1 h
  exact (stallServe_comes_back hnone).trans (serve_closed h)

/-- A visit keeps the registration, and every other number registered. -/
def KeepsOthers (c : Setup) (a : Answers) (i : Int) (p : Loop) : Prop :=
  Registered c (body c a i p) ∧ ∃ es, (body c a i p).log = p.log ++ es ∧
    ∀ fd ∈ p.vars.fsStatus, fd ≠ i →
      fd ∈ (body c a i p).vars.fsStatus ∧ ∀ e ∈ es, e.OffFd fd

section Body

variable {c : Setup} {a : Answers} {i : Int} {p : Loop}

/-- No connection comes or goes. -/
theorem body_quiet (h : Registered c p)
    (hothers : ∀ fd ∈ p.vars.fsStatus, fd ∉ (body c a i p).others) (hq : Quiet (inputAt c a i)) :
    KeepsOthers c a i p := by
  obtain ⟨⟨hfs, hmax⟩, hes⟩ := stallServe_quiet (a.stalls i) (c := c) (v := p.vars) hq
  have hfs' : (body c a i p).vars.fsStatus = p.vars.fsStatus := hfs
  have hmax' : (body c a i p).vars.maxfd = p.vars.maxfd := hmax
  refine ⟨⟨?_, ?_, ?_, ?_⟩, _, rfl, fun fd hfd _ => ⟨hfs'.symm ▸ hfd, fun e he => hes e he fd⟩⟩
  · rw [hfs', h.fsStatus]
    exact congrArg _ (connections_off hes p.log).symm
  · rw [hfs']
    exact h.nonneg
  · rw [hfs', hmax']
    exact h.maxfd
  · rw [hfs']
    exact hothers

/-- A connection is accepted. -/
theorem body_accepts (h : Registered c p)
    (hothers : ∀ fd ∈ p.vars.fsStatus, fd ∉ (body c a i p).others)
    (hinp : inputAt c a i = .accept a.accepted) (hpos : ¬ a.accepted < 0)
    (hfree : AcceptsFree c p (a.others i) (.accept a.accepted)) : KeepsOthers c a i p := by
  obtain ⟨huse, hother⟩ := hfree.resolve_left hpos
  have hbody : body c a i p =
      ⟨{ p.vars with clientSock := a.accepted, fsStatus := insert a.accepted p.vars.fsStatus,
                     maxfd := max p.vars.maxfd a.accepted }, a.others i,
        p.log ++ [.opened (.conn a.accepted)]⟩ := by
    unfold body
    rw [hinp, stallServe_accepted hpos]
  have hfs : (body c a i p).vars.fsStatus = insert a.accepted p.vars.fsStatus := by rw [hbody]
  have hmax : (body c a i p).vars.maxfd = max p.vars.maxfd a.accepted := by rw [hbody]
  have hlog : (body c a i p).log = p.log ++ [.opened (.conn a.accepted)] := by rw [hbody]
  refine ⟨⟨?_, ?_, ?_, ?_⟩, _, hlog, fun fd hfd _ => ⟨?_, ?_⟩⟩
  · rw [hfs, hlog, connections_concat, h.fsStatus]
    exact Finset.insert_comm _ _ _
  · rw [hfs]
    exact Finset.forall_mem_insert _ _ _ |>.mpr ⟨not_lt.mp hpos, h.nonneg⟩
  · rw [hfs, hmax]
    exact Finset.forall_mem_insert _ _ _ |>.mpr
      ⟨le_max_right _ _, fun fd hfd => (h.maxfd fd hfd).trans (le_max_left _ _)⟩
  · rw [hfs]
    exact Finset.forall_mem_insert _ _ _ |>.mpr ⟨hother, hothers⟩
  · rw [hfs]
    exact Finset.mem_insert_of_mem hfd
  · intro e he
    rw [List.mem_singleton.mp he]
    refine ⟨fun heq => huse (h.inUse_iff.mpr (Or.inl ?_)), Event.noConfusion⟩
    cases heq
    exact hfd

/-- A connection is closed. -/
theorem body_closes (h : Registered c p)
    (hothers : ∀ fd ∈ p.vars.fsStatus, fd ∉ (body c a i p).others) (hserv : i ≠ c.servSock)
    (hinp : inputAt c a i = .read i (a.got i) (a.outcomes i)) (hend : a.got i = some []) :
    KeepsOthers c a i p := by
  have hbody : body c a i p =
      ⟨{ afterRead p.vars (a.got i) with fsStatus := p.vars.fsStatus.erase i }, a.others i,
        p.log ++ [.closed (.conn i)]⟩ := by
    unfold body
    rw [hinp, stallServe_closed hend]
  have hfs : (body c a i p).vars.fsStatus = p.vars.fsStatus.erase i := by rw [hbody]
  have hmax : (body c a i p).vars.maxfd = p.vars.maxfd := by rw [hbody]; rfl
  have hlog : (body c a i p).log = p.log ++ [.closed (.conn i)] := by rw [hbody]
  refine ⟨⟨?_, fun fd hfd => ?_, fun fd hfd => ?_, fun fd hfd => ?_⟩, _, hlog,
    fun fd hfd hne => ⟨?_, ?_⟩⟩
  · rw [hfs, hlog, connections_concat, h.fsStatus]
    exact Finset.erase_insert_of_ne (Ne.symm hserv)
  · exact h.nonneg fd (Finset.mem_of_mem_erase (hfs ▸ hfd))
  · rw [hmax]
    exact h.maxfd fd (Finset.mem_of_mem_erase (hfs ▸ hfd))
  · exact hothers fd (Finset.mem_of_mem_erase (hfs ▸ hfd))
  · rw [hfs]
    exact Finset.mem_erase_of_ne_of_mem hne hfd
  · intro e he
    rw [List.mem_singleton.mp he]
    refine ⟨Event.noConfusion, fun heq => hne ?_⟩
    cases heq
    rfl

/-- **One visit** keeps the registration, and every other number registered. -/
theorem body_spec (h : Registered c p)
    (hos : Sane c ⟨i, inputAt c a i, a.stalls i, p, body c a i p⟩) :
    KeepsOthers c a i p := by
  have hothers : ∀ fd ∈ p.vars.fsStatus, fd ∉ (body c a i p).others := fun fd hfd =>
    h.others_after hos hfd
  by_cases hq : Quiet (inputAt c a i)
  · exact body_quiet h hothers hq
  · by_cases hserv : i = c.servSock
    · have hinp : inputAt c a i = .accept a.accepted := if_pos hserv
      have hfree : AcceptsFree c p (a.others i) (inputAt c a i) := hos.1
      rw [hinp] at hq hfree
      exact body_accepts h hothers hinp hq hfree
    · have hinp : inputAt c a i = .read i (a.got i) (a.outcomes i) := if_neg hserv
      rw [hinp] at hq
      exact body_closes h hothers hserv hinp (not_not.mp hq)

end Body

theorem EndsAt.quiet {st : Stalls} {c : Setup} {v : Vars} :
    ∀ {inp : Input}, EndsAt st c v inp → Quiet inp
  | .accept _, h => h.elim False.elim False.elim
  | .read _ _ _, h => h.elim And.left And.left

theorem body_maxfd_le (c : Setup) (a : Answers) (i : Int) (p : Loop) :
    (body c a i p).vars.maxfd ≤ max p.vars.maxfd a.accepted := by
  by_cases hq : Quiet (inputAt c a i)
  · have hsame : (body c a i p).vars.maxfd = p.vars.maxfd := (stallServe_quiet (a.stalls i) hq).1.2
    rw [hsame]
    exact le_max_left _ _
  · unfold body
    unfold inputAt at hq ⊢
    by_cases hserv : i = c.servSock
    · rw [if_pos hserv] at hq ⊢
      rw [stallServe_accepted hq]
    · rw [if_neg hserv] at hq ⊢
      rw [stallServe_closed (not_not.mp hq)]
      exact le_max_left _ _

/-! ## One pass -/

section Pass

variable {c : Setup} {a : Answers} {copyFs : Finset Int} {p₀ p : Loop} {i : Int} {n : Nat}

theorem forLoop_visit (hrun : p.vars.running = true) (hlt : i < p.vars.maxfd + 1)
    (hi : i ∈ copyFs) :
    forLoop c a copyFs (n + 1) i p =
      (⟨i, inputAt c a i, a.stalls i, p, body c a i p⟩ ::
          (forLoop c a copyFs n (i + 1) (body c a i p)).1,
        (forLoop c a copyFs n (i + 1) (body c a i p)).2) := by
  rw [forLoop, if_pos ⟨hrun, hlt⟩, if_pos hi]

theorem forLoop_skip (hrun : p.vars.running = true) (hlt : i < p.vars.maxfd + 1)
    (hi : i ∉ copyFs) :
    forLoop c a copyFs (n + 1) i p = forLoop c a copyFs n (i + 1) p := by
  rw [forLoop, if_pos ⟨hrun, hlt⟩, if_neg hi]

theorem forLoop_stop (h : ¬ (p.vars.running = true ∧ i < p.vars.maxfd + 1)) :
    forLoop c a copyFs n i p = ([], p) := by
  cases n with
  | zero => rfl
  | succ n => rw [forLoop, if_neg h]

/-- **The induction over the `for` loop**: its state and its visits have what the end of the loop
has, and what each visit passes on. -/
theorem forLoop_induct {P : Int → Loop → List Visit × Loop → Prop}
    (hend : ∀ i p, P i p ([], p))
    (hskip : ∀ i p r, i ∉ copyFs → P (i + 1) p r → P i p r)
    (hvisit : ∀ i p r, p.vars.running = true → i ∈ copyFs → P (i + 1) (body c a i p) r →
      P i p (⟨i, inputAt c a i, a.stalls i, p, body c a i p⟩ :: r.1, r.2)) :
    ∀ (n : Nat) (i : Int) (p : Loop), P i p (forLoop c a copyFs n i p)
  | 0, i, p => hend i p
  | n + 1, i, p => by
    by_cases h : p.vars.running = true ∧ i < p.vars.maxfd + 1
    · by_cases hi : i ∈ copyFs
      · rw [forLoop_visit h.1 h.2 hi]
        exact hvisit i p _ h.1 hi (forLoop_induct hend hskip hvisit n (i + 1) (body c a i p))
      · rw [forLoop_skip h.1 h.2 hi]
        exact hskip i p _ hi (forLoop_induct hend hskip hvisit n (i + 1) p)
    · rw [forLoop_stop h]
      exact hend i p

/-- The numbers that are visited: each once, in increasing order. -/
theorem forLoop_order (n : Nat) (i : Int) (p : Loop) :
    (∀ u ∈ (forLoop c a copyFs n i p).1, i ≤ u.fd) ∧
      ((forLoop c a copyFs n i p).1.map Visit.fd).Pairwise (· < ·) := by
  refine forLoop_induct (P := fun i _ r => (∀ u ∈ r.1, i ≤ u.fd) ∧
    (r.1.map Visit.fd).Pairwise (· < ·)) ?_ ?_ ?_ n i p
  · exact fun i p => ⟨fun _ hu => absurd hu List.not_mem_nil, List.Pairwise.nil⟩
  · exact fun i p r _ ih => ⟨fun u hu => by have := ih.1 u hu; omega, ih.2⟩
  · rintro i p r - - ⟨hge, hpair⟩
    refine ⟨List.forall_mem_cons.mpr ⟨le_refl i, fun u hu => ?_⟩,
      List.pairwise_cons.mpr ⟨fun fd hfd => ?_, hpair⟩⟩
    · have := hge u hu
      omega
    · obtain ⟨u, hu, rfl⟩ := List.mem_map.mp hfd
      exact Int.lt_of_add_one_le (hge u hu)

/-- The loop at `i`, in a pass that began at `p₀`: what is ahead is registered, and none of it has
been opened or closed since. -/
structure Scanning (c : Setup) (copyFs : Finset Int) (p₀ : Loop) (i : Int) (p : Loop) :
    Prop where
  registered : Registered c p
  ahead : ∀ fd ∈ copyFs, i ≤ fd → fd ∈ p.vars.fsStatus
  since : ∃ es, p.log = p₀.log ++ es ∧ ∀ fd ∈ copyFs, i ≤ fd → ∀ e ∈ es, e.OffFd fd

theorem Scanning.skip (h : Scanning c copyFs p₀ i p) : Scanning c copyFs p₀ (i + 1) p := by
  obtain ⟨es, hlog, hoff⟩ := h.since
  exact ⟨h.registered, fun fd hfd hle => h.ahead fd hfd (by omega), es, hlog,
    fun fd hfd hle => hoff fd hfd (by omega)⟩

theorem Scanning.visit (h : Scanning c copyFs p₀ i p)
    (hos : Sane c ⟨i, inputAt c a i, a.stalls i, p, body c a i p⟩) :
    Scanning c copyFs p₀ (i + 1) (body c a i p) := by
  obtain ⟨es, hlog, hoff⟩ := h.since
  obtain ⟨hreg, es', hlog', hoff'⟩ := body_spec h.registered hos
  refine ⟨hreg, fun fd hfd hle => ?_, es ++ es', by rw [hlog', hlog, List.append_assoc],
    fun fd hfd hle e he => ?_⟩
  · exact (hoff' fd (h.ahead fd hfd (by omega)) (by omega)).1
  · rcases List.mem_append.mp he with he | he
    · exact hoff fd hfd (by omega) e he
    · exact (hoff' fd (h.ahead fd hfd (by omega)) (by omega)).2 e he

/-- **A visit in good order**, in a pass that began at `p₀`: the registration is kept before it and
after it, and it is of the listening socket or of the connection that was reported: one that is
registered, and not opened or closed since. -/
structure Kept (c : Setup) (p₀ : Loop) (u : Visit) : Prop where
  before : Registered c u.before
  after : Registered c u.after
  registered : u.fd ∈ u.before.vars.fsStatus
  since : ∃ es, u.before.log = p₀.log ++ es ∧ ∀ e ∈ es, e.OffFd u.fd

/-- **Every visit is in good order.** -/
theorem forLoop_scans (h : Scanning c copyFs p₀ i p)
    (hos : ∀ u ∈ (forLoop c a copyFs n i p).1, Sane c u) :
    Registered c (forLoop c a copyFs n i p).2 ∧
      ∀ u ∈ (forLoop c a copyFs n i p).1, Kept c p₀ u := by
  refine forLoop_induct (P := fun i p r => Scanning c copyFs p₀ i p → (∀ u ∈ r.1, Sane c u) →
    Registered c r.2 ∧ ∀ u ∈ r.1, Kept c p₀ u) ?_ ?_ ?_ n i p h hos
  · exact fun i p h _ => ⟨h.registered, fun _ hu => absurd hu List.not_mem_nil⟩
  · exact fun i p r _ ih h => ih h.skip
  · intro i p r _ hi ih h hos
    obtain ⟨hnow, hlater⟩ := List.forall_mem_cons.mp hos
    have hnext := h.visit hnow
    obtain ⟨hend, hkept⟩ := ih hnext hlater
    obtain ⟨es, hlog, hoff⟩ := h.since
    exact ⟨hend, List.forall_mem_cons.mpr ⟨⟨h.registered, hnext.registered,
      h.ahead i hi (le_refl i), es, hlog, hoff i hi (le_refl i)⟩, hkept⟩⟩

/-- The loop ends there: the message handled there ends the process, or a call in its handling does
not come back. -/
def Visit.Ends (c : Setup) (u : Visit) : Prop := EndsAt u.stalls c u.before.vars u.input

/-- **The visit at which the loop ends is the last one.** -/
theorem forLoop_last {u w : Visit} (hu : u ∈ (forLoop c a copyFs n i p).1) (hends : u.Ends c)
    (hw : w ∈ (forLoop c a copyFs n i p).1) : w.fd ≤ u.fd := by
  induction n generalizing i p with
  | zero => exact absurd hu List.not_mem_nil
  | succ n ih =>
    by_cases h : p.vars.running = true ∧ i < p.vars.maxfd + 1
    · by_cases hi : i ∈ copyFs
      · have hge : ∀ u ∈ (forLoop c a copyFs n (i + 1) (body c a i p)).1, i + 1 ≤ u.fd :=
          (forLoop_order n (i + 1) (body c a i p)).1
        rw [forLoop_visit h.1 h.2 hi] at hu hw
        rcases List.mem_cons.mp hu with rfl | hu
        · have hdead : (body c a i p).vars.running = false :=
            (stallServe_ends_iff h.1 (inputAt c a i)).mpr hends
          have hstop : forLoop c a copyFs n (i + 1) (body c a i p) = ([], body c a i p) :=
            forLoop_stop fun hlive => Bool.noConfusion (hdead.symm.trans hlive.1)
          rw [hstop] at hw
          rw [List.mem_singleton.mp hw]
        · rcases List.mem_cons.mp hw with rfl | hw
          · exact (Int.le_add_one (le_refl i)).trans (hge u hu)
          · exact ih hu hw
      · rw [forLoop_skip h.1 h.2 hi] at hu hw
        exact ih hu hw
    · rw [forLoop_stop h] at hu
      exact absurd hu List.not_mem_nil

/-- **What is ready is visited**, unless the loop ends at a visit before it. -/
theorem forLoop_serves {m : Int} (h : Scanning c copyFs p₀ i p) (hrun : p.vars.running = true)
    (hmax : p.vars.maxfd ≤ m) (hacc : a.accepted ≤ m) (hn : (m + 1 - i).toNat ≤ n)
    (hos : ∀ u ∈ (forLoop c a copyFs n i p).1, Sane c u) {fd : Int} (hfd : fd ∈ copyFs)
    (hle : i ≤ fd) :
    (∃ u ∈ (forLoop c a copyFs n i p).1, u.fd = fd) ∨
      ∃ u ∈ (forLoop c a copyFs n i p).1, u.Ends c ∧ u.fd < fd := by
  have hfdmax : fd ≤ p.vars.maxfd := h.registered.maxfd fd (h.ahead fd hfd hle)
  induction n generalizing i p with
  | zero => omega
  | succ n ih =>
    have hlt : i < p.vars.maxfd + 1 := by omega
    by_cases hi : i ∈ copyFs
    · rw [forLoop_visit hrun hlt hi] at hos ⊢
      obtain ⟨hnow, hlater⟩ := List.forall_mem_cons.mp hos
      rcases hle.eq_or_lt with rfl | hlt'
      · exact Or.inl ⟨_, List.mem_cons_self, rfl⟩
      · cases hlive : (body c a i p).vars.running with
        | false =>
          have hends := (stallServe_ends_iff hrun (inputAt c a i)).mp hlive
          exact Or.inr ⟨_, List.mem_cons_self, hends, hlt'⟩
        | true =>
          have hnext := h.visit hnow
          have hmax' : (body c a i p).vars.maxfd ≤ m :=
            (body_maxfd_le c a i p).trans (max_le hmax hacc)
          have hfdmax' : fd ≤ (body c a i p).vars.maxfd :=
            hnext.registered.maxfd fd (hnext.ahead fd hfd hlt')
          refine (ih hnext hlive hmax' (by omega) hlater hlt' hfdmax').imp ?_ ?_
          · exact fun ⟨u, hu, heq⟩ => ⟨u, List.mem_cons_of_mem _ hu, heq⟩
          · exact fun ⟨u, hu, hends⟩ => ⟨u, List.mem_cons_of_mem _ hu, hends⟩
    · have hne : i ≠ fd := fun heq => hi (heq ▸ hfd)
      rw [forLoop_skip hrun hlt hi] at hos ⊢
      exact ih h.skip hrun hmax (by omega) hos (by omega) hfdmax

/-- What a visit gives to the step. -/
def Visit.step (u : Visit) : Input × Stalls := (u.input, u.stalls)

/-- Between two visits nothing happens: the loop is the run of `stallStep` on what it visits. -/
theorem forLoop_final (n : Nat) (i : Int) (p : Loop) :
    (forLoop c a copyFs n i p).2.vars =
      final (stallStep c) p.vars ((forLoop c a copyFs n i p).1.map Visit.step) := by
  refine forLoop_induct
    (P := fun _ p r => r.2.vars = final (stallStep c) p.vars (r.1.map Visit.step))
    ?_ ?_ ?_ n i p
  · exact fun _ _ => rfl
  · exact fun _ _ _ _ ih => ih
  · intro i p r hrun _ ih
    have hstep : stallStep c p.vars (inputAt c a i, a.stalls i) =
        stallServe (a.stalls i) c p.vars (inputAt c a i) := if_pos hrun
    rw [List.map_cons, final]
    show _ = final (stallStep c) (stallStep c p.vars (inputAt c a i, a.stalls i)).1 _
    rw [hstep]
    exact ih

end Pass

/-- **A pass in good order**: its visits are, each number is visited once, and what is ready is
visited. -/
structure InOrder (c : Setup) (s : Pass) : Prop where
  visits : ∀ u ∈ s.visits, Kept c s.before u
  once : (s.visits.map Visit.fd).Pairwise (· < ·)
  served : ∀ fd ∈ s.copyFs, ∃ u ∈ s.visits, u.fd = fd

/-- The loop ends, and there is a ready descriptor behind it. -/
def CutShort (c : Setup) (s : Pass) : Prop :=
  ∃ u ∈ s.visits, u.Ends c ∧ ∃ fd ∈ s.copyFs, u.fd < fd

theorem round_ready {c : Setup} {p : Loop} (hrun : p.vars.running = true) (set : Finset Int)
    (a : Answers) :
    round c p (.ready set a) =
      ((forLoop c a (p.vars.fsStatus ∩ set) (times a p) 0 p).2,
        [⟨p, p.vars.fsStatus ∩ set, (forLoop c a (p.vars.fsStatus ∩ set) (times a p) 0 p).1,
          (forLoop c a (p.vars.fsStatus ∩ set) (times a p) 0 p).2⟩]) := if_pos hrun

theorem round_ended {c : Setup} {p : Loop} (hrun : p.vars.running ≠ true) (set : Finset Int)
    (a : Answers) : round c p (.ready set a) = (p, []) := if_neg hrun

/-- **One time around** keeps the registration, with all its visits in good order; its pass is, if
it is not cut short. -/
theorem round_spec {c : Setup} {p : Loop} (h : Registered c p) (sel : Selected)
    (hos : ∀ s ∈ (round c p sel).2, ∀ u ∈ s.visits, Sane c u) :
    Registered c (round c p sel).1 ∧ ∀ s ∈ (round c p sel).2,
      (∀ u ∈ s.visits, Kept c s.before u) ∧ (InOrder c s ↔ ¬ CutShort c s) := by
  cases sel with
  | error => exact ⟨h, fun _ hs => absurd hs List.not_mem_nil⟩
  | timeOver => exact ⟨h, fun _ hs => absurd hs List.not_mem_nil⟩
  | ready set a =>
    by_cases hrun : p.vars.running = true
    · rw [round_ready hrun] at hos ⊢
      have hos' := hos _ List.mem_cons_self
      have hin : ∀ fd ∈ p.vars.fsStatus ∩ set, fd ∈ p.vars.fsStatus := fun _ hfd =>
        (Finset.mem_inter.mp hfd).1
      have hscan : Scanning c (p.vars.fsStatus ∩ set) p 0 p :=
        ⟨h, fun fd hfd _ => hin fd hfd, [], (List.append_nil _).symm,
          fun _ _ _ _ he => absurd he List.not_mem_nil⟩
      obtain ⟨hend, hkept⟩ := forLoop_scans hscan hos'
      refine ⟨hend, fun s hs => ?_⟩
      rw [List.mem_singleton.mp hs]
      refine ⟨hkept, fun hin => ?_, fun hcut => ?_⟩
      · rintro ⟨u, hu, hends, fd, hfd, hlt⟩
        obtain ⟨w, hw, rfl⟩ := hin.served fd hfd
        exact absurd (forLoop_last hu hends hw) (not_le.mpr hlt)
      · refine ⟨hkept, (forLoop_order _ _ _).2, fun fd hfd => ?_⟩
        have hbound : (max p.vars.maxfd a.accepted + 1 - 0).toNat ≤ times a p := by
          rw [Int.sub_zero]
          exact le_refl _
        refine (forLoop_serves hscan hrun (le_max_left _ _) (le_max_right _ _) hbound hos' hfd
          (h.nonneg fd (hin fd hfd))).resolve_right ?_
        rintro ⟨u, hu, hends, hlt⟩
        exact hcut ⟨u, hu, hends, fd, hfd, hlt⟩
    · rw [round_ended hrun]
      exact ⟨h, fun _ hs => absurd hs List.not_mem_nil⟩

/-! ## Runs -/

/-- What the passes of a run visit. -/
def visited (ts : List (Taken Loop Selected Pass)) : List (Input × Stalls) :=
  ts.flatMap fun t => t.events.flatMap fun s => s.visits.map Visit.step

/-- **A run of the loop is a run of `stallStep`** on what its passes visit. -/
theorem round_final (c : Setup) :
    ∀ (sels : List Selected) (p : Loop),
      (final (round c) p sels).vars =
        final (stallStep c) p.vars (visited (trace (round c) p sels))
  | [], _ => rfl
  | sel :: sels, p => by
    have hone : (round c p sel).1.vars = final (stallStep c) p.vars
        ((round c p sel).2.flatMap fun s => s.visits.map Visit.step) := by
      cases sel with
      | error => rfl
      | timeOver => rfl
      | ready set a =>
        by_cases hrun : p.vars.running = true
        · rw [round_ready hrun, List.flatMap_singleton]
          exact forLoop_final _ _ _
        · rw [round_ended hrun]
          rfl
    rw [final, trace, visited, List.flatMap_cons, final_append, ← hone]
    exact round_final c sels (round c p sel).1

section Run

variable {c : Setup} {p₀ : Loop} {sels : List Selected}

/-- What each time around is like, in a run. -/
theorem run_spec (hserv : 0 ≤ c.servSock) (h₀ : p₀.Start c)
    (hos : ∀ t ∈ trace (round c) p₀ sels, ∀ s ∈ t.events, ∀ u ∈ s.visits, Sane c u) :
    Registered c (final (round c) p₀ sels) ∧ ∀ t ∈ trace (round c) p₀ sels,
      Registered c t.before ∧ ∀ s ∈ t.events,
        (∀ u ∈ s.visits, Kept c s.before u) ∧ (InOrder c s ↔ ¬ CutShort c s) := by
  have hsane : ∀ t ∈ trace (round c) p₀ sels,
      ∀ s ∈ (round c t.before t.input).2, ∀ u ∈ s.visits, Sane c u := fun t ht =>
    events_of_mem_trace ht ▸ hos t ht
  have hkeep : ∀ p sel, Registered c p →
      (∀ s ∈ (round c p sel).2, ∀ u ∈ s.visits, Sane c u) → Registered c (round c p sel).1 :=
    fun p sel hp hos => (round_spec hp sel hos).1
  refine ⟨final_inv hkeep sels p₀ (h₀.registered hserv) hsane, ?_⟩
  exact forall_trace
    (P := fun p _ ss => Registered c p ∧ ∀ s ∈ ss,
      (∀ u ∈ s.visits, Kept c s.before u) ∧ (InOrder c s ↔ ¬ CutShort c s))
    (fun p sel hp hos => ⟨hkeep p sel hp hos, hp, (round_spec hp sel hos).2⟩) sels p₀
    (h₀.registered hserv) hsane

/-- **The registration is never broken**, whatever the messages: neither at any time around, nor
before or after any visit, and no visit is of a connection that was closed in its pass. -/
theorem registration_kept (hserv : 0 ≤ c.servSock) (h₀ : p₀.Start c)
    (hos : ∀ t ∈ trace (round c) p₀ sels, ∀ s ∈ t.events, ∀ u ∈ s.visits, Sane c u) :
    Registered c (final (round c) p₀ sels) ∧ ∀ t ∈ trace (round c) p₀ sels,
      Registered c t.before ∧ ∀ s ∈ t.events, ∀ u ∈ s.visits, Kept c s.before u := by
  obtain ⟨hfinal, hall⟩ := run_spec hserv h₀ hos
  exact ⟨hfinal, fun t ht => ⟨(hall t ht).1, fun s hs => ((hall t ht).2 s hs).1⟩⟩

end Run

/-- **The registration**, over every run of the loop and whatever numbers the kernel hands out, as
long as they are not in use: it is kept at any time, and every pass is in good order and visits what
is ready exactly where no pass is cut short. -/
theorem registration_iff (c : Setup) (hserv : 0 ≤ c.servSock) (p₀ : Loop) (h₀ : p₀.Start c)
    (sels : List Selected)
    (hos : ∀ t ∈ trace (round c) p₀ sels, ∀ s ∈ t.events, ∀ u ∈ s.visits, Sane c u) :
    (Registered c (final (round c) p₀ sels) ∧ ∀ t ∈ trace (round c) p₀ sels,
      Registered c t.before ∧ ∀ s ∈ t.events, InOrder c s) ↔
      ∀ t ∈ trace (round c) p₀ sels, ∀ s ∈ t.events, ¬ CutShort c s := by
  obtain ⟨hfinal, hall⟩ := run_spec hserv h₀ hos
  constructor
  · intro h t ht s hs
    exact ((hall t ht).2 s hs).2.mp ((h.2 t ht).2 s hs)
  · intro h
    exact ⟨hfinal, fun t ht => ⟨(hall t ht).1, fun s hs =>
      ((hall t ht).2 s hs).2.mpr (h t ht s hs)⟩⟩

/-- Two servers, the standard streams being open. -/
def started : Loop := ⟨startVars (some sampleConfig), {0, 1, 2}, []⟩

theorem started_start : started.Start (twoServers sampleJson) :=
  ⟨startVars_start _ _ _ _, by decide, rfl⟩

/-- `accept` returns `fd`, and the reads return this; every call comes back. -/
def answersOf (fd : Int) (got : Int → Option Bytes) : Answers :=
  ⟨fd, got, fun _ => allOk, fun _ => noStalls, fun _ => {0, 1, 2}⟩

/-- Two clients are accepted; then both have something to say, the first a text that is not JSON. -/
def garbageFirst : List Selected :=
  [.ready {3} (answersOf 4 fun _ => none), .ready {3} (answersOf 5 fun _ => none),
    .ready {4, 5} (answersOf 6 fun _ => some (ascii "hello"))]

/-- The second one is not served. -/
theorem second_not_served :
    started.Start (twoServers sampleJson) ∧
      (∀ t ∈ trace (round (twoServers sampleJson)) started garbageFirst, ∀ s ∈ t.events,
        ∀ u ∈ s.visits, Sane (twoServers sampleJson) u) ∧
      ∃ t ∈ trace (round (twoServers sampleJson)) started garbageFirst, ∃ s ∈ t.events,
        ¬ InOrder (twoServers sampleJson) s := by
  have hskipped : ∃ t ∈ trace (round (twoServers sampleJson)) started garbageFirst,
      ∃ s ∈ t.events, (5 : Int) ∈ s.copyFs ∧ ∀ u ∈ s.visits, u.fd ≠ 5 := by decide +kernel
  obtain ⟨t, ht, s, hs, hfive, hnone⟩ := hskipped
  refine ⟨started_start, by decide +kernel, t, ht, s, hs, fun h => ?_⟩
  obtain ⟨u, hu, heq⟩ := h.served 5 hfive
  exact hnone u hu heq

/-- A client is accepted, and another one while the first one leaves; then a third gets the first
one's number, while the second asks. -/
def numberReused : List Selected :=
  [.ready {3} (answersOf 4 fun _ => none), .ready {3, 4} (answersOf 5 fun _ => some []),
    .ready {3, 5} (answersOf 4 fun _ => some (userText ++ [0])), .timeOver]

/-- All of them are served in good order. -/
theorem registration_reused :
    (∀ t ∈ trace (round (twoServers sampleJson)) started numberReused, ∀ s ∈ t.events,
        ∀ u ∈ s.visits, Sane (twoServers sampleJson) u) ∧
      Registered (twoServers sampleJson) (final (round (twoServers sampleJson)) started
        numberReused) ∧
      ∀ t ∈ trace (round (twoServers sampleJson)) started numberReused,
        Registered (twoServers sampleJson) t.before ∧
          ∀ s ∈ t.events, InOrder (twoServers sampleJson) s := by
  have hos : ∀ t ∈ trace (round (twoServers sampleJson)) started numberReused, ∀ s ∈ t.events,
      ∀ u ∈ s.visits, Sane (twoServers sampleJson) u := by decide +kernel
  have hlast : ∀ t ∈ trace (round (twoServers sampleJson)) started numberReused, ∀ s ∈ t.events,
      ∀ u ∈ s.visits, Quiet u.input → ∀ fd ∈ s.copyFs, fd ≤ u.fd := by decide +kernel
  refine ⟨hos, (registration_iff (twoServers sampleJson) (by decide) started started_start
    numberReused hos).mpr fun t ht s hs => ?_⟩
  rintro ⟨u, hu, hends, fd, hfd, hlt⟩
  exact absurd (hlast t ht s hs u hu hends.quiet fd hfd) (not_le.mpr hlt)

end JcmController.Controller
