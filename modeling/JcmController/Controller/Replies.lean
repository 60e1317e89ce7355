import JcmController.Controller.Stalls

/-!
# One reply to each configuration

The sender of a configuration waits for its reply. The handler writes it at its end: a call in front
of it need not come back, the connection may have been reset, and the gates behind the handler write
on it once more, if it is `client_sock`.

* `upTo`: what is done up to a call that does not come back.
* `setConfig_upTo`, `gates_upTo`: what is written on the connection up to there.
* **`config_answered_iff`**: when that is one text, and the one that the `insmod` calls for.
-/

namespace JcmController.Controller

open JcmController.Lib

/-! ## Up to a call that does not come back -/

/-- What is done up to such a call. -/
def upTo (st : Stalls) (es : List Event) : List Event := es.takeWhile fun e => !st.stops e

section UpTo

variable {st : Stalls} {es : List Event}

theorem upTo_cons_stop {e : Event} (h : st.stops e = true) : upTo st (e :: es) = [] :=
  List.takeWhile_cons_of_neg (by simp [h])

theorem upTo_cons_go {e : Event} (h : ¬ st.stops e = true) :
    upTo st (e :: es) = e :: upTo st es :=
  List.takeWhile_cons_of_pos (by simp [h])

theorem upTo_append (h : ¬ Hangs st es) (es' : List Event) :
    upTo st (es ++ es') = es ++ upTo st es' := by
  refine List.takeWhile_append_of_pos fun e he => ?_
  rw [Bool.not_eq_true', Bool.eq_false_iff]
  exact fun hs => h ⟨e, he, hs⟩

theorem upTo_eq (h : ¬ Hangs st es) : upTo st es = es := by
  have hnil := upTo_append h []
  rw [List.append_nil] at hnil
  exact hnil.trans (List.append_nil es)

/-- What stands behind the call is not done. -/
theorem upTo_append_hangs (h : Hangs st es) (es' : List Event) :
    upTo st (es ++ es') = upTo st es := by
  induction es with
  | nil => exact absurd h hangs_nil
  | cons e es ih =>
    by_cases hs : st.stops e = true
    · rw [List.cons_append, upTo_cons_stop hs, upTo_cons_stop hs]
    · rw [List.cons_append, upTo_cons_go hs, upTo_cons_go hs,
        ih ((hangs_cons.mp h).resolve_left hs)]

theorem mem_of_mem_upTo {e : Event} (h : e ∈ upTo st es) : e ∈ es :=
  (List.takeWhile_sublist _).subset h

theorem stallServe_events (c : Setup) (v : Vars) (inp : Input) :
    (stallServe st c v inp).2 = upTo st (serve c v inp).2 := by
  unfold stallServe
  by_cases h : Hangs st (serve c v inp).2
  · simp only [if_pos h]
    rfl
  · simp only [if_neg h]
    exact (upTo_eq h).symm

/-! ## What is written up to there -/

theorem writesOn_upTo_silent {i : Int} (h : ∀ e ∈ es, e.Silent) : writesOn i (upTo st es) = [] :=
  writesOn_silent fun e he => h e (mem_of_mem_upTo he)

/-- The activation writes on no connection that was accepted. -/
theorem writesOn_activation {i : Int} (h : ∀ e ∈ es, e.OfActivation) : writesOn i es = [] := by
  refine List.filterMap_eq_nil_iff.mpr fun e he => ?_
  rcases h e he with ⟨_, _, _, rfl⟩ | hsender
  · rfl
  · cases e with
    | reply j msg => exact hsender.elim
    | verdict fd msg => exact hsender.elim
    | _ => rfl

/-- Verdicts are written up to the first that is not got rid of. -/
theorem writesOn_upTo_verdicts {i fd : Int} (h : ∀ e ∈ es, ∃ text, e = .verdict fd text) :
    writesOn i (upTo st es) =
      if fd = i then (verdicts es).takeWhile fun text => !st.verdict text else [] := by
  induction es with
  | nil => exact (ite_self _).symm
  | cons e es ih =>
    obtain ⟨⟨text, rfl⟩, hes⟩ := List.forall_mem_cons.mp h
    have hstop : st.stops (.verdict fd text) = st.verdict text := rfl
    have htexts : verdicts (.verdict fd text :: es) = text :: verdicts es := rfl
    rw [htexts]
    by_cases hs : st.verdict text = true
    · rw [upTo_cons_stop (hstop.trans hs), List.takeWhile_cons_of_neg (by simp [hs])]
      exact (ite_self _).symm
    · have hgo : ¬ st.stops (.verdict fd text) = true := fun h => hs (hstop.symm.trans h)
      rw [upTo_cons_go hgo, List.takeWhile_cons_of_pos (by simp [hs]), ← List.singleton_append,
        writesOn_append, ih hes]
      by_cases hfd : fd = i
      · simp [writesOn, hfd]
      · simp [writesOn, hfd]

/-- **The handler's answer is written** where the handler comes to its end, and no call of it,
that `write` among them, is one that does not come back. -/
theorem setConfig_upTo (c : Setup) (o : Outcomes) (i : Int) (v : Vars) :
    writesOn i (upTo st (setConfig c o i v).events) =
      if (setConfig c o i v).exit = .go ∧ ¬ Hangs st (setConfig c o i v).events then [successText]
      else [] := by
  obtain ⟨es, hes, heq⟩ := setConfig_events c o i v
  by_cases hstop : Hangs st es
  · have hhangs : Hangs st (setConfig c o i v).events := heq ▸ hangs_append.mpr (Or.inl hstop)
    rw [if_neg fun h => h.2 hhangs, heq, upTo_append_hangs hstop, writesOn_upTo_silent hes]
  · by_cases hgo : (setConfig c o i v).exit = .go
    · rw [if_pos hgo] at heq
      have hreply : st.stops (.reply i successText) = st.reply := rfl
      have hhangs : Hangs st (setConfig c o i v).events ↔ st.reply = true := by
        rw [heq, hangs_append, or_iff_right hstop, hangs_singleton, hreply]
      have hwritten : writesOn i (upTo st (setConfig c o i v).events) =
          writesOn i (upTo st [.reply i successText]) := by
        rw [heq, upTo_append hstop, writesOn_append, writesOn_silent hes, List.nil_append]
      rw [hwritten]
      cases hr : st.reply with
      | false =>
        rw [if_pos ⟨hgo, fun h => Bool.noConfusion (hr.symm.trans (hhangs.mp h))⟩,
          upTo_cons_go (by simp [hreply, hr])]
        simp [upTo, writesOn]
      | true =>
        rw [if_neg fun h => h.2 (hhangs.mpr hr), upTo_cons_stop (hreply.trans hr)]
        rfl
    · rw [if_neg hgo, List.append_nil] at heq
      rw [if_neg fun h => hgo h.1, heq, writesOn_upTo_silent hes]

/-! ## The gates -/

/-- The gates write on `client_sock`: the activation comes back, and then the first verdict is got
rid of. `remote` is what `dmbd_config` holds. -/
def GatesWrite (st : Stalls) (c : Setup) (o : Outcomes) (v : Vars)
    (remote : List DmbdConfigRemote) : Prop :=
  ¬ (v.count = c.serverLen - 1 ∧ StallsActivation st c o v remote) ∧
    if Loaded c o v then st.success = false else v.unsuccessFlag = 1 ∧ st.unsuccess = false

theorem gatesWrite_congr {c : Setup} {o : Outcomes} {v w : Vars} (h : SameRound v w)
    (remote : List DmbdConfigRemote) : GatesWrite st c o w remote ↔ GatesWrite st c o v remote := by
  obtain ⟨hl, _, _⟩ := h.gates (c := c) o
  unfold GatesWrite StallsActivation
  rw [h.count, h.unsuccessFlag]
  simp only [hl]

/-- Of the verdicts of the gates some is written just in case the first one is. -/
theorem gateVerdicts_upTo (c : Setup) (o : Outcomes) (v : Vars) :
    ((gateVerdicts c o v).takeWhile fun text => !st.verdict text) = [] ↔
      ¬ if Loaded c o v then st.success = false
        else v.unsuccessFlag = 1 ∧ st.unsuccess = false := by
  have hsuccess : st.verdict (ascii "success") = st.success := if_pos rfl
  have hunsuccess : st.verdict (ascii "unsuccess" ++ [0]) = st.unsuccess := if_neg (by decide)
  unfold gateVerdicts
  by_cases hl : Loaded c o v
  · simp [hl, hsuccess, List.takeWhile_cons]
  · by_cases hu : v.unsuccessFlag = 1
    · simp [hl, hu, hunsuccess, List.takeWhile_cons]
    · simp [hl, hu]

/-- **What the gates write**, where `dmbd_config` can be read. -/
theorem gates_upTo {c : Setup} {o : Outcomes} {v : Vars} {remote : List DmbdConfigRemote}
    (hread : readDMBDRemote c.json v.dmbdConfig = some remote) (i : Int) :
    writesOn i (upTo st (gates c o v).events) = [] ↔
      (v.clientSock = i → ¬ GatesWrite st c o v remote) := by
  have hreadable : Readable c v := Option.isSome_iff_exists.mpr ⟨remote, hread⟩
  have hgo := (countGate_spec (c := c) (o := o) (v := v) fun _ => hreadable).1
  have hcount : Hangs st (countGate c o v).events ↔
      v.count = c.serverLen - 1 ∧ StallsActivation st c o v remote := by
    rw [hangs_countGate, hread]
    simp only [Option.some.injEq, exists_eq_left']
  have hnone : ∀ e ∈ (countGate c o v).events, e.OfActivation := fun _ he => mem_countGate he
  have hverdict : ∀ fd msg, .verdict fd msg ∈ (gates c o v).events → fd = v.clientSock :=
    fun _ _ => gates_verdict
  have hwritten := gates_verdicts c o v
  rw [if_pos fun _ => hreadable] at hwritten
  have hassoc : gates c o v =
      (countGate c o v).andThen fun w => (nbdGate c w).andThen unsuccessGate :=
    Done.andThen_assoc _ _ _
  rw [hassoc, Done.andThen_go hgo] at hverdict hwritten ⊢
  have hall : ∀ e ∈ ((nbdGate c (countGate c o v).state).andThen unsuccessGate).events,
      ∃ text, e = .verdict v.clientSock text := by
    intro e he
    have hone : ∃ fd text, e = .verdict fd text := by
      rcases Done.mem_andThen.mp he with h | ⟨_, h⟩
      · exact ⟨_, _, mem_nbdGate h⟩
      · exact ⟨_, _, mem_unsuccessGate h⟩
    obtain ⟨fd, text, rfl⟩ := hone
    rw [hverdict fd text (List.mem_append_right _ he)]
    exact ⟨text, rfl⟩
  rw [verdicts_append, verdicts_countGate, List.nil_append] at hwritten
  unfold GatesWrite
  by_cases hstop : Hangs st (countGate c o v).events
  · rw [upTo_append_hangs hstop]
    exact iff_of_true (writesOn_activation fun e he => hnone e (mem_of_mem_upTo he))
      fun _ h => h.1 (hcount.mp hstop)
  · rw [upTo_append hstop, writesOn_append, writesOn_activation hnone, List.nil_append,
      writesOn_upTo_verdicts hall, hwritten, and_iff_right (mt hcount.mpr hstop)]
    by_cases hsock : v.clientSock = i
    · rw [if_pos hsock, gateVerdicts_upTo]
      exact ⟨fun h _ => h, fun h => h hsock⟩
    · rw [if_neg hsock]
      exact iff_of_true rfl fun h => absurd h hsock

end UpTo

/-! ## One reply -/

/-- The connection gets one text, which says how the `insmod` ended. -/
def Answered (o : Outcomes) (i : Int) (es : List Event) : Prop :=
  (writesOn i es).map cstr =
    [if o.configInsmod = 0 then ascii "success" else ascii "unsuccess"]

/-- The controller has not completed a round, the `insmod` succeeds, the file that is read back is
a configuration, `nbd_config` can be written at each own entry, the calls of the handler come back,
and the gates write nothing on the same connection. -/
def Answerable (st : Stalls) (c : Setup) (o : Outcomes) (i : Int) (v : Vars) : Prop :=
  v.successFlag ≠ 1 ∧ o.configInsmod = 0 ∧ ∃ remote,
    readDMBDRemote c.json (fileRead o v).dmbdConfig = some remote ∧ PrintsOwn c o remote 0 ∧
      ¬ StallsLoad st c o remote ∧ (v.clientSock = i → ¬ GatesWrite st c o v remote)

/-- **When a configuration is answered**, in every state, for all results of the calls and whichever
of them do not come back: exactly one text is written on its connection, "success" or "unsuccess" as
the `insmod` ended. -/
theorem config_answered_iff (c : Setup) (st : Stalls) (o : Outcomes) (i : Int) (v : Vars)
    (r : Option Bytes) (hr : r ≠ some []) (h : commandOf c (textOf v r) = .setConfig) :
    Answered o i (stallServe st c v (.read i r o)).2 ↔ Answerable st c o i (afterRead v r) := by
  have hgo := (setConfig_go c o i (afterRead v r)).1
  have hstalls : Hangs st (setConfig c o i (afterRead v r)).events ↔ _ :=
    hangs_setConfig c o i (afterRead v r)
  have hround := (setConfig_still c o i (afterRead v r)).1
  have htext : cstr successText = ascii "success" := cstr_append_zero (by decide +kernel)
  have hmessage : ∀ text es, writesOn i (upTo st (.message i text :: es)) =
      writesOn i (upTo st es) := fun _ _ => rfl
  unfold Answered Answerable
  rw [stallServe_events, serve_message hr, hmessage, handle_setConfig h]
  by_cases hx : (setConfig c o i (afterRead v r)).exit = .go ∧
      ¬ Hangs st (setConfig c o i (afterRead v r)).events
  · obtain ⟨hs, hi, remote, hread, hprints⟩ := hgo.mp hx.1
    have hload : ¬ StallsLoad st c o remote := fun hl =>
      hx.2 (hstalls.mpr ⟨hs, remote, hread, hl⟩)
    have hfile : readDMBDRemote c.json (setConfig c o i (afterRead v r)).state.dmbdConfig =
        some remote := by rw [setConfig_file hs i, hread]
    have hwrites : writesOn i (setConfig c o i (afterRead v r)).events = [successText] := by
      rw [setConfig_writes, if_pos hx.1]
    rw [Done.andThen_go hx.1, upTo_append hx.2, writesOn_append, hwrites, List.singleton_append,
      List.map_cons, htext, if_pos hi, List.cons.injEq, and_iff_right rfl, List.map_eq_nil_iff,
      gates_upTo hfile, hround.clientSock, gatesWrite_congr hround]
    constructor
    · exact fun hnone => ⟨hs, hi, remote, hread, hprints, hload, hnone⟩
    · rintro ⟨_, _, remote', hread', _, _, hnone⟩
      obtain rfl := Option.some.inj (hread.symm.trans hread')
      exact hnone
  · have hnone : writesOn i (upTo st
        ((setConfig c o i (afterRead v r)).andThen (gates c o)).events) = [] := by
      have hhandler : writesOn i (upTo st (setConfig c o i (afterRead v r)).events) = [] :=
        (setConfig_upTo c o i (afterRead v r)).trans (if_neg hx)
      by_cases hgo' : (setConfig c o i (afterRead v r)).exit = .go
      · rw [Done.andThen_go hgo', upTo_append_hangs (not_not.mp fun hh => hx ⟨hgo', hh⟩), hhandler]
      · rw [Done.andThen_stop hgo', hhandler]
    rw [hnone]
    refine iff_of_false (by simp) ?_
    rintro ⟨hs, hi, remote, hread, hprints, hload, _⟩
    refine hx ⟨hgo.mpr ⟨hs, hi, remote, hread, hprints⟩, fun hh => ?_⟩
    obtain ⟨_, remote', hread', hload'⟩ := hstalls.mp hh
    obtain rfl := Option.some.inj (hread.symm.trans hread')
    exact hload hload'

/-- A failed `insmod` is not answered. -/
theorem config_not_answered :
    commandOf (twoServers sampleJson) (textOf accepted (some (sampleConfig ++ [0]))) = .setConfig ∧
      writesOn 4 (stallServe noStalls (twoServers sampleJson) accepted
        (.read 4 (some (sampleConfig ++ [0])) insmodFails)).2 = [] ∧
      ¬ Answered insmodFails 4 (stallServe noStalls (twoServers sampleJson) accepted
        (.read 4 (some (sampleConfig ++ [0])) insmodFails)).2 :=
  ⟨by decide +kernel, by decide +kernel, by unfold Answered; decide +kernel⟩

/-- One that succeeds is. -/
theorem config_answered_two :
    Answered allOk 4 (stallServe noStalls (twoServers sampleJson) accepted
      (.read 4 (some (sampleConfig ++ [0])) allOk)).2 := by
  refine (config_answered_iff (twoServers sampleJson) noStalls allOk 4 accepted
    (some (sampleConfig ++ [0])) (by decide) (by decide +kernel)).mpr ?_
  have hreads : (readDMBDRemote sampleJson (fileRead allOk
      (afterRead accepted (some (sampleConfig ++ [0])))).dmbdConfig).isSome = true := by
    decide +kernel
  obtain ⟨remote, hread⟩ := Option.isSome_iff_exists.mp hreads
  refine ⟨by decide +kernel, rfl, remote, hread,
    fun _ _ _ => ⟨rfl, fprintf_isSome (fun _ => rfl) _⟩, ?_, fun _ hwrite => ?_⟩
  · rintro (hl | ⟨_, ⟨hl, _⟩ | ⟨hl, _⟩⟩)
    · cases hl
    · cases hl
    · cases hl
  · -- no gate is complete, and nothing is left of an "unsuccess"
    have hno : ¬ Loaded (twoServers sampleJson) allOk
        (afterRead accepted (some (sampleConfig ++ [0]))) := by decide +kernel
    have hflag := hwrite.2
    rw [if_neg hno] at hflag
    exact absurd hflag.1 (by decide +kernel)

end JcmController.Controller
