import SubagentBridge.Server.Bookkeeping

/-! The gate in front of an execution: what a developer's process may run, and what becomes of
an execution of which one command is gated. -/

namespace SubagentBridge.Server

open Library Domain Planner Qa Team SqliteStore Execution

variable {B : Type} {api : BudgetApi B} {host : Host}

/-! ## The gate as a function of the approvals -/

section Gate

variable (host : Host) (runId workspace : String)

def fingerprintOf (p : String × List String) : String :=
  host.fingerprint runId (taskKey p.1) workspace p.2

def Approved (approved : Dict String Approval) (p : String × List String) : Prop :=
  ∃ a ∈ approved.get? (fingerprintOf host runId workspace p),
    a.Grants runId (taskKey p.1) workspace p.2

instance (approved : Dict String Approval) (p : String × List String) :
    Decidable (Approved host runId workspace approved p) :=
  decidable_of_iff ((approved.get? (fingerprintOf host runId workspace p)).any fun a =>
    a.Grants runId (taskKey p.1) workspace p.2)
    (by simp only [Approved, Option.any_eq_true, Option.mem_def, decide_eq_true_eq])

def IsGated (approved : Dict String Approval) (p : String × List String) : Prop :=
  p.2 ≠ [] ∧ ¬ Approved host runId workspace approved p ∧
    host.isTrustedAllowlistedCommand p.2 workspace = false

def spend (fingerprint : String) (approved : Dict String Approval) : Dict String Approval :=
  match approved.get? fingerprint with
  | some a => approved.set fingerprint { a with consumed := true }
  | none => approved

def served (approved : Dict String Approval) (p : String × List String) :
    Dict String Approval :=
  if p.2 ≠ [] ∧ Approved host runId workspace approved p then
    spend (fingerprintOf host runId workspace p) approved
  else approved

end Gate

theorem spend_unconsumed {fp fp' : String} {a : Approval} {approved : Dict String Approval}
    (h : (spend fp approved).get? fp' = some a) (ha : a.consumed = false) :
    approved.get? fp' = some a := by
  rw [spend] at h
  split at h
  next =>
    rw [Dict.get?_set] at h
    split at h
    next =>
      cases h
      cases ha
    next => exact h
  next => exact h

section Gate

variable {runId workspace : String}

theorem Approved.of_served {approved : Dict String Approval} {p q : String × List String}
    (h : Approved host runId workspace (served host runId workspace approved p) q) :
    Approved host runId workspace approved q := by
  rw [served] at h
  split at h
  next =>
    obtain ⟨a, ha, hg⟩ := h
    exact ⟨a, spend_unconsumed ha hg.1, hg⟩
  next => exact h

end Gate

/-! ## What a call starts -/

def Op.startsProcess : Op B → Bool
  | .runIsolated _ _ | .runQa _ _ => true
  | _ => false

/-- An operation that starts nothing and leaves approvals and submitted commands alone. -/
def Op.KeepsGate : Op B → Prop
  | .modify f =>
    ∀ m, (f m).approvedCommands = m.approvedCommands ∧ (f m).runCommands = m.runCommands
  | .consumeApproval _ | .runIsolated _ _ | .runQa _ _ => False
  | _ => True

theorem Op.Minor.keepsGate {o : Op B} (ho : o.Minor) : o.KeepsGate := by
  cases o with
  | modify f => exact fun m => (ho m).2.2.symm
  | consumeApproval | runIsolated | runQa => exact ho
  | _ => trivial

theorem only_minor {α : Type} {p : Call B α} (hp : p.Only Op.Minor) : p.Only Op.KeepsGate :=
  hp.mono fun _ ho => ho.keepsGate

/-- All that happened since `m₀`, which is no start of a process. -/
def StartsNothing (m₀ m : Moment B) : Prop :=
  ∃ h, m.history = m₀.history ++ h ∧ ∀ e ∈ h, e.op.startsProcess = false

theorem StartsNothing.refl {m : Moment B} : StartsNothing m m := ⟨[], by simp, by simp⟩

theorem StartsNothing.after {m₀ m : Moment B} (h : StartsNothing m₀ m) {o : Op B} (w : World B)
    (ho : o.startsProcess = false) : StartsNothing m₀ ((runtime B).after o w m) := by
  obtain ⟨h, hh, hnone⟩ := h
  refine ⟨h ++ [⟨o, (runtime B).answer o w m⟩], by simp [hh], ?_⟩
  intro e he
  rcases List.mem_append.mp he with he | he
  · exact hnone e he
  · rw [List.mem_singleton.mp he]
    exact ho

theorem StartsNothing.trans {m₀ m m' : Moment B} (h : StartsNothing m₀ m)
    (h' : StartsNothing m m') : StartsNothing m₀ m' := by
  obtain ⟨h, hh, hnone⟩ := h
  obtain ⟨h', hh', hnone'⟩ := h'
  refine ⟨h ++ h', by rw [hh', hh, List.append_assoc], ?_⟩
  intro e he
  exact (List.mem_append.mp he).elim (hnone e) (hnone' e)

theorem StartsNothing.grows {m₀ m : Moment B} (h : StartsNothing m₀ m) :
    m₀.history <+: m.history := by
  obtain ⟨h, hh, -⟩ := h
  exact ⟨h, hh.symm⟩

/-- Nothing has started, and approvals and submitted commands are as they were. -/
structure Untouched (m₀ m : Moment B) : Prop where
  starts : StartsNothing m₀ m
  approved : m.state.memory.approvedCommands = m₀.state.memory.approvedCommands
  runCommands : m.state.memory.runCommands = m₀.state.memory.runCommands

theorem Untouched.refl {m : Moment B} : Untouched m m := ⟨.refl, rfl, rfl⟩

theorem untouched_after {m₀ m : Moment B} (h : Untouched m₀ m) {o : Op B} (w : World B)
    (ho : o.KeepsGate) : Untouched m₀ ((runtime B).after o w m) := by
  have hm : (exec o w m.state).2.memory.approvedCommands = m.state.memory.approvedCommands ∧
      (exec o w m.state).2.memory.runCommands = m.state.memory.runCommands := by
    cases hc : o.changesMemory with
    | false => rw [memory_of_not_changes hc]; exact ⟨rfl, rfl⟩
    | true =>
      cases o with
      | modify f => exact ho m.state.memory
      | consumeApproval => cases ho
      | _ => cases hc
  refine ⟨h.starts.after w ?_, hm.1.trans h.approved, hm.2.trans h.runCommands⟩
  cases o with
  | consumeApproval | runIsolated | runQa => cases ho
  | _ => rfl

/-! ## The gate -/

/-- A discipline that the gate keeps: approvals may be used, if they have not served. -/
structure Spares (T : Moment B → Moment B → Prop) : Prop where
  keeps : ∀ o w m, o.KeepsGate → T m ((runtime B).after o w m)
  spends : ∀ fp a w (m : Moment B), m.state.memory.approvedCommands.get? fp = some a →
    a.consumed = false → T m ((runtime B).after (.consumeApproval fp) w m)

def Consumed (m₀ m : Moment B) (fp : String) : Prop :=
  ∃ h, m.history = m₀.history ++ h ∧ (⟨.consumeApproval fp, .ok ()⟩ : ServerEvent B) ∈ h

theorem StartsNothing.consumed {m₀ m : Moment B} (h : StartsNothing m₀ m) (fp : String)
    (w : World B) : Consumed m₀ ((runtime B).after (.consumeApproval fp) w m) fp := by
  obtain ⟨h, hh, -⟩ := h
  exact ⟨h ++ [⟨.consumeApproval fp, .ok ()⟩], by simp [hh, Runtime.answer, exec], by simp⟩

theorem consumeApproval_approved (fp : String) (m : Memory B) :
    (m.consumeApproval fp).approvedCommands = spend fp m.approvedCommands := by
  simp only [Memory.consumeApproval, spend]
  cases m.approvedCommands.get? fp <;> rfl

def Passed (host : Host) (runId workspace : String) (m₀ m : Moment B)
    (approved : Dict String Approval) (p : String × List String) : Prop :=
  host.isTrustedAllowlistedCommand p.2 workspace = true ∨
    Approved host runId workspace approved p ∧ Consumed m₀ m (fingerprintOf host runId workspace p)

theorem Consumed.mono {m₀ m m' : Moment B} {fp : String} (h : Consumed m₀ m fp)
    (hm : m.history <+: m'.history) : Consumed m₀ m' fp := by
  obtain ⟨h, hh, hmem⟩ := h
  obtain ⟨h', hm⟩ := hm
  exact ⟨h ++ h', by rw [← hm, hh, List.append_assoc], List.mem_append_left _ hmem⟩

theorem Passed.mono {runId workspace : String} {m₀ m m' : Moment B}
    {approved : Dict String Approval} {p : String × List String}
    (h : Passed host runId workspace m₀ m approved p) (hm : m.history <+: m'.history) :
    Passed host runId workspace m₀ m' approved p :=
  h.imp id fun h => ⟨h.1, h.2.mono hm⟩

section Gate

variable {W : World B → Prop} {T : Moment B → Moment B → Prop} {m₀ m : Moment B}
variable {runId workspace : String} {α : Type}

theorem untouched_ensures (hT : Spares T) {p : Call B α} (hp : p.Only Op.KeepsGate)
    (h : Untouched m₀ m) : p.Ensures W T (fun m' _ => Untouched m₀ m') m := by
  apply hp.ensures h
  intro o w m ho _ _ h
  exact ⟨hT.keeps o w m ho, untouched_after h w ho⟩

def GateDecision.Sound (host : Host) (runId workspace : String) (m₀ m : Moment B)
    (approved : Dict String Approval) (p : String × List String) (m' : Moment B) :
    GateDecision → Prop
  | .gated _ _ => True
  | _ => m'.state.memory.approvedCommands = served host runId workspace approved p ∧
      m.history <+: m'.history ∧ ¬ IsGated host runId workspace approved p ∧
      Passed host runId workspace m₀ m' approved p

theorem unapproved_ensures (hT : Spares T) {p : String × List String} (hs : StartsNothing m₀ m)
    {m₁ : Moment B} (h₁ : Untouched m m₁)
    (ha : ¬ Approved host runId workspace m.state.memory.approvedCommands p) :
    (gateCommand.unapproved host runId workspace p.2 (taskKey p.1)).Ensures W T
      (fun m' r => StartsNothing m₀ m' ∧ ∀ d, r = .ok d →
        d.Sound host runId workspace m₀ m m.state.memory.approvedCommands p m') m₁ := by
  rw [gateCommand.unapproved]
  split
  next hallow =>
    refine ⟨hs.trans h₁.starts, fun d hd => ?_⟩
    cases hd
    refine ⟨?_, h₁.starts.grows, fun hg => ?_, .inl hallow⟩
    · rw [h₁.approved, served, if_neg fun h => ha h.2]
    · rw [hg.2.2] at hallow
      cases hallow
  next =>
    apply (untouched_ensures hT (only_minor (only_pendingActionFor _ _)) h₁).bind
    · intro m₂ actionId h₂
      exact ⟨hs.trans h₂.starts, fun d hd => by cases hd; trivial⟩
    · exact fun m₂ e h₂ => ⟨hs.trans h₂.starts, fun d hd => by cases hd⟩

theorem gateCommand_ensures (hT : Spares T) {p : String × List String} (hp : p.2 ≠ [])
    (hs : StartsNothing m₀ m) :
    (gateCommand host runId p.1 workspace p.2).Ensures W T
      (fun m' r => StartsNothing m₀ m' ∧ ∀ d, r = .ok d →
        d.Sound host runId workspace m₀ m m.state.memory.approvedCommands p m') m := by
  apply ensures_perform_bind
  intro w _ _
  have h₁ : Untouched m ((runtime B).after .memory w m) := untouched_after .refl w trivial
  refine ⟨hT.keeps _ w m trivial, ?_, fun e he => by cases he⟩
  intro memory hmemory
  cases hmemory
  split
  next a ha =>
    split
    next hg =>
      have happroved : Approved host runId workspace m.state.memory.approvedCommands p :=
        ⟨a, ha, hg⟩
      apply ensures_perform_bind
      intro w' _ _
      refine ⟨hT.spends _ a w' _ ha hg.1, ?_, fun e he => by cases he⟩
      rintro ⟨⟩ -
      have hstarts := h₁.starts.after
        (o := .consumeApproval (fingerprintOf host runId workspace p)) w' rfl
      refine ⟨hs.trans hstarts, fun d hd => ?_⟩
      cases hd
      refine ⟨?_, hstarts.grows, fun h => h.2.1 happroved, .inr ⟨happroved, ?_⟩⟩
      · rw [served, if_pos ⟨hp, happroved⟩]
        exact consumeApproval_approved _ _
      · exact (hs.trans h₁.starts).consumed _ w'
    next hg =>
      apply unapproved_ensures hT hs h₁
      rintro ⟨a', ha', hg'⟩
      cases ha.symm.trans ha'
      exact hg hg'
  next ha =>
    apply unapproved_ensures hT hs h₁
    rintro ⟨a', ha', -⟩
    cases ha.symm.trans ha'

structure PassesAll (host : Host) (runId workspace : String) (m₀ m : Moment B)
    (approved : Dict String Approval) (commands : Dict String (List String)) : Prop where
  passed : ∀ p ∈ commands, p.2 ≠ [] → Passed host runId workspace m₀ m approved p
  none_gated : ∀ earlier p later, commands = earlier ++ p :: later →
    ¬ IsGated host runId workspace (earlier.foldl (served host runId workspace) approved) p

theorem PassesAll.cons {m' : Moment B} {approved : Dict String Approval}
    {p : String × List String} {commands : Dict String (List String)}
    (hgated : ¬ IsGated host runId workspace approved p)
    (hp : p.2 ≠ [] → Passed host runId workspace m₀ m' approved p)
    (h : PassesAll host runId workspace m₀ m' (served host runId workspace approved p) commands) :
    PassesAll host runId workspace m₀ m' approved (p :: commands) where
  passed q hq hne := by
    rcases List.mem_cons.mp hq with rfl | hq
    · exact hp hne
    · exact (h.passed q hq hne).imp id fun hc => ⟨hc.1.of_served, hc.2⟩
  none_gated earlier q later heq := by
    cases earlier with
    | nil =>
      cases heq
      exact hgated
    | cons p' earlier =>
      cases heq
      exact h.none_gated earlier q later rfl

theorem gateCommands_ensures (hT : Spares T) (commands : Dict String (List String))
    (hs : StartsNothing m₀ m) : (gateCommands host runId workspace commands).Ensures W T
      (fun m' r => StartsNothing m₀ m' ∧ (r = .ok none → m.history <+: m'.history ∧
        PassesAll host runId workspace m₀ m' m.state.memory.approvedCommands commands)) m := by
  induction commands generalizing m with
  | nil =>
    refine ⟨hs, fun _ => ⟨List.prefix_rfl, ⟨fun p hp => (by cases hp), ?_⟩⟩⟩
    intro earlier p later h
    simp at h
  | cons p commands ih =>
    obtain ⟨key, cmd⟩ := p
    rw [gateCommands]
    split
    next hempty =>
      apply (ih hs).post
      rintro m' r ⟨hs', h⟩
      refine ⟨hs', fun hr =>
        ⟨(h hr).1, .cons (fun hg => hg.1 hempty) (fun hne => absurd hempty hne) ?_⟩⟩
      rw [served, if_neg fun hne => hne.1 hempty]
      exact (h hr).2
    next hne =>
      apply (gateCommand_ensures (p := (key, cmd)) hT hne hs).bind
      · rintro m₁ d ⟨hs₁, hd⟩
        have hnext (htable : m₁.state.memory.approvedCommands =
              served host runId workspace m.state.memory.approvedCommands (key, cmd))
            (hgrows : m.history <+: m₁.history)
            (hgated : ¬ IsGated host runId workspace m.state.memory.approvedCommands (key, cmd))
            (hpass : Passed host runId workspace m₀ m₁ m.state.memory.approvedCommands (key, cmd)) :
            (gateCommands host runId workspace commands).Ensures W T (fun m' r =>
              StartsNothing m₀ m' ∧ (r = .ok none → m.history <+: m'.history ∧
                PassesAll host runId workspace m₀ m' m.state.memory.approvedCommands
                  ((key, cmd) :: commands))) m₁ := by
          apply (ih hs₁).post
          rintro m' r ⟨hs', h⟩
          refine ⟨hs', fun hr => ⟨hgrows.trans (h hr).1, .cons hgated ?_ (htable ▸ (h hr).2)⟩⟩
          exact fun _ => hpass.mono (h hr).1
        cases d with
        | gated reason actionId => exact ⟨hs₁, fun hr => by cases hr⟩
        | granted actionId =>
          obtain ⟨htable, hgrows, hgated, hpass⟩ := hd _ rfl
          exact hnext htable hgrows hgated hpass
        | allowlisted =>
          obtain ⟨htable, hgrows, hgated, hpass⟩ := hd _ rfl
          exact hnext htable hgrows hgated hpass
      · rintro m₁ e ⟨hs₁, -⟩
        exact ⟨hs₁, fun hr => by cases hr⟩

end Gate

/-! ## The parts of an execution -/

section Parts

variable {runId workspace : String}

theorem only_findRun : (findRun runId : Call B _).Only Op.KeepsGate := by
  apply Proc.only_op_bind trivial
  intro m
  split
  next => trivial
  next =>
    apply Proc.only_op_bind trivial
    intro r
    split
    next => trivial
    next => exact Proc.only_op_bind (fun _ => ⟨rfl, rfl⟩) fun _ => trivial

theorem only_registerTasks (records : List TaskRecord) :
    (registerTasks runId records : Call B _).Only Op.KeepsGate := by
  apply Proc.Only.bind
  · exact Proc.Only.tryCatch ((Proc.only_op _).mpr trivial) fun _ => trivial
  · intro _
    apply Proc.Only.bind
    · exact Proc.only_forEach (fun _ => (Proc.only_op _).mpr trivial) _
    · exact fun _ => (Proc.only_op _).mpr fun _ => ⟨rfl, rfl⟩

theorem only_saveRunStatus (run : RunRecord) (status : RunStatus) :
    (saveRunStatus runId run status : Call B _).Only Op.KeepsGate := by
  apply Proc.only_op_bind fun _ => ⟨rfl, rfl⟩
  exact fun _ => (Proc.only_op _).mpr trivial

theorem only_block (reason actionId : String) (run : RunRecord) :
    (block runId workspace reason actionId run : Call B _).Only Op.KeepsGate := by
  apply Proc.Only.bind
  · exact Proc.Only.tryCatch ((Proc.only_op _).mpr trivial) fun _ => trivial
  · intro _
    exact Proc.Only.bind (only_saveRunStatus run .blocked) fun _ => trivial

theorem only_settleRun (run : RunRecord) (result : LifecycleResult) :
    (settleRun runId run result : Call B _).Only Op.KeepsGate := by
  cases result with
  | completed tasks =>
    apply Proc.Only.bind (only_saveRunStatus run .completed)
    intro _
    exact Proc.only_op_bind (fun _ => ⟨rfl, rfl⟩) fun _ => trivial
  | failed f => exact Proc.Only.bind (only_saveRunStatus run .failed) fun _ => trivial

end Parts

/-! ## What an execution starts -/

def commandsOf (s : State B) (runId : String) (commandMap : Dict String (List String)) :
    Dict String (List String) :=
  if commandMap = [] then (s.memory.runCommands.get? runId).getD [] else commandMap

def Authorized (host : Host) (runId : String) (commandMap : Dict String (List String))
    (m₀ m : Moment B) (argv : List String) : Prop :=
  ∃ run workspace key, knownRun m₀.state runId = some run ∧
    host.resolve run.workspacePath = some workspace ∧
    (key, argv) ∈ commandsOf m₀.state runId commandMap ∧
    Passed host runId workspace m₀ m m₀.state.memory.approvedCommands (key, argv)

def StartsAuthorized (host : Host) (runId : String) (commandMap : Dict String (List String))
    (m₀ m m' : Moment B) : Prop :=
  ∀ e taskId argv, m'.history = m.history ++ [e] → e.op = .runIsolated taskId argv →
    Authorized host runId commandMap m₀ m argv

/-- If an entry was gated at its turn, the call started nothing; and the run, if it was not
over, is blocked when the call answers. -/
def BlocksGated (host : Host) (runId : String) (commandMap : Dict String (List String))
    (m₀ m' : Moment B) (r : Except Error Response) : Prop :=
  ∀ run workspace earlier p later, knownRun m₀.state runId = some run →
    host.resolve run.workspacePath = some workspace →
    commandsOf m₀.state runId commandMap = earlier ++ p :: later →
    IsGated host runId workspace
      (earlier.foldl (served host runId workspace) m₀.state.memory.approvedCommands) p →
    StartsNothing m₀ m' ∧ (isOver run.status = false → ∀ res, r = .ok res → res.isBlocked = true ∧
      (m'.state.memory.runs.get? runId).map (·.status) = some .blocked ∧
      (m'.state.db.runs.get? run.runId).map (·.status) = some .blocked)

section Execution

variable {W : World B → Prop} {m₀ m : Moment B} {runId workspace : String} {run : RunRecord}
variable {commandMap : Dict String (List String)}

theorem spares_startsAuthorized :
    Spares (StartsAuthorized (B := B) host runId commandMap m₀) where
  keeps o w m ho e taskId argv he hop := by
    obtain rfl := List.singleton_inj.mp (List.append_cancel_left he)
    subst hop
    cases ho
  spends fp a w m _ _ e taskId argv he hop := by
    obtain rfl := List.singleton_inj.mp (List.append_cancel_left he)
    cases hop

theorem blocksGated_of_error {m' : Moment B} {e : Error} (h : StartsNothing m₀ m') :
    BlocksGated host runId commandMap m₀ m' (.error e) :=
  fun _ _ _ _ _ _ _ _ _ => ⟨h, fun _ _ hr => by cases hr⟩

theorem block_ensures (reason actionId : String) (hs : StartsNothing m₀ m)
    (hrun : knownRun m₀.state runId = some run) :
    (block runId workspace reason actionId run).Ensures W
      (StartsAuthorized host runId commandMap m₀) (BlocksGated host runId commandMap m₀) m := by
  have hstatus : (block runId workspace reason actionId run).Ensures W (fun _ _ => True)
      (fun m' r => ∀ res, r = .ok res → res.isBlocked = true ∧
        (m'.state.memory.runs.get? runId).map (·.status) = some .blocked ∧
        (m'.state.db.runs.get? run.runId).map (·.status) = some .blocked) m := by
    apply (ensures_trivial _).bind
    · intro m₁ _ _
      apply (saveRunStatus_ensures runId run .blocked).bind
      · intro m₂ u h₂ res hres
        cases hres
        rw [h₂ u rfl]
        exact ⟨rfl, by rw [savedStatus_memory]; rfl, savedStatus_db _ _ _ _⟩
      · exact fun m₂ e _ res hres => by cases hres
    · exact fun m₁ e _ res hres => by cases hres
  apply ((untouched_ensures spares_startsAuthorized (only_block reason actionId run) .refl).with
    hstatus).post
  rintro m' r ⟨hm', hr⟩ run' workspace' earlier p later hrun' - - -
  obtain rfl : run = run' := Option.some.inj (hrun.symm.trans hrun')
  exact ⟨hs.trans hm'.starts, fun _ => hr⟩

/-- The event of a step of a lifecycle: no approval is used, and the processes it starts are
entries of its commands. -/
theorem steps_event {l : Lifecycle} {ids : List String} {m m' : Moment B} (h : l.Steps ids m m') :
    m'.state.memory.approvedCommands = m.state.memory.approvedCommands ∧
      ∃ e : ServerEvent B, m'.history = m.history ++ [e] ∧ (∀ fp, e.op ≠ .consumeApproval fp) ∧
        ∀ taskId argv, e.op = .runIsolated taskId argv →
          argv ≠ [] ∧ ∃ key, (key, argv) ∈ l.commands := by
  have hquiet (e : ServerEvent B) (he : e.op.quiet = true) : (∀ fp, e.op ≠ .consumeApproval fp) ∧
      ∀ taskId argv, e.op = .runIsolated taskId argv →
        argv ≠ [] ∧ ∃ key, (key, argv) ∈ l.commands := by
    refine ⟨fun fp h => ?_, fun taskId argv h => ?_⟩ <;> rw [h] at he <;> cases he
  rcases h with ⟨hs, e, he, hh⟩ | ⟨e, r, hh, he, -, -, hs⟩ | ⟨id, -, hw⟩
  · exact ⟨by rw [hs], e, hh, hquiet e he⟩
  · refine ⟨?_, e, hh, fun fp h => ?_, fun taskId argv h => ?_⟩
    · rcases hs with hs | hs <;> rw [hs]
    · rw [he] at h
      cases h
    · rw [he] at h
      cases h
  · refine ⟨hw.frame.approvedCommands, ?_⟩
    obtain ⟨e, hh, heff⟩ := hw
    refine ⟨e, hh, ?_⟩
    generalize e.op = o at heff
    cases heff with
    | asks hq _ =>
      refine ⟨fun fp h => ?_, fun taskId argv h => ?_⟩ <;> subst h <;> cases hq
    | develops hne hkey _ =>
      exact ⟨fun _ h => (by cases h), fun _ _ h => (by cases h; exact ⟨hne, hkey⟩)⟩
    | _ => exact ⟨fun _ h => (by cases h), fun _ _ h => (by cases h)⟩

theorem execute_ensures {l : Lifecycle} {m₁ : Moment B} (h₁ : m₁.history <+: m.history)
    (hauth : ∀ argv key, (key, argv) ∈ l.commands → argv ≠ [] →
      ∀ m', m₁.history <+: m'.history → Authorized host runId commandMap m₀ m' argv) :
    (l.execute api).Ensures W (StartsAuthorized host runId commandMap m₀) (fun _ _ => True) m := by
  refine (l.execute_steps.under (K := fun m' => m₁.history <+: m'.history) h₁ ?_).post
    fun _ _ _ => trivial
  intro m m' hm hstep
  obtain ⟨-, e, he, -, hstarts⟩ := steps_event hstep
  refine ⟨fun e' taskId argv he' hop => ?_, hm.trans (he ▸ List.prefix_append ..)⟩
  obtain rfl := List.singleton_inj.mp (List.append_cancel_left (he.symm.trans he'))
  obtain ⟨hne, key, hkey⟩ := hstarts taskId argv hop
  exact hauth argv key hkey hne m hm

theorem executeCommands_ensures {plan : TaskDecomposer.Plan} (hm : Untouched m₀ m)
    (hrun : knownRun m₀.state runId = some run)
    (hres : host.resolve run.workspacePath = some workspace) :
    (executeCommands api host runId workspace run plan
        (commandsOf m₀.state runId commandMap)).Ensures W
      (StartsAuthorized host runId commandMap m₀) (BlocksGated host runId commandMap m₀) m := by
  have hT : Spares (StartsAuthorized host runId commandMap m₀) := spares_startsAuthorized
  apply (gateCommands_ensures hT _ hm.starts).bind
  · rintro m₁ gated ⟨hs₁, hpass⟩
    cases gated with
    | some g => exact block_ensures g.1 g.2 hs₁ hrun
    | none =>
      obtain ⟨-, hpass⟩ := hpass rfl
      rw [hm.approved] at hpass
      -- no entry was gated, so that nothing more is owed at the end
      have hend (m' : Moment B) (r : Except Error Response) :
          BlocksGated host runId commandMap m₀ m' r := by
        intro run' workspace' earlier p later hrun' hres' hsplit hgated
        obtain rfl : run = run' := Option.some.inj (hrun.symm.trans hrun')
        obtain rfl : workspace = workspace' := Option.some.inj (hres.symm.trans hres')
        exact absurd hgated (hpass.none_gated earlier p later hsplit)
      apply ensures_perform_bind
      intro w _ _
      refine ⟨hT.keeps _ w m₁ trivial, fun _ _ => ?_, fun e _ => hend _ _⟩
      apply ((untouched_ensures hT (only_minor (only_createCoordinatorForRun plan _)) .refl).with
        (createCoordinatorForRun_returns plan _)).bind
      · rintro m₂ l ⟨hm₂, hl⟩
        have hcommands := (hl l rfl).commands
        have hgrows : m₁.history <+: m₂.history := by
          have hw : m₁.history <+: ((runtime B).after (.openWorkspace workspace) w m₁).history :=
            List.prefix_append ..
          exact hw.trans hm₂.starts.grows
        apply (execute_ensures hgrows ?_).bind
        · intro m₃ result _
          exact (untouched_ensures hT (only_settleRun run result) .refl).post
            fun m' r _ => hend m' r
        · exact fun m₃ e _ => hend m₃ _
        · intro argv key hkey hne m' hm'
          rw [hcommands] at hkey
          exact ⟨run, workspace, key, hrun, hres, hkey, (hpass.passed _ hkey hne).mono hm'⟩
      · exact fun m₂ e _ => hend m₂ _
  · rintro m₁ e ⟨hs₁, -⟩
    exact blocksGated_of_error hs₁

theorem effectiveCommands_ensures (m : Moment B) : (effectiveCommands runId commandMap).Ensures W
    (fun _ _ => True) (fun _ r => r = .ok (commandsOf m.state runId commandMap)) m := by
  apply ensures_memory_bind tolerant_true.asking
  intro m₁ _ _
  rfl

theorem executeOpenRun_ensures (hm : Untouched m₀ m) (hrun : knownRun m₀.state runId = some run) :
    (executeOpenRun api host runId run commandMap).Ensures W
      (StartsAuthorized host runId commandMap m₀) (BlocksGated host runId commandMap m₀) m := by
  have hT : Spares (StartsAuthorized host runId commandMap m₀) := spares_startsAuthorized
  rw [executeOpenRun, resolvePath]
  cases hres : host.resolve run.workspacePath with
  | none => exact blocksGated_of_error hm.starts
  | some workspace =>
    apply (untouched_ensures hT (only_minor only_getProductionSystem) hm).bind
    · intro m₁ _ h₁
      apply ensures_perform_bind
      intro w _ _
      refine ⟨hT.keeps _ w m₁ trivial, fun tree _ => ?_, fun e he => by cases he⟩
      have h₂ := untouched_after h₁ w (o := .inspectTree workspace) trivial
      apply ensures_lift_bind
      · intro plan _
        apply (untouched_ensures hT (only_registerTasks plan.records) h₂).bind
        · intro m₃ _ h₃
          apply ((untouched_ensures hT (only_minor only_effectiveCommands) h₃).with
            (effectiveCommands_ensures m₃)).bind
          · rintro m₄ commands ⟨h₄, hcommands⟩
            cases hcommands
            rw [commandsOf, h₃.runCommands]
            exact executeCommands_ensures h₄ hrun hres
          · exact fun m₄ e h₄ => blocksGated_of_error h₄.1.starts
        · exact fun m₃ e h₃ => blocksGated_of_error h₃.starts
      · exact fun e _ => blocksGated_of_error h₂.starts
    · exact fun m₁ e h₁ => blocksGated_of_error h₁.starts

theorem executeRun_ensures (m : Moment B) :
    (executeRun api host runId commandMap).Ensures W
      (StartsAuthorized host runId commandMap m) (BlocksGated host runId commandMap m) m := by
  have hT : Spares (StartsAuthorized host runId commandMap m) := spares_startsAuthorized
  apply ((untouched_ensures hT only_findRun .refl).with
    (findRun_ensures tolerant_true.asking (tolerant_true.allows _))).bind
  · rintro m₁ found ⟨h₁, hanswer⟩
    obtain ⟨hfound, -⟩ | ⟨⟨e, he⟩, -⟩ := hanswer
    · cases hfound
      cases hrun : knownRun m.state runId with
      | none =>
        intro run workspace earlier p later hrun'
        rw [hrun] at hrun'
        cases hrun'
      | some run =>
        by_cases ho : isOver run.status = true
        · simp only [ho, if_true]
          apply ensures_perform_bind
          intro w _ _
          refine ⟨hT.keeps _ w m₁ trivial, fun memory _ => ?_, fun e he => by cases he⟩
          intro run' workspace earlier p later hrun' _ _ _
          obtain rfl : run = run' := Option.some.inj (hrun.symm.trans hrun')
          refine ⟨h₁.starts.after w rfl, fun hopen => ?_⟩
          rw [ho] at hopen
          cases hopen
        · simp only [ho]
          exact executeOpenRun_ensures h₁ hrun
    · cases he
  · rintro m₁ e ⟨h₁, -⟩
    exact blocksGated_of_error h₁.starts

end Execution

end SubagentBridge.Server
