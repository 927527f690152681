import SubagentBridge.Execution.WorkerRuntime
import SubagentBridge.Library.Fallible

/-! The answer of a worker to a task: one result, or the end of the main loop. -/

namespace SubagentBridge.Worker

open Library OperatorBoundary TrustedAuthority

abbrev History (F : Type) := List (Event (sig F) Error)

section History

variable {F : Type}

def results (h : History F) : List (Dict String (Json F)) :=
  h.filterMap fun e => match e.op with
    | .sendEvent event => if (fetch event "type").text = some "RESULT" then some event else none
    | _ => none

def naps (h : History F) : Nat :=
  h.countP fun e => match e.op with
    | .sleep => true
    | _ => false

def firstNow (h : History F) : Option F :=
  h.findSome? fun
    | ⟨.now, .ok t⟩ => some t
    | _ => none

def firstFlag (h : History F) : Option Bool :=
  h.findSome? fun
    | ⟨.isCancelled, .ok b⟩ => some b
    | _ => none

/-- `os.path.isdir` raised, as it does for a value that is no path. -/
def dirRaised (h : History F) : Prop :=
  ∃ path e, (⟨.isDir path, .error e⟩ : Event (sig F) Error) ∈ h

def Kind.handled : Kind → Bool
  | .key | .value | .type => true
  | _ => false

def fileRaised (h : History F) : Prop :=
  ∃ workspace name content e,
    (⟨.writeFile workspace name content, .error e⟩ : Event (sig F) Error) ∈ h ∧
      e.kind.handled = false

/-- The operations that work as long as the process has its pipes and its clock. -/
def Op.steady : Op F → Bool
  | .isDir _ | .popen _ _ | .poll _ | .terminate _ | .wait _ | .kill _ | .communicate _
  | .writeFile _ _ _ | .terminateActive => false
  | _ => true

/-- An answer that an operation can give. -/
structure Sound (o : Op F) (x : Except Error o.Ret) : Prop where
  steady : o.steady = true → ∃ a, x = .ok a
  real : ∀ e, x = .error e → e.kind ≠ .cutShort

end History

/-! ## The tasks that end the main loop -/

section Breaks

variable {F : Type} [FloatArith F] (E : Env F) (B : Builtins F) (host : Host) (A : Args F)
variable (L : Local F) (taskId : Json F) (payload : Dict String (Json F))

def fails {ε α : Type} : Except ε α → Prop
  | .ok _ => False
  | .error _ => True

/-- A command whose ticket is accepted has an action id that is no key, or a workspace that is
no path, or a timeout that is no number. -/
def CommandBreaks (command : Json F) (h : History F) : Prop :=
  ∃ argv now, commandList B command = some argv ∧
    (fetch payload "execution_ticket").truthy = true ∧ A.sessionSecret ≠ "" ∧
    firstNow h = some now ∧
    (verifyTicketBinding E B now (fetch payload "execution_ticket") A.sessionSecret A.workerId
      taskId argv (effectiveWorkspace A payload)).1 = true ∧
    let actionId := (((fetch payload "execution_ticket").members.getD []).get? "action_id").getD
      (.str "")
    actionId.hashable = false ∨
      actionId.isMember L.consumedActionIds = false ∧ firstFlag h = some false ∧
        (dirRaised h ∨ fails ((payload.get? "timeout").getD (.float (30 : Nat))).toFloat)

/-- An admitted instruction has a model or a provider that is no string, or a file that cannot
be created. -/
def InstructionBreaks (h : History F) : Prop :=
  (∃ a required, getHarness B L.harnessName = .ok a ∧
    (if (fetch payload "required_capabilities").truthy then
      requiredCapabilities (fetch payload "required_capabilities") else .ok []) = .ok required ∧
    fails (validateExecutionConfig B host a (configOf A L payload) required)) ∨
  fileRaised h

/-- A duration that is no number, or one that is no float. -/
def PlainBreaks (h : History F) : Prop :=
  let duration := (payload.get? "duration").getD (.int 0)
  match duration.isPositive with
  | .error _ => True
  | .ok true => fails duration.toFloat
  | .ok false =>
    (fetch payload "instruction").truthy = true ∧ InstructionBreaks B host A L payload h

def PayloadBreaks (h : History F) : Prop :=
  match overBudget A L ((payload.get? "tokens_requested").getD (.int 0)) with
  | .error _ => True
  | .ok true => False
  | .ok false =>
    ¬ ((payload.get? "approved").isSome ∨ (payload.get? "approver").isSome) ∧
    match payload.get? "command" with
    | some command => CommandBreaks E B A L taskId payload command h
    | none => PlainBreaks B host A L payload h

/-- A task that ends the main loop instead of being answered. -/
def Breaks (msg : Dict String (Json F)) (h : History F) : Prop :=
  match (payloadOf msg).members with
  | none => True
  | some payload => PayloadBreaks E B host A L (taskIdOf msg) payload h

end Breaks

/-! ## What a procedure ends with -/

section Fate

variable {F : Type} {α β : Type} {h h' : History F} {taskId : Json F} {n : Nat}
variable {broken : History F → Prop}

def Told (taskId : Json F) (broken : History F → Prop) (h : History F) (r : Except Error α) :
    Prop :=
  ∃ a event, r = .ok a ∧ results h = [event] ∧ event.get? "task_id" = some taskId ∧ ¬ broken h

/-- A result for the task, or none and an exception if the task is broken, or none yet. -/
def Fate (taskId : Json F) (patience : Nat) (broken : History F → Prop) (h : History F)
    (r : Except Error α) : Prop :=
  Told taskId broken h r ∨
  (∃ e, r = .error e ∧ e.kind ≠ .cutShort ∧ results h = [] ∧ broken h) ∨
  (∃ e, r = .error e ∧ e.kind = .cutShort ∧ results h = [] ∧ patience ≤ naps h)

abbrev Answering (F : Type) : Protocol (sig F) Error :=
  .ofHistory (fun (_ : Unit) _ _ => True) Sound

/-- From the history `h` on, the procedure ends as `Q` says. -/
abbrev Leads (h : History F) (Q : History F → Except Error α → Prop) (p : Call F α) : Prop :=
  p.Follows (Answering F) (fun m r => Q m.2 r) ((), h)

theorem leads_perform {o : Op F} {f : o.Ret → Call F α} {Q : History F → Except Error α → Prop}
    (hok : ∀ a, Leads (h ++ [⟨o, .ok a⟩]) Q (f a))
    (herr : ∀ e, Sound o (.error e) → Q (h ++ [⟨o, .error e⟩]) (.error e)) :
    Leads h Q ((perform o).bind f) :=
  (Proc.follows_op_bind (S := sig F) o f).mpr ⟨trivial, fun a _ => hok a, fun e he => herr e he⟩

theorem leads_steady {o : Op F} {f : o.Ret → Call F α} {Q : History F → Except Error α → Prop}
    (ho : o.steady = true) (hok : ∀ a, Leads (h ++ [⟨o, .ok a⟩]) Q (f a)) :
    Leads h Q ((perform o).bind f) := by
  apply leads_perform hok
  intro e he
  obtain ⟨a, ha⟩ := he.steady ho
  cases ha

theorem Leads.bind {p : Call F β} {f : β → Call F α} {M : History F → Except Error β → Prop}
    {Q : History F → Except Error α → Prop} (hp : Leads h M p)
    (hok : ∀ h b, M h (.ok b) → Leads h Q (f b))
    (herr : ∀ h e, M h (.error e) → Q h (.error e)) : Leads h Q (p.bind f) :=
  Proc.Follows.bind hp (fun m b => hok m.2 b) fun m e => herr m.2 e

theorem Leads.tryCatch {p : Call F α} {f : Error → Call F α}
    {M Q : History F → Except Error α → Prop} (hp : Leads h M p)
    (hok : ∀ h a, M h (.ok a) → Q h (.ok a)) (herr : ∀ h e, M h (.error e) → Leads h Q (f e)) :
    Leads h Q (p.tryCatch f) :=
  Proc.Follows.tryCatch hp (fun m a => hok m.2 a) fun m e => herr m.2 e

def Op.plain : Op F → Bool
  | .isDir _ | .writeFile _ _ _ => false
  | _ => true

def Settled (broken : History F → Prop) (h : History F) : Prop :=
  ∀ k : History F, (∀ e ∈ k, e.op.plain = true) → ¬ broken (h ++ k)

theorem Settled.append {k : History F} (hs : Settled broken h) (hk : ∀ e ∈ k, e.op.plain = true) :
    Settled broken (h ++ k) := by
  intro k' hk'
  rw [List.append_assoc]
  exact hs _ (List.forall_mem_append.mpr ⟨hk, hk'⟩)

theorem Settled.not (hs : Settled broken h) : ¬ broken h := by
  have := hs [] (by simp)
  simpa using this

theorem results_append (h k : History F) : results (h ++ k) = results h ++ results k :=
  List.filterMap_append

theorem leads_answer {L : Local F} {status : String} {fields : Dict String (Json F)}
    (hs : Settled broken h) (hr : results h = []) :
    Leads h (Told taskId broken) (answer L taskId status fields) := by
  rw [answer, send, Proc.bind_eq, Proc.bind_eq, Proc.bind_assoc]
  apply leads_steady rfl
  intro timestamp
  apply leads_steady rfl
  intro _
  refine ⟨L, [("type", .str "RESULT"), ("task_id", taskId), ("status", .str status)] ++ fields
    ++ [("timestamp", .float timestamp)], rfl, ?_, ?_, ?_⟩
  · rw [List.append_assoc, results_append, hr]
    simp [results, fetch, Dict.get?_cons, Json.text]
  · simp [Dict.get?_cons]
  · rw [List.append_assoc]
    exact hs _ (by simp [Op.plain])

theorem fate_answer {L : Local F} {status : String} {fields : Dict String (Json F)}
    (hs : Settled broken h) (hr : results h = []) :
    Leads h (Fate taskId n broken) (answer L taskId status fields) :=
  (leads_answer hs hr).mono fun _ _ ht => .inl ht

theorem fate_raise {e : Error} (he : e.kind ≠ .cutShort) (hr : results h = []) (hb : broken h) :
    Leads h (Fate (α := α) taskId n broken) (.raise e) :=
  .inr (.inl ⟨e, rfl, he, hr, hb⟩)

def Op.silent : Op F → Bool
  | .isDir _ | .writeFile _ _ _ | .sendEvent _ => false
  | _ => true

theorem plain_of_silent {o : Op F} (h : o.silent = true) : o.plain = true := by
  cases o <;> first | rfl | cases h

def Later (h h' : History F) : Prop := ∃ k, h' = h ++ k ∧ ∀ e ∈ k, e.op.silent = true

theorem Later.refl (h : History F) : Later h h := ⟨[], by simp, by simp⟩

theorem Later.trans {h'' : History F} (hl : Later h h') (hl' : Later h' h'') : Later h h'' := by
  obtain ⟨k, rfl, hk⟩ := hl
  obtain ⟨k', rfl, hk'⟩ := hl'
  exact ⟨k ++ k', List.append_assoc .., List.forall_mem_append.mpr ⟨hk, hk'⟩⟩

theorem Later.snoc {e : Event (sig F) Error} (hl : Later h h') (he : e.op.silent = true) :
    Later h (h' ++ [e]) :=
  hl.trans ⟨[e], rfl, by simpa using he⟩

theorem Later.settled (hl : Later h h') (hs : Settled broken h) : Settled broken h' := by
  obtain ⟨k, rfl, hk⟩ := hl
  exact hs.append fun e he => plain_of_silent (hk e he)

theorem results_silent {k : History F} (hk : ∀ e ∈ k, e.op.silent = true) :
    results (h ++ k) = results h := by
  rw [results_append, List.append_right_eq_self]
  refine List.filterMap_eq_nil_iff.mpr fun e he => ?_
  have hsilent := hk e he
  cases ho : e.op with
  | sendEvent event =>
    rw [ho] at hsilent
    cases hsilent
  | _ => rfl

theorem Later.results (hl : Later h h') : results h' = results h := by
  obtain ⟨k, rfl, hk⟩ := hl
  exact results_silent hk

theorem naps_append (h k : History F) : naps (h ++ k) = naps h + naps k :=
  List.countP_append

theorem Later.naps (hl : Later h h') : naps h ≤ naps h' := by
  obtain ⟨k, rfl, -⟩ := hl
  rw [naps_append]
  omega

/-! ### Commands -/

/-- Between two answers nothing is sent, and a loop that is cut short has napped as often as it
may. -/
def Between (h : History F) (patience : Nat) (h' : History F) (r : Except Error α) : Prop :=
  Later h h' ∧ ∀ e, r = .error e → e.kind = .cutShort → naps h + patience ≤ naps h'

theorem between_ok {a : α} (hl : Later h h') : Between h n h' (.ok a) :=
  ⟨hl, fun e he => by cases he⟩

theorem between_error {o : Op F} {e : Error} (hl : Later h h') (he : Sound o (.error e)) :
    Between (α := α) h n h' (.error e) := by
  refine ⟨hl, fun e' h' hk => ?_⟩
  cases h'
  exact absurd hk (he.real e rfl)

theorem leads_op {o : Op F} (ho : o.silent = true) (hl : Later h h') :
    Leads h' (Between h n) (perform o) := by
  refine ⟨trivial, fun x hx => ?_⟩
  cases x with
  | ok a => exact between_ok (hl.snoc ho)
  | error e => exact between_error (hl.snoc ho) hx

theorem between_perform {o : Op F} {f : o.Ret → Call F α} (ho : o.silent = true)
    (hl : Later h h') (hf : ∀ a, Later h (h' ++ [⟨o, .ok a⟩]) →
      Leads (h' ++ [⟨o, .ok a⟩]) (Between h n) (f a)) :
    Leads h' (Between h n) ((perform o).bind f) := by
  apply leads_perform
  · exact fun a => hf a (hl.snoc ho)
  · exact fun e he => between_error (hl.snoc ho) he

theorem leads_stopCommand {pid : Nat} (hl : Later h h') :
    Leads h' (Between h n) (stopCommand (F := F) pid) := by
  apply Leads.tryCatch (M := Between h n)
  · apply between_perform rfl hl
    exact fun _ hl => leads_op rfl hl
  · exact fun _ _ hb => hb
  · intro h₁ e hb
    split
    next => exact leads_op rfl hb.1
    next => exact hb

theorem leads_awaitCommand [FloatArith F] {pid : Nat} {start timeout : F} {patience : Nat}
    (hl : Later h h') (hn : naps h + n ≤ naps h' + patience) :
    Leads h' (Between h n) (awaitCommand pid start timeout patience) := by
  induction patience generalizing h' with
  | zero => exact ⟨hl, fun e he _ => by omega⟩
  | succ patience ih =>
    apply between_perform rfl hl
    intro polled hl
    split
    next => exact between_ok hl
    next =>
      apply between_perform rfl hl
      intro cancelled hl
      split
      next =>
        apply (leads_stopCommand hl).bind
        · exact fun _ _ hb => between_ok hb.1
        · exact fun _ _ hb => ⟨hb.1, fun e he hk => hb.2 e (by cases he; rfl) hk⟩
      next =>
        apply between_perform rfl hl
        intro now hl
        split
        next =>
          apply between_perform rfl hl
          exact fun _ hl => between_ok hl
        next =>
          apply between_perform rfl hl
          intro u hl
          apply ih hl
          have hnap : naps [(⟨.sleep, .ok u⟩ : Event (sig F) Error)] = 1 := rfl
          simp only [naps_append, hnap] at hn ⊢
          omega

variable [FloatArith F] {E : Env F} {B : Builtins F} {host : Host} {A : Args F} {L : Local F}
variable {payload : Dict String (Json F)} {patience : Nat} {argv : List String}

def Ran (taskId : Json F) (broken : History F → Prop) (h : History F) (patience : Nat)
    (h' : History F) (r : Except Error α) : Prop :=
  Told taskId broken h' r ∨ ∃ e, r = .error e ∧ Between (α := α) h patience h' (.error e)

omit [FloatArith F] in
theorem ran_answer {status : String} {fields : Dict String (Json F)} (hs : Settled broken h)
    (hr : results h = []) (hl : Later h h') :
    Leads h' (Ran taskId broken h n) (answer L taskId status fields) :=
  (leads_answer (hl.settled hs) (hl.results.trans hr)).mono fun _ _ ht => .inl ht

omit [FloatArith F] in
theorem ran_perform {o : Op F} {f : o.Ret → Call F α} (ho : o.silent = true) (hl : Later h h')
    (hf : ∀ a, Later h (h' ++ [⟨o, .ok a⟩]) →
      Leads (h' ++ [⟨o, .ok a⟩]) (Ran taskId broken h n) (f a)) :
    Leads h' (Ran taskId broken h n) ((perform o).bind f) := by
  apply leads_perform
  · exact fun a => hf a (hl.snoc ho)
  · exact fun e he => .inr ⟨e, rfl, between_error (hl.snoc ho) he⟩

omit [FloatArith F] in
theorem leads_reportCommand {pid : Nat} {finished : Finished} {duration : F}
    (hs : Settled broken h) (hr : results h = []) (hl : Later h h') :
    Leads h' (Ran taskId broken h n)
      (reportCommand B A L taskId payload argv pid finished duration) := by
  rw [reportCommand]
  split
  next e text _ =>
    refine .inr ⟨_, rfl, hl, fun e' he hk => ?_⟩
    cases he
    exact absurd hk (kindOf_ne_cutShort e)
  next =>
    dsimp only
    split
    next => exact ran_answer hs hr hl
    next => exact ran_answer hs hr hl

theorem leads_runCommand {cwd : Option (Json F)} {start timeout : F} (hs : Settled broken h)
    (hr : results h = []) :
    Leads h (Ran taskId broken h patience)
      (runCommand B A patience L taskId payload argv cwd start timeout) := by
  apply ran_perform rfl (.refl h)
  intro pid hl
  apply ran_perform rfl hl
  intro _ hl
  apply (leads_awaitCommand (n := patience) hl (by simp only [naps_append]; omega)).bind
  · intro h₁ ending hb
    apply ran_perform rfl hb.1
    intro _ hl
    apply ran_perform rfl hl
    intro cancelled hl
    split
    next => exact ran_answer hs hr hl
    next =>
      apply ran_perform rfl hl
      intro finished hl
      apply ran_perform rfl hl
      intro stop hl
      split
      next => exact ran_answer hs hr hl
      next => exact leads_reportCommand hs hr hl
  · exact fun h₁ e hb =>
      .inr ⟨e, rfl, hb.1, fun e' he hk => hb.2 e (by cases he; rfl) (by cases he; exact hk)⟩

theorem fate_runCommand {cwd : Option (Json F)} {start timeout : F} (hs : Settled broken h)
    (hr : results h = []) :
    Leads h (Fate taskId patience broken)
      ((runCommand B A patience L taskId payload argv cwd start timeout).tryCatch
        (commandFailed L taskId)) := by
  apply (leads_runCommand hs hr).tryCatch
  · intro h₁ L' hran
    rcases hran with ht | ⟨e, he, -⟩
    · exact .inl ht
    · cases he
  · intro h₁ e hran
    rcases hran with ⟨_, _, he, -⟩ | ⟨e', he, hb⟩
    · cases he
    · cases he
      rw [commandFailed]
      split
      next hk =>
        have hnaps := hb.2 e rfl hk
        exact .inr (.inr ⟨e, rfl, hk, hb.1.results.trans hr, le_trans (Nat.le_add_left ..) hnaps⟩)
      next => exact fate_answer (hb.1.settled hs) (hb.1.results.trans hr)

omit [FloatArith F] in
theorem firstNow_append {now : F} {k : History F} (hh : firstNow h = some now) :
    firstNow (h ++ k) = some now := by
  rw [firstNow, List.findSome?_append, ← firstNow, hh]
  rfl

omit [FloatArith F] in
theorem firstFlag_append (h k : History F) :
    firstFlag (h ++ k) = (firstFlag h).or (firstFlag k) :=
  List.findSome?_append

omit [FloatArith F] in
theorem dirRaised_append (h k : History F) : dirRaised (h ++ k) ↔ dirRaised h ∨ dirRaised k := by
  simp only [dirRaised, List.mem_append, exists_or]

omit [FloatArith F] in
theorem not_dirRaised {k : History F} (hk : ∀ e ∈ k, e.op.plain = true) : ¬ dirRaised k := by
  intro ⟨path, e, he⟩
  cases hk _ he

/-- A command that is to be started: its ticket is accepted, and has not served before. -/
structure Admitted (E : Env F) (B : Builtins F) (A : Args F) (L : Local F) (taskId : Json F)
    (payload : Dict String (Json F)) (command : Json F) (argv : List String) (now : F) : Prop where
  parsed : commandList B command = some argv
  ticket : (fetch payload "execution_ticket").truthy = true ∧ A.sessionSecret ≠ ""
  accepted : (verifyTicketBinding E B now (fetch payload "execution_ticket") A.sessionSecret
    A.workerId taskId argv (effectiveWorkspace A payload)).1 = true
  hashable : ((((fetch payload "execution_ticket").members.getD []).get? "action_id").getD
    (.str "")).hashable = true
  fresh : ((((fetch payload "execution_ticket").members.getD []).get? "action_id").getD
    (.str "")).isMember L.consumedActionIds = false

theorem Admitted.breaks_iff {command : Json F} {now : F}
    (ha : Admitted E B A L taskId payload command argv now) (hnow : firstNow h = some now) :
    CommandBreaks E B A L taskId payload command h ↔ firstFlag h = some false ∧
      (dirRaised h ∨ fails ((payload.get? "timeout").getD (.float (30 : Nat))).toFloat) := by
  constructor
  · rintro ⟨argv', now', -, -, -, -, -, hh | ⟨-, hb⟩⟩
    · rw [ha.hashable] at hh
      cases hh
    · exact hb
  · exact fun hb => ⟨argv, now, ha.parsed, ha.ticket.1, ha.ticket.2, hnow, ha.accepted,
      .inr ⟨ha.fresh, hb⟩⟩

theorem fate_spawn {command : Json F} {now : F} {L' : Local F} {cwd : Option (Json F)}
    (ha : Admitted E B A L taskId payload command argv now) (hnow : firstNow h = some now)
    (hflag : firstFlag h = some false) (hdir : ¬ dirRaised h) (hr : results h = []) :
    Leads h (Fate taskId patience (CommandBreaks E B A L taskId payload command)) (do
      let start ← perform .now
      let timeout ← Proc.ofExcept (ofNumber
        ((payload.get? "timeout").getD (.float (30 : Nat))).toFloat)
      (runCommand B A patience L' taskId payload argv cwd start timeout).tryCatch
        (commandFailed L' taskId)) := by
  apply leads_steady rfl
  intro start
  have hlater : Later h (h ++ [⟨.now, .ok start⟩]) := (Later.refl h).snoc rfl
  cases ht : ((payload.get? "timeout").getD (.float (30 : Nat))).toFloat with
  | error e =>
    apply fate_raise
    · cases e <;> exact fun hk => by cases hk
    · exact hlater.results.trans hr
    · rw [ha.breaks_iff (firstNow_append hnow), ht, firstFlag_append, hflag]
      exact ⟨rfl, .inr trivial⟩
  | ok timeout =>
    apply fate_runCommand _ (hlater.results.trans hr)
    intro k hk hb
    rw [List.append_assoc, ha.breaks_iff (firstNow_append hnow), ht, dirRaised_append] at hb
    rcases hb.2 with (hb | hb) | hb
    · exact hdir hb
    · exact not_dirRaised (List.forall_mem_cons.mpr ⟨rfl, hk⟩) hb
    · exact hb

theorem fate_startCommand {command : Json F} {now : F} {L' : Local F}
    (ha : Admitted E B A L taskId payload command argv now) (hnow : firstNow h = some now)
    (hflag : firstFlag h = none) (hdir : ¬ dirRaised h) (hr : results h = []) :
    Leads h (Fate taskId patience (CommandBreaks E B A L taskId payload command))
      (startCommand B A patience L' taskId payload argv (effectiveWorkspace A payload)) := by
  apply leads_steady rfl
  intro cancelled
  have hlater : Later h (h ++ [⟨.isCancelled, .ok cancelled⟩]) := (Later.refl h).snoc rfl
  have hread : firstFlag (h ++ [⟨.isCancelled, .ok cancelled⟩]) = some cancelled := by
    rw [firstFlag_append, hflag]
    rfl
  have hdir' : ¬ dirRaised (h ++ [⟨.isCancelled, .ok cancelled⟩]) := by
    rw [dirRaised_append]
    exact fun hb => hb.elim hdir (not_dirRaised (by simp [Op.plain]))
  cases cancelled with
  | true =>
    apply fate_answer _ (hlater.results.trans hr)
    intro k _ hb
    rw [ha.breaks_iff (firstNow_append (firstNow_append hnow)), firstFlag_append, hread] at hb
    cases hb.1
  | false =>
    cases hws : (effectiveWorkspace A payload).truthy with
    | false => exact fate_spawn ha (firstNow_append hnow) hread hdir' (hlater.results.trans hr)
    | true =>
      apply leads_perform
      · intro dir
        apply fate_spawn ha (firstNow_append (firstNow_append hnow))
        · rw [firstFlag_append, hread]
          rfl
        · rw [dirRaised_append]
          rintro (hb | ⟨path, e, hb⟩)
          · exact hdir' hb
          · rw [List.mem_singleton] at hb
            cases hb
        · rw [results_append, hlater.results, hr]
          rfl
      · intro e he
        refine .inr (.inl ⟨e, rfl, he.real e rfl, ?_, ?_⟩)
        · rw [results_append, hlater.results, hr]
          rfl
        · rw [ha.breaks_iff (firstNow_append (firstNow_append hnow)), firstFlag_append, hread,
            dirRaised_append]
          exact ⟨rfl, .inl (.inr ⟨_, e, List.mem_singleton_self _⟩)⟩

structure Fresh (h : History F) : Prop where
  now : firstNow h = none
  flag : firstFlag h = none
  dir : ¬ dirRaised h
  file : ¬ fileRaised h
  results : results h = []

theorem fate_commandTask {command : Json F} (hh : Fresh h) :
    Leads h (Fate taskId patience (CommandBreaks E B A L taskId payload command))
      (commandTask E B A patience L taskId payload command) := by
  rw [commandTask]
  split
  next hnone =>
    apply fate_answer _ hh.results
    rintro k _ ⟨argv, now, hargv, -⟩
    rw [hnone] at hargv
    cases hargv
  next argv hargv =>
    dsimp only
    split
    next hticket =>
      apply fate_answer _ hh.results
      rintro k _ ⟨argv, now, -, htruthy, hsecret, -⟩
      rcases hticket with hfalse | hempty
      · rw [hfalse] at htruthy
        cases htruthy
      · exact hsecret hempty
    next hticket =>
      apply leads_steady rfl
      intro now
      have hlater : Later h (h ++ [⟨.now, .ok now⟩]) := (Later.refl h).snoc rfl
      have hnow : firstNow (h ++ [⟨.now, .ok now⟩]) = some now := by
        rw [firstNow, List.findSome?_append, ← firstNow, hh.now]
        rfl
      have hargs {k : History F} {argv' : List String} {now' : F}
          (hargv' : commandList B command = some argv')
          (hnow' : firstNow (h ++ [⟨.now, .ok now⟩] ++ k) = some now') :
          argv' = argv ∧ now' = now := by
        rw [hargv] at hargv'
        rw [firstNow_append hnow] at hnow'
        exact ⟨(Option.some.inj hargv').symm, (Option.some.inj hnow').symm⟩
      split
      next hinvalid =>
        apply fate_answer _ (hlater.results.trans hh.results)
        rintro k _ ⟨argv', now', hargv', -, -, hnow', hvalid, -⟩
        obtain ⟨rfl, rfl⟩ := hargs hargv' hnow'
        rw [hinvalid] at hvalid
        cases hvalid
      next hvalid =>
        split
        next hhash =>
          apply fate_raise (fun hk => by cases hk) (hlater.results.trans hh.results)
          exact ⟨argv, now, hargv, by simpa using fun hf => hticket (.inl hf),
            fun hs => hticket (.inr hs), hnow, by simpa using hvalid, .inl hhash⟩
        next hhash =>
          split
          next hmember =>
            apply fate_answer _ (hlater.results.trans hh.results)
            rintro k _ ⟨argv', now', -, -, -, -, -, hb | ⟨hb, -⟩⟩
            · exact hhash hb
            · rw [hmember] at hb
              cases hb
          next hmember =>
            refine fate_startCommand ?_ hnow ?_ ?_ ?_
            · exact ⟨hargv, ⟨by simpa using fun hf => hticket (.inl hf),
                fun hs => hticket (.inr hs)⟩, by simpa using hvalid, by simpa using hhash,
                by simpa using hmember⟩
            · rw [firstFlag_append, hh.flag]
              rfl
            · rw [dirRaised_append]
              exact fun hb => hb.elim hh.dir (not_dirRaised (by simp [Op.plain]))
            · exact hlater.results.trans hh.results

/-! ### Instructions -/

omit [FloatArith F] in
theorem fileRaised_append (h k : History F) :
    fileRaised (h ++ k) ↔ fileRaised h ∨ fileRaised k := by
  simp only [fileRaised, List.mem_append, or_and_right, exists_or]

omit [FloatArith F] in
theorem not_fileRaised {k : History F} (hk : ∀ e ∈ k, e.op.plain = true) : ¬ fileRaised k := by
  intro ⟨workspace, name, content, e, he, _⟩
  cases hk _ he

def Spoiled (invalid : Prop) (h : History F) : Prop := invalid ∨ fileRaised h

omit [FloatArith F] in
theorem settled_spoiled {invalid : Prop} (hv : ¬ invalid) (hf : ¬ fileRaised h) :
    Settled (Spoiled invalid) h := by
  intro k hk hb
  rw [Spoiled, fileRaised_append] at hb
  rcases hb with hb | hb | hb
  · exact hv hb
  · exact hf hb
  · exact not_fileRaised hk hb

def Executed (taskId : Json F) (invalid : Prop) (h : History F) :
    Except Error (Dict String (Json F)) → Prop
  | .ok res => results h = [] ∧ (fetch res "type").text = some "RESULT" ∧
      res.get? "task_id" = some taskId ∧ Settled (Spoiled invalid) h
  | .error e => results h = [] ∧ e.kind ≠ .cutShort ∧
      if e.kind.handled then Settled (Spoiled invalid) h else Spoiled invalid h

variable {invalid : Prop} {a : HarnessAdapter} {config : ExecutionConfig F}
variable {required : List HarnessCapability} {instruction : String} {workspacePath : Json F}

omit [FloatArith F] in
theorem executed_refusal {status : String} {fields : Dict String (Json F)}
    (hs : Settled (Spoiled invalid) h) (hr : results h = []) :
    Leads h (Executed taskId invalid) (refusal taskId status fields) := by
  apply leads_steady rfl
  intro timestamp
  have hlater : Later h (h ++ [⟨.now, .ok timestamp⟩]) := (Later.refl h).snoc rfl
  refine ⟨hlater.results.trans hr, ?_, ?_, hlater.settled hs⟩
  · simp [fetch, Dict.get?_cons, Json.text]
  · simp [Dict.get?_cons]

theorem workspaceOf_error {e : Error} (he : workspaceOf workspacePath = .error e) :
    e.kind = .type := by
  rw [workspaceOf] at he
  split at he
  next => cases he
  next =>
    split at he
    next =>
      cases he
      rfl
    next => cases he

theorem executed_createFile {start : F} (hv : ¬ invalid) (hf : ¬ fileRaised h)
    (hr : results h = []) :
    Leads h (Executed taskId invalid) (createFile taskId instruction workspacePath start) := by
  rw [createFile]
  split
  next => exact executed_refusal (settled_spoiled hv hf) hr
  next name content _ =>
    cases hw : workspaceOf workspacePath with
    | error e =>
      have hk := workspaceOf_error hw
      exact ⟨hr, by rw [hk]; decide, by rw [hk]; exact settled_spoiled hv hf⟩
    | ok workspace =>
      have hwritten {x : Except Error String} (hx : ∀ e, x = .error e → e.kind.handled = true) :
          ¬ fileRaised (h ++ [⟨.writeFile workspace name content, x⟩]) := by
        rw [fileRaised_append]
        rintro (hb | ⟨_, _, _, e, hmem, hunhandled⟩)
        · exact hf hb
        · rw [List.mem_singleton] at hmem
          cases hmem
          rw [hx e rfl] at hunhandled
          cases hunhandled
      apply leads_perform
      · intro path
        apply leads_steady rfl
        intro stop
        apply leads_steady rfl
        intro timestamp
        rw [List.append_assoc]
        refine ⟨?_, ?_, ?_, ?_⟩
        · rw [results_silent (by simp [Op.silent]), results_append, hr]
          rfl
        · simp [fetch, Dict.get?_cons, Json.text]
        · simp [Dict.get?_cons]
        · exact (settled_spoiled hv (hwritten fun e he => by cases he)).append (by simp [Op.plain])
      · intro e he
        refine ⟨by rw [results_append, hr]; rfl, he.real e rfl, ?_⟩
        split
        next hk => exact settled_spoiled hv (hwritten fun e' he' => by cases he'; exact hk)
        next hk =>
          refine .inr ((fileRaised_append ..).mpr
            (.inr ⟨_, _, _, e, List.mem_singleton_self _, ?_⟩))
          simpa using hk

theorem supports_error {v : Json F} {xs : List String} {e : Error}
    (he : supports v xs = .error e) : e.kind = .attribute := by
  rw [supports] at he
  split at he
  next => cases he
  next =>
    split at he
    next =>
      cases he
      rfl
    next => cases he

theorem validate_error {e : Error}
    (he : validateExecutionConfig B host a config required = .error e) : e.kind = .attribute := by
  rw [validateExecutionConfig] at he
  split at he
  next => cases he
  split at he
  next => cases he
  split at he
  next => cases he
  rcases bind_error.mp he with hmodel | ⟨model, -, he⟩
  · exact supports_error hmodel
  split at he
  next => cases he
  rcases bind_error.mp he with hprovider | ⟨provider, -, he⟩
  · exact supports_error hprovider
  split at he
  next => cases he
  split at he
  next => split at he <;> cases he
  next => cases he

theorem validate_unavailable (h : host.available a = false) :
    ¬ fails (validateExecutionConfig B host a config required) := by
  rw [validateExecutionConfig, if_pos h]
  exact id

theorem validate_strings {model provider : String} {effort fallback : Json F}
    {budgetTokens : Option Int} {tokens : Int} :
    ¬ fails (validateExecutionConfig B host a
      ⟨.str model, .str provider, effort, budgetTokens, tokens, fallback⟩ required) := by
  have hok (s : String) (xs : List String) {e : Error} :
      supports (.str s : Json F) xs ≠ .error e := by
    rw [supports]
    split
    next => exact nofun
    next => exact nofun
  cases hv : validateExecutionConfig B host a
      ⟨.str model, .str provider, effort, budgetTokens, tokens, fallback⟩ required with
  | ok v => exact id
  | error e =>
    rw [validateExecutionConfig] at hv
    split at hv
    next => cases hv
    split at hv
    next => cases hv
    split at hv
    next => cases hv
    rcases bind_error.mp hv with hmodel | ⟨_, -, hv⟩
    · exact absurd hmodel (hok _ _)
    split at hv
    next => cases hv
    rcases bind_error.mp hv with hprovider | ⟨_, -, hv⟩
    · exact absurd hprovider (hok _ _)
    split at hv
    next => cases hv
    split at hv
    next => split at hv <;> cases hv
    next => cases hv

theorem executed_validate {f : Option (String × String) → Call F (Dict String (Json F))}
    (hiff : fails (validateExecutionConfig B host a config required) ↔ invalid)
    (hr : results h = []) (hf : ¬ invalid → ∀ v, Leads h (Executed taskId invalid) (f v)) :
    Leads h (Executed taskId invalid)
      ((Proc.ofExcept (validateExecutionConfig B host a config required)).bind f) := by
  cases hv : validateExecutionConfig B host a config required with
  | error e =>
    have hk := validate_error hv
    rw [hv] at hiff
    refine ⟨hr, by rw [hk]; decide, ?_⟩
    rw [hk]
    exact .inl (hiff.mp trivial)
  | ok v =>
    rw [hv] at hiff
    exact hf (fun hi => hiff.mpr hi) v

theorem executed_executeNative
    (hiff : fails (validateExecutionConfig B host nativeHarness config required) ↔ invalid)
    (hf : ¬ fileRaised h) (hr : results h = []) :
    Leads h (Executed taskId invalid)
      (executeNative B host taskId instruction config workspacePath required) := by
  apply leads_steady rfl
  intro start
  have hlater : Later h (h ++ [⟨.now, .ok start⟩]) := (Later.refl h).snoc rfl
  have hf' : ¬ fileRaised (h ++ [⟨.now, .ok start⟩]) := by
    rw [fileRaised_append]
    exact fun hb => hb.elim hf (not_fileRaised (by simp [Op.plain]))
  apply executed_validate hiff (hlater.results.trans hr)
  intro hvalid v
  split
  next => exact executed_refusal (settled_spoiled hvalid hf') (hlater.results.trans hr)
  next => exact executed_createFile hvalid hf' (hlater.results.trans hr)

omit [FloatArith F] in
theorem executed_set {p : Call F (Dict String (Json F))} {k k' : String} {v v' : Json F}
    (hp : Leads h (Executed taskId invalid) p) (hk : k ≠ "type" ∧ k ≠ "task_id")
    (hk' : k' ≠ "type" ∧ k' ≠ "task_id") :
    Leads h (Executed taskId invalid) (p.bind fun res => .ret ((res.set k v).set k' v')) := by
  apply hp.bind
  · rintro h' res ⟨hr, htype, htask, hs⟩
    refine ⟨hr, ?_, ?_, hs⟩
    · rw [fetch, Dict.get?_set, Dict.get?_set, if_neg hk'.1, if_neg hk.1]
      exact htype
    · rw [Dict.get?_set, Dict.get?_set, if_neg hk'.2, if_neg hk.2]
      exact htask
  · exact fun _ _ he => he

theorem executed_fallBack (hvalid : ¬ invalid) (hf : ¬ fileRaised h) (hr : results h = []) :
    Leads h (Executed taskId invalid)
      (fallBack B host a taskId instruction config workspacePath required) := by
  have hs := settled_spoiled hvalid hf
  rw [fallBack]
  split
  next =>
    split
    next => exact executed_refusal hs hr
    next =>
      split
      next => exact executed_refusal hs hr
      next =>
        apply executed_set _ (by decide) (by decide)
        apply executed_executeNative _ hf hr
        exact iff_of_false validate_strings hvalid
  next => exact executed_refusal hs hr

theorem executed_execute (ha : a ∈ registry)
    (hiff : fails (validateExecutionConfig B host a config required) ↔ invalid)
    (hf : ¬ fileRaised h) (hr : results h = []) :
    Leads h (Executed taskId invalid)
      (execute B host a taskId instruction config workspacePath required) := by
  rw [execute]
  split
  next hnative =>
    have heq : ∀ a ∈ registry, a.execution = .native → a = nativeHarness := by decide
    rw [heq a ha hnative] at hiff
    exact executed_executeNative hiff hf hr
  next title hosted hreporting =>
    split
    next hmissing =>
      have hunavailable : host.available a = false := hmissing.2
      exact executed_fallBack (fun hi => validate_unavailable hunavailable (hiff.mpr hi)) hf hr
    next =>
      apply executed_validate hiff hr
      intro hvalid v
      have hs := settled_spoiled hvalid hf
      split
      next => exact executed_refusal hs hr
      next =>
        apply leads_steady rfl
        intro start
        apply leads_steady rfl
        intro stop
        apply leads_steady rfl
        intro timestamp
        rw [List.append_assoc, List.append_assoc]
        refine ⟨?_, ?_, ?_, hs.append (by simp [Op.plain])⟩
        · exact (results_silent (by simp [Op.silent])).trans hr
        · simp [fetch, Dict.get?_cons, Json.text]
        · simp [Dict.get?_cons]
  next hunwired =>
    have hunavailable : host.available a = false := by rw [Host.available, hunwired]
    exact executed_fallBack (fun hi => validate_unavailable hunavailable (hiff.mpr hi)) hf hr

omit [FloatArith F] in
theorem getHarness_ok {name : String} (ha : getHarness B name = .ok a) : a ∈ registry := by
  rw [getHarness] at ha
  split at ha
  next hfind =>
    cases ha
    exact List.mem_of_find?_eq_some hfind
  next => cases ha

omit [FloatArith F] in
theorem getHarness_error {name : String} {e : Error} (he : getHarness B name = .error e) :
    e.kind = .key := by
  rw [getHarness] at he
  split at he
  next => cases he
  next =>
    cases he
    rfl

omit [FloatArith F] in
theorem requiredCapabilities_error {raw : Json F} {e : Error}
    (he : requiredCapabilities raw = .error e) : e.kind = .value := by
  have hmapM {names : List String} {f : String → Except Error HarnessCapability}
      (hf : ∀ name e, f name = .error e → e.kind = .value) (hm : names.mapM f = .error e) :
      e.kind = .value := by
    induction names with
    | nil => cases hm
    | cons name names ih =>
      rw [List.mapM_cons] at hm
      rcases bind_error.mp hm with hname | ⟨_, -, hm⟩
      · exact hf name e hname
      rcases bind_error.mp hm with hrest | ⟨_, -, hm⟩
      · exact ih hrest
      · cases hm
  unfold requiredCapabilities at he
  split at he
  next =>
    split at he
    next =>
      cases he
      rfl
    next =>
      split at he
      next =>
        cases he
        rfl
      next =>
        apply hmapM _ he
        intro name e' he'
        split at he'
        next => cases he'
        next =>
          cases he'
          rfl
  next =>
    cases he
    rfl

omit [FloatArith F] in
theorem metered_members (L : Local F) (res : Dict String (Json F)) {k : String}
    (hk : k ≠ "tokens_consumed" ∧ k ≠ "remaining_tokens") :
    (metered A L res).2.get? k = res.get? k := by
  rw [metered]
  split
  next =>
    dsimp only
    split
    next => rw [Dict.get?_set, if_neg (Ne.symm hk.1)]
    next => rw [Dict.get?_set, if_neg (Ne.symm hk.2), Dict.get?_set, if_neg (Ne.symm hk.1)]
  next => rfl

theorem leads_runInstruction {instruction : Json F} (hf : ¬ fileRaised h) (hr : results h = []) :
    Leads h (fun h' r => Told taskId (InstructionBreaks B host A L payload) h' r ∨
        ∃ e, r = .error e ∧ results h' = [] ∧ e.kind ≠ .cutShort ∧
          if e.kind.handled then Settled (InstructionBreaks B host A L payload) h'
          else InstructionBreaks B host A L payload h')
      (runInstruction B host A L taskId payload instruction) := by
  rw [runInstruction]
  cases ha : getHarness B L.harnessName with
  | error e =>
    have hk := getHarness_error ha
    refine .inr ⟨e, rfl, hr, by rw [hk]; decide, ?_⟩
    rw [hk]
    apply settled_spoiled _ hf
    rintro ⟨a, _, hok, -⟩
    rw [ha] at hok
    cases hok
  | ok a =>
    cases hreq : (if (fetch payload "required_capabilities").truthy then
        requiredCapabilities (fetch payload "required_capabilities") else .ok []) with
    | error e =>
      have hk : e.kind = .value := by
        split at hreq
        next => exact requiredCapabilities_error hreq
        next => cases hreq
      simp only [hreq]
      refine .inr ⟨e, rfl, hr, by rw [hk]; decide, ?_⟩
      rw [hk]
      apply settled_spoiled _ hf
      rintro ⟨_, required, -, hok, -⟩
      rw [hreq] at hok
      cases hok
    | ok required =>
      simp only [hreq]
      have hiff : fails (validateExecutionConfig B host a (configOf A L payload) required) ↔
          ∃ a required, getHarness B L.harnessName = .ok a ∧
            (if (fetch payload "required_capabilities").truthy then
              requiredCapabilities (fetch payload "required_capabilities") else .ok []) =
                .ok required ∧
            fails (validateExecutionConfig B host a (configOf A L payload) required) := by
        constructor
        · exact fun hv => ⟨a, required, ha, hreq, hv⟩
        · rintro ⟨a', required', ha', hreq', hv⟩
          cases ha.symm.trans ha'
          cases hreq.symm.trans hreq'
          exact hv
      apply (executed_execute (getHarness_ok ha) hiff hf hr).bind
      · rintro h' res ⟨hr', htype, htask, hs⟩
        apply leads_steady rfl
        intro _
        refine .inl ⟨_, (metered A L res).2, rfl, ?_, ?_, (hs.append (by simp [Op.plain])).not⟩
        · rw [results_append, hr']
          rw [fetch, ← metered_members (A := A) L res (k := "type") (by decide)] at htype
          simp [results, fetch, htype]
        · rw [metered_members L res (by decide)]
          exact htask
      · exact fun h' e he => .inr ⟨e, rfl, he⟩

theorem fate_instructionTask {instruction : Json F} (hf : ¬ fileRaised h) (hr : results h = []) :
    Leads h (Fate taskId n (InstructionBreaks B host A L payload))
      (instructionTask B host A L taskId payload instruction) := by
  apply (leads_runInstruction hf hr).tryCatch
  · rintro h' L' (ht | ⟨e, he, -⟩)
    · exact .inl ht
    · cases he
  · rintro h' e (⟨_, _, he, -⟩ | ⟨e', he, hr', hreal, hs⟩)
    · cases he
    · cases he
      rw [instructionFailed]
      split
      next hk =>
        rw [hk] at hs
        exact fate_answer hs hr'
      next hk =>
        rw [hk] at hs
        exact fate_answer hs hr'
      next hk =>
        rw [hk] at hs
        exact fate_answer hs hr'
      next hkey hvalue htype =>
        apply fate_raise hreal hr'
        have hunhandled : e.kind.handled = false := by
          unfold Kind.handled
          split
          next hk => exact absurd hk hkey
          next hk => exact absurd hk hvalue
          next hk => exact absurd hk htype
          next => rfl
        rw [hunhandled] at hs
        exact hs

/-! ## Tasks -/

theorem ofNumber_error {γ : Type} (e : NumberError) :
    ∃ e', ofNumber (.error e : Except NumberError γ) = .error e' ∧ e'.kind ≠ .cutShort := by
  cases e <;> exact ⟨_, rfl, fun hk => by cases hk⟩

theorem fate_sleepTask {duration : Json F} (hr : results h = [])
    (hb : ∀ h, broken h ↔ fails duration.toFloat) :
    Leads h (Fate taskId n broken) (sleepTask L taskId duration) := by
  rw [sleepTask]
  cases hd : duration.toFloat with
  | error e =>
    obtain ⟨e', he, hreal⟩ := ofNumber_error (γ := F) e
    rw [he]
    apply fate_raise hreal hr
    rw [hb, hd]
    trivial
  | ok seconds =>
    have hs (h' : History F) : Settled broken h' := by
      intro k _ hbroken
      rw [hb, hd] at hbroken
      exact hbroken
    apply leads_steady rfl
    intro wasCancelled
    have hlater : Later h (h ++ [⟨.waitCancelled (min seconds (10 : Nat)), .ok wasCancelled⟩]) :=
      (Later.refl h).snoc rfl
    cases wasCancelled with
    | true => exact fate_answer (hs _) (hlater.results.trans hr)
    | false =>
      apply leads_steady rfl
      intro cancelled
      have hlater' := hlater.snoc (e := ⟨.isCancelled, .ok cancelled⟩) rfl
      split
      next => exact fate_answer (hs _) (hlater'.results.trans hr)
      next => exact fate_answer (hs _) (hlater'.results.trans hr)

theorem fate_plainTask (hf : ¬ fileRaised h) (hr : results h = []) :
    Leads h (Fate taskId n (PlainBreaks B host A L payload))
      (plainTask B host A L taskId payload) := by
  rw [plainTask]
  cases hpos : ((payload.get? "duration").getD (.int 0)).isPositive with
  | error e =>
    obtain ⟨e', he, hreal⟩ := ofNumber_error (γ := Bool) e
    rw [he]
    apply fate_raise hreal hr
    simp only [PlainBreaks, hpos]
  | ok positive =>
    cases positive with
    | true =>
      apply fate_sleepTask hr
      intro h
      simp only [PlainBreaks, hpos]
    | false =>
      have hbroken (h : History F) : PlainBreaks B host A L payload h ↔
          (fetch payload "instruction").truthy = true ∧
            InstructionBreaks B host A L payload h := by
        simp only [PlainBreaks, hpos]
      change Leads h _ (if (fetch payload "instruction").truthy then _ else _)
      split
      next hinstruction =>
        rw [show PlainBreaks B host A L payload = InstructionBreaks B host A L payload from
          funext fun h => propext ((hbroken h).trans (and_iff_right hinstruction))]
        exact fate_instructionTask hf hr
      next hinstruction =>
        apply fate_answer _ hr
        intro k _ hb
        exact hinstruction ((hbroken _).mp hb).1

theorem overBudget_error {requested : Json F} {e : Error}
    (he : overBudget A L requested = .error e) : e.kind ≠ .cutShort := by
  rw [overBudget] at he
  split at he
  next => cases he
  next budget _ =>
    cases hsum : Json.sumExceeds L.totalTokensConsumed requested budget with
    | ok b =>
      rw [hsum] at he
      cases he
    | error e' =>
      rw [hsum] at he
      obtain ⟨e'', he'', hreal⟩ := ofNumber_error (γ := Bool) e'
      cases he''.symm.trans he
      exact hreal

theorem fate_payloadTask (hh : Fresh h) :
    Leads h (Fate taskId patience (PayloadBreaks E B host A L taskId payload))
      (payloadTask E B host A patience L taskId payload) := by
  rw [payloadTask]
  cases hover : overBudget A L ((payload.get? "tokens_requested").getD (.int 0)) with
  | error e =>
    apply fate_raise _ hh.results
    · simp only [PayloadBreaks, hover]
    · exact overBudget_error hover
  | ok spent =>
    cases spent with
    | true =>
      apply fate_answer _ hh.results
      intro k _ hb
      simp only [PayloadBreaks, hover] at hb
    | false =>
      change Leads h _ (if _ then _ else _)
      split
      next hspoof =>
        apply fate_answer _ hh.results
        intro k _ hb
        simp only [PayloadBreaks, hover] at hb
        exact hb.1 hspoof
      next hspoof =>
        split
        next command hcommand =>
          rw [show PayloadBreaks E B host A L taskId payload =
              CommandBreaks E B A L taskId payload command from
            funext fun h => by simp only [PayloadBreaks, hover, hcommand, hspoof,
              not_false_eq_true, true_and]]
          exact fate_commandTask hh
        next hcommand =>
          rw [show PayloadBreaks E B host A L taskId payload = PlainBreaks B host A L payload from
            funext fun h => by simp only [PayloadBreaks, hover, hcommand, hspoof,
              not_false_eq_true, true_and]]
          exact fate_plainTask hh.file hh.results

variable {msg : Dict String (Json F)} {r : Except Error (Option (Local F))}

theorem fate_serve (htask : (fetch msg "command").text = some "TASK") :
    Leads [] (fun h r => Fate (taskIdOf msg) patience (Breaks E B host A L msg) h r ∧
      ∀ next, r = .ok next → ∃ L', next = some L') (serve E B host A patience L msg) := by
  rw [serve, htask]
  have hfate : Leads [] (Fate (taskIdOf msg) patience (Breaks E B host A L msg))
      (task E B host A patience L (taskIdOf msg) (payloadOf msg)) := by
    apply leads_steady rfl
    intro u
    have hfresh : Fresh (F := F) ([] ++ [⟨.clearCancel, .ok u⟩]) := by
      refine ⟨rfl, rfl, not_dirRaised ?_, not_fileRaised ?_, rfl⟩ <;> simp [Op.plain]
    cases hp : (payloadOf msg).members with
    | none =>
      apply fate_raise (by decide) rfl
      simp only [Breaks, hp]
    | some payload =>
      rw [show Breaks E B host A L msg = PayloadBreaks E B host A L (taskIdOf msg) payload from
        funext fun h => by simp only [Breaks, hp]]
      exact fate_payloadTask hfresh
  apply hfate.bind
  · rintro h L' (⟨_, event, -, hres, htask, hb⟩ | ⟨_, he, -⟩ | ⟨_, he, -⟩)
    · exact ⟨.inl ⟨_, event, rfl, hres, htask, hb⟩, fun _ hr => ⟨L', by cases hr; rfl⟩⟩
    · cases he
    · cases he
  · rintro h e (⟨_, _, he, -⟩ | ⟨e', he, hlost⟩ | ⟨e', he, hcut⟩)
    · cases he
    · cases he
      exact ⟨.inr (.inl ⟨e, rfl, hlost⟩), fun _ hr => by cases hr⟩
    · cases he
      exact ⟨.inr (.inr ⟨e, rfl, hcut⟩), fun _ hr => by cases hr⟩

end Fate

end SubagentBridge.Worker
