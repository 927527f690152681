import SubagentBridge.Execution.WorkerRuntime
import SubagentBridge.Library.Fallible

/-! The token budget of a worker: what its counter does, and what is done once the counter has
reached the budget. -/

namespace SubagentBridge.Worker

open Library OperatorBoundary TrustedAuthority

variable {F : Type} [FloatArith F] {E : Env F} {B : Builtins F} {host : Host} {A : Args F}
variable {L : Local F} {patience : Nat} {taskId : Json F} {payload : Dict String (Json F)}

/-- The counter has reached the budget. -/
def Exhausted (A : Args F) (L : Local F) : Prop :=
  ∃ budget ∈ A.budgetTokens, budget ≤ L.totalTokensConsumed

/-- An operation that starts a command or carries out an instruction: it starts a process,
writes a file, or reports a completion. -/
def Op.executes : Op F → Prop
  | .popen _ _ | .writeFile _ _ _ => True
  | .sendEvent event => (fetch event "status").text = some "COMPLETED"
  | _ => False

def requestedOf (payload : Dict String (Json F)) : Json F :=
  (payload.get? "tokens_requested").getD (.int 0)

/-- The admission rule of the command path. -/
def CommandAdmitted (A : Args F) (L : Local F) (payload : Dict String (Json F)) : Prop :=
  overBudget A L (requestedOf payload) = .ok false

/-- The admission rule of the instruction path, which its adapter makes stricter. -/
def InstructionAdmitted (A : Args F) (L : Local F) (payload : Dict String (Json F)) : Prop :=
  overBudget A L (requestedOf payload) = .ok false ∧
    ∀ budget ∈ A.budgetTokens, L.totalTokensConsumed < budget

/-- The command of a payload passes the checks that come before its start. -/
structure Startable (E : Env F) (B : Builtins F) (A : Args F) (L : Local F) (taskId : Json F)
    (payload : Dict String (Json F)) : Prop where
  affordable : CommandAdmitted A L payload
  unspoofed : (payload.get? "approved").isSome = false ∧ (payload.get? "approver").isSome = false
  approved : ∃ command argv, payload.get? "command" = some command ∧
    commandList B command = some argv ∧
      ∃ now reason, verifyTicketBinding E B now (fetch payload "execution_ticket") A.sessionSecret
        A.workerId taskId argv (effectiveWorkspace A payload) = (true, reason)

/-- The numbers of a payload are fair: when the counter has reached the budget, a positive number
of tokens is asked for, and what is started meters no negative number. -/
structure Fair (E : Env F) (B : Builtins F) (A : Args F) (L : Local F) (taskId : Json F)
    (payload : Dict String (Json F)) : Prop where
  asks : Exhausted A L → ∃ k, (requestedOf payload).number = some (.inl k) ∧ 0 < k
  meters : Startable E B A L taskId payload →
    ∀ stdout tokens, meteredTokens B payload stdout = .ok tokens → 0 ≤ tokens

def isTask (msg : Dict String (Json F)) : Prop := (fetch msg "command").text = some "TASK"

def IsCommandTask (msg payload : Dict String (Json F)) : Prop :=
  isTask msg ∧ (payloadOf msg).members = some payload ∧ payload.get? "command" ≠ none

def FairTurn (E : Env F) (B : Builtins F) (A : Args F) (L : Local F)
    (msg : Dict String (Json F)) : Prop :=
  ∀ payload, IsCommandTask msg payload → Fair E B A L (taskIdOf msg) payload

/-- What a turn of the main loop owes to the budget. -/
structure Enforced (A : Args F) (L : Local F) (msg : Dict String (Json F))
    (h : List (Event (sig F) Error)) (r : Except Error (Option (Local F))) : Prop where
  /-- the counter never decreases -/
  monotone : ∀ L', r = .ok (some L') → L.totalTokensConsumed ≤ L'.totalTokensConsumed
  /-- once the counter has reached the budget, nothing is executed -/
  stops : Exhausted A L → ∀ e ∈ h, ¬ e.op.executes
  /-- a command is admitted by the rule that instructions are admitted by -/
  uniform : ∀ payload, IsCommandTask msg payload →
    (CommandAdmitted A L payload ↔ InstructionAdmitted A L payload)

theorem not_admitted (h : Exhausted A L)
    (hasks : ∃ k, (requestedOf payload).number = some (.inl k) ∧ 0 < k) :
    ¬ CommandAdmitted A L payload := by
  obtain ⟨budget, hb, hle⟩ := h
  obtain ⟨k, hk, hpos⟩ := hasks
  have hsum : Json.sumExceeds L.totalTokensConsumed (requestedOf payload) budget = .ok true := by
    simp only [Json.sumExceeds, hk, Except.ok.injEq, decide_eq_true_eq]
    omega
  rw [CommandAdmitted, overBudget, Option.mem_def.mp hb]
  dsimp only
  rw [hsum]
  exact fun h => by cases h

/-! ## What does not execute -/

section Idle

abbrev Op.idle (o : Op F) : Prop := ¬ o.executes

omit [FloatArith F] in
theorem idle_perform_bind {o : Op F} {α : Type} {f : o.Ret → Call F α} (ho : o.idle)
    (hf : ∀ a, (f a).Only Op.idle) : ((perform o).bind f).Only Op.idle :=
  Proc.only_op_bind (S := sig F) ho hf

omit [FloatArith F] in
theorem idle_send {event : Dict String (Json F)}
    (h : (fetch event "status").text ≠ some "COMPLETED") : (send event).Only Op.idle := by
  apply idle_perform_bind id
  intro timestamp
  refine (Proc.only_op (S := sig F) _).mpr fun hs => h ?_
  change (fetch (event ++ _) "status").text = some "COMPLETED" at hs
  rw [fetch, Dict.get?_append] at hs
  rw [fetch]
  cases he : event.get? "status" with
  | some v => simpa [he] using hs
  | none => simp [he, Dict.get?_cons, Json.text] at hs

omit [FloatArith F] in
theorem idle_answer {status : String} {fields : Dict String (Json F)}
    (h : status ≠ "COMPLETED") : (answer L taskId status fields).Only Op.idle := by
  apply Proc.Only.bind
  · apply idle_send
    simpa [fetch, Dict.get?_cons, Json.text] using h
  · exact fun _ => trivial

omit [FloatArith F] in
theorem idle_refusal {status : String} {fields : Dict String (Json F)} :
    (refusal taskId status fields).Only Op.idle :=
  idle_perform_bind id fun _ => trivial

end Idle

/-! ## Instructions with an exhausted budget -/

section Instructions

variable {a : HarnessAdapter} {config : ExecutionConfig F} {required : List HarnessCapability}
variable {instruction : String} {workspacePath : Json F}

theorem validate_ok {v : Option (String × String)}
    (h : validateExecutionConfig B host a config required = .ok v) :
    (∃ status reason, v = some (status, reason) ∧ status ≠ "COMPLETED") ∨
      v = none ∧ ∀ budget ∈ config.budgetTokens, config.tokensConsumed < budget := by
  have hrefused (status reason : String) (hs : status ≠ "COMPLETED")
      (hv : (Except.ok (some (status, reason)) : Except Error _) = .ok v) :
      (∃ status reason, v = some (status, reason) ∧ status ≠ "COMPLETED") ∨
        v = none ∧ ∀ budget ∈ config.budgetTokens, config.tokensConsumed < budget := by
    cases hv
    exact .inl ⟨status, reason, rfl, hs⟩
  rw [validateExecutionConfig] at h
  split at h
  next => exact hrefused _ _ (by decide) h
  split at h
  next => exact hrefused _ _ (by decide) h
  split at h
  next => exact hrefused _ _ (by decide) h
  simp only [bind_ok] at h
  obtain ⟨model, -, h⟩ := h
  split at h
  next => exact hrefused _ _ (by decide) h
  simp only [bind_ok] at h
  obtain ⟨provider, -, h⟩ := h
  split at h
  next => exact hrefused _ _ (by decide) h
  split at h
  next budget hb =>
    split at h
    next => exact hrefused _ _ (by decide) h
    next hlt =>
      cases h
      refine .inr ⟨rfl, fun budget' hb' => ?_⟩
      cases hb.symm.trans hb'
      omega
  next hb =>
    cases h
    exact .inr ⟨rfl, fun budget' hb' => by rw [hb] at hb'; cases hb'⟩

def Unfinished (r : Except Error (Dict String (Json F))) : Prop :=
  ∀ res, r = .ok res → (fetch res "status").text ≠ some "COMPLETED"

omit [FloatArith F] in
theorem unfinished_error (e : Error) : Unfinished (F := F) (.error e) :=
  fun _ hr => by cases hr

omit [FloatArith F] in
theorem unfinished_refusal {status : String} {fields : Dict String (Json F)}
    (h : status ≠ "COMPLETED") : (refusal taskId status fields).Ends Unfinished := by
  intro x
  cases x with
  | error e => exact unfinished_error e
  | ok timestamp =>
    intro res hr
    cases hr
    simpa [fetch, Dict.get?_cons, Json.text] using h

structure Spares (p : Call F (Dict String (Json F))) : Prop where
  only : p.Only Op.idle
  ends : p.Ends Unfinished

omit [FloatArith F] in
theorem spares_refusal {status : String} {fields : Dict String (Json F)}
    (h : status ≠ "COMPLETED") : Spares (refusal taskId status fields) :=
  ⟨idle_refusal, unfinished_refusal h⟩

omit [FloatArith F] in
theorem spares_bind {α : Type} {p : Call F α} {f : α → Call F (Dict String (Json F))}
    (hp : p.Only Op.idle) (hf : ∀ x, Spares (f x)) : Spares (p.bind f) :=
  ⟨hp.bind fun x => (hf x).only, Proc.ends_bind (fun x => (hf x).ends) unfinished_error⟩

theorem spares_validated {budget : Int} (hb : config.budgetTokens = some budget)
    (hle : budget ≤ config.tokensConsumed) {p : Call F (Dict String (Json F))}
    {f : String → String → Call F (Dict String (Json F))}
    (hf : ∀ status reason, status ≠ "COMPLETED" → Spares (f status reason)) :
    Spares ((Proc.ofExcept (validateExecutionConfig B host a config required)).bind fun
      | some (status, reason) => f status reason
      | none => p) := by
  cases hv : validateExecutionConfig B host a config required with
  | error e => exact ⟨trivial, unfinished_error e⟩
  | ok v =>
    rcases validate_ok hv with ⟨status, reason, rfl, hs⟩ | ⟨-, hlt⟩
    · exact hf status reason hs
    · exact absurd (hlt budget hb) (by omega)

theorem spares_executeNative {budget : Int} (hb : config.budgetTokens = some budget)
    (hle : budget ≤ config.tokensConsumed) :
    Spares (executeNative B host taskId instruction config workspacePath required) := by
  apply spares_bind ((Proc.only_op (S := sig F) _).mpr id)
  intro start
  exact spares_validated hb hle fun _ _ hs => spares_refusal hs

omit [FloatArith F] in
theorem Spares.set {p : Call F (Dict String (Json F))} {k : String} {v : Json F} (hp : Spares p)
    (hk : k ≠ "status") : Spares (p.bind fun res => .ret (res.set k v)) := by
  refine ⟨hp.only.bind fun _ => trivial, hp.ends.bind (fun res h res' hr => ?_)
    fun e _ => unfinished_error e⟩
  cases hr
  rw [fetch, Dict.get?_set, if_neg hk]
  exact h res rfl

theorem spares_fallBack {budget : Int} (hb : config.budgetTokens = some budget)
    (hle : budget ≤ config.tokensConsumed) :
    Spares (fallBack B host a taskId instruction config workspacePath required) := by
  rw [fallBack]
  split
  next =>
    split
    next => exact spares_refusal (by decide)
    next =>
      split
      next => exact spares_refusal (by decide)
      next =>
        have hnative : Spares (executeNative B host taskId instruction
            ⟨.str "native", .str "local", .null, config.budgetTokens, config.tokensConsumed,
              .bool true⟩ workspacePath required) := spares_executeNative hb hle
        have hset := (hnative.set (k := "fallback_from") (v := .str a.name) (by decide)).set
          (k := "fallback_diagnostic") (v := .str (host.diagnostic a)) (by decide)
        rw [Proc.bind_assoc] at hset
        exact hset
  next => exact spares_refusal (by decide)

theorem spares_execute {budget : Int} (hb : config.budgetTokens = some budget)
    (hle : budget ≤ config.tokensConsumed) :
    Spares (execute B host a taskId instruction config workspacePath required) := by
  rw [execute]
  split
  next => exact spares_executeNative hb hle
  next =>
    split
    next => exact spares_fallBack hb hle
    next => exact spares_validated hb hle fun _ _ hs => spares_refusal hs
  next => exact spares_fallBack hb hle

def Counts (r : Except Error (Dict String (Json F))) : Prop :=
  ∀ res n, r = .ok res → res.get? "metered_tokens" = some (.int n) → 0 ≤ n

omit [FloatArith F] in
theorem counts_error (e : Error) : Counts (F := F) (.error e) := fun _ _ hr => by cases hr

omit [FloatArith F] in
theorem counts_refusal {status : String} {fields : Dict String (Json F)}
    (h : fields.get? "metered_tokens" = none) : (refusal taskId status fields).Ends Counts := by
  intro x
  cases x with
  | error e => exact counts_error e
  | ok timestamp =>
    intro res n hr hn
    cases hr
    simp [Dict.get?_cons, Dict.get?_append, h] at hn

theorem counts_createFile {start : F} :
    (createFile taskId instruction workspacePath start).Ends Counts := by
  rw [createFile]
  split
  next => exact counts_refusal (by simp [Dict.get?_cons])
  next =>
    refine Proc.ends_bind (fun workspace => ?_) counts_error
    refine Proc.ends_bind (fun path => ?_) counts_error
    refine Proc.ends_bind (fun stop => ?_) counts_error
    refine Proc.ends_bind (fun timestamp => ?_) counts_error
    intro res n hr hn
    cases hr
    simp only [Dict.get?_cons] at hn
    cases hn
    omega

theorem counts_executeNative :
    (executeNative B host taskId instruction config workspacePath required).Ends Counts := by
  refine Proc.ends_bind (fun start => ?_) counts_error
  refine Proc.ends_bind (fun refused => ?_) counts_error
  split
  next => exact counts_refusal (by simp [Dict.get?_cons])
  next => exact counts_createFile

theorem counts_report {title : String} :
    (report a title taskId instruction config).Ends Counts := by
  refine Proc.ends_bind (fun start => ?_) counts_error
  refine Proc.ends_bind (fun stop => ?_) counts_error
  refine Proc.ends_bind (fun timestamp => ?_) counts_error
  intro res n hr hn
  cases hr
  simp only [Dict.get?_cons] at hn
  cases hn
  omega

theorem counts_fallBack :
    (fallBack B host a taskId instruction config workspacePath required).Ends Counts := by
  rw [fallBack]
  split
  next =>
    split
    next => exact counts_refusal (by simp [Dict.get?_cons])
    next =>
      split
      next => exact counts_refusal (by simp [Dict.get?_cons])
      next =>
        apply counts_executeNative.bind
        · intro res h res' n hr hn
          cases hr
          simp only [Dict.get?_set] at hn
          exact h res n rfl (by simpa using hn)
        · exact fun e _ => counts_error e
  next => exact counts_refusal (by simp [Dict.get?_cons])

theorem counts_execute :
    (execute B host a taskId instruction config workspacePath required).Ends Counts := by
  rw [execute]
  split
  next => exact counts_executeNative
  next =>
    split
    next => exact counts_fallBack
    next =>
      refine Proc.ends_bind (fun refused => ?_) counts_error
      split
      next => exact counts_refusal (by simp [Dict.get?_cons])
      next => exact counts_report
  next => exact counts_fallBack

end Instructions

/-! ## Tasks -/

section Tasks

def Grows (L : Local F) (r : Except Error (Local F)) : Prop :=
  ∀ L', r = .ok L' → L.totalTokensConsumed ≤ L'.totalTokensConsumed

omit [FloatArith F] in
theorem grows_error (e : Error) : Grows L (.error e) := fun _ hr => by cases hr

omit [FloatArith F] in
theorem grows_answer {L' : Local F} {status : String} {fields : Dict String (Json F)}
    (h : L.totalTokensConsumed ≤ L'.totalTokensConsumed) :
    (answer L' taskId status fields).Ends (Grows L) := by
  refine Proc.ends_bind (fun _ => ?_) grows_error
  intro L'' hr
  cases hr
  exact h

theorem grows_instructionTask {instruction : Json F} :
    (instructionTask B host A L taskId payload instruction).Ends (Grows L) := by
  apply Proc.Ends.tryCatch (M := Grows L)
  · refine Proc.ends_bind (fun adapter => ?_) grows_error
    refine Proc.ends_bind (fun required => ?_) grows_error
    apply counts_execute.bind
    · intro res h
      have hmetered : L.totalTokensConsumed ≤ (metered A L res).1.totalTokensConsumed := by
        rw [metered]
        split
        next n hn =>
          have := h res n rfl hn
          change _ ≤ L.totalTokensConsumed + n
          omega
        next => exact le_refl _
      refine Proc.ends_bind (fun _ => ?_) grows_error
      intro L' hr
      cases hr
      exact hmetered
    · exact fun e _ => grows_error e
  · exact fun _ h => h
  · intro e _
    rw [instructionFailed]
    split
    next => exact grows_answer (le_refl _)
    next => exact grows_answer (le_refl _)
    next => exact grows_answer (le_refl _)
    next => exact grows_error e

omit [FloatArith F] in
theorem grows_reportCommand {commandList : List String} {pid : Nat} {finished : Finished}
    {duration : F}
    (hm : ∀ stdout tokens, meteredTokens B payload stdout = .ok tokens → 0 ≤ tokens) :
    (reportCommand B A L taskId payload commandList pid finished duration).Ends (Grows L) := by
  rw [reportCommand]
  split
  next => exact grows_error _
  next tokens htokens =>
    have hle : L.totalTokensConsumed ≤
        { L with totalTokensConsumed := L.totalTokensConsumed + tokens }.totalTokensConsumed := by
      have := hm _ _ htokens
      change L.totalTokensConsumed ≤ L.totalTokensConsumed + tokens
      omega
    dsimp only
    split
    next => exact grows_answer hle
    next => exact grows_answer hle

theorem grows_runCommand {commandList : List String} {cwd : Option (Json F)} {start timeout : F}
    (hm : ∀ stdout tokens, meteredTokens B payload stdout = .ok tokens → 0 ≤ tokens) :
    (runCommand B A patience L taskId payload commandList cwd start timeout).Ends (Grows L) := by
  rw [runCommand]
  refine Proc.ends_bind (fun pid => ?_) grows_error
  refine Proc.ends_bind (fun _ => ?_) grows_error
  refine Proc.ends_bind (fun ending => ?_) grows_error
  refine Proc.ends_bind (fun _ => ?_) grows_error
  refine Proc.ends_bind (fun cancelled => ?_) grows_error
  split
  next => exact grows_answer (le_refl _)
  next =>
    refine Proc.ends_bind (fun finished => ?_) grows_error
    refine Proc.ends_bind (fun stop => ?_) grows_error
    split
    next => exact grows_answer (le_refl _)
    next => exact grows_reportCommand hm

theorem grows_startCommand {commandList : List String} {workspace : Json F}
    (hm : ∀ stdout tokens, meteredTokens B payload stdout = .ok tokens → 0 ≤ tokens) :
    (startCommand B A patience L taskId payload commandList workspace).Ends (Grows L) := by
  rw [startCommand]
  refine Proc.ends_bind (fun cancelled => ?_) grows_error
  split
  next => exact grows_answer (le_refl _)
  next =>
    refine Proc.ends_bind (fun dir => ?_) grows_error
    refine Proc.ends_bind (fun start => ?_) grows_error
    refine Proc.ends_bind (fun timeout => ?_) grows_error
    apply (grows_runCommand hm).tryCatch
    · exact fun _ h => h
    · intro e _
      rw [commandFailed]
      split
      next => exact grows_error e
      next => exact grows_answer (le_refl _)

theorem grows_commandTask {command : Json F} (hcommand : payload.get? "command" = some command)
    (haffordable : CommandAdmitted A L payload)
    (hunspoofed : (payload.get? "approved").isSome = false ∧
      (payload.get? "approver").isSome = false)
    (hm : Startable E B A L taskId payload →
      ∀ stdout tokens, meteredTokens B payload stdout = .ok tokens → 0 ≤ tokens) :
    (commandTask E B A patience L taskId payload command).Ends (Grows L) := by
  rw [commandTask]
  split
  next => exact grows_answer (le_refl _)
  next argv hargv =>
    dsimp only
    split
    next => exact grows_answer (le_refl _)
    next =>
      refine Proc.ends_bind (fun now => ?_) grows_error
      split
      next => exact grows_answer (le_refl _)
      next hvalid =>
        have hstartable : Startable E B A L taskId payload :=
          ⟨haffordable, hunspoofed, command, argv, hcommand, hargv, now, _,
            Prod.ext (by simpa using hvalid) rfl⟩
        split
        next => exact grows_error _
        next =>
          split
          next => exact grows_answer (le_refl _)
          next => exact (grows_startCommand (hm hstartable)).mono fun _ h => h

theorem grows_plainTask : (plainTask B host A L taskId payload).Ends (Grows L) := by
  refine Proc.ends_bind (fun positive => ?_) grows_error
  split
  next =>
    refine Proc.ends_bind (fun seconds => ?_) grows_error
    refine Proc.ends_bind (fun wasCancelled => ?_) grows_error
    refine Proc.ends_bind (fun cancelled => ?_) grows_error
    split
    next => exact grows_answer (le_refl _)
    next => exact grows_answer (le_refl _)
  next =>
    split
    next => exact grows_instructionTask
    next => exact grows_answer (le_refl _)

theorem grows_payloadTask (hm : payload.get? "command" ≠ none →
      Startable E B A L taskId payload → ∀ stdout tokens,
        meteredTokens B payload stdout = .ok tokens → 0 ≤ tokens) :
    (payloadTask E B host A patience L taskId payload).Ends (Grows L) := by
  refine Proc.ends_ofExcept_bind (fun spent ho => ?_) grows_error
  split
  next => exact grows_answer (le_refl _)
  next hspent =>
    rw [Bool.not_eq_true] at hspent
    split
    next => exact grows_answer (le_refl _)
    next hspoofed =>
      rw [not_or, Bool.not_eq_true, Bool.not_eq_true] at hspoofed
      split
      next command hcommand =>
        have haffordable : CommandAdmitted A L payload :=
          Eq.trans ho (congrArg Except.ok hspent)
        exact grows_commandTask hcommand haffordable hspoofed (hm (by simp [hcommand]))
      next => exact grows_plainTask

omit [FloatArith F] in
theorem metered_status (L : Local F) (res : Dict String (Json F)) :
    fetch (metered A L res).2 "status" = fetch res "status" := by
  rw [metered]
  split
  next =>
    dsimp only
    split
    next => simp [fetch, Dict.get?_set]
    next => simp [fetch, Dict.get?_set]
  next => rfl

theorem idle_instructionTask {instruction : Json F} (h : Exhausted A L) :
    (instructionTask B host A L taskId payload instruction).Only Op.idle := by
  obtain ⟨budget, hb, hle⟩ := h
  apply Proc.Only.tryCatch
  · apply Proc.Only.bind (Proc.only_ofExcept _)
    intro adapter
    apply Proc.Only.bind (Proc.only_ofExcept _)
    intro required
    have hspares : Spares (execute B host adapter taskId (B.format instruction)
        (configOf A L payload) (effectiveWorkspace A payload) required) := spares_execute hb hle
    apply hspares.only.bind_ends hspares.ends
    intro res hres
    apply idle_perform_bind
    · intro hs
      change (fetch (metered A L res).2 "status").text = some "COMPLETED" at hs
      rw [metered_status] at hs
      exact hres res rfl hs
    · exact fun _ => trivial
  · intro e
    rw [instructionFailed]
    split
    next => exact idle_answer (by decide)
    next => exact idle_answer (by decide)
    next => exact idle_answer (by decide)
    next => trivial

theorem idle_plainTask (h : Exhausted A L) :
    (plainTask B host A L taskId payload).Only Op.idle := by
  apply Proc.Only.bind (Proc.only_ofExcept _)
  intro positive
  split
  next =>
    apply Proc.Only.bind (Proc.only_ofExcept _)
    intro seconds
    apply idle_perform_bind id
    intro wasCancelled
    apply Proc.Only.bind
    · rw [Proc.or]
      split
      next => trivial
      next => exact (Proc.only_op (S := sig F) _).mpr id
    · intro cancelled
      split
      next => exact idle_answer (by decide)
      next => exact idle_answer (by decide)
  next =>
    split
    next => exact idle_instructionTask h
    next => exact idle_answer (by decide)

theorem idle_payloadTask (h : ¬ CommandAdmitted A L payload) :
    (payloadTask E B host A patience L taskId payload).Only Op.idle := by
  have hover : overBudget A L (requestedOf payload) ≠ .ok false := h
  rw [payloadTask]
  cases ho : overBudget A L (requestedOf payload) with
  | error e =>
    rw [requestedOf] at ho
    simp only [ho]
    trivial
  | ok spent =>
    cases spent with
    | false => exact absurd ho hover
    | true =>
      rw [requestedOf] at ho
      simp only [ho]
      exact idle_answer (by decide)

/-- A task executes nothing once the counter has reached the budget, if it is stopped by the
admission check or has no command. -/
theorem idle_task {payload : Json F} (h : Exhausted A L)
    (hp : ∀ members, payload.members = some members →
      ¬ CommandAdmitted A L members ∨ members.get? "command" = none) :
    (task E B host A patience L taskId payload).Only Op.idle := by
  apply idle_perform_bind id
  intro _
  split
  next => trivial
  next members hm =>
    rcases hp members hm with hc | hnone
    · exact idle_payloadTask hc
    · apply Proc.Only.bind (Proc.only_ofExcept _)
      intro spent
      split
      next => exact idle_answer (by decide)
      next =>
        split
        next => exact idle_answer (by decide)
        next =>
          rw [hnone]
          exact idle_plainTask h

end Tasks

/-! ## Turns of the main loop -/

section Turn

variable {msg : Dict String (Json F)}

def Keeps (L : Local F) (r : Except Error (Option (Local F))) : Prop :=
  ∀ L', r = .ok (some L') → L.totalTokensConsumed ≤ L'.totalTokensConsumed

omit [FloatArith F] in
theorem keeps_error (e : Error) : Keeps L (.error e) := fun _ hr => by cases hr

omit [FloatArith F] in
theorem keeps_same {p : Call F Unit} : (p.bind fun _ => .ret (some L)).Ends (Keeps L) := by
  refine Proc.ends_bind (fun _ => ?_) keeps_error
  intro L' hr
  cases hr
  exact le_refl _

theorem keeps_serve (hfair : FairTurn E B A L msg) :
    (serve E B host A patience L msg).Ends (Keeps L) := by
  rw [serve]
  split
  next => exact keeps_same
  next => exact keeps_same
  next =>
    rw [reconfigure, Proc.bind_eq, Proc.bind_eq, Proc.bind_assoc]
    refine Proc.ends_bind (fun _ => ?_) keeps_error
    intro L' hr
    cases hr
    exact le_refl L.totalTokensConsumed
  next hmsg =>
    have hgrows : (task E B host A patience L (taskIdOf msg) (payloadOf msg)).Ends (Grows L) := by
      refine Proc.ends_bind (fun _ => ?_) grows_error
      split
      next => exact grows_error _
      next payload hp =>
        exact grows_payloadTask fun hcommand => (hfair payload ⟨hmsg, hp, hcommand⟩).meters
    apply hgrows.bind
    · intro L' hle L'' hr
      cases hr
      exact hle L' rfl
    · exact fun e _ => keeps_error e
  next =>
    refine Proc.ends_bind (fun _ => ?_) keeps_error
    intro L' hr
    cases hr
  next =>
    intro L' hr
    cases hr
    exact le_refl _

/-- A turn executes nothing once the counter has reached the budget, if a task is stopped by
the admission check or has no command. -/
theorem idle_serve (h : Exhausted A L)
    (hp : isTask msg → ∀ payload, (payloadOf msg).members = some payload →
      ¬ CommandAdmitted A L payload ∨ payload.get? "command" = none) :
    (serve E B host A patience L msg).Only Op.idle := by
  rw [serve]
  split
  next => exact (idle_send (by simp [fetch, Dict.get?_cons, Json.text])).bind fun _ => trivial
  next =>
    apply Proc.Only.bind
    · apply idle_perform_bind id
      intro _
      apply Proc.Only.bind
      · apply Proc.Only.tryCatch ((Proc.only_op (S := sig F) _).mpr id)
        intro e
        split
        next => trivial
        next => trivial
      · exact fun _ => idle_send (by simp [fetch, Dict.get?_cons, Json.text])
    · exact fun _ => trivial
  next =>
    apply Proc.Only.bind
    · exact (idle_send (by simp [fetch, Dict.get?_cons, Json.text])).bind fun _ => trivial
    · exact fun _ => trivial
  next hmsg => exact (idle_task h (hp hmsg)).bind fun _ => trivial
  next => exact (idle_send (by simp [fetch, Dict.get?_cons, Json.text])).bind fun _ => trivial
  next => trivial

/-- A worker whose tasks have fair numbers enforces its budget. -/
theorem budget_enforced {L₀ : Local F} {h : List (Event (sig F) Error)}
    {r : Except Error (Option (Local F))}
    (hrun : Turns (serve E B host A patience) (FairTurn E B A) L₀ L)
    (hfair : FairTurn E B A L msg)
    (hplays : (serve E B host A patience L msg).Plays h r) :
    L₀.totalTokensConsumed ≤ L.totalTokensConsumed ∧ Enforced A L msg h r := by
  refine ⟨?_, ?_⟩
  · apply hrun.relates (R := fun L L' => L.totalTokensConsumed ≤ L'.totalTokensConsumed)
    · exact fun L => le_refl _
    · exact fun _ _ _ => le_trans
    · exact fun L msg h L' hG hp => (keeps_serve hG).plays hp L' rfl
  · constructor
    · exact (keeps_serve hfair).plays hplays
    · intro hex
      apply (idle_serve hex fun hmsg payload hp => ?_).plays hplays
      by_cases hcommand : payload.get? "command" = none
      · exact .inr hcommand
      · exact .inl (not_admitted hex ((hfair payload ⟨hmsg, hp, hcommand⟩).asks hex))
    · intro payload htask
      constructor
      · intro hc
        refine ⟨hc, fun budget hb => ?_⟩
        by_contra hle
        have hex : Exhausted A L := ⟨budget, hb, by omega⟩
        exact not_admitted hex ((hfair payload htask).asks hex) hc
      · exact And.left

end Turn

/-! ## A budget of ten tokens -/

section Sample

def spend : Dict String (Json Int) :=
  [("command", .str "TASK"), ("task_id", .str "t"), ("payload", .obj [
    ("instruction", .str ("create_file:a:" ++ "0123456789012345678901234567890123456789"))])]

def refund : Dict String (Json Int) := sampleTask [("tokens_metered", .int (-4))]

def spendHalf : Dict String (Json Int) := sampleTask [("tokens_metered", .int 5)]

def spent : Local Int := { sampleLocal with totalTokensConsumed := 10 }

theorem turn_spend : (sampleTurn sampleLocal spend).2 = .ok (some spent) := by
  rfl

theorem spend_run : Turns (serve sampleEnv sampleBuiltins sampleHost sampleArgs 1)
    (fun _ _ => True) sampleLocal spent := by
  apply Turns.turn .start (i := spend) trivial
  have hplays := Proc.plays_play sampleAnswer
    (serve sampleEnv sampleBuiltins sampleHost sampleArgs 1 sampleLocal spend)
  change Proc.Plays _ _ (sampleTurn sampleLocal spend).2 at hplays
  rw [turn_spend] at hplays
  exact hplays

def afterRefund : Local Int :=
  { sampleLocal with totalTokensConsumed := 6, consumedActionIds := [.str "act_1"] }

theorem turn_refund : (sampleTurn spent refund).2 = .ok (some afterRefund) := by
  rfl

theorem refund_starts : (sampleTurn spent refund).1.any (fun e => match e.op with
    | .popen _ _ => true
    | _ => false) = true := by
  rfl

/-- A command is started after the counter has reached the budget, and takes it back. -/
theorem budget_overrun : ∃ (L L' : Local Int) (h : List (Event (sig Int) Error))
    (payload : Dict String (Json Int)),
    Turns (serve sampleEnv sampleBuiltins sampleHost sampleArgs 1) (fun _ _ => True)
      sampleLocal L ∧
    (serve sampleEnv sampleBuiltins sampleHost sampleArgs 1 L refund).Plays h (.ok (some L')) ∧
    Exhausted sampleArgs L ∧ (∃ e ∈ h, ∃ argv cwd, e.op = .popen argv cwd) ∧
    L'.totalTokensConsumed < L.totalTokensConsumed ∧
    IsCommandTask refund payload ∧ CommandAdmitted sampleArgs L payload ∧
    ¬ InstructionAdmitted sampleArgs L payload := by
  refine ⟨spent, afterRefund, (sampleTurn spent refund).1, _, spend_run, ?_, ⟨10, rfl, le_refl _⟩,
    ?_, by decide, ⟨rfl, rfl, by decide⟩, rfl, fun h => absurd (h.2 10 rfl) (by decide)⟩
  · have hplays := Proc.plays_play sampleAnswer
      (serve sampleEnv sampleBuiltins sampleHost sampleArgs 1 spent refund)
    change Proc.Plays _ _ (sampleTurn spent refund).2 at hplays
    rw [turn_refund] at hplays
    exact hplays
  · obtain ⟨e, he, hop⟩ := List.any_eq_true.mp refund_starts
    refine ⟨e, he, ?_⟩
    split at hop
    next argv cwd hpopen => exact ⟨argv, cwd, hpopen⟩
    next => cases hop

def askMore : Dict String (Json Int) :=
  sampleTask [("tokens_requested", .int 1), ("tokens_metered", .int (-4))]

theorem fair_spendHalf :
    FairTurn sampleEnv sampleBuiltins sampleArgs sampleLocal spendHalf := by
  intro payload ⟨_, hp, _⟩
  cases hp
  constructor
  · intro ⟨budget, hb, hle⟩
    cases hb
    exact absurd hle (by decide)
  · intro _ stdout tokens ht
    have h5 : Except.ok 5 = Except.ok tokens := ht
    cases h5
    decide

theorem fair_spend (L : Local Int) : FairTurn sampleEnv sampleBuiltins sampleArgs L spend := by
  intro payload ⟨_, hp, hcommand⟩
  cases hp
  exact absurd rfl hcommand

def overspent : Local Int :=
  { sampleLocal with totalTokensConsumed := 15, consumedActionIds := [.str "act_1"] }

theorem fair_askMore :
    FairTurn sampleEnv sampleBuiltins sampleArgs overspent askMore := by
  intro payload ⟨_, hp, _⟩
  cases hp
  refine ⟨fun _ => ⟨1, rfl, by decide⟩, fun hstartable => ?_⟩
  cases hstartable.affordable

theorem spends_all : Turns (serve sampleEnv sampleBuiltins sampleHost sampleArgs 1)
    (FairTurn sampleEnv sampleBuiltins sampleArgs) sampleLocal overspent := by
  have hhalf := Proc.plays_play sampleAnswer
    (serve sampleEnv sampleBuiltins sampleHost sampleArgs 1 sampleLocal spendHalf)
  have hall := Proc.plays_play sampleAnswer (serve sampleEnv sampleBuiltins sampleHost sampleArgs 1
    { sampleLocal with totalTokensConsumed := 5, consumedActionIds := [.str "act_1"] } spend)
  exact .turn (.turn .start fair_spendHalf hhalf) (fair_spend _) hall

/-- At the budget a command that asks for more is not started. -/
theorem askMore_enforced : Exhausted sampleArgs overspent ∧
    sampleLocal.totalTokensConsumed ≤ overspent.totalTokensConsumed ∧
      Enforced sampleArgs overspent askMore (sampleTurn overspent askMore).1
        (sampleTurn overspent askMore).2 :=
  ⟨⟨10, rfl, by decide⟩, budget_enforced spends_all fair_askMore (Proc.plays_play _ _)⟩

end Sample

end SubagentBridge.Worker
