import SubagentBridge.Approval.DecisionProofs
import SubagentBridge.Execution.WorkerRuntime

/-! Where a worker runs an approved command. -/

namespace SubagentBridge.Worker

open Library OperatorBoundary TrustedAuthority VerifiedOperatorAuthority

variable {F : Type} [FloatArith F] {E : Env F} {B : Builtins F} {host : Host} {A : Args F}
variable {L : Local F} {patience : Nat} {taskId : Json F} {payload : Dict String (Json F)}

/-! ## The text that an approval is bound to -/

omit [FloatArith F] in
theorem sortKeys_eq_str {v : Json F} {s : String} (h : v.sortKeys = .str s) : v = .str s := by
  cases v with
  | str t => exact h
  | null | bool _ | int _ | float _ | arr _ | obj _ => simp [Json.sortKeys] at h

theorem resourceText_inj {command command' : List String} {workspace taskId : Json F}
    {path task : String} (hworkspace : workspace.Wf) (htask : taskId.Wf)
    (h : resourceText command workspace taskId = commandText command' path task) :
    command = command' ∧ workspace = .str path ∧ taskId = .str task := by
  rw [← resourceText_str (F := F)] at h
  have hw : ∀ (command : List String) (workspace taskId : Json F), workspace.Wf → taskId.Wf →
      (Json.obj [("command", .ofStrings command), ("workspace_path", workspace),
        ("task_id", taskId)]).Wf := by
    intro command workspace taskId hworkspace htask
    exact ⟨by simp [Dict.keys], wf_ofStrings _, hworkspace, htask, trivial⟩
  have hget := get?_of_print .default (hw _ _ _ hworkspace htask)
    (hw _ (.str path) (.str task) trivial trivial)
    (String.ofList_injective h)
  refine ⟨?_, ?_, ?_⟩
  · have hcommand : (Json.ofStrings command : Json F) = .ofStrings command' := by
      simpa [Dict.get?_cons, sortKeys_ofStrings] using hget "command"
    exact ofStrings_injective hcommand
  · apply sortKeys_eq_str
    simpa [Dict.get?_cons, Json.sortKeys] using hget "workspace_path"
  · apply sortKeys_eq_str
    simpa [Dict.get?_cons, Json.sortKeys] using hget "task_id"

/-! ## Starting a command -/

abbrev Accepted (E : Env F) (B : Builtins F) (A : Args F) (taskId : Json F)
    (payload : Dict String (Json F)) (argv : List String) : Prop :=
  ∃ now reason, verifyTicketBinding E B now (fetch payload "execution_ticket") A.sessionSecret
    A.workerId taskId argv (effectiveWorkspace A payload) = (true, reason)

/-- What is known of a command when it is started. -/
structure Started (E : Env F) (B : Builtins F) (A : Args F) (taskId : Json F)
    (payload : Dict String (Json F)) (h : List (Event (sig F) Error)) (argv : List String)
    (cwd : Option (Json F)) : Prop where
  accepted : Accepted E B A taskId payload argv
  /-- it is started in the workspace, which was found to be a directory -/
  inside : ∀ dir, cwd = some dir → dir = effectiveWorkspace A payload ∧ dir.truthy = true ∧
    (⟨.isDir dir, .ok true⟩ : Event (sig F) Error) ∈ h
  /-- or where the worker itself is, for lack of a directory -/
  outside : cwd = none → (effectiveWorkspace A payload).truthy = false ∨
    (⟨.isDir (effectiveWorkspace A payload), .ok false⟩ : Event (sig F) Error) ∈ h

def Commanded (E : Env F) (B : Builtins F) (A : Args F) (taskId : Json F)
    (payload : Dict String (Json F)) (_ : Unit) (h : List (Event (sig F) Error)) (o : Op F) :
    Prop :=
  ∀ argv cwd, o = .popen argv cwd → Started E B A taskId payload h argv cwd

def Op.quiet : Op F → Prop
  | .popen _ _ => False
  | _ => True

abbrev Obeys (E : Env F) (B : Builtins F) (A : Args F) (taskId : Json F)
    (payload : Dict String (Json F)) (h : List (Event (sig F) Error)) {α : Type}
    (p : Call F α) : Prop :=
  p.Follows (.ofHistory (Commanded E B A taskId payload) fun _ _ => True) (fun _ _ => True)
    ((), h)

theorem commanded_quiet (h : List (Event (sig F) Error)) (o : Op F) (ho : o.quiet) :
    Commanded E B A taskId payload () h o := by
  intro argv cwd he
  subst he
  exact ho.elim

theorem obeys_quiet {h : List (Event (sig F) Error)} {α : Type} {p : Call F α}
    (hp : p.Only Op.quiet) : Obeys E B A taskId payload h p :=
  hp.follows_true commanded_quiet

omit [FloatArith F] in
theorem quiet_perform {o : Op F} (ho : o.quiet) : (perform o).Only Op.quiet :=
  (Proc.only_op (S := sig F) o).mpr ho

omit [FloatArith F] in
theorem quiet_bind {o : Op F} {α : Type} {f : o.Ret → Call F α} (ho : o.quiet)
    (hf : ∀ a, (f a).Only Op.quiet) : ((perform o).bind f).Only Op.quiet :=
  Proc.only_op_bind (S := sig F) ho hf

/-- An operation that neither starts a command, nor takes its output, nor clears the flag. -/
def Op.tame : Op F → Prop
  | .popen _ _ | .communicate _ | .clearCancel => False
  | _ => True

def Op.mute : Op F → Prop
  | .popen _ _ | .communicate _ | .clearCancel | .sendEvent _ => False
  | _ => True

omit [FloatArith F] in
theorem tame_of_mute (o : Op F) (ho : o.mute) : o.tame := by
  cases o <;> trivial

omit [FloatArith F] in
theorem quiet_of_tame (o : Op F) (ho : o.tame) : o.quiet := by
  cases o <;> trivial

omit [FloatArith F] in
theorem tame_perform {o : Op F} (ho : o.tame) : (perform o).Only Op.tame :=
  (Proc.only_op (S := sig F) o).mpr ho

omit [FloatArith F] in
theorem tame_bind {o : Op F} {α : Type} {f : o.Ret → Call F α} (ho : o.tame)
    (hf : ∀ a, (f a).Only Op.tame) : ((perform o).bind f).Only Op.tame :=
  Proc.only_op_bind (S := sig F) ho hf

omit [FloatArith F] in
theorem mute_perform {o : Op F} (ho : o.mute) : (perform o).Only Op.mute :=
  (Proc.only_op (S := sig F) o).mpr ho

omit [FloatArith F] in
theorem mute_bind {o : Op F} {α : Type} {f : o.Ret → Call F α} (ho : o.mute)
    (hf : ∀ a, (f a).Only Op.mute) : ((perform o).bind f).Only Op.mute :=
  Proc.only_op_bind (S := sig F) ho hf

omit [FloatArith F] in
theorem tame_send {event : Dict String (Json F)} : (send event).Only Op.tame := by
  apply tame_bind (by trivial)
  exact fun _ => tame_perform (by trivial)

omit [FloatArith F] in
theorem tame_answer {status : String} {fields : Dict String (Json F)} :
    (answer L taskId status fields).Only Op.tame :=
  tame_send.bind fun _ => trivial

omit [FloatArith F] in
theorem tame_refusal {status : String} {fields : Dict String (Json F)} :
    (refusal taskId status fields).Only Op.tame := by
  apply tame_bind (by trivial)
  exact fun _ => trivial

/-! ### Instructions start no command -/

section Instructions

variable {a : HarnessAdapter} {config : ExecutionConfig F} {required : List HarnessCapability}
variable {instruction : String} {workspacePath : Json F}

theorem tame_createFile {start : F} :
    (createFile taskId instruction workspacePath start).Only Op.tame := by
  rw [createFile]
  split
  next => exact tame_refusal
  next =>
    apply Proc.Only.bind (Proc.only_ofExcept _)
    intro workspace
    apply tame_bind (by trivial)
    intro path
    apply tame_bind (by trivial)
    intro stop
    apply tame_bind (by trivial)
    exact fun _ => trivial

theorem tame_executeNative :
    (executeNative B host taskId instruction config workspacePath required).Only Op.tame := by
  apply tame_bind (by trivial)
  intro start
  apply Proc.Only.bind (Proc.only_ofExcept _)
  intro refused
  split
  next => exact tame_refusal
  next => exact tame_createFile

theorem tame_fallBack :
    (fallBack B host a taskId instruction config workspacePath required).Only Op.tame := by
  rw [fallBack]
  split
  next =>
    split
    next => exact tame_refusal
    next =>
      split
      next => exact tame_refusal
      next => exact tame_executeNative.bind fun _ => trivial
  next => exact tame_refusal

theorem tame_execute :
    (execute B host a taskId instruction config workspacePath required).Only Op.tame := by
  rw [execute]
  split
  next => exact tame_executeNative
  next =>
    split
    next => exact tame_fallBack
    next =>
      apply Proc.Only.bind (Proc.only_ofExcept _)
      intro refused
      split
      next => exact tame_refusal
      next =>
        apply tame_bind (by trivial)
        intro start
        apply tame_bind (by trivial)
        intro stop
        apply tame_bind (by trivial)
        exact fun _ => trivial
  next => exact tame_fallBack

theorem tame_instructionTask {instruction : Json F} :
    (instructionTask B host A L taskId payload instruction).Only Op.tame := by
  apply Proc.Only.tryCatch
  · apply Proc.Only.bind (Proc.only_ofExcept _)
    intro adapter
    apply Proc.Only.bind (Proc.only_ofExcept _)
    intro required
    apply tame_execute.bind
    intro res
    apply tame_bind (by trivial)
    exact fun _ => trivial
  · intro e
    rw [instructionFailed]
    split
    next => exact tame_answer
    next => exact tame_answer
    next => exact tame_answer
    next => trivial

theorem tame_plainTask : (plainTask B host A L taskId payload).Only Op.tame := by
  apply Proc.Only.bind (Proc.only_ofExcept _)
  intro positive
  split
  next =>
    apply Proc.Only.bind (Proc.only_ofExcept _)
    intro seconds
    apply tame_bind (by trivial)
    intro wasCancelled
    apply Proc.Only.bind
    · rw [Proc.or]
      split
      next => trivial
      next => exact tame_perform (by trivial)
    · intro cancelled
      split
      next => exact tame_answer
      next => exact tame_answer
  next =>
    split
    next => exact tame_instructionTask
    next => exact tame_answer

end Instructions

/-! ### Commands -/

omit [FloatArith F] in
theorem mute_stopCommand {pid : Nat} : (stopCommand (F := F) pid).Only Op.mute := by
  apply Proc.Only.tryCatch
  · apply mute_bind (by trivial)
    exact fun _ => mute_perform (by trivial)
  · intro e
    split
    next => exact mute_perform (by trivial)
    next => trivial

theorem mute_awaitCommand {pid : Nat} {start timeout : F} :
    (awaitCommand pid start timeout patience).Only Op.mute := by
  induction patience with
  | zero => trivial
  | succ patience ih =>
    apply mute_bind (by trivial)
    intro polled
    split
    next => trivial
    next =>
      apply mute_bind (by trivial)
      intro cancelled
      split
      next => exact mute_stopCommand.bind fun _ => trivial
      next =>
        apply mute_bind (by trivial)
        intro now
        split
        next =>
          apply mute_bind (by trivial)
          exact fun _ => trivial
        next =>
          apply mute_bind (by trivial)
          exact fun _ => ih

omit [FloatArith F] in
theorem tame_reportCommand {commandList : List String} {pid : Nat} {finished : Finished}
    {duration : F} :
    (reportCommand B A L taskId payload commandList pid finished duration).Only Op.tame := by
  rw [reportCommand]
  split
  next => trivial
  next =>
    dsimp only
    split
    next => exact tame_answer
    next => exact tame_answer

omit [FloatArith F] in
theorem quiet_send {event : Dict String (Json F)} : (send event).Only Op.quiet :=
  tame_send.mono quiet_of_tame

omit [FloatArith F] in
theorem quiet_answer {status : String} {fields : Dict String (Json F)} :
    (answer L taskId status fields).Only Op.quiet :=
  tame_answer.mono quiet_of_tame

section Commands

variable {h : List (Event (sig F) Error)} {argv : List String}

theorem obeys_bind {α β : Type} {p : Call F α} {f : α → Call F β}
    (hp : p.Only Op.quiet) (hf : ∀ b h', h <+: h' → Obeys E B A taskId payload h' (f b)) :
    Obeys E B A taskId payload h (p.bind f) :=
  hp.follows_bind commanded_quiet hf

theorem obeys_runCommand {cwd : Option (Json F)} {start timeout : F}
    (hstarted : Started E B A taskId payload h argv cwd) :
    Obeys E B A taskId payload h
      (runCommand B A patience L taskId payload argv cwd start timeout) := by
  refine (Proc.follows_op_bind (S := sig F) _ _).mpr ⟨?_, fun pid _ => ?_, fun _ _ => trivial⟩
  · intro argv' cwd' heq
    cases heq
    exact hstarted
  · apply obeys_quiet
    apply quiet_bind (by trivial)
    intro _
    apply (mute_awaitCommand.mono fun o ho => quiet_of_tame o (tame_of_mute o ho)).bind
    intro ending
    apply quiet_bind (by trivial)
    intro _
    apply quiet_bind (by trivial)
    intro cancelled
    split
    next => exact quiet_answer
    next =>
      apply quiet_bind (by trivial)
      intro finished
      apply quiet_bind (by trivial)
      intro stop
      split
      next => exact quiet_answer
      next => exact tame_reportCommand.mono quiet_of_tame

theorem obeys_spawn (cwd : Option (Json F))
    (hstarted : ∀ h', h <+: h' → Started E B A taskId payload h' argv cwd) :
    Obeys E B A taskId payload h (do
      let start ← perform .now
      let timeout ← Proc.ofExcept (ofNumber
        ((payload.get? "timeout").getD (.float (30 : Nat))).toFloat)
      (runCommand B A patience L taskId payload argv cwd start timeout).tryCatch
        (commandFailed L taskId)) := by
  apply obeys_bind (quiet_perform (by trivial))
  intro start h₁ hh₁
  apply obeys_bind (Proc.only_ofExcept _)
  intro timeout h₂ hh₂
  apply (obeys_runCommand (hstarted h₂ (hh₁.trans hh₂))).tryCatch
  · exact fun _ _ _ => trivial
  · rintro ⟨_, h₃⟩ e _
    apply obeys_quiet
    rw [commandFailed]
    split
    next => trivial
    next => exact quiet_answer

theorem obeys_startCommand (haccepted : Accepted E B A taskId payload argv) :
    Obeys E B A taskId payload h (startCommand B A patience L taskId payload argv
      (effectiveWorkspace A payload)) := by
  apply obeys_bind (quiet_perform (by trivial))
  intro cancelled h₁ _
  split
  next => exact obeys_quiet quiet_answer
  next =>
    cases hws : (effectiveWorkspace A payload).truthy with
    | false =>
      apply obeys_spawn none
      intro h' _
      exact ⟨haccepted, (by simp), fun _ => .inl hws⟩
    | true =>
      refine (Proc.follows_op_bind (S := sig F) _ _).mpr ⟨?_, fun dir _ => ?_, fun _ _ => trivial⟩
      · exact commanded_quiet _ _ (by trivial)
      · cases dir with
        | false =>
          apply obeys_spawn none
          intro h' hh
          exact ⟨haccepted, (by simp), fun _ => .inr (hh.subset (by simp))⟩
        | true =>
          apply obeys_spawn (some (effectiveWorkspace A payload))
          intro h' hh
          refine ⟨haccepted, fun dir hd => ?_, (by simp)⟩
          cases hd
          exact ⟨rfl, hws, hh.subset (by simp)⟩

theorem obeys_commandTask {command : Json F} :
    Obeys E B A taskId payload h (commandTask E B A patience L taskId payload command) := by
  rw [commandTask]
  split
  next => exact obeys_quiet quiet_answer
  next argv _ =>
    dsimp only
    split
    next => exact obeys_quiet quiet_answer
    next =>
      apply obeys_bind (quiet_perform (by trivial))
      intro now h₁ _
      split
      next => exact obeys_quiet quiet_answer
      next hvalid =>
        split
        next => trivial
        next =>
          split
          next => exact obeys_quiet quiet_answer
          next => exact obeys_startCommand ⟨now, _, Prod.ext (by simpa using hvalid) rfl⟩

theorem obeys_payloadTask : Obeys E B A taskId payload h
    (payloadTask E B host A patience L taskId payload) := by
  apply obeys_bind (Proc.only_ofExcept _)
  intro spent h₁ _
  split
  next => exact obeys_quiet quiet_answer
  next =>
    split
    next => exact obeys_quiet quiet_answer
    next =>
      split
      next => exact obeys_commandTask
      next => exact obeys_quiet (tame_plainTask.mono quiet_of_tame)

end Commands

/-! ## Turns of the main loop -/

section Turn

variable {msg : Dict String (Json F)} {h : List (Event (sig F) Error)}
variable {r : Except Error (Option (Local F))} {argv : List String} {cwd : Option (Json F)}
variable {x : Except Error (Op.popen (F := F) argv cwd).Ret}

theorem started_of_mem (hplays : (serve E B host A patience L msg).Plays h r)
    (hmem : (⟨.popen argv cwd, x⟩ : Event (sig F) Error) ∈ h) :
    ∃ payload, (payloadOf msg).members = some payload ∧
      ∃ h', h' <+: h ∧ Started E B A (taskIdOf msg) payload h' argv cwd := by
  obtain ⟨h₁, h₂, rfl⟩ := List.append_of_mem hmem
  have hquiet {p : Call F (Option (Local F))} (hp : p.Only Op.quiet)
      (hplays : p.Plays (h₁ ++ ⟨.popen argv cwd, x⟩ :: h₂) r) : False :=
    hp.plays hplays ⟨.popen argv cwd, x⟩ (by simp)
  rw [serve] at hplays
  split at hplays
  next =>
    refine (hquiet ?_ hplays).elim
    exact quiet_send.bind fun _ => trivial
  next =>
    refine (hquiet ?_ hplays).elim
    refine Proc.Only.bind ?_ fun _ => trivial
    apply quiet_bind (by trivial)
    intro _
    apply Proc.Only.bind
    · apply Proc.Only.tryCatch (quiet_perform (by trivial))
      intro e
      split
      next => trivial
      next => trivial
    · exact fun _ => quiet_send
  next =>
    refine (hquiet ?_ hplays).elim
    refine Proc.Only.bind ?_ fun _ => trivial
    exact quiet_send.bind fun _ => trivial
  next =>
    cases hp : (payloadOf msg).members with
    | none =>
      refine (hquiet ?_ hplays).elim
      refine Proc.Only.bind ?_ fun _ => trivial
      apply quiet_bind (by trivial)
      intro _
      rw [hp]
      trivial
    | some payload =>
      have hobeys : Obeys E B A (taskIdOf msg) payload []
          ((task E B host A patience L (taskIdOf msg) (payloadOf msg)).bind fun L =>
            .ret (some L)) := by
        rw [task, Proc.bind_eq, Proc.bind_assoc]
        apply obeys_bind (quiet_perform (by trivial))
        intro _ h' _
        rw [hp]
        apply obeys_payloadTask.bind
        · exact fun _ _ _ => trivial
        · exact fun _ _ _ => trivial
      have hallows := hobeys.allows hplays (fun _ _ => trivial) rfl argv cwd rfl
      exact ⟨payload, rfl, h₁, List.prefix_append _ _, hallows⟩
  next =>
    refine (hquiet ?_ hplays).elim
    exact quiet_send.bind fun _ => trivial
  next =>
    refine (hquiet ?_ hplays).elim
    trivial

/-- An approval of the command, the workspace and the task is what the ticket is bound to. -/
def BoundTo (E : Env F) (payload : Dict String (Json F)) (command : List String)
    (workspace task : String) : Prop :=
  ∃ ticket, (fetch payload "execution_ticket").members = some ticket ∧
    ticket.get? "resource" = some (.str (computeActionResource E command workspace task))

omit [FloatArith F] in
/-- The answers are those of a file system with these directories. -/
def Directories (isdir : String → Bool) (h : List (Event (sig F) Error)) : Prop :=
  ∀ path x, (⟨.isDir (.str path), x⟩ : Event (sig F) Error) ∈ h → x = .ok (isdir path)

theorem Accepted.resource {ticket : Dict String (Json F)} {resource : String}
    (h : Accepted E B A taskId payload argv)
    (ht : (fetch payload "execution_ticket").members = some ticket)
    (hr : ticket.get? "resource" = some (.str resource)) :
    resource = E.sha256 (resourceText argv (effectiveWorkspace A payload) taskId) := by
  obtain ⟨now, reason, h⟩ := h
  rw [verifyTicketBinding, ht] at h
  obtain ⟨expiry, signature, hverifies⟩ := (verifyMembers_iff E B).mp (congrArg Prod.fst h)
  have hresource := hverifies.resource
  rw [hr] at hresource
  exact Option.some.inj hresource

theorem wf_effectiveWorkspace (h : (Json.obj payload).Wf) : (effectiveWorkspace A payload).Wf := by
  have hget := wf_getD h (d := .str (A.worktreePath.getD "")) trivial "workspace_path"
  rw [effectiveWorkspace, getOr]
  cases hw : payload.get? "workspace_path" with
  | none => trivial
  | some v =>
    rw [hw] at hget
    dsimp only
    split
    next => exact hget
    next => trivial

omit [FloatArith F] in
theorem wf_payload (h : (Json.obj msg).Wf) (hpayload : (payloadOf msg).members = some payload) :
    (Json.obj payload).Wf := by
  have hget : (payloadOf msg).Wf :=
    wf_getD h (d := .obj []) ⟨by simp [Dict.keys], trivial⟩ "payload"
  cases hp : payloadOf msg with
  | obj members =>
    rw [hp] at hget hpayload
    cases hpayload
    exact hget
  | null | bool _ | int _ | float _ | str _ | arr _ =>
    rw [hp] at hpayload
    cases hpayload

/-- A command runs in the workspace that its approval is bound to, if that is a directory, and
where the worker itself is, if it is not or there is none. -/
theorem runs_where_approved {payload : Dict String (Json F)} {command : List String}
    {workspace task : String} {isdir : String → Bool} (hwf : (Json.obj msg).Wf)
    (hpayload : (payloadOf msg).members = some payload)
    (hplays : (serve E B host A patience L msg).Plays h r)
    (hmem : (⟨.popen argv cwd, x⟩ : Event (sig F) Error) ∈ h)
    (hbound : BoundTo E payload command workspace task)
    (hfree : computeActionResource E command workspace task =
        E.sha256 (resourceText argv (effectiveWorkspace A payload) (taskIdOf msg)) →
      commandText command workspace task =
        resourceText argv (effectiveWorkspace A payload) (taskIdOf msg))
    (hdirs : Directories isdir h) :
    argv = command ∧ taskIdOf msg = .str task ∧
      (workspace ≠ "" → isdir workspace = true → cwd = some (.str workspace)) ∧
      (workspace = "" ∨ isdir workspace = false → cwd = none) := by
  obtain ⟨payload', hpayload', h', hprefix, hstarted⟩ := started_of_mem hplays hmem
  cases hpayload.symm.trans hpayload'
  obtain ⟨ticket, hticket, hresource⟩ := hbound
  have htext := hfree (hstarted.accepted.resource hticket hresource)
  obtain ⟨hargv, hworkspace, htask⟩ := resourceText_inj
    (wf_effectiveWorkspace (wf_payload hwf hpayload))
    (wf_getD hwf (d := .str "unknown") trivial "task_id") htext.symm
  refine ⟨hargv, htask, fun hne hdir => ?_, fun hno => ?_⟩
  · cases cwd with
    | some dir => rw [(hstarted.inside dir rfl).1, hworkspace]
    | none =>
      rcases hstarted.outside rfl with hfalse | hno
      · rw [hworkspace] at hfalse
        exact absurd (by simpa [Json.truthy] using hfalse) hne
      · rw [hworkspace] at hno
        have hans := hdirs workspace _ (List.IsPrefix.subset hprefix hno)
        rw [hdir] at hans
        cases hans
  · cases cwd with
    | none => rfl
    | some dir =>
      obtain ⟨hdir, htruthy, hyes⟩ := hstarted.inside dir rfl
      rw [hdir, hworkspace] at htruthy hyes
      rcases hno with hempty | hno
      · rw [hempty] at htruthy
        cases htruthy
      · have hans := hdirs workspace _ (List.IsPrefix.subset hprefix hyes)
        rw [hno] at hans
        cases hans

end Turn

/-! ## A workspace that is there, and one that is not -/

section Sample

def workEnv : Env Int :=
  { sampleEnv with
    sha256 := fun _ => "78227dbb4a9905b9de5d7778509cdda674ee3beb2f6b40a49adbf1d354022127"
    hmac := fun _ _ => "e89e73df4df2e3a27df4db07f4f45700498835eee790950da0ba0c454b84899a" }

def workTicket : Json Int := .obj (ticketMembers
  ⟨"act_1", "w", "t", workEnv.sha256 "", 130, workEnv.hmac "" ""⟩)

def workPayload : Dict String (Json Int) :=
  [("command", .arr [.str "true"]), ("execution_ticket", workTicket),
    ("workspace_path", .str "/work")]

def workTask : Dict String (Json Int) :=
  [("command", .str "TASK"), ("task_id", .str "t"), ("payload", .obj workPayload)]

def answerIn (isdir : Bool) : (o : Op Int) → Except Error o.Ret
  | .isDir _ => .ok isdir
  | o => sampleAnswer o

theorem directories_answerIn (isdir : Bool) {α : Type} (p : Call Int α) :
    Directories (fun _ => isdir) (p.play (answerIn isdir)).1 := by
  intro path x hmem
  exact Proc.play_answers (answerIn isdir) p _ hmem

def workTurn (isdir : Bool) : List (Event (sig Int) Error) × Except Error (Option (Local Int)) :=
  (serve workEnv sampleBuiltins sampleHost sampleArgs 1 sampleLocal workTask).play
    (answerIn isdir)

theorem bound_work : BoundTo workEnv workPayload ["true"] "/work" "t" := ⟨_, rfl, rfl⟩

theorem wf_workTask : (Json.obj workTask).Wf := by
  simp [workTask, workPayload, workTicket, ticketMembers, Json.Wf, WfMembers, WfElems, Dict.keys]

theorem work_inside :
    (["true"] = ["true"] ∧ taskIdOf workTask = .str "t" ∧
      ("/work" ≠ "" → true = true →
        (some (.str "/work") : Option (Json Int)) = some (.str "/work")) ∧
      ("/work" = "" ∨ true = false → (some (.str "/work") : Option (Json Int)) = none)) ∧
    (["true"] = ["true"] ∧ taskIdOf workTask = .str "t" ∧
      ("/work" ≠ "" → false = true → (none : Option (Json Int)) = some (.str "/work")) ∧
      ("/work" = "" ∨ false = false → (none : Option (Json Int)) = none)) := by
  constructor
  · have hmem : (⟨.popen ["true"] (some (.str "/work")), .ok 12⟩ : Event (sig Int) Error) ∈
        (workTurn true).1 := List.mem_of_getElem? (i := 5) rfl
    exact runs_where_approved wf_workTask rfl (Proc.plays_play _ _) hmem bound_work (fun _ => rfl)
      (directories_answerIn true _)
  · have hmem : (⟨.popen ["true"] none, .ok 12⟩ : Event (sig Int) Error) ∈
        (workTurn false).1 := List.mem_of_getElem? (i := 5) rfl
    exact runs_where_approved wf_workTask rfl (Proc.plays_play _ _) hmem bound_work (fun _ => rfl)
      (directories_answerIn false _)

/-- A command whose approval is bound to a directory that is not there, or to none, is started
where the worker is. -/
theorem starts_elsewhere :
    (∃ h r, (serve workEnv sampleBuiltins sampleHost sampleArgs 1 sampleLocal workTask).Plays h r ∧
      Directories (fun _ => false) h ∧
      (payloadOf workTask).members = some workPayload ∧
      BoundTo workEnv workPayload ["true"] "/work" "t" ∧
      (⟨.popen ["true"] none, .ok 12⟩ : Event (sig Int) Error) ∈ h) ∧
    ∃ h r payload, (serve sampleEnv sampleBuiltins sampleHost sampleArgs 1 sampleLocal
        (sampleTask [])).Plays h r ∧
      (payloadOf (sampleTask [])).members = some payload ∧
      BoundTo sampleEnv payload ["true"] "" "t" ∧
      (⟨.popen ["true"] none, .ok 12⟩ : Event (sig Int) Error) ∈ h := by
  constructor
  · refine ⟨_, _, Proc.plays_play (answerIn false) _, directories_answerIn false _, rfl, bound_work,
      ?_⟩
    exact List.mem_of_getElem? (i := 5) rfl
  · refine ⟨_, _, _, Proc.plays_play sampleAnswer _, rfl, ⟨_, rfl, rfl⟩, ?_⟩
    exact List.mem_of_getElem? (i := 4) rfl

end Sample

end SubagentBridge.Worker
