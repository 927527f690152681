import SubagentBridge.Library.Traces
import SubagentBridge.Recovery.DisciplineLaws

/-! What a resumption finds when it reads the stored rows and the workspace, and which payloads
it can read at all. -/

namespace SubagentBridge.Supervisor

open Library Domain TeamStore

variable {F : Type} {B : Builtins F}

/-! ## Nothing is caught -/

section Strict

theorem strict_perform (o : Op F) : (perform o).Strict := Proc.strict_op (S := sig F) o

theorem strict_found (path : Option PurePath) : (found (F := F) path).Strict := by
  cases path with
  | none => trivial
  | some path => exact Proc.strict_op_bind fun _ => trivial

theorem strict_worktreeDir (wt : Option (WorktreeAssignment F)) : (worktreeDir wt).Strict := by
  cases wt with
  | none => trivial
  | some wt =>
    apply Proc.strict_op_bind
    intro there
    exact (Proc.strict_and (strict_perform _)).bind fun _ => trivial

theorem strict_worktreeOf (workerId : String) (session : AgentSession F) :
    (worktreeOf workerId session).Strict := by
  apply Proc.strict_op_bind
  intro wt
  cases wt with
  | none => trivial
  | some wt => exact Proc.strict_op_bind fun _ => trivial

theorem strict_commitOf (worktreePath : Option String) :
    (commitOf (F := F) worktreePath).Strict := by
  apply (strict_found _).bind
  intro path
  cases path with
  | none => trivial
  | some path => exact strict_perform _

theorem strict_joined (path : PurePath) (name : Json F) : (joined path name).Strict := by
  rw [joined]
  split <;> trivial

theorem strict_hasContent (path : PurePath) (artifact : Json F) :
    (hasContent path artifact).Strict := by
  apply (strict_joined path artifact).bind
  intro file
  apply Proc.strict_op_bind
  intro there
  cases there with
  | true => exact Proc.strict_op_bind fun _ => trivial
  | false => trivial

theorem strict_iterable (v : Json F) : (iterable v).Strict := by
  rw [iterable]
  split <;> trivial

theorem strict_missingArtifact (path : PurePath) (arts : List (Json F)) :
    (missingArtifact path arts).Strict := by
  induction arts with
  | nil => trivial
  | cons art arts ih =>
    apply (strict_hasContent path art).bind
    intro there
    cases there with
    | true => exact ih
    | false => trivial

variable [FloatInt F]

theorem strict_leftArtifact (path : PurePath) (step : Dict String (Json F)) :
    (leftArtifact path step).Strict := by
  rw [leftArtifact]
  split
  · exact (strict_joined path _).bind fun _ => strict_perform _
  · trivial

theorem strict_anyEvidence (path : PurePath) (steps : List (Dict String (Json F))) :
    (anyEvidence path steps).Strict := by
  induction steps with
  | nil => trivial
  | cons step steps ih =>
    apply (strict_leftArtifact path step).bind
    intro there
    cases there with
    | true => trivial
    | false => exact ih

theorem strict_missingEvidence (R : Resumption F) (expected : Json F)
    (steps : List (Dict String (Json F))) : (missingEvidence R expected steps).Strict := by
  rw [missingEvidence]
  split
  next => exact (strict_iterable expected).bind fun arts => strict_missingArtifact _ arts
  next => trivial
  next =>
    split
    next => trivial
    next => exact (strict_anyEvidence _ steps).bind fun _ => trivial
  next => trivial

theorem strict_uncheckpointed (R : Resumption F) (steps : List (Dict String (Json F))) :
    (uncheckpointed R steps).Strict := by
  apply (strict_found _).bind
  intro path
  cases path with
  | none => trivial
  | some path =>
    apply Proc.strict_fold
    intro acc step
    exact (strict_leftArtifact path step).bind fun _ => trivial

theorem strict_completedBefore (R : Resumption F) (expected : Json F) :
    (completedBefore R expected).Strict := by
  rw [completedBefore]
  split
  next => trivial
  next =>
    apply Proc.Strict.bind
    · rw [unprovenCompletion]
      split
      next => exact (strict_iterable expected).bind fun arts => strict_missingArtifact _ arts
      next => trivial
      next => trivial
    · exact fun _ => trivial

variable [FloatText F]

theorem strict_verifyStep (path : PurePath) (steps : Json F) (verified : List (Json F))
    (name : Json F) : (verifyStep path steps verified name).Strict := by
  apply (strict_iterable _).bind
  intro candidates
  apply (Proc.strict_ofExcept _).bind
  intro found
  dsimp only
  split
  next => exact (strict_hasContent path _).bind fun _ => trivial
  next => trivial

theorem strict_completedSteps (R : Resumption F) (steps : Json F) :
    (completedSteps R steps).Strict := by
  rw [completedSteps]
  split
  next => trivial
  next =>
    apply (strict_iterable _).bind
    intro candidates
    apply (strict_found _).bind
    intro path
    cases path with
    | none => trivial
    | some path => exact Proc.strict_fold (strict_verifyStep path steps) _ _

end Strict

/-! ## What there is to read -/

structure View (F : Type) where
  session : String → Option (AgentSession F)
  assignment : String → Option (WorktreeAssignment F)
  checkpoint : String → Option (WorkerCheckpoint F)
  there : PurePath → Bool
  isDir : PurePath → Bool
  size : PurePath → Nat
  head : String → Option String

namespace View

variable (V : View F)

def seen : (o : Op F) → Except Error o.Ret
  | .loadSession sessionId => .ok (V.session sessionId)
  | .loadWorktree workerId => .ok (V.assignment workerId)
  | .loadLatestCheckpoint workerId => .ok (V.checkpoint workerId)
  | .pathExists path => .ok (V.there path)
  | .isDir path => .ok (V.isDir path)
  | .fileSize path => .ok (V.size path)
  | .gitHead path => .ok (V.head path)
  | _ => .error .os

def filled (path : PurePath) : Bool := V.there path && decide (0 < V.size path)

def worktree (workerId : String) (session : AgentSession F) : Option String :=
  match V.assignment workerId with
  | none => session.config.workingDir
  | some wt =>
    if V.there (.ofString wt.worktreePath) then some wt.worktreePath
    else session.config.workingDir

def dir (path : Option String) : Option PurePath := (nonempty path).filter V.there

def commit (path : Option String) : Option String :=
  (V.dir path).bind fun _ => V.head (path.getD "")

def resumption (trusted : Bool) (item : QueueItem F) (session : AgentSession F) : Resumption F :=
  let worktree := V.worktree item.toSessionId session
  let commit := V.commit worktree
  ⟨trusted, item.toSessionId, session, worktree, commit,
    (V.checkpoint item.toSessionId).filter (boundTo item session commit ·)⟩

/-- The artifact exists and has a positive size. -/
def kept (path : PurePath) (artifact : Json F) : Bool :=
  artifact.text.any fun name => V.filled (path.join name)

variable [FloatInt F]

def leaves (path : PurePath) (step : Dict String (Json F)) : Bool :=
  (artifactOf step).truthy && (artifactOf step).text.any fun name => V.there (path.join name)

def unproven (R : Resumption F) (expected : Json F) (steps : List (Dict String (Json F))) : Bool :=
  match expected.truthy, nonempty R.worktreePath with
  | true, some path => !((expected.iterate).getD []).all (V.kept path)
  | true, none => false
  | false, some path => !steps.isEmpty && !steps.any (V.leaves path)
  | false, none => !steps.isEmpty

def provenBefore (R : Resumption F) (expected : Json F) : Bool :=
  match R.latestCp.filter fun cp => (fetch cp.contextSnapshot "completed").truthy with
  | none => false
  | some cp => match expected.truthy, nonempty R.worktreePath with
    | true, some path => ((expected.iterate).getD []).all (V.kept path)
    | true, none => true
    | false, _ => (fetch cp.contextSnapshot "receipt_id").truthy

variable [FloatText F]

def meant (steps : List (Json F)) (name : Json F) : Dict String (Json F) :=
  ((stepNamed name steps).toOption.join).getD []

def verified (path : PurePath) (steps : List (Json F)) (name : Json F) : Bool :=
  !(artifactOf (meant steps name)).truthy || V.kept path (artifactOf (meant steps name))

end View

def listed (cp : WorkerCheckpoint F) : Json F :=
  (cp.contextSnapshot.get? "completed_steps").getD (.arr [])

variable [FloatInt F] in
def candidates (steps : Json F) : Json F := if steps.truthy then steps else .arr []

variable [FloatInt F] [FloatText F] in
def View.completed (V : View F) (R : Resumption F) (steps : Json F) : List (Json F) :=
  match R.latestCp, V.dir R.worktreePath with
  | some cp, some path =>
    ((listed cp).iterate.getD []).filter (V.verified path ((candidates steps).iterate.getD []))
  | _, _ => []

/-! ## What can be read -/

def Until {α : Type} (legible : α → Prop) (stop : α → Bool) : List α → Prop
  | [] => True
  | x :: xs => legible x ∧ (stop x = false → Until legible stop xs)

abbrev IsText (v : Json F) : Prop := v.text.isSome = true

variable [FloatInt F] in
def Textual (step : Dict String (Json F)) : Prop :=
  (artifactOf step).truthy → IsText (artifactOf step)

def LegibleArtifacts (V : View F) (path : PurePath) (expected : Json F) : Prop :=
  expected.iterate.isSome ∧ Until IsText (!V.kept path ·) (expected.iterate.getD [])

section Finds

variable {V : View F}

theorem finds_perform {o : Op F} {a : o.Ret} (h : V.seen o = .ok a) :
    (perform o).Finds V.seen True a :=
  Proc.finds_op (S := sig F) h

theorem finds_found (path : Option PurePath) :
    (found (F := F) path).Finds V.seen True (path.filter V.there) := by
  cases path with
  | none => exact Proc.finds_ret none
  | some path =>
    apply Proc.finds_op_bind rfl
    rw [Option.filter]
    exact Proc.finds_ret _

theorem finds_worktreeOf (workerId : String) (session : AgentSession F) :
    (worktreeOf workerId session).Finds V.seen True (V.worktree workerId session) := by
  apply Proc.finds_op_bind rfl
  rw [View.worktree]
  cases V.assignment workerId with
  | none => exact Proc.finds_ret _
  | some wt => exact Proc.finds_op_bind rfl (Proc.finds_ret _)

theorem finds_commitOf (path : Option String) :
    (commitOf (F := F) path).Finds V.seen True (V.commit path) := by
  apply (finds_found _).then
  rw [View.commit, View.dir]
  cases (nonempty path).filter V.there with
  | none => exact Proc.finds_ret _
  | some dir => exact finds_perform (o := .gitHead _) rfl

theorem finds_hasContent (path : PurePath) (artifact : Json F) :
    (hasContent path artifact).Finds V.seen (IsText artifact) (V.kept path artifact) := by
  rw [hasContent, joined, View.kept, IsText]
  cases artifact.text with
  | none => exact (Proc.finds_raise _).congr (by simp)
  | some name =>
    apply (Proc.finds_op_bind (P := True) rfl ?_).congr (by simp)
    dsimp only [Option.any_some]
    rw [View.filled]
    cases V.there (path.join name) with
    | true => exact (finds_perform (o := .fileSize _) rfl).then (Proc.finds_ret _)
    | false => exact Proc.finds_ret _

theorem finds_iterable (v : Json F) :
    (iterable v).Finds V.seen v.iterate.isSome (v.iterate.getD []) := by
  rw [iterable]
  cases v.iterate with
  | none => exact (Proc.finds_raise _).congr (by simp)
  | some xs => exact (Proc.finds_ret xs).congr (by simp)

theorem finds_missingArtifact (path : PurePath) (arts : List (Json F)) :
    (missingArtifact path arts).Finds V.seen (Until IsText (!V.kept path ·) arts)
      (!arts.all (V.kept path)) := by
  induction arts with
  | nil => exact Proc.finds_ret false
  | cons art arts ih =>
    apply ((finds_hasContent path art).bind fun _ => ?_)
    rw [List.all_cons]
    cases hk : V.kept path art with
    | true => exact ih.congr (by simp [hk])
    | false => exact (Proc.finds_ret true).congr (by simp [hk])

theorem finds_artifacts (path : PurePath) (expected : Json F) :
    ((iterable expected).bind (missingArtifact path)).Finds V.seen
      (LegibleArtifacts V path expected) (!(expected.iterate.getD []).all (V.kept path)) :=
  (finds_iterable expected).bind fun _ => finds_missingArtifact path _

variable [FloatInt F]

theorem finds_leftArtifact (path : PurePath) (step : Dict String (Json F)) :
    (leftArtifact path step).Finds V.seen (Textual step) (V.leaves path step) := by
  rw [leftArtifact, View.leaves, Textual]
  cases (artifactOf step).truthy with
  | false => exact (Proc.finds_ret false).congr (by simp)
  | true =>
    rw [joined, IsText]
    cases (artifactOf step).text with
    | none => exact (Proc.finds_raise _).congr (by simp)
    | some name =>
      apply (finds_perform (o := .pathExists _) rfl).congr
      simp

theorem finds_anyEvidence (path : PurePath) (steps : List (Dict String (Json F))) :
    (anyEvidence path steps).Finds V.seen (Until Textual (V.leaves path) steps)
      (steps.any (V.leaves path)) := by
  induction steps with
  | nil => exact Proc.finds_ret false
  | cons step steps ih =>
    apply ((finds_leftArtifact path step).bind fun _ => ?_)
    rw [List.any_cons]
    cases hl : V.leaves path step with
    | true => exact (Proc.finds_ret true).congr (by simp)
    | false => exact ih.congr (by simp)

def LegibleEvidence (V : View F) (R : Resumption F) (expected : Json F)
    (steps : List (Dict String (Json F))) : Prop :=
  ∀ path ∈ nonempty R.worktreePath,
    if expected.truthy then LegibleArtifacts V path expected
    else Until Textual (V.leaves path) steps

theorem finds_missingEvidence (R : Resumption F) (expected : Json F)
    (steps : List (Dict String (Json F))) :
    (missingEvidence R expected steps).Finds V.seen (LegibleEvidence V R expected steps)
      (V.unproven R expected steps) := by
  rw [missingEvidence, View.unproven, LegibleEvidence]
  cases expected.truthy with
  | true =>
    cases nonempty R.worktreePath with
    | none => exact (Proc.finds_ret false).congr (by simp)
    | some path => exact (finds_artifacts path expected).congr (by simp)
  | false =>
    cases nonempty R.worktreePath with
    | none =>
      cases steps with
      | nil => exact (Proc.finds_ret _).congr (by simp)
      | cons step steps => exact (Proc.finds_ret _).congr (by simp)
    | some path =>
      cases steps with
      | nil => exact (Proc.finds_ret false).congr (by simp [Until])
      | cons step steps =>
        simpa using (finds_anyEvidence (V := V) path (step :: steps)).bind_ret (!·)

theorem finds_sideEffect (path : PurePath) (acc : List (Json F))
    (step : Dict String (Json F)) : (sideEffect path acc step).Finds V.seen (Textual step)
      (acc ++ ([step].filter (V.leaves path)).map (fetch · "name")) := by
  have h : (sideEffect path acc step).Finds V.seen (Textual step)
      (if V.leaves path step then acc ++ [fetch step "name"] else acc) :=
    (finds_leftArtifact path step).bind_ret fun there =>
      if there then acc ++ [fetch step "name"] else acc
  cases hl : V.leaves path step with
  | true => simpa [hl] using h
  | false => simpa [hl] using h

def View.effects (V : View F) (R : Resumption F) (steps : List (Dict String (Json F))) :
    List (Json F) :=
  match V.dir R.worktreePath with
  | none => []
  | some path => (steps.filter (V.leaves path)).map (fetch · "name")

theorem finds_uncheckpointed (R : Resumption F) (steps : List (Dict String (Json F))) :
    (uncheckpointed R steps).Finds V.seen
      (∀ path ∈ V.dir R.worktreePath, ∀ step ∈ steps, Textual step) (V.effects R steps) := by
  apply (finds_found _).then
  rw [View.effects, View.dir]
  cases (nonempty R.worktreePath).filter V.there with
  | none => exact (Proc.finds_ret _).congr (by simp)
  | some path => exact (Proc.finds_fold (finds_sideEffect path) [] steps).congr (by simp)

def LegibleCompletion (V : View F) (R : Resumption F) (expected : Json F) : Prop :=
  ∀ cp ∈ R.latestCp, (fetch cp.contextSnapshot "completed").truthy → expected.truthy →
    ∀ path ∈ nonempty R.worktreePath, LegibleArtifacts V path expected

theorem finds_completedBefore (R : Resumption F) (expected : Json F) :
    (completedBefore R expected).Finds V.seen (LegibleCompletion V R expected)
      (V.provenBefore R expected) := by
  rw [completedBefore, View.provenBefore, LegibleCompletion]
  cases hcp : R.latestCp.filter fun cp => (fetch cp.contextSnapshot "completed").truthy with
  | none =>
    rw [Option.filter_eq_none_iff] at hcp
    apply (Proc.finds_ret false).congr
    simp only [true_iff]
    intro cp hmem hdone
    exact absurd hdone (hcp cp hmem)
  | some cp =>
    obtain ⟨hmem, hdone⟩ := Option.filter_eq_some_iff.mp hcp
    simp only [hmem, Option.mem_some_iff, forall_eq', hdone, forall_const]
    rw [unprovenCompletion]
    cases expected.truthy with
    | false =>
      have h : Proc.Finds V.seen True _ _ := (Proc.finds_ret (S := sig F) (ε := Error)
        !(fetch cp.contextSnapshot "receipt_id").truthy).bind_ret (!·)
      simpa using h
    | true =>
      cases nonempty R.worktreePath with
      | none =>
        have h : Proc.Finds V.seen True _ _ :=
          (Proc.finds_ret (S := sig F) (ε := Error) false).bind_ret (!·)
        simpa using h
      | some path => simpa using (finds_artifacts (V := V) path expected).bind_ret (!·)

variable [FloatText F]

def LegibleName (steps name : Json F) : Prop :=
  (candidates steps).iterate.isSome ∧
    (stepNamed name ((candidates steps).iterate.getD [])).toOption.isSome ∧
    Textual (View.meant ((candidates steps).iterate.getD []) name)

theorem finds_verifyStep (path : PurePath) (steps : Json F) (acc : List (Json F))
    (name : Json F) : (verifyStep path steps acc name).Finds V.seen (LegibleName steps name)
      (acc ++ ([name].filter (V.verified path ((candidates steps).iterate.getD []))).map id) := by
  apply (finds_iterable _).bind
  intro hiter
  rw [List.filter_singleton, View.verified, View.meant]
  cases stepNamed name ((candidates steps).iterate.getD []) with
  | error e => exact (Proc.finds_raise e).congr (by simp [Except.toOption])
  | ok found =>
    simp only [Except.toOption, Option.join_some, Option.isSome_some, true_and]
    rw [Textual]
    change Proc.Finds _ _ _ (if (artifactOf (found.getD [])).truthy then _ else _)
    cases (artifactOf (found.getD [])).truthy with
    | false => exact (Proc.finds_ret _).congr (by simp)
    | true =>
      have h := (finds_hasContent (V := V) path (artifactOf (found.getD []))).bind_ret
        fun there => if there then acc ++ [name] else acc
      cases hk : V.kept path (artifactOf (found.getD [])) with
      | true => simpa [hk] using h
      | false => simpa [hk] using h

def LegibleRecord (V : View F) (R : Resumption F) (steps : Json F) : Prop :=
  ∀ cp ∈ R.latestCp, (listed cp).iterate.isSome ∧
    ((V.dir R.worktreePath).isSome → ∀ name ∈ (listed cp).iterate.getD [], LegibleName steps name)

theorem finds_completedSteps (R : Resumption F) (steps : Json F) :
    (completedSteps R steps).Finds V.seen (LegibleRecord V R steps) (V.completed R steps) := by
  rw [completedSteps, View.completed, LegibleRecord]
  cases R.latestCp with
  | none => exact (Proc.finds_ret _).congr (by simp)
  | some cp =>
    simp only [Option.mem_some_iff, forall_eq']
    apply (finds_iterable (listed cp)).bind
    intro _
    apply (finds_found _).then
    rw [View.dir]
    cases (nonempty R.worktreePath).filter V.there with
    | none => exact (Proc.finds_ret _).congr (by simp)
    | some path =>
      simpa using Proc.finds_fold (finds_verifyStep (V := V) path steps) []
        ((listed cp).iterate.getD [])

end Finds

/-! ## Names of steps -/

def stepNames (B : Builtins F) (item : QueueItem F) : Nat → List Nat → List String
  | _, [] => []
  | n, i :: rest => B.format (stepName ((Owner.step i).dict item) (n + 1)) ::
      stepNames B item (n + 1) rest

theorem commandSteps_cons {item : QueueItem F} {taken : List String} {n i : Nat}
    {todo : List Nat} {name : String}
    (hname : B.format (stepName ((Owner.step i).dict item) (n + 1)) = name) :
    (∃ commands, commandSteps B item taken n (i :: todo) = .ok commands) ↔
      name ∉ taken ∧ ∃ commands,
        commandSteps B item (name :: taken) (n + 1) todo = .ok commands := by
  rw [commandSteps]
  simp only [hname, bind_ok, require_ok]
  constructor
  · rintro ⟨_, _, hnot, others, hothers, -⟩
    exact ⟨hnot, others, hothers⟩
  · rintro ⟨hnot, others, hothers⟩
    exact ⟨_, (), hnot, others, hothers, rfl⟩

theorem commandSteps_ok (item : QueueItem F) (taken : List String) (n : Nat) (todo : List Nat) :
    (∃ commands, commandSteps B item taken n todo = .ok commands) ↔
      (stepNames B item n todo).Nodup ∧ ∀ name ∈ stepNames B item n todo, name ∉ taken := by
  induction todo generalizing taken n with
  | nil => simp [commandSteps, stepNames]
  | cons i todo ih =>
    rw [commandSteps_cons rfl, ih, stepNames]
    generalize B.format (stepName ((Owner.step i).dict item) (n + 1)) = name
    grind

theorem commandSteps_cons_ok {item : QueueItem F} {taken : List String} {n i : Nat}
    {todo : List Nat} {commands : List (String × Owner)}
    (h : commandSteps B item taken n (i :: todo) = .ok commands) :
    ∃ others, commandSteps B item (B.format (stepName ((Owner.step i).dict item) (n + 1)) :: taken)
        (n + 1) todo = .ok others ∧
      commands = if (((Owner.step i).dict item).get? "command").isSome
        then (item.taskId ++ "-" ++ B.format (stepName ((Owner.step i).dict item) (n + 1)),
          .step i) :: others
        else others := by
  simp only [commandSteps, bind_ok, require_ok] at h
  obtain ⟨_, -, others, hothers, hret⟩ := h
  exact ⟨others, hothers, (Except.ok.inj hret).symm⟩

theorem commandSteps_owners {item : QueueItem F} {taken : List String} {n : Nat}
    {todo : List Nat} {commands : List (String × Owner)}
    (h : commandSteps B item taken n todo = .ok commands) :
    (commands.map (·.2)).Sublist (todo.map .step) ∧
      ∀ c ∈ commands, ((c.2.dict item).get? "command").isSome := by
  induction todo generalizing taken n commands with
  | nil =>
    cases h
    simp
  | cons i todo ih =>
    obtain ⟨others, hothers, rfl⟩ := commandSteps_cons_ok h
    obtain ⟨hsub, hcommand⟩ := ih hothers
    split
    next hsome => exact ⟨hsub.cons_cons _, List.forall_mem_cons.mpr ⟨hsome, hcommand⟩⟩
    next => exact ⟨hsub.cons _, hcommand⟩

/-! ## What a resumption can go by -/

section Legible

variable (B) (V : View F) (R : Resumption F) (item : QueueItem F)

def expectedArtifacts : Json F := (item.payload.get? "expected_artifacts").getD (.arr [])

variable [FloatInt F]

/-- No two of the steps go by one name, unless the call stops before it binds their commands. -/
def Bindable (todo : List Nat) : Prop :=
  ((fetch item.payload "_unverified_completed_steps").truthy ∧ R.latestCp.isNone) ∨
    (stepNames B item 0 todo).Nodup

variable [FloatText F]

def undone (count : Nat) (completed : List (Json F)) : List Nat :=
  (List.range count).filter fun i => !isIn (nameOf item i) completed

def LegibleSteps (steps : List (Dict String (Json F))) (completed : List (Json F)) : Prop :=
  (∀ path ∈ V.dir R.worktreePath, ∀ i ∈ undone item steps.length completed,
    Textual ((Owner.step i).dict item)) ∧
  if undone item steps.length completed = [] then
    LegibleEvidence V R (expectedArtifacts item) steps ∧
      (V.unproven R (expectedArtifacts item) steps →
        Bindable B R item (List.range steps.length))
  else Bindable B R item (undone item steps.length completed)

/-- The payload, the checkpoint and the artifacts that the call looks at have the types and the
names it relies on. -/
def LegibleTask : Prop :=
  LegibleRecord V R (fetch item.payload "steps") ∧
  match fetch item.payload "steps" with
  | .arr steps => ∃ dicts, steps.mapM Json.members = some dicts ∧
      LegibleSteps B V R item dicts (V.completed R (.arr steps))
  | _ => LegibleCompletion V R (expectedArtifacts item)

end Legible

end SubagentBridge.Supervisor
