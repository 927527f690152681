import SubagentBridge.Execution.WorktreeListing
import SubagentBridge.Library.Plays

/-! Which worktrees are created, which the cleanup removes, and when it forgets them. -/

namespace SubagentBridge.Execution.GitWorktreeManager

open Library Domain

variable {F : Type} (P : StrBuiltins) (M : GitWorktreeManager)

-- a procedure is looked through step by step, not run on the text of a listing
attribute [local irreducible] checkListing

/-- The answers of the store, the file system and git for the assignment, its directory and the
listing. -/
def Answers (l : Listing) (a : WorktreeAssignment F) (target : PurePath) :
    (o : Op F) → Except WorktreeError o.Ret → Prop
  | .loadWorktree _, x => x = .ok (some a)
  | .resolve _, x => x = .ok target
  | .git dir args, x => Op.git (F := F) dir args = listWorktrees M →
      ∃ stderr, x = .ok ⟨0, l.stdout, stderr⟩
  | _, _ => True

def GitSucceeded (e : Event (sig F) WorktreeError) : Prop :=
  ∀ dir args, e.op = .git dir args → ∃ c : Completed, c.returncode = 0 ∧
    e = ⟨.git dir args, .ok c⟩

/-- Past the listing go the runs whose worktree is listed in order, and forgotten is only what every
git command succeeded for. -/
structure CleansUp (l : Listing) (a : WorktreeAssignment F) (target : PurePath) : Prop where
  proceeds : ∀ workerId deleteBranch force h r,
    (cleanupWorktree P M workerId deleteBranch force).Plays h r →
    (∀ e ∈ h, Answers M l a target e.op e.ans) → (∃ e ∈ h, e.op = listWorktrees M) →
    ((∃ e ∈ h, e.op = inspectStatus target) ↔ l.InOrder a.branchName target)
  deletes : ∀ workerId deleteBranch force h r,
    (cleanupWorktree (F := F) P M workerId deleteBranch force).Plays h r →
    (∃ e ∈ h, ∃ id, e.op = .deleteWorktree id) → ∀ e ∈ h, GitSucceeded e

variable {P M} {l : Listing} {a : WorktreeAssignment F} {target : PurePath}
  {h : List (Event (sig F) WorktreeError)}

/-! ## What is created -/

variable (M) in
/-- An assignment comes of a run that found the place free and no assignment of the worker, and in
which git made the worktree. -/
structure Created (workerId branchName baseRef : String) (target : PurePath)
    (h : List (Event (sig F) WorktreeError)) : Prop where
  inside : target.isRelativeTo M.worktreesDir = true
  unlinked : ⟨.isSymlink target, .ok false⟩ ∈ h
  vacant : ⟨.pathExists target, .ok false⟩ ∈ h
  unassigned : ⟨.loadWorktree workerId, .ok none⟩ ∈ h
  named : branchName ≠ ""
  added : ∃ c : Completed, c.returncode = 0 ∧
    ⟨.git M.repoRoot ["worktree", "add", "-b", branchName, target.toString, baseRef], .ok c⟩ ∈ h

theorem ne_empty_of_fullmatch {others : List Char} {s : String}
    (hs : fullmatch others s = true) : s ≠ "" := by
  simp only [fullmatch, Bool.and_eq_true, decide_eq_true_eq] at hs
  exact hs.1

theorem resolved_of_validated {workerId : String} {t : PurePath}
    (hplays : (resolveAndValidatePath P M workerId).Plays h (.ok t)) :
    t.isRelativeTo M.worktreesDir = true ∧ ⟨.isSymlink t, .ok false⟩ ∈ h := by
  obtain ⟨-, hplays⟩ := Proc.returns_require_bind.mp hplays
  obtain ⟨t', h₁, h₁plays, rfl⟩ := Proc.returns_op_bind.mp hplays
  obtain ⟨hinside, h₁plays⟩ := Proc.returns_require_bind.mp h₁plays
  obtain ⟨_, h₂, h₂plays, rfl⟩ := Proc.returns_op_bind.mp h₁plays
  obtain ⟨rfl, h₂plays⟩ := Proc.returns_require_bind.mp h₂plays
  obtain ⟨-, hr⟩ := Proc.plays_ret_iff.mp h₂plays
  obtain rfl := Except.ok.inj hr
  exact ⟨hinside, by simp⟩

/-- What is created is a worktree git has just made, on its own branch and inside the directory of
the worktrees. -/
theorem created_of_returned {workerId teamId branchName baseRef : String}
    (hplays : (createWorktree P M workerId teamId branchName baseRef).Plays h (.ok a)) :
    a.workerId = workerId ∧ a.teamId = teamId ∧ a.branchName = branchName ∧
      ⟨.saveWorktree a, .ok ()⟩ ∈ h ∧
      ∃ target : PurePath, a.worktreePath = target.toString ∧
        Created M workerId branchName baseRef target h := by
  rcases Proc.plays_bind.mp hplays with ⟨t, h₁, h₂, h₁plays, h₂plays, rfl⟩ | ⟨_, -, hr⟩
  · obtain ⟨hinside, hlink⟩ := resolved_of_validated h₁plays
    obtain ⟨_, h₃, h₃plays, rfl⟩ := Proc.returns_op_bind.mp h₂plays
    obtain ⟨rfl, h₃plays⟩ := Proc.returns_require_bind.mp h₃plays
    obtain ⟨found, h₄, h₄plays, rfl⟩ := Proc.returns_op_bind.mp h₃plays
    cases found with
    | some existing => cases (Proc.plays_raise_iff.mp h₄plays).2
    | none =>
      obtain ⟨hbranch, h₄plays⟩ := Proc.returns_require_bind.mp h₄plays
      obtain ⟨_, h₅, h₅plays, rfl⟩ := Proc.returns_op_bind.mp h₄plays
      obtain ⟨-, h₅plays⟩ := Proc.returns_require_bind.mp h₅plays
      obtain ⟨c, h₆, h₆plays, rfl⟩ := Proc.returns_op_bind.mp h₅plays
      obtain ⟨hcode, h₆plays⟩ := Proc.returns_require_bind.mp h₆plays
      obtain ⟨_, h₇, h₇plays, rfl⟩ := Proc.returns_op_bind.mp h₆plays
      obtain ⟨_, h₈, h₈plays, rfl⟩ := Proc.returns_op_bind.mp h₇plays
      obtain ⟨rfl, hr⟩ := Proc.plays_ret_iff.mp h₈plays
      obtain rfl := Except.ok.inj hr
      refine ⟨rfl, rfl, rfl, by simp, t, rfl, hinside, ?_, by simp, by simp,
        ne_empty_of_fullmatch hbranch, c, hcode, by simp⟩
      exact List.mem_append_left _ hlink
  · cases hr

/-! ## What is forgotten -/

theorem gitSucceeded_of_ne {o : Op F} {x : Except WorktreeError o.Ret}
    (ho : ∀ dir args, o ≠ .git dir args) : GitSucceeded ⟨o, x⟩ :=
  fun dir args hop => absurd hop (ho dir args)

theorem secures_git {α : Type} {dir : PurePath} {args : List String} {f : Completed → Call F α}
    (hf : ∀ c, (f c).Secures GitSucceeded)
    (hcode : ∀ c h b, (f c).Plays h (.ok b) → c.returncode = 0) :
    ((perform (.git dir args)).bind f).Secures GitSucceeded := by
  refine Proc.secures_op_bind hf fun c h b hplays dir' args' hop => ?_
  cases hop
  exact ⟨c, hcode c h b hplays, rfl⟩

theorem secures_git_require {α : Type} {dir : PurePath} {args : List String}
    {error : Completed → WorktreeError} {f : Completed → Call F α}
    (hf : ∀ c, (f c).Secures GitSucceeded) :
    ((perform (.git dir args)).bind fun c =>
      (Proc.require (c.returncode = 0) (error c)).bind fun _ => f c).Secures GitSucceeded := by
  refine secures_git (fun c => Proc.secures_require.bind fun _ => hf c) fun c h b hplays => ?_
  rcases Proc.plays_require_bind.mp hplays with ⟨hcode, -⟩ | ⟨-, -, hr⟩
  · exact hcode
  · cases hr

theorem secures_perform {α : Type} {o : Op F} {f : o.Ret → Call F α}
    (ho : ∀ dir args, o ≠ .git dir args) (hf : ∀ x, (f x).Secures GitSucceeded) :
    ((perform o).bind f).Secures GitSucceeded :=
  Proc.secures_op_bind hf fun _ _ _ _ => gitSucceeded_of_ne ho

theorem secures_managedTarget : (managedTarget M a).Secures GitSucceeded := by
  refine secures_perform (by simp) fun _ => Proc.secures_require.bind fun _ => ?_
  refine secures_perform (by simp) fun _ => Proc.secures_require.bind fun _ => ?_
  exact secures_perform (by simp) fun _ => Proc.secures_require.bind fun _ => Proc.secures_ret _

theorem secures_removeWorktree : (removeWorktree P M a target).Secures GitSucceeded := by
  refine secures_git_require fun _ => Proc.secures_ofExcept.bind fun _ => ?_
  refine secures_git_require fun _ => Proc.secures_require.bind fun _ => ?_
  refine secures_git_require fun _ => ?_
  exact secures_perform (by simp) fun _ => Proc.secures_require

theorem secures_removeBranch : (removeBranch M a).Secures GitSucceeded := by
  refine secures_git (fun _ => Proc.secures_require) fun c h b hplays => ?_
  by_contra hcode
  rw [Proc.require, if_neg hcode] at hplays
  cases (Proc.plays_raise_iff.mp hplays).2

def Op.deletes : Op F → Prop
  | .deleteWorktree _ => True
  | _ => False

theorem only_managedTarget {A : Op F → Prop} (hlink : ∀ path, A (.isSymlink path))
    (hresolve : ∀ path, A (.resolve path)) : (managedTarget M a).Only A := by
  refine Proc.only_op_bind (hlink _) fun _ => Proc.only_require_bind fun _ => ?_
  refine Proc.only_op_bind (hresolve _) fun _ => Proc.only_require_bind fun _ => ?_
  exact Proc.only_op_bind (hlink _) fun _ => Proc.only_require_bind fun _ => trivial

theorem only_removeBranch {A : Op F → Prop}
    (hgit : A (.git M.repoRoot ["branch", "-d", a.branchName])) : (removeBranch M a).Only A :=
  Proc.only_op_bind hgit fun _ => Proc.only_require _ _

theorem only_removeWorktree : (removeWorktree P M a target).Only fun o => ¬Op.deletes o := by
  apply Proc.only_op_bind id
  intro wtList
  apply Proc.only_require_bind
  intro _
  apply Proc.Only.bind (Proc.only_ofExcept _)
  intro _
  refine Proc.only_op_bind id fun _ => Proc.only_require_bind fun _ => ?_
  refine Proc.only_require_bind fun _ => ?_
  refine Proc.only_op_bind id fun _ => Proc.only_require_bind fun _ => ?_
  exact Proc.only_op_bind id fun _ => Proc.only_require _ _

theorem seals_cleanupAssignment (workerId : String) (deleteBranch : Bool) :
    (cleanupAssignment P M workerId deleteBranch a).Seals Op.deletes GitSucceeded := by
  refine secures_managedTarget.seals_bind
    (only_managedTarget (fun _ => id) fun _ => id) fun target => ?_
  refine (Proc.secures_op fun _ => gitSucceeded_of_ne (by simp)).seals_bind
    ((Proc.only_op _).mpr id) fun there => ?_
  refine (Proc.secures_when secures_removeWorktree).seals_bind
    (Proc.only_when only_removeWorktree) fun _ => ?_
  refine (Proc.secures_when secures_removeBranch).seals_bind
    (Proc.only_when (only_removeBranch id)) fun _ => ?_
  refine Proc.Only.seals (A := Op.deletes) (Proc.only_op_bind trivial fun _ => trivial) ?_
  rintro ⟨o, x⟩ ho
  exact gitSucceeded_of_ne fun dir args hop => by simp [hop, Op.deletes] at ho

theorem seals_cleanupWorktree (workerId : String) (deleteBranch force : Bool) :
    (cleanupWorktree (F := F) P M workerId deleteBranch force).Seals Op.deletes GitSucceeded := by
  refine Proc.secures_require.seals_bind (Proc.only_require _ _) fun _ => ?_
  refine (Proc.secures_op fun _ => gitSucceeded_of_ne (by simp)).seals_bind
    ((Proc.only_op _).mpr id) fun found => ?_
  cases found with
  | none => exact Proc.Only.seals (A := fun _ => False) trivial fun _ => False.elim
  | some a => exact seals_cleanupAssignment workerId deleteBranch

/-! ## What goes past the listing -/

def Op.elsewhere : Op F → Prop
  | .git _ args => args.head? = some "branch"
  | _ => True

theorem elsewhere_managedTarget : (managedTarget M a).Only Op.elsewhere :=
  only_managedTarget (fun _ => trivial) fun _ => trivial

theorem managedTarget_eq {t : PurePath} (hplays : (managedTarget M a).Plays h (.ok t))
    (hans : ∀ e ∈ h, Answers M l a target e.op e.ans) :
    t = target ∧ t.isRelativeTo M.worktreesDir = true := by
  obtain ⟨_, h₁, h₁plays, rfl⟩ := Proc.returns_op_bind.mp hplays
  obtain ⟨-, h₁plays⟩ := Proc.returns_require_bind.mp h₁plays
  obtain ⟨t', h₂, h₂plays, rfl⟩ := Proc.returns_op_bind.mp h₁plays
  have ht : (Except.ok t' : Except WorktreeError PurePath) = .ok target :=
    hans ⟨.resolve (.ofString a.worktreePath), .ok t'⟩ (by simp)
  obtain ⟨hinside, h₂plays⟩ := Proc.returns_require_bind.mp h₂plays
  obtain ⟨_, h₃, h₃plays, rfl⟩ := Proc.returns_op_bind.mp h₂plays
  obtain ⟨-, h₃plays⟩ := Proc.returns_require_bind.mp h₃plays
  obtain ⟨-, hr⟩ := Proc.plays_ret_iff.mp h₃plays
  obtain rfl := Except.ok.inj hr
  exact ⟨Except.ok.inj ht, hinside⟩

theorem elsewhere_finish (workerId : String) (deleteBranch : Bool) :
    ((Proc.when (deleteBranch = true ∧ a.branchName ≠ "") (removeBranch M a)).bind fun _ =>
      (perform (.deleteWorktree workerId)).bind fun _ => .ret true).Only Op.elsewhere :=
  (Proc.only_when (only_removeBranch (A := Op.elsewhere) rfl)).bind fun _ =>
    Proc.only_op_bind trivial fun _ => trivial

theorem removal_of_assignment {workerId : String} {deleteBranch : Bool}
    {r : Except WorktreeError Bool} {e : Event (sig F) WorktreeError}
    (hplays : (cleanupAssignment P M workerId deleteBranch a).Plays h r)
    (hans : ∀ e ∈ h, Answers M l a target e.op e.ans) (he : e ∈ h) (helse : ¬e.op.elsewhere) :
    target.isRelativeTo M.worktreesDir = true ∧ ∃ h₁ h₂ h₃ r', h = h₁ ++ h₂ ++ h₃ ∧
      (removeWorktree P M a target).Plays h₂ r' ∧ ∀ e ∈ h₁ ++ h₃, e.op.elsewhere := by
  rcases Proc.plays_bind.mp hplays with ⟨t, h₁, h₂, h₁plays, h₂plays, rfl⟩ | ⟨_, hplays', -⟩
  · have hothers := elsewhere_managedTarget.plays h₁plays
    obtain ⟨rfl, hinside⟩ := managedTarget_eq h₁plays (List.forall_mem_append.mp hans).1
    have he₂ : e ∈ h₂ := (List.mem_append.mp he).resolve_left fun he => helse (hothers e he)
    rcases Proc.plays_op_bind.mp h₂plays with ⟨there, h₃, h₃plays, rfl⟩ | ⟨_, rfl, -⟩
    · have he₃ : e ∈ h₃ := by
        rcases List.mem_cons.mp he₂ with rfl | he
        · exact absurd trivial helse
        · exact he
      have hfinish := elsewhere_finish (M := M) (a := a) workerId deleteBranch
      have hbefore : ∀ e ∈ h₁ ++ [⟨.pathExists t, .ok there⟩], e.op.elsewhere :=
        List.forall_mem_append.mpr ⟨hothers, List.forall_mem_singleton.mpr trivial⟩
      cases there with
      | false => exact absurd (hfinish.plays h₃plays e he₃) helse
      | true =>
        rcases Proc.plays_bind.mp h₃plays with ⟨_, h₄, h₅, h₄plays, h₅plays, rfl⟩ | ⟨_, hraise, -⟩
        · refine ⟨hinside, h₁ ++ [⟨.pathExists t, .ok true⟩], h₄, h₅, _, by simp, h₄plays, ?_⟩
          exact List.forall_mem_append.mpr ⟨hbefore, hfinish.plays h₅plays⟩
        · refine ⟨hinside, h₁ ++ [⟨.pathExists t, .ok true⟩], h₃, [], _, by simp, hraise, ?_⟩
          rwa [List.append_nil]
    · obtain rfl := List.mem_singleton.mp he₂
      exact absurd trivial helse
  · exact absurd (elsewhere_managedTarget.plays hplays' e he) helse

theorem removal_of_listed {workerId : String} {deleteBranch force : Bool}
    {r : Except WorktreeError Bool}
    (hplays : (cleanupWorktree P M workerId deleteBranch force).Plays h r)
    (hans : ∀ e ∈ h, Answers M l a target e.op e.ans) (hlisted : ∃ e ∈ h, ¬e.op.elsewhere) :
    target.isRelativeTo M.worktreesDir = true ∧ ∃ h₁ h₂ h₃ r', h = h₁ ++ h₂ ++ h₃ ∧
      (removeWorktree P M a target).Plays h₂ r' ∧ ∀ e ∈ h₁ ++ h₃, e.op.elsewhere := by
  obtain ⟨e, he, helse⟩ := hlisted
  rcases Proc.plays_require_bind.mp hplays with ⟨-, h₁plays⟩ | ⟨-, rfl, -⟩
  · rcases Proc.plays_op_bind.mp h₁plays with ⟨found, h₂, h₂plays, rfl⟩ | ⟨_, rfl, -⟩
    · have hfound : (Except.ok found : Except WorktreeError (Option (WorktreeAssignment F))) =
          .ok (some a) := hans ⟨.loadWorktree workerId, .ok found⟩ List.mem_cons_self
      obtain rfl := Except.ok.inj hfound
      have hans₂ := (List.forall_mem_cons.mp hans).2
      have he₂ : e ∈ h₂ := by
        rcases List.mem_cons.mp he with rfl | he
        · exact absurd trivial helse
        · exact he
      obtain ⟨hinside, h₃, h₄, h₅, r', rfl, hremove, hothers⟩ :=
        removal_of_assignment h₂plays hans₂ he₂ helse
      refine ⟨hinside, ⟨.loadWorktree workerId, .ok (some a)⟩ :: h₃, h₄, h₅, r', rfl, hremove, ?_⟩
      exact List.forall_mem_cons.mpr ⟨trivial, hothers⟩
    · obtain rfl := List.mem_singleton.mp he
      exact absurd trivial helse
  · cases he

theorem inspected_iff_of_remove {r : Except WorktreeError Unit}
    (hplays : (removeWorktree P M a target).Plays h r)
    (hans : ∀ e ∈ h, Answers M l a target e.op e.ans) :
    (∃ e ∈ h, e.op = inspectStatus target) ↔
      checkListing P a.branchName target l.stdout = .ok () := by
  rcases Proc.plays_op_bind.mp hplays with ⟨c, h₁, h₁plays, rfl⟩ | ⟨e, rfl, -⟩
  · obtain ⟨stderr, hc⟩ := hans ⟨listWorktrees M, .ok c⟩ List.mem_cons_self rfl
    obtain rfl := Except.ok.inj hc
    rcases Proc.plays_require_bind.mp h₁plays with ⟨-, h₁plays⟩ | ⟨hcode, -⟩
    · rcases Proc.plays_ofExcept_bind.mp h₁plays with ⟨_, hcheck, h₁plays⟩ | ⟨_, hcheck, rfl, -⟩
      · refine iff_of_true ?_ hcheck
        rcases Proc.plays_op_bind.mp h₁plays with ⟨_, h₂, -, rfl⟩ | ⟨_, rfl, -⟩
        · exact ⟨_, List.mem_cons_of_mem _ List.mem_cons_self, rfl⟩
        · exact ⟨_, List.mem_cons_of_mem _ List.mem_cons_self, rfl⟩
      · refine iff_of_false ?_ fun hok => by cases hok.symm.trans hcheck
        rintro ⟨e, he, hop⟩
        obtain rfl := List.mem_singleton.mp he
        simp at hop
    · exact absurd rfl hcode
  · obtain ⟨stderr, hc⟩ := hans ⟨listWorktrees M, .error e⟩ List.mem_cons_self rfl
    cases hc

theorem inspected_iff {workerId : String} {deleteBranch force : Bool}
    {r : Except WorktreeError Bool}
    (hplays : (cleanupWorktree P M workerId deleteBranch force).Plays h r)
    (hans : ∀ e ∈ h, Answers M l a target e.op e.ans) (hlisted : ∃ e ∈ h, e.op = listWorktrees M) :
    (∃ e ∈ h, e.op = inspectStatus target) ↔
      checkListing P a.branchName target l.stdout = .ok () := by
  obtain ⟨e, he, hop⟩ := hlisted
  obtain ⟨-, h₁, h₂, h₃, r', rfl, hremove, hothers⟩ :=
    removal_of_listed hplays hans ⟨e, he, by simp [hop, Op.elsewhere]⟩
  have hans₂ : ∀ e ∈ h₂, Answers M l a target e.op e.ans := fun e he => hans e (by simp [he])
  rw [← inspected_iff_of_remove hremove hans₂]
  constructor
  · rintro ⟨e, he, hop⟩
    refine ⟨e, ?_, hop⟩
    by_contra hnot
    have helse := hothers e (by simpa [hnot] using he)
    simp [hop, Op.elsewhere] at helse
  · rintro ⟨e, he, hop⟩
    exact ⟨e, by simp [he], hop⟩

def known (l : Listing) (a : WorktreeAssignment F) (target : PurePath) :
    (o : (sig F).Op) → Except WorktreeError ((sig F).Ret o)
  | .now => .error .failed
  | .loadWorktree _ => .ok (some a)
  | .saveWorktree _ | .deleteWorktree _ => .ok ()
  | .isSymlink _ => .ok false
  | .resolve _ => .ok target
  | .pathExists _ => .ok true
  | .git _ _ => .ok ⟨0, l.stdout, ""⟩

theorem answers_known (o : Op F) : Answers M l a target o (known l a target o) := by
  cases o with
  | git dir args => exact fun _ => ⟨"", rfl⟩
  | _ => trivial

theorem exists_listed (P : StrBuiltins) (l : Listing) (a : WorktreeAssignment F)
    (hinside : target.isRelativeTo M.worktreesDir = true) :
    ∃ h r, (cleanupWorktree P M a.workerId false false).Plays h r ∧
      (∀ e ∈ h, Answers M l a target e.op e.ans) ∧ ∃ e ∈ h, e.op = listWorktrees M := by
  refine ⟨_, _, Proc.plays_play (known l a target) _, fun e he => ?_, ?_⟩
  · rw [Proc.play_answers _ _ e he]
    exact answers_known e.op
  · simp [cleanupWorktree, cleanupAssignment, managedTarget, removeWorktree, perform, Proc.op,
      Proc.bind, Proc.require, Proc.play, Proc.ofExcept, Proc.when, known, hinside]

theorem cleansUp_iff_checkListing : CleansUp P M l a target ↔
    (target.isRelativeTo M.worktreesDir = true →
      (checkListing P a.branchName target l.stdout = .ok () ↔ l.InOrder a.branchName target)) := by
  constructor
  · intro hclean hinside
    obtain ⟨h, r, hplays, hans, hlisted⟩ := exists_listed P l a hinside
    rw [← inspected_iff hplays hans hlisted]
    exact hclean.proceeds _ _ _ h r hplays hans hlisted
  · refine fun hcheck => ⟨fun workerId deleteBranch force h r hplays hans hlisted => ?_,
      fun workerId deleteBranch force h r hplays hdeleted => ?_⟩
    · rw [inspected_iff hplays hans hlisted]
      obtain ⟨e, he, hop⟩ := hlisted
      exact hcheck (removal_of_listed hplays hans ⟨e, he, by simp [hop, Op.elsewhere]⟩).1
    · obtain ⟨e, he, id, hop⟩ := hdeleted
      exact seals_cleanupWorktree workerId deleteBranch force h r hplays
        ⟨e, he, by simp [hop, Op.deletes]⟩

def asciiBuiltins : StrBuiltins := ⟨fun s => "'" ++ s ++ "'", fun s => .ofList (lower s)⟩

def repository : GitWorktreeManager := ⟨.ofString "/r", .ofString "/r"⟩

def assignment (branchName : String) : WorktreeAssignment Nat :=
  ⟨"a", "team", "/r/w-a", branchName, 0⟩

def workerDir : PurePath := .ofString "/r/w-a"

def worktree (path branchName : String) : WorktreeEntry :=
  ⟨path, .onBranch "5f1e" ("refs/heads/" ++ branchName), none, none⟩

end SubagentBridge.Execution.GitWorktreeManager
