import SubagentBridge.Library.Surroundings
import SubagentBridge.Execution.TaskAnswers

/-! When a task is answered: the turn of the main loop from its beginning to its end, in
surroundings that may leave an operation without an answer. -/

namespace SubagentBridge.Worker

open Library OperatorBoundary TrustedAuthority

/-- The model of the waiting loop was cut short. -/
def IsCut (e : Error) : Prop := e.kind = .cutShort

section Turn

variable {F : Type}

abbrev Surroundings (F : Type) := Proc.Surroundings (sig F) Error

/-- However often the worker looks, its command is still running, and nothing ends it. -/
def Endless {α : Type} (w : Surroundings F) (turn : Nat → Call F α) : Prop :=
  ∀ patience, ∃ h r, (turn patience).course w [] = .ended h r ∧ patience ≤ naps h

/-- The turn ends with one result for the task, and the worker goes on to the next message. -/
def Answered (w : Surroundings F) (turn : Nat → Call F (Option (Local F))) (taskId : Json F) :
    Prop :=
  ∃ h L, Proc.Finishes IsCut w turn h (.ok (some L)) ∧
    ∃ event, results h = [event] ∧ event.get? "task_id" = some taskId

variable [FloatArith F] {E : Env F} {B : Builtins F} {host : Host} {A : Args F} {L : Local F}
  {taskId : Json F} {payload : Dict String (Json F)} {n m : Nat}

/-! ## More patience -/

theorem cuts_awaitCommand {pid : Nat} {start timeout : F} (h : n ≤ m) :
    Proc.Cuts IsCut (awaitCommand pid start timeout n) (awaitCommand pid start timeout m) := by
  induction n generalizing m with
  | zero => exact .cut (show IsCut ⟨.cutShort, ""⟩ from rfl) _
  | succ n ih =>
    obtain ⟨m, rfl⟩ : ∃ m', m = m' + 1 := ⟨m - 1, by omega⟩
    refine .after _ fun status => ?_
    split
    next => exact .refl _
    next =>
      refine .after _ fun cancelled => ?_
      split
      next => exact .refl _
      next =>
        refine .after _ fun now => ?_
        split
        next => exact .refl _
        next => exact .after _ fun _ => ih (by omega)

theorem cuts_runCommand {argv : List String} {cwd : Option (Json F)} {start timeout : F}
    (h : n ≤ m) : Proc.Cuts IsCut (runCommand B A n L taskId payload argv cwd start timeout)
      (runCommand B A m L taskId payload argv cwd start timeout) :=
  .after _ fun _ => .after _ fun _ => (cuts_awaitCommand h).bind fun _ => .refl _

theorem cuts_startCommand {argv : List String} {workspace : Json F} (h : n ≤ m) :
    Proc.Cuts IsCut (startCommand B A n L taskId payload argv workspace)
      (startCommand B A m L taskId payload argv workspace) := by
  refine .after _ fun cancelled => ?_
  split
  next => exact .refl _
  next =>
    refine .after _ fun dir => .after _ fun start => .after _ fun timeout => ?_
    exact (cuts_runCommand h).tryCatch fun e he => if_pos he

theorem cuts_commandTask {command : Json F} (h : n ≤ m) :
    Proc.Cuts IsCut (commandTask E B A n L taskId payload command)
      (commandTask E B A m L taskId payload command) := by
  simp only [commandTask]
  split
  next => exact .refl _
  next =>
    split
    next => exact .refl _
    next =>
      refine .after _ fun now => ?_
      split
      next => exact .refl _
      next =>
        split
        next => exact .refl _
        next =>
          split
          next => exact .refl _
          next => exact cuts_startCommand h

theorem cuts_payloadTask (h : n ≤ m) :
    Proc.Cuts IsCut (payloadTask E B host A n L taskId payload)
      (payloadTask E B host A m L taskId payload) := by
  refine .after _ fun late => ?_
  split
  next => exact .refl _
  next =>
    split
    next => exact .refl _
    next =>
      split
      next => exact cuts_commandTask h
      next => exact .refl _

theorem grows_serve (msg : Dict String (Json F)) :
    Proc.Grows IsCut fun patience => serve E B host A patience L msg := by
  intro n m h
  simp only [serve]
  split
  case h_4 =>
    refine .bind (.after _ fun _ => ?_) fun _ => .refl _
    split
    next => exact .refl _
    next => exact cuts_payloadTask h
  all_goals exact .refl _

/-! ## The end of a turn -/

section Answers

variable {w : Surroundings F} {msg : Dict String (Json F)} {patience : Nat} {h : History F}
  {r : Except Error (Option (Local F))}

theorem fate_of_course (htask : (fetch msg "command").text = some "TASK")
    (hw : ∀ h o x, w h o = some x → Sound o x)
    (hc : (serve E B host A patience L msg).course w [] = .ended h r) :
    Fate (taskIdOf msg) patience (Breaks E B host A L msg) h r ∧
      ∀ next, r = .ok next → ∃ L', next = some L' := by
  obtain ⟨k, rfl, hplays, hans⟩ := Proc.plays_of_course hc
  refine (fate_serve htask).plays hplays fun e he => ?_
  obtain ⟨h₀, h₀'⟩ := hans e he
  exact hw h₀ _ _ h₀'

theorem finishes_serve (htask : (fetch msg "command").text = some "TASK")
    (hw : ∀ h o x, w h o = some x → Sound o x)
    (hhangs : ¬Proc.Hangs w fun patience => serve E B host A patience L msg)
    (hends : ¬Endless w fun patience => serve E B host A patience L msg) :
    ∃ h r, Proc.Finishes IsCut w (fun patience => serve E B host A patience L msg) h r := by
  simp only [Endless, not_forall, not_exists, not_and, not_le] at hends
  obtain ⟨patience, hpatience⟩ := hends
  cases hc : (serve E B host A patience L msg).course w [] with
  | waiting h o => exact absurd ⟨patience, h, o, hc⟩ hhangs
  | ended h r =>
    refine ⟨h, r, patience, hc, fun e hr hcut => ?_⟩
    obtain ⟨hfate, -⟩ := fate_of_course htask hw hc
    rcases hfate with ⟨_, _, hok, -⟩ | ⟨e', he', hnot, -⟩ | ⟨_, _, -, -, hle⟩
    · cases hok.symm.trans hr
    · cases he'.symm.trans hr
      exact hnot hcut
    · exact absurd hle (not_le.mpr (hpatience h r hc))

omit [FloatArith F] in
theorem not_endless {P : Nat → Call F (Option (Local F))} (hP : Proc.Grows IsCut P)
    (he : Proc.Finishes IsCut w P h r) : ¬Endless w P := by
  intro hends
  obtain ⟨n, hn⟩ := he.stable hP
  obtain ⟨h', r', hc, hle⟩ := hends (max n (naps h + 1))
  cases (hn _ (Nat.le_max_left _ _)).symm.trans hc
  exact absurd ((Nat.le_max_right _ _).trans hle) (by omega)

end Answers

end Turn

/-! ## A task that is answered, and some that are not -/

section Sample

def sampleSurroundings : Surroundings Int := fun _ o => some (sampleAnswer o)

theorem sound_sample (o : Op Int) : Sound o (sampleAnswer o) := by
  cases o <;> exact ⟨fun _ => ⟨_, rfl⟩, fun e he => by cases he⟩

abbrev sampleServe (msg : Dict String (Json Int)) (patience : Nat) :
    Call Int (Option (Local Int)) :=
  serve sampleEnv sampleBuiltins sampleHost sampleArgs patience sampleLocal msg

/-- The turn ends, with the results and the outcome as `p` says. -/
def endsWith (p : List (Dict String (Json Int)) → Except Error (Option (Local Int)) → Bool) :
    Proc.Course (sig Int) Error (Option (Local Int)) → Bool
  | .ended h r => p (results h) r
  | .waiting _ _ => false

theorem ended_of_endsWith
    {p : List (Dict String (Json Int)) → Except Error (Option (Local Int)) → Bool}
    {c : Proc.Course (sig Int) Error (Option (Local Int))} (h : endsWith p c = true) :
    ∃ k r, c = .ended k r ∧ p (results k) r = true := by
  cases c with
  | ended k r => exact ⟨k, r, rfl, h⟩
  | waiting k o => cases h

def soonTask : Dict String (Json Int) :=
  [("command", .str "TASK"), ("task_id", .str "t"), ("payload", .obj [("duration", .str "5")])]

def heldSurroundings : Surroundings Int
  | _, .communicate _ => none
  | _, o => some (sampleAnswer o)

end Sample

end SubagentBridge.Worker
