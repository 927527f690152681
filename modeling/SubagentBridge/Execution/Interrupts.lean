import SubagentBridge.Execution.WorkerReplies
import SubagentBridge.Execution.WorkingDirectory

/-! Interrupts: once a turn has begun, an interrupt that is read before the turn has decided on the
end of its command keeps the command from being reported as completed. -/

namespace SubagentBridge.WorkerThreads

open Library Worker
open OperatorBoundary (Env)

/-! ## What a turn heeds -/

section Turn

variable {F : Type}

def Completes (event : Dict String (Json F)) : Prop :=
  (fetch event "type").text = some "RESULT" ∧ (fetch event "status").text = some "COMPLETED"

def Begun (h : History F) : Prop := ∃ e ∈ h, ∃ argv cwd, e.op = .popen argv cwd

def Collected (h : History F) : Prop := ∃ e ∈ h, ∃ pid, e.op = .communicate pid

def Decided (h : History F) : Prop :=
  ∃ h' x, h = h' ++ [⟨.setActive none, x⟩, ⟨.isCancelled, .ok false⟩]

/-- The flag is cleared at the beginning only; the output of a command is taken directly after the
decision; and nothing else lets a command be reported as completed. -/
def Heeds (h : History F) : Worker.Op F → Prop
  | .clearCancel => h = []
  | .communicate _ => Decided h
  | .sendEvent event => Completes event → Begun h → Collected h
  | _ => True

abbrev heeding (F : Type) : Protocol (Worker.sig F) Error :=
  .ofHistory (fun (_ : Unit) h o => Heeds h o) Sound

/-- From the history `h` on, the procedure heeds the flag. -/
abbrev Heedful {α : Type} (h : History F) (p : Worker.Call F α) : Prop :=
  p.Follows (heeding F) (fun _ _ => True) ((), h)

def Free : Worker.Op F → Prop
  | .clearCancel | .communicate _ => False
  | .sendEvent event => ¬ Completes event
  | _ => True

variable {α β : Type} {h : History F} {p : Worker.Call F α}

theorem heeds_free {o : Worker.Op F} (ho : Free o) : Heeds h o := by
  cases o with
  | sendEvent event => exact fun hc => absurd hc ho
  | clearCancel | communicate => exact ho.elim
  | _ => trivial

theorem heeds_tame {o : Worker.Op F} (ho : o.tame) (hh : Begun h → Collected h) : Heeds h o := by
  cases o with
  | sendEvent event => exact fun _ => hh
  | clearCancel | communicate | popen => exact ho.elim
  | _ => trivial

theorem heedful_free (hp : p.Only Free) : Heedful h p :=
  (hp.follows (P := heeding F) (I := fun _ => True) trivial fun _ _ _ ho =>
    ⟨heeds_free ho, fun _ _ => trivial⟩).mono fun _ _ _ => trivial

theorem heedful_tame (hp : p.Only Op.tame) (hh : Begun h → Collected h) : Heedful h p := by
  refine (hp.follows (P := heeding F) (I := fun m => Begun m.2 → Collected m.2) hh ?_).mono
    fun _ _ _ => trivial
  intro m o hm ho
  refine ⟨heeds_tame ho hm, fun r _ => ?_⟩
  rintro ⟨e, he, argv, cwd, hop⟩
  rcases List.mem_append.mp he with he | he
  · obtain ⟨e', he', hc⟩ := hm ⟨e, he, argv, cwd, hop⟩
    exact ⟨e', List.mem_append_left _ he', hc⟩
  · cases List.mem_singleton.mp he
    rw [show o = .popen argv cwd from hop] at ho
    exact ho.elim

theorem heedful_perform {o : Worker.Op F} {f : o.Ret → Worker.Call F α} (ho : Heeds h o)
    (hf : ∀ a, Heedful (h ++ [⟨o, .ok a⟩]) (f a)) : Heedful h ((Worker.perform o).bind f) :=
  (Proc.follows_op_bind (S := Worker.sig F) o f).mpr ⟨ho, fun a _ => hf a, fun _ _ => trivial⟩

theorem heedful_bind {p : Worker.Call F β} {f : β → Worker.Call F α} (hp : p.Only Free)
    (hf : ∀ h b, Heedful h (f b)) : Heedful h (p.bind f) :=
  (heedful_free hp).bind (fun m b _ => hf m.2 b) fun _ _ _ => trivial

theorem free_of_mute (o : Worker.Op F) (ho : o.mute) : Free o := by
  cases o <;> trivial

theorem free_perform {o : Worker.Op F} (ho : Free o) : (Worker.perform o).Only Free :=
  (Proc.only_op (S := Worker.sig F) o).mpr ho

theorem free_answer {L : Local F} {taskId : Json F} {status : String}
    {fields : Dict String (Json F)} (hstatus : status ≠ "COMPLETED") :
    (answer L taskId status fields).Only Free := by
  refine Proc.Only.bind ((free_perform (o := .now) trivial).bind fun t => free_perform ?_)
    fun _ => trivial
  rintro ⟨-, hc⟩
  simp [fetch, Dict.get?_cons, Json.text] at hc
  exact hstatus hc

theorem heedful_answer {L : Local F} {taskId : Json F} {status : String}
    {fields : Dict String (Json F)} (hstatus : status ≠ "COMPLETED") :
    Heedful h (answer L taskId status fields) :=
  heedful_free (free_answer hstatus)

variable [FloatArith F] {E : Env F} {B : Builtins F} {host : Host} {A : Args F} {patience : Nat}
variable {L : Local F} {taskId : Json F} {payload : Dict String (Json F)} {argv : List String}

theorem heedful_runCommand {cwd : Option (Json F)} {start timeout : F} :
    Heedful h (runCommand B A patience L taskId payload argv cwd start timeout) := by
  apply heedful_perform (by trivial)
  intro pid
  apply heedful_perform (by trivial)
  intro _
  apply heedful_bind (mute_awaitCommand.mono free_of_mute)
  intro h ending
  apply heedful_perform (by trivial)
  intro _
  apply heedful_perform (by trivial)
  intro cancelled
  cases cancelled with
  | true => exact heedful_answer (by decide)
  | false =>
    apply heedful_perform (o := .communicate pid) ⟨_, _, List.append_assoc ..⟩
    intro finished
    have hcollected : Collected (h ++ [⟨.setActive none, .ok ()⟩] ++ [⟨.isCancelled, .ok false⟩] ++
        [(⟨.communicate pid, .ok finished⟩ : Event (Worker.sig F) Error)]) :=
      ⟨_, List.mem_append_right _ (List.mem_singleton_self _), pid, rfl⟩
    refine heedful_tame (tame_bind trivial fun stop => ?_) fun _ => hcollected
    split
    next => exact tame_answer
    next => exact tame_reportCommand

theorem heedful_startCommand {workspace : Json F} :
    Heedful h (startCommand B A patience L taskId payload argv workspace) := by
  have hspawn (h : History F) (cwd : Option (Json F)) (start timeout : F) :
      Heedful h ((runCommand B A patience L taskId payload argv cwd start timeout).tryCatch
        (commandFailed L taskId)) := by
    apply heedful_runCommand.tryCatch
    · exact fun _ _ _ => trivial
    · rintro m e -
      rw [commandFailed]
      split
      next => trivial
      next => exact heedful_answer (by decide)
  apply heedful_perform (by trivial)
  intro cancelled
  split
  next => exact heedful_answer (by decide)
  next =>
    apply heedful_bind (Proc.only_and (free_perform (by trivial)))
    intro h dir
    apply heedful_perform (by trivial)
    intro start
    apply heedful_bind (Proc.only_ofExcept _)
    exact fun h timeout => hspawn h _ start timeout

theorem heedful_commandTask {command : Json F} :
    Heedful h (commandTask E B A patience L taskId payload command) := by
  rw [commandTask]
  split
  next => exact heedful_answer (by decide)
  next argv _ =>
    dsimp only
    split
    next => exact heedful_answer (by decide)
    next =>
      apply heedful_perform (by trivial)
      intro now
      split
      next => exact heedful_answer (by decide)
      next =>
        split
        next => trivial
        next =>
          split
          next => exact heedful_answer (by decide)
          next => exact heedful_startCommand

theorem heedful_payloadTask (hh : ¬ Begun h) :
    Heedful h (payloadTask E B host A patience L taskId payload) := by
  rw [payloadTask]
  cases overBudget A L ((payload.get? "tokens_requested").getD (.int 0)) with
  | error e => trivial
  | ok spent =>
    cases spent with
    | true => exact heedful_answer (by decide)
    | false =>
      change Heedful h (if _ then _ else _)
      split
      next => exact heedful_answer (by decide)
      next =>
        split
        next => exact heedful_commandTask
        next => exact heedful_tame tame_plainTask fun hb => absurd hb hh

variable {msg : Dict String (Json F)}

theorem heedful_serve : Heedful [] (serve E B host A patience L msg) := by
  have htame {α : Type} {p : Worker.Call F α} (hp : p.Only Op.tame) : Heedful [] p :=
    heedful_tame hp fun hb => by
      obtain ⟨_, he, -⟩ := hb
      cases he
  rw [serve]
  split
  next => exact htame (tame_send.bind fun _ => trivial)
  next =>
    refine htame (Proc.Only.bind (tame_bind trivial fun _ => Proc.Only.bind ?_ fun _ => tame_send)
      fun _ => trivial)
    refine (tame_perform (o := .terminateActive) trivial).tryCatch fun e => ?_
    split <;> trivial
  next => exact htame (Proc.Only.bind (tame_send.bind fun _ => trivial) fun _ => trivial)
  next =>
    refine (heedful_perform (o := .clearCancel) rfl fun _ => ?_ : Heedful [] (task E B host A
      patience L (taskIdOf msg) (payloadOf msg))).bind (fun _ _ _ => trivial) fun _ _ _ => trivial
    split
    next => trivial
    next =>
      apply heedful_payloadTask
      rintro ⟨e, he, argv, cwd, hop⟩
      cases List.mem_singleton.mp he
      cases hop
  next => exact htame (tame_send.bind fun _ => trivial)
  next => trivial

end Turn

/-! ## The threads -/

section Threads

variable {F : Type}

def turnOf (h : List (Event (sig F) Error)) : History F :=
  h.foldl (fun k e => match e with
    | ⟨.own o, x⟩ => k ++ [⟨o, x⟩]
    | _ => []) []

theorem turnOf_own (h : List (Event (sig F) Error)) (o : Worker.Op F) (x : Except Error o.Ret) :
    turnOf (h ++ [⟨.own o, x⟩]) = turnOf h ++ [⟨o, x⟩] := by
  simp [turnOf]

theorem turnOf_get (h : List (Event (sig F) Error)) (x : Except Error (Op.Ret (F := F) .get)) :
    turnOf (h ++ [⟨.get, x⟩]) = [] := by
  simp [turnOf]

def Watches : Thread F → List (Event (sig F) Error) → Op F → Prop
  | .main _ _, h, .own o => Heeds (turnOf h) o
  | .main _ _, _, .get => True
  | .reader _, _, .own o => o.tame
  | .reader _, _, .readline => True
  | .reader _, _, .put _ => True
  | _, _, _ => False

abbrev watching (F : Type) : Protocol (sig F) Error :=
  .ofHistory (fun (q : Thread F) h o => Watches q h o) Answers

abbrev fresh (q : Thread F) : (watching F).Mode := (q, [])

abbrev Watchful {α : Type} (q : Thread F) (h : List (Event (sig F) Error)) (p : Call F α) : Prop :=
  p.Follows (watching F) (fun m _ => m.1 = q) (q, h)

def Reads : Op F → Prop
  | .own o => o.tame
  | .readline | .put _ => True
  | .get => False

theorem reads_perform {o : Op F} (ho : Reads o) : (perform o).Only Reads :=
  (Proc.only_op (S := sig F) o).mpr ho

theorem reads_readInput (input : Input F) : (readInput input).Only Reads := by
  rw [readInput.eq_def]
  split
  next => exact reads_perform trivial
  next =>
    split
    next => trivial
    next => exact (only_preempt trivial trivial).bind fun _ => reads_perform trivial

theorem reads_readLoop (n : Nat) : (readLoop (F := F) n).Only Reads := by
  induction n with
  | zero => trivial
  | succ n ih =>
    refine (reads_perform (o := .readline) trivial).bind fun input => ?_
    cases input with
    | none => trivial
    | some input => exact (reads_readInput input).bind fun _ => ih

theorem watchful_readerThread {n : Nat} (m : Nat) :
    Watchful (.reader m) [] (readerThread (F := F) n) := by
  have hreads : (readerThread (F := F) n).Only Reads := by
    refine Proc.Only.ensuring ((reads_readLoop n).tryCatch fun e => ?_)
      (reads_perform (o := .put none) trivial)
    split <;> trivial
  refine hreads.follows (P := watching F) (I := fun m' => m'.1 = .reader m) rfl ?_
  rintro ⟨_, h⟩ o rfl ho
  refine ⟨?_, fun _ _ => rfl⟩
  cases o with
  | own o => exact ho
  | get => exact ho.elim
  | _ => trivial

variable [FloatArith F] {E : Env F} {B : Builtins F} {host : Host} {A : Args F} {patience : Nat}

omit [FloatArith F] in
theorem simulates_heeding (L : Local F) (n : Nat) :
    Proc.Simulates (turns F) (heeding F) (watching F)
      (fun m m' => m'.1 = .main L n ∧ turnOf m'.2 = m.2) where
  allow := by
    rintro m ⟨_, h⟩ o ⟨rfl, hturn⟩ hallow
    show Heeds (turnOf h) o
    rw [hturn]
    exact hallow
  answer := by
    intro o r hr
    cases r with
    | ok a => exact hr
    | error e => exact hr
  next := by
    rintro m ⟨_, h⟩ o r ⟨rfl, hturn⟩ - -
    refine ⟨rfl, ?_⟩
    cases r with
    | ok a => exact (turnOf_own h o (.ok a)).trans (congrArg (· ++ [⟨o, .ok a⟩]) hturn)
    | error e => exact (turnOf_own h o (.error e)).trans (congrArg (· ++ [⟨o, .error e⟩]) hturn)

theorem watchful_mainLoop (L₀ : Local F) (n₀ n : Nat) (L : Local F)
    (h : List (Event (sig F) Error)) :
    Watchful (.main L₀ n₀) h (mainLoop E B host A patience n L) := by
  induction n generalizing L h with
  | zero => rfl
  | succ n ih =>
    refine (Proc.follows_op_bind (S := sig F) .get _).mpr ⟨trivial, ?_, fun _ _ => rfl⟩
    intro msg _
    cases msg with
    | none => rfl
    | some msg =>
      have hturn : Watchful (.main L₀ n₀) (h ++ [⟨.get, .ok (some msg)⟩])
          ((serve E B host A patience L msg).lift (turns F)) := by
        apply heedful_serve.lift (simulates_heeding L₀ n₀)
        · exact ⟨rfl, turnOf_get h _⟩
        · exact fun m m' r hm _ => hm.1
      apply hturn.bind
      · rintro ⟨_, h'⟩ next rfl
        cases next with
        | none => rfl
        | some L => exact ih L h'
      · exact fun m e hm => hm

theorem watchful_body (q : Thread F) : Watchful q [] (body E B host A patience q) := by
  cases q with
  | main L n => exact watchful_mainLoop L n n L []
  | reader n => exact watchful_readerThread n

end Threads

/-! ## All interleavings -/

section Runs

variable {F : Type} {s : State F} {w : World F}

theorem exec_cancelled (o : Worker.Op F) (ho : o ≠ .clearCancel) (hs : s.cancelled = true) :
    (exec (.own o) w s).2.cancelled = true := by
  have hattempt {α : Type} (a : α) : (attempt w s a).2.cancelled = true := by
    obtain h | ⟨e, -, h⟩ := attempt_cases (w := w) (s := s) a <;> rw [h] <;> exact hs
  cases o with
  | clearCancel => exact absurd rfl ho
  | setCancel => rfl
  | terminateActive =>
    rw [exec]
    split
    next => exact hattempt _
    next => exact hs
  | now | isCancelled | waitCancelled | sleep | setActive | sendEvent => exact hs
  | _ => exact hattempt _

theorem exec_reads {o : Op F} (ho : Reads o) (hs : s.cancelled = true) :
    (exec o w s).2.cancelled = true := by
  cases o with
  | own o =>
    apply exec_cancelled o _ hs
    rintro rfl
    exact ho.elim
  | readline =>
    rw [exec]
    split <;> exact hs
  | put msg => exact hs
  | get => exact ho.elim

theorem reads_of_watches {n : Nat} {h : List (Event (sig F) Error)} {o : Op F}
    (ho : Watches (.reader n) h o) : Reads o := by
  cases o <;> exact ho

/-- A turn that has begun, and has neither just decided to take the output of its command nor
taken it. -/
structure Undecided (h : List (Event (sig F) Error)) : Prop where
  begun : turnOf h ≠ []
  undecided : ¬ Decided (turnOf h)
  running : ¬ Collected (turnOf h)

variable [FloatArith F] {E : Env F} {B : Builtins F} {host : Host} {A : Args F} {patience : Nat}
variable {rounds : Nat} {L : Local F} {inputs : List (Input F)}
variable {c c₁ c₂ : (machine E B host A patience).Config}
variable {ls ls₁ ls₂ : List (machine E B host A patience).Label}

theorem watches_of_run (hrun : Path Machine.step (Real E B host A patience)
    (launched E B host A patience rounds L inputs) ls c) {i : Nat} {w : World F}
    {c' : (machine E B host A patience).Config} {q : Thread F} {o : Op F}
    {k : Except Error o.Ret → Call F Unit} {h : List (Event (sig F) Error)}
    (hact : Machine.Acts c i w c' q o k h) : Watches q h o := by
  have hdisciplined : c.Disciplined (watching F) fresh
      fun q (m : (watching F).Mode) _ => m.1 = q := by
    refine Machine.disciplined_from ?_ (closed_real fun _ _ h => h) hrun
    intro a ha
    obtain ⟨q, -, rfl⟩ := List.mem_map.mp ha
    exact watchful_body q
  have hf : (Proc.call o k : Call F Unit).Follows (watching F) (fun m _ => m.1 = q)
      ((watching F).after (fresh q) h) := hdisciplined _ (List.mem_of_getElem? hact.call)
  rw [Protocol.after_ofHistory] at hf
  exact hf.1

theorem two_threads (hrun : Path Machine.step (Real E B host A patience)
    (launched E B host A patience rounds L inputs) ls c) :
    ∃ (p p' : Call F Unit) (h h' : List (Event (sig F) Error)),
      c.calls = [⟨.main L rounds, p, h⟩, ⟨.reader rounds, p', h'⟩] := by
  refine hrun.invariant (I := fun c => ∃ (p p' : Call F Unit) (h h' : List (Event (sig F) Error)),
    c.calls = [⟨.main L rounds, p, h⟩, ⟨.reader rounds, p', h'⟩]) ⟨_, _, [], [], rfl⟩ ?_
  rintro c l c' ⟨p, p', h, h', hcalls⟩ hG hs
  cases l with
  | start q => exact hG.elim
  | act i w =>
    obtain ⟨q, o, f, h₀, hact⟩ := Machine.step_act hs
    have hcall := hact.call
    rw [hact.result, hcalls]
    rw [hcalls] at hcall
    obtain _ | _ | i := i
    · cases hcall
      exact ⟨_, _, _, _, rfl⟩
    · cases hcall
      exact ⟨_, _, _, _, rfl⟩
    · cases hcall

def mainHist (c : (machine E B host A patience).Config) : List (Event (sig F) Error) :=
  match c.calls with
  | a :: _ => a.hist
  | [] => []

theorem step_main (hrun : Path Machine.step (Real E B host A patience)
      (launched E B host A patience rounds L inputs) ls c)
    {c' : (machine E B host A patience).Config} {i : Nat} {w : World F}
    (hs : Machine.step c (.act i w) = some c') :
    (mainHist c' = mainHist c ∧
      (State.cancelled c.state = true → State.cancelled c'.state = true)) ∨
    ∃ o : Op F, mainHist c' = mainHist c ++ [⟨o, (exec o w c.state).1⟩] ∧
      c'.state = (exec o w c.state).2 ∧ Watches (.main L rounds) (mainHist c) o := by
  obtain ⟨q, o, f, h₀, hact⟩ := Machine.step_act hs
  obtain ⟨p, p', h, h', hcalls⟩ := two_threads hrun
  have hwatches := watches_of_run hrun hact
  have hcall := hact.call
  rw [hcalls] at hcall
  rw [hact.result, mainHist, mainHist, hcalls]
  obtain _ | _ | i := i
  · cases hcall
    exact .inr ⟨o, rfl, rfl, hwatches⟩
  · cases hcall
    exact .inl ⟨rfl, fun hset => exec_reads (reads_of_watches hwatches) hset⟩
  · cases hcall

theorem mainHist_mono (hrun₁ : Path Machine.step (Real E B host A patience)
      (launched E B host A patience rounds L inputs) ls₁ c₁)
    (hrun₂ : Path Machine.step (Real E B host A patience) c₁ ls₂ c₂) :
    mainHist c₁ <+: mainHist c₂ := by
  induction hrun₂ with
  | refl => exact List.prefix_rfl
  | @tail c c' ls l hp hG hs ih =>
    cases l with
    | start q => exact hG.elim
    | act i w =>
      obtain ⟨hh, -⟩ | ⟨o, hh, -, -⟩ := step_main (hrun₁.trans hp) hs
      · rw [hh]
        exact ih
      · rw [hh]
        exact ih.trans (List.prefix_append _ _)

omit [FloatArith F] in
theorem Undecided.own {h : List (Event (sig F) Error)} {o : Worker.Op F} (hopen : Undecided h)
    (ho : Heeds (turnOf h) o) (hset : s.cancelled = true) :
    (exec (.own o) w s).2.cancelled = true ∧
      Undecided (h ++ [⟨.own o, (exec (.own o) w s).1⟩]) := by
  refine ⟨exec_cancelled o ?_ hset, ?_, ?_, ?_⟩
  · rintro rfl
    exact hopen.begun ho
  · rw [turnOf_own]
    simp
  · rintro ⟨k, y, heq⟩
    rw [turnOf_own] at heq
    obtain ⟨-, hlast⟩ :=
      List.append_singleton_inj.mp (heq.trans (List.append_assoc k [_] [_]).symm)
    cases o with
    | isCancelled =>
      have hans : (exec (.own .isCancelled) w s).1 = .ok s.cancelled := rfl
      rw [hans, hset] at hlast
      cases hlast
    | _ => cases hlast
  · rw [turnOf_own]
    rintro ⟨e, he, pid, hop⟩
    rcases List.mem_append.mp he with he | he
    · exact hopen.running ⟨e, he, pid, hop⟩
    · cases List.mem_singleton.mp he
      cases hop
      exact hopen.undecided ho

theorem stays_undecided (hrun₁ : Path Machine.step (Real E B host A patience)
      (launched E B host A patience rounds L inputs) ls₁ c₁)
    (hrun₂ : Path Machine.step (Real E B host A patience) c₁ ls₂ c₂)
    (hset : State.cancelled c₁.state = true) (hopen : Undecided (mainHist c₁))
    {k : List (Event (sig F) Error)} (hk : mainHist c₂ = mainHist c₁ ++ k)
    (hsame : ∀ e ∈ k, e.op ≠ .get) :
    State.cancelled c₂.state = true ∧ Undecided (mainHist c₂) := by
  induction hrun₂ generalizing k with
  | refl => exact ⟨hset, hopen⟩
  | @tail c c' ls l hp hG hs ih =>
    cases l with
    | start q => exact hG.elim
    | act i w =>
      obtain ⟨hh, hkeep⟩ | ⟨o, hh, hstate, hwatches⟩ := step_main (hrun₁.trans hp) hs
      · obtain ⟨hset', hopen'⟩ := ih (hh ▸ hk) hsame
        exact ⟨hkeep hset', hh ▸ hopen'⟩
      · obtain ⟨k₀, hk₀⟩ := mainHist_mono hrun₁ hp
        have hsplit : k = k₀ ++ [⟨o, (exec o w c.state).1⟩] := by
          rw [hh, ← hk₀, List.append_assoc] at hk
          exact (List.append_cancel_left hk).symm
        obtain ⟨hset', hopen'⟩ := ih hk₀.symm fun e he => hsame e (by simp [hsplit, he])
        cases o with
        | own o =>
          rw [hh, hstate]
          exact hopen'.own hwatches hset'
        | get =>
          have hmem : (⟨.get, (exec .get w c.state).1⟩ : Event (sig F) Error) ∈ k := by
            rw [hsplit]
            exact List.mem_append_right _ (List.mem_singleton_self _)
          exact absurd rfl (hsame _ hmem)
        | _ => cases hwatches

/-! ### An interrupt in time, and one before its turn has begun -/

section Sample

def Op.isGet : Op F → Bool
  | .get => true
  | _ => false

def isPopen : Worker.Op F → Bool
  | .popen _ _ => true
  | _ => false

def isCommunicate : Worker.Op F → Bool
  | .communicate _ => true
  | _ => false

def isSetActive : Worker.Op F → Bool
  | .setActive _ => true
  | _ => false

omit [FloatArith F] in
theorem begun_of_any {h : History F} (hany : (h.any fun e => isPopen e.op) = true) : Begun h := by
  obtain ⟨e, he, hop⟩ := List.any_eq_true.mp hany
  refine ⟨e, he, ?_⟩
  cases ho : e.op with
  | popen argv cwd => exact ⟨argv, cwd, rfl⟩
  | _ =>
    rw [ho] at hop
    cases hop

omit [FloatArith F] in
theorem undecided_of_active {h : List (Event (sig F) Error)}
    (hlast : ((turnOf h).getLast?.any fun e => isSetActive e.op) = true)
    (hrunning : ((turnOf h).any fun e => isCommunicate e.op) = false) : Undecided h := by
  refine ⟨?_, ?_, ?_⟩
  · intro hnil
    rw [hnil] at hlast
    cases hlast
  · rintro ⟨k, x, hk⟩
    rw [hk] at hlast
    simp [isSetActive] at hlast
  · rintro ⟨e, he, pid, hop⟩
    have hall := List.any_eq_false.mp hrunning e he
    rw [hop] at hall
    exact hall rfl

def reported (h : List (Event (sig F) Error)) : Option (Dict String (Json F)) :=
  match h.getLast? with
  | some ⟨.own (.sendEvent event), _⟩ => some event
  | _ => none

omit [FloatArith F] in
theorem eq_of_reported {h : List (Event (sig F) Error)} {event : Dict String (Json F)}
    (hr : reported h = some event) : ∃ x, h = h.dropLast ++ [⟨.own (.sendEvent event), x⟩] := by
  rw [reported] at hr
  split at hr
  next x hlast =>
    cases hr
    obtain ⟨h', rfl⟩ := List.getLast?_eq_some_iff.mp hlast
    exact ⟨x, by rw [List.dropLast_concat]⟩
  next => cases hr

def commandInputs : List (Input Int) :=
  [.json (.obj (sampleTask [])), .json (.obj idleInterrupt)]

abbrev commanded : sample.Config :=
  launched sampleEnv sampleBuiltins sampleHost sampleArgs 1 4 sampleLocal commandInputs

abbrev Sampled : sample.Config → List sample.Label → sample.Config → Prop :=
  Path Machine.step (Real sampleEnv sampleBuiltins sampleHost sampleArgs 1)

def sampled (c : sample.Config) (ls : List sample.Label) : Option sample.Config :=
  Library.exec (restrict Machine.step (Real sampleEnv sampleBuiltins sampleHost sampleArgs 1)) c ls

def commandWorld : World Int := ⟨100, none, false, 12, some 0, ⟨"", "", 0⟩, ""⟩

def commandActs (i n : Nat) : List sample.Label := List.replicate n (.act i commandWorld)

def inTime (c : sample.Config) : Bool :=
  State.cancelled c.state && ((turnOf (mainHist c)).getLast?.any fun e => isSetActive e.op) &&
    !(turnOf (mainHist c)).any fun e => isCommunicate e.op

theorem undecided_of_inTime {c : sample.Config} (hc : inTime c = true) :
    State.cancelled c.state = true ∧ Undecided (mainHist c) := by
  rw [inTime, Bool.and_eq_true_iff, Bool.and_eq_true_iff] at hc
  obtain ⟨⟨hset, hlast⟩, hrunning⟩ := hc
  exact ⟨hset, undecided_of_active hlast (Bool.not_eq_true' _ ▸ hrunning)⟩

/-- From the first configuration to the second one, the main thread has not left its turn, and has
reported the command as cancelled. -/
def cancels (c₁ c₂ : sample.Config) : Bool :=
  ((reported (mainHist c₂)).any fun event => (fetch event "status").text == some "CANCELLED") &&
    (decide ((mainHist c₁).length < (mainHist c₂).length)) &&
      (((mainHist c₂).dropLast.drop (mainHist c₁).length).all fun e => !e.op.isGet) &&
        ((turnOf (mainHist c₂).dropLast).any fun e => isPopen e.op)

theorem cancels_of_run {c₁ c₂ : sample.Config} {ls₁ ls₂ : List sample.Label}
    (hrun₁ : Sampled commanded ls₁ c₁) (hrun₂ : Sampled c₁ ls₂ c₂) (hc : cancels c₁ c₂ = true) :
    ∃ k event x, mainHist c₂ = mainHist c₁ ++ k ++ [⟨.own (.sendEvent event), x⟩] ∧
      (∀ e ∈ k, e.op ≠ .get) ∧ Begun (turnOf (mainHist c₁ ++ k)) ∧
      (fetch event "status").text = some "CANCELLED" := by
  rw [cancels, Bool.and_eq_true_iff, Bool.and_eq_true_iff, Bool.and_eq_true_iff] at hc
  obtain ⟨⟨⟨hreported, hlonger⟩, hsame⟩, hbegun⟩ := hc
  obtain ⟨event, hevent, hstatus⟩ := (Option.any_eq_true _ _).mp hreported
  obtain ⟨x, hx⟩ := eq_of_reported hevent
  obtain ⟨k', hk'⟩ := mainHist_mono hrun₁ hrun₂
  have hlonger := of_decide_eq_true hlonger
  have hsplit : (mainHist c₂).dropLast =
      mainHist c₁ ++ (mainHist c₂).dropLast.drop (mainHist c₁).length := by
    have hne : k' ≠ [] := by
      rintro rfl
      rw [← hk', List.append_nil] at hlonger
      exact lt_irrefl _ hlonger
    rw [← hk', List.dropLast_append_of_ne_nil hne, List.drop_left]
  refine ⟨(mainHist c₂).dropLast.drop (mainHist c₁).length, event, x, ?_, ?_, ?_, ?_⟩
  · rw [← hsplit]
    exact hx
  · intro e he hget
    have hother := List.all_eq_true.mp hsame e he
    rw [hget] at hother
    cases hother
  · rw [← hsplit]
    exact begun_of_any hbegun
  · exact eq_of_beq hstatus

end Sample

/-- No interrupt that is read in time is lost: once the flag is set in a turn that is undecided, no
command that the turn has started is reported as completed. -/
theorem interrupt_prevents_completion (hrun₁ : Path Machine.step (Real E B host A patience)
      (launched E B host A patience rounds L inputs) ls₁ c₁)
    (hrun₂ : Path Machine.step (Real E B host A patience) c₁ ls₂ c₂)
    (hset : State.cancelled c₁.state = true) (hopen : Undecided (mainHist c₁))
    {k : List (Event (sig F) Error)} {event : Dict String (Json F)} {x : Except Error Unit}
    (hk : mainHist c₂ = mainHist c₁ ++ k ++ [⟨.own (.sendEvent event), x⟩])
    (hsame : ∀ e ∈ k, e.op ≠ .get) (hbegun : Begun (turnOf (mainHist c₁ ++ k))) :
    ¬ Completes event := by
  induction hrun₂ with
  | refl =>
    have hlength := congrArg List.length hk
    simp only [List.length_append, List.length_singleton] at hlength
    omega
  | @tail c c' ls l hp hG hs ih =>
    cases l with
    | start q => exact hG.elim
    | act i w =>
      obtain ⟨hh, -⟩ | ⟨o, hh, -, hwatches⟩ := step_main (hrun₁.trans hp) hs
      · exact ih (hh ▸ hk)
      · rw [hh] at hk
        obtain ⟨hbefore, hlast⟩ := List.append_singleton_inj.mp hk
        cases hlast
        obtain ⟨-, hopen'⟩ := stays_undecided hrun₁ hp hset hopen hbefore hsame
        rw [hbefore] at hwatches hopen'
        exact fun hc => hopen'.running (hwatches hc hbegun)

theorem heard_interrupt : ∃ c₁ c₂ k event x,
    Sampled commanded (commandActs 1 2 ++ commandActs 0 7 ++ commandActs 1 2) c₁ ∧
      Sampled c₁ (commandActs 1 2 ++ commandActs 0 5) c₂ ∧
      mainHist c₂ = mainHist c₁ ++ k ++ [⟨.own (.sendEvent event), x⟩] ∧
      (fetch event "status").text = some "CANCELLED" ∧ ¬ Completes event := by
  have h : (sampled commanded (commandActs 1 2 ++ commandActs 0 7 ++ commandActs 1 2)).any
      (fun c₁ => inTime c₁ && (sampled c₁ (commandActs 1 2 ++ commandActs 0 5)).any
        fun c₂ => cancels c₁ c₂) = true := by
    decide +kernel
  obtain ⟨c₁, h₁, hc₁⟩ := run_of_any h
  obtain ⟨hearly, hc₁⟩ := Bool.and_eq_true_iff.mp hc₁
  obtain ⟨c₂, h₂, hlate⟩ := run_of_any hc₁
  have hrun₁ := path_of_restrict h₁
  have hrun₂ := path_of_restrict h₂
  obtain ⟨hset, hopen⟩ := undecided_of_inTime hearly
  obtain ⟨k, event, x, hk, hsame, hbegun, hstatus⟩ := cancels_of_run hrun₁ hrun₂ hlate
  exact ⟨c₁, c₂, k, event, x, hrun₁, hrun₂, hk, hstatus,
    interrupt_prevents_completion hrun₁ hrun₂ hset hopen hk hsame hbegun⟩

-- An interrupt that is read before its turn has begun is lost: the turn clears the flag.
example : ((sampled commanded (commandActs 1 6)).any fun c₁ => State.cancelled c₁.state &&
    (sampled c₁ (commandActs 0 14)).any fun c₂ => (reported (mainHist c₂)).any fun event =>
      (fetch event "status").text == some "COMPLETED") = true := by
  decide +kernel

end Runs

end SubagentBridge.WorkerThreads
