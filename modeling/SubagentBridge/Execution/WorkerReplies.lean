import SubagentBridge.Execution.WorkerThreads

/-! The results that a worker sends, however its threads are interleaved: those of the tasks that
were read, in their order. -/

namespace SubagentBridge.WorkerThreads

open Library Worker
open OperatorBoundary (Env)

/-! ## What a message asks for, and what an event answers -/

section Replies

variable {F : Type}

def owedFor (msg : Dict String (Json F)) : List (Option (Json F)) :=
  if (fetch msg "command").text = some "TASK" then [some (taskIdOf msg)] else []

def owed (msgs : List (Dict String (Json F))) : List (Option (Json F)) := msgs.flatMap owedFor

def replyTo (event : Dict String (Json F)) : List (Option (Json F)) :=
  if (fetch event "type").text = some "RESULT" then [event.get? "task_id"] else []

def replies (events : List (Dict String (Json F))) : List (Option (Json F)) :=
  events.flatMap replyTo

def replyIn : Worker.Op F → List (Option (Json F))
  | .sendEvent event => replyTo event
  | _ => []

def repliesIn (h : History F) : List (Option (Json F)) := h.flatMap fun e => replyIn e.op

@[simp] theorem owed_append (msgs msgs' : List (Dict String (Json F))) :
    owed (msgs ++ msgs') = owed msgs ++ owed msgs' := List.flatMap_append

@[simp] theorem owed_singleton (msg : Dict String (Json F)) : owed [msg] = owedFor msg := by
  simp [owed]

theorem owed_mono {msgs msgs' : List (Dict String (Json F))} (h : msgs <+: msgs') :
    owed msgs <+: owed msgs' := by
  obtain ⟨rest, rfl⟩ := h
  exact ⟨owed rest, (owed_append msgs rest).symm⟩

@[simp] theorem repliesIn_snoc (h : History F) (e : Event (Worker.sig F) Error) :
    repliesIn (h ++ [e]) = repliesIn h ++ replyIn e.op := by
  simp [repliesIn]

theorem repliesIn_eq (h : History F) : repliesIn h = (results h).map (·.get? "task_id") := by
  induction h with
  | nil => rfl
  | cons e h ih =>
    have hcons : repliesIn (e :: h) = replyIn e.op ++ repliesIn h := rfl
    rw [hcons, ih, results, results, List.filterMap_cons]
    obtain ⟨o, x⟩ := e
    cases o with
    | sendEvent event =>
      dsimp only [replyIn, replyTo]
      split
      next => rfl
      next => rfl
    | _ => rfl

theorem answerable [FloatArith F] (o : Worker.Op F) : ∃ x, Sound o x := by
  have hok (a : o.Ret) : Sound o (.ok a) := ⟨fun _ => ⟨a, rfl⟩, fun _ he => by cases he⟩
  cases o with
  | now => exact ⟨_, hok ((0 : Nat) : F)⟩
  | isCancelled => exact ⟨_, hok false⟩
  | waitCancelled timeout => exact ⟨_, hok false⟩
  | isDir path => exact ⟨_, hok false⟩
  | popen argv cwd => exact ⟨_, hok (0 : Nat)⟩
  | poll pid => exact ⟨_, hok (none : Option Int)⟩
  | communicate pid => exact ⟨_, hok (⟨"", "", 0⟩ : Finished)⟩
  | writeFile workspace name content => exact ⟨_, hok ""⟩
  | _ => exact ⟨_, hok ()⟩

end Replies

/-! ## One turn -/

section Turn

variable {F : Type} [FloatArith F] {E : Env F} {B : Builtins F} {host : Host} {A : Args F}
variable {patience : Nat} {L : Local F} {msg : Dict String (Json F)}

def Quiet (o : Worker.Op F) : Prop := replyIn o = []

omit [FloatArith F] in
theorem quiet_perform {o : Worker.Op F} (ho : Quiet o) : (Worker.perform o).Only Quiet :=
  (Proc.only_op (S := Worker.sig F) o).mpr ho

omit [FloatArith F] in
theorem replyTo_kind {kind : String} {fields : Dict String (Json F)} (hkind : kind ≠ "RESULT") :
    replyTo ([("type", .str kind)] ++ fields) = [] :=
  if_neg (by simpa [fetch, Dict.get?_cons, Json.text] using hkind)

omit [FloatArith F] in
theorem quiet_send {kind : String} {fields : Dict String (Json F)} (hkind : kind ≠ "RESULT") :
    (send ([("type", .str kind)] ++ fields)).Only Quiet :=
  (quiet_perform (o := .now) rfl).bind fun _ => quiet_perform (replyTo_kind hkind)

omit [FloatArith F] in
theorem quiet_interrupt : (interrupt A msg).Only Quiet := by
  refine (quiet_perform (o := .setCancel) rfl).bind fun _ => Proc.Only.bind ?_ fun _ => ?_
  · refine (quiet_perform (o := .terminateActive) rfl).tryCatch fun e => ?_
    split <;> trivial
  · exact quiet_send (by decide)

structure Settles (msg : Dict String (Json F)) (h : History F)
    (r : Except Error (Option (Local F))) : Prop where
  due : repliesIn h <+: owedFor msg
  paid : ∀ next, r = .ok next → repliesIn h = owedFor msg
  last : r = .ok none → (fetch msg "command").text = some "STOP"

omit [FloatArith F] in
theorem leads_quiet {α : Type} {p : Worker.Call F α} (hp : p.Only Quiet) :
    Leads [] (fun h _ => repliesIn h = []) p := by
  refine hp.follows (P := Answering F) (I := fun m => repliesIn m.2 = []) rfl ?_
  intro m o hm ho
  refine ⟨trivial, fun r _ => ?_⟩
  show repliesIn (m.2 ++ [⟨o, r⟩]) = []
  rw [repliesIn_snoc, hm]
  exact ho

theorem settles_other (hmsg : (fetch msg "command").text ≠ some "TASK") :
    Leads [] (Settles msg) (serve E B host A patience L msg) := by
  have howed : owedFor msg = [] := if_neg hmsg
  have hsettles {h : History F} {r : Except Error (Option (Local F))} (hh : repliesIn h = [])
      (hlast : r = .ok none → (fetch msg "command").text = some "STOP") : Settles msg h r :=
    ⟨hh ▸ List.nil_prefix, fun _ _ => hh.trans howed.symm, hlast⟩
  have hthen {α : Type} {p : Worker.Call F α} {f : α → Local F} (hp : p.Only Quiet) :
      Leads [] (Settles msg) (p.bind fun a => .ret (some (f a))) := by
    apply (leads_quiet hp).bind
    · exact fun h a hh => hsettles hh fun hr => by cases hr
    · exact fun h e hh => hsettles hh fun hr => by cases hr
  rw [serve]
  split
  next => exact hthen (f := fun _ => L) (quiet_send (by decide))
  next => exact hthen (f := fun _ => L) quiet_interrupt
  next => exact hthen (f := id) (Proc.Only.bind (quiet_send (by decide)) fun _ => trivial)
  next htask => exact absurd htask hmsg
  next hstop =>
    apply (leads_quiet (quiet_send (by decide))).bind
    · exact fun h a hh => hsettles hh fun _ => hstop
    · exact fun h e hh => hsettles hh fun hr => by cases hr
  next => exact hsettles rfl fun hr => by cases hr

theorem settles_serve : Leads [] (Settles msg) (serve E B host A patience L msg) := by
  by_cases htask : (fetch msg "command").text = some "TASK"
  · have howed : owedFor msg = [some (taskIdOf msg)] := if_pos htask
    have hnone {h : History F} {e : Error} (hres : results h = []) :
        Settles msg h (.error e) := by
      have hnil : repliesIn h = [] := by rw [repliesIn_eq, hres, List.map_nil]
      exact ⟨hnil ▸ List.nil_prefix, nofun, nofun⟩
    refine (fate_serve htask).mono ?_
    rintro m r ⟨⟨next, event, -, hres, hid, -⟩ | ⟨e, rfl, -, hres, -⟩ | ⟨e, rfl, -, hres, -⟩, hnext⟩
    · have hpaid : repliesIn m.2 = owedFor msg := by
        rw [repliesIn_eq, hres, howed, List.map_singleton, hid]
      refine ⟨hpaid ▸ List.prefix_rfl, fun _ _ => hpaid, fun hr => ?_⟩
      obtain ⟨L', hL⟩ := hnext none hr
      cases hL
    · exact hnone hres
    · exact hnone hres
  · exact settles_other htask

theorem follows_serve :
    (serve E B host A patience L msg).Follows
      (.ofHistory (fun (_ : Unit) h o => ∀ r, Sound o r → repliesIn (h ++ [⟨o, r⟩]) <+: owedFor msg)
        Sound)
      (fun m r => Settles msg m.2 r) ((), []) := by
  apply settles_serve.throughout (K := fun h => repliesIn h <+: owedFor msg)
  · exact fun _ _ hs => hs.due
  · exact answerable
  · intro h e hh
    rw [repliesIn_snoc] at hh
    exact (List.prefix_append _ _).trans hh

end Turn

/-! ## The threads -/

section Duties

variable {F : Type}

/-- The main thread has taken messages from the queue, and perhaps its end, and sent replies; the
reader may hold a message that it has not put there yet, and may have put the end there. -/
inductive Duty (F : Type)
  | serving (taken : List (Dict String (Json F))) (replied : List (Option (Json F)))
      (drained : Bool)
  | reading (pending : Option (Dict String (Json F))) (closed : Bool)

def Duty.Allows : Duty F → Op F → Prop
  | .serving _ _ drained, .get => drained = false
  | .serving taken replied _, .own o => replied ++ replyIn o <+: owed taken
  | .reading pending closed, .readline => pending = none ∧ closed = false
  | .reading pending closed, .put (some msg) => pending = some msg ∧ closed = false
  | .reading pending closed, .put none => owed pending.toList = [] ∧ closed = false
  | .reading _ _, .own o => Quiet o
  | _, _ => False

def Duty.next : Duty F → (o : Op F) → Except Error o.Ret → Duty F
  | .serving taken replied drained, .get, .ok (some msg) =>
    .serving (taken ++ [msg]) replied drained
  | .serving taken replied _, .get, .ok none => .serving taken replied true
  | .serving taken replied drained, .own o, _ => .serving taken (replied ++ replyIn o) drained
  | .reading _ closed, .readline, .ok (some input) => .reading input.msg? closed
  | .reading _ closed, .put (some _), _ => .reading none closed
  | .reading pending _, .put none, _ => .reading pending true
  | m, _, _ => m

def Answers : (o : Op F) → Except Error o.Ret → Prop
  | .own o, r => Sound o r
  | _, _ => True

abbrev duties (F : Type) : Protocol (sig F) Error := ⟨Duty F, Duty.Allows, Answers, Duty.next⟩

/-- The main thread at its end: without an exception it owes nothing, and it has found the end of
the queue or was stopped. -/
def Dismissed (m : Duty F) (r : Except Error Unit) : Prop :=
  ∃ taken replied drained, m = .serving taken replied drained ∧ (r = .ok () →
    replied = owed taken ∧
      (drained = true ∨ ∃ msg ∈ taken, (fetch msg "command").text = some "STOP"))

def Ended : Thread F → Duty F → Except Error Unit → Prop
  | .main _ _, m, r => Dismissed m r
  | .reader _, m, _ => ∃ pending, m = .reading pending true

def begins : Thread F → Duty F
  | .main _ _ => .serving [] [] false
  | .reader _ => .reading none false

/-! ### The reader -/

variable {msg : Dict String (Json F)}

def Aside : Op F → Prop
  | .own o => Quiet o
  | _ => False

theorem follows_aside {α : Type} {p : Call F α} {pending : Option (Dict String (Json F))}
    (hp : p.Only Aside) : p.Follows (duties F) (fun m _ => m = .reading pending false)
      (.reading pending false) := by
  refine hp.follows (P := duties F) rfl ?_
  rintro m o rfl ho
  cases o with
  | own o => exact ⟨ho, fun _ _ => rfl⟩
  | _ => cases ho

theorem aside_own {o : Worker.Op F} (ho : Quiet o) : (perform (.own o)).Only Aside :=
  (Proc.only_op (S := sig F) (.own o)).mpr ho

theorem only_preempt {P : Op F → Prop} (hset : P (.own .setCancel))
    (hterminate : P (.own .terminateActive)) : (preempt msg).Only P := by
  refine Proc.only_when (((Proc.only_op (S := sig F) (.own .setCancel)).mpr hset).bind fun _ => ?_)
  refine ((Proc.only_op (S := sig F) (.own .terminateActive)).mpr hterminate).tryCatch fun e => ?_
  split <;> trivial

theorem follows_preempt : (preempt msg).Follows (duties F)
    (fun m r => m = .reading (some msg) false ∧ ∀ e, r = .error e → owedFor msg = [])
    (.reading (some msg) false) := by
  by_cases hmsg : (fetch msg "command").text = some "INTERRUPT"
  · have howed : owedFor msg = [] := if_neg (by rw [hmsg]; decide)
    exact (follows_aside (only_preempt rfl rfl)).mono fun m r hm => ⟨hm, fun _ _ => howed⟩
  · rw [preempt, Proc.when, if_neg hmsg]
    exact ⟨rfl, fun _ he => by cases he⟩

theorem follows_readInput (input : Input F) : (readInput input).Follows (duties F)
    (fun m r => ∃ pending, m = .reading pending false ∧ owed pending.toList = [] ∧
      (r = .ok () → pending = none)) (.reading input.msg? false) := by
  have hskip : (Proc.ret () : Call F Unit).Follows (duties F)
      (fun m r => ∃ pending, m = .reading pending false ∧ owed pending.toList = [] ∧
        (r = .ok () → pending = none)) (.reading none false) := ⟨none, rfl, rfl, fun _ => rfl⟩
  cases input with
  | blank => exact hskip
  | invalid reason =>
    have hquiet : Quiet (.sendEvent ([("type", .str "ERROR")] ++
        [("error", .str ("Invalid JSON: " ++ reason))]) : Worker.Op F) :=
      replyTo_kind (by decide)
    exact (follows_aside (aside_own hquiet)).mono fun m r hm => ⟨none, hm, rfl, fun _ => rfl⟩
  | json v =>
    cases hmsg : v.members with
    | none =>
      simp only [readInput, Input.msg?, hmsg, Proc.pure_eq]
      exact hskip
    | some msg =>
      simp only [readInput, Input.msg?, hmsg]
      apply follows_preempt.bind
      · rintro m u ⟨rfl, -⟩
        refine ⟨⟨rfl, rfl⟩, fun r _ => ?_⟩
        cases r <;> exact ⟨none, rfl, rfl, fun _ => rfl⟩
      · rintro m e ⟨rfl, he⟩
        exact ⟨some msg, rfl, by simpa using he e rfl, fun hr => by cases hr⟩

theorem follows_readLoop (n : Nat) : (readLoop n).Follows (duties F)
    (fun m _ => ∃ pending, m = .reading pending false ∧ owed pending.toList = [])
    (.reading none false) := by
  induction n with
  | zero => exact ⟨none, rfl, rfl⟩
  | succ n ih =>
    refine (Proc.follows_op_bind (S := sig F) .readline _).mpr ⟨⟨rfl, rfl⟩, ?_, ?_⟩
    · intro input _
      cases input with
      | none => exact ⟨none, rfl, rfl⟩
      | some input =>
        apply (follows_readInput input).bind
        · rintro m u ⟨pending, rfl, -, hpending⟩
          cases hpending rfl
          exact ih
        · rintro m e ⟨pending, rfl, howed, -⟩
          exact ⟨pending, rfl, howed⟩
    · exact fun e _ => ⟨none, rfl, rfl⟩

theorem follows_readerThread (n : Nat) :
    (readerThread n).Follows (duties F) (Ended (.reader n)) (.reading none false) := by
  apply Proc.Follows.ensuring
    (M := fun (m : Duty F) _ => ∃ pending, m = .reading pending false ∧ owed pending.toList = [])
  · apply (follows_readLoop n).tryCatch
    · exact fun _ _ hm => hm
    · intro m e hm
      split
      next => exact hm
      next => exact hm
  · rintro m r ⟨pending, rfl, howed⟩
    refine ⟨⟨howed, rfl⟩, fun r _ => ?_⟩
    cases r <;> exact ⟨pending, rfl⟩

/-! ### The main loop -/

variable [FloatArith F] {E : Env F} {B : Builtins F} {host : Host} {A : Args F} {patience : Nat}

theorem simulates_turn (taken : List (Dict String (Json F))) :
    Proc.Simulates (turns F)
      (.ofHistory (fun (_ : Unit) h o => ∀ r, Sound o r → repliesIn (h ++ [⟨o, r⟩]) <+: owedFor msg)
        Sound) (duties F)
      (fun m m' => m' = .serving (taken ++ [msg]) (owed taken ++ repliesIn m.2) false) where
  allow := by
    rintro m m' o rfl hallow
    obtain ⟨r, hr⟩ := answerable o
    have hprefix := hallow r hr
    rw [repliesIn_snoc] at hprefix
    show (owed taken ++ repliesIn m.2) ++ replyIn o <+: owed (taken ++ [msg])
    rw [owed_append, owed_singleton, List.append_assoc]
    exact (List.prefix_append_right_inj _).mpr hprefix
  answer := by
    intro o r hr
    cases r with
    | ok a => exact hr
    | error e => exact hr
  next := by
    rintro m m' o r rfl - -
    show Duty.serving _ _ _ = Duty.serving _ _ _
    rw [repliesIn_snoc, List.append_assoc]

theorem follows_mainLoop (n : Nat) (L : Local F) (taken : List (Dict String (Json F))) :
    (mainLoop E B host A patience n L).Follows (duties F) Dismissed
      (.serving taken (owed taken) false) := by
  induction n generalizing L taken with
  | zero => exact ⟨taken, _, _, rfl, fun hr => by cases hr⟩
  | succ n ih =>
    refine (Proc.follows_op_bind (S := sig F) .get _).mpr ⟨rfl, ?_, ?_⟩
    · intro msg _
      cases msg with
      | none => exact ⟨taken, _, true, rfl, fun _ => ⟨rfl, .inl rfl⟩⟩
      | some msg =>
        have hturn : ((serve E B host A patience L msg).lift (turns F)).Follows (duties F)
            (fun m r => ∃ h, m = .serving (taken ++ [msg]) (owed taken ++ repliesIn h) false ∧
              Settles msg h r) (.serving (taken ++ [msg]) (owed taken) false) := by
          apply follows_serve.lift (simulates_turn taken)
          · exact (congrArg (Duty.serving _ · false) (List.append_nil _)).symm
          · exact fun m m' r hm hs => ⟨m.2, hm, hs⟩
        apply hturn.bind
        · rintro m next ⟨h, rfl, hs⟩
          have hpaid : owed taken ++ repliesIn h = owed (taken ++ [msg]) := by
            rw [hs.paid next rfl, owed_append, owed_singleton]
          rw [hpaid]
          cases next with
          | none => exact ⟨_, _, _, rfl, fun _ => ⟨rfl, .inr ⟨msg, by simp, hs.last rfl⟩⟩⟩
          | some L => exact ih L (taken ++ [msg])
        · rintro m e ⟨h, rfl, -⟩
          exact ⟨_, _, _, rfl, fun hr => by cases hr⟩
    · exact fun e _ => ⟨taken, _, _, rfl, fun hr => by cases hr⟩

theorem follows_body (q : Thread F) :
    (body E B host A patience q).Follows (duties F) (Ended q) (begins q) := by
  cases q with
  | main L n => exact follows_mainLoop n L []
  | reader n => exact follows_readerThread n

end Duties

/-! ## All interleavings -/

section Runs

variable {F : Type}

def messages (inputs : List (Input F)) : List (Dict String (Json F)) := inputs.filterMap Input.msg?

def State.waiting (s : State F) : List (Dict String (Json F)) := s.queue.filterMap id

/-- Every message is taken, in the queue, with the reader or still to be read, in this order; the
end of the queue is behind them; and the results sent are the replies of the main thread. -/
structure Accounted (inputs : List (Input F)) (s : State F) (taken : List (Dict String (Json F)))
    (replied : List (Option (Json F))) (drained : Bool) (pending : Option (Dict String (Json F)))
    (closed : Bool) : Prop where
  read : messages inputs = taken ++ s.waiting ++ pending.toList ++ messages s.stdin
  queue : s.queue = s.waiting.map some ++ if closed = true ∧ drained = false then [none] else []
  drained : drained = true → closed = true ∧ s.waiting = []
  closed : closed = true → owed pending.toList = []
  sent : replies s.sent = replied
  due : replied <+: owed taken

variable {inputs : List (Input F)} {s : State F} {taken : List (Dict String (Json F))}
variable {replied : List (Option (Json F))} {pending : Option (Dict String (Json F))}
variable {drained closed : Bool} {w : World F}

theorem Accounted.sends {s' : State F} (more : List (Option (Json F)))
    (ha : Accounted inputs s taken replied drained pending closed)
    (hstdin : s'.stdin = s.stdin) (hqueue : s'.queue = s.queue)
    (hsent : replies s'.sent = replied ++ more) (howed : replied ++ more <+: owed taken) :
    Accounted inputs s' taken (replied ++ more) drained pending closed := by
  have hwaiting : s'.waiting = s.waiting := congrArg (List.filterMap id) hqueue
  refine ⟨?_, ?_, ?_, ha.closed, hsent, howed⟩
  · rw [hwaiting, hstdin]
    exact ha.read
  · rw [hwaiting, hqueue]
    exact ha.queue
  · rw [hwaiting]
    exact ha.drained

theorem attempt_cases {α : Type} (a : α) : attempt w s a = (.ok a, s) ∨
    ∃ e, w.failure = some e ∧ attempt w s a = (.error e, s) := by
  cases hfailure : w.failure with
  | none => exact .inl (by rw [attempt, hfailure])
  | some e => exact .inr ⟨e, rfl, by rw [attempt, hfailure]⟩

theorem exec_own (o : Worker.Op F) : (exec (.own o) w s).2.stdin = s.stdin ∧
    (exec (.own o) w s).2.queue = s.queue ∧
    replies (exec (.own o) w s).2.sent = replies s.sent ++ replyIn o := by
  have hattempt {α : Type} (a : α) : (attempt w s a).2 = s := by
    obtain h | ⟨e, -, h⟩ := attempt_cases (w := w) (s := s) a <;> rw [h]
  have hsame {t : State F} (ht : t = s) : t.stdin = s.stdin ∧ t.queue = s.queue ∧
      replies t.sent = replies s.sent ++ [] := by simp [ht]
  cases o with
  | sendEvent event => exact ⟨rfl, rfl, by simp [exec, replies, replyIn]⟩
  | terminateActive =>
    apply hsame
    rw [exec]
    split
    next => exact hattempt _
    next => rfl
  | now | isCancelled | waitCancelled | sleep => exact hsame rfl
  | setCancel | clearCancel | setActive => exact ⟨rfl, rfl, (List.append_nil _).symm⟩
  | _ => exact hsame (hattempt _)

theorem answers_exec (hw : w.Real) (o : Op F) :
    Answers o (exec o w s).1 := by
  have hok {o : Worker.Op F} (a : o.Ret) : Sound o (.ok a) :=
    ⟨fun _ => ⟨a, rfl⟩, fun _ he => by cases he⟩
  have hattempt {o : Worker.Op F} (ho : o.steady = false) (a : o.Ret) :
      Sound o (attempt w s a).1 := by
    obtain h | ⟨e, he, h⟩ := attempt_cases (w := w) (s := s) a
    · rw [h]
      exact hok a
    · rw [h]
      refine ⟨fun hsteady => ?_, fun e' he' => ?_⟩
      · rw [ho] at hsteady
        cases hsteady
      · cases he'
        exact hw e he
  cases o with
  | own o =>
    show Sound o (exec (.own o) w s).1
    cases o with
    | terminateActive =>
      rw [exec]
      split
      next => exact hattempt (o := .terminateActive) rfl ()
      next => exact hok (o := .terminateActive) ()
    | now | isCancelled | setCancel | clearCancel | waitCancelled | setActive | sleep
    | sendEvent => exact hok _
    | _ => exact hattempt rfl _
  | _ => trivial

theorem Accounted.repliesOwed (ha : Accounted inputs s taken replied drained pending closed) :
    replies s.sent <+: owed (messages inputs) := by
  rw [ha.sent]
  apply ha.due.trans
  rw [ha.read, List.append_assoc, List.append_assoc]
  exact owed_mono (List.prefix_append _ _)

theorem Accounted.drains {rest : List (Option (Dict String (Json F)))}
    (ha : Accounted inputs s taken replied false pending closed) (hq : s.queue = none :: rest) :
    Accounted inputs (exec .get w s).2 taken replied true pending closed := by
  have hwaiting : s.waiting = rest.filterMap id := by
    rw [State.waiting, hq]
    rfl
  have hrest : rest.filterMap id = [] ∧ closed = true ∧ rest = [] := by
    have hqueue := ha.queue
    rw [hq, hwaiting] at hqueue
    cases hw : rest.filterMap id with
    | nil =>
      rw [hw] at hqueue
      cases closed with
      | false => simp at hqueue
      | true => exact ⟨rfl, rfl, by simpa using hqueue⟩
    | cons m ms =>
      rw [hw] at hqueue
      cases hqueue
  obtain ⟨hnil, rfl, rfl⟩ := hrest
  have hexec : exec .get w s = (.ok none, { s with queue := [] }) := by simp [exec, hq]
  rw [hexec]
  refine ⟨?_, rfl, fun _ => ⟨rfl, rfl⟩, ha.closed, ha.sent, ha.due⟩
  rw [ha.read, hwaiting]
  rfl

theorem Accounted.takes {msg : Dict String (Json F)} {rest : List (Option (Dict String (Json F)))}
    (ha : Accounted inputs s taken replied false pending closed)
    (hq : s.queue = some msg :: rest) :
    Accounted inputs (exec .get w s).2 (taken ++ [msg]) replied false pending closed := by
  have hwaiting : s.waiting = msg :: rest.filterMap id := by
    rw [State.waiting, hq]
    rfl
  have hexec : exec .get w s = (.ok (some msg), { s with queue := rest }) := by simp [exec, hq]
  rw [hexec]
  refine ⟨?_, ?_, nofun, ha.closed, ha.sent, ?_⟩
  · rw [ha.read, hwaiting, State.waiting]
    simp
  · have hqueue := ha.queue
    rw [hq, hwaiting] at hqueue
    simpa [State.waiting] using hqueue
  · rw [owed_append]
    exact ha.due.trans (List.prefix_append _ _)

theorem Accounted.serving {o : Op F}
    (ha : Accounted inputs s taken replied drained pending closed)
    (hallow : (Duty.serving taken replied drained).Allows o) (hpossible : possible o w s = true) :
    ∃ taken' replied' drained', (Duty.serving taken replied drained).next o (exec o w s).1 =
        .serving taken' replied' drained' ∧
      Accounted inputs (exec o w s).2 taken' replied' drained' pending closed := by
  cases o with
  | get =>
    cases hallow
    cases hq : s.queue with
    | nil => simp [possible, hq] at hpossible
    | cons x rest =>
      have hanswer : (exec .get w s).1 = .ok x := by simp [exec, hq]
      rw [hanswer]
      cases x with
      | none => exact ⟨taken, replied, true, rfl, ha.drains hq⟩
      | some msg => exact ⟨taken ++ [msg], replied, false, rfl, ha.takes hq⟩
  | own o =>
    obtain ⟨hstdin, hqueue, hreplies⟩ := exec_own (s := s) (w := w) o
    exact ⟨taken, replied ++ replyIn o, drained, rfl,
      ha.sends _ hstdin hqueue (by rw [hreplies, ha.sent]) hallow⟩
  | _ => cases hallow

theorem Accounted.reading {o : Op F}
    (ha : Accounted inputs s taken replied drained pending closed)
    (hallow : (Duty.reading pending closed).Allows o) :
    ∃ pending' closed', (Duty.reading pending closed).next o (exec o w s).1 =
        .reading pending' closed' ∧
      Accounted inputs (exec o w s).2 taken replied drained pending' closed' := by
  cases o with
  | readline =>
    obtain ⟨rfl, rfl⟩ := hallow
    have hsame : Accounted inputs s taken replied drained none false := ha
    cases hfailure : w.failure with
    | some e =>
      have hexec : exec .readline w s = (.error e, s) := by simp [exec, hfailure]
      rw [hexec]
      exact ⟨none, false, rfl, ha⟩
    | none =>
      cases hstdin : s.stdin with
      | nil =>
        have hexec : exec .readline w s = (.ok none, s) := by simp [exec, hfailure, hstdin]
        rw [hexec]
        exact ⟨none, false, rfl, ha⟩
      | cons input rest =>
        have hexec : exec .readline w s = (.ok (some input), { s with stdin := rest }) := by
          simp [exec, hfailure, hstdin]
        rw [hexec]
        refine ⟨input.msg?, false, rfl, ?_, ha.queue, ha.drained, nofun, ha.sent, ha.due⟩
        rw [ha.read, hstdin, messages, List.filterMap_cons]
        cases input.msg? <;> simp [State.waiting, messages]
  | put msg =>
    have hopen (hclosed : closed = false) : drained = false := by
      cases drained with
      | false => rfl
      | true => exact absurd (ha.drained rfl).1 (by simp [hclosed])
    cases msg with
    | none =>
      obtain ⟨howed, rfl⟩ := hallow
      cases hopen rfl
      refine ⟨pending, true, rfl, ?_, ?_, nofun, fun _ => howed, ha.sent, ha.due⟩
      · rw [ha.read]
        simp [exec, State.waiting]
      · rw [exec, ha.queue]
        simp [State.waiting]
    | some msg =>
      obtain ⟨rfl, rfl⟩ := hallow
      cases hopen rfl
      refine ⟨none, false, rfl, ?_, ?_, nofun, nofun, ha.sent, ha.due⟩
      · rw [ha.read]
        simp [exec, State.waiting]
      · rw [exec, ha.queue]
        simp [State.waiting]
  | own o =>
    obtain ⟨hstdin, hqueue, hreplies⟩ := exec_own (s := s) (w := w) o
    have hquiet : replyIn o = [] := hallow
    refine ⟨pending, closed, rfl, ?_⟩
    have hsends := ha.sends [] hstdin hqueue (by rw [hreplies, ha.sent, hquiet])
      (by simpa using ha.due)
    simpa using hsends
  | _ => cases hallow

variable [FloatArith F] {E : Env F} {B : Builtins F} {host : Host} {A : Args F} {patience : Nat}
variable {rounds : Nat} {L : Local F} {c : (machine E B host A patience).Config}
variable {ls : List (machine E B host A patience).Label}

theorem closed_real {P : Protocol (sig F) Error} (hP : ∀ o r, Answers o r → P.answer o r) :
    Machine.Closed (M := machine E B host A patience) P (Real E B host A patience) where
  start _ _ h := h
  answer _ _ _ o hreal _ := hP o _ (answers_exec hreal o)

theorem closed_duties : Machine.Closed (M := machine E B host A patience) (duties F)
    (Real E B host A patience) := closed_real fun _ _ h => h

theorem disciplined_launched :
    (launched E B host A patience rounds L inputs).Disciplined (duties F) begins Ended := by
  intro a ha
  obtain ⟨q, -, rfl⟩ := List.mem_map.mp ha
  exact follows_body q

theorem accounted (hrun : Path Machine.step (Real E B host A patience)
    (launched E B host A patience rounds L inputs) ls c) :
    ∃ taken replied drained pending closed, c.modes (duties F) begins =
        [.serving taken replied drained, .reading pending closed] ∧
      Accounted inputs c.state taken replied drained pending closed := by
  refine Machine.threads_invariant (J := fun s (ms : List (Duty F)) =>
      ∃ taken replied drained pending closed,
        ms = [.serving taken replied drained, .reading pending closed] ∧
          Accounted inputs s taken replied drained pending closed)
    disciplined_launched closed_duties
    ⟨[], [], false, none, false, rfl, rfl, rfl, nofun, nofun, rfl, List.prefix_rfl⟩ ?_ hrun
  rintro c i w c' q o k h - hact ⟨taken, replied, drained, pending, closed, hmodes, ha⟩ hallow
  have hat : (c.modes (duties F) begins)[i]? = some _ := hact.mode_at
  rw [hmodes] at hat ⊢
  match i with
  | 0 =>
    have hmode := Option.some.inj hat
    rw [← hmode] at hallow ⊢
    obtain ⟨taken', replied', drained', hnext, ha'⟩ := ha.serving hallow hact.possible
    exact ⟨taken', replied', drained', pending, closed,
      congrArg (fun m => [m, Duty.reading pending closed]) hnext, ha'⟩
  | 1 =>
    have hmode := Option.some.inj hat
    rw [← hmode] at hallow ⊢
    obtain ⟨pending', closed', hnext, ha'⟩ := ha.reading (w := w) hallow
    exact ⟨taken, replied, drained, pending', closed',
      congrArg (fun m => [Duty.serving taken replied drained, m]) hnext, ha'⟩
  | i + 2 => cases hat

/-! ### A task and an interrupt -/

section Sample

def idleTask : Dict String (Json Int) := [("command", .str "TASK"), ("task_id", .str "t")]

def idleInterrupt : Dict String (Json Int) := [("command", .str "INTERRUPT"), ("task_id", .str "t")]

def sampleInputs : List (Input Int) := [.blank, .json (.obj idleTask), .json (.obj idleInterrupt)]

abbrev sample : Machine := machine sampleEnv sampleBuiltins sampleHost sampleArgs 1

def sampleWorld : World Int := ⟨1, none, false, 7, none, ⟨"", "", 0⟩, ""⟩

def acts (i n : Nat) : List sample.Label := List.replicate n (.act i sampleWorld)

def sampleLabels : List sample.Label :=
  acts 1 3 ++ acts 0 2 ++ acts 1 4 ++ acts 0 7 ++ acts 1 2 ++ acts 0 1

def sampleRun : Option sample.Config :=
  Library.exec (restrict Machine.step (Real sampleEnv sampleBuiltins sampleHost sampleArgs 1))
    (launched sampleEnv sampleBuiltins sampleHost sampleArgs 1 4 sampleLocal sampleInputs)
    sampleLabels

end Sample

def LoopEnded (c : (machine E B host A patience).Config) : Prop :=
  ∃ a, c.calls[0]? = some a ∧ a.proc.result = some (.ok ())

theorem dismissed (hrun : Path Machine.step (Real E B host A patience)
    (launched E B host A patience rounds L inputs) ls c) (hend : LoopEnded c)
    (hmodes : c.modes (duties F) begins =
      [.serving taken replied drained, .reading pending closed]) :
    replied = owed taken ∧
      (drained = true ∨ ∃ msg ∈ taken, (fetch msg "command").text = some "STOP") := by
  obtain ⟨a, ha, hr⟩ := hend
  obtain ⟨a', h, ha', hq, -⟩ := Machine.call_of_run hrun (i := 0) rfl
  cases ha.symm.trans ha'
  have hmode : a.mode (duties F) begins = .serving taken replied drained := by
    have hat : (c.modes (duties F) begins)[0]? = some (a.mode (duties F) begins) := by
      simp [Machine.Config.modes, ha]
    rw [hmodes] at hat
    exact (Option.some.inj hat).symm
  have hended := (Machine.disciplined_from disciplined_launched closed_duties hrun).ended
    (List.mem_of_getElem? ha) hr
  rw [hq, hmode] at hended
  obtain ⟨_, _, _, heq, hpaid⟩ := hended
  cases heq
  exact hpaid rfl

/-- However the threads are interleaved, and whatever becomes of the commands: the results are
those of the tasks in the input, in their order, and none is sent twice. -/
theorem results_answer_tasks (hrun : Path Machine.step (Real E B host A patience)
    (launched E B host A patience rounds L inputs) ls c) :
    replies (State.sent c.state) <+: owed (messages inputs) := by
  obtain ⟨_, _, _, _, _, -, ha⟩ := accounted hrun
  exact ha.repliesOwed

theorem interrupted_replies : ∃ c,
    Path Machine.step (Real sampleEnv sampleBuiltins sampleHost sampleArgs 1)
        (launched sampleEnv sampleBuiltins sampleHost sampleArgs 1 4 sampleLocal sampleInputs)
        sampleLabels c ∧
      (replies (State.sent c.state)).map (·.bind Json.text) = [some "t"] ∧
      replies (State.sent c.state) <+: owed (messages sampleInputs) := by
  have h : sampleRun.any (fun c => decide
      ((replies (State.sent c.state)).map (·.bind Json.text) = [some "t"])) = true := by
    decide +kernel
  obtain ⟨c, hrun, hc⟩ := run_of_any h
  have hpath := path_of_restrict hrun
  exact ⟨c, hpath, of_decide_eq_true hc, results_answer_tasks hpath⟩

/-- And when the main loop has ended without having been stopped, no task that was read is
without its result. -/
theorem tasks_have_results (hrun : Path Machine.step (Real E B host A patience)
    (launched E B host A patience rounds L inputs) ls c)
    (hstop : ∀ msg ∈ messages inputs, (fetch msg "command").text ≠ some "STOP")
    (hend : LoopEnded c) :
    replies (State.sent c.state) ++ owed (messages (State.stdin c.state)) =
      owed (messages inputs) := by
  obtain ⟨taken, replied, drained, pending, closed, hmodes, ha⟩ := accounted hrun
  obtain ⟨hpaid, hlast⟩ := dismissed hrun hend hmodes
  have hdrained : drained = true := by
    rcases hlast with hdrained | ⟨msg, hmsg, hstopped⟩
    · exact hdrained
    · refine absurd hstopped (hstop msg ?_)
      rw [ha.read]
      simp [hmsg]
  obtain ⟨hclosed, hwaiting⟩ := ha.drained hdrained
  rw [ha.sent, hpaid, ha.read, hwaiting, owed_append, owed_append, ha.closed hclosed]
  simp

theorem interrupted_has_result : ∃ c,
    Path Machine.step (Real sampleEnv sampleBuiltins sampleHost sampleArgs 1)
        (launched sampleEnv sampleBuiltins sampleHost sampleArgs 1 4 sampleLocal sampleInputs)
        sampleLabels c ∧ LoopEnded c ∧
      replies (State.sent c.state) ++ owed (messages (State.stdin c.state)) =
        owed (messages sampleInputs) := by
  have h : sampleRun.any (fun c => c.calls[0]?.any fun a =>
    a.proc.result.any Except.isOk) = true := by
    decide +kernel
  obtain ⟨c, hrun, hc⟩ := run_of_any h
  obtain ⟨a, ha, hresult⟩ := (Option.any_eq_true _ _).mp hc
  obtain ⟨r, hr, hok⟩ := (Option.any_eq_true _ _).mp hresult
  have hend : LoopEnded c := by
    refine ⟨a, ha, ?_⟩
    cases r with
    | ok u => exact hr
    | error e => cases hok
  have hpath := path_of_restrict hrun
  exact ⟨c, hpath, hend, tasks_have_results hpath (by decide) hend⟩

end Runs

end SubagentBridge.WorkerThreads
