import SubagentBridge.Execution.TaskCalls

/-! What the operations of the controller leave alone, as far as one worker is concerned. -/

namespace SubagentBridge.WorkerProcess

open Library Domain

section Processes

variable {F : Type} {p p' p'' : Process F}

def Process.Settled (p : Process F) : Prop := p.tasks = p.results

def Process.Balanced (p : Process F) : Prop := p.Settled ∨ ∃ t, p.tasks = p.results ++ [t]

/-- The same tasks and results; pipes stay closed, and what has ended stays so. -/
structure Process.Alike (p p' : Process F) : Prop where
  argv : p'.argv = p.argv
  tasks : p'.tasks = p.tasks
  results : p'.results = p.results
  closed : p.closed = true → p'.closed = true
  exit : p.exit.isSome = true → p'.exit.isSome = true

theorem Process.Alike.refl (p : Process F) : p.Alike p := ⟨rfl, rfl, rfl, id, id⟩

theorem Process.Alike.trans (h : p.Alike p') (h' : p'.Alike p'') : p.Alike p'' :=
  ⟨h'.argv.trans h.argv, h'.tasks.trans h.tasks, h'.results.trans h.results,
    fun hc => h'.closed (h.closed hc), fun he => h'.exit (h.exit he)⟩

theorem Process.Alike.workerId (h : p.Alike p') : p'.workerId = p.workerId := by
  rw [Process.workerId, h.argv, Process.workerId]

theorem Process.Alike.settled (h : p.Alike p') (hp : p.Settled) : p'.Settled := by
  rw [Process.Settled, h.tasks, h.results]
  exact hp

theorem Process.Alike.balanced (h : p.Alike p') (hp : p.Balanced) : p'.Balanced := by
  rw [Process.Balanced, Process.Settled, h.tasks, h.results]
  exact hp

theorem alike_print (p : Process F) (line : Line F) : p.Alike (p.print line) :=
  ⟨rfl, rfl, rfl, id, id⟩

theorem alike_finish (p : Process F) (code : Int) : p.Alike (p.finish code) := by
  refine ⟨rfl, rfl, rfl, id, fun he => ?_⟩
  obtain ⟨c, hc⟩ := Option.isSome_iff_exists.mp he
  simp [Process.finish, hc]

theorem alike_write (p : Process F) {message : Message F} (h : message.taskId? = none) :
    p.Alike { p with stdin := p.stdin ++ [message] } :=
  ⟨rfl, by simp [Process.tasks, h], rfl, id, id⟩

theorem results_taken (p : Process F) (line : Line F) (unread : List (Line F)) :
    ({ p with unread, taken := p.taken ++ [line] } : Process F).results =
      p.results ++ (resultId? line).toList := by
  rw [Process.results, List.filterMap_append, ← Process.results]
  cases h : resultId? line <;> simp [h]

theorem take_eq_some {a : Awaited} {event : Reply F} (h : p.take a = some (event, p')) :
    ∃ line ∈ p.unread, a.event? line = some event ∧ p' = { p with
      unread := p.unread.eraseP fun line => (a.event? line).isSome
      taken := p.taken ++ [line] } := by
  rw [Process.take] at h
  split at h
  next => cases h
  next line hfind =>
    obtain ⟨event', hevent, he⟩ := Option.map_eq_some_iff.mp h
    cases he
    exact ⟨line, List.mem_of_find?_eq_some hfind, hevent, rfl⟩

theorem event?_eq_some {a : Awaited} {line : Line F} {event : Reply F}
    (h : a.event? line = some event) :
    line.bind Json.members = some event ∧ a.accepts event = true := by
  simpa [Awaited.event?, Option.filter_eq_some_iff] using h

theorem resultId?_eq {line : Line F} {event : Reply F} (h : line.bind Json.members = some event) :
    resultId? line =
      if (fetch event "type").text = some "RESULT" then (fetch event "task_id").text else none := by
  rw [resultId?, h, Option.bind_some]

theorem resultId?_of_result {line : Line F} {event : Reply F} {t : String}
    (h : (Awaited.result t).event? line = some event) : resultId? line = some t := by
  obtain ⟨hmem, hacc⟩ := event?_eq_some h
  simp only [Awaited.accepts, decide_eq_true_eq] at hacc
  rw [resultId?_eq hmem, if_pos hacc.1, hacc.2]

theorem resultId?_of_other {a : Awaited} {line : Line F} {event : Reply F}
    (h : a.event? line = some event) (ha : ∀ t, a ≠ .result t)
    (hc : ∀ w, a ≠ .control "RESULT" w) : resultId? line = none := by
  obtain ⟨hmem, hacc⟩ := event?_eq_some h
  rw [resultId?_eq hmem, if_neg]
  intro htype
  cases a with
  | result t => exact ha t rfl
  | reconfigured r => simp [Awaited.accepts, htype] at hacc
  | control type w =>
    simp only [Awaited.accepts, htype, Option.some.injEq, decide_eq_true_eq] at hacc
    exact hc w (by rw [hacc.1])

theorem alike_take {a : Awaited} {event : Reply F} (h : p.take a = some (event, p'))
    (ha : ∀ t, a ≠ .result t) (hc : ∀ w, a ≠ .control "RESULT" w) : p.Alike p' := by
  obtain ⟨line, -, hevent, rfl⟩ := take_eq_some h
  refine ⟨rfl, rfl, ?_, id, id⟩
  rw [results_taken, resultId?_of_other hevent ha hc]
  exact List.append_nil _

theorem printedResults_eq (p : Process F) :
    p.printedResults = p.results ++ p.unread.filterMap resultId? := by
  rw [Process.printedResults, List.filterMap_append, Process.results]

theorem take_result {t : String} {event : Reply F} (hp : p.Honest) (hb : p.Balanced)
    (h : p.take (.result t) = some (event, p')) :
    p.tasks = p.results ++ [t] ∧ p'.argv = p.argv ∧ p'.tasks = p.tasks ∧ p'.Settled ∧
      p'.closed = p.closed ∧ p'.exit = p.exit := by
  obtain ⟨line, hline, hevent, rfl⟩ := take_eq_some h
  have hid := resultId?_of_result hevent
  have hprinted : t ∈ p.unread.filterMap resultId? := List.mem_filterMap.mpr ⟨line, hline, hid⟩
  have hcount := hp t
  rw [printedResults_eq, List.count_append] at hcount
  have hpos := List.count_pos_iff.mpr hprinted
  have hlast : p.tasks = p.results ++ [t] := by
    obtain hs | ⟨t', ht'⟩ := hb
    · rw [hs] at hcount
      omega
    · rw [ht', List.count_append] at hcount
      have hne : 0 < ([t'] : List String).count t := by omega
      rw [List.mem_singleton.mp (List.count_pos_iff.mp hne)]
      exact ht'
  refine ⟨hlast, rfl, rfl, ?_, rfl, rfl⟩
  rw [Process.Settled, results_taken, hid]
  exact hlast

theorem no_result (hp : p.Honest) (ht : p.tasks = []) {line : Line F} (hl : line ∈ p.unread) :
    resultId? line = none := by
  by_contra h
  obtain ⟨t, hid⟩ := Option.ne_none_iff_exists'.mp h
  have hcount := hp t
  rw [ht, List.count_nil, printedResults_eq, List.count_append] at hcount
  have hpos := List.count_pos_iff.mpr (List.mem_filterMap.mpr ⟨line, hl, hid⟩)
  omega

end Processes

section Frames

variable {F : Type} {A : Authority F} {s s' s'' : State F A} {w : String} {n : Nat}

theorem proc_setProc (s : State F A) (n : Nat) (f : Process F → Process F) (j : Nat) :
    (s.setProc n f).proc j = if j = n ∧ n < s.os.length then f (s.proc j) else s.proc j := by
  rw [State.proc, State.proc, State.setProc, List.getElem?_modify]
  by_cases hj : j = n
  · subst hj
    by_cases hlt : j < s.os.length
    · simp [hlt]
    · simp [hlt]
  · have hne : n ≠ j := Ne.symm hj
    simp [hj, hne]

@[simp] theorem length_setProc (s : State F A) (n : Nat) (f : Process F → Process F) :
    (s.setProc n f).os.length = s.os.length := List.length_modify ..

/-- A step as seen from the worker `w`: its entries are the same, its processes too, and processes
that were started are new. -/
structure Same (w : String) (s s' : State F A) : Prop where
  process : s'.processes.get? w = s.processes.get? w
  reader : s'.readers.get? w = s.readers.get? w
  busy : w ∈ s'.busyWorkers ↔ w ∈ s.busyWorkers
  length : s.os.length ≤ s'.os.length
  argv : ∀ n < s.os.length, (s'.proc n).argv = (s.proc n).argv
  alike : ∀ n < s.os.length, (s.proc n).workerId = w → (s.proc n).Alike (s'.proc n)
  fresh : ∀ n, s.os.length ≤ n → n < s'.os.length →
    (s'.proc n).tasks = [] ∧ (s'.proc n).results = []

theorem same_of_os (hp : s'.processes.get? w = s.processes.get? w)
    (hr : s'.readers.get? w = s.readers.get? w) (hb : w ∈ s'.busyWorkers ↔ w ∈ s.busyWorkers)
    (hos : s'.os = s.os) : Same w s s' := by
  have hproc : ∀ n, s'.proc n = s.proc n := fun n => by rw [State.proc, hos, State.proc]
  exact ⟨hp, hr, hb, by rw [hos], fun n _ => by rw [hproc],
    fun n _ _ => by rw [hproc]; exact .refl _,
    fun n h h' => by rw [hos] at h'; omega⟩

theorem Same.refl (w : String) (s : State F A) : Same w s s := same_of_os rfl rfl .rfl rfl

theorem same_setProc {f : Process F → Process F} (hargv : (f (s.proc n)).argv = (s.proc n).argv)
    (h : (s.proc n).workerId = w → (s.proc n).Alike (f (s.proc n))) : Same w s (s.setProc n f) := by
  refine ⟨rfl, rfl, .rfl, by simp, ?_, ?_, ?_⟩
  · intro j hj
    rw [proc_setProc]
    split
    next hjn =>
      rw [hjn.1]
      exact hargv
    next => rfl
  · intro j hj hw
    rw [proc_setProc]
    split
    next hjn =>
      rw [hjn.1] at hw ⊢
      exact h hw
    next => exact .refl _
  · intro j hj hj'
    rw [length_setProc] at hj'
    omega

/-! ## What happens meanwhile -/

theorem alike_foldl {ι : Type} (k : ι → Nat) (f : ι → Process F → Process F)
    (hf : ∀ (x : ι) (p : Process F), p.Alike (f x p)) (xs : List ι)
    (os : List (Process F)) (n : Nat) :
    ((os[n]?).getD (noProcess F)).Alike
      (((xs.foldl (fun os x => os.modify (k x) (f x)) os)[n]?).getD (noProcess F)) := by
  induction xs generalizing os with
  | nil => exact .refl _
  | cons x xs ih =>
    refine Process.Alike.trans ?_ (ih (os.modify (k x) (f x)))
    rw [List.getElem?_modify]
    cases hn : os[n]? with
    | none => exact .refl _
    | some p =>
      simp only [Option.map_eq_map, Option.map_some, Option.getD_some]
      split
      next => exact hf x p
      next => exact .refl _

theorem length_foldl {ι : Type} (k : ι → Nat) (f : ι → Process F → Process F) (xs : List ι)
    (os : List (Process F)) :
    (xs.foldl (fun os x => os.modify (k x) (f x)) os).length = os.length := by
  induction xs generalizing os with
  | nil => rfl
  | cons x xs ih => rw [List.foldl_cons, ih, List.length_modify]

theorem same_absorb (w : String) (s : State F A) (x : World F A) : Same w s (s.absorb x) := by
  have hlen : (s.absorb x).os.length = s.os.length := by
    rw [State.absorb, length_foldl, length_foldl]
  have halike : ∀ n, (s.proc n).Alike ((s.absorb x).proc n) := by
    intro n
    refine Process.Alike.trans ?_ (alike_foldl (·.1) (fun (x : Nat × Int) p => p.finish x.2)
      (fun x p => alike_finish p x.2) x.exits _ n)
    exact alike_foldl (·.1) (fun (x : Nat × Line F) p => p.print x.2)
      (fun x p => alike_print p x.2) x.printed _ n
  exact ⟨rfl, rfl, .rfl, by rw [hlen], fun n _ => (halike n).argv, fun n _ _ => halike n,
    fun n h h' => by rw [hlen] at h'; omega⟩

/-! ## Operations that change nothing for any worker -/

theorem same_write {message : Message F} (h : message.taskId? = none) :
    Same w s (s.write n message).2 := by
  rw [State.write]
  split
  next => exact .refl w s
  next =>
    split
    next => exact .refl w s
    next => exact same_setProc rfl fun _ => alike_write _ h

theorem same_readlineMatching {a : Awaited} {inTime : Bool} (ha : ∀ t, a ≠ .result t)
    (hc : ∀ w, a ≠ .control "RESULT" w) : Same w s (s.readlineMatching n a inTime).2 := by
  rw [State.readlineMatching]
  split
  next event p htake =>
    have halike := alike_take htake ha hc
    cases inTime with
    | true => exact same_setProc halike.argv fun _ => halike
    | false => exact .refl w s
  next => exact .refl w s

variable [LinearOrder F] [NatCast F]

theorem same_quiet {o : Op F} (ho : Quiet o) (x : World F A) : Same w s (run o x s).2 := by
  cases o with
  | write n message => exact same_write (by cases message <;> first | rfl | cases ho)
  | readlineMatching n a =>
    apply same_readlineMatching
    · rintro t rfl
      cases ho
    · rintro w rfl
      cases ho
  | wait n =>
    rw [run]
    split
    next => exact same_setProc rfl fun _ => ⟨rfl, rfl, rfl, id, id⟩
    next => exact .refl w s
  | lock | unlock | processOf | readerOf | poll | isBusy | addBusy | discardBusy | readline | popen
  | setReader | setProcess | closePipes | dropProcess | dropReader => cases ho
  | _ => exact same_of_os rfl rfl .rfl rfl

theorem same_poll (x : World F A) : Same w s (run (.poll n) x s).2 :=
  same_setProc rfl fun _ => ⟨rfl, rfl, rfl, id, id⟩

theorem same_closePipes (x : World F A) : Same w s (run (.closePipes n) x s).2 :=
  same_setProc rfl fun _ => ⟨rfl, rfl, rfl, fun _ => rfl, id⟩

theorem same_popen {argv : List String} {cwd : Option String} (x : World F A) :
    Same w s (run (.popen argv cwd) x s).2 := by
  have hold : ∀ n < s.os.length, (run (.popen argv cwd) x s).2.proc n = s.proc n := by
    intro n hn
    simp only [run, State.proc]
    rw [List.getElem?_append_left hn]
  refine ⟨rfl, rfl, .rfl, by simp [run], fun n hn => by rw [hold n hn],
    fun n hn _ => by rw [hold n hn]; exact .refl _, ?_⟩
  intro n hn hn'
  simp only [run, List.length_append, List.length_singleton] at hn'
  obtain rfl : n = s.os.length := by omega
  simp [run, State.proc, Process.tasks, Process.results]

theorem exec_cases (o : Op F) (x : World F A) (s : State F A) :
    exec o x s = run o x (s.absorb x) ∨
      ∃ e, o.fallible = true ∧ exec o x s = (.error e, s.absorb x) := by
  rw [exec]
  split
  next e _ =>
    split
    next ho => exact .inr ⟨e, ho, rfl⟩
    next => exact .inl rfl
  next => exact .inl rfl

end Frames

end SubagentBridge.WorkerProcess
