import SubagentBridge.Recovery.ItemIdentity

/-! The steering history: what leads have told the worker about an item. -/

namespace SubagentBridge.Supervisor

open Library Domain TeamStore

variable {F : Type}

def isDirective (entry : Json F) : Bool :=
  (Dict.keys (entry.members.getD [])).any fun k => k = "guidance" || k = "cancellation_reason"

@[simp] theorem isDirective_guidance (g : Guidance F) (lead : String) (time : F) :
    isDirective (guidanceEntry g lead time) = true := rfl

@[simp] theorem isDirective_cancellation (reason lead : String) (time : F) :
    isDirective (cancellationEntry reason lead time) = true := rfl

@[simp] theorem isDirective_interruption (reason : String) (time : F) :
    isDirective (interruptionEntry reason time) = false := rfl

theorem wf_guidance (g : Guidance F) (lead : String) (time : F) :
    (guidanceEntry g lead time).Wf := by
  cases g with
  | text s => simp [guidanceEntry, Guidance.value, Json.Wf, WfMembers, Dict.keys]
  | mapping d hd => simpa [guidanceEntry, Guidance.value, Json.Wf, WfMembers, Dict.keys] using hd

theorem wf_cancellation (reason lead : String) (time : F) :
    (cancellationEntry reason lead time).Wf := by
  simp [cancellationEntry, Json.Wf, WfMembers, Dict.keys]

theorem wf_interruption (reason : String) (time : F) : (interruptionEntry reason time).Wf := by
  simp [interruptionEntry, Json.Wf, WfMembers, Dict.keys]

variable [FloatText F]

theorem wf_steeringOf (s : String) : WfElems (steeringOf (F := F) s) := by
  rw [steeringOf]
  split
  next xs h => exact wf_loads h
  next => trivial

theorem steeringOf_dumps {xs : List (Json F)} (h : WfElems xs) :
    steeringOf (Json.arr xs).dumps = xs := by
  rw [steeringOf, loads_dumps (show (Json.arr xs).Wf from h)]

theorem steering_of_read {row : QueueRow F} {item : QueueItem F}
    (h : rowToQueueItem row = .ok item) :
    item.steeringInstructions = steeringOf row.steeringJson := by
  rw [rowToQueueItem] at h
  split at h
  · cases h
    rfl
  · cases h

def steering (db : Db F) (d : String) : List (Json F) :=
  ((db.queue.get? d).map fun row => steeringOf row.steeringJson).getD []

theorem steering_of_get? {db : Db F} {d : String} {row : QueueRow F}
    (h : db.queue.get? d = some row) : steering db d = steeringOf row.steeringJson := by
  rw [steering, h, Option.map_some, Option.getD_some]

theorem steering_setRow (db : Db F) (d d' : String) (row : QueueRow F) :
    steering (db.setRow d' row) d =
      if d' = d then steeringOf row.steeringJson else steering db d := by
  rw [steering, Db.setRow, Dict.get?_set]
  split
  · rfl
  · rfl

abbrev directives (xs : List (Json F)) : List (Json F) := xs.filter isDirective

def sameDirectives (xs ys : List (Json F)) : Bool :=
  (Json.arr (directives xs)).dumps = (Json.arr (directives ys)).dumps

theorem directives_eq {xs ys : List (Json F)} (hx : WfElems xs) (hy : WfElems ys)
    (h : sameDirectives xs ys = true) : directives xs = directives ys := by
  have wf : ∀ {xs : List (Json F)}, WfElems xs → WfElems (directives xs) := fun h =>
    wfElems_iff.mpr fun x hx => wfElems_iff.mp h x (List.mem_of_mem_filter hx)
  exact Json.arr.inj (dumps_injective (wf hx) (wf hy) (of_decide_eq_true h))

def unreadable (e : Event (sig F) Error) : Prop :=
  ∃ d item, shown d e.op e.ans = some item ∧ ¬ WfElems item.steeringInstructions

variable [LinearOrder F] {repr : String → String} {w : World F} {db : Db F} {o : Op F} {d : String}
variable {q : Request F} {h : History F}

omit [LinearOrder F] [FloatText F] in
theorem Derived.wf {s item : QueueItem F} (hd : Derived s item)
    (hs : WfElems s.steeringInstructions) : WfElems item.steeringInstructions := by
  obtain ⟨notes, hnotes⟩ := hd.steering
  rw [hnotes]
  refine wfElems_iff.mpr fun x hx => ?_
  rcases List.mem_append.mp hx with hx | hx
  · exact wfElems_iff.mp hs x hx
  · obtain ⟨note, -, rfl⟩ := List.mem_map.mp hx
    exact wf_interruption ..

omit [LinearOrder F] [FloatText F] in
theorem wf_of_snapshot (hh : ∀ e ∈ h, ¬ unreadable e) {s : QueueItem F}
    (hs : snapshot h d = some s) : WfElems s.steeringInstructions := by
  obtain ⟨e, he, hshown⟩ := shown_of_snapshot hs
  by_contra hwf
  exact hh e he ⟨d, s, hshown, hwf⟩

theorem readable_exec (hk : Keyed db) (ha : Allowed q h o) (hh : ∀ e ∈ h, ¬ unreadable e) :
    ¬ unreadable ⟨o, (exec repr o w db).1⟩ := by
  rintro ⟨d, item, hs, hwf⟩
  apply hwf
  rcases shows_exec hk hs with ⟨rfl, rfl⟩ | ⟨row, -, hshows⟩
  · obtain ⟨s, hs, hder, -⟩ := ha
    exact hder.wf (wf_of_snapshot hh hs)
  · cases hshows with
    | read hread => exact steering_of_read hread ▸ wf_steeringOf _
    | marked hread => exact steering_of_read hread ▸ wf_steeringOf _

def directive (w : World F) : Op F → Option (String × Json F)
  | .steerQueueItemOnce lead d guidance _ => guidance.map fun g => (d, guidanceEntry g lead w.time)
  | .cancelActiveQueueItem d lead reason =>
    if reason = "" then none else some (d, cancellationEntry reason lead w.time)
  | _ => none

def appended (repr : String → String) (o : Op F) (w : World F) (db : Db F) (d : String) :
    List (Json F) :=
  if (exec repr o w db).1.toBool then (((directive w o).filter (·.1 = d)).map (·.2)).toList else []

def keepsDirectives (db : Db F) (h : History F) : Op F → Bool
  | .saveQueueItem item => (snapshot h item.dispatchId).any fun s =>
    sameDirectives s.steeringInstructions (steering db item.dispatchId)
  | _ => true

omit [LinearOrder F] in
theorem directives_printed {row row' : QueueRow F} {xs entries : List (Json F)} {d' : String}
    (hrow : db.queue.get? d' = some row) (htext : row'.steeringJson = (Json.arr xs).dumps)
    (hxs : xs = steeringOf row.steeringJson ++ entries) (hwf : WfElems entries) :
    directives (steering (db.setRow d' row') d) =
      directives (steering db d) ++ if d' = d then directives entries else [] := by
  have hwf : WfElems xs := hxs ▸ wfElems_iff.mpr fun x hx =>
    (List.mem_append.mp hx).elim (wfElems_iff.mp (wf_steeringOf _) x) (wfElems_iff.mp hwf x)
  rw [steering_setRow, htext, steeringOf_dumps hwf]
  by_cases hd : d' = d
  · subst hd
    rw [if_pos rfl, if_pos rfl, hxs, ← steering_of_get? hrow, directives, List.filter_append]
  · rw [if_neg hd, if_neg hd, List.append_nil]

theorem directives_steer (lead d' : String) (guidance : Option (Guidance F))
    (priority : Option Int) :
    directives (steering (exec repr (.steerQueueItemOnce lead d' guidance priority) w db).2 d) =
      directives (steering db d) ++
        appended repr (.steerQueueItemOnce lead d' guidance priority) w db d := by
  rcases exec_atomically repr w db
    (o := .steerQueueItemOnce lead d' guidance priority) rfl with ⟨e, he⟩ | ⟨item', db', hf, he⟩
  · simp [appended, he, Except.toBool]
  obtain ⟨row, item, hrow, hread, -, hst, rfl⟩ := steer_ok hf
  rw [steering_of_read hread] at hst
  have hwf : WfElems (guidance.map fun g => guidanceEntry g lead w.time).toList := by
    cases guidance with
    | none => trivial
    | some g => exact ⟨wf_guidance .., trivial⟩
  rw [congrArg Prod.snd he, appended, congrArg Prod.fst he]
  refine (directives_printed hrow (by rfl) hst hwf).trans (congrArg _ ?_)
  cases guidance <;> by_cases hd : d' = d <;>
    simp [directives, directive, Option.filter, Except.toBool, hd]

theorem directives_cancel (d' lead reason : String) :
    directives (steering (exec repr (.cancelActiveQueueItem d' lead reason) w db).2 d) =
      directives (steering db d) ++
        appended repr (.cancelActiveQueueItem d' lead reason) w db d := by
  rcases exec_atomically repr w db
    (o := .cancelActiveQueueItem d' lead reason) rfl with ⟨e, he⟩ | ⟨item', db', hf, he⟩
  · simp [appended, he, Except.toBool]
  obtain ⟨row, item, hrow, hread, -, hst, rfl⟩ := cancel_ok hf
  rw [steering_of_read hread] at hst
  have hwf : WfElems (if reason = "" then [] else [cancellationEntry reason lead w.time]) := by
    split
    · trivial
    · exact ⟨wf_cancellation .., trivial⟩
  rw [congrArg Prod.snd he, appended, congrArg Prod.fst he]
  refine (directives_printed hrow (by rfl) hst hwf).trans (congrArg _ ?_)
  by_cases hr : reason = "" <;> by_cases hd : d' = d <;>
    simp [directives, directive, Option.filter, Except.toBool, hd, hr]

omit [LinearOrder F] [FloatText F] in
theorem Derived.directives {s item : QueueItem F} (hd : Derived s item) :
    directives item.steeringInstructions = directives s.steeringInstructions := by
  obtain ⟨notes, hnotes⟩ := hd.steering
  have hnone : (notes.map fun note => interruptionEntry note.1 note.2).filter isDirective = [] := by
    refine List.filter_eq_nil_iff.mpr fun x hx => ?_
    obtain ⟨note, -, rfl⟩ := List.mem_map.mp hx
    simp
  rw [hnotes, Supervisor.directives, List.filter_append, hnone, List.append_nil]

omit [LinearOrder F] in
theorem directives_saved {item : QueueItem F} (ha : Allowed q h (.saveQueueItem item))
    (hh : ∀ e ∈ h, ¬ unreadable e) (hkeep : keepsDirectives db h (.saveQueueItem item) = true) :
    directives (steeringOf (toRow item).steeringJson) =
      directives (steering db item.dispatchId) := by
  obtain ⟨s, hs, hder, -⟩ := ha
  have hwf := wf_of_snapshot hh hs
  rw [keepsDirectives, hs, Option.any_some] at hkeep
  rw [toRow, steeringOf_dumps (hder.wf hwf), hder.directives]
  refine directives_eq hwf ?_ hkeep
  rw [steering]
  cases db.queue.get? item.dispatchId with
  | none => trivial
  | some row => exact wf_steeringOf _

def Op.tells : Op F → Bool
  | .steerQueueItemOnce _ _ _ _ | .cancelActiveQueueItem _ _ _ => true
  | _ => false

theorem directives_other (ho : o.tells = false) (ha : Allowed q h o)
    (hh : ∀ e ∈ h, ¬ unreadable e) (hkeep : keepsDirectives db h o = true) :
    directives (steering (exec repr o w db).2 d) = directives (steering db d) := by
  rcases row_exec repr o w db d with hsame | ⟨row', hrow', hc⟩
  · rw [steering, hsame, ← steering]
  rw [steering_of_get? hrow']
  generalize (exec repr o w db).1 = r at hc
  cases hc with
  | inserted item hd hnew =>
    obtain ⟨-, -, hst⟩ := ha
    have hnil : steeringOf (F := F) (toRow item).steeringJson = [] := by
      rw [toRow, hst]
      exact steeringOf_dumps trivial
    rw [hnil, steering, hnew]
    rfl
  | steered => cases ho
  | cancelled => cases ho
  | marked r hrow => rw [steering_of_get? hrow]
  | finalized hd hrow => rw [steering_of_get? hrow]
  | created item hd hnew =>
    subst hd
    exact directives_saved ha hh hkeep
  | saved item hd hrow =>
    subst hd
    exact directives_saved ha hh hkeep

theorem directives_exec (ha : Allowed q h o) (hh : ∀ e ∈ h, ¬ unreadable e)
    (hkeep : keepsDirectives db h o = true) :
    directives (steering (exec repr o w db).2 d) =
      directives (steering db d) ++ appended repr o w db d := by
  cases ho : o.tells with
  | true =>
    cases o with
    | steerQueueItemOnce => exact directives_steer ..
    | cancelActiveQueueItem => exact directives_cancel ..
    | _ => cases ho
  | false =>
    have hdir : directive w o = none := by cases o <;> first | rfl | cases ho
    rw [directives_other ho ha hh hkeep, appended, hdir]
    simp

section Runs

variable [FloatInt F] {B : Builtins F} {s₀ : Db F} {c : Calls B}
variable {ls : List (supervisors B).Label} {G : Calls B → (supervisors B).Label → Prop}

theorem readable_run (hk : Keyed s₀) (hrun : Path (Step B) G (start B s₀) ls c) :
    ¬ Done unreadable (records c) := by
  refine run_invariant (J := fun _ ms => ¬ Done unreadable ms) hk not_done_nil
    (fun _ _ q hd => (done_start q).not.mpr hd) ?_ hrun
  intro c i w c' q o k h hk _ hact hd ha
  have hi := records_call hact.call
  rw [done_set hi, not_or]
  refine ⟨hd, readable_exec hk ha fun e he hu => hd ?_⟩
  exact ⟨_, List.mem_of_getElem? hi, e, he, hu⟩

/-- The directives that a step adds to the history of an item, with the call that adds them. -/
def added (d : String) (c : Calls B) : (supervisors B).Label → List (Nat × Json F)
  | .start _ => []
  | .act i w => match c.calls[i]? with
    | some ⟨_, .call o _, _⟩ => (appended B.repr o w c.state d).map fun entry => (i, entry)
    | _ => []

theorem added_act {c c' : Calls B} {i : Nat} {w : World F} {q : Request F} {o : Op F}
    {k : Except Error o.Ret → Call F (Response F)} {h : History F}
    (hact : Machine.Acts c i w c' q o k h) :
    added d c (.act i w) = (appended B.repr o w c.state d).map fun entry => (i, entry) := by
  rw [added, hact.call]

def told (d : String) (s₀ : Db F) (ls : List (supervisors B).Label) : List (Nat × Json F) :=
  trace (Step B) (added d) (start B s₀) ls

abbrev allKeepDirectives (c : Calls B) : (supervisors B).Label → Bool :=
  guarding (fun c _ h o => keepsDirectives c.state h o) c

theorem directives_run (hk : Keyed s₀)
    (hrun : Path (Step B) (fun c l => allKeepDirectives c l = true)
      (start B s₀) ls c) (d : String) :
    directives (steering c.state d) = directives (steering s₀ d) ++ (told d s₀ ls).map (·.2) := by
  induction hrun with
  | refl => exact (List.append_nil _).symm
  | @tail c c' ls l hrun hG hs ih =>
    rw [told, trace_snoc _ hrun, List.map_append, ← told, ← List.append_assoc, ← ih]
    cases l with
    | start q => simp [Machine.step_start hs, added]
    | act i w =>
      obtain ⟨q, o, k, h, hact⟩ := Machine.step_act hs
      have hread : ∀ e ∈ h, ¬ unreadable e := fun e he hu =>
        readable_run hk hrun ⟨_, List.mem_of_getElem? (records_call hact.call), e, he, hu⟩
      rw [added_act hact, List.map_map, hact.result]
      simpa using directives_exec (acts_allowed hk hrun hact) hread (guarding_act hact hG)

theorem mem_told (hrun : Path (Step B) G (start B s₀) ls c) {i : Nat}
    {call : (supervisors B).Activity} (hc : c.calls[i]? = some call) {o : Op F} {a : o.Ret}
    (he : ⟨o, .ok a⟩ ∈ call.hist) :
    ∃ w, ∀ entry, directive w o = some (d, entry) → (i, entry) ∈ told d s₀ ls := by
  obtain ⟨h, h', hh⟩ := List.append_of_mem he
  obtain ⟨ls₁, w, c₁, c₂, hper⟩ := Machine.performs_of_hist hrun.run hc hh
  obtain ⟨k, hact⟩ := hper.acts
  obtain ⟨ls₂, rfl, -⟩ := hper.split
  refine ⟨w, fun entry hdir => ?_⟩
  have happ : appended B.repr o w c₁.state d = [entry] := by
    have hok : (exec B.repr o w c₁.state).1 = .ok a := hper.answer
    rw [appended, hok, hdir]
    simp [Except.toBool, Option.filter]
  rw [told, trace_append _ hper.before, trace, added_act hact, happ]
  simp

/-- As long as no call writes an item back without a directive that it has not read, the
history holds the directives of all calls that succeeded, in order. -/
theorem steering_kept (hk : Keyed s₀)
    (hrun : Path (Step B) (fun c l => allKeepDirectives c l = true)
      (start B s₀) ls c) (d : String) :
    directives (steering c.state d) = directives (steering s₀ d) ++ (told d s₀ ls).map (·.2) ∧
      ∀ (i : Nat) call r, c.calls[i]? = some call → call.proc.result = some (.ok r) →
        (∀ lead g, call.request = .steerTask lead d g →
          ∃ time, (i, guidanceEntry g lead time) ∈ told d s₀ ls) ∧
        ∀ lead reason, call.request = .cancelTask lead d reason → reason ≠ "" →
          ∃ time, (i, cancellationEntry reason lead time) ∈ told d s₀ ls := by
  refine ⟨directives_run hk hrun d, fun i call r hc hr => ⟨fun lead g hq => ?_, ?_⟩⟩
  · have hout := outcome_call hk hrun hc hr
    rw [hq] at hout
    obtain ⟨item, he⟩ := hout
    obtain ⟨w, hw⟩ := mem_told hrun hc he
    exact ⟨w.time, hw _ rfl⟩
  · intro lead reason hq hreason
    have hout := outcome_call hk hrun hc hr
    rw [hq] at hout
    obtain ⟨item, he⟩ := hout
    obtain ⟨w, hw⟩ := mem_told hrun hc he
    exact ⟨w.time, hw _ (if_neg hreason)⟩

def reportsSteered (d : String) (call : (supervisors B).Activity) : Bool :=
  match call.request, call.proc.result with
  | .steerTask _ d' _, some (.ok _) => d' = d
  | _, _ => false

def sampleSteer : SampleLabel := ask (.steerTask "lead" "d" (.text "slow down"))

def steeredItem : Db Int := sampleDb [sampleItem "d" .dispatched none]

def lostSteering : List SampleLabel :=
  ask (.interruptWorker "worker" "") :: sampleSteer :: (acts 0 4 1 ++ acts 1 1 2 ++ acts 0 2 3)

theorem steering_lost : ∃ c : Calls sampleBuiltins,
    Run (Step sampleBuiltins) (start sampleBuiltins steeredItem) lostSteering c ∧
    (∃ call ∈ c.calls, reportsSteered "d" call = true) ∧
    (told (B := sampleBuiltins) "d" steeredItem lostSteering).length = 1 ∧
    steering c.state "d" = [] := by
  have h : (Library.exec (Step sampleBuiltins) (start sampleBuiltins steeredItem)
      lostSteering).any (fun c => c.calls.any (reportsSteered "d") &&
        (steering c.state "d").isEmpty) = true := by
    decide +kernel
  have htold : (told (B := sampleBuiltins) "d" steeredItem lostSteering).length = 1 := by
    decide +kernel
  obtain ⟨c, hrun, hc⟩ := run_of_any h
  obtain ⟨hsteered, hlost⟩ := Bool.and_eq_true_iff.mp hc
  exact ⟨c, hrun, List.any_eq_true.mp hsteered, htold, List.isEmpty_iff.mp hlost⟩

def keptSteering : List SampleLabel :=
  sampleSteer :: (acts 0 1 1 ++ (ask (.interruptWorker "worker" "") :: acts 1 6 2))

theorem steering_kept_interrupted : ∃ c : Calls sampleBuiltins,
    statusOf c.state "d" = some .interrupted ∧
    (told (B := sampleBuiltins) "d" steeredItem keptSteering).length = 1 ∧
    directives (steering c.state "d") =
      (told (B := sampleBuiltins) "d" steeredItem keptSteering).map (·.2) := by
  have h : (Library.exec (restrict (Step sampleBuiltins) fun c l => allKeepDirectives c l = true)
      (start sampleBuiltins steeredItem) keptSteering).any
      (fun c => statusOf c.state "d" = some .interrupted) = true := by
    decide +kernel
  have htold : (told (B := sampleBuiltins) "d" steeredItem keptSteering).length = 1 := by
    decide +kernel
  obtain ⟨c, hrun, hst⟩ := run_of_any h
  have hk : Keyed steeredItem := keyed_sampleDb _ (by decide)
  have hnil : directives (steering steeredItem "d") = [] := by decide +kernel
  have hkept := (steering_kept hk (path_of_restrict hrun) "d").1
  rw [hnil, List.nil_append] at hkept
  exact ⟨c, of_decide_eq_true hst, htold, hkept⟩

end Runs

end SubagentBridge.Supervisor
