import SubagentBridge.Recovery.SupervisorRuns

/-! What never changes about a queue item: its team, its worker and its deduplication key. -/

namespace SubagentBridge.Supervisor

open Library Domain TeamStore

variable {F : Type}

structure Identity where
  teamId : String
  toSessionId : String
  dedupKey : Option String

def rowIdentity (row : QueueRow F) : Identity := ⟨row.teamId, row.toSessionId, row.dedupKey⟩

def itemIdentity (item : QueueItem F) : Identity := ⟨item.teamId, item.toSessionId, item.dedupKey⟩

theorem Derived.identity {s item : QueueItem F} (hd : Derived s item) :
    itemIdentity item = itemIdentity s := by
  simp only [itemIdentity, hd.teamId, hd.toSessionId, hd.dedupKey]

def Has (db : Db F) (d : String) (x : Identity) : Prop :=
  ∃ row, db.queue.get? d = some row ∧ rowIdentity row = x

def Tells (h : History F) (d : String) (x : Identity) : Prop :=
  ∃ e ∈ h, ∃ item, shown d e.op e.ans = some item ∧ itemIdentity item = x

def Selects (h : History F) (d workerId : String) : Prop :=
  ∃ status, ⟨.selectQueueStatus d, .ok (some (status, workerId))⟩ ∈ h

theorem shown_of_snapshot {h : History F} {d : String} {s : QueueItem F}
    (hs : snapshot h d = some s) : ∃ e ∈ h, shown d e.op e.ans = some s := by
  induction h using List.reverseRecOn with
  | nil => cases hs
  | append_singleton h e ih =>
    rw [snapshot_snoc] at hs
    cases he : shown d e.op e.ans with
    | some item =>
      rw [he, Option.some_or] at hs
      exact ⟨e, by simp, hs ▸ he⟩
    | none =>
      rw [he, Option.none_or] at hs
      obtain ⟨e', he', hshown⟩ := ih hs
      exact ⟨e', List.mem_append_left _ he', hshown⟩

theorem tells_of_snapshot {h : History F} {d : String} {s : QueueItem F}
    (hs : snapshot h d = some s) : Tells h d (itemIdentity s) :=
  let ⟨e, he, hshown⟩ := shown_of_snapshot hs
  ⟨e, he, s, hshown, rfl⟩

variable [FloatText F]

theorem identity_of_read {row : QueueRow F} {item : QueueItem F}
    (h : rowToQueueItem row = .ok item) : itemIdentity item = rowIdentity row := by
  rw [rowToQueueItem] at h
  split at h
  · cases h
    rfl
  · cases h

variable [LinearOrder F] {repr : String → String} {w : World F} {db : Db F} {o : Op F} {d : String}
variable {x : Identity}

structure Tracked (db : Db F) (ms : List (Request F × History F)) : Prop where
  items : ∀ m ∈ ms, ∀ d x, Tells m.2 d x → Has db d x
  workers : ∀ m ∈ ms, ∀ d workerId, Selects m.2 d workerId → ∃ x, Has db d x ∧
    x.toSessionId = workerId

omit [FloatText F] [LinearOrder F] in
theorem tracked_nil : Tracked db [] where
  items := by simp
  workers := by simp

omit [FloatText F] [LinearOrder F] in
theorem Tracked.start {ms : List (Request F × History F)} (ht : Tracked db ms) (q : Request F) :
    Tracked db (ms ++ [(q, [])]) where
  items m hm d x hx := by
    rcases List.mem_append.mp hm with hm | hm
    · exact ht.items m hm d x hx
    · obtain rfl := List.mem_singleton.mp hm
      obtain ⟨e, he, -⟩ := hx
      cases he
  workers m hm d workerId hs := by
    rcases List.mem_append.mp hm with hm | hm
    · exact ht.workers m hm d workerId hs
    · obtain rfl := List.mem_singleton.mp hm
      obtain ⟨status, he⟩ := hs
      cases he

theorem RowChange.identity {r : Except Error o.Ret} {row row' : QueueRow F} {q : Request F}
    {h : History F} (hc : RowChange w db d o r row') (hrow : db.queue.get? d = some row)
    (ha : Allowed q h o) (ht : ∀ x, Tells h d x → Has db d x) :
    rowIdentity row' = rowIdentity row := by
  cases hc with
  | inserted item hd hnew => cases hnew.symm.trans hrow
  | created item hd hnew => cases hnew.symm.trans hrow
  | steered hrow' => rw [← Option.some.inj (hrow'.symm.trans hrow)]; rfl
  | cancelled hrow' => rw [← Option.some.inj (hrow'.symm.trans hrow)]; rfl
  | marked r hrow' => rw [← Option.some.inj (hrow'.symm.trans hrow)]; rfl
  | finalized hd hrow' => rw [← Option.some.inj (hrow'.symm.trans hrow)]; rfl
  | saved item hd hrow' =>
    obtain rfl := Option.some.inj (hrow'.symm.trans hrow)
    obtain ⟨s, hs, hder, -⟩ := ha
    rw [hd] at hs
    obtain ⟨row, hrow'', hid⟩ := ht _ (tells_of_snapshot hs)
    obtain rfl := Option.some.inj (hrow''.symm.trans hrow)
    have hkey : item.dedupKey = row.dedupKey :=
      hder.dedupKey.trans (congrArg Identity.dedupKey hid).symm
    simp only [rowIdentity, QueueRow.assign, toRow, hkey]

theorem has_exec {q : Request F} {h : History F} (hh : Has db d x) (ha : Allowed q h o)
    (ht : ∀ x, Tells h d x → Has db d x) : Has (exec repr o w db).2 d x := by
  obtain ⟨row, hrow, rfl⟩ := hh
  rcases row_exec repr o w db d with hsame | ⟨row', hrow', hc⟩
  · exact ⟨row, hsame.trans hrow, rfl⟩
  · exact ⟨row', hrow', hc.identity hrow ha ht⟩

theorem has_shown (hk : Keyed db) {q : Request F} {h : History F} {item : QueueItem F}
    (hs : shown d o (exec repr o w db).1 = some item) (ha : Allowed q h o)
    (ht : ∀ x, Tells h d x → Has db d x) : Has db d (itemIdentity item) := by
  rcases shows_exec hk hs with ⟨rfl, rfl⟩ | ⟨row, hrow, hshows⟩
  · obtain ⟨s, hs, hder, -⟩ := ha
    rw [hder.identity]
    exact ht _ (tells_of_snapshot hs)
  · refine ⟨row, hrow, ?_⟩
    cases hshows with
    | read hread => exact (identity_of_read hread).symm
    | marked hread => exact (identity_of_read hread).symm

theorem worker_selected {status : QueueTaskStatus} {workerId : String}
    (hs : (⟨o, (exec repr o w db).1⟩ : Event (sig F) Error) =
      ⟨.selectQueueStatus d, .ok (some (status, workerId))⟩) :
    ∃ row, db.queue.get? d = some row ∧ row.status = status ∧ row.toSessionId = workerId := by
  obtain ⟨rfl, hans⟩ := Event.mk.inj hs
  have hans := eq_of_heq hans
  rw [exec] at hans
  split at hans
  · cases hans
  · obtain ⟨row, hrow, hp⟩ := Option.map_eq_some_iff.mp (Except.ok.inj hans)
    obtain ⟨hst, hw⟩ := Prod.mk.inj hp
    exact ⟨row, hrow, hst, hw⟩

theorem Tracked.act {ms : List (Request F × History F)} {i : Nat} {q : Request F} {h : History F}
    (ht : Tracked db ms) (hk : Keyed db) (hi : ms[i]? = some (q, h)) (ha : Allowed q h o) :
    Tracked (exec repr o w db).2 (ms.set i (q, h ++ [⟨o, (exec repr o w db).1⟩])) := by
  have hmem := List.mem_of_getElem? hi
  have keep : ∀ d x, Has db d x → Has (exec repr o w db).2 d x := fun d x hx =>
    has_exec hx ha (ht.items _ hmem d)
  refine ⟨fun m hm d x hx => ?_, fun m hm d workerId hs => ?_⟩
  · rcases List.mem_or_eq_of_mem_set hm with hm | rfl
    · exact keep d x (ht.items m hm d x hx)
    obtain ⟨e, he, item, hshown, rfl⟩ := hx
    rcases List.mem_append.mp he with he | he
    · exact keep d _ (ht.items _ hmem d _ ⟨e, he, item, hshown, rfl⟩)
    · obtain rfl := List.mem_singleton.mp he
      exact keep d _ (has_shown hk hshown ha (ht.items _ hmem d))
  · have keep : ∀ x, Has db d x → x.toSessionId = workerId →
        ∃ x, Has (exec repr o w db).2 d x ∧ x.toSessionId = workerId :=
      fun x hx hw => ⟨x, keep d x hx, hw⟩
    rcases List.mem_or_eq_of_mem_set hm with hm | rfl
    · obtain ⟨x, hx, hw⟩ := ht.workers m hm d workerId hs
      exact keep x hx hw
    obtain ⟨status, he⟩ := hs
    rcases List.mem_append.mp he with he | he
    · obtain ⟨x, hx, hw⟩ := ht.workers _ hmem d workerId ⟨status, he⟩
      exact keep x hx hw
    · obtain ⟨row, hrow, -, hw⟩ := worker_selected (List.mem_singleton.mp he).symm
      exact keep (rowIdentity row) ⟨row, hrow, rfl⟩ hw

section Runs

variable [FloatInt F] {B : Builtins F} {G : Calls B → (supervisors B).Label → Prop} {s₀ : Db F}
variable {c : Calls B} {ls : List (supervisors B).Label}

theorem tracked_run (hk : Keyed s₀) (hrun : Path (Step B) G (start B s₀) ls c) :
    Tracked c.state (records c) := by
  refine run_invariant hk tracked_nil (fun db ms q ht => ht.start q) ?_ hrun
  intro c i w c' q o k h hk _ hact ht ha
  exact ht.act hk (records_call hact.call) ha

end Runs

end SubagentBridge.Supervisor
