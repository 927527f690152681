import SubagentBridge.Library.Solo
import SubagentBridge.Recovery.Handoffs

/-! What a handoff has to pass to complete its task. -/

namespace SubagentBridge.Supervisor

open Library Domain TeamStore

variable {F : Type}

def Found (w : World F) (path r : Option PurePath) : Prop :=
  match path, r with
  | none, r => r = none
  | some p, some q => p = q ∧ w.answer (.pathExists p) = .ok true
  | some p, none => w.answer (.pathExists p) = .ok false

/-- The directory in which the artifacts of the worker are looked up: its worktree if there is
one, else its working directory. -/
def IsWorkspace (w : World F) (wt : Option (WorktreeAssignment F)) (worker : AgentSession F)
    (baseDir : PurePath) : Prop :=
  Found w (wt.map (.ofString ·.worktreePath)) (some baseDir) ∨
    Found w (wt.map (.ofString ·.worktreePath)) none ∧
      Found w (nonempty worker.config.workingDir) (some baseDir)

/-- The artifact lies in the workspace, and no part of the way to it is a symlink. -/
structure Contained (w : World F) (baseDir resolved : PurePath) (art : String) : Prop where
  plain : w.answer (.isSymlink (baseDir.join art)) = .ok false
  below : ∀ cur ∈ PurePath.below baseDir (baseDir.join art), w.answer (.isSymlink cur) = .ok false
  inside : ∃ path, w.answer (.resolvePath (baseDir.join art)) = .ok path ∧
    path.isRelativeTo resolved = true

def HashMatches (w : World F) (baseDir : PurePath) (declared : Dict String (Json F))
    (art : String) : Prop :=
  ∃ path digest h, (fetch declared art).text = some digest ∧ isHexDigest digest ∧
    w.answer (.resolvePath (baseDir.join art)) = .ok path ∧
    w.answer (.pathExists path) = .ok true ∧ w.answer (.isFile path) = .ok true ∧
    w.answer (.fileSha path) = .ok h ∧ lower h = lower digest

def ArtifactsVerified (w : World F) (db : Db F) (evidence : HandoffEvidence F)
    (worker : AgentSession F) : Prop :=
  ∃ baseDir resolved declared,
    IsWorkspace w (db.loadWorktree evidence.fromWorkerId) worker baseDir ∧
    w.answer (.isSymlink baseDir) = .ok false ∧ w.answer (.resolvePath baseDir) = .ok resolved ∧
    (fetch evidence.metrics "artifact_hashes").members = some declared ∧
    ∀ art ∈ evidence.artifacts, Contained w baseDir resolved art ∧
      HashMatches w baseDir declared art

variable [LinearOrder F] [FloatText F]

abbrev alone (B : Builtins F) (w : World F) (o : Op F) (db : Db F) : Except Error o.Ret × Db F :=
  exec B.repr o w db

variable {B : Builtins F} {w : World F} {db db' : Db F} {o : Op F} {β : Type} {b : β}

theorem exec_answer {repr : String → String} (ho : o.external = true ∧ o.reads = true) :
    exec repr o w db = (w.answer o, db) := by
  rw [exec, if_neg (by simp [ho.1])]
  cases o <;> first
    | rfl
    | exact (Bool.false_ne_true ho.1).elim
    | exact (Bool.false_ne_true ho.2).elim

theorem exec_run {repr : String → String} (hw : w.fails = false) :
    exec repr o w db = run repr o w db := by
  rw [exec, if_neg (by simp [hw])]

theorem exec_ok {repr : String → String} {a : o.Ret} (h : exec repr o w db = (.ok a, db')) :
    run repr o w db = (.ok a, db') := by
  rw [exec] at h
  split at h
  · cases (Prod.mk.inj h).1
  · exact h

theorem solo_ran {f : o.Ret → Call F β}
    (h : ((perform o).bind f).solo (alone B w) db = (.ok b, db')) :
    ∃ a s, run B.repr o w db = (.ok a, s) ∧ (f a).solo (alone B w) s = (.ok b, db') := by
  obtain ⟨a, s, ho, hf⟩ := Proc.solo_bind_ok.mp h
  rw [perform, Proc.solo_op] at ho
  exact ⟨a, s, exec_ok ho, hf⟩

theorem solo_read {f : o.Ret → Call F β} (ho : o.reads = true) :
    ((perform o).bind f).solo (alone B w) db = (.ok b, db') ↔
      ∃ a, (exec B.repr o w db).1 = .ok a ∧ (f a).solo (alone B w) db = (.ok b, db') := by
  have hsame : exec B.repr o w db = ((exec B.repr o w db).1, db) := Prod.ext rfl (reads_exec ho)
  rw [perform, Proc.solo_bind_ok, Proc.solo_op]
  constructor
  · rintro ⟨a, s, h, hf⟩
    obtain ⟨ha, rfl⟩ := Prod.mk.inj (hsame.symm.trans h)
    exact ⟨a, ha, hf⟩
  · rintro ⟨a, ha, hf⟩
    exact ⟨a, db, by rw [alone, hsame, ha], hf⟩

theorem solo_ask {f : o.Ret → Call F β} (ho : o.external = true ∧ o.reads = true) :
    ((perform o).bind f).solo (alone B w) db = (.ok b, db') ↔
      ∃ a, w.answer o = .ok a ∧ (f a).solo (alone B w) db = (.ok b, db') := by
  rw [solo_read ho.2, exec_answer ho]

theorem solo_ask_require {p : o.Ret → Prop} [DecidablePred p] {e : o.Ret → Error} {u : Unit}
    (ho : o.external = true ∧ o.reads = true) :
    ((perform o).bind fun a => Proc.require (p a) (e a)).solo (alone B w) db = (.ok u, db') ↔
      (∃ a, w.answer o = .ok a ∧ p a) ∧ db = db' := by
  simp only [solo_ask ho, Proc.solo_require_ok]
  constructor
  · rintro ⟨a, ha, hp, hdb⟩
    exact ⟨⟨a, ha, hp⟩, hdb⟩
  · rintro ⟨⟨a, ha, hp⟩, hdb⟩
    exact ⟨a, ha, hp, hdb⟩

omit [LinearOrder F] [FloatText F] in
theorem looks_bind {f : o.Ret → Call F β} (ho : Looks o) (hf : ∀ a, (f a).Only Looks) :
    ((perform o).bind f).Only Looks :=
  (looks_perform o ho).bind hf

theorem looks_state {α : Type} {p : Call F α} (hp : p.Only Looks) (s : Db F) :
    (p.solo (alone B w) s).2 = s :=
  hp.solo_state fun _ _ ho => reads_exec ho.2

theorem checkArtifactPath_ok {baseDir resolved : PurePath} {art : String} :
    (checkArtifactPath B baseDir resolved art).solo (alone B w) db = (.ok (), db') ↔
      Contained w baseDir resolved art ∧ db = db' := by
  rw [checkArtifactPath, Proc.bind_eq, solo_ask ⟨rfl, rfl⟩]
  simp only [Proc.bind_eq, Proc.solo_require_bind_ok]
  rw [Proc.solo_forEach_bind_ok fun cur s =>
    looks_state (looks_bind ⟨rfl, rfl⟩ fun _ => Proc.only_require _ _) s]
  simp only [solo_ask_require (o := .isSymlink _) ⟨rfl, rfl⟩,
    solo_ask_require (o := .resolvePath _) ⟨rfl, rfl⟩]
  constructor
  · rintro ⟨linked, hlinked, rfl, hbelow, hinside, hdb⟩
    exact ⟨⟨hlinked, fun cur hcur => (hbelow cur hcur).1.elim fun _ h => h.2 ▸ h.1, hinside⟩, hdb⟩
  · rintro ⟨h, hdb⟩
    exact ⟨false, h.plain, rfl, fun cur hcur => ⟨⟨false, h.below cur hcur, rfl⟩, trivial⟩,
      h.inside, hdb⟩

omit [LinearOrder F] [FloatText F] in
theorem truthy_of_digest [FloatInt F] {v : Json F} {digest : String} (hv : v.text = some digest)
    (hd : isHexDigest digest) : v.truthy = true := by
  cases v with
  | str s =>
    obtain rfl := Option.some.inj hv
    refine decide_eq_true fun hs => ?_
    have hlen := hd.1
    rw [hs] at hlen
    cases hlen
  | _ => cases hv

theorem checkArtifactHash_ok [FloatInt F] {baseDir : PurePath} {declared : Dict String (Json F)}
    {art : String} :
    (checkArtifactHash B baseDir declared art).solo (alone B w) db = (.ok (), db') ↔
      HashMatches w baseDir declared art ∧ db = db' := by
  rw [checkArtifactHash, Proc.bind_eq, Proc.solo_require_bind_ok]
  cases hv : (fetch declared art).text.filter (isHexDigest ·) with
  | none =>
    refine iff_of_false (fun h => ?_) fun h => ?_
    · cases (Prod.mk.inj h.2).1
    · obtain ⟨path, digest, hash, htext, hd, -⟩ := h.1
      rw [htext, Option.filter_some, if_pos (decide_eq_true hd)] at hv
      cases hv
  | some digest =>
    obtain ⟨htext, hd⟩ := Option.filter_eq_some_iff.mp hv
    have hd : isHexDigest digest := of_decide_eq_true hd
    simp only [truthy_of_digest htext hd, true_and, Proc.bind_eq,
      solo_ask (o := .resolvePath _) ⟨rfl, rfl⟩, solo_ask (o := .pathExists _) ⟨rfl, rfl⟩,
      Proc.solo_and_bind_ok, solo_ask (o := .isFile _) ⟨rfl, rfl⟩, Proc.solo_require_bind_ok,
      solo_ask_require (o := .fileSha _) ⟨rfl, rfl⟩]
    constructor
    · rintro ⟨path, hpath, there, hthere, ⟨rfl, file, hfile, rfl, ⟨hash, hhash, heq⟩, hdb⟩ | h⟩
      · exact ⟨⟨path, digest, hash, htext, hd, hpath, hthere, hfile, hhash, heq⟩, hdb⟩
      · exact (Bool.false_ne_true h.2.1).elim
    · rintro ⟨⟨path, digest', hash, htext', -, hpath, hthere, hfile, hhash, heq⟩, hdb⟩
      obtain rfl := Option.some.inj (htext.symm.trans htext')
      exact ⟨path, hpath, true, hthere, .inl ⟨rfl, true, hfile, rfl, ⟨hash, hhash, heq⟩, hdb⟩⟩

theorem found_ok {path r : Option PurePath} :
    (found path).solo (alone B w) db = (.ok r, db') ↔ Found w path r ∧ db = db' := by
  cases path with
  | none =>
    rw [found, Proc.solo_ret, Prod.mk.injEq, Except.ok.injEq, eq_comm (a := none)]
    exact Iff.rfl
  | some p =>
    rw [found, Proc.bind_eq, solo_ask ⟨rfl, rfl⟩]
    simp only [Proc.pure_eq, Proc.solo_ret, Prod.mk.injEq, Except.ok.injEq]
    constructor
    · rintro ⟨there, hthere, rfl, hdb⟩
      cases there with
      | true => exact ⟨⟨rfl, hthere⟩, hdb⟩
      | false => exact ⟨hthere, hdb⟩
    · rintro ⟨hfound, hdb⟩
      cases r with
      | none => exact ⟨false, hfound, rfl, hdb⟩
      | some q => exact ⟨true, hfound.2, by rw [hfound.1]; rfl, hdb⟩

theorem artifactBase_ok {wt : Option (WorktreeAssignment F)} {worker : AgentSession F}
    {baseDir : PurePath} :
    (artifactBase wt worker).solo (alone B w) db = (.ok (some baseDir), db') ↔
      IsWorkspace w wt worker baseDir ∧ db = db' := by
  rw [artifactBase, Proc.bind_eq, Proc.solo_bind_ok]
  simp only [found_ok]
  constructor
  · rintro ⟨r, s, ⟨hr, rfl⟩, h⟩
    cases r with
    | none =>
      obtain ⟨hdir, hdb⟩ := found_ok.mp h
      exact ⟨.inr ⟨hr, hdir⟩, hdb⟩
    | some path =>
      obtain ⟨hpath, hdb⟩ := Prod.mk.inj h
      exact ⟨.inl (Option.some.inj (Except.ok.inj hpath) ▸ hr), hdb⟩
  · rintro ⟨hr | ⟨hr, hdir⟩, hdb⟩
    · exact ⟨some baseDir, db, ⟨hr, rfl⟩, Prod.ext rfl hdb⟩
    · exact ⟨none, db, ⟨hr, rfl⟩, found_ok.mpr ⟨hdir, hdb⟩⟩

theorem artifactBase_bind_ok {wt : Option (WorktreeAssignment F)} {worker : AgentSession F}
    {f : Option PurePath → Call F β}
    (hf : ∀ s, (f none).solo (alone B w) s ≠ (.ok b, db')) :
    ((artifactBase wt worker).bind f).solo (alone B w) db = (.ok b, db') ↔
      ∃ baseDir, IsWorkspace w wt worker baseDir ∧
        (f (some baseDir)).solo (alone B w) db = (.ok b, db') := by
  rw [Proc.solo_bind_ok]
  constructor
  · rintro ⟨base, s, hbase, h⟩
    cases base with
    | none => exact (hf s h).elim
    | some baseDir =>
      obtain ⟨hws, rfl⟩ := artifactBase_ok.mp hbase
      exact ⟨baseDir, hws, h⟩
  · rintro ⟨baseDir, hbase, h⟩
    exact ⟨some baseDir, db, artifactBase_ok.mpr ⟨hbase, rfl⟩, h⟩

variable [FloatInt F] {evidence : HandoffEvidence F} {worker : AgentSession F} {verify : Bool}

theorem checkArtifacts_ok (hw : w.fails = false) :
    (checkArtifacts B evidence worker).solo (alone B w) db = (.ok (), db') ↔
      ArtifactsVerified w db evidence worker ∧ db = db' := by
  rw [checkArtifacts, Proc.bind_eq, solo_read rfl, exec_run hw]
  simp only [run, Except.ok.injEq, exists_eq_left', Proc.bind_eq]
  rw [artifactBase_bind_ok fun s h => by cases (Prod.mk.inj h).1]
  simp only [solo_ask (o := .isSymlink _) ⟨rfl, rfl⟩, Proc.solo_require_bind_ok,
    solo_ask (o := .resolvePath _) ⟨rfl, rfl⟩,
    Proc.solo_forEach_bind_ok fun art s => looks_state (checkArtifactPath_looks _ _ art) s,
    checkArtifactPath_ok, and_true]
  cases hd : (fetch evidence.metrics "artifact_hashes").members with
  | none =>
    refine iff_of_false ?_ ?_
    · rintro ⟨_, _, _, _, _, _, _, _, h⟩
      cases (Prod.mk.inj h).1
    · rintro ⟨⟨_, _, declared, _, _, _, hdecl, _⟩, _⟩
      cases hd.symm.trans hdecl
  | some declared =>
    simp only [Proc.solo_forEach_ok fun art s => looks_state (checkArtifactHash_looks _ _ art) s,
      checkArtifactHash_ok, and_true]
    constructor
    · rintro ⟨baseDir, hws, linked, hlinked, rfl, resolved, hres, hpaths, hdb, hhashes⟩
      exact ⟨⟨baseDir, resolved, declared, hws, hlinked, hres, hd,
        fun art hart => ⟨hpaths art hart, hhashes art hart⟩⟩, hdb⟩
    · rintro ⟨⟨baseDir, resolved, declared', hws, hlinked, hres, hdecl, harts⟩, hdb⟩
      obtain rfl := Option.some.inj (hd.symm.trans hdecl)
      exact ⟨baseDir, hws, false, hlinked, rfl, resolved, hres, fun art hart => (harts art hart).1,
        hdb, fun art hart => (harts art hart).2⟩

structure Admissible (w : World F) (db : Db F) (evidence : HandoffEvidence F)
    (item : QueueItem F) (worker : AgentSession F) : Prop where
  works : w.fails = false
  queued : db.loadQueueItem evidence.dispatchId = .ok (some item)
  assigned : evidence.fromWorkerId = item.toSessionId
  started : item.status = .dispatched ∨ item.status = .running
  known : db.loadSession evidence.fromWorkerId = some worker
  available : worker.status ≠ .interrupted
  lead : (db.loadTeam item.teamId).map (·.leadSessionId) = some evidence.toLeadId
  unlisted : ∀ h ∈ db.listHandoffsByTeam item.teamId, h.dispatchId ≠ evidence.dispatchId
  unfinished : db.handoffs.get? evidence.dispatchId = none
  artifacts : evidence.artifacts = [] ∨ ArtifactsVerified w db evidence worker

omit [LinearOrder F] [FloatText F] [FloatInt F] in
theorem checkBinding_ok {item : QueueItem F} {u : Unit} : checkBinding B evidence item = .ok u ↔
    evidence.fromWorkerId = item.toSessionId ∧
      (item.status = .dispatched ∨ item.status = .running) := by
  rw [checkBinding]
  simp only [bind_ok, require_ok, exists_and_left, exists_const]
  constructor
  · rintro ⟨hw, -, hst⟩
    exact ⟨hw, hst⟩
  · rintro ⟨hw, hst⟩
    refine ⟨hw, ?_, hst⟩
    rcases hst with hst | hst <;> simp [hst]

omit [LinearOrder F] [FloatInt F] [FloatText F] in
theorem finalizeHandoff_ok {repr : String → String} {teamId workerId : String}
    {status : Option QueueTaskStatus} {now : F}
    (h : db.finalizeHandoff repr teamId evidence status workerId now = .ok ((), db')) :
    db.handoffs.get? evidence.dispatchId = none ∧ statusOf db' evidence.dispatchId =
      (statusOf db evidence.dispatchId).map fun st => status.getD st := by
  unfold Db.finalizeHandoff at h
  split at h
  · cases h
  next hnew =>
    obtain rfl := (Prod.mk.inj (Except.ok.inj h)).2
    refine ⟨hnew, ?_⟩
    cases hrow : db.queue.get? evidence.dispatchId with
    | none => cases status <;> simp [statusOf, hrow]
    | some row => cases status <;> simp [statusOf, hrow, Dict.get?_set]

omit [LinearOrder F] [FloatInt F] in
theorem loadQueueItem_ok {d : String} {item : QueueItem F}
    (h : db.loadQueueItem d = .ok (some item)) : ∃ row, db.queue.get? d = some row ∧
      item.status = row.status ∧ item.toSessionId = row.toSessionId := by
  rw [Db.loadQueueItem] at h
  split at h
  · cases h
  next row hrow =>
    obtain ⟨read, hread, hitem⟩ := map_ok.mp h
    obtain rfl := Option.some.inj hitem
    refine ⟨row, hrow, status_of_read hread, ?_⟩
    rw [rowToQueueItem] at hread
    split at hread <;> cases hread
    rfl

omit [FloatInt F] in
theorem finalizeHandoffTransaction_ok {teamId : String} {status : Option QueueTaskStatus}
    {item : QueueItem F} (hw : w.fails = false)
    (hq : db.loadQueueItem evidence.dispatchId = .ok (some item))
    (hst : item.status = .dispatched ∨ item.status = .running) :
    (finalizeHandoffTransaction B teamId evidence status).solo (alone B w) db = (.ok (), db') ↔
      db.finalizeHandoff B.repr teamId evidence status item.toSessionId w.time = .ok ((), db') := by
  obtain ⟨row, hrow, hstatus, hto⟩ := loadQueueItem_ok hq
  have hlive : row.status ≠ .completed ∧ row.status ≠ .cancelled := by
    rcases hst with hst | hst <;> simp [← hstatus, hst]
  rw [finalizeHandoffTransaction, Proc.bind_eq, solo_read rfl, exec_run hw, hto]
  simp only [run, Db.selectQueueStatus, hrow, Option.map_some, Except.ok.injEq, exists_eq_left',
    Proc.bind_eq, Proc.solo_require_bind_ok, solo_read (o := .selectHandoff _) rfl, exec_run hw]
  rw [perform, Proc.solo_op, alone, exec_run hw]
  refine ⟨fun h => atomically_ok.mp h.2.2, fun h => ⟨hlive, ?_, atomically_ok.mpr h⟩⟩
  rw [Db.selectHandoff, (finalizeHandoff_ok h).1]
  rfl

theorem submit_ok (hw : w.fails = false) :
    (∃ reply, (submitWorkerHandoff B evidence verify).solo (alone B w) db = (.ok reply, db')) ↔
    ∃ item worker recorded, Admissible w db evidence item worker ∧
      checkEvidence evidence verify = .ok () ∧ checkReceipt B evidence = .ok recorded ∧
      db.finalizeHandoff B.repr item.teamId recorded (handoffStatus recorded) item.toSessionId
        w.time = .ok ((), db') := by
  rw [submitWorkerHandoff]
  simp only [Proc.bind_eq, Proc.pure_eq, solo_read (o := .loadQueueItem _) rfl, exec_run hw, run]
  cases hq : db.loadQueueItem evidence.dispatchId with
  | error e =>
    refine iff_of_false ?_ ?_
    · rintro ⟨_, _, h, _⟩
      cases h
    · rintro ⟨_, _, _, hadm, _⟩
      cases hq.symm.trans hadm.queued
  | ok found =>
    cases found with
    | none =>
      refine iff_of_false ?_ ?_
      · rintro ⟨_, _, h, h'⟩
        cases h
        cases (Prod.mk.inj h').1
      · rintro ⟨_, _, _, hadm, _⟩
        cases hq.symm.trans hadm.queued
    | some item =>
      simp only [Except.ok.injEq, exists_eq_left', Proc.solo_ofExcept_bind_ok, exec_run hw, run,
        solo_read (o := .loadSession _) rfl, checkBinding_ok, exists_const]
      cases hs : db.loadSession evidence.fromWorkerId with
      | none =>
        refine iff_of_false ?_ ?_
        · rintro ⟨_, _, h⟩
          cases (Prod.mk.inj h).1
        · rintro ⟨_, _, _, hadm, _⟩
          cases hs.symm.trans hadm.known
      | some worker =>
        simp only [Proc.solo_ofExcept_bind_ok, Proc.solo_require_bind_ok, exec_run hw, run,
          solo_read (o := .loadTeam _) rfl, solo_read (o := .listHandoffsByTeam _) rfl,
          Except.ok.injEq, exists_eq_left', Proc.solo_when_bind_ok fun _ => checkArtifacts_ok hw]
        constructor
        · rintro ⟨reply, ⟨hto, hst⟩, hav, hlead, hlist, _, hev, harts, recorded, hrec, h⟩
          obtain ⟨_, s, hf, hr⟩ := Proc.solo_bind_ok.mp h
          obtain rfl := (Prod.mk.inj hr).2
          obtain ⟨hd, -⟩ := checkReceipt_ok hrec
          have hfin := (finalizeHandoffTransaction_ok hw (hd ▸ hq) hst).mp hf
          refine ⟨item, worker, recorded, ?_, hev, hrec, hfin⟩
          exact ⟨hw, hq, hto, hst, hs, hav, hlead, hlist, hd ▸ (finalizeHandoff_ok hfin).1,
            or_iff_not_imp_left.mpr harts⟩
        · rintro ⟨item', worker', recorded, hadm, hev, hrec, hfin⟩
          obtain rfl := Option.some.inj (Except.ok.inj (hq.symm.trans hadm.queued))
          obtain rfl := Option.some.inj (hs.symm.trans hadm.known)
          obtain ⟨hd, -⟩ := checkReceipt_ok hrec
          have hf := (finalizeHandoffTransaction_ok hw (hd ▸ hq) hadm.started).mpr hfin
          exact ⟨_, ⟨hadm.assigned, hadm.started⟩, hadm.available, hadm.lead, hadm.unlisted, _, hev,
            or_iff_not_imp_left.mp hadm.artifacts, recorded, hrec,
            Proc.solo_bind_ok.mpr ⟨(), db', hf, rfl⟩⟩

section Refused

omit [FloatInt F]

theorem clean_part {α : Type} {p : Call F α} {f : α → Call F β}
    (hp : p.Only fun o : Op F => o.reads = true)
    (hf : ∀ a, Proc.Clean (alone B w) (f a)) : Proc.Clean (alone B w) (p.bind f) :=
  hp.clean_bind (fun _ _ ho => reads_exec ho) hf

theorem clean_read {f : o.Ret → Call F β} (ho : o.reads = true)
    (hf : ∀ a, Proc.Clean (alone B w) (f a)) : Proc.Clean (alone B w) ((perform o).bind f) :=
  clean_part ((Proc.only_op (S := sig F) (A := fun o : Op F => o.reads = true) o).mpr ho) hf

theorem finalizeHandoffTransaction_clean (teamId : String) (status : Option QueueTaskStatus) :
    Proc.Clean (alone B w) (finalizeHandoffTransaction B teamId evidence status) := by
  refine clean_read rfl fun found => ?_
  cases found with
  | none => exact Proc.clean_raise _
  | some p =>
    refine clean_part (Proc.only_require _ _) fun _ => clean_read rfl fun finalized => ?_
    refine clean_part (Proc.only_require _ _) fun _ => Proc.clean_op fun s e t h => ?_
    rcases finalize_exec B.repr teamId evidence status p.2 w s with ⟨e', h'⟩ | ⟨-, s', -, h'⟩
    · cases h'.symm.trans h
      rfl
    · cases h'.symm.trans h

end Refused

theorem submit_clean : Proc.Clean (alone B w) (submitWorkerHandoff B evidence verify) := by
  refine clean_read rfl fun found => ?_
  cases found with
  | none => exact Proc.clean_raise _
  | some item =>
    refine clean_part (Proc.only_ofExcept _) fun _ => clean_read rfl fun session => ?_
    cases session with
    | none => exact Proc.clean_raise _
    | some worker =>
      refine clean_part (Proc.only_require _ _) fun _ => clean_read rfl fun team => ?_
      refine clean_part (Proc.only_require _ _) fun _ => clean_read rfl fun existing => ?_
      refine clean_part (Proc.only_require _ _) fun _ => ?_
      refine clean_part (Proc.only_ofExcept _) fun _ => ?_
      refine clean_part (Proc.only_when ((checkArtifacts_looks evidence worker).mono
        fun _ ho => ho.2)) fun _ => ?_
      refine clean_part (Proc.only_ofExcept _) fun recorded => ?_
      exact (finalizeHandoffTransaction_clean _ _).bind_ret _

def Completes (db db' : Db F) (d : String) : Prop :=
  statusOf db d ≠ some .completed ∧ statusOf db' d = some .completed

theorem fails_solo (hw : w.fails = true) :
    ((submitWorkerHandoff B evidence verify).solo (alone B w) db).2 = db := by
  have hexec : exec B.repr (.loadQueueItem evidence.dispatchId) w db = (.error .sqlite, db) := by
    rw [exec, if_pos ⟨hw, rfl⟩]
  rw [submitWorkerHandoff, Proc.bind_eq, Proc.solo_bind, perform, Proc.solo_op, alone, hexec]

omit [LinearOrder F] [FloatText F] [FloatInt F] in
theorem not_completes (d : String) : ¬ Completes db db d := fun h => h.1 h.2

theorem completes_iff : Completes db
      ((submitWorkerHandoff B evidence verify).solo (alone B w) db).2 evidence.dispatchId ↔
    ¬ contractOnly evidence ∧ (∃ item worker, Admissible w db evidence item worker) ∧
      checkEvidence evidence verify = .ok () ∧ ∃ recorded,
        checkReceipt B evidence = .ok recorded := by
  constructor
  · intro hc
    cases hw : w.fails with
    | true =>
      rw [fails_solo hw] at hc
      exact (not_completes _ hc).elim
    | false =>
      rcases hr : (submitWorkerHandoff B evidence verify).solo (alone B w) db with ⟨e | reply, db'⟩
      · rw [hr, submit_clean db e db' hr] at hc
        exact (not_completes _ hc).elim
      · obtain ⟨item, worker, recorded, hadm, hev, hrec, hfin⟩ := (submit_ok hw).mp ⟨reply, hr⟩
        refine ⟨fun hcontract => ?_, ⟨item, worker, hadm⟩, hev, recorded, hrec⟩
        obtain ⟨hd, hst⟩ := checkReceipt_ok hrec
        have hsame := (finalizeHandoff_ok hfin).2
        rw [handoffStatus_congr hst, handoffStatus, if_pos hcontract, hd] at hsame
        rw [hr] at hc
        refine hc.1 (Eq.trans ?_ hc.2)
        rw [hsame]
        cases statusOf db evidence.dispatchId <;> rfl
  · rintro ⟨hcontract, ⟨item, worker, hadm⟩, hev, recorded, hrec⟩
    obtain ⟨hd, hst⟩ := checkReceipt_ok hrec
    obtain ⟨db', hfin⟩ : ∃ db', db.finalizeHandoff B.repr item.teamId recorded
        (handoffStatus recorded) item.toSessionId w.time = .ok ((), db') := by
      unfold Db.finalizeHandoff
      rw [hd, hadm.unfinished]
      exact ⟨_, rfl⟩
    obtain ⟨reply, hr⟩ := (submit_ok hadm.works).mpr ⟨item, worker, recorded, hadm, hev, hrec, hfin⟩
    obtain ⟨row, hrow, hstatus, -⟩ := loadQueueItem_ok hadm.queued
    have hnew := (finalizeHandoff_ok hfin).2
    rw [handoffStatus_congr hst, handoffStatus, if_neg hcontract, hd, statusOf_of_get? hrow] at hnew
    rw [hr]
    refine ⟨?_, hnew⟩
    rw [statusOf_of_get? hrow, ← hstatus]
    rcases hadm.started with hs | hs <;> simp [hs]

end SubagentBridge.Supervisor
