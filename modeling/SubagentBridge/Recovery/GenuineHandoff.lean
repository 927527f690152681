import SubagentBridge.Recovery.ArtifactFiles

/-! What a handoff that completes its task has shown. -/

namespace SubagentBridge.Supervisor

open Library Domain TeamStore

variable {F : Type} {w : World F} {tree : Tree} {cwd : Place} {digest : String → String}
  {db db' : Db F} {evidence : HandoffEvidence F} {worker : AgentSession F} {verify : Bool}

/-- A handoff that reports success, with all that a successful handoff has to show. -/
structure Genuine [FloatText F] [FloatInt F] (tree : Tree) (cwd : Place)
    (digest : String → String) (db : Db F)
    (evidence : HandoffEvidence F) : Prop where
  status : successful evidence
  summary : ¬ isBlank evidence.summary
  receipt : ∃ receipt, (receiptId evidence.metrics).text = some receipt ∧ ¬ isBlank receipt
  exitCode : (fetch (receiptMetrics evidence.metrics) "exit_code").pyEq (.int 0) = true
  verdict : (fetch evidence.metrics "qa_verdict").text ∈ [some "PASS", some "VERIFIED"]
  artifacts : evidence.artifacts = [] ∨ ∃ worker,
    db.loadSession evidence.fromWorkerId = some worker ∧
      ArtifactsDelivered tree cwd digest db evidence worker

/-- What a handoff that reports success has to say. -/
structure Vouched [FloatText F] [FloatInt F] (evidence : HandoffEvidence F)
    (verify : Bool) : Prop where
  verified : verify = true
  summary : ¬ isBlank evidence.summary
  metrics : evidence.metrics ≠ []
  receipt : ∃ receipt, (receiptId evidence.metrics).text = some receipt ∧ ¬ isBlank receipt
  present : (fetch (receiptMetrics evidence.metrics) "exit_code").pyEq .null = false
  exitCode : (fetch (receiptMetrics evidence.metrics) "exit_code").pyEq (.int 0) = true
  verdict : (fetch evidence.metrics "qa_verdict").text ∈ [some "PASS", some "VERIFIED"]

variable [LinearOrder F] [FloatText F] [FloatInt F] {B : Builtins F}

omit [LinearOrder F] in
theorem checks_ok (hsucc : successful evidence) : checkEvidence evidence verify = .ok () ∧
    (∃ recorded, checkReceipt B evidence = .ok recorded) ↔ Vouched evidence verify := by
  simp only [checkEvidence, checkReceipt, checkMetrics, if_pos hsucc, bind_ok, require_ok,
    exists_const]
  constructor
  · rintro ⟨⟨hverify, hsummary, hmetrics⟩, recorded, ⟨hreceipt, hpresent, hexit, hverdict⟩, -⟩
    exact ⟨hverify hsucc, hsummary hsucc, hmetrics hsucc, hreceipt, hpresent, hexit,
      by simpa using hverdict⟩
  · intro h
    exact ⟨⟨fun _ => h.verified, fun _ => h.summary, fun _ => h.metrics⟩, _,
      ⟨h.receipt, h.present, h.exitCode, by simpa using h.verdict⟩, rfl⟩

omit [LinearOrder F] in
theorem checks_pass (hfail : ¬ successful evidence) : checkEvidence evidence verify = .ok () ∧
    ∃ recorded, checkReceipt B evidence = .ok recorded := by
  refine ⟨?_, evidence, ?_⟩
  · simp [checkEvidence, hfail, require, bind, Except.bind]
  · rw [checkReceipt, if_neg hfail]

omit [LinearOrder F] in
theorem genuine_of_vouched (hw : Mirrors w tree cwd digest) {item : QueueItem F}
    (hadm : Admissible w db evidence item worker) (hsucc : successful evidence)
    (hvouched : Vouched evidence verify)
    (hveils : ∀ art ∈ evidence.artifacts, ¬ Veils tree cwd db evidence worker art) :
    Genuine tree cwd digest db evidence where
  status := hsucc
  summary := hvouched.summary
  receipt := hvouched.receipt
  exitCode := hvouched.exitCode
  verdict := hvouched.verdict
  artifacts := hadm.artifacts.imp_right fun h =>
    ⟨worker, hadm.known, artifactsDelivered hw h hveils⟩

omit [LinearOrder F] in
theorem Genuine.not_veils {art : String} (h : Genuine tree cwd digest db evidence)
    (hworker : db.loadSession evidence.fromWorkerId = some worker)
    (hart : art ∈ evidence.artifacts) :
    ¬ Veils tree cwd db evidence worker art := by
  rcases h.artifacts with hnil | ⟨worker', hworker', hdelivered⟩
  · rw [hnil] at hart
    cases hart
  · obtain rfl := Option.some.inj (hworker.symm.trans hworker')
    exact hdelivered.not_veils hart

/-- A handoff completes its item only on genuine success, unless it meets what every handoff has to
meet and either reports something that is neither success nor a contract test, or vouches for
itself and names an artifact behind a link that the checks cannot see. -/
theorem genuine_completion (hw : Mirrors w tree cwd digest) : (Completes db
      ((submitWorkerHandoff B evidence verify).solo (alone B w) db).2 evidence.dispatchId →
    Genuine tree cwd digest db evidence) ↔
    contractOnly evidence ∨ (¬ ∃ item worker, Admissible w db evidence item worker) ∨
      successful evidence ∧ (¬ Vouched evidence verify ∨
        ∀ worker, db.loadSession evidence.fromWorkerId = some worker →
          ∀ art ∈ evidence.artifacts, ¬ Veils tree cwd db evidence worker art) := by
  constructor
  · intro h
    by_contra hcond
    simp only [not_or, not_not] at hcond
    obtain ⟨hcontract, hadm, hcond⟩ := hcond
    by_cases hsucc : successful evidence
    · have hno := fun hor => hcond ⟨hsucc, hor⟩
      have hvouched : Vouched evidence verify := by_contra fun hnot => hno (.inl hnot)
      obtain ⟨hev, hrec⟩ := (checks_ok (B := B) hsucc).mpr hvouched
      have hgenuine := h (completes_iff.mpr ⟨hcontract, hadm, hev, hrec⟩)
      exact hno (.inr fun worker hworker art hart => hgenuine.not_veils hworker hart)
    · have hpass : checkEvidence evidence verify = .ok () ∧
          ∃ recorded, checkReceipt B evidence = .ok recorded := checks_pass hsucc
      obtain ⟨hev, hrec⟩ := hpass
      exact hsucc (h (completes_iff.mpr ⟨hcontract, hadm, hev, hrec⟩)).status
  · intro hcond hc
    obtain ⟨hcontract, ⟨item, worker, hadm⟩, hev, hrec⟩ := completes_iff.mp hc
    rcases hcond with h | h | ⟨hsucc, h⟩
    · exact (hcontract h).elim
    · exact (h ⟨item, worker, hadm⟩).elim
    · have hvouched := (checks_ok hsucc).mp ⟨hev, hrec⟩
      exact genuine_of_vouched hw hadm hsucc hvouched
        ((h.resolve_left (not_not_intro hvouched)) worker hadm.known)

/-! A workspace with a directory, a file in it, and a link to it -/

section Sample

def diskTree : Tree :=
  .ofList [([], .directory), (["ws"], .directory), (["ws", "real"], .directory),
    (["ws", "real", "x"], .file "report"), (["ws", "link"], .link ⟨false, ["real"]⟩)]
    (by decide +kernel)

def sampleDigest : String := .ofList (List.replicate 64 '0')

def diskWorld : World Int := (sampleWorld 1).onDisk diskTree [] fun _ => sampleDigest

def diskDb : Db Int :=
  let db := sampleDb [sampleItem "d1" .running none]
  { db with sessions := db.sessions.set "worker" ⟨"worker", .worker, "t", .idle,
    { sampleConfig "worker" with workingDir := some "/ws" }, 0, 0⟩ }

def deliveryOf (art : String) : HandoffEvidence Int :=
  { sampleEvidence "d1" "SUCCESS" with
    summary := "done"
    artifacts := [art]
    metrics := [("receipt_id", .str "r"), ("exit_code", .int 0), ("qa_verdict", .str "PASS"),
      ("artifact_hashes", .obj [(art, .str sampleDigest)])] }

theorem disk_workspace {worker : AgentSession Int} {baseDir : PurePath} {root : Place}
    (hworker : diskDb.loadSession "worker" = some worker)
    (hws : workspaceOf diskTree [] (diskDb.loadWorktree "worker") worker = some baseDir)
    (hroot : diskTree.Leads [] (namesOf [] baseDir) root) :
    baseDir = ⟨true, ["ws"]⟩ ∧ root = ["ws"] := by
  have hfound : (diskDb.loadSession "worker").bind
      (workspaceOf diskTree [] (diskDb.loadWorktree "worker")) = some ⟨true, ["ws"]⟩ := by
    decide +kernel
  rw [hworker, Option.bind_some, hws] at hfound
  obtain rfl := Option.some.inj hfound
  have hclear : diskTree.Clear [] ["ws"] := by decide +kernel
  exact ⟨rfl, hroot.unique hclear.leads⟩

/-- The artifact in the directory is delivered. -/
theorem genuine_delivery : Completes diskDb
      ((submitWorkerHandoff sampleBuiltins (deliveryOf "real/x") true).solo
        (alone sampleBuiltins diskWorld) diskDb).2 "d1" ∧
    Genuine diskTree [] (fun _ => sampleDigest) diskDb (deliveryOf "real/x") := by
  have hc : Completes diskDb ((submitWorkerHandoff sampleBuiltins (deliveryOf "real/x") true).solo
      (alone sampleBuiltins diskWorld) diskDb).2 "d1" :=
    ⟨by decide +kernel, by decide +kernel⟩
  refine ⟨hc, (genuine_completion (mirrors_onDisk _ _ _ _)).mpr
    (.inr (.inr ⟨.inl rfl, .inr fun worker hworker art hart => ?_⟩)) hc⟩
  obtain rfl := List.mem_singleton.mp hart
  rintro ⟨baseDir, root, hws, hroot, hveiled⟩
  obtain ⟨rfl, rfl⟩ := disk_workspace hworker hws hroot
  have hway : wayTo [] ["ws"] ⟨true, ["ws"]⟩ (PurePath.join ⟨true, ["ws"]⟩ "real/x") =
      (["ws"], ["real", "x"]) := by decide +kernel
  rw [hway] at hveiled
  exact hveiled.not_clear (by decide +kernel)

/-- A worker reports that it failed, or names a file behind a missing name and a link, and its item
is completed. -/
theorem failure_completes :
    (Completes diskDb ((submitWorkerHandoff sampleBuiltins (sampleEvidence "d1" "FAILED") true).solo
        (alone sampleBuiltins diskWorld) diskDb).2 "d1" ∧
      ¬ Genuine diskTree [] (fun _ => sampleDigest) diskDb (sampleEvidence "d1" "FAILED")) ∧
    Completes diskDb
      ((submitWorkerHandoff sampleBuiltins (deliveryOf "missing/../link/x") true).solo
        (alone sampleBuiltins diskWorld) diskDb).2 "d1" ∧
      ¬ Genuine diskTree [] (fun _ => sampleDigest) diskDb (deliveryOf "missing/../link/x") := by
  refine ⟨⟨⟨by decide +kernel, by decide +kernel⟩, fun h => absurd h.status (by decide)⟩,
    ⟨by decide +kernel, by decide +kernel⟩, fun h => ?_⟩
  rcases h.artifacts with hnil | ⟨worker, hworker, baseDir, root, declared, hws, hroot, -, harts⟩
  · cases hnil
  · obtain ⟨rfl, rfl⟩ := disk_workspace hworker hws hroot
    have hclear := (harts _ (List.mem_singleton_self _)).clear
    have hway : wayTo [] ["ws"] ⟨true, ["ws"]⟩
        (PurePath.join ⟨true, ["ws"]⟩ "missing/../link/x") =
          (["ws"], ["missing", "..", "link", "x"]) := by decide +kernel
    rw [hway] at hclear
    exact absurd hclear (by decide +kernel)

end Sample

end SubagentBridge.Supervisor
