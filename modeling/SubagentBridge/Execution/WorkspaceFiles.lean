import SubagentBridge.Execution.WorkerRuntime
import SubagentBridge.Library.FileSystem

/-! Which files the native harness writes, as itself and as the fallback of another harness. -/

namespace SubagentBridge.Worker

open Library

variable {F : Type}

def workspaceRoot (cwd : Place) : Option String → PurePath
  | some workspace => .ofString workspace
  | none => ⟨true, cwd⟩

def outPath (cwd : Place) (workspace : Option String) (name : String) : PurePath :=
  (workspaceRoot cwd workspace).join name

/-- How the system answers the operations of a harness, and which files are written on the way. A
file that could be opened is written, whether or not the writing is finished. -/
inductive Serves (cwd : Place) : FileSystem → List (Event (sig F) Error) → List Place →
    FileSystem → Prop
  | nil {fs : FileSystem} : Serves cwd fs [] [] fs
  | now {fs fs' : FileSystem} {h : List (Event (sig F) Error)} {written : List Place} (t : F) :
      Serves cwd fs h written fs' → Serves cwd fs (⟨.now, .ok t⟩ :: h) written fs'
  | failed {fs fs₁ fs' : FileSystem} {h : List (Event (sig F) Error)} {written : List Place}
      {workspace : Option String} {name content : String} (e : Error) (hgrows : fs.Grows [] fs₁) :
      Serves cwd fs₁ h written fs' →
      Serves cwd fs (⟨.writeFile workspace name content, .error e⟩ :: h) written fs'
  | opened {fs fs₁ fs' : FileSystem} {h : List (Event (sig F) Error)} {written : List Place}
      {workspace : Option String} {name content : String} {place : Place} (text : String)
      (x : Except Error String) (hplace : fs.follow cwd (outPath cwd workspace name) = some place)
      (hfile : fs₁.node place = some (.file text)) (hgrows : fs.Grows [place] fs₁)
      (hdone : ∀ a, x = .ok a → text = content) :
      Serves cwd fs₁ h written fs' →
      Serves cwd fs (⟨.writeFile workspace name content, x⟩ :: h) (place :: written) fs'

def InWorkspace (cwd : Place) (fs : FileSystem) (workspace : Option String) (place : Place) :
    Prop :=
  ∃ root, fs.follow cwd (workspaceRoot cwd workspace) = some root ∧ root <+: place

def Untouched (h : List (Event (sig F) Error)) : Prop :=
  ∀ e ∈ h, ∀ workspace name content, e.op ≠ .writeFile workspace name content

/-! ## The writes of an instruction -/

abbrev Write := Option String × String × String

def Attempts {α : Type} : Call F α → List Write → Prop
  | .ret _, ws => ws = []
  | .raise _, ws => ws = []
  | .call .now k, ws => ∀ t, Attempts (k (.ok t)) ws
  | .call (.writeFile workspace name content) k, ws =>
    ∃ rest, ws = (workspace, name, content) :: rest ∧ ∀ x, Attempts (k x) rest
  | .call _ _, _ => False

theorem Attempts.bind_nil {α β : Type} {p : Call F α} {f : α → Call F β} {ws : List Write}
    (hp : Attempts p ws) (hf : ∀ a, Attempts (f a) []) : Attempts (p.bind f) ws := by
  induction p generalizing ws with
  | ret a =>
    obtain rfl : ws = [] := hp
    exact hf a
  | raise e => exact hp
  | call o k ih =>
    cases o with
    | now => exact fun t => ih _ (hp t)
    | writeFile workspace name content =>
      obtain ⟨rest, hws, hrest⟩ := hp
      exact ⟨rest, hws, fun x => ih x (hrest x)⟩
    | _ => exact hp.elim

theorem attempts_now {α : Type} {f : F → Call F α} {ws : List Write}
    (hf : ∀ t, Attempts (f t) ws) : Attempts ((perform .now).bind f) ws := hf

theorem attempts_writeFile {α : Type} {workspace : Option String} {name content : String}
    {f : String → Call F α} (hf : ∀ path, Attempts (f path) []) :
    Attempts ((perform (.writeFile workspace name content)).bind f)
      [(workspace, name, content)] := by
  refine ⟨[], rfl, ?_⟩
  rintro (e | path)
  · rfl
  · exact hf path

theorem attempts_refusal {taskId : Json F} {status : String} {fields : Dict String (Json F)} :
    Attempts (refusal taskId status fields) [] := attempts_now fun _ => rfl

theorem Attempts.none {α : Type} {p : Call F α} {h : List (Event (sig F) Error)}
    {r : Except Error α} {cwd : Place} {fs fs' : FileSystem} {written : List Place}
    (hp : Attempts p []) (hplays : p.Plays h r) (hserved : Serves cwd fs h written fs') :
    written = [] ∧ Untouched h := by
  induction hplays generalizing fs written with
  | ret a =>
    cases hserved
    exact ⟨rfl, fun _ he => (nomatch he)⟩
  | raise e =>
    cases hserved
    exact ⟨rfl, fun _ he => (nomatch he)⟩
  | @call o k x h r hk ih =>
    cases hserved with
    | now t hserved =>
      obtain ⟨hwritten, huntouched⟩ := ih (hp t) hserved
      refine ⟨hwritten, List.forall_mem_cons.mpr ⟨?_, huntouched⟩⟩
      exact fun _ _ _ hop => nomatch hop
    | failed e hgrows hserved =>
      obtain ⟨rest, hws, -⟩ := hp
      exact nomatch hws
    | opened text x hplace hfile hgrows hdone hserved =>
      obtain ⟨rest, hws, -⟩ := hp
      exact nomatch hws

theorem Attempts.one {α : Type} {p : Call F α} {h : List (Event (sig F) Error)}
    {r : Except Error α} {cwd : Place} {fs fs' : FileSystem} {written : List Place}
    {workspace : Option String} {name content : String}
    (hp : Attempts p [(workspace, name, content)]) (hplays : p.Plays h r)
    (hserved : Serves cwd fs h written fs') :
    (∀ place ∈ written, fs.follow cwd (outPath cwd workspace name) = some place) ∧
      ¬Untouched h := by
  induction hplays generalizing fs written with
  | ret a => exact nomatch hp
  | raise e => exact nomatch hp
  | @call o k x h r hk ih =>
    cases hserved with
    | now t hserved =>
      obtain ⟨hwritten, htouched⟩ := ih (hp t) hserved
      exact ⟨hwritten, fun hno => htouched fun e he => hno e (List.mem_cons_of_mem _ he)⟩
    | failed e hgrows hserved =>
      obtain ⟨rest, hws, hrest⟩ := hp
      obtain ⟨hw, rfl⟩ := List.cons.inj hws
      obtain ⟨rfl, -⟩ := (hrest _).none hk hserved
      exact ⟨fun _ hplace => (nomatch hplace), fun hno => hno _ List.mem_cons_self _ _ _ rfl⟩
    | opened text x hplace hfile hgrows hdone hserved =>
      obtain ⟨rest, hws, hrest⟩ := hp
      obtain ⟨hw, rfl⟩ := List.cons.inj hws
      obtain ⟨rfl, rfl, rfl⟩ : workspace = _ ∧ name = _ ∧ content = _ := by simpa using hw
      obtain ⟨rfl, -⟩ := (hrest _).none hk hserved
      refine ⟨?_, fun hno => hno _ List.mem_cons_self _ _ _ rfl⟩
      intro place hmem
      rw [List.mem_singleton.mp hmem]
      exact hplace

/-! ## What the harnesses write -/

section Harnesses

variable [FloatArith F] (B : Builtins F) (host : Host)

structure Orders (instruction : String) (workspacePath : Json F) (workspace : Option String)
    (name content : String) : Prop where
  file : createFile? instruction = some (name, content)
  workspace : workspaceOf workspacePath = .ok workspace

def NamesOutside (cwd : Place) (fs : FileSystem) (instruction : String) (workspacePath : Json F) :
    Prop :=
  ∃ workspace name content, Orders instruction workspacePath workspace name content ∧
    ¬∃ place, fs.follow cwd (outPath cwd workspace name) = some place ∧
      InWorkspace cwd fs workspace place

def fallbackConfig (config : ExecutionConfig F) : ExecutionConfig F :=
  ⟨.str "native", .str "local", .null, config.budgetTokens, config.tokensConsumed, .bool true⟩

def FallsBack (a : HarnessAdapter) (config : ExecutionConfig F)
    (required : List HarnessCapability) : Prop :=
  config.fallbackToNative.truthy = true ∧ a.name ≠ "native" ∧
    missingNames required nativeHarness = [] ∧ config.effort.truthy = false

def Admits (a : HarnessAdapter) (config : ExecutionConfig F) (required : List HarnessCapability) :
    Prop :=
  match a.execution with
  | .native => validateExecutionConfig B host nativeHarness config required = .ok none
  | .reporting _ hosted =>
    hosted = true ∧ host.available a = false ∧ FallsBack a config required ∧
      validateExecutionConfig B host nativeHarness (fallbackConfig config) required = .ok none
  | .unwired => FallsBack a config required ∧
      validateExecutionConfig B host nativeHarness (fallbackConfig config) required = .ok none

variable {B host} {a : HarnessAdapter} {config : ExecutionConfig F}
variable {required : List HarnessCapability} {taskId workspacePath : Json F}
variable {instruction : String} {workspace : Option String} {name content : String} {start : F}

theorem attempts_createFile (h : Orders instruction workspacePath workspace name content) :
    Attempts (createFile taskId instruction workspacePath start) [(workspace, name, content)] := by
  rw [createFile, h.file]
  simp only [h.workspace, Proc.ofExcept, Proc.bind_eq, Proc.bind]
  apply attempts_writeFile
  intro path
  exact attempts_now fun _ => attempts_now fun _ => rfl

theorem attempts_createFile_none
    (h : ∀ workspace name content, ¬Orders instruction workspacePath workspace name content) :
    Attempts (createFile taskId instruction workspacePath start) [] := by
  unfold createFile
  split
  next => exact attempts_refusal
  next name content hfile =>
    cases hworkspace : workspaceOf workspacePath with
    | error e => rfl
    | ok workspace => exact absurd ⟨hfile, hworkspace⟩ (h workspace name content)

theorem attempts_executeNative {ws : List Write}
    (hvalid : validateExecutionConfig B host nativeHarness config required = .ok none →
      ∀ start, Attempts (createFile taskId instruction workspacePath start) ws)
    (hrefused : validateExecutionConfig B host nativeHarness config required ≠ .ok none → ws = []) :
    Attempts (executeNative B host taskId instruction config workspacePath required) ws := by
  apply attempts_now
  intro start
  cases h : validateExecutionConfig B host nativeHarness config required with
  | error e => exact hrefused (by simp [h])
  | ok refused =>
    cases refused with
    | none => exact hvalid h start
    | some reason =>
      rw [hrefused (by simp [h])]
      exact attempts_refusal

theorem attempts_fallBack {ws : List Write}
    (hvalid : FallsBack a config required →
      validateExecutionConfig B host nativeHarness (fallbackConfig config) required = .ok none →
      ∀ start, Attempts (createFile taskId instruction workspacePath start) ws)
    (hrefused : ¬(FallsBack a config required ∧
      validateExecutionConfig B host nativeHarness (fallbackConfig config) required = .ok none) →
      ws = []) :
    Attempts (fallBack B host a taskId instruction config workspacePath required) ws := by
  have hrefuse : ∀ {status : String} {fields : Dict String (Json F)},
      ¬FallsBack a config required → Attempts (refusal taskId status fields) ws := by
    intro status fields hno
    rw [hrefused fun h => hno h.1]
    exact attempts_refusal
  unfold fallBack
  split
  next hallowed =>
    split
    next hmissing => exact hrefuse fun h => hmissing h.2.2.1
    next hmissing =>
      split
      next heffort => exact hrefuse fun h => absurd (heffort.symm.trans h.2.2.2) (by decide)
      next heffort =>
        have hfalls : FallsBack a config required :=
          ⟨hallowed.1, hallowed.2, not_not.mp hmissing, eq_false_of_ne_true heffort⟩
        apply Attempts.bind_nil
        · exact attempts_executeNative (hvalid hfalls) fun hno => hrefused fun h => hno h.2
        · exact fun _ => rfl
  next hallowed => exact hrefuse fun h => hallowed ⟨h.1, h.2.1⟩

theorem attempts_execute {ws : List Write}
    (hvalid : Admits B host a config required →
      ∀ start, Attempts (createFile taskId instruction workspacePath start) ws)
    (hrefused : ¬Admits B host a config required → ws = []) :
    Attempts (execute B host a taskId instruction config workspacePath required) ws := by
  unfold execute
  unfold Admits at hvalid hrefused
  cases hexecution : a.execution with
  | native =>
    rw [hexecution] at hvalid hrefused
    exact attempts_executeNative hvalid hrefused
  | reporting title hosted =>
    rw [hexecution] at hvalid hrefused
    dsimp only
    split
    next hmissing =>
      apply attempts_fallBack
      · exact fun hfalls hadmitted => hvalid ⟨hmissing.1, hmissing.2, hfalls, hadmitted⟩
      · exact fun hno => hrefused fun h => hno h.2.2
    next hpresent =>
      rw [hrefused fun h => hpresent ⟨h.1, h.2.1⟩]
      cases hcheck : validateExecutionConfig B host a config required with
      | error e => rfl
      | ok refused =>
        cases refused with
        | none => exact attempts_now fun _ => attempts_now fun _ => attempts_now fun _ => rfl
        | some reason => exact attempts_refusal
  | unwired =>
    rw [hexecution] at hvalid hrefused
    apply attempts_fallBack
    · exact fun hfalls hadmitted => hvalid ⟨hfalls, hadmitted⟩
    · exact hrefused

theorem names_plain {cwd root : Place} {fs : FileSystem}
    (hroot : fs.follow cwd (workspaceRoot cwd workspace) = some root)
    (hrelative : (PurePath.ofString name).absolute = false)
    (hplain : fs.Plain root (PurePath.ofString name).parts) :
    ∃ place, fs.follow cwd (outPath cwd workspace name) = some place ∧
      InWorkspace cwd fs workspace place := by
  refine ⟨root ++ (PurePath.ofString name).parts, ?_, root, hroot, List.prefix_append _ _⟩
  have hjoin : outPath cwd workspace name = ⟨(workspaceRoot cwd workspace).absolute,
      (workspaceRoot cwd workspace).parts ++ (PurePath.ofString name).parts⟩ := by
    rw [outPath, PurePath.join, if_neg (by simp [hrelative])]
  rw [hjoin]
  exact FileSystem.walk_append hroot hplain

/-- The files that an instruction writes are in the workspace, and one that names a path outside of
it touches nothing, exactly if the native harness does not admit an instruction that names such a
path: an absolute one, or one that leads up or through a link. -/
theorem native_contained {cwd : Place} {fs fs' : FileSystem} {h : List (Event (sig F) Error)}
    {r : Except Error (Dict String (Json F))} {written : List Place}
    (hplays : (execute B host a taskId instruction config workspacePath required).Plays h r)
    (hserved : Serves cwd fs h written fs') :
    (((∀ place ∈ written, ∃ workspace, workspaceOf workspacePath = .ok workspace ∧
        InWorkspace cwd fs workspace place) ∧
      (NamesOutside cwd fs instruction workspacePath → Untouched h)) ↔
        ¬(Admits B host a config required ∧ NamesOutside cwd fs instruction workspacePath)) ∧
      ∀ workspace root name, fs.follow cwd (workspaceRoot cwd workspace) = some root →
        (PurePath.ofString name).absolute = true ∨
          ¬fs.Plain root (PurePath.ofString name).parts ∨
          ∃ place, fs.follow cwd (outPath cwd workspace name) = some place ∧
            InWorkspace cwd fs workspace place := by
  refine ⟨?_, fun workspace root name hroot => ?_⟩
  · by_cases hwrites : Admits B host a config required ∧
        ∃ workspace name content, Orders instruction workspacePath workspace name content
    · obtain ⟨hadmits, workspace, name, content, horders⟩ := hwrites
      have hone : Attempts (execute B host a taskId instruction config workspacePath required)
          [(workspace, name, content)] := by
        apply attempts_execute
        · exact fun _ _ => attempts_createFile horders
        · exact fun hno => absurd hadmits hno
      obtain ⟨hwritten, htouched⟩ := hone.one hplays hserved
      constructor
      · exact fun hcontained hno => htouched (hcontained.2 hno.2)
      · intro hno
        have hinside : ¬NamesOutside cwd fs instruction workspacePath := fun h => hno ⟨hadmits, h⟩
        refine ⟨fun place hplace => ?_, fun h => absurd h hinside⟩
        by_contra houtside
        refine hinside ⟨workspace, name, content, horders, ?_⟩
        rintro ⟨place', hplace', hin⟩
        obtain rfl : place = place' := Option.some.inj ((hwritten place hplace).symm.trans hplace')
        exact houtside ⟨workspace, horders.workspace, hin⟩
    · have hnone : Attempts
          (execute B host a taskId instruction config workspacePath required) [] := by
        apply attempts_execute
        · intro hadmits start
          apply attempts_createFile_none
          exact fun workspace name content horders =>
            hwrites ⟨hadmits, workspace, name, content, horders⟩
        · exact fun _ => rfl
      obtain ⟨rfl, huntouched⟩ := hnone.none hplays hserved
      constructor
      · rintro - ⟨hadmits, workspace, name, content, horders, -⟩
        exact hwrites ⟨hadmits, workspace, name, content, horders⟩
      · exact fun _ => ⟨fun _ hplace => (nomatch hplace), fun _ => huntouched⟩
  · by_cases habsolute : (PurePath.ofString name).absolute = true
    · exact .inl habsolute
    · by_cases hplain : fs.Plain root (PurePath.ofString name).parts
      · exact .inr (.inr (names_plain hroot (eq_false_of_ne_true habsolute) hplain))
      · exact .inr (.inl hplain)

end Harnesses

/-! ## A file of the workspace, and one above it -/

section Sample

def sampleDisk : FileSystem where
  node
    | [] | ["work"] => some .directory
    | ["secret"] => some (.file "kept")
    | _ => none

def sampleConfig : ExecutionConfig Int :=
  ⟨.str "native", .str "local", .null, none, 0, .bool false⟩

/-- What the native harness does with an instruction in `/work`. -/
def sampleRun (instruction : String) :
    List (Event (sig Int) Error) × Except Error (Dict String (Json Int)) :=
  (execute sampleBuiltins sampleHost nativeHarness (.str "t") instruction sampleConfig
    (.str "/work") []).play sampleAnswer

def sampleWrite (name content : String) : List (Event (sig Int) Error) :=
  [⟨.now, .ok 100⟩, ⟨.writeFile (some "/work") name content, .ok name⟩, ⟨.now, .ok 100⟩,
    ⟨.now, .ok 100⟩]

theorem plays_sampleRun {instruction : String} {h : List (Event (sig Int) Error)}
    (hrun : (sampleRun instruction).1 = h) :
    (execute sampleBuiltins sampleHost nativeHarness (.str "t") instruction sampleConfig
      (.str "/work") []).Plays h (sampleRun instruction).2 := by
  subst hrun
  unfold sampleRun
  exact Proc.plays_play (S := sig Int) sampleAnswer _

theorem serves_sampleWrite {name content : String} {place : Place}
    (hplace : sampleDisk.follow [] (outPath [] (some "/work") name) = some place) :
    Serves [] sampleDisk (sampleWrite name content) [place] (sampleDisk.put place content) := by
  apply Serves.now
  apply Serves.opened content _ hplace (sampleDisk.node_put place content)
    (sampleDisk.grows_put place content) (fun _ _ => rfl)
  exact .now _ (.now _ .nil)

theorem native_contained_out :
    (((∀ place ∈ [["work", "out.txt"]], ∃ workspace,
        workspaceOf (.str "/work" : Json Int) = .ok workspace ∧
          InWorkspace [] sampleDisk workspace place) ∧
      (NamesOutside [] sampleDisk "create_file:out.txt:hi" (.str "/work" : Json Int) →
        Untouched (sampleWrite "out.txt" "hi"))) ↔
        ¬(Admits sampleBuiltins sampleHost nativeHarness sampleConfig [] ∧
          NamesOutside [] sampleDisk "create_file:out.txt:hi" (.str "/work" : Json Int))) ∧
      ∀ workspace root name, sampleDisk.follow [] (workspaceRoot [] workspace) = some root →
        (PurePath.ofString name).absolute = true ∨
          ¬sampleDisk.Plain root (PurePath.ofString name).parts ∨
          ∃ place, sampleDisk.follow [] (outPath [] workspace name) = some place ∧
            InWorkspace [] sampleDisk workspace place :=
  native_contained (plays_sampleRun rfl) (serves_sampleWrite (by decide +kernel))

/-- An instruction whose name leads up out of the workspace overwrites the file beside it. -/
theorem native_escapes :
    ¬∀ (a : HarnessAdapter) (instruction : String) (config : ExecutionConfig Int)
      (workspacePath taskId : Json Int) (required : List HarnessCapability) (cwd : Place)
      (fs fs' : FileSystem) (h : List (Event (sig Int) Error))
      (r : Except Error (Dict String (Json Int))) (written : List Place),
      (execute sampleBuiltins sampleHost a taskId instruction config workspacePath required).Plays
        h r →
      Serves cwd fs h written fs' →
      (∀ place ∈ written, ∃ workspace, workspaceOf workspacePath = .ok workspace ∧
        InWorkspace cwd fs workspace place) ∧
      (NamesOutside cwd fs instruction workspacePath → Untouched h) := by
  intro h
  have hserved : Serves [] sampleDisk (sampleWrite "../secret" "x") [["secret"]]
      (sampleDisk.put ["secret"] "x") := serves_sampleWrite (by decide +kernel)
  have hcontained := h nativeHarness "create_file:../secret:x" sampleConfig (.str "/work")
    (.str "t") [] [] sampleDisk _ _ _ _ (plays_sampleRun rfl) hserved
  obtain ⟨workspace, hworkspace, root, hroot, hprefixed⟩ :=
    hcontained.1 ["secret"] List.mem_cons_self
  obtain rfl : some "/work" = workspace := by
    simpa [workspaceOf, Json.truthy, Json.text] using hworkspace
  obtain rfl : ["work"] = root := by
    have hwork : sampleDisk.follow [] (workspaceRoot [] (some "/work")) = some ["work"] := by
      decide +kernel
    exact Option.some.inj (hwork.symm.trans hroot)
  exact absurd hprefixed (by decide)

end Sample

end SubagentBridge.Worker
