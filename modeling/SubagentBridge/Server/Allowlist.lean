import SubagentBridge.Server.CommandGate

/-! What a command of the allowlist may run, and which paths it may name. -/

namespace SubagentBridge.Server

open Library

variable (host : Host)

namespace Host

/-- The server's own interpreter, or what lies where Python is installed. -/
inductive Installed (exe : PurePath) : Prop
  | own (h : host.resolved host.executable = some exe)
  | inPrefix {root : PurePath} (h : host.resolved host.sysPrefix = some root)
      (hin : hasParent exe root = true)
  | inBasePrefix {root : PurePath} (h : host.resolved host.basePrefix = some root)
      (hin : hasParent exe root = true)

def Named (exe : PurePath) : Prop :=
  ∃ name, exe.parts.getLast? = some name ∧ lower name ∈ pythonNames

/-- `path`, taken from the workspace, resolves to something in `root`. -/
def Inside (workspace path : String) (root : PurePath) : Prop :=
  ∃ p, host.resolved ((PurePath.ofString workspace).join path).toString = some p ∧
    p.isRelativeTo root = true

def InWorkspace (workspace path : String) : Prop :=
  host.Inside workspace path (.ofString workspace)

def InTemporary (workspace path : String) : Prop :=
  ∃ temp, host.resolved host.tempDir = some temp ∧ host.Inside workspace path temp

def isTestRunner (name : String) : Bool := name = "pytest" || name = "unittest"

/-- The options whose value the check looks at. -/
def outputOptions : List String := ["--junitxml", "--basetemp"]

/-- An option with the value attached to it. -/
structure Attached (rest : List String) (option value : String) : Prop where
  given : option ++ "=" ++ value ∈ rest
  dashed : startsWith option "-" = true
  cut : '=' ∉ option.toList

/-- The command runs an installed interpreter, and each path that the arguments of a test runner
name lies in the workspace; what is written there, by one of the options `outputs`, may also lie in
the temporary directory. For pytest an argument names the file before the first of its tests. -/
structure Confined (outputs : List String) (workspace exe : String) (args : List String) :
    Prop where
  interpreter : ∃ p, host.resolved exe = some p ∧ host.Installed p
  positions : ∀ module rest, args = "-m" :: module :: rest → isTestRunner module = true →
    ∀ path ∈ rest, startsWith path "-" = false → host.InWorkspace workspace path
  files : ∀ rest, args = "-m" :: "pytest" :: rest → ∀ path tests, path ++ "::" ++ tests ∈ rest →
    startsWith (path ++ "::" ++ tests) "-" = false → host.InWorkspace workspace path
  values : ∀ module rest, args = "-m" :: module :: rest → isTestRunner module = true →
    ∀ option value, Attached rest option value → host.InWorkspace workspace value ∨
      option ∈ outputs ∧ host.InTemporary workspace value

/-- What the check does not see: an interpreter of this name that is not installed, the value of
another option, and the file of a test, where they lead outside. -/
inductive Strays (outputs : List String) (workspace exe : String) : List String → Prop
  | interpreter {args : List String} {p : PurePath} (hp : host.resolved exe = some p)
      (hname : Named p) (hforeign : ¬ host.Installed p) : Strays outputs workspace exe args
  | option {module option value : String} {rest : List String}
      (hrunner : isTestRunner module = true)
      (h : Attached rest option value) (hother : option ∉ outputOptions)
      (hworkspace : ¬ host.InWorkspace workspace value)
      (htemp : option ∈ outputs → ¬ host.InTemporary workspace value) :
      Strays outputs workspace exe ("-m" :: module :: rest)
  | file {path tests : String} {rest : List String} (h : path ++ "::" ++ tests ∈ rest)
      (hplain : startsWith (path ++ "::" ++ tests) "-" = false)
      (hworkspace : ¬ host.InWorkspace workspace path) :
      Strays outputs workspace exe ("-m" :: "pytest" :: rest)

variable {host}

theorem isPythonExe_cases {exe : String} (h : host.isPythonExe exe = true) :
    ∃ p, host.resolved exe = some p ∧ (host.Installed p ∨ Named p) := by
  unfold isPythonExe at h
  cases hexe : host.resolved exe with
  | none => simp [hexe] at h
  | some p =>
    cases hprefixed : host.resolved host.sysPrefix with
    | none => simp [hexe, hprefixed] at h
    | some sysPrefix =>
      cases hbase : host.resolved host.basePrefix with
      | none => simp [hexe, hprefixed, hbase] at h
      | some basePrefix =>
        cases hown : host.resolved host.executable with
        | none => simp [hexe, hprefixed, hbase, hown] at h
        | some executable =>
          simp only [hexe, hprefixed, hbase, hown, Option.bind_some, Option.map_some,
            Option.getD_some, Bool.or_eq_true, decide_eq_true_eq] at h
          refine ⟨p, rfl, ?_⟩
          rcases h with ((rfl | hin) | hin) | hnamed
          · exact .inl (.own hown)
          · exact .inl (.inPrefix hprefixed hin)
          · exact .inl (.inBasePrefix hbase hin)
          · obtain ⟨name, hlast, hname⟩ := (Option.any_eq_true _ _).mp hnamed
            exact .inr ⟨name, hlast, by simpa using hname⟩

theorem staysIn_inside {workspace path : String} {roots : List PurePath}
    (h : host.staysIn workspace path roots = true) :
    ∃ root ∈ roots, host.Inside workspace path root := by
  unfold staysIn at h
  cases hp : host.resolved ((PurePath.ofString workspace).join path).toString with
  | none => simp [hp] at h
  | some p =>
    simp only [hp, Option.any_some, List.any_eq_true] at h
    obtain ⟨root, hroot, hin⟩ := h
    exact ⟨root, hroot, p, hp, hin⟩

theorem allowsTestArg_positional {workspace arg : String}
    (h : host.allowsTestArg workspace arg = true) (hplain : startsWith arg "-" = false) :
    host.InWorkspace workspace arg := by
  unfold allowsTestArg at h
  split at h
  next => exact absurd h (by decide)
  next =>
    rw [if_neg (by simp [hplain])] at h
    obtain ⟨root, hroot, hinside⟩ := staysIn_inside h
    rwa [List.mem_singleton.mp hroot] at hinside

theorem afterEquals_option {option value : String} (hname : '=' ∉ option.toList) :
    afterEquals (option ++ "=" ++ value) = value := by
  have hdrop : (option ++ "=" ++ value).toList.dropWhile (· ≠ '=') = '=' :: value.toList := by
    have htext : (option ++ "=" ++ value).toList = option.toList ++ '=' :: value.toList := by simp
    have hbefore : ∀ c ∈ option.toList, decide (c ≠ '=') = true := by
      intro c hc
      simpa using fun heq : c = '=' => hname (heq ▸ hc)
    rw [htext, List.dropWhile_append_of_pos hbefore]
    exact List.dropWhile_cons_of_neg (by simp)
  rw [afterEquals, hdrop]
  simp

theorem allowsTestArg_output {workspace option value : String}
    (h : host.allowsTestArg workspace (option ++ "=" ++ value) = true)
    (hout : option ∈ outputOptions) :
    host.InWorkspace workspace value ∨ host.InTemporary workspace value := by
  have hname : '=' ∉ option.toList := by
    have hall : ∀ o ∈ outputOptions, '=' ∉ o.toList := by decide
    exact hall option hout
  have hstart : ∀ start, startsWith (option ++ "=" ++ value) start =
      start.toList.isPrefixOf (option.toList ++ '=' :: value.toList) := by
    intro start
    simp [startsWith]
  have hdash : startsWith (option ++ "=" ++ value) "-" = true := by
    rw [hstart]
    simp only [outputOptions, List.mem_cons, List.not_mem_nil, or_false] at hout
    rcases hout with rfl | rfl <;> rfl
  have hsafe : ["--import-mode", "-o", "--override-ini"].any
      (startsWith (option ++ "=" ++ value) ·) = false := by
    simp only [hstart]
    simp only [outputOptions, List.mem_cons, List.not_mem_nil, or_false] at hout
    rcases hout with rfl | rfl <;> rfl
  have houtput : (startsWith (option ++ "=" ++ value) "--junitxml=" ||
      startsWith (option ++ "=" ++ value) "--basetemp=") = true := by
    simp only [hstart]
    simp only [outputOptions, List.mem_cons, List.not_mem_nil, or_false] at hout
    rcases hout with rfl | rfl <;> rfl
  unfold allowsTestArg at h
  split at h
  next => exact absurd h (by decide)
  next =>
    rw [if_neg (by rw [hsafe]; decide), afterEquals_option hname] at h
    cases htemp : host.resolved host.tempDir with
    | none => simp [htemp] at h
    | some temp =>
      simp only [htemp, Option.any_some] at h
      obtain ⟨root, hroot, hinside⟩ := staysIn_inside h
      simp only [List.mem_cons, List.not_mem_nil, or_false] at hroot
      rcases hroot with rfl | rfl
      · exact .inl hinside
      · exact .inr ⟨root, htemp, hinside⟩

theorem allowed_testArgs {workspace exe module : String} {rest : List String}
    (h : host.isTrustedAllowlistedCommand (exe :: "-m" :: module :: rest) workspace = true)
    (hmodule : isTestRunner module = true) :
    ∀ arg ∈ rest, host.allowsTestArg workspace arg = true := by
  simp only [isTestRunner, Bool.or_eq_true, decide_eq_true_eq] at hmodule
  rcases hmodule with rfl | rfl
  · simpa [isTrustedAllowlistedCommand] using (Bool.and_eq_true_iff.mp h).2
  · simpa [isTrustedAllowlistedCommand] using (Bool.and_eq_true_iff.mp h).2

def plainHost : Host where
  cwd := "/srv"
  resolve := fun s => some (if startsWith s "/" then s else "/srv/" ++ s)
  executable := "/usr/bin/python3"
  sysPrefix := "/usr"
  basePrefix := "/usr"
  tempDir := "/tmp"
  parse := fun _ => none
  sha256 := id
  repr := id

end Host

end SubagentBridge.Server
