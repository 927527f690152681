import SubagentBridge.Library.Numbers

/-! The harnesses that a worker executes instructions with, and what each of them admits. -/

namespace SubagentBridge.Worker

open Library

inductive Kind
  | attribute | type | value | overflow | key | os | timeoutExpired
  /-- no exception: a command outlives the polls that it is given here -/
  | cutShort
  deriving DecidableEq

structure Error where
  kind : Kind
  text : String
  deriving DecidableEq

def kindOf : NumberError → Kind
  | .type => .type
  | .value => .value
  | .overflow => .overflow

theorem kindOf_ne_cutShort (e : NumberError) : kindOf e ≠ .cutShort := by
  cases e <;> decide

def ofNumber {α : Type} (x : Except NumberError α) : Except Error α :=
  x.mapError fun
    | .type => ⟨.type, "unsupported operand type"⟩
    | .value => ⟨.value, "could not convert string to float"⟩
    | .overflow => ⟨.overflow, "int too large to convert to float"⟩

inductive HarnessCapability
  | streaming | toolCalling | structuredOutput | thinkingBudget | interruptible | localExecution
  deriving DecidableEq

def HarnessCapability.value : HarnessCapability → String
  | .streaming => "STREAMING"
  | .toolCalling => "TOOL_CALLING"
  | .structuredOutput => "STRUCTURED_OUTPUT"
  | .thinkingBudget => "THINKING_BUDGET"
  | .interruptible => "INTERRUPTIBLE"
  | .localExecution => "LOCAL_EXECUTION"

def HarnessCapability.all : List HarnessCapability :=
  [.interruptible, .localExecution, .streaming, .structuredOutput, .thinkingBudget, .toolCalling]

def HarnessCapability.ofValue (s : String) : Option HarnessCapability :=
  all.find? (·.value = s)

inductive Execution
  /-- files of the workspace, in process -/
  | native
  /-- a result that only says so, from a host that is always there, or may be missing -/
  | reporting (title : String) (hosted : Bool)
  /-- no transport yet -/
  | unwired
  deriving DecidableEq

structure HarnessAdapter where
  name : String
  capabilities : List HarnessCapability
  models : List String
  providers : List String
  defaultModel : String
  defaultProvider : String
  execution : Execution
  deriving DecidableEq

def nativeHarness : HarnessAdapter where
  name := "native"
  capabilities := [.localExecution, .toolCalling, .interruptible]
  models := ["native", "local-system"]
  providers := ["local"]
  defaultModel := "native"
  defaultProvider := "local"
  execution := .native

def antigravityHarness : HarnessAdapter where
  name := "antigravity"
  capabilities := [.streaming, .toolCalling, .structuredOutput, .thinkingBudget, .interruptible]
  models := ["gemini-2.5-pro", "gemini-2.5-flash", "gemini-1.5-pro", "gemini-1.5-flash"]
  providers := ["google"]
  defaultModel := "gemini-2.5-pro"
  defaultProvider := "google"
  execution := .reporting "Antigravity" true

def codexHarness : HarnessAdapter where
  name := "codex"
  capabilities := [.streaming, .toolCalling, .structuredOutput, .thinkingBudget, .interruptible]
  models := ["o3-mini", "gpt-4o", "gpt-4o-mini", "gpt-4.5-preview"]
  providers := ["openai"]
  defaultModel := "o3-mini"
  defaultProvider := "openai"
  execution := .reporting "Codex" true

def claudeCodeHarness : HarnessAdapter where
  name := "claude_code"
  capabilities := [.streaming, .toolCalling, .thinkingBudget, .interruptible]
  models := ["claude-3-7-sonnet", "claude-3-5-sonnet", "claude-3-5-haiku"]
  providers := ["anthropic"]
  defaultModel := "claude-3-7-sonnet"
  defaultProvider := "anthropic"
  execution := .reporting "Claude Code" true

def piHarness : HarnessAdapter where
  name := "pi"
  capabilities := [.localExecution, .toolCalling, .interruptible]
  models := ["pi-embedded", "pi-mini"]
  providers := ["local", "pi"]
  defaultModel := "pi-embedded"
  defaultProvider := "local"
  execution := .reporting "Pi" false

def nineRouterHarness : HarnessAdapter where
  name := "9router"
  capabilities := [.structuredOutput, .thinkingBudget, .toolCalling, .interruptible]
  models := ["openai/gpt-4o", "openai/o3-mini", "anthropic/claude-3-7-sonnet",
    "google/gemini-2.5-pro"]
  providers := ["9router", "openai", "anthropic", "google"]
  defaultModel := "openai/gpt-4o"
  defaultProvider := "9router"
  execution := .unwired

def registry : List HarnessAdapter :=
  [nativeHarness, antigravityHarness, codexHarness, claudeCodeHarness, piHarness,
    nineRouterHarness]

/-- Where a worker runs: the command-line tools and API keys it finds, by adapter. -/
structure Host where
  cliPath : HarnessAdapter → Option String
  hasKey : HarnessAdapter → Bool
  diagnostic : HarnessAdapter → String

def Host.available (host : Host) (a : HarnessAdapter) : Bool :=
  match a.execution with
  | .native | .reporting _ false => true
  | .reporting _ true => (host.cliPath a).isSome || host.hasKey a
  | .unwired => false

section Validation

variable {F : Type} [FloatArith F] (B : Builtins F) (host : Host)

def getHarness (name : String) : Except Error HarnessAdapter :=
  let slug := if lower name = "ninerouter".toList then "9router".toList else lower name
  match registry.find? (·.name.toList = slug) with
  | some a => .ok a
  | none => .error ⟨.key, "Unsupported harness " ++ B.repr name ++
      ". Available: [9router, antigravity, claude_code, codex, native, pi]"⟩

/-- What an instruction is executed with; the values of a payload have any type. -/
structure ExecutionConfig (F : Type) where
  model : Json F
  provider : Json F
  effort : Json F
  budgetTokens : Option Int
  tokensConsumed : Int
  fallbackToNative : Json F

/-- `validate_model` and `validate_provider`, which lower what they are given. -/
def supports (v : Json F) (supported : List String) : Except Error Bool :=
  if v.truthy = false then .ok true
  else match v.text with
  | none => .error ⟨.attribute, "object has no attribute 'lower'"⟩
  | some s => .ok (lower s ∈ supported.map lower)

def missingNames (required : List HarnessCapability) (a : HarnessAdapter) : List String :=
  (HarnessCapability.all.filter fun c => c ∈ required ∧ c ∉ a.capabilities).map (·.value)

omit [FloatArith F] in
def quoteList (xs : List String) : String :=
  "[" ++ ", ".intercalate (xs.map B.repr) ++ "]"

def validateExecutionConfig (a : HarnessAdapter) (config : ExecutionConfig F)
    (required : List HarnessCapability) : Except Error (Option (String × String)) :=
  if host.available a = false then
    .ok (some ("UNSUPPORTED_HOST", a.name ++ "Unavailable: " ++ host.diagnostic a))
  else if missingNames required a ≠ [] then
    .ok (some ("DENIED", "CapabilityMismatch: harness " ++ B.repr a.name ++
      " does not support [" ++ ", ".intercalate (missingNames required a) ++ "]"))
  else if config.effort.truthy = true ∧ .thinkingBudget ∉ a.capabilities then
    .ok (some ("DENIED", "CapabilityMismatch: harness " ++ B.repr a.name ++
      " does not support THINKING_BUDGET required by effort=" ++ B.quote config.effort))
  else do
    if (← supports config.model a.models) = false then
      return some ("DENIED", "ModelNotSupported: harness " ++ B.repr a.name ++
        " does not support model " ++ B.quote config.model ++ ". Supported models: " ++
        quoteList B a.models)
    else if (← supports config.provider a.providers) = false then
      return some ("DENIED", "ProviderNotSupported: harness " ++ B.repr a.name ++
        " does not support provider " ++ B.quote config.provider ++ ". Supported providers: " ++
        quoteList B a.providers)
    else match config.budgetTokens with
    | some budget =>
      if budget ≤ config.tokensConsumed then
        return some ("DENIED", "BudgetExceeded: worker token budget " ++ toString budget ++
          " exhausted (" ++ toString config.tokensConsumed ++ " consumed)")
      else return none
    | none => return none

end Validation

end SubagentBridge.Worker
