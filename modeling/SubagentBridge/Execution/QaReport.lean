import SubagentBridge.Library.Dict
import SubagentBridge.Library.Text

/-! What the runtime reads off a QA run: the JUnit report, or the output where there is none. -/

namespace SubagentBridge.Execution

open Library

/-- An element of the report.  Of its attributes only integers matter; a text that `int`
refuses has no value. -/
inductive Element
  | node (tag : String) (attrib : Dict String (Option Int)) (children : List Element)

namespace Element

def tag : Element → String
  | .node tag _ _ => tag

def attrib : Element → Dict String (Option Int)
  | .node _ attrib _ => attrib

def children : Element → List Element
  | .node _ _ children => children

mutual

def hasTag (tag : String) : Element → Bool
  | .node t _ children => t = tag || anyTag tag children

def anyTag (tag : String) : List Element → Bool
  | [] => false
  | e :: es => e.hasTag tag || anyTag tag es

end

def count (e : Element) (key : String) : Option Int :=
  match e.attrib.get? key with
  | some n => n
  | none => some 0

def suites (root : Element) : List Element :=
  if root.tag = "testsuite" then [root]
  else match root.children.filter (·.tag = "testsuite") with
    | [] => [root]
    | es => es

def total (root : Element) (key : String) : Option Int :=
  root.suites.foldlM (fun n e => (e.count key).map (n + ·)) 0

end Element

/-- The file that the test runner was asked to write: nothing, something that is no XML, or a
report. -/
inductive JunitFile
  | empty
  | malformed
  | report (root : Element)

structure QaRun where
  exitCode : Int
  junit : JunitFile
  /-- what the run wrote to its standard output; its standard error is not looked at -/
  outputText : String

/-- The zeros among the decimal digits of Unicode; the other nine follow each of them. -/
def zeroDigits : List Nat :=
  [0x30, 0x660, 0x6f0, 0x7c0, 0x966, 0x9e6, 0xa66, 0xae6, 0xb66, 0xbe6, 0xc66, 0xce6, 0xd66,
    0xde6, 0xe50, 0xed0, 0xf20, 0x1040, 0x1090, 0x17e0, 0x1810, 0x1946, 0x19d0, 0x1a80, 0x1a90,
    0x1b50, 0x1bb0, 0x1c40, 0x1c50, 0xa620, 0xa8d0, 0xa900, 0xa9d0, 0xa9f0, 0xaa50, 0xabf0,
    0xff10, 0x104a0, 0x10d30, 0x11066, 0x110f0, 0x11136, 0x111d0, 0x112f0, 0x11450, 0x114d0,
    0x11650, 0x116c0, 0x11730, 0x118e0, 0x11950, 0x11c50, 0x11d50, 0x11da0, 0x16a60, 0x16ac0,
    0x16b50, 0x1d7ce, 0x1d7d8, 0x1d7e2, 0x1d7ec, 0x1d7f6, 0x1e140, 0x1e2f0, 0x1e950, 0x1fbf0]

/-- What `\d` matches, with the value that `int` gives to it. -/
def digitValue (c : Char) : Option Nat :=
  (zeroDigits.find? fun z => z ≤ c.toNat ∧ c.toNat < z + 10).map (c.toNat - ·)

/-- `int` of a text of digits, which it refuses if there are more than 4300 of them. -/
def intOfDigits (digits : List Nat) : Option Nat :=
  if digits.length ≤ 4300 then some (digits.foldl (fun n d => 10 * n + d) 0) else none

def ranHere (cs : List Char) : Option (List Nat) :=
  if "Ran ".toList.isPrefixOf cs then
    let rest := cs.drop 4
    let digits := rest.takeWhile fun c => (digitValue c).isSome
    if digits ≠ [] ∧ " test".toList.isPrefixOf (rest.drop digits.length) then
      some (digits.filterMap digitValue)
    else none
  else none

/-- The digits in the first match of `Ran (\d+) tests?`. -/
def ranTests : List Char → Option (List Nat)
  | [] => none
  | c :: cs => (ranHere (c :: cs)).or (ranTests cs)

def testsCount (outText : String) : Option Nat :=
  match ranTests outText.toList with
  | some digits => intOfDigits digits
  | none => some 0

def hasSkipped (outText : String) : Bool :=
  contains outText "skipped=" || contains outText "SKIPPED" ||
    occursIn "skip".toList (lower outText)

/-- `qa_passed`, of a run that did not raise. -/
def qaPassed (run : QaRun) : Bool :=
  match run.junit with
  | .report root =>
    match root.total "tests", root.total "failures", root.total "errors", root.total "skipped" with
    | some tests, some failures, some errors, some skipped =>
      run.exitCode = 0 ∧ 0 < tests ∧ skipped = 0 ∧ Element.anyTag "skipped" root.children = false ∧
        failures = 0 ∧ errors = 0
    | _, _, _, _ => false
  | .malformed => false
  | .empty =>
    run.exitCode = 0 ∧ 0 < (testsCount run.outputText).getD 0 ∧
      hasSkipped run.outputText = false ∧ contains run.outputText "OK" = true

/-- A report of at least one test, without failure, error or skip. -/
structure Element.Passes (root : Element) : Prop where
  tests : ∃ n, root.total "tests" = some n ∧ 0 < n
  failures : root.total "failures" = some 0
  errors : root.total "errors" = some 0
  skipped : root.total "skipped" = some 0
  noSkipped : Element.anyTag "skipped" root.children = false

/-- An output of a run without report that counts as one that passed. -/
structure PassingText (outText : String) : Prop where
  tests : ∃ n, testsCount outText = some n ∧ 0 < n
  noSkipped : hasSkipped outText = false
  ok : contains outText "OK" = true

/-- A run that exited with 0 and whose report passes; where the report is empty, its output. -/
structure Qualifies (run : QaRun) : Prop where
  exitCode : run.exitCode = 0
  wellFormed : run.junit ≠ .malformed
  report : ∀ root, run.junit = .report root → root.Passes
  text : run.junit = .empty → PassingText run.outputText

/-- A run that counts as passed although its output says that a test failed. -/
structure Misreported (run : QaRun) : Prop where
  exitCode : run.exitCode = 0
  junit : run.junit = .empty
  text : PassingText run.outputText
  failed : contains run.outputText "FAILED" = true

/-- At least one test, and no failure, error or skip: so says the report, or the output. -/
structure TestsPassed (run : QaRun) : Prop extends Qualifies run where
  noFailure : run.junit = .empty → contains run.outputText "FAILED" = false

theorem passed_iff {run : QaRun} : TestsPassed run ↔ Qualifies run ∧ ¬ Misreported run := by
  constructor
  · refine fun h => ⟨h.toQualifies, fun hm => ?_⟩
    cases (h.noFailure hm.junit).symm.trans hm.failed
  · rintro ⟨h, hm⟩
    refine ⟨h, fun hempty => Bool.eq_false_iff.mpr fun hfailed => ?_⟩
    exact hm ⟨h.exitCode, hempty, h.text hempty, hfailed⟩

theorem qualifies_of_passed {run : QaRun} (h : qaPassed run = true) : Qualifies run := by
  rw [qaPassed] at h
  split at h
  next root hjunit =>
    split at h
    next tests failures errors skipped htests hfailures herrors hskipped =>
      obtain ⟨hexit, hpos, rfl, htag, rfl, rfl⟩ := of_decide_eq_true h
      refine ⟨hexit, by simp [hjunit], fun root' hroot => ?_,
        fun hempty => by simp [hjunit] at hempty⟩
      rw [hjunit] at hroot
      cases hroot
      exact ⟨⟨tests, htests, hpos⟩, hfailures, herrors, hskipped, htag⟩
    next => cases h
  next => cases h
  next hjunit =>
    obtain ⟨hexit, hran, hskip, hok⟩ := of_decide_eq_true h
    refine ⟨hexit, by simp [hjunit], fun root hroot => by simp [hjunit] at hroot, fun _ => ?_⟩
    refine ⟨?_, hskip, hok⟩
    cases hn : testsCount run.outputText with
    | none => simp [hn] at hran
    | some n => exact ⟨n, rfl, by simpa [hn] using hran⟩

end SubagentBridge.Execution
