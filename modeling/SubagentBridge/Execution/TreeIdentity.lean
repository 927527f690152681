import SubagentBridge.Execution.Checkout
import SubagentBridge.Library.Dict
import SubagentBridge.Library.Pieces
import SubagentBridge.Qa.Adjudication
import Mathlib.Data.List.Sort
import Mathlib.Data.Set.Function

/-! The identity of a workspace that `git` says nothing about: the digest of its files. -/

namespace SubagentBridge.Execution

open Library Domain Qa

/-- A character of a file name: one of Unicode's, or what stands for a byte that is not UTF-8. -/
inductive NameChar
  | char (c : Char)
  | stray (b : UInt8)
  deriving DecidableEq

/-- `ord`; a stray byte is a lone surrogate. -/
def NameChar.point : NameChar → Nat
  | .char c => c.toNat
  | .stray b => 0xDC00 + b.toNat

abbrev Name := List NameChar

def Name.of (s : String) : Name := s.toList.map .char

/-- `s.encode("utf-8")`, which raises for a surrogate. -/
def Name.encode : Name → Option (List UInt8)
  | [] => some []
  | .char c :: s => (Name.encode s).map (String.utf8EncodeChar c ++ ·)
  | .stray _ :: _ => none

/-- What stands at a path; a file that cannot be read has no content. -/
inductive Entry
  | dir
  | file (content : Option (List UInt8))
  | link (toFile : Bool)
  deriving DecidableEq

structure Workspace where
  root : List Name
  entries : Dict (List Name) Entry
  nodup : entries.keys.Nodup
  names : ∀ path ∈ entries.keys, path ≠ [] ∧ ∀ name ∈ path, name ≠ [] ∧ .char '/' ∉ name
  parents : ∀ path ∈ entries.keys, 1 < path.length → entries.get? path.dropLast = some .dir

def notAfter : List Name → List Name → Bool
  | [], _ => true
  | _ :: _, [] => false
  | a :: as, b :: bs =>
    if a = b then notAfter as bs else a.map NameChar.point < b.map NameChar.point

/-- `str(p.relative_to(workspace_path))` -/
def relativeName (path : List Name) : Name := [.char '/'].intercalate path

namespace Workspace

variable (ws : Workspace)

/-- `sorted(workspace_path.rglob("*"))` -/
def listing : List (List Name × Entry) := ws.entries.insertionSort fun a b => notAfter a.1 b.1

/-- The loop, on what the hasher has been given; an exception over a name ends it. -/
def absorb (hashed : List UInt8) : List (List Name × Entry) → List UInt8
  | [] => hashed
  | (path, .file content) :: rest =>
    if Name.of ".git" ∈ ws.root ++ path then absorb hashed rest
    else match (relativeName path).encode with
      | none => hashed
      | some name => match content with
        | none => absorb (hashed ++ name) rest
        | some bytes => absorb (hashed ++ name ++ bytes.take 65536) rest
  | (_, .dir) :: rest | (_, .link _) :: rest => absorb hashed rest

def hashed : List UInt8 := ws.absorb [] ws.listing

/-- The fallback of `resolve_tree_sha`. -/
def directoryDigest (sha256 : List UInt8 → String) : String := sha256 ws.hashed

/-! ## What the fallback sees -/

def fileOf (p : List Name × Entry) : Option (List Name × List UInt8) :=
  match p.2 with
  | .file content => some (p.1, content.getD [])
  | _ => none

def SameFiles (ws ws' : Workspace) : Prop :=
  ∀ f, f ∈ ws.entries.filterMap fileOf ↔ f ∈ ws'.entries.filterMap fileOf

/-- The files outside `.git`, in the order of their paths. -/
def tracked : List (List Name × List UInt8) :=
  (ws.listing.filterMap fileOf).filter fun f => Name.of ".git" ∉ ws.root ++ f.1

/-- The names and the first 64 KiB of files, up to the first name that is not UTF-8. -/
def heads : List (List Name × List UInt8) → List (List UInt8 × List UInt8)
  | [] => []
  | f :: fs => match (relativeName f.1).encode with
    | none => []
    | some name => (name, f.2.take 65536) :: heads fs

/-- What is seen of the two workspaces is the same: where their files differ, they lie in `.git` or
after a name that is not UTF-8, or the contents differ after 64 KiB. -/
def Alike (ws ws' : Workspace) : Prop := heads ws.tracked = heads ws'.tracked

/-- Names and contents, one after the other, spell the same with other boundaries. -/
def RunTogether (ws ws' : Workspace) : Prop :=
  Shifted (piecesOf (heads ws.tracked)) (piecesOf (heads ws'.tracked))

theorem absorb_eq (hashed : List UInt8) (l : List (List Name × Entry)) :
    ws.absorb hashed l = hashed ++ (piecesOf (heads ((l.filterMap fileOf).filter fun f =>
      Name.of ".git" ∉ ws.root ++ f.1))).flatten := by
  induction l generalizing hashed with
  | nil => exact (List.append_nil hashed).symm
  | cons p l ih =>
    obtain ⟨path, e⟩ := p
    cases e with
    | dir | link =>
      rw [absorb]
      exact ih hashed
    | file content =>
      have hfile : fileOf (path, .file content) = some (path, content.getD []) := rfl
      rw [List.filterMap_cons_some hfile, List.filter_cons, absorb]
      by_cases hgit : Name.of ".git" ∈ ws.root ++ path
      · rw [if_pos hgit, if_neg (by rw [decide_eq_true_eq]; exact not_not_intro hgit)]
        exact ih hashed
      · rw [if_neg hgit, if_pos (decide_eq_true hgit), heads]
        cases (relativeName path).encode with
        | none => exact (List.append_nil hashed).symm
        | some name =>
          cases content with
          | none => simp [ih, piecesOf_cons]
          | some bytes => simp [ih, piecesOf_cons]

theorem hashed_eq : ws.hashed = (piecesOf (heads ws.tracked)).flatten := by
  rw [hashed, absorb_eq, List.nil_append, tracked]

theorem encode_ne_nil {s : Name} {bytes : List UInt8} (hs : s ≠ []) (h : s.encode = some bytes) :
    bytes ≠ [] := by
  cases s with
  | nil => exact absurd rfl hs
  | cons c s =>
    cases c with
    | stray b => cases h
    | char c =>
      obtain ⟨rest, -, rfl⟩ := Option.map_eq_some_iff.mp h
      intro hnil
      have hlen := congrArg List.length (List.append_eq_nil_iff.mp hnil).1
      rw [String.length_utf8EncodeChar] at hlen
      exact absurd hlen (Char.utf8Size_pos c).ne'

theorem relativeName_ne_nil {path : List Name} (hpath : path ≠ []) (hn : ∀ name ∈ path, name ≠ []) :
    relativeName path ≠ [] := by
  cases path with
  | nil => exact absurd rfl hpath
  | cons name path =>
    have hname := hn name List.mem_cons_self
    cases path with
    | nil => simpa [relativeName] using hname
    | cons next path => simp [relativeName, List.intercalate, hname]

theorem heads_ne_nil {l : List (List Name × List UInt8)} (hl : ∀ f ∈ l, relativeName f.1 ≠ []) :
    ∀ f ∈ heads l, f.1 ≠ [] := by
  induction l with
  | nil => simp [heads]
  | cons f l ih =>
    rw [heads]
    split
    next => simp
    next name hname =>
      rintro g hg
      obtain rfl | hg := List.mem_cons.mp hg
      · exact encode_ne_nil (hl f List.mem_cons_self) hname
      · exact ih (fun f hf => hl f (List.mem_cons_of_mem _ hf)) g hg

theorem name_of_tracked {f : List Name × List UInt8} (h : f ∈ ws.tracked) :
    relativeName f.1 ≠ [] := by
  obtain ⟨p, hp, hf⟩ := List.mem_filterMap.mp (List.mem_filter.mp h).1
  have hkey : p.1 ∈ ws.entries.keys :=
    List.mem_map_of_mem (f := Prod.fst) ((List.mem_insertionSort _).mp hp)
  have hname : f.1 = p.1 := by
    rw [fileOf] at hf
    split at hf
    next => cases hf; rfl
    next => cases hf
  obtain ⟨hpath, hnames⟩ := ws.names p.1 hkey
  rw [hname]
  exact relativeName_ne_nil hpath fun name hn => (hnames name hn).1

theorem hashed_eq_iff (ws ws' : Workspace) :
    ws.hashed = ws'.hashed ↔ ws.Alike ws' ∨ ws.RunTogether ws' := by
  rw [hashed_eq, hashed_eq]
  constructor
  · exact parts_of_flatten (heads_ne_nil fun f => ws.name_of_tracked)
      (heads_ne_nil fun f => ws'.name_of_tracked)
  · rintro (halike | hshift)
    · rw [halike]
    · exact hshift.flatten_eq

end Workspace

/-- `git` gives no tree: it fails, or prints nothing. -/
def NoTree (revParse : GitAnswer String) : Prop := ∀ out, revParse = some (0, out) → strip out = ""

/-- The values differ, and the gate never verifies the second tree for the first. -/
structure ToldApart (tree tree' : String) : Prop where
  values : tree ≠ tree'
  gate : ∀ (gate : QaEvidenceGate) (receipts : ReceiptIssuerRegistry)
    (identities : IdentityRegistry) (uuid4 : String) (qa : Principal) (evidence : List Evidence)
    (co : QaEvidenceGate.Checkout) (taskId dispatchId : String) (fixRound : Int),
    co.actualTree = tree' → (gate.check receipts identities uuid4 qa evidence co taskId dispatchId
      tree fixRound).1.status ≠ .qaVerified

section Digests

variable {revParse revParse' : GitAnswer String} {tree tree' : String}

theorem toldApart_of_ne (h : tree ≠ tree') : ToldApart tree tree' := by
  refine ⟨h, ?_⟩
  rintro gate receipts identities uuid4 qa evidence co taskId dispatchId fixRound rfl
  rw [QaEvidenceGate.check]
  split
  · simp
  split
  · simp
  rw [if_pos (.inr (.inr h.symm))]
  simp

theorem resolve_noTree (h : NoTree revParse) (digest : String) :
    resolveTreeSha revParse digest = if digest ≠ emptyDigest then digest else zeros 40 := by
  simp only [resolveTreeSha]
  generalize (if digest ≠ emptyDigest then digest else zeros 40) = fallback
  split
  next out => rw [if_neg (not_not_intro (h out rfl))]
  next => rfl

theorem injOn_fallback {sha256 : List UInt8 → String} (hempty : sha256 [] = emptyDigest)
    (hlength : ∀ bytes, (sha256 bytes).length = 64) {texts : Set (List UInt8)}
    (hinj : Set.InjOn sha256 (insert [] texts)) :
    Set.InjOn (fun t => if sha256 t ≠ emptyDigest then sha256 t else zeros 40) texts := by
  have hnil : ∀ t ∈ texts, sha256 t = emptyDigest → t = [] := fun t ht hd =>
    hinj (.inr ht) (.inl rfl) (hd.trans hempty.symm)
  have hzeros : ∀ t, sha256 t ≠ zeros 40 := fun t h => by
    have hlen := hlength t
    rw [h] at hlen
    exact absurd hlen (by decide)
  intro t ht u hu heq
  simp only [ne_eq, ite_not] at heq
  split at heq
  next hd =>
    split at heq
    next hd' => rw [hnil t ht hd, hnil u hu hd']
    next => exact absurd heq.symm (hzeros u)
  next =>
    split at heq
    next => exact absurd heq (hzeros t)
    next => exact hinj (.inr ht) (.inr hu) heq

end Digests

/-! ## Workspaces of one file -/

abbrev oneFile (name : String) (content : List UInt8) : Dict (List Name) Entry :=
  [([.of name], .file (some content))]

section OneFile

variable {name : String} {content : List UInt8} {path : List Name}

theorem eq_of_oneFile (h : path ∈ (oneFile name content).keys) : path = [.of name] :=
  List.mem_singleton.mp h

theorem names_oneFile (hname : Name.of name ≠ [] ∧ .char '/' ∉ Name.of name)
    (h : path ∈ (oneFile name content).keys) :
    path ≠ [] ∧ ∀ n ∈ path, n ≠ [] ∧ .char '/' ∉ n := by
  rw [eq_of_oneFile h]
  exact ⟨List.cons_ne_nil _ _, fun n hn => List.mem_singleton.mp hn ▸ hname⟩

theorem parents_oneFile (h : path ∈ (oneFile name content).keys) (hlong : 1 < path.length) :
    (oneFile name content).get? path.dropLast = some .dir := by
  rw [eq_of_oneFile h] at hlong
  exact absurd hlong (Nat.lt_irrefl 1)

end OneFile

def single (name : String) (content : List UInt8)
    (hname : Name.of name ≠ [] ∧ .char '/' ∉ Name.of name) : Workspace where
  root := [.of "workspace"]
  entries := oneFile name content
  nodup := List.nodup_singleton _
  names _ h := names_oneFile hname h
  parents _ h hlong := parents_oneFile h hlong

theorem name_a : Name.of "a" ≠ [] ∧ .char '/' ∉ Name.of "a" := by decide

theorem name_ab : Name.of "ab" ≠ [] ∧ .char '/' ∉ Name.of "ab" := by decide

def sampleSha (bytes : List UInt8) : String :=
  if bytes = [97, 98] then "fb8e20fc2e4c3f248c60c39bd652f3c1347298bb977b8b4d5903b85055620603"
  else if bytes = [97, 99] then "f45de51cdef30991551e41e882dd7b5404799648a0a00753f44fc966e6153fc1"
  else emptyDigest

end SubagentBridge.Execution
