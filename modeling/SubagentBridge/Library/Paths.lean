import Mathlib.Data.List.Infix
import SubagentBridge.Library.Text

/-! Python's `PurePosixPath`, as far as the modelled code uses it. -/

namespace Library

structure PurePath where
  absolute : Bool
  parts : List String
  deriving DecidableEq

namespace PurePath

/-- `Path(s)`: repeated separators and `.` components go, `..` stays. -/
def ofString (s : String) : PurePath :=
  ⟨s.toList.head? = some '/',
    ((splitOn '/' s.toList).map String.ofList).filter fun part => part ≠ "" ∧ part ≠ "."⟩

def toString (p : PurePath) : String :=
  match p.absolute, p.parts with
  | true, parts => "/" ++ "/".intercalate parts
  | false, [] => "."
  | false, parts => "/".intercalate parts

def join (p : PurePath) (s : String) : PurePath :=
  if (ofString s).absolute then ofString s else ⟨p.absolute, p.parts ++ (ofString s).parts⟩

def below (base p : PurePath) : List PurePath :=
  ((p.parts.inits.map fun parts => ⟨p.absolute, parts⟩).reverse).takeWhile fun q =>
    q ≠ base ∧ q.parts ≠ []

def isRelativeTo (p base : PurePath) : Bool :=
  p.absolute = base.absolute && base.parts.isPrefixOf p.parts

theorem mem_below {base p : PurePath} {front : List String} (hne : front ≠ [])
    (hfront : front <+: p.parts)
    (hbase : ∀ parts, front <+: parts → parts <+: p.parts →
      (⟨p.absolute, parts⟩ : PurePath) ≠ base) :
    ⟨p.absolute, front⟩ ∈ below base p := by
  obtain ⟨back, hparts⟩ := hfront
  obtain ⟨init, last, rfl⟩ := (List.eq_nil_or_concat' front).resolve_left hne
  have hinits : p.parts.inits = init.inits ++
      (init ++ [last]) :: back.inits.tail.map (init ++ [last] ++ ·) := by
    rw [← hparts, List.inits_append, List.inits_append]
    simp
  have hpass (parts : List String) (h : init ++ [last] <+: parts) (hp : parts <+: p.parts) :
      (⟨p.absolute, parts⟩ : PurePath) ≠ base ∧ parts ≠ [] :=
    ⟨hbase parts h hp, by rintro rfl; simp at h⟩
  have hbeyond : ∀ q ∈ ((back.inits.tail.map (init ++ [last] ++ ·)).map fun parts =>
      (⟨p.absolute, parts⟩ : PurePath)).reverse, q ≠ base ∧ q.parts ≠ [] := by
    intro q hq
    obtain ⟨parts, hmem, rfl⟩ := List.mem_map.mp (List.mem_reverse.mp hq)
    obtain ⟨more, hmore, rfl⟩ := List.mem_map.mp hmem
    refine hpass _ (List.prefix_append _ _) ?_
    rw [← hparts, List.prefix_append_right_inj]
    exact (List.mem_inits _ _).mp (List.mem_of_mem_tail hmore)
  rw [below, hinits, List.map_append, List.map_cons, List.reverse_append, List.reverse_cons,
    List.append_assoc, List.takeWhile_append_of_pos fun q hq => decide_eq_true (hbeyond q hq)]
  refine List.mem_append_right _ ?_
  rw [List.singleton_append, List.takeWhile_cons, if_pos]
  · exact List.mem_cons_self
  · exact decide_eq_true (hpass _ (List.prefix_refl _) (hparts ▸ List.prefix_append _ _))

end PurePath

end Library
