import SubagentBridge.Library.Fallible
import SubagentBridge.Storage.AuditLedgerLaws

/-! What the audit ledger keeps of a payload: nothing of the values under private keys. -/

namespace SubagentBridge.AuditLedger

open Library

variable {F : Type}

/-- The key is one of the private keys, in any letter case, and with dashes for underscores. -/
def Spells (key base : String) : Prop :=
  List.Forall₂ (fun c b => c.toLower = b ∨ c = '-' ∧ b = '_') key.toList base.toList

mutual

def publicPart : Value F → Value F
  | .mapping items => .mapping (publicItems items)
  | .list xs => .list (publicElems xs)
  | v => v

def publicElems : List (Value F) → List (Value F)
  | [] => []
  | x :: xs => publicPart x :: publicElems xs

def publicItems : List (Option String × Value F) → List (Option String × Value F)
  | [] => []
  | (key, item) :: items =>
    (key, if key.any isPrivate then .none else publicPart item) :: publicItems items

end

mutual

theorem scrub_publicPart : ∀ v : Value F, scrub (publicPart v) = scrub v
  | .none | .bool _ | .int _ | .float _ | .str _ | .other => by simp only [publicPart]
  | .list xs => by rw [publicPart, scrub, scrub, scrub_publicElems xs]
  | .mapping items => by rw [publicPart, scrub, scrub, scrub_publicItems items]

theorem scrub_publicElems : ∀ xs : List (Value F), scrubElems (publicElems xs) = scrubElems xs
  | [] => rfl
  | x :: xs => by
    rw [publicElems, scrubElems, scrubElems, scrub_publicPart x, scrub_publicElems xs]

theorem scrub_publicItems : ∀ (items : List (Option String × Value F))
    (result : Dict String (Json (Option F))),
    scrubItems result (publicItems items) = scrubItems result items
  | [], _ => rfl
  | (none, _) :: _, _ => by rw [publicItems, scrubItems, scrubItems]
  | (some key, item) :: items, result => by
    have hrest := fun d => scrub_publicItems items d
    rw [publicItems, scrubItems, scrubItems, Option.any_some]
    simp only [hrest]
    by_cases hp : isPrivate key = true
    · simp only [hp, if_true]
    · simp only [hp, Bool.false_eq_true, if_false, scrub_publicPart item]

end

def AgreeInPublic (p q : List (Option String × Value F)) : Prop := publicItems p = publicItems q

variable {p q : List (Option String × Value F)}

theorem AgreeInPublic.scrub (h : AgreeInPublic p q) :
    AuditLedger.scrub (.mapping p) = AuditLedger.scrub (.mapping q) := by
  rw [AuditLedger.scrub, AuditLedger.scrub, ← scrub_publicItems p, ← scrub_publicItems q, h]

theorem AgreeInPublic.scrubPayload (h : AgreeInPublic p q) (stream key kind : String) :
    AuditLedger.scrubPayload stream key kind (.mapping p) =
      AuditLedger.scrubPayload stream key kind (.mapping q) := by
  simp only [AuditLedger.scrubPayload, h.scrub]

theorem lower_char {c b : Char} (hb : b ≠ '-' ∧ b.toNat ≠ 0x212a)
    (h : c.toLower = b ∨ c = '-' ∧ b = '_') :
    (let d := if c.toNat = 0x212a then 'k' else c.toLower; if d = '-' then '_' else d) = b := by
  rcases h with rfl | ⟨rfl, rfl⟩
  · have hc : c.toNat ≠ 0x212a := by
      intro hc
      have hkelvin : c = Char.ofNat 0x212a := by rw [← hc, Char.ofNat_toNat]
      subst hkelvin
      exact hb.2 (by decide)
    simp only [if_neg hc, if_neg hb.1]
  · decide

theorem isPrivate_of_spells {key base : String} (h : Spells key base) (hbase : base ∈ privateKeys) :
    isPrivate key = true := by
  have hchars : ∀ base ∈ privateKeys, ∀ b ∈ base.toList, b ≠ '-' ∧ b.toNat ≠ 0x212a := by decide
  have hsame : (lower key).map (fun c => if c = '-' then '_' else c) = base.toList := by
    have hb := hchars base hbase
    rw [lower, List.map_map]
    rw [Spells] at h
    generalize key.toList = cs, base.toList = bs at h hb
    induction h with
    | nil => rfl
    | cons hcb _ ih =>
      rw [List.forall_mem_cons] at hb
      rw [List.map_cons, ih hb.2]
      exact congrArg (· :: _) (lower_char hb.1 hcb)
  rw [isPrivate, hsame, String.ofList_toList]
  simpa using hbase

/-! ## Replays -/

variable {sha : String → String} [FloatText F] {stream key kind : String} {db db' : Db}
variable {data : Json F} {e : AuditEvent F} {created : Bool}

theorem seq_le {n : Nat} {prev tail : String} {rows : List Row}
    (h : (chain sha stream).Links n prev rows tail) : ∀ r ∈ rows, r.seq < n + rows.length := by
  induction h with
  | nil => nofun
  | @cons n prev t r rs hs _ _ ih =>
    have hseq : r.seq = n := hs.1
    refine List.forall_mem_cons.mpr ⟨?_, fun r' hr' => ?_⟩
    · rw [List.length_cons]
      omega
    · have := ih r' hr'
      rw [List.length_cons]
      omega

theorem orderedInsert_snoc {a x : Row} {l : List Row} (h : a.seq ≤ x.seq) :
    (l ++ [x]).orderedInsert (fun a b => a.seq ≤ b.seq) a =
      l.orderedInsert (fun a b => a.seq ≤ b.seq) a ++ [x] := by
  induction l with
  | nil => simp [List.orderedInsert, h]
  | cons b l ih =>
    rw [List.cons_append, List.orderedInsert, List.orderedInsert]
    split
    next => rfl
    next => rw [ih, List.cons_append]

theorem insertionSort_snoc {x : Row} {l : List Row} (h : ∀ a ∈ l, a.seq ≤ x.seq) :
    (l ++ [x]).insertionSort (fun a b => a.seq ≤ b.seq) =
      l.insertionSort (fun a b => a.seq ≤ b.seq) ++ [x] := by
  induction l with
  | nil => rfl
  | cons a l ih =>
    rw [List.forall_mem_cons] at h
    rw [List.cons_append, List.insertionSort_cons, List.insertionSort_cons, ih h.2,
      orderedInsert_snoc h.1]

theorem insertEvent_ok {row : Row} (h : db.insertEvent stream row = .ok db') :
    db'.rows stream = db.rows stream ++ [row] := by
  rw [Db.insertEvent] at h
  split at h
  next => cases h
  next =>
    cases h
    simp [Db.rows]

theorem checkRows_snoc {tail : String} {row : Row}
    (hcheck : checkRows sha stream (db.readRows stream) = .ok tail)
    (hrow : row = nextRow sha stream key kind (canonical data) (db.readRows stream))
    (h : db'.rows stream = db.rows stream ++ [row]) :
    checkRows sha stream (db'.readRows stream) = .ok row.eventSha := by
  have hchain := checkRows_iff.mp hcheck
  have hseq : ∀ r ∈ db.rows stream, r.seq ≤ row.seq := by
    intro r hr
    have hlt := seq_le hchain r ((List.mem_insertionSort _).mpr hr)
    have hnext : row.seq = (db.readRows stream).length + 1 := by rw [hrow, nextRow]
    omega
  rw [Db.readRows, h, insertionSort_snoc hseq, hrow]
  exact checkRows_iff.mpr (chain_nextRow hchain key kind _)

theorem appendData_again (h : appendData sha stream key kind data db = .ok ((e, created), db')) :
    appendData sha stream key kind data db' = .ok ((e, false), db') := by
  have h₀ := h
  simp only [appendData, bind_ok] at h
  obtain ⟨tail, hcheck, h⟩ := h
  split at h
  next r hr =>
    split at h
    next => cases h
    next hsame =>
      cases h
      exact h₀
  next hnone =>
    obtain ⟨db₁, hinsert, h⟩ := bind_ok.mp h
    cases h
    have hrows := insertEvent_ok hinsert
    have hfind : db'.findKey stream key =
        some (nextRow sha stream key kind (canonical data) (db.readRows stream)) := by
      have hbefore : (db.rows stream).find? (·.key = key) = none := hnone
      rw [Db.findKey, hrows, List.find?_append, hbefore]
      simp [nextRow]
    simp [appendData, checkRows_snoc hcheck rfl hrows, hfind, nextRow, bind, Except.bind]

theorem appendOnce_again {payload : Value F}
    (h : appendOnce sha stream key kind payload db = (.ok (e, created), db')) :
    appendOnce sha stream key kind payload db' = (.ok (e, false), db') := by
  rw [appendOnce] at h ⊢
  cases hp : scrubPayload stream key kind payload with
  | error _ =>
    rw [hp] at h
    cases h
  | ok data =>
    rw [hp] at h
    simp only [transaction] at h ⊢
    cases ha : appendData sha stream key kind data db with
    | error _ =>
      rw [ha] at h
      cases h
    | ok result =>
      obtain ⟨⟨e', created'⟩, db₁⟩ := result
      rw [ha] at h
      cases h
      rw [appendData_again ha]

/-- Nothing that the ledger does depends on the values under private keys, and the payloads that
differ only in them are replays of each other. -/
theorem redaction_complete (h : AgreeInPublic p q) (stream key kind : String) (db : Db) :
    appendOnce sha stream key kind (.mapping p) db =
        appendOnce sha stream key kind (.mapping q) db ∧
      (∀ e created db', appendOnce sha stream key kind (.mapping p) db = (.ok (e, created), db') →
        appendOnce sha stream key kind (.mapping q) db' = (.ok (e, false), db')) ∧
      ∀ key base, base ∈ privateKeys → Spells key base → isPrivate key = true := by
  have hsame (db : Db) : appendOnce sha stream key kind (.mapping p) db =
      appendOnce sha stream key kind (.mapping q) db := by
    rw [appendOnce, appendOnce, h.scrubPayload]
  refine ⟨hsame db, fun e created db' happend => ?_, fun _ _ hbase hspells =>
    isPrivate_of_spells hspells hbase⟩
  rw [← hsame]
  exact appendOnce_again happend

def secretPayload (secret : Value Empty) : List (Option String × Value Empty) :=
  [(some "user", .str "ann"), (some "API-Key", secret),
    (some "calls", .list [.mapping [(some "Password", secret), (some "n", .int 1)]])]

theorem redaction_complete_secrets :
    appendOnce (fun _ => "") "s" "k" "t" (.mapping (secretPayload (.str "x"))) .empty =
      appendOnce (fun _ => "") "s" "k" "t" (.mapping (secretPayload .other)) .empty := by
  have hagree : AgreeInPublic (secretPayload (.str "x")) (secretPayload .other) := by
    rfl
  exact (redaction_complete hagree "s" "k" "t" .empty).1

end SubagentBridge.AuditLedger
