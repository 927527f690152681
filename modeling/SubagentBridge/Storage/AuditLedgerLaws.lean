import SubagentBridge.Library.JsonLaws
import SubagentBridge.Storage.AuditLedger

/-! The ledger's rows form hash chains: no run breaks them, and with an external
tail no edit of the file goes unnoticed. -/

namespace SubagentBridge.AuditLedger

open Library

/-! ## The chain of a stream -/

section Chain

variable (sha : String → String) (stream : String)

def chain : HashChain Row String String where
  genesis := GENESIS
  stored := Row.eventSha
  text n prev r := digestText stream n r.key r.kind r.payloadJson prev
  hash := sha
  Sound n prev r := r.seq = n ∧ r.prevSha = prev

/-- The texts that `_check_rows` hashes on its way through the rows. -/
def hashedTexts (rows : List Row) : List String := (chain sha stream).texts 1 GENESIS rows

variable {sha stream} {n : Nat} {prev tail : String} {rows rows' : List Row} {r : Row}

theorem checkFrom_iff :
    checkFrom sha stream n prev rows = .ok tail ↔ (chain sha stream).Links n prev rows tail := by
  induction rows generalizing n prev with
  | nil =>
    simp only [checkFrom, Except.ok.injEq]
    constructor
    · intro h
      rw [← h]
      exact .nil _ _
    · intro h
      cases h
      rfl
  | cons r rs ih =>
    rw [checkFrom]
    constructor
    · intro h
      split at h
      next => cases h
      next hc =>
        simp only [not_or, ne_eq, not_not] at hc
        refine .cons ⟨hc.1, hc.2.1⟩ ?_ (ih.mp h)
        have hd := hc.2.2.symm
        rw [hc.1] at hd
        exact hd
    · intro h
      cases h with
      | cons hs hd hl =>
        rw [if_neg]
        · exact ih.mpr hl
        · simp only [not_or, ne_eq, not_not]
          exact ⟨hs.1, hs.2, by rw [hs.1]; exact hd.symm⟩

theorem checkRows_iff :
    checkRows sha stream rows = .ok tail ↔ (chain sha stream).Chain rows tail := checkFrom_iff

theorem chain_nextRow (h : (chain sha stream).Chain rows tail) (key kind body : String) :
    (chain sha stream).Chain (rows ++ [nextRow sha stream key kind body rows])
      (nextRow sha stream key kind body rows).eventSha := by
  obtain rfl : tail = prevOf rows := h.stored_last
  have hseq : ((1 + rows.length : Nat) : Int) = rows.length + 1 := by omega
  refine HashChain.Links.snoc h ⟨?_, rfl⟩ ?_
  · simp only [nextRow, hseq]
  · simp only [chain, nextRow, digest, hseq]

theorem digestText_injective {s s' : String} {n n' : Int} {k k' t t' b b' p p' : String}
    (h : digestText s n k t b p = digestText s' n' k' t' b' p') :
    s = s' ∧ n = n' ∧ k = k' ∧ t = t' ∧ b = b' ∧ p = p' := by
  have hinj := print_injective .compact (by simp [Json.sortKeys, sortElems, Json.Wf, WfElems])
    (by simp [Json.sortKeys, sortElems, Json.Wf, WfElems]) (String.ofList_injective h)
  simpa [Json.sortKeys, sortElems] using hinj

theorem chain_text_injective {m : Nat} {q : String} {r' : Row}
    (hs : (chain sha stream).Sound n prev r) (hs' : (chain sha stream).Sound m q r')
    (hd : r.eventSha = r'.eventSha)
    (h : (chain sha stream).text n prev r = (chain sha stream).text m q r') :
    n = m ∧ prev = q ∧ r = r' := by
  obtain ⟨-, hn, hk, ht, hb, hp⟩ := digestText_injective h
  have hn := Int.ofNat_inj.mp hn
  refine ⟨hn, hp, ?_⟩
  cases r
  cases r'
  obtain ⟨rfl, rfl⟩ := hs
  obtain ⟨rfl, rfl⟩ := hs'
  simp_all

/-- SHA-256 behaves, on the texts in `T`, as if it had no collision, and does not hit
the genesis value. -/
structure CollisionFree (sha : String → String) (T : Set String) : Prop where
  inj : Set.InjOn sha T
  ne_genesis : ∀ x ∈ T, sha x ≠ GENESIS

theorem checkRows_tail_unique {T : Set String} (hT : CollisionFree sha T)
    (h : checkRows sha stream rows = .ok tail) (h' : checkRows sha stream rows' = .ok tail)
    (hr : ∀ x ∈ hashedTexts sha stream rows, x ∈ T)
    (hr' : ∀ x ∈ hashedTexts sha stream rows', x ∈ T) : rows = rows' :=
  HashChain.Chain.unique chain_text_injective hT.inj hT.ne_genesis
    (checkRows_iff.mp h) (checkRows_iff.mp h') hr hr'

theorem verify_ok {db : Db} {expectedTail : Option String}
    (h : verify sha stream expectedTail db = .ok tail) :
    checkRows sha stream (db.readRows stream) = .ok tail ∧ ∀ t ∈ expectedTail, t = tail := by
  simp only [verify, bind, Except.bind, pure, Except.pure] at h
  split at h
  next => cases h
  next t hc =>
    split at h
    next => cases h
    next hne =>
      obtain rfl := Except.ok.inj h
      refine ⟨hc, ?_⟩
      intro u hu
      cases hu
      simpa using hne

theorem verify_of_check {db : Db} {expectedTail : Option String}
    (h : checkRows sha stream (db.readRows stream) = .ok tail)
    (hexp : expectedTail = none ∨ expectedTail = some tail) :
    verify sha stream expectedTail db = .ok tail := by
  simp only [verify, bind, Except.bind, pure, Except.pure, h]
  rw [if_neg]
  rintro ⟨hne, hne'⟩
  exact hexp.elim hne hne'

/-- With the tail kept outside, a ledger file verifies on the recorded rows only. -/
theorem tamper_evident (sha : String → String) (T : Set String) (hT : CollisionFree sha T)
    (stream : String) :
    (∀ rows rows' : List Row, ∀ tail,
      (∀ x ∈ hashedTexts sha stream rows, x ∈ T) → (∀ x ∈ hashedTexts sha stream rows', x ∈ T) →
      checkRows sha stream rows = .ok tail → checkRows sha stream rows' = .ok tail →
        rows = rows') ∧
    ∀ db db' : Db, ∀ tail tail',
      (∀ x ∈ hashedTexts sha stream (db.readRows stream), x ∈ T) →
      (∀ x ∈ hashedTexts sha stream (db'.readRows stream), x ∈ T) →
      verify sha stream none db = .ok tail → verify sha stream (some tail) db' = .ok tail' →
        db'.readRows stream = db.readRows stream := by
  constructor
  · intro rows rows' tail hr hr' h h'
    exact checkRows_tail_unique hT h h' hr hr'
  · intro db db' tail tail' hr hr' h h'
    obtain ⟨hc, -⟩ := verify_ok h
    obtain ⟨hc', htail⟩ := verify_ok h'
    rw [← htail tail rfl] at hc'
    exact checkRows_tail_unique hT hc' hc hr' hr

/-- An ideal hash, and two events that a copy of the file stores in the opposite order. -/
theorem tamper_evident_reordered :
    let sha := fun text => "sha256:" ++ text
    let first := nextRow sha "run" "k" "START" "{}" []
    let second := nextRow sha "run" "l" "STOP" "{}" [first]
    Db.readRows ⟨[{ second with stream := "run" }, { first with stream := "run" }], []⟩ "run" =
      Db.readRows ⟨[{ first with stream := "run" },
        { second with stream := "run" }], []⟩ "run" := by
  intro sha first second
  have hT : CollisionFree sha Set.univ := by
    constructor
    · intro x _ y _ h
      simpa [sha] using h
    · intro x _ h
      have hzero : GENESIS.toList.head? = some '0' := by decide
      rw [← h] at hzero
      simp [sha, String.toList_append] at hzero
  have hcheck : checkRows sha "run" [first, second] = .ok second.eventSha :=
    checkRows_iff.mpr (chain_nextRow (chain_nextRow (.nil _ _) "k" "START" "{}") "l" "STOP" "{}")
  have hread : ∀ r r' : Row, r.seq < r'.seq →
      Db.readRows ⟨[{ r with stream := "run" }, { r' with stream := "run" }], []⟩ "run" = [r, r'] ∧
      Db.readRows ⟨[{ r' with stream := "run" }, { r with stream := "run" }],
        []⟩ "run" = [r, r'] := by
    intro r r' h
    simp [Db.readRows, Db.rows, List.orderedInsert, h.le, not_le.mpr h]
  obtain ⟨h₁, h₂⟩ := hread first second (by simp [first, second, nextRow])
  refine (tamper_evident sha Set.univ hT "run").2 _ _ second.eventSha second.eventSha
    (fun _ _ => trivial) (fun _ _ => trivial) (verify_of_check ?_ (.inl rfl))
    (verify_of_check ?_ (.inr rfl))
  · rw [h₁, hcheck]
  · rw [h₂, hcheck]

end Chain

/-! ## Payloads -/

section Payloads

variable {F : Type}

mutual

theorem wf_scrub : ∀ {v : Value F} {w : Json (Option F)}, scrub v = .ok w → w.Wf
  | .none, _, h | .bool _, _, h | .int _, _, h | .float _, _, h | .str _, _, h => by
    simp only [scrub, Except.ok.injEq] at h
    subst h
    simp [Json.Wf]
  | .other, _, h => by simp [scrub] at h
  | .list xs, _, h => by
    simp only [scrub] at h
    cases hx : scrubElems xs with
    | error e => rw [hx] at h; cases h
    | ok ys =>
      rw [hx] at h
      cases h
      simpa [Json.Wf] using wf_scrubElems hx
  | .mapping items, _, h => by
    simp only [scrub] at h
    cases hx : scrubItems [] items with
    | error e => rw [hx] at h; cases h
    | ok d =>
      rw [hx] at h
      cases h
      simpa [Json.Wf] using wf_scrubItems hx (by simp [Dict.keys]) trivial

theorem wf_scrubElems :
    ∀ {xs : List (Value F)} {ys : List (Json (Option F))}, scrubElems xs = .ok ys → WfElems ys
  | [], _, h => by cases h; trivial
  | x :: xs, _, h => by
    simp only [scrubElems, bind, Except.bind, pure, Except.pure] at h
    split at h
    next => cases h
    next y hy =>
      split at h
      next => cases h
      next ys hys =>
        cases h
        exact ⟨wf_scrub hy, wf_scrubElems hys⟩

theorem wf_scrubItems :
    ∀ {items : List (Option String × Value F)} {result d : Dict String (Json (Option F))},
      scrubItems result items = .ok d → result.keys.Nodup → WfMembers result →
        d.keys.Nodup ∧ WfMembers d
  | [], _, _, h, hk, hm => by cases h; exact ⟨hk, hm⟩
  | (none, _) :: _, _, _, h, _, _ => by simp [scrubItems] at h
  | (some key, item) :: items, result, _, h, hk, hm => by
    have hset : ∀ y : Json (Option F), y.Wf → WfMembers (result.set key y) := by
      intro y hy
      rw [wfMembers_iff] at hm ⊢
      intro p hp
      rcases Dict.mem_set hp with hp | rfl
      · exact hm p hp
      · exact hy
    simp only [scrubItems, bind, Except.bind] at h
    split at h
    next =>
      exact wf_scrubItems h (Dict.nodup_keys_set hk key _) (hset _ (by simp [Json.Wf]))
    next =>
      split at h
      next => cases h
      next y hy =>
        exact wf_scrubItems h (Dict.nodup_keys_set hk key y) (hset y (wf_scrub hy))

end

def redacted (d : Dict String String) : Dict String String :=
  d.map fun p => (p.1, if isPrivate p.1 then "[REDACTED]" else p.2)

theorem scrubItems_strings (kept d : Dict String String) :
    scrubItems (F := F) (kept.map fun p => (p.1, .str p.2))
        (d.map fun p => (some p.1, .str p.2)) =
      .ok ((kept.update (redacted d)).map fun p => (p.1, .str p.2)) := by
  induction d generalizing kept with
  | nil => rfl
  | cons p d ih =>
    have hkept : ∀ v : String, (Dict.set (kept.map fun p => (p.1, (.str p.2 : Json (Option F))))
        p.1 (.str v)) = (kept.set p.1 v).map fun p => (p.1, .str p.2) :=
      Dict.set_mapValues Json.str kept p.1
    rw [List.map_cons, scrubItems, redacted, List.map_cons]
    split
    · exact (congrArg (scrubItems · _) (hkept _)).trans (ih _)
    · exact (congrArg (scrubItems · _) (hkept _)).trans (ih _)

theorem redacted_of_public {d : Dict String String} (h : ∀ p ∈ d, isPrivate p.1 = false) :
    redacted d = d := by
  conv_rhs => rw [← List.map_id d]
  refine List.map_congr_left fun p hp => ?_
  rw [h p hp]
  rfl

theorem scrubPayload_strings {stream key kind : String} {d : Dict String String}
    (hblank : isBlank stream = false ∧ isBlank key = false ∧ isBlank kind = false)
    (hpublic : ∀ p ∈ d, isPrivate p.1 = false) (hd : d.keys.Nodup) :
    scrubPayload stream key kind (.mapping (d.map fun p => (some p.1, .str p.2)) : Value F) =
      .ok (.ofDict d) := by
  have hitems := scrubItems_strings (F := F) [] d
  rw [redacted_of_public hpublic, Dict.update_nil_of_nodup hd, List.map_nil] at hitems
  have hscrub : scrub (.mapping (d.map fun p => (some p.1, .str p.2)) : Value F) =
      .ok (.ofDict d) := by
    rw [scrub, hitems]
    rfl
  obtain ⟨h₁, h₂, h₃⟩ := hblank
  simp [scrubPayload, h₁, h₂, h₃, bind, Except.bind, hscrub, requireFinite, allFinite_ofDict]

variable [FloatText F] {stream key kind : String} {payload : Value F} {data : Json F}

omit [FloatText F] in
theorem wf_scrubPayload (h : scrubPayload stream key kind payload = .ok data) : data.Wf := by
  simp only [scrubPayload, bind, Except.bind] at h
  split at h
  next => cases h
  next =>
    split at h
    next =>
      split at h
      next => cases h
      next v hv =>
        rw [requireFinite] at h
        split at h
        next w hw => cases h; exact wf_allFinite hw (wf_scrub hv)
        next => cases h
    next => cases h

def SameData (v w : Json F) : Prop := v.sortKeys = w.sortKeys

theorem canonical_eq_iff {v w : Json F} (hv : v.Wf) (hw : w.Wf) :
    canonical v = canonical w ↔ SameData v w := by
  constructor
  · intro h
    exact print_injective .compact hv.sortKeys hw.sortKeys (String.ofList_injective h)
  · intro h
    rw [canonical, h, canonical]

theorem loads_canonical {v : Json F} (hv : v.Wf) :
    Json.loads (canonical v) = some v.sortKeys := loads_print .compact hv.sortKeys

end Payloads

end SubagentBridge.AuditLedger
