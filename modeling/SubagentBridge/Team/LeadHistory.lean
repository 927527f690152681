import SubagentBridge.Team.ChannelMessages
import SubagentBridge.Storage.TeamRegistration

/-! What a history of the channel shows of the messages that were posted. -/

namespace SubagentBridge.Channel

open Library Domain

/-- The last `limit` elements, or all if there are no more than that. -/
def newest {α : Type} (limit : Nat) (l : List α) : List α := l.drop (l.length - limit)

theorem take_eq_newest {α : Type} {limit : Nat} {l : List α} (hlimit : 0 < limit) (hl : l.Nodup) :
    l.take limit = newest limit l ↔ l.length ≤ limit := by
  constructor
  · intro h
    by_contra hlong
    have hfirst : l[0]? = l[l.length - limit]? := by
      have hhead := congrArg (·[0]?) h
      simpa only [newest, List.getElem?_take_of_lt hlimit, List.getElem?_drop,
        Nat.add_zero] using hhead
    have hindex := (List.getElem?_inj (by omega) hl).mp hfirst
    omega
  · intro hshort
    rw [newest, List.take_of_length_le hshort, Nat.sub_eq_zero_of_le hshort, List.drop_zero]

variable {F : Type} [LinearOrder F] {repr : String → String}

def posts (c : (channel F repr).Config) : (channel F repr).Label → List (ChannelMessage F)
  | .start _ => []
  | .act i w => match c.calls[i]? with
    | some ⟨_, .call (.saveChannelMessage msg) _, _⟩ => if w.fails then [] else [msg]
    | _ => []

def log (sessions : Dict String (AgentSession F)) (ls : List (channel F repr).Label) :
    List (ChannelMessage F) :=
  trace Machine.step posts ((channel F repr).initial ⟨sessions, []⟩) ls

def posted (sessions : Dict String (AgentSession F)) (teamId : String)
    (ls : List (channel F repr).Label) : List (ChannelMessage F) :=
  (log sessions ls).filter (·.teamId = teamId)

structure Filed (sessions : Dict String (AgentSession F)) (log : List (ChannelMessage F))
    (db : Db F) : Prop where
  sessions : db.sessions = sessions
  messages : db.messages = log.map fun m => (m.messageId, m)
  distinct : (log.map (·.messageId)).Nodup

section Runs

variable {sessions : Dict String (AgentSession F)} {ls : List (channel F repr).Label}
variable {c c' : (channel F repr).Config} {msg : ChannelMessage F} {l : List (ChannelMessage F)}
variable {db : Db F} {o : Op F} {w : World F}

omit [LinearOrder F] in
theorem Filed.save (h : Filed sessions l db) (hnew : db.messages.get? msg.messageId = none) :
    Filed sessions (l ++ [msg]) (db.saveChannelMessage msg) := by
  have hkeys : db.messages.keys = l.map (·.messageId) := by
    rw [h.messages, Dict.keys, List.map_map]
    rfl
  have hfresh := Dict.notMem_keys.mpr hnew
  constructor
  · exact h.sessions
  · simp only [Db.saveChannelMessage, hnew]
    rw [Dict.set_of_notMem hfresh, h.messages, List.map_append, List.map_singleton]
  · rw [hkeys] at hfresh
    rw [List.map_append, List.map_singleton, List.nodup_append]
    exact ⟨h.distinct, List.nodup_singleton _, by
      rintro a ha b hb rfl
      exact hfresh (List.mem_singleton.mp hb ▸ ha)⟩

theorem exec_other (ho : ∀ msg, o ≠ .saveChannelMessage msg) : (exec o w db).2 = db := by
  cases o with
  | saveChannelMessage msg => exact (ho msg rfl).elim
  | uuidHex | now => rfl
  | loadSession | listChannelMessagesByTeam =>
    rw [exec]
    split <;> rfl

theorem filed_run (hrun : Run Machine.step ((channel F repr).initial ⟨sessions, []⟩) ls c) :
    Filed sessions (log sessions ls) c.state := by
  induction hrun with
  | refl => exact ⟨rfl, rfl, List.nodup_nil⟩
  | @tail c c' ls l hp _ hs ih =>
    rw [log, trace_snoc _ hp, ← log]
    cases l with
    | start q =>
      rw [Machine.step_start hs, posts, List.append_nil]
      exact ih
    | act i w =>
      obtain ⟨q, o, k, h, hact⟩ := Machine.step_act hs
      rw [hact.result, posts, hact.call]
      by_cases ho : ∃ msg, o = .saveChannelMessage msg
      · obtain ⟨msg, rfl⟩ := ho
        have hnew := Option.isNone_iff_eq_none.mp hact.possible
        cases hw : w.fails with
        | true => simpa [exec, hw] using ih
        | false => simpa [exec, hw] using ih.save hnew
      · have hother : (exec o w c.state).2 = c.state := exec_other fun msg hmsg => ho ⟨msg, hmsg⟩
        rw [show (channel F repr).exec o w c.state = exec o w c.state from rfl, hother]
        cases o with
        | saveChannelMessage msg => exact (ho ⟨msg, rfl⟩).elim
        | _ => simpa using ih

/-! ## Readers -/

def Loads (sessions : Dict String (AgentSession F)) : (o : Op F) → Except Error o.Ret → Prop
  | .loadSession sessionId, .ok found => found = sessions.get? sessionId
  | _, _ => True

abbrev reading (sessions : Dict String (AgentSession F)) : Protocol (sig F) Error :=
  .ofHistory (fun (_ : Request) _ _ => True) (Loads sessions)

def Shows (sessions : Dict String (AgentSession F)) :
    Request → (reading sessions).Mode → Except Error (Response F) → Prop
  | .readLeadHistory sessionId limit, m, .ok (.history shown) => ∃ session h,
    sessions.get? sessionId = some session ∧
      m.2 = h ++ [⟨.listChannelMessagesByTeam session.teamId limit, .ok shown⟩]
  | _, _, _ => True

omit [LinearOrder F] in
theorem body_shows (q : Request) :
    (body repr q).Follows (reading sessions) (Shows sessions q) (q, []) := by
  cases q with
  | postMessage fromSessionId toSessionId content =>
    have hall := Proc.only_of_forall (S := sig F) (A := fun _ => True) (fun _ => trivial)
      (body repr (.postMessage fromSessionId toSessionId content))
    refine (hall.follows (I := fun _ => True) trivial fun _ _ _ _ =>
      ⟨trivial, fun _ _ => trivial⟩).mono ?_
    intro m r _
    trivial
  | readLeadHistory sessionId limit =>
    rw [body, Proc.bind_eq, readLeadHistory, Proc.bind_eq, Proc.bind_assoc]
    refine (Proc.follows_op_bind ..).mpr ⟨trivial, fun found hfound => ?_, fun _ _ => trivial⟩
    cases found with
    | none => trivial
    | some session =>
      refine (Proc.follows_op_bind ..).mpr ⟨trivial, fun shown _ => ?_, fun _ _ => trivial⟩
      exact ⟨session, _, hfound.symm, rfl⟩

theorem loads_answered : Machine.Answered (M := channel F repr) (reading sessions)
    (fun _ _ => True) ⟨sessions, []⟩ := by
  intro ls c o w hrun _
  have hsess := (filed_run hrun).sessions
  cases o with
  | loadSession sessionId =>
    simp only [exec]
    split
    · trivial
    · exact congrArg (Dict.get? · sessionId) hsess
  | uuidHex | now | saveChannelMessage | listChannelMessagesByTeam => trivial

def answerOf (c : (channel F repr).Config) (i : Nat) :
    Option (String × Int × List (ChannelMessage F)) :=
  match c.calls[i]? with
  | some ⟨.readLeadHistory sessionId limit, .ret (.history shown), _⟩ =>
    some (sessionId, limit, shown)
  | _ => none

structure Reads (c : (channel F repr).Config) (i : Nat) (w : World F)
    (c' : (channel F repr).Config) (sessionId : String) (limit : Int)
    (shown : List (ChannelMessage F)) : Prop where
  step : Machine.step c (.act i w) = some c'
  answer : answerOf c' i = some (sessionId, limit, shown)

theorem Reads.returned {sessionId : String} {limit : Int} {shown : List (ChannelMessage F)}
    {i : Nat} (hread : Reads c i w c' sessionId limit shown) : ∃ h,
    c'.calls[i]? = some ⟨.readLeadHistory sessionId limit, .ret (.history shown), h⟩ := by
  have hans := hread.answer
  rw [answerOf] at hans
  split at hans
  next h hc =>
    cases hans
    exact ⟨h, hc⟩
  next => cases hans

theorem Reads.listed {session : AgentSession F} {sessionId : String} {limit : Int}
    {shown : List (ChannelMessage F)} {i : Nat}
    (hrun : Run Machine.step ((channel F repr).initial ⟨sessions, []⟩) ls c)
    (hread : Reads c i w c' sessionId limit shown)
    (hsess : sessions.get? sessionId = some session) :
    shown = c.state.listChannelMessagesByTeam session.teamId limit := by
  obtain ⟨h₁, ha⟩ := hread.returned
  obtain ⟨q, o, k, h, hact⟩ := Machine.step_act hread.step
  have hend := Machine.finished (Q := Shows sessions) body_shows loads_answered
    (.tail hrun trivial hread.step) (List.mem_of_getElem? ha) rfl
  obtain ⟨rfl, -, rfl⟩ := Machine.Activity.mk.inj
    (Option.some.inj (ha.symm.trans hact.call_after))
  rw [Machine.Activity.mode, Protocol.after_ofHistory, List.nil_append] at hend
  obtain ⟨reader, h', hreader, hlast⟩ := hend
  obtain rfl := Option.some.inj (hsess.symm.trans hreader)
  obtain ⟨-, hev⟩ := List.append_singleton_inj.mp hlast
  obtain ⟨rfl, hans⟩ := Event.mk.inj hev
  have hans := eq_of_heq hans
  change (exec (.listChannelMessagesByTeam session.teamId limit) w c.state).1 = _ at hans
  rw [exec] at hans
  split at hans
  · cases hans
  · exact (Except.ok.inj hans).symm

end Runs

/-! ## Two messages -/

def sampleSession (role : AgentRole) (sessionId : String) : AgentSession Int :=
  TeamStore.registered role "t" (TeamStore.leadConfig sessionId "t") 0

def pair : Dict String (AgentSession Int) :=
  [("lead", sampleSession .lead "lead"), ("worker", sampleSession .worker "worker")]

def moment (time : Int) (hex : String) : World Int := ⟨time, hex, false⟩

abbrev SampleChannel := channel Int id

def twoPosts (limit : Int) : List SampleChannel.Label :=
  .start (.postMessage "lead" "worker" "first") :: .start (.postMessage "lead" "worker" "second") ::
    .start (.readLeadHistory "worker" limit) :: List.replicate 5 (.act 0 (moment 1 "a")) ++
      List.replicate 5 (.act 1 (moment 2 "b")) ++ [.act 2 (moment 3 "")]

def sampleMessage (messageId content : String) (createdAt : Int) : ChannelMessage Int :=
  ⟨messageId, "t", "lead", "worker", content, "lead", createdAt⟩

theorem reads_twoPosts (limit : Int) (shown : List (ChannelMessage Int))
    (h : ((Library.exec Machine.step (SampleChannel.initial ⟨pair, []⟩) (twoPosts limit)).any
      fun c => (Machine.step c (.act 2 (moment 3 ""))).any fun c' =>
        answerOf c' 2 = some ("worker", limit, shown)) = true) :
    ∃ c c', Run Machine.step (SampleChannel.initial ⟨pair, []⟩) (twoPosts limit) c ∧
      Reads c 2 (moment 3 "") c' "worker" limit shown := by
  obtain ⟨c, hc, hany⟩ := run_of_any h
  obtain ⟨c', hs, hans⟩ := (Option.any_eq_true _ _).mp hany
  exact ⟨c, c', hc, hs, of_decide_eq_true hans⟩

end SubagentBridge.Channel
